import Linewise.Proofs.Grammar.Building
import Linewise.Proofs.Grammar.References
import Linewise.Proofs.Registry.Named
import Linewise.Registry.Basic

/-!
# Slots, and the names without one

What a loading does to the slots and the index, whatever it builds. Nothing here asks how grammars
are made of descriptions.

## 1.  Reserving and taking back

A reserved slot is the next one, and the new entry of the index is the last (`index_reserve`). What
lies behind a mark can be taken back, and nothing else is touched (`rollBack_eq`).

## 2.  Failing computations

A computation that is undone when it fails ends in the registry that it began with, apart from what
`rollBack` makes of it (`meets_undoing`). What is looked up while a grammar is built is known
(`meets_resolver`).

## 3.  Names without a slot

A name is *pending* if it has a description but no slot. A name that is being loaded has its slot
already and is pending no more (`length_pending_reserve_lt`). `Registry.Reaches` lists the names
that a name leads to through names without a slot.
-/

namespace Linewise
namespace Registry

variable {r r' : Registry} {name k : String} {d : Description}

/-! ## 1.  Reserving and taking back -/

/-- Every name in the index has a slot. -/
def Indexed (r : Registry) : Prop := ∀ x ∈ r.index, x.2 < r.slots.size

theorem lt_size_of_grammar? {g : Grammar} {id : Nat} (h : r.grammar? id = some g) :
    id < r.slots.size := by
  rw [grammar?] at h
  rcases Nat.lt_or_ge id r.slots.size with hlt | hge
  · exact hlt
  · rw [Array.getElem?_eq_none hge] at h
    cases h

/-- A reserved slot is that of its name. -/
theorem index_reserve (hfresh : r.slot? name = none) :
    (r.reserve name).index = r.index ++ [(name, r.slots.size)] :=
  Named.put_of_find?_eq_none hfresh _

theorem size_slots_reserve (r : Registry) (name : String) :
    (r.reserve name).slots.size = r.slots.size + 1 := Array.size_push _

theorem slot?_reserve (r : Registry) (name k : String) :
    (r.reserve name).slot? k = if k = name then some r.slots.size else r.slot? k :=
  Named.find?_put _ _ _ _

theorem Indexed.reserve (hr : r.Indexed) (hfresh : r.slot? name = none) :
    (r.reserve name).Indexed := by
  intro x hx
  rw [index_reserve hfresh, List.mem_append, List.mem_singleton] at hx
  rw [size_slots_reserve]
  rcases hx with hx | rfl
  · exact Nat.lt_succ_of_lt (hr x hx)
  · exact Nat.lt_succ_self _

/-- What was added behind the mark can be taken away again. -/
theorem rollBack_eq {entries : Named Nat} {slots : Array (Option Grammar)} (hr : r.Indexed)
    (hdescriptions : r'.descriptions = r.descriptions) (hextensions : r'.extensions = r.extensions)
    (hlabel : r'.defaultLabel = r.defaultLabel) (hslots : r'.slots = r.slots ++ slots)
    (hindex : r'.index = r.index ++ entries) (hentries : ∀ x ∈ entries, r.slots.size ≤ x.2) :
    r'.rollBack r.slots.size = r := by
  have hold : r.index.filter (fun x => x.2 < r.slots.size) = r.index :=
    List.filter_eq_self.mpr fun x hx => decide_eq_true (hr x hx)
  have hnew : entries.filter (fun x => x.2 < r.slots.size) = [] :=
    List.filter_eq_nil_iff.mpr fun x hx => by simpa using hentries x hx
  have htake : (r.slots ++ slots).take r.slots.size = r.slots := by simp
  rw [rollBack, hdescriptions, hextensions, hlabel, hslots, hindex, htake, List.filter_append, hold,
    hnew, List.append_nil]

theorem rollBack_self (hr : r.Indexed) : r.rollBack r.slots.size = r :=
  rollBack_eq hr rfl rfl rfl Array.append_empty.symm (List.append_nil _).symm (by simp)

/-! ## 2.  Failing computations -/

section

variable {α : Type} {x : Building Registry α} {a : α} {e : Error}
  {load load' : String → Building Registry Nat}

theorem runOn_undoing_of_ok (hx : x.runOn r = (.ok a, r')) :
    (undoing x).runOn r = (.ok a, r') := by
  change x.run.run r = _ at hx
  simp only [undoing, Building.runOn, ExceptT.run_mk, StateT.run_bind, StateT.run_get, pure_bind,
    hx]
  rfl

theorem runOn_undoing_of_error (hx : x.runOn r = (.error e, r')) :
    (undoing x).runOn r = (.error e, r'.rollBack r.slots.size) := by
  change x.run.run r = _ at hx
  simp only [undoing, Building.runOn, ExceptT.run_mk, StateT.run_bind, StateT.run_get, pure_bind,
    hx]
  rfl

theorem meets_undoing {post : α → Registry → Prop} {fail : Error → Registry → Prop}
    (hx : x.Meets r post fun e t => fail e (t.rollBack r.slots.size)) :
    (undoing x).Meets r post fail := by
  match h : x.runOn r with
  | (.ok a, t) =>
    rw [Building.Meets, runOn_undoing_of_ok h]
    exact hx.ok h
  | (.error e, t) =>
    rw [Building.Meets, runOn_undoing_of_error h]
    exact hx.error h

theorem runOn_undoing_congr {y : Building Registry α} (h : x.runOn r = y.runOn r) :
    (undoing x).runOn r = (undoing y).runOn r := by
  match hx : x.runOn r with
  | (.ok a, t) => rw [runOn_undoing_of_ok hx, runOn_undoing_of_ok (h.symm.trans hx)]
  | (.error e, t) => rw [runOn_undoing_of_error hx, runOn_undoing_of_error (h.symm.trans hx)]

/-- Whether anything is known of a name. -/
def knows (r : Registry) (name : String) : Bool := r.index.has name || r.descriptions.has name

/-- What is loaded while a grammar is built is known. -/
theorem meets_resolver {post : Option Nat → Registry → Prop} {fail : Error → Registry → Prop}
    (hload : r.knows name = true → (load name).Meets r (fun id t => post (some id) t) fail)
    (hnone : r.knows name = false → post none r) : (resolver load name).Meets r post fail := by
  refine Building.meets_get_bind ?_
  split
  · next hknown => exact (hload hknown).bind fun id t hpost => Building.meets_pure hpost
  · next hunknown => exact Building.meets_pure (hnone (Bool.eq_false_iff.mpr hunknown))

theorem runOn_resolver_congr (h : (load name).runOn r = (load' name).runOn r) :
    (resolver load name).runOn r = (resolver load' name).runOn r := by
  rw [resolver, resolver, Building.runOn_get_bind, Building.runOn_get_bind]
  split
  · exact Building.runOn_bind_congr h
  · rfl

end

/-! ## 3.  Names without a slot -/

/-- The descriptions whose names have no slot. -/
def pending (r : Registry) : Named Description := r.descriptions.filter fun x => !r.index.has x.1

theorem has_index_eq_false_iff : r.index.has name = false ↔ r.slot? name = none := by
  rw [Named.has, ← slot?, Option.isSome_eq_false_iff, Option.isNone_iff_eq_none]

/-- There are no more names without a slot than there are descriptions. -/
theorem length_pending_le (r : Registry) : r.pending.length ≤ r.descriptions.length :=
  List.length_filter_le _ _

/-- A name that is being loaded is not pending any more. -/
theorem length_pending_reserve_lt (hfresh : r.slot? name = none)
    (hd : r.descriptions.find? name = some d) :
    (r.reserve name).pending.length < r.pending.length := by
  have hless : (r.reserve name).pending =
      r.pending.filter fun x => !(r.reserve name).index.has x.1 := by
    rw [pending, pending, List.filter_filter]
    refine List.filter_congr fun x _ => ?_
    rw [Bool.eq_iff_iff, Bool.and_eq_true, iff_self_and, Bool.not_eq_true', Bool.not_eq_true',
      has_index_eq_false_iff, has_index_eq_false_iff, slot?_reserve]
    intro hx
    split at hx
    · cases hx
    · exact hx
  rw [hless, List.length_filter_lt_length_iff_exists]
  refine ⟨(name, d), List.mem_filter.mpr ⟨Named.mem_of_find?_eq_some hd, ?_⟩, ?_⟩
  · rw [Bool.not_eq_true', has_index_eq_false_iff]
    exact hfresh
  · rw [Bool.not_eq_true, Bool.not_eq_false', Named.has, ← slot?, slot?_reserve, if_pos rfl,
      Option.isSome_some]

/-- The names that are reached from a name by references, through names that have no slot. -/
inductive Reaches (r : Registry) (name : String) : String → Prop where
  /-- The name itself. -/
  | self (hname : r.slot? name = none) : Reaches r name name
  /-- What the description of such a name refers to. -/
  | step {k m : String} {d : Description} (h : Reaches r name k)
      (hd : r.descriptions.find? k = some d) (hm : m ∈ d.references) (hslot : r.slot? m = none) :
      Reaches r name m

/-- The name itself has no slot. -/
theorem Reaches.slot?_eq_none (h : Reaches r name k) : r.slot? name = none := by
  induction h with
  | self hname => exact hname
  | step _ _ _ _ ih => exact ih

/-- What is reached while other names are being loaded was reached before. -/
theorem Reaches.trans_of_later {m : String} (hm : Reaches r name m) (hk : Reaches r' m k)
    (hdescriptions : r'.descriptions = r.descriptions)
    (hslot : ∀ k, r'.slot? k = none → r.slot? k = none) : Reaches r name k := by
  induction hk with
  | self => exact hm
  | step _ hd hreferences hnone ih =>
    rw [hdescriptions] at hd
    exact ih.step hd hreferences (hslot _ hnone)

end Registry
end Linewise
