import Linewise.Proofs.Registry.Calls
import Mathlib.Logic.Function.Iterate

/-!
# All that is referred to is loaded

Descriptions can refer to each other in any way, also to themselves, and a loading has to come to an
end all the same, with every reference at the slot where the grammar is in the end.

## 1.  Loadings come to an end

`Registry.load` bounds how many loadings can be inside of each other. The bound is never met:
whatever is done where it would be (`beyond`), the loading does the same (`runOn_iterate_loading`).
So `load` is what the recursion without a bound does (`runOn_load_eq_loading`).

## 2.  What is loaded

`Registry.Ties` says what a loading leaves: as many new slots as there are names to be reached by
references, each with the grammar of its name, in which every reference is to the slot that the name
of the reference has in the end.
-/

namespace Linewise
namespace Registry

section Engine

variable [Regex.Engine] {r r' : Registry} {name k : String} {added : Named Grammar}

/-! ## 1.  Loadings come to an end -/

section

variable {load load' : String → Building Registry Nat}

/-- A loading does the same if the grammar of the name is built in the same way. -/
theorem runOn_loading_congr
    (h : r.slot? name = none → ∀ d, r.descriptions.find? name = some d →
      (buildGrammar (resolver load) r.defaultLabel d).runOn (r.reserve name) =
        (buildGrammar (resolver load') r.defaultLabel d).runOn (r.reserve name)) :
    (loading load name).runOn r = (loading load' name).runOn r := by
  rw [loading, loading, Building.runOn_get_bind, Building.runOn_get_bind]
  split
  · rfl
  · next hfresh =>
    refine runOn_undoing_congr ?_
    rw [buildSlot, buildSlot, Building.runOn_get_bind, Building.runOn_get_bind]
    split
    · rfl
    · next d hd =>
      rw [Building.runOn_modify_bind, Building.runOn_modify_bind]
      exact Building.runOn_bind_congr (h hfresh d hd)

/-- A name that is looked up while a grammar is built leaves the loading of that grammar further on.
-/
theorem Underway.agree_resolver {n : Nat} {m : String} {d : Description} {t : Registry}
    (ht : Underway r name t) (hr : r.Indexed) (hfresh : r.slot? name = none)
    (hd : r.descriptions.find? name = some d) (hm : m ∈ d.references)
    (h : (load m).runOn t = (loadWithin n m).runOn t) :
    Building.Agree (Underway r name) (resolver load m) (resolver (loadWithin n) m) t := by
  have hserves : (resolver (loadWithin n)).Serves d.references (Underway r name) slot?
      fun _ t => Underway r name t := by
    refine serves_resolver hfresh hd (fun m _ t ht _ => ?_) (fun _ _ _ ht _ _ => ht)
      fun _ _ _ ht => ht
    refine (meets_loadWithin n m t (ht.indexed hr hfresh)).imp (fun _ _ hloaded => hloaded) ?_
    rintro e _ ⟨rfl, -⟩
    exact ht
  have hsame := runOn_resolver_congr h
  refine ⟨hsame, fun answer t' hanswer => ?_⟩
  have hend := (hserves.answers m hm t ht).ok (hsame ▸ hanswer)
  cases answer with
  | some id => exact hend.1
  | none => exact hend 0

/-- Loadings that do the same wherever fewer names are pending do the same around them. -/
theorem runOn_loading_of_agree {n : Nat}
    (h : ∀ m t, t.Indexed → t.pending.length < n → (load m).runOn t = (loadWithin n m).runOn t)
    (hr : r.Indexed) (hn : r.pending.length < n + 1) :
    (loading load name).runOn r = (loadWithin (n + 1) name).runOn r := by
  rw [loadWithin_succ]
  refine runOn_loading_congr fun hfresh d hd => ?_
  have hagree : ∀ m ∈ d.references, ∀ t, Underway r name t →
      Building.Agree (Underway r name) (resolver load m) (resolver (loadWithin n) m) t := by
    intro m hm t ht
    have hless := Nat.lt_of_lt_of_le (ht.length_pending_lt hfresh hd) (Nat.le_of_lt_succ hn)
    exact ht.agree_resolver hr hfresh hd hm (h m t (ht.indexed hr hfresh) hless)
  exact (agree_buildGrammar hagree r.defaultLabel d (List.Subset.refl _) (r.reserve name)
    (underway_reserve r name)).1

end

/-- **Where loadings can be inside of each other as often as names are pending, it does not matter
what is done beyond.** -/
theorem runOn_iterate_loading (beyond : String → Building Registry Nat) (n : Nat) (hr : r.Indexed)
    (hn : r.pending.length < n) :
    (loading^[n] beyond name).runOn r = (loadWithin n name).runOn r := by
  induction n generalizing name r with
  | zero => exact absurd hn (Nat.not_lt_zero _)
  | succ n ih =>
    -- the outermost loading is split off, since the hypothesis is about those inside of it
    rw [Function.iterate_succ_apply']
    exact runOn_loading_of_agree (fun m t ht hless => ih ht hless) hr hn

theorem iterate_loading_loadWithin (n k : Nat) :
    loading^[n] (loadWithin k) = loadWithin (n + k) := by
  induction n with
  | zero => rw [Nat.zero_add, Function.iterate_zero_apply]
  | succ n ih => rw [Function.iterate_succ_apply', ih, Nat.succ_add, loadWithin_succ]

/-- Enough is enough: more loadings inside of each other change nothing. -/
theorem runOn_loadWithin_add {n : Nat} (k : Nat) (hr : r.Indexed) (hn : r.pending.length < n) :
    (loadWithin (n + k) name).runOn r = (loadWithin n name).runOn r := by
  rw [← iterate_loading_loadWithin]
  exact runOn_iterate_loading _ n hr hn

theorem runOn_load_eq (name : String) (r : Registry) :
    (load name).runOn r = (loadWithin (r.descriptions.length + 1) name).runOn r := by
  rw [load, Building.runOn_get_bind]

/-- What a loading does, with any bound that is enough. -/
theorem runOn_loadWithin_eq_load {n : Nat} (hr : r.Indexed) (hn : r.pending.length < n) :
    (loadWithin n name).runOn r = (load name).runOn r := by
  have hbound : r.pending.length < r.descriptions.length + 1 :=
    Nat.lt_succ_of_le r.length_pending_le
  rw [runOn_load_eq]
  rcases Nat.le_total n (r.descriptions.length + 1) with hle | hle
  · obtain ⟨k, hk⟩ := Nat.exists_eq_add_of_le hle
    rw [hk, runOn_loadWithin_add k hr hn]
  · obtain ⟨k, rfl⟩ := Nat.exists_eq_add_of_le hle
    rw [runOn_loadWithin_add k hr hbound]

/-- **Loading is a loading around loadings.** -/
theorem runOn_load_eq_loading (hr : r.Indexed) :
    (load name).runOn r = (loading load name).runOn r := by
  have hn : r.pending.length < r.descriptions.length + 1 := Nat.lt_succ_of_le r.length_pending_le
  rw [runOn_loading_of_agree (fun m t ht hless => (runOn_loadWithin_eq_load ht hless).symm) hr
    (Nat.lt_succ_of_lt hn), runOn_loadWithin_eq_load hr (Nat.lt_succ_of_lt hn)]

/-! ## 2.  What is loaded -/

/-- The loading of `name` in the registry `r` has tied all references: `loaded` are the names that
are loaded in `r'` and were not in `r`, in the order of their slots. -/
structure Ties (r : Registry) (name : String) (loaded : List String) (r' : Registry) : Prop where
  /-- Each name is built once. -/
  nodup : loaded.Nodup
  /-- They are the names that have a slot and had none before. -/
  newly : ∀ k, k ∈ loaded ↔ r.slot? k = none ∧ (r'.slot? k).isSome = true
  /-- They are the names that are reached from `name` through names that had no slot. -/
  reached : ∀ k, k ∈ loaded ↔ Reaches r name k
  /-- There are as many new slots as names. -/
  size : r'.slots.size = r.slots.size + loaded.length
  /-- The slots from the old ones on are those of the names, each with a grammar that is what the
  description of the name compiles to. The references of the grammar, at any depth and one by one,
  are to the slots of the names that the description refers to. -/
  tied : ∀ i k, loaded[i]? = some k → r'.slot? k = some (r.slots.size + i) ∧
    ∃ d g, r.descriptions.find? k = some d ∧ r'.grammar? (r.slots.size + i) = some g ∧
      d.CompilesTo r'.slot? r.defaultLabel g ∧
      g.references.map some = d.references.map r'.slot?

/-- What was added has a slot now. -/
theorem Adds.mem_names_iff (h : Adds r added r') :
    k ∈ added.names ↔ r.slot? k = none ∧ (r'.slot? k).isSome = true := by
  constructor
  · intro hk
    refine ⟨h.fresh k hk, ?_⟩
    rw [Option.isSome_iff_ne_none]
    exact fun hnone => (h.slot?_eq_none_iff.mp hnone).2 hk
  · rintro ⟨hnone, hsome⟩
    by_contra hk
    rw [h.slot?_eq_none_iff.mpr ⟨hnone, hk⟩] at hsome
    cases hsome

/-- All that is reached is added, since whatever a new grammar refers to has a slot. -/
theorem Adds.mem_names_of_reaches (h : Adds r added r') (hname : (r'.slot? name).isSome = true)
    (hk : Reaches r name k) : k ∈ added.names := by
  induction hk with
  | self hnone => exact h.mem_names_iff.mpr ⟨hnone, hname⟩
  | step _ hd hm hnone ih =>
    obtain ⟨x, hx, rfl⟩ := List.mem_map.mp ih
    obtain ⟨d, hd', hcompiles⟩ := h.compiled x hx
    cases hd.symm.trans hd'
    exact h.mem_names_iff.mpr ⟨hnone, hcompiles.isSome_of_mem hm⟩

theorem Loaded.slot?_eq {id : Nat} (h : Loaded r name id r') : r'.slot? name = some id := by
  obtain ⟨added, -, -, hid⟩ := h
  exact hid

theorem Loaded.exists_ties {id : Nat} (h : Loaded r name id r') :
    ∃ loaded, Ties r name loaded r' := by
  have hsome : (r'.slot? name).isSome = true := by rw [h.slot?_eq, Option.isSome_some]
  obtain ⟨added, hadds, hreaches, -⟩ := h
  refine ⟨added.names, hadds.nodup, fun k => hadds.mem_names_iff, fun k => ?_, ?_, ?_⟩
  · exact ⟨hreaches k, hadds.mem_names_of_reaches hsome⟩
  · rw [hadds.size_slots, Named.names, List.length_map]
  · intro i k hk
    rw [Named.names, List.getElem?_map, Option.map_eq_some_iff] at hk
    obtain ⟨x, hx, rfl⟩ := hk
    obtain ⟨d, hd, hcompiles⟩ := hadds.compiled x (List.mem_of_getElem? hx)
    exact ⟨hadds.slot?_of_getElem? hx, d, x.2, hd, hadds.grammar?_of_getElem? hx, hcompiles,
      hcompiles.map_references⟩

/-- **Loading a name comes to an end, and ties every reference.** A loading is what the recursion
does that loads each reference in the same way, and nothing depends on what would be done beyond as
many loadings inside of each other as there are descriptions. If it succeeds, it answers the slot of
the name, and has loaded all that is reached from the name, each name once and in one new slot. -/
theorem load_ties (hr : Reachable r) (name : String) :
    (load name).runOn r = (loading load name).runOn r ∧
    (∀ beyond n, r.descriptions.length < n →
      (loading^[n] beyond name).runOn r = (load name).runOn r) ∧
    ∀ id r', (load name).runOn r = (.ok id, r') →
      r'.slot? name = some id ∧ ∃ loaded, Ties r name loaded r' := by
  have hindexed := hr.sound.indexed
  refine ⟨runOn_load_eq_loading hindexed, fun beyond n hn => ?_, fun id r' hload => ?_⟩
  · have hpending := Nat.lt_of_le_of_lt r.length_pending_le hn
    rw [runOn_iterate_loading beyond n hindexed hpending,
      runOn_loadWithin_eq_load hindexed hpending]
  · have hloaded := (meets_load name r hindexed).ok hload
    exact ⟨hloaded.slot?_eq, hloaded.exists_ties⟩

end Engine

/-- Round brackets hold square and angle brackets in place. Square brackets hold round ones, and
angle brackets what they stand in. -/
def brackets : Registry :=
  let rule (enter close : String) (nested : NestedDescription Description) :
      RuleDescription Description :=
    ⟨some (.many [enter, close]), none, some (.one "bracket"), some nested⟩
  let content : Description :=
    ⟨none, [], none, [rule "%[" "%]" (.named "square"), rule "<" ">" (.named "round")], []⟩
  let round : Description := ⟨some "round", [], none, [rule "%(" "%)" (.inline content)], []⟩
  let square : Description :=
    ⟨some "square", [], none, [rule "%(" "%)" (.named "round"), rule "<" ">" (.named "square")], []⟩
  Call.afterAll empty [.register square, .register round]

theorem load_ties_brackets :
    Reachable brackets ∧ ∃ r' loaded, (load "round").runOn brackets = (.ok 0, r') ∧
      Ties brackets "round" loaded r' ∧ loaded.length = 2 := by
  have hr : Reachable brackets := Reachable.empty.afterAll _
  have hok : ((load "round").runOn brackets).1 = .ok 0 := by decide
  have hsize : ((load "round").runOn brackets).2.slots.size = 2 := by decide
  have hrun := Building.runOn_eq_of_fst_eq hok
  obtain ⟨-, loaded, hties⟩ := (load_ties hr "round").2.2 0 _ hrun
  refine ⟨hr, _, loaded, hrun, hties, ?_⟩
  have hlength := hties.size.symm.trans hsize
  rwa [show brackets.slots.size = 0 from rfl, Nat.zero_add] at hlength

end Registry
end Linewise
