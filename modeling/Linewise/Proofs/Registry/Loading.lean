import Linewise.Proofs.Grammar.Resolving
import Linewise.Proofs.Registry.Slots
import Mathlib.Data.List.Nodup

/-!
# Loading a name

A loading reserves a slot, builds, which can start other loadings, and then fills its slot; or it
fails, and takes back what was added since it began.

## 1.  What a loading adds

`Registry.Adds r added r'` says that `r'` is `r` with the grammars `added` behind it: in new slots,
one after the other, under names that had none. It is transitive (`Adds.trans`), and a slot that was
reserved before others were added can be filled behind them (`Adds.fill`), which is what a loading
around other loadings does. Taking back is exact (`rollBack_of_adds`): what lies below the mark was
never touched, and what was added lies above it.

## 2.  One loading

`Registry.loading` is a loading in terms of those inside of it.

## 3.  Loadings inside of each other

By induction on how many loadings can be inside of each other, `meets_loadWithin` says what a
loading does. Where it succeeds, it adds grammars for names that are reached from the name by
references (`Registry.Reaches`). Where it fails, the registry is what it was, and it was bound to
fail: something that the name leads to is not registered or does not compile (`Registry.Misses`).
What compiles is left to the engine here, as in all that is said of registries.
Each name that is being loaded has its slot in the index already, so there are fewer names left for
the loadings inside of it; hence the bound of `Registry.load` is never met.
-/

namespace Linewise
namespace Registry

variable [Regex.Engine] {r r' r'' : Registry} {name k : String} {added more : Named Grammar}
  {d : Description} {g : Grammar}

/-! ## 1.  What a loading adds -/

/-- The registry `r'` is `r` with some grammars added to it, each under a new name and in a new
slot, in the given order. Each is what the description of its name compiles to, as the names are
numbered in `r'`. -/
structure Adds (r : Registry) (added : Named Grammar) (r' : Registry) : Prop where
  /-- No description changes. -/
  descriptions : r'.descriptions = r.descriptions
  /-- No extension changes. -/
  extensions : r'.extensions = r.extensions
  /-- The default label does not change. -/
  defaultLabel : r'.defaultLabel = r.defaultLabel
  /-- The new names have the new slots, one after the other. -/
  index : r'.index = r.index ++ added.names.zipIdx r.slots.size
  /-- The new slots hold the new grammars. -/
  slots : r'.slots = r.slots ++ (added.map fun x => some x.2).toArray
  /-- No new name had a slot before. -/
  fresh : ∀ name ∈ added.names, r.slot? name = none
  /-- No new name has two slots. -/
  nodup : added.names.Nodup
  /-- The new grammars are what their descriptions say. -/
  compiled : ∀ x ∈ added, ∃ d, r.descriptions.find? x.1 = some d ∧
    d.CompilesTo r'.slot? r.defaultLabel x.2

theorem Adds.refl (r : Registry) : Adds r [] r where
  descriptions := rfl
  extensions := rfl
  defaultLabel := rfl
  index := (List.append_nil _).symm
  slots := Array.append_empty.symm
  fresh := by simp [Named.names]
  nodup := List.nodup_nil
  compiled := by simp

namespace Adds

theorem size_slots (h : Adds r added r') : r'.slots.size = r.slots.size + added.length := by
  simp [h.slots]

theorem slot?_eq (h : Adds r added r') (k : String) :
    r'.slot? k = (r.slot? k).or (Named.find? (added.names.zipIdx r.slots.size) k) := by
  rw [slot?, h.index, Named.find?_append, ← slot?]

/-- A name that has a slot keeps it. -/
theorem keepsNumbers (h : Adds r added r') : KeepsNumbers r.slot? r'.slot? := by
  intro k id hid
  rw [h.slot?_eq, hid, Option.some_or]

/-- The names without a slot are those that had none before, less the new ones. -/
theorem slot?_eq_none_iff (h : Adds r added r') :
    r'.slot? k = none ↔ r.slot? k = none ∧ k ∉ added.names := by
  have hnames : Named.names (added.names.zipIdx r.slots.size) = added.names :=
    List.zipIdx_map_fst _ _
  rw [h.slot?_eq, Option.or_eq_none_iff, Named.find?_eq_none_iff, hnames]

/-- The new names have the new slots, in order. -/
theorem slot?_of_getElem? (h : Adds r added r') {i : Nat} {x : String × Grammar}
    (hx : added[i]? = some x) : r'.slot? x.1 = some (r.slots.size + i) := by
  have hname : added.names[i]? = some x.1 := by
    rw [Named.names, List.getElem?_map, hx, Option.map_some]
  have hentry : (x.1, r.slots.size + i) ∈ added.names.zipIdx r.slots.size := by
    refine List.mem_of_getElem? (i := i) ?_
    rw [List.getElem?_zipIdx, hname, Option.map_some]
  have hnodup : (Named.names (added.names.zipIdx r.slots.size)).Nodup := by
    rw [Named.names, List.zipIdx_map_fst]
    exact h.nodup
  rw [h.slot?_eq, h.fresh x.1 (List.mem_of_getElem? hname), Option.none_or,
    Named.find?_eq_some_of_mem hnodup hentry]

/-- The new slots hold the new grammars, in order. -/
theorem grammar?_of_getElem? (h : Adds r added r') {i : Nat} {x : String × Grammar}
    (hx : added[i]? = some x) : r'.grammar? (r.slots.size + i) = some x.2 := by
  rw [grammar?, h.slots, Array.getElem?_append_right (Nat.le_add_right _ _),
    Nat.add_sub_cancel_left, List.getElem?_toArray, List.getElem?_map, hx]
  rfl

/-- The old slots hold what they held. -/
theorem grammar?_of_lt (h : Adds r added r') {id : Nat} (hid : id < r.slots.size) :
    r'.grammar? id = r.grammar? id := by
  rw [grammar?, h.slots, Array.getElem?_append_left hid, grammar?]

/-- There is a grammar in an old slot or in a new one. -/
theorem grammar?_cases (h : Adds r added r') {id : Nat} (hg : r'.grammar? id = some g) :
    r.grammar? id = some g ∨ ∃ i x, added[i]? = some x ∧ id = r.slots.size + i ∧ g = x.2 := by
  rcases Nat.lt_or_ge id r.slots.size with hlt | hge
  · exact Or.inl (h.grammar?_of_lt hlt ▸ hg)
  · obtain ⟨i, rfl⟩ := Nat.exists_eq_add_of_le hge
    have hlt := lt_size_of_grammar? hg
    rw [h.size_slots, Nat.add_lt_add_iff_left] at hlt
    have hx := List.getElem?_eq_getElem hlt
    exact Or.inr ⟨i, _, hx, rfl, Option.some.inj (hg.symm.trans (h.grammar?_of_getElem? hx))⟩

theorem indexed (h : Adds r added r') (hr : r.Indexed) : r'.Indexed := by
  intro x hx
  rw [h.index, List.mem_append] at hx
  rw [h.size_slots]
  rcases hx with hx | hx
  · exact Nat.lt_add_right _ (hr x hx)
  · have hlt := List.snd_lt_of_mem_zipIdx hx
    rw [Named.names, List.length_map] at hlt
    omega

theorem trans (h : Adds r added r') (h' : Adds r' more r'') : Adds r (added ++ more) r'' where
  descriptions := h'.descriptions.trans h.descriptions
  extensions := h'.extensions.trans h.extensions
  defaultLabel := h'.defaultLabel.trans h.defaultLabel
  index := by
    rw [h'.index, h.index, h.size_slots, List.append_assoc, Named.names, Named.names, Named.names,
      List.map_append, List.zipIdx_append, List.length_map]
  slots := by
    rw [h'.slots, h.slots, Array.append_assoc, List.map_append]
    simp
  fresh := by
    intro k hk
    rw [Named.names, List.map_append, List.mem_append] at hk
    rcases hk with hk | hk
    · exact h.fresh k hk
    · exact (h.slot?_eq_none_iff.mp (h'.fresh k hk)).1
  nodup := by
    rw [Named.names, List.map_append]
    refine List.Nodup.append h.nodup h'.nodup fun k hk hk' => ?_
    exact (h.slot?_eq_none_iff.mp (h'.fresh k hk')).2 hk
  compiled := by
    intro x hx
    rcases List.mem_append.mp hx with hx | hx
    · obtain ⟨d, hd, hcompiled⟩ := h.compiled x hx
      exact ⟨d, hd, hcompiled.mono h'.keepsNumbers⟩
    · obtain ⟨d, hd, hcompiled⟩ := h'.compiled x hx
      rw [h.descriptions] at hd
      rw [h.defaultLabel] at hcompiled
      exact ⟨d, hd, hcompiled⟩

end Adds

/-! ### One grammar more -/

/-- A grammar whose slot was reserved before those of others is put into it. -/
theorem Adds.fill (h : Adds (r.reserve name) added r') (hfresh : r.slot? name = none)
    (hd : r.descriptions.find? name = some d) (hg : d.CompilesTo r'.slot? r.defaultLabel g) :
    Adds r ((name, g) :: added) (r'.fill r.slots.size g) where
  descriptions := h.descriptions
  extensions := h.extensions
  defaultLabel := h.defaultLabel
  index := by
    rw [Registry.fill, h.index, index_reserve hfresh, size_slots_reserve, List.append_assoc]
    rfl
  slots := by
    have hlt : r.slots.size < (r.reserve name).slots.size := by
      rw [size_slots_reserve]
      exact Nat.lt_succ_self _
    rw [Registry.fill, h.slots, Array.setIfInBounds_append_left hlt]
    apply Array.ext'
    simp [reserve]
  fresh := by
    intro k hk
    rcases List.mem_cons.mp hk with rfl | hk
    · exact hfresh
    · have hreserved := h.fresh k hk
      rw [slot?_reserve] at hreserved
      split at hreserved
      · cases hreserved
      · exact hreserved
  nodup := by
    refine List.nodup_cons.mpr ⟨fun hname => ?_, h.nodup⟩
    have hreserved := h.fresh name hname
    rw [slot?_reserve, if_pos rfl] at hreserved
    cases hreserved
  compiled := by
    intro x hx
    rcases List.mem_cons.mp hx with rfl | hx
    · exact ⟨d, hd, hg⟩
    · exact h.compiled x hx

/-! ### Taking back -/

/-- **A loading that has reserved a slot and added other grammars is taken back as a whole.** -/
theorem rollBack_of_adds (hr : r.Indexed) (hfresh : r.slot? name = none)
    (h : Adds (r.reserve name) added r') : r'.rollBack r.slots.size = r := by
  have hindex : r'.index = r.index ++
      ((name, r.slots.size) :: added.names.zipIdx (r.slots.size + 1)) := by
    rw [h.index, index_reserve hfresh, size_slots_reserve, List.append_assoc, List.singleton_append]
  have hslots : r'.slots = r.slots ++ (#[none] ++ (added.map fun x => some x.2).toArray) := by
    rw [h.slots, reserve, ← Array.append_assoc, Array.push_eq_append]
  refine rollBack_eq hr h.descriptions h.extensions h.defaultLabel hslots hindex fun x hx => ?_
  rcases List.mem_cons.mp hx with rfl | hx
  · exact Nat.le_refl _
  · exact Nat.le_of_succ_le (List.le_snd_of_mem_zipIdx hx)

/-! ## 2.  One loading -/

section

variable {load : String → Building Registry Nat}

theorem meets_buildSlot {post : Nat → Registry → Prop} {fail : Error → Registry → Prop}
    (hunknown : r.descriptions.find? name = none → fail (.unknownGrammar name) r)
    (hbuild : ∀ d, r.descriptions.find? name = some d →
      (buildGrammar (resolver load) r.defaultLabel d).Meets (r.reserve name)
        (fun g t => post r.slots.size (t.fill r.slots.size g)) fail) :
    (buildSlot load name).Meets r post fail := by
  refine Building.meets_get_bind ?_
  split
  · next hd => exact Building.meets_throw (hunknown hd)
  · next d hd =>
    refine Building.meets_modify_bind ?_
    refine (hbuild d hd).bind fun g t hpost => Building.meets_modify_bind ?_
    exact Building.meets_pure hpost

/-- A name is loaded in a new slot if it has none. -/
def loading (load : String → Building Registry Nat) (name : String) : Building Registry Nat := do
  match (← get).slot? name with
  | some id => return id
  | none => undoing (buildSlot load name)

theorem loadWithin_succ (n : Nat) : loadWithin (n + 1) = loading (loadWithin n) := rfl

theorem meets_loading {post : Nat → Registry → Prop} {fail : Error → Registry → Prop}
    (hslot : ∀ id, r.slot? name = some id → post id r)
    (hbuild : r.slot? name = none → (undoing (buildSlot load name)).Meets r post fail) :
    (loading load name).Meets r post fail := by
  refine Building.meets_get_bind ?_
  split
  · next id hid => exact Building.meets_pure (hslot id hid)
  · next hnone => exact hbuild hnone

end

/-! ## 3.  Loadings inside of each other -/

/-- No name becomes pending again. -/
theorem Adds.length_pending_le (h : Adds r added r') : r'.pending.length ≤ r.pending.length := by
  rw [pending, pending, h.descriptions]
  refine (List.monotone_filter_right _ fun x hx => ?_).length_le
  rw [Bool.not_eq_true', has_index_eq_false_iff] at hx ⊢
  exact (h.slot?_eq_none_iff.mp hx).1

/-- How far the loading of a name has come: its slot is reserved, and grammars were added for names
that are reached from it. -/
def Underway (r : Registry) (name : String) (t : Registry) : Prop :=
  ∃ added, Adds (r.reserve name) added t ∧ ∀ k ∈ added.names, Reaches r name k

theorem underway_reserve (r : Registry) (name : String) : Underway r name (r.reserve name) :=
  ⟨[], .refl _, by simp [Named.names]⟩

namespace Underway

variable {t t' : Registry} {m : String}

theorem indexed (h : Underway r name t) (hr : r.Indexed) (hfresh : r.slot? name = none) :
    t.Indexed := by
  obtain ⟨added, hadds, -⟩ := h
  exact hadds.indexed (hr.reserve hfresh)

theorem slot?_eq_none (h : Underway r name t) (hk : t.slot? k = none) : r.slot? k = none := by
  obtain ⟨added, hadds, -⟩ := h
  have hreserved := (hadds.slot?_eq_none_iff.mp hk).1
  rw [slot?_reserve] at hreserved
  split at hreserved
  · cases hreserved
  · exact hreserved

theorem length_pending_lt (h : Underway r name t) (hfresh : r.slot? name = none)
    (hd : r.descriptions.find? name = some d) : t.pending.length < r.pending.length := by
  obtain ⟨added, hadds, -⟩ := h
  exact Nat.lt_of_le_of_lt hadds.length_pending_le (length_pending_reserve_lt hfresh hd)

/-- It comes further by what is added for a name that the description refers to. -/
theorem step (h : Underway r name t) (hfresh : r.slot? name = none)
    (hd : r.descriptions.find? name = some d) (hm : m ∈ d.references) (hadds : Adds t more t')
    (hmore : ∀ k ∈ more.names, Reaches t m k) : Underway r name t' := by
  have hslot : ∀ k, t.slot? k = none → r.slot? k = none := fun k => h.slot?_eq_none
  obtain ⟨added, hadded, hreaches⟩ := h
  refine ⟨added ++ more, hadded.trans hadds, fun k hk => ?_⟩
  rw [Named.names, List.map_append, List.mem_append] at hk
  rcases hk with hk | hk
  · exact hreaches k hk
  · have hname := (Reaches.self hfresh).step hd hm (hslot m (hmore k hk).slot?_eq_none)
    exact hname.trans_of_later (hmore k hk) hadded.descriptions hslot

/-- It can be taken back as a whole. -/
theorem rollBack_eq (h : Underway r name t) (hr : r.Indexed) (hfresh : r.slot? name = none) :
    t.rollBack r.slots.size = r := by
  obtain ⟨added, hadds, -⟩ := h
  exact rollBack_of_adds hr hfresh hadds

end Underway

/-- All that the name leads to is registered, and every description compiles. -/
def CanLoad (r : Registry) (name : String) : Prop :=
  Loadable r.descriptions.find? r.defaultLabel name

theorem not_canLoad_of_knows_eq_false (h : r.knows name = false) : ¬ r.CanLoad name := by
  obtain ⟨-, hunknown⟩ := Bool.or_eq_false_iff.mp h
  rw [Named.has, Option.isSome_eq_false_iff, Option.isNone_iff_eq_none] at hunknown
  exact not_loadable_of_eq_none hunknown

theorem not_canLoad_of_not_compiles (hd : r.descriptions.find? name = some d)
    (h : ∀ numbers, ¬ ∃ g, d.CompilesTo numbers r.defaultLabel g) : ¬ r.CanLoad name := by
  intro hcan
  obtain ⟨d', numbers, g, hd', hcompiles⟩ := hcan name .refl
  cases hd.symm.trans hd'
  exact h numbers ⟨g, hcompiles⟩

/-- What leads to a name that cannot be loaded cannot be loaded. -/
theorem Underway.not_canLoad {t : Registry} {m : String} (h : Underway r name t)
    (hd : r.descriptions.find? name = some d) (hm : m ∈ d.references) (hnot : ¬ t.CanLoad m) :
    ¬ r.CanLoad name := by
  obtain ⟨added, hadds, -⟩ := h
  intro hcan
  refine hnot ?_
  rw [CanLoad, hadds.descriptions, hadds.defaultLabel]
  exact hcan.of_refersTo ⟨d, hd, hm⟩

/-- The loading of a name has failed with the error `e`, and rightly so. -/
def Misses (r : Registry) (name : String) (e : Error) : Prop :=
  ¬ r.CanLoad name ∧ (r.knows name = true → e.IsFault)

/-- The loading of `name` has ended in `r'` with the answer `id`: it has added grammars for names
that are reached from the name, and the name has its slot. -/
def Loaded (r : Registry) (name : String) (id : Nat) (r' : Registry) : Prop :=
  ∃ added, Adds r added r' ∧ (∀ k ∈ added.names, Reaches r name k) ∧ r'.slot? name = some id

/-- A loading ends when the grammar is put into its slot. -/
theorem Underway.loaded {t : Registry} (h : Underway r name t) (hfresh : r.slot? name = none)
    (hd : r.descriptions.find? name = some d)
    (hkept : KeepsNumbers (r.reserve name).slot? t.slot?)
    (hg : d.CompilesTo t.slot? r.defaultLabel g) :
    Loaded r name r.slots.size (t.fill r.slots.size g) := by
  obtain ⟨added, hadds, hreaches⟩ := h
  refine ⟨(name, g) :: added, hadds.fill hfresh hd hg, fun k hk => ?_, ?_⟩
  · rcases List.mem_cons.mp hk with rfl | hk
    · exact .self hfresh
    · exact hreaches k hk
  · refine hkept name r.slots.size ?_
    rw [slot?_reserve, if_pos rfl]

/-- While the grammar of a name is built, the names in its description are looked up by loadings,
which add what is reached from these names. -/
theorem serves_resolver {load : String → Building Registry Nat} {fail : Error → Registry → Prop}
    (hfresh : r.slot? name = none) (hd : r.descriptions.find? name = some d)
    (hload : ∀ m ∈ d.references, ∀ t, Underway r name t → t.knows m = true →
      (load m).Meets t (Loaded t m) fail)
    (hunknown : ∀ m ∈ d.references, ∀ t, Underway r name t → t.knows m = false →
      ∀ index, fail (.rule index (.unresolved m)) t)
    (hrule : ∀ index e t, fail e t → fail (e.atRule index) t) :
    (resolver load).Serves d.references (Underway r name) slot? fail where
  answers := by
    intro m hm t ht
    refine meets_resolver (fun hknown => ?_) (hunknown m hm t ht)
    refine (hload m hm t ht hknown).imp ?_ fun _ _ hfail => hfail
    rintro id t' ⟨more, hadds, hmore, hid⟩
    exact ⟨ht.step hfresh hd hm hadds hmore, hadds.keepsNumbers, hid⟩
  atRule := hrule

/-- **What a loading does.** If it succeeds, it has added grammars for names that are reached from
the name, and the name has a slot. If it fails, it has changed nothing; and with enough loadings
inside of each other, the name is not loadable, and if it is known, the fault is that of a
description. -/
theorem meets_loadWithin (n : Nat) (name : String) (r : Registry) (hr : r.Indexed) :
    (loadWithin n name).Meets r (Loaded r name)
      (fun e r' => r' = r ∧ (r.pending.length < n → r.Misses name e)) := by
  induction n generalizing name r with
  | zero => exact Building.meets_throw ⟨rfl, fun h => absurd h (Nat.not_lt_zero _)⟩
  | succ n ih =>
    rw [loadWithin_succ]
    refine meets_loading (fun id hid => ⟨[], .refl r, by simp [Named.names], hid⟩) fun hfresh => ?_
    refine meets_undoing (meets_buildSlot (fun hnone => ?_) fun d hd => ?_)
    · refine ⟨rollBack_self hr, fun _ => ⟨not_loadable_of_eq_none hnone, fun hknown => ?_⟩⟩
      rw [knows, has_index_eq_false_iff.mpr hfresh, Named.has, hnone] at hknown
      cases hknown
    · have hserves : (resolver (loadWithin n)).Serves d.references (Underway r name) slot?
          fun e t => Underway r name t ∧
            (r.pending.length < n + 1 → ¬ r.CanLoad name ∧ e.IsFault) := by
        -- the slot of `name` is reserved, so fewer names are pending for the loadings inside
        refine serves_resolver hfresh hd (fun m hm t ht hknown => ?_)
          (fun m hm t ht hunknown index => ?_) fun index e t hfail => ?_
        · refine (ih m t (ht.indexed hr hfresh)).imp (fun _ _ hloaded => hloaded) ?_
          rintro e _ ⟨rfl, hmisses⟩
          refine ⟨ht, fun hn => ?_⟩
          have hless := Nat.lt_of_lt_of_le (ht.length_pending_lt hfresh hd) (Nat.le_of_lt_succ hn)
          obtain ⟨hnot, hfault⟩ := hmisses hless
          exact ⟨ht.not_canLoad hd hm hnot, hfault hknown⟩
        · have hmissing := not_canLoad_of_knows_eq_false hunknown
          exact ⟨ht, fun _ => ⟨ht.not_canLoad hd hm hmissing, trivial⟩⟩
        · exact ⟨hfail.1, fun hn => ⟨(hfail.2 hn).1, (hfail.2 hn).2.atRule index⟩⟩
      refine (meets_buildGrammar hserves r.defaultLabel d (List.Subset.refl _) (r.reserve name)
        (underway_reserve r name)).imp ?_ ?_
      · rintro g t ⟨ht, hkept, hcompiles⟩
        exact ht.loaded hfresh hd hkept hcompiles
      · -- either a loading inside of this one has failed, or the description is at fault itself
        rintro e t (⟨ht, hmisses⟩ | ⟨ht, hfault, hnot⟩)
        · refine ⟨ht.rollBack_eq hr hfresh, fun hn => ?_⟩
          exact ⟨(hmisses hn).1, fun _ => (hmisses hn).2⟩
        · refine ⟨ht.rollBack_eq hr hfresh, fun _ => ?_⟩
          exact ⟨not_canLoad_of_not_compiles hd hnot, fun _ => hfault⟩

/-- **What loading a name does.** -/
theorem meets_load (name : String) (r : Registry) (hr : r.Indexed) :
    (load name).Meets r (Loaded r name) (fun e r' => r' = r ∧ r.Misses name e) := by
  rw [load]
  refine Building.meets_get_bind ?_
  refine (meets_loadWithin (r.descriptions.length + 1) name r hr).imp (fun _ _ h => h) ?_
  exact fun e r' ⟨heq, hmisses⟩ => ⟨heq, hmisses (Nat.lt_succ_of_le r.length_pending_le)⟩

end Registry
end Linewise
