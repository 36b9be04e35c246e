import Linewise.Proofs.Registry.Loading
import Linewise.Registry.Sources

/-!
# What calls of a registry can rely on

A registry comes about by calls: descriptions are registered, names are loaded, in any order, and
any call can fail. `Registry.Reachable` holds of the registries that come about in this way.

## 1.  What calls keep

All ways to register descriptions come down to `Registry.add` (`keeps_registerEntry` and its likes),
so what `add` keeps is kept by all of them. In the same way all loadings come down to
`Registry.Adds` (`keeps_load` and its likes).

## 2.  The invariant

`Registry.Sound` is what every call keeps. A loading keeps it although it reserves slots, since none
of them is left empty behind it: either all of them were filled, or all were taken back
(`Sound.of_adds`, `meets_load`).

## 3.  Calls

`Reachable.sound` concludes that every reachable registry is sound; the registries that are made
with the built-in grammars or from a configuration are reachable as well. The two main statements
are `load_eq_of_error`, a loading that fails changes nothing, and `wellFormed_of_reachable`, which
says what names, slots, references and extensions can be relied on for.
-/

namespace Linewise
namespace Registry

variable {r r' : Registry} {name : String} {d : Description} {added : Named Grammar}

/-! ## 1.  What calls keep -/

section

variable {p : Registry → Prop}

theorem keeps_register (hadd : ∀ r name d, p r → p (r.add name d)) (d : Description) :
    Building.Keeps p (register d) := by
  intro r hr
  rw [register]
  split
  · exact hr
  · exact hadd r _ d hr

theorem keeps_registerToml (hadd : ∀ r name d, p r → p (r.add name d)) (text : String) :
    Building.Keeps p (registerToml text) :=
  (Building.keeps_lift _).bind fun d => keeps_register hadd d

theorem keeps_registerFile (hadd : ∀ r name d, p r → p (r.add name d)) (folder : Folder)
    (name : String) : Building.Keeps p (registerFile folder name) :=
  (Building.keeps_lift _).bind fun text => keeps_registerToml hadd text

theorem keeps_registerEntry (hadd : ∀ r name d, p r → p (r.add name d)) (entry : Option Entry) :
    Building.Keeps p (registerEntry entry) := by
  match entry with
  | some (.folder folder) => exact Building.Keeps.mapM (keeps_registerFile hadd folder) _
  | some (.file _) => exact Building.keeps_throw _
  | none => exact Building.keeps_throw _

theorem keeps_registerBuiltins (hadd : ∀ r name d, p r → p (r.add name d)) :
    Building.Keeps p registerBuiltins :=
  (Building.Keeps.forIn
    (fun d _ => (keeps_register hadd d).bind fun _ => Building.keeps_pure _) _ _).bind
    fun _ => Building.keeps_pure _

/-! ### Loading -/

theorem keeps_load [Regex.Engine] (hindexed : ∀ r, p r → r.Indexed)
    (hadds : ∀ r added r', p r → Adds r added r' → p r') (name : String) :
    Building.Keeps p (load name) := by
  intro r hr
  refine (meets_load name r (hindexed r hr)).imp ?_ ?_
  · rintro id r' ⟨added, hadded, -⟩
    exact hadds r added r' hr hadded
  · rintro e _ ⟨rfl, -⟩
    exact hr

theorem keeps_resolve [Regex.Engine] (hindexed : ∀ r, p r → r.Indexed)
    (hadds : ∀ r added r', p r → Adds r added r' → p r') (name : String) :
    Building.Keeps p (resolve name) :=
  fun r hr => meets_resolver (fun _ => keeps_load hindexed hadds name r hr) fun _ => hr

theorem keeps_loadForPath [Regex.Engine] (hindexed : ∀ r, p r → r.Indexed)
    (hadds : ∀ r added r', p r → Adds r added r' → p r') (path : String) :
    Building.Keeps p (loadForPath path) := by
  intro r hr
  refine Building.meets_get_bind ?_
  split
  · exact Building.meets_pure hr
  · exact (keeps_load hindexed hadds _ r hr).bind fun _ _ hr' => Building.meets_pure hr'

end

/-! ## 2.  The invariant -/

/-- What every call of a registry keeps. -/
structure Sound (r : Registry) : Prop where
  /-- Every slot holds a grammar. -/
  built : ∀ id, id < r.slots.size → ∃ g, r.grammar? id = some g
  /-- Every name in the index has a slot. -/
  indexed : r.Indexed
  /-- Every name in the index is registered. -/
  registered : ∀ x ∈ r.index, r.descriptions.has x.1 = true
  /-- No two names have the same slot. -/
  distinct : (r.index.map Prod.snd).Nodup
  /-- Every reference is to a slot. -/
  closed : ∀ id g, r.grammar? id = some g → ∀ k ∈ g.references, k < r.slots.size
  /-- The grammar for files with an extension is registered. -/
  extensions : ∀ x ∈ r.extensions, r.descriptions.has x.2 = true

theorem mem_index_of_slot? {id : Nat} (h : r.slot? name = some id) : (name, id) ∈ r.index :=
  Named.mem_of_find?_eq_some h

theorem sound_empty : Sound empty where
  built := fun _ h => absurd h (Nat.not_lt_zero _)
  indexed := by simp [Indexed, empty]
  registered := by simp [empty]
  distinct := List.nodup_nil
  closed := fun _ _ h => absurd (lt_size_of_grammar? h) (Nat.not_lt_zero _)
  extensions := by simp [empty]

theorem Sound.withDefaultLabel (h : r.Sound) (label : String) : (r.withDefaultLabel label).Sound :=
  ⟨h.built, h.indexed, h.registered, h.distinct, h.closed, h.extensions⟩

/-- Extensions of registered grammars stay so when others are registered. -/
theorem registered_foldl_put {ds : Named Description} (exts : List String) {es : Named String}
    (hname : ds.has name = true) (hes : ∀ x ∈ es, ds.has x.2 = true) :
    ∀ x ∈ exts.foldl (fun es ext => es.put (Unicode.lowercase ext) name) es,
      ds.has x.2 = true := by
  induction exts generalizing es with
  | nil => exact hes
  | cons ext exts ih =>
    refine ih fun x hx => ?_
    rcases Named.eq_or_mem_of_mem_put hx with rfl | hx
    · exact hname
    · exact hes x hx

theorem Sound.add (h : r.Sound) (name : String) (d : Description) : (r.add name d).Sound where
  built := h.built
  indexed := fun x hx => h.indexed x (List.mem_of_mem_filter hx)
  registered := fun x hx => Named.has_put.mpr (Or.inr (h.registered x (List.mem_of_mem_filter hx)))
  distinct := h.distinct.sublist (List.filter_sublist.map _)
  closed := h.closed
  extensions := registered_foldl_put d.extensions (Named.has_put.mpr (Or.inl rfl))
    fun x hx => Named.has_put.mpr (Or.inr (h.extensions x hx))

/-- **What a loading adds keeps the invariant.** -/
theorem Sound.of_adds [Regex.Engine] (h : r.Sound) (hadds : Adds r added r') : r'.Sound where
  built := by
    intro id hid
    rw [hadds.size_slots] at hid
    rcases Nat.lt_or_ge id r.slots.size with hlt | hge
    · rw [hadds.grammar?_of_lt hlt]
      exact h.built id hlt
    · obtain ⟨i, rfl⟩ := Nat.exists_eq_add_of_le hge
      have hi : i < added.length := Nat.add_lt_add_iff_left.mp hid
      exact ⟨_, hadds.grammar?_of_getElem? (List.getElem?_eq_getElem hi)⟩
  indexed := hadds.indexed h.indexed
  registered := by
    intro x hx
    rw [hadds.index, List.mem_append] at hx
    rw [hadds.descriptions]
    rcases hx with hx | hx
    · exact h.registered x hx
    · have hname : x.1 ∈ added.names := by
        rw [← List.zipIdx_map_fst r.slots.size added.names]
        exact List.mem_map_of_mem hx
      obtain ⟨y, hy, hxy⟩ := List.mem_map.mp hname
      obtain ⟨d, hd, -⟩ := hadds.compiled y hy
      rw [← hxy]
      exact Named.has_eq_true_of_find? hd
  distinct := by
    rw [hadds.index, List.map_append, List.zipIdx_map_snd]
    refine List.Nodup.append h.distinct (List.nodup_range' _) fun id hid hid' => ?_
    obtain ⟨x, hx, rfl⟩ := List.mem_map.mp hid
    exact absurd (h.indexed x hx) (Nat.not_lt_of_le (List.mem_range'_1.mp hid').1)
  closed := by
    intro id g hg k hk
    rcases hadds.grammar?_cases hg with hold | ⟨i, x, hx, rfl, rfl⟩
    · rw [hadds.size_slots]
      exact Nat.lt_add_right _ (h.closed id g hold k hk)
    · obtain ⟨d, -, hcompiled⟩ := hadds.compiled x (List.mem_of_getElem? hx)
      obtain ⟨m, -, hm⟩ := hcompiled.exists_name_of_mem hk
      exact hadds.indexed h.indexed _ (mem_index_of_slot? hm)
  extensions := by
    rw [hadds.extensions, hadds.descriptions]
    exact h.extensions

/-- What held in the slots of `r` still holds in those of a sound registry. -/
structure SoundAfter (r t : Registry) : Prop where
  /-- The registry is sound. -/
  sound : t.Sound
  /-- No grammar is replaced or taken away. -/
  kept : ∀ id g, r.grammar? id = some g → t.grammar? id = some g

namespace SoundAfter

variable {t t' : Registry}

theorem refl (h : r.Sound) : SoundAfter r r := ⟨h, fun _ _ hg => hg⟩

theorem withDefaultLabel (h : SoundAfter r t) (label : String) :
    SoundAfter r (t.withDefaultLabel label) :=
  ⟨h.sound.withDefaultLabel label, h.kept⟩

theorem add (h : SoundAfter r t) (name : String) (d : Description) :
    SoundAfter r (t.add name d) :=
  ⟨h.sound.add name d, h.kept⟩

theorem of_adds [Regex.Engine] (h : SoundAfter r t) (hadds : Adds t added t') :
    SoundAfter r t' := by
  refine ⟨h.sound.of_adds hadds, fun id g hg => ?_⟩
  have hold := h.kept id g hg
  rw [hadds.grammar?_of_lt (lt_size_of_grammar? hold)]
  exact hold

end SoundAfter

/-! ### What follows from it -/

/-- What can be relied on for the names, slots, references and extensions of a registry. -/
structure WellFormed (r : Registry) : Prop where
  /-- Every slot holds a grammar: none is only reserved. -/
  built : ∀ id, id < r.slots.size → ∃ g, r.grammar? id = some g
  /-- A name that has a slot is registered, and the slot is there. -/
  indexed : ∀ name id, r.slot? name = some id →
    r.descriptions.has name = true ∧ id < r.slots.size
  /-- No two names have the same slot. -/
  injective : ∀ name name' id, r.slot? name = some id → r.slot? name' = some id → name = name'
  /-- Every reference in a grammar, at any depth, is to a grammar. -/
  closed : ∀ id g, r.grammar? id = some g → ∀ k ∈ g.references, ∃ g', r.grammar? k = some g'
  /-- The grammar for files with an extension is registered. -/
  extensions : ∀ ext name, r.extensions.find? ext = some name → r.descriptions.has name = true

theorem Sound.wellFormed (h : r.Sound) : r.WellFormed where
  built := h.built
  indexed := fun _ _ hid =>
    ⟨h.registered _ (mem_index_of_slot? hid), h.indexed _ (mem_index_of_slot? hid)⟩
  injective := fun _ _ _ hid hid' =>
    congrArg Prod.fst (List.inj_on_of_nodup_map h.distinct (mem_index_of_slot? hid)
      (mem_index_of_slot? hid') rfl)
  closed := fun id g hg k hk => h.built k (h.closed id g hg k hk)
  extensions := fun _ _ hname => h.extensions _ (Named.mem_of_find?_eq_some hname)

/-! ## 3.  Calls -/

section Engine

variable [Regex.Engine]

/-- The calls that can change a registry. -/
inductive Call where
  /-- Sets the default label of the grammars that are built from now on. -/
  | setDefaultLabel (label : String)
  /-- Registers a description. -/
  | register (d : Description)
  /-- Registers a description in TOML. -/
  | registerToml (text : String)
  /-- Registers the description in a file. -/
  | registerFile (folder : Folder) (name : String)
  /-- Registers the descriptions in the files of a folder. -/
  | registerFolder (entry : Option Entry)
  /-- Registers the built-in grammars. -/
  | registerBuiltins
  /-- Loads a name. -/
  | load (name : String)
  /-- Looks up a name as it is done while a grammar is built. -/
  | resolve (name : String)
  /-- Loads the grammar for a file. -/
  | loadForPath (path : String)

/-- The registry after a call, whether it succeeds or not. -/
def Call.after (r : Registry) : Call → Registry
  | .setDefaultLabel label => r.withDefaultLabel label
  | .register d => ((Registry.register d).runOn r).2
  | .registerToml text => ((Registry.registerToml text).runOn r).2
  | .registerFile folder name => ((Registry.registerFile folder name).runOn r).2
  | .registerFolder entry => ((Registry.registerEntry entry).runOn r).2
  | .registerBuiltins => (Registry.registerBuiltins.runOn r).2
  | .load name => ((Registry.load name).runOn r).2
  | .resolve name => ((Registry.resolve name).runOn r).2
  | .loadForPath path => ((Registry.loadForPath path).runOn r).2

/-- The registry after some calls, one after the other. -/
def Call.afterAll (r : Registry) (calls : List Call) : Registry := calls.foldl Call.after r

/-- The registries that come about by calls. -/
inductive Reachable : Registry → Prop where
  /-- A new registry. -/
  | empty : Reachable empty
  /-- The registry after one call more. -/
  | call {r : Registry} (h : Reachable r) (c : Call) : Reachable (c.after r)

theorem Reachable.afterAll (h : Reachable r) (calls : List Call) :
    Reachable (Call.afterAll r calls) := by
  induction calls generalizing r with
  | nil => exact h
  | cons c calls ih => exact ih (h.call c)

theorem reachable_of_withBuiltins (h : withBuiltins = .ok r) : Reachable r := by
  have hend := Reachable.empty.call .registerBuiltins
  rw [withBuiltins] at h
  split at h
  · next hx =>
    cases h
    exact (congrArg (fun x => Reachable x.2) hx).mp hend
  · cases h

/-- The registry that a configuration asks for comes about by calls. -/
theorem reachable_of_ofConfig {c : Config} {locate : String → Option Entry}
    (h : ofConfig c locate = .ok r) : Reachable r := by
  have hbuiltins : Building.Keeps Reachable registerBuiltins :=
    Building.keeps_iff.mpr fun _ hs => hs.call .registerBuiltins
  have hentry : ∀ entry, Building.Keeps Reachable (registerEntry entry) := fun entry =>
    Building.keeps_iff.mpr fun _ hs => hs.call (.registerFolder entry)
  have hfolders : Building.Keeps Reachable (do
      for path in c.grammarFolders do
        let _ ← registerEntry (locate path)) :=
    (Building.Keeps.forIn
      (fun path _ => (hentry (locate path)).bind fun _ => Building.keeps_pure _) _ _).bind
      fun _ => Building.keeps_pure _
  have hkeeps : Building.Keeps Reachable (registerConfigured c locate) := by
    rw [registerConfigured]
    split
    · exact hbuiltins.bind fun _ => hfolders
    · exact hfolders
  have hend := hkeeps.runOn (Reachable.empty.call (.setDefaultLabel c.defaultLabel))
  rw [ofConfig] at h
  split at h
  · next hx =>
    cases h
    exact (congrArg (fun x => Reachable x.2) hx).mp hend
  · cases h

/-- **Every call keeps the invariant, and what the slots hold.** -/
theorem Sound.after (h : r.Sound) (c : Call) : SoundAfter r (c.after r) := by
  have hadd : ∀ t name d, SoundAfter r t → SoundAfter r (t.add name d) :=
    fun t name d ht => ht.add name d
  have hindexed : ∀ t, SoundAfter r t → t.Indexed := fun t ht => ht.sound.indexed
  have hadds : ∀ t added t', SoundAfter r t → Adds t added t' → SoundAfter r t' :=
    fun t added t' ht hadded => ht.of_adds hadded
  have hr := SoundAfter.refl h
  cases c with
  | setDefaultLabel label => exact hr.withDefaultLabel label
  | register d => exact (keeps_register hadd d).runOn hr
  | registerToml text => exact (keeps_registerToml hadd text).runOn hr
  | registerFile folder name => exact (keeps_registerFile hadd folder name).runOn hr
  | registerFolder entry => exact (keeps_registerEntry hadd entry).runOn hr
  | registerBuiltins => exact (keeps_registerBuiltins hadd).runOn hr
  | load name => exact (keeps_load hindexed hadds name).runOn hr
  | resolve name => exact (keeps_resolve hindexed hadds name).runOn hr
  | loadForPath path => exact (keeps_loadForPath hindexed hadds path).runOn hr

theorem Reachable.sound (h : Reachable r) : r.Sound := by
  induction h with
  | empty => exact sound_empty
  | call _ c ih => exact (ih.after c).sound

/-! ### A loading that fails -/

/-- **A loading that fails leaves the registry as it was**: whatever was reserved or built in the
course of it, at any depth, is taken back, and nothing else is touched. -/
theorem load_eq_of_error {e : Error} (hr : Reachable r)
    (h : (load name).runOn r = (.error e, r')) : r' = r :=
  ((meets_load name r hr.sound.indexed).error h).1

end Engine

/-- Lists in brackets: they hold items, lists, and marks, whose description has no label. -/
def lists : Registry :=
  let bracket (nested : String) : RuleDescription Description :=
    ⟨some (.many ["%[", "%]"]), none, some (.one "bracket"), some (.named nested)⟩
  let list : Description := ⟨some "list", [], none, ["item", "list", "mark"].map bracket, []⟩
  let mark : Description := ⟨some "mark", [], none, [⟨some (.one "!"), none, none, none⟩], []⟩
  let item : Description := ⟨some "item", [], none, [.lua (.one "%a+") "word"], []⟩
  Call.afterAll empty ([item, mark, list].map .register)

/-- When the marks fail, the items were built, and the list itself has a slot. -/
theorem load_eq_of_error_lists :
    Reachable lists ∧ (load "list").runOn lists = (.error (.rule 0 .noLabel), lists) := by
  have hr : Reachable lists := Reachable.empty.afterAll _
  have herror : ((load "list").runOn lists).1 = .error (.rule 0 .noLabel) := by decide
  have hkept := load_eq_of_error hr (Building.runOn_eq_of_fst_eq herror)
  exact ⟨hr, Prod.ext herror hkept⟩

/-! ### What calls end in -/

/-- The grammar for a file is known, so loading it fails by the fault of a description alone. -/
theorem Sound.loadForPath_ne_unknownGrammar [Regex.Engine] (h : r.Sound) (path name : String) :
    ((loadForPath path).runOn r).1 ≠ .error (.unknownGrammar name) := by
  have hmeets : (loadForPath path).Meets r (fun _ _ => True) fun e _ => e.IsFault := by
    refine Building.meets_get_bind ?_
    split
    · exact Building.meets_pure trivial
    · next k hk =>
      obtain ⟨ext, -, hext⟩ := Option.bind_eq_some_iff.mp hk
      have hknown : r.knows k = true := by
        rw [knows, h.extensions _ (Named.mem_of_find?_eq_some hext), Bool.or_true]
      refine Building.Meets.bind ((meets_load k r h.indexed).imp (fun _ _ _ => trivial) ?_)
        fun _ _ _ => Building.meets_pure trivial
      exact fun e t hfail => hfail.2.2 hknown
  intro herror
  exact hmeets.error (Building.runOn_eq_of_fst_eq herror)

/-- **What every sequence of calls ends in**, successful or failing ones: a registry that is well
formed, in which loading the grammar for a file never asks for a name that is not registered, and
whose grammars stay where they are whatever is called next. -/
theorem wellFormed_of_reachable [Regex.Engine] (h : Reachable r) :
    r.WellFormed ∧
      (∀ path name, ((loadForPath path).runOn r).1 ≠ .error (.unknownGrammar name)) ∧
      ∀ c id g, r.grammar? id = some g → (Call.after r c).grammar? id = some g :=
  ⟨h.sound.wellFormed, h.sound.loadForPath_ne_unknownGrammar, fun c => (h.sound.after c).kept⟩

/-- After the items are registered again they are built in a new slot, and stay in the old one. -/
theorem wellFormed_of_reachable_lists :
    let item : Description := ⟨some "item", [], some "word", [], []⟩
    let calls : List Call := [.load "item", .load "list", .register item, .load "item"]
    let r := Call.afterAll lists calls
    Reachable r ∧ r.slots.size = 2 ∧ r.slot? "item" = some 1 ∧ r.WellFormed := by
  intro item calls r
  have hr : Reachable r := (Reachable.empty.afterAll _).afterAll _
  exact ⟨hr, by decide, by decide, (wellFormed_of_reachable hr).1⟩

end Registry
end Linewise
