import Linewise.Registry.Named

/-!
# Looking up what was put

What a look-up finds after names were put, removed, or listed one after the other. A look-up takes
the first pair with a name; where each name occurs once, it finds every pair.
-/

namespace Linewise
namespace Named

variable {α : Type} {xs ys : Named α} {name k : String} {v : α}

theorem find?_cons (p : String × α) (xs : Named α) (k : String) :
    find? (p :: xs) k = if k = p.1 then some p.2 else find? xs k := by
  rw [find?, List.lookup_cons]
  by_cases h : k = p.1
  · rw [if_pos h, beq_iff_eq.mpr h]
  · rw [if_neg h, beq_eq_false_iff_ne.mpr h]
    rfl

theorem find?_append (xs ys : Named α) (k : String) :
    find? (xs ++ ys) k = (find? xs k).or (find? ys k) := List.lookup_append

/-- What is put under a name is found under it, and nothing else changes. -/
theorem find?_put (name : String) (value : α) (xs : Named α) (k : String) :
    find? (put name value xs) k = if k = name then some value else find? xs k := by
  induction xs with
  | nil => exact find?_cons _ _ _
  | cons p xs ih =>
    rw [put]
    split
    · next heq =>
      subst heq
      rw [find?_cons, find?_cons]
      split <;> rfl
    · next hne =>
      rw [find?_cons, find?_cons, ih]
      by_cases hk : k = p.1
      · rw [if_pos hk, if_pos hk, if_neg fun h => hne (hk.symm.trans h)]
      · rw [if_neg hk, if_neg hk]

/-- What is removed is not found any more, and nothing else changes. -/
theorem find?_erase (name : String) (xs : Named α) (k : String) :
    find? (erase name xs) k = if k = name then none else find? xs k := by
  induction xs with
  | nil => split <;> rfl
  | cons p xs ih =>
    rw [erase] at ih ⊢
    by_cases hp : p.1 = name
    · rw [List.filter_cons_of_neg (by simpa using hp), ih, find?_cons, ← hp]
      by_cases hk : k = p.1
      · rw [if_pos hk, if_pos hk]
      · rw [if_neg hk, if_neg hk, if_neg hk]
    · rw [List.filter_cons_of_pos (by simpa using hp), find?_cons, find?_cons, ih]
      by_cases hk : k = p.1
      · rw [if_pos hk, if_pos hk, if_neg fun h => hp (hk.symm.trans h)]
      · rw [if_neg hk, if_neg hk]

theorem mem_of_find?_eq_some (h : find? xs k = some v) : (k, v) ∈ xs := by
  induction xs with
  | nil => cases h
  | cons p xs ih =>
    rw [find?_cons] at h
    split at h
    · next hk =>
      cases h
      exact hk ▸ List.mem_cons_self
    · exact List.mem_cons_of_mem _ (ih h)

theorem find?_eq_none_iff : find? xs k = none ↔ k ∉ xs.names := by
  induction xs with
  | nil => exact ⟨fun _ => List.not_mem_nil, fun _ => rfl⟩
  | cons p xs ih =>
    rw [find?_cons]
    by_cases hk : k = p.1
    · rw [if_pos hk, hk]
      exact iff_of_false (Option.some_ne_none _) fun h => h List.mem_cons_self
    · rw [if_neg hk, ih]
      exact not_congr (List.mem_cons.trans (or_iff_right hk)).symm

/-- Where each name occurs once, every pair is found. -/
theorem find?_eq_some_of_mem (h : xs.names.Nodup) (hmem : (k, v) ∈ xs) : find? xs k = some v := by
  induction xs with
  | nil => cases hmem
  | cons p xs ih =>
    obtain ⟨hp, hxs⟩ := List.nodup_cons.mp h
    rw [find?_cons]
    rcases List.mem_cons.mp hmem with rfl | hmem
    · exact if_pos rfl
    · rw [if_neg, ih hxs hmem]
      intro hk
      exact hp (hk ▸ List.mem_map_of_mem hmem)

/-- What was put is all that is new. -/
theorem eq_or_mem_of_mem_put {p : String × α} (h : p ∈ put name v xs) :
    p = (name, v) ∨ p ∈ xs := by
  induction xs with
  | nil => exact Or.inl (List.mem_singleton.mp h)
  | cons q xs ih =>
    rw [put] at h
    split at h
    · exact (List.mem_cons.mp h).imp_right fun hp => List.mem_cons_of_mem _ hp
    · rcases List.mem_cons.mp h with rfl | hp
      · exact Or.inr List.mem_cons_self
      · exact (ih hp).imp_right fun hp => List.mem_cons_of_mem _ hp

theorem has_eq_true_of_find? (h : find? xs k = some v) : xs.has k = true := by
  rw [has, h, Option.isSome_some]

theorem has_put : (put name v xs).has k = true ↔ k = name ∨ xs.has k = true := by
  rw [has, find?_put, has]
  split
  · next hk => simp [hk]
  · next hk => simp [hk]

/-- A new name is put behind the others. -/
theorem put_of_find?_eq_none (h : find? xs name = none) (value : α) :
    put name value xs = xs ++ [(name, value)] := by
  induction xs with
  | nil => rfl
  | cons p xs ih =>
    rw [find?_cons] at h
    split at h
    · cases h
    · next hne => rw [put, if_neg fun heq => hne heq.symm, ih h, List.cons_append]

end Named
end Linewise
