import Linewise.Proofs.Text.Encoded

/-!
# What is taken for a word

A pattern `.-w` looks for the word `w`. Where its match ends can be told without the machine, from
the bytes ahead alone.

## 1.  Where a word stands

`FirstAt` is the first occurrence of a word in a text. The first occurrence of its first byte may
stand in front of it.

## 2.  Where the search ends

`lazyEnd?` goes to the first occurrence of the first byte of the word, and to no other. Behind it,
`lenient?` takes the next byte of the word any number of times, and compares what is left of the
word. If the word has two equal bytes there it passes over both at one of them, and goes on in the
same way.

## 3.  What is taken for the rest of a word

`TakenFor` says the same without a reader (`lenient?_eq_some_iff`): one byte for two equal ones, and
at the first byte that is not doubled any number of it, with what is left of the word behind.

## 4.  Where it is the word

Where the second byte of the word is missing or repeated, or stands once for two, this makes a
difference only if what is left of the word is found behind it all the same. `ReadAsWritten` says
where it makes none, and is exact for every word (`readAsWritten_iff`). In terms of the text this is
`readAsWritten_cons_iff` for a word that does not double its second byte, and
`readAsWritten_doubled_of_head?_ne` and `readAsWritten_doubled_iff` for one that does.

Elsewhere something else is taken for the word: for every word of more than one byte there are bytes
that are taken for it and in which it does not occur (`exists_lazyEnd?`).
-/

namespace Linewise
namespace LuaPattern

variable {w v u l : List UInt8} {x c : UInt8} {t : Text} {p i j n : Nat}

/-! ## 1.  Where a word stands -/

/-- The first occurrence of a word at or behind `p` begins at `i`. -/
def FirstAt (w : List UInt8) (t : Text) (p i : Nat) : Prop :=
  p ≤ i ∧ w <+: t.toList.drop i ∧ ∀ j < i, p ≤ j → ¬w <+: t.toList.drop j

instance (w : List UInt8) (t : Text) (p i : Nat) : Decidable (FirstAt w t p i) :=
  inferInstanceAs (Decidable (p ≤ i ∧ w <+: t.toList.drop i ∧
    ∀ j < i, p ≤ j → ¬w <+: t.toList.drop j))

theorem FirstAt.unique (h : FirstAt w t p i) (h' : FirstAt w t p j) : i = j := by
  obtain ⟨hle, hstands, hfirst⟩ := h
  obtain ⟨hle', hstands', hfirst'⟩ := h'
  rcases Nat.lt_trichotomy i j with hlt | heq | hgt
  · exact absurd hstands (hfirst' i hlt hle)
  · exact heq
  · exact absurd hstands' (hfirst j hgt hle')

/-- A word begins at the first occurrence of its first byte if the rest of it stands behind. -/
theorem FirstAt.cons_iff (h : FirstAt [x] t p i) :
    FirstAt (x :: v) t p i ↔ v <+: t.toList.drop (i + 1) := by
  obtain ⟨hle, hstands, hfirst⟩ := h
  have hdrop : t.toList.drop i = x :: t.toList.drop (i + 1) := by
    obtain ⟨more, hmore⟩ := hstands
    rw [← List.drop_drop, ← hmore]
    rfl
  constructor
  · rintro ⟨-, hword, -⟩
    rw [hdrop] at hword
    exact (List.cons_prefix_cons.mp hword).2
  · intro hrest
    refine ⟨hle, ?_, fun j hj hpj hword => hfirst j hj hpj ?_⟩
    · rw [hdrop]
      exact List.cons_prefix_cons.mpr ⟨rfl, hrest⟩
    · exact (List.prefix_append [x] v).trans hword

theorem firstAt_of_append {pre : List UInt8} (h : t.toList.drop p = pre ++ x :: l)
    (hpre : x ∉ pre) : FirstAt [x] t p (p + pre.length) := by
  have hdrop : ∀ n, t.toList.drop (p + n) = (pre ++ x :: l).drop n := fun n => by
    rw [← h, List.drop_drop]
  refine ⟨Nat.le_add_right p _, ?_, fun j hj hle hstands => hpre ?_⟩
  · rw [hdrop, List.drop_left]
    exact List.prefix_append [x] l
  · obtain ⟨n, rfl⟩ := Nat.exists_eq_add_of_le hle
    have hn : n < pre.length := Nat.lt_of_add_lt_add_left hj
    rw [hdrop, List.drop_append_of_le_length (Nat.le_of_lt hn), List.drop_eq_getElem_cons hn,
      List.cons_append, List.cons_prefix_cons] at hstands
    exact hstands.1 ▸ List.getElem_mem hn

theorem FirstAt.mem (h : FirstAt [x] t p i) : x ∈ t.toList.drop p := by
  obtain ⟨hle, hstands, -⟩ := h
  rw [← Nat.add_sub_cancel' hle, ← List.drop_drop] at hstands
  exact List.mem_of_mem_drop (hstands.mem List.mem_cons_self)

/-! ### Ahead of a position -/

/-- What is found in the bytes ahead of `p`, as a position. -/
def ahead? (t : Text) (f : List UInt8 → Option Nat) (p : Nat) : Option Nat :=
  (f (t.toList.drop p)).map (p + ·)

theorem ahead?_of_size_le (f : List UInt8 → Option Nat) (h : t.size ≤ p) :
    ahead? t f p = (f []).map (p + ·) := by
  rw [ahead?, Text.drop_toList_of_size_le h]

/-- What is found behind the next byte. -/
theorem ahead?_succ {f g : List UInt8 → Option Nat} (hc : t[p]? = some c)
    (h : ∀ l, f (c :: l) = (g l).map (· + 1)) : ahead? t f p = ahead? t g (p + 1) := by
  rw [ahead?, Text.drop_toList_of_getElem? hc, h, ahead?, Option.map_map]
  congr 1
  funext n
  simp only [Function.comp_apply]
  omega

/-! ## 2.  Where the search ends -/

/-- Any number of a byte, and a word behind it. -/
def afterRun? (x : UInt8) (v : List UInt8) : List UInt8 → Option Nat
  | [] => if v = [] then some 0 else none
  | c :: l =>
    if c = x then (afterRun? x v l).map (· + 1)
    else if v <+: c :: l then some v.length else none

/-- What is taken for a word behind the byte that was passed over. -/
def lenient? : List UInt8 → List UInt8 → Option Nat
  | [], _ => some 0
  | _ :: _, [] => none
  | [x], c :: l => afterRun? x [] (c :: l)
  | x :: y :: v, c :: l =>
    if x = y then if c = x then (lenient? v l).map (· + 1) else none
    else afterRun? x (y :: v) (c :: l)

/-- The first byte of a word is looked for, and what is taken for the others is taken behind it. -/
def lazyEnd? : List UInt8 → List UInt8 → Option Nat
  | [], _ => none
  | _ :: _, [] => none
  | x :: v, c :: l =>
    if c = x then (lenient? v l).map (· + 1) else (lazyEnd? (x :: v) l).map (· + 1)

/-- No byte from the inside of a character begins a word, so the search may go on behind the
character. -/
theorem ahead?_lazyEnd?_of_ne (hx : x < 0x80) (hc : t[p]? = some c) (hne : x ≠ c) :
    ahead? t (lazyEnd? (x :: v)) p = ahead? t (lazyEnd? (x :: v)) (t.charStart (p + 1)) := by
  have hskip : ∀ {i d}, t[i]? = some d → x ≠ d →
      ahead? t (lazyEnd? (x :: v)) i = ahead? t (lazyEnd? (x :: v)) (i + 1) := fun hd hxd =>
    ahead?_succ hd fun l => by rw [lazyEnd?, if_neg (Ne.symm hxd)]
  have hinside : ∀ n, p + 1 + n ≤ t.charStart (p + 1) →
      ahead? t (lazyEnd? (x :: v)) (p + 1) = ahead? t (lazyEnd? (x :: v)) (p + 1 + n) := by
    intro n
    induction n with
    | zero => exact fun _ => rfl
    | succ n ih =>
      intro hle
      have hend := Text.charStart_le_size (i := p + 1) (Array.getElem?_eq_some_iff.mp hc).1
      obtain ⟨d, hd⟩ : ∃ d, t[p + 1 + n]? = some d :=
        ⟨_, Array.getElem?_eq_getElem (show p + 1 + n < t.size by omega)⟩
      have hcontinuation : Text.isContinuation d = true :=
        Text.isContinuation_of_lt_charStart (Nat.le_add_right (p + 1) n) (by omega) hd
      have hxd : x ≠ d := by
        rintro rfl
        exact absurd (Text.le_of_isContinuation hcontinuation) (UInt8.not_le.mpr hx)
      rw [ih (by omega), hskip hd hxd]
      rfl
  have hle := t.le_charStart (p + 1)
  rw [hskip hc hne, hinside (t.charStart (p + 1) - (p + 1)) (by omega),
    Nat.add_sub_cancel' hle]

theorem lazyEnd?_of_not_mem (h : x ∉ l) : lazyEnd? (x :: v) l = none := by
  induction l with
  | nil => rw [lazyEnd?]
  | cons c l ih =>
    obtain ⟨hne, hl⟩ := List.ne_and_not_mem_of_not_mem_cons h
    rw [lazyEnd?, if_neg (Ne.symm hne), ih hl, Option.map_none]

/-- The search goes to the first occurrence of the first byte. -/
theorem lazyEnd?_append {pre : List UInt8} (hpre : x ∉ pre) :
    lazyEnd? (x :: v) (pre ++ x :: l) = (lenient? v l).map (pre.length + 1 + ·) := by
  induction pre with
  | nil =>
    rw [List.nil_append, lazyEnd?, if_pos rfl]
    congr 1
    funext n
    simp [Nat.add_comm]
  | cons c pre ih =>
    obtain ⟨hne, hpre⟩ := List.ne_and_not_mem_of_not_mem_cons hpre
    rw [List.cons_append, lazyEnd?, if_neg (Ne.symm hne), ih hpre, Option.map_map]
    congr 1
    funext n
    simp only [Function.comp_apply, List.length_cons]
    omega

/-! ## 3.  What is taken for the rest of a word -/

/-- How many times in a row a byte stands at the start. -/
def timesAhead (x : UInt8) (l : List UInt8) : Nat :=
  (l.takeWhile (· == x)).length

theorem timesAhead_cons_self (x : UInt8) (l : List UInt8) :
    timesAhead x (x :: l) = timesAhead x l + 1 := by
  simp only [timesAhead, List.takeWhile_cons, beq_self_eq_true, if_true, List.length_cons]

theorem timesAhead_of_head?_ne (h : l.head? ≠ some x) : timesAhead x l = 0 := by
  cases l with
  | nil => rfl
  | cons c l =>
    have hbyte : (c == x) = false := beq_false_of_ne fun heq => h (congrArg some heq)
    simp [timesAhead, hbyte]

/-- Behind a run of a byte a word is compared. -/
theorem afterRun?_eq (x : UInt8) (v l : List UInt8) :
    afterRun? x v l =
      if v <+: l.drop (timesAhead x l) then some (timesAhead x l + v.length) else none := by
  induction l with
  | nil =>
    simp only [afterRun?, timesAhead, List.takeWhile_nil, List.drop_nil, List.prefix_nil]
    split
    · next hv => rw [hv, List.length_nil]
    · rfl
  | cons c l ih =>
    by_cases hc : c = x
    · subst hc
      rw [afterRun?, if_pos rfl, ih, timesAhead_cons_self, List.drop_succ_cons]
      split
      · rw [Option.map_some, Nat.add_right_comm]
      · rfl
    · have hnone : timesAhead x (c :: l) = 0 :=
        timesAhead_of_head?_ne fun heq => hc (Option.some.inj heq)
      rw [afterRun?, if_neg hc, hnone, List.drop_zero, Nat.zero_add]

/-- The second byte of a word is taken any number of times, if the third one is not the same. -/
theorem lenient?_cons (hhead : v.head? ≠ some x) (c : UInt8) (l : List UInt8) :
    lenient? (x :: v) (c :: l) = afterRun? x v (c :: l) := by
  cases v with
  | nil => rw [lenient?]
  | cons y v =>
    have hxy : x ≠ y := fun heq => hhead (congrArg some heq.symm)
    rw [lenient?, if_neg hxy]

/-- What is taken for a word behind the byte that was passed over, and how long it is. -/
inductive TakenFor : List UInt8 → List UInt8 → Nat → Prop
  /-- Nothing is left to take. -/
  | nil (l : List UInt8) : TakenFor [] l 0
  /-- Two equal bytes of the word are passed over at one such byte. -/
  | doubled {x : UInt8} {u l : List UInt8} {n : Nat} :
    TakenFor u l n → TakenFor (x :: x :: u) (x :: l) (n + 1)
  /-- A byte that is not doubled is taken any number of times, and the word is compared behind. -/
  | run {x : UInt8} {v l : List UInt8} : l ≠ [] → v.head? ≠ some x →
    v <+: l.drop (timesAhead x l) → TakenFor (x :: v) l (timesAhead x l + v.length)

/-- **The reader finds what is taken for the word.** -/
theorem lenient?_eq_some_iff : lenient? v l = some n ↔ TakenFor v l n := by
  constructor
  · intro h
    induction v, l using lenient?.induct generalizing n with
    | case1 l =>
      rw [lenient?] at h
      cases h
      exact .nil l
    | case2 x v =>
      rw [lenient?] at h
      cases h
    | case3 x c l =>
      rw [lenient?, afterRun?_eq, if_pos List.nil_prefix] at h
      cases h
      exact .run (List.cons_ne_nil c l) (Option.some_ne_none x).symm List.nil_prefix
    | case4 x v l ih =>
      rw [lenient?, if_pos rfl, if_pos rfl] at h
      obtain ⟨n, hn, rfl⟩ := Option.map_eq_some_iff.mp h
      exact .doubled (ih hn)
    | case5 x v c l hc =>
      rw [lenient?, if_pos rfl, if_neg hc] at h
      cases h
    | case6 x y v c l hxy =>
      rw [lenient?, if_neg hxy, afterRun?_eq] at h
      split at h
      · next hbehind =>
        cases h
        exact .run (List.cons_ne_nil c l) (fun hy => hxy (Option.some.inj hy).symm) hbehind
      · cases h
  · intro h
    induction h with
    | nil l => rw [lenient?]
    | doubled _ ih => rw [lenient?, if_pos rfl, if_pos rfl, ih, Option.map_some]
    | @run x v l hne hhead hbehind =>
      obtain ⟨c, l, rfl⟩ := List.exists_cons_of_ne_nil hne
      rw [lenient?_cons hhead, afterRun?_eq, if_pos hbehind]

/-! ## 4.  Where it is the word -/

/-- Behind its first byte the word is read as it is written. The word itself is taken where it
stands, and nothing else is taken for it. -/
def ReadAsWritten (v l : List UInt8) : Prop :=
  ∀ n, TakenFor v l n ↔ v <+: l ∧ n = v.length

/-- **The word is compared** exactly where it is read as it is written. -/
theorem readAsWritten_iff :
    ReadAsWritten v l ↔ lenient? v l = if v <+: l then some v.length else none := by
  rw [Option.ext_iff]
  refine forall_congr' fun n => ?_
  rw [lenient?_eq_some_iff, Option.ite_none_right_eq_some, Option.some.injEq, @eq_comm _ v.length]

instance (v l : List UInt8) : Decidable (ReadAsWritten v l) :=
  decidable_of_iff _ readAsWritten_iff.symm

theorem readAsWritten_nil (l : List UInt8) : ReadAsWritten [] l := by
  rw [readAsWritten_iff, lenient?, if_pos List.nil_prefix, List.length_nil]

/-- A word that begins with another byte stands behind the run of a byte if it stands in front. -/
theorem prefix_drop_timesAhead (hhead : v.head? ≠ some x) (hstands : v <+: l) :
    v <+: l.drop (timesAhead x l) := by
  cases v with
  | nil => exact List.nil_prefix
  | cons y v =>
    obtain ⟨more, rfl⟩ := hstands
    have hnone : timesAhead x (y :: v ++ more) = 0 := timesAhead_of_head?_ne hhead
    rw [hnone, List.drop_zero]
    exact List.prefix_append (y :: v) more

/-- Behind a byte that the word does not double it is read as it is written if the byte stands there
once, or if the rest of the word does not stand behind it however often it is repeated. -/
theorem readAsWritten_cons_iff (hhead : v.head? ≠ some x) :
    ReadAsWritten (x :: v) l ↔
      l = [] ∨ timesAhead x l = 1 ∨ ¬v <+: l.drop (timesAhead x l) := by
  constructor
  · intro h
    by_contra hloose
    obtain ⟨hne, hruns, hbehind⟩ : l ≠ [] ∧ timesAhead x l ≠ 1 ∧ v <+: l.drop (timesAhead x l) := by
      simpa only [not_or, not_not] using hloose
    have hlength := ((h _).mp (.run hne hhead hbehind)).2
    rw [List.length_cons] at hlength
    omega
  · rintro (rfl | honce | hbehind)
    · rw [readAsWritten_iff, lenient?, if_neg (by simp)]
    · cases l with
      | nil => cases honce
      | cons c l =>
        -- the byte is the one of the word
        have hc : c = x := by
          by_contra hc
          have hnone : timesAhead x (c :: l) = 0 :=
            timesAhead_of_head?_ne fun heq => hc (Option.some.inj heq)
          cases hnone.symm.trans honce
        rw [readAsWritten_iff, lenient?_cons hhead, afterRun?_eq, honce, hc]
        simp only [List.drop_succ_cons, List.drop_zero, List.cons_prefix_cons, true_and,
          List.length_cons, Nat.add_comm 1]
    · have hword : ¬x :: v <+: l := by
        rintro ⟨more, rfl⟩
        rw [List.cons_append, timesAhead_cons_self, List.drop_succ_cons] at hbehind
        exact hbehind (prefix_drop_timesAhead hhead (List.prefix_append v more))
      rw [readAsWritten_iff, if_neg hword]
      cases l with
      | nil => rw [lenient?]
      | cons c l => rw [lenient?_cons hhead, afterRun?_eq, if_neg hbehind]

/-- A word that doubles a byte is read as it is written where the byte does not stand. -/
theorem readAsWritten_doubled_of_head?_ne (h : l.head? ≠ some x) :
    ReadAsWritten (x :: x :: u) l := by
  intro n
  constructor
  · rintro (_ | _ | ⟨-, hhead, -⟩)
    · exact absurd rfl h
    · exact absurd rfl hhead
  · rintro ⟨⟨more, rfl⟩, -⟩
    exact absurd rfl h

theorem takenFor_doubled_iff :
    TakenFor (x :: x :: u) (x :: l) n ↔ ∃ m, TakenFor u l m ∧ n = m + 1 := by
  constructor
  · rintro (_ | htaken | ⟨-, hhead, -⟩)
    · exact ⟨_, htaken, rfl⟩
    · exact absurd rfl hhead
  · rintro ⟨m, htaken, rfl⟩
    exact .doubled htaken

/-- Where the byte stands, it is passed over for both of them. This makes no difference where what
is left of the word is not taken behind it, or is taken together with a second such byte. -/
theorem readAsWritten_doubled_iff :
    ReadAsWritten (x :: x :: u) (x :: l) ↔
      ∀ n, TakenFor u l n ↔ x :: u <+: l ∧ n = u.length + 1 := by
  simp only [ReadAsWritten, takenFor_doubled_iff, List.cons_prefix_cons, true_and, List.length_cons]
  constructor
  · intro h n
    simpa only [Nat.add_right_cancel_iff, exists_eq_right'] using h (n + 1)
  · intro h n
    simp only [h, and_assoc, exists_and_left, exists_eq_left]

example : ReadAsWritten [0x62, 0x62, 0x63, 0x64] [0x62, 0x65] ∧
    ¬ReadAsWritten [0x62, 0x62, 0x63, 0x64] [0x62, 0x63, 0x64] := by decide

/-! ### Where it is not -/

/-- Behind a byte that was passed over, something else is taken for any word, and nothing longer. -/
theorem exists_lenient? : ∀ v : List UInt8, Ascii.All v →
    ∃ l, Ascii.All l ∧ l.length ≤ v.length ∧ (v ≠ [] → ¬v <+: l) ∧ (lenient? v l).isSome = true
  | [], _ => ⟨[], by decide, Nat.le_refl 0, fun h => absurd rfl h, rfl⟩
  | [x], _ => by
    obtain ⟨c, hascii, hne⟩ : ∃ c : UInt8, c < 0x80 ∧ c ≠ x := by
      by_cases hx : x = 0x61
      · exact ⟨0x62, by decide, by rw [hx]; decide⟩
      · exact ⟨0x61, by decide, Ne.symm hx⟩
    refine ⟨[c], by simpa [Ascii.All], Nat.le_refl 1, fun _ => by simp [hne.symm], ?_⟩
    simp [lenient?, afterRun?, hne]
  | x :: y :: v, h => by
    obtain ⟨hx, hrest⟩ := List.forall_mem_cons.mp h
    by_cases hxy : x = y
    · -- both bytes are passed over where there is one of them
      obtain ⟨l, hascii, hlength, -, hsome⟩ := exists_lenient? v (List.forall_mem_cons.mp hrest).2
      refine ⟨x :: l, List.forall_mem_cons.mpr ⟨hx, hascii⟩, ?_, fun _ hstands => ?_, ?_⟩
      · simp only [List.length_cons]
        omega
      · have hle := hstands.length_le
        simp only [List.length_cons] at hle
        omega
      · simp [lenient?, hxy, hsome]
    · -- the first one may be missing
      refine ⟨y :: v, hrest, Nat.le_succ _, fun _ hstands => ?_, ?_⟩
      · exact absurd hstands.length_le (Nat.not_succ_le_self _)
      · simp [lenient?, hxy, afterRun?, Ne.symm hxy]

/-- **Other bytes are taken for a word of more than one byte**, and the word does not occur in
them. -/
theorem exists_lazyEnd? (hw : Ascii.All w) (hlength : 1 < w.length) :
    ∃ l, Ascii.All l ∧ (lazyEnd? w l).isSome = true ∧ ∀ i, ¬w <+: l.drop i := by
  obtain ⟨x, v, rfl⟩ := List.exists_cons_of_length_pos (Nat.lt_of_succ_lt hlength)
  have hne : v ≠ [] := by
    rintro rfl
    exact absurd hlength (Nat.lt_irrefl 1)
  obtain ⟨hx, hv⟩ := List.forall_mem_cons.mp hw
  obtain ⟨l, hascii, hle, hstands, hsome⟩ := exists_lenient? v hv
  refine ⟨x :: l, List.forall_mem_cons.mpr ⟨hx, hascii⟩, by simp [lazyEnd?, hsome], ?_⟩
  intro i hword
  cases i with
  | zero => exact hstands hne (List.cons_prefix_cons.mp hword).2
  | succ i =>
    have hshort := hword.length_le
    rw [List.drop_succ_cons, List.length_drop, List.length_cons] at hshort
    omega

end LuaPattern
end Linewise
