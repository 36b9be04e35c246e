import Mathlib.Data.List.Chain
import Linewise.Proofs.Text.CharStart
import Linewise.Text.Ascii

/-!
# The bytes of a string

The UTF-8 bytes of a string are not any bytes. A byte below `0x80` is a whole character, so behind
it another character begins, or the text ends (`Text.Encoded`). A matcher or a tokenizer that passes
over such a byte is in front of a character again, wherever it came from.

A string can be cut in two in front of each of its characters (`Text.exists_append_of_atChar`).
Bytes below `0x80` are always a string (`Text.exists_ofString_eq`), and a string with any other byte
has one from the inside of a character (`Text.exists_isContinuation_of_not_ascii`).
-/

namespace Linewise

/-- Letters and digits are whole characters. -/
theorem Ascii.lt_of_isAlnum {b : UInt8} (h : isAlnum b = true) : b < 0x80 := by
  obtain ⟨b⟩ := b
  revert b
  decide

/-- Bytes that are whole characters. -/
def Ascii.All (bytes : List UInt8) : Prop := ∀ b ∈ bytes, b < 0x80

instance (bytes : List UInt8) : Decidable (Ascii.All bytes) :=
  decidable_of_iff (bytes.all (· < 0x80) = true) (by simp [Ascii.All])

namespace Text

theorem isContinuation_eq (b : UInt8) : isContinuation b = (0x80 ≤ b && b < 0xC0) := by
  obtain ⟨b⟩ := b
  revert b
  decide

/-- The bytes that stand inside of a character are at or above `0x80`. -/
theorem le_of_isContinuation {b : UInt8} (h : isContinuation b = true) : 0x80 ≤ b := by
  rw [isContinuation_eq, Bool.and_eq_true, decide_eq_true_eq] at h
  exact h.1

/-- A byte below `0x80` stands at the start of a character. -/
theorem atChar_of_lt {t : Text} {p : Nat} {c : UInt8} (hc : t[p]? = some c) (h : c < 0x80) :
    t.AtChar p := by
  refine ⟨Nat.le_of_lt (Array.getElem?_eq_some_iff.mp hc).1, fun d hd => ?_⟩
  cases hc.symm.trans hd
  rw [Bool.eq_false_iff]
  exact fun hcontinuation => absurd h (UInt8.not_lt.mpr (le_of_isContinuation hcontinuation))

/-- A character begins at the start of the text, and behind each byte below `0x80`. -/
structure Encoded (t : Text) : Prop where
  /-- At the start. -/
  atChar_zero : t.AtChar 0
  /-- Behind a byte that is a whole character. -/
  atChar_succ : ∀ {i : Nat} {c : UInt8}, t[i]? = some c → c < 0x80 → t.AtChar (i + 1)

/-- Behind bytes that are whole characters, another character begins. -/
theorem Encoded.atChar_add_length {t : Text} (ht : t.Encoded) {bytes : List UInt8} {p : Nat}
    (h : bytes <+: t.toList.drop p) (hne : bytes ≠ []) (hascii : Ascii.All bytes) :
    t.AtChar (p + bytes.length) := by
  induction bytes generalizing p with
  | nil => exact absurd rfl hne
  | cons b bytes ih =>
    obtain ⟨hb, hbytes⟩ := List.forall_mem_cons.mp hascii
    cases hc : t[p]? with
    | none =>
      rw [drop_toList_of_size_le (Array.getElem?_eq_none_iff.mp hc)] at h
      simp at h
    | some c =>
      rw [drop_toList_of_getElem? hc, List.cons_prefix_cons] at h
      obtain ⟨rfl, hrest⟩ := h
      by_cases hlast : bytes = []
      · subst hlast
        exact ht.atChar_succ hc hb
      · rw [List.length_cons, Nat.add_comm bytes.length 1, ← Nat.add_assoc]
        exact ih hrest hlast hbytes

/-! ## One character -/

theorem ofNat_lt_iff {n m : Nat} (hn : n < 256) (hm : m < 256) :
    UInt8.ofNat n < UInt8.ofNat m ↔ n < m := by
  rw [UInt8.lt_iff_toNat_lt, UInt8.toNat_ofNat', UInt8.toNat_ofNat', Nat.mod_eq_of_lt hn,
    Nat.mod_eq_of_lt hm]

theorem isContinuation_ofNat {n : Nat} (hn : n < 256) :
    isContinuation (UInt8.ofNat n) = true ↔ 128 ≤ n ∧ n < 192 := by
  rw [isContinuation_eq, Bool.and_eq_true, decide_eq_true_eq, decide_eq_true_eq, ← UInt8.not_lt]
  exact and_congr ((not_congr (ofNat_lt_iff hn (by decide))).trans Nat.not_lt)
    (ofNat_lt_iff hn (by decide))

/-- Behind a byte below `0x80` stands none from the inside of a character. -/
def Follows (b d : UInt8) : Prop := b < 0x80 → isContinuation d = false

theorem follows_ofNat {n : Nat} (hn : n < 256) (hle : 128 ≤ n) (d : UInt8) :
    Follows (UInt8.ofNat n) d :=
  fun hlt => absurd ((ofNat_lt_iff hn (by decide)).mp hlt) (Nat.not_lt.mpr hle)

/-- A character has a first byte, which is not from the inside of one, and its bytes are either a
single one or at or above `0x80`. -/
theorem exists_utf8EncodeChar (c : Char) :
    ∃ b more, String.utf8EncodeChar c = b :: more ∧ isContinuation b = false ∧
      (b :: more).IsChain Follows := by
  rw [String.utf8EncodeChar]
  split
  · refine ⟨_, _, rfl, ?_, .singleton _⟩
    rw [Bool.eq_false_iff, ne_eq, isContinuation_ofNat (by omega)]
    omega
  · split
    · refine ⟨_, _, rfl, ?_, ?_⟩
      · rw [Bool.eq_false_iff, ne_eq, isContinuation_ofNat (by omega)]
        omega
      · exact .cons_cons (follows_ofNat (by omega) (by omega) _) (.singleton _)
    · split
      · refine ⟨_, _, rfl, ?_, ?_⟩
        · rw [Bool.eq_false_iff, ne_eq, isContinuation_ofNat (by omega)]
          omega
        · exact .cons_cons (follows_ofNat (by omega) (by omega) _)
            (.cons_cons (follows_ofNat (by omega) (by omega) _) (.singleton _))
      · refine ⟨_, _, rfl, ?_, ?_⟩
        · rw [Bool.eq_false_iff, ne_eq, isContinuation_ofNat (by omega)]
          omega
        · exact .cons_cons (follows_ofNat (by omega) (by omega) _)
            (.cons_cons (follows_ofNat (by omega) (by omega) _)
              (.cons_cons (follows_ofNat (by omega) (by omega) _) (.singleton _)))

/-! ## All characters -/

theorem isChain_flatMap_utf8EncodeChar (cs : List Char) :
    (cs.flatMap String.utf8EncodeChar).IsChain Follows ∧
      ∀ b ∈ (cs.flatMap String.utf8EncodeChar).head?, isContinuation b = false := by
  induction cs with
  | nil => exact ⟨.nil, by simp⟩
  | cons c cs ih =>
    obtain ⟨hchain, hhead⟩ := ih
    obtain ⟨b, more, hc, hb, hinner⟩ := exists_utf8EncodeChar c
    rw [List.flatMap_cons, hc]
    refine ⟨List.isChain_append.mpr ⟨hinner, hchain, fun _ _ d hd _ => hhead d hd⟩, ?_⟩
    rintro d ⟨⟩
    exact hb

/-- The bytes of a string are those of its characters, one after the other. -/
theorem toList_ofString (s : String) :
    (ofString s).toList = s.toList.flatMap String.utf8EncodeChar := by
  rw [ofString, String.toUTF8, ← String.utf8Encode_toList, List.utf8Encode, List.data_toByteArray]

/-- **The bytes of a string are encoded characters.** -/
theorem encoded_ofString (s : String) : (ofString s).Encoded := by
  obtain ⟨hchain, hhead⟩ := isChain_flatMap_utf8EncodeChar s.toList
  rw [← toList_ofString] at hchain hhead
  refine ⟨⟨Nat.zero_le _, fun c hc => hhead c ?_⟩, fun {i c} hc hlt => ?_⟩
  · rw [List.head?_eq_getElem?, Array.getElem?_toList]
    exact hc
  · obtain ⟨hi, hget⟩ := Array.getElem?_eq_some_iff.mp hc
    refine ⟨hi, fun d hd => ?_⟩
    obtain ⟨hi', hget'⟩ := Array.getElem?_eq_some_iff.mp hd
    have hfollows : Follows (ofString s)[i] (ofString s)[i + 1] :=
      hchain.getElem i (by rw [Array.length_toList]; exact hi')
    rw [hget, hget'] at hfollows
    exact hfollows hlt

/-! ## Between two characters -/

/-- Behind its first byte, a character goes on with bytes from the inside of one. -/
theorem isContinuation_of_mem_utf8EncodeChar {c : Char} {b : UInt8} {more : List UInt8}
    (h : String.utf8EncodeChar c = b :: more) : ∀ d ∈ more, isContinuation d = true := by
  have inside : ∀ v : Nat, isContinuation (UInt8.ofNat (v % 64 + 128)) = true := by
    intro v
    rw [isContinuation_ofNat (by omega)]
    omega
  rw [String.utf8EncodeChar] at h
  split at h
  · cases h
    simp
  · split at h
    · cases h
      exact List.forall_mem_singleton.mpr (inside _)
    · have two : ∀ v w : Nat, ∀ d ∈ [UInt8.ofNat (v % 64 + 128), UInt8.ofNat (w % 64 + 128)],
          isContinuation d = true :=
        fun v w => List.forall_mem_cons.mpr ⟨inside v, List.forall_mem_singleton.mpr (inside w)⟩
      split at h
      · cases h
        exact two _ _
      · cases h
        exact List.forall_mem_cons.mpr ⟨inside _, two _ _⟩

/-- A place in the bytes of characters at which no character goes on is one between two of them. -/
theorem exists_append_of_flatMap_utf8EncodeChar (cs : List Char) {p : Nat}
    (hle : p ≤ (cs.flatMap String.utf8EncodeChar).length)
    (h : ∀ d, (cs.flatMap String.utf8EncodeChar)[p]? = some d → isContinuation d = false) :
    ∃ pre post, pre ++ post = cs ∧ (pre.flatMap String.utf8EncodeChar).length = p := by
  induction cs generalizing p with
  | nil =>
    rw [List.flatMap_nil, List.length_nil] at hle
    exact ⟨[], [], rfl, (Nat.le_zero.mp hle).symm⟩
  | cons c cs ih =>
    obtain ⟨b, more, hc, -⟩ := exists_utf8EncodeChar c
    rw [List.flatMap_cons, hc] at hle h
    rw [List.length_append] at hle
    rcases Nat.lt_or_ge p (b :: more).length with hinside | hbehind
    · -- the first byte is the only one of a character at which none goes on
      rw [List.getElem?_append_left hinside] at h
      cases p with
      | zero => exact ⟨[], c :: cs, rfl, rfl⟩
      | succ p =>
        have hp : p < more.length := by
          rw [List.length_cons] at hinside
          exact Nat.lt_of_succ_lt_succ hinside
        have hmem : more[p]? = some more[p] := List.getElem?_eq_getElem hp
        have hcontinuation :=
          isContinuation_of_mem_utf8EncodeChar hc _ (List.mem_of_getElem? hmem)
        exact absurd (h _ hmem) (by simp [hcontinuation])
    · rw [List.getElem?_append_right hbehind] at h
      obtain ⟨pre, post, rfl, hlength⟩ := ih (by omega) h
      refine ⟨c :: pre, post, rfl, ?_⟩
      rw [List.flatMap_cons, List.length_append, hc, hlength]
      omega

/-- **In front of each character a string can be cut in two**, and at its end. -/
theorem exists_append_of_atChar {s : String} {p : Nat} (h : (ofString s).AtChar p) :
    ∃ pre post : String, pre ++ post = s ∧ (ofString pre).size = p := by
  have hle := h.le_size
  have hbyte := h.not_continuation
  simp only [← Array.getElem?_toList, toList_ofString] at hbyte
  rw [← Array.length_toList, toList_ofString] at hle
  obtain ⟨pre, post, hcut, hlength⟩ := exists_append_of_flatMap_utf8EncodeChar s.toList hle hbyte
  refine ⟨String.ofList pre, String.ofList post, ?_, ?_⟩
  · rw [← String.ofList_append, hcut, String.ofList_toList]
  · rw [← Array.length_toList, toList_ofString, String.toList_ofList, hlength]

/-- Where two strings meet, a character begins, or the text ends. -/
theorem atChar_ofString_append (pre post : String) :
    (ofString (pre ++ post)).AtChar (ofString pre).size := by
  have hbytes :
      (ofString (pre ++ post)).toList = (ofString pre).toList ++ (ofString post).toList := by
    simp only [toList_ofString, String.toList_append, List.flatMap_append]
  refine ⟨?_, fun c hc => (encoded_ofString post).atChar_zero.not_continuation c ?_⟩
  · rw [← Array.length_toList, ← Array.length_toList, hbytes, List.length_append]
    exact Nat.le_add_right _ _
  · rw [← Array.getElem?_toList, hbytes, ← Array.length_toList,
      List.getElem?_append_right (Nat.le_refl _), Nat.sub_self, Array.getElem?_toList] at hc
    exact hc

/-! ## Whole characters -/

theorem le_ofNat {n : Nat} (hn : n < 256) (hle : 128 ≤ n) : 0x80 ≤ UInt8.ofNat n :=
  UInt8.not_lt.mp fun hlt => absurd ((ofNat_lt_iff hn (by decide)).mp hlt) (Nat.not_lt.mpr hle)

/-- A character is a single byte below `0x80`, or else it has no such byte, and the last one of its
bytes is from the inside of it. -/
theorem utf8EncodeChar_cases (c : Char) :
    c.toNat < 128 ∧ String.utf8EncodeChar c = [UInt8.ofNat c.toNat] ∨
      (∀ b ∈ String.utf8EncodeChar c, 0x80 ≤ b) ∧
        ∃ d ∈ String.utf8EncodeChar c, isContinuation d = true := by
  have hlast : ∀ v : Nat, isContinuation (UInt8.ofNat (v % 64 + 128)) = true := by
    intro v
    rw [isContinuation_ofNat (by omega)]
    omega
  have hhigh : ∀ n : Nat, n < 256 → 128 ≤ n → ∀ {bytes : List UInt8}, (∀ b ∈ bytes, 0x80 ≤ b) →
      ∀ b ∈ UInt8.ofNat n :: bytes, 0x80 ≤ b :=
    fun n hn hle bytes hbytes => List.forall_mem_cons.mpr ⟨le_ofNat hn hle, hbytes⟩
  have hnone : ∀ b ∈ ([] : List UInt8), 0x80 ≤ b := by simp
  rw [String.utf8EncodeChar]
  split
  · next hle => exact Or.inl ⟨Nat.lt_succ_of_le hle, rfl⟩
  · right
    split
    · exact ⟨hhigh _ (by omega) (by omega) (hhigh _ (by omega) (by omega) hnone),
        _, List.getLast_mem (by simp), hlast _⟩
    · split
      · exact ⟨hhigh _ (by omega) (by omega) (hhigh _ (by omega) (by omega)
          (hhigh _ (by omega) (by omega) hnone)), _, List.getLast_mem (by simp), hlast _⟩
      · exact ⟨hhigh _ (by omega) (by omega) (hhigh _ (by omega) (by omega)
          (hhigh _ (by omega) (by omega) (hhigh _ (by omega) (by omega) hnone))),
          _, List.getLast_mem (by simp), hlast _⟩

/-- A string with a byte at or above `0x80` has one from the inside of a character. -/
theorem exists_isContinuation_of_not_ascii {s : String} (h : ¬Ascii.All (ofString s).toList) :
    ∃ b ∈ (ofString s).toList, isContinuation b = true := by
  rw [toList_ofString] at h ⊢
  simp only [Ascii.All, not_forall, List.mem_flatMap] at h ⊢
  obtain ⟨b, ⟨c, hc, hb⟩, hlt⟩ := h
  rcases utf8EncodeChar_cases c with ⟨hc128, hbytes⟩ | ⟨-, d, hd, hcontinuation⟩
  · rw [hbytes, List.mem_singleton] at hb
    subst hb
    exact absurd ((ofNat_lt_iff (by omega) (by decide)).mpr hc128) hlt
  · exact ⟨d, ⟨c, hc, hd⟩, hcontinuation⟩

/-- A byte below `0x80` is a character of the string. -/
theorem ofNat_mem_of_mem_ofString {s : String} {b : UInt8} (hb : b ∈ (ofString s).toList)
    (hlt : b < 0x80) : Char.ofNat b.toNat ∈ s.toList := by
  rw [toList_ofString, List.mem_flatMap] at hb
  obtain ⟨c, hc, hb⟩ := hb
  rcases utf8EncodeChar_cases c with ⟨hc128, hbytes⟩ | ⟨hhigh, -⟩
  · rw [hbytes, List.mem_singleton] at hb
    rw [hb, UInt8.toNat_ofNat', Nat.mod_eq_of_lt (by omega), Char.ofNat_toNat]
    exact hc
  · exact absurd hlt (UInt8.not_lt.mpr (hhigh b hb))

/-- **Bytes below `0x80` are a string.** -/
theorem exists_ofString_eq {bytes : List UInt8} (h : Ascii.All bytes) :
    ∃ s : String, (ofString s).toList = bytes := by
  have hone : ∀ b : UInt8, b < 0x80 → String.utf8EncodeChar (Char.ofNat b.toNat) = [b] := by
    rintro ⟨b⟩
    revert b
    decide
  refine ⟨String.ofList (bytes.map fun b => Char.ofNat b.toNat), ?_⟩
  rw [toList_ofString, String.toList_ofList]
  induction bytes with
  | nil => rfl
  | cons b bytes ih =>
    obtain ⟨hb, hbytes⟩ := List.forall_mem_cons.mp h
    rw [List.map_cons, List.flatMap_cons, hone b hb, ih hbytes]
    rfl

end Text
end Linewise
