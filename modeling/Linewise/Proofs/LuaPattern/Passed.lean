import Linewise.Proofs.LuaPattern.Exactness
import Linewise.Proofs.LuaPattern.Places

/-!
# What a match passes over

Whatever a match does on its way, and to whichever point it returns: a character that lies in front
of one of its boundaries has been accepted by one of its elements (`Template.passed`). So a match
does not go past a character that none of its elements accepts, and does not even begin in front of
one that its first element refuses (`Template.boundariesAt?_of_refused`).

For this, returning need not be understood. The machine returns only when the input has run out, and
then all characters up to the end of the text have been accepted: no boundary lies behind that.
-/

namespace Linewise
namespace LuaPattern

variable {cfg : Setting} {s s' : State} {items rest : List Item} {i : Item} {t : Text} {p q r : Nat}

/-! ## 1.  Accepted characters -/

/-- Whether a part is an element that accepts a character. -/
def Item.takes : Item → UInt8 → Bool
  | element a _, c => a.accepts c
  | _, _ => false

/-- Each character from `p` up to `q` is accepted by an element. -/
def Passed (t : Text) (items : List Item) (p q : Nat) : Prop :=
  ∀ j c, p ≤ j → j < q → t[j]? = some c →
    Text.isContinuation c = true ∨ items.any (·.takes c) = true

theorem passed_self (t : Text) (items : List Item) (p : Nat) : Passed t items p p :=
  fun _ _ hle hlt => absurd hle (Nat.not_le_of_lt hlt)

theorem Passed.trans (h : Passed t items p q) (h' : Passed t items q r) : Passed t items p r := by
  intro j c hle hlt hc
  rcases Nat.lt_or_ge j q with hbefore | hbehind
  · exact h j c hle hbefore hc
  · exact h' j c hbehind hlt hc

/-- Up to the end of the text, that is up to everywhere. -/
theorem Passed.of_size (h : Passed t items p t.size) (q : Nat) : Passed t items p q :=
  fun j c hle _ hc => h j c hle (Array.getElem?_eq_some_iff.mp hc).1 hc

theorem Passed.cons (h : Passed t rest p q) (i : Item) : Passed t (i :: rest) p q := by
  intro j c hle hlt hc
  refine (h j c hle hlt hc).imp_right fun htakes => ?_
  rw [List.any_cons, htakes, Bool.or_true]

theorem Passed.head (h : Passed t [i] p q) (rest : List Item) : Passed t (i :: rest) p q := by
  intro j c hle hlt hc
  refine (h j c hle hlt hc).imp_right fun htakes => ?_
  rw [List.any_cons, List.any_nil, Bool.or_false] at htakes
  rw [List.any_cons, htakes, Bool.true_or]

/-- An atom accepts what it takes. -/
theorem passed_reach (a : Atom) (quantifier : Quantifier) (t : Text) (n p : Nat) :
    Passed t [.element a quantifier] p (a.reach t n p) := by
  induction n generalizing p with
  | zero => exact passed_self t _ p
  | succ n ih =>
    rw [Atom.reach]
    split
    · exact passed_self t _ p
    · next c hc =>
      split
      · next hacc =>
        have hfirst : Passed t [.element a quantifier] p (t.charStart (p + 1)) := by
          intro j d hle hlt hd
          rcases Nat.eq_or_lt_of_le hle with rfl | hbehind
          · cases hc.symm.trans hd
            right
            rw [List.any_cons, Item.takes, hacc, Bool.true_or]
          · exact Or.inl (Text.isContinuation_of_lt_charStart hbehind hlt hd)
        exact hfirst.trans (ih _)
      · exact passed_self t _ p

/-- A part accepts what lies in front of the place where it stops. -/
theorem passed_stop? {stop : Nat} (h : i.stop? t p = some stop) : Passed t [i] p stop := by
  cases i with
  | element a quantifier =>
    rw [Item.stop?] at h
    split at h
    · cases h
      exact passed_reach a quantifier t _ p
    · cases h
  | openGroup =>
    cases h
    exact passed_self t _ p
  | closeGroup =>
    cases h
    exact passed_self t _ p
  | frontier b =>
    rw [Item.stop?] at h
    split at h
    · cases h
      exact passed_self t _ p
    · cases h

/-! ## 2.  In front of a boundary -/

/-- A part reports no boundary behind the place where it is read. -/
theorem eq_of_mem_closes {b : Nat} (h : b ∈ i.closes p) : b = p := by
  cases i with
  | closeGroup => exact List.mem_singleton.mp h
  | _ => cases h

/-- **From where the machine rests up to any later boundary, each character is accepted.** The
induction is on the parts that are left. -/
theorem Rests.passed {bounds : List Nat} (h : Rests cfg items s)
    (hend : Concludes cfg s (.accept bounds)) :
    ∀ b ∈ bounds, b ∈ s.closes ∨ Passed cfg.text items s.position b := by
  induction items generalizing s with
  | nil =>
    intro b hb
    have hverdict := h.concludes_nil.unique hend
    rw [yielding, walk] at hverdict
    split at hverdict
    · cases hverdict
    · cases hverdict
      rcases List.mem_append.mp hb with hold | hnew
      · exact Or.inl hold
      · rw [List.mem_singleton.mp hnew]
        exact Or.inr (passed_self _ _ _)
  | cons i rest ih =>
    intro b hb
    by_cases hpos : s.position = cfg.text.size
    · right
      rw [hpos]
      exact (passed_self cfg.text (i :: rest) cfg.text.size).of_size b
    have houtcome := h.outcome hpos
    rw [Outcome] at houtcome
    cases hstop : i.stop? cfg.text s.position with
    | none =>
      rw [hstop] at houtcome
      cases houtcome.unique hend
    | some stop =>
      rw [hstop] at houtcome
      obtain ⟨s', hleads, hstops, hmoves⟩ := houtcome
      have hpassed : Passed cfg.text (i :: rest) s.position stop := (passed_stop? hstop).head rest
      cases hstops with
      | behind hrests _ =>
        rcases ih hrests (hleads.concludes_of hend) b hb with hclosed | hbehind
        · rw [hmoves.closes] at hclosed
          rcases List.mem_append.mp hclosed with hold | hnew
          · exact Or.inl hold
          · right
            rw [eq_of_mem_closes hnew]
            exact passed_self _ _ _
        · right
          rw [hmoves.position] at hbehind
          exact hpassed.trans (hbehind.cons i)
      | within _ hsize =>
        right
        rw [← hmoves.position, hsize] at hpassed
        exact hpassed.of_size b

/-- **Each character in front of a boundary is accepted by an element of the template.** -/
theorem Template.passed (w : Template) {offset : Nat} {bounds : List Nat} (hchar : t.AtChar offset)
    (h : boundariesAt? w.source t offset = some bounds) :
    ∀ b ∈ bounds, Passed t w.items offset b := by
  cases hanchor : w.anchored && offset != 0 with
  | true =>
    rw [w.boundariesAt?_of_anchored hanchor] at h
    cases h
  | false =>
    obtain ⟨cfg, s, hstart, hrun⟩ := exists_run_of_boundariesAt? h
    rw [w.start_eq hchar.le_size hanchor] at hstart
    cases hstart
    intro b hb
    rcases (w.rests_atStart hchar).passed (concludes_of_run hrun) b hb with hclosed | hpassed
    · cases hclosed
    · exact hpassed

/-! ## 3.  Where a match does not begin -/

/-- An element without a quantifier that refuses the byte at hand ends the match. -/
theorem concludes_of_refused {a : Atom} {c : UInt8} (hstop : cfg.stop ≤ cfg.pattern.length)
    (hsource : cfg.pattern.drop s.cursor = a.source ++ (sourceOf rest ++ anchorTail cfg.toEnd))
    (hend : s.cursor + a.source.length ≤ cfg.stop) (hfresh : Fresh s)
    (hc : cfg.text[s.position]? = some c) (hacc : a.accepts c = false) :
    Concludes cfg s .reject := by
  have hspells : Spells cfg { s with repeating := false } (behindAtom a c s) :=
    spells_atom (s := { s with repeating := false }) a hfresh.inSet hfresh.accepts
      (fun hinv => absurd hinv (by simp [hfresh.inverted])) hsource rfl hend hc
  have hpos : s.position ≠ cfg.text.size := Nat.ne_of_lt (Array.getElem?_eq_some_iff.mp hc).1
  obtain ⟨u, hleads, hstep⟩ := leads_of_spells hstop hspells hpos
  have hpass : passFrontier cfg (tally (behindAtom a c s)) = .next (tally (behindAtom a c s)) := by
    have hnone : (tally (behindAtom a c s)).frontier = none := hfresh.frontier
    rw [passFrontier, hnone]
  have htake : takeQuantifier cfg (tally (behindAtom a c s)) = (tally (behindAtom a c s), false) :=
    takeQuantifier_sourceOf (Source.drop_add_of_drop hsource)
  have hrefused : (behindAtom a c s).accepts = false := hacc
  -- the element has to be taken once, and has not been taken at all
  have hlt : (quantify cfg (tally (behindAtom a c s))).count <
      (quantify cfg (tally (behindAtom a c s))).least := by
    rw [quantify, htake]
    simp [tally, behindAtom, hacc, hfresh.count, hfresh.least]
  rw [close_of_passes hpass, hrefused, Bool.false_and, if_neg Bool.false_ne_true,
    settle_of_lt hlt] at hstep
  exact hleads.concludes (concludes_of_step hstep)

/-- **A match does not begin in front of a byte that its first element refuses**, even inside of a
character. -/
theorem Template.boundariesAt?_of_refused (w : Template) {a : Atom} {offset : Nat} {c : UInt8}
    (hitems : w.items = .element a .once :: rest) (hc : t[offset]? = some c)
    (hacc : a.accepts c = false) : boundariesAt? w.source t offset = none := by
  have hlt : offset < t.size := (Array.getElem?_eq_some_iff.mp hc).1
  cases hanchor : w.anchored && offset != 0 with
  | true => exact w.boundariesAt?_of_anchored hanchor
  | false =>
    have hstop : w.lead + a.source.length ≤ (w.setting t offset).stop := by
      show w.lead + a.source.length ≤ w.lead + (sourceOf w.items).length
      rw [hitems, sourceOf_cons, Item.source, List.append_assoc, List.length_append]
      omega
    have hsource : w.source.drop w.lead = a.source ++ (sourceOf rest ++ anchorTail w.toEnd) := by
      rw [w.drop_lead, hitems, sourceOf_cons, Item.source, Quantifier.source, List.append_nil,
        List.append_assoc]
    exact boundariesAt?_of_concludes (w.start_eq (Nat.le_of_lt hlt) hanchor)
      (concludes_of_refused (w.stop_setting_le t offset) hsource hstop
        ⟨⟨rfl, rfl, rfl, rfl⟩, rfl, rfl, rfl, rfl, rfl⟩ hc hacc)

end LuaPattern
end Linewise
