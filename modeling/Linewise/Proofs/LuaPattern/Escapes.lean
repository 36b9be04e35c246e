import Linewise.Proofs.LuaPattern.Verbatim

/-!
# Escaped bytes

A `%` takes the meaning away from the byte behind it, in a word and in a set. There are two places
in which this fails, and both of them judge a byte by the one in front of it, or not even by that.

## 1.  Words

`escapeWord` escapes everything but letters and digits. Such a pattern matches where the word
stands, but if the word ends in a `$`, then the escaped `$` is an anchor as well.

## 2.  Sets

As long as no member of a set accepts, the members are read one by one. Once one has accepted, the
machine looks for a `]` that does not follow a `%`. Behind a `%%` as the last member it finds none
and passes over the whole pattern, so that the match ends where it began (`leads_end`).

## 3.  Both

`escapes_iff` says that these are the only two exceptions.
-/

namespace Linewise
namespace LuaPattern

variable {cfg : Setting} {s : State} {w : List UInt8} {b c : UInt8} {t : Text} {p : Nat}
  {inverted : Bool} {members : List Member}

/-! ## 1.  Words -/

/-- The pattern for a word: a `%` stands in front of each byte that is neither a letter nor a
digit. -/
def escapeWord (w : List UInt8) : Source :=
  w.flatMap fun b => if Ascii.isAlnum b then [b] else [percent, b]

theorem isOrdinary_of_isAlnum (h : Ascii.isAlnum b = true) : isOrdinary b = true := by
  obtain ⟨b⟩ := b
  revert b
  decide

theorem ne_zero_of_isPrintable (h : isPrintable b = true) : b ≠ 0 := by
  rintro rfl
  exact absurd h (by decide)

theorem lt_of_isPrintable (h : isPrintable b = true) : b < 0x80 := by
  obtain ⟨b⟩ := b
  revert b
  decide

/-- An escaped word stands for the word. -/
theorem writes_escapeWord (h : ∀ b ∈ w, isPrintable b = true) : Writes (escapeWord w) w := by
  induction w with
  | nil => exact .nil
  | cons b w ih =>
    obtain ⟨hb, hw⟩ := List.forall_mem_cons.mp h
    rw [escapeWord, List.flatMap_cons]
    cases halnum : Ascii.isAlnum b with
    | true => exact .ordinary (isOrdinary_of_isAlnum halnum) (ih hw)
    | false => exact .escaped (ne_zero_of_isPrintable hb) halnum (ih hw)

/-- **An escaped word matches where the word stands**, and where it has to be the end of the text if
it ends in a `$`. -/
theorem boundariesAt?_escapeWord (ht : t.Encoded) (h : ∀ b ∈ w, isPrintable b = true)
    (hp : p ≤ t.size) :
    boundariesAt? (escapeWord w) t p =
      if w <+: t.toList.drop p then endingAt t (w.getLast? == some dollar) (p + w.length)
      else none := by
  have hascii : Ascii.All w := fun b hb => lt_of_isPrintable (h b hb)
  rw [boundariesAt?_of_writes (writes_escapeWord h) hp, verbatim?_of_ascii ht hascii]
  split <;> rfl

/-! ## 2.  Sets -/

/-- The bytes of some members close no set. -/
theorem closesSet?_of_members {i k : Nat} (members : List Member) {more : Source}
    (hat : cfg.pattern.drop i = membersSource members ++ more)
    (hk : k < (membersSource members).length) :
    closesSet? cfg { s with cursor := i + k } = some false := by
  induction members generalizing i k with
  | nil => exact absurd hk (Nat.not_lt_zero k)
  | cons m members ih =>
    rw [membersSource_cons, List.append_assoc] at hat
    rw [membersSource_cons, List.length_append] at hk
    rcases Nat.lt_or_ge k m.source.length with hlt | hge
    · exact closesSet?_of_member hat hlt
    · have hrest := ih (k := k - m.source.length) (Source.drop_add_of_drop hat) (by omega)
      rwa [show i + m.source.length + (k - m.source.length) = i + k by omega] at hrest

/-- Once a member has accepted, bytes that do not close the set are passed over. -/
theorem leads_passedOver {n : Nat} (hset : s.inSet = true) (hacc : s.accepts = true)
    (hpos : s.position ≠ cfg.text.size) (hrepeating : s.repeating = false)
    (hstop : s.cursor + n ≤ cfg.stop)
    (hopen : ∀ k < n, closesSet? cfg { s with cursor := s.cursor + k } = some false) :
    Leads cfg s { s with cursor := s.cursor + n } := by
  induction n generalizing s with
  | zero => exact Leads.refl cfg s
  | succ n ih =>
    have hread : read cfg s = .skip { s with cursor := s.cursor + 1 } :=
      read_of_closesSet? hset hacc (hopen 0 (Nat.succ_pos n))
    have hsame : { s with repeating := false } = s := by
      cases s
      simp_all
    have hnext : step cfg s = .next { s with cursor := s.cursor + 1 } :=
      step_of_read_eq_skip (by omega) hpos (by rw [hsame]; exact hread)
    have hrest := ih (s := { s with cursor := s.cursor + 1 }) hset hacc hpos hrepeating
      (by simp only; omega) fun k hk => by
        have hk' := hopen (k + 1) (Nat.succ_lt_succ hk)
        rwa [show s.cursor + (k + 1) = s.cursor + 1 + k by omega] at hk'
    rw [show s.cursor + (n + 1) = s.cursor + 1 + n by omega]
    exact (leads_of_step hnext).trans hrest

/-- The members are read up to the first one that accepts. -/
theorem exists_leads_accepts (members : List Member) {more : Source} (hset : s.inSet = true)
    (hacc : s.accepts = false) (hrepeating : s.repeating = false)
    (hat : cfg.pattern.drop s.cursor = membersSource members ++ more)
    (hstop : s.cursor + (membersSource members).length ≤ cfg.stop)
    (hc : cfg.text[s.position]? = some c) (hany : members.any (·.accepts c) = true) :
    ∃ n ≤ (membersSource members).length,
      Leads cfg s { s with accepts := true, cursor := s.cursor + n } := by
  induction members generalizing s with
  | nil => cases hany
  | cons m members ih =>
    have hpos : s.position ≠ cfg.text.size := Nat.ne_of_lt (Array.getElem?_eq_some_iff.mp hc).1
    rw [membersSource_cons, List.append_assoc] at hat
    rw [membersSource_cons, List.length_append] at hstop ⊢
    have hsource : 0 < m.source.length := by cases m <;> exact Nat.succ_pos _
    have hsame : { s with repeating := false } = s := by
      cases s
      simp_all
    have hnext : step cfg s =
        .next { s with accepts := m.accepts c, cursor := s.cursor + m.source.length } :=
      step_of_read_eq_skip (by omega) hpos (by rw [hsame]; exact read_member hset hacc hat hc)
    cases hm : m.accepts c with
    | true =>
      rw [hm] at hnext
      exact ⟨m.source.length, by omega, leads_of_step hnext⟩
    | false =>
      rw [hm] at hnext
      rw [List.any_cons, hm, Bool.false_or] at hany
      obtain ⟨n, hn, hleads⟩ := ih
        (s := { s with accepts := false, cursor := s.cursor + m.source.length }) hset rfl hrepeating
        (Source.drop_add_of_drop hat) (by simp only; omega) hc hany
      refine ⟨m.source.length + n, by omega, ?_⟩
      rw [← Nat.add_assoc]
      exact (leads_of_step hnext).trans hleads

/-- Behind a `%%`, the closing bracket is taken for an escaped one. -/
theorem closesSet?_behind_percents {i : Nat} {more : Source}
    (hlast : members.getLast?.map Member.source = some [percent, percent])
    (hat : cfg.pattern.drop i = membersSource members ++ closeSet :: more) :
    closesSet? cfg { s with cursor := i + (membersSource members).length } = some false := by
  obtain ⟨m, hm, hpercents⟩ := Option.map_eq_some_iff.mp hlast
  obtain ⟨others, rfl⟩ := List.getLast?_eq_some_iff.mp hm
  have hsource :
      membersSource (others ++ [m]) = membersSource others ++ [percent] ++ [percent] := by
    simp [membersSource, hpercents]
  have hclose : cfg.pattern.byteAt (i + (membersSource (others ++ [m])).length) = closeSet :=
    Source.byteAt_eq_of_drop (Source.drop_add_of_drop hat)
  rw [hsource, List.append_assoc] at hat
  have hbefore := Source.byteAt_eq_of_drop (Source.drop_add_of_drop hat)
  have hlength : (membersSource (others ++ [m])).length =
      (membersSource others ++ [percent]).length + 1 := by
    rw [hsource, List.length_append, List.length_singleton]
  rw [closesSet?_of_eq (s := { s with cursor := i + (membersSource (others ++ [m])).length }) hclose
    (by rw [hlength, ← Nat.add_assoc]), hbefore]
  rfl

/-- **Where a member accepts, a set that ends in a `%%` is never closed.** The machine passes over
everything up to the end of the pattern, and does not move in the text. -/
theorem leads_end (hset : s.inSet = true) (hacc : s.accepts = false)
    (hrepeating : s.repeating = false)
    (hat : cfg.pattern.drop s.cursor = membersSource members ++ [closeSet])
    (hstop : s.cursor + (membersSource members).length + 1 = cfg.stop)
    (hlast : members.getLast?.map Member.source = some [percent, percent])
    (hc : cfg.text[s.position]? = some c) (hany : members.any (·.accepts c) = true) :
    Leads cfg s { s with accepts := true, cursor := cfg.stop } := by
  have hpos : s.position ≠ cfg.text.size := Nat.ne_of_lt (Array.getElem?_eq_some_iff.mp hc).1
  obtain ⟨n, hn, hleads⟩ := exists_leads_accepts members hset hacc hrepeating hat (by omega) hc hany
  have hopen : ∀ k < (membersSource members).length + 1 - n,
      closesSet? cfg { s with accepts := true, cursor := s.cursor + n + k } = some false := by
    intro k hk
    rcases Nat.lt_or_ge (n + k) (membersSource members).length with hlt | hge
    · rw [Nat.add_assoc]
      exact closesSet?_of_members (s := { s with accepts := true }) members hat hlt
    · rw [show s.cursor + n + k = s.cursor + (membersSource members).length by omega]
      exact closesSet?_behind_percents (s := { s with accepts := true }) hlast hat
  have hover := leads_passedOver (s := { s with accepts := true, cursor := s.cursor + n })
    (n := (membersSource members).length + 1 - n) hset rfl hpos hrepeating
    (by simp only; omega) hopen
  rw [show s.cursor + n + ((membersSource members).length + 1 - n) = cfg.stop by omega] at hover
  exact hleads.trans hover

/-! ### The whole match -/

/-- Behind the end of a pattern stands no quantifier. -/
theorem isQuantifier_byteAt_length (src : Source) :
    Source.isQuantifier (src.byteAt src.length) = false := by
  rw [Source.byteAt, List.getD_eq_getElem?_getD, List.getElem?_eq_none (Nat.le_refl _)]
  rfl

/-- An element with which a pattern ends decides about the match. -/
theorem concludes_of_last {src : Source} {start : Nat} {inv acc : Bool} (hp : p ≠ t.size)
    (hlast : src.getLast? ≠ some dollar)
    (hspells : Spells (settingOf src t p) (atStart 0 p)
      { atStart 0 p with
        inverted := inv, elementStart := start, accepts := acc, cursor := src.length }) :
    Concludes (settingOf src t p) (atStart 0 p)
      (verdictOn [] (if acc then some [t.charStart (p + 1)] else none)) := by
  have hfree := unanchored_settingOf hlast t p
  obtain ⟨behind, hleads, hclose⟩ :=
    leads_of_spells (s := atStart 0 p) (Nat.le_of_eq hfree.stop_eq) hspells hp
  rw [close_of_once rfl (isQuantifier_byteAt_length src) rfl rfl] at hclose
  cases acc with
  | true =>
    rw [settle_of_taken (Nat.le_refl 1) rfl Nat.one_pos] at hclose
    exact (hleads.trans (leads_of_step hclose)).concludes
      (concludes_of_step (hfree.step_eq (Nat.le_refl _)))
  | false =>
    rw [settle_of_lt Nat.zero_lt_one] at hclose
    exact hleads.concludes (concludes_of_step hclose)

theorem getLast?_setSource (inverted : Bool) (members : List Member) :
    (setSource inverted members).getLast? ≠ some dollar := by
  rw [setSource, List.getLast?_append, List.getLast?_singleton, Option.some_or]
  decide

theorem drop_setSource (inverted : Bool) (members : List Member) (t : Text) (p : Nat) :
    (settingOf (setSource inverted members) t p).pattern.drop (atStart 0 p).cursor =
      setSource inverted members ++ [] :=
  (List.append_nil _).symm

/-- A set has to be taken, so it does not match at the end of the text. -/
theorem concludes_setSource_of_size (inverted : Bool) (members : List Member) (t : Text) :
    Concludes (settingOf (setSource inverted members) t t.size) (atStart 0 t.size) .reject := by
  have hstop := (unanchored_settingOf (getLast?_setSource inverted members) t t.size).stop_eq
  have htail : Source.tailCloses? (setSource inverted members) = none := by
    have hnone : ∀ n, Source.optionalCloses? n (setSource inverted members ++ []) = none :=
      (element_setSource inverted members).optionalCloses?_eq_none nofun
    exact List.append_nil (setSource inverted members) ▸ hnone _
  refine concludes_of_step (step_of_size ?_ rfl rfl rfl ?_)
  · rw [hstop]
    exact Nat.succ_pos _
  · rw [remainder?_of_not_repeating rfl, hstop, Option.bind_some]
    exact (congrArg Source.tailCloses? List.take_length).trans htail

/-- Where a member accepts, a set that ends in a `%%` matches without taking anything. -/
theorem concludes_setSource_of_percents (hne : members ≠ [])
    (hhead : inverted = false → members.head?.map Member.source ≠ some [caret])
    (hc : t[p]? = some c) (hany : members.any (·.accepts c) = true)
    (hlast : members.getLast?.map Member.source = some [percent, percent]) :
    Concludes (settingOf (setSource inverted members) t p) (atStart 0 p) (.accept [p]) := by
  have hdollar := getLast?_setSource inverted members
  have hfree := unanchored_settingOf hdollar t p
  have hstop : (settingOf (setSource inverted members) t p).stop =
      (setSource inverted members).length := hfree.stop_eq
  have hpos : (atStart 0 p).position ≠ (settingOf (setSource inverted members) t p).text.size :=
    Nat.ne_of_lt (Array.getElem?_eq_some_iff.mp hc).1
  obtain ⟨n, hlength, hinside, hread⟩ := exists_read_opening hne hhead rfl
    (fun hinv => absurd hinv Bool.false_ne_true) (drop_setSource inverted members t p)
  have hopen :=
    leads_of_step (step_of_read_eq_skip (by rw [hstop]; exact Nat.succ_pos _) hpos hread)
  have hend := leads_end (s := { atStart 0 p with
      inSet := true, inverted := inverted, elementStart := 0, cursor := 0 + n })
    rfl rfl rfl hinside (by dsimp only; rw [Nat.zero_add, hstop, hlength]) hlast hc hany
  exact (hopen.trans hend).concludes (concludes_of_step (hfree.step_eq (Nat.le_of_eq hstop.symm)))

/-- **What a set answers.** -/
theorem boundariesAt?_setSource (hne : members ≠ [])
    (hhead : inverted = false → members.head?.map Member.source ≠ some [caret]) (hp : p ≤ t.size) :
    boundariesAt? (setSource inverted members) t p =
      match t[p]? with
      | none => none
      | some c =>
        if members.any (·.accepts c) = true ∧
            members.getLast?.map Member.source = some [percent, percent] then some [p]
        else if members.any (·.accepts c) != inverted then some [t.charStart (p + 1)]
        else none := by
  have hdollar := getLast?_setSource inverted members
  have hstop := (unanchored_settingOf hdollar t p).stop_eq
  have hstart : start (setSource inverted members) t p =
      .ready (settingOf (setSource inverted members) t p) (atStart 0 p) :=
    start_of_ne_caret (show openSet ≠ caret by decide) hp
  refine boundariesAt?_of_concludes hstart ?_
  cases hc : t[p]? with
  | none =>
    obtain rfl : p = t.size := Nat.le_antisymm hp (Array.getElem?_eq_none_iff.mp hc)
    exact concludes_setSource_of_size inverted members t
  | some c =>
    have hpos : p ≠ t.size := Nat.ne_of_lt (Array.getElem?_eq_some_iff.mp hc).1
    dsimp only
    split
    · next h => exact concludes_setSource_of_percents hne hhead hc h.1 h.2
    · next h =>
      have hspells := spells_set hne hhead rfl rfl (fun hinv => absurd hinv Bool.false_ne_true)
        (drop_setSource inverted members t p) (Nat.zero_add _).symm (Nat.le_of_eq hstop.symm)
        (fun hany hlast => h ⟨hany, hlast⟩) hc
      have hinverted : ∀ any : Bool, (if inverted then !any else any) = (any != inverted) := by
        intro any
        cases inverted <;> simp
      rw [hinverted] at hspells
      exact concludes_of_last hpos hdollar hspells

/-! ## 3.  Both -/

/-- **An escaped byte stands for itself**, but for two places. An escaped word is found where it
stands, except where it ends in a `$` and the text does not end with it. A set accepts what one of
its members accepts, or what none does if it is inverted, except where a member accepts and the last
one is a `%%`. In a set, too, an escaped punctuation byte is that byte. -/
theorem escapes_iff {s : String} (hchar : (Text.ofString s).AtChar p) :
    (∀ w : List UInt8, (∀ b ∈ w, isPrintable b = true) →
      (boundariesAt? (escapeWord w) (Text.ofString s) p =
          (if w <+: (Text.ofString s).toList.drop p then some [p + w.length] else none) ↔
        ¬(w.getLast? = some dollar ∧ w <+: (Text.ofString s).toList.drop p ∧
          p + w.length ≠ (Text.ofString s).size))) ∧
      (∀ (inverted : Bool) (members : List Member), members ≠ [] →
        (inverted = false → members.head?.map Member.source ≠ some [caret]) →
        (boundariesAt? (setSource inverted members) (Text.ofString s) p =
            (if (Text.ofString s)[p]?.any fun c => members.any (·.accepts c) != inverted then
              some [(Text.ofString s).charStart (p + 1)]
            else none) ↔
          ¬(members.getLast?.map Member.source = some [percent, percent] ∧
            (Text.ofString s)[p]?.any fun c => members.any (·.accepts c)))) ∧
      ∀ (kind : UInt8) (known : isEscape kind = true) (c : UInt8), Ascii.isPunct kind = true →
        (Member.escape kind known).accepts c = (kind == c) := by
  refine ⟨fun w hw => ?_, fun inverted members hne hhead => ?_, fun kind known c hpunct => ?_⟩
  · rw [boundariesAt?_escapeWord (Text.encoded_ofString s) hw hchar.le_size]
    by_cases hstands : w <+: (Text.ofString s).toList.drop p
    · rw [if_pos hstands, if_pos hstands, endingAt]
      by_cases hdollar : w.getLast? = some dollar <;>
        by_cases hend : p + w.length = (Text.ofString s).size <;> simp [*]
    · simp [hstands]
  · rw [boundariesAt?_setSource hne hhead hchar.le_size]
    cases hc : (Text.ofString s)[p]? with
    | none => simp
    | some c =>
      have hforward := (Text.ofString s).le_charStart (p + 1)
      have hstays : p ≠ (Text.ofString s).charStart (p + 1) := by omega
      rw [Option.any_some, Option.any_some]
      dsimp only
      by_cases hopen : members.any (·.accepts c) = true ∧
          members.getLast?.map Member.source = some [percent, percent]
      · rw [if_pos hopen]
        refine iff_of_false (fun heq => ?_) fun h => h ⟨hopen.2, hopen.1⟩
        obtain ⟨-, hstop⟩ := Option.ite_none_right_eq_some.mp heq.symm
        simp only [Option.some.injEq, List.cons.injEq, and_true] at hstop
        exact hstays hstop.symm
      · rw [if_neg hopen]
        exact iff_of_true rfl fun h => hopen ⟨h.2, h.1⟩
  · rw [Ascii.isPunct, Bool.and_eq_true, Bool.not_eq_true'] at hpunct
    exact classAccepts_of_not_isAlnum hpunct.2 c

theorem escapes_comma :
    (Text.ofString "a,").AtChar 1 ∧
      boundariesAt? (escapeWord [0x2C]) (Text.ofString "a,") 1 = some [2] ∧
      boundariesAt? (setSource true [.escape percent rfl]) (Text.ofString "a,") 1 = some [2] := by
  have hchar : (Text.ofString "a,").AtChar 1 :=
    (Text.encoded_ofString "a,").atChar_succ (show (Text.ofString "a,")[0]? = some 0x61 from rfl)
      (by decide)
  obtain ⟨hword, hset, -⟩ := escapes_iff hchar
  exact ⟨hchar, (hword [0x2C] (List.all_eq_true.mp rfl)).mpr (by decide),
    (hset true [.escape percent rfl] (by decide) (by decide)).mpr (by decide)⟩

/-- **Both exceptions occur.** The pattern `%$` does not match at the start of `$x`, since the `$`
has to be the end of the text, and `[%%]` matches the text `%` without taking its character. -/
theorem not_literal_dollar_percents :
    ((Text.ofString "$x").AtChar 0 ∧ [dollar] <+: (Text.ofString "$x").toList.drop 0 ∧
        boundariesAt? (escapeWord [dollar]) (Text.ofString "$x") 0 = none) ∧
      (Text.ofString "%").AtChar 0 ∧ (Member.escape percent rfl).accepts percent = true ∧
        boundariesAt? (setSource false [.escape percent rfl]) (Text.ofString "%") 0 = some [0] ∧
        (Text.ofString "%").charStart 1 = 1 :=
  ⟨⟨(Text.encoded_ofString "$x").atChar_zero, by decide,
      boundariesAt?_of_concludes rfl ⟨2, rfl, rfl⟩⟩,
    (Text.encoded_ofString "%").atChar_zero, rfl,
      boundariesAt?_of_concludes rfl ⟨4, rfl, rfl⟩, rfl⟩

end LuaPattern
end Linewise
