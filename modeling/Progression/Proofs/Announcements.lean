import Mathlib.Data.List.Induction
import Mathlib.Data.List.TakeWhile
import Progression.Proofs.Numerals
import Progression.Proofs.Verification

/-! Announcements in comments. The forms in which an announcement can be written are given as a grammar:
blanks and zeros are free, and so is the way to say that it is about the line of the comment. A comment
is searched for the first number sign that one of these forms follows, and nothing else is taken for an
announcement. -/

namespace Progression

/-- What satisfies `p` is taken off the front up to the first that does not. -/
theorem span_append {α : Type} {p : α → Bool} {front rest : List α} (hFront : ∀ a ∈ front, p a = true)
    (hRest : ∀ a ∈ rest.head?, p a = false) :
    (front ++ rest).takeWhile p = front ∧ (front ++ rest).dropWhile p = rest := by
  rw [List.takeWhile_append_of_pos hFront, List.dropWhile_append_of_pos hFront]
  cases rest with
  | nil => simp
  | cons a rest => simp [hRest a rfl]

namespace Decimal

/-- The digits spell the number, possibly with zeros in front. -/
def Spells (digits : List Char) (n : Nat) : Prop :=
  ∃ zeros, digits = List.replicate zeros '0' ++ Nat.toDigits 10 n

theorem ofDigits_eq (digits : List Char) : ofDigits digits = Nat.ofDigitChars 10 digits 0 :=
  Nat.ofDigitChars_eq_foldl.symm

theorem ofDigits_concat (digits : List Char) (c : Char) :
    ofDigits (digits ++ [c]) = 10 * ofDigits digits + (c.toNat - '0'.toNat) := by
  simp [ofDigits]

theorem exists_digit {c : Char} (h : c.isDigit = true) :
    c.toNat - '0'.toNat < 10 ∧ Nat.digitChar (c.toNat - '0'.toNat) = c := by
  have hRange : 48 ≤ c.toNat ∧ c.toNat ≤ 57 := by
    simpa [Char.isDigit, UInt32.le_iff_toNat_le] using h
  have hZero : '0'.toNat = 48 := rfl
  have hLt : c.toNat - '0'.toNat < 10 := by omega
  refine ⟨hLt, Char.toNat_inj.mp ?_⟩
  rw [Nat.toNat_digitChar_of_lt_ten hLt]
  omega

namespace Spells

variable {digits : List Char} {n : Nat}

theorem isDigit (h : Spells digits n) : ∀ c ∈ digits, c.isDigit = true := by
  obtain ⟨zeros, rfl⟩ := h
  intro c hMem
  rcases List.mem_append.mp hMem with hZero | hDigit
  · rw [(List.mem_replicate.mp hZero).2]
    rfl
  · exact Nat.isDigit_of_mem_toDigits (by decide) (by decide) hDigit

theorem ne_nil (h : Spells digits n) : digits ≠ [] := by
  obtain ⟨zeros, rfl⟩ := h
  simp [Nat.toDigits_ne_nil]

theorem ofDigits_eq (h : Spells digits n) : ofDigits digits = n := by
  obtain ⟨zeros, rfl⟩ := h
  rw [Decimal.ofDigits_eq, Nat.ofDigitChars_append, Nat.ofDigitChars_replicate_zero, Nat.mul_zero,
    Nat.ofDigitChars_ten_toDigits]

end Spells

/-- Apart from the zeros in front, digits are those of the number that they denote. -/
theorem eq_zeros_append {digits : List Char} (h : ∀ c ∈ digits, c.isDigit = true) :
    ∃ zeros, digits = List.replicate zeros '0' ++
      if ofDigits digits = 0 then [] else Nat.toDigits 10 (ofDigits digits) := by
  induction digits using List.reverseRecOn with
  | nil => exact ⟨0, rfl⟩
  | append_singleton digits c ih =>
      obtain ⟨zeros, hDigits⟩ := ih fun d hMem => h d (List.mem_append_left _ hMem)
      obtain ⟨hLt, hChar⟩ := exists_digit (h c (by simp))
      rw [ofDigits_concat]
      generalize c.toNat - '0'.toNat = d at hLt hChar ⊢
      generalize ofDigits digits = n at hDigits ⊢
      subst hDigits hChar
      by_cases hn : n = 0
      · by_cases hd : d = 0
        · exact ⟨zeros + 1, by simp [hn, hd, List.replicate_succ', Nat.digitChar]⟩
        · exact ⟨zeros, by simp [hn, hd, Nat.toDigits_of_lt_base hLt]⟩
      · have hSum : 10 * n + d ≠ 0 := by omega
        refine ⟨zeros, ?_⟩
        rw [if_neg hn, if_neg hSum, ← Nat.toDigits_append_toDigits (by decide) (by omega) hLt,
          Nat.toDigits_of_lt_base hLt, List.append_assoc]

theorem natural?_eq_some_iff {cs : List Char} {n : Nat} : natural? cs = some n ↔ Spells cs n := by
  constructor
  · intro h
    unfold natural? at h
    split at h
    · next hCond =>
        simp only [Bool.and_eq_true, Bool.not_eq_true', List.isEmpty_eq_false_iff,
          List.all_eq_true] at hCond
        cases h
        obtain ⟨zeros, hZeros⟩ := eq_zeros_append hCond.2
        by_cases hn : ofDigits cs = 0
        · rw [if_pos hn, List.append_nil] at hZeros
          cases zeros with
          | zero => exact absurd hZeros hCond.1
          | succ zeros =>
              exact ⟨zeros, by rw [hn, Nat.toDigits_zero, ← List.replicate_succ', ← hZeros]⟩
        · rw [if_neg hn] at hZeros
          exact ⟨zeros, hZeros⟩
    · cases h
  · intro h
    rw [natural?_eq_some h.ne_nil h.isDigit, h.ofDigits_eq]

end Decimal

namespace Text

/-- The text is made of blanks. -/
def AllBlank (cs : List Char) : Prop := ∀ c ∈ cs, isBlank c = true

/-- The text neither begins nor ends with a blank. -/
structure Trimmed (cs : List Char) : Prop where
  head : ∀ c ∈ cs.head?, isBlank c = false
  last : ∀ c ∈ cs.getLast?, isBlank c = false

theorem exists_trimLeft (cs : List Char) :
    ∃ lead, AllBlank lead ∧ cs = lead ++ trimLeft cs ∧
      ∀ c ∈ (trimLeft cs).head?, isBlank c = false := by
  refine ⟨cs.takeWhile isBlank, fun c hMem => List.mem_takeWhile_imp hMem,
    List.takeWhile_append_dropWhile.symm, fun c hMem => ?_⟩
  have hStop := List.head?_dropWhile_not isBlank cs
  rw [← trimLeft, Option.mem_def.mp hMem] at hStop
  exact hStop

theorem trimLeft_append {lead cs : List Char} (hLead : AllBlank lead)
    (h : ∀ c ∈ cs.head?, isBlank c = false) : trimLeft (lead ++ cs) = cs := (span_append hLead h).2

theorem trimRight_eq (cs : List Char) : trimRight cs = (trimLeft cs.reverse).reverse := rfl

theorem trim_append {gap message trail : List Char} (hGap : AllBlank gap) (hTrail : AllBlank trail)
    (hNonempty : message ≠ []) (h : Trimmed message) : trim (gap ++ message ++ trail) = message := by
  have hHead : ∀ c ∈ (message ++ trail).head?, isBlank c = false := by
    rw [List.head?_append_of_ne_nil _ hNonempty]
    exact h.head
  rw [trim, List.append_assoc, trimLeft_append hGap hHead, trimRight_eq, List.reverse_append,
    trimLeft_append (fun c hMem => hTrail c (List.mem_reverse.mp hMem)), List.reverse_reverse]
  rw [List.head?_reverse]
  exact h.last

theorem exists_trim (cs : List Char) :
    ∃ gap trail, AllBlank gap ∧ AllBlank trail ∧ cs = gap ++ trim cs ++ trail ∧
      Trimmed (trim cs) := by
  obtain ⟨gap, hGap, hcs, hHead⟩ := exists_trimLeft cs
  obtain ⟨trail, hTrail, hRest, hLast⟩ := exists_trimLeft (trimLeft cs).reverse
  have hSplit : trimLeft cs = trim cs ++ trail.reverse := by
    rw [trim, trimRight_eq, ← List.reverse_append, ← hRest, List.reverse_reverse]
  refine ⟨gap, trail.reverse, hGap, fun c hMem => hTrail c (List.mem_reverse.mp hMem), ?_, ?_, ?_⟩
  · rw [List.append_assoc, ← hSplit, ← hcs]
  · intro c hMem
    refine hHead c ?_
    rw [hSplit]
    exact List.mem_head?_append_of_mem_head? hMem
  · intro c hMem
    rw [trim, trimRight_eq, List.getLast?_reverse] at hMem
    exact hLast c hMem

end Text

namespace Expectation

open Decimal Text

/-- The ways to write a line offset in front of a column. That there is none can be written with or
without a colon. -/
inductive OffsetForm : Int → List Char → Prop where
  | absent : OffsetForm 0 []
  | colon : OffsetForm 0 [':']
  | down {n : Nat} {digits : List Char} (h : Spells digits n) :
      OffsetForm n ('+' :: digits ++ [':'])
  | up {n : Nat} {digits : List Char} (h : Spells digits n) :
      OffsetForm (-n) ('-' :: digits ++ [':'])

/-- The texts after a number sign, in a comment on the given line, that announce a report. -/
inductive Form (line : UInt32) : List Char → Expectation → Prop where
  | intro {lead offsetText columnText gap message trail : List Char} {offset : Int}
      {target column : UInt32} (hLead : AllBlank lead) (hOffset : OffsetForm offset offsetText)
      (hTarget : (target.toNat : Int) = line.toNat + offset)
      (hColumn : Spells columnText column.toNat) (hGap : AllBlank gap) (hNonempty : message ≠ [])
      (hMessage : Trimmed message) (hTrail : AllBlank trail) :
      Form line
        (lead ++ ("expectedError@".toList ++
          (offsetText ++ columnText ++ ':' :: (gap ++ message ++ trail))))
        ⟨⟨target.toNat, column.toNat⟩, String.ofList message⟩

theorem coordinate?_eq_some_iff {i : Int} {n : Nat} :
    coordinate? i = some n ↔ ∃ word : UInt32, word.toNat = n ∧ (word.toNat : Int) = i := by
  unfold coordinate?
  constructor
  · intro h
    split at h
    · next hRange =>
        have hGreatest : greatest = UInt32.size - 1 := rfl
        cases h
        have hPos : 0 < UInt32.size := by decide
        have hLt : i.toNat < UInt32.size := by omega
        have hWord : (UInt32.ofNat i.toNat).toNat = i.toNat := UInt32.toNat_ofNat_of_lt' hLt
        exact ⟨UInt32.ofNat i.toNat, hWord, by omega⟩
    · cases h
  · rintro ⟨word, rfl, rfl⟩
    have hRange : (word.toNat : Int) ≤ greatest := by
      have := word.toNat_lt_size
      simp only [greatest]
      omega
    rw [if_pos ⟨Int.natCast_nonneg _, hRange⟩, Int.toNat_natCast]

theorem leadingNumber?_eq_some_iff {cs rest : List Char} {n : Nat} :
    leadingNumber? cs = some (n, rest) ↔
      ∃ digits, Spells digits n ∧ cs = digits ++ rest ∧ ∀ c ∈ rest.head?, c.isDigit = false := by
  simp only [leadingNumber?, Option.map_eq_some_iff, natural?_eq_some_iff, Prod.mk.injEq]
  constructor
  · rintro ⟨m, hSpells, rfl, rfl⟩
    refine ⟨_, hSpells, List.takeWhile_append_dropWhile.symm, fun c hMem => ?_⟩
    have hStop := List.head?_dropWhile_not Char.isDigit cs
    rw [Option.mem_def.mp hMem] at hStop
    exact hStop
  · rintro ⟨digits, hSpells, rfl, hRest⟩
    obtain ⟨hTaken, hLeft⟩ := span_append hSpells.isDigit hRest
    exact ⟨n, by rwa [hTaken], rfl, hLeft⟩

theorem offset?_of_ne {cs : List Char} (h : ∀ c ∈ cs.head?, c ≠ '+' ∧ c ≠ '-') :
    offset? cs = some (0, cs) := by
  unfold offset?
  split
  · exact absurd rfl (h '+' rfl).1
  · exact absurd rfl (h '-' rfl).2
  · rfl

theorem dropColon_cases (cs : List Char) : cs = ':' :: dropColon cs ∨ cs = dropColon cs := by
  unfold dropColon
  split
  · exact .inl rfl
  · exact .inr rfl

theorem dropColon_of_ne {cs : List Char} (h : ∀ c ∈ cs.head?, c ≠ ':') : dropColon cs = cs := by
  rcases dropColon_cases cs with hColon | hSame
  · exact absurd rfl (h ':' (by rw [hColon]; rfl))
  · exact hSame.symm

/-- A text that begins with a number begins with a digit. -/
theorem exists_head {digits : List Char} {n : Nat} (h : Spells digits n) (rest : List Char) :
    ∃ c ∈ (digits ++ rest).head?, c.isDigit = true := by
  obtain ⟨c, tail, rfl⟩ := List.exists_cons_of_ne_nil h.ne_nil
  exact ⟨c, rfl, h.isDigit c List.mem_cons_self⟩

/-- A number that does not go on with a digit is followed by a column only after a colon. -/
theorem colon_of_number {left columnText rest : List Char} {n : Nat}
    (hLeft : ∀ c ∈ left.head?, c.isDigit = false) (hSpells : Spells columnText n)
    (hColumn : dropColon left = columnText ++ rest) : left = ':' :: (columnText ++ rest) := by
  rcases dropColon_cases left with hColon | hSame
  · rwa [hColumn] at hColon
  · obtain ⟨c, hMem, hDigit⟩ := exists_head hSpells rest
    rw [← hColumn, ← hSame] at hMem
    exact absurd hDigit (by simp [hLeft c hMem])

/-- A number and a column after it. The colon between them cannot be left out, since all digits up to it
belong to the number. -/
theorem two_numbers_iff {cs rest : List Char} {n column : Nat} :
    (∃ left, leadingNumber? cs = some (n, left) ∧
      leadingNumber? (dropColon left) = some (column, rest)) ↔
    ∃ digits columnText, Spells digits n ∧ Spells columnText column ∧
      cs = digits ++ ':' :: (columnText ++ rest) ∧ ∀ c ∈ rest.head?, c.isDigit = false := by
  simp only [leadingNumber?_eq_some_iff]
  constructor
  · rintro ⟨left, ⟨digits, hDigits, rfl, hHead⟩, columnText, hSpells, hLeft, hRest⟩
    rw [colon_of_number hHead hSpells hLeft]
    exact ⟨digits, columnText, hDigits, hSpells, rfl, hRest⟩
  · rintro ⟨digits, columnText, hDigits, hSpells, rfl, hRest⟩
    exact ⟨':' :: (columnText ++ rest), ⟨digits, hDigits, rfl, by simp⟩,
      columnText, hSpells, rfl, hRest⟩

/-- Where a report is announced: a line offset and a column. -/
theorem position_iff {cs rest : List Char} {offset : Int} {column : Nat} :
    (∃ left, offset? cs = some (offset, left) ∧
      leadingNumber? (dropColon left) = some (column, rest)) ↔
    ∃ offsetText columnText, OffsetForm offset offsetText ∧ Spells columnText column ∧
      cs = offsetText ++ columnText ++ rest ∧ ∀ c ∈ rest.head?, c.isDigit = false := by
  constructor
  · rintro ⟨left, hOffset, hColumn⟩
    unfold offset? at hOffset
    split at hOffset
    · obtain ⟨⟨n, after⟩, hNumber, hPair⟩ := Option.map_eq_some_iff.mp hOffset
      cases hPair
      obtain ⟨digits, columnText, hDigits, hSpells, rfl, hRest⟩ :=
        two_numbers_iff.mp ⟨_, hNumber, hColumn⟩
      exact ⟨_, columnText, .down hDigits, hSpells, by simp, hRest⟩
    · obtain ⟨⟨n, after⟩, hNumber, hPair⟩ := Option.map_eq_some_iff.mp hOffset
      cases hPair
      obtain ⟨digits, columnText, hDigits, hSpells, rfl, hRest⟩ :=
        two_numbers_iff.mp ⟨_, hNumber, hColumn⟩
      exact ⟨_, columnText, .up hDigits, hSpells, by simp, hRest⟩
    · cases hOffset
      obtain ⟨columnText, hSpells, hLeft, hRest⟩ := leadingNumber?_eq_some_iff.mp hColumn
      rcases dropColon_cases cs with hColon | hSame
      · exact ⟨_, columnText, .colon, hSpells, by rw [hColon, hLeft]; rfl, hRest⟩
      · exact ⟨_, columnText, .absent, hSpells, by rw [hSame, hLeft]; rfl, hRest⟩
  · rintro ⟨offsetText, columnText, hOffset, hSpells, rfl, hRest⟩
    have hColumn := leadingNumber?_eq_some_iff.mpr ⟨columnText, hSpells, rfl, hRest⟩
    cases hOffset with
    | absent =>
        have hHead : ∀ c ∈ (columnText ++ rest).head?, c.isDigit = true := by
          obtain ⟨d, hd, hDigit⟩ := exists_head hSpells rest
          rintro c hMem
          rwa [Option.mem_unique hMem hd]
        have hOther : ∀ c ∈ (columnText ++ rest).head?, (c ≠ '+' ∧ c ≠ '-') ∧ c ≠ ':' := by
          intro c hMem
          have hDigit := hHead c hMem
          refine ⟨⟨?_, ?_⟩, ?_⟩ <;> rintro rfl <;> exact absurd hDigit (by decide)
        refine ⟨columnText ++ rest, offset?_of_ne fun c hMem => (hOther c hMem).1, ?_⟩
        rw [dropColon_of_ne fun c hMem => (hOther c hMem).2]
        exact hColumn
    | colon => exact ⟨_, offset?_of_ne (by simp), hColumn⟩
    | @down n digits hDigits | @up n digits hDigits =>
        obtain ⟨left, hNumber, hLeft⟩ := two_numbers_iff.mpr
          ⟨digits, columnText, hDigits, hSpells, rfl, hRest⟩
        exact ⟨left, by simp [offset?, hNumber], hLeft⟩

/-- An announcement is found in a text just if the text has one of the forms. -/
theorem directive?_eq_some_iff {line : UInt32} {text : List Char} {e : Expectation} :
    directive? line.toNat text = some e ↔ Form line text e := by
  constructor
  · intro h
    simp only [directive?, Option.bind_eq_bind, Option.bind_eq_some_iff, Prod.exists] at h
    obtain ⟨rest, hWord, offset, left, hOffset, column, after, hNumber, wording, hColon, hEnd⟩ := h
    obtain ⟨lead, hLead, hText, -⟩ := exists_trimLeft text
    obtain ⟨offsetText, columnText, hForm, hSpells, hRest, -⟩ :=
      position_iff.mp ⟨left, hOffset, hNumber⟩
    obtain ⟨gap, trail, hGap, hTrail, hWording, hTrimmed⟩ := exists_trim wording
    split at hEnd
    · cases hEnd
    · next hNonempty =>
        simp only [Option.bind_eq_some_iff, coordinate?_eq_some_iff] at hEnd
        obtain ⟨_, ⟨target, rfl, hTarget⟩, _, ⟨place, rfl, hPlace⟩, hExpectation⟩ := hEnd
        cases hExpectation
        rw [List.isEmpty_iff] at hNonempty
        rw [← Int.natCast_inj.mp hPlace] at hSpells
        have hAll := Form.intro hLead hForm hTarget hSpells hGap hNonempty hTrimmed hTrail
        rw [rest?_eq_some_iff] at hWord hColon
        rwa [← hWording, ← List.singleton_append, ← hColon, ← hRest, ← hWord, ← hText] at hAll
  · intro h
    obtain @⟨lead, offsetText, columnText, gap, message, trail, offset, target, column, hLead, hForm,
      hTarget, hSpells, hGap, hNonempty, hMessage, hTrail⟩ := h
    obtain ⟨left, hOffset, hNumber⟩ : ∃ left,
        offset? (offsetText ++ columnText ++ ':' :: (gap ++ message ++ trail)) = some (offset, left) ∧
          leadingNumber? (dropColon left) = some (column.toNat, ':' :: (gap ++ message ++ trail)) :=
      position_iff.mpr ⟨offsetText, columnText, hForm, hSpells, rfl, by simp⟩
    have hWord : rest? "expectedError@".toList (trimLeft (lead ++ ("expectedError@".toList ++
        (offsetText ++ columnText ++ ':' :: (gap ++ message ++ trail))))) =
          some (offsetText ++ columnText ++ ':' :: (gap ++ message ++ trail)) := by
      rw [trimLeft_append hLead (by simp [isBlank, blankRanges]), rest?_eq_some_iff]
    have hColon : rest? [':'] (':' :: (gap ++ message ++ trail)) = some (gap ++ message ++ trail) :=
      rest?_eq_some_iff.mpr rfl
    have hLine := coordinate?_eq_some_iff.mpr ⟨target, rfl, hTarget⟩
    have hPlace := coordinate?_eq_some_iff.mpr ⟨column, rfl, rfl⟩
    have hFilled : message.isEmpty = false := by simpa using hNonempty
    simp only [directive?, hWord, hOffset, hNumber, hColon, hLine, hPlace, hFilled,
      trim_append hGap hTrail hNonempty hMessage, Option.bind_eq_bind, Option.bind_some,
      Bool.false_eq_true, if_false]

/-- The announcement in a comment follows the first number sign that an announcement follows. -/
theorem ofComment?_eq_some_iff {line : Nat} {comment : List Char} {e : Expectation} :
    ofComment? line comment = some e ↔ ∃ before text, comment = before ++ '#' :: text ∧
      directive? line text = some e ∧ ∀ earlier later, comment = earlier ++ '#' :: later →
        earlier.length < before.length → directive? line later = none := by
  induction comment with
  | nil => simp [ofComment?]
  | cons c cs ih =>
      constructor
      · intro h
        by_cases hFound : c = '#' ∧ directive? line cs = some e
        · exact ⟨[], cs, by rw [hFound.1]; rfl, hFound.2, by simp⟩
        · have hNone : c = '#' → directive? line cs = none := by
            rintro rfl
            rw [ofComment?, if_pos rfl, Option.or_eq_some_iff] at h
            exact (h.resolve_left fun hHere => hFound ⟨rfl, hHere⟩).1
          have hRest : ofComment? line cs = some e := by
            rw [ofComment?] at h
            split at h
            · next hSign => rwa [hNone hSign, Option.none_or] at h
            · exact h
          obtain ⟨before, text, hText, hHere, hBefore⟩ := ih.mp hRest
          refine ⟨c :: before, text, by rw [hText]; rfl, hHere, fun earlier later hAll hShorter => ?_⟩
          cases earlier with
          | nil =>
              obtain ⟨hSign, rfl⟩ := List.cons.inj hAll
              exact hNone hSign
          | cons d earlier =>
              exact hBefore earlier later (List.cons.inj hAll).2 (Nat.lt_of_succ_lt_succ hShorter)
      · rintro ⟨before, text, hAll, hHere, hBefore⟩
        cases before with
        | nil =>
            obtain ⟨rfl, rfl⟩ := List.cons.inj hAll
            rw [ofComment?, if_pos rfl, hHere, Option.some_or]
        | cons d before =>
            have hRest : ofComment? line cs = some e :=
              ih.mpr ⟨before, text, (List.cons.inj hAll).2, hHere, fun earlier later hLater hShorter =>
                hBefore (c :: earlier) later (by rw [hLater]; rfl) (Nat.succ_lt_succ hShorter)⟩
            rw [ofComment?]
            split
            · next hSign =>
                rw [hBefore [] cs (by rw [hSign]; rfl) (Nat.succ_pos _), Option.none_or, hRest]
            · exact hRest

end Expectation

open Expectation in
/-- Announcements are read exactly. A comment that begins with a number sign and one of the forms is
read as what the form says. Conversely, whatever is read from a comment is what such a form says that
follows one of its number signs, and no number sign before that is followed by any of the forms. -/
theorem announcements_exact (line : UInt32) :
    (∀ text e, Form line text e → ofComment? line.toNat ('#' :: text) = some e) ∧
    ∀ comment e, ofComment? line.toNat comment = some e ↔
      ∃ before text, comment = before ++ '#' :: text ∧ Form line text e ∧
        ∀ earlier later, comment = earlier ++ '#' :: later → earlier.length < before.length →
          ∀ other, ¬Form line later other := by
  have hSecond (comment : List Char) (e : Expectation) :
      ofComment? line.toNat comment = some e ↔
      ∃ before text, comment = before ++ '#' :: text ∧ Form line text e ∧
        ∀ earlier later, comment = earlier ++ '#' :: later → earlier.length < before.length →
          ∀ other, ¬Form line later other := by
    simp only [ofComment?_eq_some_iff, ← directive?_eq_some_iff, Option.eq_none_iff_forall_ne_some,
      ne_eq]
  exact ⟨fun text e h => (hSecond _ e).mpr ⟨[], text, rfl, h, by simp⟩, hSecond⟩

open Expectation Text in
/-- Two lines up, a column with zeros in front, and a wording with a number sign in it. -/
theorem announcements_exact_up :
    ∃ text, text = [' '] ++ ("expectedError@".toList ++ (('-' :: ['2'] ++ [':']) ++ ['0', '0', '7'] ++
        ':' :: ([' '] ++ ['a', ' ', '#', ' ', 'b'] ++ ['\t', ' ']))) ∧
      Form 10 text ⟨⟨8, 7⟩, "a # b"⟩ ∧ ofComment? 10 ('#' :: text) = some ⟨⟨8, 7⟩, "a # b"⟩ := by
  have hSpace : isBlank ' ' = true ∧ isBlank '\t' = true := by decide
  have hLetters : isBlank 'a' = false ∧ isBlank 'b' = false := by decide
  have hForm : Form 10 ([' '] ++ ("expectedError@".toList ++ (('-' :: ['2'] ++ [':']) ++
      ['0', '0', '7'] ++ ':' :: ([' '] ++ ['a', ' ', '#', ' ', 'b'] ++ ['\t', ' ']))))
      ⟨⟨8, 7⟩, "a # b"⟩ :=
    @Form.intro 10 _ _ _ _ ['a', ' ', '#', ' ', 'b'] _ (-2) 8 7 (by simp [AllBlank, hSpace])
      (.up ⟨0, by decide⟩) (by decide) ⟨2, by decide⟩ (by simp [AllBlank, hSpace]) (by decide)
      ⟨by simp [hLetters], by simp [hLetters]⟩ (by simp [AllBlank, hSpace])
  exact ⟨_, rfl, hForm, (announcements_exact 10).1 _ _ hForm⟩

end Progression
