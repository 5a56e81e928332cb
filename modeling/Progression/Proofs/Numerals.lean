import Progression.Proofs.Tokens
import Progression.Statement.Parser

/-! Number literals. The lexer writes a minus or none, digits, and possibly a dot among or around
them, with at least one digit in all. The parser gives such a text its value: the exact integer, if
it fits in a word, or the nearest float. -/

namespace Progression

/-- A number as it is written. Without a dot there is no fraction; with one, either side of the dot
can be empty, but not both. -/
structure Numeral where
  negative : Bool
  whole : List Char
  fraction : Option (List Char)
  isDigit : ∀ c ∈ whole ++ fraction.getD [], c.isDigit = true
  nonempty : whole ++ fraction.getD [] ≠ []

namespace Numeral

/-- The characters of a number, in order. -/
def spell (negative : Bool) (whole : List Char) (fraction : Option (List Char)) : List Char :=
  let body := whole ++ (fraction.map ('.' :: ·)).getD []
  if negative then '-' :: body else body

def text (n : Numeral) : String := String.ofList (spell n.negative n.whole n.fraction)

def token (n : Numeral) : Token := if n.fraction.isSome then .float n.text else .int n.text

/-- All digits read as one natural number. -/
def significand (n : Numeral) : Nat := Decimal.ofDigits (n.whole ++ n.fraction.getD [])

def negate (n : Numeral) : Numeral := { n with negative := !n.negative }

/-- The literals with a given mark that a number can stand for. An integer has to fit in a word;
wherever there is a dot the value is a float. -/
inductive Denotes (n : Numeral) (mark : Mark) : Expr → Prop where
  | int {value : Int64} (hWhole : n.fraction = none)
      (hValue : value.toInt = if n.negative then -(n.significand : Int) else n.significand) :
      n.Denotes mark (.int mark value)
  | float {fraction : List Char} (hDot : n.fraction = some fraction) :
      n.Denotes mark
        (.float mark (Decimal.nearest n.negative n.significand (Nat.pow 10 fraction.length)))

end Numeral

/-- A number token carries the text of a numeral. -/
def Token.Legible (token : Token) : Prop :=
  match token with
  | .int _ | .float _ => ∃ n : Numeral, n.token = token
  | _ => True

namespace Decimal

theorem natural?_eq_some {cs : List Char} (hNonempty : cs ≠ []) (hDigits : ∀ c ∈ cs, c.isDigit) :
    natural? cs = some (ofDigits cs) := by
  have hAll : (!cs.isEmpty && cs.all Char.isDigit) = true := by
    simpa [hNonempty] using hDigits
  rw [natural?, if_pos hAll]

theorem natural?_eq_none {cs : List Char} {c : Char} (hMem : c ∈ cs) (hOther : c.isDigit = false) :
    natural? cs = none := by
  have hAll : (!cs.isEmpty && cs.all Char.isDigit) = false := by
    simp only [Bool.and_eq_false_iff, List.all_eq_false]
    exact .inr ⟨c, hMem, by simp [hOther]⟩
  rw [natural?, hAll]
  rfl

theorem splitSign_eq {cs : List Char} (h : ∀ c ∈ cs.head?, c ≠ '-' ∧ c ≠ '+') :
    splitSign cs = (false, cs) := by
  unfold splitSign
  split
  · exact absurd rfl (h '-' rfl).1
  · exact absurd rfl (h '+' rfl).2
  · rfl

end Decimal

namespace Numeral

variable {n : Numeral}

theorem whole_ne_dot {c : Char} (hMem : c ∈ n.whole) : c ≠ '.' := by
  rintro rfl
  exact absurd (n.isDigit '.' (by simp [hMem])) (by decide)

theorem head_body {c : Char}
    (h : c ∈ (n.whole ++ (n.fraction.map ('.' :: ·)).getD []).head?) : c ≠ '-' ∧ c ≠ '+' := by
  have hMem := List.mem_of_mem_head? h
  have hCases : c.isDigit = true ∨ c = '.' := by
    rcases List.mem_append.mp hMem with hWhole | hRest
    · exact .inl (n.isDigit c (by simp [hWhole]))
    · cases hFraction : n.fraction with
      | none => simp [hFraction] at hRest
      | some fraction =>
          rw [hFraction] at hRest
          rcases List.mem_cons.mp hRest with hDot | hDigit
          · exact .inr hDot
          · exact .inl (n.isDigit c (by simp [hFraction, hDigit]))
  constructor <;> rintro rfl <;> exact absurd hCases (by decide)

theorem splitSign_text :
    Decimal.splitSign n.text.toList =
      (n.negative, n.whole ++ (n.fraction.map ('.' :: ·)).getD []) := by
  rw [text, String.toList_ofList]
  unfold spell
  cases hNegative : n.negative with
  | true => rfl
  | false => exact Decimal.splitSign_eq fun c => head_body

theorem integer?_text (hWhole : n.fraction = none) :
    Decimal.integer? n.text.toList =
      some (if n.negative then -(n.significand : Int) else n.significand) := by
  have hNonempty := n.nonempty
  have hDigits := n.isDigit
  rw [hWhole, Option.getD_none, List.append_nil] at hNonempty hDigits
  unfold Decimal.integer?
  rw [splitSign_text, hWhole]
  simp only [Option.map_none, Option.getD_none, List.append_nil]
  rw [Decimal.natural?_eq_some hNonempty hDigits, significand, hWhole]
  simp

theorem float?_text {fraction : List Char} (hDot : n.fraction = some fraction) :
    Decimal.float? n.text.toList =
      some (Decimal.nearest n.negative n.significand (Nat.pow 10 fraction.length)) := by
  have hNonempty := n.nonempty
  have hDigits := n.isDigit
  rw [hDot, Option.getD_some] at hNonempty hDigits
  have hBefore : (n.whole ++ '.' :: fraction).takeWhile (· ≠ '.') = n.whole := by
    rw [List.takeWhile_append_of_pos (fun c hMem => by simpa using whole_ne_dot hMem)]
    simp
  have hAfter : (n.whole ++ '.' :: fraction).dropWhile (· ≠ '.') = '.' :: fraction := by
    rw [List.dropWhile_append_of_pos (fun c hMem => by simpa using whole_ne_dot hMem)]
    simp
  unfold Decimal.float?
  rw [splitSign_text, hDot]
  simp only [Option.map_some, Option.getD_some, hBefore, hAfter, List.drop_succ_cons,
    List.drop_zero]
  rw [Decimal.natural?_eq_some hNonempty hDigits, significand, hDot]
  rfl

/-- The parser reads the text of a number as a literal that the number denotes, or as none. -/
theorem number_text {span : Span} {e : Expr} :
    Parser.number n.fraction.isSome n.text span = .ok e ↔ n.Denotes ⟨span, none⟩ e := by
  cases hFraction : n.fraction with
  | none =>
      rw [Parser.number, Option.isSome_none, if_neg Bool.false_ne_true, integer?_text hFraction,
        Option.bind_some]
      constructor
      · intro h
        split at h
        · next value hFit =>
            cases h
            exact .int hFraction (Integer.fit?_eq_some_iff.mp hFit)
        · cases h
      · intro hDenotes
        cases hDenotes with
        | int _ hValue => rw [Integer.fit?_eq_some_iff.mpr hValue]
        | float hDot => rw [hFraction] at hDot; cases hDot
  | some fraction =>
      rw [Parser.number, Option.isSome_some, if_pos rfl, float?_text hFraction]
      constructor
      · intro h
        cases h
        exact .float hFraction
      · intro hDenotes
        cases hDenotes with
        | int hWhole _ => rw [hFraction] at hWhole; cases hWhole
        | float hDot => rw [hFraction] at hDot; cases hDot; rfl

theorem minus_text (hUnsigned : n.negative = false) : "-" ++ n.text = n.negate.text := by
  apply String.toList_injective
  simp [text, negate, spell, hUnsigned]

/-- A sign in front of a number that has one already makes no number. -/
theorem number_minus_text (hSigned : n.negative = true) {dotted : Bool} {span : Span} {e : Expr} :
    Parser.number dotted ("-" ++ n.text) span ≠ .ok e := by
  have hText : ("-" ++ n.text).toList =
      '-' :: '-' :: (n.whole ++ (n.fraction.map ('.' :: ·)).getD []) := by
    simp [text, spell, hSigned]
  have hMinus : ('-' : Char).isDigit = false := by decide
  intro h
  unfold Parser.number Decimal.float? Decimal.integer? at h
  rw [hText] at h
  simp only [Decimal.splitSign] at h
  rw [Decimal.natural?_eq_none (by simp) hMinus, Decimal.natural?_eq_none (by simp) hMinus] at h
  cases dotted <;> cases h

theorem takeOperand_token (goal : Goal) (stack : List Frame) (place : Span) :
    Parser.takeOperand goal stack ⟨n.token, place⟩ =
      Parser.takeNumber goal stack n.fraction.isSome n.text place := by
  cases hFraction : n.fraction <;> simp [token, hFraction, Parser.takeOperand]

theorem takeLiteral_token (goal : Goal) (stack : List Frame) {minus place : Span}
    (hAdjacent : place.start = minus.stop) :
    Parser.takeLiteral goal stack minus ⟨n.token, place⟩ =
      Parser.takeNumber goal stack n.fraction.isSome ("-" ++ n.text) (minus.cover place) := by
  cases hFraction : n.fraction <;> simp [token, hFraction, Parser.takeLiteral, hAdjacent]

theorem token_ne_finish (n : Numeral) : n.token ≠ .finish := by
  unfold token
  split <;> simp

theorem token_legible (n : Numeral) : n.token.Legible := by
  unfold Token.Legible
  split
  · exact ⟨n, rfl⟩
  · exact ⟨n, rfl⟩
  · trivial

end Numeral

/-- A number that is being read has the characters of one, except that after a lone dot a digit can
still be missing. -/
def Mode.Numeric : Mode → Prop
  | .number _ read dotted => ∃ negative whole fraction,
      read.reverse = Numeral.spell negative whole fraction ∧ dotted = fraction.isSome ∧
        (∀ c ∈ whole ++ fraction.getD [], c.isDigit = true) ∧ (fraction = none → whole ≠ [])
  | _ => True

namespace Mode

theorem numeric_started {c : Char} (h : Lexer.beginsNumber c = true) (start : Location)
    (negative : Bool) :
    (number start (c :: if negative then ['-'] else []) (decide (c = '.'))).Numeric := by
  by_cases hDot : c = '.'
  · refine ⟨negative, [], some [], ?_, by simp [hDot], by simp, nofun⟩
    cases negative <;> simp [Numeral.spell, hDot]
  · have hDigit : c.isDigit = true := by simpa [Lexer.beginsNumber, hDot] using h
    refine ⟨negative, [c], none, ?_, by simp [hDot], by simpa using hDigit, by simp⟩
    cases negative <;> simp [Numeral.spell]

theorem numeric_digit {start : Location} {read : List Char} {dotted : Bool} {c : Char}
    (hDigit : c.isDigit = true) (h : (number start read dotted).Numeric) :
    (number start (c :: read) dotted).Numeric := by
  obtain ⟨negative, whole, fraction, hRead, hDotted, hDigits, hWhole⟩ := h
  cases fraction with
  | none =>
      refine ⟨negative, whole ++ [c], none, ?_, hDotted, ?_, by simp⟩
      · rw [List.reverse_cons, hRead]
        cases negative <;> simp [Numeral.spell]
      · intro d hMem
        simp only [Option.getD_none, List.append_nil, List.mem_append, List.mem_singleton]
          at hDigits hMem
        rcases hMem with hMem | rfl
        · exact hDigits d hMem
        · exact hDigit
  | some fraction =>
      refine ⟨negative, whole, some (fraction ++ [c]), ?_, hDotted, ?_, nofun⟩
      · rw [List.reverse_cons, hRead]
        cases negative <;> simp [Numeral.spell]
      · intro d hMem
        simp only [Option.getD_some, List.mem_append, List.mem_singleton] at hDigits hMem
        rcases hMem with hMem | hMem | rfl
        · exact hDigits d (.inl hMem)
        · exact hDigits d (.inr hMem)
        · exact hDigit

theorem numeric_dot {start : Location} {read : List Char} (h : (number start read false).Numeric) :
    (number start ('.' :: read) true).Numeric := by
  obtain ⟨negative, whole, fraction, hRead, hDotted, hDigits, -⟩ := h
  cases fraction with
  | some fraction => cases hDotted
  | none =>
      refine ⟨negative, whole, some [], ?_, rfl, by simpa using hDigits, nofun⟩
      rw [List.reverse_cons, hRead]
      cases negative <;> simp [Numeral.spell]

theorem numberLexed_legible {read : List Char} {dotted : Bool} {start stop : Location}
    (h : (number start read dotted).Numeric) :
    AllTokens Token.Legible (numberLexed read.reverse dotted start stop) := by
  obtain ⟨negative, whole, fraction, hRead, hDotted, hDigits, hWhole⟩ := h
  unfold numberLexed
  split
  · simp [Token.Legible]
  · next hLone =>
      have hNonempty : whole ++ fraction.getD [] ≠ [] := by
        intro hEmpty
        obtain ⟨rfl, hFraction⟩ := List.append_eq_nil_iff.mp hEmpty
        cases fraction with
        | none => exact hWhole rfl rfl
        | some fraction =>
            cases hFraction
            apply hLone
            rw [hRead]
            cases negative <;> simp [Numeral.spell]
      have hLegible := Numeral.token_legible ⟨negative, whole, fraction, hDigits, hNonempty⟩
      rw [hRead, hDotted]
      cases fraction with
      | none => simpa [Numeral.token, Numeral.text] using hLegible
      | some fraction => simpa [Numeral.token, Numeral.text] using hLegible

end Mode

theorem forms_legible : Lexer.Forms Token.Legible Mode.Numeric where
  other token h := by
    cases token with
    | int | float => cases h
    | _ => trivial
  pause mode h := by
    cases mode with
    | number => cases h
    | _ => trivial
  name_first _ _ := trivial
  name_next _ _ := trivial
  name_close _ := trivial
  number_first start negative h := Mode.numeric_started h start negative
  number_digit hDigit h := Mode.numeric_digit hDigit h
  number_dot h := Mode.numeric_dot h
  number_close _ h := Mode.numberLexed_legible h

/-- The lexer writes every number token with the text of a numeral. -/
theorem lex_legible (source : String) : ∀ x ∈ lexemes (lex source), x.token.Legible :=
  forms_legible.lex source

end Progression
