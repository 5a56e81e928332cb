import Progression.Proofs.Numerals

/-! Number literals where a parser meets them. The sign of a literal is read by the lexer or, after a
token that can end an operand, by the parser, which then joins the minus sign and the number directly
after it. Either way the literal stands for the exact value of its text. Only a number that has a sign
from both cannot be read. -/

namespace Progression

namespace Numeral

/-- The integer that a number without a dot denotes. -/
def value (n : Numeral) : Int := if n.negative then -(n.significand : Int) else n.significand

theorem value_negate (n : Numeral) : n.negate.value = -n.value := by
  have hSame : n.negate.significand = n.significand := rfl
  unfold value
  rw [hSame]
  cases hSign : n.negative <;> simp [negate, hSign]

end Numeral

namespace Parser

/-- A parser that wants an operand meets the number `x`, directly or after a minus sign that is a token
of its own and ends where the number begins. -/
inductive Meets (goal : Goal) (stack : List Frame) (x : Lexeme) : Option Span → Parser → Prop where
  | plain : Meets goal stack x none (expression goal stack .operand)
  | signed {minus : Span} (hAdjacent : x.span.start = minus.stop) :
      Meets goal stack x (some minus) (expression goal stack (.literal minus))

variable {goal : Goal} {stack : List Frame} {n : Numeral} {place span : Span}

theorem takeNumber_whole (hWhole : n.fraction = none) :
    takeNumber goal stack false n.text span =
      match Integer.fit? n.value with
      | some w => .on (expression goal stack (.operator (.int ⟨span, none⟩ w)))
      | none => .last (.report ⟨.parse (.literalTooLarge n.text), span, none⟩) := by
  have hRead : (Decimal.integer? n.text.toList).bind Integer.fit? = Integer.fit? n.value := by
    rw [Numeral.integer?_text hWhole]
    rfl
  rw [takeNumber, number, if_neg Bool.false_ne_true, hRead]
  cases Integer.fit? n.value <;> rfl

theorem takeNumber_dotted {fraction : List Char} (hDot : n.fraction = some fraction) :
    takeNumber goal stack true n.text span =
      .on (expression goal stack (.operator (.float ⟨span, none⟩
        (Decimal.nearest n.negative n.significand (Nat.pow 10 fraction.length))))) := by
  rw [takeNumber, number, if_pos rfl, Numeral.float?_text hDot]

/-- A number met by the parser is taken with its sign, whether it can be read or not. -/
theorem Meets.step_eq {sign : Option Span} {parser : Parser}
    (h : Meets goal stack ⟨n.token, place⟩ sign parser) :
    parser.step ⟨n.token, place⟩ =
      (takeNumber goal stack n.fraction.isSome (if sign.isSome then "-" ++ n.text else n.text)
        (sign.elim place (·.cover place))).settle := by
  have hTake : parser.take ⟨n.token, place⟩ =
      takeNumber goal stack n.fraction.isSome (if sign.isSome then "-" ++ n.text else n.text)
        (sign.elim place (·.cover place)) := by
    cases h with
    | plain => exact Numeral.takeOperand_token goal stack place
    | signed hAdjacent => exact Numeral.takeLiteral_token goal stack hAdjacent
  rw [step, hTake, takeNumber]
  cases number _ _ _ <;> rfl

end Parser

/-- What a step makes of a literal with a given value: it is read as this value, or it is too large.
A literal with a dot is always read. -/
structure ReadExactly (goal : Goal) (stack : List Frame) (span : Span) (dotted : Bool) (value : Int)
    (result : List Event × Parser) : Prop where
  int : dotted = false → ∀ w : Int64,
    result = ([], .expression goal stack (.operator (.int ⟨span, none⟩ w))) ↔ w.toInt = value
  tooLarge : dotted = false →
    ((∃ d ∈ reports result.1, ∃ text, d.cause = .parse (.literalTooLarge text)) ↔
      value < Int64.minValue.toInt ∨ Int64.maxValue.toInt < value)
  float : dotted = true →
    ∃ v, result = ([], .expression goal stack (.operator (.float ⟨span, none⟩ v)))
  expected : ∀ d ∈ reports result.1, ∀ found, d.cause ≠ .parse (.expected .expression found)

namespace Parser

variable {goal : Goal} {stack : List Frame} {n : Numeral} {span : Span}

theorem readExactly_takeNumber (m : Numeral) (hDot : m.fraction.isSome = n.fraction.isSome) :
    ReadExactly goal stack span n.fraction.isSome m.value
      (takeNumber goal stack n.fraction.isSome m.text span).settle := by
  rw [← hDot]
  cases hFraction : m.fraction with
  | some fraction =>
      rw [Option.isSome_some, takeNumber_dotted hFraction]
      exact ⟨by simp, by simp, fun _ => ⟨_, rfl⟩, by simp [Reaction.settle, reports]⟩
  | none =>
      rw [Option.isSome_none, takeNumber_whole hFraction]
      cases hFit : Integer.fit? m.value with
      | some w =>
          have hValue := Integer.fit?_eq_some_iff.mp hFit
          have hInside : ¬(m.value < Int64.minValue.toInt ∨ Int64.maxValue.toInt < m.value) := by
            rw [← Integer.fit?_eq_none_iff, hFit]
            exact Option.some_ne_none w
          refine ⟨fun _ v => ?_, fun _ => ?_, by simp, by simp [Reaction.settle, reports]⟩
          · rw [← hValue, Int64.toInt_inj, eq_comm (a := v)]
            simp [Reaction.settle]
          · simpa [Reaction.settle, reports] using hInside
      | none =>
          refine ⟨fun _ v => ?_, fun _ => ?_, by simp, ?_⟩
          · rw [← Integer.fit?_eq_some_iff, hFit]
            simp [Reaction.settle]
          · rw [← Integer.fit?_eq_none_iff]
            exact ⟨fun _ => hFit, fun _ => ⟨_, List.mem_singleton_self _, _, rfl⟩⟩
          · simp [Reaction.settle, reports, Event.report?]

/-- A text that cannot be read as a number is reported, depending on whether it has a dot. -/
theorem number_eq_ok_or_error (dotted : Bool) (digits : String) (span : Span) :
    (∃ e, number dotted digits span = .ok e) ∨
      number dotted digits span = .error ⟨.parse (if dotted then .expected .expression digits
        else .literalTooLarge digits), span, none⟩ := by
  unfold number
  cases dotted with
  | true => cases Decimal.float? digits.toList <;> simp
  | false => cases (Decimal.integer? digits.toList).bind Integer.fit? <;> simp

/-- A number with a sign of its own cannot be read with a further one. -/
theorem takeNumber_minus (hSigned : n.negative = true) (dotted : Bool) :
    reports (takeNumber goal stack dotted ("-" ++ n.text) span).settle.1 =
      [⟨.parse (if dotted then .expected .expression ("-" ++ n.text)
        else .literalTooLarge ("-" ++ n.text)), span, none⟩] := by
  rcases number_eq_ok_or_error dotted ("-" ++ n.text) span with ⟨e, hOk⟩ | hError
  · exact absurd hOk (Numeral.number_minus_text hSigned)
  · rw [takeNumber, hError]
    rfl

end Parser

/-- Number literals are read exactly. Where an operand is wanted and a number of a text is met, with a
minus sign directly before it or not, the number is a numeral. Without a dot it is read as the integer
that is its exact value, sign included, if a word can hold it, and otherwise it is reported as too large;
with a dot it is always read as a float; and no number is reported where an expression was expected. All
of this holds unless the number has a sign of its own and a minus sign is joined to it as well: then it
is reported, whatever its value. -/
theorem number_literals_exact {source : String} {x : Lexeme} (hx : .lexeme x ∈ lex source)
    (hNumber : (∃ digits, x.token = .int digits) ∨ ∃ digits, x.token = .float digits)
    {goal : Goal} {stack : List Frame} {sign : Option Span} {parser : Parser}
    (hMeets : Parser.Meets goal stack x sign parser) :
    ∃ n : Numeral, n.token = x.token ∧
      (sign = none ∨ n.negative = false →
        ReadExactly goal stack (sign.elim x.span (·.cover x.span)) n.fraction.isSome
          (if sign.isSome then -n.value else n.value) (parser.step x)) ∧
      (sign ≠ none ∧ n.negative = true →
        reports (parser.step x).1 =
          [⟨.parse (if n.fraction.isSome then .expected .expression ("-" ++ n.text)
            else .literalTooLarge ("-" ++ n.text)), sign.elim x.span (·.cover x.span), none⟩]) := by
  have hLegible := lex_legible source x (List.mem_filterMap.mpr ⟨_, hx, rfl⟩)
  obtain ⟨token, place⟩ := x
  have hNumeral : ∃ n : Numeral, n.token = token := by
    rcases hNumber with ⟨digits, rfl⟩ | ⟨digits, rfl⟩
    · exact hLegible
    · exact hLegible
  obtain ⟨n, rfl⟩ := hNumeral
  refine ⟨n, rfl, fun hOne => ?_, fun hTwo => ?_⟩
  · rw [hMeets.step_eq]
    cases sign with
    | none => exact Parser.readExactly_takeNumber n rfl
    | some minus =>
        have hUnsigned : n.negative = false := by simpa using hOne
        simp only [Option.isSome_some, if_true]
        rw [Numeral.minus_text hUnsigned, ← Numeral.value_negate]
        exact Parser.readExactly_takeNumber n.negate rfl
  · rw [hMeets.step_eq]
    cases sign with
    | none => exact absurd rfl hTwo.1
    | some minus => exact Parser.takeNumber_minus hTwo.2 _

/-- The least integer, with a minus sign that the lexer left to the parser: the number after the sign
would not fit in a word by itself. -/
theorem number_literals_exact_least :
    ∃ (minus : Span) (x : Lexeme), .lexeme ⟨.operator .sub, minus⟩ ∈ lex "out -9223372036854775808" ∧
      .lexeme x ∈ lex "out -9223372036854775808" ∧ x.token = .int "9223372036854775808" ∧
      ∀ goal stack, Parser.Meets goal stack x (some minus)
          (.expression goal stack (.literal minus)) ∧
        (Parser.expression goal stack (.literal minus)).step x = ([], .expression goal stack
          (.operator (.int ⟨⟨⟨1, 5⟩, ⟨1, 25⟩⟩, none⟩ Int64.minValue))) := by
  have hx : .lexeme ⟨.int "9223372036854775808", ⟨⟨1, 6⟩, ⟨1, 25⟩⟩⟩ ∈
      lex "out -9223372036854775808" := by
    decide +kernel
  refine ⟨⟨⟨1, 5⟩, ⟨1, 6⟩⟩, _, by decide +kernel, hx, rfl, fun goal stack => ?_⟩
  have hMeets : Parser.Meets goal stack ⟨.int "9223372036854775808", ⟨⟨1, 6⟩, ⟨1, 25⟩⟩⟩
      (some ⟨⟨1, 5⟩, ⟨1, 6⟩⟩) (.expression goal stack (.literal ⟨⟨1, 5⟩, ⟨1, 6⟩⟩)) :=
    .signed rfl
  obtain ⟨n, hToken, hExact, -⟩ := number_literals_exact hx (.inl ⟨_, rfl⟩) hMeets
  have hText : n.fraction = none ∧ n.text = "9223372036854775808" := by
    cases hFraction : n.fraction <;> simp_all [Numeral.token]
  have hValue : n.value = 9223372036854775808 := by
    have hRead := Numeral.integer?_text hText.1
    rw [hText.2] at hRead
    exact Option.some.inj (hRead.symm.trans (by decide +kernel))
  have hUnsigned : n.negative = false := by
    rw [Bool.eq_false_iff]
    intro hSigned
    rw [Numeral.value, if_pos hSigned] at hValue
    omega
  refine ⟨hMeets, ((hExact (.inr hUnsigned)).int (by simp [hText]) Int64.minValue).mpr ?_⟩
  rw [Option.isSome_some, if_pos rfl, hValue]
  decide

/-- Where both the lexer and the parser read a sign, a literal of value five is called too large. -/
theorem two_signs_too_large :
    (lexemes (lex "out --5")).map Lexeme.token =
        [.identifier "out", .operator .sub, .int "-5", .finish] ∧
      reports (parse "out --5") = [⟨.parse (.literalTooLarge "--5"), ⟨⟨1, 5⟩, ⟨1, 8⟩⟩, none⟩] ∧
      Integer.fit? (- -5) = some 5 := by
  decide +kernel

end Progression
