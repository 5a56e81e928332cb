import Progression.Decimal.Digits
import Progression.Diagnostic
import Progression.Text.Blank
import Progression.Text.Search
import Progression.Token.Lexer

/-! Expectations that are written into a program. A comment can announce a report, and a line can
name a pattern that the output has to show. Verification compares a run with both. -/

namespace Progression

/-- A report that a program announces: where it begins, and its wording. -/
structure Expectation where
  location : Location
  message : String
deriving DecidableEq

namespace Expectation

/-- Expectations are ordered by location, then by wording. -/
def precedes (a b : Expectation) : Bool :=
  decide (a.location < b.location) || (a.location = b.location && decide (a.message < b.message))

/-- The greatest line or column that an announcement can name. -/
def greatest : Nat := UInt32.size - 1

/-- A line or column, unless it is out of range. -/
def coordinate? (i : Int) : Option Nat := if 0 ≤ i ∧ i ≤ greatest then some i.toNat else none

/-- The digits in front of a text as a number, and what follows them. -/
def leadingNumber? (cs : List Char) : Option (Nat × List Char) :=
  (Decimal.natural? (cs.takeWhile Char.isDigit)).map fun n => (n, cs.dropWhile Char.isDigit)

/-- The line offset in front of a text, and what follows it. Without a sign there is none, which
counts as zero; with a sign there has to be a number. -/
def offset? (cs : List Char) : Option (Int × List Char) :=
  match cs with
  | '+' :: rest => (leadingNumber? rest).map fun (n, rest) => ((n : Int), rest)
  | '-' :: rest => (leadingNumber? rest).map fun (n, rest) => (-(n : Int), rest)
  | _ => some (0, cs)

/-- The text without a colon in front. -/
def dropColon : List Char → List Char
  | ':' :: rest => rest
  | cs => cs

/-- The announcement in a text that follows a number sign, for a comment on the given line: the
word, possibly a line offset and a colon, a column, a colon and the wording. -/
def directive? (line : Nat) (text : List Char) : Option Expectation := do
  let rest ← Text.rest? "expectedError@".toList (Text.trimLeft text)
  let (offset, rest) ← offset? rest
  let (column, rest) ← leadingNumber? (dropColon rest)
  let rest ← Text.rest? [':'] rest
  let message := Text.trim rest
  if message.isEmpty then none
  else
    let line ← coordinate? (line + offset)
    let column ← coordinate? column
    some ⟨⟨line, column⟩, String.ofList message⟩

/-- The announcement in a comment: the first that follows one of its number signs. -/
def ofComment? (line : Nat) : List Char → Option Expectation
  | [] => none
  | c :: cs =>
      if c = '#' then (directive? line cs).or (ofComment? line cs) else ofComment? line cs

/-- The announcement in a lexeme, if it is a comment that holds one. -/
def ofLexeme? (x : Lexeme) : Option Expectation :=
  match x.token with
  | .comment content => ofComment? x.span.start.line content.toList
  | _ => none

/-- Whether a diagnostic is the announced one. Where it ends does not matter. -/
def isMetBy (expectation : Expectation) (d : Diagnostic) : Bool :=
  expectation.location = d.span.start && expectation.message = d.message

/-- Adds an expectation to an ascending list without repetitions. -/
def insert (expectation : Expectation) : List Expectation → List Expectation
  | [] => [expectation]
  | other :: rest =>
      if expectation.precedes other then expectation :: other :: rest
      else if expectation = other then other :: rest
      else other :: insert expectation rest

/-- Every expectation stands before all that come after it, so none is repeated. -/
def Ascending (expected : List Expectation) : Prop := expected.Pairwise fun a b => a.precedes b

theorem precedes_iff {a b : Expectation} :
    a.precedes b ↔ a.location < b.location ∨ a.location = b.location ∧ a.message < b.message := by
  simp [precedes]

theorem precedes_trans {a b c : Expectation} (hab : a.precedes b) (hbc : b.precedes c) :
    a.precedes c := by
  rw [precedes_iff] at *
  rcases hab with hab | ⟨hab, hMessages⟩
  · rcases hbc with hbc | ⟨hbc, -⟩
    · rw [Location.lt_iff] at *
      omega
    · exact .inl (hbc ▸ hab)
  · rw [hab]
    exact hbc.imp_right fun hbc => ⟨hbc.1, String.lt_trans hMessages hbc.2⟩

/-- Of two different expectations one stands before the other. -/
theorem precedes_of_not {a b : Expectation} (h : ¬a.precedes b) (hNe : a ≠ b) : b.precedes a := by
  obtain ⟨⟨line, column⟩, message⟩ := a
  obtain ⟨⟨otherLine, otherColumn⟩, other⟩ := b
  simp only [precedes_iff, Location.lt_iff, Location.mk.injEq, not_or, not_and, String.not_lt,
    ne_eq, mk.injEq] at h hNe ⊢
  by_cases hSame : line = otherLine ∧ column = otherColumn
  · obtain ⟨rfl, rfl⟩ := hSame
    have hLess : other < message := by
      rw [← String.not_le]
      exact fun hLe => hNe ⟨rfl, rfl⟩ (String.le_antisymm hLe (h.2 ⟨rfl, rfl⟩))
    exact .inr ⟨⟨rfl, rfl⟩, hLess⟩
  · omega

theorem mem_insert {expectation other : Expectation} {expected : List Expectation} :
    other ∈ insert expectation expected ↔ other = expectation ∨ other ∈ expected := by
  induction expected with
  | nil => simp [insert]
  | cons first rest ih =>
      rw [insert]
      split
      · exact List.mem_cons
      split
      · next hSame => simp [hSame]
      · rw [List.mem_cons, ih, List.mem_cons, or_left_comm]

theorem Ascending.insert {expected : List Expectation} (h : Ascending expected)
    (expectation : Expectation) : Ascending (expectation.insert expected) := by
  induction expected with
  | nil => exact List.pairwise_singleton _ _
  | cons first rest ih =>
      obtain ⟨hFirst, hRest⟩ := List.pairwise_cons.mp h
      rw [Expectation.insert]
      split
      · next hBefore =>
          refine List.pairwise_cons.mpr ⟨fun other hOther => ?_, h⟩
          rcases List.mem_cons.mp hOther with rfl | hLater
          · exact hBefore
          · exact precedes_trans hBefore (hFirst other hLater)
      split
      · exact h
      · next hAfter hNe =>
          refine List.pairwise_cons.mpr ⟨fun other hOther => ?_, ih hRest⟩
          rcases mem_insert.mp hOther with rfl | hLater
          · exact precedes_of_not hAfter hNe
          · exact hFirst other hLater

/-- The expectations of a list in ascending order, each of them once. -/
def sorted (announced : List Expectation) : List Expectation :=
  announced.foldl (fun expected expectation => expectation.insert expected) []

theorem ascending_sorted (announced : List Expectation) : Ascending (sorted announced) := by
  have hFold (expected : List Expectation) (h : Ascending expected) :
      Ascending (announced.foldl (fun expected expectation => expectation.insert expected)
        expected) := by
    induction announced generalizing expected with
    | nil => exact h
    | cons expectation announced ih => exact ih _ (h.insert expectation)
  exact hFold [] .nil

end Expectation

/-- What a program expects of its run: announced reports in ascending order, and patterns in the
order in which they are written. -/
structure Verifier where
  expected : List Expectation
  patterns : List String
  ascending : Expectation.Ascending expected
deriving DecidableEq

/-- A difference between what a program expects and what a run gave. -/
inductive Mismatch where
  | patternNotFound (pattern : String)
  | unexpectedError (location : Location) (message : String)
  | missingError (location : Location) (message : String)
deriving DecidableEq

/-- How the difference is worded. -/
def Mismatch.message : Mismatch → String
  | patternNotFound pattern => "Pattern not found: " ++ pattern
  | unexpectedError location message =>
      "Unexpected error seen: " ++ location.text ++ ": " ++ message
  | missingError location message =>
      "Expected error not seen: " ++ location.text ++ ": " ++ message

namespace Verifier

/-- The pattern that a line names. -/
def pattern? (line : List Char) : Option String :=
  (Text.afterFirst? "CHECK:".toList line).map fun rest => String.ofList (Text.trim rest)

/-- The expectations written into a program. -/
def ofText (source : String) : Verifier where
  expected := Expectation.sorted
    ((lex source).filterMap fun item => item.lexeme?.bind Expectation.ofLexeme?)
  patterns := (Text.lines source).filterMap pattern?
  ascending := Expectation.ascending_sorted _

/-- The patterns that are left after a line of output, which can show only the first of them. -/
def takeLine (patterns : List String) (line : List Char) : List String :=
  match patterns with
  | [] => []
  | pattern :: rest => if Text.occurs pattern.toList line then rest else pattern :: rest

/-- An announced report, and whether it has been seen. -/
structure Entry where
  expectation : Expectation
  seen : Bool

/-- Marks all announcements of a diagnostic as seen, and tells whether there are any. -/
def mark (d : Diagnostic) : List Entry → List Entry × Bool
  | [] => ([], false)
  | entry :: rest =>
      let (rest, announced) := mark d rest
      if entry.expectation.isMetBy d then ({ entry with seen := true } :: rest, true)
      else (entry :: rest, announced)

/-- Takes one diagnostic of a run, which is a difference unless it was announced. -/
def compare (entries : List Entry) (d : Diagnostic) : List Mismatch × List Entry :=
  let (entries, announced) := mark d entries
  (if announced then [] else [.unexpectedError d.span.start d.message], entries)

/-- All differences between the expectations and a run: the first pattern that was not found, then
the reports that were not announced, then the announcements that were not met. -/
def verify (verifier : Verifier) (output : String) (log : Log) : List Mismatch :=
  let left := (Text.lines output).foldl takeLine verifier.patterns
  let (unexpected, entries) := transduce compare (verifier.expected.map fun e => ⟨e, false⟩) log
  let missing := entries.filter fun entry => !entry.seen
  (left.head?.map .patternNotFound).toList ++ unexpected ++ missing.map fun entry =>
    .missingError entry.expectation.location entry.expectation.message

end Verifier

end Progression
