import Mathlib.Data.List.Induction
import Mathlib.Data.List.TakeWhile
import Progression.Cursor
import Progression.Token.Lexer

/-! Cursors and the text that they have read. Whatever is asked of a cursor, it has read a first part of
its text, and its location is a function of that part alone: the line counts the line ends and the column
the characters after the last of them. -/

namespace Progression

/-- How many line feeds of a text do not stand directly after a carriage return. -/
def loneFeeds (cs : List Char) : Nat :=
  (List.range cs.length).countP fun i =>
    cs[i]? = some '\n' && (i = 0 || cs[i - 1]? ≠ some '\r')

/-- How many characters stand after the last carriage return or line feed of a text. -/
def lastLine (cs : List Char) : Nat := (cs.reverse.takeWhile fun c => !Lexer.endsLine c).length

/-- The location that a text leads to. -/
def Location.past (cs : List Char) : Location :=
  ⟨1 + cs.count '\r' + loneFeeds cs, 1 + lastLine cs⟩

theorem loneFeeds_concat (cs : List Char) (c : Char) :
    loneFeeds (cs ++ [c]) =
      loneFeeds cs + if c = '\n' ∧ cs.getLast? ≠ some '\r' then 1 else 0 := by
  have hEarlier : (List.range cs.length).countP (fun i =>
      (cs ++ [c])[i]? = some '\n' && (i = 0 || (cs ++ [c])[i - 1]? ≠ some '\r')) = loneFeeds cs := by
    refine List.countP_congr fun i hMem => ?_
    have hi := List.mem_range.mp hMem
    rw [List.getElem?_append_left hi,
      List.getElem?_append_left (Nat.lt_of_le_of_lt (Nat.sub_le i 1) hi)]
  have hLast : cs.length = 0 ∨ (cs ++ [c])[cs.length - 1]? ≠ some '\r' ↔ cs.getLast? ≠ some '\r' := by
    rcases cs.eq_nil_or_concat with rfl | ⟨before, last, rfl⟩
    · simp
    · simp
  rw [loneFeeds, List.length_append, List.length_singleton, List.range_succ, List.countP_append,
    hEarlier]
  congr 1
  rw [List.countP_singleton]
  simp [← hLast]

theorem lastLine_concat (cs : List Char) (c : Char) :
    lastLine (cs ++ [c]) = if Lexer.endsLine c then 0 else lastLine cs + 1 := by
  rw [lastLine, List.reverse_concat, List.takeWhile_cons]
  cases Lexer.endsLine c <;> rfl

/-- Right after a carriage return a new line begins. -/
theorem lastLine_eq_zero {cs : List Char} (h : cs.getLast? = some '\r') : lastLine cs = 0 := by
  obtain ⟨before, rfl⟩ := List.getLast?_eq_some_iff.mp h
  exact lastLine_concat before '\r'

namespace Place

theorem advance_past (cs : List Char) (c : Char) :
    (⟨.past cs, cs.getLast? = some '\r'⟩ : Place).advance c =
      ⟨.past (cs ++ [c]), (cs ++ [c]).getLast? = some '\r'⟩ := by
  unfold advance Location.past
  rw [loneFeeds_concat, lastLine_concat, List.count_append, List.getLast?_concat]
  by_cases hFeed : c = '\n'
  · subst hFeed
    by_cases hReturn : cs.getLast? = some '\r'
    · simp [hReturn, lastLine_eq_zero hReturn, Lexer.endsLine]
    · simp [hReturn, Lexer.endsLine]
      omega
  · by_cases hReturn : c = '\r'
    · subst hReturn
      simp [Lexer.endsLine]
      omega
    · simp [hFeed, hReturn, Lexer.endsLine]
      omega

/-- The place after a text. Whether its last character was a carriage return is remembered, since a line
feed would then move nothing. -/
theorem first_after (cs : List Char) :
    Place.first.after cs = ⟨.past cs, cs.getLast? = some '\r'⟩ := by
  induction cs using List.reverseRecOn with
  | nil => rfl
  | append_singleton cs c ih => rw [after_append, ih, after_cons, after_nil, advance_past]

end Place

/-- Neither counter is greater than the number of characters by more than one. -/
theorem Location.past_le (cs : List Char) :
    (past cs).line ≤ cs.length + 1 ∧ (past cs).column ≤ cs.length + 1 := by
  induction cs using List.reverseRecOn with
  | nil => decide
  | append_singleton cs c ih =>
      have hReturns : (cs ++ [c]).count '\r' = cs.count '\r' + if c = '\r' then 1 else 0 := by
        simp [List.count_singleton]
      have hLine : (if c = '\r' then 1 else 0) +
          (if c = '\n' ∧ cs.getLast? ≠ some '\r' then 1 else 0) ≤ 1 := by
        by_cases hReturn : c = '\r'
        · simp [hReturn]
        · rw [if_neg hReturn]
          split <;> omega
      have hColumn : lastLine (cs ++ [c]) ≤ lastLine cs + 1 := by
        rw [lastLine_concat]
        split <;> omega
      simp only [past, List.length_append, List.length_singleton] at ih ⊢
      rw [hReturns, loneFeeds_concat]
      omega

/-- Something that is asked of a cursor. -/
inductive Call where
  | peek
  | next
  | nextIf (p : Char → Bool)
  | skipWhile (p : Char → Bool)

namespace Call

/-- What the cursor answers, and the cursor afterwards. A call that fails leaves it as it is. -/
def answer (cursor : Cursor) : Call → Option Char × Cursor
  | peek => (cursor.peek?, cursor)
  | next => (cursor.next?.map Prod.fst, (cursor.next?.map Prod.snd).getD cursor)
  | nextIf p => ((cursor.nextIf? p).map Prod.fst, ((cursor.nextIf? p).map Prod.snd).getD cursor)
  | skipWhile p => (none, cursor.skipWhile p)

/-- What a call should read of the text that is left, and what should be answered. -/
inductive Reads : Call → List Char → List Char → Option Char → Prop where
  | peek (left : List Char) : Reads .peek left [] left.head?
  | next (c : Char) (rest : List Char) : Reads .next (c :: rest) [c] (some c)
  | finish : Reads .next [] [] none
  | passed {p : Char → Bool} {c : Char} (h : p c = true) (rest : List Char) :
      Reads (.nextIf p) (c :: rest) [c] (some c)
  | refused {p : Char → Bool} {left : List Char} (h : ∀ c ∈ left.head?, p c = false) :
      Reads (.nextIf p) left [] none
  | skipped {p : Char → Bool} {taken rest : List Char} (hTaken : ∀ c ∈ taken, p c = true)
      (hRest : ∀ c ∈ rest.head?, p c = false) : Reads (.skipWhile p) (taken ++ rest) taken none

end Call

namespace Cursor

/-- The cursor in front of `rest` of a text whose first part is `read`. -/
def past (read rest : List Char) : Cursor := ⟨Place.first.after read, rest⟩

/-- The cursor after some calls. -/
def after (cursor : Cursor) (calls : List Call) : Cursor :=
  calls.foldl (fun cursor call => (call.answer cursor).2) cursor

theorem answer_reads (call : Call) (read left : List Char) :
    ∃ taken rest, left = taken ++ rest ∧ call.Reads left taken (call.answer (past read left)).1 ∧
      (call.answer (past read left)).2 = past (read ++ taken) rest := by
  cases call with
  | peek => exact ⟨[], left, rfl, .peek left, by simp [Call.answer]⟩
  | next =>
      cases left with
      | nil => exact ⟨[], [], rfl, .finish, by simp [Call.answer, next?, past]⟩
      | cons c rest => exact ⟨[c], rest, rfl, .next c rest, by simp [Call.answer, next?, past]⟩
  | nextIf p =>
      cases left with
      | nil => exact ⟨[], [], rfl, .refused (by simp), by simp [Call.answer, nextIf?, past]⟩
      | cons c rest =>
          cases hc : p c with
          | true =>
              refine ⟨[c], rest, rfl, ?_, by simp [Call.answer, nextIf?, past, hc]⟩
              simpa [Call.answer, nextIf?, past, hc] using Call.Reads.passed hc rest
          | false =>
              refine ⟨[], c :: rest, rfl, ?_, by simp [Call.answer, nextIf?, past, hc]⟩
              simpa [Call.answer, nextIf?, past, hc] using Call.Reads.refused (by simpa using hc)
  | skipWhile p =>
      refine ⟨left.takeWhile p, left.dropWhile p, List.takeWhile_append_dropWhile.symm, ?_, ?_⟩
      · have hRest : ∀ c ∈ (left.dropWhile p).head?, p c = false := by
          intro c hMem
          have hStop := List.head?_dropWhile_not p left
          rw [Option.mem_def.mp hMem] at hStop
          exact hStop
        have hTaken : ∀ c ∈ left.takeWhile p, p c = true := fun c hMem => List.mem_takeWhile_imp hMem
        have hReads := Call.Reads.skipped hTaken hRest
        rwa [List.takeWhile_append_dropWhile] at hReads
      · simp [Call.answer, skipWhile, past]

theorem exists_after (read left : List Char) (calls : List Call) :
    ∃ taken rest, left = taken ++ rest ∧ (past read left).after calls = past (read ++ taken) rest := by
  induction calls generalizing read left with
  | nil => exact ⟨[], left, rfl, by simp [after]⟩
  | cons call calls ih =>
      obtain ⟨taken, rest, rfl, -, hNext⟩ := answer_reads call read left
      obtain ⟨more, final, rfl, hFinal⟩ := ih (read ++ taken) rest
      refine ⟨taken ++ more, final, by simp, ?_⟩
      rw [after, List.foldl_cons, hNext]
      simpa [after] using hFinal

theorem location_past (read rest : List Char) : (past read rest).location = .past read := by
  rw [past, location, Place.first_after]

end Cursor

/-- A location is a function of the text read. After any calls, a cursor has read a first part of its
text, and its location counts the line ends of that part and the characters after the last of them. Any
further call reads what it should and answers what it should; one that reads nothing leaves the cursor
as it is. If the text has fewer characters than a counter of 32 bits can count from one, then neither
counter ever overflows, wherever in the text it stands. -/
theorem locations_count_text (source : String) (hSize : source.length < UInt32.size - 1)
    (calls : List Call) :
    ∃ cursor read, (Cursor.ofText source).after calls = cursor ∧
      source.toList = read ++ cursor.rest ∧
      cursor.location =
        ⟨1 + read.count '\r' + loneFeeds read, 1 + lastLine read⟩ ∧
      (∀ call : Call, ∃ taken, call.Reads cursor.rest taken (call.answer cursor).1 ∧
        cursor.rest = taken ++ (call.answer cursor).2.rest ∧
        (call.answer cursor).2.location = .past (read ++ taken) ∧
        (taken = [] → (call.answer cursor).2 = cursor)) ∧
      ∀ part, part <+: source.toList →
        (Place.first.after part).location.line < UInt32.size ∧
          (Place.first.after part).location.column < UInt32.size := by
  obtain ⟨read, rest, hSource, hCursor⟩ := Cursor.exists_after [] source.toList calls
  rw [List.nil_append] at hCursor
  refine ⟨_, read, hCursor, hSource, Cursor.location_past read rest, fun call => ?_, ?_⟩
  · obtain ⟨taken, left, rfl, hReads, hNext⟩ := Cursor.answer_reads call read rest
    refine ⟨taken, hReads, by rw [hNext]; rfl, by rw [hNext, Cursor.location_past], ?_⟩
    rintro rfl
    rw [hNext, List.append_nil]
    rfl
  · intro part hPart
    have hLength := hPart.length_le
    have hCount := Location.past_le part
    rw [String.length_toList] at hLength
    simp only [Place.first_after]
    omega

/-- Line ends of all three kinds, and a call that fails. -/
theorem locations_count_text_mixed :
    ∃ calls : List Call, calls = [.skipWhile (· ≠ 'b'), .nextIf (· = 'x'), .next, .next, .peek, .next] ∧
      "a\r\nb\n\rc".length < UInt32.size - 1 ∧
      ((Cursor.ofText "a\r\nb\n\rc").after calls).location = ⟨4, 1⟩ ∧
      ∃ read, "a\r\nb\n\rc".toList = read ++ ['c'] ∧
        (⟨4, 1⟩ : Location) = ⟨1 + read.count '\r' + loneFeeds read, 1 + lastLine read⟩ := by
  have hSize : "a\r\nb\n\rc".length < UInt32.size - 1 := by decide
  refine ⟨_, rfl, hSize, by decide, ?_⟩
  obtain ⟨cursor, read, hCursor, hRead, hLocation, -⟩ := locations_count_text "a\r\nb\n\rc" hSize
    [.skipWhile (· ≠ 'b'), .nextIf (· = 'x'), .next, .next, .peek, .next]
  subst hCursor
  exact ⟨read, hRead, hLocation⟩

end Progression
