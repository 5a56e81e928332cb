import Progression.Proofs.Locations
import Progression.Proofs.Pipeline
import Progression.Token.Stream

/-! How lexemes cover a text. Every character belongs to exactly one lexeme or to a run of blanks
between two of them, also where the text is malformed; the spans of lexemes are the places of their
characters, so they follow each other in the text. -/

namespace Progression

/-- The lexemes of a lexed text, without the reports. -/
def lexemes (items : List Lexed) : List Lexeme := items.filterMap Lexed.lexeme?

/-- The reports about a lexed text, without the lexemes. -/
def lexReports (items : List Lexed) : Log := items.filterMap Lexed.report?

@[simp] theorem lexemes_append (first second : List Lexed) :
    lexemes (first ++ second) = lexemes first ++ lexemes second := List.filterMap_append

@[simp] theorem lexReports_append (first second : List Lexed) :
    lexReports (first ++ second) = lexReports first ++ lexReports second := List.filterMap_append

/-- The text begins with a character that is not blank. -/
def Opens (text : List Char) : Prop := ∃ c rest, text = c :: rest ∧ Text.isBlank c = false

/-- The characters that a token can be made of. A text literal begins with a quote, and of what forms
no token nothing is said; every other token is written as it is spelled. The end of the text is
made of no characters. -/
def Token.Writes (token : Token) (text : List Char) : Prop :=
  match token with
  | .text _ => ∃ rest, text = '"' :: rest
  | .invalid => True
  | .finish => False
  | _ => token.spelling.toList = text

/-- The lexemes cover a text that begins at a place, in order, apart from blanks in front of each of
them. Every lexeme begins with a character that is not blank, and its span is the place of its
characters. -/
inductive Tiled (place : Place) : List Char → List Lexeme → Prop where
  | nil : Tiled place [] []
  | snoc {covered gap text : List Char} {xs : List Lexeme} {x : Lexeme}
      (h : Tiled place covered xs) (hGap : ∀ c ∈ gap, Text.isBlank c = true) (hText : Opens text)
      (hToken : x.token.Writes text)
      (hStart : x.span.start = (place.after (covered ++ gap)).location)
      (hStop : x.span.stop = (place.after (covered ++ gap ++ text)).location) :
      Tiled place (covered ++ gap ++ text) (xs ++ [x])

/-- The characters read of the lexeme at hand, which begins at `start`. -/
def Mode.Holds (mode : Mode) (start : Location) (read : List Char) : Prop :=
  match mode with
  | between => read = []
  | minus s => s = start ∧ read = ['-']
  | name s cs | number s cs _ | comment s cs => s = start ∧ read = cs.reverse ∧ Opens read
  | dots s => s = start ∧ Opens read
  | text s _ | escape s _ _ => s = start ∧ ∃ rest, read = '"' :: rest

namespace Opens

theorem append {text : List Char} (h : Opens text) (more : List Char) : Opens (text ++ more) := by
  obtain ⟨c, rest, rfl, hBlank⟩ := h
  exact ⟨c, rest ++ more, rfl, hBlank⟩

theorem quote (rest : List Char) : Opens ('"' :: rest) := ⟨_, _, rfl, by decide⟩

theorem minus (rest : List Char) : Opens ('-' :: rest) := ⟨_, _, rfl, by decide⟩

end Opens

/-- What becomes of the characters of a lexeme when the last of them has been read: the lexeme goes
on, or it is complete and ends there. -/
inductive Mode.Grows (start stop : Location) (read : List Char) : List Lexed → Mode → Prop where
  | on {written : List Lexed} {mode : Mode} (hNone : lexemes written = [])
      (h : mode.Holds start read) : Grows start stop read written mode
  | done {written : List Lexed} {token : Token}
      (hOne : lexemes written = [⟨token, ⟨start, stop⟩⟩]) (hOpens : Opens read)
      (h : token.Writes read) : Grows start stop read written .between

namespace Lexer

/-- The characters that are a token by themselves. -/
def singles : List (Char × Token) :=
  [('(', .leftParen), (')', .rightParen), ('{', .leftBrace), ('}', .rightBrace),
    ('+', .operator .add), ('*', .operator .mul), ('/', .operator .div), ('^', .operator .pow),
    (',', .comma), ('=', .assign)]

theorem single?_eq_lookup (c : Char) : single? c = singles.lookup c := by
  have hCons (k : Char) (token : Token) (rest : List (Char × Token)) :
      ((k, token) :: rest).lookup c = if c = k then some token else rest.lookup c := by
    by_cases h : c = k
    · simp [h]
    · simp [List.lookup_cons, h, beq_false_of_ne h]
  simp only [single?, singles, hCons, List.lookup_nil]

theorem mem_singles {c : Char} {token : Token} (h : single? c = some token) :
    (c, token) ∈ singles := by
  rw [single?_eq_lookup, List.lookup_eq_some_iff] at h
  obtain ⟨before, after, hSingles, -⟩ := h
  simp [hSingles]

theorem isBlank_of_endsLine {c : Char} (h : endsLine c = true) : Text.isBlank c = true := by
  rcases (by simpa [endsLine] using h : c = '\n' ∨ c = '\r') with rfl | rfl
  · decide
  · decide

end Lexer

namespace Mode

variable {mode : Mode} {start : Location} {read : List Char}

theorem extend?_grows {flag : Bool} {here next : Location} {c : Char} {written : List Lexed}
    {after : Mode} (h : mode.Holds start read)
    (hExtend : mode.extend? flag here next c = some (written, after)) :
    Grows start next (read ++ [c]) written after := by
  cases mode with
  | between => cases hExtend
  | minus s =>
      obtain ⟨rfl, rfl⟩ := h
      simp only [extend?] at hExtend
      split at hExtend
      · next hArrow =>
          cases hExtend
          subst hArrow
          exact .done rfl (.minus _) rfl
      · split at hExtend
        · cases hExtend
          exact .on rfl ⟨rfl, rfl, .minus _⟩
        · cases hExtend
  | name s cs =>
      obtain ⟨rfl, rfl, hOpens⟩ := h
      simp only [extend?] at hExtend
      split at hExtend
      · cases hExtend
        exact .on rfl ⟨rfl, by simp, hOpens.append _⟩
      · cases hExtend
  | number s cs dotted =>
      obtain ⟨rfl, rfl, hOpens⟩ := h
      simp only [extend?] at hExtend
      split at hExtend
      · cases hExtend
        exact .on rfl ⟨rfl, by simp, hOpens.append _⟩
      · split at hExtend
        · split at hExtend
          · cases hExtend
            exact .on rfl ⟨rfl, hOpens.append _⟩
          · cases hExtend
            exact .on rfl ⟨rfl, by simp, hOpens.append _⟩
        · cases hExtend
  | dots s =>
      obtain ⟨rfl, hOpens⟩ := h
      simp only [extend?] at hExtend
      split at hExtend
      · cases hExtend
        exact .on rfl ⟨rfl, hOpens.append _⟩
      · cases hExtend
  | text s cs =>
      obtain ⟨rfl, rest, rfl⟩ := h
      simp only [extend?] at hExtend
      split at hExtend
      · cases hExtend
        exact .done rfl (.quote _) ⟨_, rfl⟩
      · split at hExtend
        · cases hExtend
          exact .done rfl (.quote _) ⟨_, rfl⟩
        · split at hExtend
          · cases hExtend
            exact .on rfl ⟨rfl, _, rfl⟩
          · cases hExtend
            exact .on rfl ⟨rfl, _, rfl⟩
  | escape s cs backslash =>
      obtain ⟨rfl, rest, rfl⟩ := h
      simp only [extend?] at hExtend
      split at hExtend
      · cases hExtend
        exact .on rfl ⟨rfl, _, rfl⟩
      · cases hExtend
        exact .on rfl ⟨rfl, _, rfl⟩
  | comment s cs =>
      obtain ⟨rfl, rfl, hOpens⟩ := h
      simp only [extend?] at hExtend
      split at hExtend
      · cases hExtend
      · cases hExtend
        exact .on rfl ⟨rfl, by simp, hOpens.append _⟩

/-- What the end of a lexeme writes. -/
theorem close_eq (h : mode.Holds start read) (stop : Location) :
    read = [] ∧ lexemes (mode.close stop) = [] ∨
      Opens read ∧ ∃ token, lexemes (mode.close stop) = [⟨token, ⟨start, stop⟩⟩] ∧
        token.Writes read := by
  cases mode with
  | between => exact .inl ⟨h, rfl⟩
  | minus s =>
      obtain ⟨rfl, rfl⟩ := h
      exact .inr ⟨.minus _, _, rfl, rfl⟩
  | name s cs | comment s cs =>
      obtain ⟨rfl, rfl, hOpens⟩ := h
      exact .inr ⟨hOpens, _, rfl, String.toList_ofList⟩
  | number s cs dotted =>
      obtain ⟨rfl, rfl, hOpens⟩ := h
      refine .inr ⟨hOpens, ?_⟩
      simp only [close, numberLexed]
      split
      · exact ⟨_, rfl, trivial⟩
      · split
        · exact ⟨_, rfl, String.toList_ofList⟩
        · exact ⟨_, rfl, String.toList_ofList⟩
  | dots s =>
      obtain ⟨rfl, hOpens⟩ := h
      exact .inr ⟨hOpens, _, rfl, trivial⟩
  | text s cs | escape s cs backslash =>
      obtain ⟨rfl, rest, rfl⟩ := h
      exact .inr ⟨.quote _, _, rfl, _, rfl⟩

theorem single?_writes {c : Char} {token : Token} (h : Lexer.single? c = some token) :
    token.Writes [c] := by
  have hAll : ∀ entry ∈ Lexer.singles, entry.2.Writes [entry.1] := by
    simp [Lexer.singles, Token.Writes, Token.spelling, Operator.symbol]
  exact hAll _ (Lexer.mem_singles h)

/-- A character that is not blank begins a lexeme where none is being read. -/
theorem begin_grows {here next : Location} {c : Char} (h : Text.isBlank c = false) :
    Grows here next [c] (begin here next c).1 (begin here next c).2 := by
  have hOpens : Opens [c] := ⟨c, [], rfl, h⟩
  rw [begin, if_neg (by simp [h])]
  split
  · exact .on rfl ⟨rfl, rfl, hOpens⟩
  · split
    · exact .on rfl ⟨rfl, rfl, hOpens⟩
    · split
      · next hQuote => exact .on rfl ⟨rfl, [], by rw [hQuote]⟩
      · split
        · exact .on rfl ⟨rfl, rfl, hOpens⟩
        · split
          · next hMinus => exact .on rfl ⟨rfl, by rw [hMinus]⟩
          · split
            · next token hSingle => exact .done rfl hOpens (single?_writes hSingle)
            · exact .done rfl hOpens trivial

end Mode

namespace Tiled

variable {place : Place} {covered : List Char} {xs : List Lexeme}

theorem token_ne_finish (h : Tiled place covered xs) : ∀ x ∈ xs, x.token ≠ .finish := by
  induction h with
  | nil => simp
  | snoc h hGap hText hToken hStart hStop ih =>
      refine List.forall_mem_append.mpr ⟨ih, List.forall_mem_singleton.mpr ?_⟩
      intro hFinish
      rw [hFinish] at hToken
      exact hToken

theorem start_lt_stop (h : Tiled place covered xs) : ∀ x ∈ xs, x.span.start < x.span.stop := by
  induction h with
  | nil => simp
  | @snoc covered gap text xs x h hGap hText hToken hStart hStop ih =>
      refine List.forall_mem_append.mpr ⟨ih, List.forall_mem_singleton.mpr ?_⟩
      obtain ⟨c, rest, rfl, hBlank⟩ := hText
      rw [hStart, hStop, Place.after_append _ (covered ++ gap)]
      exact Place.location_lt_after _ hBlank rest

/-- No lexeme reaches beyond the covered text. -/
theorem stop_le (h : Tiled place covered xs) :
    ∀ x ∈ xs, x.span.stop ≤ (place.after covered).location := by
  induction h with
  | nil => simp
  | @snoc covered gap text xs x h hGap hText hToken hStart hStop ih =>
      refine List.forall_mem_append.mpr ⟨?_, List.forall_mem_singleton.mpr (le_of_eq hStop)⟩
      intro y hMem
      rw [List.append_assoc, Place.after_append]
      exact (ih y hMem).trans (Place.location_le_after _ _)

/-- No lexeme starts before the text. -/
theorem le_start (h : Tiled place covered xs) : ∀ x ∈ xs, place.location ≤ x.span.start := by
  induction h with
  | nil => simp
  | snoc h hGap hText hToken hStart hStop ih =>
      refine List.forall_mem_append.mpr ⟨ih, List.forall_mem_singleton.mpr ?_⟩
      rw [hStart]
      exact Place.location_le_after _ _

/-- Of any two lexemes the second begins where the first ends or later. -/
theorem pairwise (h : Tiled place covered xs) :
    xs.Pairwise fun x y => x.span.stop ≤ y.span.start := by
  induction h with
  | nil => exact .nil
  | @snoc covered gap text xs x h hGap hText hToken hStart hStop ih =>
      rw [List.pairwise_append]
      refine ⟨ih, List.pairwise_singleton _ _, ?_⟩
      intro y hMem z hLast
      rw [List.mem_singleton.mp hLast, hStart, Place.after_append]
      exact (h.stop_le y hMem).trans (Place.location_le_after _ _)

/-- The lexemes and whatever stands after the covered text follow each other. -/
theorem ordered (h : Tiled place covered xs) {last : Lexeme}
    (hLast : (place.after covered).location ≤ last.span.start) :
    (xs ++ [last]).Pairwise fun x y =>
      x.span.stop ≤ y.span.start ∧ x.span.start < y.span.start := by
  rw [List.pairwise_append]
  refine ⟨?_, List.pairwise_singleton _ _, ?_⟩
  · apply h.pairwise.imp_of_mem
    intro x y hMem _ hLe
    exact ⟨hLe, (h.start_lt_stop x hMem).trans_le hLe⟩
  · intro x hMem y hSingle
    have hLe := (h.stop_le x hMem).trans hLast
    rw [List.mem_singleton.mp hSingle]
    exact ⟨hLe, (h.start_lt_stop x hMem).trans_le hLe⟩

end Tiled

/-- What has been read of a text that begins at a place: the part that is covered by the lexemes,
blanks, and the characters of the lexeme at hand. -/
inductive Lexer.Reading (place : Place) : List Char → List Lexeme → Mode → Prop where
  | mk {covered gap text : List Char} {xs : List Lexeme} {mode : Mode}
      (h : Tiled place covered xs) (hGap : ∀ c ∈ gap, Text.isBlank c = true)
      (hMode : mode.Holds (place.after (covered ++ gap)).location text) :
      Reading place (covered ++ gap ++ text) xs mode

namespace Lexer.Reading

variable {place : Place} {read : List Char} {xs : List Lexeme} {mode : Mode}

theorem of_gap (h : Tiled place read xs) (gap : List Char)
    (hGap : ∀ c ∈ gap, Text.isBlank c = true) : Reading place (read ++ gap) xs .between := by
  have hMode : Mode.between.Holds (place.after (read ++ gap)).location [] := rfl
  simpa using Reading.mk h hGap hMode

theorem of_tiled (h : Tiled place read xs) : Reading place read xs .between := by
  simpa using of_gap h [] (by simp)

/-- Between two lexemes everything is covered up to blanks. -/
theorem tiled (h : Reading place read xs .between) :
    ∃ covered gap, read = covered ++ gap ∧ (∀ c ∈ gap, Text.isBlank c = true) ∧
      Tiled place covered xs := by
  cases h with
  | @mk covered gap text xs mode h hGap hMode =>
      cases hMode
      exact ⟨covered, gap, by simp, hGap, h⟩

theorem grow {covered gap text : List Char} {written : List Lexed}
    (h : Tiled place covered xs) (hGap : ∀ c ∈ gap, Text.isBlank c = true)
    (hGrows : Mode.Grows (place.after (covered ++ gap)).location
      (place.after (covered ++ gap ++ text)).location text written mode) :
    Reading place (covered ++ gap ++ text) (xs ++ lexemes written) mode := by
  cases hGrows with
  | on hNone hMode =>
      rw [hNone, List.append_nil]
      exact .mk h hGap hMode
  | done hOne hOpens hToken =>
      rw [hOne]
      exact of_tiled (h.snoc hGap hOpens hToken rfl rfl)

theorem extend (h : Reading place read xs mode) {flag : Bool} {here : Location} {c : Char}
    {written : List Lexed} {after : Mode}
    (hExtend : mode.extend? flag here (place.after (read ++ [c])).location c =
      some (written, after)) :
    Reading place (read ++ [c]) (xs ++ lexemes written) after := by
  cases h with
  | mk h hGap hMode =>
      rw [List.append_assoc] at hExtend ⊢
      exact grow h hGap (Mode.extend?_grows hMode hExtend)

theorem close (h : Reading place read xs mode) :
    Reading place read (xs ++ lexemes (mode.close (place.after read).location)) .between := by
  cases h with
  | @mk covered gap text xs mode h hGap hMode =>
      rcases Mode.close_eq hMode (place.after (covered ++ gap ++ text)).location with
        ⟨rfl, hNone⟩ | ⟨hOpens, token, hOne, hToken⟩
      · rw [hNone, List.append_nil, List.append_nil]
        exact of_gap h _ hGap
      · rw [hOne]
        exact of_tiled (h.snoc hGap hOpens hToken rfl rfl)

theorem begin (h : Reading place read xs .between) (c : Char) :
    Reading place (read ++ [c])
      (xs ++ lexemes (Mode.begin (place.after read).location
        (place.after (read ++ [c])).location c).1)
      (Mode.begin (place.after read).location (place.after (read ++ [c])).location c).2 := by
  obtain ⟨covered, gap, rfl, hGap, h⟩ := h.tiled
  cases hBlank : Text.isBlank c with
  | true =>
      have hLonger : ∀ d ∈ gap ++ [c], Text.isBlank d = true :=
        List.forall_mem_append.mpr ⟨hGap, List.forall_mem_singleton.mpr hBlank⟩
      rw [Mode.begin, if_pos hBlank, List.append_assoc]
      simpa [lexemes] using of_gap h _ hLonger
  | false => exact grow h hGap (Mode.begin_grows hBlank)

end Lexer.Reading

/-- Reading one character keeps account of all that was read. -/
theorem Lexer.step_reading {place : Place} {read : List Char} {written : List Lexed}
    {lexer : Lexer} (hPlace : lexer.place = place.after read)
    (h : Reading place read (lexemes written) lexer.mode) (c : Char) :
    (lexer.step c).2.place = place.after (read ++ [c]) ∧
      Reading place (read ++ [c]) (lexemes (written ++ (lexer.step c).1))
        (lexer.step c).2.mode := by
  have hNext : (place.after read).advance c = place.after (read ++ [c]) := by simp
  rw [lexemes_append]
  unfold step
  simp only [hPlace, hNext]
  split
  · next extended mode hExtend => exact ⟨rfl, h.extend hExtend⟩
  · refine ⟨rfl, ?_⟩
    rw [lexemes_append, ← List.append_assoc]
    exact h.close.begin c

/-- At every point of a text account is kept of what was read of it. -/
theorem Lexer.transduce_reading (lexer : Lexer) (hMode : lexer.mode = .between)
    (text : List Char) :
    (transduce step lexer text).2.place = lexer.place.after text ∧
      Reading lexer.place text (lexemes (transduce step lexer text).1)
        (transduce step lexer text).2.mode := by
  have hStep (read : List Char) (written : List Lexed) (state : Lexer) (c : Char)
      (h : state.place = lexer.place.after read ∧
        Reading lexer.place read (lexemes written) state.mode) := step_reading h.1 h.2 c
  have hFirst : Reading lexer.place [] (lexemes []) lexer.mode := by
    rw [hMode]
    exact .of_tiled .nil
  exact transduce_reads _ hStep text [] ⟨rfl, hFirst⟩

/-- The lexemes that are written while a text is read, and at its end, cover it up to blanks. -/
theorem Lexer.transduce_tiled (lexer : Lexer) (hMode : lexer.mode = .between) (text : List Char) :
    (transduce step lexer text).2.place = lexer.place.after text ∧
    ∃ covered gap, text = covered ++ gap ∧ (∀ c ∈ gap, Text.isBlank c = true) ∧
      Tiled lexer.place covered (lexemes ((transduce step lexer text).1 ++
        (transduce step lexer text).2.mode.close (lexer.place.after text).location)) := by
  obtain ⟨hPlace, hReading⟩ := lexer.transduce_reading hMode text
  have hTiled := hReading.close.tiled
  rw [← lexemes_append] at hTiled
  exact ⟨hPlace, hTiled⟩

/-- The lexemes of a text cover it up to blanks, and its end stands after them. -/
theorem lex_tiled (source : String) :
    ∃ covered gap xs, source.toList = covered ++ gap ∧ Tiled Place.first covered xs ∧
      lexemes (lex source) =
        xs ++ [⟨.finish, .point (Place.first.after source.toList).location⟩] := by
  obtain ⟨hPlace, covered, gap, hText, -, hTiled⟩ :=
    Lexer.first.transduce_tiled rfl source.toList
  refine ⟨covered, gap, _, hText, hTiled, ?_⟩
  simp only [lex, Lexer.finish, lexemes_append, hPlace, List.append_assoc]
  rfl

theorem lexemes_ordered (source : String) :
    (lexemes (lex source)).Pairwise fun x y =>
      x.span.stop ≤ y.span.start ∧ x.span.start < y.span.start := by
  obtain ⟨covered, gap, xs, hText, hTiled, hLexemes⟩ := lex_tiled source
  rw [hLexemes, hText, Place.after_append]
  exact hTiled.ordered (Place.location_le_after _ gap)

namespace TokenStream

/-- At the end of the text the end is handed out again and again. -/
theorem take_nil (stop : Location) (count : Nat) :
    take ⟨[], stop⟩ count = ([], List.replicate count ⟨.finish, .point stop⟩) := by
  induction count with
  | zero => rfl
  | succ count ih =>
      rw [take, next, next.go]
      simp only [ih, finish, List.replicate_succ, List.nil_append]

/-- What is looked for among items does not depend on those handed out before. -/
theorem go_eq (stream other : TokenStream) (h : stream.stop = other.stop) (items : List Lexed) :
    next.go stream items = next.go other items := by
  induction items with
  | nil => simp only [next.go, finish, h]
  | cons item items ih =>
      cases item with
      | report d => simp only [next.go, ih]
      | lexeme x => simp only [next.go, h]

theorem take_report (d : Diagnostic) (items : List Lexed) (stop : Location) (count : Nat) :
    take ⟨.report d :: items, stop⟩ (count + 1) =
      (d :: (take ⟨items, stop⟩ (count + 1)).1, (take ⟨items, stop⟩ (count + 1)).2) := by
  have hNext : next ⟨.report d :: items, stop⟩ =
      (d :: (next ⟨items, stop⟩).1, (next ⟨items, stop⟩).2) := by
    simp only [next, next.go]
    rw [go_eq ⟨.report d :: items, stop⟩ ⟨items, stop⟩ rfl]
  simp only [take, hNext, List.cons_append]

theorem take_lexeme (x : Lexeme) (items : List Lexed) (stop : Location) (count : Nat) :
    take ⟨.lexeme x :: items, stop⟩ (count + 1) =
      ((take ⟨items, stop⟩ count).1, x :: (take ⟨items, stop⟩ count).2) := rfl

/-- All lexemes are handed out in order, with all reports, and the end of the text after them. -/
theorem take_eq (items : List Lexed) (stop : Location) (extra : Nat) :
    take ⟨items, stop⟩ ((lexemes items).length + 1 + extra) =
      (lexReports items, lexemes items ++ List.replicate (extra + 1) ⟨.finish, .point stop⟩) := by
  induction items with
  | nil =>
      rw [take_nil]
      simp [lexemes, lexReports, Nat.add_comm]
  | cons item items ih =>
      cases item with
      | report d =>
          have hLexemes : lexemes (.report d :: items) = lexemes items := rfl
          rw [Nat.add_right_comm] at ih
          rw [hLexemes, Nat.add_right_comm, take_report, ih]
          rfl
      | lexeme x =>
          have hLexemes : lexemes (.lexeme x :: items) = x :: lexemes items := rfl
          rw [hLexemes, List.length_cons, Nat.add_right_comm, take_lexeme, ih]
          rfl

end TokenStream

/-- The lexemes of a text tile it. Taking lexemes from its stream gives finitely many before the end
of the text, which stands at the end of the text as a point and is then given again and again without
reports. The text is these lexemes in order, with nothing but blanks before, between and after them;
each lexeme begins with a character that is not blank, has the span of its characters, and is spelled
by them unless it is a text literal or no token. So all but the end take up room, and each ends before
the next begins. -/
theorem lexemes_tile (source : String) :
    ∃ (xs : List Lexeme) (finish : Lexeme) (covered gap : List Char) (log : Log),
      (∀ extra, (TokenStream.ofText source).take (xs.length + 1 + extra) =
        (log, xs ++ List.replicate (extra + 1) finish)) ∧
      finish = ⟨.finish, .point (Place.first.after source.toList).location⟩ ∧
      (∀ x ∈ xs, x.token ≠ .finish) ∧
      source.toList = covered ++ gap ∧ (∀ c ∈ gap, Text.isBlank c = true) ∧
      Tiled Place.first covered xs ∧
      (∀ x ∈ xs, x.span.start < x.span.stop) ∧
      (xs ++ [finish]).Pairwise fun x y =>
        x.span.stop ≤ y.span.start ∧ x.span.start < y.span.start := by
  obtain ⟨hPlace, covered, gap, hText, hGap, hTiled⟩ :=
    Lexer.first.transduce_tiled rfl source.toList
  have hLast : (Place.first.after covered).location ≤
      (Place.first.after source.toList).location := by
    rw [hText, Place.after_append]
    exact Place.location_le_after _ gap
  rw [← hPlace] at hTiled
  refine ⟨_, _, covered, gap, _, TokenStream.take_eq _ _, ?_, hTiled.token_ne_finish, hText, hGap,
    hTiled, hTiled.start_lt_stop, hTiled.ordered ?_⟩
  · rw [hPlace]
    rfl
  · rw [hPlace]
    exact hLast

end Progression
