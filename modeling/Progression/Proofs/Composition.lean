import Progression.Proofs.Safety
import Progression.Proofs.Seams

/-! Programs compose. Running two texts that are joined with a line feed is feeding them one after the
other, with everything about the second text moved down. All entries of the first text stand before
those of the second, so neither replaces any of the other. -/

namespace Progression

namespace Output

/-- A value whose location lies after all of a first part is added to the rest. -/
theorem insert_append {output : Output} {location : Location}
    (h : ∀ entry ∈ output, entry.1 < location) (value : Value) (rest : Output) :
    Output.insert location value (output ++ rest) = output ++ rest.insert location value := by
  induction output with
  | nil => rfl
  | cons entry output ih =>
      obtain ⟨hEntry, hOutput⟩ := List.forall_mem_cons.mp h
      rw [List.cons_append, Output.insert, if_neg hEntry.not_gt, if_neg hEntry.ne', ih hOutput]
      rfl

theorem insertAll_append {output : Output} {entries : List (Location × Value)}
    (h : ∀ entry ∈ output, ∀ added ∈ entries, entry.1 < added.1) (rest : Output) :
    Output.insertAll (output ++ rest) entries = output ++ rest.insertAll entries := by
  induction entries generalizing rest with
  | nil => rfl
  | cons added entries ih =>
      have hFirst : ∀ entry ∈ output, entry.1 < added.1 := fun entry hEntry =>
        h entry hEntry added (List.mem_cons_self ..)
      have hRest : ∀ entry ∈ output, ∀ other ∈ entries, entry.1 < other.1 :=
        fun entry hEntry other hOther => h entry hEntry other (List.mem_cons_of_mem _ hOther)
      simp only [insertAll, List.foldl_cons] at ih ⊢
      rw [insert_append hFirst, ih hRest]

theorem insertAll_join (output : Output) (entries more : List (Location × Value)) :
    output.insertAll (entries ++ more) = (output.insertAll entries).insertAll more :=
  List.foldl_append

/-- Everything in an output was in it before or was added. -/
theorem mem_insertAll {output : Output} {entries : List (Location × Value)}
    {entry : Location × Value} (h : entry ∈ output.insertAll entries) :
    entry ∈ output ∨ entry ∈ entries := by
  induction entries generalizing output with
  | nil => exact .inl h
  | cons added entries ih =>
      rcases ih h with hMem | hMem
      · rcases mem_insert hMem with rfl | hMem
        · exact .inr (List.mem_cons_self ..)
        · exact .inl hMem
      · exact .inr (List.mem_cons_of_mem _ hMem)

end Output

open Check in
/-- The checker hands a statement on with its span. -/
theorem Checker.span_of_step (checker : Checker) (s : Statement) :
    ∀ checked ∈ statements (checker.step (.statement s)).1, checked.span = s.span := by
  have hSpan {checked : Statement} {globals : Scope} {final : Array Variable}
      (h : (checkStatement checker.globals s).Accepts checker.declared (checked, globals) final) :
      checked.span = s.span := by
    cases s with
    | assign span target value =>
        obtain ⟨_, _, -, hRest⟩ := accepts_bind.mp h
        dsimp only at hRest
        split at hRest
        · exact absurd hRest not_accepts_reject
        · obtain ⟨_, _, -, hEnd⟩ := accepts_bind.mp hRest
          obtain ⟨hPair, -⟩ := accepts_pure.mp hEnd
          cases hPair
          rfl
    | out span value =>
        obtain ⟨_, _, -, hEnd⟩ := accepts_bind.mp h
        obtain ⟨hPair, -⟩ := accepts_pure.mp hEnd
        cases hPair
        rfl
    | print span text =>
        obtain ⟨hPair, -⟩ := accepts_pure.mp h
        cases hPair
        rfl
  simp only [step]
  cases hResult : (checkStatement checker.globals s checker.declared).result with
  | none => simp
  | some pair =>
      obtain ⟨checked, globals⟩ := pair
      simpa [statements, Event.statement?] using hSpan ⟨hResult, rfl⟩

namespace Session

theorem entry_start (config : Config) (machine : Machine) {s : Statement}
    {entry : Location × Value} (h : machine.entry? config s = some entry) :
    entry.1 = s.span.start := by
  cases s with
  | assign span target value => cases h
  | out span value | print span text =>
      cases h
      rfl

/-- The entries of a text stand where its statements start. -/
theorem entries_start (config : Config) (session : Session) (source : String) :
    ∀ entry ∈ session.entries config source,
      ∃ s ∈ statements (parse source), entry.1 = s.span.start := by
  refine transduce_forall _ (parse source) (fun event hEvent session entry hEntry => ?_) session
  obtain ⟨checked, hChecked, hSome⟩ := List.mem_filterMap.mp hEntry
  cases event with
  | report d => cases hChecked
  | statement s =>
      refine ⟨s, List.mem_filterMap.mpr ⟨_, hEvent, rfl⟩, ?_⟩
      rw [entry_start config _ hSome, session.checker.span_of_step s checked hChecked]

/-- All entries of a text stand before those of a text below it. -/
theorem entries_lt (config : Config) (one two : Session) (first second : String) :
    ∀ entry ∈ one.entries config first, ∀ added ∈ two.entries config second,
      entry.1 < added.1.down (lineBreaks (first.toList ++ ['\n'])) := by
  intro entry hEntry added hAdded
  obtain ⟨s, hs, hStart⟩ := entries_start config one first entry hEntry
  obtain ⟨t, ht, hLater⟩ := entries_start config two second added hAdded
  rw [hStart, hLater]
  calc s.span.start
      < (Place.first.after first.toList).location := (statement_inside first s hs).2
    _ ≤ (Place.first.after (first.toList ++ ['\n'])).location := by
        rw [Place.after_append]
        exact Place.location_le_after _ _
    _ = Location.first.down (lineBreaks (first.toList ++ ['\n'])) := by
        rw [Place.after_lineFeed]
        rfl
    _ ≤ t.span.start.down (lineBreaks (first.toList ++ ['\n'])) :=
        (Location.down_strictMono _).monotone (statement_inside second t ht).1

end Session

theorem evaluate_output (config : Config) (source : String) :
    (evaluate config source).output =
      Output.insertAll [] (Session.first.entries config source) :=
  Session.first.feed_output config source

/-- Programs compose: a text about whose characters and tokens nothing is reported, a line feed, and a
text that begins with a statement apart from comments, or holds no statement. The log is that of the
first text, followed by what the second text reports when it is fed after the first one, moved down by
the line ends before it. The output is that of the first text, followed by what the second text adds,
moved likewise. What a text adds is what its run adds to the output of the session. -/
theorem programs_compose (config : Config) (first second : String)
    (hFirst : reports (parse first) = []) (hSecond : opensProgram (lex second) = true) :
    (evaluate config (first ++ "\n" ++ second)).log = (evaluate config first).log ++
      ((Session.after config [first]).feed config second).1.map
        (Diagnostic.relocate (Location.down (lineBreaks (first ++ "\n").toList))) ∧
    (evaluate config (first ++ "\n" ++ second)).output = (evaluate config first).output ++
      Output.insertAll [] (((Session.after config [first]).entries config second).map
        (Prod.map (Location.down (lineBreaks (first ++ "\n").toList)) id)) ∧
    (Session.after config [first, second]).machine.output =
      (evaluate config first).output.insertAll
        ((Session.after config [first]).entries config second) := by
  have hText : (first ++ "\n").toList = first.toList ++ ['\n'] := by simp
  rw [hText]
  have hParse := parse_join hFirst hSecond
  have hMiddle : Session.after config [first] =
      (transduce (Session.step config) Session.first (parse first)).2 := rfl
  have hLevel : (Session.after config [first]).Level (Session.after config [first]) := ⟨rfl, rfl⟩
  obtain ⟨hLog, hEntries⟩ := hLevel.transduce_relocate
    (f := Location.down (lineBreaks (first.toList ++ ['\n']))) config (parse second)
  refine ⟨?_, ?_, ?_⟩
  · simp only [evaluate, Session.feed, hParse, transduce_append]
    rw [← hMiddle, hLog]
  · have hJoined : Session.first.entries config (first ++ "\n" ++ second) =
        Session.first.entries config first ++
          ((Session.after config [first]).entries config second).map
            (Prod.map (Location.down (lineBreaks (first.toList ++ ['\n']))) id) := by
      rw [Session.entries, hParse, transduce_append, Session.transduce_stepEntries, ← hMiddle,
        hEntries]
      rfl
    have hBefore : ∀ entry ∈ (evaluate config first).output,
        ∀ added ∈ ((Session.after config [first]).entries config second).map
          (Prod.map (Location.down (lineBreaks (first.toList ++ ['\n']))) id),
            entry.1 < added.1 := by
      intro entry hEntry added hAdded
      rw [evaluate_output] at hEntry
      obtain ⟨other, hOther, rfl⟩ := List.mem_map.mp hAdded
      rcases Output.mem_insertAll hEntry with hNone | hEntry
      · cases hNone
      · exact Session.entries_lt config _ _ first second entry hEntry other hOther
    have hEnd := Output.insertAll_append hBefore []
    rw [List.append_nil] at hEnd
    rw [evaluate_output, hJoined, Output.insertAll_join, ← evaluate_output, hEnd]
  · have hLast : Session.after config [first, second] =
        ((Session.after config [first]).feed config second).2 := rfl
    rw [hLast, Session.feed_output]
    rfl

/-- The first text ends with a comment and a carriage return, to which the line feed belongs. In the
second one, after a comment, a statement fails, one is rejected, and one has no first word. -/
theorem programs_compose_return :
    ∃ (config : Config) (first second : String),
      first = "var x = 2 out x # two\r" ∧ second = "# three\nout x / (x - 2) var x = out x" ∧
      reports (parse first) = [] ∧ opensProgram (lex second) = true ∧
      ((Session.after config [first]).feed config second).1.map Diagnostic.span =
        [⟨⟨2, 5⟩, ⟨2, 16⟩⟩, ⟨⟨2, 25⟩, ⟨2, 28⟩⟩, ⟨⟨2, 29⟩, ⟨2, 30⟩⟩] ∧
      (evaluate config (first ++ "\n" ++ second)).log.map Diagnostic.span =
        [⟨⟨3, 5⟩, ⟨3, 16⟩⟩, ⟨⟨3, 25⟩, ⟨3, 28⟩⟩, ⟨⟨3, 29⟩, ⟨3, 30⟩⟩] ∧
      (evaluate config (first ++ "\n" ++ second)).output.map Prod.fst = [⟨1, 11⟩, ⟨3, 1⟩] := by
  have hFirst : reports (parse "var x = 2 out x # two\r") = [] := by decide +kernel
  have hSecond : opensProgram (lex "# three\nout x / (x - 2) var x = out x") = true := by
    decide +kernel
  obtain ⟨hLog, hOutput, -⟩ := programs_compose (Config.ofWorkers 2) _ _ hFirst hSecond
  refine ⟨Config.ofWorkers 2, _, _, rfl, rfl, hFirst, hSecond, by decide +kernel, ?_, ?_⟩
  · rw [hLog]
    decide +kernel
  · rw [hOutput]
    decide +kernel

end Progression
