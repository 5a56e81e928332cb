import Progression.Proofs.Composition

/-! The order of outputs. The statements of a text start one after the other, since each begins at a
word of its own and whatever is given up is taken up again further on. So the value of a statement is
always added behind all values before it: none is replaced, and the output lists the values in the
order in which they were computed. -/

namespace Progression

namespace Parser

variable {Q R : Location → Prop} {x : Lexeme} {coming : List Lexeme} {parser : Parser}

theorem Awaits.mono (h : parser.Awaits Q coming) (hImp : ∀ start, Q start → R start) :
    parser.Awaits R coming := by
  rcases h with ⟨keyword, hKeyword, hWithin, hLater⟩ | hIdle
  · exact .inl ⟨keyword, hImp _ hKeyword, hWithin, hLater⟩
  · exact .inr hIdle

/-- A lexeme completes at most one statement. What is at hand after it began later. -/
theorem step_completes (h : parser.Awaits (· < x.span.start) (x :: coming))
    (hComing : ∀ y ∈ coming, x.span.start ≤ y.span.start) :
    statements (parser.step x).1 = [] ∨ ∃ s, statements (parser.step x).1 = [s] ∧
      s.span.start < x.span.start ∧ (parser.step x).2.Awaits (s.span.start < ·) coming := by
  rcases h with ⟨keyword, hBefore, hWithin, hLater⟩ | rfl | rfl
  · have hStart {s : Statement} (hs : Concludes (keyword.start ≤ ·) keyword (.statement s)) :
        s.span.start < x.span.start := by rwa [hs.start_eq]
    have hMoves := take_moves hWithin (List.forall_mem_cons.mp hLater).1
    generalize hTake : parser.take x = reaction at hMoves
    cases hMoves with
    | on =>
        rw [step_of_on hTake]
        exact .inl rfl
    | @last outcome _ hEnds =>
        rw [step_of_last hTake]
        cases outcome with
        | statement s => exact .inr ⟨s, rfl, hStart hEnds, .inr (.inl rfl)⟩
        | report d => exact .inl rfl
    | @before outcome hEnds =>
        rw [step_of_before hTake]
        cases outcome with
        | statement s =>
            obtain ⟨hNone, hNext⟩ := (begins_statement x).awaits (Q := (s.span.start < ·))
              (fun _ => hStart hEnds) hComing
            exact .inr ⟨s, congrArg (s :: ·) hNone, hStart hEnds, hNext⟩
        | report d =>
            exact .inl (recovery_awaits (Q := fun _ => True) (fun _ => trivial) hComing).1
  · exact .inl ((begins_statement x).awaits (Q := fun _ => True) (fun _ => trivial) hComing).1
  · exact .inl (recovery_awaits (Q := fun _ => True) (fun _ => trivial) hComing).1

/-- A run over lexemes in ascending order hands statements over in ascending order. -/
theorem transduce_ascending (items : List Lexed)
    (hOrder : (lexemes items).Pairwise fun x y => x.span.start < y.span.start)
    (h : parser.Awaits (fun start => ∀ y ∈ lexemes items, start < y.span.start) (lexemes items)) :
    (statements (transduce feed parser items).1).Pairwise
      fun s t => s.span.start < t.span.start := by
  induction items generalizing parser with
  | nil => exact .nil
  | cons item items ih =>
      cases item with
      | report d => exact ih hOrder h
      | lexeme x =>
          have hTail : parser.Awaits (fun start => ∀ y ∈ lexemes items, start < y.span.start)
              (x :: lexemes items) := h.mono fun start hStart y hMem =>
            hStart y (List.mem_cons_of_mem _ hMem)
          obtain ⟨hLater, hOrder⟩ := List.pairwise_cons.mp hOrder
          have hComing : ∀ y ∈ lexemes items, x.span.start ≤ y.span.start := fun y hMem =>
            (hLater y hMem).le
          rw [transduce_cons, statements_append, feed]
          split
          · exact ih hOrder hTail.tail
          · have hRest := ih hOrder (step_awaits hTail (fun _ => hLater) hComing).2
            have hHere := step_completes
              (h.mono fun start hStart => hStart x (List.mem_cons_self ..)) hComing
            rcases hHere with hNone | ⟨s, hOne, hStart, hNext⟩
            · rwa [hNone]
            · rw [hOne]
              refine List.pairwise_cons.mpr ⟨?_, hRest⟩
              refine transduce_starts items (hOrder.imp le_of_lt) (fun y hMem _ => ?_) hNext
              exact hStart.trans (hLater y hMem)

end Parser

/-- The statements of a text start one after the other. -/
theorem statements_ascending (source : String) :
    (statements (parse source)).Pairwise fun s t => s.span.start < t.span.start :=
  Parser.transduce_ascending (lex source) ((lexemes_ordered source).imp And.right)
    (.inr (.inl rfl))

/-- Of the statements that are handed to it a checker hands on some, with their spans, in their
order. -/
theorem Checker.spans_of_run (checker : Checker) (events : List Event) :
    ((statements (checker.run events).1).map Statement.span).Sublist
      ((statements events).map Statement.span) := by
  induction events generalizing checker with
  | nil => exact .slnil
  | cons event events ih =>
      have hRest := ih (checker.step event).2
      rw [run, transduce_cons, statements_append, List.map_append]
      cases event with
      | report d => exact hRest
      | statement s =>
          have hHands := checker.hands_step (.statement s)
          have hSpan := checker.span_of_step s
          have hEvents : (statements (.statement s :: events)).map Statement.span =
              [s.span] ++ (statements events).map Statement.span := rfl
          rw [hEvents]
          refine List.Sublist.append ?_ hRest
          generalize statements (checker.step (.statement s)).1 = handed at hHands hSpan
          generalize (checker.step (.statement s)).2 = next at hHands
          cases hHands with
          | nothing more => exact List.nil_sublist _
          | @passed checked next hPassed =>
              rw [List.map_singleton, hSpan checked (List.mem_singleton_self _)]

/-- What running the statement adds to the output. -/
def Execution.entry? (config : Config) (x : Execution) : Option (Location × Value) :=
  x.session.machine.entry? config x.statement

/-- Whether the statement puts a value out. -/
def Statement.putsOut : Statement → Bool
  | assign _ _ _ => false
  | out _ _ => true
  | print _ _ => true

theorem Execution.entry?_map_fst (config : Config) (x : Execution) :
    (x.entry? config).map Prod.fst =
      if x.statement.putsOut then some x.statement.span.start else none := by
  obtain ⟨session, s⟩ := x
  cases s <;> rfl

/-- The entries of executions stand where the statements start that put something out. -/
theorem entries_map_fst (config : Config) (executed : List Execution) :
    (executed.filterMap (Execution.entry? config)).map Prod.fst =
      ((executed.map Execution.statement).filter Statement.putsOut).map
        fun s => s.span.start := by
  rw [List.map_filterMap, List.filter_map, List.map_map, ← List.filterMap_eq_map,
    List.filterMap_filter]
  congr 1
  funext x
  rw [x.entry?_map_fst config]
  rfl

namespace Output

/-- Values whose locations ascend after those of an output are appended to it. -/
theorem insertAll_of_ascending {output : Output} {entries : List (Location × Value)}
    (h : (output ++ entries).Pairwise fun a b => a.1 < b.1) :
    output.insertAll entries = output ++ entries := by
  induction entries generalizing output with
  | nil => exact (List.append_nil output).symm
  | cons added entries ih =>
      have hBefore : ∀ entry ∈ output, entry.1 < added.1 := fun entry hEntry =>
        (List.pairwise_append.mp h).2.2 entry hEntry added (List.mem_cons_self ..)
      have hFirst := insert_append hBefore added.2 []
      rw [List.append_nil] at hFirst
      have hSame : output ++ [added] ++ entries = output ++ added :: entries := by simp
      calc output.insertAll (added :: entries)
          = (output ++ [added]).insertAll entries := congrArg (insertAll · entries) hFirst
        _ = output ++ [added] ++ entries := ih (by rwa [hSame])
        _ = output ++ added :: entries := hSame

end Output

/-- The output after events is the output before them with the entries of the statements that were
run. -/
theorem Session.executed_output (config : Config) (session : Session) (events : List Event) :
    (transduce (stepExecuted config) session events).2.machine.output =
      session.machine.output.insertAll
        ((transduce (stepExecuted config) session events).1.filterMap
          (Execution.entry? config)) := by
  induction events generalizing session with
  | nil => rfl
  | cons event events ih =>
      have hHere : (session.stepExecuted config event).2.machine.output =
          session.machine.output.insertAll
            ((session.stepExecuted config event).1.filterMap (Execution.entry? config)) := by
        have hTakes := session.takes_step config event
        generalize session.stepExecuted config event = result at hTakes
        obtain ⟨executed, next⟩ := result
        cases hTakes with
        | report => rfl
        | rejected more => rfl
        | @passed checked checker hPassed => exact session.machine.execute_output config checked
      rw [transduce_cons, ih, hHere, List.filterMap_append, Output.insertAll_join]

/-- The entries of a text ascend. -/
theorem executions_ascending (config : Config) (source : String) :
    ((executions config [source]).filterMap (Execution.entry? config)).Pairwise
      fun a b => a.1 < b.1 := by
  have hParsed : ((statements (parse source)).map Statement.span).Pairwise
      fun a b => a.start < b.start := List.pairwise_map.mpr (statements_ascending source)
  have hChecked : ((statements (typeCheck source).1).map Statement.span).Pairwise
      fun a b => a.start < b.start := hParsed.sublist (Checker.first.spans_of_run (parse source))
  have hStarts : (((statements (typeCheck source).1).filter Statement.putsOut).map
      fun s => s.span.start).Pairwise (· < ·) :=
    List.pairwise_map.mpr ((List.pairwise_map.mp hChecked).filter _)
  rw [← statements_executions config, ← entries_map_fst] at hStarts
  exact List.pairwise_map.mp hStarts

/-- No output is lost or reordered. The statements of a text start one after the other. The output of
a run has one entry for every statement that has passed the checker and puts something out, at the
start of that statement and with the value that it had when it was run. The entries ascend, and they
stand in the order in which the statements were run. Whenever a statement is run, the output holds the
entries of those before it, and what it adds is appended, so no entry takes the place of another. -/
theorem outputs_in_order (config : Config) (source : String) :
    (statements (parse source)).Pairwise (fun s t => s.span.start < t.span.start) ∧
    (executions config [source]).map Execution.statement = statements (typeCheck source).1 ∧
    (evaluate config source).output.map Prod.fst =
      ((statements (typeCheck source).1).filter Statement.putsOut).map (fun s => s.span.start) ∧
    (evaluate config source).output.Pairwise (fun a b => a.1 < b.1) ∧
    (evaluate config source).output =
      (executions config [source]).filterMap (Execution.entry? config) ∧
    ∀ before x after, executions config [source] = before ++ x :: after →
      x.session.machine.output = before.filterMap (Execution.entry? config) ∧
      (x.session.machine.execute config x.statement).2.output =
        x.session.machine.output ++ (x.entry? config).toList := by
  have hAscending := executions_ascending config source
  have hOutput : (evaluate config source).output =
      (executions config [source]).filterMap (Execution.entry? config) := by
    have hAfter : (evaluate config source).output =
        (Session.after config [source]).machine.output := rfl
    rw [hAfter, Session.after_eq, Session.executed_output]
    exact Output.insertAll_of_ascending hAscending
  refine ⟨statements_ascending source, statements_executions config source, ?_, ?_, hOutput, ?_⟩
  · rw [hOutput, entries_map_fst, statements_executions]
  · rwa [hOutput]
  · intro before x after hSplit
    obtain ⟨events, hBefore, hSession, -⟩ := executions_split hSplit
    -- The entries up to and including that of the statement are the first ones of the output.
    have hFirst : (before.filterMap (Execution.entry? config) ++
        (x.entry? config).toList).Pairwise fun a b => a.1 < b.1 := by
      rw [hSplit, List.filterMap_append, ← List.singleton_append, List.filterMap_append,
        ← List.append_assoc] at hAscending
      exact (List.pairwise_append.mp hAscending).1
    have hHeld : x.session.machine.output = before.filterMap (Execution.entry? config) := by
      rw [← hSession, Session.executed_output, hBefore]
      exact Output.insertAll_of_ascending (List.pairwise_append.mp hFirst).1
    refine ⟨hHeld, ?_⟩
    rw [Machine.execute_output, hHeld]
    exact Output.insertAll_of_ascending hFirst

end Progression
