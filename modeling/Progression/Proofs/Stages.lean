import Progression.Proofs.Inertness
import Progression.Proofs.Keywords
import Progression.Proofs.RelocatedRuns

/-! How the stages share one log. Every stage passes on what the stages before it report and adds
reports of its own kind only. So what a stage reports when it is the last one can be read off the log
of a whole run. -/

namespace Progression

/-- The reports of some stages, in the order of the log. -/
def Log.of (log : Log) (stages : List Stage) : Log := log.filter fun d => d.stage ∈ stages

namespace Log

theorem of_append (first second : Log) (stages : List Stage) :
    Log.of (first ++ second) stages = first.of stages ++ second.of stages := List.filter_append ..

theorem of_eq_self {log : Log} {stages : List Stage} (h : ∀ d ∈ log, d.stage ∈ stages) :
    log.of stages = log :=
  List.filter_eq_self.mpr fun d hMem => decide_eq_true (h d hMem)

theorem of_eq_nil {log : Log} {stages : List Stage} (h : ∀ d ∈ log, d.stage ∉ stages) :
    log.of stages = [] :=
  List.filter_eq_nil_iff.mpr fun d hMem hStage => h d hMem (of_decide_eq_true hStage)

theorem of_of {stages more : List Stage} (h : stages ⊆ more) (log : Log) :
    (log.of more).of stages = log.of stages := by
  rw [Log.of, Log.of, Log.of, List.filter_filter]
  refine List.filter_congr fun d _ => ?_
  by_cases hStage : d.stage ∈ stages
  · simp [hStage, h hStage]
  · simp [hStage]

end Log

/-- The item is a lexeme or a report about characters. -/
def Lexed.Lexical : Lexed → Prop
  | report d => d.stage = .lex
  | lexeme _ => True

namespace Mode

theorem close_lexical (mode : Mode) (stop : Location) :
    ∀ item ∈ mode.close stop, item.Lexical := by
  cases mode with
  | number start read dotted =>
      simp only [close, numberLexed]
      split
      · simp [Lexed.error, Lexed.token, Lexed.Lexical, Diagnostic.stage, Cause.stage]
      split
      · simp [Lexed.token, Lexed.Lexical]
      · simp [Lexed.token, Lexed.Lexical]
  | _ => simp [close, Lexed.error, Lexed.token, Lexed.Lexical, Diagnostic.stage, Cause.stage]

theorem extend?_lexical {mode : Mode} {flag : Bool} {here next : Location} {c : Char}
    {written : List Lexed} {after : Mode}
    (h : mode.extend? flag here next c = some (written, after)) :
    ∀ item ∈ written, item.Lexical := by
  cases mode with
  | between => cases h
  | _ =>
      simp only [extend?] at h
      repeat' split at h
      all_goals cases h
      all_goals simp [Lexed.error, Lexed.token, Lexed.Lexical, Diagnostic.stage, Cause.stage]

theorem begin_lexical (here next : Location) (c : Char) :
    ∀ item ∈ (begin here next c).1, item.Lexical := by
  unfold begin
  repeat' split
  all_goals simp [Lexed.error, Lexed.token, Lexed.Lexical, Diagnostic.stage, Cause.stage]

end Mode

theorem Lexer.step_lexical (lexer : Lexer) (c : Char) :
    ∀ item ∈ (lexer.step c).1, item.Lexical := by
  simp only [step]
  split
  · next hExtend => exact Mode.extend?_lexical hExtend
  · exact List.forall_mem_append.mpr ⟨Mode.close_lexical _ _, Mode.begin_lexical _ _ _⟩

/-- The lexer reports about characters only. -/
theorem lex_lexical (source : String) : ∀ item ∈ lex source, item.Lexical := by
  have hWritten := transduce_forall Lexed.Lexical source.toList
    (fun c _ lexer => Lexer.step_lexical lexer c) Lexer.first
  refine List.forall_mem_append.mpr ⟨hWritten, List.forall_mem_append.mpr ⟨?_, ?_⟩⟩
  · exact Mode.close_lexical _ _
  · simp [Lexed.token, Lexed.Lexical]

namespace Parser

/-- The parser passes on the reports about characters and adds only reports about tokens. -/
theorem feed_reports (parser : Parser) {item : Lexed} (h : item.Lexical) :
    (reports (parser.feed item).1).of [.lex] = item.report?.toList ∧
      ∀ d ∈ reports (parser.feed item).1, d.stage ∈ [Stage.lex, .parse] := by
  cases item with
  | report d =>
      have hStage : d.stage = .lex := h
      constructor
      · exact Log.of_eq_self (by simp [feed, reports, Event.report?, hStage])
      · simp [feed, reports, Event.report?, hStage]
  | lexeme x =>
      rw [feed]
      split
      · simp [reports, Log.of, Lexed.report?]
      · have hStage := (parser.explained_step x).stage
        constructor
        · exact Log.of_eq_nil fun d hMem => by simp [hStage d hMem]
        · exact fun d hMem => by simp [hStage d hMem]

end Parser

/-- What holds of the reports that an item gives rise to holds of all reports. -/
theorem forall_reports {σ α : Type} {step : σ → α → List Event × σ} (property : Diagnostic → Prop)
    (items : List α) (hStep : ∀ item ∈ items, ∀ s, ∀ d ∈ reports (step s item).1, property d)
    (s : σ) : ∀ d ∈ reports (transduce step s items).1, property d := by
  have hEvents := transduce_forall (fun event => ∀ d ∈ Event.report? event, property d) items
    (fun item hItem s event hMem d hReport =>
      hStep item hItem s d (List.mem_filterMap.mpr ⟨event, hMem, hReport⟩)) s
  intro d hMem
  obtain ⟨event, hEvent, hReport⟩ := List.mem_filterMap.mp hMem
  exact hEvents event hEvent d hReport

/-- Reading a program gives reports about characters and tokens. -/
theorem stage_of_parse (source : String) :
    ∀ d ∈ reports (parse source), d.stage ∈ [Stage.lex, .parse] :=
  forall_reports _ (lex source)
    (fun item hItem parser => (Parser.feed_reports parser (lex_lexical source item hItem)).2)
    Parser.first

theorem lex_of_parse (source : String) :
    (reports (parse source)).of [.lex] = lexReports (lex source) := by
  have hPick := transduce_pick (fun events => (reports events).of [.lex]) rfl
    (fun first second => by rw [reports_append, Log.of_append]) (lex source)
    (fun item hItem parser => (Parser.feed_reports parser (lex_lexical source item hItem)).1)
    Parser.first
  exact hPick.trans (List.filterMap_eq_flatMap_toList _ _).symm

namespace Checker

/-- The checker reports about types only. -/
theorem stage_of_step (checker : Checker) (s : Statement) :
    ∀ d ∈ reports (checker.step (.statement s)).1, d.stage = .type := by
  rw [(checker.step_handed s).2]
  exact (checkStatement_closed Check.explained_closed checker.globals s checker.declared).stage

variable {stages : List Stage} {events : List Event} (h : ∀ d ∈ reports events, d.stage ∈ stages)

include h

theorem stage_of_run (checker : Checker) :
    ∀ d ∈ reports (checker.run events).1, d.stage ∈ stages ∨ d.stage = .type := by
  refine forall_reports _ events (fun event hEvent checker => ?_) checker
  cases event with
  | report d =>
      have hStage := h d (List.mem_filterMap.mpr ⟨_, hEvent, rfl⟩)
      exact List.forall_mem_singleton.mpr (.inl hStage)
  | statement s => exact fun d hMem => .inr (checker.stage_of_step s d hMem)

/-- The checker passes on the reports of earlier stages. -/
theorem of_run (hType : Stage.type ∉ stages) (checker : Checker) :
    (reports (checker.run events).1).of stages = reports events := by
  have hStep (event : Event) (hEvent : event ∈ events) (checker : Checker) :
      (reports (checker.step event).1).of stages = event.report?.toList := by
    cases event with
    | report d =>
        have hStage := h d (List.mem_filterMap.mpr ⟨_, hEvent, rfl⟩)
        exact Log.of_eq_self (by simpa [step, reports, Event.report?] using hStage)
    | statement s =>
        refine Log.of_eq_nil fun d hMem => ?_
        rwa [checker.stage_of_step s d hMem]
  have hPick := transduce_pick (fun events => (reports events).of stages) rfl
    (fun first second => by rw [reports_append, Log.of_append]) events hStep checker
  exact hPick.trans (List.filterMap_eq_flatMap_toList _ _).symm

end Checker

theorem Expr.relocate_id (e : Expr) : e.relocate id = e := by
  induction e with
  | int | float | ref => rfl
  | binary mark op left right ihLeft ihRight =>
      rw [relocate, ihLeft, ihRight]
      rfl
  | paren mark inner ih =>
      rw [relocate, ih]
      rfl
  | range mark lower upper ihLower ihUpper =>
      rw [relocate, ihLower, ihUpper]
      rfl
  | map mark argument param body ihArgument ihBody =>
      rw [relocate, ihArgument, ihBody]
      rfl
  | reduce mark sequence base accumulator element body ihSequence ihBase ihBody =>
      rw [relocate, ihSequence, ihBase, ihBody]
      rfl

/-- Evaluation reports about running only: it stays the same if all other reports are dropped. -/
theorem Expr.stage_of_eval (config : Config) (e : Expr) (bindings : Bindings) :
    ∀ d ∈ (e.eval config bindings).reports, d.stage = .runtime := by
  have hOnly := congrFun (e.eval_relocate (f := id) (k := fun d => Log.of [d] [.runtime])
    (fun _ _ => rfl) config) bindings
  rw [relocate_id] at hOnly
  have hReports := congrArg Outcome.reports hOnly
  intro d hMem
  rw [hReports] at hMem
  obtain ⟨other, -, hOther⟩ := List.mem_flatMap.mp hMem
  obtain ⟨hSame, hStage⟩ := List.mem_filter.mp hOther
  simpa using hStage

namespace Machine

/-- Running a statement reports about running only. -/
theorem stage_of_execute (config : Config) (machine : Machine) (s : Statement) :
    ∀ d ∈ (machine.execute config s).1, d.stage = .runtime := by
  cases s with
  | assign span target value => exact value.stage_of_eval config _
  | out span value => exact value.stage_of_eval config _
  | print span text => simp [execute]

/-- A machine passes on the reports that it is given. -/
theorem of_run (config : Config) (stages : List Stage) (hRuntime : Stage.runtime ∉ stages)
    {events : List Event} (h : ∀ d ∈ reports events, d.stage ∈ stages) (machine : Machine) :
    (machine.run config events).1.of stages = reports events := by
  have hStep (event : Event) (hEvent : event ∈ events) (machine : Machine) :
      (machine.step config event).1.of stages = event.report?.toList := by
    cases event with
    | report d =>
        have hStage := h d (List.mem_filterMap.mpr ⟨_, hEvent, rfl⟩)
        exact Log.of_eq_self (by simpa [step] using hStage)
    | statement s =>
        refine Log.of_eq_nil fun d hMem => ?_
        rwa [stage_of_execute config machine s d hMem]
  have hPick := transduce_pick (fun log => Log.of log stages) rfl
    (fun first second => Log.of_append first second stages) events hStep machine
  exact hPick.trans (List.filterMap_eq_flatMap_toList _ _).symm

end Machine

namespace Session

/-- The statements that are run are those that the checker hands on. -/
theorem statements_executed (config : Config) (session : Session) (events : List Event) :
    (transduce (stepExecuted config) session events).1.map Execution.statement =
      statements (session.checker.run events).1 := by
  induction events generalizing session with
  | nil => rfl
  | cons event events ih =>
      have hHere : (session.stepExecuted config event).1.map Execution.statement =
          statements (session.checker.step event).1 := by
        simp [stepExecuted, Function.comp_def]
      rw [transduce_cons, List.map_append, ih, hHere]
      exact (statements_append _ _).symm

end Session

theorem statements_executions (config : Config) (source : String) :
    (executions config [source]).map Execution.statement = statements (typeCheck source).1 := by
  rw [executions, List.flatMap_singleton, Session.statements_executed]
  rfl

/-- What was reported about a statement: by the checker, and while it was run. -/
def Account.log (account : Account) : Log :=
  account.findings ++ account.answer.toList.flatMap Answer.reports

namespace Session

theorem run_reports (config : Config) (machine : Machine) (log : Log) :
    machine.run config (log.map .report) = (log, machine) := by
  induction log with
  | nil => rfl
  | cons d log ih =>
      rw [Machine.run] at ih
      rw [List.map_cons, Machine.run, transduce_cons, Machine.step, ih]
      rfl

/-- What a session reports about a statement is its account. -/
theorem step_log (config : Config) {session : Session} (hOrdered : session.checker.Ordered)
    (s : Statement) : (session.step config (.statement s)).1 = (session.account config s).log := by
  simp only [step, account, Account.log, Checker.step]
  cases hResult : (Checker.checkStatement session.checker.globals s
      session.checker.declared).result with
  | none =>
      rw [run_reports, reports_map_report, statements_reports]
      simp
  | some pair =>
      obtain ⟨checked, globals⟩ := pair
      have hPassed := Checker.passed_of_accepts ⟨hResult, rfl⟩
      obtain ⟨answer, hAnswer, -⟩ := execute_named config hOrdered hPassed
      have hReports : (session.machine.execute config checked).1 = answer.reports := by
        obtain ⟨value, -, rfl⟩ := Option.map_eq_some_iff.mp hAnswer
        rfl
      dsimp only
      rw [Machine.run, transduce_append, ← Machine.run, run_reports, statements_append,
        statements_reports, reports_append, reports_map_report]
      simp [statements, reports, Event.statement?, Event.report?, Machine.step, transduce_cons,
        hAnswer, hReports]

/-- The findings about a statement are about types, and what is reported of its run is about
running. -/
theorem stage_of_account (config : Config) (session : Session) (s : Statement) :
    (∀ d ∈ (session.account config s).findings, d.stage = .type) ∧
      ∀ answer ∈ (session.account config s).answer, ∀ d ∈ answer.reports, d.stage = .runtime := by
  refine ⟨session.checker.stage_of_step s, fun answer hAnswer => ?_⟩
  obtain ⟨checked, -, hChecked⟩ := Option.bind_eq_some_iff.mp hAnswer
  obtain ⟨value, -, rfl⟩ := Option.map_eq_some_iff.mp hChecked
  exact Machine.stage_of_execute config session.machine checked

/-- Of a session's log the reports about types and running are those of the accounts, in the order of
the statements. -/
theorem of_transduce (config : Config) {session : Session} (hOrdered : session.checker.Ordered)
    {events : List Event} (h : ∀ d ∈ reports events, d.stage ∈ [Stage.lex, .parse]) :
    Log.of (transduce (step config) session events).1 [.type, .runtime] =
      (transduce (stepAccounted config) session (statements events)).1.flatMap Account.log := by
  induction events generalizing session with
  | nil => rfl
  | cons event events ih =>
      rw [transduce_cons, Log.of_append]
      cases event with
      | report d =>
          obtain ⟨hStage, hRest⟩ := List.forall_mem_cons.mp h
          have hNone : Log.of [d] [.type, .runtime] = [] := by
            refine Log.of_eq_nil (List.forall_mem_singleton.mpr ?_)
            simp only [List.mem_cons, List.not_mem_nil, or_false] at hStage
            rcases hStage with hStage | hStage
            · simp [hStage]
            · simp [hStage]
          have hSame : session.step config (.report d) = ([d], session) := rfl
          rw [hSame, hNone, List.nil_append, ih hOrdered hRest]
          rfl
      | statement s =>
          have hAnswered : Answered [] session := ⟨hOrdered, by simp⟩
          have hNext : (session.step config (.statement s)).2.checker.Ordered :=
            (hAnswered.step config s).ordered
          have hAll : (session.account config s).log.of [.type, .runtime] =
              (session.account config s).log := by
            obtain ⟨hFindings, hAnswers⟩ := session.stage_of_account config s
            refine Log.of_eq_self (List.forall_mem_append.mpr ⟨?_, ?_⟩)
            · exact fun d hMem => by simp [hFindings d hMem]
            · intro d hMem
              obtain ⟨answer, hAnswer, hReport⟩ := List.mem_flatMap.mp hMem
              simp [hAnswers answer (Option.mem_toList.mp hAnswer) d hReport]
          rw [step_log config hOrdered, hAll, ih hNext h]
          rfl

end Session

/-- What every stage reports and hands on can be read off a whole run, however far one goes. The
reports of a run about characters are those that come with the lexemes; with those about tokens they
are the reports of reading the program; with those about types, the reports of checking it. The
statements that are run, and that give the output, are those that the checker hands on. The reports
about types and running are, statement by statement, those of its check followed by those of its
run. -/
theorem stages_agree (config : Config) (source : String) :
    (∀ extra, (evaluate config source).log.of [.lex] =
      ((TokenStream.ofText source).take ((TokenStream.ofText source).size + 1 + extra)).1) ∧
    (evaluate config source).log.of [.lex, .parse] = reports (parse source) ∧
    (evaluate config source).log.of [.lex, .parse, .type] = reports (typeCheck source).1 ∧
    (executions config [source]).map Execution.statement = statements (typeCheck source).1 ∧
    (evaluate config source).output = ((statements (typeCheck source).1).foldl
      (fun machine s => (machine.execute config s).2) Machine.first).output ∧
    (evaluate config source).log.of [.type, .runtime] =
      (accounts config (statements (parse source))).flatMap Account.log ∧
    ∀ account ∈ accounts config (statements (parse source)),
      (∀ d ∈ account.findings, d.stage = .type) ∧
        ∀ answer ∈ account.answer, ∀ d ∈ answer.reports, d.stage = .runtime := by
  have hChecked : ∀ d ∈ reports (typeCheck source).1, d.stage ∈ [Stage.lex, .parse, .type] := by
    intro d hMem
    have hStage := Checker.stage_of_run (stage_of_parse source) Checker.first d hMem
    simpa [or_assoc] using hStage
  have hTyped : (evaluate config source).log.of [.lex, .parse, .type] =
      reports (typeCheck source).1 := by
    rw [evaluate_eq]
    exact Machine.of_run config _ (by decide) hChecked Machine.first
  have hParsed : (evaluate config source).log.of [.lex, .parse] = reports (parse source) := by
    have hSubset : [Stage.lex, .parse] ⊆ [.lex, .parse, .type] := by simp
    rw [← Log.of_of hSubset, hTyped]
    exact Checker.of_run (stage_of_parse source) (by decide) Checker.first
  refine ⟨fun extra => ?_, hParsed, hTyped, statements_executions config source, ?_, ?_, ?_⟩
  · have hSubset : [Stage.lex] ⊆ [.lex, .parse] := by simp
    rw [← Log.of_of hSubset, hParsed, lex_of_parse, lex_eq_items_append, lexReports_append]
    have hTake := congrArg Prod.fst (TokenStream.take_eq (TokenStream.ofText source).items
      (TokenStream.ofText source).stop extra)
    exact (List.append_nil _).trans hTake.symm
  · rw [evaluate_eq]
    exact congrArg Machine.output (Machine.run_statements config Machine.first _)
  · have hOrdered : Session.first.checker.Ordered := Checker.ordered_first
    exact Session.of_transduce config hOrdered (stage_of_parse source)
  · refine transduce_forall _ _ (fun s _ session => ?_) _
    exact List.forall_mem_singleton.mpr (session.stage_of_account config s)

end Progression
