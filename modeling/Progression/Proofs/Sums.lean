import Progression.Proofs.Folds

/-! Sums of integers. A `reduce` that adds the elements of a sequence to its base checks every partial
sum, and the partial sums that occur depend on the number of workers. Whatever they are, the result is
the exact sum or the overflow is reported. -/

namespace Progression

/-- All reports are about a sum that does not fit, and they are not more than the given number. -/
structure Overflows (span : Span) (most : Nat) (reports : Log) : Prop where
  all : ∀ d ∈ reports, d = ⟨.runtime (.overflow .add), span, none⟩
  length_le : reports.length ≤ most

theorem Overflows.append {span : Span} {m n : Nat} {first second : Log}
    (hFirst : Overflows span m first) (hSecond : Overflows span n second) :
    Overflows span (m + n) (first ++ second) := by
  constructor
  · exact List.forall_mem_append.mpr ⟨hFirst.all, hSecond.all⟩
  · rw [List.length_append]
    exact Nat.add_le_add hFirst.length_le hSecond.length_le

/-- The answer is the exact total and nothing is reported, or it is the error value and overflows are
reported, at least one and not more than the given number. -/
inductive Tally (span : Span) (total : Int) (most : Nat) : Answer → Prop where
  | exact {sum : Int64} (hSum : sum.toInt = total) : Tally span total most ⟨.int sum, []⟩
  | reported {reports : Log} (hReported : reports ≠ []) (hOverflows : Overflows span most reports) :
      Tally span total most ⟨.error, reports⟩

namespace Tally

variable {span : Span} {total : Int} {most : Nat}

theorem overflows {answer : Answer} (h : Tally span total most answer) :
    Overflows span most answer.reports := by
  cases h with
  | exact => exact ⟨by simp, Nat.zero_le most⟩
  | reported _ hOverflows => exact hOverflows

theorem succ {answer : Answer} (h : Tally span total most answer) :
    Tally span total (most + 1) answer := by
  cases h with
  | exact hSum => exact .exact hSum
  | reported hReported hOverflows =>
      exact .reported hReported ⟨hOverflows.all, Nat.le_succ_of_le hOverflows.length_le⟩

theorem toInt_eq {answer : Answer} (h : Tally span total most answer) {sum : Int64}
    (hValue : answer.value = .int sum) : sum.toInt = total := by
  cases h with
  | exact hSum =>
      cases hValue
      exact hSum
  | reported => cases hValue

/-- Two words are added exactly, or the overflow is reported. -/
theorem operate (span : Span) (x y : Int64) :
    Tally span (x.toInt + y.toInt) 1 (Sequential.operate span .add (.int x) (.int y)) := by
  cases hAdd : Integer.add? x y with
  | some sum =>
      have hSum := Integer.fit?_eq_some_iff.mp hAdd
      rw [Sequential.operate_add span hSum]
      exact .exact hSum
  | none =>
      have hFailure : Sequential.operate span .add (.int x) (.int y) =
          .failure (.overflow .add) span := by
        simp [Sequential.operate, Operator.apply, Operator.onInts, Operator.exactly, hAdd]
      rw [hFailure]
      exact .reported (List.cons_ne_nil _ _) ⟨by simp, Nat.le_refl 1⟩

/-- Words are added one after the other, up to the first overflow. -/
theorem foldLeft (span : Span) (start : Int64) (words : List Int64) :
    Tally span (start.toInt + (words.map Int64.toInt).sum) 1
      (Sequential.foldLeft (Sequential.operate span .add) (.int start) (words.map .int)) := by
  induction words generalizing start with
  | nil => exact .exact (by simp)
  | cons word words ih =>
      have hStep := operate span start word
      rw [List.map_cons, List.map_cons, List.sum_cons, ← Int.add_assoc, Sequential.foldLeft,
        if_neg (by simp [Value.isError])]
      generalize Sequential.operate span .add (.int start) (.int word) = next at hStep ⊢
      cases hStep with
      | @exact sum hSum =>
          rw [← hSum]
          exact ih sum
      | reported hReported hOverflows =>
          simp only [Sequential.foldLeft_error, Answer.after, List.append_nil]
          exact .reported hReported hOverflows

theorem foldSlice (span : Span) {block : List Int64} (hBlock : block ≠ []) :
    Tally span (block.map Int64.toInt).sum 1
      (Named.foldSlice (Sequential.operate span .add) (block.map .int)) := by
  obtain ⟨first, rest, rfl⟩ := List.exists_cons_of_ne_nil hBlock
  exact foldLeft span first rest

/-- Each slice reports one overflow at most. -/
theorem overflows_slices (span : Span) {blocks : List (List Int64)}
    (hBlocks : ∀ block ∈ blocks, block ≠ []) :
    Overflows span blocks.length (blocks.flatMap fun block =>
      (Named.foldSlice (Sequential.operate span .add) (block.map .int)).reports) := by
  induction blocks with
  | nil => exact ⟨by simp, Nat.le_refl 0⟩
  | cons block blocks ih =>
      obtain ⟨hBlock, hRest⟩ := List.forall_mem_cons.mp hBlocks
      rw [List.flatMap_cons, List.length_cons, Nat.add_comm]
      exact (foldSlice span hBlock).overflows.append (ih hRest)

/-- The sums of the slices are added to the base one after the other. If a slice has failed, its
overflow has been reported and the total is not looked at; and if the total fails, that is one report
more. -/
theorem foldSlices (span : Span) (start : Int64) {blocks : List (List Int64)}
    (hBlocks : ∀ block ∈ blocks, block ≠ []) :
    Tally span (start.toInt + (blocks.flatten.map Int64.toInt).sum) (blocks.length + 1)
      ((Sequential.foldLeft (Sequential.operate span .add) (.int start) (blocks.map fun block =>
        (Named.foldSlice (Sequential.operate span .add) (block.map .int)).value)).after
          (blocks.flatMap fun block =>
            (Named.foldSlice (Sequential.operate span .add) (block.map .int)).reports)) := by
  -- All slices have been folded before the first of their sums is added, so the reports of the
  -- remaining slices stand in the log even if this addition fails.
  induction blocks generalizing start with
  | nil => exact .exact (by simp)
  | cons block blocks ih =>
      obtain ⟨hBlock, hRest⟩ := List.forall_mem_cons.mp hBlocks
      have hSlice := foldSlice span hBlock
      have hReports := overflows_slices span hRest
      rw [List.map_cons, List.flatMap_cons, List.flatten_cons, List.map_append, List.sum_append,
        ← Int.add_assoc]
      generalize Named.foldSlice (Sequential.operate span .add) (block.map .int) = part
        at hSlice ⊢
      cases hSlice with
      | @exact sum hSum =>
          have hStep := operate span start sum
          rw [Sequential.foldLeft, if_neg (by simp [Value.isError]), ← hSum]
          generalize Sequential.operate span .add (.int start) (.int sum) = next at hStep ⊢
          cases hStep with
          | @exact total hTotal =>
              rw [← hTotal]
              exact (ih total hRest).succ
          | reported hReported hOverflows =>
              simp only [Sequential.foldLeft_error, Answer.after, List.append_nil, List.nil_append]
              exact succ (.reported (List.append_ne_nil_of_right_ne_nil _ hReported)
                (hReports.append hOverflows))
      | reported hReported hOverflows =>
          have hTogether := hOverflows.append hReports
          rw [Nat.add_comm] at hTogether
          rw [Sequential.foldLeft, if_pos (by simp [Value.isError])]
          simp only [Answer.after, List.append_nil]
          exact succ (.reported (List.append_ne_nil_of_left_ne_nil hReported _) hTogether)

end Tally

/-- A `reduce` with the body `x + y`, checked or not, folds by addition. Its variables are looked up
right after they have been bound. -/
theorem Expr.answer_reduce_addition {a e : Nat} (hDistinct : a ≠ e) (mark left right : Mark)
    (x y : String) (config : Config) (start : Value) (elements : List Value)
    (bindings : Bindings) :
    (Eval.reduce config a e ((addition mark left right x y a e).eval config) start elements
      bindings).answer =
      Named.reduce config.workers (Sequential.operate mark.span .add) start elements := by
  have hBody (v w : Value) : Means (Function.update (Function.update (fun _ => none) a
      (some .number)) e (some .number)) ((Scope.empty.enter.declare "a" a).declare "e" e)
      (Function.update (Function.update (fun _ => none) "a" (some v)) "e" (some w))
      ((addition mark left right x y a e).eval config)
      (Sequential.operate mark.span .add v w) := by
    intro inner hShows
    have hAccumulator := hShows "a" a (by simp [Scope.lookup_declare])
    have hElement := hShows "e" e (by simp [Scope.lookup_declare])
    rw [eval_addition mark left right x y config hAccumulator hElement]
    exact ⟨rfl, rfl, Kept.refl _ _⟩
  have hNothing (name : String) (id : Nat) : Scope.empty.lookup name ≠ some id := by
    simp [Scope.empty, Scope.lookup]
  have hCover : Types.Cover (fun _ => none) Scope.empty := by
    intro name id hLookup
    exact absurd hLookup (hNothing name id)
  have hShows : Scope.empty.Shows bindings fun _ => none := by
    intro name id hLookup
    exact absurd hLookup (hNothing name id)
  exact (Means.reduce hCover rfl rfl hDistinct hBody start elements bindings hShows).answer_eq

theorem Expr.Feeds.tally {config : Config} {sequence base : Expr} {bindings : Bindings} {b : Int64}
    {words : List Int64} (h : Feeds config sequence base bindings (.int b) (words.map .int))
    {a e : Nat} (hDistinct : a ≠ e) (mark bodyMark left right : Mark)
    (accumulator element : Binding) (x y : String) :
    Tally bodyMark.span (b.toInt + (words.map Int64.toInt).sum)
      ((slices words.length config.workers).length + 1)
      ((Expr.reduce mark sequence base (accumulator.resolved a) (element.resolved e)
        (.addition bodyMark left right x y a e)).eval config bindings).answer := by
  obtain ⟨blocks, hFlatten, hBlocks, hLength, hReduce⟩ :=
    Named.exists_reduce Value.int words config.workers_pos
  rw [h.eval_reduce (by simp), answer_reduce_addition hDistinct, hReduce, ← hLength, ← hFlatten]
  exact Tally.foldSlices bodyMark.span b hBlocks

/-- Sums of integers are exact or reported. With the body `x + y`, checked or not, and any number of
workers, a `reduce` over words gives the word that is the exact sum of the base and all elements, and
reports nothing; or it fails, and reports overflows of this addition and nothing else, one for each
slice at most and one more. Therefore two numbers of workers never give different words. -/
theorem sum_exact_or_reported {fold sequence base : Expr} {mark bodyMark left right : Mark}
    {accumulator element : Binding} {x y : String} {a e : Nat} (hDistinct : a ≠ e)
    (hFold : fold = .reduce mark sequence base (accumulator.resolved a) (element.resolved e)
      (.addition bodyMark left right x y a e))
    {config : Config} {bindings : Bindings} {b : Int64} {words : List Int64}
    (hFeeds : Expr.Feeds config sequence base bindings (.int b) (words.map .int)) :
    Tally bodyMark.span (b.toInt + (words.map Int64.toInt).sum)
      ((slices words.length config.workers).length + 1) (fold.eval config bindings).answer ∧
    ∀ other : Config, Expr.Feeds other sequence base bindings (.int b) (words.map .int) →
      ∀ sum total : Int64, (fold.eval config bindings).value = .int sum →
        (fold.eval other bindings).value = .int total → sum = total := by
  subst hFold
  have hTally := hFeeds.tally hDistinct mark bodyMark left right accumulator element x y
  refine ⟨hTally, ?_⟩
  intro other hOther sum total hSum hTotal
  have hTallyOther := hOther.tally hDistinct mark bodyMark left right accumulator element x y
  have hSame : sum.toInt = total.toInt :=
    (hTally.toInt_eq hSum).trans (hTallyOther.toInt_eq hTotal).symm
  exact Int64.toInt_inj.mp hSame

/-- The largest word and one are added to minus one. A single worker adds these two first, which is
reported as an overflow; with more workers nothing overflows. -/
theorem sum_exact_or_reported_grouping :
    ∃ (span : Span) (fold : Expr) (bindings : Bindings),
      fold = .reduce ⟨span, none⟩ (.ref ⟨span, none⟩ "s" (some 2)) (.int ⟨span, none⟩ (-1))
        (Binding.resolved ⟨"x", span, none⟩ 0) (Binding.resolved ⟨"y", span, none⟩ 1)
        (.addition ⟨span, none⟩ ⟨span, none⟩ ⟨span, none⟩ "x" "y" 0 1) ∧
      bindings.lookup 2 = some (.sequence ([Int64.maxValue, 1].map .int)) ∧
      (fold.eval (Config.ofWorkers 1) bindings).value = .error ∧
      (fold.eval (Config.ofWorkers 2) bindings).value = .int Int64.maxValue ∧
      Tally span 9223372036854775807 2 (fold.eval (Config.ofWorkers 1) bindings).answer ∧
      Tally span 9223372036854775807 3 (fold.eval (Config.ofWorkers 2) bindings).answer ∧
      ∀ sum total : Int64, (fold.eval (Config.ofWorkers 2) bindings).value = .int sum →
        (fold.eval (Config.ofWorkers 3) bindings).value = .int total → sum = total := by
  refine ⟨⟨⟨1, 1⟩, ⟨1, 33⟩⟩, _, Bindings.empty.bind 2 (.sequence ([Int64.maxValue, 1].map .int)), rfl,
    rfl, rfl, rfl, ?_⟩
  generalize hFold : Expr.reduce _ _ _ _ _ _ = fold
  have hFeeds (config : Config) : Expr.Feeds config (.ref ⟨⟨⟨1, 1⟩, ⟨1, 33⟩⟩, none⟩ "s" (some 2))
      (.int ⟨⟨⟨1, 1⟩, ⟨1, 33⟩⟩, none⟩ (-1))
      (Bindings.empty.bind 2 (.sequence ([Int64.maxValue, 1].map .int))) (.int (-1))
      ([Int64.maxValue, 1].map .int) := ⟨rfl, rfl⟩
  have hSums (config : Config) :=
    sum_exact_or_reported Nat.zero_ne_one hFold.symm (hFeeds config)
  have hTotal : (-1 : Int64).toInt + ([Int64.maxValue, 1].map Int64.toInt).sum =
      9223372036854775807 := by decide
  rw [hTotal] at hSums
  exact ⟨(hSums (Config.ofWorkers 1)).1, (hSums (Config.ofWorkers 2)).1,
    (hSums (Config.ofWorkers 2)).2 (Config.ofWorkers 3) (hFeeds _)⟩

end Progression
