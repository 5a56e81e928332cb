import Mathlib.Data.List.Forall2
import Progression.Expectation

/-! What verification finds out. Patterns are looked for line by line, each in the first line after that
of the pattern before it. Since an earlier line leaves more lines to the patterns that follow, this finds
lines for as many patterns as have any. The announcements that a report meets are marked in a pass over
the log; so reports are compared with the announcements as sets. -/

namespace Progression

namespace Text

theorem rest?_eq_some_iff {marker cs rest : List Char} :
    rest? marker cs = some rest ↔ cs = marker ++ rest := by
  fun_induction rest? marker cs with
  | case1 cs => simp
  | case2 m marker => simp
  | case3 m marker cs ih => simpa using ih
  | case4 m marker c cs hNe => simp [Ne.symm hNe]

theorem rest?_isSome_iff {marker cs : List Char} : (rest? marker cs).isSome ↔ marker <+: cs := by
  rw [Option.isSome_iff_exists]
  exact exists_congr fun rest => rest?_eq_some_iff.trans eq_comm

theorem occurs_iff {pattern text : List Char} : occurs pattern text ↔ pattern <:+: text := by
  induction text with
  | nil =>
      rw [occurs, afterFirst?, rest?_isSome_iff, List.prefix_nil, List.infix_nil]
  | cons c text ih =>
      rw [List.infix_cons_iff, ← rest?_isSome_iff, ← ih, occurs, afterFirst?]
      cases hHere : rest? pattern (c :: text) with
      | some rest => simp
      | none => simp [occurs]

end Text

/-- The pattern stands somewhere in the line. -/
def Shows (pattern : String) (line : List Char) : Prop := pattern.toList <:+: line

/-- There are lines that show the patterns, one for each, and each comes after the one before it. -/
def Placeable (patterns : List String) (lines : List (List Char)) : Prop :=
  ∃ positions : List (Fin lines.length), positions.Pairwise (· < ·) ∧
    List.Forall₂ (fun pattern i => Shows pattern lines[i]) patterns positions

namespace Placeable

variable {pattern : String} {patterns : List String} {line : List Char} {lines : List (List Char)}

theorem iff_sublist : Placeable patterns lines ↔
    ∃ shown, shown.Sublist lines ∧ List.Forall₂ Shows patterns shown := by
  constructor
  · rintro ⟨positions, hOrder, hShows⟩
    exact ⟨_, List.map_getElem_sublist hOrder, List.forall₂_map_right_iff.mpr hShows⟩
  · rintro ⟨shown, hSublist, hShows⟩
    obtain ⟨positions, rfl, hOrder⟩ := List.sublist_eq_map_getElem hSublist
    exact ⟨positions, hOrder, List.forall₂_map_right_iff.mp hShows⟩

theorem nil (lines : List (List Char)) : Placeable [] lines :=
  iff_sublist.mpr ⟨[], List.nil_sublist lines, .nil⟩

theorem not_nil : ¬Placeable (pattern :: patterns) [] := by
  rw [iff_sublist]
  rintro ⟨shown, hSublist, hShows⟩
  rw [List.sublist_nil.mp hSublist] at hShows
  cases hShows

/-- A further line does no harm. -/
theorem cons_line (h : Placeable patterns lines) (line : List Char) :
    Placeable patterns (line :: lines) := by
  obtain ⟨shown, hSublist, hShows⟩ := iff_sublist.mp h
  exact iff_sublist.mpr ⟨shown, hSublist.cons line, hShows⟩

theorem tail (h : Placeable (pattern :: patterns) lines) : Placeable patterns lines := by
  obtain ⟨shown, hSublist, hShows⟩ := iff_sublist.mp h
  cases hShows with
  | cons _ hRest => exact iff_sublist.mpr ⟨_, (List.sublist_cons_self _ _).trans hSublist, hRest⟩

theorem of_append {others : List String} (h : Placeable (patterns ++ others) lines) :
    Placeable patterns lines := by
  obtain ⟨shown, hSublist, hShows⟩ := iff_sublist.mp h
  have hFirst := List.forall₂_take patterns.length hShows
  rw [List.take_left] at hFirst
  exact iff_sublist.mpr ⟨_, (List.take_sublist _ _).trans hSublist, hFirst⟩

/-- The first pattern is placed on the first line or further on. -/
theorem cons_iff : Placeable (pattern :: patterns) (line :: lines) ↔
    Shows pattern line ∧ Placeable patterns lines ∨ Placeable (pattern :: patterns) lines := by
  constructor
  · intro h
    obtain ⟨shown, hSublist, hShows⟩ := iff_sublist.mp h
    cases hSublist with
    | cons _ hLater => exact .inr (iff_sublist.mpr ⟨_, hLater, hShows⟩)
    | cons_cons _ hLater =>
        cases hShows with
        | cons hHere hRest => exact .inl ⟨hHere, iff_sublist.mpr ⟨_, hLater, hRest⟩⟩
  · rintro (⟨hHere, hRest⟩ | hLater)
    · obtain ⟨shown, hSublist, hShows⟩ := iff_sublist.mp hRest
      exact iff_sublist.mpr ⟨_, hSublist.cons_cons line, .cons hHere hShows⟩
    · exact hLater.cons_line line

/-- If the first line shows the first pattern, it can as well be placed there. -/
theorem cons_iff_of_shows (h : Shows pattern line) :
    Placeable (pattern :: patterns) (line :: lines) ↔ Placeable patterns lines := by
  rw [cons_iff]
  constructor
  · rintro (⟨-, hRest⟩ | hLater)
    · exact hRest
    · exact hLater.tail
  · exact fun hRest => .inl ⟨h, hRest⟩

theorem cons_iff_of_not_shows (h : ¬Shows pattern line) :
    Placeable (pattern :: patterns) (line :: lines) ↔ Placeable (pattern :: patterns) lines := by
  simp [cons_iff, h]

end Placeable

namespace Verifier

/-- The patterns that are left after all lines are those after a first part that can be placed, and the
first of them cannot be placed in addition. -/
theorem foldl_takeLine (patterns : List String) (lines : List (List Char)) :
    ∃ found, patterns = found ++ lines.foldl takeLine patterns ∧ Placeable found lines ∧
      ∀ pattern ∈ (lines.foldl takeLine patterns).head?, ¬Placeable (found ++ [pattern]) lines := by
  induction lines generalizing patterns with
  | nil => exact ⟨[], rfl, .nil [], fun pattern _ => Placeable.not_nil⟩
  | cons line lines ih =>
      cases patterns with
      | nil =>
          obtain ⟨found, hSplit, hFound, hNext⟩ := ih []
          obtain ⟨rfl, hLeft⟩ := List.append_eq_nil_iff.mp hSplit.symm
          exact ⟨[], hSplit, .nil _, by simp [takeLine, hLeft]⟩
      | cons pattern patterns =>
          rw [List.foldl_cons, takeLine]
          by_cases hShows : Shows pattern line
          · rw [if_pos (Text.occurs_iff.mpr hShows)]
            obtain ⟨found, hSplit, hFound, hNext⟩ := ih patterns
            refine ⟨pattern :: found, congrArg (pattern :: ·) hSplit,
              (Placeable.cons_iff_of_shows hShows).mpr hFound, fun next hMem => ?_⟩
            rw [List.cons_append, Placeable.cons_iff_of_shows hShows]
            exact hNext next hMem
          · rw [if_neg (Text.occurs_iff.not.mpr hShows)]
            obtain ⟨found, hSplit, hFound, hNext⟩ := ih (pattern :: patterns)
            refine ⟨found, hSplit, hFound.cons_line line, fun next hMem => ?_⟩
            -- Whatever is placed begins with the pattern that the line does not show.
            obtain ⟨others, hFirst⟩ : ∃ others, found ++ [next] = pattern :: others := by
              obtain ⟨rest, hLeft⟩ := List.head?_eq_some_iff.mp hMem
              rw [hLeft] at hSplit
              cases found with
              | nil => exact ⟨[], by rw [(List.cons.inj hSplit).1]; rfl⟩
              | cons first found => exact ⟨found ++ [next], by rw [(List.cons.inj hSplit).1]; rfl⟩
            rw [hFirst, Placeable.cons_iff_of_not_shows hShows, ← hFirst]
            exact hNext next hMem

/-- A pattern is left just if not all of them can be placed. -/
theorem head?_foldl_takeLine (patterns : List String) (lines : List (List Char)) :
    (lines.foldl takeLine patterns).head? = none ↔ Placeable patterns lines := by
  obtain ⟨found, hSplit, hFound, hNext⟩ := foldl_takeLine patterns lines
  cases hLeft : lines.foldl takeLine patterns with
  | nil =>
      rw [hLeft, List.append_nil] at hSplit
      simpa [hSplit] using hFound
  | cons pattern rest =>
      have hRefused : ¬Placeable patterns lines := by
        intro hAll
        rw [hSplit, hLeft, List.append_cons] at hAll
        exact hNext pattern (by simp [hLeft]) hAll.of_append
      simpa using hRefused

end Verifier

/-- What an announcement of the diagnostic says. -/
def Diagnostic.announcement (d : Diagnostic) : Expectation := ⟨d.span.start, d.message⟩

namespace Expectation

theorem isMetBy_iff {expectation : Expectation} {d : Diagnostic} :
    expectation.isMetBy d ↔ expectation = d.announcement := by
  obtain ⟨location, message⟩ := expectation
  simp [isMetBy, Diagnostic.announcement]

theorem any_isMetBy (expected : List Expectation) (d : Diagnostic) :
    expected.any (·.isMetBy d) = decide (d.announcement ∈ expected) := by
  rw [Bool.eq_iff_iff]
  simp [isMetBy_iff]

theorem any_log (expectation : Expectation) (log : Log) :
    log.any expectation.isMetBy = decide (expectation ∈ log.map Diagnostic.announcement) := by
  rw [Bool.eq_iff_iff]
  simp [isMetBy_iff, eq_comm (a := expectation)]

end Expectation

namespace Verifier

theorem mark_eq (d : Diagnostic) (entries : List Entry) :
    mark d entries =
      (entries.map fun entry => ⟨entry.expectation, entry.seen || entry.expectation.isMetBy d⟩,
        entries.any fun entry => entry.expectation.isMetBy d) := by
  induction entries with
  | nil => rfl
  | cons entry entries ih =>
      rw [mark, ih]
      by_cases hMet : entry.expectation.isMetBy d = true
      · simp [hMet]
      · simp [hMet]

/-- After a run an announcement has been seen if it was before or if a report met it. -/
theorem transduce_compare (entries : List Entry) (log : Log) :
    transduce compare entries log =
      ((log.filter fun d => !entries.any fun entry => entry.expectation.isMetBy d).map
          fun d => .unexpectedError d.span.start d.message,
        entries.map fun entry =>
          ⟨entry.expectation, entry.seen || log.any entry.expectation.isMetBy⟩) := by
  induction log generalizing entries with
  | nil => simp
  | cons d log ih =>
      -- Marking leaves the expectations as they are, so later reports are compared with the same ones.
      rw [transduce_cons, compare, mark_eq]
      dsimp only
      rw [ih]
      simp only [List.any_map, List.map_map, Function.comp_def, List.any_cons, Bool.or_assoc,
        List.filter_cons]
      cases entries.any fun entry => entry.expectation.isMetBy d with
      | true => rfl
      | false => rfl

end Verifier

/-- Verification gives the first pattern left, and the reports and announcements that have no
counterpart. -/
theorem Verifier.verify_eq (verifier : Verifier) (output : String) (log : Log) :
    verifier.verify output log =
      (((Text.lines output).foldl takeLine verifier.patterns).head?.map .patternNotFound).toList ++
        ((log.map Diagnostic.announcement).filter (· ∉ verifier.expected)).map
          (fun e => .unexpectedError e.location e.message) ++
        (verifier.expected.filter (· ∉ log.map Diagnostic.announcement)).map
          fun e => .missingError e.location e.message := by
  simp only [verify, transduce_compare, List.any_map, List.map_map, List.filter_map,
    Function.comp_def, Bool.false_or, Expectation.any_isMetBy, Expectation.any_log, decide_not]
  rfl

/-- Verification is exact. It finds no difference just if the patterns can be placed on lines of the
output, in order and on a line each, and the reports of the run are those that were announced. Otherwise
it gives the first pattern that cannot be placed together with those before it, if there is one, then every
report that was not announced, in the order of the reports, and then every announcement without a report,
in ascending order. -/
theorem verification_exact (verifier : Verifier) (output : String) (log : Log) :
    (verifier.verify output log = [] ↔ Placeable verifier.patterns (Text.lines output) ∧
      ∀ e, e ∈ log.map Diagnostic.announcement ↔ e ∈ verifier.expected) ∧
    ∃ (notFound : Option String) (unexpected missing : List Expectation),
      verifier.verify output log = (notFound.map .patternNotFound).toList ++
        unexpected.map (fun e => .unexpectedError e.location e.message) ++
        missing.map (fun e => .missingError e.location e.message) ∧
      (notFound = none ↔ Placeable verifier.patterns (Text.lines output)) ∧
      (∀ pattern ∈ notFound, ∃ found rest, verifier.patterns = found ++ pattern :: rest ∧
        Placeable found (Text.lines output) ∧
          ¬Placeable (found ++ [pattern]) (Text.lines output)) ∧
      unexpected = (log.map Diagnostic.announcement).filter (· ∉ verifier.expected) ∧
      missing.Pairwise (fun a b => a.precedes b) ∧
      ∀ e, e ∈ missing ↔ e ∈ verifier.expected ∧ e ∉ log.map Diagnostic.announcement := by
  have hPlaced := Verifier.head?_foldl_takeLine verifier.patterns (Text.lines output)
  refine ⟨?_, _, _, _, verifier.verify_eq output log, hPlaced, fun pattern hMem => ?_, rfl,
    verifier.ascending.filter _, fun e => by simp⟩
  · rw [← hPlaced, verifier.verify_eq]
    simp only [List.append_eq_nil_iff, List.map_eq_nil_iff, Option.toList_eq_nil_iff,
      Option.map_eq_none_iff, List.filter_eq_nil_iff, decide_eq_true_eq, not_not, and_assoc]
    exact and_congr_right fun _ => ⟨fun h e => ⟨h.1 e, h.2 e⟩,
      fun h => ⟨fun e => (h e).mp, fun e => (h e).mpr⟩⟩
  · obtain ⟨found, hSplit, hFound, hNext⟩ :=
      Verifier.foldl_takeLine verifier.patterns (Text.lines output)
    obtain ⟨rest, hLeft⟩ := List.head?_eq_some_iff.mp hMem
    exact ⟨found, rest, hLeft ▸ hSplit, hFound, hNext pattern hMem⟩

end Progression
