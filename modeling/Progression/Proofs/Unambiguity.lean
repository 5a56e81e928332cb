import Progression.Proofs.Extents
import Progression.Proofs.Outlines
import Progression.Proofs.Resolution

/-! The outline of a program is unambiguous. The names of a program are made of letters, digits and
underscores and its floats are numbers, since this is how the lexer cuts out names and how literals are
rounded, and the checker changes neither. So outlines can be told apart. -/

namespace Progression

open Lexer Outline

/-! ### Names -/

/-- The characters of a name are those that a name can go on with. -/
def Token.Named : Token → Prop
  | identifier name => ∀ c ∈ name.toList, continuesName c = true
  | _ => True

/-- What has been read of a name can go on. -/
def Mode.Naming : Mode → Prop
  | name _ read => ∀ c ∈ read, continuesName c = true
  | _ => True

theorem forms_named : Forms Token.Named Mode.Naming where
  other token h := by
    cases token with
    | identifier => cases h
    | _ => trivial
  pause mode h := by
    cases mode with
    | name => cases h
    | _ => trivial
  name_first _ h := by
    refine List.forall_mem_singleton.mpr ?_
    simp only [beginsName, Bool.or_eq_true] at h
    rcases h with hLetter | hUnderscore
    · simp [continuesName, Char.isAlphanum, hLetter]
    · simp [continuesName, hUnderscore]
  name_next hName h := List.forall_mem_cons.mpr ⟨hName, h⟩
  name_close h := by simpa [Token.Named, Mode.Naming] using h
  number_first _ _ _ := trivial
  number_digit _ _ := trivial
  number_dot _ := trivial
  number_close _ _ := by
    rw [Mode.numberLexed]
    split
    · simp [Token.Named]
    split <;> simp [Token.Named]

/-- The lexer writes every name with the characters of one. -/
theorem lex_named (source : String) : ∀ x ∈ lexemes (lex source), x.token.Named :=
  forms_named.lex source

theorem plain_of_named {name : String} (h : (Token.identifier name).Named) : Plain name := by
  apply plain_of h
  intro c hc
  rcases eq_of_not_isPlain hc with rfl | rfl | rfl <;> rfl

/-! ### What can be printed -/

/-- The names of the node are words, and its floats are numbers. -/
def Node.Printable : Node → Prop
  | statement s => s.Printable
  | expr e => e.Printable
  | binding b => Plain b.name

theorem Numeral.Denotes.printable {n : Numeral} {mark : Mark} {e : Expr} (h : n.Denotes mark e) :
    e.Printable := by
  cases h with
  | int => trivial
  | float => exact Decimal.isNumber_nearest _ _ _

theorem Node.MadeOf.printable {node : Node} {xs : List Lexeme} (h : node.MadeOf xs)
    (hNamed : ∀ x ∈ xs, x.token.Named) : node.Printable := by
  induction h with
  | binding name a | ref name a => exact plain_of_named (hNamed _ List.mem_cons_self)
  | literal hDenotes | negated hDenotes => exact hDenotes.printable
  | print => trivial
  | paren a b _ ih => exact ih fun x hx => hNamed x (by simp [hx])
  | out a _ ih => exact ih fun x hx => hNamed x (by simp [hx])
  | joined op a _ _ ihLeft ihRight =>
      exact ⟨ihLeft fun x hx => hNamed x (by simp [hx]), ihRight fun x hx => hNamed x (by simp [hx])⟩
  | range a b c _ _ ihLower ihUpper =>
      exact ⟨ihLower fun x hx => hNamed x (by simp [hx]), ihUpper fun x hx => hNamed x (by simp [hx])⟩
  | assign a b _ _ ihTarget ihValue =>
      exact ⟨ihTarget fun x hx => hNamed x (by simp [hx]), ihValue fun x hx => hNamed x (by simp [hx])⟩
  | map a b c d e _ _ _ ihArgument ihParam ihBody =>
      exact ⟨ihArgument fun x hx => hNamed x (by simp [hx]),
        ihParam fun x hx => hNamed x (by simp [hx]), ihBody fun x hx => hNamed x (by simp [hx])⟩
  | reduce a b c d e f _ _ _ _ _ ihSequence ihBase ihAccumulator ihElement ihBody =>
      exact ⟨ihSequence fun x hx => hNamed x (by simp [hx]), ihBase fun x hx => hNamed x (by simp [hx]),
        ihAccumulator fun x hx => hNamed x (by simp [hx]),
        ihElement fun x hx => hNamed x (by simp [hx]), ihBody fun x hx => hNamed x (by simp [hx])⟩

/-- What the parser hands over can be printed. -/
theorem printable_of_parse {source : String} {s : Statement} (hs : s ∈ statements (parse source)) :
    s.Printable := by
  obtain ⟨a, ha, -, hMade⟩ := exists_madeOf_taken hs
  exact hMade.printable fun x hx =>
    lex_named source x (attempts_subset ha (List.mem_append_left _ hx))

theorem Expr.Passed.printable {scope : Scope} {declared final : Array Variable} {e checked : Expr}
    {type : Ty} (h : Passed scope declared e type checked final) (he : e.Printable) :
    checked.Printable := by
  induction h with
  | int => trivial
  | float | ref => exact he
  | paren _ ih => exact ih he
  | binary _ _ ihLeft ihRight => exact ⟨ihLeft he.1, ihRight he.2⟩
  | range _ _ ihLower ihUpper => exact ⟨ihLower he.1, ihUpper he.2⟩
  | map _ _ ihArgument ihBody => exact ⟨ihArgument he.1, he.2.1, ihBody he.2.2⟩
  | reduce _ _ _ _ ihBase ihSequence ihBody =>
      exact ⟨ihSequence he.1, ihBase he.2.1, he.2.2.1, he.2.2.2.1, ihBody he.2.2.2.2⟩

open Check in
theorem Checker.printable_of_accepts {s checked : Statement} {globals after : Scope}
    {declared final : Array Variable} (hs : s.Printable)
    (h : (checkStatement globals s).Accepts declared (checked, after) final) : checked.Printable := by
  cases s with
  | assign span target value =>
      obtain ⟨⟨type, e⟩, middle, hValue, hRest⟩ := accepts_bind.mp h
      dsimp only at hRest
      split at hRest
      · exact absurd hRest not_accepts_reject
      · obtain ⟨id, last, -, hEnd⟩ := accepts_bind.mp hRest
        obtain ⟨hPair, rfl⟩ := accepts_pure.mp hEnd
        cases hPair
        exact ⟨hs.1, (Expr.passed_of_accepts hValue).printable hs.2⟩
  | out span value =>
      obtain ⟨⟨type, e⟩, middle, hValue, hEnd⟩ := accepts_bind.mp h
      obtain ⟨hPair, rfl⟩ := accepts_pure.mp hEnd
      cases hPair
      exact (Expr.passed_of_accepts hValue).printable hs
  | print span text =>
      obtain ⟨hPair, rfl⟩ := accepts_pure.mp h
      cases hPair
      trivial

theorem Checker.printable_of_step {checker : Checker} {event : Event} {s : Statement}
    (hEvent : ∀ t, event = .statement t → t.Printable)
    (h : .statement s ∈ (checker.step event).1) : s.Printable := by
  cases event with
  | report d => simp [step] at h
  | statement t =>
      simp only [step] at h
      cases hResult : (checkStatement checker.globals t checker.declared).result with
      | none => simp [hResult] at h
      | some pair =>
          obtain ⟨checked, globals⟩ := pair
          simp [hResult] at h
          subst h
          exact printable_of_accepts (hEvent t rfl) ⟨hResult, rfl⟩

/-- What the checker hands on can be printed. -/
theorem printable_of_forwarded {sources : List String} {s : Statement} (hs : s ∈ forwarded sources) :
    s.Printable := by
  have hEvents : ∀ event ∈ sources.flatMap parse, ∀ t, event = .statement t → t.Printable := by
    rintro event hEvent t rfl
    obtain ⟨source, -, hParsed⟩ := List.mem_flatMap.mp hEvent
    exact printable_of_parse (List.mem_filterMap.mpr ⟨_, hParsed, rfl⟩)
  have hAll : ∀ event ∈ (Checker.first.run (sources.flatMap parse)).1,
      ∀ t, event = .statement t → t.Printable := by
    apply transduce_forall
    rintro event hEvent checker written hWritten t rfl
    exact Checker.printable_of_step (hEvents event hEvent) hWritten
  obtain ⟨event, hEvent, hStatement⟩ := List.mem_filterMap.mp hs
  cases event with
  | report d => cases hStatement
  | statement t =>
      cases hStatement
      exact hAll _ hEvent s rfl

/-- The statement is one that the parser hands over or that the checker hands on. -/
inductive Statement.Produced : Statement → Prop where
  | parsed {source : String} {s : Statement} (h : s ∈ statements (parse source)) : Produced s
  | forwarded {sources : List String} {s : Statement} (h : s ∈ forwarded sources) : Produced s

theorem Statement.Produced.printable {s : Statement} (h : s.Produced) : s.Printable := by
  cases h with
  | parsed h => exact printable_of_parse h
  | forwarded h => exact printable_of_forwarded h

/-! ### Outlines -/

/-- Outlines show neither places nor variables. -/
theorem Expr.outline_bare_anonymous (e : Expr) (depth : Nat) :
    e.bare.anonymous.outline depth = e.outline depth := by
  have hTyped (header : String) (mark : Mark) : typed header mark.bare = typed header mark := rfl
  induction e generalizing depth with
  | int | float | ref => rfl
  | binary _ _ _ _ ihLeft ihRight => simp only [bare, anonymous, outline, hTyped, ihLeft, ihRight]
  | paren _ _ ih => simp only [bare, anonymous, outline, hTyped, ih]
  | range _ _ _ ihLower ihUpper => simp only [bare, anonymous, outline, hTyped, ihLower, ihUpper]
  | map _ _ _ _ ihArgument ihBody =>
      simp only [bare, anonymous, outline, hTyped, ihArgument, ihBody, Binding.bare, Binding.anonymous]
  | reduce _ _ _ _ _ _ ihSequence ihBase ihBody =>
      simp only [bare, anonymous, outline, hTyped, ihSequence, ihBase, ihBody, Binding.bare,
        Binding.anonymous]

theorem Statement.outline_bare_anonymous (s : Statement) : s.bare.anonymous.outline = s.outline := by
  cases s <;> simp only [bare, anonymous, outline, Expr.outline_bare_anonymous, Binding.bare,
    Binding.anonymous]

/-- Outlines are unambiguous. Two lists of statements as the parser hands them over, or as the checker
hands them on, have the same outline exactly if they are the same up to places and variables. -/
theorem outlines_unambiguous (one two : List Statement) (hOne : ∀ s ∈ one, s.Produced)
    (hTwo : ∀ s ∈ two, s.Produced) :
    outline one = outline two ↔
      one.map (fun s => s.bare.anonymous) = two.map fun s => s.bare.anonymous := by
  constructor
  · exact outline_inj (fun s hs => (hOne s hs).printable) fun s hs => (hTwo s hs).printable
  · intro h
    have hLines (statements : List Statement) : statements.flatMap Statement.outline =
        (statements.map fun s => s.bare.anonymous).flatMap Statement.outline := by
      simp only [List.flatMap_map, Statement.outline_bare_anonymous]
    rw [outline, outline, hLines one, hLines two, h]

/-- The second program is laid out in another way, writes a number in another way and begins with a
statement that is rejected after it has declared a variable. -/
theorem outlines_unambiguous_layout :
    ∃ one two : List Statement, one = forwarded ["var x = 0.1 out map({1, 2}, y -> y * x)"] ∧
      two = forwarded ["out map({1, 2}, z -> q)", "var x = .10\nout map({1,2}, y->y*x)"] ∧
      one ≠ two ∧ outline one = outline two ∧
      one.map (fun s => s.bare.anonymous) = two.map fun s => s.bare.anonymous := by
  have hDiffer : forwarded ["var x = 0.1 out map({1, 2}, y -> y * x)"] ≠
      forwarded ["out map({1, 2}, z -> q)", "var x = .10\nout map({1,2}, y->y*x)"] := by
    decide +kernel
  have hOutline : outline (forwarded ["var x = 0.1 out map({1, 2}, y -> y * x)"]) =
      outline (forwarded ["out map({1, 2}, z -> q)", "var x = .10\nout map({1,2}, y->y*x)"]) := by
    decide +kernel
  exact ⟨_, _, rfl, rfl, hDiffer, hOutline,
    (outlines_unambiguous _ _ (fun _ hs => .forwarded hs) fun _ hs => .forwarded hs).mp hOutline⟩

end Progression
