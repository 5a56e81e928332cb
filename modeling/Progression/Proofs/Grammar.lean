import Progression.Proofs.Numerals

/-! The grammar of programs. A derivation says which lexemes a tree is written with, and leaves open
how operators group; an admissible tree groups them by precedence, and to the left where it is
equal. Trees are compared without their spans. -/

namespace Progression

/-- The mark of an unchecked expression whose place does not matter. -/
def Mark.plain : Mark := ⟨.point .first, none⟩

/-- A name that was not yet declared and whose place does not matter. -/
def Binding.plain (name : String) : Binding := ⟨name, .point .first, none⟩

def Mark.bare (mark : Mark) : Mark := { mark with span := .point .first }

def Binding.bare (binding : Binding) : Binding := { binding with span := .point .first }

/-- The expression with all its spans made the same. -/
def Expr.bare : Expr → Expr
  | int mark value => int mark.bare value
  | float mark value => float mark.bare value
  | ref mark name target => ref mark.bare name target
  | binary mark op left right => binary mark.bare op left.bare right.bare
  | paren mark inner => paren mark.bare inner.bare
  | range mark lower upper => range mark.bare lower.bare upper.bare
  | map mark argument param body => map mark.bare argument.bare param.bare body.bare
  | reduce mark sequence base accumulator element body =>
      reduce mark.bare sequence.bare base.bare accumulator.bare element.bare body.bare

/-- The statement with all its spans made the same. -/
def Statement.bare : Statement → Statement
  | assign _ target value => assign (.point .first) target.bare value.bare
  | out _ value => out (.point .first) value.bare
  | print _ text => print (.point .first) text

namespace Expr

/-- How tightly the outermost operator binds, unless the expression is a single operand. -/
def precedence? : Expr → Option Nat
  | binary _ op _ _ => some op.precedence
  | _ => none

/-- Nowhere does an operator stand as an operand of one that binds tighter, and as a right operand
of one that binds as tightly. -/
def Admissible : Expr → Prop
  | binary _ op left right =>
      (∀ p ∈ left.precedence?, op.precedence ≤ p) ∧ (∀ p ∈ right.precedence?, op.precedence < p) ∧
        left.Admissible ∧ right.Admissible
  | paren _ inner => inner.Admissible
  | range _ lower upper => lower.Admissible ∧ upper.Admissible
  | map _ argument _ body => argument.Admissible ∧ body.Admissible
  | reduce _ sequence base _ _ body => sequence.Admissible ∧ base.Admissible ∧ body.Admissible
  | _ => True

/-- The expression is written with the lexemes. A minus belongs to a number only if the number has
none of its own and begins where the minus ends. -/
inductive Written : Expr → List Lexeme → Prop where
  | literal {n : Numeral} {e : Expr} {a : Span} (h : n.Denotes .plain e) :
      Written e [⟨n.token, a⟩]
  | negated {n : Numeral} {e : Expr} {minus a : Span} (hUnsigned : n.negative = false)
      (hAdjacent : a.start = minus.stop) (h : n.negate.Denotes .plain e) :
      Written e [⟨.operator .sub, minus⟩, ⟨n.token, a⟩]
  | ref {name : String} {a : Span} (hMap : name ≠ "map") (hReduce : name ≠ "reduce") :
      Written (.ref .plain name none) [⟨.identifier name, a⟩]
  | binary {op : Operator} {left right : Expr} {xs ys : List Lexeme} {a : Span}
      (hLeft : Written left xs) (hRight : Written right ys) :
      Written (.binary .plain op left right) (xs ++ ⟨.operator op, a⟩ :: ys)
  | paren {inner : Expr} {xs : List Lexeme} {a b : Span} (h : Written inner xs) :
      Written (.paren .plain inner) (⟨.leftParen, a⟩ :: xs ++ [⟨.rightParen, b⟩])
  | range {lower upper : Expr} {xs ys : List Lexeme} {a b c : Span}
      (hLower : Written lower xs) (hUpper : Written upper ys) :
      Written (.range .plain lower upper)
        (⟨.leftBrace, a⟩ :: xs ++ ⟨.comma, b⟩ :: ys ++ [⟨.rightBrace, c⟩])
  | map {argument body : Expr} {param : String} {xs ys : List Lexeme} {a b c d e f : Span}
      (hArgument : Written argument xs) (hBody : Written body ys) :
      Written (.map .plain argument (.plain param) body)
        (⟨.identifier "map", a⟩ :: ⟨.leftParen, b⟩ :: xs ++ ⟨.comma, c⟩ ::
          ⟨.identifier param, d⟩ :: ⟨.arrow, e⟩ :: ys ++ [⟨.rightParen, f⟩])
  | reduce {sequence base body : Expr} {accumulator element : String} {xs ys zs : List Lexeme}
      {a b c d e f g h : Span} (hSequence : Written sequence xs) (hBase : Written base ys)
      (hBody : Written body zs) :
      Written (.reduce .plain sequence base (.plain accumulator) (.plain element) body)
        (⟨.identifier "reduce", a⟩ :: ⟨.leftParen, b⟩ :: xs ++ ⟨.comma, c⟩ :: ys ++ ⟨.comma, d⟩ ::
          ⟨.identifier accumulator, e⟩ :: ⟨.identifier element, f⟩ :: ⟨.arrow, g⟩ :: zs ++
            [⟨.rightParen, h⟩])

/-- An admissible tree of the expression that the lexemes spell. -/
structure Derived (e : Expr) (xs : List Lexeme) : Prop where
  written : e.Written xs
  admissible : e.Admissible

end Expr

/-- The statement is written with the lexemes, its expression by an admissible tree. -/
inductive Statement.Derived : Statement → List Lexeme → Prop where
  | assign {target : String} {value : Expr} {xs : List Lexeme} {a b c : Span}
      (h : value.Derived xs) :
      Derived (.assign (.point .first) (.plain target) value)
        (⟨.identifier "var", a⟩ :: ⟨.identifier target, b⟩ :: ⟨.assign, c⟩ :: xs)
  | out {value : Expr} {xs : List Lexeme} {a : Span} (h : value.Derived xs) :
      Derived (.out (.point .first) value) (⟨.identifier "out", a⟩ :: xs)
  | print {content : String} {a b : Span} :
      Derived (.print (.point .first) content) [⟨.identifier "print", a⟩, ⟨.text content, b⟩]

/-- The lexemes are those of the statements, one after the other. -/
inductive Derivation : List Statement → List Lexeme → Prop where
  | nil : Derivation [] []
  | cons {s : Statement} {program : List Statement} {xs ys : List Lexeme} (h : s.Derived xs)
      (hRest : Derivation program ys) : Derivation (s :: program) (xs ++ ys)

namespace Expr.Derived

variable {e left right : Expr} {xs ys zs : List Lexeme}

theorem joined {op : Operator} (hLeft : left.bare.Derived xs) (hRight : right.bare.Derived ys)
    (hLoose : ∀ p ∈ left.bare.precedence?, op.precedence ≤ p)
    (hTight : ∀ p ∈ right.bare.precedence?, op.precedence < p) (a : Span) :
    (Expr.joined op left right).bare.Derived (xs ++ ⟨.operator op, a⟩ :: ys) :=
  ⟨.binary hLeft.written hRight.written, hLoose, hTight, hLeft.admissible, hRight.admissible⟩

theorem paren (h : e.Derived xs) (a b : Span) :
    (Expr.paren .plain e).Derived (⟨.leftParen, a⟩ :: xs ++ [⟨.rightParen, b⟩]) :=
  ⟨.paren h.written, h.admissible⟩

theorem range (hLower : left.Derived xs) (hUpper : right.Derived ys) (a b c : Span) :
    (Expr.range .plain left right).Derived
      (⟨.leftBrace, a⟩ :: xs ++ ⟨.comma, b⟩ :: ys ++ [⟨.rightBrace, c⟩]) :=
  ⟨.range hLower.written hUpper.written, hLower.admissible, hUpper.admissible⟩

theorem map (hArgument : left.Derived xs) (hBody : right.Derived ys) (param : String)
    (a b c d e f : Span) :
    (Expr.map .plain left (.plain param) right).Derived
      (⟨.identifier "map", a⟩ :: ⟨.leftParen, b⟩ :: xs ++ ⟨.comma, c⟩ ::
        ⟨.identifier param, d⟩ :: ⟨.arrow, e⟩ :: ys ++ [⟨.rightParen, f⟩]) :=
  ⟨.map hArgument.written hBody.written, hArgument.admissible, hBody.admissible⟩

theorem reduce {body : Expr} (hSequence : left.Derived xs) (hBase : right.Derived ys)
    (hBody : body.Derived zs) (accumulator element : String) (a b c d e f g h : Span) :
    (Expr.reduce .plain left right (.plain accumulator) (.plain element) body).Derived
      (⟨.identifier "reduce", a⟩ :: ⟨.leftParen, b⟩ :: xs ++ ⟨.comma, c⟩ :: ys ++ ⟨.comma, d⟩ ::
        ⟨.identifier accumulator, e⟩ :: ⟨.identifier element, f⟩ :: ⟨.arrow, g⟩ :: zs ++
          [⟨.rightParen, h⟩]) :=
  ⟨.reduce hSequence.written hBase.written hBody.written,
    hSequence.admissible, hBase.admissible, hBody.admissible⟩

end Expr.Derived

namespace Numeral.Denotes

variable {n : Numeral} {mark : Mark} {e : Expr}

theorem bare (h : n.Denotes mark e) : n.Denotes mark.bare e.bare := by
  cases h with
  | int hWhole hValue => exact .int hWhole hValue
  | float hDot => exact .float hDot

theorem place (h : n.Denotes .plain e) (span : Span) :
    ∃ read, n.Denotes ⟨span, none⟩ read ∧ read.bare = e := by
  cases h with
  | int hWhole hValue => exact ⟨_, .int hWhole hValue, rfl⟩
  | float hDot => exact ⟨_, .float hDot, rfl⟩

theorem precedence?_eq (h : n.Denotes mark e) : e.precedence? = none := by
  cases h <;> rfl

theorem admissible (h : n.Denotes mark e) : e.Admissible := by
  cases h <;> trivial

end Numeral.Denotes

end Progression
