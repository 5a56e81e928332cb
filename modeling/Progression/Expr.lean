import Progression.Diagnostic

/-! Expressions and statements. The trees carry what the checker finds out about them: a variable id
on every binding and reference, a type on every expression. All of these are absent until a tree
has been checked. -/

namespace Progression

/-- A name where it is introduced. The variable that it declares is known by its number in the order
of declaration. -/
structure Binding where
  name : String
  span : Span
  id : Option Nat := none
deriving DecidableEq

/-- Where an expression stands, and its type once it is known. -/
structure Mark where
  span : Span
  type : Option Ty := none
deriving DecidableEq

/-- An expression. -/
inductive Expr where
  | int (mark : Mark) (value : Int64)
  | float (mark : Mark) (value : Float)
  | ref (mark : Mark) (name : String) (target : Option Nat)
  | binary (mark : Mark) (op : Operator) (left right : Expr)
  | paren (mark : Mark) (inner : Expr)
  | range (mark : Mark) (lower upper : Expr)
  | map (mark : Mark) (argument : Expr) (param : Binding) (body : Expr)
  | reduce (mark : Mark) (sequence base : Expr) (accumulator element : Binding) (body : Expr)
deriving DecidableEq

namespace Expr

/-- The mark of the outermost node. -/
def mark : Expr → Mark
  | int mark _ => mark
  | float mark _ => mark
  | ref mark _ _ => mark
  | binary mark _ _ _ => mark
  | paren mark _ => mark
  | range mark _ _ => mark
  | map mark _ _ _ => mark
  | reduce mark _ _ _ _ _ => mark

/-- Where the expression stands. -/
def span (e : Expr) : Span := e.mark.span

/-- The type of the expression, once it is known. -/
def type (e : Expr) : Option Ty := e.mark.type

/-- The expression `left op right`, not yet checked. -/
def joined (op : Operator) (left right : Expr) : Expr :=
  binary ⟨left.span.cover right.span, none⟩ op left right

end Expr

/-- A statement. -/
inductive Statement where
  | assign (span : Span) (target : Binding) (value : Expr)
  | out (span : Span) (value : Expr)
  | print (span : Span) (text : String)
deriving DecidableEq

/-- Where the statement stands. -/
def Statement.span : Statement → Span
  | assign span _ _ => span
  | out span _ => span
  | print span _ => span

end Progression
