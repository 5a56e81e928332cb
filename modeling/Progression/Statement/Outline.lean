import Progression.Decimal.Shortest
import Progression.Expr
import Progression.Text.Quoted

/-! Outlines of statements. Every node is written on a line of its own in parentheses, with its
type if it has one; what it is made of stands below it, indented by two more spaces, and a closing
parenthesis on a line of its own ends it. -/

namespace Progression

namespace Outline

/-- A line at the given depth. -/
def line (depth : Nat) (text : String) : String :=
  String.ofList (List.replicate (2 * depth) ' ') ++ text

/-- A node with its parts below it. -/
def node (depth : Nat) (header : String) (parts : List String) : List String :=
  line depth ("(" ++ header) :: parts ++ [line depth ")"]

/-- A node without parts. -/
def leaf (depth : Nat) (header : String) : List String := [line depth ("(" ++ header ++ ")")]

/-- A header with the type of its expression, if that is known. -/
def typed (header : String) (mark : Mark) : String :=
  match mark.type with
  | some type => header ++ " : " ++ type.text
  | none => header

end Outline

open Outline

/-- The lines of an expression. -/
def Expr.outline (depth : Nat) : Expr → List String
  | int mark value => leaf depth (typed ("int " ++ value.toInt.repr) mark)
  | float mark value => leaf depth (typed ("float " ++ Decimal.floatText value) mark)
  | ref mark name _ => leaf depth (typed ("ref " ++ name) mark)
  | binary mark op left right =>
      node depth (typed ("binary " ++ op.symbol) mark)
        (left.outline (depth + 1) ++ right.outline (depth + 1))
  | paren mark inner => node depth (typed "paren" mark) (inner.outline (depth + 1))
  | range mark lower upper =>
      node depth (typed "range" mark) (lower.outline (depth + 1) ++ upper.outline (depth + 1))
  | map mark argument param body =>
      node depth (typed ("map " ++ param.name) mark)
        (argument.outline (depth + 1) ++ body.outline (depth + 1))
  | reduce mark sequence base accumulator element body =>
      node depth (typed ("reduce " ++ accumulator.name ++ " " ++ element.name) mark)
        (sequence.outline (depth + 1) ++ base.outline (depth + 1) ++ body.outline (depth + 1))

/-- The lines of a statement. -/
def Statement.outline : Statement → List String
  | assign _ target value => node 0 ("assign " ++ target.name) (value.outline 1)
  | out _ value => node 0 "out" (value.outline 1)
  | print _ text => leaf 0 ("print " ++ Text.quoted text)

/-- The outline of a program, every line ended. -/
def outline (statements : List Statement) : String :=
  String.join ((statements.flatMap Statement.outline).map (· ++ "\n"))

end Progression
