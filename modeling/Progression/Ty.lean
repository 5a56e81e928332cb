/-! Types and kinds. A type is what the checker knows of an expression before it runs; a kind is
what can be seen of a value at run time. -/

namespace Progression

/-- A static type. Ints and floats share one type; a sequence has elements of one type. -/
inductive Ty where
  | number
  | sequence (element : Ty)
deriving DecidableEq

namespace Ty

/-- How the type is written. -/
def text : Ty → String
  | number => "Number"
  | sequence element => "Sequence<" ++ element.text ++ ">"

end Ty

/-- The kind of a value. -/
inductive Kind where
  | int
  | float
  | text
  | sequence
  | error
deriving DecidableEq

/-- How the kind is written. -/
def Kind.name : Kind → String
  | int => "Int"
  | float => "Float"
  | text => "String"
  | sequence => "Sequence"
  | error => "Error"

end Progression
