import CilLift.Member

/-! # Expressions

    Trees that say what a method body computes. Every node knows the type of
    its value: some carry it, some take it from the member they use, and an
    assignment has the type of what is assigned to. Operators are the same
    whatever form of an opcode they come from.
-/

namespace CilLift

/-! ## Operators -/

/-- Operators with two operands. -/
inductive BinaryOp where
  | add | subtract | multiply | divide | modulo
  | and | or | exclusiveOr
  | leftShift | rightShift
  | equal | notEqual | greaterThan | lessThan
  deriving DecidableEq, Repr

namespace BinaryOp

/-- Whether the operator asks a question about its operands. -/
def isComparison : BinaryOp → Bool
  | .equal | .notEqual | .greaterThan | .lessThan => true
  | _ => false

/-- The operator as rendered trees write it. -/
def symbol : BinaryOp → String
  | .add => "+"
  | .subtract => "-"
  | .multiply => "*"
  | .divide => "/"
  | .modulo => "%"
  | .and => "&"
  | .or => "|"
  | .exclusiveOr => "^"
  | .leftShift => "<<"
  | .rightShift => ">>"
  | .equal => "=="
  | .notEqual => "!="
  | .greaterThan => ">"
  | .lessThan => "<"

end BinaryOp

/-- Operators with one operand. -/
inductive UnaryOp where
  /-- Conversion, or boxing, to the type of the result. -/
  | convert
  | negate
  /-- Complement of every bit. -/
  | not
  /-- Conversion that yields null where it does not apply. -/
  | typeAs
  | arrayLength
  deriving DecidableEq, Repr

/-! ## Trees -/

/-- An expression. A receiver that is absent means a static member. -/
inductive Expr where
  | constant (value : Value) (type : Ty)
  | parameter (p : Param)
  | field (receiver : Option Expr) (field : FieldRef)
  | binary (op : BinaryOp) (left right : Expr) (type : Ty)
  | unary (op : UnaryOp) (operand : Expr) (type : Ty)
  | call (receiver : Option Expr) (method : MethodRef) (arguments : List Expr)
  | new (ctor : ConstructorRef) (arguments : List Expr)
  | newArray (element : Ty) (length : Expr)
  | index (array position : Expr) (type : Ty)
  | lambda (parameters : List Param) (body : Expr) (type : Ty)
  | property (receiver : Option Expr) (declaringType name : String) (type : Ty)
  | indexer (receiver : Expr) (declaringType name : String) (arguments : List Expr) (type : Ty)
  | assign (target value : Expr)
  | event (subscription : Subscription) (receiver : Expr) (event : EventRef) (handler : Expr)

namespace Expr

/-- The type of the node's value. -/
def type : Expr → Ty
  | .constant _ type => type
  | .parameter p => p.type
  | .field _ f => f.type
  | .binary _ _ _ type => type
  | .unary _ _ type => type
  | .call _ m _ => m.returnType
  | .new c _ => c.declaringType
  | .newArray element _ => .array element
  | .index _ _ type => type
  | .lambda _ _ type => type
  | .property _ _ _ type => type
  | .indexer _ _ _ _ type => type
  | .assign target _ => target.type
  | .event .. => .prim .void

/-- The null constant. -/
def null : Expr :=
  .constant .null (.prim .object)

/-- The node of a binary operator: comparisons are typed `Boolean`, all else
    as the left operand. -/
def apply (op : BinaryOp) (left right : Expr) : Expr :=
  .binary op left right (if op.isComparison then .prim .boolean else left.type)

/-- Whether the node is a constant. -/
def isConstant : Expr → Bool
  | .constant .. => true
  | _ => false

/-- The body of a function. -/
def body? : Expr → Option Expr
  | .lambda _ body _ => some body
  | _ => none

end Expr

end CilLift
