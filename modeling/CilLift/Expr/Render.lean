import CilLift.Expr.Basic

/-! # Expressions as text

    The text shows operators, members, constants and the targets of
    conversions; other types are not shown. Binary operators always stand in
    parentheses.
-/

namespace CilLift.Expr

/-- Texts one after the other with commas between them. -/
def commaSeparated : List String → String
  | [] => ""
  | [text] => text
  | text :: rest => text ++ ", " ++ commaSeparated rest

/-- The parameters of a function: one stands alone, any other number stands in
    parentheses. -/
def renderParameters : List Param → String
  | [p] => p.name
  | ps => "(" ++ commaSeparated (ps.map (·.name)) ++ ")"

mutual

/-- The expression as text. -/
def render : Expr → String
  | .constant value _ => value.render
  | .parameter p => p.name
  | .field receiver f => renderOwner f.declaringType receiver ++ "." ++ f.name
  | .binary op left right _ =>
    "(" ++ left.render ++ " " ++ op.symbol ++ " " ++ right.render ++ ")"
  | .unary op operand type =>
    match op with
    | .convert => "Convert(" ++ operand.render ++ ", " ++ type.name ++ ")"
    | .negate => "-" ++ operand.render
    | .not => "~" ++ operand.render
    | .typeAs => "(" ++ operand.render ++ " as " ++ type.name ++ ")"
    | .arrayLength => operand.render ++ ".Length"
  | .call receiver method arguments =>
    renderOwner method.declaringType receiver ++ "." ++ method.name ++
      "(" ++ commaSeparated (renderList arguments) ++ ")"
  | .new ctor arguments =>
    "new " ++ ctor.declaringType.name ++ "(" ++ commaSeparated (renderList arguments) ++ ")"
  | .newArray element length => "new " ++ element.name ++ "[" ++ length.render ++ "]"
  | .index array position _ => array.render ++ "[" ++ position.render ++ "]"
  | .lambda parameters body _ => renderParameters parameters ++ " => " ++ body.render
  | .property receiver declaringType name _ =>
    renderOwner declaringType receiver ++ "." ++ name
  | .indexer receiver _ _ arguments _ =>
    receiver.render ++ "[" ++ commaSeparated (renderList arguments) ++ "]"
  | .assign target value => target.render ++ " = " ++ value.render
  | .event subscription receiver e handler =>
    receiver.render ++ "." ++ e.name ++
      (match subscription with
        | .add => " += "
        | .remove => " -= ") ++ handler.render

/-- What stands before the dot of a member: the receiver, or for a static
    member the name of the declaring type. -/
def renderOwner (declaringType : String) : Option Expr → String
  | none => declaringType
  | some receiver => receiver.render

/-- The texts of some expressions. -/
def renderList : List Expr → List String
  | [] => []
  | e :: es => e.render :: renderList es

end

end CilLift.Expr
