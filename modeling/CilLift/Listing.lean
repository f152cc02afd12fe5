import CilLift.Code.Operation
import CilLift.Number.Decimal

/-! # Listings

    A listing shows each instruction of some code on a line of its own, with
    its offset, up to the first `ret`. Tokens are shown as numbers, but each
    must stand for something.
-/

namespace CilLift

/-! ## Instructions as text -/

/-- An operand as text, with the blank that parts it from the mnemonic. -/
def Shape.text : (s : Shape) → s.Operand → String
  | .empty, _ => ""
  | .slot, n => " " ++ toString (UInt8.toNat n)
  | .int8, n => " " ++ toString (Int8.toInt n)
  | .int32, n => " " ++ toString (Int32.toInt n)
  | .int64, n => " " ++ toString (Int64.toInt n)
  | .single, bits => " " ++ Number.Format.single.text (UInt32.toNat bits)
  | .double, bits => " " ++ Number.Format.double.text (UInt64.toNat bits)
  | .token _, t => " " ++ Token.render t

/-- The instruction as a listing shows it. -/
def Instruction.render (i : Instruction) : String :=
  i.opcode.mnemonic ++ i.opcode.shape.text i.operand

/-! ## Lines -/

namespace Listing

/-- The line of one instruction. -/
def line (offset : Nat) (i : Instruction) : String :=
  Text.offsetLabel offset ++ ": " ++ i.render

/-- Keeps the lines of the instructions it sees and ignores operations. -/
def recorder : Consumer (Array String) where
  observe offset i := modify (·.push (line offset i))
  perform _ := pure ()

/-- Lines as one text, each ended by a line feed. -/
def text : List String → String
  | [] => ""
  | first :: rest => first ++ "\n" ++ text rest

/-- The lines of some code, and the fault that kept it from being listed to
    its end, if any. -/
def ofCode (r : Resolver) (code : List UInt8) : List String × Option Fault :=
  match (recorder.feed r code).run #[] with
  | .ok _ lines => (lines.toList, none)
  | .error fault lines => (lines.toList, some fault)

/-- The whole listing of some code. -/
def complete (r : Resolver) (code : List UInt8) : Except Fault String :=
  match ofCode r code with
  | (lines, none) => .ok (text lines)
  | (_, some fault) => .error fault

end Listing

end CilLift
