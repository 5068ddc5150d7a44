import GuestMemory.Address

/-!
Micro-operations, into which a decoder breaks guest instructions, and the straight-line runs of
them that it hands over. Fusion looks at the kind, the immediate and the instruction length only.
-/
namespace GuestMemory

inductive MicroOp.Kind where
  | loadImmediate8 | loadImmediate16 | loadImmediate32
  | loadRegister | storeRegister | loadMemory | storeMemory | alu
  | updateInstructionPointer
  | jzO8 | jnzO8 | jumpO8 | callO16A16 | jumpO16 | jccO8 | jumpIndirect
  | nearReturn | halt
  /-- Anything that fusion never looks at. -/
  | other (code : UInt16)
  deriving DecidableEq, Repr

/-- The name under which messages show a kind. -/
def MicroOp.Kind.name : MicroOp.Kind → String
  | loadImmediate8 => "LoadImmediate8"
  | loadImmediate16 => "LoadImmediate16"
  | loadImmediate32 => "LoadImmediate32"
  | loadRegister => "LoadRegister"
  | storeRegister => "StoreRegister"
  | loadMemory => "LoadMemory"
  | storeMemory => "StoreMemory"
  | alu => "Alu"
  | updateInstructionPointer => "UpdateInstructionPointer"
  | jzO8 => "JzO8"
  | jnzO8 => "JnzO8"
  | jumpO8 => "JumpO8"
  | callO16A16 => "CallO16A16"
  | jumpO16 => "JumpO16"
  | jccO8 => "JccO8"
  | jumpIndirect => "JumpIndirect"
  | nearReturn => "Return"
  | halt => "Halt"
  | other code => "Other(" ++ toString code.toNat ++ ")"

/-- Loads whose immediate can be the operand of a fusable branch. -/
def MicroOp.Kind.isShortImmediateLoad (kind : MicroOp.Kind) : Bool :=
  kind == loadImmediate8 || kind == loadImmediate16

structure MicroOp where
  kind : MicroOp.Kind
  /-- Raw bits; zero unless the kind carries an immediate. -/
  immediate : UInt32
  /-- Bytes of the guest instruction that the micro-operation belongs to. -/
  instructionLength : UInt8
  deriving DecidableEq, Repr

/-- The immediate in two's complement, over the low bits that the kind loads. -/
def MicroOp.signedImmediate (op : MicroOp) : Int :=
  match op.kind with
  | .loadImmediate8 => (op.immediate.toBitVec.setWidth 8).toInt
  | .loadImmediate16 => (op.immediate.toBitVec.setWidth 16).toInt
  | _ => op.immediate.toBitVec.toInt

/-- A straight-line run of decoded guest instructions. -/
structure Decoded where
  /-- Offset of the first instruction in its segment. -/
  start : Nat
  byteLength : Nat
  instructionCount : UInt32
  ops : List MicroOp
  deriving DecidableEq, Repr

/-- Whether the bytes run past the end of the segment. -/
def Decoded.crossesSegment (d : Decoded) : Bool := decide (blockSize < d.start + d.byteLength)

end GuestMemory
