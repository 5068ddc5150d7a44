import GuestMemory.Proofs.Fusion.Building
import Mathlib.Tactic.SplitIfs

/-!
A small instruction set at which the theorems on fusion can be tried: a conditional and an
unconditional short jump, a return, and a switch of the mode. A block is a single instruction, and a
processor counts the blocks that it has run; the conditional jump is taken at even counts.
-/
namespace GuestMemory.Fusion.Toy

/-- How a block ends. -/
inductive Exit where
  | branches | jumps | returns | switches
  deriving DecidableEq

structure Stub where
  length : UInt32
  exit : Exit
  spanning : Bool
  deriving DecidableEq

instance : CodeUnit Stub := ⟨Stub.length, fun _ => 1, Stub.spanning⟩

/-- Blocks run so far. -/
abbrev Count := Nat

def outcome (count : Count) : Exit → Outcome
  | .branches => .retired 1 (count % 2 = 0)
  | .jumps => .retired 1 true
  | .returns => .retired 1 false
  | .switches => .modeSwitch .protectedMode 1

instance : Executes Stub Count := ⟨fun unit count => (outcome count unit.exit, count + 1)⟩

/-- The instruction with the given first byte: its length, and the branch that ends it. -/
def instruction? (opcode : UInt8) : Option (Nat × MicroOp.Kind) :=
  if opcode = 0x74 then some (2, .jzO8)
  else if opcode = 0xEB then some (2, .jumpO8)
  else if opcode = 0xC3 then some (1, .nearReturn)
  else if opcode = 0x0F then some (1, .other 0x0F)
  else none

/-- The micro-operations of an instruction with the given operand. -/
def ops (length : Nat) (kind : MicroOp.Kind) (operand : UInt8) : List MicroOp :=
  let op (kind : MicroOp.Kind) (immediate : UInt32) : MicroOp := ⟨kind, immediate, UInt8.ofNat length⟩
  [op .alu 0, op .alu 0, op .loadImmediate8 operand.toUInt32, op .updateInstructionPointer 0, op kind 0]

def decodeAt (window : Contents) (p : Nat) : Except DecodeError Decoded :=
  match window[p]? with
  | none => .error (.outOfBounds p)
  | some opcode =>
    match instruction? opcode with
    | none => .error (.invalidOpcode opcode p)
    | some (length, kind) =>
      match window[p + length - 1]? with
      | none => .error (.outOfBounds (p + length - 1))
      | some operand => .ok ⟨p, length, 1, ops length kind operand⟩

def exitOf (kind : MicroOp.Kind) : Exit :=
  match kind with
  | .jzO8 => .branches
  | .jumpO8 => .jumps
  | .nearReturn => .returns
  | _ => .switches

def compile (decoded : Decoded) : Except CompileError (CodeTree Stub) :=
  match decoded.ops.getLast? with
  | none => .error (.backend "nothing to compile")
  | some op => .ok (.leaf ⟨UInt32.ofNat decoded.byteLength, exitOf op.kind, decoded.crossesSegment⟩)

def toolchain : Toolchain Unit Stub where
  decode cursor s := (decodeAt cursor.window cursor.position, cursor.position, s)
  compile decoded s := (compile decoded, s)

theorem stateless_toolchain : toolchain.Stateless := ⟨fun _ _ _ => rfl, fun _ _ _ => rfl⟩

theorem onlyLeaves_toolchain : toolchain.OnlyLeaves := by
  intro decoded s code compiled
  simp only [toolchain, compile] at compiled
  split at compiled
  · cases compiled
  · cases compiled
    exact ⟨_, rfl⟩

theorem decodeAt_eq_ok {window : Contents} {p : Nat} {decoded : Decoded} :
    decodeAt window p = .ok decoded ↔
      ∃ opcode length kind operand, window[p]? = some opcode ∧ instruction? opcode = some (length, kind) ∧
        window[p + length - 1]? = some operand ∧ decoded = ⟨p, length, 1, ops length kind operand⟩ := by
  rw [decodeAt]
  constructor
  · intro decodes
    split at decodes
    · cases decodes
    · rename_i opcode first
      split at decodes
      · cases decodes
      · rename_i length kind known
        split at decodes
        · cases decodes
        · rename_i operand last
          cases decodes
          exact ⟨opcode, length, kind, operand, first, known, last, rfl⟩
  · rintro ⟨opcode, length, kind, operand, first, known, last, rfl⟩
    simp only [first, known, last]

theorem instruction?_length {opcode : UInt8} {length : Nat} {kind : MicroOp.Kind}
    (known : instruction? opcode = some (length, kind)) : 1 ≤ length ∧ length ≤ 2 := by
  rw [instruction?] at known
  split_ifs at known <;> cases known <;> decide

theorem instructionLength_ops {length : Nat} (short : length ≤ 2) {kind : MicroOp.Kind} {operand : UInt8} :
    ∀ op ∈ ops length kind operand, op.instructionLength.toNat ≤ length := by
  have bound : (UInt8.ofNat length).toNat ≤ length := by
    rw [UInt8.toNat_ofNat']
    omega
  simpa [ops] using bound

/-! ### A conditional jump over a jump -/

def window : Contents := #[0x74, 3, 0xEB, 1, 0xC3, 0x0F, 0xC3]

def tree : CodeTree Stub :=
  .compound (.leaf ⟨2, .branches, false⟩)
    (.compound (.leaf ⟨2, .jumps, false⟩) (.leaf ⟨1, .returns, false⟩) (.leaf ⟨1, .switches, false⟩) 2 1)
    (.leaf ⟨1, .switches, false⟩) 0 3

theorem combine_window : (combine {} toolchain (.ofWindow window) ⟨(), {}⟩).1 = .ok tree := rfl

end GuestMemory.Fusion.Toy
