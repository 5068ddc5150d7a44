import GuestMemory.Code.Outcome

/-!
Executable code: leaves made by a compiler, and compounds that fuse an entry with the code at both
ends of its trailing branch. A compound measures its bytes from the start of its entry, and covers
its entry and both continuations.
-/
namespace GuestMemory

/-- What a compiled leaf tells about itself. -/
class CodeUnit (L : Type) where
  /-- Guest bytes covered, from the entry point on. -/
  byteLength : L → UInt32
  instructionCount : L → UInt32
  /-- Whether the bytes leave the segment of the entry point. -/
  isSpanning : L → Bool

/-- Leaves of type `L` run on processors of type `P`. -/
class Executes (L P : Type) where
  execute : L → P → Outcome × P

inductive CodeTree (L : Type) where
  | leaf (unit : L)
  /-- Runs `entry`, then `target` if the branch was taken and `fallthrough` if not. The target lies
      `displacement` bytes past the end of the entry, which itself lies at `start`. -/
  | compound (entry fallthrough target : CodeTree L) (start : UInt32) (displacement : Int)
  deriving DecidableEq

namespace CodeTree

variable {L : Type}

def isCompound : CodeTree L → Bool
  | leaf _ => false
  | compound .. => true

/-- Compounds on top of one another, not looking into entries. -/
def nestingDepth : CodeTree L → Nat
  | leaf _ => 0
  | compound _ fallthrough target _ _ => max fallthrough.nestingDepth target.nestingDepth + 1

/-- Bytes from the start of an entry to the end of the farther continuation. -/
def extent (entry fallthrough target : Nat) (displacement : Int) : Nat :=
  max (entry + fallthrough) (entry + displacement + target).toNat

section
variable [CodeUnit L]

def byteLength : CodeTree L → UInt32
  | leaf unit => CodeUnit.byteLength unit
  | compound entry fallthrough target _ displacement =>
    saturate (extent entry.byteLength.toNat fallthrough.byteLength.toNat target.byteLength.toNat displacement)

/-- Most instructions on any path through the code. -/
def instructionCount : CodeTree L → UInt32
  | leaf unit => CodeUnit.instructionCount unit
  | compound entry fallthrough target _ _ =>
    saturatingAdd entry.instructionCount (max fallthrough.instructionCount target.instructionCount)

/-- Compounds are only built from code that stays inside its segment. -/
def isSpanning : CodeTree L → Bool
  | leaf unit => CodeUnit.isSpanning unit
  | compound .. => false

end

/-- A mode switch ends the run: nothing after it executes. -/
def execute {P : Type} [Executes L P] : CodeTree L → P → Outcome × P
  | leaf unit, p => Executes.execute unit p
  | compound entry fallthrough target _ _, p =>
    match entry.execute p with
    | (.retired n taken, p) =>
      let (outcome, p) := if taken then target.execute p else fallthrough.execute p
      (outcome.after n, p)
    | (.modeSwitch mode n, p) => (.modeSwitch mode n, p)

end CodeTree

end GuestMemory
