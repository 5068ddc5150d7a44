import GuestMemory.Fusion.Config
import GuestMemory.Fusion.Toolchain

/-!
The branch that links an entry to its continuations. Only one shape is fused: a short jump or near
call, last in the entry, whose displacement was loaded two micro-operations before. Everything
that keeps an entry from being fused is a bailout.
-/
namespace GuestMemory.Fusion

/-- Branches that can be fused: this list, and not every jump or call. -/
def combinableBranches : List MicroOp.Kind := [.jzO8, .jnzO8, .jumpO8, .callO16A16]

/-- Why an entry stays a leaf. -/
inductive Bailout where
  | spanningEntry
  | tooFewMicroOps (count : Nat)
  | missingImmediate (kind : MicroOp.Kind)
  | unsupportedBranch (kind : MicroOp.Kind)
  | backwardTarget (displacement : Int)
  | displacementTooLarge (displacement : Int) (limit : UInt32)
  | continuationFailed (offset : Nat) (cause : CombineError)
  | spanningContinuation (offset : Nat)
  | segmentOverflow (reach : Int) (limit : UInt32)
  deriving DecidableEq, Repr

def Bailout.message : Bailout → String
  | spanningEntry => "entry block spans its segment"
  | tooFewMicroOps count => s!"only {count} micro-ops decoded"
  | missingImmediate kind => "branch operand is " ++ kind.name ++ ", not a short immediate load"
  | unsupportedBranch kind => "trailing " ++ kind.name ++ " is not a combinable branch"
  | backwardTarget displacement => s!"displacement {displacement} lands before the branch instruction"
  | displacementTooLarge displacement limit =>
    s!"displacement {displacement} exceeds limit {limit.toNat}"
  | continuationFailed offset cause =>
    "continuation at offset " ++ Text.hex offset ++ " failed: " ++ cause.message
  | spanningContinuation offset =>
    "continuation at offset " ++ Text.hex offset ++ " spans its segment"
  | segmentOverflow reach limit =>
    s!"compound reaches offset {reach}, past segment limit {limit.toNat}"

structure Branch where
  kind : MicroOp.Kind
  /-- Distance from the end of the branch instruction to its target. -/
  displacement : Int
  instructionLength : UInt8
  deriving DecidableEq, Repr

/-- The last micro-operation, and the third from the end, which loads its operand. -/
def branchAndOperand? (ops : List MicroOp) : Option (MicroOp × MicroOp) :=
  match ops.reverse with
  | branch :: _ :: operand :: _ => some (branch, operand)
  | _ => none

/-- Three micro-operations are needed whatever the limits say. -/
def requiredMicroOps (config : Config) : Nat := max config.minMicroOps 3

/-- The fusable branch at the end of `ops`, or the first condition that it misses. -/
def trailingBranch (config : Config) (ops : List MicroOp) : Except Bailout Branch :=
  if ops.length < requiredMicroOps config then .error (.tooFewMicroOps ops.length)
  else match branchAndOperand? ops with
  | none => .error (.tooFewMicroOps ops.length)
  | some (branch, operand) =>
    let displacement := operand.signedImmediate
    if !operand.kind.isShortImmediateLoad then .error (.missingImmediate operand.kind)
    else if branch.kind ∉ combinableBranches then .error (.unsupportedBranch branch.kind)
    else if displacement + branch.instructionLength.toNat < 0 then .error (.backwardTarget displacement)
    else if config.maxDisplacement.toNat < displacement.natAbs then
      .error (.displacementTooLarge displacement config.maxDisplacement)
    else .ok ⟨branch.kind, displacement, branch.instructionLength⟩

end GuestMemory.Fusion
