import GuestMemory.Fusion.Branch
import GuestMemory.Fusion.Run

/-!
Fusion of short branch chains. An entry that ends in a fusable branch is joined with the code at
both ends of that branch, which is resolved in the same way one level deeper; from the configured
depth on continuations are plain leaves. Whatever goes wrong past the entry leaves the entry as it
is: only an entry for which there is no leaf is an error.
-/
namespace GuestMemory.Fusion

/-- Where the parts of a compound lie in their segment. -/
structure Junction where
  start : Nat
  entryLength : Nat
  displacement : Int
  deriving DecidableEq, Repr

namespace Junction

def fallthroughStart (j : Junction) : Nat := j.start + j.entryLength

def targetStart (j : Junction) : Int := j.fallthroughStart + j.displacement

/-- Where a fall-through of the given length ends. -/
def fallthroughEnd (j : Junction) (length : Nat) : Int := j.fallthroughStart + length

/-- Where a target of the given length ends. -/
def targetEnd (j : Junction) (length : Nat) : Int := j.targetStart + length

end Junction

section
variable {S L : Type} [CodeUnit L]

/-- Whether an entry can be fused, as far as the entry itself tells. -/
def plan (config : Config) (start : Nat) (decoded : Decoded) (entry : CodeTree L) :
    Except Bailout Junction :=
  if entry.isSpanning then .error .spanningEntry
  else match trailingBranch config decoded.ops with
  | .error bailout => .error bailout
  | .ok branch =>
    let j : Junction := ⟨start, entry.byteLength.toNat, branch.displacement⟩
    if j.targetStart < 0 then .error (.backwardTarget branch.displacement) else .ok j

/-- Joins an entry with its continuations, if they stay inside the segment. -/
def join (config : Config) (j : Junction) (entry fallthrough target : CodeTree L) :
    Except Bailout (CodeTree L) :=
  let fallthroughEnd := j.fallthroughEnd fallthrough.byteLength.toNat
  let targetEnd := j.targetEnd target.byteLength.toNat
  if fallthrough.isSpanning then .error (.spanningContinuation j.fallthroughStart)
  else if target.isSpanning then .error (.spanningContinuation j.targetStart.toNat)
  else if config.segmentLimit.toNat < fallthroughEnd then
    .error (.segmentOverflow fallthroughEnd config.segmentLimit)
  else if config.segmentLimit.toNat < targetEnd then
    .error (.segmentOverflow targetEnd config.segmentLimit)
  else .ok (.compound entry fallthrough target (saturate j.start) j.displacement)

/-- Both continuations, the fall-through first; `deeper` resolves each of them. -/
def continuations (deeper : Nat → Run S → Attempt S L) (j : Junction) (run : Run S) :
    Except Bailout (CodeTree L × CodeTree L) × Run S :=
  match deeper j.fallthroughStart run with
  | (.error e, run) => (.error (.continuationFailed j.fallthroughStart e), run)
  | (.ok fallthrough, run) =>
    match deeper j.targetStart.toNat run with
    | (.error e, run) => (.error (.continuationFailed j.targetStart.toNat e), run)
    | (.ok target, run) => (.ok (fallthrough, target), run)

/-- Fuses an entry with its continuations. -/
def fuse (config : Config) (deeper : Nat → Run S → Attempt S L) (start : Nat) (decoded : Decoded)
    (entry : CodeTree L) (run : Run S) : Except Bailout (CodeTree L) × Run S :=
  match plan config start decoded entry with
  | .error bailout => (.error bailout, run)
  | .ok j =>
    match continuations deeper j run.descend with
    | (.error bailout, run) => (.error bailout, run.ascend)
    | (.ok (fallthrough, target), run) => (join config j entry fallthrough target, run.ascend)

/-- Compiles the entry at `start` and fuses it if possible. -/
def fuseOrLeaf (config : Config) (t : Toolchain S L) (deeper : Nat → Run S → Attempt S L)
    (start : Nat) (run : Run S) : Attempt S L :=
  match run.build t start with
  | (.error e, run) => (.error e, run)
  | (.ok (decoded, entry), run) =>
    match fuse config deeper start decoded entry run with
    | (.error _, run) => (.ok entry, run.bailOut)
    | (.ok compound, run) => (.ok compound, run)

/-- Resolves an entry point at the current depth. The recursion ends at `maxDepth`, so fuel beyond
    that changes nothing. -/
def resolve (config : Config) (t : Toolchain S L) : Nat → Nat → Run S → Attempt S L
  | 0 => fun start run => run.compileLeaf t start
  | fuel + 1 =>
    fuseOrLeaf config t fun offset run =>
      if run.depth < config.maxDepth then resolve config t fuel offset run
      else run.compileLeaf t offset

/-- The code for the entry point at the cursor. -/
def combine (config : Config) (t : Toolchain S L) (cursor : Cursor) (progress : Progress S) :
    Attempt S L :=
  let run : Run S := { progress with cursor }
  let (result, run) :=
    if config.enabled then resolve config t (config.maxDepth.toNat + 1) cursor.position run
    else run.compileLeaf t cursor.position
  (result, { run with stats := run.stats.record result })

end

end GuestMemory.Fusion
