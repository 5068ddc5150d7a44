import GuestMemory.Proofs.Fusion.Effort
import GuestMemory.Proofs.Fusion.Exactness
import Mathlib.Algebra.Group.Int.Defs
import Mathlib.Data.Nat.PSub

/-!
The arithmetic of a request, in machine words. The same steps as those of `combine` are taken once more, with all
sums and differences in the words that hold them, and with lists read by index: a step that a word cannot hold, an
index that is past the end, a depth past the limit, or a level past the last one ends everything at once. None of
this ever happens (`combine_checked`). The operand of a fusable branch is short, which keeps displacements small;
an entry lies inside its window, which keeps offsets far from the largest word; and the counter of the
depth goes up only where the limit leaves room for it, and down only after it went up.
-/
namespace GuestMemory.Fusion

variable {S L : Type}

/-! ### Words -/

/-- The numbers that a machine word can hold. -/
structure WordRange where
  low : Int
  high : Int

namespace WordRange

def word8 : WordRange := ⟨0, 2 ^ 8 - 1⟩

def int32 : WordRange := ⟨-2 ^ 31, 2 ^ 31 - 1⟩

def int64 : WordRange := ⟨-2 ^ 63, 2 ^ 63 - 1⟩

def word64 : WordRange := ⟨0, 2 ^ 64 - 1⟩

/-- A number as it is, if the word can hold it. -/
def fit (range : WordRange) (n : Int) : Option Int := if range.low ≤ n ∧ n ≤ range.high then some n else none

theorem fit_word8 {n : Nat} (below : n < 2 ^ 8) : word8.fit n = some (n : Int) := if_pos (by simp only [word8]; omega)

theorem fit_word64 {n : Nat} (below : n < 2 ^ 64) : word64.fit n = some (n : Int) := if_pos (by simp only [word64]; omega)

theorem fit_int32 {n : Int} (above : -2 ^ 31 ≤ n) (below : n < 2 ^ 31) : int32.fit n = some n :=
  if_pos (by simp only [int32]; omega)

theorem fit_int64 {n : Int} (above : -2 ^ 63 ≤ n) (below : n < 2 ^ 63) : int64.fit n = some n :=
  if_pos (by simp only [int64]; omega)

theorem min_high_int64 {n : Nat} (below : n < 2 ^ 63) : min (n : Int) int64.high = n := by
  simp only [int64]
  omega

end WordRange

/-! ### Checked steps -/

open WordRange

namespace Checked

/-- The third micro-operation from the end is read before the last one. -/
def trailingBranch (config : Config) (ops : List MicroOp) : Option (Except Bailout Branch) :=
  if ops.length < requiredMicroOps config then some (.error (.tooFewMicroOps ops.length))
  else do
    let operand ← ops[← ops.length.psub 3]?
    let branch ← ops[← ops.length.psub 1]?
    if !operand.kind.isShortImmediateLoad then some (.error (.missingImmediate operand.kind))
    else if branch.kind ∉ combinableBranches then some (.error (.unsupportedBranch branch.kind))
    else do
      let displacement ← int32.fit operand.signedImmediate
      let reach ← int32.fit (displacement + branch.instructionLength.toNat)
      if reach < 0 then some (.error (.backwardTarget displacement))
      else if config.maxDisplacement.toNat < displacement.natAbs then
        some (.error (.displacementTooLarge displacement config.maxDisplacement))
      else some (.ok ⟨branch.kind, displacement, branch.instructionLength⟩)

section
variable [CodeUnit L]

/-- An end that is too large for a signed word counts as the largest one. -/
def plan (config : Config) (start : Nat) (decoded : Decoded) (entry : CodeTree L) : Option (Except Bailout Junction) :=
  if entry.isSpanning then some (.error .spanningEntry)
  else do
    match ← trailingBranch config decoded.ops with
    | .error bailout => some (.error bailout)
    | .ok branch =>
      let fallthroughStart ← word64.fit (start + entry.byteLength.toNat : Nat)
      let targetStart ← int64.fit (min fallthroughStart int64.high + branch.displacement)
      if targetStart < 0 then some (.error (.backwardTarget branch.displacement))
      else some (.ok ⟨start, entry.byteLength.toNat, branch.displacement⟩)

/-- A compound, with the sums that its length is the largest of. -/
def compound (entry fallthrough target : CodeTree L) (start : Nat) (displacement : Int) : Option (CodeTree L) := do
  let _ ← int64.fit (entry.byteLength.toNat + fallthrough.byteLength.toNat)
  let branchTarget ← int64.fit (entry.byteLength.toNat + displacement)
  let _ ← int64.fit (branchTarget + target.byteLength.toNat)
  some (.compound entry fallthrough target (saturate start) displacement)

def join (config : Config) (j : Junction) (entry fallthrough target : CodeTree L) :
    Option (Except Bailout (CodeTree L)) :=
  if fallthrough.isSpanning then some (.error (.spanningContinuation j.fallthroughStart))
  else if target.isSpanning then some (.error (.spanningContinuation j.targetStart.toNat))
  else do
    let entryEnd := min (j.fallthroughStart : Int) int64.high
    let fallthroughEnd ← int64.fit (entryEnd + fallthrough.byteLength.toNat)
    let targetStart ← int64.fit (entryEnd + j.displacement)
    let targetEnd ← int64.fit (targetStart + target.byteLength.toNat)
    if config.segmentLimit.toNat < fallthroughEnd then some (.error (.segmentOverflow fallthroughEnd config.segmentLimit))
    else if config.segmentLimit.toNat < targetEnd then some (.error (.segmentOverflow targetEnd config.segmentLimit))
    else (compound entry fallthrough target j.start j.displacement).map .ok

end

/-- One level deeper, as long as the limit allows it. -/
def descend (config : Config) (run : Run S) : Option (Run S) := do
  let depth ← word8.fit (run.depth.toNat + 1 : Nat)
  if depth ≤ max 1 config.maxDepth.toNat then some { run with depth := UInt8.ofNat depth.toNat } else none

def ascend (run : Run S) : Option (Run S) := do
  let depth ← word8.fit ((run.depth.toNat : Int) - 1)
  some { run with depth := UInt8.ofNat depth.toNat }

def continuations (deeper : Nat → Run S → Option (Attempt S L)) (j : Junction) (run : Run S) :
    Option (Except Bailout (CodeTree L × CodeTree L) × Run S) := do
  match ← deeper j.fallthroughStart run with
  | (.error e, run) => some (.error (.continuationFailed j.fallthroughStart e), run)
  | (.ok fallthrough, run) =>
    match ← deeper j.targetStart.toNat run with
    | (.error e, run) => some (.error (.continuationFailed j.targetStart.toNat e), run)
    | (.ok target, run) => some (.ok (fallthrough, target), run)

variable [CodeUnit L]

/-- The depth is counted down before anything is done about a continuation that failed. -/
def fuse (config : Config) (deeper : Nat → Run S → Option (Attempt S L)) (start : Nat) (decoded : Decoded)
    (entry : CodeTree L) (run : Run S) : Option (Except Bailout (CodeTree L) × Run S) := do
  match ← plan config start decoded entry with
  | .error bailout => some (.error bailout, run)
  | .ok j =>
    let (result, after) ← continuations deeper j (← descend config run)
    let run ← ascend after
    match result with
    | .error bailout => some (.error bailout, run)
    | .ok (fallthrough, target) => some (← join config j entry fallthrough target, run)

def fuseOrLeaf (config : Config) (t : Toolchain S L) (deeper : Nat → Run S → Option (Attempt S L)) (start : Nat)
    (run : Run S) : Option (Attempt S L) :=
  match run.build t start with
  | (.error e, run) => some (.error e, run)
  | (.ok (decoded, entry), run) => do
    match ← fuse config deeper start decoded entry run with
    | (.error _, run) => some (.ok entry, run.bailOut)
    | (.ok compound, run) => some (.ok compound, run)

/-- There is nothing past the last level. -/
def resolve (config : Config) (t : Toolchain S L) : Nat → Nat → Run S → Option (Attempt S L)
  | 0 => fun _ _ => none
  | levels + 1 =>
    fuseOrLeaf config t fun offset run =>
      if run.depth < config.maxDepth then resolve config t levels offset run
      else some (run.compileLeaf t offset)

def combine (config : Config) (t : Toolchain S L) (cursor : Cursor) (progress : Progress S) : Option (Attempt S L) :=
  let run : Run S := { progress with cursor }
  if config.enabled then (resolve config t (max 1 config.maxDepth.toNat) cursor.position run).map recorded
  else some (recorded (run.compileLeaf t cursor.position))

end Checked

/-! ### Micro-operations -/

/-- An immediate that a short load brings is small, whatever its other bits are. -/
theorem signedImmediate_bounds {op : MicroOp} (short : op.kind.isShortImmediateLoad = true) :
    -2 ^ 15 ≤ op.signedImmediate ∧ op.signedImmediate < 2 ^ 15 := by
  obtain ⟨kind, immediate, length⟩ := op
  cases kind <;> cases short
  · have low := BitVec.le_toInt (immediate.toBitVec.setWidth 8)
    have high := BitVec.toInt_lt (x := immediate.toBitVec.setWidth 8)
    exact ⟨Int.le_trans (by decide) low, Int.lt_trans high (by decide)⟩
  · exact ⟨BitVec.le_toInt (immediate.toBitVec.setWidth 16), BitVec.toInt_lt⟩

theorem trailingBranch_bounds {config : Config} {ops : List MicroOp} {b : Branch}
    (accepted : trailingBranch config ops = .ok b) : -2 ^ 15 ≤ b.displacement ∧ b.displacement < 2 ^ 15 := by
  obtain ⟨_, branch, operand, _, short, _, _, _, rfl⟩ := trailingBranch_eq_ok.mp accepted
  exact signedImmediate_bounds short

/-- Where there are three micro-operations, the two that matter are at these indices. -/
theorem branchAndOperand?_eq_some {ops : List MicroOp} (enough : 3 ≤ ops.length) :
    ∃ branch operand, ops[ops.length - 1]? = some branch ∧ ops[ops.length - 3]? = some operand ∧
      branchAndOperand? ops = some (branch, operand) := by
  have first := List.getElem?_reverse (l := ops) (i := 0) (by omega)
  have third := List.getElem?_reverse (l := ops) (i := 2) (by omega)
  rw [← List.length_reverse] at enough
  rw [branchAndOperand?]
  generalize ops.reverse = reversed at first third enough ⊢
  rcases reversed with _ | ⟨branch, _ | ⟨middle, _ | ⟨operand, rest⟩⟩⟩
  · exact absurd enough (by decide)
  · exact absurd enough (by simp)
  · exact absurd enough (by simp)
  · exact ⟨branch, operand, first.symm, third.symm, rfl⟩

/-! ### Steps -/

theorem checked_trailingBranch (config : Config) (ops : List MicroOp) :
    Checked.trailingBranch config ops = some (trailingBranch config ops) := by
  rw [Checked.trailingBranch, trailingBranch]
  split
  · rfl
  · rename_i enough
    have three : 3 ≤ ops.length := Nat.le_trans (Nat.le_max_right ..) (Nat.le_of_not_lt enough)
    obtain ⟨branch, operand, last, third, found⟩ := branchAndOperand?_eq_some three
    simp only [Nat.psub_eq_sub three, Nat.psub_eq_sub (Nat.le_of_succ_le (Nat.le_of_succ_le three)),
      Option.bind_eq_bind, Option.bind_some, last, third, found]
    cases short : operand.kind.isShortImmediateLoad with
    | false => rfl
    | true =>
      have small := signedImmediate_bounds short
      have length := branch.instructionLength.toNat_lt
      have whole := fit_int32 (n := operand.signedImmediate) (by omega) (by omega)
      have reach := fit_int32 (n := operand.signedImmediate + branch.instructionLength.toNat) (by omega) (by omega)
      simp only [whole, reach, Option.bind_some]
      split_ifs <;> rfl

section
variable [CodeUnit L] {config : Config} {start : Nat} {decoded : Decoded} {entry fallthrough target : CodeTree L}
  {j : Junction}

/-- The start of an entry in a window that is not too large. -/
theorem checked_plan (inside : start ≤ 2 ^ 62) (config : Config) (decoded : Decoded) (entry : CodeTree L) :
    Checked.plan config start decoded entry = some (plan config start decoded entry) := by
  rw [Checked.plan, plan]
  split
  · rfl
  · rw [checked_trailingBranch]
    simp only [Option.bind_eq_bind, Option.bind_some]
    cases accepted : trailingBranch config decoded.ops with
    | error bailout => rfl
    | ok branch =>
      have small := trailingBranch_bounds accepted
      have length := entry.byteLength.toNat_lt
      have after := fit_word64 (n := start + entry.byteLength.toNat) (by omega)
      have target := fit_int64 (n := (start + entry.byteLength.toNat : Nat) + branch.displacement) (by omega) (by omega)
      simp only [after, Option.bind_some, min_high_int64 (n := start + entry.byteLength.toNat) (by omega), target]
      rw [Junction.targetStart, Junction.fallthroughStart]
      split_ifs <;> rfl

/-- An entry ends not far behind its start, and its branch does not lead far from there. -/
theorem plan_bounds (inside : start ≤ 2 ^ 62) (planned : plan config start decoded entry = .ok j) :
    j.fallthroughStart < 2 ^ 62 + 2 ^ 32 ∧ -2 ^ 15 ≤ j.displacement ∧ j.displacement < 2 ^ 15 := by
  obtain ⟨_, branch, accepted, rfl, _⟩ := plan_eq_ok.mp planned
  have length := entry.byteLength.toNat_lt
  refine ⟨?_, trailingBranch_bounds accepted⟩
  show start + entry.byteLength.toNat < _
  omega

theorem checked_compound (entry fallthrough target : CodeTree L) (start : Nat) {displacement : Int}
    (small : -2 ^ 15 ≤ displacement ∧ displacement < 2 ^ 15) :
    Checked.compound entry fallthrough target start displacement =
      some (.compound entry fallthrough target (saturate start) displacement) := by
  have entryLength := entry.byteLength.toNat_lt
  have lengths := And.intro fallthrough.byteLength.toNat_lt target.byteLength.toNat_lt
  have first := fit_int64 (n := entry.byteLength.toNat + fallthrough.byteLength.toNat) (by omega) (by omega)
  have second := fit_int64 (n := entry.byteLength.toNat + displacement) (by omega) (by omega)
  have third := fit_int64 (n := entry.byteLength.toNat + displacement + target.byteLength.toNat) (by omega) (by omega)
  simp only [Checked.compound, Option.bind_eq_bind, first, second, third, Option.bind_some]

theorem checked_join (inside : start ≤ 2 ^ 62) (planned : plan config start decoded entry = .ok j)
    (fallthrough target : CodeTree L) :
    Checked.join config j entry fallthrough target = some (join config j entry fallthrough target) := by
  obtain ⟨near, small⟩ := plan_bounds inside planned
  have lengths := And.intro fallthrough.byteLength.toNat_lt target.byteLength.toNat_lt
  have first := fit_int64 (n := j.fallthroughStart + fallthrough.byteLength.toNat) (by omega) (by omega)
  have second := fit_int64 (n := j.fallthroughStart + j.displacement) (by omega) (by omega)
  have third := fit_int64 (n := j.fallthroughStart + j.displacement + target.byteLength.toNat) (by omega) (by omega)
  rw [Checked.join, join]
  split
  · rfl
  · split
    · rfl
    · simp only [min_high_int64 (n := j.fallthroughStart) (by omega), Option.bind_eq_bind, first, second, third,
        Option.bind_some, checked_compound entry fallthrough target j.start small]
      rw [Junction.fallthroughEnd, Junction.targetEnd, Junction.targetStart]
      split_ifs <;> rfl

end

/-! ### The depth -/

/-- Below the limit the counter can go up, and does not pass the limit. -/
theorem checked_descend {config : Config} {run : Run S} (shallow : run.depth.toNat < max 1 config.maxDepth.toNat) :
    Checked.descend config run = some run.descend := by
  have room := config.maxDepth.toNat_lt
  have up := fit_word8 (n := run.depth.toNat + 1) (by omega)
  have within : ((run.depth.toNat + 1 : Nat) : Int) ≤ max 1 config.maxDepth.toNat := by omega
  have same : UInt8.ofNat ((run.depth.toNat + 1 : Nat) : Int).toNat = run.depth + 1 := by
    rw [Int.toNat_natCast, ← config.toNat_succ_depth shallow, UInt8.ofNat_toNat]
  rw [Checked.descend, Option.bind_eq_bind, up, Option.bind_some, if_pos within, same, Run.descend]

/-- The counter can go down where it went up before. -/
theorem checked_ascend {run : Run S} (deep : 0 < run.depth.toNat) : Checked.ascend run = some run.ascend := by
  have bound := run.depth.toNat_lt
  have below : ((run.depth.toNat : Int) - 1) = (run.depth.toNat - 1 : Nat) := by omega
  have down := fit_word8 (n := run.depth.toNat - 1) (by omega)
  have same : UInt8.ofNat ((run.depth.toNat - 1 : Nat) : Int).toNat = run.depth - 1 := by
    have smaller : (run.depth - 1).toNat = run.depth.toNat - 1 :=
      UInt8.toNat_sub_of_le _ _ (UInt8.le_iff_toNat_le.mpr deep)
    rw [Int.toNat_natCast, ← smaller, UInt8.ofNat_toNat]
  rw [Checked.ascend, Option.bind_eq_bind, below, down, Option.bind_some, same, Run.ascend]

/-! ### Resolution -/

/-- One resolver takes the steps of the other for all runs over the window at a depth, without a fault. -/
def Faultless (window : Contents) (depth : UInt8) (checked : Nat → Run S → Option (Attempt S L))
    (plain : Nat → Run S → Attempt S L) : Prop :=
  ∀ offset run, AtDepth window depth run → checked offset run = some (plain offset run)

section
variable {config : Config} {t : Toolchain S L} {window : Contents} {depth : UInt8}
  {checked : Nat → Run S → Option (Attempt S L)} {plain : Nat → Run S → Attempt S L} {run : Run S}

theorem checked_continuations (faultless : Faultless window depth checked plain) (orderly : Orderly t plain)
    (j : Junction) (here : AtDepth window depth run) :
    Checked.continuations checked j run = some (continuations plain j run) := by
  rw [Checked.continuations, continuations, faultless _ _ here]
  have between := here.follows (orderly j.fallthroughStart run)
  generalize plain j.fallthroughStart run = attempt at between ⊢
  obtain ⟨result, later⟩ := attempt
  cases result with
  | error e => rfl
  | ok fallthrough =>
    simp only [Option.bind_eq_bind, Option.bind_some]
    rw [faultless _ _ between, Option.bind_some]
    rcases plain j.targetStart.toNat later with ⟨result, after⟩
    cases result <;> rfl

variable [CodeUnit L]

theorem checked_fuse (shallow : depth.toNat < max 1 config.maxDepth.toNat)
    (faultless : Faultless window (depth + 1) checked plain) (orderly : Orderly t plain) {start : Nat}
    (inside : start ≤ 2 ^ 62) (decoded : Decoded) (entry : CodeTree L) (here : AtDepth window depth run) :
    Checked.fuse config checked start decoded entry run = some (fuse config plain start decoded entry run) := by
  rw [Checked.fuse, fuse, checked_plan inside]
  simp only [Option.bind_eq_bind, Option.bind_some]
  cases planned : plan config start decoded entry with
  | error bailout => rfl
  | ok j =>
    have below : AtDepth window (depth + 1) run.descend := ⟨here.1, congrArg (· + 1) here.2⟩
    have last := below.follows (follows_continuations orderly j run.descend)
    dsimp only
    rw [checked_descend (here.2 ▸ shallow), Option.bind_some, checked_continuations faultless orderly j below,
      Option.bind_some]
    generalize continuations plain j run.descend = attempt at last ⊢
    obtain ⟨result, after⟩ := attempt
    have deep : 0 < after.depth.toNat := by
      rw [show after.depth = depth + 1 from last.2, config.toNat_succ_depth shallow]
      exact Nat.succ_pos _
    dsimp only
    rw [checked_ascend deep, Option.bind_some]
    cases result with
    | error bailout => rfl
    | ok both =>
      obtain ⟨fallthrough, target⟩ := both
      dsimp only
      rw [checked_join inside planned, Option.bind_some]

theorem checked_fuseOrLeaf (small : window.size ≤ 2 ^ 62) (shallow : depth.toNat < max 1 config.maxDepth.toNat)
    (faultless : Faultless window (depth + 1) checked plain) (orderly : Orderly t plain) :
    Faultless window depth (Checked.fuseOrLeaf config t checked) (fuseOrLeaf config t plain) := by
  intro start run here
  rw [Checked.fuseOrLeaf, fuseOrLeaf]
  have between := here.follows (Run.build_follows t start run)
  have result := Run.build_result t start run
  generalize run.build t start = attempt at between result ⊢
  obtain ⟨made, later⟩ := attempt
  cases made with
  | error e => rfl
  | ok built =>
    obtain ⟨decoded, entry⟩ := built
    -- There is an entry, so it starts in the window.
    have inside : start ≤ 2 ^ 62 := Nat.le_trans (Toolchain.entryAt_eq_ok.mp result.symm).1 (here.1 ▸ small)
    dsimp only
    rw [checked_fuse shallow faultless orderly inside decoded entry between, Option.bind_eq_bind, Option.bind_some]
    rcases fuse config plain start decoded entry later with ⟨result, after⟩
    cases result <;> rfl

/-- With as many levels as the limit leaves, nothing goes wrong down to the last of them. -/
theorem checked_resolve (small : window.size ≤ 2 ^ 62) (config : Config) (t : Toolchain S L) (levels : Nat) :
    ∀ depth : UInt8, depth.toNat + (levels + 1) = max 1 config.maxDepth.toNat →
      Faultless window depth (Checked.resolve config t (levels + 1)) (resolve config t (levels + 1)) := by
  induction levels with
  | zero =>
    intro depth last
    refine checked_fuseOrLeaf small (by omega) (fun offset run below => ?_)
      (orderly_limited config (orderly_resolve config t 0))
    have deep : (depth + 1).toNat = depth.toNat + 1 := config.toNat_succ_depth (by omega)
    have limit : ¬ run.depth < config.maxDepth := fun shallow => by
      have bound := UInt8.lt_iff_toNat_lt.mp (below.2 ▸ shallow)
      omega
    rw [if_neg limit, if_neg limit]
  | succ levels ih =>
    intro depth left
    refine checked_fuseOrLeaf small (by omega) (fun offset run below => ?_)
      (orderly_limited config (orderly_resolve config t (levels + 1)))
    have deep : (depth + 1).toNat = depth.toNat + 1 := config.toNat_succ_depth (by omega)
    split
    · exact ih (depth + 1) (by omega) offset run below
    · rfl

/-- Over a window that is not too large no word overflows, no index is past the end, the depth stays within the limit
    and is zero again afterwards, whatever the tools make of the window. -/
theorem combine_checked (config : Config) (t : Toolchain S L) (cursor : Cursor) (small : cursor.window.size ≤ 2 ^ 62)
    (progress : Progress S) :
    Checked.combine config t cursor progress = some (combine config t cursor progress) ∧
      (combine config t cursor progress).2.depth = 0 := by
  let run : Run S := { progress with cursor }
  have here : AtDepth cursor.window 0 run := ⟨rfl, rfl⟩
  rw [Checked.combine]
  cases enabled : config.enabled with
  | false =>
    have kept := (orderly_compileLeaf t cursor.position run).depth
    rw [combine_eq_recorded, enabled]
    exact ⟨rfl, kept⟩
  | true =>
    obtain ⟨levels, count⟩ := config.exists_levels
    have kept := (orderly_resolve config t (levels + 1) cursor.position run).depth
    rw [combine_eq_resolve enabled, count]
    have top : (0 : UInt8).toNat + (levels + 1) = max 1 config.maxDepth.toNat := (Nat.zero_add _).trans count.symm
    have resolved := checked_resolve small config t levels 0 top cursor.position run here
    exact ⟨congrArg (Option.map recorded) resolved, kept⟩

end

section
open Toy

/-- The largest limit there is, and none for the number of micro-operations. -/
def deepest : Config := { maxDepth := 255, minMicroOps := 0 }

/-- A jump over a jump is fused, and the depth is back at zero. -/
theorem window_checked :
    (Cursor.ofWindow window).window.size ≤ 2 ^ 62 ∧
      ∃ run, Checked.combine deepest toolchain (.ofWindow window) ⟨(), {}⟩ = some (.ok tree, run) ∧ run.depth = 0 := by
  have small : (Cursor.ofWindow window).window.size ≤ 2 ^ 62 := by decide
  obtain ⟨checked, depth⟩ := combine_checked deepest toolchain (.ofWindow window) small ⟨(), {}⟩
  have answered : (combine deepest toolchain (.ofWindow window) ⟨(), {}⟩).1 = .ok tree := rfl
  rw [checked]
  exact ⟨small, _, congrArg some (Prod.ext answered rfl), depth⟩

end

end GuestMemory.Fusion
