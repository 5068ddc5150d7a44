import GuestMemory.Proofs.Fusion.Shape
import GuestMemory.Proofs.Fusion.Toy

/-!
When entries are fused. With tools that keep no state, what is resolved at an offset depends on the offset
and on the levels of fusion that are left, and on nothing else of the run (`settle`, `resolve_eq_settle`).
So the answer to a request can be told from the leaf at its entry and from what its two continuations are
resolved to (`combine_fusedExactly`): they are fused if every one of the conditions holds, and in all other cases
the answer is the leaf. Only where there is no leaf is it an error.
-/
namespace GuestMemory.Fusion

variable {S L : Type}

namespace Toolchain

/-- What compiling a single leaf at an offset gives. -/
def singleAt (t : Toolchain S L) (window : Contents) (s : S) (offset : Nat) : Except CombineError (CodeTree L) :=
  ((runOver window s).compileLeaf t offset).1

theorem singleAt_eq (t : Toolchain S L) (window : Contents) (s : S) (offset : Nat) :
    t.singleAt window s offset = (t.entryAt window offset s).map Prod.snd := by
  rw [singleAt, Run.compileLeaf_eq]
  rfl

theorem Stateless.compileLeaf_result {t : Toolchain S L} (pure : t.Stateless) {window : Contents} (s : S)
    (offset : Nat) {run : Run S} (same : run.cursor.window = window) :
    (run.compileLeaf t offset).1 = t.singleAt window s offset := by
  rw [Run.compileLeaf_eq, singleAt_eq, same, pure.entryAt_congr window offset run.tools s]

end Toolchain

/-! ### Runs -/

/-- Runs over the window at a depth. -/
def AtDepth (window : Contents) (depth : UInt8) (run : Run S) : Prop :=
  run.cursor.window = window ∧ run.depth = depth

theorem AtDepth.follows {t : Toolchain S L} {window : Contents} {depth : UInt8} {before after : Run S}
    (start : AtDepth window depth before) (follows : before.Follows t after) : AtDepth window depth after :=
  ⟨follows.window.trans start.1, follows.depth.trans start.2⟩

/-- Gives what was resolved already, and leaves the run alone. -/
def preset (resolved : Nat → Except CombineError (CodeTree L)) : Nat → Run S → Attempt S L :=
  fun offset run => (resolved offset, run)

section
variable [CodeUnit L] {config : Config} {t : Toolchain S L} {deeper : Nat → Run S → Attempt S L}
  {resolved : Nat → Except CombineError (CodeTree L)} {window : Contents} {depth : UInt8}

/-- A fusion depends on the run only through what the continuations are resolved to. -/
theorem fuse_result (orderly : Orderly t deeper)
    (agrees : ∀ offset run, AtDepth window (depth + 1) run → (deeper offset run).1 = resolved offset) (start : Nat)
    (decoded : Decoded) (entry : CodeTree L) {run : Run S} (here : AtDepth window depth run) (other : Run S) :
    (fuse config deeper start decoded entry run).1 = (fuse config (preset resolved) start decoded entry other).1 := by
  rw [fuse, fuse]
  cases plan config start decoded entry with
  | error bailout => rfl
  | ok j =>
    have below : AtDepth window (depth + 1) run.descend := ⟨here.1, congrArg (· + 1) here.2⟩
    have left := agrees j.fallthroughStart _ below
    have between := below.follows (orderly j.fallthroughStart run.descend)
    simp only [continuations, preset]
    generalize deeper j.fallthroughStart run.descend = attempt at left between ⊢
    obtain ⟨result, later⟩ := attempt
    dsimp only at left between ⊢
    rw [← left]
    cases result with
    | error e => rfl
    | ok fallthrough =>
      have right := agrees j.targetStart.toNat _ between
      dsimp only
      generalize deeper j.targetStart.toNat later = attempt at right ⊢
      obtain ⟨result, last⟩ := attempt
      dsimp only at right ⊢
      rw [← right]
      cases result <;> rfl

/-- An entry that cannot be fused is the answer itself. -/
theorem fuseOrLeaf_of_entryAt {start : Nat} {run : Run S} {decoded : Decoded} {entry : CodeTree L}
    (built : t.entryAt run.cursor.window start run.tools = .ok (decoded, entry)) :
    (fuseOrLeaf config t deeper start run).1 =
      match (fuse config deeper start decoded entry (run.build t start).2).1 with
      | .error _ => .ok entry
      | .ok compound => .ok compound := by
  rw [← Run.build_result] at built
  rw [fuseOrLeaf]
  generalize run.build t start = attempt at built ⊢
  obtain ⟨result, between⟩ := attempt
  obtain rfl : result = .ok (decoded, entry) := built
  dsimp only
  generalize fuse config deeper start decoded entry between = attempt
  obtain ⟨result, after⟩ := attempt
  cases result <;> rfl

theorem fuseOrLeaf_of_entryAt_error {start : Nat} {run : Run S} {e : CombineError}
    (failed : t.entryAt run.cursor.window start run.tools = .error e) :
    (fuseOrLeaf config t deeper start run).1 = .error e := by
  rw [← Run.build_result] at failed
  rw [fuseOrLeaf]
  generalize run.build t start = attempt at failed ⊢
  obtain ⟨result, between⟩ := attempt
  obtain rfl : result = .error e := failed
  rfl

theorem fuseOrLeaf_result (pure : t.Stateless) (s : S) (orderly : Orderly t deeper)
    (agrees : ∀ offset run, AtDepth window (depth + 1) run → (deeper offset run).1 = resolved offset) (start : Nat)
    {run : Run S} (here : AtDepth window depth run) :
    (fuseOrLeaf config t deeper start run).1 =
      (fuseOrLeaf config t (preset resolved) start (Toolchain.runOver window s)).1 := by
  have same : t.entryAt run.cursor.window start run.tools = t.entryAt window start s := by
    rw [here.1, pure.entryAt_congr]
  cases built : t.entryAt window start s with
  | error e =>
    rw [built] at same
    rw [fuseOrLeaf_of_entryAt_error same, fuseOrLeaf_of_entryAt_error built]
  | ok made =>
    obtain ⟨decoded, entry⟩ := made
    rw [built] at same
    have after := here.follows (Run.build_follows t start run)
    rw [fuseOrLeaf_of_entryAt same, fuseOrLeaf_of_entryAt built,
      fuse_result orderly agrees start decoded entry after ((Toolchain.runOver window s).build t start).2]

/-! ### Levels -/

namespace Toolchain

/-- The code at an offset with at most so many levels of fusion. -/
def settle (config : Config) (t : Toolchain S L) (window : Contents) (s : S) :
    Nat → Nat → Except CombineError (CodeTree L)
  | 0, offset => t.singleAt window s offset
  | levels + 1, offset =>
    (fuseOrLeaf config t (preset (settle config t window s levels)) offset (runOver window s)).1

/-- What a continuation at an offset is resolved to at a depth. -/
def continuationAt (config : Config) (t : Toolchain S L) (window : Contents) (s : S) (depth : UInt8) (offset : Nat) :
    Except CombineError (CodeTree L) :=
  let run : Run S := { runOver window s with depth }
  if depth < config.maxDepth then (resolve config t (config.maxDepth.toNat + 1) offset run).1
  else (run.compileLeaf t offset).1

end Toolchain

open Toolchain

/-- What is resolved in a run depends on the levels that are left below the limit. As in
    `resolve_fused`, the limit counts as one at least. -/
theorem resolve_eq_settle (pure : t.Stateless) (config : Config) (s : S) (fuel : Nat) :
    ∀ (levels start : Nat) (run : Run S), run.cursor.window = window → levels < fuel →
      run.depth.toNat + (levels + 1) = max 1 config.maxDepth.toNat →
      (resolve config t fuel start run).1 = settle config t window s (levels + 1) start := by
  induction fuel with
  | zero => exact fun levels _ _ _ enough _ => absurd enough (Nat.not_lt_zero levels)
  | succ fuel ih =>
    intro levels start run same enough depth
    have orderly := orderly_limited config (orderly_resolve config t fuel)
    refine fuseOrLeaf_result pure s orderly (fun offset later below => ?_) start ⟨same, rfl⟩
    have deep : later.depth.toNat = run.depth.toNat + 1 := below.2 ▸ config.toNat_succ_depth (by omega)
    split
    · rename_i shallow
      have bound := UInt8.lt_iff_toNat_lt.mp shallow
      obtain ⟨fewer, rfl⟩ : ∃ fewer, levels = fewer + 1 := ⟨levels - 1, by omega⟩
      exact ih fewer offset later below.1 (by omega) (by omega)
    · rename_i limited
      have bound := mt UInt8.lt_iff_toNat_lt.mpr limited
      obtain rfl : levels = 0 := by omega
      exact pure.compileLeaf_result s offset below.1

theorem continuationAt_eq_settle (pure : t.Stateless) (s : S) (depth : UInt8) (offset : Nat) :
    continuationAt config t window s depth offset =
      settle config t window s (config.maxDepth.toNat - depth.toNat) offset := by
  rw [continuationAt]
  by_cases shallow : depth < config.maxDepth
  · have bound := UInt8.lt_iff_toNat_lt.mp shallow
    obtain ⟨levels, left⟩ : ∃ levels, config.maxDepth.toNat - depth.toNat = levels + 1 :=
      ⟨config.maxDepth.toNat - depth.toNat - 1, by omega⟩
    rw [if_pos shallow, left]
    refine resolve_eq_settle pure config s _ levels offset _ rfl (by omega) ?_
    show depth.toNat + (levels + 1) = _
    omega
  · have bound := mt UInt8.lt_iff_toNat_lt.mpr shallow
    rw [if_neg shallow, Nat.sub_eq_zero_of_le (Nat.le_of_not_lt bound)]
    exact pure.compileLeaf_result s offset rfl

/-- A request has one level of fusion, and those that the limit leaves its continuations. -/
theorem combine_eq_settle (pure : t.Stateless) (enabled : config.enabled = true) (start : Nat)
    (progress : Progress S) :
    (combine config t ⟨window, start⟩ progress).1 =
      settle config t window progress.tools (config.maxDepth.toNat - 1 + 1) start := by
  simp only [combine, enabled, if_true]
  refine resolve_eq_settle pure config progress.tools _ _ start { progress with cursor := ⟨window, start⟩ } rfl
    (by omega) ?_
  show 0 + (config.maxDepth.toNat - 1 + 1) = _
  omega

/-! ### Exactness -/

/-- The junction at the end of a leaf. -/
def Junction.ofLeaf (start : Nat) (unit : L) (displacement : Int) : Junction :=
  ⟨start, (CodeUnit.byteLength unit).toNat, displacement⟩

/-- The conditions on which a leaf is fused, over a displacement, with what its continuations are resolved to. -/
structure Fuses (config : Config) (t : Toolchain S L) (window : Contents) (s : S)
    (resolved : Nat → Except CombineError (CodeTree L)) (start : Nat) (ops : List MicroOp) (unit : L)
    (displacement : Int) (fallthrough target : CodeTree L) : Prop where
  contained : CodeUnit.isSpanning unit = false
  branch : ∃ b, trailingBranch config ops = .ok b ∧ b.displacement = displacement
  target_nonneg : 0 ≤ (Junction.ofLeaf start unit displacement).targetStart
  fallthrough_leaf : ∃ leaf, t.singleAt window s (Junction.ofLeaf start unit displacement).fallthroughStart = .ok leaf
  target_leaf : ∃ leaf, t.singleAt window s (Junction.ofLeaf start unit displacement).targetStart.toNat = .ok leaf
  fallthrough_resolved : resolved (Junction.ofLeaf start unit displacement).fallthroughStart = .ok fallthrough
  target_resolved : resolved (Junction.ofLeaf start unit displacement).targetStart.toNat = .ok target
  fallthrough_contained : fallthrough.isSpanning = false
  target_contained : target.isSpanning = false
  fallthrough_end : (Junction.ofLeaf start unit displacement).fallthroughEnd fallthrough.byteLength.toNat ≤
    config.segmentLimit.toNat
  target_end : (Junction.ofLeaf start unit displacement).targetEnd target.byteLength.toNat ≤
    config.segmentLimit.toNat

/-- The answer for an offset is an error where there is no leaf, a compound where the leaf is fused, and the
    leaf everywhere else. -/
structure FusedExactly (config : Config) (t : Toolchain S L) (window : Contents) (s : S)
    (resolved : Nat → Except CombineError (CodeTree L)) (start : Nat)
    (answer : Except CombineError (CodeTree L)) : Prop where
  failed : ∀ e, answer = .error e ↔ t.singleAt window s start = .error e
  entry : ∀ code, t.singleAt window s start = .ok code →
    ∃ decoded unit, code = .leaf unit ∧ t.entryAt window start s = .ok (decoded, .leaf unit)
  fused : ∀ decoded unit, t.entryAt window start s = .ok (decoded, .leaf unit) →
    ∀ displacement fallthrough target,
      answer = .ok (.compound (.leaf unit) fallthrough target (saturate start) displacement) ↔
        Fuses config t window s resolved start decoded.ops unit displacement fallthrough target
  unfused : ∀ decoded unit, t.entryAt window start s = .ok (decoded, .leaf unit) →
    (¬ ∃ displacement fallthrough target,
      Fuses config t window s resolved start decoded.ops unit displacement fallthrough target) →
    answer = .ok (.leaf unit)

section
variable {s : S}

/-- A leaf is fused exactly on those conditions, if only what has a leaf is resolved. -/
theorem fuse_leaf_eq_ok
    (settled : ∀ offset code, resolved offset = .ok code → ∃ leaf, t.singleAt window s offset = .ok leaf)
    {start : Nat} {decoded : Decoded} {unit : L} {code : CodeTree L} {run : Run S} :
    (fuse config (preset resolved) start decoded (.leaf unit) run).1 = .ok code ↔
      ∃ displacement fallthrough target,
        Fuses config t window s resolved start decoded.ops unit displacement fallthrough target ∧
        code = .compound (.leaf unit) fallthrough target (saturate start) displacement := by
  rw [fuse_eq_ok]
  constructor
  · rintro ⟨j, fallthrough, target, planned, left, right, joins⟩
    obtain ⟨contained, b, branch, rfl, nonneg⟩ := plan_eq_ok.mp planned
    obtain ⟨leftContained, rightContained, leftEnd, rightEnd, rfl⟩ := join_eq_ok.mp joins
    exact ⟨b.displacement, fallthrough, target, ⟨contained, ⟨b, branch, rfl⟩, nonneg, settled _ _ left,
      settled _ _ right, left, right, leftContained, rightContained, leftEnd, rightEnd⟩, rfl⟩
  · rintro ⟨_, fallthrough, target, fuses, rfl⟩
    obtain ⟨b, branch, rfl⟩ := fuses.branch
    refine ⟨.ofLeaf start unit b.displacement, fallthrough, target, ?_, fuses.fallthrough_resolved,
      fuses.target_resolved, ?_⟩
    · exact plan_eq_ok.mpr ⟨fuses.contained, b, branch, rfl, fuses.target_nonneg⟩
    · exact join_eq_ok.mpr ⟨fuses.fallthrough_contained, fuses.target_contained, fuses.fallthrough_end,
        fuses.target_end, rfl⟩

/-- However many levels are left, the only error is that of the entry. -/
theorem settle_eq_error (levels : Nat) {offset : Nat} {e : CombineError} :
    settle config t window s levels offset = .error e ↔ t.singleAt window s offset = .error e := by
  cases levels with
  | zero => exact Iff.rfl
  | succ levels =>
    rw [settle, singleAt_eq]
    cases built : t.entryAt window offset s with
    | error cause =>
      rw [fuseOrLeaf_of_entryAt_error built]
      simp [Except.map]
    | ok made =>
      rw [fuseOrLeaf_of_entryAt built]
      split <;> simp [Except.map]

theorem exists_singleAt_of_settle (levels offset : Nat) (code : CodeTree L)
    (settled : settle config t window s levels offset = .ok code) : ∃ leaf, t.singleAt window s offset = .ok leaf := by
  cases compiled : t.singleAt window s offset with
  | ok leaf => exact ⟨leaf, rfl⟩
  | error e =>
    rw [(settle_eq_error levels).mpr compiled] at settled
    cases settled

theorem settle_fusedExactly (leaves : t.OnlyLeaves) (levels start : Nat) :
    FusedExactly config t window s (settle config t window s levels) start
      (settle config t window s (levels + 1) start) where
  failed e := settle_eq_error (levels + 1)
  entry code compiled := by
    rw [singleAt_eq] at compiled
    cases built : t.entryAt window start s with
    | error e => simp [built, Except.map] at compiled
    | ok made =>
      obtain ⟨decoded, entry⟩ := made
      obtain ⟨unit, rfl⟩ := leaves.entryAt built
      rw [built] at compiled
      cases compiled
      exact ⟨decoded, unit, rfl, rfl⟩
  fused decoded unit built displacement fallthrough target := by
    rw [settle, fuseOrLeaf_of_entryAt built]
    constructor
    · intro answered
      split at answered
      · cases answered
      · rename_i code fused
        cases answered
        obtain ⟨_, _, _, fuses, same⟩ := (fuse_leaf_eq_ok (exists_singleAt_of_settle levels)).mp fused
        cases same
        exact fuses
    · intro fuses
      rw [(fuse_leaf_eq_ok (exists_singleAt_of_settle levels)).mpr ⟨_, _, _, fuses, rfl⟩]
  unfused decoded unit built nothing := by
    rw [settle, fuseOrLeaf_of_entryAt built]
    split
    · rfl
    · rename_i code fused
      obtain ⟨_, _, _, fuses, rfl⟩ := (fuse_leaf_eq_ok (exists_singleAt_of_settle levels)).mp fused
      exact absurd ⟨_, _, _, fuses⟩ nothing

end

/-- With tools that keep no state and make leaves only, a request is answered with an error exactly where there
    is no leaf, with a compound exactly where the leaf is fused with its two continuations, and with the leaf
    everywhere else; and so is every continuation, one level deeper, until the limit is reached. Whatever
    goes wrong below a continuation that has a leaf does not make it an error. -/
theorem combine_fusedExactly (enabled : config.enabled = true) (pure : t.Stateless) (leaves : t.OnlyLeaves)
    (window : Contents) (start : Nat) (progress : Progress S) :
    FusedExactly config t window progress.tools (continuationAt config t window progress.tools 1) start
      (combine config t ⟨window, start⟩ progress).1 ∧
    (∀ depth < config.maxDepth, ∀ offset,
      FusedExactly config t window progress.tools (continuationAt config t window progress.tools (depth + 1)) offset
        (continuationAt config t window progress.tools depth offset)) ∧
    (∀ depth, config.maxDepth ≤ depth → ∀ offset,
      continuationAt config t window progress.tools depth offset = t.singleAt window progress.tools offset) ∧
    (∀ depth offset e, continuationAt config t window progress.tools depth offset = .error e ↔
      t.singleAt window progress.tools offset = .error e) := by
  have settles : ∀ depth, continuationAt config t window progress.tools depth =
      settle config t window progress.tools (config.maxDepth.toNat - depth.toNat) :=
    fun depth => funext (continuationAt_eq_settle pure progress.tools depth)
  refine ⟨?_, fun depth shallow offset => ?_, fun depth limited offset => ?_, fun depth offset e => ?_⟩
  · rw [combine_eq_settle pure enabled, settles]
    exact settle_fusedExactly leaves _ start
  · have bound := UInt8.lt_iff_toNat_lt.mp shallow
    have next : (depth + 1).toNat = depth.toNat + 1 := config.toNat_succ_depth (by omega)
    rw [settles, settles, next, show config.maxDepth.toNat - depth.toNat =
      config.maxDepth.toNat - (depth.toNat + 1) + 1 by omega]
    exact settle_fusedExactly leaves _ offset
  · rw [settles, Nat.sub_eq_zero_of_le (UInt8.le_iff_toNat_le.mp limited), settle]
  · rw [settles]
    exact settle_eq_error _

end

section
open Toy

/-- The jump at the start of the window is fused, over its displacement, with the jump behind it, which is
    fused itself, and with the instruction that it jumps to. -/
theorem window_fusedExactly :
    ({} : Config).enabled = true ∧ toolchain.Stateless ∧ toolchain.OnlyLeaves ∧
      toolchain.entryAt window 0 () = .ok (⟨0, 2, 1, ops 2 .jzO8 3⟩, .leaf ⟨2, .branches, false⟩) ∧
      Fuses {} toolchain window () (toolchain.continuationAt {} window () 1) 0 (ops 2 .jzO8 3)
        ⟨2, .branches, false⟩ 3
        (.compound (.leaf ⟨2, .jumps, false⟩) (.leaf ⟨1, .returns, false⟩) (.leaf ⟨1, .switches, false⟩) 2 1)
        (.leaf ⟨1, .switches, false⟩) := by
  have entry : toolchain.entryAt window 0 () = .ok (⟨0, 2, 1, ops 2 .jzO8 3⟩, .leaf ⟨2, .branches, false⟩) := rfl
  have enabled : ({} : Config).enabled = true := rfl
  have exactly := (combine_fusedExactly enabled stateless_toolchain onlyLeaves_toolchain window 0 ⟨(), {}⟩).1
  exact ⟨enabled, stateless_toolchain, onlyLeaves_toolchain, entry, (exactly.fused _ _ entry _ _ _).mp combine_window⟩

end

end GuestMemory.Fusion
