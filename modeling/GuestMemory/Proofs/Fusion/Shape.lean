import GuestMemory.Proofs.Fusion.Building
import Mathlib.Tactic.SplitIfs

/-!
The shape of fused code. Everything a request can answer with is an entry as it was built, or a
compound of such an entry with two pieces of fused code, one level less deep, at the two ends of its
trailing branch (`Fused`, `combine_fused`).
-/
namespace GuestMemory.Fusion

variable {S L : Type}

/-! ### Conditions for a fusion -/

theorem mem_of_branchAndOperand? {ops : List MicroOp} {branch operand : MicroOp}
    (found : branchAndOperand? ops = some (branch, operand)) : branch ∈ ops := by
  rw [branchAndOperand?] at found
  split at found
  · rename_i last middle first rest reversed
    cases found
    rw [← List.mem_reverse, reversed]
    exact List.mem_cons_self
  · cases found

theorem trailingBranch_eq_ok {config : Config} {ops : List MicroOp} {b : Branch} :
    trailingBranch config ops = .ok b ↔
      requiredMicroOps config ≤ ops.length ∧ ∃ branch operand,
        branchAndOperand? ops = some (branch, operand) ∧ operand.kind.isShortImmediateLoad = true ∧
        branch.kind ∈ combinableBranches ∧ 0 ≤ operand.signedImmediate + branch.instructionLength.toNat ∧
        operand.signedImmediate.natAbs ≤ config.maxDisplacement.toNat ∧
        b = ⟨branch.kind, operand.signedImmediate, branch.instructionLength⟩ := by
  rw [trailingBranch]
  by_cases few : ops.length < requiredMicroOps config
  · simp [few, Nat.not_le.mpr few]
  · simp only [few, if_false, Nat.le_of_not_lt few, true_and]
    cases branchAndOperand? ops with
    | none => simp
    | some found =>
      obtain ⟨branch, operand⟩ := found
      simp only [Option.some.injEq, Prod.mk.injEq]
      constructor
      · intro accepted
        split_ifs at accepted with load kind backward large
        simp only [Except.ok.injEq] at accepted
        exact ⟨branch, operand, ⟨rfl, rfl⟩, by simpa using load, by simpa using kind, Int.not_lt.mp backward,
          Nat.le_of_not_lt large, accepted.symm⟩
      · rintro ⟨_, _, ⟨rfl, rfl⟩, load, kind, forward, small, rfl⟩
        rw [if_neg (by simp [load]), if_neg (by simpa using kind), if_neg (Int.not_lt.mpr forward),
          if_neg (Nat.not_lt.mpr small)]

theorem trailingBranch_displacement_le {config : Config} {ops : List MicroOp} {b : Branch}
    (accepted : trailingBranch config ops = .ok b) : b.displacement.natAbs ≤ config.maxDisplacement.toNat := by
  obtain ⟨_, branch, operand, _, _, _, _, small, rfl⟩ := trailingBranch_eq_ok.mp accepted
  exact small

/-- A fusable branch does not reach back past the entry that it ends. -/
theorem trailingBranch_reach {config : Config} {ops : List MicroOp} {b : Branch} {length : Nat}
    (accepted : trailingBranch config ops = .ok b) (bounded : ∀ op ∈ ops, op.instructionLength.toNat ≤ length) :
    0 ≤ length + b.displacement := by
  obtain ⟨_, branch, operand, found, _, _, forward, _, rfl⟩ := trailingBranch_eq_ok.mp accepted
  have short := bounded branch (mem_of_branchAndOperand? found)
  show 0 ≤ (length : Int) + operand.signedImmediate
  omega

variable [CodeUnit L]

theorem plan_eq_ok {config : Config} {start : Nat} {decoded : Decoded} {entry : CodeTree L} {j : Junction} :
    plan config start decoded entry = .ok j ↔
      entry.isSpanning = false ∧ ∃ branch, trailingBranch config decoded.ops = .ok branch ∧
        j = ⟨start, entry.byteLength.toNat, branch.displacement⟩ ∧ 0 ≤ j.targetStart := by
  rw [plan]
  cases entry.isSpanning with
  | true => simp
  | false =>
    simp only [Bool.false_eq_true, if_false, true_and]
    cases trailingBranch config decoded.ops with
    | error bailout => simp
    | ok branch =>
      simp only [Except.ok.injEq, exists_eq_left']
      constructor
      · intro accepted
        split_ifs at accepted with negative
        cases accepted
        exact ⟨rfl, Int.not_lt.mp negative⟩
      · rintro ⟨rfl, inside⟩
        exact if_neg (Int.not_lt.mpr inside)

theorem join_eq_ok {config : Config} {j : Junction} {entry fallthrough target code : CodeTree L} :
    join config j entry fallthrough target = .ok code ↔
      fallthrough.isSpanning = false ∧ target.isSpanning = false ∧
      j.fallthroughEnd fallthrough.byteLength.toNat ≤ config.segmentLimit.toNat ∧
      j.targetEnd target.byteLength.toNat ≤ config.segmentLimit.toNat ∧
      code = .compound entry fallthrough target (saturate j.start) j.displacement := by
  rw [join]
  cases fallthrough.isSpanning with
  | true => simp
  | false =>
    cases target.isSpanning with
    | true => simp
    | false =>
      simp only [Bool.false_eq_true, if_false, true_and]
      constructor
      · intro accepted
        split_ifs at accepted with first second
        cases accepted
        exact ⟨Int.not_lt.mp first, Int.not_lt.mp second, rfl⟩
      · rintro ⟨first, second, rfl⟩
        rw [if_neg (Int.not_lt.mpr first), if_neg (Int.not_lt.mpr second)]

/-- Both ends were found below the limit, which is a 32-bit number, so the length is not cut. -/
theorem byteLength_of_join {config : Config} {j : Junction} {entry fallthrough target code : CodeTree L}
    (entryLength : j.entryLength = entry.byteLength.toNat) (joins : join config j entry fallthrough target = .ok code) :
    (code.byteLength.toNat : Int) = max (entry.byteLength.toNat + fallthrough.byteLength.toNat : Int)
      (entry.byteLength.toNat + j.displacement + target.byteLength.toNat) := by
  obtain ⟨_, _, leftEnd, rightEnd, rfl⟩ := join_eq_ok.mp joins
  have limit := config.segmentLimit.toNat_lt
  simp only [Junction.fallthroughEnd, Junction.targetEnd, Junction.targetStart, Junction.fallthroughStart,
    entryLength] at leftEnd rightEnd
  have whole := toNat_saturate (CodeTree.extent entry.byteLength.toNat fallthrough.byteLength.toNat
    target.byteLength.toNat j.displacement)
  rw [CodeTree.extent, maxWord32] at whole
  rw [CodeTree.byteLength, CodeTree.extent, whole]
  omega

/-! ### Fused code -/

/-- Code for `start` with at most `levels` compounds on top of one another, from entries of which
    `made` tells what was decoded for them and where. -/
inductive Fused (config : Config) (made : Nat → Decoded → CodeTree L → Prop) : Nat → Nat → CodeTree L → Prop
  | entry {levels start decoded code} (built : made start decoded code) : Fused config made levels start code
  | joined {levels start decoded entry j fallthrough target code} (built : made start decoded entry)
      (planned : plan config start decoded entry = .ok j)
      (left : Fused config made levels j.fallthroughStart fallthrough)
      (right : Fused config made levels j.targetStart.toNat target)
      (joins : join config j entry fallthrough target = .ok code) : Fused config made (levels + 1) start code

theorem Fused.mono {config : Config} {made wider : Nat → Decoded → CodeTree L → Prop}
    (sub : ∀ start decoded code, made start decoded code → wider start decoded code) {levels start : Nat}
    {code : CodeTree L} (fused : Fused config made levels start code) : Fused config wider levels start code := by
  induction fused with
  | entry built => exact .entry (sub _ _ _ built)
  | joined built planned _ _ joins left right => exact .joined (sub _ _ _ built) planned left right joins

/-! ### Resolution -/

variable {t : Toolchain S L} {deeper : Nat → Run S → Attempt S L}

theorem follows_fuse (orderly : Orderly t deeper) (config : Config) (start : Nat) (decoded : Decoded)
    (entry : CodeTree L) (run : Run S) :
    run.Follows t (fuse config deeper start decoded entry run).2 := by
  rw [fuse]
  cases plan config start decoded entry with
  | error bailout => exact .refl run
  | ok j =>
    dsimp only
    have both := follows_continuations orderly j run.descend
    generalize continuations deeper j run.descend = attempt at both ⊢
    obtain ⟨result, after⟩ := attempt
    cases result <;> exact Run.follows_ascend both

theorem orderly_fuseOrLeaf (orderly : Orderly t deeper) (config : Config) :
    Orderly t (fuseOrLeaf config t deeper) := by
  intro start run
  rw [fuseOrLeaf]
  have here := Run.build_follows t start run
  generalize run.build t start = attempt at here ⊢
  obtain ⟨result, between⟩ := attempt
  cases result with
  | error e => exact here
  | ok built =>
    obtain ⟨decoded, entry⟩ := built
    dsimp only
    have fused := follows_fuse orderly config start decoded entry between
    generalize fuse config deeper start decoded entry between = attempt at fused ⊢
    obtain ⟨result, after⟩ := attempt
    cases result with
    | error bailout => exact here.trans (fused.trans (Run.follows_bailOut after))
    | ok compound => exact here.trans fused

/-- Requests resolve everything over one window and at the depth where they began. -/
theorem orderly_resolve (config : Config) (t : Toolchain S L) (fuel : Nat) :
    Orderly t (resolve config t fuel) := by
  induction fuel with
  | zero => exact orderly_compileLeaf t
  | succ fuel ih => exact orderly_fuseOrLeaf (orderly_limited config ih) config

/-- A fusion goes through where the plan does, both continuations are there, and they can be joined. -/
theorem fuse_eq_ok {config : Config} {start : Nat} {decoded : Decoded} {entry code : CodeTree L} {run : Run S} :
    (fuse config deeper start decoded entry run).1 = .ok code ↔
      ∃ j fallthrough target, plan config start decoded entry = .ok j ∧
        (deeper j.fallthroughStart run.descend).1 = .ok fallthrough ∧
        (deeper j.targetStart.toNat (deeper j.fallthroughStart run.descend).2).1 = .ok target ∧
        join config j entry fallthrough target = .ok code := by
  rw [fuse]
  cases planned : plan config start decoded entry with
  | error bailout => simp
  | ok j =>
    simp only [continuations]
    rcases left : deeper j.fallthroughStart run.descend with ⟨result, between⟩
    cases result with
    | error e => simp [left]
    | ok fallthrough =>
      dsimp only
      rcases right : deeper j.targetStart.toNat between with ⟨result, after⟩
      cases result with
      | error e => simp [left, right]
      | ok target => simp [left, right]

/-- The answer is the entry as it was built, or what it was fused into. -/
theorem fuseOrLeaf_eq_ok {config : Config} {start : Nat} {code : CodeTree L} {run : Run S}
    (answered : (fuseOrLeaf config t deeper start run).1 = .ok code) :
    ∃ decoded entry, t.entryAt run.cursor.window start run.tools = .ok (decoded, entry) ∧
      (code = entry ∨ (fuse config deeper start decoded entry (run.build t start).2).1 = .ok code) := by
  rw [fuseOrLeaf] at answered
  rw [← Run.build_result]
  generalize run.build t start = attempt at answered ⊢
  obtain ⟨result, between⟩ := attempt
  cases result with
  | error e => cases answered
  | ok built =>
    obtain ⟨decoded, entry⟩ := built
    refine ⟨decoded, entry, rfl, ?_⟩
    dsimp only at answered ⊢
    generalize fuse config deeper start decoded entry between = attempt at answered ⊢
    obtain ⟨result, after⟩ := attempt
    cases result with
    | error bailout => exact .inl (Except.ok.inj answered).symm
    | ok compound => exact .inr (congrArg Except.ok (Except.ok.inj answered))

theorem fused_compileLeaf (config : Config) (levels : Nat) {start : Nat} {code : CodeTree L} {run : Run S}
    (compiled : (run.compileLeaf t start).1 = .ok code) :
    Fused config (t.Makes run.cursor.window run.tools) levels start code := by
  rw [Run.compileLeaf_eq] at compiled
  cases built : t.entryAt run.cursor.window start run.tools with
  | error e => simp [built, Except.map] at compiled
  | ok made =>
    simp only [built, Except.map, Except.ok.injEq] at compiled
    subst compiled
    exact .entry ⟨run.tools, .refl, built⟩

/-- What is resolved at a depth below the limit is fused code with as many levels as are left. The
    limit counts as one at least, because the first fusion does not look at it. -/
theorem resolve_fused (config : Config) (t : Toolchain S L) (fuel : Nat) :
    ∀ (levels start : Nat) (run : Run S) (code : CodeTree L),
      run.depth.toNat + (levels + 1) = max 1 config.maxDepth.toNat →
      (resolve config t fuel start run).1 = .ok code →
      Fused config (t.Makes run.cursor.window run.tools) (levels + 1) start code := by
  induction fuel with
  | zero =>
    intro levels start run code _ resolved
    exact fused_compileLeaf config (levels + 1) resolved
  | succ fuel ih =>
    intro levels start run code depth resolved
    obtain ⟨decoded, entry, built, rfl | fused⟩ := fuseOrLeaf_eq_ok resolved
    · exact .entry ⟨run.tools, .refl, built⟩
    · obtain ⟨j, fallthrough, target, planned, left, right, joins⟩ := fuse_eq_ok.mp fused
      -- A continuation sees the depth one higher, and has one level less.
      have below : ∀ offset (later : Run S) piece, run.descend.Follows t later →
          (if later.depth < config.maxDepth then resolve config t fuel offset later
            else later.compileLeaf t offset).1 = .ok piece →
          Fused config (t.Makes run.cursor.window run.tools) levels offset piece := by
        intro offset later piece follows answered
        refine Fused.mono (fun _ _ _ => follows.makes) ?_
        have deep : later.depth.toNat = run.depth.toNat + 1 :=
          follows.depth ▸ config.toNat_succ_depth (by omega)
        split at answered
        · rename_i shallow
          have bound := UInt8.lt_iff_toNat_lt.mp shallow
          obtain ⟨fewer, rfl⟩ : ∃ fewer, levels = fewer + 1 := ⟨levels - 1, by omega⟩
          exact ih fewer offset later piece (by omega) answered
        · exact fused_compileLeaf config levels answered
      have first := Run.follows_descend (Run.build_follows t start run)
      have second := orderly_limited config (orderly_resolve config t fuel) j.fallthroughStart
        (run.build t start).2.descend
      exact .joined ⟨run.tools, .refl, built⟩ planned (below _ _ _ first left)
        (below _ _ _ (first.trans second) right) joins

/-- Whatever a request answers with is fused code for the place it asked about. -/
theorem combine_fused {config : Config} {cursor : Cursor} {progress : Progress S} {code : CodeTree L}
    (answered : (combine config t cursor progress).1 = .ok code) :
    Fused config (t.Makes cursor.window progress.tools) (max 1 config.maxDepth.toNat) cursor.position code := by
  simp only [combine] at answered
  obtain ⟨levels, count⟩ := config.exists_levels
  rw [count]
  split at answered
  · exact resolve_fused config t _ levels _ { progress with cursor } code (by simpa using count.symm) answered
  · have compiled : (({ progress with cursor } : Run S).compileLeaf t cursor.position).1 = .ok code := answered
    exact fused_compileLeaf config (levels + 1) compiled

end GuestMemory.Fusion
