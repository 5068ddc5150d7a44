import GuestMemory.Proofs.Fusion.Exactness
import GuestMemory.Proofs.Fusion.Resolutions

/-!
How deep fusion goes. The depth is compared with the limit where continuations are resolved, and nowhere else:
the entry that a request asks for is fused without looking at the limit. So nothing is fused at the limit or
deeper if the limit is positive, and a limit of zero is kept only where fusion is switched off; otherwise it
allows what a limit of one does (`fusesBelow_iff`).
-/
namespace GuestMemory.Fusion

/-- Requests fuse nothing at this depth or deeper, the request itself being at depth zero, also where the
    result was thrown away; and their answers have no more compounds on top of one another. -/
structure FusesBelow (config : Config) (limit : Nat) : Prop where
  resolved : ∀ {S L : Type} [CodeUnit L] (t : Toolchain S L), t.OnlyLeaves → ∀ cursor progress,
    ∀ r ∈ resolutions config t cursor progress, r.isFused = true → r.depth.toNat < limit
  nesting : ∀ {S L : Type} [CodeUnit L] (t : Toolchain S L), t.OnlyLeaves → ∀ cursor progress code,
    (combine config t cursor progress).1 = .ok code → code.nestingDepth ≤ limit
  leaf : limit = 0 → ∀ {S L : Type} [CodeUnit L] (t : Toolchain S L), t.OnlyLeaves → ∀ cursor progress code,
    (combine config t cursor progress).1 = .ok code → ∃ unit, code = .leaf unit

section
variable {S L : Type} [CodeUnit L] {config : Config} {t : Toolchain S L}

omit [CodeUnit L] in
theorem exists_leaf_of_nestingDepth {code : CodeTree L} (flat : code.nestingDepth ≤ 0) : ∃ unit, code = .leaf unit := by
  cases code with
  | leaf unit => exact ⟨unit, rfl⟩
  | compound entry fallthrough target start displacement => exact absurd flat (Nat.not_succ_le_zero _)

theorem fused_nestingDepth_le {made : Nat → Decoded → CodeTree L → Prop} {levels start : Nat} {code : CodeTree L}
    (leaves : Single made) (fused : Fused config made levels start code) : code.nestingDepth ≤ levels := by
  induction fused with
  | entry built =>
    obtain ⟨unit, rfl⟩ := leaves _ _ _ built
    exact Nat.zero_le _
  | joined built planned _ _ joins left right =>
    obtain ⟨_, _, _, _, rfl⟩ := join_eq_ok.mp joins
    exact Nat.succ_le_succ (Nat.max_le.mpr ⟨left, right⟩)

/-- Without fusion there are only leaves. -/
theorem combine_of_disabled (leaves : t.OnlyLeaves) (disabled : config.enabled = false) {cursor : Cursor}
    {progress : Progress S} {code : CodeTree L} (answered : (combine config t cursor progress).1 = .ok code) :
    ∃ unit, code = .leaf unit := by
  simp only [combine, disabled, Bool.false_eq_true, if_false, Run.compileLeaf_eq] at answered
  cases built : t.entryAt cursor.window cursor.position progress.tools with
  | error e => simp [built, Except.map] at answered
  | ok made =>
    rw [built] at answered
    cases answered
    exact leaves.entryAt built

end

theorem FusesBelow.of_nesting {config : Config} {limit : Nat}
    (resolved : ∀ {S L : Type} [CodeUnit L] (t : Toolchain S L), t.OnlyLeaves → ∀ cursor progress,
      ∀ r ∈ resolutions config t cursor progress, r.isFused = true → r.depth.toNat < limit)
    (nesting : ∀ {S L : Type} [CodeUnit L] (t : Toolchain S L), t.OnlyLeaves → ∀ cursor progress code,
      (combine config t cursor progress).1 = .ok code → code.nestingDepth ≤ limit) : FusesBelow config limit where
  resolved := resolved
  nesting := nesting
  leaf none _ _ _ t leaves cursor progress code answered :=
    exists_leaf_of_nestingDepth (none ▸ nesting t leaves cursor progress code answered)

/-- The limit holds where it counts as one at least. -/
theorem fusesBelow_max (config : Config) : FusesBelow config (max 1 config.maxDepth.toNat) := by
  refine .of_nesting (fun t leaves cursor progress r member _ => ?_) fun t leaves cursor progress code answered => ?_
  · exact ((combine_noted leaves cursor progress).2 r member).shallow
  · exact fused_nestingDepth_le (leaves.single _ _) (combine_fused answered)

theorem fusesBelow_of_disabled {config : Config} (disabled : config.enabled = false) (limit : Nat) :
    FusesBelow config limit := by
  refine .of_nesting (fun t leaves cursor progress r member _ => ?_) fun t leaves cursor progress code answered => ?_
  · rw [resolutions_of_disabled disabled] at member
    cases member
  · obtain ⟨unit, rfl⟩ := combine_of_disabled leaves disabled answered
    exact Nat.zero_le _

/-! ### A branch that meets every condition -/

section
open Toy

/-- As many micro-operations as an entry needs, the last of which jumps to the next instruction. -/
def jumpOps (config : Config) : List MicroOp :=
  List.replicate (requiredMicroOps config - 3) ⟨.alu, 0, 0⟩ ++
    [⟨.loadImmediate8, 0, 0⟩, ⟨.updateInstructionPointer, 0, 0⟩, ⟨.jumpO8, 0, 0⟩]

theorem trailingBranch_jumpOps (config : Config) : trailingBranch config (jumpOps config) = .ok ⟨.jumpO8, 0, 0⟩ := by
  refine trailingBranch_eq_ok.mpr ⟨?_, ⟨.jumpO8, 0, 0⟩, ⟨.loadImmediate8, 0, 0⟩, ?_, rfl, ?_, ?_, Nat.zero_le _, rfl⟩
  · simp only [jumpOps, requiredMicroOps, List.length_append, List.length_replicate, List.length_cons, List.length_nil]
    omega
  · simp [branchAndOperand?, jumpOps]
  all_goals decide

/-- Tools that read no bytes, and find such a jump everywhere. -/
def jumpsOnly (config : Config) : Toolchain Unit Stub where
  decode cursor s := (.ok ⟨cursor.position, 0, 0, jumpOps config⟩, cursor.position, s)
  compile _ s := (.ok (.leaf ⟨0, .jumps, false⟩), s)

theorem onlyLeaves_jumpsOnly (config : Config) : (jumpsOnly config).OnlyLeaves := by
  rintro decoded s code ⟨⟩
  exact ⟨_, rfl⟩

/-- However narrow the limits are, the topmost entry is fused. -/
theorem combine_jumpsOnly {config : Config} (enabled : config.enabled = true) (zero : config.maxDepth = 0) :
    (combine config (jumpsOnly config) ⟨#[], 0⟩ ⟨(), {}⟩).1 =
      .ok (.compound (.leaf ⟨0, .jumps, false⟩) (.leaf ⟨0, .jumps, false⟩) (.leaf ⟨0, .jumps, false⟩) 0 0) := by
  have pure : (jumpsOnly config).Stateless := ⟨fun _ _ _ => rfl, fun _ _ _ => rfl⟩
  rw [combine_eq_settle pure enabled, zero]
  refine ((settle_fusedExactly (onlyLeaves_jumpsOnly config) 0 0).fused ⟨0, 0, 0, jumpOps config⟩ _ rfl 0 _ _).mpr ?_
  exact {
    contained := rfl
    branch := ⟨_, trailingBranch_jumpOps config, rfl⟩
    target_nonneg := by decide
    fallthrough_leaf := ⟨_, rfl⟩
    target_leaf := ⟨_, rfl⟩
    fallthrough_resolved := rfl
    target_resolved := rfl
    fallthrough_contained := rfl
    target_contained := rfl
    fallthrough_end := Int.natCast_nonneg _
    target_end := Int.natCast_nonneg _ }

end

/-- Fusion keeps to a limit that counts as one at least. It keeps to the limit as it is configured exactly if that
    is positive, or nothing is fused at all. -/
theorem fusesBelow_iff (config : Config) :
    FusesBelow config (max 1 config.maxDepth.toNat) ∧
      (FusesBelow config config.maxDepth.toNat ↔ config.enabled = false ∨ 0 < config.maxDepth) := by
  refine ⟨fusesBelow_max config, fun stops => ?_, ?_⟩
  · cases enabled : config.enabled with
    | false => exact .inl rfl
    | true =>
      refine .inr (UInt8.pos_iff_ne_zero.mpr fun zero => ?_)
      have deep := stops.nesting _ (onlyLeaves_jumpsOnly config) _ _ _ (combine_jumpsOnly enabled zero)
      rw [zero] at deep
      exact absurd deep (by decide)
  · rintro (disabled | positive)
    · exact fusesBelow_of_disabled disabled _
    · have same : max 1 config.maxDepth.toNat = config.maxDepth.toNat := Nat.max_eq_right positive
      exact same ▸ fusesBelow_max config

section
open Toy

/-- A limit of zero does not keep the jump at the start of the window from being fused, at depth zero. -/
theorem zeroDepth_fuses :
    toolchain.OnlyLeaves ∧
      (combine { maxDepth := 0 } toolchain (.ofWindow window) ⟨(), {}⟩).1 =
        .ok (.compound (.leaf ⟨2, .branches, false⟩) (.leaf ⟨2, .jumps, false⟩) (.leaf ⟨1, .switches, false⟩) 0 3) ∧
      (resolutions { maxDepth := 0 } toolchain (.ofWindow window) ⟨(), {}⟩).map (fun r => (r.depth, r.isFused)) =
        [(0, true)] ∧
      ¬ FusesBelow { maxDepth := 0 } 0 := by
  refine ⟨onlyLeaves_toolchain, rfl, by decide +kernel, fun stops => ?_⟩
  have fused : (combine { maxDepth := 0 } toolchain (.ofWindow window) ⟨(), {}⟩).1 = .ok _ := rfl
  exact absurd (stops.nesting _ onlyLeaves_toolchain _ _ _ fused) (by decide)

end

end GuestMemory.Fusion
