import GuestMemory.Fusion.Branch
import Mathlib.Data.List.Basic

/-!
Which ends of a block can be fused. Five conditions on the number of micro-operations and on two of them, the last and
the third from the end, decide it (`conditions`). They are looked at in order: where all hold, the branch is
accepted with the displacement that was loaded for it, and otherwise the first one that does not hold is reported
(`trailingBranch_of_endsIn`). Nothing else has a say: no other micro-operation, and no bit of the immediate that the
load does not bring (`trailingBranch_congr`).
-/
namespace GuestMemory.Fusion

/-- The last three micro-operations are the load of an operand, one between, and a branch. -/
def EndsIn (ops : List MicroOp) (operand branch : MicroOp) : Prop :=
  ∃ front between, ops = front ++ [operand, between, branch]

/-- How many numbers there are with as many bits as a short load brings; anything else brings none. -/
def loadRange : MicroOp.Kind → Nat
  | .loadImmediate8 => 0x100
  | .loadImmediate16 => 0x10000
  | _ => 1

/-- The low bits of the immediate, as many as are loaded, in two's complement. -/
def loaded (operand : MicroOp) : Int := Int.bmod operand.immediate.toNat (loadRange operand.kind)

/-- A condition, and what is reported where it does not hold. -/
structure Condition where
  holds : Bool
  otherwise : Bailout

/-- What the first of the conditions that does not hold reports. -/
def FirstMissed (cs : List Condition) (bailout : Bailout) : Prop :=
  ∃ before c after, cs = before ++ c :: after ∧ (∀ c' ∈ before, c'.holds = true) ∧ c.holds = false ∧
    bailout = c.otherwise

/-- What `count` micro-operations with these two at the end have to be, in order. -/
def conditions (config : Config) (count : Nat) (operand branch : MicroOp) : List Condition :=
  [⟨max config.minMicroOps 3 ≤ count, .tooFewMicroOps count⟩,
    ⟨operand.kind = .loadImmediate8 ∨ operand.kind = .loadImmediate16, .missingImmediate operand.kind⟩,
    ⟨branch.kind = .jzO8 ∨ branch.kind = .jnzO8 ∨ branch.kind = .jumpO8 ∨ branch.kind = .callO16A16,
      .unsupportedBranch branch.kind⟩,
    ⟨-(branch.instructionLength.toNat : Int) ≤ loaded operand, .backwardTarget (loaded operand)⟩,
    ⟨(loaded operand).natAbs ≤ config.maxDisplacement.toNat,
      .displacementTooLarge (loaded operand) config.maxDisplacement⟩]

/-- The two lists are as long as one another, and agree in what the conditions ask about their ends. -/
structure SameEnd (ops ops' : List MicroOp) : Prop where
  length : ops'.length = ops.length
  ends : ∀ operand branch, EndsIn ops operand branch → ∃ operand' branch', EndsIn ops' operand' branch' ∧
    operand'.kind = operand.kind ∧
    operand'.immediate.toNat % loadRange operand.kind = operand.immediate.toNat % loadRange operand.kind ∧
    branch'.kind = branch.kind ∧ branch'.instructionLength = branch.instructionLength

/-! ### The ends of a list -/

theorem branchAndOperand?_of_endsIn {ops : List MicroOp} {operand branch : MicroOp} (ends : EndsIn ops operand branch) :
    branchAndOperand? ops = some (branch, operand) := by
  obtain ⟨front, between, rfl⟩ := ends
  simp [branchAndOperand?]

/-- Where there are three micro-operations, the list ends in two that matter. -/
theorem exists_endsIn {ops : List MicroOp} (enough : 3 ≤ ops.length) : ∃ operand branch, EndsIn ops operand branch := by
  obtain ⟨front, rest, rfl, three⟩ : ∃ front rest, ops = front ++ rest ∧ rest.length = 3 := by
    refine ⟨ops.take (ops.length - 3), ops.drop (ops.length - 3), (List.take_append_drop ..).symm, ?_⟩
    rw [List.length_drop]
    omega
  obtain ⟨operand, between, branch, rfl⟩ := List.length_eq_three.mp three
  exact ⟨operand, branch, front, between, rfl⟩

/-! ### Operands -/

theorem isShortImmediateLoad_iff {kind : MicroOp.Kind} :
    kind.isShortImmediateLoad = true ↔ kind = .loadImmediate8 ∨ kind = .loadImmediate16 := by
  simp [MicroOp.Kind.isShortImmediateLoad]

theorem mem_combinableBranches {kind : MicroOp.Kind} : kind ∈ combinableBranches ↔
    kind = .jzO8 ∨ kind = .jnzO8 ∨ kind = .jumpO8 ∨ kind = .callO16A16 := by
  simp [combinableBranches]

theorem signedImmediate_eq_loaded {operand : MicroOp} (short : operand.kind.isShortImmediateLoad = true) :
    operand.signedImmediate = loaded operand := by
  rcases isShortImmediateLoad_iff.mp short with byte | word
  · simp [MicroOp.signedImmediate, loaded, loadRange, byte, BitVec.toInt_setWidth]
  · simp [MicroOp.signedImmediate, loaded, loadRange, word, BitVec.toInt_setWidth]

theorem loaded_congr {operand operand' : MicroOp} (kind : operand'.kind = operand.kind)
    (low : operand'.immediate.toNat % loadRange operand.kind = operand.immediate.toNat % loadRange operand.kind) :
    loaded operand' = loaded operand := by
  rw [loaded, loaded, kind, ← Int.emod_bmod, ← Int.natCast_emod, low, Int.natCast_emod, Int.emod_bmod]

/-! ### Verdicts -/

/-- What is reported of the first condition that does not hold; if there is none, the branch is accepted. -/
def verdict (branch : Branch) : List Condition → Except Bailout Branch
  | [] => .ok branch
  | c :: rest => if c.holds then verdict branch rest else .error c.otherwise

theorem not_firstMissed_nil (bailout : Bailout) : ¬ FirstMissed [] bailout := by
  rintro ⟨before, c, after, split, -⟩
  cases before <;> cases split

theorem firstMissed_cons {c : Condition} {rest : List Condition} {bailout : Bailout} :
    FirstMissed (c :: rest) bailout ↔
      (c.holds = true ∧ FirstMissed rest bailout) ∨ (c.holds = false ∧ bailout = c.otherwise) := by
  constructor
  · rintro ⟨before, c', after, split, held, missed, reported⟩
    cases before with
    | nil =>
      obtain ⟨rfl, rfl⟩ := List.cons.inj split
      exact .inr ⟨missed, reported⟩
    | cons first more =>
      obtain ⟨rfl, rfl⟩ := List.cons.inj split
      obtain ⟨now, later⟩ := List.forall_mem_cons.mp held
      exact .inl ⟨now, more, c', after, rfl, later, missed, reported⟩
  · rintro (⟨now, before, c', after, rfl, later, missed, reported⟩ | ⟨missed, reported⟩)
    · exact ⟨c :: before, c', after, rfl, List.forall_mem_cons.mpr ⟨now, later⟩, missed, reported⟩
    · exact ⟨[], c, rest, rfl, List.forall_mem_nil _, missed, reported⟩

theorem verdict_eq_ok {branch accepted : Branch} {cs : List Condition} :
    verdict branch cs = .ok accepted ↔ (∀ c ∈ cs, c.holds = true) ∧ accepted = branch := by
  induction cs with
  | nil =>
    rw [verdict, Except.ok.injEq, eq_comm]
    simp
  | cons c rest ih => cases held : c.holds <;> simp [verdict, held, ih]

theorem verdict_eq_error {branch : Branch} {cs : List Condition} {bailout : Bailout} :
    verdict branch cs = .error bailout ↔ FirstMissed cs bailout := by
  induction cs with
  | nil => simp [verdict, not_firstMissed_nil]
  | cons c rest ih =>
    rw [firstMissed_cons, ← ih, verdict, eq_comm (a := bailout)]
    cases held : c.holds <;> simp

variable {config : Config} {ops : List MicroOp} {operand branch : MicroOp}

theorem trailingBranch_of_few (few : ops.length < 3) :
    trailingBranch config ops = .error (.tooFewMicroOps ops.length) :=
  if_pos (Nat.lt_of_lt_of_le few (Nat.le_max_right ..))

/-- The displacement is asked about only where the operand is a short load, so it is what was loaded. -/
theorem trailingBranch_of_endsIn (ends : EndsIn ops operand branch) : trailingBranch config ops =
    verdict ⟨branch.kind, loaded operand, branch.instructionLength⟩ (conditions config ops.length operand branch) := by
  have enough : ops.length < requiredMicroOps config ↔ ¬ max config.minMicroOps 3 ≤ ops.length := Nat.not_le.symm
  rw [trailingBranch, branchAndOperand?_of_endsIn ends]
  by_cases short : operand.kind.isShortImmediateLoad = true
  · have brings := isShortImmediateLoad_iff.mp short
    have forward : loaded operand + branch.instructionLength.toNat < 0 ↔
        ¬ -(branch.instructionLength.toNat : Int) ≤ loaded operand := by omega
    have small : config.maxDisplacement.toNat < (loaded operand).natAbs ↔
        ¬ (loaded operand).natAbs ≤ config.maxDisplacement.toNat := Nat.not_le.symm
    simp only [signedImmediate_eq_loaded short, short, enough, forward, small, mem_combinableBranches, conditions,
      verdict, ite_not, decide_eq_true_eq, brings, Bool.not_true, Bool.false_eq_true, if_true, if_false]
  · have missed := mt isShortImmediateLoad_iff.mpr short
    simp only [short, enough, conditions, verdict, ite_not, decide_eq_true_eq, missed, Bool.not_false, if_true,
      if_false]

theorem trailingBranch_congr {ops' : List MicroOp} (same : SameEnd ops ops') :
    trailingBranch config ops' = trailingBranch config ops := by
  by_cases few : ops.length < 3
  · rw [trailingBranch_of_few few, trailingBranch_of_few (same.length ▸ few), same.length]
  · obtain ⟨operand, branch, ends⟩ := exists_endsIn (Nat.le_of_not_lt few)
    obtain ⟨operand', branch', ends', operandKind, low, branchKind, reach⟩ := same.ends operand branch ends
    have displacement := loaded_congr operandKind low
    rw [trailingBranch_of_endsIn ends, trailingBranch_of_endsIn ends', conditions, conditions, same.length, operandKind,
      displacement, branchKind, reach]

theorem trailingBranch_accepts_iff {accepted : Branch} :
    trailingBranch config ops = .ok accepted ↔ ∃ operand branch, EndsIn ops operand branch ∧
      (∀ c ∈ conditions config ops.length operand branch, c.holds = true) ∧
        accepted = ⟨branch.kind, loaded operand, branch.instructionLength⟩ := by
  constructor
  · intro answered
    by_cases few : ops.length < 3
    · rw [trailingBranch_of_few few] at answered
      cases answered
    · obtain ⟨operand, branch, ends⟩ := exists_endsIn (Nat.le_of_not_lt few)
      rw [trailingBranch_of_endsIn ends] at answered
      exact ⟨operand, branch, ends, verdict_eq_ok.mp answered⟩
  · rintro ⟨operand, branch, ends, all⟩
    rw [trailingBranch_of_endsIn ends]
    exact verdict_eq_ok.mpr all

theorem trailingBranch_reports_iff {bailout : Bailout} :
    trailingBranch config ops = .error bailout ↔ (ops.length < 3 ∧ bailout = .tooFewMicroOps ops.length) ∨
      ∃ operand branch, EndsIn ops operand branch ∧
        FirstMissed (conditions config ops.length operand branch) bailout := by
  constructor
  · intro answered
    by_cases few : ops.length < 3
    · rw [trailingBranch_of_few few] at answered
      cases answered
      exact .inl ⟨few, rfl⟩
    · obtain ⟨operand, branch, ends⟩ := exists_endsIn (Nat.le_of_not_lt few)
      rw [trailingBranch_of_endsIn ends] at answered
      exact .inr ⟨operand, branch, ends, verdict_eq_error.mp answered⟩
  · rintro (⟨few, rfl⟩ | ⟨operand, branch, ends, missed⟩)
    · exact trailingBranch_of_few few
    · rw [trailingBranch_of_endsIn ends]
      exact verdict_eq_error.mpr missed

/-- A branch is accepted exactly if there are enough micro-operations, a short load third from the end, one of four
    branches at the end, and a displacement that leads neither back past the branch nor too far. Otherwise the first of
    these conditions that does not hold is reported. Lists that agree in their length and in what the conditions ask
    about their ends get the same answer. -/
theorem trailingBranch_exact (config : Config) (ops : List MicroOp) :
    (∀ accepted, trailingBranch config ops = .ok accepted ↔ ∃ operand branch, EndsIn ops operand branch ∧
      (∀ c ∈ conditions config ops.length operand branch, c.holds = true) ∧
        accepted = ⟨branch.kind, loaded operand, branch.instructionLength⟩) ∧
    (∀ bailout, trailingBranch config ops = .error bailout ↔
      (ops.length < 3 ∧ bailout = .tooFewMicroOps ops.length) ∨ ∃ operand branch, EndsIn ops operand branch ∧
        FirstMissed (conditions config ops.length operand branch) bailout) ∧
    ∀ ops', SameEnd ops ops' → trailingBranch config ops' = trailingBranch config ops :=
  ⟨fun _ => trailingBranch_accepts_iff, fun _ => trailingBranch_reports_iff, fun _ => trailingBranch_congr⟩

/-- A jump back to its own first byte. -/
def selfLoop : List MicroOp :=
  [⟨.alu, 0, 1⟩, ⟨.alu, 0, 1⟩, ⟨.loadImmediate16, 0xFFFE, 2⟩, ⟨.updateInstructionPointer, 0, 2⟩, ⟨.jumpO8, 0, 2⟩]

/-- The same, as far as fusion looks: all else is different. -/
def selfLoopInDisguise : List MicroOp :=
  [⟨.halt, 7, 3⟩, ⟨.other 9, 8, 4⟩, ⟨.loadImmediate16, 0xABCDFFFE, 5⟩, ⟨.storeMemory, 6, 6⟩, ⟨.jumpO8, 5, 2⟩]

theorem sameEnd_selfLoop : SameEnd selfLoop selfLoopInDisguise where
  length := rfl
  ends operand branch ends := by
    have found := branchAndOperand?_of_endsIn ends
    obtain ⟨rfl, rfl⟩ : ⟨.jumpO8, 0, 2⟩ = branch ∧ ⟨.loadImmediate16, 0xFFFE, 2⟩ = operand := by
      simpa [selfLoop, branchAndOperand?] using found
    exact ⟨⟨.loadImmediate16, 0xABCDFFFE, 5⟩, ⟨.jumpO8, 5, 2⟩,
      ⟨[⟨.halt, 7, 3⟩, ⟨.other 9, 8, 4⟩], ⟨.storeMemory, 6, 6⟩, rfl⟩, rfl, rfl, rfl, rfl⟩

/-- Both are accepted with the displacement -2; with less room for displacements, that is what is reported of both. -/
theorem selfLoop_accepted :
    SameEnd selfLoop selfLoopInDisguise ∧ trailingBranch {} selfLoopInDisguise = .ok ⟨.jumpO8, -2, 2⟩ ∧
      trailingBranch { maxDisplacement := 1 } selfLoopInDisguise = .error (.displacementTooLarge (-2) 1) := by
  obtain ⟨accepts, -, same⟩ := trailingBranch_exact {} selfLoop
  obtain ⟨-, reports, narrow⟩ := trailingBranch_exact { maxDisplacement := 1 } selfLoop
  have ends : EndsIn selfLoop ⟨.loadImmediate16, 0xFFFE, 2⟩ ⟨.jumpO8, 0, 2⟩ :=
    ⟨[⟨.alu, 0, 1⟩, ⟨.alu, 0, 1⟩], ⟨.updateInstructionPointer, 0, 2⟩, rfl⟩
  have back : loaded ⟨.loadImmediate16, 0xFFFE, 2⟩ = -2 := by decide +kernel
  refine ⟨sameEnd_selfLoop, ?_, ?_⟩
  · rw [same selfLoopInDisguise sameEnd_selfLoop]
    refine (accepts _).mpr ⟨_, _, ends, ?_, by rw [back]⟩
    simp [conditions, back, selfLoop]
  · rw [narrow selfLoopInDisguise sameEnd_selfLoop]
    refine (reports _).mpr (.inr ⟨_, _, ends, ?_⟩)
    simp [conditions, firstMissed_cons, back, selfLoop]

end GuestMemory.Fusion
