import GuestMemory.Proofs.Code.Parts
import GuestMemory.Proofs.Fusion.Dispatch
import Mathlib.Data.List.Basic

/-!
The leaves that code visits when it is executed. A position leads from the root of the code down to one of its
parts; a visit is a leaf at a position, with the processor that it was given. To execute code is to run its
visits one after the other: each compound sends the run into its entry, and from there into the one continuation
that the branch of the last leaf in the entry asks for, until a leaf switches the mode (`runs_visits`). No
execution retires more than the code counts, if no leaf does (`instructions_execute_le`).
-/
namespace GuestMemory

/-- What a compound is fused from. -/
inductive Constituent where
  | entry | fallthrough | target
  deriving DecidableEq, Repr

/-- The continuation that a branch leads to. -/
def Constituent.ofBranch (taken : Bool) : Constituent := if taken then target else fallthrough

theorem Constituent.ofBranch_ne_entry (taken : Bool) : ofBranch taken ≠ entry := by
  cases taken <;> decide

/-- The continuation to run after code with this outcome, if any is. -/
def Outcome.continuation? : Outcome → Option Constituent
  | retired _ taken => some (.ofBranch taken)
  | modeSwitch .. => none

/-- The way from the root of the code to one of its parts. -/
abbrev Position := List Constituent

/-- One leaf stands in the entry of a compound, and the other in one of its continuations. -/
def Position.Precedes (q r : Position) : Prop :=
  ∃ place c, c ≠ .entry ∧ place ++ [.entry] <+: q ∧ place ++ [c] <+: r

theorem Position.Precedes.cons {q r : Position} (precedes : q.Precedes r) (c : Constituent) :
    Position.Precedes (c :: q) (c :: r) := by
  obtain ⟨place, c', later, left, right⟩ := precedes
  refine ⟨c :: place, c', later, ?_, ?_⟩
  · exact List.cons_prefix_cons.mpr ⟨rfl, left⟩
  · exact List.cons_prefix_cons.mpr ⟨rfl, right⟩

/-- A run of a leaf: where it stands, and the processor that it was given. -/
structure Visit (L P : Type) where
  position : Position
  unit : L
  before : P

namespace Visit

variable {L P : Type}

/-- The same run, seen from the compound that the code is a constituent of. -/
def below (c : Constituent) (v : Visit L P) : Visit L P := { v with position := c :: v.position }

/-- The visits to leaves of the part at a position. -/
def within (visits : List (Visit L P)) (q : Position) : List (Visit L P) :=
  visits.filter fun v => q.isPrefixOf v.position

@[simp] theorem within_nil (visits : List (Visit L P)) : within visits [] = visits := by
  simp [within]

@[simp] theorem within_append (first second : List (Visit L P)) (q : Position) :
    within (first ++ second) q = within first q ++ within second q :=
  List.filter_append ..

theorem within_below (visits : List (Visit L P)) (c : Constituent) (q : Position) :
    within (visits.map (below c)) (c :: q) = (within visits q).map (below c) := by
  simp [within, List.filter_map, Function.comp_def, below]

theorem within_below_of_ne (visits : List (Visit L P)) {c c' : Constituent} (other : c' ≠ c) (q : Position) :
    within (visits.map (below c)) (c' :: q) = [] := by
  simp [within, below, other]

theorem map_position_below (visits : List (Visit L P)) (c : Constituent) :
    (visits.map (below c)).map position = (visits.map position).map (c :: ·) := by
  simp [below]

section
variable [Executes L P]

def outcome (v : Visit L P) : Outcome := (Executes.execute v.unit v.before).1

/-- The processor that the leaf left. -/
def after (v : Visit L P) : P := (Executes.execute v.unit v.before).2

@[simp] theorem outcome_below (v : Visit L P) (c : Constituent) : (v.below c).outcome = v.outcome := rfl

@[simp] theorem map_outcome_below (visits : List (Visit L P)) (c : Constituent) :
    (visits.map (below c)).map outcome = visits.map outcome := by
  simp

/-- The first leaf is given `p`, every other one what the one before it left, and the last leaves `last`. -/
def Threaded (last : P) : P → List (Visit L P) → Prop
  | p, [] => p = last
  | p, v :: rest => v.before = p ∧ Threaded last v.after rest

/-- The compound at `place` was run as its entry asked for: the last leaf that ran in the entry names the one
    continuation that was entered, or none. -/
def Continues (visits : List (Visit L P)) (place : Position) : Prop :=
  ∃ v, (within visits (place ++ [.entry])).getLast? = some v ∧
    ∀ c, c ≠ .entry → (within visits (place ++ [c]) ≠ [] ↔ v.outcome.continuation? = some c)

/-- What was visited in a constituent goes on there as it does in the whole. -/
theorem Continues.of_within {part whole : List (Visit L P)} {c : Constituent}
    (same : ∀ q, within whole (c :: q) = (within part q).map (below c)) {place : Position}
    (continues : Continues part place) : Continues whole (c :: place) := by
  obtain ⟨v, isLast, entered⟩ := continues
  refine ⟨v.below c, ?_, ?_⟩
  · rw [List.cons_append, same, List.getLast?_map, isLast]
    rfl
  · intro c' later
    rw [List.cons_append, same, outcome_below, ← entered c' later]
    simp

theorem Threaded.below {last p : P} {visits : List (Visit L P)} (threaded : Threaded last p visits)
    (c : Constituent) : Threaded last p (visits.map (Visit.below c)) := by
  induction visits generalizing p with
  | nil => exact threaded
  | cons v rest ih => exact ⟨threaded.1, ih threaded.2⟩

theorem Threaded.append {last between p : P} {first second : List (Visit L P)}
    (here : Threaded between p first) (there : Threaded last between second) :
    Threaded last p (first ++ second) := by
  induction first generalizing p with
  | nil =>
    obtain rfl : p = between := here
    exact there
  | cons v rest ih => exact ⟨here.1, ih here.2⟩

end

end Visit

/-! ### Outcomes -/

namespace Outcome

theorem switch?_withInstructions (outcome : Outcome) (n : UInt32) :
    (outcome.withInstructions n).switch? = outcome.switch? := by
  cases outcome <;> rfl

theorem continuation?_withInstructions (outcome : Outcome) (n : UInt32) :
    (outcome.withInstructions n).continuation? = outcome.continuation? := by
  cases outcome <;> rfl

theorem instructions_after (outcome : Outcome) (n : UInt32) :
    (outcome.after n).instructions = saturatingAdd outcome.instructions n := by
  cases outcome <;> rfl

variable {outcomes : List Outcome} {whole : Outcome}

theorem ne_nil_of_summary (summed : summary outcomes = some whole) : outcomes ≠ [] := by
  rintro rfl
  cases summed

end Outcome

/-! ### Execution -/

namespace CodeTree

variable {L P : Type}

def child? : CodeTree L → Constituent → Option (CodeTree L)
  | leaf _, _ => none
  | compound entry _ _ _ _, .entry => some entry
  | compound _ fallthrough _ _ _, .fallthrough => some fallthrough
  | compound _ _ target _ _, .target => some target

/-- The part at a position. -/
def part? (code : CodeTree L) : Position → Option (CodeTree L)
  | [] => some code
  | c :: rest => (code.child? c).bind (part? · rest)

theorem part?_cons {code child : CodeTree L} {c : Constituent} (found : code.child? c = some child)
    (rest : Position) : code.part? (c :: rest) = child.part? rest := by
  rw [part?, found, Option.bind_some]

section
variable [Executes L P]

/-- The leaves that are run when the code is executed, in this order. -/
def visits : CodeTree L → P → List (Visit L P)
  | leaf unit, p => [⟨[], unit, p⟩]
  | compound entry fallthrough target _ _, p =>
    (entry.visits p).map (.below .entry) ++
      match entry.execute p with
      | (.retired _ true, p) => (target.visits p).map (.below .target)
      | (.retired _ false, p) => (fallthrough.visits p).map (.below .fallthrough)
      | (.modeSwitch .., _) => []

/-- What it means that executing the code on `p` runs the given leaves, reports `outcome` and leaves `last`. -/
structure Runs (code : CodeTree L) (p : P) (visits : List (Visit L P)) (outcome : Outcome) (last : P) : Prop where
  leaf : ∀ v ∈ visits, code.part? v.position = some (.leaf v.unit)
  ordered : (visits.map Visit.position).Pairwise Position.Precedes
  threaded : Visit.Threaded last p visits
  /-- No leaf runs after one that switches the mode. -/
  retired : ∀ v ∈ visits.dropLast, v.outcome.switch? = none
  /-- Every compound that is visited is run as its entry asks for. -/
  continues : ∀ place part, code.part? place = some part → part.isCompound = true →
    Visit.within visits place ≠ [] → Visit.Continues visits place
  summary : Outcome.summary (visits.map Visit.outcome) = some outcome

namespace Runs

variable {code entry fallthrough target next : CodeTree L} {p between last : P} {outcome : Outcome}
  {visits earlier later : List (Visit L P)} {start : UInt32} {displacement : Int}

theorem ne_nil (runs : code.Runs p visits outcome last) : visits ≠ [] := by
  rintro rfl
  exact Outcome.ne_nil_of_summary runs.summary rfl

/-- The last leaf decides how the code goes on. -/
theorem exists_getLast? (runs : code.Runs p visits outcome last) : ∃ v, visits.getLast? = some v ∧
    v.outcome.switch? = outcome.switch? ∧ v.outcome.continuation? = outcome.continuation? := by
  obtain ⟨whole, isLast, rfl⟩ := Outcome.summary_eq_some.mp runs.summary
  rw [List.getLast?_map, Option.map_eq_some_iff] at isLast
  obtain ⟨v, isLast, rfl⟩ := isLast
  exact ⟨v, isLast, (Outcome.switch?_withInstructions ..).symm, (Outcome.continuation?_withInstructions ..).symm⟩

/-- A leaf that switches the mode is the last, and the code reports its signal. -/
theorem switched (runs : code.Runs p visits outcome last) {v : Visit L P} (visited : v ∈ visits) {mode : Mode}
    (switches : v.outcome.switch? = some mode) : visits.getLast? = some v ∧ outcome.switch? = some mode := by
  obtain ⟨v', isLast, same, _⟩ := runs.exists_getLast?
  rw [← List.dropLast_append_getLast? v' isLast, List.mem_append, List.mem_singleton] at visited
  rcases visited with early | rfl
  · have none := runs.retired v early
    rw [switches] at none
    cases none
  · exact ⟨isLast, same.symm.trans switches⟩

/-- If the code retired, all its leaves did. -/
theorem all_retired (runs : code.Runs p visits outcome last) (ended : outcome.switch? = none) {v : Visit L P}
    (visited : v ∈ visits) : v.outcome.switch? = none := by
  cases switches : v.outcome.switch? with
  | none => rfl
  | some mode =>
    have signal := (runs.switched visited switches).2
    rw [ended] at signal
    cases signal

theorem of_leaf (unit : L) (p : P) : (CodeTree.leaf unit).Runs p [⟨[], unit, p⟩]
    (Executes.execute unit p).1 (Executes.execute unit p).2 where
  leaf v visited := by
    obtain rfl := List.mem_singleton.mp visited
    rfl
  ordered := List.pairwise_singleton ..
  threaded := ⟨rfl, rfl⟩
  retired := by simp
  continues place part found compound := by
    cases place with
    | nil =>
      cases found
      cases compound
    | cons c rest => cases found
  summary := Outcome.summary_singleton _

/-- The leaves of a constituent are leaves of the compound. -/
theorem leaf_below (runs : next.Runs p visits outcome last) {c : Constituent} (child : code.child? c = some next) :
    ∀ v ∈ visits.map (Visit.below c), code.part? v.position = some (.leaf v.unit) := by
  intro v visited
  obtain ⟨v, there, rfl⟩ := List.mem_map.mp visited
  exact (part?_cons child v.position).trans (runs.leaf v there)

theorem ordered_below (runs : next.Runs p visits outcome last) (c : Constituent) :
    ((visits.map (Visit.below c)).map Visit.position).Pairwise Position.Precedes := by
  rw [Visit.map_position_below, List.pairwise_map]
  exact runs.ordered.imp fun precedes => precedes.cons c

/-- A compound whose entry switches the mode does nothing more. -/
theorem switch {mode : Mode} {n : UInt32} (first : entry.Runs p earlier (.modeSwitch mode n) last) :
    (compound entry fallthrough target start displacement).Runs p (earlier.map (.below .entry))
      (.modeSwitch mode n) last where
  leaf := first.leaf_below rfl
  ordered := first.ordered_below .entry
  threaded := first.threaded.below .entry
  retired v visited := by
    rw [← List.map_dropLast] at visited
    obtain ⟨v, early, rfl⟩ := List.mem_map.mp visited
    exact first.retired v early
  continues place part found isCompound entered := by
    cases place with
    | nil =>
      obtain ⟨v, isLast, _, same⟩ := first.exists_getLast?
      refine ⟨v.below .entry, ?_, fun c later => ?_⟩
      · rw [List.nil_append, Visit.within_below, Visit.within_nil, List.getLast?_map, isLast]
        rfl
      · rw [List.nil_append, Visit.within_below_of_ne earlier later, Visit.outcome_below, same]
        simp [Outcome.continuation?]
    | cons c rest =>
      by_cases inside : c = .entry
      · subst inside
        rw [part?_cons rfl] at found
        rw [Visit.within_below, ne_eq, List.map_eq_nil_iff] at entered
        exact (first.continues rest part found isCompound entered).of_within (Visit.within_below earlier .entry)
      · exact absurd (Visit.within_below_of_ne earlier inside rest) entered
  summary := by
    rw [Visit.map_outcome_below]
    exact first.summary

/-- A compound whose entry retires goes on with the continuation that the branch leads to. -/
theorem branch {n : UInt32} {taken : Bool} (first : entry.Runs p earlier (.retired n taken) between)
    (child : (compound entry fallthrough target start displacement).child? (.ofBranch taken) = some next)
    (second : next.Runs between later outcome last) :
    (compound entry fallthrough target start displacement).Runs p
      (earlier.map (.below .entry) ++ later.map (.below (.ofBranch taken))) (outcome.after n) last where
  leaf v visited := by
    rcases List.mem_append.mp visited with visited | visited
    · exact first.leaf_below rfl v visited
    · exact second.leaf_below child v visited
  ordered := by
    rw [List.map_append, List.pairwise_append]
    refine ⟨first.ordered_below .entry, second.ordered_below _, ?_⟩
    intro q left r right
    rw [Visit.map_position_below] at left right
    obtain ⟨q, _, rfl⟩ := List.mem_map.mp left
    obtain ⟨r, _, rfl⟩ := List.mem_map.mp right
    refine ⟨[], .ofBranch taken, Constituent.ofBranch_ne_entry taken, ?_, ?_⟩
    · exact List.prefix_append [.entry] q
    · exact List.prefix_append [.ofBranch taken] r
  threaded := (first.threaded.below .entry).append (second.threaded.below _)
  retired v visited := by
    rw [List.dropLast_append_of_ne_nil (by simpa using second.ne_nil), List.mem_append, ← List.map_dropLast] at visited
    rcases visited with visited | visited
    · obtain ⟨v, there, rfl⟩ := List.mem_map.mp visited
      exact first.all_retired (v := v) rfl there
    · obtain ⟨v, early, rfl⟩ := List.mem_map.mp visited
      exact second.retired v early
  continues place part found isCompound entered := by
    have other := Constituent.ofBranch_ne_entry taken
    -- The entry shows the visits of the first run, and the continuation those of the second.
    have inEntry : ∀ q, Visit.within (earlier.map (.below .entry) ++ later.map (.below (.ofBranch taken)))
        (.entry :: q) = (Visit.within earlier q).map (.below .entry) := by
      intro q
      rw [Visit.within_append, Visit.within_below, Visit.within_below_of_ne later other.symm, List.append_nil]
    have inNext : ∀ q, Visit.within (earlier.map (.below .entry) ++ later.map (.below (.ofBranch taken)))
        (.ofBranch taken :: q) = (Visit.within later q).map (.below (.ofBranch taken)) := by
      intro q
      rw [Visit.within_append, Visit.within_below, Visit.within_below_of_ne earlier other, List.nil_append]
    have nowhere : ∀ c q, c ≠ .entry → c ≠ .ofBranch taken →
        Visit.within (earlier.map (.below .entry) ++ later.map (.below (.ofBranch taken))) (c :: q) = [] := by
      intro c q notEntry notNext
      rw [Visit.within_append, Visit.within_below_of_ne earlier notEntry, Visit.within_below_of_ne later notNext,
        List.append_nil]
    cases place with
    | nil =>
      obtain ⟨v, isLast, _, same⟩ := first.exists_getLast?
      refine ⟨v.below .entry, ?_, fun c notEntry => ?_⟩
      · rw [List.nil_append, inEntry, Visit.within_nil, List.getLast?_map, isLast]
        rfl
      · rw [List.nil_append, Visit.outcome_below, same]
        by_cases chosen : c = .ofBranch taken
        · subst chosen
          rw [inNext, Visit.within_nil]
          simpa [Outcome.continuation?] using second.ne_nil
        · rw [nowhere c [] notEntry chosen]
          simp [Outcome.continuation?, Ne.symm chosen]
    | cons c rest =>
      by_cases inside : c = .entry
      · subst inside
        rw [part?_cons rfl] at found
        rw [inEntry, ne_eq, List.map_eq_nil_iff] at entered
        exact (first.continues rest part found isCompound entered).of_within inEntry
      · by_cases chosen : c = .ofBranch taken
        · subst chosen
          rw [part?_cons child] at found
          rw [inNext, ne_eq, List.map_eq_nil_iff] at entered
          exact (second.continues rest part found isCompound entered).of_within inNext
        · exact absurd (nowhere c rest inside chosen) entered
  summary := by
    rw [List.map_append, Visit.map_outcome_below, Visit.map_outcome_below]
    exact Outcome.summary_append first.summary second.summary

end Runs

/-- To execute code is to run its visits. The induction is on the code: what the entry reports decides whether
    one of the continuations is run after it, and which. -/
theorem runs_visits (code : CodeTree L) :
    ∀ p : P, code.Runs p (code.visits p) (code.execute p).1 (code.execute p).2 := by
  induction code with
  | leaf unit => exact fun p => .of_leaf unit p
  | compound entry fallthrough target start displacement first left right =>
    intro p
    have entered := first p
    rw [visits, execute]
    rcases ran : entry.execute p with ⟨outcome, between⟩
    rw [ran] at entered
    cases outcome with
    | modeSwitch mode n =>
      simp only [List.append_nil]
      exact entered.switch
    | retired n taken =>
      cases taken with
      | true => exact entered.branch rfl (right between)
      | false => exact entered.branch rfl (left between)

/-! ### Instructions -/

theorem toNat_max (x y : UInt32) : (max x y).toNat = max x.toNat y.toNat := by
  show (if x ≤ y then y else x).toNat = max x.toNat y.toNat
  split_ifs with le
  · rw [Nat.max_eq_right (UInt32.le_iff_toNat_le.mp le)]
  · rw [UInt32.le_iff_toNat_le] at le
    rw [Nat.max_eq_left (by omega)]

variable [CodeUnit L]

/-- Whatever processor it is given, no leaf of the code retires more instructions than it counts. -/
def Counted (P : Type) [Executes L P] (code : CodeTree L) : Prop :=
  ∀ unit ∈ code.leaves, ∀ p : P, (Executes.execute unit p).1.instructions ≤ CodeUnit.instructionCount unit

/-- The count of a compound is that of the longer way through it, and bounds both also where it is held at the
    largest number. -/
theorem instructions_execute_le {code : CodeTree L} (counted : code.Counted P) (p : P) :
    (code.execute p).1.instructions ≤ code.instructionCount := by
  induction code generalizing p with
  | leaf unit => exact counted unit (List.mem_singleton_self unit) p
  | compound entry fallthrough target start displacement first left right =>
    rw [Counted, leaves] at counted
    simp only [List.mem_append, or_imp, forall_and] at counted
    obtain ⟨⟨inEntry, inFallthrough⟩, inTarget⟩ := counted
    have entered := first inEntry p
    rw [UInt32.le_iff_toNat_le] at entered
    rw [execute, instructionCount, UInt32.le_iff_toNat_le, toNat_saturatingAdd, toNat_max]
    rcases ran : entry.execute p with ⟨outcome, between⟩
    rw [ran] at entered
    cases outcome with
    | modeSwitch mode n =>
      have bound := entry.instructionCount.toNat_lt
      simp only [Outcome.instructions, maxWord32] at entered ⊢
      omega
    | retired n taken =>
      have later : (if taken then target.execute between else fallthrough.execute between).1.instructions.toNat ≤
          max fallthrough.instructionCount.toNat target.instructionCount.toNat := by
        cases taken with
        | true => exact Nat.le_trans (UInt32.le_iff_toNat_le.mp (right inTarget between)) (Nat.le_max_right ..)
        | false => exact Nat.le_trans (UInt32.le_iff_toNat_le.mp (left inFallthrough between)) (Nat.le_max_left ..)
      simp only [Outcome.instructions_after, toNat_saturatingAdd]
      simp only [Outcome.instructions] at entered
      omega

/-- Executing code visits leaves in order and stops at a mode switch, which it then reports. It retires what the
    leaves that it visits retire together, held at the largest number, and not more than the code counts if no
    leaf retires more than it counts. -/
theorem execute_visits (code : CodeTree L) (p : P) :
    code.Runs p (code.visits p) (code.execute p).1 (code.execute p).2 ∧
      (code.execute p).1.instructions.toNat = min (Outcome.total ((code.visits p).map Visit.outcome)) maxWord32 ∧
      (∀ v ∈ code.visits p, ∀ mode, v.outcome.switch? = some mode →
        (code.visits p).getLast? = some v ∧ (code.execute p).1.switch? = some mode) ∧
      (code.Counted P → (code.execute p).1.instructions ≤ code.instructionCount) := by
  have runs := code.runs_visits p
  refine ⟨runs, ?_, ?_, ?_⟩
  · exact Outcome.instructions_of_summary runs.summary
  · intro v visited mode switches
    exact runs.switched visited switches
  · intro counted
    exact instructions_execute_le counted p

end

section
open Fusion.Toy

/-- Compounds in the entry and in the target of a compound; the leaf at the end of the longest way switches the
    mode in an entry of its own. -/
def nested : CodeTree Stub :=
  .compound
    (.compound (.leaf ⟨2, .branches, false⟩) (.leaf ⟨1, .returns, false⟩) (.leaf ⟨2, .jumps, false⟩) 0 2)
    (.leaf ⟨1, .switches, false⟩)
    (.compound (.leaf ⟨2, .jumps, false⟩) (.leaf ⟨1, .returns, false⟩)
      (.compound (.leaf ⟨1, .switches, false⟩) (.leaf ⟨1, .returns, false⟩) (.leaf ⟨1, .returns, false⟩) 9 1) 6 1)
    0 1

/-- At an even count all branches are taken: four leaves run, the last of which is the entry of the innermost
    compound, and neither of the leaves after it does. -/
theorem nested_visits :
    nested.Counted Count ∧
      (nested.visits (0 : Count)).map Visit.position =
        [[.entry, .entry], [.entry, .target], [.target, .entry], [.target, .target, .entry]] ∧
      nested.Runs (0 : Count) (nested.visits 0) (.modeSwitch .protectedMode 4) 4 ∧
      4 ≤ nested.instructionCount := by
  have counted : nested.Counted Count := by
    intro unit _ count
    show (outcome count unit.exit).instructions ≤ 1
    cases unit.exit <;> exact UInt32.le_refl 1
  have whole := execute_visits nested (0 : Count)
  exact ⟨counted, rfl, whole.1, whole.2.2.2 counted⟩

end

end CodeTree

end GuestMemory
