import GuestMemory.Proofs.Fusion.Shape
import GuestMemory.Proofs.Fusion.Toy

/-!
Fused code against leaves run one at a time. A dispatcher that knows no compounds builds the leaf at
a place, runs it, and goes on where the leaf left off (`dispatch`). To run fused code is to let it
run some number of leaves, at most one more than the levels of fusion (`execute_eq_dispatch`).
-/
namespace GuestMemory

namespace Outcome

def withInstructions (outcome : Outcome) (n : UInt32) : Outcome :=
  match outcome with
  | retired _ taken => retired n taken
  | modeSwitch mode _ => modeSwitch mode n

/-- Instructions of all of them. -/
def total : List Outcome → Nat
  | [] => 0
  | outcome :: rest => outcome.instructions.toNat + total rest

/-- What leaves report that ran one after another: what the last of them says, with the instructions
    of all of them. -/
def summary (outcomes : List Outcome) : Option Outcome :=
  outcomes.getLast?.map (·.withInstructions (saturate (total outcomes)))

theorem summary_singleton (outcome : Outcome) : summary [outcome] = some outcome := by
  cases outcome <;> simp [summary, total, instructions, withInstructions, saturate_toNat]

theorem after_withInstructions (outcome : Outcome) (m : Nat) (n : UInt32) :
    (outcome.withInstructions (saturate m)).after n = outcome.withInstructions (saturate (n.toNat + m)) := by
  have sum : saturatingAdd (saturate m) n = saturate (n.toNat + m) := by
    apply UInt32.toNat_inj.mp
    rw [toNat_saturatingAdd, toNat_saturate, toNat_saturate]
    omega
  cases outcome <;> simp [withInstructions, after, sum]

theorem instructions_withInstructions (outcome : Outcome) (n : UInt32) :
    (outcome.withInstructions n).instructions = n := by
  cases outcome <;> rfl

theorem total_append (first second : List Outcome) : total (first ++ second) = total first + total second := by
  induction first with
  | nil => simp [total]
  | cons outcome rest ih => simp [total, ih, Nat.add_assoc]

variable {outcomes : List Outcome} {whole : Outcome}

/-- The outcome of a run counts the instructions of all its leaves, and says for the rest what the last says. -/
theorem summary_eq_some : summary outcomes = some whole ↔
    ∃ last, outcomes.getLast? = some last ∧ last.withInstructions (saturate (total outcomes)) = whole :=
  Option.map_eq_some_iff

theorem instructions_of_summary (summed : summary outcomes = some whole) :
    whole.instructions.toNat = min (total outcomes) maxWord32 := by
  obtain ⟨last, _, rfl⟩ := summary_eq_some.mp summed
  rw [instructions_withInstructions, toNat_saturate]

/-- Leaves that ran before others add their instructions and change nothing else. -/
theorem summary_append {first : List Outcome} {n : UInt32} {taken : Bool}
    (earlier : summary first = some (retired n taken)) (later : summary outcomes = some whole) :
    summary (first ++ outcomes) = some (whole.after n) := by
  have count := instructions_of_summary earlier
  obtain ⟨last, isLast, rfl⟩ := summary_eq_some.mp later
  refine summary_eq_some.mpr ⟨last, ?_, ?_⟩
  · rw [List.getLast?_append, isLast]
    rfl
  · rw [after_withInstructions, total_append]
    congr 1
    apply UInt32.toNat_inj.mp
    rw [toNat_saturate, toNat_saturate]
    simp only [instructions] at count
    omega

theorem summary_cons (n : UInt32) (taken : Bool) (later : summary outcomes = some whole) :
    summary (retired n taken :: outcomes) = some (whole.after n) :=
  summary_append (summary_singleton (retired n taken)) later

end Outcome

namespace Fusion

variable {S L P : Type}

/-- The leaf at an offset, with what was decoded for it. -/
def Toolchain.leafAt (t : Toolchain S L) (window : Contents) (s : S) (start : Nat) : Option (Decoded × L) :=
  match t.entryAt window start s with
  | .ok (decoded, .leaf unit) => some (decoded, unit)
  | _ => none

theorem leafAt_eq_some {t : Toolchain S L} {window : Contents} {s : S} {start : Nat} {decoded : Decoded}
    {unit : L} : t.leafAt window s start = some (decoded, unit) ↔
      t.entryAt window start s = .ok (decoded, .leaf unit) := by
  rw [Toolchain.leafAt]
  split
  · rename_i built
    rw [built]
    simp
  · rename_i other
    constructor
    · nofun
    · exact fun built => absurd built (other decoded unit)

/-- The leaf at an offset is the one that compiling a single leaf there gives. -/
theorem compileLeaf_eq_leafAt {t : Toolchain S L} {run : Run S} {start : Nat} {decoded : Decoded} {unit : L}
    (found : t.leafAt run.cursor.window run.tools start = some (decoded, unit)) :
    (run.compileLeaf t start).1 = .ok (.leaf unit) := by
  rw [Run.compileLeaf_eq, leafAt_eq_some.mp found]
  rfl

section
variable [CodeUnit L] [Executes L P]

/-- Where to go on after the leaf at `start`: behind it, or where its branch leads if it was taken. -/
def successor? (config : Config) (start : Nat) (decoded : Decoded) (unit : L) (taken : Bool) : Option Nat :=
  let behind := start + (CodeUnit.byteLength unit).toNat
  if taken then
    match trailingBranch config decoded.ops with
    | .ok branch => (behind + branch.displacement : Int).toNat?
    | .error _ => none
  else some behind

/-- Runs `k` leaves one at a time, unless one of them switches the mode, which ends the run. -/
def dispatch (config : Config) (leafAt : Nat → Option (Decoded × L)) :
    Nat → Option Nat → P → Option (List Outcome × P)
  | 0, _, p => some ([], p)
  | _ + 1, none, _ => none
  | k + 1, some start, p =>
    match leafAt start with
    | none => none
    | some (decoded, unit) =>
      match Executes.execute unit p with
      | (.modeSwitch mode n, p) => some ([.modeSwitch mode n], p)
      | (.retired n taken, p) =>
        (dispatch config leafAt k (successor? config start decoded unit taken) p).map
          fun (outcomes, p) => (.retired n taken :: outcomes, p)

theorem dispatch_one {config : Config} {leafAt : Nat → Option (Decoded × L)} {start : Nat}
    {decoded : Decoded} {unit : L} (found : leafAt start = some (decoded, unit)) (p : P) :
    dispatch config leafAt 1 (some start) p =
      some ([(Executes.execute unit p).1], (Executes.execute unit p).2) := by
  simp only [dispatch, found]
  rcases Executes.execute unit p with ⟨outcome, after⟩
  cases outcome <;> rfl

/-- To run `code` is to let the dispatcher run leaves from `start` on, `most` of them at most. -/
def RunsAs (P : Type) [Executes L P] (config : Config) (leafAt : Nat → Option (Decoded × L))
    (most start : Nat) (code : CodeTree L) : Prop :=
  ∀ p : P, ∃ outcomes, 1 ≤ outcomes.length ∧ outcomes.length ≤ most ∧
    dispatch config leafAt outcomes.length (some start) p = some (outcomes, (code.execute p).2) ∧
    Outcome.summary outcomes = some (code.execute p).1

/-- The induction is on the fusion: a compound runs its entry, and then the one of its continuations
    that lies where the dispatcher goes on. -/
theorem fused_runsAs {config : Config} {made : Nat → Decoded → CodeTree L → Prop}
    {leafAt : Nat → Option (Decoded × L)}
    (found : ∀ start decoded entry, made start decoded entry →
      ∃ unit, entry = .leaf unit ∧ leafAt start = some (decoded, unit))
    {levels start : Nat} {code : CodeTree L} (fused : Fused config made levels start code) :
    RunsAs P config leafAt (levels + 1) start code := by
  induction fused with
  | entry built =>
    intro p
    obtain ⟨unit, rfl, here⟩ := found _ _ _ built
    exact ⟨[(Executes.execute unit p).1], by simp, by simp, dispatch_one here p,
      Outcome.summary_singleton _⟩
  | @joined levels start decoded entry j fallthrough target code built planned _ _ joins left right =>
    intro p
    obtain ⟨unit, rfl, here⟩ := found _ _ _ built
    obtain ⟨_, branch, accepted, rfl, forward⟩ := plan_eq_ok.mp planned
    obtain ⟨_, _, _, _, rfl⟩ := join_eq_ok.mp joins
    rcases ran : Executes.execute unit p with ⟨outcome, between⟩
    cases outcome with
    | modeSwitch mode n =>
      refine ⟨[.modeSwitch mode n], by simp, by simp, ?_, ?_⟩
      · simp [dispatch, here, ran, CodeTree.execute]
      · simpa [CodeTree.execute, ran] using Outcome.summary_singleton (.modeSwitch mode n)
    | retired n taken =>
      obtain ⟨place, goesOn, runs⟩ : ∃ place, successor? config start decoded unit taken = some place ∧
          RunsAs P config leafAt (levels + 1) place (if taken then target else fallthrough) := by
        cases taken with
        | false => exact ⟨_, rfl, left⟩
        | true =>
          refine ⟨_, ?_, right⟩
          simp only [successor?, accepted, if_true]
          exact Int.mem_toNat?.mpr (Int.toNat_of_nonneg forward).symm
      obtain ⟨outcomes, nonempty, few, dispatched, summed⟩ := runs between
      have executed : (CodeTree.compound (.leaf unit) fallthrough target (saturate start)
          branch.displacement).execute p =
          ((((if taken then target else fallthrough).execute between).1.after n),
            ((if taken then target else fallthrough).execute between).2) := by
        cases taken <;> simp [CodeTree.execute, ran]
      refine ⟨.retired n taken :: outcomes, by simp, by simpa using few, ?_, ?_⟩
      · simp only [List.length_cons, dispatch, here, ran, goesOn, dispatched, executed, Option.map_some]
      · rw [executed]
        exact Outcome.summary_cons n taken summed

/-- Code that a request answers with does to a processor, and reports, what the leaves do that a
    dispatcher runs one at a time from the same place on. -/
theorem execute_eq_dispatch {config : Config} {t : Toolchain S L} (pure : t.Stateless) (leaves : t.OnlyLeaves)
    {cursor : Cursor} {progress : Progress S} {code : CodeTree L}
    (answered : (combine config t cursor progress).1 = .ok code) (p : P) :
    ∃ k outcomes, 1 ≤ k ∧ k ≤ max 1 config.maxDepth.toNat + 1 ∧ outcomes.length = k ∧
      dispatch config (t.leafAt cursor.window progress.tools) k (some cursor.position) p =
        some (outcomes, (code.execute p).2) ∧
      Outcome.summary outcomes = some (code.execute p).1 := by
  have found : ∀ start decoded entry, t.Makes cursor.window progress.tools start decoded entry →
      ∃ unit, entry = .leaf unit ∧ t.leafAt cursor.window progress.tools start = some (decoded, unit) := by
    rintro start decoded entry ⟨s, _, built⟩
    obtain ⟨unit, rfl⟩ := leaves.entryAt built
    exact ⟨unit, rfl, leafAt_eq_some.mpr ((pure.entryAt_congr _ start _ s).trans built)⟩
  obtain ⟨outcomes, nonempty, few, dispatched, summed⟩ := fused_runsAs found (combine_fused answered) p
  exact ⟨outcomes.length, outcomes, nonempty, few, rfl, dispatched, summed⟩

end

open Toy in
/-- At an odd count the conditional jump falls through to a jump, which leads to the switch. -/
theorem window_dispatches :
    toolchain.Stateless ∧ toolchain.OnlyLeaves ∧
      (combine {} toolchain (.ofWindow window) ⟨(), {}⟩).1 = .ok tree ∧
      tree.execute (1 : Count) = (.modeSwitch .protectedMode 3, 4) ∧
      ∃ k outcomes, 1 ≤ k ∧ k ≤ 7 ∧ outcomes.length = k ∧
        dispatch {} (toolchain.leafAt window ()) k (some 0) (1 : Count) = some (outcomes, 4) ∧
        Outcome.summary outcomes = some (.modeSwitch .protectedMode 3) :=
  ⟨stateless_toolchain, onlyLeaves_toolchain, combine_window, rfl,
    execute_eq_dispatch stateless_toolchain onlyLeaves_toolchain combine_window (1 : Count)⟩

end Fusion

end GuestMemory
