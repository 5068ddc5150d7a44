import GuestMemory.Proofs.Fusion.Resolutions
import GuestMemory.Proofs.Fusion.Toy
import GuestMemory.Proofs.Machine.Effect
import GuestMemory.Proofs.Memory.Reuse

/-!
What the counters say after any number of calls. Code can be asked for directly, or through a machine; a
machine runs the combiner only where its memory has a block that keeps no code for the address
(`Memory.miss?`). Every such run counts once, by its result, and adds the entries that it left unfused
(`Stats.record_bailOuts`); after a sequence of calls the counters are the sums over the runs that there
were (`stats_afterCalls`).
-/
namespace GuestMemory

open Fusion

variable {S L P : Type} [CodeUnit L]

namespace Memory

/-- Where the combiner starts to answer a request: the address leads into a block, not past its end, and the
    block keeps no code for it. -/
def miss? (m : Memory L) (v : View) (a : Address) : Option Cursor :=
  ((m.directory v).handleAt a).bind fun h =>
    (m.arena.get? h).bind fun block =>
      if (block.codeAt a.blockOffset).isNone ∧ a.blockOffset ≤ block.size then
        some ⟨m.arena.decodeWindow (m.directory v) a block.contents, a.blockOffset⟩
      else none

theorem miss?_eq_some {m : Memory L} {v : View} {a : Address} {cursor : Cursor} :
    m.miss? v a = some cursor ↔
      ∃ h block, (m.directory v).handleAt a = some h ∧ m.arena.get? h = some block ∧
        block.codeAt a.blockOffset = none ∧ a.blockOffset ≤ block.size ∧
        ⟨m.arena.decodeWindow (m.directory v) a block.contents, a.blockOffset⟩ = cursor := by
  simp only [miss?, Option.bind_eq_some_iff, Option.ite_none_right_eq_some, Option.some.injEq,
    Option.isNone_iff_eq_none, and_assoc, exists_and_left]

/-- It does not start where nothing is mapped, where there is no block, where the code is kept, and past the end. -/
theorem miss?_eq_none {m : Memory L} {v : View} {a : Address} :
    m.miss? v a = none ↔
      ∀ h block, (m.directory v).handleAt a = some h → m.arena.get? h = some block →
        block.codeAt a.blockOffset = none → block.size < a.blockOffset := by
  simp only [miss?, Option.bind_eq_none_iff, ite_eq_right_iff, reduceCtorEq, imp_false, not_and, Nat.not_le,
    Option.isNone_iff_eq_none]
  exact ⟨fun missed h block mapped => missed h mapped block, fun missed h mapped block => missed h block mapped⟩

/-- A miss is answered with what the combiner makes of the window. -/
theorem requestCode_of_miss? {m : Memory L} {v : View} {a : Address} {cursor : Cursor}
    (missed : m.miss? v a = some cursor) (config : Config) (t : Toolchain S L) (progress : Progress S) :
    (m.requestCode config t v a progress).1 = (combine config t cursor progress).1.mapError (.noCode a) ∧
      (m.requestCode config t v a progress).2.2 = (combine config t cursor progress).2.toProgress := by
  obtain ⟨h, block, mapped, found, absent, inside, rfl⟩ := miss?_eq_some.mp missed
  have leads : (m.directory v).cell? a = some ⟨h, a.blockOffset⟩ := Directory.cell?_eq_some.mpr ⟨mapped, rfl⟩
  have nothing : m.arena.codeAt ⟨h, a.blockOffset⟩ = none := (Arena.codeAt_of_get? found).trans absent
  exact Arena.requestCode_of_codeAt_none leads found inside nothing config t progress

/-- Without a miss the tools are not asked. -/
theorem requestCode_of_miss?_eq_none {m : Memory L} {v : View} {a : Address} (missed : m.miss? v a = none)
    (config : Config) (t : Toolchain S L) (progress : Progress S) :
    (m.requestCode config t v a progress).2.2 = progress := by
  have requested := Arena.requestCode_requested config t (m.directory v) a m.arena progress
  simp only [requestCode]
  generalize m.arena.requestCode config t (m.directory v) a progress = result at requested ⊢
  cases requested with
  | unmapped _ | unknown _ _ | reused _ _ _ => rfl
  | failed mapped found absent built =>
    have outside := miss?_eq_none.mp missed _ _ mapped found absent
    rw [← Block.size_contents] at outside
    rw [Arena.buildAt_outside outside] at built
    cases built
    rfl
  | made mapped found absent built =>
    have outside := miss?_eq_none.mp missed _ _ mapped found absent
    rw [← Block.size_contents] at outside
    rw [Arena.buildAt_outside outside] at built
    cases built

end Memory

/-! ### Operations -/

namespace Machine

variable [Executes L P]

omit [Executes L P] in
theorem progress_answer {α : Type} (m : Machine S L P) (toAnswer : α → Answer L)
    (result : Except MemoryError (α × Memory L)) : (m.answer toAnswer result).2.progress = m.progress := by
  cases result <;> rfl

/-- The combiner is at work in requests only. -/
theorem progress_step (config : Config) (t : Toolchain S L) (m : Machine S L P) (operation : Operation L) :
    (m.step config t operation).2.progress =
      match operation.place? with
      | some (v, a) => (m.memory.requestCode config t v a m.progress).2.2
      | none => m.progress := by
  cases operation with
  | request v a | execute v a =>
    simp only [step, Operation.place?]
    have asked : (m.request config t v a).2.progress = (m.memory.requestCode config t v a m.progress).2.2 := rfl
    rw [← asked]
    generalize m.request config t v a = attempt
    obtain ⟨result, after⟩ := attempt
    cases result <;> rfl
  | mapShared | loadRom | map | replaceBlocks => exact progress_answer m _ _
  | _ => rfl

end Machine

/-! ### Calls -/

/-- What a combiner can be used for: a combination, a leaf, or an operation of any machine. -/
inductive Call (L P : Type) [CodeUnit L] where
  | combine (cursor : Cursor)
  | compileLeaf (cursor : Cursor) (start : Nat)
  | operate (memory : Memory L) (processor : P) (operation : Operation L)

namespace Call

/-- Where the call runs the combiner, if it does. -/
def cursor? : Call L P → Option Cursor
  | .combine cursor => some cursor
  | .compileLeaf .. => none
  | .operate memory _ operation => operation.place?.bind fun (v, a) => memory.miss? v a

variable [Executes L P] (config : Config) (t : Toolchain S L)

def after (progress : Progress S) : Call L P → Progress S
  | .combine cursor => (Fusion.combine config t cursor progress).2.toProgress
  | .compileLeaf cursor start =>
    let run : Run S := { progress with cursor }
    (run.compileLeaf t start).2.toProgress
  | .operate memory processor operation => (Machine.step config t ⟨memory, progress, processor⟩ operation).2.progress

/-- A call that runs the combiner leaves behind what the run leaves behind. -/
theorem after_of_cursor? {call : Call L P} {cursor : Cursor} (runs : call.cursor? = some cursor)
    (progress : Progress S) :
    call.after config t progress = (Fusion.combine config t cursor progress).2.toProgress := by
  cases call with
  | combine => cases runs; rfl
  | compileLeaf => cases runs
  | operate memory processor operation =>
    rw [after, Machine.progress_step]
    obtain ⟨⟨v, a⟩, asks, missed⟩ := Option.bind_eq_some_iff.mp runs
    rw [asks]
    exact (Memory.requestCode_of_miss? missed config t progress).2

/-- Any other call leaves the counters alone. -/
theorem stats_after_of_cursor?_eq_none {call : Call L P} (idle : call.cursor? = none) (progress : Progress S) :
    (call.after config t progress).stats = progress.stats := by
  cases call with
  | combine => cases idle
  | compileLeaf cursor start =>
    obtain ⟨position, built⟩ := Run.build_eq t start ({ progress with cursor } : Run S)
    simp only [after, Run.compileLeaf_eq, built]
  | operate memory processor operation =>
    rw [after, Machine.progress_step]
    cases asks : operation.place? with
    | none => rfl
    | some place =>
      have missed : memory.miss? place.1 place.2 = none := by rwa [cursor?, asks] at idle
      exact congrArg Progress.stats (Memory.requestCode_of_miss?_eq_none missed config t progress)

end Call

/-! ### Counts -/

/-- How a run of the combiner ends. -/
inductive Ending where
  | compound | leaf | failure
  deriving DecidableEq

def Ending.of : Except CombineError (CodeTree L) → Ending
  | .ok (.compound ..) => .compound
  | .ok (.leaf _) => .leaf
  | .error _ => .failure

namespace Fusion.Stats

instance : Add Stats where
  add x y :=
    { attempts := x.attempts + y.attempts
      compounds := x.compounds + y.compounds
      leaves := x.leaves + y.leaves
      failures := x.failures + y.failures
      bailouts := x.bailouts + y.bailouts }

theorem add_def (x y : Stats) :
    x + y = ⟨x.attempts + y.attempts, x.compounds + y.compounds, x.leaves + y.leaves, x.failures + y.failures,
      x.bailouts + y.bailouts⟩ := rfl

theorem add_assoc (x y z : Stats) : x + y + z = x + (y + z) := by
  simp only [add_def, Nat.add_assoc]

/-- No counter is past its limit. -/
structure Fits (stats : Stats) : Prop where
  attempts : stats.attempts ≤ maxWord64
  compounds : stats.compounds ≤ maxWord64
  leaves : stats.leaves ≤ maxWord64
  failures : stats.failures ≤ maxWord64
  bailouts : stats.bailouts ≤ maxWord64

theorem Fits.left {x y : Stats} (fits : (x + y).Fits) : x.Fits where
  attempts := Nat.le_trans (Nat.le_add_right ..) fits.attempts
  compounds := Nat.le_trans (Nat.le_add_right ..) fits.compounds
  leaves := Nat.le_trans (Nat.le_add_right ..) fits.leaves
  failures := Nat.le_trans (Nat.le_add_right ..) fits.failures
  bailouts := Nat.le_trans (Nat.le_add_right ..) fits.bailouts

/-- One run with this ending and so many bailouts. -/
def one (ending : Ending) (bailouts : Nat) : Stats where
  attempts := 1
  compounds := if ending = .compound then 1 else 0
  leaves := if ending = .leaf then 1 else 0
  failures := if ending = .failure then 1 else 0
  bailouts := bailouts

omit [CodeUnit L] in
/-- A run is counted in full, as long as there is room. -/
theorem record_bailOuts {stats : Stats} {result : Except CombineError (CodeTree L)} {bailouts : Nat}
    (fits : (stats + one (.of result) bailouts).Fits) :
    (stats.bailOuts bailouts).record result = stats + one (.of result) bailouts := by
  obtain ⟨attempts, compounds, leaves, failures, events⟩ := fits
  simp only [add_def, one] at attempts compounds leaves failures events ⊢
  simp only [record, bailOuts, countEvents_of_le events, countEvent_of_lt attempts]
  rcases result with e | unit | ⟨entry, fallthrough, target⟩
  · simp [Ending.of, countEvent_of_lt failures]
  · simp [Ending.of, countEvent_of_lt leaves]
  · simp [Ending.of, countEvent_of_lt compounds]

end Fusion.Stats

/-! ### Runs of the combiner -/

/-- A run of the combiner: where it starts, and the progress before it. -/
structure Combination (S : Type) where
  cursor : Cursor
  before : Progress S

namespace Combination

variable (config : Config) (t : Toolchain S L)

def result (c : Combination S) : Except CombineError (CodeTree L) := (combine config t c.cursor c.before).1

def after (c : Combination S) : Progress S := (combine config t c.cursor c.before).2.toProgress

def ending (c : Combination S) : Ending := .of (c.result config t)

/-- The entries that were resolved in the run. -/
def resolved (c : Combination S) : Notes L := resolutions config t c.cursor c.before

/-- How many of them have a leaf and stayed one. -/
def unfused (c : Combination S) : Nat := (c.resolved config t).countP Resolution.isUnfused

def stats (c : Combination S) : Stats := .one (c.ending config t) (c.unfused config t)

/-- The counts of all these runs together. -/
def total (runs : List (Combination S)) : Stats where
  attempts := runs.length
  compounds := runs.countP (·.ending config t = .compound)
  leaves := runs.countP (·.ending config t = .leaf)
  failures := runs.countP (·.ending config t = .failure)
  bailouts := (runs.flatMap (·.resolved config t)).countP Resolution.isUnfused

variable {config t}

theorem total_cons (c : Combination S) (rest : List (Combination S)) :
    total config t (c :: rest) = c.stats config t + total config t rest := by
  simp only [total, stats, Stats.one, unfused, Stats.add_def, List.length_cons, List.countP_cons, List.flatMap_cons,
    List.countP_append, decide_eq_true_eq, Nat.add_comm]

/-- Every run ends in one of the three ways. -/
theorem attempts_total (runs : List (Combination S)) :
    (total config t runs).attempts =
      (total config t runs).compounds + (total config t runs).leaves + (total config t runs).failures := by
  induction runs with
  | nil => rfl
  | cons c rest ih =>
    have one : 1 = (c.stats config t).compounds + (c.stats config t).leaves + (c.stats config t).failures := by
      simp only [stats, Stats.one]
      cases c.ending config t <;> rfl
    simp only [total_cons, Stats.add_def] at ih ⊢
    have first : (c.stats config t).attempts = 1 := rfl
    omega

theorem fits_total {runs : List (Combination S)} (few : runs.length ≤ maxWord64)
    (rare : (runs.flatMap (·.resolved config t)).countP Resolution.isUnfused ≤ maxWord64) :
    (total config t runs).Fits where
  attempts := few
  compounds := Nat.le_trans List.countP_le_length few
  leaves := Nat.le_trans List.countP_le_length few
  failures := Nat.le_trans List.countP_le_length few
  bailouts := rare

/-- What a run adds to the counters. -/
theorem stats_after (leaves : t.OnlyLeaves) {c : Combination S} (fits : (c.before.stats + c.stats config t).Fits) :
    (c.after config t).stats = c.before.stats + c.stats config t := by
  rw [after, (combine_noted leaves c.cursor c.before).1]
  exact Stats.record_bailOuts fits

/-- Without fusion nothing is resolved, and nothing is left unfused. -/
theorem unfused_of_disabled (disabled : config.enabled = false) (c : Combination S) : c.unfused config t = 0 := by
  rw [unfused, resolved, resolutions_of_disabled disabled]
  rfl

/-- With fusion, an answer that is a leaf was left unfused itself. -/
theorem unfused_of_leaf (leaves : t.OnlyLeaves) (enabled : config.enabled = true) {c : Combination S}
    (leaf : c.ending config t = .leaf) : 1 ≤ c.unfused config t := by
  obtain ⟨r, member, _, _, answered⟩ := exists_resolution_of_enabled enabled t c.cursor c.before
  have regular := (combine_noted leaves c.cursor c.before).2 r member
  have answer : ∃ unit, r.answer = .ok (.leaf unit) := by
    rw [answered]
    rw [ending, result] at leaf
    generalize (combine config t c.cursor c.before).1 = result at leaf ⊢
    rcases result with e | unit | ⟨entry, fallthrough, target⟩
    · cases leaf
    · exact ⟨unit, rfl⟩
    · cases leaf
  obtain ⟨unit, answer⟩ := answer
  have kept : r.answer = r.entry := regular.kept (by rw [Resolution.isFused, answer])
  exact List.countP_pos_iff.mpr ⟨r, member, regular.unfused_iff.mpr ⟨unit, kept.symm.trans answer, answer⟩⟩

end Combination

section
variable [Executes L P] (config : Config) (t : Toolchain S L)

/-- The progress after a sequence of calls. -/
def afterCalls (calls : List (Call L P)) (progress : Progress S) : Progress S :=
  calls.foldl (Call.after config t) progress

/-- The runs of the combiner in a sequence of calls. -/
def combinations : List (Call L P) → Progress S → List (Combination S)
  | [], _ => []
  | call :: rest, progress =>
    (call.cursor?.map (⟨·, progress⟩)).toList ++ combinations rest (call.after config t progress)

theorem combinations_cursor (calls : List (Call L P)) (progress : Progress S) :
    (combinations config t calls progress).map Combination.cursor = calls.filterMap Call.cursor? := by
  induction calls generalizing progress with
  | nil => rfl
  | cons call rest ih =>
    rw [combinations, List.map_append, ih, List.filterMap_cons]
    cases call.cursor? <;> rfl

variable {config t}

/-- As long as there is room, a sequence of calls adds up what its runs add, and nothing else. -/
theorem stats_afterCalls (leaves : t.OnlyLeaves) (calls : List (Call L P)) (progress : Progress S)
    (fits : (progress.stats + Combination.total config t (combinations config t calls progress)).Fits) :
    (afterCalls config t calls progress).stats =
        progress.stats + Combination.total config t (combinations config t calls progress) ∧
      ∀ c ∈ combinations config t calls progress, (c.after config t).stats = c.before.stats + c.stats config t := by
  induction calls generalizing progress with
  | nil => exact ⟨rfl, List.forall_mem_nil _⟩
  | cons call rest ih =>
    rw [afterCalls, List.foldl_cons, ← afterCalls]
    cases runs : call.cursor? with
    | none =>
      have idle := call.stats_after_of_cursor?_eq_none config t runs progress
      have same : combinations config t (call :: rest) progress =
          combinations config t rest (call.after config t progress) := by
        rw [combinations, runs]
        rfl
      rw [same, ← idle] at fits ⊢
      exact ih _ fits
    | some cursor =>
      let c : Combination S := ⟨cursor, progress⟩
      have first : combinations config t (call :: rest) progress =
          c :: combinations config t rest (call.after config t progress) := by
        rw [combinations, runs]
        rfl
      have here : call.after config t progress = c.after config t := call.after_of_cursor? config t runs progress
      rw [first, Combination.total_cons, ← Stats.add_assoc] at fits ⊢
      have counted : (c.after config t).stats = progress.stats + c.stats config t :=
        Combination.stats_after leaves fits.left
      rw [here, ← counted] at fits ⊢
      obtain ⟨sums, each⟩ := ih _ fits
      exact ⟨sums, List.forall_mem_cons.mpr ⟨counted, each⟩⟩

/-- The operations of a run as calls, each of the machine as it is when its turn comes. -/
def Machine.calls (config : Config) (t : Toolchain S L) : List (Operation L) → Machine S L P → List (Call L P)
  | [], _ => []
  | operation :: rest, m =>
    .operate m.memory m.processor operation :: Machine.calls config t rest (m.step config t operation).2

theorem Machine.progress_run (operations : List (Operation L)) (m : Machine S L P) :
    (m.run config t operations).progress = afterCalls config t (m.calls config t operations) m.progress := by
  induction operations generalizing m with
  | nil => rfl
  | cons operation rest ih => exact ih (m.step config t operation).2

/-- The counters are those of these runs of the combiner. -/
structure Accounted (config : Config) (t : Toolchain S L) (runs : List (Combination S)) (stats : Stats) : Prop where
  attempts : stats.attempts = runs.length
  compounds : stats.compounds = runs.countP (·.ending config t = .compound)
  leaves : stats.leaves = runs.countP (·.ending config t = .leaf)
  failures : stats.failures = runs.countP (·.ending config t = .failure)
  endings : stats.attempts = stats.compounds + stats.leaves + stats.failures
  bailouts : stats.bailouts = (runs.flatMap (·.resolved config t)).countP Resolution.isUnfused
  /-- A run adds a bailout for every entry that was resolved in it, has a leaf, and stayed one. -/
  added : ∀ c ∈ runs, (c.after config t).stats.bailouts = c.before.stats.bailouts + c.unfused config t
  unfused : ∀ c ∈ runs, ∀ r ∈ c.resolved config t,
    r.isUnfused = true ↔ ∃ unit, r.entry = .ok (.leaf unit) ∧ r.answer = .ok (.leaf unit)
  /-- The run with notes is the run. -/
  noted : config.enabled = true → ∀ c ∈ runs,
    c.result config t = (requestNoting config t c.cursor c.before).1 ∧
      (c.after config t).tools = (requestNoting config t c.cursor c.before).2.forget.tools
  leaf : config.enabled = true → ∀ c ∈ runs, c.ending config t = .leaf → 1 ≤ c.unfused config t
  disabled : config.enabled = false → ∀ c ∈ runs, c.unfused config t = 0

/-- Whatever a combiner is used for, in whichever order: its counters are those of its runs. A call that runs
    it does so once and leaves what the run leaves; a leaf, a request that finds its code kept, one that leads
    nowhere or past the end of its block, and every other operation leave the counters as they are. -/
theorem counters_account (leaves : t.OnlyLeaves) (calls : List (Call L P)) (s : S)
    (few : (calls.filterMap Call.cursor?).length ≤ maxWord64)
    (rare : ((combinations config t calls ⟨s, {}⟩).flatMap (·.resolved config t)).countP Resolution.isUnfused ≤
      maxWord64) :
    (∀ call : Call L P, ∀ progress : Progress S,
      (call.cursor? = none → (call.after config t progress).stats = progress.stats) ∧
        ∀ cursor, call.cursor? = some cursor →
          call.after config t progress = (combine config t cursor progress).2.toProgress) ∧
      (combinations config t calls ⟨s, {}⟩).map Combination.cursor = calls.filterMap Call.cursor? ∧
      Accounted config t (combinations config t calls ⟨s, {}⟩) (afterCalls config t calls ⟨s, {}⟩).stats := by
  have cursors := combinations_cursor config t calls ⟨s, {}⟩
  refine ⟨fun call progress => ⟨fun idle => call.stats_after_of_cursor?_eq_none config t idle progress,
    fun cursor runs => call.after_of_cursor? config t runs progress⟩, cursors, ?_⟩
  have zero (x : Stats) : {} + x = x := by simp only [Stats.add_def, Nat.zero_add]
  have fits : ({} + Combination.total config t (combinations config t calls ⟨s, {}⟩) : Stats).Fits := by
    rw [← cursors, List.length_map] at few
    rw [zero]
    exact Combination.fits_total few rare
  obtain ⟨sums, each⟩ := stats_afterCalls leaves calls ⟨s, {}⟩ fits
  rw [sums, zero]
  exact {
    attempts := rfl
    compounds := rfl
    leaves := rfl
    failures := rfl
    endings := Combination.attempts_total _
    bailouts := rfl
    added := fun c member => congrArg Stats.bailouts (each c member)
    unfused := fun c _ r member => ((combine_noted leaves c.cursor c.before).2 r member).unfused_iff
    noted := fun enabled c _ => by
      rw [Combination.result, Combination.after, combine_of_enabled enabled]
      exact ⟨rfl, rfl⟩
    leaf := fun enabled c _ leaf => Combination.unfused_of_leaf leaves enabled leaf
    disabled := fun disabled c _ => Combination.unfused_of_disabled disabled c }

end

section
open Toy

/-- A machine with the window as a block that both views see, and a slot of the memory map that names no block. -/
def windowMachine : Machine Unit Stub Count :=
  ⟨{ (Memory.empty.share 0 (.cache (.ofContents window true))).2 with
      linear := (Directory.empty.place 0 ⟨0⟩).place 1 ⟨7⟩ }, ⟨(), {}⟩, 0⟩

def windowCalls : List (Call Stub Count) :=
  [.combine (.ofWindow window), .compileLeaf (.ofWindow window) 0, .combine ⟨window, 4⟩, .combine ⟨window, 1⟩] ++
    windowMachine.calls {} toolchain
      [.request .physical 0, .execute .linear 0, .request .physical 0x1000, .request .linear 0x1000,
        .request .linear 8]

/-- Two compounds, a leaf and a failure: code that is kept, a page that is not mapped, a handle without a
    block and an offset past the end do not count. -/
theorem counters_account_window :
    (windowCalls.filterMap Call.cursor?).length ≤ maxWord64 ∧
      (afterCalls {} toolchain windowCalls ⟨(), {}⟩).stats = ⟨4, 2, 1, 1, 7⟩ ∧
      Accounted {} toolchain (combinations {} toolchain windowCalls ⟨(), {}⟩)
        (afterCalls {} toolchain windowCalls ⟨(), {}⟩).stats := by
  have few : (windowCalls.filterMap Call.cursor?).length ≤ maxWord64 := by decide +kernel
  exact ⟨few, by decide +kernel, (counters_account onlyLeaves_toolchain windowCalls () few (by decide +kernel)).2.2⟩

end

end GuestMemory
