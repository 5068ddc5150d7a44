import GuestMemory.Proofs.Fusion.Toy
import GuestMemory.Proofs.Machine.Effect
import GuestMemory.Proofs.Memory.Wiring

/-!
Wiring faults. A machine that starts without blocks, and whose memory map is only ever pointed at handles that
the machine issued itself, stays well-wired (`Wired.wellWired`). So no request leads to a slot that does not
exist, and none fails for any other reason than that nothing is mapped at its address, or that no code can be
made there (`Machine.step_served`).
-/
namespace GuestMemory

open Fusion

variable {S L P : Type} [CodeUnit L]

/-- The handle that an operation points entries of the memory map at. -/
def Operation.target? : Operation L → Option Handle
  | .map _ _ h | .redirect _ _ h | .replaceBlocks _ h => some h
  | _ => none

/-- The handles that an answer issues. -/
def Answer.issued : Answer L → List Handle
  | .handle h => [h]
  | .handles hs => hs
  | _ => []

namespace Machine

section
variable {m : Machine S L P} {issued : List Handle} {α : Type} {toAnswer : α → Answer L}
  {result : Except MemoryError (α × Memory L)}

theorem answer_wellWired (wired : m.memory.WellWired issued)
    (changed : ∀ a memory, result = .ok (a, memory) → memory.WellWired (issued ++ (toAnswer a).issued)) :
    (m.answer toAnswer result).2.memory.WellWired (issued ++ (m.answer toAnswer result).1.issued) := by
  cases result with
  | error e =>
    rw [show (m.answer toAnswer (.error e)).1.issued = [] from rfl, List.append_nil]
    exact wired
  | ok accepted => exact changed accepted.1 accepted.2 rfl

/-- A change of the memory map keeps what it keeps where it is carried out. -/
theorem answer_keeps {Q : Memory L → Prop} (holds : Q m.memory)
    (changed : ∀ a memory, result = .ok (a, memory) → Q memory) : Q (m.answer toAnswer result).2.memory := by
  cases result with
  | error e => exact holds
  | ok accepted => exact changed accepted.1 accepted.2 rfl

/-- A refused change of the memory map leaves the machine as it is. -/
theorem answer_of_error (toAnswer : α → Answer L) (result : Except MemoryError (α × Memory L)) {e : MemoryError}
    (never : ∀ a, toAnswer a ≠ .error e) (refused : (m.answer toAnswer result).1 = .error e) :
    result = .error e ∧ (m.answer toAnswer result).2 = m := by
  cases result with
  | error e' =>
    cases refused
    exact ⟨rfl, rfl⟩
  | ok accepted => exact absurd refused (never accepted.1)

end

variable [Executes L P]

section
variable {m : Machine S L P} {issued : List Handle} {config : Config} {t : Toolchain S L} {operation : Operation L}
  {v : View} {a : Address}

/-- A request issues no handle, and fails as the request for the code does. -/
theorem answer_step_of_place? (asks : operation.place? = some (v, a)) :
    (m.step config t operation).1.issued = [] ∧
      ∀ e, (m.step config t operation).1 = .error e ↔ (m.request config t v a).1 = .error e := by
  cases operation with
  | request | execute =>
    cases asks
    simp only [step]
    generalize m.request config t v a = attempt
    obtain ⟨answer, after⟩ := attempt
    cases answer <;> simp [Answer.issued]
  | _ => cases asks

omit [Executes L P] in
/-- Without a block that is brought in, there are as many slots as before. -/
theorem Effect.size_eq {after : Arena L} (effect : Effect config t m operation after)
    (brings : ∀ block, ¬ operation.Brings block) : after.size = m.memory.arena.size := by
  cases effect with
  | grown _ grows =>
    cases grows with
    | refl => rfl
    | insert _ brought => exact absurd brought (brings _)
  | read _ touched => exact touched.size_eq.symm
  | stored v w a value => exact (Arena.keptByAccesses_slot.store _ _ _ _).size_eq.symm
  | copied v a bytes => exact (Arena.keptByAccesses_slot.copyIn _ _ _ _).size_eq.symm
  | cleared v => exact (Arena.keptByAccesses_slot.clearMapped (fun _ => trivial) _ _).size_eq.symm
  | @requested _ v a _ => exact (m.memory.requestCode_transparent config t v a m.progress).arena_size

theorem step_wellWired (config : Config) (t : Toolchain S L) (wired : m.memory.WellWired issued)
    (known : ∀ h, operation.target? = some h → h ∈ issued) :
    (m.step config t operation).2.memory.WellWired (issued ++ (m.step config t operation).1.issued) := by
  have none_issued {after : Memory L} (wired : after.WellWired issued) : after.WellWired (issued ++ []) := by
    rwa [List.append_nil]
  have slots := (step_effect config t m operation).size_eq
  cases operation with
  | install block => exact wired.install block
  | mapShared index block => exact answer_wellWired wired fun _ _ shared => wired.mapShared shared
  | loadRom base image => exact answer_wellWired wired fun _ _ loaded => wired.loadRom loaded
  | map v index h => exact answer_wellWired wired fun _ _ mapped => none_issued (wired.map (known h rfl) mapped)
  | unmap v index => exact none_issued (wired.unmap v index)
  | redirect v old new => exact none_issued (wired.redirect v old (known new rfl))
  | replaceBlocks old new =>
    refine answer_wellWired wired fun _ _ replaced => none_issued ?_
    obtain ⟨_, _, done, after⟩ := wired.replaceBlocks old (known new rfl)
    cases done.symm.trans replaced
    exact after
  | get | copyOut | set | copyIn | clear =>
    exact none_issued (wired.with_arena (slots fun _ => id))
  | request v a | execute v a =>
    rw [memory_step_of_place? rfl, (answer_step_of_place? rfl).1]
    exact none_issued (wired.with_arena (m.memory.requestCode_transparent config t v a m.progress).arena_size)

/-- No operation makes an entry past the end of the address space, whatever handles it is given. -/
theorem step_addressable (config : Config) (t : Toolchain S L) (addressable : m.memory.Addressable)
    (operation : Operation L) : (m.step config t operation).2.memory.Addressable := by
  cases operation with
  | install block => exact fun v => by cases v <;> [exact addressable .physical; exact addressable .linear]
  | mapShared index block =>
    refine answer_keeps addressable fun h after shared => ?_
    obtain ⟨inside, done⟩ := Memory.mapShared_eq_ok.mp shared
    have later : (m.memory.share index block).2.Addressable := addressable.share inside trivial
    rwa [done] at later
  | loadRom base image =>
    refine answer_keeps addressable fun hs after loaded => ?_
    obtain ⟨_, fits, done⟩ := Memory.loadRom_eq_ok.mp loaded
    have later := addressable.shareImage fits fun _ _ => trivial
    rwa [done] at later
  | map v index h =>
    refine answer_keeps addressable fun before after mapped => ?_
    obtain ⟨inside, _, rfl⟩ := Memory.map_eq_ok.mp mapped
    exact addressable.setDirectory v ((addressable v).place inside trivial)
  | unmap v index => exact addressable.setDirectory v ((addressable v).unmap index)
  | redirect v old new => exact addressable.setDirectory v ((addressable v).redirect old trivial)
  | replaceBlocks old new =>
    refine answer_keeps addressable fun count after replaced => ?_
    obtain ⟨_, _, rfl⟩ := Memory.replaceBlocks_eq_ok.mp replaced
    intro v
    cases v with
    | physical => exact (addressable .physical).redirect old trivial
    | linear => exact (addressable .linear).redirect old trivial
  | get | copyOut | set | copyIn | clear => exact addressable.with_arena _
  | request v a | execute v a =>
    rw [memory_step_of_place? rfl]
    exact addressable.with_arena _

theorem run_addressable (config : Config) (t : Toolchain S L) (operations : List (Operation L))
    (addressable : m.memory.Addressable) : (m.run config t operations).memory.Addressable := by
  induction operations generalizing m with
  | nil => exact addressable
  | cons operation rest ih => exact ih (step_addressable config t addressable operation)

/-- How an operation can fail. A change of the memory map that fails changes nothing at all. -/
inductive Refused (config : Config) (t : Toolchain S L) (m : Machine S L P) : Operation L → MemoryError → Prop
  | request {operation v a e} (asks : operation.place? = some (v, a)) (failed : (m.request config t v a).1 = .error e) :
    Refused config t m operation e
  | outOfRange {operation index} (same : (m.step config t operation).2 = m) :
    Refused config t m operation (.indexOutOfRange index)
  | misaligned {operation base} (same : (m.step config t operation).2 = m) :
    Refused config t m operation (.misaligned base)
  | unknownBlock {old new} (same : (m.step config t (.replaceBlocks old new)).2 = m)
    (missing : m.memory.arena.get? new = none) : Refused config t m (.replaceBlocks old new) (.unknownBlock new)

theorem step_refused {e : MemoryError} (refused : (m.step config t operation).1 = .error e) :
    Refused config t m operation e := by
  cases operation with
  | mapShared index block =>
    obtain ⟨failed, same⟩ := answer_of_error .handle (m.memory.mapShared index block) (by simp) refused
    rw [Memory.mapShared] at failed
    split at failed <;> cases failed
    exact .outOfRange same
  | loadRom base image =>
    obtain ⟨failed, same⟩ := answer_of_error .handles (m.memory.loadRom base image) (by simp) refused
    rw [Memory.loadRom] at failed
    split at failed
    · cases failed
      exact .misaligned same
    · split at failed <;> cases failed
      exact .outOfRange same
  | map v index h =>
    obtain ⟨failed, same⟩ := answer_of_error .displaced (m.memory.map v index h) (by simp) refused
    rw [Memory.map, Directory.map] at failed
    split at failed <;> cases failed
    exact .outOfRange same
  | replaceBlocks old new =>
    obtain ⟨failed, same⟩ := answer_of_error .count (m.memory.replaceBlocks old new) (by simp) refused
    rw [Memory.replaceBlocks] at failed
    split at failed <;> cases failed
    rename_i missing
    exact .unknownBlock same missing
  | request v a => exact .request rfl (((answer_step_of_place? rfl).2 e).mp refused)
  | execute v a => exact .request rfl (((answer_step_of_place? rfl).2 e).mp refused)
  | _ => cases refused

omit [Executes L P] in
/-- There is no code where nothing is mapped, and in a well-wired machine it can be missing in one way more. -/
theorem request_eq_error (wired : m.memory.WellWired issued) :
    ((m.request config t v a).1 = .error (.unmapped a) ↔ (m.memory.directory v).handleAt a = none) ∧
      ∀ e, (m.request config t v a).1 = .error e → e = .unmapped a ∨ ∃ cause, e = .noCode a cause := by
  have transparent := m.memory.requestCode_transparent config t v a m.progress
  have answer : (m.request config t v a).1 = (m.memory.requestCode config t v a m.progress).1 := rfl
  rw [answer]
  cases mapped : (m.memory.directory v).handleAt a with
  | none =>
    obtain ⟨unmapped, _, _⟩ := transparent.unmapped mapped
    rw [unmapped]
    refine ⟨by simp, ?_⟩
    rintro e ⟨⟩
    exact .inl rfl
  | some h =>
    obtain ⟨block, found⟩ := wired.exists_of_handleAt mapped
    obtain ⟨code, answered⟩ | ⟨cause, answered⟩ := transparent.answered h block mapped found
    · simp [answered]
    · simp [answered]

/-- No operation finds a handle without a slot. -/
theorem step_ne_unknownBlock (wired : m.memory.WellWired issued)
    (known : ∀ h, operation.target? = some h → h ∈ issued) (h : Handle) :
    (m.step config t operation).1 ≠ .error (.unknownBlock h) := by
  intro refused
  cases step_refused refused with
  | request asks failed =>
    rcases (request_eq_error wired).2 _ failed with same | ⟨_, same⟩ <;> cases same
  | unknownBlock _ missing =>
    obtain ⟨block, found⟩ := wired.exists_block (known _ rfl)
    rw [missing] at found
    cases found

/-- A machine answers an operation without a wiring fault. -/
structure Served (m : Machine S L P) (operation : Operation L) (answer : Answer L) (after : Machine S L P) : Prop where
  /-- A slot is added for every handle that is issued, and none is given back. -/
  stored : after.memory.arena.size = m.memory.arena.size + answer.issued.length
  refused : ∀ e, answer = .error e → after.memory.arena.size = m.memory.arena.size ∧
    after.memory.physical = m.memory.physical ∧ after.memory.linear = m.memory.linear
  known : ∀ h, answer ≠ .error (.unknownBlock h)
  replaced : ∀ old new, operation = .replaceBlocks old new → ∃ count, answer = .count count
  unmapped : ∀ v a, operation.place? = some (v, a) →
    (answer = .error (.unmapped a) ↔ (m.memory.directory v).handleAt a = none)
  noCode : ∀ v a, operation.place? = some (v, a) →
    ∀ e, answer = .error e → e = .unmapped a ∨ ∃ cause, e = .noCode a cause

theorem step_served (config : Config) (t : Toolchain S L) (wired : m.memory.WellWired issued)
    (known : ∀ h, operation.target? = some h → h ∈ issued) :
    m.Served operation (m.step config t operation).1 (m.step config t operation).2 where
  stored := by
    have before := congrArg List.length wired.handles
    have after := congrArg List.length (step_wellWired config t wired known).handles
    rw [Arena.length_handles] at before
    rwa [Arena.length_handles, List.length_append, ← before] at after
  refused e refused := by
    cases step_refused refused with
    | @request _ v a _ asks _ =>
      have transparent := m.memory.requestCode_transparent config t v a m.progress
      rw [memory_step_of_place? asks]
      exact ⟨transparent.arena_size, transparent.physical, transparent.linear⟩
    | outOfRange same | misaligned same | unknownBlock same _ =>
      rw [same]
      exact ⟨rfl, rfl, rfl⟩
  known := step_ne_unknownBlock wired known
  replaced := by
    rintro old new rfl
    obtain ⟨count, _, done, _⟩ := wired.replaceBlocks old (known new rfl)
    refine ⟨count, ?_⟩
    rw [step, done]
    rfl
  unmapped v a asks := ((answer_step_of_place? asks).2 _).trans (request_eq_error wired).1
  noCode v a asks e refused := (request_eq_error wired).2 e (((answer_step_of_place? asks).2 e).mp refused)

end

end Machine

/-! ### Runs -/

/-- What a run can come to that starts without blocks, and the handles that were issued in it. The memory map
    is only pointed at handles among them. Every operation comes with tools and a processor of its own, and
    blocks can change in their slots in any way in between. -/
inductive Wired : Memory L → List Handle → Prop
  | empty : Wired .empty []
  | step {S P : Type} [Executes L P] (config : Config) (t : Toolchain S L) (m : Machine S L P) (operation : Operation L)
    {issued : List Handle} (before : Wired m.memory issued)
    (known : ∀ h, operation.target? = some h → h ∈ issued) :
    Wired (m.step config t operation).2.memory (issued ++ (m.step config t operation).1.issued)
  | handled {m : Memory L} {issued : List Handle} (before : Wired m issued) (h : Handle) (block : Block L) :
    Wired { m with arena := m.arena.put h block } issued

theorem Wired.wellWired {m : Memory L} {issued : List Handle} (wired : Wired m issued) :
    m.WellWired issued := by
  induction wired with
  | empty => exact Memory.wellWired_empty
  | step config t _ _ _ known ih => exact Machine.step_wellWired config t ih known
  | handled _ h block ih => exact ih.with_arena (Arena.size_put _ h block)

/-- The handles that a list of operations issues. -/
def Machine.issues [Executes L P] (config : Config) (t : Toolchain S L) :
    List (Operation L) → Machine S L P → List Handle
  | [], _ => []
  | operation :: rest, m =>
    (m.step config t operation).1.issued ++ Machine.issues config t rest (m.step config t operation).2

/-- A list of operations is such a run, if it makes use of handles that were issued before it. -/
theorem Wired.run [Executes L P] (config : Config) (t : Toolchain S L) {m : Machine S L P}
    {issued : List Handle} (before : Wired m.memory issued) (operations : List (Operation L))
    (known : ∀ operation ∈ operations, ∀ h ∈ operation.target?, h ∈ issued) :
    Wired (m.run config t operations).memory (issued ++ m.issues config t operations) := by
  induction operations generalizing m issued with
  | nil =>
    rw [Machine.issues, List.append_nil]
    exact before
  | cons operation rest ih =>
    obtain ⟨here, later⟩ := List.forall_mem_cons.mp known
    rw [Machine.issues, ← List.append_assoc]
    exact ih (before.step config t m operation here) fun operation member h points =>
      List.mem_append_left _ (later operation member h points)

/-- Every entry of the memory map leads to a block, and the handles that were issued are those of the blocks,
    all different. -/
structure Memory.Sound (m : Memory L) (issued : List Handle) : Prop where
  entries : ∀ v index h, (m.directory v).handleForIndex index = some h →
    index < blockCount ∧ ∃ block, m.arena.get? h = some block
  valid : ∀ h, h ∈ issued ↔ ∃ block, m.arena.get? h = some block
  distinct : issued.Nodup
  stored : m.arena.size = issued.length

theorem Memory.WellWired.sound {m : Memory L} {issued : List Handle} (wired : m.WellWired issued) :
    m.Sound issued where
  entries v index h found := (wired.within v index h found).imp_right wired.exists_block
  valid h := wired.handles ▸ Arena.mem_handles
  distinct := wired.handles ▸ m.arena.nodup_handles
  stored := by rw [← wired.handles, Arena.length_handles]

/-- As long as the memory map is pointed at handles that were issued, all of them stay good, and no operation
    that is carried out next, with whatever tools, reports a handle without a block. -/
theorem wired_faultless {memory : Memory L} {issued : List Handle} (wired : Wired memory issued) :
    memory.Sound issued ∧
      ∀ {S P : Type} [Executes L P] (m : Machine S L P), m.memory = memory → ∀ config t operation,
        (∀ h ∈ operation.target?, h ∈ issued) →
        m.Served operation (m.step config t operation).1 (m.step config t operation).2 := by
  refine ⟨wired.wellWired.sound, ?_⟩
  rintro S P _ m rfl config t operation known
  exact Machine.step_served config t wired.wellWired known

section
open Toy

/-- No blocks, and nothing mapped. -/
def bareMachine : Machine Unit Stub Count := ⟨.empty, ⟨(), {}⟩, 0⟩

/-- A block in both views, and a second one that is not mapped. -/
def supplies : List (Operation Stub) := [.mapShared 0 (.cache (.ofContents window true)), .install (.rom ⟨window⟩)]

/-- The first block runs under a second address and is unmapped under its own, and a third block is refused. -/
def rewiring : List (Operation Stub) :=
  [.map .linear 5 ⟨0⟩, .execute .linear 0x5000, .mapShared blockCount (.rom ⟨window⟩), .unmap .linear 0]

def rewiredMachine : Machine Unit Stub Count := (bareMachine.run {} toolchain supplies).run {} toolchain rewiring

/-- The handles are good for what is left of the map, and code is missing where nothing is mapped. -/
theorem rewiredMachine_faultless :
    Wired rewiredMachine.memory [⟨0⟩, ⟨1⟩] ∧ rewiredMachine.memory.Sound [⟨0⟩, ⟨1⟩] ∧
      (rewiredMachine.step {} toolchain (.replaceBlocks ⟨0⟩ ⟨1⟩)).1 ≠ .error (.unknownBlock ⟨1⟩) ∧
      (rewiredMachine.step {} toolchain (.execute .linear 0)).1 = .error (.unmapped 0) := by
  have bare : Wired bareMachine.memory [] := .empty
  have supplied := bare.run {} toolchain supplies (by decide)
  rw [show [] ++ bareMachine.issues {} toolchain supplies = [⟨0⟩, ⟨1⟩] by decide +kernel] at supplied
  have wired := supplied.run {} toolchain rewiring (by decide)
  rw [show [⟨0⟩, ⟨1⟩] ++ (bareMachine.run {} toolchain supplies).issues {} toolchain rewiring = [⟨0⟩, ⟨1⟩] by
    decide +kernel] at wired
  obtain ⟨sound, served⟩ := wired_faultless wired
  have replaced := served rewiredMachine rfl {} toolchain (.replaceBlocks ⟨0⟩ ⟨1⟩) (by decide)
  have executed := served rewiredMachine rfl {} toolchain (.execute .linear 0) (by decide)
  have nowhere : (rewiredMachine.memory.directory .linear).handleAt 0 = none := by decide +kernel
  exact ⟨wired, sound, replaced.known _, (executed.unmapped .linear 0 rfl).mpr nowhere⟩

end

end GuestMemory
