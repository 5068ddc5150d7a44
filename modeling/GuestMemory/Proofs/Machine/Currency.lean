import GuestMemory.Proofs.Fusion.Toy
import GuestMemory.Proofs.Machine.Effect
import GuestMemory.Proofs.Memory.Currency

/-!
No stale translation. Whatever operations a machine went through, in whatever order and through
whichever view, the code that its blocks keep is what the tools would make of their bytes now
(`reachable_currentCode`). One operation keeps this (`step_upToDate`), and so does any run of them.
-/
namespace GuestMemory

open Fusion

variable {S L P : Type} [CodeUnit L]

/-- Blocks are installed without any code. -/
def Operation.Bare : Operation L → Prop
  | .install block => block.Bare
  | .mapShared _ block => block.Bare
  | _ => True

theorem Operation.Bare.of_brings {operation : Operation L} (bare : operation.Bare) {block : Block L}
    (brought : operation.Brings block) : block.Bare := by
  cases operation with
  | install | mapShared =>
    obtain rfl := brought
    exact bare
  | loadRom =>
    obtain ⟨rom, rfl⟩ := brought
    exact Block.bare_of_cache?_eq_none rfl
  | _ => cases brought

namespace Machine

variable [Executes L P] {t : Toolchain S L}

/-- The machines that operations lead to from empty memory. Every operation may come with limits on
    fusion of its own. -/
inductive Reachable (t : Toolchain S L) : Machine S L P → Prop
  | start (progress : Progress S) (processor : P) : Reachable t ⟨.empty, progress, processor⟩
  | step {m : Machine S L P} (config : Config) (operation : Operation L) (bare : operation.Bare)
      (before : Reachable t m) : Reachable t (m.step config t operation).2

theorem run_reachable (config : Config) (operations : List (Operation L)) :
    ∀ {m : Machine S L P}, (∀ operation ∈ operations, operation.Bare) → Reachable t m →
      Reachable t (m.run config t operations) := by
  induction operations with
  | nil => exact fun _ before => before
  | cons operation rest ih =>
    intro m bare before
    have first := before.step config operation (bare operation List.mem_cons_self)
    exact ih (fun later member => bare later (List.mem_cons_of_mem _ member)) first

/-- No operation leaves a block with code that is not current. -/
theorem step_upToDate (localTools : t.Local) {m : Machine S L P} (upToDate : m.memory.arena.UpToDate t)
    (config : Config) {operation : Operation L} (bare : operation.Bare) :
    (m.step config t operation).2.memory.arena.UpToDate t :=
  (step_effect config t m operation).forall (Arena.keptByAccesses_upToDate localTools)
    (fun block _ => block.bare_clear.upToDate t) (fun _ brought => (bare.of_brings brought).upToDate t)
    (fun d a => upToDate.requestCode localTools config d a m.progress) upToDate

theorem reachable_upToDate (localTools : t.Local) {m : Machine S L P} (reached : Reachable t m) :
    m.memory.arena.UpToDate t := by
  induction reached with
  | start => exact Arena.upToDate_empty t
  | step config operation bare _ ih => exact step_upToDate localTools ih config bare

/-- All code in any cache of any machine that operations lead to lies inside its block, covers the
    leaves that it is made of, and none of them is stale. -/
theorem reachable_currentCode (localTools : t.Local) {m : Machine S L P} (reached : Reachable t m) {h : Handle}
    {cache : CodeCache L} (found : m.memory.arena.get? h = some (.cache cache)) {offset : Nat}
    {code : CodeTree L} (kept : cache.codeAt offset = some code) : CurrentCode t cache.contents offset code :=
  reachable_upToDate localTools reached h (.cache cache) found cache rfl offset code kept

section
open Toy

/-- Code is made through one view, and a byte behind it is written through the other. -/
def session : List (Operation Stub) :=
  [.mapShared 0 (.cache (.ofContents window true)), .request .physical 0, .set .linear .byte 6 0x90]

def afterSession : Machine Unit Stub Count := run {} toolchain session ⟨.empty, ⟨(), {}⟩, 0⟩

theorem bare_session : ∀ operation ∈ session, operation.Bare := by
  intro operation member
  simp only [session, List.mem_cons, List.not_mem_nil, or_false] at member
  rcases member with rfl | rfl | rfl
  · rintro cache ⟨⟩
    rfl
  · trivial
  · trivial

theorem afterSession_currentCode :
    toolchain.Local ∧ Reachable toolchain afterSession ∧
      ∃ cache, afterSession.memory.arena.get? ⟨0⟩ = some (.cache cache) ∧ cache.codeAt 0 = some tree ∧
        cache.contents = window.set 6 0x90 ∧ CurrentCode toolchain cache.contents 0 tree := by
  have reached : Reachable toolchain afterSession := run_reachable {} session bare_session (.start _ _)
  let cache : CodeCache Stub := ⟨window.set 6 0x90, true, Table.empty.insert 0 tree, by decide⟩
  have found : afterSession.memory.arena.get? ⟨0⟩ = some (.cache cache) := by decide +kernel
  exact ⟨local_toolchain, reached, cache, found, rfl, rfl, reachable_currentCode local_toolchain reached found rfl⟩

end

end Machine

end GuestMemory
