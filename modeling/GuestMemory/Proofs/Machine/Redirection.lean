import GuestMemory.Machine
import GuestMemory.Proofs.Fusion.Toy
import GuestMemory.Proofs.Memory.Map
import GuestMemory.Proofs.Memory.Reads
import GuestMemory.Proofs.Table

/-!
Pointing the memory map at another block. Every slot of either view that holds the old handle is pointed at the new
one, the slots that are counted are just these (`redirectedCount_eq`), and nothing else changes. So each address that
led to the old block reads the byte at the same offset of the new one, through whatever view
(`Memory.redirected_redirectBoth`); a handle without a block is refused (`replaceBlocks_redirects`).
-/
namespace GuestMemory

open Fusion

namespace Directory

/-- The places at which the handle stands. -/
def places (d : Directory) (h : Handle) : Set Nat := {index | d.handleForIndex index = some h}

theorem redirectedCount_eq (d : Directory) (old new : Handle) :
    d.redirectedCount old new = if old = new then 0 else (d.places old).ncard := by
  rw [redirectedCount, places, handles]
  simp only [handleForIndex, Table.ncard_find?]

@[simp] theorem handleForIndex_redirect (d : Directory) (old new : Handle) (index : Nat) :
    (d.redirect old new).handleForIndex index =
      (d.handleForIndex index).map fun h => if h = old then new else h :=
  Table.find?_map ..

theorem handleForIndex_redirect_ne {d : Directory} {old new : Handle} (differ : old ≠ new) (index : Nat) :
    (d.redirect old new).handleForIndex index ≠ some old := by
  rw [handleForIndex_redirect]
  intro found
  obtain ⟨h, _, same⟩ := Option.map_eq_some_iff.mp found
  by_cases here : h = old
  · rw [if_pos here] at same
    exact differ same.symm
  · rw [if_neg here] at same
    exact here same

/-- A second redirection finds nothing to do. -/
theorem redirect_redirect (d : Directory) (old new : Handle) :
    (d.redirect old new).redirect old new = d.redirect old new := by
  have once : ∀ h : Handle, (if (if h = old then new else h) = old then new else if h = old then new else h) =
      if h = old then new else h := by
    intro h
    by_cases here : h = old
    · simp [here]
    · simp [here]
  have slots : (d.redirect old new).slots.map (fun h => if h = old then new else h) = (d.redirect old new).slots := by
    apply Table.eq_of_entries
    simp [redirect, Table.map, Function.comp_def, Prod.map, once]
  exact congrArg Directory.mk slots

theorem redirectedCount_redirect (d : Directory) (old new : Handle) :
    (d.redirect old new).redirectedCount old new = 0 := by
  rw [redirectedCount_eq]
  by_cases same : old = new
  · rw [if_pos same]
  · have nowhere : (d.redirect old new).places old = ∅ := by
      ext index
      simp only [places, Set.mem_ofPred_eq, Set.mem_empty_iff_false, iff_false]
      exact handleForIndex_redirect_ne same index
    rw [if_neg same, nowhere, Set.ncard_empty]

end Directory

variable {S L P : Type} [CodeUnit L]

namespace Memory

/-- What it does to the memory to point the slots of both views that hold `old` at `new`, which has `block`
    behind it. -/
structure Redirected (m : Memory L) (old new : Handle) (block : Block L) (count : Nat) (after : Memory L) :
    Prop where
  arena : after.arena = m.arena
  count : count = if old = new then 0 else (m.physical.places old).ncard + (m.linear.places old).ncard
  gone : old ≠ new → ∀ v index, (after.directory v).handleForIndex index ≠ some old
  pointed : ∀ v index, (m.directory v).handleForIndex index = some old →
    (after.directory v).handleForIndex index = some new
  kept : ∀ v index, (m.directory v).handleForIndex index ≠ some old →
    (after.directory v).handleForIndex index = (m.directory v).handleForIndex index
  byte : ∀ v a, (m.directory v).handleAt a = some old →
    (after.get v .byte a).1 = (block.contents[a.blockOffset]?.getD openBus).toBitVec
  again : after.replaceBlocks old new = .ok (0, after)

/-- The memory with both views redirected. -/
def redirectBoth (m : Memory L) (old new : Handle) : Memory L :=
  { m with physical := m.physical.redirect old new, linear := m.linear.redirect old new }

theorem directory_redirectBoth (m : Memory L) (old new : Handle) (v : View) :
    (m.redirectBoth old new).directory v = (m.directory v).redirect old new := by
  cases v <;> rfl

theorem redirected_redirectBoth (m : Memory L) {old new : Handle} {block : Block L}
    (owned : m.arena.get? new = some block) :
    m.Redirected old new block (m.physical.redirectedCount old new + m.linear.redirectedCount old new)
      (m.redirectBoth old new) where
  arena := rfl
  count := by
    rw [Directory.redirectedCount_eq, Directory.redirectedCount_eq]
    split
    · rfl
    · rfl
  gone differ v index := by
    rw [directory_redirectBoth]
    exact Directory.handleForIndex_redirect_ne differ index
  pointed v index held := by
    rw [directory_redirectBoth, Directory.handleForIndex_redirect, held, Option.map_some, if_pos rfl]
  kept v index other := by
    rw [directory_redirectBoth, Directory.handleForIndex_redirect]
    cases found : (m.directory v).handleForIndex index with
    | none => rfl
    | some h =>
      have differs : h ≠ old := by
        rintro rfl
        exact other found
      rw [Option.map_some, if_neg differs]
  byte v a mapped := by
    have leads : ((m.redirectBoth old new).directory v).handleAt a = some new := by
      rw [directory_redirectBoth, Directory.handleAt, Directory.handleForIndex_redirect, ← Directory.handleAt, mapped,
        Option.map_some, if_pos rfl]
    rw [get_byte_eq, Arena.loadByte_byte]
    exact congrArg UInt8.toBitVec (Arena.byteAt_of_get? leads owned)
  again := by
    refine replaceBlocks_eq_ok.mpr ⟨⟨block, owned⟩, ?_, ?_⟩
    · show (m.physical.redirect old new).redirectedCount old new +
        (m.linear.redirect old new).redirectedCount old new = 0
      rw [Directory.redirectedCount_redirect, Directory.redirectedCount_redirect]
    · simp only [redirectBoth, Directory.redirect_redirect]

end Memory

namespace Machine

variable [Executes L P]

/-- A handle that no slot of the arena has is refused, and the machine stays as it is. Otherwise all references to the
    old block become references to the new one, in both views, and nothing else changes. -/
theorem replaceBlocks_redirects (config : Config) (t : Toolchain S L) (m : Machine S L P) (old new : Handle) :
    (m.memory.arena.get? new = none →
      m.step config t (.replaceBlocks old new) = (.error (.unknownBlock new), m)) ∧
    (∀ block, m.memory.arena.get? new = some block → ∃ count after,
      m.step config t (.replaceBlocks old new) = (.count count, m.withMemory after) ∧
        m.memory.Redirected old new block count after) := by
  constructor
  · intro missing
    rw [step, Memory.replaceBlocks, missing, answer]
  · intro block owned
    refine ⟨_, m.memory.redirectBoth old new, ?_, m.memory.redirected_redirectBoth owned⟩
    rw [step, Memory.replaceBlocks, owned, answer]
    rfl

section
open Toy

/-- Three entries in two views that hold a handle of no block, one that holds the handle of a ROM block of two bytes,
    and that block. -/
def astray : Machine Unit Stub Count where
  memory := {
    arena := ⟨#[.fresh, .rom ⟨#[0x12, 0x34]⟩]⟩
    physical := ((Directory.empty.place 0 ⟨7⟩).place 2 ⟨7⟩).place 3 ⟨1⟩
    linear := (Directory.empty.place 2 ⟨7⟩).place 9 ⟨0⟩ }
  progress := ⟨(), {}⟩
  processor := 0

/-- All three are pointed at the ROM block, which has no third byte; a second time there is nothing to do, and the
    other way round the handle is refused. -/
theorem astray_redirects :
    astray.memory.arena.get? ⟨1⟩ = some (.rom ⟨#[0x12, 0x34]⟩) ∧ astray.memory.arena.get? ⟨7⟩ = none ∧
      (∃ after, astray.step {} toolchain (.replaceBlocks ⟨7⟩ ⟨1⟩) = (.count 3, astray.withMemory after) ∧
        (after.get .physical .byte 0x2001).1 = 0x34 ∧ (after.get .linear .byte 0x2001).1 = 0x34 ∧
        (after.get .linear .byte 0x2002).1 = 0xFF ∧ after.replaceBlocks ⟨7⟩ ⟨1⟩ = .ok (0, after)) ∧
      astray.step {} toolchain (.replaceBlocks ⟨1⟩ ⟨7⟩) = (.error (.unknownBlock ⟨7⟩), astray) := by
  have owned : astray.memory.arena.get? ⟨1⟩ = some (.rom ⟨#[0x12, 0x34]⟩) := rfl
  have missing : astray.memory.arena.get? ⟨7⟩ = none := rfl
  obtain ⟨count, after, answered, redirected⟩ :=
    (replaceBlocks_redirects {} toolchain astray ⟨7⟩ ⟨1⟩).2 _ owned
  have three : (astray.step {} toolchain (.replaceBlocks ⟨7⟩ ⟨1⟩)).1 = .count 3 := by rfl
  rw [answered] at three
  obtain rfl : count = 3 := Answer.count.inj three
  refine ⟨owned, missing, ⟨after, answered, ?_, ?_, ?_, redirected.again⟩,
    (replaceBlocks_redirects {} toolchain astray ⟨1⟩ ⟨7⟩).1 missing⟩
  · rw [redirected.byte .physical 0x2001 (by decide +kernel)]
    rfl
  · rw [redirected.byte .linear 0x2001 (by decide +kernel)]
    rfl
  · rw [redirected.byte .linear 0x2002 (by decide +kernel)]
    rfl

end

end Machine

end GuestMemory
