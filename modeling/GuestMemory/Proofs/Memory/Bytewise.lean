import GuestMemory.Memory.Basic
import GuestMemory.Proofs.Block.Code
import GuestMemory.Proofs.Fusion.Toy
import GuestMemory.Proofs.Memory.Writes
import Mathlib.Tactic.SplitIfs

/-!
Writes against their bytes one at a time. A block that takes a write in one piece splices it in once
and evicts code once; byte by byte, every byte is looked up, written and evicts code on its own. The
two leave the same memory (`writes_eq_setBytes`), with the same bytes, the same blocks allocated and
the same code kept, if no block runs past its addresses and all code that is kept has bytes.
-/
namespace GuestMemory

variable {L : Type} [CodeUnit L]

namespace Arena

/-- No block runs past the addresses that it answers to, and all code that a block keeps has bytes. -/
def Regular (arena : Arena L) : Prop :=
  ∀ h block, arena.get? h = some block → block.size ≤ blockSize ∧ block.Solid

theorem keptByAccesses_regular :
    KeptByAccesses (L := L) fun x y => x.size ≤ blockSize ∧ x.Solid → y.size ≤ blockSize ∧ y.Solid where
  refl _ := id
  trans _ _ _ first second := second ∘ first
  touch block regular := by simpa [Block.Solid, Block.codeAt] using regular
  patch block offset bytes _ regular := by
    rw [Block.size_patch]
    exact ⟨regular.1, regular.2.patch offset bytes⟩

theorem Regular.scatter {arena : Arena L} (regular : arena.Regular) (d : Directory) (a : Address)
    (bytes : List UInt8) : (arena.scatter d a bytes).Regular := by
  intro h block found
  exact (keptByAccesses_regular.scatter d bytes arena a).forall regular found

theorem scatter_append (d : Directory) (later bytes : List UInt8) :
    ∀ (a : Address) (arena : Arena L), arena.scatter d a (bytes ++ later) =
      (arena.scatter d a bytes).scatter d (a + UInt32.ofNat bytes.length) later := by
  induction bytes with
  | nil => simp [scatter]
  | cons b rest ih =>
    intro a arena
    rw [List.cons_append, scatter, ih, scatter, List.length_cons, Address.add_ofNat_succ]

theorem storeByte_within {arena : Arena L} {d : Directory} {a : Address} {h : Handle} {block : Block L}
    (mapped : d.handleAt a = some h) (found : arena.get? h = some block) (held : a.blockOffset < block.size)
    (b : UInt8) : arena.storeByte d a b = arena.put h (block.patch a.blockOffset [b]) := by
  have taken : arena.writeWithin d a [b] = some (arena.put h (block.patch a.blockOffset [b])) :=
    writeWithin_eq_some.mpr ⟨h, block, mapped, found, held, rfl⟩
  rw [storeByte, taken, Option.getD_some]

/-- The bytes of a run that fits into a block all go to that block, as if it took them in one piece. -/
theorem scatter_within {d : Directory} {h : Handle} (rest : List UInt8) :
    ∀ (b : UInt8) {arena : Arena L} {a : Address} {block : Block L}, arena.Regular → d.handleAt a = some h →
      arena.get? h = some block → a.blockOffset + (rest.length + 1) ≤ block.size →
      arena.scatter d a (b :: rest) = arena.put h (block.patch a.blockOffset (b :: rest)) := by
  induction rest with
  | nil =>
    intro b arena a block _ mapped found held
    rw [scatter, storeByte_within mapped found held, scatter]
  | cons c rest ih =>
    intro b arena a block regular mapped found fits
    obtain ⟨small, solid⟩ := regular h block found
    rw [List.length_cons] at fits
    have first := storeByte_within mapped found (by omega) b
    have regular' : (arena.put h (block.patch a.blockOffset [b])).Regular := first ▸ regular.scatter d a [b]
    have found' : (arena.put h (block.patch a.blockOffset [b])).get? h = some (block.patch a.blockOffset [b]) := by
      rw [get?_put, if_pos rfl, found, Option.map_some]
    have next : a.blockOffset + 1 < blockSize := by omega
    have mapped' : d.handleAt (a + 1) = some h := (Directory.handleAt_add next d).trans mapped
    have place : (a + 1).blockOffset = a.blockOffset + 1 := Address.blockOffset_add next
    have short : a.blockOffset + ((c :: rest).length + 1) ≤ maxWord64 := by
      simp only [List.length_cons, maxWord64, blockSize] at small ⊢
      omega
    rw [scatter, first, ih c regular' mapped' found' (by rw [place, Block.size_patch]; omega), put_put, place,
      ← Block.patch_cons solid short]

/-- On regular arenas, every write is what its bytes are one at a time. -/
theorem writeRule_scatter (d : Directory) : WriteRule (L := L) d fun a bytes before after =>
    before.Regular → after = before.scatter d a bytes where
  nil _ _ _ := rfl
  append {a bytes later first second third} here there regular := by
    have between := here regular
    rw [there (between ▸ regular.scatter d a bytes), between, scatter_append]
  accepted {a bytes arena after} nonempty _ taken regular := by
    obtain ⟨h, block, mapped, found, fits, rfl⟩ := writeWithin_eq_some.mp taken
    obtain ⟨b, rest, rfl⟩ := List.exists_cons_of_ne_nil nonempty
    exact (scatter_within rest b regular mapped found fits).symm
  dropped {a b arena} rejected _ := by
    rw [scatter, storeByte, rejected, scatter, Option.getD_none]

end Arena

namespace Memory

/-- Writes bytes one at a time, in ascending order of address. -/
def setBytes (m : Memory L) (v : View) (a : Address) : List UInt8 → Memory L
  | [] => m
  | b :: rest => (m.set v .byte a b.toBitVec).setBytes v (a + 1) rest

theorem set_byte_eq (m : Memory L) (v : View) (a : Address) (b : UInt8) :
    m.set v .byte a b.toBitVec = { m with arena := m.arena.storeByte (m.directory v) a b } := by
  have one : Width.byte.encode b.toBitVec = [b] := congrArg (fun x => [x]) (UInt8.ofNat_toNat)
  show ({ m with arena := m.arena.store (m.directory v) a (Width.byte.encode b.toBitVec) } : Memory L) = _
  rw [one, Arena.store, Arena.storeByte, Arena.scatter, Arena.scatter, Arena.storeByte]
  cases m.arena.writeWithin (m.directory v) a [b] <;> rfl

theorem setBytes_eq (v : View) (bytes : List UInt8) :
    ∀ (m : Memory L) (a : Address),
      m.setBytes v a bytes = { m with arena := m.arena.scatter (m.directory v) a bytes } := by
  induction bytes with
  | nil => exact fun _ _ => rfl
  | cons b rest ih =>
    intro m a
    rw [setBytes, ih, set_byte_eq, Arena.scatter, directory_with_arena]

/-- A write of any width or length leaves the memory that its bytes leave when they are written one at
    a time, in every slot, whatever the addresses lead to. -/
theorem writes_eq_setBytes (m : Memory L)
    (fitting : ∀ h block, m.arena.get? h = some block → block.size ≤ blockSize)
    (solid : ∀ h block, m.arena.get? h = some block → ∀ offset code, block.codeAt offset = some code →
      0 < code.byteLength.toNat) (v : View) (a : Address) :
    (∀ bytes, m.copyIn v a bytes = m.setBytes v a bytes) ∧
    (∀ (w : Width) (value : w.Value), m.set v w a value = m.setBytes v a (w.encode value)) := by
  have regular : m.arena.Regular := fun h block found => ⟨fitting h block found, solid h block found⟩
  have rule : Arena.WriteRule (L := L) (m.directory v) _ := Arena.writeRule_scatter (m.directory v)
  refine ⟨fun bytes => ?_, fun w value => ?_⟩
  · rw [setBytes_eq, copyIn, rule.copyIn a bytes m.arena regular]
  · rw [setBytes_eq, set, rule.store (w.encode_ne_nil value) (fun after taken => ?_) regular]
    obtain ⟨h, block, _, found, fits, _⟩ := Arena.writeWithin_eq_some.mp taken
    exact Nat.le_trans fits (fitting h block found)

section
open Fusion.Toy

def stub (length : UInt32) : CodeTree Stub := .leaf ⟨length, .returns, false⟩

/-- A short block that keeps code at both ends and in the middle, behind the first addresses; behind the
    last addresses, a block that nothing has touched. -/
def seam : Memory Stub where
  arena := ⟨#[
    .cache ⟨Contents.zeros 8, true, ⟨[(0, stub 2), (3, stub 1), (6, stub 2)], by simp [Ascending]⟩, by decide⟩,
    .fresh]⟩
  physical := (Directory.empty.place 0 ⟨0⟩).place 0xFFFFF ⟨1⟩
  linear := .empty

/-- Eight bytes across the end of the address space, in two pieces or one at a time: the code under the
    last four is evicted, and the code behind them is kept. -/
theorem seam_bytewise :
    (∀ h block, seam.arena.get? h = some block → block.size ≤ blockSize) ∧
      (∀ h block, seam.arena.get? h = some block → ∀ offset code, block.codeAt offset = some code →
        0 < code.byteLength.toNat) ∧
      seam.copyIn .physical 0xFFFFFFFC [1, 2, 3, 4, 5, 6, 7, 8] =
        seam.setBytes .physical 0xFFFFFFFC [1, 2, 3, 4, 5, 6, 7, 8] ∧
      (seam.setBytes .physical 0xFFFFFFFC [1, 2, 3, 4, 5, 6, 7, 8]).arena.get? ⟨0⟩ =
        some (.cache ⟨#[5, 6, 7, 8, 0, 0, 0, 0], true, ⟨[(6, stub 2)], List.pairwise_singleton ..⟩, by decide⟩) := by
  have slots : ∀ h block, seam.arena.get? h = some block → block ∈ seam.arena.slots := fun _ _ found =>
    Array.mem_of_getElem? found
  have fitting : ∀ h block, seam.arena.get? h = some block → block.size ≤ blockSize := by
    intro h block found
    have member := slots h block found
    simp only [seam, List.mem_toArray, List.mem_cons, List.not_mem_nil, or_false] at member
    rcases member with rfl | rfl <;> decide
  have solid : ∀ h block, seam.arena.get? h = some block → ∀ offset code, block.codeAt offset = some code →
      0 < code.byteLength.toNat := by
    intro h block found offset code kept
    have member := slots h block found
    simp only [seam, List.mem_toArray, List.mem_cons, List.not_mem_nil, or_false] at member
    have entry := Table.find?_eq_some_iff.mp kept
    rcases member with rfl | rfl
    · simp only [Block.code, List.mem_cons, Prod.mk.injEq, List.not_mem_nil, or_false] at entry
      rcases entry with ⟨_, rfl⟩ | ⟨_, rfl⟩ | ⟨_, rfl⟩ <;> decide
    · cases entry
  have same := (writes_eq_setBytes seam fitting solid .physical 0xFFFFFFFC).1 [1, 2, 3, 4, 5, 6, 7, 8]
  exact ⟨fitting, solid, same, by decide +kernel⟩

end

end Memory

end GuestMemory
