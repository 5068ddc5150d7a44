import GuestMemory.Proofs.Memory.Map
import GuestMemory.Proofs.Memory.Request

/-!
Well-wired memory: the handles that were issued are those of the slots of the arena, and the directories hold
no others, at indices of the address space only. Every change of the memory map keeps to that, as long as it
is given handles that were issued (`WellWired.mapShared`, `WellWired.loadRom`, ...), and what changes single
blocks does not touch it.
-/
namespace GuestMemory

variable {L : Type} [CodeUnit L]

namespace Arena

/-- The handles of all slots, in the order in which they were issued. -/
def handles (arena : Arena L) : List Handle := (List.range arena.size).map Handle.mk

theorem mem_handles {arena : Arena L} {h : Handle} : h ∈ arena.handles ↔ ∃ block, arena.get? h = some block := by
  obtain ⟨index⟩ := h
  simp only [handles, List.mem_map, List.mem_range, Handle.mk.injEq, exists_eq_right, get?, size,
    Array.getElem?_eq_some_iff]
  constructor
  · intro inside
    exact ⟨_, inside, rfl⟩
  · rintro ⟨_, inside, _⟩
    exact inside

theorem nodup_handles (arena : Arena L) : arena.handles.Nodup := by
  refine List.Nodup.map ?_ List.nodup_range
  rintro _ _ ⟨⟩
  rfl

@[simp] theorem length_handles (arena : Arena L) : arena.handles.length = arena.size := by
  rw [handles, List.length_map, List.length_range]

theorem handles_insert (arena : Arena L) (block : Block L) :
    (arena.insert block).2.handles = arena.handles ++ [(arena.insert block).1] := by
  simp only [handles, size, insert, Array.size_push, List.range_succ, List.map_append, List.map_cons, List.map_nil]

theorem handles_of_size {before after : Arena L} (same : after.size = before.size) :
    after.handles = before.handles := by
  rw [handles, same, handles]

theorem size_put (arena : Arena L) (h : Handle) (block : Block L) : (arena.put h block).size = arena.size :=
  Array.size_setIfInBounds

end Arena

namespace Directory

/-- Every entry is at an index of the address space, and holds a handle with the property. -/
def Within (held : Handle → Prop) (d : Directory) : Prop :=
  ∀ index h, d.handleForIndex index = some h → index < blockCount ∧ held h

variable {held : Handle → Prop} {d : Directory}

theorem within_empty : empty.Within held := by
  intro index h found
  cases found

theorem Within.mono {held' : Handle → Prop} (within : d.Within held) (weaker : ∀ h, held h → held' h) :
    d.Within held' := fun index h found => (within index h found).imp_right (weaker h)

theorem Within.place (within : d.Within held) {index : Nat} (inside : index < blockCount) {h : Handle}
    (holds : held h) : (d.place index h).Within held := by
  intro other h' found
  rw [handleForIndex, Directory.place, Table.find?_insert] at found
  split at found
  · rename_i same
    cases found
    exact ⟨same ▸ inside, holds⟩
  · exact within other h' found

theorem Within.unmap (within : d.Within held) (index : Nat) : (d.unmap index).2.Within held := by
  intro other h found
  simp only [handleForIndex, Directory.unmap, Table.erase, Table.find?_filter, Option.filter_eq_some_iff] at found
  exact within other h found.1

theorem Within.redirect (within : d.Within held) (old : Handle) {new : Handle} (holds : held new) :
    (d.redirect old new).Within held := by
  intro index h found
  rw [handleForIndex, Directory.redirect, Table.find?_map, Option.map_eq_some_iff] at found
  obtain ⟨before, found, rfl⟩ := found
  refine (within index before found).imp_right fun there => ?_
  split
  · exact holds
  · exact there

end Directory

namespace Memory

/-- Both directories have entries at indices of the address space only, and these hold handles with the property. -/
def Holds (m : Memory L) (held : Handle → Prop) : Prop := ∀ v, (m.directory v).Within held

/-- Both directories have entries at indices of the address space only. -/
abbrev Addressable (m : Memory L) : Prop := m.Holds fun _ => True

section
variable {m : Memory L} {held : Handle → Prop}

theorem holds_empty : (empty : Memory L).Holds held := by
  intro v
  cases v <;> exact Directory.within_empty

theorem Holds.mono {held' : Handle → Prop} (holds : m.Holds held) (weaker : ∀ h, held h → held' h) : m.Holds held' :=
  fun v => (holds v).mono weaker

/-- What happens to blocks in their slots does not matter. -/
theorem Holds.with_arena (holds : m.Holds held) (arena : Arena L) : Holds { m with arena } held := by
  intro v
  rw [directory_with_arena]
  exact holds v

theorem Holds.setDirectory (holds : m.Holds held) (v : View) {d : Directory} (within : d.Within held) :
    (m.setDirectory v d).Holds held := by
  intro v'
  cases v <;> cases v'
  · exact within
  · exact holds .linear
  · exact holds .physical
  · exact within

theorem Holds.share (holds : m.Holds held) {index : Nat} (inside : index < blockCount) {block : Block L}
    (new : held (m.share index block).1) : (m.share index block).2.Holds held := by
  intro v
  have later : ((m.directory v).place index (m.share index block).1).Within held := (holds v).place inside new
  cases v <;> exact later

theorem Holds.shareImage (holds : m.Holds held) {index : Nat} {image : List UInt8}
    (inside : index + imageBlocks image.length ≤ blockCount) (new : ∀ h ∈ (m.shareImage index image).1, held h) :
    (m.shareImage index image).2.Holds held := by
  have shared := m.shareImage_shared index image
  intro v other h found
  by_cases outside : other < index ∨ index + imageBlocks image.length ≤ other
  · rw [shared.elsewhere v other outside] at found
    exact holds v other h found
  · obtain ⟨k, rfl⟩ : ∃ k, other = index + k := ⟨other - index, by omega⟩
    have short : k < imageBlocks image.length := by omega
    rw [shared.entry v k short] at found
    cases found
    exact ⟨by omega, new _ (List.mem_of_getElem? (shared.getElem?_handles short))⟩

end

/-- The handles that were issued are those of the arena, and the directories hold no others. -/
structure WellWired (m : Memory L) (issued : List Handle) : Prop where
  handles : m.arena.handles = issued
  within : ∀ v, (m.directory v).Within (· ∈ issued)

theorem wellWired_empty : (empty : Memory L).WellWired [] := ⟨rfl, holds_empty⟩

namespace WellWired

variable {m : Memory L} {issued : List Handle}

theorem exists_block (wired : m.WellWired issued) {h : Handle} (known : h ∈ issued) :
    ∃ block, m.arena.get? h = some block := Arena.mem_handles.mp (wired.handles ▸ known)

/-- An entry of a directory leads to a block. -/
theorem exists_of_handleAt (wired : m.WellWired issued) {v : View} {a : Address} {h : Handle}
    (mapped : (m.directory v).handleAt a = some h) : ∃ block, m.arena.get? h = some block :=
  wired.exists_block (wired.within v _ h mapped).2

/-- What happens to blocks in their slots does not matter. -/
theorem with_arena (wired : m.WellWired issued) {arena : Arena L} (same : arena.size = m.arena.size) :
    WellWired { m with arena } issued where
  handles := (Arena.handles_of_size same).trans wired.handles
  within := Holds.with_arena wired.within arena

theorem setDirectory (wired : m.WellWired issued) (v : View) {d : Directory} (within : d.Within (· ∈ issued)) :
    (m.setDirectory v d).WellWired issued := by
  refine ⟨?_, Holds.setDirectory wired.within v within⟩
  cases v <;> exact wired.handles

theorem install (wired : m.WellWired issued) (block : Block L) :
    (m.install block).2.WellWired (issued ++ [(m.install block).1]) where
  handles := (m.arena.handles_insert block).trans (congrArg (· ++ _) wired.handles)
  within v := by
    have later : (m.directory v).Within (· ∈ issued ++ [(m.install block).1]) :=
      (wired.within v).mono fun _ => List.mem_append_left _
    cases v <;> exact later

theorem share (wired : m.WellWired issued) {index : Nat} (inside : index < blockCount) (block : Block L) :
    (m.share index block).2.WellWired (issued ++ [(m.share index block).1]) where
  handles := (m.arena.handles_insert block).trans (congrArg (· ++ _) wired.handles)
  within := by
    have later : m.Holds (· ∈ issued ++ [(m.share index block).1]) :=
      Holds.mono wired.within fun _ => List.mem_append_left _
    exact later.share inside (List.mem_append_right _ (List.mem_singleton_self _))

theorem mapShared (wired : m.WellWired issued) {index : Nat} {block : Block L} {h : Handle} {after : Memory L}
    (shared : m.mapShared index block = .ok (h, after)) : after.WellWired (issued ++ [h]) := by
  obtain ⟨inside, done⟩ := mapShared_eq_ok.mp shared
  have later := wired.share inside block
  rwa [done] at later

theorem shareImage (wired : m.WellWired issued) {index : Nat} {image : List UInt8}
    (inside : index + imageBlocks image.length ≤ blockCount) :
    (m.shareImage index image).2.WellWired (issued ++ (m.shareImage index image).1) where
  handles := by
    have shared := m.shareImage_shared index image
    rw [Arena.handles, shared.size, List.range_add, List.map_append, shared.handles, List.range'_eq_map_range,
      ← wired.handles]
    rfl
  within := by
    have later : m.Holds (· ∈ issued ++ (m.shareImage index image).1) :=
      Holds.mono wired.within fun _ => List.mem_append_left _
    exact later.shareImage inside fun _ => List.mem_append_right _

theorem loadRom (wired : m.WellWired issued) {base : Address} {image : List UInt8} {hs : List Handle}
    {after : Memory L} (loaded : m.loadRom base image = .ok (hs, after)) : after.WellWired (issued ++ hs) := by
  obtain ⟨_, fits, done⟩ := loadRom_eq_ok.mp loaded
  have later := wired.shareImage fits
  rwa [done] at later

theorem map (wired : m.WellWired issued) {v : View} {index : Nat} {h : Handle} (known : h ∈ issued)
    {before : Option Handle} {after : Memory L} (mapped : m.map v index h = .ok (before, after)) :
    after.WellWired issued := by
  obtain ⟨inside, _, rfl⟩ := map_eq_ok.mp mapped
  exact wired.setDirectory v ((wired.within v).place inside known)

theorem unmap (wired : m.WellWired issued) (v : View) (index : Nat) : (m.unmap v index).2.WellWired issued :=
  wired.setDirectory v ((wired.within v).unmap index)

theorem redirect (wired : m.WellWired issued) (v : View) (old : Handle) {new : Handle} (known : new ∈ issued) :
    (m.redirect v old new).2.WellWired issued :=
  wired.setDirectory v ((wired.within v).redirect old known)

theorem replaceBlocks (wired : m.WellWired issued) (old : Handle) {new : Handle} (known : new ∈ issued) :
    ∃ count after, m.replaceBlocks old new = .ok (count, after) ∧ after.WellWired issued := by
  refine ⟨_, _, replaceBlocks_eq_ok.mpr ⟨wired.exists_block known, rfl, rfl⟩, wired.handles, fun v => ?_⟩
  cases v with
  | physical => exact (wired.within .physical).redirect old known
  | linear => exact (wired.within .linear).redirect old known

end WellWired

end Memory

end GuestMemory
