import GuestMemory.Proofs.Block.Alike
import GuestMemory.Proofs.Memory.Reads
import GuestMemory.Proofs.Memory.Request

/-!
Memories that cannot be told apart. If the blocks in every slot are alike, accesses through a directory
return the same bytes, requests are answered with the same code, and the arenas are alike afterwards; with
the same directories, the same holds of all that can be done to a memory.
-/
namespace GuestMemory

open Fusion

variable {S L : Type} [CodeUnit L]

namespace Arena

variable {x y : Arena L}

/-- The same slots, with blocks that are alike. -/
abbrev Alike (x y : Arena L) : Prop := Related Block.Alike x y

/-- The same answer, and arenas that are alike after it. -/
structure Agree {α : Type} (left right : α × Arena L) : Prop where
  answer : left.1 = right.1
  arena : left.2.Alike right.2

theorem rel_getD {α : Type} {R : α → α → Prop} {left right : Option α} (rel : Option.Rel R left right)
    {first second : α} (otherwise : R first second) : R (left.getD first) (right.getD second) := by
  cases rel with
  | none => exact otherwise
  | some holds => exact holds

theorem Alike.clearMapped (alike : x.Alike y) (d : Directory) : (x.clearMapped d).Alike (y.clearMapped d) := by
  rw [Arena.clearMapped, Arena.clearMapped]
  induction d.handles generalizing x y with
  | nil => exact alike
  | cons h rest ih => exact ih (alike.modify Block.Alike.clear h)

/-! ### Reads -/

variable {d : Directory} {a : Address}

theorem Alike.readWithin (alike : x.Alike y) (count : Nat) :
    Option.Rel Agree (x.readWithin d a count) (y.readWithin d a count) := by
  rw [Arena.readWithin, Arena.readWithin]
  cases d.handleAt a with
  | none => exact .none
  | some h =>
    cases found : x.get? h with
    | none =>
      simp only [found, alike.none found]
      exact .none
    | some block =>
      obtain ⟨block', found', same⟩ := alike.some found
      simp only [found, found', Block.read_eq, same.size, same.contents]
      split_ifs
      · exact .some ⟨rfl, alike.put same.touch h⟩
      · exact .none

theorem Alike.loadByte (alike : x.Alike y) : Agree (x.loadByte d a) (y.loadByte d a) := by
  have within := alike.readWithin 1 (d := d) (a := a)
  rw [Arena.loadByte, Arena.loadByte]
  generalize x.readWithin d a 1 = left at within
  generalize y.readWithin d a 1 = right at within
  cases within with
  | none => exact ⟨rfl, alike⟩
  | some agree => exact ⟨congrArg (List.headD · openBus) agree.answer, agree.arena⟩

theorem Alike.gather (count : Nat) : ∀ {x y : Arena L} {a : Address}, x.Alike y →
    Agree (x.gather d a count) (y.gather d a count) := by
  induction count with
  | zero => exact fun alike => ⟨rfl, alike⟩
  | succ count ih =>
    intro x y a alike
    have first := alike.loadByte (d := d) (a := a)
    have rest := ih (a := a + 1) first.arena
    rw [gather_succ, gather_succ, first.answer, rest.answer]
    exact ⟨rfl, rest.arena⟩

theorem Alike.load (alike : x.Alike y) (count : Nat) : Agree (x.load d a count) (y.load d a count) :=
  rel_getD (alike.readWithin count) (alike.gather count)

theorem Alike.copyOut (alike : x.Alike y) (count : Nat) : Agree (x.copyOut d a count) (y.copyOut d a count) := by
  rw [copyOut_eq_gather, copyOut_eq_gather]
  exact alike.gather count

/-! ### Writes -/

theorem Alike.writeWithin (alike : x.Alike y) (bytes : List UInt8) :
    Option.Rel Alike (x.writeWithin d a bytes) (y.writeWithin d a bytes) := by
  rw [Arena.writeWithin, Arena.writeWithin]
  cases d.handleAt a with
  | none => exact .none
  | some h =>
    cases found : x.get? h with
    | none =>
      simp only [found, alike.none found]
      exact .none
    | some block =>
      obtain ⟨block', found', same⟩ := alike.some found
      simp only [found, found', Block.write_eq, same.size]
      split_ifs
      · exact .some (alike.put (same.patch _ _) h)
      · exact .none

theorem Alike.storeByte (alike : x.Alike y) (b : UInt8) : (x.storeByte d a b).Alike (y.storeByte d a b) :=
  rel_getD (alike.writeWithin [b]) alike

theorem Alike.scatter (bytes : List UInt8) : ∀ {x y : Arena L} {a : Address}, x.Alike y →
    (x.scatter d a bytes).Alike (y.scatter d a bytes) := by
  induction bytes with
  | nil => exact id
  | cons b rest ih => exact fun alike => ih (alike.storeByte b)

theorem Alike.store (alike : x.Alike y) (bytes : List UInt8) : (x.store d a bytes).Alike (y.store d a bytes) :=
  rel_getD (alike.writeWithin bytes) (alike.scatter bytes)

theorem Alike.copyIn (d : Directory) (a : Address) (bytes : List UInt8) (x : Arena L) :
    ∀ {y : Arena L}, x.Alike y → (x.copyIn d a bytes).Alike (y.copyIn d a bytes) := by
  fun_induction Arena.copyIn d a bytes x with
  | case1 =>
    intro y alike
    rwa [Arena.copyIn]
  | case2 a x b rest bytes =>
    rename_i ih
    intro y alike
    rw [Arena.copyIn]
    exact ih (alike.store _)

/-! ### Requests for code -/

theorem Alike.nextContents (alike : x.Alike y) (d : Directory) (a : Address) :
    x.nextContents d a = y.nextContents d a := by
  rw [Arena.nextContents, Arena.nextContents]
  cases d.handleForIndex (a.blockIndex + 1) with
  | none => rfl
  | some h =>
    cases found : x.get? h with
    | none => simp only [Option.bind_some, found, alike.none found]
    | some block =>
      obtain ⟨block', found', same⟩ := alike.some found
      simp only [Option.bind_some, found, found', same.contents]

theorem Alike.buildAt (alike : x.Alike y) (config : Config) (t : Toolchain S L) (contents : Contents)
    (progress : Progress S) :
    x.buildAt config t d a contents progress = y.buildAt config t d a contents progress := by
  simp only [Arena.buildAt, decodeWindow, alike.nextContents]

/-- Where both have the same code cache, it keeps the same code. -/
theorem Alike.keepCode (alike : x.Alike y) (h : Handle) (cache : CodeCache L) (offset : Nat) (code : CodeTree L) :
    ((x.put h (.cache cache)).keepCode h offset code).Alike ((y.put h (.cache cache)).keepCode h offset code) := by
  have converted : (x.put h (.cache cache)).Alike (y.put h (.cache cache)) := alike.put (.refl _) h
  cases found : x.get? h with
  | none => simpa only [Arena.keepCode, get?_put, if_true, found, alike.none found, Option.map_none] using converted
  | some block =>
    obtain ⟨block', found', _⟩ := alike.some found
    simp only [Arena.keepCode, get?_put, if_true, found, found', Option.map_some]
    cases cache.insert offset code with
    | none => exact converted
    | some kept => exact converted.put (.refl _) h

/-- Requests are answered alike, and the tools are left in the same state. -/
theorem Alike.requestCode (alike : x.Alike y) (config : Config) (t : Toolchain S L) (progress : Progress S) :
    (x.requestCode config t d a progress).1 = (y.requestCode config t d a progress).1 ∧
      (x.requestCode config t d a progress).2.1.Alike (y.requestCode config t d a progress).2.1 ∧
      (x.requestCode config t d a progress).2.2 = (y.requestCode config t d a progress).2.2 := by
  rw [Arena.requestCode, Arena.requestCode]
  cases d.handleAt a with
  | none => exact ⟨rfl, alike, rfl⟩
  | some h =>
    cases found : x.get? h with
    | none =>
      simp only [toCodeCache, found, alike.none found, true_and, and_true]
      exact alike
    | some block =>
      obtain ⟨block', found', same⟩ := alike.some found
      have converted : (x.put h (.cache block'.toCodeCache)).Alike (y.put h (.cache block'.toCodeCache)) :=
        alike.put (.refl _) h
      simp only [toCodeCache, found, found', same.toCodeCache_eq]
      cases block'.toCodeCache.codeAt a.blockOffset with
      | some code => exact ⟨rfl, converted, rfl⟩
      | none =>
        simp only [converted.buildAt]
        generalize (y.put h _).buildAt config t d a _ progress = built
        obtain ⟨result, later⟩ := built
        cases result with
        | error e => exact ⟨rfl, converted, rfl⟩
        | ok code => exact ⟨rfl, alike.keepCode h _ _ code, rfl⟩

end Arena

/-! ### Memories -/

namespace Memory

/-- The same memory map, over blocks that are alike. -/
structure Alike (m m' : Memory L) : Prop where
  arena : m.arena.Alike m'.arena
  physical : m.physical = m'.physical
  linear : m.linear = m'.linear

variable {m m' : Memory L}

theorem Alike.directory (alike : m.Alike m') (v : View) : m.directory v = m'.directory v := by
  cases v with
  | physical => exact alike.physical
  | linear => exact alike.linear

theorem Alike.setDirectory (alike : m.Alike m') (v : View) (d : Directory) :
    (m.setDirectory v d).Alike (m'.setDirectory v d) := by
  cases v with
  | physical => exact ⟨alike.arena, rfl, alike.linear⟩
  | linear => exact ⟨alike.arena, alike.physical, rfl⟩

/-- The same answer, and memories that are alike after it. -/
structure Agree {α : Type} (left right : α × Memory L) : Prop where
  answer : left.1 = right.1
  memory : left.2.Alike right.2

theorem Alike.install (alike : m.Alike m') (block : Block L) : Agree (m.install block) (m'.install block) := by
  obtain ⟨same, arena⟩ := alike.arena.insert (.refl block)
  exact ⟨same, arena, alike.physical, alike.linear⟩

theorem Alike.share (alike : m.Alike m') (index : Nat) (block : Block L) :
    Agree (m.share index block) (m'.share index block) := by
  obtain ⟨same, arena⟩ := alike.arena.insert (.refl block)
  refine ⟨same, arena, ?_, ?_⟩
  · show m.physical.place index (m.arena.insert block).1 = m'.physical.place index (m'.arena.insert block).1
    rw [alike.physical, same]
  · show m.linear.place index (m.arena.insert block).1 = m'.linear.place index (m'.arena.insert block).1
    rw [alike.linear, same]

theorem Alike.shareImage (m : Memory L) (index : Nat) (image : List UInt8) :
    ∀ {m' : Memory L}, m.Alike m' → Agree (m.shareImage index image) (m'.shareImage index image) := by
  fun_induction Memory.shareImage m index image with
  | case1 =>
    intro m' alike
    rw [Memory.shareImage]
    exact ⟨rfl, alike⟩
  | case2 m index b rest image h between shared later after copied =>
    rename_i ih
    intro m' alike
    have here := alike.share index (.rom (.padded (image.take blockSize) openBus))
    rw [shared] at here
    have there := ih here.memory
    rw [copied] at there
    rw [Memory.shareImage]
    refine ⟨?_, there.memory⟩
    have first : h = _ := here.answer
    have others : later = _ := there.answer
    rw [first, others]

/-- Both are refused, or both are accepted with the same answer. -/
inductive SameResult {α : Type} : Except MemoryError (α × Memory L) → Except MemoryError (α × Memory L) → Prop
  | error (e : MemoryError) : SameResult (.error e) (.error e)
  | ok {left right : α × Memory L} (agree : Agree left right) : SameResult (.ok left) (.ok right)

theorem Alike.mapShared (alike : m.Alike m') (index : Nat) (block : Block L) :
    SameResult (m.mapShared index block) (m'.mapShared index block) := by
  rw [Memory.mapShared, Memory.mapShared]
  split_ifs
  · exact .ok (alike.share index block)
  · exact .error _

theorem Alike.loadRom (alike : m.Alike m') (base : Address) (image : List UInt8) :
    SameResult (m.loadRom base image) (m'.loadRom base image) := by
  rw [Memory.loadRom, Memory.loadRom]
  split_ifs
  · exact .error _
  · exact .error _
  · exact .ok (alike.shareImage m base.blockIndex image)

theorem Alike.map (alike : m.Alike m') (v : View) (index : Nat) (h : Handle) :
    SameResult (m.map v index h) (m'.map v index h) := by
  rw [Memory.map, Memory.map, alike.directory]
  cases (m'.directory v).map index h with
  | error e => exact .error e
  | ok mapped => exact .ok ⟨rfl, alike.setDirectory v mapped.2⟩

theorem Alike.unmap (alike : m.Alike m') (v : View) (index : Nat) : Agree (m.unmap v index) (m'.unmap v index) := by
  rw [Memory.unmap, Memory.unmap, alike.directory]
  exact ⟨rfl, alike.setDirectory v _⟩

theorem Alike.redirect (alike : m.Alike m') (v : View) (old new : Handle) :
    Agree (m.redirect v old new) (m'.redirect v old new) := by
  simp only [Memory.redirect, alike.directory]
  exact ⟨rfl, alike.setDirectory v _⟩

theorem Alike.replaceBlocks (alike : m.Alike m') (old new : Handle) :
    SameResult (m.replaceBlocks old new) (m'.replaceBlocks old new) := by
  rw [Memory.replaceBlocks, Memory.replaceBlocks, alike.physical, alike.linear]
  cases found : m.arena.get? new with
  | none =>
    rw [alike.arena.none found]
    exact .error _
  | some block =>
    obtain ⟨block', found', _⟩ := alike.arena.some found
    rw [found']
    exact .ok ⟨rfl, alike.arena, rfl, rfl⟩

theorem Alike.get (alike : m.Alike m') (v : View) (w : Width) (a : Address) : Agree (m.get v w a) (m'.get v w a) := by
  obtain ⟨same, arena⟩ := alike.arena.load w.size (d := m'.directory v) (a := a)
  rw [Memory.get, Memory.get, alike.directory]
  exact ⟨congrArg w.decode same, arena, alike.physical, alike.linear⟩

theorem Alike.copyOut (alike : m.Alike m') (v : View) (a : Address) (count : Nat) :
    Agree (m.copyOut v a count) (m'.copyOut v a count) := by
  obtain ⟨same, arena⟩ := alike.arena.copyOut count (d := m'.directory v) (a := a)
  rw [Memory.copyOut, Memory.copyOut, alike.directory]
  exact ⟨same, arena, alike.physical, alike.linear⟩

theorem Alike.clear (alike : m.Alike m') (v : View) : (m.clear v).Alike (m'.clear v) := by
  rw [Memory.clear, Memory.clear, alike.directory]
  exact ⟨alike.arena.clearMapped _, alike.physical, alike.linear⟩

theorem Alike.set (alike : m.Alike m') (v : View) (w : Width) (a : Address) (value : w.Value) :
    (m.set v w a value).Alike (m'.set v w a value) := by
  rw [Memory.set, Memory.set, alike.directory]
  exact ⟨alike.arena.store _, alike.physical, alike.linear⟩

theorem Alike.copyIn (alike : m.Alike m') (v : View) (a : Address) (bytes : List UInt8) :
    (m.copyIn v a bytes).Alike (m'.copyIn v a bytes) := by
  rw [Memory.copyIn, Memory.copyIn, alike.directory]
  exact ⟨Arena.Alike.copyIn _ a bytes _ alike.arena, alike.physical, alike.linear⟩

end Memory

end GuestMemory
