import GuestMemory.Memory.Transfer
import GuestMemory.Proofs.Block.Access

/-!
What memory accesses keep. An access reaches an arena through reads and writes of single blocks only,
so whatever relates every block to what one read or one write leaves of it relates every slot before
an access of any length to the same slot after it. A clear of many blocks is known slot by slot as well
(`get?_clearAll`).
-/
namespace GuestMemory.Arena

variable {L : Type} [CodeUnit L]

@[simp] theorem get?_put (arena : Arena L) (h : Handle) (block : Block L) (other : Handle) :
    (arena.put h block).get? other = if other = h then (arena.get? h).map fun _ => block else arena.get? other := by
  obtain ⟨index⟩ := h
  obtain ⟨place⟩ := other
  simp only [get?, put, Array.getElem?_setIfInBounds, Handle.mk.injEq]
  by_cases same : place = index
  · subst same
    by_cases inside : place < arena.slots.size <;> simp [inside]
  · simp [same, Ne.symm same]

/-- Putting back what a slot holds changes nothing. -/
theorem put_of_get? {arena : Arena L} {h : Handle} {block : Block L} (found : arena.get? h = some block) :
    arena.put h block = arena := by
  obtain ⟨inside, same⟩ := Array.getElem?_eq_some_iff.mp found
  rw [put, Array.setIfInBounds, dif_pos inside, ← same, Array.set_getElem_self]

/-- Of two blocks put into a slot, the second stays. -/
@[simp] theorem put_put (arena : Arena L) (h : Handle) (first second : Block L) :
    (arena.put h first).put h second = arena.put h second := by
  simp only [put, Array.setIfInBounds_setIfInBounds]

@[simp] theorem get?_insert (arena : Arena L) (block : Block L) (h : Handle) :
    (arena.insert block).2.get? h = if h = (arena.insert block).1 then some block else arena.get? h := by
  obtain ⟨index⟩ := h
  simp only [get?, insert, Array.getElem?_push, Handle.mk.injEq]

theorem get?_insert_of_some {arena : Arena L} {h : Handle} {block : Block L} (found : arena.get? h = some block)
    (other : Block L) : (arena.insert other).2.get? h = some block := by
  have new : h ≠ (arena.insert other).1 := by
    rintro rfl
    rw [get?, insert, Array.getElem?_eq_none (Nat.le_refl _)] at found
    cases found
  rw [get?_insert, if_neg new, found]

@[simp] theorem get?_modify (arena : Arena L) (h : Handle) (f : Block L → Block L) (other : Handle) :
    (arena.modify h f).get? other = if other = h then (arena.get? h).map f else arena.get? other := by
  obtain ⟨index⟩ := h
  obtain ⟨place⟩ := other
  simp only [get?, modify, Array.getElem?_modify, Handle.mk.injEq]
  by_cases same : place = index
  · subst same
    simp
  · simp [same, Ne.symm same]

/-- Clears the blocks behind the handles, one after the other. -/
def clearAll (hs : List Handle) (arena : Arena L) : Arena L :=
  hs.foldl (fun arena h => arena.modify h Block.clear) arena

theorem clearMapped_eq (d : Directory) (arena : Arena L) : arena.clearMapped d = arena.clearAll d.handles := rfl

theorem get?_clearAll (hs : List Handle) (arena : Arena L) (h : Handle) :
    (arena.clearAll hs).get? h = if h ∈ hs then (arena.get? h).map Block.clear else arena.get? h := by
  induction hs generalizing arena with
  | nil => simp [clearAll]
  | cons first rest ih =>
    have step : arena.clearAll (first :: rest) = (arena.modify first Block.clear).clearAll rest := rfl
    rw [step, ih, get?_modify]
    by_cases here : h = first
    · subst here
      by_cases again : h ∈ rest
      · simp [again, Function.comp_def]
      · simp [again]
    · by_cases later : h ∈ rest
      · simp [here, later]
      · simp [here, later]

/-- The same slots, each before and after in the given relation. -/
def Related (R : Block L → Block L → Prop) (before after : Arena L) : Prop :=
  ∀ h, Option.Rel R (before.get? h) (after.get? h)

variable {R : Block L → Block L → Prop}

theorem Related.refl (refl : ∀ block, R block block) (arena : Arena L) : Related R arena arena := by
  intro h
  cases arena.get? h with
  | none => exact .none
  | some block => exact .some (refl block)

theorem Related.trans (trans : ∀ first second third, R first second → R second third → R first third)
    {first second third : Arena L} (here : Related R first second) (there : Related R second third) :
    Related R first third := by
  intro h
  have left := here h
  have right := there h
  generalize first.get? h = x at left
  generalize second.get? h = y at left right
  generalize third.get? h = z at right
  cases left with
  | none =>
    cases right
    exact .none
  | some left =>
    cases right with
    | some right => exact .some (trans _ _ _ left right)

theorem Related.some {before after : Arena L} (related : Related R before after) {h : Handle} {block : Block L}
    (found : before.get? h = some block) : ∃ block', after.get? h = some block' ∧ R block block' := by
  have here := related h
  rw [found] at here
  generalize after.get? h = x at here
  cases here with
  | some holds => exact ⟨_, rfl, holds⟩

theorem Related.none {before after : Arena L} (related : Related R before after) {h : Handle}
    (missing : before.get? h = none) : after.get? h = none := by
  have here := related h
  rw [missing] at here
  generalize after.get? h = x at here
  cases here
  rfl

theorem Related.mono {R' : Block L → Block L → Prop} (weaker : ∀ x y, R x y → R' x y) {before after : Arena L}
    (related : Related R before after) : Related R' before after := by
  intro h
  have here := related h
  generalize before.get? h = x at here
  generalize after.get? h = y at here
  cases here with
  | none => exact .none
  | some holds => exact .some (weaker _ _ holds)

/-- What the relation carries from a block to the next holds of every block after, if it did before. -/
theorem Related.forall {P : Block L → Prop} {before after : Arena L}
    (related : Related (fun x y => P x → P y) before after)
    (holds : ∀ h block, before.get? h = .some block → P block) {h : Handle} {block : Block L}
    (found : after.get? h = .some block) : P block := by
  cases earlier : before.get? h with
  | none =>
    rw [related.none earlier] at found
    cases found
  | some first =>
    obtain ⟨second, found', kept⟩ := related.some earlier
    obtain rfl := Option.some.inj (found'.symm.trans found)
    exact kept (holds h first earlier)

theorem related_put (refl : ∀ block, R block block) {arena : Arena L} {h : Handle} {block block' : Block L}
    (found : arena.get? h = some block) (holds : R block block') : Related R arena (arena.put h block') := by
  intro other
  rw [get?_put]
  by_cases same : other = h
  · subst same
    rw [if_pos rfl, found]
    exact .some holds
  · rw [if_neg same]
    exact Related.refl refl arena other

/-! ### The same done to both -/

section
variable {x y : Arena L}

theorem Related.change (related : Related R x y) {f g : Block L → Block L}
    (keeps : ∀ {block block'}, R block block' → R (f block) (g block')) (h other : Handle) :
    Option.Rel R (if other = h then (x.get? h).map f else x.get? other)
      (if other = h then (y.get? h).map g else y.get? other) := by
  split
  · cases found : x.get? h with
    | none =>
      rw [related.none found]
      exact .none
    | some block =>
      obtain ⟨block', found', holds⟩ := related.some found
      rw [found']
      exact .some (keeps holds)
  · exact related other

theorem Related.put (related : Related R x y) {block block' : Block L} (holds : R block block') (h : Handle) :
    Related R (x.put h block) (y.put h block') := by
  intro other
  rw [get?_put, get?_put]
  exact related.change (fun _ => holds) h other

theorem Related.modify (related : Related R x y) {f : Block L → Block L}
    (keeps : ∀ {block block'}, R block block' → R (f block) (f block')) (h : Handle) :
    Related R (x.modify h f) (y.modify h f) := by
  intro other
  rw [get?_modify, get?_modify]
  exact related.change keeps h other

theorem Related.size_eq (related : Related R x y) : x.size = y.size := by
  have missing : ∀ h, x.get? h = Option.none ↔ y.get? h = Option.none := by
    intro h
    refine ⟨related.none, fun absent => ?_⟩
    cases found : x.get? h with
    | none => rfl
    | some block =>
      obtain ⟨block', found', _⟩ := related.some found
      rw [absent] at found'
      cases found'
  simp only [get?, Array.getElem?_eq_none_iff] at missing
  exact Nat.le_antisymm ((missing ⟨y.size⟩).mpr (Nat.le_refl _)) ((missing ⟨x.size⟩).mp (Nat.le_refl _))

theorem Related.insert (related : Related R x y) {block block' : Block L} (holds : R block block') :
    (x.insert block).1 = (y.insert block').1 ∧ Related R (x.insert block).2 (y.insert block').2 := by
  have same : (x.insert block).1 = (y.insert block').1 := congrArg Handle.mk related.size_eq
  refine ⟨same, fun h => ?_⟩
  rw [get?_insert, get?_insert, same]
  split
  · exact .some holds
  · exact related h

end

/-! ### Reads -/

theorem readWithin_eq_some {arena after : Arena L} {d : Directory} {a : Address} {count : Nat}
    {bytes : List UInt8} :
    arena.readWithin d a count = some (bytes, after) ↔
      ∃ h block, d.handleAt a = some h ∧ arena.get? h = some block ∧ a.blockOffset + count ≤ block.size ∧
        bytes = block.contents.slice a.blockOffset count ∧ after = arena.put h block.touch := by
  rw [readWithin]
  cases d.handleAt a with
  | none => simp
  | some h =>
    cases found : arena.get? h with
    | none => simp [found]
    | some block =>
      by_cases fits : a.blockOffset + count ≤ block.size
      · simp [Block.read_eq, fits, found, eq_comm]
      · simp [Block.read_eq, fits, found]

/-- Only a block that is too short rejects a read. -/
theorem readWithin_eq_none {arena : Arena L} {d : Directory} {a : Address} {count : Nat}
    (rejected : arena.readWithin d a count = none) {h : Handle} {block : Block L} (mapped : d.handleAt a = some h)
    (found : arena.get? h = some block) : block.size < a.blockOffset + count := by
  refine Nat.lt_of_not_le fun fits => ?_
  have answered : arena.readWithin d a count = some (_, _) :=
    readWithin_eq_some.mpr ⟨h, block, mapped, found, fits, rfl, rfl⟩
  rw [rejected] at answered
  cases answered

/-- A relation that holds between a block and what reads leave of it. -/
structure KeptByReads (R : Block L → Block L → Prop) : Prop where
  refl : ∀ block, R block block
  trans : ∀ first second third, R first second → R second third → R first third
  touch : ∀ block, R block block.touch

namespace KeptByReads

variable (kept : KeptByReads R)
include kept

theorem readWithin {arena after : Arena L} {d : Directory} {a : Address} {count : Nat} {bytes : List UInt8}
    (accepted : arena.readWithin d a count = some (bytes, after)) : Related R arena after := by
  obtain ⟨h, block, _, found, _, _, rfl⟩ := readWithin_eq_some.mp accepted
  exact related_put kept.refl found (kept.touch block)

theorem loadByte (arena : Arena L) (d : Directory) (a : Address) : Related R arena (arena.loadByte d a).2 := by
  rw [Arena.loadByte]
  split
  · rename_i accepted
    exact kept.readWithin accepted
  · exact .refl kept.refl arena

theorem gather (d : Directory) (count : Nat) :
    ∀ (arena : Arena L) (a : Address), Related R arena (arena.gather d a count).2 := by
  induction count with
  | zero => exact fun arena _ => .refl kept.refl arena
  | succ count ih => exact fun arena a => (kept.loadByte arena d a).trans kept.trans (ih _ (a + 1))

theorem load (arena : Arena L) (d : Directory) (a : Address) (count : Nat) :
    Related R arena (arena.load d a count).2 := by
  rw [Arena.load]
  cases accepted : arena.readWithin d a count with
  | none => exact kept.gather d count arena a
  | some answer => exact kept.readWithin accepted

theorem copyOut (d : Directory) (a : Address) (count : Nat) (arena : Arena L) :
    Related R arena (arena.copyOut d a count).2 := by
  fun_induction Arena.copyOut d a count arena with
  | case1 => exact .refl kept.refl _
  | case2 a count arena more bytes between loaded rest after copied ih =>
    have first := kept.load arena d a (min a.bytesToBlockEnd count)
    rw [loaded] at first
    rw [copied] at ih
    exact first.trans kept.trans ih

end KeptByReads

/-! ### Writes -/

theorem writeWithin_eq_some {arena after : Arena L} {d : Directory} {a : Address} {bytes : List UInt8} :
    arena.writeWithin d a bytes = some after ↔
      ∃ h block, d.handleAt a = some h ∧ arena.get? h = some block ∧
        a.blockOffset + bytes.length ≤ block.size ∧ after = arena.put h (block.patch a.blockOffset bytes) := by
  rw [writeWithin]
  cases d.handleAt a with
  | none => simp
  | some h =>
    cases found : arena.get? h with
    | none => simp [found]
    | some block =>
      by_cases fits : a.blockOffset + bytes.length ≤ block.size
      · simp [Block.write_eq, fits, found, eq_comm]
      · simp [Block.write_eq, fits, found]

theorem writeWithin_eq_none {arena : Arena L} {d : Directory} {a : Address} {bytes : List UInt8}
    (rejected : arena.writeWithin d a bytes = none) {h : Handle} {block : Block L} (mapped : d.handleAt a = some h)
    (found : arena.get? h = some block) : block.size < a.blockOffset + bytes.length := by
  refine Nat.lt_of_not_le fun fits => ?_
  have answered : arena.writeWithin d a bytes = some _ :=
    writeWithin_eq_some.mpr ⟨h, block, mapped, found, fits, rfl⟩
  rw [rejected] at answered
  cases answered

/-- A relation that holds between a block and what reads and writes leave of it. -/
structure KeptByAccesses (R : Block L → Block L → Prop) : Prop extends KeptByReads R where
  patch : ∀ block offset bytes, offset + bytes.length ≤ block.size → R block (block.patch offset bytes)

namespace KeptByAccesses

variable (kept : KeptByAccesses R)
include kept

theorem writeWithin {arena after : Arena L} {d : Directory} {a : Address} {bytes : List UInt8}
    (accepted : arena.writeWithin d a bytes = some after) : Related R arena after := by
  obtain ⟨h, block, _, found, fits, rfl⟩ := writeWithin_eq_some.mp accepted
  exact related_put kept.refl found (kept.patch block _ _ fits)

theorem storeByte (arena : Arena L) (d : Directory) (a : Address) (b : UInt8) :
    Related R arena (arena.storeByte d a b) := by
  rw [Arena.storeByte]
  cases accepted : arena.writeWithin d a [b] with
  | none => exact .refl kept.refl arena
  | some after => exact kept.writeWithin accepted

theorem scatter (d : Directory) (bytes : List UInt8) :
    ∀ (arena : Arena L) (a : Address), Related R arena (arena.scatter d a bytes) := by
  induction bytes with
  | nil => exact fun arena _ => .refl kept.refl arena
  | cons b rest ih => exact fun arena a => (kept.storeByte arena d a b).trans kept.trans (ih _ (a + 1))

theorem store (arena : Arena L) (d : Directory) (a : Address) (bytes : List UInt8) :
    Related R arena (arena.store d a bytes) := by
  rw [Arena.store]
  cases accepted : arena.writeWithin d a bytes with
  | none => exact kept.scatter d bytes arena a
  | some after => exact kept.writeWithin accepted

theorem copyIn (d : Directory) (a : Address) (bytes : List UInt8) (arena : Arena L) :
    Related R arena (arena.copyIn d a bytes) := by
  fun_induction Arena.copyIn d a bytes arena with
  | case1 => exact .refl kept.refl _
  | case2 a arena b rest bytes ih =>
    have first := kept.store arena d a (bytes.take a.bytesToBlockEnd)
    exact first.trans kept.trans ih

theorem clearMapped (clear : ∀ block, R block block.clear) (d : Directory) (arena : Arena L) :
    Related R arena (arena.clearMapped d) := by
  intro h
  rw [clearMapped_eq, get?_clearAll]
  by_cases listed : h ∈ d.handles
  · rw [if_pos listed]
    cases arena.get? h with
    | none => exact .none
    | some block => exact .some (clear block)
  · rw [if_neg listed]
    exact Related.refl kept.refl arena h

end KeptByAccesses

/-- That there is a block in the slot is kept by all accesses. -/
theorem keptByAccesses_slot : KeptByAccesses (L := L) fun _ _ => True where
  refl _ := trivial
  trans _ _ _ _ _ := trivial
  touch _ := trivial
  patch _ _ _ _ := trivial

end GuestMemory.Arena
