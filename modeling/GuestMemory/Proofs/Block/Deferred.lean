import GuestMemory.Proofs.Block.Alike
import GuestMemory.Proofs.Fusion.Toy
import Mathlib.Data.List.Basic
import Mathlib.Data.List.Induction

/-!
Storage that is allocated late. A block that gets its storage when it is first touched replies to accesses as an
array of zeros would that exists from the start (`PlainBytes`), bare or as one of the blocks, and still does so as
the code cache that it may become, up to the next clear. What shows that it waits is only whether there is storage:
there is, of the size of the block, exactly if an access was accepted since the block was made or cleared
(`isAllocated_after_iff`).
-/
namespace GuestMemory

open Block (Access Reply)

/-! ### Histories of a store -/

namespace ByteStore

variable {β : Type} [ByteStore β]

/-- One access; a store that rejects it stays as it is. -/
def access (store : β) : Access → Reply × β
  | .size => (.size (size store), store)
  | .get w offset =>
    match get w store offset with
    | .error e => (.rejected e, store)
    | .ok (value, store) => (.value w value, store)
  | .set w offset value =>
    match set w store offset value with
    | .error e => (.rejected e, store)
    | .ok store => (.done, store)
  | .copyOut offset count =>
    match read store offset count with
    | .error e => (.rejected e, store)
    | .ok (bytes, store) => (.bytes bytes, store)
  | .copyIn offset bytes =>
    match write store offset bytes with
    | .error e => (.rejected e, store)
    | .ok store => (.done, store)
  | .clear => (.done, clear store)

/-- The store after a history of accesses. -/
def after (store : β) (history : List Access) : β :=
  history.foldl (fun store a => (access store a).2) store

/-- What the store replies to accesses one after the other. -/
def replies (store : β) : List Access → List Reply
  | [] => []
  | a :: rest => (access store a).1 :: replies (access store a).2 rest

theorem after_append (store : β) (history later : List Access) :
    after store (history ++ later) = after (after store history) later :=
  List.foldl_append ..

theorem replies_append (store : β) (history later : List Access) :
    replies store (history ++ later) = replies store history ++ replies (after store history) later := by
  induction history generalizing store with
  | nil => rfl
  | cons a rest ih =>
    rw [List.cons_append, replies, replies, ih, List.cons_append]
    rfl

end ByteStore

/-! ### Arrays of bytes -/

/-- A writable array of bytes that exists from the start. -/
structure PlainBytes where
  bytes : List UInt8

namespace PlainBytes

def zeros (size : Nat) : PlainBytes := ⟨List.replicate size 0⟩

def read (p : PlainBytes) (offset count : Nat) : Except BlockError (List UInt8 × PlainBytes) :=
  if offset + count ≤ p.bytes.length then .ok ((p.bytes.drop offset).take count, p)
  else .error (.outOfBounds offset count p.bytes.length)

def write (p : PlainBytes) (offset : Nat) (bytes : List UInt8) : Except BlockError PlainBytes :=
  if offset + bytes.length ≤ p.bytes.length then
    .ok ⟨p.bytes.take offset ++ bytes ++ p.bytes.drop (offset + bytes.length)⟩
  else .error (.outOfBounds offset bytes.length p.bytes.length)

instance : ByteStore PlainBytes :=
  ⟨fun p => p.bytes.length, fun _ => true, read, write, fun p => zeros p.bytes.length⟩

theorem get_eq (p : PlainBytes) (w : Width) (offset : Nat) : ByteStore.get w p offset =
    if offset + w.size ≤ p.bytes.length then .ok (w.decode ((p.bytes.drop offset).take w.size), p)
    else .error (.outOfBounds offset w.size p.bytes.length) := by
  simp only [ByteStore.get, ByteStore.read, read]
  split_ifs <;> rfl

theorem set_eq (p : PlainBytes) (w : Width) (offset : Nat) (value : w.Value) : ByteStore.set w p offset value =
    if offset + w.size ≤ p.bytes.length then
      .ok ⟨p.bytes.take offset ++ w.encode value ++ p.bytes.drop (offset + w.size)⟩
    else .error (.outOfBounds offset w.size p.bytes.length) := by
  show p.write offset (w.encode value) = _
  rw [write, w.length_encode]

end PlainBytes

namespace Contents

theorem slice_eq_take_drop (contents : Contents) (offset count : Nat) :
    contents.slice offset count = (contents.toList.drop offset).take count := by
  simp [slice, List.extract_eq_take_drop]

/-- What a list holds after a part of it was replaced. -/
theorem getElem?_replaced {old new : List UInt8} {offset : Nat} (fits : offset + new.length ≤ old.length) (i : Nat) :
    (old.take offset ++ new ++ old.drop (offset + new.length))[i]? =
      if offset ≤ i ∧ i < offset + new.length then new[i - offset]? else old[i]? := by
  have before : (old.take offset).length = offset := by
    rw [List.length_take]
    omega
  rw [List.append_assoc]
  by_cases here : offset ≤ i
  · rw [List.getElem?_append_right (by omega), before]
    by_cases short : i < offset + new.length
    · rw [if_pos ⟨here, short⟩, List.getElem?_append_left (by omega)]
    · rw [if_neg (by omega), List.getElem?_append_right (by omega), List.getElem?_drop]
      congr 1
      omega
  · rw [if_neg (by omega), List.getElem?_append_left (by omega), List.getElem?_take, if_pos (by omega)]

theorem toList_splice {contents : Contents} {offset : Nat} {bytes : List UInt8}
    (fits : offset + bytes.length ≤ contents.size) : (contents.splice offset bytes).toList =
      contents.toList.take offset ++ bytes ++ contents.toList.drop (offset + bytes.length) := by
  apply List.ext_getElem?
  intro i
  have spliced : (contents.splice offset bytes).toList[i]? = (contents.splice offset bytes)[i]? :=
    Array.getElem?_toList ..
  have original : contents.toList[i]? = contents[i]? := Array.getElem?_toList ..
  rw [getElem?_replaced (by simpa using fits), spliced, original]
  by_cases inside : i < contents.size
  · exact getElem?_splice contents offset bytes i inside
  · rw [if_neg (by omega), Array.getElem?_eq_none (by simp; omega), Array.getElem?_eq_none (by omega)]

end Contents

/-! ### Blocks as arrays -/

variable {L : Type} [CodeUnit L]

namespace Block

/-- The block can be written, and holds the bytes of the array. -/
structure Stands (block : Block L) (p : PlainBytes) : Prop where
  writable : block.isWritable = true
  bytes : block.contents.toList = p.bytes

theorem Stands.size {block : Block L} {p : PlainBytes} (stands : block.Stands p) : block.size = p.bytes.length := by
  rw [← size_contents, ← stands.bytes, Array.length_toList]

theorem Stands.touch {block : Block L} {p : PlainBytes} (stands : block.Stands p) : block.touch.Stands p where
  writable := by rw [isWritable_touch, stands.writable]
  bytes := by rw [contents_touch, stands.bytes]

/-- A code cache that can be written becomes a whole block with a clear, whatever its size; other blocks keep
    their size. -/
theorem Stands.clear {block : Block L} {p : PlainBytes} (stands : block.Stands p) (plain : block.cache? = none) :
    block.clear.Stands (.zeros p.bytes.length) where
  writable := by rw [isWritable_clear, stands.writable]
  bytes := by
    rw [contents_clear, stands.writable, if_pos rfl, size_clear, plain, ← stands.size]
    exact Array.toList_replicate ..

/-- A conversion changes nothing that accesses see. -/
theorem Stands.converted {block : Block L} {p : PlainBytes} (stands : block.Stands p) :
    (cache block.toCodeCache).Stands p where
  writable := by rw [isWritable_cache_toCodeCache, stands.writable]
  bytes := by rw [contents_cache_toCodeCache, stands.bytes]

theorem Stands.patch {block : Block L} {p : PlainBytes} (stands : block.Stands p) {offset : Nat} {bytes : List UInt8}
    (fits : offset + bytes.length ≤ p.bytes.length) : (block.patch offset bytes).Stands
      ⟨p.bytes.take offset ++ bytes ++ p.bytes.drop (offset + bytes.length)⟩ where
  writable := by rw [isWritable_patch, stands.writable]
  bytes := by
    have room : offset + bytes.length ≤ block.contents.size := by
      rw [size_contents, stands.size]
      exact fits
    rw [contents_patch, stands.writable, if_pos rfl, Contents.toList_splice room, stands.bytes]

/-- The block replies to an access as the array does, and holds the bytes of the array after it, unless it is a code
    cache and cleared. -/
theorem Stands.access {block : Block L} {p : PlainBytes} (stands : block.Stands p) {a : Access}
    (cleared : a = .clear → block.cache? = none) : (block.access a).1 = (ByteStore.access p a).1 ∧
      (block.access a).2.Stands (ByteStore.access p a).2 := by
  cases a with
  | size => exact ⟨congrArg Reply.size stands.size, stands⟩
  | get w offset =>
    simp only [Block.access, get_eq, ByteStore.access, PlainBytes.get_eq, stands.size, Contents.slice_eq_take_drop,
      stands.bytes]
    split_ifs
    · exact ⟨rfl, stands.touch⟩
    · exact ⟨rfl, stands⟩
  | set w offset value =>
    simp only [Block.access, set_eq, ByteStore.access, PlainBytes.set_eq, stands.size]
    split_ifs with fits
    · rw [← w.length_encode value] at fits ⊢
      exact ⟨rfl, stands.patch fits⟩
    · exact ⟨rfl, stands⟩
  | copyOut offset count =>
    simp only [Block.access, read_eq, ByteStore.access, ByteStore.read, PlainBytes.read, stands.size,
      Contents.slice_eq_take_drop, stands.bytes]
    split_ifs
    · exact ⟨rfl, stands.touch⟩
    · exact ⟨rfl, stands⟩
  | copyIn offset bytes =>
    simp only [Block.access, write_eq, ByteStore.access, ByteStore.write, PlainBytes.write, stands.size]
    split_ifs with fits
    · exact ⟨rfl, stands.patch fits⟩
    · exact ⟨rfl, stands⟩
  | clear => exact ⟨rfl, stands.clear (cleared rfl)⟩

/-- Until it is cleared, a block of any kind goes on like the array. -/
theorem Stands.replies {block : Block L} {p : PlainBytes} (stands : block.Stands p) {later : List Access}
    (steady : ∀ a ∈ later, a ≠ .clear) : block.replies later = ByteStore.replies p later := by
  induction later generalizing block p with
  | nil => rfl
  | cons a rest ih =>
    obtain ⟨same, stands'⟩ := stands.access fun cleared => absurd cleared (steady a (List.mem_cons_self ..))
    rw [Block.replies, ByteStore.replies, same, ih stands' fun a' member => steady a' (List.mem_cons_of_mem _ member)]

/-- `wrap` makes a block of a store that reads and writes as the store does. -/
structure Wraps {β : Type} [ByteStore β] (wrap : β → Block L) : Prop where
  size : ∀ store, (wrap store).size = ByteStore.size store
  read : ∀ store offset count, (wrap store).read offset count =
    (ByteStore.read store offset count).map fun (bytes, store) => (bytes, wrap store)
  write : ∀ store offset bytes, (wrap store).write offset bytes = (ByteStore.write store offset bytes).map wrap

theorem wraps_lazy : Wraps (lazy : LazyBlock → Block L) :=
  ⟨fun _ => rfl, fun _ _ _ => rfl, fun _ _ _ => rfl⟩

theorem wraps_cache : Wraps (cache : CodeCache L → Block L) :=
  ⟨fun _ => rfl, fun _ _ _ => rfl, fun _ _ _ => rfl⟩

section
variable {β : Type} [ByteStore β] {wrap : β → Block L}

/-- An access to the block is an access to the store, unless a clear makes another kind of block of it. -/
theorem Wraps.access (wraps : Wraps wrap) (store : β) {a : Access}
    (cleared : a = .clear → (wrap store).clear = wrap (ByteStore.clear store)) :
    (wrap store).access a = ((ByteStore.access store a).1, wrap (ByteStore.access store a).2) := by
  cases a with
  | size => rw [Block.access, wraps.size, ByteStore.access]
  | get w offset =>
    have reads : ByteStore.read (wrap store) offset w.size = _ := wraps.read store offset w.size
    simp only [Block.access, ByteStore.access, ByteStore.get, reads]
    cases ByteStore.read store offset w.size <;> rfl
  | set w offset value =>
    have writes : ByteStore.write (wrap store) offset (w.encode value) = _ := wraps.write store offset (w.encode value)
    simp only [Block.access, ByteStore.access, ByteStore.set, writes]
    cases ByteStore.write store offset (w.encode value) <;> rfl
  | copyOut offset count =>
    simp only [Block.access, ByteStore.access, wraps.read]
    cases ByteStore.read store offset count <;> rfl
  | copyIn offset bytes =>
    simp only [Block.access, ByteStore.access, wraps.write]
    cases ByteStore.write store offset bytes <;> rfl
  | clear => rw [Block.access, cleared rfl, ByteStore.access]

theorem Wraps.after (wraps : Wraps wrap) (store : β) {history : List Access}
    (cleared : ∀ store, .clear ∈ history → (wrap store).clear = wrap (ByteStore.clear store)) :
    (wrap store).after history = wrap (ByteStore.after store history) := by
  induction history generalizing store with
  | nil => rfl
  | cons a rest ih =>
    have first := wraps.access store (a := a) fun same => cleared store (same ▸ List.mem_cons_self ..)
    have last := ih (ByteStore.access store a).2 fun store member =>
      cleared store (List.mem_cons_of_mem _ member)
    rw [Block.after, List.foldl_cons, first]
    exact last

theorem Wraps.replies (wraps : Wraps wrap) (store : β) {history : List Access}
    (cleared : ∀ store, .clear ∈ history → (wrap store).clear = wrap (ByteStore.clear store)) :
    (wrap store).replies history = ByteStore.replies store history := by
  induction history generalizing store with
  | nil => rfl
  | cons a rest ih =>
    have first := wraps.access store (a := a) fun same => cleared store (same ▸ List.mem_cons_self ..)
    rw [Block.replies, ByteStore.replies, first, ih _ fun store member => cleared store (List.mem_cons_of_mem _ member)]

end

end Block

/-! ### Storage that waits -/

namespace Block

/-- The access is one for bytes of the store. -/
def Access.transfers : Access → Bool
  | .size | .clear => false
  | _ => true

def Reply.accepted : Reply → Bool
  | .rejected _ => false
  | _ => true

end Block

namespace LazyBlock

/-- The access asks for bytes, and gets them. -/
def Takes (block : LazyBlock) (a : Access) : Prop :=
  a.transfers = true ∧ (ByteStore.access block a).1.accepted = true

/-- An access was accepted since the block was made or cleared. -/
def WasTouched (block : LazyBlock) (history : List Access) : Prop :=
  ∃ earlier a later, history = earlier ++ a :: later ∧ (ByteStore.after block earlier).Takes a ∧
    ∀ a' ∈ later, a' ≠ .clear

/-- A clear gives the storage up, an access that takes makes sure of it, and all else changes nothing. -/
theorem access_cases (block : LazyBlock) (a : Access) :
    (a = .clear ∧ (ByteStore.access block a).2 = untouched block.size) ∨
    (a ≠ .clear ∧ block.Takes a ∧ ∃ contents : Contents, contents.size = block.size ∧
      (ByteStore.access block a).2 = touched contents) ∨
    (a ≠ .clear ∧ ¬ block.Takes a ∧ (ByteStore.access block a).2 = block) := by
  cases a with
  | size => exact .inr (.inr ⟨by rintro ⟨⟩, by rintro ⟨⟨⟩, -⟩, rfl⟩)
  | get w offset =>
    refine .inr ?_
    simp only [Takes, ByteStore.access, ByteStore.get, ByteStore.read, read, checkBounds]
    split_ifs
    · exact .inl ⟨by rintro ⟨⟩, ⟨rfl, rfl⟩, _, block.size_contents, rfl⟩
    · exact .inr ⟨by rintro ⟨⟩, by rintro ⟨-, ⟨⟩⟩, rfl⟩
  | set w offset value =>
    refine .inr ?_
    simp only [Takes, ByteStore.access, ByteStore.set, ByteStore.write, write, checkBounds]
    split_ifs
    · exact .inl ⟨by rintro ⟨⟩, ⟨rfl, rfl⟩, _, by simp, rfl⟩
    · exact .inr ⟨by rintro ⟨⟩, by rintro ⟨-, ⟨⟩⟩, rfl⟩
  | copyOut offset count =>
    refine .inr ?_
    simp only [Takes, ByteStore.access, ByteStore.read, read, checkBounds]
    split_ifs
    · exact .inl ⟨by rintro ⟨⟩, ⟨rfl, rfl⟩, _, block.size_contents, rfl⟩
    · exact .inr ⟨by rintro ⟨⟩, by rintro ⟨-, ⟨⟩⟩, rfl⟩
  | copyIn offset bytes =>
    refine .inr ?_
    simp only [Takes, ByteStore.access, ByteStore.write, write, checkBounds]
    split_ifs
    · exact .inl ⟨by rintro ⟨⟩, ⟨rfl, rfl⟩, _, by simp, rfl⟩
    · exact .inr ⟨by rintro ⟨⟩, by rintro ⟨-, ⟨⟩⟩, rfl⟩
  | clear => exact .inl ⟨rfl, rfl⟩

theorem wasTouched_append_singleton {block : LazyBlock} {history : List Access} {a : Access} :
    block.WasTouched (history ++ [a]) ↔
      a ≠ .clear ∧ (block.WasTouched history ∨ (ByteStore.after block history).Takes a) := by
  constructor
  · rintro ⟨earlier, b, later, split, takes, uncleared⟩
    rcases List.eq_nil_or_concat' later with rfl | ⟨later, last, rfl⟩
    · obtain ⟨rfl, ⟨⟩⟩ := List.append_inj' split rfl
      refine ⟨?_, .inr takes⟩
      rintro rfl
      exact Bool.false_ne_true takes.1
    · rw [← List.cons_append, ← List.append_assoc] at split
      obtain ⟨rfl, ⟨⟩⟩ := List.append_inj' split rfl
      refine ⟨uncleared a (by simp), .inl ⟨earlier, b, later, rfl, takes, ?_⟩⟩
      exact fun a' member => uncleared a' (List.mem_append_left _ member)
  · rintro ⟨kept, ⟨earlier, b, later, rfl, takes, uncleared⟩ | takes⟩
    · refine ⟨earlier, b, later ++ [a], by simp, takes, fun a' member => ?_⟩
      rcases List.mem_append.mp member with before | last
      · exact uncleared a' before
      · exact List.mem_singleton.mp last ▸ kept
    · exact ⟨history, a, [], rfl, takes, by simp⟩

/-- There is storage if an access was accepted since the block was made or cleared, and only then. -/
theorem isAllocated_after_iff {block : LazyBlock} (waits : block.isAllocated = false) (history : List Access) :
    (ByteStore.after block history).isAllocated = true ↔ block.WasTouched history := by
  induction history using List.reverseRecOn with
  | nil =>
    refine iff_of_false (by simp [ByteStore.after, waits]) ?_
    rintro ⟨earlier, a, later, split, -⟩
    exact absurd split (by simp)
  | append_singleton history a ih =>
    rw [ByteStore.after_append, wasTouched_append_singleton, ← ih]
    show (ByteStore.access (ByteStore.after block history) a).2.isAllocated = true ↔ _
    rcases access_cases (ByteStore.after block history) a with
      ⟨rfl, left⟩ | ⟨kept, takes, contents, -, left⟩ | ⟨kept, rejected, left⟩ <;> rw [left]
    · exact iff_of_false Bool.false_ne_true fun both => both.1 rfl
    · exact iff_of_true rfl ⟨kept, .inr takes⟩
    · simp [kept, rejected]

theorem size_access (block : LazyBlock) (a : Access) : (ByteStore.access block a).2.size = block.size := by
  rcases block.access_cases a with ⟨-, left⟩ | ⟨-, -, contents, same, left⟩ | ⟨-, -, left⟩ <;> rw [left]
  · rfl
  · exact same

/-- Storage that is there has the size that the block was made with. -/
theorem size_after (block : LazyBlock) (history : List Access) :
    (ByteStore.after block history).size = block.size := by
  induction history generalizing block with
  | nil => rfl
  | cons a rest ih => exact (ih _).trans (block.size_access a)

theorem stands_withSize (size : Nat) :
    (Block.lazy (withSize size) : Block L).Stands (.zeros (min size blockSize)) :=
  ⟨rfl, Array.toList_replicate ..⟩

/-- A block that waits for its storage goes on like the array whatever happens to it. -/
theorem stands_after {block : LazyBlock} {p : PlainBytes} (stands : (Block.lazy block : Block L).Stands p)
    (history : List Access) : (Block.lazy block : Block L).replies history = ByteStore.replies p history ∧
      (Block.lazy (ByteStore.after block history) : Block L).Stands (ByteStore.after p history) := by
  induction history generalizing block p with
  | nil => exact ⟨rfl, stands⟩
  | cons a rest ih =>
    obtain ⟨same, left⟩ := stands.access (a := a) fun _ => rfl
    have wrapped := Block.wraps_lazy (L := L).access block (a := a) fun _ => rfl
    rw [wrapped] at same left
    obtain ⟨sameRest, leftRest⟩ := ih left
    refine ⟨?_, leftRest⟩
    rw [Block.replies, wrapped, sameRest, ByteStore.replies, ← same]

/-- No reply tells a block that waits for its storage from an array of zeros, neither bare nor as one of the blocks,
    nor from some point on as a code cache, until that is cleared. The storage is there if and only if an access was
    accepted, and then it is as long as the block. -/
theorem deferral_invisible (size : Nat) (history : List Access) :
    let bare := withSize size
    let block : Block L := .lazy bare
    let plain := PlainBytes.zeros (min size blockSize)
    (ByteStore.replies bare history = ByteStore.replies plain history ∧
      block.replies history = ByteStore.replies plain history) ∧
    (∀ later, (∀ a ∈ later, a ≠ .clear) →
      block.replies history ++ (Block.cache (block.after history).toCodeCache).replies later =
        ByteStore.replies plain (history ++ later) ∧
      block.replies history ++ ByteStore.replies (block.after history).toCodeCache later =
        ByteStore.replies plain (history ++ later)) ∧
    block.after history = .lazy (ByteStore.after bare history) ∧
    ((ByteStore.after bare history).isAllocated = false ↔ ¬ bare.WasTouched history) ∧
    ∀ contents, ByteStore.after bare history = touched contents → contents.size = min size blockSize := by
  intro bare block plain
  obtain ⟨same, stands⟩ := stands_after (stands_withSize (L := L) size) history
  have wrapped : block.after history = .lazy (ByteStore.after bare history) :=
    Block.wraps_lazy.after bare fun _ _ => rfl
  have unwrapped : block.replies history = ByteStore.replies bare history :=
    Block.wraps_lazy.replies bare fun _ _ => rfl
  refine ⟨⟨unwrapped ▸ same, same⟩, fun later steady => ?_, wrapped, ?_, fun contents there => ?_⟩
  · have cached : (Block.cache (block.after history).toCodeCache).replies later =
        ByteStore.replies (ByteStore.after plain history) later := by
      rw [wrapped]
      exact stands.converted.replies steady
    have uncached : (Block.cache (block.after history).toCodeCache).replies later =
        ByteStore.replies (block.after history).toCodeCache later :=
      Block.wraps_cache.replies _ fun _ member => absurd rfl (steady _ member)
    rw [ByteStore.replies_append, ← uncached, cached, same]
    exact ⟨rfl, rfl⟩
  · rw [← isAllocated_after_iff rfl, Bool.not_eq_true]
  · have same := size_after bare history
    rwa [there] at same

/-- Six bytes: a write that ends outside, one that fits and is cleared, one that fits. -/
def shortHistory : List Access :=
  [.set .word 5 0x1234, .copyIn 0 [7, 8], .clear, .set .word 2 0x1234]

/-- The write that was not cleared is still there after a conversion; the one that was rejected touched nothing. -/
theorem short_replies :
    (Block.lazy (withSize 6) : Block Fusion.Toy.Stub).replies shortHistory ++
      (Block.cache ((Block.lazy (withSize 6) : Block Fusion.Toy.Stub).after shortHistory).toCodeCache).replies
        [.size, .get .doubleword 0, .get .quadword 0] =
      [.rejected (.outOfBounds 5 2 6), .done, .done, .done,
        .size 6, .value .doubleword 0x12340000, .rejected (.outOfBounds 0 8 6)] ∧
    ¬ (withSize 6).WasTouched (shortHistory.take 1) ∧ (withSize 6).WasTouched shortHistory := by
  obtain ⟨-, converted, -, untouched_iff, -⟩ := deferral_invisible (L := Fusion.Toy.Stub) 6 shortHistory
  refine ⟨?_, ?_, ?_⟩
  · rw [(converted [.size, .get .doubleword 0, .get .quadword 0] (by simp)).1]
    rfl
  · exact (deferral_invisible (L := Fusion.Toy.Stub) 6 (shortHistory.take 1)).2.2.2.1.mp rfl
  · by_contra never
    cases untouched_iff.mpr never

end LazyBlock

end GuestMemory
