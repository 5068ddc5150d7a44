import GuestMemory.Memory.Basic
import GuestMemory.Proofs.Block.Code
import GuestMemory.Proofs.Memory.Related
import Mathlib.Tactic.SplitIfs

/-!
Requests for code as accesses to memory. A request can end in five ways (`Requested`), and whichever it
is, nobody who reads or writes memory can tell that it was made: the block at the address becomes a code
cache with the same bytes, which takes the same writes, and nothing else changes at all
(`requestCode_transparent`). All that is left of it is the code that it made.
-/
namespace GuestMemory

open Fusion

variable {S L : Type} [CodeUnit L]

namespace Block

theorem isWritable_eq_false {block : Block L} : block.isWritable = false ↔
    (∃ rom, block = .rom rom) ∨ ∃ cache, block = .cache cache ∧ cache.writable = false := by
  cases block <;> simp [isWritable]

/-- The code that the block keeps after a request for the code at an offset: what it kept before and, if
    it kept none for that offset, the code that was made, unless it spans. -/
def codeAfter (block : Block L) (offset : Nat) : Except MemoryError (CodeTree L) → Table (CodeTree L)
  | .ok code =>
    if block.codeAt offset = none ∧ code.isSpanning = false then block.code.insert offset code else block.code
  | .error _ => block.code

theorem codeAfter_of_codeAt {block : Block L} {offset : Nat} {code : CodeTree L}
    (kept : block.codeAt offset = some code) (answer : Except MemoryError (CodeTree L)) :
    block.codeAfter offset answer = block.code := by
  cases answer with
  | error e => rfl
  | ok other =>
    rw [codeAfter, kept]
    exact if_neg (by simp)

/-- The part of an answer that a cell can keep. -/
def keepable (answer : Except MemoryError (CodeTree L)) : Option (CodeTree L) :=
  answer.toOption.filter fun code => !code.isSpanning

theorem keepable_ok (code : CodeTree L) : keepable (.ok code) = if code.isSpanning then none else some code := by
  cases spans : code.isSpanning <;> simp [keepable, Except.toOption, Option.filter, spans]

theorem keepable_eq_some {answer : Except MemoryError (CodeTree L)} {code : CodeTree L} :
    keepable answer = some code ↔ answer = .ok code ∧ code.isSpanning = false := by
  cases answer with
  | error e => simp [keepable, Except.toOption]
  | ok made =>
    simp only [keepable, Except.toOption, Option.filter_eq_some_iff, Option.some.injEq, Except.ok.injEq,
      Bool.not_eq_true']

theorem find?_codeAfter (block : Block L) (offset : Nat) (answer : Except MemoryError (CodeTree L)) (other : Nat) :
    (block.codeAfter offset answer).find? other =
      if other = offset then (block.codeAt other).or (keepable answer) else block.codeAt other := by
  by_cases here : other = offset
  · subst here
    rw [if_pos rfl]
    cases answer with
    | error e => exact Option.or_none.symm
    | ok code =>
      rw [codeAfter]
      cases kept : block.codeAt other with
      | some earlier => exact kept
      | none =>
        rw [Option.none_or, keepable_ok]
        cases code.isSpanning with
        | true => simpa [codeAt] using kept
        | false => simp
  · rw [if_neg here]
    cases answer with
    | error e => rfl
    | ok code =>
      rw [codeAfter]
      split
      · rw [Table.find?_insert, if_neg here, codeAt]
      · rfl

/-- The block as a code cache that keeps what a request for the code at an offset was answered with. -/
def withCode (block : Block L) (offset : Nat) (answer : Except MemoryError (CodeTree L)) : CodeCache L :=
  { block.toCodeCache with
    entries := block.codeAfter offset answer
    contained := by
      intro code member
      obtain ⟨other, kept⟩ := Table.mem_values.mp member
      rw [find?_codeAfter] at kept
      split at kept
      · rcases Option.or_eq_some_iff.mp kept with earlier | ⟨_, added⟩
        · exact isSpanning_of_codeAt earlier
        · exact (keepable_eq_some.mp added).2
      · exact isSpanning_of_codeAt kept }

theorem withCode_error (block : Block L) (offset : Nat) (e : MemoryError) :
    block.withCode offset (.error e) = block.toCodeCache :=
  CodeCache.ext rfl rfl block.entries_toCodeCache.symm

theorem withCode_of_codeAt {block : Block L} {offset : Nat} {code : CodeTree L}
    (kept : block.codeAt offset = some code) (answer : Except MemoryError (CodeTree L)) :
    block.withCode offset answer = block.toCodeCache :=
  CodeCache.ext rfl rfl ((codeAfter_of_codeAt kept answer).trans block.entries_toCodeCache.symm)

section
variable (block : Block L) (offset : Nat) (answer : Except MemoryError (CodeTree L))

@[simp] theorem size_withCode : (cache (block.withCode offset answer)).size = block.size := block.size_toCodeCache

@[simp] theorem contents_withCode : (cache (block.withCode offset answer)).contents = block.contents :=
  block.contents_toCodeCache

@[simp] theorem isWritable_withCode : (cache (block.withCode offset answer)).isWritable = block.isWritable :=
  block.writable_toCodeCache

end

/-- `after` is the block as a code cache: reads give the same bytes, and writes are taken or dropped as
    they were before. -/
structure Converted (before : Block L) (after : CodeCache L) : Prop where
  size : after.size = before.size
  contents : after.contents = before.contents
  untouched : ∀ n, before = .lazy (.untouched n) → after.contents = Contents.zeros n
  readOnly : after.writable = false ↔
    (∃ rom, before = .rom rom) ∨ ∃ cache, before = .cache cache ∧ cache.writable = false
  reads : ∀ offset count,
    ((cache after).read offset count).map Prod.fst = (before.read offset count).map Prod.fst
  writes : ∀ offset bytes,
    ((cache after).write offset bytes).map Block.contents = (before.write offset bytes).map Block.contents

theorem converted_withCode (block : Block L) (offset : Nat) (answer : Except MemoryError (CodeTree L)) :
    block.Converted (block.withCode offset answer) := by
  refine ⟨block.size_withCode offset answer, block.contents_withCode offset answer, ?_, ?_, fun at' count => ?_,
    fun at' bytes => ?_⟩
  · rintro n rfl
    rfl
  · rw [← isWritable_eq_false, ← block.isWritable_withCode offset answer]
    rfl
  · rw [read_eq, read_eq, size_withCode, contents_withCode]
    split_ifs <;> rfl
  · rw [write_eq, write_eq, size_withCode]
    split_ifs
    · simp only [Except.map, contents_patch, contents_withCode, isWritable_withCode]
    · rfl

end Block

namespace Arena

/-- The window begins with the block, and goes on after it only if it is of full size. -/
theorem decodeWindow_eq (arena : Arena L) (d : Directory) (a : Address) (contents : Contents) :
    ∃ tail, arena.decodeWindow d a contents = contents ++ tail ∧ (contents.size = blockSize ∨ tail = #[]) := by
  rw [decodeWindow]
  split
  · rename_i full
    exact ⟨_, rfl, .inl full⟩
  · exact ⟨#[], (Array.append_empty).symm, .inr rfl⟩

/-- The ways in which a request for the code at an address can end: with the answer, the arena after it,
    and the progress of the tools. -/
inductive Requested (config : Config) (t : Toolchain S L) (d : Directory) (a : Address) (arena : Arena L)
    (progress : Progress S) : Except MemoryError (CodeTree L) × Arena L × Progress S → Prop
  | unmapped (nowhere : d.handleAt a = none) :
    Requested config t d a arena progress (.error (.unmapped a), arena, progress)
  | unknown {h : Handle} (mapped : d.handleAt a = some h) (missing : arena.get? h = none) :
    Requested config t d a arena progress (.error (.unknownBlock h), arena, progress)
  /-- The block keeps code for the offset, and so is a code cache already. -/
  | reused {h : Handle} {block : Block L} {code : CodeTree L} (mapped : d.handleAt a = some h)
    (found : arena.get? h = some block) (kept : block.codeAt a.blockOffset = some code) :
    Requested config t d a arena progress (.ok code, arena, progress)
  | failed {h : Handle} {block : Block L} {e : CombineError} {later : Progress S}
    (mapped : d.handleAt a = some h) (found : arena.get? h = some block)
    (absent : block.codeAt a.blockOffset = none)
    (built : (arena.put h (.cache block.toCodeCache)).buildAt config t d a block.contents progress =
      (.error e, later)) :
    Requested config t d a arena progress
      (.error (.noCode a e), arena.put h (.cache (block.withCode a.blockOffset (.error (.noCode a e)))), later)
  | made {h : Handle} {block : Block L} {code : CodeTree L} {later : Progress S}
    (mapped : d.handleAt a = some h) (found : arena.get? h = some block)
    (absent : block.codeAt a.blockOffset = none)
    (built : (arena.put h (.cache block.toCodeCache)).buildAt config t d a block.contents progress =
      (.ok code, later)) :
    Requested config t d a arena progress
      (.ok code, arena.put h (.cache (block.withCode a.blockOffset (.ok code))), later)

/-- What is kept of the code that was made for an offset for which a block kept none. -/
theorem keepCode_put {arena : Arena L} {h : Handle} {block : Block L} (found : arena.get? h = some block)
    {offset : Nat} (absent : block.codeAt offset = none) (code : CodeTree L) :
    (arena.put h (.cache block.toCodeCache)).keepCode h offset code =
      arena.put h (.cache (block.withCode offset (.ok code))) := by
  have there : (arena.put h (.cache block.toCodeCache)).get? h = some (.cache block.toCodeCache) := by
    rw [get?_put, if_pos rfl, found, Option.map_some]
  simp only [keepCode, there]
  cases inserted : block.toCodeCache.insert offset code with
  | none =>
    have spans := CodeCache.insert_eq_none.mp inserted
    have dropped : block.withCode offset (.ok code) = block.toCodeCache :=
      CodeCache.ext rfl rfl (by simp [Block.withCode, Block.codeAfter, spans])
    rw [dropped]
  | some cache =>
    obtain ⟨contained, contents, writable, entries⟩ := CodeCache.insert_eq_some inserted
    have kept : cache = block.withCode offset (.ok code) :=
      CodeCache.ext contents writable (by simp [entries, Block.withCode, Block.codeAfter, absent, contained])
    rw [kept]
    exact put_put ..

theorem requestCode_requested (config : Config) (t : Toolchain S L) (d : Directory) (a : Address)
    (arena : Arena L) (progress : Progress S) :
    Requested config t d a arena progress (arena.requestCode config t d a progress) := by
  rw [requestCode]
  cases mapped : d.handleAt a with
  | none => exact .unmapped mapped
  | some h =>
    simp only [toCodeCache]
    cases found : arena.get? h with
    | none => exact .unknown mapped found
    | some block =>
      have cached : block.toCodeCache.codeAt a.blockOffset = block.codeAt a.blockOffset := by
        rw [CodeCache.codeAt, Block.entries_toCodeCache, Block.codeAt]
      simp only [cached, Block.contents_toCodeCache]
      cases kept : block.codeAt a.blockOffset with
      | some code =>
        rw [Block.cache_toCodeCache_of_codeAt kept, put_of_get? found]
        exact .reused mapped found kept
      | none =>
        rcases built : (arena.put h (.cache block.toCodeCache)).buildAt config t d a block.contents progress
          with ⟨result, later⟩
        cases result with
        | error e =>
          rw [← block.withCode_error a.blockOffset (.noCode a e)]
          exact .failed mapped found kept built
        | ok code =>
          simp only [keepCode_put found kept]
          exact .made mapped found kept built

end Arena

namespace Memory

/-- A request for the code at an address that ended with this answer, in this memory and with this
    progress of the tools, changed nothing that reads and writes could tell. -/
structure Transparent (m : Memory L) (v : View) (a : Address) (progress : Progress S)
    (answer : Except MemoryError (CodeTree L)) (after : Memory L) (later : Progress S) : Prop where
  unmapped : (m.directory v).handleAt a = none →
    answer = .error (.unmapped a) ∧ after = m ∧ later = progress
  unknown : ∀ h, (m.directory v).handleAt a = some h → m.arena.get? h = none →
    answer = .error (.unknownBlock h) ∧ after = m ∧ later = progress
  answered : ∀ h block, (m.directory v).handleAt a = some h → m.arena.get? h = some block →
    (∃ code, answer = .ok code) ∨ ∃ cause, answer = .error (.noCode a cause)
  physical : after.physical = m.physical
  linear : after.linear = m.linear
  arena_size : after.arena.size = m.arena.size
  others : ∀ h, (m.directory v).handleAt a ≠ some h → after.arena.get? h = m.arena.get? h
  addressed : ∀ h block, (m.directory v).handleAt a = some h → m.arena.get? h = some block →
    ∃ cache, after.arena.get? h = some (.cache cache) ∧ block.Converted cache ∧
      cache.entries = block.codeAfter a.blockOffset answer

/-- Where there is a block, nothing changes but that it becomes a code cache, which keeps what the
    answer adds. -/
theorem transparent_put {m : Memory L} {v : View} {a : Address} {h : Handle} {block : Block L}
    (mapped : (m.directory v).handleAt a = some h) (found : m.arena.get? h = some block)
    {answer : Except MemoryError (CodeTree L)}
    (answered : (∃ code, answer = .ok code) ∨ ∃ cause, answer = .error (.noCode a cause))
    (progress later : Progress S) :
    m.Transparent v a progress answer
      { m with arena := m.arena.put h (.cache (block.withCode a.blockOffset answer)) } later where
  unmapped nowhere := by
    rw [mapped] at nowhere
    cases nowhere
  unknown h' mapped' missing := by
    obtain rfl : h = h' := Option.some.inj (mapped.symm.trans mapped')
    rw [found] at missing
    cases missing
  answered _ _ _ _ := answered
  physical := rfl
  linear := rfl
  arena_size := Array.size_setIfInBounds
  others h' elsewhere := by
    have different : h' ≠ h := fun same => elsewhere (same ▸ mapped)
    rw [Arena.get?_put, if_neg different]
  addressed h' block' mapped' found' := by
    obtain rfl : h = h' := Option.some.inj (mapped.symm.trans mapped')
    obtain rfl : block = block' := Option.some.inj (found.symm.trans found')
    refine ⟨block.withCode a.blockOffset answer, ?_, block.converted_withCode _ _, rfl⟩
    rw [Arena.get?_put, if_pos rfl, found, Option.map_some]

/-- Where there is none, nothing changes. -/
theorem transparent_refused {m : Memory L} {v : View} {a : Address} (progress : Progress S)
    (nowhere : ∀ h block, (m.directory v).handleAt a = some h → m.arena.get? h ≠ some block)
    {e : MemoryError} (unmapped : (m.directory v).handleAt a = none → e = .unmapped a)
    (unknown : ∀ h, (m.directory v).handleAt a = some h → e = .unknownBlock h) :
    m.Transparent v a progress (.error e) m progress where
  unmapped mapped := ⟨congrArg _ (unmapped mapped), rfl, rfl⟩
  unknown h mapped _ := ⟨congrArg _ (unknown h mapped), rfl, rfl⟩
  answered h block mapped found := absurd found (nowhere h block mapped)
  physical := rfl
  linear := rfl
  arena_size := rfl
  others _ _ := rfl
  addressed h block mapped found := absurd found (nowhere h block mapped)

/-- Whatever a request for code is answered with, it leaves both directories and every other block as
    they are. The block at the address is a code cache after it, with the same bytes as before, for the
    same reads and writes; it keeps the code that it kept, and the code that was made, unless that
    spans. Where there is no block, neither memory nor the tools are touched. -/
theorem requestCode_transparent (config : Config) (t : Toolchain S L) (m : Memory L) (v : View) (a : Address)
    (progress : Progress S) :
    m.Transparent v a progress (m.requestCode config t v a progress).1 (m.requestCode config t v a progress).2.1
      (m.requestCode config t v a progress).2.2 := by
  have requested := Arena.requestCode_requested config t (m.directory v) a m.arena progress
  simp only [requestCode]
  generalize m.arena.requestCode config t (m.directory v) a progress = result at requested ⊢
  cases requested with
  | unmapped nowhere =>
    refine transparent_refused progress ?_ (fun _ => rfl) ?_
    · simp [nowhere]
    · simp [nowhere]
  | unknown mapped missing =>
    refine transparent_refused progress (fun h' block mapped' found => ?_) ?_ ?_
    · obtain rfl := Option.some.inj (mapped.symm.trans mapped')
      rw [missing] at found
      cases found
    · simp [mapped]
    · simp [mapped]
  | @reused h block code mapped found kept =>
    have same : m.arena.put h (.cache (block.withCode a.blockOffset (.ok code))) = m.arena := by
      rw [Block.withCode_of_codeAt kept, Block.cache_toCodeCache_of_codeAt kept, Arena.put_of_get? found]
    have transparent := transparent_put mapped found (.inl ⟨code, rfl⟩) progress progress
    rw [same] at transparent
    exact transparent
  | failed mapped found absent built => exact transparent_put mapped found (.inr ⟨_, rfl⟩) progress _
  | made mapped found absent built => exact transparent_put mapped found (.inl ⟨_, rfl⟩) progress _

end Memory

end GuestMemory
