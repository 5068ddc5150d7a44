import GuestMemory.Proofs.Block.Currency
import GuestMemory.Proofs.Memory.Request
import Mathlib.Tactic.SplitIfs

/-!
No block keeps code that is not current, through whatever view and under however many addresses its
bytes are written. Accesses keep this for every block at once, because they reach blocks through reads
and writes of single blocks only; a request for code keeps it because what it adds was just made.
-/
namespace GuestMemory

open Fusion

variable {S L : Type} [CodeUnit L]

theorem Block.UpToDate.withCode {t : Toolchain S L} {block : Block L} (upToDate : block.UpToDate t)
    (offset : Nat) (answer : Except MemoryError (CodeTree L))
    (fresh : ∀ code, keepable answer = some code → CurrentCode t block.contents offset code) :
    (cache (block.withCode offset answer)).UpToDate t := by
  rintro _ ⟨⟩ entered code found
  have contents : (block.withCode offset answer).contents = block.contents := block.contents_toCodeCache
  rw [contents]
  rw [CodeCache.codeAt, Block.withCode, find?_codeAfter] at found
  split_ifs at found with here
  · rcases Option.or_eq_some_iff.mp found with kept | ⟨_, added⟩
    · exact upToDate.currentCode kept
    · exact here ▸ fresh code added
  · exact upToDate.currentCode found

namespace Arena

variable {t : Toolchain S L}

/-- No block keeps code that is not current. -/
def UpToDate (t : Toolchain S L) (arena : Arena L) : Prop :=
  ∀ h block, arena.get? h = some block → block.UpToDate t

theorem upToDate_empty (t : Toolchain S L) : (empty : Arena L).UpToDate t := by
  intro h block found
  simp [get?, empty] at found

theorem keptByAccesses_upToDate (localTools : t.Local) :
    KeptByAccesses (L := L) fun x y => x.UpToDate t → y.UpToDate t where
  refl _ := id
  trans _ _ _ first second := second ∘ first
  touch _ := Block.UpToDate.touch
  patch _ offset bytes _ upToDate := upToDate.patch localTools offset bytes

theorem UpToDate.put {arena : Arena L} (upToDate : arena.UpToDate t) {block : Block L}
    (fresh : block.UpToDate t) (h : Handle) : (arena.put h block).UpToDate t := by
  intro h' other found
  rw [get?_put] at found
  split_ifs at found
  · obtain ⟨_, _, rfl⟩ := Option.map_eq_some_iff.mp found
    exact fresh
  · exact upToDate h' other found

/-! ### Requests -/

theorem buildAt_currentCode (localTools : t.Local) {config : Config} {d : Directory} {a : Address}
    {contents : Contents} {arena : Arena L} {progress : Progress S} {code : CodeTree L}
    (built : (arena.buildAt config t d a contents progress).1 = .ok code) (inside : code.isSpanning = false) :
    CurrentCode t contents a.blockOffset code := by
  obtain ⟨tail, window, full⟩ := arena.decodeWindow_eq d a contents
  rw [buildAt, window, Cursor.ofWindow, Cursor.seek] at built
  split_ifs at built
  exact currentCode_of_fused localTools full (combine_fused built) inside

theorem UpToDate.requestCode (localTools : t.Local) {arena : Arena L} (upToDate : arena.UpToDate t)
    (config : Config) (d : Directory) (a : Address) (progress : Progress S) :
    (arena.requestCode config t d a progress).2.1.UpToDate t := by
  have requested := requestCode_requested config t d a arena progress
  generalize arena.requestCode config t d a progress = result at requested ⊢
  cases requested with
  | unmapped | unknown | reused => exact upToDate
  | @failed h block e _ _ found _ _ =>
    exact upToDate.put ((upToDate h block found).withCode a.blockOffset (.error (.noCode a e)) nofun) h
  | made _ found _ built =>
    refine upToDate.put ((upToDate _ _ found).withCode a.blockOffset (.ok _) fun code added => ?_) _
    obtain ⟨answered, inside⟩ := Block.keepable_eq_some.mp added
    cases answered
    exact buildAt_currentCode localTools (congrArg Prod.fst built) inside

end Arena

end GuestMemory
