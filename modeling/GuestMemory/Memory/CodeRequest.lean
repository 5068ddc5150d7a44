import GuestMemory.Fusion.Combine
import GuestMemory.Memory.Transfer

/-!
Requests for the code at an address. The block there becomes a code cache. Code that it already
holds is returned as it is; otherwise the code is made from the bytes of the block, with the bytes
of the next block after them so that a last instruction may run over, and kept unless it spans.
-/
namespace GuestMemory

open Fusion

namespace Arena

variable {L : Type} [CodeUnit L]

/-- The bytes of the block after the one at `a`; looking at them allocates nothing. -/
def nextContents (arena : Arena L) (d : Directory) (a : Address) : Contents :=
  match (d.handleForIndex (a.blockIndex + 1)).bind arena.get? with
  | none => #[]
  | some block => block.contents

/-- What the decoder gets to see: only a block of full size runs on into the next. -/
def decodeWindow (arena : Arena L) (d : Directory) (a : Address) (contents : Contents) : Contents :=
  if contents.size = blockSize then contents ++ arena.nextContents d a else contents

/-- Keeps code in the cache in a slot. -/
def keepCode (arena : Arena L) (h : Handle) (offset : Nat) (code : CodeTree L) : Arena L :=
  match arena.get? h with
  | some (.cache cache) =>
    match cache.insert offset code with
    | some cache => arena.put h (.cache cache)
    | none => arena
  | _ => arena

/-- Makes the code at `a` from the bytes of its block. -/
def buildAt {S : Type} (config : Config) (t : Toolchain S L) (d : Directory) (a : Address)
    (contents : Contents) (arena : Arena L) (progress : Progress S) :
    Except CombineError (CodeTree L) × Progress S :=
  match (Cursor.ofWindow (arena.decodeWindow d a contents)).seek a.blockOffset with
  | .error e => (.error (.decode e), progress)
  | .ok cursor =>
    let (result, run) := combine config t cursor progress
    (result, run.toProgress)

/-- The code for the entry point at `a`. -/
def requestCode {S : Type} (config : Config) (t : Toolchain S L) (d : Directory) (a : Address)
    (arena : Arena L) (progress : Progress S) :
    Except MemoryError (CodeTree L) × Arena L × Progress S :=
  match d.handleAt a with
  | none => (.error (.unmapped a), arena, progress)
  | some h =>
    match arena.toCodeCache h with
    | .error e => (.error e, arena, progress)
    | .ok (cache, arena) =>
      match cache.codeAt a.blockOffset with
      | some code => (.ok code, arena, progress)
      | none =>
        match arena.buildAt config t d a cache.contents progress with
        | (.error e, progress) => (.error (.noCode a e), arena, progress)
        | (.ok code, progress) => (.ok code, arena.keepCode h a.blockOffset code, progress)

end Arena

end GuestMemory
