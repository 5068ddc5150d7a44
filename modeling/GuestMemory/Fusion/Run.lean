import GuestMemory.Saturation
import GuestMemory.Fusion.Toolchain

/-!
The state of a request for code: the cursor over the window, the state of decoder and compiler, the
depth of fusion, and the counters that outlive the request.
-/
namespace GuestMemory.Fusion

/-- Activity counters, each held at its limit. -/
structure Stats where
  attempts : Nat := 0
  compounds : Nat := 0
  leaves : Nat := 0
  failures : Nat := 0
  /-- Entries left unfused, at any depth. -/
  bailouts : Nat := 0
  deriving DecidableEq, Repr, Inhabited

namespace Stats

/-- Counts one request by its result. -/
def record {L : Type} (stats : Stats) (result : Except CombineError (CodeTree L)) : Stats :=
  let stats := { stats with attempts := countEvent stats.attempts }
  match result with
  | .ok (.compound ..) => { stats with compounds := countEvent stats.compounds }
  | .ok (.leaf _) => { stats with leaves := countEvent stats.leaves }
  | .error _ => { stats with failures := countEvent stats.failures }

def bailOut (stats : Stats) : Stats := { stats with bailouts := countEvent stats.bailouts }

end Stats

/-- What lives on from request to request. -/
structure Progress (S : Type) where
  tools : S
  stats : Stats := {}
  deriving DecidableEq

/-- What changes during one request. -/
structure Run (S : Type) extends Progress S where
  cursor : Cursor
  /-- Fused branches whose continuations are being resolved. -/
  depth : UInt8 := 0
  deriving DecidableEq

/-- The code for an entry point, or why there is none. -/
abbrev Attempt (S L : Type) := Except CombineError (CodeTree L) × Run S

namespace Run

variable {S L : Type}

/-- The cursor after a reader that stopped at `offset`. -/
def stopAt (run : Run S) (offset : Nat) : Run S :=
  { run with cursor := { run.cursor with position := min offset run.cursor.size } }

def descend (run : Run S) : Run S := { run with depth := run.depth + 1 }

def ascend (run : Run S) : Run S := { run with depth := run.depth - 1 }

def bailOut (run : Run S) : Run S := { run with stats := run.stats.bailOut }

/-- Decodes and compiles the code at `start`. -/
def build (t : Toolchain S L) (start : Nat) (run : Run S) :
    Except CombineError (Decoded × CodeTree L) × Run S :=
  match run.cursor.seek start with
  | .error e => (.error (.decode e), run)
  | .ok cursor =>
    match t.decode cursor run.tools with
    | (.error e, stop, tools) => (.error (.decode e), { run with tools }.stopAt stop)
    | (.ok decoded, stop, tools) =>
      match t.compile decoded tools with
      | (.error e, tools) => (.error (.compile e), { run with tools }.stopAt stop)
      | (.ok block, tools) => (.ok (decoded, block), { run with tools }.stopAt stop)

/-- A single leaf, without fusion. -/
def compileLeaf (t : Toolchain S L) (start : Nat) (run : Run S) : Attempt S L :=
  match run.build t start with
  | (.error e, run) => (.error e, run)
  | (.ok (_, block), run) => (.ok block, run)

end Run

end GuestMemory.Fusion
