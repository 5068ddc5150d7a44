import GuestMemory.Memory.Basic

/-!
A machine is guest memory, the progress of a toolchain, and a processor. It takes one operation at a
time and answers it; an operation that fails answers with its error, and the next one goes on from
there.
-/
namespace GuestMemory

open Fusion

structure Machine (S L P : Type) [CodeUnit L] where
  memory : Memory L
  progress : Progress S
  processor : P

inductive Operation (L : Type) [CodeUnit L] where
  | install (block : Block L)
  | mapShared (index : Nat) (block : Block L)
  | loadRom (base : Address) (image : List UInt8)
  | map (v : View) (index : Nat) (h : Handle)
  | unmap (v : View) (index : Nat)
  | redirect (v : View) (old new : Handle)
  | replaceBlocks (old new : Handle)
  | get (v : View) (w : Width) (a : Address)
  | set (v : View) (w : Width) (a : Address) (value : w.Value)
  | copyOut (v : View) (a : Address) (count : Nat)
  | copyIn (v : View) (a : Address) (bytes : List UInt8)
  | clear (v : View)
  /-- Asks for the code at an address. -/
  | request (v : View) (a : Address)
  /-- Asks for the code at an address and runs it. -/
  | execute (v : View) (a : Address)

inductive Answer (L : Type) where
  | done
  | handle (h : Handle)
  | handles (hs : List Handle)
  /-- The handle that stood in a slot before. -/
  | displaced (h? : Option Handle)
  | count (n : Nat)
  | value (w : Width) (value : w.Value)
  | bytes (bytes : List UInt8)
  | code (code : CodeTree L)
  | outcome (outcome : Outcome)
  | error (e : MemoryError)

namespace Machine

variable {S L P : Type} [CodeUnit L] [Executes L P]

def withMemory (m : Machine S L P) (memory : Memory L) : Machine S L P := { m with memory }

/-- Answers from a change of the memory map that may be refused. -/
def answer {α : Type} (m : Machine S L P) (toAnswer : α → Answer L) :
    Except MemoryError (α × Memory L) → Answer L × Machine S L P
  | .error e => (.error e, m)
  | .ok (a, memory) => (toAnswer a, m.withMemory memory)

/-- Requests code, and leaves the processor alone. -/
def request (config : Config) (t : Toolchain S L) (v : View) (a : Address) (m : Machine S L P) :
    Except MemoryError (CodeTree L) × Machine S L P :=
  let (result, memory, progress) := m.memory.requestCode config t v a m.progress
  (result, { m with memory, progress })

def step (config : Config) (t : Toolchain S L) (m : Machine S L P) :
    Operation L → Answer L × Machine S L P
  | .install block =>
    let (h, memory) := m.memory.install block
    (.handle h, m.withMemory memory)
  | .mapShared index block => m.answer .handle (m.memory.mapShared index block)
  | .loadRom base image => m.answer .handles (m.memory.loadRom base image)
  | .map v index h => m.answer .displaced (m.memory.map v index h)
  | .unmap v index =>
    let (before, memory) := m.memory.unmap v index
    (.displaced before, m.withMemory memory)
  | .redirect v old new =>
    let (count, memory) := m.memory.redirect v old new
    (.count count, m.withMemory memory)
  | .replaceBlocks old new => m.answer .count (m.memory.replaceBlocks old new)
  | .get v w a =>
    let (value, memory) := m.memory.get v w a
    (.value w value, m.withMemory memory)
  | .set v w a value => (.done, m.withMemory (m.memory.set v w a value))
  | .copyOut v a count =>
    let (bytes, memory) := m.memory.copyOut v a count
    (.bytes bytes, m.withMemory memory)
  | .copyIn v a bytes => (.done, m.withMemory (m.memory.copyIn v a bytes))
  | .clear v => (.done, m.withMemory (m.memory.clear v))
  | .request v a =>
    match m.request config t v a with
    | (.error e, m) => (.error e, m)
    | (.ok code, m) => (.code code, m)
  | .execute v a =>
    match m.request config t v a with
    | (.error e, m) => (.error e, m)
    | (.ok code, m) =>
      let (outcome, processor) := code.execute m.processor
      (.outcome outcome, { m with processor })

/-- The machine after a run of operations. -/
def run (config : Config) (t : Toolchain S L) (operations : List (Operation L)) (m : Machine S L P) :
    Machine S L P :=
  operations.foldl (fun m operation => (m.step config t operation).2) m

end Machine

end GuestMemory
