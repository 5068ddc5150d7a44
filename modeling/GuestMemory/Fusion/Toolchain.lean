import GuestMemory.Code.Tree
import GuestMemory.Decode.Cursor
import GuestMemory.Decode.MicroOp

/-!
The decoder and the compiler that turn guest bytes into executable leaves, and the ways in which
they fail. Both come from outside and may keep a state of their own from call to call.
-/
namespace GuestMemory.Fusion

inductive CompileError where
  | unsupported (kind : MicroOp.Kind)
  /-- A failure that only the compiler can explain. -/
  | backend (text : String)
  deriving DecidableEq, Repr

def CompileError.message : CompileError → String
  | unsupported kind => "unsupported micro-op " ++ kind.name
  | backend text => "code generation failed: " ++ text

/-- Why no code could be made for an entry point. -/
inductive CombineError where
  | decode (cause : DecodeError)
  | compile (cause : CompileError)
  deriving DecidableEq, Repr

def CombineError.message : CombineError → String
  | decode cause => "decode failed: " ++ cause.message
  | compile cause => "compile failed: " ++ cause.message

/-- A decoder and a compiler that share the state `S` and make leaves of type `L`. -/
structure Toolchain (S L : Type) where
  /-- Decodes from the cursor on, and says at which offset it stopped reading. -/
  decode : Cursor → S → Except DecodeError Decoded × Nat × S
  compile : Decoded → S → Except CompileError (CodeTree L) × S

end GuestMemory.Fusion
