import GuestMemory.Saturation

/-!
What executing code reports back to the dispatcher: how many instructions retired, and either
whether the trailing branch was taken or the mode in which dispatch has to resume.
-/
namespace GuestMemory

/-- Processor modes; a processor starts in real mode. -/
inductive Mode where
  | realMode | protectedMode | virtual8086Mode
  deriving DecidableEq, Repr, Inhabited

inductive Outcome where
  /-- The code ran to its end. -/
  | retired (instructions : UInt32) (taken : Bool)
  /-- The code asked to leave for another mode. -/
  | modeSwitch (target : Mode) (instructions : UInt32)
  deriving DecidableEq, Repr

namespace Outcome

def instructions : Outcome → UInt32
  | retired n _ => n
  | modeSwitch _ n => n

/-- The mode in which dispatch has to resume, if it has to change. -/
def switch? : Outcome → Option Mode
  | retired .. => none
  | modeSwitch target _ => some target

/-- The outcome of code that ran after `prior` other instructions. -/
def after (outcome : Outcome) (prior : UInt32) : Outcome :=
  match outcome with
  | retired n taken => retired (saturatingAdd n prior) taken
  | modeSwitch target n => modeSwitch target (saturatingAdd n prior)

end Outcome

end GuestMemory
