/-!
Limits on the fusion of code.
-/
namespace GuestMemory.Fusion

structure Config where
  /-- Without fusion every request compiles a single leaf. -/
  enabled : Bool := true
  /-- Depth from which on continuations are compiled as leaves. -/
  maxDepth : UInt8 := 6
  /-- Largest distance that a fused branch may cover, in either direction. -/
  maxDisplacement : UInt32 := 255
  /-- Highest segment offset that fused code may reach. -/
  segmentLimit : UInt32 := 4095
  /-- Fewest micro-operations that an entry needs. -/
  minMicroOps : Nat := 5
  deriving DecidableEq, Repr, Inhabited

/-- Never fuses. -/
def Config.leafOnly : Config := { enabled := false }

end GuestMemory.Fusion
