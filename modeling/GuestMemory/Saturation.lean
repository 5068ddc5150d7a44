/-!
Counts that stop at the largest value of their width instead of wrapping.
-/
namespace GuestMemory

/-- Largest 32-bit number. -/
def maxWord32 : Nat := 0xFFFFFFFF

/-- Largest 64-bit number. -/
def maxWord64 : Nat := 0xFFFFFFFFFFFFFFFF

/-- The nearest 32-bit number at most `n`. -/
def saturate (n : Nat) : UInt32 := UInt32.ofNat (min n maxWord32)

theorem toNat_saturate (n : Nat) : (saturate n).toNat = min n maxWord32 := by
  rw [saturate, UInt32.toNat_ofNat', maxWord32]
  exact Nat.mod_eq_of_lt (by omega)

theorem saturate_toNat (x : UInt32) : saturate x.toNat = x := by
  apply UInt32.toNat_inj.mp
  have bound := x.toNat_lt
  rw [toNat_saturate, maxWord32]
  omega

/-- The sum of two 32-bit counts, held at the largest. -/
def saturatingAdd (x y : UInt32) : UInt32 := saturate (x.toNat + y.toNat)

theorem toNat_saturatingAdd (x y : UInt32) :
    (saturatingAdd x y).toNat = min (x.toNat + y.toNat) maxWord32 := toNat_saturate _

/-- One more event, counted in 64 bits. -/
def countEvent (n : Nat) : Nat := min (n + 1) maxWord64

theorem countEvent_of_lt {n : Nat} (room : n < maxWord64) : countEvent n = n + 1 :=
  Nat.min_eq_left room

end GuestMemory
