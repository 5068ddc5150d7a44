/-!
Hexadecimal numbers as messages show them: lower case, after `0x`, padded with zeros to a total
width that counts those two characters.
-/
namespace GuestMemory.Text

def hexPadded (width n : Nat) : String :=
  let digits := Nat.toDigits 16 n
  "0x" ++ String.ofList (List.replicate (width - 2 - digits.length) '0' ++ digits)

/-- The shortest form. -/
def hex (n : Nat) : String := hexPadded 0 n

/-- Two digits at least. -/
def hexByte (b : UInt8) : String := hexPadded 4 b.toNat

/-- Eight digits, enough for every address. -/
def hexAddress (a : UInt32) : String := hexPadded 10 a.toNat

end GuestMemory.Text
