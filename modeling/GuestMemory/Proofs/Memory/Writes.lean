import GuestMemory.Proofs.Memory.Cells

/-!
What holds of writes of any length. A write goes to memory in pieces: a run of bytes that one block
takes, or a single byte that no block takes. What is true of such pieces, and of two writes one after
the other if it is true of each, is true of every write (`WriteRule`).
-/
namespace GuestMemory.Arena

variable {L : Type} [CodeUnit L]

/-- A relation between the arenas before and after the bytes were written from an address on, which
    single blocks decide. -/
structure WriteRule (d : Directory) (W : Address → List UInt8 → Arena L → Arena L → Prop) : Prop where
  nil : ∀ a arena, W a [] arena arena
  append : ∀ {a bytes later first second third}, W a bytes first second →
    W (a + UInt32.ofNat bytes.length) later second third → W a (bytes ++ later) first third
  accepted : ∀ {a bytes arena after}, bytes ≠ [] → a.blockOffset + bytes.length ≤ blockSize →
    arena.writeWithin d a bytes = some after → W a bytes arena after
  dropped : ∀ {a b arena}, arena.writeWithin d a [b] = none → W a [b] arena arena

namespace WriteRule

variable {d : Directory} {W : Address → List UInt8 → Arena L → Arena L → Prop} (rule : WriteRule d W)
include rule

theorem storeByte (arena : Arena L) (a : Address) (b : UInt8) : W a [b] arena (arena.storeByte d a b) := by
  rw [Arena.storeByte]
  cases accepted : arena.writeWithin d a [b] with
  | none => exact rule.dropped accepted
  | some after => exact rule.accepted (List.cons_ne_nil b []) a.blockOffset_lt accepted

theorem scatter (bytes : List UInt8) :
    ∀ (arena : Arena L) (a : Address), W a bytes arena (arena.scatter d a bytes) := by
  induction bytes with
  | nil => exact fun arena a => rule.nil a arena
  | cons b rest ih => exact fun arena a => rule.append (rule.storeByte arena a b) (ih _ (a + 1))

/-- A write that a single block takes must not run past the addresses of that block. -/
theorem store {arena : Arena L} {a : Address} {bytes : List UInt8} (nonempty : bytes ≠ [])
    (inside : ∀ after, arena.writeWithin d a bytes = some after → a.blockOffset + bytes.length ≤ blockSize) :
    W a bytes arena (arena.store d a bytes) := by
  rw [Arena.store]
  cases accepted : arena.writeWithin d a bytes with
  | none => exact rule.scatter bytes arena a
  | some after => exact rule.accepted nonempty (inside after accepted) accepted

theorem copyIn (a : Address) (bytes : List UInt8) (arena : Arena L) : W a bytes arena (arena.copyIn d a bytes) := by
  fun_induction Arena.copyIn d a bytes arena with
  | case1 a arena => exact rule.nil a arena
  | case2 a arena b rest bytes ih =>
    have more : bytes.take a.bytesToBlockEnd ≠ [] := by
      have room := a.bytesToBlockEnd_pos
      simp only [ne_eq, List.take_eq_nil_iff, bytes, reduceCtorEq, or_false]
      omega
    have here : W a (bytes.take a.bytesToBlockEnd) arena _ := rule.store more fun _ _ => by
      have bound := a.blockOffset_lt
      rw [List.length_take, Address.bytesToBlockEnd]
      omega
    by_cases long : a.bytesToBlockEnd ≤ bytes.length
    · have next : a.nextBlock = a + UInt32.ofNat (bytes.take a.bytesToBlockEnd).length := by
        rw [List.length_take_of_le long, Address.nextBlock]
      rw [next] at ih ⊢
      simpa only [List.take_append_drop] using rule.append here ih
    · have whole : bytes.take a.bytesToBlockEnd = bytes := List.take_of_length_le (Nat.le_of_not_le long)
      have nothing : bytes.drop a.bytesToBlockEnd = [] := List.drop_of_length_le (Nat.le_of_not_le long)
      rw [whole] at here ⊢
      rw [nothing, Arena.copyIn]
      exact here

end WriteRule

end GuestMemory.Arena
