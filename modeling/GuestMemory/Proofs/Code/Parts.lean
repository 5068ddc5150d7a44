import GuestMemory.Code.Tree

/-!
The parts of executable code: the subtrees of a compound, its leaves, and where they lie. A part
lies where its compound says, counted from the place of the compound's entry.
-/
namespace GuestMemory.CodeTree

variable {L : Type}

/-- The code itself and everything it is fused from. -/
def parts : CodeTree L → List (CodeTree L)
  | leaf unit => [leaf unit]
  | compound entry fallthrough target start displacement =>
    compound entry fallthrough target start displacement ::
      (entry.parts ++ fallthrough.parts ++ target.parts)

def leaves : CodeTree L → List L
  | leaf unit => [unit]
  | compound entry fallthrough target _ _ => entry.leaves ++ fallthrough.leaves ++ target.leaves

/-- The leaves of code that lies at `place`, each with the place where it lies itself. -/
def placed [CodeUnit L] : CodeTree L → Nat → List (Nat × L)
  | leaf unit, place => [(place, unit)]
  | compound entry fallthrough target _ displacement, place =>
    let behind := place + entry.byteLength.toNat
    entry.placed place ++ fallthrough.placed behind ++ target.placed (behind + displacement).toNat

/-- Every leaf has a place, in the same order. -/
theorem map_snd_placed [CodeUnit L] (code : CodeTree L) :
    ∀ place, (code.placed place).map Prod.snd = code.leaves := by
  induction code with
  | leaf unit => exact fun _ => rfl
  | compound entry fallthrough target _ _ entryHere left right =>
    intro place
    simp only [placed, leaves, List.map_append, entryHere, left, right]

/-- The code that lies at `place` and everything it is fused from, each with the place where it lies itself. -/
def placedParts [CodeUnit L] : CodeTree L → Nat → List (Nat × CodeTree L)
  | leaf unit, place => [(place, leaf unit)]
  | compound entry fallthrough target start displacement, place =>
    let behind := place + entry.byteLength.toNat
    (place, compound entry fallthrough target start displacement) ::
      (entry.placedParts place ++ fallthrough.placedParts behind ++
        target.placedParts (behind + displacement).toNat)

/-- So has every part. -/
theorem map_snd_placedParts [CodeUnit L] (code : CodeTree L) :
    ∀ place, (code.placedParts place).map Prod.snd = code.parts := by
  induction code with
  | leaf unit => exact fun _ => rfl
  | compound entry fallthrough target _ _ entryHere left right =>
    intro place
    simp only [placedParts, parts, List.map_cons, List.map_append, entryHere, left, right]

/-- The place that a compound gives for itself. -/
def start? : CodeTree L → Option UInt32
  | leaf _ => none
  | compound _ _ _ start _ => some start

/-- Compounds on top of one another, looking into entries too. -/
def height : CodeTree L → Nat
  | leaf _ => 0
  | compound entry fallthrough target _ _ =>
    max entry.height (max fallthrough.height target.height) + 1

end GuestMemory.CodeTree
