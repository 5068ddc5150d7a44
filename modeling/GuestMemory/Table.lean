/-!
Finite maps from numbers, kept as their entries in ascending order of key. Two tables with the
same entries are therefore the same value, and a walk over one visits the keys in order.
-/
namespace GuestMemory

/-- Ascending keys, each at most once. -/
def Ascending {α : Type} (entries : List (Nat × α)) : Prop := entries.Pairwise (fun a b => a.1 < b.1)

structure Table (α : Type) where
  entries : List (Nat × α)
  ascending : Ascending entries

namespace Table

variable {α : Type}

def empty : Table α := ⟨[], List.Pairwise.nil⟩

instance : EmptyCollection (Table α) := ⟨empty⟩

instance [DecidableEq α] : DecidableEq (Table α) := fun s t =>
  decidable_of_iff (s.entries = t.entries) (by cases s; cases t; simp)

theorem eq_of_entries {s t : Table α} (same : s.entries = t.entries) : s = t := by
  cases s
  cases t
  cases same
  rfl

def find? (t : Table α) (key : Nat) : Option α := t.entries.lookup key

def size (t : Table α) : Nat := t.entries.length

def keys (t : Table α) : List Nat := t.entries.map Prod.fst

def values (t : Table α) : List α := t.entries.map Prod.snd

/-! ### Insertion -/

/-- Places an entry in order, in the place of one with the same key. -/
def place (key : Nat) (value : α) : List (Nat × α) → List (Nat × α)
  | [] => [(key, value)]
  | entry :: rest =>
    if key < entry.1 then (key, value) :: entry :: rest
    else if key = entry.1 then (key, value) :: rest
    else entry :: place key value rest

theorem mem_place {key : Nat} {value : α} {x : Nat × α} {entries : List (Nat × α)} :
    x ∈ place key value entries → x = (key, value) ∨ x ∈ entries := by
  induction entries with
  | nil => simp [place]
  | cons entry rest ih =>
    rw [place]
    split
    · simp
    · split
      · simp only [List.mem_cons]
        exact Or.imp_right Or.inr
      · simp only [List.mem_cons]
        rintro (rfl | member)
        · exact Or.inr (Or.inl rfl)
        · exact (ih member).imp_right Or.inr

theorem ascending_place (key : Nat) (value : α) {entries : List (Nat × α)} (asc : Ascending entries) :
    Ascending (place key value entries) := by
  induction entries with
  | nil => exact List.pairwise_singleton ..
  | cons entry rest ih =>
    have ⟨below, tail⟩ := List.pairwise_cons.mp asc
    rw [place]
    split
    next before =>
      refine List.pairwise_cons.mpr ⟨fun x member => ?_, asc⟩
      rcases List.mem_cons.mp member with rfl | member
      · exact before
      · exact Nat.lt_trans before (below x member)
    next notBefore =>
      split
      next same => exact List.pairwise_cons.mpr ⟨fun x member => same ▸ below x member, tail⟩
      next different =>
        refine List.pairwise_cons.mpr ⟨fun x member => ?_, ih tail⟩
        rcases mem_place member with rfl | member
        · exact Nat.lt_of_le_of_ne (Nat.le_of_not_lt notBefore) (Ne.symm different)
        · exact below x member

def insert (t : Table α) (key : Nat) (value : α) : Table α :=
  ⟨place key value t.entries, ascending_place key value t.ascending⟩

theorem lookup_place (key : Nat) (value : α) (entries : List (Nat × α)) (k : Nat) :
    (place key value entries).lookup k = if k = key then some value else entries.lookup k := by
  induction entries with
  | nil => grind [place]
  | cons entry rest ih => grind [place]

@[simp] theorem find?_insert (t : Table α) (key : Nat) (value : α) (k : Nat) :
    (t.insert key value).find? k = if k = key then some value else t.find? k :=
  lookup_place key value t.entries k

/-! ### Restriction -/

/-- Keeps the entries that `keep` accepts. -/
def filter (t : Table α) (keep : Nat → α → Bool) : Table α :=
  ⟨t.entries.filter (fun entry => keep entry.1 entry.2), t.ascending.filter _⟩

def erase (t : Table α) (key : Nat) : Table α := t.filter (fun k _ => k != key)

theorem find?_empty (key : Nat) : (empty : Table α).find? key = none := rfl

theorem lookup_filter {entries : List (Nat × α)} (asc : Ascending entries) (keep : Nat → α → Bool) (k : Nat) :
    (entries.filter (fun entry => keep entry.1 entry.2)).lookup k =
      (entries.lookup k).filter (keep k) := by
  induction entries with
  | nil => rfl
  | cons entry rest ih =>
    obtain ⟨key, value⟩ := entry
    have ⟨below, tail⟩ := List.pairwise_cons.mp asc
    by_cases here : k = key
    · subst here
      have absent : rest.lookup k = none :=
        List.lookup_eq_none_iff.mpr fun x member => bne_iff_ne.mpr (Nat.ne_of_lt (below x member))
      cases kept : keep k value <;> simp [kept, ih tail, absent, Option.filter]
    · have skip : (k == key) = false := beq_false_of_ne here
      cases kept : keep key value <;> simp [List.lookup_cons, kept, skip, ih tail]

@[simp] theorem find?_filter (t : Table α) (keep : Nat → α → Bool) (k : Nat) :
    (t.filter keep).find? k = (t.find? k).filter (keep k) :=
  lookup_filter t.ascending keep k

theorem find?_eq_some_iff {t : Table α} {key : Nat} {value : α} :
    t.find? key = some value ↔ (key, value) ∈ t.entries := by
  obtain ⟨entries, asc⟩ := t
  constructor
  · intro found
    obtain ⟨before, after, same, _⟩ := List.lookup_eq_some_iff.mp found
    exact same ▸ List.mem_append_right before List.mem_cons_self
  · show (key, value) ∈ entries → entries.lookup key = some value
    intro member
    induction entries with
    | nil => cases member
    | cons first rest ih =>
      have ⟨below, tail⟩ := List.pairwise_cons.mp asc
      rcases List.mem_cons.mp member with rfl | later
      · exact List.lookup_cons_self
      · have skip : (key == first.1) = false := beq_false_of_ne (Nat.ne_of_gt (below (key, value) later))
        rw [List.lookup_cons, skip]
        exact ih tail later

theorem mem_values {t : Table α} {value : α} : value ∈ t.values ↔ ∃ key, t.find? key = some value := by
  simp [values, find?_eq_some_iff]

theorem mem_values_insert {t : Table α} {key : Nat} {value other : α}
    (member : other ∈ (t.insert key value).values) : other = value ∨ other ∈ t.values := by
  obtain ⟨k, found⟩ := mem_values.mp member
  rw [find?_insert] at found
  split at found
  · exact .inl (Option.some.inj found).symm
  · exact .inr (mem_values.mpr ⟨k, found⟩)

theorem mem_values_filter {t : Table α} {keep : Nat → α → Bool} {value : α}
    (member : value ∈ (t.filter keep).values) : value ∈ t.values := by
  obtain ⟨k, found⟩ := mem_values.mp member
  rw [find?_filter] at found
  exact mem_values.mpr ⟨k, (Option.filter_eq_some_iff.mp found).1⟩

/-- What a restriction keeps depends on how it decides about the entries there are. -/
theorem filter_congr {t : Table α} {keep keep' : Nat → α → Bool}
    (same : ∀ key value, t.find? key = some value → keep key value = keep' key value) :
    t.filter keep = t.filter keep' := by
  refine eq_of_entries (List.filter_congr fun entry member => ?_)
  exact same entry.1 entry.2 (find?_eq_some_iff.mpr member)

theorem filter_filter (t : Table α) (keep keep' : Nat → α → Bool) :
    (t.filter keep).filter keep' = t.filter fun key value => keep key value && keep' key value := by
  refine eq_of_entries (List.filter_filter.trans (List.filter_congr fun entry _ => ?_))
  exact Bool.and_comm _ _

/-! ### Mapping -/

/-- Changes the values and leaves the keys. -/
def map {β : Type} (t : Table α) (f : α → β) : Table β :=
  ⟨t.entries.map (Prod.map id f), List.pairwise_map.mpr t.ascending⟩

@[simp] theorem find?_map {β : Type} (t : Table α) (f : α → β) (k : Nat) :
    (t.map f).find? k = (t.find? k).map f := by
  obtain ⟨entries, asc⟩ := t
  simp only [find?, map]
  clear asc
  induction entries with
  | nil => rfl
  | cons entry rest ih =>
    obtain ⟨key, value⟩ := entry
    cases here : k == key <;> simp [List.lookup_cons, here, ih]

end Table

end GuestMemory
