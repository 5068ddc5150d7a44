import GuestMemory.Proofs.Fusion.Projection
import GuestMemory.Proofs.Fusion.Shape

/-!
The resolutions that go on in a request. A resolver that notes every entry that it resolves, how deep, and what
came of it, gives the same code and leaves the same run as one that does not (`mirrors_resolve`). Its notes
tell what fusion did on the way, also where the code was thrown away again farther up: no entry is resolved
at the limit or deeper, the topmost apart, and every entry that has a leaf and stays one is a bailout
(`combine_noted`).
-/
namespace GuestMemory.Fusion

variable {S L : Type}

/-! ### Counts -/

/-- So many more events. -/
def countEvents (n events : Nat) : Nat := if events = 0 then n else min (n + events) maxWord64

theorem countEvents_of_le {n events : Nat} (room : n + events ≤ maxWord64) : countEvents n events = n + events := by
  rw [countEvents]
  split <;> omega

theorem countEvents_add (n events more : Nat) :
    countEvents n (events + more) = countEvents (countEvents n events) more := by
  simp only [countEvents]
  split_ifs <;> omega

/-- So many more bailouts. -/
def Stats.bailOuts (stats : Stats) (count : Nat) : Stats := { stats with bailouts := countEvents stats.bailouts count }

theorem Stats.bailOuts_add (stats : Stats) (count more : Nat) :
    stats.bailOuts (count + more) = (stats.bailOuts count).bailOuts more := by
  simp only [Stats.bailOuts, countEvents_add]

/-! ### Notes -/

/-- An entry that was resolved: how deep and where, the leaf that was compiled for it, and the answer. -/
structure Resolution (L : Type) where
  depth : UInt8
  start : Nat
  entry : Except CombineError (CodeTree L)
  answer : Except CombineError (CodeTree L)

namespace Resolution

def isFused (r : Resolution L) : Bool :=
  match r.answer with
  | .ok (.compound ..) => true
  | _ => false

/-- There was a leaf for the entry, and the answer is a leaf. -/
def isUnfused (r : Resolution L) : Bool :=
  match r.entry, r.answer with
  | .ok _, .ok (.leaf _) => true
  | _, _ => false

end Resolution

abbrev Notes (L : Type) := List (Resolution L)

/-- The same tools next to notes, which they leave alone. -/
def Toolchain.noted (t : Toolchain S L) : Toolchain (S × Notes L) L where
  decode cursor s :=
    let (result, stop, tools) := t.decode cursor s.1
    (result, stop, tools, s.2)
  compile decoded s :=
    let (result, tools) := t.compile decoded s.1
    (result, tools, s.2)

namespace Run

def notes (run : Run (S × Notes L)) : Notes L := run.tools.2

def forget (run : Run (S × Notes L)) : Run S := ⟨⟨run.tools.1, run.stats⟩, run.cursor, run.depth⟩

def withNotes (run : Run S) (notes : Notes L) : Run (S × Notes L) :=
  ⟨⟨(run.tools, notes), run.stats⟩, run.cursor, run.depth⟩

def note (run : Run (S × Notes L)) (r : Resolution L) : Run (S × Notes L) :=
  run.forget.withNotes (run.notes ++ [r])

end Run

/-- Notes what a resolver makes of an entry. -/
def noting (t : Toolchain S L) (resolver : Nat → Run (S × Notes L) → Attempt (S × Notes L) L) (start : Nat)
    (run : Run (S × Notes L)) : Attempt (S × Notes L) L :=
  let (answer, after) := resolver start run
  (answer, after.note ⟨run.depth, start, (run.compileLeaf t.noted start).1, answer⟩)

variable [CodeUnit L]

/-- Resolves an entry point as `resolve` does, and notes every entry that is resolved. -/
def resolveNoting (config : Config) (t : Toolchain S L) : Nat → Nat → Run (S × Notes L) → Attempt (S × Notes L) L
  | 0 => noting t fun start run => run.compileLeaf t.noted start
  | fuel + 1 =>
    noting t <| fuseOrLeaf config t.noted fun offset run =>
      if run.depth < config.maxDepth then resolveNoting config t fuel offset run
      else run.compileLeaf t.noted offset

/-- Resolves what a request asks for, with notes that begin empty. -/
def requestNoting (config : Config) (t : Toolchain S L) (cursor : Cursor) (progress : Progress S) :
    Attempt (S × Notes L) L :=
  let run : Run S := { progress with cursor }
  resolveNoting config t (config.maxDepth.toNat + 1) cursor.position (run.withNotes [])

/-- The entries that are resolved in a request, in the order in which they are done with. -/
def resolutions (config : Config) (t : Toolchain S L) (cursor : Cursor) (progress : Progress S) : Notes L :=
  if config.enabled then (requestNoting config t cursor progress).2.notes else []

/-! ### Forgetting the notes -/

omit [CodeUnit L] in
theorem build_noted (t : Toolchain S L) (start : Nat) (run : Run (S × Notes L)) :
    run.build t.noted start =
      ((run.forget.build t start).1, (run.forget.build t start).2.withNotes run.notes) := by
  simp only [Run.build, Run.forget]
  cases run.cursor.seek start with
  | error e => rfl
  | ok cursor =>
    rcases decodes : t.decode cursor run.tools.1 with ⟨result, stop, tools⟩
    cases result with
    | error e => simp only [Toolchain.noted, decodes]; rfl
    | ok decoded =>
      rcases compiles : t.compile decoded tools with ⟨result, last⟩
      cases result <;> simp only [Toolchain.noted, decodes, compiles] <;> rfl

/-- What is resolved does not depend on the notes, and neither does the run. -/
def Mirrors (noted : Nat → Run (S × Notes L) → Attempt (S × Notes L) L) (plain : Nat → Run S → Attempt S L) : Prop :=
  ∀ offset run, Prod.map id Run.forget (noted offset run) = plain offset run.forget

omit [CodeUnit L] in
theorem projects_noted (t : Toolchain S L) : Toolchain.Projects Prod.fst t.noted t := ⟨fun _ _ => rfl, fun _ _ => rfl⟩

omit [CodeUnit L] in
theorem mirrors_noting {t : Toolchain S L} {resolver : Nat → Run (S × Notes L) → Attempt (S × Notes L) L}
    {plain : Nat → Run S → Attempt S L} (mirrors : Mirrors resolver plain) : Mirrors (noting t resolver) plain := by
  intro start run
  rw [← mirrors start run]
  rfl

/-- Forgetting the notes gives what is resolved without any. -/
theorem mirrors_resolve (config : Config) (t : Toolchain S L) (fuel : Nat) :
    Mirrors (resolveNoting config t fuel) (resolve config t fuel) := by
  induction fuel with
  | zero => exact mirrors_noting (projects_compileLeaf (projects_noted t))
  | succ fuel ih =>
    have below := projects_limited (projects_noted t) config ih
    exact mirrors_noting (projects_fuseOrLeaf (projects_noted t) config below)

/-! ### What the notes tell -/

/-- The entry was resolved above the limit, which counts as one at least, and is what it was unless it was
    fused. -/
structure Resolution.Regular (config : Config) (r : Resolution L) : Prop where
  shallow : r.depth.toNat < max 1 config.maxDepth.toNat
  kept : r.isFused = false → r.answer = r.entry

omit [CodeUnit L] in
theorem Resolution.Regular.unfused_iff {config : Config} {r : Resolution L} (regular : r.Regular config) :
    r.isUnfused = true ↔ ∃ unit, r.entry = .ok (.leaf unit) ∧ r.answer = .ok (.leaf unit) := by
  obtain ⟨depth, start, entry, answer⟩ := r
  constructor
  · intro unfused
    rcases answer with e | ⟨unit⟩ | _
    · cases entry <;> cases unfused
    · exact ⟨unit, (regular.kept rfl).symm, rfl⟩
    · cases entry <;> cases unfused
  · rintro ⟨unit, rfl, rfl⟩
    rfl

/-- In between, these entries were resolved, and each that has a leaf and stayed one was counted. -/
structure Noted (config : Config) (before after : Run (S × Notes L)) (resolved : Notes L) : Prop where
  notes : after.notes = before.notes ++ resolved
  stats : after.stats = before.stats.bailOuts (resolved.countP Resolution.isUnfused)
  depth : after.depth = before.depth
  regular : ∀ r ∈ resolved, r.Regular config

section
variable {config : Config} {t : Toolchain S L} {deeper : Nat → Run (S × Notes L) → Attempt (S × Notes L) L}

omit [CodeUnit L]

theorem Noted.refl (run : Run (S × Notes L)) : Noted config run run [] where
  notes := (List.append_nil _).symm
  stats := rfl
  depth := rfl
  regular := List.forall_mem_nil _

theorem Noted.trans {first second third : Run (S × Notes L)} {here there : Notes L}
    (before : Noted config first second here) (after : Noted config second third there) :
    Noted config first third (here ++ there) where
  notes := by rw [after.notes, before.notes, List.append_assoc]
  stats := by rw [after.stats, before.stats, List.countP_append, Stats.bailOuts_add]
  depth := after.depth.trans before.depth
  regular r member := (List.mem_append.mp member).elim (before.regular r) (after.regular r)

theorem noted_build (t : Toolchain S L) (start : Nat) (run : Run (S × Notes L)) :
    Noted config run (run.build t.noted start).2 [] := by
  obtain ⟨position, built⟩ := Run.build_eq t start run.forget
  rw [build_noted, built]
  exact ⟨(List.append_nil _).symm, rfl, rfl, List.forall_mem_nil _⟩

theorem noted_compileLeaf (t : Toolchain S L) (start : Nat) (run : Run (S × Notes L)) :
    Noted config run (run.compileLeaf t.noted start).2 [] := by
  rw [Run.compileLeaf_eq]
  exact noted_build t start run

/-- What holds one level down holds here, where the depth is counted down again. -/
theorem Noted.ascend {run after : Run (S × Notes L)} {resolved : Notes L}
    (deeper : Noted config run.descend after resolved) : Noted config run after.ascend resolved where
  notes := deeper.notes
  stats := deeper.stats
  depth := by
    show after.depth - 1 = run.depth
    rw [deeper.depth]
    exact UInt8.add_sub_cancel run.depth 1
  regular := deeper.regular

/-- An entry that does not stay a leaf counts for nothing. -/
theorem Noted.note {run after : Run (S × Notes L)} {resolved : Notes L} (inner : Noted config run after resolved)
    {r : Resolution L} (regular : r.Regular config) (changed : r.isUnfused = false) :
    Noted config run (after.note r) (resolved ++ [r]) where
  notes := by rw [← List.append_assoc, ← inner.notes]; rfl
  stats := by
    rw [List.countP_append, List.countP_singleton, changed]
    exact inner.stats
  depth := inner.depth
  regular other member := (List.mem_append.mp member).elim (inner.regular other) fun last =>
    List.mem_singleton.mp last ▸ regular

/-- One that does is a bailout. -/
theorem Noted.note_bailOut {run after : Run (S × Notes L)} {resolved : Notes L}
    (inner : Noted config run after resolved) {r : Resolution L} (regular : r.Regular config)
    (unfused : r.isUnfused = true) : Noted config run (after.bailOut.note r) (resolved ++ [r]) where
  notes := by rw [← List.append_assoc, ← inner.notes]; rfl
  stats := by
    rw [List.countP_append, List.countP_singleton, unfused, if_pos rfl, Stats.bailOuts_add, ← inner.stats]
    rfl
  depth := inner.depth
  regular other member := (List.mem_append.mp member).elim (inner.regular other) fun last =>
    List.mem_singleton.mp last ▸ regular

/-- What is resolved at a depth is noted. -/
def NotesAt (config : Config) (depth : UInt8) (deeper : Nat → Run (S × Notes L) → Attempt (S × Notes L) L) : Prop :=
  ∀ offset run, run.depth = depth → ∃ resolved, Noted config run (deeper offset run).2 resolved

theorem noted_continuations {depth : UInt8} (noted : NotesAt config depth deeper) (j : Junction)
    {run : Run (S × Notes L)} (here : run.depth = depth) :
    ∃ resolved, Noted config run (continuations deeper j run).2 resolved := by
  rw [continuations]
  obtain ⟨left, first⟩ := noted j.fallthroughStart run here
  generalize deeper j.fallthroughStart run = attempt at first ⊢
  obtain ⟨result, between⟩ := attempt
  cases result with
  | error e => exact ⟨left, first⟩
  | ok fallthrough =>
    dsimp only at first ⊢
    obtain ⟨right, second⟩ := noted j.targetStart.toNat between (first.depth.trans here)
    generalize deeper j.targetStart.toNat between = attempt at second ⊢
    obtain ⟨result, after⟩ := attempt
    cases result <;> exact ⟨left ++ right, first.trans second⟩

end

section
variable {config : Config} {t : Toolchain S L} {deeper : Nat → Run (S × Notes L) → Attempt (S × Notes L) L}

theorem noted_fuse (run : Run (S × Notes L)) (noted : NotesAt config (run.depth + 1) deeper) (start : Nat)
    (decoded : Decoded) (entry : CodeTree L) :
    ∃ resolved, Noted config run (fuse config deeper start decoded entry run).2 resolved := by
  rw [fuse]
  cases plan config start decoded entry with
  | error bailout => exact ⟨[], .refl run⟩
  | ok j =>
    obtain ⟨resolved, both⟩ : ∃ resolved, Noted config run.descend (continuations deeper j run.descend).2 resolved :=
      noted_continuations noted j rfl
    dsimp only
    generalize continuations deeper j run.descend = attempt at both ⊢
    obtain ⟨result, after⟩ := attempt
    cases result <;> exact ⟨resolved, both.ascend⟩

/-- A fusion gives a compound or nothing. -/
theorem compound_of_fuse_eq_ok {run : Run S} {deeper : Nat → Run S → Attempt S L} {start : Nat} {decoded : Decoded}
    {entry code : CodeTree L} (fused : (fuse config deeper start decoded entry run).1 = .ok code) :
    ∃ fallthrough target s displacement, code = .compound entry fallthrough target s displacement := by
  obtain ⟨j, fallthrough, target, _, _, _, joins⟩ := fuse_eq_ok.mp fused
  obtain ⟨_, _, _, _, rfl⟩ := join_eq_ok.mp joins
  exact ⟨fallthrough, target, _, _, rfl⟩

/-- An entry is noted after everything that was resolved for it; it was counted as a bailout exactly if it has
    a leaf and stayed one. -/
theorem noted_noting (leaves : t.OnlyLeaves) {run : Run (S × Notes L)}
    (shallow : run.depth.toNat < max 1 config.maxDepth.toNat) (noted : NotesAt config (run.depth + 1) deeper)
    (start : Nat) :
    ∃ resolved, Noted config run (noting t (fuseOrLeaf config t.noted deeper) start run).2 resolved := by
  have here : Noted config run (run.build t.noted start).2 [] := noted_build t start run
  have result := Run.build_result t start run.forget
  rw [noting, fuseOrLeaf, Run.compileLeaf]
  rw [← congrArg Prod.fst (build_noted t start run)] at result
  generalize run.build t.noted start = attempt at here result ⊢
  obtain ⟨made, between⟩ := attempt
  dsimp only at here result ⊢
  cases made with
  | error e => exact ⟨[_], here.note ⟨shallow, fun _ => rfl⟩ rfl⟩
  | ok built =>
    obtain ⟨decoded, entry⟩ := built
    obtain ⟨unit, rfl⟩ := leaves.entryAt result.symm
    obtain ⟨resolved, inner⟩ := noted_fuse between (here.depth ▸ noted) start decoded (.leaf unit)
    have compound : ∀ code, (fuse config deeper start decoded (.leaf unit) between).1 = .ok code → _ :=
      fun code => compound_of_fuse_eq_ok
    have whole := here.trans inner
    dsimp only
    generalize fuse config deeper start decoded (.leaf unit) between = attempt at whole compound ⊢
    obtain ⟨result, after⟩ := attempt
    cases result with
    | error bailout => exact ⟨_, whole.note_bailOut ⟨shallow, fun _ => rfl⟩ rfl⟩
    | ok code =>
      obtain ⟨fallthrough, target, s, displacement, rfl⟩ := compound code rfl
      exact ⟨_, whole.note ⟨shallow, Bool.noConfusion⟩ rfl⟩

/-- Down to the limit, with enough fuel for the levels that are left. -/
theorem noted_resolve (leaves : t.OnlyLeaves) (fuel : Nat) :
    ∀ start (run : Run (S × Notes L)), run.depth.toNat < max 1 config.maxDepth.toNat →
      run.depth.toNat + fuel = config.maxDepth.toNat + 1 →
      ∃ resolved, Noted config run (resolveNoting config t fuel start run).2 resolved := by
  induction fuel with
  | zero =>
    intro start run shallow enough
    omega
  | succ fuel ih =>
    intro start run shallow enough
    refine noted_noting leaves shallow (fun offset later below => ?_) start
    have deep : later.depth.toNat = run.depth.toNat + 1 := below ▸ config.toNat_succ_depth shallow
    split
    · rename_i limited
      have bound := UInt8.lt_iff_toNat_lt.mp limited
      exact ih offset later (by omega) (by omega)
    · exact ⟨[], noted_compileLeaf t offset later⟩

end

/-! ### Requests -/

section
variable {config : Config} {t : Toolchain S L}

/-- A request is answered as if there were no notes. -/
theorem combine_of_enabled (enabled : config.enabled = true) (t : Toolchain S L) (cursor : Cursor)
    (progress : Progress S) :
    combine config t cursor progress =
      ((requestNoting config t cursor progress).1,
        { (requestNoting config t cursor progress).2.forget with
          stats := (requestNoting config t cursor progress).2.stats.record
            (requestNoting config t cursor progress).1 }) := by
  let run : Run S := { progress with cursor }
  have same : Prod.map id Run.forget (requestNoting config t cursor progress) =
      resolve config t (config.maxDepth.toNat + 1) cursor.position { progress with cursor } :=
    mirrors_resolve config t (config.maxDepth.toNat + 1) cursor.position (run.withNotes [])
  simp only [combine, enabled, if_true, ← same]
  rfl

theorem resolutions_of_disabled (disabled : config.enabled = false) (t : Toolchain S L) (cursor : Cursor)
    (progress : Progress S) : resolutions config t cursor progress = [] := by
  rw [resolutions, disabled, if_neg Bool.false_ne_true]

/-- The entry that was asked for is noted, with the answer to the request. -/
theorem exists_resolution_of_enabled (enabled : config.enabled = true) (t : Toolchain S L) (cursor : Cursor)
    (progress : Progress S) :
    ∃ r ∈ resolutions config t cursor progress, r.depth = 0 ∧ r.start = cursor.position ∧
      r.answer = (combine config t cursor progress).1 := by
  rw [resolutions, if_pos enabled, combine_of_enabled enabled]
  exact ⟨_, List.mem_append_right _ (List.mem_singleton_self _), rfl, rfl, rfl⟩

/-- The counters after a request. The notes say how many bailouts there were; the result counts once. -/
theorem combine_noted (leaves : t.OnlyLeaves) (cursor : Cursor) (progress : Progress S) :
    (combine config t cursor progress).2.stats =
      (progress.stats.bailOuts ((resolutions config t cursor progress).countP Resolution.isUnfused)).record
        (combine config t cursor progress).1 ∧
      ∀ r ∈ resolutions config t cursor progress, r.Regular config := by
  cases enabled : config.enabled with
  | false =>
    obtain ⟨position, built⟩ := Run.build_eq t cursor.position ({ progress with cursor } : Run S)
    rw [resolutions_of_disabled enabled, combine, enabled]
    simp only [Bool.false_eq_true, if_false, Run.compileLeaf_eq, built]
    exact ⟨rfl, List.forall_mem_nil _⟩
  | true =>
    let run : Run S := { progress with cursor }
    have top : run.depth.toNat < max 1 config.maxDepth.toNat := Nat.lt_of_lt_of_le Nat.one_pos (Nat.le_max_left ..)
    obtain ⟨resolved, noted⟩ := noted_resolve leaves (config.maxDepth.toNat + 1) cursor.position
      (run.withNotes []) top (Nat.zero_add _)
    have all : (requestNoting config t cursor progress).2.notes = resolved := noted.notes
    rw [resolutions, if_pos enabled, combine_of_enabled enabled, all]
    exact ⟨congrArg (Stats.record · _) noted.stats, noted.regular⟩

end

end GuestMemory.Fusion
