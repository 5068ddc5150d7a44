import GuestMemory.Fusion.Combine

/-!
Tools that keep more than they need. Where the results of a toolchain do not depend on a part of its state, a
request is resolved in the same way without that part (`projects_resolve`, `combine_of_projects`). Ghost
state, which only records what happened, can therefore be added to any tools.
-/
namespace GuestMemory.Fusion

variable {S S' L : Type}

/-- The same run, with less of the state of its tools. -/
def Run.mapTools (π : S' → S) (run : Run S') : Run S := ⟨⟨π run.tools, run.stats⟩, run.cursor, run.depth⟩

/-- What the tools do does not depend on what `π` leaves out. -/
structure Toolchain.Projects (π : S' → S) (t' : Toolchain S' L) (t : Toolchain S L) : Prop where
  decode : ∀ cursor s, Prod.map id (Prod.map id π) (t'.decode cursor s) = t.decode cursor (π s)
  compile : ∀ decoded s, Prod.map id π (t'.compile decoded s) = t.compile decoded (π s)

/-- Neither does what is resolved with them. -/
def Projects (π : S' → S) (deeper' : Nat → Run S' → Attempt S' L) (deeper : Nat → Run S → Attempt S L) : Prop :=
  ∀ offset run, Prod.map id (Run.mapTools π) (deeper' offset run) = deeper offset (run.mapTools π)

variable {π : S' → S} {t' : Toolchain S' L} {t : Toolchain S L} {deeper' : Nat → Run S' → Attempt S' L}
  {deeper : Nat → Run S → Attempt S L}

theorem Toolchain.Projects.build (tools : Toolchain.Projects π t' t) (start : Nat) (run : Run S') :
    Prod.map id (Run.mapTools π) (run.build t' start) = (run.mapTools π).build t start := by
  rw [Run.build, Run.build]
  have same : (run.mapTools π).cursor.seek start = run.cursor.seek start := rfl
  rw [same]
  cases run.cursor.seek start with
  | error e => rfl
  | ok cursor =>
    have decodes : Prod.map id (Prod.map id π) (t'.decode cursor run.tools) = t.decode cursor (run.mapTools π).tools :=
      tools.decode cursor run.tools
    dsimp only
    rw [← decodes]
    rcases t'.decode cursor run.tools with ⟨result, stop, between⟩
    cases result with
    | error e => rfl
    | ok decoded =>
      dsimp only [Prod.map_apply, id_eq]
      rw [← tools.compile]
      rcases t'.compile decoded between with ⟨result, after⟩
      cases result <;> rfl

theorem projects_compileLeaf (tools : Toolchain.Projects π t' t) :
    Projects π (fun start run => run.compileLeaf t' start) fun start run => run.compileLeaf t start := by
  intro start run
  dsimp only
  rw [Run.compileLeaf, Run.compileLeaf, ← tools.build]
  rcases run.build t' start with ⟨result, after⟩
  cases result <;> rfl

variable [CodeUnit L]

omit [CodeUnit L] in
theorem projects_continuations (projects : Projects π deeper' deeper) (j : Junction) (run : Run S') :
    Prod.map id (Run.mapTools π) (continuations deeper' j run) = continuations deeper j (run.mapTools π) := by
  rw [continuations, continuations, ← projects]
  rcases deeper' j.fallthroughStart run with ⟨result, between⟩
  cases result with
  | error e => rfl
  | ok fallthrough =>
    dsimp only [Prod.map_apply, id_eq]
    rw [← projects]
    rcases deeper' j.targetStart.toNat between with ⟨result, after⟩
    cases result <;> rfl

theorem projects_fuse (projects : Projects π deeper' deeper) (config : Config) (start : Nat) (decoded : Decoded)
    (entry : CodeTree L) (run : Run S') :
    Prod.map id (Run.mapTools π) (fuse config deeper' start decoded entry run) =
      fuse config deeper start decoded entry (run.mapTools π) := by
  rw [fuse, fuse]
  cases plan config start decoded entry with
  | error bailout => rfl
  | ok j =>
    have both := projects_continuations projects j run.descend
    dsimp only
    rw [show (run.mapTools π).descend = run.descend.mapTools π from rfl, ← both]
    rcases continuations deeper' j run.descend with ⟨result, after⟩
    cases result <;> rfl

theorem projects_fuseOrLeaf (tools : Toolchain.Projects π t' t) (config : Config) (projects : Projects π deeper' deeper) :
    Projects π (fuseOrLeaf config t' deeper') (fuseOrLeaf config t deeper) := by
  intro start run
  rw [fuseOrLeaf, fuseOrLeaf, ← tools.build]
  rcases run.build t' start with ⟨result, between⟩
  cases result with
  | error e => rfl
  | ok made =>
    obtain ⟨decoded, entry⟩ := made
    dsimp only [Prod.map_apply, id_eq]
    rw [← projects_fuse projects]
    rcases fuse config deeper' start decoded entry between with ⟨result, after⟩
    cases result <;> rfl

omit [CodeUnit L] in
theorem projects_limited (tools : Toolchain.Projects π t' t) (config : Config) (projects : Projects π deeper' deeper) :
    Projects π (fun offset run => if run.depth < config.maxDepth then deeper' offset run else run.compileLeaf t' offset)
      fun offset run => if run.depth < config.maxDepth then deeper offset run else run.compileLeaf t offset := by
  intro offset run
  have same : (run.mapTools π).depth = run.depth := rfl
  simp only [same]
  split
  · exact projects offset run
  · exact projects_compileLeaf tools offset run

theorem projects_resolve (tools : Toolchain.Projects π t' t) (config : Config) (fuel : Nat) :
    Projects π (resolve config t' fuel) (resolve config t fuel) := by
  induction fuel with
  | zero => exact projects_compileLeaf tools
  | succ fuel ih => exact projects_fuseOrLeaf tools config (projects_limited tools config ih)

/-! ### Requests -/

/-- What is left of an attempt at a request: its result is counted. -/
def recorded (attempt : Attempt S L) : Attempt S L :=
  (attempt.1, { attempt.2 with stats := attempt.2.stats.record attempt.1 })

theorem combine_eq_recorded (config : Config) (t : Toolchain S L) (cursor : Cursor) (progress : Progress S) :
    combine config t cursor progress = recorded
      (if config.enabled then resolve config t (config.maxDepth.toNat + 1) cursor.position { progress with cursor }
        else Run.compileLeaf t cursor.position { progress with cursor }) := rfl

/-- A request is answered in the same way, and leaves the same run. -/
theorem combine_of_projects (tools : Toolchain.Projects π t' t) (config : Config) (cursor : Cursor)
    (progress : Progress S') :
    Prod.map id (Run.mapTools π) (combine config t' cursor progress) =
      combine config t cursor ⟨π progress.tools, progress.stats⟩ := by
  rw [combine_eq_recorded, combine_eq_recorded]
  cases config.enabled with
  | false => exact congrArg recorded (projects_compileLeaf tools cursor.position { progress with cursor })
  | true =>
    exact congrArg recorded
      (projects_resolve tools config (config.maxDepth.toNat + 1) cursor.position { progress with cursor })

end GuestMemory.Fusion
