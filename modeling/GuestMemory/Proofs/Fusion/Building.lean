import GuestMemory.Fusion.Combine

/-!
Building code over a window. What is built at an offset depends on the window and on the state of
the tools and on nothing else of the run (`build_result`), and all that building changes in a run
is that state and the place where the cursor stopped (`build_follows`). A request builds everything
with tools that its own earlier parts left behind (`Reaches`), fuses at the depth it started at, and
never leaves its window (`resolve_follows`).
-/
namespace GuestMemory.Fusion

variable {S L : Type}

/-- Whatever was made is a leaf. -/
def Single (made : Nat → Decoded → CodeTree L → Prop) : Prop :=
  ∀ p decoded entry, made p decoded entry → ∃ unit, entry = .leaf unit

namespace Toolchain

/-- The run that begins over a window with tools in a given state. -/
def runOver (window : Contents) (s : S) : Run S := { tools := s, cursor := .ofWindow window }

/-- What the tools, in state `s`, make of the bytes of a window from `start` on. -/
def entryAt (t : Toolchain S L) (window : Contents) (start : Nat) (s : S) :
    Except CombineError (Decoded × CodeTree L) :=
  ((runOver window s).build t start).1

/-- The state of the tools after that. -/
def toolsAfter (t : Toolchain S L) (window : Contents) (start : Nat) (s : S) : S :=
  ((runOver window s).build t start).2.tools

/-- The states into which building over a window can bring the tools. -/
inductive Reaches (t : Toolchain S L) (window : Contents) (s : S) : S → Prop
  | refl : Reaches t window s s
  | built {s' : S} (start : Nat) (before : Reaches t window s s') :
      Reaches t window s (t.toolsAfter window start s')

/-- Decoder and compiler keep no state that shows in their results. -/
structure Stateless (t : Toolchain S L) : Prop where
  decode : ∀ cursor s s', (t.decode cursor s).1 = (t.decode cursor s').1
  compile : ∀ decoded s s', (t.compile decoded s).1 = (t.compile decoded s').1

/-- Compounds come from fusion only. -/
def OnlyLeaves (t : Toolchain S L) : Prop :=
  ∀ decoded s code, (t.compile decoded s).1 = .ok code → ∃ unit, code = .leaf unit

/-- Some tools that the request in progress can have are the ones that built `code`. -/
def Makes (t : Toolchain S L) (window : Contents) (s : S) (start : Nat) (decoded : Decoded)
    (code : CodeTree L) : Prop :=
  ∃ s', t.Reaches window s s' ∧ t.entryAt window start s' = .ok (decoded, code)

variable {t : Toolchain S L} {window : Contents}

theorem Reaches.trans {s s' s'' : S} (first : t.Reaches window s s') (second : t.Reaches window s' s'') :
    t.Reaches window s s'' := by
  induction second with
  | refl => exact first
  | built start _ ih => exact .built start ih

theorem entryAt_eq_ok {start : Nat} {s : S} {decoded : Decoded} {code : CodeTree L} :
    t.entryAt window start s = .ok (decoded, code) ↔
      start ≤ window.size ∧ (t.decode ⟨window, start⟩ s).1 = .ok decoded ∧
        (t.compile decoded (t.decode ⟨window, start⟩ s).2.2).1 = .ok code := by
  simp only [entryAt, runOver, Run.build, Cursor.seek, Cursor.size, Cursor.ofWindow]
  by_cases inside : start ≤ window.size
  · simp only [inside, if_true, true_and]
    obtain ⟨result, stop, after⟩ := t.decode ⟨window, start⟩ s
    cases result with
    | error e => simp
    | ok found =>
      rcases compiled : t.compile found after with ⟨result, final⟩
      simp only [compiled, Except.ok.injEq]
      constructor
      · intro built
        cases result with
        | error e => cases built
        | ok block =>
          cases built
          exact ⟨rfl, by rw [compiled]⟩
      · rintro ⟨rfl, made⟩
        rw [compiled] at made
        subst made
        rfl
  · simp [inside]

theorem OnlyLeaves.entryAt (leaves : t.OnlyLeaves) {start : Nat} {s : S} {decoded : Decoded}
    {code : CodeTree L} (built : t.entryAt window start s = .ok (decoded, code)) :
    ∃ unit, code = .leaf unit :=
  leaves decoded _ code (entryAt_eq_ok.mp built).2.2

theorem OnlyLeaves.single (leaves : t.OnlyLeaves) (window : Contents) (s : S) : Single (t.Makes window s) := by
  rintro p decoded entry ⟨s', _, built⟩
  exact leaves.entryAt built

/-- Tools without a state of their own make the same of an entry, or fail on it in the same way, in whatever
    state they are. -/
theorem Stateless.entryAt_congr (pure : t.Stateless) (window : Contents) (start : Nat) (s s' : S) :
    t.entryAt window start s = t.entryAt window start s' := by
  simp only [entryAt, runOver, Run.build, Cursor.seek, Cursor.size, Cursor.ofWindow]
  by_cases inside : start ≤ window.size
  · simp only [inside, if_true]
    have decodes := pure.decode ⟨window, start⟩ s s'
    rcases here : t.decode ⟨window, start⟩ s with ⟨result, stop, after⟩
    rcases there : t.decode ⟨window, start⟩ s' with ⟨result', stop', after'⟩
    rw [here, there] at decodes
    obtain rfl : result = result' := decodes
    cases result with
    | error e => rfl
    | ok decoded =>
      have compiles := pure.compile decoded after after'
      dsimp only
      rcases here : t.compile decoded after with ⟨result, final⟩
      rcases there : t.compile decoded after' with ⟨result', final'⟩
      rw [here, there] at compiles
      obtain rfl : result = result' := compiles
      cases result <;> rfl
  · simp only [inside, if_false]

end Toolchain

/-! ### Runs -/

/-- Below the limit, which counts as one at least, there is room for one level more. -/
theorem Config.toNat_succ_depth (config : Config) {depth : UInt8} (shallow : depth.toNat < max 1 config.maxDepth.toNat) :
    (depth + 1).toNat = depth.toNat + 1 := by
  have limit := config.maxDepth.toNat_lt
  rw [UInt8.toNat_add]
  exact Nat.mod_eq_of_lt (by simp; omega)

/-- There is always a first level. -/
theorem Config.exists_levels (config : Config) : ∃ levels, max 1 config.maxDepth.toNat = levels + 1 :=
  ⟨max 1 config.maxDepth.toNat - 1, by omega⟩

namespace Run

/-- `after` comes from `before` by building code over the same window, at the same depth. -/
structure Follows (t : Toolchain S L) (before after : Run S) : Prop where
  window : after.cursor.window = before.cursor.window
  depth : after.depth = before.depth
  tools : t.Reaches before.cursor.window before.tools after.tools

variable {t : Toolchain S L}

theorem Follows.refl (run : Run S) : run.Follows t run := ⟨rfl, rfl, .refl⟩

theorem Follows.trans {first second third : Run S} (here : first.Follows t second)
    (there : second.Follows t third) : first.Follows t third where
  window := there.window.trans here.window
  depth := there.depth.trans here.depth
  tools := here.tools.trans (here.window ▸ there.tools)

/-- What can be built later on in a run can be built in the course of it. -/
theorem Follows.makes {before after : Run S} (follows : before.Follows t after) {start : Nat}
    {decoded : Decoded} {code : CodeTree L}
    (made : t.Makes after.cursor.window after.tools start decoded code) :
    t.Makes before.cursor.window before.tools start decoded code := by
  rw [follows.window] at made
  obtain ⟨s, reached, built⟩ := made
  exact ⟨s, follows.tools.trans reached, built⟩

theorem follows_bailOut (run : Run S) : run.Follows t run.bailOut := ⟨rfl, rfl, .refl⟩

theorem follows_descend {run after : Run S} (follows : run.Follows t after) :
    run.descend.Follows t after.descend where
  window := follows.window
  depth := congrArg (· + 1) follows.depth
  tools := follows.tools

/-- Going one level down and up again leaves the depth where it was, even where the count wraps. -/
theorem follows_ascend {run after : Run S} (deeper : run.descend.Follows t after) :
    run.Follows t after.ascend where
  window := deeper.window
  depth := by
    show after.depth - 1 = run.depth
    rw [deeper.depth]
    exact UInt8.add_sub_cancel run.depth 1
  tools := deeper.tools

/-- Of the run, building changes the state of the tools and the position of the cursor. -/
theorem build_eq (t : Toolchain S L) (start : Nat) (run : Run S) :
    ∃ position, run.build t start =
      (t.entryAt run.cursor.window start run.tools,
        { run with
          tools := t.toolsAfter run.cursor.window start run.tools
          cursor := { run.cursor with position } }) := by
  simp only [Toolchain.entryAt, Toolchain.toolsAfter, Toolchain.runOver, build, Cursor.seek, Cursor.size,
    Cursor.ofWindow]
  by_cases inside : start ≤ run.cursor.window.size
  · simp only [inside, if_true]
    obtain ⟨result, stop, after⟩ := t.decode ⟨run.cursor.window, start⟩ run.tools
    cases result with
    | error e => exact ⟨_, rfl⟩
    | ok decoded =>
      dsimp only
      obtain ⟨result, final⟩ := t.compile decoded after
      cases result <;> exact ⟨_, rfl⟩
  · simp only [inside, if_false]
    exact ⟨run.cursor.position, rfl⟩

theorem build_result (t : Toolchain S L) (start : Nat) (run : Run S) :
    (run.build t start).1 = t.entryAt run.cursor.window start run.tools := by
  obtain ⟨_, built⟩ := build_eq t start run
  rw [built]

theorem build_follows (t : Toolchain S L) (start : Nat) (run : Run S) :
    run.Follows t (run.build t start).2 := by
  obtain ⟨_, built⟩ := build_eq t start run
  rw [built]
  exact ⟨rfl, rfl, .built start .refl⟩

theorem compileLeaf_eq (t : Toolchain S L) (start : Nat) (run : Run S) :
    run.compileLeaf t start =
      ((t.entryAt run.cursor.window start run.tools).map Prod.snd, (run.build t start).2) := by
  rw [← build_result, compileLeaf]
  rcases run.build t start with ⟨result, after⟩
  cases result <;> rfl

end Run

/-! ### Resolvers -/

variable {t : Toolchain S L} {deeper : Nat → Run S → Attempt S L}

/-- What is resolved one level deeper follows the run that asks for it. -/
def Orderly (t : Toolchain S L) (deeper : Nat → Run S → Attempt S L) : Prop :=
  ∀ (start : Nat) (run : Run S), run.Follows t (deeper start run).2

theorem orderly_compileLeaf (t : Toolchain S L) : Orderly t fun start run => run.compileLeaf t start := by
  intro start run
  dsimp only
  rw [Run.compileLeaf_eq]
  exact Run.build_follows t start run

theorem follows_continuations (orderly : Orderly t deeper) (j : Junction) (run : Run S) :
    run.Follows t (continuations deeper j run).2 := by
  rw [continuations]
  have first := orderly j.fallthroughStart run
  generalize deeper j.fallthroughStart run = attempt at first ⊢
  obtain ⟨result, between⟩ := attempt
  cases result with
  | error e => exact first
  | ok fallthrough =>
    dsimp only
    have second := orderly j.targetStart.toNat between
    generalize deeper j.targetStart.toNat between = attempt at second ⊢
    obtain ⟨result, after⟩ := attempt
    cases result <;> exact first.trans second

/-- Resolves a continuation: at the limit it is compiled as it is, and below it is fused. -/
theorem orderly_limited (config : Config) (orderly : Orderly t deeper) :
    Orderly t fun offset run =>
      if run.depth < config.maxDepth then deeper offset run else run.compileLeaf t offset := by
  intro offset run
  dsimp only
  split
  · exact orderly offset run
  · exact orderly_compileLeaf t offset run

end GuestMemory.Fusion
