import GuestMemory.Proofs.Fusion.Resolutions
import GuestMemory.Proofs.Fusion.Toy
import Mathlib.Algebra.Group.Nat.Defs
import Mathlib.Logic.Function.Iterate

/-!
The work of a request. Nothing is ever asked of what lies as many levels down as the limit allows, whatever stands
there (`combine_levels`); so the recursion comes to an end, also where branches lead back to themselves and
the same offset is resolved over and over. Each level at most doubles what is spent, and takes one entry more:
a request makes fewer than two to the number of the levels plus one calls of the decoder, no more of the compiler,
and has fewer than two to the number of the levels bailouts (`combine_effort`).
-/
namespace GuestMemory.Fusion

variable {S L : Type}

/-! ### Levels -/

section
variable [CodeUnit L] {config : Config} {t : Toolchain S L} {deeper deeper' : Nat → Run S → Attempt S L}

/-- One level of fusion. What is one level deeper is asked for the continuations, except at the limit. -/
def level (config : Config) (t : Toolchain S L) (deeper : Nat → Run S → Attempt S L) : Nat → Run S → Attempt S L :=
  fuseOrLeaf config t fun offset run =>
    if run.depth < config.maxDepth then deeper offset run else run.compileLeaf t offset

theorem resolve_add (config : Config) (t : Toolchain S L) (levels fuel : Nat) :
    resolve config t (levels + fuel) = (level config t)^[levels] (resolve config t fuel) := by
  induction levels with
  | zero => rw [Nat.zero_add, Function.iterate_zero_apply]
  | succ levels ih =>
    rw [Function.iterate_succ_apply', ← ih, Nat.add_right_comm]
    rfl

omit [CodeUnit L] in
theorem continuations_congr (orderly : Orderly t deeper') (j : Junction) {run : Run S}
    (agree : ∀ offset later, later.depth = run.depth → deeper offset later = deeper' offset later) :
    continuations deeper j run = continuations deeper' j run := by
  rw [continuations, continuations, agree _ run rfl]
  have kept := (orderly j.fallthroughStart run).depth
  generalize deeper' j.fallthroughStart run = attempt at kept ⊢
  obtain ⟨result, between⟩ := attempt
  cases result with
  | error e => rfl
  | ok fallthrough =>
    dsimp only
    rw [agree _ between kept]

theorem fuseOrLeaf_congr (orderly : Orderly t deeper') (config : Config) (start : Nat) {run : Run S}
    (agree : ∀ offset later, later.depth = run.depth + 1 → deeper offset later = deeper' offset later) :
    fuseOrLeaf config t deeper start run = fuseOrLeaf config t deeper' start run := by
  rw [fuseOrLeaf, fuseOrLeaf]
  have kept := (Run.build_follows t start run).depth
  generalize run.build t start = attempt at kept ⊢
  obtain ⟨result, between⟩ := attempt
  cases result with
  | error e => rfl
  | ok built =>
    obtain ⟨decoded, entry⟩ := built
    have both : ∀ j, continuations deeper j between.descend = continuations deeper' j between.descend := fun j =>
      continuations_congr orderly j fun offset later below => agree offset later (below.trans (congrArg (· + 1) kept))
    dsimp only
    simp only [fuse, both]

/-- At the last level that the limit allows nothing is asked of what is deeper. -/
theorem iterate_level (config : Config) (t : Toolchain S L) (deepest : Nat → Run S → Attempt S L) (levels : Nat) :
    ∀ start (run : Run S), run.depth.toNat + (levels + 1) = max 1 config.maxDepth.toNat →
      (level config t)^[levels + 1] deepest start run = resolve config t (levels + 1) start run := by
  induction levels with
  | zero =>
    intro start run last
    refine fuseOrLeaf_congr (orderly_limited config (orderly_compileLeaf t)) config start fun offset later below => ?_
    have deep : later.depth.toNat = run.depth.toNat + 1 := below ▸ config.toNat_succ_depth (by omega)
    have limit : ¬ later.depth < config.maxDepth := fun shallow => by
      have bound := UInt8.lt_iff_toNat_lt.mp shallow
      omega
    -- The two differ below the limit only.
    rw [if_neg limit]
    exact (if_neg limit).symm
  | succ levels ih =>
    intro start run left
    rw [Function.iterate_succ_apply']
    refine fuseOrLeaf_congr (orderly_limited config (orderly_resolve config t _)) config start
      fun offset later below => ?_
    have deep : later.depth.toNat = run.depth.toNat + 1 := below ▸ config.toNat_succ_depth (by omega)
    rw [ih offset later (by omega)]

/-- A request is settled that many levels down, whatever might come after them. -/
theorem combine_levels (enabled : config.enabled = true) (t : Toolchain S L) (deepest : Nat → Run S → Attempt S L)
    (cursor : Cursor) (progress : Progress S) :
    combine config t cursor progress =
      recorded ((level config t)^[max 1 config.maxDepth.toNat] deepest cursor.position { progress with cursor }) := by
  obtain ⟨levels, count⟩ := config.exists_levels
  obtain ⟨fuel, enough⟩ : ∃ fuel, config.maxDepth.toNat + 1 = levels + 1 + fuel :=
    ⟨config.maxDepth.toNat - levels, by omega⟩
  have top : (0 : UInt8).toNat + (levels + 1) = max 1 config.maxDepth.toNat := (Nat.zero_add _).trans count.symm
  rw [combine_eq_recorded, if_pos enabled, count, enough, resolve_add]
  exact congrArg recorded ((iterate_level config t _ levels cursor.position { progress with cursor } top).trans
    (iterate_level config t deepest levels cursor.position { progress with cursor } top).symm)

theorem combine_eq_resolve (enabled : config.enabled = true) (t : Toolchain S L) (cursor : Cursor)
    (progress : Progress S) :
    combine config t cursor progress =
      recorded (resolve config t (max 1 config.maxDepth.toNat) cursor.position { progress with cursor }) := by
  rw [combine_levels enabled t (resolve config t 0), ← resolve_add, Nat.add_zero]

/-- So whatever resolves entries level by level, without a bound on the levels, answers requests in the same way. -/
theorem combine_of_unfolds (enabled : config.enabled = true) {resolver : Nat → Run S → Attempt S L}
    (unfolds : level config t resolver = resolver) (cursor : Cursor) (progress : Progress S) :
    combine config t cursor progress = recorded (resolver cursor.position { progress with cursor }) := by
  rw [combine_levels enabled t resolver, Function.iterate_fixed unfolds]

end

/-! ### Calls -/

/-- A call of the decoder or of the compiler. -/
inductive ToolCall where
  | decode (cursor : Cursor)
  | compile (decoded : Decoded)
  deriving DecidableEq

namespace ToolCall

def isDecode : ToolCall → Bool
  | decode _ => true
  | compile _ => false

def isCompile : ToolCall → Bool
  | decode _ => false
  | compile _ => true

end ToolCall

/-- The same tools next to a list of the calls they got. -/
def Toolchain.logged (t : Toolchain S L) : Toolchain (S × List ToolCall) L where
  decode cursor s :=
    let (result, stop, tools) := t.decode cursor s.1
    (result, stop, tools, s.2 ++ [.decode cursor])
  compile decoded s :=
    let (result, tools) := t.compile decoded s.1
    (result, tools, s.2 ++ [.compile decoded])

theorem projects_logged (t : Toolchain S L) : Toolchain.Projects Prod.fst t.logged t := ⟨fun _ _ => rfl, fun _ _ => rfl⟩

/-- Between the two runs at most that many calls of the decoder were made, and no more of the compiler than of the
    decoder, and there were at most that many bailouts. -/
structure Spent (decodes bailouts : Nat) (before after : Run (S × List ToolCall)) : Prop where
  calls : ∃ calls, after.tools.2 = before.tools.2 ++ calls ∧ calls.countP ToolCall.isDecode ≤ decodes ∧
    calls.countP ToolCall.isCompile ≤ calls.countP ToolCall.isDecode
  stats : ∃ count ≤ bailouts, after.stats = before.stats.bailOuts count

namespace Spent

variable {decodes bailouts more later : Nat} {before between after : Run (S × List ToolCall)}

theorem refl (run : Run (S × List ToolCall)) : Spent 0 0 run run :=
  ⟨⟨[], (List.append_nil _).symm, Nat.le_refl _, Nat.le_refl _⟩, 0, Nat.le_refl _, rfl⟩

theorem trans (here : Spent decodes bailouts before between) (there : Spent more later between after) :
    Spent (decodes + more) (bailouts + later) before after := by
  obtain ⟨⟨calls, log, few, fewer⟩, count, low, stats⟩ := here
  obtain ⟨⟨calls', log', few', fewer'⟩, count', low', stats'⟩ := there
  refine ⟨⟨calls ++ calls', ?_, ?_, ?_⟩, count + count', Nat.add_le_add low low', ?_⟩
  · rw [log', log, List.append_assoc]
  · rw [List.countP_append]
    exact Nat.add_le_add few few'
  · rw [List.countP_append, List.countP_append]
    exact Nat.add_le_add fewer fewer'
  · rw [stats', stats, Stats.bailOuts_add]

theorem mono (spent : Spent decodes bailouts before after) (enough : decodes ≤ more) (room : bailouts ≤ later) :
    Spent more later before after := by
  obtain ⟨⟨calls, log, few, fewer⟩, count, low, stats⟩ := spent
  exact ⟨⟨calls, log, Nat.le_trans few enough, fewer⟩, count, Nat.le_trans low room, stats⟩

/-- The counter of the depth is neither here nor there. -/
theorem ascend (spent : Spent decodes bailouts before.descend after) : Spent decodes bailouts before after.ascend :=
  ⟨spent.calls, spent.stats⟩

theorem bailOut (spent : Spent decodes bailouts before after) : Spent decodes (bailouts + 1) before after.bailOut := by
  refine ⟨spent.calls, ?_⟩
  obtain ⟨count, low, stats⟩ := spent.stats
  refine ⟨count + 1, Nat.succ_le_succ low, ?_⟩
  rw [Stats.bailOuts_add, ← stats]
  rfl

end Spent

/-- The first call between the two runs, if there was any, was that of the decoder at the cursor. -/
def Begins (cursor : Cursor) (before after : Run (S × List ToolCall)) : Prop :=
  after.tools.2 = before.tools.2 ∨ ∃ rest, after.tools.2 = before.tools.2 ++ .decode cursor :: rest

/-- An entry costs one call of the decoder, at its start, and one of the compiler after that. Past the end of the window
    there is no call, and no entry. -/
theorem spent_build (t : Toolchain S L) (start : Nat) (run : Run (S × List ToolCall)) :
    Spent 1 0 run (run.build t.logged start).2 ∧
      ((run.build t.logged start).2.tools.2 = run.tools.2 ∧ (∃ e, (run.build t.logged start).1 = .error e) ∨
        ∃ rest, (run.build t.logged start).2.tools.2 = run.tools.2 ++ .decode ⟨run.cursor.window, start⟩ :: rest) := by
  have same : run.stats = run.stats.bailOuts 0 := rfl
  rw [Run.build, Cursor.seek]
  by_cases inside : start ≤ run.cursor.size
  · rw [if_pos inside]
    rcases decodes : t.decode { run.cursor with position := start } run.tools.1 with ⟨result, stop, between⟩
    cases result with
    | error e =>
      simp only [Toolchain.logged, decodes]
      exact ⟨⟨⟨_, rfl, Nat.le_refl _, Nat.zero_le _⟩, 0, Nat.le_refl _, same⟩, .inr ⟨[], rfl⟩⟩
    | ok decoded =>
      rcases compiles : t.compile decoded between with ⟨result, after⟩
      have two : ∀ calls : List ToolCall, calls ++ [.decode { run.cursor with position := start }] ++ [.compile decoded] =
          calls ++ [.decode { run.cursor with position := start }, .compile decoded] := by simp
      cases result <;> simp only [Toolchain.logged, decodes, compiles] <;>
        exact ⟨⟨⟨_, two _, Nat.le_refl _, Nat.le_refl _⟩, 0, Nat.le_refl _, same⟩, .inr ⟨_, two _⟩⟩
  · rw [if_neg inside]
    exact ⟨(Spent.refl run).mono (Nat.zero_le _) (Nat.le_refl _), .inl ⟨rfl, _, rfl⟩⟩

/-- What is resolved costs that much at most, and begins with the entry that is asked for. -/
def Affordable (decodes bailouts : Nat) (deeper : Nat → Run (S × List ToolCall) → Attempt (S × List ToolCall) L) : Prop :=
  ∀ offset run, Spent decodes bailouts run (deeper offset run).2 ∧
    Begins ⟨run.cursor.window, offset⟩ run (deeper offset run).2

section
variable {t : Toolchain S L} {deeper : Nat → Run (S × List ToolCall) → Attempt (S × List ToolCall) L}
  {decodes bailouts : Nat}

theorem affordable_compileLeaf (t : Toolchain S L) : Affordable 1 0 fun start run => run.compileLeaf t.logged start := by
  intro start run
  dsimp only
  rw [Run.compileLeaf_eq]
  exact (spent_build t start run).imp_right fun first => first.imp_left And.left

theorem spent_continuations (affordable : Affordable decodes bailouts deeper) (j : Junction)
    (run : Run (S × List ToolCall)) :
    Spent (decodes + decodes) (bailouts + bailouts) run (continuations deeper j run).2 := by
  rw [continuations]
  have first := (affordable j.fallthroughStart run).1
  generalize deeper j.fallthroughStart run = attempt at first ⊢
  obtain ⟨result, between⟩ := attempt
  cases result with
  | error e => exact first.mono (Nat.le_add_right ..) (Nat.le_add_right ..)
  | ok fallthrough =>
    dsimp only
    have second := (affordable j.targetStart.toNat between).1
    generalize deeper j.targetStart.toNat between = attempt at second ⊢
    obtain ⟨result, after⟩ := attempt
    cases result <;> exact first.trans second

variable [CodeUnit L]

theorem spent_fuse (affordable : Affordable decodes bailouts deeper) (config : Config) (start : Nat) (decoded : Decoded)
    (entry : CodeTree L) (run : Run (S × List ToolCall)) :
    Spent (decodes + decodes) (bailouts + bailouts) run (fuse config deeper start decoded entry run).2 := by
  rw [fuse]
  cases plan config start decoded entry with
  | error bailout => exact (Spent.refl run).mono (Nat.zero_le _) (Nat.zero_le _)
  | ok j =>
    dsimp only
    have both := spent_continuations affordable j run.descend
    generalize continuations deeper j run.descend = attempt at both ⊢
    obtain ⟨result, after⟩ := attempt
    cases result <;> exact both.ascend

/-- One entry, and then both continuations. -/
theorem affordable_fuseOrLeaf (affordable : Affordable decodes bailouts deeper) (config : Config) (t : Toolchain S L) :
    Affordable (1 + (decodes + decodes)) (bailouts + bailouts + 1) (fuseOrLeaf config t.logged deeper) := by
  intro start run
  rw [fuseOrLeaf]
  have here := spent_build t start run
  generalize run.build t.logged start = attempt at here ⊢
  obtain ⟨result, between⟩ := attempt
  obtain ⟨here, first⟩ := here
  cases result with
  | error e => exact ⟨here.mono (Nat.le_add_right ..) (Nat.zero_le _), first.imp_left And.left⟩
  | ok built =>
    obtain ⟨decoded, entry⟩ := built
    obtain ⟨rest, log⟩ := first.resolve_left (by simp)
    dsimp only
    have fused := spent_fuse affordable config start decoded entry between
    generalize fuse config deeper start decoded entry between = attempt at fused ⊢
    obtain ⟨result, after⟩ := attempt
    obtain ⟨more, extended, _⟩ := fused.calls
    have begins : after.tools.2 = run.tools.2 ++ .decode ⟨run.cursor.window, start⟩ :: (rest ++ more) := by
      rw [extended, log, List.append_assoc, List.cons_append]
    have whole := here.trans fused
    rw [Nat.zero_add] at whole
    cases result with
    | error bailout => exact ⟨whole.bailOut, .inr ⟨_, begins⟩⟩
    | ok compound => exact ⟨whole.mono (Nat.le_refl _) (Nat.le_succ _), .inr ⟨_, begins⟩⟩

/-- Each level doubles what is spent, and adds an entry. -/
theorem affordable_resolve (config : Config) (t : Toolchain S L) (levels : Nat) :
    Affordable (2 ^ (levels + 1) - 1) (2 ^ levels - 1) (resolve config t.logged levels) := by
  induction levels with
  | zero => exact affordable_compileLeaf t
  | succ levels ih =>
    have positive := Nat.two_pow_pos levels
    -- A continuation costs what the levels below do; at the limit it is a leaf, which costs less.
    have limited : Affordable (2 ^ (levels + 1) - 1) (2 ^ levels - 1) fun offset (run : Run (S × List ToolCall)) =>
        if run.depth < config.maxDepth then resolve config t.logged levels offset run
        else run.compileLeaf t.logged offset := by
      intro offset run
      dsimp only
      split
      · exact ih offset run
      · exact (affordable_compileLeaf t offset run).imp_left fun spent => spent.mono (by omega) (Nat.zero_le _)
    intro start run
    exact (affordable_fuseOrLeaf limited config t start run).imp_left fun spent => spent.mono (by omega) (by omega)

end

/-! ### Requests -/

variable [CodeUnit L]

/-- The run in which a request begins, with a list of calls that is empty. -/
def loggedRun (cursor : Cursor) (progress : Progress S) : Run (S × List ToolCall) :=
  ⟨⟨(progress.tools, []), progress.stats⟩, cursor, 0⟩

/-- The calls that a request makes of its tools, in their order. -/
def toolCalls (config : Config) (t : Toolchain S L) (cursor : Cursor) (progress : Progress S) : List ToolCall :=
  (combine config t.logged cursor (loggedRun cursor progress).toProgress).2.tools.2

/-- What a request takes at most. Its calls are those of tools that list them and are the same otherwise, and it is
    settled a fixed number of levels down. -/
structure Effort (config : Config) (t : Toolchain S L) (cursor : Cursor) (progress : Progress S) : Prop where
  same : Prod.map id (Run.mapTools Prod.fst) (combine config t.logged cursor (loggedRun cursor progress).toProgress) =
    combine config t cursor progress
  settled : config.enabled = true → ∀ deepest, combine config t cursor progress =
    recorded ((level config t)^[max 1 config.maxDepth.toNat] deepest cursor.position { progress with cursor })
  decodes : (toolCalls config t cursor progress).countP ToolCall.isDecode ≤
    if config.enabled then 2 ^ (max 1 config.maxDepth.toNat + 1) - 1 else 1
  compiles : (toolCalls config t cursor progress).countP ToolCall.isCompile ≤
    (toolCalls config t cursor progress).countP ToolCall.isDecode
  bailouts : ∃ count ≤ if config.enabled then 2 ^ max 1 config.maxDepth.toNat - 1 else 0,
    (combine config t cursor progress).2.stats =
      (progress.stats.bailOuts count).record (combine config t cursor progress).1
  first : ∀ call ∈ (toolCalls config t cursor progress).head?, call = .decode cursor

/-- With tools that list their calls a request spends no more than its levels do. -/
theorem spent_request (config : Config) (t : Toolchain S L) (cursor : Cursor) (progress : Progress S) :
    ∃ attempt, combine config t.logged cursor (loggedRun cursor progress).toProgress = recorded attempt ∧
      Spent (if config.enabled then 2 ^ (max 1 config.maxDepth.toNat + 1) - 1 else 1)
        (if config.enabled then 2 ^ max 1 config.maxDepth.toNat - 1 else 0) (loggedRun cursor progress) attempt.2 ∧
      Begins cursor (loggedRun cursor progress) attempt.2 := by
  cases enabled : config.enabled with
  | false =>
    refine ⟨(loggedRun cursor progress).compileLeaf t.logged cursor.position, ?_, affordable_compileLeaf t _ _⟩
    rw [combine_eq_recorded, enabled]
    rfl
  | true => exact ⟨_, combine_eq_resolve enabled t.logged cursor _, affordable_resolve config t _ _ _⟩

/-- Whatever the tools do, and however the branches in the window lead to one another, a request makes boundedly many
    calls of them, the first one to decode at the place that was asked for, and boundedly many bailouts. -/
theorem combine_effort (config : Config) (t : Toolchain S L) (cursor : Cursor) (progress : Progress S) :
    Effort config t cursor progress := by
  have same : Prod.map id (Run.mapTools Prod.fst)
      (combine config t.logged cursor (loggedRun cursor progress).toProgress) = combine config t cursor progress :=
    combine_of_projects (projects_logged t) config cursor (loggedRun cursor progress).toProgress
  obtain ⟨attempt, answered, ⟨⟨calls, log, few, fewer⟩, count, low, stats⟩, begins⟩ :=
    spent_request config t cursor progress
  have all : toolCalls config t cursor progress = calls := by
    rw [toolCalls, answered]
    exact log
  refine ⟨same, fun enabled deepest => combine_levels enabled t deepest cursor progress, ?_, ?_, ⟨count, low, ?_⟩, ?_⟩
  · rwa [all]
  · rwa [all]
  · rw [← same, answered]
    exact congrArg (Stats.record · _) stats
  · rw [toolCalls, answered]
    rintro call first
    rcases begins with nothing | ⟨rest, begins⟩
    · rw [recorded, nothing] at first
      cases first
    · rw [recorded, begins] at first
      exact (Option.some.inj first).symm

/-- Jumps of which each has its target right behind it, and a limit that no compound keeps to: the bounds are reached. -/
example :
    let config : Config := { maxDepth := 2, segmentLimit := 0 }
    let cursor := Cursor.ofWindow #[0xEB, 0, 0xEB, 0, 0xEB, 0]
    (toolCalls config Toy.toolchain cursor ⟨(), {}⟩).countP ToolCall.isDecode = 2 ^ 3 - 1 ∧
      (toolCalls config Toy.toolchain cursor ⟨(), {}⟩).countP ToolCall.isCompile = 2 ^ 3 - 1 ∧
      (combine config Toy.toolchain cursor ⟨(), {}⟩).2.stats.bailouts = 2 ^ 2 - 1 := by decide +kernel

end GuestMemory.Fusion
