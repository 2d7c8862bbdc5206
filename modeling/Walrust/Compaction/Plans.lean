import Walrust.Compaction.Planner
import Walrust.Lib.Steps
import Walrust.Lib.Tiling

/-!
# `Walrust.Compaction.Plans` — what the greedy plan is

The planner takes, at each seq, the object that begins there and reaches furthest within the target. On a pool
whose ranges do not end before they begin this is a greedy run in the sense of `Lib.Greedy`, whatever the result:
a plan is a run that arrived, an error names the seq where a run got stuck. Everything about plans and errors is
read off the run.

* `planRestore_diverges_iff` — the number of rounds is exact: where it runs out, the loop never stops;
* `Outcome`, `planRestore_outcome` — the results and the runs behind them;
* `planRestore_tiles_fewest` — plans are tilings; over a laminar pool there is a plan if there is a tiling, and
  none of them has fewer objects;
* `planRestore_names_neighbours` — over a laminar pool, an error names the seqs next to the target that can be
  reached.
-/

namespace Walrust
namespace Compaction

open Lib List PlanCandidate

variable {κ : Type} {cands : List (PlanCandidate κ)} {floor target cursor rounds last : Nat}
  {c : PlanCandidate κ} {keep : PlanCandidate κ → Bool}

/-! ## The loop, step by step -/

/-- The cursor after one pick; none where the loop ends. -/
def planStep (cands : List (PlanCandidate κ)) (target cursor : Nat) : Option Nat :=
  if target ≤ cursor then none else (furthest (within cands (cursor + 1) target)).map (·.range.max)

theorem planStep_eq_some {next : Nat} : planStep cands target cursor = some next ↔
    cursor < target ∧ ∃ pick, furthest (within cands (cursor + 1) target) = some pick ∧ pick.range.max = next := by
  unfold planStep
  split
  · next h =>
    constructor
    · intro h'
      cases h'
    · rintro ⟨h', -⟩
      exact absurd h (not_le.mpr h')
  · next h =>
    rw [Option.map_eq_some_iff]
    exact ⟨fun h' => ⟨not_le.mp h, h'⟩, fun h' => h'.2⟩

/-- A pick is one of the candidates, begins after the cursor, ends by the target, and nothing else reaches
    further. -/
theorem pick_spec {pick : PlanCandidate κ} (h : furthest (within cands (cursor + 1) target) = some pick) :
    pick ∈ cands ∧ pick.range.min = cursor + 1 ∧ pick.range.max ≤ target ∧
      ∀ c ∈ cands, c.range.min = cursor + 1 → c.range.max ≤ target → c.range.max ≤ pick.range.max := by
  obtain ⟨hmem, hfar⟩ := furthest_spec h
  obtain ⟨hpick, hwithin⟩ := mem_filter.mp hmem
  simp only [Bool.and_eq_true, decide_eq_true_eq] at hwithin
  refine ⟨hpick, hwithin.1, hwithin.2, ?_⟩
  intro c hc hmin hmax
  apply hfar c
  exact mem_filter.mpr ⟨hc, by simp [hmin, hmax]⟩

theorem not_stuck {need : Nat} (hc : c ∈ cands) (hmin : c.range.min = need)
    (hmax : c.range.max ≤ target) : within cands need target ≠ [] :=
  ne_nil_of_mem (mem_filter.mpr ⟨hc, by simp [hmin, hmax]⟩)

/-- Out of rounds: so many steps have been taken, and the target is still ahead. -/
theorem planLoop_diverges_iff : planLoop cands target rounds cursor = .error .diverges ↔
    ∃ next, steps (planStep cands target) rounds cursor = some next ∧ next < target := by
  induction rounds generalizing cursor with
  | zero =>
    unfold planLoop
    by_cases h : target ≤ cursor
    · rw [if_pos h]
      constructor
      · intro h'
        cases h'
      · rintro ⟨next, hnext, hlt⟩
        cases hnext
        exact absurd h (not_le.mpr hlt)
    · rw [if_neg h]
      exact ⟨fun _ => ⟨cursor, rfl, not_le.mp h⟩, fun _ => rfl⟩
  | succ rounds ih =>
    unfold planLoop steps
    by_cases h : target ≤ cursor
    · rw [if_pos h, planStep, if_pos h]
      constructor
      · intro h'
        cases h'
      · rintro ⟨next, hnext, -⟩
        cases hnext
    · rw [if_neg h, planStep, if_neg h]
      cases hpick : furthest (within cands (cursor + 1) target) with
      | none =>
        -- stuck, with one of the two errors that are not about rounds
        cases tightest (overshooting cands (cursor + 1) target) <;> simp
      | some pick =>
        have hih := @ih pick.range.max
        simp only [Option.map_some, Option.bind_some]
        rw [← hih]
        cases planLoop cands target rounds pick.range.max <;> simp

/-- **The number of rounds is exact.** `plan_restore` runs out of them if and only if its loop never stops. -/
theorem planRestore_diverges_iff : planRestore cands floor target = .error .diverges ↔
    ∀ n, ∃ next, steps (planStep cands target) n floor = some next ∧ next < target := by
  have hfun : planRestore cands floor target = .error .diverges ↔
      planLoop cands target (cands.length + 1) floor = .error .diverges := by
    rw [planRestore]
    cases planLoop cands target (cands.length + 1) floor <;> simp
  rw [hfun, planLoop_diverges_iff]
  constructor
  · rintro ⟨next, hnext, -⟩
    -- the cursors are ends of candidates, and there have been more of them than candidates
    have hends : ∀ x y, planStep cands target x = some y → y ∈ (cands.map (·.range.max)).toFinset := by
      intro x y hxy
      obtain ⟨-, pick, hpick, rfl⟩ := planStep_eq_some.mp hxy
      exact mem_toFinset.mpr (mem_map_of_mem (pick_spec hpick).1)
    have hcard : (cands.map (·.range.max)).toFinset.card + 1 ≤ cands.length + 1 := by
      have := (cands.map (·.range.max)).toFinset_card_le
      rw [length_map] at this
      omega
    have hall := steps_isSome_of_card hends (steps_isSome_of_le hcard (Option.isSome_iff_exists.mpr ⟨next, hnext⟩))
    intro n
    obtain ⟨z, hz⟩ := Option.isSome_iff_exists.mp (hall (n + 1))
    obtain ⟨y, hy, hyz⟩ := steps_succ_eq_some hz
    exact ⟨y, hy, (planStep_eq_some.mp hyz).1⟩
  · intro hall
    exact hall _

/-! ## Runs and results -/

/-- The pieces of a plan. -/
abbrev PlanCandidate.lo (c : PlanCandidate κ) : Nat := c.range.min

abbrev PlanCandidate.hi (c : PlanCandidate κ) : Nat := c.range.max

/-- The objects lie end to end, from the seq after `floor` up to `target`. -/
abbrev InOrder (floor target : Nat) (files : List (PlanCandidate κ)) : Prop :=
  Tiling lo hi floor target files

section

variable (cands : List (PlanCandidate κ))

/-- Some of the candidates, in any order: each seq after `floor` up to `target` is held by exactly one of them, and
    no other seq by any. -/
def TilesExactly (floor target : Nat) (files : List (PlanCandidate κ)) : Prop :=
  (∀ c ∈ files, c ∈ cands) ∧ Partitions lo hi floor target files

/-- The seq can be reached from the floor. -/
def Reachable (floor seq : Nat) : Prop := ∃ files, TilesExactly cands floor seq files

/-- No range ends before it begins. -/
def Proper : Prop := ∀ c ∈ cands, c.range.min ≤ c.range.max

/-- Any two ranges are nested or apart. -/
def LaminarPool : Prop :=
  ∀ c ∈ cands, ∀ d ∈ cands, Nested lo hi c d

/-- The runs of the planner. -/
abbrev Runs (target : Nat) : Nat → Nat → List (PlanCandidate κ) → Prop :=
  Greedy lo hi {c | c ∈ cands} target

end

/-- The results of the planner, with the runs behind them. -/
inductive Outcome (cands : List (PlanCandidate κ)) (target cursor : Nat) :
    Except PlanError (List (PlanCandidate κ)) → Prop
  | arrived {last : Nat} {files : List (PlanCandidate κ)} (run : Runs cands target cursor last files)
      (done : target ≤ last) : Outcome cands target cursor (.ok files)
  | window {last : Nat} {files : List (PlanCandidate κ)} {w : PlanCandidate κ}
      (run : Runs cands target cursor last files) (short : last < target) (stuck : within cands (last + 1) target = [])
      (tight : tightest (overshooting cands (last + 1) target) = some w) :
      Outcome cands target cursor
        (.error (.pitrInsideMergedWindow target w.range.min w.range.max last w.range.max))
  | gap {last : Nat} {files : List (PlanCandidate κ)} (run : Runs cands target cursor last files)
      (short : last < target) (stuck : within cands (last + 1) target = []) :
      Outcome cands target cursor (.error (.chainGap (last + 1) last))

/-- A pick in front of what comes after it. -/
theorem Outcome.pick {pick : PlanCandidate κ} (hpick : furthest (within cands (cursor + 1) target) = some pick)
    (hlt : cursor < pick.range.max) (result : Except PlanError (List (PlanCandidate κ))) :
    Outcome cands target pick.range.max result →
      Outcome cands target cursor (match result with | .error e => .error e | .ok files => .ok (pick :: files)) := by
  intro h
  obtain ⟨hmem, hmin, hmax, hfar⟩ := pick_spec hpick
  cases h with
  | arrived run done => exact .arrived (.cons hmem hmin hlt hmax hfar run) done
  | window run short stuck tight => exact .window (.cons hmem hmin hlt hmax hfar run) short stuck tight
  | gap run short stuck => exact .gap (.cons hmem hmin hlt hmax hfar run) short stuck

/-- **The loop is a greedy run**, given a round for each candidate that ends beyond the cursor and one more. -/
theorem planLoop_outcome (hproper : Proper cands) (hrounds : ahead cands cursor < rounds) :
    Outcome cands target cursor (planLoop cands target rounds cursor) := by
  induction rounds generalizing cursor with
  | zero => omega
  | succ rounds ih =>
    unfold planLoop
    by_cases hdone : target ≤ cursor
    · rw [if_pos hdone]
      exact .arrived (.nil _) hdone
    rw [if_neg hdone]
    have hshort := not_le.mp hdone
    cases hpick : furthest (within cands (cursor + 1) target) with
    | some pick =>
      obtain ⟨hmem, hmin, -, -⟩ := pick_spec hpick
      have hlt : cursor < pick.range.max := by
        have := hproper pick hmem
        omega
      have := ahead_lt hmem hlt
      exact Outcome.pick hpick hlt _ (ih (by omega))
    | none =>
      have hstuck := furthest_eq_none.mp hpick
      cases htight : tightest (overshooting cands (cursor + 1) target) with
      | some w => exact .window (.nil _) hshort hstuck htight
      | none => exact .gap (.nil _) hshort hstuck

/-- More rounds than needed make no difference. -/
theorem planLoop_rounds (hproper : Proper cands) {rounds' : Nat} (hrounds : ahead cands cursor < rounds)
    (hrounds' : ahead cands cursor < rounds') :
    planLoop cands target rounds cursor = planLoop cands target rounds' cursor := by
  induction rounds generalizing rounds' cursor with
  | zero => omega
  | succ rounds ih =>
    obtain ⟨rounds', rfl⟩ := Nat.exists_eq_add_one.mpr (Nat.zero_lt_of_lt hrounds')
    unfold planLoop
    by_cases hdone : target ≤ cursor
    · rw [if_pos hdone, if_pos hdone]
    cases hpick : furthest (within cands (cursor + 1) target) with
    | none => rfl
    | some pick =>
      obtain ⟨hmem, hmin, -, -⟩ := pick_spec hpick
      have := hproper pick hmem
      have := ahead_lt hmem (show cursor < pick.range.max by omega)
      dsimp only
      rw [@ih pick.range.max rounds' (by omega) (by omega)]

/-- The loop never looks at what begins at or below the floor, nor at what begins beyond the target. -/
theorem planLoop_filter (hproper : Proper cands)
    (hkeep : ∀ c ∈ cands, floor < c.range.min → c.range.min ≤ target → keep c = true) (hcursor : floor ≤ cursor) :
    planLoop (cands.filter keep) target rounds cursor = planLoop cands target rounds cursor := by
  induction rounds generalizing cursor with
  | zero =>
    rfl
  | succ rounds ih =>
    unfold planLoop
    by_cases hdone : target ≤ cursor
    · rw [if_pos hdone, if_pos hdone]
    have hsame : ∀ p : PlanCandidate κ → Bool, (∀ c, p c = true → c.range.min = cursor + 1) →
        (cands.filter keep).filter p = cands.filter p := by
      intro p hp
      rw [filter_filter]
      apply filter_congr
      intro c hc
      cases hpc : p c with
      | false => rfl
      | true =>
        have hmin := hp c hpc
        rw [hkeep c hc (by omega) (by omega), Bool.and_self]
    have hwithin : within (cands.filter keep) (cursor + 1) target = within cands (cursor + 1) target := by
      apply hsame
      intro c hc
      simp only [Bool.and_eq_true, decide_eq_true_eq] at hc
      exact hc.1
    have hover : overshooting (cands.filter keep) (cursor + 1) target = overshooting cands (cursor + 1) target := by
      apply hsame
      intro c hc
      simp only [Bool.and_eq_true, decide_eq_true_eq] at hc
      exact hc.1
    rw [if_neg hdone, if_neg hdone, hwithin, hover]
    cases hpick : furthest (within cands (cursor + 1) target) with
    | none => rfl
    | some pick =>
      obtain ⟨hmem, hmin, -, -⟩ := pick_spec hpick
      have := hproper pick hmem
      dsimp only
      rw [@ih pick.range.max (by omega)]

/-- **What the planner does not look at may go.** The result is the same: the plan, or the error with its
    neighbours. -/
theorem planRestore_filter (hproper : Proper cands)
    (hkeep : ∀ c ∈ cands, floor < c.range.min → c.range.min ≤ target → keep c = true) :
    planRestore (cands.filter keep) floor target = planRestore cands floor target := by
  have hproper' : Proper (cands.filter keep) := fun c hc => hproper c (mem_filter.mp hc).1
  have hlen : (cands.filter keep).length ≤ cands.length := length_filter_le _ _
  have hahead := ahead_le_length (cands.filter keep) floor
  rw [planRestore, planRestore, @planLoop_rounds _ (cands.filter keep) target floor _ hproper' (cands.length + 1)
    (by omega) (by omega), planLoop_filter hproper hkeep le_rfl]

/-- The files of a plan, or the error. -/
def planFiles (cands : List (PlanCandidate κ)) (floor target : Nat) : Except PlanError (List (PlanCandidate κ)) :=
  planLoop cands target (cands.length + 1) floor

theorem planRestore_outcome (hproper : Proper cands) : Outcome cands target floor (planFiles cands floor target) :=
  planLoop_outcome hproper (Nat.lt_succ_of_le (ahead_le_length _ _))

/-- A planner whose runs go on to the target has a plan. -/
theorem planFiles_of_not_stuck (hproper : Proper cands)
    (hgo : ∀ {last files}, Runs cands target floor last files → last < target → within cands (last + 1) target ≠ []) :
    ∃ files, planFiles cands floor target = .ok files := by
  have hout := @planRestore_outcome _ _ floor target hproper
  cases hres : planFiles cands floor target with
  | ok files => exact ⟨files, rfl⟩
  | error e =>
    rw [hres] at hout
    cases hout with
    | window hrun hshort hstuck _ => exact absurd hstuck (hgo hrun hshort)
    | gap hrun hshort hstuck => exact absurd hstuck (hgo hrun hshort)

theorem planRestore_eq_ok {plan : RestorePlan κ} : planRestore cands floor target = .ok plan ↔
    planFiles cands floor target = .ok plan.files ∧ plan.floor = floor ∧ plan.target = target := by
  rw [planRestore, ← planFiles]
  cases planFiles cands floor target with
  | error e => simp
  | ok files =>
    constructor
    · intro h
      cases h
      exact ⟨rfl, rfl, rfl⟩
    · rintro ⟨hfiles, rfl, rfl⟩
      cases hfiles
      rfl

theorem planRestore_eq_error {e : PlanError} : planRestore cands floor target = .error e ↔
    planFiles cands floor target = .error e := by
  rw [planRestore, ← planFiles]
  cases planFiles cands floor target <;> simp

/-! ## Plans -/

section Laminar

variable {seq : Nat} {files run : List (PlanCandidate κ)}

theorem Reachable.inOrder (h : Reachable cands floor seq) (hproper : Proper cands) (hle : floor ≤ seq) :
    ∃ files, (∀ c ∈ files, c ∈ cands) ∧ InOrder floor seq files := by
  obtain ⟨files, hmem, hpart⟩ := h
  obtain ⟨ordered, hperm, htiling⟩ := hpart.exists_tiling hle fun c hc => hproper c (hmem c hc)
  exact ⟨ordered, fun c hc => hmem c (hperm.mem_iff.mp hc), htiling⟩

section

variable (hproper : Proper cands)
include hproper

section

variable (hlam : LaminarPool cands)
include hlam

/-- **Where a run got stuck, nothing goes on.** No seq beyond can be reached, up to the target, or further as long
    as neither an object that begins before the end of the run nor one that begins right after it leads there. -/
theorem not_reachable_of_stuck
    (hrun : Runs cands target floor last run) (hstuck : within cands (last + 1) target = []) (hseq : last < seq)
    (hbefore : ∀ c ∈ cands, c.range.min ≤ last → target < c.range.max → seq < c.range.max)
    (hafter : ∀ c ∈ cands, c.range.min = last + 1 → c.range.max ≤ seq → c.range.max ≤ target) :
    ¬ Reachable cands floor seq := by
  intro h
  have hfloor := hrun.tiling.le
  obtain ⟨files, hmem, htiling⟩ := h.inOrder hproper (by omega)
  obtain ⟨l₁, l₂, rfl, -, hrest⟩ := hrun.exchange hlam htiling hmem hseq.le hbefore
  -- the tiling goes on from where the run ended, with an object the run would have taken
  cases hrest with
  | nil _ => exact lt_irrefl _ hseq
  | @cons _ _ c l hmin hlt htail =>
    have hc : c ∈ cands := hmem c (mem_append_right _ mem_cons_self)
    exact not_stuck hc hmin (hafter c hc hmin htail.le) hstuck

theorem not_reachable_up_to_target
    (hrun : Runs cands target floor last run) (hstuck : within cands (last + 1) target = []) (hseq : last < seq)
    (hle : seq ≤ target) : ¬ Reachable cands floor seq :=
  not_reachable_of_stuck hproper hlam hrun hstuck hseq (fun _ _ _ h => lt_of_le_of_lt hle h)
    fun _ _ _ h => h.trans hle

/-- **A plan exists wherever a tiling does.** -/
theorem planFiles_of_reachable
    (h : Reachable cands floor target) : ∃ files, planFiles cands floor target = .ok files :=
  planFiles_of_not_stuck hproper fun hrun hshort hstuck =>
    not_reachable_up_to_target hproper hlam hrun hstuck hshort le_rfl h

end

/-- A plan comes from a run that ends at the target, or is empty because the floor is not below it. -/
theorem run_of_planFiles (h : planFiles cands floor target = .ok files) :
    floor ≤ target ∧ Runs cands target floor target files ∨ target < floor ∧ files = [] := by
  have hout := @planRestore_outcome _ _ floor target hproper
  rw [h] at hout
  cases hout with
  | arrived hrun hdone =>
    rcases hrun.le_bound with rfl | hlast
    · rcases eq_or_lt_of_le hdone with rfl | hlt
      · exact .inl ⟨le_rfl, hrun⟩
      · refine .inr ⟨hlt, ?_⟩
        cases hrun with
        | nil _ => rfl
        | cons _ _ hlt' hbound _ _ => omega
    · obtain rfl := le_antisymm hdone hlast.2
      exact .inl ⟨hlast.1.le, hrun⟩

/-- What lies end to end up to the target holds each seq once. -/
theorem tilesExactly_of_planFiles (h : planFiles cands floor target = .ok files) :
    TilesExactly cands floor target files ∧ (floor ≤ target → InOrder floor target files) := by
  rcases run_of_planFiles hproper h with ⟨hle, hrun⟩ | ⟨hlt, rfl⟩
  · exact ⟨⟨hrun.mem, hrun.tiling.partitions⟩, fun _ => hrun.tiling⟩
  · refine ⟨⟨by simp, fun n => ?_⟩, fun hle => by omega⟩
    rw [if_neg (by omega), countP_nil]

/-- **No tiling has fewer objects than the plan.** -/
theorem planFiles_fewest (hlam : LaminarPool cands)
    (h : planFiles cands floor target = .ok files) {other : List (PlanCandidate κ)}
    (hother : TilesExactly cands floor target other) : files.length ≤ other.length := by
  rcases run_of_planFiles hproper h with ⟨hle, hrun⟩ | ⟨-, rfl⟩
  · obtain ⟨hmem, hpart⟩ := hother
    obtain ⟨ordered, hperm, htiling⟩ := hpart.exists_tiling hle fun c hc => hproper c (hmem c hc)
    obtain ⟨l₁, l₂, rfl, hlen, -⟩ := hrun.exchange hlam htiling (fun c hc => hmem c (hperm.mem_iff.mp hc)) le_rfl
      fun _ _ _ hlt => hlt
    rw [← hperm.length_eq, length_append]
    omega
  · exact Nat.zero_le _

end

end Laminar

/-- **The greedy planner is sound, complete and minimal**, over pools whose ranges do not end before they begin. A
    plan uses candidates of the pool that lie end to end from the floor to the target and hold every seq between
    exactly once. If any two ranges are nested or apart, there is a plan if and only if some of the candidates tile
    the seqs, and no such tiling has fewer objects. -/
theorem planRestore_tiles_fewest (cands : List (PlanCandidate κ)) (hproper : Proper cands) (floor target : Nat) :
    (∀ plan, planRestore cands floor target = .ok plan →
      TilesExactly cands floor target plan.files ∧ (floor ≤ target → InOrder floor target plan.files)) ∧
    (LaminarPool cands →
      ((∃ plan, planRestore cands floor target = .ok plan) ↔ ∃ files, TilesExactly cands floor target files) ∧
      ∀ plan, planRestore cands floor target = .ok plan →
        ∀ files, TilesExactly cands floor target files → plan.files.length ≤ files.length) := by
  refine ⟨?_, fun hlam => ⟨⟨?_, ?_⟩, ?_⟩⟩
  · intro plan hplan
    exact tilesExactly_of_planFiles hproper (planRestore_eq_ok.mp hplan).1
  · rintro ⟨plan, hplan⟩
    exact ⟨plan.files, (tilesExactly_of_planFiles hproper (planRestore_eq_ok.mp hplan).1).1⟩
  · intro h
    obtain ⟨files, hfiles⟩ := planFiles_of_reachable hproper hlam h
    exact ⟨⟨floor, target, files⟩, planRestore_eq_ok.mpr ⟨hfiles, rfl, rfl⟩⟩
  · intro plan hplan files hfiles
    exact planFiles_fewest hproper hlam (planRestore_eq_ok.mp hplan).1 hfiles

/-- A crash left the merged range beside the points it supersedes; one more point follows. -/
def crashOverlap : List (PlanCandidate String) :=
  [⟨"0000/2-2", 0, ⟨2, 2⟩⟩, ⟨"0000/3-3", 0, ⟨3, 3⟩⟩, ⟨"levels/L1/2-3", 1, ⟨2, 3⟩⟩, ⟨"0000/4-4", 0, ⟨4, 4⟩⟩]

theorem crashOverlap_proper : Proper crashOverlap := by
  unfold Proper
  decide

theorem crashOverlap_laminar : LaminarPool crashOverlap := by
  unfold LaminarPool Nested
  decide

/-- The plan takes the merged range and the point after it: two objects, where the points alone are three. -/
theorem planRestore_tiles_fewest_overlap : ∃ plan, planRestore crashOverlap 1 4 = .ok plan ∧
    plan.files.map (·.key) = ["levels/L1/2-3", "0000/4-4"] ∧ TilesExactly crashOverlap 1 4 plan.files ∧
    ∀ files, TilesExactly crashOverlap 1 4 files → 2 ≤ files.length := by
  have h := planRestore_tiles_fewest crashOverlap crashOverlap_proper 1 4
  exact ⟨_, rfl, rfl, (h.1 _ rfl).1, (h.2 crashOverlap_laminar).2 _ rfl⟩

/-- A range that ends before it begins takes the plan back below the floor: the object after it holds a seq that the
    floor already covers. -/
theorem planRestore_overlaps_floor : ∃ (cands : List (PlanCandidate String)) (plan : RestorePlan String),
    planRestore cands 4 6 = .ok plan ∧ ¬ TilesExactly cands 4 6 plan.files := by
  refine ⟨[⟨"0000/5-3", 0, ⟨5, 3⟩⟩, ⟨"0000/4-6", 0, ⟨4, 6⟩⟩], _, rfl, ?_⟩
  rintro ⟨-, h⟩
  have := h 4
  revert this
  decide

/-! ## Errors -/

/-- The furthest seq the error says can be restored. -/
def PlanError.nearestBelow : PlanError → Nat
  | .chainGap _ below => below
  | .pitrInsideMergedWindow _ _ _ below _ => below
  | .pitrInsideSnapshotSpan _ below _ => below
  | .diverges => 0

section Neighbours

variable {run : List (PlanCandidate κ)}

theorem reachable_of_run (hrun : Runs cands target floor last run) : Reachable cands floor last :=
  ⟨run, hrun.mem, hrun.tiling.partitions⟩

theorem reachable_after_run (hrun : Runs cands target floor last run) (hc : c ∈ cands)
    (hmin : c.range.min = last + 1) (hlt : last < c.range.max) : Reachable cands floor c.range.max := by
  refine ⟨run ++ [c], ?_, (hrun.tiling.append (.singleton hmin hlt)).partitions⟩
  intro d hd
  rcases mem_append.mp hd with hd | hd
  · exact hrun.mem d hd
  · rw [mem_singleton.mp hd]
    exact hc

theorem mem_overshooting {need : Nat} :
    c ∈ overshooting cands need target ↔ c ∈ cands ∧ c.range.min = need ∧ target < c.range.max := by
  simp [overshooting]

/-- **Nothing within a window can be reached**: an object from before it that passes the target ends after it, and
    from where it begins nothing ends earlier. -/
theorem not_reachable_in_window (hproper : Proper cands) (hlam : LaminarPool cands)
    (hrun : Runs cands target floor last run) (hshort : last < target)
    (hstuck : within cands (last + 1) target = []) {w : PlanCandidate κ}
    (htight : tightest (overshooting cands (last + 1) target) = some w) {seq : Nat} (hlast : last < seq)
    (hseq : seq < w.range.max) : ¬ Reachable cands floor seq := by
  obtain ⟨hmem, hleast⟩ := tightest_spec htight
  obtain ⟨hw, hwmin, hwmax⟩ := mem_overshooting.mp hmem
  apply not_reachable_of_stuck hproper hlam hrun hstuck hlast
  · intro c hc hmin hmax
    rcases hlam c hc w hw with h | h | h | h
    all_goals simp only [lo, hi] at h; omega
  · intro c hc hmin hmax
    by_contra hover
    have := hleast c (mem_overshooting.mpr ⟨hc, hmin, by omega⟩)
    omega

end Neighbours

/-- **Planner errors name the true neighbours**, over pools of ranges that do not end before they begin and are
    pairwise nested or apart. -/
theorem planRestore_names_neighbours (cands : List (PlanCandidate κ)) (hproper : Proper cands)
    (hlam : LaminarPool cands) (floor target : Nat) (e : PlanError)
    (he : planRestore cands floor target = .error e) :
    (∃ plan, planRestore cands floor e.nearestBelow = .ok plan) ∧
    (∀ seq, e.nearestBelow < seq → seq ≤ target → ¬ Reachable cands floor seq) ∧
    ∀ t windowMin windowMax below above, e = .pitrInsideMergedWindow t windowMin windowMax below above →
      (∃ plan, planRestore cands floor above = .ok plan) ∧
      ∀ seq, below < seq → seq < above → ¬ Reachable cands floor seq := by
  have hplan : ∀ {seq}, Reachable cands floor seq → ∃ plan, planRestore cands floor seq = .ok plan := by
    intro seq h
    obtain ⟨files, hfiles⟩ := planFiles_of_reachable hproper hlam h
    exact ⟨⟨floor, seq, files⟩, planRestore_eq_ok.mpr ⟨hfiles, rfl, rfl⟩⟩
  have hout := @planRestore_outcome _ _ floor target hproper
  rw [planRestore_eq_error.mp he] at hout
  cases hout with
  | @window last run w hrun hshort hstuck htight =>
    refine ⟨hplan (reachable_of_run hrun),
      fun seq h1 h2 => not_reachable_up_to_target hproper hlam hrun hstuck h1 h2, ?_⟩
    rintro t windowMin windowMax below above heq
    cases heq
    obtain ⟨hw, hwmin, hwmax⟩ := mem_overshooting.mp (tightest_spec htight).1
    exact ⟨hplan (reachable_after_run hrun hw hwmin (by omega)),
      fun seq h1 h2 => not_reachable_in_window hproper hlam hrun hshort hstuck htight h1 h2⟩
  | @gap last run hrun hshort hstuck =>
    refine ⟨hplan (reachable_of_run hrun),
      fun seq h1 h2 => not_reachable_up_to_target hproper hlam hrun hstuck h1 h2, ?_⟩
    rintro t windowMin windowMax below above heq
    cases heq

/-- The points below a merged window are gone. -/
def decayedPool : List (PlanCandidate String) :=
  [⟨"0000/2-2", 0, ⟨2, 2⟩⟩, ⟨"levels/L1/3-6", 1, ⟨3, 6⟩⟩, ⟨"levels/L2/3-9", 2, ⟨3, 9⟩⟩]

/-- Seq 5 lies in the window from 3 to 6: 2 and 6 can be planned, and nothing between. -/
theorem planRestore_names_neighbours_decayed :
    planRestore decayedPool 1 5 = .error (.pitrInsideMergedWindow 5 3 6 2 6) ∧
    (∃ plan, planRestore decayedPool 1 2 = .ok plan) ∧ (∃ plan, planRestore decayedPool 1 6 = .ok plan) ∧
    ∀ seq, 2 < seq → seq < 6 → ¬ Reachable decayedPool 1 seq := by
  have h := planRestore_names_neighbours decayedPool (by unfold Proper; decide)
    (by unfold LaminarPool Nested; decide) 1 5 (.pitrInsideMergedWindow 5 3 6 2 6) rfl
  obtain ⟨hbelow, -, habove⟩ := h
  exact ⟨rfl, hbelow, habove 5 3 6 2 6 rfl⟩

/-- A range that ends before it begins takes the run back below the floor, and the error names a seq below it:
    the floor itself, which is nearer, can be reached. -/
theorem planRestore_names_below_floor : ∃ (cands : List (PlanCandidate String)) (e : PlanError),
    LaminarPool cands ∧ planRestore cands 4 6 = .error e ∧ e.nearestBelow < 4 ∧ 4 ≤ 6 ∧
    (∃ plan, planRestore cands 4 4 = .ok plan) ∧ Reachable cands 4 4 := by
  refine ⟨[⟨"0000/5-3", 0, ⟨5, 3⟩⟩], .chainGap 4 3, by unfold LaminarPool Nested; decide, rfl, by decide, by decide,
    ⟨_, rfl⟩, [], by simp, fun n => ?_⟩
  rw [if_neg (by omega), countP_nil]

end Compaction
end Walrust
