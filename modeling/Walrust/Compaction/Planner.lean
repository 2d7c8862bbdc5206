import Walrust.Bucket
import Walrust.Compaction.Layout

/-!
# `Walrust.Compaction.Planner` — listings and the greedy restore planner

The read side of a leveled bucket: which objects each level holds, and the ordered list of objects that
rebuilds a database from a snapshot's seq up to a target.

* `listLevel`, `listMergedRanges`, `gatherCandidates` — the listings (levels `1..16` are probed);
* `planRestore` — from `cursor`, take the object that starts exactly at `cursor + 1` and reaches furthest
  without passing the target.
-/

namespace Walrust
namespace Compaction

open List

variable {κ : Type}

/-! ## Listings -/

/-- The seq range of a key that belongs to `level`: the live incrementals are level 0, merged objects the
    levels above. -/
def keyRange (level : Level) : Key → Option SeqRange
  | .changeset none .live seq => if level = 0 then some (.point seq) else none
  | .merged l min max => if l = level ∧ 1 ≤ level ∧ min ≤ max then some ⟨min, max⟩ else none
  | _ => none

/-- One file of a level. -/
structure LayoutFile where
  key : Key
  level : Level
  range : SeqRange
  lastModifiedMs : Int64
  deriving DecidableEq, Repr

/-- The header reads of a listing, one ranged read per key. -/
def readFiles (b : Bucket) (level : Level) : List Key → Except CompactionError (List LayoutFile)
  | [] => .ok []
  | key :: keys =>
    match keyRange level key with
    | none => readFiles b level keys
    | some range =>
      match b.get key with
      | none => .error (.storage "missing object")
      | some bytes =>
        match readHeader bytes with
        | .error e => .error e
        | .ok header =>
          match readFiles b level keys with
          | .error e => .error e
          | .ok files => .ok (⟨key, level, range, header.createdMs⟩ :: files)

/-- The order of a listing: by `min`, then by `max`. -/
def rangeLe (a b : LayoutFile) : Bool :=
  a.range.min < b.range.min || (a.range.min = b.range.min && a.range.max ≤ b.range.max)

/-- `list_level`. -/
def listLevel (b : Bucket) (level : Level) : Except CompactionError (List LayoutFile) :=
  match readFiles b level b.keys with
  | .error e => .error e
  | .ok files => .ok (files.mergeSort rangeLe)

/-- `count_level`: a listing without header reads. -/
def countLevel (b : Bucket) (level : Level) : Nat := b.keys.countP fun k => (keyRange level k).isSome

/-- `MAX_LEVEL_PROBE`. -/
def maxLevelProbe : Level := 16

/-- The files of the levels `level, level + 1, …, level + n - 1`. -/
def listLevels (b : Bucket) : Level → Nat → Except CompactionError (List LayoutFile)
  | _, 0 => .ok []
  | level, n + 1 =>
    match listLevel b level with
    | .error e => .error e
    | .ok files =>
      match listLevels b (level + 1) n with
      | .error e => .error e
      | .ok rest => .ok (files ++ rest)

/-- `list_merged_ranges`. -/
def listMergedRanges (b : Bucket) : Except CompactionError (List SeqRange) :=
  match listLevels b 1 maxLevelProbe with
  | .error e => .error e
  | .ok files => .ok (files.map (·.range))

/-- One object a restore may use, under the keys of its layout. -/
structure PlanCandidate (κ : Type := Key) where
  key : κ
  level : Level
  range : SeqRange
  deriving DecidableEq, Repr

/-- `gather_candidates`: level 0 and every merged level, without what ends at or before `floor` or begins
    after `target`. -/
def gatherCandidates (b : Bucket) (floor target : Nat) : Except CompactionError (List PlanCandidate) :=
  match listLevels b 0 (maxLevelProbe + 1) with
  | .error e => .error e
  | .ok files =>
    .ok ((files.filter fun f => floor < f.range.max && f.range.min ≤ target).map fun f =>
      ⟨f.key, f.level, f.range⟩)

/-! ## Planning -/

structure RestorePlan (κ : Type := Key) where
  floor : Nat
  target : Nat
  files : List (PlanCandidate κ)
  deriving DecidableEq, Repr

inductive PlanError where
  | chainGap (needed nearestBelow : Nat)
  | pitrInsideMergedWindow (target windowMin windowMax nearestBelow nearestAbove : Nat)
  | pitrInsideSnapshotSpan (target nearestBelow nearestAbove : Nat)
  /-- The loop does not terminate: a candidate's range ends before it begins. The listings of the levels return
      none, those of the legacy folder may. -/
  | diverges
  deriving DecidableEq, Repr

/-- `max_by_key`: the last of the candidates that reach furthest. -/
def furthest {κ : Type} : List (PlanCandidate κ) → Option (PlanCandidate κ)
  | [] => none
  | c :: cs =>
    match furthest cs with
    | some best => if best.range.max < c.range.max then some c else some best
    | none => some c

/-- `min_by_key`: the first of the candidates that reach least far. -/
def tightest {κ : Type} : List (PlanCandidate κ) → Option (PlanCandidate κ)
  | [] => none
  | c :: cs =>
    match tightest cs with
    | some best => if c.range.max ≤ best.range.max then some c else some best
    | none => some c

/-- The candidates that begin at `need` and end within the target. -/
def within {κ : Type} (candidates : List (PlanCandidate κ)) (need target : Nat) : List (PlanCandidate κ) :=
  candidates.filter fun c => c.range.min = need && c.range.max ≤ target

/-- The candidates that begin at `need` and pass the target. -/
def overshooting {κ : Type} (candidates : List (PlanCandidate κ)) (need target : Nat) : List (PlanCandidate κ) :=
  candidates.filter fun c => c.range.min = need && target < c.range.max

/-- The planning loop, for at most `rounds` rounds. -/
def planLoop {κ : Type} (candidates : List (PlanCandidate κ)) (target : Nat) :
    Nat → Nat → Except PlanError (List (PlanCandidate κ))
  | rounds, cursor =>
    if target ≤ cursor then .ok []
    else
      match rounds with
      | 0 => .error .diverges
      | rounds + 1 =>
        match furthest (within candidates (cursor + 1) target) with
        | some pick =>
          match planLoop candidates target rounds pick.range.max with
          | .error e => .error e
          | .ok files => .ok (pick :: files)
        | none =>
          match tightest (overshooting candidates (cursor + 1) target) with
          | some window => .error (.pitrInsideMergedWindow target window.range.min window.range.max cursor
              window.range.max)
          | none => .error (.chainGap (cursor + 1) cursor)

/-- `plan_restore`. The cursor is the end of some candidate from the first pick on, so a loop with more picks than
    there are candidates has come back to where it was and never stops (`planRestore_diverges_iff`). -/
def planRestore {κ : Type} (candidates : List (PlanCandidate κ)) (floor target : Nat) :
    Except PlanError (RestorePlan κ) :=
  match planLoop candidates target (candidates.length + 1) floor with
  | .error e => .error e
  | .ok files => .ok ⟨floor, target, files⟩

/-- `refine_gap_with_snapshot_spans`. -/
def refineGapWithSnapshotSpans (err : PlanError) (laterSnapshotMaxes : List Nat) (target : Nat) :
    PlanError :=
  match err with
  | .chainGap _ nearestBelow =>
    match (laterSnapshotMaxes.filter (target ≤ ·)).min? with
    | some above => .pitrInsideSnapshotSpan target nearestBelow above
    | none => err
  | _ => err

/-! ### What the planner picks -/

/-- A choice made from the back: the next candidate, or what was chosen before it, whichever is first by `r`. -/
theorem choice_spec {pick : List (PlanCandidate κ) → Option (PlanCandidate κ)} {r : Nat → Nat → Prop} [IsPreorder Nat r]
    (hnil : pick [] = none)
    (hcons : ∀ c cs, match pick cs with
      | none => pick (c :: cs) = some c
      | some best => (pick (c :: cs) = some c ∧ r c.range.max best.range.max) ∨
          (pick (c :: cs) = some best ∧ r best.range.max c.range.max)) (cs : List (PlanCandidate κ)) :
    match pick cs with
    | none => cs = []
    | some best => best ∈ cs ∧ ∀ c ∈ cs, r best.range.max c.range.max := by
  induction cs with
  | nil => rw [hnil]
  | cons c cs ih =>
    have h := hcons c cs
    cases hpick : pick cs with
    | none =>
      rw [hpick] at h ih
      rw [h, ih]
      exact ⟨mem_cons_self, forall_mem_singleton.mpr (refl_of r _)⟩
    | some best =>
      rw [hpick] at h ih
      rcases h with ⟨h, hr⟩ | ⟨h, hr⟩
      · rw [h]
        exact ⟨mem_cons_self, forall_mem_cons.mpr ⟨refl_of r _, fun x hx => trans_of r hr (ih.2 x hx)⟩⟩
      · rw [h]
        exact ⟨mem_cons_of_mem _ ih.1, forall_mem_cons.mpr ⟨hr, ih.2⟩⟩

theorem furthest_spec {cs : List (PlanCandidate κ)} {best : PlanCandidate κ} (h : furthest cs = some best) :
    best ∈ cs ∧ ∀ c ∈ cs, c.range.max ≤ best.range.max := by
  have := @choice_spec _ furthest (· ≥ ·) _ rfl (fun c cs => ?_) cs
  · rwa [h] at this
  · rw [furthest]
    grind

theorem furthest_eq_none {cs : List (PlanCandidate κ)} : furthest cs = none ↔ cs = [] := by
  cases cs with
  | nil => simp [furthest]
  | cons c cs =>
    unfold furthest
    cases furthest cs with
    | none => simp
    | some best =>
      dsimp only
      split <;> simp

theorem tightest_spec {cs : List (PlanCandidate κ)} {best : PlanCandidate κ} (h : tightest cs = some best) :
    best ∈ cs ∧ ∀ c ∈ cs, best.range.max ≤ c.range.max := by
  have := @choice_spec _ tightest (· ≤ ·) _ rfl (fun c cs => ?_) cs
  · rwa [h] at this
  · rw [tightest]
    grind

/-- How many candidates end beyond the cursor: picking one of them takes at least it away. -/
def ahead {κ : Type} (cands : List (PlanCandidate κ)) (cursor : Nat) : Nat := cands.countP fun c => cursor < c.range.max

theorem ahead_lt {cands : List (PlanCandidate κ)} {c : PlanCandidate κ} (hc : c ∈ cands) {cursor : Nat}
    (hlt : cursor < c.range.max) : ahead cands c.range.max < ahead cands cursor := by
  obtain ⟨s, t, rfl⟩ := append_of_mem hc
  have hmono : ∀ l : List (PlanCandidate κ), l.countP (fun x => c.range.max < x.range.max) ≤
      l.countP fun x => cursor < x.range.max := by
    intro l
    apply countP_mono_left
    intro x _ hx
    exact decide_eq_true (hlt.trans (of_decide_eq_true hx))
  have hs := hmono s
  have ht := hmono t
  simp only [ahead, countP_append, countP_cons, lt_irrefl, hlt, decide_true, decide_false, if_true]
  simp only [Bool.false_eq_true, if_false]
  omega

theorem ahead_le_length (cands : List (PlanCandidate κ)) (cursor : Nat) :
    ahead cands cursor ≤ cands.length := countP_le_length

/-- The files of a plan follow each other from the cursor on. -/
def FollowsFrom {κ : Type} (cands : List (PlanCandidate κ)) : Nat → List (PlanCandidate κ) → Prop
  | _, [] => True
  | cursor, c :: rest => c ∈ cands ∧ c.range.min = cursor + 1 ∧ FollowsFrom cands c.range.max rest

/-- Where a plan ends. -/
def endsAt {κ : Type} : Nat → List (PlanCandidate κ) → Nat
  | cursor, [] => cursor
  | _, c :: rest => endsAt c.range.max rest

/-- **A plan is a tiling up to the target.** -/
theorem planLoop_tiles {cands : List (PlanCandidate κ)} {target rounds cursor : Nat}
    {files : List (PlanCandidate κ)} (h : planLoop cands target rounds cursor = .ok files) :
    FollowsFrom cands cursor files ∧ (cursor ≤ target → endsAt cursor files = target) := by
  induction rounds generalizing cursor files with
  | zero =>
    unfold planLoop at h
    split at h
    · next hdone =>
      cases h
      exact ⟨trivial, fun hle => le_antisymm hle hdone⟩
    · cases h
  | succ rounds ih =>
    unfold planLoop at h
    split at h
    · next hdone =>
      cases h
      exact ⟨trivial, fun hle => le_antisymm hle hdone⟩
    dsimp only at h
    split at h
    · rename_i pick hpick
      split at h
      · cases h
      rename_i rest hrest
      cases h
      obtain ⟨hmem, hwithin⟩ := mem_filter.mp (furthest_spec hpick).1
      simp only [Bool.and_eq_true, decide_eq_true_eq] at hwithin
      obtain ⟨hfollows, hends⟩ := ih hrest
      exact ⟨⟨hmem, hwithin.1, hfollows⟩, fun _ => hends hwithin.2⟩
    · split at h <;> cases h

theorem planRestore_tiles {cands : List (PlanCandidate κ)} {floor target : Nat} {plan : RestorePlan κ}
    (h : planRestore cands floor target = .ok plan) :
    FollowsFrom cands floor plan.files ∧ (floor ≤ target → endsAt floor plan.files = target) := by
  rw [planRestore] at h
  split at h
  · cases h
  rename_i files hfiles
  cases h
  exact planLoop_tiles hfiles

end Compaction
end Walrust
