import Walrust.Compaction.Planner
import Walrust.Ltx.Codec

/-!
# `Walrust.Restore` — restoring a database from the bucket

`sync::restore`: the newest snapshot at or before the target, then either the linear chain of incrementals
or, in a leveled bucket, the objects of a plan.

* `applyIncrementals` — the linear path: consecutive seqs, each continuing the checksum chain;
* `applyPlan` — the leveled path: objects in plan order, linked through `chainEnd`;
* `restoreStaged` — everything up to SQLite's own integrity check, which `restore` adds.
-/

namespace Walrust
namespace Restore

open Hadbp Ltx Compaction

variable {b : Bucket}

inductive RestoreError where
  | notFound (msg : String)
  /-- The linear path met a seq it did not expect. -/
  | incrementalGap (expected got : Nat)
  | plan (e : PlanError)
  | listing (e : CompactionError)
  | integrity (msg : String)
  | other (msg : String)
  deriving DecidableEq, Repr

structure RestoreResult where
  seq : Nat
  checksum : UInt64
  db : Bytes
  lineageId : Option String
  latest : Bool
  deriving DecidableEq, Repr

/-- A staged database and where its chain stands. -/
structure Staged where
  seq : Nat
  checksum : UInt64
  db : Bytes
  deriving DecidableEq, Repr

/-- Apply the incrementals `seqs` in order. -/
def applyIncrementals (ph : Physical) (b : Bucket) (lineage : Option String) :
    List Nat → Staged → Except RestoreError Staged
  | [], s => .ok s
  | n :: rest, s =>
    if n ≠ s.seq + 1 then .error (.incrementalGap (s.seq + 1) n)
    else
      match b.get (.changeset lineage .live n) with
      | none => .error (.other "incremental key not found")
      | some data =>
        match applyChangesetToDb ph data s.db s.checksum with
        | .error e => .error (.other e)
        | .ok r => applyIncrementals ph b lineage rest ⟨n, r.checksum, r.db⟩

/-- The object loop of `apply_plan_with_checksum`. -/
def applyFiles (ph : Physical) (b : Bucket) : List PlanCandidate → Staged → Except RestoreError Staged
  | [], s => .ok s
  | cand :: rest, s =>
    match b.get cand.key with
    | none => .error (.other "restore prefetch failed: missing object")
    | some bytes =>
      match decodeSqliteChangeset ph bytes with
      | .error e => .error (.other s!"failed to decode restore object: {e}")
      | .ok cs =>
        match ph.verifyChain s.checksum cs with
        | .error e => .error (.integrity
            s!"restore chain broken (seq range {cand.range.min}..={cand.range.max}): {e}")
        | .ok () =>
          match applyDecodedChangesetToDb cs s.db with
          | .error e => .error (.other s!"failed to apply restore object: {e}")
          | .ok db => applyFiles ph b rest ⟨cand.range.max, chainEnd cs, db⟩

/-- `apply_plan_with_checksum` onto the staged base. -/
def applyPlan (ph : Physical) (b : Bucket) (plan : RestorePlan) (base : Staged) :
    Except RestoreError Staged :=
  match applyFiles ph b plan.files { base with seq := plan.floor } with
  | .error e => .error e
  | .ok s =>
    if s.seq ≠ plan.target then
      .error (.other s!"restore incomplete: reached seq {s.seq} but target is {plan.target}")
    else .ok s

/-- The linear path from a staged snapshot. -/
def restoreLinear (ph : Physical) (b : Bucket) (lineage : Option String) (target : Option Nat)
    (base : Staged) : Except RestoreError Staged :=
  let incrementals := discoverAfter b lineage .live base.seq
  let wanted := match target with
    | some t => incrementals.filter (· ≤ t)
    | none => incrementals
  applyIncrementals ph b lineage wanted base

/-- The newest seq the candidates or the snapshot reach. -/
def maxAvailable (candidates : List PlanCandidate) (floor : Nat) : Nat :=
  (candidates.map fun c => c.range.max).foldl max floor

/-- The leveled path from a staged snapshot. -/
def restoreLeveled (ph : Physical) (b : Bucket) (lineage : Option String) (target : Option Nat)
    (base : Staged) : Except RestoreError Staged :=
  match gatherCandidates b base.seq (2 ^ 64 - 1) with
  | .error e => .error (.listing e)
  | .ok candidates =>
    let newest := maxAvailable candidates base.seq
    let goal := target.getD newest
    if newest < goal then
      .error (.notFound (s!"requested point-in-time seq {goal} is beyond the newest available seq " ++
        s!"{newest}"))
    else
      match planRestore candidates base.seq goal with
      | .error e =>
        let later := ((discoverLatestSnapshot b lineage).filter (base.seq < ·)).toList
        .error (.plan (refineGapWithSnapshotSpans e later goal))
      | .ok plan => applyPlan ph b plan base

/-- The snapshot a restore starts from. -/
def baseSnapshot (b : Bucket) (lineage : Option String) (target : Option Nat) : Option Nat :=
  match target with
  | some t => discoverLatestSnapshotAtOrBefore b lineage t
  | none => discoverLatestSnapshot b lineage

/-- `restore` up to the integrity check. -/
def restoreStaged (ph : Physical) (b : Bucket) (lineage : Option String) (target : Option Nat) :
    Except RestoreError RestoreResult :=
  match baseSnapshot b lineage target with
  | none => .error (.notFound "snapshot unavailable")
  | some seq =>
    match b.get (.changeset lineage .snapshot seq) with
    | none => .error (.other "snapshot key not found")
    | some data =>
      match decodeToDb ph data with
      | .error e => .error (.other e)
      | .ok decoded =>
        let base : Staged := ⟨seq, decoded.checksum, decoded.db⟩
        -- compaction only ever runs on the flat namespace
        let leveled : Except CompactionError Bool :=
          if lineage = none then
            match listMergedRanges b with
            | .error e => .error e
            | .ok ranges => .ok (!ranges.isEmpty)
          else .ok false
        match leveled with
        | .error e => .error (.listing e)
        | .ok leveled =>
          let applied :=
            if leveled then restoreLeveled ph b lineage target base
            else restoreLinear ph b lineage target base
          match applied with
          | .error e => .error e
          | .ok s => .ok ⟨s.seq, s.checksum, s.db, lineage, target.isNone⟩

/-- `restore`, with SQLite's `PRAGMA integrity_check` on the staged file. -/
def restore (ph : Physical) (integrityCheck : Bytes → String) (b : Bucket) (lineage : Option String)
    (target : Option Nat) : Except RestoreError RestoreResult :=
  match restoreStaged ph b lineage target with
  | .error e => .error e
  | .ok r =>
    if integrityCheck r.db ≠ "ok" then
      .error (.other s!"restored database failed integrity_check: {integrityCheck r.db}")
    else .ok r

/-! ## The linear path -/

/-- A bucket without merged objects. -/
def Unleveled (b : Bucket) : Prop := ∀ level min max, b.get (.merged level min max) = none

theorem listLevels_unleveled (h : Unleveled b) {level n : Nat} (hlevel : 0 < level) :
    listLevels b level n = .ok [] := by
  have hfiles : ∀ (l : Level), 0 < l → ∀ keys, (∀ k ∈ keys, k ∈ b.keys) → readFiles b l keys = .ok [] := by
    intro l hl keys hmem
    induction keys with
    | nil => rfl
    | cons k keys ih =>
      have hnone : keyRange l k = none := by
        cases k with
        | changeset lineage g seq =>
          cases lineage <;> cases g <;> simp [keyRange, ne_of_gt hl]
        | envelope seq => rfl
        | merged level min max =>
          have := Lib.Store.mem_keys.mp (hmem _ List.mem_cons_self)
          simp [h level min max] at this
      simp only [readFiles, hnone]
      exact ih fun k hk => hmem k (List.mem_cons_of_mem _ hk)
  induction n generalizing level with
  | zero => rfl
  | succ n ih =>
    simp only [listLevels, listLevel, hfiles level hlevel b.keys fun _ hk => hk, List.mergeSort_nil,
      ih (Nat.succ_pos level), List.append_nil]

theorem listMergedRanges_unleveled (h : Unleveled b) : listMergedRanges b = .ok [] := by
  simp [listMergedRanges, listLevels_unleveled h one_pos]

/-- On an un-leveled bucket a restore is its snapshot followed by the linear path. -/
theorem restoreStaged_unleveled {ph : Physical} (h : Unleveled b) {lineage : Option String}
    {target : Option Nat} {seq : Nat} {data : Bytes} {decoded : Applied}
    (hbase : baseSnapshot b lineage target = some seq)
    (hget : b.get (.changeset lineage .snapshot seq) = some data) (hdec : decodeToDb ph data = .ok decoded) :
    restoreStaged ph b lineage target =
      match restoreLinear ph b lineage target ⟨seq, decoded.checksum, decoded.db⟩ with
      | .error e => .error e
      | .ok s => .ok ⟨s.seq, s.checksum, s.db, lineage, target.isNone⟩ := by
  unfold restoreStaged
  by_cases hl : lineage = none
  · simp [hbase, hget, hdec, listMergedRanges_unleveled h]
  · simp [hbase, hget, hdec, hl]

end Restore
end Walrust
