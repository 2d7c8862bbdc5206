import Walrust.Legacy.Ltx
import Walrust.Restore

/-!
# `Walrust.Legacy.Restore` — restoring from the LTX layout

`restore_legacy_ltx`: the newest snapshot, then the planned objects, LTX incrementals and merged HADBP objects
under one running chain value. The format of an object is told by its first bytes, not by where it lies.

* `findLatestLegacySnapshot` — the snapshot a restore starts from;
* `applyLegacyFile`, `applyLegacyFiles` — one planned object, and the plan;
* `restoreLegacyStaged` — everything up to SQLite's own integrity check, which `restoreLegacyLtx` adds.
-/

namespace Walrust
namespace Legacy

open Hadbp Ltx Compaction Restore

/-- `find_latest_legacy_snapshot_matching`: the newest generation, and in it the newest TXID; the first one of
    equals. -/
def findLatestLegacySnapshotMatching (included : Nat → Bool) (snapshots : List DiscoveredLtx) : Option DiscoveredLtx :=
  snapshots.foldl (fun best s =>
    if !included s.maxTxid then best
    else
      match best with
      | none => some s
      | some current =>
        if current.generation < s.generation ∨ (s.generation = current.generation ∧ current.maxTxid < s.maxTxid) then
          some s
        else best) none

/-- `find_latest_legacy_snapshot`, or `…_at_or_before` a point in time. -/
def findLatestLegacySnapshot (ltx : LtxCrate) (b : LtxBucket) (pointInTime : Option Nat) : Option DiscoveredLtx :=
  findLatestLegacySnapshotMatching (fun txid => pointInTime.all (txid ≤ ·)) (discoverLegacySnapshots ltx b)

/-- One planned object, onto the staged file. -/
def applyLegacyFile (ltx : LtxCrate) (ph : Physical) (range : SeqRange) (bytes : Bytes) (s : Staged) :
    Except RestoreError Staged :=
  if bytes.take 5 = Hadbp.magic then
    match decodeSqliteChangeset ph bytes with
    | .error e => .error (.other s!"failed to decode merged object during restore: {e}")
    | .ok cs =>
      match ph.verifyChain s.checksum cs with
      | .error e => .error (.integrity
          s!"restore chain broken at merged object (seq range {range.min}..={range.max}): {e}")
      | .ok () =>
        match applyDecodedChangesetToDb cs s.db with
        | .error e => .error (.other s!"failed to apply merged object during restore: {e}")
        | .ok db => .ok ⟨range.max, ltx.checksum (chainEnd cs), db⟩
  else
    match applyLtxToDbChecked ltx ph.sha64 bytes s.db s.checksum with
    | .error e => .error (.other e)
    | .ok r => .ok ⟨range.max, r.postApplyChecksum, r.db⟩

/-- The object is a merged one: restore tells by the magic. -/
def isMerged (bytes : Bytes) : Bool := bytes.take 5 = Hadbp.magic

theorem isMerged_wire (cs : PhysicalChangeset) : isMerged cs.wire = true := by
  rw [isMerged, PhysicalChangeset.wire]
  cases cs.declaredEndChecksum <;> simp [headerBytes, Hadbp.magic]

/-- An LTX object is not taken for a merged one. -/
theorem take_ne_magic {ltx : LtxCrate} {bytes : Bytes} {header : LtxHeader} (h : ltx.header bytes = .ok header) :
    bytes.take 5 ≠ Hadbp.magic := by
  intro hmagic
  have htake : (bytes.take 5).take 4 = ltxMagic := by
    rw [List.take_take]
    exact ltx.header_magic _ _ h
  rw [hmagic] at htake
  exact absurd htake (by decide)

/-- The planned objects in order. -/
def applyLegacyFiles (ltx : LtxCrate) (ph : Physical) (b : LtxBucket) :
    List LtxCandidate → Staged → Except RestoreError Staged
  | [], s => .ok s
  | cand :: rest, s =>
    match b.get cand.key with
    | none => .error (.other "missing legacy LTX object")
    | some bytes =>
      match applyLegacyFile ltx ph cand.range bytes s with
      | .error e => .error e
      | .ok s' => applyLegacyFiles ltx ph b rest s'

/-- The newest TXID of the bucket: a merged range may reach further than the generation folders. -/
def latestTxid (b : LtxBucket) : Nat :=
  max (discoverLegacyState b).1 (((gatherLegacyCandidates b).map (·.range.max)).max?.getD (discoverLegacyState b).1)

/-- The objects a restore from `floor` to `target` may use. -/
def planPool (b : LtxBucket) (floor target : Nat) : List LtxCandidate :=
  (gatherLegacyCandidates b).filter fun c => floor < c.range.max && c.range.min ≤ target

/-- `restore_reached_target`. -/
def restoreReachedTarget (finalTxid targetTxid : Nat) (explicitPit : Bool) : Except RestoreError Unit :=
  if explicitPit then
    if targetTxid < finalTxid then
      .error (.other (s!"restore overshot: reached TXID {finalTxid} but point-in-time target is {targetTxid} " ++
        "(no snapshot/chain at or before the requested point)"))
    else .ok ()
  else if finalTxid ≠ targetTxid then
    .error (.other (s!"restore incomplete: reached TXID {finalTxid} but latest is {targetTxid}. " ++
      "An incremental object is missing or the chain has a gap; the restored database does not reflect the " ++
      "latest committed state."))
  else .ok ()

section

variable (ltx : LtxCrate) (ph : Physical)

/-- The part of a restore that starts from a snapshot read back. -/
def replayLegacy (b : LtxBucket) (target : Nat) (base : Staged) :
    Except RestoreError Staged :=
  match planRestore (planPool b base.seq target) base.seq target with
  | .error e =>
    let later := ((discoverLegacySnapshots ltx b).map (·.maxTxid)).filter (base.seq < ·)
    .error (.plan (refineGapWithSnapshotSpans e later target))
  | .ok plan => applyLegacyFiles ltx ph b plan.files base

/-- `restore_legacy_ltx` up to the integrity check. -/
def restoreLegacyStaged (b : LtxBucket) (pointInTime : Option Nat) :
    Except RestoreError Staged :=
  if (discoverLegacyState b).1 = 0 then .error (.notFound "no LTX files found for database")
  else if pointInTime.any (latestTxid b < ·) then
    .error (.notFound (s!"requested point-in-time TXID {pointInTime.getD 0} is beyond the newest available TXID " ++
      s!"{latestTxid b} for database"))
  else
    let target := pointInTime.getD (latestTxid b)
    match findLatestLegacySnapshot ltx b pointInTime with
    | none => .error (.notFound "snapshot unavailable for database")
    | some snapshot =>
      match b.get snapshot.key with
      | none => .error (.other "missing legacy LTX object")
      | some bytes =>
        match decodeToDb ltx ph.sha64 bytes with
        | .error e => .error (.other e)
        | .ok decoded =>
          match replayLegacy ltx ph b target ⟨snapshot.maxTxid, decoded.postApplyChecksum, decoded.db⟩ with
          | .error e => .error e
          | .ok s =>
            match restoreReachedTarget s.seq target pointInTime.isSome with
            | .error e => .error e
            | .ok () => .ok s

/-- `restore_legacy_ltx`, with SQLite's `PRAGMA integrity_check` on the staged file. -/
def restoreLegacyLtx (integrityCheck : Bytes → String) (b : LtxBucket)
    (pointInTime : Option Nat) : Except RestoreError Staged :=
  match restoreLegacyStaged ltx ph b pointInTime with
  | .error e => .error e
  | .ok s =>
    if integrityCheck s.db ≠ "ok" then
      .error (.other s!"restored database failed integrity_check: {integrityCheck s.db}")
    else .ok s

end

end Legacy
end Walrust
