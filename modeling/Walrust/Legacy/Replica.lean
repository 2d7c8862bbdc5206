import Walrust.Legacy.FoldRestore

/-!
# `Walrust.Legacy.Replica` — the read replica

`replicate` polls the bucket. A replica without a database starts from the newest snapshot; afterwards it applies the
live incrementals above its TXID one by one, and where the next one does not follow on it starts again from a snapshot
that reaches at least as far. Every object goes to a staged copy that is checked and renamed into place; the TXID is
kept in a file of its own.

The listing is that of the generation folders: merged objects are not in it. A snapshot has a TXID of its own, so the
incremental behind it does not follow on from the one before it.

* `applyLtxToDb` — an incremental, whatever it chains from;
* `replicatePoll`, `Replica.restart` — the program;
* `returns_replicatePoll`, `returns_replicatePoll_loop` — what a poll does where nothing goes wrong.
-/

namespace Walrust
namespace Legacy

open Compaction Restore Lib List

variable {db : Bytes} {files fs : List DiscoveredLtx} {ltx : LtxCrate} {s : DiscoveredLtx}
  {sha64 : Bytes → UInt64}

/-! ## Applying without a chain value -/

/-- `apply_ltx_to_db`: no chain value is expected. -/
def applyLtxToDb (ltx : LtxCrate) (sha64 : Bytes → UInt64) (bytes db : Bytes) : Except String LtxApplied :=
  match ltx.header bytes with
  | .error e => .error e
  | .ok header =>
    let db' := writeLtxPages header.pageSize (ltx.pages bytes) db
    match ltx.finish bytes with
    | .page e => .error e
    | .trailer e => .error e
    | .done post =>
      match postChecksum ltx sha64 header (ltx.pages bytes) post db' with
      | .error e => .error e
      | .ok checksum => .ok ⟨header, db', checksum⟩

theorem applyLtxToDbChecked_eq {bytes : Bytes} {expected : UInt64} {header : LtxHeader}
    (hheader : ltx.header bytes = .ok header) (hpre : checkPre header expected = .ok ()) :
    applyLtxToDbChecked ltx sha64 bytes db expected = applyLtxToDb ltx sha64 bytes db := by
  rw [applyLtxToDbChecked, applyLtxToDb, hheader]
  dsimp only
  rewrite [hpre]
  rfl

/-- An incremental that the checked apply takes chains from the value expected. -/
theorem checkPre_of_applied {bytes : Bytes} {expected : UInt64} {header : LtxHeader} {a : LtxApplied}
    (h : applyLtxToDbChecked ltx sha64 bytes db expected = .ok a) (hheader : ltx.header bytes = .ok header) :
    checkPre header expected = .ok () := by
  rw [applyLtxToDbChecked, hheader] at h
  dsimp only at h
  split at h
  · cases h
  · assumption

/-- An incremental whose pages hash to its trailer applies to every file. -/
theorem applyLtxToDb_eq {ltx : LtxCrate} {sha64 : Bytes → UInt64} {bytes : Bytes} {header : LtxHeader}
    {pre post : UInt64} (hheader : ltx.header bytes = .ok header) (hfinish : ltx.finish bytes = .done post)
    (hpre : header.preApplyChecksum = some pre) (hpost : chainChecksum ltx sha64 pre (ltx.pages bytes) = post)
    (db : Bytes) : applyLtxToDb ltx sha64 bytes db =
      .ok ⟨header, writeLtxPages header.pageSize (ltx.pages bytes) db, post⟩ := by
  have hsum : ∀ db, postChecksum ltx sha64 header (ltx.pages bytes) post db = .ok post := by
    intro db
    simp [postChecksum, hpre, hpost]
  simp only [applyLtxToDb, hheader, hfinish, hsum]

theorem Follows.applyLtxToDb {pageSize : UInt32} {s : Staged} {l : Link} (h : Follows ltx sha64 pageSize s l)
    (db : Bytes) : Legacy.applyLtxToDb ltx sha64 l.bytes db =
      .ok ⟨l.header, writeLtxPages l.header.pageSize (ltx.pages l.bytes) db, l.post⟩ :=
  applyLtxToDb_eq h.header h.finish h.pre h.post.symm db

/-! ## Listings -/

/-- Every file of the generation folders. -/
def allFiles (ltx : LtxCrate) (b : LtxBucket) : List DiscoveredLtx :=
  (listLegacyGenerationFiles ltx b generationLive).map (LtxFile.discovered generationLive) ++
    snapshotGenerations ltx b (discoverLegacyState b).2

/-- `discover_all_legacy_ltx`: every file of the generation folders, by first TXID and generation. -/
def discoverAllLegacyLtx (ltx : LtxCrate) (b : LtxBucket) : List DiscoveredLtx :=
  (allFiles ltx b).mergeSort fun f g =>
    f.minTxid < g.minTxid || (f.minTxid = g.minTxid && f.generation ≤ g.generation)

/-- `is_snapshot` of a discovered file. -/
def DiscoveredLtx.isSnapshot (f : DiscoveredLtx) : Bool := Legacy.isSnapshot f.generation f.minTxid f.maxTxid

/-- `max_by_key` on the last TXID: the last one of equals. -/
def newestOf : List DiscoveredLtx → Option DiscoveredLtx :=
  List.foldl (fun best f =>
    match best with
    | none => some f
    | some g => if g.maxTxid ≤ f.maxTxid then some f else some g) none

section

variable (files : List DiscoveredLtx)

/-- `latest_snapshot`. -/
def latestSnapshot : Option DiscoveredLtx :=
  newestOf (files.filter DiscoveredLtx.isSnapshot)

/-- The snapshot to start again from where the next incremental begins at `minTxid`. -/
def gapSnapshot (minTxid : Nat) : Option DiscoveredLtx :=
  newestOf ((files.filter DiscoveredLtx.isSnapshot).filter (minTxid ≤ ·.maxTxid))

/-- The live incrementals above a TXID, in order. -/
def incrementalsAbove (txid : Nat) : List DiscoveredLtx :=
  (files.filter fun f => !f.isSnapshot && txid < f.minTxid).mergeSort fun f g => f.minTxid ≤ g.minTxid

end

/-- Files that begin at different TXIDs are listed by these. -/
theorem discoverAllLegacyLtx_eq {b : LtxBucket} (hperm : (b.keys.filterMap (discoveredOf ltx b)).Perm files)
    (hsorted : files.Pairwise (·.minTxid < ·.minTxid)) :
    discoverAllLegacyLtx ltx b = files := by
  have hlisted : (discoverAllLegacyLtx ltx b).Perm files :=
    (mergeSort_perm _ _).trans (generations_perm.trans hperm)
  refine hlisted.eq_of_pairwise ?_ (pairwise_mergeSort ?_ ?_ _) (hsorted.imp fun hlt => by simp [hlt])
  · intro f g hf hg hfg hgf
    have hdistinct : files.Pairwise (·.minTxid ≠ ·.minTxid) := hsorted.imp fun hlt => ne_of_lt hlt
    by_contra hne
    have : Std.Symm fun f g : DiscoveredLtx => f.minTxid ≠ g.minTxid := ⟨fun _ _ h => h.symm⟩
    have hmin := hdistinct.forall (hlisted.subset hf) hg hne
    simp only [Bool.or_eq_true, Bool.and_eq_true, decide_eq_true_eq] at hfg hgf
    omega
  · intro f g h hfg hgh
    simp only [Bool.or_eq_true, Bool.and_eq_true, decide_eq_true_eq] at hfg hgh ⊢
    omega
  · intro f g
    simp only [Bool.or_eq_true, Bool.and_eq_true, decide_eq_true_eq]
    omega

/-! ## The program -/

inductive ReplicaError where
  | s3 (msg : String)
  | notFound (msg : String)
  /-- "TXID gap in incremental chain (expected …, got … at …) and no snapshot at or past TXID … is available to
      re-bootstrap from". -/
  | gap (expected got : Nat) (key : LtxKey)
  | integrity (msg : String)
  | io (msg : String)
  deriving DecidableEq, Repr

inductive ReplicaStop where
  | failed (e : ReplicaError)
  | crashed
  deriving DecidableEq, Repr

/-- What an operation of the storage or of the local disk meets with. -/
inductive Mishap where
  | none
  | error
  | crash
  deriving DecidableEq, Repr

/-- An object that has been published to the local file. -/
structure AppliedLtx where
  bytes : Bytes
  snapshot : Bool
  pre : Option UInt64
  post : UInt64
  deriving DecidableEq, Repr

/-- The replica: the local file, the TXID the process stands at and the one in the state file. `applied` records the
    published objects, the newest first. -/
structure Replica where
  db : Option Bytes
  currentTxid : Nat
  saved : Option Nat
  ops : Nat
  applied : List AppliedLtx
  deriving DecidableEq, Repr

/-- Nothing local yet. -/
def Replica.fresh : Replica := ⟨none, 0, none, 0, []⟩

/-- The decoder, the hash, SQLite's `PRAGMA integrity_check`, and what each operation meets with; `dirSync` is for the
    fsync of the directory behind the rename of the database. -/
structure ReplicaEnv where
  ltx : LtxCrate
  sha64 : Bytes → UInt64
  integrityCheck : Bytes → String
  mishap : Nat → Mishap
  dirSync : Nat → Mishap

abbrev ReplicaRun := EStateM ReplicaStop Replica

section Program

variable (env : ReplicaEnv) (b : LtxBucket)

/-- One operation that may go wrong. -/
def attempt (mishap : Nat → Mishap) (e : ReplicaError) : ReplicaRun Unit := do
  let r ← get
  set { r with ops := r.ops + 1 }
  match mishap r.ops with
  | .none => pure ()
  | .error => throw (.failed e)
  | .crash => throw .crashed

/-- `s3::download_bytes`. -/
def downloadBytes (key : LtxKey) : ReplicaRun Bytes := do
  attempt env.mishap (.s3 "Download failed")
  match b.get key with
  | none => throw (.failed (.s3 "Download failed"))
  | some bytes => pure bytes

/-- The check, the rename and the record of what was published. The file is in place when the directory is synced: an
    error there is an error of the poll, which then does not reach the TXID. -/
def publishChecked (db : Bytes) (object : AppliedLtx) : ReplicaRun Unit := do
  if env.integrityCheck db ≠ "ok" then
    throw (.failed (.integrity s!"replica database failed integrity_check: {env.integrityCheck db}"))
  attempt env.mishap (.io "failed to atomically publish replica database")
  modify fun r => { r with db := some db, applied := object :: r.applied }
  attempt env.dirSync (.io "failed to fsync directory")

/-- `bootstrap_replica_from_snapshot`. -/
def bootstrapReplicaFromSnapshot (snapshot : DiscoveredLtx) : ReplicaRun Unit := do
  let bytes ← downloadBytes env b snapshot.key
  match decodeToDb env.ltx env.sha64 bytes with
  | .error e => throw (.failed (.integrity e))
  | .ok decoded => publishChecked env decoded.db ⟨bytes, true, none, decoded.postApplyChecksum⟩

/-- `apply_incremental_atomically`. -/
def applyIncrementalAtomically (bytes : Bytes) : ReplicaRun Unit := do
  let r ← get
  match r.db with
  | none => throw (.failed (.io "failed to stage replica copy"))
  | some db =>
    match applyLtxToDb env.ltx env.sha64 bytes db with
    | .error e => throw (.failed (.integrity e))
    | .ok applied =>
      publishChecked env applied.db ⟨bytes, false, applied.header.preApplyChecksum, applied.postApplyChecksum⟩

/-- The TXID moves on in memory, then in the state file. -/
def saveReplicaState (txid : Nat) : ReplicaRun Unit := do
  modify fun r => { r with currentTxid := txid }
  attempt env.mishap (.io "failed to atomically publish replica state")
  modify fun r => { r with saved := some txid }
  attempt env.mishap (.io "failed to fsync directory")

/-- Start again from a snapshot. -/
def rebase (snapshot : DiscoveredLtx) : ReplicaRun Nat := do
  bootstrapReplicaFromSnapshot env b snapshot
  saveReplicaState env snapshot.maxTxid
  return 1

/-- The loop over the incrementals. -/
def replicateLoop (files : List DiscoveredLtx) : Nat → List DiscoveredLtx → ReplicaRun Nat
  | applied, [] => pure applied
  | applied, f :: rest => do
    let r ← get
    if f.minTxid ≠ r.currentTxid + 1 then
      match gapSnapshot files f.minTxid with
      | none => throw (.failed (.gap (r.currentTxid + 1) f.minTxid f.key))
      | some snapshot => rebase env b snapshot
    else
      let bytes ← downloadBytes env b f.key
      applyIncrementalAtomically env bytes
      saveReplicaState env f.maxTxid
      replicateLoop files (applied + 1) rest

/-- The snapshot that a replica with no incremental above it starts again from. -/
def newerSnapshot (files : List DiscoveredLtx) (txid : Nat) : Option DiscoveredLtx :=
  (latestSnapshot files).filter (txid < ·.maxTxid)

/-- The part of a poll behind the listing. -/
def replicateFiles (files : List DiscoveredLtx) : ReplicaRun Nat := do
  let r ← get
  if r.currentTxid = 0 ∨ r.db = none then
    match latestSnapshot files with
    | none => throw (.failed (.notFound "snapshot unavailable for replica bootstrap"))
    | some snapshot => rebase env b snapshot
  else if incrementalsAbove files r.currentTxid = [] then
    match newerSnapshot files r.currentTxid with
    | none => pure 0
    | some snapshot => rebase env b snapshot
  else replicateLoop env b files 0 (incrementalsAbove files r.currentTxid)

/-- `replicate_poll`. -/
def replicatePoll : ReplicaRun Nat := do
  attempt env.mishap (.s3 "List failed")
  let files := discoverAllLegacyLtx env.ltx b
  if files = [] then
    throw (.failed (.notFound "no LTX files found in S3"))
  replicateFiles env b files

end Program

/-- The start of `replicate`: without the local file or the state file the TXID is 0. -/
def Replica.restart (r : Replica) : Replica :=
  { r with currentTxid := if r.db.isSome then r.saved.getD 0 else 0, ops := 0 }

/-! ## Polls without a mishap -/

theorem newestOf_concat (fs : List DiscoveredLtx) (f : DiscoveredLtx) :
    newestOf (fs ++ [f]) = match newestOf fs with
      | none => some f
      | some g => if g.maxTxid ≤ f.maxTxid then some f else some g := by
  rw [newestOf, foldl_append]
  rfl

theorem newestOf_spec (fs : List DiscoveredLtx) :
    (newestOf fs = none ↔ fs = []) ∧ ∀ s, newestOf fs = some s → s ∈ fs ∧ ∀ f ∈ fs, f.maxTxid ≤ s.maxTxid := by
  induction fs using reverseRecOn with
  | nil => exact ⟨by simp [newestOf], fun s hs => by cases hs⟩
  | append_singleton fs f ih =>
    rw [newestOf_concat]
    cases hnewest : newestOf fs with
    | none =>
      have hnil := ih.1.mp hnewest
      subst hnil
      refine ⟨by simp, fun s hs => ?_⟩
      cases hs
      simp
    | some g =>
      obtain ⟨hg, hle⟩ := ih.2 g hnewest
      dsimp only
      split
      · next h =>
        refine ⟨by simp, fun s hs => ?_⟩
        cases hs
        refine ⟨by simp, fun x hx => ?_⟩
        rcases mem_append.mp hx with hx | hx
        · exact (hle x hx).trans h
        · rw [mem_singleton.mp hx]
      · next h =>
        refine ⟨by simp, fun s hs => ?_⟩
        cases hs
        refine ⟨mem_append_left _ hg, fun x hx => ?_⟩
        rcases mem_append.mp hx with hx | hx
        · exact hle x hx
        · rw [mem_singleton.mp hx]
          omega

/-- Nothing goes wrong on the way. -/
def ReplicaEnv.Healthy (env : ReplicaEnv) : Prop := ∀ n, env.mishap n = .none ∧ env.dirSync n = .none

section Healthy

variable {env : ReplicaEnv} {b : LtxBucket} {r : Replica} {Q : Nat → Replica → Prop}

open Lib (Returns)

theorem returns_attempt {mishap : Nat → Mishap} (h : mishap r.ops = .none) {e : ReplicaError}
    {Q : Unit → Replica → Prop} : Returns (attempt mishap e) r Q ↔ Q () { r with ops := r.ops + 1 } := by
  simp [attempt, h]

theorem returns_downloadBytes (h : env.Healthy) {key : LtxKey} {Q : Bytes → Replica → Prop} :
    Returns (downloadBytes env b key) r Q ↔ ∃ bytes, b.get key = some bytes ∧ Q bytes { r with ops := r.ops + 1 } := by
  rw [downloadBytes, returns_bind, returns_attempt (h _).1]
  cases b.get key <;> simp

theorem returns_publishChecked (h : env.Healthy) {object : AppliedLtx} {Q : Unit → Replica → Prop} :
    Returns (publishChecked env db object) r Q ↔ env.integrityCheck db = "ok" ∧
      Q () { r with db := some db, ops := r.ops + 2, applied := object :: r.applied } := by
  rw [publishChecked]
  by_cases hcheck : env.integrityCheck db = "ok"
  · simp [hcheck, returns_attempt (h _).1, returns_attempt (h _).2]
  · simp [hcheck]

theorem returns_saveReplicaState (h : env.Healthy) {txid : Nat} {Q : Unit → Replica → Prop} :
    Returns (saveReplicaState env txid) r Q ↔
      Q () { r with currentTxid := txid, saved := some txid, ops := r.ops + 2 } := by
  simp [saveReplicaState, returns_attempt (h _).1]

theorem returns_rebase (h : env.Healthy) :
    Returns (rebase env b s) r Q ↔ ∃ bytes decoded, b.get s.key = some bytes ∧
      decodeToDb env.ltx env.sha64 bytes = .ok decoded ∧ env.integrityCheck decoded.db = "ok" ∧
      Q 1 ⟨some decoded.db, s.maxTxid, some s.maxTxid, r.ops + 5,
        ⟨bytes, true, none, decoded.postApplyChecksum⟩ :: r.applied⟩ := by
  rw [rebase, returns_bind, bootstrapReplicaFromSnapshot, returns_bind, returns_downloadBytes h]
  constructor
  · rintro ⟨bytes, hget, hrun⟩
    cases hdecode : decodeToDb env.ltx env.sha64 bytes with
    | error e => simp [hdecode] at hrun
    | ok decoded =>
      rw [hdecode] at hrun
      simp only [returns_publishChecked h, returns_bind, returns_saveReplicaState h, returns_pure] at hrun
      exact ⟨bytes, decoded, hget, hdecode, hrun.1, hrun.2⟩
  · rintro ⟨bytes, decoded, hget, hdecode, hcheck, hQ⟩
    refine ⟨bytes, hget, ?_⟩
    rw [hdecode]
    simp only [returns_publishChecked h, returns_bind, returns_saveReplicaState h, returns_pure]
    exact ⟨hcheck, hQ⟩

theorem returns_applyIncrementalAtomically (h : env.Healthy) {bytes : Bytes} (hdb : r.db = some db)
    {Q : Unit → Replica → Prop} :
    Returns (applyIncrementalAtomically env bytes) r Q ↔ ∃ a, applyLtxToDb env.ltx env.sha64 bytes db = .ok a ∧
      env.integrityCheck a.db = "ok" ∧ Q () { r with
        db := some a.db, ops := r.ops + 2,
        applied := ⟨bytes, false, a.header.preApplyChecksum, a.postApplyChecksum⟩ :: r.applied } := by
  rw [applyIncrementalAtomically, returns_bind, returns_get, hdb]
  dsimp only
  cases happly : applyLtxToDb env.ltx env.sha64 bytes db with
  | error e => simp
  | ok a => simp [returns_publishChecked h]

theorem returns_replicateLoop_next (h : env.Healthy) {f : DiscoveredLtx} {n : Nat} {bytes : Bytes} {a : LtxApplied}
    (hnext : f.minTxid = r.currentTxid + 1) (hget : b.get f.key = some bytes) (hdb : r.db = some db)
    (happly : applyLtxToDb env.ltx env.sha64 bytes db = .ok a) (hcheck : env.integrityCheck a.db = "ok")
    (hrest : Returns (replicateLoop env b files (n + 1) fs) ⟨some a.db, f.maxTxid, some f.maxTxid, r.ops + 5,
      ⟨bytes, false, a.header.preApplyChecksum, a.postApplyChecksum⟩ :: r.applied⟩ Q) :
    Returns (replicateLoop env b files n (f :: fs)) r Q := by
  rw [replicateLoop, returns_bind, returns_get, if_neg (not_not.mpr hnext), returns_bind, returns_downloadBytes h]
  refine ⟨bytes, hget, ?_⟩
  rw [returns_bind, @returns_applyIncrementalAtomically db env { r with ops := r.ops + 1 } h bytes hdb]
  refine ⟨a, happly, hcheck, ?_⟩
  rw [returns_bind, returns_saveReplicaState h]
  exact hrest

/-- A poll needs something to list. -/
theorem returns_replicatePoll (h : env.Healthy) :
    Returns (replicatePoll env b) r Q ↔ discoverAllLegacyLtx env.ltx b ≠ [] ∧
      Returns (replicateFiles env b (discoverAllLegacyLtx env.ltx b)) { r with ops := r.ops + 1 } Q := by
  rw [replicatePoll, returns_bind, returns_attempt (h _).1]
  by_cases hfiles : discoverAllLegacyLtx env.ltx b = []
  · simp [hfiles]
  · simp [hfiles]

/-- A replica that has nothing starts from the newest snapshot. -/
theorem returns_replicateFiles_boot (hnothing : r.currentTxid = 0 ∨ r.db = none) :
    Returns (replicateFiles env b files) r Q ↔
      ∃ s, latestSnapshot files = some s ∧ Returns (rebase env b s) r Q := by
  rw [replicateFiles, returns_bind, returns_get, if_pos hnothing]
  cases latestSnapshot files with
  | none => simp
  | some s => simp

theorem returns_replicateFiles_loop (hzero : r.currentTxid ≠ 0) (hdb : r.db ≠ none)
    (habove : incrementalsAbove files r.currentTxid ≠ []) :
    Returns (replicateFiles env b files) r Q ↔
      Returns (replicateLoop env b files 0 (incrementalsAbove files r.currentTxid)) r Q := by
  rw [replicateFiles, returns_bind, returns_get, if_neg (not_or.mpr ⟨hzero, hdb⟩), if_neg habove]

theorem returns_replicatePoll_loop (h : env.Healthy) (hzero : r.currentTxid ≠ 0) (hdb : r.db ≠ none)
    (habove : incrementalsAbove (discoverAllLegacyLtx env.ltx b) r.currentTxid = fs)
    (hfs : fs ≠ []) : Returns (replicatePoll env b) r Q ↔
      Returns (replicateLoop env b (discoverAllLegacyLtx env.ltx b) 0 fs) { r with ops := r.ops + 1 } Q := by
  have hfiles : discoverAllLegacyLtx env.ltx b ≠ [] := by
    intro hnil
    rw [hnil] at habove
    exact hfs (habove.symm.trans mergeSort_nil)
  subst habove
  rw [returns_replicatePoll h, and_iff_right hfiles]
  exact returns_replicateFiles_loop (r := { r with ops := r.ops + 1 }) hzero hdb hfs

end Healthy

/-! ### A merged object, and live incrementals -/

/-- Sound databases, no mishap. -/
def twoEnv (commit : Nat) : ReplicaEnv := ⟨twoCrate commit, twoSha64, fun _ => "ok", fun _ => .none, fun _ => .none⟩

theorem healthy_twoEnv (commit : Nat) : (twoEnv commit).Healthy := fun _ => ⟨rfl, rfl⟩

/-- The replica behind its first poll. -/
def twoReplica : Replica :=
  ⟨some twoPages, 1, some 1, 6, [⟨ltxObject 1, true, none, 0xaddfe0faea440b60⟩]⟩

/-- A replica that has nothing starts from the newest snapshot. -/
theorem replicatePoll_fresh {env : ReplicaEnv} (h : env.Healthy) {b : LtxBucket} {bytes : Bytes}
    {decoded : LtxApplied} (hlatest : latestSnapshot (discoverAllLegacyLtx env.ltx b) = some s)
    (hget : b.get s.key = some bytes) (hdecode : decodeToDb env.ltx env.sha64 bytes = .ok decoded)
    (hcheck : env.integrityCheck decoded.db = "ok") :
    replicatePoll env b Replica.fresh = .ok 1 ⟨some decoded.db, s.maxTxid, some s.maxTxid, 6,
      [⟨bytes, true, none, decoded.postApplyChecksum⟩]⟩ := by
  have hsome : discoverAllLegacyLtx env.ltx b ≠ [] := by
    intro hnil
    rw [hnil] at hlatest
    cases hlatest
  have hrun : Returns (replicatePoll env b) Replica.fresh fun n r => n = 1 ∧
      r = ⟨some decoded.db, s.maxTxid, some s.maxTxid, 6, [⟨bytes, true, none, decoded.postApplyChecksum⟩]⟩ := by
    rw [returns_replicatePoll h, returns_replicateFiles_boot (.inl rfl)]
    refine ⟨hsome, s, hlatest, ?_⟩
    apply (returns_rebase h).mpr
    exact ⟨_, _, hget, hdecode, hcheck, rfl, rfl⟩
  obtain ⟨n, r, hpoll, rfl, rfl⟩ := hrun
  exact hpoll

theorem discover_flatTwo (ltx : LtxCrate) : discoverAllLegacyLtx ltx flatTwo =
    [twoSnapshot, ⟨.file 0 2 2, 0, 2, 2⟩, ⟨.file 0 3 3, 0, 3, 3⟩] :=
  discoverAllLegacyLtx_eq (.refl _) (by simp [twoSnapshot])

/-- The two incrementals, as they are listed. -/
def twoIncrementals : List DiscoveredLtx := [⟨.file 0 2 2, 0, 2, 2⟩, ⟨.file 0 3 3, 0, 3, 3⟩]

theorem incrementals_flatTwo (ltx : LtxCrate) :
    incrementalsAbove (discoverAllLegacyLtx ltx flatTwo) 1 = twoIncrementals := by
  have hkept : (discoverAllLegacyLtx ltx flatTwo).filter (fun f => !f.isSnapshot && 1 < f.minTxid) =
      twoIncrementals := by
    rw [discover_flatTwo]
    decide
  rw [incrementalsAbove, hkept]
  exact mergeSort_of_pairwise (by simp [twoIncrementals])

theorem replicatePoll_flatTwo : replicatePoll (twoEnv 2) flatTwo Replica.fresh = .ok 1 twoReplica := by
  have hlatest : latestSnapshot (discoverAllLegacyLtx (twoCrate 2) flatTwo) = some twoSnapshot := by
    rw [discover_flatTwo]
    rfl
  exact replicatePoll_fresh (healthy_twoEnv 2) hlatest rfl (decode_twoBase 2) rfl

end Legacy
end Walrust
