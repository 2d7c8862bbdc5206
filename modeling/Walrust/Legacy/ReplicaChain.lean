import Walrust.Legacy.Replica

/-!
# `Walrust.Legacy.ReplicaChain` — what a replica has applied

A restore compares every incremental with the chain value it stands at; the replica does not, it only compares TXIDs.
Between polls it keeps a TXID and nothing else: the chain value of the object it applied last is in no file.

So the replica follows one chain exactly as long as TXIDs stand for chain values: the objects that are listed lie on
one chain, one value for each TXID, and the TXID that a restart reads is that of the file it finds. The second can
fail on its own, in a crash between publishing the file and publishing the TXID, or where the fsync between the two
reports an error: the next poll then takes the file for the one before it.

* `replayed` — the published objects, replayed with the checks of a restore;
* `Chained` — each incremental chains from the object before it, and the file is what the replay gives;
* `replica_applies_chained` — every run on one chain is so.
-/

namespace Walrust
namespace Legacy

open Compaction Lib List
open Lib (Triple)

variable {r : Replica}

/-! ## What was applied -/

/-- The published objects (the newest first) as a restore applies them: a snapshot is decoded, an incremental must
    chain from what the objects before it have left. -/
def replayed (ltx : LtxCrate) (sha64 : Bytes → UInt64) : List AppliedLtx → Option LtxApplied
  | [] => none
  | e :: earlier =>
    if e.snapshot then (decodeToDb ltx sha64 e.bytes).toOption
    else (replayed ltx sha64 earlier).bind fun a =>
      (applyLtxToDbChecked ltx sha64 e.bytes a.db a.postApplyChecksum).toOption

/-- Every incremental carries the chain value of the object that was applied just before it. -/
def Linked : List AppliedLtx → Prop
  | [] => True
  | e :: earlier => (e.snapshot ∨ ∃ p ∈ earlier.head?, e.pre = some p.post) ∧ Linked earlier

/-- The chain is unbroken and the local file is its replay. -/
def Chained (ltx : LtxCrate) (sha64 : Bytes → UInt64) (r : Replica) : Prop :=
  Linked r.applied ∧ r.db = (replayed ltx sha64 r.applied).map LtxApplied.db ∧ (r.applied ≠ [] → r.db.isSome)

/-! ## Runs -/

/-- What happens to a replica: a poll of what the bucket then holds, with its mishaps, or a restart. -/
inductive ReplicaStep where
  | poll (b : LtxBucket) (mishap dirSync : Nat → Mishap)
  | restart

def Replica.step (env : ReplicaEnv) (r : Replica) : ReplicaStep → Replica
  | .poll b mishap dirSync => final (replicatePoll { env with mishap := mishap, dirSync := dirSync } b r)
  | .restart => r.restart

/-- The listed objects lie on one chain: at each TXID stands one value. -/
structure OneChain (ltx : LtxCrate) (sha64 : Bytes → UInt64) (val : Nat → UInt64) (b : LtxBucket) : Prop where
  snapshot : ∀ f ∈ discoverAllLegacyLtx ltx b, f.isSnapshot → ∀ bytes decoded, b.get f.key = some bytes →
    decodeToDb ltx sha64 bytes = .ok decoded → decoded.postApplyChecksum = val f.maxTxid
  incremental : ∀ f ∈ discoverAllLegacyLtx ltx b, f.isSnapshot = false → ∀ bytes header, b.get f.key = some bytes →
    ltx.header bytes = .ok header → header.preApplyChecksum = some (val (f.minTxid - 1)) ∧
      chainChecksum ltx sha64 (val (f.minTxid - 1)) (ltx.pages bytes) = val f.maxTxid

/-- A poll meets objects of the chain, and nothing happens to it right behind the rename of the database; a restart
    finds no file, no state, or the state of that file. -/
def Replica.OnChain (env : ReplicaEnv) (val : Nat → UInt64) (r : Replica) : ReplicaStep → Prop
  | .poll b _ dirSync => OneChain env.ltx env.sha64 val b ∧ ∀ n, dirSync n = .none
  | .restart => r.db = none ∨ r.saved = none ∨ r.saved = some r.currentTxid

/-- The states of the runs that begin with nothing local. -/
inductive ReplicaReach (env : ReplicaEnv) (val : Nat → UInt64) : Replica → Prop where
  | fresh : ReplicaReach env val Replica.fresh
  | step {r : Replica} (step : ReplicaStep) : ReplicaReach env val r → r.OnChain env val step →
      ReplicaReach env val (r.step env step)

/-! ## The invariant -/

section Invariant

variable (ltx : LtxCrate) (sha64 : Bytes → UInt64) (val : Nat → UInt64)

/-- **The file stands at a TXID**: what was applied is linked and replays to the file, with the chain value of the
    TXID. -/
def StandsAt (txid : Nat) (r : Replica) : Prop :=
  ∃ e earlier a, r.applied = e :: earlier ∧ Linked (e :: earlier) ∧ replayed ltx sha64 (e :: earlier) = some a ∧
    r.db = some a.db ∧ a.postApplyChecksum = val txid ∧ e.post = val txid

/-- Nothing was applied, or the file stands at a TXID, and that is the replica's unless it has lost it. -/
def Tracks (r : Replica) : Prop :=
  (r.applied = [] ∧ r.db = none) ∨ ∃ txid, StandsAt ltx sha64 val txid r ∧ (r.currentTxid = txid ∨ r.currentTxid = 0)

end Invariant

section Invariant

variable {ltx : LtxCrate} {sha64 : Bytes → UInt64} {val : Nat → UInt64} {txid : Nat} {bytes db : Bytes}

theorem Tracks.chained (h : Tracks ltx sha64 val r) : Chained ltx sha64 r := by
  rcases h with ⟨hnone, hdb⟩ | ⟨txid, ⟨e, earlier, a, happlied, hlinked, hreplay, hdb, -, -⟩, -⟩
  · rw [Chained, hnone, hdb]
    exact ⟨trivial, rfl, fun h => absurd rfl h⟩
  · rw [Chained, happlied, hreplay, hdb]
    exact ⟨hlinked, rfl, fun _ => rfl⟩

/-- What an apply has read, and the chain value it leaves. -/
theorem applyLtxToDb_ok {applied : LtxApplied} (h : applyLtxToDb ltx sha64 bytes db = .ok applied) :
    ltx.header bytes = .ok applied.header ∧ ∀ pre, applied.header.preApplyChecksum = some pre →
      applied.postApplyChecksum = chainChecksum ltx sha64 pre (ltx.pages bytes) := by
  rw [applyLtxToDb] at h
  split at h
  · cases h
  rename_i header hheader
  dsimp only at h
  split at h
  · cases h
  · cases h
  split at h
  · cases h
  rename_i c hpost
  cases h
  refine ⟨hheader, ?_⟩
  intro pre hpre
  rw [postChecksum, hpre] at hpost
  dsimp only at hpost
  split at hpost
  · cases hpost
  injection hpost with hpost
  exact hpost.symm

/-- A decoded snapshot stands at its own TXID, whatever was applied before. -/
theorem standsAt_snapshot {decoded : LtxApplied} (hdecode : decodeToDb ltx sha64 bytes = .ok decoded)
    (hval : decoded.postApplyChecksum = val txid) (hlinked : Linked r.applied) {ops : Nat} :
    StandsAt ltx sha64 val txid { r with
      db := some decoded.db, ops := ops, applied := ⟨bytes, true, none, decoded.postApplyChecksum⟩ :: r.applied } := by
  refine ⟨_, _, decoded, rfl, ⟨Or.inl rfl, hlinked⟩, ?_, rfl, hval, hval⟩
  simp [replayed, hdecode, Except.toOption]

/-- An incremental with the right values leads from one TXID to another, as a restore would apply it. -/
theorem StandsAt.incremental {txid' : Nat} {applied : LtxApplied} (h : StandsAt ltx sha64 val txid r)
    (hdb : r.db = some db) (happly : applyLtxToDb ltx sha64 bytes db = .ok applied)
    (hpre : applied.header.preApplyChecksum = some (val txid)) (hpost : applied.postApplyChecksum = val txid')
    (ops : Nat) :
    StandsAt ltx sha64 val txid' { r with
      db := some applied.db, ops := ops,
      applied := ⟨bytes, false, applied.header.preApplyChecksum, applied.postApplyChecksum⟩ :: r.applied } := by
  obtain ⟨e, earlier, a, happlied, hlinked, hreplay, hfile, hsum, he⟩ := h
  obtain rfl : a.db = db := Option.some.inj (hfile.symm.trans hdb)
  have hchecked : applyLtxToDbChecked ltx sha64 bytes a.db a.postApplyChecksum = .ok applied := by
    obtain ⟨hheader, -⟩ := applyLtxToDb_ok happly
    rw [applyLtxToDbChecked_eq hheader, happly]
    rw [checkPre, hpre, hsum]
    simp
  refine ⟨_, _, applied, rfl, ⟨Or.inr ⟨e, ?_, ?_⟩, ?_⟩, ?_, rfl, hpost, hpost⟩
  · rw [happlied]
    rfl
  · rw [he]
    exact hpre
  · rw [happlied]
    exact hlinked
  · rw [happlied, replayed, hreplay]
    simp [hchecked, Except.toOption]

end Invariant

/-! ## One poll -/

section Poll

variable {env : ReplicaEnv} {b : LtxBucket} {val : Nat → UInt64}

variable {files : List DiscoveredLtx} {s : DiscoveredLtx}

/-- A mishap leaves what does not depend on the number of operations. -/
theorem attempt_triple {P : Replica → Prop} (hP : ∀ r n, P r → P { r with ops := n }) {mishap : Nat → Mishap}
    {e : ReplicaError} : Triple P (attempt mishap e) (fun _ => P) (fun _ => P) := by
  apply Triple.get_bind
  intro r hr
  apply Triple.bind (M := fun _ => P)
  · exact fun _ _ => hP r _ hr
  intro _
  cases mishap r.ops <;> exact fun _ h => h

theorem downloadBytes_triple {P : Replica → Prop} (hP : ∀ r n, P r → P { r with ops := n }) (key : LtxKey) :
    Triple P (downloadBytes env b key) (fun bytes r => b.get key = some bytes ∧ P r) (fun _ => P) := by
  apply Triple.bind (attempt_triple hP)
  intro _
  cases hget : b.get key with
  | none => exact fun r hr => hr
  | some bytes => exact fun r hr => ⟨rfl, hr⟩

/-- A database that is refused, or does not get into place, leaves the file as it was. -/
theorem publishChecked_triple (hsync : ∀ n, env.dirSync n = .none) {P Q : Replica → Prop}
    (hP : ∀ r n, P r → P { r with ops := n }) {db : Bytes} {object : AppliedLtx}
    (hQ : ∀ r n, P r → Q { r with db := some db, ops := n, applied := object :: r.applied }) :
    Triple P (publishChecked env db object) (fun _ => Q) (fun _ => P) := by
  rw [publishChecked]
  split
  · exact fun r hr => hr
  · apply Triple.bind (attempt_triple hP)
    intro _
    apply Triple.bind (M := fun _ r => Q { r with ops := r.ops + 1 })
    · exact fun r hr => hQ r _ hr
    · intro _ r hr
      obtain ⟨_, t, hrun, ht⟩ := (returns_attempt (Q := fun _ => Q) (hsync r.ops)).mpr hr
      rw [hrun]
      exact ht

theorem StandsAt.tracks {ltx : LtxCrate} {sha64 : Bytes → UInt64}
    (h : StandsAt ltx sha64 val r.currentTxid r) : Tracks ltx sha64 val r := .inr ⟨_, h, .inl rfl⟩

/-- The TXID follows the file, in memory at once. -/
theorem saveReplicaState_triple (txid : Nat) :
    Triple (StandsAt env.ltx env.sha64 val txid) (saveReplicaState env txid)
      (fun _ r => StandsAt env.ltx env.sha64 val r.currentTxid r)
      (fun _ r => StandsAt env.ltx env.sha64 val r.currentTxid r) := by
  apply Triple.bind (M := fun _ r => StandsAt env.ltx env.sha64 val r.currentTxid r)
  · exact fun r hr => hr
  · intro _
    apply Triple.bind (attempt_triple (fun _ _ hr => hr))
    intro _
    apply Triple.bind (M := fun _ r => StandsAt env.ltx env.sha64 val r.currentTxid r)
    · exact fun r hr => hr
    · intro _
      exact attempt_triple (fun _ _ hr => hr)

theorem latestSnapshot_mem (h : latestSnapshot files = some s) :
    s ∈ files ∧ s.isSnapshot := mem_filter.mp ((newestOf_spec _).2 s h).1

theorem gapSnapshot_mem {txid : Nat} (h : gapSnapshot files txid = some s) : s ∈ files ∧ s.isSnapshot :=
  mem_filter.mp (mem_filter.mp ((newestOf_spec _).2 s h).1).1

theorem incrementalsAbove_mem {txid : Nat} {f : DiscoveredLtx} (h : f ∈ incrementalsAbove files txid) :
    f ∈ files ∧ f.isSnapshot = false := by
  obtain ⟨hf, hkeep⟩ := mem_filter.mp (mem_mergeSort.mp h)
  refine ⟨hf, ?_⟩
  simp only [Bool.and_eq_true, Bool.not_eq_true'] at hkeep
  exact hkeep.1

section

variable (hchain : OneChain env.ltx env.sha64 val b) (hsync : ∀ n, env.dirSync n = .none)
include hchain hsync

/-- Starting again from a snapshot of the chain. -/
theorem rebase_triple (hs : s ∈ discoverAllLegacyLtx env.ltx b) (hsnap : s.isSnapshot) :
    Triple (Tracks env.ltx env.sha64 val) (rebase env b s) (fun _ => Tracks env.ltx env.sha64 val)
      (fun _ => Tracks env.ltx env.sha64 val) := by
  have hboot : Triple (Tracks env.ltx env.sha64 val) (bootstrapReplicaFromSnapshot env b s)
      (fun _ => StandsAt env.ltx env.sha64 val s.maxTxid) (fun _ => Tracks env.ltx env.sha64 val) := by
    apply Triple.bind (downloadBytes_triple (fun _ _ hr => hr) s.key)
    intro bytes r hr
    obtain ⟨hget, htracks⟩ := hr
    revert htracks
    cases hdecode : decodeToDb env.ltx env.sha64 bytes with
    | error e => exact fun hr => hr
    | ok decoded =>
      refine publishChecked_triple hsync (fun _ _ hr => hr) ?_ r
      intro r _ hr
      exact standsAt_snapshot hdecode (hchain.snapshot s hs hsnap bytes decoded hget hdecode) hr.chained.1
  apply Triple.bind hboot
  intro _
  apply Triple.bind (M := fun _ r => StandsAt env.ltx env.sha64 val r.currentTxid r)
  · exact Triple.consequence (saveReplicaState_triple s.maxTxid) (fun _ h => h) (fun _ _ h => h)
      (fun _ _ h => h.tracks)
  · intro _ r hr
    exact hr.tracks

/-- The next incremental of the chain. -/
theorem applyIncremental_triple {f : DiscoveredLtx} {bytes : Bytes}
    (hf : f ∈ discoverAllLegacyLtx env.ltx b) (hinc : f.isSnapshot = false) (hget : b.get f.key = some bytes) :
    Triple (fun r => StandsAt env.ltx env.sha64 val r.currentTxid r ∧ f.minTxid = r.currentTxid + 1)
      (applyIncrementalAtomically env bytes) (fun _ => StandsAt env.ltx env.sha64 val f.maxTxid)
      (fun _ => Tracks env.ltx env.sha64 val) := by
  apply Triple.get_bind
  rintro r ⟨hstands, hnext⟩
  cases hdb : r.db with
  | none =>
    rintro t rfl
    exact hstands.tracks
  | some db =>
    dsimp only
    cases happly : applyLtxToDb env.ltx env.sha64 bytes db with
    | error e =>
      rintro t rfl
      exact hstands.tracks
    | ok applied =>
      obtain ⟨hheader, hsum⟩ := applyLtxToDb_ok happly
      obtain ⟨hpre, hval⟩ := hchain.incremental f hf hinc bytes _ hget hheader
      have hprev : f.minTxid - 1 = r.currentTxid := by omega
      rw [hprev] at hpre hval
      -- The staged copy is of the file that stands there, so the incremental chains from it.
      have hpublish := @publishChecked_triple env hsync
        (fun t => StandsAt env.ltx env.sha64 val r.currentTxid t ∧ t.db = some db ∧ t.currentTxid = r.currentTxid)
        (StandsAt env.ltx env.sha64 val f.maxTxid) (fun _ _ ht => ht) applied.db
        ⟨bytes, false, applied.header.preApplyChecksum, applied.postApplyChecksum⟩ fun t _ ht =>
          ht.1.incremental ht.2.1 happly hpre ((hsum _ hpre).trans hval) _
      apply hpublish.consequence
      · rintro t rfl
        exact ⟨hstands, hdb, rfl⟩
      · exact fun _ _ ht => ht
      · rintro _ t ⟨ht, -, htxid⟩
        rw [← htxid] at ht
        exact ht.tracks

/-- The loop over incrementals of the chain. By induction on the files; before each one the file stands at the
    replica's TXID. -/
theorem replicateLoop_triple {fs : List DiscoveredLtx} (n : Nat)
    (hfs : ∀ f ∈ fs, f ∈ discoverAllLegacyLtx env.ltx b ∧ f.isSnapshot = false) :
    Triple (fun r => StandsAt env.ltx env.sha64 val r.currentTxid r)
      (replicateLoop env b (discoverAllLegacyLtx env.ltx b) n fs) (fun _ => Tracks env.ltx env.sha64 val)
      (fun _ => Tracks env.ltx env.sha64 val) := by
  induction fs generalizing n with
  | nil => exact fun r hr => hr.tracks
  | cons f rest ih =>
    obtain ⟨hf, hinc⟩ := hfs f mem_cons_self
    apply Triple.get_bind
    intro r hr
    split
    · cases hgap : gapSnapshot (discoverAllLegacyLtx env.ltx b) f.minTxid with
      | none =>
        rintro t rfl
        exact hr.tracks
      | some s =>
        obtain ⟨hs, hsnap⟩ := gapSnapshot_mem hgap
        rintro t rfl
        exact rebase_triple hchain hsync hs hsnap t hr.tracks
    · next hnext =>
      have hnext : f.minTxid = r.currentTxid + 1 := not_not.mp hnext
      apply Triple.bind (M := fun bytes t => b.get f.key = some bytes ∧
        StandsAt env.ltx env.sha64 val t.currentTxid t ∧ f.minTxid = t.currentTxid + 1)
      · apply (@downloadBytes_triple env b (fun t => StandsAt env.ltx env.sha64 val t.currentTxid t ∧
          f.minTxid = t.currentTxid + 1) (fun _ _ ht => ht) f.key).consequence
        · rintro t rfl
          exact ⟨hr, hnext⟩
        · exact fun _ _ ht => ht
        · exact fun _ _ ht => ht.1.tracks
      intro bytes t ht
      obtain ⟨hget, hstands⟩ := ht
      refine Triple.bind (applyIncremental_triple hchain hsync hf hinc hget) (fun _ => ?_) t hstands
      apply Triple.bind (M := fun _ t => StandsAt env.ltx env.sha64 val t.currentTxid t)
      · exact (saveReplicaState_triple f.maxTxid).post (fun _ _ h => h) (fun _ _ h => h.tracks)
      · intro _
        exact ih (n + 1) fun g hg => hfs g (mem_cons_of_mem _ hg)

end

/-- **A poll on the chain keeps the invariant**, wherever it stops. -/
theorem replicatePoll_tracks (hchain : OneChain env.ltx env.sha64 val b) (hsync : ∀ n, env.dirSync n = .none) :
    Triple (Tracks env.ltx env.sha64 val) (replicatePoll env b) (fun _ => Tracks env.ltx env.sha64 val)
      (fun _ => Tracks env.ltx env.sha64 val) := by
  apply Triple.bind (attempt_triple (fun _ _ hr => hr))
  intro _
  dsimp only
  split
  · exact fun r hr => hr
  apply Triple.get_bind
  intro r hr
  split
  · cases hlatest : latestSnapshot (discoverAllLegacyLtx env.ltx b) with
    | none =>
      rintro t rfl
      exact hr
    | some s =>
      obtain ⟨hs, hsnap⟩ := latestSnapshot_mem hlatest
      rintro t rfl
      exact rebase_triple hchain hsync hs hsnap t hr
  next hsome =>
  obtain ⟨hzero, hdb⟩ := not_or.mp hsome
  split
  · cases hnewer : newerSnapshot (discoverAllLegacyLtx env.ltx b) r.currentTxid with
    | none =>
      rintro t rfl
      exact hr
    | some s =>
      obtain ⟨hs, hsnap⟩ := latestSnapshot_mem (Option.filter_eq_some_iff.mp hnewer).1
      rintro t rfl
      exact rebase_triple hchain hsync hs hsnap t hr
  · -- There is a file and a TXID, so it is the TXID the file stands at.
    have hstands : StandsAt env.ltx env.sha64 val r.currentTxid r := by
      rcases hr with ⟨-, hnone⟩ | ⟨txid, hstands, htxid | htxid⟩
      · exact absurd hnone hdb
      · rw [htxid]
        exact hstands
      · exact absurd htxid hzero
    rintro t rfl
    exact replicateLoop_triple hchain hsync 0 (fun f hf => incrementalsAbove_mem hf) t hstands

end Poll

/-! ## Runs on one chain -/

/-- A restart keeps the file; the TXID it reads is the file's, or 0. -/
theorem Tracks.restart {ltx : LtxCrate} {sha64 : Bytes → UInt64} {val : Nat → UInt64}
    (h : Tracks ltx sha64 val r) (hsaved : r.db = none ∨ r.saved = none ∨ r.saved = some r.currentTxid) :
    Tracks ltx sha64 val r.restart := by
  rcases h with hnone | ⟨txid, hstands, htxid⟩
  · exact .inl hnone
  · refine .inr ⟨txid, hstands, ?_⟩
    obtain ⟨_, _, a, _, _, _, hdb, _, _⟩ := hstands
    rcases hsaved with hfile | hstate | hstate
    · rw [hdb] at hfile
      cases hfile
    · exact .inr (by simp [Replica.restart, hstate])
    · simpa [Replica.restart, hdb, hstate] using htxid

theorem ReplicaReach.tracks {env : ReplicaEnv} {val : Nat → UInt64} (h : ReplicaReach env val r) :
    Tracks env.ltx env.sha64 val r := by
  induction h with
  | fresh => exact .inl ⟨rfl, rfl⟩
  | @step r step _ hok ih =>
    cases step with
    | restart => exact ih.restart hok
    | poll b mishap dirSync =>
      have hpoll := @replicatePoll_tracks { env with mishap := mishap, dirSync := dirSync } b val hok.1 hok.2 r ih
      rw [Replica.step]
      cases hrun : replicatePoll { env with mishap := mishap, dirSync := dirSync } b r with
      | ok n r' =>
        rw [hrun] at hpoll
        exact hpoll
      | error e r' =>
        rw [hrun] at hpoll
        exact hpoll

/-- **A replica that meets one chain follows it**: whatever goes wrong on the way, each incremental it has applied
    chains from the object before it, and its file is what a restore makes of them. -/
theorem replica_applies_chained (env : ReplicaEnv) (val : Nat → UInt64) (r : Replica) (h : ReplicaReach env val r) :
    Chained env.ltx env.sha64 r := h.tracks.chained

/-! ### The chain of two incrementals, and a fork -/

/-- The chain values at the TXIDs. -/
def twoVal : Nat → UInt64
  | 1 => 0xaddfe0faea440b60
  | 2 => 0xbe691ed8b5bc622d
  | 3 => 0xaf542491f889ca4e
  | _ => 0

theorem oneChain_flatTwo : OneChain (twoCrate 2) twoSha64 twoVal flatTwo := by
  have hmem : ∀ f ∈ discoverAllLegacyLtx (twoCrate 2) flatTwo,
      f = twoSnapshot ∨ f = ⟨.file 0 2 2, 0, 2, 2⟩ ∨ f = ⟨.file 0 3 3, 0, 3, 3⟩ := by
    intro f hf
    rw [discover_flatTwo] at hf
    simpa using hf
  constructor
  · intro f hf hsnap bytes decoded hget hdecode
    rcases hmem f hf with rfl | rfl | rfl
    · obtain rfl : ltxObject 1 = bytes := Option.some.inj hget
      rw [decode_twoBase] at hdecode
      cases hdecode
      rfl
    · cases hsnap
    · cases hsnap
  · intro f hf hinc bytes header hget hheader
    rcases hmem f hf with rfl | rfl | rfl
    · cases hinc
    · obtain rfl : ltxObject 2 = bytes := Option.some.inj hget
      cases hheader
      refine ⟨rfl, ?_⟩
      show (twoSha64 (chainBytes 0xaddfe0faea440b60 [(1, filled 3)])) ||| 0x8000000000000000 = _
      rw [twoSha64_two]
      rfl
    · obtain rfl : ltxObject 3 = bytes := Option.some.inj hget
      cases hheader
      refine ⟨rfl, ?_⟩
      show (twoSha64 (chainBytes 0xbe691ed8b5bc622d [(1, filled 4)])) ||| 0x8000000000000000 = _
      rw [twoSha64_three]
      rfl

/-- Bootstrap, a restart, and the two incrementals. -/
theorem replica_applies_chained_two : ∃ env val r, ReplicaReach env val r ∧ r.currentTxid = 3 ∧
    Chained env.ltx env.sha64 r := by
  have hboot : ReplicaReach (twoEnv 2) twoVal twoReplica := by
    have hstep : ReplicaReach (twoEnv 2) twoVal (final (replicatePoll (twoEnv 2) flatTwo Replica.fresh)) :=
      .step (.poll flatTwo (fun _ => .none) fun _ => .none) .fresh ⟨oneChain_flatTwo, fun _ => rfl⟩
    rw [replicatePoll_flatTwo] at hstep
    exact hstep
  have hrestart : ReplicaReach (twoEnv 2) twoVal twoReplica.restart :=
    .step .restart hboot (.inr (.inr rfl))
  have hpoll : Returns (replicatePoll (twoEnv 2) flatTwo) twoReplica.restart fun _ r => r.currentTxid = 3 := by
    apply (returns_replicatePoll_loop (b := flatTwo) (r := twoReplica.restart) (healthy_twoEnv 2) (by decide)
      (by decide) (incrementals_flatTwo (twoCrate 2)) (cons_ne_nil _ _)).mpr
    cases @chain_two 2 (by decide) (by decide) with
    | cons htwo hrest =>
      cases hrest with
      | cons hthree _ =>
        refine returns_replicateLoop_next (healthy_twoEnv 2) rfl rfl rfl (htwo.applyLtxToDb _) rfl ?_
        refine returns_replicateLoop_next (healthy_twoEnv 2) rfl rfl rfl (hthree.applyLtxToDb _) rfl ?_
        rw [replicateLoop, returns_pure]
  obtain ⟨n, r, hrun, htxid⟩ := hpoll
  have hreach : ReplicaReach (twoEnv 2) twoVal r := by
    have hstep : ReplicaReach (twoEnv 2) twoVal (final (replicatePoll (twoEnv 2) flatTwo twoReplica.restart)) :=
      .step (.poll flatTwo (fun _ => .none) fun _ => .none) hrestart ⟨oneChain_flatTwo, fun _ => rfl⟩
    rw [hrun] at hstep
    exact hstep
  exact ⟨twoEnv 2, twoVal, r, hreach, htxid, replica_applies_chained (twoEnv 2) twoVal r hreach⟩

/-- The decoder, with the third file at TXID 2: a second successor of TXID 1, from a chain value that the first
    snapshot does not have. -/
def forkCrate : LtxCrate :=
  { twoCrate 2 with
    header := fun bytes =>
      if bytes = ltxObject 3 then .ok { twoHeader 2 3 with minTxid := 2, maxTxid := 2 } else (twoCrate 2).header bytes
    header_magic := by
      intro bytes h hok
      split at hok
      · next hb =>
        rw [hb]
        rfl
      · exact (twoCrate 2).header_magic bytes h hok
    page_length := by
      intro bytes h hok
      split at hok
      · next hb =>
        injection hok with hok
        rw [← hok, hb]
        exact (twoCrate 2).page_length (ltxObject 3) (twoHeader 2 3) rfl
      · exact (twoCrate 2).page_length bytes h hok
    checksum_pre := by
      intro bytes h c hok hpre
      split at hok
      · next hb =>
        injection hok with hok
        rw [← hok] at hpre
        exact (twoCrate 2).checksum_pre (ltxObject 3) (twoHeader 2 3) c rfl hpre
      · exact (twoCrate 2).checksum_pre bytes h c hok hpre }

/-- The snapshot, and the file of the fork. -/
def forkedTwo : LtxBucket where
  entries := [(.file 1 1 1, ltxObject 1), (.file 0 2 2, ltxObject 3)]
  nodup := by decide

theorem discover_forkedTwo (ltx : LtxCrate) :
    discoverAllLegacyLtx ltx forkedTwo = [twoSnapshot, ⟨.file 0 2 2, 0, 2, 2⟩] :=
  discoverAllLegacyLtx_eq (.refl _) (by simp [twoSnapshot])

def forkEnv : ReplicaEnv := ⟨forkCrate, twoSha64, fun _ => "ok", fun _ => .none, fun _ => .none⟩

theorem apply_forkCrate {db : Bytes} : applyLtxToDb forkCrate twoSha64 (ltxObject 3) db =
    .ok ⟨{ twoHeader 2 3 with minTxid := 2, maxTxid := 2 },
      writeLtxPages 512 (forkCrate.pages (ltxObject 3)) db, 0xaf542491f889ca4e⟩ := by
  apply @applyLtxToDb_eq forkCrate twoSha64 _ _ 0xbe691ed8b5bc622d _ rfl rfl rfl
  show (twoSha64 (chainBytes 0xbe691ed8b5bc622d [(1, filled 4)])) ||| 0x8000000000000000 = _
  rw [twoSha64_three]
  rfl

/-- An object at the next TXID that chains from another value: the replica applies it, a restore refuses to. -/
theorem replica_applies_fork : ∃ env b r r' e p, env.Healthy ∧ replicatePoll env b Replica.fresh = .ok 1 r ∧
    replicatePoll env b r = .ok 1 r' ∧ r'.applied = [e, p] ∧ e.snapshot = false ∧ e.pre ≠ some p.post ∧
    ∀ db a, r.db = some db → applyLtxToDbChecked env.ltx env.sha64 e.bytes db p.post ≠ .ok a := by
  have hfiles := discover_forkedTwo forkCrate
  have hhealthy : forkEnv.Healthy := fun _ => ⟨rfl, rfl⟩
  have hfresh : replicatePoll forkEnv forkedTwo Replica.fresh = .ok 1 twoReplica := by
    have hlatest : latestSnapshot (discoverAllLegacyLtx forkCrate forkedTwo) = some twoSnapshot := by
      rw [hfiles]
      rfl
    exact replicatePoll_fresh hhealthy hlatest rfl (decode_twoPages rfl rfl rfl rfl rfl rfl) rfl
  have habove : incrementalsAbove (discoverAllLegacyLtx forkCrate forkedTwo) 1 = [⟨.file 0 2 2, 0, 2, 2⟩] := by
    rw [hfiles]
    exact mergeSort_singleton _
  have hpoll : Returns (replicatePoll forkEnv forkedTwo) twoReplica fun n r => n = 1 ∧ r.applied =
      [⟨ltxObject 3, false, some 0xbe691ed8b5bc622d, 0xaf542491f889ca4e⟩,
        ⟨ltxObject 1, true, none, 0xaddfe0faea440b60⟩] := by
    apply (returns_replicatePoll_loop (b := forkedTwo) (r := twoReplica) hhealthy (by decide) (by decide) habove
      (cons_ne_nil _ _)).mpr
    refine returns_replicateLoop_next hhealthy rfl rfl rfl apply_forkCrate rfl ?_
    rw [replicateLoop, returns_pure]
    exact ⟨rfl, rfl⟩
  obtain ⟨n, r', hrun, rfl, happlied⟩ := hpoll
  refine ⟨forkEnv, forkedTwo, twoReplica, r', _, _, hhealthy, hfresh, hrun, happlied, rfl, by decide, ?_⟩
  intro db a _ hchecked
  exact absurd (checkPre_of_applied hchecked rfl) (by decide)

end Legacy
end Walrust
