import Walrust.Sync.Fidelity

/-!
# `Walrust.Sync.Retry` — the sync after a failed upload

A sync reads a batch, advances the recorded checksum chain, encodes, and only then uploads; offset and seq
move after the upload. This file says what a later sync does when the upload failed without storing anything,
in all three modes.

* `Restartable` — the failed call left the chain where its offset is: the offset was at the start of the
  WAL (where the header seeds the chain), or the chain did not move;
* `FailedRun` — any number of refused uploads, with arbitrary changes of the database in between;
* `call_after_failedRun` — if every refused call was restartable, the next healthy call publishes what the
  original cursor reads of the WAL it finds;
* `call_after_stranded` — after one refused call that was not, it publishes nothing;
* `rollover_after_refused` — a re-anchor whose snapshot was refused is repeated.
-/

namespace Walrust
namespace Sync

open Wal Ltx Sqlite Lib List
open SqliteEnv (wal main)
open Oracle (quiet)

variable {header' : WalHeader} {now : Int64} {E A : Type} [SqliteEnv E A] {cfg : Config} {o : Oracle A}
  {w v : World E} {r : PageMapRead} {post : UInt64} {b : A} {e : SyncError}

/-! ## The three modes -/

/-- Who owns the base state: walrust, another party, or another party behind a fence. -/
inductive Mode where
  | owned
  | externalBase
  | fenced (env : EnvelopeCodec) (params : FencedDeltaSyncParams)

/-- The payload a fenced call envelopes. -/
def fencedPayload (params : FencedDeltaSyncParams) (d : Delta) : DeltaPayloadV1 :=
  ⟨d.seq, params.epoch, params.writerId, params.prevEnvelopeChecksum, d.endPageCount, d.bytes⟩

namespace Mode

/-- One sync call, with the number of frames it published. -/
def call (m : Mode) (cfg : Config) (o : Oracle A) : Run E Nat :=
  match m with
  | .owned => syncWal cfg o
  | .externalBase => syncWalAfterExternalBase cfg o
  | .fenced env params => do
    match ← syncWalFencedDelta cfg env o params with
    | none => return 0
    | some published => return published.frameCount

/-- Where the object of a seq goes. -/
def key (m : Mode) (s : SyncState) (seq : Nat) : Key :=
  match m with
  | .owned | .externalBase => stateKey s .live seq
  | .fenced .. => .envelope seq

/-- The object that carries an encoded batch. -/
def object (m : Mode) (d : Delta) : Except String Bytes :=
  match m with
  | .owned | .externalBase => .ok d.bytes
  | .fenced env params => env.encode (fencedPayload params d)

/-- The part of a call behind the encoding. -/
def publish (m : Mode) (cfg : Config) (o : Oracle A) (d : Delta) : Run E Nat :=
  match m with
  | .owned => publishOwned cfg o d
  | .externalBase => publishExternal cfg o d
  | .fenced env params => do
    let _ ← publishDeltaEnvelope cfg env o (fencedPayload params d)
    modifyState (advanceCursor d)
    return d.frameCount

/-- The modes whose base state belongs to another party. -/
def External : Mode → Prop
  | .owned => False
  | .externalBase | .fenced .. => True

theorem owned_or_external (m : Mode) : m = .owned ∨ m.External := by
  cases m with
  | owned => exact .inl rfl
  | externalBase => exact .inr trivial
  | fenced => exact .inr trivial

variable {header : WalHeader} {bytes object : Bytes} {m : Mode} {d : Delta}

theorem call_site (m : Mode) (cfg : Config) (o : Oracle A) : ∃ kind rollover,
    (m.call cfg o : Run E Nat) = site cfg o kind (return 0) rollover (m.publish cfg o) := by
  cases m with
  | owned => exact ⟨_, _, rfl⟩
  | externalBase => exact ⟨_, _, rfl⟩
  | fenced env params =>
    refine ⟨_, _, (site_bind cfg _).trans (congrArg (site cfg o _ _ _) ?_)⟩
    funext d
    simp only [bind_assoc]
    rfl

/-- A call that has a batch reads it, encodes it and publishes it. -/
theorem call_ready (m : Mode) (h : Ready cfg o w header r bytes post) (ho : o.QuietRead) :
    m.call cfg o w =
      m.publish cfg o (deltaOf cfg w header r bytes post) (w.read header r) := by
  obtain ⟨kind, rollover, hsite⟩ := @call_site E A _ m cfg o
  rw [hsite, h.site ho]

/-- A call that finds nothing behind its cursor publishes nothing. -/
theorem call_idle (m : Mode) (b : A) (now : Int64) (hread : w.Opens header)
    (hstay : w.rolled header = false) (hnext : nextRead w header = .ok r) (hnil : r.pageMap = []) :
    m.call cfg (quiet b now) w = .ok 0 (w.read header r) := by
  obtain ⟨kind, rollover, hsite⟩ := @call_site E A _ m cfg (quiet b now)
  rw [hsite, site_eq (quietRead_quiet b now) hread hnext, hstay, if_pos hnil]
  rfl

/-- Outside owned mode a publish is one conditional put; it moves the cursor if the put succeeds. -/
theorem publish_put (cfg : Config) (w : World E) (hm : m.External) (hobject : m.object d = .ok object)
    (hsave : o.QuietAt .saveProgress) : ∃ conflict, m.publish cfg o d w =
      match performWrite o .putDelta (putAbsent (m.key w.st d.seq) object conflict) w with
      | .ok _ v => .ok d.frameCount { v with st := advanceCursor d v.st }
      | .error e v => .error e v := by
  cases m with
  | owned => exact hm.elim
  | externalBase =>
    injection hobject with hobject
    subst hobject
    apply Exists.intro
    simp only [publish, publishExternal, bind_apply, state_apply, putChangesetIfAbsent, key]
    split
    next hput =>
      rw [hput]
      by_cases hbase : w.st.externalBase.isSome <;> simp [hbase, performWrite, hsave.1, hsave.2]
    next hput => rw [hput]
  | fenced env params =>
    have hencode : env.encode (fencedPayload params d) = .ok object := hobject
    apply Exists.intro
    simp only [publish, publishDeltaEnvelope, hencode, bind_assoc, pure_bind]
    simp only [bind_apply, state_apply, key, fencedPayload]
    split
    next hput =>
      rw [hput]
      rfl
    next hput => rw [hput]

theorem publish_unencodable (cfg : Config) (o : Oracle A) (w : World E) {msg : String}
    (h : m.object d = .error msg) : ∃ e, m.publish cfg o d w = .error (.err e) w := by
  cases m with
  | owned => cases h
  | externalBase => cases h
  | fenced env params =>
    have hencode : env.encode (fencedPayload params d) = .error msg := h
    simp only [publish, publishDeltaEnvelope, bind_apply, hencode]
    exact ⟨_, rfl⟩

/-- A healthy publish stores the object and moves the cursor behind the batch. -/
theorem publish_quiet (m : Mode) (b : A) (now : Int64) (hobject : m.object d = .ok object)
    (hfree : w.bucket.get (m.key w.st d.seq) = none) :
    ∃ json intent, m.publish cfg (quiet b now) d w =
      .ok d.frameCount ⟨w.db, w.bucket.put (m.key w.st d.seq) object, json, intent,
        advanceCursor d w.st⟩ := by
  rcases m.owned_or_external with rfl | hm
  · injection hobject with hobject
    subst hobject
    exact ⟨_, _, publishOwned_quiet cfg b now w hfree⟩
  · obtain ⟨conflict, hput⟩ := publish_put (o := quiet b now) cfg w hm hobject ⟨rfl, rfl⟩
    rw [performWrite_quiet, putAbsent_of_none hfree] at hput
    exact ⟨_, _, hput⟩

end Mode

/-! ## Refused uploads -/

/-- A storage that refuses every changeset put without storing it. -/
def Oracle.refusing {A : Type} (blocker : A) (now : Int64) : Oracle A where
  fault op := if op = .putDelta ∨ op = .putSnapshot then .fails else .none
  env _ := []
  blocker := blocker
  now := now

section Refused

variable {header : WalHeader} {bytes : Bytes}

theorem refusing_quietAt {op : Op} (h : ¬ (op = .putDelta ∨ op = .putSnapshot)) :
    (Oracle.refusing b now).QuietAt op := ⟨if_neg h, rfl⟩

theorem quietRead_refusing (b : A) (now : Int64) : (Oracle.refusing b now).QuietRead := by
  intro op hop
  apply refusing_quietAt
  rintro (rfl | rfl) <;> simp at hop

def refusedPut (op : Op) : SyncError := .other s!"operation failed: {repr op}"

/-- A refused publish leaves the bucket, the database and the cursor alone. -/
theorem Mode.publish_refused (m : Mode) (b : A) (now : Int64) (d : Delta) :
    ∃ e intent, m.publish cfg (Oracle.refusing b now) d w = .error (.err e) { w with intent := intent } := by
  rcases m.owned_or_external with rfl | hm
  · exact ⟨refusedPut .putDelta, some ⟨w.st.lineageId, d.seq, d.preChecksum, d.postChecksum⟩, rfl⟩
  cases hobject : m.object d with
  | error msg =>
    obtain ⟨e, he⟩ := publish_unencodable cfg _ w hobject
    exact ⟨e, w.intent, he⟩
  | ok object =>
    obtain ⟨conflict, hput⟩ := publish_put (o := .refusing b now) cfg w hm hobject
      (refusing_quietAt (by simp))
    exact ⟨_, w.intent, hput⟩

/-- **A refused call** returns an error and has moved only the WAL fields its read moved, not the offset. -/
theorem Mode.call_refused (m : Mode) (h : Ready cfg (Oracle.refusing b now) w header r bytes post) :
    ∃ e intent, m.call cfg (Oracle.refusing b now) w =
      .error (.err e) { w with st := readState w header r, intent := intent } := by
  rw [m.call_ready h (quietRead_refusing b now)]
  exact m.publish_refused b now _

end Refused

/-! ## The cursor a refused call leaves -/

/-- The chain still belongs to the offset after a refused call that read `r`: the next read is seeded by the
    WAL header, or the chain has not moved. -/
def Restartable (s : SyncState) (r : PageMapRead) : Prop :=
  s.walOffset = 0 ∨ s.walOffset = walHeaderSize ∨ r.chain = s.walChecksumChain

instance (s : SyncState) (r : PageMapRead) : Decidable (Restartable s r) :=
  inferInstanceAs (Decidable (_ ∨ _ ∨ _))

/-- `s'` reads a WAL of salt `salt` from where `s` does, and continues the same stream. -/
structure SameCursor (salt : Salt) (s s' : SyncState) : Prop where
  offset : s'.walOffset = s.walOffset
  seed : chainSeed s' = chainSeed s
  salt : s'.walSalt = s.walSalt ∨ s'.walSalt = some salt
  seq : s'.currentSeq = s.currentSeq
  lineage : s'.lineageId = s.lineageId
  checksum : s'.dbChecksum = s.dbChecksum

section Cursor

variable {header : WalHeader} {bytes : Bytes} {salt : Salt} {s s' s'' : SyncState}

theorem SameCursor.refl (salt : Salt) (s : SyncState) : SameCursor salt s s :=
  ⟨rfl, rfl, .inl rfl, rfl, rfl, rfl⟩

theorem SameCursor.trans (h : SameCursor salt s s') (h' : SameCursor salt s' s'') : SameCursor salt s s'' := by
  refine ⟨h'.offset.trans h.offset, h'.seed.trans h.seed, ?_, h'.seq.trans h.seq,
    h'.lineage.trans h.lineage, h'.checksum.trans h.checksum⟩
  rcases h'.salt with hs | hs
  · exact h.salt.imp hs.trans hs.trans
  · exact .inr hs

section

variable (hstay : rolloverDetected w.st (wal w.db).length header.salt = false)
include hstay

/-- Without a rollover, detection records the salt and nothing else. -/
theorem noted_stay :
    noted w header = { w.st with walSalt := some header.salt } := by
  rw [noted, hstay]
  rfl

/-- A read depends on the offset and the seed of the cursor only. -/
theorem nextRead_stay :
    nextRead w header = readFramesAsPageMapChecked (wal w.db) (wal w.db)
      header.pageSize w.st.walOffset (chainSeed w.st) := by
  rw [nextRead, noted_stay hstay]
  rfl

theorem readState_stay :
    readState w header r = advanceChain r.chain { w.st with walSalt := some header.salt } := by
  rw [readState, noted_stay hstay]

/-- A restartable call leaves the cursor where it was. -/
theorem sameCursor_readState (h : Restartable w.st r) : SameCursor header.salt w.st (readState w header r) := by
  rw [readState_stay hstay]
  refine ⟨?_, ?_, ?_, ?_, ?_, ?_⟩
  · cases r.chain <;> rfl
  · rcases h with h | h | h
    · cases r.chain <;> simp [advanceChain, chainSeed, h]
    · cases r.chain <;> simp [advanceChain, chainSeed, h]
    · cases hc : r.chain with
      | none => rfl
      | some c =>
        show (if w.st.walOffset = 0 ∨ w.st.walOffset = walHeaderSize then none else some c) =
          if w.st.walOffset = 0 ∨ w.st.walOffset = walHeaderSize then none else w.st.walChecksumChain
        rw [← h, hc]
  · right
    cases r.chain <;> rfl
  · simp
  · simp
  · simp

end

/-- What is ready for one cursor is ready for any cursor that stands at the same place. -/
theorem Ready.transfer {v : World E} (h : Ready cfg o { w with db := v.db } header r bytes post)
    (hs : SameCursor header.salt w.st v.st) : Ready cfg o v header r bytes post := by
  have hstay : v.rolled header = false := by
    have hw : rolloverDetected w.st (wal v.db).length header.salt = false := h.stay
    simp only [rolloverDetected, Bool.or_eq_false_iff] at hw ⊢
    refine ⟨by rw [hs.offset]; exact hw.1, ?_⟩
    rcases hs.salt with heq | heq
    · rw [heq]
      exact hw.2
    · rw [heq]
      simp
  refine ⟨h.read, hstay, ?_, h.batch, ?_⟩
  · have hnext := h.next
    rw [nextRead_stay h.stay] at hnext
    rw [nextRead_stay hstay, hs.offset, hs.seed]
    exact hnext
  · have henc := h.encodes
    unfold EncodesTo preOf at henc ⊢
    rw [hs.seq, hs.checksum]
    exact henc

end Cursor

/-! ## The next call -/

/-- **What publishing a batch means**: the call returns its frame count, the object that carries it is stored
    under the next seq, and the cursor stands behind it. -/
def Publishes {E A : Type} [SqliteEnv E A] (m : Mode) (cfg : Config) (o : Oracle A) (v : World E)
    (header : WalHeader) (r : PageMapRead) (bytes : Bytes) (post : UInt64) : Prop :=
  ∃ object v', m.call cfg o v = .ok r.frameCount v' ∧
    m.object (deltaOf cfg v header r bytes post) = .ok object ∧
    v'.bucket = v.bucket.put (m.key v.st (v.st.currentSeq + 1)) object ∧
    ∃ txid, v'.st = publishedState v header r txid post

section Next

variable {m : Mode} {header : WalHeader} {bytes : Bytes} {salt : Salt}

theorem Mode.key_readState (m : Mode) (n : Nat) : m.key (readState w header r) n = m.key w.st n := by
  cases m with
  | owned => exact stateKey_readState w header r _ _
  | externalBase => exact stateKey_readState w header r _ _
  | fenced env params => rfl

theorem Ready.call_quiet (h : Ready cfg (quiet b now) w header r bytes post) {object : Bytes}
    (hobject : m.object (deltaOf cfg w header r bytes post) = .ok object)
    (hfree : w.bucket.get (m.key w.st (w.st.currentSeq + 1)) = none) :
    ∃ v, m.call cfg (quiet b now) w = .ok r.frameCount v ∧
      v.bucket = w.bucket.put (m.key w.st (w.st.currentSeq + 1)) object ∧
      v.st = advanceCursor (deltaOf cfg w header r bytes post) (readState w header r) := by
  rw [m.call_ready h (quietRead_quiet b now)]
  rw [← Mode.key_readState (w := w) (r := r)] at hfree ⊢
  obtain ⟨json, intent, hpub⟩ := @Mode.publish_quiet _ _ _ cfg (w.read header r) _ _
    m b now hobject hfree
  exact ⟨_, hpub, rfl, rfl⟩

theorem Ready.publishes (h : Ready cfg (quiet b now) v header r bytes post) {object : Bytes}
    (hobject : m.object (deltaOf cfg v header r bytes post) = .ok object)
    (hfree : v.bucket.get (m.key v.st (v.st.currentSeq + 1)) = none) :
    Publishes m cfg (quiet b now) v header r bytes post := by
  obtain ⟨v', hcall, hbucket, hst⟩ := h.call_quiet hobject hfree
  exact ⟨object, v', hcall, hobject, hbucket, _, hst.trans (advanceCursor_deltaOf cfg)⟩

/-- **Refused uploads**, one after the other, on a WAL of salt `salt`; whatever happens to the database in
    between. -/
inductive FailedRun (m : Mode) (cfg : Config) (salt : Salt) (w : World E) : World E → Prop where
  | start : FailedRun m cfg salt w w
  | env {v : World E} (db : E) (h : FailedRun m cfg salt w v) : FailedRun m cfg salt w { v with db := db }
  | refused {v v' : World E} {header : WalHeader} {r : PageMapRead} {bytes : Bytes} {post : UInt64} {b : A}
      {now : Int64} {e : Stop} (h : FailedRun m cfg salt w v)
      (hready : Ready cfg (Oracle.refusing b now) v header r bytes post) (hsalt : header.salt = salt)
      (hrestart : Restartable v.st r) (hcall : m.call cfg (Oracle.refusing b now) v = .error e v') :
      FailedRun m cfg salt w v'

/-- Restartable failures keep the cursor and store nothing. -/
theorem FailedRun.sameCursor (h : FailedRun m cfg salt w v) :
    SameCursor salt w.st v.st ∧ v.bucket = w.bucket := by
  induction h with
  | start => exact ⟨.refl salt w.st, rfl⟩
  | env db _ ih => exact ih
  | @refused v v' header r bytes post b now e _ hready hsalt hrestart hcall ih =>
    obtain ⟨e', intent, hcall'⟩ := m.call_refused hready
    rw [hcall'] at hcall
    injection hcall with _ hv
    subst hv hsalt
    exact ⟨ih.1.trans (sameCursor_readState hready.stay hrestart), ih.2⟩

/-- The object does not depend on which of two cursors at the same place publishes it. -/
theorem Mode.object_congr (m : Mode) (hs : SameCursor salt w.st v.st) (db : E) :
    m.object (deltaOf cfg v header r bytes post) =
      m.object (deltaOf cfg { w with db := db } header r bytes post) := by
  cases m with
  | owned => rfl
  | externalBase => rfl
  | fenced env params => simp only [Mode.object, fencedPayload, deltaOf, hs.seq]

theorem Mode.key_congr (m : Mode) (hs : SameCursor salt w.st v.st) (n : Nat) :
    m.key v.st n = m.key w.st n := by
  cases m with
  | owned | externalBase => simp only [Mode.key, stateKey, hs.lineage]
  | fenced env params => rfl

/-- **No restartable failure strands a frame.** After any number of them the next healthy call publishes
    exactly what the original cursor reads of the WAL it finds. -/
theorem call_after_failedRun (hrun : FailedRun m cfg salt w v)
    (hready : Ready cfg (quiet b now) { w with db := v.db } header r bytes post)
    (hsalt : header.salt = salt) {object : Bytes}
    (hobject : m.object (deltaOf cfg { w with db := v.db } header r bytes post) = .ok object)
    (hfree : w.bucket.get (m.key w.st (w.st.currentSeq + 1)) = none) :
    Publishes m cfg (quiet b now) v header r bytes post := by
  obtain ⟨hcursor, hbucket⟩ := hrun.sameCursor
  subst hsalt
  rw [← m.object_congr hcursor v.db] at hobject
  refine (hready.transfer hcursor).publishes hobject ?_
  rw [hbucket, m.key_congr hcursor, hcursor.seq]
  exact hfree

/-- **A failure that is not restartable strands the batch.** The chain has moved and the offset has not, so
    the first frame behind the cursor no longer continues the chain, and the next healthy call finds
    nothing. -/
theorem call_after_stranded {b' : A} {now' : Int64} {db : E} {r' : PageMapRead} {bytes' : Bytes}
    {post' : UInt64} (intent : Option PublishIntent)
    (hready : Ready cfg (Oracle.refusing b now) w header r bytes post) (hstranded : ¬ Restartable w.st r)
    (hready' : Ready cfg (quiet b' now') { w with db := db } header' r' bytes' post')
    (hsalt : header'.salt = header.salt) :
    ∃ v', m.call cfg (quiet b' now')
        ⟨db, w.bucket, w.stateJson, intent, readState w header r⟩ = .ok 0 v' ∧ v'.bucket = w.bucket ∧
      v'.st.currentSeq = w.st.currentSeq := by
  -- the cursor stands behind the first frame
  have hoffset : ¬ (w.st.walOffset = 0 ∨ w.st.walOffset = walHeaderSize) := by
    intro h
    exact hstranded (h.elim .inl fun h => .inr (.inl h))
  have hchain : r.chain ≠ w.st.walChecksumChain := fun h => hstranded (.inr (.inr h))
  have hstart : startPos w.st.walOffset ≠ walHeaderSize := by
    rw [startPos, if_neg fun h => hoffset (.inl h)]
    exact fun h => hoffset (.inr h)
  have hseed : chainSeed w.st = w.st.walChecksumChain := if_neg hoffset
  have hnext := hready.next
  rw [nextRead_stay hready.stay, hseed] at hnext
  have hnext' := hready'.next
  rw [nextRead_stay hready'.stay] at hnext'
  rw [hseed] at hnext'
  -- so it had a chain, and the refused call moved it
  cases hc : w.st.walChecksumChain with
  | none =>
    rw [hc] at hnext hchain
    exact absurd (read_chain_none hnext hstart) hchain
  | some c =>
    rw [hc] at hnext hnext' hchain
    obtain ⟨c', hc'⟩ := Option.isSome_iff_exists.mp (read_chain_some hnext)
    have hne : c' ≠ c := by
      rintro rfl
      exact hchain hc'
    have hst : readState w header r =
        { w.st with walSalt := some header.salt, walChecksumChain := some c' } := by
      rw [readState_stay hready.stay, hc']
      rfl
    have hstay : rolloverDetected (readState w header r) (wal db).length header'.salt = false := by
      have hw : rolloverDetected w.st (wal db).length header'.salt = false := hready'.stay
      simp only [rolloverDetected, Bool.or_eq_false_iff] at hw ⊢
      rw [hst]
      exact ⟨hw.1, by simp [hsalt]⟩
    have hempty : nextRead ⟨db, w.bucket, w.stateJson, intent, readState w header r⟩ header' =
        .ok (emptyRead (startPos w.st.walOffset) (some c')) := by
      rw [nextRead_stay hstay, hst]
      show readFramesAsPageMapChecked _ _ _ w.st.walOffset
        (if w.st.walOffset = 0 ∨ w.st.walOffset = walHeaderSize then none else some c') = _
      rw [if_neg hoffset]
      exact read_of_ne_chain hready'.read hnext' hready'.batch hstart hne
    refine ⟨_, m.call_idle b' now' hready'.read hstay hempty rfl, rfl, ?_⟩
    rw [readState_seq, readState_seq]

end Next

/-! ## Re-anchoring -/

/-- A refused snapshot has emptied and pinned the WAL, and left the cursor alone. -/
theorem takeSnapshot_refused (h : takeSnapshot cfg (Oracle.refusing b now) w = .error (.err e) v) :
    ∃ db, SqliteEnv.act (SqliteEnv.truncate w.db) b = some db ∧ v.db = db ∧ v.bucket = w.bucket ∧
      v.st = { w.st with checkpointBlocker := true } := by
  have hq : ∀ op, ¬ (op = .putDelta ∨ op = .putSnapshot) → (Oracle.refusing b now).QuietAt op :=
    fun op hop => refusing_quietAt hop
  have hrelease : releaseCheckpointBlocker (Oracle.refusing b now) w =
      .ok () { w with st := { w.st with checkpointBlocker := false } } := by
    obtain ⟨db, bucket, stateJson, intent, st⟩ := w
    obtain ⟨name, offset, gen, seq, lineage, base, txid, last, sum, salt, chain, blocker⟩ := st
    cases blocker <;> simp [releaseCheckpointBlocker, perform_of_quietAt (hq .releaseBlocker (by simp))]
  simp only [takeSnapshot, bind_apply, hrelease, checkpointWal,
    perform_of_quietAt (hq .checkpoint (by simp)), modify_apply, reacquireCheckpointBlocker, state_apply,
    Bool.false_eq_true, if_false, perform_of_quietAt (hq .reacquireBlocker (by simp)),
    interfere_singleton] at h
  rw [show (Oracle.refusing b now).blocker = b from rfl] at h
  cases hact : SqliteEnv.act (SqliteEnv.truncate w.db) b with
  | none =>
    simp only [hact] at h
    cases h
  | some db =>
    refine ⟨db, rfl, ?_⟩
    simp only [hact, modifyState_apply, get_apply, perform_of_quietAt (hq .readPageSize (by simp))] at h
    cases hps : getPageSize (main db) with
    | error msg =>
      simp only [hps] at h
      injection h with _ h
      subst h
      exact ⟨rfl, rfl, rfl⟩
    | ok pageSize =>
      simp only [hps, bind_apply, perform_of_quietAt (hq .countCommits (by simp)), get_apply, state_apply,
        perform_of_quietAt (hq .encodeSnapshot (by simp))] at h
      cases henc : encodeSnapshotWithChecksum cfg.ph (Oracle.refusing b now).now (main db)
          pageSize (UInt64.ofNat (w.st.currentSeq + 1)) (w.st.dbChecksum.getD 0) with
      | error | ok =>
        simp only [henc] at h
        injection h with _ h
        subst h
        exact ⟨rfl, rfl, rfl⟩

/-- An owned sync that detects a rollover fails exactly as its snapshot does. -/
theorem syncWal_refused_reanchor {header : WalHeader} (hread : w.Opens header)
    (hroll : w.rolled header = true) (hnext : nextRead w header = .ok r)
    (h : syncWal cfg (Oracle.refusing b now) w = .error (.err e) v) :
    takeSnapshot cfg (Oracle.refusing b now) (w.read header r) = .error (.err e) v := by
  rw [syncWal_site, site_eq (quietRead_refusing b now) hread hnext, hroll, if_pos rfl] at h
  simp only [bind_apply] at h
  cases hsnap : takeSnapshot cfg (.refusing b now) (w.read header r) with
  | error e' v' =>
    simp only [hsnap] at h
    injection h with he hv
    rw [he, hv]
  | ok u v' =>
    -- saving the state cannot fail here
    simp only [hsnap] at h
    cases h

section Db

variable {ps : UInt32} {w v : World (Db ps)} {header : WalHeader} {c : Commit ps} {db : Db ps}

/-- Other connections act, any number of times. -/
abbrev Acts (db db' : Db ps) : Prop := Relation.ReflTransGen (fun x y => ∃ a, x.act a = some y) db db'

theorem overwritten_acts {db' : Db ps} {salt : Salt} (h : db.Overwritten salt) (hacts : Acts db db') :
    db'.Overwritten salt := by
  induction hacts with
  | refl => exact h
  | tail _ hact ih =>
    obtain ⟨a, ha⟩ := hact
    exact ih.act ha

/-- After a rollover the cursor carries the salt it saw. -/
theorem readState_walSalt (w : World (Db ps)) (header : WalHeader) (r : PageMapRead) :
    (readState w header r).walSalt = some header.salt := by
  have hnoted : (noted w header).walSalt = some header.salt := by
    unfold noted noteGeneration
    split <;> rfl
  rw [readState]
  cases r.chain with
  | none => exact hnoted
  | some c => exact hnoted

/-- **A refused re-anchor is repeated.** The checkpoint of the failed attempt emptied the WAL, so whatever
    is in it later has another salt: the next sync detects a rollover again. -/
theorem rollover_after_refused (hsalts : w.db.SaltKnown) (hread : w.Opens header)
    (hroll : w.rolled header = true)
    (hnext : nextRead w header = .ok r)
    (hcall : syncWal cfg (Oracle.refusing (.commit c) now) w = .error (.err e) v) (hacts : Acts v.db db)
    (hread' : readHeader (wal db) = .ok (some header')) :
    v.bucket = w.bucket ∧ v.st = { readState w header r with checkpointBlocker := true } ∧
      rolloverDetected v.st (wal db).length header'.salt = true := by
  obtain ⟨db₁, hact, hdb, hbucket, hst⟩ :=
    takeSnapshot_refused (syncWal_refused_reanchor hread hroll hnext hcall)
  refine ⟨hbucket, hst, ?_⟩
  obtain ⟨g, hwal, -, rfl⟩ := readHeader_walFile hread
  have hgone : v.db.Overwritten g.salt := hdb ▸ Db.overwritten_truncate hact (hsalts g hwal)
  obtain ⟨g', hwal', -, rfl⟩ := readHeader_walFile hread'
  have hne : g'.salt ≠ g.salt := (overwritten_acts hgone hacts).gone g' hwal'
  rw [rolloverDetected, hst, Bool.or_eq_true]
  right
  rw [readState_walSalt, Option.any_some, decide_eq_true_eq]
  exact fun h => hne h.symm

end Db

/-! ## What a failed upload costs -/

/-- One refused call, and the next healthy one on whatever the same WAL holds by then: it publishes exactly
    if the refused call was restartable. -/
theorem publishes_after_refused_iff {m : Mode} {w : World E} {header : WalHeader}
    {r' : PageMapRead} {bytes bytes' : Bytes} {post' : UInt64} {b' : A} {now' : Int64} {db : E} {object : Bytes}
    {intent : Option PublishIntent} (hready : Ready cfg (Oracle.refusing b now) w header r bytes post)
    (hready' : Ready cfg (quiet b' now') { w with db := db } header' r' bytes' post')
    (hsalt : header'.salt = header.salt)
    (hobject : m.object (deltaOf cfg { w with db := db } header' r' bytes' post') = .ok object)
    (hfree : w.bucket.get (m.key w.st (w.st.currentSeq + 1)) = none) :
    Publishes m cfg (quiet b' now') ⟨db, w.bucket, w.stateJson, intent, readState w header r⟩
      header' r' bytes' post' ↔ Restartable w.st r := by
  constructor
  · -- a stranded batch leaves the bucket as it was
    intro hpub
    by_contra hstranded
    obtain ⟨v', hidle, hbucket, -⟩ := call_after_stranded (m := m) intent hready hstranded hready' hsalt
    obtain ⟨object', v'', hcall, -, hput, -⟩ := hpub
    rw [hidle] at hcall
    injection hcall with _ hv
    subst hv
    have hget := congrArg (Store.get · (m.key w.st (w.st.currentSeq + 1))) (hbucket.symm.trans hput)
    simp only [Mode.key_readState, readState_seq, Store.get_put_self, hfree] at hget
    cases hget
  · intro hrestart
    have hcursor := sameCursor_readState hready.stay hrestart
    rw [← hsalt] at hcursor
    have hready'' : Ready cfg (quiet b' now')
        ⟨db, w.bucket, w.stateJson, intent, readState w header r⟩ header' r' bytes' post' :=
      Ready.transfer (w := w) hready' hcursor
    rw [← m.object_congr (v := ⟨db, w.bucket, w.stateJson, intent, readState w header r⟩) hcursor db]
      at hobject
    refine hready''.publishes hobject ?_
    simp only [Mode.key_readState, readState_seq]
    exact hfree

/-- **What failed uploads cost**, in every mode.

    After any number of refused uploads that were all restartable, the next healthy sync publishes exactly what
    the cursor reads of the WAL it finds. For a single refused upload this is exact: if it was not
    restartable, the next sync does not publish what is there. And a refused re-anchor of the owned mode is
    attempted again by every later sync that finds a WAL. -/
theorem failed_uploads {E A : Type} [SqliteEnv E A] (m : Mode) (cfg : Config) :
    (∀ {salt : Salt} {w v : World E} {header : WalHeader} {r : PageMapRead} {bytes object : Bytes}
        {post : UInt64} {b : A} {now : Int64},
      FailedRun m cfg salt w v →
      Ready cfg (Oracle.quiet b now) { w with db := v.db } header r bytes post → header.salt = salt →
      m.object (deltaOf cfg { w with db := v.db } header r bytes post) = .ok object →
      w.bucket.get (m.key w.st (w.st.currentSeq + 1)) = none →
      Publishes m cfg (Oracle.quiet b now) v header r bytes post) ∧
    (∀ {w : World E} {header : WalHeader} {r : PageMapRead} {bytes : Bytes} {post : UInt64} {b : A}
        {now : Int64},
      Ready cfg (Oracle.refusing b now) w header r bytes post →
      ∃ e v, m.call cfg (Oracle.refusing b now) w = .error (.err e) v ∧ v.bucket = w.bucket ∧
        ∀ {db : E} {header' : WalHeader} {r' : PageMapRead} {bytes' object : Bytes} {post' : UInt64} {b' : A}
            {now' : Int64},
          Ready cfg (Oracle.quiet b' now') { w with db := db } header' r' bytes' post' →
          header'.salt = header.salt →
          m.object (deltaOf cfg { w with db := db } header' r' bytes' post') = .ok object →
          w.bucket.get (m.key w.st (w.st.currentSeq + 1)) = none →
          (Publishes m cfg (Oracle.quiet b' now') { v with db := db } header' r' bytes' post' ↔
            Restartable w.st r)) ∧
    (∀ {ps : UInt32} {w v : World (Db ps)} {header : WalHeader} {r : PageMapRead} {c : Commit ps}
        {now : Int64} {e : SyncError},
      w.db.SaltKnown → readHeader (SqliteEnv.wal w.db) = .ok (some header) →
      rolloverDetected w.st (SqliteEnv.wal w.db).length header.salt = true → nextRead w header = .ok r →
      syncWal cfg (Oracle.refusing (.commit c) now) w = .error (.err e) v →
      ∀ {db : Db ps} {header' : WalHeader} {r' : PageMapRead} {c' : Commit ps} {now' : Int64} {v' : World (Db ps)},
        Acts v.db db → readHeader (SqliteEnv.wal db) = .ok (some header') →
        nextRead { v with db := db } header' = .ok r' →
        takeSnapshot cfg (Oracle.quiet (.commit c') now')
          { v with db := db, st := readState { v with db := db } header' r' } = .ok () v' →
        syncWal cfg (Oracle.quiet (.commit c') now') { v with db := db } =
          .ok 1 { v' with stateJson := some v'.st.saved } ∧
        ∃ pageSize snap,
          encodeSnapshotWithChecksum cfg.ph now' db.image pageSize (UInt64.ofNat (w.st.currentSeq + 1))
            (w.st.dbChecksum.getD 0) = .ok snap ∧
          v'.bucket.get (stateKey w.st .snapshot (w.st.currentSeq + 1)) = some snap.bytes) := by
  refine ⟨?_, ?_, ?_⟩
  · intro salt w v header r bytes object post b now hrun hready hsalt hobject hfree
    exact call_after_failedRun hrun hready hsalt hobject hfree
  · intro w header r bytes post b now hready
    obtain ⟨e, intent, hcall⟩ := m.call_refused hready
    refine ⟨e, _, hcall, rfl, ?_⟩
    intro db header' r' bytes' object post' b' now' hready' hsalt hobject hfree
    exact publishes_after_refused_iff hready hready' hsalt hobject hfree
  · intro ps w v header r c now e hsalts hread hroll hnext hcall db header' r' c' now' v' hacts hread' hnext'
      hsnap
    obtain ⟨hbucket, hst, hroll'⟩ := rollover_after_refused hsalts hread hroll hnext hcall hacts hread'
    refine ⟨syncWal_quiet_reanchor hread' hroll' hnext' hsnap, ?_⟩
    obtain ⟨db', pageSize, snap, txid, hact, henc, hput, -⟩ := takeSnapshot_quiet_ok cfg _ now' _ hsnap
    have hmain : main db' = db.image := (Db.behind_truncate hact).1
    have hseq : v.st.currentSeq = w.st.currentSeq := by
      rw [hst]
      exact readState_seq w header r
    have hsum : v.st.dbChecksum = w.st.dbChecksum := by
      rw [hst]
      exact readState_checksum w header r
    have hkey : ∀ n, stateKey v.st .snapshot n = stateKey w.st .snapshot n := by
      intro n
      rw [hst]
      exact stateKey_readState w header r .snapshot n
    simp only [readState_seq, readState_checksum, stateKey_readState, hseq, hsum, hkey, hmain] at henc hput
    refine ⟨pageSize, snap, henc, ?_⟩
    rcases hput with ⟨-, hb⟩ | ⟨hsame, hb⟩
    · rw [hb, Store.get_put_self]
    · rw [hb]
      exact hsame

/-! ### On the growing database -/

/-- Its WAL read from the start. -/
theorem ready_fromStart (cfg : Config) (o : Oracle (Action 512)) {w : World (Db 512)} {txns : List (Txn 512)}
    (hwal : w.db.wal = some (pinnedLog txns)) (hsalt : w.st.walSalt = some (1, 2))
    (hoffset : w.st.walOffset = 0)
    (hsize : Pages.finalSize 0 (((touchOne (1, 2)).txn :: txns).map Txn.patch) = 2)
    (hpage : ∀ t ∈ txns, ∀ p ∈ t.pages, p.1 = 2) :
    ∃ r bytes post, Ready cfg o w (pinnedLog txns).header r bytes post ∧
      PendingRead (pinnedLog txns) ((touchOne (1, 2)).txn :: txns) r :=
  ready_of_cursor cfg o validate512 hwal
    (nil_append _).symm rfl (seed_pinnedLog _) hsalt
    (by rw [hoffset]; exact Generation.cursor_start _ _) (cons_ne_nil _ _)
    (by
      rw [hsize]
      intro t ht p hp
      rcases mem_cons.mp ht with rfl | ht
      · obtain rfl := mem_singleton.mp hp
        decide
      · rw [hpage t ht p hp]
        decide)
    (by
      rw [hsize]
      decide)

/-- The cursor of the growing database before its first sync stands at the start of the WAL: a refused upload
    costs nothing there, and the next sync publishes what is there, with what was committed since. -/
theorem failed_uploads_growing :
    ∃ (w v : World (Db 512)) (db : Db 512) (e : SyncError) (header : WalHeader) (r : PageMapRead)
      (bytes : Bytes) (post : UInt64),
      Mode.owned.call growConfig (Oracle.refusing (.commit (touchOne (5, 6))) 0) w = .error (.err e) v ∧
      w.db.act (.commit (writeTwo 8)) = some db ∧
      Publishes Mode.owned growConfig (Oracle.quiet (.commit (touchOne (5, 6))) 0) { v with db := db } header r
        bytes post := by
  obtain ⟨w₁, -, hwal₁, hrestart₁, himage₁, hseq, hlin, hsalt, hoffset, -, hfree⟩ :=
    snapshot_onePage growConfig
  obtain ⟨db₂, -, hwal₂, hrestart₂, himage₂⟩ := act_writeTwo hwal₁ hrestart₁
    (by omega) 7
  obtain ⟨db₃, hdb₃, hwal₃, -, -⟩ := act_writeTwo hwal₂ hrestart₂ (by omega) 8
  obtain ⟨r, bytes, post, hready, -⟩ := ready_fromStart growConfig (.refusing (.commit (touchOne (5, 6))) 0)
    (w := { w₁ with db := db₂ }) hwal₂ hsalt hoffset rfl (by simp [writeTwo])
  obtain ⟨r', bytes', post', hready', -⟩ := ready_fromStart growConfig calmCall
    (w := { w₁ with db := db₃ }) hwal₃ hsalt hoffset rfl (by simp [writeTwo])
  obtain ⟨e, v, hcall, -, hiff⟩ := (failed_uploads Mode.owned growConfig).2.1 hready
  refine ⟨_, v, db₃, e, (pinnedLog ([] ++ [(writeTwo 7).txn] ++ [(writeTwo 8).txn])).header, r', bytes',
    post', hcall, hdb₃, ?_⟩
  refine (hiff hready' rfl rfl ?_).mpr (.inl hoffset)
  show Store.get w₁.bucket (stateKey w₁.st .live (w₁.st.currentSeq + 1)) = none
  rw [stateKey, hlin, hseq]
  exact hfree 2 (by decide) .live

theorem chain_writeTwo_ne :
    some (sumChain false twoLog.seed
      (framesOf twoLog.txns)) ≠
    some oneChain := by
  decide +kernel

/-- Behind its first sync the same failure strands a committed frame: the refused upload has moved the chain,
    and the next sync, on a healthy storage, returns "nothing to publish" and stores nothing, although the
    cursor from before the failure has a batch to publish. -/
theorem refused_upload_strands :
    ∃ (w v v' : World (Db 512)) (log : Log) (e : SyncError) (header : WalHeader) (r : PageMapRead)
      (bytes : Bytes) (post : UInt64),
      Started onePage ∧ Steps growConfig (onePage, []) (w, log) ∧
      Ready growConfig (Oracle.quiet (.commit (touchOne (5, 6))) 0) w header r bytes post ∧
      Mode.owned.call growConfig (Oracle.refusing (.commit (touchOne (5, 6))) 0) w = .error (.err e) v ∧
      Mode.owned.call growConfig (Oracle.quiet (.commit (touchOne (5, 6))) 0) v = .ok 0 v' ∧
      v'.bucket = w.bucket := by
  obtain ⟨w, hrun, hwal, hrestart, himage, hseq, hlin, -, hsalt, hoffset, hchain, -, -⟩ :=
    synced_onePage growConfig
  obtain ⟨db, hdb, hwal', -, -⟩ := act_writeTwo hwal hrestart (by omega) 8
  have hcursor : twoLog.Cursor
      [(touchOne (1, 2)).txn, (writeTwo 7).txn] (startPos w.st.walOffset) (chainSeed w.st) := by
    rw [chainSeed, hoffset, hchain]
    exact ⟨rfl, fun _ => rfl⟩
  have hready : ∀ o, ∃ r bytes post, Ready growConfig o { w with db := db }
      twoLog.header r bytes post ∧
        PendingRead twoLog [(writeTwo 8).txn] r := by
    intro o
    refine ready_of_cursor growConfig o validate512 hwal' rfl rfl (seed_pinnedLog _) hsalt hcursor
      (cons_ne_nil _ _) ?_ ?_
    · simp [writeTwo, Txn.patch, Pages.finalSize]
    · simp [writeTwo, Txn.patch, Pages.finalSize]
  obtain ⟨r, bytes, post, hquiet, -⟩ := hready calmCall
  obtain ⟨r', bytes', post', hrefused, hp⟩ := hready (.refusing (.commit (touchOne (5, 6))) 0)
  obtain ⟨e, intent, hcall⟩ := Mode.owned.call_refused hrefused
  have hstranded : ¬ Restartable w.st r' := by
    rintro (h | h | h)
    · rw [hoffset] at h
      cases h
    · rw [hoffset] at h
      cases h
    · -- the two chain values differ
      rw [hchain, hp.chain] at h
      exact chain_writeTwo_ne h
  obtain ⟨v', hidle, hbucket, -⟩ := call_after_stranded (m := .owned) intent hrefused hstranded
    hquiet rfl
  exact ⟨_, _, v', _, e, _, r, bytes, post, started_onePage, hrun.tail (.env _ hdb), hquiet, hcall, hidle,
    hbucket⟩

end Sync
end Walrust
