import Walrust.Sync.Envelope
import Walrust.Sync.Ambiguous

/-!
# `Walrust.Sync.Fenced` — a fenced writer and its follower

Runs of one fenced writer over a database whose base state belongs to another party, and what a follower makes
of them. The writer threads the checksum of each envelope into the next call (`sync_one_db`) and can be
re-anchored on a newly published base (`set_external_delta_base`).

* `FencedOk` — what a successful call did;
* `Unread`, `Tracks` — the cursor before and after its first read: nothing between the base and the committed
  image is lost;
* `Shipped` — the invariant: the follower of the last anchor stands where the writer does;
* `fenced_follower`, `reanchored_followable` — the results.
-/

namespace Walrust
namespace Sync

open Wal Ltx Sqlite Hadbp Lib List Pages Relation
open SqliteEnv (wal main)
open Oracle (quiet refusing faultAt)

variable {header : WalHeader} {envelope : Bytes} {r : PageMapRead} {p : DeltaPayloadV1} {c : Commit 512}
  {post : UInt64} {chain : FencedDeltaChainState} {E A : Type} [SqliteEnv E A] {ps : UInt32} {cfg : Config}
  {a : Action ps} {db : Db ps}

/-! ## One call -/

section Call

variable (cfg : Config) (env : EnvelopeCodec) (b : A) (now : Int64) (params : FencedDeltaSyncParams)
  (w : World E)

/-- **What a successful fenced sync did**, from `w` to `w'`. -/
inductive FencedOk : Option DeltaPublishResult → World E → Prop where
  /-- There is no WAL. -/
  | noWal (hread : readHeader (wal w.db) = .ok none) : FencedOk none w
  /-- Nothing new is committed. -/
  | idle (header : WalHeader) (r : PageMapRead) (hread : readHeader (wal w.db) = .ok (some header))
      (hstay : rolloverDetected w.st (wal w.db).length header.salt = false)
      (hnext : nextRead w header = .ok r) (hnil : r.pageMap = []) :
      FencedOk none { w with st := readState w header r }
  /-- The batch was published. -/
  | published (header : WalHeader) (r : PageMapRead) (bytes : Bytes) (post : UInt64) (envelope : Bytes)
      (w' : World E) (hready : Ready cfg (quiet b now) w header r bytes post)
      (hencode : env.encode (fencedPayload params (deltaOf cfg w header r bytes post)) = .ok envelope)
      (hdb : w'.db = w.db) (hget : w'.bucket.get (.envelope (w.st.currentSeq + 1)) = some envelope)
      (hrest : ∀ k, k ≠ .envelope (w.st.currentSeq + 1) → w'.bucket.get k = w.bucket.get k)
      (hst : w'.st = publishedState w header r (batchTxid (readState w header r) (batchOf r)) post) :
      FencedOk (some ⟨w.st.currentSeq + 1, env.checksum envelope, r.finalDbSize.toNat, r.frameCount⟩) w'

variable {cfg env b now params w} {payload : DeltaPayloadV1}

/-- A publish leaves the envelope at its key, whether it stored it or found it there. -/
theorem publishDeltaEnvelope_quiet_ok {sum : Bytes} {w' : World E}
    (h : publishDeltaEnvelope cfg env (quiet b now) payload w = .ok sum w') :
    ∃ envelope, env.encode payload = .ok envelope ∧ sum = env.checksum envelope ∧ w'.db = w.db ∧ w'.st = w.st ∧
      w'.bucket.get (.envelope payload.seq) = some envelope ∧
      ∀ k, k ≠ .envelope payload.seq → w'.bucket.get k = w.bucket.get k := by
  simp only [publishDeltaEnvelope] at h
  cases hencode : env.encode payload with
  | error e => simp [hencode] at h
  | ok envelope =>
    simp only [hencode, bind_apply, state_apply] at h
    split at h
    · rename_i w₁ hput
      injection h with hsum hw
      subst hw
      refine ⟨envelope, rfl, hsum.symm, ?_⟩
      rcases putAbsent_ok.mp hput with ⟨-, rfl⟩ | ⟨hsame, rfl⟩
      · refine ⟨rfl, rfl, Store.get_put_self _ _ _, fun k hk => Store.get_put_of_ne _ _ hk⟩
      · exact ⟨rfl, rfl, hsame, fun _ _ => rfl⟩
    · cases h

theorem publishDeltaEnvelope_quiet (hencode : env.encode payload = .ok envelope)
    (hfree : w.bucket.get (.envelope payload.seq) = none) :
    publishDeltaEnvelope cfg env (quiet b now) payload w =
      .ok (env.checksum envelope) { w with bucket := w.bucket.put (.envelope payload.seq) envelope } := by
  simp only [publishDeltaEnvelope, hencode, bind_apply, state_apply, performWrite_quiet]
  rw [putAbsent_of_none hfree]
  rfl

/-- **Inversion of a successful fenced sync.** -/
theorem syncWalFencedDelta_quiet_ok {res : Option DeltaPublishResult} {w' : World E}
    (h : syncWalFencedDelta cfg env (quiet b now) params w = .ok res w') :
    FencedOk cfg env b now params w res w' := by
  rcases site_ok (quietRead_quiet b now) h with ⟨hread, h⟩ |
    ⟨header, r, hread, hnext, ⟨-, h⟩ | ⟨hstay, hnil, h⟩ | ⟨bytes, post, hready, h⟩⟩
  · obtain ⟨rfl, rfl⟩ := EStateM.Result.ok.inj h
    exact .noWal hread
  · cases h
  · obtain ⟨rfl, rfl⟩ := EStateM.Result.ok.inj h
    exact .idle header r hread hstay hnext hnil
  rw [bind_apply] at h
  split at h
  · rename_i sum w₂ hpub
    obtain ⟨envelope, hencode, rfl, hdb, hst, hget, hrest⟩ := publishDeltaEnvelope_quiet_ok hpub
    obtain ⟨rfl, rfl⟩ := EStateM.Result.ok.inj h
    refine .published header r bytes post envelope _ hready hencode hdb hget hrest ?_
    show advanceCursor _ w₂.st = _
    rw [hst]
    exact advanceCursor_deltaOf cfg
  · cases h

end Call

/-! ## The cursor -/

section Cursor

variable {w w' : World (Db ps)} {image : Bytes} {sum : UInt64}

/-- A cursor that has read nothing yet, behind a base with image `image` and chain value `sum`: everything
    committed since the base is in the WAL. -/
structure Unread (w : World (Db ps)) (image : Bytes) (sum : UInt64) : Prop where
  checksum : w.st.dbChecksum = some sum
  salt : w.st.walSalt = none
  offset : w.st.walOffset = 0
  fresh : w.db.wal = none ∨ w.db.restart = true → w.db.image = image
  behind : ∀ g, w.db.wal = some g → w.db.Behind g.salt 0 none image

/-- The cursor stands at `image`, whether it has read or not. -/
def InPlace (w : World (Db ps)) (image : Bytes) (sum : UInt64) : Prop :=
  Unread w image sum ∨ Tracks w image sum

theorem InPlace.checksum (h : InPlace w image sum) : w.st.dbChecksum = some sum :=
  h.elim Unread.checksum And.left

/-- What a restart leaves behind the first transaction of the new log are frames of other generations. -/
def Foreign : Action ps → Prop
  | .commit c => (Generation.mk c.salt c.checkpointSeq c.bigEndian [c.txn] c.stale).StaleForeign
  | .reset _ | .backfill _ => True

/-- Before the first read, other connections keep the cursor in place as long as no reset discards a commit made
    since the base. -/
theorem Unread.act (hps : 0 < ps.toNat) (h : Unread w image sum) (hforeign : Foreign a)
    (hkeep : ∀ t, a = .reset t → w.db.image = image) (ha : w.db.act a = some db) :
    Unread { w with db := db } image sum := by
  refine ⟨h.checksum, h.salt, h.offset, ?_, ?_⟩
  · cases a with
    | commit c =>
      obtain ⟨-, -, -, -, -, hrestart, hcase⟩ := Db.commit_eq_some ha
      rintro (hnone | hr)
      · rcases hcase with ⟨g, -, -, hwal, -⟩ | ⟨-, -, -, -, stale, -, hwal⟩
        · rw [hwal] at hnone
          cases hnone
        · rw [hwal] at hnone
          cases hnone
      · rw [hrestart] at hr
        cases hr
    | reset truncated =>
      intro _
      have himage := hkeep truncated rfl
      cases truncated <;> injection ha with ha <;> subst ha <;> exact himage
    | backfill main =>
      injection ha with ha
      subst ha
      exact h.fresh
  · intro g' hg'
    cases a with
    | commit c =>
      obtain ⟨hcov, himage, -, -, -, -, hcase⟩ := Db.commit_eq_some ha
      rcases hcase with ⟨g, hg, -, hwal, -⟩ | ⟨-, hsalts, -, hfresh, -⟩
      · -- the transaction joins those of the log
        obtain rfl : g.append c.txn = g' := Option.some.inj (hwal.symm.trans hg')
        exact (h.behind g hg).act hps ha
      -- it begins a log of its own, and the base is what it applies to
      have hbase := h.fresh hfresh
      obtain rfl := Option.some.inj ((Db.commit_restarts ha hfresh).symm.trans hg')
      refine ⟨hsalts ▸ mem_cons_self, ?_⟩
      intro g hg _
      obtain rfl := Option.some.inj ((Db.commit_restarts ha hfresh).symm.trans hg)
      refine ⟨?_, [], [c.txn], rfl, Generation.cursor_start _ _, ?_, ?_, trivial⟩
      · cases hw : w.db.wal with
        | none => exact Generation.staleForeign_of_nil rfl
        | some old => exact hforeign
      · rw [himage, hbase]
        rfl
      · rw [← hbase]
        exact hcov
    | reset truncated =>
      cases truncated with
      | true =>
        injection ha with ha
        subst ha
        cases hg'
      | false =>
        have ha' := ha
        injection ha with ha
        subst ha
        exact (h.behind g' hg').act hps ha'
    | backfill main =>
      have ha' := ha
      injection ha with ha
      subst ha
      exact (h.behind g' hg').act hps ha'

theorem InPlace.act (hps : 0 < ps.toNat) (h : InPlace w image sum) (hforeign : Foreign a)
    (hkeep : w.st.walSalt = none → ∀ t, a = .reset t → w.db.image = image)
    (ha : w.db.act a = some db) : InPlace { w with db := db } image sum := by
  rcases h with h | ⟨hsum, salt, hsalt, hbehind⟩
  · exact .inl (h.act hps hforeign (hkeep h.salt) ha)
  · exact .inr ⟨hsum, salt, hsalt, hbehind.act hps ha⟩

/-- The first read records the salt it sees. -/
theorem Unread.tracks (h : Unread w image sum) (hread : w.Opens header) :
    Tracks { w with st := { w.st with walSalt := some header.salt } } image sum := by
  obtain ⟨g, hwal, -, rfl⟩ := readHeader_walFile hread
  refine ⟨h.checksum, g.header.salt, rfl, ?_⟩
  have hseed : chainSeed { w.st with walSalt := some g.header.salt } = none := if_pos (.inl h.offset)
  rw [hseed]
  rw [h.offset]
  exact h.behind g hwal

/-- A cursor in place reads as one that has recorded the salt. -/
theorem InPlace.recorded (h : InPlace w image sum) (hread : w.Opens header)
    (hstay : w.rolled header = false) :
    ∃ v : World (Db ps), v.db = w.db ∧ Tracks v image sum ∧
      v.st = { w.st with walSalt := some header.salt } := by
  rcases h with h | h
  · exact ⟨{ w with st := { w.st with walSalt := some header.salt } }, rfl, h.tracks hread, rfl⟩
  · refine ⟨w, rfl, h, ?_⟩
    obtain ⟨-, salt, hsalt, -⟩ := h
    obtain ⟨hsame, -⟩ := noted_of_stay hsalt hstay
    rw [← hsame, ← hsalt]

/-- A call that finds nothing keeps the cursor in place. -/
theorem InPlace.idle (hps : 0 < ps.toNat) (h : InPlace w image sum)
    (hread : w.Opens header)
    (hstay : w.rolled header = false)
    (hnext : nextRead w header = .ok r) (hnil : r.pageMap = []) :
    InPlace (w.read header r) image sum := by
  obtain ⟨v, hdb, htracks, hst⟩ := h.recorded hread hstay
  have hstay' : rolloverDetected v.st (wal v.db).length header.salt = false := by
    rw [hdb, hst]
    simp only [rolloverDetected, Bool.or_eq_false_iff] at hstay ⊢
    exact ⟨hstay.1, by simp⟩
  have hnext' : nextRead v header = .ok r := by
    rw [nextRead_stay hstay', hdb, hst]
    rw [nextRead_stay hstay] at hnext
    exact hnext
  have hst' : readState v header r = readState w header r := by
    rw [readState_stay hstay', readState_stay hstay, hst]
  have hread' : readHeader (wal v.db) = .ok (some header) := by
    rw [hdb]
    exact hread
  obtain ⟨hsum, salt, hsalt, hbehind⟩ := tracks_idle hps hread' hstay' hnext' hnil htracks
  rw [hst'] at hsum hsalt hbehind
  refine .inr ⟨hsum, salt, hsalt, ?_⟩
  rw [← hdb]
  exact hbehind

/-- A published batch leads from the image the cursor stands at to the committed one, and the cursor stands
    there. -/
theorem InPlace.published (hps : 0 < ps.toNat) (h : InPlace w image sum) {o : Oracle (Action ps)}
    {bytes : Bytes} {txid : Nat} (hready : Ready cfg o w header r bytes post) (hdb' : w'.db = w.db)
    (hst' : w'.st = publishedState w header r txid post) :
    (∃ hdr, applyChangesetToDb cfg.ph bytes image sum = .ok ⟨hdr, post, w.db.image⟩) ∧
      InPlace w' w.db.image post := by
  obtain ⟨v, hdb, htracks, hst⟩ := h.recorded hready.read hready.stay
  have hcursor : SameCursor header.salt w.st v.st := by
    rw [hst]
    exact ⟨rfl, rfl, .inr rfl, rfl, rfl, rfl⟩
  have hready' : Ready cfg o v header r bytes post := by
    refine .transfer (w := w) ?_ hcursor
    rw [hdb]
    exact hready
  obtain ⟨happly, hnext⟩ := tracks_published hps hready'.read hready'.stay hready'.next hready'.batch
    hready'.encodes htracks
  rw [hdb] at happly hnext
  refine ⟨happly, .inr (hnext txid w' hdb' ?_)⟩
  rw [hst']
  simp only [publishedState, readState_stay hready.stay, readState_stay hready'.stay, hst]

end Cursor

/-! ## Shipping -/

/-- `FencedDeltaChainState`. -/
structure FencedDeltaChainState where
  epoch : Nat
  writerId : String
  prevChecksum : Bytes
  deriving DecidableEq, Repr

def FencedDeltaChainState.params (chain : FencedDeltaChainState) : FencedDeltaSyncParams :=
  ⟨chain.epoch, chain.writerId, chain.prevChecksum⟩

/-- The fenced branch of `sync_one_db`: the chain anchor advances to the published envelope. -/
def syncOneDb {E A : Type} [SqliteEnv E A] (cfg : Config) (env : EnvelopeCodec) (o : Oracle A)
    (chain : FencedDeltaChainState) : Run E (Nat × FencedDeltaChainState) := do
  match ← syncWalFencedDelta cfg env o chain.params with
  | some published => return (published.frameCount, { chain with prevChecksum := published.envelopeChecksum })
  | none => return (0, chain)

/-- `set_external_delta_base` of a registered database: seq, txid and fence move; the chain value and the WAL
    cursor stay. -/
def setExternalDeltaBase (epoch : Nat) (writerId : String) (baseSeq : Nat) (baseAnchor : Bytes) (s : SyncState) :
    Except String (SyncState × FencedDeltaChainState) :=
  if writerId = "" then
    .error "set_external_delta_base requires a non-empty writer_id (it fences the delta chain)"
  else if baseSeq < s.currentSeq then
    .error (s!"{s.name}: refused to set external delta base seq {baseSeq} behind current seq {s.currentSeq}")
  else .ok ({ s with currentSeq := baseSeq, currentTxid := baseSeq }, ⟨epoch, writerId, baseAnchor⟩)

/-- A fenced writer, the base and anchor its followers start from, and the image its newest envelope
    consumed. -/
structure Shipping (ps : UInt32) where
  world : World (Db ps)
  chain : FencedDeltaChainState
  anchor : FencedFollowerCursor
  base : Bytes
  shipped : Bytes

/-- **One step of a fenced writer.** `calm` restricts what other connections do, `sound` when the writer is
    re-anchored. -/
inductive ShipStep {ps : UInt32} (cfg : Config) (cr : EnvelopeCrates) (calm : Shipping ps → Action ps → Prop)
    (sound : Shipping ps → Prop) : Shipping ps → Shipping ps → Prop where
  | env {s : Shipping ps} {db : Db ps} (a : Action ps) (hforeign : Foreign a) (hcalm : calm s a)
      (h : s.world.db.act a = some db) :
      ShipStep cfg cr calm sound s { s with world := { s.world with db := db } }
  | sync {s : Shipping ps} {w : World (Db ps)} {n : Nat} {chain : FencedDeltaChainState} (c : Commit ps)
      (now : Int64) (h : syncOneDb cfg cr.codec (quiet (.commit c) now) s.chain s.world = .ok (n, chain) w) :
      ShipStep cfg cr calm sound s { s with
        world := w
        chain := chain
        shipped := if w.st.currentSeq = s.world.st.currentSeq then s.shipped else s.world.db.image }
  /-- A new base is published, of the database as far as it was shipped, and the writer is anchored on it. -/
  | reanchor {s : Shipping ps} {st : SyncState} {chain : FencedDeltaChainState} (epoch : Nat) (writerId : String)
      (baseSeq : Nat) (baseAnchor : Bytes) (hsound : sound s)
      (h : setExternalDeltaBase epoch writerId baseSeq baseAnchor s.world.st = .ok (st, chain)) :
      ShipStep cfg cr calm sound s
        ⟨{ s.world with st := st }, chain, ⟨baseSeq, epoch, writerId, baseAnchor⟩, s.shipped, s.shipped⟩

abbrev Ships {ps : UInt32} (cfg : Config) (cr : EnvelopeCrates) (calm : Shipping ps → Action ps → Prop)
    (sound : Shipping ps → Prop) : Shipping ps → Shipping ps → Prop :=
  ReflTransGen (ShipStep cfg cr calm sound)

/-- A writer that begins to ship: its chain value is the file checksum of the base, its cursor stands at the
    base, and its fence is the anchor. -/
structure Opened {ps : UInt32} (cfg : Config) (s : Shipping ps) : Prop where
  pageSize : 0 < ps.toNat
  inPlace : InPlace s.world s.base (computeChecksumFromFile cfg.ph s.base)
  seq : s.anchor.baseSeq = s.world.st.currentSeq
  fence : s.chain = ⟨s.anchor.epoch, s.anchor.writerId, s.anchor.baseEnvelopeChecksum⟩
  shipped : s.shipped = s.base

/-- No reset discards a commit made since the base while the cursor has recorded no salt. -/
def Calm {ps : UInt32} (s : Shipping ps) (a : Action ps) : Prop :=
  s.world.st.walSalt = none → ∀ t, a = .reset t → s.world.db.image = s.shipped

/-- The chain value is the file checksum of the base that is being adopted. -/
def ChainsToBase {ps : UInt32} (cfg : Config) (s : Shipping ps) : Prop :=
  s.world.st.dbChecksum = some (computeChecksumFromFile cfg.ph s.shipped)

/-- **The invariant**: a follower of the last anchor stands where the writer does. -/
structure Shipped {ps : UInt32} (cfg : Config) (cr : EnvelopeCrates) (s : Shipping ps) : Prop where
  epoch : s.chain.epoch = s.anchor.epoch
  writer : s.chain.writerId = s.anchor.writerId
  follows : ∃ sum, InPlace s.world s.shipped sum ∧
    Followed cr cfg.ph s.world.bucket s.anchor s.base s.world.st.currentSeq
      ⟨s.shipped, sum, s.chain.prevChecksum⟩

section Ships

variable {cr : EnvelopeCrates} {s s₀ : Shipping ps}

theorem Opened.start (h : Opened cfg s) : Shipped cfg cr s := by
  refine ⟨by rw [h.fence], by rw [h.fence], _, h.shipped ▸ h.inPlace, ?_⟩
  rw [← h.seq, h.fence, h.shipped]
  exact .base

theorem Shipped.env (hps : 0 < ps.toNat) (h : Shipped cfg cr s) (hforeign : Foreign a) (hcalm : Calm s a)
    (ha : s.world.db.act a = some db) : Shipped cfg cr { s with world := { s.world with db := db } } := by
  obtain ⟨sum, hplace, hfollowed⟩ := h.follows
  exact ⟨h.epoch, h.writer, sum, hplace.act hps hforeign hcalm ha, hfollowed⟩

/-- **A call keeps the follower abreast.** -/
theorem Shipped.sync (hcr : cr.RoundTrips) (hps : 0 < ps.toNat) (h : Shipped cfg cr s) {c : Commit ps}
    {now : Int64} {n : Nat} {chain : FencedDeltaChainState} {w : World (Db ps)}
    (hcall : syncOneDb cfg cr.codec (quiet (.commit c) now) s.chain s.world = .ok (n, chain) w) :
    Shipped cfg cr { s with
      world := w
      chain := chain
      shipped := if w.st.currentSeq = s.world.st.currentSeq then s.shipped else s.world.db.image } := by
  obtain ⟨sum, hplace, hfollowed⟩ := h.follows
  simp only [syncOneDb, bind_apply] at hcall
  split at hcall
  · rename_i res w₁ hsync
    cases syncWalFencedDelta_quiet_ok hsync with
    | noWal hread =>
      cases hcall
      refine ⟨h.epoch, h.writer, sum, ?_⟩
      rw [if_pos rfl]
      exact ⟨hplace, hfollowed⟩
    | idle header r hread hstay hnext hnil =>
      cases hcall
      refine ⟨h.epoch, h.writer, sum, ?_⟩
      rw [if_pos (readState_seq s.world header r)]
      refine ⟨hplace.idle hps hread hstay hnext hnil, ?_⟩
      rw [readState_seq]
      exact hfollowed
    | published header r bytes post envelope w' hready hencode hdb hget hrest hst =>
      cases hcall
      have hseq : w.st.currentSeq = s.world.st.currentSeq + 1 := by
        rw [hst]
        rfl
      obtain ⟨⟨hdr, happly⟩, hplace'⟩ := hplace.published hps hready hdb hst
      refine ⟨h.epoch, h.writer, post, ?_⟩
      rw [if_neg (by rw [hseq]; exact Nat.succ_ne_self _)]
      refine ⟨hplace', ?_⟩
      rw [hseq]
      have hencode' := EnvelopeCrates.codec_encode.mp hencode
      have hframe : Followed cr cfg.ph w.bucket s.anchor s.base s.world.st.currentSeq
          ⟨s.shipped, sum, s.chain.prevChecksum⟩ := by
        refine hfollowed.frame fun m hm => hrest _ ?_
        rintro ⟨⟩
        omega
      exact .next hframe hget (decodeEnvelope_encode hcr hencode') rfl h.epoch h.writer rfl hencode' rfl happly
  · cases hcall

/-- **A sound re-anchor** starts a new follower at the writer. -/
theorem Shipped.reanchor (h : Shipped cfg cr s) {st : SyncState} {epoch : Nat} {writerId : String}
    {baseSeq : Nat} {baseAnchor : Bytes} (hsound : ChainsToBase cfg s)
    (hset : setExternalDeltaBase epoch writerId baseSeq baseAnchor s.world.st = .ok (st, chain)) :
    Shipped cfg cr
      ⟨{ s.world with st := st }, chain, ⟨baseSeq, epoch, writerId, baseAnchor⟩, s.shipped, s.shipped⟩ := by
  obtain ⟨sum, hplace, -⟩ := h.follows
  unfold setExternalDeltaBase at hset
  split at hset
  · cases hset
  split at hset
  · cases hset
  injection hset with hset
  injection hset with hst hchain
  subst hst hchain
  have hsum : sum = computeChecksumFromFile cfg.ph s.shipped :=
    Option.some.inj (hplace.checksum.symm.trans hsound)
  refine ⟨rfl, rfl, sum, ?_, ?_⟩
  · rcases hplace with hu | ⟨hc, salt, hsalt, hbehind⟩
    · exact .inl ⟨hu.checksum, hu.salt, hu.offset, hu.fresh, hu.behind⟩
    · exact .inr ⟨hc, salt, hsalt, hbehind⟩
  · rw [hsum]
    exact .base

/-- **The invariant holds along every run** whose steps meet the conditions. -/
theorem Shipped.of_ships (hcr : cr.RoundTrips) (h₀ : Opened cfg s₀)
    (hrun : Ships cfg cr Calm (ChainsToBase cfg) s₀ s) : Shipped cfg cr s := by
  induction hrun with
  | refl => exact h₀.start
  | tail _ hstep ih =>
    cases hstep with
    | env a hforeign hcalm ha => exact ih.env h₀.pageSize hforeign hcalm ha
    | sync c now hcall => exact ih.sync hcr h₀.pageSize hcall
    | reanchor epoch writerId baseSeq baseAnchor hsound hset => exact ih.reanchor hsound hset

/-- The follower of the last anchor, given all that was shipped and nothing else, ends where the writer is. -/
theorem Shipped.reconstructs (h : Shipped cfg cr s) {pre name : String}
    (habove : ∀ m, s.world.st.currentSeq < m → s.world.bucket.get (.envelope m) = none) :
    ∃ sum, reconstructFencedFollower cr cfg.ph pre name s.world.bucket s.anchor s.base =
      .ok (⟨s.world.st.currentSeq - s.anchor.baseSeq, s.world.st.currentSeq, s.chain.prevChecksum, sum⟩,
        s.shipped) := by
  obtain ⟨sum, -, hfollowed⟩ := h.follows
  exact ⟨sum, reconstruct_ok_iff.mpr ⟨_, _, hfollowed, habove, rfl, rfl⟩⟩

theorem ShipStep.mono {calm : Shipping ps → Action ps → Prop} {sound sound' : Shipping ps → Prop}
    (hsound : ∀ s, sound s → sound' s) {t : Shipping ps} (h : ShipStep cfg cr calm sound s t) :
    ShipStep cfg cr calm sound' s t := by
  cases h with
  | env a hforeign hcalm ha => exact .env a hforeign hcalm ha
  | sync c now hcall => exact .sync c now hcall
  | reanchor epoch writerId baseSeq baseAnchor hs hset =>
    exact .reanchor epoch writerId baseSeq baseAnchor (hsound _ hs) hset

/-- **The fenced follower is sound, and follows its writer.**

    Whatever a bucket holds, if the follower returns, then the stored envelopes after the base are exactly those
    up to the head it reports, each passed every fence, and the database it leaves is the base with their
    payloads applied in order. And in every run of a writer that begins at a base whose file checksum is its
    chain value, in which no reset discards a commit made since the base before the first read, the follower of
    that base accepts all that was shipped and ends with the image the newest envelope consumed. -/
theorem fenced_follower (cfg : Config) (cr : EnvelopeCrates) (hcr : cr.RoundTrips) :
    (∀ (pre name : String) (b : Bucket) (cursor : FencedFollowerCursor) (base : Bytes)
        (res : FencedFollowerResult) (db : Bytes),
      reconstructFencedFollower cr cfg.ph pre name b cursor base = .ok (res, db) →
      Followed cr cfg.ph b cursor base res.headSeq ⟨db, res.dbChecksum, res.headEnvelopeChecksum⟩ ∧
        res.headSeq = cursor.baseSeq + res.applied ∧
        ∀ m, cursor.baseSeq < m → ((b.get (.envelope m)).isSome ↔ m ≤ res.headSeq)) ∧
    (∀ {ps : UInt32} {s₀ s : Shipping ps} (pre name : String), Opened cfg s₀ →
      Ships cfg cr Calm (fun _ => False) s₀ s →
      (∀ m, s.world.st.currentSeq < m → s.world.bucket.get (.envelope m) = none) →
      ∃ sum, reconstructFencedFollower cr cfg.ph pre name s.world.bucket s.anchor s.base =
        .ok (⟨s.world.st.currentSeq - s.anchor.baseSeq, s.world.st.currentSeq, s.chain.prevChecksum, sum⟩,
          s.shipped)) := by
  constructor
  · intro pre name b cursor base res db h
    obtain ⟨n, st, hfollowed, habove, rfl, rfl⟩ := reconstruct_ok_iff.mp h
    refine ⟨hfollowed, (Nat.add_sub_cancel' hfollowed.le).symm, fun m hm => ⟨?_, hfollowed.stored hm⟩⟩
    intro hsome
    by_contra hgt
    rw [habove m (not_le.mp hgt)] at hsome
    cases hsome
  · intro ps s₀ s pre name h₀ hrun habove
    have hrun' : Ships cfg cr Calm (ChainsToBase cfg) s₀ s := hrun.lift id fun _ _ hstep =>
      hstep.mono fun _ hfalse => hfalse.elim
    exact (Shipped.of_ships hcr h₀ hrun').reconstructs habove

/-- **Re-anchoring keeps a fenced writer followable** in every run whose re-anchors each find the file checksum of
    the new base as the writer's chain value, and in which no reset discards a commit made since the base before
    the first read: a follower of the last base and anchor accepts every delta published since and ends with the
    image the newest one consumed. -/
theorem reanchored_followable (cfg : Config) (cr : EnvelopeCrates) (hcr : cr.RoundTrips) {ps : UInt32}
    {s₀ s : Shipping ps} (pre name : String) (h₀ : Opened cfg s₀)
    (hrun : Ships cfg cr Calm (ChainsToBase cfg) s₀ s)
    (habove : ∀ m, s.world.st.currentSeq < m → s.world.bucket.get (.envelope m) = none) :
    ∃ sum, reconstructFencedFollower cr cfg.ph pre name s.world.bucket s.anchor s.base =
      .ok (⟨s.world.st.currentSeq - s.anchor.baseSeq, s.world.st.currentSeq, s.chain.prevChecksum, sum⟩,
        s.shipped) :=
  (Shipped.of_ships hcr h₀ hrun).reconstructs habove

end Ships

/-! ### The growing database, shipped -/

section Ready

variable {env : EnvelopeCodec} {b : A} {now : Int64} {w : World E} {bytes : Bytes}

/-- A cursor that has recorded no salt reads what one with the right salt reads. -/
theorem Ready.unrecorded {o : Oracle A} (hnone : w.st.walSalt = none)
    (h : Ready cfg o { w with st := { w.st with walSalt := some header.salt } } header r bytes post) :
    Ready cfg o w header r bytes post := by
  have hstay : w.rolled header = false := by
    have hs := h.stay
    simp only [rolloverDetected, Bool.or_eq_false_iff] at hs ⊢
    exact ⟨hs.1, by rw [hnone]; rfl⟩
  refine ⟨h.read, hstay, ?_, h.batch, h.encodes⟩
  have hnext := h.next
  rw [nextRead_stay h.stay] at hnext
  rw [nextRead_stay hstay]
  exact hnext

/-- A fenced call with a batch ships it, if its key is free. -/
theorem Ready.syncOneDb (h : Ready cfg (quiet b now) w header r bytes post)
    (hencode : env.encode (fencedPayload chain.params (deltaOf cfg w header r bytes post)) = .ok envelope)
    (hfree : w.bucket.get (.envelope (w.st.currentSeq + 1)) = none) :
    Sync.syncOneDb cfg env (quiet b now) chain w =
      .ok (r.frameCount, { chain with prevChecksum := env.checksum envelope })
        ⟨w.db, w.bucket.put (.envelope (w.st.currentSeq + 1)) envelope, w.stateJson, w.intent,
          publishedState w header r (batchTxid (readState w header r) (batchOf r)) post⟩ := by
  have hpub : publishDeltaEnvelope cfg env (quiet b now)
      (fencedPayload chain.params (deltaOf cfg w header r bytes post)) (w.read header r) =
        .ok (env.checksum envelope)
          { w with
            bucket := w.bucket.put (.envelope (w.st.currentSeq + 1)) envelope
            st := readState w header r } := publishDeltaEnvelope_quiet hencode hfree
  have hsync : syncWalFencedDelta cfg env (quiet b now) chain.params w = _ :=
    h.site (quietRead_quiet b now)
  simp only [Sync.syncOneDb, bind_apply, hsync]
  rw [show (⟨_, _, _, _, _, _⟩ : DeltaPayloadV1) =
    fencedPayload chain.params (deltaOf cfg w header r bytes post) from rfl, hpub]
  rfl

end Ready

/-- The CBOR of a payload of the writer `"w"` with small numbers and between 256 and 65535 bytes of changeset: a
    map of the six fields in order. -/
def smallBody (p : DeltaPayloadV1) : Bytes :=
  [166, 99, 115, 101, 113, UInt8.ofNat p.seq, 101, 101, 112, 111, 99, 104, UInt8.ofNat p.epoch, 105, 119, 114, 105,
    116, 101, 114, 95, 105, 100, 97, 119, 109, 112, 114, 101, 118, 95, 99, 104, 101, 99, 107, 115, 117, 109, 88,
    32] ++ p.prevChecksum ++
    [110, 101, 110, 100, 95, 112, 97, 103, 101, 95, 99, 111, 117, 110, 116, UInt8.ofNat p.endPageCount, 107, 108,
      116, 120, 95, 112, 97, 121, 108, 111, 97, 100, 89] ++ Bytes.beBytes 2 p.ltxPayload.length ++ p.ltxPayload

/-- The crates on two payloads, with the BLAKE3 of their envelopes. -/
def knownCrates (p q : DeltaPayloadV1) (hp hq : Bytes) : EnvelopeCrates where
  intoWriter x := if x = p ∨ x = q then .ok (smallBody x) else .error "unknown payload"
  fromReader body :=
    if body = smallBody p then .ok p else if body = smallBody q then .ok q else .error "unknown payload"
  blake3 bytes := if bytes = deltaMagic ++ Bytes.beBytes 2 deltaVersionV1 ++ smallBody p then hp else hq

theorem roundTrips_knownCrates (hp hq : Bytes) : (knownCrates p p hp hq).RoundTrips := by
  intro x body h
  simp only [knownCrates, or_self] at h ⊢
  split at h
  · rename_i hx
    injection h with h
    rw [← h, hx, if_pos rfl]
  · cases h

/-- Two payloads are told apart by their first number. -/
theorem roundTrips_knownCrates_two {q : DeltaPayloadV1} (hp hq : Bytes)
    (hne : UInt8.ofNat q.seq ≠ UInt8.ofNat p.seq) : (knownCrates p q hp hq).RoundTrips := by
  have hbody : smallBody q ≠ smallBody p := by
    intro h
    refine hne (Option.some.inj ?_)
    exact congrArg (fun bs : Bytes => bs[5]?) h
  intro x body h
  simp only [knownCrates] at h ⊢
  split at h
  · rename_i hx
    injection h with h
    rw [← h]
    rcases hx with rfl | rfl
    · rw [if_pos rfl]
    · rw [if_neg hbody, if_pos rfl]
  · cases h

theorem encode_knownCrates {q x : DeltaPayloadV1} (hp hq : Bytes) (hx : x = p ∨ x = q) :
    (knownCrates p q hp hq).codec.encode x =
      .ok (deltaMagic ++ Bytes.beBytes 2 deltaVersionV1 ++ smallBody x) := by
  rw [EnvelopeCrates.codec_encode, encodeEnvelope, knownCrates]
  simp only [if_pos hx]

theorem exists_crates (p : DeltaPayloadV1) (hash : Bytes) : ∃ (cr : EnvelopeCrates) (envelope : Bytes),
    cr.RoundTrips ∧ cr.codec.encode p = .ok envelope :=
  ⟨knownCrates p p hash [], _, roundTrips_knownCrates _ _, encode_knownCrates _ _ (.inl rfl)⟩

theorem free_beyond {b : Bucket} {n : Nat} (h : ∀ m, n < m → b.get (.envelope m) = none) (m : Nat)
    (hm : n + 1 < m) : (b.put (.envelope (n + 1)) envelope).get (.envelope m) = none := by
  refine (Store.get_put_of_ne _ _ ?_).trans (h m (Nat.lt_of_succ_lt hm))
  rintro ⟨⟩
  exact absurd hm (lt_irrefl _)

/-- SHA-256 (first eight bytes) of the file of one page, of the file of two, of the delta that writes both, and of
    one other delta, told apart by length. -/
def shipSha64 (other : UInt64) (bs : Bytes) : UInt64 :=
  if bs.length = 512 then 14339146280585533889
  else if bs.length = 1024 then 3665759466527788975
  else if bs.length = 1056 then 3963234172952512726
  else other

def shipConfig (other : UInt64) : Config := ⟨Compaction.physicalOf (shipSha64 other), ""⟩

/-- With the hash of the delta that writes two pages. -/
abbrev growShip : Config := shipConfig 13208909912000341543

/-- With the hash of the delta that writes page 3 alone. -/
abbrev lossShip : Config := shipConfig 12174683395477038275

/-- The one-page database, registered with an external base at seq 1 and opened for fenced shipping. -/
def fencedStart (cfg : Config) : Shipping 512 where
  world := { onePage with
    st := { SyncState.new "app" with
      currentSeq := 1
      currentTxid := 1
      externalBase := some ⟨1, computeChecksumFromFile cfg.ph pageOne⟩
      dbChecksum := some (computeChecksumFromFile cfg.ph pageOne) } }
  chain := ⟨1, "w", replicate 32 0⟩
  anchor := ⟨1, 1, "w", replicate 32 0⟩
  base := pageOne
  shipped := pageOne

theorem opened_fencedStart {cfg : Config} : Opened cfg (fencedStart cfg) :=
  ⟨by decide, .inl ⟨rfl, rfl, rfl, fun _ => rfl, fun _ hg => nomatch hg⟩, rfl, rfl, rfl⟩

/-- The application has moved the database on. -/
def Shipping.withDb (s : Shipping 512) (db : Db 512) : Shipping 512 := { s with world := { s.world with db := db } }

theorem foreign_commit (h : c.stale = []) : Foreign (.commit c) :=
  Generation.staleForeign_of_nil h

theorem calm_commit {s : Shipping 512} : Calm s (.commit c) := by
  intro _ t h
  cases h

/-- Two commits to the one-page database, and the batch a cursor that has read nothing finds in them. -/
theorem ready_growing (cfg : Config) {s : Shipping 512} (hdb : s.world.db = onePage.db)
    (hsalt : s.world.st.walSalt = none) (hoffset : s.world.st.walOffset = 0) :
    ∃ (db : Db 512) (r : PageMapRead) (bytes : Bytes) (post : UInt64),
      (∀ cr sound, Ships cfg cr Calm sound s (s.withDb db)) ∧ db.wal = some oneLog ∧
      db.restart = false ∧ db.image.length = 1024 ∧
      Ready cfg calmCall (s.withDb db).world
        oneLog.header r bytes post ∧
      PendingRead oneLog [(touchOne (1, 2)).txn, (writeTwo 7).txn] r := by
  obtain ⟨db₁, hact₁, hwal₁, hrestart₁, hlen₁⟩ : ∃ db₁ : Db 512,
      s.world.db.act (.commit (touchOne (1, 2))) = some db₁ ∧ db₁.wal = some (pinnedLog []) ∧
        db₁.restart = false ∧ 512 ≤ db₁.image.length := by
    have hact : onePage.db.act (.commit (touchOne (1, 2))) = some (pinned onePage.db (1, 2)) :=
      @act_touchOne onePage.db length_pageOne _ (by simp [onePage])
    rw [hdb, hact]
    exact ⟨_, rfl, rfl, rfl, by simp [pinned, touchOne, Txn.patch]⟩
  obtain ⟨db, hact₂, hwal, hrestart, himage⟩ := act_writeTwo hwal₁ hrestart₁ hlen₁ 7
  obtain ⟨r, bytes, post, hready, hp⟩ := ready_fromStart cfg calmCall
    (w := ⟨db, s.world.bucket, s.world.stateJson, s.world.intent,
      { s.world.st with walSalt := some (1, 2) }⟩) hwal rfl hoffset rfl (by simp [writeTwo])
  refine ⟨db, r, bytes, post, fun cr sound => ?_, hwal, hrestart, himage, ?_, hp⟩
  · have hfirst : ShipStep cfg cr Calm sound s (s.withDb db₁) :=
      .env _ (foreign_commit rfl) calm_commit hact₁
    exact (ReflTransGen.single hfirst).tail (.env _ (foreign_commit rfl) calm_commit hact₂)
  · refine .unrecorded (w := (s.withDb db).world) hsalt ?_
    exact hready

/-- A batch is shipped in `envelope`. -/
def Shipping.ship (s : Shipping 512) (header : WalHeader) (r : PageMapRead) (post : UInt64) (envelope hash : Bytes) :
    Shipping 512 :=
  ⟨⟨s.world.db, s.world.bucket.put (.envelope (s.world.st.currentSeq + 1)) envelope, s.world.stateJson,
    s.world.intent, publishedState s.world header r (batchTxid (readState s.world header r) (batchOf r)) post⟩,
    { s.chain with prevChecksum := hash }, s.anchor, s.base, s.world.db.image⟩

/-- A call with a batch is a step that ships it. -/
theorem Ready.ships {cfg : Config} {cr : EnvelopeCrates} {calm : Shipping 512 → Action 512 → Prop}
    {sound : Shipping 512 → Prop} {s : Shipping 512} {now : Int64} {bytes : Bytes}
    (h : Ready cfg (quiet (.commit c) now) s.world header r bytes post)
    (hencode : cr.codec.encode (fencedPayload s.chain.params (deltaOf cfg s.world header r bytes post)) =
      .ok envelope) (hfree : s.world.bucket.get (.envelope (s.world.st.currentSeq + 1)) = none) :
    ShipStep cfg cr calm sound s (s.ship header r post envelope (cr.blake3 envelope)) := by
  have hstep := @ShipStep.sync _ _ _ calm sound _ _ _ _ c now (h.syncOneDb hencode hfree)
  have hmoved : ¬ (publishedState s.world header r (batchTxid (readState s.world header r) (batchOf r)) post).currentSeq
      = s.world.st.currentSeq := Nat.succ_ne_self _
  rw [if_neg hmoved] at hstep
  exact hstep

/-- The growing database ships its first delta, and the follower of its base has it. -/
theorem fenced_follower_growing : ∃ (cfg : Config) (cr : EnvelopeCrates) (s₀ s : Shipping 512) (sum : UInt64),
    cr.RoundTrips ∧ Opened cfg s₀ ∧ Ships cfg cr Calm (fun _ => False) s₀ s ∧ s.shipped.length = 1024 ∧
      reconstructFencedFollower cr cfg.ph "" "app" s.world.bucket s.anchor s.base =
        .ok (⟨1, 2, s.chain.prevChecksum, sum⟩, s.shipped) := by
  obtain ⟨db, r, bytes, post, hrun, -, -, himage, hready, -⟩ := ready_growing growShip (s := fencedStart growShip)
    rfl rfl rfl
  obtain ⟨cr, envelope, hcr, hencode⟩ := exists_crates (fencedPayload ((fencedStart growShip).withDb db).chain.params
    (deltaOf growShip ((fencedStart growShip).withDb db).world oneLog.header r bytes post))
    [77, 71, 109, 72, 158, 207, 168, 252, 65, 66, 176, 241, 255, 205, 95, 218, 159, 231, 43, 207, 104, 72, 23, 83,
      172, 107, 205, 53, 185, 96, 163, 183]
  have hships := (hrun cr fun _ => False).tail (hready.ships hencode rfl)
  obtain ⟨sum, hfollow⟩ := (fenced_follower _ _ hcr).2 "" "app" opened_fencedStart hships
    (free_beyond fun _ _ => rfl)
  exact ⟨_, _, _, _, sum, hcr, opened_fencedStart, hships, himage, hfollow⟩

/-- A commit that writes page 3, as the last page. -/
def writeThree : Commit 512 where
  txn := { pages := [(3, fillBytes 512 8)], dbSize := 3, nonempty := by simp, pageNum := by simp,
           dataLen := by simp, sizePos := by decide }
  salt := (1, 2)
  checkpointSeq := 0
  bigEndian := false
  stale := []

/-- The log that `writeThree` begins. -/
def thirdLog : Generation 512 := ⟨(1, 2), 0, false, [writeThree.txn], []⟩

theorem act_first {db : Db 512} (hwal : db.wal = none) {c : Commit 512} {n : Nat}
    (hlen : db.image.length = n * 512) (hcov : c.txn.patch.Covers n) (hsalt : c.salt ∉ db.salts) :
    ∃ db', db.act (.commit c) = some db' ∧
      db'.wal = some ⟨c.salt, c.checkpointSeq, c.bigEndian, [c.txn], []⟩ ∧
      db'.image = c.txn.patch.apply 512 db.image ∧ db'.salts = c.salt :: db.salts := by
  have hpages : db.pages = n := by
    rw [Db.pages, hlen]
    exact Nat.mul_div_cancel n (by decide)
  rw [← hpages] at hcov
  simp only [act_commit, Db.commit, hcov, hwal, hsalt]
  exact ⟨_, rfl, rfl, rfl, rfl⟩

/-- Page 2 is committed, the log is checkpointed and reset, and page 3 is committed, all before the first read. -/
theorem reset_growing {cfg : Config} {s : Shipping 512} (hdb : s.world.db = onePage.db) :
    ∃ db : Db 512, (∀ cr, Ships cfg cr (fun _ _ => True) (fun _ => False) s (s.withDb db)) ∧
      db.wal = some thirdLog ∧
      db.image = writeThree.txn.patch.apply 512 ((writeTwo 7).txn.patch.apply 512 pageOne) := by
  obtain ⟨db₁, hact₁, -, himage₁, hsalts₁⟩ := @act_first onePage.db rfl (writeTwo 7) 1
    length_pageOne (by decide) (by simp [onePage])
  obtain ⟨db₂, hact₂, hwal₂, himage₂, -⟩ := @act_first db₁.truncate rfl writeThree 2
    (by rw [show db₁.truncate.image = db₁.image from rfl, himage₁]; exact length_apply _) (by decide)
    (by rw [show db₁.truncate.salts = db₁.salts from rfl, hsalts₁]; decide)
  refine ⟨db₂, fun cr => ?_, hwal₂, himage₂.trans (congrArg (writeThree.txn.patch.apply 512) himage₁)⟩
  have hfirst : ShipStep cfg cr (fun _ _ => True) (fun _ => False) s (s.withDb db₁) := by
    refine .env (.commit (writeTwo 7)) (foreign_commit rfl) trivial ?_
    rw [hdb]
    exact hact₁
  have hsecond : ShipStep cfg cr (fun _ _ => True) (fun _ => False) (s.withDb db₁) (s.withDb db₁.truncate) :=
    .env (.reset true) trivial trivial rfl
  have hthird : ShipStep cfg cr (fun _ _ => True) (fun _ => False) (s.withDb db₁.truncate) (s.withDb db₂) :=
    .env (.commit writeThree) (foreign_commit rfl) trivial hact₂
  exact ((ReflTransGen.single hfirst).tail hsecond).tail hthird

/-- What a reader of the log of page 3 alone makes of the one-page database: page 2 is zeros. -/
theorem lost_page_two (hp : PendingRead thirdLog [writeThree.txn] r) :
    File.byteAt (paint 512 (lastWrite (pageWrites r.pageMap)) r.finalDbSize.toNat pageOne)
      512 = 0 := by
  have hsize : r.finalDbSize.toNat = 3 := hp.size 0
  have hwrite : lastWrite (pageWrites r.pageMap) (pageOf 512 512) = none :=
    (hp.writes 2).trans (by decide)
  rw [byteAt_paint (by rw [hsize]; decide), hwrite]
  exact getD_eq_default _ _ length_pageOne.le

/-- A log emptied before the first read takes page 2 with it: the follower accepts all that was shipped, reports the
    writer's head, and does not have the page. -/
theorem reset_before_first_read : ∃ (cfg : Config) (cr : EnvelopeCrates) (s₀ s : Shipping 512)
    (res : FencedFollowerResult) (db : Bytes), cr.RoundTrips ∧ Opened cfg s₀ ∧
      Ships cfg cr (fun _ _ => True) (fun _ => False) s₀ s ∧
      reconstructFencedFollower cr cfg.ph "" "app" s.world.bucket s.anchor s.base = .ok (res, db) ∧
      res.headSeq = s.world.st.currentSeq ∧ s.shipped = s.world.db.image ∧
      Lib.File.byteAt s.shipped 512 = 7 ∧ Lib.File.byteAt db 512 = 0 := by
  obtain ⟨db, hrun, hwal, himage⟩ := reset_growing (s := fencedStart lossShip) rfl
  obtain ⟨s, hs⟩ : ∃ s, s = (fencedStart lossShip).withDb db := ⟨_, rfl⟩
  rw [← hs] at hrun
  have hdb : s.world.db = db := by rw [hs]; rfl
  obtain ⟨r, bytes, post, hready, hp⟩ : ∃ r bytes post, Ready lossShip
      calmCall s.world thirdLog.header r bytes post ∧
        PendingRead thirdLog [writeThree.txn] r := by
    obtain ⟨r, bytes, post, hready, hp⟩ := ready_of_cursor lossShip
      calmCall
      (w := { s.world with st := { s.world.st with walSalt := some (1, 2) } }) validate512 (hdb ▸ hwal)
      (nil_append _).symm rfl (by decide) rfl (by rw [hs]; exact Generation.cursor_start _ _)
      (cons_ne_nil _ _) (by simp [thirdLog, writeThree, Txn.patch, finalSize]) (by decide)
    exact ⟨r, bytes, post, .unrecorded (by rw [hs]; rfl) hready, hp⟩
  obtain ⟨cr, envelope, hcr, hencode⟩ := exists_crates (fencedPayload s.chain.params
    (deltaOf lossShip s.world thirdLog.header r bytes post))
    [68, 221, 195, 238, 241, 19, 100, 210, 73, 252, 185, 95, 158, 123, 168, 123, 186, 131, 44, 126, 8, 223, 98, 159,
      98, 69, 85, 163, 9, 198, 44, 3]
  have hempty : ∀ k, s.world.bucket.get k = none := fun _ => by rw [hs]; rfl
  have hships := (hrun cr).tail (hready.ships hencode (hempty _))
  have hpre : preOf lossShip s.world = computeChecksumFromFile lossShip.ph pageOne := by
    rw [hs]
    rfl
  have happly := applyChangesetToDb_delta hready.encodes hp.nodup pageOne
  rw [hpre] at happly
  have hseq : s.world.st.currentSeq = 1 := by rw [hs]; rfl
  have hencode' := EnvelopeCrates.codec_encode.mp hencode
  have hfollowed : Followed cr lossShip.ph
      (s.world.bucket.put (.envelope (s.world.st.currentSeq + 1)) envelope) s.anchor s.base 2
        ⟨paint 512 (lastWrite (pageWrites r.pageMap)) r.finalDbSize.toNat pageOne, post,
          cr.blake3 envelope⟩ := by
    have hstart : Followed cr lossShip.ph
        (s.world.bucket.put (.envelope (s.world.st.currentSeq + 1)) envelope)
        (fencedStart lossShip).anchor pageOne 1 _ := .base
    rw [show s.anchor = (fencedStart lossShip).anchor by rw [hs]; rfl, show s.base = pageOne by rw [hs]; rfl]
    refine hstart.next (by rw [hseq]; exact Store.get_put_self _ _ _) (decodeEnvelope_encode hcr hencode')
      (congrArg Nat.succ hseq) ?_ ?_ ?_ hencode' rfl happly
    all_goals
      rw [hs]
      rfl
  refine ⟨_, _, _, _, _, _, hcr, opened_fencedStart, hships,
    reconstruct_ok_iff.mpr ⟨_, _, hfollowed, ?_, rfl, rfl⟩, (congrArg Nat.succ hseq).symm, rfl, ?_, lost_page_two hp⟩
  · exact fun m hm => free_beyond (fun _ _ => hempty _) m (by omega)
  show File.byteAt s.world.db.image 512 = 7
  have htwo : lastWrite (writeTwo 7).txn.patch.writes (pageOf 512 512) =
      some (fillBytes 512 7) := rfl
  rw [hdb, himage, Patch.apply, byteAt_paint (by decide)]
  simp only [Patch.apply]
  rw [byteAt_paint (by decide), htwo, fillBytes]
  rfl

/-- The writer `"w"`, anchored anew at `baseSeq` under epoch 2. -/
def Shipping.anew (s : Shipping 512) (baseSeq : Nat) (baseAnchor : Bytes) : Shipping 512 :=
  ⟨{ s.world with st := { s.world.st with currentSeq := baseSeq, currentTxid := baseSeq } },
    ⟨2, "w", baseAnchor⟩, ⟨baseSeq, 2, "w", baseAnchor⟩, s.shipped, s.shipped⟩

theorem ShipStep.anew {cfg : Config} {cr : EnvelopeCrates} {calm : Shipping 512 → Action 512 → Prop}
    {sound : Shipping 512 → Prop} {s : Shipping 512} (baseSeq : Nat) (baseAnchor : Bytes) (hsound : sound s)
    (hle : s.world.st.currentSeq ≤ baseSeq) : ShipStep cfg cr calm sound s (s.anew baseSeq baseAnchor) := by
  refine .reanchor 2 "w" baseSeq baseAnchor hsound ?_
  rw [setExternalDeltaBase, if_neg (by decide), if_neg (not_lt.mpr hle)]

/-- Anchored anew at seq 5 before its first delta, the growing database ships seq 6, and the follower of the new
    base has it. -/
theorem reanchored_followable_growing : ∃ (cfg : Config) (cr : EnvelopeCrates) (s₀ s₁ s : Shipping 512)
    (sum : UInt64), cr.RoundTrips ∧ Opened cfg s₀ ∧ s₀.anchor.baseSeq = 1 ∧ s₁.anchor.baseSeq = 5 ∧
      Ships cfg cr Calm (ChainsToBase cfg) s₀ s₁ ∧ Ships cfg cr Calm (ChainsToBase cfg) s₁ s ∧
      s.shipped.length = 1024 ∧
      reconstructFencedFollower cr cfg.ph "" "app" s.world.bucket s.anchor s.base =
        .ok (⟨1, 6, s.chain.prevChecksum, sum⟩, s.shipped) := by
  obtain ⟨s₁, hs₁⟩ : ∃ s₁, s₁ = (fencedStart growShip).anew 5 (replicate 32 1) := ⟨_, rfl⟩
  obtain ⟨db, r, bytes, post, hrun, -, -, himage, hready, -⟩ := ready_growing growShip (s := s₁) (by rw [hs₁]; rfl)
    (by rw [hs₁]; rfl) (by rw [hs₁]; rfl)
  obtain ⟨cr, envelope, hcr, hencode⟩ := exists_crates (fencedPayload (s₁.withDb db).chain.params
    (deltaOf growShip (s₁.withDb db).world oneLog.header r bytes post))
    [35, 192, 195, 40, 237, 251, 62, 125, 52, 48, 67, 100, 142, 234, 80, 110, 35, 127, 212, 104, 124, 134, 235, 150,
      25, 184, 197, 242, 97, 13, 241, 51]
  have hanew : ShipStep growShip cr Calm (ChainsToBase growShip) (fencedStart growShip) s₁ :=
    hs₁ ▸ .anew 5 _ rfl (by decide)
  have hempty : ∀ k, s₁.world.bucket.get k = none := fun _ => by rw [hs₁]; rfl
  have hships := (hrun cr (ChainsToBase growShip)).tail (hready.ships hencode (hempty _))
  obtain ⟨sum, hfollow⟩ := reanchored_followable _ _ hcr "" "app" opened_fencedStart
    ((ReflTransGen.single hanew).trans hships) (free_beyond fun _ _ => hempty _)
  refine ⟨_, _, _, s₁, _, sum, hcr, opened_fencedStart, rfl, by rw [hs₁]; rfl, .single hanew, hships, himage,
    hfollow.trans ?_⟩
  rw [hs₁]
  rfl

/-- A third commit, and the batch a cursor behind the first two finds in it. -/
theorem ready_grown {cfg : Config} {s : Shipping 512} (hwal : s.world.db.wal = some oneLog)
    (hrestart : s.world.db.restart = false) (himage : s.world.db.image.length = 1024)
    (hsalt : s.world.st.walSalt = some (1, 2)) (hoffset : s.world.st.walOffset = 1104)
    (hchain : s.world.st.walChecksumChain = some oneChain) :
    ∃ (db : Db 512) (r : PageMapRead) (bytes : Bytes) (post : UInt64),
      s.world.db.act (.commit (writeTwo 8)) = some db ∧
      Ready cfg calmCall { s.world with db := db }
        twoLog.header r bytes post ∧
      PendingRead twoLog [(writeTwo 8).txn] r := by
  obtain ⟨db, hdb, hwal', -, -⟩ := act_writeTwo hwal hrestart (by omega) 8
  have hcursor : twoLog.Cursor
      [(touchOne (1, 2)).txn, (writeTwo 7).txn] (startPos s.world.st.walOffset) (chainSeed s.world.st) := by
    rw [hoffset, chainSeed, hoffset, if_neg (by decide), hchain]
    exact ⟨rfl, fun _ => rfl⟩
  obtain ⟨r, bytes, post, hready, hp⟩ := ready_of_cursor cfg calmCall
    (w := { s.world with db := db }) validate512 hwal' rfl rfl (seed_pinnedLog _) hsalt hcursor
    (cons_ne_nil _ _) (by simp [writeTwo, Txn.patch, finalSize])
    (by simp [writeTwo, Txn.patch, finalSize])
  exact ⟨db, r, bytes, post, hdb, hready, hp⟩

/-- The checksum of a delta is not the checksum of the file of two pages: it hashes 520 bytes a page, and 16. -/
theorem delta_checksum_ne {now : Int64} {pages : PageMap} {seq prev : UInt64} {n : Nat} {bytes : Bytes}
    (h : encodeWalChangesWithEndPageCount growShip.ph now pages 512 seq prev n =
      .ok (bytes, post)) : post ≠ 3665759466527788975 := by
  obtain ⟨hi, -, rfl⟩ := encodeWalChanges_ok h
  have hlength := @length_pagesBytes_delta growShip.ph now seq prev 512 pages n 512 fun q hq => (hi.page q hq).2.2
  show shipSha64 13208909912000341543 (Bytes.beBytes 8 prev.toNat ++
    pagesBytes (deltaChangeset growShip.ph now pages 512 seq prev n).pages) ≠ _
  rw [shipSha64, length_append, Bytes.length_beBytes]
  split
  · decide
  split
  · omega
  split <;> decide

/-- The growing database, anchored anew behind its first delta. -/
def anewGrown (db : Db 512) (r : PageMapRead) (post : UInt64) (p : DeltaPayloadV1) : Shipping 512 :=
  (((fencedStart growShip).withDb db).ship (pinnedLog [(writeTwo 7).txn]).header r post
    (deltaMagic ++ Bytes.beBytes 2 deltaVersionV1 ++ smallBody p) []).anew 2 (replicate 32 1)

theorem anew_growing : ∃ (db : Db 512) (r : PageMapRead) (post : UInt64) (p : DeltaPayloadV1), (∀ cr : EnvelopeCrates,
      cr.codec.encode p = .ok (deltaMagic ++ Bytes.beBytes 2 deltaVersionV1 ++ smallBody p) →
      Ships growShip cr Calm (fun _ => True) (fencedStart growShip) (anewGrown db r post p)) ∧
    p.seq = 2 ∧ db.image.length = 1024 ∧ post ≠ 3665759466527788975 ∧
    db.wal = some oneLog ∧ db.restart = false ∧
    (anewGrown db r post p).world.st.walSalt = some (1, 2) ∧ r.newOffset = 1104 ∧
    (anewGrown db r post p).world.st.walChecksumChain = some oneChain := by
  obtain ⟨db, r, bytes, post, hrun, hwal, hrestart, himage, hready, hp⟩ := ready_growing growShip
    (s := fencedStart growShip) rfl rfl rfl
  have hread : readState ((fencedStart growShip).withDb db).world oneLog.header r =
      { ((fencedStart growShip).withDb db).world.st with walSalt := some (1, 2), walChecksumChain := r.chain } := by
    rw [readState_stay hready.stay, hp.chain]
    rfl
  refine ⟨db, r, post, fencedPayload ((fencedStart growShip).withDb db).chain.params (deltaOf growShip
    ((fencedStart growShip).withDb db).world oneLog.header r bytes post), fun cr hencode => ?_,
    rfl, himage, delta_checksum_ne hready.encodes, hwal, hrestart, ?_, hp.offset, ?_⟩
  · exact ((hrun cr _).tail (hready.ships hencode rfl)).tail (ShipStep.anew 2 (replicate 32 1) trivial le_rfl)
  · simp only [anewGrown, Shipping.ship, Shipping.anew, publishedState, hread]
  · simp only [anewGrown, Shipping.ship, publishedState, hread]
    exact hp.chain

/-- Anchored anew behind its first delta, the growing database ships a second one that no follower of the new base
    accepts: it chains to the first delta, and the follower starts from the checksum of the base file. -/
theorem reanchored_behind_a_delta : ∃ (cfg : Config) (cr : EnvelopeCrates) (s₀ s₁ s : Shipping 512) (e : FollowError),
    cr.RoundTrips ∧ Opened cfg s₀ ∧ Ships cfg cr Calm (fun _ => True) s₀ s₁ ∧
      s₁.base = s₁.shipped ∧ s₁.shipped = s₁.world.db.image ∧ s₁.anchor.baseSeq = 2 ∧
      Ships cfg cr Calm (fun _ => False) s₁ s ∧ s.world.st.currentSeq = 3 ∧
      (∀ m, 3 < m → s.world.bucket.get (.envelope m) = none) ∧
      reconstructFencedFollower cr cfg.ph "" "app" s.world.bucket s.anchor s.base = .error e := by
  obtain ⟨db₁, r₁, post₁, p, hrun, hpseq, himage, hne, hwal, hrestart, hsalt, hoffset, hchain⟩ := anew_growing
  obtain ⟨db, r, bytes, post, hact, hready, hp⟩ := ready_grown hwal hrestart himage hsalt hoffset hchain
  obtain ⟨s₂, hs₂⟩ : ∃ s₂ : Shipping 512, s₂ = (anewGrown db₁ r₁ post₁ p).withDb db := ⟨_, rfl⟩
  have hready₂ : Ready growShip calmCall s₂.world
      twoLog.header r bytes post := by
    rw [hs₂]
    exact hready
  have hseq₂ : s₂.world.st.currentSeq = 2 := by rw [hs₂]; rfl
  obtain ⟨q, hq⟩ : ∃ q, q = fencedPayload s₂.chain.params (deltaOf growShip s₂.world
    twoLog.header r bytes post) := ⟨_, rfl⟩
  -- the crates on the two payloads
  obtain ⟨cr, second, hcr, hencode₁, hencode₂⟩ : ∃ (cr : EnvelopeCrates) (second : Bytes), cr.RoundTrips ∧
      cr.codec.encode p = .ok (deltaMagic ++ Bytes.beBytes 2 deltaVersionV1 ++ smallBody p) ∧
      cr.codec.encode q = .ok second := by
    refine ⟨knownCrates p q
      [77, 71, 109, 72, 158, 207, 168, 252, 65, 66, 176, 241, 255, 205, 95, 218, 159, 231, 43, 207, 104, 72, 23, 83,
        172, 107, 205, 53, 185, 96, 163, 183]
      [131, 255, 93, 147, 125, 19, 212, 181, 177, 176, 47, 61, 5, 2, 120, 237, 219, 172, 110, 66, 186, 7, 195, 153,
        58, 135, 248, 73, 229, 22, 161, 137], _, roundTrips_knownCrates_two _ _ ?_, encode_knownCrates _ _ (.inl rfl),
      encode_knownCrates _ _ (.inr rfl)⟩
    have hqseq : q.seq = 3 := by
      rw [hq]
      exact congrArg Nat.succ hseq₂
    rw [hpseq, hqseq]
    decide
  have henv : ShipStep growShip cr Calm (fun _ => False) (anewGrown db₁ r₁ post₁ p) s₂ := by
    rw [hs₂]
    exact .env _ (foreign_commit rfl) calm_commit hact
  have hempty : ∀ m, 2 < m → s₂.world.bucket.get (.envelope m) = none := by
    rw [hs₂]
    exact free_beyond fun _ _ => rfl
  have hships := (ReflTransGen.single henv).tail (hready₂.ships (hq ▸ hencode₂) (hempty _ (by omega)))
  -- the delta chains to the first one
  have hpre : preOf growShip s₂.world = post₁ := by
    rw [hs₂]
    rfl
  have hfile : computeChecksumFromFile growShip.ph s₂.base = 3665759466527788975 := by
    show shipSha64 _ s₂.base = _
    rw [hs₂, shipSha64, show ((anewGrown db₁ r₁ post₁ p).withDb db).base.length = 1024 from himage]
    decide
  have hanchor₂ : s₂.anchor.baseSeq = 2 := by rw [hs₂]; rfl
  have hstored : (s₂.world.bucket.put (.envelope (s₂.world.st.currentSeq + 1)) second).get
      (.envelope (s₂.anchor.baseSeq + 1)) = some second := by
    rw [hanchor₂, hseq₂]
    exact Store.get_put_self _ _ _
  obtain ⟨e, he⟩ := reconstruct_refused "" "app" hstored
    (decodeEnvelope_encode hcr (EnvelopeCrates.codec_encode.mp hencode₂)) (by
      intro step happly
      rw [hq] at happly
      exact hne (hpre.symm.trans ((applyChangesetToDb_delta_prev hready₂.encodes hp.nodup happly).trans hfile)))
  refine ⟨_, cr, _, _, _, e, hcr, opened_fencedStart, hrun cr hencode₁, rfl, rfl, rfl, hships, congrArg Nat.succ hseq₂,
    fun m hm => free_beyond (fun n hn => hempty n (by omega)) m (by omega), he⟩

end Sync
end Walrust
