import Walrust.Restore.Stream
import Walrust.Sync.Spec

/-!
# `Walrust.Sync.Fidelity` — a restore gives back what was committed

Runs of one walrust-owned writer over a database `Db`: transactions commit, other connections reset or
backfill the WAL, and the writer calls `syncWal` and `takeSnapshot`, all of which succeed. A run carries the
`Log` of what it published: for each seq the committed image that its object consumed.

The invariant has two halves:

* `History` — the bucket: seqs are consecutive, nothing lies above the cursor, and from the first snapshot on
  the objects form a `Stream` of the logged images;
* `Tracks` — the cursor: it stands at the end of the stream, and as long as the WAL has the recorded salt,
  what lies behind it leads from the stream's image to the committed one (`Db.Behind`).

`restore_published` is the result: a restore to a logged seq returns the logged image.
-/

namespace Walrust
namespace Sync

open Wal Ltx Sqlite Hadbp Restore Lib List Relation
open SqliteEnv (wal main)
open Oracle (quiet)
open Store (get_put_self get_put_of_ne)

variable {ps : UInt32}

variable {image bytes : Bytes} {view : Option (Bytes × UInt64)} {header : WalHeader} {n : Nat} {log : Log}

/-- The seqs a run published, each with the committed image its object consumed. -/
abbrev Log := List (Nat × Bytes)

/-- A call that moved the cursor to a new seq published the image of its start. -/
def record (w w' : World (Db ps)) (log : Log) : Log :=
  if w'.st.currentSeq = w.st.currentSeq then log else log ++ [(w'.st.currentSeq, w.db.image)]

/-- **One step of a run.** -/
inductive Step (cfg : Config) : World (Db ps) × Log → World (Db ps) × Log → Prop where
  /-- Another connection commits, resets the WAL or backfills from it. -/
  | env {w : World (Db ps)} {log : Log} {db : Db ps} (a : Action ps) (h : w.db.act a = some db) :
      Step cfg (w, log) ({ w with db := db }, log)
  | sync {w w' : World (Db ps)} {log : Log} {n : Nat} (c : Commit ps) (now : Int64)
      (h : syncWal cfg (quiet (.commit c) now) w = .ok n w') :
      Step cfg (w, log) (w', record w w' log)
  | snapshot {w w' : World (Db ps)} {log : Log} (c : Commit ps) (now : Int64)
      (h : takeSnapshot cfg (quiet (.commit c) now) w = .ok () w') :
      Step cfg (w, log) (w', record w w' log)

abbrev Steps (cfg : Config) : World (Db ps) × Log → World (Db ps) × Log → Prop :=
  ReflTransGen (Step cfg)

/-- A writer before its run: nothing is stored above its seq, no level exists, readers of `state.json` use
    its namespace, and the WAL's salt is one it has had. -/
structure Started (w : World (Db ps)) : Prop where
  pageSize : 0 < ps.toNat
  above : ∀ g n, w.st.currentSeq < n → w.bucket.get (.changeset w.st.lineageId g n) = none
  unleveled : Unleveled w.bucket
  active : activeLineageId w.stateJson = w.st.lineageId
  salts : w.db.SaltKnown

/-! ## The bucket -/

section History

variable {ph : Physical} {b : Bucket} {lineage : Option String} {start cur : Nat} {g : StreamGeneration}

/-- What the bucket holds of a run that began at seq `start` and stands at seq `cur`. `view` is the image
    and chain value at `cur` once a snapshot exists. -/
structure History (ph : Physical) (b : Bucket) (lineage : Option String) (start cur : Nat) (log : Log)
    (view : Option (Bytes × UInt64)) : Prop where
  le : start ≤ cur
  above : ∀ g n, cur < n → b.get (.changeset lineage g n) = none
  unleveled : Unleveled b
  logged : log.map Prod.fst = range' (start + 1) (cur - start)
  objects : match view with
    | none => ∀ n, start < n → b.get (.changeset lineage .snapshot n) = none
    | some v => ∃ first img sum, Stream ph b lineage first cur img sum ∧ start < first ∧
        (∀ n, start < n → n < first → b.get (.changeset lineage .snapshot n) = none) ∧
        (∀ s, first ≤ s → s ≤ cur → (s, img s) ∈ log) ∧ (img cur, sum cur) = v

theorem logged_snoc (hle : start ≤ cur) (h : log.map Prod.fst = range' (start + 1) (cur - start)) :
    (log ++ [(cur + 1, image)]).map Prod.fst = range' (start + 1) (cur + 1 - start) := by
  rw [map_append, Nat.sub_add_comm hle, List.range'_concat]
  simp only [map_cons]
  congr 2
  omega

theorem unleveled_put (h : Unleveled b) : Unleveled (b.put (.changeset lineage g n) bytes) := by
  intro level min max
  rw [get_put_of_ne _ _ (by simp)]
  exact h level min max

theorem above_put (h : ∀ g n, cur < n → b.get (.changeset lineage g n) = none) :
    ∀ g' n, cur + 1 < n → (b.put (.changeset lineage g (cur + 1)) bytes).get (.changeset lineage g' n) = none := by
  intro g' n hn
  have hne : Key.changeset lineage g' n ≠ .changeset lineage g (cur + 1) := by
    intro heq
    injection heq with _ _ hseq
    omega
  rw [get_put_of_ne _ _ hne]
  exact h g' n (by omega)

theorem get_put_next {g' : StreamGeneration} (hn : n ≤ cur) :
    (b.put (.changeset lineage g (cur + 1)) bytes).get (.changeset lineage g' n) =
      b.get (.changeset lineage g' n) := by
  apply get_put_of_ne
  intro heq
  injection heq with _ _ hseq
  omega

theorem History.extend {v : Bytes × UInt64} (h : History ph b lineage start cur log (some v)) {c : UInt64}
    (hat : SnapshotAt ph (b.put (.changeset lineage g (cur + 1)) bytes) lineage (cur + 1) image c ∨
      DeltaAt ph (b.put (.changeset lineage g (cur + 1)) bytes) lineage (cur + 1) v.1 v.2 image c) :
    History ph (b.put (.changeset lineage g (cur + 1)) bytes) lineage start (cur + 1)
      (log ++ [(cur + 1, image)]) (some (image, c)) := by
  obtain ⟨first, img, sum, hstream, hfirst, hbefore, hlog, rfl⟩ := h.objects
  refine ⟨Nat.le_succ_of_le h.le, above_put h.above, unleveled_put h.unleveled, logged_snoc h.le h.logged,
    first, _, _, (hstream.frame fun g n _ hn => get_put_next hn).snoc hat, hfirst, ?_, ?_, ?_⟩
  · intro n hn hlt
    have := hstream.le
    rw [get_put_next (by omega)]
    exact hbefore n hn hlt
  · intro s h₁ h₂
    rw [mem_append]
    rcases lt_or_eq_of_le h₂ with hs | rfl
    · left
      rw [Function.update_of_ne (by omega)]
      exact hlog s h₁ (by omega)
    · right
      simp
  · rw [Function.update_self, Function.update_self]

/-- A stored snapshot, and the stream at it. -/
theorem History.snapshot {view : Option (Bytes × UInt64)} (h : History ph b lineage start cur log view)
    {bytes image : Bytes} {c : UInt64}
    (hdec : image.length ≤ maxDecodedDbBytes → ∃ hdr, decodeToDb ph bytes = .ok ⟨hdr, c, image⟩) :
    History ph (b.put (.changeset lineage .snapshot (cur + 1)) bytes) lineage start (cur + 1)
      (log ++ [(cur + 1, image)]) (some (image, c)) := by
  have hat : SnapshotAt ph (b.put (.changeset lineage .snapshot (cur + 1)) bytes) lineage (cur + 1)
      image c := by
    refine ⟨?_, bytes, get_put_self _ _ _, hdec⟩
    rw [get_put_of_ne _ _ (by simp)]
    exact h.above .live (cur + 1) (lt_add_one cur)
  cases view with
  | some v => exact h.extend (.inl hat)
  | none =>
    -- the stream begins here
    have hle := h.le
    refine ⟨Nat.le_succ_of_le hle, above_put h.above, unleveled_put h.unleveled, logged_snoc hle h.logged,
      cur + 1, _, _, Stream.start (Nat.succ_pos cur) hat, by omega, ?_, ?_, rfl⟩
    · intro n hn hlt
      rw [get_put_next (by omega)]
      exact h.objects n hn
    · intro s h₁ h₂
      obtain rfl : s = cur + 1 := by omega
      simp

/-- A stored incremental: it extends the stream, if there is one. -/
theorem History.live (h : History ph b lineage start cur log view) {c : UInt64}
    (happly : ∀ v, view = some v → ∃ hdr, applyChangesetToDb ph bytes v.1 v.2 = .ok ⟨hdr, c, image⟩) :
    History ph (b.put (.changeset lineage .live (cur + 1)) bytes) lineage start (cur + 1)
      (log ++ [(cur + 1, image)]) (view.map fun _ => (image, c)) := by
  have hsnap : ∀ n, (b.put (.changeset lineage .live (cur + 1)) bytes).get
      (.changeset lineage .snapshot n) = b.get (.changeset lineage .snapshot n) := by
    intro n
    exact get_put_of_ne _ _ (by simp)
  cases view with
  | none =>
    refine ⟨Nat.le_succ_of_le h.le, above_put h.above, unleveled_put h.unleveled, logged_snoc h.le h.logged, ?_⟩
    intro n hn
    rw [hsnap]
    exact h.objects n hn
  | some v =>
    obtain ⟨hdr, happly⟩ := happly v rfl
    refine h.extend (.inr ⟨?_, bytes, get_put_self _ _ _, hdr, happly⟩)
    rw [hsnap]
    exact h.above .snapshot (cur + 1) (lt_add_one cur)

theorem History.unique (h : History ph b lineage start cur log view) {s : Nat} {i j : Bytes} (hi : (s, i) ∈ log)
    (hj : (s, j) ∈ log) : i = j := by
  have hnodup : (log.map Prod.fst).Nodup := by
    rw [h.logged]
    exact nodup_range'
  have := inj_on_of_nodup_map hnodup hi hj rfl
  injection this

end History

/-! ## The cursor -/

/-- The cursor stands at the end of the stream, where the image is `image` and the chain value `sum`, and has
    lost nothing since. -/
def Tracks (w : World (Db ps)) (image : Bytes) (sum : UInt64) : Prop :=
  w.st.dbChecksum = some sum ∧
    ∃ salt, w.st.walSalt = some salt ∧ w.db.Behind salt w.st.walOffset (chainSeed w.st) image

/-- **The invariant of a run** that began in `w₀`. -/
structure Inv (cfg : Config) (w₀ w : World (Db ps)) (log : Log) : Prop where
  lineage : w.st.lineageId = w₀.st.lineageId
  active : activeLineageId w.stateJson = w₀.st.lineageId
  salts : w.db.SaltKnown
  history : ∃ view, History cfg.ph w.bucket w.st.lineageId w₀.st.currentSeq w.st.currentSeq log view ∧
    ∀ v, view = some v → Tracks w v.1 v.2

/-- A WAL whose header can be read is a generation, and the header is its own. -/
theorem readHeader_walFile {db : Db ps} (h : readHeader (wal db) = .ok (some header)) :
    ∃ g, db.wal = some g ∧ wal db = g.bytes ∧ header = g.header := by
  have hfile : wal db = db.walFile := rfl
  cases hwal : db.wal with
  | none =>
    rw [hfile, Db.walFile, hwal] at h
    simp [readHeader, walHeaderSize] at h
  | some g =>
    have hbytes : wal db = g.bytes := by rw [hfile, Db.walFile, hwal]
    rw [hbytes, g.readHeader_bytes] at h
    injection h with h
    injection h with h
    exact ⟨g, rfl, hbytes, h.symm⟩

/-- Without a rollover the recorded salt is the WAL's, and detection changes nothing. -/
theorem noted_of_stay {w : World (Db ps)} {salt : Salt} (hsalt : w.st.walSalt = some salt)
    (hstay : rolloverDetected w.st (wal w.db).length header.salt = false) :
    salt = header.salt ∧ noted w header = w.st := by
  have heq : salt = header.salt := by
    simp only [rolloverDetected, hsalt, Option.any_some, Bool.or_eq_false_iff, decide_eq_false_iff_not, not_not] at hstay
    exact hstay.2
  refine ⟨heq, ?_⟩
  rw [noted, hstay, noteGeneration, if_neg Bool.false_ne_true, ← heq, ← hsalt]

/-- **A sync with pending transactions has something to publish**, if it stands right in the WAL and no
    pending page lies beyond the size they leave. -/
theorem ready_of_cursor (cfg : Config) (o : Oracle (Action ps)) {w : World (Db ps)} {g : Generation ps}
    {done pending : List (Txn ps)} (hps : ValidSize ps)
    (hwal : w.db.wal = some g) (htx : g.txns = done ++ pending) (hstale : g.stale = [])
    (hseed : g.seed ≠ (0, 0)) (hsalt : w.st.walSalt = some g.salt)
    (hcursor : g.Cursor done (startPos w.st.walOffset) (chainSeed w.st)) (hne : pending ≠ [])
    (hpage : ∀ t ∈ pending, ∀ p ∈ t.pages, p.1.toNat ≤ Pages.finalSize 0 (pending.map Txn.patch))
    (hsmall : Pages.finalSize 0 (pending.map Txn.patch) < 2 ^ 32 - 1) :
    ∃ r bytes post, Ready cfg o w g.header r bytes post ∧ PendingRead g pending r := by
  obtain ⟨r, hread, hp⟩ := Generation.read_pending htx (Generation.staleForeign_of_nil hstale) hcursor hseed hne
  have hfile : wal w.db = g.bytes := walFile_of_some _ hwal
  have hstay : rolloverDetected w.st (wal w.db).length g.header.salt = false := by
    rw [rolloverDetected, hsalt, hfile, Bool.or_eq_false_iff]
    exact ⟨decide_eq_false (not_lt.mpr (hcursor.offset_le htx)), by simp; rfl⟩
  have hinput : DeltaInput r.pageMap ps r.finalDbSize.toNat := by
    rw [hp.size 0]
    refine ⟨hps, ?_, hsmall, ?_⟩
    · obtain ⟨f, -, hpos, hsize⟩ := framesOf_getLast? hne 0
      rw [← hsize]
      exact fun h => hpos (UInt32.toNat_inj.mp h)
    · intro e he
      obtain ⟨t, ht, hmem⟩ := hp.mem e he
      exact ⟨t.pageNum e hmem, hpage t ht e hmem, t.dataLen e hmem⟩
  refine ⟨r, _, _, ⟨?_, hstay, ?_, hp.nonempty, hinput.encode⟩, hp⟩
  · rw [hfile, Generation.readHeader_bytes]
  · have hnoted := (noted_of_stay hsalt hstay).2
    rw [nextRead, hnoted, hfile]
    exact hread

/-- Advancing the chain to the chain the read was seeded with changes no later seed. -/
theorem chainSeed_advanceChain (s : SyncState) :
    chainSeed (advanceChain (chainSeed s) s) = chainSeed s := by
  unfold chainSeed
  split
  · rename_i h
    simp [advanceChain, h]
  · rename_i h
    cases hc : s.walChecksumChain with
    | none => simp [advanceChain, hc]
    | some c => simp [advanceChain, h]

/-! ## Steps -/

section Steps

variable {cfg : Config} {w₀ w w' : World (Db ps)}

variable {now : Int64} {c : Commit ps}

theorem inv_init (h : Started w₀) : Inv cfg w₀ w₀ [] := by
  refine ⟨rfl, h.active, h.salts, none, ⟨le_refl _, h.above, h.unleveled, ?_, ?_⟩, ?_⟩
  · simp
  · exact fun n hn => h.above .snapshot n hn
  · intro v hv
    cases hv

theorem inv_env (hps : 0 < ps.toNat) (h : Inv cfg w₀ w log) {a : Action ps} {db : Db ps}
    (ha : w.db.act a = some db) : Inv cfg w₀ { w with db := db } log := by
  obtain ⟨view, hhist, htrack⟩ := h.history
  refine ⟨h.lineage, h.active, (h.salts.act ha).1, view, hhist, ?_⟩
  intro v hv
  obtain ⟨hsum, salt, hsalt, hbehind⟩ := htrack v hv
  exact ⟨hsum, salt, hsalt, hbehind.act hps ha⟩

/-- **A snapshot** stores the committed image at the next seq and leaves the cursor at the start of a fresh
    WAL. It needs nothing of the cursor before. -/
theorem snapshot_step {start : Nat} (hsnap : takeSnapshot cfg (quiet (.commit c) now) w = .ok () w')
    (hhist : History cfg.ph w.bucket w.st.lineageId start w.st.currentSeq log view) (hsalts : w.db.SaltKnown) :
    w'.st.lineageId = w.st.lineageId ∧ w'.st.currentSeq = w.st.currentSeq + 1 ∧
      w'.stateJson = w.stateJson ∧ w'.db.SaltKnown ∧
      ∃ sum, History cfg.ph w'.bucket w.st.lineageId start (w.st.currentSeq + 1)
          (log ++ [(w.st.currentSeq + 1, w.db.image)]) (some (w.db.image, sum)) ∧
        Tracks w' w.db.image sum := by
  obtain ⟨db, pageSize, snap, txid, hact, henc, hput, hdb, hjson, -, hst⟩ :=
    takeSnapshot_quiet_ok cfg _ now w hsnap
  have hcommit : w.db.truncate.commit c = some db := hact
  obtain ⟨hmain, g, hwal, hsalt, hbehind⟩ := Db.behind_truncate hcommit
  have hknown : w'.db.SaltKnown := by
    rw [hdb]
    have htrunc : w.db.act (.reset true) = some w.db.truncate := rfl
    exact ((hsalts.act htrunc).1.act (a := .commit c) hcommit).1
  have hfree := hhist.above .snapshot (w.st.currentSeq + 1) (lt_add_one _)
  have hbucket : w'.bucket =
      w.bucket.put (.changeset w.st.lineageId .snapshot (w.st.currentSeq + 1)) snap.bytes := by
    rcases hput with ⟨-, hb⟩ | ⟨hsame, -⟩
    · exact hb
    · exact absurd (hfree.symm.trans hsame) (by simp)
  have hrecorded : saltOf (wal db) = some c.salt := by
    have hfile : wal db = g.bytes := by
      show db.walFile = g.bytes
      rw [Db.walFile, hwal]
    rw [saltOf, hfile, g.readHeader_bytes, ← hsalt]
    rfl
  have himage : main db = w.db.image := hmain
  rw [himage] at henc
  refine ⟨by rw [hst]; rfl, by rw [hst]; rfl, hjson, hknown, snap.checksum, ?_, ?_⟩
  · rw [hbucket]
    exact hhist.snapshot fun hcap => ⟨_, decodeToDb_snapshot henc hcap⟩
  · refine ⟨by rw [hst]; rfl, c.salt, by rw [hst]; exact hrecorded, ?_⟩
    rw [hdb, hst, ← hmain]
    exact hbehind _

theorem inv_snapshot (h : Inv cfg w₀ w log) (hsnap : takeSnapshot cfg (quiet (.commit c) now) w = .ok () w') :
    Inv cfg w₀ w' (record w w' log) := by
  obtain ⟨view, hhist, -⟩ := h.history
  obtain ⟨hlin, hseq, hjson, hsalts, sum, hhist', htrack⟩ := snapshot_step hsnap hhist h.salts
  rw [record, if_neg (by omega)]
  refine ⟨hlin.trans h.lineage, hjson ▸ h.active, hsalts, some (w.db.image, sum), ?_, ?_⟩
  · rw [hlin, hseq]
    exact hhist'
  · rintro v ⟨⟩
    exact htrack

section Stay

variable {r : PageMapRead} {sum : UInt64} (hps : 0 < ps.toNat)
  (hread : w.Opens header)
  (hstay : w.rolled header = false) (hnext : nextRead w header = .ok r)
include hps hread hstay hnext

theorem tracks_idle (hnil : r.pageMap = []) (h : Tracks w image sum) :
    Tracks { w with st := readState w header r } image sum := by
  obtain ⟨hsum, salt, hsalt, hbehind⟩ := h
  obtain ⟨g, hwal, hfile, rfl⟩ := readHeader_walFile hread
  obtain ⟨rfl, hnoted⟩ := noted_of_stay hsalt hstay
  rw [nextRead, hnoted, hfile] at hnext
  have hchain : r.chain = chainSeed w.st := by
    rcases hbehind.read hps hwal hnext with ⟨-, hc⟩ | ⟨hne, -⟩
    · exact hc
    · exact absurd hnil hne
  have hst : readState w g.header r = advanceChain (chainSeed w.st) w.st := by
    rw [readState, hnoted, hchain]
  have hoffset : (advanceChain (chainSeed w.st) w.st).walOffset = w.st.walOffset := by
    cases chainSeed w.st <;> rfl
  have hkeep : (advanceChain (chainSeed w.st) w.st).walSalt = w.st.walSalt := by
    cases chainSeed w.st <;> rfl
  refine ⟨?_, g.header.salt, ?_, ?_⟩
  · rw [readState_checksum]
    exact hsum
  · rw [hst, hkeep]
    exact hsalt
  · rw [hst, chainSeed_advanceChain, hoffset]
    exact hbehind

/-- **A published batch** leads from the stream's image to the committed one, and the cursor behind it has
    again lost nothing. -/
theorem tracks_published {post : UInt64} (hne : r.pageMap ≠ []) (henc : EncodesTo cfg now w header r bytes post)
    (h : Tracks w image sum) :
    (∃ hdr, applyChangesetToDb cfg.ph bytes image sum = .ok ⟨hdr, post, w.db.image⟩) ∧
      ∀ (txid : Nat) (w' : World (Db ps)), w'.db = w.db → w'.st = publishedState w header r txid post →
        Tracks w' w.db.image post := by
  obtain ⟨hsum, salt, hsalt, hbehind⟩ := h
  obtain ⟨g, hwal, hfile, rfl⟩ := readHeader_walFile hread
  obtain ⟨rfl, hnoted⟩ := noted_of_stay hsalt hstay
  rw [nextRead, hnoted, hfile] at hnext
  obtain ⟨hnil, -⟩ | ⟨-, hnodup, hoffset, himage, hsome, hbehind'⟩ := hbehind.read hps hwal hnext
  · exact absurd hnil hne
  constructor
  · have hpre : preOf cfg w = sum := by rw [preOf, hsum, Option.getD_some]
    rw [EncodesTo, hpre] at henc
    have happly := applyChangesetToDb_delta henc hnodup image
    rw [show g.header.pageSize = ps from rfl, ← himage] at happly
    exact ⟨_, happly⟩
  · intro txid w' hdb hst
    obtain ⟨c, hc⟩ := Option.isSome_iff_exists.mp hsome
    have hread : readState w g.header r = { w.st with walChecksumChain := some c } := by
      rw [readState, hnoted, hc]
      rfl
    refine ⟨by rw [hst]; rfl, g.header.salt, ?_, ?_⟩
    · rw [hst, publishedState, hread]
      exact hsalt
    · have hseed : chainSeed (publishedState w g.header r txid post) = r.chain := by
        rw [publishedState, hread, chainSeed, if_neg, hc]
        show ¬ (r.newOffset = 0 ∨ r.newOffset = walHeaderSize)
        omega
      rw [hdb, hst, hseed]
      exact hbehind'

end Stay

theorem inv_sync (hps : 0 < ps.toNat) (h : Inv cfg w₀ w log)
    (hsync : syncWal cfg (quiet (.commit c) now) w = .ok n w') : Inv cfg w₀ w' (record w w' log) := by
  obtain ⟨view, hhist, htrack⟩ := h.history
  have hfree := hhist.above .live (w.st.currentSeq + 1) (lt_add_one _)
  cases syncWal_quiet_ok cfg _ now w hsync with
  | noWal hread =>
    rw [record, if_pos rfl]
    exact h
  | idle header r hread hstay hnext hnil =>
    rw [record, if_pos (readState_seq w header r)]
    refine ⟨(readState_lineage w header r).trans h.lineage, h.active, h.salts, view, ?_, ?_⟩
    · rw [readState_lineage, readState_seq]
      exact hhist
    · intro v hv
      exact tracks_idle hps hread hstay hnext hnil (htrack v hv)
  | reanchored header r w₁ hread hroll hnext hsnap =>
    have hhist' : History cfg.ph w.bucket (readState w header r).lineageId w₀.st.currentSeq
        (readState w header r).currentSeq log view := by
      rw [readState_lineage, readState_seq]
      exact hhist
    obtain ⟨hlin, hseq, -, hsalts, sum, hhist'', htrack'⟩ := snapshot_step hsnap hhist' h.salts
    simp only [readState_lineage] at hlin hseq hhist''
    rw [record, if_neg (by simp [hseq])]
    refine ⟨hlin.trans h.lineage, hlin.trans h.lineage, hsalts, some (w.db.image, sum), ?_, ?_⟩
    · rw [hlin, hseq]
      exact hhist''
    · rintro v ⟨⟩
      exact htrack'
  | published header r bytes post txid intent bucket hread hstay hnext hne henc hput =>
    have hbucket : bucket =
        w.bucket.put (.changeset w.st.lineageId .live (w.st.currentSeq + 1)) bytes := by
      rcases hput with ⟨-, hb⟩ | ⟨hsame, -⟩
      · exact hb
      · exact absurd (hfree.symm.trans hsame) (by simp)
    have hlin : (publishedState w header r txid post).lineageId = w.st.lineageId :=
      readState_lineage w header r
    rw [record, if_neg (by simp [publishedState])]
    refine ⟨hlin.trans h.lineage, hlin.trans h.lineage, h.salts, view.map fun _ => (w.db.image, post),
      ?_, ?_⟩
    · rw [hlin, hbucket]
      refine hhist.live ?_
      intro v hv
      exact (tracks_published hps hread hstay hnext hne henc (htrack v hv)).1
    · intro v hv
      obtain ⟨v', hv', rfl⟩ := Option.map_eq_some_iff.mp hv
      exact (tracks_published hps hread hstay hnext hne henc (htrack v' hv')).2 txid _ rfl rfl
  | adopted _ _ _ _ hconflict => exact absurd hfree hconflict

/-- **The invariant holds along every run.** -/
theorem inv_steps (h₀ : Started w₀) (hrun : Steps cfg (w₀, []) (w, log)) : Inv cfg w₀ w log := by
  -- induction on the run, one lemma per kind of step
  suffices ∀ s, Steps cfg (w₀, []) s → Inv cfg w₀ s.1 s.2 from this (w, log) hrun
  intro s hs
  induction hs with
  | refl => exact inv_init h₀
  | tail _ hstep ih =>
    cases hstep with
    | env a ha => exact inv_env h₀.pageSize ih ha
    | sync c now hcall => exact inv_sync h₀.pageSize ih hcall
    | snapshot c now hcall => exact inv_snapshot ih hcall

end Steps

/-! ## Restoring -/

/-- **A restore gives back what was committed.** In every run of a writer, a restore to a published seq `s`
    at or above a snapshot `p` of the run returns exactly the image that the object of `s` consumed, provided
    the snapshot it starts from is within the decoder's cap. -/
theorem restore_published (cfg : Config) {w₀ w : World (Db ps)} {log : Log} (h₀ : Started w₀)
    (hrun : Steps cfg (w₀, []) (w, log)) {s p : Nat} {image : Bytes} (hs : (s, image) ∈ log)
    (hp : w₀.st.currentSeq < p) (hps : p ≤ s)
    (hsnap : (w.bucket.get (.changeset w.st.lineageId .snapshot p)).isSome)
    (hcap : ∀ q base, baseSnapshot w.bucket (activeLineageId w.stateJson) (some s) = some q →
      (q, base) ∈ log → base.length ≤ maxDecodedDbBytes) :
    ∃ sum, restoreStaged cfg.ph w.bucket (activeLineageId w.stateJson) (some s) =
      .ok ⟨s, sum, image, activeLineageId w.stateJson, false⟩ := by
  have hinv := inv_steps h₀ hrun
  obtain ⟨view, hhist, -⟩ := hinv.history
  have hactive : activeLineageId w.stateJson = w.st.lineageId := hinv.active.trans hinv.lineage.symm
  rw [hactive] at hcap ⊢
  match view, hhist.objects with
  | none, hnone =>
    rw [hnone p hp] at hsnap
    cases hsnap
  | some v, ⟨first, img, sum, hstream, hfirst, hbefore, hlog, _⟩ =>
    have hfp : first ≤ p := by
      by_contra hlt
      rw [hbefore p hp (not_le.mp hlt)] at hsnap
      cases hsnap
    have hcur : s ≤ w.st.currentSeq := by
      have hmem : s ∈ log.map Prod.fst := mem_map.mpr ⟨_, hs, rfl⟩
      rw [hhist.logged, mem_range'_1] at hmem
      omega
    have himage : image = img s := hhist.unique hs (hlog s (hfp.trans hps) hcur)
    refine ⟨sum s, ?_⟩
    rw [himage]
    refine hstream.restore hhist.unleveled (hfp.trans hps) hcur ?_
    intro q hq
    -- the base lies in the stream, where the log has its image
    obtain ⟨q', h₁, h₂, hat, hdelta⟩ := hstream.exists_base (hfp.trans hps) hcur
    have hq' : baseSnapshot w.bucket w.st.lineageId (some s) = some q' := by
      obtain ⟨-, bytes, hget, -⟩ := hat
      exact discoverLatestSnapshotAtOrBefore_eq (lt_of_lt_of_le hstream.pos h₁) h₂ (by simp [hget])
        fun n hn hns => (hdelta n hn hns).1
    obtain rfl : q' = q := Option.some.inj (hq'.symm.trans hq)
    exact hcap q' _ hq (hlog q' h₁ (h₂.trans hcur))

/-! ### A database that grows -/

@[irreducible] def fillBytes (n : Nat) (b : UInt8) : Bytes := replicate n b

@[simp] theorem length_fillBytes {b : UInt8} : (fillBytes n b).length = n := by
  rw [fillBytes, length_replicate]

/-- `b"SQLite format 3\0"`. -/
def sqliteMagic : Bytes := [83, 81, 76, 105, 116, 101, 32, 102, 111, 114, 109, 97, 116, 32, 51, 0]

/-- The page size of a file is in the two bytes behind the magic. -/
theorem getPageSize_header {n : Nat} (hn : n < 65536) {rest : Bytes} (h : 82 ≤ rest.length) :
    getPageSize (sqliteMagic ++ (Bytes.beBytes 2 n ++ rest)) =
      .ok (if n = 1 then 65536 else UInt32.ofNat n) := by
  have hfield : Bytes.field (sqliteMagic ++ (Bytes.beBytes 2 n ++ rest)) 16 2 = n := by
    rw [Bytes.field_append (show sqliteMagic.length = 16 from rfl)]
    exact Nat.mod_eq_of_lt hn
  have hlen : ¬ (sqliteMagic ++ (Bytes.beBytes 2 n ++ rest)).length < 100 := by
    simp [sqliteMagic]
    omega
  rw [getPageSize, if_neg hlen, hfield]

/-- Page 1 of a database with 512-byte pages. -/
@[irreducible] def pageOne : Bytes := sqliteMagic ++ (Bytes.beBytes 2 512 ++ fillBytes 494 0)

@[simp] theorem length_pageOne : pageOne.length = 512 := by simp [pageOne, sqliteMagic]

theorem getPageSize_pageOne : getPageSize pageOne = .ok 512 := by
  have h := @getPageSize_header 512 (by decide) (fillBytes 494 0) (by simp)
  rw [pageOne, h]
  rfl

/-- SHA-256 (first eight bytes) of what the run below hashes: the file of its snapshot, the snapshot's
    changeset and the incremental's, told apart by length. -/
def growSha64 (bs : Bytes) : UInt64 :=
  if bs.length = 512 then 14339146280585533889
  else if bs.length = 528 then 14544300549464608105
  else 3963234172952512726

def growConfig : Config := ⟨Compaction.physicalOf growSha64, ""⟩

/-- A commit that rewrites page 1 of a one-page database. -/
def touchOne (salt : Salt) : Commit 512 where
  txn := { pages := [(1, pageOne)], dbSize := 1, nonempty := by simp, pageNum := by simp,
           dataLen := by simp, sizePos := by decide }
  salt := salt
  checkpointSeq := 0
  bigEndian := false
  stale := []

/-- A commit that writes page 2, as the last page. -/
def writeTwo (b : UInt8) : Commit 512 where
  txn := { pages := [(2, fillBytes 512 b)], dbSize := 2, nonempty := by simp, pageNum := by simp,
           dataLen := by simp, sizePos := by decide }
  salt := (3, 4)
  checkpointSeq := 0
  bigEndian := false
  stale := []

/-- The one-page database before its first snapshot. -/
def onePage : World (Db 512) where
  db := { image := pageOne, main := pageOne, wal := none, restart := false, salts := [], commits := 0,
          walStart := 0, inMain := 0 }
  bucket := Store.empty
  stateJson := none
  intent := none
  st := SyncState.new "app"

theorem started_onePage : Started onePage := by
  refine ⟨by decide, ?_, ?_, rfl, ?_⟩
  · intro g n _
    rfl
  · intro level min max
    rfl
  · intro g hg
    cases hg

theorem validate512 : validateSqlitePageSize 512 = .ok 512 := by decide

/-- A one-page database whose WAL was emptied and pinned by a commit under `salt`. -/
def pinned (db : Db 512) (salt : Salt) : Db 512 :=
  { db.truncate with
    image := (touchOne salt).txn.patch.apply 512 db.image
    wal := some ⟨salt, 0, false, [(touchOne salt).txn], []⟩
    salts := salt :: db.salts
    commits := db.commits + 1
    walStart := db.commits }

theorem act_touchOne {db : Db 512} (himage : db.image.length = 512) {salt : Salt} (hsalt : salt ∉ db.salts) :
    SqliteEnv.act (SqliteEnv.truncate db) (Action.commit (touchOne salt)) = some (pinned db salt) := by
  have hcov : (touchOne salt).txn.patch.Covers db.pages := by
    intro k hk hle
    have h1 : db.pages = 1 := by rw [Db.pages, himage]; rfl
    have h2 : (touchOne salt).txn.patch.size = 1 := rfl
    omega
  exact Db.truncate_commit hcov hsalt

theorem snapshotInput_onePage {file : Bytes} (h : file.length = 512) : SnapshotInput file 512 :=
  ⟨validate512, by rw [h]; rfl, by rw [h]; decide⟩

/-- The WAL under the first pin, with transactions behind it. -/
def pinnedLog (txns : List (Txn 512)) : Generation 512 := ⟨(1, 2), 0, false, (touchOne (1, 2)).txn :: txns, []⟩

/-- With page 2 written once, and twice. -/
abbrev oneLog : Generation 512 := pinnedLog [(writeTwo 7).txn]

abbrev twoLog : Generation 512 := pinnedLog [(writeTwo 7).txn, (writeTwo 8).txn]

/-- The chain value behind the first of them. -/
abbrev oneChain : Chain := sumChain false (pinnedLog []).seed (framesOf [(touchOne (1, 2)).txn, (writeTwo 7).txn])

/-- A call without faults. -/
abbrev calmCall : Oracle (Action 512) := Oracle.quiet (.commit (touchOne (5, 6))) 0

theorem seed_pinnedLog (txns : List (Txn 512)) : (pinnedLog txns).seed ≠ (0, 0) := by
  have h : (pinnedLog txns).seed = (pinnedLog []).seed := rfl
  rw [h]
  decide

theorem act_writeTwo {db : Db 512} {txns : List (Txn 512)} (hwal : db.wal = some (pinnedLog txns))
    (hrestart : db.restart = false) (hlen : 512 ≤ db.image.length) (b : UInt8) :
    ∃ db', db.act (.commit (writeTwo b)) = some db' ∧
      db'.wal = some (pinnedLog (txns ++ [(writeTwo b).txn])) ∧ db'.restart = false ∧
      db'.image.length = 1024 := by
  have hcov : (writeTwo b).txn.patch.Covers db.pages := by
    intro k hk hle
    have h2 : (writeTwo b).txn.patch.size = 2 := rfl
    have hpages : 1 ≤ db.pages := Nat.div_pos hlen (by decide)
    obtain rfl : k = 2 := by omega
    rfl
  simp only [act_commit, Db.commit, hcov, hwal, hrestart]
  exact ⟨_, rfl, rfl, rfl, by simp [writeTwo, Txn.patch]⟩

/-- The first snapshot of the one-page database, under any hash. -/
theorem snapshot_onePage (cfg : Config) : ∃ w : World (Db 512),
    takeSnapshot cfg (quiet (.commit (touchOne (1, 2))) 0) onePage = .ok () w ∧
      w.db.wal = some (pinnedLog []) ∧ w.db.restart = false ∧ w.db.image.length = 512 ∧
      w.st.currentSeq = 1 ∧ w.st.lineageId = none ∧ w.st.walSalt = some (1, 2) ∧ w.st.walOffset = 0 ∧
      (w.bucket.get (.changeset none .snapshot 1)).isSome ∧
      ∀ n, 1 < n → ∀ g, w.bucket.get (.changeset none g n) = none := by
  have hsnap := takeSnapshot_quiet cfg (.commit (touchOne (1, 2))) 0 onePage
    (act_touchOne length_pageOne (by simp [onePage])) getPageSize_pageOne
    (snapshotInput_onePage length_pageOne).encode rfl
  refine ⟨_, hsnap, rfl, rfl, by simp [pinned, touchOne, Txn.patch], rfl, rfl, ?_, rfl, ?_, ?_⟩
  · show saltOf (pinned onePage.db (1, 2)).walFile = some (1, 2)
    rfl
  · show (Store.get (Store.put _ (Key.changeset none .snapshot 1) _) _).isSome
    rfl
  · intro n hn g
    show Store.get (Store.put _ (Key.changeset none .snapshot 1) _) _ = none
    rw [get_put_of_ne]
    · rfl
    · intro heq
      injection heq with _ _ hseq
      omega

/-- The growing database after its first sync: the snapshot at seq 1, page 2 at seq 2, and the cursor behind
    both transactions of the WAL. -/
theorem synced_onePage (cfg : Config) : ∃ w : World (Db 512),
    Steps cfg (onePage, []) (w, [(1, pageOne), (2, w.db.image)]) ∧
      w.db.wal = some oneLog ∧ w.db.restart = false ∧ w.db.image.length = 1024 ∧
      w.st.currentSeq = 2 ∧ w.st.lineageId = none ∧ activeLineageId w.stateJson = none ∧
      w.st.walSalt = some (1, 2) ∧ w.st.walOffset = 1104 ∧
      w.st.walChecksumChain = some oneChain ∧
      (w.bucket.get (.changeset none .snapshot 1)).isSome ∧
      ∀ n, 2 < n → ∀ g, w.bucket.get (.changeset none g n) = none := by
  -- the snapshot, and a commit behind it
  obtain ⟨w₁, hsnap, hwal₁, hrestart₁, himage₁, hseq, hlin, hsalt, hoffset, hbase, hfree⟩ :=
    snapshot_onePage cfg
  obtain ⟨db₂, hdb₂, hwal, hrestart, himage⟩ := act_writeTwo hwal₁ hrestart₁
    (by omega) 7
  rw [nil_append] at hwal
  -- the sync
  obtain ⟨r, bytes, post, hready, hp⟩ := ready_of_cursor cfg
    calmCall (w := { w₁ with db := db₂ }) validate512 hwal
    (nil_append _).symm rfl (seed_pinnedLog _) hsalt
    (by rw [hoffset]; exact Generation.cursor_start _ _) (by simp [pinnedLog])
    (by simp [pinnedLog, touchOne, writeTwo, Txn.patch, Pages.finalSize])
    (by simp [pinnedLog, writeTwo, Txn.patch, Pages.finalSize])
  obtain ⟨txid, intent, hsync⟩ := hready.syncWal_quiet (by
    rw [World.nextKey, stateKey, hlin, hseq]
    exact hfree 2 (by decide) .live)
  have hst : readState { w₁ with db := db₂ } oneLog.header r =
      { w₁.st with walChecksumChain := r.chain } := by
    rw [readState, (noted_of_stay (w := { w₁ with db := db₂ }) hsalt hready.stay).2, hp.chain]
    rfl
  have hrun : Steps cfg (onePage, []) _ :=
    ((ReflTransGen.refl.tail (.snapshot _ _ hsnap)).tail (.env _ hdb₂)).tail (.sync _ _ hsync)
  have hlog₁ : record onePage w₁ [] = [(1, pageOne)] := by
    rw [record, hseq]
    rfl
  rw [hlog₁, record] at hrun
  simp only [publishedState, hst, World.nextKey, hseq] at hrun
  refine ⟨_, hrun, hwal, hrestart, himage, rfl, hlin, hlin, hsalt, hp.offset, hp.chain, ?_, ?_⟩
  · rw [get_put_of_ne _ _ (by simp [stateKey])]
    exact hbase
  · intro n hn g
    rw [get_put_of_ne]
    · exact hfree n (by omega) g
    · intro heq
      injection heq with _ _ heq
      omega

/-- Two objects of the growing database restore: the snapshot at seq 1 and the incremental at seq 2. -/
theorem restore_published_growing :
    ∃ (w : World (Db 512)) (log : Log) (image : Bytes) (sum : UInt64),
      Steps growConfig (onePage, []) (w, log) ∧ (2, image) ∈ log ∧ image.length = 1024 ∧
      restoreStaged growConfig.ph w.bucket none (some 2) = .ok ⟨2, sum, image, none, false⟩ := by
  obtain ⟨w, hrun, -, -, himage, -, hlin, hactive, -, -, -, hbase, -⟩ := synced_onePage growConfig
  obtain ⟨sum, hrestore⟩ := restore_published growConfig started_onePage hrun (p := 1)
    (show (2, w.db.image) ∈ _ by simp) (by decide) (by decide) (by rw [hlin]; exact hbase) (by
      intro q base _ hmem
      have hlen : base.length ≤ 1024 := by
        rcases mem_pair.mp hmem with h | h
        · injection h with _ h
          rw [h, length_pageOne]
          decide
        · injection h with _ h
          rw [h, himage]
      exact hlen.trans (by decide))
  rw [hactive] at hrestore
  exact ⟨w, _, w.db.image, sum, hrun, by simp, himage, hrestore⟩

/-! ### A database beyond the decoder's cap -/

theorem exists_length (n : Nat) : ∃ bs : Bytes, bs.length = n := ⟨fillBytes n 0, length_fillBytes⟩

/-- There is a database of one page more than 1 TiB (its header spells the page size 65536 as 1). -/
theorem exists_hugeImage : ∃ image : Bytes,
    image.length = (2 ^ 24 + 1) * 65536 ∧ getPageSize image = .ok 65536 := by
  obtain ⟨rest, hrest⟩ := exists_length ((2 ^ 24 + 1) * 65536 - 18)
  refine ⟨sqliteMagic ++ (Bytes.beBytes 2 1 ++ rest), ?_, ?_⟩
  · simp [sqliteMagic, hrest]
  · rw [getPageSize_header (by decide) (by omega), if_pos rfl]

def touchHuge : Commit 65536 where
  txn := { pages := [(1, fillBytes 65536 0)], dbSize := 16777217, nonempty := by simp, pageNum := by simp,
           dataLen := by simp, sizePos := by decide }
  salt := (1, 2)
  checkpointSeq := 0
  bigEndian := false
  stale := []

/-- A database with image `image` before its first snapshot. -/
def hugeDisk (image : Bytes) : World (Db 65536) where
  db := { image := image, main := image, wal := none, restart := false, salts := [], commits := 0,
          walStart := 0, inMain := 0 }
  bucket := Store.empty
  stateJson := none
  intent := none
  st := SyncState.new "app"

theorem started_hugeDisk : Started (hugeDisk image) := by
  refine ⟨by decide, ?_, ?_, rfl, ?_⟩
  · intro g n _
    rfl
  · intro level min max
    rfl
  · intro g hg
    cases hg

/-- The snapshot of a database of more than 1 TiB is stored, under any hash, and no restore can read it. -/
theorem oversize_snapshot_unreadable :
    ∃ (image : Bytes) (w : Config → World (Db 65536)), ∀ cfg,
      Started (hugeDisk image) ∧ Steps cfg (hugeDisk image, []) (w cfg, [(1, image)]) ∧
      (Lib.Store.get (w cfg).bucket (.changeset (w cfg).st.lineageId .snapshot 1)).isSome ∧
      ∀ r, restoreStaged cfg.ph (w cfg).bucket (activeLineageId (w cfg).stateJson) (some 1) ≠ .ok r := by
  obtain ⟨image, hlen, hps⟩ := exists_hugeImage
  have hsize : (65536 : UInt32).toNat = 65536 := rfl
  have hpages : image.length / 65536 = 2 ^ 24 + 1 := by
    rw [hlen, Nat.mul_div_cancel _ (by decide)]
  have hcov : touchHuge.txn.patch.Covers (hugeDisk image).db.pages := by
    intro k hk hle
    have h1 : (hugeDisk image).db.pages = 2 ^ 24 + 1 := hpages
    have h2 : touchHuge.txn.patch.size = 2 ^ 24 + 1 := rfl
    omega
  have hact := Db.truncate_commit hcov (by simp [hugeDisk])
  have hinput : SnapshotInput image 65536 := by
    refine ⟨by decide, ?_, ?_⟩
    · rw [hsize, hlen, Nat.mul_mod_left]
    · rw [hsize, hpages]
      decide
  have hsnap : ∀ cfg : Config, ∃ w snap,
      takeSnapshot cfg (quiet (.commit touchHuge) 0) (hugeDisk image) = .ok () w ∧
        w.st.currentSeq = 1 ∧ w.st.lineageId = none ∧ w.stateJson = none ∧
        encodeSnapshotWithChecksum cfg.ph 0 image 65536 1 0 = .ok snap ∧
        w.bucket = Store.empty.put (.changeset none .snapshot 1) snap.bytes := by
    intro cfg
    have h := takeSnapshot_quiet cfg (.commit touchHuge) 0 (hugeDisk image)
      (by rw [env_act]; exact hact) hps hinput.encode rfl
    exact ⟨_, _, h, rfl, rfl, rfl, hinput.encode, rfl⟩
  choose w snap hsnap hseq hlin hjson henc hbucket using hsnap
  refine ⟨image, w, fun cfg => ⟨started_hugeDisk, ?_, ?_, ?_⟩⟩
  · have hlog : record (hugeDisk image) (w cfg) [] = [(1, image)] := by
      rw [record, hseq]
      rfl
    rw [← hlog]
    exact ReflTransGen.single (.snapshot touchHuge 0 (hsnap cfg))
  · rw [hbucket, hlin]
    rfl
  intro r hr
  obtain ⟨e, hdec⟩ := decodeToDb_oversize (henc cfg) (by rw [hlen]; decide)
  have hget : (w cfg).bucket.get (.changeset none .snapshot 1) = some (snap cfg).bytes := by
    rw [hbucket, get_put_self]
  have hbase : baseSnapshot (w cfg).bucket none (some 1) = some 1 :=
    discoverLatestSnapshotAtOrBefore_eq (by decide) (le_refl 1) (by rw [hget]; rfl)
      fun n h₁ h₂ => absurd h₂ (not_le.mpr h₁)
  rw [hjson, show activeLineageId none = none from rfl, restoreStaged, hbase] at hr
  simp only [hget, hdec] at hr
  cases hr

end Sync
end Walrust
