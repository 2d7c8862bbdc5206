import Walrust.Sync.Retry
import Walrust.Wal.Reader

/-!
# `Walrust.Sync.Publishable` — which committed batches a sync can publish

A sync reads everything committed behind its cursor as one batch: the last version of each page, and the
database size of the last commit. The encoder takes the two together and refuses a page past that size, so a
batch that grew the database and shrank it again has no encoding.

* `replayFrames` — what SQLite makes of the batch: its frames written in order, the file cut to the last size;
* `deltaInput_iff_fits` — the encoder accepts the batch exactly if its pages fit the last size;
* `apply_eq_replayFrames` — what it encodes does to any image what replaying the frames does;
* `committed_batch_publishable` — the same for the three sync sites.
-/

namespace Walrust
namespace Sync

open Wal Ltx Sqlite Lib.File Lib.Pages Lib List
open SqliteEnv (wal main)

variable {run : List RawFrame}

/-! ## Replaying frames -/

/-- The database size of the last commit. -/
def lastSize (run : List RawFrame) : Nat := (run.getLast?.map fun f => f.dbSize.toNat).getD 0

/-- The frames written to the database file in their order, which is then cut to the last commit's size. -/
def replayFrames (pageSize : Nat) (run : List RawFrame) (image : Bytes) : Bytes :=
  setLen (run.foldl (fun f frame => writeAt f ((frame.pageNumber.toNat - 1) * pageSize) frame.body) image)
    (lastSize run * pageSize)

/-- A run of frames as SQLite logs them. -/
structure ValidRun (pageSize : Nat) (run : List RawFrame) : Prop where
  pageNum : ∀ f ∈ run, f.pageNumber ≠ 0
  bodyLen : ∀ f ∈ run, f.body.length = pageSize

/-- The last writer of each page decides, as it does in a page map. -/
theorem byteAt_writeFrames {pageSize : Nat} (hps : 0 < pageSize) (h : ValidRun pageSize run) {image : Bytes}
    {i : Nat} :
    byteAt (run.foldl (fun f frame => writeAt f ((frame.pageNumber.toNat - 1) * pageSize) frame.body) image) i =
      match lastWrite (run.map fun f => (f.pageNumber.toNat, f.body)) (pageOf pageSize i) with
      | some d => byteAt d (i % pageSize)
      | none => byteAt image i := by
  induction run using List.reverseRecOn with
  | nil => rfl
  | append_singleton run f ih =>
    have hrun : ValidRun pageSize run :=
      ⟨fun g hg => h.pageNum g (mem_append_left _ hg), fun g hg => h.bodyLen g (mem_append_left _ hg)⟩
    have hmem : f ∈ run ++ [f] := mem_append_right _ mem_cons_self
    have hpage : f.pageNumber.toNat ≠ 0 := fun h0 => h.pageNum f hmem (UInt32.toNat_inj.mp h0)
    have hin := @inPage_iff pageSize f.pageNumber.toNat i hps hpage
    rw [foldl_append, foldl_cons, foldl_nil, byteAt_writeAt, h.bodyLen f hmem, map_append,
      lastWrite_append]
    by_cases hi : f.pageNumber.toNat = pageOf pageSize i
    · -- the byte is in the page just written
      have hmod : i - (f.pageNumber.toNat - 1) * pageSize = i % pageSize := by
        rw [hi, pageOf, mul_comm]
        exact (Nat.mod_eq_sub_mul_div).symm
      rw [if_pos (hin.mpr hi), hmod]
      simp [lastWrite, hi]
    · rw [if_neg fun hc => hi (hin.mp hc), ih hrun]
      simp [lastWrite, hi]

theorem replayFrames_eq_paint {pageSize : Nat} (hps : 0 < pageSize) (h : ValidRun pageSize run) (image : Bytes) :
    replayFrames pageSize run image =
      paint pageSize (lastWrite (run.map fun f => (f.pageNumber.toNat, f.body))) (lastSize run) image := by
  apply eq_paint (length_setLen _ _)
  intro i hi
  rw [byteAt_setLen, if_pos hi]
  exact byteAt_writeFrames hps h

/-! ## Encoding -/

/-- Every page of the batch lies within the size of its last commit, which leaves room for the size marker. -/
def Fits (run : List RawFrame) : Prop :=
  (∀ f ∈ run, f.pageNumber.toNat ≤ lastSize run) ∧ lastSize run < 2 ^ 32 - 1

instance (run : List RawFrame) : Decidable (Fits run) := inferInstanceAs (Decidable (_ ∧ _))

theorem deltaInput_iff_fits {pageSize : UInt32} (hps : ValidSize pageSize)
    (h : ValidRun pageSize.toNat run) (hsize : lastSize run ≠ 0) :
    DeltaInput (pageMapOf run) pageSize (lastSize run) ↔ Fits run := by
  constructor
  · intro hi
    refine ⟨?_, hi.small⟩
    intro f hf
    obtain ⟨e, he, heq⟩ := mem_map.mp (mem_keys_pageMapOf.mpr (mem_map.mpr ⟨f, hf, rfl⟩))
    rw [← heq]
    exact (hi.page e he).2.1
  · rintro ⟨hpage, hsmall⟩
    refine ⟨hps, hsize, hsmall, ?_⟩
    intro e he
    obtain ⟨f, hf, rfl⟩ := mem_pageMapOf he
    exact ⟨h.pageNum f hf, hpage f hf, h.bodyLen f hf⟩

theorem body_of_mem_framesFrom {file : Bytes} {pageSize : UInt32} {start : Nat} {f : RawFrame}
    (h : f ∈ framesFrom file pageSize start) : f.body.length = pageSize.toNat := by
  rw [framesFrom, rawFrames_eq_map] at h
  obtain ⟨i, hi, rfl⟩ := mem_map.mp h
  have hi : i < (file.length - start) / frameSize pageSize := mem_range.mp hi
  have hend : (i + 1) * frameSize pageSize ≤ file.length - start :=
    (Nat.mul_le_mul_right _ hi).trans (Nat.div_mul_le_self _ _)
  rw [Nat.succ_mul] at hend
  have hframe : frameSize pageSize = frameHeaderSize + pageSize.toNat := rfl
  rw [hframe] at hend
  rw [length_take, length_drop, length_drop]
  omega

section Site

variable {E A : Type} [SqliteEnv E A] {cfg : Config} {w : World E} {header : WalHeader} {h : HeaderSeed}

/-- The frames a call finds behind its cursor. -/
def pendingRun (h : HeaderSeed) (w : World E) (header : WalHeader) : List RawFrame :=
  committedBatch (some h) (wal w.db) header.pageSize (startPos (noted w header).walOffset)
    (chainSeed (noted w header))

theorem validRun_pendingRun (hpages : ∀ f ∈ pendingRun h w header, f.pageNumber ≠ 0) :
    ValidRun header.pageSize.toNat (pendingRun h w header) := by
  refine ⟨hpages, ?_⟩
  intro f hf
  have hpre : pendingRun h w header <+: framesFrom _ _ _ :=
    (committedPart_isPrefix _).trans (validFrames_sublist _ _ _)
  exact body_of_mem_framesFrom (hpre.subset hf)

theorem nextRead_pendingRun (hseed : headerSeed (wal w.db) = .ok (some h)) (hne : pendingRun h w header ≠ []) :
    ∃ r, nextRead w header = .ok r ∧ r.pageMap = pageMapOf (pendingRun h w header) ∧
      r.finalDbSize.toNat = lastSize (pendingRun h w header) ∧ lastSize (pendingRun h w header) ≠ 0 := by
  obtain ⟨last, hlast⟩ := Option.ne_none_iff_exists'.mp fun hn => hne (List.getLast?_eq_none_iff.mp hn)
  have hcommit : EndsInCommit (pendingRun h w header) := endsInCommit_committedPart _
  have hsize : last.dbSize ≠ 0 := by simpa [RawFrame.isCommit] using hcommit last hlast
  have hbatch : committedBatch (some h) (wal w.db) header.pageSize
      (startPos (noted w header).walOffset) (chainSeed (noted w header)) = pendingRun h w header := rfl
  rw [nextRead, readFramesAsPageMapChecked_eq, hseed]
  simp only [hbatch, batchRead, hlast]
  refine ⟨_, rfl, rfl, ?_, ?_⟩
  · rw [lastSize, hlast]
    rfl
  · rw [lastSize, hlast]
    exact fun h0 => hsize (UInt32.toNat_inj.mp h0)

/-- What the call encodes does to any image what replaying the frames does. -/
theorem apply_eq_replayFrames (hps : ValidSize header.pageSize)
    (hpages : ∀ f ∈ pendingRun h w header, f.pageNumber ≠ 0) {now : Int64} {r : PageMapRead} {bytes : Bytes}
    {post : UInt64} (hmap : r.pageMap = pageMapOf (pendingRun h w header))
    (hsize : r.finalDbSize.toNat = lastSize (pendingRun h w header))
    (henc : EncodesTo cfg now w header r bytes post) {image : Bytes} :
    ∃ changeset, applyChangesetToDb cfg.ph bytes image (preOf cfg w) =
      .ok ⟨changeset, post, replayFrames header.pageSize.toNat (pendingRun h w header) image⟩ := by
  have hpos := (validateSqlitePageSize_ok hps).2
  have happly := applyChangesetToDb_delta henc (by rw [hmap]; exact nodup_pageMapOf _) image
  have himage : paint header.pageSize.toNat (lastWrite (pageWrites r.pageMap)) r.finalDbSize.toNat image =
      replayFrames header.pageSize.toNat (pendingRun h w header) image := by
    rw [replayFrames_eq_paint (by omega) (validRun_pendingRun hpages), hsize, hmap]
    apply paint_congr
    intro k _ _
    exact lastWrite_pageMapOf _ k
  rw [himage] at happly
  exact ⟨_, happly⟩

theorem Mode.call_unencodable (m : Mode) {b : A} {now : Int64} {r : PageMapRead} {e : String}
    (hread : w.Opens header) (hstay : w.rolled header = false) (hnext : nextRead w header = .ok r)
    (hne : r.pageMap ≠ []) (hsize : r.finalDbSize ≠ 0)
    (henc : encodeWalChangesWithEndPageCount cfg.ph now r.pageMap header.pageSize
      (UInt64.ofNat (w.st.currentSeq + 1)) (preOf cfg w) r.finalDbSize.toNat = .error e) :
    m.call cfg (Oracle.quiet b now) w = .error (.err (.other e)) (w.read header r) := by
  obtain ⟨kind, rollover, hsite⟩ := @Mode.call_site E A _ m cfg (.quiet b now)
  rw [hsite, site_eq (quietRead_quiet b now) hread hnext, hstay, if_neg Bool.false_ne_true, if_neg hne, bind_apply,
    encodeBatch_eq cfg (quietRead_quiet b now) kind hsize]
  simp only [Oracle.quiet, henc]

theorem Mode.call_of_not_fits (m : Mode) (cfg : Config) (hread : w.Opens header)
    (hstay : w.rolled header = false)
    (hseed : headerSeed (wal w.db) = .ok (some h))
    (hne : pendingRun h w header ≠ []) (hfits : ¬ Fits (pendingRun h w header)) (b : A) (now : Int64) :
    ∃ e v, m.call cfg (Oracle.quiet b now) w = .error (.err e) v ∧ v.bucket = w.bucket := by
  obtain ⟨r, hnext, hmap, hlast, hpos⟩ := nextRead_pendingRun hseed hne
  have hbatch : r.pageMap ≠ [] := by
    rw [hmap]
    exact pageMapOf_ne_nil hne
  have hsize : r.finalDbSize ≠ 0 := by
    intro h0
    rw [h0] at hlast
    exact hpos hlast.symm
  cases henc : encodeWalChangesWithEndPageCount cfg.ph now r.pageMap header.pageSize
      (UInt64.ofNat (w.st.currentSeq + 1)) (preOf cfg w) r.finalDbSize.toNat with
  | error e =>
    have hcall := @Mode.call_unencodable _ _ _ cfg w header m b now r e hread hstay hnext hbatch hsize henc
    exact ⟨_, _, hcall, rfl⟩
  | ok out =>
    have hi := (encodeWalChanges_ok henc).1
    rw [hmap, hlast] at hi
    refine absurd ⟨?_, hi.small⟩ hfits
    intro f hf
    obtain ⟨e, he, heq⟩ := mem_map.mp (mem_keys_pageMapOf.mpr (mem_map.mpr ⟨f, hf, rfl⟩))
    rw [← heq]
    exact (hi.page e he).2.1

/-- **Which committed batches can be published.** A call of any mode that finds committed frames behind its
    cursor (of the same generation, at a free seq, with an envelope that encodes) succeeds exactly if every
    page of the batch lies within the size of its last commit. Then the object it stores carries a changeset
    that does to every image of the database what replaying the frames and cutting to that size does. -/
theorem committed_batch_publishable (m : Mode) (cfg : Config) {w : World E} {header : WalHeader}
    {h : HeaderSeed} (hread : readHeader (SqliteEnv.wal w.db) = .ok (some header))
    (hstay : rolloverDetected w.st (SqliteEnv.wal w.db).length header.salt = false)
    (hseed : headerSeed (SqliteEnv.wal w.db) = .ok (some h))
    (hps : validateSqlitePageSize header.pageSize = .ok header.pageSize.toNat)
    (hne : pendingRun h w header ≠ []) (hpages : ∀ f ∈ pendingRun h w header, f.pageNumber ≠ 0)
    (henvelope : ∀ d, ∃ object, m.object d = .ok object)
    (hfree : w.bucket.get (m.key w.st (w.st.currentSeq + 1)) = none) (b : A) (now : Int64) :
    ((∃ n v, m.call cfg (Oracle.quiet b now) w = .ok n v) ↔ Fits (pendingRun h w header)) ∧
    ∀ n v, m.call cfg (Oracle.quiet b now) w = .ok n v →
      ∃ d object, m.object d = .ok object ∧
        v.bucket = w.bucket.put (m.key w.st (w.st.currentSeq + 1)) object ∧
        ∀ image, ∃ changeset, applyChangesetToDb cfg.ph d.bytes image (preOf cfg w) =
          .ok ⟨changeset, d.postChecksum,
            replayFrames header.pageSize.toNat (pendingRun h w header) image⟩ := by
  by_cases hfits : Fits (pendingRun h w header)
  · obtain ⟨r, hnext, hmap, hlast, hpos⟩ := nextRead_pendingRun hseed hne
    have hbatch : r.pageMap ≠ [] := by
      rw [hmap]
      exact pageMapOf_ne_nil hne
    have hinput := (deltaInput_iff_fits hps (validRun_pendingRun hpages) hpos).mpr hfits
    rw [← hmap, ← hlast] at hinput
    have hready : Ready cfg (.quiet b now) w header r _ _ := ⟨hread, hstay, hnext, hbatch, hinput.encode⟩
    obtain ⟨object, hobject⟩ := henvelope (deltaOf cfg w header r _ _)
    obtain ⟨object', v', hcall, hobject', hbucket, -⟩ := hready.publishes hobject hfree
    refine ⟨⟨fun _ => hfits, fun _ => ⟨_, v', hcall⟩⟩, ?_⟩
    intro n v hv
    rw [hcall] at hv
    obtain ⟨-, rfl⟩ := EStateM.Result.ok.inj hv
    exact ⟨_, object', hobject', hbucket,
      fun image => apply_eq_replayFrames hps hpages hmap hlast hready.encodes⟩
  · obtain ⟨e, v', hcall, -⟩ := m.call_of_not_fits cfg hread hstay hseed hne hfits b now
    refine ⟨⟨?_, fun hf => absurd hf hfits⟩, ?_⟩
    · rintro ⟨n, v, hv⟩
      rw [hcall] at hv
      cases hv
    · intro n v hv
      rw [hcall] at hv
      cases hv

end Site

/-! ## The growing database -/

theorem pendingRun_pinnedLog {w : World (Db 512)} {txns : List (Txn 512)}
    (hwal : w.db.wal = some (pinnedLog txns)) (hsalt : w.st.walSalt = some (1, 2)) (hoffset : w.st.walOffset = 0) :
    readHeader (wal w.db) = .ok (some (pinnedLog txns).header) ∧
      rolloverDetected w.st (wal w.db).length (pinnedLog txns).header.salt = false ∧
      headerSeed (wal w.db) = .ok (some ⟨(pinnedLog txns).seed, false, (1, 2)⟩) ∧
      pendingRun ⟨(pinnedLog txns).seed, false, (1, 2)⟩ w (pinnedLog txns).header =
        rawChain false (1, 2) (pinnedLog txns).seed (framesOf ((touchOne (1, 2)).txn :: txns)) := by
  have hfile : wal w.db = (pinnedLog txns).bytes := walFile_of_some _ hwal
  have hstay : rolloverDetected w.st (wal w.db).length (pinnedLog txns).header.salt = false := by
    rw [rolloverDetected, hsalt, hoffset]
    rfl
  have hnoted := (noted_of_stay hsalt hstay).2
  refine ⟨?_, hstay, ?_, ?_⟩
  · rw [hfile, Generation.readHeader_bytes]
  · rw [hfile, Generation.headerSeed_bytes, if_neg (seed_pinnedLog txns)]
    rfl
  · rw [pendingRun, hnoted, hoffset, hfile]
    exact Generation.committedBatch_eq (nil_append _).symm (Generation.staleForeign_of_nil rfl)
      (Generation.cursor_start _ _)

/-- The frames on disk fit if the pages logged do. -/
theorem fits_rawChain {be : Bool} {salt : Salt} {seed : Chain} {fs : List Frame} {last : Frame}
    (hlast : fs.getLast? = some last) :
    Fits (rawChain be salt seed fs) ↔
      (∀ f ∈ fs, f.page.toNat ≤ last.dbSize.toNat) ∧ last.dbSize.toNat < 2 ^ 32 - 1 := by
  have hsize : lastSize (rawChain be salt seed fs) = last.dbSize.toNat := by
    obtain ⟨init, rfl⟩ : ∃ init, fs = init ++ [last] := by
      rcases eq_nil_or_concat fs with rfl | ⟨init, f, rfl⟩
      · cases hlast
      · rw [concat_eq_append, List.getLast?_concat] at hlast
        obtain rfl := Option.some.inj hlast
        exact ⟨init, concat_eq_append⟩
    rw [lastSize, rawChain_append, rawChain, rawChain, List.getLast?_concat, Option.map_some, raw_dbSize]
    rfl
  rw [Fits, hsize]
  refine and_congr_left fun _ => ⟨?_, ?_⟩
  · intro h f hf
    obtain ⟨pre, post, rfl⟩ := append_of_mem hf
    have hmem : f.raw be salt (sumChain be seed pre) ∈ rawChain be salt seed (pre ++ f :: post) := by
      rw [rawChain_append]
      exact mem_append_right _ mem_cons_self
    have := h _ hmem
    rwa [raw_pageNumber] at this
  · intro h raw hraw
    obtain ⟨f, hf, s, rfl⟩ := mem_rawChain hraw
    rw [raw_pageNumber]
    exact h f hf

theorem pageNumber_of_mem_rawChain {ps : UInt32} {be : Bool} {salt : Salt} {seed : Chain}
    {txns : List (Txn ps)} {f : RawFrame} (hf : f ∈ rawChain be salt seed (framesOf txns)) :
    f.pageNumber ≠ 0 := by
  obtain ⟨f', hf', s, rfl⟩ := mem_rawChain hf
  obtain ⟨t, -, hft⟩ := mem_flatMap.mp hf'
  rw [raw_pageNumber]
  exact t.pageNum _ (t.frame_mem hft)

/-- One commit that adds page 2: an owned call publishes it. -/
theorem committed_batch_publishable_growing :
    ∃ (w : World (Db 512)) (n : Nat) (v : World (Db 512)),
      syncWal growConfig (Oracle.quiet (.commit (touchOne (5, 6))) 0) w = .ok n v ∧
        v.bucket ≠ w.bucket := by
  obtain ⟨w₁, -, hwal₁, hrestart₁, himage₁, hseq, hlin, hsalt, hoffset, -, hfree⟩ := snapshot_onePage growConfig
  obtain ⟨db₂, -, hwal₂, -, -⟩ := act_writeTwo hwal₁ hrestart₁ (by omega) 7
  obtain ⟨hread, hstay, hseed, hrun⟩ := @pendingRun_pinnedLog { w₁ with db := db₂ } _ hwal₂ hsalt hoffset
  have hkey : Store.get w₁.bucket (Mode.owned.key w₁.st (w₁.st.currentSeq + 1)) = none := by
    show Store.get w₁.bucket (stateKey w₁.st .live (w₁.st.currentSeq + 1)) = none
    rw [stateKey, hlin, hseq]
    exact hfree 2 (by decide) .live
  obtain ⟨hiff, hstored⟩ := committed_batch_publishable Mode.owned growConfig hread hstay hseed validate512
    (by rw [hrun]; exact cons_ne_nil _ _)
    (fun f hf => pageNumber_of_mem_rawChain (by rw [← hrun]; exact hf))
    (fun d => ⟨_, rfl⟩) hkey (.commit (touchOne (5, 6))) 0
  rw [hrun] at hiff
  have hfits : Fits (rawChain false (1, 2) oneLog.seed
      (framesOf [(touchOne (1, 2)).txn, (writeTwo 7).txn])) := by
    refine (@fits_rawChain false (1, 2) _ _ ⟨2, 2, fillBytes 512 7⟩ rfl).mpr ⟨?_, by decide⟩
    intro f hf
    rcases mem_cons.mp hf with rfl | hf
    · decide
    · obtain rfl := mem_singleton.mp hf
      exact le_refl _
  obtain ⟨n, v, hcall⟩ := hiff.mpr hfits
  obtain ⟨d, object, -, hbucket, -⟩ := hstored n v hcall
  refine ⟨_, n, v, hcall, ?_⟩
  intro hsame
  rw [hbucket] at hsame
  have hget := congrArg (fun b : Bucket => Store.get b (Mode.owned.key w₁.st (w₁.st.currentSeq + 1))) hsame
  simp only [hkey] at hget
  rw [show Store.get (Store.put _ _ _) _ = _ from Store.get_put_self _ _ _] at hget
  cases hget

/-- The database grows to two pages and shrinks back to one between two syncs, as an incremental vacuum does.
    Every mode's call fails on the batch, although it holds nothing but committed transactions. -/
theorem grow_then_shrink_unpublishable :
    ∃ (w : World (Db 512)) (log : Log) (db₂ db₃ : Db 512),
      Started onePage ∧ Steps growConfig (onePage, []) (w, log) ∧
      w.db.act (.commit (writeTwo 7)) = some db₂ ∧ db₂.act (.commit (touchOne (1, 2))) = some db₃ ∧
      ∀ m : Mode, ∃ e v, m.call growConfig (Oracle.quiet (.commit (touchOne (5, 6))) 0) { w with db := db₃ } =
        .error (.err e) v ∧ v.bucket = w.bucket := by
  obtain ⟨w₁, hsnap, hwal₁, hrestart₁, himage₁, -, -, hsalt, hoffset, -, -⟩ := snapshot_onePage growConfig
  obtain ⟨db₂, hdb₂, hwal₂, hrestart₂, himage₂⟩ := act_writeTwo hwal₁ hrestart₁
    (by omega) 7
  have hshrink : ∃ db₃, db₂.act (.commit (touchOne (1, 2))) = some db₃ ∧
      db₃.wal = some (pinnedLog [(writeTwo 7).txn, (touchOne (1, 2)).txn]) := by
    have hcov : (touchOne (1, 2)).txn.patch.Covers db₂.pages := by
      intro k hk hle
      have h1 : (touchOne (1, 2)).txn.patch.size = 1 := rfl
      have h2 : db₂.pages = 2 := by rw [Db.pages, himage₂]; rfl
      omega
    simp only [act_commit, Db.commit, hcov, not_true_eq_false, if_false, hwal₂, hrestart₂]
    exact ⟨_, rfl, rfl⟩
  obtain ⟨db₃, hdb₃, hwal₃⟩ := hshrink
  refine ⟨w₁, _, db₂, db₃, started_onePage, Relation.ReflTransGen.tail .refl (.snapshot _ 0 hsnap), hdb₂, hdb₃, ?_⟩
  intro m
  obtain ⟨hread, hstay, hseed, hrun⟩ := @pendingRun_pinnedLog { w₁ with db := db₃ } _ hwal₃ hsalt hoffset
  have hfits : ¬ Fits (rawChain false (1, 2) (pinnedLog [(writeTwo 7).txn, (touchOne (1, 2)).txn]).seed
      (framesOf [(touchOne (1, 2)).txn, (writeTwo 7).txn, (touchOne (1, 2)).txn])) := by
    rw [@fits_rawChain false (1, 2) _ _ ⟨1, 1, pageOne⟩ rfl]
    intro h
    have hmem : (⟨2, 2, fillBytes 512 7⟩ : Frame) ∈
        framesOf [(touchOne (1, 2)).txn, (writeTwo 7).txn, (touchOne (1, 2)).txn] :=
      mem_cons_of_mem _ mem_cons_self
    exact absurd (h.1 _ hmem) (by decide)
  rw [← hrun] at hfits
  exact m.call_of_not_fits growConfig hread hstay hseed (by rw [hrun]; exact cons_ne_nil _ _) hfits _ 0

end Sync
end Walrust
