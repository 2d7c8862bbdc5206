import Walrust.Wal
import Walrust.Ltx.Codec

/-!
# `Walrust.Sqlite` — the database walrust replicates

SQLite is not part of this repository; this file says what the rest assumes of it.

* `SqliteEnv` — the interface: the bytes of the database file and of the WAL, a completed `TRUNCATE`
  checkpoint, and whatever other connections do;
* `Txn`, `Generation`, `Generation.bytes` — the WAL as SQLite writes it: a salted header, frames chained by
  checksum, commit frames carrying the database size, and what an older, longer generation left behind;
* `Db` — a database under commits, WAL resets and backfills. A transaction that grows the database
  writes every grown page, a reset makes the next commit start a generation under an unused salt, and a
  completed checkpoint leaves the database file equal to the committed image;
* `Generation.committedBatch_eq` — what the checked reader returns on such a WAL.
-/

namespace Walrust
namespace Sqlite

open Wal Ltx Lib.Bytes Lib.Pages List

variable {fs : List RawFrame} {offset : Nat} {chain : Option Chain} {pageSize : UInt32}

/-- What walrust sees of a database in WAL mode, and what happens to it. `A` is the type of actions of
    other connections; an action that SQLite could not take in a state is `none`. -/
class SqliteEnv (E : Type) (A : outParam Type) where
  /-- The database file. -/
  main : E → Bytes
  /-- The WAL file (empty if there is none). -/
  wal : E → Bytes
  /-- A `TRUNCATE` checkpoint that reports every frame checkpointed. -/
  truncate : E → E
  act : E → A → Option E

/-! ## Frames and generations -/

/-- A frame before it is checksummed. -/
structure Frame where
  page : UInt32
  dbSize : UInt32
  data : Bytes
  deriving DecidableEq, Repr

/-- A transaction: the pages it logs, in order, and the database size it commits. -/
structure Txn (pageSize : UInt32) where
  pages : List (UInt32 × Bytes)
  dbSize : UInt32
  nonempty : pages ≠ []
  pageNum : ∀ p ∈ pages, p.1 ≠ 0
  dataLen : ∀ p ∈ pages, p.2.length = pageSize.toNat
  sizePos : dbSize ≠ 0

/-- Only the last frame of a transaction carries the new database size. -/
def commitFrames (dbSize : UInt32) : List (UInt32 × Bytes) → List Frame
  | [] => []
  | [p] => [⟨p.1, dbSize, p.2⟩]
  | p :: q :: rest => ⟨p.1, 0, p.2⟩ :: commitFrames dbSize (q :: rest)

/-- The four bytes of a big-endian `u32` pair, twice. -/
def pairBytes (c : UInt32 × UInt32) : Bytes := beBytes 4 c.1.toNat ++ beBytes 4 c.2.toNat

def Frame.head (f : Frame) : Bytes := pairBytes (f.page, f.dbSize)

/-- The checksum SQLite stores in a frame that follows `seed`. -/
def Frame.sum (bigEndian : Bool) (seed : Chain) (f : Frame) : Chain :=
  walChecksum bigEndian (walChecksum bigEndian seed f.head) f.data

def Frame.raw (bigEndian : Bool) (salt : Salt) (seed : Chain) (f : Frame) : RawFrame where
  header := f.head ++ pairBytes salt ++ pairBytes (f.sum bigEndian seed)
  body := f.data

/-- Frames as written after `seed`, each seeding the next. -/
def rawChain (bigEndian : Bool) (salt : Salt) : Chain → List Frame → List RawFrame
  | _, [] => []
  | seed, f :: fs => f.raw bigEndian salt seed :: rawChain bigEndian salt (f.sum bigEndian seed) fs

/-- The checksum after `fs`. -/
def sumChain (bigEndian : Bool) (seed : Chain) (fs : List Frame) : Chain :=
  fs.foldl (Frame.sum bigEndian) seed

def rawBytes (fs : List RawFrame) : Bytes := fs.flatMap fun f => f.header ++ f.body

def Txn.frames (t : Txn pageSize) : List Frame := commitFrames t.dbSize t.pages

/-- What the transaction does to the database image. -/
def Txn.patch (t : Txn pageSize) : Patch := ⟨pageWrites t.pages, t.dbSize.toNat⟩

/-- One generation of the WAL: what SQLite wrote since it last restarted the log. -/
structure Generation (pageSize : UInt32) where
  salt : Salt
  checkpointSeq : UInt32
  bigEndian : Bool
  txns : List (Txn pageSize)
  /-- Bytes of an earlier, longer generation behind the live frames. -/
  stale : Bytes

namespace Generation

variable (g : Generation pageSize)

def frames : List Frame := g.txns.flatMap Txn.frames

/-- The checksummed part of the header: magic, format version, page size, checkpoint number, salts. -/
def head : Bytes :=
  beBytes 4 (if g.bigEndian then walMagicBe else walMagicLe).toNat ++ beBytes 4 3007000 ++
    beBytes 4 pageSize.toNat ++ beBytes 4 g.checkpointSeq.toNat ++ pairBytes g.salt

/-- The header's checksum, which seeds the frame chain. -/
def seed : Chain := walChecksum g.bigEndian (0, 0) g.head

def raws : List RawFrame := rawChain g.bigEndian g.salt g.seed g.frames

/-- The WAL file. -/
def bytes : Bytes := g.head ++ pairBytes g.seed ++ rawBytes g.raws ++ g.stale

/-- Another transaction is logged; it overwrites what was stale there. -/
def append (t : Txn pageSize) : Generation pageSize :=
  { g with
    txns := g.txns ++ [t]
    stale := g.stale.drop (t.frames.length * frameSize pageSize) }

/-- What is stale was written by other generations: no frame of it carries this one's salt. -/
def StaleForeign : Prop :=
  ∀ f ∈ rawFrames pageSize.toNat (g.stale.length / frameSize pageSize) g.stale, f.salt ≠ g.salt

end Generation

/-! ## The database -/

/-- A commit, and what SQLite chooses if it has to start a new generation for it. -/
structure Commit (pageSize : UInt32) where
  txn : Txn pageSize
  salt : Salt
  checkpointSeq : UInt32
  bigEndian : Bool
  stale : Bytes

/-- A database in WAL mode. -/
structure Db (pageSize : UInt32) where
  /-- The committed image. -/
  image : Bytes
  /-- The database file, which lags behind the image until a checkpoint. -/
  main : Bytes
  wal : Option (Generation pageSize)
  /-- The log has been checkpointed in full, and the next write restarts it. -/
  restart : Bool
  /-- Every salt the WAL has had. -/
  salts : List Salt
  /-- How many transactions have committed, how many of them precede the WAL's live frames, and how many
      the database file is known to hold. -/
  commits : Nat
  walStart : Nat
  inMain : Nat

inductive Action (pageSize : UInt32) where
  | commit (c : Commit pageSize)
  /-- An external checkpoint that resets the WAL, truncating the file or leaving it to be overwritten. -/
  | reset (truncated : Bool)
  /-- A checkpoint that moves some frames into the database file and resets nothing. -/
  | backfill (main : Bytes)

namespace Db

variable (db : Db pageSize)

def pages : Nat := db.image.length / pageSize.toNat

def walFile : Bytes :=
  match db.wal with
  | none => []
  | some g => g.bytes

def truncate : Db pageSize :=
  { db with
    main := db.image
    wal := none
    restart := false
    walStart := db.commits
    inMain := db.commits }

/-- A transaction commits: appended to the live generation, or first of a new one. -/
def commit (c : Commit pageSize) : Option (Db pageSize) :=
  if ¬ c.txn.patch.Covers db.pages then none
  else
    let image := c.txn.patch.apply pageSize.toNat db.image
    match db.wal, db.restart with
    | some g, false =>
      some { db with image := image, wal := some (g.append c.txn), commits := db.commits + 1 }
    | old, _ =>
      if c.salt ∈ db.salts then none
      else some { db with
        image := image
        -- an emptied file has nothing stale in it
        wal := some ⟨c.salt, c.checkpointSeq, c.bigEndian, [c.txn], if old.isNone then [] else c.stale⟩
        restart := false
        salts := c.salt :: db.salts
        commits := db.commits + 1
        walStart := db.commits }

def act : Action pageSize → Option (Db pageSize)
  | .commit c => db.commit c
  | .reset true => some db.truncate
  | .reset false => some { db with main := db.image, restart := true, inMain := db.commits }
  | .backfill main => some { db with main := main }

end Db

instance (pageSize : UInt32) : SqliteEnv (Db pageSize) (Action pageSize) where
  main := Db.main
  wal := Db.walFile
  truncate := Db.truncate
  act := Db.act

section

variable (db : Db pageSize)

@[simp] theorem env_act (a : Action pageSize) : SqliteEnv.act db a = db.act a := rfl
@[simp] theorem act_commit (c : Commit pageSize) : db.act (.commit c) = db.commit c := rfl

theorem walFile_of_some {g : Generation pageSize} (h : db.wal = some g) : db.walFile = g.bytes := by
  rw [Db.walFile, h]

end

/-! ## Reading a generation back -/

@[simp] theorem length_pairBytes (c : UInt32 × UInt32) : (pairBytes c).length = 8 := by
  simp [pairBytes]

theorem u32At_pairBytes {pre post : Bytes} (c : UInt32 × UInt32) {off : Nat} (hoff : pre.length = off) :
    (u32At (pre ++ (pairBytes c ++ post)) off, u32At (pre ++ (pairBytes c ++ post)) (off + 4)) = c := by
  have h1 : u32At (pre ++ (pairBytes c ++ post)) off = c.1 := by
    unfold u32At
    rw [pairBytes, append_assoc, field_append hoff, ← beNat_beBytes]
    exact ofNat_beNat_u32 _
  have h2 : u32At (pre ++ (pairBytes c ++ post)) (off + 4) = c.2 := by
    unfold u32At
    rw [pairBytes, append_assoc, ← append_assoc,
      field_append (by simp [hoff]), ← beNat_beBytes]
    exact ofNat_beNat_u32 _
  rw [h1, h2]

section RawFrames

variable (be : Bool) (salt : Salt) (seed : Chain) (f : Frame)

theorem raw_page_dbSize : ((f.raw be salt seed).pageNumber, (f.raw be salt seed).dbSize) = (f.page, f.dbSize) := by
  have := @u32At_pairBytes [] (pairBytes salt ++ pairBytes (f.sum be seed)) (f.page, f.dbSize) 0 rfl
  simpa [RawFrame.pageNumber, RawFrame.dbSize, Frame.raw, Frame.head] using this

@[simp] theorem raw_pageNumber : (f.raw be salt seed).pageNumber = f.page :=
  congrArg Prod.fst (raw_page_dbSize be salt seed f)

@[simp] theorem raw_dbSize : (f.raw be salt seed).dbSize = f.dbSize :=
  congrArg Prod.snd (raw_page_dbSize be salt seed f)

@[simp] theorem raw_body : (f.raw be salt seed).body = f.data := rfl

@[simp] theorem raw_salt : (f.raw be salt seed).salt = salt := by
  have := @u32At_pairBytes f.head (pairBytes (f.sum be seed)) salt 8 (by simp [Frame.head])
  simpa [RawFrame.salt, Frame.raw] using this

@[simp] theorem raw_stored : (f.raw be salt seed).stored = f.sum be seed := by
  have := @u32At_pairBytes (f.head ++ pairBytes salt) [] (f.sum be seed) 16 (by simp [Frame.head])
  simpa [RawFrame.stored, Frame.raw] using this

@[simp] theorem raw_running : (f.raw be salt seed).running be seed = f.sum be seed := by
  rfl

theorem length_raw_header : (f.raw be salt seed).header.length = frameHeaderSize := by
  simp [Frame.raw, Frame.head, frameHeaderSize]

end RawFrames

theorem rawChain_append (be : Bool) (salt : Salt) (seed : Chain) (a b : List Frame) :
    rawChain be salt seed (a ++ b) = rawChain be salt seed a ++ rawChain be salt (sumChain be seed a) b := by
  induction a generalizing seed with
  | nil => rfl
  | cons f a ih =>
    show f.raw be salt seed :: rawChain be salt (f.sum be seed) (a ++ b) = _
    rw [ih]
    rfl

@[simp] theorem length_rawChain {be : Bool} {salt : Salt} {seed : Chain} {fs : List Frame} :
    (rawChain be salt seed fs).length = fs.length := by
  induction fs generalizing seed with
  | nil => rfl
  | cons f fs ih => simp [rawChain, ih]

theorem mem_rawChain {be : Bool} {salt : Salt} {seed : Chain} {fs : List Frame} {r : RawFrame}
    (h : r ∈ rawChain be salt seed fs) : ∃ f ∈ fs, ∃ s, r = f.raw be salt s := by
  induction fs generalizing seed with
  | nil => cases h
  | cons f fs ih =>
    rcases mem_cons.mp h with rfl | h
    · exact ⟨f, mem_cons_self, seed, rfl⟩
    · obtain ⟨f', hf', s, rfl⟩ := ih h
      exact ⟨f', mem_cons_of_mem _ hf', s, rfl⟩

section

variable (be : Bool) (salt : Salt) (seed : Chain) (fs : List Frame)

theorem chainAfter_rawChain :
    chainAfter be seed (rawChain be salt seed fs) = sumChain be seed fs := by
  induction fs generalizing seed with
  | nil => rfl
  | cons f fs ih =>
    show chainAfter be ((f.raw be salt seed).running be seed) (rawChain be salt (f.sum be seed) fs) = _
    rw [raw_running, ih]
    rfl

/-- Pass 1 accepts the whole chain and goes on behind it. -/
theorem validFrames_rawChain (rest : List RawFrame) :
    validFrames (some (be, salt)) seed (rawChain be salt seed fs ++ rest) =
      rawChain be salt seed fs ++ validFrames (some (be, salt)) (sumChain be seed fs) rest := by
  induction fs generalizing seed with
  | nil => rfl
  | cons f fs ih =>
    have hverify : verifyFrameChecksum seed (f.raw be salt seed) be = some (f.sum be seed) :=
      verifyFrameChecksum_some.mpr ⟨by rw [raw_running, raw_stored], (raw_stored be salt seed f).symm⟩
    show validFrames (some (be, salt)) seed
      (f.raw be salt seed :: (rawChain be salt (f.sum be seed) fs ++ rest)) = _
    simp only [validFrames, raw_salt, ne_eq, hverify, ih]
    rfl

end

theorem rawFrames_drop (ps k : Nat) : ∀ (n : Nat) (bytes : Bytes),
    (rawFrames ps n bytes).drop k = rawFrames ps (n - k) (bytes.drop (k * (frameHeaderSize + ps))) := by
  induction k with
  | zero => simp
  | succ k ih =>
    intro n bytes
    cases n with
    | zero => simp [rawFrames]
    | succ n =>
      rw [rawFrames, drop_succ_cons, ih, drop_drop, Nat.succ_sub_succ, Nat.succ_mul, add_comm]

/-- Full-sized frames parse back, whatever follows them. -/
theorem rawFrames_rawBytes {ps : Nat} (hh : ∀ f ∈ fs, f.header.length = frameHeaderSize)
    (hb : ∀ f ∈ fs, f.body.length = ps) (n : Nat) (rest : Bytes) :
    rawFrames ps (fs.length + n) (rawBytes fs ++ rest) = fs ++ rawFrames ps n rest := by
  induction fs with
  | nil => simp [rawBytes]
  | cons f fs ih =>
    have h1 := hh f mem_cons_self
    have h2 := hb f mem_cons_self
    have hsplit : rawBytes (f :: fs) ++ rest = f.header ++ (f.body ++ (rawBytes fs ++ rest)) := by
      simp [rawBytes]
    have hstep : (f :: fs).length + n = (fs.length + n) + 1 := by simp; omega
    rw [hsplit, hstep, rawFrames, take_left' h1, drop_left' h1, take_left' h2,
      ← h1, ← h2, ← drop_drop, drop_left, drop_left]
    rw [h2, ih (fun g hg => hh g (mem_cons_of_mem _ hg)) fun g hg => hb g (mem_cons_of_mem _ hg)]
    rfl

theorem length_rawBytes {ps : UInt32} (hh : ∀ f ∈ fs, f.header.length = frameHeaderSize)
    (hb : ∀ f ∈ fs, f.body.length = ps.toNat) :
    (rawBytes fs).length = fs.length * frameSize ps := by
  induction fs with
  | nil => simp [rawBytes]
  | cons f fs ih =>
    have h1 := hh f mem_cons_self
    have h2 := hb f mem_cons_self
    have := ih (fun g hg => hh g (mem_cons_of_mem _ hg)) fun g hg => hb g (mem_cons_of_mem _ hg)
    simp only [rawBytes, flatMap_cons, length_append, length_cons, Nat.succ_mul] at this ⊢
    rw [this, frameSize]
    omega

/-! ### Transactions as frames -/

theorem commitFrames_map (n : UInt32) (l : List (UInt32 × Bytes)) :
    (commitFrames n l).map (fun f => (f.page, f.data)) = l := by
  induction l with
  | nil => rfl
  | cons p l ih =>
    cases l with
    | nil => rfl
    | cons q rest =>
      show (p.1, p.2) :: (commitFrames n (q :: rest)).map (fun f => (f.page, f.data)) = _
      rw [ih]

theorem commitFrames_getLast? (n : UInt32) {l : List (UInt32 × Bytes)} (h : l ≠ []) :
    ∃ f, (commitFrames n l).getLast? = some f ∧ f.dbSize = n := by
  induction l with
  | nil => exact absurd rfl h
  | cons p l ih =>
    cases l with
    | nil => exact ⟨_, rfl, rfl⟩
    | cons q rest =>
      obtain ⟨f, hf, hsize⟩ := ih (cons_ne_nil q rest)
      refine ⟨f, ?_, hsize⟩
      show ((⟨p.1, 0, p.2⟩ : Frame) :: commitFrames n (q :: rest)).getLast? = some f
      rw [List.getLast?_cons, hf]
      rfl

section

variable {f : Frame}

theorem Txn.frames_ne_nil (t : Txn pageSize) : t.frames ≠ [] := by
  obtain ⟨f, hf, -⟩ := commitFrames_getLast? t.dbSize t.nonempty
  intro h
  rw [Txn.frames] at h
  rw [h] at hf
  cases hf

theorem Txn.frame_mem (t : Txn pageSize) (hf : f ∈ t.frames) : (f.page, f.data) ∈ t.pages := by
  rw [← commitFrames_map t.dbSize t.pages]
  exact mem_map.mpr ⟨f, hf, rfl⟩

theorem Txn.frame_data (t : Txn pageSize) (hf : f ∈ t.frames) :
    f.data.length = pageSize.toNat := t.dataLen _ (t.frame_mem hf)

/-- The frames of some transactions. -/
def framesOf (txns : List (Txn pageSize)) : List Frame := txns.flatMap Txn.frames

@[simp] theorem framesOf_append (a b : List (Txn pageSize)) :
    framesOf (a ++ b) = framesOf a ++ framesOf b := by
  simp [framesOf]

theorem framesOf_eq_nil {txns : List (Txn pageSize)} : framesOf txns = [] ↔ txns = [] := by
  constructor
  · intro h
    cases txns with
    | nil => rfl
    | cons t ts =>
      exact absurd (append_eq_nil_iff.mp (show t.frames ++ framesOf ts = [] from h)).1
        t.frames_ne_nil
  · rintro rfl
    rfl

theorem framesOf_data {txns : List (Txn pageSize)} (hf : f ∈ framesOf txns) :
    f.data.length = pageSize.toNat := by
  obtain ⟨t, -, hft⟩ := mem_flatMap.mp hf
  exact t.frame_data hft

/-- The last frame of some transactions commits the size the last of them sets. -/
theorem framesOf_getLast? {txns : List (Txn pageSize)} (h : txns ≠ []) (pages : Nat) :
    ∃ f, (framesOf txns).getLast? = some f ∧ f.dbSize ≠ 0 ∧
      f.dbSize.toNat = finalSize pages (txns.map Txn.patch) := by
  obtain ⟨init, t, rfl⟩ := eq_nil_or_concat txns |>.resolve_left h
  obtain ⟨f, hf, hsize⟩ := commitFrames_getLast? t.dbSize t.nonempty
  refine ⟨f, ?_, hsize ▸ t.sizePos, ?_⟩
  · simp [framesOf, Txn.frames, hf]
  · rw [hsize, concat_eq_append, map_append]
    show _ = finalSize pages (init.map Txn.patch ++ [t.patch])
    rw [finalSize_concat]
    rfl

theorem framesOf_writes (txns : List (Txn pageSize)) :
    (framesOf txns).map (fun f => (f.page.toNat, f.data)) =
      (txns.map Txn.patch).flatMap Patch.writes := by
  induction txns with
  | nil => rfl
  | cons t ts ih =>
    show (t.frames ++ framesOf ts).map _ = pageWrites t.pages ++ (ts.map Txn.patch).flatMap Patch.writes
    rw [map_append]
    congr 1
    have hpages := congrArg pageWrites (commitFrames_map t.dbSize t.pages)
    simp only [pageWrites, map_map] at hpages
    exact hpages

end

/-! ### The header -/

namespace Generation

variable (g : Generation pageSize)

theorem length_head : g.head.length = 24 := by simp [head]

theorem u32At_field {pre post : Bytes} (v : UInt32) {off : Nat} (hoff : pre.length = off) :
    u32At (pre ++ (beBytes 4 v.toNat ++ post)) off = v := by
  unfold u32At
  rw [field_append hoff, ← beNat_beBytes]
  exact ofNat_beNat_u32 _

def magicOf : UInt32 := if g.bigEndian then walMagicBe else walMagicLe

/-- What follows the header. -/
def tail : Bytes := rawBytes g.raws ++ g.stale

/-- The header `read_header` returns for the generation. -/
def header : WalHeader where
  magic := g.magicOf
  formatVersion := 3007000
  pageSize := pageSize
  checkpointSeq := g.checkpointSeq
  salt1 := g.salt.1
  salt2 := g.salt.2
  checksum1 := g.seed.1
  checksum2 := g.seed.2

/-- The file, field by field. -/
theorem bytes_fields : g.bytes = beBytes 4 g.magicOf.toNat ++ (beBytes 4 (3007000 : UInt32).toNat ++
    (beBytes 4 pageSize.toNat ++ (beBytes 4 g.checkpointSeq.toNat ++ (beBytes 4 g.salt.1.toNat ++
      (beBytes 4 g.salt.2.toNat ++ (beBytes 4 g.seed.1.toNat ++ (beBytes 4 g.seed.2.toNat ++
        g.tail))))))) := by
  rfl

theorem length_bytes : 32 ≤ g.bytes.length := by
  simp only [bytes_fields, length_append, length_beBytes]
  omega

theorem u32At_bytes : u32At g.bytes 0 = g.magicOf ∧ u32At g.bytes 4 = 3007000 ∧
    u32At g.bytes 8 = pageSize ∧ u32At g.bytes 12 = g.checkpointSeq ∧ u32At g.bytes 16 = g.salt.1 ∧
    u32At g.bytes 20 = g.salt.2 ∧ u32At g.bytes 24 = g.seed.1 ∧ u32At g.bytes 28 = g.seed.2 := by
  rw [bytes_fields]
  refine ⟨?_, ?_, ?_, ?_, ?_, ?_, ?_, ?_⟩
  · exact @u32At_field [] _ g.magicOf 0 rfl
  · exact u32At_field 3007000 (by simp)
  · exact u32At_field pageSize (by simp)
  · exact u32At_field g.checkpointSeq (by simp)
  · exact u32At_field g.salt.1 (by simp)
  · exact u32At_field g.salt.2 (by simp)
  · exact u32At_field g.seed.1 (by simp)
  · rw [← append_assoc, ← append_assoc, ← append_assoc, ← append_assoc,
      ← append_assoc, ← append_assoc]
    exact u32At_field g.seed.2 (by simp)

theorem magicOf_cases : g.magicOf = walMagicBe ∨ g.magicOf = walMagicLe := by
  unfold magicOf
  split
  · exact .inl rfl
  · exact .inr rfl

theorem magicIsBigEndian_magicOf : magicIsBigEndian g.magicOf = g.bigEndian := by
  unfold magicOf
  cases g.bigEndian <;> rfl

theorem readHeader_bytes : readHeader g.bytes = .ok (some g.header) := by
  obtain ⟨h0, h4, h8, h12, h16, h20, h24, h28⟩ := g.u32At_bytes
  have hlen := g.length_bytes
  have hmagic := g.magicOf_cases
  unfold readHeader walHeaderSize
  rw [if_neg (by omega), h0, if_neg (fun h => hmagic.elim h.2 h.1), h8, h12, h16, h20, h24, h28]
  rfl

/-- The reader seeds its chain from the header unless the header's checksum happens to be zero. -/
theorem headerSeed_bytes : headerSeed g.bytes =
    if g.seed = (0, 0) then .error "invalid WAL header checksum"
    else .ok (some ⟨g.seed, g.bigEndian, g.salt⟩) := by
  obtain ⟨h0, -, -, -, h16, h20, h24, h28⟩ := g.u32At_bytes
  have hlen := g.length_bytes
  have hstored : (u32At (g.bytes.take 32) 24, u32At (g.bytes.take 32) 28) = g.seed := by
    unfold u32At at *
    rw [field_take (by decide), field_take (by decide), h24, h28]
  have hcomputed : walChecksum g.bigEndian (0, 0) ((g.bytes.take 32).take 24) = g.seed := by
    rfl
  unfold headerSeed walHeaderSize
  rw [if_neg (by omega), h0, if_pos g.magicOf_cases, magicIsBigEndian_magicOf, h16, h20]
  by_cases hzero : g.seed = (0, 0)
  · simp only [validateHeaderChecksum, hstored, if_pos hzero]
  · simp only [validateHeaderChecksum, hstored, hcomputed, if_neg hzero, if_true]

/-! ### The frames -/

theorem raws_header {f : RawFrame} (hf : f ∈ g.raws) : f.header.length = frameHeaderSize := by
  obtain ⟨f', -, s, rfl⟩ := mem_rawChain hf
  exact length_raw_header _ _ _ _

theorem raws_body {f : RawFrame} (hf : f ∈ g.raws) : f.body.length = pageSize.toNat := by
  obtain ⟨f', hf', s, rfl⟩ := mem_rawChain hf
  exact framesOf_data hf'

theorem frameSize_pos (pageSize : UInt32) : 0 < frameSize pageSize := by
  unfold frameSize frameHeaderSize
  omega

/-- The frames the reader parses from frame `k` on: the rest of the generation, then what is stale. -/
theorem framesFrom_bytes {k : Nat} (hk : k ≤ g.raws.length) :
    framesFrom g.bytes pageSize (32 + k * frameSize pageSize) =
      g.raws.drop k ++ rawFrames pageSize.toNat (g.stale.length / frameSize pageSize) g.stale := by
  have hh : ∀ f ∈ g.raws.drop k, f.header.length = frameHeaderSize := fun f hf =>
    g.raws_header (mem_of_mem_drop hf)
  have hb : ∀ f ∈ g.raws.drop k, f.body.length = pageSize.toNat := fun f hf =>
    g.raws_body (mem_of_mem_drop hf)
  have hsplit : g.bytes = (g.head ++ pairBytes g.seed ++ rawBytes (g.raws.take k)) ++
      (rawBytes (g.raws.drop k) ++ g.stale) := by
    have : rawBytes g.raws = rawBytes (g.raws.take k) ++ rawBytes (g.raws.drop k) := by
      rw [rawBytes, rawBytes, rawBytes, ← flatMap_append, take_append_drop]
    simp only [bytes, this, append_assoc]
  have hlead : (g.head ++ pairBytes g.seed ++ rawBytes (g.raws.take k)).length =
      32 + k * frameSize pageSize := by
    rw [length_append, length_append, length_head, length_pairBytes,
      length_rawBytes (fun f hf => g.raws_header (mem_of_mem_take hf))
        (fun f hf => g.raws_body (mem_of_mem_take hf)), length_take, min_eq_left hk]
  have hcount : (g.bytes.length - (32 + k * frameSize pageSize)) / frameSize pageSize =
      (g.raws.drop k).length + g.stale.length / frameSize pageSize := by
    rw [hsplit, length_append, hlead, Nat.add_sub_cancel_left, length_append,
      length_rawBytes hh hb, mul_comm, Nat.mul_add_div (frameSize_pos pageSize)]
  rw [framesFrom, hcount, hsplit, drop_left' hlead, rawFrames_rawBytes hh hb]

/-- **Where a cursor stands** in a generation whose transactions `done` were read: behind their frames,
    with the chain value there (any chain value does at the first frame). -/
structure Cursor (done : List (Txn pageSize)) (start : Nat) (chain : Option Chain) : Prop where
  start : start = 32 + (framesOf done).length * frameSize pageSize
  chain : done ≠ [] → chain = some (sumChain g.bigEndian g.seed (framesOf done))

/-- The frames of transactions behind others. -/
abbrev rawAfter (done pending : List (Txn pageSize)) : List RawFrame :=
  rawChain g.bigEndian g.salt (sumChain g.bigEndian g.seed (framesOf done)) (framesOf pending)

variable {g} {done pending : List (Txn pageSize)} {start : Nat}

theorem cursor_start (g : Generation pageSize) (chain : Option Chain) : g.Cursor [] (startPos 0) chain :=
  ⟨by simp [startPos, framesOf, walHeaderSize], fun h => absurd rfl h⟩

theorem Cursor.offset_le (htx : g.txns = done ++ pending) (hc : g.Cursor done (startPos offset) chain) :
    offset ≤ g.bytes.length := by
  by_cases h0 : offset = 0
  · omega
  have hstart := hc.start
  rw [startPos, if_neg h0] at hstart
  have hlen : g.bytes.length = 32 + g.raws.length * frameSize pageSize + g.stale.length := by
    rw [bytes, length_append, length_append, length_append, length_head, length_pairBytes,
      length_rawBytes (fun _ => g.raws_header) (fun _ => g.raws_body)]
  have hraws : g.raws.length = (framesOf done).length + (framesOf pending).length := by
    rw [raws, length_rawChain, frames, htx, ← length_append, ← framesOf_append]
    rfl
  rw [hlen, hraws, add_mul]
  omega

theorem Cursor.readSeed (hc : g.Cursor done start chain) :
    readSeed (some ⟨g.seed, g.bigEndian, g.salt⟩) start chain =
      (sumChain g.bigEndian g.seed (framesOf done), some (g.bigEndian, g.salt)) := by
  unfold Wal.readSeed
  by_cases hd : done = []
  · have hstart : start = walHeaderSize := by
      rw [hc.start, hd]
      simp [framesOf, walHeaderSize]
    subst hd
    simp only [if_pos hstart]
    rfl
  · have hne : (framesOf done).length ≠ 0 := by
      rw [Ne, length_eq_zero_iff, framesOf_eq_nil]
      exact hd
    have hstart : start ≠ walHeaderSize := by
      have := mul_pos (pos_of_ne_zero hne) (frameSize_pos pageSize)
      rw [hc.start, walHeaderSize]
      omega
    simp [if_neg hstart, hc.chain hd]

theorem committedPart_rawChain {be : Bool} {salt : Salt} {seed : Chain} {txns : List (Txn pageSize)} :
    committedPart (rawChain be salt seed (framesOf txns)) = rawChain be salt seed (framesOf txns) := by
  unfold committedPart
  rw [rdropWhile_eq_self_iff]
  intro hne
  have htx : txns ≠ [] := by
    rintro rfl
    exact hne rfl
  obtain ⟨f, hf, hcommit, -⟩ := framesOf_getLast? htx 0
  -- the last frame is the raw form of the last commit frame
  obtain ⟨init, hinit⟩ : ∃ init, framesOf txns = init ++ [f] := by
    obtain ⟨init, hi⟩ := List.getLast?_eq_some_iff.mp hf
    exact ⟨init, hi⟩
  have hlast : (rawChain be salt seed (framesOf txns)).getLast hne =
      f.raw be salt (sumChain be seed init) := by
    have : rawChain be salt seed (framesOf txns) =
        rawChain be salt seed init ++ [f.raw be salt (sumChain be seed init)] := by
      rw [hinit, rawChain_append]
      rfl
    simp [this]
  rw [hlast]
  simp [RawFrame.isCommit, hcommit]

theorem staleForeign_of_nil (h : g.stale = []) : g.StaleForeign := by
  intro f hf
  rw [h] at hf
  simp [rawFrames] at hf

/-- A transaction overwrites whole slots. -/
theorem StaleForeign.append (h : g.StaleForeign) (t : Txn pageSize) : (g.append t).StaleForeign := by
  intro f hf
  refine h f ?_
  have hslots : (g.stale.drop (t.frames.length * frameSize pageSize)).length / frameSize pageSize =
      g.stale.length / frameSize pageSize - t.frames.length := by
    rw [length_drop, mul_comm, Nat.sub_mul_div]
  have hdrop : rawFrames pageSize.toNat
      ((g.stale.drop (t.frames.length * frameSize pageSize)).length / frameSize pageSize)
      (g.stale.drop (t.frames.length * frameSize pageSize)) =
        (rawFrames pageSize.toNat (g.stale.length / frameSize pageSize) g.stale).drop t.frames.length := by
    rw [hslots, rawFrames_drop]
    rfl
  exact mem_of_mem_drop (hdrop ▸ hf)

/-- No frame that is stale passes validation. -/
theorem StaleForeign.validFrames (h : g.StaleForeign) (running : Chain) :
    validFrames (some (g.bigEndian, g.salt)) running
      (rawFrames pageSize.toNat (g.stale.length / frameSize pageSize) g.stale) = [] := by
  unfold StaleForeign at h
  cases hfs : rawFrames pageSize.toNat (g.stale.length / frameSize pageSize) g.stale with
  | nil => rfl
  | cons f fs =>
    rw [hfs] at h
    simp [Wal.validFrames, h f mem_cons_self]

/-- **What the reader returns** from a cursor that stands right: every frame of the transactions not read
    yet. -/
theorem committedBatch_eq (htx : g.txns = done ++ pending) (hstale : g.StaleForeign)
    (hc : g.Cursor done start chain) :
    committedBatch (some ⟨g.seed, g.bigEndian, g.salt⟩) g.bytes pageSize start chain =
      g.rawAfter done pending := by
  have hraws : g.raws = rawChain g.bigEndian g.salt g.seed (framesOf done) ++
      g.rawAfter done pending := by
    rw [← rawChain_append, ← framesOf_append, ← htx]
    rfl
  have hk : (framesOf done).length ≤ g.raws.length := by
    rw [hraws, length_append, length_rawChain]
    omega
  have hframes : framesFrom g.bytes pageSize start =
      g.rawAfter done pending ++
        rawFrames pageSize.toNat (g.stale.length / frameSize pageSize) g.stale := by
    rw [hc.start, framesFrom_bytes g hk, hraws, drop_left' length_rawChain]
  unfold committedBatch
  rw [hc.readSeed, hframes, validFrames_rawChain, hstale.validFrames, append_nil]
  exact committedPart_rawChain

theorem batchChain_eq (hc : g.Cursor done start chain) :
    batchChain (some ⟨g.seed, g.bigEndian, g.salt⟩) start chain
        (rawChain g.bigEndian g.salt (sumChain g.bigEndian g.seed (framesOf done)) (framesOf pending)) =
      some (sumChain g.bigEndian g.seed (framesOf (done ++ pending))) := by
  unfold batchChain
  rw [hc.readSeed]
  simp only [chainAfter_rawChain, framesOf_append, sumChain, foldl_append]

theorem read_cursor (htx : g.txns = done ++ pending) (hstale : g.StaleForeign)
    (hc : g.Cursor done (startPos offset) chain) (hseed : g.seed ≠ (0, 0)) :
    readFramesAsPageMapChecked g.bytes g.bytes pageSize offset chain =
      .ok (batchRead pageSize (startPos offset) chain
        (some (sumChain g.bigEndian g.seed (framesOf (done ++ pending))))
        (g.rawAfter done pending)) := by
  simp only [readFramesAsPageMapChecked_eq, headerSeed_bytes, if_neg hseed, committedBatch_eq htx hstale hc,
    batchChain_eq hc]

end Generation

/-! ### The page map -/

theorem pageMapOf_append_singleton (fs : List RawFrame) (f : RawFrame) :
    pageMapOf (fs ++ [f]) = PageMap.insert (pageMapOf fs) f.pageNumber f.body := by
  simp [pageMapOf]

theorem nodup_pageMapOf (fs : List RawFrame) : ((pageMapOf fs).map Prod.fst).Nodup := by
  induction fs using reverseRecOn with
  | nil => exact nodup_nil
  | append_singleton fs f ih =>
    rw [pageMapOf_append_singleton, PageMap.insert, map_append, nodup_append]
    refine ⟨ih.sublist (filter_sublist.map Prod.fst), nodup_singleton _, ?_⟩
    intro a ha b hb
    obtain ⟨e, he, rfl⟩ := mem_map.mp ha
    have hne : e.1 ≠ f.pageNumber := by simpa using (mem_filter.mp he).2
    simpa [mem_singleton.mp hb] using hne

theorem mem_pageMapOf {e : UInt32 × Bytes} (h : e ∈ pageMapOf fs) :
    ∃ f ∈ fs, e = (f.pageNumber, f.body) := by
  induction fs using reverseRecOn with
  | nil => cases h
  | append_singleton fs f ih =>
    rw [pageMapOf_append_singleton, PageMap.insert, mem_append] at h
    rcases h with h | h
    · obtain ⟨f', hf', he⟩ := ih (mem_filter.mp h).1
      exact ⟨f', mem_append_left _ hf', he⟩
    · exact ⟨f, mem_append_right _ mem_cons_self, mem_singleton.mp h⟩

/-- The page map keeps the last version of each page. -/
theorem lastWrite_pageMapOf (fs : List RawFrame) (k : Nat) :
    lastWrite (pageWrites (pageMapOf fs)) k =
      lastWrite (fs.map fun f => (f.pageNumber.toNat, f.body)) k := by
  induction fs using reverseRecOn with
  | nil => rfl
  | append_singleton fs f ih =>
    have hsplit : pageWrites (pageMapOf (fs ++ [f])) =
        pageWrites ((pageMapOf fs).filter fun e => e.1 ≠ f.pageNumber) ++
          [(f.pageNumber.toNat, f.body)] := by
      rw [pageMapOf_append_singleton, PageMap.insert]
      simp [pageWrites]
    rw [hsplit, lastWrite_append, map_append, lastWrite_append]
    by_cases hk : f.pageNumber.toNat = k
    · simp [lastWrite, hk]
    simp only [lastWrite, map_cons, hk]
    rw [← ih]
    -- filtering out another page does not touch the versions of `k`
    apply Option.ext
    intro d
    constructor
    · intro h
      obtain ⟨e, he, heq⟩ := mem_map.mp (mem_of_lastWrite h)
      refine lastWrite_of_mem (nodup_pageWrites (nodup_pageMapOf fs)) (mem_map.mpr ⟨e, ?_, heq⟩)
      exact (mem_filter.mp he).1
    intro h
    obtain ⟨e, he, heq⟩ := mem_map.mp (mem_of_lastWrite h)
    have hnd : ((pageWrites ((pageMapOf fs).filter fun e => e.1 ≠ f.pageNumber)).map
        Prod.fst).Nodup :=
      nodup_pageWrites ((nodup_pageMapOf fs).sublist (filter_sublist.map Prod.fst))
    refine lastWrite_of_mem hnd (mem_map.mpr ⟨e, mem_filter.mpr ⟨he, ?_⟩, heq⟩)
    injection heq with hpage _
    simp only [decide_not, Bool.not_eq_true', decide_eq_false_iff_not]
    intro he'
    exact hk (he' ▸ hpage)

theorem rawChain_writes (be : Bool) (salt : Salt) (seed : Chain) (fs : List Frame) :
    (rawChain be salt seed fs).map (fun f => (f.pageNumber.toNat, f.body)) =
      fs.map fun f => (f.page.toNat, f.data) := by
  induction fs generalizing seed with
  | nil => rfl
  | cons f fs ih => simp [rawChain, ih]

theorem pageMapOf_ne_nil (h : fs ≠ []) : pageMapOf fs ≠ [] := by
  obtain ⟨init, f, rfl⟩ := eq_nil_or_concat fs |>.resolve_left h
  rw [concat_eq_append, pageMapOf_append_singleton, PageMap.insert]
  simp

/-! ### The pending transactions -/

/-- **What a read of pending transactions returns**: their pages, each in its last version, the size the
    last of them commits, and the position and chain at the end of the log. -/
structure PendingRead {pageSize : UInt32} (g : Generation pageSize) (pending : List (Txn pageSize))
    (r : PageMapRead) : Prop where
  nonempty : r.pageMap ≠ []
  nodup : (r.pageMap.map Prod.fst).Nodup
  mem : ∀ e ∈ r.pageMap, ∃ t ∈ pending, e ∈ t.pages
  writes : ∀ k, lastWrite (pageWrites r.pageMap) k =
    lastWrite ((pending.map Txn.patch).flatMap Patch.writes) k
  size : ∀ pages, r.finalDbSize.toNat = finalSize pages (pending.map Txn.patch)
  offset : r.newOffset = 32 + (framesOf g.txns).length * frameSize pageSize
  chain : r.chain = some (sumChain g.bigEndian g.seed (framesOf g.txns))

theorem Generation.read_pending {g : Generation pageSize} {done pending : List (Txn pageSize)}
    (htx : g.txns = done ++ pending) (hstale : g.StaleForeign) (hc : g.Cursor done (startPos offset) chain)
    (hseed : g.seed ≠ (0, 0)) (hne : pending ≠ []) :
    ∃ r, readFramesAsPageMapChecked g.bytes g.bytes pageSize offset chain = .ok r ∧
      PendingRead g pending r := by
  obtain ⟨f, hf, -, -⟩ := framesOf_getLast? hne 0
  obtain ⟨init, hinit⟩ := List.getLast?_eq_some_iff.mp hf
  have hlast : (rawChain g.bigEndian g.salt (sumChain g.bigEndian g.seed (framesOf done))
      (framesOf pending)).getLast? =
        some (f.raw g.bigEndian g.salt
          (sumChain g.bigEndian (sumChain g.bigEndian g.seed (framesOf done)) init)) := by
    rw [hinit, rawChain_append]
    exact List.getLast?_concat
  have hbatch : rawChain g.bigEndian g.salt (sumChain g.bigEndian g.seed (framesOf done))
      (framesOf pending) ≠ [] := by
    intro hempty
    rw [hempty] at hlast
    cases hlast
  have hread := Generation.read_cursor htx hstale hc hseed
  rw [batchRead, hlast] at hread
  refine ⟨_, hread, pageMapOf_ne_nil hbatch, nodup_pageMapOf _, ?_, ?_, ?_, ?_, ?_⟩
  · intro e he
    obtain ⟨raw, hraw, rfl⟩ := mem_pageMapOf he
    obtain ⟨f', hf', s, rfl⟩ := mem_rawChain hraw
    obtain ⟨t, ht, hft⟩ := mem_flatMap.mp hf'
    refine ⟨t, ht, ?_⟩
    rw [raw_pageNumber]
    exact t.frame_mem hft
  · intro k
    rw [lastWrite_pageMapOf, rawChain_writes, framesOf_writes]
  · intro pages
    obtain ⟨f', hf', -, hsize⟩ := framesOf_getLast? hne pages
    obtain rfl : f' = f := Option.some.inj (hf'.symm.trans hf)
    rw [← hsize]
    exact congrArg UInt32.toNat (raw_dbSize _ _ _ _)
  · rw [length_rawChain, hc.start, htx, framesOf_append, length_append, add_mul, add_assoc]
  · rw [htx]

/-! ## The database over time -/

namespace Db

variable {db db' : Db pageSize} {c : Commit pageSize} {a : Action pageSize}

/-- What a commit does, in its two cases. -/
theorem commit_eq_some (h : db.commit c = some db') :
    c.txn.patch.Covers db.pages ∧ db'.image = c.txn.patch.apply pageSize.toNat db.image ∧
      db'.main = db.main ∧ db'.commits = db.commits + 1 ∧ db'.inMain = db.inMain ∧ db'.restart = false ∧
      ((∃ g, db.wal = some g ∧ db.restart = false ∧ db'.wal = some (g.append c.txn) ∧
          db'.salts = db.salts ∧ db'.walStart = db.walStart) ∨
        (c.salt ∉ db.salts ∧ db'.salts = c.salt :: db.salts ∧ db'.walStart = db.commits ∧
          (db.wal = none ∨ db.restart = true) ∧
          ∃ stale, (db.wal = none → stale = []) ∧
            db'.wal = some ⟨c.salt, c.checkpointSeq, c.bigEndian, [c.txn], stale⟩)) := by
  unfold commit at h
  split at h
  · cases h
  rename_i hcov
  have hcov := not_not.mp hcov
  split at h
  · rename_i g hwal hrestart
    injection h with h
    subst h
    exact ⟨hcov, rfl, rfl, rfl, rfl, hrestart, .inl ⟨g, hwal, hrestart, rfl, rfl, rfl⟩⟩
  rename_i old restart hnot
  split at h
  · cases h
  rename_i hsalt
  injection h with h
  subst h
  refine ⟨hcov, rfl, rfl, rfl, rfl, rfl, .inr ⟨hsalt, rfl, rfl, ?_, _, ?_, rfl⟩⟩
  · cases hwal : db.wal with
    | none => exact .inl rfl
    | some g =>
      cases hr : db.restart with
      | true => exact .inr rfl
      | false => exact absurd hr (hnot g hwal)
  · intro hnone
    simp [hnone]

theorem truncate_commit (hcov : c.txn.patch.Covers db.pages) (hsalt : c.salt ∉ db.salts) :
    db.truncate.commit c = some { db.truncate with
      image := c.txn.patch.apply pageSize.toNat db.image
      wal := some ⟨c.salt, c.checkpointSeq, c.bigEndian, [c.txn], []⟩
      salts := c.salt :: db.salts
      commits := db.commits + 1
      walStart := db.commits } := by
  have hcov' : c.txn.patch.Covers db.truncate.pages := hcov
  have hsalt' : c.salt ∉ db.truncate.salts := hsalt
  simp only [commit, hcov']
  simp only [if_neg hsalt']
  rfl

/-- **What an action leaves a reader of the WAL**: the generation as it was, the generation with one more
    transaction, or a generation under a salt that was never used. -/
theorem act_wal (ha : db.act a = some db') :
    (∀ salt ∈ db.salts, salt ∈ db'.salts) ∧ ∀ g', db'.wal = some g' →
      (db.wal = some g' ∧ db'.image = db.image) ∨
      (∃ g t, db.wal = some g ∧ g' = g.append t ∧ t.patch.Covers db.pages ∧
        db'.image = t.patch.apply pageSize.toNat db.image) ∨
      (g'.salt ∉ db.salts ∧ g'.salt ∈ db'.salts) := by
  cases a with
  | commit c =>
    obtain ⟨hcov, himage, -, -, -, -, hcase⟩ := commit_eq_some ha
    rcases hcase with ⟨g, hg, -, hwal, hsalts, -⟩ | ⟨hfresh, hsalts, -, -, stale, -, hwal⟩
    · refine ⟨fun salt hs => hsalts ▸ hs, fun g' hg' => .inr (.inl ⟨g, c.txn, hg, ?_, hcov, himage⟩)⟩
      exact Option.some.inj (hg'.symm.trans hwal)
    · refine ⟨fun salt hs => hsalts ▸ mem_cons_of_mem _ hs, fun g' hg' => .inr (.inr ?_)⟩
      rw [Option.some.inj (hg'.symm.trans hwal), hsalts]
      exact ⟨hfresh, mem_cons_self⟩
  | reset truncated =>
    cases truncated with
    | true =>
      rw [← Option.some.inj ha]
      exact ⟨fun _ hs => hs, fun g' hg' => by cases hg'⟩
    | false =>
      rw [← Option.some.inj ha]
      exact ⟨fun _ hs => hs, fun g' hg' => .inl ⟨hg', rfl⟩⟩
  | backfill main =>
    rw [← Option.some.inj ha]
    exact ⟨fun _ hs => hs, fun g' hg' => .inl ⟨hg', rfl⟩⟩

/-- The WAL's salt is among those it has had. -/
def SaltKnown (db : Db pageSize) : Prop := ∀ g, db.wal = some g → g.salt ∈ db.salts

theorem SaltKnown.act (h : db.SaltKnown)
    (ha : db.act a = some db') : db'.SaltKnown ∧ ∀ salt ∈ db.salts, salt ∈ db'.salts := by
  obtain ⟨hsalts, hwal⟩ := act_wal ha
  refine ⟨fun g' hg' => ?_, hsalts⟩
  rcases hwal g' hg' with ⟨hg, -⟩ | ⟨g, t, hg, rfl, -, -⟩ | ⟨-, hknown⟩
  · exact hsalts _ (h g' hg)
  · exact hsalts _ (h g hg)
  · exact hknown

/-- A commit that begins a new log writes over what was there. -/
theorem commit_restarts (h : db.commit c = some db') (hfresh : db.wal = none ∨ db.restart = true) :
    db'.wal = some ⟨c.salt, c.checkpointSeq, c.bigEndian, [c.txn], if db.wal.isNone then [] else c.stale⟩ := by
  unfold commit at h
  split at h
  · cases h
  split at h
  · rename_i hwal hrestart
    rcases hfresh with hnone | hr
    · rw [hnone] at hwal
      cases hwal
    · rw [hr] at hrestart
      cases hrestart
  · split at h
    · cases h
    · injection h with h
      subst h
      rfl

/-- **A cursor that has lost nothing.** The stream stands at `image`; if the WAL still has the recorded
    salt `salt`, then the transactions behind the cursor lead from `image` to the committed image. -/
structure Behind (db : Db pageSize) (salt : Salt) (offset : Nat) (chain : Option Chain)
    (image : Bytes) : Prop where
  known : salt ∈ db.salts
  pending : ∀ g, db.wal = some g → g.salt = salt →
    g.StaleForeign ∧ ∃ done pending, g.txns = done ++ pending ∧ g.Cursor done (startPos offset) chain ∧
      db.image = applyAll pageSize.toNat (pending.map Txn.patch) image ∧
      Covered (image.length / pageSize.toNat) (pending.map Txn.patch)

/-- Whatever other connections do, a cursor that has lost nothing either still has lost nothing or faces
    another salt. -/
theorem Behind.act {salt : Salt} {image : Bytes} (hps : 0 < pageSize.toNat)
    (h : db.Behind salt offset chain image) (ha : db.act a = some db') : db'.Behind salt offset chain image := by
  obtain ⟨hsalts, hwal⟩ := act_wal ha
  refine ⟨hsalts _ h.known, ?_⟩
  intro g' hg' hsalt
  rcases hwal g' hg' with ⟨hg, himage⟩ | ⟨g, t, hg, rfl, hcov, himage⟩ | ⟨hfresh, -⟩
  · rw [himage]
    exact h.pending g' hg hsalt
  · -- the transaction joins the pending ones
    obtain ⟨hstale, done, pending, htx, hcur, himg, hcovered⟩ := h.pending g hg hsalt
    refine ⟨hstale.append t, done, pending ++ [t], ?_, ⟨hcur.start, hcur.chain⟩, ?_, ?_⟩
    · simp [Generation.append, htx]
    · rw [himage, himg, map_append, applyAll_append]
      rfl
    rw [map_append]
    apply hcovered.append
    refine ⟨?_, trivial⟩
    have hpages : db.pages = finalSize (image.length / pageSize.toNat) (pending.map Txn.patch) := by
      unfold pages
      rw [himg]
      rcases eq_nil_or_concat pending with rfl | ⟨init, t, rfl⟩
      · rfl
      · rw [concat_eq_append, map_append, applyAll_append]
        show (t.patch.apply pageSize.toNat _).length / _ = finalSize _ (_ ++ [t.patch])
        rw [length_apply, Nat.mul_div_cancel _ hps, finalSize_concat]
    rw [← hpages]
    exact hcov
  · -- a new generation has an unused salt
    exact absurd h.known (hsalt ▸ hfresh)

/-- **What a read returns** from a cursor that has lost nothing: either there is nothing to read, or the
    batch leads from the stream's image to the committed one, and the cursor behind it has again lost
    nothing. -/
theorem Behind.read {g : Generation pageSize} {image : Bytes} {r : PageMapRead} (hps : 0 < pageSize.toNat)
    (hwal : db.wal = some g) (h : db.Behind g.salt offset chain image)
    (hr : readFramesAsPageMapChecked g.bytes g.bytes pageSize offset chain = .ok r) :
    (r.pageMap = [] ∧ r.chain = chain) ∨
      (r.pageMap ≠ [] ∧ (r.pageMap.map Prod.fst).Nodup ∧ walHeaderSize < r.newOffset ∧
        db.image = paint pageSize.toNat (lastWrite (pageWrites r.pageMap)) r.finalDbSize.toNat image ∧
        r.chain.isSome ∧ db.Behind g.salt r.newOffset r.chain db.image) := by
  obtain ⟨hstale, done, pending, htx, hcur, himage, hcov⟩ := h.pending g hwal rfl
  have hseed : g.seed ≠ (0, 0) := by
    intro hzero
    rw [readFramesAsPageMapChecked_eq, Generation.headerSeed_bytes, if_pos hzero] at hr
    cases hr
  rw [Generation.read_cursor htx hstale hcur hseed] at hr
  injection hr with hr
  by_cases hnil : pending = []
  · left
    subst hnil hr
    exact ⟨rfl, rfl⟩
  right
  obtain ⟨r', hr', hp⟩ := Generation.read_pending htx hstale hcur hseed hnil
  rw [Generation.read_cursor htx hstale hcur hseed, hr] at hr'
  injection hr' with hr'
  subst hr'
  have hlen : 0 < (framesOf g.txns).length := by
    rw [length_pos_iff, Ne, framesOf_eq_nil, htx]
    exact fun h => hnil (append_eq_nil_iff.mp h).2
  have hframe := mul_pos hlen (Generation.frameSize_pos pageSize)
  refine ⟨hp.nonempty, hp.nodup, ?_, ?_, by rw [hp.chain]; rfl, ⟨h.known, ?_⟩⟩
  · rw [hp.offset, walHeaderSize]
    omega
  · rw [himage, applyAll_eq hps (by simpa using hnil) hcov, hp.size]
    apply paint_congr
    intro k _ _
    exact (hp.writes k).symm
  intro g' hg' _
  have hgg : g' = g := by
    rw [hwal] at hg'
    injection hg' with hg'
    exact hg'.symm
  subst hgg
  refine ⟨hstale, g'.txns, [], (append_nil _).symm, ⟨?_, fun _ => hp.chain⟩, rfl, trivial⟩
  rw [startPos, hp.offset, if_neg (by omega)]

/-- After a completed checkpoint and a commit into the emptied WAL, a cursor at the start of the file has
    lost nothing relative to the database file. -/
theorem behind_truncate (h : db.truncate.commit c = some db') :
    db'.main = db.image ∧ ∃ g, db'.wal = some g ∧ g.salt = c.salt ∧
      ∀ chain, db'.Behind c.salt 0 chain db'.main := by
  obtain ⟨hcov, himage, hmain, -, -, -, hcase⟩ := commit_eq_some h
  rcases hcase with ⟨g, hg, -⟩ | ⟨-, hsalts, -, -, stale, hstale, hwal⟩
  · cases hg
  refine ⟨hmain, _, hwal, rfl, ?_⟩
  intro chain
  refine ⟨hsalts ▸ mem_cons_self, ?_⟩
  intro g' hg' _
  rw [hwal] at hg'
  injection hg' with hg'
  subst hg'
  refine ⟨Generation.staleForeign_of_nil (hstale rfl), [], [c.txn], rfl,
    ⟨by simp [startPos, framesOf, walHeaderSize], ?_⟩, ?_, ?_⟩
  · intro hne
    exact absurd rfl hne
  · rw [himage, hmain]
    rfl
  · rw [hmain]
    exact ⟨hcov, trivial⟩

/-- **The frames under `salt` are gone**: the salt was used, and the WAL no longer has it. -/
structure Overwritten (db : Db pageSize) (salt : Salt) : Prop where
  known : salt ∈ db.salts
  gone : ∀ g, db.wal = some g → g.salt ≠ salt

/-- What is gone does not come back. -/
theorem Overwritten.act {salt : Salt} (h : db.Overwritten salt)
    (ha : db.act a = some db') : db'.Overwritten salt := by
  obtain ⟨hsalts, hwal⟩ := act_wal ha
  refine ⟨hsalts _ h.known, ?_⟩
  intro g' hg' hsalt
  rcases hwal g' hg' with ⟨hg, -⟩ | ⟨g, t, hg, rfl, -, -⟩ | ⟨hfresh, -⟩
  · exact h.gone g' hg hsalt
  · exact h.gone g hg hsalt
  · exact hfresh (hsalt ▸ h.known)

/-- Emptying the WAL and committing into it overwrites everything. -/
theorem overwritten_truncate (h : db.truncate.commit c = some db') {salt : Salt}
    (hsalt : salt ∈ db.salts) : db'.Overwritten salt := by
  have hgone : db.truncate.Overwritten salt := ⟨hsalt, fun g hg => (by cases hg)⟩
  exact hgone.act (a := .commit c) h

end Db

end Sqlite
end Walrust
