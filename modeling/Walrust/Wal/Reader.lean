import Walrust.Sqlite

/-!
# `Walrust.Wal.Reader` — the two checked readers, read by read

`read_frames_as_pages_checked` and `read_frames_as_page_map_checked` of `wal.rs`, with every file access of a
call kept apart: a `Sight` says what the WAL file holds at each access, so a call can be run against a file
that another process appends to or resets meanwhile. On a file that does not change (`still`) the page-map
reader is the one of `Walrust.Wal` (`readFramesAsPageMapCheckedAt_still`).

* `CommittedRun` — what a checked read is for: the longest run of frames that carry the header's salt and
  continue the checksum, cut back to its last commit frame;
* `checked_reads_committedRun` — both readers return that run, and nothing else;
* `polls_compose` — polling a growing WAL returns what one read of its last content returns.
-/

namespace Walrust
namespace Wal

open Lib.Bytes List RawFrame Except

variable {be : Bool} {fs : List RawFrame} {n : Nat} {file : Bytes} {chainSeed : Option Chain}
  {hs : Option HeaderSeed} {pageSize : UInt32}

/-! ## File accesses -/

/-- The file accesses of one call, in the order of the source. -/
inductive Access where
  | metadata
  | header
  /-- The 24-byte header of the `i`-th frame, in pass 1 or 2. -/
  | frameHeader (second : Bool) (i : Nat)
  | frameBody (second : Bool) (i : Nat)
  /-- `get_wal_size` of the stability check. -/
  | sizeAfter
  /-- The size and the 32 bytes `read_header` takes. -/
  | headerSizeAfter
  | headerAfter
  deriving DecidableEq, Repr

/-- The content of the WAL file at each access. -/
abbrev Sight := Access → Bytes

/-- Nothing changes while the frames are read; `after` is the file of the stability check. -/
def Sight.still (file after : Bytes) : Sight
  | .sizeAfter | .headerSizeAfter | .headerAfter => after
  | _ => file

/-- `seek` and `read_exact`. -/
def readExact (file : Bytes) (off len : Nat) : Except String Bytes :=
  if off + len ≤ file.length then .ok ((file.drop off).take len) else .error "unexpected end of file"

def headerSeedAt (s : Sight) : Except String (Option HeaderSeed) :=
  if (s .metadata).length < walHeaderSize then .ok none
  else
    match readExact (s .header) 0 walHeaderSize with
    | .error e => .error e
    | .ok header => headerSeed header

/-- The `i`-th frame from `start`, header and body each as the file is at that access. -/
def frameAt (s : Sight) (second : Bool) (pageSize : UInt32) (start i : Nat) : Except String RawFrame :=
  match readExact (s (.frameHeader second i)) (start + i * frameSize pageSize) frameHeaderSize,
      readExact (s (.frameBody second i)) (start + i * frameSize pageSize + frameHeaderSize)
        pageSize.toNat with
  | .ok header, .ok body => .ok ⟨header, body⟩
  | .error e, _ => .error e
  | _, .error e => .error e

def framesAt (s : Sight) (second : Bool) (pageSize : UInt32) (start n : Nat) :
    List (Except String RawFrame) :=
  (range n).map (frameAt s second pageSize start)

/-- `read_header` of the stability check. -/
def readHeaderAfter (s : Sight) : Except String (Option WalHeader) :=
  if (s .headerSizeAfter).length < walHeaderSize then .ok none
  else
    match readExact (s .headerAfter) 0 walHeaderSize with
    | .error e => .error e
    | .ok header => readHeader header

/-- `detect_reset_during_read`. -/
def detectResetAt (s : Sight) (committedEnd : Nat) (saltBefore : Option Salt) : Except String Unit :=
  if (s .sizeAfter).length < committedEnd then .error "WAL shrank during read; concurrent checkpoint/reset"
  else
    match saltBefore with
    | none => .ok ()
    | some before =>
      match readHeaderAfter s with
      | .error e => .error e
      | .ok none => .ok ()
      | .ok (some header) =>
        if header.salt ≠ before then
          .error "WAL header salt changed during read; concurrent checkpoint/reset"
        else .ok ()

/-! ## `read_frames_as_pages_checked` -/

structure ParsedFrame where
  pageNumber : UInt32
  dbSize : UInt32
  data : Bytes
  deriving DecidableEq, Repr

def RawFrame.parsed (f : RawFrame) : ParsedFrame := ⟨f.pageNumber, f.dbSize, f.body⟩

/-- The variables of the reading loop. -/
structure Scan where
  running : Chain
  frames : List ParsedFrame
  committedCount : Nat
  committedChain : Option Chain
  finalDbSize : UInt32
  deriving DecidableEq, Repr

/-- A frame that passed validation; `chain` is recorded if it is a commit frame. -/
def Scan.push (s : Scan) (f : RawFrame) (running : Chain) (chain : Option Chain) : Scan :=
  if f.isCommit then
    { running := running
      frames := s.frames ++ [f.parsed]
      committedCount := s.frames.length + 1
      committedChain := chain
      finalDbSize := f.dbSize }
  else { s with running := running, frames := s.frames ++ [f.parsed] }

/-- The loop over the frames; it breaks at the first frame that does not validate. -/
def scanFrames (v : Validation) (seedChain : Option Chain) :
    Scan → List (Except String RawFrame) → Except String Scan
  | s, [] => .ok s
  | _, .error e :: _ => .error e
  | s, .ok f :: rest =>
    match v with
    | none => scanFrames v seedChain (s.push f s.running seedChain) rest
    | some (bigEndian, salt) =>
      if f.salt ≠ salt then .ok s
      else
        match verifyFrameChecksum s.running f bigEndian with
        | some next => scanFrames v seedChain (s.push f next (some next)) rest
        | none => .ok s

structure PagesRead where
  frames : List ParsedFrame
  newOffset : Nat
  finalDbSize : UInt32
  chain : Option Chain
  deriving DecidableEq, Repr

def emptyPagesRead (start : Nat) (chainSeed : Option Chain) : PagesRead := ⟨[], start, 0, chainSeed⟩

/-- `read_frames_as_pages_checked`. -/
def readFramesAsPagesCheckedAt (s : Sight) (pageSize : UInt32) (startOffset : Nat)
    (chainSeed : Option Chain) : Except String PagesRead :=
  let start := startPos startOffset
  let size := (s .metadata).length
  match headerSeedAt s with
  | .error e => .error e
  | .ok hs =>
    if size ≤ start then .ok (emptyPagesRead start chainSeed)
    else if (size - start) / frameSize pageSize = 0 then .ok (emptyPagesRead start chainSeed)
    else
      let seed := readSeed hs start chainSeed
      let seedChain := outChain hs start chainSeed
      match scanFrames seed.2 seedChain ⟨seed.1, [], 0, seedChain, 0⟩
          (framesAt s false pageSize start ((size - start) / frameSize pageSize)) with
      | .error e => .error e
      | .ok scan =>
        if scan.committedCount = 0 then .ok (emptyPagesRead start chainSeed)
        else
          let newOffset := start + scan.committedCount * frameSize pageSize
          match detectResetAt s newOffset (hs.map (·.salt)) with
          | .error e => .error e
          | .ok () =>
            .ok ⟨scan.frames.take scan.committedCount, newOffset, scan.finalDbSize, scan.committedChain⟩

/-- The pages reader on a file that does not change while it is read. -/
def readFramesAsPagesChecked (file after : Bytes) (pageSize : UInt32) (startOffset : Nat)
    (chainSeed : Option Chain) : Except String PagesRead :=
  readFramesAsPagesCheckedAt (.still file after) pageSize startOffset chainSeed

/-! ## `read_frames_as_page_map_checked` -/

/-- Pass 1: the frames up to the first that does not validate. -/
def validatePass (v : Validation) : Chain → List (Except String RawFrame) → Except String (List RawFrame)
  | _, [] => .ok []
  | _, .error e :: _ => .error e
  | running, .ok f :: rest =>
    match v with
    | none => (f :: ·) <$> validatePass v running rest
    | some (bigEndian, salt) =>
      if f.salt ≠ salt then .ok []
      else
        match verifyFrameChecksum running f bigEndian with
        | some next => (f :: ·) <$> validatePass v next rest
        | none => .ok []

/-- Pass 2 over the committed frames: page numbers are those of pass 1, bodies and checksums are read
    again. -/
def replayPass (v : Validation) :
    Option Chain → PageMap → List (RawFrame × Except String RawFrame) → Except String (PageMap × Option Chain)
  | chain, m, [] => .ok (m, chain)
  | _, _, (_, .error e) :: _ => .error e
  | chain, m, (first, .ok f) :: rest =>
    match v, chain with
    | some (bigEndian, _), some seed =>
      match verifyFrameChecksum seed f bigEndian with
      | some next => replayPass v (some next) (m.insert first.pageNumber f.body) rest
      | none => .error "WAL frame failed checksum re-verification; concurrent checkpoint/reset suspected"
    | _, _ => replayPass v chain (m.insert first.pageNumber f.body) rest

/-- `read_frames_as_page_map_checked`. -/
def readFramesAsPageMapCheckedAt (s : Sight) (pageSize : UInt32) (startOffset : Nat)
    (chainSeed : Option Chain) : Except String PageMapRead :=
  let start := startPos startOffset
  let size := (s .metadata).length
  match headerSeedAt s with
  | .error e => .error e
  | .ok hs =>
    if size ≤ start then .ok (emptyRead start chainSeed)
    else if (size - start) / frameSize pageSize = 0 then .ok (emptyRead start chainSeed)
    else
      let seed := readSeed hs start chainSeed
      match validatePass seed.2 seed.1
          (framesAt s false pageSize start ((size - start) / frameSize pageSize)) with
      | .error e => .error e
      | .ok valid =>
        let committed := committedPart valid
        match committed.getLast? with
        | none => .ok (emptyRead start chainSeed)
        | some last =>
          match replayPass seed.2 (outChain hs start chainSeed) []
              (committed.zip (framesAt s true pageSize start committed.length)) with
          | .error e => .error e
          | .ok (pageMap, chain) =>
            let newOffset := start + committed.length * frameSize pageSize
            match detectResetAt s newOffset (hs.map (·.salt)) with
            | .error e => .error e
            | .ok () =>
              .ok { pageMap := pageMap
                    frameCount := committed.length
                    newOffset := newOffset
                    finalDbSize := last.dbSize
                    commitCount := committed.countP (·.isCommit)
                    chain := chain }

/-! ## Both readers, from pass 1 -/

section Scanning

variable (v : Validation) (seedChain : Option Chain) (seed : Chain)

/-- The running checksum after the frames `fs`; it stands still without validation. -/
def runningAfter (fs : List RawFrame) : Chain :=
  match v with
  | none => seed
  | some (bigEndian, _) => chainAfter bigEndian seed fs

/-- The chain recorded once the frames `batch` are committed. -/
def recordedChain (batch : List RawFrame) : Option Chain :=
  match v with
  | none => seedChain
  | some (bigEndian, _) => if batch = [] then seedChain else some (chainAfter bigEndian seed batch)

/-- The loop variables after the frames `fs`. -/
def scanOf (fs : List RawFrame) : Scan where
  running := runningAfter v seed fs
  frames := fs.map parsed
  committedCount := (committedPart fs).length
  committedChain := recordedChain v seedChain seed (committedPart fs)
  finalDbSize := ((committedPart fs).getLast?.map dbSize).getD 0

theorem committedPart_concat (fs : List RawFrame) (f : RawFrame) :
    committedPart (fs ++ [f]) = if f.isCommit then fs ++ [f] else committedPart fs := by
  rw [committedPart, rdropWhile_concat]
  cases h : f.isCommit <;> simp [committedPart]

theorem chainAfter_append (be : Bool) (a b : List RawFrame) :
    chainAfter be seed (a ++ b) = chainAfter be (chainAfter be seed a) b := by
  rw [chainAfter, foldl_append]
  rfl

theorem scanOf_concat (fs : List RawFrame) (f : RawFrame) (chain : Option Chain)
    (hchain : f.isCommit = true → chain = recordedChain v seedChain seed (fs ++ [f])) :
    scanOf v seedChain seed (fs ++ [f]) =
      (scanOf v seedChain seed fs).push f (runningAfter v seed (fs ++ [f])) chain := by
  cases h : f.isCommit with
  | false => simp [scanOf, Scan.push, committedPart_concat, h]
  | true => simp [scanOf, Scan.push, committedPart_concat, h, hchain h]

/-- The loop reads what pass 1 of the other reader reads. -/
theorem scanFrames_eq (done : List RawFrame) (reads : List (Except String RawFrame)) :
    scanFrames v seedChain (scanOf v seedChain seed done) reads =
      (validatePass v (runningAfter v seed done) reads).map
        fun valid => scanOf v seedChain seed (done ++ valid) := by
  induction reads generalizing done with
  | nil => simp [scanFrames, validatePass, Except.map]
  | cons r reads ih =>
    cases r with
    | error e => rfl
    | ok f =>
      have hstep : ∀ next chain, runningAfter v seed (done ++ [f]) = next →
          (f.isCommit = true → chain = recordedChain v seedChain seed (done ++ [f])) →
          scanFrames v seedChain ((scanOf v seedChain seed done).push f next chain) reads =
            ((f :: ·) <$> validatePass v next reads).map
              fun valid => scanOf v seedChain seed (done ++ valid) := by
        intro next chain hnext hchain
        rw [← hnext, ← scanOf_concat v seedChain seed done f chain hchain, ih]
        cases validatePass v (runningAfter v seed (done ++ [f])) reads with
        | error e => rfl
        | ok valid =>
          show ok (scanOf v seedChain seed (done ++ [f] ++ valid)) = _
          rw [append_assoc]
          rfl
      cases v with
      | none => exact hstep _ _ rfl fun _ => rfl
      | some v =>
        obtain ⟨be, salt⟩ := v
        unfold scanFrames validatePass
        simp only
        by_cases hsalt : f.salt ≠ salt
        · simp [hsalt, Except.map]
        rw [if_neg hsalt, if_neg hsalt]
        have hrun : (scanOf (some (be, salt)) seedChain seed done).running =
            runningAfter (some (be, salt)) seed done := rfl
        rw [hrun]
        cases hv : verifyFrameChecksum (runningAfter (some (be, salt)) seed done) f be with
        | none => simp [Except.map]
        | some next =>
          obtain ⟨hok, hnext⟩ := verifyFrameChecksum_some.mp hv
          have hafter : chainAfter be seed (done ++ [f]) = next := by
            rw [chainAfter_append, hnext, ← hok]
            rfl
          refine hstep next (some next) hafter fun _ => ?_
          rw [← hafter]
          simp [recordedChain]

theorem scanFrames_start (reads : List (Except String RawFrame)) :
    scanFrames v seedChain ⟨seed, [], 0, seedChain, 0⟩ reads =
      (validatePass v seed reads).map (scanOf v seedChain seed) := by
  have h := scanFrames_eq v seedChain seed [] reads
  cases v <;> exact h

end Scanning

theorem validatePass_ok {v : Validation} {seed : Chain} :
    validatePass v seed (fs.map .ok) = .ok (validFrames v seed fs) := by
  induction fs generalizing seed with
  | nil => rfl
  | cons f fs ih =>
    cases v with
    | none => simp only [map_cons, validatePass, ih]; rfl
    | some v =>
      obtain ⟨be, salt⟩ := v
      simp only [map_cons, validatePass, validFrames, ih]
      by_cases hsalt : f.salt ≠ salt
      · rw [if_pos hsalt, if_pos hsalt]
      · rw [if_neg hsalt, if_neg hsalt]
        cases verifyFrameChecksum seed f be <;> rfl

/-- The result of a pages read that returns `batch`. -/
def pagesBatch (pageSize : UInt32) (start : Nat) (chainSeed chain : Option Chain)
    (batch : List RawFrame) : PagesRead :=
  match batch.getLast? with
  | none => emptyPagesRead start chainSeed
  | some last => ⟨batch.map parsed, start + batch.length * frameSize pageSize, last.dbSize, chain⟩

theorem recordedChain_eq_batchChain {hs : Option HeaderSeed} {start : Nat} {chainSeed : Option Chain}
    {batch : List RawFrame} (hne : batch ≠ []) :
    recordedChain (readSeed hs start chainSeed).2 (outChain hs start chainSeed)
      (readSeed hs start chainSeed).1 batch = batchChain hs start chainSeed batch := by
  unfold recordedChain batchChain
  cases hv : (readSeed hs start chainSeed).2 with
  | none => exact outChain_of_unvalidated hv
  | some v => simp [hne]

/-- The pages reader, from pass 1: the loop's counters are those of the committed part of what validates. -/
theorem readFramesAsPagesCheckedAt_eq (s : Sight) (pageSize : UInt32) (startOffset : Nat) (chainSeed : Option Chain) :
    readFramesAsPagesCheckedAt s pageSize startOffset chainSeed =
      match headerSeedAt s with
      | .error e => .error e
      | .ok hs =>
        let start := startPos startOffset
        let n := ((s .metadata).length - start) / frameSize pageSize
        match validatePass (readSeed hs start chainSeed).2 (readSeed hs start chainSeed).1
            (framesAt s false pageSize start n) with
        | .error e => .error e
        | .ok valid =>
          let batch := committedPart valid
          if batch = [] then .ok (emptyPagesRead start chainSeed)
          else
            match detectResetAt s (start + batch.length * frameSize pageSize) (hs.map (·.salt)) with
            | .error e => .error e
            | .ok () => .ok (pagesBatch pageSize start chainSeed (batchChain hs start chainSeed batch) batch) := by
  unfold readFramesAsPagesCheckedAt
  cases headerSeedAt s with
  | error e => rfl
  | ok hs =>
    simp only
    generalize startPos startOffset = start
    generalize hn : ((s .metadata).length - start) / frameSize pageSize = n
    by_cases h0 : n = 0
    · -- both early exits read no frame
      rw [if_pos h0, ite_self, h0]
      rfl
    have hlen : ¬ (s .metadata).length ≤ start := by
      intro hle
      rw [Nat.sub_eq_zero_of_le hle, Nat.zero_div] at hn
      exact h0 hn.symm
    rw [if_neg hlen, if_neg h0, scanFrames_start]
    have hchain := fun batch hne => @recordedChain_eq_batchChain hs start chainSeed batch hne
    generalize readSeed hs start chainSeed = seed at hchain ⊢
    cases validatePass seed.2 seed.1 (framesAt s false pageSize start n) with
    | error e => rfl
    | ok valid =>
      have hcount : (scanOf seed.2 (outChain hs start chainSeed) seed.1 valid).committedCount =
          (committedPart valid).length := rfl
      simp only [Except.map, hcount]
      by_cases hb : committedPart valid = []
      · rw [if_pos hb, if_pos (by rw [hb]; rfl)]
      rw [if_neg hb, if_neg fun h => hb (length_eq_zero_iff.mp h)]
      cases detectResetAt s (start + (committedPart valid).length * frameSize pageSize)
          (hs.map (·.salt)) with
      | error e => rfl
      | ok _ =>
        obtain ⟨init, last, hlast⟩ := eq_nil_or_concat (committedPart valid) |>.resolve_left hb
        have htake : (valid.map parsed).take (committedPart valid).length =
            (committedPart valid).map parsed := by
          rw [← map_take, ← prefix_iff_eq_take.mp (committedPart_isPrefix valid)]
        simp only [scanOf, htake, hchain _ hb, pagesBatch]
        rw [hlast]
        simp

/-! ## A file that does not change -/

theorem rawFrames_eq_map (pageSize n : Nat) (bytes : Bytes) :
    rawFrames pageSize n bytes = (range n).map fun i =>
      ⟨(bytes.drop (i * (frameHeaderSize + pageSize))).take frameHeaderSize,
        (bytes.drop (i * (frameHeaderSize + pageSize) + frameHeaderSize)).take pageSize⟩ := by
  induction n generalizing bytes with
  | zero => rfl
  | succ n ih =>
    rw [range_succ_eq_map, rawFrames, ih]
    congr 1
    · simp
    rw [map_map]
    apply map_congr_left
    intro i _
    have h1 : frameHeaderSize + pageSize + i * (frameHeaderSize + pageSize) =
        (i + 1) * (frameHeaderSize + pageSize) := by ring
    have h2 : frameHeaderSize + pageSize + (i * (frameHeaderSize + pageSize) + frameHeaderSize) =
        (i + 1) * (frameHeaderSize + pageSize) + frameHeaderSize := by ring
    simp only [drop_drop, Function.comp_apply, h1, h2]

theorem framesAt_still {after : Bytes} {second : Bool} {start : Nat}
    (h : n ≤ (file.length - start) / frameSize pageSize) :
    framesAt (.still file after) second pageSize start n =
      (rawFrames pageSize.toNat n (file.drop start)).map .ok := by
  rw [rawFrames_eq_map, map_map]
  apply map_congr_left
  intro i hi
  have hi : i < n := mem_range.mp hi
  -- the last byte of frame `i` is inside the file
  have hend : start + (i + 1) * frameSize pageSize ≤ file.length := by
    have h1 : (i + 1) * frameSize pageSize ≤ (file.length - start) / frameSize pageSize * frameSize pageSize :=
      Nat.mul_le_mul_right _ (hi.trans_le h)
    have h2 := Nat.div_mul_le_self (file.length - start) (frameSize pageSize)
    have h3 : 0 < (i + 1) * frameSize pageSize :=
      mul_pos (Nat.succ_pos i) (Sqlite.Generation.frameSize_pos pageSize)
    omega
  have hsize : (i + 1) * frameSize pageSize = i * frameSize pageSize + (frameHeaderSize + pageSize.toNat) := by
    rw [Nat.succ_mul]
    rfl
  have hheader : readExact file (start + i * frameSize pageSize) frameHeaderSize =
      .ok ((file.drop (start + i * frameSize pageSize)).take frameHeaderSize) := if_pos (by omega)
  have hbody : readExact file (start + i * frameSize pageSize + frameHeaderSize) pageSize.toNat =
      .ok ((file.drop (start + i * frameSize pageSize + frameHeaderSize)).take pageSize.toNat) :=
    if_pos (by omega)
  simp only [frameAt, Sight.still, hheader, hbody, Function.comp_apply, drop_drop]
  rw [frameSize, add_assoc start]

theorem validatePass_still (file after : Bytes) (pageSize : UInt32) (start : Nat) (v : Validation) (seed : Chain) :
    validatePass v seed (framesAt (.still file after) false pageSize start
        ((file.length - start) / frameSize pageSize)) =
      .ok (validFrames v seed (framesFrom file pageSize start)) := by
  rw [framesAt_still le_rfl]
  exact validatePass_ok

theorem u32At_take {off len : Nat} (h : off + 4 ≤ len) : u32At (file.take len) off = u32At file off := by
  rw [u32At, u32At, field_take h]

/-- The header's 32 bytes decide what the reader takes from it. -/
theorem headerSeed_take (h : walHeaderSize ≤ file.length) :
    headerSeed (file.take walHeaderSize) = headerSeed file := by
  have hlen : ¬ (file.take walHeaderSize).length < walHeaderSize := by
    rw [length_take]
    omega
  unfold headerSeed
  rw [if_neg hlen, if_neg (not_lt.mpr h), take_take, Nat.min_self,
    u32At_take (by decide), u32At_take (by decide), u32At_take (by decide)]

theorem readHeader_take (h : walHeaderSize ≤ file.length) :
    readHeader (file.take walHeaderSize) = readHeader file := by
  have hlen : ¬ (file.take walHeaderSize).length < walHeaderSize := by
    rw [length_take]
    omega
  unfold readHeader
  rw [if_neg hlen, if_neg (not_lt.mpr h)]
  simp [u32At_take, walHeaderSize]

/-- A parser of the header gets the file's first bytes. -/
theorem parse_still {α : Type} {parse : Bytes → Except String (Option α)}
    (hshort : file.length < walHeaderSize → parse file = .ok none)
    (htake : walHeaderSize ≤ file.length → parse (file.take walHeaderSize) = parse file) :
    (if file.length < walHeaderSize then .ok none
      else match readExact file 0 walHeaderSize with
        | .error e => .error e
        | .ok header => parse header) = parse file := by
  by_cases h : file.length < walHeaderSize
  · rw [if_pos h, hshort h]
  · have hread : readExact file 0 walHeaderSize = .ok (file.take walHeaderSize) :=
      if_pos (by omega)
    rw [if_neg h, hread]
    exact htake (not_lt.mp h)

theorem headerSeedAt_still (file after : Bytes) : headerSeedAt (.still file after) = headerSeed file :=
  parse_still (fun h => if_pos h) headerSeed_take

theorem detectResetAt_still (file after : Bytes) (committedEnd : Nat) (saltBefore : Option Salt) :
    detectResetAt (.still file after) committedEnd saltBefore =
      detectResetDuringRead after committedEnd saltBefore := by
  have hheader : readHeaderAfter (.still file after) = readHeader after :=
    parse_still (fun h => if_pos h) readHeader_take
  unfold detectResetAt detectResetDuringRead
  rw [hheader]
  rfl

/-- **The pages reader, in one equation**: on a file that does not change under it, it returns the same
    batch as the page-map reader. -/
theorem readFramesAsPagesChecked_eq {startOffset : Nat} :
    readFramesAsPagesChecked file file pageSize startOffset chainSeed =
      match headerSeed file with
      | .error e => .error e
      | .ok hs =>
        let batch := committedBatch hs file pageSize (startPos startOffset) chainSeed
        .ok (pagesBatch pageSize (startPos startOffset) chainSeed
          (batchChain hs (startPos startOffset) chainSeed batch) batch) := by
  rw [readFramesAsPagesChecked, readFramesAsPagesCheckedAt_eq, headerSeedAt_still]
  cases hhs : headerSeed file with
  | error e => rfl
  | ok hs =>
    simp only
    generalize startPos startOffset = start
    rw [show (Sight.still file file .metadata) = file from rfl, validatePass_still]
    have hbatch : committedPart (validFrames (readSeed hs start chainSeed).2 (readSeed hs start chainSeed).1
        (framesFrom file pageSize start)) = committedBatch hs file pageSize start chainSeed := rfl
    simp only [hbatch]
    have hle := committedBatch_length_le hs file pageSize start chainSeed
    by_cases hb : committedBatch hs file pageSize start chainSeed = []
    · rw [if_pos hb, hb]
      rfl
    · rw [if_neg hb]
      have hpos : 0 < (committedBatch hs file pageSize start chainSeed).length * frameSize pageSize :=
        mul_pos (length_pos_iff.mpr hb) (Sqlite.Generation.frameSize_pos pageSize)
      rw [detectResetAt_still, detectReset_self hhs (by omega)]

theorem rawFrames_take {pageSize m : Nat} {bytes : Bytes} (h : m ≤ n) :
    (rawFrames pageSize n bytes).take m = rawFrames pageSize m bytes := by
  rw [rawFrames_eq_map, rawFrames_eq_map, ← map_take, take_range, min_eq_left h]

theorem committedBatch_eq_rawFrames {start : Nat} :
    committedBatch hs file pageSize start chainSeed =
      rawFrames pageSize.toNat (committedBatch hs file pageSize start chainSeed).length (file.drop start) ∧
    (committedBatch hs file pageSize start chainSeed).length ≤ (file.length - start) / frameSize pageSize := by
  have hpre : committedBatch hs file pageSize start chainSeed <+: framesFrom file pageSize start :=
    (committedPart_isPrefix _).trans (validFrames_sublist _ _ _)
  have hlen := hpre.length_le
  rw [framesFrom, length_rawFrames] at hlen
  refine ⟨?_, hlen⟩
  conv_lhs => rw [prefix_iff_eq_take.mp hpre, framesFrom, rawFrames_take hlen]

/-- Pass 2 over frames that read back as they were in pass 1. -/
theorem replayPass_ok (v : Validation) (chain : Option Chain) (m : PageMap) (fs : List RawFrame) :
    replayPass v chain m (fs.zip (fs.map .ok)) =
      (replayChain v chain fs).map fun c => (fs.foldl (fun m f => m.insert f.pageNumber f.body) m, c) := by
  induction fs generalizing chain m with
  | nil => rfl
  | cons f fs ih =>
    rw [map_cons, zip_cons_cons, foldl_cons]
    rcases v with _ | ⟨be, salt⟩
    · exact ih ..
    rcases chain with _ | seed
    · exact ih ..
    rw [replayPass, replayChain]
    cases verifyFrameChecksum seed f be with
    | none => rfl
    | some next => exact ih ..

/-- **The page-map reader on a still file**: with every access on the same content, the two passes are the one
    function of `Walrust.Wal`. -/
theorem readFramesAsPageMapCheckedAt_still (file after : Bytes) (pageSize : UInt32) (startOffset : Nat)
    (chainSeed : Option Chain) :
    readFramesAsPageMapCheckedAt (.still file after) pageSize startOffset chainSeed =
      readFramesAsPageMapChecked file after pageSize startOffset chainSeed := by
  unfold readFramesAsPageMapCheckedAt readFramesAsPageMapChecked
  rw [headerSeedAt_still, show Sight.still file after .metadata = file from rfl]
  cases headerSeed file with
  | error e => rfl
  | ok hs =>
    obtain ⟨hraw, hlen⟩ := @committedBatch_eq_rawFrames file chainSeed hs pageSize (startPos startOffset)
    have hbatch : committedPart (validFrames (readSeed hs (startPos startOffset) chainSeed).2
        (readSeed hs (startPos startOffset) chainSeed).1 (framesFrom file pageSize (startPos startOffset))) =
        committedBatch hs file pageSize (startPos startOffset) chainSeed := rfl
    simp only [validatePass_still, hbatch, framesAt_still hlen, ← hraw, replayPass_ok, replayChain_batch,
      detectResetAt_still]
    rfl

/-! ## What a checked read is for -/

/-- The first `n` frames of `fs` carry the header's salt, and each the cumulative checksum of the frames up to
    it. -/
def Continues (bigEndian : Bool) (salt : Salt) (seed : Chain) (fs : List RawFrame) (n : Nat) : Prop :=
  n ≤ fs.length ∧ ∀ i f, i < n → fs[i]? = some f →
    f.salt = salt ∧ f.stored = chainAfter bigEndian seed (fs.take (i + 1))

/-- `run` is empty or ends in a commit frame. -/
def EndsInCommit (run : List RawFrame) : Prop := ∀ f, run.getLast? = some f → f.isCommit = true

/-- `run` is the longest run of `fs` that continues the chain, cut back to its last commit frame. -/
structure CommittedRun (bigEndian : Bool) (salt : Salt) (seed : Chain) (fs run : List RawFrame) : Prop where
  /-- The longest run, and `run` within it. -/
  longest : ∃ n, Continues bigEndian salt seed fs n ∧ ¬ Continues bigEndian salt seed fs (n + 1) ∧
    run <+: fs.take n ∧ ∀ other, other <+: fs.take n → EndsInCommit other → other.length ≤ run.length
  commit : EndsInCommit run

theorem continues_cons {salt : Salt} {seed : Chain} {f : RawFrame} :
    Continues be salt seed (f :: fs) (n + 1) ↔
      f.salt = salt ∧ f.running be seed = f.stored ∧ Continues be salt f.stored fs n := by
  constructor
  · rintro ⟨hlen, h⟩
    obtain ⟨hsalt, hstored⟩ := h 0 f (Nat.succ_pos n) rfl
    have hrun : f.running be seed = f.stored := hstored.symm
    refine ⟨hsalt, hrun, Nat.le_of_succ_le_succ hlen, ?_⟩
    intro i g hi hg
    obtain ⟨hs, hst⟩ := h (i + 1) g (Nat.succ_lt_succ hi) hg
    refine ⟨hs, ?_⟩
    rw [hst, ← hrun]
    rfl
  · rintro ⟨hsalt, hrun, hlen, h⟩
    refine ⟨Nat.succ_le_succ hlen, ?_⟩
    intro i g hi hg
    cases i with
    | zero =>
      obtain rfl : f = g := Option.some.inj hg
      exact ⟨hsalt, hrun.symm⟩
    | succ i =>
      obtain ⟨hs, hst⟩ := h i g (Nat.lt_of_succ_lt_succ hi) hg
      refine ⟨hs, ?_⟩
      rw [hst, ← hrun]
      rfl

theorem validFrames_cons (be : Bool) (salt : Salt) (seed : Chain) (f : RawFrame) (fs : List RawFrame) :
    validFrames (some (be, salt)) seed (f :: fs) =
      if f.salt = salt ∧ f.running be seed = f.stored then f :: validFrames (some (be, salt)) f.stored fs
      else [] := by
  conv_lhs => unfold validFrames
  simp only [verifyFrameChecksum]
  by_cases hsalt : f.salt = salt
  · by_cases hrun : f.running be seed = f.stored
    · simp [hrun]
    · simp [hrun]
  · simp [hsalt]

/-- Pass 1 stops exactly where the chain breaks. -/
theorem continues_validFrames (be : Bool) (salt : Salt) (seed : Chain) (fs : List RawFrame) :
    Continues be salt seed fs (validFrames (some (be, salt)) seed fs).length ∧
      ¬ Continues be salt seed fs ((validFrames (some (be, salt)) seed fs).length + 1) := by
  induction fs generalizing seed with
  | nil =>
    refine ⟨⟨le_refl 0, fun i f hi => absurd hi (Nat.not_lt_zero i)⟩, ?_⟩
    rintro ⟨hlen, -⟩
    exact absurd hlen (Nat.not_succ_le_zero _)
  | cons f fs ih =>
    have hzero : Continues be salt seed (f :: fs) 0 :=
      ⟨Nat.zero_le _, fun i g hi => absurd hi (Nat.not_lt_zero i)⟩
    rw [validFrames_cons]
    by_cases h : f.salt = salt ∧ f.running be seed = f.stored
    · rw [if_pos h]
      obtain ⟨hc, hn⟩ := ih f.stored
      exact ⟨continues_cons.mpr ⟨h.1, h.2, hc⟩, fun h => hn (continues_cons.mp h).2.2⟩
    · rw [if_neg h]
      refine ⟨hzero, fun hone => h ?_⟩
      obtain ⟨hsalt, hrun, -⟩ := continues_cons.mp hone
      exact ⟨hsalt, hrun⟩

theorem endsInCommit_committedPart (fs : List RawFrame) : EndsInCommit (committedPart fs) := by
  induction fs using reverseRecOn with
  | nil => exact fun f hf => by cases hf
  | append_singleton fs f ih =>
    rw [committedPart_concat]
    by_cases h : f.isCommit = true
    · rw [if_pos h]
      intro g hg
      rw [List.getLast?_concat] at hg
      cases hg
      exact h
    · rw [if_neg h]
      exact ih

/-- The committed part is the longest prefix that ends in a commit frame. -/
theorem length_le_committedPart {other : List RawFrame} (hpre : other <+: fs) (h : EndsInCommit other) :
    other.length ≤ (committedPart fs).length := by
  induction fs using reverseRecOn with
  | nil =>
    rw [prefix_nil.mp hpre]
    exact Nat.zero_le _
  | append_singleton fs f ih =>
    rw [committedPart_concat]
    rcases prefix_concat_iff.mp hpre with rfl | hpre
    · rw [if_pos (h f List.getLast?_concat)]
    · by_cases hf : f.isCommit = true
      · rw [if_pos hf]
        exact hpre.length_le.trans (by simp)
      · rw [if_neg hf]
        exact ih hpre

theorem committedRun_committedPart (be : Bool) (salt : Salt) (seed : Chain) (fs : List RawFrame) :
    CommittedRun be salt seed fs (committedPart (validFrames (some (be, salt)) seed fs)) := by
  obtain ⟨hc, hn⟩ := continues_validFrames be salt seed fs
  have htake := prefix_iff_eq_take.mp (validFrames_sublist (some (be, salt)) seed fs)
  refine ⟨⟨_, hc, hn, ?_, ?_⟩, endsInCommit_committedPart _⟩
  · rw [← htake]
    exact committedPart_isPrefix _
  · intro other hother hcommit
    rw [← htake] at hother
    exact length_le_committedPart hother hcommit

theorem Continues.mono {salt : Salt} {seed : Chain} {m : Nat} (h : Continues be salt seed fs n) (hm : m ≤ n) :
    Continues be salt seed fs m :=
  ⟨hm.trans h.1, fun i f hi hf => h.2 i f (hi.trans_le hm) hf⟩

theorem CommittedRun.unique {salt : Salt} {seed : Chain} {run run' : List RawFrame}
    (h : CommittedRun be salt seed fs run) (h' : CommittedRun be salt seed fs run') : run = run' := by
  obtain ⟨n, hn, hstop, hpre, hmax⟩ := h.longest
  obtain ⟨n', hn', hstop', hpre', hmax'⟩ := h'.longest
  obtain rfl : n = n' := by
    rcases lt_trichotomy n n' with hlt | heq | hlt
    · exact absurd (hn'.mono hlt) hstop
    · exact heq
    · exact absurd (hn.mono hlt) hstop'
  have hlen : run.length = run'.length :=
    le_antisymm (hmax' run hpre h.commit) (hmax run' hpre' h'.commit)
  rw [prefix_iff_eq_take.mp hpre, prefix_iff_eq_take.mp hpre', hlen]

/-- The last frame of a run carries the checksum of the whole run. -/
theorem CommittedRun.last_stored {salt : Salt} {seed : Chain} {run : List RawFrame}
    (h : CommittedRun be salt seed fs run) {last : RawFrame} (hlast : run.getLast? = some last) :
    last.stored = chainAfter be seed run := by
  obtain ⟨n, hn, -, hpre, -⟩ := h.longest
  have hfs : run <+: fs := hpre.trans ( take_prefix n fs)
  have hpos : 0 < run.length := by
    cases run with
    | nil => cases hlast
    | cons f run => exact Nat.succ_pos _
  have hget : fs[run.length - 1]? = some last := by
    rw [List.getLast?_eq_getElem?] at hlast
    obtain ⟨rest, rfl⟩ := hfs
    rw [← hlast, List.getElem?_append_left (by omega)]
  have hlt : run.length - 1 < n := by
    have hle := hpre.length_le
    rw [length_take] at hle
    omega
  rw [(hn.2 _ last hlt hget).2, Nat.sub_add_cancel hpos, ← prefix_iff_eq_take.mp hfs]

/-- The page map of a run: the last version of each page. -/
theorem mem_pageMapOf_iff {page : UInt32} {data : Bytes} :
    (page, data) ∈ pageMapOf fs ↔
      (fs.reverse.find? fun f => f.pageNumber = page).map body = some data := by
  induction fs using reverseRecOn with
  | nil => simp [pageMapOf]
  | append_singleton fs f ih =>
    rw [Sqlite.pageMapOf_append_singleton, PageMap.insert, mem_append, mem_filter, mem_singleton, reverse_concat]
    by_cases hpage : f.pageNumber = page
    · subst hpage
      rw [List.find?_cons_of_pos (by simp)]
      simp only [ne_eq, not_true_eq_false, decide_false, Bool.false_eq_true, and_false, false_or,
        Prod.mk.injEq, true_and, Option.map_some, Option.some.injEq]
      exact ⟨Eq.symm, Eq.symm⟩
    · rw [List.find?_cons_of_neg (by simpa using hpage), ← ih]
      simp [Ne.symm hpage]

/-- **Both checked readers return the valid committed prefix.** On a WAL with a valid header, read from its
    first frame or behind it with a running checksum, the pages reader returns the frames of the longest run
    that carries the header's salt and continues the checksum, cut back to its last commit frame, with that
    frame's end, database size and checksum; the page-map reader returns the last version of each page of the
    same frames. A read that finds no such frame leaves the cursor where it was. -/
theorem checked_reads_committedRun {file : Bytes} {h : HeaderSeed} (hheader : headerSeed file = .ok (some h))
    (pageSize : UInt32) (offset : Nat) (chainSeed : Option Chain) (seed : Chain)
    (hseed : startPos offset = walHeaderSize ∧ seed = h.seed ∨
      startPos offset ≠ walHeaderSize ∧ chainSeed = some seed) :
    ∃ run, CommittedRun h.bigEndian h.salt seed (framesFrom file pageSize (startPos offset)) run ∧
      (∀ other, CommittedRun h.bigEndian h.salt seed (framesFrom file pageSize (startPos offset)) other →
        other = run) ∧
      readFramesAsPagesChecked file file pageSize offset chainSeed = .ok
        { frames := run.map RawFrame.parsed
          newOffset := startPos offset + run.length * frameSize pageSize
          finalDbSize := (run.getLast?.map RawFrame.dbSize).getD 0
          chain := (run.getLast?.map RawFrame.stored).or chainSeed } ∧
      ∃ pageMap, readFramesAsPageMapChecked file file pageSize offset chainSeed = .ok
          { pageMap := pageMap
            frameCount := run.length
            newOffset := startPos offset + run.length * frameSize pageSize
            finalDbSize := (run.getLast?.map RawFrame.dbSize).getD 0
            commitCount := run.countP (·.isCommit)
            chain := (run.getLast?.map RawFrame.stored).or chainSeed } ∧
        ∀ page data, (page, data) ∈ pageMap ↔
          (run.reverse.find? fun f => f.pageNumber = page).map RawFrame.body = some data := by
  have hread : readSeed (some h) (startPos offset) chainSeed = (seed, some (h.bigEndian, h.salt)) := by
    rcases hseed with ⟨hstart, rfl⟩ | ⟨hstart, rfl⟩ <;> simp [readSeed, hstart]
  have hrun := committedRun_committedPart h.bigEndian h.salt seed (framesFrom file pageSize (startPos offset))
  have hbatch : committedBatch (some h) file pageSize (startPos offset) chainSeed =
      committedPart (validFrames (some (h.bigEndian, h.salt)) seed
        (framesFrom file pageSize (startPos offset))) := by
    rw [committedBatch, hread]
  rw [← hbatch] at hrun
  generalize hgen : committedBatch (some h) file pageSize (startPos offset) chainSeed = run at hrun
  have hchain : batchChain (some h) (startPos offset) chainSeed run =
      some (chainAfter h.bigEndian seed run) := by
    rw [batchChain, hread]
  refine ⟨run, hrun, fun other ho => ho.unique hrun, ?_, pageMapOf run, ?_, fun page data => mem_pageMapOf_iff⟩
  · rw [readFramesAsPagesChecked_eq, hheader]
    simp only [hgen, pagesBatch, hchain]
    cases hlast : run.getLast? with
    | none => simp [List.getLast?_eq_none_iff.mp hlast, emptyPagesRead]
    | some last => simp [← hrun.last_stored hlast]
  · rw [readFramesAsPageMapChecked_eq, hheader]
    simp only [hgen, batchRead, hchain]
    cases hlast : run.getLast? with
    | none => simp [List.getLast?_eq_none_iff.mp hlast, emptyRead, pageMapOf]
    | some last => simp [← hrun.last_stored hlast]

theorem two_ne_zero_u32 : (2 : UInt32) ≠ 0 := by decide

/-- A WAL with one-page commits, each filling page 2 with one byte. -/
def fillTwo (bs : List UInt8) : Sqlite.Generation 512 where
  salt := (1, 2)
  checkpointSeq := 0
  bigEndian := false
  txns := bs.map fun b =>
    { pages := [(2, replicate 512 b)]
      dbSize := 2
      nonempty := cons_ne_nil _ _
      pageNum := by
        intro p hp
        rw [mem_singleton.mp hp]
        exact two_ne_zero_u32
      dataLen := by
        intro p hp
        rw [mem_singleton.mp hp]
        exact length_replicate
      sizePos := two_ne_zero_u32 }
  stale := []

theorem headerSeed_fillTwo (bs : List UInt8) :
    headerSeed (fillTwo bs).bytes = .ok (some ⟨(fillTwo []).seed, false, (1, 2)⟩) := by
  have hseed : (fillTwo bs).seed ≠ (0, 0) := by
    show (fillTwo []).seed ≠ (0, 0)
    decide +kernel
  rw [Sqlite.Generation.headerSeed_bytes, if_neg hseed]
  rfl

/-- Read from the start, a WAL with two commits gives both. -/
theorem checked_reads_fillTwo :
    ∃ run : List RawFrame, run.length = 2 ∧
      readFramesAsPagesChecked (fillTwo [7, 8]).bytes (fillTwo [7, 8]).bytes 512 0 none = .ok
        { frames := run.map RawFrame.parsed
          newOffset := 32 + run.length * 536
          finalDbSize := (run.getLast?.map RawFrame.dbSize).getD 0
          chain := (run.getLast?.map RawFrame.stored).or none } := by
  obtain ⟨run, -, -, hpages, -⟩ := checked_reads_committedRun (headerSeed_fillTwo [7, 8]) 512 0 none _
    (.inl ⟨rfl, rfl⟩)
  have hlen : (readFramesAsPagesChecked (fillTwo [7, 8]).bytes (fillTwo [7, 8]).bytes 512 0 none).toOption.map
      (·.frames.length) = some 2 := by decide +kernel
  rw [hpages] at hlen
  refine ⟨run, ?_, hpages⟩
  simpa [Except.toOption] using hlen

/-! ## Polling a growing WAL -/

theorem validFrames_of_prefix {v : Validation} {seed : Chain} {part : List RawFrame}
    (h : part <+: validFrames v seed fs) : validFrames v seed part = part := by
  induction part generalizing seed fs with
  | nil => rfl
  | cons f part ih =>
    cases fs with
    | nil => exact absurd (prefix_nil.mp h) (cons_ne_nil _ _)
    | cons g fs =>
      cases v with
      | none =>
        obtain ⟨rfl, hrest⟩ := cons_prefix_cons.mp h
        exact congrArg (f :: ·) (ih hrest)
      | some v =>
        rw [validFrames_cons] at h ⊢
        by_cases hg : g.salt = v.2 ∧ g.running v.1 seed = g.stored
        · rw [if_pos hg] at h
          obtain ⟨rfl, hrest⟩ := cons_prefix_cons.mp h
          rw [if_pos hg, ih hrest]
        · rw [if_neg hg] at h
          exact absurd (prefix_nil.mp h) (cons_ne_nil _ _)

/-- Pass 1 goes on behind frames that validate. -/
theorem validFrames_append {v : Validation} {seed : Chain} {a : List RawFrame} {b : List RawFrame}
    (h : validFrames v seed a = a) :
    validFrames v seed (a ++ b) = a ++ validFrames v (runningAfter v seed a) b := by
  induction a generalizing seed with
  | nil => cases v <;> rfl
  | cons f a ih =>
    cases v with
    | none =>
      have ha : validFrames none seed a = a := (List.cons.inj h).2
      exact congrArg (f :: ·) (ih ha)
    | some v =>
      rw [validFrames_cons] at h
      rw [cons_append, validFrames_cons]
      by_cases hf : f.salt = v.2 ∧ f.running v.1 seed = f.stored
      · rw [if_pos hf] at h ⊢
        have hrun : runningAfter (some v) seed (f :: a) = runningAfter (some v) f.stored a := by
          rw [← hf.2]
          rfl
        rw [ih (List.cons.inj h).2, hrun]
        rfl
      · rw [if_neg hf] at h
        cases h

theorem committedPart_append {a : List RawFrame} {b : List RawFrame} (h : EndsInCommit a) :
    committedPart (a ++ b) = a ++ committedPart b := by
  induction b using reverseRecOn with
  | nil =>
    rcases eq_nil_or_concat a with rfl | ⟨init, last, rfl⟩
    · rfl
    · rw [concat_eq_append] at h ⊢
      have hlast := h last List.getLast?_concat
      rw [append_nil, committedPart_concat, if_pos hlast]
      exact (append_nil _).symm
  | append_singleton b f ih =>
    rw [← append_assoc, committedPart_concat, committedPart_concat, ih]
    by_cases hf : f.isCommit = true
    · rw [if_pos hf, if_pos hf, append_assoc]
    · rw [if_neg hf, if_neg hf]

theorem rawFrames_add (pageSize m n : Nat) (bytes : Bytes) :
    rawFrames pageSize (m + n) bytes =
      rawFrames pageSize m bytes ++ rawFrames pageSize n (bytes.drop (m * (frameHeaderSize + pageSize))) := by
  induction m generalizing bytes with
  | zero => simp [rawFrames]
  | succ m ih =>
    have hsucc : m + 1 + n = (m + n) + 1 := by omega
    have hdrop : frameHeaderSize + pageSize + m * (frameHeaderSize + pageSize) =
        (m + 1) * (frameHeaderSize + pageSize) := by ring
    rw [hsucc, rawFrames, rawFrames, ih, drop_drop, hdrop, cons_append]

/-- The first `n` frames are read from their own bytes. -/
theorem rawFrames_congr {pageSize : Nat} {a b : Bytes}
    (h : a.take (n * (frameHeaderSize + pageSize)) = b.take (n * (frameHeaderSize + pageSize))) :
    rawFrames pageSize n a = rawFrames pageSize n b := by
  have hslice : ∀ {off len : Nat}, off + len ≤ n * (frameHeaderSize + pageSize) →
      (a.drop off).take len = (b.drop off).take len := by
    intro off len hle
    have hcut : ∀ bs : Bytes, (bs.drop off).take len =
        ((bs.take (n * (frameHeaderSize + pageSize))).drop off).take len := by
      intro bs
      rw [drop_take, take_take, min_eq_left (by omega)]
    rw [hcut a, hcut b, h]
  rw [rawFrames_eq_map, rawFrames_eq_map]
  apply map_congr_left
  intro i hi
  have hi : i < n := mem_range.mp hi
  have hend : i * (frameHeaderSize + pageSize) + (frameHeaderSize + pageSize) ≤
      n * (frameHeaderSize + pageSize) := by
    rw [← Nat.succ_mul]
    exact Nat.mul_le_mul_right _ hi
  rw [hslice (by omega), hslice (by omega)]

/-- Behind a batch, the chain it leaves seeds the read as the batch's own frames would. -/
theorem readSeed_batchChain {hs : Option HeaderSeed} {start next : Nat} {chain : Option Chain}
    (batch : List RawFrame) (hnext : next ≠ walHeaderSize) :
    readSeed hs next (batchChain hs start chain batch) =
      (runningAfter (readSeed hs start chain).2 (readSeed hs start chain).1 batch,
        (readSeed hs start chain).2) := by
  unfold batchChain readSeed runningAfter
  cases hs with
  | none => rfl
  | some h =>
    by_cases hstart : start = walHeaderSize
    · simp [hstart, hnext]
    · cases chain <;> simp [hstart, hnext]

theorem behind_ne_header {start : Nat} {batch : List RawFrame} (hps : 512 ≤ pageSize.toNat)
    (hb : batch ≠ []) : start + batch.length * frameSize pageSize ≠ walHeaderSize := by
  have hle : frameSize pageSize ≤ batch.length * frameSize pageSize :=
    Nat.le_mul_of_pos_left _ (length_pos_iff.mpr hb)
  rw [frameSize, frameHeaderSize] at hle ⊢
  rw [walHeaderSize]
  omega

section Compose

variable {file' : Bytes} {start : Nat} {chain : Option Chain}

/-- The cursor's chain behind a read that returns `batch`. -/
def nextChain (hs : Option HeaderSeed) (start : Nat) (chain : Option Chain) (batch : List RawFrame) :
    Option Chain :=
  if batch = [] then chain else batchChain hs start chain batch

/-- **Two reads are one.** A file that agrees with an earlier content up to the end of the batch read from it
    holds that batch, followed by what a second read from there returns. -/
theorem committedBatch_compose (hps : 512 ≤ pageSize.toNat)
    (hagree : file'.take (start + (committedBatch hs file pageSize start chain).length * frameSize pageSize) =
      file.take (start + (committedBatch hs file pageSize start chain).length * frameSize pageSize)) :
    committedBatch hs file' pageSize start chain =
      committedBatch hs file pageSize start chain ++
        committedBatch hs file' pageSize
          (start + (committedBatch hs file pageSize start chain).length * frameSize pageSize)
          (nextChain hs start chain (committedBatch hs file pageSize start chain)) := by
  obtain ⟨hraw, hcount⟩ := committedBatch_eq_rawFrames
  have hlen := committedBatch_length_le hs file pageSize start chain
  have hvalid : validFrames (readSeed hs start chain).2 (readSeed hs start chain).1
      (committedBatch hs file pageSize start chain) = committedBatch hs file pageSize start chain :=
    validFrames_of_prefix (committedPart_isPrefix _)
  have hcommit : EndsInCommit (committedBatch hs file pageSize start chain) := endsInCommit_committedPart _
  generalize committedBatch hs file pageSize start chain = batch at *
  by_cases hb : batch = []
  · subst hb
    simp [nextChain]
  have hbytes : 0 < batch.length * frameSize pageSize :=
    mul_pos (length_pos_iff.mpr hb) (Sqlite.Generation.frameSize_pos pageSize)
  -- the batch's bytes are in both files
  have hlen' : start + batch.length * frameSize pageSize ≤ file'.length := by
    have h := congrArg List.length hagree
    rw [length_take, length_take] at h
    omega
  have hdiv : (file'.length - start) / frameSize pageSize =
      batch.length + (file'.length - (start + batch.length * frameSize pageSize)) / frameSize pageSize := by
    have hsplit : file'.length - start =
        file'.length - (start + batch.length * frameSize pageSize) + batch.length * frameSize pageSize := by
      omega
    rw [hsplit, Nat.add_mul_div_right _ _ (Sqlite.Generation.frameSize_pos pageSize), add_comm]
  have hsame : rawFrames pageSize.toNat batch.length (file'.drop start) = batch := by
    refine Eq.trans (rawFrames_congr ?_) hraw.symm
    have hsum : batch.length * (frameHeaderSize + pageSize.toNat) =
        start + batch.length * frameSize pageSize - start := by
      rw [Nat.add_sub_cancel_left, frameSize]
    rw [hsum, ← drop_take, ← drop_take, hagree]
  have hfrom : framesFrom file' pageSize start =
      batch ++ framesFrom file' pageSize (start + batch.length * frameSize pageSize) := by
    rw [framesFrom, hdiv, rawFrames_add, hsame, drop_drop]
    rfl
  rw [nextChain, if_neg hb, committedBatch, hfrom, validFrames_append hvalid,
    committedPart_append hcommit, committedBatch, readSeed_batchChain batch (behind_ne_header hps hb)]

theorem batchChain_compose {next : Nat} (hnext : next ≠ walHeaderSize) (a b : List RawFrame) :
    batchChain hs next (batchChain hs start chain a) b = batchChain hs start chain (a ++ b) := by
  have hseed := @readSeed_batchChain hs start next chain a hnext
  conv_lhs => rw [batchChain, hseed]
  unfold batchChain runningAfter
  cases hv : (readSeed hs start chain).2 with
  | none => rfl
  | some v => simp only [chainAfter_append]

end Compose

/-- The same page map whether the frames come in one read or in two. -/
theorem foldl_insert_eq (m : PageMap) (fs : List RawFrame) :
    fs.foldl (fun m f => m.insert f.pageNumber f.body) m =
      m.filter (fun e => e.1 ∉ fs.map pageNumber) ++ pageMapOf fs := by
  induction fs using reverseRecOn with
  | nil => simp [pageMapOf]
  | append_singleton fs f ih =>
    rw [foldl_append, ih, Sqlite.pageMapOf_append_singleton]
    show PageMap.insert _ _ _ = _
    rw [PageMap.insert, filter_append, filter_filter, PageMap.insert, append_assoc]
    congr 1
    apply filter_congr
    intro e _
    by_cases he : e.1 = f.pageNumber <;> simp [he]

/-- The result of one poll after another. -/
def PagesRead.append (r r' : PagesRead) : PagesRead where
  frames := r.frames ++ r'.frames
  newOffset := r'.newOffset
  -- a poll that finds nothing returns 0
  finalDbSize := if r'.frames = [] then r.finalDbSize else r'.finalDbSize
  chain := r'.chain

def PageMapRead.append (r r' : PageMapRead) : PageMapRead where
  pageMap := r.pageMap.filter (fun e => e.1 ∉ r'.pageMap.map Prod.fst) ++ r'.pageMap
  frameCount := r.frameCount + r'.frameCount
  newOffset := r'.newOffset
  finalDbSize := if r'.frameCount = 0 then r.finalDbSize else r'.finalDbSize
  commitCount := r.commitCount + r'.commitCount
  chain := r'.chain

theorem mem_keys_pageMapOf {page : UInt32} :
    page ∈ (pageMapOf fs).map Prod.fst ↔ page ∈ fs.map pageNumber := by
  induction fs using reverseRecOn with
  | nil => simp [pageMapOf]
  | append_singleton fs f ih =>
    rw [Sqlite.pageMapOf_append_singleton, PageMap.insert]
    by_cases hp : page = f.pageNumber
    · simp [hp]
    · simp only [map_append, mem_append, ← ih, mem_map, mem_filter, Prod.exists]
      simp [hp, Ne.symm hp]

theorem pageMapOf_append {a b : List RawFrame} :
    pageMapOf (a ++ b) =
      (pageMapOf a).filter (fun e => e.1 ∉ (pageMapOf b).map Prod.fst) ++ pageMapOf b := by
  rw [pageMapOf, foldl_append, foldl_insert_eq]
  congr 1
  apply filter_congr
  intro e _
  simp only [mem_keys_pageMapOf]

section Results

variable {start : Nat} {chain : Option Chain} {a b : List RawFrame}

/-- A pages read of any batch, the empty one included. -/
theorem pagesBatch_eq (c : Option Chain) : pagesBatch pageSize start chain c a =
    ⟨a.map parsed, start + a.length * frameSize pageSize, (a.getLast?.map dbSize).getD 0,
      if a = [] then chain else c⟩ := by
  rcases eq_nil_or_concat a with rfl | ⟨init, last, rfl⟩ <;> simp [pagesBatch, emptyPagesRead]

theorem batchRead_eq (c : Option Chain) : batchRead pageSize start chain c a =
    ⟨pageMapOf a, a.length, start + a.length * frameSize pageSize, (a.getLast?.map dbSize).getD 0,
      a.countP (·.isCommit), if a = [] then chain else c⟩ := by
  rcases eq_nil_or_concat a with rfl | ⟨init, last, rfl⟩ <;> simp [batchRead, emptyRead, pageMapOf]

theorem finalDbSize_append : ((a ++ b).getLast?.map dbSize).getD 0 =
    if b = [] then (a.getLast?.map dbSize).getD 0 else (b.getLast?.map dbSize).getD 0 := by
  rcases eq_nil_or_concat b with rfl | ⟨init, last, rfl⟩
  · simp
  · simp

/-- The chain of a second batch is the chain of both. -/
theorem batchChain_nextChain (hps : 512 ≤ pageSize.toNat) (a b : List RawFrame) :
    batchChain hs (start + a.length * frameSize pageSize) (nextChain hs start chain a) b =
      batchChain hs start chain (a ++ b) := by
  by_cases ha : a = []
  · subst ha
    simp [nextChain]
  · rw [nextChain, if_neg ha, batchChain_compose (behind_ne_header hps ha)]

theorem nextChain_append (hps : 512 ≤ pageSize.toNat) :
    nextChain hs start chain (a ++ b) =
      nextChain hs (start + a.length * frameSize pageSize) (nextChain hs start chain a) b := by
  rcases eq_or_ne b [] with rfl | hb
  · simp [nextChain]
  · rw [nextChain, if_neg (by simp [hb]), nextChain, if_neg hb, batchChain_nextChain hps]

theorem pagesBatch_append (hps : 512 ≤ pageSize.toNat) :
    pagesBatch pageSize start chain (batchChain hs start chain (a ++ b)) (a ++ b) =
      (pagesBatch pageSize start chain (batchChain hs start chain a) a).append
        (pagesBatch pageSize (start + a.length * frameSize pageSize) (nextChain hs start chain a)
          (batchChain hs (start + a.length * frameSize pageSize) (nextChain hs start chain a) b) b) := by
  have hchain := @nextChain_append hs pageSize start chain a b hps
  simp only [pagesBatch_eq, PagesRead.append, finalDbSize_append, map_append, length_append, add_mul,
    add_assoc, map_eq_nil_iff]
  exact congrArg _ hchain

theorem batchRead_append (hps : 512 ≤ pageSize.toNat) :
    batchRead pageSize start chain (batchChain hs start chain (a ++ b)) (a ++ b) =
      (batchRead pageSize start chain (batchChain hs start chain a) a).append
        (batchRead pageSize (start + a.length * frameSize pageSize) (nextChain hs start chain a)
          (batchChain hs (start + a.length * frameSize pageSize) (nextChain hs start chain a) b) b) := by
  have hchain := @nextChain_append hs pageSize start chain a b hps
  simp only [batchRead_eq, PageMapRead.append, finalDbSize_append, pageMapOf_append, countP_append,
    length_append, add_mul, add_assoc, length_eq_zero_iff]
  exact congrArg _ hchain

end Results

section Polls

variable {R : Type} (read : Bytes → Nat → Option Chain → Except String R) (cursor : R → Nat × Option Chain)
  (append : R → R → R) (offset : Nat) (chain : Option Chain)

/-- A series of polls from `(offset, chain)`: each continues at the cursor the one before returned, on a file
    with the same header that still has the bytes below that cursor. The index is the file of the last poll
    and the results put together. -/
inductive Polls : Bytes → R → Prop where
  | first {file : Bytes} {r : R} : read file offset chain = .ok r → Polls file r
  | next {file file' : Bytes} {r r' : R} : Polls file r → walHeaderSize ≤ file.length →
      file'.take walHeaderSize = file.take walHeaderSize →
      file'.take (cursor r).1 = file.take (cursor r).1 →
      read file' (cursor r).1 (cursor r).2 = .ok r' → Polls file' (append r r')

variable {read cursor append offset chain}

theorem startPos_pos (offset : Nat) : 0 < startPos offset := by
  unfold startPos
  split
  · decide
  · omega

theorem headerSeed_congr {file' : Bytes} (hlen : walHeaderSize ≤ file.length)
    (h : file'.take walHeaderSize = file.take walHeaderSize) : headerSeed file' = headerSeed file := by
  have hlen' : walHeaderSize ≤ file'.length := by
    have h' := congrArg List.length h
    rw [length_take, length_take] at h'
    omega
  rw [← headerSeed_take hlen', h, headerSeed_take hlen]

/-- Polls of a reader whose result is made of the batch it reads. -/
theorem polls_read {pageSize : UInt32} (hps : 512 ≤ pageSize.toNat)
    {result : Option HeaderSeed → Nat → Option Chain → List RawFrame → R}
    (hread : ∀ file offset chain, read file offset chain =
      match headerSeed file with
      | .error e => .error e
      | .ok hs => .ok (result hs (startPos offset) chain
          (committedBatch hs file pageSize (startPos offset) chain)))
    (hcursor : ∀ hs start chain a, cursor (result hs start chain a) =
      (start + a.length * frameSize pageSize, nextChain hs start chain a))
    (happend : ∀ hs start chain a b, result hs start chain (a ++ b) =
      append (result hs start chain a)
        (result hs (start + a.length * frameSize pageSize) (nextChain hs start chain a) b))
    {file : Bytes} {r : R} (h : Polls read cursor append offset chain file r) :
    read file offset chain = .ok r := by
  induction h with
  | first h => exact h
  | @next file file' r r' _ hlen hheader hagree hnext ih =>
    have hseed := headerSeed_congr hlen hheader
    rw [hread] at ih
    cases hhs : headerSeed file with
    | error e => simp [hhs] at ih
    | ok hs =>
      rw [hhs] at hseed
      simp only [hhs] at ih
      obtain rfl := ok.inj ih
      rw [hcursor] at hagree hnext
      -- the cursor is behind the header, so it is taken as it is
      have hstart : startPos (startPos offset + (committedBatch hs file pageSize (startPos offset)
          chain).length * frameSize pageSize) = startPos offset + (committedBatch hs file pageSize
          (startPos offset) chain).length * frameSize pageSize := by
        have hpos := startPos_pos offset
        conv_lhs => rw [startPos, if_neg (by omega)]
      rw [hread, hseed] at hnext
      simp only [hstart] at hnext
      obtain rfl := ok.inj hnext
      rw [hread, hseed]
      simp only
      rw [committedBatch_compose hps hagree, happend]

end Polls

/-- **Incremental reads compose.** Whatever way the growth of a WAL is split into polls, with the offset and
    the chain of each handed to the next, the results put together are those of one read of the last content
    from the first cursor; and every batch ends with a commit frame, so none splits a transaction. -/
theorem polls_compose {pageSize : UInt32} (hps : 512 ≤ pageSize.toNat) (offset : Nat) (chain : Option Chain) :
    (∀ file r, Polls (fun file offset chain => readFramesAsPagesChecked file file pageSize offset chain)
        (fun r => (r.newOffset, r.chain)) PagesRead.append offset chain file r →
      readFramesAsPagesChecked file file pageSize offset chain = .ok r) ∧
    (∀ file r, Polls (fun file offset chain => readFramesAsPageMapChecked file file pageSize offset chain)
        (fun r => (r.newOffset, r.chain)) PageMapRead.append offset chain file r →
      readFramesAsPageMapChecked file file pageSize offset chain = .ok r) ∧
    (∀ file r last, readFramesAsPagesChecked file file pageSize offset chain = .ok r →
      r.frames.getLast? = some last → last.dbSize ≠ 0) ∧
    (∀ file r r', readFramesAsPagesChecked file file pageSize offset chain = .ok r →
      readFramesAsPageMapChecked file file pageSize offset chain = .ok r' →
      (r'.newOffset, r'.chain, r'.finalDbSize) = (r.newOffset, r.chain, r.finalDbSize)) := by
  refine ⟨?_, ?_, ?_, ?_⟩
  · intro file r h
    refine @polls_read _ _ _ _ _ _ _ hps (fun hs start chain a =>
      pagesBatch pageSize start chain (batchChain hs start chain a) a) ?_ ?_ ?_ _ _ h
    · intro file offset chain
      exact readFramesAsPagesChecked_eq
    · intro hs start chain a
      rw [pagesBatch_eq, nextChain]
    · intro hs start chain a b
      exact pagesBatch_append hps
  · intro file r h
    refine @polls_read _ _ _ _ _ _ _ hps (fun hs start chain a =>
      batchRead pageSize start chain (batchChain hs start chain a) a) ?_ ?_ ?_ _ _ h
    · intro file offset chain
      exact readFramesAsPageMapChecked_eq file pageSize offset chain
    · intro hs start chain a
      rw [batchRead_eq, nextChain]
    · intro hs start chain a b
      exact batchRead_append hps
  · intro file r last hr hlast
    rw [readFramesAsPagesChecked_eq] at hr
    split at hr
    · cases hr
    next hs _ =>
    obtain rfl := ok.inj hr
    have hcommit : EndsInCommit (committedBatch hs file pageSize (startPos offset) chain) :=
      endsInCommit_committedPart _
    cases hb : (committedBatch hs file pageSize (startPos offset) chain).getLast? with
    | none => simp [pagesBatch, hb, emptyPagesRead] at hlast
    | some f =>
      simp only [pagesBatch, hb, List.getLast?_map] at hlast
      obtain rfl := Option.some.inj hlast
      simpa [isCommit, parsed] using hcommit f hb
  · intro file r r' hr hr'
    rw [readFramesAsPagesChecked_eq] at hr
    rw [readFramesAsPageMapChecked_eq] at hr'
    split at hr
    · cases hr
    next hs hhs =>
    simp only [hhs] at hr hr'
    obtain rfl := ok.inj hr
    obtain rfl := ok.inj hr'
    cases hb : (committedBatch hs file pageSize (startPos offset) chain).getLast? with
    | none => simp [pagesBatch, batchRead, hb, emptyPagesRead, emptyRead]
    | some f => simp [pagesBatch, batchRead, hb]

/-- One commit polled, then two more: the three frames of the last content. -/
theorem polls_compose_fillTwo :
    ∃ r r' : PagesRead, r.frames.length = 1 ∧ r'.frames.length = 2 ∧
      readFramesAsPagesChecked (fillTwo [7]).bytes (fillTwo [7]).bytes 512 0 none = .ok r ∧
      readFramesAsPagesChecked (fillTwo [7, 8, 9]).bytes (fillTwo [7, 8, 9]).bytes 512 r.newOffset r.chain =
        .ok r' ∧
      readFramesAsPagesChecked (fillTwo [7, 8, 9]).bytes (fillTwo [7, 8, 9]).bytes 512 0 none =
        .ok (r.append r') := by
  have hpolls : ((readFramesAsPagesChecked (fillTwo [7]).bytes (fillTwo [7]).bytes 512 0 none).toOption.bind
      fun r => (readFramesAsPagesChecked (fillTwo [7, 8, 9]).bytes (fillTwo [7, 8, 9]).bytes 512 r.newOffset
        r.chain).toOption.map fun r' => (r.frames.length, r'.frames.length, r.newOffset)) =
      some (1, 2, 568) := by decide +kernel
  cases h : readFramesAsPagesChecked (fillTwo [7]).bytes (fillTwo [7]).bytes 512 0 none with
  | error e =>
    rw [h] at hpolls
    cases hpolls
  | ok r =>
    rw [h] at hpolls
    simp only [Except.toOption, Option.bind_some] at hpolls
    split at hpolls
    swap
    · cases hpolls
    next r' h' =>
    simp only [Option.map_some, Option.some.injEq, Prod.mk.injEq] at hpolls
    obtain ⟨hone, htwo, hoffset⟩ := hpolls
    refine ⟨r, r', hone, htwo, rfl, h', ?_⟩
    have hagree : (fillTwo [7, 8, 9]).bytes.take r.newOffset = (fillTwo [7]).bytes.take r.newOffset := by
      rw [hoffset]
      decide +kernel
    have hlen : walHeaderSize ≤ (fillTwo [7]).bytes.length := by decide +kernel
    have hheader : (fillTwo [7, 8, 9]).bytes.take walHeaderSize = (fillTwo [7]).bytes.take walHeaderSize := by
      decide +kernel
    exact (polls_compose (by decide) 0 none).1 _ _ (.next (.first h) hlen hheader hagree h')

end Wal
end Walrust
