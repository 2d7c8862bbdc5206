import Walrust.Hadbp
import Mathlib.Data.List.DropRight

/-!
# `Walrust.Wal` — reading the SQLite write-ahead log

The checked WAL reader of `wal.rs`. A WAL file is its bytes (a missing file and an empty one read alike);
every read is a function of the bytes it sees.

* `walChecksum`, `verifyFrameChecksum`, `validateHeaderChecksum` — SQLite's running checksum;
* `readFramesAsPageMapChecked` — the two-pass incremental read the sync sites use;
* `committedBatch` and `readFramesAsPageMapChecked_eq` — what a read returns, said once: the committed
  prefix of the frames that continue the checksum chain. Every later proof goes through this equation;
* `read_of_ne_chain` — a read seeded with a wrong chain finds nothing.
-/

namespace Walrust
namespace Wal

open Lib.Bytes

variable {be : Bool} {hs : Option HeaderSeed} {offset : Nat} {pageSize : UInt32} {r : PageMapRead}
  {file : Bytes} {chainSeed : Option Chain}

abbrev Salt := UInt32 × UInt32

/-- A running WAL checksum `(s0, s1)`. -/
abbrev Chain := UInt32 × UInt32

def walHeaderSize : Nat := 32
def frameHeaderSize : Nat := 24
def walMagicLe : UInt32 := 0x377F0682
def walMagicBe : UInt32 := 0x377F0683

/-- The big-endian `u32` at offset `off`. -/
def u32At (bs : Bytes) (off : Nat) : UInt32 := UInt32.ofNat (field bs off 4)

structure WalHeader where
  magic : UInt32
  formatVersion : UInt32
  pageSize : UInt32
  checkpointSeq : UInt32
  salt1 : UInt32
  salt2 : UInt32
  checksum1 : UInt32
  checksum2 : UInt32
  deriving DecidableEq, Repr

def WalHeader.salt (h : WalHeader) : Salt := (h.salt1, h.salt2)

/-! ## Checksums -/

def readU32 (bigEndian : Bool) (b0 b1 b2 b3 : UInt8) : UInt32 :=
  UInt32.ofNat (if bigEndian then beNat [b0, b1, b2, b3] else beNat [b3, b2, b1, b0])

/-- One round: `s0 += x0 + s1; s1 += x1 + s0`, wrapping. -/
def checksumRound (seed : Chain) (x0 x1 : UInt32) : Chain :=
  let s0 := seed.1 + x0 + seed.2
  (s0, seed.2 + x1 + s0)

def walChecksum (bigEndian : Bool) (seed : Chain) : Bytes → Chain
  | b0 :: b1 :: b2 :: b3 :: b4 :: b5 :: b6 :: b7 :: rest =>
    walChecksum bigEndian
      (checksumRound seed (readU32 bigEndian b0 b1 b2 b3) (readU32 bigEndian b4 b5 b6 b7)) rest
  | _ => seed

def magicIsBigEndian (magic : UInt32) : Bool := magic &&& 1 = 1

/-- The header's own checksum, over its first 24 bytes: the seed of the frame chain. -/
def validateHeaderChecksum (header : Bytes) (bigEndian : Bool) : Except String Chain :=
  let stored := (u32At header 24, u32At header 28)
  if stored = (0, 0) then .error "invalid WAL header checksum"
  else if walChecksum bigEndian (0, 0) (header.take 24) = stored then .ok stored
  else .error "invalid WAL header checksum"

/-- One frame as the reader sees it: its 24-byte header and the page body. -/
structure RawFrame where
  header : Bytes
  body : Bytes
  deriving DecidableEq, Repr

def RawFrame.pageNumber (f : RawFrame) : UInt32 := u32At f.header 0
def RawFrame.dbSize (f : RawFrame) : UInt32 := u32At f.header 4
def RawFrame.salt (f : RawFrame) : Salt := (u32At f.header 8, u32At f.header 12)
def RawFrame.stored (f : RawFrame) : Chain := (u32At f.header 16, u32At f.header 20)

/-- A commit frame carries the database size after its transaction. -/
def RawFrame.isCommit (f : RawFrame) : Bool := f.dbSize ≠ 0

/-- The checksum a frame must carry after `seed`. -/
def RawFrame.running (bigEndian : Bool) (seed : Chain) (f : RawFrame) : Chain :=
  walChecksum bigEndian (walChecksum bigEndian seed (f.header.take 8)) f.body

def verifyFrameChecksum (seed : Chain) (f : RawFrame) (bigEndian : Bool) : Option Chain :=
  if f.running bigEndian seed = f.stored then some (f.running bigEndian seed) else none

/-! ## The header -/

def readHeader (file : Bytes) : Except String (Option WalHeader) :=
  if file.length < walHeaderSize then .ok none
  else if u32At file 0 ≠ walMagicLe ∧ u32At file 0 ≠ walMagicBe then
    .error s!"Invalid WAL magic number: {u32At file 0}"
  else
    .ok (some {
      magic := u32At file 0
      formatVersion := u32At file 4
      pageSize := u32At file 8
      checkpointSeq := u32At file 12
      salt1 := u32At file 16
      salt2 := u32At file 20
      checksum1 := u32At file 24
      checksum2 := u32At file 28 })

/-- What the reader takes from the header: chain seed, checksum endianness, salt. -/
structure HeaderSeed where
  seed : Chain
  bigEndian : Bool
  salt : Salt
  deriving DecidableEq, Repr

def headerSeed (file : Bytes) : Except String (Option HeaderSeed) :=
  if file.length < walHeaderSize then .ok none
  else if u32At file 0 = walMagicBe ∨ u32At file 0 = walMagicLe then
    let bigEndian := magicIsBigEndian (u32At file 0)
    match validateHeaderChecksum (file.take walHeaderSize) bigEndian with
    | .error e => .error e
    | .ok seed => .ok (some ⟨seed, bigEndian, (u32At file 16, u32At file 20)⟩)
  else .ok none

/-! ## The incremental read -/

/-- The first `n` frames of `bytes`. -/
def rawFrames (pageSize : Nat) : Nat → Bytes → List RawFrame
  | 0, _ => []
  | n + 1, bytes =>
    ⟨bytes.take frameHeaderSize, (bytes.drop frameHeaderSize).take pageSize⟩ ::
      rawFrames pageSize n (bytes.drop (frameHeaderSize + pageSize))

/-- How a read validates: not at all, or against the header's salt and byte order. -/
abbrev Validation := Option (Bool × Salt)

/-- Pass 1: the frames up to the first whose salt or checksum does not continue the chain. -/
def validFrames (v : Validation) : Chain → List RawFrame → List RawFrame
  | _, [] => []
  | running, f :: fs =>
    match v with
    | none => f :: validFrames v running fs
    | some (bigEndian, salt) =>
      if f.salt ≠ salt then []
      else
        match verifyFrameChecksum running f bigEndian with
        | some next => f :: validFrames v next fs
        | none => []

/-- The frames up to and including the last commit frame. -/
def committedPart (fs : List RawFrame) : List RawFrame := fs.rdropWhile (fun f => !f.isCommit)

/-- Pass 2: the chain recomputed over the committed frames. -/
def replayChain (v : Validation) : Option Chain → List RawFrame → Except String (Option Chain)
  | chain, [] => .ok chain
  | chain, f :: fs =>
    match v, chain with
    | some (bigEndian, _), some seed =>
      match verifyFrameChecksum seed f bigEndian with
      | some next => replayChain v (some next) fs
      | none => .error "WAL frame failed checksum re-verification; concurrent checkpoint/reset suspected"
    | _, _ => replayChain v chain fs

/-- The page map of a read: last version of each page. -/
abbrev PageMap := List (UInt32 × Bytes)

def PageMap.insert (m : PageMap) (page : UInt32) (data : Bytes) : PageMap :=
  m.filter (fun e => e.1 ≠ page) ++ [(page, data)]

def pageMapOf (fs : List RawFrame) : PageMap :=
  fs.foldl (fun m f => PageMap.insert m f.pageNumber f.body) []

structure PageMapRead where
  pageMap : PageMap
  frameCount : Nat
  newOffset : Nat
  finalDbSize : UInt32
  commitCount : Nat
  chain : Option Chain
  deriving DecidableEq, Repr

/-- Post-read stability check against the file as it is after the read. -/
def detectResetDuringRead (after : Bytes) (committedEnd : Nat) (saltBefore : Option Salt) :
    Except String Unit :=
  if after.length < committedEnd then .error "WAL shrank during read; concurrent checkpoint/reset"
  else
    match saltBefore with
    | none => .ok ()
    | some before =>
      match readHeader after with
      | .error e => .error e
      | .ok none => .ok ()
      | .ok (some header) =>
        if header.salt ≠ before then
          .error "WAL header salt changed during read; concurrent checkpoint/reset"
        else .ok ()

def startPos (startOffset : Nat) : Nat := if startOffset = 0 then walHeaderSize else startOffset

def frameSize (pageSize : UInt32) : Nat := frameHeaderSize + pageSize.toNat

/-- The full frames from `start` to the end of the file. -/
def framesFrom (file : Bytes) (pageSize : UInt32) (start : Nat) : List RawFrame :=
  rawFrames pageSize.toNat ((file.length - start) / frameSize pageSize) (file.drop start)

section

variable (hs : Option HeaderSeed) (start : Nat) (chainSeed : Option Chain)

/-- The seed of pass 1 and whether it validates: the header's seed at the first frame, the caller's chain
    further in, and no validation at all without either. -/
def readSeed : Chain × Validation :=
  match hs with
  | none => ((0, 0), none)
  | some h =>
    if start = walHeaderSize then (h.seed, some (h.bigEndian, h.salt))
    else (chainSeed.getD (0, 0), chainSeed.map fun _ => (h.bigEndian, h.salt))

/-- The chain pass 2 starts from. -/
def outChain : Option Chain :=
  match hs with
  | some h => if start = walHeaderSize then some h.seed else chainSeed
  | none => chainSeed

end

def emptyRead (start : Nat) (chainSeed : Option Chain) : PageMapRead :=
  { pageMap := [], frameCount := 0, newOffset := start, finalDbSize := 0, commitCount := 0,
    chain := chainSeed }

/-- `read_frames_as_page_map_checked` on the file `file`; `after` is the file once the read is over. -/
def readFramesAsPageMapChecked (file after : Bytes) (pageSize : UInt32) (startOffset : Nat)
    (chainSeed : Option Chain) : Except String PageMapRead :=
  let start := startPos startOffset
  match headerSeed file with
  | .error e => .error e
  | .ok hs =>
    if file.length ≤ start then .ok (emptyRead start chainSeed)
    else if (file.length - start) / frameSize pageSize = 0 then .ok (emptyRead start chainSeed)
    else
      let seed := readSeed hs start chainSeed
      let committed := committedPart (validFrames seed.2 seed.1 (framesFrom file pageSize start))
      match committed.getLast? with
      -- no commit boundary among the valid frames
      | none => .ok (emptyRead start chainSeed)
      | some last =>
        match replayChain seed.2 (outChain hs start chainSeed) committed with
        | .error e => .error e
        | .ok chain =>
          let newOffset := start + committed.length * frameSize pageSize
          match detectResetDuringRead after newOffset (hs.map (·.salt)) with
          | .error e => .error e
          | .ok () =>
            .ok { pageMap := pageMapOf committed
                  frameCount := committed.length
                  newOffset := newOffset
                  finalDbSize := last.dbSize
                  commitCount := committed.countP (·.isCommit)
                  chain := chain }

/-- `count_wal_commits`: commit frames in the file, valid or not. -/
def countWalCommits (file : Bytes) (pageSize : UInt32) : Nat :=
  if file.length < walHeaderSize then 0
  else (framesFrom file pageSize walHeaderSize).countP (·.isCommit)

/-! ## What a read returns -/

/-- The checksum after `fs`, from `seed`. -/
def chainAfter (bigEndian : Bool) (seed : Chain) (fs : List RawFrame) : Chain :=
  fs.foldl (RawFrame.running bigEndian) seed

/-- **The batch of a read**: the committed part of the frames that continue the chain. -/
def committedBatch (hs : Option HeaderSeed) (file : Bytes) (pageSize : UInt32) (start : Nat)
    (chainSeed : Option Chain) : List RawFrame :=
  committedPart (validFrames (readSeed hs start chainSeed).2 (readSeed hs start chainSeed).1
    (framesFrom file pageSize start))

/-- The chain a read that returns `batch` leaves. -/
def batchChain (hs : Option HeaderSeed) (start : Nat) (chainSeed : Option Chain)
    (batch : List RawFrame) : Option Chain :=
  match (readSeed hs start chainSeed).2 with
  | some (bigEndian, _) => some (chainAfter bigEndian (readSeed hs start chainSeed).1 batch)
  | none => chainSeed

section

variable (pageSize : UInt32) (start : Nat) (chainSeed chain : Option Chain)

/-- The result of a read that returns `batch`. -/
def batchRead
    (batch : List RawFrame) : PageMapRead :=
  match batch.getLast? with
  | none => emptyRead start chainSeed
  | some last =>
    { pageMap := pageMapOf batch
      frameCount := batch.length
      newOffset := start + batch.length * frameSize pageSize
      finalDbSize := last.dbSize
      commitCount := batch.countP (·.isCommit)
      chain := chain }

@[simp] theorem batchRead_nil :
    batchRead pageSize start chainSeed chain [] = emptyRead start chainSeed := rfl

end

theorem verifyFrameChecksum_some {seed next : Chain} {f : RawFrame} :
    verifyFrameChecksum seed f be = some next ↔ f.running be seed = f.stored ∧ next = f.stored := by
  unfold verifyFrameChecksum
  constructor
  · intro h
    split at h
    · rename_i heq
      injection h with h
      exact ⟨heq, h ▸ heq⟩
    · cases h
  · rintro ⟨heq, rfl⟩
    rw [if_pos heq, heq]

/-- Every frame pass 1 accepts continues the chain, so pass 2 recomputes it over any part of them. -/
theorem replayChain_validFrames {salt : Salt} {seed : Chain} {fs part : List RawFrame}
    (h : part <+: validFrames (some (be, salt)) seed fs) :
    replayChain (some (be, salt)) (some seed) part = .ok (some (chainAfter be seed part)) := by
  induction fs generalizing seed part with
  | nil =>
    have hnil : part = [] := List.prefix_nil.mp h
    subst hnil
    rfl
  | cons f fs ih =>
    cases part with
    | nil => rfl
    | cons p part =>
      -- a non-empty part begins with `f`, which pass 1 must have verified
      unfold validFrames at h
      split at h
      · rename_i hv
        cases hv
      rename_i hv
      cases hv
      split at h
      · simp at h
      split at h
      · rename_i next hverify
        obtain ⟨rfl, hpre⟩ := List.cons_prefix_cons.mp h
        obtain ⟨hrun, hnext⟩ := verifyFrameChecksum_some.mp hverify
        show replayChain _ _ (p :: part) = .ok (some (chainAfter be (p.running be seed) part))
        rw [hrun, ← hnext, ← ih hpre]
        simp only [replayChain, hverify]
      · simp at h

theorem replayChain_none (chain : Option Chain) (fs : List RawFrame) :
    replayChain none chain fs = .ok chain := by
  induction fs with
  | nil => rfl
  | cons f fs ih => exact ih

theorem validFrames_sublist (v : Validation) (seed : Chain) (fs : List RawFrame) :
    validFrames v seed fs <+: fs := by
  induction fs generalizing seed with
  | nil => exact List.prefix_refl []
  | cons f fs ih =>
    unfold validFrames
    split
    · exact (List.prefix_cons_inj f).mpr (ih _)
    · split
      · exact List.nil_prefix
      · split
        · exact (List.prefix_cons_inj f).mpr (ih _)
        · exact List.nil_prefix

theorem committedPart_isPrefix (fs : List RawFrame) : committedPart fs <+: fs :=
  List.rdropWhile_prefix _ _

@[simp] theorem length_rawFrames (pageSize n : Nat) (bytes : Bytes) :
    (rawFrames pageSize n bytes).length = n := by
  induction n generalizing bytes with
  | zero => rfl
  | succ n ih => simp [rawFrames, ih]

theorem committedBatch_length_le (hs : Option HeaderSeed) (file : Bytes) (pageSize : UInt32)
    (start : Nat) (chainSeed : Option Chain) :
    (committedBatch hs file pageSize start chainSeed).length * frameSize pageSize ≤
      file.length - start := by
  have hle : (committedBatch hs file pageSize start chainSeed).length ≤
      (file.length - start) / frameSize pageSize := by
    have h1 := (committedPart_isPrefix (validFrames (readSeed hs start chainSeed).2
      (readSeed hs start chainSeed).1 (framesFrom file pageSize start))).length_le
    have h2 := (validFrames_sublist (readSeed hs start chainSeed).2 (readSeed hs start chainSeed).1
      (framesFrom file pageSize start)).length_le
    rw [framesFrom, length_rawFrames] at h2
    exact h1.trans h2
  calc _ ≤ (file.length - start) / frameSize pageSize * frameSize pageSize :=
        Nat.mul_le_mul_right _ hle
    _ ≤ file.length - start := Nat.div_mul_le_self _ _

/-- A header the reader can seed from is a header `read_header` returns, with the same salt. -/
theorem readHeader_of_headerSeed {h : HeaderSeed} (hs : headerSeed file = .ok (some h)) :
    ∃ header, readHeader file = .ok (some header) ∧ header.salt = h.salt := by
  unfold headerSeed at hs
  split at hs
  · cases hs
  rename_i hlen
  split at hs
  · simp only at hs
    split at hs
    · cases hs
    injection hs with hs
    injection hs with hs
    subst hs
    refine ⟨⟨u32At file 0, u32At file 4, u32At file 8, u32At file 12, u32At file 16, u32At file 20,
      u32At file 24, u32At file 28⟩, ?_, rfl⟩
    unfold readHeader
    rw [if_neg hlen, if_neg (by tauto)]
  · cases hs

theorem detectReset_self (h : headerSeed file = .ok hs) {committedEnd : Nat} (hle : committedEnd ≤ file.length) :
    detectResetDuringRead file committedEnd (hs.map (·.salt)) = .ok () := by
  unfold detectResetDuringRead
  rw [if_neg (not_lt.mpr hle)]
  cases hs with
  | none => rfl
  | some s =>
    obtain ⟨header, hread, hsalt⟩ := readHeader_of_headerSeed h
    simp [hread, hsalt]

theorem outChain_of_validated {start : Nat} {v : Bool × Salt} (h : (readSeed hs start chainSeed).2 = some v) :
    outChain hs start chainSeed = some (readSeed hs start chainSeed).1 := by
  unfold readSeed outChain at *
  cases hs with
  | none => cases h
  | some s =>
    by_cases hstart : start = walHeaderSize
    · simp [hstart]
    · simp only [hstart] at h ⊢
      cases chainSeed with
      | none => cases h
      | some c => rfl

theorem outChain_of_unvalidated {start : Nat}
    (h : (readSeed hs start chainSeed).2 = none) : outChain hs start chainSeed = chainSeed := by
  unfold readSeed outChain at *
  cases hs with
  | none => rfl
  | some s =>
    by_cases hstart : start = walHeaderSize
    · simp [hstart] at h
    · simp [hstart]

/-- Pass 2 over the batch always succeeds on an unchanged file. -/
theorem replayChain_batch (hs : Option HeaderSeed) (file : Bytes) (pageSize : UInt32) (start : Nat)
    (chainSeed : Option Chain) :
    replayChain (readSeed hs start chainSeed).2 (outChain hs start chainSeed)
        (committedBatch hs file pageSize start chainSeed) =
      .ok (batchChain hs start chainSeed (committedBatch hs file pageSize start chainSeed)) := by
  cases hv : (readSeed hs start chainSeed).2 with
  | none =>
    rw [replayChain_none, outChain_of_unvalidated hv]
    simp [batchChain, hv]
  | some v =>
    obtain ⟨be, salt⟩ := v
    rw [outChain_of_validated hv]
    have hpre : committedBatch hs file pageSize start chainSeed <+:
        validFrames (some (be, salt)) (readSeed hs start chainSeed).1
          (framesFrom file pageSize start) := by
      unfold committedBatch
      rw [hv]
      exact committedPart_isPrefix _
    rw [replayChain_validFrames hpre]
    simp [batchChain, hv]

/-- **The checked read, in one equation.** On a file that does not change under it, a read fails only on
    an invalid header checksum, and otherwise returns the batch and the chain at its end. -/
theorem readFramesAsPageMapChecked_eq (file : Bytes) (pageSize : UInt32) (startOffset : Nat)
    (chainSeed : Option Chain) :
    readFramesAsPageMapChecked file file pageSize startOffset chainSeed =
      match headerSeed file with
      | .error e => .error e
      | .ok hs =>
        let batch := committedBatch hs file pageSize (startPos startOffset) chainSeed
        .ok (batchRead pageSize (startPos startOffset) chainSeed
          (batchChain hs (startPos startOffset) chainSeed batch) batch) := by
  unfold readFramesAsPageMapChecked
  cases hhs : headerSeed file with
  | error e => rfl
  | ok hs =>
    simp only
    generalize startPos startOffset = start
    -- both early exits are the empty batch
    have hempty : (file.length - start) / frameSize pageSize = 0 →
        committedBatch hs file pageSize start chainSeed = [] := by
      intro h0
      simp [committedBatch, framesFrom, h0, rawFrames, validFrames, committedPart]
    by_cases hlen : file.length ≤ start
    · rw [if_pos hlen, hempty (by rw [Nat.sub_eq_zero_of_le hlen, Nat.zero_div])]
      rfl
    rw [if_neg hlen]
    by_cases h0 : (file.length - start) / frameSize pageSize = 0
    · rw [if_pos h0, hempty h0]
      rfl
    rw [if_neg h0]
    have hle := committedBatch_length_le hs file pageSize start chainSeed
    have hreset := detectReset_self hhs (show start + (committedBatch hs file pageSize start
      chainSeed).length * frameSize pageSize ≤ file.length by omega)
    have hreplay := replayChain_batch hs file pageSize start chainSeed
    unfold committedBatch at hreset hreplay ⊢
    cases hlast : (committedPart (validFrames (readSeed hs start chainSeed).2
        (readSeed hs start chainSeed).1 (framesFrom file pageSize start))).getLast? with
    | none => simp [batchRead, hlast]
    | some last => simp [batchRead, hlast, hreplay, hreset]

/-! ## The chain a read is seeded with -/

theorem checksumRound_injective {x0 x1 : UInt32} : Function.Injective (checksumRound · x0 x1) := by
  rintro ⟨a0, a1⟩ ⟨b0, b1⟩ h
  simp only [checksumRound] at h
  have h1' : a1 = b1 := by grind
  have h0' : a0 = b0 := by grind
  rw [h0', h1']

/-- Different seeds give different checksums, whatever is checksummed. -/
theorem walChecksum_injective {bytes : Bytes} : Function.Injective (walChecksum be · bytes) := by
  intro a b h
  simp only at h
  fun_induction walChecksum be a bytes generalizing b with
  | case1 seed b0 b1 b2 b3 b4 b5 b6 b7 rest ih =>
    exact checksumRound_injective (ih h)
  | case2 seed bytes hshort =>
    rw [walChecksum] at h
    · exact h
    · exact hshort

theorem running_injective {f : RawFrame} : Function.Injective (f.running be) := by
  intro a b h
  exact walChecksum_injective (walChecksum_injective h)

/-- Frames that continue one chain continue no other. -/
theorem validFrames_of_ne_seed {salt : Salt} {seed seed' : Chain} {fs : List RawFrame}
    (h : validFrames (some (be, salt)) seed fs ≠ []) (hne : seed' ≠ seed) :
    validFrames (some (be, salt)) seed' fs = [] := by
  cases fs with
  | nil => exact absurd rfl h
  | cons f fs =>
    have hrun : f.running be seed = f.stored := by
      by_contra hr
      simp [validFrames, verifyFrameChecksum, hr] at h
    have hrun' : f.running be seed' ≠ f.stored := by
      intro hr
      exact hne (running_injective (hr.trans hrun.symm))
    simp [validFrames, verifyFrameChecksum, hrun']

theorem headerSeed_isSome {header : WalHeader} (h : readHeader file = .ok (some header)) :
    headerSeed file ≠ .ok none := by
  intro hs
  unfold readHeader at h
  unfold headerSeed at hs
  split at h
  · cases h
  rename_i hlen
  rw [if_neg hlen] at hs
  split at h
  · cases h
  rename_i hmagic
  have hcases : u32At file 0 = walMagicBe ∨ u32At file 0 = walMagicLe := by
    by_contra hc
    exact hmagic ⟨fun h => hc (.inr h), fun h => hc (.inl h)⟩
  rw [if_pos hcases] at hs
  simp only at hs
  split at hs
  · cases hs
  · cases hs

/-- **A wrong chain reads nothing.** Behind the first frame, a file that has a batch for one chain has none
    for any other. -/
theorem read_of_ne_chain {c c' : Chain} {header : WalHeader} (hheader : readHeader file = .ok (some header))
    (hr : readFramesAsPageMapChecked file file pageSize offset (some c) = .ok r) (hne : r.pageMap ≠ [])
    (hstart : startPos offset ≠ walHeaderSize) (hc : c' ≠ c) :
    readFramesAsPageMapChecked file file pageSize offset (some c') =
      .ok (emptyRead (startPos offset) (some c')) := by
  rw [readFramesAsPageMapChecked_eq] at hr ⊢
  split at hr
  · cases hr
  next hs hhs =>
  cases hs with
  | none => exact absurd hhs (headerSeed_isSome hheader)
  | some h =>
    have hseed : ∀ c, readSeed (some h) (startPos offset) (some c) = (c, some (h.bigEndian, h.salt)) := by
      intro c
      simp [readSeed, hstart]
    have hbatch : committedBatch (some h) file pageSize (startPos offset) (some c) ≠ [] := by
      intro hempty
      simp only [hempty] at hr
      injection hr with hr
      exact hne (by rw [← hr]; rfl)
    have hvalid : validFrames (some (h.bigEndian, h.salt)) c (framesFrom file pageSize (startPos offset)) ≠
        [] := by
      intro hempty
      apply hbatch
      rw [committedBatch, hseed, hempty]
      rfl
    have hnone : committedBatch (some h) file pageSize (startPos offset) (some c') = [] := by
      rw [committedBatch, hseed, validFrames_of_ne_seed hvalid hc]
      rfl
    simp only [hnone, batchRead_nil]

/-- Without a chain to continue, a read behind the first frame leaves none. -/
theorem read_chain_none (hr : readFramesAsPageMapChecked file file pageSize offset none = .ok r)
    (hstart : startPos offset ≠ walHeaderSize) : r.chain = none := by
  rw [readFramesAsPageMapChecked_eq] at hr
  split at hr
  · cases hr
  next hs _ =>
  injection hr with hr
  have hchain : ∀ batch, batchChain hs (startPos offset) none batch = none := by
    intro batch
    cases hs with
    | none => rfl
    | some h => simp [batchChain, readSeed, hstart]
  rw [← hr, hchain, batchRead]
  split <;> rfl

/-- A read that continues a chain leaves one. -/
theorem read_chain_some {c : Chain}
    (hr : readFramesAsPageMapChecked file file pageSize offset (some c) = .ok r) : r.chain.isSome := by
  rw [readFramesAsPageMapChecked_eq] at hr
  split at hr
  · cases hr
  next hs _ =>
  injection hr with hr
  have hchain : ∀ batch, (batchChain hs (startPos offset) (some c) batch).isSome := by
    intro batch
    unfold batchChain
    split <;> rfl
  rw [← hr, batchRead]
  split
  · rfl
  · exact hchain _

end Wal
end Walrust
