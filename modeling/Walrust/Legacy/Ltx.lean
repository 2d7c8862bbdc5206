import Walrust.Legacy
import Walrust.Ltx.Codec

/-!
# `Walrust.Legacy.Ltx` — LTX files

What the code does with an LTX object once it has it: write a snapshot out, apply an incremental in place, check
a file, and feed it to a merge. The chain value is a hash of the pages an incremental carries; it says nothing of
the database size, which the header has beside it.

* `decodeToDb`, `applyLtxToDbChecked` — a snapshot, an incremental;
* `parseLtxSourceHeader`, `openLtxStream` — an incremental as a source of a merge;
* `readSourceHeader`, `openSource` — the same for an object of either format;
* `listLevelFiles` — the merged objects, with their headers read.
-/

namespace Walrust
namespace Legacy

open Hadbp Compaction Lib.Bytes Lib.File

/-- `{:016x}`. -/
def hex16 (v : UInt64) : String := String.join ((beBytes 8 v.toNat).map Ltx.hex2)

/-- `compute_db_checksum`, and `compute_checksum_from_file`. -/
def computeDbChecksum (ltx : LtxCrate) (sha64 : Bytes → UInt64) (db : Bytes) : UInt64 := ltx.checksum (sha64 db)

/-- What `ChainHasher` feeds the hash: the chain value, then each page's number and data. -/
def chainBytes (pre : UInt64) (pages : List (UInt32 × Bytes)) : Bytes :=
  beBytes 8 pre.toNat ++ pages.flatMap fun p => beBytes 4 p.1.toNat ++ p.2

/-- `chain_checksum`. -/
def chainChecksum (ltx : LtxCrate) (sha64 : Bytes → UInt64) (pre : UInt64) (pages : List (UInt32 × Bytes)) : UInt64 :=
  ltx.checksum (sha64 (chainBytes pre pages))

/-! ## Snapshots -/

/-- A database file and the chain value it stands at. -/
structure LtxApplied where
  header : LtxHeader
  db : Bytes
  postApplyChecksum : UInt64
  deriving DecidableEq, Repr

/-- The page loop of `decode_to_db`. -/
def decodePages (pageSize numPages : Nat) : List (UInt32 × Bytes) → Bytes → Except String Bytes
  | [], db => .ok db
  | (page, data) :: rest, db =>
    if page.toNat < 1 ∨ numPages < page.toNat then
      .error (s!"LTX page number {page} out of range 1..={numPages}; refusing to decode " ++
        "(corrupt or malformed LTX)")
    else decodePages pageSize numPages rest (writeAt db ((page.toNat - 1) * pageSize) data)

/-- `decode_to_db`: a snapshot written out in full. -/
def decodeToDb (ltx : LtxCrate) (sha64 : Bytes → UInt64) (bytes : Bytes) : Except String LtxApplied :=
  match ltx.header bytes with
  | .error e => .error e
  | .ok header =>
    if header.pageSize = 0 then .error "LTX header page_size is zero (corrupt or malformed LTX)"
    else if 2 ^ 64 ≤ header.commit * header.pageSize then
      .error "LTX page_count * page_size overflows usize (malformed LTX)"
    else
      match decodePages header.pageSize header.commit (ltx.pages bytes)
          (List.replicate (header.commit * header.pageSize) 0) with
      | .error e => .error e
      | .ok db =>
        match ltx.finish bytes with
        | .page e => .error e
        | .trailer e => .error e
        | .done post =>
          if ¬ header.noChecksum ∧ post ≠ computeDbChecksum ltx sha64 db then
            .error (s!"Post-apply checksum mismatch after decode: expected {hex16 post}, got " ++
              s!"{hex16 (computeDbChecksum ltx sha64 db)}. This may indicate corruption in the LTX file.")
          else .ok ⟨header, db, computeDbChecksum ltx sha64 db⟩

theorem decodePages_length {pageSize numPages : Nat} (hps : 0 < pageSize) {pages : List (UInt32 × Bytes)}
    (hlen : ∀ p ∈ pages, p.2.length = pageSize) {db db' : Bytes} (hdb : db.length = numPages * pageSize)
    (h : decodePages pageSize numPages pages db = .ok db') : db'.length = numPages * pageSize := by
  induction pages generalizing db with
  | nil =>
    injection h with h
    rw [← h, hdb]
  | cons p pages ih =>
    obtain ⟨page, data⟩ := p
    rw [decodePages] at h
    split at h
    · cases h
    have hdata : data.length = pageSize := hlen _ List.mem_cons_self
    have hne : data ≠ [] := by
      rintro rfl
      exact absurd hdata (ne_of_lt hps)
    refine ih (fun q hq => hlen q (List.mem_cons_of_mem _ hq)) ?_ h
    have hin : (page.toNat - 1) * pageSize + pageSize ≤ numPages * pageSize := by
      rw [← Nat.succ_mul]
      exact Nat.mul_le_mul_right _ (by omega)
    rw [length_writeAt _ _ hne]
    omega

theorem decodeToDb_length {ltx : LtxCrate} {sha64 : Bytes → UInt64} {bytes : Bytes} {r : LtxApplied}
    (h : decodeToDb ltx sha64 bytes = .ok r) :
    0 < r.header.pageSize ∧ r.db.length = r.header.commit * r.header.pageSize := by
  rw [decodeToDb] at h
  split at h
  · cases h
  rename_i header hheader
  split at h
  · cases h
  rename_i hps
  split at h
  · cases h
  split at h
  · cases h
  rename_i db hdb
  have hlen := decodePages_length (pos_of_ne_zero hps) (ltx.page_length bytes header hheader)
    List.length_replicate hdb
  split at h
  · cases h
  · cases h
  split at h
  · cases h
  cases h
  exact ⟨pos_of_ne_zero hps, hlen⟩

/-! ## Incrementals -/

/-- The page writes of an apply: in place, with no new length. -/
def writeLtxPages (pageSize : Nat) (pages : List (UInt32 × Bytes)) (db : Bytes) : Bytes :=
  pages.foldl (fun db p => writeAt db ((p.1.toNat - 1) * pageSize) p.2) db

/-- The check against the chain value the caller stands at. -/
def checkPre (header : LtxHeader) (expected : UInt64) : Except String Unit :=
  if header.noChecksum then .ok ()
  else
    match header.preApplyChecksum with
    | none => .error s!"Missing pre-apply checksum: expected {hex16 expected}"
    | some pre =>
      if pre ≠ expected then
        .error (s!"Pre-apply checksum mismatch: expected {hex16 expected}, got {hex16 pre}. " ++
          "The incremental does not chain from the restored database state.")
      else .ok ()

/-- The chain value after the pages. -/
def postChecksum (ltx : LtxCrate) (sha64 : Bytes → UInt64) (header : LtxHeader) (pages : List (UInt32 × Bytes))
    (post : UInt64) (db : Bytes) : Except String UInt64 :=
  match header.preApplyChecksum with
  | some pre =>
    let expected := chainChecksum ltx sha64 pre pages
    if ¬ header.noChecksum ∧ post ≠ expected then
      .error (s!"Post-apply checksum mismatch: expected {hex16 post}, got {hex16 expected}. " ++
        "This may indicate corruption during apply.")
    else .ok expected
  | none => if header.noChecksum then .ok (computeDbChecksum ltx sha64 db) else .ok post

/-- `apply_ltx_to_db_checked`. The header's `commit` is not looked at. -/
def applyLtxToDbChecked (ltx : LtxCrate) (sha64 : Bytes → UInt64) (bytes db : Bytes) (expected : UInt64) :
    Except String LtxApplied :=
  match ltx.header bytes with
  | .error e => .error e
  | .ok header =>
    match checkPre header expected with
    | .error e => .error e
    | .ok () =>
      let db' := writeLtxPages header.pageSize (ltx.pages bytes) db
      match ltx.finish bytes with
      | .page e => .error e
      | .trailer e => .error e
      | .done post =>
        match postChecksum ltx sha64 header (ltx.pages bytes) post db' with
        | .error e => .error e
        | .ok checksum => .ok ⟨header, db', checksum⟩

/-- `verify_ltx_with_result`: the header and the trailer's chain value. -/
def verifyLtxWithResult (ltx : LtxCrate) (bytes : Bytes) : Except String (LtxHeader × UInt64) :=
  match ltx.header bytes with
  | .error e => .error e
  | .ok header =>
    match ltx.finish bytes with
    | .page e => .error e
    | .trailer e => .error e
    | .done post => .ok (header, post)

theorem verifyLtx_eq_ok {ltx : LtxCrate} {bytes : Bytes} {header : LtxHeader} {post : UInt64} :
    verifyLtxWithResult ltx bytes = .ok (header, post) ↔ ltx.header bytes = .ok header ∧ ltx.finish bytes = .done post := by
  unfold verifyLtxWithResult
  cases ltx.header bytes <;> cases ltx.finish bytes <;> simp

/-! ## Sources of a merge -/

section

variable (ltx : LtxCrate)

/-- `parse_ltx_source_header`. -/
def parseLtxSourceHeader (bytes : Bytes) : Except CompactionError SourceHeader :=
  match ltx.header bytes with
  | .error e => .error (.storage s!"ltx header decode: {e}")
  | .ok header =>
    match ltx.finish bytes with
    | .page e => .error (.storage s!"ltx page decode: {e}")
    | .trailer e => .error (.storage s!"ltx trailer verify: {e}")
    | .done post => .ok {
        pageIdSize := .u32
        pageSize := UInt32.ofNat header.pageSize
        seq := UInt64.ofNat header.maxTxid
        prevChecksum := header.preApplyChecksum.getD 0
        pageCount := UInt32.ofNat (ltx.pages bytes).length
        createdMs := header.createdMs
        declaredEndChecksum := some post }

/-- The pages of a file as a merge reads them. -/
def ltxEntries (bytes : Bytes) : List PageEntry :=
  (ltx.pages bytes).map fun p => ⟨.u32 p.1, p.2⟩

/-- `LtxChangesetStream`: the pages, then an empty page at `commit + 1`. -/
def openLtxStream (bytes : Bytes) : Except CompactionError PageStream :=
  match ltx.header bytes with
  | .error e => .error (.storage s!"ltx open: {e}")
  | .ok header =>
    match ltx.finish bytes with
    | .page e => .ok ⟨ltxEntries ltx bytes, some (.storage s!"ltx page decode: {e}")⟩
    | _ => .ok ⟨ltxEntries ltx bytes ++ [⟨.u32 (UInt32.ofNat (header.commit + 1)), []⟩], none⟩

/-- The readers a compaction over the LTX layout runs with. -/
def LtxCrate.source : LtxSource := ⟨parseLtxSourceHeader ltx, openLtxStream ltx⟩

/-- `read_header_from_storage`: the object's magic tells the format. -/
def readSourceHeader (bytes : Bytes) : Except CompactionError SourceHeader :=
  if bytes.take 4 = ltxMagic then ltx.source.header bytes else readHeader bytes

/-- `open_source_stream`, likewise. -/
def openSource (key : String) (bytes : Bytes) : Except CompactionError PageStream :=
  if bytes.take 4 = ltxMagic then ltx.source.stream bytes else openSourceStream key bytes

end

/-! ## Level listings -/

/-- One object of a level. -/
structure LevelFile where
  key : LtxKey
  level : Nat
  range : SeqRange
  lastModifiedMs : Int64
  deriving DecidableEq, Repr

end Legacy
end Walrust
