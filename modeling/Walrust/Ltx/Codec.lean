import Walrust.Ltx
import Mathlib.Data.List.Sort
import Mathlib.Data.List.Perm.Subperm

/-!
# `Walrust.Ltx.Codec` — encoding and decoding SQLite changesets

The two kinds of object a writer publishes, and how a reader applies them.

* `encodeWalChangesWithEndPageCount` — an incremental: the page map of a WAL batch and a size marker;
* `encodeSnapshotWithChecksum` — a snapshot: every page of the database file, and the file's hash;
* `applyChangesetToDb_delta` — applying an encoded incremental paints its pages and sets its size;
* `decodeToDb_snapshot` — decoding an encoded snapshot gives the file back, up to the size cap
  (`decodeToDb_oversize`).
-/

namespace Walrust
namespace Ltx

open Hadbp Lib.Bytes Lib.File Lib.Pages List

variable {p : PageEntry} {ph : Physical} {createdMs : Int64}

/-! ## Decoding -/

def preflightHadbpHeader (data : Bytes) : Except String Unit :=
  if data.length < hadbpHeaderSize then .ok ()
  else
    let pidLen := field data 7 1
    if pidLen ≠ 4 ∧ pidLen ≠ 8 then .ok ()
    else
      match validateSqlitePageSize (UInt32.ofNat (field data 8 4)) with
      | .error e => .error e
      | .ok _ =>
        let pageCount := field data 28 4
        let maxPossiblePages := (data.length - (hadbpHeaderSize + hadbpTrailerSize)) / (pidLen + 4)
        if maxPossiblePages < pageCount then
          .error s!"HADBP page_count {pageCount} exceeds encoded body capacity {maxPossiblePages}"
        else .ok ()

def decodeSqliteChangeset (ph : Physical) (data : Bytes) : Except String PhysicalChangeset :=
  match preflightHadbpHeader data with
  | .error e => .error e
  | .ok () =>
    match ph.decode data with
    | .error e => .error s!"Failed to decode HADBP changeset: {e}"
    | .ok cs =>
      match validateSqliteChangeset cs with
      | .error e => .error e
      | .ok () => .ok cs

/-- The header and chain value of an applied object, with the file it leaves. -/
structure Applied where
  header : PhysicalHeader
  checksum : UInt64
  db : Bytes
  deriving DecidableEq, Repr

/-- `apply_changeset_to_db`: nothing is written unless the object continues the chain. -/
def applyChangesetToDb (ph : Physical) (data db : Bytes) (expectedPrevChecksum : UInt64) :
    Except String Applied :=
  match decodeSqliteChangeset ph data with
  | .error e => .error e
  | .ok cs =>
    match ph.verifyChain expectedPrevChecksum cs with
    | .error e => .error s!"Checksum chain broken: {e}"
    | .ok () =>
      match applyDecodedChangesetToDb cs db with
      | .error e => .error e
      | .ok db' => .ok ⟨cs.header, cs.checksum, db'⟩

/-- `compute_checksum_from_file`. -/
def computeChecksumFromFile (ph : Physical) (file : Bytes) : UInt64 := ph.sha64 file

/-- The largest page id, which sizes a decoded snapshot. -/
def maxPage (cs : PhysicalChangeset) : Nat := (cs.pages.map fun p => p.pageId.toU64).foldl max 0

/-- `decode_to_db`: a snapshot written out in full. -/
def decodeToDb (ph : Physical) (data : Bytes) : Except String Applied :=
  match decodeSqliteChangeset ph data with
  | .error e => .error e
  | .ok cs =>
    match changesetEndPageCount cs with
    | .error e => .error e
    | .ok (some _) => .error "HADBP snapshot decode does not accept incremental end-page-count markers"
    | .ok none =>
      match validateSqlitePageSize cs.header.pageSize with
      | .error e => .error e
      | .ok pageSize =>
        let dbSize := maxPage cs * pageSize
        if 2 ^ 64 ≤ dbSize then
          .error "changeset max_page * page_size overflows u64 (corrupt changeset)"
        else if maxDecodedDbBytes < dbSize then
          .error s!"decoded database size {dbSize} exceeds safety cap {maxDecodedDbBytes} bytes"
        else
          match writePages cs.header.pageSize cs.pages (setLen [] dbSize) with
          | .error e => .error e
          | .ok db => .ok ⟨cs.header, computeChecksumFromFile ph db, db⟩

/-! ## Encoding -/

/-- The page loop of `encode_wal_changes_inner`. -/
def checkWalPages (pageSize : UInt32) (endPageCount : Nat) : List (UInt32 × Bytes) → Except String Unit
  | [] => .ok ()
  | (pageNum, data) :: rest =>
    if pageNum = 0 then .error "changeset contains invalid page number 0"
    else if endPageCount < pageNum.toNat then
      .error s!"changeset page {pageNum} is past encoded end_page_count {endPageCount}"
    else if data.length ≠ pageSize.toNat then
      .error (s!"changeset page {pageNum} has {data.length} bytes, " ++
        s!"expected SQLite page_size {pageSize}")
    else checkWalPages pageSize endPageCount rest

def walEntries (pages : List (UInt32 × Bytes)) (endPageCount : Nat) : List PageEntry :=
  pages.map (fun p => ⟨.u32 p.1, p.2⟩) ++ [⟨.u32 (UInt32.ofNat (endPageCount + 1)), []⟩]

section

variable (ph : Physical) (createdMs : Int64) (pages : List (UInt32 × Bytes)) (pageSize : UInt32)
  (seq prevChecksum : UInt64) (endPageCount : Nat)

/-- The changeset of an incremental: pages, size marker, marker flag. -/
def deltaChangeset : PhysicalChangeset :=
  let cs := ph.newChangeset createdMs seq prevChecksum sqlitePageIdSize pageSize
    (walEntries pages endPageCount)
  { cs with header := { cs.header with flags := cs.header.flags ||| flagEndPageCountMarker } }

/-- `encode_wal_changes_with_end_page_count`. -/
def encodeWalChangesWithEndPageCount : Except String (Bytes × UInt64) :=
  match validateSqlitePageSize pageSize with
  | .error e => .error e
  | .ok _ =>
    if endPageCount = 0 then .error "end_page_count=0 is invalid for a SQLite changeset"
    else if 2 ^ 32 - 1 ≤ endPageCount then
      .error s!"end_page_count {endPageCount} exceeds SQLite U32 page-id marker capacity"
    else
      match checkWalPages pageSize endPageCount pages with
      | .error e => .error e
      | .ok () =>
        let cs := deltaChangeset ph createdMs pages pageSize seq prevChecksum endPageCount
        .ok (ph.encode cs, cs.checksum)

end

/-- The `count` pages of a file, numbered from `first + 1`. -/
def filePages (pageSize : Nat) : Nat → Nat → Bytes → List PageEntry
  | _, 0, _ => []
  | first, count + 1, db =>
    ⟨.u32 (UInt32.ofNat (first + 1)), db.take pageSize⟩ ::
      filePages pageSize (first + 1) count (db.drop pageSize)

structure EncodedSnapshot where
  bytes : Bytes
  checksum : UInt64
  deriving DecidableEq, Repr

section

variable (ph : Physical) (createdMs : Int64) (db : Bytes) (pageSize : UInt32) (seq prevChecksum : UInt64)

def snapshotChangeset : PhysicalChangeset :=
  ph.newChangeset createdMs seq prevChecksum sqlitePageIdSize pageSize
    (filePages pageSize.toNat 0 (db.length / pageSize.toNat) db)

/-- `encode_snapshot_with_checksum` on the database file `db`. -/
def encodeSnapshotWithChecksum : Except String EncodedSnapshot :=
  match validateSqlitePageSize pageSize with
  | .error e => .error e
  | .ok ps =>
    if db.length % ps ≠ 0 then
      .error s!"database size {db.length} is not a multiple of SQLite page_size {pageSize}"
    else if 2 ^ 32 - 1 < db.length / ps then
      .error s!"database has {db.length / ps} pages, exceeds SQLite U32 page-id limit"
    else
      .ok { bytes := ph.encode (snapshotChangeset ph createdMs db pageSize seq prevChecksum)
            checksum := ph.sha64 db }

end

/-! ## Reading back what was encoded -/

section Preflight

variable {cs : PhysicalChangeset}

theorem length_pagesBytes_ge {ps : List PageEntry} (h : ∀ p ∈ ps, p.pageId.size = .u32) :
    ps.length * 8 ≤ (pagesBytes ps).length := by
  induction ps with
  | nil => simp
  | cons p ps ih =>
    have hp : p.pageId.bytes.length = 4 := by
      have := h p mem_cons_self
      cases hid : p.pageId with
      | u32 v => simp [PageId.bytes]
      | u64 v => simp [hid, PageId.size] at this
    have := ih fun q hq => h q (mem_cons_of_mem _ hq)
    simp only [pagesBytes_cons, PageEntry.bytes, length_append, length_beBytes, length_cons]
    omega

theorem preflight_headerBytes {v f : UInt8} {h : PhysicalHeader} {tail : Bytes}
    (hid : h.pageIdSize = .u32) (hps : ValidSize h.pageSize)
    (htail : h.pageCount.toNat * 8 + 8 ≤ tail.length) :
    preflightHadbpHeader (headerBytes v f h ++ tail) = .ok () := by
  have hwidth : field (headerBytes v f h ++ tail) 7 1 = 4 := by
    rw [show (7 : Nat) = offPageIdSize from rfl, field_pageIdSize, hid]
    rfl
  have hsize : UInt32.ofNat (field (headerBytes v f h ++ tail) 8 4) = h.pageSize := field_pageSize v f h tail
  have hcount : field (headerBytes v f h ++ tail) 28 4 = h.pageCount.toNat := by
    rw [headerBytes_append, ← append_assoc, ← append_assoc, ← append_assoc,
      field_append (by simp [lead, magic])]
    exact Nat.mod_eq_of_lt (by have := h.pageCount.toNat_lt; omega)
  have hcap : h.pageCount.toNat ≤ (40 + tail.length - 48) / 8 := by omega
  simp [preflightHadbpHeader, hadbpHeaderSize, hadbpTrailerSize, hwidth, hsize, hcount, hps, hcap]

theorem preflight_wire (hw : cs.WellFormed ph.sha64) {epc : Option Nat} (hv : Valid cs epc) :
    preflightHadbpHeader cs.wire = .ok () := by
  have hbody := length_pagesBytes_ge fun p hp => (hw.idSize p hp).trans hv.idSize
  have hcount := hv.count
  unfold PhysicalChangeset.wire
  split
  · rw [append_assoc]
    apply preflight_headerBytes hv.idSize hv.pageSize
    rw [length_append, length_beBytes]
    omega
  · rw [append_assoc, append_assoc]
    apply preflight_headerBytes hv.idSize hv.pageSize
    rw [length_append, length_append, length_beBytes]
    omega

/-- **A valid well-formed object decodes to itself.** -/
theorem decodeSqliteChangeset_wire (hw : cs.WellFormed ph.sha64) {epc : Option Nat} (hv : Valid cs epc) :
    decodeSqliteChangeset ph cs.wire = .ok cs := by
  simp only [decodeSqliteChangeset, preflight_wire hw hv, ph.decode_wire cs hw,
    validateSqliteChangeset_ok.mpr ⟨epc, hv⟩]

end Preflight

/-! ### Building a changeset from pages -/

section Build

variable {seq prev : UInt64} {pageSize : UInt32}

/-- Entries a changeset can be built from: `u32` ids, each once, no oversized data. -/
structure Buildable (entries : List PageEntry) : Prop where
  ids : ∀ p ∈ entries, p.pageId.size = .u32
  once : (entries.map fun p => p.pageId.toU64).Nodup
  data : ∀ p ∈ entries, p.data.length < 2 ^ 32
  count : entries.length < 2 ^ 32

theorem newChangeset_pages_perm (ph : Physical) (createdMs : Int64) (seq prev : UInt64)
    (size : PageIdSize) (pageSize : UInt32) (entries : List PageEntry) :
    (ph.newChangeset createdMs seq prev size pageSize entries).pages.Perm entries :=
  mergeSort_perm _ _

theorem newChangeset_ascending {entries : List PageEntry} (hb : Buildable entries) :
    AscendingIds (ph.newChangeset createdMs seq prev .u32 pageSize entries).pages := by
  have hperm := newChangeset_pages_perm ph createdMs seq prev .u32 pageSize entries
  -- sorted by construction, strictly because no id occurs twice
  have hle : (ph.newChangeset createdMs seq prev .u32 pageSize entries).pages.Pairwise
      (fun a b => decide (a.pageId.toU64 ≤ b.pageId.toU64) = true) := by
    apply pairwise_mergeSort
    · intro a b c hab hbc
      simp only [decide_eq_true_eq] at *
      exact hab.trans hbc
    · intro a b
      simpa using le_total a.pageId.toU64 b.pageId.toU64
  have hne : (ph.newChangeset createdMs seq prev .u32 pageSize entries).pages.Pairwise
      (fun a b => a.pageId.toU64 ≠ b.pageId.toU64) :=
    pairwise_map.mp ((hperm.map _).nodup_iff.mpr hb.once)
  refine List.Pairwise.imp ?_ (hle.and hne)
  intro a b hab
  have := hab.1
  simp only [decide_eq_true_eq] at this
  exact lt_of_le_of_ne this hab.2

theorem newChangeset_wellFormed {entries : List PageEntry} (hb : Buildable entries) :
    (ph.newChangeset createdMs seq prev .u32 pageSize entries).WellFormed ph.sha64 where
  flags := by show (0 : UInt8) &&& flagCompacted = 0; decide
  ascending := newChangeset_ascending hb
  idSize p hp := hb.ids p ((newChangeset_pages_perm ph createdMs seq prev .u32 pageSize _).mem_iff.mp hp)
  dataLen p hp := hb.data p ((newChangeset_pages_perm ph createdMs seq prev .u32 pageSize _).mem_iff.mp hp)
  pageCount := by
    have hlen := (newChangeset_pages_perm ph createdMs seq prev .u32 pageSize entries).length_eq
    have hcount := hb.count
    show (UInt32.ofNat _).toNat = _
    rw [UInt32.toNat_ofNat_of_lt']
    rfl
    show (ph.newChangeset createdMs seq prev .u32 pageSize entries).pages.length < _
    rw [hlen]
    exact hcount
  checksum := rfl

end Build

/-! ### Incrementals -/

section Delta

variable {seq prev : UInt64} {pageSize : UInt32} {pages : List (UInt32 × Bytes)} {endPageCount : Nat}

variable {post : UInt64} {bytes : Bytes}

/-- The page map as writes to 1-based pages. -/
def pageWrites (pages : List (UInt32 × Bytes)) : List (Nat × Bytes) := pages.map fun p => (p.1.toNat, p.2)

theorem nodup_pageWrites (hnodup : (pages.map Prod.fst).Nodup) :
    ((pageWrites pages).map Prod.fst).Nodup := by
  have hmap : (pageWrites pages).map Prod.fst = (pages.map Prod.fst).map UInt32.toNat := by
    simp [pageWrites]
  rw [hmap]
  exact hnodup.map fun _ _ h => UInt32.toNat_inj.mp h

theorem checkWalPages_ok : checkWalPages pageSize endPageCount pages = .ok () ↔
    ∀ p ∈ pages, p.1 ≠ 0 ∧ p.1.toNat ≤ endPageCount ∧ p.2.length = pageSize.toNat := by
  induction pages with
  | nil => simp [checkWalPages]
  | cons p pages ih =>
    obtain ⟨n, d⟩ := p
    simp only [checkWalPages]
    by_cases h0 : n = 0
    · simp [h0]
    by_cases hlt : endPageCount < n.toNat
    · simp [h0, hlt]
    by_cases hl : d.length = pageSize.toNat
    · simp [h0, hlt, hl, ih, not_lt.mp hlt]
    · simp [h0, hlt, hl]

/-- What the encoder checked. -/
structure DeltaInput (pages : List (UInt32 × Bytes)) (pageSize : UInt32) (endPageCount : Nat) : Prop where
  size : validateSqlitePageSize pageSize = .ok pageSize.toNat
  pos : endPageCount ≠ 0
  small : endPageCount < 2 ^ 32 - 1
  page : ∀ p ∈ pages, p.1 ≠ 0 ∧ p.1.toNat ≤ endPageCount ∧ p.2.length = pageSize.toNat

theorem encodeWalChanges_ok (h : encodeWalChangesWithEndPageCount ph createdMs pages pageSize seq prev endPageCount =
      .ok (bytes, post)) :
    DeltaInput pages pageSize endPageCount ∧
      bytes = (deltaChangeset ph createdMs pages pageSize seq prev endPageCount).wire ∧
      post = (deltaChangeset ph createdMs pages pageSize seq prev endPageCount).checksum := by
  unfold encodeWalChangesWithEndPageCount at h
  split at h
  · cases h
  rename_i n hsize
  obtain ⟨rfl, -⟩ := validateSqlitePageSize_ok hsize
  split at h
  · cases h
  rename_i hpos
  split at h
  · cases h
  rename_i hsmall
  split at h
  · cases h
  rename_i hpages
  injection h with h
  injection h with hbytes hpost
  exact ⟨⟨hsize, hpos, not_le.mp hsmall, checkWalPages_ok.mp hpages⟩, hbytes.symm,
    hpost.symm⟩

theorem DeltaInput.encode (hi : DeltaInput pages pageSize endPageCount) :
    encodeWalChangesWithEndPageCount ph createdMs pages pageSize seq prev endPageCount =
      .ok ((deltaChangeset ph createdMs pages pageSize seq prev endPageCount).wire,
        (deltaChangeset ph createdMs pages pageSize seq prev endPageCount).checksum) := by
  simp only [encodeWalChangesWithEndPageCount, hi.size, if_neg hi.pos, if_neg (not_le.mpr hi.small),
    checkWalPages_ok.mpr hi.page]
  rfl

theorem DeltaInput.marker_toNat (hi : DeltaInput pages pageSize endPageCount) :
    (UInt32.ofNat (endPageCount + 1)).toNat = endPageCount + 1 := by
  have := hi.small
  exact UInt32.toNat_ofNat_of_lt' (by simp only [UInt32.size]; omega)

theorem mem_walEntries :
    p ∈ walEntries pages endPageCount ↔
      (∃ q ∈ pages, p = ⟨.u32 q.1, q.2⟩) ∨ p = ⟨.u32 (UInt32.ofNat (endPageCount + 1)), []⟩ := by
  simp [walEntries, eq_comm]

/-- Distinct page numbers in `1..endPageCount` are at most `endPageCount` many. -/
theorem DeltaInput.length_le (hi : DeltaInput pages pageSize endPageCount)
    (hnodup : (pages.map Prod.fst).Nodup) : pages.length ≤ endPageCount := by
  have hsub : (pageWrites pages).map Prod.fst ⊆ range' 1 endPageCount := by
    intro n hn
    obtain ⟨e, he, rfl⟩ := mem_map.mp hn
    obtain ⟨p, hp, rfl⟩ := mem_map.mp he
    obtain ⟨h0, hle, -⟩ := hi.page p hp
    have : p.1.toNat ≠ 0 := fun h => h0 (UInt32.toNat_inj.mp h)
    rw [mem_range'_1]
    omega
  have := (subperm_of_subset (nodup_pageWrites hnodup) hsub).length_le
  simpa [pageWrites] using this

theorem DeltaInput.buildable (hi : DeltaInput pages pageSize endPageCount)
    (hnodup : (pages.map Prod.fst).Nodup) : Buildable (walEntries pages endPageCount) where
  ids p hp := by
    rcases mem_walEntries.mp hp with ⟨q, -, rfl⟩ | rfl <;> rfl
  once := by
    have hmap : (walEntries pages endPageCount).map (fun p => p.pageId.toU64) =
        (pageWrites pages).map Prod.fst ++ [(UInt32.ofNat (endPageCount + 1)).toNat] := by
      simp [walEntries, pageWrites, PageId.toU64]
    rw [hmap, hi.marker_toNat, nodup_append]
    refine ⟨nodup_pageWrites hnodup, nodup_singleton _, ?_⟩
    intro a ha b hb
    obtain ⟨e, he, rfl⟩ := mem_map.mp ha
    obtain ⟨p, hp, rfl⟩ := mem_map.mp he
    have := (hi.page p hp).2.1
    rw [mem_singleton] at hb
    omega
  data p hp := by
    have hb := (validateSqlitePageSize_ok hi.size).2
    rcases mem_walEntries.mp hp with ⟨q, hq, rfl⟩ | rfl
    · rw [(hi.page q hq).2.2]
      omega
    · show 0 < 2 ^ 32
      decide
  count := by
    have hlen := hi.length_le hnodup
    have hsmall := hi.small
    simp only [walEntries, length_append, length_map, length_singleton]
    omega

theorem deltaChangeset_pages_perm (ph : Physical) (createdMs : Int64) (pages : List (UInt32 × Bytes))
    (pageSize : UInt32) (seq prev : UInt64) (endPageCount : Nat) :
    (deltaChangeset ph createdMs pages pageSize seq prev endPageCount).pages.Perm
      (walEntries pages endPageCount) :=
  newChangeset_pages_perm ph createdMs seq prev .u32 pageSize _

/-- What is hashed of the pages of a delta: eight bytes and the data for each, and eight for the size marker. -/
theorem length_pagesBytes_delta {size : Nat} (hlen : ∀ q ∈ pages, q.2.length = size) :
    (pagesBytes (deltaChangeset ph createdMs pages pageSize seq prev endPageCount).pages).length =
      (size + 8) * pages.length + 8 := by
  rw [show (pagesBytes _).length = (pagesBytes (walEntries pages endPageCount)).length from
    ((deltaChangeset_pages_perm ph createdMs pages pageSize seq prev endPageCount).flatMap_right
      PageEntry.bytes).length_eq]
  induction pages with
  | nil => simp [walEntries, PageEntry.bytes, PageId.bytes]
  | cons q qs ih =>
    have hq := hlen q mem_cons_self
    have htail := ih fun x hx => hlen x (mem_cons_of_mem _ hx)
    simp only [walEntries, map_cons, cons_append, pagesBytes_cons, length_append,
      PageEntry.bytes, PageId.bytes, Lib.Bytes.length_beBytes] at htail ⊢
    rw [length_cons, Nat.mul_succ]
    omega

theorem deltaChangeset_wellFormed (hi : DeltaInput pages pageSize endPageCount)
    (hnodup : (pages.map Prod.fst).Nodup) :
    (deltaChangeset ph createdMs pages pageSize seq prev endPageCount).WellFormed ph.sha64 := by
  -- the marker flag changes neither the pages nor the checksum
  have hw := @newChangeset_wellFormed ph createdMs seq prev pageSize _ (hi.buildable hnodup)
  exact
    { flags := by show ((0 : UInt8) ||| flagEndPageCountMarker) &&& flagCompacted = 0; decide
      ascending := hw.ascending
      idSize := hw.idSize
      dataLen := hw.dataLen
      pageCount := hw.pageCount
      checksum := hw.checksum }

theorem deltaChangeset_mem :
    p ∈ (deltaChangeset ph createdMs pages pageSize seq prev endPageCount).pages ↔
      (∃ q ∈ pages, p = ⟨.u32 q.1, q.2⟩) ∨ p = ⟨.u32 (UInt32.ofNat (endPageCount + 1)), []⟩ :=
  (deltaChangeset_pages_perm ph createdMs pages pageSize seq prev endPageCount).mem_iff.trans
    mem_walEntries

theorem DeltaInput.data_ne_nil (hi : DeltaInput pages pageSize endPageCount) {q : UInt32 × Bytes}
    (hq : q ∈ pages) : q.2 ≠ [] := by
  have hpos := (validateSqlitePageSize_ok hi.size).2.1
  have hlen := (hi.page q hq).2.2
  rintro h
  rw [h] at hlen
  exact absurd hlen (ne_of_lt hpos)

theorem deltaChangeset_valid (hi : DeltaInput pages pageSize endPageCount) (hnodup : (pages.map Prod.fst).Nodup) :
    Valid (deltaChangeset ph createdMs pages pageSize seq prev endPageCount) (some endPageCount) where
  pageSize := hi.size
  flags := by
    show ((0 : UInt8) ||| flagEndPageCountMarker) &&& (~~~ flagEndPageCountMarker) = 0
    decide
  idSize := rfl
  count := (deltaChangeset_wellFormed hi hnodup).pageCount
  marker := by
    refine changesetEndPageCount_some.mpr ⟨?_, ⟨.u32 (UInt32.ofNat (endPageCount + 1)), []⟩, ?_,
      hi.marker_toNat⟩
    · show ((0 : UInt8) ||| flagEndPageCountMarker) &&& flagEndPageCountMarker ≠ 0
      decide
    -- the marker is the only empty entry
    have hperm := (deltaChangeset_pages_perm ph createdMs pages pageSize seq prev endPageCount).filter
      fun p => p.data.isEmpty
    have honly : (walEntries pages endPageCount).filter (fun p => p.data.isEmpty) =
        [⟨.u32 (UInt32.ofNat (endPageCount + 1)), []⟩] := by
      rw [walEntries, filter_append, filter_eq_nil_iff.mpr]
      · rfl
      · intro p hp
        obtain ⟨q, hq, rfl⟩ := mem_map.mp hp
        simpa using hi.data_ne_nil hq
    rw [honly] at hperm
    exact perm_singleton.mp hperm
  pageNum p hp := by
    rcases deltaChangeset_mem.mp hp with ⟨q, hq, rfl⟩ | rfl
    · intro h
      exact (hi.page q hq).1 (UInt32.toNat_inj.mp h)
    · show (UInt32.ofNat (endPageCount + 1)).toNat ≠ 0
      rw [hi.marker_toNat]
      omega
  bound p hp hd e he := by
    cases he
    rcases deltaChangeset_mem.mp hp with ⟨q, hq, rfl⟩ | rfl
    · exact (hi.page q hq).2.1
    · exact absurd rfl hd
  dataLen p hp hd := by
    rcases deltaChangeset_mem.mp hp with ⟨q, hq, rfl⟩ | rfl
    · exact (hi.page q hq).2.2
    · exact absurd rfl hd

/-- The page an incremental writes is the page of the map. -/
theorem written_deltaChangeset (hi : DeltaInput pages pageSize endPageCount)
    (hnodup : (pages.map Prod.fst).Nodup) (k : Nat) :
    written (deltaChangeset ph createdMs pages pageSize seq prev endPageCount).pages k =
      lastWrite (pageWrites pages) k := by
  apply Option.ext
  intro d
  constructor
  · intro h
    obtain ⟨p, hp, rfl, rfl, hd⟩ := mem_of_written h
    rcases deltaChangeset_mem.mp hp with ⟨q, hq, rfl⟩ | rfl
    · exact lastWrite_of_mem (nodup_pageWrites hnodup) (mem_map.mpr ⟨q, hq, rfl⟩)
    · exact absurd rfl hd
  · intro h
    obtain ⟨q, hq, heq⟩ := mem_map.mp (mem_of_lastWrite h)
    injection heq with hk hd
    subst hk hd
    exact written_of_mem (deltaChangeset_wellFormed hi hnodup).ascending
      (deltaChangeset_mem.mpr (.inl ⟨q, hq, rfl⟩)) (hi.data_ne_nil hq)

section

variable (h : encodeWalChangesWithEndPageCount ph createdMs pages pageSize seq prev endPageCount = .ok (bytes, post))
include h

/-- **Applying an encoded incremental.** On the chain value it was encoded after, it paints the pages of
    the map over the file, sets the declared size, and leaves its own checksum as the chain value. -/
theorem applyChangesetToDb_delta (hnodup : (pages.map Prod.fst).Nodup) (db : Bytes) :
    applyChangesetToDb ph bytes db prev =
      .ok ⟨(deltaChangeset ph createdMs pages pageSize seq prev endPageCount).header, post,
        paint pageSize.toNat (lastWrite (pageWrites pages)) endPageCount db⟩ := by
  obtain ⟨hi, rfl, rfl⟩ := encodeWalChanges_ok h
  have hw := @deltaChangeset_wellFormed ph createdMs seq prev _ _ _ hi hnodup
  have hv := @deltaChangeset_valid ph createdMs seq prev _ _ _ hi hnodup
  have hsmall : ∀ p ∈ (deltaChangeset ph createdMs pages pageSize seq prev endPageCount).pages,
      p.pageId.toU64 < 2 ^ 32 := by
    intro p hp
    rcases deltaChangeset_mem.mp hp with ⟨q, -, rfl⟩ | rfl
    · exact q.1.toNat_lt
    · exact UInt32.toNat_lt _
  obtain ⟨db', happly, hlen, hbyte⟩ := applyDecoded_spec hv hsmall db
  have hdb : db' = paint pageSize.toNat (lastWrite (pageWrites pages)) endPageCount db := by
    apply eq_paint hlen
    intro i hlt
    rw [hbyte i hlt, written_deltaChangeset hi hnodup]
    rfl
  have hchain := ph.verifyChain_ok hw
  rw [show (deltaChangeset ph createdMs pages pageSize seq prev endPageCount).header.prevChecksum = prev
    from rfl] at hchain
  simp only [applyChangesetToDb, decodeSqliteChangeset_wire hw hv, hchain, happly, hdb]

/-- An incremental applies to a file only where its chain value is expected. -/
theorem applyChangesetToDb_delta_prev {expected : UInt64} {db : Bytes} {step : Applied}
    (hnodup : (pages.map Prod.fst).Nodup)
    (happly : applyChangesetToDb ph bytes db expected = .ok step) : prev = expected := by
  obtain ⟨hi, rfl, rfl⟩ := encodeWalChanges_ok h
  have hw := @deltaChangeset_wellFormed ph createdMs seq prev _ _ _ hi hnodup
  have hv := @deltaChangeset_valid ph createdMs seq prev _ _ _ hi hnodup
  simp only [applyChangesetToDb, decodeSqliteChangeset_wire hw hv] at happly
  split at happly
  · cases happly
  rename_i hchain
  exact Physical.verifyChain_eq_ok hchain

end

end Delta

/-! ### Snapshots -/

section Snapshot

variable {seq prev : UInt64} {pageSize : UInt32} {db : Bytes}

variable {i : Nat} {snap : EncodedSnapshot} {file : Bytes}

theorem mem_filePages {ps first count : Nat} :
    p ∈ filePages ps first count file ↔
      ∃ i, i < count ∧ p = ⟨.u32 (UInt32.ofNat (first + i + 1)), (file.drop (i * ps)).take ps⟩ := by
  induction count generalizing first file with
  | zero => simp [filePages]
  | succ count ih =>
    simp only [filePages, mem_cons, ih, drop_drop]
    constructor
    · rintro (rfl | ⟨i, hi, rfl⟩)
      · exact ⟨0, Nat.succ_pos _, by simp⟩
      · refine ⟨i + 1, by omega, ?_⟩
        rw [Nat.succ_mul, add_comm ps, show first + 1 + i + 1 = first + (i + 1) + 1 by omega]
    · rintro ⟨i, hi, rfl⟩
      cases i with
      | zero => exact .inl (by simp)
      | succ i =>
        refine .inr ⟨i, by omega, ?_⟩
        rw [Nat.succ_mul, add_comm ps, show first + 1 + i + 1 = first + (i + 1) + 1 by omega]

theorem length_filePages (ps first count : Nat) (file : Bytes) :
    (filePages ps first count file).length = count := by
  induction count generalizing first file with
  | zero => rfl
  | succ count ih => simp [filePages, ih]

theorem filePages_ids {ps first count : Nat} (h : first + count < 2 ^ 32) :
    (filePages ps first count file).map (fun p => p.pageId.toU64) = range' (first + 1) count := by
  induction count generalizing first file with
  | zero => rfl
  | succ count ih =>
    have hid : (UInt32.ofNat (first + 1)).toNat = first + 1 :=
      UInt32.toNat_ofNat_of_lt' (by simp only [UInt32.size]; omega)
    rw [filePages, map_cons, ih (by omega)]
    exact congrArg (· :: _) hid

/-- What the snapshot encoder checked. -/
structure SnapshotInput (db : Bytes) (pageSize : UInt32) : Prop where
  size : validateSqlitePageSize pageSize = .ok pageSize.toNat
  aligned : db.length % pageSize.toNat = 0
  small : db.length / pageSize.toNat < 2 ^ 32

theorem encodeSnapshot_ok (h : encodeSnapshotWithChecksum ph createdMs db pageSize seq prev = .ok snap) :
    SnapshotInput db pageSize ∧
      snap.bytes = (snapshotChangeset ph createdMs db pageSize seq prev).wire ∧
      snap.checksum = ph.sha64 db := by
  unfold encodeSnapshotWithChecksum at h
  split at h
  · cases h
  rename_i n hsize
  obtain ⟨rfl, -⟩ := validateSqlitePageSize_ok hsize
  split at h
  · cases h
  rename_i haligned
  split at h
  · cases h
  cases h
  exact ⟨⟨hsize, not_not.mp haligned, by omega⟩, rfl, rfl⟩

theorem SnapshotInput.encode (hi : SnapshotInput db pageSize) :
    encodeSnapshotWithChecksum ph createdMs db pageSize seq prev =
      .ok ⟨(snapshotChangeset ph createdMs db pageSize seq prev).wire, ph.sha64 db⟩ := by
  have hsmall : ¬ 2 ^ 32 - 1 < db.length / pageSize.toNat := by
    have := hi.small
    omega
  simp only [encodeSnapshotWithChecksum, hi.size, hi.aligned, if_neg hsmall]
  rfl

theorem SnapshotInput.length_eq (hi : SnapshotInput db pageSize) :
    db.length / pageSize.toNat * pageSize.toNat = db.length :=
  Nat.div_mul_cancel (Nat.dvd_of_mod_eq_zero hi.aligned)

theorem mem_snapshotChangeset {p : PageEntry} :
    p ∈ (snapshotChangeset ph createdMs db pageSize seq prev).pages ↔
      ∃ i, i < db.length / pageSize.toNat ∧
        p = ⟨.u32 (UInt32.ofNat (i + 1)), (db.drop (i * pageSize.toNat)).take pageSize.toNat⟩ := by
  have hperm : (snapshotChangeset ph createdMs db pageSize seq prev).pages.Perm
      (filePages pageSize.toNat 0 (db.length / pageSize.toNat) db) :=
    newChangeset_pages_perm ph createdMs seq prev .u32 pageSize _
  rw [hperm.mem_iff, mem_filePages]
  simp

section

variable (hi : SnapshotInput db pageSize)
include hi

theorem SnapshotInput.length_page (h : i < db.length / pageSize.toNat) :
    ((db.drop (i * pageSize.toNat)).take pageSize.toNat).length = pageSize.toNat := by
  have hmul : (i + 1) * pageSize.toNat ≤ db.length := by
    calc (i + 1) * pageSize.toNat ≤ db.length / pageSize.toNat * pageSize.toNat :=
          Nat.mul_le_mul_right _ h
      _ = db.length := hi.length_eq
  rw [Nat.succ_mul] at hmul
  rw [length_take, length_drop]
  omega

theorem SnapshotInput.id_toNat (h : i < db.length / pageSize.toNat) :
    (UInt32.ofNat (i + 1)).toNat = i + 1 := by
  have := hi.small
  exact UInt32.toNat_ofNat_of_lt' (by simp only [UInt32.size]; omega)

theorem SnapshotInput.buildable :
    Buildable (filePages pageSize.toNat 0 (db.length / pageSize.toNat) db) where
  ids p hp := by
    obtain ⟨i, -, rfl⟩ := mem_filePages.mp hp
    rfl
  once := by
    have := hi.small
    rw [filePages_ids (by omega)]
    exact nodup_range'
  data p hp := by
    have hb := (validateSqlitePageSize_ok hi.size).2
    obtain ⟨i, hlt, rfl⟩ := mem_filePages.mp hp
    rw [hi.length_page hlt]
    omega
  count := by
    rw [length_filePages]
    exact hi.small

end

theorem snapshotChangeset_wellFormed (hi : SnapshotInput db pageSize) :
    (snapshotChangeset ph createdMs db pageSize seq prev).WellFormed ph.sha64 :=
  newChangeset_wellFormed hi.buildable

theorem snapshotChangeset_valid (hi : SnapshotInput db pageSize) :
    Valid (snapshotChangeset ph createdMs db pageSize seq prev) none where
  pageSize := hi.size
  flags := by show (0 : UInt8) &&& (~~~ flagEndPageCountMarker) = 0; decide
  idSize := rfl
  count := (snapshotChangeset_wellFormed hi).pageCount
  marker := by
    refine changesetEndPageCount_none.mpr ⟨?_, ?_⟩
    · show (0 : UInt8) &&& flagEndPageCountMarker = 0
      decide
    · intro p hp hnil
      have hpos := (validateSqlitePageSize_ok hi.size).2.1
      obtain ⟨i, hlt, rfl⟩ := mem_snapshotChangeset.mp hp
      have hlen := hi.length_page hlt
      rw [show (db.drop (i * pageSize.toNat)).take pageSize.toNat = [] from hnil] at hlen
      exact absurd hlen (ne_of_lt hpos)
  pageNum p hp := by
    obtain ⟨i, hlt, rfl⟩ := mem_snapshotChangeset.mp hp
    show (UInt32.ofNat (i + 1)).toNat ≠ 0
    rw [hi.id_toNat hlt]
    omega
  bound p hp hd e he := by cases he
  dataLen p hp hd := by
    obtain ⟨i, hlt, rfl⟩ := mem_snapshotChangeset.mp hp
    exact hi.length_page hlt

theorem foldl_max_le {l : List Nat} {a n : Nat} : l.foldl max a ≤ n ↔ a ≤ n ∧ ∀ x ∈ l, x ≤ n := by
  induction l generalizing a with
  | nil => simp
  | cons x l ih => simp [ih, and_assoc]

theorem maxPage_snapshotChangeset (hi : SnapshotInput db pageSize) :
    maxPage (snapshotChangeset ph createdMs db pageSize seq prev) = db.length / pageSize.toNat := by
  unfold maxPage
  apply le_antisymm
  · rw [foldl_max_le]
    refine ⟨Nat.zero_le _, ?_⟩
    intro n hn
    obtain ⟨p, hp, rfl⟩ := mem_map.mp hn
    obtain ⟨i, hlt, rfl⟩ := mem_snapshotChangeset.mp hp
    show (UInt32.ofNat (i + 1)).toNat ≤ _
    rw [hi.id_toNat hlt]
    exact hlt
  · rcases Nat.eq_zero_or_pos (db.length / pageSize.toNat) with h0 | hpos
    · rw [h0]
      exact Nat.zero_le _
    -- the last page is there
    have hlt : db.length / pageSize.toNat - 1 < db.length / pageSize.toNat := by omega
    have hmem : db.length / pageSize.toNat ∈
        ((snapshotChangeset ph createdMs db pageSize seq prev).pages.map fun p => p.pageId.toU64) := by
      refine mem_map.mpr ⟨_, mem_snapshotChangeset.mpr ⟨_, hlt, rfl⟩, ?_⟩
      show (UInt32.ofNat (db.length / pageSize.toNat - 1 + 1)).toNat = _
      rw [hi.id_toNat hlt]
      omega
    exact (foldl_max_le.mp le_rfl).2 _ hmem

theorem length_writePages {v : UInt32} {ps : List PageEntry} (hw : Writable v ps) {file' : Bytes}
    (hin : ∀ p ∈ ps, p.data ≠ [] → p.pageId.toU64 * v.toNat ≤ file.length)
    (h : writePages v ps file = .ok file') : file'.length = file.length := by
  induction ps generalizing file with
  | nil =>
    injection h with h
    rw [h]
  | cons p ps ih =>
    by_cases hd : p.data = []
    · rw [writePages, if_pos hd] at h
      exact ih hw.tail (fun q hq => hin q (mem_cons_of_mem _ hq)) h
    have hn := hw.pageNum p mem_cons_self
    have hoff := sqlitePageOffset_ok hn (le_of_lt (hw.small p mem_cons_self)) hw.valid
    rw [writePages, if_neg hd, hoff] at h
    have hend := hin p mem_cons_self hd
    have hlen : (writeAt file ((p.pageId.toU64 - 1) * v.toNat) p.data).length = file.length := by
      rw [length_writeAt _ _ hd, hw.dataLen p mem_cons_self hd, ← Nat.succ_mul,
        Nat.succ_eq_add_one, Nat.sub_add_cancel (pos_of_ne_zero hn)]
      exact max_eq_left hend
    rw [← hlen]
    refine ih hw.tail ?_ h
    rw [hlen]
    exact fun q hq => hin q (mem_cons_of_mem _ hq)

/-- The page of an aligned file that a byte belongs to is the one the snapshot carries for it. -/
theorem written_snapshotChangeset (hi : SnapshotInput db pageSize) (h : i < db.length) :
    written (snapshotChangeset ph createdMs db pageSize seq prev).pages (pageOf pageSize.toNat i) =
      some ((db.drop (i / pageSize.toNat * pageSize.toNat)).take pageSize.toNat) := by
  have hlt : i / pageSize.toNat < db.length / pageSize.toNat :=
    Nat.div_lt_div_of_lt_of_dvd (Nat.dvd_of_mod_eq_zero hi.aligned) h
  have hmem := (@mem_snapshotChangeset ph createdMs seq prev pageSize db _).mpr
    ⟨i / pageSize.toNat, hlt, rfl⟩
  have hne : (db.drop (i / pageSize.toNat * pageSize.toNat)).take pageSize.toNat ≠ [] := by
    intro hnil
    have hpos := (validateSqlitePageSize_ok hi.size).2.1
    have hlen := hi.length_page hlt
    rw [hnil] at hlen
    exact absurd hlen (ne_of_lt hpos)
  have := written_of_mem (snapshotChangeset_wellFormed hi).ascending hmem hne
  rwa [show (PageId.u32 (UInt32.ofNat (i / pageSize.toNat + 1))).toU64 = pageOf pageSize.toNat i
    from hi.id_toNat hlt] at this

theorem SnapshotInput.writable (hi : SnapshotInput db pageSize) :
    Writable pageSize (snapshotChangeset ph createdMs db pageSize seq prev).pages := by
  apply (snapshotChangeset_valid hi).writable
  intro p hp
  obtain ⟨i, -, rfl⟩ := mem_snapshotChangeset.mp hp
  exact UInt32.toNat_lt _

/-- Writing a snapshot's pages over an empty file of the right size gives the encoded file back. -/
theorem writePages_snapshot (hi : SnapshotInput db pageSize) :
    writePages pageSize (snapshotChangeset ph createdMs db pageSize seq prev).pages
      (setLen [] db.length) = .ok db := by
  have hw := @SnapshotInput.writable ph createdMs seq prev pageSize db hi
  obtain ⟨db', hwrite, hbyte⟩ := writePages_byteAt hw (setLen [] db.length)
  have hlen : db'.length = db.length := by
    rw [length_writePages hw _ hwrite, length_setLen]
    intro p hp _
    obtain ⟨i, hlt, rfl⟩ := mem_snapshotChangeset.mp hp
    show (UInt32.ofNat (i + 1)).toNat * _ ≤ _
    rw [hi.id_toNat hlt, length_setLen]
    calc (i + 1) * pageSize.toNat ≤ db.length / pageSize.toNat * pageSize.toNat :=
          Nat.mul_le_mul_right _ hlt
      _ = db.length := hi.length_eq
  have hdb : db' = db := by
    apply ext_byteAt hlen
    intro i hlt
    rw [hlen] at hlt
    have hpos := (validateSqlitePageSize_ok hi.size).2.1
    rw [hbyte i, written_snapshotChangeset hi hlt]
    -- byte `i % pageSize` of page `i / pageSize` is byte `i`
    show byteAt ((db.drop _).take _) _ = _
    rw [byteAt_take (Nat.mod_lt _ hpos), byteAt, byteAt, getD_eq_getElem?_getD,
      getD_eq_getElem?_getD, List.getElem?_drop, mul_comm, Nat.div_add_mod]
  rw [hwrite, hdb]

section

variable (h : encodeSnapshotWithChecksum ph createdMs db pageSize seq prev = .ok snap)
include h

/-- The decoder gives a snapshot back, unless its size cap refuses it. -/
theorem decodeToDb_encoded :
    ∃ e e', decodeToDb ph snap.bytes =
      if 2 ^ 64 ≤ db.length then .error e
      else if maxDecodedDbBytes < db.length then .error e'
      else .ok ⟨(snapshotChangeset ph createdMs db pageSize seq prev).header, snap.checksum, db⟩ := by
  obtain ⟨hi, hbytes, hsum⟩ := encodeSnapshot_ok h
  have hv := @snapshotChangeset_valid ph createdMs seq prev pageSize db hi
  have hdec := decodeSqliteChangeset_wire (@snapshotChangeset_wellFormed ph createdMs seq prev _ _ hi) hv
  have hmax := @maxPage_snapshotChangeset ph createdMs seq prev pageSize db hi
  have hsize : validateSqlitePageSize (snapshotChangeset ph createdMs db pageSize seq prev).header.pageSize
      = .ok pageSize.toNat := hi.size
  have hwrite := @writePages_snapshot ph createdMs seq prev pageSize db hi
  rw [hbytes, hsum]
  simp only [decodeToDb, hdec, hv.marker, hsize, hmax, hi.length_eq]
  rw [show (snapshotChangeset ph createdMs db pageSize seq prev).header.pageSize = pageSize from rfl,
    hwrite]
  exact ⟨_, _, rfl⟩

/-- **Decoding an encoded snapshot** within the size cap gives the database file back, with its hash. -/
theorem decodeToDb_snapshot (hcap : db.length ≤ maxDecodedDbBytes) :
    decodeToDb ph snap.bytes =
      .ok ⟨(snapshotChangeset ph createdMs db pageSize seq prev).header, snap.checksum, db⟩ := by
  obtain ⟨e, e', heq⟩ := decodeToDb_encoded h
  rw [heq, if_neg (by unfold maxDecodedDbBytes at hcap; omega), if_neg (not_lt.mpr hcap)]

/-- A snapshot of a larger file cannot be decoded: the decoder's size cap refuses it. -/
theorem decodeToDb_oversize (hcap : maxDecodedDbBytes < db.length) : ∃ e, decodeToDb ph snap.bytes = .error e := by
  obtain ⟨e, e', heq⟩ := decodeToDb_encoded h
  rw [heq, if_pos hcap]
  split
  · exact ⟨_, rfl⟩
  · exact ⟨_, rfl⟩

end

end Snapshot

end Ltx
end Walrust
