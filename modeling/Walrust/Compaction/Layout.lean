import Walrust.Hadbp
import Mathlib.Tactic.Common

/-!
# `Walrust.Compaction.Layout` — ranges, source headers and page streams

What the merge engine sees of a stored object: the inclusive seq range its name carries, the light header
at its front, and its pages one at a time.

* `parseSourceHeader` — the header at the wire offsets of the source;
* `storagePages` — the page-at-a-time reader over an object's bytes (`StorageChangesetStream`);
* `readHeader_wire` / `openSourceStream_wire` — reading back a well-formed object gives its header and
  its pages. These are the two facts the engine needs about the format.
-/

namespace Walrust
namespace Compaction

open Hadbp Lib.Bytes List

inductive CompactionError where
  | emptySourceSet
  | mixedGeometry (msg : String)
  | nonContiguous (msg : String)
  | verificationFailed (msg : String)
  | overlappingExisting (msg : String)
  | decode (key source : String)
  | storage (msg : String)
  deriving DecidableEq, Repr

/-- Compaction level: `0` is the raw incremental pool. -/
abbrev Level := Nat

/-- An inclusive seq span covered by one file. -/
structure SeqRange where
  min : Nat
  max : Nat
  deriving DecidableEq, Repr

def SeqRange.point (seq : Nat) : SeqRange := ⟨seq, seq⟩

/-- Light header of a source changeset: geometry and linkage, no pages. -/
structure SourceHeader where
  pageIdSize : PageIdSize
  pageSize : UInt32
  seq : UInt64
  prevChecksum : UInt64
  pageCount : UInt32
  createdMs : Int64
  declaredEndChecksum : Option UInt64
  deriving DecidableEq, Repr

/-- The light header of a decoded changeset. -/
def sourceHeaderOf (cs : PhysicalChangeset) : SourceHeader where
  pageIdSize := cs.header.pageIdSize
  pageSize := cs.header.pageSize
  seq := cs.header.seq
  prevChecksum := cs.header.prevChecksum
  pageCount := cs.header.pageCount
  createdMs := cs.header.createdMs
  declaredEndChecksum := cs.declaredEndChecksum

/-! ## Page streams -/

/-- A page-at-a-time reader: the pages still to come, and the error (if any) that ends it early. -/
structure PageStream where
  pages : List PageEntry
  fault : Option CompactionError
  deriving DecidableEq, Repr

/-- `ChangesetPageStream::next_page`. -/
def PageStream.nextPage (s : PageStream) : Except CompactionError (Option PageEntry × PageStream) :=
  match s.pages with
  | p :: ps => .ok (some p, { s with pages := ps })
  | [] =>
    match s.fault with
    | some e => .error e
    | none => .ok (none, s)

/-! ## Reading the wire layout -/

/-- Parse a source header from the object's leading bytes. -/
def parseSourceHeader (head : Bytes) : Except CompactionError SourceHeader := do
  if head.length < headerV1Size then
    throw (.mixedGeometry s!"header truncated: {head.length} bytes")
  if head.take 5 ≠ magic then
    throw (.mixedGeometry "bad magic")
  let version := field head offVersion 1
  let flags := UInt8.ofNat (field head offFlags 1)
  let compacted ←
    if version = versionV1.toNat then pure false
    else if version = versionV2.toNat then
      if flags &&& flagCompacted = 0 then throw (.mixedGeometry "v2 without compacted flag")
      else pure true
    else throw (.mixedGeometry s!"unsupported version {version}")
  let idWidth := field head offPageIdSize 1
  let pageIdSize ←
    if idWidth = 4 then pure PageIdSize.u32
    else if idWidth = 8 then pure PageIdSize.u64
    else throw (.mixedGeometry s!"bad page_id_size {idWidth}")
  let declaredEndChecksum ←
    if compacted then
      if head.length < headerV1Size + declaredField then
        throw (.mixedGeometry "v2 header missing declared field")
      else pure (some (UInt64.ofNat (field head headerV1Size 8)))
    else pure none
  return {
    pageIdSize := pageIdSize
    pageSize := UInt32.ofNat (field head offPageSize 4)
    seq := UInt64.ofNat (field head offSeq 8)
    prevChecksum := UInt64.ofNat (field head offPrev 8)
    pageCount := UInt32.ofNat (field head offPageCount 4)
    createdMs := (UInt64.ofNat (field head offCreated 8)).toInt64
    declaredEndChecksum := declaredEndChecksum }

/-- The byte offset where the page body begins. -/
def bodyOffset (header : SourceHeader) : Nat :=
  if header.declaredEndChecksum.isSome then headerV1Size + declaredField else headerV1Size

/-- `StorageChangesetStream`: `remaining` pages from `cursor` of the object `bytes` stored under `key`. -/
def storagePages (key : String) (pageIdSize : PageIdSize) (bytes : Bytes) : Nat → Nat → PageStream
  | 0, _ => { pages := [], fault := none }
  | remaining + 1, cursor =>
    let pidLen := pageIdSize.width
    let head := (bytes.drop cursor).take (pidLen + 4)
    if head.length < pidLen + 4 then
      { pages := [], fault := some (.storage s!"short page prefix in {key} at {cursor}") }
    else
      let pageId := match pageIdSize with
        | .u32 => PageId.u32 (UInt32.ofNat (beNat (head.take 4)))
        | .u64 => PageId.u64 (UInt64.ofNat (beNat (head.take 8)))
      let dataLen := beNat (head.drop pidLen)
      let dataStart := cursor + (pidLen + 4)
      let data := (bytes.drop dataStart).take dataLen
      if data.length ≠ dataLen then
        { pages := [],
          fault := some (.storage s!"short page data in {key}: want {dataLen} got {data.length}") }
      else
        let rest := storagePages key pageIdSize bytes remaining (dataStart + dataLen)
        { rest with pages := { pageId := pageId, data := data } :: rest.pages }

/-- `read_header_from_storage` on a HADBP object: the header is parsed from a 48-byte ranged read. -/
def readHeader (bytes : Bytes) : Except CompactionError SourceHeader :=
  parseSourceHeader (bytes.take (headerV1Size + declaredField))

/-- `open_source_stream` on a HADBP object. -/
def openSourceStream (key : String) (bytes : Bytes) : Except CompactionError PageStream := do
  let header ← readHeader bytes
  return storagePages key header.pageIdSize bytes header.pageCount.toNat (bodyOffset header)

/-! ## Reading back a well-formed object -/

theorem flagCompacted_or (f : UInt8) : (f ||| flagCompacted) &&& flagCompacted = flagCompacted := by
  apply UInt8.toBitVec_inj.mp
  simp only [UInt8.toBitVec_and, UInt8.toBitVec_or]
  ext i hi
  simp only [BitVec.getElem_and, BitVec.getElem_or]
  cases f.toBitVec[i] <;> simp

/-- The header a byte string denotes, once its magic, version and id width are known. -/
def headerFields (head : Bytes) (size : PageIdSize) (declared : Option UInt64) : SourceHeader where
  pageIdSize := size
  pageSize := UInt32.ofNat (field head offPageSize 4)
  seq := UInt64.ofNat (field head offSeq 8)
  prevChecksum := UInt64.ofNat (field head offPrev 8)
  pageCount := UInt32.ofNat (field head offPageCount 4)
  createdMs := (UInt64.ofNat (field head offCreated 8)).toInt64
  declaredEndChecksum := declared

theorem parseSourceHeader_v1 {head : Bytes} {size : PageIdSize} (hlen : ¬ head.length < headerV1Size)
    (hmagic : head.take 5 = magic) (hver : field head offVersion 1 = versionV1.toNat)
    (hid : field head offPageIdSize 1 = size.width) :
    parseSourceHeader head = .ok (headerFields head size none) := by
  unfold parseSourceHeader
  cases size <;> simp [hlen, hmagic, hver, hid] <;> rfl

theorem parseSourceHeader_v2 {head : Bytes} {size : PageIdSize} (hlen : ¬ head.length < headerV1Size + declaredField)
    (hmagic : head.take 5 = magic) (hver : field head offVersion 1 = versionV2.toNat)
    (hflags : UInt8.ofNat (field head offFlags 1) &&& flagCompacted ≠ 0)
    (hid : field head offPageIdSize 1 = size.width) :
    parseSourceHeader head =
      .ok (headerFields head size (some (UInt64.ofNat (field head headerV1Size 8)))) := by
  have hlen' : ¬ head.length < headerV1Size := by
    simp only [declaredField] at hlen ⊢; omega
  unfold parseSourceHeader
  cases size <;> simp [hlen, hlen', hmagic, hver, hflags, hid] <;> rfl

/-- The header fields sit within the first forty bytes, so a ranged read that covers them is enough. -/
theorem headerFields_take {bs : Bytes} {len : Nat} (h : 40 ≤ len) (size : PageIdSize)
    (declared : Option UInt64) : headerFields (bs.take len) size declared = headerFields bs size declared := by
  unfold headerFields
  rw [field_take (by unfold offPageSize; omega), field_take (by unfold offSeq; omega),
    field_take (by unfold offPrev; omega), field_take (by unfold offPageCount; omega),
    field_take (by unfold offCreated; omega)]

theorem headerFields_headerBytes (v f : UInt8) (h : PhysicalHeader) (tail : Bytes) (declared : Option UInt64) :
    headerFields (headerBytes v f h ++ tail) h.pageIdSize declared =
      { pageIdSize := h.pageIdSize, pageSize := h.pageSize, seq := h.seq,
        prevChecksum := h.prevChecksum, pageCount := h.pageCount, createdMs := h.createdMs,
        declaredEndChecksum := declared } := by
  unfold headerFields
  rw [field_pageSize, field_seq, field_prev, field_pageCount, field_created]

/-- The header reads back from every front part of an object that reaches its page body. -/
theorem parseSourceHeader_take_wire (cs : PhysicalChangeset) {n : Nat} (hn : bodyOffset (sourceHeaderOf cs) ≤ n) :
    parseSourceHeader (cs.wire.take n) = .ok (sourceHeaderOf cs) := by
  obtain ⟨h, declared, pages, checksum⟩ := cs
  cases declared with
  | none =>
    have hw : (PhysicalChangeset.mk h none pages checksum).wire =
        headerBytes versionV1 h.flags h ++ (pagesBytes pages ++ beBytes 8 checksum.toNat) := by
      simp only [PhysicalChangeset.wire, append_assoc]
    have h40 : 40 ≤ n := hn
    rw [hw, parseSourceHeader_v1, headerFields_take h40, headerFields_headerBytes]
    · rfl
    · simp only [headerV1Size, length_take, length_append, length_headerBytes]
      omega
    · rw [take_take, min_eq_left (by omega)]
      exact take_headerBytes _ _ _ _
    · rw [field_take (by unfold offVersion; omega), field_version]
    · rw [field_take (by unfold offPageIdSize; omega), field_pageIdSize]
  | some e =>
    have hw : (PhysicalChangeset.mk h (some e) pages checksum).wire =
        headerBytes versionV2 (h.flags ||| flagCompacted) h ++
          (beBytes 8 e.toNat ++ (pagesBytes pages ++ beBytes 8 checksum.toNat)) := by
      simp only [PhysicalChangeset.wire, append_assoc]
    have h48 : 48 ≤ n := hn
    rw [hw, parseSourceHeader_v2, headerFields_take (by omega), headerFields_headerBytes,
      field_take (by unfold headerV1Size; omega), field_declared]
    · rfl
    · simp only [headerV1Size, declaredField, length_take, length_append, length_headerBytes,
        length_beBytes]
      omega
    · rw [take_take, min_eq_left (by omega)]
      exact take_headerBytes _ _ _ _
    · rw [field_take (by unfold offVersion; omega), field_version]
    · rw [field_take (by unfold offFlags; omega), field_flags, UInt8.ofNat_toNat, flagCompacted_or]
      decide
    · rw [field_take (by unfold offPageIdSize; omega), field_pageIdSize]

/-- **A stored object's header reads back.** -/
theorem readHeader_wire (cs : PhysicalChangeset) : readHeader cs.wire = .ok (sourceHeaderOf cs) := by
  refine parseSourceHeader_take_wire cs ?_
  unfold bodyOffset
  split <;> decide

/-- The ranged read of 48 bytes is enough for the header. -/
theorem readHeader_eq (bytes : Bytes) : readHeader bytes = parseSourceHeader bytes := by
  unfold readHeader
  by_cases hlen : bytes.length ≤ headerV1Size + declaredField
  · rw [take_of_length_le hlen]
  have hmin : min (headerV1Size + declaredField) bytes.length = headerV1Size + declaredField :=
    min_eq_left (by omega)
  have hmagic : (bytes.take (headerV1Size + declaredField)).take 5 = bytes.take 5 := by
    rw [take_take]
    rfl
  have hfield : ∀ off width, off + width ≤ headerV1Size + declaredField →
      field (bytes.take (headerV1Size + declaredField)) off width = field bytes off width :=
    fun off width h => field_take h
  have h1 : ¬ headerV1Size + declaredField < headerV1Size := by decide
  have h2 : ¬ bytes.length < headerV1Size := by
    omega
  have h3 : ¬ headerV1Size + declaredField < headerV1Size + declaredField := by decide
  have h4 : ¬ bytes.length < headerV1Size + declaredField := by omega
  unfold parseSourceHeader
  simp only [length_take, hmin, hmagic, h1, h2, h3, h4, hfield offVersion 1 (by decide),
    hfield offFlags 1 (by decide), hfield offPageIdSize 1 (by decide), hfield headerV1Size 8 (by decide),
    hfield offPageSize 4 (by decide), hfield offSeq 8 (by decide), hfield offPrev 8 (by decide),
    hfield offPageCount 4 (by decide), hfield offCreated 8 (by decide), if_false]

theorem length_idBytes (id : PageId) : id.bytes.length = id.size.width := by
  cases id <;> simp [PageId.bytes, PageId.size, PageIdSize.width]

/-- **A stored object's pages read back**, from wherever they start in the object. -/
theorem storagePages_pagesBytes (key : String) (size : PageIdSize) {ps : List PageEntry}
    (hid : ∀ p ∈ ps, p.pageId.size = size) (hlen : ∀ p ∈ ps, p.data.length < 2 ^ 32)
    (pre post : Bytes) :
    storagePages key size (pre ++ (pagesBytes ps ++ post)) ps.length pre.length =
      { pages := ps, fault := none } := by
  induction ps generalizing pre with
  | nil => rfl
  | cons p ps ih =>
    have hsize := hid p mem_cons_self
    have hdl : p.data.length < 256 ^ 4 := hlen p mem_cons_self
    have hidl : p.pageId.bytes.length = size.width := by rw [length_idBytes, hsize]
    have ih' := ih (fun q hq => hid q (mem_cons_of_mem _ hq))
      (fun q hq => hlen q (mem_cons_of_mem _ hq)) (pre ++ p.bytes)
    -- the object, cut at this page's two reads
    have hcut : pre ++ (pagesBytes (p :: ps) ++ post) =
        pre ++ ((p.pageId.bytes ++ beBytes 4 p.data.length) ++ (p.data ++ (pagesBytes ps ++ post))) := by
      simp [PageEntry.bytes]
    have hrest : pre ++ (pagesBytes (p :: ps) ++ post) = (pre ++ p.bytes) ++ (pagesBytes ps ++ post) := by
      simp
    have hhl : (p.pageId.bytes ++ beBytes 4 p.data.length).length = size.width + 4 := by
      simp [hidl]
    have hhead : ((pre ++ (pagesBytes (p :: ps) ++ post)).drop pre.length).take (size.width + 4) =
        p.pageId.bytes ++ beBytes 4 p.data.length := by
      rw [hcut, drop_left, take_left' hhl]
    have hdl' : beNat (beBytes 4 p.data.length) = p.data.length := beNat_beBytes_of_lt hdl
    have hdata : ((pre ++ (pagesBytes (p :: ps) ++ post)).drop (pre.length + (size.width + 4))).take
        p.data.length = p.data := by
      rw [hcut, ← append_assoc pre, drop_left' (by simp [hidl]), take_left]
    have hnext : pre.length + (size.width + 4) + p.data.length = (pre ++ p.bytes).length := by
      simp [PageEntry.bytes]; omega
    simp only [length_cons, storagePages, hhead, hhl, drop_left' hidl, hdl', hdata, hnext]
    rw [hrest, ih']
    obtain ⟨id, data⟩ := p
    cases id with
    | u32 v =>
      simp only [PageId.size] at hsize
      subst hsize
      simp [PageId.bytes, ofNat_beNat_u32]
    | u64 v =>
      simp only [PageId.size] at hsize
      subst hsize
      simp [PageId.bytes, ofNat_beNat_u64]

theorem openSourceStream_wire {cs : PhysicalChangeset} (hwf : cs.Shaped) (key : String) :
    openSourceStream key cs.wire = .ok { pages := cs.pages, fault := none } := by
  unfold openSourceStream
  rw [readHeader_wire]
  show Except.ok (storagePages key cs.header.pageIdSize cs.wire cs.header.pageCount.toNat
    (bodyOffset (sourceHeaderOf cs))) = _
  rw [hwf.pageCount]
  congr 1
  unfold PhysicalChangeset.wire bodyOffset sourceHeaderOf
  cases hd : cs.declaredEndChecksum with
  | none =>
    have := storagePages_pagesBytes key cs.header.pageIdSize hwf.idSize hwf.dataLen
      (headerBytes versionV1 cs.header.flags cs.header) (beBytes 8 cs.checksum.toNat)
    simpa [headerV1Size] using this
  | some e =>
    have := storagePages_pagesBytes key cs.header.pageIdSize hwf.idSize hwf.dataLen
      (headerBytes versionV2 (cs.header.flags ||| flagCompacted) cs.header ++ beBytes 8 e.toNat)
      (beBytes 8 cs.checksum.toNat)
    simpa [headerV1Size, declaredField] using this

/-! ## A decoder with the crate's law

The changeset crate is a parameter of the development; this decoder, built from the readers above, shows
that its law can be met for every hash. -/

def decodeWire (bytes : Bytes) : Except String PhysicalChangeset :=
  match readHeader bytes, openSourceStream "" bytes with
  | .ok h, .ok stream => .ok {
      header := {
        flags := UInt8.ofNat (field bytes offFlags 1) &&& (~~~ flagCompacted)
        pageIdSize := h.pageIdSize
        pageSize := h.pageSize
        seq := h.seq
        prevChecksum := h.prevChecksum
        pageCount := h.pageCount
        createdMs := h.createdMs }
      declaredEndChecksum := h.declaredEndChecksum
      pages := stream.pages
      checksum := UInt64.ofNat (field bytes (bytes.length - 8) 8) }
  | _, _ => .error "malformed changeset"

theorem flags_without_compacted {f : UInt8} (h : f &&& flagCompacted = 0) :
    f &&& (~~~ flagCompacted) = f ∧ (f ||| flagCompacted) &&& (~~~ flagCompacted) = f := by
  have hbits : ∀ i (hi : i < 8), f.toBitVec[i] = true → flagCompacted.toBitVec[i] = false := by
    intro i hi hf
    have := congrArg (fun x : UInt8 => x.toBitVec[i]) h
    simpa [hf] using this
  constructor <;> apply UInt8.toBitVec_inj.mp <;>
    simp only [UInt8.toBitVec_and] <;> ext i hi <;>
    cases hf : f.toBitVec[i] <;> simp [hbits i hi, hf]

theorem field_checksum {pre : Bytes} {v : UInt64} :
    UInt64.ofNat (field (pre ++ beBytes 8 v.toNat) ((pre ++ beBytes 8 v.toNat).length - 8) 8) = v := by
  have hlen : (pre ++ beBytes 8 v.toNat).length - 8 = pre.length := by simp
  have hfield : field (pre ++ (beBytes 8 v.toNat ++ [])) pre.length 8 = v.toNat % 256 ^ 8 :=
    field_append rfl
  rw [append_nil] at hfield
  rw [hlen, hfield, ← beNat_beBytes]
  exact ofNat_beNat_u64 v

/-- The changeset crate over an arbitrary hash, with `decodeWire` for its decoder. -/
def physicalOf (sha64 : Bytes → UInt64) : Physical where
  sha64 := sha64
  decode := decodeWire
  decode_wire := by
    intro cs hwf
    have hflag := flags_without_compacted hwf.flags
    have hcs : cs.wire = (match cs.declaredEndChecksum with
        | none => headerBytes versionV1 cs.header.flags cs.header ++ pagesBytes cs.pages
        | some e => headerBytes versionV2 (cs.header.flags ||| flagCompacted) cs.header ++
            beBytes 8 e.toNat ++ pagesBytes cs.pages) ++ beBytes 8 cs.checksum.toNat := by
      unfold PhysicalChangeset.wire
      cases cs.declaredEndChecksum <;> simp
    have hfl : UInt8.ofNat (field cs.wire offFlags 1) &&& (~~~ flagCompacted) = cs.header.flags := by
      unfold PhysicalChangeset.wire
      cases cs.declaredEndChecksum with
      | none => simp only [append_assoc, field_flags, UInt8.ofNat_toNat, hflag.1]
      | some e => simp only [append_assoc, field_flags, UInt8.ofNat_toNat, hflag.2]
    have hsum : UInt64.ofNat (field cs.wire (cs.wire.length - 8) 8) = cs.checksum := by
      rw [hcs]; exact field_checksum
    unfold decodeWire
    rw [readHeader_wire, openSourceStream_wire (PhysicalChangeset.wellFormed_iff.mp hwf).1]
    simp only [sourceHeaderOf, hfl, hsum]

instance (sha64 : Bytes → UInt64) (cs : PhysicalChangeset) : Decidable (cs.WellFormed sha64) :=
  decidable_of_iff (cs.header.flags &&& flagCompacted = 0 ∧ AscendingIds cs.pages ∧
      (∀ p ∈ cs.pages, p.pageId.size = cs.header.pageIdSize) ∧
      (∀ p ∈ cs.pages, p.data.length < 2 ^ 32) ∧ cs.header.pageCount.toNat = cs.pages.length ∧
      cs.checksum = computeChecksum sha64 cs.header.prevChecksum cs.pages)
    ⟨fun ⟨h1, h2, h3, h4, h5, h6⟩ => ⟨h1, h2, h3, h4, h5, h6⟩,
      fun h => ⟨h.flags, h.ascending, h.idSize, h.dataLen, h.pageCount, h.checksum⟩⟩

/-- The changeset crate over an arbitrary hash, with a decoder that accepts exactly the encodings of
    well-formed changesets. -/
def verifyingOf (sha64 : Bytes → UInt64) : Physical where
  sha64 := sha64
  decode bytes :=
    match decodeWire bytes with
    | .error e => .error e
    | .ok cs =>
      if cs.WellFormed sha64 ∧ cs.wire = bytes then .ok cs else .error "content checksum mismatch"
  decode_wire := by
    intro cs hwf
    have h : decodeWire cs.wire = .ok cs := (physicalOf sha64).decode_wire cs hwf
    rw [h]
    exact if_pos ⟨hwf, rfl⟩

theorem verifyingOf_canonical (sha64 : Bytes → UInt64) : (verifyingOf sha64).Canonical := by
  intro bytes cs h
  unfold verifyingOf at h
  dsimp only at h
  cases hd : decodeWire bytes with
  | error e => rw [hd] at h; cases h
  | ok cs' =>
    rw [hd] at h
    dsimp only at h
    split at h
    · rename_i hwf
      cases h
      exact ⟨hwf.1, hwf.2.symm⟩
    · cases h


end Compaction
end Walrust
