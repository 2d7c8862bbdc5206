import Walrust.Lib.Bytes

/-!
# `Walrust.Hadbp` — the HADBP changeset format

The physical changeset format every object of a bucket is written in: a header, page entries in ascending
page-id order, and a content checksum that chains to the object before it.

* `PhysicalChangeset` — the decoded object (`hadb_changeset::physical`), with `chainEnd` and
  `computeChecksum` as the format documents them;
* `PhysicalChangeset.wire` — the byte layout, field by field as the offsets in `compaction/layout.rs`
  give it;
* `Physical` — the crate that hashes and decodes. Its source is not part of this repository, so it is a
  parameter: a truncated SHA-256 and a decoder, with the one law (`decode_wire`) everything below relies
  on, that decoding a well-formed object's bytes gives the object back.
-/

namespace Walrust

open Lib.Bytes List

abbrev Bytes := List UInt8

namespace Hadbp

variable {cs : PhysicalChangeset}

/-! ## Page entries -/

inductive PageIdSize where
  | u32
  | u64
  deriving DecidableEq, Repr

/-- The discriminant, which is also the width in bytes. -/
def PageIdSize.width : PageIdSize → Nat
  | .u32 => 4
  | .u64 => 8

inductive PageId where
  | u32 (v : UInt32)
  | u64 (v : UInt64)
  deriving DecidableEq, Repr

def PageId.size : PageId → PageIdSize
  | .u32 _ => .u32
  | .u64 _ => .u64

/-- `PageId::to_u64`. -/
def PageId.toU64 : PageId → Nat
  | .u32 v => v.toNat
  | .u64 v => v.toNat

def PageId.bytes : PageId → Bytes
  | .u32 v => beBytes 4 v.toNat
  | .u64 v => beBytes 8 v.toNat

structure PageEntry where
  pageId : PageId
  data : Bytes
  deriving DecidableEq, Repr

/-- One page on the wire: id, data length, data. The content checksum hashes the same bytes. -/
def PageEntry.bytes (p : PageEntry) : Bytes :=
  p.pageId.bytes ++ beBytes 4 p.data.length ++ p.data

def pagesBytes (pages : List PageEntry) : Bytes := pages.flatMap PageEntry.bytes

@[simp] theorem pagesBytes_nil : pagesBytes [] = [] := rfl

@[simp] theorem pagesBytes_cons (p : PageEntry) (ps : List PageEntry) :
    pagesBytes (p :: ps) = p.bytes ++ pagesBytes ps := rfl

@[simp] theorem pagesBytes_append (ps qs : List PageEntry) :
    pagesBytes (ps ++ qs) = pagesBytes ps ++ pagesBytes qs := by
  simp [pagesBytes]

/-! ## Changesets -/

structure PhysicalHeader where
  flags : UInt8
  pageIdSize : PageIdSize
  pageSize : UInt32
  seq : UInt64
  prevChecksum : UInt64
  pageCount : UInt32
  createdMs : Int64
  deriving DecidableEq, Repr

/-- A decoded changeset. `declaredEndChecksum` is present exactly in a compacted (version 2) object. -/
structure PhysicalChangeset where
  header : PhysicalHeader
  declaredEndChecksum : Option UInt64
  pages : List PageEntry
  checksum : UInt64
  deriving DecidableEq, Repr

def PhysicalChangeset.isCompacted (cs : PhysicalChangeset) : Bool := cs.declaredEndChecksum.isSome

/-- The chain value after the object: declared for a compacted object, its content checksum otherwise. -/
def chainEnd (cs : PhysicalChangeset) : UInt64 := cs.declaredEndChecksum.getD cs.checksum

/-- `physical::compute_checksum` over pages already in canonical order: the previous chain value, then
    every page's wire bytes. -/
def computeChecksum (sha64 : Bytes → UInt64) (prev : UInt64) (pages : List PageEntry) : UInt64 :=
  sha64 (beBytes 8 prev.toNat ++ pagesBytes pages)

/-! ## The wire layout -/

/-- `b"HADBP"`. -/
def magic : Bytes := [72, 65, 68, 66, 80]

def versionV1 : UInt8 := 1
def versionV2 : UInt8 := 2
def flagCompacted : UInt8 := 0x80

/-- magic(5) version(1) flags(1) page_id_size(1) page_size(4) seq(8) prev_checksum(8) page_count(4)
    created_ms(8), for a given version and flag byte. -/
def headerBytes (version flags : UInt8) (h : PhysicalHeader) : Bytes :=
  magic ++ [version, flags, UInt8.ofNat h.pageIdSize.width] ++ beBytes 4 h.pageSize.toNat ++
    beBytes 8 h.seq.toNat ++ beBytes 8 h.prevChecksum.toNat ++ beBytes 4 h.pageCount.toNat ++
    beBytes 8 h.createdMs.toUInt64.toNat

/-! Offsets of the fields. -/

def offVersion : Nat := 5
def offFlags : Nat := 6
def offPageIdSize : Nat := 7
def offPageSize : Nat := 8
def offSeq : Nat := 12
def offPrev : Nat := 20
def offPageCount : Nat := 28
def offCreated : Nat := 32
def headerV1Size : Nat := 40
def declaredField : Nat := 8

section Header

variable (v f : UInt8) (h : PhysicalHeader) (tail : Bytes)

/-- The eight bytes before the first multi-byte field. -/
def lead : Bytes := magic ++ [v, f, UInt8.ofNat h.pageIdSize.width]

theorem headerBytes_append : headerBytes v f h ++ tail = lead v f h ++ (beBytes 4 h.pageSize.toNat ++
    (beBytes 8 h.seq.toNat ++ (beBytes 8 h.prevChecksum.toNat ++ (beBytes 4 h.pageCount.toNat ++
      (beBytes 8 h.createdMs.toUInt64.toNat ++ tail))))) := by
  simp only [headerBytes, lead, append_assoc]

@[simp] theorem length_headerBytes : (headerBytes v f h).length = 40 := by
  simp [headerBytes, magic]

theorem take_headerBytes : (headerBytes v f h ++ tail).take 5 = magic := by
  rw [headerBytes_append]; rfl

theorem field_version : field (headerBytes v f h ++ tail) offVersion 1 = v.toNat := by
  show beNat [v] = v.toNat
  simp [beNat]

theorem field_flags : field (headerBytes v f h ++ tail) offFlags 1 = f.toNat := by
  show beNat [f] = f.toNat
  simp [beNat]

theorem field_pageIdSize : field (headerBytes v f h ++ tail) offPageIdSize 1 = h.pageIdSize.width := by
  show beNat [UInt8.ofNat h.pageIdSize.width] = h.pageIdSize.width
  cases h.pageIdSize <;> rfl

theorem field_pageSize :
    UInt32.ofNat (field (headerBytes v f h ++ tail) offPageSize 4) = h.pageSize := by
  exact ofNat_beNat_u32 _

theorem field_seq : UInt64.ofNat (field (headerBytes v f h ++ tail) offSeq 8) = h.seq := by
  exact ofNat_beNat_u64 _

theorem field_prev : UInt64.ofNat (field (headerBytes v f h ++ tail) offPrev 8) = h.prevChecksum := by
  exact ofNat_beNat_u64 _

theorem field_pageCount :
    UInt32.ofNat (field (headerBytes v f h ++ tail) offPageCount 4) = h.pageCount := by
  exact ofNat_beNat_u32 _

theorem field_created :
    (UInt64.ofNat (field (headerBytes v f h ++ tail) offCreated 8)).toInt64 = h.createdMs := by
  rw [headerBytes_append, ← append_assoc, ← append_assoc, ← append_assoc,
    ← append_assoc, field_append (by simp [lead, magic, offCreated]), ← beNat_beBytes,
    ofNat_beNat_u64]
  rfl

theorem field_declared (e : UInt64) :
    UInt64.ofNat (field (headerBytes v f h ++ (beBytes 8 e.toNat ++ tail)) headerV1Size 8) = e := by
  exact ofNat_beNat_u64 _

end Header

/-- The encoded object: header, the declared end of a compacted object, the pages, the checksum. The
    compacted bit lives only on the wire; a decoded header does not carry it. -/
def PhysicalChangeset.wire (cs : PhysicalChangeset) : Bytes :=
  match cs.declaredEndChecksum with
  | none => headerBytes versionV1 cs.header.flags cs.header ++ pagesBytes cs.pages ++
      beBytes 8 cs.checksum.toNat
  | some e => headerBytes versionV2 (cs.header.flags ||| flagCompacted) cs.header ++ beBytes 8 e.toNat ++
      pagesBytes cs.pages ++ beBytes 8 cs.checksum.toNat

/-- The bytes of an object that is not compacted carry its clock and the chain value it continues. -/
theorem PhysicalChangeset.wire_header {cs' : PhysicalChangeset} (hcs : cs.declaredEndChecksum = none)
    (hcs' : cs'.declaredEndChecksum = none) (h : cs.wire = cs'.wire) :
    cs.header.createdMs = cs'.header.createdMs ∧ cs.header.prevChecksum = cs'.header.prevChecksum := by
  simp only [PhysicalChangeset.wire, hcs, hcs', append_assoc] at h
  constructor
  · rw [← field_created versionV1 cs.header.flags cs.header, h, field_created]
  · rw [← field_prev versionV1 cs.header.flags cs.header, h, field_prev]

/-- Page ids in strictly ascending order: the canonical order of a changeset. -/
def AscendingIds (pages : List PageEntry) : Prop :=
  pages.Pairwise (fun a b => a.pageId.toU64 < b.pageId.toU64)

instance (pages : List PageEntry) : Decidable (AscendingIds pages) :=
  inferInstanceAs (Decidable (List.Pairwise _ _))

/-- **A well-formed changeset**: what the encoder can write and the decoder accepts. -/
structure PhysicalChangeset.WellFormed (sha64 : Bytes → UInt64) (cs : PhysicalChangeset) : Prop where
  flags : cs.header.flags &&& flagCompacted = 0
  ascending : AscendingIds cs.pages
  idSize : ∀ p ∈ cs.pages, p.pageId.size = cs.header.pageIdSize
  dataLen : ∀ p ∈ cs.pages, p.data.length < 2 ^ 32
  pageCount : cs.header.pageCount.toNat = cs.pages.length
  checksum : cs.checksum = computeChecksum sha64 cs.header.prevChecksum cs.pages

/-- The shape of a well-formed changeset, whatever its trailer says: what is left when stored page bytes,
    chain values or the trailer have changed in place. -/
structure PhysicalChangeset.Shaped (cs : PhysicalChangeset) : Prop where
  flags : cs.header.flags &&& flagCompacted = 0
  ascending : AscendingIds cs.pages
  idSize : ∀ p ∈ cs.pages, p.pageId.size = cs.header.pageIdSize
  dataLen : ∀ p ∈ cs.pages, p.data.length < 2 ^ 32
  pageCount : cs.header.pageCount.toNat = cs.pages.length

theorem PhysicalChangeset.wellFormed_iff {sha64 : Bytes → UInt64} :
    cs.WellFormed sha64 ↔
      cs.Shaped ∧ cs.checksum = computeChecksum sha64 cs.header.prevChecksum cs.pages :=
  ⟨fun h => ⟨⟨h.flags, h.ascending, h.idSize, h.dataLen, h.pageCount⟩, h.checksum⟩,
    fun h => ⟨h.1.flags, h.1.ascending, h.1.idSize, h.1.dataLen, h.1.pageCount, h.2⟩⟩

/-! ## The changeset crate -/

/-- **The changeset crate.** `sha64` is the first eight bytes of SHA-256 read as a big-endian `u64`. -/
structure Physical where
  sha64 : Bytes → UInt64
  decode : Bytes → Except String PhysicalChangeset
  decode_wire : ∀ cs, cs.WellFormed sha64 → decode cs.wire = .ok cs

/-- The decoder verifies the content checksum: it accepts an object only if its trailer is the checksum of
    its pages. -/
def Physical.ChecksContent (ph : Physical) : Prop :=
  ∀ bytes cs, ph.decode bytes = .ok cs → cs.checksum = computeChecksum ph.sha64 cs.header.prevChecksum cs.pages

/-- The decoder accepts encodings only: what it returns is well formed, and its bytes are what it read. -/
def Physical.Canonical (ph : Physical) : Prop :=
  ∀ bytes cs, ph.decode bytes = .ok cs → cs.WellFormed ph.sha64 ∧ bytes = cs.wire

theorem Physical.Canonical.checksContent {ph : Physical} (h : ph.Canonical) : ph.ChecksContent :=
  fun bytes cs hok => (h bytes cs hok).1.checksum

variable (ph : Physical)

/-- `physical::encode`. -/
def Physical.encode (_ : Physical) (cs : PhysicalChangeset) : Bytes := cs.wire

/-- `PhysicalChangeset::new`: the pages in canonical order, counted and hashed. -/
def Physical.newChangeset (createdMs : Int64) (seq prevChecksum : UInt64) (pageIdSize : PageIdSize)
    (pageSize : UInt32) (pages : List PageEntry) : PhysicalChangeset :=
  let sorted := pages.mergeSort (fun a b => a.pageId.toU64 ≤ b.pageId.toU64)
  { header :=
      { flags := 0
        pageIdSize := pageIdSize
        pageSize := pageSize
        seq := seq
        prevChecksum := prevChecksum
        pageCount := UInt32.ofNat sorted.length
        createdMs := createdMs }
    declaredEndChecksum := none
    pages := sorted
    checksum := computeChecksum ph.sha64 prevChecksum sorted }

/-- `physical::verify_chain`: the object chains to `expectedPrev` and its content checksum is its own. -/
def Physical.verifyChain (expectedPrev : UInt64) (cs : PhysicalChangeset) : Except String Unit :=
  if cs.header.prevChecksum ≠ expectedPrev then
    .error s!"previous checksum {cs.header.prevChecksum} does not match {expectedPrev}"
  else if computeChecksum ph.sha64 cs.header.prevChecksum cs.pages ≠ cs.checksum then
    .error "content checksum mismatch"
  else
    .ok ()

theorem Physical.verifyChain_ok {ph : Physical} (h : cs.WellFormed ph.sha64) :
    ph.verifyChain cs.header.prevChecksum cs = .ok () := by
  simp [Physical.verifyChain, ← h.checksum]

theorem Physical.verifyChain_eq_ok {ph : Physical} {prev : UInt64} (h : ph.verifyChain prev cs = .ok ()) :
    cs.header.prevChecksum = prev := by
  unfold Physical.verifyChain at h
  by_contra hne
  rw [if_pos hne] at h
  cases h

end Hadbp

end Walrust
