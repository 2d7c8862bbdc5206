import Walrust.Hadbp
import Walrust.Lib.Pages

/-!
# `Walrust.Ltx` — HADBP changesets over SQLite pages

The codec of `ltx.rs` (the name is a legacy alias there): which changesets are acceptable for a SQLite
database, how an object is applied to a database file, and how snapshots and WAL batches are encoded.

A database file is its bytes. A fallible operation returns `Except String`, with the source's message.

* `validateSqliteChangeset` / `validateSqliteChangeset_ok` — the checks, and the `Valid` facts they leave;
* `applyDecodedChangesetToDb` / `applyDecoded_spec` — in-place page writes followed by the
  end-page-count truncation: what they do to the file's length and to each byte.
-/

namespace Walrust
namespace Ltx

open Hadbp Lib.File Lib.Pages List

variable {cs : PhysicalChangeset} {e : Nat} {ps : List PageEntry} {v : UInt32}

/-! ## Constants -/

def sqlitePageIdSize : PageIdSize := .u32
def flagEndPageCountMarker : UInt8 := 0x01
def hadbpHeaderSize : Nat := 40
def hadbpTrailerSize : Nat := 8
def minSqlitePageSize : Nat := 512
def maxSqlitePageSize : Nat := 65536

/-- `1 << 40`: the sanity cap for untrusted objects. -/
def maxDecodedDbBytes : Nat := 2 ^ 40

/-! ## Validation -/

/-- `u32::is_power_of_two`. -/
def isPowerOfTwo (n : Nat) : Bool := n ≠ 0 && 2 ^ n.log2 == n

/-- Two lower-case hex digits, `{:02x}`. -/
def hex2 (b : UInt8) : String :=
  String.ofList [Nat.digitChar (b.toNat / 16), Nat.digitChar (b.toNat % 16)]

def validateSqlitePageSize (pageSize : UInt32) : Except String Nat :=
  if ¬ (minSqlitePageSize ≤ pageSize.toNat ∧ pageSize.toNat ≤ maxSqlitePageSize)
      ∨ ¬ isPowerOfTwo pageSize.toNat then
    .error (s!"Invalid SQLite page_size {pageSize}; expected power of two between " ++
      s!"{minSqlitePageSize} and {maxSqlitePageSize}")
  else .ok pageSize.toNat

/-- The size passes the check. -/
abbrev ValidSize (pageSize : UInt32) : Prop := validateSqlitePageSize pageSize = .ok pageSize.toNat

/-- The marker scan of `changeset_end_page_count`, with the marker found so far. -/
def endPageCountLoop (flags : UInt8) : Option Nat → List PageEntry → Except String (Option Nat)
  | marker, [] => .ok marker
  | marker, p :: ps =>
    if p.data ≠ [] then endPageCountLoop flags marker ps
    else if flags &&& flagEndPageCountMarker = 0 then
      .error s!"changeset page {p.pageId.toU64} is empty but end-page-count marker flag is not set"
    else if p.pageId.toU64 = 0 then .error "changeset contains invalid page number 0"
    else if marker.isSome then .error "changeset contains multiple end-page-count markers"
    else endPageCountLoop flags (some (p.pageId.toU64 - 1)) ps

/-- The database size (in pages) an incremental declares: an empty page at `end_page_count + 1`. -/
def changesetEndPageCount (cs : PhysicalChangeset) : Except String (Option Nat) :=
  match endPageCountLoop cs.header.flags none cs.pages with
  | .error e => .error e
  | .ok marker =>
    if cs.header.flags &&& flagEndPageCountMarker ≠ 0 ∧ marker = none then
      .error "HADBP end-page-count marker flag set without marker page"
    else .ok marker

/-- The page loop of `validate_sqlite_changeset`. -/
def validatePages (pageSize : Nat) (endPageCount : Option Nat) : List PageEntry → Except String Unit
  | [] => .ok ()
  | p :: ps =>
    if p.pageId.toU64 = 0 then .error "changeset contains invalid page number 0"
    else if p.data = [] then validatePages pageSize endPageCount ps
    else if endPageCount.any (· < p.pageId.toU64) then
      .error (s!"changeset page {p.pageId.toU64} is past encoded end_page_count " ++
        s!"{endPageCount.getD 0}")
    else if p.data.length ≠ pageSize then
      .error (s!"changeset page {p.pageId.toU64} has {p.data.length} bytes, " ++
        s!"expected SQLite page_size {pageSize}")
    else validatePages pageSize endPageCount ps

def validateSqliteChangeset (cs : PhysicalChangeset) : Except String Unit :=
  match validateSqlitePageSize cs.header.pageSize with
  | .error e => .error e
  | .ok pageSize =>
    if cs.header.flags &&& (~~~ flagEndPageCountMarker) ≠ 0 then
      .error s!"Unsupported HADBP flags for SQLite changeset: 0x{hex2 cs.header.flags}"
    else if cs.header.pageIdSize ≠ sqlitePageIdSize then
      .error "Invalid SQLite page_id_size U64; expected U32"
    else if cs.header.pageCount.toNat ≠ cs.pages.length then
      .error (s!"HADBP page_count {cs.header.pageCount} does not match decoded page count " ++
        s!"{cs.pages.length}")
    else
      match changesetEndPageCount cs with
      | .error e => .error e
      | .ok endPageCount => validatePages pageSize endPageCount cs.pages

/-! ## Applying a changeset -/

def sqlitePageOffset (pageNum : Nat) (pageSize : UInt32) : Except String Nat :=
  if pageNum = 0 then .error "changeset contains invalid page number 0"
  else
    match validateSqlitePageSize pageSize with
    | .error e => .error e
    | .ok ps =>
      if 2 ^ 64 ≤ (pageNum - 1) * ps then .error s!"SQLite page offset overflow for page {pageNum}"
      else .ok ((pageNum - 1) * ps)

/-- The write loop: every non-empty page at its offset. -/
def writePages (pageSize : UInt32) : List PageEntry → Bytes → Except String Bytes
  | [], db => .ok db
  | p :: ps, db =>
    if p.data = [] then writePages pageSize ps db
    else
      match sqlitePageOffset p.pageId.toU64 pageSize with
      | .error e => .error e
      | .ok offset => writePages pageSize ps (writeAt db offset p.data)

/-- Apply a decoded changeset to an existing database file, in place. -/
def applyDecodedChangesetToDb (cs : PhysicalChangeset) (db : Bytes) : Except String Bytes :=
  match validateSqliteChangeset cs with
  | .error e => .error e
  | .ok () =>
    match writePages cs.header.pageSize cs.pages db with
    | .error e => .error e
    | .ok db' =>
      match changesetEndPageCount cs with
      | .error e => .error e
      | .ok none => .ok db'
      | .ok (some endPageCount) =>
        match validateSqlitePageSize cs.header.pageSize with
        | .error e => .error e
        | .ok pageSize =>
          if 2 ^ 64 ≤ endPageCount * pageSize then
            .error "end_page_count * page_size overflows u64"
          else .ok (setLen db' (endPageCount * pageSize))

/-! ## What validation leaves -/

theorem validateSqlitePageSize_ok {n : Nat} (h : validateSqlitePageSize v = .ok n) :
    n = v.toNat ∧ 0 < n ∧ n ≤ 65536 := by
  unfold validateSqlitePageSize at h
  split at h
  · cases h
  rename_i hc
  simp only [not_or] at hc
  have hn : v.toNat = n := by injection h
  have := hc.1
  simp only [minSqlitePageSize, maxSqlitePageSize] at this
  omega

/-- Once a marker is found, the scan succeeds only on pages with data. -/
theorem endPageCountLoop_marked {flags : UInt8} {m : Option Nat} :
    endPageCountLoop flags (some e) ps = .ok m ↔ m = some e ∧ ∀ p ∈ ps, p.data ≠ [] := by
  induction ps with
  | nil => simp [endPageCountLoop, eq_comm]
  | cons p ps ih =>
    by_cases hd : p.data = []
    · simp [endPageCountLoop, hd]
      intro h
      split at h <;> (try split at h) <;> cases h
    · simp [endPageCountLoop, hd, ih]

/-- No size is declared exactly if every page carries data. -/
theorem endPageCountLoop_none (flags : UInt8) :
    endPageCountLoop flags none ps = .ok none ↔ ∀ p ∈ ps, p.data ≠ [] := by
  induction ps with
  | nil => simp [endPageCountLoop]
  | cons p ps ih =>
    by_cases hd : p.data = []
    · simp only [endPageCountLoop, hd, ne_eq, not_true_eq_false, if_false, mem_cons, forall_eq_or_imp,
        false_and, iff_false]
      intro h
      split at h
      · cases h
      split at h
      · cases h
      · simp [endPageCountLoop_marked] at h
    · simp [endPageCountLoop, hd, ih]

/-- A size is declared exactly if the flag is set and one page, at `end_page_count + 1`, is empty. -/
theorem endPageCountLoop_some {flags : UInt8} :
    endPageCountLoop flags none ps = .ok (some e) ↔
      flags &&& flagEndPageCountMarker ≠ 0 ∧
        ∃ m, ps.filter (fun p => p.data.isEmpty) = [m] ∧ m.pageId.toU64 = e + 1 := by
  induction ps with
  | nil => simp [endPageCountLoop]
  | cons p ps ih =>
    by_cases hd : p.data = []
    · by_cases hf : flags &&& flagEndPageCountMarker = 0
      · simp [endPageCountLoop, hd, hf]
      by_cases h0 : p.pageId.toU64 = 0
      · simp only [endPageCountLoop, hd, ne_eq, not_true_eq_false, if_false, hf, h0, if_true, reduceCtorEq,
          not_false_eq_true, true_and, false_iff, filter_cons, isEmpty_nil, List.cons.injEq]
        rintro ⟨m, ⟨rfl, -⟩, hm⟩
        omega
      simp only [endPageCountLoop, hd, ne_eq, not_true_eq_false, if_false, hf, h0, Option.isSome_none,
        Bool.false_eq_true, endPageCountLoop_marked, Option.some.injEq, not_false_eq_true, true_and,
        filter_cons, if_true, List.cons.injEq, filter_eq_nil_iff, List.isEmpty_iff]
      constructor
      · rintro ⟨he, hps⟩
        exact ⟨p, ⟨rfl, hps⟩, by omega⟩
      · rintro ⟨m, ⟨rfl, hps⟩, hm⟩
        exact ⟨by omega, hps⟩
    · simp [endPageCountLoop, hd, ih]

/-- The facts `validate_sqlite_changeset` leaves about a changeset that declares `endPageCount`. -/
structure Valid (cs : PhysicalChangeset) (endPageCount : Option Nat) : Prop where
  pageSize : validateSqlitePageSize cs.header.pageSize = .ok cs.header.pageSize.toNat
  flags : cs.header.flags &&& (~~~ flagEndPageCountMarker) = 0
  idSize : cs.header.pageIdSize = .u32
  count : cs.header.pageCount.toNat = cs.pages.length
  marker : changesetEndPageCount cs = .ok endPageCount
  pageNum : ∀ p ∈ cs.pages, p.pageId.toU64 ≠ 0
  bound : ∀ p ∈ cs.pages, p.data ≠ [] → ∀ e, endPageCount = some e → p.pageId.toU64 ≤ e
  dataLen : ∀ p ∈ cs.pages, p.data ≠ [] → p.data.length = cs.header.pageSize.toNat

theorem validatePages_ok {pageSize : Nat} {epc : Option Nat} :
    validatePages pageSize epc ps = .ok () ↔ ∀ p ∈ ps, p.pageId.toU64 ≠ 0 ∧
      (p.data ≠ [] → (∀ e, epc = some e → p.pageId.toU64 ≤ e) ∧ p.data.length = pageSize) := by
  induction ps with
  | nil => simp [validatePages]
  | cons p ps ih =>
    simp only [validatePages, mem_cons, forall_eq_or_imp]
    by_cases h0 : p.pageId.toU64 = 0
    · simp [h0]
    by_cases hd : p.data = []
    · simp [h0, hd, ih]
    by_cases hlt : epc.any (· < p.pageId.toU64)
    · simp only [h0, hd, hlt, if_false, if_true, reduceCtorEq, false_iff, not_and]
      intro h
      cases epc with
      | none => simp at hlt
      | some e =>
        have := (h.2 hd).1 e rfl
        simp at hlt
        omega
    by_cases hl : p.data.length = pageSize
    · have hb : ∀ e, epc = some e → p.pageId.toU64 ≤ e := by
        rintro e rfl
        simpa using hlt
      simp only [h0, hd, hlt, hl, Bool.false_eq_true, if_false, ne_eq, not_true_eq_false,
        not_false_eq_true, true_and, ih, forall_true_left, and_true]
      exact ⟨fun h => ⟨hb, h⟩, fun h => h.2⟩
    · simp [h0, hd, hlt, hl]

/-- **Validation, in both directions.** -/
theorem validateSqliteChangeset_ok :
    validateSqliteChangeset cs = .ok () ↔ ∃ epc, Valid cs epc := by
  unfold validateSqliteChangeset
  constructor
  · intro h
    split at h
    · cases h
    rename_i n hps
    obtain ⟨rfl, -⟩ := validateSqlitePageSize_ok hps
    split at h
    · cases h
    rename_i hflags
    split at h
    · cases h
    rename_i hid
    split at h
    · cases h
    rename_i hcount
    split at h
    · cases h
    rename_i epc hepc
    have hpages := validatePages_ok.mp h
    exact ⟨epc,
      { pageSize := hps
        flags := not_not.mp hflags
        idSize := not_not.mp hid
        count := not_not.mp hcount
        marker := hepc
        pageNum := fun p hp => (hpages p hp).1
        bound := fun p hp hd => ((hpages p hp).2 hd).1
        dataLen := fun p hp hd => ((hpages p hp).2 hd).2 }⟩
  · rintro ⟨epc, hv⟩
    rw [hv.pageSize]
    simp only [hv.flags, hv.idSize, hv.count, hv.marker, ne_eq]
    exact validatePages_ok.mpr fun p hp =>
      ⟨hv.pageNum p hp, fun hd => ⟨hv.bound p hp hd, hv.dataLen p hp hd⟩⟩

theorem Valid.pageSize_bounds {epc : Option Nat} (hv : Valid cs epc) :
    0 < cs.header.pageSize.toNat ∧ cs.header.pageSize.toNat ≤ 65536 :=
  (validateSqlitePageSize_ok hv.pageSize).2

/-- A changeset that declares a size has exactly one empty page, and it sits at `end_page_count + 1`. -/
theorem changesetEndPageCount_some :
    changesetEndPageCount cs = .ok (some e) ↔
      cs.header.flags &&& flagEndPageCountMarker ≠ 0 ∧
        ∃ m, cs.pages.filter (fun p => p.data.isEmpty) = [m] ∧ m.pageId.toU64 = e + 1 := by
  rw [← endPageCountLoop_some]
  unfold changesetEndPageCount
  split
  · rename_i err h
    simp [h]
  · rename_i m h
    rw [h]
    split
    · rename_i hm
      simp [hm.2]
    · rfl

theorem changesetEndPageCount_none :
    changesetEndPageCount cs = .ok none ↔
      cs.header.flags &&& flagEndPageCountMarker = 0 ∧ ∀ p ∈ cs.pages, p.data ≠ [] := by
  rw [← endPageCountLoop_none cs.header.flags]
  unfold changesetEndPageCount
  split
  · rename_i err h
    simp [h]
  · rename_i m h
    rw [h]
    cases m with
    | none => by_cases hf : cs.header.flags &&& flagEndPageCountMarker = 0 <;> simp
    | some e => simp

/-- In a changeset that declares `e`, an empty page is the marker. -/
theorem Valid.eq_marker (hv : Valid cs (some e)) {p : PageEntry} (hp : p ∈ cs.pages) (hd : p.data = []) :
    p.pageId.toU64 = e + 1 := by
  obtain ⟨-, m, hm, hme⟩ := changesetEndPageCount_some.mp hv.marker
  have : p ∈ cs.pages.filter (fun p => p.data.isEmpty) := mem_filter.mpr ⟨hp, by simp [hd]⟩
  rw [hm, mem_singleton] at this
  rw [this, hme]

theorem Valid.exists_marker (hv : Valid cs (some e)) :
    ∃ m ∈ cs.pages, m.data = [] ∧ m.pageId.toU64 = e + 1 := by
  obtain ⟨-, m, hm, hme⟩ := changesetEndPageCount_some.mp hv.marker
  have hmem : m ∈ cs.pages.filter (fun p => p.data.isEmpty) := by rw [hm]; exact mem_singleton_self m
  obtain ⟨hmp, hmd⟩ := mem_filter.mp hmem
  exact ⟨m, hmp, by simpa using hmd, hme⟩

/-! ## What applying does to the file -/

/-- The data the write loop leaves in page `k`, if it writes the page: that of its last writer. -/
def written : List PageEntry → Nat → Option Bytes
  | [], _ => none
  | p :: ps, k => (written ps k).or (if p.data ≠ [] ∧ p.pageId.toU64 = k then some p.data else none)

theorem mem_of_written {k : Nat} {d : Bytes} (h : written ps k = some d) :
    ∃ p ∈ ps, p.pageId.toU64 = k ∧ p.data = d ∧ d ≠ [] := by
  induction ps with
  | nil => simp [written] at h
  | cons p ps ih =>
    simp only [written, Option.or_eq_some_iff] at h
    rcases h with h | ⟨-, h⟩
    · obtain ⟨q, hq, hrest⟩ := ih h
      exact ⟨q, mem_cons_of_mem _ hq, hrest⟩
    · split at h
      · rename_i hc
        injection h with h
        exact ⟨p, mem_cons_self, hc.2, h, h ▸ hc.1⟩
      · cases h

theorem written_eq_none {k : Nat} :
    written ps k = none ↔ ∀ p ∈ ps, p.data ≠ [] → p.pageId.toU64 ≠ k := by
  induction ps with
  | nil => simp [written]
  | cons p ps ih =>
    simp only [written, Option.or_eq_none_iff, ih, mem_cons, forall_eq_or_imp]
    by_cases hc : p.data ≠ [] ∧ p.pageId.toU64 = k
    · simp only [if_pos hc, reduceCtorEq, and_false, false_iff, not_and]
      exact fun h => absurd hc.2 (h hc.1)
    · simp only [if_neg hc, and_true]
      exact ⟨fun h => ⟨fun hd he => hc ⟨hd, he⟩, h⟩, fun h => h.2⟩

theorem written_of_mem (hasc : AscendingIds ps) {p : PageEntry} (hp : p ∈ ps) (hd : p.data ≠ []) :
    written ps p.pageId.toU64 = some p.data := by
  induction hasc with
  | nil => simp at hp
  | @cons q qs hlt _ ih =>
    rcases mem_cons.mp hp with rfl | hp
    · have hnone : written qs p.pageId.toU64 = none :=
        written_eq_none.mpr fun r hr _ => by have := hlt r hr; omega
      simp [written, hnone, hd]
    · simp [written, ih hp]

theorem sqlitePageOffset_ok {n : Nat} (hn : n ≠ 0) (hlt : n ≤ 2 ^ 32)
    (hv : ValidSize v) : sqlitePageOffset n v = .ok ((n - 1) * v.toNat) := by
  have hb := (validateSqlitePageSize_ok hv).2
  have hmul : (n - 1) * v.toNat < 2 ^ 64 := by
    calc (n - 1) * v.toNat ≤ 2 ^ 32 * 65536 := Nat.mul_le_mul (by omega) hb.2
      _ < 2 ^ 64 := by decide
  simp only [sqlitePageOffset, if_neg hn, hv, if_neg (not_le.mpr hmul)]

/-- The part of the page facts the write loop itself relies on. -/
structure Writable (pageSize : UInt32) (ps : List PageEntry) : Prop where
  valid : validateSqlitePageSize pageSize = .ok pageSize.toNat
  pageNum : ∀ p ∈ ps, p.pageId.toU64 ≠ 0
  small : ∀ p ∈ ps, p.pageId.toU64 < 2 ^ 32
  dataLen : ∀ p ∈ ps, p.data ≠ [] → p.data.length = pageSize.toNat

theorem Writable.tail {v : UInt32} {p : PageEntry} {ps : List PageEntry} (h : Writable v (p :: ps)) :
    Writable v ps where
  valid := h.valid
  pageNum q hq := h.pageNum q (mem_cons_of_mem _ hq)
  small q hq := h.small q (mem_cons_of_mem _ hq)
  dataLen q hq := h.dataLen q (mem_cons_of_mem _ hq)

/-- **The write loop, byte by byte.** A written page holds its last writer's data, every other byte is as
    it was. -/
theorem writePages_byteAt (hw : Writable v ps) (db : Bytes) :
    ∃ db', writePages v ps db = .ok db' ∧ ∀ i, byteAt db' i =
      match written ps (pageOf v.toNat i) with
      | some d => byteAt d (i % v.toNat)
      | none => byteAt db i := by
  have hpos : 0 < v.toNat := (validateSqlitePageSize_ok hw.valid).2.1
  induction ps generalizing db with
  | nil => exact ⟨db, rfl, fun i => by simp [written]⟩
  | cons p ps ih =>
    by_cases hd : p.data = []
    · obtain ⟨db', hdb, hbyte⟩ := ih hw.tail db
      refine ⟨db', by simpa [writePages, hd] using hdb, fun i => ?_⟩
      rw [hbyte i]
      simp [written, hd]
    have hn := hw.pageNum p mem_cons_self
    have hoff := sqlitePageOffset_ok hn (le_of_lt (hw.small p mem_cons_self)) hw.valid
    obtain ⟨db', hdb, hbyte⟩ := ih hw.tail (writeAt db ((p.pageId.toU64 - 1) * v.toNat) p.data)
    refine ⟨db', by simpa [writePages, hd, hoff] using hdb, fun i => ?_⟩
    rw [hbyte i, byteAt_writeAt, hw.dataLen p mem_cons_self hd]
    cases hwr : written ps (pageOf v.toNat i) with
    | some d => simp [written, hwr]
    | none =>
      by_cases hin : p.pageId.toU64 = pageOf v.toNat i
      · have hsub : i - (p.pageId.toU64 - 1) * v.toNat = i % v.toNat := by
          rw [hin, pageOf, Nat.add_sub_cancel, mul_comm, ← Nat.mod_eq_sub_mul_div]
        rw [if_pos ((inPage_iff hpos hn).mpr hin), hsub]
        simp [written, hwr, hd, hin]
      · rw [if_neg (fun h => hin ((inPage_iff hpos hn).mp h))]
        simp [written, hwr, hin]

theorem Valid.writable {cs : PhysicalChangeset} {epc : Option Nat} (hv : Valid cs epc)
    (hsmall : ∀ p ∈ cs.pages, p.pageId.toU64 < 2 ^ 32) : Writable cs.header.pageSize cs.pages where
  valid := hv.pageSize
  pageNum := hv.pageNum
  small := hsmall
  dataLen := hv.dataLen

/-- **Applying an incremental.** The file gets exactly the declared length; a page the changeset writes
    holds its data, and every other byte is the old one (zero where the file grows). -/
theorem applyDecoded_spec (hv : Valid cs (some e)) (hsmall : ∀ p ∈ cs.pages, p.pageId.toU64 < 2 ^ 32) (db : Bytes) :
    ∃ db', applyDecodedChangesetToDb cs db = .ok db' ∧ db'.length = e * cs.header.pageSize.toNat ∧
      ∀ i, i < e * cs.header.pageSize.toNat → byteAt db' i =
        match written cs.pages (pageOf cs.header.pageSize.toNat i) with
        | some d => byteAt d (i % cs.header.pageSize.toNat)
        | none => byteAt db i := by
  obtain ⟨db', hwrite, hbyte⟩ := writePages_byteAt (hv.writable hsmall) db
  have hb := hv.pageSize_bounds
  have he : e < 2 ^ 32 := by
    obtain ⟨m, hm, -, hme⟩ := hv.exists_marker
    have := hsmall m hm
    omega
  have hmul : e * cs.header.pageSize.toNat < 2 ^ 64 := by
    calc e * cs.header.pageSize.toNat ≤ 2 ^ 32 * 65536 := Nat.mul_le_mul (le_of_lt he) hb.2
      _ < 2 ^ 64 := by decide
  refine ⟨setLen db' (e * cs.header.pageSize.toNat), ?_, length_setLen _ _, fun i hi => ?_⟩
  · simp only [applyDecodedChangesetToDb, validateSqliteChangeset_ok.mpr ⟨_, hv⟩, hwrite, hv.marker,
      hv.pageSize, if_neg (not_le.mpr hmul)]
  · rw [byteAt_setLen, if_pos hi, hbyte i]

end Ltx
end Walrust
