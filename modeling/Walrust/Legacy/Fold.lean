import Walrust.Legacy.Restore
import Walrust.Compaction.Stock

/-!
# `Walrust.Legacy.Fold` — folding incrementals into merged objects

A chain of LTX incrementals takes a database from one image to the next. Compaction folds runs of it into merged
HADBP objects, which carry the chain values of the files they replace and the size of the last one. A merged
object sets that size; an LTX incremental is applied page by page and never cuts anything off. So the two ways
through the chain agree on the image, and differ in what stands behind it.

* `Link`, `Follows`, `Chain` — the incrementals, and the images they lead through;
* `Link.view` — an incremental as the changeset that a merge reads it as;
* `Leads` — a changeset that leads from one image to another, wherever it is applied; merging keeps it;
* `Piece` — everything that folding can make of a run of the chain;
* `fold_preserves_restore_iff` — when a restore over folded objects leaves the same file.
-/

namespace Walrust
namespace Legacy

open Hadbp Ltx Compaction Restore Lib.File Lib List
open Lib.Pages (Patch pageOf lastWrite write)

variable {css : List PhysicalChangeset} {f : Bytes} {inputs : List MergeInput} {cs : PhysicalChangeset}
  {ltx : LtxCrate} {sha64 : Bytes → UInt64} {pageSize : UInt32} {s t : Staged} {l : Link}

/-! ## The chain -/

/-- One incremental: the object, what it decodes to, and the database after it. -/
structure Link where
  bytes : Bytes
  header : LtxHeader
  post : UInt64
  image : Bytes
  deriving DecidableEq, Repr

/-- Where the chain stands after the incremental. -/
def Link.point (l : Link) : Staged := ⟨l.header.maxTxid, l.post, l.image⟩

/-- Its page writes, and the size it declares. -/
def Link.patch (ltx : LtxCrate) (l : Link) : Patch :=
  ⟨(ltx.pages l.bytes).map fun p => (p.1.toNat, p.2), l.header.commit⟩

/-- **An incremental that continues the chain at `s`**: its TXIDs and chain values follow on, its pages lie in
    ascending order within the size it declares, every page it adds is among them, and they take the image at `s`
    to its own. -/
structure Follows (ltx : LtxCrate) (sha64 : Bytes → UInt64) (pageSize : UInt32) (s : Staged) (l : Link) : Prop where
  header : ltx.header l.bytes = .ok l.header
  finish : ltx.finish l.bytes = .done l.post
  noChecksum : l.header.noChecksum = false
  pre : l.header.preApplyChecksum = some s.checksum
  post : l.post = chainChecksum ltx sha64 s.checksum (ltx.pages l.bytes)
  minTxid : l.header.minTxid = s.seq + 1
  maxTxid : s.seq < l.header.maxTxid
  geometry : l.header.pageSize = pageSize.toNat
  ascending : (ltx.pages l.bytes).Pairwise fun p q => p.1.toNat < q.1.toNat
  within : ∀ p ∈ ltx.pages l.bytes, 0 < p.1.toNat ∧ p.1.toNat ≤ l.header.commit
  commit : l.header.commit + 1 < 2 ^ 32
  covers : (l.patch ltx).Covers (s.db.length / pageSize.toNat)
  image : l.image = (l.patch ltx).apply pageSize.toNat s.db

/-- A chain of incrementals from `s` on. -/
inductive Chain (ltx : LtxCrate) (sha64 : Bytes → UInt64) (pageSize : UInt32) : Staged → List Link → Prop where
  | nil (s : Staged) : Chain ltx sha64 pageSize s []
  | cons {s : Staged} {l : Link} {rest : List Link} : Follows ltx sha64 pageSize s l →
      Chain ltx sha64 pageSize l.point rest → Chain ltx sha64 pageSize s (l :: rest)

/-- Where a chain ends. -/
def endOf (s : Staged) (links : List Link) : Staged := links.foldl (fun _ l => l.point) s

theorem endOf_append (s : Staged) (a b : List Link) : endOf s (a ++ b) = endOf (endOf s a) b := foldl_append

/-- The image at `s` is a whole number of pages. -/
def Whole (pageSize : UInt32) (s : Staged) : Prop := s.db.length = s.db.length / pageSize.toNat * pageSize.toNat

theorem Chain.append_iff {a b : List Link} :
    Chain ltx sha64 pageSize s (a ++ b) ↔ Chain ltx sha64 pageSize s a ∧ Chain ltx sha64 pageSize (endOf s a) b := by
  induction a generalizing s with
  | nil => exact ⟨fun h => ⟨.nil s, h⟩, fun h => h.2⟩
  | cons l a ih =>
    constructor
    · intro h
      cases h with
      | cons hl hrest =>
        obtain ⟨ha, hb⟩ := ih.mp hrest
        exact ⟨.cons hl ha, hb⟩
    · rintro ⟨ha, hb⟩
      cases ha with
      | cons hl hrest => exact .cons hl (ih.mpr ⟨hrest, hb⟩)

theorem Follows.length (h : Follows ltx sha64 pageSize s l) : l.image.length = l.header.commit * pageSize.toNat := by
  rw [h.image, Pages.length_apply]
  rfl

theorem Follows.whole (hps : 0 < pageSize.toNat) (h : Follows ltx sha64 pageSize s l) : Whole pageSize l.point := by
  show l.image.length = l.image.length / pageSize.toNat * pageSize.toNat
  rw [h.length, Nat.mul_div_cancel _ hps]

theorem Chain.whole {links : List Link} (hps : 0 < pageSize.toNat) (hs : Whole pageSize s)
    (h : Chain ltx sha64 pageSize s links) : Whole pageSize (endOf s links) := by
  induction h with
  | nil s => exact hs
  | cons hl _ ih => exact ih (hl.whole hps)

theorem Chain.seq_lt {links : List Link} (h : Chain ltx sha64 pageSize s links) :
    ∀ l ∈ links, s.seq < l.header.maxTxid := by
  induction h with
  | nil s => exact fun l hl => absurd hl not_mem_nil
  | @cons s l rest hl _ ih =>
    intro k hk
    rcases mem_cons.mp hk with rfl | hk
    · exact hl.maxTxid
    · exact lt_trans hl.maxTxid (ih k hk)

theorem Follows.fits (h : Follows ltx sha64 pageSize s l) : (l.patch ltx).Fits pageSize.toNat := by
  intro w hw
  obtain ⟨p, hp, rfl⟩ := mem_map.mp hw
  refine ⟨(h.within p hp).1, (h.within p hp).2, ?_⟩
  rw [← h.geometry]
  exact ltx.page_length _ _ h.header p hp

/-! ### Applying an incremental -/

theorem writeLtxPages_eq (ps : Nat) (pages : List (UInt32 × Bytes)) (db : Bytes) :
    writeLtxPages ps pages db = write ps (pages.map fun p => (p.1.toNat, p.2)) db := by
  rw [writeLtxPages, write, foldl_map]

/-- **An incremental applies to every file that stands at its chain value**, and writes its pages there. -/
theorem Follows.applies {ph : Physical} (h : Follows ltx ph.sha64 pageSize s l) (range : SeqRange) (n : Nat)
    (f : Bytes) :
    applyLegacyFile ltx ph range l.bytes ⟨n, s.checksum, f⟩ =
      .ok ⟨range.max, l.post, write pageSize.toNat (l.patch ltx).writes f⟩ := by
  have hcheck : checkPre l.header s.checksum = .ok () := by
    simp [checkPre, h.pre]
  have hpost : ∀ db, postChecksum ltx ph.sha64 l.header (ltx.pages l.bytes) l.post db = .ok l.post := by
    intro db
    simp [postChecksum, h.pre, ← h.post]
  rw [applyLegacyFile, if_neg (take_ne_magic h.header)]
  simp only [applyLtxToDbChecked, h.header, hcheck, h.finish, hpost, writeLtxPages_eq, h.geometry]
  rfl

/-! ## Changesets that lead from one image to another -/

/-- **A changeset that leads from `s` to `s'`**: it carries their chain values, and on every file that begins with
    the image at `s`, whatever stands behind it, it leaves exactly the image at `s'`. -/
structure Leads (sha64 : Bytes → UInt64) (pageSize : UInt32) (s s' : Staged) (cs : PhysicalChangeset) : Prop where
  wellFormed : cs.WellFormed sha64
  size : ∃ e, Valid cs (some e) ∧ s'.db.length = e * pageSize.toNat
  geometry : cs.header.pageSize = pageSize
  prev : cs.header.prevChecksum = s.checksum
  declared : cs.declaredEndChecksum = some s'.checksum
  applies : ∀ f, s.db <+: f → applyDecodedChangesetToDb cs f = .ok s'.db

/-- An incremental as a merge reads it: its pages, and the marker that declares its size. -/
def Link.view (ltx : LtxCrate) (sha64 : Bytes → UInt64) (pageSize : UInt32) (prev : UInt64) (l : Link) :
    PhysicalChangeset :=
  let pages := ltxEntries ltx l.bytes ++ [markerPage .u32 l.header.commit]
  { header :=
      { flags := flagEndPageCountMarker
        pageIdSize := .u32
        pageSize := pageSize
        seq := UInt64.ofNat l.header.maxTxid
        prevChecksum := prev
        pageCount := UInt32.ofNat pages.length
        createdMs := l.header.createdMs }
    declaredEndChecksum := some l.post
    pages := pages
    checksum := computeChecksum sha64 prev pages }

section View

theorem mem_view {prev : UInt64} {p : PageEntry} :
    p ∈ (l.view ltx sha64 pageSize prev).pages ↔
      (∃ q ∈ ltx.pages l.bytes, p = ⟨.u32 q.1, q.2⟩) ∨ p = markerPage .u32 l.header.commit := by
  show p ∈ ltxEntries ltx l.bytes ++ [markerPage .u32 l.header.commit] ↔ _
  rw [mem_append, mem_singleton, ltxEntries, mem_map]
  simp only [eq_comm]

variable (h : Follows ltx sha64 pageSize s l)
include h

theorem Follows.view_ascending : AscendingIds (l.view ltx sha64 pageSize s.checksum).pages := by
  refine pairwise_append.mpr ⟨?_, pairwise_singleton _ _, ?_⟩
  · exact pairwise_map.mpr h.ascending
  · intro p hp m hm
    obtain ⟨q, hq, rfl⟩ := mem_map.mp hp
    rw [mem_singleton.mp hm, markerPage_toU64 h.commit]
    exact Nat.lt_succ_of_le (h.within q hq).2

/-- A page of the view: a data page within the size, or the marker. -/
theorem Follows.view_page (hps : 0 < pageSize.toNat) {p : PageEntry}
    (hp : p ∈ (l.view ltx sha64 pageSize s.checksum).pages) :
    (p.data ≠ [] ∧ p.pageId.size = .u32 ∧ 0 < p.pageId.toU64 ∧ p.pageId.toU64 ≤ l.header.commit ∧
      p.data.length = pageSize.toNat) ∨ p = markerPage .u32 l.header.commit := by
  rcases mem_view.mp hp with ⟨q, hq, rfl⟩ | rfl
  · have hlen : q.2.length = pageSize.toNat := by
      rw [← h.geometry]
      exact ltx.page_length _ _ h.header q hq
    refine .inl ⟨?_, rfl, (h.within q hq).1, (h.within q hq).2, hlen⟩
    intro hnil
    rw [show q.2 = [] from hnil] at hlen
    exact absurd hlen (ne_of_lt hps)
  · exact .inr rfl

theorem Follows.view_count (hps : 0 < pageSize.toNat) :
    (l.view ltx sha64 pageSize s.checksum).header.pageCount.toNat =
      (l.view ltx sha64 pageSize s.checksum).pages.length := by
  have hlen : (l.view ltx sha64 pageSize s.checksum).pages.length ≤ l.header.commit + 1 := by
    refine length_le_of_ascending h.view_ascending ?_
    intro p hp
    rcases h.view_page hps hp with ⟨-, -, hpos, hle, -⟩ | rfl
    · exact ⟨hpos, Nat.le_succ_of_le hle⟩
    · rw [markerPage_toU64 h.commit]
      omega
  show (UInt32.ofNat _).toNat = _
  exact Nat.mod_eq_of_lt (lt_of_le_of_lt hlen h.commit)

section

variable (hval : ValidSize pageSize)
include hval

theorem Follows.view_wellFormed :
    (l.view ltx sha64 pageSize s.checksum).WellFormed sha64 where
  flags := by
    show flagEndPageCountMarker &&& flagCompacted = 0
    decide
  ascending := h.view_ascending
  idSize := by
    intro p hp
    rcases h.view_page (validateSqlitePageSize_ok hval).2.1 hp with ⟨-, hid, -⟩ | rfl
    · exact hid
    · rfl
  dataLen := by
    intro p hp
    have hb := (validateSqlitePageSize_ok hval).2
    rcases h.view_page hb.1 hp with ⟨-, -, -, -, hlen⟩ | rfl
    · omega
    · exact Nat.two_pow_pos 32
  pageCount := h.view_count (validateSqlitePageSize_ok hval).2.1
  checksum := rfl

theorem Follows.view_valid :
    Valid (l.view ltx sha64 pageSize s.checksum) (some l.header.commit) where
  pageSize := hval
  flags := by
    show flagEndPageCountMarker &&& (~~~ flagEndPageCountMarker) = 0
    decide
  idSize := rfl
  count := h.view_count (validateSqlitePageSize_ok hval).2.1
  marker := by
    refine changesetEndPageCount_some.mpr ⟨?_, markerPage .u32 l.header.commit, ?_, markerPage_toU64 h.commit⟩
    · show flagEndPageCountMarker &&& flagEndPageCountMarker ≠ 0
      decide
    show (ltxEntries ltx l.bytes ++ [markerPage .u32 l.header.commit]).filter _ = _
    have hnone : (ltxEntries ltx l.bytes).filter (fun p => p.data.isEmpty) = [] := by
      rw [filter_eq_nil_iff]
      intro p hp hempty
      have hmem : p ∈ (l.view ltx sha64 pageSize s.checksum).pages := mem_append_left _ hp
      have hlt : p.pageId.toU64 < l.header.commit + 1 := by
        obtain ⟨q, hq, rfl⟩ := mem_map.mp hp
        exact Nat.lt_succ_of_le (h.within q hq).2
      rcases h.view_page (validateSqlitePageSize_ok hval).2.1 hmem with ⟨hd, -⟩ | rfl
      · exact hd (isEmpty_iff.mp hempty)
      · rw [markerPage_toU64 h.commit] at hlt
        omega
    rw [filter_append, hnone]
    rfl
  pageNum := by
    intro p hp
    rcases h.view_page (validateSqlitePageSize_ok hval).2.1 hp with ⟨-, -, hpos, -⟩ | rfl
    · omega
    · rw [markerPage_toU64 h.commit]
      omega
  bound := by
    intro p hp hd e he
    injection he with he
    rcases h.view_page (validateSqlitePageSize_ok hval).2.1 hp with ⟨-, -, -, hle, -⟩ | rfl
    · omega
    · exact absurd rfl hd
  dataLen := by
    intro p hp hd
    rcases h.view_page (validateSqlitePageSize_ok hval).2.1 hp with ⟨-, -, -, -, hlen⟩ | rfl
    · exact hlen
    · exact absurd rfl hd

end

end View

section Leads

variable {s' : Staged}

theorem written_ltxEntries {pages : List (UInt32 × Bytes)} (hne : ∀ p ∈ pages, p.2 ≠ []) (tail : List PageEntry)
    (htail : ∀ p ∈ tail, p.data = []) (k : Nat) :
    written ((pages.map fun p => (⟨.u32 p.1, p.2⟩ : PageEntry)) ++ tail) k =
      lastWrite (pages.map fun p => (p.1.toNat, p.2)) k := by
  induction pages with
  | nil => exact written_eq_none.mpr fun p hp hd => absurd (htail p hp) hd
  | cons p pages ih =>
    have hrest := ih fun q hq => hne q (mem_cons_of_mem _ hq)
    have hp : p.2 ≠ [] := hne p mem_cons_self
    simp only [map_cons, cons_append, written, lastWrite, hrest]
    simp [hp, PageId.toU64]

/-- **An incremental's view leads from the image before it to the image after it.** -/
theorem Follows.leads (hval : ValidSize pageSize) (hs : Whole pageSize s)
    (h : Follows ltx sha64 pageSize s l) :
    Leads sha64 pageSize s l.point (l.view ltx sha64 pageSize s.checksum) := by
  have hps := (validateSqlitePageSize_ok hval).2.1
  have hv := h.view_valid hval
  have hgood := goodSource_of_valid (h.view_wellFormed hval) hv rfl
  have hne : ∀ p ∈ ltx.pages l.bytes, p.2 ≠ [] := by
    intro p hp
    have hlen := (h.fits _ (mem_map_of_mem hp)).2.2
    intro hnil
    rw [hnil] at hlen
    exact absurd hlen (ne_of_lt hps)
  have hwritten : ∀ k, written (l.view ltx sha64 pageSize s.checksum).pages k = lastWrite (l.patch ltx).writes k :=
    written_ltxEntries hne _ (by intro p hp; rw [mem_singleton.mp hp]; rfl)
  refine ⟨h.view_wellFormed hval, ⟨l.header.commit, hv, h.length⟩, rfl, rfl, rfl, ?_⟩
  intro f hpre
  obtain ⟨db', happ, hlen, hbyte⟩ := applyDecoded_spec hv hgood.small f
  have hpaint : db' = (l.patch ltx).apply pageSize.toNat f := by
    refine Pages.eq_paint hlen ?_
    intro i hi
    rw [hbyte i hi, hwritten]
    rfl
  rw [happ, hpaint, Pages.apply_of_isPrefix hps h.covers hs hpre]
  exact congrArg Except.ok h.image.symm

section

variable (h : Leads sha64 pageSize s s' cs)
include h

theorem Leads.good : GoodSource pageSize.toNat cs := by
  obtain ⟨e, hv, -⟩ := h.size
  exact goodSource_of_valid h.wellFormed hv h.geometry

/-- A page beyond the old image is written: what stood there before does not show. -/
theorem Leads.covers : CoversGrowth cs s.db.length := by
  obtain ⟨e, hv, -⟩ := h.size
  have hps : 0 < pageSize.toNat := h.geometry ▸ hv.pageSize_bounds.1
  intro e' he' k hk hke hold
  have hee : e' = e := by
    have heq := he'.symm.trans hv.marker
    injection heq with heq
    exact Option.some.inj heq
  subst hee
  rw [h.geometry] at hold
  by_contra hno
  have hnone : written cs.pages k = none :=
    written_eq_none.mpr fun p hp hd hpk => hno ⟨p, hp, hd, hpk⟩
  have hpage : pageOf pageSize.toNat ((k - 1) * pageSize.toNat) = k := by
    rw [pageOf, Nat.mul_div_cancel _ hps]
    omega
  have hin : (k - 1) * pageSize.toNat < e' * pageSize.toNat :=
    Nat.mul_lt_mul_of_pos_right (by omega) hps
  -- two files that begin with the image and differ at that page would both become the one image
  have hbyte : ∀ f, s.db <+: f → byteAt s'.db ((k - 1) * pageSize.toNat) = byteAt f ((k - 1) * pageSize.toNat) := by
    intro f hpre
    obtain ⟨db', happ, -, hb⟩ := applyDecoded_spec hv h.good.small f
    rw [h.applies f hpre] at happ
    injection happ with happ
    rw [h.geometry] at hb
    rw [happ, hb _ hin, hpage, hnone]
  have hzero := hbyte s.db (prefix_refl _)
  have hone := hbyte (s.db ++ replicate ((k - 1) * pageSize.toNat + 1) 1) (prefix_append _ _)
  rw [byteAt_of_le hold] at hzero
  rw [hzero, byteAt_append, if_neg (not_lt.mpr hold), byteAt,
    getD_eq_getElem _ _ (by rw [length_replicate]; omega), getElem_replicate] at hone
  exact absurd hone (by decide)

theorem Leads.streamedEnd : streamedEnd sha64 cs = s'.checksum := by
  rw [Compaction.streamedEnd, h.declared]
  rfl

end

/-- Changesets that lead on one after another. -/
inductive LeadsAll (sha64 : Bytes → UInt64) (pageSize : UInt32) : Staged → List PhysicalChangeset → Staged → Prop where
  | nil (s : Staged) : LeadsAll sha64 pageSize s [] s
  | cons {s s' t : Staged} {cs : PhysicalChangeset} {css : List PhysicalChangeset} : Leads sha64 pageSize s s' cs →
      LeadsAll sha64 pageSize s' css t → LeadsAll sha64 pageSize s (cs :: css) t

section

variable (h : LeadsAll sha64 pageSize s css t)
include h

theorem LeadsAll.good :
    ∀ cs ∈ css, ∃ s s', Leads sha64 pageSize s s' cs := by
  induction h with
  | nil s => exact fun cs hcs => absurd hcs not_mem_nil
  | @cons s s' t cs css hcs _ ih =>
    intro c hc
    rcases mem_cons.mp hc with rfl | hc
    · exact ⟨s, s', hcs⟩
    · exact ih c hc

theorem LeadsAll.linked :
    Linked sha64 css := by
  induction h with
  | nil s => exact isChain_nil
  | @cons s s' t cs css hcs hrest ih =>
    cases hrest with
    | nil => exact isChain_singleton _
    | @cons _ _ _ cs' _ hcs' _ =>
      refine isChain_cons_cons.mpr ⟨?_, ih⟩
      rw [hcs'.prev, hcs.streamedEnd]

theorem LeadsAll.chained :
    Chained sha64 pageSize css where
  good := by
    intro cs hcs
    obtain ⟨_, _, hl⟩ := h.good cs hcs
    exact hl.good
  idSize := by
    intro cs hcs
    obtain ⟨_, _, hl⟩ := h.good cs hcs
    obtain ⟨e, hv, -⟩ := hl.size
    exact id32_of_valid hl.wellFormed hv
  linked := h.linked

end

/-- Coverage at an image is coverage at every file that begins with it. -/
theorem CoversGrowth.mono {len len' : Nat} (h : CoversGrowth cs len) (hle : len ≤ len') :
    CoversGrowth cs len' :=
  fun e he k hk hke hold => h e he k hk hke (le_trans hle hold)

theorem LeadsAll.growthCovered (h : LeadsAll sha64 pageSize s css t) (hpre : s.db <+: f) : GrowthCovered css f := by
  induction h generalizing f with
  | nil s => trivial
  | cons hcs _ ih =>
    refine ⟨CoversGrowth.mono hcs.covers hpre.length_le, ?_⟩
    intro db' happ
    rw [hcs.applies f hpre] at happ
    injection happ with happ
    exact ih (happ ▸ prefix_refl _)

theorem LeadsAll.applyAll (h : LeadsAll sha64 pageSize s (cs :: css) t) (hpre : s.db <+: f) :
    Compaction.applyAll (cs :: css) f = .ok t.db := by
  generalize hall : cs :: css = all at h
  induction h generalizing cs css f with
  | nil s => cases hall
  | @cons s s' t c rest hcs hrest ih =>
    rw [Compaction.applyAll, foldlM_cons, hcs.applies f hpre]
    cases hrest with
    | nil => rfl
    | cons hcs' hrest' => exact ih (prefix_refl _) rfl

theorem LeadsAll.getLast (h : LeadsAll sha64 pageSize s css t) (hne : css ≠ []) :
    ∃ s', Leads sha64 pageSize s' t (css.getLast hne) := by
  induction h with
  | nil s => exact absurd rfl hne
  | @cons s s' t cs css hcs hrest ih =>
    cases hrest with
    | nil => exact ⟨s, hcs⟩
    | cons hcs' hrest' =>
      exact ih (cons_ne_nil _ _)

end Leads

/-! ## Folding -/

/-- A merge input that reads as the changeset `cs`, up to what a merge does not look at. -/
structure ReadAs (input : MergeInput) (cs : PhysicalChangeset) : Prop where
  input : input.uncounted = (⟨sourceHeaderOf cs, input.range, ⟨cs.pages, none⟩⟩ : MergeInput).uncounted
  idSize : ∀ p ∈ cs.pages, p.pageId.size = cs.header.pageIdSize

/-- Inputs that read as changesets merge as the changesets do. -/
theorem exists_sources (h : Forall₂ ReadAs inputs css) :
    ∃ sources, Forall₂ SourceOf sources css ∧
      inputs.map MergeInput.uncounted = sources.map MergeInput.uncounted := by
  induction h with
  | nil => exact ⟨[], .nil, rfl⟩
  | @cons input cs inputs css hread _ ih =>
    obtain ⟨sources, hsources, hmap⟩ := ih
    refine ⟨⟨sourceHeaderOf cs, input.range, ⟨cs.pages, none⟩⟩ :: sources, .cons ⟨rfl, rfl, hread.idSize⟩ hsources, ?_⟩
    rw [map_cons, map_cons, hread.input, hmap]

/-- An object of either format, opened for a merge. -/
structure Reads (ltx : LtxCrate) (bytes : Bytes) (input : MergeInput) : Prop where
  header : readSourceHeader ltx bytes = .ok input.header
  stream : ∃ key, openSource ltx key bytes = .ok input.stream

/-- **Folding.** The lists of merge inputs that any number of merges can make of a run of incrementals: each input
    is an incremental, or what a merge of such a list has written. -/
inductive Folded (ltx : LtxCrate) (sha64 : Bytes → UInt64) : List Link → List MergeInput → Prop where
  | nil : Folded ltx sha64 [] []
  | file {l : Link} {links : List Link} {input : MergeInput} {inputs : List MergeInput} :
      Reads ltx l.bytes input → Folded ltx sha64 links inputs → Folded ltx sha64 (l :: links) (input :: inputs)
  | merged {createdMs : Int64} {tracker tracker' : PeakPages} {mid links : List Link} {sources : List MergeInput}
      {result : MergeResult} {input : MergeInput} {inputs : List MergeInput} :
      Folded ltx sha64 mid sources → mergeChangesets sha64 createdMs sources tracker = .ok (result, tracker') →
      Reads ltx result.bytes input → Folded ltx sha64 links inputs →
      Folded ltx sha64 (mid ++ links) (input :: inputs)

/-- **An object of a folded pool**: an incremental, or the merge of a run of them. -/
inductive Piece (ltx : LtxCrate) (sha64 : Bytes → UInt64) : List Link → Bytes → Prop where
  | file (l : Link) : Piece ltx sha64 [l] l.bytes
  | merged {createdMs : Int64} {tracker tracker' : PeakPages} {links : List Link} {sources : List MergeInput}
      {result : MergeResult} : Folded ltx sha64 links sources →
      mergeChangesets sha64 createdMs sources tracker = .ok (result, tracker') → Piece ltx sha64 links result.bytes

/-- **Merging keeps the way.** What a merge writes of changesets that lead on one after another leads from the
    beginning of the first to the end of the last. -/
theorem LeadsAll.merge {createdMs : Int64} {tracker tracker' : PeakPages} {inputs : List MergeInput}
    {css : List PhysicalChangeset} {result : MergeResult} (h : LeadsAll sha64 pageSize s css t)
    (hread : Forall₂ ReadAs inputs css)
    (hmerge : mergeChangesets sha64 createdMs inputs tracker = .ok (result, tracker')) :
    ∃ cs, result.bytes = cs.wire ∧ Leads sha64 pageSize s t cs := by
  cases css with
  | nil =>
    cases hread
    simp [mergeChangesets] at hmerge
  | cons cs₀ css =>
    obtain ⟨sources, hsources, hmap⟩ := exists_sources hread
    rw [← mergeChangesets_uncounted, hmap, mergeChangesets_uncounted] at hmerge
    have hchained := h.chained
    obtain ⟨ds, e, tracker'', result', hpop, hv, he, hok, hprev, hend, hbytes, -⟩ :=
      mergeChangesets_chained createdMs tracker hsources hchained
    rw [hok] at hmerge
    simp only [Except.ok.injEq, Prod.mk.injEq] at hmerge
    obtain ⟨rfl, -⟩ := hmerge
    obtain ⟨s', hlast⟩ := h.getLast (cons_ne_nil _ _)
    have hval := hchained.pageSize_ok
    have hfirst : cs₀.header.prevChecksum = s.checksum := by
      cases h with
      | cons hcs _ => exact hcs.prev
    refine ⟨_, hbytes, mergedOf_wellFormed hchained.good hchained.idSize hpop he hval,
      ⟨e, mergedOf_valid hchained.good hchained.idSize hpop he hval, ?_⟩, rfl, hprev.trans hfirst, ?_, ?_⟩
    · obtain ⟨e', hv', hlen⟩ := hlast.size
      have hee : e' = e := by
        have heq := hv'.marker.symm.trans hv.marker
        injection heq with heq
        exact Option.some.inj heq
      rw [hlen, hee]
    · show some result'.declaredEndChecksum = some t.checksum
      rw [hend, hlast.streamedEnd]
    · intro f hpre
      obtain ⟨db', hall, happ⟩ := hchained.apply_merged hpop hv he (h.growthCovered hpre)
      rw [h.applyAll hpre] at hall
      rw [happ, hall]

theorem Reads.wire {input : MergeInput} (hshaped : cs.Shaped) (h : Reads ltx cs.wire input) : ReadAs input cs := by
  have hheader := h.header
  obtain ⟨key, hstream⟩ := h.stream
  rw [readSourceHeader, if_neg (take_wire_ne_ltx cs), readHeader_wire] at hheader
  rw [openSource, if_neg (take_wire_ne_ltx cs), openSourceStream_wire hshaped] at hstream
  obtain ⟨header, range, stream⟩ := input
  injection hheader with hheader
  injection hstream with hstream
  subst hheader hstream
  exact ⟨rfl, hshaped.idSize⟩

theorem Follows.readAs (h : Follows ltx sha64 pageSize s l) {input : MergeInput} (hread : Reads ltx l.bytes input) :
    ReadAs input (l.view ltx sha64 pageSize s.checksum) := by
  have hmagic := ltx.header_magic _ _ h.header
  have hheader := hread.header
  obtain ⟨key, hstream⟩ := hread.stream
  rw [readSourceHeader, if_pos hmagic, LtxCrate.source] at hheader
  rw [openSource, if_pos hmagic, LtxCrate.source] at hstream
  simp only [parseLtxSourceHeader, openLtxStream, h.header, h.finish, Except.ok.injEq] at hheader hstream
  obtain ⟨header, range, stream⟩ := input
  subst hheader hstream
  refine ⟨?_, ?_⟩
  · have hps : UInt32.ofNat l.header.pageSize = pageSize := by
      rw [h.geometry]
      exact UInt32.ofNat_toNat
    simp only [hps, h.pre]
    rfl
  · intro p hp
    rcases mem_view.mp hp with ⟨q, -, rfl⟩ | rfl
    · rfl
    · rfl

section Pieces

variable {ph : Physical} {links : List Link}

/-- **Whatever folding makes of a run leads through the run.** -/
theorem Folded.leadsAll (hval : ValidSize pageSize)
    (h : Folded ltx ph.sha64 links inputs) (hs : Whole pageSize s)
    (hchain : Chain ltx ph.sha64 pageSize s links) :
    ∃ css, LeadsAll ph.sha64 pageSize s css (endOf s links) ∧ Forall₂ ReadAs inputs css := by
  have hps := (validateSqlitePageSize_ok hval).2.1
  induction h generalizing s with
  | nil => exact ⟨[], .nil s, .nil⟩
  | file hread _ ih =>
    cases hchain with
    | cons hl hrest =>
      obtain ⟨css, hall, hreads⟩ := ih (hl.whole hps) hrest
      exact ⟨_, .cons (hl.leads hval hs) hall, .cons (hl.readAs hread) hreads⟩
  | merged _ hmerge hread _ ihmid ihrest =>
    obtain ⟨hmid, hrest⟩ := Chain.append_iff.mp hchain
    obtain ⟨css, hall, hreads⟩ := ihmid hs hmid
    obtain ⟨cs, hbytes, hleads⟩ := hall.merge hreads hmerge
    rw [hbytes] at hread
    obtain ⟨css', hall', hreads'⟩ := ihrest (hmid.whole hps hs) hrest
    rw [endOf_append]
    exact ⟨cs :: css', .cons hleads hall',
      .cons (hread.wire (PhysicalChangeset.wellFormed_iff.mp hleads.wellFormed).1) hreads'⟩

/-- A changeset that leads on applies to every file that begins with the image, and cuts it to the next one. -/
theorem Leads.applies_file (h : Leads ph.sha64 pageSize s t cs)
    (hcanonical : ltx.checksum t.checksum = t.checksum) {range : SeqRange} {n : Nat} (hpre : s.db <+: f) :
    applyLegacyFile ltx ph range cs.wire ⟨n, s.checksum, f⟩ = .ok ⟨range.max, t.checksum, t.db⟩ := by
  obtain ⟨e, hv, -⟩ := h.size
  have hmagic : cs.wire.take 5 = Hadbp.magic := of_decide_eq_true (isMerged_wire cs)
  have hverify : ph.verifyChain s.checksum cs = .ok () := by
    rw [← h.prev]
    exact Physical.verifyChain_ok h.wellFormed
  rw [applyLegacyFile, if_pos hmagic, decodeSqliteChangeset_wire h.wellFormed hv]
  simp only [hverify, h.applies f hpre, chainEnd, h.declared, Option.getD_some, hcanonical]

theorem endOf_concat (s : Staged) (links : List Link) (l : Link) : endOf s (links ++ [l]) = l.point := by
  rw [endOf_append]
  rfl

theorem Chain.canonical (h : Chain ltx sha64 pageSize s links) (hne : links ≠ []) :
    ltx.checksum (endOf s links).checksum = (endOf s links).checksum := by
  obtain ⟨pre, l, rfl⟩ := eq_nil_or_concat' links |>.resolve_left hne
  rw [endOf_concat]
  obtain ⟨-, hlast⟩ := Chain.append_iff.mp h
  cases hlast with
  | cons hl _ => exact ltx.checksum_post _ _ hl.finish

theorem Piece.ne_nil {bytes : Bytes} (h : Piece ltx sha64 links bytes) : links ≠ [] := by
  cases h with
  | file l => exact cons_ne_nil _ _
  | merged hfold hmerge =>
    rintro rfl
    have hnil : ∀ {ls : List Link} {inputs : List MergeInput}, Folded ltx sha64 ls inputs → ls = [] → inputs = [] := by
      intro ls inputs hf
      induction hf with
      | nil => exact fun _ => rfl
      | file _ _ _ => exact fun h => absurd h (cons_ne_nil _ _)
      | merged _ hm _ _ ihmid _ =>
        intro h
        rw [ihmid (append_eq_nil_iff.mp h).1] at hm
        simp [mergeChangesets] at hm
    rw [hnil hfold rfl] at hmerge
    simp [mergeChangesets] at hmerge

/-- The incrementals applied in place, one after another. -/
def inPlace (ltx : LtxCrate) (pageSize : UInt32) (links : List Link) (f : Bytes) : Bytes :=
  links.foldl (fun f l => write pageSize.toNat (l.patch ltx).writes f) f

/-- In place every image comes out at the front of the file. -/
theorem Chain.isPrefix_inPlace (hps : 0 < pageSize.toNat) (hs : Whole pageSize s)
    (h : Chain ltx ph.sha64 pageSize s links) (hpre : s.db <+: f) :
    (endOf s links).db <+: inPlace ltx pageSize links f := by
  induction h generalizing f with
  | nil s => exact hpre
  | cons hl _ ih =>
    refine ih (hl.whole hps) ?_
    show Link.image _ <+: _
    rw [hl.image]
    exact Pages.apply_isPrefix_write hps hl.fits hl.covers hs hpre

/-- **One planned object.** It advances the chain value over its run; the file then begins with the run's last
    image, is a front part of what the run leaves in place, and is cut to the image if the object is merged. -/
theorem Piece.applies {bytes : Bytes} (hval : ValidSize pageSize)
    (hs : Whole pageSize s) (hchain : Chain ltx ph.sha64 pageSize s links)
    (h : Piece ltx ph.sha64 links bytes) (range : SeqRange) (n : Nat) {g : Bytes} (hpre : s.db <+: f)
    (hfg : f <+: g) :
    ∃ f', applyLegacyFile ltx ph range bytes ⟨n, s.checksum, f⟩ = .ok ⟨range.max, (endOf s links).checksum, f'⟩ ∧
      (endOf s links).db <+: f' ∧ f' <+: inPlace ltx pageSize links g ∧
      (isMerged bytes = true ∧ f' = (endOf s links).db ∨ isMerged bytes = false ∧ (∃ l, links = [l]) ∧
        f'.length = max f.length (endOf s links).db.length) := by
  have hps := (validateSqlitePageSize_ok hval).2.1
  have hcanonical := hchain.canonical h.ne_nil
  cases h with
  | file l =>
    cases hchain with
    | cons hl hrest =>
      have himage : l.image <+: write pageSize.toNat (l.patch ltx).writes f := by
        rw [hl.image]
        exact Pages.apply_isPrefix_write hps hl.fits hl.covers hs hpre
      have hmerged : isMerged l.bytes = false := decide_eq_false (take_ne_magic hl.header)
      refine ⟨_, hl.applies range n f, himage, Pages.write_isPrefix_write hps hl.fits hl.covers hs hpre hfg,
        .inr ⟨hmerged, ⟨l, rfl⟩, ?_⟩⟩
      rw [Pages.length_write hps hl.fits hl.covers hs hpre]
      show _ = max f.length l.image.length
      rw [hl.length]
      rfl
  | merged hfold hmerge =>
    obtain ⟨css, hall, hreads⟩ := hfold.leadsAll hval hs hchain
    obtain ⟨cs, hbytes, hleads⟩ := hall.merge hreads hmerge
    rw [hbytes]
    exact ⟨_, hleads.applies_file hcanonical hpre, prefix_refl _,
      hchain.isPrefix_inPlace hps hs (hpre.trans hfg), .inl ⟨isMerged_wire cs, rfl⟩⟩

theorem Follows.reads (h : Follows ltx sha64 pageSize s l) :
    ∃ input, Reads ltx l.bytes input := by
  have hmagic := ltx.header_magic _ _ h.header
  have hheader : ∃ header, readSourceHeader ltx l.bytes = .ok header := by
    rw [readSourceHeader, if_pos hmagic, LtxCrate.source]
    simp only [parseLtxSourceHeader, h.header, h.finish]
    exact ⟨_, rfl⟩
  have hstream : ∃ stream, openSource ltx "" l.bytes = .ok stream := by
    rw [openSource, if_pos hmagic, LtxCrate.source]
    simp only [openLtxStream, h.header, h.finish]
    exact ⟨_, rfl⟩
  obtain ⟨header, hheader⟩ := hheader
  obtain ⟨stream, hstream⟩ := hstream
  exact ⟨⟨header, ⟨0, 0⟩, stream⟩, hheader, "", hstream⟩

theorem Chain.opens (h : Chain ltx sha64 pageSize s links) :
    ∃ inputs, Folded ltx sha64 links inputs := by
  induction h with
  | nil s => exact ⟨[], .nil⟩
  | cons hl _ ih =>
    obtain ⟨input, hread⟩ := hl.reads
    obtain ⟨inputs, hfold⟩ := ih
    exact ⟨input :: inputs, .file hread hfold⟩

/-- **Every run of a chain can be folded**: the merge of its incrementals does not fail. -/
theorem Chain.folds (hval : ValidSize pageSize) (hs : Whole pageSize s)
    (h : Chain ltx ph.sha64 pageSize s links) (hne : links ≠ []) (createdMs : Int64) :
    ∃ bytes, Piece ltx ph.sha64 links bytes ∧ isMerged bytes = true := by
  obtain ⟨inputs, hfold⟩ := h.opens
  obtain ⟨css, hall, hreads⟩ := hfold.leadsAll hval hs h
  cases css with
  | nil =>
    cases hreads
    cases hfold
    exact absurd rfl hne
  | cons cs₀ css =>
    obtain ⟨sources, hsources, hmap⟩ := exists_sources hreads
    obtain ⟨ds, e, tracker', result, -, -, -, hok, -, -, -, -⟩ :=
      mergeChangesets_chained createdMs ⟨0, 0⟩ hsources hall.chained
    rw [← mergeChangesets_uncounted, ← hmap, mergeChangesets_uncounted] at hok
    obtain ⟨cs, hbytes, -⟩ := hall.merge hreads hok
    exact ⟨result.bytes, .merged hfold hok, by rw [hbytes]; exact isMerged_wire cs⟩

end Pieces

end Legacy
end Walrust
