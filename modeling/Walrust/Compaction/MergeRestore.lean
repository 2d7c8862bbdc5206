import Walrust.Compaction.MergeCorrect
import Mathlib.Data.List.Perm.Subperm

/-!
# `Walrust.Compaction.MergeRestore` — merging preserves restore

Applying the merged object to a database gives the same bytes as applying the sources one after another.

The argument is about *last writers*. Byte `i` of the sequentially built file is the byte of the last source
that has page `pageOf i`, or the original byte (`applyAll_spec`, by induction on the sources from the
front, last one first). The merged object has exactly those pages up to the final size (`mem_collapse`), so
applying it gives the same bytes. The two places where a marker page could shadow a data page, or a
truncation could lose a byte, are closed by the growth assumption: a source that grows the database writes
every page of the grown region.
-/

namespace Walrust
namespace Compaction

open Hadbp Ltx Lib.Bytes Lib.File Lib.KWay List PhysicalChangeset
open Lib.Pages (pageOf inPage_iff)

variable {cs last : PhysicalChangeset} {db : Bytes} {k e : Nat} {p : PageEntry} {css : List PhysicalChangeset}
  {final : Option Nat} {pageSize : UInt32} {rest : List MergeInput} {first : MergeInput}
  {r : MergeResult × PeakPages} {sha64 : Bytes → UInt64} {createdMs : Int64} {ds : List HeapPage}

/-! ## Applying a chain of changesets -/

/-- Apply changesets one after another. -/
def applyAll (css : List PhysicalChangeset) (db : Bytes) : Except String Bytes :=
  css.foldlM (fun db cs => applyDecodedChangesetToDb cs db) db

/-- A changeset that grows a database of `len` bytes writes every page of the grown region. -/
def CoversGrowth (cs : PhysicalChangeset) (len : Nat) : Prop :=
  ∀ e, changesetEndPageCount cs = .ok (some e) → ∀ k, 0 < k → k ≤ e →
    len ≤ (k - 1) * cs.header.pageSize.toNat → ∃ p ∈ cs.pages, p.data ≠ [] ∧ p.pageId.toU64 = k

/-- Every changeset of the chain covers the growth it declares, at the point where it is applied. -/
def GrowthCovered : List PhysicalChangeset → Bytes → Prop
  | [], _ => True
  | cs :: css, db => CoversGrowth cs db.length ∧
      ∀ db', applyDecodedChangesetToDb cs db = .ok db' → GrowthCovered css db'

theorem applyAll_concat (css : List PhysicalChangeset) (cs : PhysicalChangeset) (db : Bytes) :
    applyAll (css ++ [cs]) db = (applyAll css db).bind (applyDecodedChangesetToDb cs) := by
  simp only [applyAll, foldlM_append, foldlM_cons, foldlM_nil, bind_pure]
  rfl

theorem growthCovered_concat (h : GrowthCovered (css ++ [cs]) db) :
    GrowthCovered css db ∧ ∀ db', applyAll css db = .ok db' → CoversGrowth cs db'.length := by
  induction css generalizing db with
  | nil =>
    refine ⟨trivial, ?_⟩
    intro db' hdb
    injection hdb with hdb
    exact hdb ▸ h.1
  | cons c css ih =>
    refine ⟨⟨h.1, fun db' hdb => (ih (h.2 db' hdb)).1⟩, ?_⟩
    intro db' hdb
    simp only [applyAll, foldlM_cons] at hdb
    cases hc : applyDecodedChangesetToDb c db with
    | error e => rw [hc] at hdb; cases hdb
    | ok db₁ =>
      rw [hc] at hdb
      exact (ih (h.2 db₁ hc)).2 db' hdb

/-- A source as the claim about merging wants it: valid, declaring a size, in canonical order. -/
structure GoodSource (pageSize : Nat) (cs : PhysicalChangeset) : Prop where
  valid : ∃ e, Valid cs (some e)
  ascending : AscendingIds cs.pages
  small : ∀ p ∈ cs.pages, p.pageId.toU64 < 2 ^ 32
  pageSize : cs.header.pageSize.toNat = pageSize

/-- The page a key has in one changeset. -/
def entry (ps : List PageEntry) (k : Nat) : Option PageEntry :=
  ps.find? (fun p => p.pageId.toU64 = k)

/-- The page a key has in the last changeset of a chain that has it. -/
def lastEntry (css : List PhysicalChangeset) (k : Nat) : Option PageEntry :=
  lastWriter pageTagging (css.map pages) k

theorem lastEntry_concat (css : List PhysicalChangeset) (cs : PhysicalChangeset) (k : Nat) :
    lastEntry (css ++ [cs]) k = (entry cs.pages k).or (lastEntry css k) := by
  rw [lastEntry, map_append, map_singleton, lastWriter_concat]
  rfl

/-- Within the declared size a changeset's page carries data: only the marker is empty. -/
theorem entry_data (hv : Valid cs (some e)) (hk : k ≤ e) (hp : entry cs.pages k = some p) :
    p ∈ cs.pages ∧ p.pageId.toU64 = k ∧ p.data ≠ [] := by
  have hmem := List.mem_of_find?_eq_some hp
  have hid : p.pageId.toU64 = k := by simpa using List.find?_some hp
  refine ⟨hmem, hid, ?_⟩
  intro hd
  have := hv.eq_marker hmem hd
  omega

/-- Within the declared size, what a changeset writes to a page is the page it has. -/
theorem written_eq_entry (hv : Valid cs (some e)) (hasc : AscendingIds cs.pages) (hk : k ≤ e) :
    written cs.pages k = (entry cs.pages k).map PageEntry.data := by
  cases hp : entry cs.pages k with
  | none =>
    have hno : ∀ p ∈ cs.pages, p.pageId.toU64 ≠ k := by
      intro p hpm
      simpa using List.find?_eq_none.mp hp p hpm
    exact written_eq_none.mpr fun p hpm _ => hno p hpm
  | some p =>
    obtain ⟨hmem, rfl, hd⟩ := entry_data hv hk hp
    exact written_of_mem hasc hmem hd

/-! ## The sequential side -/

/-- What a chain of sources leaves of a database: its length is the last declared size, its bytes are
    those of the last writers, and no marker is a last writer within the size. -/
structure Applied (pageSize : Nat) (css : List PhysicalChangeset) (db db' : Bytes) (e : Nat) : Prop where
  length : db'.length = e * pageSize
  bytes : ∀ i, i < db'.length → byteAt db' i =
    match lastEntry css (pageOf pageSize i) with
    | some m => byteAt m.data (i % pageSize)
    | none => byteAt db i
  data : ∀ k m, 0 < k → k ≤ e → lastEntry css k = some m → m.data ≠ []

theorem pageOf_pos {pageSize i : Nat} : 0 < pageOf pageSize i := Nat.succ_pos _

theorem pageOf_le {pageSize i : Nat} (hps : 0 < pageSize) (hi : i < e * pageSize) : pageOf pageSize i ≤ e := by
  exact (Nat.div_lt_iff_lt_mul hps).mpr hi

/-- One more source: the step of the induction over the chain. `hold` says what is known of the file
    before it, for every page that source does not itself have to write. -/
theorem Applied.step {pageSize : Nat} (css : List PhysicalChangeset) {cs : PhysicalChangeset} {e : Nat}
    (db : Bytes) {db₁ : Bytes} (hg : GoodSource pageSize cs) (hv : Valid cs (some e))
    (hcov : CoversGrowth cs db₁.length)
    (hbytes : ∀ i, (pageOf pageSize i - 1) * pageSize < db₁.length →
      byteAt db₁ i = match lastEntry css (pageOf pageSize i) with
        | some m => byteAt m.data (i % pageSize)
        | none => byteAt db i)
    (hdata : ∀ k m, 0 < k → (k - 1) * pageSize < db₁.length → lastEntry css k = some m → m.data ≠ []) :
    ∃ db₂, applyDecodedChangesetToDb cs db₁ = .ok db₂ ∧ Applied pageSize (css ++ [cs]) db db₂ e := by
  obtain ⟨db₂, happ, hlen, hbyte⟩ := applyDecoded_spec hv hg.small db₁
  rw [hg.pageSize] at hlen hbyte
  have hps : 0 < pageSize := hg.pageSize ▸ hv.pageSize_bounds.1
  -- a page within the size that this source does not have was already there
  have hkeep : ∀ k, 0 < k → k ≤ e → entry cs.pages k = none → (k - 1) * pageSize < db₁.length := by
    intro k hk hke hnone
    by_contra hge
    obtain ⟨p, hp, -, hpk⟩ := hcov e hv.marker k hk hke (by rw [hg.pageSize]; omega)
    have := List.find?_eq_none.mp hnone p hp
    simp [hpk] at this
  refine ⟨db₂, happ, hlen, ?_, ?_⟩
  · intro i hi
    rw [hlen] at hi
    have hk := pageOf_le hps hi
    rw [hbyte i hi, written_eq_entry hv hg.ascending hk, lastEntry_concat]
    cases hent : entry cs.pages (pageOf pageSize i) with
    | some m => rfl
    | none => simpa using hbytes i (hkeep _ pageOf_pos hk hent)
  · intro k m hk hke hm
    rw [lastEntry_concat] at hm
    cases hent : entry cs.pages k with
    | some p =>
      rw [hent, Option.some_or, Option.some.injEq] at hm
      exact hm ▸ (entry_data hv hke hent).2.2
    | none =>
      rw [hent] at hm
      exact hdata k m hk (hkeep k hk hke hent) hm

/-- **The sequential side.** A non-empty chain of good sources that covers its growth applies, and leaves
    the bytes of its last writers. -/
theorem applyAll_spec {pageSize : Nat} (hne : css ≠ []) (hgood : ∀ cs ∈ css, GoodSource pageSize cs)
    (hgrow : GrowthCovered css db) :
    ∃ db' e, applyAll css db = .ok db' ∧ Applied pageSize css db db' e ∧
      ∀ cs, css.getLast? = some cs → changesetEndPageCount cs = .ok (some e) := by
  induction css using reverseRecOn with
  | nil => exact absurd rfl hne
  | append_singleton css cs ih =>
    have hg := hgood cs (by simp)
    obtain ⟨e, hv⟩ := hg.valid
    have hps : 0 < pageSize := hg.pageSize ▸ hv.pageSize_bounds.1
    obtain ⟨hgrow₁, hcov⟩ := growthCovered_concat hgrow
    by_cases hnil : css = []
    · subst hnil
      obtain ⟨db₂, happ, hres⟩ := Applied.step [] db hg hv (hcov db rfl)
        (fun i _ => rfl) (fun k m _ _ hm => by simp [lastEntry, lastWriter] at hm)
      refine ⟨db₂, e, ?_, hres, ?_⟩
      · rw [applyAll_concat]; exact happ
      · intro c hc
        simp at hc
        exact hc ▸ hv.marker
    · obtain ⟨db₁, e₁, happ₁, hres₁, -⟩ := ih hnil (fun c hc => hgood c (by simp [hc])) hgrow₁
      -- after a first source the length is a whole number of pages
      have hwhole : ∀ k, 0 < k → (k - 1) * pageSize < db₁.length → k ≤ e₁ := by
        intro k hk hlt
        rw [hres₁.length] at hlt
        have := Nat.lt_of_mul_lt_mul_right hlt
        omega
      obtain ⟨db₂, happ, hres⟩ := Applied.step css db hg hv (hcov db₁ happ₁)
        (by
          intro i hi
          have hke : pageOf pageSize i ≤ e₁ := hwhole _ pageOf_pos hi
          apply hres₁.bytes
          rw [hres₁.length]
          have hlt : i / pageSize < e₁ := hke
          exact (Nat.div_lt_iff_lt_mul hps).mp hlt)
        (fun k m hk hlt hm => hres₁.data k m hk (hwhole k hk hlt) hm)
      refine ⟨db₂, e, ?_, hres, ?_⟩
      · rw [applyAll_concat, happ₁]; exact happ
      · intro c hc
        simp at hc
        exact hc ▸ hv.marker

/-! ## The merged side -/

/-- A merge input that streams the decoded changeset `cs`. -/
structure SourceOf (input : MergeInput) (cs : PhysicalChangeset) : Prop where
  header : input.header = sourceHeaderOf cs
  stream : input.stream = { pages := cs.pages, fault := none }
  idSize : ∀ p ∈ cs.pages, p.pageId.size = cs.header.pageIdSize

/-- A source as it decodes: valid, whether it declares a size or not, in canonical order, at SQLite's id width. -/
structure SqliteSource (pageSize : UInt32) (cs : PhysicalChangeset) : Prop where
  valid : ∃ epc, Valid cs epc
  ascending : AscendingIds cs.pages
  idSize : ∀ p ∈ cs.pages, p.pageId.size = .u32
  pageSize : cs.header.pageSize = pageSize

theorem GoodSource.sqliteSource (h : GoodSource pageSize.toNat cs)
    (hid : ∀ p ∈ cs.pages, p.pageId.size = .u32) : SqliteSource pageSize cs where
  valid := by
    obtain ⟨e, hv⟩ := h.valid
    exact ⟨some e, hv⟩
  ascending := h.ascending
  idSize := hid
  pageSize := UInt32.toNat_inj.mp h.pageSize

/-- A page the merge keeps: the last to write its id, with data, within the final size if there is one. -/
def Survives (css : List PhysicalChangeset) (final : Option Nat) (p : PageEntry) : Prop :=
  lastEntry css p.pageId.toU64 = some p ∧ p.data ≠ [] ∧ ∀ e, final = some e → p.pageId.toU64 ≤ e

theorem mem_emits (hasc : ∀ cs ∈ css, AscendingIds cs.pages) (hpop : Popped pageTagging (css.map pages) ds) :
    p ∈ emits final none ds ↔ Survives css final p := by
  have hasc' : Ascending pageTagging (css.map pages) := by
    intro s hs
    obtain ⟨cs, hcs, rfl⟩ := mem_map.mp hs
    exact hasc cs hcs
  have hlaw := mem_collapse hasc' hpop (a := p)
  have hemit : shouldEmit p final = true ↔ p.data ≠ [] ∧ ∀ e, final = some e → p.pageId.toU64 ≤ e := by
    by_cases hd : p.data = []
    · simp [shouldEmit, hd]
    · cases final <;> simp [shouldEmit]
  unfold emits
  rw [mem_filter, hemit]
  show p ∈ (collapse pageTagging none ds).map pageTagging.item ∧ _ ↔ _
  rw [hlaw]
  rfl

theorem emits_ascending (hpop : Popped pageTagging (css.map pages) ds) : AscendingIds (emits final none ds) :=
  (collapse_items_ascending hpop).filter _

/-- Strictly ascending page numbers from 1 to `n` are at most `n` many. -/
theorem length_le_of_ascending {ps : List PageEntry} {n : Nat} (hasc : AscendingIds ps)
    (hb : ∀ p ∈ ps, 0 < p.pageId.toU64 ∧ p.pageId.toU64 ≤ n) : ps.length ≤ n := by
  have hnodup : (ps.map (fun p => p.pageId.toU64 - 1)).Nodup := by
    rw [List.Nodup, pairwise_map]
    refine hasc.imp_of_mem ?_
    intro a b ha hb' hlt heq
    have := (hb a ha).1
    omega
  have hsub : ps.map (fun p => p.pageId.toU64 - 1) ⊆ range n := by
    intro x hx
    obtain ⟨p, hp, rfl⟩ := mem_map.mp hx
    have := hb p hp
    exact mem_range.mpr (by omega)
  have := (subperm_of_subset hnodup hsub).length_le
  simpa using this

section

variable (sha64 : Bytes → UInt64) (createdMs : Int64) (pageSize : UInt32) (seq prev declared : UInt64)

/-- The changeset the merge of valid sources comes to. -/
def mergedWith
    (final : Option Nat) (ds : List HeapPage) : PhysicalChangeset :=
  mergedChangeset sha64 createdMs .u32 pageSize seq prev declared final (emits final none ds)

/-- The changeset the merge of a chain comes to. -/
def mergedOf
    (e : Nat) (ds : List HeapPage) : PhysicalChangeset :=
  mergedChangeset sha64 createdMs .u32 pageSize seq prev declared (some e) (emits (some e) none ds)

end

theorem mergedFlags_eq : mergedFlags final = 0 ∨ mergedFlags final = Ltx.flagEndPageCountMarker := by
  cases final with
  | none => exact .inl rfl
  | some e => exact .inr rfl

theorem markerPage_toU64 (he : e + 1 < 2 ^ 32) : (markerPage .u32 e).pageId.toU64 = e + 1 := by
  show (UInt32.ofNat (e + 1)).toNat = e + 1
  exact Nat.mod_eq_of_lt he

theorem lastEntry_some (hasc : ∀ cs ∈ css, AscendingIds cs.pages) (h : lastEntry css k = some p) :
    p.pageId.toU64 = k ∧ ∃ cs ∈ css, p ∈ cs.pages := by
  have hasc' : Ascending pageTagging (css.map pages) := by
    intro s hs
    obtain ⟨cs, hcs, rfl⟩ := mem_map.mp hs
    exact hasc cs hcs
  obtain ⟨i, s, hi, hp, hk, -⟩ := (lastWriter_eq_some hasc').mp h
  obtain ⟨cs, hcs, rfl⟩ := mem_map.mp (mem_of_getElem? hi)
  exact ⟨hk, cs, hcs, hp⟩

section MergedWith

variable {seq prev declared : UInt64}
variable (hsrc : ∀ cs ∈ css, SqliteSource pageSize cs)
variable (hpop : Popped pageTagging (css.map pages) ds)
include hsrc hpop

/-- The pages of the merged object: what survives, then the marker. -/
theorem mem_mergedWith :
    p ∈ (mergedWith sha64 createdMs pageSize seq prev declared final ds).pages ↔
      Survives css final p ∨ ∃ e, final = some e ∧ p = markerPage .u32 e := by
  show p ∈ emits final none ds ++ markerPages .u32 final ↔ _
  rw [mem_append, mem_emits (fun cs hcs => (hsrc cs hcs).ascending) hpop]
  cases final <;> simp [markerPages]

/-- The facts about a merged page: it is a data page of a source within the size, or the marker. -/
theorem mergedWith_page (hp : p ∈ (mergedWith sha64 createdMs pageSize seq prev declared final ds).pages) :
    (p.data ≠ [] ∧ p.pageId.size = .u32 ∧ 0 < p.pageId.toU64 ∧ (∀ e, final = some e → p.pageId.toU64 ≤ e) ∧
      p.data.length = pageSize.toNat) ∨ ∃ e, final = some e ∧ p = markerPage .u32 e := by
  rcases (mem_mergedWith hsrc hpop).mp hp with ⟨hl, hd, hle⟩ | h
  · obtain ⟨-, cs, hcs, hpcs⟩ := lastEntry_some (fun cs hcs => (hsrc cs hcs).ascending) hl
    obtain ⟨epc, hv⟩ := (hsrc cs hcs).valid
    refine .inl ⟨hd, (hsrc cs hcs).idSize p hpcs, pos_of_ne_zero (hv.pageNum p hpcs), hle, ?_⟩
    rw [hv.dataLen p hpcs hd, (hsrc cs hcs).pageSize]
  · exact .inr h

variable (hfits : ∀ e, final = some e → e + 1 < 2 ^ 32)
include hfits

theorem mergedWith_ascending :
    AscendingIds (mergedWith sha64 createdMs pageSize seq prev declared final ds).pages := by
  refine pairwise_append.mpr ⟨emits_ascending hpop, ?_, ?_⟩
  · cases final with
    | none => exact List.Pairwise.nil
    | some e => exact pairwise_singleton _ _
  intro a ha b hb
  cases final with
  | none => cases hb
  | some e =>
    rw [markerPages, mem_singleton] at hb
    subst hb
    have := ((mem_emits (fun cs hcs => (hsrc cs hcs).ascending) hpop).mp ha).2.2 e rfl
    rw [markerPage_toU64 (hfits e rfl)]
    omega

theorem mergedWith_count :
    (mergedWith sha64 createdMs pageSize seq prev declared final ds).header.pageCount.toNat =
      (mergedWith sha64 createdMs pageSize seq prev declared final ds).pages.length := by
  have hasc : AscendingIds (mergedWith sha64 createdMs pageSize seq prev declared final ds).pages :=
    mergedWith_ascending hsrc hpop hfits
  have hlen := length_le_of_ascending (n := 2 ^ 32 - 1) hasc (by
    intro p hp
    rcases mergedWith_page hsrc hpop hp with ⟨-, hsize, h0, -⟩ | ⟨e, he, rfl⟩
    · refine ⟨h0, ?_⟩
      cases hpid : p.pageId with
      | u32 v =>
        have := v.toNat_lt
        show v.toNat ≤ _
        omega
      | u64 v => rw [hpid] at hsize; cases hsize
    · have := hfits e he
      rw [markerPage_toU64 this]
      omega)
  show (UInt32.ofNat _).toNat = _
  apply Nat.mod_eq_of_lt
  exact lt_of_le_of_lt hlen (by decide)

theorem mergedWith_wellFormed (hps : ValidSize pageSize) :
    (mergedWith sha64 createdMs pageSize seq prev declared final ds).WellFormed sha64 where
  flags := by
    show mergedFlags final &&& flagCompacted = 0
    rcases mergedFlags_eq with h | h <;> rw [h] <;> decide
  ascending := mergedWith_ascending hsrc hpop hfits
  idSize := by
    intro p hp
    rcases mergedWith_page hsrc hpop hp with ⟨-, h, -⟩ | ⟨e, -, rfl⟩
    · exact h
    · rfl
  dataLen := by
    intro p hp
    have hb := (validateSqlitePageSize_ok hps).2
    rcases mergedWith_page hsrc hpop hp with ⟨-, -, -, -, h⟩ | ⟨e, -, rfl⟩
    · omega
    · exact Nat.two_pow_pos 32
  pageCount := mergedWith_count hsrc hpop hfits
  checksum := rfl

/-- The merged object declares the last source's size, or none. -/
theorem mergedWith_marker :
    changesetEndPageCount (mergedWith sha64 createdMs pageSize seq prev declared final ds) = .ok final := by
  have hdata : ∀ p ∈ emits final none ds, p.data ≠ [] := fun p hp =>
    ((mem_emits (fun cs hcs => (hsrc cs hcs).ascending) hpop).mp hp).2.1
  cases final with
  | none =>
    refine changesetEndPageCount_none.mpr ⟨(by decide : mergedFlags none &&& Ltx.flagEndPageCountMarker = 0), fun p hp =>
      hdata p ?_⟩
    simpa [mergedWith, mergedChangeset, markerPages] using hp
  | some e =>
    refine changesetEndPageCount_some.mpr ⟨?_, markerPage .u32 e, ?_, markerPage_toU64 (hfits e rfl)⟩
    · show Ltx.flagEndPageCountMarker &&& Ltx.flagEndPageCountMarker ≠ 0
      decide
    · show (emits (some e) none ds ++ [markerPage .u32 e]).filter _ = _
      have hnone : (emits (some e) none ds).filter (fun p => p.data.isEmpty) = [] := by
        rw [filter_eq_nil_iff]
        intro p hp
        simpa using hdata p hp
      rw [filter_append, hnone]
      rfl

theorem mergedWith_valid (hps : ValidSize pageSize) :
    Valid (mergedWith sha64 createdMs pageSize seq prev declared final ds) final where
  pageSize := hps
  flags := by
    show mergedFlags final &&& (~~~ Ltx.flagEndPageCountMarker) = 0
    rcases mergedFlags_eq with h | h <;> rw [h] <;> decide
  idSize := rfl
  count := mergedWith_count hsrc hpop hfits
  marker := mergedWith_marker hsrc hpop hfits
  pageNum := by
    intro p hp
    rcases mergedWith_page hsrc hpop hp with ⟨-, -, h, -⟩ | ⟨e, he, rfl⟩
    · omega
    · rw [markerPage_toU64 (hfits e he)]
      omega
  bound := by
    intro p hp hd
    rcases mergedWith_page hsrc hpop hp with ⟨-, -, -, h, -⟩ | ⟨e, -, rfl⟩
    · exact h
    · exact absurd rfl hd
  dataLen := by
    intro p hp hd
    rcases mergedWith_page hsrc hpop hp with ⟨-, -, -, -, h⟩ | ⟨e, -, rfl⟩
    · exact h
    · exact absurd rfl hd

end MergedWith

section Merged

variable {seq prev declared : UInt64}
variable (hgood : ∀ cs ∈ css, GoodSource pageSize.toNat cs)
variable (hid : ∀ cs ∈ css, ∀ p ∈ cs.pages, p.pageId.size = .u32)
variable (hpop : Popped pageTagging (css.map pages) ds)
variable (he : e + 1 < 2 ^ 32)
include hgood hid hpop he

section

variable (hps : ValidSize pageSize)
include hps

theorem mergedOf_wellFormed :
    (mergedOf sha64 createdMs pageSize seq prev declared e ds).WellFormed sha64 := by
  apply mergedWith_wellFormed (fun cs hcs => (hgood cs hcs).sqliteSource (hid cs hcs)) hpop _ hps
  rintro _ ⟨⟩
  exact he

theorem mergedOf_valid :
    Valid (mergedOf sha64 createdMs pageSize seq prev declared e ds) (some e) := by
  apply mergedWith_valid (fun cs hcs => (hgood cs hcs).sqliteSource (hid cs hcs)) hpop _ hps
  rintro _ ⟨⟩
  exact he

end

theorem mergedOf_small :
    ∀ p ∈ (mergedOf sha64 createdMs pageSize seq prev declared e ds).pages, p.pageId.toU64 < 2 ^ 32 := by
  intro p hp
  rcases mergedWith_page (fun cs hcs => (hgood cs hcs).sqliteSource (hid cs hcs)) hpop hp with
    ⟨-, -, -, h, -⟩ | ⟨_, ⟨⟩, rfl⟩
  · have := h e rfl
    omega
  · rw [markerPage_toU64 he]
    exact he

/-- Within the size, the merged object writes to a page what its last writer wrote. -/
theorem mergedOf_written (hk : k ≤ e) (hdata : ∀ m, lastEntry css k = some m → m.data ≠ []) :
    written (mergedOf sha64 createdMs pageSize seq prev declared e ds).pages k =
      (lastEntry css k).map PageEntry.data := by
  have hasc : ∀ cs ∈ css, AscendingIds cs.pages := fun cs hcs => (hgood cs hcs).ascending
  have hsrc : ∀ cs ∈ css, SqliteSource pageSize cs := fun cs hcs => (hgood cs hcs).sqliteSource (hid cs hcs)
  cases hl : lastEntry css k with
  | some m =>
    obtain ⟨rfl, -⟩ := lastEntry_some hasc hl
    have hmem : m ∈ (mergedOf sha64 createdMs pageSize seq prev declared e ds).pages := by
      refine (mem_mergedWith hsrc hpop).mpr (.inl ⟨hl, hdata m hl, ?_⟩)
      rintro _ ⟨⟩
      exact hk
    have hfits : ∀ e', some e = some e' → e' + 1 < 2 ^ 32 := by
      rintro _ ⟨⟩
      exact he
    exact written_of_mem (mergedWith_ascending hsrc hpop hfits) hmem (hdata m hl)
  | none =>
    refine written_eq_none.mpr ?_
    intro p hp hd hpk
    rcases (mem_mergedWith hsrc hpop).mp hp with ⟨h, -⟩ | ⟨_, -, rfl⟩
    · rw [hpk, hl] at h
      cases h
    · exact hd rfl

/-- **Applying the merged object is applying the sources.** -/
theorem apply_mergedOf (hps : ValidSize pageSize) {db' : Bytes}
    (happ : Applied pageSize.toNat css db db' e) :
    applyDecodedChangesetToDb (mergedOf sha64 createdMs pageSize seq prev declared e ds) db = .ok db' := by
  have hv : Valid (mergedOf sha64 createdMs pageSize seq prev declared e ds) (some e) :=
    mergedOf_valid hgood hid hpop he hps
  obtain ⟨db₂, hmerged, hlen, hbyte⟩ := applyDecoded_spec hv (mergedOf_small hgood hid hpop he) db
  have hpos := (validateSqlitePageSize_ok hps).2.1
  have heq : db₂ = db' := by
    apply ext_byteAt
    · rw [hlen, happ.length]; rfl
    intro i hi
    have hi' : i < e * pageSize.toNat := by rw [hlen] at hi; exact hi
    have hk := pageOf_le hpos hi'
    have hsize : (mergedOf sha64 createdMs pageSize seq prev declared e ds).header.pageSize = pageSize := rfl
    rw [hbyte i hi', happ.bytes i (by rw [happ.length]; exact hi'), hsize, mergedOf_written hgood hid hpop he hk
      (fun m hm => happ.data _ m pageOf_pos hk hm)]
    cases lastEntry css (pageOf pageSize.toNat i) <;> rfl
  rw [hmerged, heq]

end Merged

/-! ## Merging preserves restore -/

theorem sourceOf_streams {inputs : List MergeInput} (h : Forall₂ SourceOf inputs css) :
    inputs.map (fun s => s.stream.pages) = css.map pages := by
  induction h with
  | nil => rfl
  | cons hs _ ih => simp only [map_cons, ih, hs.stream]

theorem forall₂_mem_left {α β : Type} {R : α → β → Prop} {as : List α} {bs : List β}
    (h : Forall₂ R as bs) {a : α} (ha : a ∈ as) : ∃ b ∈ bs, R a b := by
  induction h with
  | nil => cases ha
  | @cons x y as bs hxy _ ih =>
    rcases mem_cons.mp ha with rfl | ha
    · exact ⟨y, mem_cons_self, hxy⟩
    · obtain ⟨b, hb, h⟩ := ih ha
      exact ⟨b, mem_cons_of_mem _ hb, h⟩

theorem forall₂_mem_right {α β : Type} {R : α → β → Prop} {as : List α} {bs : List β}
    (h : Forall₂ R as bs) {b : β} (hb : b ∈ bs) : ∃ a ∈ as, R a b :=
  forall₂_mem_left h.flip hb

/-- A merge that succeeds found one geometry. -/
theorem geometry_of_merge {tracker : PeakPages}
    (h : mergeChangesets sha64 createdMs (first :: rest) tracker = .ok r) :
    ∀ s ∈ first :: rest,
      s.header.pageIdSize = first.header.pageIdSize ∧ s.header.pageSize = first.header.pageSize := by
  unfold mergeChangesets at h
  simp only at h
  split at h
  · cases h
  rename_i hnone
  intro s hs
  have := List.find?_eq_none.mp hnone s hs
  simpa using this

/-- The last source declares the size the merge will emit, or none. -/
theorem epcAhead_of_last (hlast : css.getLast? = some last) (hv : Valid last final)
    (hasc : AscendingIds last.pages) : EpcAhead css.length final none (css.map pages) := by
  have hpages : (css.map pages)[css.length - 1]? = some last.pages := by
    rw [List.getElem?_map, ← List.getLast?_eq_getElem?, hlast]
    rfl
  cases final with
  | none =>
    refine .inl ⟨rfl, fun ps hps => ?_⟩
    rw [hpages, Option.some.injEq] at hps
    exact hps ▸ (changesetEndPageCount_none.mp hv.marker).2
  | some e =>
    obtain ⟨m, hm, hmd, hme⟩ := hv.exists_marker
    refine .inr ⟨rfl, last.pages, m, e, hpages, hm, hmd, hme, rfl, ?_⟩
    intro p hp hd
    apply eq_of_itemKey_eq (T := pageTagging) hasc hp hm
    show p.pageId.toU64 = m.pageId.toU64
    rw [hv.eq_marker hp hd, hme]

/-- Valid sources of one page size are mergeable; the merge emits the size the last of them declares. -/
theorem mergeable_of_sources (hof : Forall₂ SourceOf (first :: rest) css)
    (hsrc : ∀ cs ∈ css, SqliteSource pageSize cs) (hlast : css.getLast? = some last) (hv : Valid last final) :
    Mergeable first rest (css.map pages) final ∧ first.header.pageIdSize = .u32 ∧
      first.header.pageSize = pageSize := by
  have hgeom : ∀ s ∈ first :: rest, s.header.pageIdSize = .u32 ∧ s.header.pageSize = pageSize := by
    intro s hs
    obtain ⟨cs, hcs, h⟩ := forall₂_mem_left hof hs
    obtain ⟨epc, hvalid⟩ := (hsrc cs hcs).valid
    rw [h.header]
    exact ⟨hvalid.idSize, (hsrc cs hcs).pageSize⟩
  obtain ⟨hsize, hpage⟩ := hgeom first mem_cons_self
  refine ⟨?_, hsize, hpage⟩
  exact
    { streams := sourceOf_streams hof
      healthy := by
        intro s hs
        obtain ⟨cs, -, h⟩ := forall₂_mem_left hof hs
        rw [h.stream]
      geometry := by
        rw [hsize, hpage]
        exact hgeom
      ascending := by
        intro ps hps
        obtain ⟨cs, hcs, rfl⟩ := mem_map.mp hps
        exact (hsrc cs hcs).ascending
      idSize := by
        intro ps hps p hp
        obtain ⟨cs, hcs, rfl⟩ := mem_map.mp hps
        rw [hsize]
        exact (hsrc cs hcs).idSize p hp
      final := by
        rw [hof.length_eq]
        exact epcAhead_of_last hlast hv (hsrc last (mem_of_getLast? hlast)).ascending }

/-- The sources of a merge that succeeds are of one page size. -/
theorem sqliteSource_of_merge {tracker : PeakPages} (hof : Forall₂ SourceOf (first :: rest) css)
    (hvalid : ∀ cs ∈ css, validateSqliteChangeset cs = .ok ()) (hasc : ∀ cs ∈ css, AscendingIds cs.pages)
    (hmerge : mergeChangesets sha64 createdMs (first :: rest) tracker = .ok r) :
    ∀ cs ∈ css, SqliteSource first.header.pageSize cs := by
  intro cs hcs
  obtain ⟨s, hs, h⟩ := forall₂_mem_right hof hcs
  obtain ⟨epc, hv⟩ := validateSqliteChangeset_ok.mp (hvalid cs hcs)
  refine ⟨⟨epc, hv⟩, hasc cs hcs, fun p hp => (h.idSize p hp).trans hv.idSize, ?_⟩
  rw [← (geometry_of_merge hmerge s hs).2, h.header]
  rfl

theorem SqliteSource.small (h : SqliteSource pageSize cs) : ∀ p ∈ cs.pages, p.pageId.toU64 < 2 ^ 32 := by
  intro p hp
  have hid := h.idSize p hp
  cases hpid : p.pageId with
  | u32 v => exact v.toNat_lt
  | u64 v =>
    rw [hpid] at hid
    cases hid

theorem SqliteSource.fits (h : SqliteSource pageSize cs)
    (hv : Valid cs final) : ∀ e, final = some e → e + 1 < 2 ^ 32 := by
  rintro e rfl
  obtain ⟨m, hm, -, hme⟩ := hv.exists_marker
  rw [← hme]
  exact h.small m hm

/-- **Merging preserves restore.** For every database image and every list of source changesets that the
    merge accepts, where each source is valid, in canonical order and declares one size, and where a source
    that grows the database writes every grown page: the merged bytes decode, and applying the decoded
    object gives exactly the bytes that applying the sources in order gives. -/
theorem merge_preserves_restore (ph : Physical) (createdMs : Int64) (tracker tracker' : PeakPages)
    (inputs : List MergeInput) (css : List PhysicalChangeset) (db : Bytes) (res : MergeResult)
    (hsource : Forall₂ SourceOf inputs css)
    (hvalid : ∀ cs ∈ css, validateSqliteChangeset cs = .ok ())
    (hascending : ∀ cs ∈ css, AscendingIds cs.pages)
    (hmarker : ∀ cs ∈ css, ∃ e, changesetEndPageCount cs = .ok (some e))
    (hgrow : GrowthCovered css db)
    (hmerge : mergeChangesets ph.sha64 createdMs inputs tracker = .ok (res, tracker')) :
    ∃ merged db', ph.decode res.bytes = .ok merged ∧
      applyDecodedChangesetToDb merged db = .ok db' ∧ applyAll css db = .ok db' := by
  cases hsource with
  | nil => simp [mergeChangesets] at hmerge
  | @cons first cs₀ rest css' hfirst hrest =>
    have hof : Forall₂ SourceOf (first :: rest) (cs₀ :: css') := .cons hfirst hrest
    have hsrc := sqliteSource_of_merge hof hvalid hascending hmerge
    have hgood : ∀ cs ∈ cs₀ :: css', GoodSource first.header.pageSize.toNat cs := by
      intro cs hcs
      obtain ⟨epc, hv⟩ := (hsrc cs hcs).valid
      obtain ⟨e, he⟩ := hmarker cs hcs
      have heq : epc = some e := by
        have := hv.marker.symm.trans he
        injection this
      exact ⟨⟨e, heq ▸ hv⟩, hascending cs hcs, (hsrc cs hcs).small, by rw [(hsrc cs hcs).pageSize]⟩
    obtain ⟨last, hlast⟩ : ∃ last, (cs₀ :: css').getLast? = some last :=
      ⟨_, getLast?_eq_some_getLast (cons_ne_nil _ _)⟩
    obtain ⟨db', e, hall, happ, hdecl⟩ := applyAll_spec (cons_ne_nil _ _) hgood hgrow
    have hlmem := mem_of_getLast? hlast
    obtain ⟨e', hv⟩ := (hgood last hlmem).valid
    have hee : e' = e := by
      have := hv.marker.symm.trans (hdecl last hlast)
      injection this with this
      injection this
    subst hee
    have he : e' + 1 < 2 ^ 32 := (hsrc last hlmem).fits hv e' rfl
    have hps : ValidSize first.header.pageSize := by
      obtain ⟨e₀, hv₀⟩ := (hsrc cs₀ mem_cons_self).valid
      rw [hfirst.header]
      exact hv₀.pageSize
    obtain ⟨hm, hsize, -⟩ := mergeable_of_sources hof hsrc hlast hv
    have hid : ∀ cs ∈ cs₀ :: css', ∀ p ∈ cs.pages, p.pageId.size = .u32 := fun cs hcs => (hsrc cs hcs).idSize
    obtain ⟨ds, t, hpop, heq⟩ := mergeChangesets_eq ph.sha64 createdMs hm tracker
    rw [heq] at hmerge
    split at hmerge
    · cases hmerge
    cases hmerge
    rw [hsize]
    exact ⟨_, db', ph.decode_wire _ (mergedOf_wellFormed hgood hid hpop he hps),
      apply_mergedOf hgood hid hpop he hps happ, hall⟩

/-! ### A chain that rewrites and grows -/

/-- SHA-256 (first eight bytes) of the byte strings the growing chain below hashes: those of its two
    sources, told apart by length and by their first field, and of the merged object. -/
def growingSha64 (bs : Bytes) : UInt64 :=
  if bs.length = 536 then 5005729626446625227
  else if bs.take 8 = beBytes 8 0 then 14321747312478120648
  else 2050793820128084820

def growingHeader (seq prev : UInt64) (pageCount : UInt32) : PhysicalHeader where
  flags := 0x01
  pageIdSize := .u32
  pageSize := 512
  seq := seq
  prevChecksum := prev
  pageCount := pageCount
  createdMs := 0

/-- A page filled with one byte. -/
def filled (b : UInt8) : Bytes := replicate 512 b

@[simp] theorem length_filled (b : UInt8) : (filled b).length = 512 := length_replicate

@[simp] theorem filled_ne_nil (b : UInt8) : filled b ≠ [] := by
  intro h
  have := length_filled b
  rw [h] at this
  cases this

/-- A chain of two sources over a one-page database: the first rewrites page 1, the second rewrites it
    again and grows the database to two pages. -/
def growingChain : List PhysicalChangeset :=
  [{ header := growingHeader 1 0 2
     declaredEndChecksum := none
     pages := [⟨.u32 1, filled 0xAA⟩, ⟨.u32 2, []⟩]
     checksum := 5005729626446625227 },
   { header := growingHeader 2 5005729626446625227 3
     declaredEndChecksum := none
     pages := [⟨.u32 1, filled 0xCC⟩, ⟨.u32 2, filled 0xBB⟩, ⟨.u32 3, []⟩]
     checksum := 2050793820128084820 }]

def growingInputs : List MergeInput :=
  growingChain.map (fun cs =>
    { header := sourceHeaderOf cs
      range := .point cs.header.seq.toNat
      stream := { pages := cs.pages, fault := none } })

theorem growingChain_valid (hcs : cs ∈ growingChain) :
    validateSqliteChangeset cs = .ok () ∧ AscendingIds cs.pages ∧
      ∃ e, changesetEndPageCount cs = .ok (some e) := by
  have hps : validateSqlitePageSize 512 = .ok 512 := by decide
  simp only [growingChain, mem_cons, not_mem_nil, or_false] at hcs
  rcases hcs with rfl | rfl
  · refine ⟨?_, ?_, 1, ?_⟩ <;>
      simp [validateSqliteChangeset, growingHeader, hps, changesetEndPageCount, endPageCountLoop,
        validatePages, PageId.toU64, flagEndPageCountMarker, sqlitePageIdSize, AscendingIds]
  · refine ⟨?_, ?_, 2, ?_⟩ <;>
      simp [validateSqliteChangeset, growingHeader, hps, changesetEndPageCount, endPageCountLoop,
        validatePages, PageId.toU64, flagEndPageCountMarker, sqlitePageIdSize, AscendingIds]

theorem growingChain_covered : GrowthCovered growingChain (filled 0) := by
  refine ⟨?_, fun db' happly => ⟨?_, fun _ _ => trivial⟩⟩
  · -- the first source keeps the one page the database has
    intro e he k hk hke hlen
    simp [growingHeader, changesetEndPageCount, endPageCountLoop, PageId.toU64, flagEndPageCountMarker]
      at he hlen
    omega
  · -- the second one adds page 2, and writes it
    have hps : validateSqlitePageSize 512 = .ok 512 := by decide
    have hdb : db'.length = 512 := by
      simp [applyDecodedChangesetToDb, validateSqliteChangeset, growingHeader, hps, changesetEndPageCount,
        endPageCountLoop, validatePages, writePages, sqlitePageOffset, PageId.toU64, flagEndPageCountMarker,
        sqlitePageIdSize] at happly
      rw [← happly, length_setLen]
    intro e he k hk hke hlen
    simp [growingHeader, changesetEndPageCount, endPageCountLoop, PageId.toU64, flagEndPageCountMarker]
      at he hlen
    exact ⟨⟨.u32 2, filled 0xBB⟩, by simp, by simp, by simp [PageId.toU64]; omega⟩

theorem growingInputs_merge (createdMs : Int64) :
    ∃ r, mergeChangesets growingSha64 createdMs growingInputs ⟨0, 0⟩ = .ok r := by
  simp [mergeChangesets, growingInputs, growingChain, sourceHeaderOf, growingHeader, streamPages,
    primeFrontier, initialState, readNext, PageStream.nextPage, mergeLoop, popMin, pageTagging,
    Tagging.Le, captureEpc, PageId.toU64, range, List.range.loop, mergeStep, resolve, flush,
    shouldEmit, emitPage, sealMerged, sourceChainEnds, emitMarker, flushPending, checkContiguous,
    growingSha64, hashSourcePage, PageIdSize.width]

theorem growingInputs_source : Forall₂ SourceOf growingInputs growingChain := by
  refine Forall₂.cons ⟨rfl, rfl, ?_⟩ (Forall₂.cons ⟨rfl, rfl, ?_⟩ Forall₂.nil)
  · intro p hp
    simp at hp
    rcases hp with rfl | rfl <;> rfl
  · intro p hp
    simp at hp
    rcases hp with rfl | rfl | rfl <;> rfl

/-- The growing chain merges, and its merged object restores what the two sources restore. -/
theorem merge_preserves_restore_growingChain :
    ∃ res tracker merged db',
      mergeChangesets growingSha64 0 growingInputs ⟨0, 0⟩ = .ok (res, tracker) ∧
      (physicalOf growingSha64).decode res.bytes = .ok merged ∧
      applyDecodedChangesetToDb merged (filled 0) = .ok db' ∧ applyAll growingChain (filled 0) = .ok db' := by
  obtain ⟨⟨res, tracker⟩, hmerge⟩ := growingInputs_merge 0
  obtain ⟨merged, db', hdecode, happly, hall⟩ :=
    merge_preserves_restore (physicalOf growingSha64) 0 ⟨0, 0⟩ tracker growingInputs growingChain (filled 0)
      res growingInputs_source (fun cs hcs => (growingChain_valid hcs).1)
      (fun cs hcs => (growingChain_valid hcs).2.1) (fun cs hcs => (growingChain_valid hcs).2.2)
      growingChain_covered hmerge
  exact ⟨res, tracker, merged, db', hmerge, hdecode, happly, hall⟩

end Compaction
end Walrust
