import Walrust.Legacy.Replica
import Walrust.Watch

/-!
# `Walrust.Watch.Checksums` — the chain checksum, written and read

Three functions compute the chain value of an incremental. The watcher has all pages and calls `chain_checksum`, which
sorts them; the encoder sorts the same pages again and writes the value it is given; and whoever applies the object
feeds its pages to a `ChainHasher` as they are decoded.

* `ChainHasher`, `sortedChainChecksum` — the streaming one, and the one over a list;
* `sortPages_unique` — distinct pages have one ascending order;
* `chain_checksums_agree` — the three values are one.
-/

namespace Walrust
namespace Watch

open Legacy List Lib.Bytes

/-- `ChainHasher`: what its hash was fed, and how many pages. -/
structure ChainHasher where
  hasher : Bytes
  pageCount : Nat

/-- `ChainHasher::new`. -/
def ChainHasher.new (pre : UInt64) : ChainHasher := ⟨beBytes 8 pre.toNat, 0⟩

/-- `ChainHasher::update`. -/
def ChainHasher.update (h : ChainHasher) (page : UInt32 × Bytes) : ChainHasher :=
  ⟨h.hasher ++ beBytes 4 page.1.toNat ++ page.2, h.pageCount + 1⟩

/-- `ChainHasher::finish`. -/
def ChainHasher.finish (ltx : LtxCrate) (sha64 : Bytes → UInt64) (h : ChainHasher) : UInt64 :=
  ltx.checksum (sha64 h.hasher)

/-- `chain_checksum`, in whatever order the pages come. -/
def sortedChainChecksum (ltx : LtxCrate) (sha64 : Bytes → UInt64) (pre : UInt64) (pages : List (UInt32 × Bytes)) :
    UInt64 :=
  chainChecksum ltx sha64 pre (sortPages pages)

/-- What the encoder writes the decoder reads. -/
def Tools.RoundTrips {E : Type} (t : Tools E) : Prop :=
  ∀ header pages post bytes, t.encode header pages post = .ok bytes →
    t.ltx.header bytes = .ok header ∧ t.ltx.pages bytes = pages ∧ t.ltx.finish bytes = .done post

variable {E : Type} {ltx : LtxCrate} {sha64 : Bytes → UInt64} {pre : UInt64} {pages asc : List (UInt32 × Bytes)}

theorem hasher_foldl (h : ChainHasher) : (pages.foldl ChainHasher.update h).hasher =
    h.hasher ++ pages.flatMap fun p => beBytes 4 p.1.toNat ++ p.2 := by
  induction pages generalizing h with
  | nil => exact (append_nil _).symm
  | cons p pages ih =>
    rw [foldl_cons, ih, flatMap_cons, ← append_assoc]
    simp only [ChainHasher.update, append_assoc]

/-- The streaming hasher computes the chain value of the pages in the order they come. -/
theorem finish_foldl : (pages.foldl ChainHasher.update (.new pre)).finish ltx sha64 = chainChecksum ltx sha64 pre pages :=
  congrArg (fun bytes => ltx.checksum (sha64 bytes)) (hasher_foldl _)

/-- Distinct pages have one ascending order. -/
theorem sortPages_unique (hdistinct : (pages.map Prod.fst).Nodup) (hperm : asc.Perm pages)
    (hasc : asc.Pairwise fun p q => p.1 < q.1) : sortPages pages = asc := by
  have hsorted : (sortPages pages).Pairwise fun p q => p.1 ≤ q.1 := by
    refine (pairwise_mergeSort ?_ ?_ pages).imp of_decide_eq_true
    · simpa using fun a b c => @UInt32.le_trans a b c
    · simpa using UInt32.le_total
  refine ((mergeSort_perm ..).trans hperm.symm).eq_of_pairwise ?_ hsorted (hasc.imp UInt32.le_of_lt)
  intro p q hp hq h₁ h₂
  -- two pages of one number are one page
  exact inj_on_of_nodup_map hdistinct (mem_mergeSort.mp hp) (hperm.mem_iff.mp hq) (UInt32.le_antisymm h₁ h₂)

/-- **The chain checksums agree.** For distinct pages in any order `chain_checksum` is what a `ChainHasher` computes of
    the ascending pages; and the object that `encode_wal_changes` makes of the pages with that value has it in its
    trailer, and applies to every database at the chain value `pre`, with that value recomputed. -/
theorem chain_checksums_agree (t : Tools E) (ht : t.RoundTrips) (pre : UInt64) (pages : List (UInt32 × Bytes))
    (hdistinct : (pages.map Prod.fst).Nodup) :
    (∀ asc : List (UInt32 × Bytes), asc.Perm pages → asc.Pairwise (fun p q => p.1 < q.1) →
      sortedChainChecksum t.ltx t.sha64 pre pages =
        (asc.foldl ChainHasher.update (.new pre)).finish t.ltx t.sha64) ∧
    ∀ now pageSize minTxid maxTxid commitPage bytes,
      encodeWalChanges t now pages pageSize minTxid maxTxid commitPage (some pre)
          (sortedChainChecksum t.ltx t.sha64 pre pages) = .ok bytes →
        t.ltx.finish bytes = .done (sortedChainChecksum t.ltx t.sha64 pre pages) ∧
        ∀ db, ∃ r, applyLtxToDbChecked t.ltx t.sha64 bytes db pre = .ok r ∧
          r.postApplyChecksum = sortedChainChecksum t.ltx t.sha64 pre pages ∧
          r.db = writeLtxPages pageSize.toNat (sortPages pages) db := by
  refine ⟨fun asc hperm hasc => ?_, fun now pageSize minTxid maxTxid commitPage bytes hencode => ?_⟩
  · rw [finish_foldl, sortedChainChecksum, sortPages_unique hdistinct hperm hasc]
  · obtain ⟨hheader, hpages, hfinish⟩ := ht _ _ _ _ hencode
    refine ⟨hfinish, fun db => ?_⟩
    have happly := applyLtxToDb_eq hheader hfinish rfl (congrArg (chainChecksum t.ltx t.sha64 pre) hpages) db
    rw [hpages] at happly
    refine ⟨_, (applyLtxToDbChecked_eq hheader ?_).trans happly, rfl, rfl⟩
    simp [checkPre]

/-- Two pages, the second one first. -/
def swappedPages : List (UInt32 × Bytes) := [(2, replicate 512 3), (1, replicate 512 5)]

/-- The header of an incremental of the two pages, behind the snapshot of `twoPages`. -/
def swappedHeader : LtxHeader := ⟨false, 512, 2, 2, 3, 0, some 0xaddfe0faea440b60⟩

/-- The encoder of the one object, its decoder, and SHA-256 on what the two hash. `Checksum::new` sets the top bit. -/
def swappedTools : Tools Unit where
  ltx :=
    { header := fun bytes => if bytes = Compaction.ltxMagic then .ok swappedHeader else .error "header"
      pages := fun _ => sortPages swappedPages
      finish := fun _ => .done 0xb1e05087ee3d22c9
      checksum := fun c => c ||| 0x8000000000000000
      header_magic := by
        intro bytes h hok
        split at hok
        · next heq =>
          rw [heq]
          rfl
        · cases hok
      page_length := by
        intro bytes h hok p hp
        split at hok
        · cases hok
          rcases mem_pair.mp (mem_mergeSort.mp hp) with rfl | rfl <;> exact length_replicate
        · cases hok
      checksum_checksum := topBit_idem
      checksum_pre := by
        intro bytes h c hok hpre
        split at hok
        · cases hok
          cases hpre
          decide
        · cases hok
      checksum_post := by
        intro bytes c hdone
        cases hdone
        decide }
  encode header pages post :=
    if header = swappedHeader ∧ pages = sortPages swappedPages ∧ post = 0xb1e05087ee3d22c9 then .ok Compaction.ltxMagic
    else .error "encode"
  sha64 bytes :=
    if bytes = chainBytes 0xaddfe0faea440b60 (sortPages swappedPages) then 0x31e05087ee3d22c9
    else if bytes = twoPages then 0x2ddfe0faea440b60
    else 0
  vacuumInto _ := []

/-- The incremental applies to the database it was made for. -/
theorem chain_checksums_agree_swapped :
    computeDbChecksum swappedTools.ltx swappedTools.sha64 twoPages = 0xaddfe0faea440b60 ∧
    ∃ bytes r, encodeWalChanges swappedTools 0 swappedPages 512 2 3 2 (some 0xaddfe0faea440b60)
        0xb1e05087ee3d22c9 = .ok bytes ∧
      applyLtxToDbChecked swappedTools.ltx swappedTools.sha64 bytes twoPages 0xaddfe0faea440b60 = .ok r ∧
      r.postApplyChecksum = 0xb1e05087ee3d22c9 := by
  have htrips : swappedTools.RoundTrips := by
    intro header pages post bytes hok
    simp only [swappedTools] at hok
    split at hok
    · next hone =>
      cases hok
      obtain ⟨rfl, rfl, rfl⟩ := hone
      exact ⟨rfl, rfl, rfl⟩
    · cases hok
  have hchain : sortedChainChecksum swappedTools.ltx swappedTools.sha64 0xaddfe0faea440b60 swappedPages =
      0xb1e05087ee3d22c9 := by
    simp only [sortedChainChecksum, chainChecksum, swappedTools, if_true]
    decide
  have hencode : encodeWalChanges swappedTools 0 swappedPages 512 2 3 2 (some 0xaddfe0faea440b60)
      (sortedChainChecksum swappedTools.ltx swappedTools.sha64 0xaddfe0faea440b60 swappedPages) =
        .ok Compaction.ltxMagic := by
    rw [hchain]
    exact if_pos ⟨rfl, rfl, rfl⟩
  obtain ⟨-, happlies⟩ := (chain_checksums_agree swappedTools htrips _ swappedPages (by decide)).2 _ _ _ _ _ _ hencode
  obtain ⟨r, hr, hpost, -⟩ := happlies twoPages
  rw [hchain] at hencode hpost
  refine ⟨?_, _, r, hencode, hr, hpost⟩
  decide +kernel

end Watch
end Walrust
