import Walrust.Compaction.Tidy
import Mathlib.Data.List.TakeWhile
import Mathlib.Order.Interval.Finset.Nat

/-!
# `Walrust.Compaction.Resume` — what a batch is on tidy shelves

The bridge from the selected batch, a cut of a sorted listing, to the shelves: no adjoining files begin before
the batch, the files inside its span are the batch itself, and everything up to its end was old enough. From
this `Batch.resumable`: the merge of a batch that is full, or that ends for good, can be resumed; and
`Batch.exact`: a batch that meets an object whose sources are all there *is* that object's source set.
-/

namespace Walrust
namespace Compaction

open Hadbp List Function

variable {x : SeqRange}

/-- Neighbours of a listing in seq order. -/
def Ordered (l : List SeqRange) : Prop := l.Pairwise fun a x => a.max < x.min

/-- In an ordered listing whose files up to `f` are lone, no two adjoining files begin before `f`. -/
theorem min_le_of_adj {pre tail : List SeqRange} {f : SeqRange} (hord : Ordered (pre ++ f :: tail))
    (hle : ∀ r ∈ pre ++ f :: tail, r.min ≤ r.max) (hlone : (pre ++ [f]).IsChain fun a r => ¬ a.Adj r)
    {r : SeqRange} (hr : r ∈ pre ++ f :: tail) (hx : x ∈ pre ++ f :: tail) (hadj : r.Adj x) :
    f.min ≤ r.min := by
  have hadj' : r.max + 1 = x.min := hadj
  induction pre with
  | nil =>
    rcases mem_cons.mp hr with rfl | hr
    · exact le_refl _
    · have h1 := rel_of_pairwise_cons hord hr
      have h2 := hle f mem_cons_self
      omega
  | cons a pre ih =>
    rw [cons_append] at hord hle hlone hr hx
    obtain ⟨hhead, htail⟩ := pairwise_cons.mp hord
    rcases mem_cons.mp hr with rfl | hr'
    · -- the file after `r` does not adjoin it, so nothing does
      exfalso
      have hrle := hle r mem_cons_self
      rcases mem_cons.mp hx with rfl | hx
      · omega
      obtain ⟨y, ys, hy⟩ : ∃ y ys, pre ++ f :: tail = y :: ys := by
        cases pre with
        | nil => exact ⟨f, tail, rfl⟩
        | cons p pre => exact ⟨p, pre ++ f :: tail, rfl⟩
      have hnext : ¬ r.Adj y := by
        cases pre with
        | nil | cons =>
          obtain ⟨rfl, -⟩ := cons_eq_cons.mp hy
          exact (isChain_cons_cons.mp hlone).1
      have hyle := hle y (mem_cons_of_mem _ (by rw [hy]; exact mem_cons_self))
      have hry : r.max < y.min := hhead y (by rw [hy]; exact mem_cons_self)
      rw [hy] at hx htail
      rcases mem_cons.mp hx with rfl | hx
      · exact hnext hadj
      · have := rel_of_pairwise_cons htail hx
        omega
    · rcases mem_cons.mp hx with rfl | hx'
      · have := hhead r hr'
        have := hle x mem_cons_self
        have := hle r (mem_cons_of_mem _ hr')
        omega
      · exact ih htail (fun y hy => hle y (mem_cons_of_mem _ hy)) hlone.tail hr' hx'

variable {env : Env} {b : Bucket} {c : Call} {batch : Level → Nat} {head : Nat} {old : SeqRange → Prop}
  {f : LayoutFile}

theorem Listing.ordered {level : Level} {all : List LayoutFile} (h : Listing env b level all)
    (ht : Tidy batch head old (shelves b)) : Ordered (rangesOf all) := by
  refine pairwise_map.mpr ?_
  have hkeys : all.Pairwise fun f g => f.key ≠ g.key := pairwise_map.mp h.nodup
  refine (h.sorted.and hkeys).imp_of_mem fun {f g} hf hg hfg => ?_
  have hfr := h.fileAt f hf
  have hgr := h.fileAt g hg
  rcases ht.apart level f.range hfr.mem_shelves g.range hgr.mem_shelves with heq | hap | hap
  · exact absurd (keyRange_inj hfr.range_eq (heq ▸ hgr.range_eq)) hfg.2
  · exact hap
  · have := hfg.1
    have := keyRange_le hgr.range_eq
    simp only [rangeLe, Bool.or_eq_true, Bool.and_eq_true, decide_eq_true_eq] at *
    omega

/-! ## What a selected batch is on tidy shelves -/

section Batches

variable {all targets rest : List LayoutFile} {first : LayoutFile}
variable (hb : Batch env b c all targets first rest) (ht : Tidy batch head old (shelves b))
include hb ht

theorem Batch.lone {r : SeqRange} (hr : r ∈ shelves b c.level) (hx : x ∈ shelves b c.level)
    (hadj : r.Adj x) : (spanOf first rest).min ≤ r.min := by
  obtain ⟨pre, mid, post, hall, _, hcut⟩ := hb.cut
  have hranges : rangesOf all = rangesOf pre ++ first.range :: rangesOf (rest ++ mid ++ post) := by
    rw [hall]
    simp [rangesOf]
  have hord := hb.listed.ordered ht
  have hle : ∀ y ∈ rangesOf all, y.min ≤ y.max := fun y hy =>
    shelves_le (hb.listed.mem_ranges.mp hy)
  rw [hranges] at hord hle
  refine min_le_of_adj hord hle hcut.lone ?_ ?_ hadj
  · rw [← hranges]
    exact hb.listed.mem_ranges.mpr hr
  · rw [← hranges]
    exact hb.listed.mem_ranges.mpr hx

theorem Batch.insideOf_eq :
    insideOf (shelves b c.level) (spanOf first rest) = {r | r ∈ rangesOf (first :: rest)} := by
  ext r
  constructor
  · rintro ⟨hr, hin⟩
    have hle := shelves_le hr
    obtain ⟨x, hx, hnx⟩ := hb.spans.cover (n := r.min) ⟨hin.1, le_trans hle hin.2⟩
    rw [ht.eq_of_mem hr (hb.spans.mem x hx) ⟨le_refl _, hle⟩ hnx]
    exact hx
  · exact fun hr => ⟨hb.spans.mem r hr, hb.spans.within (fun x hx => shelves_le hx) hr⟩

theorem Batch.ranges_nodup : (rangesOf (first :: rest)).Nodup := by
  obtain ⟨pre, mid, post, hall, _⟩ := hb.cut
  have hord := hb.listed.ordered ht
  have hsub : (rangesOf (first :: rest)).Sublist (rangesOf all) := by
    rw [hall]
    refine List.Sublist.map _ ?_
    simp only [append_assoc]
    exact (sublist_append_left _ _).trans (sublist_append_right _ _)
  refine (List.Pairwise.sublist hsub hord).imp_of_mem fun {r x} hr _ hrx heq => ?_
  have := shelves_le (hb.spans.mem r hr)
  subst heq
  omega

theorem Batch.ncard_inside :
    (insideOf (shelves b c.level) (spanOf first rest)).ncard = (first :: rest).length := by
  classical
  have hset : {r | r ∈ rangesOf (first :: rest)} =
      ((rangesOf (first :: rest)).toFinset : Set SeqRange) := by
    ext r
    simp
  rw [hb.insideOf_eq ht, hset, Set.ncard_coe_finset, toFinset_card_of_nodup (hb.ranges_nodup ht),
    rangesOf, length_map]

theorem Batch.inside_or_apart {r : SeqRange} (hr : r ∈ shelves b c.level) :
    r.Inside (spanOf first rest) ∨ r.Apart (spanOf first rest) := by
  by_cases hap : r.Apart (spanOf first rest)
  · exact .inr hap
  refine .inl ?_
  have hle := shelves_le hr
  have hsle := hb.spans.le fun x hx => shelves_le hx
  -- a common seq makes `r` one of the batch
  obtain ⟨n, hnr, hns⟩ : ∃ n, n ∈ r.seqs ∧ n ∈ (spanOf first rest).seqs := by
    simp only [SeqRange.Apart] at hap
    exact ⟨max r.min (spanOf first rest).min, ⟨le_max_left _ _, by omega⟩,
      ⟨le_max_right _ _, by omega⟩⟩
  obtain ⟨x, hx, hnx⟩ := hb.spans.cover hns
  rw [ht.eq_of_mem hr (hb.spans.mem x hx) hnr hnx]
  exact hb.spans.within (fun x hx => shelves_le hx) hx

end Batches

/-! ## Ages -/

/-- The level-0 object with the range `r` is old enough for `cutoff`. -/
def Old (b : Bucket) (cutoff : Int64) (r : SeqRange) : Prop :=
  ∀ cs : PhysicalChangeset, b.get (.changeset none .live r.min) = some cs.wire → cs.header.createdMs ≤ cutoff

theorem keyRange_zero {key : Key} {r : SeqRange} (h : keyRange 0 key = some r) :
    key = .changeset none .live r.min ∧ r = .point r.min := by
  match key with
  | .changeset none .live seq =>
    cases h
    exact ⟨rfl, rfl⟩
  | .merged l min max =>
    simp only [keyRange] at h
    split at h
    · rename_i hc
      exact absurd hc.2.1 (by simp)
    · cases h
  | .changeset (some _) _ _ => cases h
  | .changeset none .snapshot _ => cases h
  | .envelope _ => cases h

theorem Stocked.old_iff {pageSize : UInt32} {val : Nat → UInt64} (hst : Stocked env.ph.sha64 pageSize val b)
    (hf : FileAt env b 0 f) {cutoff : Int64} : Old b cutoff f.range ↔ f.lastModifiedMs ≤ cutoff := by
  obtain ⟨cs, hcs, -⟩ := hst.file hf
  obtain ⟨h, hh, hms⟩ := hf.header
  obtain rfl := hh.unique (headerAt_wire hcs)
  have hms : cs.header.createdMs = f.lastModifiedMs := hms
  rw [(keyRange_zero hf.range_eq).1] at hcs
  constructor
  · intro hold
    rw [← hms]
    exact hold cs hcs
  · intro hle cs' hcs'
    -- one object, one header
    have hsame := (@headerAt_wire env b _ _ hcs).unique (headerAt_wire hcs')
    have : cs.header.createdMs = cs'.header.createdMs := congrArg SourceHeader.createdMs hsame
    rw [← this, hms]
    exact hle

theorem mem_take_eligible {all : List LayoutFile} (h0 : c.level = 0)
    (hf : f ∈ all.take (eligibleLen c all)) : f.lastModifiedMs ≤ c.cutoff := by
  have hprefix := takeWhile_prefix (l := all.map (·.lastModifiedMs)) fun ts => ts ≤ c.nowMs - c.windowMs
  have hmem : f.lastModifiedMs ∈
      (all.map (·.lastModifiedMs)).takeWhile fun ts => ts ≤ c.nowMs - c.windowMs := by
    rw [prefix_iff_eq_take.mp hprefix, ← map_take]
    refine mem_map_of_mem ?_
    rwa [eligibleLen, if_pos h0] at hf
  have hage := mem_takeWhile_imp hmem
  exact of_decide_eq_true hage

/-- A file is eligible if every file up to it is old enough. -/
theorem mem_eligible {l₁ l₂ : List LayoutFile} (hold : c.level = 0 → ∀ g ∈ l₁ ++ [f], g.lastModifiedMs ≤ c.cutoff) :
    f ∈ (l₁ ++ f :: l₂).take (eligibleLen c (l₁ ++ f :: l₂)) := by
  suffices hlen : l₁.length + 1 ≤ eligibleLen c (l₁ ++ f :: l₂) by
    refine mem_of_mem_take (i := l₁.length + 1) ?_
    rw [take_take, min_eq_left hlen]
    simp [take_append]
  unfold eligibleLen
  split
  · rename_i h0
    have hcons : l₁ ++ f :: l₂ = (l₁ ++ [f]) ++ l₂ := by simp
    have hpos : ∀ ts ∈ (l₁ ++ [f]).map (·.lastModifiedMs), decide (ts ≤ c.nowMs - c.windowMs) = true := by
      intro ts hts
      obtain ⟨g, hg, rfl⟩ := mem_map.mp hts
      exact decide_eq_true (hold h0 g hg)
    rw [eligiblePrefixLen, hcons, map_append, takeWhile_append_of_pos hpos]
    simp
  · simp

section Resuming

variable {all targets rest : List LayoutFile} {first : LayoutFile} {pageSize : UInt32} {val : Nat → UInt64}
  {m : SeqRange}

/-- Everything up to the end of a selected batch was eligible. -/
theorem Batch.eligible_old (hb : Batch env b c all targets first rest) (ht : Tidy batch head old (shelves b))
    (hst : Stocked env.ph.sha64 pageSize val b) (h0 : c.level = 0) {r : SeqRange}
    (hr : r ∈ shelves b c.level) (hle : r.min ≤ (spanOf first rest).max) : Old b c.cutoff r := by
  obtain ⟨pre, mid, post, hall, htake, _⟩ := hb.cut
  obtain ⟨f, hf, rfl⟩ := mem_map.mp (hb.listed.mem_ranges.mpr hr)
  have hfile := hb.listed.fileAt f hf
  rw [h0] at hfile
  suffices hmem : f ∈ pre ++ first :: rest from
    (hst.old_iff hfile).mpr (mem_take_eligible h0 (htake ▸ mem_append_left _ hmem))
  rw [hall, append_assoc (pre ++ first :: rest)] at hf
  refine (mem_append.mp hf).resolve_right fun hlater => ?_
  -- what is listed after the batch begins after its end
  have hord := hb.listed.ordered ht
  rw [hall, append_assoc (pre ++ first :: rest), rangesOf, map_append] at hord
  have hlast : ((first :: rest).getLast (cons_ne_nil _ _)).range.max < f.range.min :=
    (pairwise_append.mp hord).2.2 _ (mem_map_of_mem
      (mem_append_right _ (getLast_mem _))) _ (mem_map_of_mem hlater)
  have hle : f.range.min ≤ ((first :: rest).getLast (cons_ne_nil _ _)).range.max := hle
  omega

/-- The batch is full, or the seq after it has been published and is no file of the level. -/
def Finishable (b : Bucket) (head : Nat) (c : Call) (first : LayoutFile) (rest : List LayoutFile) : Prop :=
  (first :: rest).length = c.batch ∨
    c.level = 0 ∧ (spanOf first rest).max < head ∧
      ∀ x ∈ shelves b c.level, x.min ≠ (spanOf first rest).max + 1

section

variable (hb : Batch env b c all targets first rest) (ht : Tidy batch head old (shelves b))
include hb ht

theorem Batch.resumable (hst : Stocked env.ph.sha64 pageSize val b) (hbatch : c.batch = batch c.level)
    (hold : c.level = 0 → ∀ r, Old b c.cutoff r → old r) (hfin : Finishable b head c first rest) :
    Resumable c.level (batch c.level) head old (shelves b c.level) (spanOf first rest) where
  lone r hr x hx hadj := hb.lone ht hr hx hadj
  capped := by
    obtain ⟨_, _, _, _, _, hcut⟩ := hb.cut
    rw [hb.ncard_inside ht, ← hbatch]
    simpa [rangesOf] using hcut.front.capped
  closed := by
    rw [hb.ncard_inside ht, ← hbatch]
    exact hfin
  old h0 r hr hle := hold h0 r (hb.eligible_old ht hst h0 hr hle)

/-- Storing the merge of a batch, with some of its sources deleted, keeps the shelves tidy if the merge is
    resumable in case its sources still tile it. -/
theorem Batch.swap (hadm : Admissible targets (spanOf first rest))
    (habove : ∀ x ∈ shelves b (c.level + 2), x.max < (spanOf first rest).min) {D : Set SeqRange}
    (hres : Tiled (shelves b c.level \ D) (spanOf first rest) →
      Resumable c.level (batch c.level) head old (shelves b c.level) (spanOf first rest)) :
    Tidy batch head old (((shelves b).add (c.level + 1) (spanOf first rest)).remove c.level D) := by
  by_cases hmem : spanOf first rest ∈ shelves b (c.level + 1)
  · -- the object was there: only the deletes count
    have hsame : (shelves b).add (c.level + 1) (spanOf first rest) = shelves b := by
      unfold Shelves.add
      rw [Set.insert_eq_of_mem hmem, update_eq_self]
    rw [hsame]
    exact ht.remove _ _
  · have hne : c.level ≠ c.level + 1 := ne_of_lt (lt_add_one _)
    have hlevel : (shelves b).remove c.level D c.level = shelves b c.level \ D := update_self ..
    have hcomm : ((shelves b).add (c.level + 1) (spanOf first rest)).remove c.level D =
        ((shelves b).remove c.level D).add (c.level + 1) (spanOf first rest) := by
      unfold Shelves.add Shelves.remove
      rw [update_of_ne hne, update_of_ne hne.symm, update_comm hne]
    have hsub : ∀ j, (shelves b).remove c.level D j ⊆ shelves b j :=
      fun j r hr => (Shelves.mem_remove.mp hr).1
    rw [hcomm]
    refine (ht.remove c.level D).add (hb.spans.le fun x hx => shelves_le hx) ?_ ?_ ?_ ?_
    · intro x hx
      obtain ⟨m, hm, rfl⟩ := mem_map.mp (hb.targetsListed.mem_ranges.mpr (hsub _ hx))
      rcases hadm m hm with heq | hno
      · exact absurd (heq ▸ hsub _ hx) hmem
      · by_contra hap
        simp only [SeqRange.Apart, not_or, not_lt] at hap
        have hyes : rangesOverlap m.range (spanOf first rest) = true :=
          rangesOverlap_iff.mpr ⟨hap.2, hap.1⟩
        rw [hno] at hyes
        cases hyes
    · exact fun r hr => hb.inside_or_apart ht (hsub _ hr)
    · exact fun x hx => habove x (hsub _ hx)
    · intro htiled
      have heq := ht.insideOf_eq (hsub c.level) htiled
      rw [hlevel] at htiled
      exact (hres htiled).subset (hsub c.level) heq

/-- Once all sources are deleted nothing tiles their span. -/
theorem Batch.not_tiled :
    ¬ Tiled (shelves b c.level \ {r | r ∈ rangesOf (first :: rest)}) (spanOf first rest) := by
  intro htiled
  have hle := hb.spans.le fun x hx => shelves_le hx
  obtain ⟨r, ⟨hr, hin⟩, hn⟩ := htiled _ ⟨le_refl _, hle⟩
  have hmem : r ∈ insideOf (shelves b c.level) (spanOf first rest) := ⟨hr.1, hin⟩
  rw [hb.insideOf_eq ht] at hmem
  exact hr.2 hmem

end

/-! ## A tiled object is what the next run selects -/

/-- A tile of `m` begins where the one before it ends. -/
theorem Tidy.next_tile (ht : Tidy batch head old (shelves b)) {j : Level} {t : SeqRange}
    (htiled : Tiled (shelves b j) m) (htA : t ∈ shelves b j) (hmin : m.min ≤ t.max + 1)
    (hmax : t.max < m.max) : ∃ x ∈ insideOf (shelves b j) m, t.Adj x := by
  obtain ⟨x, hx, hn⟩ := htiled (t.max + 1) ⟨hmin, hmax⟩
  refine ⟨x, hx, ?_⟩
  have htle := shelves_le htA
  have h1 := hn.1
  have h2 := hn.2
  rcases ht.apart j t htA x hx.1 with rfl | hap | hap
  · omega
  · show t.max + 1 = x.min
    omega
  · omega

/-- A batch that meets a tiled object begins where the object begins. -/
theorem Batch.begins (hb : Batch env b c all targets first rest) (ht : Tidy batch head old (shelves b))
    (hm : m ∈ shelves b (c.level + 1)) (htiled : Tiled (shelves b c.level) m)
    (hx : x ∈ rangesOf (first :: rest)) (hin : x.Inside m) : (spanOf first rest).min = m.min := by
  have hres := ht.resumable c.level m hm htiled
  have hxA := hb.spans.mem x hx
  have hxw := hb.spans.within (fun y hy => shelves_le hy) hx
  have hmle := ht.le _ m hm
  rcases lt_trichotomy (spanOf first rest).min m.min with hlt | heq | hgt
  · -- the batch has a file before `m`, and the next one adjoins it
    exfalso
    have hfirst : first.range.min < m.min := hlt
    cases rest with
    | nil =>
      obtain rfl := mem_singleton.mp hx
      exact absurd hin.1 (not_le.mpr hfirst)
    | cons g rest =>
      have hadj : first.range.Adj g.range := (isChain_cons_cons.mp hb.adjoining).1
      exact absurd (hres.lone _ (hb.spans.mem _ mem_cons_self) _
        (hb.spans.mem _ (mem_cons_of_mem _ mem_cons_self)) hadj) (not_le.mpr hfirst)
  · exact heq
  -- `m` has a tile before the batch, and the next tile adjoins it
  exfalso
  obtain ⟨t, htm, hn⟩ := htiled m.min ⟨le_refl _, hmle⟩
  have htmin : t.min = m.min := le_antisymm hn.1 htm.2.1
  have htle := shelves_le htm.1
  have htx : t.max < x.min := by
    rcases ht.apart _ t htm.1 x hxA with rfl | hap | hap
    · omega
    · exact hap
    · have := shelves_le hxA
      omega
  have hxle := shelves_le hxA
  have hxmax := hin.2
  obtain ⟨t', ht', hadj⟩ := ht.next_tile htiled htm.1 (by omega) (by omega)
  have := hb.lone ht htm.1 ht'.1 hadj
  omega

/-- What lies inside a level's range is finitely much. -/
theorem insideOf_finite {A : Set SeqRange} (hA : ∀ r ∈ A, r.min ≤ r.max) : (insideOf A m).Finite := by
  refine Set.Finite.subset (((Set.finite_Iic m.max).prod (Set.finite_Iic m.max)).image
    fun p : Nat × Nat => (⟨p.1, p.2⟩ : SeqRange)) fun r hr => ?_
  have := hA r hr.1
  exact ⟨(r.min, r.max), ⟨le_trans this hr.2.2, hr.2.2⟩, rfl⟩

/-- The file after a selected batch, if it is old enough and adjoins the batch, was left out by the cap. -/
theorem Batch.full_of_next (hb : Batch env b c all targets first rest) (ht : Tidy batch head old (shelves b))
    (hst : Stocked env.ph.sha64 pageSize val b) (hx : x ∈ shelves b c.level)
    (hadj : (spanOf first rest).max + 1 = x.min)
    (hold : c.level = 0 → ∀ r ∈ shelves b c.level, r.min ≤ x.min → Old b c.cutoff r) :
    (first :: rest).length = c.batch := by
  obtain ⟨pre, mid, post, hall, htake, hcut⟩ := hb.cut
  obtain ⟨f, hf, rfl⟩ := mem_map.mp (hb.listed.mem_ranges.mpr hx)
  have hord := hb.listed.ordered ht
  have hlast : (rangesOf (first :: rest)).getLast? =
      some ((first :: rest).getLast (cons_ne_nil _ _)).range := by
    rw [rangesOf, List.getLast?_map]
    rfl
  rcases hcut.front.maximal with hlen | hstop
  · simpa [rangesOf] using hlen
  exfalso
  -- `f` is listed after the batch, and among the eligible files
  have hfmid : f ∈ mid := by
    obtain ⟨l₁, l₂, hsplit⟩ := append_of_mem hf
    have helig : f ∈ all.take (eligibleLen c all) := by
      rw [hsplit]
      refine mem_eligible fun h0 g hg => ?_
      have hgall : g ∈ all := by
        rw [hsplit]
        rcases mem_append.mp hg with hg | hg
        · exact mem_append_left _ hg
        · exact mem_append_right _ (mem_singleton.mp hg ▸ mem_cons_self)
      have hgf : g.range.min ≤ f.range.min := by
        rcases mem_append.mp hg with hg | hg
        · rw [hsplit, rangesOf, map_append] at hord
          have hlt : g.range.max < f.range.min :=
            (pairwise_append.mp hord).2.2 _ (mem_map_of_mem hg) _ mem_cons_self
          have := shelves_le (hb.listed.fileAt g hgall).mem_shelves
          omega
        · rw [mem_singleton.mp hg]
      have hfile := hb.listed.fileAt g hgall
      have hold := hold h0 _ hfile.mem_shelves hgf
      rw [h0] at hfile
      exact (hst.old_iff hfile).mp hold
    rw [htake] at helig
    refine (mem_append.mp helig).resolve_left fun hearly => ?_
    have hfle := shelves_le hx
    rcases mem_append.mp hearly with hpre | hrun
    · rw [hall, append_assoc, append_assoc, rangesOf, map_append] at hord
      have hlt : f.range.max < first.range.min :=
        (pairwise_append.mp hord).2.2 _ (mem_map_of_mem hpre) _ (by simp)
      have hsle := hb.spans.le fun y hy => shelves_le hy
      have hmin : (spanOf first rest).min = first.range.min := rfl
      omega
    · have := (hb.spans.within (fun y hy => shelves_le hy) (mem_map_of_mem hrun)).2
      omega
  obtain ⟨g, mid', rfl⟩ := exists_cons_of_ne_nil (ne_nil_of_mem hfmid)
  rcases mem_cons.mp hfmid with rfl | hlater
  · exact hstop _ hlast _ rfl hadj
  -- a file between the batch and `f` has no room
  have hgall : g ∈ all := by
    rw [hall]
    simp
  have hgle := shelves_le (hb.listed.fileAt g hgall).mem_shelves
  rw [hall, append_assoc (pre ++ first :: rest), rangesOf, map_append] at hord
  obtain ⟨-, hafter, hcross⟩ := pairwise_append.mp hord
  have h1 : (spanOf first rest).max < g.range.min :=
    hcross _ (mem_map_of_mem (mem_append_right _ (getLast_mem _))) _
      (mem_map_of_mem (mem_append_left _ mem_cons_self))
  have h2 : g.range.max < f.range.min :=
    rel_of_pairwise_cons hafter (mem_map_of_mem (mem_append_left _ hlater))
  omega

/-- A batch that meets a tiled object is its source set. -/
theorem Batch.exact (hb : Batch env b c all targets first rest) (ht : Tidy batch head old (shelves b))
    (hst : Stocked env.ph.sha64 pageSize val b) (hbatch : c.batch = batch c.level)
    (hold : c.level = 0 → ∀ r ∈ shelves b c.level, old r → Old b c.cutoff r) (hm : m ∈ shelves b (c.level + 1))
    (htiled : Tiled (shelves b c.level) m) (hov : ¬ m.Apart (spanOf first rest)) : m = spanOf first rest := by
  have hres := ht.resumable c.level m hm htiled
  have hle : ∀ r ∈ shelves b c.level, r.min ≤ r.max := fun r hr => shelves_le hr
  have hsle := hb.spans.le hle
  have hmle := ht.le _ m hm
  -- a file of the batch lies inside `m`
  obtain ⟨x, hx, hin⟩ : ∃ x ∈ rangesOf (first :: rest), x.Inside m := by
    simp only [SeqRange.Apart] at hov
    obtain ⟨x, hx, hn⟩ := hb.spans.cover (n := max m.min (spanOf first rest).min)
      ⟨le_max_right _ _, by omega⟩
    refine ⟨x, hx, (ht.nested c.level x (hb.spans.mem x hx) m hm).resolve_right ?_⟩
    have h1 := hn.1
    have h2 := hn.2
    rintro (hap | hap) <;> omega
  have hmin := hb.begins ht hm htiled hx hin
  have hcapped : (first :: rest).length ≤ c.batch := by
    obtain ⟨_, _, _, _, _, hcut⟩ := hb.cut
    simpa [rangesOf] using hcut.front.capped
  have hcard := hb.ncard_inside ht
  have hinside := hb.insideOf_eq ht
  rcases lt_trichotomy (spanOf first rest).max m.max with hlt | heq | hgt
  · -- the next tile was left out, so the batch is full: `m` has more sources than that
    exfalso
    have hlast : ((first :: rest).getLast (cons_ne_nil _ _)).range ∈ rangesOf (first :: rest) :=
      mem_map_of_mem (getLast_mem _)
    obtain ⟨t, htm, hadj⟩ := ht.next_tile htiled (hb.spans.mem _ hlast)
      (by show m.min ≤ (spanOf first rest).max + 1; omega) hlt
    have hadj : (spanOf first rest).max + 1 = t.min := hadj
    have htle := hle t htm.1
    have hfull := hb.full_of_next ht hst htm.1 hadj fun h0 r hr hrt =>
      hold h0 r hr (hres.old h0 r hr (by omega))
    have hsub : insideOf (shelves b c.level) (spanOf first rest) ⊂ insideOf (shelves b c.level) m := by
      refine ⟨fun r hr => ⟨hr.1, ⟨by have := hr.2.1; omega, by have := hr.2.2; omega⟩⟩, fun hsup => ?_⟩
      have := (hsup htm).2.2
      omega
    have := Set.ncard_lt_ncard hsub (insideOf_finite hle)
    have := hres.capped
    omega
  · cases m
    cases hspan : spanOf first rest
    rw [hspan] at hmin heq
    simp only at hmin heq
    rw [hmin, heq]
  · -- the batch goes on beyond `m`: `m` was not closed
    exfalso
    obtain ⟨y, hy, hn⟩ := hb.spans.cover (n := m.max + 1) ⟨by omega, hgt⟩
    have hyA := hb.spans.mem y hy
    have hn1 := hn.1
    have hn2 := hn.2
    have hymin : y.min = m.max + 1 := by
      rcases ht.nested c.level y hyA m hm with hyin | hap | hap
      · have := hyin.2
        omega
      · omega
      · omega
    rcases hres.closed with hfull | ⟨-, -, hno⟩
    · have hsub : insideOf (shelves b c.level) m ⊂ insideOf (shelves b c.level) (spanOf first rest) := by
        refine ⟨fun r hr => ⟨hr.1, ⟨by have := hr.2.1; omega, by have := hr.2.2; omega⟩⟩, fun hsup => ?_⟩
        have hyin : y ∈ insideOf (shelves b c.level) (spanOf first rest) := by
          rw [hinside]
          exact hy
        have := (hsup hyin).2.2
        omega
      have := Set.ncard_lt_ncard hsub (insideOf_finite hle)
      omega
    · exact hno y hyA hymin

end Resuming

end Compaction
end Walrust
