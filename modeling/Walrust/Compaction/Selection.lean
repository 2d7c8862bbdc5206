import Walrust.Compaction.Effect
import Mathlib.Data.List.Chain

/-!
# `Walrust.Compaction.Selection` — which batch a level's listing yields

`contiguous_batch` walks a listing from its oldest file, passes over lone files, and takes the first
seq-contiguous run, capped at the batch size. `Cut` says this of a decomposition of the listing, and
`contiguousFrom_eq_some` that what the function finds is a cut of the listing; `contiguousBatch_earliest` says when it
finds one.
-/

namespace Walrust
namespace Compaction

open List

variable {first : LayoutFile} {batch : Nat} {l : List SeqRange}

/-- `b` begins where `a` ends. -/
def SeqRange.Adj (a b : SeqRange) : Prop := a.max + 1 = b.min

instance (a b : SeqRange) : Decidable (a.Adj b) := inferInstanceAs (Decidable (_ = _))

theorem rangeSubset_iff {a b : SeqRange} : rangeSubset a b = true ↔ b.min ≤ a.min ∧ a.max ≤ b.max := by
  simp [rangeSubset]

theorem rangesOverlap_iff {a b : SeqRange} :
    rangesOverlap a b = true ↔ a.min ≤ b.max ∧ b.min ≤ a.max := by
  simp [rangesOverlap]

/-! ## The run at the front -/

/-- `run` is what the greedy extension takes from the front of `run ++ post`. -/
structure FrontRun (batch : Nat) (run post : List SeqRange) : Prop where
  nonempty : run ≠ []
  chain : run.IsChain SeqRange.Adj
  capped : run.length ≤ batch
  maximal : run.length = batch ∨ ∀ a ∈ run.getLast?, ∀ r ∈ post.head?, ¬ a.Adj r

theorem runLen_of_frontRun {run post : List SeqRange} (h : FrontRun batch run post) :
    runLen batch (run ++ post) = run.length := by
  obtain ⟨hne, hchain, hcap, hmax⟩ := h
  induction run generalizing batch with
  | nil => exact absurd rfl hne
  | cons a run ih =>
    cases run with
    | nil =>
      cases post with
      | nil => rfl
      | cons r post =>
        have hstop : ¬ (a.max + 1 = r.min ∧ 1 < batch) := by
          rintro ⟨hadj, hlt⟩
          rcases hmax with hlen | hno
          · simp at hlen
            omega
          · exact hno a rfl r rfl hadj
        show (if a.max + 1 = r.min ∧ 1 < batch then _ else 1) = 1
        rw [if_neg hstop]
    | cons a' run =>
      have hadj : a.max + 1 = a'.min := (isChain_cons_cons.mp hchain).1
      simp only [length_cons] at hcap hmax
      show (if a.max + 1 = a'.min ∧ 1 < batch then runLen (batch - 1) (a' :: (run ++ post)) + 1 else 1) = _
      rw [if_pos ⟨hadj, by omega⟩]
      have hrest := @ih (batch - 1) (cons_ne_nil _ _) (isChain_cons_cons.mp hchain).2
        (by simp only [length_cons]; omega)
        (hmax.imp (fun h => by simp only [length_cons]; omega) fun h => h)
      simp only [cons_append] at hrest
      rw [hrest]
      rfl

theorem exists_frontRun (hbatch : 0 < batch) (hl : l ≠ []) :
    ∃ run post, l = run ++ post ∧ FrontRun batch run post := by
  induction l generalizing batch with
  | nil => exact absurd rfl hl
  | cons a l ih =>
    cases l with
    | nil =>
      refine ⟨[a], [], rfl, ⟨cons_ne_nil _ _, isChain_singleton a, hbatch, .inr ?_⟩⟩
      intro _ _ r hr
      cases hr
    | cons r l =>
      by_cases hext : a.Adj r ∧ 1 < batch
      · obtain ⟨run, post, heq, hrun⟩ := @ih (batch - 1) (by omega) (cons_ne_nil _ _)
        obtain ⟨a', run, rfl⟩ := exists_cons_of_ne_nil hrun.nonempty
        obtain ⟨rfl, _⟩ := cons_eq_cons.mp heq
        have hcap := hrun.capped
        refine ⟨a :: r :: run, post, by rw [heq]; rfl, ⟨cons_ne_nil _ _,
          isChain_cons_cons.mpr ⟨hext.1, hrun.chain⟩, ?_, ?_⟩⟩
        · simp only [length_cons] at hcap ⊢
          omega
        · refine hrun.maximal.imp (fun h => ?_) fun h => h
          simp only [length_cons] at h ⊢
          omega
      · refine ⟨[a], r :: l, rfl, ⟨cons_ne_nil _ _, isChain_singleton a, hbatch, ?_⟩⟩
        by_cases h1 : 1 < batch
        · refine .inr fun x hx y hy => ?_
          cases hx
          cases hy
          exact fun hadj => hext ⟨hadj, h1⟩
        · exact .inl (by simp; omega)

/-! ## The first run worth merging -/

/-- `pre ++ run ++ post` is the listing, `pre` the lone files passed over and `run` the batch. -/
structure Cut (batch : Nat) (pre run post : List SeqRange) : Prop where
  front : FrontRun batch run post
  worth : 2 ≤ run.length ∨ batch = 1
  lone : (pre ++ run.take 1).IsChain fun a r => ¬ a.Adj r
  /-- With a batch of one nothing is passed over. -/
  single : batch = 1 → pre = []

/-- What the scan finds is a cut of the listing. -/
theorem contiguousFrom_eq_some (hbatch : 0 < batch) {i start len : Nat}
    (h : contiguousFrom batch i l = some (start, len)) :
    ∃ pre run post, l = pre ++ run ++ post ∧ Cut batch pre run post ∧
      start = i + pre.length ∧ len = run.length := by
  induction l generalizing i with
  | nil => cases h
  | cons a l ih =>
    obtain ⟨run, post, heq, hrun⟩ := exists_frontRun hbatch (cons_ne_nil a l)
    have hlen : runLen batch (a :: l) = run.length := by
      rw [heq]
      exact runLen_of_frontRun hrun
    unfold contiguousFrom at h
    rw [hlen] at h
    by_cases hworth : 2 ≤ run.length ∨ batch = 1
    · rw [if_pos hworth] at h
      cases h
      refine ⟨[], run, post, heq, ⟨hrun, hworth, ?_, fun _ => rfl⟩, rfl, rfl⟩
      cases run with
      | nil => exact .nil
      | cons r run => exact isChain_singleton r
    · rw [if_neg hworth] at h
      obtain ⟨pre, run', post', heq', hcut, hstart, hlen'⟩ := ih h
      have hne1 : batch ≠ 1 := fun h1 => hworth (.inr h1)
      refine ⟨a :: pre, run', post', by rw [heq']; rfl, ⟨hcut.front, hcut.worth, ?_, fun h1 => absurd h1 hne1⟩,
        by rw [length_cons]; omega, hlen'⟩
      -- `a` is alone: the run at the front has one file and was not cut by the cap
      have hone : run = [a] := by
        obtain ⟨x, run, rfl⟩ := exists_cons_of_ne_nil hrun.nonempty
        obtain ⟨rfl, _⟩ := cons_eq_cons.mp heq
        cases run with
        | nil => rfl
        | cons y run => exact absurd (.inl (by simp)) hworth
      subst hone
      obtain rfl : l = post := by simpa using heq
      have hnext : ∀ r ∈ l.head?, ¬ a.Adj r := by
        rcases hrun.maximal with h1 | hno
        · exact absurd h1.symm hne1
        · exact hno a rfl
      have hlone := hcut.lone
      rw [heq'] at hnext
      cases pre with
      | nil =>
        obtain ⟨r, run', rfl⟩ := exists_cons_of_ne_nil hcut.front.nonempty
        exact isChain_cons_cons.mpr ⟨hnext r rfl, isChain_singleton r⟩
      | cons p pre => exact isChain_cons_cons.mpr ⟨hnext p rfl, hlone⟩

theorem runLen_pos (batch : Nat) (a : SeqRange) (l : List SeqRange) : 0 < runLen batch (a :: l) := by
  cases l with
  | nil => exact one_pos
  | cons r l =>
    unfold runLen
    split <;> omega

/-- Nothing is found exactly if no file begins where the one before it ends. -/
theorem contiguousFrom_eq_none (hbatch : 2 ≤ batch) {i : Nat} :
    contiguousFrom batch i l = none ↔ l.IsChain fun a r => ¬ a.Adj r := by
  have hone : ¬ batch = 1 := by omega
  induction l generalizing i with
  | nil => simp [contiguousFrom]
  | cons a l ih =>
    cases l with
    | nil => simp [contiguousFrom, runLen, hone]
    | cons r l =>
      have hrest := @ih (i + 1)
      rw [contiguousFrom, runLen, isChain_cons_cons]
      by_cases hadj : a.Adj r
      · have hpos := runLen_pos (batch - 1) r l
        have hext : a.max + 1 = r.min ∧ 1 < batch := ⟨hadj, hbatch⟩
        rw [if_pos hext, if_pos (.inl (by omega))]
        simp [hadj]
      · have hstop : ¬ (a.max + 1 = r.min ∧ 1 < batch) := fun h => hadj h.1
        rw [if_neg hstop, if_neg (by omega)]
        simpa [hadj] using hrest

/-- **A batch of at least two is the earliest run**: none if no two neighbours meet; else it starts at the first pair
    that does, and is the longest run from there, capped at the batch size. -/
theorem contiguousBatch_earliest (ranges : List SeqRange) (batch : Nat) (hbatch : 2 ≤ batch) :
    (contiguousBatch ranges batch = none ↔ ranges.IsChain fun a r => ¬ a.Adj r) ∧
    ∀ start len, contiguousBatch ranges batch = some (start, len) →
      ∃ pre run post, ranges = pre ++ run ++ post ∧ start = pre.length ∧ len = run.length ∧ 2 ≤ run.length ∧
        (pre ++ run.take 1).IsChain (fun a r => ¬ a.Adj r) ∧ FrontRun batch run post := by
  rw [contiguousBatch, if_neg (by omega)]
  refine ⟨contiguousFrom_eq_none hbatch, fun start len h => ?_⟩
  obtain ⟨pre, run, post, heq, hcut, hstart, hlen⟩ := contiguousFrom_eq_some (by omega) h
  rw [zero_add] at hstart
  exact ⟨pre, run, post, heq, hstart, hlen, hcut.worth.resolve_right (by omega), hcut.lone, hcut.front⟩

/-- A gap after the first file, then a run of three, cut at two. -/
theorem contiguousBatch_earliest_capped :
    contiguousBatch [⟨1, 1⟩, ⟨3, 3⟩, ⟨4, 5⟩, ⟨6, 6⟩] 2 = some (1, 2) ∧
    ∃ pre run post : List SeqRange, [⟨1, 1⟩, ⟨3, 3⟩, ⟨4, 5⟩, ⟨6, 6⟩] = pre ++ run ++ post ∧ 1 = pre.length ∧
      2 = run.length ∧ 2 ≤ run.length ∧ (pre ++ run.take 1).IsChain (fun a r => ¬ a.Adj r) ∧ FrontRun 2 run post :=
  ⟨rfl, (contiguousBatch_earliest _ 2 (le_refl 2)).2 1 2 rfl⟩

/-! ## The selected files -/

/-- The ranges of a list of files. -/
def rangesOf (files : List LayoutFile) : List SeqRange := files.map (·.range)

/-- **A batch is a cut of the eligible part of the listing.** -/
theorem cut_of_selected {c : Call} (hbatch : c.batch ≠ 0) {all rest : List LayoutFile}
    (h : selectSources c.level c.batch c.windowMs c.nowMs all = some (first, rest)) :
    ∃ pre mid post, all = pre ++ (first :: rest) ++ mid ++ post ∧
      all.take (eligibleLen c all) = pre ++ (first :: rest) ++ mid ∧
      Cut c.batch (rangesOf pre) (rangesOf (first :: rest)) (rangesOf mid) := by
  obtain ⟨_, start, len, hcb, hcut⟩ := selectSources_eq_some.mp h
  rw [contiguousBatch, if_neg hbatch] at hcb
  obtain ⟨preR, runR, postR, heq, hc, hstart, hlen⟩ :=
    contiguousFrom_eq_some (pos_of_ne_zero hbatch) hcb
  rw [zero_add] at hstart
  -- split the eligible files where their ranges are split
  obtain ⟨front, mid, hel, hfront, hmid⟩ := map_eq_append_iff.mp heq
  obtain ⟨pre, sources, hfr, hpre, hsources⟩ := map_eq_append_iff.mp hfront
  have hall : all = pre ++ sources ++ mid ++ all.drop (eligibleLen c all) := by
    conv_lhs => rw [← take_append_drop (eligibleLen c all) all]
    rw [hel, hfr]
  have hpl : pre.length = start := by rw [hstart, ← hpre, length_map]
  have hsl : sources.length = len := by rw [hlen, ← hsources, length_map]
  have hsel : sources = first :: rest := by
    rw [← hcut, hall, ← hpl, ← hsl]
    simp
  subst hsel
  refine ⟨pre, mid, _, hall, by rw [hel, hfr], ?_⟩
  rw [rangesOf, rangesOf, rangesOf, hpre, hsources, hmid]
  exact hc

/-- In a chain of well-ordered ranges, every range lies within the span. -/
theorem chain_within {first r : SeqRange} {rest : List SeqRange}
    (hchain : (first :: rest).IsChain SeqRange.Adj) (hle : ∀ r ∈ first :: rest, r.min ≤ r.max)
    (hr : r ∈ first :: rest) :
    first.min ≤ r.min ∧ r.max ≤ ((first :: rest).getLast (List.cons_ne_nil _ _)).max := by
  induction rest generalizing first r with
  | nil =>
    obtain rfl := mem_singleton.mp hr
    exact ⟨le_refl _, le_refl _⟩
  | cons a rest ih =>
    obtain ⟨hadj, htail⟩ := isChain_cons_cons.mp hchain
    have hadj : first.max + 1 = a.min := hadj
    have hfirst := hle first mem_cons_self
    have hle' := fun r hr => hle r (mem_cons_of_mem first hr)
    rw [getLast_cons (cons_ne_nil _ _)]
    rcases mem_cons.mp hr with rfl | hr
    · have ha := hle' a mem_cons_self
      have := (ih htail hle' mem_cons_self).2
      exact ⟨le_refl _, by omega⟩
    · have := ih htail hle' hr
      exact ⟨by omega, this.2⟩

variable {env : Env} {b : Bucket} {c : Call}

theorem Batch.batch_ne_zero {all targets rest : List LayoutFile}
    (h : Batch env b c all targets first rest) : c.batch ≠ 0 := by
  intro h0
  obtain ⟨_, start, len, hcb, _⟩ := selectSources_eq_some.mp h.selected
  rw [contiguousBatch, if_pos h0] at hcb
  cases hcb

theorem Batch.cut {all targets rest : List LayoutFile} (h : Batch env b c all targets first rest) :
    ∃ pre mid post, all = pre ++ (first :: rest) ++ mid ++ post ∧
      all.take (eligibleLen c all) = pre ++ (first :: rest) ++ mid ∧
      Cut c.batch (rangesOf pre) (rangesOf (first :: rest)) (rangesOf mid) :=
  cut_of_selected h.batch_ne_zero h.selected

theorem Batch.within {all targets rest : List LayoutFile} {f : LayoutFile}
    (h : Batch env b c all targets first rest) (hf : f ∈ first :: rest) :
    rangeSubset f.range (spanOf first rest) = true := by
  obtain ⟨pre, mid, post, _, _, hcut⟩ := h.cut
  have hle : ∀ r ∈ rangesOf (first :: rest), r.min ≤ r.max := by
    intro r hr
    obtain ⟨g, hg, rfl⟩ := mem_map.mp hr
    exact keyRange_le (h.listed.fileAt g (h.mem_all hg)).range_eq
  have hw := chain_within hcut.front.chain hle (mem_map_of_mem hf)
  have hlast : ((first :: rest).map (·.range)).getLast (by simp) =
      ((first :: rest).getLast (cons_ne_nil _ _)).range := getLast_map _
  have hmax : f.range.max ≤ ((first :: rest).getLast (cons_ne_nil _ _)).range.max :=
    le_of_le_of_eq hw.2 (congrArg SeqRange.max hlast)
  exact rangeSubset_iff.mpr ⟨hw.1, hmax⟩

end Compaction
end Walrust
