import Walrust.Compaction.Layout

/-!
# `Walrust.Compaction.Cover` — the coverage sweep on machine integers

`verify` and `prune` ask one question of the merged ranges: do they cover a span without a gap? The answer is a sweep
over the ranges in order, with the highest seq covered so far as its frontier. `Legacy.rangesCover` has the sweep over
the naturals; here it runs on `u64` values, where `f + 1` can overflow.

* `rangesCoverU64` — `ranges_cover`, with an overflow as `none`;
* `coverSweep_none_iff`, `coverSweep_some_iff` — the sweep decides pointwise coverage, from either kind of frontier;
* `rangesCoverU64_exact` — the result for every list of ranges, and that the addition never overflows.
-/

namespace Walrust

namespace Legacy

open Compaction

/-- The sweep of `ranges_cover`, over ranges in order, with the highest seq covered so far. -/
def coverSweep (lo hi : Nat) : Option Nat → List SeqRange → Bool
  | frontier, [] => frontier.any (hi ≤ ·)
  | none, r :: rest =>
    if r.min ≤ lo then
      if hi ≤ max r.max lo then true else coverSweep lo hi (some (max r.max lo)) rest
    else coverSweep lo hi none rest
  | some f, r :: rest =>
    if r.min ≤ f + 1 then
      if hi ≤ max f r.max then true else coverSweep lo hi (some (max f r.max)) rest
    else decide (hi ≤ f)

/-- `ranges_cover`. -/
def rangesCover (lo hi : Nat) (ranges : List SeqRange) : Bool :=
  if hi < lo then true
  else coverSweep lo hi none ((ranges.filter fun r => lo ≤ r.max).mergeSort fun r s =>
    r.min < s.min || (r.min = s.min && r.max ≤ s.max))

end Legacy

namespace Compaction

open Legacy List

variable {ranges : List SeqRange}

/-! ## The sweep over the naturals -/

/-- The seq lies in one of the ranges. An inverted range has no seq. -/
def CoveredBy (ranges : List SeqRange) (seq : Nat) : Prop := ∃ r ∈ ranges, r.min ≤ seq ∧ seq ≤ r.max

/-- Ranges in the order of the sweep. -/
def ByMin (ranges : List SeqRange) : Prop := ranges.Pairwise fun r s => r.min ≤ s.min

/-- Once the sweep meets a range that begins above `seq`, no later one covers `seq`. -/
theorem ByMin.not_covered {r : SeqRange} {rest : List SeqRange} (h : ByMin (r :: rest)) {seq : Nat}
    (hseq : seq < r.min) : ¬ CoveredBy (r :: rest) seq := by
  rintro ⟨s, hs, hmin, -⟩
  rcases mem_cons.mp hs with rfl | hs
  · omega
  · have := rel_of_pairwise_cons h hs
    omega

/-- A range that takes the frontier to `g` leaves what is above `g` to the rest. -/
theorem forall_coveredBy_cons {r : SeqRange} {rest : List SeqRange} {lo hi g : Nat} (hmin : r.min ≤ lo)
    (hlo : lo ≤ g + 1) (hg : ∀ seq, lo ≤ seq → (seq ≤ g ↔ seq ≤ r.max)) :
    (∀ seq, lo ≤ seq → seq ≤ hi → CoveredBy (r :: rest) seq) ↔
      ∀ seq, g < seq → seq ≤ hi → CoveredBy rest seq := by
  constructor
  · intro h seq h1 h2
    obtain ⟨s, hs, hcov⟩ := h seq (by omega) h2
    rcases mem_cons.mp hs with rfl | hs
    · have := (hg seq (by omega)).mpr hcov.2
      omega
    · exact ⟨s, hs, hcov⟩
  · intro h seq h1 h2
    by_cases hseq : seq ≤ g
    · exact ⟨r, mem_cons_self, by omega, (hg seq h1).mp hseq⟩
    · obtain ⟨s, hs, hcov⟩ := h seq (by omega) h2
      exact ⟨s, mem_cons_of_mem _ hs, hcov⟩

/-- With everything up to the frontier covered, the sweep decides whether the rest is. -/
theorem coverSweep_some_iff {lo hi f : Nat} (hsort : ByMin ranges) :
    coverSweep lo hi (some f) ranges = true ↔ ∀ seq, f < seq → seq ≤ hi → CoveredBy ranges seq := by
  induction ranges generalizing f with
  | nil =>
    simp only [coverSweep, Option.any_some, decide_eq_true_eq]
    constructor
    · intro h seq h1 h2
      omega
    · intro h
      by_contra hlt
      obtain ⟨r, hr, -⟩ := h (f + 1) (by omega) (by omega)
      cases hr
  | cons r rest ih =>
    rw [coverSweep]
    by_cases hmin : r.min ≤ f + 1
    · rw [if_pos hmin]
      refine .trans ?_ (forall_coveredBy_cons (g := max f r.max) hmin (by omega) fun seq _ => by omega).symm
      by_cases hhi : hi ≤ max f r.max
      · simp only [if_pos hhi, true_iff]
        intro seq h1 h2
        omega
      rw [if_neg hhi, ih hsort.of_cons]
    · rw [if_neg hmin, decide_eq_true_eq]
      constructor
      · intro h seq h1 h2
        omega
      · intro h
        by_contra hlt
        exact hsort.not_covered (by omega) (h (f + 1) (by omega) (by omega))

/-- Before the frontier is set, the sweep decides whether the whole span is covered. -/
theorem coverSweep_none_iff {lo hi : Nat} (hle : lo ≤ hi) (hsort : ByMin ranges) (hreach : ∀ r ∈ ranges, lo ≤ r.max) :
    coverSweep lo hi none ranges = true ↔ ∀ seq, lo ≤ seq → seq ≤ hi → CoveredBy ranges seq := by
  induction ranges with
  | nil =>
    simp only [coverSweep, Option.any_none, Bool.false_eq_true, false_iff]
    intro h
    obtain ⟨r, hr, -⟩ := h lo (le_refl lo) hle
    cases hr
  | cons r rest ih =>
    have hmax := hreach r mem_cons_self
    have hfrontier : max r.max lo = r.max := by omega
    rw [coverSweep, hfrontier]
    by_cases hmin : r.min ≤ lo
    · rw [if_pos hmin]
      refine .trans ?_ (forall_coveredBy_cons hmin (by omega) fun _ _ => .rfl).symm
      by_cases hhi : hi ≤ r.max
      · simp only [if_pos hhi, true_iff]
        intro seq h1 h2
        omega
      rw [if_neg hhi, coverSweep_some_iff hsort.of_cons]
    · rw [if_neg hmin, ih hsort.of_cons fun s hs => hreach s (mem_cons_of_mem _ hs)]
      -- `lo` itself is covered by neither list
      have hlo : ¬ CoveredBy (r :: rest) lo := hsort.not_covered (by omega)
      constructor
      · intro h
        obtain ⟨s, hs, hcov⟩ := h lo (le_refl lo) hle
        exact absurd ⟨s, mem_cons_of_mem _ hs, hcov⟩ hlo
      · intro h
        exact absurd (h lo (le_refl lo) hle) hlo

/-- The order the ranges are sorted by. -/
def sweepLe (r s : SeqRange) : Bool := r.min < s.min || (r.min = s.min && r.max ≤ s.max)

theorem byMin_mergeSort : ByMin (ranges.mergeSort sweepLe) := by
  have htrans : ∀ a b c, sweepLe a b = true → sweepLe b c = true → sweepLe a c = true := by
    intro a b c
    simp only [sweepLe, Bool.or_eq_true, Bool.and_eq_true, decide_eq_true_eq]
    omega
  have htotal : ∀ a b, (sweepLe a b || sweepLe b a) = true := by
    intro a b
    simp only [sweepLe, Bool.or_eq_true, Bool.and_eq_true, decide_eq_true_eq]
    omega
  refine (pairwise_mergeSort htrans htotal ranges).imp fun {r s} h => ?_
  simp only [sweepLe, Bool.or_eq_true, Bool.and_eq_true, decide_eq_true_eq] at h
  omega

/-- The sweep of the read side decides pointwise coverage. -/
theorem rangesCover_iff {lo hi : Nat} (hle : lo ≤ hi) (ranges : List SeqRange) :
    rangesCover lo hi ranges = true ↔ ∀ seq, lo ≤ seq → seq ≤ hi → CoveredBy ranges seq := by
  have hmem : ∀ r, r ∈ (ranges.filter fun r => lo ≤ r.max).mergeSort sweepLe ↔ r ∈ ranges ∧ lo ≤ r.max := by
    intro r
    rw [mem_mergeSort, mem_filter, decide_eq_true_eq]
  rw [rangesCover, if_neg (by omega)]
  refine (coverSweep_none_iff hle byMin_mergeSort fun r hr => ((hmem r).mp hr).2).trans ?_
  constructor
  · intro h seq h1 h2
    obtain ⟨r, hr, hcov⟩ := h seq h1 h2
    exact ⟨r, ((hmem r).mp hr).1, hcov⟩
  · intro h seq h1 h2
    obtain ⟨r, hr, hcov⟩ := h seq h1 h2
    exact ⟨r, (hmem r).mpr ⟨hr, by omega⟩, hcov⟩

/-! ## The sweep on `u64` -/

/-- `SeqRange` as the source has it. -/
structure SeqRangeU64 where
  min : UInt64
  max : UInt64
  deriving DecidableEq, Repr

def SeqRangeU64.nat (r : SeqRangeU64) : SeqRange := ⟨r.min.toNat, r.max.toNat⟩

/-- `f + 1`; `none` is an overflow. -/
def checkedSucc (f : UInt64) : Option UInt64 := if f.toNat + 1 < 2 ^ 64 then some (f + 1) else none

/-- The loop of `ranges_cover`; `none` if an addition overflows. -/
def coverSweepU64 (lo hi : UInt64) : Option UInt64 → List SeqRangeU64 → Option Bool
  | frontier, [] => some (frontier.any (hi ≤ ·))
  | none, r :: rest =>
    if r.min ≤ lo then
      if hi ≤ max r.max lo then some true else coverSweepU64 lo hi (some (max r.max lo)) rest
    else coverSweepU64 lo hi none rest
  | some f, r :: rest =>
    match checkedSucc f with
    | none => none
    | some next =>
      if r.min ≤ next then
        if hi ≤ max f r.max then some true else coverSweepU64 lo hi (some (max f r.max)) rest
      else some (hi ≤ f)

/-- `ranges_cover`. -/
def rangesCoverU64 (lo hi : UInt64) (ranges : List SeqRangeU64) : Option Bool :=
  if hi < lo then some true
  else coverSweepU64 lo hi none ((ranges.filter fun r => lo ≤ r.max).mergeSort fun r s =>
    r.min < s.min || (r.min = s.min && r.max ≤ s.max))

theorem toNat_max_u64 (a b : UInt64) : (max a b).toNat = max a.toNat b.toNat := by
  show (if a ≤ b then b else a).toNat = max a.toNat b.toNat
  by_cases h : a ≤ b
  · rw [if_pos h, max_eq_right (UInt64.le_iff_toNat_le.mp h)]
  · have hle : ¬ a.toNat ≤ b.toNat := fun hc => h (UInt64.le_iff_toNat_le.mpr hc)
    rw [if_neg h, max_eq_left (by omega)]

theorem checkedSucc_of_lt {f hi : UInt64} (h : f.toNat < hi.toNat) :
    ∃ next, checkedSucc f = some next ∧ next.toNat = f.toNat + 1 := by
  have hlt : f.toNat + 1 < 2 ^ 64 := by
    have := hi.toNat_lt
    omega
  refine ⟨f + 1, if_pos hlt, ?_⟩
  exact Nat.mod_eq_of_lt hlt

/-- **The sweep never overflows**: it returns as soon as the frontier reaches `hi`, so a frontier it adds to is below
    the largest integer. -/
theorem coverSweepU64_eq (lo hi : UInt64) (frontier : Option UInt64) (hbelow : ∀ f ∈ frontier, f.toNat < hi.toNat)
    (ranges : List SeqRangeU64) :
    coverSweepU64 lo hi frontier ranges =
      some (coverSweep lo.toNat hi.toNat (frontier.map UInt64.toNat) (ranges.map SeqRangeU64.nat)) := by
  induction ranges generalizing frontier with
  | nil =>
    cases frontier with
    | none => rfl
    | some f => simp [coverSweepU64, coverSweep, UInt64.le_iff_toNat_le]
  | cons r rest ih =>
    cases frontier with
    | none =>
      simp only [coverSweepU64, coverSweep, Option.map_none, map_cons, SeqRangeU64.nat,
        UInt64.le_iff_toNat_le, toNat_max_u64]
      split
      · split
        · rfl
        · rename_i hhi
          refine (ih (some (max r.max lo)) fun f hf => ?_).trans ?_
          · cases hf
            rw [toNat_max_u64]
            omega
          · rw [Option.map_some, toNat_max_u64]
      · exact ih none fun f hf => by cases hf
    | some f =>
      obtain ⟨next, hnext, hval⟩ := checkedSucc_of_lt (hbelow f rfl)
      simp only [coverSweepU64, coverSweep, Option.map_some, map_cons, SeqRangeU64.nat, hnext,
        UInt64.le_iff_toNat_le, hval, toNat_max_u64]
      split
      · split
        · rfl
        · refine (ih (some (max f r.max)) fun g hg => ?_).trans ?_
          · cases hg
            rw [toNat_max_u64]
            omega
          · rw [Option.map_some, toNat_max_u64]
      · rfl

/-- On `u64` values the sweep is the one over the naturals. -/
theorem rangesCoverU64_eq (lo hi : UInt64) (ranges : List SeqRangeU64) :
    rangesCoverU64 lo hi ranges = some (rangesCover lo.toNat hi.toNat (ranges.map SeqRangeU64.nat)) := by
  rw [rangesCoverU64, rangesCover]
  by_cases h : hi < lo
  · rw [if_pos h, if_pos (UInt64.lt_iff_toNat_lt.mp h)]
  rw [if_neg h, if_neg fun h' => h (UInt64.lt_iff_toNat_lt.mpr h')]
  rw [coverSweepU64_eq lo hi none fun f hf => by cases hf]
  have hle : ∀ r s : SeqRangeU64, (decide (r.min < s.min) || (decide (r.min = s.min) && decide (r.max ≤ s.max))) =
      sweepLe r.nat s.nat := by
    intro r s
    rw [Bool.eq_iff_iff]
    simp only [sweepLe, Bool.or_eq_true, Bool.and_eq_true, decide_eq_true_eq]
    simp only [SeqRangeU64.nat, UInt64.le_iff_toNat_le, UInt64.lt_iff_toNat_lt, ← UInt64.toNat_inj]
  have hfilter : (ranges.filter fun r => decide (lo ≤ r.max)).map SeqRangeU64.nat =
      (ranges.map SeqRangeU64.nat).filter fun r => decide (lo.toNat ≤ r.max) := by
    rw [filter_map]
    rfl
  rw [map_mergeSort (s := sweepLe) fun r _ s _ => hle r s, hfilter]
  rfl

/-- **Interval coverage is exact.** For every list of ranges, in any order and of any shape, `ranges_cover` returns
    without an overflow, and returns true exactly if every seq of the span lies in some range. -/
theorem rangesCoverU64_exact (lo hi : UInt64) (ranges : List SeqRangeU64) (hle : lo ≤ hi) :
    ∃ covered, rangesCoverU64 lo hi ranges = some covered ∧
      (covered = true ↔ ∀ seq : UInt64, lo ≤ seq → seq ≤ hi → ∃ r ∈ ranges, r.min ≤ seq ∧ seq ≤ r.max) := by
  refine ⟨_, rangesCoverU64_eq lo hi ranges, ?_⟩
  rw [rangesCover_iff (UInt64.le_iff_toNat_le.mp hle)]
  constructor
  · intro h seq h1 h2
    obtain ⟨s, hs, hmin, hmax⟩ := h seq.toNat (UInt64.le_iff_toNat_le.mp h1) (UInt64.le_iff_toNat_le.mp h2)
    obtain ⟨r, hr, rfl⟩ := mem_map.mp hs
    exact ⟨r, hr, UInt64.le_iff_toNat_le.mpr hmin, UInt64.le_iff_toNat_le.mpr hmax⟩
  intro h seq h1 h2
  have hlt : seq < 2 ^ 64 := by
    have := hi.toNat_lt
    omega
  have hseq : (UInt64.ofNat seq).toNat = seq := UInt64.toNat_ofNat_of_lt' hlt
  obtain ⟨r, hr, hmin, hmax⟩ := h (UInt64.ofNat seq) (UInt64.le_iff_toNat_le.mpr (by omega))
    (UInt64.le_iff_toNat_le.mpr (by omega))
  refine ⟨r.nat, mem_map.mpr ⟨r, hr, rfl⟩, ?_, ?_⟩
  · have := UInt64.le_iff_toNat_le.mp hmin
    rw [hseq] at this
    exact this
  · have := UInt64.le_iff_toNat_le.mp hmax
    rw [hseq] at this
    exact this

/-- An overlap, an inverted range and the largest integer. -/
theorem rangesCoverU64_exact_overlap : ∃ covered,
    rangesCoverU64 3 18446744073709551615 [⟨9, 18446744073709551615⟩, ⟨40, 20⟩, ⟨1, 12⟩] = some covered ∧
      (covered = true ↔ ∀ seq : UInt64, 3 ≤ seq → seq ≤ 18446744073709551615 →
        ∃ r ∈ ([⟨9, 18446744073709551615⟩, ⟨40, 20⟩, ⟨1, 12⟩] : List SeqRangeU64), r.min ≤ seq ∧ seq ≤ r.max) :=
  rangesCoverU64_exact 3 18446744073709551615 [⟨9, 18446744073709551615⟩, ⟨40, 20⟩, ⟨1, 12⟩] (by decide)

end Compaction
end Walrust
