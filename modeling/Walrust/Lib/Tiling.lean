import Mathlib.Data.List.Count
import Mathlib.Data.Set.Basic

/-!
# `Walrust.Lib.Tiling` — laying pieces end to end

A family of *pieces*, each with a first and a last point `lo i` and `hi i`. A list of pieces *tiles* the points
after `a` up to `b` if they lie end to end there. Whether this can be done, and with how few pieces, is easy to
decide when any two pieces are nested or apart: at each point take the piece that reaches furthest. The argument
is one exchange. Nothing crosses the end of the furthest piece, so every other tiling can be cut there, and what
it lays before the cut is at least one piece.

* `Tiling`, `Tiling.cut` — tilings, and cutting one where nothing crosses;
* `Partitions`, `Partitions.exists_tiling` — the same without an order: every point is held exactly once;
* `Greedy`, `Greedy.exchange` — greedy runs up to a bound, and the exchange argument for a whole run.
-/

namespace Lib

open List

variable {ι : Type} (lo hi : ι → Nat)

/-! ## Tilings -/

/-- The pieces lie end to end on the points after `a` up to `b`. -/
inductive Tiling : Nat → Nat → List ι → Prop
  | nil (a : Nat) : Tiling a a []
  | cons {a b : Nat} {i : ι} {l : List ι} : lo i = a + 1 → a < hi i → Tiling (hi i) b l → Tiling a b (i :: l)

/-- The point lies on the piece. -/
def Holds (n : Nat) (i : ι) : Bool := lo i ≤ n && n ≤ hi i

/-- Nested or apart. -/
def Nested (i j : ι) : Prop := (lo j ≤ lo i ∧ hi i ≤ hi j) ∨ (lo i ≤ lo j ∧ hi j ≤ hi i) ∨ hi i < lo j ∨ hi j < lo i

variable {lo hi} {a b c n : Nat} {i : ι} {l l₁ l₂ : List ι}

@[simp]
theorem holds_iff : Holds lo hi n i = true ↔ lo i ≤ n ∧ n ≤ hi i := by
  simp [Holds]

namespace Tiling

theorem le (h : Tiling lo hi a b l) : a ≤ b := by
  induction h with
  | nil a => exact le_refl a
  | cons _ hlt _ ih => exact hlt.le.trans ih

theorem singleton (hlo : lo i = a + 1) (hlt : a < hi i) : Tiling lo hi a (hi i) [i] := .cons hlo hlt (.nil _)

theorem append (h₁ : Tiling lo hi a b l₁) (h₂ : Tiling lo hi b c l₂) : Tiling lo hi a c (l₁ ++ l₂) := by
  induction h₁ with
  | nil _ => exact h₂
  | cons hlo hlt _ ih => exact .cons hlo hlt (ih h₂)

theorem bounds (h : Tiling lo hi a b l) : ∀ i ∈ l, a < lo i ∧ lo i ≤ hi i ∧ hi i ≤ b := by
  induction h with
  | nil _ => simp
  | @cons a b i l hlo hlt hrest ih =>
    intro j hj
    rcases mem_cons.mp hj with rfl | hj
    · exact ⟨by omega, by omega, hrest.le⟩
    · obtain ⟨h1, h2, h3⟩ := ih j hj
      exact ⟨by omega, h2, h3⟩

/-- **A tiling is cut where nothing crosses.** -/
theorem cut (h : Tiling lo hi a b l) (hac : a ≤ c) (hcb : c ≤ b) (hcross : ∀ i ∈ l, ¬ (lo i ≤ c ∧ c < hi i)) :
    ∃ l₁ l₂, l = l₁ ++ l₂ ∧ Tiling lo hi a c l₁ ∧ Tiling lo hi c b l₂ := by
  induction h with
  | nil a =>
    obtain rfl := le_antisymm hac hcb
    exact ⟨[], [], rfl, .nil _, .nil _⟩
  | @cons a b i l hlo hlt hrest ih =>
    rcases eq_or_lt_of_le hac with rfl | hlt'
    · exact ⟨[], i :: l, rfl, .nil _, .cons hlo hlt hrest⟩
    · -- the first piece begins before the cut, so it ends by it
      have hi_le : hi i ≤ c := by
        have := hcross i mem_cons_self
        omega
      obtain ⟨l₁, l₂, rfl, h₁, h₂⟩ := ih hi_le hcb fun j hj => hcross j (mem_cons_of_mem _ hj)
      exact ⟨i :: l₁, l₂, rfl, .cons hlo hlt h₁, h₂⟩

theorem ne_nil (h : Tiling lo hi a b l) (hlt : a < b) : l ≠ [] := by
  rintro rfl
  cases h
  exact lt_irrefl _ hlt

end Tiling

/-! ## Partitions -/

variable (lo hi) in
/-- Every point after `a` up to `b` is held by exactly one of the pieces, and no other point by any. -/
def Partitions (a b : Nat) (l : List ι) : Prop :=
  ∀ n, l.countP (Holds lo hi n) = if a < n ∧ n ≤ b then 1 else 0

theorem Tiling.partitions (h : Tiling lo hi a b l) : Partitions lo hi a b l := by
  induction h with
  | nil a =>
    intro n
    rw [if_neg (by omega), countP_nil]
  | @cons a b i l hlo hlt hrest ih =>
    intro n
    have hle := hrest.le
    rw [countP_cons, ih n]
    by_cases hn : lo i ≤ n ∧ n ≤ hi i
    · rw [if_pos (holds_iff.mpr hn), if_neg (by omega), if_pos (by omega)]
    · rw [if_neg (fun h => hn (holds_iff.mp h))]
      apply if_congr _ rfl rfl
      omega

theorem Partitions.perm (h : Partitions lo hi a b l₁) (hp : l₁.Perm l₂) : Partitions lo hi a b l₂ := by
  intro n
  rw [← hp.countP_eq]
  exact h n

theorem Partitions.bounds (h : Partitions lo hi a b l) (hi_mem : i ∈ l) (hle : lo i ≤ hi i) : a < lo i ∧ hi i ≤ b := by
  have hheld : ∀ n, lo i ≤ n → n ≤ hi i → a < n ∧ n ≤ b := by
    intro n h1 h2
    by_contra hout
    have hcount := h n
    rw [if_neg hout, countP_eq_zero] at hcount
    exact hcount i hi_mem (holds_iff.mpr ⟨h1, h2⟩)
  exact ⟨(hheld _ (le_refl _) hle).1, (hheld _ hle (le_refl _)).2⟩

/-- Taking the first piece away leaves a partition of the rest. -/
theorem Partitions.tail (h : Partitions lo hi a b (i :: l)) (hlo : lo i = a + 1) (hlt : a < hi i) :
    Partitions lo hi (hi i) b l := by
  intro n
  have hn := h n
  rw [countP_cons] at hn
  have hb := (h.bounds mem_cons_self (by omega)).2
  by_cases hheld : lo i ≤ n ∧ n ≤ hi i
  · rw [if_pos (holds_iff.mpr hheld), if_pos (by omega)] at hn
    rw [if_neg (by omega)]
    omega
  · rw [if_neg (fun h => hheld (holds_iff.mp h)), Nat.add_zero] at hn
    rw [hn]
    apply if_congr _ rfl rfl
    omega

/-- **A partition into pieces that are not empty can be put in order.** -/
theorem Partitions.exists_tiling (h : Partitions lo hi a b l) (hab : a ≤ b) (hle : ∀ i ∈ l, lo i ≤ hi i) :
    ∃ l', l'.Perm l ∧ Tiling lo hi a b l' := by
  -- on the number of pieces: the one that holds the first point comes first
  induction hlen : l.length generalizing a l with
  | zero =>
    obtain rfl := length_eq_zero_iff.mp hlen
    rcases eq_or_lt_of_le hab with rfl | hlt
    · exact ⟨[], .nil, .nil _⟩
    · have := h (a + 1)
      rw [if_pos (by omega), countP_nil] at this
      omega
  | succ k ih =>
    rcases eq_or_lt_of_le hab with rfl | hlt
    · -- nothing is to be held, so nothing is there
      obtain ⟨i, hi_mem⟩ := exists_mem_of_length_pos (show 0 < l.length by omega)
      have := h.bounds hi_mem (hle i hi_mem)
      have := hle i hi_mem
      omega
    · have hfirst := h (a + 1)
      rw [if_pos (by omega)] at hfirst
      obtain ⟨i, hi_mem, hholds⟩ := countP_pos_iff.mp (show 0 < l.countP (Holds lo hi (a + 1)) by omega)
      obtain ⟨h1, h2⟩ := holds_iff.mp hholds
      have hbounds := h.bounds hi_mem (hle i hi_mem)
      obtain ⟨s, t, rfl⟩ := append_of_mem hi_mem
      have hperm : (s ++ i :: t).Perm (i :: (s ++ t)) := perm_middle
      have htail := (h.perm hperm).tail (by omega) (by omega)
      obtain ⟨l', hl', htiling⟩ := ih htail hbounds.2
        (fun j hj => hle j (hperm.mem_iff.mpr (mem_cons_of_mem _ hj)))
        (by simp only [length_append, length_cons] at hlen ⊢; omega)
      exact ⟨i :: l', (hl'.cons i).trans hperm.symm, .cons (by omega) (by omega) htiling⟩

/-! ## Greedy runs -/

variable (lo hi) in
/-- From `a` on, the piece of `S` that reaches furthest is taken again and again, among those that end by `bound`. -/
inductive Greedy (S : Set ι) (bound : Nat) : Nat → Nat → List ι → Prop
  | nil (a : Nat) : Greedy S bound a a []
  | cons {a c : Nat} {i : ι} {l : List ι} : i ∈ S → lo i = a + 1 → a < hi i → hi i ≤ bound →
      (∀ j ∈ S, lo j = a + 1 → hi j ≤ bound → hi j ≤ hi i) → Greedy S bound (hi i) c l → Greedy S bound a c (i :: l)

namespace Greedy

variable {S : Set ι} {bound x : Nat} {g : List ι}

section

variable (h : Greedy lo hi S bound a c g)
include h

theorem tiling : Tiling lo hi a c g := by
  induction h with
  | nil a => exact .nil a
  | cons _ hlo hlt _ _ _ ih => exact .cons hlo hlt ih

theorem mem : ∀ i ∈ g, i ∈ S := by
  induction h with
  | nil _ => simp
  | cons hmem _ _ _ _ _ ih => exact forall_mem_cons.mpr ⟨hmem, ih⟩

theorem le_bound : c = a ∨ a < c ∧ c ≤ bound := by
  induction h with
  | nil _ => exact .inl rfl
  | cons _ _ hlt hbound _ _ ih => rcases ih with ih | ih <;> exact .inr (by omega)

end

/-- **The exchange argument.** Over pieces that are nested or apart, every tiling that goes on past the end of a
    greedy run can be cut there, and has laid at least as many pieces by then. The tiling may use pieces beyond
    the bound of the run if none of them begins within it. -/
theorem exchange (hlam : ∀ i ∈ S, ∀ j ∈ S, Nested lo hi i j) (h : Greedy lo hi S bound a c g)
    (ht : Tiling lo hi a x l) (hl : ∀ i ∈ l, i ∈ S) (hcx : c ≤ x)
    (hover : ∀ i ∈ S, lo i ≤ c → bound < hi i → x < hi i) :
    ∃ l₁ l₂, l = l₁ ++ l₂ ∧ g.length ≤ l₁.length ∧ Tiling lo hi c x l₂ := by
  induction h generalizing l with
  | nil a => exact ⟨[], l, rfl, le_refl _, ht⟩
  | @cons a c i g hi_mem hlo hlt hbound hfar hrest ih =>
    have hic := hrest.tiling.le
    have hcross : ∀ j ∈ l, ¬ (lo j ≤ hi i ∧ hi i < hi j) := by
      rintro j hj ⟨hj1, hj2⟩
      obtain ⟨hja, -, hjx⟩ := ht.bounds j hj
      rcases hlam i hi_mem j (hl j hj) with h | h | h | h
      · -- a piece around the pick begins with it, and would have been picked
        have hjlo : lo j = a + 1 := by omega
        rcases lt_or_ge bound (hi j) with hb | hb
        · have := hover j (hl j hj) (by omega) hb
          omega
        · have := hfar j (hl j hj) hjlo hb
          omega
      · omega
      · omega
      · omega
    obtain ⟨p, r, rfl, hp, hr⟩ := ht.cut hlt.le (hic.trans hcx) hcross
    have hpne := hp.ne_nil hlt
    obtain ⟨l₁, l₂, rfl, hlen, ht₂⟩ := ih hr (fun j hj => hl j (mem_append_right _ hj)) hcx hover
    refine ⟨p ++ l₁, l₂, (append_assoc _ _ _).symm, ?_, ht₂⟩
    have := length_pos_iff.mpr hpne
    simp only [length_cons, length_append]
    omega

end Greedy

end Lib
