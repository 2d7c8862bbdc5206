import Mathlib.Data.Finset.Card

/-!
# `Walrust.Lib.Steps` — a partial function step by step

A loop whose state is one value is a partial function: it is undefined where the loop stops. If the values it can
take lie in a finite set, it either stops within as many steps as the set has values, or comes back to a value and
never stops.

* `steps` — the value after `n` steps;
* `steps_isSome_of_card` — more steps than values: it goes on for ever.
-/

namespace Lib

variable {α : Type} {f : α → Option α} {x : α}

/-- The value after `n` steps, if the loop has not stopped before. -/
def steps (f : α → Option α) : Nat → α → Option α
  | 0, x => some x
  | n + 1, x => (f x).bind (steps f n)

theorem steps_add (m n : Nat) (x : α) : steps f (m + n) x = (steps f m x).bind (steps f n) := by
  induction m generalizing x with
  | zero => rw [Nat.zero_add, steps, Option.bind_some]
  | succ m ih =>
    rw [Nat.add_right_comm, steps, steps, Option.bind_assoc]
    congr 1
    funext y
    exact ih y

theorem steps_isSome_of_le {m n : Nat} (hmn : m ≤ n) (h : (steps f n x).isSome) : (steps f m x).isSome := by
  obtain ⟨k, rfl⟩ := Nat.exists_eq_add_of_le hmn
  rw [steps_add] at h
  exact Option.isSome_of_isSome_bind h

theorem steps_succ_eq_some {n : Nat} {z : α} (h : steps f (n + 1) x = some z) :
    ∃ y, steps f n x = some y ∧ f y = some z := by
  rw [steps_add, Option.bind_eq_some_iff] at h
  obtain ⟨y, hy, hz⟩ := h
  refine ⟨y, hy, ?_⟩
  rw [steps, Option.bind_eq_some_iff] at hz
  obtain ⟨w, hw, hwz⟩ := hz
  rw [hw]
  exact hwz

/-- **A loop that has taken more steps than there are values never stops.** -/
theorem steps_isSome_of_card {s : Finset α} (hs : ∀ x y, f x = some y → y ∈ s)
    (h : (steps f (s.card + 1) x).isSome) (n : Nat) : (steps f n x).isSome := by
  have hval : ∀ i ∈ Finset.range (s.card + 1), (steps f (i + 1) x).isSome := by
    intro i hi
    exact steps_isSome_of_le (by have := Finset.mem_range.mp hi; omega) h
  -- two of the values are the same
  obtain ⟨i, hi, j, hj, hne, heq⟩ := Finset.exists_ne_map_eq_of_card_lt_of_maps_to
    (s := Finset.range (s.card + 1)) (t := s.map Function.Embedding.some) (by simp)
    (f := fun i => steps f (i + 1) x) (by
      intro i hi
      obtain ⟨z, hz⟩ := Option.isSome_iff_exists.mp (hval i hi)
      obtain ⟨y, -, hy⟩ := steps_succ_eq_some hz
      exact Finset.mem_map.mpr ⟨z, hs y z hy, hz.symm⟩)
  have key : ∀ a b, a < b → b ≤ s.card + 1 → steps f a x = steps f b x → ∀ n, (steps f n x).isSome := by
    intro a b hab hb heq n
    induction n using Nat.strong_induction_on with
    | _ n ih =>
      rcases lt_or_ge n b with hlt | hge
      · exact steps_isSome_of_le (by omega) h
      · -- from there on the steps repeat
        obtain ⟨k, rfl⟩ := Nat.exists_eq_add_of_le hge
        rw [steps_add, ← heq, ← steps_add]
        exact ih (a + k) (by omega)
  have hi := Finset.mem_range.mp hi
  have hj := Finset.mem_range.mp hj
  rcases lt_or_gt_of_ne hne with hlt | hlt
  · exact key (i + 1) (j + 1) (by omega) (by omega) heq n
  · exact key (j + 1) (i + 1) (by omega) (by omega) heq.symm n

end Lib
