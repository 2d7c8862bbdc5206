import Mathlib.Algebra.GroupWithZero.Nat
import Mathlib.Data.List.Sort
import Mathlib.Data.List.Perm.Basic

/-!
# `Walrust.Lib.Store` — an object store

A store is a finite map from keys to objects, kept as an entry list in which no key occurs twice. It
supports reads, overwrites, deletes and listings.

* `get_put`, `get_erase` — each write is seen by reads of its own key and by no other;
* `mem_keys` — a key is listed exactly if a read finds an object; `keys_put`, `keys_erase` list the rest;
* `listing` — the sorted numbers of the keys of interest, with `mem_listing` and `listing_eq`: a listing is
  determined by its members.
-/

namespace Lib

open List

variable {κ ν : Type} [DecidableEq κ]

/-- A finite map as an entry list without duplicate keys. -/
structure Store (κ ν : Type) [DecidableEq κ] where
  entries : List (κ × ν)
  nodup : (entries.map Prod.fst).Nodup

namespace Store

variable {s : Store κ ν} {f : κ → Option Nat}

def empty : Store κ ν := ⟨[], nodup_nil⟩

section

variable (s : Store κ ν)

def get (k : κ) : Option ν := (s.entries.find? (fun e => e.1 = k)).map Prod.snd

def keys : List κ := s.entries.map Prod.fst

def erase (k : κ) : Store κ ν where
  entries := s.entries.filter (fun e => e.1 ≠ k)
  nodup := s.nodup.sublist (filter_sublist.map Prod.fst)

/-- A batch of deletes. -/
def eraseAll (ks : List κ) : Store κ ν := ks.foldl erase s

def put (k : κ) (v : ν) : Store κ ν where
  entries := (s.erase k).entries ++ [(k, v)]
  nodup := by
    rw [map_append, nodup_append]
    refine ⟨(s.erase k).nodup, nodup_singleton k, ?_⟩
    intro a ha b hb
    obtain ⟨e, he, rfl⟩ := mem_map.mp ha
    have hne : e.1 ≠ k := by simpa using (mem_filter.mp he).2
    simpa [mem_singleton.mp hb] using hne

/-- Every value replaced. -/
def mapValues (f : ν → ν) : Store κ ν where
  entries := s.entries.map fun e => (e.1, f e.2)
  nodup := by
    rw [map_map]
    exact s.nodup

end

theorem eq_of_entries {t : Store κ ν} (h : s.entries = t.entries) : s = t := by
  cases s
  cases t
  cases h
  rfl

theorem get_eq_some {k : κ} {v : ν} : s.get k = some v ↔ (k, v) ∈ s.entries := by
  unfold get
  constructor
  · intro h
    obtain ⟨e, he, rfl⟩ := Option.map_eq_some_iff.mp h
    have hk : e.1 = k := by simpa using List.find?_some he
    subst hk
    exact List.mem_of_find?_eq_some he
  · intro hmem
    -- the entry found first is this one, since its key occurs once
    cases hf : s.entries.find? (fun e => e.1 = k) with
    | none => simpa using List.find?_eq_none.mp hf _ hmem
    | some e =>
      have hk : e.1 = k := by simpa using List.find?_some hf
      have he := List.mem_of_find?_eq_some hf
      have : e = (k, v) := inj_on_of_nodup_map s.nodup he hmem hk
      simp [this]

theorem mem_keys {k : κ} : k ∈ s.keys ↔ (s.get k).isSome := by
  rw [Option.isSome_iff_exists]
  constructor
  · intro h
    obtain ⟨e, he, rfl⟩ := mem_map.mp h
    exact ⟨e.2, get_eq_some.mpr he⟩
  · rintro ⟨v, hv⟩
    exact mem_map.mpr ⟨(k, v), get_eq_some.mp hv, rfl⟩

theorem keys_erase (s : Store κ ν) (k : κ) : (s.erase k).keys = s.keys.erase k := by
  have h : s.keys.erase k = s.keys.filter (· != k) := List.Nodup.erase_eq_filter s.nodup k
  rw [h]
  show (s.entries.filter _).map Prod.fst = (s.entries.map Prod.fst).filter _
  rw [filter_map]
  congr 1
  apply filter_congr
  intro e _
  by_cases he : e.1 = k <;> simp [he]

theorem keys_put (s : Store κ ν) (k : κ) (v : ν) : (s.put k v).keys = s.keys.erase k ++ [k] := by
  rw [← keys_erase]
  exact map_append

theorem get_erase (s : Store κ ν) (k j : κ) :
    (s.erase k).get j = if j = k then none else s.get j := by
  apply Option.ext
  intro v
  rw [get_eq_some]
  by_cases hj : j = k
  · simp [erase, hj]
  · simp [erase, hj, get_eq_some]

theorem get_eraseAll (s : Store κ ν) (ks : List κ) (j : κ) :
    (s.eraseAll ks).get j = if j ∈ ks then none else s.get j := by
  induction ks generalizing s with
  | nil => simp [eraseAll]
  | cons k ks ih =>
    have h : s.eraseAll (k :: ks) = (s.erase k).eraseAll ks := rfl
    rw [h, ih, get_erase]
    by_cases hj : j = k <;> simp [hj]

section

variable (s : Store κ ν)

theorem get_put (k : κ) (v : ν) (j : κ) :
    (s.put k v).get j = if j = k then some v else s.get j := by
  apply Option.ext
  intro u
  rw [get_eq_some]
  by_cases hj : j = k
  · subst hj
    simp [put, erase, eq_comm]
  · simp [put, erase, hj, get_eq_some]

@[simp] theorem get_put_self (k : κ) (v : ν) : (s.put k v).get k = some v := by
  simp [get_put]

theorem get_put_of_ne {k j : κ} (v : ν) (h : j ≠ k) : (s.put k v).get j = s.get j := by
  simp [get_put, h]

/-- A delete before an overwrite of the same key makes no difference. -/
theorem put_erase (k : κ) (v : ν) : (s.erase k).put k v = s.put k v := by
  simp [put, erase]

/-- A delete after a write of the same key leaves what a delete alone leaves. -/
theorem erase_put (k : κ) (v : ν) : (s.put k v).erase k = s.erase k := by
  simp [put, erase]

end

/-! ### Sorted listings -/

/-- The sum of a measure of the values. -/
def total (s : Store κ ν) (f : ν → Nat) : Nat := (s.entries.map fun e => f e.2).sum

theorem total_put (s : Store κ ν) (k : κ) (v : ν) (f : ν → Nat) :
    (s.put k v).total f = (s.erase k).total f + f v := by
  simp [total, put]

theorem total_erase (s : Store κ ν) (k : κ) (f : ν → Nat) :
    (s.erase k).total f + (s.get k).elim 0 f = s.total f := by
  obtain ⟨entries, hnodup⟩ := s
  unfold total erase get
  induction entries with
  | nil => rfl
  | cons e rest ih =>
    obtain ⟨hfirst, hrest⟩ := nodup_cons.mp hnodup
    by_cases hk : e.1 = k
    · -- The key is not in the rest.
      have hkeep : rest.filter (fun e => !decide (e.1 = k)) = rest := by
        simp only [filter_eq_self, Bool.not_eq_true', decide_eq_false_iff_not]
        exact fun e' he' heq => hfirst (mem_map.mpr ⟨e', he', heq.trans hk.symm⟩)
      simp [hk, hkeep, Nat.add_comm]
    · have := ih hrest
      simp only [filter_cons, List.find?_cons, hk, decide_false, not_false_eq_true, decide_true, if_true,
        map_cons, sum_cons, ne_eq] at this ⊢
      omega

/-- The numbers `f` assigns to the stored keys, in ascending order. -/
def listing (s : Store κ ν) (f : κ → Option Nat) : List Nat :=
  (s.keys.filterMap f).mergeSort (fun a b => a ≤ b)

theorem mem_listing {n : Nat} : n ∈ s.listing f ↔ ∃ k, (s.get k).isSome ∧ f k = some n := by
  unfold listing
  rw [mem_mergeSort, mem_filterMap]
  exact exists_congr fun k => and_congr_left fun _ => mem_keys

/-- `f` numbers the keys it selects without collisions. -/
def Numbering (f : κ → Option Nat) : Prop := ∀ k j n, f k = some n → f j = some n → k = j

theorem listing_nodup (hf : Numbering f) (s : Store κ ν) : (s.listing f).Nodup := by
  unfold listing
  rw [(mergeSort_perm _ _).nodup_iff]
  exact s.nodup.filterMap fun a b n ha hb => hf a b n ha hb

theorem listing_sorted (f : κ → Option Nat) (s : Store κ ν) :
    (s.listing f).Pairwise (· ≤ ·) := by
  have hsorted : (s.listing f).Pairwise (fun a b => decide (a ≤ b) = true) := by
    apply pairwise_mergeSort
    · intro a b c hab hbc
      simp only [decide_eq_true_eq] at *
      exact hab.trans hbc
    · intro a b
      simpa using le_total a b
  simpa using hsorted

/-- **A listing is determined by its members.** -/
theorem listing_eq (hf : Numbering f) {l : List Nat} (hl : l.Pairwise (· < ·))
    (hmem : ∀ n, n ∈ l ↔ ∃ k, (s.get k).isSome ∧ f k = some n) : s.listing f = l := by
  have hperm : (s.listing f).Perm l := by
    rw [perm_ext_iff_of_nodup (listing_nodup hf s) (hl.imp fun h => ne_of_lt h)]
    intro n
    rw [mem_listing, hmem]
  exact hperm.eq_of_pairwise (fun a b _ _ hab hba => le_antisymm hab hba) (listing_sorted f s)
    (hl.imp fun h => le_of_lt h)

end Store
end Lib
