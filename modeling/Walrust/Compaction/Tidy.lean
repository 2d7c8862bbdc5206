import Walrust.Compaction.Ledger

/-!
# `Walrust.Compaction.Tidy` — shelves on which a merge can be resumed

A run that stops between the write of its merged object and the first delete leaves an object that its
sources still tile. The next run on that level is meant to select the very same sources and to finish the job.
`Resumable` says when it does: nothing adjoining has come before the sources, and they are a full batch or
nothing can follow them. A `Tidy` family of shelves has ranges that are apart on each level, nested in or apart
from the ranges of the next one, and each tiled object resumable. Deletes keep shelves tidy; what the writer
and a run add keeps them tidy under the conditions of `Tidy.publish` and `Tidy.add`.
-/

namespace Walrust
namespace Compaction

open Shelves (mem_add mem_remove)

variable {A A' : Set SeqRange} {m : SeqRange}

namespace SeqRange

def Apart (r x : SeqRange) : Prop := r.max < x.min ∨ x.max < r.min

def Inside (r m : SeqRange) : Prop := m.min ≤ r.min ∧ r.max ≤ m.max

theorem Apart.symm {r x : SeqRange} (h : r.Apart x) : x.Apart r := Or.symm h

end SeqRange

/-- The ranges of `A` inside `m`. -/
def insideOf (A : Set SeqRange) (m : SeqRange) : Set SeqRange := {r | r ∈ A ∧ r.Inside m}

/-- `A` covers `m` by ranges inside it. -/
def Tiled (A : Set SeqRange) (m : SeqRange) : Prop := ∀ n ∈ m.seqs, ∃ r ∈ insideOf A m, n ∈ r.seqs

/-- The sources of `m`, all of them there in `A`, are what the next run selects. -/
structure Resumable (level : Level) (batch head : Nat) (old : SeqRange → Prop) (A : Set SeqRange)
    (m : SeqRange) : Prop where
  /-- No two adjoining ranges begin before `m`. -/
  lone : ∀ r ∈ A, ∀ x ∈ A, r.Adj x → m.min ≤ r.min
  capped : (insideOf A m).ncard ≤ batch
  /-- The sources are a full batch, or no range begins where they end, and the writer is beyond. -/
  closed : (insideOf A m).ncard = batch ∨ level = 0 ∧ m.max < head ∧ ∀ x ∈ A, x.min ≠ m.max + 1
  /-- Everything up to the end of `m` is old enough. -/
  old : level = 0 → ∀ r ∈ A, r.min ≤ m.max → old r

/-- Shelves on which every interrupted merge can be resumed. -/
structure Tidy (batch : Level → Nat) (head : Nat) (old : SeqRange → Prop) (S : Shelves) : Prop where
  le : ∀ j, ∀ r ∈ S j, r.min ≤ r.max
  apart : ∀ j, ∀ r ∈ S j, ∀ x ∈ S j, r = x ∨ r.Apart x
  nested : ∀ j, ∀ r ∈ S j, ∀ m ∈ S (j + 1), r.Inside m ∨ r.Apart m
  resumable : ∀ j, ∀ m ∈ S (j + 1), Tiled (S j) m → Resumable j (batch j) head old (S j) m

theorem insideOf_mono (h : A ⊆ A') : insideOf A m ⊆ insideOf A' m :=
  fun _ hr => ⟨h hr.1, hr.2⟩

theorem Tiled.mono (h : Tiled A m) (hA : A ⊆ A') : Tiled A' m := by
  intro n hn
  obtain ⟨r, hr, hnr⟩ := h n hn
  exact ⟨r, insideOf_mono hA hr, hnr⟩

variable {batch : Level → Nat} {head : Nat} {old : SeqRange → Prop} {S : Shelves}

namespace Tidy

theorem eq_of_mem (h : Tidy batch head old S) {j : Level} {r x : SeqRange} (hr : r ∈ S j) (hx : x ∈ S j)
    {n : Nat} (hnr : n ∈ r.seqs) (hnx : n ∈ x.seqs) : r = x := by
  rcases h.apart j r hr x hx with heq | hap | hap
  · exact heq
  · have := hnr.2
    have := hnx.1
    omega
  · have := hnr.1
    have := hnx.2
    omega

/-- Fewer ranges that still tile `m` are all there were inside it. -/
theorem insideOf_eq (h : Tidy batch head old S) {j : Level} (hA : A ⊆ S j) (ht : Tiled A m) :
    insideOf A m = insideOf (S j) m := by
  refine Set.Subset.antisymm (insideOf_mono hA) fun r hr => ⟨?_, hr.2⟩
  have hle := h.le j r hr.1
  obtain ⟨x, hx, hnx⟩ := ht r.min ⟨hr.2.1, le_trans hle hr.2.2⟩
  rw [h.eq_of_mem hr.1 (hA hx.1) ⟨le_refl _, hle⟩ hnx]
  exact hx.1

end Tidy

theorem Resumable.subset {level : Level} {n : Nat} (h : Resumable level n head old A m) (hA : A' ⊆ A)
    (heq : insideOf A' m = insideOf A m) :
    Resumable level n head old A' m where
  lone r hr x hx := h.lone r (hA hr) x (hA hx)
  capped := heq ▸ h.capped
  closed := heq ▸ h.closed.imp_right fun hc => ⟨hc.1, hc.2.1, fun x hx => hc.2.2 x (hA hx)⟩
  old hl r hr := h.old hl r (hA hr)

namespace Tidy

section

variable (h : Tidy batch head old S)
include h

/-- **Deletes keep shelves tidy**, whatever is deleted. -/
theorem remove (level : Level) (D : Set SeqRange) :
    Tidy batch head old (S.remove level D) := by
  have hsub : ∀ j, S.remove level D j ⊆ S j := fun j r hr => (mem_remove.mp hr).1
  refine ⟨fun j r hr => h.le j r (hsub j hr), fun j r hr x hx => h.apart j r (hsub j hr) x (hsub j hx),
    fun j r hr m hm => h.nested j r (hsub j hr) m (hsub _ hm), fun j m hm ht => ?_⟩
  exact (h.resumable j m (hsub _ hm) (ht.mono (hsub j))).subset (hsub j) (h.insideOf_eq (hsub j) ht)

theorem mono {head' : Nat} {old' : SeqRange → Prop} (hhead : head ≤ head')
    (hold : ∀ r ∈ S 0, old r → old' r) : Tidy batch head' old' S where
  le := h.le
  apart := h.apart
  nested := h.nested
  resumable j m hm ht := by
    have hr := h.resumable j m hm ht
    refine ⟨hr.lone, hr.capped, hr.closed.imp_right fun hc => ⟨hc.1, by omega, hc.2.2⟩, ?_⟩
    rintro rfl r hrA hle
    exact hold r hrA (hr.old rfl r hrA hle)

/-- The writer's next range, beyond everything, keeps shelves tidy. -/
theorem publish (hhead : ∀ j, ∀ r ∈ S j, r.max ≤ head) :
    Tidy batch (head + 1) old (S.add 0 (.point (head + 1))) := by
  have hmin : ∀ j, ∀ r ∈ S j, r.min ≤ head := fun j r hr => le_trans (h.le j r hr) (hhead j r hr)
  have hpair : ∀ j, j + 1 ≠ 0 := fun j => Nat.succ_ne_zero j
  refine ⟨?_, ?_, ?_, ?_⟩
  · intro j r hr
    rcases mem_add.mp hr with hr | ⟨-, rfl⟩
    · exact h.le j r hr
    · exact le_refl _
  · intro j r hr x hx
    rcases mem_add.mp hr with hr | ⟨rfl, rfl⟩ <;> rcases mem_add.mp hx with hx | ⟨hj, rfl⟩
    · exact h.apart j r hr x hx
    · exact .inr (.inl (Nat.lt_succ_of_le (hhead j r hr)))
    · exact .inr (.inr (Nat.lt_succ_of_le (hhead _ x hx)))
    · exact .inl rfl
  · intro j r hr m hm
    rcases mem_add.mp hr with hr | ⟨rfl, rfl⟩
    · exact h.nested j r hr m hm
    · exact .inr (.inr (Nat.lt_succ_of_le (hhead _ m hm)))
  · intro j m hm ht
    have hm := (mem_add.mp hm).resolve_right fun hc => hpair j hc.1
    have hmax := hhead _ m hm
    have hle := h.le _ m hm
    -- the new range is not inside `m`
    have hinside : insideOf (S.add 0 (.point (head + 1)) j) m = insideOf (S j) m := by
      ext r
      refine ⟨fun hr => ⟨?_, hr.2⟩, fun hr => ⟨mem_add.mpr (.inl hr.1), hr.2⟩⟩
      refine (mem_add.mp hr.1).resolve_right ?_
      rintro ⟨-, rfl⟩
      have : head + 1 ≤ m.max := hr.2.2
      omega
    have hold : Tiled (S j) m := by
      intro n hn
      obtain ⟨r, hr, hnr⟩ := ht n hn
      exact ⟨r, hinside ▸ hr, hnr⟩
    have hres := h.resumable j m hm hold
    refine ⟨?_, by rw [hinside]; exact hres.capped, ?_, ?_⟩
    · intro r hr x hx hadj
      have hadj' : r.max + 1 = x.min := hadj
      rcases mem_add.mp hr with hr | ⟨rfl, rfl⟩
      · rcases mem_add.mp hx with hx | ⟨rfl, rfl⟩
        · exact hres.lone r hr x hx hadj
        · -- the newest range of the level: `m` does not lie beyond it
          have hnew : r.max + 1 = head + 1 := hadj'
          rcases h.nested _ r hr m hm with hin | hap | hap
          · exact hin.1
          · omega
          · omega
      · have hnew : head + 1 + 1 = x.min := hadj'
        rcases mem_add.mp hx with hx | ⟨-, rfl⟩
        · have := hmin _ x hx
          omega
        · have : head + 1 + 1 = head + 1 := hnew
          omega
    · rw [hinside]
      refine hres.closed.imp_right fun hc => ⟨hc.1, by omega, fun x hx => ?_⟩
      rcases mem_add.mp hx with hx | ⟨-, rfl⟩
      · exact hc.2.2 x hx
      · show head + 1 ≠ m.max + 1
        omega
    · intro hj r hr hrm
      rcases mem_add.mp hr with hr | ⟨-, rfl⟩
      · exact hres.old hj r hr hrm
      · have : head + 1 ≤ m.max := hrm
        omega

/-- **A merged range keeps shelves tidy** if it is apart from its level, contains or avoids what is below it,
    begins after everything above it, and is resumable where its sources still tile it. -/
theorem add {level : Level} (hle : m.min ≤ m.max)
    (hlevel : ∀ x ∈ S (level + 1), x.Apart m) (hsources : ∀ r ∈ S level, r.Inside m ∨ r.Apart m)
    (habove : ∀ x ∈ S (level + 2), x.max < m.min)
    (hres : Tiled (S level) m → Resumable level (batch level) head old (S level) m) :
    Tidy batch head old (S.add (level + 1) m) := by
  have hbelow : S.add (level + 1) m level = S level :=
    Function.update_of_ne (ne_of_lt (lt_add_one level)) _ _
  refine ⟨?_, ?_, ?_, ?_⟩
  · intro j r hr
    rcases mem_add.mp hr with hr | ⟨-, rfl⟩
    · exact h.le j r hr
    · exact hle
  · intro j r hr x hx
    rcases mem_add.mp hr with hr' | ⟨hj, rfl⟩ <;> rcases mem_add.mp hx with hx' | ⟨hj', rfl⟩
    · exact h.apart j r hr' x hx'
    · exact .inr (hlevel r (hj' ▸ hr'))
    · exact .inr (hlevel x (hj ▸ hx')).symm
    · exact .inl rfl
  · intro j r hr x hx
    rcases mem_add.mp hx with hx' | ⟨hj, rfl⟩
    · rcases mem_add.mp hr with hr' | ⟨hj, rfl⟩
      · exact h.nested j r hr' x hx'
      · rw [hj] at hx'
        exact .inr (.inr (habove x hx'))
    · obtain rfl := Nat.succ.inj hj
      rw [hbelow] at hr
      exact hsources r hr
  · intro j x hx ht
    rcases mem_add.mp hx with hx' | ⟨hj, rfl⟩
    · by_cases hj : j = level + 1
      · -- the new range has come to the sources of `x`, beyond `x`
        subst hj
        have hbeyond := habove x hx'
        have hinside : insideOf (S.add (level + 1) m (level + 1)) x = insideOf (S (level + 1)) x := by
          ext r
          refine ⟨fun hr => ⟨?_, hr.2⟩, fun hr => ⟨mem_add.mpr (.inl hr.1), hr.2⟩⟩
          refine (mem_add.mp hr.1).resolve_right ?_
          rintro ⟨-, rfl⟩
          have := hr.2.2
          omega
        have hxle := h.le _ x hx'
        have hold : Tiled (S (level + 1)) x := by
          intro n hn
          obtain ⟨r, hr, hnr⟩ := ht n hn
          exact ⟨r, hinside ▸ hr, hnr⟩
        have hres := h.resumable _ x hx' hold
        refine ⟨?_, by rw [hinside]; exact hres.capped, ?_, fun hj => absurd hj (Nat.succ_ne_zero _)⟩
        · intro r hr y hy hadj
          have hadj' : r.max + 1 = y.min := hadj
          rcases mem_add.mp hr with hr' | ⟨-, rfl⟩
          · rcases mem_add.mp hy with hy' | ⟨-, rfl⟩
            · exact hres.lone r hr' y hy' hadj
            · rcases h.nested _ r hr' x hx' with hin | hap | hap
              · exact hin.1
              · omega
              · omega
          · omega
        · rw [hinside]
          exact hres.closed.imp_right fun hc => absurd hc.1 (Nat.succ_ne_zero _)
      · have hsame : S.add (level + 1) m j = S j := Function.update_of_ne hj _ _
        rw [hsame] at ht ⊢
        exact h.resumable j x hx' ht
    · obtain rfl := Nat.succ.inj hj
      rw [hbelow] at ht ⊢
      exact hres ht

end

end Tidy

end Compaction
end Walrust
