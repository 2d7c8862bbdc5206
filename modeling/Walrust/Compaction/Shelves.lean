import Walrust.Compaction.Stock
import Mathlib.Data.Set.Card

/-!
# `Walrust.Compaction.Shelves` — a bucket as its levels of ranges

On a stocked bucket a compaction run is determined by the ranges stored at each level. `Shelves` is that
view, and `Effect.change` reads every bucket a run can leave as a change of shelves: some ranges of the source
level go, and the batch's span may come or go on the target level.
-/

namespace Walrust
namespace Compaction

open Lib List

variable {key : Key}

/-- The ranges stored at each level. -/
abbrev Shelves := Level → Set SeqRange

namespace Shelves

def remove (S : Shelves) (level : Level) (D : Set SeqRange) : Shelves :=
  Function.update S level (S level \ D)

def add (S : Shelves) (level : Level) (r : SeqRange) : Shelves :=
  Function.update S level (insert r (S level))

variable {S : Shelves} {level j : Level} {D : Set SeqRange} {x : SeqRange}

theorem mem_remove : x ∈ S.remove level D j ↔ x ∈ S j ∧ (j = level → x ∉ D) := by
  unfold remove
  by_cases hj : j = level
  · subst hj
    simp
  · simp [hj]

theorem mem_add : x ∈ S.add level r j ↔ x ∈ S j ∨ j = level ∧ x = r := by
  unfold add
  by_cases hj : j = level
  · subst hj
    simp [or_comm]
  · simp [hj]

end Shelves

/-- The shelves of a bucket. -/
def shelves (b : Bucket) : Shelves := fun level => {r | ∃ key, keyRange level key = some r ∧ (b.get key).isSome}

theorem keyRange_inj {level : Level} {key' : Key} (h : keyRange level key = some r)
    (h' : keyRange level key' = some r) : key = key' := by
  have hform : ∀ k, keyRange level k = some r →
      level = 0 ∧ k = .changeset none .live r.min ∨ level ≠ 0 ∧ k = mergedKey level r := by
    intro k hk
    match k with
    | .changeset none .live seq =>
      simp only [keyRange] at hk
      split at hk
      · cases hk
        exact .inl ⟨by assumption, rfl⟩
      · cases hk
    | .merged l min max =>
      simp only [keyRange] at hk
      split at hk
      · rename_i hc
        cases hk
        obtain ⟨rfl, hpos, _⟩ := hc
        exact .inr ⟨ne_of_gt hpos, rfl⟩
      · cases hk
    | .changeset (some _) _ _ => cases hk
    | .changeset none .snapshot _ => cases hk
    | .envelope _ => cases hk
  rcases hform key h with ⟨h0, hk⟩ | ⟨h0, hk⟩ <;> rcases hform key' h' with ⟨h0', hk'⟩ | ⟨h0', hk'⟩
  · rw [hk, hk']
  · exact absurd h0 h0'
  · exact absurd h0' h0
  · rw [hk, hk']

variable {b b' : Bucket} {level : Level} {r : SeqRange}

theorem mem_shelves (hkey : keyRange level key = some r) : r ∈ shelves b level ↔ (b.get key).isSome := by
  constructor
  · rintro ⟨key', hkey', hget⟩
    rwa [keyRange_inj hkey hkey']
  · exact fun hget => ⟨key, hkey, hget⟩

theorem shelves_le (h : r ∈ shelves b level) : r.min ≤ r.max := by
  obtain ⟨key, hkey, _⟩ := h
  exact keyRange_le hkey

/-- Two buckets whose keys differ in what `change` says have shelves that differ so. -/
theorem shelves_congr {S : Shelves} (h : ∀ j key r, keyRange j key = some r → ((b.get key).isSome ↔ r ∈ S j))
    (hS : ∀ j r, r ∈ S j → ∃ key, keyRange j key = some r) : shelves b = S := by
  funext j
  ext r
  constructor
  · rintro ⟨key, hkey, hget⟩
    exact (h j key r hkey).mp hget
  · intro hr
    obtain ⟨key, hkey⟩ := hS j r hr
    exact ⟨key, hkey, (h j key r hkey).mpr hr⟩

theorem shelves_put (v : Bytes) (hkey : keyRange level key = some r) :
    shelves (b.put key v) = (shelves b).add level r := by
  refine shelves_congr (fun j k x hk => ?_) fun j x hx => ?_
  · rw [Shelves.mem_add, mem_shelves hk]
    by_cases heq : k = key
    · subst heq
      have hj : j = level := keyRange_level_unique (by rw [hk]; rfl) (by rw [hkey]; rfl)
      subst hj
      obtain rfl := Option.some.inj (hk.symm.trans hkey)
      simp
    · rw [Store.get_put_of_ne _ _ heq]
      refine ⟨.inl, fun h => h.resolve_right ?_⟩
      rintro ⟨rfl, rfl⟩
      exact heq (keyRange_inj hk hkey)
  · rcases Shelves.mem_add.mp hx with ⟨k, hk, _⟩ | ⟨rfl, rfl⟩
    · exact ⟨k, hk⟩
    · exact ⟨key, hkey⟩

theorem shelves_eraseAll {files : List LayoutFile} (hfiles : ∀ f ∈ files, keyRange level f.key = some f.range) :
    shelves (eraseAll b files) = (shelves b).remove level {r | r ∈ rangesOf files} := by
  refine shelves_congr (fun j k x hk => ?_) fun j x hx => ?_
  · rw [Shelves.mem_remove, mem_shelves hk, get_eraseAll]
    split
    · rename_i hdel
      obtain ⟨f, hf, rfl⟩ := hdel
      have hj : j = level := keyRange_level_unique (by rw [hk]; rfl) (by rw [hfiles f hf]; rfl)
      subst hj
      obtain rfl := Option.some.inj (hk.symm.trans (hfiles f hf))
      simp only [Option.isSome_none, Bool.false_eq_true, false_iff, not_and, not_forall, not_not]
      exact fun _ => ⟨trivial, mem_map_of_mem hf⟩
    · rename_i hdel
      refine ⟨fun h => ⟨h, ?_⟩, fun h => h.1⟩
      rintro rfl hmem
      obtain ⟨f, hf, rfl⟩ := mem_map.mp hmem
      exact hdel ⟨f, hf, keyRange_inj (hfiles f hf) hk⟩
  · obtain ⟨k, hk, _⟩ := (Shelves.mem_remove.mp hx).1
    exact ⟨k, hk⟩

theorem shelves_erase (hkey : keyRange level key = some r) :
    shelves (b.erase key) = (shelves b).remove level {r} := by
  have := @shelves_eraseAll b level [⟨key, level, r, 0⟩] (fun f hf => by
    obtain rfl := mem_singleton.mp hf
    exact hkey)
  simpa [eraseAll, rangesOf] using this

/-! ## Spans -/

/-- The seqs of a range. -/
def SeqRange.seqs (r : SeqRange) : Set Nat := {n | r.min ≤ n ∧ n ≤ r.max}

/-- The ranges `run` of one level adjoin each other and make up `s`. -/
structure Spans (A : Set SeqRange) (run : List SeqRange) (s : SeqRange) : Prop where
  nonempty : run ≠ []
  mem : ∀ r ∈ run, r ∈ A
  chain : run.IsChain SeqRange.Adj
  first : ∀ r ∈ run.head?, r.min = s.min
  last : ∀ r ∈ run.getLast?, r.max = s.max

/-- Adjoining ranges cover what lies between their ends. -/
theorem seqs_of_chain {first : SeqRange} {rest : List SeqRange}
    (hchain : (first :: rest).IsChain SeqRange.Adj) {n : Nat} (hmin : first.min ≤ n)
    (hmax : ∀ r ∈ (first :: rest).getLast?, n ≤ r.max) : ∃ r ∈ first :: rest, n ∈ r.seqs := by
  induction rest generalizing first with
  | nil => exact ⟨first, mem_cons_self, hmin, hmax first rfl⟩
  | cons a rest ih =>
    obtain ⟨hadj, htail⟩ := isChain_cons_cons.mp hchain
    have hadj : first.max + 1 = a.min := hadj
    by_cases hn : n ≤ first.max
    · exact ⟨first, mem_cons_self, hmin, hn⟩
    · obtain ⟨r, hr, hnr⟩ := ih htail (by omega) hmax
      exact ⟨r, mem_cons_of_mem _ hr, hnr⟩

namespace Spans

variable {A : Set SeqRange} {run : List SeqRange} {s : SeqRange}

theorem cover (h : Spans A run s) {n : Nat} (hn : n ∈ s.seqs) : ∃ r ∈ run, n ∈ r.seqs := by
  obtain ⟨a, run, rfl⟩ := exists_cons_of_ne_nil h.nonempty
  exact seqs_of_chain h.chain (by rw [h.first a rfl]; exact hn.1) fun r hr => by
    rw [h.last r hr]
    exact hn.2

theorem within (h : Spans A run s) (hA : ∀ r ∈ A, r.min ≤ r.max) (hr : r ∈ run) :
    s.min ≤ r.min ∧ r.max ≤ s.max := by
  obtain ⟨a, run, rfl⟩ := exists_cons_of_ne_nil h.nonempty
  have hw := chain_within h.chain (fun x hx => hA x (h.mem x hx)) hr
  rw [h.first a rfl, h.last _ (getLast?_eq_some_getLast (cons_ne_nil _ _))] at hw
  exact hw

theorem le (h : Spans A run s) (hA : ∀ r ∈ A, r.min ≤ r.max) : s.min ≤ s.max := by
  obtain ⟨a, run, rfl⟩ := exists_cons_of_ne_nil h.nonempty
  have hw := h.within hA mem_cons_self
  have := hA a (h.mem a mem_cons_self)
  omega

end Spans

/-! ## Runs as changes of shelves -/

variable {env : Env} {c : Call}

theorem FileAt.mem_shelves {f : LayoutFile} (h : FileAt env b level f) : f.range ∈ shelves b level := by
  obtain ⟨_, ⟨bytes, hbytes, _⟩, _⟩ := h.header
  exact ⟨f.key, h.range_eq, by rw [hbytes]; rfl⟩

theorem Listing.mem_ranges {all : List LayoutFile} (h : Listing env b level all) :
    r ∈ rangesOf all ↔ r ∈ shelves b level := by
  constructor
  · intro hr
    obtain ⟨f, hf, rfl⟩ := mem_map.mp hr
    exact (h.fileAt f hf).mem_shelves
  · rintro ⟨key, hkey, hget⟩
    obtain ⟨f, hf, rfl⟩ := h.complete key (by rw [hkey]; rfl) hget
    obtain rfl := Option.some.inj ((h.fileAt f hf).range_eq.symm.trans hkey)
    exact mem_map_of_mem hf

theorem Batch.spans {all targets rest : List LayoutFile} {first : LayoutFile}
    (h : Batch env b c all targets first rest) :
    Spans (shelves b c.level) (rangesOf (first :: rest)) (spanOf first rest) where
  nonempty := cons_ne_nil _ _
  mem r hr := by
    obtain ⟨f, hf, rfl⟩ := mem_map.mp hr
    exact (h.fileAt hf).mem_shelves
  chain := h.adjoining
  first r hr := by
    cases hr
    rfl
  last r hr := by
    rw [rangesOf, List.getLast?_map, getLast?_eq_some_getLast (cons_ne_nil _ _)] at hr
    cases hr
    rfl

/-- `s` is the span of a batch the call can select. -/
def Picked (env : Env) (b : Bucket) (c : Call) (s : SeqRange) : Prop :=
  ∃ all targets first rest, Batch env b c all targets first rest ∧ s = spanOf first rest

/-- What a run does to the shelves, given which spans it can pick. -/
inductive Change (S : Shelves) (level : Level) (picked : SeqRange → Prop) : Shelves → Prop
  /-- Ranges of the source level go, each within one of the target level. -/
  | trimmed {D : Set SeqRange}
      (hcover : ∀ r ∈ D, ∃ m ∈ S (level + 1), m.min ≤ r.min ∧ r.max ≤ m.max) :
      Change S level picked (S.remove level D)
  /-- The span of a run goes from the target level, and the run is there. -/
  | dropped {run : List SeqRange} {s : SeqRange} (hrun : Spans (S level) run s) (hs : picked s) :
      Change S level picked (S.remove (level + 1) {s})
  /-- The span of a run comes to the target level, and some of the run go. -/
  | stored {run : List SeqRange} {s : SeqRange} (hrun : Spans (S level) run s) (hs : picked s)
      {D : Set SeqRange} (hD : ∀ r ∈ D, r ∈ run) :
      Change S level picked ((S.add (level + 1) s).remove level D)

theorem Shelves.remove_empty (S : Shelves) (level : Level) : S.remove level ∅ = S := by
  simp [Shelves.remove]

/-- **Every bucket a run can leave, on the shelves.** -/
theorem Effect.change (h : Effect env b c b') :
    Change (shelves b) c.level (Picked env b c) (shelves b') := by
  cases h with
  | unchanged =>
    have := @Change.trimmed (shelves b) c.level (Picked env b c) ∅ fun r hr => (by cases hr)
    rwa [Shelves.remove_empty] at this
  | @converged all targets deletable hleft k =>
    have hfile : ∀ f ∈ deletable.take k, f ∈ all ∧
        ∃ m ∈ targets, rangeSubset f.range m.range = true := by
      intro f hf
      obtain ⟨m, hm, _, hcov⟩ := hleft.justified f (mem_of_mem_take hf)
      obtain ⟨hfall, hsub⟩ := mem_filter.mp hcov
      exact ⟨hfall, m, hm, hsub⟩
    rw [shelves_eraseAll fun f hf => (hleft.listed.fileAt f (hfile f hf).1).range_eq]
    refine .trimmed fun r hr => ?_
    obtain ⟨f, hf, rfl⟩ := mem_map.mp hr
    obtain ⟨_, m, hm, hsub⟩ := hfile f hf
    exact ⟨m.range, (hleft.targetsListed.fileAt m hm).mem_shelves, rangeSubset_iff.mp hsub⟩
  | @recovered all targets rest first existing hbatch hmem hrange hsound k =>
    rw [shelves_eraseAll fun f hf => (hbatch.fileAt (mem_of_mem_take hf)).range_eq]
    refine .trimmed fun r hr => ?_
    obtain ⟨f, hf, rfl⟩ := mem_map.mp hr
    refine ⟨existing.range, (hbatch.targetsListed.fileAt existing hmem).mem_shelves, ?_⟩
    rw [hrange]
    exact rangeSubset_iff.mp (hbatch.within (mem_of_mem_take hf))
  | dropped hbatch hadm =>
    rw [shelves_erase (keyRange_span hbatch)]
    exact .dropped hbatch.spans ⟨_, _, _, _, hbatch, rfl⟩
  | stored hbatch hadm hmerge hstored =>
    rw [shelves_put _ (keyRange_span hbatch), ← Shelves.remove_empty (Shelves.add _ _ _) c.level]
    exact .stored hbatch.spans ⟨_, _, _, _, hbatch, rfl⟩ fun r hr => (by cases hr)
  | @swapped all targets rest first result stored hbatch hadm hmerge hstored hback k =>
    rw [shelves_eraseAll fun f hf => (hbatch.fileAt (mem_of_mem_take hf)).range_eq,
      shelves_put _ (keyRange_span hbatch)]
    refine .stored hbatch.spans ⟨_, _, _, _, hbatch, rfl⟩ fun r hr => ?_
    obtain ⟨f, hf, rfl⟩ := mem_map.mp hr
    exact mem_map_of_mem (mem_of_mem_take hf)

end Compaction
end Walrust
