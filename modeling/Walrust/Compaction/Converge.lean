import Walrust.Compaction.Resume

/-!
# `Walrust.Compaction.Converge` — when re-runs converge

A run that is stopped after it wrote its merged object and before its first delete is completed by a later run
only if that run selects the same sources. Selection is greedy, so this can fail: a batch that was cut short by
the end of the listing is extended by the next file that arrives, and its range no longer equals the stored
one. From then on every run reports the overlap.

* `Meets` — the condition under which this does not happen, run by run;
* `Reaches.tidy` — along runs that meet it the shelves stay tidy;
* `healthy_run_returns` — on a healthy storage every call then returns.
-/

namespace Walrust
namespace Compaction

open Hadbp Lib List Function

/-- **The condition on a compaction run.** The age cutoff has not moved back; a selected batch begins after
    every object stored two levels above its sources; and if the run does not return, its batch was full, or
    the seq after the batch had been published and is no file of the level. -/
structure Meets (l : Ledger) (env : Env) (c : Call) (ops : Nat) : Prop where
  aged : c.level = 0 → l.cutoff ≤ c.cutoff
  above : ∀ all targets first rest, Batch env l.bucket c all targets first rest →
    ∀ x ∈ shelves l.bucket (c.level + 2), x.max < (spanOf first rest).min
  finishable : (∀ o s, c.run env ⟨l.bucket, ops⟩ ≠ .ok o s) → ∀ all targets first rest,
    Batch env l.bucket c all targets first rest → Finishable l.bucket l.head c first rest

variable {env : Env} {b b' : Bucket} {c : Call} {su : Setup} {l : Ledger}

/-- The shelves of a ledger are tidy. -/
def Ledger.Tidy (su : Setup) (l : Ledger) : Prop :=
  Compaction.Tidy su.batch l.head (Old l.bucket l.cutoff) (shelves l.bucket)

/-! ## The steps -/

theorem Old.mono {cutoff cutoff' : Int64} {r : SeqRange} (h : Old b cutoff r) (hle : cutoff ≤ cutoff')
    (hkeep : ∀ bytes, b'.get (.changeset none .live r.min) = some bytes →
      b.get (.changeset none .live r.min) = some bytes) : Old b' cutoff' r :=
  fun cs hcs => Int64.le_trans (h cs (hkeep _ hcs)) hle

/-- A run writes nothing to level 0. -/
theorem Effect.keeps_live (h : Effect env b c b') {seq : Nat} {bytes : Bytes}
    (hget : b'.get (.changeset none .live seq) = some bytes) :
    b.get (.changeset none .live seq) = some bytes := by
  have hne (range : SeqRange) : (.changeset none .live seq : Key) ≠ mergedKey (c.level + 1) range := by
    rintro ⟨⟩
  cases h with
  | unchanged => exact hget
  | converged _ k => exact get_of_get_eraseAll hget
  | recovered _ _ _ _ k => exact get_of_get_eraseAll hget
  | dropped _ _ => rwa [Store.get_erase] at hget
  | stored _ _ _ _ => rwa [Store.get_put_of_ne _ _ (hne _)] at hget
  | swapped _ _ _ _ _ k =>
    have hput := get_of_get_eraseAll hget
    rwa [Store.get_put_of_ne _ _ (hne _)] at hput

theorem Ledger.Tidy.publish (h : l.Tidy su) (hsound : l.Sound su) (cs : PhysicalChangeset) :
    (l.publish cs).Tidy su := by
  have hmax : ∀ j, ∀ r ∈ shelves l.bucket j, r.max ≤ l.head := fun j r hr => (hsound.max_le hr).2
  -- the ages of what was there do not change
  have hages : Compaction.Tidy su.batch l.head (Old (l.publish cs).bucket l.cutoff) (shelves l.bucket) := by
    refine Compaction.Tidy.mono h (le_refl _) fun r hr hold => hold.mono (Int64.le_refl _) fun bytes hget => ?_
    have hget : (l.bucket.put (.changeset none .live (l.head + 1)) cs.wire).get _ = some bytes := hget
    have hle := shelves_le hr
    have := hmax 0 r hr
    rw [Store.get_put_of_ne _ _ (by
      intro heq
      injection heq with _ _ heq
      omega)] at hget
    exact hget
  have hnew := hages.publish hmax
  rw [← shelves_put cs.wire (keyRange_live (l.head + 1))] at hnew
  exact hnew

theorem Ledger.Tidy.snapshot (h : l.Tidy su) (bytes : Bytes) (checksum : UInt64) :
    (l.snapshot bytes checksum).Tidy su := by
  have hages : Compaction.Tidy su.batch l.head (Old (l.snapshot bytes checksum).bucket l.cutoff)
      (shelves l.bucket) := by
    refine Compaction.Tidy.mono h (le_refl _) fun r _ hold => hold.mono (Int64.le_refl _) fun v hget => ?_
    have hget : (l.bucket.put (.changeset none .snapshot (l.head + 1)) bytes).get _ = some v := hget
    rw [Store.get_put_of_ne _ _ (by simp)] at hget
    exact hget
  have hnew := hages.mono (Nat.le_succ l.head) fun _ _ hold => hold
  rw [← shelves_snapshot l.bucket (l.head + 1) bytes] at hnew
  exact hnew

section Run

variable {batch : Level → Nat} {head : Nat} {old : SeqRange → Prop} {pageSize : UInt32} {val : Nat → UInt64}

/-- What a stopped run does to tidy shelves, given the condition on its batch. -/
theorem Effect.tidy (h : Effect env b c b') (ht : Tidy batch head old (shelves b))
    (hst : Stocked env.ph.sha64 pageSize val b) (hbatch : c.batch = batch c.level)
    (hold : c.level = 0 → ∀ r, Old b c.cutoff r → old r)
    (habove : ∀ all targets first rest, Batch env b c all targets first rest →
      ∀ x ∈ shelves b (c.level + 2), x.max < (spanOf first rest).min)
    (hfin : ∀ all targets first rest, Batch env b c all targets first rest →
      Finishable b head c first rest) :
    Tidy batch head old (shelves b') := by
  cases h with
  | unchanged => exact ht
  | @converged all targets deletable hleft k =>
    rw [shelves_eraseAll fun f hf => (hleft.fileAt (mem_of_mem_take hf)).range_eq]
    exact ht.remove _ _
  | recovered hb hmem hrange hsound k =>
    rw [shelves_eraseAll fun f hf => (hb.fileAt (mem_of_mem_take hf)).range_eq]
    exact ht.remove _ _
  | dropped hb hadm =>
    rw [shelves_erase (keyRange_span hb)]
    exact ht.remove _ _
  | stored hb hadm hmerge hstored =>
    rw [shelves_put _ (keyRange_span hb), ← Shelves.remove_empty (.add _ _ _) c.level]
    exact hb.swap ht hadm (habove _ _ _ _ hb) fun _ => hb.resumable ht hst hbatch hold (hfin _ _ _ _ hb)
  | swapped hb hadm hmerge hstored hback k =>
    rw [shelves_eraseAll fun f hf => (hb.fileAt (mem_of_mem_take hf)).range_eq,
      shelves_put _ (keyRange_span hb)]
    exact hb.swap ht hadm (habove _ _ _ _ hb) fun _ => hb.resumable ht hst hbatch hold (hfin _ _ _ _ hb)

/-- A run that returns needs no such condition: its sources are gone. -/
theorem Completes.tidy {o : CompactionOutcome} (h : Completes env b c o b') (ht : Tidy batch head old (shelves b))
    (habove : ∀ all targets first rest, Batch env b c all targets first rest →
      ∀ x ∈ shelves b (c.level + 2), x.max < (spanOf first rest).min) :
    Tidy batch head old (shelves b') := by
  cases h with
  | idle => exact ht
  | @converged all targets deletable cover hne hleft =>
    rw [shelves_eraseAll fun f hf => (hleft.fileAt hf).range_eq]
    exact ht.remove _ _
  | recovered hb hmem hrange hsound =>
    rw [shelves_eraseAll fun f hf => (hb.fileAt hf).range_eq]
    exact ht.remove _ _
  | merged hb hadm hmerge hstored hback =>
    rw [shelves_eraseAll fun f hf => (hb.fileAt hf).range_eq, shelves_put _ (keyRange_span hb)]
    exact hb.swap ht hadm (habove _ _ _ _ hb) fun htiled => absurd htiled (hb.not_tiled ht)

end Run

/-- **A run that meets the condition keeps the ledger tidy.** -/
theorem Ledger.Tidy.compact {ops : Nat} (h : l.Tidy su) (hsound : l.Sound su) (hruns : su.Runs env c)
    (hmeets : Meets l env c ops) : (l.compact env c ops).Tidy su := by
  have hst := hsound.stocked
  rw [← hruns.codec] at hst
  have heffect := runLevelCompaction_effect env c ⟨l.bucket, ops⟩
  -- the new cutoff is no smaller than the old one, and at level 0 it is the call's
  have hages : Compaction.Tidy su.batch l.head (Old l.bucket (l.compact env c ops).cutoff)
      (shelves l.bucket) := by
    refine Compaction.Tidy.mono h (le_refl _) fun r _ hold => hold.mono ?_ fun _ hget => hget
    show l.cutoff ≤ if c.level = 0 then c.cutoff else l.cutoff
    split
    · exact hmeets.aged (by assumption)
    · exact Int64.le_refl _
  have hcall : c.level = 0 → ∀ r, Old l.bucket c.cutoff r → Old l.bucket (l.compact env c ops).cutoff r := by
    intro h0 r hold
    show Old l.bucket (if c.level = 0 then c.cutoff else l.cutoff) r
    rw [if_pos h0]
    exact hold
  have hnew : Compaction.Tidy su.batch l.head (Old l.bucket (l.compact env c ops).cutoff)
      (shelves (l.compact env c ops).bucket) := by
    have hspec := runLevelCompaction_spec env l.bucket c ⟨l.bucket, ops⟩ rfl
    cases hrun : c.run env ⟨l.bucket, ops⟩ with
    | ok o s =>
      rw [hrun] at hspec
      have hbucket : (l.compact env c ops).bucket = s.bucket := by
        show (leaves (c.run env ⟨l.bucket, ops⟩)).bucket = _
        rw [hrun]
        rfl
      rw [hbucket]
      exact Completes.tidy hspec hages hmeets.above
    | error e s =>
      exact heffect.tidy hages hst hruns.batch hcall hmeets.above
        (hmeets.finishable fun o s' heq => by rw [hrun] at heq; cases heq)
  exact hnew.mono (le_refl _) fun r _ hold =>
    hold.mono (Int64.le_refl _) fun _ hget => heffect.keeps_live hget

/-- **Along runs that meet the condition the shelves stay tidy.** -/
theorem Reaches.tidy (h : Reaches su Meets l) : l.Tidy su := by
  induction h with
  | start val cutoff =>
    have hnone : ∀ j r, r ∉ shelves (.empty : Bucket) j := by
      rintro j r ⟨key, hkey, hget⟩
      cases hget
    exact ⟨fun j r hr => absurd hr (hnone j r), fun j r hr => absurd hr (hnone j r),
      fun j r hr => absurd hr (hnone j r), fun j m hm => absurd hm (hnone _ m)⟩
  | publish hreach _ ih => exact ih.publish hreach.sound _
  | snapshot _ bytes checksum ih => exact ih.snapshot bytes checksum
  | compact hreach hruns hmeets ih => exact ih.compact hreach.sound hruns hmeets

/-! ## A healthy call returns -/

theorem isChain_of_adjacent {files : List LayoutFile} (h : Adjacent files = true) :
    (rangesOf files).IsChain SeqRange.Adj := by
  induction files with
  | nil => exact .nil
  | cons f files ih =>
    cases files with
    | nil => exact isChain_singleton _
    | cons g files =>
      simp only [Adjacent, Bool.and_eq_true, decide_eq_true_eq] at h
      exact isChain_cons_cons.mpr ⟨h.1, ih h.2⟩

/-- What `tiles_exactly` accepts tiles the range. -/
theorem tiled_of_tilesExactly {A : Set SeqRange} {subs : List LayoutFile} {m : SeqRange}
    (hsubs : ∀ f ∈ subs, f.range ∈ insideOf A m) (h : tilesExactly subs m = true) : Tiled A m := by
  unfold tilesExactly at h
  dsimp only at h
  cases hs : sortFiles subs with
  | nil =>
    rw [hs] at h
    cases h
  | cons f files =>
    rw [hs, List.head?_cons, getLast?_eq_some_getLast (cons_ne_nil f files)] at h
    simp only [Bool.and_eq_true, decide_eq_true_eq] at h
    obtain ⟨⟨hmin, hmax⟩, hadj⟩ := h
    intro n hn
    obtain ⟨r, hr, hnr⟩ := seqs_of_chain (isChain_of_adjacent hadj) (n := n)
      (le_of_eq_of_le hmin hn.1) fun r hr => by
        have hlast : r ∈ ((f :: files).map (·.range)).getLast? := hr
        rw [List.getLast?_map] at hlast
        cases hlast
        rw [hmax]
        exact hn.2
    have hr : r ∈ (f :: files).map (·.range) := hr
    obtain ⟨g, hg, rfl⟩ := mem_map.mp hr
    exact ⟨g.range, hsubs g ((sortFiles_perm subs).mem_iff.mp (hs ▸ hg)), hnr⟩

/-- On a sound and tidy ledger no target object overlaps a batch without having its range. -/
theorem Batch.no_overlap {all targets rest : List LayoutFile} {first m : LayoutFile}
    (hb : Batch env l.bucket c all targets first rest) (hsound : l.Sound su) (ht : l.Tidy su)
    (hruns : su.Runs env c) (haged : c.level = 0 → l.cutoff ≤ c.cutoff) (hm : m ∈ targets)
    (hne : m.range ≠ spanOf first rest) : rangesOverlap m.range (spanOf first rest) = false := by
  have hst := hsound.stocked
  rw [← hruns.codec] at hst
  have hmfile := hb.targetsListed.fileAt m hm
  have hmA := hmfile.mem_shelves
  by_contra hov
  obtain ⟨ho1, ho2⟩ := rangesOverlap_iff.mp (Bool.not_eq_false _ |>.mp hov)
  have hoverlap : ¬ m.range.Apart (spanOf first rest) := by
    rintro (h | h) <;> omega
  -- a file of the batch lies within `m`, so `m` has sources, and they were left to the recovery
  have hsle := hb.spans.le fun x hx => shelves_le hx
  have hmle := shelves_le hmA
  obtain ⟨x, hx, hn⟩ := hb.spans.cover (n := max m.range.min (spanOf first rest).min)
    ⟨le_max_right _ _, by omega⟩
  obtain ⟨f, hf, rfl⟩ := mem_map.mp hx
  have hin : f.range.Inside m.range := by
    refine (Compaction.Tidy.nested ht c.level f.range (hb.spans.mem _ hx) m.range hmA).resolve_right ?_
    have h1 := hn.1
    have h2 := hn.2
    rintro (hap | hap) <;> omega
  have hcov : f ∈ coveredBy all m := mem_filter.mpr ⟨hb.mem_all hf, rangeSubset_iff.mpr hin⟩
  have htiles : tilesExactly (coveredBy all m) m.range = true := by
    by_contra hno
    exact hb.settled m hm ((hst.converges_iff hb.listed.fileAt hmfile).mpr
      ⟨ne_nil_of_mem hcov, Bool.not_eq_true _ |>.mp hno⟩)
  refine hne (hb.exact ht hst hruns.batch (fun h0 r _ hold => ?_) hmA
    (tiled_of_tilesExactly (fun g hg => ?_) htiles) hoverlap)
  · exact hold.mono (haged h0) fun _ hget => hget
  · obtain ⟨hgall, hgsub⟩ := mem_filter.mp hg
    exact ⟨(hb.listed.fileAt g hgall).mem_shelves, rangeSubset_iff.mp hgsub⟩

/-- A healthy storage and a ledger reached under the condition give a run no cause to stop. -/
theorem Reaches.run_returns (hreach : Reaches su Meets l) (hruns : su.Runs env c) (hhealthy : env.Healthy)
    (haged : c.level = 0 → l.cutoff ≤ c.cutoff) (ops : Nat) :
    ∃ o s, c.run env ⟨l.bucket, ops⟩ = .ok o s ∧ Completes env l.bucket c o s.bucket := by
  have hsound := hreach.sound
  have ht := hreach.tidy
  have hst := hsound.stocked
  rw [← hruns.codec] at hst
  have hspec := runLevelCompaction_spec env l.bucket c ⟨l.bucket, ops⟩ rfl
  cases hrun : c.run env ⟨l.bucket, ops⟩ with
  | ok o s =>
    rw [hrun] at hspec
    exact ⟨o, s, rfl, hspec⟩
  | error e s =>
    rw [hrun] at hspec
    have hcause : Cause env l.bucket c e := hspec.2
    exfalso
    cases hcause with
    | sick hsick => exact hsick hhealthy
    | unreadable h => exact h.elim (fun h => h (hst.readable _)) fun h => h (hst.readable _)
    | scan hs htargets h =>
      rcases h with ⟨m, hm, hnone⟩ | ⟨f, hf, hun⟩
      · obtain ⟨cs, hcs, _⟩ := hst.file (htargets.fileAt m hm)
        rw [hnone] at hcs
        cases hcs
      · exact hst.not_unreadable (hs.fileAt f hf) hun
    | overlap hb hm hne ho =>
      rw [hb.no_overlap hsound ht hruns haged hm hne] at ho
      cases ho
    | merge hb h =>
      obtain ⟨result, cs, _, hmerge, hbytes, _⟩ := hst.merged (fun f hf => hb.fileAt hf) hb.adjoining
      obtain ⟨err, herr⟩ := h result hmerge
      rw [hbytes, ← readHeader_eq, readHeader_wire] at herr
      cases herr

/-- **Re-runs converge under the condition.** In every run of one writer and one compactor whose compaction
    runs all meet `Meets`, at whatever operation they stop, every later call on a healthy storage returns:
    there is nothing to do, or sources are merged or deleted. -/
theorem healthy_run_returns (su : Setup) (l : Ledger) (hreach : Reaches su Meets l) (env : Env) (c : Call)
    (ops : Nat) (hruns : su.Runs env c) (hhealthy : env.Healthy)
    (haged : c.level = 0 → l.cutoff ≤ c.cutoff) :
    ∃ o s, c.run env ⟨l.bucket, ops⟩ = .ok o s ∧ (o = .noOp ∨ 0 < o.mergedCount) := by
  obtain ⟨o, s, hrun, hdone⟩ := hreach.run_returns hruns hhealthy haged ops
  refine ⟨o, s, hrun, ?_⟩
  generalize s.bucket = b' at hdone
  cases hdone with
  | idle => exact .inl rfl
  | converged hne _ => exact .inr (length_pos_of_ne_nil hne)
  | recovered _ _ _ _ => exact .inr (Nat.succ_pos _)
  | merged _ _ _ _ _ => exact .inr (Nat.succ_pos _)

/-! ### The one-page database with snapshots -/

/-- The setup of the one-page database, with one batch size for all levels. -/
def foldSetup (batch : Nat) : Setup := ⟨verifyingOf foldSha64, 512, fun _ => batch⟩

/-- The next incremental of the one-page database. -/
def Ledger.foldPublish (l : Ledger) : Ledger := l.publish (foldObject (l.head + 1) (l.head + 1) none)

/-- A snapshot of the one-page database. -/
def Ledger.foldSnapshot (l : Ledger) : Ledger :=
  l.snapshot (foldObject (l.head + 1) (l.head + 1) none).wire (foldChain (l.head + 1))

/-- The database after its first snapshot. -/
def foldStart : Ledger := Ledger.foldSnapshot ⟨.empty, 0, fun _ => 0, ∅, 0⟩

theorem foldObject_wellFormed {k : Nat} : (foldObject k k none).WellFormed foldSha64 where
  flags := by
    show (0x01 : UInt8) &&& flagCompacted = 0
    decide
  ascending := by
    show AscendingIds (foldPages (UInt8.ofNat k))
    simp [AscendingIds, foldPages, PageId.toU64]
  idSize := by
    intro p hp
    rcases mem_cons.mp hp with rfl | hp
    · rfl
    · rw [mem_singleton.mp hp]
      rfl
  dataLen := by
    intro p hp
    rcases mem_cons.mp hp with rfl | hp
    · simp
    · rw [mem_singleton.mp hp]
      simp
  pageCount := rfl
  checksum := rfl

theorem foldObject_valid {k : Nat} : Ltx.Valid (foldObject k k none) (some 1) where
  pageSize := by
    show Ltx.validateSqlitePageSize 512 = .ok 512
    decide
  flags := by
    show (0x01 : UInt8) &&& (~~~ Ltx.flagEndPageCountMarker) = 0
    decide
  idSize := rfl
  count := rfl
  marker := by
    refine Ltx.changesetEndPageCount_some.mpr ⟨?_, ⟨.u32 2, []⟩, ?_, rfl⟩
    · show (0x01 : UInt8) &&& Ltx.flagEndPageCountMarker ≠ 0
      decide
    · show (foldPages (UInt8.ofNat k)).filter _ = _
      simp [foldPages]
  pageNum := by
    intro p hp
    rcases mem_cons.mp hp with rfl | hp
    · exact one_ne_zero
    · rw [mem_singleton.mp hp]
      decide
  bound := by
    intro p hp hd e he
    injection he with he
    rcases mem_cons.mp hp with rfl | hp
    · subst he
      exact le_refl 1
    · rw [mem_singleton.mp hp] at hd
      exact absurd rfl hd
  dataLen := by
    intro p hp hd
    rcases mem_cons.mp hp with rfl | hp
    · simp [foldObject]
    · rw [mem_singleton.mp hp] at hd
      exact absurd rfl hd

theorem foldNext {batch : Nat} {l : Ledger} (hval : l.val l.head = foldChain l.head) (hlt : l.head + 1 < 2 ^ 64) :
    (foldSetup batch).Next l (foldObject (l.head + 1) (l.head + 1) none) where
  wellFormed := foldObject_wellFormed
  valid := ⟨1, foldObject_valid⟩
  pageSize := rfl
  seq := by
    show (UInt64.ofNat (l.head + 1)).toNat = l.head + 1
    exact Nat.mod_eq_of_lt hlt
  prev := by
    show foldChain l.head = update l.val (l.head + 1) _ (l.head + 1 - 1)
    rw [Nat.add_sub_cancel, update_of_ne (ne_of_lt (lt_add_one _)), hval]
  chained := by
    show _ = update l.val (l.head + 1) _ (l.head + 1)
    rw [update_self]
    rfl
  compacted := rfl

theorem foldEnv_healthy : foldEnv.Healthy := fun _ => rfl

theorem crashAt_faithful (k : Nat) : (crashAt k).Faithful := by
  intro n stored h
  have h : (if n = k then Fault.crash else .none) = .garbles stored := h
  split at h <;> cases h

theorem Batch.full_of_two {all targets rest : List LayoutFile} {first : LayoutFile}
    (h : Batch env b c all targets first rest) (h2 : c.batch = 2) : (first :: rest).length = c.batch := by
  obtain ⟨_, _, _, _, _, hcut⟩ := h.cut
  have hcap := hcut.front.capped
  have hworth := hcut.worth
  simp only [rangesOf, length_map] at hcap hworth
  omega

/-- Two incrementals, a run over them that crashed before its first delete. -/
def interrupted : Ledger :=
  foldStart.foldPublish.foldPublish.compact (crashAt 11) ⟨0, 2, 0, 0⟩ 0

theorem foldTwo_reaches : Reaches (foldSetup 2) Meets foldStart.foldPublish.foldPublish :=
  .publish (.publish (.snapshot (.start _ _) _ _) (foldNext (by decide +kernel) (by decide)))
    (foldNext (by decide +kernel) (by decide))

/-- The two incrementals are all there is above the snapshot. -/
theorem foldTwo_above (level : Level) : shelves foldStart.foldPublish.foldPublish.bucket (level + 1) = ∅ := by
  refine Set.eq_empty_of_forall_notMem fun x hx => ?_
  have hx : x ∈ shelves ((.put _ (.changeset none .live 3) _ : Bucket)) (level + 1) := hx
  rw [shelves_put _ (keyRange_live 3)] at hx
  have hx : x ∈ shelves ((.put _ (.changeset none .live 2) _ : Bucket)) (level + 1) :=
    (Shelves.mem_add.mp hx).resolve_right fun h => absurd h.1 (Nat.succ_ne_zero _)
  rw [shelves_put _ (keyRange_live 2)] at hx
  have hx : x ∈ shelves ((.put .empty (.changeset none .snapshot 1) _ : Bucket)) (level + 1) :=
    (Shelves.mem_add.mp hx).resolve_right fun h => absurd h.1 (Nat.succ_ne_zero _)
  rw [shelves_snapshot] at hx
  obtain ⟨_, _, hget⟩ := hx
  cases hget

theorem foldTwo_meets (env : Env) : Meets foldStart.foldPublish.foldPublish env ⟨0, 2, 0, 0⟩ 0 where
  aged := fun _ => by decide
  above := by
    intro all targets first rest _ x hx
    rw [foldTwo_above] at hx
    cases hx
  finishable := fun _ all targets first rest hb => .inl (hb.full_of_two rfl)

/-- The interrupted run has stored its object, deleted nothing, and met the condition; the next call
    returns. -/
theorem healthy_run_returns_interrupted : ∃ (su : Setup) (l : Ledger) (env : Env) (c : Call),
    Reaches su Meets l ∧ su.Runs env c ∧ env.Healthy ∧
    (l.bucket.get (.changeset none .live 2)).isSome ∧ (l.bucket.get (.changeset none .live 3)).isSome ∧
    (l.bucket.get (.merged 1 2 3)).isSome ∧
    ∃ o s, c.run env ⟨l.bucket, 0⟩ = .ok o s ∧ (o = .noOp ∨ 0 < o.mergedCount) := by
  have hreach : Reaches (foldSetup 2) Meets interrupted :=
    .compact foldTwo_reaches ⟨rfl, crashAt_faithful 11, rfl⟩ (foldTwo_meets _)
  have hruns : (foldSetup 2).Runs foldEnv ⟨0, 2, 0, 0⟩ := ⟨rfl, foldEnv_healthy.faithful, rfl⟩
  refine ⟨foldSetup 2, interrupted, foldEnv, ⟨0, 2, 0, 0⟩, hreach, hruns, fun _ => rfl, by decide +kernel,
    by decide +kernel, by decide +kernel, ?_⟩
  exact healthy_run_returns _ _ hreach _ _ 0 hruns foldEnv_healthy fun _ => by decide

/-- The bucket after `k` further calls. -/
def afterCalls (env : Env) (c : Call) : Nat → Bucket → Bucket
  | 0, b => b
  | k + 1, b => afterCalls env c k (leaves (c.run env ⟨b, 0⟩)).bucket

/-- A call that leaves its bucket as it was does so every time. -/
theorem afterCalls_of_stuck {env : Env} (h : (leaves (c.run env ⟨b, 0⟩)).bucket = b)
    (k : Nat) : afterCalls env c k b = b := by
  induction k with
  | zero => rfl
  | succ k ih => rw [afterCalls, h, ih]

/-- The error a program stopped with, if it did. -/
def stoppedWith {α : Type} : EStateM.Result Halt Storage α → Option Halt
  | .ok _ _ => none
  | .error e _ => some e

def reportsOverlap : Option Halt → Bool
  | some (.err (.overlappingExisting _)) => true
  | _ => false

theorem overlap_of_reports {e : Option Halt} (h : reportsOverlap e = true) :
    ∃ msg, e = some (.err (.overlappingExisting msg)) := by
  unfold reportsOverlap at h
  split at h
  · exact ⟨_, rfl⟩
  · cases h

/-- Incrementals 2, 4 and 5 with a snapshot at 3; a run over the short batch 4, 5 crashes before its first
    delete; then 6 is published. -/
def extended : Ledger :=
  (foldStart.foldPublish.foldSnapshot.foldPublish.foldPublish.compact (crashAt 12) ⟨0, 3, 0, 0⟩ 0).foldPublish

/-- **A short batch that was interrupted and then extended never converges**: the stored object 4-5 is tiled by
    its sources, so it is left to the exact-range recovery, and the batch is now 4-6. Every call reports the
    overlap. -/
theorem extended_never_converges : ∃ (su : Setup) (l : Ledger) (env : Env) (c : Call),
    Reaches su (fun _ _ _ _ => True) l ∧ su.Runs env c ∧ env.Healthy ∧ 2 ≤ c.batch ∧
    ∀ k, ∃ msg, stoppedWith (c.run env ⟨afterCalls env c k l.bucket, 0⟩) =
      some (.err (.overlappingExisting msg)) := by
  have hreach : Reaches (foldSetup 3) (fun _ _ _ _ => True) extended := by
    refine .publish (.compact (.publish (.publish (.snapshot (.publish (.snapshot (.start _ _) _ _) ?_) _ _)
      ?_) ?_) ⟨rfl, crashAt_faithful 12, rfl⟩ trivial) ?_
    all_goals exact foldNext (by decide +kernel) (by decide)
  have hstuck : (leaves (Call.run ⟨0, 3, 0, 0⟩ foldEnv ⟨extended.bucket, 0⟩)).bucket = extended.bucket :=
    Store.eq_of_entries (by decide +kernel)
  refine ⟨foldSetup 3, extended, foldEnv, ⟨0, 3, 0, 0⟩, hreach, ⟨rfl, foldEnv_healthy.faithful, rfl⟩,
    foldEnv_healthy, by decide, fun k => ?_⟩
  rw [afterCalls_of_stuck hstuck]
  exact overlap_of_reports (by decide +kernel)

end Compaction
end Walrust
