import Walrust.Compaction.Driver

/-!
# `Walrust.Compaction.Triggers` — the counts that decide when a tick touches storage

`maybe_compact_owned` keeps two counts in memory: the files of level 0 and of level 1 it believes are not
yet folded. Everything between two ticks runs beside them: a `flush` publishes without telling them, a sync
may store its file and then report a failure.

* `Counted` — the counts are no smaller than the levels; `tick_counted` is what one tick keeps;
* `counts_never_short` — over whole runs of the replicator.
-/

namespace Walrust
namespace Compaction

open Lib List

variable {env : Env} {b : Bucket} {c : Call} {level : Level}

variable {b' : Bucket} {t : CompactionTriggers}

/-! ## Counting a level -/

theorem countLevel_erase (b : Bucket) (key : Key) (level : Level) :
    countLevel (b.erase key) level =
      countLevel b level - if key ∈ b.keys ∧ (keyRange level key).isSome then 1 else 0 := by
  unfold countLevel
  rw [Store.keys_erase, countP_erase]

theorem countLevel_erase_le (b : Bucket) (key : Key) (level : Level) :
    countLevel (b.erase key) level ≤ countLevel b level := by
  rw [countLevel_erase]
  exact Nat.sub_le _ _

theorem countLevel_put_le (b : Bucket) (key : Key) (v : Bytes) (level : Level) :
    countLevel (b.put key v) level ≤ countLevel b level + if (keyRange level key).isSome then 1 else 0 := by
  have hle := countLevel_erase_le b key level
  unfold countLevel at hle ⊢
  rw [Store.keys_erase] at hle
  rw [Store.keys_put, countP_append, countP_singleton]
  omega

theorem countLevel_eraseAll_le (files : List LayoutFile) (b : Bucket) (level : Level) :
    countLevel (eraseAll b files) level ≤ countLevel b level := by
  induction files generalizing b with
  | nil => exact le_refl _
  | cons f fs ih => exact (ih (b.erase f.key)).trans (countLevel_erase_le b f.key level)

/-- Files of one level, each present and listed once, leave the level one file poorer each. -/
theorem countLevel_eraseAll {files : List LayoutFile} (honce : (files.map (·.key)).Nodup)
    (hfiles : ∀ f ∈ files, (b.get f.key).isSome ∧ (keyRange level f.key).isSome) :
    countLevel (eraseAll b files) level + files.length = countLevel b level := by
  induction files generalizing b with
  | nil => rfl
  | cons f fs ih =>
    obtain ⟨hf, honce⟩ := nodup_cons.mp honce
    obtain ⟨hstored, hlevel⟩ := hfiles f mem_cons_self
    have hmem : f.key ∈ b.keys := Store.mem_keys.mpr hstored
    have hpos : 0 < countLevel b level := countP_pos_iff.mpr ⟨_, hmem, hlevel⟩
    have hrest : countLevel (eraseAll (b.erase f.key) fs) level + fs.length =
        countLevel (b.erase f.key) level := by
      apply ih honce
      intro g hg
      refine ⟨?_, (hfiles g (mem_cons_of_mem _ hg)).2⟩
      have hne : g.key ≠ f.key := fun heq => hf (mem_map.mpr ⟨g, hg, heq⟩)
      rw [Store.get_erase, if_neg hne]
      exact (hfiles g (mem_cons_of_mem _ hg)).1
    rw [countLevel_erase, if_pos ⟨hmem, hlevel⟩] at hrest
    show countLevel (eraseAll (b.erase f.key) fs) level + (fs.length + 1) = _
    omega

theorem FileAt.stored {f : LayoutFile} (h : FileAt env b level f) :
    (b.get f.key).isSome ∧ (keyRange level f.key).isSome := by
  obtain ⟨_, hheader, _⟩ := h.header
  refine ⟨?_, by rw [h.range_eq]; rfl⟩
  cases hget : b.get f.key with
  | none => simp [HeaderAt, hget] at hheader
  | some bytes => rfl

theorem Batch.once {all targets rest : List LayoutFile} {first : LayoutFile}
    (h : Batch env b c all targets first rest) : ((first :: rest).map (·.key)).Nodup := by
  obtain ⟨_, start, len, _, heq⟩ := selectSources_eq_some.mp h.selected
  rw [← heq]
  exact h.listed.nodup.sublist (((take_sublist _ _).trans (drop_sublist _ _)).map _)

/-! ## What a run does to the counts of its levels -/

/-- A run that returns takes as many files from its level as it reports, and adds at most one file to the
    next level, and none unless it reports some. -/
theorem Completes.counts {o : CompactionOutcome} (h : Completes env b c o b') :
    countLevel b' c.level + o.mergedCount ≤ countLevel b c.level ∧
      countLevel b' (c.level + 1) ≤ countLevel b (c.level + 1) + min 1 o.mergedCount := by
  cases h with
  | idle => exact ⟨le_refl _, Nat.le_add_right _ _⟩
  | @converged all targets deletable cover hne h =>
    refine ⟨le_of_eq (countLevel_eraseAll h.once fun f hf => ?_),
      (countLevel_eraseAll_le _ _ _).trans (Nat.le_add_right _ _)⟩
    exact (h.fileAt hf).stored
  | @recovered all targets rest first existing hbatch hmem hrange hsound =>
    refine ⟨le_of_eq (countLevel_eraseAll hbatch.once fun f hf => ?_),
      (countLevel_eraseAll_le _ _ _).trans (Nat.le_add_right _ _)⟩
    exact (hbatch.listed.fileAt f (hbatch.mem_all hf)).stored
  | @merged all targets rest first output result stored hbatch hadm hmerge hstored hback =>
    have hput := countLevel_put_le b (c.target first rest) stored
    constructor
    · -- the output is no file of the source level
      have hlevel : (keyRange c.level (c.target first rest)).isSome = false := by
        rw [Bool.eq_false_iff]
        exact fun h => keyRange_mergedKey_ne h rfl
      have hless := hput c.level
      rw [hlevel] at hless
      have herased := @countLevel_eraseAll (b.put (c.target first rest) stored) c.level _
        hbatch.once fun f hf => by
          have hf' := (hbatch.listed.fileAt f (hbatch.mem_all hf)).stored
          rw [Store.get_put_of_ne _ _ (hbatch.key_ne hf)]
          exact hf'
      exact (le_of_eq herased).trans hless
    · refine (countLevel_eraseAll_le _ _ _).trans ((hput (c.level + 1)).trans ?_)
      apply Nat.add_le_add_left
      show _ ≤ min 1 (rest.length + 1)
      split <;> omega

/-- A run touches no level but its own and the next. -/
theorem Effect.counts_other (h : Effect env b c b') (hown : level ≠ c.level + 1) :
    countLevel b' level ≤ countLevel b level := by
  have hput (range : SeqRange) (v : Bytes) :
      countLevel (b.put (mergedKey (c.level + 1) range) v) level ≤ countLevel b level := by
    refine (countLevel_put_le _ _ _ _).trans ?_
    rw [if_neg fun hsome => hown ?_]
    · exact le_refl _
    · simp only [mergedKey, keyRange, Option.isSome_ite] at hsome
      exact hsome.1.symm
  cases h with
  | unchanged => exact le_refl _
  | converged h k => exact countLevel_eraseAll_le _ _ _
  | recovered hbatch hmem hrange hsound k => exact countLevel_eraseAll_le _ _ _
  | dropped hbatch hadm => exact countLevel_erase_le _ _ _
  | stored hbatch hadm hmerge hstored => exact hput _ _
  | swapped hbatch hadm hmerge hstored hback k => exact (countLevel_eraseAll_le _ _ _).trans (hput _ _)

/-! ## The replicator's steps -/

/-- What the replicator's steps share: the bucket, and the counts once a tick has seeded them. -/
structure Replicator where
  bucket : Bucket
  triggers : Option CompactionTriggers

/-- The bucket after a sync that stored `file` at level 0, if any. -/
def published (b : Bucket) : Option (Nat × Bytes) → Bucket
  | none => b
  | some (seq, bytes) => b.put (.changeset none .live seq) bytes

/-- The steps of an owned-mode replicator. The file a sync stores is whatever it stored, reported or not. -/
inductive ReplicatorStep where
  /-- `sync_all` for one database: the sync, then the compaction tick, told whether the sync returned frames. -/
  | sync (file : Option (Nat × Bytes)) (producedL0 : Bool) (env : Env) (nowMs : Int64)
  /-- `flush`: a sync, and no tick. -/
  | flush (file : Option (Nat × Bytes))
  | snapshot (seq : Nat) (bytes : Bytes)
  /-- The process ends, in the middle of a sync or not. -/
  | restart (file : Option (Nat × Bytes))

namespace Replicator

variable (cfg : TriggerConfig) (r : Replicator)

/-- One tick. The counts of a process that crashed are gone. -/
def tick (producedL0 : Bool) (env : Env) (nowMs : Int64) : Replicator :=
  let res := maybeCompactOwned env cfg r.triggers producedL0 nowMs ⟨r.bucket, 0⟩
  ⟨(leaves res.1).bucket, if crashed res.1 then none else res.2⟩

def publish (file : Option (Nat × Bytes)) : Replicator := { r with bucket := published r.bucket file }

def step : ReplicatorStep → Replicator
  | .sync file producedL0 env nowMs => (r.publish file).tick cfg producedL0 env nowMs
  | .flush file => r.publish file
  | .snapshot seq bytes => { r with bucket := r.bucket.put (.changeset none .snapshot seq) bytes }
  | .restart file => ⟨published r.bucket file, none⟩

/-- **The condition on a step**: once the counts are seeded, whatever is stored at level 0 is reported to a
    tick, and a tick's run over level 0 that stops with an error stops before its put. A crash may stop it
    anywhere. -/
def Accounted : ReplicatorStep → Prop
  | .sync file producedL0 env nowMs =>
    (file.isSome → producedL0 = true ∨ r.triggers = none) ∧
      ∀ p ∈ tickRuns env cfg r.triggers producedL0 nowMs ⟨published r.bucket file, 0⟩, p.1.level = 0 →
        ∀ e s', p.1.run env p.2 = .error (.err e) s' → countLevel s'.bucket 1 ≤ countLevel p.2.bucket 1
  | .flush file => file = none ∨ r.triggers = none
  | .snapshot _ _ => True
  | .restart _ => True

end Replicator

/-- The runs of a replicator that starts on any bucket, in which every step meets `meets`. -/
inductive Replicates (cfg : TriggerConfig) (meets : Replicator → ReplicatorStep → Prop) : Replicator → Prop
  | start (b : Bucket) : Replicates cfg meets ⟨b, none⟩
  | step {r : Replicator} {x : ReplicatorStep} (h : Replicates cfg meets r) (hx : meets r x) :
      Replicates cfg meets (r.step cfg x)

/-! ## The counts over a run -/

theorem counted_published (h : Counted b t) (file : Option (Nat × Bytes)) :
    Counted (published b file) t.onL0Written := by
  cases file with
  | none => exact ⟨Nat.le_succ_of_le h.1, h.2⟩
  | some p =>
    have h0 := countLevel_put_le b (.changeset none .live p.1) p.2 0
    have h1 := countLevel_put_le b (.changeset none .live p.1) p.2 1
    exact ⟨h0.trans (Nat.succ_le_succ h.1), h1.trans h.2⟩

/-- A returned run of either level keeps the counts. -/
theorem Counted.folded {o : CompactionOutcome} (h : Counted b t) (hlevel : c.level = 0 ∨ c.level = 1)
    (hrun : Completes env b c o b') : Counted b' (t.folded c o) := by
  obtain ⟨hown, hnext⟩ := hrun.counts
  obtain ⟨h0, h1⟩ := h
  unfold Counted CompactionTriggers.folded
  rcases hlevel with hlevel | hlevel
  · rw [hlevel] at hown hnext
    split
    · show _ ≤ t.l0Pending - o.mergedCount ∧ _ ≤ t.l1Pending + 1
      simp only [zero_add] at hnext
      omega
    · simp only [zero_add] at hnext
      omega
  · have hother : countLevel b' 0 ≤ countLevel b 0 := hrun.effect.counts_other (by rw [hlevel]; decide)
    rw [hlevel] at hown
    simp only [hlevel]
    split
    · show _ ≤ t.l0Pending ∧ _ ≤ t.l1Pending - o.mergedCount
      omega
    · omega

/-- **What a tick keeps.** A process that crashed has no counts left to be wrong. -/
theorem tick_counted {cfg : TriggerConfig} {triggers : Option CompactionTriggers} {producedL0 : Bool}
    {nowMs : Int64} {s : Storage}
    (hstart : ∀ t, triggers = some t → Counted s.bucket (if producedL0 then t.onL0Written else t))
    (hstops : ∀ p ∈ tickRuns env cfg triggers producedL0 nowMs s, p.1.level = 0 →
      ∀ e s', p.1.run env p.2 = .error (.err e) s' → countLevel s'.bucket 1 ≤ countLevel p.2.bucket 1)
    (ht : (maybeCompactOwned env cfg triggers producedL0 nowMs s).2 = some t)
    (halive : crashed (maybeCompactOwned env cfg triggers producedL0 nowMs s).1 = false) :
    Counted (leaves (maybeCompactOwned env cfg triggers producedL0 nowMs s).1).bucket t := by
  have hlevels : ∀ p ∈ tickRuns env cfg triggers producedL0 nowMs s, p.1.level = 0 ∨ p.1.level = 1 := by
    intro p hp
    rcases tickRuns_calls hp with h | h <;> simp [h]
  have hends := @tick_cases env cfg triggers producedL0 nowMs s (fun t b => Counted b t)
    (fun e t b => e = .crash ∨ Counted b t) ?_ ?_ ?_
  · rcases hends with ⟨e, s', heq, hseed, hb⟩ | ⟨s', t', heq, hI⟩ | ⟨e, s', t', heq, hJ⟩
    · -- counts that exist are not seeded again
      rw [heq] at ht
      cases ht
      cases hseed
    · rw [heq] at ht ⊢
      cases ht
      exact hI
    · rw [heq] at ht halive ⊢
      cases ht
      rcases hJ with rfl | hJ
      · cases halive
      · exact hJ
  · intro t s₁ hseed
    cases triggers with
    | none => exact (seedTriggers_reads cfg none producedL0).of_ok rfl hseed |>.2 rfl
    | some t₀ =>
      cases hseed
      exact hstart t₀ rfl
  · intro p hp t o s' hI hr
    have hspec := runLevelCompaction_spec env p.2.bucket p.1 p.2 rfl
    rw [hr] at hspec
    exact hI.folded (hlevels p hp) hspec
  intro p hp t e s' hI hr
  cases e with
  | crash => exact .inl rfl
  | err e =>
    have hspec := runLevelCompaction_spec env p.2.bucket p.1 p.2 rfl
    rw [hr] at hspec
    rcases hlevels p hp with hlevel | hlevel
    · exact .inr ⟨(hspec.1.counts_other (by rw [hlevel]; decide)).trans hI.1,
        (hstops p hp hlevel e s' hr).trans hI.2⟩
    · exact .inr ⟨(hspec.1.counts_other (by rw [hlevel]; decide)).trans hI.1,
        (hspec.1.counts_other (by rw [hlevel]; decide)).trans hI.2⟩

/-- **The counts are never short.** In every run whose steps are all accounted for, the counts are at least the
    numbers of files at their levels, and a full batch fires its trigger. -/
theorem counts_never_short (cfg : TriggerConfig) (r : Replicator)
    (h : Replicates cfg (Replicator.Accounted cfg) r) (t : CompactionTriggers) (ht : r.triggers = some t) :
    (countLevel r.bucket 0 ≤ t.l0Pending ∧ countLevel r.bucket 1 ≤ t.l1Pending) ∧
      (t.config.l1Batch ≤ countLevel r.bucket 0 → t.shouldCompactL0ToL1 = true) ∧
      (t.config.l2Batch ≤ countLevel r.bucket 1 → t.shouldCompactL1ToL2 = true) := by
  have hcounted : Counted r.bucket t := by
    induction h generalizing t with
    | start b => cases ht
    | @step r x h hx ih =>
      cases x with
      | sync file producedL0 env nowMs =>
        obtain ⟨hreported, hstops⟩ := hx
        by_cases halive : crashed (maybeCompactOwned env cfg r.triggers producedL0 nowMs
            ⟨published r.bucket file, 0⟩).1 = true
        · simp [Replicator.step, Replicator.tick, Replicator.publish, halive] at ht
        have halive := Bool.not_eq_true _ ▸ halive
        simp only [Replicator.step, Replicator.tick, Replicator.publish, halive] at ht
        refine tick_counted (fun t₀ ht₀ => ?_) hstops ht halive
        have hbefore := ih t₀ ht₀
        cases file with
        | none =>
          cases producedL0 with
          | false => exact hbefore
          | true => exact counted_published hbefore none
        | some file =>
          have hproduced : producedL0 = true := (hreported rfl).resolve_right fun hnone => nomatch hnone.symm.trans ht₀
          rw [hproduced]
          exact counted_published hbefore (some file)
      | flush file =>
        rcases hx with rfl | hnone
        · exact ih t ht
        · exact absurd (hnone.symm.trans ht) (by simp)
      | snapshot seq bytes =>
        -- a snapshot is a file of no level
        have hbefore := ih t ht
        have hput := countLevel_put_le r.bucket (.changeset none .snapshot seq) bytes
        exact ⟨(hput 0).trans hbefore.1, (hput 1).trans hbefore.2⟩
      | restart file => cases ht
  refine ⟨hcounted, fun hfull => ?_, fun hfull => ?_⟩
  · exact decide_eq_true (hfull.trans hcounted.1)
  · exact decide_eq_true (hfull.trans hcounted.2)

/-- Two files found at startup: the first tick counts them and folds them. -/
theorem counts_never_short_twoLive : ∃ (cfg : TriggerConfig) (r : Replicator) (t : CompactionTriggers),
    Replicates cfg (Replicator.Accounted cfg) r ∧ r.triggers = some t ∧ countLevel r.bucket 1 = 1 ∧
      countLevel r.bucket 0 ≤ t.l0Pending ∧ countLevel r.bucket 1 ≤ t.l1Pending := by
  have hreturns : (tickRuns foldEnv ⟨2, 2, 0⟩ none false 0 twoLive).all
      fun p => (returned (p.1.run foldEnv p.2)).isSome := by decide +kernel
  have hrun : Replicates ⟨2, 2, 0⟩ (Replicator.Accounted ⟨2, 2, 0⟩)
      (Replicator.step ⟨2, 2, 0⟩ ⟨twoLive.bucket, none⟩ (.sync none false foldEnv 0)) := by
    refine .step (.start _) ⟨fun h => (by cases h), fun p hp _ e s' herr => ?_⟩
    have := all_eq_true.mp hreturns p hp
    rw [herr] at this
    cases this
  have ht : (Replicator.step ⟨2, 2, 0⟩ ⟨twoLive.bucket, none⟩ (.sync none false foldEnv 0)).triggers =
      some ⟨⟨2, 2, 0⟩, 0, 1⟩ := by decide +kernel
  exact ⟨_, _, _, hrun, ht, by decide +kernel, (counts_never_short _ _ hrun _ ht).1⟩

/-- A flush behind the seed stores a second file that is not counted: the level holds a full batch, and the
    next tick does not see it. -/
theorem flush_not_counted : ∃ (cfg : TriggerConfig) (r : Replicator) (t : CompactionTriggers),
    Replicates cfg (fun _ _ => True) r ∧ r.triggers = some t ∧ t.l0Pending < countLevel r.bucket 0 ∧
      t.config.l1Batch ≤ countLevel r.bucket 0 ∧ t.shouldCompactL0ToL1 = false := by
  obtain ⟨r, hr⟩ : ∃ r, r = Replicator.step ⟨2, 2, 0⟩ (.step ⟨2, 2, 0⟩ (.step ⟨2, 2, 0⟩
    ⟨foldLive 1 Store.empty, none⟩ (.sync none false foldEnv 0)) (.flush (some (2, (foldObject 2 2 none).wire))))
    (.sync none false foldEnv 0) := ⟨_, rfl⟩
  have hrun : Replicates ⟨2, 2, 0⟩ (fun _ _ => True) r := by
    rw [hr]
    exact .step (.step (.step (.start _) trivial) trivial) trivial
  have ht : r.triggers = some ⟨⟨2, 2, 0⟩, 1, 0⟩ := by
    rw [hr]
    decide +kernel
  have hcount : countLevel r.bucket 0 = 2 := by
    rw [hr]
    decide +kernel
  exact ⟨⟨2, 2, 0⟩, r, _, hrun, ht, by rw [hcount]; decide, by rw [hcount], by decide⟩

end Compaction
end Walrust
