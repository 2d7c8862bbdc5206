import Walrust.Compaction.Laminar

/-!
# `Walrust.Compaction.Driver` — restoring the head while the driver compacts

The production driver counts the files of levels 0 and 1 in memory, runs a level when its batch is full, and
counts afresh after a restart. A tick is at most two runs of the engine, each of which may stop at any storage
operation. Next to the bucket the state keeps the bucket as it would be had no compaction run, which says what
a restore could reach.

* `tick_induction` — what every run of a tick preserves, the tick preserves;
* `DriverReaches.kept` — the invariant: sound, laminar, and covering every published incremental;
* `head_stays_restorable` — the result, under the condition that batches cross nothing.
-/

namespace Walrust
namespace Compaction

open Hadbp Lib List
open Shelves (mem_add mem_remove)

variable {cands : List PlanCandidate} {plain : Bucket} {target : Nat} {pageSize : UInt32}

/-! ## Candidates of a stocked bucket -/

section Candidates

variable {sha64 : Bytes → UInt64} {val : Nat → UInt64} {b : Bucket}
variable (hst : Stocked sha64 pageSize val b)
include hst

theorem Stocked.readFiles (level : Level) {keys : List Key} (hkeys : ∀ k ∈ keys, (b.get k).isSome) :
    ∃ files, readFiles b level keys = .ok files ∧
      (∀ f ∈ files, keyRange level f.key = some f.range ∧ f.key ∈ keys) ∧
      ∀ k ∈ keys, ∀ r, keyRange level k = some r → ∃ f ∈ files, f.range = r := by
  induction keys with
  | nil => exact ⟨[], rfl, fun f hf => (by cases hf), fun k hk => (by cases hk)⟩
  | cons key keys ih =>
    obtain ⟨files, hread, hfiles, hall⟩ := ih fun k hk => hkeys k (mem_cons_of_mem _ hk)
    unfold Compaction.readFiles
    cases hr : keyRange level key with
    | none =>
      refine ⟨files, hread, fun f hf => ⟨(hfiles f hf).1, mem_cons_of_mem _ (hfiles f hf).2⟩, ?_⟩
      intro k hk r hkr
      rcases mem_cons.mp hk with rfl | hk
      · rw [hr] at hkr
        cases hkr
      · exact hall k hk r hkr
    | some range =>
      obtain ⟨bytes, hbytes⟩ := Option.isSome_iff_exists.mp (hkeys key mem_cons_self)
      obtain ⟨cs, rfl, -⟩ := hst level key range bytes hr hbytes
      simp only [hbytes, readHeader_wire, hread]
      refine ⟨_, rfl, ?_, ?_⟩
      · intro f hf
        rcases mem_cons.mp hf with rfl | hf
        · exact ⟨hr, mem_cons_self⟩
        · exact ⟨(hfiles f hf).1, mem_cons_of_mem _ (hfiles f hf).2⟩
      · intro k hk r hkr
        rcases mem_cons.mp hk with rfl | hk
        · rw [hr] at hkr
          cases hkr
          exact ⟨_, mem_cons_self, rfl⟩
        · obtain ⟨f, hf, hfr⟩ := hall k hk r hkr
          exact ⟨f, mem_cons_of_mem _ hf, hfr⟩

/-- A level can be listed, and the listing has the ranges of the level. -/
theorem Stocked.listLevel (level : Level) : ∃ files, listLevel b level = .ok files ∧
    ∀ r, (∃ f ∈ files, f.range = r) ↔ r ∈ shelves b level := by
  obtain ⟨files, hread, hfiles, hall⟩ := hst.readFiles level fun k hk => Store.mem_keys.mp hk
  refine ⟨files.mergeSort rangeLe, by rw [Compaction.listLevel, hread], fun r => ?_⟩
  have hperm := mergeSort_perm files rangeLe
  constructor
  · rintro ⟨f, hf, rfl⟩
    obtain ⟨hkey, hmem⟩ := hfiles f (hperm.mem_iff.mp hf)
    exact ⟨f.key, hkey, Store.mem_keys.mp hmem⟩
  · rintro ⟨key, hkey, hget⟩
    obtain ⟨f, hf, hfr⟩ := hall key (Store.mem_keys.mpr hget) r hkey
    exact ⟨f, hperm.mem_iff.mpr hf, hfr⟩

theorem Stocked.listLevels (level n : Nat) : ∃ files, listLevels b level n = .ok files ∧
    ∀ r, (∃ f ∈ files, f.range = r) ↔ ∃ j : Nat, level ≤ j ∧ j < level + n ∧ r ∈ shelves b j := by
  induction n generalizing level with
  | zero =>
    refine ⟨[], rfl, fun r => ⟨?_, ?_⟩⟩
    · rintro ⟨f, hf, -⟩
      cases hf
    · rintro ⟨j, h1, h2, -⟩
      omega
  | succ n ih =>
    obtain ⟨files, hlist, hfiles⟩ := hst.listLevel level
    obtain ⟨rest, hrest, hrests⟩ := ih (level + 1)
    refine ⟨files ++ rest, by simp only [Compaction.listLevels, hlist, hrest], fun r => ?_⟩
    constructor
    · rintro ⟨f, hf, rfl⟩
      rcases mem_append.mp hf with hf | hf
      · exact ⟨level, le_refl _, Nat.lt_add_of_pos_right (Nat.succ_pos n), (hfiles _).mp ⟨f, hf, rfl⟩⟩
      · obtain ⟨j, h1, h2, hj⟩ := (hrests _).mp ⟨f, hf, rfl⟩
        exact ⟨j, Nat.le_of_succ_le h1, by omega, hj⟩
    · rintro ⟨j, h1, h2, hj⟩
      rcases eq_or_lt_of_le h1 with rfl | hlt
      · obtain ⟨f, hf, hfr⟩ := (hfiles r).mpr hj
        exact ⟨f, mem_append_left _ hf, hfr⟩
      · obtain ⟨f, hf, hfr⟩ := (hrests r).mpr ⟨j, hlt, by omega, hj⟩
        exact ⟨f, mem_append_right _ hf, hfr⟩

theorem Stocked.candidate_mem {floor : Nat} (hgather : Compaction.gatherCandidates b floor target = .ok cands) :
    ∀ c ∈ cands, c.range ∈ (shelves b).family := by
  obtain ⟨files, hlist, hfiles⟩ := hst.listLevels 0 (maxLevelProbe + 1)
  rw [Compaction.gatherCandidates, hlist] at hgather
  cases hgather
  intro c hc
  obtain ⟨f, hf, rfl⟩ := mem_map.mp hc
  obtain ⟨j, -, -, hj⟩ := (hfiles f.range).mp ⟨f, mem_of_mem_filter hf, rfl⟩
  exact ⟨j, hj⟩

/-- **What the planner is offered**: every stored range up to the probed level. -/
theorem Stocked.gatherCandidates {floor target : Nat} (hlevels : ∀ j : Nat, maxLevelProbe < j → shelves b j = ∅)
    (htarget : ∀ r ∈ (shelves b).family, r.min ≤ target) :
    ∃ cands, gatherCandidates b floor target = .ok cands ∧ Offers (shelves b).family floor cands := by
  obtain ⟨files, hlist, hfiles⟩ := hst.listLevels 0 (maxLevelProbe + 1)
  have hgather : Compaction.gatherCandidates b floor target = .ok ((files.filter fun f =>
      floor < f.range.max && f.range.min ≤ target).map fun f => ⟨f.key, f.level, f.range⟩) := by
    rw [Compaction.gatherCandidates, hlist]
  refine ⟨_, hgather, ⟨hst.candidate_mem hgather, ?_⟩⟩
  · rintro r ⟨j, hj⟩ hfloor
    have hprobed : j < 0 + (maxLevelProbe + 1) := by
      refine Nat.lt_succ_of_le (not_lt.mp fun hlt => ?_)
      rw [hlevels j hlt] at hj
      exact hj
    obtain ⟨f, hf, rfl⟩ := (hfiles r).mpr ⟨j, Nat.zero_le j, hprobed, hj⟩
    refine ⟨_, mem_map_of_mem (mem_filter.mpr ⟨hf, ?_⟩), rfl⟩
    simp [hfloor, htarget _ ⟨j, hj⟩]

end Candidates

/-! ## Ticks -/

/-- The calls a tick makes to the engine, each with the storage it starts on. -/
def tickRuns (env : Env) (cfg : TriggerConfig) (triggers : Option CompactionTriggers) (producedL0 : Bool)
    (nowMs : Int64) (s : Storage) : List (Call × Storage) :=
  let l0 : Call := ⟨0, cfg.l1Batch, cfg.keepFineWindowMs, nowMs⟩
  let l1 : Call := ⟨1, cfg.l2Batch, cfg.keepFineWindowMs, nowMs⟩
  match seedTriggers env cfg triggers producedL0 s with
  | .error _ _ => []
  | .ok t s =>
    if t.shouldCompactL0ToL1 then
      (l0, s) ::
        match l0.run env s with
        | .error _ _ => []
        | .ok outcome s =>
          let t := if 0 < outcome.mergedCount then t.onL0ToL1Merged outcome.mergedCount else t
          if t.shouldCompactL1ToL2 then [(l1, s)] else []
    else if t.shouldCompactL1ToL2 then [(l1, s)] else []

/-- The counts are no smaller than the levels they count. -/
def Counted (b : Bucket) (t : CompactionTriggers) : Prop :=
  countLevel b 0 ≤ t.l0Pending ∧ countLevel b 1 ≤ t.l1Pending

/-- Seeding reads the bucket, and counts it where there were no counts. -/
theorem seedTriggers_reads {env : Env} {b : Bucket} (cfg : TriggerConfig)
    (triggers : Option CompactionTriggers) (producedL0 : Bool) :
    ReadsBucket b (seedTriggers env cfg triggers producedL0) (fun t => triggers = none → Counted b t)
      (fun _ => True) := by
  have hcount (level : Level) : ReadsBucket b (countLevelOf env level) (fun n => n = countLevel b level)
      fun _ => True := by
    refine .bind (access_reads.mono (fun _ h => h) fun _ _ => trivial) fun _ _ =>
      .bind get_reads fun s hs => .pure ?_
    rw [hs]
  cases triggers with
  | some t => exact .bind (.pure (φ := fun _ => True) trivial) fun _ _ => .pure fun h => (by cases h)
  | none =>
    refine .bind (hcount 0) fun l0 h0 => .bind (hcount 1) fun l1 h1 =>
      .bind (.pure (φ := Counted b) ⟨le_of_eq h0.symm, le_of_eq h1.symm⟩) fun t ht => ?_
    cases producedL0 with
    | false => exact .pure fun _ => ht
    | true => exact .pure fun _ => ⟨Nat.le_succ_of_le ht.1, ht.2⟩

/-- The counts after a call that returned `o`. -/
def CompactionTriggers.folded (t : CompactionTriggers) (c : Call) (o : CompactionOutcome) : CompactionTriggers :=
  if 0 < o.mergedCount then
    if c.level = 0 then t.onL0ToL1Merged o.mergedCount else t.onL1ToL2Merged o.mergedCount
  else t

section Ticks

variable {env : Env} {cfg : TriggerConfig} {triggers : Option CompactionTriggers} {producedL0 : Bool}
  {nowMs : Int64} {s : Storage}

/-- **How a tick ends**: its seed failed, or it returned with the counts and the bucket in `I`, or a run
    stopped it and left them in `J`. Both are checked call by call. -/
theorem tick_cases {I : CompactionTriggers → Bucket → Prop} {J : Halt → CompactionTriggers → Bucket → Prop}
    (hseed : ∀ t s₁, seedTriggers env cfg triggers producedL0 s = .ok t s₁ → I t s.bucket)
    (hok : ∀ p ∈ tickRuns env cfg triggers producedL0 nowMs s, ∀ t o s', I t p.2.bucket →
      p.1.run env p.2 = .ok o s' → I (t.folded p.1 o) s'.bucket)
    (hstop : ∀ p ∈ tickRuns env cfg triggers producedL0 nowMs s, ∀ t e s', I t p.2.bucket →
      p.1.run env p.2 = .error e s' → J e t s'.bucket) :
    (∃ e s', maybeCompactOwned env cfg triggers producedL0 nowMs s = (.error e s', triggers) ∧
        seedTriggers env cfg triggers producedL0 s = .error e s' ∧ s'.bucket = s.bucket) ∨
      (∃ s' t, maybeCompactOwned env cfg triggers producedL0 nowMs s = (.ok () s', some t) ∧ I t s'.bucket) ∨
      ∃ e s' t, maybeCompactOwned env cfg triggers producedL0 nowMs s = (.error e s', some t) ∧
        J e t s'.bucket := by
  unfold maybeCompactOwned
  have hreads := @seedTriggers_reads env s.bucket cfg triggers producedL0
  cases hs : seedTriggers env cfg triggers producedL0 s with
  | error e s₁ => exact .inl ⟨e, s₁, rfl, rfl, (hreads.of_error rfl hs).1⟩
  | ok t s₁ =>
    right
    have hI : I t s₁.bucket := (hreads.of_ok rfl hs).1 ▸ hseed t s₁ hs
    -- the second half, from wherever the first half ends
    have hsecond : ∀ (t : CompactionTriggers) (s₂ : Storage), I t s₂.bucket →
        (t.shouldCompactL1ToL2 = true → ((⟨1, cfg.l2Batch, cfg.keepFineWindowMs, nowMs⟩ : Call), s₂) ∈
          tickRuns env cfg triggers producedL0 nowMs s) →
        ∀ r, r = (if t.shouldCompactL1ToL2 = true then
          match runLevelCompaction env 1 cfg.l2Batch cfg.keepFineWindowMs nowMs s₂ with
          | .error e s => ((.error e s : EStateM.Result Halt Storage Unit), some t)
          | .ok outcome s => (.ok () s,
            some (if 0 < outcome.mergedCount then t.onL1ToL2Merged outcome.mergedCount else t))
          else (.ok () s₂, some t)) →
        (∃ s' t, r = (.ok () s', some t) ∧ I t s'.bucket) ∨
          ∃ e s' t, r = (.error e s', some t) ∧ J e t s'.bucket := by
      rintro t s₂ hI₂ hmem r rfl
      by_cases h2 : t.shouldCompactL1ToL2 = true
      · rw [if_pos h2]
        cases hr : runLevelCompaction env 1 cfg.l2Batch cfg.keepFineWindowMs nowMs s₂ with
        | error e s₃ => exact .inr ⟨e, s₃, t, rfl, hstop _ (hmem h2) t e s₃ hI₂ hr⟩
        | ok o s₃ => exact .inl ⟨s₃, _, rfl, hok _ (hmem h2) t o s₃ hI₂ hr⟩
      · rw [if_neg h2]
        exact .inl ⟨s₂, t, rfl, hI₂⟩
    have hruns : ∀ p, p ∈ tickRuns env cfg triggers producedL0 nowMs s ↔ p ∈
        if t.shouldCompactL0ToL1 = true then
          (⟨0, cfg.l1Batch, cfg.keepFineWindowMs, nowMs⟩, s₁) ::
            match runLevelCompaction env 0 cfg.l1Batch cfg.keepFineWindowMs nowMs s₁ with
            | .error _ _ => []
            | .ok outcome s => if (t.folded ⟨0, cfg.l1Batch, cfg.keepFineWindowMs, nowMs⟩
                outcome).shouldCompactL1ToL2 = true then
                [(⟨1, cfg.l2Batch, cfg.keepFineWindowMs, nowMs⟩, s)] else []
        else if t.shouldCompactL1ToL2 = true then
          [(⟨1, cfg.l2Batch, cfg.keepFineWindowMs, nowMs⟩, s₁)] else [] := by
      intro p
      unfold tickRuns
      rw [hs]
      exact .rfl
    dsimp only
    by_cases h1 : t.shouldCompactL0ToL1 = true
    · rw [if_pos h1]
      simp only [if_pos h1] at hruns
      have hfirst := (hruns _).mpr mem_cons_self
      cases hr : runLevelCompaction env 0 cfg.l1Batch cfg.keepFineWindowMs nowMs s₁ with
      | error e s₂ => exact .inr ⟨e, s₂, t, rfl, hstop _ hfirst t e s₂ hI hr⟩
      | ok o s₂ =>
        refine hsecond _ s₂ (hok _ hfirst t o s₂ hI hr) (fun h2 => ?_) _ rfl
        rw [hruns, hr]
        refine mem_cons_of_mem _ ?_
        simp only
        rw [if_pos h2]
        exact mem_cons_self
    · rw [if_neg h1]
      refine hsecond t s₁ hI (fun h2 => ?_) _ rfl
      rw [hruns, if_neg h1, if_pos h2]
      exact mem_cons_self

/-- **What every run of a tick preserves, the tick preserves.** -/
theorem tick_induction {P : Bucket → Prop} (hP : P s.bucket)
    (hrun : ∀ p ∈ tickRuns env cfg triggers producedL0 nowMs s,
      P p.2.bucket → P (leaves (p.1.run env p.2)).bucket) :
    P (leaves (maybeCompactOwned env cfg triggers producedL0 nowMs s).1).bucket := by
  have hends := @tick_cases env cfg triggers producedL0 nowMs s (fun _ b => P b) (fun _ _ b => P b)
    (fun _ _ _ => hP)
    (fun p hp _ o s' hPp hr => by have := hrun p hp hPp; rw [hr] at this; exact this)
    (fun p hp _ e s' hPp hr => by have := hrun p hp hPp; rw [hr] at this; exact this)
  rcases hends with ⟨e, s', heq, _, hb⟩ | ⟨s', t, heq, hP'⟩ | ⟨e, s', t, heq, hP'⟩
  · rw [heq]
    show P s'.bucket
    rw [hb]
    exact hP
  · rw [heq]
    exact hP'
  · rw [heq]
    exact hP'

end Ticks

theorem tickRuns_calls {env : Env} {cfg : TriggerConfig} {triggers : Option CompactionTriggers}
    {producedL0 : Bool} {nowMs : Int64} {s : Storage} {p : Call × Storage}
    (hp : p ∈ tickRuns env cfg triggers producedL0 nowMs s) :
    p.1 = ⟨0, cfg.l1Batch, cfg.keepFineWindowMs, nowMs⟩ ∨
      p.1 = ⟨1, cfg.l2Batch, cfg.keepFineWindowMs, nowMs⟩ := by
  have hlast : ∀ (q : Prop) [Decidable q] (s' : Storage), p ∈ (if q then
      [((⟨1, cfg.l2Batch, cfg.keepFineWindowMs, nowMs⟩ : Call), s')] else []) →
      p.1 = ⟨1, cfg.l2Batch, cfg.keepFineWindowMs, nowMs⟩ := by
    intro q _ s' hmem
    split at hmem
    · rw [mem_singleton.mp hmem]
    · cases hmem
  unfold tickRuns at hp
  split at hp
  · cases hp
  split at hp
  · rcases mem_cons.mp hp with rfl | hp
    · exact .inl rfl
    · split at hp
      · cases hp
      · exact .inr (hlast _ _ hp)
  · exact .inr (hlast _ _ hp)

/-! ## The driver's runs -/

structure DriverState where
  ledger : Ledger
  triggers : Option CompactionTriggers
  /-- The bucket as it would be had no compaction run. -/
  plain : Bucket

/-- Whether the process is gone. -/
def crashed {α : Type} : EStateM.Result Halt Storage α → Bool
  | .error .crash _ => true
  | _ => false

namespace DriverState

variable (d : DriverState)

def publish (cs : PhysicalChangeset) : DriverState where
  ledger := d.ledger.publish cs
  triggers := d.triggers
  plain := d.plain.put (.changeset none .live (d.ledger.head + 1)) cs.wire

def snapshot (bytes : Bytes) (checksum : UInt64) : DriverState where
  ledger := d.ledger.snapshot bytes checksum
  triggers := d.triggers
  plain := d.plain.put (.changeset none .snapshot (d.ledger.head + 1)) bytes

/-- One tick, returned or stopped. The counts of a process that crashed are gone. -/
def tick (env : Env) (cfg : TriggerConfig) (producedL0 : Bool) (nowMs : Int64) : DriverState :=
  let r := maybeCompactOwned env cfg d.triggers producedL0 nowMs ⟨d.ledger.bucket, 0⟩
  { ledger := { d.ledger with bucket := (leaves r.1).bucket }
    triggers := if crashed r.1 then none else r.2
    plain := d.plain }

end DriverState

/-- The setup a driver configuration amounts to. -/
def driverSetup (ph : Physical) (pageSize : UInt32) (cfg : TriggerConfig) : Setup where
  ph := ph
  pageSize := pageSize
  batch level := if level = 0 then cfg.l1Batch else cfg.l2Batch

/-- **The runs of the driver**, in which every run of the engine starts on a bucket that meets `meets`. -/
inductive DriverReaches (ph : Physical) (pageSize : UInt32) (cfg : TriggerConfig)
    (meets : Env → Call → Bucket → Prop) : DriverState → Prop
  | start (val : Nat → UInt64) (cutoff : Int64) :
      DriverReaches ph pageSize cfg meets ⟨⟨.empty, 0, val, ∅, cutoff⟩, none, .empty⟩
  | publish {d : DriverState} {cs : PhysicalChangeset} (h : DriverReaches ph pageSize cfg meets d)
      (hcs : (driverSetup ph pageSize cfg).Next d.ledger cs) :
      DriverReaches ph pageSize cfg meets (d.publish cs)
  | snapshot {d : DriverState} (h : DriverReaches ph pageSize cfg meets d) (bytes : Bytes)
      (checksum : UInt64) : DriverReaches ph pageSize cfg meets (d.snapshot bytes checksum)
  | tick {d : DriverState} {env : Env} {producedL0 : Bool} {nowMs : Int64}
      (h : DriverReaches ph pageSize cfg meets d) (hcodec : env.ph = ph) (hfaithful : env.Faithful)
      (hmeets : ∀ p ∈ tickRuns env cfg d.triggers producedL0 nowMs ⟨d.ledger.bucket, 0⟩,
        meets env p.1 p.2.bucket) :
      DriverReaches ph pageSize cfg meets (d.tick env cfg producedL0 nowMs)
  | restart {d : DriverState} (h : DriverReaches ph pageSize cfg meets d) :
      DriverReaches ph pageSize cfg meets { d with triggers := none }

/-- **The condition on a run**: the batch it selects is nested with or apart from every stored range. -/
def CrossesNothing (env : Env) (c : Call) (b : Bucket) : Prop :=
  ∀ all targets first rest, Batch env b c all targets first rest →
    ∀ x ∈ (shelves b).family, (spanOf first rest).Nested x

/-! ## The invariant -/

/-- What holds of the bucket: it is sound, its ranges are laminar, lie on the three levels and cover every
    incremental, and its snapshots are no incrementals. -/
structure Kept (su : Setup) (l : Ledger) : Prop where
  sound : l.Sound su
  laminar : Laminar (shelves l.bucket).family
  covers : l.live ⊆ covered (shelves l.bucket).family
  levels : ∀ j : Nat, 2 < j → shelves l.bucket j = ∅
  snapshots : ∀ n, (l.bucket.get (.changeset none .snapshot n)).isSome → n ∉ l.live ∧ n ≤ l.head

variable {su : Setup} {l : Ledger} {meets : Env → Call → Bucket → Prop} {cs : PhysicalChangeset}

theorem Kept.publish (h : Kept su l) (hcs : su.Next l cs) : Kept su (l.publish cs) := by
  have hsound := h.sound.publish hcs
  have hshelves : shelves (l.publish cs).bucket = (shelves l.bucket).add 0 (.point (l.head + 1)) :=
    shelves_put cs.wire (keyRange_live (l.head + 1))
  refine ⟨hsound, ?_, ?_, ?_, ?_⟩
  · rw [hshelves]
    refine (h.laminar.insert fun x hx => ?_).subset (Shelves.family_add _)
    obtain ⟨j, hj⟩ := hx
    exact .inr (.inr (.inr (Nat.lt_succ_of_le (h.sound.max_le hj).2)))
  · rw [hshelves]
    rintro n (rfl | hn)
    · exact ⟨_, ⟨0, mem_add.mpr (.inr ⟨rfl, rfl⟩)⟩, le_refl _, le_refl _⟩
    · obtain ⟨r, ⟨j, hj⟩, hnr⟩ := h.covers hn
      exact ⟨r, ⟨j, mem_add.mpr (.inl hj)⟩, hnr⟩
  · intro j hj
    rw [hshelves]
    ext r
    rw [mem_add, h.levels j hj]
    simp only [Set.mem_empty_iff_false, false_or, iff_false, not_and]
    exact fun h0 => absurd (h0 ▸ hj) (Nat.not_lt_zero 2)
  · intro n hn
    have hn : ((l.bucket.put (.changeset none .live (l.head + 1)) cs.wire).get
        (.changeset none .snapshot n)).isSome := hn
    rw [Store.get_put_of_ne _ _ (by simp)] at hn
    obtain ⟨hlive, hle⟩ := h.snapshots n hn
    refine ⟨?_, Nat.le_succ_of_le hle⟩
    rintro (rfl | hmem)
    · exact absurd hle (Nat.not_succ_le_self l.head)
    · exact hlive hmem

theorem Kept.snapshot (h : Kept su l) (bytes : Bytes) (checksum : UInt64) :
    Kept su (l.snapshot bytes checksum) := by
  have hshelves : shelves (l.snapshot bytes checksum).bucket = shelves l.bucket :=
    shelves_snapshot l.bucket (l.head + 1) bytes
  refine ⟨h.sound.snapshot bytes checksum, ?_, ?_, ?_, ?_⟩
  · rw [hshelves]
    exact h.laminar
  · rw [hshelves]
    exact h.covers
  · rw [hshelves]
    exact h.levels
  intro n hn
  have hn : ((l.bucket.put (.changeset none .snapshot (l.head + 1)) bytes).get
      (.changeset none .snapshot n)).isSome := hn
  by_cases heq : n = l.head + 1
  · subst heq
    exact ⟨fun hlive => absurd (h.sound.live _ hlive).2 (Nat.not_succ_le_self l.head), le_refl _⟩
  · rw [Store.get_put_of_ne _ _ (by simp [heq])] at hn
    exact ⟨(h.snapshots n hn).1, Nat.le_succ_of_le (h.snapshots n hn).2⟩

theorem Change.levels {S S' : Shelves} {level : Nat} {picked : SeqRange → Prop}
    (h : Change S level picked S') (hlevel : level ≤ 1) (hS : ∀ j : Nat, 2 < j → S j = ∅) :
    ∀ j : Nat, 2 < j → S' j = ∅ := by
  intro j hj
  refine Set.eq_empty_iff_forall_notMem.mpr fun r hr => ?_
  have hold : r ∉ S j := by
    rw [hS j hj]
    exact Set.notMem_empty r
  cases h with
  | trimmed _ => exact hold (mem_remove.mp hr).1
  | dropped _ _ => exact hold (mem_remove.mp hr).1
  | stored _ _ _ =>
    rcases mem_add.mp (mem_remove.mp hr).1 with hr | ⟨heq, -⟩
    · exact hold hr
    · have : j = level + 1 := heq
      omega

/-- One run of the engine, returned or stopped, keeps the invariant if its batch crosses nothing. -/
theorem Kept.run {env : Env} {c : Call} {s : Storage} (h : Kept su { l with bucket := s.bucket })
    (hruns : su.Runs env c) (hlevel : c.level ≤ 1) (hcross : CrossesNothing env c s.bucket) :
    Kept su { l with bucket := (leaves (c.run env s)).bucket } := by
  have heffect := runLevelCompaction_effect env c s
  have hchange := heffect.change
  have hsound := h.sound.compact hruns s.ops
  refine ⟨⟨hsound.stocked, hsound.seqs, hsound.live⟩, ?_, ?_, ?_, ?_⟩
  · refine hchange.laminar h.laminar ?_
    rintro _ ⟨all, targets, first, rest, hb, rfl⟩
    exact hcross all targets first rest hb
  · exact h.covers.trans (hchange.covered fun j r hr => shelves_le hr)
  · exact hchange.levels hlevel h.levels
  · intro n hn
    obtain ⟨bytes, hbytes⟩ := Option.isSome_iff_exists.mp hn
    rcases heffect.origin hruns.faithful hbytes with hold | ⟨_, _, _, -, hkey, -⟩
    · exact h.snapshots n (by
        rw [hold]
        rfl)
    · cases hkey

theorem Kept.tick {ph : Physical} {pageSize : UInt32} {cfg : TriggerConfig} {d : DriverState} {env : Env}
    {producedL0 : Bool} {nowMs : Int64} (h : Kept (driverSetup ph pageSize cfg) d.ledger)
    (hcodec : env.ph = ph) (hfaithful : env.Faithful)
    (hmeets : ∀ p ∈ tickRuns env cfg d.triggers producedL0 nowMs ⟨d.ledger.bucket, 0⟩,
      CrossesNothing env p.1 p.2.bucket) :
    Kept (driverSetup ph pageSize cfg) (d.tick env cfg producedL0 nowMs).ledger := by
  refine tick_induction (P := fun b => Kept (driverSetup ph pageSize cfg) { d.ledger with bucket := b }) h
    fun p hp hkept => ?_
  rcases tickRuns_calls hp with hc | hc
  · exact hkept.run ⟨hcodec, hfaithful, by rw [hc]; rfl⟩ (by rw [hc]; exact Nat.zero_le 1) (hmeets p hp)
  · exact hkept.run ⟨hcodec, hfaithful, by rw [hc]; rfl⟩ (by rw [hc]) (hmeets p hp)

/-- The bucket without compaction: its objects are the published incrementals. -/
structure Plain (su : Setup) (l : Ledger) (plain : Bucket) : Prop where
  stocked : Stocked su.ph.sha64 su.pageSize l.val plain
  points : ∀ j, ∀ r ∈ shelves plain j, j = 0 ∧ ∃ n ∈ l.live, r = .point n
  all : ∀ n ∈ l.live, .point n ∈ shelves plain 0

theorem Plain.update (h : Plain su l plain) (hsound : l.Sound su) (v : UInt64) :
    Stocked su.ph.sha64 su.pageSize (Function.update l.val (l.head + 1) v) plain := by
  intro level key range bytes hkey hget
  obtain ⟨cs, hbytes, hheld⟩ := h.stocked level key range bytes hkey hget
  obtain ⟨-, n, hn, rfl⟩ := h.points level range ⟨key, hkey, by rw [hget]; rfl⟩
  have := (hsound.live n hn).2
  exact ⟨cs, hbytes, hheld.update v (Nat.lt_succ_of_le this) (le_refl _)⟩

theorem Plain.publish (h : Plain su l plain) (hsound : l.Sound su) (hcs : su.Next l cs) :
    Plain su (l.publish cs) (plain.put (.changeset none .live (l.head + 1)) cs.wire) where
  stocked := (h.update hsound cs.checksum).put (keyRange_live _) hcs
  points := by
    intro j r hr
    rw [shelves_put _ (keyRange_live _), mem_add] at hr
    rcases hr with hr | ⟨hj, rfl⟩
    · obtain ⟨hj, n, hn, rfl⟩ := h.points j r hr
      exact ⟨hj, n, .inr hn, rfl⟩
    · exact ⟨hj, l.head + 1, .inl rfl, rfl⟩
  all := by
    rintro n (rfl | hn)
    · rw [shelves_put _ (keyRange_live _)]
      exact mem_add.mpr (.inr ⟨rfl, rfl⟩)
    · rw [shelves_put _ (keyRange_live _)]
      exact mem_add.mpr (.inl (h.all n hn))

theorem Plain.snapshot {plain : Bucket} (h : Plain su l plain) (hsound : l.Sound su) (bytes : Bytes)
    (checksum : UInt64) :
    Plain su (l.snapshot bytes checksum) (plain.put (.changeset none .snapshot (l.head + 1)) bytes) where
  stocked := by
    intro level key range bytes' hkey hget
    have hne : key ≠ .changeset none .snapshot (l.head + 1) := by
      rintro rfl
      cases hkey
    rw [Store.get_put_of_ne _ _ hne] at hget
    exact h.update hsound checksum level key range bytes' hkey hget
  points := by
    intro j r hr
    rw [shelves_snapshot] at hr
    exact h.points j r hr
  all := by
    rw [shelves_snapshot]
    exact h.all

section Reached

variable {ph : Physical} {cfg : TriggerConfig} {d : DriverState}

/-- Whatever the runs do, the bucket stays sound. -/
theorem DriverReaches.sound (h : DriverReaches ph pageSize cfg meets d) :
    d.ledger.Sound (driverSetup ph pageSize cfg) ∧ Plain (driverSetup ph pageSize cfg) d.ledger d.plain := by
  induction h with
  | start val cutoff =>
    refine ⟨(@Reaches.start _ (fun _ _ _ _ => True) val cutoff).sound, ⟨?_, ?_, ?_⟩⟩
    · intro level key range bytes hkey hget
      cases hget
    · rintro j r ⟨key, hkey, hget⟩
      cases hget
    · exact fun n hn => (by cases hn)
  | publish _ hcs ih => exact ⟨ih.1.publish hcs, ih.2.publish ih.1 hcs⟩
  | snapshot _ bytes checksum ih => exact ⟨ih.1.snapshot bytes checksum, ih.2.snapshot ih.1 bytes checksum⟩
  | @tick d env producedL0 nowMs _ hcodec hfaithful _ ih =>
    refine ⟨?_, ⟨ih.2.stocked, ih.2.points, ih.2.all⟩⟩
    refine tick_induction
      (P := fun b => Ledger.Sound (driverSetup ph pageSize cfg) { d.ledger with bucket := b }) ih.1
      fun p hp hsound => ?_
    have hruns : (driverSetup ph pageSize cfg).Runs env p.1 := by
      rcases tickRuns_calls hp with hc | hc
      · exact ⟨hcodec, hfaithful, by rw [hc]; rfl⟩
      · exact ⟨hcodec, hfaithful, by rw [hc]; rfl⟩
    have hnew := hsound.compact hruns p.2.ops
    exact ⟨hnew.stocked, hnew.seqs, hnew.live⟩
  | restart _ ih => exact ih

/-- **The invariant holds along every run** whose batches cross nothing. -/
theorem DriverReaches.kept (h : DriverReaches ph pageSize cfg CrossesNothing d) :
    Kept (driverSetup ph pageSize cfg) d.ledger := by
  induction h with
  | start val cutoff =>
    have hnone : ∀ j r, r ∉ shelves (.empty : Bucket) j := by
      rintro j r ⟨key, hkey, hget⟩
      cases hget
    refine ⟨(@Reaches.start _ (fun _ _ _ _ => True) val cutoff).sound, ?_, ?_, ?_, ?_⟩
    · rintro r ⟨j, hr⟩
      exact absurd hr (hnone j r)
    · exact fun n hn => (by cases hn)
    · exact fun j _ => Set.eq_empty_iff_forall_notMem.mpr (hnone j)
    · exact fun n hn => (by cases hn)
  | publish _ hcs ih => exact ih.publish hcs
  | snapshot _ bytes checksum ih => exact ih.snapshot bytes checksum
  | tick _ hcodec hfaithful hmeets ih => exact ih.tick hcodec hfaithful hmeets
  | restart _ ih => exact ih

end Reached

/-! ## Planning over the compacted bucket -/

/-- The restore of `target` from the snapshot `floor` can be planned over all levels. -/
def Plans (b : Bucket) (floor target : Nat) : Prop :=
  ∃ cands plan, gatherCandidates b floor target = .ok cands ∧ planRestore cands floor target = .ok plan

/-- A plan covers every seq it passes. -/
theorem FollowsFrom.covers {files : List PlanCandidate} {cursor n : Nat} (h : FollowsFrom cands cursor files)
    (hn : cursor < n) (hend : n ≤ endsAt cursor files) : ∃ c ∈ cands, n ∈ c.range.seqs := by
  induction files generalizing cursor with
  | nil => exact absurd hn (not_lt.mpr hend)
  | cons c files ih =>
    obtain ⟨hc, hmin, hrest⟩ := h
    by_cases hin : n ≤ c.range.max
    · exact ⟨c, hc, by omega, hin⟩
    · exact ih hrest (by omega) hend

/-- **What could be planned without compaction**: the head, from a floor after which there are only
    incrementals. -/
theorem Plain.plans_iff (h : Plain su l plain) (hsound : l.Sound su) {floor : Nat} :
    Plans plain floor l.head ↔ ∀ n, floor < n → n ≤ l.head → n ∈ l.live := by
  have hpoint : ∀ r ∈ (shelves plain).family, ∃ n ∈ l.live, r = .point n := by
    rintro r ⟨j, hj⟩
    exact (h.points j r hj).2
  constructor
  · rintro ⟨cands, plan, hgather, hplan⟩ n hn hle
    obtain ⟨hfollows, hend⟩ := planRestore_tiles hplan
    obtain ⟨c, hc, hnc⟩ := hfollows.covers hn (by rw [hend (by omega)]; exact hle)
    obtain ⟨m, hm, heq⟩ := hpoint _ (h.stocked.candidate_mem hgather c hc)
    rw [heq] at hnc
    obtain rfl : n = m := le_antisymm hnc.2 hnc.1
    exact hm
  · intro hlive
    have hmax : ∀ r ∈ (shelves plain).family, r.min ≤ r.max ∧ r.max ≤ l.head := by
      intro r hr
      obtain ⟨n, hn, rfl⟩ := hpoint r hr
      exact ⟨le_refl n, (hsound.live n hn).2⟩
    obtain ⟨cands, hgather, hoff⟩ := @Stocked.gatherCandidates _ _ _ _ h.stocked floor l.head
      (fun j hj => Set.eq_empty_iff_forall_notMem.mpr fun r hr => by
        have : j = 0 := (h.points j r hr).1
        subst this
        exact absurd hj (Nat.not_lt_zero _))
      fun r hr => le_trans (hmax r hr).1 (hmax r hr).2
    -- points are nested or apart, and nothing crosses between two of them
    obtain ⟨plan, hplan⟩ := planRestore_of_laminar hoff
      (fun r hr x hx => by
        obtain ⟨n, -, rfl⟩ := hpoint r hr
        obtain ⟨m, -, rfl⟩ := hpoint x hx
        rcases lt_trichotomy n m with hlt | rfl | hlt
        · exact .inr (.inr (.inl hlt))
        · exact .inl ⟨le_refl _, le_refl _⟩
        · exact .inr (.inr (.inr hlt)))
      (fun r hr => (hmax r hr).1) (fun r hr => (hmax r hr).2)
      (fun n hn hle => ⟨.point n, ⟨0, h.all n (hlive n hn hle)⟩, le_refl _, le_refl _⟩)
      (fun r hr hcross => by
        obtain ⟨n, -, rfl⟩ := hpoint r hr
        have h1 : n ≤ floor := hcross.1
        have h2 : floor < n := hcross.2
        omega)
    exact ⟨cands, plan, hgather, hplan⟩

/-- **Compaction keeps the head restorable.** In every run of the driver, with publishes, snapshots, ticks,
    crashes and failures at any storage operation and restarts, in which each batch the engine selects is nested
    with or apart from every stored range: from every snapshot from which the head could be planned had no
    compaction run, it can be planned. -/
theorem head_stays_restorable (ph : Physical) (pageSize : UInt32) (cfg : TriggerConfig) (d : DriverState)
    (hreach : DriverReaches ph pageSize cfg CrossesNothing d) (floor : Nat)
    (hfloor : (d.ledger.bucket.get (.changeset none .snapshot floor)).isSome)
    (hplain : Plans d.plain floor d.ledger.head) : Plans d.ledger.bucket floor d.ledger.head := by
  have hkept := hreach.kept
  have hpl := hreach.sound.2
  have hmax : ∀ r ∈ (shelves d.ledger.bucket).family, r.max ≤ d.ledger.head := by
    rintro r ⟨j, hj⟩
    exact (hkept.sound.max_le hj).2
  have hle : ∀ r ∈ (shelves d.ledger.bucket).family, r.min ≤ r.max := by
    rintro r ⟨j, hj⟩
    exact shelves_le hj
  obtain ⟨cands, hgather, hoff⟩ := @Stocked.gatherCandidates _ _ _ _ hkept.sound.stocked floor d.ledger.head
    (fun j hj => hkept.levels j (lt_trans (by decide) hj)) fun r hr => le_trans (hle r hr) (hmax r hr)
  -- nothing crosses the snapshot's seq
  have hcut : Uncrossed (shelves d.ledger.bucket).family floor := by
    rintro r ⟨j, hj⟩ ⟨hmin, hlt⟩
    exact (hkept.snapshots floor hfloor).1 (hkept.sound.seqs j r hj ⟨hmin, le_of_lt hlt⟩)
  obtain ⟨plan, hplan⟩ := planRestore_of_laminar hoff hkept.laminar hle hmax
    (fun n hn hnle => hkept.covers ((hpl.plans_iff hkept.sound).mp hplain n hn hnle)) hcut
  exact ⟨cands, plan, hgather, hplan⟩

/-! ### A fold that crosses -/

/-- The driver of the one-page database folds four files into level 1 and two into level 2. -/
def foldConfig : TriggerConfig := ⟨4, 2, 0⟩

namespace DriverState

def foldPublish (d : DriverState) : DriverState :=
  d.publish (foldObject (d.ledger.head + 1) (d.ledger.head + 1) none)

def foldSnapshot (d : DriverState) : DriverState :=
  d.snapshot (foldObject (d.ledger.head + 1) (d.ledger.head + 1) none).wire (foldChain (d.ledger.head + 1))

/-- A publish and the tick after it. -/
def synced (d : DriverState) (env : Env) : DriverState := d.foldPublish.tick env foldConfig true 0

end DriverState

def foldDriver : DriverState := DriverState.foldSnapshot ⟨⟨.empty, 0, fun _ => 0, ∅, 0⟩, none, .empty⟩

/-- A reachable state of the driver of the one-page database, and its chain value. -/
structure OnFold (meets : Env → Call → Bucket → Prop) (d : DriverState) : Prop where
  reached : DriverReaches (verifyingOf foldSha64) 512 foldConfig meets d
  val : d.ledger.val d.ledger.head = foldChain d.ledger.head

theorem onFold_start (meets : Env → Call → Bucket → Prop) : OnFold meets foldDriver :=
  ⟨.snapshot (.start _ _) _ _, rfl⟩

theorem OnFold.foldPublish {d : DriverState} (h : OnFold meets d)
    (hlt : d.ledger.head + 1 < 2 ^ 64) : OnFold meets d.foldPublish where
  reached := .publish h.reached (@foldNext 0 _ h.val hlt)
  val := Function.update_self ..

/-- Without a condition on the runs every tick can be taken. -/
theorem OnFold.tick {d : DriverState} (h : OnFold (fun _ _ _ => True) d) {env : Env} (producedL0 : Bool)
    (hcodec : env.ph = verifyingOf foldSha64) (hfaithful : env.Faithful) :
    OnFold (fun _ _ _ => True) (d.tick env foldConfig producedL0 0) where
  reached := .tick h.reached hcodec hfaithful fun _ _ => trivial
  val := h.val

theorem OnFold.synced {d : DriverState} (h : OnFold (fun _ _ _ => True) d)
    (hlt : d.ledger.head + 1 < 2 ^ 64) {env : Env} (hcodec : env.ph = verifyingOf foldSha64)
    (hfaithful : env.Faithful) : OnFold (fun _ _ _ => True) (d.synced env) :=
  (h.foldPublish hlt).tick true hcodec hfaithful

theorem mem_family_of_keys {b : Bucket} {keys : List Key} (hkeys : b.keys = keys) {r : SeqRange}
    (hr : r ∈ (shelves b).family) : ∃ j, ∃ key ∈ keys, keyRange j key = some r := by
  obtain ⟨j, key, hkey, hget⟩ := hr
  exact ⟨j, key, hkeys ▸ Store.mem_keys.mpr hget, hkey⟩

/-- The seqs 2 to 8 are published, and 2 to 5 merged; the run that merges 6 to 9 crashes with 8 and 9 not yet
    deleted. -/
def halfDeleted : DriverState :=
  (((((((foldDriver.synced foldEnv).synced foldEnv).synced foldEnv).synced foldEnv).synced foldEnv).synced
    foldEnv).synced foldEnv).synced (crashAt 20)

/-- After the restart the two objects of level 1 are folded into 2-9; with 10 and 11 the leftovers 8 and 9 make
    a batch again. -/
def crossed : DriverState :=
  ((halfDeleted.tick foldEnv foldConfig false 0).synced foldEnv).synced foldEnv

theorem onFold_crossed : OnFold (fun _ _ _ => True) crossed := by
  have hhealthy {d : DriverState} (h : OnFold (fun _ _ _ => True) d) (hlt : d.ledger.head + 1 < 2 ^ 64) :
      OnFold (fun _ _ _ => True) (d.synced foldEnv) := h.synced hlt rfl foldEnv_healthy.faithful
  have h8 := hhealthy (hhealthy (hhealthy (hhealthy (hhealthy (hhealthy (hhealthy (onFold_start _)
    (by decide)) (by decide)) (by decide)) (by decide)) (by decide)) (by decide)) (by decide)
  have h9 : OnFold (fun _ _ _ => True) halfDeleted := h8.synced (by decide) rfl (crashAt_faithful 20)
  exact hhealthy (hhealthy (h9.tick false rfl foldEnv_healthy.faithful) (by decide)) (by decide)

theorem crossed_keys : crossed.ledger.bucket.keys =
    [.changeset none .snapshot 1, .merged 2 2 9, .merged 1 8 11] := by decide +kernel

theorem crossed_family {r : SeqRange} (hr : r ∈ (shelves crossed.ledger.bucket).family) :
    r = ⟨2, 9⟩ ∨ r = ⟨8, 11⟩ := by
  obtain ⟨j, key, hkey, hrange⟩ := mem_family_of_keys crossed_keys hr
  simp only [mem_cons, not_mem_nil, or_false] at hkey
  rcases hkey with rfl | rfl | rfl
  · cases hrange
  · simp only [keyRange] at hrange
    split at hrange
    · exact .inl (Option.some.inj hrange).symm
    · cases hrange
  · simp only [keyRange] at hrange
    split at hrange
    · exact .inr (Option.some.inj hrange).symm
    · cases hrange

/-- **A crossing range strands the head**: the planner takes 2-9 and finds nothing that begins at 10, because
    10 is only in 8-11. Without compaction the head can be planned from the snapshot. -/
theorem crossed_head_lost : ∃ (ph : Physical) (pageSize : UInt32) (cfg : TriggerConfig) (d : DriverState)
    (floor : Nat), 2 ≤ cfg.l1Batch ∧ 2 ≤ cfg.l2Batch ∧
    DriverReaches ph pageSize cfg (fun _ _ _ => True) d ∧
    (d.ledger.bucket.get (.changeset none .snapshot floor)).isSome ∧
    Plans d.plain floor d.ledger.head ∧ ¬ Plans d.ledger.bucket floor d.ledger.head := by
  have hreach := onFold_crossed.reached
  obtain ⟨hsound, hplain⟩ := hreach.sound
  refine ⟨_, _, foldConfig, crossed, 1, by decide, by decide, hreach, ?_, ?_, ?_⟩
  · refine Store.mem_keys.mp ?_
    rw [crossed_keys]
    exact mem_cons_self
  · refine (hplain.plans_iff hsound).mpr fun n hn hle => ?_
    have hle : n ≤ 11 := hle
    show n ∈ (insert 11 (insert 10 (insert 9 (insert 8 (insert 7 (insert 6 (insert 5 (insert 4
      (insert 3 (insert 2 ∅))))))))) : Set Nat)
    simp only [Set.mem_insert_iff]
    omega
  · rintro ⟨cands, plan, hgather, hplan⟩
    have hmem := hsound.stocked.candidate_mem hgather
    obtain ⟨hfollows, hend⟩ := planRestore_tiles hplan
    have hend : endsAt 1 plan.files = 11 := hend (by decide)
    match plan.files, hfollows, hend with
    | [], _, hend => cases hend
    | c :: rest, ⟨hc, hmin, hfollows⟩, hend =>
      rcases crossed_family (hmem c hc) with heq | heq
      · rw [endsAt, heq] at hend
        rw [heq] at hfollows
        match rest, hfollows, hend with
        | [], _, hend => cases hend
        | c' :: _, ⟨hc', hmin', _⟩, _ =>
          rcases crossed_family (hmem c' hc') with heq' | heq' <;> rw [heq'] at hmin' <;> cases hmin'
      · rw [heq] at hmin
        cases hmin

/-! ### A run that crosses nothing -/

/-- Four incrementals, before the first tick. -/
def fourLive : DriverState := foldDriver.foldPublish.foldPublish.foldPublish.foldPublish

/-- The first tick merges them and crashes between two deletes; the head can still be planned. -/
theorem head_stays_restorable_fourLive : ∃ (ph : Physical) (pageSize : UInt32) (cfg : TriggerConfig)
    (d : DriverState) (floor : Nat), DriverReaches ph pageSize cfg CrossesNothing d ∧
    (d.ledger.bucket.get (.changeset none .snapshot floor)).isSome ∧
    d.ledger.bucket.get (.changeset none .live 2) = none ∧
    (d.ledger.bucket.get (.changeset none .live 5)).isSome ∧
    Plans d.plain floor d.ledger.head ∧ Plans d.ledger.bucket floor d.ledger.head := by
  have hfour : OnFold CrossesNothing fourLive := by
    have hstart := onFold_start CrossesNothing
    exact (((hstart.foldPublish (by decide)).foldPublish (by decide)).foldPublish (by decide)).foldPublish
      (by decide)
  -- the one run of the tick starts on the bucket as published: its ranges are points
  have hkeys : ((tickRuns (crashAt 21) foldConfig fourLive.triggers true 0 ⟨fourLive.ledger.bucket, 0⟩).map
      fun p => p.2.bucket.keys) = [[.changeset none .snapshot 1, .changeset none .live 2,
        .changeset none .live 3, .changeset none .live 4, .changeset none .live 5]] := by decide +kernel
  have hreach : DriverReaches (verifyingOf foldSha64) 512 foldConfig CrossesNothing
      (fourLive.tick (crashAt 21) foldConfig true 0) := by
    refine .tick hfour.reached rfl (crashAt_faithful 21) fun p hp all targets first rest hb x hx => ?_
    have hp : p.2.bucket.keys ∈ (tickRuns (crashAt 21) foldConfig fourLive.triggers true 0
        ⟨fourLive.ledger.bucket, 0⟩).map fun p => p.2.bucket.keys :=
      mem_map_of_mem (f := fun p : Call × Storage => p.2.bucket.keys) hp
    rw [hkeys, mem_singleton] at hp
    obtain ⟨j, key, hkey, hrange⟩ := mem_family_of_keys hp hx
    have hpoint : x.min = x.max := by
      simp only [mem_cons, not_mem_nil, or_false] at hkey
      rcases hkey with rfl | rfl | rfl | rfl | rfl
      · cases hrange
      all_goals
        simp only [keyRange] at hrange
        split at hrange
        · rw [← Option.some.inj hrange]
          rfl
        · cases hrange
    -- a point is inside a range or apart from it
    by_cases hin : (spanOf first rest).min ≤ x.min ∧ x.max ≤ (spanOf first rest).max
    · exact .inr (.inl hin)
    · refine .inr (.inr ?_)
      show _ < _ ∨ _ < _
      omega
  have hsnap : ((fourLive.tick (crashAt 21) foldConfig true 0).ledger.bucket.get
      (.changeset none .snapshot 1)).isSome := by decide +kernel
  have hplain : Plans fourLive.plain 1 5 := by
    obtain ⟨hsound, hpl⟩ := hfour.reached.sound
    refine (hpl.plans_iff hsound).mpr fun n hn hle => ?_
    have hle : n ≤ 5 := hle
    show n ∈ (insert 5 (insert 4 (insert 3 (insert 2 ∅))) : Set Nat)
    simp only [Set.mem_insert_iff]
    omega
  exact ⟨_, _, _, fourLive.tick (crashAt 21) foldConfig true 0, 1, hreach, hsnap, by decide +kernel,
    by decide +kernel, hplain, head_stays_restorable _ _ _ _ hreach 1 hsnap hplain⟩

end Compaction
end Walrust
