import Walrust.Watch.Effects

/-!
# `Walrust.Watch.Reanchor` — a restart anchors the stream before it publishes

A watcher that is started on an existing stream has lost the chain value and the WAL position of the process before
it, or finds a WAL that was reset while it was down. An incremental that it publishes then continues nothing, unless
a snapshot of its own comes first.

Both watchers try to take that snapshot while they start, and both go on if they cannot: the independent watcher logs
the failed anchor, the shadow watcher a failed startup snapshot, and without a detected reset it takes none unless it
is told to. With the disk cache on, the shadow watcher's uploader starts with what the last process left pending,
before anything else happens.

* `AnchoredFirst` — every incremental was stored behind a snapshot of the same process;
* `StartsWell` — what the steps of the startup must do for that;
* `anchored_first` — then it holds in every state of the run.
-/

namespace Walrust
namespace Watch

open Wal Sqlite Legacy Lib List Oracle
open Lib (Moves)
open SqliteEnv (wal main)

variable {st : WatchedDbState}

/-- Every incremental among the keys stored since the start (the newest first) was stored behind a snapshot. -/
def AnchoredFirst (stored : List LtxKey) : Prop :=
  ∀ later key earlier, stored = later ++ key :: earlier → IsIncrementalKey key → ∃ k ∈ earlier, IsSnapshotKey k

theorem IsSnapshotKey.not_incremental {k : LtxKey} (h : IsSnapshotKey k) : ¬ IsIncrementalKey k := by
  rintro ⟨lo, hi, hk⟩
  obtain ⟨g, txid, rfl, hg⟩ := h
  cases hk
  exact absurd hg (by decide)

/-! ## Anchored records -/

/-- The keys stored first are no incrementals, and one of them is a snapshot. -/
def Anchored (stored : List LtxKey) : Prop :=
  ∃ first, first <:+ stored ∧ (∀ k ∈ first, ¬ IsIncrementalKey k) ∧ ∃ k ∈ first, IsSnapshotKey k

theorem Anchored.suffix {stored stored' : List LtxKey} (h : Anchored stored) (hs : stored <:+ stored') :
    Anchored stored' := by
  obtain ⟨first, hfirst, hrest⟩ := h
  exact ⟨first, hfirst.trans hs, hrest⟩

theorem Anchored.anchoredFirst {stored : List LtxKey} (h : Anchored stored) : AnchoredFirst stored := by
  obtain ⟨first, hfirst, hnone, hsnap⟩ := h
  intro later key earlier heq hinc
  have hkey : key ∉ first := fun hk => hnone key hk hinc
  have hrest : (key :: earlier) <:+ stored := ⟨later, heq.symm⟩
  rcases suffix_or_suffix_of_suffix hfirst hrest with h | h
  · rcases suffix_cons_iff.mp h with rfl | h
    · exact absurd mem_cons_self hkey
    · obtain ⟨k, hk, hsnap⟩ := hsnap
      exact ⟨k, h.subset hk, hsnap⟩
  · exact absurd (h.subset mem_cons_self) hkey

theorem anchoredFirst_of_none {stored : List LtxKey} (h : ∀ k ∈ stored, ¬ IsIncrementalKey k) :
    AnchoredFirst stored := by
  intro later key earlier heq hinc
  refine absurd hinc (h key ?_)
  rw [heq]
  simp

section

variable {E A : Type} [SqliteEnv E A]

variable {b : LtxBucket} {cfg : WatchConfig} {t : Tools E} {w' w : World E} {o : Oracle A}

/-! ## Runs -/

/-- What the startup must do. The anchor of the independent watcher returns. The shadow watcher starts with nothing
    left to upload, takes a snapshot, and that returns. -/
def StartsWell (t : Tools E) (cfg : WatchConfig) : Action E A → World E × Process → Prop
  | .anchor _ first rest, (w, .booted st) => ∃ st' w', withRetry (anchorStreamOnStartup t st) first rest w = .ok st' w'
  | .bootShadow _, (w, _) => cfg.cached = false ∨ ∀ m ∈ w.cache.saved, m.pending = [] ∧ m.failed = []
  | .startup first rest, (w, .copied task eager) =>
    (eager ∨ cfg.onStartup) ∧ ∃ st' w', shadowSnapshot t task.st first rest w = .ok st' w'
  | _, _ => True

/-- The states of a process that is started in `w₀`. -/
inductive Started (t : Tools E) (cfg : WatchConfig) (w₀ : World E) : World E × Process → Prop where
  | start : Started t cfg w₀ (w₀.restart, .idle)
  | step {a : Action E A} {s s' : World E × Process} : Started t cfg w₀ s → Step t cfg a s s' → StartsWell t cfg a s →
      Started t cfg w₀ s'

/-! ## The phases -/

/-- **What holds in each phase.** Until the snapshot of the startup nothing has been stored, and the uploader has
    nothing to upload. -/
def Phase (b : LtxBucket) : World E × Process → Prop
  | (w, .idle) => w.stored = [] ∧ w.bucket = b
  | (w, .booted st) => w.stored = [] ∧ 0 < st.currentTxid
  | (w, .opened task) | (w, .copied task _) => w.stored = [] ∧ task.queue = []
  | (w, .ended) => (∀ k ∈ w.stored, ¬ IsIncrementalKey k) ∨ Anchored w.stored
  | (w, _) => Anchored w.stored

omit [SqliteEnv E A] in
theorem Phase.anchoredFirst {s : World E × Process} (h : Phase b s) : AnchoredFirst s.1.stored := by
  obtain ⟨w, p⟩ := s
  have hnil : w.stored = [] → AnchoredFirst w.stored := fun hw => anchoredFirst_of_none (by simp [hw])
  cases p with
  | idle | booted | opened | copied => exact hnil h.1
  | ended => exact h.elim anchoredFirst_of_none Anchored.anchoredFirst
  | anchored | independent | shadow | draining => exact Anchored.anchoredFirst h

omit [SqliteEnv E A] in
/-- A phase depends on the record and, before the start, on the bucket. -/
theorem Phase.congr {p : Process} (h : Phase b (w, p)) (hstored : w'.stored = w.stored)
    (hbucket : w'.bucket = w.bucket) : Phase b (w', p) := by
  cases p <;> simp only [Phase, hstored, hbucket] at h ⊢ <;> exact h

omit [SqliteEnv E A] in
/-- Where the uploader has work the record is anchored, and an upload keeps the phase. -/
theorem Phase.upload {p : Process} {txid : Nat} (hs : Phase b (w, p)) (hmem : txid ∈ p.queue)
    (hsuffix : w.stored <:+ w'.stored) : Anchored w'.stored ∧ ∀ queue, Phase b (w', p.setQueue queue) := by
  have hworking (hw : Anchored w.stored) : Anchored w'.stored := hw.suffix hsuffix
  cases p with
  | independent | shadow | draining => exact ⟨hworking hs, fun _ => hworking hs⟩
  | opened | copied => exact absurd hmem (by simp [Process.queue, hs.2])
  | _ => exact absurd hmem not_mem_nil

/-! ## One step -/

omit [SqliteEnv E A] in
/-- A call leads on, or ends the process; either way it has stored what it may store. -/
theorem leadsTo_cases {P : LtxKey → Prop} {α : Type} {x : Run E α} (h : Stores P x) (next : α → Process) :
    ∃ w', Stored P w w' ∧
      ((∃ a, x w = .ok a w' ∧ leadsTo (x w) next = (w', next a)) ∨ leadsTo (x w) next = (w', .ended)) := by
  have hw := h w
  cases hres : x w with
  | ok a w' =>
    rw [hres] at hw
    exact ⟨w', hw, .inl ⟨a, rfl, rfl⟩⟩
  | error e w' =>
    rw [hres] at hw
    exact ⟨w', hw, .inr rfl⟩

omit [SqliteEnv E A] in
/-- A call from an anchored state leads to anchored states only. -/
theorem leadsTo_anchored {P : LtxKey → Prop} {α : Type} {x : Run E α} (h : Stores P x) (hw : Anchored w.stored)
    {next : α → Process} (hnext : ∀ a (w' : World E), Anchored w'.stored → Phase b (w', next a)) :
    Phase b (leadsTo (x w) next) := by
  obtain ⟨w', hstored, ⟨a, -, hto⟩ | hto⟩ := leadsTo_cases h next
  · rw [hto]
    exact hnext a w' (hw.suffix hstored.suffix)
  · rw [hto]
    exact .inr (hw.suffix hstored.suffix)

omit [SqliteEnv E A] in
/-- Nothing stored so far, and then only snapshots: no incremental. -/
theorem Stored.none_incremental (h : Stored IsSnapshotKey w w') (hw : w.stored = []) :
    ∀ k ∈ w'.stored, ¬ IsIncrementalKey k := by
  obtain ⟨objects, hP, hstored, -⟩ := h
  intro k hk
  rw [hstored, hw, append_nil] at hk
  obtain ⟨o, ho, rfl⟩ := mem_map.mp hk
  exact (hP o ho).not_incremental

theorem performWrite_ok {op : Op} {write : Run E Unit} {u : Unit} (h : performWrite o op write w = .ok u w') :
    ∃ w₁, interfere (o.env op) w = .ok () w₁ ∧ write w₁ = .ok u w' := by
  have hrun := returns_of_ok h
  rw [performWrite, returns_bind] at hrun
  obtain ⟨_, w₁, hact, hrun⟩ := hrun
  cases hfault : o.fault op with
  | none =>
    rw [hfault] at hrun
    obtain ⟨v, w₂, hwrite, rfl, rfl⟩ := hrun
    exact ⟨w₁, hact, hwrite⟩
  | fails =>
    rw [hfault] at hrun
    exact absurd hrun (by simp [fail])
  | failsStored =>
    rw [hfault] at hrun
    obtain ⟨-, w₂, -, hrun⟩ := returns_bind.mp hrun
    exact absurd hrun (by simp [fail])
  | crash =>
    rw [hfault] at hrun
    exact absurd hrun (by simp)

theorem snapshotDatabaseToStorage_stored {r : Nat × UInt64}
    (h : snapshotDatabaseToStorage t o w = .ok r w') : ∃ k ∈ w'.stored, IsSnapshotKey k := by
  have hrun := returns_of_ok h
  simp only [snapshotDatabaseToStorage, returns_bind, returns_pure] at hrun
  obtain ⟨-, w₁, -, pageSize, w₂, -, state, w₃, -, snapshot, w₄, -, u, w₅, hput, -, rfl⟩ := hrun
  obtain ⟨w₆, -, hstore⟩ := performWrite_ok hput
  cases hstore
  exact ⟨_, mem_cons_self, _, _, rfl, Nat.succ_pos _⟩

theorem takeSnapshotToStorage_stored {out : SyncOutput}
    (h : takeSnapshotToStorage t st o w = .ok out w') : ∃ k ∈ w'.stored, IsSnapshotKey k := by
  have hrun := returns_of_ok h
  simp only [takeSnapshotToStorage, returns_bind, returns_pure] at hrun
  obtain ⟨snapshot, w₁, hsnap, salt, w₂, hsalt, -, rfl⟩ := hrun
  obtain ⟨k, hk, hkey⟩ := snapshotDatabaseToStorage_stored hsnap
  have hmore : Stored (fun _ => True) _ _ := readSalt_moves.of_ok hsalt
  exact ⟨k, hmore.suffix.subset hk, hkey⟩

theorem anchor_anchored {st' : WatchedDbState} {first : Oracle A} {rest : List (Oracle A)}
    (hst : 0 < st.currentTxid) (hw : w.stored = [])
    (h : withRetry (anchorStreamOnStartup t st) first rest w = .ok st' w') : Anchored w'.stored := by
  have hstored := (withRetry_moves fun _ => anchorStreamOnStartup_stores hst).of_ok h
  refine ⟨w'.stored, suffix_refl _, hstored.none_incremental hw, ?_⟩
  obtain ⟨o, w₁, hattempt⟩ := withRetry_ok h
  have hrun := returns_of_ok hattempt
  simp only [anchorStreamOnStartup, if_pos hst, returns_bind, returns_pure] at hrun
  obtain ⟨out, w₂, hsnap, -, rfl⟩ := hrun
  exact takeSnapshotToStorage_stored hsnap

theorem shadowSnapshot_anchored {st st' : ShadowWatchState} {first : Oracle A} {rest : List (Oracle A)}
    (hw : w.stored = []) (h : shadowSnapshot t st first rest w = .ok st' w') : Anchored w'.stored := by
  have hstored := shadowSnapshot_stores.of_ok h
  refine ⟨w'.stored, suffix_refl _, hstored.none_incremental hw, ?_⟩
  have hrun := returns_of_ok h
  simp only [shadowSnapshot, takeSnapshotWithRetry, returns_bind, returns_get, returns_pure] at hrun
  obtain ⟨out, w₁, hsnap, -, rfl⟩ := hrun
  obtain ⟨o, w₂, hattempt⟩ := withRetry_ok hsnap
  exact takeSnapshotToStorage_stored hattempt

/-- The manifest in memory after an update that returned. -/
theorem updateManifest_manifest {f : CacheManifest → CacheManifest} {u : Unit}
    (h : updateManifest o f w = .ok u w') : w'.cache.manifest = f w.cache.manifest := by
  have hrun := returns_of_ok h
  obtain ⟨_, w₁, hwrite, -, rfl⟩ := hrun
  obtain ⟨w₂, hact, hsave⟩ := performWrite_ok hwrite
  have hcache : SameCache _ w₂ := interfere_moves.of_ok hact
  cases hsave
  show w₂.cache.manifest = _
  rw [hcache.1]

/-- A process that opens the cache with nothing left in it has nothing to upload. -/
theorem resumeUploads_empty {cached : Bool} {queue : List Nat}
    (hw : cached = false ∨ ∀ m ∈ w.cache.saved, m.pending = [] ∧ m.failed = [])
    (h : resumeUploads cached o w = .ok queue w') : queue = [] := by
  rw [resumeUploads] at h
  split at h
  · next hcached =>
    have hrun := returns_of_ok h
    simp only [returns_bind, returns_get, returns_pure] at hrun
    obtain ⟨_, w₁, hopen, hqueue, -⟩ := hrun
    have hpending : w₁.cache.manifest.pending = [] := by
      have hin := returns_of_ok hopen
      simp only [openCache, returns_bind, returns_get] at hin
      cases hsaved : w.cache.saved with
      | none =>
        simp only [LocalCache.newAt, hsaved, Option.any_none, Bool.false_eq_true, if_false] at hin
        obtain ⟨u, w₂, hupdate, -, rfl⟩ := hin
        rw [updateManifest_manifest hupdate]
        rfl
      | some m =>
        obtain ⟨hpending, hfailed⟩ := hw.resolve_left (by simp [hcached]) m hsaved
        simp only [LocalCache.newAt, hsaved, hfailed, if_true, Option.any_some, decide_true, modifyCache,
          returns_modify] at hin
        rw [← hin.2]
        exact hpending
    rw [← hqueue, CacheManifest.pendingUploads, hpending]
    exact mergeSort_nil
  · cases h
    rfl

theorem bootShadow_queue {task : Task ShadowWatchState}
    (hw : cfg.cached = false ∨ ∀ m ∈ w.cache.saved, m.pending = [] ∧ m.failed = [])
    (h : bootShadow t cfg o w = .ok task w') : task.queue = [] := by
  have hrun := returns_of_ok h
  simp only [bootShadow, returns_bind, returns_pure] at hrun
  obtain ⟨checksum, w₁, h₁, _, w₂, h₂, st, w₃, h₃, queue, w₄, h₄, rfl, -⟩ := hrun
  have hcache : w₃.cache = w.cache := by
    have hfirst : SameCache w w₁ := seededChecksum_moves.of_ok h₁
    have hsecond : SameCache w₁ w₂ := newShadow_moves.of_ok h₂
    have hthird : SameCache w₂ w₃ := resumeShadow_moves.of_ok h₃
    exact hthird.1.trans (hsecond.1.trans hfirst.1)
  rw [← hcache] at hw
  exact resumeUploads_empty hw h₄

theorem bootIndependent_txid (h : bootIndependent t cfg o w = .ok st w') :
    st.currentTxid = (discoverLegacyState w.bucket).1 := by
  have hrun := returns_of_ok h
  simp only [bootIndependent, discoverState, returns_bind, returns_get, returns_pure] at hrun
  obtain ⟨_, w₁, h₁, checksum, w₂, h₂, rfl, -⟩ := hrun
  have hsame : Stored (fun _ => False) w w₁ := perform_moves.of_ok h₁
  rw [show w₁.bucket = w.bucket from hsame.eq.2]

omit [SqliteEnv E A] in
/-- A call that stores nothing, from a state in which nothing is stored. -/
theorem leadsTo_nothing {α : Type} {x : Run E α} (h : Stores (fun _ => False) x) (hw : w.stored = [])
    {next : α → Process}
    (hnext : ∀ a w', x w = .ok a w' → w'.stored = [] → Phase b (w', next a)) : Phase b (leadsTo (x w) next) := by
  obtain ⟨w', hstored, ⟨a, hrun, hto⟩ | hto⟩ := leadsTo_cases h next
  · rw [hto]
    exact hnext a w' hrun (hstored.eq.1.trans hw)
  · rw [hto]
    refine .inl ?_
    rw [hstored.eq.1.trans hw]
    exact fun k hk => absurd hk not_mem_nil

/-- **Every step of a start that goes well keeps the phases.** -/
theorem act_phase (hb : 0 < (discoverLegacyState b).1) {a : Action E A} {s s' : World E × Process}
    (h : act t cfg a s = some s') (hwell : StartsWell t cfg a s) (hs : Phase b s) : Phase b s' := by
  rw [act.eq_def] at h
  split at h
  · next o w =>
    cases h
    apply leadsTo_nothing bootIndependent_moves hs.1
    intro st w' hrun hnone
    refine ⟨hnone, ?_⟩
    rw [bootIndependent_txid hrun, hs.2]
    exact hb
  · next emptyFile first rest w st =>
    cases h
    obtain ⟨st', w', hrun⟩ := hwell
    have hanchor : anchorIndependent t st emptyFile first rest w = .ok st' w' := by
      rw [anchorIndependent, if_pos hs.2, logged, hrun]
    rw [hanchor]
    exact anchor_anchored hs.2 hs.1 hrun
  · next o w st =>
    cases h
    exact leadsTo_anchored (spawnIndependent_stores (P := fun _ => True)) hs fun _ _ hw => hw
  · next first rest w task =>
    cases h
    exact leadsTo_anchored independentTick_stores hs fun _ _ hw => hw
  · next first rest w task =>
    cases h
    exact leadsTo_anchored takeSnapshotWithRetry_stores hs fun _ _ hw => hw
  · next o w =>
    cases h
    apply leadsTo_nothing bootShadow_stores hs.1
    intro task w' hrun hnone
    exact ⟨hnone, bootShadow_queue hwell hrun⟩
  · next o w task =>
    cases h
    apply leadsTo_nothing initialShadowCopy_moves hs.1
    intro r w' _ hnone
    exact ⟨hnone, hs.2⟩
  · next first rest w task eager =>
    obtain ⟨hasked, st', w', hrun⟩ := hwell
    rw [if_pos (by simpa using hasked)] at h
    cases h
    have hlogged : logged (some <$> shadowSnapshot t task.st first rest) none w = .ok (some st') w' := by
      have hmap : (some <$> shadowSnapshot t task.st first rest) w = .ok (some st') w' := by
        rw [map_eq_pure_bind, bind_of_ok hrun]
        rfl
      rw [logged, hmap]
    rw [startupSnapshot, bind_of_ok hlogged]
    have hsave : Stores (fun _ => True) (do
        saveProgress first (st'.reanchored w'.shadow)
        return st'.reanchored w'.shadow : Run E ShadowWatchState) :=
      .bind saveProgress_stores fun _ => .pure _
    exact leadsTo_anchored hsave (shadowSnapshot_anchored hs.1 hrun) fun _ _ hw => hw
  · next first rest w task =>
    cases h
    exact leadsTo_anchored shadowTick_stores hs fun _ _ hw => hw
  · next first rest w task =>
    cases h
    exact leadsTo_anchored periodicSnapshot_stores hs fun _ _ hw => hw
  · next first rest w task =>
    cases h
    exact leadsTo_anchored drainShadow_stores hs fun _ _ hw => hw
  · next o w st out queue =>
    cases h
    exact leadsTo_anchored (P := fun _ => True) checkpointDrained_stores hs fun _ _ hw => hw
  · next txid first rest w p =>
    split at h
    · next hmem =>
      split at h
      · next w' hrun =>
        cases h
        exact (hs.upload hmem (uploadTxid_stores.of_ok hrun).suffix).2 _
      · next w' hrun =>
        cases h
        exact (hs.upload hmem (uploadTxid_stores.of_error hrun).suffix).2 _
      · next e w' _ hrun =>
        cases h
        exact .inr (hs.upload hmem (uploadTxid_stores.of_error hrun).suffix).1
    · cases h
  · next acts w p =>
    split at h
    · next w' hrun =>
      have hsame : Stored (fun _ => False) w w' := interfere_moves.of_ok hrun
      cases h
      exact hs.congr hsame.eq.1 hsame.eq.2
    · cases h
  · cases h

/-- **A watcher whose start goes well anchors an existing stream before it publishes an incremental.** -/
theorem anchored_first (t : Tools E) (cfg : WatchConfig) (w₀ : World E) (s : World E × Process)
    (hstream : 0 < (discoverLegacyState w₀.bucket).1) (h : Started t cfg w₀ s) : AnchoredFirst s.1.stored := by
  have hphase : Phase w₀.bucket s := by
    induction h with
    | start => exact ⟨rfl, rfl⟩
    | @step a s s' _ hstep hwell ih =>
      cases hstep with
      | act h => exact act_phase hstream h hwell ih
      | @maintain w p b ha hp hmaintained =>
        cases p with
        | independent task => exact ih
        | shadow task => exact ih
        | _ => cases hp
  exact hphase.anchoredFirst

/-! ### An anchor that fails -/

section Quiet

variable {op : Op} {Q : Unit → World E → Prop}

theorem returns_perform (hfault : o.fault op = .none) (henv : o.env op = []) :
    Returns (perform o op) w Q ↔ Q () w := by
  simp [perform, henv, hfault, interfere]

theorem returns_performWrite (hfault : o.fault op = .none) (henv : o.env op = [])
    {write : Run E Unit} : Returns (performWrite o op write) w Q ↔ Returns write w Q := by
  simp [performWrite, henv, hfault, interfere]

end Quiet

end

/-- Nothing goes wrong and nothing happens. -/
def Oracle.quiet {A : Type} : Oracle A := ⟨fun _ => .none, fun _ => [], [], [], 0, 0⟩

/-- The first checkpoint of a snapshot fails. -/
def Oracle.noCheckpoint {A : Type} : Oracle A :=
  { quiet with fault := fun op => if op = .passiveCheckpoint then .fails else .none }

/-- A direct watcher without options. -/
def plainConfig : WatchConfig := ⟨"app", false, false, none⟩

/-- A first page that says 512. -/
def firstPage : Bytes := "SQLite format 3\x00".toUTF8.toList ++ [2, 0] ++ replicate 494 0

/-- A stream with a snapshot at TXID 1, and a database with one commit in its WAL. -/
def standingWorld : World (Db 512) where
  db := { image := firstPage ++ replicate 512 7, main := firstPage,
          wal := some (fillTwo [7]), restart := false, salts := [(1, 2)], commits := 1, walStart := 0, inMain := 0 }
  bucket := { entries := [(.file 1 1 1, [])], nodup := by decide }
  segments := Store.empty
  progress := none
  cache := ⟨Store.empty, .default, none⟩
  shadow := ⟨0, 0, 0, 512, (0, 0), none, false⟩
  stored := []

/-- What its watcher starts with. -/
def standingState (checksum : UInt64) : WatchedDbState := ⟨"app", 0, 0, 1, some checksum, none, none⟩

theorem boot_standingWorld (t : Tools (Db 512)) : ∃ checksum,
    act t plainConfig (.bootIndependent quiet) (standingWorld.restart, .idle) =
      some (standingWorld, .booted (standingState checksum)) :=
  ⟨computeDbChecksum t.ltx t.sha64 (main standingWorld.db), rfl⟩

theorem read_fillTwo : ∃ r, readFramesAsPageMapChecked (fillTwo [7]).bytes (fillTwo [7]).bytes 512 0 none = .ok r ∧
    r.pageMap.length = 1 ∧ 0 < r.frameCount := by
  have hread : (readFramesAsPageMapChecked (fillTwo [7]).bytes (fillTwo [7]).bytes 512 0 none).toOption.map
      (fun r => (r.pageMap.length, decide (0 < r.frameCount))) = some (1, true) := by decide +kernel
  cases h : readFramesAsPageMapChecked (fillTwo [7]).bytes (fillTwo [7]).bytes 512 0 none with
  | error e =>
    rw [h] at hread
    cases hread
  | ok r =>
    rw [h] at hread
    simp only [Except.toOption, Option.map_some, Option.some.injEq, Prod.mk.injEq, decide_eq_true_eq] at hread
    exact ⟨r, rfl, hread⟩

/-- A sync from the start of that WAL publishes the commit as an incremental. -/
theorem sync_fillTwo {t : Tools (Db 512)} (ht : ∀ header pages post, ∃ bytes, t.encode header pages post = .ok bytes)
    {w : World (Db 512)} (hwal : wal w.db = (fillTwo [7]).bytes) {st : WatchedDbState} {checksum : UInt64}
    (hoffset : st.walOffset = 0) (hsalt : st.walSalt.all (· = (1, 2))) (htxid : st.currentTxid ≠ 0)
    (hchecksum : st.dbChecksum = some checksum) :
    Returns (syncWalToStorage t st quiet) w fun _ w' =>
      w'.stored = .file 0 (st.currentTxid + 1) (st.currentTxid + 1) :: w.stored := by
  obtain ⟨r, hread, hlen, -⟩ := read_fillTwo
  have hheader : readHeader (wal w.db) = .ok (some (fillTwo [7]).header) := by
    rw [hwal]
    exact (fillTwo [7]).readHeader_bytes
  have hfile : readFramesAsPageMapChecked (wal w.db) (wal w.db)
      (fillTwo [7]).header.pageSize st.walOffset st.chainSeed = .ok r := by
    rw [hwal, hoffset, WatchedDbState.chainSeed, if_pos (.inl hoffset)]
    exact hread
  have hstays : ¬ st.rollover (wal w.db).length (fillTwo [7]).header.salt := by
    have hours : (fillTwo [7]).header.salt = (1, 2) := rfl
    rw [WatchedDbState.rollover, hoffset, hours]
    cases hs : st.walSalt with
    | none => simp
    | some salt =>
      rw [hs] at hsalt
      obtain rfl : salt = (1, 2) := by simpa using hsalt
      simp
  have hbatch : Returns (readWalBatch st quiet) w
      fun batch w' => batch = .frames (fillTwo [7]).header r ∧ w' = w := by
    rw [readWalBatch, returns_bind, readWalHeader, returns_bind, returns_perform rfl rfl, returns_bind,
      returns_get, hheader]
    simp only [returns_pure, returns_bind, returns_perform (o := .quiet) rfl rfl, returns_get]
    rw [if_neg hstays, returns_bind, returns_perform rfl rfl, returns_bind, returns_get,
      show quiet.env Op.resetCheck = ([] : List (Sqlite.Action 512)) from rfl, interfere, returns_bind,
      returns_pure, returns_bind, returns_get, hfile]
    exact returns_pure.mpr ⟨rfl, rfl⟩
  rw [syncWalToStorage, if_neg htxid, returns_bind]
  obtain ⟨batch, w', hrun, rfl, rfl⟩ := hbatch
  refine ⟨_, _, hrun, ?_⟩
  have hmap : ¬ r.pageMap.isEmpty := by
    intro h
    rw [isEmpty_iff.mp h] at hlen
    cases hlen
  show Returns (publishBatch t _ quiet _ r) w' _
  rw [publishBatch, if_neg hmap, encodeIncremental, returns_bind, preChecksum, hchecksum]
  simp only [returns_pure, returns_bind, returns_get]
  split
  · next e herr =>
    obtain ⟨bytes, hbytes⟩ := ht _ _ _
    exact absurd (hbytes.symm.trans herr) (by simp)
  · next bytes _ =>
    rw [returns_pure, putObject, returns_performWrite rfl rfl, storeObject, returns_modify, hlen]
    rfl

theorem tick_of_sync {t : Tools (Db 512)} {w w' : World (Db 512)} {out : SyncOutput}
    (h : syncWalToStorage t st quiet w = .ok out w') :
    ∃ task, act t plainConfig (.tick quiet []) (w, .independent ⟨st, []⟩) = some (w', .independent task) := by
  have hattempt : withRetry (syncWalToStorage t st) quiet [] w = .ok out w' := h
  have hdo : doSync t false st quiet [] w = .ok (st.apply out, out.frameCount) w' := by
    rw [doSync, if_neg (by decide), bind_of_ok hattempt]
    rfl
  have hrun : independentTick t plainConfig ⟨st, []⟩ quiet [] w = .ok ⟨st.apply out, []⟩ w' := by
    exact (bind_of_ok hdo).trans rfl
  exact ⟨_, congrArg (fun r => some (leadsTo r Process.independent)) hrun⟩

/-- The checkpoint of the anchor fails, which is only logged; the next tick publishes the commit of the WAL as an
    incremental. So it is with every encoder that returns. -/
theorem incremental_before_anchor : ∃ (cfg : WatchConfig) (w₀ : World (Db 512)),
    0 < (discoverLegacyState w₀.bucket).1 ∧ ∀ t : Tools (Db 512),
      (∀ header pages post, ∃ bytes, t.encode header pages post = .ok bytes) →
      ∃ s, Relation.ReflTransGen (fun s s' => ∃ a, Step t cfg a s s') (w₀.restart, .idle) s ∧
        s.1.stored = [.file 0 2 2] ∧ ¬ AnchoredFirst s.1.stored := by
  refine ⟨plainConfig, standingWorld, by decide, ?_⟩
  intro t ht
  obtain ⟨checksum, hboot⟩ := boot_standingWorld t
  have hanchor : act t plainConfig (.anchor false noCheckpoint []) (standingWorld, .booted (standingState checksum)) =
      some (standingWorld, .anchored (standingState checksum)) := rfl
  have hspawn : act t plainConfig (.spawn quiet) (standingWorld, .anchored (standingState checksum)) =
      some (standingWorld, .independent ⟨standingState checksum, []⟩) := rfl
  obtain ⟨out, w, hsync, hstored⟩ := @sync_fillTwo t ht standingWorld rfl (standingState checksum) checksum rfl rfl
    one_ne_zero rfl
  obtain ⟨task, htick⟩ := tick_of_sync hsync
  refine ⟨(w, .independent task), ?_, hstored, ?_⟩
  · exact (((Relation.ReflTransGen.single ⟨_, .act hboot⟩).tail ⟨_, .act hanchor⟩).tail ⟨_, .act hspawn⟩).tail
      ⟨_, .act htick⟩
  · intro h
    obtain ⟨k, hk, -⟩ := h [] (.file 0 2 2) [] hstored ⟨2, 2, rfl⟩
    cases hk

/-- A snapshot with nothing in its way is stored under the TXID after those of the bucket. -/
theorem snapshotDatabaseToStorage_quiet {t : Tools (Db 512)} {w : World (Db 512)} {head generation : Nat}
    (ht : ∀ header pages post, ∃ bytes, t.encode header pages post = .ok bytes)
    (hsize : Sync.getPageSize (main w.db) = .ok 512) (hstate : discoverLegacyState w.bucket = (head, generation)) :
    ∃ bytes checksum, snapshotDatabaseToStorage t quiet w = .ok (head + 1, checksum) { w with
      bucket := w.bucket.put (.file (generation + 1) 1 (head + 1)) bytes
      stored := .file (generation + 1) 1 (head + 1) :: w.stored } := by
  have hencode : ∃ r, encodeSnapshotWithChecksum t 0 (t.vacuumInto w.db) 512 (head + 1) = .ok r := by
    obtain ⟨bytes, hbytes⟩ := ht _ _ _
    exact ⟨_, by rw [encodeSnapshotWithChecksum, hbytes]⟩
  obtain ⟨⟨bytes, checksum⟩, hencode⟩ := hencode
  have hrun : Returns (snapshotDatabaseToStorage t quiet) w fun r w' => r = (head + 1, checksum) ∧ w' = { w with
      bucket := w.bucket.put (.file (generation + 1) 1 (head + 1)) bytes
      stored := .file (generation + 1) 1 (head + 1) :: w.stored } := by
    rw [snapshotDatabaseToStorage, returns_bind, checkpointWalPassive, returns_bind, returns_perform rfl rfl,
      show quiet.passive = ([] : List (Sqlite.Action 512)) from rfl, interfere, returns_pure,
      returns_bind, readPageSize, returns_bind, returns_perform rfl rfl, returns_bind, returns_get,
      hsize]
    simp only [returns_pure, returns_bind, discoverState, returns_perform (o := .quiet) rfl rfl,
      returns_get, hstate, encodeSqliteSnapshot]
    rw [show quiet.now = (0 : Int64) from rfl, hencode]
    simp only [returns_pure, putObject, returns_performWrite (o := .quiet) rfl rfl, storeObject,
      returns_modify]
    exact ⟨trivial, trivial⟩
  obtain ⟨_, _, hrun, rfl, rfl⟩ := hrun
  exact ⟨bytes, checksum, hrun⟩

/-- The anchor of this stream, with nothing in its way. -/
theorem anchor_standingWorld {t : Tools (Db 512)}
    (ht : ∀ header pages post, ∃ bytes, t.encode header pages post = .ok bytes) (checksum : UInt64) :
    Returns (anchorStreamOnStartup t (standingState checksum) quiet) standingWorld
      fun st w => w.stored = [.file 2 1 2] ∧ w.db = standingWorld.db ∧ st.walOffset = 0 ∧ st.walSalt = some (1, 2) ∧
        st.currentTxid = 2 ∧ ∃ c, st.dbChecksum = some c := by
  obtain ⟨bytes, c, hrun⟩ := @snapshotDatabaseToStorage_quiet t standingWorld 1 1 ht (by decide +kernel) (by decide)
  generalize hw : ({ standingWorld with
    bucket := _
    stored := _ } : World (Db 512)) = w at hrun
  have hdb : w.db = standingWorld.db := by rw [← hw]
  have hstored : w.stored = [.file 2 1 2] := by rw [← hw]; rfl
  have hsalt : readSalt quiet w = .ok (some (1, 2)) w := by
    have hheader : readHeader (wal w.db) = .ok (some (fillTwo [7]).header) := by
      rw [hdb]
      exact (fillTwo [7]).readHeader_bytes
    refine (bind_of_ok rfl).trans ((bind_of_ok rfl).trans ?_)
    rw [hheader]
    rfl
  have htake : takeSnapshotToStorage t (standingState checksum) quiet standingWorld =
      .ok ⟨1, 0, 2, some c, true, 1, some (1, 2), none⟩ w := by
    exact (bind_of_ok hrun).trans ((bind_of_ok hsalt).trans rfl)
  exact ⟨_, w, (bind_of_ok htake).trans rfl, hstored, hdb, rfl, rfl, rfl, c, rfl⟩

/-- The same stream with an anchor that is stored: the incremental comes behind it. -/
theorem anchored_first_standing : ∃ (cfg : WatchConfig) (w₀ : World (Db 512)),
    0 < (discoverLegacyState w₀.bucket).1 ∧ ∀ t : Tools (Db 512),
      (∀ header pages post, ∃ bytes, t.encode header pages post = .ok bytes) →
      ∃ s, Started t cfg w₀ s ∧ s.1.stored = [.file 0 3 3, .file 2 1 2] ∧ AnchoredFirst s.1.stored := by
  refine ⟨plainConfig, standingWorld, by decide, ?_⟩
  intro t ht
  obtain ⟨checksum, hboot⟩ := boot_standingWorld t
  obtain ⟨st, w, hanchor, hstored, hdb, hoffset, hsalt, htxid, c, hc⟩ := anchor_standingWorld ht checksum
  have hanchored : act t plainConfig (.anchor false quiet []) (standingWorld,
      .booted (standingState checksum)) = some (w, .anchored st) := by
    have hrun : anchorIndependent t (standingState checksum) false quiet [] standingWorld =
        .ok st w := by
      rw [anchorIndependent, if_pos (show 0 < (standingState checksum).currentTxid from one_pos), logged]
      simp only [withRetry, hanchor]
    exact congrArg (fun r => some (leadsTo r Process.anchored)) hrun
  have hspawn : act t plainConfig (.spawn quiet) (w, .anchored st) = some (w, .independent ⟨st, []⟩) := rfl
  obtain ⟨out, w', hsync, hstored'⟩ := @sync_fillTwo t ht w (by rw [hdb]; rfl) st c hoffset (by rw [hsalt]; decide)
    (by rw [htxid]; decide) hc
  obtain ⟨task, htick⟩ := tick_of_sync hsync
  have hreach : Started t plainConfig standingWorld (w', .independent task) := by
    refine .step (.step (.step (.step .start (.act hboot) trivial) (.act hanchored) ⟨st, w, ?_⟩) (.act hspawn) trivial)
      (.act htick) trivial
    exact hanchor
  refine ⟨_, hreach, ?_, anchored_first t plainConfig standingWorld _ (by decide) hreach⟩
  rw [hstored', hstored, htxid]

end Watch
end Walrust
