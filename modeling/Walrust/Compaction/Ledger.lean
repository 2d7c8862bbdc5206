import Walrust.Compaction.Shelves

/-!
# `Walrust.Compaction.Ledger` — one writer and one compactor

The system around the engine: an owned writer that publishes chained changesets and snapshots, each of them
taking the next seq, and a compactor whose runs may stop at any storage operation. A `Ledger` is the bucket
together with the writer's side of the history: the newest seq, the chain value after each seq, which seqs are
incrementals, and the age cutoff of the last level-0 run.

* `Reaches` — the runs of the system, with a condition on the compaction runs as a parameter;
* `Reaches.sound` — whatever the condition, the bucket stays stocked and its ranges are made of published
  incrementals.
-/

namespace Walrust
namespace Compaction

open Hadbp Lib Function

variable {level : Level} {cs : PhysicalChangeset}

structure Ledger where
  bucket : Bucket
  /-- The newest seq. -/
  head : Nat
  /-- The chain value after each seq. -/
  val : Nat → UInt64
  /-- The seqs that are incrementals. -/
  live : Set Nat
  /-- The age cutoff of the last level-0 run. -/
  cutoff : Int64

/-- The age cutoff of a call. -/
def Call.cutoff (c : Call) : Int64 := c.nowMs - c.windowMs

namespace Ledger

/-- The writer publishes the next changeset. -/
def publish (l : Ledger) (cs : PhysicalChangeset) : Ledger where
  bucket := l.bucket.put (.changeset none .live (l.head + 1)) cs.wire
  head := l.head + 1
  val := update l.val (l.head + 1) cs.checksum
  live := insert (l.head + 1) l.live
  cutoff := l.cutoff

/-- The writer publishes a snapshot; the chain goes on from its checksum. -/
def snapshot (l : Ledger) (bytes : Bytes) (checksum : UInt64) : Ledger where
  bucket := l.bucket.put (.changeset none .snapshot (l.head + 1)) bytes
  head := l.head + 1
  val := update l.val (l.head + 1) checksum
  live := l.live
  cutoff := l.cutoff

/-- A compaction run, returned or stopped, on a storage that has seen `ops` operations. -/
def compact (l : Ledger) (env : Env) (c : Call) (ops : Nat) : Ledger :=
  { l with
    bucket := (leaves (c.run env ⟨l.bucket, ops⟩)).bucket
    cutoff := if c.level = 0 then c.cutoff else l.cutoff }

end Ledger

/-- What stays the same over the lifetime of a database: the codec, the page size, each level's batch size. -/
structure Setup where
  ph : Physical
  pageSize : UInt32
  batch : Level → Nat

/-- `cs` is the changeset the writer publishes next. -/
def Setup.Next (su : Setup) (l : Ledger) (cs : PhysicalChangeset) : Prop :=
  Holds su.ph.sha64 su.pageSize (update l.val (l.head + 1) cs.checksum) 0 (.point (l.head + 1)) cs

/-- A run of this setup: operations fail or crash, and no write stores other bytes than it was given. -/
structure Setup.Runs (su : Setup) (env : Env) (c : Call) : Prop where
  codec : env.ph = su.ph
  faithful : env.Faithful
  batch : c.batch = su.batch c.level

/-- **The runs of the system**, in which every compaction run meets `meets`. -/
inductive Reaches (su : Setup) (meets : Ledger → Env → Call → Nat → Prop) : Ledger → Prop
  | start (val : Nat → UInt64) (cutoff : Int64) : Reaches su meets ⟨.empty, 0, val, ∅, cutoff⟩
  | publish {l : Ledger} {cs : PhysicalChangeset} (h : Reaches su meets l) (hcs : su.Next l cs) :
      Reaches su meets (l.publish cs)
  | snapshot {l : Ledger} (h : Reaches su meets l) (bytes : Bytes) (checksum : UInt64) :
      Reaches su meets (l.snapshot bytes checksum)
  | compact {l : Ledger} {env : Env} {c : Call} {ops : Nat} (h : Reaches su meets l)
      (hruns : su.Runs env c) (hmeets : meets l env c ops) : Reaches su meets (l.compact env c ops)

/-- The bucket holds the writer's history: its objects are stocked, and their ranges consist of published
    incrementals. -/
structure Ledger.Sound (su : Setup) (l : Ledger) : Prop where
  stocked : Stocked su.ph.sha64 su.pageSize l.val l.bucket
  seqs : ∀ level, ∀ r ∈ shelves l.bucket level, r.seqs ⊆ l.live
  live : ∀ n ∈ l.live, 0 < n ∧ n ≤ l.head

theorem Ledger.Sound.max_le {su : Setup} {l : Ledger} (h : l.Sound su) {r : SeqRange}
    (hr : r ∈ shelves l.bucket level) : 0 < r.min ∧ r.max ≤ l.head := by
  have hle := shelves_le hr
  have hmin := h.live r.min (h.seqs level r hr ⟨le_refl _, hle⟩)
  have hmax := h.live r.max (h.seqs level r hr ⟨hle, le_refl _⟩)
  exact ⟨hmin.1, hmax.2⟩

theorem Holds.update {sha64 : Bytes → UInt64} {pageSize : UInt32} {val : Nat → UInt64} {range : SeqRange}
    (h : Holds sha64 pageSize val level range cs) {n : Nat} (v : UInt64) (hn : range.max < n)
    (hle : range.min ≤ range.max) : Holds sha64 pageSize (update val n v) level range cs :=
  { h with
    prev := by
      rw [update_of_ne (by omega)]
      exact h.prev
    chained := by
      rw [update_of_ne (by omega)]
      exact h.chained }

theorem Stocked.update {su : Setup} {l : Ledger} (h : l.Sound su) (v : UInt64) :
    Stocked su.ph.sha64 su.pageSize (update l.val (l.head + 1) v) l.bucket := by
  intro level key range bytes hkey hget
  obtain ⟨cs, hbytes, hheld⟩ := h.stocked level key range bytes hkey hget
  have hmax := (h.max_le ⟨key, hkey, by rw [hget]; rfl⟩).2
  exact ⟨cs, hbytes, hheld.update v (by omega) (keyRange_le hkey)⟩

theorem Stocked.put {sha64 : Bytes → UInt64} {pageSize : UInt32} {val : Nat → UInt64} {b : Bucket}
    {level : Level} {key : Key} {range : SeqRange} {cs : PhysicalChangeset}
    (h : Stocked sha64 pageSize val b) (hkey : keyRange level key = some range)
    (hcs : Holds sha64 pageSize val level range cs) : Stocked sha64 pageSize val (b.put key cs.wire) := by
  intro level' key' range' bytes hkey' hget
  by_cases heq : key' = key
  · subst heq
    obtain rfl : level' = level := keyRange_level_unique (by rw [hkey']; rfl) (by rw [hkey]; rfl)
    obtain rfl := Option.some.inj (hkey.symm.trans hkey')
    rw [Store.get_put_self] at hget
    exact ⟨cs, (Option.some.inj hget).symm, hcs⟩
  · rw [Store.get_put_of_ne _ _ heq] at hget
    exact h level' key' range' bytes hkey' hget

theorem shelves_snapshot (b : Bucket) (seq : Nat) (bytes : Bytes) :
    shelves (b.put (.changeset none .snapshot seq) bytes) = shelves b := by
  refine shelves_congr (fun j key r hkey => ?_) fun j r hr => ?_
  · rw [mem_shelves hkey, Store.get_put_of_ne]
    rintro rfl
    cases hkey
  · obtain ⟨key, hkey, _⟩ := hr
    exact ⟨key, hkey⟩

theorem keyRange_live (seq : Nat) : keyRange 0 (.changeset none .live seq) = some (.point seq) := rfl

/-! ## The writer -/

variable {su : Setup} {l : Ledger}

theorem Ledger.Sound.publish (h : l.Sound su) (hcs : su.Next l cs) : (l.publish cs).Sound su where
  stocked := (Stocked.update h cs.checksum).put (keyRange_live _) hcs
  seqs := by
    intro level r hr
    have hr : r ∈ shelves (l.bucket.put (.changeset none .live (l.head + 1)) cs.wire) level := hr
    rw [shelves_put _ (keyRange_live _), Shelves.mem_add] at hr
    rcases hr with hr | ⟨-, rfl⟩
    · exact fun n hn => .inr (h.seqs level r hr hn)
    · intro n hn
      obtain ⟨h1, h2⟩ : l.head + 1 ≤ n ∧ n ≤ l.head + 1 := hn
      exact .inl (by omega)
  live := by
    rintro n (rfl | hn)
    · exact ⟨Nat.succ_pos _, le_refl _⟩
    · have := h.live n hn
      exact ⟨this.1, Nat.le_succ_of_le this.2⟩

theorem Ledger.Sound.snapshot (h : l.Sound su) (bytes : Bytes) (checksum : UInt64) :
    (l.snapshot bytes checksum).Sound su where
  stocked := by
    intro level key range bytes' hkey hget
    have hne : key ≠ .changeset none .snapshot (l.head + 1) := by
      rintro rfl
      cases hkey
    have hget : (l.bucket.put (.changeset none .snapshot (l.head + 1)) bytes).get key = some bytes' := hget
    rw [Store.get_put_of_ne _ _ hne] at hget
    exact Stocked.update h checksum level key range bytes' hkey hget
  seqs := by
    intro level r hr
    have hr : r ∈ shelves (l.bucket.put (.changeset none .snapshot (l.head + 1)) bytes) level := hr
    rw [shelves_snapshot] at hr
    exact h.seqs level r hr
  live := fun n hn => ⟨(h.live n hn).1, Nat.le_succ_of_le (h.live n hn).2⟩

/-! ## The compactor -/

theorem Change.seqs {S S' : Shelves} {picked : SeqRange → Prop} (h : Change S level picked S') {live : Set Nat}
    (hS : ∀ j, ∀ r ∈ S j, r.seqs ⊆ live) : ∀ j, ∀ r ∈ S' j, r.seqs ⊆ live := by
  intro j r hr
  cases h with
  | trimmed | dropped => exact hS j r (Shelves.mem_remove.mp hr).1
  | stored hrun _ _ =>
    rcases Shelves.mem_add.mp (Shelves.mem_remove.mp hr).1 with hr | ⟨-, rfl⟩
    · exact hS j r hr
    · -- a span has the seqs of its run
      intro n hn
      obtain ⟨x, hx, hnx⟩ := hrun.cover hn
      exact hS level x (hrun.mem x hx) hnx

theorem Ledger.Sound.compact (h : l.Sound su) {env : Env} {c : Call} (hruns : su.Runs env c) (ops : Nat) :
    (l.compact env c ops).Sound su where
  stocked := by
    have hst := h.stocked
    rw [← hruns.codec] at hst ⊢
    exact hst.keep hruns.faithful (runLevelCompaction_effect env c ⟨l.bucket, ops⟩)
  seqs := (runLevelCompaction_effect env c ⟨l.bucket, ops⟩).change.seqs h.seqs
  live := h.live

/-- **Every reachable ledger is sound.** -/
theorem Reaches.sound {meets : Ledger → Env → Call → Nat → Prop} (h : Reaches su meets l) : l.Sound su := by
  induction h with
  | start val cutoff =>
    refine ⟨?_, ?_, fun n hn => (by cases hn)⟩
    · intro level key range bytes hkey hget
      cases hget
    · rintro level r ⟨key, hkey, hget⟩
      cases hget
  | publish _ hcs ih => exact ih.publish hcs
  | snapshot _ bytes checksum ih => exact ih.snapshot bytes checksum
  | compact _ hruns _ ih => exact ih.compact hruns _

end Compaction
end Walrust
