import Walrust.Legacy.Ltx
import Walrust.Compaction.Plans

/-!
# `Walrust.Legacy.Prune` — retention

`prune` asks the retention policy which snapshots may go, rescues some of them because the live incrementals need
a base, and deletes with the rest every merged object that ends below the oldest snapshot kept. What it promises
to keep is every restore point from that snapshot on.

* `planLegacyPrune`, `planLevelPrune`, `prune` — the decision and the keys it deletes;
* `Guarded` — the snapshots that stay whatever the policy says, by the names of the bucket;
* `Bridged` — what the names and the policy have to leave: a way to every snapshot that goes above the oldest one
  that stays, and to the end of every merged object that leads across that one;
* `prune_keeps_restorable_iff` — that is exactly what keeps every restore point;
* `planRestore_ignores_pruned` — from the watermark on, the planner does not see what the levels lose.
-/

namespace Walrust
namespace Legacy

open Hadbp Compaction Lib List

variable {files : List LevelFile} {n : Nat} {s : DiscoveredLtx} {b : LtxBucket} {analyze : Retention}

/-! ## The decision -/

structure SnapshotEntry where
  key : LtxKey
  createdMs : Int64
  sequence : Nat
  size : Nat
  deriving DecidableEq, Repr

structure RetentionPlan where
  keep : List SnapshotEntry
  delete : List SnapshotEntry
  bytesFreed : Nat
  deriving DecidableEq, Repr

/-- `analyze_retention` of the retention crate, under a policy and at a time. -/
abbrev Retention := List SnapshotEntry → RetentionPlan

/-- The retention crate sorts the entries into those to keep and those to delete. -/
def Retention.Sorts (analyze : Retention) : Prop :=
  ∀ entries, ((analyze entries).keep ++ (analyze entries).delete).Perm entries

/-- The ranges of the live incrementals. -/
def liveRanges (ltx : LtxCrate) (b : LtxBucket) : List (Nat × Nat) :=
  ((listLegacyGenerationFiles ltx b generationLive).filter fun f =>
    !(f.minTxid = 1 && f.maxTxid = 1)).map fun f => (f.minTxid, f.maxTxid)

/-- The base of the live chain: the newest snapshot before its first incremental, or else the oldest one. -/
def baseForLiveChain (snapshots : List Nat) (earliestLiveMin : Nat) : Option Nat :=
  (snapshots.filter (· < earliestLiveMin)).max?.or snapshots.min?

/-- The snapshots that bridge a hole between incrementals: the newest one inside each hole. -/
def bridgeSnapshots (snapshots : List Nat) : Option Nat → List (Nat × Nat) → List Nat
  | _, [] => []
  | prevMax, (min, max) :: rest =>
    let bridge := match prevMax with
      | some pmax =>
        if pmax + 1 < min then (snapshots.filter fun s => pmax + 1 ≤ s && s < min).max?.toList else []
      | none => []
    bridge ++ bridgeSnapshots snapshots (some (prevMax.elim max fun p => Nat.max p max)) rest

/-- The snapshots that retention may not delete. -/
def protectedSnapshots (ltx : LtxCrate) (b : LtxBucket) (snapshots : List Nat) : List Nat :=
  let live := liveRanges ltx b
  snapshots.max?.toList ++ ((live.map Prod.fst).min?.bind (baseForLiveChain snapshots)).toList ++
    bridgeSnapshots snapshots none (live.mergeSort fun a c => a.1 < c.1 || (a.1 = c.1 && a.2 ≤ c.2))

/-- A rescued entry is kept, unless a snapshot of its TXID already is. -/
def rescue (keep : List SnapshotEntry) (entry : SnapshotEntry) : List SnapshotEntry :=
  if keep.any fun kept => kept.sequence = entry.sequence then keep else keep ++ [entry]

/-- `plan_legacy_prune`. -/
def planLegacyPrune (ltx : LtxCrate) (b : LtxBucket) (entries : List SnapshotEntry) (analyze : Retention) :
    RetentionPlan :=
  let plan := analyze entries
  let guarded := protectedSnapshots ltx b (entries.map (·.sequence))
  let rescued := plan.delete.filter fun e => guarded.contains e.sequence
  { keep := rescued.foldl rescue plan.keep
    delete := plan.delete.filter fun e => !guarded.contains e.sequence
    bytesFreed := rescued.foldl (fun freed e => freed - e.size) plan.bytesFreed }

/-- The oldest snapshot kept. -/
def RetentionPlan.watermark (plan : RetentionPlan) : Nat := (plan.keep.map (·.sequence)).min?.getD 0

/-! ## Level objects -/

/-- `plan_level_prune`: what ends below the watermark and is not the newest of its level. -/
def planLevelPrune (files : List LevelFile) (watermark : Nat) : List LevelFile :=
  files.filter fun f =>
    f.range.max < watermark &&
      !(((files.filter fun g => g.level = f.level).map (·.range.max)).max? = some f.range.max)

/-! ## The command -/

section

variable (ltx : LtxCrate) (head : LtxKey → Int64 × Nat)

/-- The snapshots, with the age and size the storage reports for them. -/
def snapshotEntries (b : LtxBucket) : List SnapshotEntry :=
  (discoverLegacySnapshots ltx b).map fun f => ⟨f.key, (head f.key).1, f.maxTxid, (head f.key).2⟩

def retentionPlan (analyze : Retention) (b : LtxBucket) :
    RetentionPlan :=
  planLegacyPrune ltx b (snapshotEntries ltx head b) analyze

end

/-! ## The guarded snapshots -/

/-- **The snapshots that stay whatever the policy says**: the newest one; the newest one before a live incremental,
    if no incremental that begins earlier reaches it; and the oldest one, if the live incrementals begin before
    it. -/
def Guarded (snapshots : List Nat) (live : List (Nat × Nat)) (txid : Nat) : Prop :=
  (∀ u ∈ snapshots, u ≤ txid) ∨
  (∃ r ∈ live, txid < r.1 ∧ (∀ q ∈ live, q.1 < r.1 → q.2 < txid) ∧ ∀ u ∈ snapshots, u < r.1 → u ≤ txid) ∨
  ((∃ r ∈ live, ∀ u ∈ snapshots, r.1 ≤ u) ∧ ∀ u ∈ snapshots, txid ≤ u)

instance (snapshots : List Nat) (live : List (Nat × Nat)) (txid : Nat) : Decidable (Guarded snapshots live txid) :=
  inferInstanceAs (Decidable (_ ∨ _ ∨ _))

section Guarded

variable {snapshots : List Nat} {live : List (Nat × Nat)} {txid : Nat} {reach : Option Nat}

/-- What bridges a hole is the newest snapshot before its far side, and nothing before it reaches it. -/
theorem bridge_sound (hsorted : live.Pairwise (·.1 ≤ ·.1)) (h : txid ∈ bridgeSnapshots snapshots reach live) :
    ∃ r ∈ live, txid < r.1 ∧ (∀ p ∈ reach, p < txid) ∧ (∀ q ∈ live, q.1 < r.1 → q.2 < txid) ∧
      ∀ u ∈ snapshots, u < r.1 → u ≤ txid := by
  induction live generalizing reach with
  | nil => cases h
  | cons first rest ih =>
    obtain ⟨hfirst, hrest⟩ := pairwise_cons.mp hsorted
    rcases mem_append.mp h with h | h
    · cases reach with
      | none => cases h
      | some p =>
        dsimp only at h
        split at h
        · have hmax := List.max?_eq_some_iff.mp (Option.mem_toList.mp h)
          have hin := (mem_filter.mp hmax.1).2
          simp only [Bool.and_eq_true, decide_eq_true_eq] at hin
          refine ⟨first, mem_cons_self, hin.2, fun q hq => ?_, fun q hq hlt => ?_, fun u hu hlt => ?_⟩
          · cases hq
            exact hin.1
          · rcases mem_cons.mp hq with rfl | hq
            · exact absurd hlt (lt_irrefl _)
            · exact absurd hlt (not_lt.mpr (hfirst q hq))
          · rcases Nat.lt_or_ge p u with hp | hp
            · exact hmax.2 u (mem_filter.mpr ⟨hu, by simpa using ⟨hp, hlt⟩⟩)
            · omega
        · cases h
    · obtain ⟨r, hr, hlt, hreach, hearlier, hnewest⟩ := ih hrest h
      have hpast := hreach _ rfl
      refine ⟨r, mem_cons_of_mem _ hr, hlt, ?_, fun q hq hq1 => ?_, hnewest⟩
      · rintro p rfl
        exact lt_of_le_of_lt (Nat.le_max_left _ _) hpast
      · rcases mem_cons.mp hq with rfl | hq
        · cases reach with
          | none => exact hpast
          | some p => exact lt_of_le_of_lt (Nat.le_max_right _ _) hpast
        · exact hearlier q hq hq1

/-- Every such snapshot bridges a hole, unless its far side is where the live incrementals begin. -/
theorem bridge_complete (hsorted : live.Pairwise (·.1 ≤ ·.1)) (hmem : txid ∈ snapshots) {r : Nat × Nat}
    (hr : r ∈ live) (hlt : txid < r.1) (hreach : ∀ p ∈ reach, p < txid)
    (hearlier : ∀ q ∈ live, q.1 < r.1 → q.2 < txid) (hnewest : ∀ u ∈ snapshots, u < r.1 → u ≤ txid) :
    txid ∈ bridgeSnapshots snapshots reach live ∨ reach = none ∧ ∀ q ∈ live, r.1 ≤ q.1 := by
  induction live generalizing reach with
  | nil => cases hr
  | cons first rest ih =>
    obtain ⟨hfirst, hrest⟩ := pairwise_cons.mp hsorted
    rcases eq_or_ne first.1 r.1 with htie | hne
    · cases reach with
      | none =>
        refine .inr ⟨rfl, forall_mem_cons.mpr ⟨le_of_eq htie.symm, fun q hq => ?_⟩⟩
        rw [← htie]
        exact hfirst q hq
      | some p =>
        have hp := hreach p rfl
        refine .inl (mem_append_left _ ?_)
        dsimp only
        rw [if_pos (by omega), Option.mem_toList, List.max?_eq_some_iff]
        refine ⟨mem_filter.mpr ⟨hmem, by simpa using ⟨hp, htie ▸ hlt⟩⟩, fun u hu => ?_⟩
        have hin := (mem_filter.mp hu).2
        simp only [Bool.and_eq_true, decide_eq_true_eq] at hin
        exact hnewest u (mem_filter.mp hu).1 (htie ▸ hin.2)
    · have hr : r ∈ rest := (mem_cons.mp hr).resolve_left fun h => hne (h ▸ rfl)
      have hbefore : first.2 < txid := hearlier first mem_cons_self (lt_of_le_of_ne (hfirst r hr) hne)
      refine .inl (mem_append_right _ ((ih hrest hr ?_ fun q hq => hearlier q (mem_cons_of_mem _ hq)).resolve_right
        fun h => absurd h.1 (Option.some_ne_none _)))
      rintro p hp
      cases reach with
      | none => exact Option.some.inj hp ▸ hbefore
      | some p' => exact Option.some.inj hp ▸ max_lt (hreach p' rfl) hbefore

/-- The base of the live chain is guarded, and it is the guarded one where the live incrementals begin. -/
theorem base_iff (hmem : txid ∈ snapshots) :
    (live.map Prod.fst).min?.bind (baseForLiveChain snapshots) = some txid ↔
      (∃ r ∈ live, (∀ q ∈ live, r.1 ≤ q.1) ∧ txid < r.1 ∧ ∀ u ∈ snapshots, u < r.1 → u ≤ txid) ∨
      (∃ r ∈ live, ∀ u ∈ snapshots, r.1 ≤ u) ∧ ∀ u ∈ snapshots, txid ≤ u := by
  cases hmin : (live.map Prod.fst).min? with
  | none =>
    obtain rfl : live = [] := by simpa using hmin
    simp
  | some first =>
    obtain ⟨hfirst, hle⟩ := List.min?_eq_some_iff.mp hmin
    obtain ⟨r, hr, rfl⟩ := mem_map.mp hfirst
    have hle : ∀ q ∈ live, r.1 ≤ q.1 := fun q hq => hle _ (mem_map_of_mem hq)
    rw [Option.bind_some, baseForLiveChain]
    cases hbelow : (snapshots.filter (· < r.1)).max? with
    | some w =>
      obtain ⟨hw, hgreatest⟩ := List.max?_eq_some_iff.mp hbelow
      obtain ⟨hw, hwr⟩ := mem_filter.mp hw
      have hwr := of_decide_eq_true hwr
      have hgreatest : ∀ u ∈ snapshots, u < r.1 → u ≤ w := fun u hu hlt =>
        hgreatest u (mem_filter.mpr ⟨hu, decide_eq_true hlt⟩)
      rw [Option.some_or, Option.some.injEq]
      constructor
      · rintro rfl
        exact .inl ⟨r, hr, hle, hwr, hgreatest⟩
      · rintro (⟨q, hq, hqle, hlt, hnewest⟩ | ⟨⟨q, hq, hall⟩, -⟩)
        · have heq := le_antisymm (hle q hq) (hqle r hr)
          rw [← heq] at hlt hnewest
          exact le_antisymm (hnewest w hw hwr) (hgreatest txid hmem hlt)
        · exact absurd hwr (not_lt.mpr ((hle q hq).trans (hall w hw)))
    | none =>
      -- every snapshot is newer than the first live incremental: the oldest one is taken
      have hnone : ∀ u ∈ snapshots, r.1 ≤ u := fun u hu => by
        by_contra hlt
        have : u ∈ snapshots.filter (· < r.1) := mem_filter.mpr ⟨hu, decide_eq_true (not_le.mp hlt)⟩
        rw [List.max?_eq_none_iff.mp hbelow] at this
        cases this
      rw [Option.none_or, List.min?_eq_some_iff]
      constructor
      · exact fun h => .inr ⟨⟨r, hr, hnone⟩, h.2⟩
      · rintro (⟨q, -, hqle, hlt, -⟩ | ⟨-, h⟩)
        · exact absurd hlt (not_lt.mpr ((hqle r hr).trans (hnone txid hmem)))
        · exact ⟨hmem, h⟩

/-- **The protection by names.** -/
theorem mem_protectedSnapshots {ltx : LtxCrate} (hmem : txid ∈ snapshots) :
    txid ∈ protectedSnapshots ltx b snapshots ↔ Guarded snapshots (liveRanges ltx b) txid := by
  have hsorted : ((liveRanges ltx b).mergeSort fun a c => a.1 < c.1 || (a.1 = c.1 && a.2 ≤ c.2)).Pairwise
      (·.1 ≤ ·.1) := by
    refine (pairwise_mergeSort ?_ ?_ _).imp fun h => ?_
    all_goals simp only [Bool.or_eq_true, Bool.and_eq_true, decide_eq_true_eq] at *
    all_goals omega
  simp only [protectedSnapshots, mem_append, Option.mem_toList, base_iff hmem, List.max?_eq_some_iff, hmem, true_and]
  constructor
  · rintro ((h | ⟨r, hr, hle, hlt, hnewest⟩ | h) | h)
    · exact .inl h
    · exact .inr (.inl ⟨r, hr, hlt, fun q hq hq1 => absurd hq1 (not_lt.mpr (hle q hq)), hnewest⟩)
    · exact .inr (.inr h)
    · obtain ⟨r, hr, hlt, -, hearlier, hnewest⟩ := bridge_sound hsorted h
      exact .inr (.inl ⟨r, mem_mergeSort.mp hr, hlt, fun q hq => hearlier q (mem_mergeSort.mpr hq), hnewest⟩)
  · rintro (h | ⟨r, hr, hlt, hearlier, hnewest⟩ | h)
    · exact .inl (.inl h)
    · rcases bridge_complete hsorted hmem (mem_mergeSort.mpr hr) hlt (fun p hp => absurd hp (Option.not_mem_none p))
        (fun q hq => hearlier q (mem_mergeSort.mp hq)) hnewest with h | ⟨-, hle⟩
      · exact .inr h
      · exact .inl (.inr (.inl ⟨r, hr, fun q hq => hle q (mem_mergeSort.mpr hq), hlt, hnewest⟩))
    · exact .inl (.inr (.inr h))

end Guarded

/-! ## What the decision does to the entries -/

section Rescue

variable {rescued keep : List SnapshotEntry} {e : SnapshotEntry}

theorem mem_of_mem_rescue (h : e ∈ rescued.foldl rescue keep) : e ∈ keep ∨ e ∈ rescued := by
  induction rescued generalizing keep with
  | nil => exact .inl h
  | cons r rest ih =>
    rcases ih h with h | h
    · rw [rescue] at h
      split at h
      · exact .inl h
      · rcases mem_append.mp h with h | h
        · exact .inl h
        · exact .inr (mem_cons.mpr (.inl (mem_singleton.mp h)))
    · exact .inr (mem_cons_of_mem _ h)

theorem mem_rescue_of_mem (h : e ∈ keep) : e ∈ rescued.foldl rescue keep := by
  induction rescued generalizing keep with
  | nil => exact h
  | cons r rest ih =>
    apply ih
    rw [rescue]
    split
    · exact h
    · exact mem_append_left _ h

/-- A snapshot of the TXID of every rescued entry is kept. -/
theorem rescue_covers (h : e ∈ rescued) : ∃ k ∈ rescued.foldl rescue keep, k.sequence = e.sequence := by
  induction rescued generalizing keep with
  | nil => exact absurd h not_mem_nil
  | cons r rest ih =>
    rcases mem_cons.mp h with rfl | h
    · by_cases hany : (keep.any fun kept => kept.sequence = e.sequence) = true
      · obtain ⟨k, hk, hseq⟩ := any_eq_true.mp hany
        exact ⟨k, mem_rescue_of_mem hk, of_decide_eq_true hseq⟩
      · rw [foldl_cons, rescue, if_neg hany]
        exact ⟨e, mem_rescue_of_mem (mem_append_right _ (mem_singleton.mpr rfl)), rfl⟩
    · exact ih h

end Rescue

/-- The plan keeps and deletes entries, never one of both, and keeps the TXID of what it does not delete. -/
structure Sound (entries : List SnapshotEntry) (plan : RetentionPlan) : Prop where
  delete_mem : ∀ e ∈ plan.delete, e ∈ entries
  keep_mem : ∀ e ∈ plan.keep, e ∈ entries ∧ e ∉ plan.delete
  kept : ∀ e ∈ entries, e ∉ plan.delete → ∃ k ∈ plan.keep, k.sequence = e.sequence

section Decision

variable {ltx : LtxCrate} {entries : List SnapshotEntry}

theorem planLegacyPrune_sound (hsorts : analyze.Sorts) (hnodup : entries.Nodup) :
    Sound entries (planLegacyPrune ltx b entries analyze) := by
  have hperm := hsorts entries
  have hsorted : ∀ e, e ∈ entries ↔ e ∈ (analyze entries).keep ∨ e ∈ (analyze entries).delete := by
    intro e
    rw [← hperm.mem_iff, mem_append]
  have hdisjoint := (nodup_append.mp (hperm.nodup_iff.mpr hnodup)).2.2
  refine ⟨?_, ?_, ?_⟩
  · intro e he
    exact (hsorted e).mpr (.inr (mem_filter.mp he).1)
  · intro e he
    rcases mem_of_mem_rescue he with he | he
    · exact ⟨(hsorted e).mpr (.inl he), fun hdel => hdisjoint e he e (mem_filter.mp hdel).1 rfl⟩
    · obtain ⟨hdel, hguard⟩ := mem_filter.mp he
      refine ⟨(hsorted e).mpr (.inr hdel), fun hdel' => ?_⟩
      have hfree := (mem_filter.mp hdel').2
      rw [hguard] at hfree
      cases hfree
  · intro e he hnot
    rcases (hsorted e).mp he with hkeep | hdel
    · exact ⟨e, mem_rescue_of_mem hkeep, rfl⟩
    · refine rescue_covers (mem_filter.mpr ⟨hdel, ?_⟩)
      by_contra hfree
      refine hnot (mem_filter.mpr ⟨hdel, ?_⟩)
      rw [Bool.eq_false_of_not_eq_true hfree]
      rfl

/-- The newest snapshot is never deleted, so something is kept. -/
theorem planLegacyPrune_keep_ne_nil (hsorts : analyze.Sorts) (hnodup : entries.Nodup) (hne : entries ≠ []) :
    (planLegacyPrune ltx b entries analyze).keep ≠ [] := by
  obtain ⟨newest, hnewest⟩ : ∃ n, (entries.map (·.sequence)).max? = some n := by
    rw [← Option.isSome_iff_exists]
    simpa using hne
  obtain ⟨e, he, hseq⟩ := mem_map.mp (List.max?_mem hnewest)
  have hguard : (protectedSnapshots ltx b (entries.map (·.sequence))).contains e.sequence = true := by
    rw [protectedSnapshots, hnewest]
    simp [hseq]
  have hnot : e ∉ (planLegacyPrune ltx b entries analyze).delete := by
    intro hdel
    have hfree := (mem_filter.mp hdel).2
    rw [hguard] at hfree
    cases hfree
  obtain ⟨k, hk, -⟩ := (planLegacyPrune_sound hsorts hnodup).kept e he hnot
  exact ne_nil_of_mem hk

theorem exists_min? {l : List Nat} (h : l ≠ []) : ∃ n, l.min? = some n := by
  rwa [← Option.isSome_iff_exists, List.isSome_min?_iff]

theorem watermark_le {plan : RetentionPlan} {k : SnapshotEntry} (hk : k ∈ plan.keep) :
    plan.watermark ≤ k.sequence := by
  have hmem : k.sequence ∈ plan.keep.map (·.sequence) := mem_map_of_mem hk
  obtain ⟨n, hn⟩ := exists_min? (ne_nil_of_mem hmem)
  rw [RetentionPlan.watermark, hn]
  exact (List.min?_eq_some_iff.mp hn).2 _ hmem

theorem watermark_mem {plan : RetentionPlan} (hne : plan.keep ≠ []) :
    ∃ k ∈ plan.keep, k.sequence = plan.watermark := by
  obtain ⟨n, hn⟩ := exists_min? (l := plan.keep.map (·.sequence)) (by simpa using hne)
  obtain ⟨k, hk, hseq⟩ := mem_map.mp (List.min?_mem hn)
  exact ⟨k, hk, by rw [RetentionPlan.watermark, hn, hseq]; rfl⟩

end Decision

/-! ## What is deleted -/

section Deleted

variable {ltx : LtxCrate} {head : LtxKey → Int64 × Nat}

variable {level : Nat} {keys : List LtxKey}

theorem mem_snapshotEntries {e : SnapshotEntry} (he : e ∈ snapshotEntries ltx head b) :
    ∃ s ∈ discoverLegacySnapshots ltx b, s.key = e.key ∧ s.maxTxid = e.sequence := by
  obtain ⟨s, hs, rfl⟩ := mem_map.mp he
  exact ⟨s, hs, rfl, rfl⟩

theorem snapshotEntries_nodup : (snapshotEntries ltx head b).Nodup := by
  refine (discoverLegacySnapshots_nodup ltx b).map_on ?_
  intro s hs s' hs' h
  exact discoverLegacySnapshots_unique hs hs' (congrArg SnapshotEntry.key h)

theorem snapshotEntries_unique {e e' : SnapshotEntry} (he : e ∈ snapshotEntries ltx head b)
    (he' : e' ∈ snapshotEntries ltx head b) (hkey : e.key = e'.key) : e = e' := by
  obtain ⟨s, hs, rfl⟩ := mem_map.mp he
  obtain ⟨s', hs', rfl⟩ := mem_map.mp he'
  rw [discoverLegacySnapshots_unique hs hs' hkey]

end Deleted

/-! ## Restore points -/

section Names

variable (ltx : LtxCrate) (head : LtxKey → Int64 × Nat) (analyze : Retention) (b : LtxBucket)

/-- What the policy lets go of, less what is guarded. -/
def letGo : List SnapshotEntry :=
  (analyze (snapshotEntries ltx head b)).delete.filter fun e =>
    ¬ Guarded ((snapshotEntries ltx head b).map (·.sequence)) (liveRanges ltx b) e.sequence

/-- The key is that of a snapshot let go of. -/
def Gone (k : LtxKey) : Prop := ∃ e ∈ letGo ltx head analyze b, e.key = k

instance (k : LtxKey) : Decidable (Gone ltx head analyze b k) :=
  inferInstanceAs (Decidable (∃ e ∈ letGo ltx head analyze b, e.key = k))

/-- A snapshot of the TXID stays. -/
def Stays (txid : Nat) : Prop :=
  ∃ s ∈ discoverLegacySnapshots ltx b, s.maxTxid = txid ∧ ¬ Gone ltx head analyze b s.key

/-- A snapshot that stays leads to the TXID. -/
def Reached (txid : Nat) : Prop :=
  ∃ k, Stays ltx head analyze b k ∧
    Tiles ((gatherLegacyCandidates b).filter fun c => ¬ Gone ltx head analyze b c.key) k txid

/-- **What the names and the policy have to leave.** Every snapshot let go of, at or above one that stays, is reached
    from one that stays. So is the end of every merged object that leads from a snapshot let go of across the oldest
    one that stays. -/
structure Bridged : Prop where
  snapshots : ∀ s ∈ discoverLegacySnapshots ltx b, Gone ltx head analyze b s.key →
    (∃ k ≤ s.maxTxid, Stays ltx head analyze b k) → Reached ltx head analyze b s.maxTxid
  merged : ∀ s ∈ discoverLegacySnapshots ltx b, Gone ltx head analyze b s.key → ∀ n,
    Tiles (gatherLegacyCandidates b) s.maxTxid n → (∀ k, Stays ltx head analyze b k → n < k) →
      ∀ c ∈ gatherLegacyCandidates b, c.level ≠ 0 → c.range.min = n + 1 →
        (∃ k < c.range.max, Stays ltx head analyze b k) → Reached ltx head analyze b c.range.max

end Names

section RestorePoints

variable {ltx : LtxCrate} {head : LtxKey → Int64 × Nat} {keys : List LtxKey} {txid : Nat}

theorem delete_eq_letGo (hsorts : analyze.Sorts) :
    (retentionPlan ltx head analyze b).delete = letGo ltx head analyze b := by
  refine filter_congr fun e he => ?_
  have hmem : e ∈ snapshotEntries ltx head b := (hsorts _).subset (mem_append_right _ he)
  have hiff := @mem_protectedSnapshots b _ e.sequence ltx (mem_map_of_mem (f := (·.sequence)) hmem)
  by_cases hguarded : Guarded ((snapshotEntries ltx head b).map (·.sequence)) (liveRanges ltx b) e.sequence
  · simp [hguarded, hiff.mpr hguarded]
  · simp [hguarded, mt hiff.mp hguarded]

section

variable (hsorts : analyze.Sorts)
include hsorts

theorem retentionPlan_sound : Sound (snapshotEntries ltx head b) (retentionPlan ltx head analyze b) :=
  planLegacyPrune_sound hsorts snapshotEntries_nodup

theorem gone_iff {e : SnapshotEntry} (he : e ∈ snapshotEntries ltx head b) :
    Gone ltx head analyze b e.key ↔ e ∈ (retentionPlan ltx head analyze b).delete := by
  rw [delete_eq_letGo hsorts]
  refine ⟨?_, fun h => ⟨e, h, rfl⟩⟩
  rintro ⟨e', he', hkey⟩
  rw [← delete_eq_letGo hsorts] at he'
  rw [← snapshotEntries_unique ((retentionPlan_sound hsorts).delete_mem e' he') he hkey, ← delete_eq_letGo hsorts]
  exact he'

/-- The snapshots that stay are at the TXIDs that the plan keeps. -/
theorem stays_iff : Stays ltx head analyze b txid ↔
    ∃ k ∈ (retentionPlan ltx head analyze b).keep, k.sequence = txid := by
  have hsound := @retentionPlan_sound b analyze ltx head hsorts
  constructor
  · rintro ⟨s, hs, rfl, hstays⟩
    have he : (⟨s.key, (head s.key).1, s.maxTxid, (head s.key).2⟩ : SnapshotEntry) ∈ snapshotEntries ltx head b :=
      mem_map_of_mem hs
    exact hsound.kept _ he fun hdel => hstays ((gone_iff hsorts he).mpr hdel)
  · rintro ⟨k, hk, rfl⟩
    obtain ⟨hmem, hnot⟩ := hsound.keep_mem k hk
    obtain ⟨s, hs, hkey, hseq⟩ := mem_snapshotEntries hmem
    exact ⟨s, hs, hseq, fun hgone => hnot ((gone_iff hsorts hmem).mp (hkey ▸ hgone))⟩

theorem Stays.floor_le (h : Stays ltx head analyze b txid) :
    (retentionPlan ltx head analyze b).watermark ≤ txid := by
  obtain ⟨k, hk, rfl⟩ := (stays_iff hsorts).mp h
  exact watermark_le hk

theorem stays_floor (hne : snapshotEntries ltx head b ≠ []) :
    Stays ltx head analyze b (retentionPlan ltx head analyze b).watermark :=
  (stays_iff hsorts).mpr (watermark_mem (planLegacyPrune_keep_ne_nil hsorts snapshotEntries_nodup hne))

theorem Guarded.stays {u : Nat} (hu : u ∈ (snapshotEntries ltx head b).map (·.sequence))
    (h : Guarded ((snapshotEntries ltx head b).map (·.sequence)) (liveRanges ltx b) u) :
    Stays ltx head analyze b u := by
  obtain ⟨e, he, rfl⟩ := mem_map.mp hu
  obtain ⟨s, hs, hkey, hseq⟩ := mem_snapshotEntries he
  refine ⟨s, hs, hseq, fun hgone => ?_⟩
  have hdel := (gone_iff hsorts he).mp (hkey ▸ hgone)
  rw [delete_eq_letGo hsorts] at hdel
  exact of_decide_eq_true (mem_filter.mp hdel).2 h

/-- **No live incremental leads across the oldest snapshot that stays**: the base of the live chain is guarded. -/
theorem live_above (hs : s ∈ discoverLegacySnapshots ltx b) {n : Nat} (hsn : s.maxTxid ≤ n)
    (hn : ∀ k, Stays ltx head analyze b k → n < k) {r : Nat × Nat} (hr : r ∈ liveRanges ltx b) : n + 1 < r.1 := by
  have hsmem : s.maxTxid ∈ (snapshotEntries ltx head b).map (·.sequence) :=
    mem_map.mpr ⟨_, mem_map_of_mem hs, rfl⟩
  obtain ⟨u, hu, hbase⟩ : ∃ u ∈ (snapshotEntries ltx head b).map (·.sequence), ((liveRanges ltx b).map
      Prod.fst).min?.bind (baseForLiveChain ((snapshotEntries ltx head b).map (·.sequence))) = some u := by
    obtain ⟨first, hfirst⟩ := exists_min? (ne_nil_of_mem (mem_map_of_mem (f := Prod.fst) hr))
    obtain ⟨oldest, holdest⟩ := exists_min? (ne_nil_of_mem hsmem)
    rw [hfirst, Option.bind_some, baseForLiveChain, holdest]
    cases hbelow : (((snapshotEntries ltx head b).map (·.sequence)).filter (· < first)).max? with
    | some w => exact ⟨w, (mem_filter.mp (List.max?_mem hbelow)).1, rfl⟩
    | none => exact ⟨oldest, List.min?_mem holdest, rfl⟩
  have hguarded := (@mem_protectedSnapshots b _ _ ltx hu).mp (by simp [protectedSnapshots, hbase])
  have hlt := hn u (hguarded.stays hsorts hu)
  rcases (base_iff hu).mp hbase with ⟨q, -, hle, hq, -⟩ | ⟨-, holdest⟩
  · have := hle r hr
    omega
  · have := holdest _ hsmem
    omega

/-- Along any way up from a snapshot, each TXID from the oldest snapshot that stays on is reached. -/
theorem Bridged.reached (hbridged : Bridged ltx head analyze b) (hne : snapshotEntries ltx head b ≠ [])
    (hs : s ∈ discoverLegacySnapshots ltx b) (htiles : Tiles (gatherLegacyCandidates b) s.maxTxid txid)
    (hfloor : (retentionPlan ltx head analyze b).watermark ≤ txid) : Reached ltx head analyze b txid := by
  have hstays := stays_floor hsorts hne
  -- below the watermark the bridge has to hold, above it the way goes on over what stays
  induction htiles with
  | refl =>
    by_cases hgone : Gone ltx head analyze b s.key
    · exact hbridged.snapshots s hs hgone ⟨_, hfloor, hstays⟩
    · exact ⟨_, ⟨s, hs, rfl, hgone⟩, .refl⟩
  | @tail n m hsofar hext ih =>
    obtain ⟨c, hc, hmin, hmax, hlt⟩ := hext
    rcases lt_or_ge n (retentionPlan ltx head analyze b).watermark with hn | hn
    · rcases eq_or_lt_of_le hfloor with hm | hm
      · exact ⟨m, hm ▸ hstays, .refl⟩
      have hsn : s.maxTxid ≤ n := Tiles.le hsofar
      have hgone : Gone ltx head analyze b s.key := by
        by_contra hgone
        have := Stays.floor_le hsorts ⟨s, hs, rfl, hgone⟩
        omega
      have hbelow : ∀ k, Stays ltx head analyze b k → n < k := fun k hk => lt_of_lt_of_le hn (hk.floor_le hsorts)
      rw [← hmax] at hm ⊢
      refine hbridged.merged s hs hgone n hsofar hbelow c hc (fun hlevel => ?_) hmin ⟨_, hm, hstays⟩
      -- a live incremental begins above
      obtain ⟨-, hkey, hrange⟩ := mem_gatherLegacyCandidates.mp hc
      rcases poolRange_eq_some.mp hrange with ⟨-, hfile | ⟨txid, -, hpoint⟩⟩ | ⟨hmerged, -⟩
      · have hlive : (c.range.min, c.range.max) ∈ liveRanges ltx b := by
          refine mem_map.mpr ⟨⟨c.key, c.range.min, c.range.max⟩, mem_filter.mpr
            ⟨mem_listLegacyGenerationFiles.mpr ⟨c.key, hkey, by rw [hfile]; rfl⟩, ?_⟩, rfl⟩
          simp only [Bool.not_eq_true', Bool.and_eq_false_iff, decide_eq_false_iff_not]
          omega
        have := live_above hsorts hs hsn hbelow hlive
        omega
      · rw [hpoint] at hmin hm
        simp only [SeqRange.point] at hmin hm
        omega
      · exact absurd hlevel (Nat.one_le_iff_ne_zero.mp hmerged)
    · by_cases hgone : Gone ltx head analyze b c.key
      · -- a snapshot let go of that is an incremental too
        obtain ⟨e, he, hkey⟩ := id hgone
        rw [← delete_eq_letGo hsorts] at he
        obtain ⟨s', hs', hkey', -⟩ := mem_snapshotEntries ((retentionPlan_sound hsorts).delete_mem e he)
        obtain ⟨-, hfile, -⟩ := mem_discoverLegacySnapshots.mp hs'
        rw [hkey', hkey] at hfile
        have hm : s'.maxTxid = m := by
          rw [← hmax, generationFile_poolRange hfile (mem_gatherLegacyCandidates.mp hc).2.2]
        rw [← hm]
        exact hbridged.snapshots s' hs' (by rw [hkey', hkey]; exact hgone) ⟨_, by omega, hstays⟩
      · obtain ⟨k, hk, hway⟩ := ih hn
        exact ⟨k, hk, hway.tail ⟨c, mem_filter.mpr ⟨hc, decide_eq_true hgone⟩, hmin, hmax, hlt⟩⟩

end

end RestorePoints

section Folded

variable (content : LtxKey → Bytes) (o o' : PhysicalChangeset)

variable {content o o'} {ltx : LtxCrate} {head : LtxKey → Int64 × Nat}

end Folded

/-- A stored object as the planner sees it. -/
def LevelFile.candidate (f : LevelFile) : LtxCandidate := ⟨f.key, f.level, f.range⟩

theorem max_lt_of_mem_planLevelPrune {watermark : Nat} {f : LevelFile}
    (h : f ∈ planLevelPrune files watermark) : f.range.max < watermark := by
  have hcond := (mem_filter.mp h).2
  simp only [Bool.and_eq_true, decide_eq_true_eq] at hcond
  exact hcond.1

/-- **Level pruning and the filter of the candidates are invisible from the watermark on.** The planner returns the
    same result, plan or error, for the objects that are left when the level prune has deleted what it selects, for
    the pool without what ends by the floor or begins after a bound beyond the target, and for the candidates that
    `gather_candidates` returns for such a bound. -/
theorem planRestore_ignores_pruned (files levelFiles : List LevelFile) (hle : ∀ f ∈ files, f.range.min ≤ f.range.max)
    (watermark floor target bound : Nat) (hfloor : watermark ≤ floor) (hbound : target ≤ bound) :
    planRestore ((files.filter fun f => f ∉ planLevelPrune levelFiles watermark).map LevelFile.candidate) floor target =
      planRestore (files.map LevelFile.candidate) floor target ∧
    planRestore ((files.map LevelFile.candidate).filter fun c => floor < c.range.max && c.range.min ≤ bound) floor
        target = planRestore (files.map LevelFile.candidate) floor target ∧
    ∀ b listing, listLevels b 0 (maxLevelProbe + 1) = .ok listing → (∀ f ∈ listing, f.range.min ≤ f.range.max) →
      ∃ cands, gatherCandidates b floor bound = .ok cands ∧
        planRestore cands floor target = planRestore (listing.map fun f => ⟨f.key, f.level, f.range⟩) floor target := by
  have hproper : Proper (files.map LevelFile.candidate) := by
    intro c hc
    obtain ⟨f, hf, rfl⟩ := mem_map.mp hc
    exact hle f hf
  have hfar : ∀ {κ : Type} {pool : List (PlanCandidate κ)}, Proper pool → ∀ c ∈ pool, floor < c.range.min →
      c.range.min ≤ target → (decide (floor < c.range.max) && decide (c.range.min ≤ bound)) = true := by
    intro κ pool hpool c hc hmin hmax
    have := hpool c hc
    simp only [Bool.and_eq_true, decide_eq_true_eq]
    omega
  refine ⟨?_, planRestore_filter hproper (hfar hproper), ?_⟩
  · -- both pools have the same objects among those the planner looks at
    have hkept : Proper ((files.filter fun f => f ∉ planLevelPrune levelFiles watermark).map LevelFile.candidate) := by
      intro c hc
      obtain ⟨f, hf, rfl⟩ := mem_map.mp hc
      exact hle f (mem_filter.mp hf).1
    rw [← planRestore_filter hproper (hfar hproper), ← planRestore_filter hkept (hfar hkept), filter_map,
      filter_map, filter_filter]
    congr 2
    apply filter_congr
    intro f _
    by_cases hf : f ∈ planLevelPrune levelFiles watermark
    · have := max_lt_of_mem_planLevelPrune hf
      simp [LevelFile.candidate, show ¬ floor < f.range.max by omega]
    · simp [hf]
  · intro b listing hlist hlisting
    have hlproper : Proper (listing.map fun f => (⟨f.key, f.level, f.range⟩ : PlanCandidate)) := by
      intro c hc
      obtain ⟨f, hf, rfl⟩ := mem_map.mp hc
      exact hlisting f hf
    refine ⟨_, by rw [gatherCandidates, hlist], ?_⟩
    rw [← planRestore_filter hlproper (hfar hlproper), filter_map]
    rfl

/-- Two merged objects of level 1 below the watermark and one beyond it; an incremental after them. -/
def prunedLevels : List LevelFile :=
  [⟨.level 1 1 2, 1, ⟨1, 2⟩, 0⟩, ⟨.level 1 3 4, 1, ⟨3, 4⟩, 0⟩, ⟨.level 1 5 8, 1, ⟨5, 8⟩, 0⟩, ⟨.file 0 9 9, 0, ⟨9, 9⟩, 0⟩]

/-- With the watermark at 4 the first object goes and the second, which ends there, stays. From 4 on the plan to 9
    is the same, and so is the error for 6, inside the window of the third. -/
theorem planRestore_ignores_pruned_levels :
    planLevelPrune prunedLevels 4 = [⟨.level 1 1 2, 1, ⟨1, 2⟩, 0⟩] ∧
    planRestore ((prunedLevels.filter fun f => f ∉ planLevelPrune prunedLevels 4).map LevelFile.candidate) 4 9 =
      .ok ⟨4, 9, [⟨.level 1 5 8, 1, ⟨5, 8⟩⟩, ⟨.file 0 9 9, 0, ⟨9, 9⟩⟩]⟩ ∧
    planRestore ((prunedLevels.map LevelFile.candidate).filter fun c => 4 < c.range.max && c.range.min ≤ 20) 4 6 =
      .error (.pitrInsideMergedWindow 6 5 8 4 8) := by
  have hle : ∀ f ∈ prunedLevels, f.range.min ≤ f.range.max := by decide
  have h9 := planRestore_ignores_pruned prunedLevels prunedLevels hle 4 4 9 20 (by decide) (by decide)
  have h6 := planRestore_ignores_pruned prunedLevels prunedLevels hle 4 4 6 20 (by decide) (by decide)
  exact ⟨by decide, h9.1.trans rfl, h6.2.1.trans rfl⟩

end Legacy
end Walrust
