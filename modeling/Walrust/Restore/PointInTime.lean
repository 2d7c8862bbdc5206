import Walrust.Restore.Stream
import Walrust.Compaction.Laminar

/-!
# `Walrust.Restore.PointInTime` — where a restore to a seq ends up

A restore to `t` starts from the newest snapshot at or before `t`. On a leveled bucket a plan must reach `t`
exactly. On any other bucket the incrementals up to `t` are applied, however far they go.

* `Position` — the content at a seq: a snapshot, then stored objects that follow each other without a gap and
  continue the checksum chain, up to that seq;
* `restore_returned` — whatever a restore returns is the content at the seq it reports;
* `pointInTime_exact_iff` — that seq is the requested one exactly if the bucket is leveled or holds an object
  at it.
-/

namespace Walrust
namespace Restore

open Hadbp Ltx Compaction Lib List Relation

/-! ## Positions of the chain -/

/-- The key belongs to the namespace and covers the seqs of `range`. -/
def KeyCovers (lineage : Option String) (key : Key) (range : SeqRange) : Prop :=
  (key = .changeset lineage .live range.min ∧ range.max = range.min) ∨
    (lineage = none ∧ ∃ level, key = .merged level range.min range.max)

/-- A stored object leads from `s` to `s'`: it begins right after `s`, continues its chain, and ends at `s'`. -/
structure Link (ph : Physical) (b : Bucket) (lineage : Option String) (s s' : Staged) : Prop where
  object : ∃ key range bytes cs, KeyCovers lineage key range ∧ b.get key = some bytes ∧
    decodeSqliteChangeset ph bytes = .ok cs ∧ range.min = s.seq + 1 ∧ range.max = s'.seq ∧
    ph.verifyChain s.checksum cs = .ok () ∧ applyDecodedChangesetToDb cs s.db = .ok s'.db ∧
    (s'.checksum = cs.checksum ∨ s'.checksum = chainEnd cs)

/-- The content of the chain at a seq, built from the snapshot at `base`. -/
def PositionFrom (ph : Physical) (b : Bucket) (lineage : Option String) (base : Nat) (s : Staged) : Prop :=
  ∃ data decoded, b.get (.changeset lineage .snapshot base) = some data ∧ decodeToDb ph data = .ok decoded ∧
    ReflTransGen (Link ph b lineage) ⟨base, decoded.checksum, decoded.db⟩ s

/-- The content of the chain at a seq. -/
def Position (ph : Physical) (b : Bucket) (lineage : Option String) (s : Staged) : Prop :=
  ∃ base, PositionFrom ph b lineage base s

variable {ph : Physical} {b : Bucket} {lineage : Option String} {cands : List PlanCandidate}
  {check : Bytes → String} {files : List LayoutFile}

/-! ## The linear path -/

theorem applyIncrementals_links {seqs : List Nat} {s s' : Staged}
    (h : applyIncrementals ph b lineage seqs s = .ok s') :
    ReflTransGen (Link ph b lineage) s s' ∧ s'.seq = seqs.getLast?.getD s.seq := by
  induction seqs generalizing s with
  | nil =>
    cases h
    exact ⟨.refl, rfl⟩
  | cons n rest ih =>
    unfold applyIncrementals at h
    split at h
    · cases h
    rename_i hnext
    split at h
    · cases h
    rename_i data hget
    split at h
    · cases h
    rename_i r happly
    obtain ⟨hlinks, hseq⟩ := ih h
    have hnext : n = s.seq + 1 := not_not.mp hnext
    -- the applied object is a link
    unfold applyChangesetToDb at happly
    split at happly
    · cases happly
    rename_i cs hdec
    split at happly
    · cases happly
    rename_i hchain
    split at happly
    · cases happly
    rename_i db hdb
    cases happly
    refine ⟨.head ⟨_, .point n, data, cs, .inl ⟨rfl, rfl⟩, hget, hdec, hnext, rfl, hchain, hdb, .inl rfl⟩ hlinks,
      ?_⟩
    rw [hseq, List.getLast?_cons]
    rfl

/-! ## The leveled path -/

theorem keyRange_of_readFiles {level : Level} {keys : List Key}
    (h : readFiles b level keys = .ok files) : ∀ f ∈ files, keyRange f.level f.key = some f.range := by
  induction keys generalizing files with
  | nil =>
    cases h
    intro f hf
    cases hf
  | cons key keys ih =>
    unfold readFiles at h
    split at h
    · exact ih h
    rename_i range hrange
    split at h
    · cases h
    split at h
    · cases h
    split at h
    · cases h
    rename_i files' hfiles
    cases h
    intro f hf
    rcases mem_cons.mp hf with rfl | hf
    · exact hrange
    · exact ih hfiles f hf

theorem keyRange_of_listLevels {level n : Nat}
    (h : listLevels b level n = .ok files) : ∀ f ∈ files, keyRange f.level f.key = some f.range := by
  induction n generalizing level files with
  | zero =>
    cases h
    intro f hf
    cases hf
  | succ n ih =>
    unfold listLevels listLevel at h
    cases hread : readFiles b level b.keys with
    | error e =>
      rw [hread] at h
      cases h
    | ok here =>
      rw [hread] at h
      cases hrest : listLevels b (level + 1) n with
      | error e =>
        rw [hrest] at h
        cases h
      | ok rest =>
        rw [hrest] at h
        cases h
        intro f hf
        rcases mem_append.mp hf with hf | hf
        · exact keyRange_of_readFiles hread f (mem_mergeSort.mp hf)
        · exact ih hrest f hf

theorem keyCovers_of_candidate {floor target : Nat} (h : gatherCandidates b floor target = .ok cands)
    {c : PlanCandidate} (hc : c ∈ cands) : KeyCovers none c.key c.range := by
  unfold gatherCandidates at h
  split at h
  · cases h
  rename_i files hfiles
  cases h
  obtain ⟨f, hf, rfl⟩ := mem_map.mp hc
  have hrange := keyRange_of_listLevels hfiles f (mem_filter.mp hf).1
  cases hkey : f.key with
  | envelope seq =>
    rw [hkey] at hrange
    cases hrange
  | merged l lo hi =>
    rw [hkey, keyRange] at hrange
    split at hrange
    · rw [← Option.some.inj hrange]
      exact .inr ⟨rfl, l, rfl⟩
    · cases hrange
  | changeset l g seq =>
    rw [hkey] at hrange
    cases l with
    | some l => cases hrange
    | none =>
      cases g with
      | snapshot => cases hrange
      | live =>
        rw [keyRange] at hrange
        split at hrange
        · rw [← Option.some.inj hrange]
          exact .inl ⟨rfl, rfl⟩
        · cases hrange

theorem applyFiles_links (hcands : ∀ c ∈ cands, KeyCovers none c.key c.range) {files : List PlanCandidate}
    {s s' : Staged} (hfollows : FollowsFrom cands s.seq files)
    (h : applyFiles ph b files s = .ok s') : ReflTransGen (Link ph b none) s s' := by
  induction files generalizing s with
  | nil =>
    cases h
    exact .refl
  | cons cand rest ih =>
    obtain ⟨hmem, hmin, hrest⟩ := hfollows
    unfold applyFiles at h
    split at h
    · cases h
    rename_i bytes hget
    split at h
    · cases h
    rename_i cs hdec
    split at h
    · cases h
    rename_i hchain
    split at h
    · cases h
    rename_i db hdb
    exact .head ⟨cand.key, cand.range, bytes, cs, hcands cand hmem, hget, hdec, hmin, rfl, hchain, hdb, .inr rfl⟩
      (ih hrest h)

/-! ## The restore -/

/-- `restore` takes the leveled path. -/
def Leveled (b : Bucket) (lineage : Option String) : Prop := lineage = none ∧ listMergedRanges b ≠ .ok []

/-- The incrementals the linear path applies. -/
def wanted (b : Bucket) (lineage : Option String) (target : Option Nat) (base : Nat) : List Nat :=
  match target with
  | some t => (discoverAfter b lineage .live base).filter (· ≤ t)
  | none => discoverAfter b lineage .live base

/-- **What a restore returns**: its base snapshot, and the seq it stopped at on either path. -/
structure Returned (ph : Physical) (b : Bucket) (lineage : Option String) (target : Option Nat)
    (r : RestoreResult) (base : Nat) : Prop where
  snapshot : baseSnapshot b lineage target = some base
  position : PositionFrom ph b lineage base ⟨r.seq, r.checksum, r.db⟩
  linear : ¬ Leveled b lineage → r.seq = (wanted b lineage target base).getLast?.getD base
  leveled : Leveled b lineage → ∀ t, target = some t → r.seq = t

theorem restore_returned {target : Option Nat} {r : RestoreResult}
    (h : restore ph check b lineage target = .ok r) : ∃ base, Returned ph b lineage target r base := by
  unfold restore at h
  split at h
  · cases h
  rename_i r' hstaged
  split at h
  · cases h
  cases h
  unfold restoreStaged at hstaged
  split at hstaged
  · cases hstaged
  rename_i base hbase
  split at hstaged
  · cases hstaged
  rename_i data hget
  split at hstaged
  · cases hstaged
  rename_i decoded hdec
  dsimp only at hstaged
  split at hstaged
  · cases hstaged
  rename_i leveled hleveled
  split at hstaged
  · cases hstaged
  rename_i s happlied
  cases hstaged
  have hpath : leveled = true ↔ Leveled b lineage := by
    split at hleveled
    · rename_i hnone
      split at hleveled
      · cases hleveled
      rename_i ranges hranges
      cases hleveled
      simp [Leveled, hnone, hranges]
    · rename_i hsome
      cases hleveled
      simp [Leveled, hsome]
  cases leveled with
  | false =>
    have hlinear : ¬ Leveled b lineage := fun hl => by cases hpath.mpr hl
    obtain ⟨hlinks, hseq⟩ := applyIncrementals_links happlied
    exact ⟨base, hbase, ⟨data, decoded, hget, hdec, hlinks⟩, fun _ => hseq, fun hl => absurd hl hlinear⟩
  | true =>
    have hl := hpath.mp rfl
    obtain rfl := hl.1
    rw [if_pos rfl] at happlied
    unfold restoreLeveled at happlied
    split at happlied
    · cases happlied
    rename_i cands hcands
    dsimp only at happlied
    split at happlied
    · cases happlied
    split at happlied
    · cases happlied
    rename_i plan hplan
    unfold applyPlan at happlied
    split at happlied
    · cases happlied
    rename_i s' hfiles
    split at happlied
    · cases happlied
    rename_i hreached
    cases happlied
    unfold planRestore at hplan
    split at hplan
    · cases hplan
    rename_i files hloop
    cases hplan
    have hlinks := applyFiles_links (fun c hc => keyCovers_of_candidate hcands hc)
      ((planLoop_tiles hloop).1) hfiles
    refine ⟨base, hbase, ⟨data, decoded, hget, hdec, hlinks⟩, fun hn => absurd hl hn, ?_⟩
    rintro - t rfl
    exact not_not.mp hreached

/-- The namespace holds a snapshot or an incremental at `t`. -/
def HoldsSeq (b : Bucket) (lineage : Option String) (t : Nat) : Prop :=
  (b.get (.changeset lineage .snapshot t)).isSome ∨ (b.get (.changeset lineage .live t)).isSome

/-- The linear path ends at `t` exactly if there is an object to end at. -/
theorem linear_exact_iff {t base : Nat} (hbase : baseSnapshot b lineage (some t) = some base) :
    (wanted b lineage (some t) base).getLast?.getD base = t ↔ HoldsSeq b lineage t := by
  have hbase' := mem_of_getLast? hbase
  simp only [mem_filter, mem_discoverAfter, decide_eq_true_eq] at hbase'
  obtain ⟨⟨hpos, hsnap⟩, hle⟩ := hbase'
  have hsorted : (wanted b lineage (some t) base).Pairwise (· < ·) :=
    (discoverAfter_sorted b lineage .live base).filter _
  have hmem : ∀ n, n ∈ wanted b lineage (some t) base ↔
      (base < n ∧ (b.get (.changeset lineage .live n)).isSome) ∧ n ≤ t := by
    intro n
    simp [wanted, mem_discoverAfter]
  constructor
  · intro hlast
    cases hl : (wanted b lineage (some t) base).getLast? with
    | none =>
      rw [hl] at hlast
      subst hlast
      exact .inl hsnap
    | some n =>
      rw [hl] at hlast
      subst hlast
      exact .inr ((hmem n).mp (mem_of_getLast? hl)).1.2
  · intro hholds
    by_cases heq : base = t
    · -- nothing follows the snapshot
      subst heq
      have hnil : wanted b lineage (some base) base = [] := by
        rw [eq_nil_iff_forall_not_mem]
        intro n hn
        have := (hmem n).mp hn
        omega
      rw [hnil]
      rfl
    · have hlt : base < t := lt_of_le_of_ne hle heq
      have hlive : (b.get (.changeset lineage .live t)).isSome := by
        refine hholds.resolve_left fun hs => ?_
        -- a snapshot at the target would have been the base
        have hmax : baseSnapshot b lineage (some t) = some t :=
          discoverLatestSnapshotAtOrBefore_eq (by omega) le_rfl hs fun n h₁ h₂ => absurd h₂ (by omega)
        rw [hbase] at hmax
        exact heq (Option.some.inj hmax)
      rw [getLast?_eq_some_of_max hsorted ((hmem t).mpr ⟨⟨hlt, hlive⟩, le_rfl⟩) fun n hn => ((hmem n).mp hn).2]
      rfl

/-- **A restore to `t` that succeeds ends at `t`**, with the content there, exactly if the bucket is leveled or
    holds an object at `t`. -/
theorem pointInTime_exact_iff (ph : Physical) (check : Bytes → String) (b : Bucket) (lineage : Option String)
    (t : Nat) {r : RestoreResult} (h : restore ph check b lineage (some t) = .ok r) :
    (r.seq = t ∧ Position ph b lineage ⟨t, r.checksum, r.db⟩) ↔
      Leveled b lineage ∨ HoldsSeq b lineage t := by
  obtain ⟨base, hr⟩ := restore_returned h
  have hseq : r.seq = t ↔ Leveled b lineage ∨ HoldsSeq b lineage t := by
    by_cases hl : Leveled b lineage
    · exact iff_of_true (hr.leveled hl t rfl) (.inl hl)
    · rw [hr.linear hl, linear_exact_iff hr.snapshot]
      exact ⟨.inr, fun hor => hor.resolve_left hl⟩
  rw [← hseq]
  constructor
  · exact And.left
  · rintro rfl
    exact ⟨rfl, base, hr.position⟩

/-! ### A snapshot and one incremental -/

/-- An empty database of one 512-byte page, as SQLite writes it in WAL mode, with `v` as its change counter and
    user version. -/
@[irreducible] def sqliteFile (v : UInt8) : Bytes :=
  [83, 81, 76, 105, 116, 101, 32, 102, 111, 114, 109, 97, 116, 32, 51, 0, 2, 0, 2, 2, 0, 64, 32, 32, 0, 0, 0, v,
    0, 0, 0, 1] ++ replicate 28 0 ++ [0, 0, 0, v] ++ replicate 28 0 ++
    [0, 0, 0, v, 0, 46, 122, 112, 13, 0, 0, 0, 0, 2, 0, 0] ++ replicate 404 0

@[simp] theorem length_sqliteFile (v : UInt8) : (sqliteFile v).length = 512 := by
  simp only [sqliteFile, length_append, length_replicate, length_cons, length_nil]

/-- SHA-256 (first eight bytes) of the first file, of its snapshot and of the incremental, told apart by
    length. -/
def fileSha64 (bs : Bytes) : UInt64 :=
  if bs.length = 512 then 2684570579204379809
  else if bs.length = 528 then 16453941257946572100
  else 2691674400248951656

def filePhysical : Physical := Compaction.physicalOf fileSha64

/-- The snapshot of the first version at seq 1, the second version at seq 2. -/
def twoObjects : Bucket :=
  (Store.empty.put (.changeset none .snapshot 1)
      (snapshotChangeset filePhysical 0 (sqliteFile 1) 512 1 0).wire).put (.changeset none .live 2)
    (deltaChangeset filePhysical 0 [(1, sqliteFile 2)] 512 2 2684570579204379809 1).wire

theorem twoObjects_snapshot {n : Nat} : twoObjects.get (.changeset none .snapshot n) =
    if n = 1 then some (snapshotChangeset filePhysical 0 (sqliteFile 1) 512 1 0).wire else none := by
  unfold twoObjects
  rw [Store.get_put_of_ne _ _ (by simp)]
  split
  · rename_i h
    rw [h, Store.get_put_self]
  · rename_i h
    rw [Store.get_put_of_ne _ _ (by simpa using h)]
    rfl

theorem twoObjects_live {n : Nat} : twoObjects.get (.changeset none .live n) =
    if n = 2 then some (deltaChangeset filePhysical 0 [(1, sqliteFile 2)] 512 2 2684570579204379809 1).wire
    else none := by
  unfold twoObjects
  split
  · rename_i h
    rw [h, Store.get_put_self]
  · rename_i h
    rw [Store.get_put_of_ne _ _ (by simpa using h)]
    rfl

theorem twoObjects_unleveled : Unleveled twoObjects := by
  intro level lo hi
  unfold twoObjects
  rfl

theorem restore_of_staged {target : Option Nat} {r : RestoreResult}
    (hstaged : restoreStaged ph b lineage target = .ok r) (hcheck : check r.db = "ok") :
    restore ph check b lineage target = .ok r := by
  rw [restore, hstaged]
  exact if_neg (not_not_intro hcheck)

/-- Every restore to seq 2 or beyond returns what the incremental at seq 2 leaves. -/
theorem restore_twoObjects {t : Nat} (ht : 2 ≤ t) : ∃ checksum db,
    restore filePhysical (fun _ => "ok") twoObjects none (some t) = .ok ⟨2, checksum, db, none, false⟩ := by
  have hbase : baseSnapshot twoObjects none (some t) = some 1 :=
    discoverLatestSnapshotAtOrBefore_eq one_pos (by omega) (by rw [twoObjects_snapshot]; rfl)
      fun n h _ => by rw [twoObjects_snapshot, if_neg (by omega)]
  have hget : twoObjects.get (.changeset none .snapshot 1) = _ := twoObjects_snapshot
  -- the snapshot decodes to the first file
  have hsnap : SnapshotInput (sqliteFile 1) 512 := ⟨by decide, by rw [length_sqliteFile]; rfl, by
    rw [length_sqliteFile]
    decide⟩
  have henc : encodeSnapshotWithChecksum filePhysical 0 (sqliteFile 1) 512 1 0 = _ := hsnap.encode
  have hdec := decodeToDb_snapshot henc (by rw [length_sqliteFile]; decide)
  have hsum : filePhysical.sha64 (sqliteFile 1) = 2684570579204379809 := if_pos (length_sqliteFile 1)
  -- the incremental applies to it
  have hinput : DeltaInput [(1, sqliteFile 2)] 512 1 := ⟨by decide, by decide, by decide, by simp⟩
  have hencode : encodeWalChangesWithEndPageCount filePhysical 0 [(1, sqliteFile 2)] 512 2
      2684570579204379809 1 = _ := hinput.encode
  have happly := applyChangesetToDb_delta hencode (nodup_singleton _) (sqliteFile 1)
  have hwanted : (discoverAfter twoObjects none .live 1).filter (· ≤ t) = [2] := by
    have hlist : discoverAfter twoObjects none .live 1 = [2] := by
      refine discoverAfter_eq (pairwise_singleton _ _) fun n => ?_
      rw [twoObjects_live]
      split
      · rename_i h
        simp [h]
      · rename_i h
        simp [h]
    simp [hlist, ht]
  have hstaged := restoreStaged_unleveled twoObjects_unleveled hbase hget hdec
  have hlive : twoObjects.get (.changeset none .live 2) = _ := twoObjects_live
  rw [if_pos rfl] at hlive
  rw [hsum] at hstaged
  simp only [restoreLinear, hwanted, applyIncrementals, hlive, happly]
    at hstaged
  exact ⟨_, _, restore_of_staged hstaged rfl⟩

/-- A restore to seq 2 ends there. -/
theorem pointInTime_exact_twoObjects : ∃ (ph : Physical) (check : Bytes → String) (b : Bucket)
    (r : RestoreResult), restore ph check b none (some 2) = .ok r ∧ HoldsSeq b none 2 ∧
      r.seq = 2 ∧ Position ph b none ⟨2, r.checksum, r.db⟩ := by
  obtain ⟨checksum, db, h⟩ := restore_twoObjects (le_refl 2)
  have hholds : HoldsSeq twoObjects none 2 := .inr (by rw [twoObjects_live]; rfl)
  exact ⟨_, _, _, _, h, hholds, (pointInTime_exact_iff _ _ _ _ _ h).mpr (.inr hholds)⟩

/-- A restore to seq 7 succeeds and ends at seq 2, the newest object. -/
theorem pointInTime_stops_short : ∃ (ph : Physical) (check : Bytes → String) (b : Bucket)
    (r : RestoreResult), restore ph check b none (some 7) = .ok r ∧ r.seq = 2 ∧
      ∀ g n, 2 < n → b.get (.changeset none g n) = none := by
  obtain ⟨checksum, db, h⟩ := restore_twoObjects (show 2 ≤ 7 by decide)
  refine ⟨_, _, _, _, h, rfl, fun g n hn => ?_⟩
  cases g with
  | snapshot => rw [twoObjects_snapshot, if_neg (by omega)]
  | live => rw [twoObjects_live, if_neg (by omega)]

end Restore
end Walrust
