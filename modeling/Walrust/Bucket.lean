import Walrust.Hadbp
import Walrust.Lib.Store

/-!
# `Walrust.Bucket` — the objects of one database

The storage backend is a key-value store with conditional puts. The keys of one database are structured
here the way the source formats them: a changeset lives in the live or in the snapshot generation, under a
lineage namespace or flat, and is named by its seq; merged changesets live under a level and a seq range.

* `Key.path` — the key's text;
* `discoverAfter` and its derivatives — the listings a reader starts from.
-/

namespace Walrust

open Lib List

variable {b : Bucket} {generation : StreamGeneration} {lineage : Option String} {after : Nat}

/-- `GENERATION_INCREMENTAL` and `GENERATION_SNAPSHOT`. -/
inductive StreamGeneration where
  | live
  | snapshot
  deriving DecidableEq, Repr

def StreamGeneration.number : StreamGeneration → Nat
  | .live => 0
  | .snapshot => 1

inductive Key where
  | changeset (lineage : Option String) (generation : StreamGeneration) (seq : Nat)
  /-- A fenced delta envelope, in the live generation. -/
  | envelope (seq : Nat)
  /-- A merged changeset of a compaction level. -/
  | merged (level min max : Nat)
  deriving DecidableEq, Repr

/-- Lower-case hex, zero-padded to `width` digits. -/
def hexPad (width n : Nat) : String :=
  let digits := String.ofList (Nat.toDigits 16 n)
  String.ofList (List.replicate (width - digits.length) '0') ++ digits

/-- The storage key, under the bucket prefix `pre` of the database `name`. -/
def Key.path (pre name : String) : Key → String
  | .changeset none g seq => s!"{pre}{name}/{hexPad 4 g.number}/{hexPad 16 seq}.hadbp"
  | .changeset (some l) g seq =>
    s!"{pre}{name}/lineages/{l}/{hexPad 4 g.number}/{hexPad 16 seq}.hadbp"
  | .envelope seq => s!"{pre}{name}/{hexPad 4 0}/{hexPad 16 seq}.tlmd"
  | .merged level min max => s!"{pre}{name}/levels/L{level}/{hexPad 16 min}-{hexPad 16 max}.hadbp"

abbrev Bucket := Store Key Bytes

/-- The seq of a changeset of one namespace and generation, beyond `after`. -/
def seqAfter (lineage : Option String) (generation : StreamGeneration) (after : Nat) : Key → Option Nat
  | .changeset l g seq => if l = lineage ∧ g = generation ∧ after < seq then some seq else none
  | _ => none

section

variable (b : Bucket) (lineage : Option String)

/-- `discover_after_in_namespace`: the seqs beyond `after`, ascending. -/
def discoverAfter (generation : StreamGeneration)
    (after : Nat) : List Nat :=
  b.listing (seqAfter lineage generation after)

/-- `discover_latest_snapshot_in_namespace`. -/
def discoverLatestSnapshot : Option Nat :=
  (discoverAfter b lineage .snapshot 0).getLast?

/-- `discover_latest_snapshot_at_or_before_in_namespace`. -/
def discoverLatestSnapshotAtOrBefore (target : Nat) : Option Nat :=
  ((discoverAfter b lineage .snapshot 0).filter (· ≤ target)).getLast?

end

theorem seqAfter_eq_some {n : Nat} {k : Key} : seqAfter lineage generation after k = some n ↔
      k = .changeset lineage generation n ∧ after < n := by
  cases k with
  | changeset l g seq =>
    simp only [seqAfter, Key.changeset.injEq]
    constructor
    · intro h
      split at h
      · rename_i hc
        cases h
        exact ⟨⟨hc.1, hc.2.1, rfl⟩, hc.2.2⟩
      · cases h
    · rintro ⟨⟨rfl, rfl, rfl⟩, hlt⟩
      simp [hlt]
  | envelope seq => simp [seqAfter]
  | merged level min max => simp [seqAfter]

theorem seqAfter_numbering : Store.Numbering (seqAfter lineage generation after) := by
  intro k j n hk hj
  rw [(seqAfter_eq_some.mp hk).1, (seqAfter_eq_some.mp hj).1]

theorem mem_discoverAfter {n : Nat} : n ∈ discoverAfter b lineage generation after ↔
      after < n ∧ (b.get (.changeset lineage generation n)).isSome := by
  rw [discoverAfter, Store.mem_listing]
  constructor
  · rintro ⟨k, hk, hn⟩
    obtain ⟨rfl, hlt⟩ := seqAfter_eq_some.mp hn
    exact ⟨hlt, hk⟩
  · rintro ⟨hlt, hk⟩
    exact ⟨_, hk, seqAfter_eq_some.mpr ⟨rfl, hlt⟩⟩

/-- A listing is any ascending list with the right members. -/
theorem discoverAfter_eq {l : List Nat} (hl : l.Pairwise (· < ·))
    (hmem : ∀ n, n ∈ l ↔ after < n ∧ (b.get (.changeset lineage generation n)).isSome) :
    discoverAfter b lineage generation after = l := by
  apply Store.listing_eq seqAfter_numbering hl
  intro n
  rw [hmem, ← mem_discoverAfter, discoverAfter, Store.mem_listing]

theorem discoverAfter_sorted (b : Bucket) (lineage : Option String) (generation : StreamGeneration)
    (after : Nat) : (discoverAfter b lineage generation after).Pairwise (· < ·) := by
  have hle := Store.listing_sorted (seqAfter lineage generation after) b
  have hne : (discoverAfter b lineage generation after).Pairwise (· ≠ ·) :=
    Store.listing_nodup seqAfter_numbering b
  exact (hle.and hne).imp fun h => lt_of_le_of_ne h.1 h.2

theorem getLast?_eq_some_of_max {l : List Nat} (hl : l.Pairwise (· < ·)) {m : Nat} (hm : m ∈ l)
    (hmax : ∀ n ∈ l, n ≤ m) : l.getLast? = some m := by
  obtain ⟨init, x, rfl⟩ := (eq_nil_or_concat l).resolve_left (ne_nil_of_mem hm)
  rw [concat_eq_append] at *
  rw [List.getLast?_concat]
  congr 1
  apply le_antisymm (hmax x (by simp))
  rcases mem_append.mp hm with h | h
  · exact le_of_lt ((pairwise_append.mp hl).2.2 m h x (by simp))
  · exact le_of_eq (mem_singleton.mp h)

/-- The newest snapshot at or before `target`, found by what it is. -/
theorem discoverLatestSnapshotAtOrBefore_eq {target p : Nat} (hpos : 0 < p) (hle : p ≤ target)
    (hp : (b.get (.changeset lineage .snapshot p)).isSome)
    (hmax : ∀ n, p < n → n ≤ target → b.get (.changeset lineage .snapshot n) = none) :
    discoverLatestSnapshotAtOrBefore b lineage target = some p := by
  apply getLast?_eq_some_of_max
  · exact (discoverAfter_sorted b lineage .snapshot 0).filter _
  · simp [mem_discoverAfter, hpos, hp, hle]
  · intro n hn
    simp only [mem_filter, mem_discoverAfter, decide_eq_true_eq] at hn
    by_contra hlt
    have := hmax n (not_le.mp hlt) hn.2
    simp [this] at hn

end Walrust
