import Walrust.Restore

/-!
# `Walrust.Restore.Stream` — what a restorable bucket holds

A `Stream` is a snapshot followed by consecutive seqs, each holding exactly one object: a snapshot of the
image at that seq, or an incremental that leads there from the image before.

* `Stream.start`, `Stream.snoc` — how a stream begins and grows;
* `Stream.restore` — a restore of a stream returns the image at its target.
-/

namespace Walrust
namespace Restore

open Hadbp Ltx List Function

variable {ph : Physical} {b : Bucket} {lineage : Option String} {s last : Nat} {img : Nat → Bytes}

section

variable (ph : Physical) (b : Bucket) (lineage : Option String) (s : Nat)

/-- Seq `s` holds only a snapshot, of `image`; an image beyond the decoder's cap cannot be read back. -/
def SnapshotAt (image : Bytes)
    (sum : UInt64) : Prop :=
  b.get (.changeset lineage .live s) = none ∧
    ∃ bytes, b.get (.changeset lineage .snapshot s) = some bytes ∧
      (image.length ≤ maxDecodedDbBytes → ∃ h, decodeToDb ph bytes = .ok ⟨h, sum, image⟩)

/-- Seq `s` holds only an incremental, which leads from `before` (with chain value `prev`) to `image`. -/
def DeltaAt (before : Bytes)
    (prev : UInt64) (image : Bytes) (sum : UInt64) : Prop :=
  b.get (.changeset lineage .snapshot s) = none ∧
    ∃ bytes, b.get (.changeset lineage .live s) = some bytes ∧
      ∃ h, applyChangesetToDb ph bytes before prev = .ok ⟨h, sum, image⟩

end

theorem DeltaAt.live {before image : Bytes} {prev sum : UInt64}
    (h : DeltaAt ph b lineage s before prev image sum) : (b.get (.changeset lineage .live s)).isSome := by
  obtain ⟨-, bytes, hget, -⟩ := h
  simp [hget]

/-- **A stream** from seq `first` to seq `last`, with the image and the chain value at each seq. -/
structure Stream (ph : Physical) (b : Bucket) (lineage : Option String) (first last : Nat)
    (img : Nat → Bytes) (sum : Nat → UInt64) : Prop where
  pos : 0 < first
  le : first ≤ last
  base : SnapshotAt ph b lineage first (img first) (sum first)
  object : ∀ s, first < s → s ≤ last → SnapshotAt ph b lineage s (img s) (sum s) ∨
    DeltaAt ph b lineage s (img (s - 1)) (sum (s - 1)) (img s) (sum s)

namespace Stream

variable {first : Nat} {sum : Nat → UInt64}

theorem start {p : Nat} {image : Bytes} {c : UInt64} (hpos : 0 < p) (h : SnapshotAt ph b lineage p image c) :
    Stream ph b lineage p p (fun _ => image) (fun _ => c) :=
  ⟨hpos, le_refl p, h, fun _ hlt hle => absurd hle (not_le.mpr hlt)⟩

section

variable (h : Stream ph b lineage first last img sum)
include h

theorem frame {b' : Bucket}
    (hsame : ∀ g n, first ≤ n → n ≤ last → b'.get (.changeset lineage g n) = b.get (.changeset lineage g n)) :
    Stream ph b' lineage first last img sum := by
  refine ⟨h.pos, h.le, ?_, ?_⟩
  · unfold SnapshotAt
    rw [hsame _ _ (le_refl first) h.le, hsame _ _ (le_refl first) h.le]
    exact h.base
  · intro s hlt hle
    unfold SnapshotAt DeltaAt
    rw [hsame _ _ (le_of_lt hlt) hle, hsame _ _ (le_of_lt hlt) hle]
    exact h.object s hlt hle

theorem snoc {image : Bytes} {c : UInt64} (hobj : SnapshotAt ph b lineage (last + 1) image c ∨
      DeltaAt ph b lineage (last + 1) (img last) (sum last) image c) :
    Stream ph b lineage first (last + 1) (update img (last + 1) image)
      (update sum (last + 1) c) := by
  have hold : ∀ s, s ≤ last → update img (last + 1) image s = img s ∧
      update sum (last + 1) c s = sum s := by
    intro s hs
    have hne : s ≠ last + 1 := ne_of_lt (Nat.lt_succ_of_le hs)
    exact ⟨update_of_ne hne _ _, update_of_ne hne _ _⟩
  refine ⟨h.pos, Nat.le_succ_of_le h.le, ?_, ?_⟩
  · rw [(hold first h.le).1, (hold first h.le).2]
    exact h.base
  intro s hlt hle
  rcases lt_or_eq_of_le hle with hs | rfl
  · -- an old seq: it and its predecessor are as they were
    have hs : s ≤ last := Nat.le_of_lt_succ hs
    have hpred : s - 1 ≤ last := le_trans (Nat.sub_le s 1) hs
    rw [(hold s hs).1, (hold s hs).2, (hold _ hpred).1, (hold _ hpred).2]
    exact h.object s hlt hs
  · rw [Nat.add_sub_cancel, (hold last (le_refl last)).1, (hold last (le_refl last)).2,
      update_self, update_self]
    exact hobj

/-- Below every seq of a stream there is a newest snapshot. -/
theorem exists_base (hs : first ≤ s) (hle : s ≤ last) :
    ∃ p, first ≤ p ∧ p ≤ s ∧ SnapshotAt ph b lineage p (img p) (sum p) ∧
      ∀ n, p < n → n ≤ s → DeltaAt ph b lineage n (img (n - 1)) (sum (n - 1)) (img n) (sum n) := by
  induction s with
  | zero => exact absurd (Nat.le_zero.mp hs) (Nat.pos_iff_ne_zero.mp h.pos)
  | succ s ih =>
    rcases lt_or_eq_of_le hs with hlt | heq
    · rcases h.object (s + 1) hlt hle with hsnap | hdelta
      · exact ⟨s + 1, hs, le_refl _, hsnap, fun n h₁ h₂ => absurd h₂ (not_le.mpr h₁)⟩
      · obtain ⟨p, h₁, h₂, hsnap, hrest⟩ := ih (Nat.le_of_lt_succ hlt) (Nat.le_of_succ_le hle)
        refine ⟨p, h₁, Nat.le_succ_of_le h₂, hsnap, ?_⟩
        intro n hpn hns
        rcases lt_or_eq_of_le hns with hn | rfl
        · exact hrest n hpn (Nat.le_of_lt_succ hn)
        · exact hdelta
    · subst heq
      exact ⟨s + 1, hs, le_refl _, h.base, fun n h₁ h₂ => absurd h₂ (not_le.mpr h₁)⟩

end

end Stream

/-- Consecutive incrementals apply one after the other. -/
theorem applyIncrementals_range {sum : Nat → UInt64} {p k : Nat}
    (h : ∀ n, p < n → n ≤ p + k → DeltaAt ph b lineage n (img (n - 1)) (sum (n - 1)) (img n) (sum n)) :
    applyIncrementals ph b lineage (range' (p + 1) k) ⟨p, sum p, img p⟩ =
      .ok ⟨p + k, sum (p + k), img (p + k)⟩ := by
  induction k generalizing p with
  | zero => rfl
  | succ k ih =>
    obtain ⟨-, bytes, hget, hdr, happly⟩ := h (p + 1) (lt_add_one p) (by omega)
    rw [Nat.add_sub_cancel] at happly
    have hrest := ih (p := p + 1) fun n h₁ h₂ => h n (by omega) (by omega)
    rw [show p + 1 + k = p + (k + 1) by omega] at hrest
    simp only [List.range'_succ, applyIncrementals, ne_eq, hget, happly]
    exact hrest

/-- The incrementals a restore of `s` applies after the snapshot `p`. -/
theorem discover_range {p : Nat} (hps : p ≤ s)
    (hlive : ∀ n, p < n → n ≤ s → (b.get (.changeset lineage .live n)).isSome) :
    (discoverAfter b lineage .live p).filter (· ≤ s) = range' (p + 1) (s - p) := by
  refine List.Perm.eq_of_pairwise (fun a b _ _ h₁ h₂ => absurd h₁ (lt_asymm h₂))
    ((discoverAfter_sorted b lineage .live p).filter _) pairwise_lt_range' ?_
  rw [perm_ext_iff_of_nodup]
  · intro n
    simp only [mem_filter, mem_discoverAfter, decide_eq_true_eq, mem_range'_1]
    constructor
    · rintro ⟨⟨h₁, -⟩, h₂⟩
      omega
    · intro hn
      exact ⟨⟨by omega, hlive n (by omega) (by omega)⟩, by omega⟩
  · exact ((discoverAfter_sorted b lineage .live p).filter _).imp ne_of_lt
  · exact nodup_range'

namespace Stream

variable {first : Nat} {sum : Nat → UInt64}

/-- **A restore of a stream to `s`** returns the image at `s`, if its base snapshot can be decoded. -/
theorem restore (h : Stream ph b lineage first last img sum) (hun : Unleveled b) (hs : first ≤ s)
    (hle : s ≤ last) (hcap : ∀ p, baseSnapshot b lineage (some s) = some p → (img p).length ≤ maxDecodedDbBytes) :
    restoreStaged ph b lineage (some s) = .ok ⟨s, sum s, img s, lineage, false⟩ := by
  obtain ⟨p, hfp, hps, ⟨-, bytes, hget, hdec⟩, hdelta⟩ := h.exists_base hs hle
  have hbase : baseSnapshot b lineage (some s) = some p :=
    discoverLatestSnapshotAtOrBefore_eq (lt_of_lt_of_le h.pos hfp) hps (by simp [hget])
      fun n h₁ h₂ => (hdelta n h₁ h₂).1
  obtain ⟨hdr, hdec⟩ := hdec (hcap p hbase)
  have hrange := discover_range hps fun n h₁ h₂ => (hdelta n h₁ h₂).live
  have happly := applyIncrementals_range (k := s - p) fun n h₁ h₂ => hdelta n h₁ (by omega)
  rw [Nat.add_sub_cancel' hps] at happly
  rw [restoreStaged_unleveled hun hbase hget hdec]
  simp only [restoreLinear, hrange, happly]
  rfl

end Stream

end Restore
end Walrust
