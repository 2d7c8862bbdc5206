import Walrust.Compaction.Converge

/-!
# `Walrust.Compaction.Window` — the fine-grain window

Only the selection of a batch tests ages. The two convergence paths delete whatever lies under an existing
merged object. They are safe because nothing young ever comes to lie there: a merged range is the span of a
batch that was old enough, the writer publishes behind it, and the clock does not go back.

* `Aged` — what is listed with an age of at least the window;
* `Windowed` — the invariant, kept by publishes, snapshots and runs;
* `fine_window_honoured` — over whole runs.
-/

namespace Walrust
namespace Compaction

open Lib
open Shelves (mem_add mem_remove)

/-- The level-0 object at `seq` is listed with a time at least `windowMs` before `nowMs`. -/
def Aged (env : Env) (b : Bucket) (windowMs nowMs : Int64) (seq : Nat) : Prop :=
  ∃ h, HeaderAt env b (.changeset none .live seq) h ∧ h.createdMs.toInt + windowMs.toInt ≤ nowMs.toInt

/-- A bucket, the newest published seq and the clock of the last run. -/
structure Clocked where
  bucket : Bucket
  last : Nat
  nowMs : Int64

/-- **The runs**: publishes at rising seqs, snapshots, and compaction runs of any level and any faults, all
    with one window and a clock that does not go back. -/
inductive Clocks (ltx : LtxSource) (windowMs : Int64) : Clocked → Prop
  | start (nowMs : Int64) (hnow : 0 ≤ nowMs.toInt) : Clocks ltx windowMs ⟨.empty, 0, nowMs⟩
  | publish {s : Clocked} (h : Clocks ltx windowMs s) (seq : Nat) (bytes : Bytes) (hseq : s.last < seq) :
      Clocks ltx windowMs ⟨s.bucket.put (.changeset none .live seq) bytes, seq, s.nowMs⟩
  | snapshot {s : Clocked} (h : Clocks ltx windowMs s) (seq : Nat) (bytes : Bytes) :
      Clocks ltx windowMs { s with bucket := s.bucket.put (.changeset none .snapshot seq) bytes }
  | compact {s : Clocked} (h : Clocks ltx windowMs s) (env : Env) (c : Call) (ops : Nat) (hltx : env.ltx = ltx)
      (hwindow : c.windowMs = windowMs) (hnow : s.nowMs.toInt ≤ c.nowMs.toInt) :
      Clocks ltx windowMs ⟨(leaves (c.run env ⟨s.bucket, ops⟩)).bucket, s.last, c.nowMs⟩

section Run

variable {env env' : Env} {b b' : Bucket} {c : Call} {windowMs nowMs : Int64} {n : Nat}

theorem Aged.congr (h : Aged env b windowMs nowMs n) (hltx : env'.ltx = env.ltx)
    (hget : b'.get (.changeset none .live n) = b.get (.changeset none .live n)) {nowMs' : Int64}
    (hnow : nowMs.toInt ≤ nowMs'.toInt) : Aged env' b' windowMs nowMs' n := by
  obtain ⟨header, ⟨bytes, hbytes, hheader⟩, hage⟩ := h
  refine ⟨header, ⟨bytes, hget.trans hbytes, ?_⟩, hage.trans hnow⟩
  rw [← hheader, headerOf, headerOf, hltx]

/-- What a cutoff admits is the window older, where the subtraction does not wrap. -/
theorem le_cutoff {ts : Int64} (hwindow : 0 ≤ windowMs.toInt) (hnow : 0 ≤ nowMs.toInt)
    (h : ts ≤ nowMs - windowMs) : ts.toInt + windowMs.toInt ≤ nowMs.toInt := by
  have hsub : (nowMs - windowMs).toInt = nowMs.toInt - windowMs.toInt := by
    have h1 := windowMs.toInt_lt
    have h2 := nowMs.toInt_lt
    rw [Int64.toInt_sub, Int.bmod_eq_of_le] <;> omega
  rw [Int64.le_iff_toInt_le] at h
  omega

/-- What lies within the span of a batch of level 0 is old enough: it is a file of the batch. -/
theorem Batch.aged {all targets rest : List LayoutFile} {first : LayoutFile}
    (hb : Batch env b c all targets first rest) (h0 : c.level = 0) (hwindow : 0 ≤ c.windowMs.toInt)
    (hnow : 0 ≤ c.nowMs.toInt) (hn : n ∈ (spanOf first rest).seqs) : Aged env b c.windowMs c.nowMs n := by
  obtain ⟨r, hr, hnr⟩ := hb.spans.cover hn
  obtain ⟨f, hf, rfl⟩ := List.mem_map.mp hr
  have hrange := (hb.fileAt hf).range_eq
  rw [h0] at hrange
  obtain ⟨hkey, hpoint⟩ := keyRange_zero hrange
  rw [hpoint] at hnr
  obtain rfl : f.range.min = n := le_antisymm hnr.1 hnr.2
  obtain ⟨pre, mid, post, -, htake, -⟩ := hb.cut
  have hmem : f ∈ all.take (eligibleLen c all) := by
    rw [htake]
    exact List.mem_append_left _ (List.mem_append_right _ hf)
  obtain ⟨header, hheader, hms⟩ := (hb.fileAt hf).header
  refine ⟨header, hkey ▸ hheader, le_cutoff hwindow hnow ?_⟩
  rw [hms]
  exact mem_take_eligible h0 hmem

variable {S S' : Shelves} {level : Level} {picked : SeqRange → Prop}

/-- **What a run takes from level 0** lies under a merged object, or in the batch it picked. -/
theorem Change.gone (h : Change S level picked S') (hS : ∀ r ∈ S level, r.min ≤ r.max) {r : SeqRange}
    (hr : r ∈ S 0) (hgone : r ∉ S' 0) :
    level = 0 ∧ ∃ m, (m ∈ S 1 ∨ picked m) ∧ m.min ≤ r.min ∧ r.max ≤ m.max := by
  cases h with
  | @trimmed D hcover =>
    obtain ⟨rfl, hD⟩ : 0 = level ∧ r ∈ D := by
      by_contra hkept
      exact hgone (mem_remove.mpr ⟨hr, fun hlevel hD => hkept ⟨hlevel, hD⟩⟩)
    obtain ⟨m, hm, hin⟩ := hcover r hD
    exact ⟨rfl, m, .inl hm, hin⟩
  | dropped hrun hs =>
    exact absurd (mem_remove.mpr ⟨hr, fun hlevel => absurd hlevel (Nat.succ_ne_zero _).symm⟩) hgone
  | @stored run s hrun hs D hD =>
    obtain ⟨rfl, hD'⟩ : 0 = level ∧ r ∈ D := by
      by_contra hkept
      exact hgone (mem_remove.mpr ⟨mem_add.mpr (.inl hr), fun hlevel hD => hkept ⟨hlevel, hD⟩⟩)
    exact ⟨rfl, s, .inr hs, hrun.within hS (hD r hD')⟩

/-- **What a run brings to level 1** is the batch it picked at level 0. -/
theorem Change.came (h : Change S level picked S') {m : SeqRange} (hm : m ∈ S' 1) :
    m ∈ S 1 ∨ level = 0 ∧ picked m := by
  cases h with
  | trimmed hcover => exact .inl (mem_remove.mp hm).1
  | dropped hrun hs => exact .inl (mem_remove.mp hm).1
  | stored hrun hs hD =>
    rcases mem_add.mp (mem_remove.mp hm).1 with hm | ⟨hlevel, rfl⟩
    · exact .inl hm
    · exact .inr ⟨(Nat.succ.inj hlevel).symm, hs⟩

end Run

/-- **The invariant**: everything published and everything merged ends at or before the newest seq, and what
    lies under a merged object is old enough. -/
structure Windowed (ltx : LtxSource) (windowMs : Int64) (s : Clocked) : Prop where
  now : 0 ≤ s.nowMs.toInt
  live : ∀ n, (s.bucket.get (.changeset none .live n)).isSome → n ≤ s.last
  merged : ∀ m ∈ shelves s.bucket 1, m.max ≤ s.last
  aged : ∀ env : Env, env.ltx = ltx → ∀ m ∈ shelves s.bucket 1, ∀ n ∈ m.seqs,
    (s.bucket.get (.changeset none .live n)).isSome → Aged env s.bucket windowMs s.nowMs n

variable {ltx : LtxSource} {windowMs : Int64} {s : Clocked}

theorem Windowed.publish (h : Windowed ltx windowMs s) {seq : Nat} (bytes : Bytes) (hseq : s.last < seq) :
    Windowed ltx windowMs ⟨s.bucket.put (.changeset none .live seq) bytes, seq, s.nowMs⟩ := by
  have hmerged : ∀ m ∈ shelves (s.bucket.put (.changeset none .live seq) bytes) 1, m ∈ shelves s.bucket 1 := by
    intro m hm
    rw [shelves_put _ (keyRange_live seq)] at hm
    exact (mem_add.mp hm).resolve_right fun hzero => one_ne_zero hzero.1
  have hother : ∀ n, n ≠ seq → (s.bucket.put (.changeset none .live seq) bytes).get (.changeset none .live n) =
      s.bucket.get (.changeset none .live n) := by
    intro n hn
    exact Store.get_put_of_ne _ _ fun heq => hn (by cases heq; rfl)
  refine ⟨h.now, fun n hn => ?_, fun m hm => (h.merged m (hmerged m hm)).trans hseq.le, ?_⟩
  · rcases eq_or_ne n seq with rfl | hne
    · exact le_rfl
    · exact (h.live n (hother n hne ▸ hn)).trans hseq.le
  · intro env hltx m hm n hn hsome
    -- the new seq is behind every merged object
    have hmax := h.merged m (hmerged m hm)
    have hne : n ≠ seq := by
      have := hn.2
      omega
    exact (h.aged env hltx m (hmerged m hm) n hn (hother n hne ▸ hsome)).congr rfl (hother n hne) le_rfl

theorem Windowed.compact (hwindow : 0 ≤ windowMs.toInt) (h : Windowed ltx windowMs s) {env : Env} {c : Call}
    (ops : Nat) (hltx : env.ltx = ltx) (hw : c.windowMs = windowMs) (hnow : s.nowMs.toInt ≤ c.nowMs.toInt) :
    Windowed ltx windowMs ⟨(leaves (c.run env ⟨s.bucket, ops⟩)).bucket, s.last, c.nowMs⟩ := by
  have heffect := runLevelCompaction_effect env c ⟨s.bucket, ops⟩
  generalize (leaves (c.run env ⟨s.bucket, ops⟩)).bucket = b' at heffect ⊢
  have hnow0 : 0 ≤ c.nowMs.toInt := h.now.trans hnow
  have hsame : ∀ n, (b'.get (.changeset none .live n)).isSome →
      b'.get (.changeset none .live n) = s.bucket.get (.changeset none .live n) := by
    intro n hn
    obtain ⟨bytes, hbytes⟩ := Option.isSome_iff_exists.mp hn
    exact hbytes.trans (heffect.keeps_live hbytes).symm
  have hbefore : ∀ n, (b'.get (.changeset none .live n)).isSome →
      (s.bucket.get (.changeset none .live n)).isSome := fun n hn => hsame n hn ▸ hn
  refine ⟨hnow0, fun n hn => h.live n (hbefore n hn), fun m hm => ?_, fun env' hltx' m hm n hn hsome => ?_⟩
  · rcases heffect.change.came hm with hm | ⟨h0, all, targets, first, rest, hb, rfl⟩
    · exact h.merged m hm
    · -- the end of a batch is one of its files
      have hspan := hb.spans.le fun r hr => shelves_le hr
      obtain ⟨_, ⟨bytes, hbytes, _⟩, _⟩ := hb.aged h0 (hw ▸ hwindow) hnow0 ⟨hspan, le_refl _⟩
      exact h.live _ (by rw [hbytes]; rfl)
  · rcases heffect.change.came hm with hm | ⟨h0, all, targets, first, rest, hb, rfl⟩
    · exact (h.aged env' hltx' m hm n hn (hbefore n hsome)).congr rfl (hsame n hsome) hnow
    · have haged := hb.aged h0 (hw ▸ hwindow) hnow0 hn
      rw [hw] at haged
      exact haged.congr (hltx'.trans hltx.symm) (hsame n hsome) le_rfl

theorem Clocks.windowed (hwindow : 0 ≤ windowMs.toInt) (h : Clocks ltx windowMs s) : Windowed ltx windowMs s := by
  induction h with
  | start nowMs hnow =>
    refine ⟨hnow, fun n hn => (by cases hn), ?_, ?_⟩
    · rintro m ⟨key, -, hget⟩
      cases hget
    · rintro env - m ⟨key, -, hget⟩
      cases hget
  | publish _ seq bytes hseq ih => exact ih.publish bytes hseq
  | @snapshot s _ seq bytes ih =>
    have hlive : ∀ n, (s.bucket.put (.changeset none .snapshot seq) bytes).get (.changeset none .live n) =
        s.bucket.get (.changeset none .live n) := fun n => Store.get_put_of_ne _ _ (by rintro ⟨⟩)
    refine ⟨ih.now, fun n hn => ih.live n (hlive n ▸ hn), fun m hm => ?_, fun env hltx m hm n hn hsome => ?_⟩
    · exact ih.merged m (shelves_snapshot s.bucket seq bytes ▸ hm)
    · exact (ih.aged env hltx m (shelves_snapshot s.bucket seq bytes ▸ hm) n hn (hlive n ▸ hsome)).congr rfl
        (hlive n) le_rfl
  | compact _ env c ops hltx hw hnow ih => exact ih.compact hwindow ops hltx hw hnow

/-- **The fine-grain window is honoured.** In every run, with faults anywhere, a level-0 object that a compaction run
    deletes is listed with a time at least the window before the run's; one that is younger stays. -/
theorem fine_window_honoured (ltx : LtxSource) (windowMs : Int64) (hwindow : 0 ≤ windowMs.toInt) (s : Clocked)
    (h : Clocks ltx windowMs s) (env : Env) (c : Call) (ops : Nat) (hltx : env.ltx = ltx)
    (hw : c.windowMs = windowMs) (hnow : s.nowMs.toInt ≤ c.nowMs.toInt) (seq : Nat)
    (hsome : (s.bucket.get (.changeset none .live seq)).isSome) :
    ((leaves (c.run env ⟨s.bucket, ops⟩)).bucket.get (.changeset none .live seq) = none →
        Aged env s.bucket windowMs c.nowMs seq) ∧
      ∀ header, HeaderAt env s.bucket (.changeset none .live seq) header →
        c.nowMs.toInt < header.createdMs.toInt + windowMs.toInt →
        ((leaves (c.run env ⟨s.bucket, ops⟩)).bucket.get (.changeset none .live seq)).isSome := by
  have hwindowed := h.windowed hwindow
  have heffect := runLevelCompaction_effect env c ⟨s.bucket, ops⟩
  have hdeleted : (leaves (c.run env ⟨s.bucket, ops⟩)).bucket.get (.changeset none .live seq) = none →
      Aged env s.bucket windowMs c.nowMs seq := by
    intro hnone
    have hgone : SeqRange.point seq ∉ shelves (leaves (c.run env ⟨s.bucket, ops⟩)).bucket 0 := by
      rw [mem_shelves (keyRange_live seq), hnone]
      exact Bool.false_ne_true
    obtain ⟨h0, m, hm | ⟨all, targets, first, rest, hb, rfl⟩, hn⟩ := heffect.change.gone (fun r => shelves_le)
      ((mem_shelves (keyRange_live seq)).mpr hsome) hgone
    · exact (hwindowed.aged env hltx m hm seq hn hsome).congr rfl rfl hnow
    · exact hw ▸ hb.aged h0 (hw ▸ hwindow) (hwindowed.now.trans hnow) hn
  refine ⟨hdeleted, fun header hheader hyoung => ?_⟩
  by_contra hgone
  obtain ⟨header', hheader', hage⟩ := hdeleted (Option.not_isSome_iff_eq_none.mp hgone)
  obtain rfl := hheader.unique hheader'
  omega

/-- Two incrementals listed at time 0, merged at time 5 with a window of 5. -/
theorem fine_window_honoured_twoLive : ∃ (s : Clocked) (c : Call), Clocks foldEnv.ltx 5 s ∧
    (leaves (c.run foldEnv ⟨s.bucket, 0⟩)).bucket.get (.changeset none .live 1) = none ∧
      Aged foldEnv s.bucket 5 c.nowMs 1 := by
  have hrun : Clocks foldEnv.ltx 5 ⟨foldLive 2 (foldLive 1 Store.empty), 2, 0⟩ :=
    .publish (.publish (.start 0 (by decide)) 1 _ (by decide)) 2 _ (by decide)
  have hnone : (leaves (Call.run ⟨0, 2, 5, 5⟩ foldEnv ⟨foldLive 2 (foldLive 1 Store.empty), 0⟩)).bucket.get
      (.changeset none .live 1) = none := by decide +kernel
  exact ⟨_, ⟨0, 2, 5, 5⟩, hrun, hnone, (fine_window_honoured foldEnv.ltx 5 (by decide) _ hrun foldEnv ⟨0, 2, 5, 5⟩ 0 rfl
    rfl (by decide) 1 (by decide +kernel)).1 hnone⟩

end Compaction
end Walrust
