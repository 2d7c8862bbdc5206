import Walrust.Compaction.EngineSpec

/-!
# `Walrust.Compaction.Effect` — every bucket a compaction run can leave behind

From a bucket `b`, a run that returns leaves one of the buckets of `Completes`, a run that stops one of the
buckets of `Effect`, and `Cause` says why it stopped. Each constructor carries what the run had checked
before it made the change, as facts about `b`.

* `Batch` — the state of knowledge when a batch has been selected;
* `runLevelCompaction_spec` — the one lemma about the run that the properties of whole histories use.
-/

namespace Walrust
namespace Compaction

open Lib List

variable {env : Env} {b : Bucket}

variable {all targets sources : List LayoutFile} {b' : Bucket} {level : Level} {range : SeqRange} {key : Key}
  {exact : Option LayoutFile}

/-! ## Looking for an existing object -/

theorem findExistingMerged_ok {r : Option LayoutFile} (h : findExistingMerged env range targets exact = .ok r) :
    (∀ m ∈ targets, m.range = range ∨ rangesOverlap m.range range = false) ∧
      (r = exact ∧ (∀ m ∈ targets, m.range ≠ range) ∨ ∃ m ∈ targets, r = some m ∧ m.range = range) := by
  induction targets generalizing exact with
  | nil =>
    cases h
    exact ⟨fun m hm => (by cases hm), .inl ⟨rfl, fun m hm => (by cases hm)⟩⟩
  | cons f fs ih =>
    unfold findExistingMerged at h
    split at h
    · next hf =>
      obtain ⟨hall, hr⟩ := ih h
      refine ⟨forall_mem_cons.mpr ⟨.inl hf, hall⟩, .inr ?_⟩
      rcases hr with ⟨rfl, _⟩ | ⟨m, hm, hrm⟩
      · exact ⟨f, mem_cons_self, rfl, hf⟩
      · exact ⟨m, mem_cons_of_mem _ hm, hrm⟩
    next hf =>
    split at h
    · cases h
    next ho =>
    obtain ⟨hall, hr⟩ := ih h
    refine ⟨forall_mem_cons.mpr ⟨.inr (Bool.eq_false_of_not_eq_true ho), hall⟩, ?_⟩
    rcases hr with ⟨rfl, hno⟩ | ⟨m, hm, hrm⟩
    · exact .inl ⟨rfl, forall_mem_cons.mpr ⟨hf, hno⟩⟩
    · exact .inr ⟨m, mem_cons_of_mem _ hm, hrm⟩

theorem findExistingMerged_error {err : CompactionError}
    (h : findExistingMerged env range targets exact = .error err) :
    (∃ msg, err = .overlappingExisting msg) ∧
      ∃ m ∈ targets, m.range ≠ range ∧ rangesOverlap m.range range = true := by
  induction targets generalizing exact with
  | nil => cases h
  | cons f fs ih =>
    unfold findExistingMerged at h
    split at h
    · exact (ih h).imp_right fun ⟨m, hm, h⟩ => ⟨m, mem_cons_of_mem _ hm, h⟩
    next hf =>
    split at h
    · next ho =>
      injection h with h
      exact ⟨⟨_, h.symm⟩, f, mem_cons_self, hf, ho⟩
    · exact (ih h).imp_right fun ⟨m, hm, h⟩ => ⟨m, mem_cons_of_mem _ hm, h⟩

/-! ## The keys of a level -/

/-- The key a merged object of `range` has at `level`. -/
def mergedKey (level : Level) (range : SeqRange) : Key := .merged level range.min range.max

theorem keyRange_merged (h : keyRange (level + 1) key = some range) : key = mergedKey (level + 1) range := by
  cases key with
  | changeset l g seq =>
    cases l <;> cases g <;> simp [keyRange] at h
  | envelope seq => cases h
  | merged l min max =>
    simp only [keyRange] at h
    split at h
    · rename_i hc
      cases h
      simp [mergedKey, hc.1]
    · cases h

/-- The levels share no key. -/
theorem keyRange_level_unique {l l' : Level} (h : (keyRange l key).isSome)
    (h' : (keyRange l' key).isSome) : l = l' := by
  cases key with
  | changeset ln g seq =>
    cases ln <;> cases g <;> simp_all [keyRange]
  | envelope seq => cases h
  | merged lv min max =>
    simp only [keyRange, Option.isSome_ite] at h h'
    exact h.1.symm.trans h'.1

theorem keyRange_mergedKey_ne (h : (keyRange level key).isSome) : key ≠ mergedKey (level + 1) range := by
  rintro rfl
  simp [mergedKey, keyRange] at h

theorem keyRange_le (h : keyRange level key = some range) : range.min ≤ range.max := by
  cases key with
  | changeset l g seq =>
    cases l <;> cases g <;> simp [keyRange] at h
    rw [← h.2]
    exact le_refl _
  | envelope seq => cases h
  | merged l min max =>
    simp only [keyRange] at h
    split at h
    · rename_i hc
      cases h
      exact hc.2.2
    · cases h

/-! ## What a change at one level leaves alone -/

theorem HeaderAt.congr (hkey : b'.get key = b.get key) {h : SourceHeader} :
    HeaderAt env b' key h ↔ HeaderAt env b key h := by
  unfold HeaderAt
  rw [hkey]

theorem StreamAt.congr (hkey : b'.get key = b.get key) {st : PageStream} :
    StreamAt env b' key st ↔ StreamAt env b key st := by
  unfold StreamAt
  rw [hkey]

theorem opened_congr {fs : List LayoutFile} {inputs : List MergeInput}
    (hkeys : ∀ f ∈ fs, b'.get f.key = b.get f.key) (h : Forall₂ (Opened env b') fs inputs) :
    Forall₂ (Opened env b) fs inputs := by
  induction h with
  | nil => exact .nil
  | cons ho _ ih =>
    have hk := hkeys _ mem_cons_self
    exact .cons ⟨(HeaderAt.congr hk).mp ho.header, ho.range, (StreamAt.congr hk).mp ho.stream⟩
      (ih fun f hf => hkeys f (mem_cons_of_mem _ hf))

theorem MergedFrom.congr {result : MergeResult} (hkeys : ∀ f ∈ sources, b'.get f.key = b.get f.key) :
    MergedFrom env b' sources result ↔ MergedFrom env b sources result := by
  constructor
  · rintro ⟨inputs, tracker, hinputs, h⟩
    exact ⟨inputs, tracker, opened_congr hkeys hinputs, h⟩
  · rintro ⟨inputs, tracker, hinputs, h⟩
    exact ⟨inputs, tracker, opened_congr (fun f hf => (hkeys f hf).symm) hinputs, h⟩

/-! ## Outcomes -/

/-- The parameters of one call. -/
structure Call where
  level : Level
  batch : Nat
  windowMs : Int64
  nowMs : Int64
  deriving DecidableEq, Repr

/-- The run of a call. -/
abbrev Call.run (c : Call) (env : Env) : Run CompactionOutcome :=
  runLevelCompaction env c.level c.batch c.windowMs c.nowMs

/-- Where a call puts the merge of a batch. -/
abbrev Call.target (c : Call) (first : LayoutFile) (rest : List LayoutFile) : Key :=
  mergedKey (c.level + 1) (spanOf first rest)

/-- What is known when a batch has been selected: both listings, that no interrupted delete is left to
    finish, and the batch itself. -/
structure Batch (env : Env) (b : Bucket) (c : Call) (all targets : List LayoutFile) (first : LayoutFile)
    (rest : List LayoutFile) : Prop where
  listed : Listing env b c.level all
  targetsListed : Listing env b (c.level + 1) targets
  settled : ∀ m ∈ targets, ¬ Converges env b all m
  selected : selectSources c.level c.batch c.windowMs c.nowMs all = some (first, rest)

/-- No target object overlaps the batch without having its very range. -/
def Admissible (targets : List LayoutFile) (range : SeqRange) : Prop :=
  ∀ m ∈ targets, m.range = range ∨ rangesOverlap m.range range = false

/-- The files of an interrupted delete, each with the object that covers it. -/
structure Leftovers (env : Env) (b : Bucket) (c : Call) (all targets deletable : List LayoutFile) :
    Prop where
  listed : Listing env b c.level all
  targetsListed : Listing env b (c.level + 1) targets
  justified : ∀ f ∈ deletable, ∃ m ∈ targets, Converges env b all m ∧ f ∈ coveredBy all m
  once : (deletable.map (·.key)).Nodup

theorem Leftovers.fileAt (h : Leftovers env b c all targets sources) (hf : f ∈ sources) : FileAt env b c.level f := by
  obtain ⟨m, -, -, hcovered⟩ := h.justified f hf
  exact h.listed.fileAt f (mem_filter.mp hcovered).1

/-- The object stored under the batch's key reads back as the merge `result` declares it. -/
def ReadsBack (env : Env) (stored : Bytes) (result : MergeResult) : Prop :=
  ∃ cs, verifyMergedBytes env stored result.prevChecksum result.declaredEndChecksum
    result.pageCount = .ok cs

section Runs

variable (env : Env) (b : Bucket) (c : Call)

/-- What a run returns, with the bucket it leaves. -/
inductive Completes : CompactionOutcome → Bucket → Prop
  | idle (h : c.batch = 0 ∨ ∃ all, Listing env b c.level all ∧
      selectSources c.level c.batch c.windowMs c.nowMs all = none) : Completes .noOp b
  | converged {all targets deletable : List LayoutFile} {cover : LayoutFile} (hne : deletable ≠ [])
      (h : Leftovers env b c all targets deletable) :
      Completes (.convergedExistingDeletion deletable.length cover) (eraseAll b deletable)
  | recovered {all targets rest : List LayoutFile} {first existing : LayoutFile}
      (hbatch : Batch env b c all targets first rest) (hmem : existing ∈ targets)
      (hrange : existing.range = spanOf first rest)
      (hsound : ExistingSound env b existing first rest) :
      Completes (.convergedExistingDeletion (first :: rest).length existing) (eraseAll b (first :: rest))
  | merged {all targets rest : List LayoutFile} {first output : LayoutFile} {result : MergeResult}
      {stored : Bytes} (hbatch : Batch env b c all targets first rest)
      (hadm : Admissible targets (spanOf first rest)) (hmerge : MergedFrom env b (first :: rest) result)
      (hstored : env.Faithful → stored = result.bytes) (hback : ReadsBack env stored result) :
      Completes (.merged (first :: rest).length output)
        (eraseAll (b.put (mergedKey (c.level + 1) (spanOf first rest)) stored) (first :: rest))

/-- The buckets a run leaves when it stops. -/
inductive Effect : Bucket → Prop
  | unchanged : Effect b
  | converged {all targets deletable : List LayoutFile} (h : Leftovers env b c all targets deletable)
      (k : Nat) : Effect (eraseAll b (deletable.take k))
  | recovered {all targets rest : List LayoutFile} {first existing : LayoutFile}
      (hbatch : Batch env b c all targets first rest) (hmem : existing ∈ targets)
      (hrange : existing.range = spanOf first rest)
      (hsound : ExistingSound env b existing first rest) (k : Nat) :
      Effect (eraseAll b ((first :: rest).take k))
  /-- An unsound output is deleted, before or after the merge was written again. -/
  | dropped {all targets rest : List LayoutFile} {first : LayoutFile}
      (hbatch : Batch env b c all targets first rest)
      (hadm : Admissible targets (spanOf first rest)) :
      Effect (b.erase (mergedKey (c.level + 1) (spanOf first rest)))
  | stored {all targets rest : List LayoutFile} {first : LayoutFile} {result : MergeResult}
      {stored : Bytes} (hbatch : Batch env b c all targets first rest)
      (hadm : Admissible targets (spanOf first rest)) (hmerge : MergedFrom env b (first :: rest) result)
      (hstored : env.Faithful → stored = result.bytes) :
      Effect (b.put (mergedKey (c.level + 1) (spanOf first rest)) stored)
  | swapped {all targets rest : List LayoutFile} {first : LayoutFile} {result : MergeResult}
      {stored : Bytes} (hbatch : Batch env b c all targets first rest)
      (hadm : Admissible targets (spanOf first rest)) (hmerge : MergedFrom env b (first :: rest) result)
      (hstored : env.Faithful → stored = result.bytes) (hback : ReadsBack env stored result) (k : Nat) :
      Effect (eraseAll (b.put (mergedKey (c.level + 1) (spanOf first rest)) stored)
        ((first :: rest).take k))

/-- Why a run stops. -/
inductive Cause : Halt → Prop
  | sick {e : Halt} (h : ¬ env.Healthy) : Cause e
  | unreadable {e : Halt} (h : ¬ Readable env b c.level ∨ ¬ Readable env b (c.level + 1)) : Cause e
  | scan {e : Halt} {all targets : List LayoutFile} (hs : Listing env b c.level all)
      (ht : Listing env b (c.level + 1) targets)
      (h : (∃ m ∈ targets, b.get m.key = none) ∨ ∃ s ∈ all, Unreadable env b s) : Cause e
  | overlap {msg : String} {all targets rest : List LayoutFile} {first m : LayoutFile}
      (hbatch : Batch env b c all targets first rest) (hm : m ∈ targets)
      (hne : m.range ≠ spanOf first rest)
      (ho : rangesOverlap m.range (spanOf first rest) = true) : Cause (.err (.overlappingExisting msg))
  | merge {e : Halt} {all targets rest : List LayoutFile} {first : LayoutFile}
      (hbatch : Batch env b c all targets first rest)
      (h : ∀ result, MergedFrom env b (first :: rest) result → ∃ err,
        parseSourceHeader result.bytes = .error err) : Cause e

end Runs

variable {c : Call} {rest : List LayoutFile} {first : LayoutFile}

theorem Completes.effect {o : CompactionOutcome} (h : Completes env b c o b') :
    Effect env b c b' := by
  cases h with
  | idle => exact .unchanged
  | @converged all targets deletable cover hne h =>
    have := Effect.converged h deletable.length
    rwa [take_length] at this
  | @recovered all targets rest first existing hbatch hmem hrange hsound =>
    have := Effect.recovered hbatch hmem hrange hsound (first :: rest).length
    rwa [take_length] at this
  | @merged all targets rest first output result stored hbatch hadm hmerge hstored hback =>
    have := Effect.swapped hbatch hadm hmerge hstored hback (first :: rest).length
    rwa [take_length] at this

/-! ## The run -/

/-- A delete every stop of which is an effect of the run. -/
theorem deleteFiles_effect {files : List LayoutFile} (h : ∀ k, Effect env b c (eraseAll b' (files.take k))) :
    Triple (fun s => s.bucket = b') (deleteFiles env files) (fun _ s => s.bucket = eraseAll b' files)
      (fun e s => Effect env b c s.bucket ∧ Cause env b c e) := by
  refine (deleteFiles_spec files).post (fun _ _ h => h) ?_
  rintro e s ⟨hd, k, hk⟩
  exact ⟨hk ▸ h k, .sick hd.1⟩

/-- The step that finishes an interrupted delete deletes leftovers and nothing else. -/
theorem convergeInterruptedDelete_spec (hs : Listing env b c.level all) (ht : Listing env b (c.level + 1) targets) :
    Triple (fun s => s.bucket = b) (convergeInterruptedDelete env targets all)
      (fun r s =>
        (r = none ∧ s.bucket = b ∧ ∀ m ∈ targets, ¬ Converges env b all m) ∨
          ∃ deletable cover, r = some (.convergedExistingDeletion deletable.length cover) ∧
            deletable ≠ [] ∧ Leftovers env b c all targets deletable ∧ s.bucket = eraseAll b deletable ∧
            ∀ m ∈ targets, Converges env b all m → ∀ f ∈ coveredBy all m, f.key ∈ deletable.map (·.key))
      (fun e s =>
        (∃ deletable k, Leftovers env b c all targets deletable ∧
          s.bucket = eraseAll b (deletable.take k)) ∧ Cause env b c e) := by
  refine Reads.andThen (convergeScan_reads all targets [] none) ?_ fun r hr => ?_
  · intro e s hb hstop
    refine ⟨⟨[], 0, ⟨hs, ht, fun f hf => (by cases hf), nodup_nil⟩, hb⟩, ?_⟩
    rcases hstop with hd | h
    · exact .sick hd.1
    · exact .scan hs ht h
  · obtain ⟨deletable, cover⟩ := r
    have hcover := hr.cover fun h => absurd rfl h
    cases deletable with
    | nil =>
      refine fun s hb => .inl ⟨rfl, hb, fun m hm hconv => ?_⟩
      obtain ⟨f, hf⟩ := exists_mem_of_ne_nil _ hconv.1
      cases hr.complete m hm hconv f hf
    | cons d ds =>
      cases cover with
      | none => exact absurd (hcover (cons_ne_nil _ _)) (by simp)
      | some m =>
        have hleft : Leftovers env b c all targets (d :: ds) := by
          refine ⟨hs, ht, fun f hf => ?_, hr.once nodup_nil⟩
          rcases hr.justified f hf with h | h
          · cases h
          · exact h
        refine Triple.bind (M := fun _ s => s.bucket = eraseAll b (d :: ds)) ?_ fun _ s hb => ?_
        · refine (deleteFiles_spec _).post (fun _ _ h => h) ?_
          rintro e s ⟨hd, k, hk⟩
          exact ⟨⟨_, k, hleft, hk⟩, .sick hd.1⟩
        · exact .inr ⟨_, m, rfl, cons_ne_nil _ _, hleft, hb, hr.complete⟩

/-- The files of a level that are old enough to be merged. -/
def eligibleLen (c : Call) (all : List LayoutFile) : Nat :=
  if c.level = 0 then eligiblePrefixLen (all.map (·.lastModifiedMs)) c.nowMs c.windowMs else all.length

/-- A selected batch is a cut of the listing. -/
theorem selectSources_eq_some :
    selectSources c.level c.batch c.windowMs c.nowMs all = some (first, rest) ↔
      c.batch ≤ eligibleLen c all ∧ ∃ start len,
        contiguousBatch ((all.take (eligibleLen c all)).map (·.range)) c.batch = some (start, len) ∧
          (all.drop start).take len = first :: rest := by
  rw [selectSources, ← eligibleLen]
  by_cases hlt : eligibleLen c all < c.batch
  · rw [if_pos hlt]
    exact ⟨fun h => (by cases h), fun h => absurd h.1 (not_le.mpr hlt)⟩
  rw [if_neg hlt]
  cases hcb : contiguousBatch ((all.take (eligibleLen c all)).map (·.range)) c.batch with
  | none => simp
  | some p =>
    obtain ⟨start, len⟩ := p
    dsimp only
    constructor
    · intro h
      refine ⟨not_lt.mp hlt, start, len, rfl, ?_⟩
      cases hcut : (all.drop start).take len with
      | nil => rw [hcut] at h; cases h
      | cons f fs => rw [hcut] at h; cases h; rfl
    · rintro ⟨_, start', len', heq, hcut⟩
      cases heq
      rw [hcut]

theorem Batch.mem_all {f : LayoutFile} (h : Batch env b c all targets first rest)
    (hf : f ∈ first :: rest) : f ∈ all := by
  obtain ⟨_, start, len, _, heq⟩ := selectSources_eq_some.mp h.selected
  rw [← heq] at hf
  exact drop_subset _ _ (take_subset _ _ hf)

theorem Batch.key_ne {f : LayoutFile} (h : Batch env b c all targets first rest) (hf : f ∈ first :: rest) :
    f.key ≠ mergedKey (c.level + 1) range := by
  apply keyRange_mergedKey_ne
  rw [(h.listed.fileAt f (h.mem_all hf)).range_eq]
  rfl

theorem MergedFrom.unique {r r' : MergeResult} (h : MergedFrom env b sources r)
    (h' : MergedFrom env b sources r') : r = r' := by
  obtain ⟨inputs, _, hinputs, hmerge, _⟩ := h
  obtain ⟨inputs', _, hinputs', hmerge', _⟩ := h'
  rw [opened_unique hinputs' hinputs, hmerge] at hmerge'
  cases hmerge'
  rfl

/-- After an ignored error the run goes on from what was done. -/
theorem attempt_spec {α : Type} {x : Run α} {P : Storage → Prop} {χ : Halt → Prop} {I : Storage → Prop}
    (h : Triple P x (fun _ s => I s) (fun e s => I s ∧ χ e)) :
    Triple P (attempt x) (fun _ s => I s) (fun e s => I s ∧ χ e) := by
  intro s hs
  have hx := h s hs
  unfold attempt
  cases hrun : x s with
  | ok a s' =>
    rw [hrun] at hx
    exact hx
  | error e s' =>
    rw [hrun] at hx
    cases e with
    | err e => exact hx.1
    | crash => exact hx

section

variable (hbatch : Batch env b c all targets first rest)
include hbatch

section

variable (hadm : Admissible targets (spanOf first rest))
include hadm

/-- Steps 5 to 7, from a bucket `b₁` in which the batch's key is free or about to be overwritten. -/
theorem swapIn_spec {result : MergeResult} (hmerge : MergedFrom env b (first :: rest) result)
    {b₁ : Bucket} (hb₁ : b₁ = b ∨ b₁ = b.erase (c.target first rest)) :
    Triple (fun s => s.bucket = b₁)
      (swapIn env (c.level + 1) (spanOf first rest) (first :: rest) result)
      (fun o s => Completes env b c o s.bucket)
      (fun e s => Effect env b c s.bucket ∧ Cause env b c e) := by
  have hstart : Effect env b c b₁ := by
    rcases hb₁ with rfl | rfl
    · exact .unchanged
    · exact .dropped hbatch hadm
  have hput (v : Bytes) : b₁.put (c.target first rest) v =
      b.put (c.target first rest) v := by
    rcases hb₁ with rfl | rfl
    · rfl
    · exact Store.put_erase _ _ _
  unfold swapIn writeMerged
  rw [bind_assoc]
  refine Triple.bind (M := fun _ s => ∃ stored,
    s.bucket = b.put (c.target first rest) stored ∧
      (env.Faithful → stored = result.bytes)) ?_ fun _ => ?_
  · refine (putObject_spec _ _).post ?_ ?_
    · rintro _ s ⟨stored, hs, hst⟩
      exact ⟨stored, hs.trans (hput stored), hst⟩
    · rintro e s ⟨hd, hs | hs⟩
      · exact ⟨hs ▸ hstart, .sick hd.1⟩
      · refine ⟨?_, .sick hd.1⟩
        rw [hs]
        exact (hput result.bytes).symm ▸ .stored hbatch hadm hmerge fun _ => rfl
  -- from here on the bucket is the one with the output in it, whatever bytes were stored
  rw [bind_assoc]
  intro s hs
  obtain ⟨stored, hs, hstored⟩ := hs
  refine (?_ : Triple (fun s => s.bucket = b.put (mergedKey (c.level + 1) (spanOf first rest)) stored)
    _ _ _) s hs
  have hafter : Effect env b c (b.put (c.target first rest) stored) :=
    .stored hbatch hadm hmerge hstored
  refine Reads.andThen (liftE_reads _) ?_ fun header hheader => ?_
  · rintro e s hs ⟨err, rfl, herr⟩
    refine ⟨hs ▸ hafter, .merge hbatch fun result' hmerge' => ⟨err, ?_⟩⟩
    rwa [hmerge'.unique hmerge]
  rw [pure_bind]
  refine Reads.andThen (getObject_reads _) ?_ fun readback hreadback => ?_
  · rintro e s hs (hd | ⟨hnone, _⟩)
    · exact ⟨hs ▸ hafter, .sick hd.1⟩
    · rw [mergedKey, Store.get_put_self] at hnone
      cases hnone
  rw [mergedKey, Store.get_put_self] at hreadback
  cases hreadback
  cases hv : verifyMergedBytes env stored result.prevChecksum result.declaredEndChecksum
      result.pageCount with
  | ok cs =>
    refine Triple.bind (deleteFiles_effect (.swapped hbatch hadm hmerge hstored ⟨cs, hv⟩)) fun _ s hs => ?_
    show Completes env b c _ s.bucket
    rw [hs]
    exact .merged hbatch hadm hmerge hstored ⟨cs, hv⟩
  | error err =>
    -- the read-back differs from the bytes that passed the self-check: the write was garbled
    have hsick : ¬ env.Healthy := by
      intro hh
      obtain ⟨_, _, _, _, cs, hcs⟩ := hmerge
      rw [hstored hh.faithful, hcs] at hv
      cases hv
    have hgone : Effect env b c
        ((b.put (c.target first rest) stored).erase
          (c.target first rest)) := by
      rw [Store.erase_put]
      exact .dropped hbatch hadm
    refine Triple.bind (M := fun _ s => Effect env b c s.bucket) ?_ fun _ s hs => ⟨hs, .sick hsick⟩
    refine attempt_spec ((deleteFiles_spec _).post ?_ ?_)
    · intro _ s hs
      rw [hs]
      exact hgone
    · rintro e s ⟨_, k, hk⟩
      refine ⟨?_, .sick hsick⟩
      rw [hk]
      cases k with
      | zero => exact hafter
      | succ k => simpa [eraseAll, mergedKey] using hgone

/-- Steps 3 to 7. -/
theorem mergeAndSwap_spec {b₁ : Bucket} (hb₁ : b₁ = b ∨ b₁ = b.erase (c.target first rest)) :
    Triple (fun s => s.bucket = b₁)
      (do
        let result ← mergeSources env (first :: rest)
        swapIn env (c.level + 1) (spanOf first rest) (first :: rest) result)
      (fun o s => Completes env b c o s.bucket)
      (fun e s => Effect env b c s.bucket ∧ Cause env b c e) := by
  have hkeys : ∀ f ∈ first :: rest, b₁.get f.key = b.get f.key := by
    intro f hf
    rcases hb₁ with rfl | rfl
    · rfl
    · rw [Store.get_erase, if_neg (hbatch.key_ne hf)]
  refine Reads.andThen (mergeSources_reads _) ?_ fun result hmerge =>
    swapIn_spec hbatch hadm ((MergedFrom.congr hkeys).mp hmerge) hb₁
  intro e s hs hstop
  constructor
  · rw [hs]
    rcases hb₁ with rfl | rfl
    · exact .unchanged
    · exact .dropped hbatch hadm
  · rcases hstop with hd | hno
    · exact .sick hd.1
    · exact .merge hbatch fun result hmerge => absurd ((MergedFrom.congr hkeys).mpr hmerge) (hno result)

theorem recoverExisting_spec {existing : LayoutFile} (hmem : existing ∈ targets)
    (hrange : existing.range = spanOf first rest) :
    Triple (fun s => s.bucket = b) (recoverExisting env existing first rest)
      (fun sound s =>
        sound = true ∧ s.bucket = b ∧ ExistingSound env b existing first rest ∨
          sound = false ∧ s.bucket = b.erase (c.target first rest))
      (fun e s => Effect env b c s.bucket ∧ Cause env b c e) := by
  have hkey : existing.key = mergedKey (c.level + 1) (spanOf first rest) := by
    rw [← hrange]
    exact keyRange_merged (hbatch.targetsListed.fileAt existing hmem).range_eq
  refine Reads.andThen (attempt_reads (verifyExisting_reads existing first rest)) ?_ fun r hr => ?_
  · rintro e s hs ⟨rfl, hstop⟩
    rcases hstop with hd | ⟨hne, _⟩
    · exact ⟨hs ▸ .unchanged, .sick hd.1⟩
    · exact absurd rfl hne
  cases r with
  | ok u => exact fun s hs => .inl ⟨rfl, hs, hr.1 () rfl⟩
  | error err =>
    refine Triple.bind (M := fun _ s => s.bucket =
      b.erase (mergedKey (c.level + 1) (spanOf first rest))) ?_ fun _ s hs => .inr ⟨rfl, hs⟩
    refine (deleteFiles_spec _).post ?_ ?_
    · intro _ s hs
      rw [hs, ← hkey]
      rfl
    rintro e s ⟨hd, k, hk⟩
    refine ⟨?_, .sick hd.1⟩
    rw [hk]
    cases k with
    | zero => exact .unchanged
    | succ k =>
      have := Effect.dropped hbatch hadm
      simpa [eraseAll, hkey] using this

end

theorem compactBatch_spec :
    Triple (fun s => s.bucket = b) (compactBatch env (c.level + 1) targets first rest)
      (fun o s => Completes env b c o s.bucket)
      (fun e s => Effect env b c s.bucket ∧ Cause env b c e) := by
  refine Reads.andThen (liftE_reads _) ?_ fun r hr => ?_
  · rintro e s hs ⟨err, rfl, herr⟩
    obtain ⟨⟨msg, rfl⟩, m, hm, hne, ho⟩ := findExistingMerged_error herr
    exact ⟨hs ▸ .unchanged, .overlap hbatch hm hne ho⟩
  obtain ⟨hadm, hcase⟩ := findExistingMerged_ok hr
  cases r with
  | none => exact mergeAndSwap_spec hbatch hadm (.inl rfl)
  | some existing =>
    have hex : existing ∈ targets ∧ existing.range = spanOf first rest := by
      rcases hcase with ⟨h, _⟩ | ⟨m, hm, h, hrange⟩
      · cases h
      · cases h
        exact ⟨hm, hrange⟩
    refine Triple.bind (recoverExisting_spec hbatch hadm hex.1 hex.2) fun sound => ?_
    cases sound with
    | true =>
      intro s hs
      obtain ⟨_, hb, hsound⟩ := hs.resolve_right (by simp)
      refine (?_ : Triple (fun s => s.bucket = b) _ _ _) s hb
      refine Triple.bind (deleteFiles_effect (.recovered hbatch hex.1 hex.2 hsound)) fun _ s hs => ?_
      show Completes env b c _ s.bucket
      rw [hs]
      exact .recovered hbatch hex.1 hex.2 hsound
    | false =>
      intro s hs
      obtain ⟨_, hb⟩ := hs.resolve_left (by simp)
      exact mergeAndSwap_spec hbatch hadm (.inr rfl) s hb

end

/-- **What a compaction run does**, returned or stopped at any storage operation. -/
theorem runLevelCompaction_spec (env : Env) (b : Bucket) (c : Call) :
    Triple (fun s => s.bucket = b) (c.run env)
      (fun o s => Completes env b c o s.bucket)
      (fun e s => Effect env b c s.bucket ∧ Cause env b c e) := by
  unfold Call.run runLevelCompaction
  by_cases hbatch : c.batch = 0
  · simp only [if_pos hbatch]
    intro s hs
    show Completes env b c _ s.bucket
    rw [hs]
    exact .idle (.inl hbatch)
  simp only [if_neg hbatch]
  have hlist (e : Halt) (s : Storage) (hs : s.bucket = b) (level : Level)
      (hlevel : level = c.level ∨ level = c.level + 1)
      (h : Disturbed env e ∨ ¬ Readable env b level) :
      Effect env b c s.bucket ∧ Cause env b c e := by
    refine ⟨hs ▸ .unchanged, ?_⟩
    rcases h with hd | hr
    · exact .sick hd.1
    · rcases hlevel with rfl | rfl
      · exact .unreadable (.inl hr)
      · exact .unreadable (.inr hr)
  refine Reads.andThen (listLevelOf_reads c.level) (fun e s hs h => hlist e s hs _ (.inl rfl) h)
    fun all hall => ?_
  refine Reads.andThen (listLevelOf_reads (c.level + 1)) (fun e s hs h => hlist e s hs _ (.inr rfl) h)
    fun targets htargets => ?_
  refine Triple.bind ((convergeInterruptedDelete_spec hall htargets).post (fun _ _ h => h) ?_) fun r => ?_
  · rintro e s ⟨⟨deletable, k, hleft, hk⟩, hcause⟩
    exact ⟨hk ▸ .converged hleft k, hcause⟩
  cases r with
  | some o =>
    intro s hs
    obtain ⟨deletable, cover, ho, hne, hleft, hdone, -⟩ := hs.resolve_left (by simp)
    cases ho
    show Completes env b c _ s.bucket
    rw [hdone]
    exact .converged hne hleft
  | none =>
    intro s hs
    obtain ⟨_, hb, hsettled⟩ := hs.resolve_right (by simp)
    cases hsel : selectSources c.level c.batch c.windowMs c.nowMs all with
    | none =>
      show Completes env b c _ s.bucket
      rw [hb]
      exact .idle (.inr ⟨all, hall, hsel⟩)
    | some p =>
      exact compactBatch_spec ⟨hall, htargets, hsettled, hsel⟩ s hb

end Compaction
end Walrust
