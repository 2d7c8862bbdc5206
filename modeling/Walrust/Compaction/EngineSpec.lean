import Walrust.Compaction.Engine

/-!
# `Walrust.Compaction.EngineSpec` — what a compaction run can do to the bucket

A run reads a great deal before it changes anything. The first half of this file says what each reading
part returns, as a fact about the bucket it read (`Lib.Reads`). The second half collects the changes: from a
bucket `b` a run, stopped anywhere or not at all, leaves one of the buckets of `Effect`, and each
constructor carries the checks that came before that change.

Every property of whole runs in this development is read off `Effect`; no other proof unfolds the engine.
-/

namespace Walrust
namespace Compaction

open Hadbp Lib List

variable {env : Env} {b : Bucket}

variable {cs : PhysicalChangeset} {d subs deletable sources files : List LayoutFile} {f m : LayoutFile}
  {χ : Halt → Prop} {key : Key} {r : List LayoutFile × Option LayoutFile} {cover : Option LayoutFile} {α : Type}

/-! ## Primitive reads -/

/-- No storage operation is disturbed. -/
def Env.Healthy (env : Env) : Prop := ∀ n, env.fault n = .none

/-- Stopped by the storage: a crash or a storage error, which a healthy storage does not cause. -/
def Disturbed (env : Env) (e : Halt) : Prop :=
  ¬ env.Healthy ∧ (e = .crash ∨ ∃ msg, e = .err (.storage msg))

/-- A program that only reads the bucket `b`, what it returns, and why it can stop. -/
abbrev ReadsBucket {α : Type} (b : Bucket) (x : Run α) (φ : α → Prop) (χ : Halt → Prop) : Prop :=
  Reads Storage.bucket b x φ χ

/-- No write is garbled. -/
def Env.Faithful (env : Env) : Prop := ∀ n stored, env.fault n ≠ .garbles stored

theorem Env.Healthy.faithful (h : env.Healthy) : env.Faithful := fun n stored => by simp [h n]

/-- A storage operation that is disturbed may have been applied all the same. -/
theorem storageOp_spec {apply : Option Bytes → Bucket → Bucket} :
    Triple (fun s => s.bucket = b) (storageOp env apply)
      (fun _ s => ∃ garbled, s.bucket = apply garbled b ∧ (env.Faithful → garbled = none))
      (fun e s => Disturbed env e ∧ (s.bucket = b ∨ s.bucket = apply none b)) := by
  rintro s rfl
  unfold storageOp
  have hsick (h : env.fault s.ops ≠ .none) : ¬ env.Healthy := fun hh => h (hh s.ops)
  cases h : env.fault s.ops with
  | none => exact ⟨none, rfl, fun _ => rfl⟩
  | fails msg => exact ⟨⟨hsick (by simp [h]), .inr ⟨msg, rfl⟩⟩, .inl rfl⟩
  | failsApplied msg => exact ⟨⟨hsick (by simp [h]), .inr ⟨msg, rfl⟩⟩, .inr rfl⟩
  | garbles stored => exact ⟨some stored, rfl, fun hf => absurd h (hf s.ops stored)⟩
  | crash => exact ⟨⟨hsick (by simp [h]), .inl rfl⟩, .inl rfl⟩

theorem access_reads : ReadsBucket b (access env) (fun _ => True) (Disturbed env) := by
  refine .consequence storageOp_spec (fun _ h => h) ?_ ?_
  · rintro _ s ⟨_, h, -⟩
    exact ⟨h, trivial⟩
  · rintro e s ⟨hd, h | h⟩ <;> exact ⟨h, hd⟩

theorem liftE_reads (x : Except CompactionError α) :
    ReadsBucket b (liftE x) (fun a => x = .ok a) (fun e => ∃ err, e = .err err ∧ x = .error err) := by
  cases x with
  | ok a => exact .pure rfl
  | error e => exact .throw ⟨e, rfl, rfl⟩

/-- The bucket itself, read for a lookup. -/
theorem get_reads : ReadsBucket b (get : Run Storage) (fun s => s.bucket = b) χ :=
  fun _ hs => ⟨hs, hs⟩

/-- An object that is not there is reported as a storage error. -/
theorem getObject_reads (key : Key) :
    ReadsBucket b (getObject env key) (fun bytes => b.get key = some bytes)
      (fun e => Disturbed env e ∨ b.get key = none ∧ ∃ msg, e = .err (.storage msg)) := by
  refine .bind (access_reads.weaken fun _ => .inl) fun _ _ =>
    .bind get_reads fun s hs => ?_
  rw [hs]
  cases h : b.get key with
  | none => exact .throw (.inr ⟨rfl, _, rfl⟩)
  | some bytes => exact .pure rfl

/-- An error turned into a value: only a crash still stops the program. -/
theorem attempt_reads {x : Run α} {φ : α → Prop} (h : ReadsBucket b x φ χ) :
    ReadsBucket b (attempt x)
      (fun r => (∀ a, r = .ok a → φ a) ∧ ∀ e, r = .error e → χ (.err e))
      (fun e => e = .crash ∧ χ .crash) := by
  intro s hs
  have hx := h s hs
  unfold attempt
  cases hrun : x s with
  | ok a s' =>
    rw [hrun] at hx
    refine ⟨hx.1, ?_, fun e he => by cases he⟩
    rintro _ ⟨⟩
    exact hx.2
  | error e s' =>
    rw [hrun] at hx
    cases e with
    | err e =>
      refine ⟨hx.1, fun a ha => (by cases ha), ?_⟩
      rintro _ ⟨⟩
      exact hx.2
    | crash => exact ⟨hx.1, rfl, hx.2⟩

/-! ## Headers, streams, listings -/

/-- The header a stored object denotes, by its magic. -/
def headerOf (env : Env) (bytes : Bytes) : Except CompactionError SourceHeader :=
  if bytes.take 4 = ltxMagic then env.ltx.header bytes else readHeader bytes

/-- The page stream a stored object denotes. -/
def streamOf (env : Env) (key : Key) (bytes : Bytes) : Except CompactionError PageStream :=
  if bytes.take 4 = ltxMagic then env.ltx.stream bytes else openSourceStream (env.path key) bytes

/-- The object under `key` has the header `h`. -/
def HeaderAt (env : Env) (b : Bucket) (key : Key) (h : SourceHeader) : Prop :=
  ∃ bytes, b.get key = some bytes ∧ headerOf env bytes = .ok h

/-- The object under `key` streams as `stream`. -/
def StreamAt (env : Env) (b : Bucket) (key : Key) (stream : PageStream) : Prop :=
  ∃ bytes, b.get key = some bytes ∧ streamOf env key bytes = .ok stream

/-- The two-format read that both readers make: a lookup, then the parser the magic selects. -/
theorem readFormat_reads {ltx hadbp parse : Bytes → Except CompactionError α}
    (hparse : ∀ bytes, parse bytes = if bytes.take 4 = ltxMagic then ltx bytes else hadbp bytes) :
    ReadsBucket b
      (do
        let bytes ← getObject env key
        if bytes.take 4 = ltxMagic then
          access env
          liftE (ltx bytes)
        else liftE (hadbp bytes))
      (fun a => ∃ bytes, b.get key = some bytes ∧ parse bytes = .ok a)
      (fun e => Disturbed env e ∨ e ≠ .crash ∧ ∀ a, ¬ ∃ bytes, b.get key = some bytes ∧ parse bytes = .ok a) := by
  refine .bind ((getObject_reads key).weaken fun e he => he.imp_right ?_) fun bytes hbytes => ?_
  · rintro ⟨hnone, msg, rfl⟩
    refine ⟨by simp, ?_⟩
    rintro a ⟨bytes, hbytes, -⟩
    rw [hnone] at hbytes
    cases hbytes
  refine .mono (φ := fun a => parse bytes = .ok a)
    (χ := fun e => Disturbed env e ∨ ∃ err, e = .err err ∧ parse bytes = .error err) ?_
    (fun a ha => ⟨bytes, hbytes, ha⟩) fun e he => he.imp_right ?_
  · rw [hparse]
    split
    · exact .bind (access_reads.weaken fun _ => .inl) fun _ _ => (liftE_reads _).weaken fun _ => .inr
    · exact (liftE_reads _).weaken fun _ => .inr
  · rintro ⟨err, rfl, herr⟩
    refine ⟨by simp, ?_⟩
    rintro a ⟨bytes', hbytes', ha⟩
    rw [hbytes] at hbytes'
    cases hbytes'
    rw [herr] at ha
    cases ha

/-- A lookup and a parser have one result. -/
theorem found_unique {ε : Type} {parse : Bytes → Except ε α} {a a' : α}
    (h : ∃ bytes, b.get key = some bytes ∧ parse bytes = .ok a)
    (h' : ∃ bytes, b.get key = some bytes ∧ parse bytes = .ok a') : a = a' := by
  obtain ⟨bytes, hbytes, hok⟩ := h
  obtain ⟨bytes', hbytes', hok'⟩ := h'
  cases hbytes.symm.trans hbytes'
  exact Except.ok.inj (hok.symm.trans hok')

theorem readHeaderFromStorage_reads :
    ReadsBucket b (readHeaderFromStorage env key) (HeaderAt env b key)
      (fun e => Disturbed env e ∨ e ≠ .crash ∧ ∀ h, ¬ HeaderAt env b key h) :=
  readFormat_reads fun _ => rfl

theorem openFromStorage_reads :
    ReadsBucket b (openFromStorage env key) (StreamAt env b key)
      (fun e => Disturbed env e ∨ e ≠ .crash ∧ ∀ stream, ¬ StreamAt env b key stream) :=
  readFormat_reads fun _ => rfl

theorem HeaderAt.unique {h h' : SourceHeader} (hh : HeaderAt env b key h)
    (hh' : HeaderAt env b key h') : h = h' := found_unique hh hh'

/-- `f` is a file of `level`: its key belongs there and its object has a readable header. -/
structure FileAt (env : Env) (b : Bucket) (level : Level) (f : LayoutFile) : Prop where
  range_eq : keyRange level f.key = some f.range
  header : ∃ h, HeaderAt env b f.key h ∧ h.createdMs = f.lastModifiedMs

/-- What `list_level` returns. -/
structure Listing (env : Env) (b : Bucket) (level : Level) (files : List LayoutFile) : Prop where
  fileAt : ∀ f ∈ files, FileAt env b level f
  complete : ∀ key, (keyRange level key).isSome → (b.get key).isSome → ∃ f ∈ files, f.key = key
  nodup : (files.map (·.key)).Nodup
  sorted : files.Pairwise fun f g => rangeLe f g

/-- Every object of the level has a readable header. -/
def Readable (env : Env) (b : Bucket) (level : Level) : Prop :=
  ∀ key, (keyRange level key).isSome → (b.get key).isSome → ∃ h, HeaderAt env b key h

theorem listFiles_reads {level : Level} {keys : List Key} (hkeys : ∀ k ∈ keys, (b.get k).isSome) :
    ReadsBucket b (listFiles env level keys)
      (fun files => (∀ f ∈ files, FileAt env b level f) ∧
        files.map (·.key) = keys.filter fun k => (keyRange level k).isSome)
      (fun e => Disturbed env e ∨ ¬ Readable env b level) := by
  induction keys with
  | nil => exact .pure ⟨fun f hf => (by cases hf), rfl⟩
  | cons key keys ih =>
    have ih := ih fun k hk => hkeys k (mem_cons_of_mem _ hk)
    unfold listFiles
    cases hr : keyRange level key with
    | none =>
      refine ih.mono (fun files h => ⟨h.1, ?_⟩) fun _ h => h
      rw [filter_cons_of_neg (by simp [hr]), h.2]
    | some range =>
      have hheader : ReadsBucket b (readHeaderFromStorage env key) (HeaderAt env b key)
          (fun e => Disturbed env e ∨ ¬ Readable env b level) := by
        refine readHeaderFromStorage_reads.weaken fun e he =>
          he.imp_right fun hnone hreadable => ?_
        obtain ⟨h, hh⟩ := hreadable key (by simp [hr]) (hkeys key mem_cons_self)
        exact hnone.2 h hh
      refine .bind hheader fun header hheader => .bind ih fun files h => .pure ⟨?_, ?_⟩
      · intro f hf
        rcases mem_cons.mp hf with rfl | hf
        · exact ⟨hr, header, hheader, rfl⟩
        · exact h.1 f hf
      · rw [filter_cons_of_pos (by simp [hr]), ← h.2]
        rfl

theorem rangeLe_trans {g h : LayoutFile} (hfg : rangeLe f g) (hgh : rangeLe g h) : rangeLe f h := by
  simp only [rangeLe, Bool.or_eq_true, Bool.and_eq_true, decide_eq_true_eq] at *
  omega

theorem rangeLe_total (f g : LayoutFile) : rangeLe f g = true ∨ rangeLe g f = true := by
  simp only [rangeLe, Bool.or_eq_true, Bool.and_eq_true, decide_eq_true_eq]
  omega

instance : Std.Total fun f g : LayoutFile => rangeLe f g = true := ⟨rangeLe_total⟩

instance : IsTrans LayoutFile fun f g => rangeLe f g = true := ⟨fun _ _ _ => rangeLe_trans⟩

theorem sortFiles_perm (files : List LayoutFile) : (sortFiles files).Perm files :=
  perm_insertionSort _ files

theorem sortFiles_sorted : (sortFiles files).Pairwise fun f g => rangeLe f g = true :=
  pairwise_insertionSort _ files

theorem listLevelOf_reads (level : Level) :
    ReadsBucket b (listLevelOf env level) (Listing env b level)
      (fun e => Disturbed env e ∨ ¬ Readable env b level) := by
  refine .bind (access_reads.weaken fun _ => .inl) fun _ _ =>
    .bind get_reads fun s hs => ?_
  rw [hs]
  refine .bind (listFiles_reads fun k hk => Store.mem_keys.mp hk) fun files h => .pure ?_
  have hperm := sortFiles_perm files
  have hkeys := hperm.map (·.key)
  rw [h.2] at hkeys
  refine ⟨fun f hf => h.1 f (hperm.mem_iff.mp hf), ?_, ?_, ?_⟩
  · intro key hkey hget
    have hmem : key ∈ (sortFiles files).map (·.key) :=
      hkeys.mem_iff.mpr (mem_filter.mpr ⟨Store.mem_keys.mpr hget, hkey⟩)
    obtain ⟨f, hf, hfk⟩ := mem_map.mp hmem
    exact ⟨f, hf, hfk⟩
  · exact hkeys.nodup_iff.mpr (b.nodup.filter _)
  · exact sortFiles_sorted

/-! ## The checks -/

/-- The object under `key` decodes to `cs`. -/
def DecodesTo (env : Env) (b : Bucket) (key : Key) (cs : PhysicalChangeset) : Prop :=
  ∃ bytes, b.get key = some bytes ∧ env.ph.decode bytes = .ok cs

/-- The object under `key` decodes, is COMPACTED and carries pages. -/
structure SoundCover (env : Env) (b : Bucket) (key : Key) (cs : PhysicalChangeset) : Prop where
  decoded : DecodesTo env b key cs
  compacted : cs.isCompacted = true
  pages : cs.pages ≠ []

theorem DecodesTo.unique {cs' : PhysicalChangeset} (h : DecodesTo env b key cs)
    (h' : DecodesTo env b key cs') : cs = cs' := found_unique h h'

theorem decodeAt_eq_ok {key : String} {bytes : Bytes} :
    decodeAt env key bytes = .ok cs ↔ env.ph.decode bytes = .ok cs := by
  unfold decodeAt
  cases env.ph.decode bytes <;> simp

/-- An error that says something about an object, not about the storage. -/
def Halt.NotStorage (e : Halt) : Prop := e ≠ .crash ∧ ∀ msg, e ≠ .err (.storage msg)

/-- Why a lookup and a decode can fail on a healthy storage. -/
def DecodeFails (env : Env) (b : Bucket) (key : Key) (e : Halt) : Prop :=
  (∃ msg, e = .err (.storage msg)) ∧ b.get key = none ∨
    e.NotStorage ∧ ∀ cs, ¬ DecodesTo env b key cs

theorem DecodeFails.not_decodesTo {e : Halt} (h : DecodeFails env b key e) : ¬ DecodesTo env b key cs := by
  rcases h with ⟨_, hnone⟩ | ⟨_, h⟩
  · rintro ⟨bytes, hbytes, _⟩
    rw [hnone] at hbytes
    cases hbytes
  · exact h cs

theorem DecodeFails.ne_crash {e : Halt} (h : DecodeFails env b key e) : e ≠ .crash := by
  rcases h with ⟨⟨msg, rfl⟩, _⟩ | ⟨h, _⟩
  · simp
  · exact h.1

theorem decode_then {f : PhysicalChangeset → Run α} {ψ : α → Prop}
    (hχ : ∀ e, Disturbed env e ∨ DecodeFails env b key e → χ e)
    (hf : ∀ cs, DecodesTo env b key cs → ReadsBucket b (f cs) ψ χ) :
    ReadsBucket b (do
        let bytes ← getObject env key
        let cs ← liftE (decodeAt env (env.path key) bytes)
        f cs) ψ χ := by
  refine .bind ((getObject_reads key).weaken fun e he =>
    hχ e (he.imp_right fun h => .inl ⟨h.2, h.1⟩)) fun bytes hbytes => ?_
  refine .bind ((liftE_reads _).mono (fun cs hcs => ⟨bytes, hbytes, decodeAt_eq_ok.mp hcs⟩) ?_) hf
  rintro _ ⟨err, rfl, herr⟩
  have hdecode : ∃ msg, err = .decode (env.path key) msg := by
    unfold decodeAt at herr
    cases hd : env.ph.decode bytes with
    | ok cs => rw [hd] at herr; cases herr
    | error msg => rw [hd] at herr; exact ⟨msg, by injection herr with herr; exact herr.symm⟩
  refine hχ _ (.inr (.inr ⟨?_, ?_⟩))
  · obtain ⟨msg, rfl⟩ := hdecode
    exact ⟨by simp, by simp⟩
  rintro cs ⟨bytes', hbytes', hcs⟩
  rw [hbytes] at hbytes'
  cases hbytes'
  rw [decodeAt_eq_ok.mpr hcs] at herr
  cases herr

/-- An unsound cover is told from a storage problem by the error: only the latter is a storage error. -/
theorem verifyCovers_reads :
    ReadsBucket b (verifyCovers env m) (SoundCover env b m.key)
      (fun e => Disturbed env e ∨ (∃ msg, e = .err (.storage msg)) ∧ b.get m.key = none ∨
        e.NotStorage ∧ ∀ cs, ¬ SoundCover env b m.key cs) := by
  refine decode_then (fun e he => he.imp_right fun h => h.imp_right fun hd =>
    ⟨hd.1, fun cs hcs => hd.2 cs hcs.decoded⟩) fun cs hcs => ?_
  have hsame : ∀ cs', SoundCover env b m.key cs' → cs' = cs := fun cs' h => h.decoded.unique hcs
  cases hc : cs.isCompacted with
  | false =>
    refine .throw (.inr (.inr ⟨by simp [Halt.NotStorage], fun cs' h => ?_⟩))
    have := h.compacted
    rw [hsame cs' h, hc] at this
    cases this
  | true =>
    cases hp : cs.pages with
    | nil =>
      refine .throw (.inr (.inr ⟨by simp [Halt.NotStorage], fun cs' h => ?_⟩))
      exact h.pages (by rw [hsame cs' h, hp])
    | cons p ps => exact .pure ⟨hcs, hc, by simp [hp]⟩

/-- The chain value after a source, as `source_chain_end` finds it. -/
def ChainEndAt (env : Env) (b : Bucket) (key : Key) (v : UInt64) : Prop :=
  ∃ h, HeaderAt env b key h ∧
    (h.declaredEndChecksum = some v ∨
      h.declaredEndChecksum = none ∧ ∃ cs, DecodesTo env b key cs ∧ chainEnd cs = v)

theorem ChainEndAt.unique {v v' : UInt64} (h : ChainEndAt env b key v) (h' : ChainEndAt env b key v') : v = v' := by
  obtain ⟨hd, hhd, hv⟩ := h
  obtain ⟨hd', hhd', hv'⟩ := h'
  obtain rfl := hhd.unique hhd'
  rcases hv with hv | ⟨hnone, cs, hcs, rfl⟩ <;> rcases hv' with hv' | ⟨hnone', cs', hcs', rfl⟩
  · rw [hv] at hv'
    exact Option.some.inj hv'
  · rw [hv] at hnone'
    cases hnone'
  · rw [hnone] at hv'
    cases hv'
  · rw [hcs.unique hcs']

theorem sourceChainEnd_reads {s : LayoutFile} :
    ReadsBucket b (sourceChainEnd env s) (ChainEndAt env b s.key)
      (fun e => Disturbed env e ∨ ∀ v, ¬ ChainEndAt env b s.key v) := by
  refine .bind (readHeaderFromStorage_reads.weaken fun e he =>
    he.imp_right fun hnone v => fun ⟨h, hh, _⟩ => hnone.2 h hh) fun h hh => ?_
  cases hdecl : h.declaredEndChecksum with
  | some v => exact .pure ⟨h, hh, .inl hdecl⟩
  | none =>
    refine decode_then (fun e he => he.imp_right fun hfail v => ?_) fun cs hcs =>
      .pure ⟨h, hh, .inr ⟨hdecl, cs, hcs, rfl⟩⟩
    rintro ⟨h', hh', hv⟩
    rw [hh'.unique hh, hdecl] at hv
    rcases hv with hv | ⟨_, cs, hcs, _⟩
    · cases hv
    · exact hfail.not_decodesTo hcs

/-- What sits on the cover's boundary chains as the cover does. -/
def Evidence (env : Env) (b : Bucket) (cover : LayoutFile) (coverCs : PhysicalChangeset)
    (subs : List LayoutFile) : Prop :=
  ∀ s ∈ subs,
    (s.range.min = cover.range.min → ∀ h, HeaderAt env b s.key h →
      h.prevChecksum = coverCs.header.prevChecksum) ∧
    (s.range.max = cover.range.max → ∀ v, ChainEndAt env b s.key v → v = chainEnd coverCs)

/-- A source whose header or chain end cannot be read. -/
def Unreadable (env : Env) (b : Bucket) (s : LayoutFile) : Prop :=
  (∀ h, ¬ HeaderAt env b s.key h) ∨ ∀ v, ¬ ChainEndAt env b s.key v

/-- A check of one endpoint, decided by the one value there is. -/
theorem decided_reads {P : Prop} [Decidable P] {φ Q : α → Prop} [DecidablePred Q] {x : Run α}
    (hx : ReadsBucket b x φ χ) (hunique : ∀ a a', φ a → φ a' → a = a') :
    ReadsBucket b (if P then do return decide (Q (← x)) else return true)
      (fun ok => ok = true ↔ (P → ∀ a, φ a → Q a)) χ := by
  by_cases h : P
  · rw [if_pos h]
    refine .bind hx fun a ha => .pure ?_
    rw [decide_eq_true_iff]
    exact ⟨fun hq _ a' ha' => hunique a a' ha ha' ▸ hq, fun hall => hall h a ha⟩
  · rw [if_neg h]
    exact .pure (by simp [h])

theorem endpointChainEvidence_reads {cover : LayoutFile} {coverCs : PhysicalChangeset} :
    ReadsBucket b (endpointChainEvidence env cover coverCs subs)
      (fun ok => ok = true ↔ Evidence env b cover coverCs subs)
      (fun e => Disturbed env e ∨ ∃ s ∈ subs, Unreadable env b s) := by
  induction subs with
  | nil => exact .pure (by simp [Evidence])
  | cons s subs ih =>
    have hmin : ReadsBucket b (minEvidence env cover coverCs s) _
        (fun e => Disturbed env e ∨ ∃ t ∈ s :: subs, Unreadable env b t) :=
      decided_reads (readHeaderFromStorage_reads.weaken fun e he =>
        he.imp_right fun hn => ⟨s, mem_cons_self, .inl hn.2⟩) fun _ _ => HeaderAt.unique
    have hmax : ReadsBucket b (maxEvidence env cover coverCs s) _
        (fun e => Disturbed env e ∨ ∃ t ∈ s :: subs, Unreadable env b t) :=
      decided_reads (sourceChainEnd_reads.weaken fun e he =>
        he.imp_right fun hn => ⟨s, mem_cons_self, .inr hn⟩) fun _ _ => ChainEndAt.unique
    refine .bind hmin fun minOk hminOk => ?_
    cases minOk with
    | false =>
      refine .pure ⟨fun h => (by cases h), fun hev => ?_⟩
      exact absurd (hminOk.mpr (hev s mem_cons_self).1) (by decide)
    | true =>
      refine .bind hmax fun maxOk hmaxOk => ?_
      cases maxOk with
      | false =>
        refine .pure ⟨fun h => (by cases h), fun hev => ?_⟩
        exact absurd (hmaxOk.mpr (hev s mem_cons_self).2) (by decide)
      | true =>
        refine ih.mono (fun ok hok => hok.trans ⟨fun hev t ht => ?_, fun hev t ht =>
          hev t (mem_cons_of_mem _ ht)⟩) fun e he => he.imp_right fun ⟨t, ht, hu⟩ =>
            ⟨t, mem_cons_of_mem _ ht, hu⟩
        rcases mem_cons.mp ht with rfl | ht
        · exact ⟨hminOk.mp rfl, hmaxOk.mp rfl⟩
        · exact hev t ht

/-- The exact-range object chains over the batch as `verify_existing` requires. -/
def ExistingSound (env : Env) (b : Bucket) (existing first : LayoutFile) (rest : List LayoutFile) :
    Prop :=
  let last := (first :: rest).getLast (cons_ne_nil _ _)
  ∃ cs, SoundCover env b existing.key cs ∧
    (∃ h, HeaderAt env b first.key h ∧ cs.header.prevChecksum = h.prevChecksum) ∧
    cs.header.seq.toNat = last.range.max ∧
    ∃ lastCs, DecodesTo env b last.key lastCs ∧ chainEnd cs = chainEnd lastCs

theorem verifyExisting_reads (existing first : LayoutFile) (rest : List LayoutFile) :
    ReadsBucket b (verifyExisting env existing first rest)
      (fun _ => ExistingSound env b existing first rest)
      (fun e => Disturbed env e ∨ e ≠ .crash ∧ ¬ ExistingSound env b existing first rest) := by
  refine decode_then (fun e he => he.imp_right fun hfail => ?_) fun cs hcs => ?_
  · refine ⟨hfail.ne_crash, ?_⟩
    rintro ⟨cs, hcs, _⟩
    exact hfail.not_decodesTo hcs.decoded
  cases hc : cs.isCompacted with
  | false =>
    refine .throw (.inr ⟨by simp, ?_⟩)
    rintro ⟨cs', hcs', _⟩
    have := hcs'.compacted
    rw [hcs'.decoded.unique hcs, hc] at this
    cases this
  | true =>
    refine .bind (readHeaderFromStorage_reads.weaken fun e he =>
      he.imp_right fun hn => ?_) fun h hh => ?_
    · refine ⟨hn.1, ?_⟩
      rintro ⟨_, _, ⟨h, hh, _⟩, _⟩
      exact hn.2 h hh
    by_cases hprev : cs.header.prevChecksum ≠ h.prevChecksum
    · rw [if_pos hprev]
      refine .throw (.inr ⟨by simp, ?_⟩)
      rintro ⟨cs', hcs', ⟨h', hh', heq⟩, _⟩
      rw [hcs'.decoded.unique hcs, hh'.unique hh] at heq
      exact hprev heq
    rw [if_neg hprev]
    by_cases hseq : cs.header.seq.toNat ≠
        ((first :: rest).getLast (cons_ne_nil _ _)).range.max
    · simp only [if_pos hseq]
      refine .throw (.inr ⟨by simp, ?_⟩)
      rintro ⟨cs', hcs', _, heq, _⟩
      rw [hcs'.decoded.unique hcs] at heq
      exact hseq heq
    simp only [if_neg hseq]
    refine decode_then (fun e he => he.imp_right fun hfail => ?_) fun lastCs hlast => ?_
    · refine ⟨hfail.ne_crash, ?_⟩
      rintro ⟨_, _, _, _, lastCs, hlast, _⟩
      exact hfail.not_decodesTo hlast
    by_cases hend : chainEnd cs ≠ chainEnd lastCs
    · rw [if_pos hend]
      refine .throw (.inr ⟨by simp, ?_⟩)
      rintro ⟨cs', hcs', _, _, lastCs', hlast', heq⟩
      rw [hcs'.decoded.unique hcs, hlast'.unique hlast] at heq
      exact hend heq
    rw [if_neg hend]
    cases hp : cs.pages with
    | nil =>
      refine .throw (.inr ⟨by simp, ?_⟩)
      rintro ⟨cs', hcs', _⟩
      exact hcs'.pages (by rw [hcs'.decoded.unique hcs, hp])
    | cons p ps =>
      exact .pure ⟨cs, ⟨hcs, hc, by simp [hp]⟩, ⟨h, hh, not_not.mp hprev⟩, not_not.mp hseq,
        lastCs, hlast, not_not.mp hend⟩

/-! ## The scan for interrupted deletes -/

/-- `m` is a sound object whose present sources are what an interrupted delete left of its source set. -/
def Converges (env : Env) (b : Bucket) (sources : List LayoutFile) (m : LayoutFile) : Prop :=
  coveredBy sources m ≠ [] ∧ tilesExactly (coveredBy sources m) m.range = false ∧
    ∃ cs, SoundCover env b m.key cs ∧ Evidence env b m cs (coveredBy sources m)

theorem mem_pushNew (hf : f ∈ pushNew d subs) :
    f ∈ d ∨ f ∈ subs := by
  induction subs generalizing d with
  | nil => exact .inl hf
  | cons s subs ih =>
    rcases ih hf with h | h
    · dsimp only at h
      split at h
      · exact .inl h
      · rcases mem_append.mp h with h | h
        · exact .inl h
        · exact .inr (mem_singleton.mp h ▸ mem_cons_self)
    · exact .inr (mem_cons_of_mem _ h)

theorem pushNew_mono (hf : f ∈ d) : f ∈ pushNew d subs := by
  induction subs generalizing d with
  | nil => exact hf
  | cons s subs ih =>
    apply ih
    dsimp only
    split
    · exact hf
    · exact mem_append_left _ hf

theorem mem_keys_pushNew (hf : f ∈ subs) : f.key ∈ (pushNew d subs).map (·.key) := by
  induction subs generalizing d with
  | nil => cases hf
  | cons s subs ih =>
    rcases mem_cons.mp hf with rfl | hf
    · show f.key ∈ (pushNew (if d.any (fun x => x.key = f.key) then d else d ++ [f]) subs).map (·.key)
      split
      · next hany =>
        obtain ⟨x, hx, hkey⟩ := any_eq_true.mp hany
        exact mem_map.mpr ⟨x, pushNew_mono hx, of_decide_eq_true hkey⟩
      · exact mem_map.mpr ⟨f, pushNew_mono (mem_append_right d mem_cons_self), rfl⟩
    · exact ih hf

theorem pushNew_nodup (h : (d.map (·.key)).Nodup) :
    ((pushNew d subs).map (·.key)).Nodup := by
  induction subs generalizing d with
  | nil => exact h
  | cons s subs ih =>
    refine ih ?_
    dsimp only
    split
    · exact h
    · next hnew =>
      rw [map_append, map_singleton, ← concat_eq_append]
      refine h.concat fun hmem => hnew ?_
      obtain ⟨x, hx, hkey⟩ := mem_map.mp hmem
      exact any_eq_true.mpr ⟨x, hx, decide_eq_true hkey⟩

/-- What the scan over the target files `ms` adds to `deletable` and `cover`. -/
structure Scanned (env : Env) (b : Bucket) (sources ms deletable : List LayoutFile)
    (cover : Option LayoutFile) (r : List LayoutFile × Option LayoutFile) : Prop where
  justified : ∀ f ∈ r.1, f ∈ deletable ∨ ∃ m ∈ ms, Converges env b sources m ∧ f ∈ coveredBy sources m
  grows : ∀ f ∈ deletable, f ∈ r.1
  cover : (deletable ≠ [] → cover.isSome) → r.1 ≠ [] → r.2.isSome
  complete : ∀ m ∈ ms, Converges env b sources m → ∀ f ∈ coveredBy sources m, f.key ∈ r.1.map (·.key)
  once : (deletable.map (·.key)).Nodup → (r.1.map (·.key)).Nodup

theorem Scanned.skip {ms : List LayoutFile} (hm : ¬ Converges env b sources m)
    (h : Scanned env b sources ms deletable cover r) : Scanned env b sources (m :: ms) deletable cover r where
  justified f hf := (h.justified f hf).imp_right fun ⟨m', hm', hc⟩ => ⟨m', mem_cons_of_mem _ hm', hc⟩
  grows := h.grows
  cover := h.cover
  complete m' hm' hconv := by
    rcases mem_cons.mp hm' with rfl | hm'
    · exact absurd hconv hm
    · exact h.complete m' hm' hconv
  once := h.once

theorem Scanned.push {ms : List LayoutFile} (hm : Converges env b sources m)
    (h : Scanned env b sources ms (pushNew deletable (coveredBy sources m)) (cover.or (some m)) r) :
    Scanned env b sources (m :: ms) deletable cover r where
  justified f hf := by
    rcases h.justified f hf with hf | ⟨m', hm', hc⟩
    · exact (mem_pushNew hf).imp_right fun hf => ⟨m, mem_cons_self, hm, hf⟩
    · exact .inr ⟨m', mem_cons_of_mem _ hm', hc⟩
  grows f hf := h.grows f (pushNew_mono hf)
  cover _ hr := h.cover (fun _ => by cases cover <;> rfl) hr
  complete m' hm' hconv f hf := by
    rcases mem_cons.mp hm' with rfl | hm'
    · obtain ⟨g, hg, hkey⟩ := mem_map.mp (mem_keys_pushNew (d := deletable) hf)
      exact mem_map.mpr ⟨g, h.grows g hg, hkey⟩
    · exact h.complete m' hm' hconv f hf
  once hd := h.once (pushNew_nodup hd)

/-- Why a scan can stop: the storage, a target object that is gone, or a source that cannot be read. -/
def ScanStops (env : Env) (b : Bucket) (sources ms : List LayoutFile) (e : Halt) : Prop :=
  Disturbed env e ∨ (∃ m ∈ ms, b.get m.key = none) ∨ ∃ s ∈ sources, Unreadable env b s

theorem ScanStops.tail {sources ms : List LayoutFile} {m : LayoutFile} {e : Halt}
    (h : ScanStops env b sources ms e) : ScanStops env b sources (m :: ms) e :=
  h.imp_right fun h => h.imp_left fun ⟨m', hm', hn⟩ => ⟨m', mem_cons_of_mem _ hm', hn⟩

theorem convergeScan_reads (sources ms deletable : List LayoutFile) (cover : Option LayoutFile) :
    ReadsBucket b (convergeScan env sources ms deletable cover)
      (Scanned env b sources ms deletable cover) (ScanStops env b sources ms) := by
  induction ms generalizing deletable cover with
  | nil =>
    exact .pure ⟨fun f hf => .inl hf, fun f hf => hf, fun h => h, fun m hm => (by cases hm), fun h => h⟩
  | cons m ms ih =>
    unfold convergeScan
    have hskip (hm : ¬ Converges env b sources m) :=
      (ih deletable cover).mono (fun _ h => Scanned.skip hm h) fun _ h => ScanStops.tail (m := m) h
    by_cases hsubs : (coveredBy sources m).isEmpty
    · simp only [if_pos hsubs]
      exact hskip fun h => h.1 (isEmpty_iff.mp hsubs)
    simp only [if_neg hsubs]
    cases htiles : tilesExactly (coveredBy sources m) m.range with
    | true =>
      exact hskip fun h => by rw [h.2.1] at htiles; cases htiles
    | false =>
      have hsubs' : coveredBy sources m ≠ [] := fun h => hsubs (isEmpty_iff.mpr h)
      refine .bind ((attempt_reads verifyCovers_reads).weaken ?_) fun r hr => ?_
      · rintro _ ⟨rfl, hd | ⟨⟨_, hmsg⟩, _⟩ | ⟨hne, _⟩⟩
        · exact .inl hd
        · cases hmsg
        · exact absurd rfl hne.1
      match r, hr with
      | .ok cs, hr =>
        have hsound := hr.1 cs rfl
        refine .bind (endpointChainEvidence_reads.weaken fun e he => ?_)
          fun ok hok => ?_
        · refine he.imp_right fun ⟨s, hs, hu⟩ => .inr ⟨s, (mem_filter.mp hs).1, hu⟩
        cases ok with
        | true =>
          refine (ih _ _).mono (fun _ h => Scanned.push ⟨hsubs', htiles, cs, hsound, hok.mp rfl⟩ h)
            fun _ h => h.tail
        | false =>
          refine hskip fun h => ?_
          obtain ⟨cs', hsound', hev⟩ := h.2.2
          rw [hsound'.decoded.unique hsound.decoded] at hev
          exact absurd (hok.mpr hev) (by decide)
      | .error err, hr =>
        have herr := hr.2 err rfl
        -- only a storage error stops the scan; any other error means that `m` is unsound
        by_cases hst : ∃ msg, err = .storage msg
        · obtain ⟨msg, rfl⟩ := hst
          refine .throw ?_
          rcases herr with hd | ⟨_, hnone⟩ | ⟨hns, _⟩
          · exact .inl hd
          · exact .inr (.inl ⟨m, mem_cons_self, hnone⟩)
          · exact absurd rfl (hns.2 msg)
        · have hunsound : ¬ Converges env b sources m := by
            rintro ⟨_, _, cs, hcs, _⟩
            rcases herr with ⟨_, hd⟩ | ⟨⟨msg, hmsg⟩, _⟩ | ⟨_, hno⟩
            · rcases hd with hd | ⟨msg, hmsg⟩
              · cases hd
              · exact hst ⟨msg, by injection hmsg⟩
            · exact hst ⟨msg, by injection hmsg⟩
            · exact hno cs hcs
          cases err <;> first | exact hskip hunsound | exact absurd ⟨_, rfl⟩ hst

/-! ## Merging -/

/-- `input` is the file `f` as the merge opens it. -/
structure Opened (env : Env) (b : Bucket) (f : LayoutFile) (input : MergeInput) : Prop where
  header : HeaderAt env b f.key input.header
  range : input.range = f.range
  stream : StreamAt env b f.key input.stream

theorem openSources_reads {fs : List LayoutFile} :
    ReadsBucket b (openSources env fs) (fun inputs => Forall₂ (Opened env b) fs inputs)
      (fun e => Disturbed env e ∨ ∀ inputs, ¬ Forall₂ (Opened env b) fs inputs) := by
  induction fs with
  | nil => exact .pure Forall₂.nil
  | cons f fs ih =>
    refine .bind (readHeaderFromStorage_reads.weaken fun e he =>
      he.imp_right fun hn inputs => ?_) fun header hheader =>
        .bind (openFromStorage_reads.weaken fun e he =>
          he.imp_right fun hn inputs => ?_) fun stream hstream =>
            .bind (ih.weaken fun e he => he.imp_right fun hn inputs => ?_)
              fun inputs hinputs => .pure (.cons ⟨hheader, rfl, hstream⟩ hinputs)
    · rintro (_ | ⟨ho, _⟩)
      exact hn.2 _ ho.header
    · rintro (_ | ⟨ho, _⟩)
      exact hn.2 _ ho.stream
    · rintro (_ | ⟨_, hrest⟩)
      exact hn _ hrest

theorem Opened.unique {i j : MergeInput} (hi : Opened env b f i) (hj : Opened env b f j) : i = j := by
  have hs := found_unique hi.stream hj.stream
  have hh := hi.header.unique hj.header
  have hr := hi.range.trans hj.range.symm
  cases i
  cases j
  simp_all

theorem opened_unique {fs : List LayoutFile} {is js : List MergeInput}
    (hi : Forall₂ (Opened env b) fs is) (hj : Forall₂ (Opened env b) fs js) : is = js := by
  induction hi generalizing js with
  | nil => cases hj; rfl
  | cons h _ ih =>
    cases hj with
    | cons h' hrest' => rw [h.unique h', ih hrest']

/-- What `verify_merged_bytes` accepts. -/
theorem verifyMergedBytes_eq_ok {bytes : Bytes} {prev declaredEnd : UInt64} {pageCount : Nat} :
    verifyMergedBytes env bytes prev declaredEnd pageCount = .ok cs ↔
      env.ph.decode bytes = .ok cs ∧ cs.isCompacted = true ∧ cs.header.prevChecksum = prev ∧
        chainEnd cs = declaredEnd ∧ cs.header.pageCount = UInt32.ofNat pageCount ∧
        UInt32.ofNat cs.pages.length = UInt32.ofNat pageCount := by
  unfold verifyMergedBytes decodeAt
  cases env.ph.decode bytes with
  | error e => simp
  | ok cs' =>
    dsimp only
    constructor
    · intro h
      split_ifs at h with h1 h2 h3 h4
      cases h
      exact ⟨rfl, h1, not_not.mp h2, not_not.mp h3, not_not.mp (not_or.mp h4).1,
        not_not.mp (not_or.mp h4).2⟩
    · rintro ⟨h, h1, h2, h3, h4, h5⟩
      cases h
      rw [if_neg (not_not.mpr h1), if_neg (not_not.mpr h2), if_neg (not_not.mpr h3),
        if_neg (not_or.mpr ⟨not_not.mpr h4, not_not.mpr h5⟩)]

/-- `result` is the self-checked merge of the files `sources`. -/
def MergedFrom (env : Env) (b : Bucket) (sources : List LayoutFile) (result : MergeResult) : Prop :=
  ∃ inputs tracker, Forall₂ (Opened env b) sources inputs ∧
    mergeChangesets env.ph.sha64 env.createdMs inputs ⟨0, 0⟩ = .ok (result, tracker) ∧
    ∃ cs, verifyMergedBytes env result.bytes result.prevChecksum result.declaredEndChecksum
      result.pageCount = .ok cs

theorem mergeSources_reads (sources : List LayoutFile) :
    ReadsBucket b (mergeSources env sources) (MergedFrom env b sources)
      (fun e => Disturbed env e ∨ ∀ result, ¬ MergedFrom env b sources result) := by
  refine .bind (openSources_reads.weaken fun e he =>
    he.imp_right fun hn result => fun ⟨inputs, _, hinputs, _⟩ => hn inputs hinputs) fun inputs hinputs =>
      .bind (access_reads.weaken fun _ => .inl) fun _ _ => ?_
  refine .bind ((liftE_reads _).weaken ?_) fun r hr => ?_
  · rintro _ ⟨err, rfl, herr⟩
    refine .inr fun result => ?_
    rintro ⟨inputs', tracker, hinputs', hmerge, _⟩
    rw [opened_unique hinputs' hinputs, herr] at hmerge
    cases hmerge
  · obtain ⟨result, tracker⟩ := r
    dsimp only
    cases hv : verifyMergedBytes env result.bytes result.prevChecksum result.declaredEndChecksum
        result.pageCount with
    | ok cs => exact .pure ⟨inputs, tracker, hinputs, hr, cs, hv⟩
    | error err =>
      refine .throw (.inr fun result' => ?_)
      rintro ⟨inputs', tracker', hinputs', hmerge, cs, hcs⟩
      rw [opened_unique hinputs' hinputs, hr] at hmerge
      cases hmerge
      rw [hv] at hcs
      cases hcs

/-! ## Writes and deletes -/

def eraseAll (b : Bucket) (files : List LayoutFile) : Bucket := files.foldl (fun b f => b.erase f.key) b

theorem get_eraseAll : (eraseAll b files).get key = if ∃ f ∈ files, f.key = key then none else b.get key := by
  induction files generalizing b with
  | nil => simp [eraseAll]
  | cons f fs ih =>
    show (eraseAll (b.erase f.key) fs).get key = _
    rw [ih, Store.get_erase]
    by_cases hfs : ∃ g ∈ fs, g.key = key
    · have hex : ∃ g ∈ f :: fs, g.key = key :=
        hfs.imp fun _ h => ⟨mem_cons_of_mem _ h.1, h.2⟩
      rw [if_pos hfs, if_pos hex]
    rw [if_neg hfs]
    by_cases hf : key = f.key
    · rw [if_pos hf, if_pos ⟨f, mem_cons_self, hf.symm⟩]
    · rw [if_neg hf, if_neg]
      rintro ⟨g, hg, hgk⟩
      rcases mem_cons.mp hg with rfl | hg
      · exact hf hgk.symm
      · exact hfs ⟨g, hg, hgk⟩

/-- A delete that stops has removed a front part of its files. -/
theorem deleteFiles_spec (files : List LayoutFile) :
    Triple (fun s => s.bucket = b) (deleteFiles env files) (fun _ s => s.bucket = eraseAll b files)
      (fun e s => Disturbed env e ∧ ∃ k, s.bucket = eraseAll b (files.take k)) := by
  induction files generalizing b with
  | nil => exact fun s hs => hs
  | cons f fs ih =>
    have hone : Triple (fun s => s.bucket = b) (deleteObject env f.key)
        (fun _ s => s.bucket = b.erase f.key)
        (fun e s => Disturbed env e ∧ ∃ k, s.bucket = eraseAll b ((f :: fs).take k)) := by
      refine .consequence storageOp_spec (fun _ h => h) (fun _ _ ⟨_, h, _⟩ => h) ?_
      rintro e s ⟨hd, h | h⟩
      · exact ⟨hd, 0, h⟩
      · exact ⟨hd, 1, by simpa [eraseAll] using h⟩
    refine .bind hone fun _ => .consequence ih (fun _ h => h) (fun _ _ h => h) ?_
    rintro e s ⟨hd, k, hk⟩
    exact ⟨hd, k + 1, hk⟩

theorem putObject_spec (key : Key) (bytes : Bytes) :
    Triple (fun s => s.bucket = b) (putObject env key bytes)
      (fun _ s => ∃ stored, s.bucket = b.put key stored ∧ (env.Faithful → stored = bytes))
      (fun e s => Disturbed env e ∧ (s.bucket = b ∨ s.bucket = b.put key bytes)) := by
  refine .consequence storageOp_spec (fun _ h => h) ?_ fun _ _ h => h
  rintro _ s ⟨garbled, h, hclean⟩
  exact ⟨_, h, fun hf => by rw [hclean hf]; rfl⟩

end Compaction
end Walrust
