import Walrust.Compaction.Integrity

/-!
# `Walrust.Compaction.Stock` — the objects of one writer's history

One owned writer chains its changesets: `val n` is the chain value after seq `n`. Every object that is stored
at a level with the range `[a, b]`, published or merged, then leads from `val (a - 1)` to `val b`. On a bucket
stocked with such objects every check of the engine passes (listings can be read, covers are sound, endpoint
evidence agrees, adjoining sources merge), so what a run does depends on the ranges alone. Compaction keeps a
bucket stocked, at whatever operation a run stops.
-/

namespace Walrust
namespace Compaction

open Hadbp Lib Lib.KWay Ltx List

variable {all files : List LayoutFile} {css : List PhysicalChangeset} {cs₀ cs : PhysicalChangeset} {e : Nat}
  {f : LayoutFile} {sha64 : Bytes → UInt64} {pageSize : UInt32} {key : Key} {val : Nat → UInt64} {level : Level}
  {c : Call}

/-! ## Merging good sources -/

theorem chainEndsOf_eq {sha64 : Bytes → UInt64} {size : PageIdSize} {inputs : List MergeInput}
    {css : List PhysicalChangeset} (hsrc : Forall₂ SourceOf inputs css)
    (hsize : ∀ cs ∈ css, cs.header.pageIdSize = size) :
    chainEndsOf sha64 size inputs = css.map (streamedEnd sha64) := by
  induction hsrc with
  | nil => rfl
  | @cons s cs inputs css hs _ ih =>
    have ih := ih fun t ht => hsize t (mem_cons_of_mem _ ht)
    have hid : ∀ p ∈ cs.pages, p.pageId.size = size := fun p hp =>
      (hs.idSize p hp).trans (hsize cs mem_cons_self)
    simp only [chainEndsOf] at ih
    simp only [chainEndsOf, map_cons, ih, hs.header, hs.stream, flatMap_hashSourcePage hid]
    rfl

theorem forall₂_getLast {α β : Type} {R : α → β → Prop} {as : List α} {bs : List β}
    (h : Forall₂ R as bs) (ha : as ≠ []) (hb : bs ≠ []) : R (as.getLast ha) (bs.getLast hb) := by
  induction h with
  | nil => exact absurd rfl ha
  | @cons a b as bs hab hrest ih =>
    cases hrest with
    | nil => exact hab
    | cons _ _ =>
      exact ih (cons_ne_nil _ _) (cons_ne_nil _ _)

theorem id32_of_valid (hw : cs.WellFormed sha64) (hv : Valid cs (some e)) : ∀ p ∈ cs.pages, p.pageId.size = .u32 := by
  intro p hp
  rw [hw.idSize p hp, hv.idSize]

theorem goodSource_of_valid (hw : cs.WellFormed sha64) (hv : Valid cs (some e))
    (hps : cs.header.pageSize = pageSize) : GoodSource pageSize.toNat cs where
  valid := ⟨e, hv⟩
  ascending := hw.ascending
  small := by
    intro p hp
    have hid := id32_of_valid hw hv p hp
    cases hpid : p.pageId with
    | u32 v => exact v.toNat_lt
    | u64 v => rw [hpid] at hid; cases hid
  pageSize := by rw [hps]

/-- The sources of a merge that cannot fail: good, of one page size, and linked. -/
structure Chained (sha64 : Bytes → UInt64) (pageSize : UInt32) (css : List PhysicalChangeset) : Prop where
  good : ∀ cs ∈ css, GoodSource pageSize.toNat cs
  idSize : ∀ cs ∈ css, ∀ p ∈ cs.pages, p.pageId.size = .u32
  linked : Linked sha64 css

/-- **Chained sources merge**, and the bytes are those of one well-formed COMPACTED changeset that leads from
    the first source's chain value to the last one's, declares the last one's size and bears its seq. -/
theorem mergeChangesets_chained (createdMs : Int64) (tracker : PeakPages) {inputs : List MergeInput}
    (hsrc : Forall₂ SourceOf inputs (cs₀ :: css)) (h : Chained sha64 pageSize (cs₀ :: css)) :
    ∃ ds e tracker' result, Popped pageTagging ((cs₀ :: css).map PhysicalChangeset.pages) ds ∧
      Valid ((cs₀ :: css).getLast (cons_ne_nil _ _)) (some e) ∧ e + 1 < 2 ^ 32 ∧
      mergeChangesets sha64 createdMs inputs tracker = .ok (result, tracker') ∧
      result.prevChecksum = cs₀.header.prevChecksum ∧
      result.declaredEndChecksum = streamedEnd sha64 ((cs₀ :: css).getLast (cons_ne_nil _ _)) ∧
      result.bytes = (mergedOf sha64 createdMs pageSize
        ((cs₀ :: css).getLast (cons_ne_nil _ _)).header.seq result.prevChecksum
        result.declaredEndChecksum e ds).wire ∧
      result.pageCount = (mergedOf sha64 createdMs pageSize
        ((cs₀ :: css).getLast (cons_ne_nil _ _)).header.seq result.prevChecksum
        result.declaredEndChecksum e ds).pages.length := by
  cases hsrc with
  | @cons first _ rest _ hfirst hrest =>
    have hsrc : Forall₂ SourceOf (first :: rest) (cs₀ :: css) := .cons hfirst hrest
    obtain ⟨last, hlast⟩ : ∃ last, (cs₀ :: css).getLast (cons_ne_nil _ _) = last := ⟨_, rfl⟩
    have hlast? : (cs₀ :: css).getLast? = some last := by
      rw [getLast?_eq_some_getLast (cons_ne_nil _ _), hlast]
    have hmem := mem_of_getLast? hlast?
    obtain ⟨e, hv⟩ := (h.good last hmem).valid
    have hid32 : ∀ cs ∈ cs₀ :: css, cs.header.pageIdSize = .u32 := fun cs hcs => by
      obtain ⟨_, hv⟩ := (h.good cs hcs).valid
      exact hv.idSize
    have hsqlite : ∀ cs ∈ cs₀ :: css, SqliteSource pageSize cs := fun cs hcs =>
      (h.good cs hcs).sqliteSource (h.idSize cs hcs)
    obtain ⟨hm, hsize, hpage⟩ := mergeable_of_sources hsrc hsqlite hlast? hv
    have hends := @chainEndsOf_eq sha64 .u32 _ _ hsrc hid32
    have hseq : lastSeq first rest = last.header.seq := by
      have hof := forall₂_getLast hsrc (cons_ne_nil _ _) (cons_ne_nil _ _)
      rw [lastSeq, hof.header, hlast]
      rfl
    have he : e + 1 < 2 ^ 32 := (hsqlite last hmem).fits hv e rfl
    obtain ⟨ds, t, hpop, heq⟩ := mergeChangesets_eq sha64 createdMs hm tracker
    rw [hsize, hends, hpage, hseq] at heq
    rw [map_cons, headD_cons, tail_cons, (checkContiguous_ok hrest).mpr h.linked,
      getLastD_eq_getLast?, ← map_cons, List.getLast?_map, hlast?] at heq
    refine ⟨ds, e, t, _, hpop, hlast ▸ hv, he, heq, ?_, ?_, ?_, ?_⟩
    · rw [hfirst.header]
      rfl
    · rw [hlast]
      rfl
    · rw [hlast]
      rfl
    · rw [hlast]
      rfl

theorem Chained.pageSize_ok (h : Chained sha64 pageSize (cs₀ :: css)) :
    ValidSize pageSize := by
  have hgood := h.good cs₀ mem_cons_self
  obtain ⟨e, hv⟩ := hgood.valid
  have := hv.pageSize
  rwa [UInt32.toNat_inj.mp hgood.pageSize] at this

/-- Applying the merge of chained sources is applying them in order. -/
theorem Chained.apply_merged {createdMs : Int64} {seq prev declared : UInt64} {ds : List HeapPage}
    (h : Chained sha64 pageSize (cs₀ :: css))
    (hpop : Popped pageTagging ((cs₀ :: css).map PhysicalChangeset.pages) ds)
    (hv : Valid ((cs₀ :: css).getLast (cons_ne_nil _ _)) (some e)) (he : e + 1 < 2 ^ 32) {db : Bytes}
    (hgrow : GrowthCovered (cs₀ :: css) db) :
    ∃ db', applyAll (cs₀ :: css) db = .ok db' ∧
      applyDecodedChangesetToDb (mergedOf sha64 createdMs pageSize seq prev declared e ds) db = .ok db' := by
  obtain ⟨db', e', hall, happ, hdecl⟩ := applyAll_spec (cons_ne_nil _ _) h.good hgrow
  have hee : e' = e := by
    have := hv.marker.symm.trans
      (hdecl _ (getLast?_eq_some_getLast (cons_ne_nil _ _)))
    injection this with this
    exact (Option.some.inj this).symm
  subst hee
  exact ⟨db', hall, apply_mergedOf h.good h.idSize hpop he h.pageSize_ok happ⟩

/-! ## Stocked buckets -/

/-- `cs` is an object of the writer's history with the range `range`, published (level 0) or merged. -/
structure Holds (sha64 : Bytes → UInt64) (pageSize : UInt32) (val : Nat → UInt64) (level : Level)
    (range : SeqRange) (cs : PhysicalChangeset) : Prop where
  wellFormed : cs.WellFormed sha64
  valid : ∃ e, Valid cs (some e)
  pageSize : cs.header.pageSize = pageSize
  seq : cs.header.seq.toNat = range.max
  prev : cs.header.prevChecksum = val (range.min - 1)
  chained : chainEnd cs = val range.max
  compacted : cs.isCompacted = decide (level ≠ 0)

/-- Every object of every level is one of the writer's history. -/
def Stocked (sha64 : Bytes → UInt64) (pageSize : UInt32) (val : Nat → UInt64) (b : Bucket) : Prop :=
  ∀ level key range bytes, keyRange level key = some range → b.get key = some bytes →
    ∃ cs, bytes = cs.wire ∧ Holds sha64 pageSize val level range cs

section Holds

variable {range : SeqRange}

section

variable (h : Holds sha64 pageSize val level range cs)
include h

theorem Holds.shaped : cs.Shaped :=
  (PhysicalChangeset.wellFormed_iff.mp h.wellFormed).1

theorem Holds.id32 :
    ∀ p ∈ cs.pages, p.pageId.size = .u32 := by
  obtain ⟨e, hv⟩ := h.valid
  exact id32_of_valid h.wellFormed hv

theorem Holds.good : GoodSource pageSize.toNat cs := by
  obtain ⟨e, hv⟩ := h.valid
  exact goodSource_of_valid h.wellFormed hv h.pageSize

theorem Holds.pages_ne_nil : cs.pages ≠ [] := by
  obtain ⟨e, hv⟩ := h.valid
  obtain ⟨m, hm, -⟩ := hv.exists_marker
  exact ne_nil_of_mem hm

end

end Holds

/-! ## Every check passes on a stocked bucket -/

section Checks

variable {env : Env} {b : Bucket}

variable {m : LayoutFile}

theorem headerAt_wire {key : Key} {cs : PhysicalChangeset} (h : b.get key = some cs.wire) :
    HeaderAt env b key (sourceHeaderOf cs) :=
  ⟨cs.wire, h, by rw [headerOf, if_neg (take_wire_ne_ltx cs), readHeader_wire]⟩

section

variable (h : b.get key = some cs.wire)
include h

theorem streamAt_wire (hs : cs.Shaped) : StreamAt env b key { pages := cs.pages, fault := none } :=
  ⟨cs.wire, h, by rw [streamOf, if_neg (take_wire_ne_ltx cs), openSourceStream_wire hs]⟩

theorem decodesTo_wire (hwf : cs.WellFormed env.ph.sha64) : DecodesTo env b key cs :=
  ⟨cs.wire, h, env.ph.decode_wire cs hwf⟩

theorem chainEndAt_wire (hwf : cs.WellFormed env.ph.sha64) : ChainEndAt env b key (chainEnd cs) := by
  refine ⟨sourceHeaderOf cs, headerAt_wire h, ?_⟩
  cases hd : cs.declaredEndChecksum with
  | some v => exact .inl (by rw [chainEnd, hd]; exact hd)
  | none => exact .inr ⟨hd, cs, decodesTo_wire h hwf, rfl⟩

end

variable (hst : Stocked env.ph.sha64 pageSize val b)
include hst

theorem Stocked.object {range : SeqRange} (hkey : keyRange level key = some range) (hget : (b.get key).isSome) :
    ∃ cs, b.get key = some cs.wire ∧ Holds env.ph.sha64 pageSize val level range cs := by
  obtain ⟨bytes, hbytes⟩ := Option.isSome_iff_exists.mp hget
  obtain ⟨cs, rfl, hcs⟩ := hst level key range bytes hkey hbytes
  exact ⟨cs, hbytes, hcs⟩

theorem Stocked.file (hf : FileAt env b level f) :
    ∃ cs, b.get f.key = some cs.wire ∧ Holds env.ph.sha64 pageSize val level f.range cs := by
  obtain ⟨h, ⟨bytes, hbytes, _⟩, _⟩ := hf.header
  exact hst.object hf.range_eq (by rw [hbytes]; rfl)

theorem Stocked.readable (level : Level) : Readable env b level := by
  intro key hkey hget
  obtain ⟨range, hrange⟩ := Option.isSome_iff_exists.mp hkey
  obtain ⟨cs, hcs, _⟩ := hst.object hrange hget
  exact ⟨_, headerAt_wire hcs⟩

theorem Stocked.not_unreadable (hf : FileAt env b level f) : ¬ Unreadable env b f := by
  obtain ⟨cs, hcs, hh⟩ := hst.file hf
  rintro (h | h)
  · exact h _ (headerAt_wire hcs)
  · exact h _ (chainEndAt_wire hcs hh.wellFormed)

theorem Stocked.soundCover (hm : FileAt env b (level + 1) m) :
    ∃ cs, SoundCover env b m.key cs ∧ Holds env.ph.sha64 pageSize val (level + 1) m.range cs := by
  obtain ⟨cs, hcs, hh⟩ := hst.file hm
  refine ⟨cs, ⟨decodesTo_wire hcs hh.wellFormed, ?_, ?_⟩, hh⟩
  · rw [hh.compacted]
    exact decide_eq_true (Nat.succ_ne_zero level)
  · exact hh.pages_ne_nil

/-- Equal endpoints have equal chain values, so the evidence of a stocked level never fails. -/
theorem Stocked.evidence (hcs : Holds env.ph.sha64 pageSize val (level + 1) m.range cs) {subs : List LayoutFile}
    (hsubs : ∀ s ∈ subs, FileAt env b level s) : Evidence env b m cs subs := by
  intro s hs
  obtain ⟨scs, hscs, hh⟩ := hst.file (hsubs s hs)
  refine ⟨fun hmin h hat => ?_, fun hmax v hat => ?_⟩
  · obtain rfl := hat.unique (headerAt_wire hscs)
    show scs.header.prevChecksum = _
    rw [hh.prev, hcs.prev, hmin]
  · obtain rfl := hat.unique (chainEndAt_wire hscs hh.wellFormed)
    rw [hh.chained, hcs.chained, hmax]

/-- **Which covers converge** is a matter of ranges. -/
theorem Stocked.converges_iff (hall : ∀ f ∈ all, FileAt env b level f) (hm : FileAt env b (level + 1) m) :
    Converges env b all m ↔ coveredBy all m ≠ [] ∧ tilesExactly (coveredBy all m) m.range = false := by
  refine ⟨fun h => ⟨h.1, h.2.1⟩, fun h => ⟨h.1, h.2, ?_⟩⟩
  obtain ⟨cs, hsound, hh⟩ := hst.soundCover hm
  exact ⟨cs, hsound, hst.evidence hh fun s hs => hall s (mem_of_mem_filter hs)⟩

/-! ## Merging on a stocked bucket -/

theorem Stocked.objects (hfiles : ∀ f ∈ files, FileAt env b level f) :
    ∃ css, Forall₂ (fun f cs => b.get f.key = some cs.wire ∧
      Holds env.ph.sha64 pageSize val level f.range cs) files css := by
  induction files with
  | nil => exact ⟨[], .nil⟩
  | cons f files ih =>
    obtain ⟨cs, hcs⟩ := hst.file (hfiles f mem_cons_self)
    obtain ⟨css, hcss⟩ := ih fun g hg => hfiles g (mem_cons_of_mem _ hg)
    exact ⟨cs :: css, .cons hcs hcss⟩

omit hst in
theorem opened_of_shaped (h : Forall₂ (ShapedAt b) files css) :
    ∃ inputs, Forall₂ (Opened env b) files inputs := by
  induction h with
  | nil => exact ⟨[], .nil⟩
  | @cons f cs files css hf _ ih =>
    obtain ⟨inputs, hinputs⟩ := ih
    exact ⟨⟨sourceHeaderOf cs, f.range, _⟩ :: inputs,
      .cons ⟨headerAt_wire hf.1, rfl, streamAt_wire hf.1 hf.2⟩ hinputs⟩

omit hst in
/-- Adjoining objects of one history are linked. -/
theorem linked_of_adjoining (hobj : Forall₂ (fun (f : LayoutFile) cs =>
      b.get f.key = some cs.wire ∧ Holds sha64 pageSize val level f.range cs) files css)
    (hchain : (rangesOf files).IsChain SeqRange.Adj) : Linked sha64 css := by
  induction hobj with
  | nil => exact .nil
  | @cons f cs files css hf hrest ih =>
    cases hrest with
    | nil => exact isChain_singleton cs
    | @cons g cs' files css hg hrest =>
      obtain ⟨hadj, htail⟩ := isChain_cons_cons.mp hchain
      refine isChain_cons_cons.mpr ⟨?_, ih htail⟩
      rw [streamedEnd_eq hf.2.wellFormed, hf.2.chained, hg.2.prev, ← hadj, Nat.add_sub_cancel]

/-- **Adjoining files of a stocked level merge**, into an object of the next level with their span, and
    applying that object is applying them in order. -/
theorem Stocked.merged {first : LayoutFile} {rest : List LayoutFile}
    (hfiles : ∀ f ∈ first :: rest, FileAt env b level f)
    (hchain : (rangesOf (first :: rest)).IsChain SeqRange.Adj) :
    ∃ result cs css, MergedFrom env b (first :: rest) result ∧ result.bytes = cs.wire ∧
      Holds env.ph.sha64 pageSize val (level + 1) (spanOf first rest) cs ∧
      Forall₂ (fun f cs => b.get f.key = some cs.wire ∧
        Holds env.ph.sha64 pageSize val level f.range cs) (first :: rest) css ∧
      ∀ db, GrowthCovered css db → ∃ db', applyAll css db = .ok db' ∧
        applyDecodedChangesetToDb cs db = .ok db' := by
  obtain ⟨css, hobj⟩ := hst.objects hfiles
  obtain ⟨cs₀, css, rfl⟩ := exists_cons_of_ne_nil (length_pos_iff.mp (by
    rw [← hobj.length_eq]
    exact Nat.succ_pos rest.length))
  have hshaped : Forall₂ (ShapedAt b) (first :: rest) (cs₀ :: css) :=
    hobj.imp fun f cs h => ⟨h.1, h.2.shaped⟩
  have hheld : ∀ cs ∈ cs₀ :: css, ∃ r, Holds env.ph.sha64 pageSize val level r cs := by
    intro cs hcs
    obtain ⟨f, -, hf⟩ := forall₂_mem_right hobj hcs
    exact ⟨_, hf.2⟩
  have hchained : Chained env.ph.sha64 pageSize (cs₀ :: css) :=
    { good := fun cs hcs => (hheld cs hcs).elim fun _ h => h.good
      idSize := fun cs hcs => (hheld cs hcs).elim fun _ h => h.id32
      linked := linked_of_adjoining hobj hchain }
  obtain ⟨inputs, hopened⟩ := opened_of_shaped hshaped
  obtain ⟨ds, e, t, result, hpop, hv, he, hmerge, hprev, hdecl, hbytes, hcount⟩ :=
    mergeChangesets_chained env.createdMs ⟨0, 0⟩ (sourceOf_of_opened (fun h ho => h.sourceOf ho) hshaped hopened) hchained
  have hlast := forall₂_getLast hobj (cons_ne_nil _ _) (cons_ne_nil _ _)
  have hwf : (mergedOf env.ph.sha64 env.createdMs pageSize ((cs₀ :: css).getLast (cons_ne_nil _ _)).header.seq
      result.prevChecksum result.declaredEndChecksum e ds).WellFormed env.ph.sha64 :=
    mergedOf_wellFormed hchained.good hchained.idSize hpop he hchained.pageSize_ok
  refine ⟨result, _, _, ⟨inputs, t, hopened, hmerge, _, verifyMergedBytes_eq_ok.mpr
    ⟨hbytes ▸ env.ph.decode_wire _ hwf, rfl, rfl, rfl, ?_, ?_⟩⟩, hbytes, ?_, hobj, ?_⟩
  · rw [hcount]
    rfl
  · rw [hcount]
  · exact
      { wellFormed := hwf
        valid := ⟨e, mergedOf_valid hchained.good hchained.idSize hpop he hchained.pageSize_ok⟩
        pageSize := rfl
        seq := hlast.2.seq
        prev := by
          cases hobj with
          | cons hfirst _ => exact hprev.trans hfirst.2.prev
        chained := by
          rw [hdecl, streamedEnd_eq hlast.2.wellFormed, hlast.2.chained]
          rfl
        compacted := (decide_eq_true (Nat.succ_ne_zero level)).symm }
  · intro db hgrow
    exact hchained.apply_merged hpop hv he hgrow

end Checks

/-! ## Compaction keeps a bucket stocked -/

section Runs

variable {env : Env} {b b' : Bucket}

/-- `result` is the merge of the batch that the call selects on `b`. -/
def MergesTo (env : Env) (b : Bucket) (c : Call) (first : LayoutFile) (rest : List LayoutFile)
    (result : MergeResult) : Prop :=
  ∃ all targets, Batch env b c all targets first rest ∧ Admissible targets (spanOf first rest) ∧
    MergedFrom env b (first :: rest) result

theorem get_of_get_eraseAll {bytes : Bytes} (h : (eraseAll b files).get key = some bytes) :
    b.get key = some bytes := by
  rw [get_eraseAll] at h
  split at h
  · cases h
  exact h

/-- **Where an object comes from** after a run that garbled no write: it was there, or it is the merge of the
    selected batch. -/
theorem Effect.origin (hfaithful : env.Faithful) (h : Effect env b c b') {bytes : Bytes}
    (hget : b'.get key = some bytes) :
    b.get key = some bytes ∨ ∃ first rest result, MergesTo env b c first rest result ∧
      key = c.target first rest ∧ bytes = result.bytes := by
  have hput {first : LayoutFile} {rest : List LayoutFile} {result : MergeResult} {stored : Bytes}
      (hm : MergesTo env b c first rest result) (hstored : stored = result.bytes)
      (hget : (b.put (c.target first rest) stored).get key = some bytes) :
      b.get key = some bytes ∨ ∃ first rest result, MergesTo env b c first rest result ∧
        key = c.target first rest ∧ bytes = result.bytes := by
    by_cases hkey : key = c.target first rest
    · subst hkey
      rw [Store.get_put_self] at hget
      exact .inr ⟨first, rest, result, hm, rfl, (Option.some.inj hget).symm.trans hstored⟩
    · rw [Store.get_put_of_ne _ _ hkey] at hget
      exact .inl hget
  cases h with
  | unchanged => exact .inl hget
  | converged _ k => exact .inl (get_of_get_eraseAll hget)
  | recovered _ _ _ _ k => exact .inl (get_of_get_eraseAll hget)
  | dropped _ _ =>
    rw [Store.get_erase] at hget
    split at hget
    · cases hget
    exact .inl hget
  | stored hbatch hadm hmerge hstored =>
    exact hput ⟨_, _, hbatch, hadm, hmerge⟩ (hstored hfaithful) hget
  | swapped hbatch hadm hmerge hstored _ k =>
    exact hput ⟨_, _, hbatch, hadm, hmerge⟩ (hstored hfaithful) (get_of_get_eraseAll hget)

theorem Batch.fileAt {targets rest : List LayoutFile} {first : LayoutFile}
    (h : Batch env b c all targets first rest) (hf : f ∈ first :: rest) : FileAt env b c.level f :=
  h.listed.fileAt f (h.mem_all hf)

theorem Batch.adjoining {targets rest : List LayoutFile} {first : LayoutFile}
    (h : Batch env b c all targets first rest) :
    (rangesOf (first :: rest)).IsChain SeqRange.Adj := by
  obtain ⟨_, _, _, _, _, hcut⟩ := h.cut
  exact hcut.front.chain

theorem Stocked.keep (hst : Stocked env.ph.sha64 pageSize val b) (hfaithful : env.Faithful)
    (h : Effect env b c b') : Stocked env.ph.sha64 pageSize val b' := by
  intro level key range bytes hkey hget
  rcases h.origin hfaithful hget with hold | ⟨first, rest, result, ⟨all, targets, hbatch, _, hmerge⟩, rfl, rfl⟩
  · exact hst level key range bytes hkey hold
  obtain ⟨result', cs, _, hmerge', hbytes, hheld, _⟩ :=
    hst.merged (fun f hf => hbatch.fileAt hf) hbatch.adjoining
  obtain rfl := hmerge.unique hmerge'
  -- the key says which level and range the object has
  have hspan := keyRange_span hbatch
  obtain rfl : level = c.level + 1 :=
    keyRange_level_unique (by rw [hkey]; rfl) (by rw [hspan]; rfl)
  obtain rfl := Option.some.inj (hspan.symm.trans hkey)
  exact ⟨cs, hbytes, hheld⟩

end Runs

end Compaction
end Walrust
