import Walrust.Compaction.Merge

/-!
# `Walrust.Compaction.MergeCorrect` — what the merge writes

The loop of `Compaction.Merge` is related to the frontier machine of `Lib.KWay` step by step, and the
merged object's bytes to the wire form of one changeset. From there on nobody looks at the loop again.

* `Running` — the loop invariant: healthy streams, a covered frontier, a pending page that comes before
  everything unread, and a final size that is known or still ahead in the last source (`EpcAhead`);
* `mergeLoop_spec` — a run of the loop emits exactly the collapsed popped sequence, filtered by the final
  size, even though the size is only learned mid-stream;
* `mergeChangesets_eq` — the result's bytes are the wire form of `mergedChangeset`.
-/

namespace Walrust
namespace Compaction

open Hadbp Lib.Bytes Lib.File Lib.KWay List MergeInput MergeState

variable {heap' : List HeapPage} {n : Nat} {ss rest' : List (List PageEntry)} {st : MergeState} {top : HeapPage}
  {final : Option Nat} {size : PageIdSize} {sources : List MergeInput}

/-! ## Reading from a source -/

/-- The pages still unread, per source. -/
def MergeState.rest (st : MergeState) : List (List PageEntry) := st.streams.map PageStream.pages

/-- No stream ends in an error. -/
def MergeState.Healthy (st : MergeState) : Prop := ∀ s ∈ st.streams, s.fault = none

/-- The final size known after a read. -/
def captured (n order : Nat) : Option PageEntry → Option Nat → Option Nat
  | some page, c => captureEpc n order page c
  | none, c => c

/-- What each source's hasher will have been fed once its stream is read to the end. -/
def MergeState.fed (size : PageIdSize) (st : MergeState) : List Bytes :=
  List.zipWith (fun h ps => h ++ ps.flatMap (hashSourcePage size)) st.sourceHashers st.rest

/-- Moving something from one list's entry to the other's leaves their combination alone. -/
theorem zipWith_modify_set {α β γ : Type} {f : α → β → γ} {g : α → α} {xs : List α} {ys : List β} {i : Nat}
    {y z : β} (hz : ys[i]? = some z) (h : ∀ x, f (g x) y = f x z) :
    List.zipWith f (xs.modify i g) (ys.set i y) = List.zipWith f xs ys := by
  induction xs generalizing ys i with
  | nil => cases i <;> simp
  | cons x xs ih =>
    cases ys with
    | nil => simp at hz
    | cons w ws =>
      cases i with
      | zero =>
        simp only [List.getElem?_cons_zero, Option.some.injEq] at hz
        subst hz
        simp [h]
      | succ i =>
        simp only [List.getElem?_cons_succ] at hz
        simp [ih hz]

/-- What one read leaves: the page (if any) moved from its stream to the frontier, and the final size
    captured if the page is the last source's marker. -/
structure AfterRead (size : PageIdSize) (n order : Nat) (st st' : MergeState) (a : Option PageEntry)
    (rest' : List (List PageEntry)) : Prop where
  heap : st'.heap = push pageTagging order a st.heap
  rest : st'.rest = rest'
  healthy : st'.Healthy
  pending : st'.pending = st.pending
  buf : st'.buf = st.buf
  hasher : st'.hasher = st.hasher
  pageCount : st'.pageCount = st.pageCount
  epc : st'.finalEndPageCount = captured n order a st.finalEndPageCount
  fed : st'.fed size = st.fed size
  hashers : st'.sourceHashers.length = st.sourceHashers.length

theorem readNext_spec (size : PageIdSize) (n : Nat) {order : Nat} {st : MergeState} (hh : st.Healthy)
    {a : Option PageEntry} {rest' : List (List PageEntry)} (hnext : next st.rest order = (a, rest')) :
    ∃ st', readNext size n order st = .ok st' ∧ AfterRead size n order st st' a rest' := by
  unfold readNext
  cases hs : st.streams[order]? with
  | none =>
    have hrest : st.rest[order]? = none := by simp [rest, hs]
    simp only [Lib.KWay.next, hrest] at hnext
    obtain ⟨rfl, rfl⟩ := hnext
    exact ⟨st, rfl, rfl, rfl, hh, rfl, rfl, rfl, rfl, rfl, rfl, rfl⟩
  | some stream =>
    have hrest : st.rest[order]? = some stream.pages := by simp [rest, hs]
    have hf : stream.fault = none := hh stream (mem_of_getElem? hs)
    cases hp : stream.pages with
    | nil =>
      simp only [Lib.KWay.next, hrest, hp] at hnext
      obtain ⟨rfl, rfl⟩ := hnext
      exact ⟨st, by simp [PageStream.nextPage, hp, hf], rfl, rfl, hh, rfl, rfl, rfl, rfl, rfl, rfl, rfl⟩
    | cons page pages =>
      simp only [Lib.KWay.next, hrest, hp] at hnext
      obtain ⟨rfl, rfl⟩ := hnext
      simp only [PageStream.nextPage, hp, Except.ok.injEq, exists_eq_left']
      have hset : (st.streams.set order { stream with pages := pages }).map PageStream.pages =
          st.rest.set order pages := by
        simp [rest]
      refine ⟨rfl, hset, ?_, rfl, rfl, rfl, rfl, rfl, ?_, by simp⟩
      · intro s hs'
        rcases mem_or_eq_of_mem_set hs' with h | rfl
        · exact hh s h
        · exact hf
      · simp only [fed, rest] at hset ⊢
        rw [hset]
        rw [hp] at hrest
        exact zipWith_modify_set hrest (fun x => by simp)

/-- Resolving a page leaves the streams, their hashers and the frontier alone. -/
theorem resolve_frame :
    (resolve top st).1.streams = st.streams ∧ (resolve top st).1.sourceHashers = st.sourceHashers ∧
      (resolve top st).1.heap = st.heap := by
  unfold resolve
  cases st.pending with
  | none => exact ⟨rfl, rfl, rfl⟩
  | some p =>
    dsimp only
    split
    · split <;> exact ⟨rfl, rfl, rfl⟩
    · unfold flush emitPage
      split <;> exact ⟨rfl, rfl, rfl⟩

/-- An iteration reads on in the popped page's source, whatever it resolves. -/
theorem mergeStep_reads {size : PageIdSize} (hh : st.Healthy) {a : Option PageEntry}
    {rest' : List (List PageEntry)} (hnext : next st.rest top.order = (a, rest')) :
    ∃ st', mergeStep size n top st = .ok st' ∧
      AfterRead size n top.order (resolve top st).1 st' a rest' := by
  obtain ⟨hstreams, -, -⟩ := @resolve_frame st top
  have hrest : (resolve top st).1.rest = st.rest := congrArg (List.map _) hstreams
  obtain ⟨st', hread, har⟩ := @readNext_spec size n top.order (resolve top st).1
    (fun s hs => hh s (hstreams ▸ hs)) a rest' (hrest ▸ hnext)
  unfold mergeStep
  dsimp only
  rw [hread]
  refine ⟨_, rfl, ?_⟩
  split
  · exact ⟨har.heap, har.rest, har.healthy, har.pending, har.buf, har.hasher, har.pageCount, har.epc, har.fed,
      har.hashers⟩
  · exact har

/-- Nothing is left unread: the hashers hold what they were going to be fed. -/
theorem sourceHashers_eq_fed (hrest : ∀ ps ∈ st.rest, ps = [])
    (hlen : st.sourceHashers.length = st.rest.length) : st.sourceHashers = st.fed size := by
  apply ext_getElem
  · simp [fed, hlen]
  · intro i h₁ h₂
    simp [fed, hrest _ (getElem_mem (hlen ▸ h₁))]

/-- The loop ends with every source hashed to its end. -/
theorem mergeLoop_reads {size : PageIdSize} {fuel : Nat} (hh : st.Healthy)
    (hcov : Covered pageTagging st.heap st.rest) (hfuel : left st.heap st.rest ≤ fuel)
    (hlen : st.sourceHashers.length = st.rest.length) :
    ∃ st', mergeLoop size n fuel st = .ok st' ∧ st'.sourceHashers = st.fed size := by
  induction fuel generalizing st with
  | zero =>
    rw [heap_nil_of_left hfuel] at hcov
    exact ⟨st, rfl, sourceHashers_eq_fed (fun ps hps => hcov.rest_nil hps) hlen⟩
  | succ fuel ih =>
    unfold mergeLoop
    cases hpop : popMin pageTagging st.heap with
    | none =>
      rw [(popMin_eq_none _).mp hpop] at hcov
      exact ⟨st, rfl, sourceHashers_eq_fed (fun ps hps => hcov.rest_nil hps) hlen⟩
    | some p =>
      obtain ⟨top, heap'⟩ := p
      obtain ⟨⟨a, rest'⟩, hnext⟩ : ∃ r, next st.rest top.order = r := ⟨_, rfl⟩
      obtain ⟨st', hstep, har⟩ :=
        @mergeStep_reads n { st with heap := heap' } top size hh a rest' hnext
      obtain ⟨hstreams, hhashers, hheap⟩ := @resolve_frame { st with heap := heap' } top
      have hfed : st'.fed size = st.fed size := by
        rw [har.fed, fed, rest, hstreams, hhashers]
        rfl
      have hheap' : st'.heap = push pageTagging top.order a heap' := by rw [har.heap, hheap]
      have hleft := left_step hpop hnext
      dsimp only
      rw [hstep]
      obtain ⟨st'', hloop, hdone⟩ := @ih st' har.healthy
        (by rw [hheap', har.rest]; exact hcov.step hpop hnext)
        (by rw [hheap', har.rest]; exact Nat.le_of_succ_le_succ (le_of_eq_of_le hleft.symm hfuel))
        (by rw [har.hashers, hhashers, har.rest, length_next hnext]; exact hlen)
      exact ⟨st'', hloop, hdone.trans hfed⟩

/-! ## The final size, known or ahead -/

/-- The final size `final` is already captured, or its marker is still unread in the last source, or the
    last source has none. -/
def EpcAhead (n : Nat) (final : Option Nat) (c : Option Nat) (rest : List (List PageEntry)) : Prop :=
  (c = final ∧ ∀ ps, rest[n - 1]? = some ps → ∀ p ∈ ps, p.data ≠ []) ∨
  (c = none ∧ ∃ ps m e, rest[n - 1]? = some ps ∧ m ∈ ps ∧ m.data = [] ∧ m.pageId.toU64 = e + 1 ∧
    final = some e ∧ ∀ p ∈ ps, p.data = [] → p = m)

/-- Reading a page keeps the final size captured or ahead. -/
theorem EpcAhead.read {order : Nat} {c : Option Nat} {rest : List (List PageEntry)} {a : Option PageEntry}
    (h : EpcAhead n final c rest) (hasc : ∀ (i : ℕ) (ps : List PageEntry), rest[i]? = some ps → AscendingIds ps)
    (hnext : next rest order = (a, rest')) : EpcAhead n final (captured n order a c) rest' := by
  cases a with
  | none =>
    obtain ⟨rfl, -⟩ := next_none hnext
    exact h
  | some b =>
    obtain ⟨bs, hb, rfl⟩ := next_some hnext
    have hlen : order < rest.length := by
      by_contra hge
      simp [List.getElem?_eq_none (not_lt.mp hge)] at hb
    by_cases hlast : order = n - 1
    · subst hlast
      have hset : (rest.set (n - 1) bs)[n - 1]? = some bs := by simp [hlen]
      simp only [captured, captureEpc]
      rcases h with ⟨rfl, hdata⟩ | ⟨rfl, ps, m, e, hps, hm, hmd, hme, rfl, huniq⟩
      · have hbd := hdata _ hb b mem_cons_self
        refine .inl ⟨by simp [hbd], fun ps hps p hp => ?_⟩
        rw [hset, Option.some.injEq] at hps
        exact hdata _ hb p (mem_cons_of_mem _ (hps ▸ hp))
      rw [hb, Option.some.injEq] at hps
      subst hps
      by_cases hbd : b.data = []
      · -- the page read is the marker: nothing after it is empty
        have hbm := huniq b mem_cons_self hbd
        subst hbm
        refine .inl ⟨by simp [hbd, hme], fun ps hps p hp hpd => ?_⟩
        rw [hset, Option.some.injEq] at hps
        subst hps
        have heq := huniq p (mem_cons_of_mem _ hp) hpd
        have hlt := rel_of_pairwise_cons (hasc _ _ hb) hp
        rw [heq] at hlt
        exact absurd hlt (lt_irrefl _)
      · have hmbs : m ∈ bs := by
          rcases mem_cons.mp hm with rfl | h
          · exact absurd hmd hbd
          · exact h
        exact .inr ⟨by simp [hbd], bs, m, e, hset, hmbs, hmd, hme, rfl,
          fun p hp hpd => huniq p (mem_cons_of_mem _ hp) hpd⟩
    · have hcap : captured n order (some b) c = c := by simp [captured, captureEpc, hlast]
      rw [hcap]
      unfold EpcAhead
      rw [List.getElem?_set_ne hlast]
      exact h

/-- While the size is still ahead, every page that comes before the frontier is within it, so a flush
    decides as it would with the final size. -/
theorem EpcAhead.shouldEmit_eq {c : Option Nat} {heap : List HeapPage} {rest : List (List PageEntry)}
    (h : EpcAhead n final c rest) (hc : Covered pageTagging heap rest)
    (hpop : popMin pageTagging heap = some (top, heap')) {p : PageEntry}
    (hp : p.pageId.toU64 < top.pageId.toU64) : shouldEmit p c = shouldEmit p final := by
  rcases h with ⟨rfl, -⟩ | ⟨rfl, ps, m, e, hps, hm, -, hme, rfl, -⟩
  · rfl
  · have hle := (hc.min_le hpop (.inr ⟨_, ps, m, hps, hm, rfl⟩)).key_le
    have : p.pageId.toU64 ≤ e := by
      simp only [pageTagging] at hle
      omega
    simp [shouldEmit, this]

/-! ## The loop -/

/-- The pages a pending slot and a popped sequence come to, once the final size is known. -/
def emits (final : Option Nat) (pending : Option HeapPage) (ds : List HeapPage) : List PageEntry :=
  ((collapse pageTagging pending ds).map HeapPage.page).filter (fun p => shouldEmit p final)

/-- Between the two states the pages `out` were written: into the buffer, the hash and the count. -/
structure Wrote (st st' : MergeState) (out : List PageEntry) : Prop where
  buf : st'.buf = st.buf ++ pagesBytes out
  hasher : st'.hasher = st.hasher ++ pagesBytes out
  pageCount : st'.pageCount = st.pageCount + out.length

theorem Wrote.nil (st : MergeState) : Wrote st st [] := ⟨by simp, by simp, rfl⟩

theorem Wrote.append {st₁ st₂ : MergeState} {out out' : List PageEntry} (h : Wrote st st₁ out)
    (h' : Wrote st₁ st₂ out') : Wrote st st₂ (out ++ out') where
  buf := by rw [h'.buf, h.buf, pagesBytes_append, append_assoc]
  hasher := by rw [h'.hasher, h.hasher, pagesBytes_append, append_assoc]
  pageCount := by rw [h'.pageCount, h.pageCount, length_append, add_assoc]

/-- A flush writes the page if the size keeps it. -/
theorem flush_wrote (p : HeapPage) (st : MergeState) :
    Wrote st (flush p st) ([p.page].filter fun q => shouldEmit q st.finalEndPageCount) := by
  unfold flush
  split <;> constructor <;> simp_all [emitPage]

/-- A heap page that carries its own page's id, at the merge's id width. -/
def HeapPage.Tagged (size : PageIdSize) (h : HeapPage) : Prop :=
  h.pageId = h.page.pageId ∧ h.pageId.size = size

/-- **The loop invariant.** -/
structure Running (size : PageIdSize) (n : Nat) (final : Option Nat) (st : MergeState) : Prop where
  healthy : st.Healthy
  covered : Covered pageTagging st.heap st.rest
  before : ∀ p, st.pending = some p → ∀ e, e ∈ st.heap ∨ Unread pageTagging st.rest e →
    pageTagging.Le p e
  epc : EpcAhead n final st.finalEndPageCount st.rest
  pendingTagged : ∀ p, st.pending = some p → p.Tagged size
  heapTagged : ∀ e ∈ st.heap, e.Tagged size
  restSize : ∀ ps ∈ st.rest, ∀ p ∈ ps, p.pageId.size = size

theorem pageId_eq_iff {a b : PageId} (h : a.size = b.size) : a = b ↔ a.toU64 = b.toU64 := by
  constructor
  · rintro rfl; rfl
  · intro heq
    cases a <;> cases b <;> simp_all [PageId.size, PageId.toU64, UInt32.toNat_inj, UInt64.toNat_inj]

section

variable (hr : Running size n final st)
include hr

section

variable (hpop : popMin pageTagging st.heap = some (top, heap'))
include hpop

/-- What resolving the popped page does to the output: it becomes the pending page, and a page of a
    smaller id is flushed if the final size keeps it. -/
theorem resolve_spec :
    ∃ st' out, (resolve top { st with heap := heap' }).1 = st' ∧ st'.pending = some top ∧
      st'.finalEndPageCount = st.finalEndPageCount ∧ Wrote st st' out ∧
      ∀ ds, emits final st.pending (top :: ds) = out ++ emits final (some top) ds := by
  have htop : top ∈ st.heap := (popMin_some _ hpop).1.mem_iff.mpr mem_cons_self
  unfold resolve
  cases hp : st.pending with
  | none =>
    refine ⟨_, [], rfl, rfl, rfl, ⟨by simp, by simp, rfl⟩, fun ds => ?_⟩
    simp [emits, collapse]
  | some p =>
    have hle := hr.before p hp top (.inl htop)
    have hsize : p.pageId.size = top.pageId.size :=
      (hr.pendingTagged p hp).2.trans (hr.heapTagged top htop).2.symm
    by_cases heq : p.pageId = top.pageId
    · have hkey : pageTagging.key p = pageTagging.key top := congrArg PageId.toU64 heq
      have hord : p.order ≤ top.order := by
        rcases hle with h | h
        · exact absurd hkey (ne_of_lt h)
        · exact h.2
      simp only [heq, if_true, hord]
      refine ⟨_, [], rfl, rfl, rfl, ⟨by simp, by simp, rfl⟩, fun ds => ?_⟩
      have hord' : pageTagging.order p ≤ pageTagging.order top := hord
      simp [emits, collapse, hkey, hord']
    · have hne : pageTagging.key p ≠ pageTagging.key top := fun h => heq ((pageId_eq_iff hsize).mpr h)
      have hlt : p.pageId.toU64 < top.pageId.toU64 := lt_of_le_of_ne hle.key_le hne
      have hpage : p.page.pageId.toU64 < top.pageId.toU64 := by
        rw [← (hr.pendingTagged p hp).1]; exact hlt
      have hemit := hr.epc.shouldEmit_eq hr.covered hpop hpage
      simp only [if_neg heq]
      have hw := flush_wrote p { st with heap := heap', pending := some p }
      refine ⟨_, _, rfl, rfl, ?_, ⟨hw.buf, hw.hasher, hw.pageCount⟩, fun ds => ?_⟩
      · simp only [flush]; split <;> rfl
      · simp only [emits, collapse, if_neg hne, map_cons, filter_cons, filter_nil, hemit]
        split <;> simp

/-- **One iteration of the loop.** -/
theorem mergeStep_spec
    {a : Option PageEntry} (hnext : next st.rest top.order = (a, rest')) :
    ∃ st' out, mergeStep size n top { st with heap := heap' } = .ok st' ∧ Running size n final st' ∧
      st'.heap = push pageTagging top.order a heap' ∧ st'.rest = rest' ∧ st'.pending = some top ∧ Wrote st st' out ∧
      ∀ ds, emits final st.pending (top :: ds) = out ++ emits final (some top) ds := by
  obtain ⟨st₁, out, rfl, hpend, hepc, hw, hemits⟩ := resolve_spec hr hpop
  obtain ⟨st', hstep, har⟩ :=
    @mergeStep_reads n { st with heap := heap' } top size hr.healthy a rest' hnext
  have htop : top ∈ st.heap := (popMin_some _ hpop).1.mem_iff.mpr mem_cons_self
  have hmem := mem_step (T := pageTagging) hpop hnext
  have hheap' : st'.heap = push pageTagging top.order a heap' := by rw [har.heap, resolve_frame.2.2]
  refine ⟨st', out, hstep, ?_, hheap', har.rest, har.pending.trans hpend,
    ⟨har.buf.trans hw.buf, har.hasher.trans hw.hasher, har.pageCount.trans hw.pageCount⟩, hemits⟩
  exact
    { healthy := har.healthy
      covered := by rw [hheap', har.rest]; exact hr.covered.step hpop hnext
      before := by
        intro p hp e he
        rw [har.pending, hpend, Option.some.injEq] at hp
        subst hp
        rw [hheap', har.rest] at he
        exact hr.covered.min_le hpop ((hmem e).mpr (.inr he))
      epc := by
        rw [har.epc, har.rest, hepc]
        exact hr.epc.read hr.covered.ascending hnext
      pendingTagged := by
        intro p hp
        rw [har.pending, hpend, Option.some.injEq] at hp
        exact hp ▸ hr.heapTagged top htop
      heapTagged := by
        intro e he
        rw [hheap'] at he
        have hold : ∀ e ∈ heap', e.Tagged size := fun e he =>
          hr.heapTagged e ((popMin_some _ hpop).1.mem_iff.mpr (mem_cons_of_mem _ he))
        cases a with
        | none => exact hold e he
        | some b =>
          rcases mem_cons.mp he with rfl | he
          · obtain ⟨bs, hb, -⟩ := next_some hnext
            exact ⟨rfl, hr.restSize _ (mem_of_getElem? hb) b mem_cons_self⟩
          · exact hold e he
      restSize := by
        intro ps hps p hp
        obtain ⟨qs, hqs, hsuf⟩ := mem_next hnext (har.rest ▸ hps)
        exact hr.restSize qs hqs p (hsuf.subset hp) }

end

/-- **The whole loop.** It drains the frontier, and what it has emitted together with the page left
    pending is the collapsed popped sequence under the final size. -/
theorem mergeLoop_spec {fuel : Nat} (hfuel : left st.heap st.rest ≤ fuel) :
    ∃ st' out, mergeLoop size n fuel st = .ok st' ∧ st'.finalEndPageCount = final ∧ Wrote st st' out ∧
      out ++ emits final st'.pending [] =
        emits final st.pending (drain pageTagging fuel st.heap st.rest) := by
  -- with an empty frontier nothing is unread: the final size is captured
  have hdone : ∀ st : MergeState, Running size n final st → st.heap = [] → st.finalEndPageCount = final := by
    intro st hr hheap
    have hcov := hr.covered
    rw [hheap] at hcov
    rcases hr.epc with ⟨h, -⟩ | ⟨-, ps, m, e, hps, hm, -⟩
    · exact h
    · rw [hcov.rest_nil (mem_of_getElem? hps)] at hm
      cases hm
  induction fuel generalizing st with
  | zero =>
    exact ⟨st, [], rfl, hdone st hr (heap_nil_of_left hfuel), .nil st, by simp [drain]⟩
  | succ fuel ih =>
    cases hpop : popMin pageTagging st.heap with
    | none =>
      exact ⟨st, [], by simp [mergeLoop, hpop], hdone st hr ((popMin_eq_none _).mp hpop), .nil st,
        by simp [drain, hpop]⟩
    | some q =>
      obtain ⟨top, heap'⟩ := q
      cases hn : next st.rest top.order with
      | mk a rest' =>
        obtain ⟨st₁, out₁, hstep, hr₁, hheap₁, hrest₁, hpend₁, hw₁, hemits₁⟩ := mergeStep_spec hr hpop hn
        have hleft := left_step (T := pageTagging) hpop hn
        have hfuel₁ : left st₁.heap st₁.rest ≤ fuel := by
          rw [hheap₁, hrest₁]; simp only [pageTagging] at hleft ⊢; omega
        obtain ⟨st', out, hloop, hepc, hw, hemits⟩ := ih hr₁ hfuel₁
        refine ⟨st', out₁ ++ out, by simp only [mergeLoop, hpop, hstep, hloop], hepc, hw₁.append hw, ?_⟩
        rw [append_assoc, hemits, hpend₁, hheap₁, hrest₁, drain_pop (T := pageTagging) fuel hpop hn, hemits₁]
        rfl

end

/-! ## Priming the frontier -/

theorem next_middle {α : Type} {pre : List (List α)} {s : List α} {ss : List (List α)} :
    next (pre ++ s :: ss) pre.length = (s.head?, pre ++ s.tail :: ss) := by
  cases s <;> simp [Lib.KWay.next]

/-- What every read keeps about the captured size and the unread pages. -/
def KeptByReads (n : Nat) (J : Option Nat → List (List PageEntry) → Prop) : Prop :=
  ∀ c rest order a rest', J c rest → Lib.KWay.next rest order = (a, rest') → J (captured n order a c) rest'

/-- Priming reads one page of every source and nothing else. -/
theorem primeFrontier_spec (size : PageIdSize) (n : Nat)
    {J : Option Nat → List (List PageEntry) → Prop} (hJ : KeptByReads n J) (ss : List (List PageEntry)) :
    ∀ (pre : List (List PageEntry)) (st : MergeState), st.rest = pre ++ ss → st.Healthy →
      J st.finalEndPageCount st.rest →
      ∃ st', primeFrontier size n (range' pre.length ss.length) st = .ok st' ∧ st'.Healthy ∧
        st'.heap.Perm (prime pageTagging pre.length ss ++ st.heap) ∧ st'.rest = pre ++ ss.map List.tail ∧
        J st'.finalEndPageCount st'.rest ∧ st'.pending = st.pending ∧ st'.buf = st.buf ∧
        st'.hasher = st.hasher ∧ st'.pageCount = st.pageCount ∧ st'.fed size = st.fed size ∧
        st'.sourceHashers.length = st.sourceHashers.length := by
  induction ss with
  | nil =>
    intro pre st hrest hh hj
    exact ⟨st, rfl, hh, by simp [prime], by simpa using hrest, hj, rfl, rfl, rfl, rfl, rfl, rfl⟩
  | cons s ss ih =>
    intro pre st hrest hh hj
    have hnext : next st.rest pre.length = (s.head?, pre ++ s.tail :: ss) := by
      rw [hrest]; exact next_middle
    obtain ⟨st₁, hread, har⟩ := readNext_spec size n hh hnext
    have hlen : (pre ++ [s.tail]).length = pre.length + 1 := by simp
    obtain ⟨st', hprime, hh', hheap, hrest', hj', hpend, hbuf, hhash, hcount, hfed, hshl⟩ :=
      ih (pre ++ [s.tail]) st₁ (by rw [har.rest]; simp) har.healthy
        (by rw [har.epc, har.rest]; exact hJ _ _ _ _ _ hj hnext)
    rw [hlen] at hprime hheap
    refine ⟨st', ?_, hh', ?_, by rw [hrest']; simp, hj', by rw [hpend, har.pending],
      by rw [hbuf, har.buf], by rw [hhash, har.hasher], by rw [hcount, har.pageCount],
      by rw [hfed, har.fed], by rw [hshl, har.hashers]⟩
    · simp only [length_cons, List.range'_succ, primeFrontier, hread, hprime]
    · rw [har.heap] at hheap
      cases s with
      | nil => exact hheap
      | cons a as =>
        -- the page just read was pushed first, `prime` lists it first
        exact hheap.trans perm_middle

/-- Reads keep the final size ahead and the unread pages ascending. -/
theorem epcAhead_keptByReads :
    KeptByReads n fun c rest => EpcAhead n final c rest ∧
      ∀ (i : ℕ) (ps : List PageEntry), rest[i]? = some ps → AscendingIds ps := by
  rintro c rest order a rest' ⟨hepc, hasc⟩ hnext
  refine ⟨hepc.read hasc hnext, fun i ps hps => ?_⟩
  obtain ⟨qs, hqs, hsuf⟩ := mem_next hnext (mem_of_getElem? hps)
  obtain ⟨j, hj⟩ := mem_iff_getElem?.mp hqs
  exact (hasc j qs hj).sublist hsuf.sublist

/-- What each source's hasher has been fed at the end: its `prev` and its pages. -/
def fedSources (size : PageIdSize) (sources : List MergeInput) (ss : List (List PageEntry)) : List Bytes :=
  List.zipWith (fun s ps => beBytes 8 s.header.prevChecksum.toNat ++ ps.flatMap (hashSourcePage size))
    sources ss

/-- **The state the loop starts from**: one page of every source in the frontier, nothing written. -/
structure Primed (size : PageIdSize) (sources : List MergeInput) (ss : List (List PageEntry)) (header : Bytes)
    (prev : UInt64) (st : MergeState) : Prop where
  healthy : st.Healthy
  heap : st.heap.Perm (prime pageTagging 0 ss)
  rest : st.rest = ss.map List.tail
  covered : Covered pageTagging st.heap st.rest
  fuel : left st.heap st.rest ≤ (sources.map fun s => s.stream.pages.length).sum
  pending : st.pending = none
  buf : st.buf = header
  hasher : st.hasher = beBytes 8 prev.toNat
  pageCount : st.pageCount = 0
  fed : st.fed size = fedSources size sources ss
  hashers : st.sourceHashers.length = st.rest.length

theorem primeFrontier_primed {size : PageIdSize} {sources : List MergeInput} (header : Bytes) (prev : UInt64)
    (tracker : PeakPages) {J : Option Nat → List (List PageEntry) → Prop} (hJ : KeptByReads sources.length J)
    (hss : sources.map (fun s => s.stream.pages) = ss) (hfault : ∀ s ∈ sources, s.stream.fault = none)
    (hasc : ∀ ps ∈ ss, AscendingIds ps) (hj : J none ss) :
    ∃ st, primeFrontier size sources.length (range sources.length)
        (initialState sources header prev tracker) = .ok st ∧
      Primed size sources ss header prev st ∧ J st.finalEndPageCount st.rest := by
  have hrest : (initialState sources header prev tracker).rest = [] ++ ss := by
    simp [rest, initialState, ← hss]
  have hh : (initialState sources header prev tracker).Healthy := by
    intro s hs
    simp only [initialState, mem_map] at hs
    obtain ⟨src, hsrc, rfl⟩ := hs
    exact hfault src hsrc
  have hslen : ss.length = sources.length := by rw [← hss]; simp
  have hsum : (sources.map fun s => s.stream.pages.length).sum = (ss.map List.length).sum := by
    rw [← hss, map_map]; rfl
  obtain ⟨st, hprime, hh', hheap, hrest', hj', hpend, hbuf, hhash, hcount, hfed, hshl⟩ :=
    primeFrontier_spec size sources.length hJ ss [] _ hrest hh (hrest ▸ hj)
  simp only [length_nil, hslen, ← range_eq_range'] at hprime hheap hrest'
  have hheap₀ : st.heap.Perm (prime pageTagging 0 ss) := by simpa [initialState] using hheap
  refine ⟨st, hprime, ⟨hh', hheap₀, hrest', ?_, ?_, hpend, hbuf, hhash, hcount, ?_, ?_⟩, hj'⟩
  · rw [hrest']
    exact covered_prime hasc fun e he => hheap₀.mem_iff.mpr he
  · rw [hsum, hrest', left, hheap₀.length_eq]
    exact le_of_eq (left_prime (T := pageTagging) 0 ss)
  · rw [hfed, fed, hrest]
    simp [initialState, fedSources, zipWith_map_left]
  · rw [hshl, hrest']
    simp [initialState, hslen]

theorem Primed.running {header : Bytes} {prev : UInt64} (h : Primed size sources ss header prev st)
    (hsize : ∀ ps ∈ ss, ∀ p ∈ ps, p.pageId.size = size)
    (hepc : EpcAhead n final st.finalEndPageCount st.rest) : Running size n final st where
  healthy := h.healthy
  covered := h.covered
  before := by intro p hp; rw [h.pending] at hp; cases hp
  epc := hepc
  pendingTagged := by intro p hp; rw [h.pending] at hp; cases hp
  heapTagged := by
    intro e he
    obtain ⟨i, s, a, hs, ha, rfl⟩ := mem_prime_or_unread.mp (.inl (h.heap.mem_iff.mp he))
    exact ⟨rfl, hsize s (mem_of_getElem? hs) a ha⟩
  restSize := by
    intro ps hps p hp
    rw [h.rest, mem_map] at hps
    obtain ⟨s, hs, rfl⟩ := hps
    exact hsize s hs p (mem_of_mem_tail hp)

/-! ## The merged object -/

/-- The canonical marker for the final size, if there is one. -/
def markerPages (size : PageIdSize) : Option Nat → List PageEntry
  | none => []
  | some epc => [markerPage size epc]

/-- The flag byte of the merged header. -/
def mergedFlags : Option Nat → UInt8
  | none => 0
  | some _ => Ltx.flagEndPageCountMarker

/-- The changeset a merge writes: linked from the first source's `prev` to the last chain end. -/
def mergedChangeset (sha64 : Bytes → UInt64) (createdMs : Int64) (size : PageIdSize) (pageSize : UInt32)
    (seq prev declaredEnd : UInt64) (final : Option Nat) (pages : List PageEntry) : PhysicalChangeset where
  header :=
    { flags := mergedFlags final
      pageIdSize := size
      pageSize := pageSize
      seq := seq
      prevChecksum := prev
      pageCount := UInt32.ofNat (pages ++ markerPages size final).length
      createdMs := createdMs }
  declaredEndChecksum := some declaredEnd
  pages := pages ++ markerPages size final
  checksum := computeChecksum sha64 prev (pages ++ markerPages size final)

/-- The flags byte of a header can be set without touching anything else. -/
theorem set_flags (f : UInt8) (w : UInt8) (tail : Bytes) :
    (magic ++ [2, f, w] ++ tail).set flagsOff
      ((magic ++ [2, f, w] ++ tail).getD flagsOff 0 ||| Ltx.flagEndPageCountMarker) =
      magic ++ [2, f ||| Ltx.flagEndPageCountMarker, w] ++ tail := rfl

/-- Flushing the pending page completes the pages the loop emitted. -/
theorem flushPending_spec (hepc : st.finalEndPageCount = final) :
    (flushPending st).finalEndPageCount = final ∧ Wrote st (flushPending st) (emits final st.pending []) := by
  unfold flushPending
  cases hp : st.pending with
  | none => exact ⟨hepc, .nil st⟩
  | some p =>
    have hw := flush_wrote p st
    rw [hepc] at hw
    refine ⟨?_, hw.buf, hw.hasher, hw.pageCount⟩
    unfold flush
    dsimp only
    split <;> exact hepc

/-- The marker follows the pages, and its bit is set in the header. -/
theorem emitMarker_spec (size : PageIdSize) {w : UInt8} {tail hfront : Bytes} {pages : List PageEntry}
    (hepc : st.finalEndPageCount = final) (hbuf : st.buf = magic ++ [2, 0x80, w] ++ tail ++ pagesBytes pages)
    (hhash : st.hasher = hfront ++ pagesBytes pages) (hcount : st.pageCount = pages.length) :
    (emitMarker size st).buf = magic ++ [2, mergedFlags final ||| flagCompacted, w] ++
        (tail ++ pagesBytes (pages ++ markerPages size final)) ∧
      (emitMarker size st).hasher = hfront ++ pagesBytes (pages ++ markerPages size final) ∧
      (emitMarker size st).pageCount = (pages ++ markerPages size final).length := by
  unfold emitMarker
  cases final with
  | none =>
    simp only [hepc, markerPages, append_nil]
    exact ⟨by rw [hbuf]; rfl, hhash, hcount⟩
  | some e =>
    simp only [hepc, markerPages, mergedFlags]
    refine ⟨?_, by simp [emitPage, hhash], by simp [hcount]⟩
    have hemit : st.buf ++ (markerPage size e).bytes =
        magic ++ [2, 0x80, w] ++ (tail ++ pagesBytes (pages ++ [markerPage size e])) := by
      rw [hbuf]; simp
    simp only [emitPage, hemit, set_flags]
    rfl

/-- Patching the two placeholders gives the wire form of the merged header. -/
theorem patch_placeholders (w f : UInt8) (h : PhysicalHeader) (hw : w = UInt8.ofNat h.pageIdSize.width)
    (count : Nat) (hcount : h.pageCount = UInt32.ofNat count) (declared : UInt64) (body : Bytes) :
    writeAt (writeAt (magic ++ [2, f, w] ++ ((beBytes 4 h.pageSize.toNat ++ beBytes 8 h.seq.toNat ++
        beBytes 8 h.prevChecksum.toNat ++ beBytes 4 0 ++ beBytes 8 h.createdMs.toUInt64.toNat ++
        beBytes 8 0) ++ body)) pageCountOff (beBytes 4 count)) declaredOff (beBytes 8 declared.toNat) =
      headerBytes versionV2 f h ++ beBytes 8 declared.toNat ++ body := by
  have hne : ∀ n, beBytes 4 n ≠ [] := fun n hnil => by simpa using congrArg List.length hnil
  have hne' : ∀ n, beBytes 8 n ≠ [] := fun n hnil => by simpa using congrArg List.length hnil
  have hcount' : beBytes 4 h.pageCount.toNat = beBytes 4 count := by
    rw [hcount]
    exact beBytes_mod (W := 4) (le_refl 4) count
  have h₁ := writeAt_field (magic ++ [2, f, w] ++ beBytes 4 h.pageSize.toNat ++ beBytes 8 h.seq.toNat ++
      beBytes 8 h.prevChecksum.toNat) (beBytes 4 0) (beBytes 4 count)
    (beBytes 8 h.createdMs.toUInt64.toNat ++ (beBytes 8 0 ++ body)) pageCountOff
    (by simp [magic, pageCountOff]) (by simp) (hne _)
  have h₂ := writeAt_field (magic ++ [2, f, w] ++ beBytes 4 h.pageSize.toNat ++ beBytes 8 h.seq.toNat ++
      beBytes 8 h.prevChecksum.toNat ++ beBytes 4 count ++ beBytes 8 h.createdMs.toUInt64.toNat)
    (beBytes 8 0) (beBytes 8 declared.toNat) body declaredOff
    (by simp [magic, declaredOff]) (by simp) (hne' _)
  simp only [append_assoc] at h₁ h₂ ⊢
  rw [h₁, h₂]
  simp only [headerBytes, hcount', hw]
  rfl

/-! ## The merge as a whole -/

/-- **Mergeable sources**: what the engine hands to the merge once every object has read back well. The
    sources agree on geometry, their streams are the given ascending page lists at the common id width,
    and the last one declares the final size. -/
structure Mergeable (first : MergeInput) (rest : List MergeInput) (ss : List (List PageEntry))
    (final : Option Nat) : Prop where
  streams : (first :: rest).map (fun s => s.stream.pages) = ss
  healthy : ∀ s ∈ first :: rest, s.stream.fault = none
  geometry : ∀ s ∈ first :: rest,
    s.header.pageIdSize = first.header.pageIdSize ∧ s.header.pageSize = first.header.pageSize
  ascending : ∀ ps ∈ ss, AscendingIds ps
  idSize : ∀ ps ∈ ss, ∀ p ∈ ps, p.pageId.size = first.header.pageIdSize
  final : EpcAhead (first :: rest).length final none ss

/-- The chain ends of the sources: declared, or the checksum of all their pages. -/
def chainEndsOf (sha64 : Bytes → UInt64) (size : PageIdSize) (sources : List MergeInput) : List UInt64 :=
  sources.map (fun s => s.header.declaredEndChecksum.getD
    (sha64 (beBytes 8 s.header.prevChecksum.toNat ++ s.stream.pages.flatMap (hashSourcePage size))))

/-- The streaming part writes the collapsed popped sequence of all pages, and the marker, after the
    header. -/
theorem streamPages_spec {first : MergeInput} {rest : List MergeInput} (hm : Mergeable first rest ss final)
    (w : UInt8) (tail : Bytes) (prev : UInt64) (tracker : PeakPages) :
    ∃ ds st, Popped pageTagging ss ds ∧
      streamPages first.header.pageIdSize (magic ++ [2, 0x80, w] ++ tail) prev (first :: rest) tracker =
        .ok st ∧
      st.buf = magic ++ [2, mergedFlags final ||| flagCompacted, w] ++
        (tail ++ pagesBytes (emits final none ds ++ markerPages first.header.pageIdSize final)) ∧
      st.hasher = beBytes 8 prev.toNat ++
        pagesBytes (emits final none ds ++ markerPages first.header.pageIdSize final) ∧
      st.pageCount = (emits final none ds ++ markerPages first.header.pageIdSize final).length := by
  obtain ⟨st, hprime, hp, hepc, -⟩ :=
    primeFrontier_primed (magic ++ [2, 0x80, w] ++ tail) prev tracker epcAhead_keptByReads hm.streams
      hm.healthy hm.ascending ⟨hm.final, fun i ps hps => hm.ascending ps (mem_of_getElem? hps)⟩
  have hfuel : ((first :: rest).map (fun s => s.stream.pages.length)).sum = (ss.map List.length).sum := by
    rw [← hm.streams, map_map]; rfl
  obtain ⟨st₁, out, hloop, hepc₁, hw₁, hout⟩ := mergeLoop_spec (hp.running hm.idSize hepc) hp.fuel
  rw [hp.pending, hp.rest] at hout
  obtain ⟨hepc₂, hw₂⟩ := flushPending_spec hepc₁
  have hw := hw₁.append hw₂
  rw [hout] at hw
  obtain ⟨hbuf₃, hhash₃, hcount₃⟩ := emitMarker_spec first.header.pageIdSize hepc₂ (by rw [hw.buf, hp.buf])
    (by rw [hw.hasher, hp.hasher]) (by rw [hw.pageCount, hp.pageCount, zero_add])
  refine ⟨_, _, popped_drain (T := pageTagging) hm.ascending (le_of_eq hfuel.symm) hp.heap, ?_, hbuf₃,
    hhash₃, hcount₃⟩
  simp only [streamPages, hprime, hloop]

/-- It hashes every source to its end, whatever it emits. -/
theorem streamPages_hashes (size : PageIdSize) (header : Bytes) (prev : UInt64) (tracker : PeakPages)
    (hss : sources.map (fun s => s.stream.pages) = ss) (hfault : ∀ s ∈ sources, s.stream.fault = none)
    (hasc : ∀ ps ∈ ss, AscendingIds ps) :
    ∃ st, streamPages size header prev sources tracker = .ok st ∧
      st.sourceHashers = fedSources size sources ss := by
  obtain ⟨st, hprime, hp, -⟩ := @primeFrontier_primed ss size sources header prev tracker (fun _ _ => True)
    (fun _ _ _ _ _ _ _ => trivial) hss hfault hasc trivial
  obtain ⟨st', hloop, hdone⟩ := @mergeLoop_reads sources.length st size _ hp.healthy hp.covered hp.fuel hp.hashers
  refine ⟨emitMarker size (flushPending st'), by simp only [streamPages, hprime, hloop], ?_⟩
  -- flushing and the marker write to the output only
  have hflush : (flushPending st').sourceHashers = st'.sourceHashers := by
    unfold flushPending
    cases st'.pending with
    | none => rfl
    | some p =>
      unfold flush emitPage
      dsimp only
      split <;> rfl
  rw [← hp.fed, ← hdone, ← hflush]
  unfold emitMarker
  cases (flushPending st').finalEndPageCount <;> rfl

/-- **What the merge computes.** On mergeable sources it fails only on a broken chain, and otherwise
    writes the collapsed popped sequence of all their pages as one changeset. -/
theorem mergeChangesets_eq (sha64 : Bytes → UInt64) (createdMs : Int64) {first : MergeInput}
    {rest : List MergeInput} (hm : Mergeable first rest ss final) (tracker : PeakPages) :
    ∃ ds tracker', Popped pageTagging ss ds ∧
      mergeChangesets sha64 createdMs (first :: rest) tracker =
        match checkContiguous ((chainEndsOf sha64 first.header.pageIdSize (first :: rest)).headD 0) 1
          (rest.zip (chainEndsOf sha64 first.header.pageIdSize (first :: rest)).tail) with
        | .error e => .error e
        | .ok () => .ok
          ({ bytes := (mergedChangeset sha64 createdMs first.header.pageIdSize first.header.pageSize
               (lastSeq first rest) first.header.prevChecksum
               ((chainEndsOf sha64 first.header.pageIdSize (first :: rest)).getLastD 0) final
               (emits final none ds)).wire
             range := outRange first rest
             outSeq := lastSeq first rest
             prevChecksum := first.header.prevChecksum
             declaredEndChecksum := (chainEndsOf sha64 first.header.pageIdSize (first :: rest)).getLastD 0
             pageCount := (emits final none ds ++ markerPages first.header.pageIdSize final).length },
            tracker') := by
  have hgeom : (first :: rest).find? (fun s => s.header.pageIdSize ≠ first.header.pageIdSize ∨
      s.header.pageSize ≠ first.header.pageSize) = none := by
    rw [List.find?_eq_none]
    intro s hs
    simp [hm.geometry s hs]
  obtain ⟨tail, htail⟩ : ∃ tail, tail = beBytes 4 first.header.pageSize.toNat ++
    beBytes 8 (lastSeq first rest).toNat ++ beBytes 8 first.header.prevChecksum.toNat ++ beBytes 4 0 ++
    beBytes 8 createdMs.toUInt64.toNat ++ beBytes 8 0 := ⟨_, rfl⟩
  obtain ⟨ds, st, hpop, hstream, hbuf, hhash, hcount⟩ := streamPages_spec hm
    (UInt8.ofNat first.header.pageIdSize.width) tail first.header.prevChecksum tracker
  have hhead : placeholderHeader first.header.pageIdSize first.header.pageSize (lastSeq first rest)
      first.header.prevChecksum createdMs =
        magic ++ [2, 0x80, UInt8.ofNat first.header.pageIdSize.width] ++ tail := by
    simp only [placeholderHeader, htail, append_assoc]
  have hends : sourceChainEnds sha64 (first :: rest) st.sourceHashers =
      chainEndsOf sha64 first.header.pageIdSize (first :: rest) := by
    obtain ⟨st', hstream', hsh⟩ := streamPages_hashes _ _ _ tracker hm.streams hm.healthy hm.ascending
    rw [Except.ok.inj (hstream.symm.trans hstream'), hsh, ← hm.streams, sourceChainEnds, chainEndsOf, fedSources]
    simp [zipWith_map_right, zip_eq_zipWith]
  refine ⟨ds, st.tracker, hpop, ?_⟩
  simp only [mergeChangesets, hgeom, hhead, hstream, sealMerged, hends]
  generalize chainEndsOf sha64 first.header.pageIdSize (first :: rest) = ends
  cases checkContiguous (ends.headD 0) 1 (rest.zip ends.tail) with
  | error e => rfl
  | ok u =>
    simp only [hbuf, hhash, hcount, htail]
    have hpatch := patch_placeholders (UInt8.ofNat first.header.pageIdSize.width)
      (mergedFlags final ||| flagCompacted)
      (mergedChangeset sha64 createdMs first.header.pageIdSize first.header.pageSize (lastSeq first rest)
        first.header.prevChecksum (ends.getLastD 0) final (emits final none ds)).header rfl
      (emits final none ds ++ markerPages first.header.pageIdSize final).length rfl (ends.getLastD 0)
      (pagesBytes (emits final none ds ++ markerPages first.header.pageIdSize final) ++
        beBytes 8 (sha64 (beBytes 8 first.header.prevChecksum.toNat ++
          pagesBytes (emits final none ds ++ markerPages first.header.pageIdSize final))).toNat)
    simp only [mergedChangeset, PhysicalChangeset.wire, computeChecksum, append_assoc] at hpatch ⊢
    rw [hpatch]

/-! ## What the merge does not look at -/

/-- The input without what the merge does not look at. -/
def MergeInput.uncounted (s : MergeInput) : MergeInput :=
  { s with header := { s.header with pageCount := 0, createdMs := 0 } }

theorem lastSeq_uncounted (first : MergeInput) (rest : List MergeInput) :
    lastSeq first.uncounted (rest.map uncounted) = lastSeq first rest := by
  have hmap : first.uncounted :: rest.map uncounted = (first :: rest).map uncounted := rfl
  simp only [lastSeq, hmap, getLast_map]
  rfl

theorem streamPages_uncounted (size : PageIdSize) (header : Bytes) (prev : UInt64) (sources : List MergeInput)
    (tracker : PeakPages) :
    streamPages size header prev (sources.map uncounted) tracker =
      streamPages size header prev sources tracker := by
  have hinit : initialState (sources.map uncounted) header prev tracker =
      initialState sources header prev tracker := by
    simp only [initialState, map_map]
    rfl
  simp only [streamPages, hinit, length_map, map_map]
  rfl

theorem sealMerged_uncounted (sha64 : Bytes → UInt64) (first : MergeInput) (rest : List MergeInput) (st : MergeState) :
    sealMerged sha64 first.uncounted (rest.map uncounted) st = sealMerged sha64 first rest st := by
  have hends : ∀ (sources : List MergeInput) (hashers : List Bytes),
      sourceChainEnds sha64 (sources.map uncounted) hashers = sourceChainEnds sha64 sources hashers := by
    intro sources hashers
    simp only [sourceChainEnds, zip_map_left, map_map]
    rfl
  have hcheck : ∀ (sources : List MergeInput) (ends : List UInt64) (v : UInt64) (i : Nat),
      checkContiguous v i ((sources.map uncounted).zip ends) = checkContiguous v i (sources.zip ends) := by
    intro sources
    induction sources with
    | nil => intro ends v i; rfl
    | cons s sources ih =>
      intro ends v i
      cases ends with
      | nil => rfl
      | cons e ends =>
        simp only [map_cons, zip_cons_cons, checkContiguous, ih]
        rfl
  have hrange : outRange first.uncounted (rest.map uncounted) = outRange first rest := by
    simp only [outRange, foldl_map]
    rfl
  have hsources : first.uncounted :: rest.map uncounted = (first :: rest).map uncounted := rfl
  simp only [sealMerged, hsources, hends, hcheck, hrange, lastSeq_uncounted]
  rfl

/-- **The merge reads of a source's header the geometry and the chain only**: not its page count, not its clock. -/
theorem mergeChangesets_uncounted (sha64 : Bytes → UInt64) (createdMs : Int64) (sources : List MergeInput)
    (tracker : PeakPages) :
    mergeChangesets sha64 createdMs (sources.map uncounted) tracker =
      mergeChangesets sha64 createdMs sources tracker := by
  cases sources with
  | nil => rfl
  | cons first rest =>
    have hfind : ((first :: rest).map uncounted).find? (fun s =>
        s.header.pageIdSize ≠ first.header.pageIdSize ∨ s.header.pageSize ≠ first.header.pageSize) =
        ((first :: rest).find? fun s => s.header.pageIdSize ≠ first.header.pageIdSize ∨
          s.header.pageSize ≠ first.header.pageSize).map uncounted := by
      rw [List.find?_map]
      rfl
    rw [map_cons, mergeChangesets, mergeChangesets, ← map_cons]
    rw [show (uncounted first).header.pageIdSize = first.header.pageIdSize from rfl,
      show (uncounted first).header.pageSize = first.header.pageSize from rfl, hfind,
      lastSeq_uncounted]
    dsimp only
    rw [streamPages_uncounted]
    cases (first :: rest).find? fun s => s.header.pageIdSize ≠ first.header.pageIdSize ∨
        s.header.pageSize ≠ first.header.pageSize with
    | some s => rfl
    | none =>
      simp only [sealMerged_uncounted]
      rfl

end Compaction
end Walrust
