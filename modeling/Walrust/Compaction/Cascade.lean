import Walrust.Compaction.Stock
import Walrust.Ltx.Codec

/-!
# `Walrust.Compaction.Cascade` — merged objects as sources of further merges

The bytes a merge writes are the HADBP encoding of one changeset: the last writers of the sources within the final
size, then the marker. Both readers of such an object accept them. A merged object stands for the sources it was made
of: merging it with its neighbours gives what merging all of them at once gives, however the chain is cut and however
often.

* `MergedPages`, `merge_canonical` — the merged object;
* `Grows`, `lastEntry_grown` — a chain in which growth is written leaves no marker among its last writers;
* `Stands` — what a merged object keeps of its sources; `Stands.merge` — a merge of such objects keeps it;
* `Folds`, `folds_merge_alike` — consecutive groups merged one after another.
-/

namespace Walrust
namespace Compaction

open Hadbp Lib.Bytes Lib.KWay Ltx List

variable {createdMs : Int64} {e k : Nat} {p : PageEntry} {pageSize : UInt32} {ps : List PageEntry}
  {css objs : List PhysicalChangeset} {cs last : PhysicalChangeset} {sha64 : Bytes → UInt64}
  {groups : List (List PhysicalChangeset)}

/-! ## The merged object -/

/-- The pages of a merge: in order, the last writers that survive, and behind them the marker. -/
structure MergedPages (css : List PhysicalChangeset) (final : Option Nat) (pages : List PageEntry) : Prop where
  ascending : AscendingIds pages
  mem : ∀ p, p ∈ pages ↔ Survives css final p ∨ ∃ e, final = some e ∧ p = markerPage .u32 e
  marker : ∀ e, final = some e → pages.getLast? = some (markerPage .u32 e) ∧
    ∀ p ∈ pages, p.pageId.toU64 ≤ (markerPage .u32 e).pageId.toU64

theorem mergedWith_pages {seq prev declared : UInt64} {ds : List HeapPage} {final : Option Nat}
    (hsrc : ∀ cs ∈ css, SqliteSource pageSize cs)
    (hpop : Popped pageTagging (css.map PhysicalChangeset.pages) ds)
    (hfits : ∀ e, final = some e → e + 1 < 2 ^ 32) :
    MergedPages css final (mergedWith sha64 createdMs pageSize seq prev declared final ds).pages where
  ascending := mergedWith_ascending hsrc hpop hfits
  mem := fun p => mem_mergedWith hsrc hpop
  marker := by
    rintro e rfl
    constructor
    · exact List.getLast?_concat
    · intro p hp
      rcases (mem_mergedWith hsrc hpop).mp hp with ⟨-, -, hle⟩ | ⟨_, ⟨⟩, rfl⟩
      · rw [markerPage_toU64 (hfits e rfl)]
        exact Nat.le_succ_of_le (hle e rfl)
      · exact le_rfl

/-- What a merge of valid sources returns. -/
theorem mergeChangesets_sqlite {first : MergeInput} {rest : List MergeInput} {tracker tracker' : PeakPages}
    {res : MergeResult} {final : Option Nat} (hof : Forall₂ SourceOf (first :: rest) css)
    (hsrc : ∀ cs ∈ css, SqliteSource pageSize cs) (hlast : css.getLast? = some last) (hv : Valid last final)
    (hmerge : mergeChangesets sha64 createdMs (first :: rest) tracker = .ok (res, tracker')) :
    ∃ ds seq, Popped pageTagging (css.map PhysicalChangeset.pages) ds ∧
      res.bytes = (mergedWith sha64 createdMs pageSize seq res.prevChecksum res.declaredEndChecksum final ds).wire ∧
      res.pageCount =
        (mergedWith sha64 createdMs pageSize seq res.prevChecksum res.declaredEndChecksum final ds).pages.length := by
  obtain ⟨hm, hsize, hpage⟩ := mergeable_of_sources hof hsrc hlast hv
  obtain ⟨ds, t, hpop, heq⟩ := mergeChangesets_eq sha64 createdMs hm tracker
  rw [hsize, hpage] at heq
  rw [heq] at hmerge
  split at hmerge
  · cases hmerge
  cases hmerge
  exact ⟨ds, _, hpop, rfl, rfl⟩

/-- **The streaming encoder is canonical.** What a merge of valid sources writes is the encoding of their merged
    pages, counted and hashed; the engine's check and the SQLite decoder accept it and find what the merge reports. -/
theorem merge_canonical (env : Env) (tracker tracker' : PeakPages) (inputs : List MergeInput)
    (css : List PhysicalChangeset) (res : MergeResult) (hsource : Forall₂ SourceOf inputs css)
    (hvalid : ∀ cs ∈ css, validateSqliteChangeset cs = .ok ()) (hascending : ∀ cs ∈ css, AscendingIds cs.pages)
    (hmerge : mergeChangesets env.ph.sha64 env.createdMs inputs tracker = .ok (res, tracker')) :
    ∃ cs last final, css.getLast? = some last ∧ changesetEndPageCount last = .ok final ∧
      res.bytes = cs.wire ∧ cs.isCompacted = true ∧ MergedPages css final cs.pages ∧
      cs.header.pageCount.toNat = cs.pages.length ∧
      cs.checksum = computeChecksum env.ph.sha64 cs.header.prevChecksum cs.pages ∧
      verifyMergedBytes env res.bytes res.prevChecksum res.declaredEndChecksum res.pageCount = .ok cs ∧
      decodeSqliteChangeset env.ph res.bytes = .ok cs ∧ cs.header.prevChecksum = res.prevChecksum ∧
      cs.declaredEndChecksum = some res.declaredEndChecksum ∧ cs.pages.length = res.pageCount := by
  cases hsource with
  | nil => simp [mergeChangesets] at hmerge
  | @cons first cs₀ rest css' hfirst hrest =>
    have hof : Forall₂ SourceOf (first :: rest) (cs₀ :: css') := .cons hfirst hrest
    have hsrc := sqliteSource_of_merge hof hvalid hascending hmerge
    obtain ⟨last, hlast⟩ : ∃ last, (cs₀ :: css').getLast? = some last :=
      ⟨_, getLast?_eq_some_getLast (cons_ne_nil _ _)⟩
    have hlmem := mem_of_getLast? hlast
    obtain ⟨final, hv⟩ := (hsrc last hlmem).valid
    have hfits := (hsrc last hlmem).fits hv
    have hps : ValidSize first.header.pageSize := by
      rw [← (hsrc last hlmem).pageSize]
      exact hv.pageSize
    obtain ⟨ds, seq, hpop, hbytes, hcount⟩ := mergeChangesets_sqlite hof hsrc hlast hv hmerge
    obtain ⟨cs, hcs⟩ : ∃ cs, cs = mergedWith env.ph.sha64 env.createdMs first.header.pageSize seq res.prevChecksum
      res.declaredEndChecksum final ds := ⟨_, rfl⟩
    have hwf : cs.WellFormed env.ph.sha64 := hcs ▸ mergedWith_wellFormed hsrc hpop hfits hps
    have hcv : Valid cs final := hcs ▸ mergedWith_valid hsrc hpop hfits hps
    rw [← hcs] at hbytes hcount
    have hprev : cs.header.prevChecksum = res.prevChecksum := by rw [hcs]; rfl
    have hdecl : cs.declaredEndChecksum = some res.declaredEndChecksum := by rw [hcs]; rfl
    have hcompact : cs.isCompacted = true := by rw [PhysicalChangeset.isCompacted, hdecl]; rfl
    have hpages : cs.header.pageCount = UInt32.ofNat res.pageCount := by
      rw [hcount, ← hwf.pageCount, UInt32.ofNat_toNat]
    refine ⟨cs, last, final, hlast, hv.marker, hbytes, hcompact, hcs ▸ mergedWith_pages hsrc hpop hfits,
      hwf.pageCount, hwf.checksum, ?_, ?_, hprev, hdecl, hcount.symm⟩
    · rw [hbytes]
      refine verifyMergedBytes_eq_ok.mpr ⟨env.ph.decode_wire cs hwf, hcompact, hprev, ?_, hpages, by rw [hcount]⟩
      rw [chainEnd, hdecl]
      rfl
    · rw [hbytes]
      exact decodeSqliteChangeset_wire hwf hcv

/-- The growing chain's merged object. -/
theorem merge_canonical_growingChain : ∃ env res tracker' cs final,
    mergeChangesets env.ph.sha64 env.createdMs growingInputs ⟨0, 0⟩ = .ok (res, tracker') ∧
      res.bytes = cs.wire ∧ MergedPages growingChain final cs.pages ∧
      verifyMergedBytes env res.bytes res.prevChecksum res.declaredEndChecksum res.pageCount = .ok cs ∧
      decodeSqliteChangeset env.ph res.bytes = .ok cs := by
  obtain ⟨⟨res, tracker'⟩, hmerge⟩ := growingInputs_merge 0
  obtain ⟨cs, last, final, -, -, hbytes, -, hpages, -, -, hverify, hdecode, -⟩ :=
    merge_canonical { foldEnv with ph := physicalOf growingSha64 } ⟨0, 0⟩ tracker' growingInputs growingChain res
      growingInputs_source (fun cs hcs => (growingChain_valid hcs).1) (fun cs hcs => (growingChain_valid hcs).2.1)
      hmerge
  exact ⟨{ foldEnv with ph := physicalOf growingSha64 }, res, tracker', cs, final, hmerge, hbytes, hpages, hverify,
    hdecode⟩

/-! ## Growth and last writers -/

/-- `b` writes every page by which it makes the database larger than `a` left it. -/
def Grows (a b : PhysicalChangeset) : Prop :=
  ∀ e e', changesetEndPageCount a = .ok (some e) → changesetEndPageCount b = .ok (some e') →
    ∀ k, e < k → k ≤ e' → ∃ p ∈ b.pages, p.data ≠ [] ∧ p.pageId.toU64 = k

/-- A source of a cascade: valid, declaring a size, in canonical order. -/
structure Sized (cs : PhysicalChangeset) : Prop where
  sqlite : SqliteSource cs.header.pageSize cs
  size : ∃ e, Valid cs (some e)

theorem Sized.goodSource (h : Sized cs) (hps : cs.header.pageSize = pageSize) : GoodSource pageSize.toNat cs :=
  ⟨h.size, h.sqlite.ascending, h.sqlite.small, by rw [hps]⟩

theorem size_unique {e' : Nat} (h : Valid cs (some e)) (h' : changesetEndPageCount cs = .ok (some e')) : e = e' := by
  have := h.marker.symm.trans h'
  injection this with this
  injection this

theorem entry_of_mem (hasc : AscendingIds ps) (hp : p ∈ ps) :
    entry ps p.pageId.toU64 = some p := by
  cases hentry : entry ps p.pageId.toU64 with
  | none =>
    have := List.find?_eq_none.mp hentry p hp
    simp at this
  | some q =>
    have hid : q.pageId.toU64 = p.pageId.toU64 := by simpa using List.find?_some hentry
    rw [eq_of_itemKey_eq (T := pageTagging) hasc (List.mem_of_find?_eq_some hentry) hp hid]

theorem mem_of_entry (h : entry ps k = some p) :
    p ∈ ps ∧ p.pageId.toU64 = k :=
  ⟨List.mem_of_find?_eq_some h, by simpa using List.find?_some h⟩

theorem lastEntry_append (css css' : List PhysicalChangeset) (k : Nat) :
    lastEntry (css ++ css') k = (lastEntry css' k).or (lastEntry css k) := by
  induction css' using reverseRecOn with
  | nil =>
    rw [append_nil]
    rfl
  | append_singleton css' cs ih =>
    rw [← append_assoc, lastEntry_concat, lastEntry_concat, ih, Option.or_assoc]

theorem lastEntry_singleton : lastEntry [cs] k = entry cs.pages k := by
  have := lastEntry_concat [] cs k
  exact Option.or_none

theorem lastEntry_cons : lastEntry (cs :: css) k = (lastEntry css k).or (entry cs.pages k) := by
  rw [← singleton_append, lastEntry_append, lastEntry_singleton]

/-- **Growth is written.** In a chain of sources that write what they add, every page between the size the first one
    leaves and the size the last one leaves has a later writer, and no last writer within that size is a marker. -/
theorem lastEntry_grown {s : Nat} (hsized : ∀ c ∈ cs :: css, Sized c) (hgrow : (cs :: css).IsChain Grows)
    (hs : Valid cs (some s)) (he : Valid ((cs :: css).getLast (cons_ne_nil _ _)) (some e)) (hk : k ≤ e) :
    (s < k → ∃ p, lastEntry css k = some p) ∧ ∀ p, lastEntry (cs :: css) k = some p → p.data ≠ [] := by
  induction css generalizing cs s with
  | nil =>
    have hse : s = e := size_unique hs he.marker
    refine ⟨fun hlt => absurd hlt (by omega), fun p hp => ?_⟩
    rw [lastEntry_singleton] at hp
    exact (entry_data hs (hse ▸ hk) hp).2.2
  | cons c rest ih =>
    obtain ⟨hfirst, htail⟩ := isChain_cons_cons.mp hgrow
    obtain ⟨s', hs'⟩ := (hsized c (mem_cons_of_mem _ mem_cons_self)).size
    have hlast : Valid ((c :: rest).getLast (cons_ne_nil _ _)) (some e) := by
      rwa [getLast_cons (cons_ne_nil _ _)] at he
    obtain ⟨hlater, hdata⟩ := ih (fun d hd => hsized d (mem_cons_of_mem _ hd)) htail hs' hlast
    have hsome : s < k → ∃ p, lastEntry (c :: rest) k = some p := by
      intro hlt
      rw [lastEntry_cons]
      by_cases hle : k ≤ s'
      · -- The next source is the one that adds the page.
        obtain ⟨q, hq, -, rfl⟩ := hfirst s s' hs.marker hs'.marker k hlt hle
        rw [entry_of_mem (hsized c (mem_cons_of_mem _ mem_cons_self)).sqlite.ascending hq]
        cases lastEntry rest q.pageId.toU64 with
        | none => exact ⟨q, rfl⟩
        | some p => exact ⟨p, rfl⟩
      · obtain ⟨p, hp⟩ := hlater (by omega)
        exact ⟨p, by rw [hp]; rfl⟩
    refine ⟨hsome, fun p hp => ?_⟩
    rw [lastEntry_cons] at hp
    cases hrest : lastEntry (c :: rest) k with
    | some q =>
      rw [hrest] at hp
      injection hp with hp
      exact hp ▸ hdata q hrest
    | none =>
      rw [hrest] at hp
      have hle : k ≤ s := by
        by_contra hlt
        obtain ⟨q, hq⟩ := hsome (by omega)
        rw [hrest] at hq
        cases hq
      exact (entry_data hs hle hp).2.2

/-! ## What a merged object keeps of its sources -/

/-- A chain that a cascade may merge: its sources declare their sizes, continue one another, and write what they
    add. -/
structure CascadeChain (sha64 : Bytes → UInt64) (css : List PhysicalChangeset) : Prop where
  sized : ∀ cs ∈ css, Sized cs
  linked : Linked sha64 css
  grown : css.IsChain Grows

theorem CascadeChain.part {pre mid post : List PhysicalChangeset}
    (h : CascadeChain sha64 (pre ++ (mid ++ post))) : CascadeChain sha64 mid where
  sized := fun cs hcs => h.sized cs (mem_append_right _ (mem_append_left _ hcs))
  linked := (isChain_append.mp (isChain_append.mp h.linked).2.1).1
  grown := (isChain_append.mp (isChain_append.mp h.grown).2.1).1

/-- `cs` stands for the chain `css`: it leads from the first one's chain value to the last one's, declares the last
    one's size and bears its seq, and within that size it has the last writers of the chain. -/
structure Stands (sha64 : Bytes → UInt64) (css : List PhysicalChangeset) (cs : PhysicalChangeset) : Prop where
  sized : Sized cs
  nonempty : css ≠ []
  prev : ∀ f ∈ css.head?, cs.header.prevChecksum = f.header.prevChecksum
  last : ∀ l ∈ css.getLast?, cs.header.seq = l.header.seq ∧ streamedEnd sha64 cs = streamedEnd sha64 l ∧
    changesetEndPageCount cs = changesetEndPageCount l
  pageSize : ∀ c ∈ css, c.header.pageSize = cs.header.pageSize
  entries : ∀ e, Valid cs (some e) → ∀ k, k ≤ e → lastEntry css k = entry cs.pages k

theorem Stands.self (h : Sized cs) : Stands sha64 [cs] cs where
  sized := h
  nonempty := cons_ne_nil _ _
  prev := by
    rintro f ⟨⟩
    rfl
  last := by
    rintro l ⟨⟩
    exact ⟨rfl, rfl, rfl⟩
  pageSize := by
    intro c hc
    rw [mem_singleton.mp hc]
  entries := fun e _ k _ => lastEntry_singleton

section Groups

variable {g g' : List PhysicalChangeset} {R : PhysicalChangeset → PhysicalChangeset → Prop}

/-- A relation between neighbours passes from the sources to the objects that stand for them. -/
theorem isChain_of_stands {R' : PhysicalChangeset → PhysicalChangeset → Prop}
    (hstep : ∀ g c g' c', Stands sha64 g c → Stands sha64 g' c' → (∀ x ∈ g ++ g', Sized x) →
      (g ++ g').IsChain R' → R c c') (h : Forall₂ (Stands sha64) groups objs)
    (hsized : ∀ c ∈ groups.flatten, Sized c) (hchain : groups.flatten.IsChain R') : objs.IsChain R := by
  induction h with
  | nil => exact isChain_nil
  | @cons g c groups objs hc hrest ih =>
    rw [flatten_cons] at hchain hsized
    have htail := ih (fun x hx => hsized x (mem_append_right _ hx)) (isChain_append.mp hchain).2.1
    cases hrest with
    | nil => exact isChain_singleton _
    | @cons g' c' groups objs hc' hrest =>
      refine isChain_cons_cons.mpr ⟨?_, htail⟩
      rw [flatten_cons, ← append_assoc] at hchain hsized
      exact hstep g c g' c' hc hc' (fun x hx => hsized x (mem_append_left _ hx))
        (isChain_append.mp hchain).1

theorem exists_last (hne : g ≠ [])
    (h : (g ++ g').IsChain R) : ∃ l, g.getLast? = some l ∧ l ∈ g ∧ (l :: g').IsChain R := by
  have hl := getLast?_eq_some_getLast hne
  refine ⟨g.getLast hne, hl, getLast_mem hne, ?_⟩
  obtain ⟨-, htail, hlink⟩ := isChain_append.mp h
  exact isChain_cons.mpr ⟨fun y hy => hlink _ hl y hy, htail⟩

theorem Stands.links {c c' : PhysicalChangeset} (h : Stands sha64 g c) (h' : Stands sha64 g' c')
    (hchain : Linked sha64 (g ++ g')) :
    c'.header.prevChecksum = streamedEnd sha64 c := by
  obtain ⟨l, hl, -, hlink⟩ := exists_last h.nonempty hchain
  obtain ⟨f, rest, rfl⟩ := exists_cons_of_ne_nil h'.nonempty
  rw [h'.prev f rfl, (h.last l hl).2.1]
  exact (isChain_cons_cons.mp hlink).1

theorem Stands.grows {c c' : PhysicalChangeset} (h : Stands sha64 g c) (h' : Stands sha64 g' c')
    (hsized : ∀ x ∈ g ++ g', Sized x) (hchain : (g ++ g').IsChain Grows) : Grows c c' := by
  intro e e' he he' k hlt hle
  obtain ⟨l, hl, hmem, hgrow⟩ := exists_last h.nonempty hchain
  have hls := hsized l (mem_append_left _ hmem)
  obtain ⟨s, hs⟩ := hls.size
  obtain rfl : s = e := size_unique hs ((h.last l hl).2.2.symm.trans he)
  -- The last source of the second group declares what its object declares.
  obtain ⟨l', hl'⟩ : ∃ l', g'.getLast? = some l' := ⟨_, getLast?_eq_some_getLast h'.nonempty⟩
  have hl's := hsized l' (mem_append_right _ (mem_of_getLast? hl'))
  obtain ⟨s', hs'⟩ := hl's.size
  obtain rfl : s' = e' := size_unique hs' ((h'.last l' hl').2.2.symm.trans he')
  have hend : (l :: g').getLast (cons_ne_nil _ _) = l' := by
    rw [getLast_cons h'.nonempty]
    exact Option.some.inj ((getLast?_eq_some_getLast h'.nonempty).symm.trans hl')
  have hall : ∀ x ∈ l :: g', Sized x := by
    intro x hx
    rcases mem_cons.mp hx with rfl | hx
    · exact hls
    · exact hsized x (mem_append_right _ hx)
  obtain ⟨hlater, hdata⟩ := lastEntry_grown hall hgrow hs (hend ▸ hs') hle
  obtain ⟨p, hp⟩ := hlater hlt
  have hpd : p.data ≠ [] := by
    apply hdata p
    rw [lastEntry_cons, hp]
    rfl
  obtain ⟨e, hv⟩ := h'.sized.size
  obtain rfl : e = s' := size_unique hv he'
  rw [h'.entries e hv k hle] at hp
  exact ⟨p, (mem_of_entry hp).1, hpd, (mem_of_entry hp).2⟩

/-- Objects that stand for the parts of a chain are a chain. -/
theorem CascadeChain.objects (h : Forall₂ (Stands sha64) groups objs)
    (hchain : CascadeChain sha64 groups.flatten) : CascadeChain sha64 objs where
  sized := by
    intro c hc
    obtain ⟨g, -, hg⟩ := forall₂_mem_right h hc
    exact hg.sized
  linked := isChain_of_stands (fun _ _ _ _ hc hc' _ hlink => hc.links hc' hlink) h hchain.sized hchain.linked
  grown := isChain_of_stands (fun _ _ _ _ hc hc' hsized hgrow => hc.grows hc' hsized hgrow) h hchain.sized
    hchain.grown

end Groups

section

variable (h : Forall₂ (Stands sha64) groups objs)
include h

/-- **Within the final size, the objects have the last writers of the sources.** -/
theorem lastEntry_flatten
    (hchain : CascadeChain sha64 groups.flatten) (hlast : objs.getLast? = some last) (he : Valid last (some e))
    (hk : k ≤ e) : lastEntry groups.flatten k = lastEntry objs k := by
  induction h with
  | nil => cases hlast
  | @cons g c groups objs hc hrest ih =>
    cases hobjs : objs with
    | nil =>
      subst hobjs
      cases hrest
      cases hlast
      rw [flatten_cons, flatten_nil, append_nil, lastEntry_singleton]
      exact hc.entries e he k hk
    | cons c' objs' =>
      subst hobjs
      have hall : Forall₂ (Stands sha64) (g :: groups) (c :: c' :: objs') := .cons hc hrest
      have hlast' : (c' :: objs').getLast? = some last := by
        rwa [List.getLast?_cons_cons] at hlast
      have hmid : CascadeChain sha64 groups.flatten := by
        have := hchain
        rw [flatten_cons, ← append_nil groups.flatten] at this
        exact this.part
      have hsame := ih hmid hlast'
      rw [flatten_cons, lastEntry_append, lastEntry_cons, hsame]
      -- What the later objects have decides, unless they have nothing; then the page is not one they added.
      cases hlater : lastEntry (c' :: objs') k with
      | some p => rfl
      | none =>
        obtain ⟨s, hs⟩ := hc.sized.size
        refine hc.entries s hs k ?_
        by_contra hlt
        have hobjs := CascadeChain.objects hall hchain
        have hend : Valid ((c :: c' :: objs').getLast (cons_ne_nil _ _)) (some e) := by
          exact Option.some.inj hlast ▸ he
        obtain ⟨p, hp⟩ := (lastEntry_grown hobjs.sized hobjs.grown hs hend hk).1 (by omega)
        rw [hlater] at hp
        cases hp

theorem head?_flatten {f : PhysicalChangeset} (hf : f ∈ groups.flatten.head?) :
    ∃ c ∈ objs.head?, c.header.prevChecksum = f.header.prevChecksum := by
  cases h with
  | nil => cases hf
  | @cons g c groups objs hc _ =>
    obtain ⟨x, rest, rfl⟩ := exists_cons_of_ne_nil hc.nonempty
    cases hf
    exact ⟨c, rfl, hc.prev _ rfl⟩

theorem getLast?_flatten {l : PhysicalChangeset} (hl : l ∈ groups.flatten.getLast?) :
    ∃ c ∈ objs.getLast?, c.header.seq = l.header.seq ∧ streamedEnd sha64 c = streamedEnd sha64 l ∧
      changesetEndPageCount c = changesetEndPageCount l := by
  induction h with
  | nil => cases hl
  | @cons g c groups objs hc hrest ih =>
    cases hrest with
    | nil =>
      rw [flatten_cons, flatten_nil, append_nil] at hl
      exact ⟨c, rfl, hc.last l hl⟩
    | @cons g' c' groups' objs' hc' hrest' =>
      have hne : (g' :: groups').flatten ≠ [] := by
        exact append_ne_nil_of_left_ne_nil hc'.nonempty _
      rw [flatten_cons, List.getLast?_append_of_ne_nil _ hne] at hl
      obtain ⟨d, hd, hfacts⟩ := ih hl
      exact ⟨d, by rw [List.getLast?_cons_cons]; exact hd, hfacts⟩

/-- **Standing for objects that stand for the sources is standing for the sources.** -/
theorem Stands.trans (hchain : CascadeChain sha64 groups.flatten)
    (hcs : Stands sha64 objs cs) : Stands sha64 groups.flatten cs where
  sized := hcs.sized
  nonempty := by
    cases h with
    | nil => exact absurd rfl hcs.nonempty
    | cons hc _ =>
      exact append_ne_nil_of_left_ne_nil hc.nonempty _
  prev := by
    intro f hf
    obtain ⟨c, hc, hprev⟩ := head?_flatten h hf
    rw [hcs.prev c hc, hprev]
  last := by
    intro l hl
    obtain ⟨c, hc, hseq, hend, hsize⟩ := getLast?_flatten h hl
    obtain ⟨hseq', hend', hsize'⟩ := hcs.last c hc
    exact ⟨hseq'.trans hseq, hend'.trans hend, hsize'.trans hsize⟩
  pageSize := by
    intro c hc
    obtain ⟨g, hg, hcg⟩ := mem_flatten.mp hc
    obtain ⟨d, hd, hstands⟩ := forall₂_mem_left h hg
    rw [hstands.pageSize c hcg, hcs.pageSize d hd]
  entries := by
    intro e he k hk
    obtain ⟨last, hlast⟩ : ∃ last, objs.getLast? = some last := ⟨_, getLast?_eq_some_getLast hcs.nonempty⟩
    have hobjs := CascadeChain.objects h hchain
    obtain ⟨s, hs⟩ := (hobjs.sized last (mem_of_getLast? hlast)).size
    obtain rfl : s = e := size_unique hs ((hcs.last last hlast).2.2.symm.trans he.marker)
    rw [lastEntry_flatten h hchain hlast hs hk]
    exact hcs.entries s he k hk

end

/-! ## The object that stands for a chain -/

section Canonical

variable {cs' : PhysicalChangeset}

theorem pageId_eq_u32 {id : PageId} {n : Nat} (hsize : id.size = .u32) (hn : id.toU64 = n) :
    id = .u32 (UInt32.ofNat n) := by
  cases id with
  | u32 v =>
    subst hn
    exact congrArg PageId.u32 UInt32.ofNat_toNat.symm
  | u64 v => cases hsize

/-- An object that declares a size has the marker, and no other page beyond the size. -/
theorem Sized.mem_iff (h : Sized cs) (hv : Valid cs (some e)) :
    p ∈ cs.pages ↔ (p.pageId.toU64 ≤ e ∧ entry cs.pages p.pageId.toU64 = some p) ∨ p = markerPage .u32 e := by
  have hempty : ∀ {q : PageEntry}, q ∈ cs.pages → q.data = [] → q = markerPage .u32 e := by
    intro q hq hd
    obtain ⟨id, data⟩ := q
    cases hd
    have hid := pageId_eq_u32 (h.sqlite.idSize _ hq) (hv.eq_marker hq rfl)
    cases hid
    rfl
  constructor
  · intro hp
    by_cases hd : p.data = []
    · exact .inr (hempty hp hd)
    · exact .inl ⟨hv.bound p hp hd e rfl, entry_of_mem h.sqlite.ascending hp⟩
  · rintro (⟨-, hp⟩ | rfl)
    · exact (mem_of_entry hp).1
    · obtain ⟨m, hm, hmd, -⟩ := hv.exists_marker
      exact hempty hm hmd ▸ hm

/-- Ascending page lists with the same pages are the same. -/
theorem AscendingIds.ext {qs : List PageEntry} (hp : AscendingIds ps) (hq : AscendingIds qs)
    (h : ∀ p, p ∈ ps ↔ p ∈ qs) : ps = qs := by
  have hnodup : ∀ {l : List PageEntry}, AscendingIds l → l.Nodup := fun hl =>
    hl.imp fun hlt heq => absurd (congrArg (fun p => p.pageId.toU64) heq) (ne_of_lt hlt)
  refine ((perm_ext_iff_of_nodup (hnodup hp) (hnodup hq)).mpr h).eq_of_pairwise ?_ hp hq
  intro a b _ _ hab hba
  exact absurd hba (lt_asymm hab)

theorem Stands.size_eq (h : Stands sha64 css cs) (h' : Stands sha64 css cs') (hv : Valid cs (some e)) :
    Valid cs' (some e) := by
  obtain ⟨l, hl⟩ : ∃ l, css.getLast? = some l := ⟨_, getLast?_eq_some_getLast h.nonempty⟩
  obtain ⟨e', hv'⟩ := h'.sized.size
  obtain rfl : e' = e := by
    apply size_unique hv'
    rw [(h'.last l hl).2.2, ← (h.last l hl).2.2]
    exact hv.marker
  exact hv'

theorem Stands.pages_eq (h : Stands sha64 css cs) (h' : Stands sha64 css cs') : cs.pages = cs'.pages := by
  obtain ⟨e, hv⟩ := h.sized.size
  have hv' := h.size_eq h' hv
  apply AscendingIds.ext h.sized.sqlite.ascending h'.sized.sqlite.ascending
  intro p
  rw [h.sized.mem_iff hv, h'.sized.mem_iff hv']
  apply or_congr_left
  apply and_congr_right
  intro hle
  rw [← h.entries e hv _ hle, ← h'.entries e hv' _ hle]

/-- The flags of an object that declares a size. -/
theorem flags_of_valid (hv : Valid cs (some e)) : cs.header.flags = flagEndPageCountMarker := by
  have hset := (changesetEndPageCount_some.mp hv.marker).1
  have hrest := hv.flags
  have hbytes : ∀ n : Fin 256, UInt8.ofNat n &&& flagEndPageCountMarker ≠ 0 →
      UInt8.ofNat n &&& (~~~ flagEndPageCountMarker) = 0 → UInt8.ofNat n = flagEndPageCountMarker := by
    decide +kernel
  have hbyte := hbytes ⟨cs.header.flags.toNat, cs.header.flags.toNat_lt⟩
  simp only [UInt8.ofNat_toNat] at hbyte
  exact hbyte hset hrest

/-- The object with another clock. -/
def stamped (cs : PhysicalChangeset) (createdMs : Int64) : PhysicalChangeset :=
  { cs with header := { cs.header with createdMs := createdMs } }

/-- **A chain has one merged object**, its clock aside. -/
theorem Stands.unique (h : Stands sha64 css cs) (h' : Stands sha64 css cs') (hwf : cs.WellFormed sha64)
    (hwf' : cs'.WellFormed sha64) (hcompact : cs.isCompacted = true) (hcompact' : cs'.isCompacted = true) :
    cs' = stamped cs cs'.header.createdMs := by
  obtain ⟨f, rest, rfl⟩ := exists_cons_of_ne_nil h.nonempty
  obtain ⟨l, hl⟩ : ∃ l, (f :: rest).getLast? = some l := ⟨_, getLast?_eq_some_getLast h.nonempty⟩
  obtain ⟨e, hv⟩ := h.sized.size
  have hv' := h.size_eq h' hv
  have hpages := h.pages_eq h'
  have hflags : cs'.header.flags = cs.header.flags := (flags_of_valid hv').trans (flags_of_valid hv).symm
  have hid : cs'.header.pageIdSize = cs.header.pageIdSize := hv'.idSize.trans hv.idSize.symm
  have hps : cs'.header.pageSize = cs.header.pageSize :=
    (h'.pageSize f mem_cons_self).symm.trans (h.pageSize f mem_cons_self)
  have hseq : cs'.header.seq = cs.header.seq := (h'.last l hl).1.trans (h.last l hl).1.symm
  have hprev : cs'.header.prevChecksum = cs.header.prevChecksum := (h'.prev f rfl).trans (h.prev f rfl).symm
  have hcount : cs'.header.pageCount = cs.header.pageCount := by
    apply UInt32.toNat_inj.mp
    rw [hwf'.pageCount, hwf.pageCount, hpages]
  have hsum : cs'.checksum = cs.checksum := by rw [hwf'.checksum, hwf.checksum, hprev, hpages]
  have hend : streamedEnd sha64 cs' = streamedEnd sha64 cs := (h'.last l hl).2.1.trans (h.last l hl).2.1.symm
  obtain ⟨v, hdecl⟩ := Option.isSome_iff_exists.mp hcompact
  obtain ⟨v', hdecl'⟩ := Option.isSome_iff_exists.mp hcompact'
  have hdeclared : v' = v := by
    rw [streamedEnd, streamedEnd, hdecl, hdecl'] at hend
    exact hend
  obtain ⟨⟨flags, idSize, ps, seq, prev, count, created⟩, declared, pages, sum⟩ := cs
  obtain ⟨⟨flags', idSize', ps', seq', prev', count', created'⟩, declared', pages', sum'⟩ := cs'
  simp only [stamped] at *
  subst hflags hid hps hseq hprev hcount hsum hpages hdecl hdecl' hdeclared
  rfl

end Canonical

/-! ## Merging group by group -/

section Folds

variable {inputs : List MergeInput}

/-- **A chain of one page size merges, and the merged object stands for it.** -/
theorem Stands.merge (createdMs : Int64) (tracker : PeakPages) {inputs : List MergeInput}
    {css : List PhysicalChangeset} {pageSize : UInt32} (hof : Forall₂ SourceOf inputs css)
    (hchain : CascadeChain sha64 css) (hne : css ≠ []) (hps : ∀ cs ∈ css, cs.header.pageSize = pageSize) :
    ∃ res tracker' cs, mergeChangesets sha64 createdMs inputs tracker = .ok (res, tracker') ∧
      res.bytes = cs.wire ∧ cs.WellFormed sha64 ∧ cs.isCompacted = true ∧ cs.header.createdMs = createdMs ∧
      Stands sha64 css cs := by
  obtain ⟨cs₀, rest, rfl⟩ := exists_cons_of_ne_nil hne
  have hchained : Chained sha64 pageSize (cs₀ :: rest) :=
    ⟨fun cs hcs => (hchain.sized cs hcs).goodSource (hps cs hcs), fun cs hcs => (hchain.sized cs hcs).sqlite.idSize,
      hchain.linked⟩
  have hsrc : ∀ cs ∈ cs₀ :: rest, SqliteSource pageSize cs := fun cs hcs => hps cs hcs ▸ (hchain.sized cs hcs).sqlite
  obtain ⟨ds, e, tracker', res, hpop, hv, he, hmerge, hprev, hdecl, hbytes, -⟩ :=
    mergeChangesets_chained createdMs tracker hof hchained
  obtain ⟨cs, hcs⟩ : ∃ cs, cs = mergedOf sha64 createdMs pageSize
    ((cs₀ :: rest).getLast (cons_ne_nil _ _)).header.seq res.prevChecksum res.declaredEndChecksum e ds := ⟨_, rfl⟩
  have hwf : cs.WellFormed sha64 :=
    hcs ▸ mergedOf_wellFormed hchained.good hchained.idSize hpop he hchained.pageSize_ok
  have hcv : Valid cs (some e) := hcs ▸ mergedOf_valid hchained.good hchained.idSize hpop he hchained.pageSize_ok
  have hcps : cs.header.pageSize = pageSize := by rw [hcs]; rfl
  have hdecl' : cs.declaredEndChecksum = some res.declaredEndChecksum := by rw [hcs]; rfl
  have hmem : ∀ {p : PageEntry}, p ∈ cs.pages ↔
      Survives (cs₀ :: rest) (some e) p ∨ ∃ e', some e = some e' ∧ p = markerPage .u32 e' := by
    intro p
    rw [hcs]
    exact mem_mergedWith hsrc hpop
  refine ⟨res, tracker', cs, hmerge, hcs ▸ hbytes, hwf, ?_, by rw [hcs]; rfl, ?_⟩
  · rw [PhysicalChangeset.isCompacted, hdecl']
    rfl
  exact
    { sized := ⟨⟨⟨some e, hcv⟩, hwf.ascending, fun p hp => (hwf.idSize p hp).trans hcv.idSize, rfl⟩, e, hcv⟩
      nonempty := hne
      prev := by
        rintro f ⟨⟩
        rw [← hprev, hcs]
        rfl
      last := by
        intro l hl
        rw [getLast?_eq_some_getLast hne, Option.mem_some_iff] at hl
        rw [← hl, streamedEnd, hdecl', hdecl, hcv.marker, hv.marker]
        exact ⟨by rw [hcs]; rfl, rfl, rfl⟩
      pageSize := fun c hc => (hps c hc).trans hcps.symm
      entries := by
        intro e' he' k hk
        obtain rfl : e' = e := size_unique he' hcv.marker
        obtain ⟨s, hs⟩ := (hchain.sized cs₀ mem_cons_self).size
        have hdata := (lastEntry_grown hchain.sized hchain.grown hs hv hk).2
        cases hlast : lastEntry (cs₀ :: rest) k with
        | some p =>
          obtain ⟨hid, -⟩ := lastEntry_some (fun c hc => (hsrc c hc).ascending) hlast
          have hsurvives : Survives (cs₀ :: rest) (some e') p := by
            refine ⟨hid.symm ▸ hlast, hdata p hlast, ?_⟩
            rintro _ ⟨⟩
            exact hid ▸ hk
          rw [← hid]
          exact (entry_of_mem hwf.ascending (hmem.mpr (.inl hsurvives))).symm
        | none =>
          cases hentry : entry cs.pages k with
          | none => rfl
          | some p =>
            obtain ⟨hp, hid⟩ := mem_of_entry hentry
            rcases hmem.mp hp with ⟨hwriter, -⟩ | ⟨_, ⟨⟩, rfl⟩
            · rw [hid, hlast] at hwriter
              cases hwriter
            · rw [markerPage_toU64 he] at hid
              omega }

/-- A merged object as a source of the next merge. -/
def reopened (key : String) (res : MergeResult) : Except CompactionError MergeInput :=
  match readHeader res.bytes, openSourceStream key res.bytes with
  | .ok header, .ok stream => .ok ⟨header, res.range, stream⟩
  | .error e, _ => .error e
  | .ok _, .error e => .error e

theorem reopened_wire {key : String} {res : MergeResult} {cs : PhysicalChangeset} (hbytes : res.bytes = cs.wire)
    (hwf : cs.WellFormed sha64) :
    ∃ input, reopened key res = .ok input ∧ SourceOf input cs := by
  refine ⟨⟨sourceHeaderOf cs, res.range, ⟨cs.pages, none⟩⟩, ?_, rfl, rfl, hwf.idSize⟩
  rw [reopened, hbytes, readHeader_wire, openSourceStream_wire (PhysicalChangeset.wellFormed_iff.mp hwf).1]

/-- Consecutive groups are merged one after another, each in its place. -/
inductive Folds (sha64 : Bytes → UInt64) (inputs : List MergeInput) : List MergeInput → Prop
  | start : Folds sha64 inputs inputs
  | merge {pre group post : List MergeInput} {createdMs : Int64} {res : MergeResult} {tracker tracker' : PeakPages}
    {key : String} {input : MergeInput} :
    Folds sha64 inputs (pre ++ (group ++ post)) →
    mergeChangesets sha64 createdMs group tracker = .ok (res, tracker') → reopened key res = .ok input →
    Folds sha64 inputs (pre ++ input :: post)

theorem forall₂_split_right {α β : Type} {R : α → β → Prop} {as : List α} {bs bs' : List β}
    (h : Forall₂ R as (bs ++ bs')) :
    ∃ as₁ as₂, as = as₁ ++ as₂ ∧ Forall₂ R as₁ bs ∧ Forall₂ R as₂ bs' :=
  ⟨_, _, (take_append_drop bs.length as).symm, forall₂_take_append _ _ _ h,
    forall₂_drop_append _ _ _ h⟩

theorem forall₂_split {α β : Type} {R : α → β → Prop} {as as' : List α} {bs : List β} (h : Forall₂ R (as ++ as') bs) :
    ∃ bs₁ bs₂, bs = bs₁ ++ bs₂ ∧ Forall₂ R as bs₁ ∧ Forall₂ R as' bs₂ := by
  obtain ⟨bs₁, bs₂, hbs, h₁, h₂⟩ := forall₂_split_right h.flip
  exact ⟨bs₁, bs₂, hbs, h₁.flip, h₂.flip⟩

section

variable (hof : Forall₂ SourceOf inputs css)
include hof

/-- The page size of sources is that of the changesets they stream. -/
theorem pageSize_of_geometry
    (h : ∀ s ∈ inputs, s.header.pageSize = pageSize) : ∀ cs ∈ css, cs.header.pageSize = pageSize := by
  intro cs hcs
  obtain ⟨s, hs, hsrc⟩ := forall₂_mem_right hof hcs
  rw [← h s hs, hsrc.header]
  rfl

/-- A merge that succeeds had sources of one page size, and at least one. -/
theorem pageSize_of_merge {tracker : PeakPages} {r : MergeResult × PeakPages}
    (hmerge : mergeChangesets sha64 createdMs inputs tracker = .ok r) :
    css ≠ [] ∧ ∃ pageSize, ∀ cs ∈ css, cs.header.pageSize = pageSize := by
  cases hof with
  | nil => simp [mergeChangesets] at hmerge
  | cons hfirst hrest =>
    exact ⟨cons_ne_nil _ _, _,
      pageSize_of_geometry (.cons hfirst hrest) fun s hs => (geometry_of_merge hmerge s hs).2⟩

/-- **After any merges, each object stands for the sources at its place.** -/
theorem Folds.stands {parts : List MergeInput} (hchain : CascadeChain sha64 css) (h : Folds sha64 inputs parts) :
    ∃ groups objs, groups.flatten = css ∧ Forall₂ SourceOf parts objs ∧
      Forall₂ (Stands sha64) groups objs := by
  induction h with
  | start =>
    refine ⟨css.map fun cs => [cs], css, ?_, hof, ?_⟩
    · rw [← flatMap_def, flatMap_singleton']
    · rw [forall₂_map_left_iff, forall₂_same]
      exact fun cs hcs => Stands.self (hchain.sized cs hcs)
  | @merge pre group post createdMs res tracker tracker' key input _ hmerge hopen ih =>
    obtain ⟨groups, objs, hflat, hparts, hstands⟩ := ih
    obtain ⟨o₁, o', rfl, hpre, hparts'⟩ := forall₂_split hparts
    obtain ⟨o₂, o₃, rfl, hgroup, hpost⟩ := forall₂_split hparts'
    obtain ⟨g₁, g', rfl, hs₁, hstands'⟩ := forall₂_split_right hstands
    obtain ⟨g₂, g₃, rfl, hs₂, hs₃⟩ := forall₂_split_right hstands'
    -- The group's own chain, of the sources and of the objects that stand for them.
    have hsources : CascadeChain sha64 g₂.flatten := by
      rw [← hflat, flatten_append, flatten_append] at hchain
      exact hchain.part
    obtain ⟨hne, pageSize, hps⟩ := pageSize_of_merge hgroup hmerge
    obtain ⟨res', t, cs, hmerge', hbytes, hwf, -, -, hcs⟩ :=
      Stands.merge createdMs tracker hgroup (CascadeChain.objects hs₂ hsources) hne hps
    rw [hmerge] at hmerge'
    cases hmerge'
    obtain ⟨input', hopen', hsource⟩ := @reopened_wire sha64 key res cs hbytes hwf
    rw [hopen] at hopen'
    cases hopen'
    refine ⟨g₁ ++ g₂.flatten :: g₃, o₁ ++ cs :: o₃, ?_, rel_append hpre (.cons hsource hpost),
      rel_append hs₁ (.cons (Stands.trans hs₂ hsources hcs) hs₃)⟩
    rw [← hflat, flatten_append, flatten_cons, flatten_append, flatten_append]

theorem cascadeChain_of_sources
    (hvalid : ∀ cs ∈ css, validateSqliteChangeset cs = .ok ()) (hascending : ∀ cs ∈ css, AscendingIds cs.pages)
    (hmarker : ∀ cs ∈ css, ∃ e, changesetEndPageCount cs = .ok (some e)) (hlinked : Linked sha64 css)
    (hgrow : css.IsChain Grows) : CascadeChain sha64 css := by
  refine ⟨fun cs hcs => ?_, hlinked, hgrow⟩
  obtain ⟨s, -, hsrc⟩ := forall₂_mem_right hof hcs
  obtain ⟨epc, hv⟩ := validateSqliteChangeset_ok.mp (hvalid cs hcs)
  obtain ⟨e, he⟩ := hmarker cs hcs
  obtain rfl : epc = some e := by
    have := hv.marker.symm.trans he
    injection this
  exact ⟨⟨⟨some e, hv⟩, hascending cs hcs, fun p hp => (hsrc.idSize p hp).trans hv.idSize, rfl⟩, e, hv⟩

end

/-- **Merging does not depend on how the chain is cut.** Let a chain of sources have been merged group by group, in any
    way and to any depth. Then any group of what is there, if its sources are of one page size, can be merged next; and
    merging all of it gives the object that merging all sources at once gives, its clock aside, or both fail. -/
theorem folds_merge_alike (sha64 : Bytes → UInt64) (inputs parts : List MergeInput) (css : List PhysicalChangeset)
    (now now' : Int64) (tracker : PeakPages) (hsource : Forall₂ SourceOf inputs css)
    (hvalid : ∀ cs ∈ css, validateSqliteChangeset cs = .ok ()) (hascending : ∀ cs ∈ css, AscendingIds cs.pages)
    (hmarker : ∀ cs ∈ css, ∃ e, changesetEndPageCount cs = .ok (some e)) (hlinked : Linked sha64 css)
    (hgrow : css.IsChain Grows) (hfolds : Folds sha64 inputs parts) :
    ((∃ pageSize, ∀ cs ∈ css, cs.header.pageSize = pageSize) → ∀ pre group post key, parts = pre ++ (group ++ post) →
      group ≠ [] → ∃ res tracker' input, mergeChangesets sha64 now group tracker = .ok (res, tracker') ∧
        reopened key res = .ok input) ∧
    match mergeChangesets sha64 now' inputs tracker with
    | .ok (res', _) => ∃ res tracker' cs, mergeChangesets sha64 now parts tracker = .ok (res, tracker') ∧
        res.bytes = cs.wire ∧ res'.bytes = (stamped cs now').wire
    | .error _ => ∃ e, mergeChangesets sha64 now parts tracker = .error e := by
  have hchain := cascadeChain_of_sources hsource hvalid hascending hmarker hlinked hgrow
  obtain ⟨groups, objs, hflat, hparts, hstands⟩ := hfolds.stands hsource hchain
  have hobjs := CascadeChain.objects hstands (hflat.symm ▸ hchain)
  have hsizes : ∀ {pageSize : UInt32}, (∀ cs ∈ css, cs.header.pageSize = pageSize) ↔
      ∀ c ∈ objs, c.header.pageSize = pageSize := by
    intro pageSize
    constructor
    · intro h c hc
      obtain ⟨g, hg, hs⟩ := forall₂_mem_right hstands hc
      obtain ⟨x, rest, rfl⟩ := exists_cons_of_ne_nil hs.nonempty
      rw [← hs.pageSize x mem_cons_self]
      exact h x (hflat ▸ mem_flatten.mpr ⟨_, hg, mem_cons_self⟩)
    · intro h cs hcs
      obtain ⟨g, hg, hcg⟩ := mem_flatten.mp (hflat ▸ hcs)
      obtain ⟨c, hc, hs⟩ := forall₂_mem_left hstands hg
      rw [hs.pageSize cs hcg]
      exact h c hc
  constructor
  · rintro ⟨pageSize, hps⟩ pre group post key rfl hne
    obtain ⟨o₁, o', rfl, -, hparts'⟩ := forall₂_split hparts
    obtain ⟨o₂, o₃, rfl, hgroup, -⟩ := forall₂_split hparts'
    have hne₂ : o₂ ≠ [] := by
      rintro rfl
      cases hgroup
      exact hne rfl
    have hps₂ : ∀ c ∈ o₂, c.header.pageSize = pageSize := fun c hc =>
      hsizes.mp hps c (mem_append_right _ (mem_append_left _ hc))
    obtain ⟨res, t, cs, hmerge, hbytes, hwf, -⟩ := Stands.merge now tracker hgroup hobjs.part hne₂ hps₂
    obtain ⟨input, hopen, -⟩ := @reopened_wire sha64 key res cs hbytes hwf
    exact ⟨res, t, input, hmerge, hopen⟩
  · cases hall : mergeChangesets sha64 now' inputs tracker with
    | ok r =>
      obtain ⟨hne, pageSize, hps⟩ := pageSize_of_merge hsource hall
      have hneo : objs ≠ [] := by
        rintro rfl
        cases hstands
        exact hne hflat.symm
      obtain ⟨res₁, t₁, cs', hmerge₁, hbytes', hwf', hcompact', hnow', hcs'⟩ :=
        Stands.merge now' tracker hsource hchain hne hps
      rw [hall] at hmerge₁
      cases hmerge₁
      obtain ⟨res, t, cs, hmerge, hbytes, hwf, hcompact, -, hcs⟩ :=
        Stands.merge now tracker hparts hobjs hneo (hsizes.mp hps)
      have hsame := Stands.trans hstands (hflat.symm ▸ hchain) hcs
      rw [hflat] at hsame
      refine ⟨res, t, cs, hmerge, hbytes, ?_⟩
      rw [hbytes', ← hnow', ← hsame.unique hcs' hwf hwf' hcompact hcompact']
    | error e =>
      cases hmerge : mergeChangesets sha64 now parts tracker with
      | error e' => exact ⟨e', rfl⟩
      | ok r =>
        -- The parts are then of one page size, and so are the sources: merging them would have succeeded.
        obtain ⟨hneo, pageSize, hps⟩ := pageSize_of_merge hparts hmerge
        have hne : css ≠ [] := by
          rintro rfl
          obtain ⟨c, rest, rfl⟩ := exists_cons_of_ne_nil hneo
          cases hstands with
          | cons hs _ =>
            exact hs.nonempty (append_eq_nil_iff.mp hflat).1
        obtain ⟨res', t', cs', hok, -⟩ := Stands.merge now' tracker hsource hchain hne (hsizes.mpr hps)
        rw [hall] at hok
        cases hok

end Folds

/-! ### Growing, then shrinking -/

/-- SHA-256 (first eight bytes) of what the chain below and its merges hash, told apart by length, previous chain value
    and first page. -/
def shrinkingSha64 (bs : Bytes) : UInt64 :=
  if bs.length = 536 then
    if bs.getD 16 0 = 0xAA then 5005729626446625227
    else if bs.take 8 = beBytes 8 0 then 12517290723894736147
    else 15771880559523049264
  else if bs.take 8 = beBytes 8 0 then 14321747312478120648
  else 2050793820128084820

/-- The growing chain, and behind it a source that takes the second page off again. -/
def shrinkingChain : List PhysicalChangeset :=
  growingChain ++
    [{ header := growingHeader 3 2050793820128084820 2
       declaredEndChecksum := none
       pages := [⟨.u32 1, filled 0xDD⟩, ⟨.u32 2, []⟩]
       checksum := 15771880559523049264 }]

def shrinkingInputs : List MergeInput :=
  shrinkingChain.map fun cs => ⟨sourceHeaderOf cs, .point cs.header.seq.toNat, ⟨cs.pages, none⟩⟩

theorem shrinkingChain_valid (hcs : cs ∈ shrinkingChain) :
    validateSqliteChangeset cs = .ok () ∧ AscendingIds cs.pages ∧
      ∃ e, changesetEndPageCount cs = .ok (some e) := by
  rcases mem_append.mp hcs with hcs | hcs
  · exact growingChain_valid hcs
  · have hps : validateSqlitePageSize 512 = .ok 512 := by decide
    rw [mem_singleton] at hcs
    subst hcs
    refine ⟨?_, ?_, 1, ?_⟩ <;>
      simp [validateSqliteChangeset, growingHeader, hps, changesetEndPageCount, endPageCountLoop,
        validatePages, PageId.toU64, flagEndPageCountMarker, sqlitePageIdSize, AscendingIds]

theorem shrinkingInputs_source : Forall₂ SourceOf shrinkingInputs shrinkingChain := by
  refine rel_append growingInputs_source (.cons ⟨rfl, rfl, ?_⟩ .nil)
  intro p hp
  simp only [mem_cons, not_mem_nil, or_false] at hp
  rcases hp with rfl | rfl <;> rfl

theorem shrinkingChain_linked : Linked shrinkingSha64 shrinkingChain := by
  refine isChain_cons_cons.mpr ⟨?_, isChain_cons_cons.mpr ⟨?_, isChain_singleton _⟩⟩ <;>
    decide +kernel

theorem shrinkingChain_grows : shrinkingChain.IsChain Grows := by
  have hfirst : changesetEndPageCount growingChain[0] = .ok (some 1) := by decide +kernel
  have hsecond : changesetEndPageCount growingChain[1] = .ok (some 2) := by decide +kernel
  have hthird : changesetEndPageCount shrinkingChain[2] = .ok (some 1) := by decide +kernel
  refine isChain_cons_cons.mpr ⟨?_, isChain_cons_cons.mpr ⟨?_, isChain_singleton _⟩⟩
  · -- The second source adds the second page.
    intro e e' he he' k hlt hle
    cases hfirst.symm.trans he
    cases hsecond.symm.trans he'
    obtain rfl : k = 2 := by omega
    exact ⟨⟨.u32 2, filled 0xBB⟩, mem_cons_of_mem _ mem_cons_self, filled_ne_nil _, rfl⟩
  · -- The third one adds nothing.
    intro e e' he he' k hlt hle
    cases hsecond.symm.trans he
    cases hthird.symm.trans he'
    omega

theorem shrinkingChain_pageSize : ∀ cs ∈ shrinkingChain, cs.header.pageSize = 512 := by
  intro cs hcs
  simp only [shrinkingChain, growingChain, cons_append, nil_append, mem_cons, not_mem_nil,
    or_false] at hcs
  rcases hcs with rfl | rfl | rfl <;> rfl

/-- The first two sources merged, and the result merged with the third: the object of all three. -/
theorem folds_merge_alike_shrinkingChain : ∃ first second third input res res' t t' cs,
    shrinkingInputs = [first, second, third] ∧ Folds shrinkingSha64 shrinkingInputs [input, third] ∧
      mergeChangesets shrinkingSha64 7 [input, third] ⟨0, 0⟩ = .ok (res, t) ∧
      mergeChangesets shrinkingSha64 9 shrinkingInputs ⟨0, 0⟩ = .ok (res', t') ∧
      res.bytes = cs.wire ∧ res'.bytes = (stamped cs 9).wire := by
  obtain ⟨first, second, third, hinputs⟩ : ∃ first second third, shrinkingInputs = [first, second, third] :=
    ⟨_, _, _, rfl⟩
  have hsource := shrinkingInputs_source
  rw [hinputs] at hsource ⊢
  have halike := fun parts now now' h => folds_merge_alike shrinkingSha64 [first, second, third] parts shrinkingChain
    now now' ⟨0, 0⟩ hsource (fun cs hcs => (shrinkingChain_valid hcs).1)
    (fun cs hcs => (shrinkingChain_valid hcs).2.1) (fun cs hcs => (shrinkingChain_valid hcs).2.2)
    shrinkingChain_linked shrinkingChain_grows h
  have hps : ∃ pageSize, ∀ cs ∈ shrinkingChain, cs.header.pageSize = pageSize := ⟨512, shrinkingChain_pageSize⟩
  obtain ⟨res₁, t₁, input, hmerge₁, hopen₁⟩ :=
    (halike _ 0 0 .start).1 hps [] [first, second] [third] "" rfl (cons_ne_nil _ _)
  have hfolds : Folds shrinkingSha64 [first, second, third] [input, third] :=
    @Folds.merge _ _ [] [first, second] [third] _ _ _ _ _ _ .start hmerge₁ hopen₁
  obtain ⟨res', t', -, hall, -⟩ :=
    (halike _ 9 0 .start).1 hps [] [first, second, third] [] "" rfl (cons_ne_nil _ _)
  obtain ⟨-, hsame⟩ := halike _ 7 9 hfolds
  rw [hall] at hsame
  obtain ⟨res, t, cs, hmerge, hbytes, hbytes'⟩ := hsame
  exact ⟨first, second, third, input, res, res', t, t', cs, rfl, hfolds, hmerge, hall, hbytes, hbytes'⟩

end Compaction
end Walrust
