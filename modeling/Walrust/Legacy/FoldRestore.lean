import Walrust.Legacy.Fold
import Mathlib.Order.Bounds.Basic

/-!
# `Walrust.Legacy.FoldRestore` — restoring over folded objects

A restore plans over the names of the objects and then applies them. Where the pool beyond the snapshot holds
pieces of one chain, every plan is a cutting of the chain into pieces, every object applies, and the chain value
at the end is the chain's own. The file is the chain's image with whatever the incrementals after the last merged
object have left standing behind it.

* `Stores`, `Laid` — a pool of pieces, and a plan that cuts the chain into them;
* `Laid.applies` — what applying the plan leaves, and how long it is;
* `fold_preserves_restore_iff` — when that is what the incrementals alone leave.
-/

namespace Walrust
namespace Legacy

open Hadbp Ltx Compaction Restore Lib List Chain

variable {q : Nat × Nat} {ltx : LtxCrate} {sha64 : Bytes → UInt64} {ph : Physical}

/-! ## Plans -/

/-- **A pool of pieces**: every object that begins beyond `s` is one of a run of the chain, as `P` says, and is
    named by the TXIDs of the run. -/
def Stores (P : List Link → Bytes → Prop) (b : LtxBucket) (s : Staged) (links : List Link) : Prop :=
  ∀ c ∈ gatherLegacyCandidates b, s.seq < c.range.min → ∃ pre mid post bytes, links = pre ++ mid ++ post ∧
    c.range = ⟨(endOf s pre).seq + 1, (endOf s (pre ++ mid)).seq⟩ ∧ b.get c.key = some bytes ∧ P mid bytes

/-- The objects of a plan, in order, and the run of the chain that they make up. -/
inductive Laid (P : List Link → Bytes → Prop) (b : LtxBucket) : Staged → List LtxCandidate → List Link → Prop where
  | nil (s : Staged) : Laid P b s [] []
  | cons {s : Staged} {c : LtxCandidate} {files : List LtxCandidate} {mid rest : List Link} {bytes : Bytes} :
      b.get c.key = some bytes → P mid bytes → c.range.max = (endOf s mid).seq →
      Laid P b (endOf s mid) files rest → Laid P b s (c :: files) (mid ++ rest)

section Plans

variable {pageSize : UInt32} {s : Staged} {links : List Link}

section

variable (h : Chain ltx sha64 pageSize s links)
include h

theorem Chain.seq_le : s.seq ≤ (endOf s links).seq := by
  induction h with
  | nil s => exact le_refl _
  | cons hl _ ih => exact le_trans (le_of_lt hl.maxTxid) ih

theorem Chain.eq_nil_of_seq (hseq : (endOf s links).seq ≤ s.seq) :
    links = [] := by
  cases h with
  | nil => rfl
  | cons hl hrest =>
    have hlt := hl.maxTxid
    have hle : _ ≤ (endOf _ _).seq := hrest.seq_le
    exact absurd (lt_of_lt_of_le hlt hle) (not_lt.mpr hseq)

theorem Chain.prefix_unique {a c : List Link} (ha : a <+: links)
    (hc : c <+: links) (hseq : (endOf s a).seq = (endOf s c).seq) : a = c := by
  have hone : ∀ {x y : List Link}, x <+: y → y <+: links → (endOf s x).seq = (endOf s y).seq → x = y := by
    rintro x y ⟨d, rfl⟩ ⟨rest, hlinks⟩ heq
    rw [← hlinks] at h
    obtain ⟨-, hd⟩ := append_iff.mp (append_iff.mp h).1
    rw [endOf_append] at heq
    rw [hd.eq_nil_of_seq (le_of_eq heq.symm), append_nil]
  rcases prefix_or_prefix_of_prefix ha hc with hac | hca
  · exact hone hac hc hseq
  · exact (hone hca ha hseq.symm).symm

end

/-- **Every plan over a pool of pieces cuts the chain into pieces.** By induction on the plan; the cursor is always
    the end of what has been laid. -/
theorem Stores.laid {P : List Link → Bytes → Prop} {b : LtxBucket} (hstores : Stores P b s links)
    (hchain : Chain ltx sha64 pageSize s links) {target : Nat} {files : List LtxCandidate} {done todo : List Link}
    (hlinks : links = done ++ todo) (hplan : FollowsFrom (planPool b s.seq target) (endOf s done).seq files) :
    ∃ run later, todo = run ++ later ∧ Laid P b (endOf s done) files run ∧
      (endOf s (done ++ run)).seq = endsAt (endOf s done).seq files := by
  induction files generalizing done todo with
  | nil => exact ⟨[], todo, rfl, .nil _, by rw [append_nil]; rfl⟩
  | cons pick rest ih =>
    obtain ⟨hpool, hmin, hrest⟩ := hplan
    obtain ⟨hgather, -⟩ := mem_filter.mp hpool
    have hbegin : s.seq ≤ (endOf s done).seq := by
      rw [hlinks] at hchain
      exact (append_iff.mp hchain).1.seq_le
    obtain ⟨pre, mid, post, bytes, hsplit, hrange, hget, hpiece⟩ := hstores pick hgather (by omega)
    have hpre : pre = done := by
      refine hchain.prefix_unique ?_ ?_ ?_
      · rw [hsplit, append_assoc]
        exact prefix_append _ _
      · rw [hlinks]
        exact prefix_append _ _
      · have hfirst : pick.range.min = (endOf s pre).seq + 1 := by rw [hrange]
        omega
    subst hpre
    have htodo : todo = mid ++ post := by
      rw [hsplit, append_assoc] at hlinks
      exact (append_cancel_left hlinks).symm
    have hmax : pick.range.max = (endOf s (pre ++ mid)).seq := by rw [hrange]
    rw [hmax] at hrest
    obtain ⟨run, later, hpost, hlaid, hseq⟩ := ih hsplit hrest
    refine ⟨mid ++ run, later, by rw [htodo, hpost, append_assoc], ?_, ?_⟩
    · rw [endOf_append] at hlaid hmax
      exact .cons hget hpiece hmax hlaid
    · rw [← append_assoc, hseq, endsAt, hmax]

end Plans

/-! ## The length of the file -/

/-- The sizes the database goes through, with the TXIDs it has them at. -/
def sizes (pageSize : UInt32) (s : Staged) (links : List Link) : List (Nat × Nat) :=
  (s.seq, s.db.length / pageSize.toNat) :: links.map fun l => (l.header.maxTxid, l.header.commit)

/-- The file lengths of the sizes from a TXID on. -/
def lengthsFrom (pageSize : UInt32) (s : Staged) (links : List Link) (cut : Nat) : Set Nat :=
  {n | ∃ q ∈ sizes pageSize s links, cut ≤ q.1 ∧ n = q.2 * pageSize.toNat}

/-- The end of the last merged object of a plan. -/
def lastMerged (b : LtxBucket) : Nat → List LtxCandidate → Nat
  | cut, [] => cut
  | cut, c :: files => lastMerged b (if isMerged ((b.get c.key).getD []) then c.range.max else cut) files

section Sizes

variable {pageSize : UInt32} {s : Staged} {l : Link} {links : List Link}

theorem sizes_append (pageSize : UInt32) (s : Staged) (a c : List Link) :
    sizes pageSize s (a ++ c) = sizes pageSize s a ++ c.map fun l => (l.header.maxTxid, l.header.commit) := by
  rw [sizes, map_append]
  rfl

section

variable (hps : 0 < pageSize.toNat)
include hps

theorem Follows.sizes_cons (h : Follows ltx sha64 pageSize s l) (rest : List Link) :
    sizes pageSize s (l :: rest) = (s.seq, s.db.length / pageSize.toNat) :: sizes pageSize l.point rest := by
  have hcommit : l.image.length / pageSize.toNat = l.header.commit := by
    rw [h.length, Nat.mul_div_cancel _ hps]
  rw [sizes, sizes, map_cons, Link.point, hcommit]

section

variable (h : Chain ltx sha64 pageSize s links)
include h

theorem Chain.end_mem_sizes :
    ((endOf s links).seq, (endOf s links).db.length / pageSize.toNat) ∈ sizes pageSize s links := by
  induction h with
  | nil s => exact mem_cons_self
  | cons hl _ ih =>
    rw [hl.sizes_cons hps]
    exact mem_cons_of_mem _ ih

theorem Chain.size_last (hq : q ∈ sizes pageSize s links) (hlate : (endOf s links).seq ≤ q.1) :
    q = ((endOf s links).seq, (endOf s links).db.length / pageSize.toNat) := by
  induction h with
  | nil s => exact mem_singleton.mp hq
  | cons hl hrest ih =>
    rw [hl.sizes_cons hps] at hq
    rcases mem_cons.mp hq with rfl | hq
    · have hlt := hl.maxTxid
      have hle : _ ≤ (endOf _ _).seq := hrest.seq_le
      exact absurd (lt_of_lt_of_le hlt (le_trans hle hlate)) (lt_irrefl _)
    · exact ih hq hlate

theorem Chain.size_le (hq : q ∈ sizes pageSize s links) : q.1 ≤ (endOf s links).seq := by
  by_contra hlt
  rw [h.size_last hps hq (le_of_lt (not_le.mp hlt))] at hlt
  exact hlt (le_refl _)

end

/-- A merged object leaves the length of the last size. -/
theorem Chain.greatest_end (hs : Whole pageSize s) (h : Chain ltx sha64 pageSize s links) :
    IsGreatest (lengthsFrom pageSize s links (endOf s links).seq) (endOf s links).db.length := by
  refine ⟨⟨_, h.end_mem_sizes hps, le_refl _, h.whole hps hs⟩, ?_⟩
  rintro n ⟨q, hq, hlate, rfl⟩
  rw [h.size_last hps hq hlate]
  exact le_of_eq (h.whole hps hs).symm

end

/-- An incremental leaves the greater of the length before it and its own. -/
theorem Follows.greatest_concat {done : List Link} (hl : Follows ltx sha64 pageSize (endOf s done) l) {cut n : Nat}
    (hcut : cut ≤ (endOf s done).seq) (hn : IsGreatest (lengthsFrom pageSize s done cut) n) :
    IsGreatest (lengthsFrom pageSize s (done ++ [l]) cut) (max n l.image.length) := by
  have hset : lengthsFrom pageSize s (done ++ [l]) cut = lengthsFrom pageSize s done cut ∪ {l.image.length} := by
    ext k
    simp only [lengthsFrom, sizes, map_append, ← cons_append, mem_append]
    constructor
    · rintro ⟨q, hq | hq, hlate, rfl⟩
      · exact .inl ⟨q, hq, hlate, rfl⟩
      · rw [mem_singleton.mp hq]
        exact .inr hl.length.symm
    · rintro (⟨q, hq, hlate, rfl⟩ | rfl)
      · exact ⟨q, .inl hq, hlate, rfl⟩
      · exact ⟨_, .inr (mem_singleton.mpr rfl), le_trans hcut (le_of_lt hl.maxTxid), hl.length⟩
  rw [hset]
  exact IsGreatest.union hn isGreatest_singleton

end Sizes

/-! ## Applying a plan -/

section Applying

variable {pageSize : UInt32} {s u : Staged} {b : LtxBucket} {files : List LtxCandidate} {done links : List Link}

/-- **What a plan leaves.** Every object applies, the chain value is the chain's; the file begins with the last
    image, is a front part of what the chain leaves in place, and is as long as the greatest size since the last
    merged object. By induction on the plan, with what has been applied in `done`. -/
theorem Laid.applies (hval : ValidSize pageSize) (hs : Whole pageSize s)
    (hlaid : Laid (Piece ltx ph.sha64) b u files links) (hu : u = endOf s done)
    (hchain : Chain ltx ph.sha64 pageSize s (done ++ links)) {f g : Bytes} (hpre : u.db <+: f) (hfg : f <+: g)
    {cut : Nat} (hcut : cut ≤ u.seq) (hlen : IsGreatest (lengthsFrom pageSize s done cut) f.length) :
    ∃ f', applyLegacyFiles ltx ph b files ⟨u.seq, u.checksum, f⟩ =
        .ok ⟨(endOf u links).seq, (endOf u links).checksum, f'⟩ ∧
      f' <+: inPlace ltx pageSize links g ∧
      IsGreatest (lengthsFrom pageSize s (done ++ links) (lastMerged b cut files)) f'.length := by
  have hps := (validateSqlitePageSize_ok hval).2.1
  induction hlaid generalizing done f g cut with
  | nil u =>
    refine ⟨f, rfl, hfg, ?_⟩
    rw [append_nil]
    exact hlen
  | @cons u c files mid rest bytes hget hpiece hmax hrest ih =>
    subst hu
    obtain ⟨hdone, hmidrest⟩ := append_iff.mp hchain
    obtain ⟨hmid, -⟩ := append_iff.mp hmidrest
    obtain ⟨f₁, happly, hpre₁, hfg₁, hcase⟩ :=
      hpiece.applies hval (hdone.whole hps hs) hmid c.range (endOf s done).seq hpre hfg
    have hend : endOf (endOf s done) mid = endOf s (done ++ mid) := (endOf_append s done mid).symm
    have hchain' : Chain ltx ph.sha64 pageSize s (done ++ mid ++ rest) := by
      rw [append_assoc]
      exact hchain
    have hmid' : Chain ltx ph.sha64 pageSize s (done ++ mid) := (append_iff.mp hchain').1
    -- the new cut, and the length of the file since then
    have hstep : (if isMerged bytes then c.range.max else cut) ≤ (endOf (endOf s done) mid).seq ∧
        IsGreatest (lengthsFrom pageSize s (done ++ mid) (if isMerged bytes then c.range.max else cut)) f₁.length := by
      rcases hcase with ⟨hmerged, rfl⟩ | ⟨hfile, ⟨l, rfl⟩, hlength⟩
      · rw [if_pos hmerged, hmax]
        refine ⟨le_refl _, ?_⟩
        rw [hend]
        exact hmid'.greatest_end hps hs
      · rw [hfile, hlength]
        cases hmid with
        | cons hl _ => exact ⟨le_trans hcut (le_of_lt hl.maxTxid), hl.greatest_concat hcut hlen⟩
    obtain ⟨f', hfiles, hfg', hlen'⟩ := ih hend hchain' hpre₁ hfg₁ hstep.1 hstep.2
    refine ⟨f', ?_, ?_, ?_⟩
    · rw [applyLegacyFiles]
      simp only [hget, happly, hmax, hfiles, endOf_append]
    · rw [inPlace, foldl_append]
      exact hfg'
    · rw [lastMerged, hget, ← append_assoc]
      exact hlen'

end Applying

/-! ## Restoring -/

/-- The restore of `pointInTime` goes to `target` from the snapshot `snap` and finds the plan `plan`. -/
structure Planned (ltx : LtxCrate) (b : LtxBucket) (pointInTime : Option Nat) (target : Nat) (snap : DiscoveredLtx)
    (plan : RestorePlan LtxKey) : Prop where
  nonempty : (discoverLegacyState b).1 ≠ 0
  known : pointInTime.any (latestTxid b < ·) = false
  goal : pointInTime.getD (latestTxid b) = target
  snapshot : findLatestLegacySnapshot ltx b pointInTime = some snap
  floor : snap.maxTxid ≤ target
  plan : planRestore (planPool b snap.maxTxid target) snap.maxTxid target = .ok plan

/-- The database a snapshot decodes to, as a point of a chain. -/
def snapshotPoint (snap : DiscoveredLtx) (decoded : LtxApplied) : Staged :=
  ⟨snap.maxTxid, decoded.postApplyChecksum, decoded.db⟩

/-- A pool of incrementals only. -/
def OwnFile (mid : List Link) (bytes : Bytes) : Prop := ∃ l, mid = [l] ∧ bytes = l.bytes

/-- **No size is left behind**: every size the database had up to the TXID `cut` is reached again from there on. -/
def SizesReached (pageSize : UInt32) (s : Staged) (links : List Link) (cut target : Nat) : Prop :=
  ∀ p ∈ sizes pageSize s links, p.1 ≤ cut → ∃ q ∈ sizes pageSize s links, cut ≤ q.1 ∧ q.1 ≤ target ∧ p.2 ≤ q.2

section Restoring

variable {pageSize : UInt32} {b : LtxBucket} {pointInTime : Option Nat} {target : Nat} {snap : DiscoveredLtx}
  {plan : RestorePlan LtxKey} {object : Bytes} {decoded : LtxApplied} {links : List Link}

theorem decodeToDb_whole {bytes : Bytes} (h : decodeToDb ltx ph.sha64 bytes = .ok decoded)
    (hgeom : decoded.header.pageSize = pageSize.toNat) (snap : DiscoveredLtx) :
    Whole pageSize (snapshotPoint snap decoded) := by
  obtain ⟨hpos, hlen⟩ := decodeToDb_length h
  rw [hgeom] at hpos hlen
  show decoded.db.length = decoded.db.length / pageSize.toNat * pageSize.toNat
  rw [hlen, Nat.mul_div_cancel _ hpos]

/-- **A restore over a pool of pieces** returns the chain value of the target and a file that is a front part of
    what the chain leaves in place, as long as the greatest size since the last merged object. -/
theorem Stores.restores (hval : ValidSize pageSize)
    (hplanned : Planned ltx b pointInTime target snap plan) (hget : b.get snap.key = some object)
    (hdecoded : decodeToDb ltx ph.sha64 object = .ok decoded) (hgeom : decoded.header.pageSize = pageSize.toNat)
    (hchain : Chain ltx ph.sha64 pageSize (snapshotPoint snap decoded) links)
    (hstores : Stores (Piece ltx ph.sha64) b (snapshotPoint snap decoded) links) :
    ∃ run later f, links = run ++ later ∧ (endOf (snapshotPoint snap decoded) run).seq = target ∧
      Laid (Piece ltx ph.sha64) b (snapshotPoint snap decoded) plan.files run ∧
      (∀ check : Bytes → String, check f = "ok" → restoreLegacyLtx ltx ph check b pointInTime =
        .ok ⟨target, (endOf (snapshotPoint snap decoded) run).checksum, f⟩) ∧
      f <+: inPlace ltx pageSize run decoded.db ∧
      IsGreatest (lengthsFrom pageSize (snapshotPoint snap decoded) run (lastMerged b snap.maxTxid plan.files))
        f.length := by
  have hs := decodeToDb_whole hdecoded hgeom snap
  obtain ⟨hfollows, hends⟩ := planRestore_tiles hplanned.plan
  obtain ⟨run, later, hlinks, hlaid, hseq⟩ :=
    @Stores.laid ltx ph.sha64 pageSize _ links _ b hstores hchain target _ [] links rfl hfollows
  rw [show endsAt (endOf (snapshotPoint snap decoded) []).seq plan.files = target from hends hplanned.floor] at hseq
  have hrun : Chain ltx ph.sha64 pageSize (snapshotPoint snap decoded) ([] ++ run) := by
    rw [hlinks] at hchain
    exact (append_iff.mp hchain).1
  have hlen : IsGreatest (lengthsFrom pageSize (snapshotPoint snap decoded) [] snap.maxTxid) decoded.db.length :=
    (@nil ltx ph.sha64 pageSize (snapshotPoint snap decoded)).greatest_end (validateSqlitePageSize_ok hval).2.1 hs
  obtain ⟨f, hfiles, hfront, hgreatest⟩ :=
    hlaid.applies hval hs rfl hrun (prefix_refl _) (prefix_refl _) (le_refl _) hlen
  refine ⟨run, later, f, hlinks, hseq, hlaid, ?_, hfront, hgreatest⟩
  intro check hcheck
  have hreplay : replayLegacy ltx ph b target (snapshotPoint snap decoded) =
      .ok ⟨target, (endOf (snapshotPoint snap decoded) run).checksum, f⟩ := by
    have hbase : (snapshotPoint snap decoded).seq = snap.maxTxid := rfl
    rw [replayLegacy, hbase, hplanned.plan]
    refine hfiles.trans ?_
    rw [← hseq]
    rfl
  have hreached : restoreReachedTarget target target pointInTime.isSome = .ok () := by
    rw [restoreReachedTarget]
    split <;> simp
  have hstaged : restoreLegacyStaged ltx ph b pointInTime =
      .ok ⟨target, (endOf (snapshotPoint snap decoded) run).checksum, f⟩ := by
    rw [snapshotPoint] at hreplay
    rw [restoreLegacyStaged, if_neg hplanned.nonempty, if_neg (by rw [hplanned.known]; decide)]
    simp only [hplanned.goal, hplanned.snapshot, hget, hdecoded, hreplay, hreached]
    rfl
  rw [restoreLegacyLtx, hstaged]
  simp [hcheck]

end Restoring

section Lengths

variable {pageSize : UInt32} {s : Staged} {b : LtxBucket} {run later : List Link}

/-- Incrementals are pieces, and none of them is taken for a merged object. -/
theorem Stores.ownFile {links : List Link} (h : Stores OwnFile b s links) : Stores (Piece ltx sha64) b s links := by
  intro c hc hbeyond
  obtain ⟨pre, mid, post, bytes, hlinks, hrange, hget, l, rfl, rfl⟩ := h c hc hbeyond
  exact ⟨pre, [l], post, l.bytes, hlinks, hrange, hget, .file l⟩

theorem Laid.lastMerged_ownFile {files : List LtxCandidate} (hlaid : Laid OwnFile b s files run)
    (hchain : Chain ltx sha64 pageSize s run) {cut : Nat} : lastMerged b cut files = cut := by
  induction hlaid with
  | nil s => rfl
  | cons hget hpiece _ _ ih =>
    obtain ⟨l, rfl, rfl⟩ := hpiece
    cases hchain with
    | cons hl hrest =>
      have hfile : isMerged l.bytes = false := decide_eq_false (take_ne_magic hl.header)
      rw [lastMerged, hget, Option.getD_some, hfile]
      exact ih hrest

/-- The sizes of a beginning of the chain are those up to its last TXID. -/
theorem Chain.mem_sizes_iff (hps : 0 < pageSize.toNat) (h : Chain ltx sha64 pageSize s (run ++ later)) :
    q ∈ sizes pageSize s run ↔ q ∈ sizes pageSize s (run ++ later) ∧ q.1 ≤ (endOf s run).seq := by
  obtain ⟨hrun, hlater⟩ := append_iff.mp h
  rw [sizes_append, mem_append]
  constructor
  · exact fun hq => ⟨.inl hq, hrun.size_le hps hq⟩
  · rintro ⟨hq | hq, hle⟩
    · exact hq
    · obtain ⟨l, hl, rfl⟩ := mem_map.mp hq
      exact absurd (hlater.seq_lt l hl) (not_lt.mpr hle)

/-- The greatest lengths since two points are the same exactly if no size is left behind. -/
theorem Chain.lengths_eq_iff (hps : 0 < pageSize.toNat) (h : Chain ltx sha64 pageSize s (run ++ later))
    {cut n m : Nat} (hn : IsGreatest (lengthsFrom pageSize s run s.seq) n)
    (hm : IsGreatest (lengthsFrom pageSize s run cut) m) :
    n = m ↔ SizesReached pageSize s (run ++ later) cut (endOf s run).seq := by
  have hrun := (append_iff.mp h).1
  have hmem : ∀ q, q ∈ sizes pageSize s run ↔ q ∈ sizes pageSize s (run ++ later) ∧ q.1 ≤ (endOf s run).seq :=
    fun q => h.mem_sizes_iff hps
  have hfirst : ∀ q ∈ sizes pageSize s run, s.seq ≤ q.1 := by
    intro q hq
    rcases mem_cons.mp hq with rfl | hq
    · exact le_refl _
    · obtain ⟨l, hl, rfl⟩ := mem_map.mp hq
      exact le_of_lt (hrun.seq_lt l hl)
  obtain ⟨⟨qm, hqm, hcutm, hmval⟩, hmub⟩ := hm
  obtain ⟨⟨qn, hqn, -, hnval⟩, hnub⟩ := hn
  constructor
  · intro hnm p hp hpcut
    have hprun : p ∈ sizes pageSize s run :=
      (hmem p).mpr ⟨hp, le_trans hpcut (le_trans hcutm (hrun.size_le hps hqm))⟩
    have hple : p.2 * pageSize.toNat ≤ n := hnub ⟨p, hprun, hfirst p hprun, rfl⟩
    obtain ⟨hqm', hqmle⟩ := (hmem qm).mp hqm
    rw [hnm, hmval] at hple
    exact ⟨qm, hqm', hcutm, hqmle, Nat.le_of_mul_le_mul_right hple hps⟩
  · intro hreached
    have hmn : m ≤ n := by
      rw [hmval]
      exact hnub ⟨qm, hqm, hfirst qm hqm, rfl⟩
    have hnm : n ≤ m := by
      rcases lt_or_ge qn.1 cut with hlt | hge
      · obtain ⟨q, hq, hcut, hle, hsize⟩ := hreached qn ((hmem qn).mp hqn).1 (le_of_lt hlt)
        rw [hnval]
        exact le_trans (Nat.mul_le_mul_right _ hsize) (hmub ⟨q, (hmem q).mpr ⟨hq, hle⟩, hcut, rfl⟩)
      · rw [hnval]
        exact hmub ⟨qn, hqn, hge, rfl⟩
    exact le_antisymm hnm hmn

end Lengths

/-- **Folding preserves restore exactly where no size is left behind.** Two buckets with the same snapshot, one
    with the incrementals of a chain beyond it, the other with any folding of them: to every boundary that both
    can plan, both restores return, with the same TXID and chain value, and the files are the same exactly if every
    size the database had up to the end of the last merged object used is reached again after it. -/
theorem fold_preserves_restore_iff (ltx : LtxCrate) (ph : Physical) (pageSize : UInt32)
    (hval : validateSqlitePageSize pageSize = .ok pageSize.toNat) (b b' : LtxBucket) (pointInTime : Option Nat)
    (target : Nat) (snap : DiscoveredLtx) (plan plan' : RestorePlan LtxKey) (object : Bytes) (decoded : LtxApplied)
    (links : List Link) (hplanned : Planned ltx b pointInTime target snap plan)
    (hplanned' : Planned ltx b' pointInTime target snap plan') (hget : b.get snap.key = some object)
    (hget' : b'.get snap.key = some object) (hdecoded : decodeToDb ltx ph.sha64 object = .ok decoded)
    (hgeom : decoded.header.pageSize = pageSize.toNat)
    (hchain : Chain ltx ph.sha64 pageSize (snapshotPoint snap decoded) links)
    (hfiles : Stores OwnFile b (snapshotPoint snap decoded) links)
    (hpieces : Stores (Piece ltx ph.sha64) b' (snapshotPoint snap decoded) links) :
    ∃ checksum f f',
      (∀ check : Bytes → String, check f = "ok" →
        restoreLegacyLtx ltx ph check b pointInTime = .ok ⟨target, checksum, f⟩) ∧
      (∀ check : Bytes → String, check f' = "ok" →
        restoreLegacyLtx ltx ph check b' pointInTime = .ok ⟨target, checksum, f'⟩) ∧
      (f = f' ↔ SizesReached pageSize (snapshotPoint snap decoded) links
        (lastMerged b' snap.maxTxid plan'.files) target) := by
  have hps := (validateSqlitePageSize_ok hval).2.1
  obtain ⟨run, later, f, hlinks, hseq, -, hrestore, hfront, hlen⟩ :=
    Stores.restores hval hplanned hget hdecoded hgeom hchain hfiles.ownFile
  obtain ⟨run', later', f', hlinks', hseq', -, hrestore', hfront', hlen'⟩ :=
    Stores.restores hval hplanned' hget' hdecoded hgeom hchain hpieces
  -- both plans make up the same run
  have hrun : run' = run := by
    refine hchain.prefix_unique ?_ ?_ (hseq'.trans hseq.symm)
    · rw [hlinks']
      exact prefix_append _ _
    · rw [hlinks]
      exact prefix_append _ _
  subst hrun
  have hcut : lastMerged b snap.maxTxid plan.files = snap.maxTxid := by
    obtain ⟨run₀, later₀, hlinks₀, hlaid₀, -⟩ :=
      @Stores.laid ltx ph.sha64 pageSize _ links _ b hfiles hchain target _ [] links rfl
        (planRestore_tiles hplanned.plan).1
    have hchain₀ := hchain
    rw [hlinks₀] at hchain₀
    exact hlaid₀.lastMerged_ownFile (append_iff.mp hchain₀).1
  rw [hcut] at hlen
  rw [hlinks] at hchain
  have hlengths := hchain.lengths_eq_iff hps hlen hlen'
  rw [← hlinks, hseq] at hlengths
  refine ⟨_, f, f', hrestore, hrestore', ?_⟩
  rw [← hlengths]
  constructor
  · rintro rfl
    rfl
  · intro heq
    rcases prefix_or_prefix_of_prefix hfront hfront' with h | h
    · exact h.eq_of_length heq
    · exact (h.eq_of_length heq.symm).symm

/-! ### Two incrementals that rewrite the first page -/

/-- The three files, told apart by the byte after their magic. -/
def ltxObject (n : UInt8) : Bytes := ltxMagic ++ [n]

/-- A database of two pages. -/
def twoPages : Bytes := filled 1 ++ filled 2

/-- SHA-256 on what the three files hash. -/
def twoSha64 (bs : Bytes) : UInt64 :=
  if bs = twoPages then 0x2ddfe0faea440b60
  else if bs = chainBytes 0xaddfe0faea440b60 [(1, filled 3)] then 0xbe691ed8b5bc622d
  else if bs = chainBytes 0xbe691ed8b5bc622d [(1, filled 4)] then 0xaf542491f889ca4e
  else 0

/-- The headers: a snapshot of two pages, then two incrementals that leave the database at `commit` pages. -/
def twoHeader (commit : Nat) (n : UInt8) : LtxHeader where
  noChecksum := false
  pageSize := 512
  commit := if n = 1 then 2 else commit
  minTxid := n.toNat
  maxTxid := n.toNat
  createdMs := 0
  preApplyChecksum := if n = 1 then none else if n = 2 then some 0xaddfe0faea440b60 else some 0xbe691ed8b5bc622d

theorem topBit_idem (c : UInt64) : c ||| 0x8000000000000000 ||| 0x8000000000000000 = c ||| 0x8000000000000000 := by
  rw [UInt64.or_assoc, UInt64.or_self]

/-- A decoder that knows the three files. `Checksum::new` sets the top bit. -/
def twoCrate (commit : Nat) : LtxCrate where
  header bytes :=
    if bytes = ltxObject 1 then .ok (twoHeader commit 1)
    else if bytes = ltxObject 2 then .ok (twoHeader commit 2)
    else if bytes = ltxObject 3 then .ok (twoHeader commit 3)
    else .error "invalid header"
  pages bytes :=
    if bytes = ltxObject 1 then [(1, filled 1), (2, filled 2)]
    else if bytes = ltxObject 2 then [(1, filled 3)]
    else [(1, filled 4)]
  finish bytes :=
    if bytes = ltxObject 1 then .done 0xaddfe0faea440b60
    else if bytes = ltxObject 2 then .done 0xbe691ed8b5bc622d
    else .done 0xaf542491f889ca4e
  checksum c := c ||| 0x8000000000000000
  header_magic := by
    intro bytes h hok
    split at hok
    · next hb => rw [hb]; rfl
    · split at hok
      · next hb => rw [hb]; rfl
      · split at hok
        · next hb => rw [hb]; rfl
        · cases hok
  page_length := by
    intro bytes h hok p hp
    have hsize : h.pageSize = 512 := by
      split at hok
      · cases hok
        rfl
      split at hok
      · cases hok
        rfl
      · split at hok
        · cases hok
          rfl
        · cases hok
    rw [hsize]
    split at hp
    · simp only [mem_cons, not_mem_nil, or_false] at hp
      rcases hp with rfl | rfl <;> exact length_filled _
    · split at hp <;> rw [mem_singleton.mp hp] <;> exact length_filled _
  checksum_checksum := topBit_idem
  checksum_pre := by
    intro bytes h c hok hpre
    split at hok
    · injection hok with hok
      rw [← hok] at hpre
      cases hpre
    split at hok
    · injection hok with hok
      rw [← hok] at hpre
      cases hpre
      decide
    · split at hok
      · injection hok with hok
        rw [← hok] at hpre
        cases hpre
        decide
      · cases hok
  checksum_post := by
    intro bytes c hok
    split at hok
    · cases hok
      decide
    · split at hok
      · cases hok
        decide
      · cases hok
        decide

/-- The incrementals, at TXID 2 and 3. -/
def linkTwo (commit : Nat) : Link :=
  ⟨ltxObject 2, twoHeader commit 2, 0xbe691ed8b5bc622d,
    (⟨[(1, filled 3)], commit⟩ : Pages.Patch).apply 512 twoPages⟩

def linkThree (commit : Nat) : Link :=
  ⟨ltxObject 3, twoHeader commit 3, 0xaf542491f889ca4e,
    (⟨[(1, filled 4)], commit⟩ : Pages.Patch).apply 512 (linkTwo commit).image⟩

/-- Where the snapshot stands. -/
def twoBase : Staged := ⟨1, 0xaddfe0faea440b60, twoPages⟩

theorem length_twoPages : twoPages.length = 1024 := by
  rw [twoPages, length_append, length_filled, length_filled]

theorem twoSha64_pages : twoSha64 twoPages = 0x2ddfe0faea440b60 := if_pos rfl

theorem length_chainBytes (pre : UInt64) (page : UInt32) (b : UInt8) :
    (chainBytes pre [(page, filled b)]).length = 524 := by
  simp [chainBytes]

theorem twoSha64_two : twoSha64 (chainBytes 0xaddfe0faea440b60 [(1, filled 3)]) = 0xbe691ed8b5bc622d := by
  have hne : chainBytes 0xaddfe0faea440b60 [(1, filled 3)] ≠ twoPages := by
    intro h
    have hlen := congrArg List.length h
    rw [length_chainBytes, length_twoPages] at hlen
    exact absurd hlen (by decide)
  rw [twoSha64, if_neg hne, if_pos rfl]

theorem twoSha64_three : twoSha64 (chainBytes 0xbe691ed8b5bc622d [(1, filled 4)]) = 0xaf542491f889ca4e := by
  have hne : chainBytes 0xbe691ed8b5bc622d [(1, filled 4)] ≠ twoPages := by
    intro h
    have hlen := congrArg List.length h
    rw [length_chainBytes, length_twoPages] at hlen
    exact absurd hlen (by decide)
  have hne' : chainBytes 0xbe691ed8b5bc622d [(1, filled 4)] ≠ chainBytes 0xaddfe0faea440b60 [(1, filled 3)] := by
    intro h
    have hhead := congrArg (List.take 8) h
    exact absurd hhead (by decide)
  rw [twoSha64, if_neg hne, if_neg hne', if_pos rfl]

/-- A snapshot file of the two pages decodes to them, under every crate that reads it as one. -/
theorem decode_twoPages {bytes : Bytes} {header : LtxHeader} (hheader : ltx.header bytes = .ok header)
    (hcommit : header.commit = 2) (hsize : header.pageSize = 512)
    (hlist : ltx.pages bytes = [(1, filled 1), (2, filled 2)])
    (hfinish : ltx.finish bytes = .done 0xaddfe0faea440b60)
    (hsum : ltx.checksum 0x2ddfe0faea440b60 = 0xaddfe0faea440b60) :
    decodeToDb ltx twoSha64 bytes = .ok ⟨header, twoPages, 0xaddfe0faea440b60⟩ := by
  have hpages : decodePages 512 2 [(1, filled 1), (2, filled 2)] (replicate (2 * 512) 0) = .ok twoPages := by
    have hone : File.writeAt (replicate (2 * 512) 0) ((1 - 1) * 512) (filled 1) =
        filled 1 ++ replicate 512 0 := by decide +kernel
    have htwo : File.writeAt (filled 1 ++ replicate 512 0) ((2 - 1) * 512) (filled 2) = twoPages := by
      decide +kernel
    have hfirst : ((1 : UInt32).toNat - 1) * 512 = (1 - 1) * 512 := rfl
    have hsecond : ((2 : UInt32).toNat - 1) * 512 = (2 - 1) * 512 := rfl
    rw [decodePages, if_neg (by decide), decodePages, if_neg (by decide), decodePages, hfirst, hsecond, hone, htwo]
  have hdb : computeDbChecksum ltx twoSha64 twoPages = 0xaddfe0faea440b60 := by
    rw [computeDbChecksum, twoSha64_pages]
    exact hsum
  rw [decodeToDb, hheader]
  simp only [hcommit, hsize, hlist, hpages, hfinish, hdb]
  rw [if_neg (by decide), if_neg (by decide), if_neg fun h => h.2 rfl]

theorem decode_twoBase (commit : Nat) :
    decodeToDb (twoCrate commit) twoSha64 (ltxObject 1) = .ok ⟨twoHeader commit 1, twoPages, 0xaddfe0faea440b60⟩ :=
  decode_twoPages rfl rfl rfl rfl rfl rfl

/-- They are a chain, whether they leave the database at two pages or cut it to one. -/
theorem chain_two {commit : Nat} (hpos : 0 < commit) (hle : commit ≤ 2) :
    Chain (twoCrate commit) twoSha64 512 twoBase [linkTwo commit, linkThree commit] := by
  have hcovers : ∀ (data : Bytes) (pages : Nat), commit ≤ pages →
      (⟨[(1, data)], commit⟩ : Pages.Patch).Covers pages :=
    fun data pages hpages k hk hke => absurd (le_trans hke hpages) (not_le.mpr hk)
  have htwo : Follows (twoCrate commit) twoSha64 512 twoBase (linkTwo commit) :=
    { header := rfl
      finish := rfl
      noChecksum := rfl
      pre := rfl
      post := by
        show _ = (twoSha64 (chainBytes 0xaddfe0faea440b60 [(1, filled 3)])) ||| 0x8000000000000000
        rw [twoSha64_two]
        rfl
      minTxid := rfl
      maxTxid := by
        show 1 < 2
        decide
      geometry := rfl
      ascending := pairwise_singleton _ _
      within := by
        intro p hp
        obtain rfl := mem_singleton.mp (show p ∈ [((1 : UInt32), filled 3)] from hp)
        exact ⟨by decide, hpos⟩
      commit := lt_of_le_of_lt (Nat.add_le_add_right hle 1) (by decide)
      covers := by
        refine hcovers _ _ (le_trans hle ?_)
        rw [twoBase, length_twoPages]
        decide
      image := rfl }
  have hthree : Follows (twoCrate commit) twoSha64 512 (linkTwo commit).point (linkThree commit) :=
    { header := rfl
      finish := rfl
      noChecksum := rfl
      pre := rfl
      post := by
        show _ = (twoSha64 (chainBytes 0xbe691ed8b5bc622d [(1, filled 4)])) ||| 0x8000000000000000
        rw [twoSha64_three]
        rfl
      minTxid := rfl
      maxTxid := by
        show 2 < 3
        decide
      geometry := rfl
      ascending := pairwise_singleton _ _
      within := by
        intro p hp
        obtain rfl := mem_singleton.mp (show p ∈ [((1 : UInt32), filled 4)] from hp)
        exact ⟨by decide, hpos⟩
      commit := lt_of_le_of_lt (Nat.add_le_add_right hle 1) (by decide)
      covers := by
        refine hcovers _ _ ?_
        show commit ≤ (linkTwo commit).image.length / 512
        rw [htwo.length]
        exact le_of_eq (Nat.mul_div_cancel _ (by decide)).symm
      image := rfl }
  exact .cons htwo (.cons hthree (.nil _))

/-- The snapshot and the incrementals. -/
def flatTwo : LtxBucket where
  entries := [(.file 1 1 1, ltxObject 1), (.file 0 2 2, ltxObject 2), (.file 0 3 3, ltxObject 3)]
  nodup := by decide

/-- The snapshot and one merged object. -/
def foldedTwo (object : Bytes) : LtxBucket where
  entries := [(.file 1 1 1, ltxObject 1), (.level 1 2 3, object)]
  nodup := by simp

def twoSnapshot : DiscoveredLtx := ⟨.file 1 1 1, 1, 1, 1⟩

theorem findLatestLegacySnapshot_only {b : LtxBucket} {s : DiscoveredLtx}
    (h : ((b.keys.filterMap (discoveredOf ltx b)).filter fun s => isSnapshot s.generation s.minTxid s.maxTxid) = [s]) :
    findLatestLegacySnapshot ltx b none = some s := by
  rw [findLatestLegacySnapshot, perm_singleton.mp (snapshots_perm.trans (.of_eq h))]
  rfl

theorem candidates_flatTwo :
    gatherLegacyCandidates flatTwo = [⟨.file 0 2 2, 0, ⟨2, 2⟩⟩, ⟨.file 0 3 3, 0, ⟨3, 3⟩⟩] := rfl

theorem candidates_foldedTwo (object : Bytes) :
    gatherLegacyCandidates (foldedTwo object) = [⟨.level 1 2 3, 1, ⟨2, 3⟩⟩] := rfl

theorem planned_flatTwo (ltx : LtxCrate) :
    Planned ltx flatTwo none 3 twoSnapshot ⟨1, 3, [⟨.file 0 2 2, 0, ⟨2, 2⟩⟩, ⟨.file 0 3 3, 0, ⟨3, 3⟩⟩]⟩ where
  nonempty := by decide
  known := rfl
  goal := by
    rfl
  snapshot := findLatestLegacySnapshot_only rfl
  floor := by decide
  plan := by
    rfl

theorem planned_foldedTwo (ltx : LtxCrate) (object : Bytes) :
    Planned ltx (foldedTwo object) none 3 twoSnapshot ⟨1, 3, [⟨.level 1 2 3, 1, ⟨2, 3⟩⟩]⟩ where
  nonempty := by
    show (3 : Nat) ≠ 0
    decide
  known := rfl
  goal := by
    rfl
  snapshot := findLatestLegacySnapshot_only rfl
  floor := by decide
  plan := by
    rfl

theorem stores_flatTwo (commit : Nat) : Stores OwnFile flatTwo twoBase [linkTwo commit, linkThree commit] := by
  intro c hc _
  rw [candidates_flatTwo] at hc
  simp only [mem_cons, not_mem_nil, or_false] at hc
  rcases hc with rfl | rfl
  · exact ⟨[], [linkTwo commit], [linkThree commit], ltxObject 2, rfl, rfl, rfl, linkTwo commit, rfl, rfl⟩
  · exact ⟨[linkTwo commit], [linkThree commit], [], ltxObject 3, rfl, rfl, rfl, linkThree commit, rfl, rfl⟩

theorem stores_foldedTwo {commit : Nat} {object : Bytes}
    (h : Piece (twoCrate commit) sha64 [linkTwo commit, linkThree commit] object) :
    Stores (Piece (twoCrate commit) sha64) (foldedTwo object) twoBase [linkTwo commit, linkThree commit] := by
  intro c hc _
  rw [candidates_foldedTwo, mem_singleton] at hc
  subst hc
  exact ⟨[], [linkTwo commit, linkThree commit], [], object, rfl, rfl, rfl, h⟩

/-- The merged object of the two incrementals. -/
theorem exists_foldedTwo {commit : Nat} (hpos : 0 < commit) (hle : commit ≤ 2) :
    ∃ object, Piece (twoCrate commit) twoSha64 [linkTwo commit, linkThree commit] object ∧ isMerged object = true := by
  have hwhole : Whole 512 twoBase := by
    rw [Whole, twoBase, length_twoPages]
    decide
  exact @folds _ _ _ (verifyingOf twoSha64) _ rfl hwhole (chain_two hpos hle) (cons_ne_nil _ _) 0

theorem lastMerged_foldedTwo {object : Bytes} (h : isMerged object = true) :
    lastMerged (foldedTwo object) twoSnapshot.maxTxid [⟨.level 1 2 3, 1, ⟨2, 3⟩⟩] = 3 := by
  have hget : (foldedTwo object).get (.level 1 2 3) = some object := rfl
  simp only [lastMerged, hget, Option.getD_some, h, if_true]

theorem sizes_two {commit : Nat} :
    sizes 512 twoBase [linkTwo commit, linkThree commit] = [(1, 2), (2, commit), (3, commit)] := by
  rw [sizes, twoBase, length_twoPages]
  rfl

/-- Two incrementals that keep the size, folded: the same file. -/
theorem fold_preserves_restore_rewriting :
    ∃ ltx ph b b' checksum f, (∃ object, b'.get (.level 1 2 3) = some object ∧ isMerged object = true) ∧
      (∀ check : Bytes → String, check f = "ok" → restoreLegacyLtx ltx ph check b none = .ok ⟨3, checksum, f⟩) ∧
      (∀ check : Bytes → String, check f = "ok" → restoreLegacyLtx ltx ph check b' none = .ok ⟨3, checksum, f⟩) := by
  obtain ⟨object, hpiece, hmerged⟩ := @exists_foldedTwo 2 (by decide) (by decide)
  obtain ⟨checksum, f, f', hrestore, hrestore', hiff⟩ :=
    fold_preserves_restore_iff (twoCrate 2) (verifyingOf twoSha64) 512 rfl flatTwo (foldedTwo object) none 3 twoSnapshot
      _ _ (ltxObject 1) ⟨twoHeader 2 1, twoPages, 0xaddfe0faea440b60⟩ [linkTwo 2, linkThree 2] (planned_flatTwo _)
      (planned_foldedTwo _ object) rfl rfl (decode_twoBase 2) rfl (chain_two (by decide) (by decide))
      (stores_flatTwo 2) (stores_foldedTwo hpiece)
  have hsame : f = f' := by
    rw [hiff, lastMerged_foldedTwo hmerged]
    intro p hp _
    have hsizes : sizes 512 (snapshotPoint twoSnapshot ⟨twoHeader 2 1, twoPages, 0xaddfe0faea440b60⟩)
        [linkTwo 2, linkThree 2] = [(1, 2), (2, 2), (3, 2)] := sizes_two
    rw [hsizes] at hp ⊢
    refine ⟨(3, 2), by decide, by decide, by decide, ?_⟩
    simp only [mem_cons, not_mem_nil, or_false] at hp
    rcases hp with rfl | rfl | rfl <;> exact le_refl _
  subst hsame
  exact ⟨_, _, flatTwo, foldedTwo object, checksum, f, ⟨object, rfl, hmerged⟩, hrestore, hrestore'⟩

/-- Two incrementals that cut the database to one page, folded: the incrementals leave the second page behind. -/
theorem fold_drops_what_incrementals_keep :
    ∃ (ltx : LtxCrate) (ph : Physical) (b b' : LtxBucket) (base : Staged) (links : List Link)
        (checksum checksum' : UInt64) (f f' : Bytes), Chain ltx ph.sha64 512 base links ∧ Stores OwnFile b base links ∧
      Stores (Piece ltx ph.sha64) b' base links ∧
      (∀ check : Bytes → String, check f = "ok" → restoreLegacyLtx ltx ph check b none = .ok ⟨3, checksum, f⟩) ∧
      (∀ check : Bytes → String, check f' = "ok" → restoreLegacyLtx ltx ph check b' none = .ok ⟨3, checksum', f'⟩) ∧
      f'.length = 512 ∧ 1024 ≤ f.length := by
  obtain ⟨object, hpiece, hmerged⟩ := @exists_foldedTwo 1 (by decide) (by decide)
  have hchain := @chain_two 1 (by decide) (by decide)
  have hfiles : Stores (Piece (twoCrate 1) (verifyingOf twoSha64).sha64) flatTwo twoBase [linkTwo 1, linkThree 1] :=
    (stores_flatTwo 1).ownFile
  obtain ⟨run, later, f, -, -, -, hrestore, -, hlen⟩ :=
    @Stores.restores (twoCrate 1) (verifyingOf twoSha64) 512 _ _ _ _ _ _ _ _ rfl (planned_flatTwo _) rfl
      (decode_twoBase 1) rfl hchain hfiles
  obtain ⟨run', later', f', hlinks', -, -, hrestore', -, hlen'⟩ :=
    @Stores.restores (twoCrate 1) (verifyingOf twoSha64) 512 _ _ _ _ _ _ _ _ rfl (planned_foldedTwo _ object) rfl
      (decode_twoBase 1) rfl hchain (stores_foldedTwo hpiece)
  refine ⟨_, _, flatTwo, foldedTwo object, twoBase, _, _, _, f, f', hchain, stores_flatTwo 1, stores_foldedTwo hpiece,
    hrestore, hrestore', ?_, ?_⟩
  · -- of the sizes from TXID 3 on there is one
    rw [lastMerged_foldedTwo hmerged] at hlen'
    obtain ⟨⟨q, hq, hlate, hval⟩, -⟩ := hlen'
    have hmem : q ∈ sizes 512 twoBase [linkTwo 1, linkThree 1] := by
      rw [hlinks', sizes_append]
      exact mem_append_left _ hq
    rw [sizes_two] at hmem
    simp only [mem_cons, not_mem_nil, or_false] at hmem
    rcases hmem with rfl | rfl | rfl
    · exact absurd hlate (by decide)
    · exact absurd hlate (by decide)
    · exact hval
  · -- the snapshot's two pages stay
    have hbase : (1, 2) ∈ sizes 512 twoBase run := by
      rw [sizes, twoBase, length_twoPages]
      exact mem_cons_self
    exact hlen.2 ⟨(1, 2), hbase, le_refl _, rfl⟩

/-- A decoder that reads every LTX object as a snapshot of the two pages, up to the TXID in its fifth byte. -/
def snapshotCrate : LtxCrate where
  header bytes :=
    if bytes.take 4 = ltxMagic then .ok ⟨false, 512, 2, 1, (bytes.getD 4 0).toNat, 0, none⟩ else .error "invalid header"
  pages _ := [(1, filled 1), (2, filled 2)]
  finish _ := .done 0xaddfe0faea440b60
  checksum c := c ||| 0x8000000000000000
  header_magic := by
    intro bytes h hok
    split at hok
    · next hmagic => exact hmagic
    · cases hok
  page_length := by
    intro bytes h hok p hp
    split at hok
    · cases hok
      simp only [mem_cons, not_mem_nil, or_false] at hp
      rcases hp with rfl | rfl <;> exact length_filled _
    · cases hok
  checksum_checksum := topBit_idem
  checksum_pre := by
    intro bytes h c hok hpre
    split at hok
    · injection hok with hok
      rw [← hok] at hpre
      cases hpre
    · cases hok
  checksum_post := by
    intro bytes c hok
    cases hok
    decide

end Legacy
end Walrust
