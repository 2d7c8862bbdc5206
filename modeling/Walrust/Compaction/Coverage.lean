import Walrust.Compaction.MergeRestore
import Walrust.Compaction.Selection

/-!
# `Walrust.Compaction.Coverage` — sources are deleted only under a verified cover

The safety property of the engine: at whatever storage operation a run stops, each source it has deleted lies
within the range of a target-level object that is stored, decodes and is COMPACTED. The three deleting paths
(a fresh merge, the exact-range recovery, the interrupted-delete convergence) all come down to
`covered_of_erase`: a front part of files is deleted, each of them covered beforehand, and a delete at the
source level leaves the target level alone.

The exemption of the convergence step is *per cover*: an object that all its present sources tile exactly is passed
over. Another object of the target level, or the same one where more sources lie in it, can still claim a tiling set.
-/

namespace Walrust
namespace Compaction

open Hadbp Lib.Bytes Lib List

variable {env : Env} {b b' : Bucket} {c : Call}

variable {all targets files : List LayoutFile} {level : Level}

/-- A stored, decodable, COMPACTED object of `level` whose range contains `range`. -/
def Covered (env : Env) (b : Bucket) (level : Level) (range : SeqRange) : Prop :=
  ∃ key cover cs, keyRange level key = some cover ∧ rangeSubset range cover = true ∧
    DecodesTo env b key cs ∧ cs.isCompacted = true

/-- What a run may have done to the sources so far. -/
def SourcesSafe (env : Env) (level : Level) (b b' : Bucket) : Prop :=
  ∀ key range, keyRange level key = some range →
    b'.get key = b.get key ∨ b'.get key = none ∧ Covered env b' (level + 1) range

/-- Deleting covered files of a level keeps them covered. -/
theorem covered_of_erase (hsame : ∀ key, (keyRange level key).isSome → b'.get key = b.get key)
    (hfiles : ∀ f ∈ files, keyRange level f.key = some f.range ∧ Covered env b' (level + 1) f.range) :
    SourcesSafe env level b (eraseAll b' files) := by
  intro key range hkey
  by_cases hdel : ∃ f ∈ files, f.key = key
  · obtain ⟨f, hf, rfl⟩ := hdel
    obtain ⟨hrange, cover, cr, cs, hcover, hsub, ⟨bytes, hbytes, hdec⟩, hcomp⟩ := hfiles f hf
    obtain rfl := Option.some.inj (hrange.symm.trans hkey)
    refine .inr ⟨by rw [get_eraseAll, if_pos ⟨f, hf, rfl⟩], cover, cr, cs, hcover, hsub,
      ⟨bytes, ?_, hdec⟩, hcomp⟩
    -- the cover is of the other level, so none of the deletes was its own
    have hother : ¬ ∃ g ∈ files, g.key = cover := by
      rintro ⟨g, hg, rfl⟩
      have hlevel : level = level + 1 :=
        keyRange_level_unique (by rw [(hfiles g hg).1]; rfl) (by rw [hcover]; rfl)
      exact absurd hlevel (ne_of_lt (lt_add_one level))
    rw [get_eraseAll, if_neg hother, hbytes]
  · refine .inl ?_
    rw [get_eraseAll, if_neg hdel]
    exact hsame key (by rw [hkey]; rfl)

theorem SoundCover.covered {m : LayoutFile} {range : SeqRange} {cs : PhysicalChangeset}
    (h : SoundCover env b m.key cs) (hm : keyRange level m.key = some m.range)
    (hsub : rangeSubset range m.range = true) : Covered env b level range :=
  ⟨m.key, m.range, cs, hm, hsub, h.decoded, h.compacted⟩

theorem Leftovers.safe {deletable : List LayoutFile} (h : Leftovers env b c all targets deletable) {k : Nat} :
    SourcesSafe env c.level b (eraseAll b (deletable.take k)) := by
  refine covered_of_erase (fun _ _ => rfl) fun f hf => ?_
  obtain ⟨m, hm, ⟨_, _, cs, hsound, _⟩, hcov⟩ := h.justified f (mem_of_mem_take hf)
  obtain ⟨hfall, hsub⟩ := mem_filter.mp hcov
  exact ⟨(h.listed.fileAt f hfall).range_eq,
    hsound.covered (h.targetsListed.fileAt m hm).range_eq hsub⟩

theorem keyRange_span {rest : List LayoutFile} {first : LayoutFile} (h : Batch env b c all targets first rest) :
    keyRange (c.level + 1) (c.target first rest) = some (spanOf first rest) := by
  have hfirst := keyRange_le (h.listed.fileAt first (h.mem_all mem_cons_self)).range_eq
  have hw := rangeSubset_iff.mp (h.within mem_cons_self)
  have hle : (spanOf first rest).min ≤ (spanOf first rest).max := by omega
  simp [mergedKey, keyRange, hle]

theorem ReadsBack.decodes {stored : Bytes} {result : MergeResult} (h : ReadsBack env stored result) :
    ∃ cs, env.ph.decode stored = .ok cs ∧ cs.isCompacted = true := by
  obtain ⟨cs, hcs⟩ := h
  obtain ⟨hdec, hcomp, _⟩ := verifyMergedBytes_eq_ok.mp hcs
  exact ⟨cs, hdec, hcomp⟩

/-- **Every bucket a run can leave** has its deleted sources covered. -/
theorem Effect.sourcesSafe (h : Effect env b c b') : SourcesSafe env c.level b b' := by
  cases h with
  | unchanged => exact fun _ _ _ => .inl rfl
  | converged hleft k => exact hleft.safe
  | @recovered all targets rest first existing hbatch hmem hrange hsound k =>
    refine covered_of_erase (fun _ _ => rfl) fun f hf => ?_
    have hf := mem_of_mem_take hf
    obtain ⟨cs, hcs, _⟩ := hsound
    refine ⟨(hbatch.listed.fileAt f (hbatch.mem_all hf)).range_eq,
      hcs.covered (hbatch.targetsListed.fileAt existing hmem).range_eq ?_⟩
    rw [hrange]
    exact hbatch.within hf
  | dropped hbatch hadm =>
    intro key range hkey
    refine .inl ?_
    rw [Store.get_erase, if_neg (keyRange_mergedKey_ne (by rw [hkey]; rfl))]
  | stored hbatch hadm hmerge hstored =>
    intro key range hkey
    exact .inl (Store.get_put_of_ne _ _ (keyRange_mergedKey_ne (by rw [hkey]; rfl)))
  | @swapped all targets rest first result stored hbatch hadm hmerge hstored hback k =>
    refine covered_of_erase (fun key hkey => Store.get_put_of_ne _ _ (keyRange_mergedKey_ne hkey))
      fun f hf => ?_
    have hf := mem_of_mem_take hf
    obtain ⟨cs, hdec, hcomp⟩ := hback.decodes
    exact ⟨(hbatch.listed.fileAt f (hbatch.mem_all hf)).range_eq, _, _, cs, keyRange_span hbatch,
      hbatch.within hf, ⟨stored, Store.get_put_self _ _ _, hdec⟩, hcomp⟩

/-! ## Stopped runs -/

/-- The storage a program leaves, returned or stopped. -/
def leaves {α : Type} : EStateM.Result Halt Storage α → Storage
  | .ok _ s => s
  | .error _ s => s

/-- What a program returned, if it did. -/
def returned {α : Type} : EStateM.Result Halt Storage α → Option α
  | .ok a _ => some a
  | .error _ _ => none

theorem runLevelCompaction_effect (env : Env) (c : Call) (s : Storage) :
    Effect env s.bucket c (leaves (c.run env s)).bucket := by
  have hspec := runLevelCompaction_spec env s.bucket c s rfl
  cases hrun : c.run env s with
  | ok o s' =>
    rw [hrun] at hspec
    exact hspec.effect
  | error e s' =>
    rw [hrun] at hspec
    exact hspec.1

/-- What the convergence step has deleted: only leftovers of converging objects, and all of them if it returns. -/
theorem convergeInterruptedDelete_leaves {s : Storage} (hs : Listing env s.bucket c.level all)
    (ht : Listing env s.bucket (c.level + 1) targets) :
    let r := convergeInterruptedDelete env targets all s
    (∀ f ∈ all, (leaves r).bucket.get f.key ≠ s.bucket.get f.key →
      ∃ m ∈ targets, Converges env s.bucket all m ∧ f ∈ coveredBy all m) ∧
    ((returned r).isSome → ∀ m ∈ targets, Converges env s.bucket all m → ∀ f ∈ coveredBy all m,
      (leaves r).bucket.get f.key = none) := by
  intro r
  have hspec := convergeInterruptedDelete_spec hs ht s rfl
  -- a changed source is one of the deleted files
  have hdel {deletable : List LayoutFile} (hleft : Leftovers env s.bucket c all targets deletable) {k : Nat} :
      ∀ f ∈ all, (eraseAll s.bucket (deletable.take k)).get f.key ≠ s.bucket.get f.key →
        ∃ m ∈ targets, Converges env s.bucket all m ∧ f ∈ coveredBy all m := by
    intro f hf hne
    rw [get_eraseAll] at hne
    by_cases hex : ∃ g ∈ deletable.take k, g.key = f.key
    · obtain ⟨g, hg, hkey⟩ := hex
      obtain ⟨m, hm, hconv, hcov⟩ := hleft.justified g (mem_of_mem_take hg)
      have hgf : g = f := inj_on_of_nodup_map hs.nodup (mem_filter.mp hcov).1 hf hkey
      exact ⟨m, hm, hconv, hgf ▸ hcov⟩
    · rw [if_neg hex] at hne
      exact absurd rfl hne
  cases hrun : r with
  | ok o s' =>
    rw [show convergeInterruptedDelete env targets all s = r from rfl, hrun] at hspec
    rcases hspec with ⟨-, hb, hnone⟩ | ⟨deletable, -, -, -, hleft, hb, hall⟩
    · exact ⟨fun f _ hne => absurd (congrArg (·.get f.key) hb) hne, fun _ m hm hconv => absurd hconv (hnone m hm)⟩
    · refine ⟨fun f hf hne => hdel hleft (k := deletable.length) f hf ?_, fun _ m hm hconv f hf => ?_⟩
      · rwa [take_length, ← hb]
      · obtain ⟨g, hg, hkey⟩ := mem_map.mp (hall m hm hconv f hf)
        show s'.bucket.get f.key = none
        rw [hb, get_eraseAll, if_pos ⟨g, hg, hkey⟩]
  | error e s' =>
    rw [show convergeInterruptedDelete env targets all s = r from rfl, hrun] at hspec
    obtain ⟨⟨deletable, k, hleft, hb⟩, -⟩ := hspec
    refine ⟨fun f hf hne => hdel hleft (k := k) f hf ?_, fun h => (by cases h)⟩
    rwa [← hb]

/-- The source set `set` tiles the target-level object `m` exactly. -/
def Tiles (all targets set : List LayoutFile) (m : LayoutFile) : Prop :=
  set ⊆ all ∧ m ∈ targets ∧ tilesExactly set m.range = true

/-- No source of a set that tiles a target-level object lies in an object of that level, the same or another, that
    passes for an interrupted merge. -/
def TilingsApart (env : Env) (b : Bucket) (all targets : List LayoutFile) : Prop :=
  ∀ set m, Tiles all targets set m → ∀ f ∈ set, ∀ m' ∈ targets, Converges env b all m' →
    rangeSubset f.range m'.range = false

/-- **Sources are deleted only under a verified cover.** At any stop of a run every deleted source lies within
    a stored object of the target level that decodes, with its content checksum, and is COMPACTED; a run that
    leaves no such object has deleted no source. The convergence step leaves every tiling set alone if the tilings are
    apart, and only then if it returns. -/
theorem deletes_only_covered (env : Env) (hdec : env.ph.ChecksContent) (c : Call) (s : Storage) :
    let b' := (leaves (c.run env s)).bucket
    (∀ key range, keyRange c.level key = some range → b'.get key ≠ s.bucket.get key →
      b'.get key = none ∧ ∃ coverKey cover bytes cs, keyRange (c.level + 1) coverKey = some cover ∧
        rangeSubset range cover = true ∧ b'.get coverKey = some bytes ∧ env.ph.decode bytes = .ok cs ∧
        cs.checksum = computeChecksum env.ph.sha64 cs.header.prevChecksum cs.pages ∧
        cs.isCompacted = true) ∧
    ((∀ range, ¬ Covered env b' (c.level + 1) range) →
      ∀ key, (keyRange c.level key).isSome → b'.get key = s.bucket.get key) ∧
    ∀ all targets, Listing env s.bucket c.level all → Listing env s.bucket (c.level + 1) targets →
      let r := convergeInterruptedDelete env targets all s
      let untouched := ∀ set m, Tiles all targets set m → ∀ f ∈ set, (leaves r).bucket.get f.key = s.bucket.get f.key
      (∀ f ∈ all, (leaves r).bucket.get f.key ≠ s.bucket.get f.key →
        ∃ m ∈ targets, f ∈ coveredBy all m ∧ tilesExactly (coveredBy all m) m.range = false ∧
          ∃ cs, SoundCover env s.bucket m.key cs) ∧
      (TilingsApart env s.bucket all targets → untouched) ∧
      ((returned r).isSome → (untouched ↔ TilingsApart env s.bucket all targets)) := by
  have hsafe := (runLevelCompaction_effect env c s).sourcesSafe
  refine ⟨?_, ?_, ?_⟩
  · intro key range hkey hne
    obtain ⟨hnone, coverKey, cover, cs, hcover, hsub, ⟨bytes, hbytes, hok⟩, hcomp⟩ :=
      (hsafe key range hkey).resolve_left hne
    exact ⟨hnone, coverKey, cover, bytes, cs, hcover, hsub, hbytes, hok, hdec bytes cs hok, hcomp⟩
  · intro hno key hkey
    obtain ⟨range, hrange⟩ := Option.isSome_iff_exists.mp hkey
    exact (hsafe key range hrange).resolve_right fun h => hno range h.2
  intro all targets hs ht r untouched
  obtain ⟨hdel, hall⟩ := convergeInterruptedDelete_leaves hs ht
  have hsuff : TilingsApart env s.bucket all targets → untouched := by
    intro hapart set m htiles f hf
    by_contra hne
    obtain ⟨m', hm', hconv, hcov⟩ := hdel f (htiles.1 hf) hne
    exact absurd (mem_filter.mp hcov).2 (by simp [hapart set m htiles f hf m' hm' hconv])
  refine ⟨fun f hf hne => ?_, hsuff, fun hreturned => ⟨fun huntouched set m htiles f hf m' hm' hconv => ?_, hsuff⟩⟩
  · obtain ⟨m, hm, ⟨_, htiles, cs, hsound, _⟩, hcov⟩ := hdel f hf hne
    exact ⟨m, hm, hcov, htiles, cs, hsound⟩
  · by_contra hsub
    have hfall := htiles.1 hf
    have hnone := hall hreturned m' hm' hconv f (mem_filter.mpr ⟨hfall, by simpa using hsub⟩)
    rw [huntouched set m htiles f hf] at hnone
    obtain ⟨h, ⟨bytes, hbytes, -⟩, -⟩ := (hs.fileAt f hfall).header
    rw [hnone] at hbytes
    cases hbytes

/-! ### A one-page database, rewritten by every changeset -/

/-- The pages of a changeset that fills the one page of the database with `k`. -/
def foldPages (k : UInt8) : List PageEntry := [⟨.u32 1, filled k⟩, ⟨.u32 2, []⟩]

/-- SHA-256 (first eight bytes) of what the changesets below hash, by the chain value in front and the byte
    the page is filled with. -/
def foldTable : List ((UInt64 × UInt8) × UInt64) :=
  [((0, 1), 14464885589399164488),
   ((14464885589399164488, 2), 10296579539930699720),
   ((10296579539930699720, 3), 11930418045224307610),
   ((11930418045224307610, 4), 12419129424006516517),
   ((12419129424006516517, 5), 4388440799511713968),
   ((4388440799511713968, 6), 1668304088428984270),
   ((1668304088428984270, 7), 9543382669185267362),
   ((9543382669185267362, 8), 17118440520431114396),
   ((17118440520431114396, 9), 13037567884528505828),
   ((13037567884528505828, 10), 6410592936078593805),
   ((6410592936078593805, 11), 9347201908500267563),
   ((0, 2), 1211680512939874449),
   ((0, 4), 6973448077079015984),
   ((14464885589399164488, 3), 15640250429478882007),
   ((14464885589399164488, 5), 14750719916263202871),
   ((14464885589399164488, 9), 5153146265035077316),
   ((11930418045224307610, 5), 10693055572113839418),
   ((4388440799511713968, 9), 2716148103192833352),
   ((9543382669185267362, 11), 7667720930634087019),
   ((0, 9), 14084687984331437577)]

def foldSha64 (bs : Bytes) : UInt64 :=
  (foldTable.lookup (UInt64.ofNat (beNat (bs.take 8)), bs.getD 16 0)).getD 0

/-- The chain value after the incremental `k`, which fills the page with `k`. -/
def foldChain : Nat → UInt64
  | 0 => 0
  | k + 1 => computeChecksum foldSha64 (foldChain k) (foldPages (UInt8.ofNat (k + 1)))

/-- The changeset of the seqs `min` to `max`, with the chain value it declares if it is merged. -/
def foldObject (min max : Nat) (declared : Option UInt64) : PhysicalChangeset where
  header :=
    { flags := 0x01
      pageIdSize := .u32
      pageSize := 512
      seq := UInt64.ofNat max
      prevChecksum := foldChain (min - 1)
      pageCount := 2
      createdMs := 0 }
  declaredEndChecksum := declared
  pages := foldPages (UInt8.ofNat max)
  checksum := computeChecksum foldSha64 (foldChain (min - 1)) (foldPages (UInt8.ofNat max))

/-- The stored incremental `k`. -/
def foldLive (k : Nat) (b : Bucket) : Bucket :=
  b.put (.changeset none .live k) (foldObject k k none).wire

/-- The stored merge of the seqs `min` to `max`. -/
def foldMerged (level min max : Nat) (b : Bucket) : Bucket :=
  b.put (.merged level min max) (foldObject min max (some (foldChain max))).wire

/-- A healthy storage. -/
def foldEnv : Env where
  ph := verifyingOf foldSha64
  ltx := ⟨fun _ => .error (.storage "ltx header decode"), fun _ => .error (.storage "ltx open")⟩
  pre := ""
  name := "db"
  createdMs := 0
  fault _ := .none

/-- The storage crashes at its operation `n`. -/
def crashAt (n : Nat) : Env := { foldEnv with fault := fun i => if i = n then .crash else .none }

/-- Two incrementals, and nothing merged yet. -/
def twoLive : Storage := ⟨foldLive 1 (foldLive 2 Store.empty), 0⟩

/-- A run over two incrementals that crashes between the two deletes: the first one is gone, and covered. -/
theorem deletes_only_covered_twoLive : ∃ (env : Env) (c : Call) (s : Storage),
    env.ph.ChecksContent ∧ (s.bucket.get (.changeset none .live 1)).isSome ∧
    (leaves (c.run env s)).bucket.get (.changeset none .live 2) =
      s.bucket.get (.changeset none .live 2) ∧
    (leaves (c.run env s)).bucket.get (.changeset none .live 1) = none ∧
    ∃ coverKey cover bytes cs, keyRange (c.level + 1) coverKey = some cover ∧
      rangeSubset (.point 1) cover = true ∧
      (leaves (c.run env s)).bucket.get coverKey = some bytes ∧ env.ph.decode bytes = .ok cs ∧
      cs.checksum = computeChecksum env.ph.sha64 cs.header.prevChecksum cs.pages ∧
      cs.isCompacted = true := by
  have hgone : (leaves (runLevelCompaction (crashAt 12) 0 2 0 0 twoLive)).bucket.get
      (.changeset none .live 1) = none := by decide +kernel
  have hhere : (twoLive.bucket.get (.changeset none .live 1)).isSome := by decide +kernel
  refine ⟨crashAt 12, ⟨0, 2, 0, 0⟩, twoLive, (verifyingOf_canonical _).checksContent, hhere, by decide +kernel, hgone, ?_⟩
  have hcovered := deletes_only_covered (crashAt 12) (verifyingOf_canonical _).checksContent ⟨0, 2, 0, 0⟩ twoLive
  refine (hcovered.1 (.changeset none .live 1) (.point 1) rfl fun h => ?_).2
  rw [← h, show (leaves (Call.run ⟨0, 2, 0, 0⟩ (crashAt 12) twoLive)).bucket.get _ = none from hgone]
    at hhere
  cases hhere

/-- Two sound objects of level 1 over the same seqs, and the sources of the shorter one. -/
def twoCovers : Storage :=
  ⟨foldLive 1 (foldLive 2 (foldMerged 1 1 2 (foldMerged 1 1 4 Store.empty))), 0⟩

theorem listing_of_returned {s : Storage}
    (h : returned (listLevelOf env level s) = some files) : Listing env s.bucket level files := by
  cases hrun : listLevelOf env level s with
  | ok a s' =>
    rw [hrun] at h
    cases h
    exact (Triple.of_ok (listLevelOf_reads level) rfl hrun).2
  | error e s' => rw [hrun] at h; cases h

def twoCoversSources : List LayoutFile :=
  [⟨.changeset none .live 1, 0, ⟨1, 1⟩, 0⟩, ⟨.changeset none .live 2, 0, ⟨2, 2⟩, 0⟩]

def twoCoversTargets : List LayoutFile := [⟨.merged 1 1 2, 1, ⟨1, 2⟩, 0⟩, ⟨.merged 1 1 4, 1, ⟨1, 4⟩, 0⟩]

theorem twoCovers_listing : Listing foldEnv twoCovers.bucket 0 twoCoversSources ∧
    Listing foldEnv twoCovers.bucket 1 twoCoversTargets :=
  ⟨listing_of_returned (by decide +kernel), listing_of_returned (by decide +kernel)⟩

/-- **A tiling set can go**: the sources 1 and 2 tile the object 1-2 exactly, and the convergence step deletes
    both of them against the object 1-4. -/
theorem tiling_set_deleted : ∃ env s all targets,
    env.ph.ChecksContent ∧ Listing env s.bucket 0 all ∧ Listing env s.bucket 1 targets ∧
    ∃ m ∈ targets, coveredBy all m = all ∧ tilesExactly (coveredBy all m) m.range = true ∧
      ∀ f ∈ all, (s.bucket.get f.key).isSome ∧
        (leaves (convergeInterruptedDelete env targets all s)).bucket.get f.key = none :=
  ⟨foldEnv, twoCovers, twoCoversSources, twoCoversTargets, (verifyingOf_canonical _).checksContent,
    twoCovers_listing.1, twoCovers_listing.2, by decide +kernel⟩

end Compaction
end Walrust
