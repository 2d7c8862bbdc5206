import Walrust.Compaction.Engine

/-!
# `Walrust.Legacy` — the LTX object layout

The CLI keeps its backups in the layout it inherited: generation folders of LTX files named by their TXID range,
generation 0 for the live incrementals and the others for snapshots, and merged HADBP objects under
`levels/L*/`. Readers never consult a manifest; everything is a listing.

* `LtxKey`, `LtxCrate` — the keys of one database, and the decoder of the LTX crate;
* `discoverLegacyState`, `listLegacyGenerationFiles`, `discoverLegacySnapshots` — the listings;
* `gatherLegacyCandidates` — the objects a restore may replay, and `Extends`, what one of them does for it.
-/

namespace Walrust
namespace Legacy

open Compaction Lib List

variable {generation : Nat} {k : LtxKey} {s : DiscoveredLtx} {ltx : LtxCrate} {b : LtxBucket}

/-! ## Keys and objects -/

/-- The LTX objects of one database. -/
inductive LtxKey where
  /-- `{generation:04x}/{min:016x}-{max:016x}.ltx` -/
  | file (generation min max : Nat)
  /-- `{txid:08}.ltx`, the old flat shape, beside the generation folders. -/
  | flat (txid : Nat)
  /-- The same name inside `0000/`. -/
  | flatInside (txid : Nat)
  /-- `levels/L{level}/{min:016x}-{max:016x}.ltx`, a merged HADBP object. -/
  | level (level min max : Nat)
  deriving DecidableEq, Repr

abbrev LtxBucket := Store LtxKey Bytes

/-- `GENERATION_LIVE`. -/
def generationLive : Nat := 0

/-- The header of an LTX file. -/
structure LtxHeader where
  /-- `HeaderFlags::NO_CHECKSUM`. -/
  noChecksum : Bool
  pageSize : Nat
  /-- The size of the database in pages. -/
  commit : Nat
  minTxid : Nat
  maxTxid : Nat
  createdMs : Int64
  preApplyChecksum : Option UInt64
  deriving DecidableEq, Repr

/-- How a file ends: a page that does not decode, a trailer that does not verify, or the trailer's
    `post_apply_checksum`. -/
inductive LtxEnd where
  | page (e : String)
  | trailer (e : String)
  | done (post : UInt64)
  deriving DecidableEq, Repr

/-- **The LTX crate**: `Decoder::new`, the pages that `decode_page` yields, and what it ends with. `checksum` is
    `Checksum::new`; every checksum the decoder returns was built by it, and every page fills the buffer. -/
structure LtxCrate where
  header : Bytes → Except String LtxHeader
  pages : Bytes → List (UInt32 × Bytes)
  finish : Bytes → LtxEnd
  checksum : UInt64 → UInt64
  header_magic : ∀ bytes h, header bytes = .ok h → bytes.take 4 = ltxMagic
  page_length : ∀ bytes h, header bytes = .ok h → ∀ p ∈ pages bytes, p.2.length = h.pageSize
  checksum_checksum : ∀ c, checksum (checksum c) = checksum c
  checksum_pre : ∀ bytes h c, header bytes = .ok h → h.preApplyChecksum = some c → checksum c = c
  checksum_post : ∀ bytes c, finish bytes = .done c → checksum c = c

/-- `is_snapshot`. -/
def isSnapshot (generation minTxid maxTxid : Nat) : Bool :=
  0 < generation || (minTxid = 1 && maxTxid = 1)

/-! ## Listings -/

/-- The generation and TXID a key adds to the state. -/
def LtxKey.state : LtxKey → Nat × Nat
  | .file generation _ max => (max, generation)
  | .flat txid => (txid, 0)
  | .flatInside _ => (0, 0)
  | .level _ min max => (if min ≤ max then max else 0, 0)

/-- `discover_legacy_state`: the newest TXID and the newest generation. -/
def discoverLegacyState (b : LtxBucket) : Nat × Nat :=
  b.keys.foldl (fun s k => (max s.1 k.state.1, max s.2 k.state.2)) (0, 0)

/-- One file of a generation listing. -/
structure LtxFile where
  key : LtxKey
  minTxid : Nat
  maxTxid : Nat
  deriving DecidableEq, Repr

section

variable (ltx : LtxCrate) (b : LtxBucket)

/-- `legacy_flat_ltx_range`: the range in the header, or the TXID of the name. -/
def legacyFlatLtxRange (key : LtxKey) (txid : Nat) : Nat × Nat :=
  match b.get key with
  | none => (txid, txid)
  | some bytes =>
    match ltx.header bytes with
    | .error _ => (txid, txid)
    | .ok header => (header.minTxid, header.maxTxid)

/-- The entry of a key in the listing of a generation. -/
def generationFile (generation : Nat) : LtxKey → Option LtxFile
  | .file g min max => if g = generation then some ⟨.file g min max, min, max⟩ else none
  | .flat txid =>
    if generation = generationLive then
      let range := legacyFlatLtxRange ltx b (.flat txid) txid
      some ⟨.flat txid, range.1, range.2⟩
    else none
  | _ => none

/-- `list_legacy_generation_files`, by first TXID. -/
def listLegacyGenerationFiles (generation : Nat) : List LtxFile :=
  (b.keys.filterMap (generationFile ltx b generation)).mergeSort fun f g => f.minTxid ≤ g.minTxid

end

/-- A file and its generation. -/
structure DiscoveredLtx where
  key : LtxKey
  generation : Nat
  minTxid : Nat
  maxTxid : Nat
  deriving DecidableEq, Repr

def LtxFile.discovered (generation : Nat) (f : LtxFile) : DiscoveredLtx :=
  ⟨f.key, generation, f.minTxid, f.maxTxid⟩

/-- The files of the generations `1, …, n`. -/
def snapshotGenerations (ltx : LtxCrate) (b : LtxBucket) (n : Nat) : List DiscoveredLtx :=
  (range n).flatMap fun i => (listLegacyGenerationFiles ltx b (i + 1)).map (LtxFile.discovered (i + 1))

/-- `discover_legacy_snapshots`: the snapshots of generation 0, then the other generations. -/
def discoverLegacySnapshots (ltx : LtxCrate) (b : LtxBucket) : List DiscoveredLtx :=
  let live := ((listLegacyGenerationFiles ltx b generationLive).filter fun f =>
    isSnapshot generationLive f.minTxid f.maxTxid).map (LtxFile.discovered generationLive)
  (live ++ snapshotGenerations ltx b (discoverLegacyState b).2).mergeSort fun f g =>
    f.generation < g.generation || (f.generation = g.generation && f.maxTxid ≤ g.maxTxid)

/-! ## What a restore may replay -/

/-- The range of a key in the pool of one level: level 0 is the folder `0000/`. -/
def poolRange (level : Nat) : LtxKey → Option SeqRange
  | .file generation min max => if level = 0 ∧ generation = 0 then some ⟨min, max⟩ else none
  | .flatInside txid => if level = 0 then some (.point txid) else none
  | .level l min max => if l = level ∧ 1 ≤ level ∧ min ≤ max then some ⟨min, max⟩ else none
  | .flat _ => none

abbrev LtxCandidate := PlanCandidate LtxKey

/-- `gather_legacy_candidates`: level 0, then the levels `1..16`, by name only. -/
def gatherLegacyCandidates (b : LtxBucket) : List LtxCandidate :=
  (range (maxLevelProbe + 1)).flatMap fun level =>
    b.keys.filterMap fun key => (poolRange level key).map fun range => ⟨key, level, range⟩

/-- Some object of the pool leads a restore from the TXID `n` to the TXID `m`. -/
def Extends (pool : List LtxCandidate) (n m : Nat) : Prop :=
  ∃ c ∈ pool, c.range.min = n + 1 ∧ c.range.max = m ∧ n < m

/-- An exact tiling of the TXIDs after `n` up to `m`. -/
abbrev Tiles (pool : List LtxCandidate) : Nat → Nat → Prop := Relation.ReflTransGen (Extends pool)

section Members

variable {f : LtxFile} {m n : Nat} {pool pool' : List LtxCandidate}

theorem mem_listLegacyGenerationFiles :
    f ∈ listLegacyGenerationFiles ltx b generation ↔
      ∃ k ∈ b.keys, generationFile ltx b generation k = some f := by
  rw [listLegacyGenerationFiles, mem_mergeSort, mem_filterMap]

theorem generationFile_key (h : generationFile ltx b generation k = some f) : f.key = k := by
  cases k with
  | file | flat =>
    simp only [generationFile] at h
    split at h
    · injection h with h
      rw [← h]
    · cases h
  | flatInside | level => cases h

theorem generationFile_unique {g g' : Nat} {f' : LtxFile} (h : generationFile ltx b g k = some f)
    (h' : generationFile ltx b g' k = some f') : g = g' := by
  cases k with
  | file generation min max =>
    simp only [generationFile, Option.ite_none_right_eq_some] at h h'
    rw [← h.1, ← h'.1]
  | flat txid =>
    simp only [generationFile, Option.ite_none_right_eq_some] at h h'
    rw [h.1, h'.1]
  | flatInside txid => cases h
  | level l min max => cases h

theorem generationFile_state (h : generationFile ltx b generation k = some f) : k.state.2 = generation := by
  cases k with
  | file g min max =>
    simp only [generationFile, Option.ite_none_right_eq_some] at h
    exact h.1
  | flat txid =>
    simp only [generationFile, Option.ite_none_right_eq_some] at h
    exact h.1.symm
  | flatInside txid => cases h
  | level l min max => cases h

theorem le_foldl_state (ks : List LtxKey) (s : Nat × Nat) :
    s ≤ ks.foldl (fun s k => (max s.1 k.state.1, max s.2 k.state.2)) s ∧
      ∀ k ∈ ks, k.state ≤ ks.foldl (fun s k => (max s.1 k.state.1, max s.2 k.state.2)) s := by
  induction ks generalizing s with
  | nil => exact ⟨le_refl _, fun k hk => absurd hk not_mem_nil⟩
  | cons k ks ih =>
    obtain ⟨hstart, hrest⟩ := ih (max s.1 k.state.1, max s.2 k.state.2)
    refine ⟨le_trans ⟨le_max_left _ _, le_max_left _ _⟩ hstart, ?_⟩
    intro j hj
    rcases mem_cons.mp hj with rfl | hj
    · exact le_trans ⟨le_max_right _ _, le_max_right _ _⟩ hstart
    · exact hrest j hj

theorem state_le_discoverLegacyState (hk : k ∈ b.keys) : k.state ≤ discoverLegacyState b :=
  (le_foldl_state b.keys (0, 0)).2 k hk

/-- The generation probe passes every generation that has a file. -/
theorem generation_le_discoverLegacyState (hk : k ∈ b.keys) (h : generationFile ltx b generation k = some f) :
    generation ≤ (discoverLegacyState b).2 := by
  rw [← generationFile_state h]
  exact (state_le_discoverLegacyState hk).2

/-- The file a key is listed as. -/
def discoveredOf (ltx : LtxCrate) (b : LtxBucket) (k : LtxKey) : Option DiscoveredLtx :=
  (generationFile ltx b k.state.2 k).map (LtxFile.discovered k.state.2)

theorem discoveredOf_eq_some : discoveredOf ltx b k = some s ↔
    s.key = k ∧ generationFile ltx b s.generation s.key = some ⟨s.key, s.minTxid, s.maxTxid⟩ := by
  constructor
  · intro h
    obtain ⟨f, hf, rfl⟩ := Option.map_eq_some_iff.mp h
    obtain rfl := generationFile_key hf
    exact ⟨rfl, hf⟩
  · rintro ⟨rfl, h⟩
    rw [discoveredOf, generationFile_state h, h]
    rfl

theorem discovered_nodup : (b.keys.filterMap (discoveredOf ltx b)).Nodup := by
  refine List.Nodup.filterMap ?_ b.nodup
  intro k k' s hs hs'
  rw [← (discoveredOf_eq_some.mp hs).1, ← (discoveredOf_eq_some.mp hs').1]

/-- The generations together list every key that has a file. -/
theorem generations_perm :
    ((listLegacyGenerationFiles ltx b generationLive).map (LtxFile.discovered generationLive) ++
      snapshotGenerations ltx b (discoverLegacyState b).2).Perm (b.keys.filterMap (discoveredOf ltx b)) := by
  have hmem : ∀ {generation : Nat} {s}, s ∈ (listLegacyGenerationFiles ltx b generation).map
      (LtxFile.discovered generation) ↔ s.generation = generation ∧ ∃ k ∈ b.keys, discoveredOf ltx b k = some s := by
    intro generation s
    simp only [mem_map, mem_listLegacyGenerationFiles, discoveredOf_eq_some]
    constructor
    · rintro ⟨f, ⟨k, hk, hfile⟩, rfl⟩
      obtain rfl := generationFile_key hfile
      exact ⟨rfl, f.key, hk, rfl, hfile⟩
    · rintro ⟨rfl, k, hk, rfl, hfile⟩
      exact ⟨_, ⟨s.key, hk, hfile⟩, rfl⟩
  have hnodup : ∀ {generation : Nat}, ((listLegacyGenerationFiles ltx b generation).map
      (LtxFile.discovered generation)).Nodup := by
    intro generation
    refine ((mergeSort_perm _ _).nodup_iff.mpr (List.Nodup.filterMap ?_ b.nodup)).map ?_
    · intro k k' f hf hf'
      rw [← generationFile_key hf, ← generationFile_key hf']
    · rintro ⟨_, _, _⟩ ⟨_, _, _⟩ h
      simpa [LtxFile.discovered] using h
  refine (perm_ext_iff_of_nodup (hnodup.append (nodup_flatMap.mpr ⟨fun i _ => hnodup, ?_⟩) ?_)
    discovered_nodup).mpr ?_
  · refine nodup_range.imp ?_
    intro i j hij s hs hs'
    have := (hmem.mp hs).1.symm.trans (hmem.mp hs').1
    omega
  · intro s hs hs'
    obtain ⟨i, -, hs'⟩ := mem_flatMap.mp hs'
    exact absurd ((hmem.mp hs).1.symm.trans (hmem.mp hs').1) (Nat.succ_ne_zero i).symm
  intro s
  simp only [mem_append, mem_flatMap, hmem, mem_filterMap, mem_range]
  constructor
  · rintro (⟨-, h⟩ | ⟨i, -, -, h⟩) <;> exact h
  · rintro ⟨k, hk, h⟩
    cases hgeneration : s.generation with
    | zero => exact .inl ⟨rfl, k, hk, h⟩
    | succ i =>
      obtain ⟨rfl, hfile⟩ := discoveredOf_eq_some.mp h
      have hi := generation_le_discoverLegacyState hk hfile
      exact .inr ⟨i, by omega, rfl, s.key, hk, h⟩

theorem snapshots_perm : (discoverLegacySnapshots ltx b).Perm
    ((b.keys.filterMap (discoveredOf ltx b)).filter fun s => isSnapshot s.generation s.minTxid s.maxTxid) := by
  refine (mergeSort_perm _ _).trans (.trans ?_ (generations_perm.filter _))
  rw [filter_append, filter_map]
  refine (List.Perm.refl _).append (.of_eq (filter_eq_self.mpr ?_).symm)
  intro s hs
  -- Every later generation is one of snapshots.
  obtain ⟨i, -, hs⟩ := mem_flatMap.mp hs
  obtain ⟨f, -, rfl⟩ := mem_map.mp hs
  simp [isSnapshot, LtxFile.discovered]

theorem mem_discoverLegacySnapshots :
    s ∈ discoverLegacySnapshots ltx b ↔
      s.key ∈ b.keys ∧ generationFile ltx b s.generation s.key = some ⟨s.key, s.minTxid, s.maxTxid⟩ ∧
        isSnapshot s.generation s.minTxid s.maxTxid = true := by
  simp only [snapshots_perm.mem_iff, mem_filter, mem_filterMap, discoveredOf_eq_some]
  constructor
  · rintro ⟨⟨k, hk, rfl, hfile⟩, hsnap⟩
    exact ⟨hk, hfile, hsnap⟩
  · rintro ⟨hk, hfile, hsnap⟩
    exact ⟨⟨s.key, hk, rfl, hfile⟩, hsnap⟩

theorem discoverLegacySnapshots_unique {s' : DiscoveredLtx} (hs : s ∈ discoverLegacySnapshots ltx b)
    (hs' : s' ∈ discoverLegacySnapshots ltx b) (hkey : s.key = s'.key) : s = s' := by
  obtain ⟨-, hfile, -⟩ := mem_discoverLegacySnapshots.mp hs
  obtain ⟨-, hfile', -⟩ := mem_discoverLegacySnapshots.mp hs'
  obtain ⟨key, generation, min, max⟩ := s
  obtain ⟨key', generation', min', max'⟩ := s'
  obtain rfl : key = key' := hkey
  obtain rfl : generation = generation' := generationFile_unique hfile hfile'
  have h := hfile.symm.trans hfile'
  obtain ⟨rfl, rfl⟩ := h
  rfl

theorem discoverLegacySnapshots_nodup (ltx : LtxCrate) (b : LtxBucket) :
    (discoverLegacySnapshots ltx b).Nodup := snapshots_perm.nodup_iff.mpr (discovered_nodup.filter _)

theorem mem_gatherLegacyCandidates {c : LtxCandidate} :
    c ∈ gatherLegacyCandidates b ↔
      c.level ≤ maxLevelProbe ∧ c.key ∈ b.keys ∧ poolRange c.level c.key = some c.range := by
  simp only [gatherLegacyCandidates, mem_flatMap, mem_range, mem_filterMap, Option.map_eq_some_iff]
  constructor
  · rintro ⟨level, hlevel, key, hkey, range, hrange, rfl⟩
    exact ⟨Nat.lt_succ_iff.mp hlevel, hkey, hrange⟩
  · rintro ⟨hlevel, hkey, hrange⟩
    exact ⟨c.level, Nat.lt_succ_iff.mpr hlevel, c.key, hkey, c.range, hrange, rfl⟩

theorem poolRange_eq_some {level : Nat} {range : SeqRange} : poolRange level k = some range ↔
    level = 0 ∧ (k = .file 0 range.min range.max ∨ ∃ txid, k = .flatInside txid ∧ range = .point txid) ∨
    1 ≤ level ∧ range.min ≤ range.max ∧ k = .level level range.min range.max := by
  obtain ⟨min, max⟩ := range
  cases k <;> simp only [poolRange, Option.ite_none_right_eq_some] <;> grind [SeqRange.point]

/-- A file of the generation folders that is in the pool goes by the same range. -/
theorem generationFile_poolRange {level : Nat} {range : SeqRange} (hfile : generationFile ltx b generation k = some f)
    (hrange : poolRange level k = some range) : range = ⟨f.minTxid, f.maxTxid⟩ := by
  rcases poolRange_eq_some.mp hrange with ⟨-, rfl | ⟨txid, rfl, -⟩⟩ | ⟨-, -, rfl⟩
  · simp only [generationFile, Option.ite_none_right_eq_some, Option.some.injEq] at hfile
    rw [← hfile.2]
  · cases hfile
  · cases hfile

theorem Extends.mono (h : ∀ c ∈ pool, c ∈ pool') (hext : Extends pool n m) : Extends pool' n m := by
  obtain ⟨c, hc, hmin, hmax, hlt⟩ := hext
  exact ⟨c, h c hc, hmin, hmax, hlt⟩

theorem Tiles.mono (h : ∀ c ∈ pool, c ∈ pool') (htiles : Tiles pool n m) : Tiles pool' n m :=
  htiles.lift id fun _ _ hext => hext.mono h

theorem Tiles.le (h : Tiles pool n m) : n ≤ m := by
  induction h with
  | refl => exact le_refl _
  | tail _ hext ih =>
    obtain ⟨-, -, -, -, hlt⟩ := hext
    omega

end Members

/-! ### Deletes -/

section Deletes

variable {deleted : List LtxKey}

end Deletes

end Legacy
end Walrust
