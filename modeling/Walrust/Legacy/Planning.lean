import Walrust.Compaction.Plans
import Walrust.Legacy.FoldRestore

/-!
# `Walrust.Legacy.Planning` — planning over the names of a bucket

The planner's pool comes from object names alone. The merged levels refuse a name whose second TXID is smaller
than the first; the names in `0000/` are taken as they are. A range that ends before it begins moves the cursor
back, and the loop may then go round for ever.

* `Backs`, `planStep_climbs_iff` — every step moves the cursor forward exactly if each inverted range has the point
  it begins with beside it, which is then preferred;
* `planning_climbs_iff` — the same for the pool of a bucket, in terms of its names;
* `Overlooked` — discovery counts the flat names beside the generation folders and the merged objects of every level,
  but the pool has neither a flat name nor a level that is not probed;
* `Strays`, `planRestore_goes_iff` — the planner always takes the longest object, which may lead off a complete chain;
* `discovery_restorable_iff` — both together decide whether a head above a complete chain is planned.
-/

namespace Walrust
namespace Legacy

open Compaction Lib List

variable {b : LtxBucket}

/-! ## Loops that climb -/

section Climb

variable {κ : Type} {pool : List (PlanCandidate κ)} {floor target : Nat}

/-- A range that ends before it begins has the point it begins with beside it. -/
def Backs (pool : List (PlanCandidate κ)) : Prop :=
  ∀ c ∈ pool, c.range.max < c.range.min → ∃ d ∈ pool, d.range = .point c.range.min

/-- Every step of the loop moves the cursor forward, wherever it starts. -/
theorem planStep_climbs_iff : (∀ target cursor next, planStep pool target cursor = some next → cursor < next) ↔
    Backs pool := by
  constructor
  · intro h c hc hinv
    -- a restore of the one seq the range begins with
    have hcursor : c.range.min - 1 + 1 = c.range.min := by omega
    have hmem : c ∈ within pool (c.range.min - 1 + 1) c.range.min := by
      refine mem_filter.mpr ⟨hc, ?_⟩
      simp [hcursor, hinv.le]
    cases hpick : furthest (within pool (c.range.min - 1 + 1) c.range.min) with
    | none =>
      rw [furthest_eq_none.mp hpick] at hmem
      cases hmem
    | some pick =>
      obtain ⟨hpool, hmin, hmax, -⟩ := pick_spec hpick
      have hstep := h c.range.min (c.range.min - 1) _ (planStep_eq_some.mpr ⟨by omega, pick, hpick, rfl⟩)
      refine ⟨pick, hpool, ?_⟩
      have h1 : pick.range.min = c.range.min := by omega
      have h2 : pick.range.max = c.range.min := by omega
      calc pick.range = ⟨pick.range.min, pick.range.max⟩ := rfl
        _ = .point c.range.min := by rw [h1, h2, SeqRange.point]
  · intro h target cursor next hstep
    obtain ⟨hlt, pick, hpick, rfl⟩ := planStep_eq_some.mp hstep
    obtain ⟨hpool, hmin, -, hfar⟩ := pick_spec hpick
    by_contra hback
    -- the point would have been picked
    obtain ⟨d, hd, hrange⟩ := h pick hpool (by omega)
    have hdmin : d.range.min = cursor + 1 := by rw [hrange, SeqRange.point, hmin]
    have hdmax : d.range.max = cursor + 1 := by rw [hrange, SeqRange.point, hmin]
    have := hfar d hd hdmin (by omega)
    omega

theorem planRestore_stops (h : ∀ cursor next, planStep pool target cursor = some next → cursor < next) :
    planRestore pool floor target ≠ .error .diverges := by
  intro hdiv
  have hall := planRestore_diverges_iff.mp hdiv
  have hfar : ∀ n next, steps (planStep pool target) n floor = some next → floor + n ≤ next := by
    intro n
    induction n with
    | zero =>
      intro next hnext
      cases hnext
      exact le_refl _
    | succ n ih =>
      intro next hnext
      obtain ⟨cursor, hcursor, hstep⟩ := steps_succ_eq_some hnext
      have h1 := ih cursor hcursor
      have h2 := h cursor next hstep
      omega
  obtain ⟨next, hnext, hlt⟩ := hall target
  have := hfar target next hnext
  omega

end Climb

/-! ## The pool of a bucket -/

/-- The only inverted ranges are names of the folder `0000/`. -/
theorem inverted_gathered {c : LtxCandidate} (hc : c ∈ gatherLegacyCandidates b) (hinv : c.range.max < c.range.min) :
    .file 0 c.range.min c.range.max ∈ b.keys := by
  obtain ⟨-, hkey, hrange⟩ := mem_gatherLegacyCandidates.mp hc
  rcases poolRange_eq_some.mp hrange with ⟨-, hfile | ⟨txid, -, hpoint⟩⟩ | ⟨-, hle, -⟩
  · exact hfile ▸ hkey
  · rw [hpoint] at hinv
    exact absurd hinv (lt_irrefl _)
  · exact absurd hinv (not_lt.mpr hle)

theorem gathered_of_file {min max : Nat} (h : LtxKey.file 0 min max ∈ b.keys) :
    ⟨.file 0 min max, 0, ⟨min, max⟩⟩ ∈ gatherLegacyCandidates b :=
  mem_gatherLegacyCandidates.mpr ⟨Nat.zero_le _, h, by rw [poolRange, if_pos ⟨rfl, rfl⟩]⟩

/-- A name in `0000/` whose second TXID is the smaller one stands beside an object of exactly its first TXID. -/
def InvertedNamesBacked (b : LtxBucket) : Prop :=
  ∀ min max, LtxKey.file 0 min max ∈ b.keys → max < min → ∃ c ∈ gatherLegacyCandidates b, c.range = .point min

theorem backs_gathered_iff : Backs (gatherLegacyCandidates b) ↔ InvertedNamesBacked b :=
  ⟨fun h _ _ hkey hinv => h _ (gathered_of_file hkey) hinv,
    fun h _ hc hinv => h _ _ (inverted_gathered hc hinv) hinv⟩

/-- The filter of a restore keeps the point beside every inverted range it keeps. -/
theorem backs_planPool (h : InvertedNamesBacked b) (floor target : Nat) : Backs (planPool b floor target) := by
  intro c hc hinv
  obtain ⟨hc, hfilter⟩ := mem_filter.mp hc
  simp only [Bool.and_eq_true, decide_eq_true_eq] at hfilter
  obtain ⟨d, hd, hrange⟩ := backs_gathered_iff.mpr h c hc hinv
  have hmin : d.range.min = c.range.min := by rw [hrange, SeqRange.point]
  have hmax : d.range.max = c.range.min := by rw [hrange, SeqRange.point]
  refine ⟨d, mem_filter.mpr ⟨hd, ?_⟩, hrange⟩
  simp only [Bool.and_eq_true, decide_eq_true_eq]
  omega

/-- The loop over a pool stops, and on the way every step moves the cursor forward. -/
def Climbs {κ : Type} (pool : List (PlanCandidate κ)) (floor target : Nat) : Prop :=
  planRestore pool floor target ≠ .error .diverges ∧
    ∀ n cursor next, steps (planStep pool target) n floor = some cursor →
      planStep pool target cursor = some next → cursor < next

theorem climbs_of_backs {κ : Type} {pool : List (PlanCandidate κ)} (h : Backs pool) (floor target : Nat) :
    Climbs pool floor target :=
  have hstep := planStep_climbs_iff.mpr h target
  ⟨planRestore_stops hstep, fun _ cursor next _ => hstep cursor next⟩

/-- **Restore planning terminates exactly if the inverted names are backed.** Over the pool gathered from a bucket,
    the loop stops for every floor and target with every step moving the cursor forward, if and only if each name
    of `0000/` whose second TXID is smaller than the first stands beside an object of exactly the first. The pool
    that a restore filters for its floor and target then has the property too. -/
theorem planning_climbs_iff (b : LtxBucket) :
    ((∀ floor target, Climbs (gatherLegacyCandidates b) floor target) ↔ InvertedNamesBacked b) ∧
    (InvertedNamesBacked b → ∀ floor target, Climbs (planPool b floor target) floor target) := by
  refine ⟨⟨fun h => ?_, fun h => climbs_of_backs (backs_gathered_iff.mpr h)⟩,
    fun h floor target => climbs_of_backs (backs_planPool h floor target) floor target⟩
  apply backs_gathered_iff.mp
  apply planStep_climbs_iff.mp
  intro target cursor next hstep
  exact (h cursor target).2 0 cursor next rfl hstep

/-- A snapshot, an incremental, and a name whose TXIDs are the wrong way round. -/
def invertedBucket : LtxBucket where
  entries := [(.file 1 1 1, []), (.file 0 2 2, []), (.file 0 3 2, []), (.file 0 5 5, [])]
  nodup := by simp

/-- A restore to the newest TXID plans for ever: the name `3-2` takes it from 2 back to 2. -/
theorem planning_goes_round : ∃ b : LtxBucket, latestTxid b = 5 ∧
    planRestore (planPool b 1 5) 1 5 = .error .diverges ∧
    planRestore (gatherLegacyCandidates b) 1 5 = .error .diverges ∧
    ∀ n, ∃ next, steps (planStep (planPool b 1 5) 5) n 1 = some next ∧ next < 5 := by
  have h : planRestore (planPool invertedBucket 1 5) 1 5 = .error .diverges := rfl
  exact ⟨invertedBucket, rfl, h, rfl, planRestore_diverges_iff.mp h⟩

/-- The same names with the incremental of TXID 3 beside the inverted one. -/
def backedBucket : LtxBucket where
  entries := [(.file 1 1 1, []), (.file 0 2 2, []), (.file 0 3 2, []), (.file 0 3 3, []), (.file 0 5 5, [])]
  nodup := by simp

theorem planning_climbs_backed : ∃ b : LtxBucket, LtxKey.file 0 3 2 ∈ b.keys ∧
    ∀ floor target, Climbs (gatherLegacyCandidates b) floor target ∧ Climbs (planPool b floor target) floor target := by
  have hbacked : InvertedNamesBacked backedBucket := by
    intro min max hkey hinv
    -- the only inverted name begins with 3
    have hmin : min = 3 := by
      simp only [backedBucket, Lib.Store.keys, map_cons, map_nil, mem_cons, LtxKey.file.injEq,
        not_mem_nil, or_false] at hkey
      omega
    subst hmin
    exact ⟨⟨.file 0 3 3, 0, ⟨3, 3⟩⟩, gathered_of_file (by decide), rfl⟩
  obtain ⟨hiff, hpool⟩ := planning_climbs_iff backedBucket
  exact ⟨backedBucket, by decide, fun floor target => ⟨hiff.mpr hbacked floor target, hpool hbacked floor target⟩⟩

/-! ## What discovery counts -/

section Discovery

variable {ltx : LtxCrate}

/-- The TXIDs that discovery reads from a name. -/
def LtxKey.counted : LtxKey → Option SeqRange
  | .file _ min max => some ⟨min, max⟩
  | .flat txid => some (.point txid)
  | .flatInside _ => none
  | .level _ min max => if min ≤ max then some ⟨min, max⟩ else none

/-- A stored object that is no snapshot, and that discovery counts with these TXIDs. -/
def Incremental (ltx : LtxCrate) (b : LtxBucket) (k : LtxKey) (range : SeqRange) : Prop :=
  k ∈ b.keys ∧ (∀ s ∈ discoverLegacySnapshots ltx b, s.key ≠ k) ∧ k.counted = some range

/-- The incrementals that are counted lead from the TXID `n` to the TXID `m` without a gap. -/
abbrev Counted (ltx : LtxCrate) (b : LtxBucket) : Nat → Nat → Prop :=
  Relation.ReflTransGen fun n m => n < m ∧ ∃ k, Incremental ltx b k ⟨n + 1, m⟩

/-- The incrementals that no listing of the pool has. -/
def Overlooked : LtxKey → Prop
  | .flat _ => True
  | .level level _ _ => level = 0 ∨ maxLevelProbe < level
  | _ => False

/-- **An incremental is in the pool, with the TXIDs it is counted with, unless it is overlooked.** -/
theorem Incremental.gathered_iff {k : LtxKey} {range : SeqRange} (h : Incremental ltx b k range) :
    (∃ level, ⟨k, level, range⟩ ∈ gatherLegacyCandidates b) ↔ ¬ Overlooked k := by
  obtain ⟨hkey, hsnap, hcounted⟩ := h
  simp only [mem_gatherLegacyCandidates, hkey, true_and]
  cases k with
  | file generation min max =>
    cases hcounted
    -- Every other generation holds snapshots.
    have hlive : generation = 0 := by
      by_contra hgeneration
      refine hsnap ⟨.file generation min max, generation, min, max⟩ (mem_discoverLegacySnapshots.mpr ⟨hkey, ?_⟩) rfl
      simp [generationFile, isSnapshot, pos_of_ne_zero hgeneration]
    simp only [Overlooked, not_false_eq_true, iff_true]
    exact ⟨0, Nat.zero_le _, if_pos ⟨rfl, hlive⟩⟩
  | flat txid => simp [poolRange, Overlooked]
  | flatInside txid => cases hcounted
  | level level' min max =>
    simp only [LtxKey.counted, Option.ite_none_right_eq_some] at hcounted
    obtain ⟨hle, hrange⟩ := hcounted
    simp only [poolRange, hle, Overlooked, Option.ite_none_right_eq_some, hrange]
    constructor
    · rintro ⟨level, hprobed, ⟨rfl, hpos, -⟩, -⟩ (rfl | hbeyond)
      · exact absurd hpos (by decide)
      · exact absurd hprobed (not_le.mpr hbeyond)
    · intro hprobed
      obtain ⟨hpos, hle⟩ := not_or.mp hprobed
      exact ⟨level', not_lt.mp hle, ⟨rfl, pos_of_ne_zero hpos, trivial⟩, trivial⟩

/-! ## The greedy choice -/

section Greedy

variable {pool : List LtxCandidate} {floor head n m : Nat} {files : List LtxCandidate}

/-- Of the objects that begin right behind the TXID `n` and end within `head`, those that reach furthest end at `m`. -/
def Longest (pool : List LtxCandidate) (head n m : Nat) : Prop :=
  Extends pool n m ∧ m ≤ head ∧ ∀ c ∈ pool, c.range.min = n + 1 → c.range.max ≤ head → c.range.max ≤ m

/-- **The longest object leads astray**: on the way of the longest objects there is a TXID from which objects lead
    to `head` end to end, and the longest object from there ends where none do. -/
def Strays (pool : List LtxCandidate) (floor head : Nat) : Prop :=
  ∃ n m, Relation.ReflTransGen (Longest pool head) floor n ∧ Tiles pool n head ∧ Longest pool head n m ∧
    ¬ Tiles pool m head

/-- One of the ranges begins inside the other and ends beyond it. -/
def Crossing (pool : List LtxCandidate) : Prop :=
  ∃ c ∈ pool, ∃ d ∈ pool, c.range.min < d.range.min ∧ d.range.min ≤ c.range.max ∧ c.range.max < d.range.max

/-- Below its end a tiling goes on with an object. -/
theorem Tiles.goes (h : Tiles pool n head) (hlt : n < head) :
    ∃ c ∈ pool, c.range.min = n + 1 ∧ n < c.range.max ∧ c.range.max ≤ head := by
  obtain rfl | ⟨m, ⟨c, hc, hmin, rfl, hup⟩, hrest⟩ := h.cases_head
  · exact absurd hlt (lt_irrefl _)
  · exact ⟨c, hc, hmin, hup, Tiles.le hrest⟩

/-- Where every TXID on the way leads to `head`, the loop finds a plan, given more rounds than there are objects
    ahead. -/
theorem planLoop_of_tiles (h : ∀ n, Relation.ReflTransGen (Longest pool head) floor n → Tiles pool n head)
    {rounds : Nat} (hrounds : ahead pool n < rounds) (hn : Relation.ReflTransGen (Longest pool head) floor n) :
    ∃ files, planLoop pool head rounds n = .ok files ∧ ∀ c ∈ files, c.range.min ≤ c.range.max := by
  induction rounds generalizing n with
  | zero => cases hrounds
  | succ rounds ih =>
    unfold planLoop
    by_cases hdone : head ≤ n
    · exact ⟨[], if_pos hdone, fun c hc => (by cases hc)⟩
    rw [if_neg hdone]
    obtain ⟨c, hc, hmin, hup, hmax⟩ := (h n hn).goes (not_le.mp hdone)
    cases hpick : furthest (within pool (n + 1) head) with
    | none => exact absurd (furthest_eq_none.mp hpick) (not_stuck hc hmin hmax)
    | some pick =>
      obtain ⟨hmem, hpmin, hpmax, hfar⟩ := pick_spec hpick
      have hpup : n < pick.range.max := hup.trans_le (hfar c hc hmin hmax)
      have hlong : Longest pool head n pick.range.max := ⟨⟨pick, hmem, hpmin, rfl, hpup⟩, hpmax, hfar⟩
      obtain ⟨files, hfiles, hproper⟩ :=
        ih (Nat.lt_of_lt_of_le (ahead_lt hmem hpup) (Nat.lt_succ_iff.mp hrounds)) (hn.tail hlong)
      exact ⟨pick :: files, by simp only [hfiles], forall_mem_cons.mpr ⟨by omega, hproper⟩⟩

/-- Below the target, a loop that succeeds has picked. -/
theorem planLoop_goes {rounds : Nat} (h : planLoop pool head rounds n = .ok files) (hlt : n < head) :
    ∃ rounds' pick rest, files = pick :: rest ∧ furthest (within pool (n + 1) head) = some pick ∧
      planLoop pool head rounds' pick.range.max = .ok rest := by
  unfold planLoop at h
  rw [if_neg (not_le.mpr hlt)] at h
  cases rounds with
  | zero => cases h
  | succ rounds =>
    cases hpick : furthest (within pool (n + 1) head) with
    | none =>
      simp only [hpick] at h
      split at h <;> cases h
    | some pick =>
      simp only [hpick] at h
      split at h
      · cases h
      rename_i rest hrest
      exact ⟨rounds, pick, rest, (Except.ok.inj h).symm, rfl, hrest⟩

/-- A plan of objects that all go on is a tiling. -/
theorem tiles_of_planLoop {rounds : Nat} (h : planLoop pool head rounds n = .ok files)
    (hproper : ∀ c ∈ files, c.range.min ≤ c.range.max) (hle : n ≤ head) : Tiles pool n head := by
  induction files generalizing n rounds with
  | nil =>
    rcases eq_or_lt_of_le hle with rfl | hlt
    · exact .refl
    · obtain ⟨_, _, _, hfiles, _⟩ := planLoop_goes h hlt
      cases hfiles
  | cons c files ih =>
    rcases eq_or_lt_of_le hle with rfl | hlt
    · exact .refl
    obtain ⟨_, _, _, ⟨⟩, hpick, hrest⟩ := planLoop_goes h hlt
    obtain ⟨hmem, hmin, hmax, -⟩ := pick_spec hpick
    have hup := hproper c mem_cons_self
    exact .head ⟨c, hmem, hmin, rfl, by omega⟩
      (ih hrest (fun d hd => hproper d (mem_cons_of_mem _ hd)) hmax)

/-- A plan of objects that all go on passes through every TXID the longest objects lead to. -/
theorem planLoop_through {rounds : Nat} (h : planLoop pool head rounds floor = .ok files)
    (hproper : ∀ c ∈ files, c.range.min ≤ c.range.max) (hn : Relation.ReflTransGen (Longest pool head) floor n) :
    ∃ rounds files, planLoop pool head rounds n = .ok files ∧ ∀ c ∈ files, c.range.min ≤ c.range.max := by
  induction hn with
  | refl => exact ⟨rounds, files, h, hproper⟩
  | @tail n m _ hstep ih =>
    obtain ⟨rounds, files, h, hproper⟩ := ih
    obtain ⟨⟨c, hc, hmin, rfl, hup⟩, hmax, hfar⟩ := hstep
    obtain ⟨rounds, pick, rest, rfl, hpick, hrest⟩ := planLoop_goes h (hup.trans_le hmax)
    obtain ⟨hmem, hpmin, hpmax, hpfar⟩ := pick_spec hpick
    have hm : pick.range.max = c.range.max := le_antisymm (hfar pick hmem hpmin hpmax) (hpfar c hc hmin hmax)
    exact ⟨rounds, rest, hm ▸ hrest, fun d hd => hproper d (mem_cons_of_mem _ hd)⟩

/-- **When the planner takes a complete chain.** Over a pool that tiles the TXIDs up to `head`, it plans `head` by
    objects that all go on exactly if the longest objects never lead astray. -/
theorem planRestore_goes_iff (htiles : Tiles pool floor head) :
    (∃ plan, planRestore pool floor head = .ok plan ∧ ∀ c ∈ plan.files, c.range.min ≤ c.range.max) ↔
      ¬ Strays pool floor head := by
  constructor
  · rintro ⟨plan, hplan, hproper⟩ ⟨n, m, hn, -, hlong, hnot⟩
    obtain ⟨_, _, h, hproper⟩ := planLoop_through (planRestore_eq_ok.mp hplan).1 hproper (hn.tail hlong)
    exact hnot (tiles_of_planLoop h hproper hlong.2.1)
  · intro h
    have hway : ∀ n, Relation.ReflTransGen (Longest pool head) floor n → Tiles pool n head := by
      intro n hn
      induction hn with
      | refl => exact htiles
      | tail hn hlong ih => exact not_not.mp fun hnot => h ⟨_, _, hn, ih, hlong, hnot⟩
    obtain ⟨files, hfiles, hproper⟩ :=
      planLoop_of_tiles hway (Nat.lt_succ_of_le (ahead_le_length pool floor)) .refl
    exact ⟨⟨floor, head, files⟩, planRestore_eq_ok.mpr ⟨hfiles, rfl, rfl⟩, hproper⟩

/-- A tiling passes through the end of every object that begins with it, unless one of its own crosses that. -/
theorem Tiles.passes {c : LtxCandidate} (hc : c ∈ pool) (hcross : ¬ Crossing pool) (h : Tiles pool n head)
    (hmin : c.range.min ≤ n) (hn : n ≤ c.range.max) (hmax : c.range.max ≤ head) : Tiles pool c.range.max head := by
  induction h using Relation.ReflTransGen.head_induction_on with
  | refl => exact (le_antisymm hn hmax) ▸ .refl
  | @head n m hstep hrest ih =>
    rcases eq_or_lt_of_le hn with rfl | hlt
    · exact .head hstep hrest
    obtain ⟨d, hd, hdmin, rfl, hup⟩ := hstep
    exact ih (by omega) (not_lt.mp fun hbeyond => hcross ⟨c, hc, d, hd, by omega, by omega, hbeyond⟩)

/-- Only an object that crosses another leads astray. -/
theorem Strays.crossing (h : Strays pool floor head) : Crossing pool := by
  obtain ⟨n, m, -, htiles, ⟨⟨c, hc, hmin, rfl, hup⟩, hmax, hfar⟩, hnot⟩ := h
  by_contra hcross
  obtain rfl | ⟨k, ⟨d, hd, hdmin, rfl, hdup⟩, hrest⟩ := htiles.cases_head
  · omega
  · have hle := Tiles.le hrest
    exact hnot (Tiles.passes hc hcross hrest (by omega) (hfar d hd hdmin hle) hmax)

end Greedy

/-- A complete chain of incrementals above the snapshot, none of them overlooked, is a tiling by objects of the pool. -/
theorem Counted.tiles {floor head : Nat} (h : Counted ltx b floor head)
    (hpool : ∀ k range, Incremental ltx b k range → floor < range.max →
      ∃ level, ⟨k, level, range⟩ ∈ gatherLegacyCandidates b) : Tiles (planPool b floor head) floor head := by
  have hway : ∀ m, Counted ltx b floor m → m ≤ head → floor ≤ m ∧ Tiles (planPool b floor head) floor m := by
    intro m hm
    induction hm with
    | refl => exact fun _ => ⟨le_rfl, .refl⟩
    | @tail n m _ hlink ih =>
      intro hle
      obtain ⟨hlt, k, hk⟩ := hlink
      obtain ⟨hfloor, htiles⟩ := ih (hlt.le.trans hle)
      have hup : floor < m := hfloor.trans_lt hlt
      obtain ⟨level, hmem⟩ := hpool k _ hk hup
      exact ⟨hup.le, htiles.tail ⟨_, mem_filter.mpr ⟨hmem, by simp; omega⟩, rfl, rfl, hlt⟩⟩
  exact (hway head h le_rfl).2

/-- **Discovery and restore see the same history** exactly if nothing above the snapshot is overlooked and, above a
    complete chain, the longest objects do not lead astray. They can only where two objects cross. -/
theorem discovery_restorable_iff (ltx : LtxCrate) (b : LtxBucket) (pointInTime : Option Nat) :
    ((∀ snap, findLatestLegacySnapshot ltx b pointInTime = some snap →
      (∀ k range, Incremental ltx b k range → snap.maxTxid < range.max →
        ∃ level, ⟨k, level, range⟩ ∈ gatherLegacyCandidates b) ∧
      (Counted ltx b snap.maxTxid (discoverLegacyState b).1 →
        ∃ plan, planRestore (planPool b snap.maxTxid (discoverLegacyState b).1) snap.maxTxid
            (discoverLegacyState b).1 = .ok plan ∧ ∀ c ∈ plan.files, c.range.min ≤ c.range.max)) ↔
    ∀ snap, findLatestLegacySnapshot ltx b pointInTime = some snap →
      (∀ k range, Incremental ltx b k range → Overlooked k → range.max ≤ snap.maxTxid) ∧
      (Counted ltx b snap.maxTxid (discoverLegacyState b).1 →
        ¬ Strays (planPool b snap.maxTxid (discoverLegacyState b).1) snap.maxTxid (discoverLegacyState b).1)) ∧
    ∀ floor head, Strays (planPool b floor head) floor head → Crossing (planPool b floor head) := by
  refine ⟨forall₂_congr fun snap _ => ?_, fun _ _ h => h.crossing⟩
  have hpool : (∀ k range, Incremental ltx b k range → snap.maxTxid < range.max →
      ∃ level, ⟨k, level, range⟩ ∈ gatherLegacyCandidates b) ↔
      ∀ k range, Incremental ltx b k range → Overlooked k → range.max ≤ snap.maxTxid := by
    refine forall₃_congr fun k range hk => ?_
    rw [hk.gathered_iff]
    exact ⟨fun h hover => not_lt.mp fun hlt => h hlt hover, fun h hlt hover => absurd (h hover) (not_le.mpr hlt)⟩
  rw [← hpool]
  exact and_congr_right fun h => imp_congr_right fun hcounted => planRestore_goes_iff (hcounted.tiles h)

/-- A snapshot, and the incremental after it under a flat name. -/
def flatBucket : LtxBucket where
  entries := [(.file 1 1 1, ltxObject 1), (.flat 2, ltxObject 2)]
  nodup := by decide

/-- **A flat name is counted and never replayed**: it is the head, and no restore reaches it. -/
theorem flat_head_unrestorable : ∃ ltx b, findLatestLegacySnapshot ltx b none = some twoSnapshot ∧
    Incremental ltx b (.flat 2) (.point 2) ∧ (discoverLegacyState b).1 = 2 ∧ Counted ltx b twoSnapshot.maxTxid 2 ∧
    gatherLegacyCandidates b = [] ∧
    planRestore (planPool b twoSnapshot.maxTxid 2) twoSnapshot.maxTxid 2 = .error (.chainGap 2 1) := by
  have hlist : ∀ {s}, s ∈ discoverLegacySnapshots (twoCrate 2) flatBucket ↔ s = twoSnapshot :=
    snapshots_perm.mem_iff.trans mem_singleton
  have hincremental : Incremental (twoCrate 2) flatBucket (.flat 2) (.point 2) := by
    refine ⟨by decide, fun s hs => ?_, rfl⟩
    rw [hlist.mp hs]
    decide
  refine ⟨twoCrate 2, flatBucket, findLatestLegacySnapshot_only rfl, hincremental, rfl,
    .single ⟨by decide, .flat 2, hincremental⟩, rfl, rfl⟩

end Discovery

end Legacy
end Walrust
