import Walrust.Lib.File
import Mathlib.Data.List.Nodup
import Mathlib.Tactic.Common

/-!
# `Walrust.Lib.Pages` — page-granular writes to a file

A paged file is rewritten by *patches*: some pages get new contents and the file gets a new size. A page
has 1-based number `pageOf ps i = i / ps + 1`; a patch may write a page more than once, the last write wins.

* `paint` — the file after writing pages and setting the size, byte by byte;
* `paint_paint` — two paints are one, with the later writes on top, provided the second writes every page
  it adds beyond the first one's size;
* `applyAll_eq` — a whole run of patches is one paint: last writer of each page, last size.
-/

namespace Lib.Pages

open Lib.File List

variable {i k : Nat} {l : List (Nat × List UInt8)}

/-- The page (1-based) that byte `i` of a file belongs to. -/
def pageOf (pageSize i : Nat) : Nat := i / pageSize + 1

/-- A byte lies in the written range of page `n` exactly if `n` is its page. -/
theorem inPage_iff {pageSize n i : Nat} (hps : 0 < pageSize) (hn : n ≠ 0) :
    ((n - 1) * pageSize ≤ i ∧ i < (n - 1) * pageSize + pageSize) ↔ n = pageOf pageSize i := by
  unfold pageOf
  have hdiv := Nat.div_add_mod i pageSize
  have hmod := Nat.mod_lt i hps
  constructor
  · rintro ⟨hlo, hhi⟩
    have : i / pageSize = n - 1 := by
      apply Nat.div_eq_of_lt_le
      · exact hlo
      · rw [Nat.succ_mul]; exact hhi
    omega
  · rintro rfl
    rw [Nat.add_sub_cancel, Nat.mul_comm]
    omega

theorem pageOf_le {pageSize size : Nat} (h : i < size * pageSize) : pageOf pageSize i ≤ size :=
  Nat.div_lt_of_lt_mul (by rwa [Nat.mul_comm])

theorem lt_of_pageOf_le {pageSize size : Nat} (hps : 0 < pageSize) (h : pageOf pageSize i ≤ size) :
    i < size * pageSize :=
  (Nat.div_lt_iff_lt_mul hps).mp h

/-! ### Painting -/

/-- The file of `size` pages that holds `w k` in every written page `k` and `f` elsewhere. -/
def paint (pageSize : Nat) (w : Nat → Option (List UInt8)) (size : Nat) (f : List UInt8) : List UInt8 :=
  (range (size * pageSize)).map fun i =>
    match w (pageOf pageSize i) with
    | some d => byteAt d (i % pageSize)
    | none => byteAt f i

variable {ps : Nat} {w w₁ w₂ : Nat → Option (List UInt8)} {size size₁ size₂ : Nat} {f g : List UInt8}
  {writes : List (Nat × List UInt8)}

@[simp] theorem length_paint : (paint ps w size f).length = size * ps := by
  simp [paint]

theorem byteAt_paint (h : i < size * ps) :
    byteAt (paint ps w size f) i =
      match w (pageOf ps i) with
      | some d => byteAt d (i % ps)
      | none => byteAt f i := by
  rw [byteAt, getD_eq_getElem _ _ (by simpa using h)]
  simp [paint]

/-- A file is the paint of another if it has the painted length and the painted bytes. -/
theorem eq_paint (hlen : g.length = size * ps) (h : ∀ i, i < size * ps → byteAt g i =
      match w (pageOf ps i) with
      | some d => byteAt d (i % ps)
      | none => byteAt f i) : g = paint ps w size f := by
  apply ext_byteAt
  · rw [hlen, length_paint]
  · intro i hi
    rw [hlen] at hi
    rw [h i hi, byteAt_paint hi]

/-- Only the writes to pages that survive matter. -/
theorem paint_congr (h : ∀ k, 0 < k → k ≤ size → w₁ k = w₂ k) :
    paint ps w₁ size f = paint ps w₂ size f := by
  apply eq_paint length_paint
  intro i hi
  rw [byteAt_paint hi, h (pageOf ps i) (Nat.succ_pos _) (pageOf_le hi)]

/-- **Two paints are one.** The second must write every page it adds beyond the first one's size: what
    the first truncated away is then never seen again. -/
theorem paint_paint (hps : 0 < ps) (hcover : ∀ k, size₁ < k → k ≤ size₂ → (w₂ k).isSome) :
    paint ps w₂ size₂ (paint ps w₁ size₁ f) = paint ps (fun k => (w₂ k).or (w₁ k)) size₂ f := by
  apply eq_paint length_paint
  intro i hi
  rw [byteAt_paint hi]
  cases h2 : w₂ (pageOf ps i) with
  | some d => rfl
  | none =>
    -- the page is not written, so it existed before
    have hle : pageOf ps i ≤ size₁ := by
      by_contra hlt
      have := hcover (pageOf ps i) (Nat.lt_of_not_le hlt) (pageOf_le hi)
      simp [h2] at this
    rw [byteAt_paint (lt_of_pageOf_le hps hle)]
    simp

/-! ### Patches -/

/-- What a list of page writes leaves in page `k`: the data of its last writer. -/
def lastWrite : List (Nat × List UInt8) → Nat → Option (List UInt8)
  | [], _ => none
  | (p, d) :: rest, k => (lastWrite rest k).or (if p = k then some d else none)

theorem lastWrite_append (a b : List (Nat × List UInt8)) (k : Nat) :
    lastWrite (a ++ b) k = (lastWrite b k).or (lastWrite a k) := by
  induction a with
  | nil => simp [lastWrite]
  | cons p a ih => simp [lastWrite, ih, Option.or_assoc]

theorem lastWrite_eq_none :
    lastWrite l k = none ↔ ∀ p ∈ l, p.1 ≠ k := by
  induction l with
  | nil => simp [lastWrite]
  | cons p l ih =>
    simp only [lastWrite, Option.or_eq_none_iff, ih]
    by_cases hk : p.1 = k <;> simp [hk]

theorem mem_of_lastWrite {d : List UInt8} (h : lastWrite l k = some d) : (k, d) ∈ l := by
  induction l with
  | nil => cases h
  | cons p l ih =>
    simp only [lastWrite, Option.or_eq_some_iff] at h
    rcases h with h | ⟨-, h⟩
    · exact mem_cons_of_mem _ (ih h)
    · split at h
      · rename_i hk
        injection h with h
        subst hk h
        exact mem_cons_self
      · cases h

/-- With every page written once, each write is the last of its page. -/
theorem lastWrite_of_mem (hnodup : (l.map Prod.fst).Nodup) {d : List UInt8} (h : (k, d) ∈ l) :
    lastWrite l k = some d := by
  cases hl : lastWrite l k with
  | none => exact absurd rfl (lastWrite_eq_none.mp hl _ h)
  | some e =>
    have := inj_on_of_nodup_map hnodup (mem_of_lastWrite hl) h rfl
    injection this with _ he
    rw [he]

/-- Page writes followed by a new size. -/
structure Patch where
  writes : List (Nat × List UInt8)
  size : Nat
  deriving DecidableEq, Repr

def Patch.apply (pageSize : Nat) (p : Patch) (f : List UInt8) : List UInt8 :=
  paint pageSize (lastWrite p.writes) p.size f

/-- The patch writes every page it adds to a file of `pages` pages. -/
def Patch.Covers (p : Patch) (pages : Nat) : Prop :=
  ∀ k, pages < k → k ≤ p.size → (lastWrite p.writes k).isSome

instance (p : Patch) (pages : Nat) : Decidable (p.Covers pages) :=
  decidable_of_iff (∀ k ∈ range (p.size + 1), pages < k → (lastWrite p.writes k).isSome)
    ⟨fun h k hk hle => h k (mem_range.mpr (Nat.lt_succ_of_le hle)) hk,
      fun h k hk hlt => h k hlt (Nat.le_of_lt_succ (mem_range.mp hk))⟩

@[simp] theorem length_apply (p : Patch) : (p.apply ps f).length = p.size * ps := length_paint

def applyAll (pageSize : Nat) (patches : List Patch) (f : List UInt8) : List UInt8 :=
  patches.foldl (fun f p => p.apply pageSize f) f

theorem applyAll_append (a b : List Patch) : applyAll ps (a ++ b) f = applyAll ps b (applyAll ps a f) :=
  foldl_append

/-- The page count after the patches, from a file of `pages` pages. -/
def finalSize : Nat → List Patch → Nat
  | pages, [] => pages
  | _, p :: rest => finalSize p.size rest

@[simp] theorem finalSize_concat (pages : Nat) (patches : List Patch) (p : Patch) :
    finalSize pages (patches ++ [p]) = p.size := by
  induction patches generalizing pages with
  | nil => rfl
  | cons q patches ih => exact ih q.size

/-- Every patch of the run writes every page it adds. -/
def Covered : Nat → List Patch → Prop
  | _, [] => True
  | pages, p :: rest => p.Covers pages ∧ Covered p.size rest

theorem Covered.append {pages : Nat} {a b : List Patch} (ha : Covered pages a)
    (hb : Covered (finalSize pages a) b) : Covered pages (a ++ b) := by
  induction a generalizing pages with
  | nil => exact hb
  | cons p a ih => exact ⟨ha.1, ih ha.2 hb⟩

/-- A page beyond the starting size that is there at the end was written by some patch of the run. -/
theorem Covered.isSome {pages : Nat} {patches : List Patch} (hcov : Covered pages patches) (hk : pages < k)
    (hle : k ≤ finalSize pages patches) :
    (lastWrite (patches.flatMap Patch.writes) k).isSome := by
  induction patches generalizing pages with
  | nil => exact absurd hle (Nat.not_le.mpr hk)
  | cons p rest ih =>
    rw [flatMap_cons, lastWrite_append, Option.isSome_or, Bool.or_eq_true]
    by_cases hp : p.size < k
    · exact .inl (ih hcov.2 hp hle)
    · exact .inr (hcov.1 k hk (Nat.le_of_not_lt hp))

/-- **A run of patches is one paint.** Last writer of each page, last size. -/
theorem applyAll_eq (hps : 0 < ps) {pages : Nat} {patches : List Patch} (hne : patches ≠ [])
    (hcov : Covered pages patches) :
    applyAll ps patches f =
      paint ps (lastWrite (patches.flatMap Patch.writes)) (finalSize pages patches) f := by
  induction patches generalizing pages f with
  | nil => exact absurd rfl hne
  | cons p rest ih =>
    cases rest with
    | nil => simp [applyAll, finalSize, Patch.apply]
    | cons q qs =>
      show applyAll ps (q :: qs) (paint ps (lastWrite p.writes) p.size f) =
        paint ps _ (finalSize p.size (q :: qs)) f
      rw [ih (cons_ne_nil q qs) hcov.2, paint_paint hps fun k hk hle => hcov.2.isSome hk hle]
      apply paint_congr
      intro k _ _
      exact (lastWrite_append p.writes ((q :: qs).flatMap Patch.writes) k).symm

/-! ### Writing in place

A reader that only ever writes pages, and never sets a new size, leaves what a patch has cut off standing behind
the image. Below, `db` is the image, `f` a file that begins with it. -/

/-- The page writes alone. -/
def write (pageSize : Nat) (writes : List (Nat × List UInt8)) (f : List UInt8) : List UInt8 :=
  writes.foldl (fun f w => writeAt f ((w.1 - 1) * pageSize) w.2) f

/-- The writes of a patch are whole pages within its size. -/
def Patch.Fits (pageSize : Nat) (p : Patch) : Prop :=
  ∀ w ∈ p.writes, 0 < w.1 ∧ w.1 ≤ p.size ∧ w.2.length = pageSize

theorem byteAt_write (hps : 0 < ps) (hfit : ∀ w ∈ writes, 0 < w.1 ∧ w.2.length = ps) (f : List UInt8) (i : Nat) :
    byteAt (write ps writes f) i =
      match lastWrite writes (pageOf ps i) with
      | some d => byteAt d (i % ps)
      | none => byteAt f i := by
  induction writes generalizing f with
  | nil => rfl
  | cons w rest ih =>
    have hw := hfit w mem_cons_self
    have hstep : write ps (w :: rest) f = write ps rest (writeAt f ((w.1 - 1) * ps) w.2) := rfl
    rw [hstep, ih (fun v hv => hfit v (mem_cons_of_mem _ hv))]
    cases hrest : lastWrite rest (pageOf ps i) with
    | some d => simp [lastWrite, hrest]
    | none =>
      have hin := inPage_iff (i := i) hps (Nat.ne_of_gt hw.1)
      rw [byteAt_writeAt, hw.2]
      by_cases hk : w.1 = pageOf ps i
      · rw [if_pos (hin.mpr hk)]
        have hoff : i - (w.1 - 1) * ps = i % ps := by
          have hdiv := Nat.div_add_mod i ps
          rw [hk, pageOf, Nat.add_sub_cancel, Nat.mul_comm]
          omega
        simp [lastWrite, hrest, hk, ← hoff]
      · rw [if_neg fun h => hk (hin.mp h)]
        simp [lastWrite, hrest, hk]

theorem length_write_of_mem (hfit : ∀ w ∈ writes, 0 < w.1 ∧ w.2.length = ps) (hps : 0 < ps) (f : List UInt8) :
    f.length ≤ (write ps writes f).length ∧ ∀ w ∈ writes, w.1 * ps ≤ (write ps writes f).length := by
  induction writes generalizing f with
  | nil => exact ⟨Nat.le_refl _, fun w hw => absurd hw not_mem_nil⟩
  | cons w rest ih =>
    have hw := hfit w mem_cons_self
    obtain ⟨hlen, hmem⟩ := ih (fun v hv => hfit v (mem_cons_of_mem _ hv)) (writeAt f ((w.1 - 1) * ps) w.2)
    have hne : w.2 ≠ [] := by
      intro h
      rw [h] at hw
      exact absurd hw.2 (Nat.ne_of_lt hps)
    have hhere : (w.1 - 1) * ps + ps = w.1 * ps := by
      have := Nat.succ_mul (w.1 - 1) ps
      rw [Nat.succ_eq_add_one, Nat.sub_add_cancel hw.1] at this
      exact this.symm
    rw [length_writeAt f _ hne, hw.2, hhere] at hlen
    refine ⟨Nat.le_trans (Nat.le_max_left _ _) hlen, ?_⟩
    intro v hv
    rcases mem_cons.mp hv with rfl | hv
    · exact Nat.le_trans (Nat.le_max_right _ _) hlen
    · exact hmem v hv

theorem length_write_le {p : Patch} (hfit : p.Fits ps) (hps : 0 < ps) (f : List UInt8) :
    (write ps p.writes f).length ≤ max f.length (p.size * ps) := by
  obtain ⟨writes, size⟩ := p
  induction writes generalizing f with
  | nil => exact Nat.le_max_left _ _
  | cons w rest ih =>
    have hw := hfit w mem_cons_self
    have hne : w.2 ≠ [] := by
      intro h
      rw [h] at hw
      exact absurd hw.2.2 (Nat.ne_of_lt hps)
    refine Nat.le_trans (ih (writeAt f ((w.1 - 1) * ps) w.2) fun v hv => hfit v (mem_cons_of_mem _ hv)) ?_
    have hhere : (w.1 - 1) * ps + ps ≤ size * ps := by
      rw [← Nat.succ_mul, Nat.succ_eq_add_one, Nat.sub_add_cancel hw.1]
      exact Nat.mul_le_mul_right ps hw.2.1
    rw [length_writeAt f _ hne, hw.2.2]
    simp only [Nat.max_le]
    exact ⟨⟨Nat.le_max_left _ _, Nat.le_trans hhere (Nat.le_max_right _ _)⟩, Nat.le_max_right _ _⟩

section InPlace

variable {p : Patch} {pages : Nat} {db : List UInt8}
  (hps : 0 < ps) (hfit : p.Fits ps) (hcov : p.Covers pages) (hlen : db.length = pages * ps)
include hps hfit hcov hlen

omit hfit hlen in
/-- A byte of the new image that the patch does not write lies in the old one. -/
theorem Patch.Covers.lt_of_not_written (hi : i < p.size * ps) (hnone : lastWrite p.writes (pageOf ps i) = none) :
    i < pages * ps := by
  refine lt_of_pageOf_le hps ?_
  by_contra hlt
  have hsome := hcov (pageOf ps i) (Nat.lt_of_not_le hlt) (pageOf_le hi)
  rw [hnone] at hsome
  cases hsome

/-- Behind the image the writes leave the file no longer than it was, or than the new image. -/
theorem length_write (hpre : db <+: f) : (write ps p.writes f).length = max f.length (p.size * ps) := by
  have hwhole : ∀ w ∈ p.writes, 0 < w.1 ∧ w.2.length = ps := fun w hw => ⟨(hfit w hw).1, (hfit w hw).2.2⟩
  obtain ⟨hge, hmem⟩ := length_write_of_mem hwhole hps f
  refine Nat.le_antisymm (length_write_le hfit hps f) (Nat.max_le.mpr ⟨hge, ?_⟩)
  rcases Nat.lt_or_ge pages p.size with hgrow | hshrink
  · -- the last page of a larger image is written
    obtain ⟨d, hd⟩ := Option.isSome_iff_exists.mp (hcov p.size hgrow (Nat.le_refl _))
    exact hmem _ (mem_of_lastWrite hd)
  · have hpage : p.size * ps ≤ db.length := by
      rw [hlen]
      exact Nat.mul_le_mul_right ps hshrink
    exact Nat.le_trans hpage (Nat.le_trans hpre.length_le hge)

/-- **The writes turn a file that begins with the old image into one that begins with the new image.** -/
theorem apply_isPrefix_write (hpre : db <+: f) : p.apply ps db <+: write ps p.writes f := by
  have hwhole : ∀ w ∈ p.writes, 0 < w.1 ∧ w.2.length = ps := fun w hw => ⟨(hfit w hw).1, (hfit w hw).2.2⟩
  refine isPrefix_iff_byteAt.mpr ⟨?_, ?_⟩
  · rw [length_apply, length_write hps hfit hcov hlen hpre]
    exact Nat.le_max_right _ _
  intro i hi
  rw [length_apply] at hi
  rw [Patch.apply, byteAt_paint hi, byteAt_write hps hwhole]
  cases hw : lastWrite p.writes (pageOf ps i) with
  | some d => rfl
  | none =>
    have hold := hcov.lt_of_not_written hps hi hw
    exact (isPrefix_iff_byteAt.mp hpre).2 i (by rw [hlen]; exact hold)

omit hfit in
/-- A patch, with its new size, leaves nothing of what stands behind the image. -/
theorem apply_of_isPrefix (hpre : db <+: f) : p.apply ps f = p.apply ps db := by
  apply eq_paint length_paint
  intro i hi
  rw [byteAt_paint hi]
  cases hw : lastWrite p.writes (pageOf ps i) with
  | some d => rfl
  | none =>
    have hold := hcov.lt_of_not_written hps hi hw
    exact ((isPrefix_iff_byteAt.mp hpre).2 i (by rw [hlen]; exact hold)).symm

/-- The writes keep one file ahead of another. -/
theorem write_isPrefix_write (hpre : db <+: f) (hfg : f <+: g) :
    write ps p.writes f <+: write ps p.writes g := by
  have hwhole : ∀ w ∈ p.writes, 0 < w.1 ∧ w.2.length = ps := fun w hw => ⟨(hfit w hw).1, (hfit w hw).2.2⟩
  have hlenf := length_write hps hfit hcov hlen hpre
  have hleng := length_write hps hfit hcov hlen (hpre.trans hfg)
  have hle := hfg.length_le
  refine isPrefix_iff_byteAt.mpr ⟨by omega, ?_⟩
  intro i hi
  rw [byteAt_write hps hwhole, byteAt_write hps hwhole]
  cases hw : lastWrite p.writes (pageOf ps i) with
  | some d => rfl
  | none =>
    -- a byte that is not written was there before
    have hold : i < f.length := by
      by_contra hge
      have hin : i < p.size * ps := by omega
      have hdb := hcov.lt_of_not_written hps hin hw
      have hfl := hpre.length_le
      omega
    exact (isPrefix_iff_byteAt.mp hfg).2 i hold

end InPlace

end Lib.Pages
