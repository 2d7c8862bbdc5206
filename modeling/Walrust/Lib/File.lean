import Mathlib.Data.List.GetD

/-!
# `Walrust.Lib.File` — a byte file under positioned writes and truncation

A file is its list of bytes; reading past the end reads zero, which is what a sparse extension leaves
behind. The two operations are `writeAt` (seek and write) and `setLen` (truncate or extend).

* `ext_byteAt` — two files with one length and the same bytes are the same file;
* `length_*` / `byteAt_*` — what each operation does to the length and to each byte, which is all that a
  client ever needs (nobody below unfolds `writeAt`).
-/

namespace Lib.File

open List

variable {data f : List UInt8} {i off len : Nat} {P : List UInt8 → Prop}

/-- The byte at position `i`; zero past the end. -/
def byteAt (f : List UInt8) (i : Nat) : UInt8 := f.getD i 0

theorem byteAt_of_le (h : f.length ≤ i) : byteAt f i = 0 :=
  getD_eq_default _ _ h

/-- Files are determined by their length and their bytes. -/
theorem ext_byteAt {g : List UInt8} (hlen : f.length = g.length)
    (h : ∀ i, i < f.length → byteAt f i = byteAt g i) : f = g := by
  refine ext_getElem hlen (fun i hi hi' => ?_)
  have := h i hi
  simpa [byteAt, hi, hi'] using this

theorem isPrefix_iff_byteAt {g : List UInt8} :
    f <+: g ↔ f.length ≤ g.length ∧ ∀ i, i < f.length → byteAt f i = byteAt g i := by
  rw [prefix_iff_eq_take]
  constructor
  · intro h
    have hle : f.length ≤ g.length := by
      rw [h, length_take]
      exact Nat.min_le_right _ _
    refine ⟨hle, ?_⟩
    intro i hi
    rw [byteAt, byteAt, getD_eq_getElem _ _ hi, getD_eq_getElem _ _ (Nat.lt_of_lt_of_le hi hle)]
    have hget : f[i]? = (g.take f.length)[i]? := congrArg (fun l : List UInt8 => l[i]?) h
    rw [List.getElem?_take_of_lt hi, List.getElem?_eq_getElem hi,
      List.getElem?_eq_getElem (Nat.lt_of_lt_of_le hi hle)] at hget
    exact Option.some.inj hget
  · rintro ⟨hle, h⟩
    have hlen : f.length = (g.take f.length).length := by
      rw [length_take, Nat.min_eq_left hle]
    refine ext_getElem hlen ?_
    intro i hi hi'
    have hbyte := h i hi
    rw [byteAt, byteAt, getD_eq_getElem _ _ hi, getD_eq_getElem _ _ (Nat.lt_of_lt_of_le hi hle)] at hbyte
    rw [getElem_take, hbyte]

/-- Truncate to `n` bytes, or extend with zeros up to `n`. -/
def setLen (f : List UInt8) (n : Nat) : List UInt8 :=
  f.take n ++ replicate (n - f.length) 0

/-- Seek to `off` and write `data`: a gap past the end is zero-filled, an empty write does nothing. -/
def writeAt (f : List UInt8) (off : Nat) (data : List UInt8) : List UInt8 :=
  if data = [] then f else setLen f off ++ data ++ f.drop (off + data.length)

@[simp] theorem length_setLen (f : List UInt8) (n : Nat) : (setLen f n).length = n := by
  simp only [setLen, length_append, length_take, length_replicate]
  omega

theorem byteAt_append (f g : List UInt8) (i : Nat) :
    byteAt (f ++ g) i = if i < f.length then byteAt f i else byteAt g (i - f.length) := by
  by_cases h : i < f.length
  · rw [if_pos h]
    exact getD_append _ _ _ _ h
  · rw [if_neg h]
    exact getD_append_right _ _ _ _ (Nat.le_of_not_lt h)

theorem byteAt_replicate_zero (n i : Nat) : byteAt (replicate n 0) i = 0 := by
  by_cases h : i < n
  · simp [byteAt]
  · exact byteAt_of_le (by simpa using h)

theorem byteAt_take {n : Nat} (h : i < n) : byteAt (f.take n) i = byteAt f i := by
  simp [byteAt, h]

theorem byteAt_setLen (f : List UInt8) (n i : Nat) :
    byteAt (setLen f n) i = if i < n then byteAt f i else 0 := by
  by_cases h : i < n
  · rw [setLen, byteAt_append, if_pos h]
    by_cases hi : i < (f.take n).length
    · rw [if_pos hi, byteAt_take h]
    · have hf : f.length ≤ i := by simp at hi; omega
      rw [if_neg hi, byteAt_replicate_zero, byteAt_of_le hf]
  · rw [if_neg h, byteAt_of_le (by simp; omega)]

theorem length_writeAt (f : List UInt8) (off : Nat) (hd : data ≠ []) :
    (writeAt f off data).length = max f.length (off + data.length) := by
  simp only [writeAt, if_neg hd, length_append, length_setLen, length_drop]
  omega

/-- **Bytes after a positioned write.** Inside the written range the new data, elsewhere the old file. -/
theorem byteAt_writeAt (f : List UInt8) (off : Nat) (data : List UInt8) (i : Nat) :
    byteAt (writeAt f off data) i =
      if off ≤ i ∧ i < off + data.length then byteAt data (i - off) else byteAt f i := by
  by_cases hd : data = []
  · subst hd
    have : ¬ (off ≤ i ∧ i < off + ([] : List UInt8).length) := by simp
    rw [if_neg this, writeAt, if_pos rfl]
  rw [writeAt, if_neg hd, byteAt_append, byteAt_append, byteAt_setLen]
  simp only [length_append, length_setLen]
  by_cases h1 : i < off
  · rw [if_pos (by omega), if_pos h1, if_pos h1, if_neg (by omega)]
  · by_cases h2 : i < off + data.length
    · rw [if_pos h2, if_neg h1, if_pos ⟨by omega, h2⟩]
    · rw [if_neg h2, if_neg (by omega)]
      have hidx : off + data.length + (i - (off + data.length)) = i := by omega
      simp [byteAt, hidx]

theorem byteAt_range (h : i < len) : byteAt ((f.drop off).take len) i = byteAt f (off + i) := by
  rw [byteAt_take h]
  simp [byteAt]

theorem range_writeAt_self (f : List UInt8) (off : Nat) (hd : data ≠ []) :
    ((writeAt f off data).drop off).take data.length = data := by
  have hlen := length_writeAt f off hd
  refine ext_byteAt (by rw [length_take, length_drop]; omega) ?_
  intro i hi
  have hi : i < data.length := by
    rw [length_take] at hi
    omega
  rw [byteAt_range hi, byteAt_writeAt, if_pos ⟨by omega, by omega⟩, Nat.add_sub_cancel_left]

/-- A write leaves every other range of the file as it was. -/
theorem range_writeAt_of_disjoint {off' : Nat} (h : off' + len ≤ off ∨ off + data.length ≤ off')
    (hin : off' + len ≤ f.length) : ((writeAt f off data).drop off').take len = (f.drop off').take len := by
  have hlen : f.length ≤ (writeAt f off data).length := by
    by_cases hd : data = []
    · have heq : writeAt f off data = f := if_pos hd
      exact Nat.le_of_eq (congrArg List.length heq.symm)
    · rw [length_writeAt f off hd]
      exact Nat.le_max_left _ _
  refine ext_byteAt (by rw [length_take, length_take, length_drop, length_drop]; omega) ?_
  intro i hi
  have hi : i < len := by
    rw [length_take] at hi
    omega
  rw [byteAt_range hi, byteAt_range hi, byteAt_writeAt, if_neg (by omega)]

/-- What can be read of a part of the file. -/
def PartIs (f : List UInt8) (off len : Nat) (P : List UInt8 → Prop) : Prop :=
  off + len ≤ f.length → P ((f.drop off).take len)

theorem PartIs.take (h : PartIs f off len P) (keep : Nat) : PartIs (f.take keep) off len P := by
  intro hle
  rw [length_take] at hle
  rw [drop_take, take_take, Nat.min_eq_left (by omega)]
  exact h (by omega)

/-- A write inside the file or right at its end, over the whole part or beside it. -/
theorem PartIs.writeAt {off' : Nat} (h : PartIs f off' len P) (hpos : 0 < data.length) (hreach : off ≤ f.length)
    (hpart : 0 < len ∧ (off' + len ≤ off ∨ off + data.length ≤ off') ∨
      off' = off ∧ data.length = len ∧ P data) : PartIs (writeAt f off data) off' len P := by
  have hd := ne_nil_of_length_pos hpos
  intro hle
  rcases hpart with ⟨hlen, hbeside⟩ | ⟨rfl, rfl, hP⟩
  · rw [length_writeAt f off hd] at hle
    have hin : off' + len ≤ f.length := by omega
    rw [range_writeAt_of_disjoint hbeside hin]
    exact h hin
  · rwa [range_writeAt_self f off' hd]

/-- Overwriting a field in place, between what precedes and what follows it. -/
theorem writeAt_field (pre old data post : List UInt8) (off : Nat) (hoff : pre.length = off)
    (hlen : old.length = data.length) (hd : data ≠ []) :
    writeAt (pre ++ (old ++ post)) off data = pre ++ (data ++ post) := by
  subst hoff
  have hdrop : (pre ++ (old ++ post)).drop (pre.length + data.length) = post := by
    rw [← append_assoc, ← hlen, ← length_append, drop_left]
  have hset : setLen (pre ++ (old ++ post)) pre.length = pre := by
    simp [setLen]
  rw [writeAt, if_neg hd, hset, hdrop, append_assoc]

end Lib.File
