import Walrust.Bucket
import Walrust.Compaction.Layout
import Walrust.Lib.Hex
import Mathlib.Data.List.DropRight
import Mathlib.Data.String.Basic

/-!
# `Walrust.Compaction.Names` — object names

An object's name carries its seq or its seq range, in hex of a fixed width so that the order of a listing is the order
of the numbers. What a listing returns is read back with the standard radix parser, which takes more than the
formatters write: any case, any width, a leading plus sign.

* `formatRangeName`, `formatSeqName`, `parseRangeName` — the names of a level;
* `deltaEnvelopeKey`, `parseDeltaEnvelopeSeq` — the envelopes of the fenced mode;
* `names_canonical_iff` — names read back and are ordered; an accepted name is the emitted one exactly if its numbers
  are written as the formatter writes them.
-/

namespace Walrust
namespace Compaction

open Lib.Hex List

variable {f : List Char} {m n seq : Nat} {name ext pre : String} {r : SeqRange}

/-! ## The formatters and the parsers -/

/-- `SEQ_HEX_WIDTH`. -/
def seqHexWidth : Nat := 16

/-- `format_range_name`. -/
def formatRangeName (range : SeqRange) (ext : String) : String :=
  s!"{hexPad seqHexWidth range.min}-{hexPad seqHexWidth range.max}.{ext}"

/-- The name of a single-seq object of level 0. -/
def formatSeqName (seq : Nat) (ext : String) : String := s!"{hexPad seqHexWidth seq}.{ext}"

/-- `u64::from_str_radix(_, 16)`. -/
def parseHexU64 : List Char → Option Nat := fromStrRadix (2 ^ 64)

/-- `strip_suffix`. -/
def stripSuffix (suffix s : List Char) : Option (List Char) :=
  if suffix <:+ s then some (s.take (s.length - suffix.length)) else none

/-- `split_once`. -/
def splitOnce (sep : Char) : List Char → Option (List Char × List Char)
  | [] => none
  | c :: cs => if c = sep then some ([], cs) else (splitOnce sep cs).map fun p => (c :: p.1, p.2)

/-- `parse_range_name`. -/
def parseRangeName (filename ext : String) : Option SeqRange :=
  match stripSuffix ('.' :: ext.toList) filename.toList with
  | none => none
  | some stem =>
    match splitOnce '-' stem with
    | some (lo, hi) =>
      match parseHexU64 lo, parseHexU64 hi with
      | some min, some max => if max < min then none else some ⟨min, max⟩
      | _, _ => none
    | none => (parseHexU64 stem).map SeqRange.point

/-- The directory of the live generation. -/
def liveDir (pre name : String) : String := s!"{pre}{name}/{hexPad 4 0}/"

/-- `delta_envelope_key`. -/
def deltaEnvelopeKey (pre name : String) (seq : Nat) : String := (Key.envelope seq).path pre name

/-- `parse_delta_envelope_seq`; the width is counted in bytes. -/
def parseDeltaEnvelopeSeq (key : String) : Option Nat :=
  match stripSuffix ".tlmd".toList (key.toList.rtakeWhile (· ≠ '/')) with
  | none => none
  | some hex => if (String.ofList hex).utf8ByteSize ≠ 16 then none else parseHexU64 hex

/-! ## Numerals -/

theorem toList_hexPad {width : Nat} (h : n < 16 ^ (width + 1)) :
    (hexPad (width + 1) n).toList = fixed (width + 1) n := by
  have hlist : ∀ w m, (hexPad w m).toList =
      List.replicate (w - (Nat.toDigits 16 m).length) '0' ++ Nat.toDigits 16 m := by
    intro w m
    simp [hexPad]
  rw [hlist]
  induction width generalizing n with
  | zero =>
    have hn : n < 16 := h
    rw [Nat.toDigits_of_lt_base hn]
    simp [fixed, Nat.mod_eq_of_lt hn]
  | succ width ih =>
    have hdiv : n / 16 < 16 ^ (width + 1) := by
      omega
    rw [fixed_succ_right, ← ih hdiv, Nat.toDigits_eq_if (by decide)]
    split
    · -- one digit: the rest is padding
      rename_i hn
      rw [Nat.div_eq_of_lt hn, Nat.mod_eq_of_lt hn]
      simp [replicate_succ']
    · rw [length_append, length_singleton, Nat.add_sub_add_right, ← append_assoc]

theorem toList_hexPad_seq (h : n < 2 ^ 64) : (hexPad seqHexWidth n).toList = fixed 16 n :=
  toList_hexPad (show n < 16 ^ 16 by omega)

/-- A number as the formatters write it. -/
def Numeral (f : List Char) : Prop := f.length = seqHexWidth ∧ ∀ c ∈ f, IsLower c

theorem numeral_fixed (n : Nat) : Numeral (fixed 16 n) := ⟨length_fixed 16 n, fun _ => isLower_of_mem_fixed⟩

theorem Numeral.not_mem (h : Numeral f) {c : Char} (hc : ¬ IsLower c) : c ∉ f :=
  fun hmem => hc (h.2 c hmem)

/-- Lower-case digits have no sign, so all of them are read. -/
theorem parseHexU64_of_lower (hne : f ≠ []) (hlower : ∀ c ∈ f, IsLower c) :
    parseHexU64 f = parseDigits (2 ^ 64) 0 f := by
  cases f with
  | nil => exact absurd rfl hne
  | cons c cs =>
    have hplus : c ≠ '+' := by
      rintro rfl
      exact absurd (hlower '+' mem_cons_self) (by decide)
    unfold parseHexU64 fromStrRadix
    split
    · rename_i heq
      cases heq
    · rename_i heq
      cases heq
      exact absurd rfl hplus
    · rename_i heq
      cases heq
      exact absurd rfl hplus
    · rfl

theorem Numeral.parse_eq (h : Numeral f) : parseHexU64 f = parseDigits (2 ^ 64) 0 f := by
  refine parseHexU64_of_lower (fun hnil => ?_) h.2
  rw [hnil] at h
  cases h.1

theorem parseHexU64_fixed (h : n < 2 ^ 64) : parseHexU64 (fixed 16 n) = some n := by
  have hmod : n % 16 ^ 16 = n := Nat.mod_eq_of_lt (by omega)
  rw [(numeral_fixed n).parse_eq, parseDigits_fixed 16 n 0 (by omega), hmod]
  simp

theorem parseHexU64_lt {v : Nat} (h : parseHexU64 f = some v) : v < 2 ^ 64 := by
  unfold parseHexU64 fromStrRadix at h
  split at h
  · cases h
  · cases h
  · exact parseDigits_lt (by decide) h
  · exact parseDigits_lt (by decide) h

/-- A numeral is the numeral of the value it is read as. -/
theorem Numeral.eq_fixed (h : Numeral f) {v : Nat} (hv : parseHexU64 f = some v) : f = fixed 16 v := by
  rw [h.parse_eq] at hv
  have hfixed := (fixed_of_parseDigits h.2 hv).1
  rw [h.1] at hfixed
  exact hfixed.symm

/-! ## Cutting names -/

theorem stripSuffix_eq_some {suffix s stem : List Char} : stripSuffix suffix s = some stem ↔ s = stem ++ suffix := by
  unfold stripSuffix
  constructor
  · intro h
    split at h
    · rename_i hsuf
      obtain ⟨front, rfl⟩ := hsuf
      cases h
      simp
    · cases h
  · rintro rfl
    simp

theorem splitOnce_append {sep : Char} {a : List Char} (ha : sep ∉ a) (b : List Char) :
    splitOnce sep (a ++ sep :: b) = some (a, b) := by
  induction a with
  | nil => simp [splitOnce]
  | cons c a ih =>
    obtain ⟨hc, ha⟩ := ne_and_not_mem_of_not_mem_cons ha
    rw [cons_append, splitOnce, if_neg (Ne.symm hc), ih ha]
    rfl

theorem splitOnce_eq_none {sep : Char} {l : List Char} (h : sep ∉ l) : splitOnce sep l = none := by
  induction l with
  | nil => rfl
  | cons c l ih =>
    obtain ⟨hc, hl⟩ := ne_and_not_mem_of_not_mem_cons h
    rw [splitOnce, if_neg (Ne.symm hc), ih hl]
    rfl

/-! ## The names of a level -/

theorem toList_formatRangeName (hmin : r.min < 2 ^ 64) (hmax : r.max < 2 ^ 64) :
    (formatRangeName r ext).toList = fixed 16 r.min ++ '-' :: (fixed 16 r.max ++ '.' :: ext.toList) := by
  have hdash : "-".toList = ['-'] := by decide
  have hdot : ".".toList = ['.'] := by decide
  simp only [formatRangeName, String.toList_append, toString, toList_hexPad_seq hmin, toList_hexPad_seq hmax, hdash, hdot,
    append_assoc, cons_append, nil_append]

theorem toList_formatSeqName (h : seq < 2 ^ 64) (ext : String) :
    (formatSeqName seq ext).toList = fixed 16 seq ++ '.' :: ext.toList := by
  have hdot : ".".toList = ['.'] := by decide
  simp only [formatSeqName, String.toList_append, toString, toList_hexPad_seq h, hdot, append_assoc, cons_append,
    nil_append]

/-- A name with a range, its numbers written as the formatter writes them. -/
def PlainRange (ext name : String) : Prop :=
  ∃ lo hi, Numeral lo ∧ Numeral hi ∧ name.toList = lo ++ '-' :: (hi ++ '.' :: ext.toList)

/-- A name with a single number, written as the formatter writes it. -/
def PlainSeq (ext name : String) : Prop := ∃ f, Numeral f ∧ name.toList = f ++ '.' :: ext.toList

theorem parseRangeName_range {lo hi : List Char} (hlo : '-' ∉ lo)
    (hname : name.toList = lo ++ '-' :: (hi ++ '.' :: ext.toList)) :
    parseRangeName name ext =
      match parseHexU64 lo, parseHexU64 hi with
      | some min, some max => if max < min then none else some ⟨min, max⟩
      | _, _ => none := by
  have hstem : stripSuffix ('.' :: ext.toList) name.toList = some (lo ++ '-' :: hi) :=
    stripSuffix_eq_some.mpr (by rw [hname, append_assoc, cons_append])
  rw [parseRangeName, hstem]
  dsimp only
  rw [splitOnce_append hlo]

theorem parseRangeName_seq (hf : '-' ∉ f) (hname : name.toList = f ++ '.' :: ext.toList) :
    parseRangeName name ext = (parseHexU64 f).map SeqRange.point := by
  rw [parseRangeName, stripSuffix_eq_some.mpr hname]
  dsimp only
  rw [splitOnce_eq_none hf]

/-- A range that was read is one of `u64` values in order. -/
theorem parseRangeName_bounds (h : parseRangeName name ext = some r) : r.min ≤ r.max ∧ r.max < 2 ^ 64 := by
  unfold parseRangeName at h
  split at h
  · cases h
  split at h
  · split at h
    · rename_i hhi
      split at h
      · cases h
      rename_i hle
      cases h
      exact ⟨not_lt.mp hle, parseHexU64_lt hhi⟩
    · cases h
  · rename_i stem _ _ _
    cases hstem : parseHexU64 stem with
    | none =>
      rw [hstem] at h
      cases h
    | some v =>
      rw [hstem] at h
      cases h
      exact ⟨le_refl v, parseHexU64_lt hstem⟩

theorem not_isLower_dash : ¬ IsLower '-' := by decide

theorem formatRangeName_iff (h : parseRangeName name ext = some r) :
    name = formatRangeName r ext ↔ PlainRange ext name := by
  obtain ⟨hle, hmax⟩ := parseRangeName_bounds h
  have hmin : r.min < 2 ^ 64 := lt_of_le_of_lt hle hmax
  constructor
  · rintro rfl
    exact ⟨_, _, numeral_fixed r.min, numeral_fixed r.max, toList_formatRangeName hmin hmax⟩
  rintro ⟨lo, hi, hlo, hhi, hname⟩
  rw [parseRangeName_range (hlo.not_mem not_isLower_dash) hname] at h
  split at h
  · rename_i vlo vhi hvlo hvhi
    split at h
    · cases h
    cases h
    rw [← String.toList_inj, hname, toList_formatRangeName hmin hmax, ← hlo.eq_fixed hvlo, ← hhi.eq_fixed hvhi]
  · cases h

theorem formatSeqName_iff (h : parseRangeName name ext = some r) :
    (r.min = r.max ∧ name = formatSeqName r.min ext) ↔ PlainSeq ext name := by
  obtain ⟨hle, hmax⟩ := parseRangeName_bounds h
  have hmin : r.min < 2 ^ 64 := lt_of_le_of_lt hle hmax
  constructor
  · rintro ⟨-, rfl⟩
    exact ⟨_, numeral_fixed r.min, toList_formatSeqName hmin ext⟩
  rintro ⟨f, hf, hname⟩
  rw [parseRangeName_seq (hf.not_mem not_isLower_dash) hname] at h
  cases hv : parseHexU64 f with
  | none =>
    rw [hv] at h
    cases h
  | some v =>
    rw [hv] at h
    cases h
    refine ⟨rfl, ?_⟩
    rw [← String.toList_inj, hname, toList_formatSeqName hmin]
    exact congrArg (· ++ '.' :: ext.toList) (hf.eq_fixed hv)

/-! ## Envelopes -/

theorem deltaEnvelopeKey_eq (pre name : String) (seq : Nat) :
    deltaEnvelopeKey pre name seq = liveDir pre name ++ formatSeqName seq "tlmd" := by
  rw [← String.toList_inj]
  simp [deltaEnvelopeKey, Key.path, liveDir, formatSeqName, seqHexWidth, toString]

theorem rtakeWhile_component {dir file : List Char} (hfile : '/' ∉ file) :
    (dir ++ '/' :: file).rtakeWhile (· ≠ '/') = file := by
  have hall : ∀ c ∈ file.reverse, decide (c ≠ '/') = true := by
    intro c hc
    rw [decide_eq_true_eq]
    rintro rfl
    exact hfile (mem_reverse.mp hc)
  rw [List.rtakeWhile, reverse_append, reverse_cons, append_assoc, takeWhile_append_of_pos hall]
  simp

theorem toList_liveDir : ∃ dir, (liveDir pre name).toList = dir ++ ['/'] := by
  have hslash : (toString "/").toList = ['/'] := by decide
  refine ⟨(toString pre ++ toString name ++ toString "/" ++ toString (hexPad 4 0)).toList, ?_⟩
  rw [liveDir, String.toList_append, hslash]

theorem Numeral.utf8ByteSize (h : Numeral f) : (String.ofList f).utf8ByteSize = 16 := by
  obtain ⟨hlen, hlower⟩ := h
  have hone : ∀ c, IsLower c → c.utf8Size = 1 := by
    intro c hc
    have hle : c.toNat ≤ 'f'.toNat := by
      rcases hc with ⟨-, h2⟩ | ⟨-, h2⟩
      · exact le_trans h2 (by decide)
      · exact h2
    exact if_pos (show c.toNat ≤ 127 by have : 'f'.toNat = 102 := rfl; omega)
  have hsum : ∀ cs : List Char, (∀ c ∈ cs, IsLower c) → String.utf8Len cs = cs.length := by
    intro cs
    induction cs with
    | nil => intro _; rfl
    | cons c cs ih =>
      intro hcs
      rw [String.utf8Len_cons, ih fun c' hc' => hcs c' (mem_cons_of_mem _ hc'), hone c (hcs c mem_cons_self),
        length_cons]
  rw [String.utf8ByteSize_ofList, hsum f hlower, hlen]
  rfl

/-- What the envelope parser makes of a key in the directory whose last part is a numeral. -/
theorem parseDeltaEnvelopeSeq_plain {rest : String} (hf : Numeral f)
    (hrest : rest.toList = f ++ '.' :: "tlmd".toList) :
    parseDeltaEnvelopeSeq (liveDir pre name ++ rest) = parseHexU64 f := by
  obtain ⟨dir, hdir⟩ := toList_liveDir
  have hslash : '/' ∉ rest.toList := by
    rw [hrest, mem_append]
    rintro (hmem | hmem)
    · exact hf.not_mem (by decide) hmem
    · exact absurd hmem (by decide)
  have hfile : (liveDir pre name ++ rest).toList.rtakeWhile (· ≠ '/') = rest.toList := by
    rw [String.toList_append, hdir, append_assoc]
    exact rtakeWhile_component hslash
  have hstrip : stripSuffix ".tlmd".toList rest.toList = some f := stripSuffix_eq_some.mpr hrest
  rw [parseDeltaEnvelopeSeq, hfile, hstrip]
  dsimp only
  rw [if_neg (not_not.mpr hf.utf8ByteSize)]

theorem parseDeltaEnvelopeSeq_lt {key : String} (h : parseDeltaEnvelopeSeq key = some seq) : seq < 2 ^ 64 := by
  unfold parseDeltaEnvelopeSeq at h
  split at h
  · cases h
  split at h
  · cases h
  exact parseHexU64_lt h

theorem deltaEnvelopeKey_iff {rest : String} (h : parseDeltaEnvelopeSeq (liveDir pre name ++ rest) = some seq) :
    liveDir pre name ++ rest = deltaEnvelopeKey pre name seq ↔ PlainSeq "tlmd" rest := by
  have hseq := parseDeltaEnvelopeSeq_lt h
  rw [deltaEnvelopeKey_eq, ← String.toList_inj, String.toList_append, String.toList_append, append_cancel_left_eq,
    toList_formatSeqName hseq]
  constructor
  · intro hrest
    exact ⟨_, numeral_fixed seq, hrest⟩
  · rintro ⟨f, hf, hrest⟩
    rw [parseDeltaEnvelopeSeq_plain hf hrest] at h
    rw [hrest, hf.eq_fixed h]

/-! ## The order of names -/

theorem fixed_lt_iff (hm : m < 2 ^ 64) (hn : n < 2 ^ 64) (s t : List Char) :
    fixed 16 m ++ s < fixed 16 n ++ t ↔ m < n ∨ (m = n ∧ s < t) := by
  rw [fixed_append_lt_iff, Nat.mod_eq_of_lt (by omega), Nat.mod_eq_of_lt (by omega)]

theorem formatRangeName_lt_iff {s : SeqRange} (hr : r.min < 2 ^ 64 ∧ r.max < 2 ^ 64)
    (hs : s.min < 2 ^ 64 ∧ s.max < 2 ^ 64) :
    formatRangeName r ext < formatRangeName s ext ↔ r.min < s.min ∨ (r.min = s.min ∧ r.max < s.max) := by
  rw [String.lt_iff_toList_lt, toList_formatRangeName hr.1 hr.2, toList_formatRangeName hs.1 hs.2,
    fixed_lt_iff hr.1 hs.1, cons_lt_cons_iff, fixed_lt_iff hr.2 hs.2]
  simp

theorem formatSeqName_lt_iff (hm : m < 2 ^ 64) (hn : n < 2 ^ 64) (ext : String) :
    formatSeqName m ext < formatSeqName n ext ↔ m < n := by
  rw [String.lt_iff_toList_lt, toList_formatSeqName hm, toList_formatSeqName hn, fixed_lt_iff hm hn]
  simp

theorem deltaEnvelopeKey_lt_iff (hm : m < 2 ^ 64) (hn : n < 2 ^ 64) (pre name : String) :
    deltaEnvelopeKey pre name m < deltaEnvelopeKey pre name n ↔ m < n := by
  rw [deltaEnvelopeKey_eq, deltaEnvelopeKey_eq, String.lt_iff_toList_lt, String.toList_append, String.toList_append,
    ← formatSeqName_lt_iff hm hn "tlmd", String.lt_iff_toList_lt]
  have hdir : ∀ dir s t : List Char, dir ++ s < dir ++ t ↔ s < t := by
    intro dir s t
    induction dir with
    | nil => rw [nil_append, nil_append]
    | cons c dir ih =>
      rw [cons_append, cons_append, cons_lt_cons_iff, ih]
      simp
  exact hdir _ _ _

/-! ## Names read back -/

theorem parseRangeName_formatRangeName (hle : r.min ≤ r.max) (hmax : r.max < 2 ^ 64) :
    parseRangeName (formatRangeName r ext) ext = some r := by
  have hmin : r.min < 2 ^ 64 := lt_of_le_of_lt hle hmax
  rw [parseRangeName_range ((numeral_fixed r.min).not_mem not_isLower_dash) (toList_formatRangeName hmin hmax),
    parseHexU64_fixed hmin, parseHexU64_fixed hmax]
  exact if_neg (not_lt.mpr hle)

theorem parseRangeName_formatSeqName (h : seq < 2 ^ 64) :
    parseRangeName (formatSeqName seq ext) ext = some (.point seq) := by
  rw [parseRangeName_seq ((numeral_fixed seq).not_mem not_isLower_dash) (toList_formatSeqName h ext),
    parseHexU64_fixed h]
  rfl

theorem parseDeltaEnvelopeSeq_deltaEnvelopeKey (h : seq < 2 ^ 64) (pre name : String) :
    parseDeltaEnvelopeSeq (deltaEnvelopeKey pre name seq) = some seq := by
  rw [deltaEnvelopeKey_eq, parseDeltaEnvelopeSeq_plain (numeral_fixed seq) (toList_formatSeqName h "tlmd"),
    parseHexU64_fixed h]

/-- **Object names.** Every emitted name reads back, and emitted names are ordered as their numbers. A string that is
    accepted is the emitted name of what it is read as exactly if its numbers are sixteen lower-case hex digits, for an
    envelope right below the listed directory; and no two such names of one form are read alike. -/
theorem names_canonical_iff (ext pre name : String) :
    (∀ r : SeqRange, r.min ≤ r.max → r.max < 2 ^ 64 → parseRangeName (formatRangeName r ext) ext = some r) ∧
    (∀ seq < 2 ^ 64, parseRangeName (formatSeqName seq ext) ext = some (.point seq)) ∧
    (∀ seq < 2 ^ 64, parseDeltaEnvelopeSeq (deltaEnvelopeKey pre name seq) = some seq) ∧
    (∀ r s : SeqRange, r.min < 2 ^ 64 ∧ r.max < 2 ^ 64 → s.min < 2 ^ 64 ∧ s.max < 2 ^ 64 →
      (formatRangeName r ext < formatRangeName s ext ↔ r.min < s.min ∨ (r.min = s.min ∧ r.max < s.max))) ∧
    (∀ m < 2 ^ 64, ∀ n < 2 ^ 64, (formatSeqName m ext < formatSeqName n ext ↔ m < n) ∧
      (deltaEnvelopeKey pre name m < deltaEnvelopeKey pre name n ↔ m < n)) ∧
    (∀ file r, parseRangeName file ext = some r →
      (file = formatRangeName r ext ↔ PlainRange ext file) ∧
      ((r.min = r.max ∧ file = formatSeqName r.min ext) ↔ PlainSeq ext file)) ∧
    (∀ rest seq, parseDeltaEnvelopeSeq (liveDir pre name ++ rest) = some seq →
      (liveDir pre name ++ rest = deltaEnvelopeKey pre name seq ↔ PlainSeq "tlmd" rest)) ∧
    (∀ file file' r, parseRangeName file ext = some r → parseRangeName file' ext = some r →
      (PlainRange ext file ∧ PlainRange ext file') ∨ (PlainSeq ext file ∧ PlainSeq ext file') → file = file') ∧
    (∀ rest rest' seq, parseDeltaEnvelopeSeq (liveDir pre name ++ rest) = some seq →
      parseDeltaEnvelopeSeq (liveDir pre name ++ rest') = some seq →
      PlainSeq "tlmd" rest → PlainSeq "tlmd" rest' → liveDir pre name ++ rest = liveDir pre name ++ rest') := by
  refine ⟨fun r hle hmax => parseRangeName_formatRangeName hle hmax,
    fun seq h => parseRangeName_formatSeqName h,
    fun seq h => parseDeltaEnvelopeSeq_deltaEnvelopeKey h pre name,
    fun r s hr hs => formatRangeName_lt_iff hr hs,
    fun m hm n hn => ⟨formatSeqName_lt_iff hm hn ext, deltaEnvelopeKey_lt_iff hm hn pre name⟩,
    fun file r h => ⟨formatRangeName_iff h, formatSeqName_iff h⟩,
    fun rest seq h => deltaEnvelopeKey_iff h, ?_, ?_⟩
  · rintro file file' r h h' (⟨hp, hp'⟩ | ⟨hp, hp'⟩)
    · rw [(formatRangeName_iff h).mpr hp, (formatRangeName_iff h').mpr hp']
    · rw [((formatSeqName_iff h).mpr hp).2, ((formatSeqName_iff h').mpr hp').2]
  · intro rest rest' seq h h' hp hp'
    rw [(deltaEnvelopeKey_iff h).mpr hp, (deltaEnvelopeKey_iff h').mpr hp']

/-- A short name, one in upper case and one with a sign are read as the seq of the emitted name. -/
theorem names_collide :
    parseRangeName "f.hadbp" "hadbp" = some (.point 15) ∧
    parseRangeName "000000000000000F.hadbp" "hadbp" = some (.point 15) ∧
    parseRangeName "000000000000000f.hadbp" "hadbp" = some (.point 15) ∧
    parseRangeName "+1-f.hadbp" "hadbp" = some ⟨1, 15⟩ ∧
    parseRangeName "0000000000000001-000000000000000f.hadbp" "hadbp" = some ⟨1, 15⟩ ∧
    parseDeltaEnvelopeSeq "db/0000/+00000000000000f.tlmd" = some 15 ∧
    parseDeltaEnvelopeSeq "db/0000/000000000000000F.tlmd" = some 15 ∧
    parseDeltaEnvelopeSeq "db/0000/old/000000000000000f.tlmd" = some 15 ∧
    parseDeltaEnvelopeSeq "db/0000/000000000000000f.tlmd" = some 15 ∧
    deltaEnvelopeKey "" "db" 15 = "db/0000/000000000000000f.tlmd" := by
  decide +kernel

theorem names_canonical_fifteen :
    parseRangeName "000000000000000f.hadbp" "hadbp" = some (.point 15) ∧
    PlainSeq "hadbp" "000000000000000f.hadbp" ∧ "000000000000000f.hadbp" = formatSeqName 15 "hadbp" := by
  have hparse : parseRangeName "000000000000000f.hadbp" "hadbp" = some (.point 15) := by decide +kernel
  have hplain : PlainSeq "hadbp" "000000000000000f.hadbp" := by
    have hlower : ("000000000000000f".toList.all fun c => decide (IsLower c)) = true := by decide
    exact ⟨_, ⟨rfl, fun c hc => of_decide_eq_true (all_eq_true.mp hlower c hc)⟩, rfl⟩
  have h := (names_canonical_iff "hadbp" "" "db").2.2.2.2.2.1 _ _ hparse
  exact ⟨hparse, hplain, (h.2.mpr hplain).2⟩

end Compaction
end Walrust
