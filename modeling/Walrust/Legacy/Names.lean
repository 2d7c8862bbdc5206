import Walrust.Compaction.Names
import Walrust.Legacy

/-!
# `Walrust.Legacy.Names` — the object names of the LTX layout

The listings of `Walrust.Legacy` are over structured keys. `LtxKey.name` is the name of a key below the prefix of its
database, split at the slashes, `nameState` what `discover_legacy_state` reads off a name, and `nameState_name` says
that a name is read as its key.
-/

namespace Walrust
namespace Legacy

open Compaction Lib.Hex List

variable {k : LtxKey} {min max txid generation : Nat} {c : Char}

/-- `format_ltx_filename`. -/
def formatLtxFilename (min max : Nat) : List Char := (formatRangeName ⟨min, max⟩ "ltx").toList

/-- The old flat name, eight decimal digits. -/
def flatDigits (txid : Nat) : List Char := (Nat.toDigits 10 txid).leftpad 8 '0'

def LtxKey.name : LtxKey → List (List Char)
  | .file generation min max => [(hexPad 4 generation).toList, formatLtxFilename min max]
  | .flat txid => [flatDigits txid ++ ".ltx".toList]
  | .flatInside txid => [(hexPad 4 0).toList, flatDigits txid ++ ".ltx".toList]
  | .level l min max => ["levels".toList, 'L' :: Nat.toDigits 10 l, formatLtxFilename min max]

/-- `parse_ltx_filename`. -/
def parseLtxFilename (filename : List Char) : Option (Nat × Nat) :=
  match (stripSuffix ".ltx".toList filename).map (splitOn '-') with
  | some [lo, hi] =>
    match parseHexU64 lo, parseHexU64 hi with
    | some min, some max => some (min, max)
    | _, _ => none
  | _ => none

/-- `parse_legacy_flat_ltx_filename`: eight digits, or a sign and seven. -/
def parseLegacyFlatLtxFilename (filename : List Char) : Option Nat :=
  match stripSuffix ".ltx".toList filename with
  | none => none
  | some name =>
    let digits := if name.head? = some '+' then name.tail else name
    if name.length = 8 ∧ digits.all Char.isDigit then some (Nat.ofDigitChars 10 digits 0) else none

/-- The TXID and the generation that `discover_legacy_state` takes from a name. -/
def nameState : List (List Char) → Nat × Nat
  | [generation, file] =>
    match parseHexU64 generation with
    | none => (0, 0)
    | some g => ((parseLtxFilename file).elim 0 Prod.snd, g)
  | [dir, _, file] =>
    if dir = "levels".toList then ((parseRangeName (String.ofList file) "ltx").elim 0 SeqRange.max, 0) else (0, 0)
  | [file] => ((parseLegacyFlatLtxFilename file).getD 0, 0)
  | _ => (0, 0)

/-- The numbers of a key fit the digits of its name. -/
def LtxKey.Fits : LtxKey → Prop
  | .file generation min max => generation < 16 ^ 4 ∧ min < 2 ^ 64 ∧ max < 2 ^ 64
  | .flat txid | .flatInside txid => txid < 10 ^ 8
  | .level _ min max => min < 2 ^ 64 ∧ max < 2 ^ 64

theorem formatLtxFilename_eq (hmin : min < 2 ^ 64) (hmax : max < 2 ^ 64) :
    formatLtxFilename min max = fixed 16 min ++ '-' :: (fixed 16 max ++ ".ltx".toList) :=
  @toList_formatRangeName "ltx" ⟨min, max⟩ hmin hmax

theorem isDigit_of_mem_flatDigits (h : c ∈ flatDigits txid) : c.isDigit = true := by
  rcases mem_append.mp h with h | h
  · rw [eq_of_mem_replicate h]
    rfl
  · exact Nat.isDigit_of_mem_toDigits (by decide) (by decide) h

theorem not_mem_flatDigits (h : c.isDigit = false) : c ∉ flatDigits txid :=
  fun hmem => absurd (isDigit_of_mem_flatDigits hmem) (by simp [h])

theorem parseLegacyFlatLtxFilename_flatDigits (h : txid < 10 ^ 8) :
    parseLegacyFlatLtxFilename (flatDigits txid ++ ".ltx".toList) = some txid := by
  have hplus : (flatDigits txid).head? ≠ some '+' := fun hhead => not_mem_flatDigits (by decide) (mem_of_head? hhead)
  have hlen : (flatDigits txid).length = 8 := by
    rw [flatDigits, length_leftpad]
    exact max_eq_left ((Nat.length_toDigits_le_iff (by decide) (by decide)).mpr h)
  rw [parseLegacyFlatLtxFilename, stripSuffix_eq_some.mpr rfl]
  simp only [if_neg hplus]
  rw [if_pos ⟨hlen, all_eq_true.mpr fun c => isDigit_of_mem_flatDigits⟩, flatDigits, leftpad,
    Nat.ofDigitChars_append, Nat.ofDigitChars_replicate_zero, mul_zero,
    Nat.ofDigitChars_toDigits (by decide) (by decide)]

theorem parseHexU64_hexPad (h : generation < 16 ^ 4) : parseHexU64 (hexPad 4 generation).toList = some generation := by
  have hne : fixed 4 generation ≠ [] := ne_nil_of_length_eq_add_one (length_fixed 4 generation)
  rw [toList_hexPad h, parseHexU64_of_lower hne fun c => isLower_of_mem_fixed,
    parseDigits_fixed 4 generation 0 (by omega), Nat.mod_eq_of_lt h, zero_mul, zero_add]

/-- **A name is read as its key.** -/
theorem nameState_name (h : k.Fits) : nameState k.name = k.state := by
  cases k with
  | file generation min max =>
    have hsplit : (fixed 16 min ++ '-' :: fixed 16 max).splitOn '-' = [fixed 16 min, fixed 16 max] :=
      @splitOn_intercalate _ [fixed 16 min, fixed 16 max] _ _ '-'
        (by simp [(numeral_fixed _).not_mem not_isLower_dash]) (cons_ne_nil _ _)
    have hstem : stripSuffix ".ltx".toList (formatLtxFilename min max) = some (fixed 16 min ++ '-' :: fixed 16 max) :=
      stripSuffix_eq_some.mpr (by simp [formatLtxFilename_eq h.2.1 h.2.2])
    simp only [LtxKey.name, nameState, parseHexU64_hexPad h.1, parseLtxFilename, hstem, Option.map_some, hsplit,
      parseHexU64_fixed h.2.1, parseHexU64_fixed h.2.2]
    rfl
  | flat txid =>
    simp only [LtxKey.name, nameState, parseLegacyFlatLtxFilename_flatDigits h]
    rfl
  | flatInside txid =>
    -- the parser of a folder wants a range
    have hsplit : (flatDigits txid).splitOn '-' = [flatDigits txid] := by
      simpa using @splitOn_intercalate _ [flatDigits txid] _ _ '-'
        (by simp [not_mem_flatDigits (show '-'.isDigit = false by decide)]) (cons_ne_nil _ _)
    simp only [LtxKey.name, nameState, parseHexU64_hexPad (show 0 < 16 ^ 4 by decide), parseLtxFilename,
      stripSuffix_eq_some.mpr rfl, Option.map_some, hsplit]
    rfl
  | level l min max =>
    have hparse := parseRangeName_range ((numeral_fixed min).not_mem not_isLower_dash)
      (@toList_formatRangeName "ltx" ⟨min, max⟩ h.1 h.2)
    simp only [parseHexU64_fixed h.1, parseHexU64_fixed h.2] at hparse
    simp only [LtxKey.name, nameState, formatLtxFilename, String.ofList_toList, if_true, hparse, LtxKey.state]
    by_cases hle : min ≤ max
    · simp [hle, not_lt.mpr hle]
    · simp [hle, not_le.mp hle]

end Legacy
end Walrust
