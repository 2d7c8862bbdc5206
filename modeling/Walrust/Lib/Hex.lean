import Mathlib.Data.Nat.Digits.Defs
import Mathlib.Tactic.Common

/-!
# `Walrust.Lib.Hex` — hexadecimal numerals of a fixed width

Numbers written with a fixed number of lower-case hex digits, and the radix parser that reads them back. The parser is
the one standard libraries have: it takes upper case, any width and a leading sign.

* `fixed` — the numeral; `fixed_append_lt_iff`: the order of numerals is the order of the numbers;
* `fromStrRadix` — the parser; `parseDigits_fixed`: it reads a numeral back;
* `fixed_of_parseDigits` — and what it reads from lower-case digits is the numeral of its value.
-/

namespace Lib
namespace Hex

open List

variable {bound : Nat}

/-! ## Digits -/

/-- The value of a digit, in either case. -/
def digitValue (c : Char) : Option Nat :=
  if '0' ≤ c ∧ c ≤ '9' then some (c.toNat - 48)
  else if 'a' ≤ c ∧ c ≤ 'f' then some (c.toNat - 87)
  else if 'A' ≤ c ∧ c ≤ 'F' then some (c.toNat - 55)
  else none

/-- A digit as the formatter writes it. -/
def IsLower (c : Char) : Prop := ('0' ≤ c ∧ c ≤ '9') ∨ ('a' ≤ c ∧ c ≤ 'f')

instance (c : Char) : Decidable (IsLower c) := inferInstanceAs (Decidable (_ ∨ _))

theorem digitValue_digitChar {d : Nat} (h : d < 16) : digitValue d.digitChar = some d := by
  have hall : ∀ d : Fin 16, digitValue d.val.digitChar = some d.val := by decide
  exact hall ⟨d, h⟩

theorem isLower_digitChar {d : Nat} (h : d < 16) : IsLower d.digitChar := by
  have hall : ∀ d : Fin 16, IsLower d.val.digitChar := by decide
  exact hall ⟨d, h⟩

theorem digitChar_lt_iff {a b : Nat} (ha : a < 16) (hb : b < 16) : a.digitChar < b.digitChar ↔ a < b := by
  have hall : ∀ a b : Fin 16, a.val.digitChar < b.val.digitChar ↔ a.val < b.val := by decide
  exact hall ⟨a, ha⟩ ⟨b, hb⟩

theorem digitChar_inj {a b : Nat} (ha : a < 16) (hb : b < 16) (h : a.digitChar = b.digitChar) : a = b := by
  have hv := congrArg digitValue h
  rw [digitValue_digitChar ha, digitValue_digitChar hb] at hv
  exact Option.some.inj hv

/-- A digit in lower case is the digit of its value. -/
theorem digitChar_of_isLower {c : Char} {d : Nat} (hc : IsLower c) (h : digitValue c = some d) :
    d < 16 ∧ d.digitChar = c := by
  have hnat : ∀ a b : Char, a ≤ b ↔ a.toNat ≤ b.toNat := fun a b => Iff.rfl
  have hchar : c = Char.ofNat c.toNat := (Char.ofNat_toNat c).symm
  have h0 : '0'.toNat = 48 := rfl
  have h9 : '9'.toNat = 57 := rfl
  have ha : 'a'.toNat = 97 := rfl
  have hf : 'f'.toNat = 102 := rfl
  rcases hc with ⟨h1, h2⟩ | ⟨h1, h2⟩
  · rw [digitValue, if_pos ⟨h1, h2⟩] at h
    rw [hnat, h0] at h1
    rw [hnat] at h2
    cases h
    refine ⟨by omega, ?_⟩
    have hall : ∀ n : Fin 10, (n.val).digitChar = Char.ofNat (n.val + 48) := by decide
    have := hall ⟨c.toNat - 48, by omega⟩
    rw [this, Nat.sub_add_cancel h1, ← hchar]
  · have hnot : ¬ ('0' ≤ c ∧ c ≤ '9') := by
      rintro ⟨-, h9'⟩
      rw [hnat] at h9'
      rw [hnat] at h1
      omega
    rw [digitValue, if_neg hnot, if_pos ⟨h1, h2⟩] at h
    rw [hnat, ha] at h1
    rw [hnat] at h2
    cases h
    refine ⟨by omega, ?_⟩
    have hall : ∀ n : Fin 6, (n.val + 10).digitChar = Char.ofNat (n.val + 97) := by decide
    have := hall ⟨c.toNat - 97, by omega⟩
    have hten : c.toNat - 87 = c.toNat - 97 + 10 := by omega
    rw [hten, this, Nat.sub_add_cancel h1, ← hchar]

/-! ## Numerals -/

/-- The last `width` digits of `n`. -/
def fixed : Nat → Nat → List Char
  | 0, _ => []
  | width + 1, n => (n / 16 ^ width % 16).digitChar :: fixed width n

@[simp] theorem length_fixed (width n : Nat) : (fixed width n).length = width := by
  induction width with
  | zero => rfl
  | succ width ih => rw [fixed, length_cons, ih]

theorem isLower_of_mem_fixed {width n : Nat} {c : Char} (h : c ∈ fixed width n) : IsLower c := by
  induction width with
  | zero => cases h
  | succ width ih =>
    rcases mem_cons.mp h with rfl | h
    · exact isLower_digitChar (Nat.mod_lt _ (by decide))
    · exact ih h

/-- The digits from the left: the leading one, and what is left. -/
theorem mod_pow_succ_digit {n width : Nat} :
    n % 16 ^ (width + 1) = n / 16 ^ width % 16 * 16 ^ width + n % 16 ^ width := by
  rw [pow_succ, Nat.mod_mul, mul_comm (16 ^ width), add_comm]

/-- A numeral from the right: the last digit behind the numeral of the rest. -/
theorem fixed_succ_right (width n : Nat) : fixed (width + 1) n = fixed width (n / 16) ++ [(n % 16).digitChar] := by
  induction width with
  | zero => simp [fixed]
  | succ width ih =>
    rw [fixed, ih, fixed]
    have hdiv : n / 16 ^ (width + 1) = n / 16 / 16 ^ width := by
      rw [Nat.div_div_eq_div_mul, pow_succ, mul_comm]
    rw [hdiv]
    rfl

/-- **The order of numerals is the order of the numbers**; what follows them decides between equal ones. -/
theorem fixed_append_lt_iff (width m n : Nat) (s t : List Char) :
    fixed width m ++ s < fixed width n ++ t ↔
      m % 16 ^ width < n % 16 ^ width ∨ (m % 16 ^ width = n % 16 ^ width ∧ s < t) := by
  induction width with
  | zero => simp [fixed, Nat.mod_one]
  | succ width ih =>
    have hm : m / 16 ^ width % 16 < 16 := Nat.mod_lt _ (by decide)
    have hn : n / 16 ^ width % 16 < 16 := Nat.mod_lt _ (by decide)
    have hm' : m % 16 ^ width < 16 ^ width := Nat.mod_lt _ (Nat.pow_pos (by decide))
    have hn' : n % 16 ^ width < 16 ^ width := Nat.mod_lt _ (Nat.pow_pos (by decide))
    rw [fixed, fixed, cons_append, cons_append, cons_lt_cons_iff, digitChar_lt_iff hm hn, ih,
      mod_pow_succ_digit, mod_pow_succ_digit]
    generalize m / 16 ^ width % 16 = a at hm ⊢
    generalize n / 16 ^ width % 16 = b at hn ⊢
    generalize m % 16 ^ width = x at hm' ⊢
    generalize n % 16 ^ width = y at hn' ⊢
    generalize 16 ^ width = p at hm' hn' ⊢
    -- the leading digits decide, unless they are equal
    rcases lt_trichotomy a b with hab | rfl | hab
    · have hlt : a * p + x < b * p + y := by
        have : (a + 1) * p ≤ b * p := Nat.mul_le_mul_right p hab
        rw [Nat.succ_mul] at this
        omega
      exact ⟨fun _ => .inl hlt, fun _ => .inl hab⟩
    · constructor
      · rintro (h | ⟨-, h | ⟨rfl, h⟩⟩)
        · exact absurd h (lt_irrefl a)
        · exact .inl (by omega)
        · exact .inr ⟨rfl, h⟩
      · rintro (h | ⟨heq, h⟩)
        · exact .inr ⟨rfl, .inl (by omega)⟩
        · exact .inr ⟨rfl, .inr ⟨by omega, h⟩⟩
    · have hlt : b * p + y < a * p + x := by
        have : (b + 1) * p ≤ a * p := Nat.mul_le_mul_right p hab
        rw [Nat.succ_mul] at this
        omega
      constructor
      · rintro (h | ⟨h, -⟩)
        · omega
        · have := digitChar_inj hm hn h
          omega
      · rintro (h | ⟨h, -⟩) <;> omega

/-! ## The parser -/

/-- The digits of a number, with the check that the value stays below `bound`. -/
def parseDigits (bound : Nat) : Nat → List Char → Option Nat
  | value, [] => some value
  | value, c :: cs =>
    match digitValue c with
    | none => none
    | some d => if value * 16 + d < bound then parseDigits bound (value * 16 + d) cs else none

/-- The radix parser of an unsigned integer: one leading plus sign is skipped. -/
def fromStrRadix (bound : Nat) : List Char → Option Nat
  | [] => none
  | ['+'] => none
  | '+' :: cs => parseDigits bound 0 cs
  | cs => parseDigits bound 0 cs

theorem parseDigits_fixed (width n value : Nat) (h : value * 16 ^ width + n % 16 ^ width < bound) :
    parseDigits bound value (fixed width n) = some (value * 16 ^ width + n % 16 ^ width) := by
  induction width generalizing value with
  | zero => simp [fixed, parseDigits, Nat.mod_one]
  | succ width ih =>
    have hd : n / 16 ^ width % 16 < 16 := Nat.mod_lt _ (by decide)
    have hvalue : value * 16 ^ (width + 1) + n % 16 ^ (width + 1) =
        (value * 16 + n / 16 ^ width % 16) * 16 ^ width + n % 16 ^ width := by
      rw [mod_pow_succ_digit, pow_succ, add_mul, mul_assoc, mul_comm (16 ^ width) 16, add_assoc]
    rw [hvalue] at h ⊢
    have hle : value * 16 + n / 16 ^ width % 16 ≤ (value * 16 + n / 16 ^ width % 16) * 16 ^ width :=
      Nat.le_mul_of_pos_right _ (Nat.pow_pos (by decide))
    rw [fixed, parseDigits, digitValue_digitChar hd]
    dsimp only
    rw [if_pos (by omega), ih _ h]

/-- **What is read from lower-case digits is the numeral of its value.** -/
theorem fixed_of_parseDigits {value v : Nat} {cs : List Char} (hlower : ∀ c ∈ cs, IsLower c)
    (h : parseDigits bound value cs = some v) : fixed cs.length v = cs ∧ v / 16 ^ cs.length = value := by
  induction cs generalizing value with
  | nil =>
    cases h
    simp [fixed]
  | cons c cs ih =>
    rw [parseDigits] at h
    split at h
    · cases h
    rename_i d hd
    split at h
    · obtain ⟨hrest, hdiv⟩ := ih (fun c' hc' => hlower c' (mem_cons_of_mem _ hc')) h
      obtain ⟨hlt, hchar⟩ := digitChar_of_isLower (hlower c mem_cons_self) hd
      have hmod : (value * 16 + d) % 16 = d := by omega
      rw [length_cons]
      refine ⟨?_, ?_⟩
      · rw [fixed, hrest, hdiv, hmod, hchar]
      · rw [pow_succ, ← Nat.div_div_eq_div_mul]
        omega
    · cases h

theorem parseDigits_lt {value v : Nat} {cs : List Char} (hvalue : value < bound)
    (h : parseDigits bound value cs = some v) : v < bound := by
  induction cs generalizing value with
  | nil =>
    cases h
    exact hvalue
  | cons c cs ih =>
    rw [parseDigits] at h
    split at h
    · cases h
    split at h
    · rename_i hlt
      exact ih hlt h
    · cases h

end Hex
end Lib
