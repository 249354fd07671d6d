/-
# Hexadecimal text

Numbers written with at least so many lower-case hexadecimal digits, and read
back (`hexValue_hexText`). A number below `16 ^ width` is written with exactly
`width` digits (`length_hexText`).
-/
import Mathlib.Tactic

namespace Lib

/-- The value of a hexadecimal digit, of either case. -/
def hexDigit (c : Char) : Option ℕ :=
  if '0' ≤ c ∧ c ≤ '9' then some (c.toNat - '0'.toNat)
  else if 'a' ≤ c ∧ c ≤ 'f' then some (c.toNat - 'a'.toNat + 10)
  else if 'A' ≤ c ∧ c ≤ 'F' then some (c.toNat - 'A'.toNat + 10)
  else none

/-- The number whose digits follow those of `acc`. -/
def hexValue : ℕ → List Char → Option ℕ
  | acc, [] => some acc
  | acc, c :: cs => (hexDigit c).bind fun d => hexValue (16 * acc + d) cs

/-- The digits of `n`, with zeros in front up to `width`. -/
def hexText (width n : ℕ) : List Char := (Nat.toDigits 16 n).leftpad width '0'

theorem hexDigit_digitChar {d : ℕ} (hd : d < 16) : hexDigit d.digitChar = some d := by
  interval_cases d <;> decide

theorem hexValue_append (acc : ℕ) (cs ds : List Char) :
    hexValue acc (cs ++ ds) = (hexValue acc cs).bind fun n => hexValue n ds := by
  induction cs generalizing acc with
  | nil => rfl
  | cons c cs ih =>
    simp only [List.cons_append, hexValue]
    cases hexDigit c with
    | none => rfl
    | some d => exact ih (16 * acc + d)

theorem hexValue_toDigits (n : ℕ) : hexValue 0 (Nat.toDigits 16 n) = some n := by
  induction n using Nat.strong_induction_on with
  | _ n ih =>
    rw [Nat.toDigits_eq_if (by norm_num)]
    split_ifs with hlt
    · simp [hexValue, hexDigit_digitChar hlt]
    · rw [hexValue_append, ih (n / 16) (by omega)]
      have hmod : n % 16 < 16 := Nat.mod_lt n (by norm_num)
      simp only [Option.bind_some, hexValue, hexDigit_digitChar hmod]
      rw [Nat.div_add_mod]

theorem hexValue_zeros : ∀ (k : ℕ) (cs : List Char), hexValue 0 (List.replicate k '0' ++ cs) = hexValue 0 cs
  | 0, _ => rfl
  | k + 1, cs => hexValue_zeros k cs

/-- What is written reads back. -/
theorem hexValue_hexText (width n : ℕ) : hexValue 0 (hexText width n) = some n := by
  unfold hexText List.leftpad
  rw [hexValue_zeros, hexValue_toDigits]

theorem length_hexText {width n : ℕ} (hwidth : 0 < width) (hn : n < 16 ^ width) : (hexText width n).length = width := by
  have hle : (Nat.toDigits 16 n).length ≤ width := (Nat.length_toDigits_le_iff (by norm_num) hwidth).mpr hn
  unfold hexText List.leftpad
  rw [List.length_append, List.length_replicate]
  omega

theorem hexText_ne_nil (width n : ℕ) : hexText width n ≠ [] := by
  unfold hexText List.leftpad
  exact List.append_ne_nil_of_right_ne_nil _ Nat.toDigits_ne_nil

/-- Text that reads as a number is made of digits. -/
theorem hexDigit_of_hexValue : ∀ {cs : List Char} {acc n : ℕ}, hexValue acc cs = some n →
    ∀ c ∈ cs, (hexDigit c).isSome = true
  | [], _, _, _, _, hc => by cases hc
  | c :: cs, acc, n, h, x, hx => by
    obtain ⟨d, hd, hrest⟩ := Option.bind_eq_some_iff.mp h
    rcases List.mem_cons.mp hx with rfl | hx
    · rw [hd]
      rfl
    · exact hexDigit_of_hexValue hrest x hx

theorem hexDigit_hexText (width n : ℕ) : ∀ c ∈ hexText width n, (hexDigit c).isSome = true :=
  hexDigit_of_hexValue (hexValue_hexText width n)

end Lib
