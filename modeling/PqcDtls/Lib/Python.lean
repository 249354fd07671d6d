/-
# Python's built-ins

The built-in operations that scripts over files and word lists rest on, with
the exceptions they raise: a list item by an index that may be negative, a list
of one item repeated, the quotient `/` of two integers, which is a double, a
number read by `int(text, 16)`, and the paths of `os.path`. Text is a list of
ASCII characters.

What `%x` writes `int` reads back (`int16_hexText`), and a quotient by four is
the rounded dividend over four (`trueDiv_four`).
-/
import Mathlib.Data.List.DropRight
import PqcDtls.Lib.Binary64
import PqcDtls.Lib.Hex

namespace Lib
namespace Python

abbrev Text := List Char

/-- The exceptions, with what they say where the program says it. -/
inductive Error where
  | systemExit (msg : Text)
  | osError (msg : Text)
  | assertionError (msg : Text)
  | valueError
  | indexError
  | zeroDivisionError
  | overflowError
  | memoryError
  deriving DecidableEq

section Raise

variable {α β : Type}

@[simp] theorem ok_bind (x : α) (f : α → Except Error β) : (Except.ok x >>= f) = f x := rfl

@[simp] theorem error_bind (err : Error) (f : α → Except Error β) : (Except.error err >>= f) = .error err := rfl

end Raise

/-! ### Lists and dictionaries -/

section Items

variable {α : Type}

/-- The position of an index in a list of `len` items; a negative one counts from the end. -/
def position (len : ℕ) (i : ℤ) : Option ℕ :=
  if 0 ≤ i then if i < len then some i.toNat else none
  else if 0 ≤ i + len then some (i + len).toNat else none

def getItem (xs : List α) (i : ℤ) : Except Error α :=
  match (position xs.length i).bind fun j => xs[j]? with
  | some x => .ok x
  | none => .error .indexError

def setItem (xs : List α) (i : ℤ) (x : α) : Except Error (List α) :=
  match position xs.length i with
  | some j => .ok (xs.set j x)
  | none => .error .indexError

/-- `[x] * k`, on a machine of 64 bits with memory for `room` pointers. -/
def repeatItem (room : ℕ) (x : α) (k : ℕ) : Except Error (List α) :=
  if 2 ^ 63 ≤ k then .error .overflowError
  else if (2 ^ 63 - 1) / 8 < k ∨ room < k then .error .memoryError
  else .ok (List.replicate k x)

/-- `d[k] = v`: a key that is there keeps its place. -/
def setKey [DecidableEq α] {β : Type} (d : List (α × β)) (k : α) (v : β) : List (α × β) :=
  if k ∈ d.map Prod.fst then d.map fun p => if p.1 = k then (k, v) else p else d ++ [(k, v)]

/-- `repeatItem` gives a list exactly when its pointers can be addressed and there is memory for them. -/
theorem repeatItem_eq_ok_iff {room : ℕ} {x : α} {k : ℕ} {xs : List α} :
    repeatItem room x k = .ok xs ↔ k ≤ (2 ^ 63 - 1) / 8 ∧ k ≤ room ∧ xs = List.replicate k x := by
  unfold repeatItem
  constructor
  · intro h
    split_ifs at h with hbig hmem
    rw [not_or, not_lt, not_lt] at hmem
    exact ⟨hmem.1, hmem.2, (Except.ok.inj h).symm⟩
  · rintro ⟨haddr, hroom, rfl⟩
    have hsmall : ¬ 2 ^ 63 ≤ k := by omega
    have hmem : ¬ ((2 ^ 63 - 1) / 8 < k ∨ room < k) := by omega
    rw [if_neg hsmall, if_neg hmem]

theorem position_natCast (len i : ℕ) : position len i = if i < len then some i else none := by
  simp [position]

theorem getItem_natCast {xs : List α} {i : ℕ} {x : α} (h : xs[i]? = some x) : getItem xs i = .ok x := by
  obtain ⟨hlt, -⟩ := List.getElem?_eq_some_iff.mp h
  unfold getItem
  rw [position_natCast, if_pos hlt, Option.bind_some, h]

theorem setItem_natCast (xs : List α) (i : ℕ) (x : α) :
    setItem xs i x = if i < xs.length then .ok (xs.set i x) else .error .indexError := by
  unfold setItem
  rw [position_natCast]
  split_ifs <;> rfl

end Items

/-! ### Numbers -/

/-- `a / b`. -/
def trueDiv (a b : ℕ) : Except Error ℚ :=
  if b = 0 then .error .zeroDivisionError
  else match binary64 (a / b) with
    | some q => .ok q
    | none => .error .overflowError

theorem trueDiv_four {a : ℕ} (ha : 0 < a) :
    trueDiv a 4 = if round53 a < 2 ^ 1026 then .ok ((round53 a : ℚ) / 4) else .error .overflowError := by
  have h := binary64_div_two_pow ha (show 2 ≤ 1022 by norm_num)
  rw [show ((2 : ℚ) ^ 2) = 4 by norm_num, show 1024 + 2 = 1026 by rfl] at h
  unfold trueDiv
  rw [if_neg (by norm_num), Nat.cast_ofNat, h]
  split_ifs <;> rfl

theorem ceil_div_four (m : ℕ) : ⌈(m : ℚ) / 4⌉ = ((m + 3) / 4 : ℕ) := by
  have h := Rat.ceil_natCast_div_natCast m 4
  rw [Nat.cast_ofNat] at h
  rw [h]
  omega

/-- `str.isspace` of one character. -/
def isSpace (c : Char) : Bool := c ∈ [' ', '\t', '\n', '\x0b', '\x0c', '\r']

def strip (s : Text) : Text := (s.dropWhile isSpace).rdropWhile isSpace

def splitSign : Text → Bool × Text
  | '-' :: cs => (true, cs)
  | '+' :: cs => (false, cs)
  | cs => (false, cs)

/-- Without `0x`, which an underscore may follow. -/
def dropBase : Text → Text
  | '0' :: 'x' :: '_' :: cs => cs
  | '0' :: 'x' :: cs => cs
  | '0' :: 'X' :: '_' :: cs => cs
  | '0' :: 'X' :: cs => cs
  | cs => cs

/-- Every underscore stands between two digits. -/
def underscoresBetween : Text → Bool
  | [] => false
  | '_' :: _ => false
  | [_] => true
  | _ :: '_' :: cs => underscoresBetween cs
  | _ :: c :: cs => underscoresBetween (c :: cs)

/-- `int(s, 16)`, or `ValueError`. -/
def int16 (s : Text) : Except Error ℤ :=
  let (negative, cs) := splitSign (strip s)
  let digits := dropBase cs
  if underscoresBetween digits then
    match hexValue 0 (digits.filter (· ≠ '_')) with
    | some n => .ok (if negative then -n else n)
    | none => .error .valueError
  else .error .valueError

theorem strip_eq_self {s : Text} (hs : ∀ c ∈ s, isSpace c = false) : strip s = s := by
  unfold strip
  have hfront : s.dropWhile isSpace = s := by
    cases s with
    | nil => rfl
    | cons c cs => simp [hs c List.mem_cons_self]
  rw [hfront, List.rdropWhile_eq_self_iff]
  intro hne
  simp [hs _ (List.getLast_mem hne)]

/-- What a hexadecimal digit is not. -/
theorem not_special {c : Char} (hc : (hexDigit c).isSome = true) :
    isSpace c = false ∧ c ≠ '-' ∧ c ≠ '+' ∧ c ≠ '_' ∧ c ≠ 'x' ∧ c ≠ 'X' := by
  have hnot (d : Char) (hd : hexDigit d = none) : c ≠ d := by
    rintro rfl
    rw [hd] at hc
    cases hc
  refine ⟨?_, hnot _ (by decide), hnot _ (by decide), hnot _ (by decide), hnot _ (by decide), hnot _ (by decide)⟩
  apply decide_eq_false
  intro hmem
  fin_cases hmem <;> exact absurd hc (by decide)

theorem underscoresBetween_digits : ∀ {s : Text}, s ≠ [] → (∀ c ∈ s, c ≠ '_') → underscoresBetween s = true
  | [], hne, _ => absurd rfl hne
  | [c], _, hs => by
    have hc := hs c List.mem_cons_self
    unfold underscoresBetween
    split <;> simp_all
  | c :: d :: cs, _, hs => by
    have hc := hs c List.mem_cons_self
    have hd := hs d (by simp)
    have ih := underscoresBetween_digits (List.cons_ne_nil d cs) fun x hx => hs x (List.mem_cons_of_mem _ hx)
    unfold underscoresBetween
    split <;> simp_all

/-- **`int` reads what `%x` writes.** -/
theorem int16_hexText (width n : ℕ) : int16 (hexText width n) = .ok n := by
  have hdigits := fun c hc => not_special (hexDigit_hexText width n c hc)
  have hstrip : strip (hexText width n) = hexText width n := strip_eq_self fun c hc => (hdigits c hc).1
  have hsign : splitSign (hexText width n) = (false, hexText width n) := by
    unfold splitSign
    split <;> simp_all
  have hbase : dropBase (hexText width n) = hexText width n := by
    unfold dropBase
    split <;> simp_all
  have hbetween : underscoresBetween (hexText width n) = true :=
    underscoresBetween_digits (hexText_ne_nil width n) fun c hc => (hdigits c hc).2.2.2.1
  have hfilter : (hexText width n).filter (· ≠ '_') = hexText width n := by
    rw [List.filter_eq_self]
    intro c hc
    exact decide_eq_true (hdigits c hc).2.2.2.1
  unfold int16
  rw [hstrip, hsign]
  dsimp only
  rw [hbase, if_pos hbetween, hfilter, hexValue_hexText]
  rfl

example : (int16 " -0x_1F\n".toList).toOption = some (-31) := by decide

/-! ### Paths -/

/-- The extension of `os.path.splitext`: from the last dot of the last component
on, unless only dots stand before it. -/
def extension (path : Text) : Text :=
  let base := path.rtakeWhile (· ≠ '/')
  if (base.rdropWhile (· ≠ '.')).any (· ≠ '.') then '.' :: base.rtakeWhile (· ≠ '.') else []

example : extension "build.d/boot.tar.json".toList = ".json".toList ∧ extension "build.d/.json".toList = [] := by decide

/-- `os.path.dirname` -/
def dirname (path : Text) : Text :=
  let head := path.rdropWhile (· ≠ '/')
  if head.all (· = '/') then head else head.rdropWhile (· = '/')

/-- `os.path.join` -/
def join (path sub : Text) : Text :=
  if sub.head? = some '/' then sub
  else if path = [] ∨ path.getLast? = some '/' then path ++ sub
  else path ++ '/' :: sub

end Python
end Lib
