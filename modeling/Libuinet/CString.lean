import Mathlib.Data.List.Basic
import Mathlib.Data.List.TakeWhile
import Mathlib.Tactic.Common

namespace CString

def isSpace (c : Char) : Bool := c = ' ' ∨ ('\t'.toNat ≤ c.toNat ∧ c.toNat ≤ '\r'.toNat)

/-- The value of a digit; letters of either case go on from 10, and 36 is no digit of any base. -/
def digitVal (c : Char) : ℕ :=
  if '0'.toNat ≤ c.toNat ∧ c.toNat ≤ '9'.toNat then c.toNat - '0'.toNat
  else if 'a'.toNat ≤ c.toNat ∧ c.toNat ≤ 'z'.toNat then c.toNat - 'a'.toNat + 10
  else if 'A'.toNat ≤ c.toNat ∧ c.toNat ≤ 'Z'.toNat then c.toNat - 'A'.toNat + 10
  else 36

def isDigit (base : ℕ) (c : Char) : Bool := digitVal c < base

def number (base : ℕ) (digits : List Char) : ℕ :=
  digits.foldl (fun n c => n * base + digitVal c) 0

/-- Whether there is a minus sign, and what is behind the sign. -/
def takeSign : List Char → Bool × List Char
  | [] => (false, [])
  | c :: s => if c = '-' then (true, s) else if c = '+' then (false, s) else (false, c :: s)

/-- What is behind a `0x`; without a digit behind it, that is no part of the number. -/
def skipHexMark (base : ℕ) : List Char → List Char
  | z :: x :: d :: s =>
    if base = 16 ∧ z = '0' ∧ (x = 'x' ∨ x = 'X') ∧ isDigit 16 d then d :: s else z :: x :: d :: s
  | s => s

def ulongMax : ℕ := 18446744073709551615

def strtoul (nptr : List Char) (base : ℕ) : ℕ × List Char :=
  let (neg, s) := takeSign (nptr.dropWhile isSpace)
  let s := skipHexMark base s
  let digits := s.takeWhile (isDigit base)
  if digits = [] then (0, nptr)
  else
    let n := number base digits
    (if ulongMax < n then ulongMax else if neg then (ulongMax + 1 - n) % (ulongMax + 1) else n,
      s.dropWhile (isDigit base))

variable {base : ℕ}

section

variable {c : Char} (hbase : base ≤ 36) (h : isDigit base c)
include hbase h

theorem toNat_of_isDigit : 48 ≤ c.toNat := by
  have hlt : digitVal c < base := by simpa [isDigit] using h
  simp only [digitVal, Char.reduceToNat] at hlt
  split_ifs at hlt <;> omega

theorem isSpace_of_isDigit : isSpace c = false := by
  have hle := toNat_of_isDigit hbase h
  have hne : c ≠ ' ' := by
    rintro rfl
    exact absurd hle (by decide)
  simp only [isSpace, hne, false_or, Char.reduceToNat, decide_eq_false_iff_not]
  omega

theorem takeSign_of_isDigit (s : List Char) : takeSign (c :: s) = (false, c :: s) := by
  have hle := toNat_of_isDigit hbase h
  have hminus : c ≠ '-' := by
    rintro rfl
    exact absurd hle (by decide)
  have hplus : c ≠ '+' := by
    rintro rfl
    exact absurd hle (by decide)
  rw [takeSign, if_neg hminus, if_neg hplus]

end

/-- What is taken for the sign is at most one character. -/
theorem takeSign_split (s : List Char) :
    ∃ sign, s = sign ++ (takeSign s).2 ∧ (sign = [] ∨ ∃ c, sign = [c] ∧ (c = '+' ∨ c = '-')) := by
  cases s with
  | nil => exact ⟨[], rfl, .inl rfl⟩
  | cons c s =>
    rw [takeSign]
    split_ifs with hminus hplus
    · exact ⟨[c], rfl, .inr ⟨c, rfl, .inr hminus⟩⟩
    · exact ⟨[c], rfl, .inr ⟨c, rfl, .inl hplus⟩⟩
    · exact ⟨[], rfl, .inl rfl⟩

theorem skipHexMark_split (base : ℕ) (s : List Char) :
    ∃ mark, s = mark ++ skipHexMark base s ∧ (mark = [] ∨ mark.length = 2) := by
  fun_cases skipHexMark base s with
  | case1 z x d s h => exact ⟨[z, x], rfl, .inr rfl⟩
  | case2 z x d s h => exact ⟨[], rfl, .inl rfl⟩
  | case3 s h => exact ⟨[], rfl, .inl rfl⟩

theorem skipHexMark_of_head {s : List Char} (h : ∀ x ∈ s.head?, x ≠ 'x' ∧ x ≠ 'X') (base : ℕ)
    (z : Char) : skipHexMark base (z :: s) = z :: s := by
  match s with
  | [] | [_] => rfl
  | x :: d :: s =>
    have hx := h x rfl
    rw [skipHexMark, if_neg]
    rintro ⟨-, -, rfl | rfl, -⟩
    · exact hx.1 rfl
    · exact hx.2 rfl

/-- `strtoul` takes nothing, or white space, a sign, a mark and some digits. -/
theorem strtoul_split (s : List Char) (base : ℕ) :
    (strtoul s base).2 = s ∨ ∃ spaces sign mark digits,
      s = spaces ++ (sign ++ (mark ++ (digits ++ (strtoul s base).2))) ∧
      (∀ c ∈ spaces, isSpace c) ∧ (sign = [] ∨ ∃ c, sign = [c] ∧ (c = '+' ∨ c = '-')) ∧
      (mark = [] ∨ mark.length = 2) ∧ digits ≠ [] ∧ ∀ c ∈ digits, isDigit base c := by
  obtain ⟨sign, hsign, hsign'⟩ := takeSign_split (s.dropWhile isSpace)
  obtain ⟨mark, hmark, hmark'⟩ := skipHexMark_split base (takeSign (s.dropWhile isSpace)).2
  simp only [strtoul]
  split
  · exact .inl rfl
  · next hdigits =>
    refine .inr ⟨s.takeWhile isSpace, sign, mark, _, ?_, fun c => List.mem_takeWhile_imp, hsign',
      hmark', hdigits, fun c => List.mem_takeWhile_imp⟩
    rw [List.takeWhile_append_dropWhile, ← hmark, ← hsign, List.takeWhile_append_dropWhile]

/-- Digits and nothing else. -/
theorem strtoul_digits (hbase : base ≤ 36) (hne : base ≠ 16) {s : List Char} (hs : s ≠ [])
    (hdigits : ∀ c ∈ s, isDigit base c) : strtoul s base = (min (number base s) ulongMax, []) := by
  obtain ⟨c, s, rfl⟩ := List.exists_cons_of_ne_nil hs
  have hc : isDigit base c := hdigits c List.mem_cons_self
  have hspace : (c :: s).dropWhile isSpace = c :: s := by
    rw [List.dropWhile_cons, if_neg (by simp [isSpace_of_isDigit hbase hc])]
  have hmark : skipHexMark base (c :: s) = c :: s := by
    fun_cases skipHexMark base (c :: s) with
    | case1 z x d s h => exact absurd h.1 hne
    | case2 => rfl
    | case3 => rfl
  have htake : (c :: s).takeWhile (isDigit base) = c :: s := List.takeWhile_eq_self_iff.mpr hdigits
  have hdrop : (c :: s).dropWhile (isDigit base) = [] := List.dropWhile_eq_nil_iff.mpr hdigits
  simp only [strtoul, hspace, takeSign_of_isDigit hbase hc, hmark, htake, hdrop]
  rw [if_neg hs]
  split_ifs <;> grind

end CString
