import Mathlib.Data.BitVec
import Mathlib.Tactic.Ring

namespace SerialArith

variable {w : ℕ}

/-- The distance from `r` forward to `x`. -/
def off (r x : BitVec w) : ℕ := (x - r).toNat

variable (r x : BitVec w)

@[simp] theorem off_self : off r r = 0 := by simp [off]

theorem off_lt : off r x < 2 ^ w := (x - r).isLt

theorem add_off : r + BitVec.ofNat w (off r x) = x := by
  rw [off, BitVec.ofNat_toNat, BitVec.setWidth_eq]
  ring

theorem off_eq_zero {r x : BitVec w} : off r x = 0 ↔ x = r := by
  constructor
  · intro h
    have h' := add_off r x
    rw [h] at h'
    simpa using h'.symm
  · rintro rfl
    exact off_self x

theorem off_add (k : ℕ) (h : off r x + k < 2 ^ w) : off r (x + BitVec.ofNat w k) = off r x + k := by
  have hx : x + BitVec.ofNat w k - r = (x - r) + BitVec.ofNat w k := by ring
  unfold off at *
  rw [hx, BitVec.toNat_add, BitVec.toNat_ofNat, Nat.add_mod_mod, Nat.mod_eq_of_lt h]

theorem off_add_ofInt (d : ℤ) : off r (r + BitVec.ofInt w d) = (d % (2 ^ w : ℕ)).toNat := by
  rw [off, add_sub_cancel_left, BitVec.toNat_ofInt]

/-- Moving the reference point forward shortens the distances ahead of it. -/
theorem off_advance (k : ℕ) (h : k ≤ off r x) : off (r + BitVec.ofNat w k) x = off r x - k := by
  have hlt := off_lt r x
  have hx : x - (r + BitVec.ofNat w k) = (x - r) - BitVec.ofNat w k := by ring
  have hk : k % 2 ^ w = k := Nat.mod_eq_of_lt (by omega)
  unfold off at *
  rw [hx, BitVec.toNat_sub_of_le]
  · rw [BitVec.toNat_ofNat, hk]
  · rw [BitVec.le_def, BitVec.toNat_ofNat, hk]
    exact h

theorem toInt_of_small (h : 2 * x.toNat < 2 ^ w) : x.toInt = x.toNat := by
  rw [BitVec.toInt_eq_toNat_cond, if_pos h]

/-- The signed difference of two counters in the same half of the number
space. -/
theorem toInt_sub (y : BitVec w) (hx : 2 * off r x < 2 ^ w) (hy : 2 * off r y < 2 ^ w) :
    (x - y).toInt = (off r x : ℤ) - off r y := by
  have hxy : x - y = (x - r) - (y - r) := by ring
  unfold off at *
  rw [hxy, BitVec.toInt_sub, toInt_of_small _ hx, toInt_of_small _ hy, Int.bmod_eq_of_le_mul_two]
  all_goals omega

/-- Two counters at signed distances from `r`, less than half of the number
space apart. -/
theorem toInt_sub_ofInt (hw : 0 < w) (r : BitVec w) {a b : ℤ} (hlo : -2 ^ (w - 1) ≤ a - b)
    (hhi : a - b < 2 ^ (w - 1)) :
    (r + BitVec.ofInt w a - (r + BitVec.ofInt w b)).toInt = a - b := by
  have hab : r + BitVec.ofInt w a - (r + BitVec.ofInt w b) = BitVec.ofInt w (a - b) := by
    rw [sub_eq_add_neg a b, BitVec.ofInt_add, BitVec.ofInt_neg]
    ring
  rw [hab, BitVec.toInt_ofInt_eq_self hw hlo hhi]

end SerialArith
