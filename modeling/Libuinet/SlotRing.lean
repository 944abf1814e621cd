import Mathlib.Data.Fin.Basic
import Mathlib.Data.List.Basic
import Mathlib.Logic.Function.Basic

namespace SlotRing

open Function

variable {n : ℕ}

def next (i : Fin n) : Fin n :=
  if h : i.1 + 1 = n then ⟨0, i.pos⟩ else ⟨i.1 + 1, by omega⟩

def ahead (i : Fin n) (k : ℕ) : Fin n := ⟨(i.1 + k) % n, Nat.mod_lt _ i.pos⟩

def gap (i j : Fin n) : ℕ := (j - i).1

@[simp] theorem gap_self (i : Fin n) : gap i i = 0 := by
  have hi := i.2
  simp only [gap, Fin.sub_def]
  rw [Nat.sub_add_cancel hi.le, Nat.mod_self]

theorem gap_lt (i j : Fin n) : gap i j < n := (j - i).2

theorem ahead_gap (i j : Fin n) : ahead i (gap i j) = j := by
  have hi := i.2
  apply Fin.ext
  simp only [ahead, gap, Fin.sub_def]
  rw [Nat.add_mod_mod, show i.1 + (n - i.1 + j.1) = j.1 + n by omega, Nat.add_mod_right,
    Nat.mod_eq_of_lt j.2]

theorem next_ahead (i : Fin n) (k : ℕ) : next (ahead i k) = ahead i (k + 1) := by
  have hlt : (i.1 + k) % n < n := Nat.mod_lt _ i.pos
  have hsucc : (i.1 + (k + 1)) % n = ((i.1 + k) % n + 1) % n := by
    rw [← Nat.add_assoc, Nat.mod_add_mod]
  apply Fin.ext
  by_cases h : (i.1 + k) % n + 1 = n
  · simp [next, ahead, hsucc, h]
  · have hmod : ((i.1 + k) % n + 1) % n = (i.1 + k) % n + 1 := Nat.mod_eq_of_lt (by omega)
    simp [next, ahead, hsucc, h, hmod]

theorem gap_ahead (i : Fin n) {k : ℕ} (hk : k < n) : gap i (ahead i k) = k := by
  have hi := i.2
  simp only [gap, ahead, Fin.sub_def]
  rw [Nat.add_mod_mod, show n - i.1 + (i.1 + k) = k + n by omega, Nat.add_mod_right,
    Nat.mod_eq_of_lt hk]

/-- One more step, as long as the circle is not closed. -/
theorem gap_next (i j : Fin n) (h : gap i j + 1 < n) : gap i (next j) = gap i j + 1 := by
  conv_lhs => rw [← ahead_gap i j, next_ahead, gap_ahead i h]

theorem ahead_ne {i : Fin n} {j k : ℕ} (hjk : j < k) (hk : k < n) : ahead i j ≠ ahead i k := by
  intro heq
  have hgap := congrArg (gap i) heq
  rw [gap_ahead i hk, gap_ahead i (hjk.trans hk)] at hgap
  omega

variable {α : Type*}

/-- The contents of `k` slots from `i` on. -/
def contents (f : Fin n → α) (i : Fin n) (k : ℕ) : List α :=
  (List.range k).map fun j => f (ahead i j)

section

variable (f : Fin n → α) (i : Fin n)

@[simp] theorem contents_zero : contents f i 0 = [] := rfl

@[simp] theorem contents_length (k : ℕ) : (contents f i k).length = k := by simp [contents]

/-- Writing the slot behind a stretch makes it longer by what is written. -/
theorem contents_update {k : ℕ} (hk : k < n) (x : α) :
    contents (update f (ahead i k) x) i (k + 1) = contents f i k ++ [x] := by
  unfold contents
  rw [List.range_succ, List.map_append]
  congr 1
  · apply List.map_congr_left
    intro j hj
    rw [update_of_ne (ahead_ne (List.mem_range.1 hj) hk)]
  · simp

end

variable {m : ℕ}

def nextIndex (m i : ℕ) : ℕ := if i + 1 = m then 0 else i + 1

def prevIndex (m i : ℕ) : ℕ := if 0 < i then i - 1 else m - 1

theorem nextIndex_mod (m k : ℕ) : nextIndex m (k % m) = (k + 1) % m := by
  have hsucc : (k + 1) % m = (k % m + 1) % m := (Nat.mod_add_mod k m 1).symm
  rw [hsucc, nextIndex]
  rcases Nat.eq_zero_or_pos m with rfl | hm
  · simp
  · have hlt : k % m < m := Nat.mod_lt k hm
    split
    · next heq => rw [heq, Nat.mod_self]
    · exact (Nat.mod_eq_of_lt (by omega)).symm

theorem prevIndex_mod (m k : ℕ) : prevIndex m ((k + 1) % m) = k % m := by
  rw [← nextIndex_mod, nextIndex, prevIndex]
  split
  · simp only [lt_irrefl, if_false]
    omega
  · simp

theorem mod_ne_mod {j k : ℕ} (hjk : j < k) (hlt : k < j + m) : j % m ≠ k % m := by
  intro heq
  have hzero : (k - j) % m = 0 := Nat.sub_mod_eq_zero_of_mod_eq heq.symm
  rw [Nat.mod_eq_of_lt (by omega)] at hzero
  omega

/-- What stands at the `k` positions from `i` on. -/
def stretch (f : ℕ → α) (m i k : ℕ) : List α := (List.range' i k).map fun j => f (j % m)

section

variable (f : ℕ → α)

@[simp] theorem stretch_zero (m i : ℕ) : stretch f m i 0 = [] := rfl

@[simp] theorem stretch_length (m i k : ℕ) : (stretch f m i k).length = k := by
  simp [stretch]

theorem stretch_succ (m i k : ℕ) : stretch f m i (k + 1) = f (i % m) :: stretch f m (i + 1) k := by
  rw [stretch, List.range'_succ, List.map_cons, stretch]

theorem stretch_concat (m i k : ℕ) :
    stretch f m i (k + 1) = stretch f m i k ++ [f ((i + k) % m)] := by
  rw [stretch, List.range'_concat, List.map_append, stretch]
  simp

/-- The whole ring. -/
theorem stretch_whole (m : ℕ) : stretch f m 0 m = (List.range m).map f := by
  rw [stretch, ← List.range_eq_range']
  apply List.map_congr_left
  intro j hj
  rw [Nat.mod_eq_of_lt (List.mem_range.mp hj)]

/-- Only the index of the first position counts. -/
theorem stretch_mod (m i k : ℕ) : stretch f m (i % m) k = stretch f m i k := by
  simp only [stretch, List.range'_eq_map_range, List.map_map, Function.comp_def, Nat.mod_add_mod]

end

/-- How many steps lead from the index `i` on to `j`. -/
def distance (m i j : ℕ) : ℕ := if j < i then j + m - i else j - i

theorem distance_mod {i j : ℕ} (hij : i ≤ j) (hlt : j < i + m) :
    distance m (i % m) (j % m) = j - i := by
  obtain ⟨d, rfl⟩ := Nat.exists_eq_add_of_le hij
  have hm : 0 < m := by omega
  have hi : i % m < m := Nat.mod_lt i hm
  rw [distance, ← Nat.mod_add_mod]
  rcases Nat.lt_or_ge (i % m + d) m with hd | hd
  · rw [Nat.mod_eq_of_lt hd, if_neg (by omega)]
    omega
  · rw [Nat.mod_eq_sub_mod hd, Nat.mod_eq_of_lt (by omega), if_pos (by omega)]
    omega

/-- A write behind the stretch does not touch it before it has gone round. -/
theorem stretch_update_behind (f : ℕ → α) {i k p : ℕ} (hp : i + k ≤ p) (hlt : p < i + m) (x : α) :
    stretch (update f (p % m) x) m i k = stretch f m i k := by
  unfold stretch
  apply List.map_congr_left
  intro j hj
  rw [List.mem_range'_1] at hj
  exact update_of_ne (mod_ne_mod (by omega) (by omega)) _ _

/-- Neither does a write in front of it. -/
theorem stretch_update_front (f : ℕ → α) {i k p : ℕ} (hp : p < i) (hlt : i + k ≤ p + m) (x : α) :
    stretch (update f (p % m) x) m i k = stretch f m i k := by
  unfold stretch
  apply List.map_congr_left
  intro j hj
  rw [List.mem_range'_1] at hj
  exact update_of_ne (mod_ne_mod (by omega) (by omega)).symm _ _

end SlotRing
