import Libuinet.SlotRing
import Mathlib.Data.List.Perm.Basic

namespace TokenRing

open SlotRing

variable {α : Type*} {m : ℕ}

/-- The tokens at the positions from `C` to `B` (one turn on), with those away, are the original
ones. -/
structure Ring (f : ℕ → α) (m B C : ℕ) (away original : List α) : Prop where
  le : B ≤ C
  le_turn : C ≤ B + m
  perm : (stretch f m C (B + m - C) ++ away).Perm original

namespace Ring

variable {f : ℕ → α} {B C : ℕ} {away away' original : List α}

theorem congr (h : Ring f m B C away original) (hperm : away.Perm away') :
    Ring f m B C away' original :=
  { h with perm := (hperm.symm.append_left _).trans h.perm }

theorem take (h : Ring f m B C away original) (hlt : C < B + m) :
    Ring f m B (C + 1) (f (C % m) :: away) original := by
  refine ⟨h.le.trans (Nat.le_succ C), hlt, List.Perm.trans ?_ h.perm⟩
  obtain ⟨k, hk⟩ : ∃ k, B + m - C = k + 1 := ⟨B + m - C - 1, by omega⟩
  rw [show B + m - (C + 1) = k by omega, hk, stretch_succ]
  exact List.perm_middle

theorem put {x : α} (h : Ring f m B C (x :: away) original) (hlt : B < C) :
    Ring (Function.update f (B % m) x) m (B + 1) C away original := by
  have hturn := h.le_turn
  refine ⟨hlt, by omega, List.Perm.trans ?_ h.perm⟩
  have hlast : (C + (B + m - C)) % m = B % m := by
    rw [show C + (B + m - C) = B + m by omega, Nat.add_mod_right]
  rw [show B + 1 + m - C = B + m - C + 1 by omega, stretch_concat, hlast, Function.update_self,
    stretch_update_front f hlt (by omega), List.append_assoc]
  exact List.Perm.refl _

end Ring

/-- The tokens free, from `H` on, those back, from `T` to `L`, and those out, which have the
positions from `L` to `H`, are the numbers below `m`. -/
structure Ledger (f : ℕ → ℕ) (m T L H : ℕ) (out : List ℕ) : Prop where
  le_tail : T ≤ L
  le_head : L ≤ H
  le_turn : H ≤ T + m
  perm : (stretch f m H (T + m - H) ++ (stretch f m T (L - T) ++ out)).Perm (List.range m)

namespace Ledger

variable {f : ℕ → ℕ} {T L H : ℕ} {out out' : List ℕ}

theorem start (m : ℕ) : Ledger id m 0 0 0 [] := by
  refine ⟨le_rfl, le_rfl, Nat.zero_le _, ?_⟩
  simp [stretch_whole]

section

variable (h : Ledger f m T L H out)
include h

theorem congr (hperm : out.Perm out') : Ledger f m T L H out' :=
  { h with perm := ((hperm.symm.append_left _).append_left _).trans h.perm }

theorem nodup :
    (stretch f m H (T + m - H) ++ (stretch f m T (L - T) ++ out)).Nodup :=
  h.perm.nodup_iff.mpr List.nodup_range

/-- Each token that is out has a position. -/
theorem add_length : L + out.length = H := by
  obtain ⟨hTL, -, hturn, hperm⟩ := h
  have hlength := hperm.length_eq
  simp only [List.length_append, stretch_length, List.length_range] at hlength
  omega

/-- A free token goes out. -/
theorem take (hlt : H < T + m) : Ledger f m T L (H + 1) (f (H % m) :: out) := by
  refine ⟨h.le_tail, h.le_head.trans (Nat.le_succ H), hlt, List.Perm.trans ?_ h.perm⟩
  obtain ⟨k, hk⟩ : ∃ k, T + m - H = k + 1 := ⟨T + m - H - 1, by omega⟩
  rw [show T + m - (H + 1) = k by omega, hk, stretch_succ]
  exact (List.perm_middle.append_left _).trans List.perm_middle

end

/-- The last token that went out becomes free again. -/
theorem untake {t : ℕ} (h : Ledger f m T L (H + 1) (t :: out)) (ht : f (H % m) = t) :
    Ledger f m T L H out := by
  have hcount := h.add_length
  rw [List.length_cons] at hcount
  have hturn := h.le_turn
  refine ⟨h.le_tail, by omega, by omega, List.Perm.trans ?_ h.perm⟩
  rw [show T + m - H = T + m - (H + 1) + 1 by omega, stretch_succ, ht]
  exact ((List.perm_middle.append_left _).trans List.perm_middle).symm

/-- The position at the tail may be written while a token is out. -/
theorem write (h : Ledger f m T L H out) (hlt : L < H) (t : ℕ) :
    Ledger (Function.update f (L % m) t) m T L H out := by
  have hTL := h.le_tail
  have hturn := h.le_turn
  refine ⟨hTL, h.le_head, hturn, ?_⟩
  rw [stretch_update_front f hlt (by omega), stretch_update_behind f (by omega) (by omega)]
  exact h.perm

/-- The token that is written at the tail comes back. -/
theorem back {t : ℕ} (h : Ledger f m T L H (t :: out)) (ht : f (L % m) = t) :
    Ledger f m T (L + 1) H out := by
  have hcount := h.add_length
  rw [List.length_cons] at hcount
  have hTL := h.le_tail
  refine ⟨by omega, by omega, h.le_turn, ?_⟩
  rw [show L + 1 - T = L - T + 1 by omega, stretch_concat, show T + (L - T) = L by omega, ht,
    List.append_assoc]
  exact h.perm

/-- The trail passes a token that is back, which is free then. -/
theorem sweep (h : Ledger f m T L H out) (hlt : T < L) : Ledger f m (T + 1) L H out := by
  have hLH := h.le_head
  have hturn := h.le_turn
  refine ⟨hlt, hLH, by omega, List.Perm.trans ?_ h.perm⟩
  have hlast : (H + (T + m - H)) % m = T % m := by
    rw [show H + (T + m - H) = T + m by omega, Nat.add_mod_right]
  rw [show T + 1 + m - H = T + m - H + 1 by omega, stretch_concat, hlast,
    show L - T = L - (T + 1) + 1 by omega, stretch_succ, List.append_assoc]
  exact List.Perm.refl _

end Ledger

end TokenRing
