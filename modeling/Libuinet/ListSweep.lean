import Mathlib.Data.List.Basic
import Mathlib.Data.List.Nodup

namespace ListSweep

variable {α : Type*}

/-- Every element in front of the position `p` is done. -/
def Sweep (l : List α) (p : Option α) (done : α → Prop) : Prop :=
  ∃ pre suf, l = pre ++ suf ∧ suf.head? = p ∧ ∀ x ∈ pre, done x

variable {l : List α} {p : Option α} {done : α → Prop} {c : α}

theorem sweep_head (l : List α) (done : α → Prop) : Sweep l l.head? done :=
  ⟨[], l, rfl, rfl, by simp⟩

/-- At the end of the walk everything is done. -/
theorem Sweep.all (h : Sweep l none done) : ∀ x ∈ l, done x := by
  obtain ⟨pre, suf, rfl, hhead, hdone⟩ := h
  rw [List.head?_eq_none_iff.mp hhead, List.append_nil]
  exact hdone

theorem Sweep.mem (h : Sweep l (some c) done) : c ∈ l := by
  obtain ⟨pre, suf, rfl, hhead, -⟩ := h
  exact List.mem_append_right pre (List.mem_of_mem_head? hhead)

theorem Sweep.imp {done' : α → Prop} (h : Sweep l p done) (himp : ∀ x ∈ l, done x → done' x) :
    Sweep l p done' := by
  obtain ⟨pre, suf, rfl, hhead, hdone⟩ := h
  exact ⟨pre, suf, rfl, hhead, fun x hx => himp x (List.mem_append_left suf hx) (hdone x hx)⟩

/-- An element that is done is put in anywhere. -/
theorem Sweep.insert {pre suf : List α} (h : Sweep (pre ++ suf) p done) (hc : done c) :
    Sweep (pre ++ c :: suf) p done := by
  obtain ⟨front, rest, heq, hhead, hdone⟩ := h
  rcases List.append_eq_append_iff.mp heq with ⟨mid, rfl, rfl⟩ | ⟨mid, rfl, rfl⟩
  · -- it is put in among those in front of the position
    refine ⟨pre ++ c :: mid, rest, by simp, hhead, ?_⟩
    intro x hx
    rcases List.mem_append.mp hx with hx | hx
    · exact hdone x (List.mem_append_left mid hx)
    · rcases List.mem_cons.mp hx with rfl | hx
      · exact hc
      · exact hdone x (List.mem_append_right pre hx)
  · cases mid with
    | nil =>
      refine ⟨front ++ [c], suf, by simp, by simpa using hhead, ?_⟩
      intro x hx
      rcases List.mem_append.mp hx with hx | hx
      · exact hdone x hx
      · rwa [List.mem_singleton.mp hx]
    | cons d mid => exact ⟨front, d :: mid ++ c :: suf, by simp, hhead, hdone⟩

/-- The same at the end. -/
theorem Sweep.concat (h : Sweep l p done) (hc : done c) : Sweep (l ++ [c]) p done := by
  rw [← List.append_nil l] at h
  exact h.insert hc

variable [DecidableEq α]

/-- The element behind `c`. -/
def after (l : List α) (c : α) : Option α := (l.dropWhile (· ≠ c)).tail.head?

theorem after_append_cons {pre suf : List α} {c : α} (hc : c ∉ pre) :
    after (pre ++ c :: suf) c = suf.head? := by
  have hdrop : (pre ++ c :: suf).dropWhile (· ≠ c) = c :: suf := by
    rw [List.dropWhile_append_of_pos]
    · simp
    · intro x hx
      simp only [ne_eq, decide_not, Bool.not_eq_eq_eq_not, Bool.not_true, decide_eq_false_iff_not]
      rintro rfl
      exact hc hx
  rw [after, hdrop, List.tail_cons]

/-- The element behind another one is on the list as well. -/
theorem mem_of_after {x : α} (hl : l.Nodup) (hc : c ∈ l) (hx : after l c = some x) :
    x ∈ l ∧ x ≠ c := by
  obtain ⟨pre, suf, rfl⟩ := List.append_of_mem hc
  obtain ⟨-, hsuf, hdisj⟩ := List.nodup_append.mp hl
  have hpre : c ∉ pre := fun hc => hdisj c hc c List.mem_cons_self rfl
  rw [after_append_cons hpre] at hx
  have hmem : x ∈ suf := List.mem_of_mem_head? hx
  refine ⟨List.mem_append_right pre (List.mem_cons_of_mem c hmem), ?_⟩
  rintro rfl
  exact (List.nodup_cons.mp hsuf).1 hmem

section

variable (h : Sweep l (some c) done)
include h

/-- The list taken apart at the position. -/
theorem Sweep.split (hl : l.Nodup) :
    ∃ pre suf, l = pre ++ c :: suf ∧ c ∉ pre ∧ c ∉ suf ∧ after l c = suf.head? ∧
      ∀ x ∈ pre, done x := by
  obtain ⟨pre, suf, rfl, hhead, hdone⟩ := h
  obtain ⟨suf, rfl⟩ : ∃ suf', suf = c :: suf' := List.head?_eq_some_iff.mp hhead
  obtain ⟨-, hsuf, hdisj⟩ := List.nodup_append.mp hl
  have hpre : c ∉ pre := fun hc => hdisj c hc c List.mem_cons_self rfl
  exact ⟨pre, suf, rfl, hpre, (List.nodup_cons.mp hsuf).1, after_append_cons hpre, hdone⟩

/-- The walk goes on when the element it looks at is done. -/
theorem Sweep.skip (hl : l.Nodup) (hc : done c) : Sweep l (after l c) done := by
  obtain ⟨pre, suf, rfl, -, -, hafter, hdone⟩ := h.split hl
  refine ⟨pre ++ [c], suf, by simp, hafter.symm, ?_⟩
  intro x hx
  rcases List.mem_append.mp hx with hx | hx
  · exact hdone x hx
  · rwa [List.mem_singleton.mp hx]

/-- The element it looks at is taken out. -/
theorem Sweep.take (hl : l.Nodup) : Sweep (l.erase c) (after l c) done := by
  obtain ⟨pre, suf, rfl, hpre, -, hafter, hdone⟩ := h.split hl
  exact ⟨pre, suf, by rw [List.erase_append_right _ hpre, List.erase_cons_head], hafter.symm, hdone⟩

end

/-- Any element is taken out, and the position is moved when it was there. -/
theorem Sweep.erase (h : Sweep l p done) (hl : l.Nodup) (c : α) :
    Sweep (l.erase c) (if p = some c then after l c else p) done := by
  by_cases hp : p = some c
  · subst hp
    rw [if_pos rfl]
    exact h.take hl
  · rw [if_neg hp]
    obtain ⟨pre, suf, rfl, hhead, hdone⟩ := h
    by_cases hc : c ∈ pre
    · refine ⟨pre.erase c, suf, List.erase_append_left _ hc, hhead, ?_⟩
      exact fun x hx => hdone x (List.mem_of_mem_erase hx)
    · refine ⟨pre, suf.erase c, List.erase_append_right _ hc, ?_, hdone⟩
      cases suf with
      | nil => exact hhead
      | cons d suf =>
        have hd : d ≠ c := by
          rintro rfl
          exact hp hhead.symm
        rw [List.erase_cons_tail (by simpa using hd)]
        exact hhead

end ListSweep
