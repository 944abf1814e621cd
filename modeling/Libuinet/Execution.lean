import Mathlib.Data.List.Basic

namespace Execution

variable {σ α : Type*} (step : σ → α → σ)

def run (s : σ) (l : List α) : σ := l.foldl step s

/-- The condition holds of every action of the run in the state it is taken in. -/
def Along (P : σ → α → Prop) : σ → List α → Prop
  | _, [] => True
  | s, a :: l => P s a ∧ Along P (step s a) l

instance instDecidableAlong {P : σ → α → Prop} [∀ s a, Decidable (P s a)] :
    (s : σ) → (l : List α) → Decidable (Along step P s l)
  | _, [] => instDecidableTrue
  | s, a :: l =>
    have : Decidable (Along step P (step s a) l) := instDecidableAlong _ _
    inferInstanceAs (Decidable (P s a ∧ Along step P (step s a) l))

variable {step}

@[simp] theorem run_nil (s : σ) : run step s [] = s := rfl

@[simp] theorem run_cons (s : σ) (a : α) (l : List α) :
    run step s (a :: l) = run step (step s a) l := rfl

theorem run_append (s : σ) (l l' : List α) :
    run step s (l ++ l') = run step (run step s l) l' := List.foldl_append

variable {l : List α} {s : σ} {I : σ → Prop} {P Q : σ → α → Prop}

theorem along_append {l' : List α} :
    Along step P s (l ++ l') ↔ Along step P s l ∧ Along step P (run step s l) l' := by
  induction l generalizing s with
  | nil => simp [Along]
  | cons a l ih => rw [List.cons_append, Along, Along, ih, run_cons, and_assoc]

theorem along_of_forall {P : α → Prop} (h : ∀ a ∈ l, P a) (s : σ) :
    Along step (fun _ => P) s l := by
  induction l generalizing s with
  | nil => trivial
  | cons a l ih => exact ⟨h a (by simp), ih (fun b hb => h b (by simp [hb])) (step s a)⟩

theorem Along.imp (h : ∀ s a, P s a → Q s a) (hl : Along step P s l) : Along step Q s l := by
  induction l generalizing s with
  | nil => trivial
  | cons a l ih => exact ⟨h s a hl.1, ih hl.2⟩

theorem Along.and (hP : Along step P s l) (hQ : Along step Q s l) :
    Along step (fun s a => P s a ∧ Q s a) s l := by
  induction l generalizing s with
  | nil => trivial
  | cons a l ih => exact ⟨⟨hP.1, hQ.1⟩, ih hP.2 hQ.2⟩

/-- What every step preserves holds at the end of every run. -/
theorem run_invariant (hstep : ∀ s a, I s → P s a → I (step s a)) (hs : I s)
    (hl : Along step P s l) : I (run step s l) := by
  induction l generalizing s with
  | nil => exact hs
  | cons a l ih => exact ih (hstep s a hs hl.1) hl.2

/-- What follows from the invariant holds in every state that an action is taken in. -/
theorem Along.of_invariant (hl : Along step P s l) (hstep : ∀ s a, I s → P s a → I (step s a))
    (hgood : ∀ s a, I s → Q s a) (hs : I s) : Along step Q s l := by
  induction l generalizing s with
  | nil => trivial
  | cons a l ih => exact ⟨hgood s a hs, ih hl.2 (hstep s a hs hl.1)⟩

/-- The same for an invariant that every action preserves. -/
theorem run_preserves (hstep : ∀ s a, I s → I (step s a)) (hs : I s) (l : List α) :
    I (run step s l) := by
  induction l generalizing s with
  | nil => exact hs
  | cons a l ih => exact ih (hstep s a hs)

/-- The same for an invariant that also speaks about the actions taken so far. -/
theorem run_history {I : List α → σ → Prop}
    (hstep : ∀ h s a, I h s → P s a → I (h ++ [a]) (step s a)) {h : List α} (hs : I h s)
    (hl : Along step P s l) : I (h ++ l) (run step s l) := by
  induction l generalizing s h with
  | nil => simpa using hs
  | cons a l ih => simpa using ih (hstep h s a hs hl.1) hl.2

variable {J : σ → Prop}

/-- When exactly the steps that meet the condition lead to a good state, exactly the runs
that meet it all along go through good states only. -/
theorem along_iff_of_step_iff (hstep : ∀ {s : σ}, I s → ∀ a, P s a → I (step s a))
    (hiff : ∀ s a, I s → (J (step s a) ↔ P s a)) (hgood : ∀ s, I s → J s) (hs : I s) :
    (∀ pre, pre <+: l → J (run step s pre)) ↔ Along step P s l := by
  induction l generalizing s with
  | nil => simpa [Along] using hgood s hs
  | cons a l ih =>
    constructor
    · intro hpre
      have ha : P s a := (hiff s a hs).1 (hpre [a] (by simp))
      refine ⟨ha, (ih (hstep hs a ha)).1 fun pre hl => ?_⟩
      exact hpre (a :: pre) (List.cons_prefix_cons.2 ⟨rfl, hl⟩)
    · rintro ⟨ha, hl⟩ pre hpre
      rcases List.prefix_cons_iff.1 hpre with rfl | ⟨pre, rfl, htl⟩
      · exact hgood s hs
      · exact (ih (hstep hs a ha)).2 hl pre htl

/-- Two conditions on a step that agree in the states of an invariant, which the steps that
meet the second one keep, agree along every run. -/
theorem along_iff_along (hstep : ∀ s a, I s → P s a → I (step s a))
    (hiff : ∀ s a, I s → (Q s a ↔ P s a)) (hs : I s) : Along step Q s l ↔ Along step P s l := by
  induction l generalizing s with
  | nil => exact Iff.rfl
  | cons a l ih =>
    constructor
    · rintro ⟨ha, hl⟩
      have hp : P s a := (hiff s a hs).1 ha
      exact ⟨hp, (ih (hstep s a hs hp)).1 hl⟩
    · rintro ⟨hp, hl⟩
      exact ⟨(hiff s a hs).2 hp, (ih (hstep s a hs hp)).2 hl⟩

/-- A run meets the condition all along and keeps the invariant, or it does not and ends in
a state that the first exception leads to. -/
theorem along_or_of_step (hl : Along step P s l) (hs : I s)
    (hgood : ∀ s a, I s → P s a → Q s a → I (step s a))
    (hfirst : ∀ s a, I s → P s a → ¬ Q s a → J (step s a))
    (hbad : ∀ s a, J s → P s a → J (step s a)) :
    (Along step Q s l ∧ I (run step s l)) ∨ (¬ Along step Q s l ∧ J (run step s l)) := by
  induction l generalizing s with
  | nil => exact .inl ⟨trivial, hs⟩
  | cons a l ih =>
    by_cases hq : Q s a
    · rcases ih hl.2 (hgood s a hs hl.1 hq) with ⟨hall, hend⟩ | ⟨hnot, hend⟩
      · exact .inl ⟨⟨hq, hall⟩, hend⟩
      · exact .inr ⟨fun hall => hnot hall.2, hend⟩
    · refine .inr ⟨fun hall => hq hall.1, ?_⟩
      rw [run_cons]
      exact run_invariant hbad (hfirst s a hs hl.1 hq) hl.2

/-- A fact that a step keeps exactly when it meets the condition. -/
theorem run_iff_along (hstep : ∀ s a, I s → I (step s a))
    (hiff : ∀ s a, I s → (J (step s a) ↔ J s ∧ P s a)) (hs : I s) (l : List α) :
    J (run step s l) ↔ J s ∧ Along step P s l := by
  induction l generalizing s with
  | nil => simp [Along]
  | cons a l ih => rw [run_cons, ih (hstep s a hs), hiff s a hs, Along, and_assoc]

section EarlyReturn

universe u v

variable {ε : Type u} {α β : Type v}

def Outcome (early : ε → Prop) (next : α → Prop) : Except ε α → Prop
  | .error r => early r
  | .ok v => next v

variable {early : ε → Prop} {next : α → Prop} {next' : β → Prop} {x : Except ε α}

section

variable (hx : Outcome early next x)
include hx

/-- Two parts one after the other. -/
theorem Outcome.bind {f : α → Except ε β} (hf : ∀ v, next v → Outcome early next' (f v)) :
    Outcome early next' (x >>= f) := by
  cases x with
  | error r => exact hx
  | ok v => exact hf v hx

section

variable {early' : ε → Prop} {next' : α → Prop}

theorem Outcome.imp (he : ∀ r, early r → early' r) (hn : ∀ v, next v → next' v) :
    Outcome early' next' x := by
  cases x with
  | error r => exact he r hx
  | ok v => exact hn v hx

theorem Outcome.and (hx' : Outcome early' next' x) :
    Outcome (fun r => early r ∧ early' r) (fun v => next v ∧ next' v) x := by
  cases x with
  | error r => exact ⟨hx, hx'⟩
  | ok v => exact ⟨hx, hx'⟩

end

end

end EarlyReturn

end Execution
