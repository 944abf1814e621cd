import Mathlib.Data.Set.Finite.Lemmas
import Mathlib.Data.List.Nodup
import Mathlib.Logic.Relation

namespace LockOrder

variable {ι L : Type*}

/-- How many locks each thread has taken; none once it has given them back. -/
abbrev Progress (ι : Type*) := ι → Option ℕ

def start : Progress ι := fun _ => some 0

variable (plan : ι → List L)

def held (p : Progress ι) (i : ι) : List L :=
  match p i with
  | some n => (plan i).take n
  | none => []

variable [DecidableEq ι]

/-- A thread takes a lock that no thread has, or gives all of its locks back. -/
inductive Step : Progress ι → Progress ι → Prop where
  | acquire {p : Progress ι} (i : ι) (n : ℕ) (l : L) (hi : p i = some n)
      (hl : (plan i)[n]? = some l) (hfree : ∀ j, l ∉ held plan p j) :
      Step p (Function.update p i (some (n + 1)))
  | release {p : Progress ι} (i : ι) (hi : p i = some (plan i).length) :
      Step p (Function.update p i none)

def Deadlock (p : Progress ι) : Prop := (∃ i, p i ≠ none) ∧ ∀ q, ¬ Step plan p q

/-- No interleaving of the threads leads to a deadlock. -/
def DeadlockFree : Prop :=
  ∀ p, Relation.ReflTransGen (Step plan) start p → ¬ Deadlock plan p

variable {plan}

variable {p : Progress ι}

/-- Threads that all wait for a lock somebody has. -/
theorem deadlock_of_blocked (hsome : ∃ i, p i ≠ none)
    (hblocked : ∀ i n, p i = some n → ∃ l, (plan i)[n]? = some l ∧ ∃ j, l ∈ held plan p j) :
    Deadlock plan p := by
  refine ⟨hsome, ?_⟩
  intro q hq
  cases hq with
  | acquire i n l hi hl hfree =>
    obtain ⟨l', hl', j, hj⟩ := hblocked i n hi
    obtain rfl : l = l' := Option.some.inj (hl.symm.trans hl')
    exact hfree j hj
  | release i hi =>
    obtain ⟨l, hl, -⟩ := hblocked i _ hi
    rw [List.getElem?_eq_none (le_refl _)] at hl
    cases hl

/-- A thread takes its first locks while the others stand still. -/
theorem reaches_taken {i : ι} (hi : p i = some 0) (hnodup : (plan i).Nodup) {n : ℕ}
    (hn : n ≤ (plan i).length) (hfree : ∀ l ∈ (plan i).take n, ∀ j ≠ i, l ∉ held plan p j) :
    Relation.ReflTransGen (Step plan) p (Function.update p i (some n)) := by
  induction n with
  | zero =>
    rw [← hi, Function.update_eq_self]
  | succ n ih =>
    have hlt : n < (plan i).length := hn
    have hprev := ih hlt.le fun l hl => hfree l (List.take_subset_take_left _ n.le_succ hl)
    have htake : (plan i).take (n + 1) = (plan i).take n ++ [(plan i)[n]] :=
      List.take_succ_eq_append_getElem hlt
    have hmem : (plan i)[n] ∈ (plan i).take (n + 1) := by
      rw [htake]
      exact List.mem_append_right _ (List.mem_singleton_self _)
    have hidem : Function.update p i (some (n + 1)) =
        Function.update (Function.update p i (some n)) i (some (n + 1)) := by simp
    apply hprev.tail
    rw [hidem]
    apply Step.acquire i n (plan i)[n]
    · simp
    · exact List.getElem?_eq_getElem hlt
    · intro j
      by_cases hj : j = i
      · -- its own locks are different from this one
        subst hj
        have hdisj : ((plan j).take n ++ [(plan j)[n]]).Nodup := by
          rw [← htake]
          exact hnodup.sublist (List.take_sublist _ _)
        have hnot := (List.nodup_append.1 hdisj).2.2
        intro hin
        have hin : (plan j)[n] ∈ (plan j).take n := by simpa [held] using hin
        exact hnot _ hin _ (List.mem_singleton_self _) rfl
      · have hheld : held plan (Function.update p i (some n)) j = held plan p j := by
          simp [held, hj]
        rw [hheld]
        exact hfree _ hmem j hj

def Bounded (plan : ι → List L) (p : Progress ι) : Prop :=
  ∀ i n, p i = some n → n ≤ (plan i).length

theorem Step.bounded {q : Progress ι} (h : Step plan p q) (hp : Bounded plan p) :
    Bounded plan q := by
  cases h with
  | acquire i n l hi hl hfree =>
    intro j m hj
    by_cases hji : j = i
    · subst hji
      obtain rfl : n + 1 = m := by simpa using hj
      exact (List.getElem?_eq_some_iff.1 hl).1
    · exact hp j m (by simpa [hji] using hj)
  | release i hi =>
    intro j m hj
    by_cases hji : j = i
    · subst hji
      simp at hj
    · exact hp j m (by simpa [hji] using hj)

theorem bounded_of_reachable (h : Relation.ReflTransGen (Step plan) start p) : Bounded plan p := by
  induction h with
  | refl =>
    intro i n hi
    obtain rfl : 0 = n := Option.some.inj hi
    exact Nat.zero_le _
  | tail _ hstep ih => exact hstep.bounded ih

/-- In a deadlock every thread that has not finished waits for a lock of a thread that
waits for a lock further up. -/
theorem Deadlock.waits (h : Deadlock plan p) (hp : Bounded plan p) {rank : L → ℕ}
    (hsorted : ∀ i, (plan i).Pairwise fun a b => rank a < rank b) {i : ι} {n : ℕ}
    (hi : p i = some n) :
    ∃ l, (plan i)[n]? = some l ∧ ∃ j m, p j = some m ∧ ∀ l', (plan j)[m]? = some l' →
      rank l < rank l' := by
  have hlt : n < (plan i).length := by
    apply lt_of_le_of_ne (hp i n hi)
    rintro rfl
    exact h.2 _ (Step.release i hi)
  have hl : (plan i)[n]? = some (plan i)[n] := List.getElem?_eq_getElem hlt
  refine ⟨_, hl, ?_⟩
  by_contra hnone
  apply h.2 _ (Step.acquire i n _ hi hl ?_)
  intro j hj
  cases hpj : p j with
  | none => simp [held, hpj] at hj
  | some m =>
    have hin : (plan i)[n] ∈ (plan j).take m := by simpa [held, hpj] using hj
    apply hnone
    refine ⟨j, m, hpj, fun l' hl' => ?_⟩
    obtain ⟨hm, rfl⟩ := List.getElem?_eq_some_iff.1 hl'
    -- what has been taken comes before what is waited for
    have hsplit : (plan j).take (m + 1) = (plan j).take m ++ [(plan j)[m]] :=
      List.take_succ_eq_append_getElem hm
    have hpair := (hsorted j).sublist (List.take_sublist (m + 1) (plan j))
    rw [hsplit, List.pairwise_append] at hpair
    exact hpair.2.2 _ hin _ (List.mem_singleton_self _)

/-- Locks that are always taken in one order do not deadlock. -/
theorem deadlockFree_of_sorted [Finite ι] (rank : L → ℕ)
    (hsorted : ∀ i, (plan i).Pairwise fun a b => rank a < rank b) : DeadlockFree plan := by
  intro p hreach hdead
  have hp := bounded_of_reachable hreach
  -- the thread that waits for the highest lock cannot be waiting
  let height : ι → ℕ := fun i => (((p i).bind fun n => (plan i)[n]?).map rank).getD 0
  obtain ⟨i, hi, hmax⟩ :=
    Set.exists_max_image {i | p i ≠ none} height (Set.toFinite _) hdead.1
  obtain ⟨n, hn⟩ := Option.ne_none_iff_exists'.1 hi
  obtain ⟨l, hl, j, m, hj, habove⟩ := hdead.waits hp hsorted hn
  obtain ⟨l', hl', -⟩ := hdead.waits hp hsorted hj
  have hle : height j ≤ height i := hmax j (by simp [hj])
  have hi' : height i = rank l := by simp [height, hn, hl]
  have hj' : height j = rank l' := by simp [height, hj, hl']
  have hlt := habove l' hl'
  omega

end LockOrder

namespace LockOrder

variable {ι L : Type*}

def Owned (owner : L → Option ι) (locks : ι → List L) : Prop :=
  ∀ i l, owner l = some i ↔ l ∈ locks i

variable {owner : L → Option ι} {locks locks' : ι → List L} {i j : ι} {l : L}

theorem Owned.unique (h : Owned owner locks) (hi : l ∈ locks i) (hj : l ∈ locks j) : i = j :=
  Option.some.inj (((h i l).mpr hi).symm.trans ((h j l).mpr hj))

variable [DecidableEq L]

theorem Owned.acquire (h : Owned owner locks) (hfree : owner l = none)
    (hself : ∀ x, x ∈ locks' i ↔ x = l ∨ x ∈ locks i) (hother : ∀ j, j ≠ i → locks' j = locks j) :
    Owned (Function.update owner l (some i)) locks' := by
  have hnew (j : ι) : l ∉ locks j := fun hj => by simp [(h j l).mpr hj] at hfree
  intro j x
  by_cases hx : x = l
  · subst hx
    by_cases hj : j = i
    · subst hj
      simp [hself]
    · simp [hother j hj, hnew j, Ne.symm hj]
  · rw [Function.update_of_ne hx, h j x]
    by_cases hj : j = i
    · subst hj
      simp [hself, hx]
    · rw [hother j hj]

theorem Owned.release (h : Owned owner locks) (hl : l ∈ locks i)
    (hself : ∀ x, x ∈ locks' i ↔ x ≠ l ∧ x ∈ locks i) (hother : ∀ j, j ≠ i → locks' j = locks j) :
    Owned (Function.update owner l none) locks' := by
  intro j x
  by_cases hj : j = i
  · subst hj
    by_cases hx : x = l
    · simp [hself, hx]
    · simp [hself, hx, h j x]
  · rw [hother j hj]
    by_cases hx : x = l
    · subst hx
      have hout : x ∉ locks j := fun hin => hj (h.unique hin hl)
      simp [hout]
    · rw [Function.update_of_ne hx, h j x]

end LockOrder
