import Mathlib.Data.List.Basic
import Mathlib.Data.List.Count
import Mathlib.Data.Nat.Find
import Mathlib.Logic.Function.Basic

def ChainTable (κ α : Type*) := κ → List α

namespace ChainTable

open Function

variable {κ α : Type*} [DecidableEq κ] [DecidableEq α]

def empty : ChainTable κ α := fun _ => []

def insertHead (t : ChainTable κ α) (k : κ) (a : α) : ChainTable κ α :=
  fun j => if j = k then a :: t j else t j

def remove (t : ChainTable κ α) (a : α) : ChainTable κ α := fun k => (t k).erase a

def Filed (t : ChainTable κ α) (key : α → Option κ) : Prop :=
  ∀ k a, (t k).count a = if key a = some k then 1 else 0

variable {t : ChainTable κ α} {key : α → Option κ}

theorem filed_empty : Filed (empty : ChainTable κ α) fun _ => none := by
  intro k a
  simp [empty]

theorem Filed.mem_iff (h : Filed t key) (k : κ) (a : α) : a ∈ t k ↔ key a = some k := by
  have hc := h k a
  rw [← List.count_pos_iff, hc]
  split <;> simp_all

theorem count_insertHead (t : ChainTable κ α) (j k : κ) (a b : α) :
    (t.insertHead k a j).count b = (t j).count b + if j = k ∧ b = a then 1 else 0 := by
  unfold insertHead
  by_cases hj : j = k
  · rw [if_pos hj, List.count_cons]
    by_cases hab : b = a
    · simp [hj, hab]
    · simp [hab, Ne.symm hab]
  · simp [hj]

section

variable (h : Filed t key)
include h

theorem Filed.insertHead {a : α} (ha : key a = none) (k : κ) :
    Filed (t.insertHead k a) (update key a (some k)) := by
  intro j b
  rw [count_insertHead, h j b]
  by_cases hab : b = a
  · subst hab
    simp [ha, eq_comm]
  · simp [hab]

theorem Filed.remove (a : α) : Filed (t.remove a) (update key a none) := by
  intro j b
  have hb := h j b
  by_cases hab : b = a
  · subst hab
    rw [update_self]
    simp only [ChainTable.remove, List.count_erase_self, hb]
    split <;> simp
  · rw [update_of_ne hab, ← hb]
    simp [ChainTable.remove, List.count_erase_of_ne hab]

/-- A filing rule that agrees on every element files the same table. -/
theorem Filed.congr {key' : α → Option κ} (hkey : ∀ a, key' a = key a) : Filed t key' := by
  have : key' = key := funext hkey
  rwa [this]

/-- Take an element out and file it again under another key. -/
theorem Filed.refile (a : α) (k : κ) :
    Filed ((t.remove a).insertHead k a) (update key a (some k)) := by
  have hmove := (h.remove a).insertHead (a := a) (by simp) k
  rwa [update_idem] at hmove

end

/-- The table of the elements of a list, each chain in the order of the list. -/
def ofList (key : α → Option κ) (l : List α) : ChainTable κ α :=
  fun k => l.filter fun a => key a = some k

omit [DecidableEq α] in
theorem ofList_cons_of_key {a : α} {k : κ} (h : key a = some k) (l : List α) :
    ofList key (a :: l) k = a :: ofList key l k :=
  List.filter_cons_of_pos (by simpa using h)

theorem filed_ofList {l : List α} (hl : l.Nodup) (hmem : ∀ a, (key a).isSome = true → a ∈ l) :
    Filed (ofList key l) key := by
  intro k a
  split_ifs with hk
  · rw [ofList, List.count_filter (by simpa using hk)]
    rw [hl.count, if_pos (hmem a (by simp [hk]))]
  · rw [List.count_eq_zero, ofList, List.mem_filter]
    simp [hk]

/-- A result that respects the preference: an element of the first class that has
one, or none when every class is empty. -/
def Selected (cls : ℕ → α → Prop) : Option α → Prop
  | some a => ∃ k, cls k a ∧ ∀ j < k, ∀ b, ¬ cls j b
  | none => ∀ k a, ¬ cls k a

omit [DecidableEq κ] [DecidableEq α] in
theorem exists_first {cls : ℕ → α → Prop} {k : ℕ} {a : α} (h : cls k a) :
    ∃ j ≤ k, (∃ b, cls j b) ∧ ∀ i < j, ∀ b, ¬ cls i b := by
  classical
  have hsome : ∃ j, ∃ b, cls j b := ⟨k, a, h⟩
  refine ⟨Nat.find hsome, Nat.find_min' hsome ⟨a, h⟩, Nat.find_spec hsome, ?_⟩
  intro i hi b hb
  exact Nat.find_min hsome hi ⟨b, hb⟩

def probe (t : ChainTable κ α) (ps : List (κ × (α → Bool))) : Option α :=
  ps.findSome? fun p => (t p.1).find? p.2

/-- The element is on the chain asked in turn `k` and passes its test. -/
def Answers (key : α → Option κ) (ps : List (κ × (α → Bool))) (k : ℕ) (a : α) : Prop :=
  ∃ p, ps[k]? = some p ∧ key a = some p.1 ∧ p.2 a = true

variable {ps : List (κ × (α → Bool))}

omit [DecidableEq κ] [DecidableEq α] in
theorem answers_succ (p : κ × (α → Bool)) (k : ℕ) (a : α) :
    Answers key (p :: ps) (k + 1) a ↔ Answers key ps k a := by
  simp [Answers]

theorem Filed.find_eq_none_iff (h : Filed t key) (p : κ × (α → Bool))
    (ps : List (κ × (α → Bool))) :
    (t p.1).find? p.2 = none ↔ ∀ a, ¬ Answers key (p :: ps) 0 a := by
  simp only [List.find?_eq_none, h.mem_iff, Answers, List.getElem?_cons_zero, Option.some.injEq,
    exists_eq_left', not_and]

/-- A search returns an answer to the first question that has one. -/
theorem Filed.probe_selected (h : Filed t key) (ps : List (κ × (α → Bool))) :
    Selected (Answers key ps) (t.probe ps) := by
  induction ps with
  | nil =>
    intro k a ha
    obtain ⟨p, hp, -⟩ := ha
    simp at hp
  | cons p ps ih =>
    unfold probe
    rw [List.findSome?_cons]
    cases hfind : (t p.1).find? p.2 with
    | some a =>
      have hmem := (h.mem_iff p.1 a).1 (List.mem_of_find?_eq_some hfind)
      exact ⟨0, ⟨p, rfl, hmem, List.find?_some hfind⟩, by simp⟩
    | none =>
      have hfirst := (h.find_eq_none_iff p ps).1 hfind
      change Selected (Answers key (p :: ps)) (t.probe ps)
      cases hrest : t.probe ps with
      | none =>
        rw [hrest] at ih
        intro k a
        cases k with
        | zero => exact hfirst a
        | succ k => rw [answers_succ]; exact ih k a
      | some a =>
        rw [hrest] at ih
        obtain ⟨k, ha, hbefore⟩ := ih
        refine ⟨k + 1, (answers_succ p k a).2 ha, ?_⟩
        intro j hj b
        cases j with
        | zero => exact hfirst b
        | succ j => rw [answers_succ]; exact hbefore j (by omega) b

/-- An element at the front of its chain that answers the first answered question
is the one that is found. -/
theorem Filed.probe_front (h : Filed t key) {k : ℕ} {a : α} (ha : Answers key ps k a)
    (hbefore : ∀ j < k, ∀ b, ¬ Answers key ps j b)
    (hfront : ∀ b, key a = some b → (t b).head? = some a) : t.probe ps = some a := by
  induction ps generalizing k with
  | nil =>
    obtain ⟨p, hp, -⟩ := ha
    simp at hp
  | cons p ps ih =>
    unfold probe
    rw [List.findSome?_cons]
    cases k with
    | zero =>
      obtain ⟨q, hq, hkey, htest⟩ := ha
      obtain rfl : p = q := by simpa using hq
      obtain ⟨rest, hrest⟩ := List.head?_eq_some_iff.1 (hfront p.1 hkey)
      rw [hrest, List.find?_cons, htest]
    | succ k =>
      have hnone := (h.find_eq_none_iff p ps).2 (hbefore 0 (by omega))
      rw [hnone]
      apply ih ((answers_succ p k a).1 ha)
      intro j hj b
      rw [← answers_succ p]
      exact hbefore (j + 1) (by omega) b

/-- The answers of the chains agree with what is wanted: what answers first is of
the first class that has elements, and something answers when a class has one. -/
structure AnswersWanted (answers wanted : ℕ → α → Prop) : Prop where
  first : ∀ k a, answers k a → (∀ j < k, ∀ b, ¬ answers j b) → Selected wanted (some a)
  some_answer : ∀ k a, wanted k a → ∃ j b, answers j b

/-- A search is right in every table that files the same elements, in whatever order
the chains hold them, exactly when the answers agree with what is wanted. -/
theorem Filed.probe_selects_iff (h : Filed t key) (wanted : ℕ → α → Prop) :
    (∀ t' : ChainTable κ α, Filed t' key → Selected wanted (t'.probe ps)) ↔
      AnswersWanted (Answers key ps) wanted := by
  constructor
  · intro hall
    constructor
    · intro k a ha hbefore
      obtain ⟨p, -, hkey, -⟩ := id ha
      -- Move the element to the front of its own chain.
      have hfiled : Filed ((t.remove a).insertHead p.1 a) key := by
        have := h.refile a p.1
        rwa [← hkey, update_eq_self] at this
      have hfound := hfiled.probe_front ha hbefore (by
        intro b hb
        obtain rfl : p.1 = b := Option.some.inj (hkey.symm.trans hb)
        simp [ChainTable.insertHead])
      rw [← hfound]
      exact hall _ hfiled
    · intro k a ha
      by_contra hnot
      have hno (j : ℕ) (b : α) : ¬ Answers key ps j b := fun hb => hnot ⟨j, b, hb⟩
      have hnone : t.probe ps = none := by
        have hsel := h.probe_selected ps
        cases hr : t.probe ps with
        | none => rfl
        | some b =>
          rw [hr] at hsel
          obtain ⟨j, hb, -⟩ := hsel
          exact absurd hb (hno j b)
      have := hall t h
      rw [hnone] at this
      exact this k a ha
  · intro hagree t' ht'
    have hsel := ht'.probe_selected ps
    cases hr : t'.probe ps with
    | some a =>
      rw [hr] at hsel
      obtain ⟨k, ha, hbefore⟩ := hsel
      exact hagree.first k a ha hbefore
    | none =>
      rw [hr] at hsel
      intro k a ha
      obtain ⟨j, b, hb⟩ := hagree.some_answer k a ha
      exact hsel j b hb

end ChainTable
