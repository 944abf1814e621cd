import Mathlib.Data.Set.Card

namespace RefCount

open Function

variable {α β : Type*}

/-- The users whose pointer is to the object. -/
def usersOf (f : α → Option β) (b : β) : Set α := {a | f a = some b}

noncomputable def users (f : α → Option β) (b : β) : ℕ := (usersOf f b).ncard

/-- Every object has finitely many users. -/
def Finitary (f : α → Option β) : Prop := ∀ b, (usersOf f b).Finite

variable {f : α → Option β}

theorem users_eq_zero_iff (hf : Finitary f) (b : β) : users f b = 0 ↔ ∀ a, f a ≠ some b := by
  unfold users
  rw [Set.ncard_eq_zero (hf b), Set.eq_empty_iff_forall_notMem]
  rfl

variable {a : α}

theorem users_pos (hf : Finitary f) {b : β} (h : f a = some b) : 0 < users f b := by
  apply Nat.pos_of_ne_zero
  intro hzero
  exact (users_eq_zero_iff hf b).1 hzero a h

variable [DecidableEq α]

theorem usersOf_update_of_ne {b : β} {x : Option β} (hold : f a ≠ some b) (hnew : x ≠ some b) :
    usersOf (update f a x) b = usersOf f b := by
  ext a'
  by_cases ha : a' = a
  · subst ha
    simp [usersOf, hold, hnew]
  · simp [usersOf, ha]

theorem usersOf_update_some (a : α) (b : β) :
    usersOf (update f a (some b)) b = insert a (usersOf f b) := by
  ext a'
  by_cases ha : a' = a
  · subst ha
    simp [usersOf]
  · simp [usersOf, ha]

theorem usersOf_update_none (a : α) (b : β) :
    usersOf (update f a none) b = usersOf f b \ {a} := by
  ext a'
  by_cases ha : a' = a
  · subst ha
    simp [usersOf]
  · simp [usersOf, ha]

theorem Finitary.update (hf : Finitary f) (a : α) (x : Option β) :
    Finitary (update f a x) := by
  intro b
  apply ((hf b).insert a).subset
  intro a' ha'
  by_cases ha : a' = a
  · exact .inl ha
  · right
    simpa [usersOf, ha] using ha'

/-- One pointer that is neither to the object nor will be. -/
theorem users_update_of_ne {b : β} {x : Option β} (hold : f a ≠ some b) (hnew : x ≠ some b) :
    users (update f a x) b = users f b := by
  unfold users
  rw [usersOf_update_of_ne hold hnew]

/-- A pointer is set. -/
theorem users_update_some (hf : Finitary f) (b : β) (hnone : f a = none) :
    users (update f a (some b)) b = users f b + 1 := by
  unfold users
  rw [usersOf_update_some]
  apply Set.ncard_insert_of_notMem _ (hf b)
  simp [usersOf, hnone]

/-- A pointer is cleared. -/
theorem users_update_none (hf : Finitary f) {b : β} (hsome : f a = some b) :
    users (update f a none) b + 1 = users f b := by
  unfold users
  rw [usersOf_update_none]
  exact Set.ncard_sdiff_singleton_add_one hsome (hf b)

end RefCount
