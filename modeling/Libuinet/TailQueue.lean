import Mathlib.Data.List.Nodup
import Mathlib.Logic.Function.Basic

namespace TailQueue

/-- The places a pointer to an element is kept: the queue head, or the forward
link of an element. -/
inductive Link (α : Type*) where
  | head
  | next (a : α)
  deriving DecidableEq

end TailQueue

/-- A tail queue over elements `α`: `tqh_first`, `tqh_last` and the two link
fields of every element. -/
structure TailQueue (α : Type*) where
  first : Option α
  last : TailQueue.Link α
  next : α → Option α
  prev : α → TailQueue.Link α

namespace TailQueue

variable {α : Type*}

variable (q : TailQueue α)

def load : Link α → Option α
  | .head => q.first
  | .next a => q.next a

def setLast (k : Link α) : TailQueue α := { q with last := k }

@[simp] theorem load_setLast (k k' : Link α) : (q.setLast k).load k' = q.load k' := by
  cases k' <;> rfl

@[simp] theorem prev_setLast (k : Link α) : (q.setLast k).prev = q.prev := rfl

@[simp] theorem next_setLast (k : Link α) : (q.setLast k).next = q.next := rfl

@[simp] theorem last_setLast (k : Link α) : (q.setLast k).last = k := rfl

/-- `TAILQ_INIT`; the link fields of the elements keep what they hold. -/
def init : TailQueue α := { q with first := none, last := .head }

def links : Link α → List α → List (Link α)
  | _, [] => []
  | k, a :: l => k :: links (.next a) l

def endLink : Link α → List α → Link α
  | k, [] => k
  | _, a :: l => endLink (.next a) l

/-- The list `l` hangs off the link `k`, with the back links of its elements
in place. -/
def Hangs (q : TailQueue α) : Link α → List α → Prop
  | _, [] => True
  | k, a :: l => q.load k = some a ∧ q.prev a = k ∧ q.Hangs (.next a) l

/-- The queue is the list `l`. -/
structure IsList (q : TailQueue α) (l : List α) : Prop where
  nodup : l.Nodup
  hangs : q.Hangs .head l
  last : q.last = endLink .head l
  ends : q.load q.last = none

theorem endLink_append (k : Link α) (l l' : List α) :
    endLink k (l ++ l') = endLink (endLink k l) l' := by
  induction l generalizing k with
  | nil => rfl
  | cons a l ih => exact ih _

theorem hangs_append (k : Link α) (l l' : List α) :
    q.Hangs k (l ++ l') ↔ q.Hangs k l ∧ q.Hangs (endLink k l) l' := by
  induction l generalizing k with
  | nil => simp [Hangs, endLink]
  | cons a l ih => simp only [List.cons_append, Hangs, endLink, ih, and_assoc]

/-- The links along a list are the one it hangs off and those of its elements. -/
theorem links_endLink (k : Link α) (l : List α) :
    links k l ++ [endLink k l] = k :: l.map .next := by
  induction l generalizing k with
  | nil => rfl
  | cons a l ih => exact congrArg (k :: ·) (ih (.next a))

theorem mem_of_mem_links {k k' : Link α} {l : List α} (h : k' ∈ links k l) :
    k' ∈ k :: l.map .next := by
  rw [← links_endLink]
  exact List.mem_append_left _ h

theorem endLink_mem (k : Link α) (l : List α) : endLink k l ∈ k :: l.map .next := by
  rw [← links_endLink]
  exact List.mem_append_right _ List.mem_cons_self

/-- The link that ends a list is not read on the way along it. -/
theorem endLink_not_mem_links {l : List α} (hl : l.Nodup) : endLink .head l ∉ links .head l := by
  have hall : (Link.head :: l.map Link.next).Nodup := by
    refine List.nodup_cons.mpr ⟨by simp, hl.map fun _ _ => Link.next.inj⟩
  rw [← links_endLink] at hall
  exact fun hm => (List.nodup_append.mp hall).2.2 _ hm _ List.mem_cons_self rfl

variable {l l₁ l₂ : List α} {q : TailQueue α} {a : α}

/-- A list keeps hanging off a link when the links along it and the back
links of its elements are left alone. -/
theorem Hangs.congr {q' : TailQueue α} {k : Link α} (h : q.Hangs k l)
    (hload : ∀ k' ∈ links k l, q'.load k' = q.load k') (hprev : ∀ a ∈ l, q'.prev a = q.prev a) :
    q'.Hangs k l := by
  induction l generalizing k with
  | nil => trivial
  | cons a l ih =>
    refine ⟨?_, ?_, ih h.2.2 ?_ ?_⟩
    · rw [hload k (by simp [links])]
      exact h.1
    · rw [hprev a (by simp)]
      exact h.2.1
    · intro k' hk'
      exact hload k' (by simp [links, hk'])
    · intro b hb
      exact hprev b (by simp [hb])

theorem init_isList (q : TailQueue α) : q.init.IsList [] :=
  ⟨List.nodup_nil, trivial, rfl, rfl⟩

theorem IsList.first_eq (h : q.IsList l) : q.first = l.head? := by
  cases l with
  | nil =>
    have he := h.ends
    rw [h.last] at he
    exact he
  | cons a l => exact h.hangs.1

theorem next_not_mem_links (ha : a ∉ l) : .next a ∉ links .head l := fun hm => by
  simpa [ha] using mem_of_mem_links hm

theorem next_ne_endLink (ha : a ∉ l) : .next a ≠ endLink .head l := fun he => by
  simpa [← he, ha] using endLink_mem .head l

/-- What a healthy queue says about one of its elements. -/
theorem IsList.at (h : q.IsList (l₁ ++ [a] ++ l₂)) :
    q.load (endLink .head l₁) = some a ∧ q.prev a = endLink .head l₁ ∧ q.next a = l₂.head? ∧
      ∀ b, l₂.head? = some b → b ∈ l₂ ∧ b ∉ l₂.tail := by
  rw [List.append_assoc] at h
  obtain ⟨-, ha, hp, h₂⟩ := (hangs_append q _ _ _).mp h.hangs
  refine ⟨ha, hp, ?_⟩
  cases l₂ with
  | nil =>
    have he := h.ends
    rw [h.last, endLink_append] at he
    exact ⟨he, nofun⟩
  | cons b l₂ =>
    have hnd := h.nodup
    refine ⟨h₂.1, fun c hc => ?_⟩
    cases hc
    grind

/-- Where the links of the elements in front and behind are left alone and those around the middle
fit, another middle has taken the place of the old one. -/
theorem IsList.splice {q' : TailQueue α} {m m' : List α} (h : q.IsList (l₁ ++ m ++ l₂))
    (hnd : (l₁ ++ m' ++ l₂).Nodup) (hload : ∀ k ∈ links .head l₁, q'.load k = q.load k)
    (hprev : ∀ a ∈ l₁, q'.prev a = q.prev a) (hmid : q'.Hangs (endLink .head l₁) m')
    (hjoin : q'.load (endLink .head (l₁ ++ m')) = l₂.head?)
    (hback : ∀ b, l₂.head? = some b → q'.prev b = endLink .head (l₁ ++ m'))
    (hnext₂ : ∀ b ∈ l₂, q'.next b = q.next b) (hprev₂ : ∀ b ∈ l₂.tail, q'.prev b = q.prev b)
    (hlast : q'.last = if l₂ = [] then endLink .head (l₁ ++ m') else q.last) :
    q'.IsList (l₁ ++ m' ++ l₂) := by
  obtain ⟨h₁, h₂⟩ := (hangs_append q _ _ _).mp h.hangs
  have h₁ := ((hangs_append q _ _ _).mp h₁).1.congr hload hprev
  have hqlast := h.last
  have hqends := h.ends
  rw [endLink_append] at hqlast
  cases l₂ with
  | nil =>
    rw [if_pos rfl] at hlast
    refine ⟨hnd, ?_, by rw [hlast, List.append_nil], hlast ▸ hjoin⟩
    rw [List.append_nil, hangs_append]
    exact ⟨h₁, hmid⟩
  | cons b l₃ =>
    have hload₂ : ∀ k ∈ Link.next b :: l₃.map .next, q'.load k = q.load k := by
      intro k hk
      obtain ⟨c, hc, rfl⟩ := List.mem_map.mp (show k ∈ (b :: l₃).map .next from hk)
      exact hnext₂ c hc
    rw [if_neg (List.cons_ne_nil b l₃)] at hlast
    refine ⟨hnd, ?_, ?_, ?_⟩
    · rw [hangs_append, hangs_append]
      exact ⟨⟨h₁, hmid⟩, hjoin, hback b rfl,
        h₂.2.2.congr (fun k hk => hload₂ k (mem_of_mem_links hk)) hprev₂⟩
    · rw [hlast, hqlast, endLink_append (.head : Link α) (l₁ ++ m')]
      rfl
    · rw [hlast, hload₂ q.last (hqlast ▸ endLink_mem _ l₃), hqends]

variable [DecidableEq α]

def store (q : TailQueue α) (k : Link α) (v : Option α) : TailQueue α :=
  match k with
  | .head => { q with first := v }
  | .next a => { q with next := Function.update q.next a v }

def setPrev (q : TailQueue α) (a : α) (k : Link α) : TailQueue α :=
  { q with prev := Function.update q.prev a k }

def insertTail (q : TailQueue α) (a : α) : TailQueue α :=
  let q := q.store (.next a) none
  let q := q.setPrev a q.last
  let q := q.store q.last (some a)
  q.setLast (.next a)

def insertAfter (q : TailQueue α) (a b : α) : TailQueue α :=
  let q := q.store (.next b) (q.next a)
  let q := match q.next b with
    | some c => q.setPrev c (.next b)
    | none => q.setLast (.next b)
  let q := q.store (.next a) (some b)
  q.setPrev b (.next a)

def remove (q : TailQueue α) (a : α) : TailQueue α :=
  let q := match q.next a with
    | some b => q.setPrev b (q.prev a)
    | none => q.setLast (q.prev a)
  q.store (q.prev a) (q.next a)

section

variable (q) (k k' : Link α) (v : Option α)

@[simp] theorem load_store : (q.store k v).load k' = if k' = k then v else q.load k' := by
  cases k <;> cases k' <;> simp [store, load, Function.update_apply]

@[simp] theorem next_store (a b : α) :
    (q.store (.next a) v).next b = if b = a then v else q.next b := by
  simp [store, Function.update_apply]

@[simp] theorem prev_store : (q.store k v).prev = q.prev := by
  cases k <;> rfl

@[simp] theorem last_store : (q.store k v).last = q.last := by
  cases k <;> rfl

@[simp] theorem load_setPrev (a : α) : (q.setPrev a k).load k' = q.load k' := by
  cases k' <;> rfl

@[simp] theorem prev_setPrev (a b : α) :
    (q.setPrev a k).prev b = if b = a then k else q.prev b := by
  simp [setPrev, Function.update_apply]

@[simp] theorem next_setPrev (a : α) : (q.setPrev a k).next = q.next := rfl

@[simp] theorem last_setPrev (a : α) : (q.setPrev a k).last = q.last := rfl

end

theorem load_insertTail (k : Link α) : (q.insertTail a).load k =
    if k = q.last then some a else if k = .next a then none else q.load k := by
  simp [insertTail]

theorem prev_insertTail (b : α) :
    (q.insertTail a).prev b = if b = a then q.last else q.prev b := by
  simp [insertTail]

theorem load_remove (k : Link α) :
    (q.remove a).load k = if k = q.prev a then q.next a else q.load k := by
  cases hn : q.next a <;> simp [remove, hn]

theorem prev_remove (b : α) :
    (q.remove a).prev b = if q.next a = some b then q.prev a else q.prev b := by
  cases hn : q.next a <;> simp [remove, hn, eq_comm]

theorem last_remove : (q.remove a).last = if q.next a = none then q.prev a else q.last := by
  cases hn : q.next a <;> simp [remove, hn]

theorem load_insertAfter {b : α} (k : Link α) : (q.insertAfter a b).load k =
    if k = .next a then some b else if k = .next b then q.next a else q.load k := by
  cases hn : q.next a <;> simp [insertAfter, hn]

theorem prev_insertAfter {b : α} (c : α) : (q.insertAfter a b).prev c =
    if c = b then .next a else if q.next a = some c then .next b else q.prev c := by
  cases hn : q.next a <;> simp [insertAfter, hn, eq_comm]

theorem last_insertAfter {b : α} :
    (q.insertAfter a b).last = if q.next a = none then .next b else q.last := by
  cases hn : q.next a <;> simp [insertAfter, hn]

/-- Inserting a new element at the tail appends it. -/
theorem IsList.insertTail (h : q.IsList l) (ha : a ∉ l) : (q.insertTail a).IsList (l ++ [a]) := by
  have h' : q.IsList (l ++ [] ++ []) := by simpa using h
  have hnd : (l ++ [a]).Nodup := List.nodup_append.mpr ⟨h.nodup, by simp, by grind⟩
  rw [← List.append_nil (l ++ [a])]
  refine h'.splice (by simpa using hnd) (fun k hk => ?_) (fun b hb => ?_) ⟨?_, ?_, trivial⟩ ?_
    nofun nofun nofun ?_
  · rw [load_insertTail, if_neg, if_neg]
    · exact ne_of_mem_of_not_mem hk (next_not_mem_links ha)
    · exact h.last ▸ ne_of_mem_of_not_mem hk (endLink_not_mem_links h.nodup)
  · rw [prev_insertTail, if_neg (ne_of_mem_of_not_mem hb ha)]
  · rw [load_insertTail, if_pos h.last.symm]
  · rw [prev_insertTail, if_pos rfl, h.last]
  · rw [endLink_append, load_insertTail, endLink, endLink, h.last, if_neg (next_ne_endLink ha),
      if_pos rfl]
    rfl
  · rw [if_pos rfl, endLink_append]
    rfl

/-- Removing an element takes it out of the list. -/
theorem IsList.remove (h : q.IsList (l₁ ++ [a] ++ l₂)) : (q.remove a).IsList (l₁ ++ [] ++ l₂) := by
  obtain ⟨-, hp, hn, hhead⟩ := h.at
  have hnd := h.nodup
  simp only [List.nodup_append, List.mem_append, List.mem_singleton] at hnd
  refine h.splice (h.nodup.sublist (by simp)) (fun k hk => ?_) (fun c hc => ?_) trivial ?_
    (fun b hb => ?_) (fun b hb => ?_) (fun c hc => ?_) ?_
  · rw [load_remove, hp, if_neg]
    exact ne_of_mem_of_not_mem hk (endLink_not_mem_links hnd.1.1)
  · rw [prev_remove, hn, if_neg]
    grind
  · rw [List.append_nil, load_remove, if_pos hp.symm, hn]
  · rw [List.append_nil, prev_remove, hn, if_pos hb, hp]
  · have hload := @load_remove _ q a _ (.next b)
    rw [hp, if_neg (next_ne_endLink (by grind))] at hload
    exact hload
  · rw [prev_remove, hn, if_neg]
    grind
  · rw [last_remove, hn, hp, List.append_nil]
    simp only [List.head?_eq_none_iff]

/-- Inserting a new element after `a` puts it there. -/
theorem IsList.insertAfter {b : α} (h : q.IsList (l₁ ++ [a] ++ l₂)) (hb : b ∉ l₁ ++ [a] ++ l₂) :
    (q.insertAfter a b).IsList (l₁ ++ [a, b] ++ l₂) := by
  obtain ⟨ha, hp, hn, hhead⟩ := h.at
  have hnd := h.nodup
  simp only [List.nodup_append, List.mem_append, List.mem_singleton, not_or] at hnd hb
  refine h.splice ?_ (fun k hk => ?_) (fun c hc => ?_) ⟨?_, ?_, ?_, ?_, trivial⟩ ?_
    (fun c hc => ?_) (fun c hc => ?_) (fun c hc => ?_) ?_
  · grind
  · rw [load_insertAfter, if_neg, if_neg]
    all_goals exact ne_of_mem_of_not_mem hk (next_not_mem_links (by grind))
  · rw [prev_insertAfter, hn]
    grind
  · rw [load_insertAfter, if_neg (next_ne_endLink (by grind)).symm,
      if_neg (next_ne_endLink (by grind)).symm, ha]
  · rw [prev_insertAfter, hn]
    grind
  · rw [load_insertAfter, if_pos rfl]
  · rw [prev_insertAfter, if_pos rfl]
  · rw [endLink_append, load_insertAfter]
    grind [endLink]
  · rw [prev_insertAfter, hn, endLink_append]
    grind [endLink]
  · have hload := @load_insertAfter _ q a _ b (.next c)
    grind [load]
  · rw [prev_insertAfter, hn]
    have := List.mem_of_mem_tail hc
    grind
  · rw [last_insertAfter, hn, endLink_append]
    simp only [List.head?_eq_none_iff]
    rfl

theorem IsList.remove_mem (h : q.IsList l) (ha : a ∈ l) : (q.remove a).IsList (l.erase a) := by
  obtain ⟨l₁, l₂, rfl⟩ := List.append_of_mem ha
  have hna : a ∉ l₁ := fun hm => (List.nodup_append.mp h.nodup).2.2 a hm a (by simp) rfl
  rw [List.erase_append_right _ hna, List.erase_cons_head]
  simpa using remove (by simpa using h : q.IsList (l₁ ++ [a] ++ l₂))

/-- Inserting `b` after `a` and removing `a` puts `b` in its place. -/
theorem IsList.replace {b : α} (h : q.IsList l) (ha : a ∈ l) (hb : b ∉ l) :
    ((q.insertAfter a b).remove a).IsList (l.map fun c => if c = a then b else c) := by
  obtain ⟨l₁, l₂, rfl⟩ := List.append_of_mem ha
  have hnd := h.nodup
  have h₁ : ∀ c ∈ l₁, (if c = a then b else c) = c := by grind
  have h₂ : ∀ c ∈ l₂, (if c = a then b else c) = c := by grind
  have hmid : q.IsList (l₁ ++ [a] ++ l₂) := by simpa using h
  have hins : (q.insertAfter a b).IsList (l₁ ++ [a] ++ b :: l₂) := by
    simpa using insertAfter hmid (by simpa using hb)
  rw [List.map_append, List.map_cons, if_pos rfl, List.map_congr_left h₁, List.map_congr_left h₂]
  simpa using hins.remove

end TailQueue
