import Libuinet.Execution
import Mathlib.Data.List.Perm.Basic
import Mathlib.Logic.Function.Basic

namespace Libuinet

open Execution

inductive HookType where
  | start
  | finish
  deriving DecidableEq

def uhiMaxThreadHooks : ℕ := 16

/-- An element of `uhi_thread_hook_table`; the function may be `NULL`. -/
structure HookSlot (η α : Type*) where
  hook : Option η
  arg : α

def HookSlot.call {η α : Type*} (slot : HookSlot η α) : Option (η × α) :=
  slot.hook.map fun hook => (hook, slot.arg)

structure HookTable (η α : Type*) where
  slots : HookType → List (HookSlot η α)
  size : ∀ which, (slots which).length = uhiMaxThreadHooks

namespace HookTable

variable {η α : Type*} [Inhabited α]

def init : HookTable η α where
  slots _ := List.replicate uhiMaxThreadHooks ⟨none, default⟩
  size _ := List.length_replicate

def modify (t : HookTable η α) (which : HookType) (i : ℕ)
    (f : HookSlot η α → HookSlot η α) : HookTable η α where
  slots := Function.update t.slots which ((t.slots which).modify i f)
  size which' := by
    by_cases h : which' = which
    · subst h
      rw [Function.update_self, List.length_modify, t.size]
    · rw [Function.update_of_ne h, t.size]

def uhiThreadHookAdd (t : HookTable η α) (which : HookType) (hook : Option η) (arg : α) :
    ℕ × HookTable η α :=
  match (t.slots which).findIdx? fun slot => slot.hook.isNone with
  | some i => (i + 1, t.modify which i fun _ => ⟨hook, arg⟩)
  | none => (0, t)

def uhiThreadHookRemove (t : HookTable η α) (which : HookType) (id : ℕ) :
    Option (HookTable η α) :=
  if id < uhiMaxThreadHooks then some (t.modify which id fun slot => { slot with hook := none })
  else none

def uhiThreadRunHooks (t : HookTable η α) (which : HookType) : List (η × α) :=
  (t.slots which).filterMap HookSlot.call

end HookTable

/-- A hook that has been added, with the result of the call. -/
structure Registration (η α : Type*) where
  which : HookType
  id : ℕ
  hook : Option η
  arg : α

def Registration.call {η α : Type*} (r : Registration η α) : Option (η × α) :=
  r.hook.map fun hook => (hook, r.arg)

def callsOf {η α : Type*} (live : List (Registration η α)) (which : HookType) : List (η × α) :=
  (live.filter (·.which = which)).filterMap Registration.call

/-- The table and the hooks that were added and have not been removed since. -/
structure HookSystem (η α : Type*) where
  table : HookTable η α
  live : List (Registration η α)
  /-- An assertion failed. -/
  failed : Bool

/-- A call: a hook is added, or the one at a position of those there are is removed. -/
inductive HookOp (η α : Type*) where
  | add (which : HookType) (hook : Option η) (arg : α)
  | remove (k : ℕ)

namespace HookSystem

variable {η α : Type*} [Inhabited α]

def init : HookSystem η α := ⟨HookTable.init, [], false⟩

def step (s : HookSystem η α) : HookOp η α → HookSystem η α
  | .add which hook arg =>
    let (id, table) := s.table.uhiThreadHookAdd which hook arg
    { s with table := table
             live := if id = 0 then s.live else ⟨which, id, hook, arg⟩ :: s.live }
  | .remove k =>
    match s.live[k]? with
    | none => s
    | some r =>
      match s.table.uhiThreadHookRemove r.which r.id with
      | some table => { s with table := table, live := s.live.eraseIdx k }
      | none => { s with failed := true }

/-- The hooks that are called are those that are registered, no assertion has failed, and
there is room for another hook unless as many are registered as there may be. -/
structure Serves (s : HookSystem η α) : Prop where
  asserted : s.failed = false
  calls : ∀ which, (s.table.uhiThreadRunHooks which).Perm (callsOf s.live which)
  full : ∀ which hook arg, (s.table.uhiThreadHookAdd which hook arg).1 = 0 →
    (callsOf s.live which).length = uhiMaxThreadHooks

/-- The slot behind that of the hook to be removed exists, with the same function and argument. -/
def Doubled (s : HookSystem η α) : HookOp η α → Prop
  | .add .. => True
  | .remove k => ∀ r ∈ s.live[k]?, r.id < uhiMaxThreadHooks ∧
    (s.table.slots r.which)[r.id]?.bind HookSlot.call = r.call

end HookSystem

section Perm

variable {β γ : Type*} (f : β → Option γ)

theorem filterMap_cons_toList (b : β) (l : List β) :
    (b :: l).filterMap f = (f b).toList ++ l.filterMap f := by
  cases h : f b <;> simp [h]

theorem eq_of_toList_perm {b c : Option γ} (h : b.toList.Perm c.toList) : b = c := by
  cases b <;> cases c <;> simp_all

/-- What one element contributes is exchanged. -/
theorem filterMap_modify_perm (g : β → β) (l : List β) {i : ℕ} (hi : i < l.length) :
    ((f l[i]).toList ++ (l.modify i g).filterMap f).Perm
      ((f (g l[i])).toList ++ l.filterMap f) := by
  have hl : l = l.take i ++ l[i] :: l.drop (i + 1) := by
    rw [← List.drop_eq_getElem_cons hi, List.take_append_drop]
  have hmod : (l.modify i g).filterMap f =
      (l.take i).filterMap f ++ ((f (g l[i])).toList ++ (l.drop (i + 1)).filterMap f) := by
    rw [List.modify_eq_take_cons_drop hi, List.filterMap_append, filterMap_cons_toList]
  have hall : l.filterMap f =
      (l.take i).filterMap f ++ ((f l[i]).toList ++ (l.drop (i + 1)).filterMap f) := by
    rw [← filterMap_cons_toList, ← List.filterMap_append, ← hl]
  rw [hmod, hall]
  refine (List.perm_append_comm_assoc ..).trans ?_
  refine .trans ?_ (List.perm_append_comm_assoc ..)
  exact (List.perm_append_comm_assoc ..).append_left _

end Perm

namespace HookTable

variable {η α : Type*} {which : HookType}

theorem lt_size {t : HookTable η α} {i : ℕ} (h : i < uhiMaxThreadHooks) :
    i < (t.slots which).length := by
  rw [t.size]
  exact h

section

variable (t : HookTable η α)

theorem uhiThreadRunHooks_modify_of_ne {which' : HookType} (h : which' ≠ which) (i : ℕ)
    (f : HookSlot η α → HookSlot η α) :
    (t.modify which i f).uhiThreadRunHooks which' = t.uhiThreadRunHooks which' := by
  rw [uhiThreadRunHooks, uhiThreadRunHooks]
  simp [modify, h]

theorem uhiThreadRunHooks_modify (which : HookType) {i : ℕ} (hi : i < (t.slots which).length)
    (f : HookSlot η α → HookSlot η α) :
    ((t.slots which)[i].call.toList ++ (t.modify which i f).uhiThreadRunHooks which).Perm
      ((f (t.slots which)[i]).call.toList ++ t.uhiThreadRunHooks which) := by
  have h := filterMap_modify_perm HookSlot.call f (t.slots which) hi
  simpa [uhiThreadRunHooks, modify] using h

/-- A free slot is taken, or there is none. -/
theorem uhiThreadHookAdd_cases (which : HookType) (hook : Option η) (arg : α) :
    (∃ (i : ℕ) (hi : i < (t.slots which).length), (t.slots which)[i].call = none ∧
      t.uhiThreadHookAdd which hook arg = (i + 1, t.modify which i fun _ => ⟨hook, arg⟩)) ∨
    (∀ slot ∈ t.slots which, slot.call.isSome) ∧ t.uhiThreadHookAdd which hook arg = (0, t) := by
  rw [uhiThreadHookAdd]
  split
  · next i hi =>
    obtain ⟨hlt, hfree, -⟩ := List.findIdx?_eq_some_iff_getElem.mp hi
    refine .inl ⟨i, hlt, ?_, rfl⟩
    rw [HookSlot.call, Option.isNone_iff_eq_none.mp hfree, Option.map_none]
  · next hnone =>
    refine .inr ⟨fun slot hslot => ?_, rfl⟩
    have hsome := List.findIdx?_eq_none_iff.mp hnone slot hslot
    rw [HookSlot.call, Option.isSome_map]
    simpa using hsome

end

/-- When there is no free slot, there are as many hooks as slots. -/
theorem length_uhiThreadRunHooks {t : HookTable η α}
    (h : ∀ slot ∈ t.slots which, slot.call.isSome) :
    (t.uhiThreadRunHooks which).length = uhiMaxThreadHooks := by
  rw [uhiThreadRunHooks, List.length_filterMap_eq_countP, List.countP_eq_length.mpr h, t.size]

end HookTable

namespace HookSystem

variable {η α : Type*}

theorem callsOf_perm {l l' : List (Registration η α)} (h : l.Perm l') (which : HookType) :
    (callsOf l which).Perm (callsOf l' which) :=
  (h.filter _).filterMap _

theorem callsOf_cons_self (r : Registration η α) (l : List (Registration η α)) :
    callsOf (r :: l) r.which = r.call.toList ++ callsOf l r.which := by
  simp [callsOf, filterMap_cons_toList]

theorem callsOf_cons_of_ne {r : Registration η α} {which : HookType} (h : which ≠ r.which)
    (l : List (Registration η α)) : callsOf (r :: l) which = callsOf l which := by
  simp [callsOf, h.symm]

/-- What the three parts of `Serves` come down to. -/
structure Agrees (s : HookSystem η α) : Prop where
  asserted : s.failed = false
  calls : ∀ which, (s.table.uhiThreadRunHooks which).Perm (callsOf s.live which)

variable {s : HookSystem η α}

theorem serves_iff : s.Serves ↔ s.Agrees := by
  refine ⟨fun h => { h with }, fun h => { h with full := ?_ }⟩
  intro which hook arg hzero
  obtain ⟨i, -, -, hadd⟩ | ⟨hfull, -⟩ := s.table.uhiThreadHookAdd_cases which hook arg
  · rw [hadd] at hzero
    exact absurd hzero (Nat.succ_ne_zero i)
  · rw [← (h.calls which).length_eq, HookTable.length_uhiThreadRunHooks hfull]

theorem Agrees.add (h : s.Agrees) (which : HookType) (hook : Option η) (arg : α) :
    (s.step (.add which hook arg)).Agrees := by
  refine ⟨h.asserted, fun which' => ?_⟩
  obtain ⟨i, hi, hfree, hadd⟩ | ⟨-, hadd⟩ := s.table.uhiThreadHookAdd_cases which hook arg
  · simp only [step, hadd, if_neg (Nat.succ_ne_zero i)]
    by_cases hwhich : which' = which
    · subst hwhich
      have hcalls := s.table.uhiThreadRunHooks_modify which' hi fun _ => ⟨hook, arg⟩
      rw [hfree] at hcalls
      rw [callsOf_cons_self ⟨which', i + 1, hook, arg⟩]
      exact hcalls.trans ((h.calls which').append_left _)
    · rw [HookTable.uhiThreadRunHooks_modify_of_ne _ hwhich, callsOf_cons_of_ne hwhich]
      exact h.calls which'
  · simp only [step, hadd, if_true]
    exact h.calls which'

/-- The other table and the other hooks of a removal are as before, and what goes from the table is
to be what goes from the hooks. -/
theorem Agrees.remove_iff (h : s.Agrees) (k : ℕ) :
    (s.step (.remove k)).Agrees ↔ s.Doubled (.remove k) := by
  rw [Doubled, step]
  cases hr : s.live[k]? with
  | none => simpa using h
  | some r =>
    obtain ⟨hk, rfl⟩ := List.getElem?_eq_some_iff.mp hr
    set r := s.live[k]
    have hlive : ∀ which, (callsOf (r :: s.live.eraseIdx k) which).Perm (callsOf s.live which) :=
      callsOf_perm (List.getElem_cons_eraseIdx_perm hk)
    by_cases hid : r.id < uhiMaxThreadHooks
    · have hlt : r.id < (s.table.slots r.which).length := HookTable.lt_size hid
      have hmod := s.table.uhiThreadRunHooks_modify r.which hlt fun slot =>
        { slot with hook := none }
      have hboth := hmod.trans ((h.calls r.which).trans (hlive r.which).symm)
      rw [callsOf_cons_self] at hboth
      simp only [HookTable.uhiThreadHookRemove, hid, if_true, Option.mem_some_iff, forall_eq',
        List.getElem?_eq_getElem hlt, Option.bind_some, true_and]
      constructor
      · intro h'
        have hcut := ((h'.calls r.which).append_left _).symm.trans hboth
        exact eq_of_toList_perm ((List.perm_append_right_iff _).mp hcut)
      · intro hsame
        refine ⟨h.asserted, fun which => ?_⟩
        by_cases hwhich : which = r.which
        · rw [hwhich]
          rw [hsame] at hboth
          exact (List.perm_append_left_iff _).mp hboth
        · rw [HookTable.uhiThreadRunHooks_modify_of_ne _ hwhich]
          have hother := hlive which
          rw [callsOf_cons_of_ne hwhich] at hother
          exact (h.calls which).trans hother.symm
    · simp only [HookTable.uhiThreadHookRemove, hid, if_false, Option.mem_some_iff, forall_eq',
        false_and, iff_false]
      exact fun h' => Bool.false_ne_true h'.asserted.symm

theorem Agrees.step_iff (h : s.Agrees) (op : HookOp η α) : (s.step op).Agrees ↔ s.Doubled op := by
  cases op with
  | add which hook arg => exact iff_of_true (h.add which hook arg) trivial
  | remove k => exact h.remove_iff k

variable [Inhabited α]

theorem agrees_init : (init : HookSystem η α).Agrees := by
  refine ⟨rfl, fun which => ?_⟩
  simp [init, HookTable.init, HookTable.uhiThreadRunHooks, HookSlot.call, callsOf]

end HookSystem

open HookSystem

/-- The hooks are those that were added and not removed, all along a history, exactly if each
removal finds the same hook in the slot behind. -/
theorem thread_hooks_iff {η α : Type*} [Inhabited α] (ops : List (HookOp η α)) :
    (∀ pre, pre <+: ops → Serves (run step init pre)) ↔ Along step Doubled init ops := by
  simp only [serves_iff]
  refine along_iff_of_step_iff (I := Agrees) ?_ ?_ (fun _ h => h) agrees_init
  · exact fun h op hop => (h.step_iff op).mpr hop
  · exact fun s op h => h.step_iff op

/-- A hook that was added and removed is still called, and the removal of the hook in the last slot
ends with a failed assertion. -/
theorem thread_hook_stays :
    let s : HookSystem Bool Unit := run step init [.add .start (some true) (), .remove 0]
    let s' : HookSystem Bool Unit :=
      run step init (List.replicate 16 (.add .finish (some true) ()) ++ [.remove 0])
    s.live.length = 0 ∧ s.table.uhiThreadRunHooks .start = [(true, ())] ∧ ¬ s.Serves ∧
      s'.failed = true ∧ ¬ s'.Serves := by
  refine ⟨rfl, rfl, fun h => ?_, rfl, fun h => Bool.false_ne_true h.asserted.symm⟩
  have hlen := (h.calls .start).length_eq
  exact absurd hlen (by decide)

end Libuinet
