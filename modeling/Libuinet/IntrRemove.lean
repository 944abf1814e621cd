import Libuinet.IntrLinked

namespace Libuinet

open Execution

namespace IntrEvent

variable {η ι : Type*}

/-- Every handler whose removal has returned is off the list and was freed once, and the ithread
has looked at no handler that was free. -/
def Removed (s : IntrEvent η ι) : Prop :=
  (∀ h awaiting, s.remover h = .returned awaiting → h ∉ s.ieHandlers ∧ (s.ih h).freed = 1) ∧
    s.useAfterFree = false

/-- The operation is not the free of a handler whose removal found the ithread waiting for
interrupts. -/
def Marked (s : IntrEvent η ι) : IntrOp η ι → Prop
  | .remove h => s.remover h ≠ .free true
  | _ => True

theorem remover_of_leaked {adder : AddPc} {remover : RemovePc}
    (h : stageOf adder remover = .leaked) : remover = .returned true := by
  cases adder <;> simp only [stageOf, reduceCtorEq] at h
  rcases remover with
    _ | _ | _ | _ | _ | (_ | _) | (_ | _) | _ | _ | (_ | _) | (_ | _) | (_ | _) <;>
    first
      | rfl
      | cases h

variable {s : IntrEvent η ι} {h : η}

theorem inspect_of_freed (hfreed : (s.ih h).freed = 0) (huse : s.useAfterFree = false) :
    (s.inspect h).useAfterFree = false := by
  simp [inspect, hfreed, huse]

variable [DecidableEq η]

theorem addStep_remover (cfg : IntrConfig η) (h : η) : (s.addStep cfg h).remover = s.remover := by
  cases hpc : s.adder h <;> simp only [addStep, hpc, lockIe] <;> (repeat' split) <;> rfl

theorem addStep_useAfterFree (cfg : IntrConfig η) (h : η) :
    (s.addStep cfg h).useAfterFree = s.useAfterFree := by
  cases hpc : s.adder h <;> simp only [addStep, hpc, lockIe] <;> (repeat' split) <;> rfl

theorem removeStep_useAfterFree (h : η) : (s.removeStep h).useAfterFree = s.useAfterFree := by
  cases hpc : s.remover h <;> simp only [removeStep, hpc, lockIe, lockTd] <;> (repeat' split) <;>
    rfl

/-- A removal returns from the free, with what it found. -/
theorem removeStep_returned {h' : η} (hret : (s.removeStep h').remover h = .returned true) :
    s.remover h = .returned true ∨ h = h' ∧ s.remover h = .free true := by
  by_cases heq : h = h'
  · subst heq
    cases hpc : s.remover h <;> simp only [removeStep, hpc, lockIe, lockTd] at hret <;>
      (repeat' split at hret) <;>
      simp_all [setRemover, setHandler, free, unlockIe, unlockTd]
  · left
    have hsame : (s.removeStep h').remover h = s.remover h := by
      cases hpc : s.remover h' <;> simp only [removeStep, hpc, lockIe, lockTd] <;>
        (repeat' split) <;>
        simp [setRemover, setHandler, free, unlockIe, unlockTd, heq]
    rwa [← hsame]

theorem bodyStep_remover (cfg : IntrConfig η) (h : η) (ihn : Option η) :
    (s.bodyStep cfg h ihn).remover = s.remover := by
  unfold bodyStep
  dsimp only
  repeat' split
  all_goals rfl

/-- The ithread lets no removal return. -/
theorem itStep_returned (cfg : IntrConfig η) (hret : (s.itStep cfg).remover h = .returned true) :
    s.remover h = .returned true := by
  cases hpc : s.it with
  | body h' ihn => simpa only [itStep, hpc, bodyStep_remover] using hret
  | walk ih =>
    cases ih <;> simp only [itStep, hpc] at hret <;> exact hret
  | unlinked h' ihn =>
    simp only [itStep, hpc] at hret
    by_cases heq : h = h'
    · subst heq
      rw [Function.update_self] at hret
      cases hremover : s.remover h <;> simp_all [RemovePc.wakeup]
    · rwa [Function.update_of_ne heq] at hret
  | _ =>
    simp only [itStep, hpc, lockIe, lockTd] at hret
    (repeat' split at hret) <;> exact hret

section

variable (hs : s.Linked) (hleaked : ∀ h, s.remover h ≠ .returned true)
include hs hleaked

/-- A handler on the list is free only when its removal found the ithread waiting. -/
theorem Linked.freed_eq_zero (hh : h ∈ s.ieHandlers ∨ (s.ih h).dead = true) :
    (s.ih h).freed = 0 := by
  have hfits := hs.fits h
  unfold HandlerFits at hfits
  cases hstage : stageOf (s.adder h) (s.remover h) with
  | leaked => exact absurd (remover_of_leaked hstage) (hleaked h)
  | _ => simp_all [IntrStage.Fits]

/-- The ithread looks at handlers on the list, and at the one it has just taken off. -/
theorem Linked.itStep_useAfterFree (huse : s.useAfterFree = false) (cfg : IntrConfig η) :
    (s.itStep cfg).useAfterFree = false := by
  have hlook (h : η) (hh : h ∈ s.it.view.refs) : (s.inspect h).useAfterFree = false :=
    inspect_of_freed (hs.freed_eq_zero hleaked (.inl (hs.refs h hh))) huse
  cases hpc : s.it with
  | walk ih =>
    cases ih with
    | none => simpa only [IntrEvent.itStep, hpc] using huse
    | some h => simpa only [IntrEvent.itStep, hpc] using hlook h (by simp [hpc, ItPc.view])
  | body h ihn =>
    have hbody := hlook h (by simp [hpc, ItPc.view])
    simp only [IntrEvent.itStep, hpc, IntrEvent.bodyStep]
    repeat' split
    all_goals exact hbody
  | exec h ihn => simpa only [IntrEvent.itStep, hpc] using hlook h (by simp [hpc, ItPc.view])
  | removeLocked h ihn =>
    simpa only [IntrEvent.itStep, hpc] using hlook h (by simp [hpc, ItPc.view])
  | unlinked h ihn =>
    have hdead := (hs.unlinking h (by simp [hpc, ItPc.view])).2
    simp only [IntrEvent.itStep, hpc]
    exact inspect_of_freed (hs.freed_eq_zero hleaked (.inr hdead)) huse
  | _ =>
    simp only [IntrEvent.itStep, hpc, lockIe, lockTd]
    (repeat' split) <;> exact huse

end

variable [DecidableEq ι]

theorem swiStep_remover (i : ι) : (s.swiStep i).remover = s.remover := by
  cases hpc : s.caller i <;> simp only [swiStep, hpc, lockTd] <;> (repeat' split) <;> rfl

theorem swiStep_useAfterFree (i : ι) : (s.swiStep i).useAfterFree = s.useAfterFree := by
  cases hpc : s.caller i <;> simp only [swiStep, hpc, lockTd] <;> (repeat' split) <;> rfl

structure Unleaked (s : IntrEvent η ι) : Prop where
  sound : s.Sound
  leaked : ∀ h, s.remover h ≠ .returned true
  useAfterFree : s.useAfterFree = false

omit [DecidableEq ι] in
theorem Unleaked.removed (hs : s.Unleaked) : s.Removed := by
  refine ⟨?_, hs.useAfterFree⟩
  intro h awaiting hret
  have hfits := hs.sound.linked.fits h
  have hadded := hs.sound.linked.added h (by simp [hret])
  cases awaiting with
  | true => exact absurd hret (hs.leaked h)
  | false =>
    simp only [HandlerFits, hadded, hret, stageOf, RemovePc.stage, IntrStage.Fits,
      decide_eq_false_iff_not] at hfits
    exact ⟨hfits.1, hfits.2.2⟩

theorem Unleaked.step (hs : s.Unleaked) (cfg : IntrConfig η) {op : IntrOp η ι}
    (hop : s.Marked op) : (s.step cfg op).Unleaked := by
  refine ⟨hs.sound.step cfg op, ?_, ?_⟩
  · intro h hret
    refine hs.leaked h ?_
    cases op with
    | add h' => rwa [IntrEvent.step, addStep_remover] at hret
    | remove h' =>
      rcases removeStep_returned hret with hret | ⟨rfl, hfree⟩
      · exact hret
      · exact absurd hfree hop
    | sched i h' delay | rouseAdd h' | rouse =>
      simp only [IntrEvent.step] at hret
      split at hret <;> exact hret
    | swi i => rwa [IntrEvent.step, swiStep_remover] at hret
    | ithread => exact itStep_returned cfg hret
    | rouseRemove h' =>
      simp only [IntrEvent.step] at hret
      split at hret
      · by_cases heq : h = h'
        · subst heq
          simp [setRemover] at hret
        · simpa [setRemover, heq] using hret
      · exact hret
  · have huse := hs.useAfterFree
    cases op with
    | add h => rwa [IntrEvent.step, addStep_useAfterFree]
    | remove h => rwa [IntrEvent.step, removeStep_useAfterFree]
    | swi i => rwa [IntrEvent.step, swiStep_useAfterFree]
    | ithread => exact hs.sound.linked.itStep_useAfterFree hs.leaked huse cfg
    | _ =>
      simp only [IntrEvent.step]
      split <;> exact huse

/-- A removal that found the ithread waiting returns with the handler on the list. -/
theorem Sound.not_removed (hs : s.Sound) (cfg : IntrConfig η) (hfree : s.remover h = .free true) :
    ¬ (s.step cfg (.remove h)).Removed := by
  intro hremoved
  have hfits := hs.linked.fits h
  have hadded := hs.linked.added h (by simp [hfree])
  simp only [HandlerFits, hadded, hfree, stageOf, RemovePc.stage, IntrStage.Fits,
    decide_eq_true_eq] at hfits
  have hret : (s.step cfg (.remove h)).remover h = .returned true := by
    simp [IntrEvent.step, IntrEvent.removeStep, hfree, setRemover, free, setHandler]
  have hlist : (s.step cfg (.remove h)).ieHandlers = s.ieHandlers := by
    simp [IntrEvent.step, IntrEvent.removeStep, hfree, setRemover, free, setHandler]
  exact (hremoved.1 h true hret).1 (hlist ▸ hfits.1)

end IntrEvent

/-- Every handler whose removal has returned is gone, in every state of a run, exactly when no
removal that found the ithread waiting for interrupts frees its handler in it. -/
theorem intr_remove_iff {η ι : Type*} [DecidableEq η] [DecidableEq ι] (cfg : IntrConfig η)
    (l : List (IntrOp η ι)) :
    (∀ pre, pre <+: l → (run (IntrEvent.step cfg) IntrEvent.create pre).Removed) ↔
      Along (IntrEvent.step cfg) IntrEvent.Marked IntrEvent.create l := by
  apply along_iff_of_step_iff (I := IntrEvent.Unleaked)
  · exact fun hs op hop => hs.step cfg hop
  · intro s op hs
    constructor
    · intro hremoved
      cases op with
      | remove h => exact fun hfree => hs.sound.not_removed cfg hfree hremoved
      | _ => trivial
    · exact fun hop => (hs.step cfg hop).removed
  · exact fun s hs => hs.removed
  · exact ⟨IntrEvent.sound_create, by simp [IntrEvent.create], rfl⟩

def softConfig : IntrConfig Bool where
  soft := true
  handler := fun _ => true
  excl := fun _ => false
  pri := fun _ => 0

def awaitingOps : List (IntrOp Bool Unit) :=
  List.replicate 11 (.add false) ++ List.replicate 4 (.add true) ++ List.replicate 4 .ithread

/-- The first handler is removed and stays on the list.  When the other one is scheduled, the
ithread looks at it although it is free. -/
theorem intr_remove_leaks :
    let s := run (IntrEvent.step softConfig) IntrEvent.create
      (awaitingOps ++ List.replicate 9 (.remove false))
    s.remover false = .returned true ∧ false ∈ s.ieHandlers ∧ (s.ih false).freed = 1 ∧
      (run (IntrEvent.step softConfig) s (.sched () true false :: List.replicate 6 (.swi ()) ++
        List.replicate 6 .ithread)).useAfterFree = true := by
  decide +kernel

end Libuinet
