import Libuinet.IntrEvent

namespace Libuinet

open Execution Function ListSweep

inductive IntrStage where
  /-- it is not on the list -/
  | out
  | linked
  /-- the ithread is to take it off the list -/
  | dying
  /-- it was freed off the list -/
  | gone
  /-- it was freed on the list -/
  | leaked
  deriving DecidableEq

def RemovePc.stage : RemovePc → IntrStage
  | .idle | .called | .locked | .lockTd | .tdLocked => .linked
  | .unlockTd true | .loop true | .unlockIe true | .free true => .linked
  | .unlockTd false | .loop false | .asleep | .awake => .dying
  | .unlockIe false | .free false => .out
  | .returned false => .gone
  | .returned true => .leaked

def stageOf : AddPc → RemovePc → IntrStage
  | .idle, _ | .called, _ | .locked, _ | .failing, _ => .out
  | .failed, _ => .gone
  | .returned, pc => pc.stage
  | _, _ => .linked

def IntrStage.Fits (listed dead unlinking : Bool) (freed : ℕ) : IntrStage → Prop
  | .out => listed = false ∧ dead = false ∧ freed = 0
  | .linked => listed = true ∧ dead = false ∧ freed = 0
  | .dying => freed = 0 ∧ (dead = true → listed = true ∨ unlinking = true) ∧
      (dead = false → listed = false)
  | .gone => listed = false ∧ dead = false ∧ freed = 1
  | .leaked => listed = true ∧ dead = false ∧ freed = 1

/-- What the place of the ithread says about handlers. -/
structure ItView (η : Type*) where
  /-- those on the list that it will look at without looking for them -/
  refs : List η
  /-- the one it is going to take off the list -/
  dying : Option η
  /-- the one it has taken off the list -/
  unlinking : Option η

def ItPc.view {η : Type*} : ItPc η → ItView η
  | .walk ih => ⟨ih.toList, none, none⟩
  | .body ih ihn | .exec ih ihn => ⟨ih :: ihn.toList, none, none⟩
  | .removing ih ihn | .removeLocked ih ihn => ⟨ih :: ihn.toList, some ih, none⟩
  | .unlinked ih ihn => ⟨ihn.toList, none, some ih⟩
  | .cleared ihn => ⟨ihn.toList, none, none⟩
  | _ => ⟨[], none, none⟩

namespace IntrEvent

variable {η ι : Type*} [DecidableEq η]

def HandlerFits (s : IntrEvent η ι) (h : η) : Prop :=
  (stageOf (s.adder h) (s.remover h)).Fits (decide (h ∈ s.ieHandlers)) (s.ih h).dead
    (decide (s.it.view.unlinking = some h)) (s.ih h).freed

/-- The list, the ithread and the calls agree on where the handlers are. -/
structure Linked (s : IntrEvent η ι) : Prop where
  nodup : s.ieHandlers.Nodup
  added : ∀ h, s.remover h ≠ .idle → s.adder h = .returned
  fits : ∀ h, s.HandlerFits h
  refs : ∀ h ∈ s.it.view.refs, h ∈ s.ieHandlers
  refs_nodup : s.it.view.refs.Nodup
  dying : ∀ h, s.it.view.dying = some h → (s.ih h).dead = true
  unlinking : ∀ h, s.it.view.unlinking = some h → h ∉ s.ieHandlers ∧ (s.ih h).dead = true
  -- the ithread looks at handlers of the event only once it has been told of it
  event : s.it.view.refs ≠ [] → s.ie = .event
  thread : s.ie = .event ∨ s.itEvent = some .event → s.ieThread = true

variable {s : IntrEvent η ι}

theorem linked_create : (create : IntrEvent η ι).Linked := by
  refine ⟨by simp [create], by simp [create], ?_, by simp [create, ItPc.view],
    by simp [create, ItPc.view], by simp [create, ItPc.view], by simp [create, ItPc.view],
    by simp [create, ItPc.view], by simp [create]⟩
  intro h
  simp [HandlerFits, create, stageOf, IntrStage.Fits]

variable {h : η}

theorem Linked.remover_idle (hs : s.Linked) (hadder : s.adder h ≠ .returned) :
    s.remover h = .idle := by
  by_contra hne
  exact hadder (hs.added h hne)

/-- Whoever adds a handler, those that are being removed were added. -/
theorem Linked.added_adder (hs : s.Linked) (hne : s.adder h ≠ .returned) (pc : AddPc) :
    ∀ h', s.remover h' ≠ .idle → update s.adder h pc h' = .returned := by
  intro h' hh'
  by_cases heq : h' = h
  · subst heq
    exact absurd (hs.remover_idle hne) hh'
  · simpa [heq] using hs.added h' hh'

/-- The same for the one that removes an added handler. -/
theorem Linked.added_remover (hs : s.Linked) (hadded : s.adder h = .returned) (pc : RemovePc) :
    ∀ h', update s.remover h pc h' ≠ .idle → s.adder h' = .returned := by
  intro h' hh'
  by_cases heq : h' = h
  · subst heq
    exact hadded
  · exact hs.added h' (by simpa [heq] using hh')

/-- A thread that adds a handler goes on and leaves the handlers alone. -/
theorem Linked.adderMoves (hs : s.Linked) {pc : AddPc} (hne : s.adder h ≠ .returned)
    (hstage : stageOf pc .idle = stageOf (s.adder h) .idle) {lock : Option (IntrOwner η ι)}
    {adding thread : Bool} {event : Option ItEvent} {it : ItPc η} (hit : it.view = s.it.view)
    (hthread : s.ieThread = true → thread = true)
    (hevent : event = some .event → s.itEvent = some .event ∨ thread = true) :
    Linked { s with
      adder := update s.adder h pc
      ieLock := lock
      adding := adding
      ieThread := thread
      itEvent := event
      it := it } := by
  have hidle := hs.remover_idle hne
  refine ⟨hs.nodup, hs.added_adder hne pc, ?_, ?_, ?_, ?_, ?_, ?_, ?_⟩
  · intro h'
    have hfits := hs.fits h'
    by_cases heq : h' = h
    · subst heq
      simp only [HandlerFits, update_self, hidle, hstage, hit] at hfits ⊢
      exact hfits
    · simpa only [HandlerFits, update_of_ne heq, hit] using hfits
  · simpa only [hit] using hs.refs
  · simpa only [hit] using hs.refs_nodup
  · simpa only [hit] using hs.dying
  · simpa only [hit] using hs.unlinking
  · simpa only [hit] using hs.event
  · rintro (hie | hev)
    · exact hthread (hs.thread (.inl hie))
    · rcases hevent hev with hev | hthread'
      · exact hthread (hs.thread (.inr hev))
      · exact hthread'

variable {ieLock tdLock : Option (IntrOwner η ι)}

section

variable (hs : s.Linked) {pc : RemovePc} (hadded : s.adder h = .returned)
include hs hadded

/-- A thread that removes a handler goes on to a place that fits the handler. -/
theorem Linked.removerTo (hfits : pc.stage.Fits (decide (h ∈ s.ieHandlers)) (s.ih h).dead
      (decide (s.it.view.unlinking = some h)) (s.ih h).freed) :
    Linked { s with
      remover := update s.remover h pc
      ieLock := ieLock
      tdLock := tdLock } := by
  refine { hs with added := hs.added_remover hadded pc, fits := ?_ }
  intro h'
  by_cases heq : h' = h
  · subst heq
    simpa only [HandlerFits, update_self, hadded, stageOf] using hfits
  · simpa only [HandlerFits, update_of_ne heq] using hs.fits h'

/-- The same for a place of the same stage. -/
theorem Linked.removerMoves (hstage : pc.stage = (s.remover h).stage) :
    Linked { s with
      remover := update s.remover h pc
      ieLock := ieLock
      tdLock := tdLock } := by
  have hfits := hs.fits h
  simp only [HandlerFits, hadded, stageOf] at hfits
  exact hs.removerTo hadded (by rwa [hstage])

end

theorem update_need (ih : η → IntrHandler) (h : η) (need : Bool) (h' : η) :
    (update ih h { ih h with need := need } h').dead = (ih h').dead ∧
      (update ih h { ih h with need := need } h').freed = (ih h').freed := by
  by_cases heq : h' = h
  · subst heq
    simp
  · simp [heq]

section

variable (hs : s.Linked)
include hs

variable {tdLock : Option (IntrOwner η ι)} {ih : η → IntrHandler}

/-- A thread that calls `swi_sched` leaves the handlers alone but for `ih_need`. -/
theorem Linked.callerMoves {caller : ι → SchedPc η}
    (hih : ∀ h, (ih h).dead = (s.ih h).dead ∧ (ih h).freed = (s.ih h).freed) {need iwait : Bool}
    {it : ItPc η} (hit : it.view = s.it.view) :
    Linked { s with
      caller := caller
      ih := ih
      itNeed := need
      iwait := iwait
      tdLock := tdLock
      it := it } := by
  refine ⟨hs.nodup, hs.added, ?_, ?_, ?_, ?_, ?_, ?_, hs.thread⟩
  · intro h
    simpa only [HandlerFits, hih, hit] using hs.fits h
  · simpa only [hit] using hs.refs
  · simpa only [hit] using hs.refs_nodup
  · simpa only [hit, hih] using hs.dying
  · simpa only [hit, hih] using hs.unlinking
  · simpa only [hit] using hs.event

variable {ieLock : Option (IntrOwner η ι)}

/-- The ithread goes on to look at handlers of the list. -/
theorem Linked.itMoves (it : ItPc η) (hunlinking : it.view.unlinking = s.it.view.unlinking)
    (hdying : ∀ h, it.view.dying = some h → (s.ih h).dead = true)
    (hrefs : ∀ h ∈ it.view.refs, h ∈ s.ieHandlers) (hnodup : it.view.refs.Nodup)
    (hevent : it.view.refs ≠ [] → s.ie = .event)
    (hih : ∀ h, (ih h).dead = (s.ih h).dead ∧ (ih h).freed = (s.ih h).freed) {need iwait uaf : Bool}
    {walked : List η} {due : η → Bool} :
    Linked { s with
      it := it
      ih := ih
      itNeed := need
      iwait := iwait
      ieLock := ieLock
      tdLock := tdLock
      useAfterFree := uaf
      walked := walked
      due := due } := by
  refine ⟨hs.nodup, hs.added, ?_, hrefs, hnodup, ?_, ?_, hevent, hs.thread⟩
  · intro h
    simpa only [HandlerFits, hih, hunlinking] using hs.fits h
  · simpa only [hih] using hdying
  · simpa only [hih, hunlinking] using hs.unlinking

/-- The same for a step after which it looks at no more than before. -/
theorem Linked.itDrops (it : ItPc η) (hview : it.view.refs.Sublist s.it.view.refs)
    (hunlinking : it.view.unlinking = s.it.view.unlinking)
    (hdying : ∀ h, it.view.dying = some h → (s.ih h).dead = true)
    (hih : ∀ h, (ih h).dead = (s.ih h).dead ∧ (ih h).freed = (s.ih h).freed) {need iwait uaf : Bool}
    {walked : List η} {due : η → Bool} :
    Linked { s with
      it := it
      ih := ih
      itNeed := need
      iwait := iwait
      ieLock := ieLock
      tdLock := tdLock
      useAfterFree := uaf
      walked := walked
      due := due } := by
  apply hs.itMoves it hunlinking hdying _ (hview.nodup hs.refs_nodup) _ hih
  · intro h hh
    exact hs.refs h (hview.subset hh)
  · intro hne
    apply hs.event
    intro hnil
    rw [hnil] at hview
    exact hne (List.sublist_nil.1 hview)

/-- A handler is put on the list. -/
theorem Linked.insert (cfg : IntrConfig η) (hadder : s.adder h = .locked) :
    Linked { s with
      adder := update s.adder h .loop
      ieHandlers := cfg.insertHandler s.ieHandlers h } := by
  have hfits := hs.fits h
  simp only [HandlerFits, hadder, stageOf, IntrStage.Fits, decide_eq_false_iff_not] at hfits
  obtain ⟨hnot, hdead, hfreed⟩ := hfits
  refine ⟨cfg.nodup_insertHandler hs.nodup hnot, hs.added_adder (by simp [hadder]) _, ?_, ?_,
    hs.refs_nodup, hs.dying, ?_, hs.event, hs.thread⟩
  · intro h'
    by_cases heq : h' = h
    · subst heq
      simp [HandlerFits, stageOf, IntrStage.Fits, cfg.mem_insertHandler, hdead, hfreed]
    · simpa [HandlerFits, heq, cfg.mem_insertHandler] using hs.fits h'
  · intro h' hh'
    rw [cfg.mem_insertHandler]
    exact .inr (hs.refs h' hh')
  · intro h' hh'
    obtain ⟨hout, hdead'⟩ := hs.unlinking h' hh'
    refine ⟨?_, hdead'⟩
    rw [cfg.mem_insertHandler]
    rintro (rfl | hin)
    · simp [hdead] at hdead'
    · exact hout hin

/-- A handler is freed by the thread that was to add it, or to remove it. -/
theorem Linked.frees (h : η) (adder : AddPc) (remover : RemovePc)
    (hadded : remover ≠ .idle → adder = .returned)
    (hstage : stageOf (s.adder h) (s.remover h) = .out ∧ stageOf adder remover = .gone ∨
      stageOf (s.adder h) (s.remover h) = .linked ∧ stageOf adder remover = .leaked) :
    Linked { s with
      adder := update s.adder h adder
      remover := update s.remover h remover
      ih := update s.ih h { s.ih h with freed := (s.ih h).freed + 1 } } := by
  have hdead (h' : η) :
      (update s.ih h { s.ih h with freed := (s.ih h).freed + 1 } h').dead =
        (s.ih h').dead := by
    by_cases heq : h' = h
    · subst heq
      simp
    · simp [heq]
  refine { hs with added := ?_, fits := ?_, dying := ?_, unlinking := ?_ }
  · intro h' hh'
    by_cases heq : h' = h
    · subst heq
      simp only [update_self] at hh' ⊢
      exact hadded hh'
    · simp only [update_of_ne heq] at hh' ⊢
      exact hs.added h' hh'
  · intro h'
    have hfits := hs.fits h'
    by_cases heq : h' = h
    · subst heq
      rcases hstage with ⟨hold, hnew⟩ | ⟨hold, hnew⟩ <;>
        simp only [HandlerFits, hold, hnew, update_self, IntrStage.Fits] at hfits ⊢ <;>
        exact ⟨hfits.1, hfits.2.1, by omega⟩
    · simpa only [HandlerFits, update_of_ne heq] using hfits
  · simpa only [hdead] using hs.dying
  · simpa only [hdead] using hs.unlinking

/-- The thread that removes a handler takes it off the list where there is no ithread. -/
theorem Linked.unlinks (hremover : s.remover h = .locked) (hthread : s.ieThread = false) :
    Linked { s with
      remover := update s.remover h (.unlockIe false)
      ieHandlers := s.ieHandlers.erase h } := by
  have hadded := hs.added h (by simp [hremover])
  have hrefs : s.it.view.refs = [] := by
    by_contra hne
    simpa [hthread] using hs.thread (.inl (hs.event hne))
  have hfits := hs.fits h
  simp only [HandlerFits, hadded, hremover, stageOf, RemovePc.stage, IntrStage.Fits] at hfits
  obtain ⟨-, hdead, hfreed⟩ := hfits
  refine ⟨hs.nodup.erase h, hs.added_remover hadded _, ?_, by simp [hrefs], hs.refs_nodup,
    hs.dying, ?_, hs.event, hs.thread⟩
  · intro h'
    by_cases heq : h' = h
    · subst heq
      simp [HandlerFits, hadded, stageOf, RemovePc.stage, IntrStage.Fits, hdead, hfreed,
        hs.nodup.not_mem_erase]
    · simpa [HandlerFits, heq, List.mem_erase_of_ne] using hs.fits h'
  · intro h' hh'
    obtain ⟨hout, hdead'⟩ := hs.unlinking h' hh'
    exact ⟨fun hin => hout (List.mem_of_mem_erase hin), hdead'⟩

/-- The thread that removes a handler leaves it to the ithread. -/
theorem Linked.marks (hremover : s.remover h = .tdLocked) :
    Linked { s with
      remover := update s.remover h (.unlockTd false)
      ih := update s.ih h { s.ih h with dead := true }
      itNeed := true } := by
  have hadded := hs.added h (by simp [hremover])
  have hfits := hs.fits h
  simp only [HandlerFits, hadded, hremover, stageOf, RemovePc.stage, IntrStage.Fits] at hfits
  obtain ⟨hlisted, -, hfreed⟩ := hfits
  have hdead (h' : η) (hh' : (s.ih h').dead = true) :
      (update s.ih h { s.ih h with dead := true } h').dead = true := by
    by_cases heq : h' = h
    · subst heq
      simp
    · simpa [heq] using hh'
  refine { hs with added := hs.added_remover hadded _, fits := ?_, dying := ?_, unlinking := ?_ }
  · intro h'
    by_cases heq : h' = h
    · subst heq
      simp [HandlerFits, hadded, stageOf, RemovePc.stage, IntrStage.Fits, hfreed,
        of_decide_eq_true hlisted]
    · simpa only [HandlerFits, update_of_ne heq] using hs.fits h'
  · exact fun h' hh' => hdead h' (hs.dying h' hh')
  · exact fun h' hh' => ⟨(hs.unlinking h' hh').1, hdead h' (hs.unlinking h' hh').2⟩

theorem Linked.removeStep (h : η) : (s.removeStep h).Linked := by
  by_cases hidle : s.remover h = .idle
  · simp only [IntrEvent.removeStep, hidle]
    split
    · next hadded => exact hs.removerMoves hadded (by simp [hidle, RemovePc.stage])
    · exact hs
  have hadded := hs.added h hidle
  have hfits := hs.fits h
  simp only [HandlerFits, hadded, stageOf] at hfits
  cases hpc : s.remover h with simp only [IntrEvent.removeStep, hpc]
  | idle => exact absurd hpc hidle
  | called | awake =>
    simp only [IntrEvent.lockIe]
    split
    · exact hs.removerMoves hadded (by simp [hpc, RemovePc.stage])
    · exact hs
  | locked =>
    split
    · exact hs.removerMoves hadded (by simp [hpc, RemovePc.stage])
    · next hthread => exact hs.unlinks hpc (by simpa using hthread)
  | lockTd =>
    simp only [IntrEvent.lockTd]
    split
    · exact hs.removerMoves hadded (by simp [hpc, RemovePc.stage])
    · exact hs
  | tdLocked =>
    split
    · exact hs.removerMoves hadded (by simp [hpc, RemovePc.stage])
    · exact hs.marks hpc
  | unlockTd awaiting | unlockIe awaiting =>
    exact hs.removerMoves hadded (by cases awaiting <;> simp [hpc, RemovePc.stage])
  | loop awaiting =>
    rw [hpc] at hfits
    split
    · next hdead =>
      cases awaiting with
      | true => simp [RemovePc.stage, IntrStage.Fits, hdead] at hfits
      | false => exact hs.removerMoves hadded (by simp [hpc, RemovePc.stage])
    · next hdead =>
      cases awaiting with
      | true => exact hs.removerMoves hadded (by simp [hpc, RemovePc.stage])
      | false =>
        have hdead : (s.ih h).dead = false := by simpa using hdead
        apply hs.removerTo hadded
        exact ⟨hfits.2.2 hdead, hdead, hfits.1⟩
  | asleep | returned awaiting => exact hs
  | free awaiting =>
    have hfrees := hs.frees h (s.adder h) (.returned awaiting) (fun _ => hadded)
      (by cases awaiting <;> simp [hadded, hpc, stageOf, RemovePc.stage])
    rw [update_eq_self] at hfrees
    exact hfrees

end

end IntrEvent

def AddPc.Creates : AddPc → Prop
  | .creating | .starting | .created | .relocked => True
  | _ => False

namespace IntrEvent

variable {η ι : Type*} {s : IntrEvent η ι}

/-- One thread creates the ithread, and until then there is none. -/
structure Creation (s : IntrEvent η ι) : Prop where
  adding : ∀ h, (s.adder h).Creates → s.adding = true ∧ s.ieThread = false
  unique : ∀ h h', (s.adder h).Creates → (s.adder h').Creates → h = h'
  unborn : ∀ h, s.adder h = .creating ∨ s.adder h = .starting → s.it = .unborn
  notYet : s.adding = false → s.ieThread = false → s.it = .unborn
  assigning : ∀ h, s.adder h = .assigning → s.ieThread = true

theorem creation_create : (create : IntrEvent η ι).Creation := by
  constructor <;> simp [create, AddPc.Creates]

variable {s' : IntrEvent η ι} {ihn : Option η} {h : η}

/-- What does not add a handler does not create the ithread. -/
theorem Creation.keep (hs : s.Creation) (hadder : s'.adder = s.adder)
    (hadding : s'.adding = s.adding) (hthread : s'.ieThread = s.ieThread)
    (hit : s.it = .unborn → s'.it = .unborn) : s'.Creation := by
  refine ⟨?_, ?_, ?_, ?_, ?_⟩
  · rw [hadder, hadding, hthread]
    exact hs.adding
  · rw [hadder]
    exact hs.unique
  · rw [hadder]
    exact fun h hh => hit (hs.unborn h hh)
  · rw [hadding, hthread]
    exact fun hadding hthread => hit (hs.notYet hadding hthread)
  · rw [hadder, hthread]
    exact hs.assigning

variable [DecidableEq η]

section

variable (hs : s.Creation) {pc : AddPc} (hadder : s'.adder = update s.adder h pc)
include hs hadder

section

variable (hself : pc.Creates → s'.adding = true ∧ s'.ieThread = false)
  (hunborn : pc = .creating ∨ pc = .starting → s'.it = .unborn)
  (hnotYet : s'.adding = false → s'.ieThread = false → s'.it = .unborn)
  (hmono : s.ieThread = true → s'.ieThread = true)
  (hassigning : pc = .assigning → s'.ieThread = true)
include hself hunborn hnotYet hmono hassigning

/-- A thread that adds a handler goes on.  While another one creates the ithread it changes
nothing of that. -/
theorem Creation.moves (hother : ∀ h' ≠ h, (s.adder h').Creates →
    s'.adding = s.adding ∧ s'.ieThread = s.ieThread ∧ s'.it = s.it ∧ ¬ pc.Creates) :
    s'.Creation := by
  have hne (h' : η) (hh' : h' ≠ h) : s'.adder h' = s.adder h' := by
    rw [hadder, update_of_ne hh']
  have heq : s'.adder h = pc := by rw [hadder, update_self]
  refine ⟨?_, ?_, ?_, hnotYet, ?_⟩
  · intro h' hh'
    by_cases hh : h' = h
    · subst hh
      exact hself (heq ▸ hh')
    · rw [hne h' hh] at hh'
      obtain ⟨hadding, hthread, -⟩ := hother h' hh hh'
      rw [hadding, hthread]
      exact hs.adding h' hh'
  · intro h₁ h₂ h₁' h₂'
    by_cases hh₁ : h₁ = h <;> by_cases hh₂ : h₂ = h
    · rw [hh₁, hh₂]
    · subst hh₁
      rw [heq] at h₁'
      rw [hne h₂ hh₂] at h₂'
      exact absurd h₁' (hother h₂ hh₂ h₂').2.2.2
    · subst hh₂
      rw [heq] at h₂'
      rw [hne h₁ hh₁] at h₁'
      exact absurd h₂' (hother h₁ hh₁ h₁').2.2.2
    · rw [hne h₁ hh₁] at h₁'
      rw [hne h₂ hh₂] at h₂'
      exact hs.unique h₁ h₂ h₁' h₂'
  · intro h' hh'
    by_cases hh : h' = h
    · subst hh
      exact hunborn (heq ▸ hh')
    · rw [hne h' hh] at hh'
      have hcreates : (s.adder h').Creates := by
        rcases hh' with hh' | hh' <;> simp [hh', AddPc.Creates]
      rw [(hother h' hh hcreates).2.2.1]
      exact hs.unborn h' hh'
  · intro h' hh'
    by_cases hh : h' = h
    · subst hh
      exact hassigning (heq ▸ hh')
    · rw [hne h' hh] at hh'
      exact hmono (hs.assigning h' hh')

/-- The thread that creates the ithread is the only one. -/
theorem Creation.creatorMoves (hcreates : (s.adder h).Creates) : s'.Creation := by
  refine hs.moves hadder hself hunborn hnotYet hmono hassigning ?_
  intro h' hne hh'
  exact absurd (hs.unique h' h hh' hcreates) hne

end

/-- The same for a step that has nothing to do with the ithread. -/
theorem Creation.passes (hpc : ¬ pc.Creates ∧ pc ≠ .assigning) (hadding : s'.adding = s.adding)
    (hthread : s'.ieThread = s.ieThread) (hit : s'.it = s.it) : s'.Creation := by
  refine hs.moves hadder (fun h => absurd h hpc.1) ?_ ?_ (by simp [hthread])
    (fun h => absurd h hpc.2) (fun _ _ _ => ⟨hadding, hthread, hit, hpc.1⟩)
  · rintro (rfl | rfl) <;> exact absurd trivial hpc.1
  · rw [hadding, hthread, hit]
    exact hs.notYet

end

omit [DecidableEq η] in
/-- `wakeup(ie)`. -/
theorem Creation.wakeup (hs : s.Creation) :
    Creation { s with adder := fun h => (s.adder h).wakeup } := by
  have hcreates (h : η) : (s.adder h).wakeup.Creates ↔ (s.adder h).Creates := by
    cases s.adder h <;> rfl
  refine ⟨?_, ?_, ?_, hs.notYet, ?_⟩
  · intro h hh
    exact hs.adding h ((hcreates h).1 hh)
  · intro h h' hh hh'
    exact hs.unique h h' ((hcreates h).1 hh) ((hcreates h').1 hh')
  · intro h hh
    refine hs.unborn h ?_
    cases hpc : s.adder h <;> simp_all [AddPc.wakeup]
  · intro h hh
    refine hs.assigning h ?_
    cases hpc : s.adder h <;> simp_all [AddPc.wakeup]

theorem Creation.addStep (hs : s.Creation) (cfg : IntrConfig η) (h : η) :
    (s.addStep cfg h).Creation := by
  cases hpc : s.adder h with simp only [IntrEvent.addStep, hpc]
  | idle | assigning | failing => exact hs.passes rfl ⟨id, by simp⟩ rfl rfl rfl
  | called | awake =>
    simp only [lockIe]
    split
    · exact hs.passes rfl ⟨id, by simp⟩ rfl rfl rfl
    · exact hs
  | locked =>
    split
    · exact hs.passes rfl ⟨id, by simp⟩ rfl rfl rfl
    · exact hs.passes rfl ⟨id, by simp⟩ rfl rfl rfl
  | loop =>
    split
    · exact hs.passes rfl ⟨id, by simp⟩ rfl rfl rfl
    · next hneeds =>
      split
      · exact hs.passes rfl ⟨id, by simp⟩ rfl rfl rfl
      · next hadding =>
        have hthread : s.ieThread = false := by
          cases hthread : s.ieThread <;> simp_all
        have hadding : s.adding = false := by simpa using hadding
        refine hs.moves rfl (fun _ => ⟨rfl, hthread⟩) (fun _ => hs.notYet hadding hthread)
          (fun hfalse => by cases hfalse) id (by simp) ?_
        -- nobody else creates the ithread, as `IE_ADDING_THREAD` is not set
        intro h' _ hh'
        rw [(hs.adding h' hh').1] at hadding
        cases hadding
  | asleep | failed | returned => exact hs
  | creating =>
    have hcreates : (s.adder h).Creates := by simp [hpc, AddPc.Creates]
    have hunborn := hs.unborn h (.inl hpc)
    exact hs.creatorMoves rfl (fun _ => hs.adding h hcreates) (fun _ => hunborn)
      (fun _ _ => hunborn) id (by simp) hcreates
  | starting =>
    have hcreates : (s.adder h).Creates := by simp [hpc, AddPc.Creates]
    refine hs.creatorMoves rfl (fun _ => hs.adding h hcreates) (by simp) ?_ id (by simp) hcreates
    intro hadding
    have hadding : s.adding = false := hadding
    rw [(hs.adding h hcreates).1] at hadding
    cases hadding
  | created =>
    have hcreates : (s.adder h).Creates := by simp [hpc, AddPc.Creates]
    simp only [lockIe]
    split
    · exact hs.creatorMoves rfl (fun _ => hs.adding h hcreates) (by simp) hs.notYet id
        (by simp) hcreates
    · exact hs
  | relocked =>
    have hcreates : (s.adder h).Creates := by simp [hpc, AddPc.Creates]
    exact hs.creatorMoves rfl (fun hfalse => hfalse.elim) (by simp)
      (fun _ hfalse => by cases hfalse) (fun _ => rfl) (fun _ => rfl) hcreates
  | assigned => exact hs.wakeup.passes rfl ⟨id, by simp⟩ rfl rfl rfl

section

variable (hs : s.Linked)
include hs

/-- `wakeup(ie)`. -/
theorem Linked.wakeup : Linked { s with adder := fun h => (s.adder h).wakeup } := by
  have hstage (h : η) : stageOf (s.adder h).wakeup (s.remover h) =
      stageOf (s.adder h) (s.remover h) := by
    cases s.adder h <;> rfl
  refine { hs with added := ?_, fits := ?_ }
  · intro h hh
    simp [hs.added h hh, AddPc.wakeup]
  · intro h
    simpa only [HandlerFits, hstage] using hs.fits h

theorem Linked.addStep (hcreation : s.Creation) (cfg : IntrConfig η) (h : η) :
    (s.addStep cfg h).Linked := by
  have hmoves (pc : AddPc) (hne : s.adder h ≠ .returned)
      (hstage : stageOf pc .idle = stageOf (s.adder h) .idle) (lock : Option (IntrOwner η ι))
      (adding : Bool) : Linked { s with
        adder := update s.adder h pc
        ieLock := lock
        adding := adding } :=
    hs.adderMoves hne hstage rfl id .inl
  cases hpc : s.adder h with simp only [IntrEvent.addStep, hpc]
  | idle => exact hmoves _ (by simp [hpc]) (by simp [hpc, stageOf]) _ _
  | called | awake | created =>
    simp only [lockIe]
    split
    · exact hmoves _ (by simp [hpc]) (by simp [hpc, stageOf]) _ _
    · exact hs
  | locked =>
    split
    · exact hmoves _ (by simp [hpc]) (by simp [hpc, stageOf]) _ _
    · exact hs.insert cfg hpc
  | loop =>
    split
    · exact hmoves _ (by simp [hpc]) (by simp [hpc, stageOf, RemovePc.stage]) _ _
    · split
      · exact hmoves _ (by simp [hpc]) (by simp [hpc, stageOf]) _ _
      · exact hmoves _ (by simp [hpc]) (by simp [hpc, stageOf]) _ _
  | asleep | failed | returned => exact hs
  | creating => exact hs.adderMoves (by simp [hpc]) (by simp [hpc, stageOf]) rfl id (by simp)
  | starting =>
    have hunborn := hcreation.unborn h (.inr hpc)
    exact hs.adderMoves (by simp [hpc]) (by simp [hpc, stageOf]) (by simp [hunborn, ItPc.view]) id
      .inl
  | relocked => exact hs.adderMoves (by simp [hpc]) (by simp [hpc, stageOf]) rfl (fun _ => rfl) .inl
  | assigning =>
    have hthread := hcreation.assigning h hpc
    exact hs.adderMoves (by simp [hpc]) (by simp [hpc, stageOf]) rfl id (fun _ => .inr hthread)
  | assigned =>
    have hadder : (s.adder h).wakeup = .assigned := by simp [hpc, AddPc.wakeup]
    exact hs.wakeup.adderMoves (by simp [hadder]) (by simp [hadder, stageOf]) rfl id .inl
  | failing =>
    have hidle := hs.remover_idle (h := h) (by simp [hpc])
    have hfrees := hs.frees h .failed (s.remover h) (fun hne => absurd hidle hne)
      (by simp [hpc, stageOf])
    rw [update_eq_self] at hfrees
    exact hfrees

/-- The ithread takes a handler off the list. -/
theorem Linked.itUnlinks (hit : s.it = .removeLocked h ihn) {uaf : Bool} :
    Linked { s with
      useAfterFree := uaf
      ieHandlers := s.ieHandlers.erase h
      it := .unlinked h ihn } := by
  have hview : s.it.view = ⟨h :: ihn.toList, some h, none⟩ := by rw [hit]; rfl
  have hdead := hs.dying h (by rw [hview])
  have hrefs := hs.refs
  have hnodup := hs.refs_nodup
  rw [hview] at hrefs hnodup
  obtain ⟨hnot, hnodup⟩ := List.nodup_cons.1 hnodup
  have hother (h' : η) (hne : h' ≠ h) : h' ∈ s.ieHandlers.erase h ↔ h' ∈ s.ieHandlers :=
    List.mem_erase_of_ne hne
  refine ⟨hs.nodup.erase h, hs.added, ?_, ?_, hnodup, by simp [ItPc.view], ?_, ?_, hs.thread⟩
  · intro h'
    have hfits := hs.fits h'
    simp only [HandlerFits, hview] at hfits
    by_cases heq : h' = h
    · subst heq
      -- it is marked dead, so the thread that removes it waits for this
      simp only [HandlerFits]
      rw [hdead] at hfits ⊢
      cases hstage : stageOf (s.adder h') (s.remover h') <;>
        simp_all [IntrStage.Fits, ItPc.view]
    · simp only [HandlerFits, hother h' heq, ItPc.view]
      simpa [Ne.symm heq] using hfits
  · intro h' hh'
    have hne : h' ≠ h := by
      rintro rfl
      exact hnot hh'
    exact (hother h' hne).2 (hrefs h' (List.mem_cons_of_mem h hh'))
  · intro h' hh'
    obtain rfl : h = h' := by simpa [ItPc.view] using hh'
    exact ⟨hs.nodup.not_mem_erase, hdead⟩
  · intro _
    exact hs.event (by rw [hview]; simp)

/-- It tells the thread that waits for this. -/
theorem Linked.itClears (hit : s.it = .unlinked h ihn) {uaf : Bool} :
    Linked { s with
      useAfterFree := uaf
      ih := update s.ih h { s.ih h with dead := false }
      it := .cleared ihn
      remover := update s.remover h (s.remover h).wakeup } := by
  have hview : s.it.view = ⟨ihn.toList, none, some h⟩ := by rw [hit]; rfl
  obtain ⟨hout, hdead⟩ := hs.unlinking h (by rw [hview])
  have hstage (h' : η) : stageOf (s.adder h')
      (update s.remover h (s.remover h).wakeup h') =
        stageOf (s.adder h') (s.remover h') := by
    by_cases heq : h' = h
    · subst heq
      rw [update_self]
      cases s.adder h' <;> cases s.remover h' <;> rfl
    · rw [update_of_ne heq]
  refine ⟨hs.nodup, ?_, ?_, ?_, ?_, by simp [ItPc.view], by simp [ItPc.view], ?_, hs.thread⟩
  · intro h' hh'
    by_cases heq : h' = h
    · subst heq
      apply hs.added
      intro hidle
      simp [hidle, RemovePc.wakeup] at hh'
    · exact hs.added h' (by simpa [heq] using hh')
  · intro h'
    have hfits := hs.fits h'
    simp only [HandlerFits, hview] at hfits
    simp only [HandlerFits, hstage]
    by_cases heq : h' = h
    · subst heq
      rw [hdead] at hfits
      rw [update_self]
      cases hstage : stageOf (s.adder h') (s.remover h') <;>
        simp_all [IntrStage.Fits]
    · rw [update_of_ne heq]
      simpa [ItPc.view, Ne.symm heq] using hfits
  · have hrefs := hs.refs
    rw [hview] at hrefs
    exact hrefs
  · have hnodup := hs.refs_nodup
    rw [hview] at hnodup
    exact hnodup
  · have hevent := hs.event
    rw [hview] at hevent
    exact hevent

theorem Linked.bodyStep (cfg : IntrConfig η) (hit : s.it = .body h ihn) :
    (s.bodyStep cfg h ihn).Linked := by
  have hview : s.it.view = ⟨h :: ihn.toList, none, none⟩ := by rw [hit]; rfl
  have hsame : (h :: ihn.toList).Sublist s.it.view.refs := by rw [hview]
  have hwalk : ihn.toList.Sublist s.it.view.refs := by
    rw [hview]
    exact List.sublist_cons_self h ihn.toList
  have hnone : none = s.it.view.unlinking := by rw [hview]
  unfold IntrEvent.bodyStep
  dsimp only
  split
  · next hdead =>
    refine hs.itDrops (.removing h ihn) hsame hnone ?_ fun _ => ⟨rfl, rfl⟩
    intro h' hh'
    obtain rfl : h = h' := by simpa [ItPc.view] using hh'
    exact hdead
  · split
    · exact hs.itDrops (.walk ihn) hwalk hnone (by simp [ItPc.view]) fun _ => ⟨rfl, rfl⟩
    · split
      · split
        · exact hs.itDrops (.exec h ihn) hsame hnone (by simp [ItPc.view])
            (update_need s.ih h false)
        · exact hs.itDrops (.walk ihn) hwalk hnone (by simp [ItPc.view]) fun _ => ⟨rfl, rfl⟩
      · exact hs.itDrops (.exec h ihn) hsame hnone (by simp [ItPc.view]) fun _ => ⟨rfl, rfl⟩

end

omit [DecidableEq η] in
theorem mem_of_handlersOfIe (s : IntrEvent η ι) (hh : h ∈ s.handlersOfIe) : h ∈ s.ieHandlers := by
  unfold handlersOfIe at hh
  split at hh
  · cases hh
  · exact hh

/-- The ithread reads `it_event`. -/
theorem Linked.itStarts (hs : s.Linked) {ie : ItEvent} (hit : s.it = .start)
    (hevent : s.itEvent = some ie) : Linked { s with it := .test, ie := ie } := by
  have htest : Linked { s with it := .test } :=
    hs.itDrops .test (by simp [ItPc.view]) (by rw [hit]; rfl) (by simp [ItPc.view])
      fun _ => ⟨rfl, rfl⟩
  refine { htest with event := by simp [ItPc.view], thread := ?_ }
  rintro (hie | hev)
  · exact hs.thread (.inr (hevent.trans (congrArg some hie)))
  · exact hs.thread (.inr hev)

/-- It begins a pass at the head of the list. -/
theorem Linked.itBegins (hs : s.Linked) (hit : s.it = .clear) {walked : List η} {due : η → Bool} :
    Linked { s with
      itNeed := false
      it := .walk s.handlersOfIe.head?
      walked := walked
      due := due } := by
  refine hs.itMoves _ (by rw [hit]; rfl) (by simp [ItPc.view]) ?_ ?_ ?_ fun _ => ⟨rfl, rfl⟩
  · intro h hh
    exact s.mem_of_handlersOfIe (List.mem_of_mem_head? (by simpa [ItPc.view] using hh))
  · cases s.handlersOfIe.head? <;> simp [ItPc.view]
  · intro hne
    cases hie : s.ie with
    | newborn => simp [ItPc.view, handlersOfIe, hie] at hne
    | event => rfl

/-- It comes to a handler and remembers the one after it. -/
theorem Linked.itLooks (hs : s.Linked) (hit : s.it = .walk (some h)) {uaf : Bool} {walked : List η}
    :
    Linked { s with
      useAfterFree := uaf
      it := .body h (after s.handlersOfIe h)
      walked := walked } := by
  have hevent := hs.event (by rw [hit]; simp [ItPc.view])
  have hmem := hs.refs h (by rw [hit]; simp [ItPc.view])
  have hafter (h' : η) (hh' : h' ∈ (after s.ieHandlers h).toList) :
      h' ∈ s.ieHandlers ∧ h' ≠ h :=
    mem_of_after hs.nodup hmem (by simpa using hh')
  have hlist : s.handlersOfIe = s.ieHandlers := by simp only [handlersOfIe, hevent]
  rw [hlist]
  refine hs.itMoves (.body h (after s.ieHandlers h)) (by rw [hit]; rfl) (by simp [ItPc.view]) ?_ ?_
    (fun _ => hevent) fun _ => ⟨rfl, rfl⟩
  · intro h' hh'
    rcases List.mem_cons.1 hh' with rfl | hh'
    · exact hmem
    · exact (hafter h' hh').1
  · refine List.nodup_cons.2 ⟨fun hh' => (hafter h hh').2 rfl, ?_⟩
    cases after s.ieHandlers h <;> simp

theorem Linked.itStep (hs : s.Linked) (cfg : IntrConfig η) : (s.itStep cfg).Linked := by
  -- most steps are to a place that names no handlers
  have hplain (it : ItPc η) (hit : it.view = ⟨[], none, none⟩)
      (hnow : s.it.view.unlinking = none) (need iwait : Bool)
      (ieLock tdLock : Option (IntrOwner η ι)) : Linked { s with
        it := it
        itNeed := need
        iwait := iwait
        ieLock := ieLock
        tdLock := tdLock } :=
    hs.itDrops it (by simp [hit]) (by rw [hit, hnow]) (by simp [hit]) fun _ => ⟨rfl, rfl⟩
  cases hpc : s.it with simp only [IntrEvent.itStep, hpc]
  | unborn => exact hs
  | start =>
    split
    · exact hs
    · next ie hevent => exact hs.itStarts hpc hevent
  | test => exact hplain _ (by split <;> rfl) (by rw [hpc]; rfl) _ _ _ _
  | clear => exact hs.itBegins hpc
  | walk ih =>
    cases ih with
    | none =>
      exact hplain _ rfl (by rw [hpc]; rfl) _ _ _ _
    | some h =>
      exact hs.itLooks hpc
  | body h ihn => exact hs.bodyStep cfg hpc
  | exec h ihn =>
    refine hs.itDrops _ ?_ (by rw [hpc]; rfl) (by simp [ItPc.view]) fun _ => ⟨rfl, rfl⟩
    rw [hpc]
    exact List.sublist_cons_self h ihn.toList
  | removing h ihn =>
    have hdead := hs.dying h (by rw [hpc]; rfl)
    simp only [IntrEvent.lockIe]
    split
    · refine hs.itDrops _ (by rw [hpc]; exact List.Sublist.refl _) (by rw [hpc]; rfl) ?_
        fun _ => ⟨rfl, rfl⟩
      intro h' hh'
      obtain rfl : h = h' := by simpa [ItPc.view] using hh'
      exact hdead
    · exact hs
  | removeLocked h ihn => exact hs.itUnlinks hpc
  | unlinked h ihn => exact hs.itClears hpc
  | cleared ihn =>
    exact hs.itDrops _ (by rw [hpc]; exact List.Sublist.refl _) (by rw [hpc]; rfl)
      (by simp [ItPc.view]) fun _ => ⟨rfl, rfl⟩
  | lockTd | woken =>
    simp only [IntrEvent.lockTd]
    split
    · exact hplain _ rfl (by rw [hpc]; rfl) _ _ _ _
    · exact hs
  | tdLocked =>
    split
    · exact hplain _ rfl (by rw [hpc]; rfl) _ _ _ _
    · exact hplain _ rfl (by rw [hpc]; rfl) _ _ _ _
  | waiting signal =>
    split
    · exact hplain _ rfl (by rw [hpc]; rfl) _ _ _ _
    · exact hs
  | unlockTd => exact hplain _ rfl (by rw [hpc]; rfl) _ _ _ _

omit [DecidableEq η] in
theorem view_cvSignal (it : ItPc η) : it.cvSignal.view = it.view := by
  cases it <;> rfl

theorem Creation.removeStep (hs : s.Creation) (h : η) : (s.removeStep h).Creation := by
  cases hpc : s.remover h <;>
    simp only [IntrEvent.removeStep, hpc, lockIe, IntrEvent.lockTd] <;> (try split) <;>
    first
      | exact hs
      | exact hs.keep rfl rfl rfl id

theorem Creation.bodyStep (hs : s.Creation) (cfg : IntrConfig η) (hit : s.it = .body h ihn) :
    (s.bodyStep cfg h ihn).Creation := by
  have hborn : s.it = .unborn → False := by simp [hit]
  unfold IntrEvent.bodyStep
  dsimp only
  repeat' split
  all_goals exact hs.keep rfl rfl rfl fun hunborn => (hborn hunborn).elim

theorem Creation.itStep (hs : s.Creation) (cfg : IntrConfig η) : (s.itStep cfg).Creation := by
  by_cases hunborn : s.it = .unborn
  · simpa only [IntrEvent.itStep, hunborn] using hs
  have hkeep {s' : IntrEvent η ι} (hadder : s'.adder = s.adder) (hadding : s'.adding = s.adding)
      (hthread : s'.ieThread = s.ieThread) : s'.Creation :=
    hs.keep hadder hadding hthread fun hit => absurd hit hunborn
  cases hpc : s.it with
  | body h ihn => simpa only [IntrEvent.itStep, hpc] using hs.bodyStep cfg hpc
  | walk ih =>
    cases ih <;> simp only [IntrEvent.itStep, hpc] <;> exact hkeep rfl rfl rfl
  | _ =>
    simp only [IntrEvent.itStep, hpc, lockIe, IntrEvent.lockTd]
    (try split) <;> exact hkeep rfl rfl rfl

variable [DecidableEq ι]

theorem Linked.swiStep (hs : s.Linked) (i : ι) : (s.swiStep i).Linked := by
  have hsame (h : η) : (s.ih h).dead = (s.ih h).dead ∧ (s.ih h).freed = (s.ih h).freed :=
    ⟨rfl, rfl⟩
  cases hpc : s.caller i with simp only [IntrEvent.swiStep, hpc]
  | idle => exact hs
  | called h delay => exact hs.callerMoves (update_need s.ih h true) rfl
  | schedule =>
    split
    · exact hs.callerMoves hsame rfl
    · exact hs.callerMoves hsame rfl
  | setNeed | unlockTd => exact hs.callerMoves hsame rfl
  | lockTd =>
    simp only [IntrEvent.lockTd]
    split
    · exact hs.callerMoves hsame rfl
    · exact hs
  | tdLocked =>
    split
    · exact hs.callerMoves hsame (view_cvSignal s.it)
    · exact hs.callerMoves hsame rfl

theorem Creation.swiStep (hs : s.Creation) (i : ι) : (s.swiStep i).Creation := by
  have hsignal : s.it = .unborn → s.it.cvSignal = .unborn := by
    intro hit
    rw [hit]
    rfl
  cases hpc : s.caller i <;>
    simp only [IntrEvent.swiStep, hpc, IntrEvent.lockTd] <;> (try split) <;>
    first
      | exact hs
      | exact hs.keep rfl rfl rfl id
      | exact hs.keep rfl rfl rfl hsignal

/-- What holds of every interleaving. -/
structure Sound (s : IntrEvent η ι) : Prop where
  linked : s.Linked
  creation : s.Creation

theorem Sound.step (hs : s.Sound) (cfg : IntrConfig η) (op : IntrOp η ι) :
    (s.step cfg op).Sound := by
  cases op with simp only [IntrEvent.step]
  | add h => exact ⟨hs.linked.addStep hs.creation cfg h, hs.creation.addStep cfg h⟩
  | remove h => exact ⟨hs.linked.removeStep h, hs.creation.removeStep h⟩
  | sched i h delay =>
    split
    · exact ⟨hs.linked.callerMoves (fun _ => ⟨rfl, rfl⟩) rfl, hs.creation.keep rfl rfl rfl id⟩
    · exact hs
  | swi i => exact ⟨hs.linked.swiStep i, hs.creation.swiStep i⟩
  | ithread => exact ⟨hs.linked.itStep cfg, hs.creation.itStep cfg⟩
  | rouseAdd h =>
    split
    · next hpc =>
      exact ⟨hs.linked.adderMoves (by simp [hpc]) (by simp [hpc, stageOf]) rfl id .inl,
        hs.creation.passes rfl ⟨id, by simp⟩ rfl rfl rfl⟩
    · exact hs
  | rouseRemove h =>
    split
    · next hpc =>
      exact ⟨hs.linked.removerMoves (hs.linked.added h (by simp [hpc]))
        (by simp [hpc, RemovePc.stage]), hs.creation.keep rfl rfl rfl id⟩
    · exact hs
  | rouse =>
    split
    · next signal hpc =>
      refine ⟨hs.linked.callerMoves (fun _ => ⟨rfl, rfl⟩) (by rw [hpc]; rfl),
        hs.creation.keep rfl rfl rfl ?_⟩
      intro hunborn
      rw [hunborn] at hpc
      cases hpc
    · exact hs

omit [DecidableEq ι] in
theorem sound_create : (create : IntrEvent η ι).Sound := ⟨linked_create, creation_create⟩

end IntrEvent
end Libuinet
