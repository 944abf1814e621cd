import Libuinet.IntrLinked

namespace Libuinet

open Execution ListSweep

def ItPc.next {η : Type*} : ItPc η → Option (Option η)
  | .walk ih => some ih
  | .body _ ihn | .exec _ ihn | .removing _ ihn | .removeLocked _ ihn | .unlinked _ ihn
  | .cleared ihn => some ihn
  | _ => none

def ItPc.cur {η : Type*} : ItPc η → Option η
  | .body ih _ | .exec ih _ | .removing ih _ | .removeLocked ih _ => some ih
  | _ => none

def ItPc.Started {η : Type*} : ItPc η → Prop
  | .unborn | .start => False
  | _ => True

def ItPc.SameWalk {η : Type*} (it it' : ItPc η) : Prop :=
  (∀ p, it'.next = some p → it.next = some p) ∧ (∀ h, it'.cur = some h → it.cur = some h) ∧
    (it'.Started ↔ it.Started)

namespace IntrEvent

variable {η ι : Type*}

/-- The ithread works for the event it was created for, and a pass that ends has walked over every
handler that was on the event when it began. -/
def Serves (s : IntrEvent η ι) : Prop :=
  (s.it.Started → s.ie = .event) ∧ (s.it = .walk none → ∀ h, s.due h = true → h ∈ s.walked)

/-- When the ithread reads `it_event`, it has been told of the event. -/
def ReadsEvent (s : IntrEvent η ι) : IntrOp η ι → Prop
  | .ithread => s.it = .start → s.itEvent ≠ some .newborn
  | _ => True

/-- What a walk of the ithread keeps. -/
structure Serving (s : IntrEvent η ι) : Prop where
  event : s.it.Started → s.ie = .event
  began : ∀ h, s.due h = true → s.it.Started ∧ s.adder h = .returned
  kept : ∀ h, s.due h = true → h ∈ s.walked ∨ h ∈ s.ieHandlers
  current : ∀ h, s.it.cur = some h → h ∈ s.walked
  swept : ∀ p, s.it.next = some p →
    Sweep s.ieHandlers p fun h => s.due h = true → h ∈ s.walked

variable {s s' : IntrEvent η ι}

theorem serving_create : (create : IntrEvent η ι).Serving := by
  constructor <;> simp [create, ItPc.Started, ItPc.next, ItPc.cur]

theorem Serving.serves (hs : s.Serving) : s.Serves := by
  refine ⟨hs.event, ?_⟩
  intro hit h hh
  have hdone := (hs.swept none (by simp [hit, ItPc.next])).all
  rcases hs.kept h hh with hwalked | hlisted
  · exact hwalked
  · exact hdone h hlisted hh

/-- A step that leaves the walk and the list alone. -/
theorem Serving.keep (hs : s.Serving) (hlist : s'.ieHandlers = s.ieHandlers)
    (hit : s.it.SameWalk s'.it) (hie : s'.ie = s.ie) (hdue : s'.due = s.due)
    (hwalked : s'.walked = s.walked)
    (hadder : ∀ h, s.adder h = .returned → s'.adder h = .returned) : s'.Serving := by
  obtain ⟨hnext, hcur, hstarted⟩ := hit
  refine ⟨?_, ?_, ?_, ?_, ?_⟩
  · rw [hstarted, hie]
    exact hs.event
  · rw [hdue]
    exact fun h hh => ⟨hstarted.2 (hs.began h hh).1, hadder h (hs.began h hh).2⟩
  · rw [hdue, hwalked, hlist]
    exact hs.kept
  · rw [hwalked]
    exact fun h hh => hs.current h (hcur h hh)
  · rw [hlist, hdue, hwalked]
    exact fun p hp => hs.swept p (hnext p hp)

theorem sameWalk_refl (it : ItPc η) : it.SameWalk it := ⟨fun _ => id, fun _ => id, Iff.rfl⟩

theorem sameWalk_cvSignal (it : ItPc η) : it.SameWalk it.cvSignal := by
  cases it <;> exact ⟨fun _ => id, fun _ => id, Iff.rfl⟩

/-- The ithread reads `it_event` after it was told of the event. -/
theorem Serving.itStarts (hs : s.Serving) (hit : s.it = .start) :
    Serving { s with it := .test, ie := .event } := by
  have hnone (h : η) (hh : s.due h = true) : False := by
    simpa [hit, ItPc.Started] using (hs.began h hh).1
  exact ⟨fun _ => rfl, fun h hh => (hnone h hh).elim, fun h hh => (hnone h hh).elim,
    by simp [ItPc.cur], by simp [ItPc.next]⟩

variable [DecidableEq η]

theorem Serving.addStep (hs : s.Serving) (hsound : s.Sound) (cfg : IntrConfig η) (h : η) :
    (s.addStep cfg h).Serving := by
  have hreturned (pc : AddPc) (hne : s.adder h ≠ .returned) (h' : η)
      (hh' : s.adder h' = .returned) : Function.update s.adder h pc h' = .returned := by
    have hhh : h' ≠ h := by
      rintro rfl
      exact hne hh'
    rwa [Function.update_of_ne hhh]
  cases hpc : s.adder h with
  | locked =>
    have hne : s.adder h ≠ .returned := by simp [hpc]
    simp only [IntrEvent.addStep, hpc]
    split
    · exact hs.keep rfl (sameWalk_refl _) rfl rfl rfl (hreturned _ hne)
    · -- the new handler was not on the event when the pass began
      have hfresh : s.due h = true → h ∈ s.walked := fun hdue =>
        absurd (hs.began h hdue).2 hne
      obtain ⟨pre, suf, hlist, hinsert⟩ := cfg.insertHandler_eq s.ieHandlers h
      refine ⟨hs.event, ?_, ?_, hs.current, ?_⟩
      · exact fun h' hh' => ⟨(hs.began h' hh').1, hreturned _ hne h' (hs.began h' hh').2⟩
      · intro h' hh'
        rcases hs.kept h' hh' with hwalked | hlisted
        · exact .inl hwalked
        · exact .inr (cfg.mem_insertHandler.2 (.inr hlisted))
      · intro p hp
        have hswept := hs.swept p hp
        rw [hlist] at hswept
        have hput := hswept.insert hfresh
        rw [← hinsert] at hput
        exact hput
  | starting =>
    have hunborn := hsound.creation.unborn h (.inr hpc)
    have hnone (h' : η) : s.due h' = false := by
      by_contra hdue
      have hstarted := (hs.began h' (by simpa using hdue)).1
      simp [hunborn, ItPc.Started] at hstarted
    simp only [IntrEvent.addStep, hpc]
    refine ⟨by simp [ItPc.Started], ?_, ?_, by simp [ItPc.cur], by simp [ItPc.next]⟩
    · intro h' hh'
      have hh' : s.due h' = true := hh'
      simp [hnone] at hh'
    · intro h' hh'
      have hh' : s.due h' = true := hh'
      simp [hnone] at hh'
  | assigned =>
    simp only [IntrEvent.addStep, hpc]
    refine hs.keep rfl (sameWalk_refl _) rfl rfl rfl ?_
    intro h' hh'
    have hhh : h' ≠ h := by
      rintro rfl
      simp [hpc] at hh'
    dsimp only
    rw [Function.update_of_ne hhh, hh']
    rfl
  | _ =>
    simp only [IntrEvent.addStep, hpc, lockIe]
    (repeat' split) <;>
      first
        | exact hs
        | exact hs.keep rfl (sameWalk_refl _) rfl rfl rfl (hreturned _ (by simp [hpc]))

theorem Serving.removeStep (hs : s.Serving) (hsound : s.Sound) (h : η) :
    (s.removeStep h).Serving := by
  cases hpc : s.remover h with
  | locked =>
    simp only [IntrEvent.removeStep, hpc]
    split
    · exact hs.keep rfl (sameWalk_refl _) rfl rfl rfl fun _ => id
    · next hthread =>
      -- without an ithread there is no walk
      have hnot : ¬ s.it.Started := fun hstarted =>
        hthread (hsound.linked.thread (.inl (hs.event hstarted)))
      refine { hs with kept := ?_, swept := ?_ }
      · exact fun h' hh' => absurd (hs.began h' hh').1 hnot
      · intro p hp
        exfalso
        apply hnot
        have hp : s.it.next = some p := hp
        cases hit : s.it <;> simp_all [ItPc.next, ItPc.Started]
  | _ =>
    simp only [IntrEvent.removeStep, hpc, lockIe, IntrEvent.lockTd]
    (repeat' split) <;>
      first
        | exact hs
        | exact hs.keep rfl (sameWalk_refl _) rfl rfl rfl fun _ => id

theorem Serving.bodyStep (hs : s.Serving) (cfg : IntrConfig η) {h : η} {ihn : Option η}
    (hit : s.it = .body h ihn) : (s.bodyStep cfg h ihn).Serving := by
  have hremoving : s.it.SameWalk (.removing h ihn) := by rw [hit]; exact sameWalk_refl _
  have hexec : s.it.SameWalk (.exec h ihn) := by rw [hit]; exact sameWalk_refl _
  have hwalk : s.it.SameWalk (.walk ihn) := by
    rw [hit]
    exact ⟨fun _ => id, by simp [ItPc.cur], Iff.rfl⟩
  unfold IntrEvent.bodyStep
  dsimp only
  repeat' split
  · exact hs.keep rfl hremoving rfl rfl rfl fun _ => id
  · exact hs.keep rfl hwalk rfl rfl rfl fun _ => id
  · exact hs.keep rfl hexec rfl rfl rfl fun _ => id
  · exact hs.keep rfl hwalk rfl rfl rfl fun _ => id
  · exact hs.keep rfl hexec rfl rfl rfl fun _ => id

/-- A handler that was added and is not being removed is on the list. -/
theorem Linked.mem_of_returned (hs : s.Linked) {h : η} (hadder : s.adder h = .returned)
    (hremover : s.remover h = .idle) : h ∈ s.ieHandlers := by
  have hfits := hs.fits h
  simp only [HandlerFits, hadder, hremover, stageOf, RemovePc.stage, IntrStage.Fits,
    decide_eq_true_eq] at hfits
  exact hfits.1

/-- A pass begins at the head of the list, and every handler that is due is on it. -/
theorem Serving.itBegins (hs : s.Serving) (hlinked : s.Linked) (hit : s.it = .clear) :
    Serving { s with
      itNeed := false
      it := .walk s.handlersOfIe.head?
      walked := []
      due := fun h => decide (s.adder h = .returned ∧ s.remover h = .idle) } := by
  have hevent := hs.event (by simp [hit, ItPc.Started])
  have hlist : s.handlersOfIe = s.ieHandlers := by simp only [handlersOfIe, hevent]
  refine ⟨fun _ => hevent, ?_, ?_, by simp [ItPc.cur], ?_⟩
  · intro h hh
    exact ⟨trivial, (of_decide_eq_true hh).1⟩
  · intro h hh
    obtain ⟨hadder, hremover⟩ := of_decide_eq_true hh
    exact .inr (hlinked.mem_of_returned hadder hremover)
  · intro p hp
    obtain rfl : s.ieHandlers.head? = p := by simpa [ItPc.next, hlist] using hp
    exact sweep_head _ _

/-- It comes to a handler, which it has walked over from then on. -/
theorem Serving.itLooks (hs : s.Serving) (hnodup : s.ieHandlers.Nodup) {h : η}
    (hit : s.it = .walk (some h)) {uaf : Bool} :
    Serving { s with
      useAfterFree := uaf
      it := .body h (after s.handlersOfIe h)
      walked := h :: s.walked } := by
  have hevent := hs.event (by simp [hit, ItPc.Started])
  have hlist : s.handlersOfIe = s.ieHandlers := by simp only [handlersOfIe, hevent]
  have hswept := hs.swept (some h) (by simp [hit, ItPc.next])
  refine ⟨fun _ => hevent, ?_, ?_, ?_, ?_⟩
  · exact fun h' hh' => ⟨trivial, (hs.began h' hh').2⟩
  · exact fun h' hh' => (hs.kept h' hh').imp_left (List.mem_cons_of_mem h)
  · intro h' hh'
    obtain rfl : h = h' := by simpa [ItPc.cur] using hh'
    exact List.mem_cons_self
  · intro p hp
    obtain rfl : after s.ieHandlers h = p := by simpa [ItPc.next, hlist] using hp
    have hnow : Sweep s.ieHandlers (some h) fun h' => s.due h' = true → h' ∈ h :: s.walked :=
      hswept.imp fun h' _ hdone hdue => List.mem_cons_of_mem h (hdone hdue)
    exact hnow.skip hnodup fun _ => List.mem_cons_self

/-- It takes a handler off the list that it has walked over, and not the next one. -/
theorem Serving.itUnlinks (hs : s.Serving) (hlinked : s.Linked) {h : η} {ihn : Option η}
    (hit : s.it = .removeLocked h ihn) {uaf : Bool} :
    Serving { s with
      useAfterFree := uaf
      ieHandlers := s.ieHandlers.erase h
      it := .unlinked h ihn } := by
  have hwalked := hs.current h (by simp [hit, ItPc.cur])
  have hswept := hs.swept ihn (by simp [hit, ItPc.next])
  have hne : ihn ≠ some h := by
    have hrefs := hlinked.refs_nodup
    rw [hit] at hrefs
    rintro rfl
    simp [ItPc.view] at hrefs
  refine ⟨fun _ => hs.event (by simp [hit, ItPc.Started]), ?_, ?_, by simp [ItPc.cur], ?_⟩
  · exact fun h' hh' => ⟨trivial, (hs.began h' hh').2⟩
  · intro h' hh'
    by_cases heq : h' = h
    · subst heq
      exact .inl hwalked
    · exact (hs.kept h' hh').imp_right (List.mem_erase_of_ne heq).2
  · intro p hp
    obtain rfl : ihn = p := by simpa [ItPc.next] using hp
    have herase := hswept.erase hlinked.nodup h
    rw [if_neg hne] at herase
    exact herase

theorem Serving.itStep (hs : s.Serving) (hsound : s.Sound) (cfg : IntrConfig η)
    (hreads : s.it = .start → s.itEvent ≠ some .newborn) : (s.itStep cfg).Serving := by
  -- steps outside the walk, and those that only leave a handler
  have hkeep (it : ItPc η) (hit : s.it.SameWalk it) {s' : IntrEvent η ι}
      (hlist : s'.ieHandlers = s.ieHandlers) (hit' : s'.it = it) (hie : s'.ie = s.ie)
      (hdue : s'.due = s.due) (hwalked : s'.walked = s.walked) (hadder : s'.adder = s.adder) :
      s'.Serving :=
    hs.keep hlist (hit' ▸ hit) hie hdue hwalked fun h hh => by rwa [hadder]
  cases hpc : s.it with simp only [IntrEvent.itStep, hpc, lockIe, IntrEvent.lockTd]
  | unborn => exact hs
  | start =>
    split
    · exact hs
    · next ie hie =>
      cases ie with
      | newborn => exact absurd hie (hreads hpc)
      | event => exact hs.itStarts hpc
  | test =>
    refine hkeep _ ?_ rfl rfl rfl rfl rfl rfl
    rw [hpc]
    split <;> exact ⟨fun _ => id, fun _ => id, Iff.rfl⟩
  | clear => exact hs.itBegins hsound.linked hpc
  | walk ih =>
    cases ih with
    | none =>
      refine hkeep .test ?_ rfl rfl rfl rfl rfl rfl
      rw [hpc]
      exact ⟨by simp [ItPc.next], by simp [ItPc.cur], Iff.rfl⟩
    | some h => exact hs.itLooks hsound.linked.nodup hpc
  | body h ihn => exact hs.bodyStep cfg hpc
  | exec h ihn =>
    refine hkeep (.walk ihn) ?_ rfl rfl rfl rfl rfl rfl
    rw [hpc]
    exact ⟨fun _ => id, by simp [ItPc.cur], Iff.rfl⟩
  | removing h ihn =>
    split
    · refine hkeep (.removeLocked h ihn) ?_ rfl rfl rfl rfl rfl rfl
      rw [hpc]
      exact sameWalk_refl _
    · exact hs
  | removeLocked h ihn => exact hs.itUnlinks hsound.linked hpc
  | unlinked h ihn =>
    refine hkeep (.cleared ihn) ?_ rfl rfl rfl rfl rfl rfl
    rw [hpc]
    exact ⟨fun _ => id, fun _ => id, Iff.rfl⟩
  | cleared ihn =>
    refine hkeep (.walk ihn) ?_ rfl rfl rfl rfl rfl rfl
    rw [hpc]
    exact ⟨fun _ => id, fun _ => id, Iff.rfl⟩
  | _ =>
    (repeat' split) <;>
      first
        | exact hs
        | exact hkeep _ (by rw [hpc]; exact ⟨fun _ => id, fun _ => id, Iff.rfl⟩)
            rfl rfl rfl rfl rfl rfl

variable [DecidableEq ι]

theorem Serving.swiStep (hs : s.Serving) (i : ι) : (s.swiStep i).Serving := by
  cases hpc : s.caller i <;> simp only [IntrEvent.swiStep, hpc, IntrEvent.lockTd] <;>
    (repeat' split) <;>
    first
      | exact hs
      | exact hs.keep rfl (sameWalk_refl _) rfl rfl rfl fun _ => id
      | exact hs.keep rfl (sameWalk_cvSignal _) rfl rfl rfl fun _ => id

theorem Serving.step (hs : s.Serving) (hsound : s.Sound) (cfg : IntrConfig η) {op : IntrOp η ι}
    (hop : s.ReadsEvent op) : (s.step cfg op).Serving := by
  cases op with simp only [IntrEvent.step]
  | add h => exact hs.addStep hsound cfg h
  | remove h => exact hs.removeStep hsound h
  | swi i => exact hs.swiStep i
  | ithread => exact hs.itStep hsound cfg hop
  | rouseAdd h =>
    split
    · next hpc =>
      refine hs.keep rfl (sameWalk_refl _) rfl rfl rfl ?_
      intro h' hh'
      have hne : h' ≠ h := by
        rintro rfl
        simp [hpc] at hh'
      simpa [setAdder, hne] using hh'
    · exact hs
  | rouse =>
    split
    · next signal hpc =>
      refine hs.keep rfl ?_ rfl rfl rfl fun _ => id
      rw [hpc]
      exact ⟨fun _ => id, fun _ => id, Iff.rfl⟩
    · exact hs
  | _ =>
    split
    · exact hs.keep rfl (sameWalk_refl _) rfl rfl rfl fun _ => id
    · exact hs

end IntrEvent

/-- The ithread serves the event it was created for, in every state of a run, exactly when it reads
`it_event` after `intr_event_add_handler` has set it. -/
theorem ithread_serves_iff {η ι : Type*} [DecidableEq η] [DecidableEq ι] (cfg : IntrConfig η)
    (l : List (IntrOp η ι)) :
    (∀ pre, pre <+: l → (run (IntrEvent.step cfg) IntrEvent.create pre).Serves) ↔
      Along (IntrEvent.step cfg) IntrEvent.ReadsEvent IntrEvent.create l := by
  apply along_iff_of_step_iff (I := fun s => s.Sound ∧ s.Serving)
  · exact fun hs op hop => ⟨hs.1.step cfg op, hs.2.step hs.1 cfg hop⟩
  · intro s op hs
    constructor
    · intro hserves
      cases op with
      | ithread =>
        intro hstart hnewborn
        have hread : (s.step cfg .ithread).it.Started ∧ (s.step cfg .ithread).ie = .newborn := by
          simp [IntrEvent.step, IntrEvent.itStep, hstart, hnewborn, ItPc.Started]
        simpa [hread.2] using hserves.1 hread.1
      | _ => trivial
    · exact fun hop => (hs.2.step hs.1 cfg hop).serves
  · exact fun s hs => hs.2.serves
  · exact ⟨IntrEvent.sound_create, IntrEvent.serving_create⟩

/-- The ithread reads `it_event` as soon as it is started.  Its pass for the handler that was added
and scheduled then walks over nothing. -/
theorem ithread_serves_newborn :
    let cfg : IntrConfig Unit :=
      { soft := true
        handler := fun _ => true
        excl := fun _ => false
        pri := fun _ => 0 }
    let s := run (IntrEvent.step cfg) (IntrEvent.create : IntrEvent Unit Unit)
      (List.replicate 6 (.add ()) ++ [.ithread] ++ List.replicate 5 (.add ()) ++
        [.sched () () false] ++ List.replicate 6 (.swi ()) ++ List.replicate 2 .ithread)
    s.adder () = .returned ∧ s.ieHandlers = [()] ∧ (s.ih ()).need = true ∧ s.ieThread = true ∧
      s.it = .walk none ∧ s.ie = .newborn ∧ s.due () = true ∧ s.walked = [] := by
  decide +kernel

end Libuinet
