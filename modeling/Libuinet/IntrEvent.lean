import Mathlib.Tactic.Common
import Libuinet.Execution
import Libuinet.ListSweep

namespace Libuinet

open Execution ListSweep

/-- What `it_event` points to: `ithread_create` starts the thread with an event of its own. -/
inductive ItEvent where
  | newborn
  | event
  deriving DecidableEq

/-- The parts of `struct intr_handler` that change, and how often it was freed. -/
structure IntrHandler where
  dead : Bool := false
  need : Bool := false
  freed : ℕ := 0
  deriving DecidableEq

/-- What an event and its handlers are set up with: `IE_SOFT`, whether `ih_handler` is not null,
`INTR_EXCL` and the priority. -/
structure IntrConfig (η : Type*) where
  soft : Bool
  handler : η → Bool
  excl : η → Bool
  pri : η → ℕ

/-- Where `intr_event_add_handler` is. -/
inductive AddPc where
  | idle
  | called
  /-- it holds `ie_lock`, also in `loop` -/
  | locked
  | loop
  /-- in `msleep` -/
  | asleep
  | awake
  /-- in `ithread_create`, up to `created` -/
  | creating
  | starting
  | created
  /-- it holds `ie_lock` again, up to the next `loop` -/
  | relocked
  | assigning
  | assigned
  /-- it returns `EINVAL` -/
  | failing
  | failed
  | returned
  deriving DecidableEq

/-- Where `intr_event_remove_handler` is.  From the test on it carries whether the ithread was
found waiting for interrupts. -/
inductive RemovePc where
  | idle
  | called
  /-- it holds `ie_lock`, up to `unlockIe` except in `msleep` -/
  | locked
  | lockTd
  | tdLocked
  | unlockTd (awaiting : Bool)
  | loop (awaiting : Bool)
  /-- in `msleep` -/
  | asleep
  | awake
  | unlockIe (awaiting : Bool)
  | free (awaiting : Bool)
  | returned (awaiting : Bool)
  deriving DecidableEq

inductive SchedPc (η : Type*) where
  | idle
  | called (h : η) (delay : Bool)
  | schedule
  | setNeed
  | lockTd
  | tdLocked
  | unlockTd
  deriving DecidableEq

inductive ItPc (η : Type*) where
  | unborn
  | start
  /-- the test of `it_need` -/
  | test
  | clear
  /-- the loop over the handlers, with the next one -/
  | walk (ih : Option η)
  | body (ih : η) (ihn : Option η)
  | exec (ih : η) (ihn : Option η)
  /-- it takes `ie_lock` to take the handler off the list -/
  | removing (ih : η) (ihn : Option η)
  | removeLocked (ih : η) (ihn : Option η)
  | unlinked (ih : η) (ihn : Option η)
  | cleared (ihn : Option η)
  /-- it takes its `td_lock` -/
  | lockTd
  | tdLocked
  | waiting (signal : Bool)
  | woken
  | unlockTd
  deriving DecidableEq

inductive IntrOwner (η ι : Type*) where
  | adder (h : η)
  | remover (h : η)
  | caller (i : ι)
  | ithread
  deriving DecidableEq

/-- An event, its ithread, and the threads that add and remove the handlers `η` and that call
`swi_sched`. -/
structure IntrEvent (η ι : Type*) where
  ieHandlers : List η
  ih : η → IntrHandler
  /-- `IE_ADDING_THREAD` -/
  adding : Bool
  ieThread : Bool
  ieLock : Option (IntrOwner η ι)
  itEvent : Option ItEvent
  itNeed : Bool
  tdLock : Option (IntrOwner η ι)
  /-- `TD_AWAITING_INTR` -/
  iwait : Bool
  it : ItPc η
  /-- the local `ie` of the ithread -/
  ie : ItEvent
  adder : η → AddPc
  remover : η → RemovePc
  caller : ι → SchedPc η
  /-- the ithread has looked at a handler that is free -/
  useAfterFree : Bool
  /-- the handlers the pass has walked over -/
  walked : List η
  /-- the handlers that were on the event when the pass began -/
  due : η → Bool

inductive IntrOp (η ι : Type*) where
  /-- the next step of `intr_event_add_handler` for the handler -/
  | add (h : η)
  /-- the next step of `intr_event_remove_handler` for the handler -/
  | remove (h : η)
  /-- a thread calls `swi_sched` -/
  | sched (i : ι) (h : η) (delay : Bool)
  /-- the next step of its call -/
  | swi (i : ι)
  /-- the next step of the ithread -/
  | ithread
  /-- a wait ends with no reason -/
  | rouseAdd (h : η)
  | rouseRemove (h : η)
  | rouse

namespace IntrConfig

variable {η : Type*} (cfg : IntrConfig η)

/-- The new handler is put in front of the first one of lower priority. -/
def insertHandler (l : List η) (h : η) : List η :=
  l.takeWhile (fun t => cfg.pri t ≤ cfg.pri h) ++ h :: l.dropWhile (fun t => cfg.pri t ≤ cfg.pri h)

theorem insertHandler_eq (l : List η) (h : η) :
    ∃ pre suf, l = pre ++ suf ∧ cfg.insertHandler l h = pre ++ h :: suf :=
  ⟨_, _, List.takeWhile_append_dropWhile.symm, rfl⟩

theorem mem_insertHandler {l : List η} {h h' : η} :
    h' ∈ cfg.insertHandler l h ↔ h' = h ∨ h' ∈ l := by
  obtain ⟨pre, suf, rfl, heq⟩ := cfg.insertHandler_eq l h
  rw [heq, List.mem_append, List.mem_append, List.mem_cons]
  tauto

theorem nodup_insertHandler {l : List η} {h : η} (hl : l.Nodup) (hh : h ∉ l) :
    (cfg.insertHandler l h).Nodup := by
  obtain ⟨pre, suf, rfl, heq⟩ := cfg.insertHandler_eq l h
  rw [heq, List.nodup_middle]
  exact List.nodup_cons.2 ⟨hh, hl⟩

def excludes (l : List η) (h : η) : Bool :=
  match l.head? with
  | none => false
  | some first => cfg.excl h || cfg.excl first

end IntrConfig

def AddPc.wakeup : AddPc → AddPc
  | .asleep => .awake
  | pc => pc

def RemovePc.wakeup : RemovePc → RemovePc
  | .asleep => .awake
  | pc => pc

def ItPc.cvSignal {η : Type*} : ItPc η → ItPc η
  | .waiting _ => .waiting true
  | pc => pc

namespace IntrEvent

variable {η ι : Type*} [DecidableEq η] [DecidableEq ι] (cfg : IntrConfig η)

def create : IntrEvent η ι where
  ieHandlers := []
  ih := fun _ => {}
  adding := false
  ieThread := false
  ieLock := none
  itEvent := none
  itNeed := false
  tdLock := none
  iwait := false
  it := .unborn
  ie := .newborn
  adder := fun _ => .idle
  remover := fun _ => .idle
  caller := fun _ => .idle
  useAfterFree := false
  walked := []
  due := fun _ => false

variable (s : IntrEvent η ι)

def setAdder (h : η) (pc : AddPc) : IntrEvent η ι :=
  { s with adder := Function.update s.adder h pc }

def setRemover (h : η) (pc : RemovePc) : IntrEvent η ι :=
  { s with remover := Function.update s.remover h pc }

def setCaller (i : ι) (pc : SchedPc η) : IntrEvent η ι :=
  { s with caller := Function.update s.caller i pc }

def setHandler (h : η) (ih : IntrHandler) : IntrEvent η ι :=
  { s with ih := Function.update s.ih h ih }

def free (h : η) : IntrEvent η ι :=
  s.setHandler h { s.ih h with freed := (s.ih h).freed + 1 }

def inspect (h : η) : IntrEvent η ι :=
  { s with useAfterFree := s.useAfterFree || decide (0 < (s.ih h).freed) }

def lockIe (owner : IntrOwner η ι) (s' : IntrEvent η ι) : IntrEvent η ι :=
  if s.ieLock = none then { s' with ieLock := some owner } else s

def lockTd (owner : IntrOwner η ι) (s' : IntrEvent η ι) : IntrEvent η ι :=
  if s.tdLock = none then { s' with tdLock := some owner } else s

def unlockIe : IntrEvent η ι := { s with ieLock := none }

def unlockTd : IntrEvent η ι := { s with tdLock := none }

/-- One step of `intr_event_add_handler` and of the `ithread_create` in it. -/
def addStep (h : η) : IntrEvent η ι :=
  match s.adder h with
  | .idle => s.setAdder h .called
  | .called => s.lockIe (.adder h) (s.setAdder h .locked)
  | .locked =>
    if cfg.excludes s.ieHandlers h then (s.setAdder h .failing).unlockIe
    else { s.setAdder h .loop with ieHandlers := cfg.insertHandler s.ieHandlers h }
  | .loop =>
    if s.ieThread || !cfg.handler h then (s.setAdder h .returned).unlockIe
    else if s.adding then (s.setAdder h .asleep).unlockIe
    else { (s.setAdder h .creating).unlockIe with adding := true }
  | .asleep => s
  | .awake => s.lockIe (.adder h) (s.setAdder h .loop)
  | .creating => { s.setAdder h .starting with itEvent := some .newborn }
  -- the thread runs at once
  | .starting => { s.setAdder h .created with it := .start }
  | .created => s.lockIe (.adder h) (s.setAdder h .relocked)
  | .relocked => { s.setAdder h .assigning with adding := false, ieThread := true }
  | .assigning => { s.setAdder h .assigned with itEvent := some .event }
  | .assigned => { s with adder := Function.update (fun h' => (s.adder h').wakeup) h .loop }
  | .failing => (s.setAdder h .failed).free h
  | .failed | .returned => s

/-- One step of `intr_event_remove_handler`, for a handler that was added. -/
def removeStep (h : η) : IntrEvent η ι :=
  match s.remover h with
  | .idle => if s.adder h = .returned then s.setRemover h .called else s
  | .called => s.lockIe (.remover h) (s.setRemover h .locked)
  | .locked =>
    if s.ieThread then s.setRemover h .lockTd
    else { s.setRemover h (.unlockIe false) with ieHandlers := s.ieHandlers.erase h }
  | .lockTd => s.lockTd (.remover h) (s.setRemover h .tdLocked)
  | .tdLocked =>
    if s.iwait then s.setRemover h (.unlockTd true)
    else { (s.setRemover h (.unlockTd false)).setHandler h { s.ih h with dead := true } with
      itNeed := true }
  | .unlockTd awaiting => (s.setRemover h (.loop awaiting)).unlockTd
  | .loop awaiting =>
    if (s.ih h).dead then (s.setRemover h .asleep).unlockIe
    else s.setRemover h (.unlockIe awaiting)
  | .asleep => s
  | .awake => s.lockIe (.remover h) (s.setRemover h (.loop false))
  | .unlockIe awaiting => (s.setRemover h (.free awaiting)).unlockIe
  | .free awaiting => (s.setRemover h (.returned awaiting)).free h
  | .returned _ => s

/-- One step of `swi_sched` and of the `intr_event_schedule_thread` in it. -/
def swiStep (i : ι) : IntrEvent η ι :=
  match s.caller i with
  | .idle => s
  | .called h delay =>
    (s.setCaller i (if delay then .idle else .schedule)).setHandler h { s.ih h with need := true }
  | .schedule =>
    if s.ieHandlers = [] ∨ s.ieThread = false then s.setCaller i .idle else s.setCaller i .setNeed
  | .setNeed => { s.setCaller i .lockTd with itNeed := true }
  | .lockTd => s.lockTd (.caller i) (s.setCaller i .tdLocked)
  | .tdLocked =>
    if s.iwait then { s.setCaller i .unlockTd with iwait := false, it := s.it.cvSignal }
    else s.setCaller i .unlockTd
  | .unlockTd => (s.setCaller i .idle).unlockTd

/-- The handlers of the local `ie`: the event the thread is started with has none. -/
def handlersOfIe : List η :=
  match s.ie with
  | .newborn => []
  | .event => s.ieHandlers

/-- The loop of `intr_event_execute_handlers` for one handler. -/
def bodyStep (h : η) (ihn : Option η) : IntrEvent η ι :=
  let s := s.inspect h
  if (s.ih h).dead then { s with it := .removing h ihn }
  else if !cfg.handler h then { s with it := .walk ihn }
  else if cfg.soft then
    if (s.ih h).need then
      { s.setHandler h { s.ih h with need := false } with it := .exec h ihn }
    else { s with it := .walk ihn }
  else { s with it := .exec h ihn }

def itStep : IntrEvent η ι :=
  match s.it with
  | .unborn => s
  | .start =>
    match s.itEvent with
    | none => s
    | some ie => { s with it := .test, ie := ie }
  | .test => { s with it := if s.itNeed then .clear else .lockTd }
  | .clear =>
    { s with
      itNeed := false
      it := .walk s.handlersOfIe.head?
      walked := []
      due := fun h => decide (s.adder h = .returned ∧ s.remover h = .idle) }
  | .walk none => { s with it := .test }
  | .walk (some h) =>
    { s.inspect h with
      it := .body h (after s.handlersOfIe h)
      walked := h :: s.walked }
  | .body h ihn => s.bodyStep cfg h ihn
  | .exec h ihn => { s.inspect h with it := .walk ihn }
  | .removing h ihn => s.lockIe .ithread { s with it := .removeLocked h ihn }
  | .removeLocked h ihn =>
    { s.inspect h with ieHandlers := s.ieHandlers.erase h, it := .unlinked h ihn }
  | .unlinked h ihn =>
    { (s.inspect h).setHandler h { s.ih h with dead := false } with
      it := .cleared ihn
      remover := Function.update s.remover h (s.remover h).wakeup }
  | .cleared ihn => { s with it := .walk ihn, ieLock := none }
  | .lockTd => s.lockTd .ithread { s with it := .tdLocked }
  | .tdLocked =>
    if s.itNeed then { s with it := .unlockTd }
    -- `cv_wait` gives the lock back and waits in one step
    else { s with iwait := true, it := .waiting false, tdLock := none }
  | .waiting signal => if signal then { s with it := .woken } else s
  | .woken => s.lockTd .ithread { s with it := .unlockTd }
  | .unlockTd => { s with it := .test, tdLock := none }

def step (s : IntrEvent η ι) : IntrOp η ι → IntrEvent η ι
  | .add h => s.addStep cfg h
  | .remove h => s.removeStep h
  | .sched i h delay =>
    if s.caller i = .idle ∧ s.adder h = .returned ∧ s.remover h = .idle then
      s.setCaller i (.called h delay)
    else s
  | .swi i => s.swiStep i
  | .ithread => s.itStep cfg
  | .rouseAdd h => if s.adder h = .asleep then s.setAdder h .awake else s
  | .rouseRemove h => if s.remover h = .asleep then s.setRemover h .awake else s
  | .rouse =>
    match s.it with
    | .waiting _ => { s with it := .woken }
    | _ => s

end IntrEvent

end Libuinet
