import Libuinet.PassivePair

namespace Libuinet

open Execution LockOrder

namespace TcpStack

variable {s : TcpStack} {a b : SoId}

theorem mem_acquireBoth (h : s.Peers a b) (l : PairLock) :
    l ∈ s.acquireBoth .inp a ↔ l = .inp a ∨ l = .inp b := by
  rw [acquireBoth_eq h]
  split
  · simp [or_comm]
  · simp

theorem acquireBoth_two (h : s.Peers a b) : ∃ l m, l ≠ m ∧ s.acquireBoth .inp a = [l, m] := by
  rw [acquireBoth_eq h]
  split
  · exact ⟨_, _, by simpa using h.ne.symm, rfl⟩
  · exact ⟨_, _, by simpa using h.ne, rfl⟩

theorem inpPassive_modifySo (id : SoId) {f : TcpSocket → TcpSocket}
    (hf : ∀ so, (f so).tp.inpPassive = so.tp.inpPassive) (j : SoId) :
    ((s.modifySo id f).so j).tp.inpPassive = (s.so j).tp.inpPassive := by
  by_cases hj : j = id
  · subst hj
    simp [modifySo, hf]
  · simp [modifySo, hj]

theorem inpPassive_dispose (id j : SoId) :
    ((s.dispose id).so j).tp.inpPassive = (s.so j).tp.inpPassive :=
  inpPassive_modifySo id (f := ({ · with sqIncomp := false, soPassivePeer := none }))
    (fun _ => rfl) j

theorem inpPassive_sofree (id j : SoId) :
    ((s.sofree id).so j).tp.inpPassive = (s.so j).tp.inpPassive := by
  unfold sofree
  split
  · split
    · rfl
    · rw [inpPassive_dispose, inpPassive_dispose]
  · split
    · rfl
    · rw [inpPassive_dispose]

theorem inpPassive_tcpClose (id j : SoId) :
    ((s.tcpClose id).so j).tp.inpPassive = (s.so j).tp.inpPassive := by
  unfold tcpClose
  dsimp only
  split
  · rw [inpPassive_sofree, inpPassive_modifySo, inpPassive_modifySo] <;> intro so <;> rfl
  · rw [inpPassive_modifySo]
    intro so
    rfl

theorem inpPassive_tcpDrop (id : SoId) (errno : Errno) (j : SoId) :
    ((s.tcpDrop id errno).so j).tp.inpPassive = (s.so j).tp.inpPassive := by
  rw [tcpDrop, inpPassive_tcpClose, inpPassive_modifySo]
  intro so
  rfl

/-- After a takeover neither socket is passive. -/
theorem inPassiveConvertToActive_clears (h : s.Peers a b) :
    ∃ s', s.inPassiveConvertToActive a = .ok s' ∧
      (s'.so a).tp.inpPassive = false ∧ (s'.so b).tp.inpPassive = false := by
  unfold inPassiveConvertToActive
  rw [h.left]
  refine ⟨_, rfl, ?_, ?_⟩
  · rw [inpPassive_tcpDrop]
    simp [modifySo, converted, h.ne]
  · rw [inpPassive_tcpDrop]
    simp [modifySo, converted]

end TcpStack

/-- Where a thread in `tcp_usr_send` is; `info` is `info_locked`. -/
inductive UsrSendPc where
  /-- not called, or returned -/
  | returned
  /-- at the test of `PRUS_EOF` -/
  | enter (eof : Bool)
  /-- at the test of `INP_PASSIVE` -/
  | test (info : Bool)
  /-- about to take the lock of the table, for a passive socket -/
  | info
  /-- about to call `in_passive_acquire_locks` -/
  | acquire
  /-- in there, with these locks to take -/
  | lockBoth (locks : List PairLock)
  /-- about to take the lock of an ordinary socket -/
  | lockOne (info : Bool)
  /-- at the test of `INP_TIMEWAIT` and `INP_DROPPED` -/
  | locked (info : Bool)
  /-- at the second test of `INP_PASSIVE` -/
  | convert (info : Bool)
  | out (info : Bool)
  /-- giving these locks back -/
  | unlock (locks : List PairLock)
  deriving DecidableEq

/-- The sockets, who has which lock, and the threads.  `faulted` is set when a thread gives back a
lock it does not have. -/
structure UsrSend where
  stack : TcpStack
  owner : PairLock → Option Bool := fun _ => none
  pc : Bool → UsrSendPc := fun _ => .returned
  faulted : Bool := false

/-- A thread calls `tcp_usr_send`; a thread makes a step, in which the socket may be in
`TIME_WAIT` or the control message refused. -/
inductive UsrSendEvent where
  | call (thread : Bool) (eof : Bool)
  | step (thread : Bool) (refused : Bool)

namespace UsrSend

def goto (s : UsrSend) (t : Bool) (pc : UsrSendPc) : UsrSend :=
  { s with pc := Function.update s.pc t pc }

def lock (s : UsrSend) (t : Bool) (l : PairLock) (pc : UsrSendPc) : UsrSend :=
  if s.owner l = none then { s with owner := Function.update s.owner l (some t) }.goto t pc else s

def unlock (s : UsrSend) (t : Bool) (l : PairLock) : UsrSend :=
  if s.owner l = some t then { s with owner := Function.update s.owner l none }
  else { s with faulted := true }

def infoLock (info : Bool) : List PairLock := if info then [.tcbinfo] else []

variable (so : Bool → SoId)

def inpPassive (s : UsrSend) (t : Bool) : Bool := (s.stack.so (so t)).tp.inpPassive

def releases (s : UsrSend) (t : Bool) : List PairLock :=
  if s.inpPassive so t then (s.stack.acquireBoth .inp (so t)).reverse else [.inp (so t)]

/-- `in_passive_convert_to_active`, at whose end the lock of the other socket is given back, by
`tcp_close` or after it. -/
def inPassiveConvertToActive (s : UsrSend) (t : Bool) : UsrSend :=
  match s.stack.inPassiveConvertToActive (so t), (s.stack.so (so t)).soPassivePeer with
  | .ok stack, some peer => { s with stack := stack }.unlock t (.inp peer)
  | _, _ => { s with faulted := true }

def tcpUsrSend (s : UsrSend) (t : Bool) (refused : Bool) : UsrSend :=
  match s.pc t with
  | .returned => s
  | .enter eof => if eof then s.lock t .tcbinfo (.test true) else s.goto t (.test false)
  | .test info =>
    if s.inpPassive so t then s.goto t (if info then .acquire else .info)
    else s.goto t (.lockOne info)
  | .info => s.lock t .tcbinfo .acquire
  | .acquire => s.goto t (.lockBoth (s.stack.acquireBoth .inp (so t)))
  | .lockBoth [] => s.goto t (.locked true)
  | .lockBoth (l :: locks) => s.lock t l (.lockBoth locks)
  | .lockOne info => s.lock t (.inp (so t)) (.locked info)
  | .locked info =>
    if (s.stack.tcbinfo.inpcb (so t)).inpDropped || refused then s.goto t (.out info)
    else s.goto t (.convert info)
  | .convert info =>
    if s.inpPassive so t then (s.inPassiveConvertToActive so t).goto t (.out info)
    else s.goto t (.out info)
  | .out info => s.goto t (.unlock (s.releases so t ++ infoLock info))
  | .unlock [] => s.goto t .returned
  | .unlock (l :: locks) => (s.unlock t l).goto t (.unlock locks)

def step (s : UsrSend) : UsrSendEvent → UsrSend
  | .call t eof => if s.pc t = .returned then s.goto t (.enter eof) else s
  | .step t refused => s.tcpUsrSend so t refused

/-- A thread that is about to take the locks of a passive pair finds its socket still passive. -/
def StillPassive (s : UsrSend) : UsrSendEvent → Prop
  | .call _ _ => True
  | .step t _ => s.pc t = .acquire → s.inpPassive so t = true

instance (s : UsrSend) : (ev : UsrSendEvent) → Decidable (s.StillPassive so ev)
  | .call _ _ => instDecidableTrue
  | .step t _ => inferInstanceAs (Decidable (s.pc t = .acquire → s.inpPassive so t = true))

/-- A thread that is out of `tcp_usr_send` has no lock, and no thread has given back what it did
not have. -/
def Released (s : UsrSend) : Prop :=
  s.faulted = false ∧ ∀ t, s.pc t = .returned → ∀ l, s.owner l ≠ some t

def locksAt (s : UsrSend) (t : Bool) : UsrSendPc → List PairLock
  | .returned | .enter _ | .info => []
  | .test info | .lockOne info => infoLock info
  | .acquire => [.tcbinfo]
  | .lockBoth locks => .tcbinfo :: (s.stack.acquireBoth .inp (so t)).take (2 - locks.length)
  | .locked info | .convert info | .out info => s.releases so t ++ infoLock info
  | .unlock locks => locks

def KnownAt (s : UsrSend) (t : Bool) : UsrSendPc → Prop
  | .lockBoth locks => s.inpPassive so t = true ∧ locks.length ≤ 2 ∧
    locks = (s.stack.acquireBoth .inp (so t)).drop (2 - locks.length)
  | .lockOne _ => s.inpPassive so t = false
  | .locked info | .convert info | .out info => s.inpPassive so t = true → info = true
  | .unlock locks => locks.Nodup
  | _ => True

structure Disciplined (s : UsrSend) : Prop where
  owned : Owned s.owner fun t => s.locksAt so t (s.pc t)
  known : ∀ t, s.KnownAt so t (s.pc t)
  same : ∀ t, s.inpPassive so t = s.inpPassive so (!t)
  peers : ∀ t, s.inpPassive so t = true → s.stack.Peers (so t) (so (!t))
  faulted : s.faulted = false

variable {so} {s : UsrSend} {t : Bool}

section

variable (h : s.Disciplined so)
include h

/-- A step that leaves the sockets alone. -/
theorem Disciplined.of_stack {s' : UsrSend} (hstack : s'.stack = s.stack)
    (howned : Owned s'.owner fun u => s.locksAt so u (s'.pc u))
    (hknown : ∀ u, s.KnownAt so u (s'.pc u)) (hfaulted : s'.faulted = false) :
    s'.Disciplined so := by
  obtain ⟨stack, owner, pc, faulted⟩ := s'
  obtain rfl : stack = s.stack := hstack
  exact ⟨howned, hknown, h.same, h.peers, hfaulted⟩

variable {l : PairLock} {pc : UsrSendPc}

/-- One thread moves. -/
theorem known_update (hknown : s.KnownAt so t pc) (u : Bool) :
    s.KnownAt so u (Function.update s.pc t pc u) := by
  by_cases hu : u = t
  · subst hu
    rwa [Function.update_self]
  · rw [Function.update_of_ne hu]
    exact h.known u

theorem Disciplined.goto (hlocks : ∀ l, l ∈ s.locksAt so t pc ↔ l ∈ s.locksAt so t (s.pc t))
    (hknown : s.KnownAt so t pc) : (s.goto t pc).Disciplined so := by
  refine h.of_stack rfl (fun u l => ?_) (known_update h hknown) h.faulted
  rw [show (s.goto t pc).owner = s.owner from rfl, h.owned u l]
  by_cases hu : u = t
  · subst hu
    simp [UsrSend.goto, hlocks]
  · simp [UsrSend.goto, hu]

theorem Disciplined.lock (hlocks : ∀ x, x ∈ s.locksAt so t pc ↔ x = l ∨ x ∈ s.locksAt so t (s.pc t))
    (hknown : s.KnownAt so t pc) : (s.lock t l pc).Disciplined so := by
  unfold UsrSend.lock
  split
  · next hfree =>
    refine h.of_stack rfl (h.owned.acquire hfree (fun x => ?_) fun u hu => ?_)
      (known_update h hknown) h.faulted
    · simpa [UsrSend.goto] using hlocks x
    · simp [UsrSend.goto, hu]
  · exact h

theorem Disciplined.unlock {locks : List PairLock} (hpc : s.pc t = .unlock (l :: locks)) :
    ((s.unlock t l).goto t (.unlock locks)).Disciplined so := by
  have hnodup : (l :: locks).Nodup := by simpa [KnownAt, hpc] using h.known t
  obtain ⟨hnot, hrest⟩ := List.nodup_cons.mp hnodup
  have hmine : l ∈ s.locksAt so t (s.pc t) := by simp [locksAt, hpc]
  have hunlock : s.unlock t l = { s with owner := Function.update s.owner l none } :=
    if_pos ((h.owned t l).mpr hmine)
  rw [hunlock]
  refine h.of_stack rfl (h.owned.release hmine (fun x => ?_) fun u hu => ?_)
    (known_update h hrest) h.faulted
  · simp only [UsrSend.goto, Function.update_self, hpc, locksAt, List.mem_cons]
    constructor
    · intro hx
      exact ⟨ne_of_mem_of_not_mem hx hnot, .inr hx⟩
    · rintro ⟨hne, hx⟩
      exact hx.resolve_left hne
  · simp [UsrSend.goto, hu]

/-- Taking the locks of the two sockets, one after the other. -/
theorem Disciplined.lockBoth {locks : List PairLock} (hpc : s.pc t = .lockBoth (l :: locks)) :
    (s.lock t l (.lockBoth locks)).Disciplined so := by
  have hknown := h.known t
  rw [hpc] at hknown
  obtain ⟨hpassive, hlen, heq⟩ := hknown
  obtain ⟨x, y, hxy, hboth⟩ := TcpStack.acquireBoth_two (h.peers t hpassive)
  have hlocks : l :: locks = [x, y] ∨ l :: locks = [y] := by
    rw [hboth] at heq
    match locks, hlen with
    | [], _ => exact .inr (by simpa using heq)
    | [m], _ => exact .inl (by simpa using heq)
  apply h.lock
  · intro z
    rw [hpc]
    rcases hlocks with hl | hl <;> cases hl <;> simp [locksAt, hboth, or_comm, or_left_comm]
  · rcases hlocks with hl | hl <;> cases hl <;> simp [KnownAt, hboth, hpassive]

/-- A thread that has not the lock of the table is at a place where the flag does not matter. -/
theorem Disciplined.locksAt_of_no_info (hpassive : s.inpPassive so t = true)
    (hinfo : .tcbinfo ∉ s.locksAt so t (s.pc t)) (s' : UsrSend) :
    s'.locksAt so t (s.pc t) = s.locksAt so t (s.pc t) ∧ s'.KnownAt so t (s.pc t) := by
  have hknown := h.known t
  cases hpc : s.pc t with
  | returned => simp [locksAt, KnownAt]
  | enter eof => simp [locksAt, KnownAt]
  | info => simp [locksAt, KnownAt]
  | test info => simp [locksAt, KnownAt]
  | acquire => simp [hpc, locksAt] at hinfo
  | lockBoth locks => simp [hpc, locksAt] at hinfo
  | lockOne info => simp [hpc, KnownAt, hpassive] at hknown
  | locked info | convert info | out info =>
    obtain rfl : info = true := by simpa [hpc, KnownAt, hpassive] using hknown
    simp [hpc, locksAt, infoLock] at hinfo
  | unlock locks =>
    rw [hpc] at hknown
    exact ⟨rfl, hknown⟩

/-- A thread with the lock of the table ends the pair and gives a lock back. -/
theorem Disciplined.cleared (hpassive : s.inpPassive so t = true)
    (hinfo : .tcbinfo ∈ s.locksAt so t (s.pc t)) {s' : UsrSend}
    (hclear : ∀ u, s'.inpPassive so u = false) (howner : s'.owner = Function.update s.owner l none)
    (hl : l ∈ s.locksAt so t (s.pc t)) (hpc : s'.pc = Function.update s.pc t pc)
    (hlocks : ∀ x, x ∈ s'.locksAt so t pc ↔ x ≠ l ∧ x ∈ s.locksAt so t (s.pc t))
    (hknown : s'.KnownAt so t pc) (hfaulted : s'.faulted = s.faulted) : s'.Disciplined so := by
  have hself : s'.pc t = pc := by rw [hpc, Function.update_self]
  have hother (u : Bool) (hu : u ≠ t) : s'.pc u = s.pc u := by rw [hpc, Function.update_of_ne hu]
  have hplace (u : Bool) (hu : u ≠ t) : s'.locksAt so u (s.pc u) = s.locksAt so u (s.pc u) ∧
      s'.KnownAt so u (s.pc u) := by
    have hpassive' : s.inpPassive so u = true := by rwa [Bool.eq_not_of_ne hu, ← h.same]
    exact h.locksAt_of_no_info hpassive' (fun hin => hu (h.owned.unique hin hinfo)) s'
  refine ⟨?_, fun u => ?_, fun u => by simp [hclear], fun u hu => by simp [hclear] at hu,
    hfaulted.trans h.faulted⟩
  · rw [howner]
    refine h.owned.release hl (fun x => ?_) fun u hu => ?_
    · rw [hself]
      exact hlocks x
    · rw [hother u hu]
      exact (hplace u hu).1
  · by_cases hu : u = t
    · rwa [hu, hself]
    · rw [hother u hu]
      exact (hplace u hu).2

/-- The takeover, with the lock of the table and of both sockets. -/
theorem Disciplined.convert {info : Bool} (hpc : s.pc t = .convert info)
    (hpassive : s.inpPassive so t = true) :
    ((s.inPassiveConvertToActive so t).goto t (.out info)).Disciplined so := by
  have hknown := h.known t
  rw [hpc] at hknown
  obtain rfl : info = true := hknown hpassive
  have hpeers := h.peers t hpassive
  obtain ⟨stack, hok, hclear, hclear'⟩ := TcpStack.inPassiveConvertToActive_clears hpeers
  have hmine (l : PairLock) :
      l ∈ s.locksAt so t (s.pc t) ↔ l = .inp (so t) ∨ l = .inp (so !t) ∨ l = .tcbinfo := by
    simp [hpc, locksAt, infoLock, releases, hpassive, TcpStack.mem_acquireBoth hpeers, or_assoc]
  have hpeer : .inp (so !t) ∈ s.locksAt so t (s.pc t) := (hmine _).mpr (by simp)
  have hs' : s.inPassiveConvertToActive so t =
      { s with stack := stack, owner := Function.update s.owner (.inp (so !t)) none } := by
    unfold inPassiveConvertToActive
    rw [hok, hpeers.left]
    exact if_pos ((h.owned t _).mpr hpeer)
  have hclears (u : Bool) : (stack.so (so u)).tp.inpPassive = false := by
    rcases Bool.eq_or_eq_not u t with rfl | rfl
    · exact hclear
    · exact hclear'
  rw [hs']
  refine h.cleared hpassive ((hmine _).mpr (by simp)) hclears rfl hpeer rfl (fun x => ?_)
    (fun _ => rfl) rfl
  rw [hmine, locksAt, releases, if_neg (by simp [inpPassive, UsrSend.goto, hclears])]
  have hne : so t ≠ so !t := hpeers.ne
  constructor
  · intro hx
    have hx : x = .inp (so t) ∨ x = .tcbinfo := by simpa [infoLock] using hx
    rcases hx with rfl | rfl
    · simp [hne]
    · simp
  · rintro ⟨hx, rfl | rfl | rfl⟩
    · simp
    · exact absurd rfl hx
    · simp [infoLock]

theorem Disciplined.call (eof : Bool) (hpc : s.pc t = .returned) :
    (s.goto t (.enter eof)).Disciplined so :=
  h.goto (by simp [hpc, locksAt]) trivial

theorem Disciplined.nodup_releases (info : Bool) : (s.releases so t ++ infoLock info).Nodup := by
  unfold releases
  split
  · next hpassive =>
    have hpeers := h.peers t hpassive
    have hne := hpeers.ne
    rw [acquireBoth_eq hpeers]
    cases info <;> split <;> simp [infoLock, hne, hne.symm]
  · cases info <;> simp [infoLock]

/-- One step of a thread. -/
theorem Disciplined.tcpUsrSend (refused : Bool)
    (hstill : s.pc t = .acquire → s.inpPassive so t = true) :
    (s.tcpUsrSend so t refused).Disciplined so := by
  have hknown := h.known t
  unfold UsrSend.tcpUsrSend
  split <;> rename_i hpc <;> rw [hpc] at hknown
  · exact h
  · split
    · next heof => exact h.lock (by simp [hpc, locksAt, infoLock]) trivial
    · next heof => exact h.goto (by simp [hpc, locksAt, infoLock]) trivial
  · next info =>
    split
    · cases info
      · exact h.goto (by simp [hpc, locksAt, infoLock]) trivial
      · exact h.goto (by simp [hpc, locksAt, infoLock]) trivial
    · next hactive => exact h.goto (by simp [hpc, locksAt]) (Bool.eq_false_of_not_eq_true hactive)
  · exact h.lock (by simp [hpc, locksAt]) trivial
  · have hpassive := hstill hpc
    obtain ⟨x, y, hxy, hboth⟩ := TcpStack.acquireBoth_two (h.peers t hpassive)
    exact h.goto (by simp [hpc, locksAt, hboth]) (by simp [KnownAt, hpassive, hboth])
  · obtain ⟨hpassive, -, -⟩ := hknown
    obtain ⟨x, y, hxy, hboth⟩ := TcpStack.acquireBoth_two (h.peers t hpassive)
    refine h.goto (fun l => ?_) fun _ => rfl
    rw [hpc, locksAt, locksAt, releases, if_pos hpassive, hboth]
    simp [infoLock, or_comm, or_left_comm]
  · exact h.lockBoth hpc
  · next info =>
    refine h.lock (fun l => ?_) fun hpassive => ?_
    · have hactive : s.inpPassive so t = false := hknown
      simp [hpc, locksAt, releases, hactive]
    · exact absurd (hpassive.symm.trans hknown) (by simp)
  · split
    · exact h.goto (by simp [hpc, locksAt]) hknown
    · exact h.goto (by simp [hpc, locksAt]) hknown
  · split
    · next hpassive => exact h.convert hpc hpassive
    · exact h.goto (by simp [hpc, locksAt]) hknown
  · next info => exact h.goto (by simp [hpc, locksAt]) (h.nodup_releases info)
  · exact h.goto (by simp [hpc, locksAt]) trivial
  · exact h.unlock hpc

theorem Disciplined.step {ev : UsrSendEvent} (hstill : s.StillPassive so ev) :
    (s.step so ev).Disciplined so := by
  cases ev with
  | call t eof =>
    unfold UsrSend.step
    dsimp only
    split
    · next hpc => exact h.call eof hpc
    · exact h
  | step t refused => exact h.tcpUsrSend refused hstill

theorem Disciplined.released : s.Released := by
  refine ⟨h.faulted, fun t hpc l hl => ?_⟩
  have hin := (h.owned t l).mp hl
  simp [hpc, locksAt] at hin

end

/-- Before the calls. -/
theorem disciplined_start {stack : TcpStack} (hpeers : stack.Peers (so false) (so true))
    (hpassive : ∀ t, (stack.so (so t)).tp.inpPassive = true) :
    Disciplined so { stack := stack } := by
  refine ⟨fun t l => by simp [locksAt], fun t => trivial, fun t => ?_, fun t _ => ?_, rfl⟩
  · exact (hpassive t).trans (hpassive !t).symm
  · cases t
    · exact hpeers
    · exact hpeers.symm

/-- Two threads send on the two sockets of a passive pair, in any order of their steps.  As long as
a thread that has seen its socket passive finds it passive still when it goes to take the locks, a
thread that returns has none of them, and no thread gives back what it does not have. -/
theorem tcpUsrSend_releases (so : Bool → SoId) (stack : TcpStack) (events : List UsrSendEvent)
    (hpeers : stack.Peers (so false) (so true))
    (hpassive : ∀ t, (stack.so (so t)).tp.inpPassive = true)
    (hstill : Along (step so) (StillPassive so) { stack := stack } events) :
    (run (step so) { stack := stack } events).Released := by
  have hrun : (run (step so) { stack := stack } events).Disciplined so :=
    run_invariant (fun _ _ h hstill => h.step hstill) (disciplined_start hpeers hpassive) hstill
  exact hrun.released

def passivePair : TcpStack :=
  { stackOf emptySyncache with
    so := fun id =>
      { soPassive := true
        soPassivePeer := if id = 0 then some 1 else some 0
        tp := { inpPassive := true, rcvNxt := 0, soRcv := Sockbuf.empty } } }

def sockOf (t : Bool) : SoId := if t then 1 else 0

/-- Both threads find their sockets passive, and one of them is through before the other gets the
lock of the table. -/
def overtaken : List UsrSendEvent :=
  [.call false false, .call true false] ++ List.replicate 2 (.step true false) ++
    List.replicate 13 (.step false false)

/-- Both sockets are ordinary ones by then, and the other thread gives back the lock of its own
socket only. -/
theorem tcpUsrSend_keeps_lock :
    let s := run (step sockOf) { stack := passivePair }
      (overtaken ++ List.replicate 10 (.step true false))
    s.pc false = .returned ∧ s.pc true = .returned ∧ s.owner (.inp 0) = some true := by
  decide +kernel

/-- One thread is through before the other is called. -/
theorem tcpUsrSend_releases_apart :
    let events := .call false false :: List.replicate 13 (.step false false) ++
      .call true false :: List.replicate 9 (.step true false)
    Along (step sockOf) (StillPassive sockOf) { stack := passivePair } events ∧
      (run (step sockOf) { stack := passivePair } events).pc true = .returned ∧
      (run (step sockOf) { stack := passivePair } events).Released := by
  have hstill : Along (step sockOf) (StillPassive sockOf) { stack := passivePair }
      (.call false false :: List.replicate 13 (.step false false) ++
        .call true false :: List.replicate 9 (.step true false)) := by decide +kernel
  refine ⟨hstill, by decide +kernel, ?_⟩
  exact tcpUsrSend_releases _ _ _ ⟨by decide, rfl, rfl⟩ (fun _ => rfl) hstill

end UsrSend

end Libuinet
