import Libuinet.NetmapTx
import Mathlib.Data.Finset.Card

namespace Libuinet

open Execution

def NetmapTx.pktsToSend {n : ℕ} (s : NetmapTx n) : BitVec 32 := BitVec.ofInt 32 s.txPktsToSend

/-- Where the send thread is with respect to `tx_lock` and `tx_cv`. -/
inductive WaitPc where
  | unlocked
  /-- it holds `tx_lock` -/
  | locked
  /-- in `cv_timedwait`, with a signal for it or without -/
  | waiting (signal : Bool)
  /-- `cv_timedwait` takes `tx_lock` again -/
  | woken (timedOut : Bool)
  deriving DecidableEq

inductive StartPc where
  | idle
  /-- the packet is on `if_snd`, and `if_netmap_start` is called -/
  | queued
  /-- `if_netmap_start` holds `tx_lock` -/
  | locked
  /-- it has counted the packet -/
  | counted
  /-- it has signalled, where it has to -/
  | signalled
  deriving DecidableEq

inductive TxOwner (ι : Type*) where
  | send
  | caller (i : ι)
  deriving DecidableEq

/-- The interface, its send thread and the threads `ι` that send packets. -/
structure TxThreads (n : ℕ) (ι : Type*) where
  tx : NetmapTx n
  send : WaitPc
  caller : ι → StartPc
  txLock : Option (TxOwner ι)

inductive WakeEvent (ι : Type*) where
  /-- a thread puts a packet on `if_snd` -/
  | enqueue (i : ι) (m : List Mbuf)
  /-- the next step of its `if_netmap_start` -/
  | start (i : ι)
  | grow (room : ℕ)
  | send (input : SendInput)

def WaitPc.cvSignal : WaitPc → WaitPc
  | .waiting _ => .waiting true
  | pc => pc

namespace TxThreads

variable {n : ℕ} {ι : Type*} [DecidableEq ι] (api : NetmapApi)

/-- The start of `IFQ_HANDOFF`.  The driver is not started for a packet that finds the queue
full. -/
def ifqHandoff (s : TxThreads n ι) (i : ι) (m : List Mbuf) : TxThreads n ι :=
  match s.caller i, s.tx.ifSnd.ifqEnqueue m with
  | .idle, (none, ifSnd) =>
    { s with
      tx := { s.tx with ifSnd := ifSnd }
      caller := Function.update s.caller i .queued }
  | _, _ => s

def ifNetmapStart (s : TxThreads n ι) (i : ι) : TxThreads n ι :=
  match s.caller i with
  | .idle => s
  | .queued =>
    if s.txLock = none then
      { s with txLock := some (.caller i), caller := Function.update s.caller i .locked }
    else s
  | .locked =>
    { s with
      tx := s.tx.txStep api .start
      caller := Function.update s.caller i .counted }
  | .counted =>
    { s with
      send := if s.tx.pktsToSend = 1 then s.send.cvSignal else s.send
      caller := Function.update s.caller i .signalled }
  | .signalled =>
    { s with txLock := none, caller := Function.update s.caller i .idle }

def ifNetmapSend (s : TxThreads n ι) (input : SendInput) : TxThreads n ι :=
  match s.send with
  | .unlocked =>
    match s.tx.pc with
    | .top => if s.txLock = none then { s with send := .locked, txLock := some .send } else s
    | .wait =>
      { s with tx :=
          if s.tx.done then { s.tx with pc := .stopped }
          else NetmapTx.dequeue { s.tx with pktsSent := 0, pc := .outer } }
    | _ => { s with tx := s.tx.ifNetmapSend api input }
  | .locked =>
    match s.tx.pc with
    | .wait =>
      -- `cv_timedwait` gives the lock back and waits in one step
      if s.tx.pktsToSend = 0 ∧ !s.tx.done then { s with send := .waiting false, txLock := none }
      else { s with send := .unlocked, txLock := none }
    | _ => { s with tx := s.tx.ifNetmapSend api input }
  | .waiting signal =>
    if signal || input.timedOut then { s with send := .woken input.timedOut } else s
  | .woken timedOut =>
    if s.txLock = none then
      { s with
        tx := { s.tx with done := if timedOut then input.stop else s.tx.done }
        send := .locked
        txLock := some .send }
    else s

def step (s : TxThreads n ι) : WakeEvent ι → TxThreads n ι
  | .enqueue i m => s.ifqHandoff i m
  | .start i => s.ifNetmapStart api i
  | .grow room => { s with tx := s.tx.txStep api (.grow room) }
  | .send input => s.ifNetmapSend api input

/-- The interface is attached: nothing is counted, and no thread is sending. -/
def attach (ring : NetmapRing n) (ifSnd : IfQueue) : TxThreads n ι where
  tx := NetmapTx.start ring ifSnd 0
  send := .unlocked
  caller := fun _ => .idle
  txLock := none

end TxThreads

/-- The queue is within its limits, which are of type `int`. -/
structure IfQueue.Bounded (q : IfQueue) : Prop where
  head : q.ifqHead.length ≤ q.ifqMaxlen
  drvHead : q.ifqDrvHead.length ≤ q.ifqDrvMaxlen
  maxlen : q.ifqMaxlen < 2 ^ 31
  drvMaxlen : q.ifqDrvMaxlen < 2 ^ 31

namespace IfQueue

variable {q : IfQueue}

theorem Bounded.length_lt (h : q.Bounded) : q.packets.length < 2 ^ 32 := by
  obtain ⟨hhead, hdrv, hmax, hdrvMax⟩ := h
  simp only [packets, List.length_append]
  omega

theorem ifqEnqueue_of_none {m : List Mbuf} {q' : IfQueue} (h : q.ifqEnqueue m = (none, q')) :
    q.ifqHead.length < q.ifqMaxlen ∧ q' = { q with ifqHead := q.ifqHead ++ [m] } := by
  unfold ifqEnqueue at h
  split at h
  · simp at h
  · next hroom => exact ⟨by omega, (Prod.mk.inj h).2.symm⟩

theorem Bounded.ifqEnqueue (h : q.Bounded) {m : List Mbuf} {q' : IfQueue}
    (hq : q.ifqEnqueue m = (none, q')) : q'.Bounded := by
  obtain ⟨hroom, rfl⟩ := ifqEnqueue_of_none hq
  refine { h with head := ?_ }
  simp only [List.length_append, List.length_singleton]
  omega

theorem Bounded.ifqDrvDequeue (h : q.Bounded) : q.ifqDrvDequeue.2.Bounded := by
  obtain ⟨hhead, hdrv, hmax, hdrvMax⟩ := h
  rcases q with ⟨_ | ⟨m, ms⟩, _ | ⟨m', ms'⟩, maxlen, drvMaxlen⟩
  · exact ⟨hhead, hdrv, hmax, hdrvMax⟩
  · exact ⟨hhead, Nat.le_of_succ_le hdrv, hmax, hdrvMax⟩
  · refine ⟨?_, List.length_take_le _ _, hmax, hdrvMax⟩
    simp only [List.length_cons] at hhead
    simp only [ifqDrvDequeue, List.length_drop]
    omega
  · exact ⟨hhead, Nat.le_of_succ_le hdrv, hmax, hdrvMax⟩

theorem ifqDrvDequeue_length (q : IfQueue) :
    q.ifqDrvDequeue.2.packets.length + q.ifqDrvDequeue.1.toList.length = q.packets.length := by
  rcases q with ⟨_ | ⟨m, ms⟩, _ | ⟨m', ms'⟩, maxlen, drvMaxlen⟩ <;>
    simp [ifqDrvDequeue, packets]

end IfQueue

namespace NetmapTx

variable {n : ℕ} {api : NetmapApi} {s : NetmapTx n}

/-- The packets taken off the queue and not yet subtracted from the count.  While the thread
waits `pkts_sent` is still what was subtracted last. -/
def taken (s : NetmapTx n) : ℕ := if s.pc = .wait then 0 else s.pktsSent + s.m.toList.length

def uncounted (s : NetmapTx n) : ℤ := s.ifSnd.packets.length + s.taken - s.txPktsToSend

/-- The thread goes on, and it has a packet at hand only while it sends. -/
structure GoesOn (s : NetmapTx n) : Prop where
  done : s.done = false
  pc : s.pc ≠ .stopped
  held : s.m ≠ none → s.pc = .outer ∨ s.pc = .fill ∨ s.pc = .aborted
  snd : s.ifSnd.Bounded

theorem GoesOn.empty_handed (h : s.GoesOn) (hpc : s.pc ≠ .outer ∧ s.pc ≠ .fill ∧ s.pc ≠ .aborted) :
    s.m = none := by
  by_contra hm
  simpa [hpc] using h.held hm

theorem GoesOn.dequeue (h : s.GoesOn) (hpc : s.pc = .outer ∨ s.pc = .fill) :
    s.dequeue.GoesOn :=
  ⟨h.done, h.pc, fun _ => hpc.imp_right .inl, h.snd.ifqDrvDequeue⟩

theorem dequeue_uncounted (hpc : s.pc ≠ .wait) :
    s.dequeue.uncounted = s.ifSnd.packets.length + s.pktsSent - s.txPktsToSend := by
  have hlen := s.ifSnd.ifqDrvDequeue_length
  simp only [uncounted, taken, dequeue, hpc, if_false]
  omega

theorem start_uncounted (s : NetmapTx n) :
    (s.txStep api .start).uncounted = s.uncounted - 1 := by
  have htaken : (s.txStep api .start).taken = s.taken := rfl
  simp only [uncounted, htaken]
  simp only [txStep]
  omega

/-- A step that takes no packet off the queue and counts none. -/
theorem GoesOn.move {s' : NetmapTx n} (h : s.GoesOn) (hpc : s.pc ≠ .wait)
    (hpc' : s'.pc ≠ .wait ∧ s'.pc ≠ .stopped)
    (hheld : s.m ≠ none → s'.pc = .outer ∨ s'.pc = .fill ∨ s'.pc = .aborted)
    (hsame : s'.ifSnd = s.ifSnd ∧ s'.txPktsToSend = s.txPktsToSend ∧ s'.m = s.m ∧
      s'.pktsSent = s.pktsSent ∧ s'.done = s.done) :
    s'.GoesOn ∧ s'.uncounted = s.uncounted := by
  obtain ⟨hsnd, hcount, hm, hsent, hdone⟩ := hsame
  refine ⟨⟨hdone.trans h.done, hpc'.2, by rwa [hm], by rw [hsnd]; exact h.snd⟩, ?_⟩
  simp only [uncounted, taken, hsnd, hcount, hm, hsent, if_neg hpc, if_neg hpc'.1]

theorem GoesOn.sendStep {s' : NetmapTx n} (h : s.GoesOn) (hs : SendStep api s s') :
    s'.GoesOn ∧ s'.uncounted = s.uncounted := by
  have hnone := h.empty_handed
  cases hs with
  | top hpc =>
    refine ⟨⟨h.done, by simp, ?_, h.snd⟩, ?_⟩
    · simp [hnone (by simp [hpc])]
    · simp only [uncounted, taken, hpc, hnone (by simp [hpc])]
      simp
      omega
  | sleep hpc => exact ⟨h, rfl⟩
  | stuck hpc => exact ⟨h, rfl⟩
  | wake hpc =>
    have hs : GoesOn { s with pktsSent := 0, pc := .outer } :=
      ⟨h.done, by simp, by simp, h.snd⟩
    refine ⟨hs.dequeue (.inl rfl), ?_⟩
    rw [dequeue_uncounted (by simp)]
    simp [uncounted, taken, hpc]
  | drained hpc hm =>
    exact h.move (by simp [hpc]) (by simp) (fun hne => absurd hm hne) ⟨rfl, rfl, rfl, rfl, rfl⟩
  | poll hpc hm havail | busy hpc hsent =>
    exact h.move (by simp [hpc]) (by simp [hpc]) h.held ⟨rfl, rfl, rfl, rfl, rfl⟩
  | load hpc hm havail | leave hpc hm | abort hpc hm havail hslot =>
    exact h.move (by simp [hpc]) (by simp) (by simp) ⟨rfl, rfl, rfl, rfl, rfl⟩
  | @fill m ring cur hpc hm havail hslot =>
    refine ⟨dequeue { h with } (.inr hpc), ?_⟩
    rw [dequeue_uncounted (by simp [hpc])]
    simp [uncounted, taken, hpc, hm]
  | nothing hpc hsent | sync hpc hsent | synced hpc =>
    exact h.move (by simp [hpc]) (by simp) (fun hne => absurd (hnone (by simp [hpc])) hne)
      ⟨rfl, rfl, rfl, rfl, rfl⟩

theorem GoesOn.ifNetmapSend (h : s.GoesOn) {input : SendInput} (hstop : input.stop = false) :
    (s.ifNetmapSend api input).GoesOn ∧ (s.ifNetmapSend api input).uncounted = s.uncounted := by
  -- whatever the error of the `ioctl` is, the packets are off the queue
  by_cases herror : input.error = none ∨ input.error = some ebusy
  · exact h.sendStep (ifNetmapSend_step api h.done h.pc ⟨hstop, herror⟩)
  by_cases hsync : s.pc = .sync ∧ s.pktsSent ≠ 0
  · obtain ⟨error, herr⟩ := Option.ne_none_iff_exists'.1 fun hnone => herror (.inl hnone)
    have hbusy : error ≠ ebusy := by
      rintro rfl
      exact herror (.inr herr)
    have hs : s.ifNetmapSend api input =
        { s with ring := s.ring.ifNetmapTxsync api s.avail s.cur, pc := .synced } := by
      simp [NetmapTx.ifNetmapSend, hsync, herr, hbusy]
    rw [hs]
    exact h.move (by simp [hsync]) (by simp)
      (fun hne => absurd (h.empty_handed (by simp [hsync])) hne) ⟨rfl, rfl, rfl, rfl, rfl⟩
  · have hs : s.ifNetmapSend api input = s.ifNetmapSend api { input with error := none } := by
      cases hpc : s.pc with
      | sync =>
        have hsent : s.pktsSent = 0 := by simpa [hpc] using hsync
        simp [NetmapTx.ifNetmapSend, hpc, hsent]
      | _ => simp only [NetmapTx.ifNetmapSend, hpc]
    rw [hs]
    exact h.sendStep (ifNetmapSend_step api h.done h.pc ⟨hstop, .inl rfl⟩)

end NetmapTx

def StartPc.Holds (pc : StartPc) : Prop := pc = .locked ∨ pc = .counted ∨ pc = .signalled

def StartPc.Late (pc : StartPc) : Prop := pc = .queued ∨ pc = .locked

instance (pc : StartPc) : Decidable pc.Late := inferInstanceAs (Decidable (_ ∨ _))

def WakeEvent.GoesOn {ι : Type*} : WakeEvent ι → Prop
  | .send input => input.stop = false
  | _ => True

instance {ι : Type*} : (ev : WakeEvent ι) → Decidable ev.GoesOn
  | .send input => inferInstanceAs (Decidable (input.stop = false))
  | .enqueue _ _ | .start _ | .grow _ => instDecidableTrue

namespace WaitPc

theorem cvSignal_eq_locked {pc : WaitPc} : pc.cvSignal = .locked ↔ pc = .locked := by
  cases pc <;> simp [cvSignal]

theorem cvSignal_eq_unlocked {pc : WaitPc} : pc.cvSignal = .unlocked ↔ pc = .unlocked := by
  cases pc <;> simp [cvSignal]

theorem cvSignal_ne_waiting (pc : WaitPc) : pc.cvSignal ≠ .waiting false := by
  cases pc <;> simp [cvSignal]

end WaitPc

namespace TxThreads

variable {n : ℕ} {ι : Type*} {api : NetmapApi} {s : TxThreads n ι}

structure Sound (s : TxThreads n ι) : Prop where
  goesOn : s.tx.GoesOn
  sendLock : s.send = .locked ↔ s.txLock = some .send
  callerLock : ∀ i, (s.caller i).Holds ↔ s.txLock = some (.caller i)
  -- the thread takes the lock at the start of its loop only, and then it waits
  atTop : s.send = .locked → s.tx.pc = .top ∨ s.tx.pc = .wait
  atWait : s.send ≠ .unlocked → s.send ≠ .locked → s.tx.pc = .wait
  -- what is not counted are the packets of the threads that are late
  late : ∃ late : Finset ι, (∀ i, i ∈ late ↔ (s.caller i).Late) ∧ s.tx.uncounted = late.card
  -- who makes the count one will signal
  asleep : s.send = .waiting false →
    s.tx.pktsToSend = 0 ∨ ∃ i, s.caller i = .counted ∧ s.tx.pktsToSend = 1

theorem sound_attach (ring : NetmapRing n) {ifSnd : IfQueue} (hempty : ifSnd.packets = [])
    (hmax : ifSnd.ifqMaxlen < 2 ^ 31) (hdrvMax : ifSnd.ifqDrvMaxlen < 2 ^ 31) :
    (attach ring ifSnd : TxThreads n ι).Sound := by
  obtain ⟨hdrv, hhead⟩ := List.append_eq_nil_iff.1 hempty
  refine ⟨⟨rfl, by simp [attach, NetmapTx.start], by simp [attach, NetmapTx.start], ?_⟩,
    by simp [attach], by simp [attach, StartPc.Holds], by simp [attach], by simp [attach],
    ⟨∅, by simp [attach, StartPc.Late], ?_⟩, by simp [attach]⟩
  · exact ⟨by simp [attach, NetmapTx.start, hhead], by simp [attach, NetmapTx.start, hdrv],
      hmax, hdrvMax⟩
  · simp [attach, NetmapTx.start, NetmapTx.uncounted, NetmapTx.taken, hempty]

section

variable (h : s.Sound)
include h

/-- No two threads are between taking `tx_lock` and giving it back. -/
theorem Sound.holds_eq {i j : ι} (hi : (s.caller i).Holds) (hj : (s.caller j).Holds) : i = j := by
  have howner := ((h.callerLock i).1 hi).symm.trans ((h.callerLock j).1 hj)
  simpa using howner

theorem Sound.not_send {i : ι} (hi : (s.caller i).Holds) : s.send ≠ .locked := by
  intro hsend
  have howner := ((h.callerLock i).1 hi).symm.trans (h.sendLock.1 hsend)
  simp at howner

/-- A step of the send thread that does not touch the lock. -/
theorem Sound.sendOn {tx : NetmapTx n}
    (hsend : s.send = .unlocked ∨ s.send = .locked ∧ tx.pc = .wait)
    (htx : tx.GoesOn ∧ tx.uncounted = s.tx.uncounted) : Sound { s with tx := tx } := by
  refine ⟨htx.1, h.sendLock, h.callerLock, ?_, ?_, ?_, ?_⟩
  · intro hlocked
    exact .inr (hsend.resolve_left (by simp [show s.send = .locked from hlocked])).2
  · intro hunlocked hlocked
    exact absurd (hsend.resolve_left hunlocked).1 hlocked
  · rw [htx.2]
    exact h.late
  · intro hwait
    have hwait : s.send = .waiting false := hwait
    simp [hwait] at hsend

/-- The send thread takes the lock. -/
theorem Sound.sendLocks (hfree : s.txLock = none) (hpc : s.tx.pc = .top ∨ s.tx.pc = .wait) :
    Sound { s with send := .locked, txLock := some .send } := by
  refine ⟨h.goesOn, by simp, ?_, fun _ => hpc, by simp, h.late, by simp⟩
  intro i
  simpa [hfree] using h.callerLock i

/-- The send thread gives the lock back, to wait or to go on. -/
theorem Sound.sendUnlocks (hsend : s.send = .locked) (pc : WaitPc) (hpc : pc ≠ .locked)
    (hwait : s.tx.pc = .wait) (hzero : pc = .waiting false → s.tx.pktsToSend = 0) :
    Sound { s with send := pc, txLock := none } := by
  refine ⟨h.goesOn, by simpa using hpc, ?_, fun hlocked => absurd hlocked hpc,
    fun _ _ => hwait, h.late, fun hasleep => .inl (hzero hasleep)⟩
  intro i
  have hholds : ¬ (s.caller i).Holds := fun hi => h.not_send hi hsend
  simpa using hholds

theorem Sound.ifNetmapSend {input : SendInput} (hstop : input.stop = false) :
    (s.ifNetmapSend api input).Sound := by
  have htx : (s.tx.ifNetmapSend api input).GoesOn ∧
      (s.tx.ifNetmapSend api input).uncounted = s.tx.uncounted := h.goesOn.ifNetmapSend hstop
  have hdone := h.goesOn.done
  have htop := h.atTop
  rcases s with ⟨tx, send, caller, txLock⟩
  dsimp only at hdone htop htx
  cases send with
  | unlocked =>
    cases hpc : tx.pc with
    | top =>
      simp only [ifNetmapSend, hpc]
      by_cases hfree : txLock = none
      · simpa only [if_pos hfree] using h.sendLocks hfree (.inl hpc)
      · simpa only [if_neg hfree] using h
    | wait =>
      simp only [ifNetmapSend, hpc]
      rw [if_neg (by simp [hdone])]
      have hwake : NetmapTx.SendStep api tx _ := .wake hpc
      exact h.sendOn (.inl rfl) (h.goesOn.sendStep hwake)
    | _ =>
      simp only [ifNetmapSend, hpc]
      exact h.sendOn (.inl rfl) htx
  | locked =>
    rcases htop rfl with hpc | hpc
    · have hwait : (tx.ifNetmapSend api input).pc = .wait := by simp [NetmapTx.ifNetmapSend, hpc]
      simp only [ifNetmapSend, hpc]
      exact h.sendOn (.inr ⟨rfl, hwait⟩) htx
    · simp only [ifNetmapSend, hpc]
      by_cases hzero : tx.pktsToSend = 0 ∧ !tx.done
      · rw [if_pos hzero]
        exact h.sendUnlocks rfl (.waiting false) (by simp) hpc fun _ => hzero.1
      · rw [if_neg hzero]
        exact h.sendUnlocks rfl .unlocked (by simp) hpc (by simp)
  | waiting signal =>
    simp only [ifNetmapSend]
    by_cases hwake : signal || input.timedOut
    · rw [if_pos hwake]
      exact ⟨h.goesOn, by simpa using h.sendLock, h.callerLock, by simp,
        fun _ _ => h.atWait (by simp) (by simp), h.late, by simp⟩
    · rwa [if_neg hwake]
  | woken timedOut =>
    have hwait := h.atWait (by simp) (by simp)
    simp only [ifNetmapSend]
    by_cases hfree : txLock = none
    · rw [if_pos hfree]
      have hsame : (if timedOut then input.stop else tx.done) = tx.done := by simp [hstop, hdone]
      rw [hsame]
      exact h.sendLocks hfree (.inr hwait)
    · rwa [if_neg hfree]

/-- Nobody is sending, and the send thread is not to be woken. -/
theorem Sound.packets_eq_nil (hwait : s.send = .waiting false) (hidle : ∀ i, s.caller i = .idle) :
    s.tx.ifSnd.packets = [] := by
  have hzero : s.tx.pktsToSend = 0 := by
    refine (h.asleep hwait).resolve_right ?_
    rintro ⟨i, hi, -⟩
    simp [hidle] at hi
  have hcount : (s.tx.ifSnd.packets.length : ℤ) = s.tx.txPktsToSend := by
    obtain ⟨late, hmem, hcard⟩ := h.late
    obtain rfl : late = ∅ := by
      ext i
      simp [hmem, hidle, StartPc.Late]
    have hpc : s.tx.pc = .wait := h.atWait (by simp [hwait]) (by simp [hwait])
    simp [NetmapTx.uncounted, NetmapTx.taken, hpc] at hcard
    omega
  have hlength := h.goesOn.snd.length_lt
  have hword := congrArg BitVec.toNat hzero
  rw [NetmapTx.pktsToSend, ← hcount, BitVec.ofInt_natCast, BitVec.toNat_ofNat,
    Nat.mod_eq_of_lt hlength] at hword
  exact List.length_eq_zero_iff.1 hword

end

variable [DecidableEq ι]

/-- One thread goes on. -/
theorem late_update {caller : ι → StartPc} {late : Finset ι}
    (hlate : ∀ j, j ∈ late ↔ (caller j).Late) (i : ι) (pc : StartPc) :
    ∃ late' : Finset ι, (∀ j, j ∈ late' ↔ (Function.update caller i pc j).Late) ∧
      (late'.card : ℤ) + (if (caller i).Late then 1 else 0) =
        late.card + (if pc.Late then 1 else 0) := by
  have hothers (late' : Finset ι) (hi : i ∈ late' ↔ pc.Late)
      (hne : ∀ j, j ≠ i → (j ∈ late' ↔ j ∈ late)) (j : ι) :
      j ∈ late' ↔ (Function.update caller i pc j).Late := by
    by_cases hj : j = i
    · subst hj
      rwa [Function.update_self]
    · rw [Function.update_of_ne hj, hne j hj, hlate]
  by_cases hpc : pc.Late
  · refine ⟨insert i late, hothers _ (by simp [hpc]) (by simp +contextual), ?_⟩
    by_cases hi : (caller i).Late
    · simp [hpc, hi, Finset.insert_eq_of_mem ((hlate i).2 hi)]
    · simp [hpc, hi, Finset.card_insert_of_notMem (mt (hlate i).1 hi)]
  · refine ⟨late.erase i, hothers _ (by simp [hpc]) (by simp +contextual), ?_⟩
    by_cases hi : (caller i).Late
    · have hcard := Finset.card_erase_add_one ((hlate i).2 hi)
      simp only [hpc, hi, if_true, if_false]
      omega
    · simp [hpc, hi, Finset.erase_eq_of_notMem (mt (hlate i).1 hi)]

section

variable (h : s.Sound)
include h

theorem Sound.ifqHandoff (i : ι) (m : List Mbuf) : (s.ifqHandoff i m).Sound := by
  unfold TxThreads.ifqHandoff
  split
  next hidle hq =>
    obtain ⟨hroom, rfl⟩ := IfQueue.ifqEnqueue_of_none hq
    refine ⟨⟨h.goesOn.done, h.goesOn.pc, h.goesOn.held, h.goesOn.snd.ifqEnqueue hq⟩,
      h.sendLock, ?_, h.atTop, h.atWait, ?_, ?_⟩
    · intro j
      by_cases hj : j = i
      · subst hj
        simp [← h.callerLock, hidle, StartPc.Holds]
      · simp [Function.update_of_ne hj, h.callerLock]
    · obtain ⟨late, hmem, hcard⟩ := h.late
      obtain ⟨late', hmem', hcard'⟩ := late_update hmem i .queued
      refine ⟨late', hmem', ?_⟩
      simp [hidle, StartPc.Late] at hcard'
      simp only [NetmapTx.uncounted, NetmapTx.taken, IfQueue.packets] at hcard ⊢
      simp only [List.length_append, List.length_singleton] at hcard ⊢
      omega
    · intro hsend
      refine (h.asleep hsend).imp id ?_
      rintro ⟨j, hj, hone⟩
      have hne : j ≠ i := by
        rintro rfl
        simp [hidle] at hj
      exact ⟨j, by simpa [Function.update_of_ne hne] using hj, hone⟩
  next => exact h

variable {i : ι}

/-- A thread goes on whose packet stays counted, or not counted. -/
theorem Sound.late_same {pc : StartPc} (hpc : pc.Late ↔ (s.caller i).Late) :
    ∃ late : Finset ι, (∀ j, j ∈ late ↔ (Function.update s.caller i pc j).Late) ∧
      s.tx.uncounted = late.card := by
  obtain ⟨late, hmem, hcard⟩ := h.late
  obtain ⟨late', hmem', hcard'⟩ := late_update hmem i pc
  refine ⟨late', hmem', ?_⟩
  simp only [hpc] at hcard'
  omega

/-- A thread goes on that keeps `tx_lock`. -/
theorem Sound.holds_update (hi : (s.caller i).Holds) {pc : StartPc} (hpc : pc.Holds) (j : ι) :
    (Function.update s.caller i pc j).Holds ↔ s.txLock = some (.caller j) := by
  by_cases hj : j = i
  · subst hj
    simpa [hpc] using (h.callerLock j).1 hi
  · simpa [Function.update_of_ne hj] using h.callerLock j

theorem Sound.lock (hi : s.caller i = .queued) (hfree : s.txLock = none) :
    Sound { s with
      txLock := some (.caller i)
      caller := Function.update s.caller i .locked } := by
  have hsend : s.send ≠ .locked := by simp [h.sendLock, hfree]
  have hholds (j : ι) : ¬ (s.caller j).Holds := by simp [h.callerLock, hfree]
  refine ⟨h.goesOn, by simp [hsend], ?_, h.atTop, h.atWait,
    h.late_same (by simp [hi, StartPc.Late]), ?_⟩
  · intro j
    by_cases hj : j = i
    · subst hj
      simp [StartPc.Holds]
    · simp [Function.update_of_ne hj, hholds, Ne.symm hj]
  · intro hwait
    refine (h.asleep hwait).imp id ?_
    rintro ⟨j, hj, -⟩
    exact absurd (.inr (.inl hj)) (hholds j)

theorem Sound.count {i : ι} (hi : s.caller i = .locked) :
    Sound { s with
      tx := s.tx.txStep api .start
      caller := Function.update s.caller i .counted } := by
  have hholds : (s.caller i).Holds := .inl hi
  refine ⟨⟨h.goesOn.done, h.goesOn.pc, h.goesOn.held, h.goesOn.snd⟩, h.sendLock,
    h.holds_update hholds (by simp [StartPc.Holds]), h.atTop, h.atWait, ?_, ?_⟩
  · obtain ⟨late, hmem, hcard⟩ := h.late
    obtain ⟨late', hmem', hcard'⟩ := late_update hmem i .counted
    refine ⟨late', hmem', ?_⟩
    rw [NetmapTx.start_uncounted, hcard]
    simp [hi, StartPc.Late] at hcard'
    omega
  · -- nobody else has counted a packet and not signalled, so the count was zero
    intro hwait
    refine .inr ⟨i, by simp, ?_⟩
    rcases h.asleep hwait with hzero | ⟨j, hj, -⟩
    · simp only [NetmapTx.pktsToSend, NetmapTx.txStep, BitVec.ofInt_add] at hzero ⊢
      rw [hzero]
      rfl
    · obtain rfl := h.holds_eq hholds (.inr (.inl hj))
      simp [hi] at hj

theorem Sound.signal (hi : s.caller i = .counted) :
    Sound { s with
      send := if s.tx.pktsToSend = 1 then s.send.cvSignal else s.send
      caller := Function.update s.caller i .signalled } := by
  have hholds : (s.caller i).Holds := .inr (.inl hi)
  have hcaller := h.holds_update hholds (show StartPc.signalled.Holds by simp [StartPc.Holds])
  have hlate := h.late_same (i := i) (show StartPc.signalled.Late ↔ _ by simp [hi, StartPc.Late])
  by_cases hone : s.tx.pktsToSend = 1
  · simp only [hone, if_true]
    refine ⟨h.goesOn, by rw [WaitPc.cvSignal_eq_locked, h.sendLock], hcaller, ?_, ?_, hlate, ?_⟩
    · rw [WaitPc.cvSignal_eq_locked]
      exact h.atTop
    · rw [Ne, Ne, WaitPc.cvSignal_eq_locked, WaitPc.cvSignal_eq_unlocked]
      exact h.atWait
    · intro hwait
      exact absurd hwait (WaitPc.cvSignal_ne_waiting _)
  · simp only [hone, if_false]
    refine { h with callerLock := hcaller, late := hlate, asleep := ?_ }
    intro hwait
    refine (h.asleep hwait).imp id ?_
    rintro ⟨j, -, hj⟩
    exact absurd hj hone

theorem Sound.unlock (hi : s.caller i = .signalled) :
    Sound { s with txLock := none, caller := Function.update s.caller i .idle } := by
  have hholds : (s.caller i).Holds := .inr (.inr hi)
  refine ⟨h.goesOn, by simpa using h.not_send hholds, ?_, h.atTop, h.atWait,
    h.late_same (by simp [hi, StartPc.Late]), ?_⟩
  · intro j
    by_cases hj : j = i
    · subst hj
      simp [StartPc.Holds]
    · simpa [Function.update_of_ne hj] using fun hother => hj (h.holds_eq hother hholds)
  · intro hwait
    refine (h.asleep hwait).imp id ?_
    rintro ⟨j, hj, -⟩
    obtain rfl := h.holds_eq hholds (.inr (.inl hj))
    simp [hi] at hj

theorem Sound.ifNetmapStart (i : ι) : (s.ifNetmapStart api i).Sound := by
  unfold TxThreads.ifNetmapStart
  cases hi : s.caller i with
  | idle => exact h
  | queued =>
    by_cases hfree : s.txLock = none
    · simpa only [if_pos hfree] using h.lock hi hfree
    · simpa only [if_neg hfree] using h
  | locked => exact h.count hi
  | counted => exact h.signal hi
  | signalled => exact h.unlock hi

theorem Sound.step {ev : WakeEvent ι} (hev : ev.GoesOn) : (s.step api ev).Sound := by
  cases ev with
  | enqueue i m => exact h.ifqHandoff i m
  | start i => exact h.ifNetmapStart i
  | grow room => exact { h with goesOn := { h.goesOn with } }
  | send input => exact h.ifNetmapSend hev

end

end TxThreads

/-- However the threads interleave, the send thread does not sleep over a packet. -/
theorem no_lost_wakeup {n : ℕ} {ι : Type*} [DecidableEq ι] (api : NetmapApi)
    (ring : NetmapRing n) (ifSnd : IfQueue) (hempty : ifSnd.packets = [])
    (hmax : ifSnd.ifqMaxlen < 2 ^ 31) (hdrvMax : ifSnd.ifqDrvMaxlen < 2 ^ 31)
    (events : List (WakeEvent ι)) (hevents : ∀ ev ∈ events, ev.GoesOn) :
    let s := run (TxThreads.step api) (TxThreads.attach ring ifSnd) events
    s.send = .waiting false → (∀ i, s.caller i = .idle) → s.tx.ifSnd.packets = [] := by
  intro s hwait hidle
  have hsound : s.Sound :=
    run_invariant (fun _ _ hs hev => hs.step hev)
      (TxThreads.sound_attach ring hempty hmax hdrvMax) (along_of_forall hevents _)
  exact hsound.packets_eq_nil hwait hidle

/-- The send thread sleeps and is woken for the packet of one thread.  It finds that of
another too, and has sent both when the second is counted. -/
def sentEarly : List (WakeEvent (Fin 2)) :=
  sends 3 ++ .enqueue 0 [Mbuf.ofBytes [1]] :: List.replicate 4 (.start 0) ++
    .enqueue 1 [Mbuf.ofBytes [2]] :: sends 18 ++ List.replicate 4 (.start 1) ++ sends 3
where
  sends (k : ℕ) : List (WakeEvent (Fin 2)) := List.replicate k (.send ⟨false, false, 1, none⟩)

theorem no_lost_wakeup_early :
    let s := run (TxThreads.step .from10) (TxThreads.attach ring4 (burst [])) sentEarly
    s.send = .waiting false ∧ s.tx.handed = [[1], [2]] ∧ s.tx.ifSnd.packets = [] := by
  have hwait : (run (TxThreads.step .from10) (TxThreads.attach ring4 (burst []))
      sentEarly).send = .waiting false := by decide +kernel
  refine ⟨hwait, by decide +kernel, ?_⟩
  exact no_lost_wakeup .from10 ring4 (burst []) rfl (by decide) (by decide) sentEarly
    (by decide +kernel) hwait (by decide +kernel)

end Libuinet
