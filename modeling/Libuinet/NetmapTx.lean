import Libuinet.Execution
import Libuinet.SlotRing
import Libuinet.Sockbuf

namespace Libuinet

open Execution SlotRing

/-- `struct ifaltq` without ALTQ: the queue, and the packets `IFQ_DRV_DEQUEUE` has moved
to the driver's own list. -/
structure IfQueue where
  ifqHead : List (List Mbuf)
  ifqDrvHead : List (List Mbuf)
  ifqMaxlen : ℕ
  ifqDrvMaxlen : ℕ

namespace IfQueue

def ifqEnqueue (q : IfQueue) (m : List Mbuf) : Option Errno × IfQueue :=
  if q.ifqMaxlen ≤ q.ifqHead.length then (some .enobufs, q)
  else (none, { q with ifqHead := q.ifqHead ++ [m] })

def ifqDrvDequeue (q : IfQueue) : Option (List Mbuf) × IfQueue :=
  match q.ifqDrvHead with
  | m :: ms => (some m, { q with ifqDrvHead := ms })
  | [] =>
    match q.ifqHead with
    | [] => (none, q)
    | m :: ms =>
      (some m, { q with
        ifqHead := ms.drop q.ifqDrvMaxlen
        ifqDrvHead := ms.take q.ifqDrvMaxlen })

def packets (q : IfQueue) : List (List Mbuf) := q.ifqDrvHead ++ q.ifqHead

theorem ifqDrvDequeue_fst (q : IfQueue) : q.ifqDrvDequeue.1 = q.packets.head? := by
  rcases q with ⟨_ | ⟨m, ms⟩, _ | ⟨m', ms'⟩, _, _⟩ <;> rfl

end IfQueue

/-- The layout of `struct netmap_ring`, `NETMAP_API` below 10 or from 10 on. -/
inductive NetmapApi where
  | below10
  | from10
  deriving DecidableEq

structure NetmapSlot where
  len : ℕ
  buf : List UInt8

def NetmapSlot.data (s : NetmapSlot) : List UInt8 := s.buf.take s.len

/-- `struct netmap_ring` of `n` slots.  One version has `avail`, the other `head` and
`tail`. -/
structure NetmapRing (n : ℕ) where
  nrBufSize : ℕ
  slot : Fin n → NetmapSlot
  cur : Fin n
  avail : Fin n
  head : Fin n
  tail : Fin n

namespace NetmapRing

variable {n : ℕ} (api : NetmapApi)

variable (r : NetmapRing n)

def ifNetmapTxavail : Fin n :=
  match api with
  | .below10 => r.avail
  | .from10 => r.tail - r.cur

def ifNetmapTxcur : Fin n := r.cur

def ifNetmapTxslot (slotno : Fin n) (len : ℕ) : Option (NetmapRing n × Fin n) :=
  if len ≤ r.nrBufSize then
    some ({ r with slot := Function.update r.slot slotno { r.slot slotno with len := len } },
      next slotno)
  else none

def copyTo (slotno : Fin n) (bytes : List UInt8) : NetmapRing n :=
  { r with slot := Function.update r.slot slotno { r.slot slotno with
      buf := bytes ++ (r.slot slotno).buf.drop bytes.length } }

def ifNetmapTxsync (avail cur : Fin n) : NetmapRing n :=
  match api with
  | .below10 => { r with cur := cur, avail := avail }
  | .from10 => { r with head := cur, cur := cur }

def published : Fin n :=
  match api with
  | .below10 => r.cur
  | .from10 => r.head

def grow (room : ℕ) : NetmapRing n :=
  let space : Fin n :=
    ⟨min ((r.ifNetmapTxavail api).1 + room) (n - 1), by have := r.cur.pos; omega⟩
  { r with
    avail := if api = .below10 then space else r.avail
    tail := if api = .from10 then r.cur + space else r.tail }

end NetmapRing

inductive SendPc where
  /-- at the start of the `do` loop -/
  | top
  /-- waiting for packets -/
  | wait
  /-- at `while (m)`, and polling within it -/
  | outer
  /-- at `while (m && avail)` -/
  | fill
  /-- about to synchronise -/
  | sync
  | synced
  | stopped
  /-- an assertion has failed -/
  | aborted
  deriving DecidableEq

/-- The answers a step of the thread gets: whether `cv_timedwait` timed out,
`kthread_stop_check`, the result of `poll`, and the error of the `ioctl`. -/
structure SendInput where
  timedOut : Bool
  stop : Bool
  rv : ℤ
  error : Option Errno

def ebusy : Errno := .other 16

/-- The interface and its send thread.  `hwcur` is the kernel's own copy of the position;
`dequeued` and `handed` keep the packets that were taken off the queue and what the
kernel was given. -/
structure NetmapTx (n : ℕ) where
  ifSnd : IfQueue
  txPktsToSend : ℤ
  ring : NetmapRing n
  hwcur : Fin n
  pc : SendPc
  m : Option (List Mbuf)
  avail : Fin n
  cur : Fin n
  pktsSent : ℕ
  done : Bool
  dequeued : List (List Mbuf)
  handed : List (List UInt8)

/-- What other threads and the kernel do, and the steps of the send thread. -/
inductive TxEvent where
  | enqueue (m : List Mbuf)
  | start
  | grow (room : ℕ)
  | send (input : SendInput)

namespace NetmapTx

variable {n : ℕ} (api : NetmapApi)

def dequeue (s : NetmapTx n) : NetmapTx n :=
  { s with
    m := s.ifSnd.ifqDrvDequeue.1
    ifSnd := s.ifSnd.ifqDrvDequeue.2
    dequeued := s.dequeued ++ s.ifSnd.ifqDrvDequeue.1.toList }

def unpublished (s : NetmapTx n) (cur : Fin n) : List (List UInt8) :=
  contents (fun i => (s.ring.slot i).data) s.hwcur (gap s.hwcur cur)

/-- `NIOCTXSYNC` succeeds: the kernel takes the slots up to the published position. -/
def nioctxsync (s : NetmapTx n) : NetmapTx n :=
  { s with
    handed := s.handed ++ s.unpublished (s.ring.published api)
    hwcur := s.ring.published api }

def ifNetmapSend (s : NetmapTx n) (input : SendInput) : NetmapTx n :=
  match s.pc with
  | .top => { s with txPktsToSend := s.txPktsToSend - s.pktsSent, pc := .wait }
  | .wait =>
    if s.txPktsToSend = 0 ∧ !s.done then
      { s with done := if input.timedOut then input.stop else s.done }
    else if s.done then { s with pc := .stopped }
    else dequeue { s with pktsSent := 0, pc := .outer }
  | .outer =>
    if s.m = none then { s with pc := .sync }
    else if s.avail.1 = 0 ∧ !s.done then
      -- no slot is known to be free: poll and look again
      { s with
        done := if input.rv = 0 then input.stop else s.done
        avail := s.ring.ifNetmapTxavail api }
    else if s.done || input.stop then { s with done := true, pc := .sync }
    -- the position is the ring's, wherever filling has stopped
    else { s with cur := s.ring.ifNetmapTxcur, pc := .fill }
  | .fill =>
    match s.m with
    | none => { s with pc := .outer }
    | some m =>
      if s.avail.1 = 0 then { s with pc := .outer }
      else
        let pktlen := chainLen m
        match s.ring.ifNetmapTxslot s.cur pktlen with
        | none => { s with pc := .aborted }
        | some (ring, cur) =>
          dequeue { s with
            avail := ⟨s.avail.1 - 1, by omega⟩
            pktsSent := s.pktsSent + 1
            ring := ring.copyTo s.cur (mCopydata m 0 pktlen)
            cur := cur }
  | .sync =>
    if s.pktsSent = 0 then { s with pc := if s.done then .stopped else .top }
    else
      let s := { s with ring := s.ring.ifNetmapTxsync api s.avail s.cur }
      match input.error with
      | none => { s.nioctxsync api with pc := .synced }
      -- `EBUSY` is tried again
      | some error => if error = ebusy then s else { s with pc := .synced }
  | .synced =>
    { s with
      avail := s.ring.ifNetmapTxavail api
      pc := if s.done then .stopped else .top }
  | .stopped => s
  | .aborted => s

def txStep (s : NetmapTx n) : TxEvent → NetmapTx n
  | .enqueue m => { s with ifSnd := (s.ifSnd.ifqEnqueue m).2 }
  -- `if_netmap_start`
  | .start => { s with txPktsToSend := s.txPktsToSend + 1 }
  | .grow room => { s with ring := s.ring.grow api room }
  | .send input => s.ifNetmapSend api input

def start (ring : NetmapRing n) (ifSnd : IfQueue) (txPktsToSend : ℤ) : NetmapTx n where
  ifSnd := ifSnd
  txPktsToSend := txPktsToSend
  ring := ring
  hwcur := ring.cur
  pc := .top
  m := none
  avail := ⟨0, ring.cur.pos⟩
  cur := ring.cur
  pktsSent := 0
  done := false
  dequeued := []
  handed := []

end NetmapTx

/-- The thread is not told to stop, and `NIOCTXSYNC` fails with `EBUSY` at most. -/
def TxEvent.Undisturbed : TxEvent → Prop
  | .send input => input.stop = false ∧ (input.error = none ∨ input.error = some ebusy)
  | _ => True

instance : (ev : TxEvent) → Decidable ev.Undisturbed
  | .send _ => inferInstanceAs (Decidable (_ ∧ _))
  | .enqueue _ | .start | .grow _ => instDecidableTrue

namespace NetmapTx

variable {n : ℕ} {api : NetmapApi}

/-- The steps of a thread that nobody stops. -/
inductive SendStep (api : NetmapApi) (s : NetmapTx n) : NetmapTx n → Prop where
  | top (hpc : s.pc = .top) :
    SendStep api s { s with txPktsToSend := s.txPktsToSend - s.pktsSent, pc := .wait }
  | sleep (hpc : s.pc = .wait) : SendStep api s s
  | wake (hpc : s.pc = .wait) : SendStep api s (dequeue { s with pktsSent := 0, pc := .outer })
  | drained (hpc : s.pc = .outer) (hm : s.m = none) : SendStep api s { s with pc := .sync }
  | poll (hpc : s.pc = .outer) (hm : s.m ≠ none) (havail : s.avail.1 = 0) :
    SendStep api s { s with avail := s.ring.ifNetmapTxavail api }
  | load (hpc : s.pc = .outer) (hm : s.m ≠ none) (havail : s.avail.1 ≠ 0) :
    SendStep api s { s with cur := s.ring.ifNetmapTxcur, pc := .fill }
  | leave (hpc : s.pc = .fill) (h : s.m = none ∨ s.avail.1 = 0) :
    SendStep api s { s with pc := .outer }
  | fill {m : List Mbuf} {ring : NetmapRing n} {cur : Fin n} (hpc : s.pc = .fill)
    (hm : s.m = some m) (havail : s.avail.1 ≠ 0)
    (hslot : s.ring.ifNetmapTxslot s.cur (chainLen m) = some (ring, cur)) :
    SendStep api s (dequeue { s with
      avail := ⟨s.avail.1 - 1, by omega⟩
      pktsSent := s.pktsSent + 1
      ring := ring.copyTo s.cur (mCopydata m 0 (chainLen m))
      cur := cur })
  | abort {m : List Mbuf} (hpc : s.pc = .fill) (hm : s.m = some m) (havail : s.avail.1 ≠ 0)
    (hslot : s.ring.ifNetmapTxslot s.cur (chainLen m) = none) :
    SendStep api s { s with pc := .aborted }
  | nothing (hpc : s.pc = .sync) (hsent : s.pktsSent = 0) : SendStep api s { s with pc := .top }
  | busy (hpc : s.pc = .sync) (hsent : s.pktsSent ≠ 0) :
    SendStep api s { s with ring := s.ring.ifNetmapTxsync api s.avail s.cur }
  | sync (hpc : s.pc = .sync) (hsent : s.pktsSent ≠ 0) :
    SendStep api s { nioctxsync api
      { s with ring := s.ring.ifNetmapTxsync api s.avail s.cur } with pc := .synced }
  | synced (hpc : s.pc = .synced) :
    SendStep api s { s with avail := s.ring.ifNetmapTxavail api, pc := .top }
  | stuck (hpc : s.pc = .aborted) : SendStep api s s

theorem ifNetmapSend_step (api : NetmapApi) {s : NetmapTx n} (hdone : s.done = false)
    (hpc : s.pc ≠ .stopped) {input : SendInput} (hinput : (TxEvent.send input).Undisturbed) :
    SendStep api s (s.ifNetmapSend api input) := by
  obtain ⟨hstop, herror⟩ := hinput
  rcases s with ⟨_, toSend, ring, _, pc, m, avail, cur, pktsSent, done, _, _⟩
  dsimp only at hdone hpc
  subst hdone
  cases pc with
  | top => exact .top rfl
  | wait =>
    by_cases hsend : toSend = 0
    · simpa [ifNetmapSend, hsend, hstop] using (SendStep.sleep rfl : SendStep api _ _)
    · simpa [ifNetmapSend, hsend] using (SendStep.wake rfl : SendStep api _ _)
  | outer =>
    by_cases hm : m = none
    · simpa [ifNetmapSend, hm] using (SendStep.drained rfl rfl : SendStep api _ _)
    · by_cases havail : avail.1 = 0
      · simpa [ifNetmapSend, hm, havail, hstop] using SendStep.poll rfl hm havail
      · simpa [ifNetmapSend, hm, havail, hstop] using SendStep.load rfl hm havail
  | fill =>
    cases m with
    | none => exact .leave rfl (.inl rfl)
    | some m =>
      by_cases havail : avail.1 = 0
      · simpa [ifNetmapSend, havail] using SendStep.leave rfl (.inr havail)
      · cases hslot : ring.ifNetmapTxslot cur (chainLen m) with
        | none => simpa [ifNetmapSend, havail, hslot] using SendStep.abort rfl rfl havail hslot
        | some r => simpa [ifNetmapSend, havail, hslot] using SendStep.fill rfl rfl havail hslot
  | sync =>
    by_cases hsent : pktsSent = 0
    · subst hsent
      exact .nothing rfl rfl
    · rcases herror with herror | herror
      · simpa [ifNetmapSend, hsent, herror] using SendStep.sync rfl hsent
      · simpa [ifNetmapSend, hsent, herror] using SendStep.busy rfl hsent
  | synced => exact .synced rfl
  | stopped => exact absurd rfl hpc
  | aborted => exact .stuck rfl

/-- A packet is written to a slot, and the position moves on. -/
theorem txslot_copyTo {r r' : NetmapRing n} {i j : Fin n} {bytes : List UInt8}
    (h : r.ifNetmapTxslot i bytes.length = some (r', j)) :
    (fun k => ((r'.copyTo i bytes).slot k).data) =
      Function.update (fun k => (r.slot k).data) i bytes ∧
      (r'.copyTo i bytes).cur = r.cur ∧ j = next i := by
  unfold NetmapRing.ifNetmapTxslot at h
  split at h
  · obtain ⟨rfl, rfl⟩ : _ = r' ∧ _ = j := by simpa using h
    refine ⟨?_, rfl, rfl⟩
    funext k
    by_cases hk : k = i
    · subst hk
      simp [NetmapRing.copyTo, NetmapSlot.data]
    · simp [NetmapRing.copyTo, hk]
  · cases h

section

variable (r : NetmapRing n) (avail cur : Fin n)

@[simp] theorem txsync_cur : (r.ifNetmapTxsync api avail cur).cur = cur := by
  cases api <;> rfl

@[simp] theorem txsync_published : (r.ifNetmapTxsync api avail cur).published api = cur := by
  cases api <;> rfl

@[simp] theorem txsync_slot : (r.ifNetmapTxsync api avail cur).slot = r.slot := by
  cases api <;> rfl

end

/-- What holds of the positions while the thread is not stopped. -/
structure Placed (s : NetmapTx n) : Prop where
  done : s.done = false
  pc : s.pc ≠ .stopped
  held : s.m ≠ none → s.pc = .outer ∨ s.pc = .fill ∨ s.pc = .aborted
  ringCur : s.pc ≠ .sync ∨ s.pktsSent = 0 → s.ring.cur = s.hwcur
  -- there is room for what the thread may still write
  room : s.pc = .fill → gap s.hwcur s.cur + s.avail.1 < n
  unsent : s.pktsSent = 0 → s.cur = s.hwcur
  idle : s.pc = .top ∨ s.pc = .wait ∨ s.pc = .synced → s.cur = s.hwcur

theorem placed_start (ring : NetmapRing n) (ifSnd : IfQueue) (txPktsToSend : ℤ) :
    (start ring ifSnd txPktsToSend).Placed := by
  refine ⟨rfl, ?_, ?_, fun _ => rfl, ?_, fun _ => rfl, fun _ => rfl⟩ <;> simp [start]

theorem Placed.sendStep {s s' : NetmapTx n} (h : s.Placed) (hs : SendStep api s s') :
    s'.Placed := by
  obtain ⟨hdone, hpcs, hheld, hringCur, hroom, hunsent, hidle⟩ := h
  cases hs with
  | top hpc | synced hpc =>
    refine ⟨hdone, by simp, ?_, ?_, by simp, hunsent, ?_⟩
    · intro hm
      simpa [hpc] using hheld hm
    · intro _
      exact hringCur (by simp [hpc])
    · intro _
      exact hidle (by simp [hpc])
  | sleep hpc => exact ⟨hdone, hpcs, hheld, hringCur, hroom, hunsent, hidle⟩
  | stuck hpc => exact ⟨hdone, hpcs, hheld, hringCur, hroom, hunsent, hidle⟩
  | wake hpc =>
    refine ⟨hdone, by simp [dequeue], by simp [dequeue], ?_, by simp [dequeue], ?_,
      by simp [dequeue]⟩
    · intro _
      exact hringCur (by simp [hpc])
    · intro _
      exact hidle (by simp [hpc])
  | drained hpc hm =>
    refine ⟨hdone, by simp, by simp [hm], ?_, by simp, hunsent, by simp⟩
    intro _
    exact hringCur (by simp [hpc])
  | poll hpc hm havail =>
    refine ⟨hdone, hpcs, hheld, hringCur, ?_, hunsent, hidle⟩
    simp [hpc]
  | load hpc hm havail =>
    have hcur : s.ring.cur = s.hwcur := hringCur (by simp [hpc])
    refine ⟨hdone, by simp, by simp, fun _ => hcur, ?_, fun _ => hcur, by simp⟩
    intro _
    simp [NetmapRing.ifNetmapTxcur, hcur]
  | leave hpc hm | abort hpc hm havail hslot =>
    refine ⟨hdone, by simp, by simp, ?_, by simp, hunsent, by simp⟩
    intro _
    exact hringCur (by simp [hpc])
  | @fill m ring cur hpc hm havail hslot =>
    rw [mCopydata_chainLen]
    rw [← chainBytes_length] at hslot
    obtain ⟨-, hcur, rfl⟩ := txslot_copyTo hslot
    have hroom := hroom hpc
    refine ⟨hdone, by simpa [dequeue] using hpcs, by simp [dequeue, hpc], ?_, ?_,
      by simp [dequeue], by simp [dequeue, hpc]⟩
    · intro _
      exact hcur.trans (hringCur (by simp [hpc]))
    · intro _
      change gap s.hwcur (next s.cur) + (s.avail.1 - 1) < n
      rw [gap_next _ _ (by omega)]
      omega
  | nothing hpc hsent =>
    refine ⟨hdone, by simp, ?_, fun _ => hringCur (.inr hsent), by simp, hunsent,
      fun _ => hunsent hsent⟩
    intro hm
    simpa [hpc] using hheld hm
  | busy hpc hsent =>
    refine ⟨hdone, hpcs, hheld, ?_, by simp [hpc], hunsent, by simp [hpc]⟩
    simp [hpc, hsent]
  | sync hpc hsent =>
    refine ⟨hdone, by simp, ?_, ?_, by simp, ?_, ?_⟩
    · intro hm
      simpa [hpc] using hheld hm
    · simp [nioctxsync]
    · simp [nioctxsync]
    · simp [nioctxsync]

theorem Placed.step {s : NetmapTx n} (h : s.Placed) {ev : TxEvent} (hev : ev.Undisturbed) :
    (s.txStep api ev).Placed := by
  cases ev with
  | send input => exact h.sendStep (ifNetmapSend_step api h.done h.pc hev)
  | _ => exact { h with }

end NetmapTx

/-- A packet that is copied fits in a buffer, and when it goes to the last slot the thread
knows of, no further packet is waiting. -/
def TxEvent.Fits {n : ℕ} (s : NetmapTx n) : TxEvent → Prop
  | .send _ => s.pc = .fill → s.avail.1 ≠ 0 → ∀ m ∈ s.m,
    chainLen m ≤ s.ring.nrBufSize ∧ (s.avail.1 = 1 → s.ifSnd.packets = [])
  | _ => True

instance {n : ℕ} (s : NetmapTx n) : (ev : TxEvent) → Decidable (ev.Fits s)
  | .send _ => inferInstanceAs (Decidable (_ → _ → ∀ m ∈ s.m, _ ∧ _))
  | .enqueue _ | .start | .grow _ => instDecidableTrue

namespace NetmapTx

variable {n : ℕ} {api : NetmapApi}

/-- Everything dequeued was handed over, is in a slot that will be, or is at hand. -/
structure Exact (s : NetmapTx n) : Prop where
  stream : s.handed ++ s.unpublished s.cur ++ s.m.toList.map chainBytes =
    s.dequeued.map chainBytes
  alive : s.pc ≠ .aborted
  fresh : s.pc = .outer → s.m ≠ none → s.cur = s.hwcur
  filled : s.pc = .fill → s.avail.1 = 0 → s.m = none

theorem exact_start (ring : NetmapRing n) (ifSnd : IfQueue) (txPktsToSend : ℤ) :
    (start ring ifSnd txPktsToSend).Exact := by
  refine ⟨?_, ?_, ?_, ?_⟩ <;> simp [start, unpublished]

variable {s : NetmapTx n}

theorem unpublished_hwcur {cur : Fin n} (h : cur = s.hwcur) : s.unpublished cur = [] := by
  simp [unpublished, h]

/-- A filled slot joins those that wait for the kernel. -/
theorem unpublished_fill (h : s.Placed) (hpc : s.pc = .fill) (havail : s.avail.1 ≠ 0)
    (bytes : List UInt8) :
    contents (Function.update (fun k => (s.ring.slot k).data) s.cur bytes) s.hwcur
      (gap s.hwcur (next s.cur)) = s.unpublished s.cur ++ [bytes] := by
  have hroom := h.room hpc
  rw [gap_next _ _ (by omega)]
  conv_lhs =>
    enter [1, 2]
    rw [← ahead_gap s.hwcur s.cur]
  exact contents_update _ _ (gap_lt _ _) bytes

theorem Exact.sendStep {s' : NetmapTx n} (h : s.Exact) (hp : s.Placed) (hs : SendStep api s s')
    {input : SendInput} (hfit : (TxEvent.send input).Fits s) : s'.Exact := by
  obtain ⟨hstream, halive, hfresh, hfilled⟩ := h
  cases hs with
  | top hpc => exact ⟨hstream, by simp, by simp, by simp⟩
  | sleep hpc => exact ⟨hstream, halive, hfresh, hfilled⟩
  | wake hpc =>
    have hcur := hp.idle (by simp [hpc])
    have hnone : s.m = none := by
      by_contra hm
      simpa [hpc] using hp.held hm
    refine ⟨?_, by simp [dequeue], fun _ _ => hcur, by simp [dequeue]⟩
    rw [hnone] at hstream
    simp [dequeue, ← hstream, unpublished]
  | drained hpc hm => exact ⟨hstream, by simp, by simp, by simp⟩
  | poll hpc hm havail => exact ⟨hstream, halive, hfresh, by simp [hpc]⟩
  | load hpc hm havail =>
    -- nothing is unpublished, so going back to the ring's position loses nothing
    have hcur : s.ring.ifNetmapTxcur = s.cur := by
      rw [hfresh hpc hm]
      exact hp.ringCur (by simp [hpc])
    rw [hcur]
    exact ⟨hstream, by simp, by simp, fun _ hzero => absurd hzero havail⟩
  | leave hpc hm =>
    have hnone : s.m = none := hm.elim id (hfilled hpc)
    exact ⟨hstream, by simp, by simp [hnone], by simp⟩
  | @fill m ring cur hpc hm havail hslot =>
    rw [mCopydata_chainLen]
    rw [← chainBytes_length] at hslot
    obtain ⟨hdata, -, rfl⟩ := txslot_copyTo hslot
    refine ⟨?_, by simp [dequeue, hpc], by simp [dequeue, hpc], ?_⟩
    · change s.handed ++ contents (fun k => ((ring.copyTo s.cur _).slot k).data) s.hwcur
        (gap s.hwcur (next s.cur)) ++ _ = (s.dequeued ++ _).map chainBytes
      rw [hm] at hstream
      rw [hdata, unpublished_fill hp hpc havail, List.map_append, ← hstream]
      simp [dequeue]
    · -- the last slot was for the last packet
      intro _ hlast
      have hone : s.avail.1 = 1 := by
        have hzero : s.avail.1 - 1 = 0 := hlast
        omega
      have hempty := (hfit hpc havail m hm).2 hone
      change s.ifSnd.ifqDrvDequeue.1 = none
      rw [IfQueue.ifqDrvDequeue_fst, hempty]
      rfl
  | @abort m hpc hm havail hslot =>
    have hlen := (hfit hpc havail m hm).1
    simp [NetmapRing.ifNetmapTxslot, hlen] at hslot
  | nothing hpc hsent => exact ⟨hstream, by simp, by simp, by simp⟩
  | busy hpc hsent =>
    refine ⟨?_, halive, by simp [hpc], by simp [hpc]⟩
    simpa [unpublished] using hstream
  | sync hpc hsent =>
    refine ⟨?_, by simp, by simp, by simp⟩
    simpa [nioctxsync, unpublished] using hstream
  | synced hpc => exact ⟨hstream, by simp, by simp, by simp⟩
  | stuck hpc => exact absurd hpc halive

theorem Exact.step (h : s.Exact) (hp : s.Placed) {ev : TxEvent} (hev : ev.Undisturbed)
    (hfit : ev.Fits s) : (s.txStep api ev).Exact := by
  cases ev with
  | send input => exact h.sendStep hp (ifNetmapSend_step api hp.done hp.pc hev) hfit
  | _ => exact { h with }

/-- How many of the dequeued packets can still be handed over.  When the thread comes
back to its outer loop with a packet at hand it will start over at the ring's position. -/
def kept (s : NetmapTx n) : ℕ :=
  if s.pc = .aborted then 0
  else
    match s.m with
    | none => gap s.hwcur s.cur
    | some _ => 1 + if s.pc = .fill ∧ s.avail.1 ≠ 0 then gap s.hwcur s.cur else 0

def Short (s : NetmapTx n) : Prop := s.handed.length + s.kept < s.dequeued.length

theorem Short.sendStep {s' : NetmapTx n} (h : s.Short) (hp : s.Placed) (hs : SendStep api s s') :
    s'.Short := by
  have hnone (hpc : s.pc ≠ .outer ∧ s.pc ≠ .fill ∧ s.pc ≠ .aborted) : s.m = none := by
    by_contra hm
    simpa [hpc] using hp.held hm
  unfold Short at h ⊢
  cases hs with
  | top hpc => simpa [kept, hpc, hnone (by simp [hpc])] using h
  | sleep hpc => exact h
  | wake hpc =>
    have hcur := hp.idle (by simp [hpc])
    simp only [kept, hpc, hnone (by simp [hpc]), hcur, gap_self] at h
    cases hm : s.ifSnd.ifqDrvDequeue.1 with
    | none => simpa [kept, dequeue, hm, hcur] using h
    | some m => simpa [kept, dequeue, hm] using h
  | drained hpc hm => simpa [kept, hpc, hm] using h
  | poll hpc hm havail => simpa [kept, hpc] using h
  | load hpc hm havail =>
    have hcur : s.ring.ifNetmapTxcur = s.hwcur := hp.ringCur (by simp [hpc])
    obtain ⟨m, hm⟩ := Option.ne_none_iff_exists'.1 hm
    simpa [kept, hpc, hm, hcur] using h
  | leave hpc hm =>
    rcases hm with hm | havail
    · simpa [kept, hpc, hm] using h
    · simpa [kept, hpc, havail] using h
  | @fill m ring cur hpc hm havail hslot =>
    rw [← chainBytes_length] at hslot
    obtain ⟨-, -, rfl⟩ := txslot_copyTo hslot
    have hroom := hp.room hpc
    have hgap : gap s.hwcur (next s.cur) = gap s.hwcur s.cur + 1 := gap_next _ _ (by omega)
    have hkept : s.kept = 1 + gap s.hwcur s.cur := by simp [kept, hpc, hm, havail]
    cases hnext : s.ifSnd.ifqDrvDequeue.1 with
    | none =>
      simp only [kept, dequeue, hpc, hnext, hgap]
      simp
      omega
    | some m' =>
      -- without a slot for the next packet all that was filled is given up
      by_cases hlast : s.avail.1 - 1 = 0
      · simp [kept, dequeue, hpc, hnext, hlast]
        omega
      · simp [kept, dequeue, hpc, hnext, hlast, hgap]
        omega
  | abort hpc hm havail hslot =>
    simp only [kept, if_true]
    omega
  | nothing hpc hsent => simpa [kept, hpc, hnone (by simp [hpc])] using h
  | busy hpc hsent => simpa [kept, hpc] using h
  | sync hpc hsent =>
    simpa [kept, hpc, hnone (by simp [hpc]), nioctxsync, unpublished] using h
  | synced hpc => simpa [kept, hpc, hnone (by simp [hpc])] using h
  | stuck hpc => exact h

theorem Short.step (h : s.Short) (hp : s.Placed) {ev : TxEvent} (hev : ev.Undisturbed) :
    (s.txStep api ev).Short := by
  cases ev with
  | send input => exact h.sendStep hp (ifNetmapSend_step api hp.done hp.pc hev)
  | _ => exact h

/-- A packet too many, or too long. -/
theorem Exact.short (h : s.Exact) (hp : s.Placed) {ev : TxEvent} (hev : ev.Undisturbed)
    (hfit : ¬ ev.Fits s) : (s.txStep api ev).Short := by
  cases ev with
  | send input =>
    simp only [TxEvent.Fits] at hfit
    push Not at hfit
    obtain ⟨hpc, havail, m, hm, hmore⟩ := hfit
    have hm : s.m = some m := hm
    have hcount : s.handed.length < s.dequeued.length := by
      have hlength := congrArg List.length h.stream
      simp [hm] at hlength
      omega
    have hs := ifNetmapSend_step api hp.done hp.pc hev
    change (s.ifNetmapSend api input).Short
    generalize s.ifNetmapSend api input = s' at hs
    -- the packet is copied or the assertion fails; no other step starts here
    cases hs with
    | @fill m' ring cur _ hm' _ hslot =>
      obtain rfl : m' = m := by simpa [hm] using hm'.symm
      have hlen : chainLen m' ≤ s.ring.nrBufSize := by
        by_contra hlen
        simp [NetmapRing.ifNetmapTxslot, hlen] at hslot
      obtain ⟨hone, hwaiting⟩ := hmore hlen
      obtain ⟨p, hp⟩ : ∃ p, s.ifSnd.ifqDrvDequeue.1 = some p := by
        rw [IfQueue.ifqDrvDequeue_fst]
        exact Option.isSome_iff_exists.1 (by simpa using hwaiting)
      simpa [Short, kept, dequeue, hpc, hp, hone] using hcount
    | abort _ _ _ _ => simpa [Short, kept] using hcount
    | leave _ hor => simp [hm, havail] at hor
    | top h | sleep h | wake h | drained h _ | poll h _ _ | load h _ _ | nothing h _ | busy h _
    | sync h _ | synced h | stuck h => exact absurd (hpc.symm.trans h) (by decide)
  | _ => exact absurd trivial hfit

end NetmapTx

def NetmapTx.Settled {n : ℕ} (s : NetmapTx n) : Prop :=
  s.pc = .top ∨ s.pc = .wait ∨ s.pc = .aborted

instance {n : ℕ} (s : NetmapTx n) : Decidable s.Settled :=
  inferInstanceAs (Decidable (_ ∨ _ ∨ _))

theorem NetmapTx.Exact.settled {n : ℕ} {s : NetmapTx n} (h : s.Exact) (hp : s.Placed)
    (hs : s.Settled) : s.handed = s.dequeued.map chainBytes := by
  have hidle : s.pc = .top ∨ s.pc = .wait := by
    rcases hs with hs | hs | hs
    · exact .inl hs
    · exact .inr hs
    · exact absurd hs h.alive
  have hm : s.m = none := by
    by_contra hm
    rcases hidle with hpc | hpc <;> simpa [hpc] using hp.held hm
  have hcur : s.cur = s.hwcur := hp.idle (by tauto)
  simpa [hm, unpublished_hwcur hcur] using h.stream

theorem NetmapTx.Short.ne {n : ℕ} {s : NetmapTx n} (h : s.Short) :
    s.handed ≠ s.dequeued.map chainBytes := by
  intro heq
  have hlength := congrArg List.length heq
  unfold Short at h
  simp at hlength
  omega

/-- Whatever the ring and the schedule, once the thread is between two bursts the kernel has
been given exactly the packets dequeued, in order, exactly when every burst fitted in the
space that was known.  Then the packets not yet handed over are in their slots. -/
theorem ifNetmapSend_delivers_iff (api : NetmapApi) {n : ℕ} (ring : NetmapRing n)
    (ifSnd : IfQueue) (txPktsToSend : ℤ) (evs : List TxEvent)
    (hevs : ∀ ev ∈ evs, ev.Undisturbed) :
    let s₀ := NetmapTx.start ring ifSnd txPktsToSend
    let s := run (NetmapTx.txStep api) s₀ evs
    (s.Settled → (s.handed = s.dequeued.map chainBytes ↔
      Along (NetmapTx.txStep api) TxEvent.Fits s₀ evs)) ∧
    (Along (NetmapTx.txStep api) TxEvent.Fits s₀ evs →
      s.handed ++ s.unpublished s.cur ++ s.m.toList.map chainBytes =
        s.dequeued.map chainBytes) := by
  intro s₀ s
  have hall : Along (NetmapTx.txStep api) (fun _ => TxEvent.Undisturbed) s₀ evs :=
    along_of_forall hevs s₀
  have hstart : s₀.Placed ∧ s₀.Exact :=
    ⟨NetmapTx.placed_start ring ifSnd txPktsToSend, NetmapTx.exact_start ring ifSnd txPktsToSend⟩
  rcases along_or_of_step (I := fun s : NetmapTx n => s.Placed ∧ s.Exact)
    (J := fun s : NetmapTx n => s.Placed ∧ s.Short) (Q := TxEvent.Fits) hall hstart
    (fun s ev h hev hfit => ⟨h.1.step hev, h.2.step h.1 hev hfit⟩)
    (fun s ev h hev hfit => ⟨h.1.step hev, h.2.short h.1 hev hfit⟩)
    (fun s ev h hev => ⟨h.1.step hev, h.2.step h.1 hev⟩) with
    ⟨hfits, hp, he⟩ | ⟨hfits, hp, hshort⟩
  · exact ⟨fun hs => iff_of_true (he.settled hp hs) hfits, fun _ => he.stream⟩
  · exact ⟨fun _ => iff_of_false hshort.ne hfits, fun hf => absurd hf hfits⟩

def ring4 : NetmapRing 4 where
  nrBufSize := 2048
  slot := fun _ => ⟨0, []⟩
  cur := 0
  avail := 3
  head := 0
  tail := 3

def burst (bytes : List UInt8) : IfQueue where
  ifqHead := bytes.map fun b => [Mbuf.ofBytes [b]]
  ifqDrvHead := []
  ifqMaxlen := 4
  ifqDrvMaxlen := 4

def steps (k : ℕ) : List TxEvent := List.replicate k (.send ⟨false, false, 1, none⟩)

theorem ifNetmapSend_delivers_three :
    (run (NetmapTx.txStep .from10) (NetmapTx.start ring4 (burst [1, 2, 3]) 3) (steps 11)).handed =
      [[1], [2], [3]] := by
  have h := ifNetmapSend_delivers_iff .from10 ring4 (burst [1, 2, 3]) 3 (steps 11) (by decide)
  refine ((h.1 (by decide)).2 (by decide)).trans ?_
  decide

def fourPackets (api : NetmapApi) : NetmapTx 4 :=
  run (NetmapTx.txStep api) (NetmapTx.start ring4 (burst [1, 2, 3, 4]) 4) (steps 15)

/-- Four packets for three free slots: the first three are overwritten. -/
theorem ifNetmapSend_overwrites :
    ((fourPackets .below10).Settled ∧ (fourPackets .from10).Settled) ∧
      (fourPackets .below10).dequeued.map chainBytes = [[1], [2], [3], [4]] ∧
      (fourPackets .below10).handed = [[4]] ∧
      (fourPackets .from10).dequeued.map chainBytes = [[1], [2], [3], [4]] ∧
      (fourPackets .from10).handed = [[4]] := by
  decide

end Libuinet
