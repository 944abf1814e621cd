import Libuinet.ListSweep
import Libuinet.Execution
import Mathlib.Data.BitVec
import Mathlib.Data.Nat.Basic

namespace Libuinet

open ListSweep

abbrev CalloutId := ℕ

/-- `struct callout`; `cLock` says whether `c_lock` is there.  `arming` is the number of the
arming that set `cTime`. -/
structure WheelCallout where
  cTime : BitVec 32 := 0
  cActive : Bool := false
  cPending : Bool := false
  cLock : Bool := false
  arming : ℕ := 0

/-- Where `softclock` stands.  It holds `cc_lock` at `head` and `scan` only. -/
inductive SoftPc where
  /-- not called, or returned -/
  | idle
  /-- at the test of `cc_softticks` against `ticks` -/
  | head
  /-- in the inner loop, about to look at `c` -/
  | scan (curticks : BitVec 32) (c : Option CalloutId)
  /-- between `CC_UNLOCK` and `CC_LOCK` after `MAX_SOFTCLOCK_STEPS` -/
  | yielded (curticks : BitVec 32)
  /-- `c` is off the wheel and its lock not yet taken -/
  | called (curticks : BitVec 32) (c : CalloutId)
  /-- in `c_func` -/
  | running (curticks : BitVec 32) (c : CalloutId)
  /-- before `CC_LOCK` at `skip` -/
  | skip (curticks : BitVec 32) (c : CalloutId)
  /-- before `cv_broadcast` -/
  | broadcast (curticks : BitVec 32)
  deriving DecidableEq

/-- What happened: arming `n` of a callout at a tick, for a time; a stop; an execution of an
arming at a tick. -/
inductive CalloutEvent where
  | armed (c : CalloutId) (n tick : ℕ) (time : BitVec 32)
  | stopped (c : CalloutId)
  | executed (c : CalloutId) (n tick : ℕ)
  deriving DecidableEq

/-- `struct callout_cpu` with `ticks`, the callouts and the place of `softclock`.  The latest
event stands first in `log`. -/
structure CalloutCpu where
  ccCallwheel : BitVec 32 → List CalloutId := fun _ => []
  ccNext : Option CalloutId := none
  ccCurr : Option CalloutId := none
  ccSoftticks : BitVec 32
  ccCancel : Bool := false
  ccWaiting : Bool := false
  ticks : BitVec 32
  callout : CalloutId → WheelCallout
  pc : SoftPc := .idle
  steps : ℕ := 0
  tick : ℕ := 0
  log : List CalloutEvent := []

def maxSoftclockSteps : ℕ := 100

def callwheelmask (callwheelbits : ℕ) : BitVec 32 := BitVec.ofNat 32 (2 ^ callwheelbits - 1)

namespace CalloutCpu

variable (callwheelbits : ℕ)

def slot (time : BitVec 32) : BitVec 32 := time &&& callwheelmask callwheelbits

variable (s : CalloutCpu) (c : CalloutId)

def bucket (time : BitVec 32) : List CalloutId :=
  s.ccCallwheel (slot callwheelbits time)

/-- `TAILQ_REMOVE` from the bucket of `c_time`, and `CALLOUT_PENDING` off. -/
def unlink : CalloutCpu :=
  let co := s.callout c
  { s with
    ccCallwheel := Function.update s.ccCallwheel (slot callwheelbits co.cTime)
      ((s.bucket callwheelbits co.cTime).erase c)
    callout := Function.update s.callout c { co with cPending := false } }

def cancelPending : CalloutCpu :=
  let next := if s.ccNext = some c then after (s.bucket callwheelbits (s.callout c).cTime) c
    else s.ccNext
  let s := s.unlink callwheelbits c
  { s with
    ccNext := next
    callout := Function.update s.callout c { s.callout c with cActive := false } }

def timeFor (toTicks : BitVec 32) : BitVec 32 :=
  s.ticks + if toTicks.toInt ≤ 0 then 1 else toTicks

def arm (time : BitVec 32) : CalloutCpu :=
  { s with
    ccCallwheel := Function.update s.ccCallwheel (slot callwheelbits time)
      (s.bucket callwheelbits time ++ [c])
    callout := Function.update s.callout c { s.callout c with
      cTime := time, cActive := true, cPending := true, arming := s.log.length }
    log := .armed c s.log.length s.tick time :: s.log }

def cancellable : Bool :=
  s.ccCurr = some c && (s.callout c).cLock && !s.ccCancel

def cancelCurrent : CalloutCpu :=
  if s.cancellable c then { s with ccCancel := true } else s

def calloutResetOn (toTicks : BitVec 32) : Bool × CalloutCpu :=
  let t := s.cancelCurrent c
  if t.ccCurr = some c && t.ccWaiting then (s.cancellable c, t)
  else if (t.callout c).cPending then
    (true, (t.cancelPending callwheelbits c).arm callwheelbits c (t.timeFor toTicks))
  else (s.cancellable c, t.arm callwheelbits c (t.timeFor toTicks))

def deactivate : CalloutCpu :=
  { s with
    callout := Function.update s.callout c { s.callout c with cActive := false }
    log := .stopped c :: s.log }

/-- `_callout_stop_safe` up to where it returns, or where it starts to wait: `none`. -/
def calloutStopSafe (safe : Bool) : Option Bool × CalloutCpu :=
  let t := s.deactivate c
  if (s.callout c).cPending then (some true, t.cancelPending callwheelbits c)
  else if t.ccCurr ≠ some c then (some false, t)
  else if safe then (none, t)
  else if t.cancellable c then (some true, { t with ccCancel := true })
  else (some false, t)

/-- The loop of `callout_tick` over empty buckets, which is at most `left` ticks behind.  The test
`(cc_softticks - ticks) < 0` subtracts two `int`s, so it is compiled to a comparison of the two. -/
def tickLoop (s : CalloutCpu) : ℕ → CalloutCpu × Bool
  | 0 => (s, false)
  | left + 1 =>
    if s.ccSoftticks.toInt < s.ticks.toInt then
      if s.bucket callwheelbits s.ccSoftticks ≠ [] then (s, true)
      else tickLoop { s with ccSoftticks := s.ccSoftticks + 1 } left
    else (s, false)

def calloutTick : CalloutCpu :=
  let s := { s with ticks := s.ticks + 1, tick := s.tick + 1 }
  let (s, needSoftclock) := s.tickLoop callwheelbits (s.ticks.toInt - s.ccSoftticks.toInt).toNat
  if needSoftclock then { s with pc := .head, steps := 0 } else s

/-- The rest of the body of the inner loop for a callout that is due: it is taken off the wheel
and becomes the current one. -/
def dequeue (curticks : BitVec 32) (c : CalloutId) : CalloutCpu :=
  let next := after (s.bucket callwheelbits curticks) c
  let s := s.unlink callwheelbits c
  { s with ccNext := next, ccCurr := some c, ccCancel := false, pc := .called curticks c }

def softclock : CalloutCpu :=
  match s.pc with
  | .idle => s
  | .head =>
    if s.ccSoftticks = s.ticks then { s with ccNext := none, pc := .idle }
    else
      let curticks := s.ccSoftticks
      { s with
        ccSoftticks := curticks + 1
        pc := .scan curticks (s.bucket callwheelbits curticks).head? }
  | .scan _ none => { s with pc := .head }
  | .scan curticks (some c) =>
    if (s.callout c).cTime ≠ curticks then
      let next := after (s.bucket callwheelbits curticks) c
      if maxSoftclockSteps ≤ s.steps + 1 then
        { s with steps := s.steps + 1, ccNext := next, pc := .yielded curticks }
      else { s with steps := s.steps + 1, pc := .scan curticks next }
    else s.dequeue callwheelbits curticks c
  | .yielded curticks => { s with steps := 0, pc := .scan curticks s.ccNext }
  | .called curticks c =>
    if (s.callout c).cLock && s.ccCancel then { s with pc := .skip curticks c }
    else { s with
      ccCancel := (s.callout c).cLock || s.ccCancel
      pc := .running curticks c
      log := .executed c (s.callout c).arming s.tick :: s.log }
  | .running curticks c => { s with pc := .skip curticks c }
  | .skip curticks _ =>
    if s.ccWaiting then { s with ccCurr := none, ccWaiting := false, pc := .broadcast curticks }
    else { s with ccCurr := none, steps := 0, pc := .scan curticks s.ccNext }
  | .broadcast curticks => { s with steps := 0, pc := .scan curticks s.ccNext }

structure Arms (s : CalloutCpu) (c : CalloutId) (time : BitVec 32) (t : CalloutCpu) : Prop where
  log : t.log = .armed c s.log.length s.tick time :: s.log
  self : t.callout c = { s.callout c with
    cTime := time, cActive := true, cPending := true, arming := s.log.length }
  other : ∀ d, d ≠ c → t.callout d = s.callout d
  rest : (t.tick, t.pc, t.ccCurr) = (s.tick, s.pc, s.ccCurr)

theorem calloutResetOn_arms (hwaiting : s.ccWaiting = false) (c : CalloutId) (toTicks : BitVec 32) :
    s.Arms c (s.timeFor toTicks) (s.calloutResetOn callwheelbits c toTicks).2 := by
  have hcancel : ∃ b, s.cancelCurrent c = { s with ccCancel := b } := by
    unfold cancelCurrent
    split
    · exact ⟨true, rfl⟩
    · exact ⟨s.ccCancel, rfl⟩
  obtain ⟨b, hb⟩ := hcancel
  simp only [calloutResetOn, hb, hwaiting, Bool.and_false, Bool.false_eq_true, if_false]
  split
  · refine ⟨rfl, ?_, ?_, rfl⟩
    · simp [arm, cancelPending, unlink, timeFor]
    · intro d hd
      simp [arm, cancelPending, unlink, hd]
  · refine ⟨rfl, ?_, ?_, rfl⟩
    · simp [arm, timeFor]
    · intro d hd
      simp [arm, hd]

structure Stops (s : CalloutCpu) (c : CalloutId) (t : CalloutCpu) : Prop where
  log : t.log = .stopped c :: s.log
  self : t.callout c = { s.callout c with cActive := false, cPending := false }
  other : ∀ d, d ≠ c → t.callout d = s.callout d
  rest : (t.tick, t.pc, t.ccCurr) = (s.tick, s.pc, s.ccCurr)

theorem calloutStopSafe_stops (safe : Bool) :
    s.Stops c (s.calloutStopSafe callwheelbits c safe).2 := by
  have hother (d : CalloutId) (hd : d ≠ c) : (s.deactivate c).callout d = s.callout d := by
    simp [deactivate, hd]
  unfold calloutStopSafe
  split
  · refine ⟨rfl, ?_, ?_, rfl⟩
    · simp [cancelPending, unlink, deactivate]
    · intro d hd
      simp [cancelPending, unlink, deactivate, hd]
  · next hpending =>
    have hself : (s.deactivate c).callout c =
        { s.callout c with cActive := false, cPending := false } := by
      simp [deactivate, Bool.eq_false_of_not_eq_true hpending]
    simp only
    split_ifs <;> exact ⟨rfl, hself, hother, rfl⟩

def unlocked : Bool :=
  match s.pc with
  | .head | .scan _ _ => false
  | _ => true

/-- An empty wheel at the time `epoch`, for callouts that have a lock or not. -/
def start (epoch : BitVec 32) (cLock : CalloutId → Bool) : CalloutCpu where
  ccSoftticks := epoch
  ticks := epoch
  callout c := { cLock := cLock c }

/-- A callout is in the bucket of its time while it is pending, once, and nowhere else. -/
structure Placed (s : CalloutCpu) : Prop where
  nodup : ∀ b, (s.ccCallwheel b).Nodup
  mem : ∀ b c, c ∈ s.ccCallwheel b ↔
    (s.callout c).cPending = true ∧ slot callwheelbits (s.callout c).cTime = b

variable {callwheelbits}

section

variable {s t : CalloutCpu} (h : s.Placed callwheelbits)
include h

/-- Only the wheel, the flag and the time count. -/
theorem Placed.congr (hwheel : t.ccCallwheel = s.ccCallwheel)
    (hpending : ∀ c, (t.callout c).cPending = (s.callout c).cPending)
    (htime : ∀ c, (t.callout c).cTime = (s.callout c).cTime) : t.Placed callwheelbits where
  nodup b := by
    rw [hwheel]
    exact h.nodup b
  mem b c := by
    rw [hwheel, hpending, htime]
    exact h.mem b c

theorem Placed.same (hwheel : t.ccCallwheel = s.ccCallwheel) (hcallout : t.callout = s.callout) :
    t.Placed callwheelbits :=
  h.congr hwheel (fun c => by rw [hcallout]) (fun c => by rw [hcallout])

theorem Placed.mem_bucket (time : BitVec 32) (c : CalloutId) :
    c ∈ s.bucket callwheelbits time ↔ (s.callout c).cPending = true ∧
      slot callwheelbits (s.callout c).cTime = slot callwheelbits time :=
  h.mem _ c

theorem Placed.unlink (c : CalloutId) :
    (s.unlink callwheelbits c).Placed callwheelbits where
  nodup b := by
    by_cases hb : b = slot callwheelbits (s.callout c).cTime
    · subst hb
      simpa [CalloutCpu.unlink, bucket] using (h.nodup _).erase c
    · simpa [CalloutCpu.unlink, hb] using h.nodup b
  mem b d := by
    by_cases hb : b = slot callwheelbits (s.callout c).cTime
    · subst hb
      by_cases hd : d = c
      · subst hd
        simp [CalloutCpu.unlink, bucket, (h.nodup _).not_mem_erase]
      · simp [CalloutCpu.unlink, bucket, hd, List.mem_erase_of_ne hd, h.mem]
    · by_cases hd : d = c
      · subst hd
        simp [CalloutCpu.unlink, hb, h.mem, Ne.symm hb]
      · simp [CalloutCpu.unlink, hb, hd, h.mem]

theorem Placed.cancelPending (c : CalloutId) :
    (s.cancelPending callwheelbits c).Placed callwheelbits := by
  refine (h.unlink c).congr rfl (fun d => ?_) (fun d => ?_) <;>
    by_cases hd : d = c <;> simp [CalloutCpu.cancelPending, hd]

theorem Placed.arm {c : CalloutId} (hc : (s.callout c).cPending = false) (time : BitVec 32) :
    (s.arm callwheelbits c time).Placed callwheelbits := by
  have hout (b : BitVec 32) : c ∉ s.ccCallwheel b := by
    rw [h.mem, hc]
    simp
  constructor
  · intro b
    by_cases hb : b = slot callwheelbits time
    · subst hb
      simp only [CalloutCpu.arm, Function.update_self, bucket]
      exact List.nodup_append.mpr ⟨h.nodup _, List.nodup_singleton c, by
        simpa using fun x hx => ne_of_mem_of_not_mem hx (hout _)⟩
    · simpa [CalloutCpu.arm, hb] using h.nodup b
  · intro b d
    by_cases hd : d = c
    · subst hd
      by_cases hb : b = slot callwheelbits time
      · simp [CalloutCpu.arm, hb]
      · simp [CalloutCpu.arm, hb, hout, Ne.symm hb]
    · by_cases hb : b = slot callwheelbits time
      · simp [CalloutCpu.arm, hb, hd, bucket, h.mem]
      · simp [CalloutCpu.arm, hb, hd, h.mem]

end

def working : Option (BitVec 32) :=
  match s.pc with
  | .idle | .head => none
  | .scan curticks _ | .yielded curticks | .called curticks _ | .running curticks _
  | .skip curticks _ | .broadcast curticks => some curticks

def position : Option CalloutId :=
  match s.pc with
  | .scan _ c => c
  | _ => s.ccNext

def current : Option CalloutId :=
  match s.pc with
  | .called _ c | .running _ c | .skip _ c => some c
  | _ => none

def NoneDue : Prop :=
  ∀ c, (s.callout c).cPending = true → (s.callout c).cTime + 1 ≠ s.ticks

/-- The tick at which the clock goes from `INT_MAX` to `INT_MIN`. -/
def wrapTick (epoch : BitVec 32) : ℕ := (2 ^ 31 - epoch.toInt).toNat

/-- Where the wheel stands when `softclock` is not at work on a bucket. -/
inductive Between (epoch : BitVec 32) (s : CalloutCpu) : Prop where
  | done (hin : s.tick < wrapTick epoch) (hsoft : s.ccSoftticks = s.ticks) (hnone : s.NoneDue)
  | behind (hin : s.tick < wrapTick epoch) (hpc : s.pc = .head)
      (hsoft : s.ccSoftticks + 1 = s.ticks)
  -- `cc_softticks` has met the largest `int` and is never behind again.
  | stuck (hout : wrapTick epoch ≤ s.tick) (hpc : s.pc = .idle)
      (hsoft : s.ccSoftticks = BitVec.intMax 32)

/-- The state of the wheel that starts at the time `epoch`: until the clock wraps no pending callout
has been passed, and those of the tick under work are still in front of `softclock`. -/
structure Sound (epoch : BitVec 32) (callwheelbits : ℕ) (s : CalloutCpu) : Prop where
  placed : s.Placed callwheelbits
  clock : s.ticks = epoch + BitVec.ofNat 32 s.tick
  upcoming : s.tick < wrapTick epoch → ∀ c, (s.callout c).cPending = true →
    ∃ due, (s.callout c).cTime = epoch + BitVec.ofNat 32 due ∧ s.tick ≤ due + 1 ∧
      due < s.tick + 2 ^ 31
  curr : s.ccCurr = s.current
  sweeping : ∀ curticks, s.working = some curticks →
    s.tick < wrapTick epoch ∧ curticks + 1 = s.ticks ∧ s.ccSoftticks = s.ticks ∧
      Sweep (s.bucket callwheelbits curticks) s.position fun c => (s.callout c).cTime ≠ curticks
  between : s.working = none → s.Between epoch
  -- Nothing in the file sets `cc_waiting`.
  waiting : s.ccWaiting = false

/-- Times that are close enough are told apart by their low bits. -/
theorem ofNat_add_eq_iff {epoch : BitVec 32} {m n : ℕ} (hle : m ≤ n) (hlt : n < m + 2 ^ 32) :
    epoch + BitVec.ofNat 32 n = epoch + BitVec.ofNat 32 m ↔ n = m := by
  constructor
  · intro h
    have h32 := congrArg BitVec.toNat (add_left_cancel h)
    rw [BitVec.toNat_ofNat, BitVec.toNat_ofNat] at h32
    omega
  · rintro rfl
    rfl

theorem position_of_unlocked {s : CalloutCpu} (h : s.unlocked = true) : s.position = s.ccNext := by
  unfold position
  unfold unlocked at h
  split
  · next hpc => simp [hpc] at h
  · rfl

section Operations

variable {epoch : BitVec 32} {s t : CalloutCpu} {c : CalloutId} {curticks : BitVec 32}

theorem Between.congr (h : s.Between epoch)
    (hrest : (t.ccSoftticks, t.ticks, t.tick, t.pc) = (s.ccSoftticks, s.ticks, s.tick, s.pc))
    (hnone : s.NoneDue → t.NoneDue) : t.Between epoch := by
  obtain ⟨hsoft', hticks, htick, hpc'⟩ : t.ccSoftticks = s.ccSoftticks ∧ t.ticks = s.ticks ∧
      t.tick = s.tick ∧ t.pc = s.pc := by
    simpa using hrest
  cases h with
  | done hin hsoft hdone =>
    exact .done (htick ▸ hin) (by rw [hsoft', hticks, hsoft]) (hnone hdone)
  | behind hin hpc hsoft =>
    exact .behind (htick ▸ hin) (hpc'.trans hpc) (by rw [hsoft', hticks, hsoft])
  | stuck hout hpc hsoft => exact .stuck (htick ▸ hout) (hpc'.trans hpc) (hsoft'.trans hsoft)

section

variable (h : s.Sound epoch callwheelbits)
include h

/-- The callout `softclock` looks at is in the bucket. -/
theorem Sound.position_mem (hwork : s.working = some curticks) {d : CalloutId}
    (hd : s.position = some d) : d ∈ s.bucket callwheelbits curticks := by
  obtain ⟨-, -, -, hsweep⟩ := h.sweeping curticks hwork
  rw [hd] at hsweep
  exact hsweep.mem

/-- Flags other than the pending one, `cc_cancel` and the log do not count. -/
theorem Sound.congr (hwheel : t.ccCallwheel = s.ccCallwheel)
    (hpending : ∀ c, (t.callout c).cPending = (s.callout c).cPending)
    (htime : ∀ c, (t.callout c).cTime = (s.callout c).cTime)
    (hrest : (t.ccNext, t.ccCurr, t.ccSoftticks, t.ticks, t.tick, t.pc, t.ccWaiting) =
      (s.ccNext, s.ccCurr, s.ccSoftticks, s.ticks, s.tick, s.pc, s.ccWaiting)) :
    t.Sound epoch callwheelbits := by
  simp only [Prod.mk.injEq] at hrest
  obtain ⟨hnext, hcurr, hsoft, hticks, htick, hpc, hwaiting⟩ := hrest
  have hposition : t.position = s.position := by simp [position, hpc, hnext]
  refine ⟨h.placed.congr hwheel hpending htime, by rw [hticks, htick, h.clock], ?_, ?_, ?_, ?_,
    hwaiting.trans h.waiting⟩
  · simpa only [hpending, htime, htick] using h.upcoming
  · simpa [current, hcurr, hpc] using h.curr
  · simpa only [working, hpc, hticks, htick, hsoft, bucket, hwheel, hposition, htime]
      using h.sweeping
  · intro hwork
    refine (h.between (by simpa only [working, hpc] using hwork)).congr ?_ ?_
    · rw [hsoft, hticks, htick, hpc]
    · simp only [NoneDue, hpending, htime, hticks, imp_self]

theorem Sound.cancelPending (hlock : s.unlocked = true) (c : CalloutId) :
    (s.cancelPending callwheelbits c).Sound epoch callwheelbits := by
  have htime (d : CalloutId) :
      ((s.cancelPending callwheelbits c).callout d).cTime = (s.callout d).cTime := by
    by_cases hd : d = c <;> simp [CalloutCpu.cancelPending, CalloutCpu.unlink, hd]
  have hpending (d : CalloutId) :
      ((s.cancelPending callwheelbits c).callout d).cPending = true →
        (s.callout d).cPending = true := by
    by_cases hd : d = c <;> simp [CalloutCpu.cancelPending, CalloutCpu.unlink, hd]
  refine ⟨h.placed.cancelPending c, h.clock, ?_, h.curr, ?_, ?_, h.waiting⟩
  · intro hin d hd
    rw [htime]
    exact h.upcoming hin d (hpending d hd)
  · intro curticks hwork
    obtain ⟨hin, hcur, hsoft, hsweep⟩ := h.sweeping curticks hwork
    refine ⟨hin, hcur, hsoft, ?_⟩
    have hpos : (s.cancelPending callwheelbits c).position =
        if s.ccNext = some c then after (s.bucket callwheelbits (s.callout c).cTime) c
        else s.ccNext :=
      position_of_unlocked hlock
    rw [position_of_unlocked hlock] at hsweep
    simp only [htime, hpos]
    by_cases hslot : slot callwheelbits curticks = slot callwheelbits (s.callout c).cTime
    · have hbucket : s.bucket callwheelbits (s.callout c).cTime = s.bucket callwheelbits curticks :=
        congrArg s.ccCallwheel hslot.symm
      have herase : (s.cancelPending callwheelbits c).bucket callwheelbits curticks =
          (s.bucket callwheelbits curticks).erase c := by
        simp [CalloutCpu.cancelPending, CalloutCpu.unlink, bucket, hslot]
      rw [herase, hbucket]
      exact hsweep.erase (h.placed.nodup _) c
    · have hsame : (s.cancelPending callwheelbits c).bucket callwheelbits curticks =
          s.bucket callwheelbits curticks := by
        simp [CalloutCpu.cancelPending, CalloutCpu.unlink, bucket, hslot]
      have hnext : s.ccNext ≠ some c := by
        intro hnext
        have hmem := h.position_mem hwork ((position_of_unlocked hlock).trans hnext)
        exact hslot ((h.placed.mem_bucket curticks c).mp hmem).2.symm
      rw [hsame, if_neg hnext]
      exact hsweep
  · intro hwork
    refine (h.between hwork).congr rfl fun hnone d hd => ?_
    rw [htime]
    exact hnone d (hpending d hd)

end

theorem toInt_pos_iff (k : BitVec 32) (h : ¬ k.toInt ≤ 0) : 1 ≤ k.toNat ∧ k.toNat < 2 ^ 31 := by
  rw [BitVec.toInt_eq_toNat_cond] at h
  have := k.isLt
  split at h <;> omega

/-- The time a callout is armed for is at most half the range of the clock ahead. -/
theorem exists_due (hclock : s.ticks = epoch + BitVec.ofNat 32 s.tick) (toTicks : BitVec 32) :
    ∃ due, s.timeFor toTicks = epoch + BitVec.ofNat 32 due ∧ s.tick < due ∧
      due < s.tick + 2 ^ 31 := by
  have hdue (k : ℕ) (hpos : 1 ≤ k) (hlt : k < 2 ^ 31) :
      ∃ due, s.ticks + BitVec.ofNat 32 k = epoch + BitVec.ofNat 32 due ∧ s.tick < due ∧
        due < s.tick + 2 ^ 31 :=
    ⟨s.tick + k, by rw [hclock, BitVec.ofNat_add, add_assoc], by omega, by omega⟩
  unfold timeFor
  split
  · exact hdue 1 le_rfl (by decide)
  · next hpos =>
    obtain ⟨hone, hlt⟩ := toInt_pos_iff toTicks hpos
    simpa using hdue toTicks.toNat hone hlt

/-- A time of the next ticks is not that of the tick under work. -/
theorem succ_ne_ticks (hclock : s.ticks = epoch + BitVec.ofNat 32 s.tick) {due : ℕ}
    (hlt : s.tick < due) (hbound : due < s.tick + 2 ^ 31) :
    epoch + BitVec.ofNat 32 due + 1 ≠ s.ticks := by
  rw [hclock, add_assoc, show BitVec.ofNat 32 due + 1 = BitVec.ofNat 32 (due + 1) from
    (BitVec.ofNat_add ..).symm, ne_eq, ofNat_add_eq_iff (by omega) (by omega)]
  omega

theorem Sound.arm (h : s.Sound epoch callwheelbits) (hc : (s.callout c).cPending = false)
    (toTicks : BitVec 32) :
    (s.arm callwheelbits c (s.timeFor toTicks)).Sound epoch callwheelbits := by
  obtain ⟨due, hdue, hlt, hbound⟩ := exists_due h.clock toTicks
  have hahead := succ_ne_ticks h.clock hlt hbound
  rw [← hdue] at hahead
  generalize s.timeFor toTicks = time at *
  have hself : ((s.arm callwheelbits c time).callout c).cTime = time := by
    simp [CalloutCpu.arm]
  have hother {d : CalloutId} (hd : d ≠ c) :
      (s.arm callwheelbits c time).callout d = s.callout d := by
    simp [CalloutCpu.arm, hd]
  refine ⟨h.placed.arm hc time, h.clock, ?_, h.curr, ?_, ?_, h.waiting⟩
  · intro hin d hd
    by_cases hdc : d = c
    · subst hdc
      exact ⟨due, hself.trans hdue, hlt.le.trans (Nat.le_succ due), hbound⟩
    · rw [hother hdc] at hd ⊢
      exact h.upcoming hin d hd
  · intro curticks hwork
    obtain ⟨hin, hcur, hsoft, hsweep⟩ := h.sweeping curticks hwork
    refine ⟨hin, hcur, hsoft, ?_⟩
    have hout : c ∉ s.bucket callwheelbits curticks := by
      rw [h.placed.mem_bucket, hc]
      simp
    have hdone : Sweep (s.bucket callwheelbits curticks) s.position
        fun d => ((s.arm callwheelbits c time).callout d).cTime ≠ curticks := by
      refine hsweep.imp fun d hd hne => ?_
      rw [hother (ne_of_mem_of_not_mem hd hout)]
      exact hne
    by_cases hslot : slot callwheelbits curticks = slot callwheelbits time
    · have hbucket : (s.arm callwheelbits c time).bucket callwheelbits curticks =
          s.bucket callwheelbits curticks ++ [c] := by
        simp [CalloutCpu.arm, bucket, hslot]
      rw [hbucket]
      refine hdone.concat ?_
      rw [hself]
      rintro rfl
      exact hahead hcur
    · have hbucket : (s.arm callwheelbits c time).bucket callwheelbits curticks =
          s.bucket callwheelbits curticks := by
        simp [CalloutCpu.arm, bucket, hslot]
      rw [hbucket]
      exact hdone
  · intro hwork
    refine (h.between hwork).congr rfl fun hnone d hd => ?_
    by_cases hdc : d = c
    · subst hdc
      rw [hself]
      exact hahead
    · rw [hother hdc] at hd ⊢
      exact hnone d hd

theorem Sound.cancelCurrent (h : s.Sound epoch callwheelbits) (c : CalloutId) :
    (s.cancelCurrent c).Sound epoch callwheelbits := by
  unfold CalloutCpu.cancelCurrent
  split
  · exact h.congr rfl (fun _ => rfl) (fun _ => rfl) rfl
  · exact h

theorem unlocked_cancelCurrent (s : CalloutCpu) (c : CalloutId) :
    (s.cancelCurrent c).unlocked = s.unlocked := by
  unfold cancelCurrent
  split <;> rfl

theorem Sound.deactivate (h : s.Sound epoch callwheelbits) (c : CalloutId) :
    (s.deactivate c).Sound epoch callwheelbits := by
  refine h.congr rfl (fun d => ?_) (fun d => ?_) rfl <;>
    by_cases hd : d = c <;> simp [CalloutCpu.deactivate, hd]

theorem cancelPending_not_pending (s : CalloutCpu) (c : CalloutId) :
    ((s.cancelPending callwheelbits c).callout c).cPending = false := by
  simp [cancelPending, unlink]

section

variable (h : s.Sound epoch callwheelbits) (hlock : s.unlocked = true) (c : CalloutId)
include h hlock

theorem Sound.calloutResetOn (toTicks : BitVec 32) :
    (s.calloutResetOn callwheelbits c toTicks).2.Sound epoch callwheelbits := by
  have ht := h.cancelCurrent c
  rw [← unlocked_cancelCurrent s c] at hlock
  unfold calloutResetOn
  generalize s.cancelCurrent c = t at *
  simp only
  split
  · exact ht
  · split
    · exact (ht.cancelPending hlock c).arm (cancelPending_not_pending t c) toTicks
    · next hpending => exact ht.arm (by simpa using hpending) toTicks

theorem Sound.calloutStopSafe (safe : Bool) :
    (s.calloutStopSafe callwheelbits c safe).2.Sound epoch callwheelbits := by
  have ht := h.deactivate c
  have hlock' : (s.deactivate c).unlocked = true := hlock
  unfold CalloutCpu.calloutStopSafe
  generalize s.deactivate c = t at *
  simp only
  split_ifs
  · exact ht.cancelPending hlock' c
  all_goals first | exact ht | exact ht.congr rfl (fun _ => rfl) (fun _ => rfl) rfl

end

theorem wrapTick_pos (epoch : BitVec 32) : 0 < wrapTick epoch := by
  have := BitVec.toInt_lt (x := epoch)
  unfold wrapTick
  omega

theorem sound_start (epoch : BitVec 32) (cLock : CalloutId → Bool) :
    (start epoch cLock).Sound epoch callwheelbits where
  placed := ⟨fun _ => List.nodup_nil, fun _ _ => by simp [start]⟩
  clock := by simp [start]
  upcoming _ c hc := by simp [start] at hc
  curr := rfl
  sweeping _ hwork := by simp [start, working] at hwork
  between _ := .done (wrapTick_pos epoch) rfl fun c hc => by simp [start] at hc
  waiting := rfl

/-- At the end of a tick's work none of its callouts is left. -/
theorem Placed.noneDue (h : s.Placed callwheelbits) (hcur : curticks + 1 = s.ticks)
    (hdone : ∀ c ∈ s.bucket callwheelbits curticks, (s.callout c).cTime ≠ curticks) :
    s.NoneDue := by
  intro c hc hdue
  have htime : (s.callout c).cTime = curticks := add_right_cancel (hdue.trans hcur.symm)
  exact hdone c ((h.mem_bucket curticks c).mpr ⟨hc, by rw [htime]⟩) htime

/-- Between the ticks every pending callout is due later. -/
theorem Sound.due_of_noneDue (h : s.Sound epoch callwheelbits) (hin : s.tick < wrapTick epoch)
    (hnone : s.NoneDue) (hc : (s.callout c).cPending = true) :
    ∃ due, (s.callout c).cTime = epoch + BitVec.ofNat 32 due ∧ s.tick ≤ due ∧
      due < s.tick + 2 ^ 31 := by
  obtain ⟨due, htime, hle, hlt⟩ := h.upcoming hin c hc
  refine ⟨due, htime, ?_, hlt⟩
  have hne : s.tick ≠ due + 1 := by
    intro heq
    refine hnone c hc ?_
    rw [htime, h.clock, heq, BitVec.ofNat_add, add_assoc]
    rfl
  omega

/-- Before it wraps the clock is the integer it counts. -/
theorem toInt_ofNat_of_lt {tick : ℕ} (hin : tick < wrapTick epoch) :
    (epoch + BitVec.ofNat 32 tick).toInt = epoch.toInt + tick := by
  have hle := BitVec.le_toInt (x := epoch)
  have hlt := BitVec.toInt_lt (x := epoch)
  unfold wrapTick at hin
  rw [BitVec.toInt_add, BitVec.toInt_ofNat', Int.add_bmod_bmod]
  exact Int.bmod_eq_of_le (by omega) (by omega)

/-- From a wheel that is up to date the loop looks at one bucket. -/
theorem calloutTick_eq (hsoft : s.ccSoftticks = s.ticks)
    (hnext : (s.ticks + 1).toInt = s.ticks.toInt + 1) :
    s.calloutTick callwheelbits = if s.bucket callwheelbits s.ticks = [] then
      { s with ccSoftticks := s.ticks + 1, ticks := s.ticks + 1, tick := s.tick + 1 }
    else { s with ticks := s.ticks + 1, tick := s.tick + 1, pc := .head, steps := 0 } := by
  have hleft : ((s.ticks + 1).toInt - s.ccSoftticks.toInt).toNat = 0 + 1 := by
    rw [hsoft, hnext]
    omega
  have hbehind : s.ccSoftticks.toInt < (s.ticks + 1).toInt := by
    rw [hsoft, hnext]
    omega
  rw [calloutTick]
  simp only [hleft, tickLoop, hbehind, if_true]
  by_cases hempty : s.bucket callwheelbits s.ticks = []
  · simp only [bucket, hsoft] at hempty ⊢
    simp [hempty]
  · simp only [bucket, hsoft] at hempty ⊢
    simp [hempty]

/-- From the largest `int` the loop goes nowhere, and only the clock moves on. -/
theorem calloutTick_of_intMax (hsoft : s.ccSoftticks = BitVec.intMax 32) :
    s.calloutTick callwheelbits = { s with ticks := s.ticks + 1, tick := s.tick + 1 } := by
  have hle : (s.ticks + 1).toInt ≤ s.ccSoftticks.toInt := by
    have hlt := BitVec.toInt_lt (x := s.ticks + 1)
    rw [hsoft, show (BitVec.intMax 32).toInt = 2 ^ 31 - 1 by decide]
    omega
  have hloop (t : CalloutCpu) (hsame : (t.ccSoftticks, t.ticks) = (s.ccSoftticks, s.ticks + 1))
      (left : ℕ) : t.tickLoop callwheelbits left = (t, false) := by
    obtain ⟨hsoft', hticks⟩ := Prod.mk.injEq .. ▸ hsame
    cases left with
    | zero => rfl
    | succ left =>
      rw [tickLoop, if_neg]
      rw [hsoft', hticks]
      omega
  rw [calloutTick]
  simp only
  rw [hloop _ rfl]
  rfl

/-- A tick: the wheel is up to date before and looks at one bucket, or the clock wraps or has
wrapped and nothing is looked at any more. -/
theorem Sound.calloutTick_cases (h : s.Sound epoch callwheelbits) (hpc : s.pc = .idle) :
    (s.tick + 1 < wrapTick epoch ∧ s.ccSoftticks = s.ticks ∧ s.NoneDue ∧
      (s.ticks + 1).toInt = s.ticks.toInt + 1) ∨
    (wrapTick epoch ≤ s.tick + 1 ∧ s.ccSoftticks = BitVec.intMax 32 ∧
      (s.tick < wrapTick epoch → s.NoneDue)) := by
  have hclock : s.ticks + 1 = epoch + BitVec.ofNat 32 (s.tick + 1) := by
    rw [h.clock, BitVec.ofNat_add, add_assoc]
    rfl
  cases h.between (by simp [working, hpc]) with
  | behind hin hhead hsoft => simp [hpc] at hhead
  | stuck hout _ hsoft => exact .inr ⟨by omega, hsoft, fun hin => by omega⟩
  | done hin hsoft hnone =>
    have hnow := toInt_ofNat_of_lt hin
    rw [← h.clock] at hnow
    by_cases hnext : s.tick + 1 < wrapTick epoch
    · refine .inl ⟨hnext, hsoft, hnone, ?_⟩
      rw [hclock, toInt_ofNat_of_lt hnext, hnow]
      omega
    · refine .inr ⟨by omega, ?_, fun _ => hnone⟩
      have hlt := BitVec.toInt_lt (x := epoch)
      unfold wrapTick at hin hnext
      rw [hsoft]
      refine BitVec.eq_of_toInt_eq ?_
      rw [hnow, show (BitVec.intMax 32).toInt = 2 ^ 31 - 1 by decide]
      omega

theorem Sound.calloutTick (h : s.Sound epoch callwheelbits) (hpc : s.pc = .idle) :
    (s.calloutTick callwheelbits).Sound epoch callwheelbits := by
  have hclock : s.ticks + 1 = epoch + BitVec.ofNat 32 (s.tick + 1) := by
    rw [h.clock, BitVec.ofNat_add, add_assoc]
    rfl
  rcases h.calloutTick_cases hpc with ⟨hin, hsoft, hnone, hnext⟩ | ⟨hout, hsoft, -⟩
  · have hupcoming (c : CalloutId) (hc : (s.callout c).cPending = true) :
        ∃ due, (s.callout c).cTime = epoch + BitVec.ofNat 32 due ∧ s.tick + 1 ≤ due + 1 ∧
          due < s.tick + 1 + 2 ^ 31 := by
      obtain ⟨due, htime, hle, hlt⟩ := h.due_of_noneDue (by omega) hnone hc
      exact ⟨due, htime, by omega, by omega⟩
    rw [calloutTick_eq hsoft hnext]
    split
    · next hempty =>
      refine ⟨h.placed.same rfl rfl, hclock, fun _ => hupcoming, h.curr, ?_,
        fun _ => .done hin rfl ?_, h.waiting⟩
      · intro curticks hwork
        simp [working, hpc] at hwork
      · have hplaced : Placed callwheelbits { s with
            ccSoftticks := s.ticks + 1, ticks := s.ticks + 1, tick := s.tick + 1 } :=
          h.placed.same rfl rfl
        refine hplaced.noneDue rfl fun c hc => ?_
        have hnil : c ∈ s.bucket callwheelbits s.ticks := hc
        simp [hempty] at hnil
    · refine ⟨h.placed.same rfl rfl, hclock, fun _ => hupcoming, ?_, ?_,
        fun _ => .behind hin rfl (congrArg (· + 1) hsoft), h.waiting⟩
      · simpa [current, hpc] using h.curr
      · intro curticks hwork
        simp [working] at hwork
  · rw [calloutTick_of_intMax hsoft]
    refine ⟨h.placed.same rfl rfl, hclock, fun hin => ?_, h.curr, ?_,
      fun _ => .stuck hout hpc hsoft, h.waiting⟩
    · simp only at hin
      omega
    · intro curticks hwork
      simp [working, hpc] at hwork

/-- A step within one tick that leaves the wheel alone. -/
theorem Sound.move (h : s.Sound epoch callwheelbits) (hs : s.working = some curticks)
    (ht : t.working = some curticks)
    (hsame : (t.ccCallwheel, t.callout, t.ccSoftticks, t.ticks, t.tick, t.ccWaiting) =
      (s.ccCallwheel, s.callout, s.ccSoftticks, s.ticks, s.tick, false))
    (hcurr : t.ccCurr = t.current) (hsweep : Sweep (s.bucket callwheelbits curticks) t.position
      fun c => (s.callout c).cTime ≠ curticks) : t.Sound epoch callwheelbits := by
  simp only [Prod.mk.injEq] at hsame
  obtain ⟨hwheel, hcallout, hsoft, hticks, htick, hwaiting⟩ := hsame
  obtain ⟨hin, hcur, hsofts, -⟩ := h.sweeping curticks hs
  refine ⟨h.placed.same hwheel hcallout, ?_, ?_, hcurr, ?_, ?_, hwaiting⟩
  · rw [hticks, htick, h.clock]
  · simpa only [hcallout, htick] using h.upcoming
  · intro cur hwork
    obtain rfl : curticks = cur := by simpa [ht] using hwork
    refine ⟨htick ▸ hin, hcur.trans hticks.symm, by rw [hsoft, hticks, hsofts], ?_⟩
    simpa only [bucket, hwheel, hcallout] using hsweep
  · simp [ht]

theorem bucket_dequeue (hdue : (s.callout c).cTime = curticks) :
    (s.dequeue callwheelbits curticks c).bucket callwheelbits curticks =
      (s.bucket callwheelbits curticks).erase c := by
  simp [dequeue, unlink, bucket, hdue]

theorem Sound.dequeue (h : s.Sound epoch callwheelbits) (hpc : s.pc = .scan curticks (some c))
    (hdue : (s.callout c).cTime = curticks) :
    (s.dequeue callwheelbits curticks c).Sound epoch callwheelbits := by
  have htime (d : CalloutId) :
      ((s.dequeue callwheelbits curticks c).callout d).cTime = (s.callout d).cTime := by
    by_cases hd : d = c <;> simp [CalloutCpu.dequeue, CalloutCpu.unlink, hd]
  have hpending (d : CalloutId) :
      ((s.dequeue callwheelbits curticks c).callout d).cPending = true →
        (s.callout d).cPending = true := by
    by_cases hd : d = c <;> simp [CalloutCpu.dequeue, CalloutCpu.unlink, hd]
  refine ⟨(h.placed.unlink c).same rfl rfl, h.clock, ?_, rfl, ?_, ?_, h.waiting⟩
  · intro hin d hd
    rw [htime]
    exact h.upcoming hin d (hpending d hd)
  · intro cur hwork
    obtain rfl : curticks = cur := by simpa [CalloutCpu.dequeue, working] using hwork
    obtain ⟨hin, hcur, hsoft, hsweep⟩ := h.sweeping curticks (by simp [working, hpc])
    refine ⟨hin, hcur, hsoft, ?_⟩
    have hposition : s.position = some c := by simp [position, hpc]
    simp only [htime]
    rw [bucket_dequeue hdue]
    rw [hposition] at hsweep
    exact hsweep.take (h.placed.nodup _)
  · intro hwork
    simp [CalloutCpu.dequeue, working] at hwork

/-- The loop of `softclock` ends, or takes up the next tick. -/
theorem Sound.softclock_head (h : s.Sound epoch callwheelbits) (hpc : s.pc = .head) :
    (s.softclock callwheelbits).Sound epoch callwheelbits := by
  have hnone : s.ccCurr = none := by simpa [current, hpc] using h.curr
  simp only [CalloutCpu.softclock, hpc]
  cases h.between (by simp [working, hpc]) with
  | done hin hsoft hdue =>
    rw [if_pos hsoft]
    refine ⟨h.placed.same rfl rfl, h.clock, h.upcoming, hnone, ?_, fun _ => .done hin hsoft hdue,
      h.waiting⟩
    intro curticks hwork
    simp [working] at hwork
  | behind hin _ hbehind =>
    have hsoft : s.ccSoftticks ≠ s.ticks := by
      intro hsoft
      rw [hsoft] at hbehind
      simp at hbehind
    rw [if_neg hsoft]
    refine ⟨h.placed.same rfl rfl, h.clock, h.upcoming, hnone, ?_, ?_, h.waiting⟩
    · intro curticks hwork
      obtain rfl : s.ccSoftticks = curticks := by simpa [working] using hwork
      exact ⟨hin, hbehind, hbehind, sweep_head _ _⟩
    · intro hwork
      simp [working] at hwork
  | stuck _ hidle _ => simp [hpc] at hidle

/-- At the end of a bucket nothing of its tick is left. -/
theorem Sound.softclock_end (h : s.Sound epoch callwheelbits) {curticks : BitVec 32}
    (hpc : s.pc = .scan curticks none) :
    (s.softclock callwheelbits).Sound epoch callwheelbits := by
  obtain ⟨hin, hcur, hsoft, hsweep⟩ := h.sweeping curticks (by simp [working, hpc])
  have hposition : s.position = none := by simp [position, hpc]
  rw [hposition] at hsweep
  have hdue := h.placed.noneDue hcur hsweep.all
  simp only [CalloutCpu.softclock, hpc]
  refine ⟨h.placed.same rfl rfl, h.clock, h.upcoming, by simpa [current, hpc] using h.curr, ?_,
    fun _ => .done hin hsoft hdue, h.waiting⟩
  intro curticks hwork
  simp [working] at hwork

/-- A callout of another lap is passed over, and one of this tick is dequeued. -/
theorem Sound.softclock_scan (h : s.Sound epoch callwheelbits) {curticks : BitVec 32}
    {c : CalloutId} (hpc : s.pc = .scan curticks (some c)) :
    (s.softclock callwheelbits).Sound epoch callwheelbits := by
  have hnone : s.ccCurr = none := by simpa [current, hpc] using h.curr
  have hwork : s.working = some curticks := by simp [working, hpc]
  simp only [CalloutCpu.softclock, hpc]
  by_cases hdue : (s.callout c).cTime = curticks
  · rw [if_neg (not_not.mpr hdue)]
    exact h.dequeue hpc hdue
  · have hskip : Sweep (s.bucket callwheelbits curticks)
        (after (s.bucket callwheelbits curticks) c) fun d => (s.callout d).cTime ≠ curticks := by
      obtain ⟨-, -, -, hsweep⟩ := h.sweeping curticks hwork
      have hposition : s.position = some c := by simp [position, hpc]
      rw [hposition] at hsweep
      exact hsweep.skip (h.placed.nodup _) hdue
    rw [if_pos hdue]
    split
    · exact h.move hwork rfl (by rw [h.waiting]) hnone hskip
    · exact h.move hwork rfl (by rw [h.waiting]) hnone hskip

theorem Sound.softclock (h : s.Sound epoch callwheelbits) :
    (s.softclock callwheelbits).Sound epoch callwheelbits := by
  -- the steps that only move within the tick under work
  have hmove {curticks : BitVec 32} (hs : s.working = some curticks) {t : CalloutCpu}
      (ht : t.working = some curticks)
      (hsame : (t.ccCallwheel, t.callout, t.ccSoftticks, t.ticks, t.tick, t.ccWaiting) =
        (s.ccCallwheel, s.callout, s.ccSoftticks, s.ticks, s.tick, s.ccWaiting))
      (hcurr : t.ccCurr = t.current) (hposition : t.position = s.position) :
      t.Sound epoch callwheelbits := by
    refine h.move hs ht (by rw [hsame, h.waiting]) hcurr ?_
    rw [hposition]
    exact (h.sweeping curticks hs).2.2.2
  have hcurr := h.curr
  cases hpc : s.pc with
  | head => exact h.softclock_head hpc
  | scan curticks next =>
    cases next with
    | none => exact h.softclock_end hpc
    | some c => exact h.softclock_scan hpc
  | idle => simpa only [CalloutCpu.softclock, hpc] using h
  | yielded curticks =>
    simp only [CalloutCpu.softclock, hpc]
    exact hmove (by simp [working, hpc]) rfl rfl (by simpa [current, hpc] using hcurr)
      (by simp [position, hpc])
  | called curticks c =>
    have hc : s.ccCurr = some c := by simpa [current, hpc] using hcurr
    simp only [CalloutCpu.softclock, hpc]
    split
    · exact hmove (by simp [working, hpc]) rfl rfl hc (by simp [position, hpc])
    · exact hmove (by simp [working, hpc]) rfl rfl hc (by simp [position, hpc])
  | running curticks c =>
    simp only [CalloutCpu.softclock, hpc]
    exact hmove (by simp [working, hpc]) rfl rfl (by simpa [current, hpc] using hcurr)
      (by simp [position, hpc])
  | skip curticks c =>
    simp only [CalloutCpu.softclock, hpc]
    rw [if_neg (by simp [h.waiting])]
    exact hmove (by simp [working, hpc]) rfl rfl rfl (by simp [position, hpc])
  | broadcast curticks =>
    simp only [CalloutCpu.softclock, hpc]
    exact hmove (by simp [working, hpc]) rfl rfl (by simpa [current, hpc] using hcurr)
      (by simp [position, hpc])

end Operations

end CalloutCpu

end Libuinet
