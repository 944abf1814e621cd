import Libuinet.Callout

namespace Libuinet

open ListSweep Execution

/-- Where the thread in `callout_drain` stands. -/
inductive Drainer where
  | away
  /-- in `cv_wait`: nothing calls `cv_init` on `callout_cv`, so `pthread_cond_wait` gets a null
  pointer -/
  | faulted
  /-- whether the callout was reset since -/
  | returned (reset : Bool)
  deriving DecidableEq

/-- `halted` says that some thread has faulted, so that the process is gone. -/
structure Draining where
  cpu : CalloutCpu
  drainer : Drainer := .away
  halted : Bool := false

/-- Calls of other threads and of handlers, clock ticks, steps of `softclock`, and the call of the
draining thread. -/
inductive DrainEvent where
  | reset (d : CalloutId) (toTicks : BitVec 32)
  | stop (d : CalloutId) (safe : Bool)
  | tick
  | soft
  | drain

namespace CalloutCpu

def Clear (s : CalloutCpu) (c : CalloutId) : Prop :=
  s.ccCurr ≠ some c ∧ (s.callout c).cPending = false

instance (s : CalloutCpu) (c : CalloutId) : Decidable (s.Clear c) :=
  inferInstanceAs (Decidable (_ ∧ _))

end CalloutCpu

namespace Draining

open CalloutCpu

def step (callwheelbits : ℕ) (c : CalloutId) (s : Draining) (e : DrainEvent) : Draining :=
  if s.halted then s
  else match e with
  | .reset d toTicks =>
    if s.cpu.unlocked then
      { s with
        cpu := (s.cpu.calloutResetOn callwheelbits d toTicks).2
        drainer := match s.drainer with
          | .returned reset => .returned (reset || d = c)
          | drainer => drainer }
    else s
  | .stop d safe =>
    if s.cpu.unlocked then
      let (result, cpu) := s.cpu.calloutStopSafe callwheelbits d safe
      { s with cpu, halted := result.isNone }
    else s
  | .tick => if s.cpu.pc = .idle then { s with cpu := s.cpu.calloutTick callwheelbits } else s
  | .soft => { s with cpu := s.cpu.softclock callwheelbits }
  | .drain =>
    if s.cpu.unlocked = true ∧ s.drainer = .away then
      let (result, cpu) := s.cpu.calloutStopSafe callwheelbits c true
      { cpu
        drainer := if result = none then .faulted else .returned false
        halted := result.isNone }
    else s

def start (epoch : BitVec 32) (cLock : CalloutId → Bool) : Draining where
  cpu := CalloutCpu.start epoch cLock

/-- The thread has not faulted, and if it has returned the callout is drained. -/
def Drains (c : CalloutId) (s : Draining) : Prop :=
  s.drainer ≠ .faulted ∧ (s.drainer = .returned false → s.cpu.Clear c)

instance (c : CalloutId) (s : Draining) : Decidable (s.Drains c) :=
  inferInstanceAs (Decidable (_ ∧ _))

variable {epoch : BitVec 32} {callwheelbits : ℕ} {c : CalloutId} {s : Draining}

theorem sound_step (h : s.cpu.Sound epoch callwheelbits) (c : CalloutId) (e : DrainEvent) :
    (s.step callwheelbits c e).cpu.Sound epoch callwheelbits := by
  unfold step
  split
  · exact h
  · cases e with
    | reset d toTicks =>
      simp only
      split
      · next hlock => exact h.calloutResetOn hlock d toTicks
      · exact h
    | stop d safe =>
      simp only
      split
      · next hlock => exact h.calloutStopSafe hlock d safe
      · exact h
    | tick =>
      simp only
      split
      · next hpc => exact h.calloutTick hpc
      · exact h
    | soft => exact h.softclock
    | drain =>
      simp only
      split
      · next hlock => exact h.calloutStopSafe hlock.1 c true
      · exact h

end Draining

namespace CalloutCpu

variable {epoch : BitVec 32} {callwheelbits : ℕ} {c d : CalloutId} {s t : CalloutCpu}

theorem Clear.arms (h : s.Clear c) {time : BitVec 32} (harm : s.Arms d time t) (hd : d ≠ c) :
    t.Clear c := by
  obtain ⟨-, -, hcurr⟩ : t.tick = s.tick ∧ t.pc = s.pc ∧ t.ccCurr = s.ccCurr := by
    simpa using harm.rest
  rw [Clear, hcurr, harm.other c hd.symm]
  exact h

theorem Clear.stops (h : s.Clear c) (hstop : s.Stops d t) : t.Clear c := by
  obtain ⟨-, -, hcurr⟩ : t.tick = s.tick ∧ t.pc = s.pc ∧ t.ccCurr = s.ccCurr := by
    simpa using hstop.rest
  refine ⟨hcurr ▸ h.1, ?_⟩
  by_cases hd : c = d
  · subst hd
    rw [hstop.self]
  · rw [hstop.other c hd]
    exact h.2

section

variable (h : s.Clear c) (hsound : s.Sound epoch callwheelbits)
include h hsound

/-- `softclock` takes only pending callouts. -/
theorem Clear.softclock : (s.softclock callwheelbits).Clear c := by
  unfold CalloutCpu.softclock
  split
  case h_4 curticks d hpc =>
    split
    · simp only
      split <;> exact h
    · have hmem : d ∈ s.bucket callwheelbits curticks :=
        hsound.position_mem (by simp [working, hpc]) (by simp [position, hpc])
      obtain ⟨hpending, -⟩ := (hsound.placed.mem_bucket curticks d).mp hmem
      have hd : c ≠ d := by
        rintro rfl
        simp [h.2] at hpending
      refine ⟨by simpa [CalloutCpu.dequeue] using Ne.symm hd, ?_⟩
      simpa [CalloutCpu.dequeue, CalloutCpu.unlink, hd] using h.2
  case h_8 curticks d hpc =>
    split <;> exact ⟨by simp, h.2⟩
  all_goals first | exact h | (split <;> exact h)

theorem Clear.calloutTick (hpc : s.pc = .idle) : (s.calloutTick callwheelbits).Clear c := by
  rcases hsound.calloutTick_cases hpc with ⟨-, hsoft, -, hnext⟩ | ⟨-, hsoft, -⟩
  · rw [calloutTick_eq hsoft hnext]
    split <;> exact h
  · rw [calloutTick_of_intMax hsoft]
    exact h

end

/-- The thread returns, or goes into `cv_wait` when the callout is in progress and not pending. -/
theorem calloutStopSafe_wait (s : CalloutCpu) (c : CalloutId) :
    (s.calloutStopSafe callwheelbits c true).1 = none ↔
      (s.callout c).cPending = false ∧ s.ccCurr = some c := by
  have hcurr : (s.deactivate c).ccCurr = s.ccCurr := rfl
  cases hpending : (s.callout c).cPending <;>
    by_cases hc : s.ccCurr = some c <;> simp [calloutStopSafe, hcurr, hpending, hc]

end CalloutCpu

namespace Draining

open CalloutCpu

variable {epoch : BitVec 32} {callwheelbits : ℕ} {c : CalloutId} {s : Draining}

def Done (c : CalloutId) (s : Draining) : Prop :=
  ∃ reset, s.drainer = .returned reset ∧ (reset = false → s.cpu.Clear c)

theorem Done.drains (h : s.Done c) : s.Drains c := by
  obtain ⟨reset, hreturned, hclear⟩ := h
  refine ⟨by simp [hreturned], fun hnot => hclear ?_⟩
  simpa [hreturned] using hnot

theorem Done.step (h : s.Done c) (hsound : s.cpu.Sound epoch callwheelbits) (e : DrainEvent) :
    (s.step callwheelbits c e).Done c := by
  have hdone := h
  obtain ⟨reset, hreturned, hclear⟩ := h
  unfold Draining.step
  split
  · exact hdone
  · cases e with
    | reset d toTicks =>
      simp only
      split
      · refine ⟨reset || d = c, by simp [hreturned], fun hnot => ?_⟩
        obtain ⟨hreset, hd⟩ : reset = false ∧ d ≠ c := by simpa using hnot
        exact (hclear hreset).arms (calloutResetOn_arms _ _ hsound.waiting d toTicks) hd
      · exact hdone
    | stop d safe =>
      simp only
      split
      · refine ⟨reset, hreturned, fun hreset => ?_⟩
        exact (hclear hreset).stops (calloutStopSafe_stops _ _ d safe)
      · exact hdone
    | tick =>
      simp only
      split
      · next hpc => exact ⟨reset, hreturned, fun hreset => (hclear hreset).calloutTick hsound hpc⟩
      · exact hdone
    | soft => exact ⟨reset, hreturned, fun hreset => (hclear hreset).softclock hsound⟩
    | drain => simpa [hreturned] using hdone

/-- The call of the draining thread. -/
theorem step_drain (callwheelbits : ℕ) (c : CalloutId) (hrun : s.halted = false)
    (hlock : s.cpu.unlocked = true) (haway : s.drainer = .away) :
    let t := s.step callwheelbits c .drain
    t.cpu = (s.cpu.calloutStopSafe callwheelbits c true).2 ∧
      t.drainer = if (s.cpu.callout c).cPending = false ∧ s.cpu.ccCurr = some c
        then .faulted else .returned false := by
  simp [step, hrun, hlock, haway, calloutStopSafe_wait]

/-- In whatever state the thread takes `cc_lock`: it drains the callout, whatever happens then, if
and only if the callout is not in progress. -/
theorem calloutDrain_drains_iff (callwheelbits : ℕ) (epoch : BitVec 32) (cLock : CalloutId → Bool)
    (c : CalloutId) (events : List DrainEvent) :
    let s := run (Draining.step callwheelbits c) (start epoch cLock) events
    s.halted = false → s.cpu.unlocked = true → s.drainer = .away →
      ((∀ later, (run (Draining.step callwheelbits c)
        (s.step callwheelbits c .drain) later).Drains c) ↔ s.cpu.ccCurr ≠ some c) := by
  intro s hrun hlock haway
  have hsound : s.cpu.Sound epoch callwheelbits :=
    run_preserves (I := fun s : Draining => s.cpu.Sound epoch callwheelbits)
      (fun _ e h => sound_step h c e) (sound_start epoch cLock) events
  have hsound' := sound_step hsound c .drain
  obtain ⟨hcpu, hdrainer⟩ := step_drain callwheelbits c hrun hlock haway
  have hstops := calloutStopSafe_stops callwheelbits s.cpu c true
  rw [← hcpu] at hstops
  have hcurr := congrArg (fun rest => rest.2.2) hstops.rest
  constructor
  · intro hall hc
    obtain ⟨hfault, hclear⟩ := hall []
    by_cases hpending : (s.cpu.callout c).cPending = false
    · exact hfault (hdrainer.trans (if_pos ⟨hpending, hc⟩))
    · -- It finds the callout pending, and returns although it is in progress.
      have hreturned := hdrainer.trans (if_neg fun hwait => hpending hwait.1)
      exact (hclear hreturned).1 (hcurr.trans hc)
  · intro hc later
    have hdone : (s.step callwheelbits c .drain).Done c :=
      ⟨false, hdrainer.trans (if_neg fun hwait => hc hwait.2),
        fun _ => ⟨fun h => hc (hcurr.symm.trans h), by rw [hstops.self]⟩⟩
    have hrun := run_preserves
      (I := fun s : Draining => s.cpu.Sound epoch callwheelbits ∧ s.Done c)
      (fun _ e h => ⟨sound_step h.1 c e, h.2.step h.1 e⟩) ⟨hsound', hdone⟩ later
    exact hrun.2.drains

/-- Callout 1 is armed for the next tick, and its handler runs at the one after. -/
def fired : List DrainEvent :=
  [.reset 1 1, .tick, .soft, .soft, .soft, .soft, .tick, .soft, .soft, .soft]

/-- While the handler runs: if it has armed its callout again the thread returns at once, and if
not the thread faults. -/
theorem calloutDrain_not_drained :
    let s := run (Draining.step 0 1) (start 0 fun _ => false) (fired ++ [.reset 1 1, .drain])
    let t := run (Draining.step 0 1) (start 0 fun _ => false) (fired ++ [.drain])
    (s.cpu.pc = .running 1 1 ∧ s.drainer = .returned false ∧ ¬ s.Drains 1) ∧
      (t.cpu.pc = .running 1 1 ∧ t.drainer = .faulted ∧ ¬ t.Drains 1) := by
  decide

/-- While the handler of another callout runs, a pending callout is drained. -/
theorem calloutDrain_drains_pending :
    let s := run (Draining.step 3 0) (start 0 fun _ => false) (.reset 0 7 :: fired)
    s.cpu.pc = .running 1 1 ∧ (s.cpu.callout 0).cPending = true ∧
      ∀ later, (run (Draining.step 3 0) (s.step 3 0 .drain) later).Drains 0 := by
  intro s
  have hrun : s.cpu.pc = .running 1 1 ∧ (s.cpu.callout 0).cPending = true ∧ s.halted = false ∧
      s.cpu.unlocked = true ∧ s.drainer = .away ∧ s.cpu.ccCurr ≠ some 0 := by decide
  obtain ⟨hpc, hpending, hhalted, hlock, haway, hcurr⟩ := hrun
  refine ⟨hpc, hpending, ?_⟩
  exact (calloutDrain_drains_iff 3 0 (fun _ => false) 0 (.reset 0 7 :: fired)
    hhalted hlock haway).mpr hcurr

end Draining

end Libuinet
