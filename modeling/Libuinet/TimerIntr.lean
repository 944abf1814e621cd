import Libuinet.Execution
import Mathlib.Tactic.Ring
import Mathlib.Tactic.Linarith

namespace Libuinet

open Execution

structure Timespec where
  tvSec : ℤ
  tvNsec : ℤ
  deriving DecidableEq

namespace Timespec

def timespecadd (v u : Timespec) : Timespec :=
  if 1000000000 ≤ v.tvNsec + u.tvNsec then
    ⟨v.tvSec + u.tvSec + 1, v.tvNsec + u.tvNsec - 1000000000⟩
  else ⟨v.tvSec + u.tvSec, v.tvNsec + u.tvNsec⟩

def timespecsub (v u : Timespec) : Timespec :=
  if v.tvNsec - u.tvNsec < 0 then
    ⟨v.tvSec - u.tvSec - 1, v.tvNsec - u.tvNsec + 1000000000⟩
  else ⟨v.tvSec - u.tvSec, v.tvNsec - u.tvNsec⟩

def timespecge (t u : Timespec) : Bool :=
  if t.tvSec = u.tvSec then u.tvNsec ≤ t.tvNsec else u.tvSec ≤ t.tvSec

def nanos (t : Timespec) : ℤ := t.tvSec * 1000000000 + t.tvNsec

def Normalized (t : Timespec) : Prop := 0 ≤ t.tvNsec ∧ t.tvNsec < 1000000000

instance (t : Timespec) : Decidable t.Normalized := inferInstanceAs (Decidable (_ ∧ _))

variable {t u : Timespec}

@[simp] theorem nanos_timespecadd (t u : Timespec) :
    (t.timespecadd u).nanos = t.nanos + u.nanos := by
  unfold timespecadd nanos
  split <;> simp only <;> ring

@[simp] theorem nanos_timespecsub (t u : Timespec) :
    (t.timespecsub u).nanos = t.nanos - u.nanos := by
  unfold timespecsub nanos
  split <;> simp only <;> ring

section

variable (ht : t.Normalized)
include ht

theorem Normalized.timespecadd (hu : u.Normalized) : (t.timespecadd u).Normalized := by
  unfold Timespec.timespecadd Normalized at *
  split <;> simp only <;> omega

theorem Normalized.timespecsub (hu : u.Normalized) : (t.timespecsub u).Normalized := by
  unfold Timespec.timespecsub Normalized at *
  split <;> simp only <;> omega

theorem Normalized.timespecge_iff (hu : u.Normalized) :
    t.timespecge u = true ↔ u.nanos ≤ t.nanos := by
  unfold timespecge nanos Normalized at *
  split <;> simp only [decide_eq_true_eq] <;> omega

theorem Normalized.nonneg_iff : 0 ≤ t.tvSec ↔ 0 ≤ t.nanos := by
  unfold nanos Normalized at *
  omega

end

end Timespec

def calibrationPeriod : ℕ := 5

inductive TimerPc where
  /-- about to sleep for a tick -/
  | sleep
  /-- in the loop that issues missed ticks -/
  | catchUp
  deriving DecidableEq

/-- The variables of `timer_intr`, and the calls of `uinet_hardclock` it has made. -/
structure TimerIntr where
  baseTickPeriod : Timespec
  targetPeriod : Timespec
  tickPeriod : Timespec
  start : Timespec
  delta : Timespec
  now : Timespec
  hardclocks : ℕ
  calls : ℕ
  pc : TimerPc

namespace TimerIntr

/-- Up to the loop, with the first reading of the clock. -/
def init (hz : ℕ) (start : Timespec) : TimerIntr where
  baseTickPeriod := ⟨0, 1000000000 / hz⟩
  targetPeriod := (·.timespecadd ⟨0, 1000000000 / hz⟩)^[calibrationPeriod] ⟨0, 0⟩
  tickPeriod := ⟨0, 1000000000 / hz⟩
  start := start
  delta := ⟨0, 0⟩
  now := start
  hardclocks := 0
  calls := 0
  pc := .sleep

/-- Only `tv_nsec` is divided. -/
def correction (delta : Timespec) : Timespec :=
  { delta with tvNsec := delta.tvNsec.tdiv (calibrationPeriod * 2) }

def calibrate (s : TimerIntr) (now : Timespec) : TimerIntr :=
  let elapsed := (now.timespecsub s.start).timespecadd s.delta
  if elapsed.timespecge s.targetPeriod then
    let delta := elapsed.timespecsub s.targetPeriod
    { s with
      now := now
      start := now
      delta := delta
      tickPeriod :=
        if s.tickPeriod.timespecge (correction delta) then
          s.tickPeriod.timespecsub (correction delta)
        else s.tickPeriod
      pc := .catchUp }
  else
    let delta := s.targetPeriod.timespecsub elapsed
    -- it sleeps for `delta` and starts the next period then
    { s with
      now := now
      start := now.timespecadd delta
      delta := ⟨0, 0⟩
      tickPeriod := s.tickPeriod.timespecadd (correction delta) }

/-- One round of a loop.  The clock may be read. -/
def step (s : TimerIntr) (now : Timespec) : TimerIntr :=
  match s.pc with
  | .sleep =>
    if s.hardclocks + 1 = calibrationPeriod then
      { s with calls := s.calls + 1, hardclocks := 0 }.calibrate now
    else { s with calls := s.calls + 1, hardclocks := s.hardclocks + 1 }
  | .catchUp =>
    if s.delta.timespecge s.baseTickPeriod then
      { s with delta := s.delta.timespecsub s.baseTickPeriod, calls := s.calls + 1 }
    else { s with pc := .sleep }

/-- A period of time as `uhi_nanosleep` can be asked for. -/
def Period (t : Timespec) : Prop := t.Normalized ∧ 0 ≤ t.tvSec

theorem period_iff {t : Timespec} : Period t ↔ t.Normalized ∧ 0 ≤ t.nanos :=
  and_congr_right fun h => h.nonneg_iff

theorem Period.timespecadd {t t' : Timespec} (h : Period t) (h' : Period t') :
    Period (t.timespecadd t') := by
  have hle := (period_iff.1 h).2
  have hle' := (period_iff.1 h').2
  rw [period_iff, Timespec.nanos_timespecadd]
  exact ⟨h.1.timespecadd h'.1, by omega⟩

/-- What one time is later than another. -/
theorem period_timespecsub {t t' : Timespec} (h : t.Normalized) (h' : t'.Normalized)
    (hle : t'.nanos ≤ t.nanos) : Period (t.timespecsub t') := by
  rw [period_iff, Timespec.nanos_timespecsub]
  exact ⟨h.timespecsub h', by omega⟩

theorem Period.correction {delta : Timespec} (h : Period delta) : Period (correction delta) := by
  obtain ⟨⟨hnonneg, hlt⟩, hsec⟩ := h
  have hdiv : delta.tvNsec.tdiv (calibrationPeriod * 2) = delta.tvNsec / 10 :=
    Int.tdiv_eq_ediv_of_nonneg hnonneg
  refine ⟨?_, hsec⟩
  unfold Timespec.Normalized TimerIntr.correction
  simp only [hdiv]
  omega

/-- What holds between two rounds of either loop, since the reading `t₀`. -/
structure Exact (t₀ : Timespec) (s : TimerIntr) : Prop where
  base : Period s.baseTickPeriod
  basePos : 0 < s.baseTickPeriod.nanos
  target : s.targetPeriod.Normalized
  targetNanos : s.targetPeriod.nanos = calibrationPeriod * s.baseTickPeriod.nanos
  tickPeriod : Period s.tickPeriod
  delta : Period s.delta
  start : s.start.Normalized
  now : s.now.nanos ≤ s.start.nanos
  hardclocks : s.hardclocks < calibrationPeriod
  sum : (s.calls - s.hardclocks) * s.baseTickPeriod.nanos + s.delta.nanos =
    s.start.nanos - t₀.nanos
  residual : s.pc = .sleep → s.delta.nanos < s.baseTickPeriod.nanos
  catchUp : s.pc = .catchUp → s.hardclocks = 0

theorem calibrationPeriod_pos : 0 < calibrationPeriod := by decide

theorem tick_bounds {hz : ℕ} (h5 : 5 ≤ hz) (hmax : hz ≤ 1000000) :
    (1000 : ℤ) ≤ 1000000000 / hz ∧ (1000000000 : ℤ) / hz ≤ 200000000 := by
  have hpos : (0 : ℤ) < hz := by omega
  constructor
  · rw [Int.le_ediv_iff_mul_le hpos]
    omega
  · apply Int.le_of_lt_add_one
    rw [Int.ediv_lt_iff_lt_mul hpos]
    omega

theorem exact_init {hz : ℕ} (h5 : 5 ≤ hz) (hmax : hz ≤ 1000000) {t₀ : Timespec}
    (ht₀ : t₀.Normalized) : (init hz t₀).Exact t₀ := by
  obtain ⟨hlo, hhi⟩ := tick_bounds h5 hmax
  have hbase : Period ⟨0, 1000000000 / hz⟩ := ⟨⟨by dsimp only; omega, by dsimp only; omega⟩, le_rfl⟩
  have hzero : Timespec.Normalized ⟨0, 0⟩ := by decide
  refine ⟨hbase, ?_, ?_, ?_, hbase, ⟨hzero, le_rfl⟩, ht₀, le_rfl,
    calibrationPeriod_pos, ?_, ?_, by simp [init]⟩
  · simp only [init, Timespec.nanos]
    omega
  · show ((·.timespecadd ⟨0, 1000000000 / hz⟩)^[5] (⟨0, 0⟩ : Timespec)).Normalized
    exact Function.Iterate.rec Timespec.Normalized hzero (fun t ht => ht.timespecadd hbase.1) 5
  · show ((·.timespecadd ⟨0, 1000000000 / hz⟩)^[5] (⟨0, 0⟩ : Timespec)).nanos = _
    simp only [Function.iterate_succ_apply, Function.iterate_zero_apply,
      Timespec.nanos_timespecadd]
    simp only [init, Timespec.nanos, calibrationPeriod]
    push_cast
    ring
  · simp [init, Timespec.nanos]
  · intro _
    simp only [init, Timespec.nanos]
    omega

theorem step_base (s : TimerIntr) (now : Timespec) :
    (s.step now).baseTickPeriod = s.baseTickPeriod := by
  unfold step calibrate
  dsimp only
  split <;> split_ifs <;> rfl

variable {t₀ : Timespec} {s : TimerIntr}

section

variable (h : s.Exact t₀)
include h

/-- The clock is read after five ticks. -/
theorem Exact.calibrate (hcalls : s.hardclocks + 1 = calibrationPeriod) (hpc : s.pc = .sleep)
    {now : Timespec} (hnow : now.Normalized) :
    ({ s with calls := s.calls + 1, hardclocks := 0 }.calibrate now).Exact t₀ := by
  have hsum := h.sum
  have htarget := h.targetNanos
  have helapsed : ((now.timespecsub s.start).timespecadd s.delta).Normalized :=
    (hnow.timespecsub h.start).timespecadd h.delta.1
  have hcount : (s.hardclocks : ℤ) = calibrationPeriod - 1 := by omega
  -- the five ticks since the clock was read last
  have hticks : ((s.calls + 1 : ℕ) - (0 : ℕ) : ℤ) * s.baseTickPeriod.nanos + s.delta.nanos =
      s.start.nanos - t₀.nanos + s.targetPeriod.nanos := by
    rw [hcount] at hsum
    rw [htarget, ← hsum]
    push_cast
    ring
  unfold TimerIntr.calibrate
  dsimp only
  by_cases hlate : ((now.timespecsub s.start).timespecadd s.delta).timespecge s.targetPeriod
  · rw [if_pos hlate]
    have hle := (helapsed.timespecge_iff h.target).1 hlate
    have hperiod : Period
        (((now.timespecsub s.start).timespecadd s.delta).timespecsub s.targetPeriod) :=
      period_timespecsub helapsed h.target hle
    refine ⟨h.base, h.basePos, h.target, h.targetNanos, ?_, hperiod, hnow, le_rfl,
      calibrationPeriod_pos, ?_, by simp, fun _ => rfl⟩
    · dsimp only
      split_ifs with hge
      · rw [h.tickPeriod.1.timespecge_iff hperiod.correction.1] at hge
        exact period_timespecsub h.tickPeriod.1 hperiod.correction.1 hge
      · exact h.tickPeriod
    · simp only [Timespec.nanos_timespecsub, Timespec.nanos_timespecadd]
      linarith
  · rw [if_neg hlate]
    have hlt : ((now.timespecsub s.start).timespecadd s.delta).nanos < s.targetPeriod.nanos := by
      rw [← not_le, ← helapsed.timespecge_iff h.target]
      exact hlate
    have hperiod : Period
        (s.targetPeriod.timespecsub ((now.timespecsub s.start).timespecadd s.delta)) :=
      period_timespecsub h.target helapsed hlt.le
    have hzero : (⟨0, 0⟩ : Timespec).nanos = 0 := rfl
    have hnone : Period ⟨0, 0⟩ := ⟨by decide, le_rfl⟩
    refine ⟨h.base, h.basePos, h.target, h.targetNanos, h.tickPeriod.timespecadd hperiod.correction,
      hnone, hnow.timespecadd hperiod.1, ?_, calibrationPeriod_pos, ?_, ?_, by simp [hpc]⟩
    · rw [Timespec.nanos_timespecadd]
      exact Int.le_add_of_nonneg_right (period_iff.1 hperiod).2
    · simp only [Timespec.nanos_timespecsub, Timespec.nanos_timespecadd, hzero]
      linarith
    · intro _
      dsimp only
      rw [hzero]
      exact h.basePos

/-- A missed tick is issued. -/
theorem Exact.issue (hpc : s.pc = .catchUp) (hge : s.delta.timespecge s.baseTickPeriod) :
    Exact t₀ { s with
      delta := s.delta.timespecsub s.baseTickPeriod
      calls := s.calls + 1 } := by
  rw [h.delta.1.timespecge_iff h.base.1] at hge
  refine { h with
    delta := period_timespecsub h.delta.1 h.base.1 hge
    sum := ?_
    residual := by simp [hpc] }
  rw [← h.sum, Timespec.nanos_timespecsub]
  push_cast
  ring

theorem Exact.step {now : Timespec} (hnow : now.Normalized) : (s.step now).Exact t₀ := by
  have hhard := h.hardclocks
  unfold TimerIntr.step
  split
  next hpc =>
    by_cases hcalls : s.hardclocks + 1 = calibrationPeriod
    · rw [if_pos hcalls]
      exact h.calibrate hcalls hpc hnow
    · rw [if_neg hcalls]
      refine { h with hardclocks := ?_, sum := ?_, catchUp := by simp [hpc] }
      · dsimp only
        omega
      · rw [← h.sum]
        push_cast
        ring
  next hpc =>
    by_cases hge : s.delta.timespecge s.baseTickPeriod
    · rw [if_pos hge]
      exact h.issue hpc hge
    · rw [if_neg hge]
      refine { h with hardclocks := hhard, residual := fun _ => ?_, catchUp := by simp }
      rw [h.delta.1.timespecge_iff h.base.1] at hge
      exact not_le.1 hge

/-- The missed ticks are issued, and the thread gets back to sleep. -/
theorem Exact.catchUp_ends (hpc : s.pc = .catchUp) :
    ∃ k, ∀ readings : List Timespec, readings.length = k →
      (run TimerIntr.step s readings).pc = .sleep := by
  -- one round for each whole tick in `delta`, and the one that leaves the loop
  suffices hrounds : ∀ (q : ℕ) (s : TimerIntr), s.Exact t₀ → s.pc = .catchUp →
      q * s.baseTickPeriod.nanos ≤ s.delta.nanos →
      s.delta.nanos < (q + 1) * s.baseTickPeriod.nanos →
      ∀ readings : List Timespec, readings.length = q + 1 →
        (run TimerIntr.step s readings).pc = .sleep by
    have hpos := h.basePos
    have hdelta := (period_iff.1 h.delta).2
    have hquot : ((s.delta.nanos / s.baseTickPeriod.nanos).toNat : ℤ) =
        s.delta.nanos / s.baseTickPeriod.nanos :=
      Int.toNat_of_nonneg (Int.ediv_nonneg hdelta hpos.le)
    refine ⟨_, hrounds (s.delta.nanos / s.baseTickPeriod.nanos).toNat s h hpc ?_ ?_⟩
    · rw [hquot]
      exact Int.ediv_mul_le _ hpos.ne'
    · rw [hquot]
      exact Int.lt_ediv_add_one_mul_self _ hpos
  intro q
  induction q with
  | zero =>
    intro s h hpc _ hlt readings hlength
    obtain ⟨now, rfl⟩ := List.length_eq_one_iff.1 hlength
    have hge : ¬ s.delta.timespecge s.baseTickPeriod := by
      rw [h.delta.1.timespecge_iff h.base.1]
      simpa using hlt
    simp [TimerIntr.step, hpc, hge]
  | succ q ih =>
    intro s h hpc hle hlt readings hlength
    have hpos := h.basePos
    obtain ⟨now, readings, rfl⟩ := List.exists_cons_of_length_eq_add_one hlength
    have hge : s.delta.timespecge s.baseTickPeriod := by
      rw [h.delta.1.timespecge_iff h.base.1]
      push_cast at hle
      nlinarith
    have hstep : s.step now =
        { s with delta := s.delta.timespecsub s.baseTickPeriod, calls := s.calls + 1 } := by
      simp [TimerIntr.step, hpc, hge]
    rw [run_cons, hstep]
    apply ih _ (h.issue hpc hge) hpc
    · rw [Timespec.nanos_timespecsub]
      push_cast at hle
      linarith
    · rw [Timespec.nanos_timespecsub]
      push_cast at hlt
      linarith
    · exact Nat.succ_injective hlength

end

end TimerIntr

/-- Whatever the clock shows, after a calibration the ticks and what is left over add up to
the time that has passed, and what is left over is less than a tick.  Each calibration
comes to its end. -/
theorem timer_intr_no_drift (hz : ℕ) (h5 : 5 ≤ hz) (hmax : hz ≤ 1000000) (t₀ : Timespec)
    (ht₀ : t₀.Normalized) (readings : List Timespec)
    (hreadings : ∀ now ∈ readings, now.Normalized) :
    let s := run TimerIntr.step (TimerIntr.init hz t₀) readings
    let base := (TimerIntr.init hz t₀).baseTickPeriod
    (s.pc = .sleep → s.hardclocks = 0 →
      s.calls * base.nanos + s.delta.nanos = s.start.nanos - t₀.nanos ∧
        0 ≤ s.delta.nanos ∧ s.delta.nanos < base.nanos ∧
        TimerIntr.Period s.tickPeriod ∧ TimerIntr.Period s.delta ∧
        s.now.nanos - t₀.nanos - s.calls * base.nanos < base.nanos) ∧
    (s.pc = .catchUp → ∃ k, ∀ more : List Timespec, more.length = k →
      (run TimerIntr.step s more).pc = .sleep) := by
  intro s base
  have hexact : s.Exact t₀ ∧ s.baseTickPeriod = base :=
    run_invariant (I := fun s => s.Exact t₀ ∧ s.baseTickPeriod = base)
      (fun s now h hnow => ⟨h.1.step hnow, (TimerIntr.step_base s now).trans h.2⟩)
      ⟨TimerIntr.exact_init h5 hmax ht₀, rfl⟩ (along_of_forall hreadings _)
  obtain ⟨hexact, hbase⟩ := hexact
  refine ⟨fun hpc hhard => ?_, hexact.catchUp_ends⟩
  have hsum := hexact.sum
  have hresidual := hexact.residual hpc
  have hnow := hexact.now
  rw [hbase] at hsum hresidual
  simp only [hhard, Nat.cast_zero, sub_zero] at hsum
  refine ⟨hsum, (TimerIntr.period_iff.1 hexact.delta).2, hresidual, hexact.tickPeriod,
    hexact.delta, ?_⟩
  omega

/-- Five ticks of 10 ms that took 73 ms: two are made up for, and 3 ms are kept. -/
theorem timer_intr_no_drift_late :
    let s := run TimerIntr.step (TimerIntr.init 100 ⟨10, 0⟩) (List.replicate 8 ⟨10, 73000000⟩)
    s.calls = 7 ∧ s.delta = ⟨0, 3000000⟩ ∧
      (s.calls : ℤ) * 10000000 + s.delta.nanos = s.start.nanos - (⟨10, 0⟩ : Timespec).nanos := by
  refine ⟨by decide +kernel, by decide +kernel, ?_⟩
  exact ((timer_intr_no_drift 100 (by decide) (by decide) ⟨10, 0⟩ (by decide)
    (List.replicate 8 ⟨10, 73000000⟩) (by decide)).1 (by decide +kernel) (by decide +kernel)).1

end Libuinet
