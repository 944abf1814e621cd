import Libuinet.Callout
import Mathlib.Order.Bounds.Basic

namespace Libuinet

open ListSweep Execution

namespace CalloutEvent

def cancels (c : CalloutId) : CalloutEvent → Bool
  | .armed d _ _ _ | .stopped d => d = c
  | .executed _ _ _ => false

def concerns (c : CalloutId) : CalloutEvent → Bool
  | .armed d _ _ _ | .stopped d | .executed d _ _ => d = c

def executes (c : CalloutId) (n : ℕ) : CalloutEvent → Bool
  | .executed d m _ => d = c && m = n
  | _ => false

theorem not_concerns {c : CalloutId} {e : CalloutEvent} (h : e.concerns c = false) (n : ℕ) :
    e.cancels c = false ∧ e.executes c n = false := by
  cases e <;> simp_all [concerns, cancels, executes]

theorem concerns_cases {c : CalloutId} {e : CalloutEvent} (h : e.concerns c = true) :
    e.cancels c = true ∨ ∃ n tick, e = .executed c n tick := by
  cases e with
  | armed d n tick time => exact .inl h
  | stopped d => exact .inl h
  | executed d n tick =>
    obtain rfl : d = c := by simpa [concerns] using h
    exact .inr ⟨n, tick, rfl⟩

end CalloutEvent

namespace CalloutLog

/-- The arming of the callout that nothing has ended: its number, tick and time. -/
def live (c : CalloutId) : List CalloutEvent → Option (ℕ × ℕ × BitVec 32)
  | [] => none
  | .armed d n tick time :: log => if d = c then some (n, tick, time) else live c log
  | .stopped d :: log | .executed d _ _ :: log => if d = c then none else live c log

def fires (epoch : BitVec 32) (tick : ℕ) (time : BitVec 32) : ℕ :=
  tick + (time + 1 - (epoch + BitVec.ofNat 32 tick)).toNat

/-- The armings are numbered, and what is executed is a live arming at its tick, before the clock
wraps. -/
def Valid (epoch : BitVec 32) : List CalloutEvent → Prop
  | [] => True
  | .armed _ n _ _ :: log => Valid epoch log ∧ n = log.length
  | .stopped _ :: log => Valid epoch log
  | .executed c n m :: log => Valid epoch log ∧
    ∃ tick time, live c log = some (n, tick, time) ∧ m = fires epoch tick time ∧
      m < CalloutCpu.wrapTick epoch

def Cancelled (c : CalloutId) (n : ℕ) : List CalloutEvent → Prop
  | [] => False
  | e :: earlier => (e.cancels c = true ∧ ∀ x ∈ earlier, x.executes c n = false) ∨
    Cancelled c n earlier

def executions (c : CalloutId) (n : ℕ) (log : List CalloutEvent) : ℕ :=
  log.countP (CalloutEvent.executes c n)

theorem fires_isLeast (epoch : BitVec 32) (tick : ℕ) (time : BitVec 32) :
    IsLeast {n | tick ≤ n ∧ epoch + BitVec.ofNat 32 n = time + 1} (fires epoch tick time) := by
  constructor
  · refine ⟨Nat.le_add_right _ _, ?_⟩
    rw [fires, BitVec.ofNat_add, BitVec.ofNat_toNat, BitVec.setWidth_eq, ← add_assoc]
    exact add_sub_cancel _ _
  · rintro n ⟨hle, hn⟩
    obtain ⟨k, rfl⟩ := Nat.exists_eq_add_of_le hle
    have hk : time + 1 - (epoch + BitVec.ofNat 32 tick) = BitVec.ofNat 32 k := by
      rw [← hn, BitVec.ofNat_add, ← add_assoc]
      exact add_sub_cancel_left _ _
    rw [fires, hk, BitVec.toNat_ofNat]
    exact Nat.add_le_add_left (Nat.mod_le _ _) _

section Fate

variable {epoch : BitVec 32} {c : CalloutId} {n tick : ℕ} {time : BitVec 32}
  {log post pre : List CalloutEvent} {e : CalloutEvent}

theorem Valid.tail (h : Valid epoch (e :: log)) : Valid epoch log := by
  cases e with
  | armed d m k t => exact h.1
  | stopped d => exact h
  | executed d m k => exact h.1

theorem Valid.of_append (h : Valid epoch (post ++ log)) : Valid epoch log := by
  induction post with
  | nil => exact h
  | cons e post ih => exact ih h.tail

theorem live_cons_iff : live c (e :: log) = some (n, tick, time) ↔
    e = .armed c n tick time ∨ e.concerns c = false ∧ live c log = some (n, tick, time) := by
  cases e with
  | armed d m k t => by_cases hd : d = c <;> simp [live, CalloutEvent.concerns, hd]
  | stopped d => by_cases hd : d = c <;> simp [live, CalloutEvent.concerns, hd]
  | executed d m k => by_cases hd : d = c <;> simp [live, CalloutEvent.concerns, hd]

theorem Valid.live_lt (h : Valid epoch log) (hlive : live c log = some (n, tick, time)) :
    n < log.length := by
  induction log with
  | nil => simp [live] at hlive
  | cons e log ih =>
    rw [List.length_cons]
    rcases live_cons_iff.mp hlive with rfl | ⟨-, hrest⟩
    · rw [h.2]
      exact Nat.lt_succ_self _
    · exact Nat.lt_succ_of_lt (ih h.tail hrest)

/-- Nothing is executed that was not armed before. -/
theorem Valid.not_executes (h : Valid epoch log) (hn : log.length ≤ n) :
    ∀ e ∈ log, e.executes c n = false := by
  induction log with
  | nil => simp
  | cons e log ih =>
    rw [List.length_cons] at hn
    have hrest := ih h.tail (Nat.le_of_succ_le hn)
    refine List.forall_mem_cons.mpr ⟨?_, hrest⟩
    cases e with
    | armed d m k t => rfl
    | stopped d => rfl
    | executed d m k =>
      obtain ⟨hlog, tick, time, hlive, -⟩ := h
      have hlt := hlog.live_lt hlive
      have hne : m ≠ n := by omega
      simp [CalloutEvent.executes, hne]

/-- What has become of an arming: either nothing has happened to its callout since, or it has
ended, by its execution or otherwise, and is not executed any more. -/
inductive Fate (epoch : BitVec 32) (c : CalloutId) (n tick : ℕ) (time : BitVec 32)
    (log post : List CalloutEvent) : Prop where
  | waits (hlive : live c log = some (n, tick, time))
      (hquiet : ∀ e ∈ post, e.cancels c = false ∧ e.executes c n = false)
  | ended (later : List CalloutEvent) (e : CalloutEvent) (earlier : List CalloutEvent)
      (hpost : post = later ++ e :: earlier)
      (hend : e.cancels c = true ∨ e = .executed c n (fires epoch tick time) ∧
        fires epoch tick time < CalloutCpu.wrapTick epoch)
      (hquiet : ∀ x ∈ earlier, x.cancels c = false ∧ x.executes c n = false)
      (hnever : ∀ x ∈ later, x.executes c n = false)
      (hdead : ∀ m k t, live c log = some (m, k, t) → m ≠ n)

/-- An arming that is not live does not become so. -/
theorem Valid.dead_cons (h : Valid epoch (e :: log)) (hn : n < log.length)
    (hdead : e.concerns c = true ∨ ∀ m k t, live c log = some (m, k, t) → m ≠ n) :
    ∀ m k t, live c (e :: log) = some (m, k, t) → m ≠ n := by
  intro m k t hlive
  rcases live_cons_iff.mp hlive with rfl | ⟨hquiet, hrest⟩
  · rw [h.2]
    exact hn.ne'
  · rcases hdead with hc | hdead
    · rw [hc] at hquiet
      contradiction
    · exact hdead m k t hrest

theorem Fate.cons (h : Fate epoch c n tick time log post) (hvalid : Valid epoch (e :: log))
    (hn : n < log.length) : Fate epoch c n tick time (e :: log) (e :: post) := by
  obtain ⟨hlive, hquiet⟩ | ⟨later, x, earlier, rfl, hend, hquiet, hnever, hdead⟩ := h
  · cases hc : e.concerns c with
    | false =>
      refine .waits (live_cons_iff.mpr (.inr ⟨hc, hlive⟩)) ?_
      exact List.forall_mem_cons.mpr ⟨CalloutEvent.not_concerns hc n, hquiet⟩
    | true =>
      refine .ended [] e post rfl ?_ hquiet (by simp) (hvalid.dead_cons hn (.inl hc))
      rcases CalloutEvent.concerns_cases hc with hcancel | ⟨m, k, rfl⟩
      · exact .inl hcancel
      · obtain ⟨-, tick', time', hlive', rfl, hin⟩ := hvalid
        obtain ⟨rfl, rfl, rfl⟩ : n = m ∧ tick = tick' ∧ time = time' := by
          simpa [hlive] using hlive'
        exact .inr ⟨rfl, hin⟩
  · have hnever' : e.executes c n = false := by
      cases e with
      | armed d m k t => rfl
      | stopped d => rfl
      | executed d m k =>
        obtain ⟨-, tick', time', hlive', -⟩ := hvalid
        by_cases hd : d = c
        · subst hd
          simp [CalloutEvent.executes, hdead m tick' time' hlive']
        · simp [CalloutEvent.executes, hd]
    exact .ended (e :: later) x earlier rfl hend hquiet
      (List.forall_mem_cons.mpr ⟨hnever', hnever⟩) (hvalid.dead_cons hn (.inr hdead))

theorem Valid.fate (h : Valid epoch (post ++ .armed c n tick time :: pre)) :
    Fate epoch c n tick time (post ++ .armed c n tick time :: pre) post := by
  have hn : n = pre.length := h.of_append.2
  induction post with
  | nil => exact .waits (by simp [live]) (by simp)
  | cons e post ih =>
    refine (ih h.tail).cons h ?_
    simp only [hn, List.length_append, List.length_cons]
    omega

theorem executions_eq_zero (h : ∀ e ∈ log, e.executes c n = false) : executions c n log = 0 := by
  rw [executions, List.countP_eq_zero]
  intro e he
  simp [h e he]

theorem not_cancelled_of_quiet (h : ∀ e ∈ log, e.cancels c = false) : ¬ Cancelled c n log := by
  induction log with
  | nil => exact id
  | cons e log ih =>
    obtain ⟨he, hlog⟩ := List.forall_mem_cons.mp h
    rintro (⟨hcancel, -⟩ | hrest)
    · simp [he] at hcancel
    · exact ih hlog hrest

theorem cancelled_append_cons (he : e.cancels c = true) (hlog : ∀ x ∈ log, x.executes c n = false)
    (later : List CalloutEvent) : Cancelled c n (later ++ e :: log) := by
  induction later with
  | nil => exact .inl ⟨he, hlog⟩
  | cons x later ih => exact .inr ih

theorem not_cancelled_append_executed (hlog : ∀ x ∈ log, x.cancels c = false) (m : ℕ)
    (later : List CalloutEvent) : ¬ Cancelled c n (later ++ .executed c n m :: log) := by
  induction later with
  | nil =>
    rintro (⟨hcancel, -⟩ | hrest)
    · simp [CalloutEvent.cancels] at hcancel
    · exact not_cancelled_of_quiet hlog hrest
  | cons x later ih =>
    rintro (⟨-, hnever⟩ | hrest)
    · have := hnever (.executed c n m) (by simp)
      simp [CalloutEvent.executes] at this
    · exact ih hrest

/-- An arming is executed once, in time, or cancelled, but not both, or it still waits. -/
theorem Fate.cases (h : Fate epoch c n tick time log post) :
    (∀ m, .executed c n m ∈ post → m = fires epoch tick time) ∧
      (executions c n post = 0 ∧ live c log = some (n, tick, time) ∧ ¬ Cancelled c n post ∨
        executions c n post = 0 ∧ Cancelled c n post ∨
        executions c n post = 1 ∧ ¬ Cancelled c n post ∧
          fires epoch tick time < CalloutCpu.wrapTick epoch) := by
  have hself (m : ℕ) : (CalloutEvent.executed c n m).executes c n = true := by
    simp [CalloutEvent.executes]
  obtain ⟨hlive, hquiet⟩ | ⟨later, e, earlier, rfl, hend, hquiet, hnever, -⟩ := h
  · have hnone := fun e he => (hquiet e he).2
    refine ⟨fun m hm => ?_, .inl ⟨executions_eq_zero hnone, hlive, ?_⟩⟩
    · exact absurd (hnone _ hm) (by simp [hself])
    · exact not_cancelled_of_quiet fun e he => (hquiet e he).1
  · have hcount : executions c n (later ++ e :: earlier) =
        if e.executes c n = true then 1 else 0 := by
      have hlater := executions_eq_zero hnever
      have hearlier := executions_eq_zero fun x hx => (hquiet x hx).2
      rw [executions] at hlater hearlier
      rw [executions, List.countP_append, List.countP_cons, hlater, hearlier]
      simp
    have hmem (m : ℕ) (hm : .executed c n m ∈ later ++ e :: earlier) : .executed c n m = e := by
      rcases List.mem_append.mp hm with hm | hm
      · exact absurd (hnever _ hm) (by simp [hself])
      · rcases List.mem_cons.mp hm with rfl | hm
        · rfl
        · exact absurd (hquiet _ hm).2 (by simp [hself])
    rcases hend with hcancel | ⟨rfl, hin⟩
    · have hnot : e.executes c n = false := by
        cases e <;> simp_all [CalloutEvent.cancels, CalloutEvent.executes]
      refine ⟨fun m hm => ?_, .inr (.inl ⟨by simp [hcount, hnot], ?_⟩)⟩
      · rw [← hmem m hm, hself] at hnot
        contradiction
      · exact cancelled_append_cons hcancel (fun x hx => (hquiet x hx).2) later
    · refine ⟨fun m hm => ?_, .inr (.inr ⟨by simp [hcount, hself], ?_, hin⟩)⟩
      · simpa using hmem m hm
      · exact not_cancelled_append_executed (fun x hx => (hquiet x hx).1) _ later

end Fate

end CalloutLog

namespace CalloutCpu

open CalloutLog

variable {epoch : BitVec 32} {callwheelbits : ℕ} {s t : CalloutCpu} {c : CalloutId}

/-- A pending callout is in its live arming, and a live arming is pending or just taken off the
wheel. -/
structure Tracks (epoch : BitVec 32) (s : CalloutCpu) (c : CalloutId) : Prop where
  pending : (s.callout c).cPending = true → ∃ tick,
    live c s.log = some ((s.callout c).arming, tick, (s.callout c).cTime) ∧ tick ≤ s.tick ∧
      min s.tick (wrapTick epoch) ≤ fires epoch tick (s.callout c).cTime
  live : live c s.log ≠ none → (s.callout c).cPending = true ∨ ∃ curticks, s.pc = .called curticks c

structure Logged (epoch : BitVec 32) (s : CalloutCpu) : Prop where
  valid : Valid epoch s.log
  tracks : ∀ c, s.Tracks epoch c
  called : ∀ curticks c, s.pc = .called curticks c →
    s.ccCancel = false ∧ (s.callout c).cPending = false ∧ ∃ tick,
      live c s.log = some ((s.callout c).arming, tick, (s.callout c).cTime) ∧
        fires epoch tick (s.callout c).cTime = s.tick ∧ s.tick < wrapTick epoch

def NotCalled (s : CalloutCpu) : Prop := ∀ curticks c, s.pc ≠ .called curticks c

theorem Tracks.congr (h : s.Tracks epoch c) (hpc : ∀ curticks, s.pc ≠ .called curticks c)
    (hcallout : t.callout c = s.callout c)
    (hlive : CalloutLog.live c t.log = CalloutLog.live c s.log) (htick : t.tick = s.tick) :
    t.Tracks epoch c where
  pending := by
    rw [hcallout, hlive, htick]
    exact h.pending
  live := by
    rw [hcallout, hlive]
    intro hlive
    exact .inl ((h.live hlive).resolve_right fun ⟨curticks, hcalled⟩ => hpc curticks hcalled)

/-- A step that does nothing to the callouts. -/
theorem Logged.same (h : s.Logged epoch) (hpc : s.NotCalled) (hpc' : t.NotCalled)
    (hsame : (t.callout, t.log, t.tick) = (s.callout, s.log, s.tick)) : t.Logged epoch := by
  simp only [Prod.mk.injEq] at hsame
  obtain ⟨hcallout, hlog, htick⟩ := hsame
  refine ⟨by rw [hlog]; exact h.valid, fun c => ?_, fun curticks c hc => ?_⟩
  swap
  · exact absurd hc (hpc' curticks c)
  exact (h.tracks c).congr (fun curticks => hpc curticks _) (by rw [hcallout]) (by rw [hlog]) htick

theorem live_cons_of_ne {d : CalloutId} (hd : d ≠ c) {e : CalloutEvent}
    (he : ∀ d, e.concerns d = true → d = c) (log : List CalloutEvent) :
    live d (e :: log) = live d log := by
  have hquiet : e.concerns d = false := by
    by_contra hc
    exact hd (he d (Bool.eq_true_of_not_eq_false hc))
  cases e <;> simp_all [live, CalloutEvent.concerns]

theorem Logged.arms (h : s.Logged epoch) (hpc : s.NotCalled) {time : BitVec 32}
    (harm : s.Arms c time t) : t.Logged epoch := by
  obtain ⟨htick, hpc', -⟩ : t.tick = s.tick ∧ t.pc = s.pc ∧ t.ccCurr = s.ccCurr := by
    simpa using harm.rest
  refine ⟨by rw [harm.log]; exact ⟨h.valid, rfl⟩, fun d => ?_, fun curticks d hd => ?_⟩
  · by_cases hd : d = c
    · subst hd
      refine ⟨fun _ => ⟨s.tick, ?_, htick.ge, ?_⟩, fun _ => .inl (by rw [harm.self])⟩
      · rw [harm.log, harm.self]
        simp [live]
      · rw [htick]
        exact (min_le_left _ _).trans (fires_isLeast epoch s.tick _).1.1
    · refine (h.tracks d).congr (fun curticks => hpc curticks _) (harm.other d hd) ?_ htick
      rw [harm.log, live_cons_of_ne hd (by simp [CalloutEvent.concerns])]
  · rw [hpc'] at hd
    exact absurd hd (hpc curticks d)

theorem Logged.stops (h : s.Logged epoch) (hpc : s.NotCalled) (hstop : s.Stops c t) :
    t.Logged epoch := by
  obtain ⟨htick, hpc', -⟩ : t.tick = s.tick ∧ t.pc = s.pc ∧ t.ccCurr = s.ccCurr := by
    simpa using hstop.rest
  refine ⟨by rw [hstop.log]; exact h.valid, fun d => ?_, fun curticks d hd => ?_⟩
  · by_cases hd : d = c
    · subst hd
      constructor
      · simp [hstop.self]
      · simp [hstop.log, live]
    · refine (h.tracks d).congr (fun curticks => hpc curticks _) (hstop.other d hd) ?_ htick
      rw [hstop.log, live_cons_of_ne hd (by simp [CalloutEvent.concerns])]
  · rw [hpc'] at hd
    exact absurd hd (hpc curticks d)

/-- The tick of a live arming is the present one when its time is that under work. -/
theorem fires_eq_tick {tick : ℕ} {time : BitVec 32}
    (hclock : s.ticks = epoch + BitVec.ofNat 32 s.tick) (htick : tick ≤ s.tick)
    (hle : s.tick ≤ fires epoch tick time) :
    fires epoch tick time = s.tick ↔ time + 1 = s.ticks := by
  obtain ⟨-, hfires⟩ := (fires_isLeast epoch tick time).1
  constructor
  · intro heq
    rw [← hfires, heq, hclock]
  · intro heq
    refine le_antisymm ?_ hle
    exact (fires_isLeast epoch tick time).2 ⟨htick, by rw [heq, hclock]⟩

section

variable (h : s.Logged epoch) (hsound : s.Sound epoch callwheelbits)
include h hsound

theorem Logged.calloutTick (hpc : s.pc = .idle) : (s.calloutTick callwheelbits).Logged epoch := by
  have hcases := hsound.calloutTick_cases hpc
  -- The clock moves on, and nothing else that counts.
  obtain ⟨hcallout, hlog, htick, hpc'⟩ : (s.calloutTick callwheelbits).callout = s.callout ∧
      (s.calloutTick callwheelbits).log = s.log ∧
      (s.calloutTick callwheelbits).tick = s.tick + 1 ∧
      (s.calloutTick callwheelbits).NotCalled := by
    rcases hcases with ⟨-, hsoft, -, hnext⟩ | ⟨-, hsoft, -⟩
    · rw [calloutTick_eq hsoft hnext]
      split
      · exact ⟨rfl, rfl, rfl, by simp [NotCalled, hpc]⟩
      · exact ⟨rfl, rfl, rfl, by simp [NotCalled]⟩
    · rw [calloutTick_of_intMax hsoft]
      exact ⟨rfl, rfl, rfl, by simp [NotCalled, hpc]⟩
  have hnone : s.tick < wrapTick epoch → s.NoneDue := by
    rcases hcases with ⟨-, -, hnone, -⟩ | ⟨-, -, hnone⟩
    · exact fun _ => hnone
    · exact hnone
  refine ⟨by rw [hlog]; exact h.valid, fun c => ⟨?_, ?_⟩, fun curticks c hc => absurd hc (hpc' _ _)⟩
  · rw [hcallout, hlog, htick]
    intro hc
    obtain ⟨tick, hlive, hle, hfires⟩ := (h.tracks c).pending hc
    refine ⟨tick, hlive, Nat.le_succ_of_le hle, ?_⟩
    by_cases hin : s.tick < wrapTick epoch
    · rw [min_eq_left hin.le] at hfires
      have hne : fires epoch tick (s.callout c).cTime ≠ s.tick := fun heq =>
        hnone hin c hc ((fires_eq_tick hsound.clock hle hfires).mp heq)
      omega
    · omega
  · rw [hcallout, hlog]
    intro hlive
    exact .inl (((h.tracks c).live hlive).resolve_right (by simp [hpc]))

theorem Logged.dequeue {curticks : BitVec 32} (hpc : s.pc = .scan curticks (some c))
    (hdue : (s.callout c).cTime = curticks) :
    (s.dequeue callwheelbits curticks c).Logged epoch := by
  obtain ⟨hin, hcur, -, -⟩ := hsound.sweeping curticks (by simp [working, hpc])
  have hmem : c ∈ s.bucket callwheelbits curticks :=
    hsound.position_mem (by simp [working, hpc]) (by simp [position, hpc])
  obtain ⟨hpending, -⟩ := (hsound.placed.mem_bucket curticks c).mp hmem
  obtain ⟨tick, hlive, hle, hfires⟩ := (h.tracks c).pending hpending
  rw [min_eq_left hin.le] at hfires
  have hnow := (fires_eq_tick hsound.clock hle hfires).mpr (by rw [hdue, hcur])
  have hself : (s.dequeue callwheelbits curticks c).callout c =
      { s.callout c with cPending := false } := by
    simp [CalloutCpu.dequeue, CalloutCpu.unlink]
  refine ⟨h.valid, fun d => ?_, ?_⟩
  · by_cases hd : d = c
    · subst hd
      exact ⟨by simp [hself], fun _ => .inr ⟨curticks, rfl⟩⟩
    · refine (h.tracks d).congr (by simp [hpc]) ?_ rfl rfl
      simp [CalloutCpu.dequeue, CalloutCpu.unlink, hd]
  · intro cur d hd
    obtain ⟨rfl, rfl⟩ : curticks = cur ∧ c = d := by simpa [CalloutCpu.dequeue] using hd
    rw [hself]
    exact ⟨rfl, rfl, tick, hlive, hnow, hin⟩

theorem Logged.softclock : (s.softclock callwheelbits).Logged epoch := by
  unfold CalloutCpu.softclock
  split
  · exact h
  · next hpc =>
    split <;> exact h.same (by simp [NotCalled, hpc]) (by simp [NotCalled]) rfl
  · next curticks hpc => exact h.same (by simp [NotCalled, hpc]) (by simp [NotCalled]) rfl
  · next curticks c hpc =>
    split
    · simp only
      split <;> exact h.same (by simp [NotCalled, hpc]) (by simp [NotCalled]) rfl
    · next hdue => exact h.dequeue hsound hpc (not_not.mp hdue)
  · next curticks hpc => exact h.same (by simp [NotCalled, hpc]) (by simp [NotCalled]) rfl
  · next curticks c hpc =>
    obtain ⟨hcancel, hpending, tick, hlive, hfires, hin⟩ := h.called curticks c hpc
    rw [if_neg (by simp [hcancel])]
    refine ⟨⟨h.valid, tick, _, hlive, hfires.symm, hin⟩, fun d => ?_, by simp⟩
    by_cases hd : d = c
    · subst hd
      exact ⟨by simp [hpending], by simp [live]⟩
    · refine (h.tracks d).congr (by simp [hpc, Ne.symm hd]) rfl ?_ rfl
      exact live_cons_of_ne hd (by simp [CalloutEvent.concerns]) s.log
  · next curticks c hpc => exact h.same (by simp [NotCalled, hpc]) (by simp [NotCalled]) rfl
  · next curticks c hpc =>
    split <;> exact h.same (by simp [NotCalled, hpc]) (by simp [NotCalled]) rfl
  · next curticks hpc => exact h.same (by simp [NotCalled, hpc]) (by simp [NotCalled]) rfl

end

def Returns (callwheelbits : ℕ) (s : CalloutCpu) : Prop :=
  ∃ k, ((CalloutCpu.softclock callwheelbits)^[k] s).pc = .idle

theorem returns_of_step (h : (s.softclock callwheelbits).Returns callwheelbits) :
    s.Returns callwheelbits := by
  obtain ⟨k, hk⟩ := h
  exact ⟨k + 1, by rwa [Function.iterate_succ_apply]⟩

section

variable (h : s.Sound epoch callwheelbits)
include h

/-- Off the wheel the walk gets back to where it was left. -/
theorem Sound.returns_of_scan {curticks : BitVec 32} (hwork : s.working = some curticks)
    (hpc : ∀ c, s.pc ≠ .scan curticks c)
    (hscan : ∀ t : CalloutCpu, t.Sound epoch callwheelbits → t.pc = .scan curticks s.ccNext →
      t.ccCallwheel = s.ccCallwheel → t.Returns callwheelbits) : s.Returns callwheelbits := by
  have hskip (t : CalloutCpu) (ht : t.Sound epoch callwheelbits) (c : CalloutId)
      (hpc : t.pc = .skip curticks c)
      (hsame : (t.ccNext, t.ccCallwheel) = (s.ccNext, s.ccCallwheel)) :
      t.Returns callwheelbits := by
    obtain ⟨hnext, hwheel⟩ := Prod.mk.injEq .. ▸ hsame
    refine returns_of_step (hscan _ ht.softclock ?_ ?_) <;>
      simp [CalloutCpu.softclock, hpc, ht.waiting, hnext, hwheel]
  have hrunning (t : CalloutCpu) (ht : t.Sound epoch callwheelbits) (c : CalloutId)
      (hpc : t.pc = .running curticks c)
      (hsame : (t.ccNext, t.ccCallwheel) = (s.ccNext, s.ccCallwheel)) :
      t.Returns callwheelbits := by
    refine returns_of_step (hskip _ ht.softclock c ?_ ?_) <;>
      simp [CalloutCpu.softclock, hpc, ← hsame]
  cases hs : s.pc with
  | idle => simp [working, hs] at hwork
  | head => simp [working, hs] at hwork
  | scan cur c =>
    obtain rfl : cur = curticks := by simpa [working, hs] using hwork
    exact absurd hs (hpc c)
  | yielded cur | broadcast cur =>
    obtain rfl : cur = curticks := by simpa [working, hs] using hwork
    refine returns_of_step (hscan _ h.softclock ?_ ?_) <;> simp [CalloutCpu.softclock, hs]
  | called cur c =>
    obtain rfl : cur = curticks := by simpa [working, hs] using hwork
    by_cases hcancel : ((s.callout c).cLock && s.ccCancel) = true
    · refine returns_of_step (hskip _ h.softclock c ?_ ?_) <;>
        simp [CalloutCpu.softclock, hs, hcancel]
    · refine returns_of_step (hrunning _ h.softclock c ?_ ?_) <;>
        simp [CalloutCpu.softclock, hs, hcancel]
  | running cur c =>
    obtain rfl : cur = curticks := by simpa [working, hs] using hwork
    exact hrunning s h c hs rfl
  | skip cur c =>
    obtain rfl : cur = curticks := by simpa [working, hs] using hwork
    exact hskip s h c hs rfl

/-- Each look at a callout of the bucket leaves one less in front. -/
theorem Sound.returns_scan {curticks : BitVec 32} {pre suf : List CalloutId}
    (hpc : s.pc = .scan curticks suf.head?)
    (hbucket : s.bucket callwheelbits curticks = pre ++ suf) : s.Returns callwheelbits := by
  induction suf generalizing s pre with
  | nil =>
    obtain ⟨-, -, hsoft, -⟩ := h.sweeping curticks (by simp [working, hpc])
    refine returns_of_step (returns_of_step ⟨0, ?_⟩)
    simp [CalloutCpu.softclock, hpc, hsoft]
  | cons c suf ih =>
    have hnodup : (pre ++ c :: suf).Nodup := by
      rw [← hbucket]
      exact h.placed.nodup _
    have hpre : c ∉ pre := fun hc => (List.nodup_append.mp hnodup).2.2 c hc c (by simp) rfl
    have hafter : after (s.bucket callwheelbits curticks) c = suf.head? := by
      rw [hbucket, after_append_cons hpre]
    rw [List.head?_cons] at hpc
    refine returns_of_step ?_
    by_cases hdue : (s.callout c).cTime = curticks
    · have hstep : s.softclock callwheelbits = s.dequeue callwheelbits curticks c := by
        simp [CalloutCpu.softclock, hpc, hdue]
      rw [hstep]
      refine (h.dequeue hpc hdue).returns_of_scan rfl (by simp [CalloutCpu.dequeue]) ?_
      intro t ht htpc hwheel
      have htbucket : t.bucket callwheelbits curticks = pre ++ suf := by
        rw [bucket, hwheel, ← bucket, bucket_dequeue hdue, hbucket, List.erase_append_right _ hpre,
          List.erase_cons_head]
      exact ih ht (htpc.trans (congrArg _ hafter)) htbucket
    · have hsplit : s.bucket callwheelbits curticks = (pre ++ [c]) ++ suf := by
        rw [hbucket, List.append_assoc, List.singleton_append]
      have hstep := h.softclock
      by_cases hsteps : maxSoftclockSteps ≤ s.steps + 1
      · rw [CalloutCpu.softclock, hpc] at hstep ⊢
        simp only [ne_eq, hdue, not_false_eq_true, if_true, hsteps] at hstep ⊢
        refine hstep.returns_of_scan rfl (by simp) fun t ht htpc hwheel => ?_
        exact ih ht (htpc.trans (congrArg _ hafter)) ((congrFun hwheel _).trans hsplit)
      · rw [CalloutCpu.softclock, hpc] at hstep ⊢
        simp only [ne_eq, hdue, not_false_eq_true, if_true, hsteps, if_false] at hstep ⊢
        exact ih hstep (congrArg _ hafter) hsplit

/-- A call of `callout_tick` returns when the handlers do. -/
theorem Sound.returns : s.Returns callwheelbits := by
  cases hwork : s.working with
  | none =>
    by_cases hidle : s.pc = .idle
    · exact ⟨0, hidle⟩
    · have hpc : s.pc = .head := by
        cases hs : s.pc <;> simp_all [working]
      refine returns_of_step ?_
      have hstep := h.softclock
      by_cases hsoft : s.ccSoftticks = s.ticks
      · exact ⟨0, by simp [CalloutCpu.softclock, hpc, hsoft]⟩
      · rw [CalloutCpu.softclock, hpc] at hstep ⊢
        simp only [hsoft, if_false] at hstep ⊢
        exact hstep.returns_scan rfl (List.nil_append _).symm
  | some curticks =>
    obtain ⟨-, -, -, pre, suf, hbucket, hhead, -⟩ := h.sweeping curticks hwork
    by_cases hscan : ∃ c, s.pc = .scan curticks c
    · obtain ⟨c, hpc⟩ := hscan
      refine h.returns_scan ?_ hbucket
      rw [hhead, hpc]
      simp [position, hpc]
    · have hpc := not_exists.mp hscan
      have hposition : s.position = s.ccNext := by
        cases hs : s.pc <;> simp_all [position, working]
      refine h.returns_of_scan hwork hpc fun t ht htpc hwheel => ?_
      exact ht.returns_scan (by rw [htpc, hhead, hposition]) ((congrFun hwheel _).trans hbucket)

end

end CalloutCpu

/-- A call from outside or from a handler, a clock tick, or the next step of `softclock`. -/
inductive CalloutOp where
  | reset (c : CalloutId) (toTicks : BitVec 32)
  | stop (c : CalloutId)
  | tick
  | soft

namespace CalloutCpu

def callable (s : CalloutCpu) : Bool :=
  match s.pc with
  | .idle | .running _ _ => true
  | _ => false

def step (callwheelbits : ℕ) (s : CalloutCpu) : CalloutOp → CalloutCpu
  | .reset c toTicks => if s.callable then (s.calloutResetOn callwheelbits c toTicks).2 else s
  | .stop c => if s.callable then (s.calloutStopSafe callwheelbits c false).2 else s
  | .tick => if s.pc = .idle then s.calloutTick callwheelbits else s
  | .soft => s.softclock callwheelbits

variable {epoch : BitVec 32} {callwheelbits : ℕ} {s : CalloutCpu}

theorem unlocked_of_callable (h : s.callable = true) : s.unlocked = true ∧ s.NotCalled := by
  cases hpc : s.pc <;> simp_all [callable, unlocked, NotCalled]

theorem step_sound_logged (h : s.Sound epoch callwheelbits ∧ s.Logged epoch) (op : CalloutOp) :
    (s.step callwheelbits op).Sound epoch callwheelbits ∧
      (s.step callwheelbits op).Logged epoch := by
  obtain ⟨hsound, hlogged⟩ := h
  cases op with
  | reset c toTicks =>
    rw [step]
    split
    · next hcall =>
      obtain ⟨hlock, hpc⟩ := unlocked_of_callable hcall
      exact ⟨hsound.calloutResetOn hlock c toTicks,
        hlogged.arms hpc (calloutResetOn_arms callwheelbits s hsound.waiting c toTicks)⟩
    · exact ⟨hsound, hlogged⟩
  | stop c =>
    rw [step]
    split
    · next hcall =>
      obtain ⟨hlock, hpc⟩ := unlocked_of_callable hcall
      exact ⟨hsound.calloutStopSafe hlock c false,
        hlogged.stops hpc (calloutStopSafe_stops callwheelbits s c false)⟩
    · exact ⟨hsound, hlogged⟩
  | tick =>
    rw [step]
    split
    · next hpc => exact ⟨hsound.calloutTick hpc, hlogged.calloutTick hsound hpc⟩
    · exact ⟨hsound, hlogged⟩
  | soft => exact ⟨hsound.softclock, hlogged.softclock hsound⟩

theorem logged_start (epoch : BitVec 32) (cLock : CalloutId → Bool) :
    (start epoch cLock).Logged epoch where
  valid := trivial
  tracks c := ⟨by simp [start], by simp [start, CalloutLog.live]⟩
  called curticks c hc := by simp [start] at hc

open CalloutLog

/-- An arming that is still live when the call of its tick has returned was due after the clock
wrapped. -/
theorem Logged.wrapTick_le_of_live (h : s.Logged epoch) (hsound : s.Sound epoch callwheelbits)
    {c : CalloutId} {n tick : ℕ} {time : BitVec 32}
    (hlive : CalloutLog.live c s.log = some (n, tick, time))
    (hpast : fires epoch tick time < s.tick ∨ fires epoch tick time = s.tick ∧ s.pc = .idle) :
    wrapTick epoch ≤ fires epoch tick time := by
  rcases (h.tracks c).live (by simp [hlive]) with hpending | ⟨curticks, hcalled⟩
  · obtain ⟨tick', hlive', hle, hfires⟩ := (h.tracks c).pending hpending
    obtain ⟨-, rfl, htime⟩ : n = (s.callout c).arming ∧ tick = tick' ∧
        time = (s.callout c).cTime := by
      simpa [hlive] using hlive'
    rw [← htime] at hfires
    rcases hpast with hlt | ⟨heq, hidle⟩
    · omega
    · cases hsound.between (by simp [working, hidle]) with
      | done hin _ hnone =>
        have hdue := (fires_eq_tick hsound.clock hle heq.ge).mp heq
        rw [htime] at hdue
        exact absurd hdue (hnone c hpending)
      | behind _ hhead => simp [hidle] at hhead
      | stuck hout => omega
  · obtain ⟨-, -, tick', hlive', hnow, -⟩ := h.called curticks c hcalled
    obtain ⟨-, rfl, htime⟩ : n = (s.callout c).arming ∧ tick = tick' ∧
        time = (s.callout c).cTime := by
      simpa [hlive] using hlive'
    rw [← htime] at hnow
    rcases hpast with hlt | ⟨-, hidle⟩
    · omega
    · simp [hidle] at hcalled

/-- From an empty wheel, whatever is armed and stopped, between the ticks or in handlers: the work
of every tick comes to its end, and an arming is executed at most once, in the call at the first
tick `m` with `ticks = c_time + 1`, and never if a stop or another arming of its callout came
before.  If none came it is executed in that call if and only if the clock has not passed the
largest `int` by then. -/
theorem callout_fires_once_iff (callwheelbits : ℕ) (epoch : BitVec 32) (cLock : CalloutId → Bool)
    (ops : List CalloutOp) :
    let s := run (step callwheelbits) (start epoch cLock) ops
    (∃ k, ((softclock callwheelbits)^[k] s).pc = .idle) ∧
    ∀ c n tick time post pre, s.log = post ++ .armed c n tick time :: pre →
      ∃ m, IsLeast {k | tick ≤ k ∧ epoch + BitVec.ofNat 32 k = time + 1} m ∧
        (∀ k, .executed c n k ∈ s.log → k = m) ∧
        executions c n s.log ≤ 1 ∧
        (Cancelled c n post → executions c n s.log = 0) ∧
        (¬ Cancelled c n post → (m < s.tick ∨ m = s.tick ∧ s.pc = .idle) →
          (executions c n s.log = 1 ↔ epoch.toInt + m < 2 ^ 31)) := by
  intro s
  obtain ⟨hsound, hlogged⟩ : s.Sound epoch callwheelbits ∧ s.Logged epoch :=
    run_preserves (I := fun s => Sound epoch callwheelbits s ∧ Logged epoch s)
      (fun _ op h => step_sound_logged h op) ⟨sound_start epoch cLock, logged_start epoch cLock⟩
      ops
  refine ⟨hsound.returns, fun c n tick time post pre hlog => ?_⟩
  refine ⟨fires epoch tick time, fires_isLeast epoch tick time, ?_⟩
  have hvalid := hlogged.valid
  rw [hlog] at hvalid
  obtain ⟨hpre, rfl⟩ := hvalid.of_append
  have hearlier : ∀ e ∈ CalloutEvent.armed c pre.length tick time :: pre,
      e.executes c pre.length = false :=
    List.forall_mem_cons.mpr ⟨rfl, hpre.not_executes le_rfl⟩
  have hcount : executions c pre.length s.log = executions c pre.length post := by
    have hzero := executions_eq_zero hearlier
    rw [executions] at hzero
    rw [hlog, executions, List.countP_append, hzero]
    rfl
  obtain ⟨hexec, hcases⟩ := hvalid.fate.cases
  refine ⟨fun k hk => ?_, ?_⟩
  · rw [hlog] at hk
    rcases List.mem_append.mp hk with hk | hk
    · exact hexec k hk
    · exact absurd (hearlier _ hk) (by simp [CalloutEvent.executes])
  · have hwrap : epoch.toInt + fires epoch tick time < 2 ^ 31 ↔
        fires epoch tick time < wrapTick epoch := by
      unfold wrapTick
      omega
    rw [hcount, hwrap]
    rcases hcases with ⟨hzero, hlive, hnot⟩ | ⟨hzero, hcancelled⟩ | ⟨hone, hnot, hin⟩
    · refine ⟨by omega, fun hc => absurd hc hnot, fun _ hpast => ?_⟩
      rw [← hlog] at hlive
      have hout := hlogged.wrapTick_le_of_live hsound hlive hpast
      omega
    · exact ⟨by omega, fun _ => hzero, fun hnot => absurd hcancelled hnot⟩
    · exact ⟨by omega, fun hc => absurd hc hnot, fun _ _ => iff_of_true hone hin⟩

/-- On a wheel of one bucket a handler arms its callout again. -/
def rearming : List CalloutOp :=
  [.reset 0 1, .tick, .soft, .soft, .soft, .soft, .tick, .soft, .soft, .soft, .reset 0 1,
    .soft, .soft, .soft, .soft]

theorem callout_fires_once_rearming :
    let s := run (step 0) (start (-1) fun _ => false) rearming
    s.log = [.armed 0 2 2 2, .executed 0 0 2, .armed 0 0 0 0] ∧ executions 0 0 s.log = 1 := by
  intro s
  have hlog : s.log = [.armed 0 2 2 2, .executed 0 0 2, .armed 0 0 0 0] := by decide
  obtain ⟨-, hfires⟩ := callout_fires_once_iff 0 (-1) (fun _ => false) rearming
  obtain ⟨m, -, hwhen, -, -, honce⟩ :=
    hfires 0 0 0 0 [.armed 0 2 2 2, .executed 0 0 2] [] hlog
  obtain rfl : 2 = m := hwhen 2 (by decide)
  refine ⟨hlog, (honce ?_ (.inr ⟨by decide, by decide⟩)).mpr (by decide)⟩
  simp [Cancelled, CalloutEvent.cancels, CalloutEvent.executes]

/-- A callout armed one tick ahead when `ticks` is the largest `int`: the call of its tick returns
without looking at the wheel, and it stays pending. -/
theorem callout_lost_at_wrap :
    let s := run (step 0) (start (BitVec.intMax 32) fun _ => false) [.reset 0 1, .tick, .tick]
    s.ticks = (s.callout 0).cTime + 1 ∧ s.pc = .idle ∧ s.log = [.armed 0 0 0 (BitVec.intMin 32)] ∧
      (s.callout 0).cPending = true ∧ ¬ Cancelled 0 0 [] ∧ executions 0 0 s.log = 0 := by
  refine ⟨by decide, by decide, by decide, by decide, ?_, by decide⟩
  simp [Cancelled]

end CalloutCpu

end Libuinet
