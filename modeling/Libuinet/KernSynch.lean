import Mathlib.Tactic.Common
import Libuinet.Execution
import Libuinet.ChainTable
import Libuinet.RefCount

namespace Libuinet

open Execution RefCount

/-- `struct sleep_entry`; the condition variable is the address of the entry. -/
structure SleepEntry (χ : Type*) where
  chan : χ
  waiters : ℤ
  deriving DecidableEq

/-- `se_active`, and the entries in memory by their addresses. -/
structure SleepTable (χ κ α : Type*) where
  seActive : ChainTable κ α
  entry : α → Option (SleepEntry χ)

namespace SleepTable

variable {ι χ κ α : Type*} [DecidableEq κ] [DecidableEq α] (seHash : χ → κ)

def synchSetup : SleepTable χ κ α where
  seActive := ChainTable.empty
  entry := fun _ => none

def seLookup [DecidableEq χ] (tbl : SleepTable χ κ α) (c : χ) : Option α :=
  (tbl.seActive (seHash c)).find? fun e => (tbl.entry e).any fun se => se.chan = c

def seAlloc (tbl : SleepTable χ κ α) (c : χ) (e : α) : SleepTable χ κ α where
  seActive := tbl.seActive.insertHead (seHash c) e
  entry := Function.update tbl.entry e (some ⟨c, 1⟩)

def addWaiter (tbl : SleepTable χ κ α) (e : α) : SleepTable χ κ α where
  seActive := tbl.seActive
  entry := Function.update tbl.entry e
    ((tbl.entry e).map fun se => { se with waiters := se.waiters + 1 })

def seFree (tbl : SleepTable χ κ α) (e : α) : SleepTable χ κ α :=
  match tbl.entry e with
  | none => tbl
  | some se =>
    if se.waiters - 1 = 0 then
      { seActive := tbl.seActive.remove e
        entry := Function.update tbl.entry e none }
    else
      { seActive := tbl.seActive
        entry := Function.update tbl.entry e (some { se with waiters := se.waiters - 1 }) }

def chanOf (reg : ι → Option (χ × α)) (t : ι) : Option χ := (reg t).map Prod.fst

/-- The entries are those of the channels that threads are registered on, one for each, and count
the threads. -/
structure Counts (tbl : SleepTable χ κ α) (reg : ι → Option (χ × α)) : Prop where
  finitary : Finitary (chanOf reg)
  filed : ChainTable.Filed tbl.seActive fun e => (tbl.entry e).map fun se => seHash se.chan
  unique : ∀ e e' se se', tbl.entry e = some se → tbl.entry e' = some se' → se.chan = se'.chan →
    e = e'
  waiters : ∀ e se, tbl.entry e = some se → se.waiters = users (chanOf reg) se.chan
  pos : ∀ e se, tbl.entry e = some se → 0 < se.waiters
  live : ∀ t c e, reg t = some (c, e) → ∃ se, tbl.entry e = some se ∧ se.chan = c

variable {seHash} {tbl : SleepTable χ κ α} {reg : ι → Option (χ × α)}

theorem counts_synchSetup :
    (synchSetup : SleepTable χ κ α).Counts seHash (fun _ : ι => none) where
  finitary c := by simp [usersOf, chanOf]
  filed := ChainTable.filed_empty
  unique _ _ _ _ h := by simp [synchSetup] at h
  waiters _ _ h := by simp [synchSetup] at h
  pos _ _ h := by simp [synchSetup] at h
  live _ _ _ h := by simp at h

variable {se : SleepEntry χ} {e : α}

omit [DecidableEq κ] [DecidableEq α] in
theorem chan_of_seLookup [DecidableEq χ] {c : χ} (hfind : tbl.seLookup seHash c = some e) :
    ∃ se, tbl.entry e = some se ∧ se.chan = c := by
  have htest := List.find?_some hfind
  cases he : tbl.entry e with
  | none => simp [he] at htest
  | some se => exact ⟨se, rfl, by simpa [he] using htest⟩

/-- The lookup finds the entry of the channel. -/
theorem Counts.seLookup_chan [DecidableEq χ] (h : tbl.Counts seHash reg)
    (he : tbl.entry e = some se) : tbl.seLookup seHash se.chan = some e := by
  have hmem : e ∈ tbl.seActive (seHash se.chan) := (h.filed.mem_iff _ _).2 (by simp [he])
  cases hfind : tbl.seLookup seHash se.chan with
  | none => simpa [he] using List.find?_eq_none.1 hfind e hmem
  | some e' =>
    obtain ⟨se', he', hchan⟩ := chan_of_seLookup hfind
    rw [h.unique e' e se' se he' he hchan]

omit [DecidableEq α] in
theorem chanOf_update [DecidableEq ι] (reg : ι → Option (χ × α)) (t : ι) (x : Option (χ × α)) :
    chanOf (Function.update reg t x) = Function.update (chanOf reg) t (x.map Prod.fst) := by
  funext u
  by_cases hu : u = t
  · subst hu
    simp [chanOf]
  · simp [chanOf, hu]

omit [DecidableEq κ] in
theorem update_eq_some {β : Type*} {f : α → Option β} {e' : α} {x : Option β} {b : β}
    (h : Function.update f e x e' = some b) : (e' = e ∧ x = some b) ∨ (e' ≠ e ∧ f e' = some b) := by
  by_cases he : e' = e
  · subst he
    exact .inl ⟨rfl, by simpa using h⟩
  · exact .inr ⟨he, by simpa [he] using h⟩

section

variable (h : tbl.Counts seHash reg) (he : tbl.entry e = some se) {reg' : ι → Option (χ × α)}
include h he

/-- The count of an entry changes with the threads on its channel. -/
theorem Counts.recount {w : ℤ} (hfin : Finitary (chanOf reg'))
    (hw : w = users (chanOf reg') se.chan) (hpos : 0 < w)
    (hothers : ∀ c ≠ se.chan, users (chanOf reg') c = users (chanOf reg) c)
    (hlive : ∀ u c e', reg' u = some (c, e') → reg u = some (c, e') ∨ (c = se.chan ∧ e' = e)) :
    Counts seHash ⟨tbl.seActive, Function.update tbl.entry e (some ⟨se.chan, w⟩)⟩ reg' := by
  have hchan (e' : α) (se' : SleepEntry χ)
      (he' : Function.update tbl.entry e (some ⟨se.chan, w⟩) e' = some se') :
      ∃ se'', tbl.entry e' = some se'' ∧ se'.chan = se''.chan := by
    rcases update_eq_some he' with ⟨rfl, ⟨⟩⟩ | ⟨-, he'⟩
    · exact ⟨se, he, rfl⟩
    · exact ⟨se', he', rfl⟩
  refine ⟨hfin, ?_, ?_, ?_, ?_, ?_⟩
  · apply h.filed.congr
    intro e'
    by_cases hee : e' = e
    · subst hee
      simp [he]
    · simp [hee]
  · intro e₁ e₂ se₁ se₂ h₁ h₂ heq
    obtain ⟨se₁', h₁', hc₁⟩ := hchan e₁ se₁ h₁
    obtain ⟨se₂', h₂', hc₂⟩ := hchan e₂ se₂ h₂
    exact h.unique e₁ e₂ se₁' se₂' h₁' h₂' (hc₁.symm.trans (heq.trans hc₂))
  · intro e' se' he'
    rcases update_eq_some he' with ⟨rfl, ⟨⟩⟩ | ⟨hee, he'⟩
    · exact hw
    · rw [hothers _ fun heq => hee (h.unique e' e se' se he' he heq)]
      exact h.waiters e' se' he'
  · intro e' se' he'
    rcases update_eq_some he' with ⟨rfl, ⟨⟩⟩ | ⟨-, he'⟩
    · exact hpos
    · exact h.pos e' se' he'
  · intro u c e' hu
    by_cases hee : e' = e
    · subst hee
      refine ⟨⟨se.chan, w⟩, by simp, ?_⟩
      rcases hlive u c e' hu with hu | ⟨rfl, -⟩
      · obtain ⟨se', he', rfl⟩ := h.live u c e' hu
        rw [he] at he'
        cases he'
        rfl
      · rfl
    · obtain ⟨se', he', hc⟩ := h.live u c e' ((hlive u c e' hu).resolve_right (hee ·.2))
      exact ⟨se', by simpa [hee] using he', hc⟩

/-- The entry of a channel that no thread is on any more is taken out. -/
theorem Counts.discard (hfin : Finitary (chanOf reg')) (hzero : users (chanOf reg') se.chan = 0)
    (hothers : ∀ c ≠ se.chan, users (chanOf reg') c = users (chanOf reg) c)
    (hreg : ∀ u x, reg' u = some x → reg u = some x) :
    Counts seHash ⟨tbl.seActive.remove e, Function.update tbl.entry e none⟩ reg' := by
  have hkept {e' : α} {se' : SleepEntry χ}
      (he' : Function.update tbl.entry e none e' = some se') :
      e' ≠ e ∧ tbl.entry e' = some se' :=
    (update_eq_some he').resolve_left (by simp)
  refine ⟨hfin, ?_, ?_, ?_, ?_, ?_⟩
  · apply (h.filed.remove e).congr
    intro e'
    by_cases hee : e' = e
    · subst hee
      simp
    · simp [hee]
  · intro e₁ e₂ se₁ se₂ h₁ h₂ heq
    exact h.unique e₁ e₂ se₁ se₂ (hkept h₁).2 (hkept h₂).2 heq
  · intro e' se' he'
    obtain ⟨hee, he'⟩ := hkept he'
    rw [hothers _ fun heq => hee (h.unique e' e se' se he' he heq)]
    exact h.waiters e' se' he'
  · intro e' se' he'
    exact h.pos e' se' (hkept he').2
  · intro u c e' hu
    obtain ⟨se', he', rfl⟩ := h.live u c e' (hreg u _ hu)
    -- nobody is left on the channel, so the thread has another entry
    have hee : e' ≠ e := by
      rintro rfl
      obtain rfl : se = se' := by simpa [he] using he'
      exact (users_eq_zero_iff hfin _).1 hzero u (by simp [chanOf, hu])
    exact ⟨se', by simpa [hee] using he', rfl⟩

end

variable [DecidableEq ι]

section

variable (h : tbl.Counts seHash reg)
include h

/-- A thread registers on an entry that is there. -/
theorem Counts.addWaiter {t : ι} (ht : reg t = none) (he : tbl.entry e = some se) :
    (tbl.addWaiter e).Counts seHash (Function.update reg t (some (se.chan, e))) := by
  have hchan : chanOf reg t = none := by simp [chanOf, ht]
  have hcount := users_update_some h.finitary se.chan hchan
  have hwaiters := h.waiters e se he
  have hpos := h.pos e se he
  have htbl : tbl.addWaiter e =
      ⟨tbl.seActive, Function.update tbl.entry e (some ⟨se.chan, se.waiters + 1⟩)⟩ := by
    simp [SleepTable.addWaiter, he]
  rw [htbl]
  apply h.recount he
  · rw [chanOf_update]
    exact h.finitary.update _ _
  · rw [chanOf_update]
    simp only [Option.map_some]
    omega
  · omega
  · intro c hc
    rw [chanOf_update]
    exact users_update_of_ne (by simp [hchan]) (by simpa using hc.symm)
  · intro u c e' hu
    by_cases hut : u = t
    · subst hut
      right
      simpa [eq_comm] using hu
    · left
      simpa [hut] using hu

/-- The first thread on a channel makes the entry. -/
theorem Counts.seAlloc [DecidableEq χ] {t : ι} {c : χ} (ht : reg t = none) (he : tbl.entry e = none)
    (hfind : tbl.seLookup seHash c = none) :
    (tbl.seAlloc seHash c e).Counts seHash (Function.update reg t (some (c, e))) := by
  have hchan : chanOf reg t = none := by simp [chanOf, ht]
  have hother (e' : α) (se : SleepEntry χ) (he' : tbl.entry e' = some se) : se.chan ≠ c := by
    rintro rfl
    simp [h.seLookup_chan he'] at hfind
  have hzero : users (chanOf reg) c = 0 := by
    rw [users_eq_zero_iff h.finitary]
    intro u hu
    obtain ⟨⟨c', e'⟩, hreg, rfl⟩ := Option.map_eq_some_iff.1 hu
    obtain ⟨se, he', hc⟩ := h.live u c' e' hreg
    exact hother e' se he' hc
  refine ⟨?_, ?_, ?_, ?_, ?_, ?_⟩
  · rw [chanOf_update]
    exact h.finitary.update _ _
  · apply (h.filed.insertHead (by simp [he]) (seHash c)).congr
    intro e'
    by_cases hee : e' = e
    · subst hee
      simp [SleepTable.seAlloc]
    · simp [SleepTable.seAlloc, hee]
  · intro e₁ e₂ se₁ se₂ h₁ h₂ heq
    rcases update_eq_some h₁ with ⟨rfl, ⟨⟩⟩ | ⟨-, h₁⟩ <;>
      rcases update_eq_some h₂ with ⟨rfl, ⟨⟩⟩ | ⟨-, h₂⟩
    · rfl
    · exact absurd heq.symm (hother e₂ se₂ ‹_›)
    · exact absurd heq (hother e₁ se₁ ‹_›)
    · exact h.unique e₁ e₂ se₁ se₂ h₁ h₂ heq
  · intro e' se he'
    rw [chanOf_update]
    rcases update_eq_some he' with ⟨rfl, ⟨⟩⟩ | ⟨-, he'⟩
    · have hcount := users_update_some h.finitary c hchan
      simp [hcount, hzero]
    · rw [users_update_of_ne (by simp [hchan]) (by simpa using (hother e' se he').symm)]
      exact h.waiters e' se he'
  · intro e' se he'
    rcases update_eq_some he' with ⟨rfl, ⟨⟩⟩ | ⟨-, he'⟩
    · exact Int.one_pos
    · exact h.pos e' se he'
  · intro u c' e' hu
    by_cases hut : u = t
    · subst hut
      obtain ⟨rfl, rfl⟩ : c = c' ∧ e = e' := by simpa using hu
      exact ⟨⟨c, 1⟩, by simp [SleepTable.seAlloc], rfl⟩
    · obtain ⟨se, he', hc⟩ := h.live u c' e' (by simpa [hut] using hu)
      have hee : e' ≠ e := by
        rintro rfl
        simp [he] at he'
      exact ⟨se, by simpa [SleepTable.seAlloc, hee] using he', hc⟩

/-- A thread leaves its entry; the last one takes it out of the table. -/
theorem Counts.seFree {t : ι} {c : χ} (ht : reg t = some (c, e)) :
    (tbl.seFree e).Counts seHash (Function.update reg t none) := by
  obtain ⟨se, he, rfl⟩ := h.live t c e ht
  have hchan : chanOf reg t = some se.chan := by simp [chanOf, ht]
  have hcount := users_update_none h.finitary hchan
  have hwaiters := h.waiters e se he
  have hpos := h.pos e se he
  have hupdate : chanOf (Function.update reg t none) = Function.update (chanOf reg) t none :=
    chanOf_update reg t none
  have hfin : Finitary (chanOf (Function.update reg t none)) := by
    rw [hupdate]
    exact h.finitary.update _ _
  have hothers (c : χ) (hc : c ≠ se.chan) :
      users (chanOf (Function.update reg t none)) c = users (chanOf reg) c := by
    rw [hupdate]
    exact users_update_of_ne (by simpa [hchan] using hc.symm) (by simp)
  have hreg (u : ι) (x : χ × α) (hu : Function.update reg t none u = some x) : reg u = some x := by
    by_cases hut : u = t
    · simp [hut] at hu
    · simpa [hut] using hu
  simp only [SleepTable.seFree, he]
  split
  · next hlast =>
    apply h.discard he hfin _ hothers hreg
    rw [hupdate]
    omega
  · next hmore =>
    apply h.recount he hfin _ (by omega) hothers fun u c e' hu => .inl (hreg u _ hu)
    rw [hupdate]
    omega

/-- An entry goes when no thread is left on its channel. -/
theorem Counts.seFree_none {t : ι} {c : χ} {e' : α} (ht : reg t = some (c, e))
    (he : tbl.entry e' = some se) (hnone : (tbl.seFree e).entry e' = none) :
    users (chanOf (Function.update reg t none)) se.chan = 0 := by
  obtain ⟨se', he', rfl⟩ := h.live t c e ht
  have hchan : chanOf reg t = some se'.chan := by simp [chanOf, ht]
  have hcount := users_update_none h.finitary hchan
  have hwaiters := h.waiters e se' he'
  simp only [SleepTable.seFree, he'] at hnone
  split at hnone
  · next hlast =>
    by_cases hee : e' = e
    · subst hee
      obtain rfl : se' = se := by simpa [he'] using he
      rw [chanOf_update, Option.map_none]
      omega
    · simp [hee, he] at hnone
  · next hmore =>
    by_cases hee : e' = e
    · simp [hee] at hnone
    · simp [hee, he] at hnone

end

end SleepTable

/-- Where a thread is.  The calls carry the channel, the timeout and the entry. -/
inductive SleepPc (χ α : Type*) where
  /-- in its own code; it may have found that it has to wait for something -/
  | running (tested : Option χ)
  /-- `_sleep` is called -/
  | entered (c : χ) (timo : ℕ)
  /-- it holds `synch_lock`, also in the next two -/
  | locked (c : χ) (timo : ℕ)
  | lookedUp (c : χ) (timo : ℕ) (se : Option α)
  | registered (c : χ) (timo : ℕ) (se : α)
  /-- `cv_wait` or `cv_timedwait` is called -/
  | waits (c : χ) (timo : ℕ) (se : α)
  | blocked (c : χ) (timo : ℕ) (se : α)
  /-- it has been woken and takes the lock of the call again -/
  | woken (c : χ) (se : α)
  | returned (c : χ) (se : α)
  /-- it holds `synch_lock`, also in the next one -/
  | freeing (c : χ) (se : α)
  | freed
  /-- `_sleep` without a lock -/
  | nanosleep
  /-- `wakeup` is called -/
  | wakeup (c : χ)
  /-- it holds `synch_lock`, also in the next two -/
  | wakeupLocked (c : χ)
  | wakeupFound (c : χ) (se : Option α)
  | broadcasted
  deriving DecidableEq

def ewouldblock : ℕ := 35

/-- The threads `ι`, the locks `Λ` with their owners, the conditions that are slept on and the
table. -/
structure Synch (ι χ Λ κ α : Type*) where
  pc : ι → SleepPc χ α
  rv : ι → ℕ
  cond : χ → Bool
  owner : Λ → Option ι
  synchLock : Option ι
  tbl : SleepTable χ κ α

inductive SynchEvent (ι χ Λ α : Type*) where
  | lock (t : ι) (l : Λ)
  | unlock (t : ι) (l : Λ)
  /-- the condition of a channel is tested, or changed, by a thread that holds its lock -/
  | test (t : ι) (c : χ)
  | change (t : ι) (c : χ) (b : Bool)
  /-- `_sleep` is called with the lock of the channel, or without a lock -/
  | sleep (t : ι) (c : χ) (lock : Bool) (timo : ℕ)
  | wakeup (t : ι) (c : χ)
  /-- the next step of the call a thread is in, with the address `malloc` has for it -/
  | step (t : ι) (e : α)
  /-- a wait ends with its timeout, or with no reason -/
  | rouse (t : ι) (timedOut : Bool)

def SleepPc.cvBroadcast {χ α : Type*} [DecidableEq α] (e : α) : SleepPc χ α → SleepPc χ α
  | .blocked c timo se => if se = e then .woken c se else .blocked c timo se
  | pc => pc

namespace Synch

variable {ι χ Λ κ α : Type*}

/-- The system is set up: no thread is in a call and no lock is held. -/
def init : Synch ι χ Λ κ α where
  pc := fun _ => .running none
  rv := fun _ => 0
  cond := fun _ => false
  owner := fun _ => none
  synchLock := none
  tbl := .synchSetup

section

variable [DecidableEq ι]

def goto (s : Synch ι χ Λ κ α) (t : ι) (pc : SleepPc χ α) : Synch ι χ Λ κ α :=
  { s with pc := Function.update s.pc t pc }

def lockSynch (s : Synch ι χ Λ κ α) (t : ι) (pc : SleepPc χ α) : Synch ι χ Λ κ α :=
  if s.synchLock = none then { s.goto t pc with synchLock := some t } else s

def unlockSynch (s : Synch ι χ Λ κ α) (t : ι) (pc : SleepPc χ α) : Synch ι χ Λ κ α :=
  { s.goto t pc with synchLock := none }

variable {s : Synch ι χ Λ κ α}

section

variable (t : ι) (pc : SleepPc χ α)

@[simp] theorem goto_pc_self : (s.goto t pc).pc t = pc := by
  simp [goto]

@[simp] theorem goto_synchLock : (s.goto t pc).synchLock = s.synchLock := rfl

@[simp] theorem goto_owner : (s.goto t pc).owner = s.owner := rfl

@[simp] theorem goto_tbl : (s.goto t pc).tbl = s.tbl := rfl

end

theorem lockSynch_pc_of_ne {t u : ι} (hu : u ≠ t) (pc : SleepPc χ α) :
    (s.lockSynch t pc).pc u = s.pc u := by
  unfold lockSynch
  split <;> simp [goto, hu]

theorem lockSynch_tbl (t : ι) (pc : SleepPc χ α) : (s.lockSynch t pc).tbl = s.tbl := by
  unfold lockSynch
  split <;> rfl

end

variable [DecidableEq ι] [DecidableEq χ] [DecidableEq Λ] [DecidableEq κ] [DecidableEq α]
  (lockOf : χ → Λ) (seHash : χ → κ)

def callStep (s : Synch ι χ Λ κ α) (t : ι) (e : α) : Synch ι χ Λ κ α :=
  match s.pc t with
  | .running _ => s
  | .entered c timo => s.lockSynch t (.locked c timo)
  | .locked c timo => s.goto t (.lookedUp c timo (s.tbl.seLookup seHash c))
  | .lookedUp c timo (some se) =>
    { s.goto t (.registered c timo se) with tbl := s.tbl.addWaiter se }
  | .lookedUp c timo none =>
    if s.tbl.entry e = none then
      { s.goto t (.registered c timo e) with tbl := s.tbl.seAlloc seHash c e }
    else s
  | .registered c timo se => s.unlockSynch t (.waits c timo se)
  | .waits c timo se =>
    -- the lock is given back and the thread waits in one step
    { s.goto t (.blocked c timo se) with owner := Function.update s.owner (lockOf c) none }
  | .blocked _ _ _ => s
  | .woken c se =>
    if s.owner (lockOf c) = none then
      { s.goto t (.returned c se) with owner := Function.update s.owner (lockOf c) (some t) }
    else s
  | .returned c se => s.lockSynch t (.freeing c se)
  | .freeing _ se => { s.goto t .freed with tbl := s.tbl.seFree se }
  | .freed => s.unlockSynch t (.running none)
  | .nanosleep => { s.goto t (.running none) with rv := Function.update s.rv t ewouldblock }
  | .wakeup c => s.lockSynch t (.wakeupLocked c)
  | .wakeupLocked c => s.goto t (.wakeupFound c (s.tbl.seLookup seHash c))
  | .wakeupFound _ none => s.goto t .broadcasted
  | .wakeupFound _ (some se) =>
    { s with pc := Function.update (fun u => (s.pc u).cvBroadcast se) t .broadcasted }
  | .broadcasted => s.unlockSynch t (.running none)

def ownStep (s : Synch ι χ Λ κ α) : SynchEvent ι χ Λ α → Synch ι χ Λ κ α
  | .lock t l =>
    if s.owner l = none then { s with owner := Function.update s.owner l (some t) } else s
  | .unlock t l =>
    if s.owner l = some t then
      { s.goto t (.running none) with owner := Function.update s.owner l none }
    else s
  | .test t c =>
    if s.owner (lockOf c) = some t then s.goto t (.running (if s.cond c then none else some c))
    else s
  | .change t c b =>
    if s.owner (lockOf c) = some t then
      { s.goto t (.running none) with cond := Function.update s.cond c b }
    else s
  | .sleep t c lock timo =>
    let s' := { s with rv := Function.update s.rv t 0 }
    if lock then if s.owner (lockOf c) = some t then s'.goto t (.entered c timo) else s
    else s'.goto t (if timo = 0 then .running none else .nanosleep)
  | .wakeup t c => s.goto t (.wakeup c)
  | _ => s

end Synch

def SynchEvent.thread {ι χ Λ α : Type*} : SynchEvent ι χ Λ α → ι
  | .lock t _ | .unlock t _ | .test t _ | .change t _ _ | .sleep t _ _ _ | .wakeup t _
  | .step t _ | .rouse t _ => t

def SleepPc.Running {χ α : Type*} : SleepPc χ α → Bool
  | .running _ => true
  | _ => false

namespace Synch

variable {ι χ Λ κ α : Type*} [DecidableEq ι] [DecidableEq χ] [DecidableEq Λ] [DecidableEq κ]
  [DecidableEq α] (lockOf : χ → Λ) (seHash : χ → κ)

def step (s : Synch ι χ Λ κ α) : SynchEvent ι χ Λ α → Synch ι χ Λ κ α
  | .step t e => s.callStep lockOf seHash t e
  | .rouse t timedOut =>
    match s.pc t with
    | .blocked c timo se =>
      if timedOut then
        if timo = 0 then s
        else { s.goto t (.woken c se) with rv := Function.update s.rv t ewouldblock }
      else s.goto t (.woken c se)
    | _ => s
  | ev => if (s.pc ev.thread).Running then s.ownStep lockOf ev else s

end Synch

/-- What the place of a thread says about the locks and the table. -/
structure SleepView (χ α : Type*) where
  /-- it holds `synch_lock` -/
  synched : Bool
  /-- what `se_lookup` returned for the channel -/
  looked : Option (χ × Option α)
  /-- the channel it is going to sleep on, having held the lock since it tested -/
  toSleep : Option χ
  /-- the channel and the entry it is registered on -/
  reg : Option (χ × α)

def SleepPc.view {χ α : Type*} : SleepPc χ α → SleepView χ α
  | .running tested => ⟨false, none, tested, none⟩
  | .entered c _ => ⟨false, none, some c, none⟩
  | .locked c _ => ⟨true, none, some c, none⟩
  | .lookedUp c _ se => ⟨true, some (c, se), some c, none⟩
  | .registered c _ se => ⟨true, none, some c, some (c, se)⟩
  | .waits c _ se => ⟨false, none, some c, some (c, se)⟩
  | .blocked c _ se | .woken c se | .returned c se => ⟨false, none, none, some (c, se)⟩
  | .freeing c se => ⟨true, none, none, some (c, se)⟩
  | .freed | .wakeupLocked _ | .broadcasted => ⟨true, none, none, none⟩
  | .nanosleep | .wakeup _ => ⟨false, none, none, none⟩
  | .wakeupFound c se => ⟨true, some (c, se), none, none⟩

/-- The thread has found that it has to wait for the channel and has not been woken since. -/
def SleepPc.Awaits {χ α : Type*} (c : χ) : SleepPc χ α → Prop
  | .running tested => tested = some c
  | .entered c' _ | .locked c' _ | .lookedUp c' _ _ | .registered c' _ _ | .waits c' _ _
  | .blocked c' _ _ => c' = c
  | _ => False

theorem SleepPc.synched_of_looked {χ α : Type*} {pc : SleepPc χ α} {x : χ × Option α}
    (h : pc.view.looked = some x) : pc.view.synched = true := by
  cases pc <;> simp_all [view]

theorem SleepPc.Awaits.cases {χ α : Type*} {pc : SleepPc χ α} {c : χ} (h : pc.Awaits c) :
    pc.view.toSleep = some c ∨ ∃ timo se, pc = .blocked c timo se := by
  cases pc <;> simp_all [Awaits, view]

theorem SleepPc.view_cvBroadcast {χ α : Type*} [DecidableEq α] (e : α) (pc : SleepPc χ α) :
    (pc.cvBroadcast e).view = pc.view := by
  cases pc with
  | blocked c timo se =>
    simp only [cvBroadcast]
    split <;> rfl
  | _ => rfl

namespace Synch

variable {ι χ Λ κ α : Type*} [DecidableEq ι] [DecidableEq χ] [DecidableEq κ] [DecidableEq α]
  (lockOf : χ → Λ) (seHash : χ → κ)

def reg (s : Synch ι χ Λ κ α) (t : ι) : Option (χ × α) := (s.pc t).view.reg

/-- The number of threads between registration and `se_free` on a channel. -/
noncomputable def registered (s : Synch ι χ Λ κ α) (c : χ) : ℕ := users (SleepTable.chanOf s.reg) c

/-- What the locks and the table are for. -/
structure Sound (s : Synch ι χ Λ κ α) : Prop where
  counts : s.tbl.Counts seHash s.reg
  synch : ∀ t, (s.pc t).view.synched = true → s.synchLock = some t
  looked : ∀ t c se, (s.pc t).view.looked = some (c, se) → se = s.tbl.seLookup seHash c
  toSleep : ∀ t c, (s.pc t).view.toSleep = some c → s.owner (lockOf c) = some t

variable {lockOf seHash} {s s' : Synch ι χ Λ κ α}

omit [DecidableEq ι] in
theorem sound_init : (init : Synch ι χ Λ κ α).Sound lockOf seHash where
  counts := SleepTable.counts_synchSetup
  synch _ h := by simp [init, SleepPc.view] at h
  looked _ _ _ h := by simp [init, SleepPc.view] at h
  toSleep _ _ h := by simp [init, SleepPc.view] at h

variable {t : ι}

section

variable (h : s.Sound lockOf seHash) (hview : ∀ u ≠ t, (s'.pc u).view = (s.pc u).view)
  (hothers : ∀ u ≠ t, s.synchLock = some u → s'.synchLock = some u)
  (howner : ∀ u ≠ t, ∀ l, s.owner l = some u → s'.owner l = some u)
  (hsynch : (s'.pc t).view.synched = true → s'.synchLock = some t)
  (hlooked : ∀ c se, (s'.pc t).view.looked = some (c, se) → se = s'.tbl.seLookup seHash c)
  (hsleep : ∀ c, (s'.pc t).view.toSleep = some c → s'.owner (lockOf c) = some t)
include h hview hothers howner hsynch hlooked hsleep

/-- A thread goes on; the others see nothing of it but the table, which it changes under
`synch_lock` only. -/
theorem Sound.move (hcounts : s'.tbl.Counts seHash (Function.update s.reg t (s'.reg t)))
    (htbl : s'.tbl = s.tbl ∨ s.synchLock = some t) : s'.Sound lockOf seHash := by
  have hreg : s'.reg = Function.update s.reg t (s'.reg t) := by
    funext u
    by_cases hu : u = t
    · rw [hu, Function.update_self]
    · rw [Function.update_of_ne hu]
      exact congrArg SleepView.reg (hview u hu)
  refine ⟨by rwa [hreg], ?_, ?_, ?_⟩
  · intro u hu
    by_cases hut : u = t
    · subst hut
      exact hsynch hu
    · rw [hview u hut] at hu
      exact hothers u hut (h.synch u hu)
  · intro u c se hu
    by_cases hut : u = t
    · subst hut
      exact hlooked c se hu
    · rw [hview u hut] at hu
      rcases htbl with htbl | hlock
      · rw [htbl]
        exact h.looked u c se hu
      · have hlocked := h.synch u (SleepPc.synched_of_looked hu)
        rw [hlock] at hlocked
        exact absurd (Option.some.inj hlocked).symm hut
  · intro u c hu
    by_cases hut : u = t
    · subst hut
      exact hsleep c hu
    · rw [hview u hut] at hu
      exact howner u hut _ (h.toSleep u c hu)

/-- The same for a step that leaves the table alone. -/
theorem Sound.keep (htbl : s'.tbl = s.tbl) (hreg : (s'.pc t).view.reg = (s.pc t).view.reg) :
    s'.Sound lockOf seHash := by
  refine h.move hview hothers howner hsynch hlooked hsleep ?_ (.inl htbl)
  have hsame : Function.update s.reg t (s'.reg t) = s.reg := by
    rw [Function.update_eq_self_iff]
    exact hreg
  rw [hsame, htbl]
  exact h.counts

end

omit [DecidableEq χ] [DecidableEq κ] [DecidableEq α] in
theorem view_goto_of_ne {u : ι} (hu : u ≠ t) (pc : SleepPc χ α) :
    ((s.goto t pc).pc u).view = (s.pc u).view := by
  simp [goto, hu]

section

variable (h : s.Sound lockOf seHash)
include h

variable {pc : SleepPc χ α}

/-- A thread goes on and touches no lock. -/
theorem Sound.goto (hreg : pc.view.reg = (s.pc t).view.reg)
    (hsynch : pc.view.synched = true → s.synchLock = some t)
    (hlooked : ∀ c se, pc.view.looked = some (c, se) → se = s.tbl.seLookup seHash c)
    (hsleep : ∀ c, pc.view.toSleep = some c → s.owner (lockOf c) = some t) :
    (s.goto t pc).Sound lockOf seHash := by
  refine h.keep (fun u hu => view_goto_of_ne hu pc) (fun _ _ hlock => hlock)
    (fun _ _ _ hown => hown) ?_ ?_ ?_ rfl ?_
  · simpa using hsynch
  · simpa using hlooked
  · simpa using hsleep
  · simpa using hreg

/-- A thread that goes on with the owners of other locks changed. -/
theorem Sound.own {owner : Λ → Option ι}
    (howner : ∀ u ≠ t, ∀ l, s.owner l = some u → owner l = some u)
    (hsleep : ∀ c, (s.pc t).view.toSleep = some c → owner (lockOf c) = some t) :
    Sound lockOf seHash { s with owner } :=
  h.keep (fun _ _ => rfl) (fun _ _ hlock => hlock) howner (h.synch t) (h.looked t) hsleep rfl rfl

theorem Sound.lockSynch (hreg : pc.view.reg = (s.pc t).view.reg) (hlooked : pc.view.looked = none)
    (hsleep : pc.view.toSleep = (s.pc t).view.toSleep) :
    (s.lockSynch t pc).Sound lockOf seHash := by
  unfold Synch.lockSynch
  split
  · next hfree =>
    refine h.keep (fun u hu => view_goto_of_ne hu pc) ?_ (fun _ _ _ hown => hown) (fun _ => rfl)
      (by simp [hlooked]) ?_ rfl (by simpa using hreg)
    · intro u _ hlock
      simp [hfree] at hlock
    · intro c hc
      apply h.toSleep t c
      rw [← hsleep]
      simpa using hc
  · exact h

theorem Sound.unlockSynch (ht : (s.pc t).view.synched = true) (hsynched : pc.view.synched = false)
    (hreg : pc.view.reg = (s.pc t).view.reg) (hlooked : pc.view.looked = none)
    (hsleep : ∀ c, pc.view.toSleep = some c → (s.pc t).view.toSleep = some c) :
    (s.unlockSynch t pc).Sound lockOf seHash := by
  refine h.keep (fun u hu => view_goto_of_ne hu pc) ?_ (fun _ _ _ hown => hown)
    (by simp [Synch.unlockSynch, hsynched]) (by simp [Synch.unlockSynch, hlooked]) ?_ rfl
    (by simpa [Synch.unlockSynch] using hreg)
  · intro u hu hlock
    have howner := (h.synch t ht).symm.trans hlock
    exact absurd (Option.some.inj howner).symm hu
  · intro c hc
    exact h.toSleep t c (hsleep c (by simpa [Synch.unlockSynch] using hc))

/-- A thread that holds `synch_lock` changes the table. -/
theorem Sound.change {tbl : SleepTable χ κ α} (ht : (s.pc t).view.synched = true)
    (hcounts : tbl.Counts seHash (Function.update s.reg t pc.view.reg))
    (hlooked : pc.view.looked = none)
    (hsleep : ∀ c, pc.view.toSleep = some c → (s.pc t).view.toSleep = some c) :
    Sound lockOf seHash { s.goto t pc with tbl } := by
  have hlock := h.synch t ht
  refine h.move (fun u hu => view_goto_of_ne hu pc) (fun _ _ hlock => hlock)
    (fun _ _ _ hown => hown) (fun _ => hlock) (by simp [hlooked]) ?_
    (by simpa [reg] using hcounts) (.inr hlock)
  intro c hc
  exact h.toSleep t c (hsleep c (by simpa using hc))

omit [DecidableEq ι] in
/-- Return values and conditions are nothing to the locks and the table. -/
theorem Sound.of_eq (hpc : s'.pc = s.pc) (htbl : s'.tbl = s.tbl)
    (hsynch : s'.synchLock = s.synchLock) (howner : s'.owner = s.owner) :
    s'.Sound lockOf seHash := by
  have hreg : s'.reg = s.reg := by
    funext t
    rw [reg, reg, hpc]
  refine ⟨?_, ?_, ?_, ?_⟩
  · rw [htbl, hreg]
    exact h.counts
  · rw [hpc, hsynch]
    exact h.synch
  · rw [hpc, htbl]
    exact h.looked
  · rw [hpc, howner]
    exact h.toSleep

/-- A thread in its own code, or waiting for no channel, goes on as such. -/
theorem Sound.pause (hview : pc.view = ⟨false, none, none, none⟩)
    (hreg : (s.pc t).view.reg = none) : (s.goto t pc).Sound lockOf seHash := by
  apply h.goto <;> rw [hview]
  · exact hreg.symm
  · exact fun hfalse => by cases hfalse
  · exact fun _ _ hfalse => by cases hfalse
  · exact fun _ hfalse => by cases hfalse

/-- `se_lookup` under `synch_lock`. -/
theorem Sound.lookup {c : χ} (ht : (s.pc t).view.synched = true)
    (hreg : pc.view.reg = (s.pc t).view.reg)
    (hlooked : pc.view.looked = some (c, s.tbl.seLookup seHash c))
    (hsleep : ∀ c', pc.view.toSleep = some c' → (s.pc t).view.toSleep = some c') :
    (s.goto t pc).Sound lockOf seHash := by
  apply h.goto hreg (fun _ => h.synch t ht)
  · intro c' se heq
    rw [hlooked] at heq
    obtain ⟨rfl, rfl⟩ : c = c' ∧ s.tbl.seLookup seHash c = se := by simpa using heq
    rfl
  · intro c' hc
    exact h.toSleep t c' (hsleep c' hc)

variable [DecidableEq Λ]

/-- A thread that is not about to sleep gives a lock back. -/
theorem Sound.giveLock {l : Λ} (hown : s.owner l = some t) (hsleep : (s.pc t).view.toSleep = none) :
    Sound lockOf seHash { s with owner := Function.update s.owner l none } := by
  apply h.own (t := t)
  · intro u hu l' hl
    have hne : l' ≠ l := by
      rintro rfl
      exact absurd (Option.some.inj (hown.symm.trans hl)).symm hu
    rwa [Function.update_of_ne hne]
  · intro c hc
    rw [hsleep] at hc
    cases hc

/-- A thread takes a lock that is free. -/
theorem Sound.takeLock {l : Λ} (hfree : s.owner l = none) :
    Sound lockOf seHash { s with owner := Function.update s.owner l (some t) } := by
  have hkept (u : ι) (l' : Λ) (hl : s.owner l' = some u) :
      Function.update s.owner l (some t) l' = some u := by
    have hne : l' ≠ l := by
      rintro rfl
      simp [hfree] at hl
    rwa [Function.update_of_ne hne]
  exact h.own (t := t) (fun u _ => hkept u) fun c hc => hkept t _ (h.toSleep t c hc)

attribute [simp] SleepPc.view

theorem Sound.callStep (t : ι) (e : α) : (s.callStep lockOf seHash t e).Sound lockOf seHash := by
  unfold Synch.callStep
  split
  next => exact h
  next c timo hpc => exact h.lockSynch (by simp [hpc]) rfl (by simp [hpc])
  next c timo hpc => exact h.lookup (by simp [hpc]) (by simp [hpc]) rfl (by simp [hpc])
  next c timo se hpc =>
    have hsynched : (s.pc t).view.synched = true := by simp [hpc]
    have hfound := h.looked t c (some se) (by simp [hpc])
    obtain ⟨entry, he, rfl⟩ := SleepTable.chan_of_seLookup hfound.symm
    exact h.change hsynched (h.counts.addWaiter (by simp [reg, hpc]) he) rfl
      (by simp [hpc])
  next c timo hpc =>
    have hsynched : (s.pc t).view.synched = true := by simp [hpc]
    have hfound := h.looked t c none (by simp [hpc])
    split
    · next he =>
      exact h.change hsynched
        (h.counts.seAlloc (by simp [reg, hpc]) he hfound.symm) rfl
        (by simp [hpc])
    · exact h
  next c timo se hpc =>
    exact h.unlockSynch (by simp [hpc]) rfl (by simp [hpc]) rfl
      (by simp [hpc])
  next c timo se hpc =>
    have hown := h.toSleep t c (by simp [hpc])
    have hblocked : (s.goto t (.blocked c timo se)).Sound lockOf seHash :=
      h.goto (by simp [hpc]) (by simp) (by simp) (by simp)
    exact hblocked.giveLock (t := t) hown (by simp)
  next => exact h
  next c se hpc =>
    split
    · next hfree =>
      have hreturned : (s.goto t (.returned c se)).Sound lockOf seHash :=
        h.goto (by simp [hpc]) (by simp) (by simp) (by simp)
      exact hreturned.takeLock hfree
    · exact h
  next c se hpc => exact h.lockSynch (by simp [hpc]) rfl (by simp [hpc])
  next c se hpc =>
    exact h.change (by simp [hpc])
      (h.counts.seFree (show s.reg t = some (c, se) by simp [reg, hpc])) rfl (by simp)
  next hpc =>
    exact h.unlockSynch (by simp [hpc]) rfl (by simp [hpc]) rfl
      (by simp)
  next hpc =>
    have hrunning : (s.goto t (.running none)).Sound lockOf seHash := h.pause rfl (by simp [hpc])
    exact hrunning.of_eq rfl rfl rfl rfl
  next c hpc => exact h.lockSynch (by simp [hpc]) rfl (by simp [hpc])
  next c hpc => exact h.lookup (by simp [hpc]) (by simp [hpc]) rfl (by simp)
  next c hpc =>
    have hsynched : (s.pc t).view.synched = true := by simp [hpc]
    exact h.goto (by simp [hpc]) (fun _ => h.synch t hsynched)
      (by simp) (by simp)
  next c se hpc =>
    have hsynched : (s.pc t).view.synched = true := by simp [hpc]
    refine h.keep (t := t) ?_ (fun _ _ hlock => hlock) (fun _ _ _ hown => hown)
      (fun _ => h.synch t hsynched) (by simp) (by simp) rfl (by simp [hpc])
    intro u hu
    dsimp only
    rw [Function.update_of_ne hu]
    exact SleepPc.view_cvBroadcast se (s.pc u)
  next hpc =>
    exact h.unlockSynch (by simp [hpc]) rfl (by simp [hpc]) rfl (by simp)

/-- A thread in its own code is registered on no entry and has nothing looked up. -/
theorem Sound.ownStep (ev : SynchEvent ι χ Λ α) (hrun : (s.pc ev.thread).Running = true) :
    (s.ownStep lockOf ev).Sound lockOf seHash := by
  have hreg : (s.pc ev.thread).view.reg = none := by
    cases hpc : s.pc ev.thread <;> simp_all [SleepPc.Running]
  cases ev with simp only [Synch.ownStep]
  | lock t l =>
    split
    · next hfree => exact h.takeLock hfree
    · exact h
  | unlock t l =>
    split
    · next hown =>
      have hnone : (s.goto t (.running none)).Sound lockOf seHash := h.pause rfl hreg
      exact hnone.giveLock (t := t) hown (by simp)
    · exact h
  | test t c =>
    split
    · next hown =>
      refine h.goto hreg.symm (by simp) (by simp) ?_
      intro c' hc
      by_cases hcond : s.cond c = true
      · simp [hcond] at hc
      · obtain rfl : c = c' := by simpa [hcond] using hc
        exact hown
    · exact h
  | change t c b =>
    split
    · have hnone : (s.goto t (.running none)).Sound lockOf seHash := h.pause rfl hreg
      exact hnone.of_eq rfl rfl rfl rfl
    · exact h
  | sleep t c lock timo =>
    split
    · split
      · next hown =>
        have hentered : (s.goto t (.entered c timo)).Sound lockOf seHash := by
          refine h.goto hreg.symm (by simp) (by simp) ?_
          intro c' hc
          obtain rfl : c = c' := by simpa using hc
          exact hown
        exact hentered.of_eq rfl rfl rfl rfl
      · exact h
    · have hpaused : (s.goto t (if timo = 0 then .running none else .nanosleep)).Sound lockOf
          seHash := h.pause (by split <;> rfl) hreg
      exact hpaused.of_eq rfl rfl rfl rfl
  | wakeup t c => exact h.pause rfl hreg
  | step t e => exact h
  | rouse t timedOut => exact h

theorem Sound.step (ev : SynchEvent ι χ Λ α) : (s.step lockOf seHash ev).Sound lockOf seHash := by
  have hown :
      (if (s.pc ev.thread).Running then s.ownStep lockOf ev else s).Sound lockOf seHash := by
    split
    · next hrun => exact h.ownStep ev hrun
    · exact h
  cases ev with
  | step t e => exact h.callStep t e
  | rouse t timedOut =>
    simp only [Synch.step]
    split
    · next c timo se hpc =>
      have hwoken : (s.goto t (.woken c se)).Sound lockOf seHash :=
        h.goto (by simp [hpc]) (by simp) (by simp) (by simp)
      split
      · split
        · exact h
        · exact hwoken.of_eq rfl rfl rfl rfl
      · exact hwoken
    · exact h
  | _ => exact hown

end

variable [DecidableEq Λ]

/-- Whatever has happened, the locks and the table are in order. -/
theorem sound_run (l : List (SynchEvent ι χ Λ α)) :
    (run (step lockOf seHash) (init : Synch ι χ Λ κ α) l).Sound lockOf seHash :=
  run_preserves (fun _ ev h => h.step ev) sound_init l

/-- The calls of other threads only wake a thread. -/
theorem callStep_pc_of_ne {u : ι} (hu : u ≠ t) (e : α) :
    (s.callStep lockOf seHash t e).pc u = s.pc u ∨
      ∃ se, (s.callStep lockOf seHash t e).pc u = (s.pc u).cvBroadcast se := by
  cases hpc : s.pc t with
  | wakeupFound c r =>
    cases r with
    | none => simp [callStep, hpc, goto, hu]
    | some se =>
      right
      exact ⟨se, by simp [callStep, hpc, hu]⟩
  | entered c timo | returned c se | wakeup c =>
    left
    simpa only [callStep, hpc] using lockSynch_pc_of_ne hu _
  | lookedUp c timo r =>
    left
    cases r with
    | none =>
      simp only [callStep, hpc]
      split <;> simp [goto, hu]
    | some se => simp [callStep, hpc, goto, hu]
  | woken c se =>
    left
    simp only [callStep, hpc]
    split <;> simp [goto, hu]
  | _ =>
    left
    simp [callStep, hpc, goto, unlockSynch, hu]

omit [DecidableEq κ] [DecidableEq α] in
theorem ownStep_pc_of_ne {u : ι} {ev : SynchEvent ι χ Λ α} (hu : u ≠ ev.thread) :
    (s.ownStep lockOf ev).pc u = s.pc u := by
  cases ev <;> simp only [SynchEvent.thread] at hu <;> simp only [ownStep] <;>
    (try split_ifs) <;> simp [goto, hu]

section

variable {c : χ} {timo : ℕ} {se : α} (ht : s.pc t = .blocked c timo se)
include ht

/-- A thread that waits is only woken. -/
theorem step_blocked (ev : SynchEvent ι χ Λ α) :
    (s.step lockOf seHash ev).pc t = .blocked c timo se ∨
      (s.step lockOf seHash ev).pc t = .woken c se := by
  have hown : (if (s.pc ev.thread).Running then s.ownStep lockOf ev else s).pc t =
      .blocked c timo se := by
    by_cases hev : t = ev.thread
    · rw [← hev, ht, if_neg (by simp [SleepPc.Running]), ht]
    · split
      · rw [ownStep_pc_of_ne hev, ht]
      · exact ht
  cases ev with
  | step u e =>
    simp only [step]
    by_cases hu : t = u
    · subst hu
      simp [callStep, ht]
    · obtain hpc | ⟨se', hpc⟩ : (s.callStep lockOf seHash u e).pc t = s.pc t ∨
          ∃ se', (s.callStep lockOf seHash u e).pc t = (s.pc t).cvBroadcast se' :=
        callStep_pc_of_ne hu e
      · exact .inl (hpc.trans ht)
      · rw [hpc, ht, SleepPc.cvBroadcast]
        split
        · exact .inr rfl
        · exact .inl rfl
  | rouse u timedOut =>
    simp only [step]
    by_cases hu : t = u
    · subst hu
      simp only [ht]
      split_ifs <;> simp [goto, ht]
    · left
      split
      · split_ifs <;> simp [goto, hu, ht]
      · exact ht
  | _ => exact .inl hown

/-- A thread that waits on a channel stays where it is as long as it is not woken. -/
theorem run_blocked {l : List (SynchEvent ι χ Λ α)}
    (hl : Along (step lockOf seHash) (fun s _ => (s.pc t).Awaits c) s l)
    (hend : ((run (step lockOf seHash) s l).pc t).Awaits c) :
    (run (step lockOf seHash) s l).pc t = .blocked c timo se := by
  induction l generalizing s with
  | nil => exact ht
  | cons ev l ih =>
    have hnext : ((s.step lockOf seHash ev).pc t).Awaits c := by
      cases l with
      | nil => exact hend
      | cons ev' l => exact hl.2.1
    refine ih ((step_blocked ht ev).resolve_right ?_) hl.2 hend
    intro hwoken
    rw [hwoken] at hnext
    exact hnext

end

/-- A broadcast on a channel wakes every thread that waits on it. -/
theorem Sound.broadcast (h : s.Sound lockOf seHash) {u : ι} {c : χ} {timo : ℕ} {se e : α}
    {r : Option α} (hu : s.pc u = .wakeupFound c r) (ht : s.pc t = .blocked c timo se) :
    (s.step lockOf seHash (.step u e)).pc t = .woken c se := by
  have hne : t ≠ u := by
    rintro rfl
    simp [hu] at ht
  obtain ⟨entry, he, hchan⟩ := h.counts.live t c se (by simp [reg, ht])
  have hfound : r = some se := by
    rw [h.looked u c r (by simp [hu]), ← hchan]
    exact h.counts.seLookup_chan he
  subst hfound
  simp [Synch.step, Synch.callStep, hu, hne, ht, SleepPc.cvBroadcast]

omit [DecidableEq κ] [DecidableEq α] in
theorem ownStep_tbl (ev : SynchEvent ι χ Λ α) : (s.ownStep lockOf ev).tbl = s.tbl := by
  cases ev <;> simp only [ownStep] <;> (try split_ifs) <;> rfl

/-- A step keeps the entries, except that of a thread in `se_free`. -/
theorem callStep_entry {e e' : α} {se : SleepEntry χ} (he : s.tbl.entry e = some se)
    (hnone : (s.callStep lockOf seHash t e').tbl.entry e = none) :
    ∃ c se', s.pc t = .freeing c se' := by
  cases hpc : s.pc t with
  | freeing c se' => exact ⟨c, se', rfl⟩
  | entered c timo => simp [callStep, hpc, lockSynch_tbl, he] at hnone
  | returned c se' => simp [callStep, hpc, lockSynch_tbl, he] at hnone
  | wakeup c => simp [callStep, hpc, lockSynch_tbl, he] at hnone
  | lookedUp c timo r =>
    cases r with
    | none =>
      simp only [callStep, hpc] at hnone
      split at hnone
      · by_cases hee : e = e'
        · simp [SleepTable.seAlloc, hee] at hnone
        · simp [SleepTable.seAlloc, hee, he] at hnone
      · simp [he] at hnone
    | some se' =>
      by_cases hee : e = se'
      · simp [callStep, hpc, SleepTable.addWaiter, ← hee, he] at hnone
      · simp [callStep, hpc, SleepTable.addWaiter, hee, he] at hnone
  | woken c se' =>
    simp only [callStep, hpc] at hnone
    split at hnone <;> simp [he] at hnone
  | wakeupFound c r => cases r <;> simp [callStep, hpc, he] at hnone
  | _ => simp [callStep, hpc, unlockSynch, he] at hnone

/-- Only `se_free` takes an entry away, and then no thread is left on its channel. -/
theorem Sound.freed (h : s.Sound lockOf seHash) {ev : SynchEvent ι χ Λ α} {e : α}
    {se : SleepEntry χ} (he : s.tbl.entry e = some se)
    (hnone : (s.step lockOf seHash ev).tbl.entry e = none) :
    (s.step lockOf seHash ev).registered se.chan = 0 := by
  have hown : (if (s.pc ev.thread).Running then s.ownStep lockOf ev else s).tbl = s.tbl := by
    split
    · exact ownStep_tbl ev
    · rfl
  cases ev with
  | step t e' =>
    obtain ⟨c, se', hpc⟩ := callStep_entry he hnone
    have hfree := h.counts.seFree_none (show s.reg t = some (c, se') by simp [reg, hpc]) he
      (by simpa [Synch.step, Synch.callStep, hpc] using hnone)
    have hreg : (s.step lockOf seHash (.step t e')).reg = Function.update s.reg t none := by
      funext u
      by_cases hu : u = t
      · subst hu
        simp [reg, Synch.step, Synch.callStep, hpc]
      · simp [reg, Synch.step, Synch.callStep, hpc, Synch.goto, hu]
    rw [registered, hreg]
    exact hfree
  | rouse t timedOut =>
    simp only [Synch.step] at hnone
    split at hnone
    · split_ifs at hnone <;> simp [he] at hnone
    · simp [he] at hnone
  | _ =>
    simp only [Synch.step] at hnone
    rw [hown, he] at hnone
    cases hnone

end Synch

/-- A thread sleeps, and another one that has changed the condition and given the lock back wakes
it up: the last thread on the channel frees the entry. -/
example :
    let s := run (Synch.step (fun _ : Unit => ()) fun _ => ())
      (Synch.init : Synch (Fin 2) Unit Unit Unit ℕ)
      ([.lock 0 (), .test 0 (), .sleep 0 () true 0] ++ List.replicate 5 (.step 0 7) ++
        [.lock 1 (), .change 1 () true, .unlock 1 (), .wakeup 1 ()] ++
        List.replicate 4 (.step 1 0))
    s.pc 0 = .woken () 7 ∧ s.tbl.entry 7 = some ⟨(), 1⟩ ∧ s.tbl.seActive () = [7] ∧
      let s := run (Synch.step (fun _ : Unit => ()) fun _ => ()) s (List.replicate 4 (.step 0 0))
      s.pc 0 = .running none ∧ s.tbl.entry 7 = none ∧ s.tbl.seActive () = [] := by
  decide

end Libuinet
