import Libuinet.Execution
import Mathlib.Data.Int.Notation
import Mathlib.Data.List.Count
import Mathlib.Data.List.Induction
import Mathlib.Data.List.Nodup
import Mathlib.Logic.Function.Basic

namespace Libuinet

open Execution

inductive BridgeKind where
  | bridge
  | span
  deriving DecidableEq

/-- The errors of `if_bridge_addm` and `if_span_addm`. -/
inductive AddmError where
  | enoent
  | einval
  | ebusy
  | enomem
  deriving DecidableEq

/-- What they get from `ifunit_ref`, and whether `malloc` and `ifpromisc` succeed. -/
structure AddmEnv (ι : Type*) where
  nifp : Option ι
  malloc : Bool
  ifpromisc : Bool

/-- The bridges and spans, numbered, and the interfaces `ι`.  `ifRefs` has the references
taken by `ifunit_ref` and not given back. -/
structure Bridging (ι : Type*) where
  kind : ℕ → BridgeKind
  scIflist : ℕ → List ι
  mtxLocks : ℕ → ℕ
  mtxUnlocks : ℕ → ℕ
  ifBridge : ι → Option ℕ
  ifRefs : ι → ℤ

namespace Bridging

variable {ι : Type*} [DecidableEq ι]

variable (s : Bridging ι)

def mtxLock (sc : ℕ) : Bridging ι :=
  { s with mtxLocks := Function.update s.mtxLocks sc (s.mtxLocks sc + 1) }

def mtxUnlock (sc : ℕ) : Bridging ι :=
  { s with mtxUnlocks := Function.update s.mtxUnlocks sc (s.mtxUnlocks sc + 1) }

def ifRef (ifp : ι) : Bridging ι :=
  { s with ifRefs := Function.update s.ifRefs ifp (s.ifRefs ifp + 1) }

def ifRele (ifp : ι) : Bridging ι :=
  { s with ifRefs := Function.update s.ifRefs ifp (s.ifRefs ifp - 1) }

def listInsertHead (sc : ℕ) (ifp : ι) : Bridging ι :=
  { s with scIflist := Function.update s.scIflist sc (ifp :: s.scIflist sc) }

def listRemove (sc : ℕ) (ifp : ι) : Bridging ι :=
  { s with scIflist := Function.update s.scIflist sc ((s.scIflist sc).erase ifp) }

def setIfBridge (ifp : ι) (sc : ℕ) : Bridging ι :=
  { s with ifBridge := Function.update s.ifBridge ifp (some sc) }

def fail (sc : ℕ) (nifp : ι) : Bridging ι := (s.mtxUnlock sc).ifRele nifp

def addm (sc : ℕ) (env : AddmEnv ι) : Option AddmError × Bridging ι :=
  match env.nifp with
  | none => (some .enoent, s)
  | some nifp =>
    let s := (s.ifRef nifp).mtxLock sc
    if nifp ∈ s.scIflist sc then (some .einval, s.fail sc nifp)
    else if s.ifBridge nifp ≠ none then (some .ebusy, s.fail sc nifp)
    else if !env.malloc then (some .enomem, s.fail sc nifp)
    else
      let s := ((s.listInsertHead sc nifp).setIfBridge nifp sc).mtxUnlock sc
      if env.ifpromisc then (none, s)
      else
        let s := ((s.mtxLock sc).listRemove sc nifp).mtxUnlock sc
        (some .einval, s.fail sc nifp)

/-- `if_bridge_addm`.  Which side the member is on is not read by anyone. -/
def ifBridgeAddm (sc : ℕ) (env : AddmEnv ι) : Option AddmError × Bridging ι :=
  s.addm sc env

def ifSpanAddm (sc : ℕ) (env : AddmEnv ι) : Option AddmError × Bridging ι :=
  s.addm sc env

def step (call : ℕ × AddmEnv ι) : Bridging ι :=
  match s.kind call.1 with
  | .bridge => (s.ifBridgeAddm call.1 call.2).2
  | .span => (s.ifSpanAddm call.1 call.2).2

theorem step_eq (call : ℕ × AddmEnv ι) : s.step call = (s.addm call.1 call.2).2 := by
  unfold step
  cases s.kind call.1 <;> rfl

def empty (kind : ℕ → BridgeKind) : Bridging ι where
  kind := kind
  scIflist := fun _ => []
  mtxLocks := fun _ => 0
  mtxUnlocks := fun _ => 0
  ifBridge := fun _ => none
  ifRefs := fun _ => 0

def create (sc : ℕ) (kind : BridgeKind) : Bridging ι :=
  { s with
    kind := Function.update s.kind sc kind
    scIflist := Function.update s.scIflist sc [] }

/-- The two places agree, a member has one reference, and the lock is free. -/
structure Consistent (s : Bridging ι) : Prop where
  linked : ∀ sc i, s.ifBridge i = some sc ↔ (s.scIflist sc).count i = 1
  once : ∀ sc i, (s.scIflist sc).count i ≤ 1
  member : ∀ sc sc' i, i ∈ s.scIflist sc → i ∈ s.scIflist sc' → sc = sc'
  held : ∀ sc i, i ∈ s.scIflist sc → s.ifRefs i = 1
  free : ∀ i, (∀ sc, i ∉ s.scIflist sc) → s.ifRefs i = 0
  locks : ∀ sc, s.mtxLocks sc = s.mtxUnlocks sc

/-- `ifpromisc` does not fail for an interface that has just been put on the list. -/
def Settles (call : ℕ × AddmEnv ι) : Prop :=
  ∀ i, call.2.nifp = some i → i ∉ s.scIflist call.1 → s.ifBridge i = none →
    call.2.malloc = true → call.2.ifpromisc = true

theorem consistent_empty (kind : ℕ → BridgeKind) : (empty kind : Bridging ι).Consistent := by
  refine ⟨?_, ?_, ?_, ?_, ?_, ?_⟩ <;> simp [empty]

variable {s : Bridging ι} {sc : ℕ} {i : ι} {env : AddmEnv ι}

theorem Consistent.mem_iff (h : s.Consistent) : s.ifBridge i = some sc ↔ i ∈ s.scIflist sc := by
  have hle := h.once sc i
  rw [h.linked, ← List.count_pos_iff]
  omega

/-- Every exit through `fail` gives the lock and the reference back. -/
theorem fail_eq (s : Bridging ι) (sc : ℕ) (i : ι) :
    ((s.ifRef i).mtxLock sc).fail sc i = (s.mtxLock sc).mtxUnlock sc := by
  simp [fail, ifRef, ifRele, mtxLock, mtxUnlock]

theorem Consistent.refused (h : s.Consistent) (sc : ℕ) :
    ((s.mtxLock sc).mtxUnlock sc).Consistent := by
  refine { h with locks := ?_ }
  intro sc'
  have hlocks := h.locks sc'
  by_cases hsc : sc' = sc
  · subst hsc
    simpa [mtxLock, mtxUnlock] using hlocks
  · simpa [mtxLock, mtxUnlock, Function.update_of_ne hsc] using hlocks

def added (s : Bridging ι) (sc : ℕ) (nifp : ι) : Bridging ι :=
  ((((s.ifRef nifp).mtxLock sc).listInsertHead sc nifp).setIfBridge nifp sc).mtxUnlock sc

section

variable (s : Bridging ι) (sc sc' : ℕ) (i j : ι)

theorem added_count :
    ((s.added sc i).scIflist sc').count j =
      (s.scIflist sc').count j + if sc' = sc ∧ j = i then 1 else 0 := by
  by_cases hsc : sc' = sc
  · subst hsc
    by_cases hj : j = i
    · subst hj
      simp [added, listInsertHead, setIfBridge, mtxLock, mtxUnlock, ifRef]
    · simp [added, listInsertHead, setIfBridge, mtxLock, mtxUnlock, ifRef, hj,
        List.count_cons_of_ne (Ne.symm hj)]
  · simp [added, listInsertHead, setIfBridge, mtxLock, mtxUnlock, ifRef, hsc]

theorem added_mem : j ∈ (s.added sc i).scIflist sc' ↔ j ∈ s.scIflist sc' ∨ sc' = sc ∧ j = i := by
  rw [← List.count_pos_iff, added_count, ← List.count_pos_iff]
  split_ifs with h
  · simp [h]
  · simp [h]

end

theorem Consistent.added (h : s.Consistent) (sc : ℕ) (hnone : s.ifBridge i = none) :
    (s.added sc i).Consistent := by
  have hnot (sc' : ℕ) : i ∉ s.scIflist sc' := by
    rw [← h.mem_iff, hnone]
    simp
  have hcount (sc' : ℕ) : (s.scIflist sc').count i = 0 := List.count_eq_zero.2 (hnot sc')
  have hrefs (j : ι) : (s.added sc i).ifRefs j = s.ifRefs j + if j = i then 1 else 0 := by
    by_cases hj : j = i
    · subst hj
      simp [Bridging.added, listInsertHead, setIfBridge, mtxLock, mtxUnlock, ifRef]
    · simp [Bridging.added, listInsertHead, setIfBridge, mtxLock, mtxUnlock, ifRef, hj]
  refine ⟨?_, ?_, ?_, ?_, ?_, ?_⟩
  · intro sc' j
    rw [added_count]
    by_cases hj : j = i
    · subst hj
      simp [Bridging.added, setIfBridge, mtxUnlock, hcount, eq_comm]
    · simpa [Bridging.added, setIfBridge, mtxUnlock, mtxLock, listInsertHead, ifRef, hj]
        using h.linked sc' j
  · intro sc' j
    have hle := h.once sc' j
    rw [added_count]
    split_ifs with hsame
    · simp [hsame.2, hcount]
    · exact hle
  · intro sc₁ sc₂ j hmem₁ hmem₂
    rw [added_mem] at hmem₁ hmem₂
    rcases hmem₁ with hmem₁ | ⟨rfl, rfl⟩
    · rcases hmem₂ with hmem₂ | ⟨rfl, rfl⟩
      · exact h.member sc₁ sc₂ j hmem₁ hmem₂
      · exact absurd hmem₁ (hnot sc₁)
    · rcases hmem₂ with hmem₂ | ⟨rfl, -⟩
      · exact absurd hmem₂ (hnot sc₂)
      · rfl
  · intro sc' j hmem
    rw [hrefs]
    rcases (added_mem _ _ _ _ _).1 hmem with hold | ⟨-, rfl⟩
    · have hne : j ≠ i := by
        rintro rfl
        exact hnot sc' hold
      simpa [hne] using h.held sc' j hold
    · simp [h.free j hnot]
  · intro j hfree
    have hne : j ≠ i := by
      rintro rfl
      exact hfree sc ((added_mem _ _ _ _ _).2 (.inr ⟨rfl, rfl⟩))
    rw [hrefs, if_neg hne, Int.add_zero]
    exact h.free j fun sc' hmem => hfree sc' ((added_mem _ _ _ _ _).2 (.inl hmem))
  · exact (h.refused sc).locks

/-- `ifpromisc` has failed: the interface is off the list again. -/
def unlisted (s : Bridging ι) (sc : ℕ) (nifp : ι) : Bridging ι :=
  ((((s.added sc nifp).mtxLock sc).listRemove sc nifp).mtxUnlock sc).fail sc nifp

theorem step_cases (s : Bridging ι) (sc : ℕ) (env : AddmEnv ι) :
    (env.nifp = none ∧ s.step (sc, env) = s) ∨
    ∃ i, env.nifp = some i ∧
      ((¬ (i ∉ s.scIflist sc ∧ s.ifBridge i = none ∧ env.malloc = true) ∧
          s.step (sc, env) = (s.mtxLock sc).mtxUnlock sc) ∨
        ((i ∉ s.scIflist sc ∧ s.ifBridge i = none ∧ env.malloc = true) ∧
          s.step (sc, env) =
            if env.ifpromisc = true then s.added sc i else s.unlisted sc i)) := by
  rw [step_eq, addm]
  cases hnifp : env.nifp with
  | none => exact .inl ⟨rfl, rfl⟩
  | some i =>
    refine .inr ⟨i, rfl, ?_⟩
    have hlist : ((s.ifRef i).mtxLock sc).scIflist = s.scIflist := rfl
    have hbridge : ((s.ifRef i).mtxLock sc).ifBridge = s.ifBridge := rfl
    dsimp only
    rw [hlist, hbridge]
    by_cases hlisted : i ∈ s.scIflist sc
    · left
      exact ⟨fun hok => hok.1 hlisted, by rw [if_pos hlisted, fail_eq]⟩
    rw [if_neg hlisted]
    by_cases hbusy : s.ifBridge i = none
    swap
    · left
      exact ⟨fun hok => hbusy hok.2.1, by rw [if_pos hbusy, fail_eq]⟩
    rw [if_neg (fun hne => hne hbusy)]
    by_cases hmalloc : env.malloc = true
    swap
    · left
      refine ⟨fun hok => hmalloc hok.2.2, ?_⟩
      rw [if_pos (by simpa using hmalloc), fail_eq]
    right
    refine ⟨⟨hlisted, hbusy, hmalloc⟩, ?_⟩
    rw [if_neg (by simp [hmalloc])]
    split_ifs <;> rfl

/-- The lock is given back once too often, and `if_bridge` is left behind. -/
theorem unlisted_not_consistent (h : s.Consistent) (sc : ℕ) (i : ι) :
    ¬ (s.unlisted sc i).Consistent := by
  intro hbad
  have hlocks := h.locks sc
  have hunlocks := hbad.locks sc
  simp only [unlisted, fail, added, ifRef, ifRele, mtxLock, mtxUnlock, listInsertHead, listRemove,
    setIfBridge, Function.update_self] at hunlocks
  omega

theorem Consistent.step_iff (h : s.Consistent) (call : ℕ × AddmEnv ι) :
    (s.step call).Consistent ↔ s.Settles call := by
  obtain ⟨sc, env⟩ := call
  rcases s.step_cases sc env with ⟨hnone, hstep⟩ | ⟨i, hi, ⟨hrefused, hstep⟩ | ⟨hok, hstep⟩⟩
  · rw [hstep]
    refine iff_of_true h fun i hi => ?_
    simp [hnone] at hi
  · rw [hstep]
    refine iff_of_true (h.refused sc) fun j hj hlisted hbusy hmalloc => ?_
    obtain rfl : i = j := by simpa [hi] using hj
    exact absurd ⟨hlisted, hbusy, hmalloc⟩ hrefused
  · rw [hstep]
    by_cases hpromisc : env.ifpromisc = true
    · rw [if_pos hpromisc]
      exact iff_of_true (h.added sc hok.2.1) fun _ _ _ _ _ => hpromisc
    · rw [if_neg hpromisc]
      refine iff_of_false (unlisted_not_consistent h sc i) fun hsettles => ?_
      exact hpromisc (hsettles i hi hok.1 hok.2.1 hok.2.2)

end Bridging

/-- Membership is consistent after every call exactly when `ifpromisc` never fails for an
interface that has just been added. -/
theorem bridge_membership_iff {ι : Type*} [DecidableEq ι] (kind : ℕ → BridgeKind)
    (calls : List (ℕ × AddmEnv ι)) :
    (∀ pre, pre <+: calls → (run Bridging.step (Bridging.empty kind) pre).Consistent) ↔
      Along Bridging.step Bridging.Settles (Bridging.empty kind) calls :=
  along_iff_of_step_iff (fun h call hsettles => (h.step_iff call).2 hsettles)
    (fun _ call h => h.step_iff call) (fun _ h => h) (Bridging.consistent_empty kind)

/-- The only member of a bridge cannot be made promiscuous. -/
theorem bridge_membership_lost :
    let s := run Bridging.step (Bridging.empty fun _ => .bridge) [(0, ⟨some (), true, false⟩)]
    s.ifBridge () = some 0 ∧ s.scIflist 0 = [] ∧ s.mtxLocks 0 = 2 ∧ s.mtxUnlocks 0 = 3 ∧
      ¬ s.Consistent := by
  refine ⟨by decide, by decide, by decide, by decide, fun h => ?_⟩
  have hlocks := h.locks 0
  revert hlocks
  decide

/-- Bridges and spans as they are attached one after the other.  `bridge_input_p` is one
pointer for both. -/
structure BridgeStack (ι : Type*) where
  bridging : Bridging ι
  bridgeInputP : Option BridgeKind
  attached : ℕ

/-- What becomes of a frame: a copy is sent, or it goes to the input of a bridge or span. -/
inductive FrameEvent (ι : Type*) where
  | transmit (ifp : ι)
  | input (sc : ℕ)
  deriving DecidableEq

namespace BridgeStack

variable {ι : Type*} [DecidableEq ι]

def attach (kind : BridgeKind) (s : BridgeStack ι) (config : List (AddmEnv ι)) : BridgeStack ι :=
  { bridging := run Bridging.step (s.bridging.create s.attached kind) (config.map (s.attached, ·))
    bridgeInputP := some kind
    attached := s.attached + 1 }

variable (s : BridgeStack ι)

def ifBridgeAttach (config : List (AddmEnv ι)) : BridgeStack ι :=
  s.attach .bridge config

def ifSpanAttach (config : List (AddmEnv ι)) : BridgeStack ι :=
  s.attach .span config

def step (interface : BridgeKind × List (AddmEnv ι)) : BridgeStack ι :=
  match interface.1 with
  | .bridge => s.ifBridgeAttach interface.2
  | .span => s.ifSpanAttach interface.2

theorem step_eq (interface : BridgeKind × List (AddmEnv ι)) :
    s.step interface = s.attach interface.1 interface.2 := by
  unfold step
  cases interface.1 <;> rfl

def init : BridgeStack ι where
  bridging := Bridging.empty fun _ => .bridge
  bridgeInputP := none
  attached := 0

def ifBridgeInput (ifp : ι) (sc : ℕ) : List (FrameEvent ι) :=
  ((s.bridging.scIflist sc).filter (· ≠ ifp)).map .transmit ++ [.input sc]

def ifSpanInput (sc : ℕ) : List (FrameEvent ι) := [.input sc]

/-- `ether_input_internal` at `BRIDGE_INPUT`: the frame is claimed by the bridge of the
interface, if it has one. -/
def etherInputInternal (ifp : ι) : Option (List (FrameEvent ι)) :=
  match s.bridging.ifBridge ifp, s.bridgeInputP with
  | some sc, some .bridge => some (s.ifBridgeInput ifp sc)
  | some sc, some .span => some (ifSpanInput sc)
  | _, _ => none

def Serves (ifp : ι) (sc : ℕ) : Prop :=
  ∃ sent, s.etherInputInternal ifp = some (sent ++ [.input sc]) ∧
    match s.bridging.kind sc with
    | .bridge => ∀ j, sent.count (.transmit j) =
        if j ∈ s.bridging.scIflist sc ∧ j ≠ ifp then 1 else 0
    | .span => sent = []

end BridgeStack

namespace Bridging

variable {ι : Type*} {s : Bridging ι}

/-- A member points to its bridge, whatever has failed. -/
structure Linked (s : Bridging ι) : Prop where
  bridge : ∀ sc i, i ∈ s.scIflist sc → s.ifBridge i = some sc
  nodup : ∀ sc, (s.scIflist sc).Nodup

theorem Linked.create (h : s.Linked) (sc : ℕ) (kind : BridgeKind) : (s.create sc kind).Linked := by
  have hlist (sc' : ℕ) : (s.create sc kind).scIflist sc' = s.scIflist sc' ∨
      (s.create sc kind).scIflist sc' = [] := by
    by_cases hsc : sc' = sc
    · subst hsc
      simp [Bridging.create]
    · simp [Bridging.create, hsc]
  constructor
  · intro sc' i hmem
    rcases hlist sc' with heq | heq
    · rw [heq] at hmem
      exact h.bridge sc' i hmem
    · simp [heq] at hmem
  · intro sc'
    rcases hlist sc' with heq | heq
    · rw [heq]
      exact h.nodup sc'
    · simp [heq]

variable [DecidableEq ι]

theorem Linked.added (h : s.Linked) (sc : ℕ) {i : ι} (hnone : s.ifBridge i = none) :
    (s.added sc i).Linked := by
  have hnot (sc' : ℕ) : i ∉ s.scIflist sc' := fun hmem => by simp [h.bridge sc' i hmem] at hnone
  constructor
  · intro sc' j hmem
    rcases (added_mem _ _ _ _ _).1 hmem with hold | ⟨rfl, rfl⟩
    · have hne : j ≠ i := by
        rintro rfl
        exact hnot sc' hold
      simpa [Bridging.added, setIfBridge, mtxUnlock, mtxLock, listInsertHead, ifRef, hne]
        using h.bridge sc' j hold
    · simp [Bridging.added, setIfBridge, mtxUnlock]
  · intro sc'
    rw [List.nodup_iff_count_le_one]
    intro j
    have hle := List.nodup_iff_count_le_one.1 (h.nodup sc') j
    rw [added_count]
    split_ifs with hsame
    · simp [hsame.2, List.count_eq_zero.2 (hnot sc')]
    · exact hle

theorem unlisted_scIflist (s : Bridging ι) (sc : ℕ) (i : ι) :
    (s.unlisted sc i).scIflist = s.scIflist := by
  simp [unlisted, fail, added, ifRef, ifRele, mtxLock, mtxUnlock, listInsertHead,
    listRemove, setIfBridge]

theorem unlisted_ifBridge (s : Bridging ι) (sc : ℕ) (i : ι) :
    (s.unlisted sc i).ifBridge = Function.update s.ifBridge i (some sc) := by
  simp [unlisted, fail, added, ifRef, ifRele, mtxLock, mtxUnlock, listInsertHead,
    listRemove, setIfBridge]

theorem Linked.unlisted (h : s.Linked) (sc : ℕ) {i : ι} (hnone : s.ifBridge i = none) :
    (s.unlisted sc i).Linked := by
  constructor
  · intro sc' j hmem
    rw [unlisted_scIflist] at hmem
    have hbridge := h.bridge sc' j hmem
    have hne : j ≠ i := by
      rintro rfl
      simp [hnone] at hbridge
    rwa [unlisted_ifBridge, Function.update_of_ne hne]
  · rw [unlisted_scIflist]
    exact h.nodup

theorem Linked.step (h : s.Linked) (call : ℕ × AddmEnv ι) : (s.step call).Linked := by
  obtain ⟨sc, env⟩ := call
  rcases s.step_cases sc env with ⟨-, hstep⟩ | ⟨i, -, ⟨-, hstep⟩ | ⟨hok, hstep⟩⟩
  · rwa [hstep]
  · rw [hstep]
    exact { h with }
  · rw [hstep]
    split_ifs
    · exact h.added sc hok.2.1
    · exact h.unlisted sc hok.2.1

end Bridging

namespace BridgeStack

variable {ι : Type*} [DecidableEq ι] {s : BridgeStack ι}

theorem linked_step (h : s.bridging.Linked) (interface : BridgeKind × List (AddmEnv ι)) :
    (s.step interface).bridging.Linked := by
  rw [step_eq]
  exact run_preserves (fun _ call hs => hs.step call) (h.create s.attached interface.1) _

theorem linked_run (interfaces : List (BridgeKind × List (AddmEnv ι))) :
    (run step init interfaces : BridgeStack ι).bridging.Linked := by
  apply run_preserves (I := fun s : BridgeStack ι => s.bridging.Linked)
    (fun _ interface hs => linked_step hs interface)
  constructor <;> simp [init, Bridging.empty]

section

variable (s : BridgeStack ι)

/-- The pointer is that of the last interface attached. -/
theorem bridgeInputP_run (interfaces : List (BridgeKind × List (AddmEnv ι))) :
    (run step s interfaces).bridgeInputP =
      (interfaces.getLast?.map Prod.fst).or s.bridgeInputP := by
  induction interfaces using List.reverseRecOn with
  | nil => simp
  | append_singleton interfaces interface _ =>
    rw [run_append, run_cons, run_nil, step_eq]
    simp [attach]

theorem transmits_count (hs : s.bridging.Linked) (ifp : ι) (sc : ℕ) (j : ι) :
    (((s.bridging.scIflist sc).filter (· ≠ ifp)).map FrameEvent.transmit).count (.transmit j) =
      if j ∈ s.bridging.scIflist sc ∧ j ≠ ifp then 1 else 0 := by
  have hinj : Function.Injective (FrameEvent.transmit : ι → FrameEvent ι) :=
    fun a b hab => by simpa using hab
  rw [List.count_map_of_injective _ _ hinj]
  by_cases hj : j = ifp
  · subst hj
    rw [if_neg (by simp), List.count_eq_zero]
    simp
  · rw [List.count_filter (by simpa using hj), List.Nodup.count (hs.nodup sc)]
    simp [hj]

/-- The interface has a bridge or span, so one was attached, and the last says what is done. -/
theorem etherInputInternal_eq {ifp : ι} {sc : ℕ} {kind : BridgeKind}
    (hbridge : s.bridging.ifBridge ifp = some sc) (hkind : s.bridgeInputP = some kind) :
    s.etherInputInternal ifp = some ((match kind with
      | .bridge => ((s.bridging.scIflist sc).filter (· ≠ ifp)).map .transmit
      | .span => []) ++ [.input sc]) := by
  unfold etherInputInternal
  rw [hbridge, hkind]
  cases kind <;> rfl

theorem serves_iff (hs : s.bridging.Linked) {ifp : ι} {sc : ℕ} {kind : BridgeKind}
    (hbridge : s.bridging.ifBridge ifp = some sc) (hkind : s.bridgeInputP = some kind) :
    s.Serves ifp sc ↔ kind = s.bridging.kind sc ∨ ∀ j ∈ s.bridging.scIflist sc, j = ifp := by
  unfold Serves
  rw [s.etherInputInternal_eq hbridge hkind]
  simp only [Option.some.injEq, List.append_cancel_right_eq, exists_eq_left']
  cases s.bridging.kind sc with
  | bridge =>
    cases kind with
    | bridge => simpa using s.transmits_count hs ifp sc
    | span =>
      simp only [List.count_nil, reduceCtorEq, false_or]
      refine forall_congr' fun j => ?_
      split_ifs with hother
      · simpa using hother
      · simpa [imp_iff_not_or, not_and_or] using hother
  | span =>
    cases kind with
    | bridge => simp
    | span => simp

end

end BridgeStack

/-- A frame on a member is treated as its bridge or span should exactly when the interface
attached last is of the same kind, or there is no other member. -/
theorem bridge_dispatch_iff {ι : Type*} [DecidableEq ι]
    (interfaces : List (BridgeKind × List (AddmEnv ι))) (sc : ℕ) (ifp : ι)
    (hmem : ifp ∈ (run BridgeStack.step BridgeStack.init interfaces).bridging.scIflist sc) :
    let s := run BridgeStack.step BridgeStack.init interfaces
    s.Serves ifp sc ↔
      interfaces.getLast?.map Prod.fst = some (s.bridging.kind sc) ∨
        ∀ j ∈ s.bridging.scIflist sc, j = ifp := by
  intro s
  have hlinked : s.bridging.Linked := BridgeStack.linked_run interfaces
  have hbridge : s.bridging.ifBridge ifp = some sc := hlinked.bridge sc ifp hmem
  have hlast : s.bridgeInputP = (interfaces.getLast?.map Prod.fst).or none :=
    BridgeStack.bridgeInputP_run BridgeStack.init interfaces
  rw [Option.or_none] at hlast
  cases hkind : interfaces.getLast?.map Prod.fst with
  | none =>
    -- nothing is attached, so there are no members
    obtain rfl : interfaces = [] := by simpa using hkind
    simp [BridgeStack.init, Bridging.empty] at hmem
  | some kind =>
    rw [s.serves_iff hlinked hbridge (hlast.trans hkind), Option.some.injEq]

/-- A bridge with three members, and a span with two attached after it. -/
def bridgeThenSpan : List (BridgeKind × List (AddmEnv ℕ)) :=
  [(.bridge, [⟨some 1, true, true⟩, ⟨some 2, true, true⟩, ⟨some 3, true, true⟩]),
    (.span, [⟨some 4, true, true⟩, ⟨some 5, true, true⟩])]

/-- A frame on a member of the span, which was attached last. -/
theorem bridge_dispatch_span :
    (run BridgeStack.step BridgeStack.init bridgeThenSpan).Serves 4 1 :=
  (bridge_dispatch_iff bridgeThenSpan 1 4 (by decide)).2 (.inl (by decide))

/-- A frame on a member of the bridge is no longer sent on.  With the two attached the other
way round, a frame on a member of the span is. -/
theorem bridge_dispatch_mixed :
    let s := run BridgeStack.step BridgeStack.init bridgeThenSpan
    let s' := run BridgeStack.step BridgeStack.init bridgeThenSpan.reverse
    (s.bridging.kind 0 = .bridge ∧ s.bridging.scIflist 0 = [3, 2, 1] ∧
      s.etherInputInternal 1 = some [.input 0]) ∧
    s'.bridging.kind 0 = .span ∧ s'.bridging.scIflist 0 = [5, 4] ∧
      s'.etherInputInternal 4 = some [.transmit 5, .input 0] := by
  decide

end Libuinet
