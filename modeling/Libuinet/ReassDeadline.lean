import Libuinet.Execution
import Libuinet.ReassOwnership

namespace Libuinet

open Execution TailQueue

/-- The age list is in step with the queue and in the order of queueing. -/
structure AgeOrdered (ticks : ℕ) (tp : ReassCb) (ages : List Tqe) : Prop where
  linked : Linked tp ages none
  noTqs : Tqe.tqs ∉ tp.addrs
  sorted : (tp.times ages).Pairwise (· ≤ ·)
  past : ∀ τ ∈ tp.times ages, τ ≤ ticks

namespace AgeOrdered

variable {ticks : ℕ} {tp tp' : ReassCb} {ages : List Tqe}

section

variable (h : AgeOrdered ticks tp ages)
include h

theorem mem_times {q : TsegQent} (hq : q ∈ tp.tSegq) :
    tp.tqeTicks q.tqe ∈ tp.times ages :=
  List.mem_map_of_mem (h.linked.perm.mem_iff.mpr (List.mem_map_of_mem hq))

theorem exists_entry {τ : ℕ} (hτ : τ ∈ tp.times ages) : ∃ q ∈ tp.tSegq, tp.tqeTicks q.tqe = τ := by
  obtain ⟨a, ha, rfl⟩ := List.mem_map.mp hτ
  obtain ⟨q, hq, rfl⟩ := List.mem_map.mp (h.linked.perm.mem_iff.mp ha)
  exact ⟨q, hq, rfl⟩

theorem eq_nil_iff : ages = [] ↔ tp.tSegq = [] := by
  have hlen := h.linked.perm.length_eq
  rw [ReassCb.addrs, List.length_map] at hlen
  rw [← List.length_eq_zero_iff, ← List.length_eq_zero_iff, hlen]

theorem advance (d : ℕ) : AgeOrdered (ticks + d) tp ages :=
  { h with past := fun τ hτ => (h.past τ hτ).trans (Nat.le_add_right _ _) }

theorem timer (c : Callout) : AgeOrdered ticks { tp with ttReassdl := c } ages :=
  { h with linked := { h.linked with } }

/-- Calls that only drop entries and queue one now keep the order. -/
theorem of_ownedFrom (ho : OwnedFrom (tp.times ages ++ [ticks]) tp') :
    ∃ ages', AgeOrdered ticks tp' ages' ∧
      ∀ τ ∈ tp'.times ages', τ ∈ tp.times ages ∨ τ = ticks := by
  obtain ⟨ages', hl, hn, hsub⟩ := ho
  have hmem : ∀ τ ∈ tp'.times ages', τ ∈ tp.times ages ∨ τ = ticks := by
    intro τ hτ
    simpa using hsub.subset hτ
  refine ⟨ages', ⟨hl, hn, ?_, ?_⟩, hmem⟩
  · refine List.Pairwise.sublist hsub (List.pairwise_append.mpr ⟨h.sorted, by simp, ?_⟩)
    intro a ha b hb
    obtain rfl := List.mem_singleton.mp hb
    exact h.past a ha
  · intro τ hτ
    rcases hmem τ hτ with hm | rfl
    · exact h.past τ hm
    · exact le_rfl

end

end AgeOrdered

theorem age_eq (tp : ReassCb) (ticks : ℕ) (a : Tqe) (hpast : tp.tqeTicks a ≤ ticks)
    (hwrap : ticks < tp.tqeTicks a + 2 ^ 32) : tp.age ticks a = ticks - tp.tqeTicks a := by
  rw [ReassCb.age, Int.emod_eq_of_lt (by omega) (by omega)]
  omega

/-- The timer is pending for every entry in time: no later than its deadline,
or than the next tick if that has passed. -/
def Armed (D ticks : ℕ) (tp : ReassCb) : Prop :=
  ∀ q ∈ tp.tSegq, ∃ t, tp.ttReassdl.cTime = some t ∧
    t ≤ max (tp.tqeTicks q.tqe + D) (ticks + 1)

/-- The timer is pending exactly when it is marked active, and idle while the
queue is empty. -/
structure TimerSound (D ticks : ℕ) (tp : ReassCb) : Prop where
  flag : tp.ttReassdl.active = tp.ttReassdl.cTime.isSome
  idle : tp.tSegq = [] → tp.ttReassdl.cTime = none
  armed : Armed D ticks tp

def AgesFit (ticks : ℕ) (tp : ReassCb) : Prop :=
  ∀ q ∈ tp.tSegq, ticks < tp.tqeTicks q.tqe + 2 ^ 32

theorem calloutFor_pos (ticks : ℕ) {delta : ℕ} (h : 0 < delta) :
    ∃ t, calloutFor ticks delta = { cTime := some t, active := true } ∧ t ≤ ticks + delta := by
  refine ⟨ticks + if delta < 2 ^ 31 then delta else 1, ?_, ?_⟩
  · rw [calloutFor, if_neg (by omega)]
  · split_ifs <;> omega

variable {ages : List Tqe} {tp : ReassCb} {D ticks : ℕ}

/-- Arming for the head of the age list is right for the whole queue. -/
theorem timerSound_of_calloutFor (h : AgeOrdered ticks tp ages) (hD : tp.tpReassdl = D)
    (hfit : AgesFit ticks tp)
    (hc : tp.ttReassdl = calloutFor ticks (tp.tcpReassNextHoleDeadline ticks)) :
    TimerSound D ticks tp := by
  cases hages : ages with
  | nil =>
    have hq := h.eq_nil_iff.mp hages
    have hfirst : tp.tSegageq.first = none := by rw [h.linked.list.first_eq, hages]; rfl
    have hnext : tp.tcpReassNextHoleDeadline ticks = 0 := by
      simp [ReassCb.tcpReassNextHoleDeadline, hfirst]
    have hcallout : tp.ttReassdl = { cTime := none, active := false } := by
      rw [hc, hnext, calloutFor, if_pos rfl]
    refine ⟨by rw [hcallout]; rfl, fun _ => by rw [hcallout], ?_⟩
    intro q hm
    rw [hq] at hm
    cases hm
  | cons a l =>
    subst hages
    have hfirst : tp.tSegageq.first = some a := h.linked.list.first_eq
    obtain ⟨q₀, hq₀, heq⟩ := h.exists_entry (List.mem_cons_self : tp.tqeTicks a ∈ _)
    have hpast := h.past _ (List.mem_cons_self : tp.tqeTicks a ∈ _)
    have hwrap := hfit q₀ hq₀
    rw [heq] at hwrap
    have hage := age_eq tp ticks a hpast hwrap
    have hnext : 0 < tp.tcpReassNextHoleDeadline ticks ∧
        ticks + tp.tcpReassNextHoleDeadline ticks ≤ max (tp.tqeTicks a + D) (ticks + 1) := by
      simp only [ReassCb.tcpReassNextHoleDeadline, hfirst, hage, hD]
      split_ifs <;> omega
    obtain ⟨t, ht, hle⟩ := calloutFor_pos ticks hnext.1
    rw [← hc] at ht
    refine ⟨by rw [ht]; rfl, ?_, ?_⟩
    · intro hnil
      rw [hnil] at hq₀
      cases hq₀
    · intro q hm
      have hmem := h.mem_times hm
      have hfirst_le : tp.tqeTicks a ≤ tp.tqeTicks q.tqe := by
        rcases List.mem_cons.mp hmem with he | hm'
        · exact he.symm.le
        · exact (List.pairwise_cons.mp h.sorted).1 _ hm'
      exact ⟨t, by rw [ht], by omega⟩

theorem presentLoop_ttReassdl (l : List TsegQent) (s : Present) :
    (presentLoop l s).tp.ttReassdl = s.tp.ttReassdl := by
  induction l generalizing s with
  | nil => rfl
  | cons q rest ih =>
    unfold presentLoop
    split_ifs with hseq
    · rw [ih, presentEntry_tp]
      rfl
    · rfl

/-- After a call the timer has just been set for the head of the age list, or
it was active and is left as it was. -/
def TimerSetOrKept (tp tp' : ReassCb) (ticks : ℕ) : Prop :=
  tp'.ttReassdl = calloutFor ticks (tp'.tcpReassNextHoleDeadline ticks) ∨
    (tp'.ttReassdl = tp.ttReassdl ∧ tp.ttReassdl.active = true ∧
      tp'.tcpReassNextHoleDeadline ticks ≠ 0)

theorem presentFinish_timer (s : Present) (ticks : ℕ) :
    TimerSetOrKept s.tp (presentFinish s ticks).1 ticks := by
  have hset : ∀ tp : ReassCb, tp.ttReassdl = s.tp.ttReassdl → TimerSetOrKept s.tp
      (if !tp.ttReassdl.active || tp.tcpReassNextHoleDeadline ticks == 0 then
        tp.tcpTimerActivate ticks (tp.tcpReassNextHoleDeadline ticks) else tp) ticks := by
    intro tp htp
    split_ifs with hc
    · exact Or.inl rfl
    · simp only [Bool.or_eq_true, Bool.not_eq_true', beq_iff_eq, not_or, Bool.not_eq_false] at hc
      exact Or.inr ⟨htp, htp ▸ hc.1, hc.2⟩
  unfold presentFinish
  dsimp only
  split
  · exact hset (replaceTqs s.tp _) rfl
  · exact hset s.tp rfl

section

variable (hest : tp.tState.haveEstablished = true) (hpas : tp.inpPassive = true) (ticks : ℕ)
include hest hpas

theorem tcpReassPresent_timer (leadingHole replace : Bool) :
    (tp.tSegq = [] ∧ (tcpReassPresent tp ticks leadingHole replace).1 = tp) ∨
      TimerSetOrKept tp (tcpReassPresent tp ticks leadingHole replace).1 ticks := by
  obtain ⟨hno, he⟩ | ⟨q, rest, -, -, -, -, he⟩ | ⟨q, rest, -, -, hseq, he⟩ :=
    tcpReassPresent_cases tp ticks leadingHole replace
  · refine Or.inl ⟨?_, by rw [he]⟩
    simpa [hest] using hno
  · rw [he, if_pos hpas]
    exact Or.inr (Or.inl rfl)
  · have hkeep : (presentLoop rest
        (presentEntry (presentStart tp q leadingHole replace) q rest)).tp.ttReassdl =
        tp.ttReassdl := by
      rw [presentLoop_ttReassdl, presentEntry_tp, presentStart_tp tp q leadingHole replace hseq]
      rfl
    have hfin := presentFinish_timer (presentLoop rest
      (presentEntry (presentStart tp q leadingHole replace) q rest)) ticks
    rw [he]
    rcases hfin with hset | ⟨hk, hact, hne⟩
    · exact Or.inr (Or.inl hset)
    · rw [hkeep] at hk hact
      exact Or.inr (Or.inr ⟨hk, hact, hne⟩)

theorem tcpReass_timer (alloc : Option ℕ) (th : Option Segment) :
    (tp.tSegq = [] ∧ (tcpReass tp ticks alloc th).1 = tp) ∨
      TimerSetOrKept tp (tcpReass tp ticks alloc th).1 ticks := by
  cases th with
  | none => exact tcpReassPresent_timer hest hpas ticks false false
  | some th =>
    obtain ⟨-, hno, -⟩ | ⟨-, -, he⟩ | ⟨-, th', -, he⟩ := tcpReass_cases tp ticks alloc th
    · rw [hpas] at hno
      cases hno
    · rw [congrArg Prod.fst he]
      exact tcpReassPresent_timer hest hpas ticks _ _
    · rw [congrArg Prod.fst he]
      have heq := queueSegment_eq tp ticks alloc th th'
      have hest' : (queueSegment tp ticks alloc th th').tState.haveEstablished = true := by
        rw [heq]
        exact hest
      have hpas' : (queueSegment tp ticks alloc th th').inpPassive = true := by
        rw [heq]
        exact hpas
      have ht := tcpReassPresent_timer hest' hpas' ticks (shortOfResources tp alloc th)
        (!(splitQueue tp th).1.isEmpty && tp.inpPassive && alloc.isNone)
      rcases ht with ⟨hnil, -⟩ | ht
      · rw [heq] at hnil
        simp at hnil
      · refine Or.inr ?_
        rcases ht with hset | ⟨hk, hact, hne⟩
        · exact Or.inl hset
        · have hsame : (queueSegment tp ticks alloc th th').ttReassdl = tp.ttReassdl := by
            rw [heq]
          rw [hsame] at hk hact
          exact Or.inr ⟨hk, hact, hne⟩

end

structure Observing (D : ℕ) (tp : ReassCb) : Prop where
  passive : tp.inpPassive = true
  est : tp.tState.haveEstablished = true
  deadline : tp.tpReassdl = D

theorem Observing.congr {tp' : ReassCb} (hs : tp.SameData tp') (h : Observing D tp) :
    Observing D tp' :=
  ⟨hs.inpPassive.trans h.passive, by rw [hs.tState]; exact h.est, hs.tpReassdl.trans h.deadline⟩

theorem Observing.tcpReass {D : ℕ} {tp : ReassCb} (h : Observing D tp) (ticks : ℕ)
    (alloc : Option ℕ) (th : Option Segment) : Observing D (tcpReass tp ticks alloc th).1 := by
  cases th with
  | none =>
    exact tcpReassPresent_rule (fun _ _ => congr)
      (fun _ _ _ h' _ _ => { h' with }) h ticks false false (by simp)
  | some th =>
    refine tcpReass_rule (fun _ _ => congr)
      (fun _ _ _ h' _ _ => { h' with })
      (fun _ _ _ h' _ _ => { h' with }) h ticks alloc th fun th' _ => ?_
    rw [queueSegment_eq]
    exact { h with }

theorem finHoleState_haveEstablished (s : TcpState) (h : s.haveEstablished = true) :
    (finHoleState s).haveEstablished = true := by
  cases s <;> first | rfl | exact h

theorem Observing.tcpReassDeliverHoles {D : ℕ} {tp : ReassCb} (h : Observing D tp) (ticks : ℕ) :
    Observing D (tcpReassDeliverHoles tp ticks) := by
  refine tcpReassDeliverHoles_rule (fun _ _ => congr) ?_ h ticks
  intro tp q rest h' _
  rw [deliverHolesEntry_eq]
  refine { h' with est := ?_ }
  dsimp only
  split_ifs
  · exact finHoleState_haveEstablished _ h'.est
  · exact h'.est

structure DeadlineInv (D : ℕ) (s : TimedReass) : Prop where
  observing : Observing D s.tp
  ordered : ∃ ages, AgeOrdered s.ticks s.tp ages
  timer : TimerSound D s.ticks s.tp

/-- A call that keeps the lists in step and sets or keeps the timer. -/
theorem timerSound_of_call {tp' : ReassCb} {ages' : List Tqe} (h : AgeOrdered ticks tp ages)
    (ht : TimerSound D ticks tp) (hfit : AgesFit ticks tp) (h' : AgeOrdered ticks tp' ages')
    (hD : tp'.tpReassdl = D) (hmem : ∀ τ ∈ tp'.times ages', τ ∈ tp.times ages ∨ τ = ticks)
    (hset : TimerSetOrKept tp tp' ticks) : TimerSound D ticks tp' := by
  have hold : ∀ q' ∈ tp'.tSegq, (∃ q ∈ tp.tSegq, tp.tqeTicks q.tqe = tp'.tqeTicks q'.tqe) ∨
      tp'.tqeTicks q'.tqe = ticks := by
    intro q' hq'
    rcases hmem _ (h'.mem_times hq') with hm | hm
    · exact Or.inl (h.exists_entry hm)
    · exact Or.inr hm
  rcases hset with hset | ⟨hkeep, hact, hne⟩
  · refine timerSound_of_calloutFor h' hD ?_ hset
    intro q' hq'
    rcases hold q' hq' with ⟨q, hq, he⟩ | he
    · have := hfit q hq
      omega
    · omega
  · -- the timer was pending, so the queue was not empty before the call
    have hpend : tp.ttReassdl.cTime.isSome = true := by rw [← ht.flag]; exact hact
    obtain ⟨q₀, hq₀⟩ : ∃ q₀, q₀ ∈ tp.tSegq := by
      cases hq : tp.tSegq with
      | nil =>
        rw [ht.idle hq] at hpend
        cases hpend
      | cons q rest => exact ⟨q, by simp⟩
    refine ⟨by rw [hkeep]; exact ht.flag, ?_, ?_⟩
    · intro hnil
      have hages := h'.eq_nil_iff.mpr hnil
      have hfirst : tp'.tSegageq.first = none := by rw [h'.linked.list.first_eq, hages]; rfl
      exact absurd (by simp [ReassCb.tcpReassNextHoleDeadline, hfirst]) hne
    · intro q' hq'
      rcases hold q' hq' with ⟨q, hq, he⟩ | he
      · obtain ⟨t, htime, hle⟩ := ht.armed q hq
        exact ⟨t, by rw [hkeep]; exact htime, by rw [← he]; exact hle⟩
      · obtain ⟨t, htime, hle⟩ := ht.armed q₀ hq₀
        have hpast := h.past _ (h.mem_times hq₀)
        exact ⟨t, by rw [hkeep]; exact htime, by omega⟩

def SomeExpired (D ticks : ℕ) (tp : ReassCb) : Prop :=
  ∃ q ∈ tp.tSegq, D ≤ tp.age ticks q.tqe

def TimedOp.KeepsDeadline (D : ℕ) (s : TimedReass) : TimedOp → Prop
  | .reass alloc (some th) => AgesFit s.ticks s.tp ∧ Fresh s.tp alloc ∧ SegmentSafe s.tp alloc th
  | .reass _ none => AgesFit s.ticks s.tp
  | .advance _ => True
  | .fire => AgesFit s.ticks s.tp ∧ (s.tp.tSegq = [] ∨ SomeExpired D s.ticks s.tp)

theorem furthestExpired_isSome (hD : tp.tpReassdl = D) (h : SomeExpired D ticks tp) :
    ∃ p, furthestExpired tp ticks = some p := by
  obtain ⟨q, hq, hexp⟩ := h
  have hne : tp.tSegq.filter (fun q => tp.tpReassdl ≤ tp.age ticks q.tqe) ≠ [] := by
    intro hnil
    have := List.filter_eq_nil_iff.mp hnil q hq
    simp [hD, hexp] at this
  exact ⟨_, by rw [furthestExpired, List.getLast?_eq_some_getLast hne]; rfl⟩

theorem tcpReassDeliverHoles_tqeTicks (tp : ReassCb) (ticks : ℕ) :
    (tcpReassDeliverHoles tp ticks).tqeTicks = tp.tqeTicks := by
  unfold tcpReassDeliverHoles
  split
  · rfl
  · exact deliverHolesLoop_tqeTicks _ _ _ _

theorem tcpReassDeliverHoles_ownedFrom (h : AgeOrdered ticks tp ages) :
    OwnedFrom (tp.times ages ++ [ticks]) (tcpReassDeliverHoles tp ticks) := by
  obtain ⟨ages', hsub, hl, haddr⟩ := tcpReassDeliverHoles_linked ticks h.linked
  refine ⟨ages', hl, fun hm => h.noTqs (haddr.subset hm), ?_⟩
  rw [ReassCb.times, tcpReassDeliverHoles_tqeTicks]
  exact (hsub.map _).trans (List.sublist_append_left _ _)

/-- The timer goes off with something expired: it is set again for what is
left. -/
theorem deliverHoles_timerSound (ho : Observing D tp) (h : AgeOrdered ticks tp ages)
    (hfit : AgesFit ticks tp) (hexp : SomeExpired D ticks tp) :
    (∃ ages', AgeOrdered ticks (tcpReassDeliverHoles tp ticks) ages') ∧
      TimerSound D ticks (tcpReassDeliverHoles tp ticks) := by
  obtain ⟨p, hp⟩ := furthestExpired_isSome ho.deadline hexp
  obtain ⟨ages', h', hmem⟩ := h.of_ownedFrom (tcpReassDeliverHoles_ownedFrom h)
  refine ⟨⟨ages', h'⟩, ?_⟩
  refine timerSound_of_calloutFor h' (ho.tcpReassDeliverHoles ticks).deadline ?_ ?_
  · intro q' hq'
    rcases hmem _ (h'.mem_times hq') with hm | hm
    · obtain ⟨q, hq, he⟩ := h.exists_entry hm
      have := hfit q hq
      omega
    · omega
  · simp only [tcpReassDeliverHoles, hp]
    rfl

theorem reass_ownedFrom {s : TimedReass} {alloc : Option ℕ} {th : Option Segment}
    (h : AgeOrdered s.ticks s.tp ages) (hop : (TimedOp.reass alloc th).KeepsDeadline D s) :
    OwnedFrom (s.tp.times ages ++ [s.ticks]) (tcpReass s.tp s.ticks alloc th).1 := by
  cases th with
  | none =>
    exact (tcpReassPresent_owned h.linked h.noTqs s.ticks false).mono
      (List.sublist_append_left _ _)
  | some th => exact tcpReass_owned h.linked h.noTqs s.ticks hop.2.1 hop.2.2

theorem deadlineInv_step (s : TimedReass) (op : TimedOp) (h : DeadlineInv D s)
    (hop : op.KeepsDeadline D s) : DeadlineInv D (s.step op) := by
  obtain ⟨ages, hord⟩ := h.ordered
  cases op with
  | reass alloc th =>
    have hobs := h.observing.tcpReass s.ticks alloc th
    have hfit : AgesFit s.ticks s.tp := by
      cases th with
      | none => exact hop
      | some th => exact hop.1
    obtain ⟨ages', hord', hmem⟩ := hord.of_ownedFrom (reass_ownedFrom hord hop)
    refine ⟨hobs, ⟨ages', hord'⟩, ?_⟩
    rcases tcpReass_timer h.observing.est h.observing.passive s.ticks alloc th with
      ⟨-, he⟩ | hset
    · simp only [TimedReass.step, he]
      exact h.timer
    · exact timerSound_of_call hord h.timer hfit hord' hobs.deadline hmem hset
  | advance d =>
    refine ⟨h.observing, ⟨ages, hord.advance d⟩, h.timer.flag, h.timer.idle, ?_⟩
    intro q hq
    obtain ⟨t, ht, hle⟩ := h.timer.armed q hq
    refine ⟨t, ht, hle.trans ?_⟩
    simp only [TimedReass.step]
    omega
  | fire =>
    simp only [TimedReass.step]
    cases hc : s.tp.ttReassdl.cTime with
    | none => exact h
    | some t =>
      dsimp only
      split_ifs with hdue
      · have hact : s.tp.ttReassdl.active = true := by rw [h.timer.flag, hc]; rfl
        have hne : s.tp.tSegq ≠ [] := by
          intro hnil
          rw [h.timer.idle hnil] at hc
          cases hc
        have hexp := hop.2.resolve_left hne
        have hobs := h.observing.congr (.timer s.tp { cTime := none, active := false })
        have hcall := deliverHoles_timerSound hobs (hord.timer _) hop.1 hexp
        simp only [tcpTimerReassdl, hact, if_true]
        exact ⟨hobs.tcpReassDeliverHoles s.ticks, hcall.1, hcall.2⟩
      · exact h

theorem deliverHolesLoop_suffix (p : Tqe) (l : List TsegQent) (contiguous : Bool) (tp : ReassCb)
    (hl : tp.tSegq = l) : (deliverHolesLoop p l contiguous tp).tSegq <:+ l := by
  induction l generalizing contiguous tp with
  | nil => simp [deliverHolesLoop, hl]
  | cons q rest ih =>
    unfold deliverHolesLoop
    split_ifs with hgap
    · rw [hl]
    · have hq' : (deliverHolesEntry tp q rest).tSegq = rest := by rw [deliverHolesEntry_eq]
      exact (ih _ _ hq').trans (List.suffix_cons _ _)

/-- The loop does not stop before it has delivered the entry `p`. -/
theorem deliverHolesLoop_past (l₁ l₂ : List TsegQent) (p : TsegQent) (tp : ReassCb)
    (hl : tp.tSegq = l₁ ++ p :: l₂) (hp : ∀ q ∈ l₁, q.tqe ≠ p.tqe) :
    (deliverHolesLoop p.tqe (l₁ ++ p :: l₂) false tp).tSegq <:+ l₂ := by
  induction l₁ generalizing tp with
  | nil =>
    have hq' : (deliverHolesEntry tp p l₂).tSegq = l₂ := by rw [deliverHolesEntry_eq]
    simpa [deliverHolesLoop] using deliverHolesLoop_suffix p.tqe l₂ true _ hq'
  | cons q l₁ ih =>
    have hq' : (deliverHolesEntry tp q (l₁ ++ p :: l₂)).tSegq = l₁ ++ p :: l₂ := by
      rw [deliverHolesEntry_eq]
    have hne : (q.tqe == p.tqe) = false := by simpa using hp q (by simp)
    simpa [deliverHolesLoop, hne] using ih _ hq' fun a ha => hp a (by simp [ha])

theorem filter_getLast_split {α : Type*} (f : α → Bool) (l : List α) (a : α)
    (h : (l.filter f).getLast? = some a) :
    ∃ l₁ l₂, l = l₁ ++ a :: l₂ ∧ ∀ b ∈ l₂, f b = false := by
  induction l with
  | nil => simp at h
  | cons c l ih =>
    by_cases hnil : l.filter f = []
    · by_cases hc : f c = true
      · obtain rfl : c = a := by simpa [List.filter_cons, hc, hnil] using h
        exact ⟨[], l, rfl, by simpa using List.filter_eq_nil_iff.mp hnil⟩
      · simp [hc, hnil] at h
    · have h' : (l.filter f).getLast? = some a := by
        rw [List.filter_cons] at h
        split_ifs at h
        · rwa [List.getLast?_cons_of_ne_nil hnil] at h
        · exact h
      obtain ⟨l₁, l₂, rfl, hl₂⟩ := ih h'
      exact ⟨c :: l₁, l₂, rfl, hl₂⟩

theorem tcpReassDeliverHoles_unexpired (h : AgeOrdered ticks tp ages) (hD : tp.tpReassdl = D)
    (hexp : SomeExpired D ticks tp) :
    ∀ q ∈ (tcpReassDeliverHoles tp ticks).tSegq, q ∈ tp.tSegq ∧ tp.age ticks q.tqe < D := by
  obtain ⟨a, ha⟩ := furthestExpired_isSome hD hexp
  obtain ⟨p, hlast, rfl⟩ := Option.map_eq_some_iff.mp ha
  obtain ⟨l₁, l₂, hsplit, hfresh⟩ := filter_getLast_split _ _ _ hlast
  have hnd := h.linked.nodup
  rw [ReassCb.addrs, hsplit, List.map_append, List.map_cons, List.nodup_append] at hnd
  have hne : ∀ q ∈ l₁, q.tqe ≠ p.tqe := fun q hq =>
    hnd.2.2 _ (List.mem_map_of_mem hq) _ List.mem_cons_self
  have hsuf : (tcpReassDeliverHoles tp ticks).tSegq <:+ l₂ := by
    have hpast := deliverHolesLoop_past l₁ l₂ p tp hsplit hne
    rw [← hsplit] at hpast
    simp only [tcpReassDeliverHoles, ha]
    exact hpast
  intro q hq
  have hmem := hsuf.subset hq
  refine ⟨by rw [hsplit]; simp [hmem], ?_⟩
  simpa [hD] using hfresh q hmem

def TimedOp.Timely (D : ℕ) (s : TimedReass) : TimedOp → Prop
  | .reass _ _ => ∀ q ∈ s.tp.tSegq, s.ticks ≤ s.tp.tqeTicks q.tqe + D
  | .advance d => ∀ t, s.tp.ttReassdl.cTime = some t → s.ticks + d ≤ t
  | .fire => True

/-- The timer is pending within a tick of every deadline, and no entry is older
than that. -/
structure PromptInv (D : ℕ) (s : TimedReass) : Prop extends DeadlineInv D s where
  pending : ∀ q ∈ s.tp.tSegq, ∀ t, s.tp.ttReassdl.cTime = some t →
    t ≤ s.tp.tqeTicks q.tqe + D + 1
  age : ∀ q ∈ s.tp.tSegq, s.ticks ≤ s.tp.tqeTicks q.tqe + D + 1

/-- If no entry is past its deadline, an armed timer is prompt. -/
theorem DeadlineInv.prompt {s : TimedReass} (h : DeadlineInv D s)
    (hage : ∀ q ∈ s.tp.tSegq, s.ticks ≤ s.tp.tqeTicks q.tqe + D) : PromptInv D s := by
  refine ⟨h, ?_, fun q hq => (hage q hq).trans (Nat.le_succ _)⟩
  intro q hq t ht
  obtain ⟨t', ht', hle⟩ := h.timer.armed q hq
  have hq' := hage q hq
  rw [ht] at ht'
  obtain rfl := Option.some.inj ht'
  omega

theorem promptInv_step (s : TimedReass) (op : TimedOp) (h : PromptInv D s)
    (hop : op.KeepsDeadline D s ∧ op.Timely D s) : PromptInv D (s.step op) := by
  have hnext := deadlineInv_step s op h.toDeadlineInv hop.1
  obtain ⟨ages, hord⟩ := h.ordered
  cases op with
  | reass alloc th =>
    have htimely : ∀ q ∈ s.tp.tSegq, s.ticks ≤ s.tp.tqeTicks q.tqe + D := hop.2
    obtain ⟨ages', hord', hmem⟩ := hord.of_ownedFrom (reass_ownedFrom hord hop.1)
    refine hnext.prompt ?_
    intro q' hq'
    change s.ticks ≤ _
    rcases hmem _ (hord'.mem_times hq') with hm | hm
    · obtain ⟨q, hq, he⟩ := hord.exists_entry hm
      have := htimely q hq
      simp only [TimedReass.step]
      omega
    · simp only [TimedReass.step]
      omega
  | advance d =>
    refine ⟨hnext, h.pending, ?_⟩
    intro q hq
    obtain ⟨t, ht, -⟩ := h.timer.armed q hq
    exact (hop.2 t ht).trans (h.pending q hq t ht)
  | fire =>
    simp only [TimedReass.step] at hnext ⊢
    cases hc : s.tp.ttReassdl.cTime with
    | none => exact h
    | some t =>
      rw [hc] at hnext
      dsimp only at hnext ⊢
      split_ifs at hnext ⊢ with hdue
      · refine hnext.prompt ?_
        have hact : s.tp.ttReassdl.active = true := by rw [h.timer.flag, hc]; rfl
        have hne : s.tp.tSegq ≠ [] := by
          intro hnil
          rw [h.timer.idle hnil] at hc
          cases hc
        have hexp := hop.1.2.resolve_left hne
        have hleft := tcpReassDeliverHoles_unexpired
          (hord.timer { cTime := none, active := false }) h.observing.deadline hexp
        simp only [tcpTimerReassdl, hact, if_true, tcpReassDeliverHoles_tqeTicks]
        intro q hq
        obtain ⟨hmem, hlt⟩ := hleft q hq
        have hlt' : s.tp.age s.ticks q.tqe < D := hlt
        rw [age_eq s.tp s.ticks q.tqe (hord.past _ (hord.mem_times hmem)) (hop.1.1 q hmem)] at hlt'
        omega
      · exact h

structure DeadlineStart (D : ℕ) (s : TimedReass) : Prop where
  observing : Observing D s.tp
  queue : s.tp.tSegq = []
  owned : s.tp.Owned
  timer : s.tp.ttReassdl = {}

theorem DeadlineStart.promptInv {s : TimedReass} (h : DeadlineStart D s) : PromptInv D s := by
  obtain ⟨⟨ages, hl⟩, hn⟩ := h.owned
  have haddrs : s.tp.addrs = [] := by simp [ReassCb.addrs, h.queue]
  have hages : ages = [] := by
    have hp := hl.perm
    rw [haddrs] at hp
    exact hp.eq_nil
  subst hages
  refine ⟨⟨h.observing, ⟨[], hl, hn, by simp [ReassCb.times], by simp [ReassCb.times]⟩,
    by rw [h.timer]; rfl, fun _ => by rw [h.timer], ?_⟩, ?_, ?_⟩ <;> simp [Armed, h.queue]

end Libuinet
