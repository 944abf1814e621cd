import Libuinet.Execution
import Libuinet.ReassOwnership
import Libuinet.ReassWindow

namespace Libuinet

open Execution SerialArith

def Carried (rcvd : List Segment) (seq : TcpSeq) (b : UInt8) : Prop :=
  ∃ th ∈ rcvd, ∃ j, (chainView th.m)[j]? = some (.data b) ∧ seq = th.thSeq + BitVec.ofNat 32 j

/-- A segment as it comes from the wire: `tlen` bytes, without holes. -/
structure Segment.Plain (th : Segment) : Prop where
  noHole : ∀ m ∈ th.m, m.mHole = false
  len : chainLen th.m = th.tlen

/-- All of the segment `th` has been received at its place. -/
structure Segment.CarriedBy (rcvd : List Segment) (th : Segment) : Prop extends th.Plain where
  bytes : ∀ j < th.tlen, ∃ b, (chainView th.m)[j]? = some (.data b) ∧
    Carried rcvd (th.thSeq + BitVec.ofNat 32 j) b

variable {rcvd : List Segment} {tp : ReassCb} {th : Segment}

theorem Carried.mono {rcvd' : List Segment} (h : rcvd ⊆ rcvd') {seq : TcpSeq} {b : UInt8}
    (hc : Carried rcvd seq b) : Carried rcvd' seq b := by
  obtain ⟨th, hm, j, hj⟩ := hc
  exact ⟨th, h hm, j, hj⟩

theorem Segment.CarriedBy.mono {rcvd rcvd' : List Segment} (h : rcvd ⊆ rcvd') {th : Segment}
    (hc : th.CarriedBy rcvd) : th.CarriedBy rcvd' := by
  refine ⟨hc.toPlain, fun j hj => ?_⟩
  obtain ⟨b, hb, hcar⟩ := hc.bytes j hj
  exact ⟨b, hb, hcar.mono h⟩

theorem Segment.Plain.carriedBy (h : th.Plain) (hm : th ∈ rcvd) : th.CarriedBy rcvd := by
  refine ⟨h, fun j hj => ?_⟩
  have hlt : j < (chainView th.m).length := by
    rw [chainView_length, h.len]
    exact hj
  obtain ⟨b, hb⟩ := chainView_plain th.m h.noHole _ (List.getElem_mem hlt)
  have hget : (chainView th.m)[j]? = some (.data b) := by rw [List.getElem?_eq_getElem hlt, hb]
  exact ⟨b, hget, th, hm, j, hget, rfl⟩

/-- What is left of a received segment is received. -/
theorem Segment.TrimmedTo.carriedBy {th' : Segment} {i : ℕ} (ht : th.TrimmedTo th' i)
    (h : th.CarriedBy rcvd) : th'.CarriedBy rcvd := by
  have hi := ht.le
  have hview : chainView th'.m = (chainView th.m).drop i := by
    rw [ht.data]
    split_ifs with h0
    · simp [h0]
    · exact chainView_mAdj_head th.m i
  refine ⟨⟨?_, ?_⟩, fun j hj => ?_⟩
  · rw [ht.data]
    split_ifs with h0
    · exact h.noHole
    · exact mAdj_plain th.m i h.noHole
  · rw [← chainView_length, hview, List.length_drop, chainView_length, h.len, ht.len]
  · rw [ht.len] at hj
    obtain ⟨b, hb, hcar⟩ := h.bytes (i + j) (by omega)
    refine ⟨b, by rw [hview, List.getElem?_drop, hb], ?_⟩
    rwa [ht.seq, add_assoc, ← BitVec.ofNat_add]

def QueueCarried (rcvd : List Segment) (tp : ReassCb) : Prop :=
  ∀ th ∈ tp.segments, th.CarriedBy rcvd

theorem QueueCarried.mono {rcvd rcvd' : List Segment} (h : rcvd ⊆ rcvd') {tp : ReassCb}
    (hq : QueueCarried rcvd tp) : QueueCarried rcvd' tp := fun th hth => (hq th hth).mono h

section

variable {q : TsegQent} {rest : List TsegQent} (h : QueueCarried rcvd tp)
  (hq : tp.tSegq = q :: rest)
include h hq

theorem QueueCarried.head : q.segment.CarriedBy rcvd := h _ (by simp [ReassCb.segments, hq])

theorem QueueCarried.tail : ∀ th ∈ rest.map TsegQent.segment, th.CarriedBy rcvd := by
  intro th hth
  apply h
  simp only [ReassCb.segments, hq, List.map_cons, List.mem_cons]
  exact Or.inr hth

end

/-- A property of segments that trimming keeps is kept by queueing. -/
theorem queueSegment_forall {P : Segment → Prop}
    (hP : ∀ th th' i, th.TrimmedTo th' i → P th → P th') {th' : Segment} (ticks : ℕ)
    (alloc : Option ℕ) (h : ∀ seg ∈ tp.segments, P seg) (hth : P th)
    (htrim : trimByPredecessor (splitQueue tp th).1.getLast? th = some th') :
    ∀ seg ∈ (queueSegment tp ticks alloc th th').segments, P seg := by
  obtain ⟨i, hi⟩ := trimByPredecessor_trimmed htrim
  have hold : ∀ q ∈ (splitQueue tp th).1 ++ (splitQueue tp th).2, P q.segment := by
    rw [splitQueue_append]
    exact fun q hq => h _ (List.mem_map_of_mem hq)
  intro seg hseg
  rw [queueSegment_eq] at hseg
  obtain ⟨q, hq, rfl⟩ := List.mem_map.mp hseg
  rcases List.mem_append.mp hq with hq | hq
  · exact hold q (by simp [hq])
  · rcases List.mem_cons.mp hq with rfl | hq
    · exact hP _ _ i hi hth
    · obtain ⟨q₀, hq₀, k, hk⟩ := trimSuccessors_trimmed _ _ q hq
      exact hP _ _ k hk (hold q₀ (by simp [hq₀]))

/-- Queueing a received segment queues received data only. -/
theorem queueSegment_carried {th' : Segment} (ticks : ℕ) (alloc : Option ℕ)
    (h : QueueCarried rcvd tp) (hth : th.CarriedBy rcvd)
    (htrim : trimByPredecessor (splitQueue tp th).1.getLast? th = some th') :
    QueueCarried rcvd (queueSegment tp ticks alloc th th') :=
  queueSegment_forall (fun _ _ _ ht hc => ht.carriedBy hc) ticks alloc h hth htrim

/-- Nothing but received bytes has been delivered since `rcv_nxt` was `r₀`. -/
structure NoInvention (r₀ : TcpSeq) (rcvd : List Segment) (tp : ReassCb) : Prop where
  active : tp.inpPassive = false
  queue : QueueCarried rcvd tp
  noHole : ∀ ms ∈ tp.handed, ∀ m ∈ ms, m.mHole = false
  passed : ∃ N, tp.rcvNxt = r₀ + BitVec.ofNat 32 N ∧
    ∀ k < N, ∃ b, Carried rcvd (r₀ + BitVec.ofNat 32 k) b

namespace NoInvention

variable {r₀ : TcpSeq} {rcvd : List Segment} {tp tp' : ReassCb}

theorem congr (hs : tp.SameData tp') (h : NoInvention r₀ rcvd tp) : NoInvention r₀ rcvd tp' := by
  refine ⟨hs.inpPassive.trans h.active, ?_, ?_, ?_⟩
  · rw [QueueCarried, hs.segments]
    exact h.queue
  · rw [hs.handed]
    exact h.noHole
  · rw [hs.rcvNxt]
    exact h.passed

theorem mono {rcvd' : List Segment} (hsub : rcvd ⊆ rcvd') (h : NoInvention r₀ rcvd tp) :
    NoInvention r₀ rcvd' tp := by
  obtain ⟨N, hN, hk⟩ := h.passed
  refine ⟨h.active, h.queue.mono hsub, h.noHole, N, hN, fun k hlt => ?_⟩
  obtain ⟨b, hb⟩ := hk k hlt
  exact ⟨b, hb.mono hsub⟩

/-- Delivering the entry at `rcv_nxt` passes the numbers it carries. -/
theorem popEntry {q : TsegQent} {rest : List TsegQent} (h : NoInvention r₀ rcvd tp)
    (hq : tp.tSegq = q :: rest) (hseq : q.thSeq = tp.rcvNxt) :
    NoInvention r₀ rcvd (tp.popEntry q rest) := by
  have hc := h.queue.head hq
  refine ⟨h.active, h.queue.tail hq, ?_, ?_⟩
  · intro ms hms
    simp only [ReassCb.popEntry, ReassCb.appendAll] at hms
    split_ifs at hms
    · exact h.noHole ms hms
    · rcases List.mem_append.mp hms with hms | hms
      · exact h.noHole ms hms
      · obtain rfl := List.mem_singleton.mp hms
        exact hc.noHole
  · obtain ⟨N, hN, hk⟩ := h.passed
    refine ⟨N + q.tqeLen, ?_, ?_⟩
    · simp only [ReassCb.popEntry]
      rw [hN, BitVec.ofNat_add, add_assoc]
    · intro k hlt
      by_cases hkN : k < N
      · exact hk k hkN
      · obtain ⟨b, -, hb⟩ := hc.bytes (k - N) (by
          change k - N < q.tqeLen
          omega)
        have hpos : q.segment.thSeq + BitVec.ofNat 32 (k - N) = r₀ + BitVec.ofNat 32 k := by
          change q.thSeq + _ = _
          rw [hseq, hN, add_assoc, ← BitVec.ofNat_add]
          congr 2
          omega
        exact ⟨b, hpos ▸ hb⟩

theorem queueSegment {th th' : Segment} (h : NoInvention r₀ rcvd tp) (ticks : ℕ)
    (alloc : Option ℕ) (hth : th.CarriedBy rcvd)
    (htrim : trimByPredecessor (splitQueue tp th).1.getLast? th = some th') :
    NoInvention r₀ rcvd (queueSegment tp ticks alloc th th') := by
  have hq := queueSegment_carried ticks alloc h.queue hth htrim
  rw [queueSegment_eq] at hq ⊢
  exact { h with queue := hq }

theorem tcpReass (h : NoInvention r₀ rcvd tp) (ticks : ℕ) (alloc : Option ℕ) {th : Segment}
    (hth : th.CarriedBy rcvd) : NoInvention r₀ rcvd (tcpReass tp ticks alloc (some th)).1 :=
  tcpReass_rule (fun _ _ => congr) (fun _ _ _ => popEntry)
    (fun _ _ _ h' _ hp => absurd hp (by simp [h'.active])) h ticks alloc th
    fun _ => h.queueSegment ticks alloc hth

end NoInvention

def NoneExpired (tp : ReassCb) (ticks : ℕ) : Prop :=
  ∀ q ∈ tp.tSegq, tp.age ticks q.tqe < tp.tpReassdl

theorem tcpReassDeliverHoles_of_noneExpired {ticks : ℕ} (h : NoneExpired tp ticks) :
    tcpReassDeliverHoles tp ticks = tp := by
  have hf : furthestExpired tp ticks = none := by
    rw [furthestExpired, List.filter_eq_nil_iff.mpr]
    · rfl
    · intro q hq
      simpa using h q hq
  simp [tcpReassDeliverHoles, hf]

theorem tcpTimerReassdl_of_noneExpired {ticks : ℕ} (h : NoneExpired tp ticks) :
    tp.SameData (tcpTimerReassdl tp ticks) := by
  unfold tcpTimerReassdl
  split_ifs
  · have h' : NoneExpired { tp with ttReassdl := { cTime := none, active := false } } ticks := h
    rw [tcpReassDeliverHoles_of_noneExpired h']
    exact .timer tp _
  · exact .timer tp _

def TimedOp.received : TimedOp → List Segment
  | .reass _ (some th) => [th]
  | _ => []

def TimedOp.Quiet (s : TimedReass) : TimedOp → Prop
  | .reass _ (some th) => th.Plain
  | .fire => NoneExpired s.tp s.ticks
  | _ => True

theorem noInvention_step {r₀ : TcpSeq} (h : List TimedOp) (s : TimedReass) (op : TimedOp)
    (hs : NoInvention r₀ (h.flatMap TimedOp.received) s.tp) (hop : op.Quiet s) :
    NoInvention r₀ ((h ++ [op]).flatMap TimedOp.received) (s.step op).tp := by
  have hmono : h.flatMap TimedOp.received ⊆ (h ++ [op]).flatMap TimedOp.received := by simp
  have hs' := hs.mono hmono
  cases op with
  | reass alloc th =>
    cases th with
    | none =>
      exact tcpReassPresent_rule (fun _ _ => NoInvention.congr)
        (fun _ _ _ => NoInvention.popEntry) hs' s.ticks false false (by simp)
    | some th =>
      have hp : th.Plain := hop
      exact hs'.tcpReass s.ticks alloc (hp.carriedBy (by simp [TimedOp.received]))
  | advance d => exact hs'
  | fire =>
    have hn : NoneExpired s.tp s.ticks := hop
    simp only [TimedReass.step]
    split
    · split_ifs
      · exact hs'.congr (tcpTimerReassdl_of_noneExpired hn)
      · exact hs'
    · exact hs'

/-- On an active connection whose deadline timer never finds an expired entry
no hole is appended, and `rcv_nxt` passes received sequence numbers only. -/
theorem active_no_invented_data (s : TimedReass) (ops : List TimedOp)
    (hact : s.tp.inpPassive = false) (hq : s.tp.tSegq = []) (hh : s.tp.handed = [])
    (hok : Along TimedReass.step TimedOp.Quiet s ops) :
    (∀ ms ∈ (run TimedReass.step s ops).tp.handed, ∀ m ∈ ms, m.mHole = false) ∧
    ∃ N, (run TimedReass.step s ops).tp.rcvNxt = s.tp.rcvNxt + BitVec.ofNat 32 N ∧
      ∀ k < N, ∃ b, Carried (ops.flatMap TimedOp.received)
        (s.tp.rcvNxt + BitVec.ofNat 32 k) b := by
  have h0 : NoInvention s.tp.rcvNxt (([] : List TimedOp).flatMap TimedOp.received) s.tp :=
    ⟨hact, by simp [QueueCarried, ReassCb.segments, hq], by simp [hh], 0, by simp, by simp⟩
  have h := run_history noInvention_step h0 hok
  exact ⟨h.noHole, h.passed⟩

/-- A segment in order is delivered and the timer has nothing to do. -/
theorem active_no_invented_data_in_order :
    let s := run TimedReass.step ⟨0, { rcvNxt := 0, inpPassive := false }⟩
      [.reass (some 0) (some ⟨0, false, 1, [Mbuf.ofBytes [7]]⟩), .advance 100, .fire]
    s.tp.rcvNxt = 1 ∧ ∀ ms ∈ s.tp.handed, ∀ m ∈ ms, m.mHole = false := by
  refine ⟨by decide, (active_no_invented_data _ _ rfl rfl rfl ?_).1⟩
  refine ⟨⟨by simp [Mbuf.ofBytes], rfl⟩, trivial, ?_, trivial⟩
  intro q hq
  have hnil : (TimedReass.step (TimedReass.step ⟨0, { rcvNxt := 0, inpPassive := false }⟩
      (.reass (some 0) (some ⟨0, false, 1, [Mbuf.ofBytes [7]]⟩))) (.advance 100)).tp.tSegq =
      [] := rfl
  rw [hnil] at hq
  cases hq

/-- With an entry left behind a gap, the delivery of the bytes before the gap
arms the timer, and 100 ticks later the gap is delivered as a hole. -/
theorem active_connection_gets_hole :
    let ops : List TimedOp := [.reass (some 0) (some ⟨10, false, 1, [Mbuf.ofBytes [7]]⟩),
      .reass (some 1) (some ⟨0, false, 1, [Mbuf.ofBytes [7]]⟩), .advance 100, .fire]
    let s := run TimedReass.step ⟨0, { rcvNxt := 0, inpPassive := false }⟩ ops
    (∃ ms ∈ s.tp.handed, ∃ m ∈ ms, m.mHole = true) ∧ s.tp.rcvNxt = 11 ∧
      ∀ b, ¬ Carried (ops.flatMap TimedOp.received) 5 b := by
  refine ⟨⟨[mGethole 9], ?_, mGethole 9, by simp, rfl⟩, by decide, ?_⟩
  · exact List.mem_of_mem_tail List.mem_cons_self
  · rintro b ⟨th, hth, j, hj, hseq⟩
    have hth' : th ∈ [(⟨10, false, 1, [Mbuf.ofBytes [7]]⟩ : Segment),
        ⟨0, false, 1, [Mbuf.ofBytes [7]]⟩] := hth
    have hlen : (chainView th.m).length = 1 := by
      rcases List.mem_pair.mp hth' with rfl | rfl <;> rfl
    obtain ⟨hlt, -⟩ := List.getElem?_eq_some_iff.mp hj
    obtain rfl : j = 0 := by omega
    rcases List.mem_pair.mp hth' with rfl | rfl <;> exact absurd hseq (by decide)

end Libuinet
