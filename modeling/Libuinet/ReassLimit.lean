import Libuinet.ReassFin
import Libuinet.ReassOwnership
import Libuinet.TcpPassive

namespace Libuinet

open Execution SerialArith

def ReassCb.segqLimit (tp : ReassCb) : ℤ := (tp.soRcv.sbHiwat.toNat / tp.tMaxseg : ℕ) + 1

variable {tp : ReassCb}

theorem queueLimitReached_iff : queueLimitReached tp = true ↔ tp.segqLimit ≤ tp.tSegqlen := by
  simp [queueLimitReached, ReassCb.segqLimit]

/-- The limit stays as it is, and the length grows by at most `n`. -/
structure ReassCb.GrowsBy (n : ℤ) (a b : ReassCb) : Prop where
  sbHiwat : b.soRcv.sbHiwat = a.soRcv.sbHiwat
  tMaxseg : b.tMaxseg = a.tMaxseg
  tSegqlen : b.tSegqlen ≤ a.tSegqlen + n

namespace ReassCb.GrowsBy

variable {n m : ℤ} {a b c : ReassCb}

theorem refl (a : ReassCb) : a.GrowsBy 0 a := ⟨rfl, rfl, by omega⟩

theorem trans (h : a.GrowsBy n b) (h' : b.GrowsBy m c) : a.GrowsBy (n + m) c := by
  refine ⟨h'.sbHiwat.trans h.sbHiwat, h'.tMaxseg.trans h.tMaxseg, ?_⟩
  have hab := h.tSegqlen
  have hbc := h'.tSegqlen
  omega

theorem mono (h : a.GrowsBy n b) (hnm : n ≤ m) : a.GrowsBy m b := by
  refine { h with tSegqlen := ?_ }
  have hab := h.tSegqlen
  omega

theorem segqLimit (h : a.GrowsBy n b) : b.segqLimit = a.segqLimit := by
  rw [ReassCb.segqLimit, ReassCb.segqLimit, h.sbHiwat, h.tMaxseg]

end ReassCb.GrowsBy

theorem foldl_sbappendstreamLocked_sbHiwat (l : List (List Mbuf)) (sb : Sockbuf) :
    (l.foldl sbappendstreamLocked sb).sbHiwat = sb.sbHiwat := by
  induction l generalizing sb with
  | nil => rfl
  | cons ms l ih => rw [List.foldl_cons, ih, sbappendstreamLocked_sameLimits sb ms]

@[simp] theorem ReassCb.appendAll_sbHiwat (tp : ReassCb) (l : List (List Mbuf)) :
    (tp.appendAll l).soRcv.sbHiwat = tp.soRcv.sbHiwat := by
  unfold appendAll
  dsimp only
  split_ifs
  · rfl
  · exact foldl_sbappendstreamLocked_sbHiwat l tp.soRcv

theorem presentEntry_shrinks (s : Present) (q : TsegQent) (rest : List TsegQent) :
    s.tp.GrowsBy (-1) (presentEntry s q rest).tp := by
  rw [presentEntry_tp]
  exact ⟨ReassCb.appendAll_sbHiwat _ _, rfl, le_refl _⟩

theorem presentLoop_shrinks (l : List TsegQent) (s : Present) :
    s.tp.GrowsBy 0 (presentLoop l s).tp := by
  induction l generalizing s with
  | nil => exact .refl _
  | cons q rest ih =>
    unfold presentLoop
    split_ifs
    · exact ((presentEntry_shrinks s q rest).trans (ih _)).mono (by omega)
    · exact .refl _

theorem presentFinish_shrinks (s : Present) (ticks : ℕ) :
    s.tp.GrowsBy 0 (presentFinish s ticks).1 := by
  have htimer : ∀ (tp : ReassCb) (b : Bool) (delta : ℕ),
      tp.GrowsBy 0 (if b then tp.tcpTimerActivate ticks delta else tp) := by
    intro tp b delta
    cases b
    · exact .refl tp
    · exact ⟨rfl, rfl, by simp [ReassCb.tcpTimerActivate]⟩
  unfold presentFinish
  dsimp only
  split
  · next n _ _ =>
    have hreplace : s.tp.GrowsBy 0 (replaceTqs s.tp n) := ⟨rfl, rfl, by simp [replaceTqs]⟩
    exact hreplace.trans (htimer _ _ _)
  · exact htimer _ _ _

/-- The part from `present` on delivers the first entry when the connection is established and that
is the one waited for, or the hole in front of it is delivered as well. -/
theorem tcpReassPresent_shrinks (tp : ReassCb) (ticks : ℕ) (leadingHole replace : Bool) :
    tp.GrowsBy 0 (tcpReassPresent tp ticks leadingHole replace).1 ∧
      (tp.tState.haveEstablished = true → ∀ q ∈ tp.tSegq.head?,
        q.thSeq = tp.rcvNxt ∨ leadingHole = true →
        tp.GrowsBy (-1) (tcpReassPresent tp ticks leadingHole replace).1) := by
  obtain ⟨hidle, he⟩ | ⟨q, rest, -, hq, hseq, hlead, he⟩ | ⟨q, rest, -, -, hseq, he⟩ :=
    tcpReassPresent_cases tp ticks leadingHole replace
  · rw [he]
    refine ⟨.refl tp, fun hest q hq => ?_⟩
    rcases hidle with hnot | hnil
    · rw [hest] at hnot
      cases hnot
    · simp [hnil] at hq
  · rw [he]
    refine ⟨?_, fun _ q' hq' hfirst => ?_⟩
    · dsimp only
      split_ifs
      · exact ⟨rfl, rfl, by simp [ReassCb.tcpTimerActivate]⟩
      · exact .refl tp
    · rw [hq, List.head?_cons, Option.mem_some_iff] at hq'
      subst hq'
      simp [hseq, hlead] at hfirst
  · have hstart : tp.GrowsBy 0 (presentStart tp q leadingHole replace).tp := by
      rw [presentStart_tp tp q leadingHole replace hseq]
      exact ⟨ReassCb.appendAll_sbHiwat _ _, rfl, by simp [ReassCb.appendAll]⟩
    have hall := ((hstart.trans (presentEntry_shrinks _ q rest)).trans
      (presentLoop_shrinks rest _)).trans (presentFinish_shrinks _ ticks)
    rw [← he] at hall
    exact ⟨hall.mono (by omega), fun _ _ _ _ => hall.mono (by omega)⟩

theorem tcpReassDeliverHoles_shrinks (tp : ReassCb) (ticks : ℕ) :
    tp.GrowsBy 0 (tcpReassDeliverHoles tp ticks) := by
  have hloop : ∀ p l contiguous (tp : ReassCb),
      tp.GrowsBy 0 (deliverHolesLoop p l contiguous tp) := by
    intro p l
    induction l with
    | nil => exact fun _ tp => .refl tp
    | cons q rest ih =>
      intro contiguous tp
      have hentry : tp.GrowsBy (-1) (deliverHolesEntry tp q rest) := by
        rw [deliverHolesEntry_eq]
        exact ⟨ReassCb.appendAll_sbHiwat _ _, rfl, le_refl _⟩
      unfold deliverHolesLoop
      split_ifs
      · exact .refl tp
      · exact (hentry.trans (ih _ _)).mono (by omega)
  unfold tcpReassDeliverHoles
  split
  · exact .refl tp
  · exact (hloop _ _ _ tp).trans (m := 0) ⟨rfl, rfl, by simp [ReassCb.tcpTimerActivate]⟩

theorem ReassCb.GrowsBy.foldl {f : ReassCb → TsegQent → ReassCb}
    (hf : ∀ (tp : ReassCb) q, tp.GrowsBy (-1) (f tp q)) (l : List TsegQent) :
    ∀ tp : ReassCb, tp.GrowsBy 0 (l.foldl f tp) := by
  induction l with
  | nil => exact .refl
  | cons q rest ih =>
    intro tp
    exact ((hf tp q).trans (ih _)).mono (by omega)

theorem tcpReassFlush_shrinks (tp : ReassCb) : tp.GrowsBy 0 (tcpReassFlush tp) := by
  apply ReassCb.GrowsBy.foldl
  intro tp q
  dsimp only
  split <;> exact ⟨rfl, rfl, le_refl _⟩

def ReassCb.FrontAhead (tp : ReassCb) : Prop :=
  ∀ q ∈ tp.tSegq.head?, q.thSeq = tp.rcvNxt ∨ seqGt q.thSeq tp.rcvNxt = true

/-- So it is while the entries lie in the receive window. -/
theorem InWindow.frontAhead {W : ℕ} (h : InWindow W tp.rcvNxt tp.tSegq) (hW : W < 2 ^ 31) :
    tp.FrontAhead := by
  intro q hq
  have hb := h.bound q (List.mem_of_mem_head? hq)
  by_cases hs : q.thSeq = tp.rcvNxt
  · exact Or.inl hs
  · have hpos : off tp.rcvNxt q.thSeq ≠ 0 := fun h0 => hs (off_eq_zero.mp h0)
    refine Or.inr ?_
    rw [seqGt_iff (r := tp.rcvNxt) hW (by omega) (by rw [off_self]; omega), off_self]
    omega

theorem queueSegment_growsBy (tp : ReassCb) (ticks : ℕ) (alloc : Option ℕ) (th th' : Segment) :
    tp.GrowsBy 1 (queueSegment tp ticks alloc th th') := by
  rw [queueSegment_eq]
  exact ⟨rfl, rfl, by dsimp only; omega⟩

/-- Once the segment at `rcv_nxt` is queued, the first entry begins there. -/
theorem queueSegment_head (ticks : ℕ) (alloc : Option ℕ) {th th' : Segment} (hfront : tp.FrontAhead)
    (hseq : th.thSeq = tp.rcvNxt)
    (htrim : trimByPredecessor (splitQueue tp th).1.getLast? th = some th') :
    ∃ q ∈ (queueSegment tp ticks alloc th th').tSegq.head?, q.thSeq = tp.rcvNxt := by
  rw [queueSegment_eq]
  dsimp only
  cases hpre : (splitQueue tp th).1 with
  | nil =>
    rw [hpre] at htrim
    obtain rfl : th = th' := Option.some.inj htrim
    exact ⟨_, rfl, hseq⟩
  | cons q pre =>
    -- an entry in front of the segment that is not before `rcv_nxt` begins there too
    have hq : q ∈ tp.tSegq.head? := by
      rw [← splitQueue_append tp th, hpre]
      rfl
    have hnot : seqGt q.thSeq th.thSeq = false :=
      mem_splitQueue_fst (hpre ▸ List.mem_cons_self)
    rw [hseq] at hnot
    refine ⟨q, rfl, (hfront q hq).resolve_right ?_⟩
    rw [hnot]
    exact Bool.false_ne_true

/-- A segment that finds the queue at its limit makes room in turn: a passive connection is
established by then, and nothing from before `rcv_nxt` is in the way of the segment found there. -/
structure RoomFor (tp : ReassCb) (th : Segment) : Prop where
  established : tp.segqLimit ≤ tp.tSegqlen → tp.inpPassive = true →
    tp.tState.haveEstablished = true
  front : tp.segqLimit ≤ tp.tSegqlen → th.thSeq = tp.rcvNxt → tp.FrontAhead

theorem tcpReass_bounded (h : tp.tSegqlen ≤ tp.segqLimit) (ticks : ℕ) (alloc : Option ℕ)
    {th : Segment} (hroom : RoomFor tp th) :
    ∃ n, tp.GrowsBy n (tcpReass tp ticks alloc (some th)).1 ∧ tp.tSegqlen + n ≤ tp.segqLimit := by
  obtain ⟨-, -, he⟩ | ⟨-, -, he⟩ | ⟨hpas, th', htrim, he⟩ := tcpReass_cases tp ticks alloc th
  · rw [he]
    exact ⟨0, .refl tp, by omega⟩
  · rw [congrArg Prod.fst he]
    exact ⟨0, (tcpReassPresent_shrinks tp ticks _ _).1, by omega⟩
  · rw [congrArg Prod.fst he]
    have hq := queueSegment_growsBy tp ticks alloc th th'
    obtain ⟨hkeep, htake⟩ := tcpReassPresent_shrinks (queueSegment tp ticks alloc th th') ticks
      (shortOfResources tp alloc th)
      (!(splitQueue tp th).1.isEmpty && tp.inpPassive && alloc.isNone)
    by_cases hlimit : tp.segqLimit ≤ tp.tSegqlen
    · -- the queue was full: an entry leaves again
      refine ⟨1 + -1, hq.trans ?_, by omega⟩
      have hrcv : (queueSegment tp ticks alloc th th').rcvNxt = tp.rcvNxt := by rw [queueSegment_eq]
      have hstate : (queueSegment tp ticks alloc th th').tState = tp.tState := by
        rw [queueSegment_eq]
      rw [hstate, hrcv] at htake
      by_cases hplace : outOfPlace tp th = true
      · have hshort : shortOfResources tp alloc th = true := by
          simp [shortOfResources, hplace, queueLimitReached_iff.mpr hlimit]
        have hne : (queueSegment tp ticks alloc th th').tSegq ≠ [] := by
          rw [queueSegment_eq]
          simp
        exact htake (hroom.established hlimit (hpas hshort)) _ (List.head?_eq_some_head hne)
          (Or.inr hshort)
      · have hin : th.thSeq = tp.rcvNxt ∧ tp.tState.haveEstablished = true := by
          simpa [outOfPlace] using hplace
        obtain ⟨q, hq', hfirst⟩ := queueSegment_head ticks alloc (hroom.front hlimit hin.1) hin.1
          htrim
        exact htake hin.2 q hq' (Or.inl hfirst)
    · exact ⟨1 + 0, hq.trans hkeep, by omega⟩

def ReassOp.KeepsLimit (tp : ReassCb) : ReassOp → Prop
  | .reass _ _ (some th) => RoomFor tp th
  | .outside _ _ _ tMaxseg soRcv => tMaxseg = tp.tMaxseg ∧ soRcv.sbHiwat = tp.soRcv.sbHiwat
  | _ => True

theorem ReassCb.step_bounded {op : ReassOp} (h : tp.tSegqlen ≤ tp.segqLimit)
    (hop : op.KeepsLimit tp) : ∃ n, tp.GrowsBy n (tp.step op) ∧ tp.tSegqlen + n ≤ tp.segqLimit := by
  cases op with
  | reass ticks alloc th =>
    cases th with
    | none => exact ⟨0, (tcpReassPresent_shrinks tp ticks false false).1, by omega⟩
    | some th => exact tcpReass_bounded h ticks alloc hop
  | deliverHoles ticks => exact ⟨0, tcpReassDeliverHoles_shrinks tp ticks, by omega⟩
  | flush => exact ⟨0, tcpReassFlush_shrinks tp, by omega⟩
  | outside tState inpPassive rcvNxt tMaxseg soRcv =>
    exact ⟨0, ⟨hop.2, hop.1, by simp [step]⟩, by omega⟩

/-- In a run from an empty queue in which the calls make room, the queue is never longer than its
limit. -/
theorem segqlen_le_limit (tp : ReassCb) (ops : List ReassOp) (hempty : tp.tSegqlen = 0)
    (hops : Along ReassCb.step (fun tp op => op.KeepsLimit tp) tp ops) :
    (run ReassCb.step tp ops).tSegqlen ≤ (tp.soRcv.sbHiwat.toNat / tp.tMaxseg : ℕ) + 1 := by
  have hstart : tp.tSegqlen ≤ tp.segqLimit ∧ tp.segqLimit = tp.segqLimit := by
    refine ⟨?_, rfl⟩
    rw [hempty, ReassCb.segqLimit]
    exact Int.add_nonneg (Int.natCast_nonneg _) Int.one_nonneg
  have hstep : ∀ (t : ReassCb) (op : ReassOp),
      t.tSegqlen ≤ t.segqLimit ∧ t.segqLimit = tp.segqLimit → op.KeepsLimit t →
        (t.step op).tSegqlen ≤ (t.step op).segqLimit ∧ (t.step op).segqLimit = tp.segqLimit := by
    rintro t op ⟨hle, hlimit⟩ hop
    obtain ⟨n, hgrow, hn⟩ := ReassCb.step_bounded hle hop
    have hlen := hgrow.tSegqlen
    rw [hgrow.segqLimit]
    exact ⟨by omega, hlimit⟩
  obtain ⟨hle, hlimit⟩ := run_invariant hstep hstart hops
  rw [hlimit] at hle
  exact hle

/-- A passive connection whose limit is one: the second segment makes the first one leave. -/
theorem segqlen_le_limit_one :
    let tp : ReassCb := { rcvNxt := 0, tMaxseg := 100000 }
    let ops := [ReassOp.reass 0 (some 0) (some ⟨5, false, 1, [Mbuf.ofBytes [7]]⟩),
      .reass 0 (some 1) (some ⟨10, false, 1, [Mbuf.ofBytes [7]]⟩)]
    (run ReassCb.step tp ops).rcvNxt = 6 ∧
      (run ReassCb.step tp ops).tSegqlen ≤ (tp.soRcv.sbHiwat.toNat / tp.tMaxseg : ℕ) + 1 := by
  intro tp ops
  have hfirst : RoomFor tp ⟨5, false, 1, [Mbuf.ofBytes [7]]⟩ :=
    ⟨fun _ _ => rfl, fun _ h => absurd h (by decide)⟩
  have hsecond : RoomFor (tp.step (.reass 0 (some 0) (some ⟨5, false, 1, [Mbuf.ofBytes [7]]⟩)))
      ⟨10, false, 1, [Mbuf.ofBytes [7]]⟩ :=
    ⟨fun _ _ => by decide, fun _ h => absurd h (by decide)⟩
  exact ⟨by decide, segqlen_le_limit tp ops rfl ⟨hfirst, hsecond, trivial⟩⟩

/-- The server end of a passive connection before the handshake is complete, with a limit of two.
Segments without an acknowledgment are queued one after the other. -/
theorem segqlen_exceeds_limit :
    (PassiveRole.server.start {} { scIrs := 0, scIss := 0, scWnd := 1000 }
        { sbHiwat := 1000 } {}).map (fun c =>
      let c' := run TcpResult.step c [.segment { umaZalloc := some 0 } (.ofBytes 1 {} [7]),
        .segment { umaZalloc := some 1 } (.ofBytes 2 {} [7]),
        .segment { umaZalloc := some 2 } (.ofBytes 3 {} [7])]
      (c.tp.tSegqlen, c'.tp.tState, c'.tp.segqLimit, c'.tp.tSegqlen)) =
      some (0, .synReceived, 2, 3) := by
  decide

end Libuinet
