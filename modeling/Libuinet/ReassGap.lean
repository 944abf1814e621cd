import Libuinet.ReassFin
import Libuinet.TcpPassive

namespace Libuinet

open SerialArith

/-- The receive side, without the age list, the zone and the timer.  `handed` is what `so_rcv` has
been given. -/
structure GapView where
  rcvNxt : TcpSeq
  tSegq : List TsegQent
  tSegqlen : ℤ
  sbCc : BitVec 32
  sbCantrcvmore : Bool
  tState : TcpState
  handed : List (List Mbuf)

def ReassCb.gapView (tp : ReassCb) : GapView where
  rcvNxt := tp.rcvNxt
  tSegq := tp.tSegq
  tSegqlen := tp.tSegqlen
  sbCc := tp.soRcv.sbCc
  sbCantrcvmore := tp.soRcv.sbCantrcvmore
  tState := tp.tState
  handed := tp.handed

def SameOrHole (ms ms' : List Mbuf) : Prop := ms = ms' ∨ ms = [mGethole (chainLen ms')]

namespace GapView

/-- The second has chains of the same length where the first has holes, and they agree on
everything else. -/
def FilledBy (g g' : GapView) : Prop :=
  ∃ l, g' = { g with handed := l } ∧ List.Forall₂ SameOrHole g.handed l

def append (g : GapView) (ms : List Mbuf) : GapView :=
  if g.sbCantrcvmore then g
  else { g with sbCc := g.sbCc + BitVec.ofNat 32 (chainLen ms), handed := g.handed ++ [ms] }

def pop (g : GapView) (q : TsegQent) (rest : List TsegQent) : GapView :=
  { g.append q.tqeM with
    rcvNxt := g.rcvNxt + BitVec.ofNat 32 q.tqeLen
    tSegq := rest
    tSegqlen := g.tSegqlen - 1 }

def fill (g : GapView) (q : TsegQent) (ms : List Mbuf) : GapView :=
  { g.append ms with rcvNxt := q.thSeq }

def hole (g : GapView) (q : TsegQent) : GapView :=
  if q.thSeq = g.rcvNxt then g else g.fill q [mGethole (off g.rcvNxt q.thSeq)]

def actOnFin (g : GapView) : GapView :=
  { g with rcvNxt := g.rcvNxt + 1, sbCantrcvmore := true, tState := finHoleState g.tState }

def settle (x : GapView × Bool) : GapView := if x.2 then x.1.actOnFin else x.1

def popRun : List TsegQent → GapView × Bool → GapView × Bool
  | [], x => x
  | q :: rest, x => if q.thSeq = x.1.rcvNxt then popRun rest (x.1.pop q rest, q.thFin) else x

def deliverLoop (p : Tqe) : List TsegQent → Bool → GapView × Bool → GapView × Bool
  | [], _, x => x
  | q :: rest, contiguous, x =>
    if contiguous && q.thSeq != x.1.rcvNxt then x
    else deliverLoop p rest (contiguous || q.tqe == p) ((x.1.hole q).pop q rest, q.thFin)

end GapView

theorem ReassCb.gapView_appendAll (tp : ReassCb) (ms : List Mbuf) :
    (tp.appendAll [ms]).gapView = tp.gapView.append ms := by
  unfold appendAll GapView.append gapView
  cases hc : tp.soRcv.sbCantrcvmore with
  | true => simp [hc]
  | false => simp [hc, sbappendstreamLocked_sbCc, sbappendstreamLocked_sbCantrcvmore]

theorem presentEntry_gapView (s : Present) (q : TsegQent) (rest : List TsegQent) :
    (presentEntry s q rest).tp.gapView = s.tp.gapView.pop q rest := by
  rw [presentEntry_tp, GapView.pop, ← ReassCb.gapView_appendAll]
  rfl

theorem presentLoop_gapView (l : List TsegQent) (s : Present) :
    ((presentLoop l s).tp.gapView, (presentLoop l s).flags) =
      GapView.popRun l (s.tp.gapView, s.flags) := by
  induction l generalizing s with
  | nil => rfl
  | cons q rest ih =>
    unfold presentLoop GapView.popRun
    by_cases hseq : q.thSeq = s.tp.rcvNxt
    · rw [if_pos hseq, if_pos (show q.thSeq = s.tp.gapView.rcvNxt from hseq), ih,
        presentEntry_gapView, presentEntry_flags]
    · rw [if_neg hseq, if_neg (show ¬ q.thSeq = s.tp.gapView.rcvNxt from hseq)]

/-- Without `tqs` in the queue nothing but the timer changes behind the loop. -/
theorem presentFinish_gapView (s : Present) (ticks : ℕ) (h : s.replaceTqsInList = false) :
    (presentFinish s ticks).1.gapView = s.tp.gapView := by
  unfold presentFinish
  rw [h]
  dsimp only
  split_ifs <;> rfl

variable {rest : List TsegQent} {q : TsegQent}

theorem tcpReassPresent_gapView {tp : ReassCb} (hest : tp.tState.haveEstablished = true)
    (hq : tp.tSegq = q :: rest) (hseq : q.thSeq = tp.rcvNxt) (ticks : ℕ) :
    ((tcpReassPresent tp ticks false false).1.gapView, (tcpReassPresent tp ticks false false).2) =
      GapView.popRun (q :: rest) (tp.gapView, false) := by
  have hpresent : tcpReassPresent tp ticks false false =
      presentFinish (presentLoop rest (presentEntry ⟨tp, false, none, false⟩ q rest)) ticks := by
    simp [tcpReassPresent, hest, hq, hseq]
  have hreplace : (presentLoop rest
      (presentEntry ⟨tp, false, none, false⟩ q rest)).replaceTqsInList = false := by
    apply presentLoop_replace_false
    cases hk : q.tqe <;> simp [presentEntry, hk]
  have hloop := presentLoop_gapView rest (presentEntry ⟨tp, false, none, false⟩ q rest)
  rw [presentEntry_gapView, presentEntry_flags] at hloop
  rw [hpresent, presentFinish_gapView _ _ hreplace, GapView.popRun,
    if_pos (show q.thSeq = tp.gapView.rcvNxt from hseq), ← hloop]
  rfl

theorem deliverHolesEntry_gapView (tp : ReassCb) (q : TsegQent) (rest : List TsegQent) :
    (deliverHolesEntry tp q rest).gapView =
      GapView.settle ((tp.gapView.hole q).pop q rest, q.thFin) := by
  have hhole : tp.gapView.hole q =
      { (tp.appendAll (holeBefore tp.rcvNxt q)).gapView with rcvNxt := q.thSeq } := by
    unfold holeBefore GapView.hole
    by_cases hseq : q.thSeq = tp.rcvNxt
    · rw [if_pos hseq, if_pos (show q.thSeq = tp.gapView.rcvNxt from hseq), ReassCb.appendAll_nil,
        hseq]
      rfl
    · rw [if_neg hseq, if_neg (show ¬ q.thSeq = tp.gapView.rcvNxt from hseq), GapView.fill,
        ReassCb.gapView_appendAll]
      rfl
  have hpop : (tp.gapView.hole q).pop q rest =
      { (tp.appendAll (holeBefore tp.rcvNxt q ++ [q.tqeM])).gapView with
        rcvNxt := q.thSeq + BitVec.ofNat 32 q.tqeLen
        tSegq := rest
        tSegqlen := tp.tSegqlen - 1 } := by
    rw [hhole, GapView.pop, ReassCb.appendAll_append, ReassCb.gapView_appendAll]
    unfold GapView.append
    split <;> rfl
  rw [hpop, deliverHolesEntry_eq]
  cases q.thFin with
  | true =>
    simp only [GapView.settle, GapView.actOnFin, ReassCb.gapView, Bool.or_true, if_true]
    rfl
  | false =>
    simp only [GapView.settle, ReassCb.gapView, Bool.or_false, Bool.false_eq_true, if_false,
      add_zero]
    rfl

def FinLast (l : List TsegQent) : Prop := ∀ q ∈ l.dropLast, q.thFin = false

theorem FinLast.tail (h : FinLast (q :: rest)) : FinLast rest := by
  cases rest with
  | nil => simp [FinLast]
  | cons q' rest => exact fun a ha => h a (List.mem_cons_of_mem q ha)

theorem FinLast.suffix {l l' : List TsegQent} (h : FinLast l) (hl : l' <:+ l) : FinLast l' := by
  obtain ⟨pre, rfl⟩ := hl
  induction pre with
  | nil => exact h
  | cons q pre ih => exact ih h.tail

theorem FinLast.head (h : FinLast (q :: rest)) (hfin : q.thFin = true) : rest = [] := by
  cases rest with
  | nil => rfl
  | cons q' rest => simp [h q (by simp)] at hfin

theorem deliverHolesLoop_gapView (p : Tqe) (l : List TsegQent) (contiguous : Bool) (tp : ReassCb)
    (hfin : FinLast l) : (deliverHolesLoop p l contiguous tp).gapView =
      GapView.settle (GapView.deliverLoop p l contiguous (tp.gapView, false)) := by
  induction l generalizing contiguous tp with
  | nil => rfl
  | cons q rest ih =>
    unfold deliverHolesLoop GapView.deliverLoop
    by_cases hgap : (contiguous && q.thSeq != tp.rcvNxt) = true
    · rw [if_pos hgap, if_pos (show (contiguous && q.thSeq != tp.gapView.rcvNxt) = true from hgap)]
      rfl
    · rw [if_neg hgap,
        if_neg (show ¬ (contiguous && q.thSeq != tp.gapView.rcvNxt) = true from hgap)]
      cases hq : q.thFin with
      | true =>
        obtain rfl := hfin.head hq
        exact (deliverHolesEntry_gapView tp q []).trans (by rw [hq]; rfl)
      | false =>
        have hentry := deliverHolesEntry_gapView tp q rest
        rw [hq, GapView.settle, if_neg Bool.false_ne_true] at hentry
        rw [ih _ _ hfin.tail, hentry]

namespace GapView

variable {p : Tqe} {x : GapView × Bool}

theorem hole_of_eq {g : GapView} {q : TsegQent} (h : q.thSeq = g.rcvNxt) : g.hole q = g := if_pos h

theorem hole_rcvNxt (g : GapView) (q : TsegQent) : (g.hole q).rcvNxt = q.thSeq := by
  unfold hole
  split_ifs with h
  · exact h.symm
  · rfl

variable (l : List TsegQent)

section

variable (x : GapView × Bool)

theorem deliverLoop_contiguous : deliverLoop p l true x = popRun l x := by
  induction l generalizing x with
  | nil => rfl
  | cons q rest ih =>
    unfold deliverLoop popRun
    by_cases hseq : q.thSeq = x.1.rcvNxt
    · rw [if_pos hseq, if_neg (by simp [hseq]), Bool.true_or, ih, hole_of_eq hseq]
    · rw [if_neg hseq, if_pos (by simp [hseq])]

theorem popRun_suffix (hl : x.1.tSegq = l) : (popRun l x).1.tSegq <:+ l := by
  induction l generalizing x with
  | nil => simp [popRun, hl]
  | cons q rest ih =>
    unfold popRun
    split_ifs
    · exact (ih _ rfl).trans (List.suffix_cons q rest)
    · rw [hl]

/-- The loop delivers as far as the next gap, and is done or goes on from there. -/
theorem deliverLoop_popRun (hl : x.1.tSegq = l) (hnodup : (l.map TsegQent.tqe).Nodup)
    (hp : p ∈ l.map TsegQent.tqe) :
    deliverLoop p l false x = if p ∈ (popRun l x).1.tSegq.map TsegQent.tqe
      then deliverLoop p (popRun l x).1.tSegq false (popRun l x) else popRun l x := by
  induction l generalizing x with
  | nil => simp at hp
  | cons q rest ih =>
    obtain ⟨hq, hrest⟩ := List.nodup_cons.mp (List.map_cons ▸ hnodup)
    by_cases hseq : q.thSeq = x.1.rcvNxt
    · have hpop : popRun (q :: rest) x = popRun rest (x.1.pop q rest, q.thFin) := by
        rw [popRun, if_pos hseq]
      have hloop : deliverLoop p (q :: rest) false x =
          deliverLoop p rest (q.tqe == p) (x.1.pop q rest, q.thFin) := by
        rw [deliverLoop, Bool.false_and, if_neg Bool.false_ne_true, Bool.false_or, hole_of_eq hseq]
      rw [hpop, hloop]
      by_cases heq : q.tqe = p
      · have hsuffix : (popRun rest (x.1.pop q rest, q.thFin)).1.tSegq <:+ rest :=
          popRun_suffix rest _ rfl
        have hnot : p ∉ (popRun rest (x.1.pop q rest, q.thFin)).1.tSegq.map TsegQent.tqe :=
          fun hmem => hq (heq ▸ (hsuffix.map TsegQent.tqe).subset hmem)
        rw [if_neg hnot, heq, beq_self_eq_true, deliverLoop_contiguous]
      · have hmem : p ∈ rest.map TsegQent.tqe := by
          rcases List.mem_cons.mp (List.map_cons ▸ hp) with h | h
          · exact absurd h.symm heq
          · exact h
        rw [beq_eq_false_iff_ne.mpr heq]
        exact ih _ rfl hrest hmem
    · have hpop : popRun (q :: rest) x = x := by rw [popRun, if_neg hseq]
      rw [hpop, hl, if_pos hp]

end

/-- The hole in front of the first entry may as well be delivered before the loop. -/
theorem deliverLoop_hole (q : TsegQent) (rest : List TsegQent) (g : GapView) (b : Bool) :
    deliverLoop p (q :: rest) false (g, b) = deliverLoop p (q :: rest) false (g.hole q, b) := by
  unfold deliverLoop
  rw [Bool.false_and, Bool.false_and, if_neg Bool.false_ne_true, if_neg Bool.false_ne_true,
    hole_of_eq (hole_rcvNxt g q).symm]

theorem append_tState (g : GapView) (ms : List Mbuf) : (g.append ms).tState = g.tState := by
  unfold append
  split <;> rfl

section

variable (x : GapView × Bool)

theorem popRun_tState : (popRun l x).1.tState = x.1.tState := by
  induction l generalizing x with
  | nil => rfl
  | cons q rest ih =>
    unfold popRun
    split_ifs
    · exact (ih _).trans (append_tState x.1 q.tqeM)
    · rfl

theorem popRun_inWindow {W : ℕ} (hl : x.1.tSegq = l) (h : InWindow W x.1.rcvNxt l) :
    InWindow W (popRun l x).1.rcvNxt (popRun l x).1.tSegq := by
  induction l generalizing x with
  | nil => rwa [popRun, hl]
  | cons q rest ih =>
    unfold popRun
    split_ifs with hseq
    · refine ih _ rfl ?_
      have hpop := h.pop.mono (Nat.sub_le _ _)
      rwa [hseq] at hpop
    · rwa [hl]

theorem popRun_settled (hl : x.1.tSegq = l) :
    ∀ q ∈ (popRun l x).1.tSegq.head?, q.thSeq ≠ (popRun l x).1.rcvNxt := by
  induction l generalizing x with
  | nil => simp [popRun, hl]
  | cons q rest ih =>
    unfold popRun
    split_ifs with hseq
    · exact ih _ rfl
    · simpa [hl] using hseq

/-- Behind a FIN there is nothing. -/
theorem popRun_fin (hl : x.1.tSegq = l) (hfin : FinLast l) (hx : x.2 = true → l = [])
    (h : (popRun l x).2 = true) : (popRun l x).1.tSegq = [] := by
  induction l generalizing x with
  | nil => exact hl
  | cons q rest ih =>
    unfold popRun at h ⊢
    split_ifs at h ⊢ with hseq
    · exact ih _ rfl hfin.tail hfin.head h
    · exact absurd (hx h) (List.cons_ne_nil q rest)

end

end GapView

def finBehind : TsegQent → List TsegQent → Bool
  | q, [] => q.thFin
  | q, q' :: rest => q'.thSeq == q.thSeq + BitVec.ofNat 32 q.tqeLen && finBehind q' rest

def finInReach (p : Tqe) : List TsegQent → Bool
  | [] => false
  | q :: rest => if q.tqe = p then finBehind q rest else finInReach p rest

namespace GapView

variable {p : Tqe}

theorem popRun_flag (q : TsegQent) (rest : List TsegQent) (g : GapView)
    (hnxt : g.rcvNxt = q.thSeq + BitVec.ofNat 32 q.tqeLen) (hfin : FinLast (q :: rest)) :
    (popRun rest (g, q.thFin)).2 = finBehind q rest := by
  induction rest generalizing q g with
  | nil => rfl
  | cons q' rest ih =>
    unfold popRun finBehind
    by_cases hseq : q'.thSeq = g.rcvNxt
    · rw [if_pos hseq, ih q' _ (by rw [pop, hseq]) hfin.tail, ← hnxt, hseq, beq_self_eq_true,
        Bool.true_and]
    · rw [if_neg hseq, ← hnxt, beq_eq_false_iff_ne.mpr hseq, Bool.false_and]
      exact hfin q (by simp)

theorem deliverLoop_flag (l : List TsegQent) (x : GapView × Bool) (hfin : FinLast l)
    (hp : p ∈ l.map TsegQent.tqe) : (deliverLoop p l false x).2 = finInReach p l := by
  induction l generalizing x with
  | nil => simp at hp
  | cons q rest ih =>
    rw [deliverLoop, Bool.false_and, if_neg Bool.false_ne_true, Bool.false_or, finInReach]
    by_cases heq : q.tqe = p
    · rw [if_pos heq, heq, beq_self_eq_true, deliverLoop_contiguous]
      exact popRun_flag q rest _ (by rw [pop, hole_rcvNxt]) hfin
    · rw [if_neg heq, beq_eq_false_iff_ne.mpr heq]
      refine ih _ hfin.tail ?_
      rcases List.mem_cons.mp (List.map_cons ▸ hp) with h | h
      · exact absurd h.symm heq
      · exact h

variable {g g' : GapView}

section

variable (h : g.FilledBy g')
include h

theorem FilledBy.append {ms ms' : List Mbuf} (hms : SameOrHole ms ms') :
    (g.append ms).FilledBy (g'.append ms') := by
  obtain ⟨l, rfl, hl⟩ := h
  have hlen : chainLen ms = chainLen ms' := by
    rcases hms with rfl | rfl
    · rfl
    · simp [chainLen, mGethole]
  unfold append
  split_ifs
  · exact ⟨l, rfl, hl⟩
  · exact ⟨l ++ [ms'], by rw [hlen], List.rel_append hl (.cons hms .nil)⟩

theorem FilledBy.pop (q : TsegQent) (rest : List TsegQent) :
    (g.pop q rest).FilledBy (g'.pop q rest) := by
  obtain ⟨l, hl, hhanded⟩ := h.append (.inl rfl : SameOrHole q.tqeM q.tqeM)
  obtain ⟨l₀, rfl, -⟩ := h
  exact ⟨l, by rw [pop, hl]; rfl, hhanded⟩

theorem FilledBy.fill (q : TsegQent) {ms ms' : List Mbuf} (hms : SameOrHole ms ms') :
    (g.fill q ms).FilledBy (g'.fill q ms') := by
  obtain ⟨l, hl, hhanded⟩ := h.append hms
  exact ⟨l, by rw [GapView.fill, hl]; rfl, hhanded⟩

theorem FilledBy.actOnFin : g.actOnFin.FilledBy g'.actOnFin := by
  obtain ⟨l, rfl, hl⟩ := h
  exact ⟨l, rfl, hl⟩

theorem FilledBy.popRun (l : List TsegQent) (b : Bool) :
    (popRun l (g, b)).1.FilledBy (popRun l (g', b)).1 ∧
      (popRun l (g', b)).2 = (popRun l (g, b)).2 := by
  induction l generalizing g g' b with
  | nil => exact ⟨h, rfl⟩
  | cons q rest ih =>
    have hnxt : g'.rcvNxt = g.rcvNxt := by
      obtain ⟨l, rfl, -⟩ := h
      rfl
    unfold popRun
    rw [hnxt]
    split_ifs
    · exact ih (h.pop q rest) _
    · exact ⟨h, rfl⟩

end

end GapView

/-- The stretch in front of the first entry arrives as one segment. -/
structure Segment.FillsFront (th : Segment) (tp : ReassCb) (q : TsegQent) : Prop where
  seq : th.thSeq = tp.rcvNxt
  len : th.tlen = off tp.rcvNxt q.thSeq
  chain : chainLen th.m = th.tlen
  noFin : th.thFin = false

/-- `tcp_reass` hands on the segment and what waited for it. -/
theorem tcpReass_fill {tp : ReassCb} {W : ℕ} (hW : W < 2 ^ 31) (hq : tp.tSegq = q :: rest)
    (hwin : InWindow W tp.rcvNxt tp.tSegq) (hest : tp.tState.haveEstablished = true)
    (hgap : q.thSeq ≠ tp.rcvNxt) (ticks : ℕ) (alloc : Option ℕ) {th : Segment}
    (hth : th.FillsFront tp q) :
    ((tcpReass tp ticks alloc (some th)).1.gapView, (tcpReass tp ticks alloc (some th)).2.1) =
      GapView.popRun (q :: rest) (tp.gapView.fill q th.m, false) := by
  have hplace : outOfPlace tp th = false := by simp [outOfPlace, hth.seq, hest]
  have hres : shortOfResources tp alloc th = false := by rw [shortOfResources, hplace]; rfl
  have hpos : 0 < off tp.rcvNxt q.thSeq := by
    rw [Nat.pos_iff_ne_zero]
    exact fun h => hgap (off_eq_zero.mp h)
  have hsplit : splitQueue tp th = ([], q :: rest) := by
    have hgt : seqGt q.thSeq th.thSeq = true := by
      have hb := hwin.bound q (by simp [hq])
      rw [hth.seq, seqGt_iff (r := tp.rcvNxt) hW (by omega) (by rw [off_self]; omega), off_self]
      exact hpos
    rw [splitQueue, hq, List.span_eq_takeWhile_dropWhile, List.takeWhile_cons, List.dropWhile_cons,
      hgt]
    rfl
  have hedge : th.thSeq + BitVec.ofNat 32 th.tlen = q.thSeq := by
    rw [hth.seq, hth.len, add_off]
  have htrim : trimSuccessors (th.thSeq + BitVec.ofNat 32 th.tlen) (q :: rest) =
      (q :: rest, []) := by
    rw [hedge, trimSuccessors]
    simp
  -- the segment goes in front, and is the first to be presented
  let te : TsegQent := ⟨entryFor alloc, th.thSeq, th.thFin, th.tlen, th.m⟩
  have hqueue : (queueSegment tp ticks alloc th th).tSegq = te :: q :: rest := by
    rw [queueSegment_eq, hsplit, htrim]
    rfl
  have hview : (queueSegment tp ticks alloc th th).gapView =
      { tp.gapView with tSegq := te :: q :: rest, tSegqlen := tp.tSegqlen + 1 } := by
    rw [queueSegment_eq, hsplit, htrim]
    simp [ReassCb.gapView, te]
  have hpresent : ((tcpReass tp ticks alloc (some th)).1, (tcpReass tp ticks alloc (some th)).2.1) =
      tcpReassPresent (queueSegment tp ticks alloc th th) ticks false false := by
    simp [tcpReass, tcpReassQueue, hres, hsplit, trimByPredecessor]
  have hpop : ({ tp.gapView with tSegq := te :: q :: rest, tSegqlen := tp.tSegqlen + 1 } :
      GapView).pop te (q :: rest) = tp.gapView.fill q th.m := by
    have hlen : tp.tSegqlen + 1 - 1 = tp.tSegqlen := add_sub_cancel_right _ _
    have hnxt : tp.rcvNxt + BitVec.ofNat 32 th.tlen = q.thSeq := hth.seq ▸ hedge
    unfold GapView.pop GapView.fill GapView.append
    split_ifs <;> simp only [te, ReassCb.gapView, hlen, hnxt, hq]
  have hest' : (queueSegment tp ticks alloc th th).tState.haveEstablished = true := by
    rw [queueSegment_eq]
    exact hest
  have hseq : te.thSeq = (queueSegment tp ticks alloc th th).rcvNxt := by
    rw [queueSegment_eq]
    exact hth.seq
  have hfst := congrArg Prod.fst hpresent
  have hsnd := congrArg Prod.snd hpresent
  dsimp only at hfst hsnd
  rw [hfst, hsnd, tcpReassPresent_gapView hest' hqueue hseq, GapView.popRun, hview,
    if_pos (show te.thSeq = tp.gapView.rcvNxt from hth.seq), hpop]
  exact congrArg (fun b => GapView.popRun (q :: rest) (_, b)) hth.noFin

/-- The segment gets to `dodata` as it is, and is all that is missing in front of the first
entry. -/
def Fills (e : TcpEnv) (tp : Tcpcb) (s : TcpPkt) : Prop :=
  ∃ v q, toDodata e tp s = .ok v ∧ v.tp.toReassCb = tp.toReassCb ∧ tp.tSegq.head? = some q ∧
    v.segment.FillsFront tp.toReassCb q

/-- What `tp` becomes when a segment arrives for every gap in front of the entry `p`. -/
inductive Filled (p : Tqe) : Tcpcb → TcpResult → Prop
  | last {tp : Tcpcb} (e : TcpEnv) (s : TcpPkt) (hfill : Fills e tp s)
      (hp : p ∉ (tcpDoSegment e tp s).tp.addrs) : Filled p tp (tcpDoSegment e tp s)
  | more {tp : Tcpcb} {c : TcpResult} (e : TcpEnv) (s : TcpPkt) (hfill : Fills e tp s)
      (hp : p ∈ (tcpDoSegment e tp s).tp.addrs) (hrest : Filled p (tcpDoSegment e tp s).tp c) :
      Filled p tp c

/-- A passive connection that has not seen a FIN, and waits for what is in front of its queue. -/
structure Tcpcb.AwaitsFront (W : ℕ) (tp : Tcpcb) : Prop where
  inpPassive : tp.inpPassive = true
  state : tp.tState = .established ∨ tp.tState = .finWait1 ∨ tp.tState = .finWait2
  window : InWindow W tp.rcvNxt tp.tSegq
  settled : ∀ q ∈ tp.tSegq.head?, q.thSeq ≠ tp.rcvNxt
  nodup : tp.addrs.Nodup
  finLast : FinLast tp.tSegq

def fateAfter (s : TcpState) (fin : Bool) : Fate :=
  if fin && s = .finWait2 then .timeWait else .live

theorem finReceived_fate (tp : Tcpcb) : (finReceived tp).fate = fateAfter tp.tState true := by
  unfold finReceived fateAfter
  cases tp.tState <;> rfl

theorem inputExit_reass (e : TcpEnv) (tp : Tcpcb) (b : Bool) :
    (inputExit e tp b).tp.toReassCb = tp.toReassCb := by
  unfold inputExit checkDelack tcpOutput
  dsimp only
  split_ifs <;> rfl

theorem finishInput_fill (e : TcpEnv) (v : InputVars) (hs : (v.received e).1.tState ≠ .timeWait) :
    (finishInput e v).tp.toReassCb = v.outcome e ∧
      (finishInput e v).fate = fateAfter (v.received e).1.tState (v.received e).2 := by
  obtain ⟨hdata, hfin⟩ := dodata_spec e v
  have hreass : (dataAndFin e v).tp.toReassCb = v.outcome e := (dataAndFin_spec e v hs).reass
  have hfate : (dataAndFin e v).fate = fateAfter (v.received e).1.tState (v.received e).2 := by
    have hst : (dodata e v).1.tState = (v.received e).1.tState := by rw [hdata.reass]; rfl
    unfold dataAndFin
    dsimp only
    rw [hfin]
    cases (v.received e).2 with
    | true => rw [if_pos rfl, finReceived_fate, hst]
    | false => rw [if_neg Bool.false_ne_true]; rfl
  unfold finishInput
  dsimp only
  split_ifs with hlive
  · exact ⟨(inputExit_reass e _ _).trans hreass, hlive.symm.trans hfate⟩
  · exact ⟨hreass, hfate⟩

theorem tcpDoSegment_fill {tp : Tcpcb} {W : ℕ} (hW : W < 2 ^ 31) (h : tp.AwaitsFront W)
    {e : TcpEnv} {s : TcpPkt} (hfill : Fills e tp s) :
    ∃ q rest ms, tp.tSegq = q :: rest ∧ chainLen ms = off tp.rcvNxt q.thSeq ∧
      let x := GapView.popRun (q :: rest) (tp.gapView.fill q ms, false)
      (tcpDoSegment e tp s).tp.gapView = GapView.settle x ∧
        (tcpDoSegment e tp s).fate = fateAfter tp.tState x.2 ∧
        (tcpDoSegment e tp s).tp.inpPassive = true := by
  obtain ⟨v, q, hv, hreass, hhead, hth⟩ := hfill
  obtain ⟨rest, hq⟩ : ∃ rest, tp.tSegq = q :: rest := List.head?_eq_some_iff.mp hhead
  refine ⟨q, rest, v.segment.m, hq, hth.chain.trans hth.len, ?_⟩
  have hgap : q.thSeq ≠ tp.rcvNxt := h.settled q (by simp [hq])
  have hest : tp.tState.haveEstablished = true ∧ tp.tState.haveRcvdFin = false := by
    rcases h.state with hst | hst | hst <;> rw [hst] <;> exact ⟨rfl, rfl⟩
  have hlen : v.tlen ≠ 0 := by
    intro h0
    have hoff : v.tlen = off tp.rcvNxt q.thSeq := hth.len
    exact hgap (off_eq_zero.mp (hoff.symm.trans h0))
  have hreceived : v.received e = ((tcpReass tp.toReassCb e.ticks e.umaZalloc (some v.segment)).1,
      (tcpReass tp.toReassCb e.ticks e.umaZalloc (some v.segment)).2.1) := by
    have hdata : v.hasData = true := by simp [InputVars.hasData, hlen, hreass, hest.2]
    have horder : v.inOrder = false := by simp [InputVars.inOrder, hreass, hq]
    rw [InputVars.received, if_pos hdata, horder, if_neg Bool.false_ne_true, hreass]
  have hrun := tcpReass_fill hW hq h.window hest.1 hgap e.ticks e.umaZalloc hth
  have hseg : tcpDoSegment e tp s = finishInput e v := by
    unfold tcpDoSegment
    rw [hv]
  have hx : ((v.received e).1.gapView, (v.received e).2) =
      GapView.popRun (q :: rest) (tp.gapView.fill q v.segment.m, false) := by
    rw [hreceived]
    exact hrun
  have hst : (v.received e).1.tState = tp.tState := by
    have hview := congrArg (fun x : GapView × Bool => x.1.tState) hx
    exact hview.trans ((GapView.popRun_tState _ _).trans (GapView.append_tState _ _))
  have hne : (v.received e).1.tState ≠ .timeWait := by
    rw [hst]
    rcases h.state with h | h | h <;> rw [h] <;> decide
  obtain ⟨hout, hfate⟩ := finishInput_fill e v hne
  dsimp only
  rw [hseg, ← hx, hfate, hst]
  refine ⟨?_, rfl, ?_⟩
  · rw [hout, InputVars.outcome, GapView.settle]
    split_ifs <;> rfl
  · rw [(finishInput_frozen e v).inpPassive, hreass, h.inpPassive]

/-- The connection after a segment, next to the loop of the timer at the gap behind it. -/
structure FillStep (W : ℕ) (p : Tqe) (tp : Tcpcb) (g : GapView) (c : TcpResult)
    (d : GapView × Bool) : Prop where
  filled : (GapView.settle d).FilledBy c.tp.gapView
  fate : c.fate = fateAfter tp.tState d.2
  loop : GapView.deliverLoop p tp.tSegq false (g, false) =
    if p ∈ c.tp.addrs then GapView.deliverLoop p c.tp.tSegq false d else d
  fin : d.2 = true → c.tp.tSegq = []
  waits : d.2 = false → c.tp.AwaitsFront W ∧ c.tp.tState = tp.tState

theorem GapView.FilledBy.tSegq {g g' : GapView} (h : g.FilledBy g') : g'.tSegq = g.tSegq := by
  obtain ⟨l, rfl, -⟩ := h
  rfl

theorem GapView.settle_tSegq (x : GapView × Bool) : (settle x).tSegq = x.1.tSegq := by
  unfold settle
  split <;> rfl

theorem Fills.step {tp : Tcpcb} {W : ℕ} (hW : W < 2 ^ 31) (h : tp.AwaitsFront W) {e : TcpEnv}
    {s : TcpPkt} (hfill : Fills e tp s) {p : Tqe} (hp : p ∈ tp.addrs) {g : GapView}
    (hg : g.FilledBy tp.gapView) : ∃ d, FillStep W p tp g (tcpDoSegment e tp s) d := by
  obtain ⟨q, rest, ms, hq, hms, hview, hfate, hpas⟩ := tcpDoSegment_fill hW h hfill
  generalize tcpDoSegment e tp s = c at hview hfate hpas ⊢
  have hgap : q.thSeq ≠ tp.rcvNxt := h.settled q (by simp [hq])
  have hnxt : g.rcvNxt = tp.rcvNxt := by
    obtain ⟨l, hl, -⟩ := hg
    exact (congrArg GapView.rcvNxt hl).symm
  have hhole : g.hole q = g.fill q [mGethole (chainLen ms)] := by
    rw [GapView.hole, if_neg (hnxt ▸ hgap), hnxt, hms]
  have hstart : (g.hole q).FilledBy (tp.gapView.fill q ms) := hhole ▸ hg.fill q (.inr rfl)
  have hqueue : (tp.gapView.fill q ms).tSegq = q :: rest := by
    rw [GapView.fill, ← hq]
    unfold GapView.append
    split <;> rfl
  obtain ⟨hrun, hflag⟩ := hstart.popRun (q :: rest) false
  set f := GapView.popRun (q :: rest) (tp.gapView.fill q ms, false) with hf
  set d := GapView.popRun (q :: rest) (g.hole q, false) with hd
  have hleft : c.tp.tSegq = f.1.tSegq :=
    (congrArg GapView.tSegq hview).trans (GapView.settle_tSegq f)
  have hleft' : c.tp.tSegq = d.1.tSegq := hleft.trans hrun.tSegq
  have hsuffix : f.1.tSegq <:+ q :: rest := GapView.popRun_suffix (q :: rest) _ hqueue
  refine ⟨d, ?_, hflag ▸ hfate, ?_, ?_, ?_⟩
  · rw [hview, GapView.settle, GapView.settle, hflag]
    split_ifs
    · exact hrun.actOnFin
    · exact hrun
  · have hnodup : ((q :: rest).map TsegQent.tqe).Nodup := hq ▸ h.nodup
    have hmem : p ∈ (q :: rest).map TsegQent.tqe := hq ▸ hp
    rw [hq, GapView.deliverLoop_hole, GapView.deliverLoop_popRun (q :: rest) _
      (hstart.tSegq.symm.trans hqueue) hnodup hmem, ReassCb.addrs, hleft']
  · intro hfin
    rw [hleft]
    exact GapView.popRun_fin (q :: rest) _ hqueue (hq ▸ h.finLast) (fun hb => by cases hb)
      (hflag.trans hfin)
  · intro hnot
    have hsettle : c.tp.gapView = f.1 := by
      rw [hview, GapView.settle, hflag, hnot, if_neg Bool.false_ne_true]
    have hst : c.tp.tState = tp.tState := (congrArg GapView.tState hsettle).trans
      ((GapView.popRun_tState _ _).trans (GapView.append_tState _ _))
    have hrcv : c.tp.rcvNxt = f.1.rcvNxt := congrArg GapView.rcvNxt hsettle
    refine ⟨⟨hpas, hst ▸ h.state, ?_, ?_, ?_, ?_⟩, hst⟩
    · rw [hleft, hrcv]
      exact GapView.popRun_inWindow (q :: rest) _ hqueue (hq ▸ h.window).toHead
    · rw [hleft, hrcv]
      exact GapView.popRun_settled (q :: rest) _ hqueue
    · rw [ReassCb.addrs, hleft]
      exact (hq ▸ h.nodup : ((q :: rest).map TsegQent.tqe).Nodup).sublist
        (hsuffix.map TsegQent.tqe).sublist
    · rw [hleft]
      exact (hq ▸ h.finLast : FinLast (q :: rest)).suffix hsuffix

/-- The segments fill the gaps as the timer skips them. -/
theorem Filled.deliverLoop {p : Tqe} {tp : Tcpcb} {c : TcpResult} {W : ℕ} (hW : W < 2 ^ 31)
    (hfilled : Filled p tp c) (h : tp.AwaitsFront W) (hp : p ∈ tp.addrs) {g : GapView}
    (hg : g.FilledBy tp.gapView) :
    let x := GapView.deliverLoop p tp.tSegq false (g, false)
    (GapView.settle x).FilledBy c.tp.gapView ∧ c.fate = fateAfter tp.tState x.2 := by
  induction hfilled generalizing g with
  | @last tp e s hfill hgone =>
    obtain ⟨d, hd⟩ := hfill.step hW h hp hg
    dsimp only
    rw [hd.loop, if_neg hgone]
    exact ⟨hd.filled, hd.fate⟩
  | @more tp c e s hfill hleft hrest ih =>
    obtain ⟨d, hd⟩ := hfill.step hW h hp hg
    -- the entry is still queued, so no FIN has come out
    have hnot : d.2 = false := by
      by_contra hfin
      rw [ReassCb.addrs, hd.fin (Bool.not_eq_false _ ▸ hfin)] at hleft
      cases hleft
    obtain ⟨hwaits, hst⟩ := hd.waits hnot
    have hfilled := hd.filled
    rw [GapView.settle, hnot, if_neg Bool.false_ne_true] at hfilled
    have hpair : d = (d.1, false) := Prod.ext rfl hnot
    dsimp only
    rw [hd.loop, if_pos hleft, hpair, ← hst]
    exact ih hwaits hleft hfilled

/-- The timer delivers what the missing segments would have, with holes in their place, unless it
comes upon the FIN in `TCPS_FIN_WAIT_2`. -/
theorem tcpReassDeliverHoles_filled_iff (tp : Tcpcb) (ticks W : ℕ) (p : Tqe) (c : TcpResult)
    (hW : W < 2 ^ 31) (h : tp.AwaitsFront W) (hp : furthestExpired tp.toReassCb ticks = some p)
    (hfilled : Filled p tp c) :
    let timed : TcpResult := { tp := tp.setReass (tcpReassDeliverHoles tp.toReassCb ticks) }
    (timed.tp.gapView.FilledBy c.tp.gapView ∧ c.fate = timed.fate) ↔
      ¬ (tp.tState = .finWait2 ∧ finInReach p tp.tSegq = true) := by
  intro timed
  have hmem : p ∈ tp.addrs := by
    obtain ⟨q, hq, rfl⟩ := Option.map_eq_some_iff.mp hp
    exact List.mem_map_of_mem (List.mem_of_mem_filter (List.mem_of_getLast? hq))
  have hsame : tp.gapView.FilledBy tp.gapView :=
    ⟨_, rfl, List.forall₂_same.mpr fun ms _ => .inl rfl⟩
  have hview : timed.tp.gapView =
      GapView.settle (GapView.deliverLoop p tp.tSegq false (tp.gapView, false)) := by
    have hloop : timed.tp.gapView = (deliverHolesLoop p tp.tSegq false tp.toReassCb).gapView := by
      change (tcpReassDeliverHoles tp.toReassCb ticks).gapView = _
      rw [tcpReassDeliverHoles, hp]
      rfl
    rw [hloop, deliverHolesLoop_gapView _ _ _ _ h.finLast]
  obtain ⟨hby, hfate⟩ := hfilled.deliverLoop hW h hmem hsame
  rw [GapView.deliverLoop_flag _ _ h.finLast hmem] at hfate
  rw [hview, hfate]
  constructor
  · rintro ⟨-, hlive⟩ ⟨hst, hfin⟩
    rw [hst, hfin] at hlive
    cases hlive
  · intro hnot
    refine ⟨hby, ?_⟩
    rw [fateAfter, if_neg (by simpa [and_comm] using hnot)]

/-- The byte 8 and the FIN behind it have been queued, and the byte in front of them is missing. -/
def queuedBehindGap (s : TcpState) : Tcpcb :=
  (tcpDoSegment {} { rcvNxt := 0, tState := s } (.ofBytes 1 { fin := true, ack := true } [8])).tp

theorem fills_byte :
    Fills {} (queuedBehindGap .established) (.ofBytes 0 { ack := true } [7]) := by
  have hv : ∃ v, toDodata {} (queuedBehindGap .established) (.ofBytes 0 { ack := true } [7]) =
      .ok v ∧ v.tp.toReassCb = (queuedBehindGap .established).toReassCb ∧
      v.segment.FillsFront (queuedBehindGap .established).toReassCb
        ⟨.zone 0, 1, true, 1, [Mbuf.ofBytes [8]]⟩ := by
    refine ⟨_, by with_unfolding_all rfl, ?_, ?_⟩
    · rfl
    · exact ⟨rfl, by decide, by decide, rfl⟩
  obtain ⟨v, hv, hreass, hth⟩ := hv
  exact ⟨v, _, hv, hreass, rfl, hth⟩

/-- The byte 7 fills the gap. -/
theorem tcpReassDeliverHoles_filled_iff_byte :
    let tp := queuedBehindGap .established
    let c := tcpDoSegment {} tp (.ofBytes 0 { ack := true } [7])
    let timed : TcpResult := { tp := tp.setReass (tcpReassDeliverHoles tp.toReassCb 100) }
    timed.tp.gapView.FilledBy c.tp.gapView ∧ c.fate = timed.fate := by
  intro tp c timed
  have hwait : tp.AwaitsFront 2 := by
    refine ⟨rfl, .inl rfl, ⟨List.pairwise_singleton _ _, ?_⟩, ?_, List.nodup_singleton _, ?_⟩
    · intro q hq
      obtain rfl := List.mem_singleton.mp hq
      decide
    · rintro q ⟨⟩
      decide
    · exact fun q hq => absurd hq List.not_mem_nil
  have hfill : Fills {} tp (.ofBytes 0 { ack := true } [7]) := fills_byte
  exact (tcpReassDeliverHoles_filled_iff tp 100 2 (.zone 0) c (by decide) hwait (by decide)
    (.last _ _ hfill (by decide))).mpr fun h => by cases h.1

/-- In `TCPS_FIN_WAIT_2` the timer takes the FIN and stays, where the missing byte takes the
connection to `TCPS_TIME_WAIT`. -/
theorem tcpReassDeliverHoles_stays :
    let tp := queuedBehindGap .finWait2
    let c := tcpDoSegment {} tp (.ofBytes 0 { ack := true } [7])
    let timed := tcpReassDeliverHoles tp.toReassCb 100
    (c.fate, c.tp.rcvNxt, c.tp.soRcv.sbCantrcvmore) = (.timeWait, 3, true) ∧
      (timed.tState, timed.rcvNxt, timed.soRcv.sbCantrcvmore) = (.finWait2, 3, true) := by
  decide

end Libuinet
