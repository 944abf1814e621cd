import Libuinet.ReassPassive

namespace Libuinet

open Execution SerialArith

def holesReachFin (p : Tqe) : List TsegQent → Bool → ReassCb → Bool
  | [], _, _ => false
  | q :: rest, contiguous, tp =>
    if contiguous && q.thSeq != tp.rcvNxt then false
    else q.thFin || holesReachFin p rest (contiguous || q.tqe == p) (deliverHolesEntry tp q rest)

def deliversFin (tp : ReassCb) (ticks : ℕ) : Bool :=
  match furthestExpired tp ticks with
  | none => false
  | some p => holesReachFin p tp.tSegq false tp

/-- `fin` says that a FIN has come out of the queue. -/
structure OrderRun where
  tp : ReassCb
  fin : Bool := false

def OrderRun.step (s : OrderRun) (op : ReassOp) : OrderRun where
  tp := s.tp.step op
  fin := s.fin || match op with
    | .reass ticks alloc th => (tcpReass s.tp ticks alloc th).2.1
    | .deliverHoles ticks => deliversFin s.tp ticks
    | .flush | .outside .. => false

/-- The calls before a FIN is acted on: segments with data or a FIN that lie in the receive window.
In between `rcv_nxt` moves only while nothing is queued. -/
def OrderRun.Ok (s : OrderRun) (op : ReassOp) : Prop :=
  s.fin = false ∧ match op with
    | .reass _ _ none => True
    | .reass _ _ (some th) => chainLen th.m = th.tlen ∧ (th.tlen = 0 → th.thFin = true) ∧
        ∃ rcvWnd < 2 ^ 30, off s.tp.rcvNxt th.thSeq + th.tlen ≤ rcvWnd
    | .deliverHoles ticks => deliversFin s.tp ticks = false
    | .flush => False
    | .outside _ _ rcvNxt _ _ => rcvNxt = s.tp.rcvNxt ∨ s.tp.tSegq = []

/-- The entries lie in order within the window, and `P` holds of each. -/
structure QueueOf (P : Segment → Prop) (tp : ReassCb) : Prop where
  window : InWindow maxWindow tp.rcvNxt tp.tSegq
  entries : ∀ th ∈ tp.segments, P th

namespace QueueOf

variable {P : Segment → Prop} {tp tp' : ReassCb} {q : TsegQent} {rest : List TsegQent}

theorem congr (hs : tp.SameData tp') (h : QueueOf P tp) : QueueOf P tp' := by
  refine ⟨?_, by rw [hs.segments]; exact h.entries⟩
  rw [hs.rcvNxt]
  exact h.window.congr hs.segments

section

variable (h : QueueOf P tp)
include h

section

variable (hq : tp.tSegq = q :: rest)
include hq

theorem tail : ∀ th ∈ rest.map TsegQent.segment, P th := by
  intro th hth
  apply h.entries
  rw [ReassCb.segments, hq, List.map_cons]
  exact List.mem_cons_of_mem _ hth

theorem popEntry (hseq : q.thSeq = tp.rcvNxt) : QueueOf P (tp.popEntry q rest) := by
  refine ⟨?_, h.tail hq⟩
  have hpop := (hq ▸ h.window).pop
  rw [hseq] at hpop
  exact hpop.mono (Nat.sub_le _ _)

theorem leadingHole :
    QueueOf P { tp.appendAll [[mGethole (q.thSeq - tp.rcvNxt).toNat]] with
      rcvNxt := q.thSeq } := by
  refine ⟨?_, h.entries⟩
  have hw := (hq ▸ h.window).toHead
  change InWindow maxWindow q.thSeq tp.tSegq
  rwa [hq]

theorem deliverHolesEntry (hfin : q.thFin = false) :
    QueueOf P (deliverHolesEntry tp q rest) :=
  deliverHolesEntry_rule (fun _ _ => congr) (fun _ _ _ h => h.popEntry)
    (fun _ _ _ h => h.leadingHole) h hq hfin

end

end

theorem deliverHolesLoop (p : Tqe) (l : List TsegQent) (contiguous : Bool) (h : QueueOf P tp)
    (hl : tp.tSegq = l) (hfin : holesReachFin p l contiguous tp = false) :
    QueueOf P (deliverHolesLoop p l contiguous tp) := by
  induction l generalizing contiguous tp with
  | nil => exact h
  | cons q rest ih =>
    unfold deliverHolesLoop
    unfold holesReachFin at hfin
    split_ifs at hfin ⊢ with hgap
    · exact h
    · obtain ⟨hq, hrest⟩ := Bool.or_eq_false_iff.mp hfin
      exact ih _ (h.deliverHolesEntry hl hq) (by rw [deliverHolesEntry_eq]) hrest

theorem tcpReassDeliverHoles (h : QueueOf P tp) {ticks : ℕ}
    (hfin : deliversFin tp ticks = false) : QueueOf P (tcpReassDeliverHoles tp ticks) := by
  unfold Libuinet.tcpReassDeliverHoles
  unfold deliversFin at hfin
  cases hp : furthestExpired tp ticks with
  | none => exact h
  | some p =>
    rw [hp] at hfin
    exact congr (.timer _ _) (h.deliverHolesLoop p _ false rfl hfin)

theorem tcpReass (hP : ∀ th th' i, th.TrimmedTo th' i → P th → P th') (h : QueueOf P tp)
    (ticks : ℕ) (alloc : Option ℕ) {th : Segment}
    (hwin : off tp.rcvNxt th.thSeq + th.tlen ≤ maxWindow) (hth : P th) :
    QueueOf P (tcpReass tp ticks alloc (some th)).1 := by
  refine tcpReass_rule (fun _ _ => congr) (fun _ _ _ => popEntry)
    (fun _ _ _ h hq _ => h.leadingHole hq) h ticks alloc th fun th' htrim => ?_
  have hw := queueSegment_window (by decide) ticks alloc h.window hwin htrim
  have he := queueSegment_forall hP ticks alloc h.entries hth htrim
  rw [queueSegment_eq] at hw he ⊢
  exact ⟨hw, he⟩

end QueueOf

def ReassOp.Carries (P : Segment → Prop) : ReassOp → Prop
  | .reass _ _ (some th) => P th
  | _ => True

section

variable {P : Segment → Prop} (hP : ∀ th th' i, th.TrimmedTo th' i → P th → P th')
include hP

theorem queueOf_step (s : OrderRun) (op : ReassOp) (h : QueueOf P s.tp)
    (hop : s.Ok op ∧ op.Carries P) : QueueOf P (s.step op).tp := by
  obtain ⟨⟨-, hok⟩, hcar⟩ := hop
  cases op with
  | reass ticks alloc th =>
    cases th with
    | none =>
      exact tcpReassPresent_rule (fun _ _ => QueueOf.congr) (fun _ _ _ => QueueOf.popEntry) h ticks
        false false (by simp)
    | some th =>
      obtain ⟨-, -, wnd, hwnd, hin⟩ := hok
      exact h.tcpReass hP ticks alloc (by rw [maxWindow]; omega) hcar
  | deliverHoles ticks => exact h.tcpReassDeliverHoles hok
  | flush => exact hok.elim
  | outside tState inpPassive rcvNxt tMaxseg soRcv =>
    refine ⟨?_, h.entries⟩
    rcases hok with rfl | hnil
    · exact h.window
    · change InWindow maxWindow rcvNxt s.tp.tSegq
      rw [hnil]
      exact inWindow_nil _ _

theorem queueOf_run {tp : ReassCb} {ops : List ReassOp} (hq : tp.tSegq = [])
    (hok : Along OrderRun.step OrderRun.Ok ⟨tp, false⟩ ops)
    (hcar : Along OrderRun.step (fun _ op => op.Carries P) ⟨tp, false⟩ ops) :
    QueueOf P (run OrderRun.step ⟨tp, false⟩ ops).tp := by
  have hstart : QueueOf P tp :=
    ⟨by rw [hq]; exact inWindow_nil _ _, by simp [ReassCb.segments, hq]⟩
  exact run_invariant (I := fun s => QueueOf P s.tp) (queueOf_step hP) hstart
    (hok.and hcar)

end

def Segment.Counted (th : Segment) : Prop :=
  chainLen th.m = th.tlen ∧ (th.tlen = 0 → th.thFin = true)

section

variable {th th' : Segment} {i : ℕ} (ht : th.TrimmedTo th' i)
include ht

theorem Segment.TrimmedTo.counted (h : th.Counted) : th'.Counted := by
  have hlen := ht.len
  by_cases hi : i = 0
  · have hm : th'.m = th.m := by rw [ht.data, if_pos hi]
    rw [hi, Nat.sub_zero] at hlen
    rwa [Segment.Counted, hm, hlen, ht.fin]
  · have hlt := ht.lt hi
    refine ⟨?_, fun h0 => by omega⟩
    rw [ht.data, if_neg hi, ← chainView_length, chainView_mAdj_head, List.length_drop,
      chainView_length, h.1, hlen]

theorem Segment.TrimmedTo.pos (h : 0 < th.tlen) : 0 < th'.tlen := by
  have hlen := ht.len
  by_cases hi : i = 0
  · omega
  · have := ht.lt hi
    omega

end

/-- The entries are in order, apart, not before `rcv_nxt`, and as long as their chains.  Only a FIN
is empty, and only an empty entry has another one at its number. -/
structure ReassCb.Ordered (tp : ReassCb) : Prop where
  increasing : tp.tSegq.Pairwise fun a b =>
    seqGt b.thSeq a.thSeq = true ∨ (a.tqeLen = 0 ∧ b.thSeq = a.thSeq)
  disjoint : tp.tSegq.Pairwise fun a b => ∀ i < a.tqeLen, ∀ j < b.tqeLen,
    a.thSeq + BitVec.ofNat 32 i ≠ b.thSeq + BitVec.ofNat 32 j
  ahead : ∀ q ∈ tp.tSegq, 0 ≤ (q.thSeq - tp.rcvNxt).toInt
  empty : ∀ q ∈ tp.tSegq, q.tqeLen = 0 → q.thFin = true
  chain : ∀ q ∈ tp.tSegq, chainLen q.tqeM = q.tqeLen

theorem QueueOf.ordered {tp : ReassCb} (h : QueueOf Segment.Counted tp) : tp.Ordered := by
  have hcount (q : TsegQent) (hq : q ∈ tp.tSegq) : q.segment.Counted :=
    h.entries _ (List.mem_map_of_mem hq)
  have hbound (q : TsegQent) (hq : q ∈ tp.tSegq) :
      off tp.rcvNxt q.thSeq + q.tqeLen ≤ 2 ^ 30 := h.window.bound q hq
  refine ⟨?_, ?_, fun q hq => ?_, fun q hq => (hcount q hq).2, fun q hq => (hcount q hq).1⟩
  · refine h.window.sorted.imp_of_mem fun {a b} ha hb hab => ?_
    have hb' := hbound b hb
    rw [seqGt_iff (r := tp.rcvNxt) (W := 2 ^ 30) (by decide) (by omega) (by omega)]
    rcases (Nat.le_of_add_right_le hab).lt_or_eq with hlt | heq
    · exact .inl hlt
    · refine .inr ⟨by omega, ?_⟩
      rw [← add_off tp.rcvNxt b.thSeq, ← heq, add_off]
  · refine h.window.sorted.imp_of_mem fun {a b} ha hb hab i hi j hj heq => ?_
    have ha' := hbound a ha
    have hb' := hbound b hb
    have hoff := congrArg (off tp.rcvNxt) heq
    rw [off_add _ _ i (by omega), off_add _ _ j (by omega)] at hoff
    omega
  · have hb := hbound q hq
    rw [toInt_sub tp.rcvNxt q.thSeq tp.rcvNxt (by omega) (by rw [off_self]; decide), off_self]
    omega

/-- In every run up to the first FIN the queue is in order.  As long as every segment has data, it
strictly increases and no entry is empty. -/
theorem reassembly_queue_ordered (tp : ReassCb) (ops : List ReassOp) (hq : tp.tSegq = [])
    (hok : Along OrderRun.step OrderRun.Ok ⟨tp, false⟩ ops) :
    let tp' := (run OrderRun.step ⟨tp, false⟩ ops).tp
    tp'.Ordered ∧ ((∀ th ∈ ops.flatMap ReassOp.received, 0 < th.tlen) →
      (tp'.tSegq.Pairwise fun a b => seqGt b.thSeq a.thSeq = true) ∧
        ∀ q ∈ tp'.tSegq, q.tqeLen ≠ 0) := by
  intro tp'
  have hcounted : Along OrderRun.step (fun _ op => op.Carries Segment.Counted) ⟨tp, false⟩ ops := by
    refine hok.imp fun s op hop => ?_
    cases op with
    | reass ticks alloc th =>
      cases th with
      | none => trivial
      | some th => exact ⟨hop.2.1, hop.2.2.1⟩
    | deliverHoles | flush | outside => trivial
  have hordered := (queueOf_run (fun _ _ _ => Segment.TrimmedTo.counted) hq hok hcounted).ordered
  refine ⟨hordered, fun hdata => ?_⟩
  have hcarries : ∀ op ∈ ops, op.Carries fun th => 0 < th.tlen := by
    intro op hop
    cases op with
    | reass ticks alloc th =>
      cases th with
      | none => trivial
      | some th => exact hdata th (List.mem_flatMap.mpr ⟨_, hop, List.mem_singleton_self th⟩)
    | deliverHoles | flush | outside => trivial
  have hpos := queueOf_run (fun _ _ _ => Segment.TrimmedTo.pos) hq hok (along_of_forall hcarries _)
  have hne (q : TsegQent) (hq : q ∈ tp'.tSegq) : q.tqeLen ≠ 0 :=
    (hpos.entries q.segment (List.mem_map_of_mem hq)).ne'
  refine ⟨hordered.increasing.imp_of_mem fun ha _ hab => ?_, hne⟩
  exact hab.resolve_right fun h => hne _ ha h.1

/-- The bytes 8 and 9 arrive one after the other behind a gap, and then overlap. -/
theorem reassembly_queue_ordered_overlap :
    let ops := [ReassOp.reass 0 (some 0) (some ⟨2, false, 1, [Mbuf.ofBytes [9]]⟩),
      .reass 0 (some 1) (some ⟨1, false, 2, [Mbuf.ofBytes [8, 9]]⟩)]
    let tp := (run OrderRun.step ⟨{ rcvNxt := 0 }, false⟩ ops).tp
    tp.Ordered ∧ tp.tSegq.length = 1 ∧ ∀ q ∈ tp.tSegq, q.tqeLen ≠ 0 := by
  intro ops tp
  have hok : Along OrderRun.step OrderRun.Ok ⟨{ rcvNxt := 0 }, false⟩ ops := by
    refine ⟨⟨rfl, rfl, nofun, 3, by decide, by decide⟩, ⟨by decide, rfl, nofun, 3, by decide,
      by decide⟩, trivial⟩
  have h := reassembly_queue_ordered { rcvNxt := 0 } ops rfl hok
  refine ⟨h.1, by decide, (h.2 fun th hth => ?_).2⟩
  simp only [ops, List.flatMap_cons, ReassOp.received, List.flatMap_nil, List.append_nil,
    List.cons_append, List.nil_append, List.mem_cons, List.not_mem_nil, or_false] at hth
  rcases hth with rfl | rfl <;> decide

/-- A FIN without data arrives twice behind a gap: two empty entries at one number. -/
theorem reassembly_queue_fin_twice :
    let fin : Segment := ⟨1, true, 0, []⟩
    let s := run OrderRun.step ⟨{ rcvNxt := 0 }, false⟩
      [.reass 0 (some 0) (some fin), .reass 0 (some 1) (some fin)]
    s.fin = false ∧ s.tp.tSegq.map (fun q => (q.thSeq, q.tqeLen)) = [(1, 0), (1, 0)] := by
  decide

end Libuinet
