import Libuinet.SerialArith
import Libuinet.Sockbuf
import Libuinet.TailQueue
import Mathlib.Data.Finset.Basic

namespace Libuinet

open TailQueue SerialArith

abbrev TcpSeq := BitVec 32

def seqGt (a b : TcpSeq) : Bool := decide (0 < (a - b).toInt)

/-- The connection states of `tcp_fsm.h`, in the order of their numbers. -/
inductive TcpState where
  | closed
  | listen
  | synSent
  | synReceived
  | established
  | closeWait
  | finWait1
  | closing
  | lastAck
  | finWait2
  | timeWait
  deriving DecidableEq, Repr

def TcpState.haveEstablished : TcpState → Bool
  | .closed | .listen | .synSent | .synReceived => false
  | _ => true

/-- The address of a `struct tseg_qent`: an item of `tcp_reass_zone`, or the
entry on the stack of `tcp_reass`. -/
inductive Tqe where
  | zone (slot : ℕ)
  | tqs
  deriving DecidableEq, Repr

/-- An entry of `t_segq`, with the fields of `tqe_th` that are used. -/
structure TsegQent where
  tqe : Tqe
  thSeq : TcpSeq
  thFin : Bool
  tqeLen : ℕ
  tqeM : List Mbuf

/-- The arguments `th`, `*tlenp` and `m`; the headers are already off `m`. -/
structure Segment where
  thSeq : TcpSeq
  thFin : Bool := false
  tlen : ℕ
  m : List Mbuf

/-- `struct callout`: the time it is pending for, and `CALLOUT_ACTIVE`. -/
structure Callout where
  cTime : Option ℕ := none
  active : Bool := false
  deriving DecidableEq, Repr

variable (tp : ReassCb) (ticks : ℕ) (alloc : Option ℕ)

/-- `callout_stop` for a delay of zero, else `callout_reset`, which takes the
delay as an `int` and waits for at least one tick. -/
def calloutFor (delta : ℕ) : Callout :=
  if delta = 0 then { cTime := none, active := false }
  else { cTime := some (ticks + if delta < 2 ^ 31 then delta else 1), active := true }

/-- The part of `struct tcpcb`, of its `inpcb` and of its socket that
`tcp_reass.c` works on.  Times are counts of ticks that do not wrap;
differences of them are taken as the code does.  `zone` is the set of items of
`tcp_reass_zone` held for this connection.  `handed` is a history variable: the
chains given to `sbappendstream_locked`, in call order. -/
structure ReassCb where
  tState : TcpState := .established
  inpPassive : Bool := true
  rcvNxt : TcpSeq
  tMaxseg : ℕ := 1460
  tReassdl : ℕ := 0
  tcpReassdl : ℕ := 100
  tSegq : List TsegQent := []
  tSegqlen : ℤ := 0
  tSegageq : TailQueue Tqe := init ⟨none, .head, fun _ => none, fun _ => .head⟩
  tqeTicks : Tqe → ℕ := fun _ => 0
  zone : Finset ℕ := ∅
  ttReassdl : Callout := {}
  soRcv : Sockbuf := Sockbuf.empty
  handed : List (List Mbuf) := []

namespace ReassCb

def tpReassdl : ℕ := if tp.tReassdl ≠ 0 then tp.tReassdl else tp.tcpReassdl

def umaZfree (slot : ℕ) : ReassCb := { tp with zone := tp.zone.erase slot }

def sbappendOrFree (ms : List Mbuf) : ReassCb :=
  if tp.soRcv.sbCantrcvmore then tp
  else { tp with soRcv := sbappendstreamLocked tp.soRcv ms, handed := tp.handed ++ [ms] }

def socantrcvmore : ReassCb :=
  { tp with soRcv := { tp.soRcv with sbCantrcvmore := true } }

/-- `int delta = ticks - q->tqe_ticks`, compared with an unsigned value. -/
def age (q : Tqe) : ℕ :=
  (((ticks : ℤ) - tp.tqeTicks q) % 2 ^ 32).toNat

def tcpTimerActivate (delta : ℕ) : ReassCb :=
  { tp with ttReassdl := calloutFor ticks delta }

def tcpReassNextHoleDeadline : ℕ :=
  match tp.tSegageq.first with
  | none => 0
  | some q =>
    let delta := tp.age ticks q
    if delta < tp.tpReassdl then tp.tpReassdl - delta else 1

end ReassCb

def tcpReassFlush : ReassCb :=
  tp.tSegq.foldl (fun tp qe =>
    let tp := { tp with tSegq := tp.tSegq.tail, tSegqlen := tp.tSegqlen - 1 }
    match qe.tqe with
    | .zone n => tp.umaZfree n
    | .tqs => tp) tp

def finHoleState : TcpState → TcpState
  | .synReceived | .established => .closeWait
  | .finWait1 => .closing
  | s => s

def deliverHoleBefore (q : TsegQent) : ReassCb :=
  let holeSize := (q.thSeq - tp.rcvNxt).toNat
  if holeSize ≠ 0 then tp.sbappendOrFree [mGethole holeSize] else tp

def deliverHolesEntry (q : TsegQent) (rest : List TsegQent) : ReassCb :=
  let tp := deliverHoleBefore tp q
  let tp := { tp with
    rcvNxt := q.thSeq + BitVec.ofNat 32 q.tqeLen
    tSegq := rest
    tSegageq := tp.tSegageq.remove q.tqe }
  let tp := tp.sbappendOrFree q.tqeM
  let tp := if q.thFin then
      { tp.socantrcvmore with rcvNxt := tp.rcvNxt + 1, tState := finHoleState tp.tState }
    else tp
  let tp := { tp with tSegqlen := tp.tSegqlen - 1 }
  match q.tqe with
  | .zone n => tp.umaZfree n
  | .tqs => tp

/-- The delivery loop: everything up to the entry `p`, and what then follows
without a gap. -/
def deliverHolesLoop (p : Tqe) : List TsegQent → Bool → ReassCb → ReassCb
  | [], _, tp => tp
  | q :: rest, contiguous, tp =>
    -- `p` is behind us and the next entry leaves a gap
    if contiguous && q.thSeq != tp.rcvNxt then tp
    else deliverHolesLoop p rest (contiguous || q.tqe == p) (deliverHolesEntry tp q rest)

def furthestExpired : Option Tqe :=
  ((tp.tSegq.filter fun q => tp.tpReassdl ≤ tp.age ticks q.tqe).getLast?).map TsegQent.tqe

def tcpReassDeliverHoles : ReassCb :=
  match furthestExpired tp ticks with
  | none => tp
  | some p =>
    let tp := deliverHolesLoop p tp.tSegq false tp
    tp.tcpTimerActivate ticks (tp.tcpReassNextHoleDeadline ticks)

/-- The callout goes off: it is no longer pending, and `tcp_timer_reassdl`
runs unless it has been stopped. -/
def tcpTimerReassdl : ReassCb :=
  if tp.ttReassdl.active then
    tcpReassDeliverHoles { tp with ttReassdl := { cTime := none, active := false } } ticks
  else { tp with ttReassdl := { tp.ttReassdl with cTime := none } }

/-- The variables of the presentation loop of `tcp_reass`. -/
structure Present where
  tp : ReassCb
  replaceTqsInList : Bool
  reclaimedTqe : Option ℕ := none
  flags : Bool := false

def presentEntry (s : Present) (q : TsegQent) (rest : List TsegQent) : Present :=
  let tp := { s.tp with
    rcvNxt := s.tp.rcvNxt + BitVec.ofNat 32 q.tqeLen
    tSegq := rest
    tSegageq := s.tp.tSegageq.remove q.tqe
    tSegqlen := s.tp.tSegqlen - 1 }
  let tp := tp.sbappendOrFree q.tqeM
  match q.tqe with
  | .tqs => { s with tp := tp, replaceTqsInList := false, flags := q.thFin }
  | .zone n =>
    -- the first item that comes free is kept for `tqs`
    if s.replaceTqsInList && s.reclaimedTqe.isNone then
      { s with tp := tp, reclaimedTqe := some n, flags := q.thFin }
    else { s with tp := tp.umaZfree n, flags := q.thFin }

def presentLoop : List TsegQent → Present → Present
  | [], s => s
  | q :: rest, s =>
    if q.thSeq = s.tp.rcvNxt then presentLoop rest (presentEntry s q rest) else s

def deliverLeadingHole (q : TsegQent) : ReassCb :=
  { tp.sbappendOrFree [mGethole (q.thSeq - tp.rcvNxt).toNat] with rcvNxt := q.thSeq }

def replaceTqs (slot : ℕ) : ReassCb :=
  { tp with
    tSegq := tp.tSegq.map fun q => if q.tqe = .tqs then { q with tqe := .zone slot } else q
    tqeTicks := Function.update tp.tqeTicks (.zone slot) (tp.tqeTicks .tqs)
    tSegageq := (tp.tSegageq.insertAfter .tqs (.zone slot)).remove .tqs }

def presentFinish (s : Present) (ticks : ℕ) : ReassCb × Bool :=
  let tp := match s.replaceTqsInList, s.reclaimedTqe with
    | true, some n => replaceTqs s.tp n
    | _, _ => s.tp
  let nextDeadline := tp.tcpReassNextHoleDeadline ticks
  (if !tp.ttReassdl.active || nextDeadline == 0 then tp.tcpTimerActivate ticks nextDeadline
    else tp, s.flags)

def tcpReassPresent (leadingHole replace : Bool) : ReassCb × Bool :=
  if !tp.tState.haveEstablished then (tp, false)
  else match tp.tSegq with
    | [] => (tp, false)
    | q :: rest =>
      -- still waiting for what comes before the first entry
      if q.thSeq ≠ tp.rcvNxt ∧ leadingHole = false then
        (if tp.inpPassive then tp.tcpTimerActivate ticks (tp.tcpReassNextHoleDeadline ticks)
          else tp, false)
      else
        let tp := if leadingHole then deliverLeadingHole tp q else tp
        presentFinish (presentLoop rest (presentEntry ⟨tp, replace, none, false⟩ q rest)) ticks

def outOfPlace (th : Segment) : Bool :=
  th.thSeq != tp.rcvNxt || !tp.tState.haveEstablished

def queueLimitReached : Bool :=
  decide ((tp.soRcv.sbHiwat.toNat / tp.tMaxseg : ℕ) + 1 ≤ tp.tSegqlen)

def splitQueue (th : Segment) : List TsegQent × List TsegQent :=
  tp.tSegq.span fun q => !seqGt q.thSeq th.thSeq

/-- The segment without what the preceding entry holds already; none if that
is all of it. -/
def trimByPredecessor (p : Option TsegQent) (th : Segment) : Option Segment :=
  match p with
  | none => some th
  | some p =>
    let i := (p.thSeq + BitVec.ofNat 32 p.tqeLen - th.thSeq).toInt
    if 0 < i then
      -- the preceding entry has all of it
      if (th.tlen : ℤ) ≤ i then none
      else some { th with
        m := mAdj th.m i
        tlen := th.tlen - i.toNat
        thSeq := th.thSeq + BitVec.ofNat 32 i.toNat }
    else some th

/-- The following entries, trimmed or dequeued where the segment ending at
`edge` overlaps them, and the entries dequeued. -/
def trimSuccessors (edge : TcpSeq) : List TsegQent → List TsegQent × List Tqe
  | [] => ([], [])
  | q :: qs =>
    let i := (edge - q.thSeq).toInt
    if i ≤ 0 then (q :: qs, [])
    else if i < q.tqeLen then
      -- the overlap is taken from the entry, and nothing behind it can overlap
      ({ q with
          thSeq := q.thSeq + BitVec.ofNat 32 i.toNat
          tqeLen := q.tqeLen - i.toNat
          tqeM := mAdj q.tqeM i } :: qs, [])
    else ((trimSuccessors edge qs).1, q.tqe :: (trimSuccessors edge qs).2)

def freeAll (l : List Tqe) : ReassCb :=
  l.foldl (fun tp q => match q with
    | .zone n => tp.umaZfree n
    | .tqs => tp) tp

/-- The trimmed segment goes in as the entry `te`.  The entries it covers leave
`t_segq` and the zone, and stay on the age list. -/
def insertSegment (te : Tqe) (pre post : List TsegQent) (th : Segment) : ReassCb :=
  let r := trimSuccessors (th.thSeq + BitVec.ofNat 32 th.tlen) post
  let tp := freeAll tp r.2
  { tp with
    tSegq := pre ++ ⟨te, th.thSeq, th.thFin, th.tlen, th.m⟩ :: r.1
    tSegqlen := tp.tSegqlen + 1 - r.2.length
    tqeTicks := Function.update tp.tqeTicks te ticks
    tSegageq := tp.tSegageq.insertTail te }

/-- The entry used for the segment: from `uma_zalloc`, or `tqs` when that
fails. -/
def entryFor : Option ℕ → Tqe
  | some n => .zone n
  | none => .tqs

def queueSegment (th th' : Segment) : ReassCb :=
  insertSegment { tp with zone := alloc.elim tp.zone fun n => insert n tp.zone } ticks
    (entryFor alloc) (splitQueue tp th).1 (splitQueue tp th).2 th'

def shortOfResources (th : Segment) : Bool :=
  outOfPlace tp th && (queueLimitReached tp || alloc.isNone)

/-- `tcp_reass` for a segment that is not dropped for want of resources. -/
def tcpReassQueue (leadingHole : Bool) (th : Segment) : ReassCb × Bool × ℕ :=
  let pre := (splitQueue tp th).1
  match trimByPredecessor pre.getLast? th with
  | none =>
    -- a duplicate: an item that was allocated goes straight back
    let r := tcpReassPresent tp ticks leadingHole false
    (r.1, r.2, th.tlen)
  | some th' =>
    let replace := !pre.isEmpty && tp.inpPassive && alloc.isNone
    let r := tcpReassPresent (queueSegment tp ticks alloc th th') ticks leadingHole replace
    (r.1, r.2, th'.tlen)

/-- `tcp_reass`.  `alloc` is the outcome of `uma_zalloc`.  The result is the
control block, the returned `TH_FIN` and `*tlenp`. -/
def tcpReass (th : Option Segment) : ReassCb × Bool × ℕ :=
  match th with
  | none =>
    let r := tcpReassPresent tp ticks false false
    (r.1, r.2, 0)
  | some th =>
    if shortOfResources tp alloc th && !tp.inpPassive then (tp, false, 0)
    else tcpReassQueue tp ticks alloc (shortOfResources tp alloc th) th

structure TimedReass where
  ticks : ℕ
  tp : ReassCb

inductive TimedOp where
  | reass (alloc : Option ℕ) (th : Option Segment)
  | advance (d : ℕ)
  | fire

/-- A call, the passing of time, or the callout going off once its time has
come. -/
def TimedReass.step (s : TimedReass) : TimedOp → TimedReass
  | .reass alloc th => { s with tp := (tcpReass s.tp s.ticks alloc th).1 }
  | .advance d => { s with ticks := s.ticks + d }
  | .fire =>
    match s.tp.ttReassdl.cTime with
    | some t => if t ≤ s.ticks then { s with tp := tcpTimerReassdl s.tp s.ticks } else s
    | none => s

namespace ReassCb

def appendAll (tp : ReassCb) (l : List (List Mbuf)) : ReassCb :=
  { tp with
    soRcv := if tp.soRcv.sbCantrcvmore then tp.soRcv else l.foldl sbappendstreamLocked tp.soRcv
    handed := if tp.soRcv.sbCantrcvmore then tp.handed else tp.handed ++ l }

theorem sbappendOrFree_eq (ms : List Mbuf) : tp.sbappendOrFree ms = tp.appendAll [ms] := by
  unfold sbappendOrFree appendAll
  split_ifs <;> rfl

theorem foldl_sbappendstreamLocked_sbCantrcvmore (l : List (List Mbuf)) (sb : Sockbuf) :
    (l.foldl sbappendstreamLocked sb).sbCantrcvmore = sb.sbCantrcvmore := by
  induction l generalizing sb with
  | nil => rfl
  | cons ms l ih => rw [List.foldl_cons, ih, sbappendstreamLocked_sbCantrcvmore]

theorem appendAll_append (l l' : List (List Mbuf)) :
    tp.appendAll (l ++ l') = (tp.appendAll l).appendAll l' := by
  by_cases h : tp.soRcv.sbCantrcvmore = true
  · simp [appendAll, h]
  · have hl : (l.foldl sbappendstreamLocked tp.soRcv).sbCantrcvmore = false := by
      rw [foldl_sbappendstreamLocked_sbCantrcvmore]
      simpa using h
    simp [appendAll, h, hl]

theorem appendAll_nil : tp.appendAll [] = tp := by
  simp [appendAll]

@[simp] theorem appendAll_sbCantrcvmore (l : List (List Mbuf)) :
    (tp.appendAll l).soRcv.sbCantrcvmore = tp.soRcv.sbCantrcvmore := by
  unfold appendAll
  dsimp only
  split_ifs
  · rfl
  · exact foldl_sbappendstreamLocked_sbCantrcvmore l tp.soRcv

end ReassCb

def holeBefore (rcvNxt : TcpSeq) (q : TsegQent) : List (List Mbuf) :=
  if q.thSeq = rcvNxt then [] else [[mGethole (q.thSeq - rcvNxt).toNat]]

def zoneWithout (zone : Finset ℕ) : Tqe → Finset ℕ
  | .tqs => zone
  | .zone n => zone.erase n

section

variable (s : Present) (q : TsegQent) (rest : List TsegQent)

/-- The control block after one turn of the presentation loop. -/
theorem presentEntry_tp :
    (presentEntry s q rest).tp = { s.tp.appendAll [q.tqeM] with
      rcvNxt := s.tp.rcvNxt + BitVec.ofNat 32 q.tqeLen
      tSegq := rest
      tSegageq := s.tp.tSegageq.remove q.tqe
      tSegqlen := s.tp.tSegqlen - 1
      zone := if s.replaceTqsInList && s.reclaimedTqe.isNone then s.tp.zone
        else zoneWithout s.tp.zone q.tqe } := by
  simp only [presentEntry, ReassCb.sbappendOrFree_eq]
  split
  · rename_i h
    simp [h, zoneWithout, ReassCb.appendAll]
  · rename_i n h
    split_ifs <;> simp_all [zoneWithout, ReassCb.appendAll, ReassCb.umaZfree]

@[simp] theorem presentEntry_flags : (presentEntry s q rest).flags = q.thFin := by
  unfold presentEntry
  split
  · rfl
  · split_ifs <;> rfl

end

/-- The control block after one turn of the delivery loop. -/
theorem deliverHolesEntry_eq (q : TsegQent) (rest : List TsegQent) :
    deliverHolesEntry tp q rest = { tp.appendAll (holeBefore tp.rcvNxt q ++ [q.tqeM]) with
      tState := if q.thFin then finHoleState tp.tState else tp.tState
      rcvNxt := q.thSeq + BitVec.ofNat 32 q.tqeLen + if q.thFin then 1 else 0
      tSegq := rest
      tSegageq := tp.tSegageq.remove q.tqe
      tSegqlen := tp.tSegqlen - 1
      zone := zoneWithout tp.zone q.tqe
      soRcv :=
        let sb := (tp.appendAll (holeBefore tp.rcvNxt q ++ [q.tqeM])).soRcv
        { sb with sbCantrcvmore := sb.sbCantrcvmore || q.thFin } } := by
  have hhole : deliverHoleBefore tp q = tp.appendAll (holeBefore tp.rcvNxt q) := by
    have hz : (q.thSeq - tp.rcvNxt).toNat = 0 ↔ q.thSeq = tp.rcvNxt := off_eq_zero
    rw [deliverHoleBefore, holeBefore, ReassCb.sbappendOrFree_eq]
    by_cases hs : q.thSeq = tp.rcvNxt
    · rw [if_neg (not_not.mpr (hz.mpr hs)), if_pos hs, ReassCb.appendAll_nil]
    · rw [if_pos (mt hz.mp hs), if_neg hs]
  simp only [deliverHolesEntry, hhole, ReassCb.appendAll_append, ReassCb.sbappendOrFree_eq]
  cases q.thFin <;> cases q.tqe <;>
    simp only [Bool.or_false, Bool.or_true, Bool.false_eq_true, if_false, if_true,
      add_zero] <;> rfl

def presentStart (tp : ReassCb) (q : TsegQent) (leadingHole replace : Bool) : Present :=
  ⟨if leadingHole then deliverLeadingHole tp q else tp, replace, none, false⟩

theorem presentStart_tp (q : TsegQent) (leadingHole replace : Bool)
    (h : q.thSeq = tp.rcvNxt ∨ leadingHole = true) :
    (presentStart tp q leadingHole replace).tp =
      { tp.appendAll (if leadingHole then [[mGethole (q.thSeq - tp.rcvNxt).toNat]] else []) with
        rcvNxt := q.thSeq } := by
  cases leadingHole with
  | true =>
    simp only [presentStart, deliverLeadingHole, ReassCb.sbappendOrFree_eq, if_true]
  | false =>
    have hs : q.thSeq = tp.rcvNxt := by simpa using h
    simp only [presentStart, Bool.false_eq_true, if_false, ReassCb.appendAll_nil, hs]

/-- Everything the part from `present` on can do: nothing, arm the timer, or
deliver the first entry and what follows it without a gap. -/
theorem tcpReassPresent_cases (leadingHole replace : Bool) :
    ((tp.tState.haveEstablished = false ∨ tp.tSegq = []) ∧
      tcpReassPresent tp ticks leadingHole replace = (tp, false)) ∨
    (∃ q rest, tp.tState.haveEstablished = true ∧ tp.tSegq = q :: rest ∧ q.thSeq ≠ tp.rcvNxt ∧
      leadingHole = false ∧
      tcpReassPresent tp ticks leadingHole replace =
        (if tp.inpPassive then tp.tcpTimerActivate ticks (tp.tcpReassNextHoleDeadline ticks)
          else tp, false)) ∨
    (∃ q rest, tp.tState.haveEstablished = true ∧ tp.tSegq = q :: rest ∧
      (q.thSeq = tp.rcvNxt ∨ leadingHole = true) ∧
      tcpReassPresent tp ticks leadingHole replace =
        presentFinish (presentLoop rest
          (presentEntry (presentStart tp q leadingHole replace) q rest)) ticks) := by
  unfold tcpReassPresent
  by_cases he : tp.tState.haveEstablished = true
  · cases hq : tp.tSegq with
    | nil => simp
    | cons q rest =>
      by_cases hw : q.thSeq ≠ tp.rcvNxt ∧ leadingHole = false
      · refine Or.inr (Or.inl ⟨q, rest, he, rfl, hw.1, hw.2, ?_⟩)
        simp [he, hw]
      · refine Or.inr (Or.inr ⟨q, rest, he, rfl, ?_, ?_⟩)
        · by_cases hs : q.thSeq = tp.rcvNxt
          · exact Or.inl hs
          · exact Or.inr (by simpa [hs] using hw)
        · simp only [he, Bool.not_true, Bool.false_eq_true, if_false, if_neg hw, presentStart]
  · simp [he]

/-- Everything `tcp_reass` can do with a segment: drop it, find that it is a
duplicate, or queue it. -/
theorem tcpReass_cases (th : Segment) :
    (shortOfResources tp alloc th = true ∧ tp.inpPassive = false ∧
      tcpReass tp ticks alloc (some th) = (tp, false, 0)) ∨
    ((shortOfResources tp alloc th = true → tp.inpPassive = true) ∧
      trimByPredecessor (splitQueue tp th).1.getLast? th = none ∧
      ((tcpReass tp ticks alloc (some th)).1, (tcpReass tp ticks alloc (some th)).2.1) =
        tcpReassPresent tp ticks (shortOfResources tp alloc th) false) ∨
    ((shortOfResources tp alloc th = true → tp.inpPassive = true) ∧
      ∃ th', trimByPredecessor (splitQueue tp th).1.getLast? th = some th' ∧
        ((tcpReass tp ticks alloc (some th)).1, (tcpReass tp ticks alloc (some th)).2.1) =
          tcpReassPresent (queueSegment tp ticks alloc th th') ticks
            (shortOfResources tp alloc th)
            (!(splitQueue tp th).1.isEmpty && tp.inpPassive && alloc.isNone)) := by
  have hr : tcpReass tp ticks alloc (some th) =
      if shortOfResources tp alloc th && !tp.inpPassive then (tp, false, 0)
      else tcpReassQueue tp ticks alloc (shortOfResources tp alloc th) th := rfl
  rw [hr]
  by_cases hd : (shortOfResources tp alloc th && !tp.inpPassive) = true
  · simp only [Bool.and_eq_true, Bool.not_eq_true'] at hd
    simp [hd]
  · have hp : shortOfResources tp alloc th = true → tp.inpPassive = true := by
      intro hs
      simpa [hs] using hd
    rw [if_neg hd]
    cases ht : trimByPredecessor (splitQueue tp th).1.getLast? th with
    | none => exact Or.inr (Or.inl ⟨hp, rfl, by simp only [tcpReassQueue, ht]⟩)
    | some th' => exact Or.inr (Or.inr ⟨hp, th', rfl, by simp only [tcpReassQueue, ht]⟩)

theorem freeAll_eq (l : List Tqe) :
    freeAll tp l = { tp with zone := l.foldl zoneWithout tp.zone } := by
  induction l generalizing tp with
  | nil => rfl
  | cons q l ih =>
    have hcons : freeAll tp (q :: l) = freeAll { tp with zone := zoneWithout tp.zone q } l := by
      cases q <;> rfl
    rw [hcons, ih, List.foldl_cons]

/-- Queueing a segment changes the two lists, their length and the zone. -/
theorem queueSegment_eq (th th' : Segment) :
    queueSegment tp ticks alloc th th' =
      let r := trimSuccessors (th'.thSeq + BitVec.ofNat 32 th'.tlen) (splitQueue tp th).2
      { tp with
        tSegq := (splitQueue tp th).1 ++
          ⟨entryFor alloc, th'.thSeq, th'.thFin, th'.tlen, th'.m⟩ :: r.1
        tSegqlen := tp.tSegqlen + 1 - r.2.length
        tqeTicks := Function.update tp.tqeTicks (entryFor alloc) ticks
        tSegageq := tp.tSegageq.insertTail (entryFor alloc)
        zone := r.2.foldl zoneWithout (alloc.elim tp.zone fun n => insert n tp.zone) } := by
  simp only [queueSegment, insertSegment, freeAll_eq]

theorem splitQueue_append (th : Segment) :
    (splitQueue tp th).1 ++ (splitQueue tp th).2 = tp.tSegq := by
  simp [splitQueue, List.span_eq_takeWhile_dropWhile]

def TsegQent.segment (q : TsegQent) : Segment := ⟨q.thSeq, q.thFin, q.tqeLen, q.tqeM⟩

namespace ReassCb

def segments (tp : ReassCb) : List Segment := tp.tSegq.map TsegQent.segment

/-- The two blocks agree on the stream and on what is queued. -/
structure SameData (tp tp' : ReassCb) : Prop where
  tState : tp'.tState = tp.tState
  inpPassive : tp'.inpPassive = tp.inpPassive
  rcvNxt : tp'.rcvNxt = tp.rcvNxt
  segments : tp'.segments = tp.segments
  soRcv : tp'.soRcv = tp.soRcv
  handed : tp'.handed = tp.handed
  tpReassdl : tp'.tpReassdl = tp.tpReassdl

theorem SameData.refl : tp.SameData tp := ⟨rfl, rfl, rfl, rfl, rfl, rfl, rfl⟩

theorem SameData.timer (c : Callout) : tp.SameData { tp with ttReassdl := c } :=
  ⟨rfl, rfl, rfl, rfl, rfl, rfl, rfl⟩

theorem SameData.trans {a b c : ReassCb} (h : a.SameData b) (h' : b.SameData c) :
    a.SameData c :=
  ⟨h'.tState.trans h.tState, h'.inpPassive.trans h.inpPassive, h'.rcvNxt.trans h.rcvNxt,
    h'.segments.trans h.segments, h'.soRcv.trans h.soRcv, h'.handed.trans h.handed,
    h'.tpReassdl.trans h.tpReassdl⟩

def popEntry (tp : ReassCb) (q : TsegQent) (rest : List TsegQent) : ReassCb :=
  { tp.appendAll [q.tqeM] with
    rcvNxt := tp.rcvNxt + BitVec.ofNat 32 q.tqeLen
    tSegq := rest }

def actOnFin (tp : ReassCb) : ReassCb :=
  { tp.socantrcvmore with rcvNxt := tp.rcvNxt + 1, tState := finHoleState tp.tState }

end ReassCb

theorem presentEntry_sameData (s : Present) (q : TsegQent) (rest : List TsegQent) :
    (s.tp.popEntry q rest).SameData (presentEntry s q rest).tp := by
  rw [presentEntry_tp]
  exact ⟨rfl, rfl, rfl, rfl, rfl, rfl, rfl⟩

theorem replaceTqs_sameData (slot : ℕ) : tp.SameData (replaceTqs tp slot) := by
  refine ⟨rfl, rfl, rfl, ?_, rfl, rfl, rfl⟩
  simp only [ReassCb.segments, replaceTqs, List.map_map]
  apply List.map_congr_left
  intro q _
  simp only [Function.comp_apply]
  split_ifs <;> rfl

theorem presentFinish_sameData (s : Present) (ticks : ℕ) :
    s.tp.SameData (presentFinish s ticks).1 := by
  have htimer : ∀ tp : ReassCb, ∀ b : Bool, ∀ delta : ℕ,
      tp.SameData (if b then tp.tcpTimerActivate ticks delta else tp) := by
    intro tp b delta
    cases b
    · exact .refl tp
    · exact .timer tp _
  unfold presentFinish
  dsimp only
  split
  · exact (replaceTqs_sameData _ _).trans (htimer _ _ _)
  · exact htimer _ _ _

section Flags

variable {J : ReassCb → Bool → Prop} (hJ : ∀ tp tp' b, tp.SameData tp' → J tp b → J tp' b)
  (hpop : ∀ tp b q rest, J tp b → tp.tSegq = q :: rest → q.thSeq = tp.rcvNxt →
    J (tp.popEntry q rest) q.thFin)
include hJ hpop

theorem presentLoop_flags (l : List TsegQent) (s : Present) (hl : s.tp.tSegq = l)
    (h : J s.tp s.flags) : J (presentLoop l s).tp (presentLoop l s).flags := by
  induction l generalizing s with
  | nil => exact h
  | cons q rest ih =>
    unfold presentLoop
    split_ifs with hseq
    · apply ih
      · rw [presentEntry_tp]
      · rw [presentEntry_flags]
        exact hJ _ _ _ (presentEntry_sameData s q rest) (hpop _ _ q rest h hl hseq)
    · exact h

theorem tcpReassPresent_flags {tp : ReassCb} (h : J tp false) (ticks : ℕ)
    (leadingHole replace : Bool) (hhole : ∀ q rest, tp.tSegq = q :: rest → leadingHole = true →
      J { tp.appendAll [[mGethole (q.thSeq - tp.rcvNxt).toNat]] with rcvNxt := q.thSeq } false) :
    J (tcpReassPresent tp ticks leadingHole replace).1
      (tcpReassPresent tp ticks leadingHole replace).2 := by
  obtain ⟨-, he⟩ | ⟨q, rest, -, -, -, -, he⟩ | ⟨q, rest, -, hq, hseq, he⟩ :=
    tcpReassPresent_cases tp ticks leadingHole replace
  · rw [he]
    exact h
  · rw [he]
    dsimp only
    split_ifs
    · exact hJ _ _ _ (.timer tp _) h
    · exact h
  · rw [he]
    have hstart := presentStart_tp tp q leadingHole replace hseq
    have h0 : J (presentStart tp q leadingHole replace).tp false := by
      rw [hstart]
      cases leadingHole with
      | true => exact hhole q rest hq rfl
      | false =>
        have hs : q.thSeq = tp.rcvNxt := by simpa using hseq
        simpa [ReassCb.appendAll_nil, hs] using h
    have hq₀ : (presentStart tp q leadingHole replace).tp.tSegq = q :: rest := by
      rw [hstart]
      exact hq
    have hs₀ : q.thSeq = (presentStart tp q leadingHole replace).tp.rcvNxt := by rw [hstart]
    have h1 := hJ _ _ _ (presentEntry_sameData _ q rest) (hpop _ _ q rest h0 hq₀ hs₀)
    rw [← presentEntry_flags (presentStart tp q leadingHole replace) q rest] at h1
    exact hJ _ _ _ (presentFinish_sameData _ _)
      (presentLoop_flags hJ hpop rest _ (by rw [presentEntry_tp]) h1)

/-- The rule for `tcp_reass`.  A segment that is not queued is refused, or is
found to be a duplicate. -/
theorem tcpReass_flags
    (hhole : ∀ tp q rest, J tp false → tp.tSegq = q :: rest → tp.inpPassive = true →
      J { tp.appendAll [[mGethole (q.thSeq - tp.rcvNxt).toNat]] with rcvNxt := q.thSeq } false)
    {tp : ReassCb} (ticks : ℕ) (alloc : Option ℕ) (th : Segment)
    (hrefuse : shortOfResources tp alloc th = true → tp.inpPassive = false → J tp false)
    (hdup : (shortOfResources tp alloc th = true → tp.inpPassive = true) →
      trimByPredecessor (splitQueue tp th).1.getLast? th = none → J tp false)
    (hqueue : (shortOfResources tp alloc th = true → tp.inpPassive = true) →
      ∀ th', trimByPredecessor (splitQueue tp th).1.getLast? th = some th' →
        J (queueSegment tp ticks alloc th th') false) :
    J (tcpReass tp ticks alloc (some th)).1 (tcpReass tp ticks alloc (some th)).2.1 := by
  obtain ⟨hs, hp, he⟩ | ⟨hpas, htrim, he⟩ | ⟨hpas, th', htrim, he⟩ :=
    tcpReass_cases tp ticks alloc th
  · rw [he]
    exact hrefuse hs hp
  · have hflag : (tcpReass tp ticks alloc (some th)).2.1 = _ := congrArg Prod.snd he
    rw [congrArg Prod.fst he, hflag]
    have hd := hdup hpas htrim
    exact tcpReassPresent_flags hJ hpop hd ticks _ _ fun q rest hq hs =>
      hhole tp q rest hd hq (hpas hs)
  · have hflag : (tcpReass tp ticks alloc (some th)).2.1 = _ := congrArg Prod.snd he
    rw [congrArg Prod.fst he, hflag]
    have hq' := hqueue hpas th' htrim
    refine tcpReassPresent_flags hJ hpop hq' ticks _ _ fun q rest hq hs =>
      hhole _ q rest hq' hq ?_
    rw [queueSegment_eq]
    exact hpas hs

end Flags

/-- The hole in front of the first entry is delivered, and then the entry. -/
def afterHole (tp : ReassCb) (q : TsegQent) (rest : List TsegQent) : ReassCb :=
  ReassCb.popEntry { tp.appendAll (holeBefore tp.rcvNxt q) with rcvNxt := q.thSeq } q rest

/-- One turn of the delivery loop, in terms of what is delivered and the FIN. -/
theorem deliverHolesEntry_sameData (q : TsegQent) (rest : List TsegQent) :
    (if q.thFin then (afterHole tp q rest).actOnFin else afterHole tp q rest).SameData
      (deliverHolesEntry tp q rest) := by
  rw [deliverHolesEntry_eq, ReassCb.appendAll_append]
  cases q.thFin with
  | true =>
    refine ⟨rfl, rfl, rfl, rfl, ?_, rfl, rfl⟩
    simp only [Bool.or_true]
    rfl
  | false =>
    refine ⟨rfl, rfl, ?_, rfl, ?_, rfl, rfl⟩
    · simp [afterHole, ReassCb.popEntry]
    · simp only [Bool.or_false]
      rfl

section Rules

variable {I : ReassCb → Prop} {tp : ReassCb} (hI : ∀ tp tp', tp.SameData tp' → I tp → I tp')
  (hpop : ∀ tp q rest, I tp → tp.tSegq = q :: rest → q.thSeq = tp.rcvNxt → I (tp.popEntry q rest))
include hI hpop

theorem tcpReassPresent_rule (h : I tp) (ticks : ℕ) (leadingHole replace : Bool)
    (hhole : ∀ q rest, tp.tSegq = q :: rest → leadingHole = true →
      I { tp.appendAll [[mGethole (q.thSeq - tp.rcvNxt).toNat]] with rcvNxt := q.thSeq }) :
    I (tcpReassPresent tp ticks leadingHole replace).1 :=
  tcpReassPresent_flags (fun tp tp' _ => hI tp tp') (fun tp _ => hpop tp) h ticks leadingHole
    replace hhole (J := fun tp _ => I tp)

theorem tcpReass_rule (hhole : ∀ tp q rest, I tp → tp.tSegq = q :: rest → tp.inpPassive = true →
      I { tp.appendAll [[mGethole (q.thSeq - tp.rcvNxt).toNat]] with rcvNxt := q.thSeq }) (h : I tp)
    (ticks : ℕ) (alloc : Option ℕ) (th : Segment)
    (hqueue : ∀ th', trimByPredecessor (splitQueue tp th).1.getLast? th = some th' →
      I (queueSegment tp ticks alloc th th')) :
    I (tcpReass tp ticks alloc (some th)).1 :=
  tcpReass_flags (fun tp tp' _ => hI tp tp') (fun tp _ => hpop tp) hhole ticks alloc th
    (fun _ _ => h) (fun _ _ => h) (fun _ => hqueue) (J := fun tp _ => I tp)

/-- What a leading hole and a delivered entry keep, a turn without a FIN keeps. -/
theorem deliverHolesEntry_rule (hhole : ∀ tp q rest, I tp → tp.tSegq = q :: rest →
      I { tp.appendAll [[mGethole (q.thSeq - tp.rcvNxt).toNat]] with rcvNxt := q.thSeq })
    {q : TsegQent} {rest : List TsegQent} (h : I tp) (hq : tp.tSegq = q :: rest)
    (hfin : q.thFin = false) : I (deliverHolesEntry tp q rest) := by
  have hsame := deliverHolesEntry_sameData tp q rest
  rw [hfin, if_neg Bool.false_ne_true] at hsame
  apply hI _ _ hsame
  rw [afterHole, holeBefore]
  split_ifs with hseq
  · rw [ReassCb.appendAll_nil, hseq]
    exact hpop tp q rest h hq hseq
  · exact hpop _ q rest (hhole tp q rest h hq) hq rfl

omit hpop in
/-- The rule for `tcp_reass_deliver_holes`. -/
theorem tcpReassDeliverHoles_rule
    (hentry : ∀ tp q rest, I tp → tp.tSegq = q :: rest → I (deliverHolesEntry tp q rest)) (h : I tp)
    (ticks : ℕ) : I (tcpReassDeliverHoles tp ticks) := by
  have hloop : ∀ p l contiguous (tp : ReassCb), tp.tSegq = l → I tp →
      I (deliverHolesLoop p l contiguous tp) := by
    intro p l
    induction l with
    | nil => exact fun _ _ _ h => h
    | cons q rest ih =>
      intro contiguous tp hl h
      unfold deliverHolesLoop
      split_ifs with hgap
      · exact h
      · exact ih _ _ (by rw [deliverHolesEntry_eq]) (hentry tp q rest h hl)
  unfold tcpReassDeliverHoles
  split
  · exact h
  · exact hI _ _ (.timer _ _) (hloop _ _ _ _ rfl h)

end Rules

end Libuinet
