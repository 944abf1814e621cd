import Libuinet.TcpRecv

namespace Libuinet

open Execution SerialArith

/-- What can happen to a connection. -/
inductive TcpOp where
  /-- `tcp_do_segment` -/
  | segment (e : TcpEnv) (p : TcpPkt)
  /-- the clock of the reassembly timer -/
  | timer (ticks : ℕ)
  /-- `soreceive` takes `n` bytes and calls `tcp_usr_rcvd` -/
  | read (e : TcpEnv) (n : ℕ)

def TcpPkt.ofBytes (thSeq : TcpSeq) (thFlags : TcpFlags) (bs : List UInt8)
    (hfits : bs.length ≤ intMax := by decide) : TcpPkt where
  th := { thSeq := thSeq, thFlags := thFlags }
  tlen := bs.length
  m := [Mbuf.ofBytes bs]
  fits := by simpa [Mbuf.ofBytes] using hfits

def ReassCb.fireReassdl (tp : ReassCb) (ticks : ℕ) : ReassCb :=
  match tp.ttReassdl.cTime with
  | some t => if t ≤ ticks then tcpTimerReassdl tp ticks else tp
  | none => tp

/-- Bytes leave the receive buffer, and `tcp_usr_rcvd` calls `tcp_output`. -/
def tcpUsrRcvd (e : TcpEnv) (tp : Tcpcb) (n : ℕ) : TcpResult :=
  match sbdropLocked tp.soRcv n with
  | none => { tp := tp, fate := .panicked }
  | some sb => { tp := tcpOutput e { tp with soRcv := sb } }

def TcpResult.step (c : TcpResult) (op : TcpOp) : TcpResult :=
  if c.fate = .live then
    match op with
    | .segment e p => tcpDoSegment e c.tp p
    | .timer ticks => { tp := { c.tp with toReassCb := c.tp.toReassCb.fireReassdl ticks } }
    | .read e n => tcpUsrRcvd e c.tp n
  else c

section Step

variable {c : TcpResult} (h : c.fate = .live)
include h

theorem TcpResult.step_segment (e : TcpEnv) (p : TcpPkt) :
    c.step (.segment e p) = tcpDoSegment e c.tp p := if_pos h

theorem TcpResult.step_timer (ticks : ℕ) : c.step (.timer ticks) =
    { tp := { c.tp with toReassCb := c.tp.toReassCb.fireReassdl ticks } } := if_pos h

theorem TcpResult.step_read (e : TcpEnv) (n : ℕ) : c.step (.read e n) = tcpUsrRcvd e c.tp n :=
  if_pos h

end Step

theorem TcpResult.step_dead {c : TcpResult} (h : c.fate ≠ .live) (op : TcpOp) : c.step op = c :=
  if_neg h

/-- The peer may send, and the connection is not waiting to go away. -/
def TcpState.Receiving (s : TcpState) : Prop := s.haveEstablished = true ∧ s ≠ .timeWait

theorem StateKept.receiving {a b : TcpState} (h : StateKept a b) (ha : a.Receiving) :
    b.Receiving := by
  rcases h with rfl | ⟨-, rfl⟩
  · exact ha
  · exact ⟨rfl, by decide⟩

theorem finHoleState_receiving {s : TcpState} (h : s.Receiving) :
    (finHoleState s).Receiving := by
  cases s <;> first | exact ⟨rfl, by decide⟩ | exact h

/-- `tcp_reass` leaves the connection state to its caller. -/
theorem tcpReass_tState (tp : ReassCb) (ticks : ℕ) (alloc : Option ℕ) (th : Segment) :
    (tcpReass tp ticks alloc (some th)).1.tState = tp.tState := by
  refine tcpReass_rule (I := fun tp' => tp'.tState = tp.tState) ?_ (fun _ _ _ h _ _ => h)
    (fun _ _ _ h _ _ => h) rfl ticks alloc th ?_
  · intro _ _ hs h
    exact hs.tState.trans h
  · intro th' _
    rw [queueSegment_eq]

theorem InputVars.received_tState (e : TcpEnv) (v : InputVars) :
    (v.received e).1.tState = v.tp.tState := by
  unfold InputVars.received
  split_ifs
  · rw [acceptInOrder, ReassCb.sbappendOrFree_eq]
    rfl
  · exact tcpReass_tState _ _ _ _
  · rfl

theorem InputVars.outcome_receiving (e : TcpEnv) {v : InputVars} (h : v.tp.tState.Receiving) :
    (v.outcome e).tState.Receiving := by
  have hr : (v.received e).1.tState.Receiving := by rwa [v.received_tState e]
  unfold InputVars.outcome
  split_ifs
  · exact finHoleState_receiving hr
  · exact hr

/-- The end of a call that has reached `dodata`. -/
theorem InputVars.Reached.finish (e : TcpEnv) {v : InputVars} {tp : Tcpcb} {p : TcpPkt} {d : ℤ}
    (h : v.Reached tp p d) (hst : tp.tState.Receiving) : v.tp.tState.Receiving ∧
      (v.tp.setReass (v.outcome e)).Keeps (finishInput e v).tp := by
  have hstv : v.tp.tState.Receiving := h.keeps.state.receiving hst
  refine ⟨hstv, finishInput_spec e v ?_⟩
  rw [v.received_tState e]
  exact hstv.2

theorem fireReassdl_cases (tp : ReassCb) (ticks : ℕ) :
    tp.SameData (tp.fireReassdl ticks) ∨
      ∃ c, tp.fireReassdl ticks = tcpReassDeliverHoles { tp with ttReassdl := c } ticks := by
  unfold ReassCb.fireReassdl tcpTimerReassdl
  split
  · split_ifs
    · exact Or.inr ⟨_, rfl⟩
    · exact Or.inl (.timer tp _)
    · exact Or.inl (.refl tp)
  · exact Or.inl (.refl tp)

theorem fireReassdl_rule {I : ReassCb → Prop} (hI : ∀ tp tp', tp.SameData tp' → I tp → I tp')
    (hentry : ∀ tp q rest, I tp → tp.tSegq = q :: rest → I (deliverHolesEntry tp q rest))
    {tp : ReassCb} (h : I tp) (ticks : ℕ) : I (tp.fireReassdl ticks) := by
  obtain hs | ⟨c, hc⟩ := fireReassdl_cases tp ticks
  · exact hI _ _ hs h
  · rw [hc]
    exact tcpReassDeliverHoles_rule hI hentry (hI _ _ (.timer tp c) h) ticks

theorem fireReassdl_inpPassive (tp : ReassCb) (ticks : ℕ) :
    (tp.fireReassdl ticks).inpPassive = tp.inpPassive := by
  refine fireReassdl_rule (I := fun tp' => tp'.inpPassive = tp.inpPassive) ?_ ?_ rfl ticks
  · intro _ _ hs h
    exact hs.inpPassive.trans h
  · intro tp' q rest h _
    rw [deliverHolesEntry_eq]
    exact h

theorem fireReassdl_receiving {tp : ReassCb} (ticks : ℕ) (h : tp.tState.Receiving) :
    (tp.fireReassdl ticks).tState.Receiving := by
  refine fireReassdl_rule (I := fun tp => tp.tState.Receiving) ?_ ?_ h ticks
  · intro _ _ hs h
    rwa [hs.tState]
  · intro tp q rest h _
    rw [deliverHolesEntry_eq]
    dsimp only
    split_ifs
    · exact finHoleState_receiving h
    · exact h

end Libuinet
