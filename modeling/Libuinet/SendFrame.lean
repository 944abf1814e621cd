import Libuinet.TcpConn

namespace Libuinet

open Execution SerialArith

/-- A passive connection stays passive, and keeps its `last_ack_sent`. -/
structure Tcpcb.Frozen (a b : Tcpcb) : Prop where
  inpPassive : b.inpPassive = a.inpPassive
  lastAckSent : a.inpPassive = true → b.lastAckSent = a.lastAckSent

section Frozen

variable {a b c : Tcpcb}

theorem Tcpcb.Frozen.of_eq (hp : b.inpPassive = a.inpPassive)
    (hl : b.lastAckSent = a.lastAckSent) : a.Frozen b := ⟨hp, fun _ => hl⟩

theorem Tcpcb.Frozen.trans (h : a.Frozen b) (h' : b.Frozen c) : a.Frozen c := by
  refine ⟨h'.inpPassive.trans h.inpPassive, fun hp => ?_⟩
  rw [h'.lastAckSent (h.inpPassive.trans hp), h.lastAckSent hp]

/-- With changes to other fields in front. -/
theorem Tcpcb.Frozen.after (h : b.Frozen c) (hp : b.inpPassive = a.inpPassive)
    (hl : b.lastAckSent = a.lastAckSent) : a.Frozen c := (of_eq hp hl).trans h

theorem Tcpcb.SameRecv.frozenAck (h : a.SameRecv b) : a.Frozen b :=
  ⟨h.inpPassive, fun hp => (h.frozen hp).2⟩

theorem Tcpcb.SameRecvAll.frozenAck (h : a.SameRecvAll b) : a.Frozen b :=
  h.keeps.frozenAck

end Frozen

def SndCtl.timers (c : SndCtl) : Bool × Bool := (c.ttRexmt, c.ttPersist)

/-- Congestion control, the SACK scoreboard and the round trip timer start and stop neither. -/
structure TcpEnv.TimersKept (e : TcpEnv) : Prop where
  ccCongSignal : ∀ tp th type, (e.ccCongSignal tp th type).timers = tp.ctl.timers
  ccAckReceived : ∀ tp th type, (e.ccAckReceived tp th type).timers = tp.ctl.timers
  ccPostRecovery : ∀ tp th, (e.ccPostRecovery tp th).timers = tp.ctl.timers
  ccConnInit : ∀ tp, (e.ccConnInit tp).timers = tp.ctl.timers
  tcpXmitTimer : ∀ tp rtt, (e.tcpXmitTimer tp rtt).timers = tp.ctl.timers
  tcpSackDoack : ∀ tp opt ack, (e.tcpSackDoack tp opt ack).timers = tp.ctl.timers
  tcpUpdateSackList : ∀ tp a b, (e.tcpUpdateSackList tp a b).timers = tp.ctl.timers
  tcpMss : ∀ tp offer, (e.tcpMss tp offer).ctl.timers = tp.ctl.timers

def Tcpcb.sndView (tp : Tcpcb) : (TcpSeq × TcpSeq × TcpSeq) × ℕ × Bool :=
  ((tp.sndUna, tp.sndNxt, tp.sndMax), tp.soSndCc, tp.tfNeedsyn)

def TcpState.Onward (a b : TcpState) : Prop :=
  b = a ∨ b = .closeWait ∨ b = .closing ∨ b = .finWait2

theorem TcpState.Onward.trans {a b c : TcpState} (h : a.Onward b) (h' : b.Onward c) :
    a.Onward c := by
  rcases h' with rfl | h'
  · exact h
  · exact .inr h'

theorem StateKept.onward {s s' : TcpState} (h : StateKept s s') : s.Onward s' := by
  rcases h with rfl | ⟨rfl, rfl⟩
  · exact .inl rfl
  · exact .inr (.inr (.inr rfl))

theorem finHoleState_onward (s : TcpState) : s.Onward (finHoleState s) := by
  cases s <;> simp [TcpState.Onward, finHoleState]

/-- The two blocks agree on the send side, on the timers as far as they are `kept`. -/
structure Tcpcb.SameSend (kept : Prop) (a b : Tcpcb) : Prop extends a.Frozen b where
  view : a.inpPassive = true → b.sndView = a.sndView
  timers : kept → a.inpPassive = true → b.ctl.timers = a.ctl.timers
  state : a.tState.Onward b.tState

variable {kept : Prop}

section SameSend

variable {a b c : Tcpcb}

theorem Tcpcb.SameSend.of_eq (hp : b.inpPassive = a.inpPassive)
    (hl : b.lastAckSent = a.lastAckSent) (hv : b.sndView = a.sndView)
    (ht : b.ctl.timers = a.ctl.timers) (hs : b.tState = a.tState) : SameSend kept a b :=
  ⟨.of_eq hp hl, fun _ => hv, fun _ _ => ht, .inl hs⟩

theorem Tcpcb.SameSend.refl (a : Tcpcb) : SameSend kept a a := .of_eq rfl rfl rfl rfl rfl

theorem Tcpcb.SameSend.trans (h : SameSend kept a b) (h' : SameSend kept b c) :
    SameSend kept a c := by
  refine ⟨h.toFrozen.trans h'.toFrozen, fun hp => ?_, fun hk hp => ?_, h.state.trans h'.state⟩
  · rw [h'.view (h.inpPassive.trans hp), h.view hp]
  · rw [h'.timers hk (h.inpPassive.trans hp), h.timers hk hp]

theorem Tcpcb.SameSend.sndUna (h : SameSend kept a b) (hp : a.inpPassive = true) :
    b.sndUna = a.sndUna := congrArg (·.1.1) (h.view hp)

theorem Tcpcb.SameSend.sndMax (h : SameSend kept a b) (hp : a.inpPassive = true) :
    b.sndMax = a.sndMax := congrArg (·.1.2.2) (h.view hp)

/-- What leaves the receive side alone, too. -/
theorem Tcpcb.Keeps.sameSend (h : a.Keeps b) (hv : a.inpPassive = true → b.sndView = a.sndView)
    (ht : kept → a.inpPassive = true → b.ctl.timers = a.ctl.timers) : Tcpcb.SameSend kept a b :=
  ⟨h.frozenAck, hv, ht, h.state.onward⟩

/-- Only the receive side is different. -/
theorem Tcpcb.SameSend.setReass (tp : Tcpcb) {rcv : ReassCb} (hp : rcv.inpPassive = tp.inpPassive)
    (hs : tp.tState.Onward rcv.tState) : SameSend kept tp (tp.setReass rcv) :=
  ⟨.of_eq hp rfl, fun _ => rfl, fun _ _ => rfl, hs⟩

end SameSend

structure InputVars.SameAck (kept : Prop) (v v' : InputVars) : Prop where
  tp : Tcpcb.SameSend kept v.tp v'.tp
  state : v'.tp.tState = v.tp.tState
  thAck : v'.th.thAck = v.th.thAck
  ack : v'.thflags.ack = v.thflags.ack

def InputVars.Sends (kept : Prop) (v : InputVars) : Except TcpResult InputVars → Prop :=
  Outcome (fun r => r.fate = .live → Tcpcb.SameSend kept v.tp r.tp) (SameAck kept v)

section SameAck

variable {v v' : InputVars}

theorem InputVars.SameAck.of_tp {tp : Tcpcb} (h : Tcpcb.SameSend kept v.tp tp)
    (hs : tp.tState = v.tp.tState) : SameAck kept v { v with tp := tp } := ⟨h, hs, rfl, rfl⟩

theorem InputVars.SameAck.refl (v : InputVars) : SameAck kept v v := ⟨.refl v.tp, rfl, rfl, rfl⟩

theorem InputVars.SameAck.trans {v'' : InputVars} (h : SameAck kept v v')
    (h' : SameAck kept v' v'') : SameAck kept v v'' :=
  ⟨h.tp.trans h'.tp, h'.state.trans h.state, h'.thAck.trans h.thAck, h'.ack.trans h.ack⟩

theorem InputVars.SameAck.sends {x : Except TcpResult InputVars} (h : SameAck kept v v')
    (hx : Sends kept v' x) : Sends kept v x :=
  Outcome.imp hx (fun _ hr hlive => h.tp.trans (hr hlive)) fun _ => h.trans

theorem InputVars.Sends.bind {x : Except TcpResult InputVars}
    {f : InputVars → Except TcpResult InputVars} (hx : Sends kept v x)
    (hf : ∀ v' : InputVars, Sends kept v' (f v')) : Sends kept v (x >>= f) :=
  Outcome.bind hx fun v' hv => SameAck.sends hv (hf v')

end SameAck

section Parts

variable (e : TcpEnv) (v : InputVars)

theorem tcpOutput_sameSend (tp : Tcpcb) : tp.SameSend kept (tcpOutput e tp) := by
  have heq : tp.inpPassive = true → tcpOutput e tp = tp := fun hp => if_pos hp
  refine (tcpOutput_keeps e tp).sameSend (fun hp => ?_) fun _ hp => ?_ <;> rw [heq hp]

theorem checkDelack_sameSend (tp : Tcpcb) : tp.SameSend kept (checkDelack tp).tp := by
  unfold checkDelack
  dsimp only
  split <;> exact .of_eq rfl rfl rfl rfl rfl

theorem dropafterack_sameSend : v.tp.SameSend kept (dropafterack e v).tp := by
  unfold dropafterack
  split
  · exact .refl _
  · have hnow : v.tp.SameSend kept { v.tp with tfAcknow := true } := .of_eq rfl rfl rfl rfl rfl
    exact hnow.trans (tcpOutput_sameSend e _)

theorem rstAccepted_sameSend : (rstAccepted e v).fate = .live →
    v.tp.SameSend kept (rstAccepted e v).tp := by
  -- where the reset is taken the connection ends
  have hdead {tp : Tcpcb} {err : Errno} : (rstClose tp err).fate = .live →
      v.tp.SameSend kept (rstClose tp err).tp := fun h => by cases h
  unfold rstAccepted
  split
  · exact hdead
  · split
    · exact hdead
    · exact fun _ => .refl _
  · exact hdead
  · exact hdead
  · exact hdead
  · exact fun _ => .refl _
  · exact fun _ => .refl _
  · exact fun _ => .refl _

theorem rstInput_sends : v.Sends kept (rstInput e v) := by
  unfold rstInput
  split
  · change TcpResult.fate _ = .live → v.tp.SameSend kept _
    split
    · exact rstAccepted_sameSend e v
    · exact fun _ => .refl _
  · exact .refl v

theorem pawsInput_sends : v.Sends kept (pawsInput e v) := by
  unfold pawsInput
  split
  · split
    · exact .of_tp (.of_eq rfl rfl rfl rfl rfl) rfl
    · split
      · exact fun _ => dropafterack_sameSend e v
      · exact fun _ => .refl _
  · exact .refl v

theorem synReceivedSeq_sends : v.Sends kept (synReceivedSeq v) := by
  unfold synReceivedSeq
  split
  · exact fun _ => .refl _
  · exact .refl v

theorem trimHeadBy_sameAck (n : ℕ) : v.SameAck kept (trimHeadBy v n) := by
  unfold trimHeadBy
  dsimp only
  split <;> exact ⟨.refl _, rfl, rfl, rfl⟩

theorem trimSyn_sameAck : v.SameAck kept (trimSyn v) := by
  unfold trimSyn
  dsimp only
  split_ifs <;> exact ⟨.refl _, rfl, rfl, rfl⟩

theorem trimLeft_sameAck : v.SameAck kept (trimLeft v) := by
  have hdup : v.SameAck kept (trimSyn v).asDuplicate :=
    (trimSyn_sameAck v).trans ⟨.of_eq rfl rfl rfl rfl rfl, rfl, rfl, rfl⟩
  unfold trimLeft
  dsimp only
  split_ifs
  · exact hdup.trans (trimHeadBy_sameAck _ _)
  · exact (trimSyn_sameAck v).trans (trimHeadBy_sameAck _ _)
  · exact hdup.trans (trimHeadBy_sameAck _ _)
  · exact (trimSyn_sameAck v).trans (trimHeadBy_sameAck _ _)
  · exact .refl v

theorem afterClose_sends : v.Sends kept (afterClose v) := by
  unfold afterClose
  split
  · exact fun h => by cases h
  · exact .refl v

theorem trimRight_sends : v.Sends kept (trimRight e v) := by
  unfold trimRight
  dsimp only
  split
  · split
    · exact fun _ => dropafterack_sameSend e v
    · refine ⟨?_, ?_, rfl, rfl⟩ <;> dsimp only
      · split <;> exact .of_eq rfl rfl rfl rfl rfl
      · split <;> rfl
  · exact .refl v

theorem updateTsRecent_sameAck : v.SameAck kept (updateTsRecent e v) := by
  unfold updateTsRecent
  split
  · exact .of_tp (.of_eq rfl rfl rfl rfl rfl) rfl
  · exact .refl v

theorem synInWindow_sends : v.Sends kept (synInWindow v) := by
  unfold synInWindow
  split
  · exact fun h => by cases h
  · exact .refl v

def inputToAck (e : TcpEnv) (v : InputVars) : Except TcpResult InputVars := do
  let v ← rstInput e v
  let v ← pawsInput e v
  let v ← synReceivedSeq v
  let v ← afterClose (trimLeft v)
  let v ← trimRight e v
  synInWindow (updateTsRecent e v)

theorem inputToAck_sends : v.Sends kept (inputToAck e v) := by
  refine (rstInput_sends e v).bind fun v => ?_
  refine (pawsInput_sends e v).bind fun v => ?_
  refine (synReceivedSeq_sends v).bind fun v => ?_
  refine ((trimLeft_sameAck v).sends (afterClose_sends _)).bind fun v => ?_
  refine (trimRight_sends e v).bind fun v => ?_
  exact (updateTsRecent_sameAck e v).sends (synInWindow_sends _)

theorem setRcvWnd_sameAck : v.SameAck kept (setRcvWnd v) :=
  .of_tp (.of_eq rfl rfl rfl rfl rfl) rfl

theorem ecnInput_sameSend (tp : Tcpcb) (p : TcpPkt) :
    tp.SameSend e.TimersKept (ecnInput e tp p) := by
  unfold ecnInput
  dsimp only
  split_ifs
  all_goals first
    | exact .of_eq rfl rfl rfl rfl rfl
    | exact ⟨.of_eq rfl rfl, fun _ => rfl, fun he _ => he.ccCongSignal .., .inl rfl⟩

theorem inputEntry_sameSend {tp : Tcpcb} (p : TcpPkt) (hs : tp.tState ≠ .synSent) :
    tp.SameSend e.TimersKept (inputEntry e tp p).tp ∧
      (inputEntry e tp p).tp.tState = tp.tState := by
  have hst : (ecnInput e tp p).tState = tp.tState := by rw [(ecnInput_sameRecvAll e tp p).reass]
  unfold inputEntry
  dsimp only
  rw [hst, decide_eq_false hs, Bool.false_and, if_neg Bool.false_ne_true]
  exact ⟨ecnInput_sameSend e tp p, hst⟩

end Parts

section Prediction

variable (e : TcpEnv) (v : InputVars)

theorem predictedTs_sameAck : v.SameAck kept { v with tp := predictedTs e v } := by
  unfold predictedTs
  split
  · exact .of_tp (.of_eq rfl rfl rfl rfl rfl) rfl
  · exact .refl v

theorem autosize_sameSend (tp : Tcpcb) : tp.SameSend kept (autosize e v tp).1 := by
  have hkeeps := (autosize_spec e v tp).1.keeps
  refine hkeeps.sameSend (fun _ => ?_) fun _ _ => ?_
  · unfold autosize
    dsimp only
    split_ifs <;> rfl
  · unfold autosize
    dsimp only
    split_ifs <;> rfl

theorem reserveNewsize_sameSend (tp : Tcpcb) (newsize : ℕ) :
    tp.SameSend kept (reserveNewsize e tp newsize) := by
  unfold reserveNewsize
  split
  · exact .refl tp
  · split <;> exact .of_eq rfl rfl rfl rfl rfl

theorem fastDataReserve_sameSend : v.tp.SameSend kept (fastDataReserve e v) := by
  unfold fastDataReserve
  dsimp only
  generalize htp : (if v.tp.tfSackPermit && v.tp.ctl.rcvNumsacks != 0 then
    { v.tp with ctl := { v.tp.ctl with rcvNumsacks := 0 } } else v.tp) = tp
  have hsack : v.tp.SameSend kept tp := by
    rw [← htp]
    split <;> exact .of_eq rfl rfl rfl rfl rfl
  have hauto := hsack.trans (autosize_sameSend e v tp)
  split
  · exact hauto
  · exact hauto.trans (reserveNewsize_sameSend e _ _)

theorem acceptInOrder_sameSend (tp : Tcpcb) (th : Segment) :
    tp.SameSend kept (tp.setReass (acceptInOrder tp.toReassCb th)) := by
  refine .setReass tp ?_ (.inl ?_) <;> rw [acceptInOrder, ReassCb.sbappendOrFree_eq] <;> rfl

theorem fastData_sameSend : v.tp.SameSend kept (fastData e v).tp := by
  unfold fastData
  dsimp only
  refine .trans ?_ (checkDelack_sameSend _)
  have hreserve : v.tp.SameSend kept (fastDataReserve e v) := fastDataReserve_sameSend e v
  have happ := hreserve.trans (acceptInOrder_sameSend _ v.segment)
  split
  · exact happ.trans (.of_eq rfl rfl rfl rfl rfl)
  · refine .trans (happ.trans ?_) (tcpOutput_sameSend e _)
    exact .of_eq rfl rfl rfl rfl rfl

/-- The call ends in the header prediction with nothing done to the send side, or with a pure
acknowledgement. -/
def InputVars.Predicted (v : InputVars) (e : TcpEnv) (r : TcpResult) : Prop :=
  ∃ v', v.SameAck e.TimersKept v' ∧ v'.tp.tState = .established ∧ predictedAck v' = true ∧
    r = fastAck e v'

theorem headerPrediction_sends : Outcome
    (fun r => v.tp.SameSend e.TimersKept r.tp ∨ v.Predicted e r) (v.SameAck e.TimersKept)
    (headerPrediction e v) := by
  have hts : v.SameAck e.TimersKept { v with tp := predictedTs e v } := predictedTs_sameAck e v
  unfold headerPrediction
  dsimp only
  split
  · next hpred =>
    split
    · split
      · next hack =>
        exact .inr ⟨_, hts, hts.state.trans (predicted_inOrder hpred).1, hack, rfl⟩
      · exact hts
    · split
      · exact .inl (hts.tp.trans (fastData_sameSend e { v with tp := predictedTs e v }))
      · exact hts
  · exact .refl v

end Prediction

section Behind

variable (e : TcpEnv) (v : InputVars)

theorem step6_sameSend : v.tp.SameSend kept (step6 v).tp := by
  unfold step6
  split
  · exact .of_eq rfl rfl rfl rfl rfl
  · exact .refl _

theorem urgInput_sends : Outcome (fun r => v.tp.SameSend kept r.tp)
    (fun v' => v.tp.SameSend kept v'.tp) (urgInput e v) := by
  have hup : v.tp.SameSend kept (advanceRcvUp v.tp v.th) := by
    unfold advanceRcvUp
    dsimp only
    split
    · exact .of_eq rfl rfl rfl rfl rfl
    · exact .refl _
  unfold urgInput
  dsimp only
  split
  · split
    · exact Tcpcb.SameSend.refl _
    · split
      · unfold tcpPulloutofband
        split
        · exact hup
        · exact hup.trans (.of_eq rfl rfl rfl rfl rfl)
      · exact hup
  · change v.tp.SameSend kept (if _ then _ else _)
    split
    · exact .of_eq rfl rfl rfl rfl rfl
    · exact .refl _

theorem tcpReass_inpPassive (tp : ReassCb) (ticks : ℕ) (alloc : Option ℕ) (th : Segment) :
    (tcpReass tp ticks alloc (some th)).1.inpPassive = tp.inpPassive := by
  refine tcpReass_rule (I := fun tp' => tp'.inpPassive = tp.inpPassive) ?_ (fun _ _ _ h _ _ => h)
    (fun _ _ _ h _ _ => h) rfl ticks alloc th ?_
  · intro _ _ hs h
    exact hs.inpPassive.trans h
  · intro th' _
    rw [queueSegment_eq]

theorem received_inpPassive : (v.received e).1.inpPassive = v.tp.inpPassive := by
  unfold InputVars.received
  split_ifs
  · rw [acceptInOrder, ReassCb.sbappendOrFree_eq]
    rfl
  · exact tcpReass_inpPassive _ _ _ _
  · rfl

theorem dodata_sameSend : v.tp.SameSend e.TimersKept (dodata e v).1 := by
  have hspec := (dodata_spec e v).1
  refine ⟨hspec.frozenAck.after (received_inpPassive e v) rfl, fun _ => ?_, fun he _ => ?_,
    .inl ?_⟩
  · unfold dodata dodataSegment
    dsimp only
    split_ifs <;> rfl
  · unfold dodata dodataSegment
    dsimp only
    split_ifs <;> simp only [he.tcpUpdateSackList]
  · rw [hspec.reass]
    exact v.received_tState e

theorem finReceived_sameSend (tp : Tcpcb) : tp.SameSend kept (finReceived tp).tp := by
  have hflags : tp.SameSend kept (finFlags tp) := by
    unfold finFlags
    dsimp only
    split_ifs
    · exact .refl tp
    · exact .of_eq rfl rfl rfl rfl rfl
    · exact .of_eq rfl rfl rfl rfl rfl
  have hset (s : TcpState) (hs : s = .closeWait ∨ s = .closing ∨ s = .finWait2) :
      tp.SameSend kept ((finFlags tp).setState s) :=
    hflags.trans ⟨.of_eq rfl rfl, fun _ => rfl, fun _ _ => rfl, .inr hs⟩
  unfold finReceived
  split
  · exact hset _ (.inl rfl)
  · exact hset _ (.inl rfl)
  · exact hset _ (.inr (.inl rfl))
  · exact hflags
  · exact hflags

theorem finishInput_sameSend : v.tp.SameSend e.TimersKept (finishInput e v).tp := by
  have hboth : v.tp.SameSend e.TimersKept (dataAndFin e v).tp := by
    unfold dataAndFin
    dsimp only
    split
    · exact (dodata_sameSend e v).trans (finReceived_sameSend _)
    · exact dodata_sameSend e v
  unfold finishInput inputExit
  dsimp only
  split
  · refine .trans ?_ (checkDelack_sameSend _)
    split
    · exact hboth.trans (tcpOutput_sameSend e _)
    · exact hboth
  · exact hboth

end Behind

section Rule

variable {e : TcpEnv} {I : Tcpcb → Prop} (hI : ∀ a b, a.SameSend e.TimersKept b → I a → I b)
include hI

theorem afterAck_rule {x : Except TcpResult InputVars}
    (h : Outcome (fun r => r.fate = .live → I r.tp) (fun v => I v.tp) x) :
    Outcome (fun r => r.fate = .live → I r.tp) (fun v => I v.tp)
      (x >>= fun v => urgInput e (step6 v)) := by
  refine h.bind fun v hv => ?_
  have hstep := hI _ _ (step6_sameSend v) hv
  exact (urgInput_sends e (step6 v)).imp (fun r hr _ => hI _ _ hr hstep) fun _ hv => hI _ _ hv hstep

theorem tcpDoSegment_of_toDodata {tp : Tcpcb} {p : TcpPkt}
    (h : Outcome (fun r => r.fate = .live → I r.tp) (fun v => I v.tp) (toDodata e tp p)) :
    (tcpDoSegment e tp p).fate = .live → I (tcpDoSegment e tp p).tp := by
  unfold tcpDoSegment
  cases hd : toDodata e tp p with
  | error r =>
    rw [hd] at h
    exact h
  | ok v =>
    rw [hd] at h
    exact fun _ => hI _ _ (finishInput_sameSend e v) h

/-- A segment in `TCPS_SYN_SENT` that acknowledges the SYN. -/
theorem tcpDoSegment_of_synSent {tp : Tcpcb} {p : TcpPkt} {v : InputVars}
    (hst : (inputEntry e tp p).tp.tState = .synSent)
    (hv : synSentInput e (setRcvWnd (inputEntry e tp p)) = .ok v) (hflag : v.thflags.ack = true)
    (h : Outcome (fun r => r.fate = .live → I r.tp) (fun v => I v.tp) (processAck e v)) :
    (tcpDoSegment e tp p).fate = .live → I (tcpDoSegment e tp p).tp := by
  have hpred : headerPrediction e (inputEntry e tp p) = .ok (inputEntry e tp p) := by
    have hnot : predicted (inputEntry e tp p) = false := by simp [predicted, hst]
    rw [headerPrediction, hnot, if_neg Bool.false_ne_true]
  apply tcpDoSegment_of_toDodata hI
  unfold toDodata
  rw [hpred]
  change Outcome _ _ (inputWindow e (inputEntry e tp p))
  rw [inputWindow, if_pos hst, inputSynSent, hv]
  change Outcome _ _ (if v.thflags.ack = true then processAck e v >>= _ else _)
  rw [if_pos hflag]
  exact afterAck_rule hI h

end Rule

def toAckInput (e : TcpEnv) (tp : Tcpcb) (p : TcpPkt) : Except TcpResult InputVars := do
  let v ← headerPrediction e (inputEntry e tp p)
  let v ← synReceivedInput (setRcvWnd v)
  inputToAck e v

/-- The acknowledgement `p` brings is about to be looked at. -/
structure InputVars.AtAck (v : InputVars) (e : TcpEnv) (tp : Tcpcb) (p : TcpPkt) : Prop where
  same : tp.SameSend e.TimersKept v.tp
  state : v.tp.tState = tp.tState
  thAck : v.th.thAck = p.th.thAck
  ack : v.thflags.ack = p.th.thFlags.ack

def InputVars.SynAcked (v : InputVars) : Prop :=
  v.tp.tState = .synReceived → v.thflags.ack = true →
    seqLeq v.th.thAck v.tp.sndUna = false ∧ seqGt v.th.thAck v.tp.sndMax = false

theorem InputVars.AtAck.trans {v v' : InputVars} {e : TcpEnv} {tp : Tcpcb} {p : TcpPkt}
    (h : v.AtAck e tp p) (h' : v.SameAck e.TimersKept v') : v'.AtAck e tp p :=
  ⟨h.same.trans h'.tp, h'.state.trans h.state, h'.thAck.trans h.thAck, h'.ack.trans h.ack⟩

theorem InputVars.SynAcked.congr {v v' : InputVars} (h : v.SynAcked) (h' : v.SameAck kept v')
    (hp : v.tp.inpPassive = true) : v'.SynAcked := by
  unfold SynAcked
  rw [h'.state, h'.ack, h'.thAck, h'.tp.sndUna hp, h'.tp.sndMax hp]
  exact h

theorem synReceivedInput_synAcked (v : InputVars) : Outcome (fun r => r = { tp := v.tp })
    (fun v' => v' = v ∧ v.SynAcked) (synReceivedInput v) := by
  unfold synReceivedInput
  split
  · exact rfl
  · next hnot =>
    refine ⟨rfl, fun hst hflag => ?_⟩
    simpa [hst, hflag] using hnot

section Segment

variable {e : TcpEnv} {tp : Tcpcb} {p : TcpPkt} (hs : tp.tState ≠ .synSent)
include hs

def Tcpcb.EndsEarly (tp : Tcpcb) (e : TcpEnv) (r : TcpResult) : Prop :=
  (r.fate = .live → tp.SameSend e.TimersKept r.tp) ∨
    ∃ v : InputVars, tp.SameSend e.TimersKept v.tp ∧ v.tp.tState = .established ∧
      predictedAck v = true ∧ r = fastAck e v

theorem headerPrediction_entry : Outcome (tp.EndsEarly e) (fun v => v.AtAck e tp p)
    (headerPrediction e (inputEntry e tp p)) := by
  obtain ⟨hentry, hstate⟩ := inputEntry_sameSend e p hs
  have hat : (inputEntry e tp p).AtAck e tp p := ⟨hentry, hstate, rfl, rfl⟩
  refine (headerPrediction_sends e _).imp ?_ fun v hv => hat.trans hv
  rintro r (hr | ⟨v, hv, hest, hack, hr⟩)
  · exact .inl fun _ => hentry.trans hr
  · exact .inr ⟨v, hentry.trans hv.tp, hest, hack, hr⟩

theorem toAckInput_atAck (hp : tp.inpPassive = true) : Outcome (tp.EndsEarly e)
    (fun v => v.AtAck e tp p ∧ v.SynAcked) (toAckInput e tp p) := by
  refine (headerPrediction_entry hs).bind fun v hv => ?_
  have hset := hv.trans (setRcvWnd_sameAck v)
  generalize setRcvWnd v = v' at hset ⊢
  have hsyn : Outcome (tp.EndsEarly e) (fun w => w = v' ∧ v'.SynAcked) (synReceivedInput v') :=
    (synReceivedInput_synAcked v').imp (fun r hr => .inl fun _ => hr ▸ hset.same) fun _ hv => hv
  refine hsyn.bind ?_
  rintro w ⟨rfl, hacked⟩
  refine (inputToAck_sends e w).imp (fun r hr => .inl fun hlive => hset.same.trans (hr hlive)) ?_
  exact fun u hu => ⟨hset.trans hu, hacked.congr hu (hset.same.inpPassive.trans hp)⟩

theorem toDodata_eq : toDodata e tp p =
    toAckInput e tp p >>= fun v => ackInput e v >>= fun v => urgInput e (step6 v) := by
  have hentry := headerPrediction_entry (e := e) hs (p := p)
  unfold toDodata toAckInput
  cases hd : headerPrediction e (inputEntry e tp p) with
  | error r => rfl
  | ok v =>
    rw [hd] at hentry
    have hv : v.tp.tState ≠ .synSent := fun h => hs (hentry.state.symm.trans h)
    change inputWindow e v = _
    rw [inputWindow, if_neg hv]
    simp only [inputOtherwise, inputToAck, bind_assoc]
    rfl

/-- What a pure acknowledgement and the ACK part keep, the call keeps. -/
theorem tcpDoSegment_rule {I : Tcpcb → Prop} (hI : ∀ a b, a.SameSend e.TimersKept b → I a → I b)
    (hp : tp.inpPassive = true) (h : I tp)
    (hfast : ∀ v : InputVars, I v.tp → v.tp.tState = .established → predictedAck v = true →
      (fastAck e v).fate = .live → I (fastAck e v).tp)
    (hack : ∀ v : InputVars, v.AtAck e tp p → v.SynAcked →
      Outcome (fun r => r.fate = .live → I r.tp) (fun v' => I v'.tp) (ackInput e v)) :
    (tcpDoSegment e tp p).fate = .live → I (tcpDoSegment e tp p).tp := by
  refine tcpDoSegment_of_toDodata hI ?_
  rw [toDodata_eq hs]
  have hearly : ∀ r : TcpResult, tp.EndsEarly e r → r.fate = .live → I r.tp := by
    rintro r (hr | ⟨v, hv, hest, hpred, rfl⟩) hlive
    · exact hI _ _ (hr hlive) h
    · exact hfast v (hI _ _ hv h) hest hpred hlive
  have hto := (toAckInput_atAck hs hp (e := e) (p := p)).imp hearly fun _ hv => hv
  exact hto.bind fun v hv => afterAck_rule hI (hack v hv.1 hv.2)

end Segment

theorem fireReassdl_sameSend (tp : Tcpcb) (ticks : ℕ) :
    tp.SameSend kept (tp.setReass (tp.toReassCb.fireReassdl ticks)) := by
  refine .setReass tp (fireReassdl_inpPassive _ _) ?_
  refine fireReassdl_rule (I := fun tp' => tp.tState.Onward tp'.tState) ?_ ?_ (.inl rfl) ticks
  · intro _ _ hs h
    rwa [hs.tState]
  · intro tp' q rest h _
    rw [deliverHolesEntry_eq]
    dsimp only
    split_ifs
    · exact h.trans (finHoleState_onward _)
    · exact h

theorem tcpUsrRcvd_sameSend (e : TcpEnv) (tp : Tcpcb) (n : ℕ) :
    tp.SameSend kept (tcpUsrRcvd e tp n).tp := by
  unfold tcpUsrRcvd
  split
  · exact .refl tp
  · refine .trans ?_ (tcpOutput_sameSend e _)
    exact .of_eq rfl rfl rfl rfl rfl

theorem synSentTrim_sameAck (v : InputVars) : v.SameAck kept (synSentTrim v) := by
  unfold synSentTrim
  dsimp only
  split <;> exact ⟨.of_eq rfl rfl rfl rfl rfl, rfl, rfl, rfl⟩

/-- In `TCPS_SYN_SENT` it goes to `synSentAck`, with the receive side set up. -/
theorem synSentInput_answered (e : TcpEnv) {v : InputVars} {seq : TcpSeq} (hiss : v.tp.iss = seq)
    (hmax : v.tp.sndMax = seq + 1) (hack : v.th.thAck = seq + 1) (hflag : v.thflags.ack = true)
    (hsyn : v.thflags.syn = true) (hrst : v.thflags.rst = false) :
    ∃ v₁, synSentInput e v = .ok (synSentTrim (synSentAck e v₁)) ∧ v.SameAck True v₁ := by
  have hgood : (seqLeq v.th.thAck v.tp.iss || seqGt v.th.thAck v.tp.sndMax) = false := by
    rw [hack, hiss, hmax, seqLeq, seqGt, add_sub_cancel_left, sub_self]
    decide
  unfold synSentInput
  rw [hgood, hflag, hrst, hsyn, Bool.and_false, if_neg Bool.false_ne_true,
    if_neg Bool.false_ne_true, Bool.not_true, if_neg Bool.false_ne_true]
  dsimp only
  rw [if_pos hflag]
  exact ⟨_, rfl, .of_eq rfl rfl rfl rfl rfl, rfl, rfl, rfl⟩

end Libuinet
