import Libuinet.PairLifecycle
import Libuinet.PassiveSend

namespace Libuinet

open Execution SerialArith

def TcpState.Open (s : TcpState) : Prop :=
  s ≠ .closed ∧ s ≠ .listen ∧ s ≠ .synSent ∧ s ≠ .timeWait

instance : DecidablePred TcpState.Open := fun s => by unfold TcpState.Open; infer_instance

theorem TcpState.Onward.open {a b : TcpState} (h : a.Onward b) (ha : a.Open) : b.Open := by
  rcases h with rfl | rfl | rfl | rfl
  · exact ha
  all_goals decide

/-- A passive connection under way, with no SYN to send. -/
structure Tcpcb.Steady (tp : Tcpcb) : Prop where
  inpPassive : tp.inpPassive = true
  state : tp.tState.Open
  tfNeedsyn : tp.tfNeedsyn = false

section Steady

variable {tp tp' : Tcpcb} {v : InputVars} (e : TcpEnv)

theorem Tcpcb.Steady.congr {kept : Prop} (h : tp.Steady) (hs : tp.SameSend kept tp') :
    tp'.Steady where
  inpPassive := hs.inpPassive.trans h.inpPassive
  state := hs.state.open h.state
  tfNeedsyn := (congrArg (·.2.2) (hs.view h.inpPassive)).trans h.tfNeedsyn

theorem Tcpcb.Steady.of_keeps (h : tp.Steady) (hk : tp.Keeps tp')
    (hs : tp'.tfNeedsyn = tp.tfNeedsyn) : tp'.Steady :=
  ⟨hk.inpPassive.trans h.inpPassive, hk.state.onward.open h.state, hs.trans h.tfNeedsyn⟩

theorem tcpOutput_tfNeedsyn (tp : Tcpcb) : (tcpOutput e tp).tfNeedsyn = tp.tfNeedsyn := by
  unfold tcpOutput
  split <;> rfl

theorem ackTiming_tfNeedsyn : (ackTiming e v).tfNeedsyn = v.tp.tfNeedsyn := by
  unfold ackTiming ccCongSignal
  dsimp only
  split_ifs <;> rfl

theorem rexmtAfterAck_tfNeedsyn (tp : Tcpcb) (una : TcpSeq) :
    (rexmtAfterAck tp una).tfNeedsyn = tp.tfNeedsyn := by
  unfold rexmtAfterAck
  split_ifs <;> rfl

theorem fastAckSend_tfNeedsyn (tp : Tcpcb) (th : TcpHdr) (acked : ℕ) :
    (fastAckSend e tp th acked).tfNeedsyn = tp.tfNeedsyn := by
  unfold fastAckSend
  dsimp only
  rw [rexmtAfterAck_tfNeedsyn]
  unfold ccAckReceived
  split_ifs <;> rfl

theorem checkDelack_tfNeedsyn (tp : Tcpcb) : (checkDelack tp).tp.tfNeedsyn = tp.tfNeedsyn := by
  unfold checkDelack
  dsimp only
  split <;> rfl

theorem fastAck_steady (h : v.tp.Steady) : (fastAck e v).tp.Steady := by
  refine h.of_keeps (fastAck_keeps e v) ?_
  unfold fastAck
  dsimp only
  split
  · exact ackTiming_tfNeedsyn e
  · rw [checkDelack_tfNeedsyn]
    split_ifs
    · rw [tcpOutput_tfNeedsyn, fastAckSend_tfNeedsyn, ackTiming_tfNeedsyn]
    · rw [fastAckSend_tfNeedsyn, ackTiming_tfNeedsyn]

theorem dupAckInput_tfNeedsyn : Outcome (fun r => r.tp.tfNeedsyn = v.tp.tfNeedsyn)
    (fun v' => v'.tp.tfNeedsyn = v.tp.tfNeedsyn) (dupAckInput e v) := by
  have hinflate (v : InputVars) : (dupAckInflate e v).tfNeedsyn = v.tp.tfNeedsyn := by
    unfold dupAckInflate ccAckReceived
    dsimp only
    rw [tcpOutput_tfNeedsyn]
  have hfast (v : InputVars) : (fastRetransmit e v).tfNeedsyn = v.tp.tfNeedsyn := by
    unfold fastRetransmit ccAckReceived ccCongSignal
    dsimp only
    split_ifs <;> simp only [tcpOutput_tfNeedsyn]
  have hlimited (v : InputVars) : (limitedTransmit e v).tfNeedsyn = v.tp.tfNeedsyn := by
    unfold limitedTransmit ccAckReceived
    dsimp only
    rw [tcpOutput_tfNeedsyn]
  unfold dupAckInput dupAckCounted
  split_ifs
  · exact rfl
  · exact hinflate _
  · exact rfl
  · exact hfast _
  · exact hlimited _
  · exact rfl
  · exact rfl

theorem processAck_tfNeedsyn : Outcome (fun r => r.tp.tfNeedsyn = v.tp.tfNeedsyn)
    (fun v' => v'.tp.tfNeedsyn = v.tp.tfNeedsyn) (processAck e v) := by
  have htiming : (rexmtAfterAck (ackTiming e v) v.th.thAck).tfNeedsyn = v.tp.tfNeedsyn := by
    rw [rexmtAfterAck_tfNeedsyn, ackTiming_tfNeedsyn]
  have hfin (v : InputVars) (b : Bool) : Outcome (fun r => r.tp.tfNeedsyn = v.tp.tfNeedsyn)
      (fun v' => v'.tp.tfNeedsyn = v.tp.tfNeedsyn) (finAcked v b) := by
    unfold finAcked
    split
    · split <;> exact rfl
    · exact rfl
  have hpointers (tp : Tcpcb) (acked : ℕ) : (ackPointers (dropAcked (ccAckReceived e tp v.th .ccAck)
      acked).1 v.th).tfNeedsyn = tp.tfNeedsyn := rfl
  unfold processAck
  dsimp only
  split
  · exact htiming
  · generalize rexmtAfterAck (ackTiming e v) v.th.thAck = tp at htiming ⊢
    have hboth := (hpointers tp (bytesThisAck v.tp v.th)).trans htiming
    exact (hfin _ _).imp (fun _ hr => hr.trans hboth) fun _ hv => hv.trans hboth

theorem establishedAck_tfNeedsyn (h : v.tp.tfNeedsyn = false) :
    Outcome (fun r => r.tp.tfNeedsyn = false) (fun v' => v'.tp.tfNeedsyn = false)
      (establishedAck e v) := by
  have hpas : (passiveSndMax v.tp v.th).tfNeedsyn = false := by
    unfold passiveSndMax
    split <;> exact h
  have hsack : (sackAck e (passiveSndMax v.tp v.th) v.opt v.th).tfNeedsyn = false := by
    unfold sackAck
    split <;> exact hpas
  unfold establishedAck
  dsimp only
  split
  · unfold dropafterack
    split
    · exact hpas
    · exact (tcpOutput_tfNeedsyn e _).trans hpas
  · split
    · exact (dupAckInput_tfNeedsyn e).imp (fun _ hr => hr.trans hsack) fun _ hv => hv.trans hsack
    · have hneed : (needsynAck ((recoveryAck e (sackAck e (passiveSndMax v.tp v.th) v.opt v.th)
          v.th).setDupacks 0)).tfNeedsyn = false := by
        unfold needsynAck
        split
        · rfl
        · next hnot => exact Bool.eq_false_iff.mpr hnot
      exact (processAck_tfNeedsyn e).imp (fun _ hr => hr.trans hneed) fun _ hv => hv.trans hneed

theorem InputVars.Passes.steady {x : Except TcpResult InputVars} (hx : v.Passes x)
    (h : v.tp.Steady) (hneed : Outcome (fun r => r.tp.tfNeedsyn = false)
      (fun v' => v'.tp.tfNeedsyn = false) x) :
    Outcome (fun r => r.fate = .live → r.tp.Steady) (fun v' => v'.tp.Steady) x := by
  refine (Outcome.and hx hneed).imp ?_ ?_
  · rintro r ⟨hr, hneed⟩ hlive
    exact ⟨hr.1.inpPassive.trans h.inpPassive, (hr.2 hlive).onward.open h.state, hneed⟩
  · rintro v' ⟨hv, hneed⟩
    exact ⟨hv.tp.inpPassive.trans h.inpPassive, hv.tp.state.onward.open h.state, hneed⟩

theorem establishedAck_steady (h : v.tp.Steady) :
    Outcome (fun r => r.fate = .live → r.tp.Steady) (fun v' => v'.tp.Steady)
      (establishedAck e v) :=
  (establishedAck_passes e v).steady h (establishedAck_tfNeedsyn e h.tfNeedsyn)

theorem synReceivedAck_steady (h : v.tp.Steady) : (synReceivedAck e v).tp.Steady := by
  refine ⟨(synReceivedAck_frozen e v).inpPassive.trans h.inpPassive, ?_, ?_⟩
  · rcases synReceivedAck_state e v with h | h <;> rw [h] <;> decide
  · unfold synReceivedAck
    dsimp only
    split_ifs <;> exact h.tfNeedsyn

theorem ackInput_steady (h : v.tp.Steady) :
    Outcome (fun r => r.fate = .live → r.tp.Steady) (fun v' => v'.tp.Steady) (ackInput e v) := by
  have hsame : v.tp.SameSend True (dropafterack e v).tp := dropafterack_sameSend e v
  unfold ackInput
  split
  · split_ifs
    · exact h
    · exact fun _ => h.congr hsame
    · exact fun _ => h
  · split
    · exact h
    · exact h
    · exact h
    · exact h
    · exact establishedAck_steady e (synReceivedAck_steady e h)
    · exact establishedAck_steady e h

theorem tcpDoSegment_steady (h : tp.Steady) (p : TcpPkt)
    (hlive : (tcpDoSegment e tp p).fate = .live) : (tcpDoSegment e tp p).tp.Steady := by
  refine tcpDoSegment_rule h.state.2.2.1 (fun _ _ hs hI => hI.congr hs) h.inpPassive h ?_ ?_ hlive
  · exact fun v hv _ _ _ => fastAck_steady e hv
  · exact fun v hv _ => ackInput_steady e (h.congr hv.same)

theorem finWait1_open : TcpState.finWait1.Open := by decide

theorem established_open : TcpState.established.Open := by decide

/-- The acknowledgement of the SYN in `TCPS_SYN_SENT`. -/
theorem synSentInput_steady {seq : TcpSeq} (hp : v.tp.inpPassive = true)
    (hneed : v.tp.tfNeedsyn = false) (hiss : v.tp.iss = seq) (hmax : v.tp.sndMax = seq + 1)
    (hack : v.th.thAck = seq + 1) (hflag : v.thflags.ack = true) (hsyn : v.thflags.syn = true)
    (hrst : v.thflags.rst = false) :
    ∃ v', synSentInput e v = .ok v' ∧ v'.tp.Steady ∧ v'.thflags.ack = true := by
  have hsynack (v : InputVars) (hp : v.tp.inpPassive = true) (hneed : v.tp.tfNeedsyn = false) :
      (synSentAck e v).tp.Steady ∧ (synSentAck e v).thflags.ack = v.thflags.ack := by
    unfold synSentAck
    dsimp only
    split_ifs
    all_goals first
      | exact ⟨⟨hp, finWait1_open, hneed⟩, rfl⟩
      | exact ⟨⟨hp, established_open, hneed⟩, rfl⟩
  obtain ⟨v₁, hv₁, hsame⟩ := synSentInput_answered e hiss hmax hack hflag hsyn hrst
  have hneed₁ := (congrArg (·.2.2) (hsame.tp.view hp)).trans hneed
  obtain ⟨hsteady, hack₁⟩ := hsynack v₁ (hsame.tp.inpPassive.trans hp) hneed₁
  have htrim : (synSentAck e v₁).SameAck True _ := synSentTrim_sameAck (synSentAck e v₁)
  exact ⟨_, hv₁, hsteady.congr htrim.tp, htrim.ack.trans (hack₁.trans (hsame.ack.trans hflag))⟩

/-- The SYN|ACK that answers the SYN. -/
theorem tcpDoSegment_synack_steady {p : TcpPkt} {seq : TcpSeq} (hp : tp.inpPassive = true)
    (hneed : tp.tfNeedsyn = false) (hst : tp.tState = .synSent) (hiss : tp.iss = seq)
    (hmax : tp.sndMax = seq + 1) (hack : p.th.thAck = seq + 1) (hflag : p.th.thFlags.ack = true)
    (hsyn : p.th.thFlags.syn = true) (hrst : p.th.thFlags.rst = false)
    (hlive : (tcpDoSegment e tp p).fate = .live) : (tcpDoSegment e tp p).tp.Steady := by
  obtain ⟨hview, hp', hst', hiss'⟩ := inputEntry_view (e := e) hp p
  have hneed' : (inputEntry e tp p).tp.tfNeedsyn = false :=
    (congrArg (·.2.2) hview).trans hneed
  have hmax' : (inputEntry e tp p).tp.sndMax = seq + 1 := (congrArg (·.1.2.2) hview).trans hmax
  obtain ⟨v, hv, hsteady, hflag₁⟩ := synSentInput_steady e (v := setRcvWnd (inputEntry e tp p))
    hp' hneed' (hiss'.trans hiss) hmax' hack hflag hsyn hrst
  have hI : ∀ a b : Tcpcb, a.SameSend e.TimersKept b → a.Steady → b.Steady := fun _ _ hs h =>
    h.congr hs
  have hprocess := (processAck_passes e v).steady hsteady ((processAck_tfNeedsyn e).imp
    (fun _ hr => hr.trans hsteady.tfNeedsyn) fun _ hv => hv.trans hsteady.tfNeedsyn)
  exact tcpDoSegment_of_synSent hI (hst'.trans hst) hv hflag₁ hprocess hlive

/-- Either end right after it has been set up. -/
theorem PassiveRole.start_steady {role : PassiveRole} {sc : Syncache} {lso : ListenSocket}
    {opt : TcpOpt} {c : TcpResult} (hpas : sc.scfPassive = true)
    (hmode : role.inpPassive lso = true) (h : role.start e sc lso opt = some c) :
    c.fate = .live → c.tp.Steady := by
  cases role with
  | server =>
    obtain ⟨tp, hserver, rfl⟩ := Option.map_eq_some_iff.mp h
    obtain ⟨tp₀, hnew, rfl⟩ := Option.map_eq_some_iff.mp hserver
    have hfresh := sonewconn_at hnew hpas
    have hinit : (serverSeqinit sc tp₀).Steady :=
      ⟨hfresh.inpPassive, (by decide : TcpState.synReceived.Open), hfresh.tfNeedsyn⟩
    have hopt := hinit.congr (syncacheOptions_sameSend (e := e) sc _ sc.scRequestedSScale.toNat
      sc.scRequestedRScale.toNat sc.scTsreflect sc.scTsoff)
    intro _
    dsimp only
    split
    · exact { hopt with }
    · exact hopt
  | client =>
    obtain ⟨tp₀, hnew, rfl⟩ := Option.map_eq_some_iff.mp h
    have hfresh := sonewconn_at hnew hmode
    obtain ⟨hst, hiss⟩ := syncacheOptions_state (e := e) sc (clientSeqinit sc tp₀)
      sc.scRequestedRScale.toNat sc.scRequestedSScale.toNat sc.scTs (opt.toTsval - e.tcpTsGetticks)
    have hopt := syncacheOptions_sameSend (e := e) sc (clientSeqinit sc tp₀)
      sc.scRequestedRScale.toNat sc.scRequestedSScale.toNat sc.scTs (opt.toTsval - e.tcpTsGetticks)
    have hview := hopt.view hfresh.inpPassive
    exact tcpDoSegment_synack_steady e (hopt.inpPassive.trans hfresh.inpPassive)
      ((congrArg (·.2.2) hview).trans hfresh.tfNeedsyn) hst hiss (congrArg (·.1.2.2) hview)
      rfl rfl rfl rfl

end Steady

inductive InpPpcb where
  | tcpcb
  | tcptw
  | null
  deriving DecidableEq

/-- One of the two `inpcb`s, with its socket and control block.  What `tp` has of the `inpcb` and
of the socket stays when the control block is gone.  `closes` counts the calls of `in_pcbdrop`, and
`resets` are the sequence numbers of the resets sent by `tcp_drop`. -/
structure PassiveInpcb where
  tp : Tcpcb
  tfNoopt : Bool := false
  tfSentfin : Bool := false
  inpPpcb : InpPpcb := .tcpcb
  inpTimewait : Bool := false
  inpDropped : Bool := false
  inpSockref : Bool := false
  closes : ℕ := 0
  resets : List TcpSeq := []

/-- What `tcp_output` finds when it sends a reset: its effect on the control block, what
`tcp_sack_output` has to resend and the bytes resent so far, and whether there is an mbuf. -/
structure OutputEnv where
  tcp : TcpEnv := {}
  tcpSackOutput : Tcpcb → Option TcpSeq × ℕ := fun _ => (none, 0)
  mgethdr : Bool := true

/-- What `tcp_twstart` finds: whether the foreign address is one of ours and such connections do
not wait, and whether there is a block to wait with. -/
structure TimewaitEnv where
  nolocaltimewait : Bool := false
  umaZalloc : Bool := true

namespace PassiveInpcb

variable (o : OutputEnv) (inp : PassiveInpcb)

/-- The length of the data in a segment without a retransmission out of the scoreboard; it may be
negative. -/
def outputLen (tp : Tcpcb) : ℤ :=
  let off := (tp.sndNxt - tp.sndUna).toInt
  let sackBytes := if tp.tfSackPermit && tp.ctl.inFastrecovery then (o.tcpSackOutput tp).2 else 0
  if sackBytes = 0 then min tp.soSndCc (min tp.sndWnd tp.ctl.sndCwnd) - off
  else
    let len := min tp.soSndCc tp.sndWnd - off
    if 0 < len then
      min len (max ((tp.ctl.sndCwnd : ℤ) - (tp.sndNxt - tp.ctl.sackNewdata).toNat - sackBytes) 0)
    else len

/-- The sequence number `tcp_output` puts into the reset of a closed connection. -/
def outputSeq : TcpSeq :=
  let tp := inp.tp
  match if tp.tfSackPermit && tp.ctl.inFastrecovery then (o.tcpSackOutput tp).1 else none with
  | some rxmit => rxmit
  | none =>
    let sent := tp.tfNeedsyn && seqGt tp.sndNxt tp.sndUna
    -- a SYN that has been sent is taken off
    let syn := tp.tfNeedsyn && !sent
    let len := outputLen o tp + if sent then 1 else 0
    let len := if syn && inp.tfNoopt then 0 else len
    let fin := tp.tfNeedfin && !(syn && inp.tfNoopt)
    let nxt := if len < 0 ∧ min tp.sndWnd tp.ctl.sndCwnd = 0 then tp.sndUna else tp.sndNxt
    let len := max len 0
    let fin := fin && !seqLt (nxt + BitVec.ofInt 32 len) (tp.sndUna + BitVec.ofNat 32 tp.soSndCc)
    let nxt := if syn && !inp.tfNoopt then tp.iss else nxt
    -- a FIN is not resent with a new number
    let nxt := if fin && inp.tfSentfin && nxt == tp.sndMax then nxt - 1 else nxt
    if len ≠ 0 || syn || fin || tp.ctl.ttPersist then nxt else tp.sndMax

def tcpOutputReset : Tcpcb × Option TcpSeq :=
  (tcpOutput o.tcp inp.tp,
    if inp.tp.inpPassive || !o.mgethdr then none else some (outputSeq o inp))

def inPcbdrop : PassiveInpcb :=
  { inp with inpDropped := true, closes := inp.closes + 1 }

def soisdisconnected : PassiveInpcb :=
  { inp with tp := { inp.tp with toReassCb := inp.tp.toReassCb.socantrcvmore, soSndCc := 0 } }

/-- `tcp_close`.  The socket of a pair is not freed while the other is in use. -/
def tcpClose : PassiveInpcb :=
  { inp.inPcbdrop.soisdisconnected with inpSockref := false }

def tcpDrop (errno : Option Errno) : PassiveInpcb :=
  let inp := if inp.tp.tState.haveEstablished || inp.tp.tState = .synReceived then
      let inp := { inp with tp := { inp.tp with tState := .closed } }
      let r := inp.tcpOutputReset o
      { inp with tp := r.1, resets := inp.resets ++ r.2.toList }
    else inp
  tcpClose { inp with tp := { inp.tp with soError := errno } }

def tcpTwclose : PassiveInpcb :=
  { inp.inPcbdrop with inpPpcb := .null, inpSockref := false }

def tcpTwstart (w : TimewaitEnv) (inp : PassiveInpcb) : PassiveInpcb :=
  if w.nolocaltimewait || !w.umaZalloc then inp.tcpClose
  else
    let inp := { inp.soisdisconnected with inpPpcb := .tcptw, inpTimewait := true }
    if inp.tp.inpPassive then inp.tcpTwclose else { inp with inpSockref := false }

def settle (w : TimewaitEnv) (inp : PassiveInpcb) (r : TcpResult) : Except String PassiveInpcb :=
  match r.fate with
  | .live => .ok { inp with tp := r.tp }
  | .closed => .ok (tcpClose { inp with tp := r.tp })
  | .timeWait => .ok (tcpTwstart w { inp with tp := r.tp })
  | .panicked => .error "panic"

def gone : Bool := inp.inpTimewait || inp.inpDropped

def modifyTp (f : Tcpcb → Tcpcb) : PassiveInpcb := { inp with tp := f inp.tp }

def tcpUsrclosed : PassiveInpcb :=
  match inp.tp.tState with
  | .listen | .closed => (inp.modifyTp (·.setState .closed)).tcpClose
  | .synSent | .synReceived => inp.modifyTp fun tp => { tp with tfNeedfin := true }
  | .established => inp.modifyTp (·.setState .finWait1)
  | .closeWait =>
    -- a passive connection does not wait for an acknowledgement
    if inp.tp.inpPassive then (inp.modifyTp (·.setState .closed)).tcpClose
    else inp.modifyTp (·.setState .lastAck)
  | .finWait2 | .timeWait => inp.soisdisconnected
  | .finWait1 | .closing | .lastAck => inp

def outputDisconnect : PassiveInpcb :=
  if inp.inpDropped then inp else inp.modifyTp (tcpOutput o.tcp)

def tcpDisconnect (linger : Option ℕ) : Except String PassiveInpcb :=
  if !inp.tp.tState.haveEstablished then .ok inp.tcpClose
  else if linger = some 0 then .ok (inp.tcpDrop o none)
  else match sbdropLocked inp.tp.soRcv inp.tp.soRcv.sbCc.toNat with
    | none => .error "sbflush"
    | some sb =>
      .ok ((inp.modifyTp fun tp => { tp with soRcv := sb }).tcpUsrclosed.outputDisconnect o)

def protoref : PassiveInpcb :=
  if inp.inpDropped then inp else { inp with inpSockref := true }

end PassiveInpcb

def tcpMaxrxtshift : ℕ := 12

/-- What happens to one of the two.  A timer goes off when it has been started, which is known of
three of them only, and what it makes of the time that has passed is left open. -/
inductive MemberOp where
  | segment (e : TcpEnv) (w : TimewaitEnv) (p : TcpPkt)
  /-- `soreceive` takes `n` bytes and calls `tcp_usr_rcvd` -/
  | read (e : TcpEnv) (n : ℕ)
  /-- `soaccept` -/
  | accept
  | usrShutdown (o : OutputEnv)
  | usrDisconnect (o : OutputEnv) (linger : Option ℕ)
  /-- `tcp_usr_close` as `soclose` calls it -/
  | usrClose (o : OutputEnv) (linger : Option ℕ)
  | usrAbort (o : OutputEnv)
  | timerReassdl (ticks : ℕ)
  | timerDelack (e : TcpEnv)
  | timer2msl (expired : Bool)
  | timerKeep (o : OutputEnv) (idle : Bool)
  | timerPersist (o : OutputEnv) (idle : Bool)
  /-- with the control state after the back off -/
  | timerRexmt (o : OutputEnv) (ctl : SndCtl) (errno : Errno)

namespace PassiveInpcb

def etimedout : Errno := .other 60

def econnaborted : Errno := .other 53

def step (inp : PassiveInpcb) : MemberOp → Except String PassiveInpcb
  | .segment e w p => if inp.gone then .ok inp else inp.settle w (tcpDoSegment e inp.tp p)
  | .read e n =>
    if inp.gone then
      match sbdropLocked inp.tp.soRcv n with
      | none => .error "sbdrop"
      | some sb => .ok (inp.modifyTp fun tp => { tp with soRcv := sb })
    else inp.settle {} (tcpUsrRcvd e inp.tp n)
  | .accept => .ok (inp.modifyTp fun tp => { tp with soNofdref := false })
  | .usrShutdown o => .ok (if inp.gone then inp else inp.tcpUsrclosed.outputDisconnect o)
  | .usrDisconnect o linger => if inp.gone then .ok inp else inp.tcpDisconnect o linger
  | .usrClose o linger =>
    (if inp.gone then .ok inp else inp.tcpDisconnect o linger).map fun inp =>
      inp.protoref.modifyTp fun tp => { tp with soNofdref := true }
  | .usrAbort o => .ok (if inp.gone then inp else inp.tcpDrop o (some econnaborted)).protoref
  | .timerReassdl ticks =>
    .ok (if inp.gone then inp
      else inp.modifyTp fun tp => tp.setReass (tp.toReassCb.fireReassdl ticks))
  | .timerDelack e =>
    .ok (if inp.gone || !inp.tp.ttDelack then inp
      else inp.modifyTp fun tp => tcpOutput e { tp with ttDelack := false, tfAcknow := true })
  | .timer2msl expired =>
    .ok (if inp.gone then inp
      else
        let inp := inp.modifyTp fun tp => { tp with ctl := { tp.ctl with sndHoles := 0 } }
        if expired then inp.tcpClose else inp)
  | .timerKeep o idle =>
    .ok (if inp.gone then inp
      else if !inp.tp.tState.haveEstablished || idle then inp.tcpDrop o (some etimedout) else inp)
  | .timerPersist o idle =>
    if inp.gone || !inp.tp.ctl.ttPersist then .ok inp
    else if inp.tp.ctl.tRxtshift = tcpMaxrxtshift ∧ idle = true then
      .ok ((inp.modifyTp fun tp => { tp with ctl := { tp.ctl with ttPersist := false } }).tcpDrop o
        (some etimedout))
    -- `tcp_setpersist` starts the timer again
    else if inp.tp.ctl.ttRexmt then .error "tcp_setpersist: retransmit pending"
    else .ok (inp.modifyTp fun tp => tcpOutput o.tcp
      { tp with ctl := { tp.ctl with tRxtshift := min (tp.ctl.tRxtshift + 1) tcpMaxrxtshift } })
  | .timerRexmt o ctl errno =>
    .ok (if inp.gone || !inp.tp.ctl.ttRexmt then inp
      else
        let inp := inp.modifyTp fun tp =>
          { tp with ctl := { tp.ctl with ttRexmt := false, sndHoles := 0 } }
        if tcpMaxrxtshift < inp.tp.ctl.tRxtshift + 1 then inp.tcpDrop o (some errno)
        else inp.modifyTp fun tp =>
          tcpOutput o.tcp { tp with sndNxt := tp.sndUna, tfAcknow := true, ctl := ctl })

/-- What holds of a member of a passive pair: until it is dropped there is a control block of a
connection that is under way. -/
structure Sound (inp : PassiveInpcb) : Prop where
  inpPassive : inp.tp.inpPassive = true
  tfSentfin : inp.tfSentfin = false
  resets : inp.resets = []
  live : inp.inpDropped = false →
    inp.tp.Steady ∧ inp.inpPpcb = .tcpcb ∧ inp.inpTimewait = false ∧ inp.closes = 0
  dropped : inp.inpDropped = true → inp.closes ≠ 0

variable {inp : PassiveInpcb}

theorem Sound.of_dropped (hpas : inp.tp.inpPassive = true) (hfin : inp.tfSentfin = false)
    (hres : inp.resets = []) (hdrop : inp.inpDropped = true) (hcloses : inp.closes ≠ 0) :
    inp.Sound where
  inpPassive := hpas
  tfSentfin := hfin
  resets := hres
  live := fun h => absurd (hdrop.symm.trans h) Bool.true_eq_false.mp
  dropped := fun _ => hcloses

section

variable (h : inp.Sound)
include h

theorem Sound.steady (hgone : inp.gone = false) : inp.tp.Steady :=
  (h.live (Bool.or_eq_false_iff.mp hgone).2).1

variable {inp' : PassiveInpcb} {f : Tcpcb → Tcpcb}

/-- The control block may change as long as the connection stays under way. -/
theorem Sound.modifyTp (hf : (f inp.tp).Steady) :
    (inp.modifyTp f).Sound where
  inpPassive := hf.inpPassive
  tfSentfin := h.tfSentfin
  resets := h.resets
  live := fun hnot => ⟨hf, (h.live hnot).2⟩
  dropped := h.dropped

/-- What only the socket has may change at any time. -/
theorem Sound.modifySocket
    (hf : (f inp.tp).inpPassive = inp.tp.inpPassive ∧ (f inp.tp).tState = inp.tp.tState ∧
      (f inp.tp).tfNeedsyn = inp.tp.tfNeedsyn) : (inp.modifyTp f).Sound := by
  obtain ⟨hpas, hstate, hneed⟩ := hf
  refine { h with inpPassive := hpas.trans h.inpPassive, live := fun hnot => ?_ }
  obtain ⟨hst, hrest⟩ := h.live hnot
  exact ⟨⟨hpas.trans hst.inpPassive, hstate ▸ hst.state, hneed.trans hst.tfNeedsyn⟩, hrest⟩

theorem Sound.soisdisconnected : inp.soisdisconnected.Sound :=
  h.modifySocket (f := fun tp => { tp with toReassCb := tp.toReassCb.socantrcvmore, soSndCc := 0 })
    ⟨rfl, rfl, rfl⟩

theorem Sound.tcpClose : inp.tcpClose.Sound :=
  .of_dropped h.inpPassive h.tfSentfin h.resets rfl (Nat.succ_ne_zero _)

/-- Closing does not look at the state of the connection. -/
theorem Sound.tcpClose_modifyTp (hf : (f inp.tp).inpPassive = true) :
    (inp.modifyTp f).tcpClose.Sound :=
  .of_dropped hf h.tfSentfin h.resets rfl (Nat.succ_ne_zero _)

theorem Sound.tcpDrop (o : OutputEnv) (errno : Option Errno) : (inp.tcpDrop o errno).Sound := by
  have hout : (tcpOutput o.tcp { inp.tp with tState := .closed }).inpPassive = true :=
    (tcpOutput_keeps o.tcp _).inpPassive.trans h.inpPassive
  have hres : inp.resets ++
      (({ inp with tp := { inp.tp with tState := .closed } } : PassiveInpcb).tcpOutputReset
        o).2.toList = [] := by
    simp [tcpOutputReset, h.inpPassive, h.resets]
  unfold PassiveInpcb.tcpDrop
  split
  · exact .of_dropped hout h.tfSentfin hres rfl (Nat.succ_ne_zero _)
  · exact .of_dropped h.inpPassive h.tfSentfin h.resets rfl (Nat.succ_ne_zero _)

theorem Sound.tcpTwstart_modifyTp (hf : (f inp.tp).inpPassive = true) (w : TimewaitEnv) :
    ((inp.modifyTp f).tcpTwstart w).Sound := by
  unfold tcpTwstart
  split
  · exact h.tcpClose_modifyTp hf
  · dsimp only
    -- the `inpcb` of a passive connection does not wait
    have hpas : (inp.modifyTp f).soisdisconnected.tp.inpPassive = true := hf
    rw [if_pos hpas]
    exact .of_dropped hf h.tfSentfin h.resets rfl (Nat.succ_ne_zero _)

theorem Sound.settle (w : TimewaitEnv) {r : TcpResult} (hpas : r.tp.inpPassive = true)
    (hlive : r.fate = .live → r.tp.Steady) (hs : inp.settle w r = .ok inp') : inp'.Sound := by
  unfold PassiveInpcb.settle at hs
  split at hs
  · next hfate =>
    obtain rfl := Except.ok.inj hs
    exact h.modifyTp (f := fun _ => r.tp) (hlive hfate)
  · obtain rfl := Except.ok.inj hs
    exact h.tcpClose_modifyTp (f := fun _ => r.tp) hpas
  · obtain rfl := Except.ok.inj hs
    exact h.tcpTwstart_modifyTp (f := fun _ => r.tp) hpas w
  · cases hs

theorem Sound.tcpUsrclosed (hgone : inp.gone = false) : inp.tcpUsrclosed.Sound := by
  have hst := h.steady hgone
  unfold PassiveInpcb.tcpUsrclosed
  split
  · exact h.tcpClose_modifyTp h.inpPassive
  · exact h.tcpClose_modifyTp h.inpPassive
  · exact h.modifySocket ⟨rfl, rfl, rfl⟩
  · exact h.modifySocket ⟨rfl, rfl, rfl⟩
  · exact h.modifyTp { hst with state := finWait1_open }
  · rw [if_pos h.inpPassive]
    exact h.tcpClose_modifyTp h.inpPassive
  · exact h.soisdisconnected
  · exact h.soisdisconnected
  · exact h
  · exact h
  · exact h

theorem Sound.outputDisconnect (o : OutputEnv) : (inp.outputDisconnect o).Sound := by
  unfold PassiveInpcb.outputDisconnect
  split
  · exact h
  · next hnot =>
    have hsame : inp.tp.SameSend True (tcpOutput o.tcp inp.tp) := tcpOutput_sameSend o.tcp inp.tp
    exact h.modifyTp ((h.live (Bool.eq_false_iff.mpr hnot)).1.congr hsame)

theorem Sound.tcpDisconnect (hgone : inp.gone = false) {o : OutputEnv} {linger : Option ℕ}
    (hd : inp.tcpDisconnect o linger = .ok inp') : inp'.Sound := by
  unfold PassiveInpcb.tcpDisconnect at hd
  split_ifs at hd
  · exact Except.ok.inj hd ▸ h.tcpClose
  · exact Except.ok.inj hd ▸ h.tcpDrop o none
  · split at hd
    · cases hd
    · next sb _ =>
      have hflush : (inp.modifyTp fun tp => { tp with soRcv := sb }).Sound :=
        h.modifySocket ⟨rfl, rfl, rfl⟩
      exact Except.ok.inj hd ▸ (hflush.tcpUsrclosed hgone).outputDisconnect o

theorem Sound.protoref : inp.protoref.Sound := by
  unfold PassiveInpcb.protoref
  split
  · exact h
  · exact { h with }

theorem Sound.tcpOutput (e : TcpEnv) (hf : (f inp.tp).Steady) :
    (inp.modifyTp fun tp => Libuinet.tcpOutput e (f tp)).Sound := by
  have hsame : (f inp.tp).SameSend True (Libuinet.tcpOutput e (f inp.tp)) :=
    tcpOutput_sameSend e (f inp.tp)
  exact h.modifyTp (f := fun tp => Libuinet.tcpOutput e (f tp)) (hf.congr hsame)

/-- `soclose`, after `tcp_usr_close` has disconnected. -/
theorem Sound.usrClose : (inp.protoref.modifyTp fun tp => { tp with soNofdref := true }).Sound :=
  h.protoref.modifySocket ⟨rfl, rfl, rfl⟩

theorem Sound.step_gone (hgone : inp.gone = true) (op : MemberOp) (hs : inp.step op = .ok inp') :
    inp'.Sound := by
  cases op with
  | read e n =>
    rw [step, if_pos hgone] at hs
    split at hs
    · cases hs
    · exact Except.ok.inj hs ▸ h.modifySocket ⟨rfl, rfl, rfl⟩
  | accept => exact Except.ok.inj hs ▸ h.modifySocket ⟨rfl, rfl, rfl⟩
  | usrClose o linger =>
    rw [step, if_pos hgone] at hs
    exact Except.ok.inj hs ▸ h.usrClose
  | usrAbort o =>
    rw [step, if_pos hgone] at hs
    exact Except.ok.inj hs ▸ h.protoref
  | segment | usrShutdown | usrDisconnect | timerReassdl | timerDelack | timer2msl | timerKeep
  | timerPersist | timerRexmt =>
    simp only [step, hgone, Bool.true_or, if_true] at hs
    exact Except.ok.inj hs ▸ h

theorem Sound.step (op : MemberOp) (hs : inp.step op = .ok inp') : inp'.Sound := by
  by_cases hgone : inp.gone = true
  · exact h.step_gone hgone op hs
  rw [Bool.not_eq_true] at hgone
  have hst := h.steady hgone
  cases op with simp only [PassiveInpcb.step, hgone, Bool.false_eq_true, if_false] at hs
  | segment e w p =>
    exact h.settle w ((tcpDoSegment_frozen e _ p).inpPassive.trans h.inpPassive)
      (tcpDoSegment_steady e hst p) hs
  | read e n =>
    have hsame : inp.tp.SameSend True (tcpUsrRcvd e inp.tp n).tp := tcpUsrRcvd_sameSend e inp.tp n
    exact h.settle {} (hsame.inpPassive.trans h.inpPassive) (fun _ => hst.congr hsame) hs
  | accept => exact Except.ok.inj hs ▸ h.modifySocket ⟨rfl, rfl, rfl⟩
  | usrShutdown o => exact Except.ok.inj hs ▸ (h.tcpUsrclosed hgone).outputDisconnect o
  | usrDisconnect o linger => exact h.tcpDisconnect hgone hs
  | usrClose o linger =>
    cases hd : inp.tcpDisconnect o linger with
    | error => rw [hd] at hs; cases hs
    | ok inp₁ =>
      rw [hd] at hs
      exact Except.ok.inj hs ▸ (h.tcpDisconnect hgone hd).usrClose
  | usrAbort o => exact Except.ok.inj hs ▸ (h.tcpDrop o _).protoref
  | timerReassdl ticks =>
    have hsame : inp.tp.SameSend True (inp.tp.setReass (inp.tp.toReassCb.fireReassdl ticks)) :=
      fireReassdl_sameSend inp.tp ticks
    exact Except.ok.inj hs ▸ h.modifyTp (hst.congr hsame)
  | timerDelack e =>
    obtain rfl := Except.ok.inj hs
    split
    · exact h
    · exact h.tcpOutput e { hst with }
  | timer2msl expired =>
    obtain rfl := Except.ok.inj hs
    have hfree : (inp.modifyTp fun tp =>
        { tp with ctl := { tp.ctl with sndHoles := 0 } }).Sound := h.modifySocket ⟨rfl, rfl, rfl⟩
    split
    · exact hfree.tcpClose
    · exact hfree
  | timerKeep o idle =>
    obtain rfl := Except.ok.inj hs
    split
    · exact h.tcpDrop o _
    · exact h
  | timerPersist o idle =>
    split_ifs at hs
    · exact Except.ok.inj hs ▸ h
    · have hoff : (inp.modifyTp fun tp =>
          { tp with ctl := { tp.ctl with ttPersist := false } }).Sound :=
        h.modifySocket ⟨rfl, rfl, rfl⟩
      exact Except.ok.inj hs ▸ hoff.tcpDrop o _
    · exact Except.ok.inj hs ▸ h.tcpOutput o.tcp { hst with }
  | timerRexmt o ctl errno =>
    obtain rfl := Except.ok.inj hs
    have hoff : (inp.modifyTp fun tp =>
        { tp with ctl := { tp.ctl with ttRexmt := false, sndHoles := 0 } }).Sound :=
      h.modifySocket ⟨rfl, rfl, rfl⟩
    split
    · exact h
    · split
      · exact hoff.tcpDrop o _
      · exact hoff.tcpOutput o.tcp { hst with }

end

/-- With all three pointers at one place, and nothing to be resent out of the scoreboard, the reset
carries that number. -/
theorem outputSeq_eq (o : OutputEnv) {x : TcpSeq} (huna : inp.tp.sndUna = x)
    (hnxt : inp.tp.sndNxt = x) (hmax : inp.tp.sndMax = x) (hneed : inp.tp.tfNeedsyn = false)
    (hfin : inp.tfSentfin = false)
    (hfast : (inp.tp.tfSackPermit && inp.tp.ctl.inFastrecovery) = false) :
    outputSeq o inp = x := by
  unfold outputSeq
  simp [huna, hnxt, hmax, hneed, hfin, hfast]

/-- `tcp_drop` of a connection that is under way and no longer passive. -/
theorem tcpDrop_active (o : OutputEnv) (errno : Option Errno) (hpas : inp.tp.inpPassive = false)
    (hopen : inp.tp.tState.Open) : (inp.tcpDrop o errno).tp.inpPassive = false ∧
      (inp.tcpDrop o errno).closes = inp.closes + 1 ∧
      (inp.tcpDrop o errno).resets = inp.resets ++
        if o.mgethdr then [outputSeq o (inp.modifyTp (·.setState .closed))] else [] := by
  have hsync : (inp.tp.tState.haveEstablished || inp.tp.tState = .synReceived) = true := by
    revert hopen
    cases inp.tp.tState <;> decide
  have hout : (tcpOutput o.tcp { inp.tp with tState := .closed }).inpPassive = false :=
    (tcpOutput_keeps o.tcp _).inpPassive.trans hpas
  unfold tcpDrop
  rw [if_pos hsync]
  refine ⟨hout, rfl, ?_⟩
  change inp.resets ++ Option.toList (if (inp.tp.inpPassive || !o.mgethdr) = true then none
    else some (outputSeq o (inp.modifyTp (·.setState .closed)))) = _
  rw [hpas, Bool.false_or]
  cases o.mgethdr <;> rfl

end PassiveInpcb

def startPair (e : PassiveRole → TcpEnv) (w : TimewaitEnv) (sc : Syncache) (lso : ListenSocket)
    (opt : TcpOpt) : Option (Except String (PassiveRole → PassiveInpcb)) := do
  let server ← PassiveRole.server.start (e .server) sc lso opt
  let client ← PassiveRole.client.start (e .client) sc lso opt
  return do
    let server ← PassiveInpcb.settle w { tp := server.tp } server
    let client ← PassiveInpcb.settle w { tp := client.tp } client
    return fun | .server => server | .client => client

def memberStep (r : Except String (PassiveRole → PassiveInpcb)) (a : PassiveRole × MemberOp) :
    Except String (PassiveRole → PassiveInpcb) := do
  let s ← r
  let inp ← (s a.1).step a.2
  return Function.update s a.1 inp

/-- `in_passive_convert_to_active`.  Without a control block the pointer is not to be followed. -/
def inPassiveConvertToActive (o : OutputEnv) (s : PassiveRole → PassiveInpcb) (i : PassiveRole) :
    Except String (PassiveRole → PassiveInpcb) :=
  let inp := s i
  let peer := s i.peer
  if inp.inpPpcb ≠ .tcpcb ∨ peer.inpPpcb ≠ .tcpcb then .error "page fault"
  else
    let convert (tp : Tcpcb) (rcvNxt : TcpSeq) : Tcpcb :=
      { tp with
        inpPassive := false
        sndUna := rcvNxt
        sndMax := rcvNxt
        sndNxt := rcvNxt
        tfRcvdTstmp := false }
    let inp' := inp.modifyTp (convert · peer.tp.rcvNxt)
    let peer' := peer.modifyTp (convert · inp.tp.rcvNxt)
    .ok fun m => if m = i then inp' else peer'.tcpDrop o (some PassiveInpcb.econnaborted)

/-- `tcp_usr_send` up to the data; `control` is the length of the control message. -/
def tcpUsrSendHead (o : OutputEnv) (s : PassiveRole → PassiveInpcb) (i : PassiveRole)
    (control : Option ℕ) : Except String (Except Errno (PassiveRole → PassiveInpcb)) :=
  if (s i).gone then .ok (.error .econnreset)
  else if 0 < control.getD 0 then .ok (.error .einval)
  else if (s i).tp.inpPassive then (inPassiveConvertToActive o s i).map .ok
  else .ok (.ok s)

/-- The peer was alive, the sender goes on where the peer has received up to, and the peer has been
dropped once, with a reset at the number its own end has received up to. -/
structure TakenOver (o : OutputEnv) (s q : PassiveRole → PassiveInpcb) (i : PassiveRole) :
    Prop where
  inpPpcb : (s i.peer).inpPpcb = .tcpcb
  tState : (s i.peer).tp.tState ≠ .closed
  fresh : (s i.peer).closes = 0
  sndUna : (q i).tp.sndUna = (s i.peer).tp.rcvNxt
  sndNxt : (q i).tp.sndNxt = (s i.peer).tp.rcvNxt
  sndMax : (q i).tp.sndMax = (s i.peer).tp.rcvNxt
  inpPassive : ∀ m, (q m).tp.inpPassive = false
  closes : (q i.peer).closes = 1
  resets : (q i.peer).resets = if o.mgethdr then [(s i).tp.rcvNxt] else []

section Pair

variable {s : PassiveRole → PassiveInpcb} {i : PassiveRole} {o : OutputEnv}

theorem start_settle_sound {m : PassiveRole} {e : TcpEnv} {w : TimewaitEnv} {sc : Syncache}
    {lso : ListenSocket} {opt : TcpOpt} {c : TcpResult} {inp : PassiveInpcb}
    (hpas : sc.scfPassive = true) (hmode : m.inpPassive lso = true)
    (hstart : m.start e sc lso opt = some c)
    (hset : PassiveInpcb.settle w { tp := c.tp } c = .ok inp) : inp.Sound := by
  have hp : c.tp.inpPassive = true := (PassiveRole.start_frozen hpas hstart).1.trans hmode
  -- `settle` does not look at the control block the segment was given to
  have hany : ({ tp := { c.tp with tState := .established, tfNeedsyn := false } } :
      PassiveInpcb).Sound :=
    ⟨hp, rfl, rfl, fun _ => ⟨⟨hp, established_open, rfl⟩, rfl, rfl, rfl⟩, Bool.noConfusion⟩
  exact hany.settle w hp (PassiveRole.start_steady e hpas hmode hstart) hset

theorem startPair_sound {e : PassiveRole → TcpEnv} {w : TimewaitEnv} {sc : Syncache}
    {lso : ListenSocket} {opt : TcpOpt} {r : Except String (PassiveRole → PassiveInpcb)}
    (hpas : sc.scfPassive = true) (hmode : lso.soPassive = true)
    (h : startPair e w sc lso opt = some r) : ∀ s, r = .ok s → ∀ m, (s m).Sound := by
  obtain ⟨server, hserver, h⟩ := Option.bind_eq_some_iff.mp h
  obtain ⟨client, hclient, h⟩ := Option.bind_eq_some_iff.mp h
  obtain rfl := Option.some.inj h
  intro s hs m
  cases hser : PassiveInpcb.settle w { tp := server.tp } server with
  | error => rw [hser] at hs; cases hs
  | ok a =>
    cases hcli : PassiveInpcb.settle w { tp := client.tp } client with
    | error => rw [hser, hcli] at hs; cases hs
    | ok b =>
      rw [hser, hcli] at hs
      obtain rfl := Except.ok.inj hs
      cases m
      · exact start_settle_sound hpas rfl hserver hser
      · exact start_settle_sound (m := .client) hpas hmode hclient hcli

theorem memberStep_sound (r : Except String (PassiveRole → PassiveInpcb))
    (a : PassiveRole × MemberOp) (h : ∀ s, r = .ok s → ∀ m, (s m).Sound) :
    ∀ s, memberStep r a = .ok s → ∀ m, (s m).Sound := by
  intro s' hs' m
  cases r with
  | error => cases hs'
  | ok s =>
    have heq : memberStep (.ok s) a = (s a.1).step a.2 >>= fun inp =>
      return Function.update s a.1 inp := rfl
    cases hstep : (s a.1).step a.2 with
    | error => rw [heq, hstep] at hs'; cases hs'
    | ok inp =>
      rw [heq, hstep] at hs'
      obtain rfl := Except.ok.inj hs'
      by_cases hm : m = a.1
      · subst hm
        rw [Function.update_self]
        exact (h s rfl _).step _ hstep
      · rw [Function.update_of_ne hm]
        exact h s rfl m

/-- A peer that has not been dropped is taken over. -/
theorem convert_takenOver (h : ∀ m, (s m).Sound) (hi : (s i).gone = false)
    (hpeer : (s i.peer).gone = false)
    (hfast : ((s i.peer).tp.tfSackPermit && (s i.peer).tp.ctl.inFastrecovery) = false) :
    ∃ q, inPassiveConvertToActive o s i = .ok q ∧ TakenOver o s q i := by
  have hlive (m : PassiveRole) (hm : (s m).gone = false) :=
    (h m).live (Bool.or_eq_false_iff.mp hm).2
  obtain ⟨hst, hppcb, -, hcloses⟩ := hlive i.peer hpeer
  have hboth : ¬ ((s i).inpPpcb ≠ .tcpcb ∨ (s i.peer).inpPpcb ≠ .tcpcb) := by
    rw [(hlive i hi).2.1, hppcb]
    simp
  unfold inPassiveConvertToActive
  dsimp only
  rw [if_neg hboth]
  refine ⟨_, rfl, ?_⟩
  have hne : i.peer ≠ i := by cases i <;> decide
  generalize hp : (s i.peer).modifyTp _ = peer
  have hpas : peer.tp.inpPassive = false := by subst hp; rfl
  have hopen : peer.tp.tState.Open := by subst hp; exact hst.state
  have hres : peer.resets = [] := by subst hp; exact (h _).resets
  have hclosed : peer.closes = 0 := by subst hp; exact hcloses
  have hseq : PassiveInpcb.outputSeq o (peer.modifyTp (·.setState .closed)) = (s i).tp.rcvNxt := by
    subst hp
    exact PassiveInpcb.outputSeq_eq o rfl rfl rfl hst.tfNeedsyn (h _).tfSentfin hfast
  obtain ⟨hoff, hcount, hsent⟩ := PassiveInpcb.tcpDrop_active o
    (some PassiveInpcb.econnaborted) hpas hopen
  have hself {x y : PassiveInpcb} : (if i = i then x else y) = x := if_pos rfl
  have hother {x y : PassiveInpcb} : (if i.peer = i then x else y) = y := if_neg hne
  refine ⟨hppcb, hst.state.1, hcloses, ?_, ?_, ?_, ?_, ?_, ?_⟩
  · rw [hself]; rfl
  · rw [hself]; rfl
  · rw [hself]; rfl
  · intro m
    split
    · rfl
    · exact hoff
  · rw [hother, hcount, hclosed]
  · rw [hother, hsent, hres, hseq, List.nil_append]

theorem tcpUsrSendHead_eq (h : (s i).Sound) (hi : (s i).gone = false) {control : Option ℕ}
    (hcontrol : control.getD 0 = 0) :
    tcpUsrSendHead o s i control = (inPassiveConvertToActive o s i).map .ok := by
  rw [tcpUsrSendHead, hi, if_neg Bool.false_ne_true, hcontrol, if_neg (lt_irrefl 0),
    if_pos h.inpPassive]

end Pair

/-- A send on a member of a passive pair that is not gone takes over a living peer if and only if
the peer has not been dropped either, however the pair came to be as it is. -/
theorem takeover_live_iff (e : PassiveRole → TcpEnv) (w : TimewaitEnv) (sc : Syncache)
    (lso : ListenSocket) (opt : TcpOpt) (r : Except String (PassiveRole → PassiveInpcb))
    (ops : List (PassiveRole × MemberOp)) (s : PassiveRole → PassiveInpcb) (i : PassiveRole)
    (o : OutputEnv) (control : Option ℕ) (hpas : sc.scfPassive = true)
    (hmode : lso.soPassive = true) (hstart : startPair e w sc lso opt = some r)
    (hrun : run memberStep r ops = .ok s) (hi : (s i).gone = false)
    (hcontrol : control.getD 0 = 0)
    (hfast : ((s i.peer).tp.tfSackPermit && (s i.peer).tp.ctl.inFastrecovery) = false) :
    (∃ q, tcpUsrSendHead o s i control = .ok (.ok q) ∧ TakenOver o s q i) ↔
      (s i.peer).gone = false := by
  have hsound := run_preserves memberStep_sound (startPair_sound hpas hmode hstart) ops s hrun
  rw [tcpUsrSendHead_eq (hsound i) hi hcontrol]
  constructor
  · rintro ⟨q, -, hq⟩
    have hnot : (s i.peer).inpDropped = false := by
      by_contra hdrop
      exact (hsound _).dropped (Bool.not_eq_false _ ▸ hdrop) hq.fresh
    rw [PassiveInpcb.gone, hnot, ((hsound _).live hnot).2.2.1]
    rfl
  · intro hpeer
    obtain ⟨q, hq, htaken⟩ := convert_takenOver (o := o) hsound hi hpeer hfast
    exact ⟨q, by rw [hq]; rfl, htaken⟩

/-- A segment without data that reaches the server end of a connection from 0 to 1000. -/
def toServer (ack : TcpSeq) (flags : TcpFlags) : PassiveRole × MemberOp :=
  (.server, .segment {} {}
    { th := { thSeq := 1, thAck := ack, thFlags := { flags with ack := true } }
      tlen := 0
      m := []
      fits := Nat.zero_le _ })

def pairFromZero : Option (Except String (PassiveRole → PassiveInpcb)) :=
  startPair (fun _ => {}) {} { scIrs := 0, scIss := 1000, scWnd := 1000 } {} {}

/-- The client end sends right after the handshake. -/
theorem takeover_live_iff_handshake :
    ∃ r s, pairFromZero = some r ∧ run memberStep r [toServer 1001 {}] = .ok s ∧
      ∃ q, tcpUsrSendHead {} s .client none = .ok (.ok q) ∧ TakenOver {} s q .client := by
  refine ⟨_, _, rfl, rfl, ?_⟩
  refine (takeover_live_iff (fun _ => {}) {} { scIrs := 0, scIss := 1000, scWnd := 1000 } {} {} _
    [toServer 1001 {}] _ .client {} none rfl rfl rfl rfl ?_ rfl ?_).mpr ?_ <;> decide

def takeoverOf (ops : List (PassiveRole × MemberOp)) (i : PassiveRole) :
    Option (Except String (Except Errno (TcpState × ℕ × ℕ × List TcpSeq))) :=
  pairFromZero.map fun r => do
    let s ← run memberStep r ops
    let sent ← tcpUsrSendHead {} s i none
    return sent.map fun q =>
      ((s i.peer).tp.tState, (s i.peer).closes, (q i.peer).closes, (q i.peer).resets)

/-- A reset closes the server end, and the client end takes over a connection that is closed
already: it is dropped again and no reset is sent.  When the server end has been through
`TCPS_TIME_WAIT` there is no control block any more. -/
theorem takeover_dead_peer :
    takeoverOf [toServer 1001 {}, toServer 1001 { rst := true }] .client =
      some (.ok (.ok (.closed, 1, 2, []))) ∧
    takeoverOf [toServer 1001 {}, (.server, .usrShutdown {}), toServer 1002 { fin := true }]
      .client = some (.error "page fault") := by
  constructor <;> rfl

end Libuinet
