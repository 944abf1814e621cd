import Libuinet.SyncacheExpand
import Libuinet.SyncacheTags

namespace Libuinet

open SerialArith Execution

/-- The fields of a control block that the two ends are compared in, and those needed
to follow them. -/
@[ext]
structure ConnView where
  tState : TcpState
  iss : TcpSeq
  irs : TcpSeq
  sndNxt : TcpSeq
  sndMax : TcpSeq
  rcvNxt : TcpSeq
  sndScale : ℕ
  requestRScale : ℕ
  tfReqScale : Bool
  tfRcvdScale : Bool
  tfReqTstmp : Bool
  tfRcvdTstmp : Bool
  tfSackPermit : Bool
  soSndCc : ℕ
  sndUna : TcpSeq
  tfNeedfin : Bool

namespace Tcpcb

def connView (tp : Tcpcb) : ConnView where
  tState := tp.tState
  iss := tp.iss
  irs := tp.irs
  sndNxt := tp.sndNxt
  sndMax := tp.sndMax
  rcvNxt := tp.rcvNxt
  sndScale := tp.sndScale
  requestRScale := tp.requestRScale
  tfReqScale := tp.tfReqScale
  tfRcvdScale := tp.tfRcvdScale
  tfReqTstmp := tp.tfReqTstmp
  tfRcvdTstmp := tp.tfRcvdTstmp
  tfSackPermit := tp.tfSackPermit
  soSndCc := tp.soSndCc
  sndUna := tp.sndUna
  tfNeedfin := tp.tfNeedfin

end Tcpcb

theorem connView_ccCongSignal (e : TcpEnv) (tp : Tcpcb) (th : TcpHdr) (type : CcSignal)
    (h : tp.sndNxt = tp.sndMax) : (ccCongSignal e tp th type).connView = tp.connView := by
  simp [ccCongSignal, Tcpcb.connView, h]

theorem connView_ecnInput (e : TcpEnv) (tp : Tcpcb) (p : TcpPkt) (h : tp.sndNxt = tp.sndMax) :
    (ecnInput e tp p).connView = tp.connView := by
  unfold ecnInput
  split
  · extract_lets tp₁ tp₂
    have h₁ : tp₁.connView = tp.connView := by
      unfold tp₁
      split <;> rfl
    have h₂ : tp₂.connView = tp₁.connView := by
      unfold tp₂
      split <;> rfl
    rw [← h₁, ← h₂]
    split
    · apply connView_ccCongSignal
      have hview := h₂.trans h₁
      exact (congrArg ConnView.sndNxt hview).trans (h.trans (congrArg ConnView.sndMax hview).symm)
    · rfl
  · rfl

def ConnView.synOptions (v : ConnView) (opt : TcpOpt) : ConnView :=
  { v with
    tfRcvdScale := v.tfRcvdScale || opt.tofScale && v.tfReqScale
    sndScale := if opt.tofScale && v.tfReqScale then opt.toWscale else v.sndScale
    tfRcvdTstmp := v.tfRcvdTstmp || opt.tofTs
    tfSackPermit := v.tfSackPermit && opt.tofSackperm }

theorem connView_synSentOptions (e : TcpEnv) (tp : Tcpcb) (th : TcpHdr) (opt : TcpOpt) :
    (synSentOptions e tp th opt).connView = tp.connView.synOptions opt := by
  unfold synSentOptions
  extract_lets tp₁ tp₂ tp₃ tp₄
  have h₁ : tp₁.connView = { tp.connView with
      tfRcvdScale := tp.tfRcvdScale || opt.tofScale && tp.tfReqScale
      sndScale := if opt.tofScale && tp.tfReqScale then opt.toWscale else tp.sndScale } := by
    unfold tp₁
    cases opt.tofScale && tp.tfReqScale <;> simp [Tcpcb.connView]
  have h₃ : tp₃.connView =
      { tp₁.connView with tfRcvdTstmp := tp₁.connView.tfRcvdTstmp || opt.tofTs } := by
    unfold tp₃ tp₂
    cases opt.tofTs <;> simp [Tcpcb.connView]
  have h₄ : tp₄.connView = tp₃.connView := by
    unfold tp₄
    split <;> rfl
  have h₅ (tp : Tcpcb) :
      (if tp.tfSackPermit && !opt.tofSackperm then { tp with tfSackPermit := false }
        else tp).connView =
      { tp.connView with tfSackPermit := tp.connView.tfSackPermit && opt.tofSackperm } := by
    cases hk : tp.tfSackPermit <;> cases opt.tofSackperm <;> simp [Tcpcb.connView, hk]
  rw [h₅, h₄, h₃, h₁]
  rfl

/-- With everything sent acknowledged, nothing moves `snd_nxt`. -/
theorem connView_ackTiming (e : TcpEnv) (v : InputVars) (h : v.tp.sndNxt = v.tp.sndMax) :
    (ackTiming e v).connView = v.tp.connView := by
  unfold ackTiming
  extract_lets tp₀ tp₁ t tp₂ t' tp₃
  have h₁ : tp₁.connView = v.tp.connView := by
    unfold tp₁
    split
    · exact connView_ccCongSignal e v.tp v.th _ h
    · rfl
  rw [← h₁]
  split_ifs <;> rfl

theorem connView_rexmtAfterAck (tp : Tcpcb) (una : TcpSeq) :
    (rexmtAfterAck tp una).connView = tp.connView := by
  unfold rexmtAfterAck
  split_ifs <;> rfl

theorem connView_step6 (v : InputVars) : (step6 v).tp.connView = v.tp.connView := by
  unfold step6
  split_ifs <;> rfl

theorem connView_checkDelack (tp : Tcpcb) : (checkDelack tp).tp.connView = tp.connView := by
  unfold checkDelack
  dsimp only
  split_ifs <;> rfl

/-- `tcp_output` on an established connection with nothing to send leaves `snd_nxt` and
`snd_max` alone. -/
def TcpEnv.QuietOutput (e : TcpEnv) : Prop :=
  ∀ tp, tp.tState = .established → tp.soSndCc = 0 →
    (e.tcpOutput tp).sndNxt = tp.sndNxt ∧ (e.tcpOutput tp).sndMax = tp.sndMax

variable {v : InputVars} {lso : ListenSocket} {sc : SyncacheEntry} {e : TcpEnv} {tp : Tcpcb}

theorem connView_tcpOutput (he : e.QuietOutput) (hst : tp.tState = .established)
    (hsnd : tp.soSndCc = 0) : (tcpOutput e tp).connView = tp.connView := by
  unfold tcpOutput
  split_ifs
  · rfl
  · simp [Tcpcb.connView, he tp hst hsnd]

/-- The SYN|ACK is taken: the connection is established. -/
theorem connView_synSentAck (e : TcpEnv) (v : InputVars) (h : v.tp.tfNeedfin = false) :
    synSentAck e v = { v with tp := (synSentAck e v).tp } ∧
      (synSentAck e v).tp.connView =
        { v.tp.connView with tState := .established, sndUna := v.tp.sndUna + 1 } := by
  unfold synSentAck
  extract_lets tp₀ tp₁ tp₂ tp₃ tp₄
  have h₂ : tp₂.connView = { v.tp.connView with sndUna := v.tp.sndUna + 1 } := rfl
  have h₃ : tp₃.connView = tp₂.connView := by
    unfold tp₃
    split <;> rfl
  have h₄ : tp₄.connView = tp₃.connView := by
    unfold tp₄
    split <;> rfl
  have hview := h₄.trans (h₃.trans h₂)
  have hfin : tp₄.tfNeedfin = false := (congrArg ConnView.tfNeedfin hview).trans h
  rw [if_neg (by simp [hfin])]
  refine ⟨rfl, ?_⟩
  change { tp₄.connView with tState := .established } = _
  rw [hview]

/-- A SYN|ACK that acknowledges our SYN and nothing else. -/
structure InputVars.TakesSynack (v : InputVars) : Prop where
  tState : v.tp.tState = .synSent
  tfNeedfin : v.tp.tfNeedfin = false
  sndUna : v.tp.sndUna = v.tp.iss
  sndNxt : v.tp.sndNxt = v.tp.iss + 1
  sndMax : v.tp.sndMax = v.tp.iss + 1
  soSndCc : v.tp.soSndCc = 0
  thAck : v.th.thAck = v.tp.iss + 1
  ack : v.thflags.ack = true
  syn : v.thflags.syn = true
  rst : v.thflags.rst = false
  fin : v.thflags.fin = false
  urg : v.thflags.urg = false
  tlen : v.tlen = 0

def ConnView.established (v : ConnView) (seq : TcpSeq) : ConnView :=
  { v with
    tState := .established
    irs := seq
    rcvNxt := seq + 1
    sndUna := v.iss + 1 }

theorem synSentTrim_empty (h : v.tlen = 0) :
    (synSentTrim v).tp.connView = v.tp.connView ∧ (synSentTrim v).th.thAck = v.th.thAck ∧
      (synSentTrim v).thflags = v.thflags ∧ (synSentTrim v).tlen = 0 := by
  unfold synSentTrim
  dsimp only
  rw [if_neg (by simp [h])]
  exact ⟨rfl, rfl, rfl, h⟩

theorem synSentInput_synack (e : TcpEnv) (h : v.TakesSynack) :
    ∃ v', synSentInput e v = .ok v' ∧ v'.tp.connView = v.tp.connView.established v.th.thSeq ∧
      v'.th.thAck = v.th.thAck ∧ v'.thflags = v.thflags ∧ v'.tlen = 0 := by
  have hfirst : (seqLeq v.th.thAck v.tp.iss || seqGt v.th.thAck v.tp.sndMax) = false := by
    rw [h.thAck, h.sndMax]
    simp [seqLeq, seqGt]
  unfold synSentInput
  rw [h.ack, hfirst, h.rst, h.syn]
  simp only [Bool.and_false, Bool.false_eq_true, if_false, Bool.not_true, if_true]
  generalize hw : ({ v with tp := { v.tp with
    irs := v.th.thSeq, rcvNxt := v.th.thSeq + 1, rcvAdv := v.th.thSeq + 1 } } : InputVars) = w
  rw [if_pos h.ack]
  have hfin : w.tp.tfNeedfin = false := by rw [← hw]; exact h.tfNeedfin
  obtain ⟨hvars, hview⟩ := connView_synSentAck e w hfin
  have htlen : (synSentAck e w).tlen = 0 := by rw [hvars, ← hw]; exact h.tlen
  obtain ⟨htrim, hack, hflags, hlen⟩ := synSentTrim_empty htlen
  refine ⟨_, rfl, ?_, ?_, ?_, hlen⟩
  · rw [htrim, hview, ← hw]
    change ({ v.tp.connView with
      tState := .established, irs := v.th.thSeq, rcvNxt := v.th.thSeq + 1,
      sndUna := v.tp.sndUna + 1 } : ConnView) = _
    rw [h.sndUna]
    rfl
  · rw [hack, hvars, ← hw]
  · rw [hflags, hvars, ← hw]

/-- `process_ACK` with nothing newly acknowledged. -/
theorem processAck_nothing (e : TcpEnv) (hack : v.th.thAck = v.tp.sndUna)
    (hnxt : v.tp.sndNxt = v.tp.sndMax) :
    ∃ v', processAck e v = .ok v' ∧ v'.tp.connView = v.tp.connView ∧ v'.th = v.th ∧
      v'.thflags = v.thflags ∧ v'.tlen = v.tlen := by
  have hzero : bytesThisAck v.tp v.th = 0 := by simp [bytesThisAck, hack]
  unfold processAck
  simp only [hzero, if_true]
  refine ⟨_, rfl, ?_, rfl, rfl, rfl⟩
  exact (connView_rexmtAfterAck _ _).trans (connView_ackTiming e v hnxt)

/-- No urgent data. -/
theorem urgInput_none (e : TcpEnv) (h : v.thflags.urg = false) :
    ∃ v', urgInput e v = .ok v' ∧ v'.tp.connView = v.tp.connView ∧ v'.thflags = v.thflags ∧
      v'.tlen = v.tlen := by
  unfold urgInput
  simp only [h, Bool.false_and, Bool.false_eq_true, if_false]
  refine ⟨_, rfl, ?_, rfl, rfl⟩
  dsimp only
  split <;> rfl

theorem inputSynSent_synack (e : TcpEnv) (h : v.TakesSynack) :
    ∃ v', inputSynSent e v = .ok v' ∧ v'.tp.connView = v.tp.connView.established v.th.thSeq ∧
      v'.thflags = v.thflags ∧ v'.tlen = 0 := by
  obtain ⟨v₁, h₁, hview₁, hack₁, hflags₁, hlen₁⟩ := synSentInput_synack e h
  have huna : v₁.th.thAck = v₁.tp.sndUna := by
    rw [hack₁, h.thAck]
    exact (congrArg ConnView.sndUna hview₁).symm
  have hnxt : v₁.tp.sndNxt = v₁.tp.sndMax := by
    have hn : v₁.tp.sndNxt = v.tp.sndNxt := congrArg ConnView.sndNxt hview₁
    have hm : v₁.tp.sndMax = v.tp.sndMax := congrArg ConnView.sndMax hview₁
    rw [hn, hm, h.sndNxt, h.sndMax]
  obtain ⟨v₂, h₂, hview₂, -, hflags₂, hlen₂⟩ := processAck_nothing e huna hnxt
  have hflags6 : (step6 v₂).thflags = v₂.thflags := by unfold step6; split <;> rfl
  have hlen6 : (step6 v₂).tlen = v₂.tlen := by unfold step6; split <;> rfl
  have hurg : (step6 v₂).thflags.urg = false := by rw [hflags6, hflags₂, hflags₁, h.urg]
  obtain ⟨v₃, h₃, hview₃, hflags₃, hlen₃⟩ := urgInput_none e hurg
  refine ⟨v₃, ?_, ?_, ?_, ?_⟩
  · unfold inputSynSent
    rw [h₁]
    change (if v₁.thflags.ack = true then _ else _) = _
    rw [hflags₁, h.ack, if_pos rfl, h₂]
    exact h₃
  · rw [hview₃, connView_step6, hview₂, hview₁]
  · rw [hflags₃, hflags6, hflags₂, hflags₁]
  · rw [hlen₃, hlen6, hlen₂, hlen₁]

/-- Nothing to hand on: only output is left to be done. -/
theorem finishInput_nothing (he : e.QuietOutput) (hlen : v.tlen = 0) (hfin : v.thflags.fin = false)
    (hst : v.tp.tState = .established) (hsnd : v.tp.soSndCc = 0) :
    (finishInput e v).tp.connView = v.tp.connView := by
  have hdata : v.hasData = false := by simp [InputVars.hasData, hlen, hfin]
  have hd : dataAndFin e v = { tp := v.tp } := by simp [dataAndFin, dodata, hdata]
  unfold finishInput
  rw [hd]
  unfold inputExit
  rw [if_pos rfl, connView_checkDelack]
  split
  · exact connView_tcpOutput he hst hsnd
  · rfl

/-- The SYN|ACK establishes the connection with the values it brings. -/
theorem tcpDoSegment_synack (he : e.QuietOutput) {p : TcpPkt} (h : (inputEntry e tp p).TakesSynack)
    :
    (tcpDoSegment e tp p).tp.connView =
      (inputEntry e tp p).tp.connView.established p.th.thSeq := by
  have hset : (setRcvWnd (inputEntry e tp p)).TakesSynack :=
    { h with }
  obtain ⟨v, hv, hview, hflags, hlen⟩ := inputSynSent_synack e hset
  have hpred : predicted (inputEntry e tp p) = false := by simp [predicted, h.tState]
  have hgo : toDodata e tp p = .ok v := by
    unfold toDodata headerPrediction
    rw [hpred]
    change inputWindow e (inputEntry e tp p) = _
    unfold inputWindow
    rw [if_pos h.tState, hv]
  have hst : v.tp.tState = .established := congrArg ConnView.tState hview
  have hsnd : v.tp.soSndCc = 0 := (congrArg ConnView.soSndCc hview).trans h.soSndCc
  have hfin : v.thflags.fin = false := by rw [hflags]; exact h.fin
  unfold tcpDoSegment
  rw [hgo]
  exact (finishInput_nothing he hlen hfin hst hsnd).trans hview

def ConnView.entryOptions (v : ConnView) (sc : Syncache) (sndScale requestRScale : ℕ) : ConnView :=
  if sc.scfNoopt then v
  else
    { v with
      tfReqScale := v.tfReqScale || sc.scfWinscale
      tfRcvdScale := v.tfRcvdScale || sc.scfWinscale
      sndScale := if sc.scfWinscale then sndScale else v.sndScale
      requestRScale := if sc.scfWinscale then requestRScale else v.requestRScale
      tfReqTstmp := v.tfReqTstmp || sc.scfTimestamp
      tfRcvdTstmp := v.tfRcvdTstmp || sc.scfTimestamp
      tfSackPermit := sc.scfSack }

theorem connView_syncacheOptions (e : TcpEnv) (sc : Syncache) (tp : Tcpcb) (s r : ℕ)
    (t o : BitVec 32) :
    (syncacheOptions e sc tp s r t o).connView = tp.connView.entryOptions sc s r := by
  unfold syncacheOptions
  extract_lets tp₁ tp₂ tp₃
  have h₁ : tp₁.connView = { tp.connView with
      tfReqScale := tp.connView.tfReqScale || sc.scfWinscale
      tfRcvdScale := tp.connView.tfRcvdScale || sc.scfWinscale
      sndScale := if sc.scfWinscale then s else tp.connView.sndScale
      requestRScale := if sc.scfWinscale then r else tp.connView.requestRScale } := by
    unfold tp₁
    cases sc.scfWinscale <;> simp [Tcpcb.connView]
  have h₂ : tp₂.connView = { tp₁.connView with
      tfReqTstmp := tp₁.connView.tfReqTstmp || sc.scfTimestamp
      tfRcvdTstmp := tp₁.connView.tfRcvdTstmp || sc.scfTimestamp } := by
    unfold tp₂
    cases sc.scfTimestamp <;> simp [Tcpcb.connView]
  have h₃ : tp₃.connView = tp.connView.entryOptions sc s r := by
    unfold tp₃ ConnView.entryOptions
    split
    · rfl
    · change { tp₂.connView with tfSackPermit := sc.scfSack } = _
      rw [h₂, h₁]
  exact h₃

def Syncache.scales (sc : Syncache) : Bool := !sc.scfNoopt && sc.scfWinscale
def Syncache.timestamps (sc : Syncache) : Bool := !sc.scfNoopt && sc.scfTimestamp
def Syncache.sacks (sc : Syncache) : Bool := !sc.scfNoopt && sc.scfSack

def serverView (sc : Syncache) : ConnView where
  tState := .synReceived
  iss := sc.scIss
  irs := sc.scIrs
  sndNxt := sc.scIss + 1
  sndMax := sc.scIss + 1
  rcvNxt := sc.scIrs + 1
  sndScale := if sc.scales then sc.scRequestedSScale.toNat else 0
  requestRScale := if sc.scales then sc.scRequestedRScale.toNat else 0
  tfReqScale := sc.scales
  tfRcvdScale := sc.scales
  tfReqTstmp := sc.timestamps
  tfRcvdTstmp := sc.timestamps
  tfSackPermit := sc.sacks
  soSndCc := 0
  sndUna := sc.scIss
  tfNeedfin := false

def clientView (e : TcpEnv) (sc : Syncache) : ConnView where
  tState := .established
  iss := sc.scIrs
  irs := sc.scIss
  sndNxt := sc.scIrs + 1
  sndMax := sc.scIrs + 1
  rcvNxt := sc.scIss + 1
  sndScale := if sc.scales then min sc.scRequestedRScale.toNat tcpMaxWinshift else 0
  requestRScale := if sc.scales then sc.scRequestedSScale.toNat else 0
  tfReqScale := sc.scales
  tfRcvdScale := sc.scales
  tfReqTstmp := sc.timestamps
  tfRcvdTstmp := sc.timestamps
  tfSackPermit := sc.sacks && e.tcpDoSack
  soSndCc := 0
  sndUna := sc.scIrs + 1
  tfNeedfin := false

def freshView : ConnView where
  tState := .closed
  iss := 0
  irs := 0
  sndNxt := 0
  sndMax := 0
  rcvNxt := 0
  sndScale := 0
  requestRScale := 0
  tfReqScale := false
  tfRcvdScale := false
  tfReqTstmp := false
  tfRcvdTstmp := false
  tfSackPermit := false
  soSndCc := 0
  sndUna := 0
  tfNeedfin := false

theorem connView_sonewconn {passive : Bool} (h : sonewconn e lso passive = some tp) :
    tp.connView = freshView := by
  obtain ⟨sb, -, rfl⟩ := Option.map_eq_some_iff.mp h
  rfl

theorem connView_syncacheSocket {sc : Syncache} (h : syncacheSocket e sc lso = some tp) :
    tp.connView = serverView sc := by
  obtain ⟨tp₀, hnew, rfl⟩ := Option.map_eq_some_iff.mp h
  have hseq : (serverSeqinit sc tp₀).connView = { freshView with
      tState := .synReceived, iss := sc.scIss, irs := sc.scIrs, sndNxt := sc.scIss + 1
      sndMax := sc.scIss + 1, rcvNxt := sc.scIrs + 1, sndUna := sc.scIss } := by
    rw [← connView_sonewconn hnew]
    rfl
  have hopt := connView_syncacheOptions e sc (serverSeqinit sc tp₀) sc.scRequestedSScale.toNat
    sc.scRequestedRScale.toNat sc.scTsreflect sc.scTsoff
  have hview : (syncacheOptions e sc (serverSeqinit sc tp₀) sc.scRequestedSScale.toNat
      sc.scRequestedRScale.toNat sc.scTsreflect sc.scTsoff).connView = serverView sc := by
    rw [hopt, hseq]
    unfold ConnView.entryOptions serverView Syncache.scales Syncache.timestamps Syncache.sacks
    cases sc.scfNoopt <;> simp [freshView]
  dsimp only
  split
  · exact hview
  · exact hview

/-- The options of the SYN|ACK as the client reads them. -/
theorem synack_opt (e : TcpEnv) (sc : Syncache) :
    (syncacheSynthesizeSynack e sc).opt =
      if sc.scfNoopt then {} else (synackOptions sc).received e.tcpDoSack := by
  unfold syncacheSynthesizeSynack
  dsimp only
  split
  · rfl
  · apply tcpDooptions_tcpAddoptions e.tcpDoSack true
    · exact sc.scPeerMss.isLt
    · exact lt_of_lt_of_le sc.scRequestedRScale.isLt (by decide)

/-- The SYN|ACK as the client takes it in. -/
theorem connView_synackEntry (e : TcpEnv) (sc : Syncache) (hst : tp.tState = .synSent)
    (hnxt : tp.sndNxt = tp.sndMax) :
    (inputEntry e tp (syncacheSynthesizeSynack e sc)).tp.connView =
      tp.connView.synOptions (syncacheSynthesizeSynack e sc).opt := by
  have hecn := connView_ecnInput e tp (syncacheSynthesizeSynack e sc) hnxt
  have hst' : (ecnInput e tp (syncacheSynthesizeSynack e sc)).tState = .synSent :=
    (congrArg ConnView.tState hecn).trans hst
  have hadjust (tp : Tcpcb) (v : ConnView) (opt : TcpOpt) :
      v.synOptions (adjustTsecr e tp opt) = v.synOptions opt := by
    unfold adjustTsecr
    split <;> rfl
  unfold inputEntry
  dsimp only
  rw [if_pos (by rw [hst']; rfl), connView_synSentOptions, hecn, hadjust]

def sentView (sc : Syncache) : ConnView where
  tState := .synSent
  iss := sc.scIrs
  irs := 0
  sndNxt := sc.scIrs + 1
  sndMax := sc.scIrs + 1
  rcvNxt := 0
  sndScale := if sc.scales then sc.scRequestedRScale.toNat else 0
  requestRScale := if sc.scales then sc.scRequestedSScale.toNat else 0
  tfReqScale := sc.scales
  tfRcvdScale := sc.scales
  tfReqTstmp := sc.timestamps
  tfRcvdTstmp := sc.timestamps
  tfSackPermit := sc.sacks
  soSndCc := 0
  sndUna := sc.scIrs
  tfNeedfin := false

theorem connView_clientSeqinit (e : TcpEnv) (sc : Syncache) (hnew : tp.connView = freshView)
    (t o : BitVec 32) :
    (syncacheOptions e sc (clientSeqinit sc tp) sc.scRequestedRScale.toNat
      sc.scRequestedSScale.toNat t o).connView = sentView sc := by
  have hseq : (clientSeqinit sc tp).connView = { freshView with
      tState := .synSent, iss := sc.scIrs, sndNxt := sc.scIrs + 1, sndMax := sc.scIrs + 1
      sndUna := sc.scIrs } := by
    rw [← hnew]
    rfl
  rw [connView_syncacheOptions, hseq]
  unfold ConnView.entryOptions sentView Syncache.scales Syncache.timestamps Syncache.sacks
  cases sc.scfNoopt <;> simp [freshView]

/-- What the SYN|ACK makes of it. -/
theorem sentView_synack (e : TcpEnv) (sc : Syncache) :
    ((sentView sc).synOptions (syncacheSynthesizeSynack e sc).opt).established sc.scIss =
      clientView e sc := by
  rw [synack_opt]
  unfold sentView clientView Syncache.scales Syncache.timestamps Syncache.sacks
  cases sc.scfNoopt <;> cases hw : sc.scfWinscale <;>
    simp [ConnView.synOptions, ConnView.established, TcpOpt.received, synackOptions, hw]

theorem connView_syncachePassiveClientSocket (he : e.QuietOutput) {sc : Syncache} {opt : TcpOpt}
    {r : TcpResult} (h : syncachePassiveClientSocket e sc lso opt = some r) :
    r.tp.connView = clientView e sc := by
  obtain ⟨tp₀, hnew, rfl⟩ := Option.map_eq_some_iff.mp h
  dsimp only
  generalize htp : syncacheOptions e sc (clientSeqinit sc tp₀) sc.scRequestedRScale.toNat
    sc.scRequestedSScale.toNat sc.scTs (opt.toTsval - e.tcpTsGetticks) = tp
  have hview : tp.connView = sentView sc := by
    rw [← htp]
    exact connView_clientSeqinit e sc (connView_sonewconn hnew) _ _
  have hentry : (inputEntry e tp (syncacheSynthesizeSynack e sc)).tp.connView =
      (sentView sc).synOptions (syncacheSynthesizeSynack e sc).opt := by
    rw [← hview]
    apply connView_synackEntry
    · exact congrArg ConnView.tState hview
    · exact (congrArg ConnView.sndNxt hview).trans (congrArg ConnView.sndMax hview).symm
  have htakes : (inputEntry e tp (syncacheSynthesizeSynack e sc)).TakesSynack := by
    have hiss : (inputEntry e tp (syncacheSynthesizeSynack e sc)).tp.iss = sc.scIrs :=
      congrArg ConnView.iss hentry
    constructor
    · exact congrArg ConnView.tState hentry
    · exact congrArg ConnView.tfNeedfin hentry
    · exact (congrArg ConnView.sndUna hentry).trans hiss.symm
    · rw [hiss]
      exact congrArg ConnView.sndNxt hentry
    · rw [hiss]
      exact congrArg ConnView.sndMax hentry
    · exact congrArg ConnView.soSndCc hentry
    · rw [hiss]
      rfl
    all_goals rfl
  rw [tcpDoSegment_synack he htakes, hentry]
  exact sentView_synack e sc

/-- The receive scales of the entries can be used.  An entry has room for larger ones. -/
structure TcpSyncache.Clipped (t : TcpSyncache) : Prop where
  fresh : ∀ b, ∀ id ∈ t.hashbase b, id < t.nextSc
  scale : ∀ b, ∀ id ∈ t.hashbase b, (t.sc id).scRequestedRScale.toNat ≤ tcpMaxWinshift

namespace TcpSyncache.Clipped

variable {t : TcpSyncache}

section

variable (h : t.Clipped)
include h

theorem setSc (id : ScId) {sc : SyncacheEntry}
    (hsc : (t.sc id).scRequestedRScale.toNat ≤ tcpMaxWinshift →
      sc.scRequestedRScale.toNat ≤ tcpMaxWinshift) : (t.setSc id sc).Clipped := by
  refine ⟨h.fresh, fun b j hj => ?_⟩
  by_cases hji : j = id
  · subst hji
    simpa [TcpSyncache.setSc] using hsc (h.scale b j hj)
  · simpa [TcpSyncache.setSc, hji] using h.scale b j hj

theorem drop (id : ScId) : (syncacheDrop t id).Clipped := by
  constructor
  · exact fun b j hj => h.fresh b j (List.mem_of_mem_erase hj)
  · exact fun b j hj => h.scale b j (List.mem_of_mem_erase hj)

theorem dropLast (bucket : BitVec 32) : (dropLast t bucket).Clipped := by
  rcases dropLast_eq t bucket with heq | ⟨id, heq⟩
  · rwa [heq]
  · rw [heq]
    exact h.drop id

theorem file (bucket : BitVec 32) (hsc : sc.scRequestedRScale.toNat ≤ tcpMaxWinshift) :
    (fileEntry t bucket sc).Clipped := by
  have hmem {b : BitVec 32} {j : ScId} (hj : j ∈ (fileEntry t bucket sc).hashbase b) :
      j = t.nextSc ∨ j ∈ t.hashbase b := by
    change j ∈ (if b = bucket then t.nextSc :: t.hashbase b else t.hashbase b) at hj
    split at hj
    · exact List.mem_cons.1 hj
    · exact .inr hj
  constructor
  · intro b j hj
    change j < t.nextSc + 1
    rcases hmem hj with rfl | hj
    · exact Nat.lt_succ_self _
    · exact Nat.lt_succ_of_lt (h.fresh b j hj)
  · intro b j hj
    rcases hmem hj with rfl | hj
    · simpa [fileEntry, TcpSyncache.setSc] using hsc
    · have hne : j ≠ t.nextSc := Nat.ne_of_lt (h.fresh b j hj)
      simpa [fileEntry, TcpSyncache.setSc, hne] using h.scale b j hj

section

variable (e : SynEnv) (l : SynListener) (a : SynArgs)

theorem admitted (v : SynVars) : (admitSyn e t l a v).Clipped := by
  have hwscale : wscaleFor e.sbMax ≤ tcpMaxWinshift := by
    unfold wscaleFor
    cases hfind : (List.range 14).find? fun wscale => decide (e.sbMax ≤ 65535 <<< wscale) with
    | none => exact le_refl _
    | some wscale => exact (List.mem_range.1 (List.mem_of_find?_eq_some hfind)).le
  have hnew : (newEntry e l a v).scRequestedRScale.toNat ≤ tcpMaxWinshift := by
    change (if _ then BitVec.ofNat 4 (wscaleFor e.sbMax) else 0).toNat ≤ _
    split
    · exact (BitVec.toNat_ofNat .. ▸ Nat.mod_le _ _).trans hwscale
    · exact Nat.zero_le _
  have hcookie : (withCookie e v.passive (newEntry e l a v)).scRequestedRScale.toNat ≤
      tcpMaxWinshift := by
    unfold withCookie
    split
    · exact hnew
    · exact hnew
  have halloc (bucket : BitVec 32) : (allocSc e t bucket v.passive).1.Clipped := by
    unfold allocSc
    split
    · exact h
    · exact h.dropLast bucket
  unfold admitSyn
  dsimp only
  split
  · unfold syncacheInsert
    dsimp only
    split
    · exact ((halloc _).dropLast _).file _ hcookie
    · exact (halloc _).file _ hcookie
  · exact halloc _

theorem add : (syncacheAdd e t l a).table.Clipped := by
  unfold syncacheAdd
  split
  · next id _ =>
    have hkeep : ((t.sc id).refreshed a.opt (ipSrcroute e.mGet a.m).1).scRequestedRScale =
        (t.sc id).scRequestedRScale := by
      unfold SyncacheEntry.refreshed
      dsimp only
      split_ifs <;> rfl
    apply h.setSc
    intro hsc
    rw [← hkeep] at hsc
    split_ifs <;> exact hsc
  · split
    · exact h
    · exact h
    · exact h.admitted e l a _

end

/-- The scale of a captured SYN|ACK goes into the entry as it was read. -/
theorem synack (inc : InConninfo) {opt : TcpOpt} (th : TcpHdr) (m : FrameMbuf)
    (hopt : opt.toWscale ≤ tcpMaxWinshift) : (syncachePassiveSynack t inc opt th m).Clipped := by
  have hts (sc : SyncacheEntry) :
      (synackTimestamp opt sc).scRequestedRScale = sc.scRequestedRScale := by
    unfold synackTimestamp
    split_ifs <;> rfl
  have hupdate (sc : SyncacheEntry) (hsc : sc.scRequestedRScale.toNat ≤ tcpMaxWinshift) :
      (synackUpdate opt th sc).scRequestedRScale.toNat ≤ tcpMaxWinshift := by
    change (synackTimestamp opt (synackScale opt _)).scRequestedRScale.toNat ≤ _
    rw [hts]
    unfold synackScale
    split_ifs
    · exact Nat.zero_le _
    · exact (BitVec.toNat_ofNat .. ▸ Nat.mod_le _ _).trans hopt
    · exact hsc
  unfold syncachePassiveSynack
  split
  · split
    · exact h.setSc _ (hupdate _)
    · exact h
  · exact h

theorem timer (e : SynEnv) (bucket : BitVec 32) : (syncacheTimer e t bucket).Clipped := by
  apply run_preserves (I := fun s : TcpSyncache => s.Clipped) _ h
  intro s id hs
  unfold timerEntry
  dsimp only
  split
  · exact hs
  · split
    · exact hs.drop id
    · apply hs.setSc
      intro hsc
      unfold SyncacheEntry.retransmitted
      dsimp only
      split_ifs <;> exact hsc

end

end TcpSyncache.Clipped

/-- The options of a captured SYN|ACK come from `tcp_dooptions`, which `tcp_input` calls with
`TH_SYN` in place of `TO_SYN`. -/
def SynOp.Parsed (_ : TcpSyncache) : SynOp → Prop
  | .synack _ opt _ _ => ∃ tcpDoSack cp, opt = tcpDooptions tcpDoSack false cp
  | _ => True

theorem clipped_step (t : TcpSyncache) (op : SynOp) (h : t.Clipped) (hop : op.Parsed t) :
    (synStep t op).Clipped := by
  cases op with
  | add e l a => exact h.add e l a
  | synack inc opt th m =>
    obtain ⟨tcpDoSack, cp, rfl⟩ := hop
    exact h.synack inc th m (tcpDooptions_toWscale_le tcpDoSack false cp)
  | timer e bucket => exact h.timer e bucket
  | drop id => exact h.drop id

theorem clipped_run {t : TcpSyncache} (hempty : t.hashbase = ChainTable.empty) {ops : List SynOp}
    (hops : Along synStep SynOp.Parsed t ops) : (run synStep t ops).Clipped := by
  have hnone (b : BitVec 32) : t.hashbase b = [] := by rw [hempty]; rfl
  apply run_invariant clipped_step _ hops
  constructor <;> intro b <;> rw [hnone b] <;> simp

/-- The two sockets and their control blocks are mirror images of each other. -/
structure Mirrored (irs : TcpSeq) (server client : TcpSocket) (sinp cinp : Inpcb) : Prop where
  syn : client.tp.iss = irs ∧ server.tp.irs = irs
  synack : client.tp.irs = server.tp.iss
  sndNxt : client.tp.sndNxt = server.tp.rcvNxt
  rcvNxt : client.tp.rcvNxt = server.tp.sndNxt
  addresses : cinp.inpLaddr = sinp.inpFaddr ∧ cinp.inpFaddr = sinp.inpLaddr
  ports : cinp.inpLport = sinp.inpFport ∧ cinp.inpFport = sinp.inpLport
  scales : client.tp.sndScale = server.tp.requestRScale ∧
    client.tp.requestRScale = server.tp.sndScale
  sackPermit : client.tp.tfSackPermit = server.tp.tfSackPermit
  scaleFlags : client.tp.tfReqScale = server.tp.tfReqScale ∧
    client.tp.tfRcvdScale = server.tp.tfRcvdScale
  tstmpFlags : client.tp.tfReqTstmp = server.tp.tfReqTstmp ∧
    client.tp.tfRcvdTstmp = server.tp.tfRcvdTstmp
  established : client.tp.tState = .established
  promisc : server.soPromisc = true → client.soPromisc = true ∧
    client.soL2info = server.soL2info.swap ∧ cinp.inpL2info = sinp.inpL2info.swap

/-- The addresses that `in_pcbconnect` puts in place of `INADDR_ANY` and of the broadcast
address are the same for both ends. -/
def ExpandEnv.KeepsAddresses (e : ExpandEnv) (inc : InConninfo) : Prop :=
  ∃ faddr laddr,
    (e.pcb .server).foreignFor inc.incFaddr = .ok faddr ∧
    (e.pcb .client).foreignFor inc.incLaddr = .ok laddr ∧
    (e.pcb .client).localFor inc.incFaddr laddr = .ok faddr ∧
    (e.pcb .server).localFor inc.incLaddr faddr = .ok laddr

/-- Other addresses are not replaced. -/
theorem keepsAddresses_of_ordinary (e : ExpandEnv) {inc : InConninfo}
    (hf : inc.incFaddr ≠ inaddrAny) (hf' : inc.incFaddr ≠ inaddrBroadcast)
    (hl : inc.incLaddr ≠ inaddrAny) (hl' : inc.incLaddr ≠ inaddrBroadcast) :
    e.KeepsAddresses inc := by
  refine ⟨inc.incFaddr, inc.incLaddr, ?_, ?_, ?_, ?_⟩
  · simp [PcbEnv.foreignFor, hf, hf']
  · simp [PcbEnv.foreignFor, hl, hl']
  · simp [PcbEnv.localFor, hf]
  · simp [PcbEnv.localFor, hl]

theorem addresses_iff {e : ExpandEnv} {lso : Listener} {l2i : L2info} {cinp sinp : Inpcb}
    (hclient : Connected (e.pcb .client) (PassiveRole.client.foreignEnd sc.scInc)
      (newInpcb .client lso sc l2i) cinp)
    (hserver : Connected (e.pcb .server) (PassiveRole.server.foreignEnd sc.scInc)
      (newInpcb .server lso sc l2i) sinp) :
    (cinp.inpLaddr = sinp.inpFaddr ∧ cinp.inpFaddr = sinp.inpLaddr) ↔
      e.KeepsAddresses sc.scInc := by
  have hcf : (e.pcb .client).foreignFor sc.scInc.incLaddr = .ok cinp.inpFaddr := hclient.faddr
  have hcl : (e.pcb .client).localFor sc.scInc.incFaddr cinp.inpFaddr = .ok cinp.inpLaddr :=
    hclient.laddr
  have hsf : (e.pcb .server).foreignFor sc.scInc.incFaddr = .ok sinp.inpFaddr := hserver.faddr
  have hsl : (e.pcb .server).localFor sc.scInc.incLaddr sinp.inpFaddr = .ok sinp.inpLaddr :=
    hserver.laddr
  constructor
  · rintro ⟨h₁, h₂⟩
    exact ⟨sinp.inpFaddr, cinp.inpFaddr, hsf, hcf, by rw [hcl, h₁], by rw [hsl, h₂]⟩
  · rintro ⟨faddr, laddr, h₁, h₂, h₃, h₄⟩
    -- the foreign addresses are what the condition names, then so are the local ones
    have hf : sinp.inpFaddr = faddr := Except.ok.inj (hsf.symm.trans h₁)
    have hl : cinp.inpFaddr = laddr := Except.ok.inj (hcf.symm.trans h₂)
    rw [hl] at hcl
    rw [hf] at hsl
    exact ⟨(Except.ok.inj (hcl.symm.trans h₃)).trans hf.symm,
      hl.trans (Except.ok.inj (hsl.symm.trans h₄)).symm⟩

/-- The two ends that an entry with a usable scale is made into. -/
theorem mirrored_iff {e : ExpandEnv} (he : e.tcp.QuietOutput) {lso : Listener}
    (hscale : sc.scRequestedRScale.toNat ≤ tcpMaxWinshift) {l2i : L2info} {opt : TcpOpt}
    {s' : TcpStack} {server client : SoId} {r : TcpResult}
    (h : TcpStack.MadePair e lso sc l2i opt s' server client r tp) :
    Mirrored sc.scIrs (s'.so server) (s'.so client) (s'.tcbinfo.inpcb server)
        (s'.tcbinfo.inpcb client) ↔
      e.KeepsAddresses sc.scInc ∧ (sc.sacks = true → e.tcp.tcpDoSack = true) := by
  have hs : (s'.so server).tp.connView = serverView sc.toSyncache := by
    rw [h.serverSo]
    exact connView_syncacheSocket h.serverTcp
  have hc : (s'.so client).tp.connView = clientView e.tcp sc.toSyncache := by
    rw [h.clientSo]
    exact connView_syncachePassiveClientSocket he h.clientTcp
  -- fields of the ends are fields of their views
  have hcross {α : Type} (f g : ConnView → α)
      (hfg : f (clientView e.tcp sc.toSyncache) = g (serverView sc.toSyncache)) :
      f (s'.so client).tp.connView = g (s'.so server).tp.connView := by
    rw [hc, hs, hfg]
  have hsack : (s'.so client).tp.tfSackPermit = (s'.so server).tp.tfSackPermit ↔
      (sc.sacks = true → e.tcp.tcpDoSack = true) := by
    change (s'.so client).tp.connView.tfSackPermit = (s'.so server).tp.connView.tfSackPermit ↔ _
    rw [hc, hs]
    change (sc.sacks && e.tcp.tcpDoSack) = sc.sacks ↔ _
    cases sc.sacks <;> simp
  constructor
  · intro hm
    exact ⟨(addresses_iff h.clientPcb h.serverPcb).1 hm.addresses, hsack.1 hm.sackPermit⟩
  · rintro ⟨haddr, hdo⟩
    refine ⟨⟨?_, ?_⟩, ?_, ?_, ?_, ?_, ?_, ⟨?_, ?_⟩, hsack.2 hdo, ⟨?_, ?_⟩, ⟨?_, ?_⟩, ?_, ?_⟩
    · exact congrArg ConnView.iss hc
    · exact congrArg ConnView.irs hs
    · exact hcross ConnView.irs ConnView.iss rfl
    · exact hcross ConnView.sndNxt ConnView.rcvNxt rfl
    · exact hcross ConnView.rcvNxt ConnView.sndNxt rfl
    · exact (addresses_iff h.clientPcb h.serverPcb).2 haddr
    · rw [h.clientPcb.lport, h.serverPcb.fport, h.clientPcb.fport, h.serverPcb.lport]
      exact ⟨rfl, rfl⟩
    · apply hcross ConnView.sndScale ConnView.requestRScale
      simp [clientView, serverView, min_eq_left hscale]
    · exact hcross ConnView.requestRScale ConnView.sndScale rfl
    · exact hcross ConnView.tfReqScale ConnView.tfReqScale rfl
    · exact hcross ConnView.tfRcvdScale ConnView.tfRcvdScale rfl
    · exact hcross ConnView.tfReqTstmp ConnView.tfReqTstmp rfl
    · exact hcross ConnView.tfRcvdTstmp ConnView.tfRcvdTstmp rfl
    · exact congrArg ConnView.tState hc
    · rw [h.serverSo, h.clientSo, h.clientPcb.l2info, h.serverPcb.l2info]
      intro hp
      have hp : lso.soPromisc = true := hp
      simp [newTcpSocket, newInpcb, hp, PassiveRole.l2info]

/-- What completing an entry leaves alone. -/
theorem completed_eq (sc : SyncacheEntry) (a : AckArgs) :
    ∃ iss ts, sc.completed a = { sc with scIss := iss, scTs := ts } := by
  unfold SyncacheEntry.completed
  split
  · exact ⟨_, _, rfl⟩
  · exact ⟨_, _, rfl⟩

theorem acceptAck_found {e : ExpandEnv} {t t' : TcpSyncache} {a : AckArgs} {id : ScId}
    (hid : syncacheLookup t a.inc a.m = some id) (h : acceptAck e t a = (t', some sc)) :
    sc = (t.sc id).completed a := by
  unfold acceptAck at h
  rw [hid] at h
  dsimp only at h
  have hsc := (Prod.mk.inj h).2
  exact (Option.filter_eq_some_iff.1 hsc).1 |> Option.some.inj |> Eq.symm

/-- Whenever an ACK completes a passive handshake, the server's socket has a client's
socket as its peer, and the two are mirror images exactly when neither has had an address
replaced that the other has not and SACK, if it was agreed on, is still enabled. -/
theorem syncacheExpand_mirrored_iff (t : TcpSyncache) (ops : List SynOp)
    (hempty : t.hashbase = ChainTable.empty) (hops : Along synStep SynOp.Parsed t ops)
    (e : ExpandEnv) (he : e.tcp.QuietOutput) (s s' : TcpStack)
    (hs : s.syncache = run synStep t ops) (lso : Listener) (a : AckArgs) (id : ScId)
    (hid : syncacheLookup s.syncache a.inc a.m = some id)
    (hpassive : (s.syncache.sc id).scfPassive = true) (server : SoId)
    (h : s.syncacheExpand e lso a = .ok (some server, s')) :
    ∃ client, (s'.so server).soPassivePeer = some client ∧
      (Mirrored (s.syncache.sc id).scIrs (s'.so server) (s'.so client) (s'.tcbinfo.inpcb server)
          (s'.tcbinfo.inpcb client) ↔
        e.KeepsAddresses (s.syncache.sc id).scInc ∧
        ((s.syncache.sc id).sacks = true → e.tcp.tcpDoSack = true)) := by
  obtain ⟨t', sc, hacc, hsock⟩ := TcpStack.syncacheExpand_ok h
  obtain ⟨iss, ts, hsc⟩ := completed_eq (s.syncache.sc id) a
  rw [← acceptAck_found hid hacc] at hsc
  have hscale : sc.scRequestedRScale.toNat ≤ tcpMaxWinshift := by
    have hclipped : s.syncache.Clipped := hs ▸ clipped_run hempty hops
    rw [hsc]
    exact hclipped.scale _ id (List.mem_of_find?_eq_some hid)
  have hpassive' : sc.scfPassive = true := by rw [hsc]; exact hpassive
  obtain ⟨client, r, tp, hpair⟩ := TcpStack.syncacheSocket_pair hpassive' hsock
  refine ⟨client, by rw [hpair.serverSo], ?_⟩
  have hiff := mirrored_iff he hscale hpair
  rw [hsc] at hiff
  exact hiff

def stackOf (t : TcpSyncache) : TcpStack where
  syncache := t
  tcbinfo :=
    { ipiHashmask := 511
      ipiPorthashmask := 511
      ipiListhead := []
      inpcb := fun _ => {}
      ipiHashbase := ChainTable.empty
      ipiPorthashbase := ChainTable.empty }
  so := fun _ => { tp := { rcvNxt := 0, soRcv := Sockbuf.empty } }
  nextSo := 0

def scale7Sack : List OptByte := [3, 3, 7, 4, 2, 0]

/-- A SYN from 1000 on a passive connection, with the options above. -/
def passiveSyn (inc : InConninfo) : SynOp :=
  .add {} { promisc := true }
    { inc := { inc with incPassive := true }, opt := tcpDooptions true true scale7Sack
      th := { thSeq := 1000 }, m := taggedFrame .empty }

/-- The SYN and the SYN|ACK from 7000. -/
def synAndSynack (inc : InConninfo) : List SynOp :=
  [passiveSyn inc, .synack inc.swap (tcpDooptions true false scale7Sack)
    { thSeq := 7000, thAck := 1001, thFlags := { syn := true, ack := true }, thWin := 8192 }
    (taggedFrame .empty)]

theorem synAndSynack_parsed (inc : InConninfo) :
    Along synStep SynOp.Parsed emptySyncache (synAndSynack inc) :=
  ⟨trivial, ⟨true, scale7Sack, rfl⟩, trivial⟩

def ackOf (inc : InConninfo) : AckArgs where
  inc := inc
  th := { thSeq := 1001, thAck := 7001, thFlags := { ack := true } }
  m := taggedFrame .empty

/-- A call that has made the two sockets, of which the second is the server's. -/
def expandsTo (r : Except String (Option SoId × TcpStack)) (p : TcpStack → Bool) : Bool :=
  match r with
  | .ok (id, s) => id = some 1 && (s.so 1).soPassivePeer = some 0 && p s
  | .error _ => false

theorem exists_of_expandsTo {r : Except String (Option SoId × TcpStack)} {p : TcpStack → Bool}
    (h : expandsTo r p = true) :
    ∃ s, r = .ok (some 1, s) ∧ (s.so 1).soPassivePeer = some 0 ∧ p s = true := by
  cases r with
  | error err => cases h
  | ok res =>
    obtain ⟨id, s⟩ := res
    simp only [expandsTo, Bool.and_eq_true, decide_eq_true_eq] at h
    exact ⟨s, by rw [h.1.1], h.1.2, h.2⟩

/-- The two ends of an ordinary connection. -/
theorem syncacheExpand_mirrored_conn80 :
    ∃ s', (stackOf (run synStep emptySyncache (synAndSynack conn80))).syncacheExpand {}
        { soPromisc := true } (ackOf conn80) = .ok (some 1, s') ∧
      Mirrored 1000 (s'.so 1) (s'.so 0) (s'.tcbinfo.inpcb 1) (s'.tcbinfo.inpcb 0) := by
  have hexp : expandsTo ((stackOf (run synStep emptySyncache (synAndSynack conn80))).syncacheExpand
      {} { soPromisc := true } (ackOf conn80)) (fun _ => true) = true := by decide +kernel
  obtain ⟨s', hs', hpeer, -⟩ := exists_of_expandsTo hexp
  refine ⟨s', hs', ?_⟩
  obtain ⟨client, hclient, hiff⟩ := syncacheExpand_mirrored_iff emptySyncache (synAndSynack conn80)
    rfl (synAndSynack_parsed conn80) {} (fun _ _ _ => ⟨rfl, rfl⟩)
    (stackOf (run synStep emptySyncache (synAndSynack conn80))) s' rfl { soPromisc := true }
    (ackOf conn80) 0 (by decide +kernel) (by decide +kernel) 1 hs'
  obtain rfl : 0 = client := Option.some.inj (hpeer.symm.trans hclient)
  have hirs : ((run synStep emptySyncache (synAndSynack conn80)).sc 0).scIrs = 1000 := by
    decide +kernel
  change Mirrored ((run synStep emptySyncache (synAndSynack conn80)).sc 0).scIrs _ _ _ _ ↔ _ at hiff
  rw [hirs] at hiff
  apply hiff.2
  constructor
  · apply keepsAddresses_of_ordinary <;> decide +kernel
  · exact fun _ => rfl

def connAny : InConninfo := { conn80 with incFaddr := 0, incLaddr := 0x0100010a }

/-- The primary address is 10.0.0.1; connections to 10.1.0.1 are made from 10.1.0.1. -/
def twoAddresses : PcbEnv where
  destination := fun _ => .ok 0x0100000a
  inPcbladdr := fun _ => .ok 0x0100010a

/-- A SYN from the unspecified address leaves the server connected to the primary address and the
client bound to another one; and when the SYN|ACK has not been captured and SACK is switched off
before the ACK comes in, the server goes on with SACK and the client without. -/
theorem syncacheExpand_not_mirrored :
    (∃ s', (stackOf (run synStep emptySyncache (synAndSynack connAny))).syncacheExpand
        { pcb := fun _ => twoAddresses } { soPromisc := true } (ackOf connAny) =
          .ok (some 1, s') ∧ (s'.so 1).soPassivePeer = some 0 ∧
        (s'.tcbinfo.inpcb 1).inpFaddr = 0x0100000a ∧
        (s'.tcbinfo.inpcb 0).inpLaddr = 0x0100010a) ∧
    (∃ s', (stackOf (run synStep emptySyncache [passiveSyn conn80])).syncacheExpand
        { tcp := { tcpDoSack := false } } { soPromisc := true } (ackOf conn80) =
          .ok (some 1, s') ∧ (s'.so 1).soPassivePeer = some 0 ∧
        (s'.so 1).tp.tfSackPermit = true ∧ (s'.so 0).tp.tfSackPermit = false) := by
  constructor
  · have hexp : expandsTo
        ((stackOf (run synStep emptySyncache (synAndSynack connAny))).syncacheExpand
          { pcb := fun _ => twoAddresses } { soPromisc := true } (ackOf connAny)) (fun s =>
          (s.tcbinfo.inpcb 1).inpFaddr = 0x0100000a ∧
            (s.tcbinfo.inpcb 0).inpLaddr = 0x0100010a) = true := by decide +kernel
    obtain ⟨s', hs', hpeer, hp⟩ := exists_of_expandsTo hexp
    exact ⟨s', hs', hpeer, of_decide_eq_true hp⟩
  · have hexp : expandsTo
        ((stackOf (run synStep emptySyncache [passiveSyn conn80])).syncacheExpand
          { tcp := { tcpDoSack := false } } { soPromisc := true } (ackOf conn80)) (fun s =>
          (s.so 1).tp.tfSackPermit = true ∧ (s.so 0).tp.tfSackPermit = false) = true := by
      decide +kernel
    obtain ⟨s', hs', hpeer, hp⟩ := exists_of_expandsTo hexp
    exact ⟨s', hs', hpeer, of_decide_eq_true hp⟩

end Libuinet
