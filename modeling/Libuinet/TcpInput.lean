import Libuinet.Execution
import Libuinet.Tcpcb

namespace Libuinet

open SerialArith

def tcpOutput (e : TcpEnv) (tp : Tcpcb) : Tcpcb :=
  if tp.inpPassive then tp
  else
    let r := e.tcpOutput tp
    { tp with
      sndNxt := r.sndNxt
      sndMax := r.sndMax
      rcvAdv := r.rcvAdv
      lastAckSent := r.lastAckSent
      tfAcknow := r.tfAcknow
      tfDelack := r.tfDelack
      tfRxwin0sent := r.tfRxwin0sent
      ttDelack := r.ttDelack
      ctl := r.ctl }

def ccCongSignal (e : TcpEnv) (tp : Tcpcb) (th : TcpHdr) (type : CcSignal) : Tcpcb :=
  { tp with
    ctl := e.ccCongSignal tp th type
    sndNxt := if type = .ccRtoErr then tp.sndMax else tp.sndNxt }

def ccAckReceived (e : TcpEnv) (tp : Tcpcb) (th : TcpHdr) (type : CcAck) : Tcpcb :=
  { tp with ctl := e.ccAckReceived tp th type }

def tcpMss (e : TcpEnv) (tp : Tcpcb) (offer : ℕ) : Tcpcb :=
  let r := e.tcpMss tp offer
  { tp with
    tMaxseg := r.tMaxseg
    soRcv := { tp.soRcv with sbHiwat := r.sbHiwat, sbMbmax := r.sbMbmax }
    ctl := r.ctl }

variable (e : TcpEnv) (v : InputVars)

def delayAck (tp : Tcpcb) : Bool :=
  !tp.ttDelack && !tp.tfRxwin0sent && (e.tcpDelackEnabled || tp.tfNeedsyn)

def bytesThisAck (tp : Tcpcb) (th : TcpHdr) : ℕ := (th.thAck - tp.sndUna).toNat

def checkDelack (tp : Tcpcb) : TcpResult :=
  { tp := if tp.tfDelack then { tp with tfDelack := false, ttDelack := true } else tp }

/-- From the label `dropafterack` on; a bad acknowledgement of the SYN goes on
to `dropwithreset`, which sends a reset and leaves the control block alone. -/
def dropafterack : TcpResult :=
  if v.tp.tState = .synReceived && v.thflags.ack &&
      (seqGt v.tp.sndUna v.th.thAck || seqGt v.th.thAck v.tp.sndMax) then { tp := v.tp }
  else { tp := tcpOutput e { v.tp with tfAcknow := true } }

/-- The round trip sample taken from an acknowledgement, with the check for a
retransmission that was not needed in front of it. -/
def ackTiming : Tcpcb :=
  let tp := v.tp
  let tp := if tp.ctl.tRxtshift = 1 && tp.ctl.tfPrevvalid &&
      decide ((BitVec.ofNat 32 e.ticks - tp.ctl.tBadrxtwin).toInt < 0) then
      ccCongSignal e tp v.th .ccRtoErr
    else tp
  if v.opt.tofTs && v.opt.toTsecr != 0 then
    let t := e.tcpTsGetticks - v.opt.toTsecr
    let tp := { tp with ctl := { tp.ctl with
      tRttlow := if tp.ctl.tRttlow = 0 ∨ t < tp.ctl.tRttlow then t else tp.ctl.tRttlow } }
    { tp with ctl := e.tcpXmitTimer tp (BitVec.ofNat 32 (t.toNat * e.hz / 1000) + 1) }
  else if tp.ctl.tRtttime != 0 && seqGt v.th.thAck tp.ctl.tRtseq then
    let t := BitVec.ofNat 32 e.ticks - tp.ctl.tRtttime
    let tp := { tp with ctl := { tp.ctl with
      tRttlow := if tp.ctl.tRttlow = 0 ∨ t < tp.ctl.tRttlow then t else tp.ctl.tRttlow } }
    { tp with ctl := e.tcpXmitTimer tp t }
  else tp

/-- The retransmission timer after an acknowledgement up to `una`. -/
def rexmtAfterAck (tp : Tcpcb) (una : TcpSeq) : Tcpcb :=
  if una = tp.sndMax then { tp with ctl := { tp.ctl with ttRexmt := false } }
  else if tp.ctl.ttPersist then tp
  else { tp with ctl := { tp.ctl with ttRexmt := true } }

def ecnInput (tp : Tcpcb) (p : TcpPkt) : Tcpcb :=
  if tp.tfEcnPermit then
    let tp := if p.th.thFlags.cwr then { tp with tfEcnSndEce := false } else tp
    let tp := if p.iptosCe then { tp with tfEcnSndEce := true } else tp
    if p.th.thFlags.ece then ccCongSignal e tp p.th .ccEcn else tp
  else tp

/-- The echoed timestamp, zero if it lies in the future. -/
def adjustTsecr (tp : Tcpcb) (opt : TcpOpt) : TcpOpt :=
  if opt.tofTs && opt.toTsecr != 0 then
    let tsecr := opt.toTsecr - tp.tsOffset
    { opt with toTsecr := if seqGt tsecr e.tcpTsGetticks then 0 else tsecr }
  else opt

def synSentOptions (tp : Tcpcb) (th : TcpHdr) (opt : TcpOpt) : Tcpcb :=
  let tp := if opt.tofScale && tp.tfReqScale then
      { tp with tfRcvdScale := true, sndScale := opt.toWscale }
    else tp
  let tp := { tp with sndWnd := th.thWin }
  let tp := if opt.tofTs then
      { tp with tfRcvdTstmp := true, tsRecent := opt.toTsval, tsRecentAge := e.tcpTsGetticks }
    else tp
  let tp := if opt.tofMss then tcpMss e tp opt.toMss else tp
  if tp.tfSackPermit && !opt.tofSackperm then { tp with tfSackPermit := false } else tp

def inputEntry (tp : Tcpcb) (p : TcpPkt) : InputVars :=
  let tiwin := p.th.thWin <<< tp.sndScale
  let tp := ecnInput e tp p
  let opt := adjustTsecr e tp p.opt
  { tp := if tp.tState = .synSent && p.th.thFlags.syn then synSentOptions e tp p.th opt else tp
    th := p.th
    thflags := p.th.thFlags
    opt := opt
    tlen := p.tlen
    dropHdrlen := p.dropHdrlen
    m := p.m
    tiwin := tiwin }

def predicted : Bool :=
  v.tp.tState = .established && v.th.thSeq == v.tp.rcvNxt &&
    (v.thflags.ack && !v.thflags.syn && !v.thflags.fin && !v.thflags.rst && !v.thflags.urg) &&
    v.tp.sndNxt == v.tp.sndMax && v.tiwin != 0 && v.tiwin == v.tp.sndWnd &&
    !v.tp.tfNeedsyn && !v.tp.tfNeedfin && v.tp.tSegq.isEmpty &&
    (!v.opt.tofTs || seqGeq v.opt.toTsval v.tp.tsRecent)

def predictedTs : Tcpcb :=
  if v.opt.tofTs && seqLeq v.th.thSeq v.tp.lastAckSent then
    { v.tp with tsRecentAge := e.tcpTsGetticks, tsRecent := v.opt.toTsval }
  else v.tp

def predictedAck : Bool :=
  seqGt v.th.thAck v.tp.sndUna && seqLeq v.th.thAck v.tp.sndMax && !v.tp.ctl.inRecovery &&
    !v.opt.tofSack && v.tp.ctl.sndHoles == 0

/-- The send side after a pure acknowledgement of `acked` bytes. -/
def fastAckSend (tp : Tcpcb) (th : TcpHdr) (acked : ℕ) : Tcpcb :=
  let tp := { tp with soSndCc := tp.soSndCc - acked }
  let tp := if seqGt tp.sndUna tp.ctl.sndRecover && seqLeq th.thAck tp.ctl.sndRecover then
      { tp with ctl := { tp.ctl with sndRecover := th.thAck - 1 } }
    else tp
  let tp := ccAckReceived e tp th .ccAck
  let tp := { tp with
    sndUna := th.thAck
    sndWl2 := th.thAck
    ctl := { tp.ctl with tDupacks := 0 } }
  rexmtAfterAck tp tp.sndUna

def fastAck : TcpResult :=
  let tp := ackTiming e v
  let acked := bytesThisAck tp v.th
  if tp.soSndCc < acked then { tp := tp, fate := .panicked }
  else
    let tp := fastAckSend e tp v.th acked
    checkDelack (if tp.soSndCc ≠ 0 then tcpOutput e tp else tp)

def sbreserveLocked (sb : Sockbuf) (cc : ℕ) : Option Sockbuf :=
  if e.sbMaxAdj < cc || !e.chgsbsize then none
  else some { sb with
    sbHiwat := BitVec.ofNat 32 cc
    sbMbmax := BitVec.ofNat 32 (min (cc * e.sbEfficiency) e.sbMax)
    sbLowat := min sb.sbLowat cc }

/-- The automatic sizing of the receive buffer: the control block and the new
size, zero for none. -/
def autosize (tp : Tcpcb) : Tcpcb × ℕ :=
  if e.tcpDoAutorcvbuf && v.opt.toTsecr != 0 && tp.sbAutosize then
    -- a round trip has been counted; grow if the buffer was nearly used up in it
    if seqGt v.opt.toTsecr tp.rfbufTs && decide ((v.opt.toTsecr - tp.rfbufTs).toNat < e.hz) then
      let hiwat := tp.soRcv.sbHiwat.toNat
      ({ tp with rfbufTs := 0, rfbufCnt := 0 },
        if hiwat / 8 * 7 < tp.rfbufCnt ∧ hiwat < e.tcpAutorcvbufMax then
          min ((hiwat + e.tcpAutorcvbufInc) % 2 ^ 32) e.tcpAutorcvbufMax
        else 0)
    else ({ tp with rfbufCnt := tp.rfbufCnt + v.tlen }, 0)
  else (tp, 0)

/-- The new size is set up, or automatic sizing given up. -/
def reserveNewsize (tp : Tcpcb) (newsize : ℕ) : Tcpcb :=
  if newsize = 0 then tp
  else match sbreserveLocked e tp.soRcv newsize with
    | some sb => { tp with soRcv := sb }
    | none => { tp with sbAutosize := false }

/-- The next segment of the stream is appended to `so_rcv`. -/
def acceptInOrder (tp : ReassCb) (th : Segment) : ReassCb :=
  ReassCb.sbappendOrFree { tp with rcvNxt := tp.rcvNxt + BitVec.ofNat 32 th.tlen } th.m

/-- The segment as it is handed on: its FIN is that of the header. -/
def InputVars.segment : Segment :=
  ⟨v.th.thSeq, v.th.thFlags.fin, v.tlen, mAdj v.m v.dropHdrlen⟩

/-- The receive buffer before in-sequence data is appended. -/
def fastDataReserve : Tcpcb :=
  let tp := v.tp
  let tp := if tp.tfSackPermit && tp.ctl.rcvNumsacks != 0 then
      { tp with ctl := { tp.ctl with rcvNumsacks := 0 } }
    else tp
  let r := autosize e v tp
  if r.1.soRcv.sbCantrcvmore then r.1 else reserveNewsize e r.1 r.2

def fastData : TcpResult :=
  let tp := fastDataReserve e v
  let tp := { tp with
    toReassCb := acceptInOrder tp.toReassCb v.segment
    sndWl1 := v.th.thSeq
    rcvUp := tp.rcvNxt + BitVec.ofNat 32 v.tlen }
  checkDelack (if delayAck e tp then { tp with tfDelack := true }
    else tcpOutput e { tp with tfAcknow := true })

def headerPrediction : Except TcpResult InputVars :=
  if predicted v then
    let v := { v with tp := predictedTs e v }
    if v.tlen = 0 then
      if predictedAck v then .error (fastAck e v) else .ok v
    else if v.th.thAck = v.tp.sndUna ∧ (v.tlen : ℤ) ≤ v.tp.soRcv.sbspace then
      .error (fastData e v)
    else .ok v
  else .ok v

/-- The receive window: the space in the buffer, but no less than what has been
advertised. -/
def Tcpcb.window (tp : Tcpcb) : ℕ :=
  (max (max tp.soRcv.sbspace 0) (tp.rcvAdv - tp.rcvNxt).toInt).toNat

def setRcvWnd : InputVars :=
  { v with tp := { v.tp with rcvWnd := v.tp.window, rfbufTs := 0, rfbufCnt := 0 } }

def synReceivedInput : Except TcpResult InputVars :=
  if v.tp.tState = .synReceived && v.thflags.ack &&
      (seqLeq v.th.thAck v.tp.sndUna || seqGt v.th.thAck v.tp.sndMax) then .error { tp := v.tp }
  else .ok v

/-- The scale factor asked for, once both sides have agreed. -/
def agreedRcvScale (tp : Tcpcb) : ℕ :=
  if tp.tfRcvdScale && tp.tfReqScale then tp.requestRScale else tp.rcvScale

def tcpMaxwin : ℕ := 65535

def synSentAck : InputVars :=
  let tp := v.tp
  let tp := { tp with rcvScale := agreedRcvScale tp }
  let tp := { tp with
    rcvAdv := tp.rcvAdv + BitVec.ofNat 32 (min tp.rcvWnd (tcpMaxwin <<< tp.rcvScale))
    sndUna := tp.sndUna + 1 }
  let tp := if delayAck e tp && v.tlen != 0 then { tp with ttDelack := true }
    else { tp with tfAcknow := true }
  let tp := if v.thflags.ece && e.tcpDoEcn then { tp with tfEcnPermit := true } else tp
  if tp.tfNeedfin then
    { v with
      tp := { tp with tState := .finWait1, tfNeedfin := false }
      thflags := { v.thflags with syn := false } }
  else { v with tp := { tp with tState := .established, ctl := e.ccConnInit tp } }

/-- A SYN in `TCPS_SYN_SENT` that does not: a simultaneous open. -/
def synSentSimultaneous : InputVars :=
  { v with tp := { v.tp with
    tfAcknow := true
    tfNeedsyn := true
    ctl := { v.tp.ctl with ttRexmt := false }
    tState := .synReceived } }

/-- What lies beyond the window goes, and the SYN is stepped over. -/
def synSentTrim : InputVars :=
  let th := { v.th with thSeq := v.th.thSeq + 1 }
  let v : InputVars := { v with
    th := th
    tp := { v.tp with sndWl1 := th.thSeq - 1, rcvUp := th.thSeq } }
  if v.tp.rcvWnd < v.tlen then
    { v with
      m := mAdj v.m (-((v.tlen - v.tp.rcvWnd : ℕ) : ℤ))
      tlen := v.tp.rcvWnd
      thflags := { v.thflags with fin := false } }
  else v

def synSentInput : Except TcpResult InputVars :=
  if v.thflags.ack && (seqLeq v.th.thAck v.tp.iss || seqGt v.th.thAck v.tp.sndMax) then
    .error { tp := v.tp }
  else if v.thflags.rst then
    if v.thflags.ack then
      .error { tp := { v.tp with soError := some .econnrefused }, fate := .closed }
    else .error { tp := v.tp }
  else if !v.thflags.syn then .error { tp := v.tp }
  else
    let v := { v with tp := { v.tp with
      irs := v.th.thSeq
      rcvNxt := v.th.thSeq + 1
      rcvAdv := v.th.thSeq + 1 } }
    .ok (synSentTrim (if v.thflags.ack then synSentAck e v else synSentSimultaneous v))

def rstInWindow : Bool :=
  seqGeq v.th.thSeq (v.tp.lastAckSent - 1) &&
    seqLeq v.th.thSeq (v.tp.lastAckSent + BitVec.ofNat 32 v.tp.rcvWnd)

def rstSecure : Bool :=
  e.tcpInsecureRst ||
    (seqGeq v.th.thSeq (v.tp.rcvNxt - 1) && seqLeq v.th.thSeq (v.tp.rcvNxt + 1)) ||
    (seqGeq v.th.thSeq (v.tp.lastAckSent - 1) && seqLeq v.th.thSeq (v.tp.lastAckSent + 1))

def rstClose (tp : Tcpcb) (err : Errno) : TcpResult :=
  { tp := { tp with soError := some err, tState := .closed }, fate := .closed }

def rstAccepted : TcpResult :=
  match v.tp.tState with
  | .synReceived => rstClose v.tp .econnrefused
  | .established => if rstSecure e v then rstClose v.tp .econnreset else { tp := v.tp }
  | .finWait1 | .finWait2 | .closeWait => rstClose v.tp .econnreset
  | .closing | .lastAck => { tp := v.tp, fate := .closed }
  | _ => { tp := v.tp }

def rstInput : Except TcpResult InputVars :=
  if v.thflags.rst then .error (if rstInWindow v then rstAccepted e v else { tp := v.tp })
  else .ok v

def tcpPawsIdle : ℕ := 24 * 24 * 60 * 60 * 1000

def pawsInput : Except TcpResult InputVars :=
  if v.opt.tofTs && v.tp.tsRecent != 0 && seqLt v.opt.toTsval v.tp.tsRecent then
    -- the recorded timestamp is too old to say anything
    if tcpPawsIdle < (e.tcpTsGetticks - v.tp.tsRecentAge).toNat then
      .ok { v with tp := { v.tp with tsRecent := 0 } }
    else if v.tlen ≠ 0 then .error (dropafterack e v)
    else .error { tp := v.tp }
  else .ok v

/-- In `TCPS_SYN_RECEIVED`, a segment from before the connection. -/
def synReceivedSeq : Except TcpResult InputVars :=
  if v.tp.tState = .synReceived && seqLt v.th.thSeq v.tp.irs then .error { tp := v.tp } else .ok v

def trimSyn : InputVars :=
  if v.thflags.syn then
    let v := { v with
      thflags := { v.thflags with syn := false }
      th := { v.th with thSeq := v.th.thSeq + 1 } }
    if 1 < v.th.thUrp then { v with th := { v.th with thUrp := v.th.thUrp - 1 } }
    else { v with thflags := { v.thflags with urg := false } }
  else v

/-- `todrop` bytes at the front of the segment have been received before. -/
def trimHeadBy (todrop : ℕ) : InputVars :=
  let v := { v with
    dropHdrlen := v.dropHdrlen + todrop
    th := { v.th with thSeq := v.th.thSeq + BitVec.ofNat 32 todrop }
    tlen := v.tlen - todrop }
  if todrop < v.th.thUrp then { v with th := { v.th with thUrp := v.th.thUrp - todrop } }
  else { v with thflags := { v.thflags with urg := false }, th := { v.th with thUrp := 0 } }

/-- A complete duplicate is acknowledged at once, and its FIN with it. -/
def InputVars.asDuplicate : InputVars :=
  { v with
    thflags := { v.thflags with fin := false }
    tp := { v.tp with tfAcknow := true } }

def trimLeft : InputVars :=
  let todrop := (v.tp.rcvNxt - v.th.thSeq).toInt
  if 0 < todrop then
    -- the SYN takes a sequence number and no byte
    let todrop := if v.thflags.syn then todrop - 1 else todrop
    let v := trimSyn v
    if (v.tlen : ℤ) < todrop ∨ (todrop = v.tlen ∧ v.thflags.fin = false) then
      trimHeadBy v.asDuplicate v.tlen
    else trimHeadBy v todrop.toNat
  else v

def afterClose : Except TcpResult InputVars :=
  if v.tp.soNofdref && v.tp.tState.pastCloseWait && v.tlen != 0 then
    .error { tp := v.tp, fate := .closed }
  else .ok v

/-- Trim the segment on the right.  The FIN goes from `thflags` only. -/
def trimRight : Except TcpResult InputVars :=
  let todrop := (v.th.thSeq + BitVec.ofNat 32 v.tlen -
    (v.tp.rcvNxt + BitVec.ofNat 32 v.tp.rcvWnd)).toInt
  if 0 < todrop then
    -- all of it lies beyond the window: drop it, unless it is a probe of a closed window
    let windowProbe := v.tp.rcvWnd == 0 && v.th.thSeq == v.tp.rcvNxt
    if (v.tlen : ℤ) ≤ todrop ∧ windowProbe = false then .error (dropafterack e v)
    else .ok { v with
      tp := if (v.tlen : ℤ) ≤ todrop then { v.tp with tfAcknow := true } else v.tp
      m := mAdj v.m (-todrop)
      tlen := v.tlen - todrop.toNat
      thflags := { v.thflags with push := false, fin := false } }
  else .ok v

def spansLastAckSent : Bool :=
  seqLeq v.th.thSeq v.tp.lastAckSent &&
    seqLeq v.tp.lastAckSent (v.th.thSeq + BitVec.ofNat 32 v.tlen +
      if v.thflags.syn || v.thflags.fin then 1 else 0)

def updateTsRecent : InputVars :=
  if v.opt.tofTs && spansLastAckSent v then
    { v with tp := { v.tp with tsRecentAge := e.tcpTsGetticks, tsRecent := v.opt.toTsval } }
  else v

def synInWindow : Except TcpResult InputVars :=
  if v.thflags.syn then .error (rstClose v.tp .econnreset) else .ok v

/-- `case TCPS_SYN_RECEIVED` of the second switch.  What has been queued is
presented, and a FIN found there is not looked at. -/
def synReceivedAck : InputVars :=
  let tp := v.tp
  let tp := if tp.tfRcvdScale && tp.tfReqScale then
      { tp with rcvScale := tp.requestRScale, sndWnd := v.tiwin }
    else tp
  let tp := if tp.tfNeedfin then { tp with tState := .finWait1, tfNeedfin := false }
    else { tp with tState := .established, ctl := e.ccConnInit tp }
  let tp := if v.tlen = 0 ∧ v.thflags.fin = false then
      { tp with toReassCb := (tcpReass tp.toReassCb e.ticks e.umaZalloc none).1 }
    else tp
  { v with tp := { tp with sndWl1 := v.th.thSeq - 1 } }

def tcprexmtthresh : ℕ := 3

/-- A duplicate acknowledgement beyond the threshold, or during recovery. -/
def dupAckInflate : Tcpcb :=
  let tp := ccAckReceived e v.tp v.th .ccDupack
  let awnd := (tp.sndNxt - tp.ctl.sndFack).toInt + tp.ctl.sackBytesRexmit
  let cwnd := tp.ctl.sndCwnd + tp.tMaxseg
  let cwnd := if tp.tfSackPermit && tp.ctl.inFastrecovery then
      if awnd < tp.ctl.sndSsthresh then min cwnd tp.ctl.sndSsthresh else tp.ctl.sndCwnd
    else cwnd
  tcpOutput e { tp with ctl := { tp.ctl with sndCwnd := cwnd } }

/-- The duplicate acknowledgement that starts fast retransmission. -/
def fastRetransmit : Tcpcb :=
  let onxt := v.tp.sndNxt
  let tp := ccCongSignal e v.tp v.th .ccNdupack
  let tp := ccAckReceived e tp v.th .ccDupack
  let tp := { tp with ctl := { tp.ctl with ttRexmt := false, tRtttime := 0 } }
  if tp.tfSackPermit then
    tcpOutput e { tp with ctl := { tp.ctl with
      sackNewdata := tp.sndNxt
      sndCwnd := tp.tMaxseg } }
  else
    let tp := tcpOutput e { tp with
      sndNxt := v.th.thAck
      ctl := { tp.ctl with sndCwnd := tp.tMaxseg } }
    { tp with
      sndNxt := if seqGt onxt tp.sndNxt then onxt else tp.sndNxt
      ctl := { tp.ctl with
        sndCwnd := tp.ctl.sndSsthresh + tp.tMaxseg * (tp.ctl.tDupacks - tp.ctl.sndLimited) } }

/-- Limited transmit for the first two duplicate acknowledgements. -/
def limitedTransmit : Tcpcb :=
  let tp := ccAckReceived e v.tp v.th .ccDupack
  let oldcwnd := tp.ctl.sndCwnd
  let oldsndmax := tp.sndMax
  -- the window is opened for one segment and closed again
  let limited := if tp.ctl.tDupacks = 1 then 0 else tp.ctl.sndLimited
  let tp := tcpOutput e { tp with ctl := { tp.ctl with
    sndLimited := limited
    sndCwnd := (tp.sndNxt - tp.sndUna).toNat + (tp.ctl.tDupacks - limited) * tp.tMaxseg } }
  let sent := (tp.sndMax - oldsndmax).toNat
  { tp with ctl := { tp.ctl with
    sndCwnd := oldcwnd
    sndLimited := if tp.tMaxseg < sent then 2
      else if 0 < sent then tp.ctl.sndLimited + 1 else tp.ctl.sndLimited } }

def Tcpcb.setDupacks (tp : Tcpcb) (n : ℕ) : Tcpcb :=
  { tp with ctl := { tp.ctl with tDupacks := n } }

/-- The acknowledgement belongs to a recovery that has been made. -/
def recoveredBefore : Bool :=
  if v.tp.tfSackPermit then v.tp.ctl.inFastrecovery else seqLeq v.th.thAck v.tp.ctl.sndRecover

def dupAckCounted : Except TcpResult InputVars :=
  if tcprexmtthresh < v.tp.ctl.tDupacks || v.tp.ctl.inFastrecovery then
    .error { tp := dupAckInflate e v }
  else if v.tp.ctl.tDupacks = tcprexmtthresh then
    if recoveredBefore v then .ok { v with tp := v.tp.setDupacks 0 }
    else .error { tp := fastRetransmit e v }
  else if e.tcpDoRfc3042 then .error { tp := limitedTransmit e v }
  else .ok v

def dupAckInput : Except TcpResult InputVars :=
  if v.tlen = 0 ∧ v.tiwin = v.tp.sndWnd then
    if !v.tp.ctl.ttRexmt || v.th.thAck != v.tp.sndUna then
      .ok { v with tp := v.tp.setDupacks 0 }
    else dupAckCounted e { v with tp := v.tp.setDupacks (v.tp.ctl.tDupacks + 1) }
  else .ok { v with tp := v.tp.setDupacks 0 }

def tcpSackPartialack (tp : Tcpcb) (th : TcpHdr) : Tcpcb :=
  let numSegs := if 2 ≤ bytesThisAck tp th / tp.tMaxseg then 2 else 1
  let cwnd := tp.ctl.sackBytesRexmit + (tp.sndNxt - tp.ctl.sackNewdata).toNat +
    numSegs * tp.tMaxseg
  tcpOutput e { tp with
    tfAcknow := true
    ctl := { tp.ctl with
      ttRexmt := false
      tRtttime := 0
      sndCwnd := min cwnd tp.ctl.sndSsthresh } }

def tcpNewrenoPartialAck (tp : Tcpcb) (th : TcpHdr) : Tcpcb :=
  let onxt := tp.sndNxt
  let ocwnd := tp.ctl.sndCwnd
  let tp := tcpOutput e { tp with
    sndNxt := th.thAck
    tfAcknow := true
    ctl := { tp.ctl with
      ttRexmt := false
      tRtttime := 0
      sndCwnd := tp.tMaxseg + bytesThisAck tp th } }
  { tp with
    sndNxt := if seqGt onxt tp.sndNxt then onxt else tp.sndNxt
    ctl := { tp.ctl with sndCwnd := ocwnd - bytesThisAck tp th + tp.tMaxseg } }

def recoveryAck (tp : Tcpcb) (th : TcpHdr) : Tcpcb :=
  if tp.ctl.inFastrecovery then
    if seqLt th.thAck tp.ctl.sndRecover then
      if tp.tfSackPermit then tcpSackPartialack e tp th else tcpNewrenoPartialAck e tp th
    else { tp with ctl := e.ccPostRecovery tp th }
  else tp

def needsynAck (tp : Tcpcb) : Tcpcb :=
  if tp.tfNeedsyn then
    { tp with tfNeedsyn := false, sndUna := tp.sndUna + 1, rcvScale := agreedRcvScale tp }
  else tp

/-- The send buffer and the send window after `acked` bytes, and whether our
FIN is among them. -/
def dropAcked (tp : Tcpcb) (acked : ℕ) : Tcpcb × Bool :=
  let cc := min acked tp.soSndCc
  ({ tp with
      soSndCc := tp.soSndCc - cc
      sndWnd := (BitVec.ofNat 64 tp.sndWnd - BitVec.ofNat 64 cc).toNat },
    decide (tp.soSndCc < acked))

/-- The recovery point and the send pointers after an acknowledgement. -/
def ackPointers (tp : Tcpcb) (th : TcpHdr) : Tcpcb :=
  let c := tp.ctl
  let c := if !c.inRecovery && seqGt tp.sndUna c.sndRecover && seqLeq th.thAck c.sndRecover then
      { c with sndRecover := th.thAck - 1 }
    else c
  -- everything outstanding when the loss was seen is acknowledged
  let c := if c.inRecovery && seqGeq th.thAck c.sndRecover then
      { c with inFastrecovery := false, inCongrecovery := false }
    else c
  let c := if tp.tfSackPermit && seqGt th.thAck c.sndRecover then
      { c with sndRecover := th.thAck }
    else c
  { tp with
    sndUna := th.thAck
    sndNxt := if seqLt tp.sndNxt th.thAck then th.thAck else tp.sndNxt
    ctl := c }

def finAcked (ourfinisacked : Bool) : Except TcpResult InputVars :=
  if ourfinisacked then
    match v.tp.tState with
    | .finWait1 => .ok { v with tp := { v.tp with tState := .finWait2 } }
    | .closing => .error { tp := v.tp, fate := .timeWait }
    | .lastAck => .error { tp := v.tp, fate := .closed }
    | _ => .ok v
  else .ok v

def processAck : Except TcpResult InputVars :=
  let acked := bytesThisAck v.tp v.th
  let tp := rexmtAfterAck (ackTiming e v) v.th.thAck
  let v := { v with
    tp := tp
    needoutput := v.needoutput || v.th.thAck == tp.sndMax }
  if acked = 0 then .ok v
  else
    let r := dropAcked (ccAckReceived e v.tp v.th .ccAck) acked
    finAcked { v with tp := ackPointers r.1 v.th } r.2

/-- A passive connection takes what is acknowledged to have been sent. -/
def passiveSndMax (tp : Tcpcb) (th : TcpHdr) : Tcpcb :=
  if tp.inpPassive && seqLt tp.sndMax th.thAck then { tp with sndMax := th.thAck } else tp

def sackAck (tp : Tcpcb) (opt : TcpOpt) (th : TcpHdr) : Tcpcb :=
  if tp.tfSackPermit && (opt.tofSack || tp.ctl.sndHoles != 0) then
    { tp with ctl := e.tcpSackDoack tp opt th.thAck }
  else tp

def establishedAck : Except TcpResult InputVars :=
  let v := { v with tp := passiveSndMax v.tp v.th }
  if seqGt v.th.thAck v.tp.sndMax then .error (dropafterack e v)
  else
    let v := { v with tp := sackAck e v.tp v.opt v.th }
    if seqLeq v.th.thAck v.tp.sndUna then dupAckInput e v
    else
      processAck e { v with tp := needsynAck ((recoveryAck e v.tp v.th).setDupacks 0) }

def ackInput : Except TcpResult InputVars :=
  if !v.thflags.ack then
    if v.tp.tState = .synReceived || v.tp.tfNeedsyn then .ok v
    else if v.tp.tfAcknow then .error (dropafterack e v)
    else .error { tp := v.tp }
  else match v.tp.tState with
    | .closed | .listen | .synSent | .timeWait => .ok v
    | .synReceived => establishedAck e (synReceivedAck e v)
    | _ => establishedAck e v

def step6 : InputVars :=
  if v.thflags.ack && (seqLt v.tp.sndWl1 v.th.thSeq || (v.tp.sndWl1 == v.th.thSeq &&
      (seqLt v.tp.sndWl2 v.th.thAck ||
        (v.tp.sndWl2 == v.th.thAck && decide (v.tp.sndWnd < v.tiwin))))) then
    { v with
      tp := { v.tp with
        sndWnd := v.tiwin
        sndWl1 := v.th.thSeq
        sndWl2 := v.th.thAck
        maxSndwnd := max v.tp.maxSndwnd v.tiwin }
      needoutput := true }
  else v

/-- The byte at `cnt` is taken out of the chain; none is a panic. -/
def pullByte : List Mbuf → ℕ → Option (UInt8 × List Mbuf)
  | [], _ => none
  | m :: ms, cnt =>
    if cnt < m.mLen then
      some (m.mtod cnt, { m with
        mLen := m.mLen - 1
        mtod := fun i => if cnt ≤ i ∧ i + 1 < m.mLen then m.mtod (i + 1) else m.mtod i
        mPkthdrLen := m.mPkthdrLen.map (· - 1) } :: ms)
    else (pullByte ms (cnt - m.mLen)).map fun r => (r.1, m :: r.2)

def tcpPulloutofband : Except TcpResult InputVars :=
  match pullByte v.m (v.dropHdrlen + v.th.thUrp - 1) with
  | none => .error { tp := v.tp, fate := .panicked }
  | some r => .ok { v with tp := { v.tp with tIobc := r.1, tcpoobHavedata := true }, m := r.2 }

def advanceRcvUp (tp : Tcpcb) (th : TcpHdr) : Tcpcb :=
  let up := th.thSeq + BitVec.ofNat 32 th.thUrp
  if seqGt up tp.rcvUp then
    let mark := tp.soRcv.sbCc + (up - tp.rcvNxt) - 1
    { tp with
      rcvUp := up
      soOobmark := mark
      soRcv := { tp.soRcv with sbRcvatmark := tp.soRcv.sbRcvatmark || mark == 0 }
      tcpoobHavedata := false
      tcpoobHaddata := false }
  else tp

def urgInput : Except TcpResult InputVars :=
  if v.thflags.urg && v.th.thUrp != 0 && !v.tp.tState.haveRcvdFin then
    if e.sbMax < (BitVec.ofNat 32 v.th.thUrp + v.tp.soRcv.sbCc).toNat then
      .ok { v with
        th := { v.th with thUrp := 0 }
        thflags := { v.thflags with urg := false } }
    else
      let v := { v with tp := advanceRcvUp v.tp v.th }
      if v.th.thUrp ≤ v.tlen ∧ v.tp.soOobinline = false then tcpPulloutofband v else .ok v
  else .ok { v with tp := if seqGt v.tp.rcvNxt v.tp.rcvUp then { v.tp with rcvUp := v.tp.rcvNxt }
      else v.tp }

/-- From the first switch to `dodata` in `TCPS_SYN_SENT`. -/
def inputSynSent : Except TcpResult InputVars := do
  let v ← synSentInput e v
  let v ← if v.thflags.ack then processAck e v else pure v
  urgInput e (step6 v)

/-- From the first switch to `dodata` in the other states. -/
def inputOtherwise : Except TcpResult InputVars := do
  let v ← synReceivedInput v
  let v ← rstInput e v
  let v ← pawsInput e v
  let v ← synReceivedSeq v
  let v ← afterClose (trimLeft v)
  let v ← trimRight e v
  let v ← synInWindow (updateTsRecent e v)
  let v ← ackInput e v
  urgInput e (step6 v)

def inputWindow : Except TcpResult InputVars :=
  if v.tp.tState = .synSent then inputSynSent e (setRcvWnd v) else inputOtherwise e (setRcvWnd v)

def toDodata (tp : Tcpcb) (p : TcpPkt) : Except TcpResult InputVars := do
  let v ← headerPrediction e (inputEntry e tp p)
  inputWindow e v

def InputVars.hasData : Bool :=
  (v.tlen != 0 || v.thflags.fin) && !v.tp.tState.haveRcvdFin

def InputVars.inOrder : Bool :=
  v.th.thSeq == v.tp.rcvNxt && v.tp.tSegq.isEmpty && v.tp.tState.haveEstablished

/-- The segment handed on: the control block, the FIN to act on and the length
for the SACK list. -/
def dodataSegment : Tcpcb × Bool × ℕ :=
  if v.inOrder then
    let tp := if delayAck e v.tp then { v.tp with tfDelack := true }
      else { v.tp with tfAcknow := true }
    ({ tp with toReassCb := acceptInOrder tp.toReassCb v.segment }, v.segment.thFin, v.tlen)
  else
    let r := tcpReass v.tp.toReassCb e.ticks e.umaZalloc (some v.segment)
    ({ v.tp with toReassCb := r.1, tfAcknow := true }, r.2)

/-- The label `dodata`: the control block and whether there is a FIN to act
on. -/
def dodata : Tcpcb × Bool :=
  if v.hasData then
    let (tp, fin, tlen) := dodataSegment e v
    (if 0 < tlen && tp.tfSackPermit then
      { tp with ctl := e.tcpUpdateSackList tp v.th.thSeq (v.th.thSeq + BitVec.ofNat 32 tlen) }
    else tp, fin)
  else (v.tp, false)

def Tcpcb.setState (tp : Tcpcb) (s : TcpState) : Tcpcb := { tp with tState := s }

/-- The first FIN closes the receive side and takes its sequence number. -/
def finFlags (tp : Tcpcb) : Tcpcb :=
  if tp.tState.haveRcvdFin then tp
  else
    let tp := if tp.tfNeedsyn then { tp with tfDelack := true } else { tp with tfAcknow := true }
    { tp with toReassCb := { tp.toReassCb.socantrcvmore with rcvNxt := tp.rcvNxt + 1 } }

def finReceived (tp : Tcpcb) : TcpResult :=
  match tp.tState with
  | .synReceived | .established => { tp := (finFlags tp).setState .closeWait }
  | .finWait1 => { tp := (finFlags tp).setState .closing }
  | .finWait2 => { tp := finFlags tp, fate := .timeWait }
  | _ => { tp := finFlags tp }

def inputExit (tp : Tcpcb) (needoutput : Bool) : TcpResult :=
  checkDelack (if needoutput || tp.tfAcknow then tcpOutput e tp else tp)

def dataAndFin : TcpResult :=
  let r := dodata e v
  if r.2 then finReceived r.1 else { tp := r.1 }

def finishInput : TcpResult :=
  let r := dataAndFin e v
  if r.fate = .live then inputExit e r.tp v.needoutput else r

def tcpDoSegment (tp : Tcpcb) (p : TcpPkt) : TcpResult :=
  match toDodata e tp p with
  | .error r => r
  | .ok v => finishInput e v

end Libuinet
