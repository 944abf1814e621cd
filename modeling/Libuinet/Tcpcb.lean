import Libuinet.Reass

namespace Libuinet

open TailQueue SerialArith

def seqLt (a b : TcpSeq) : Bool := decide ((a - b).toInt < 0)

def seqLeq (a b : TcpSeq) : Bool := decide ((a - b).toInt ≤ 0)

def seqGeq (a b : TcpSeq) : Bool := decide (0 ≤ (a - b).toInt)

def TcpState.haveRcvdFin (s : TcpState) : Bool := s == .timeWait

def TcpState.pastCloseWait : TcpState → Bool
  | .finWait1 | .closing | .lastAck | .finWait2 | .timeWait => true
  | _ => false

structure TcpFlags where
  fin : Bool := false
  syn : Bool := false
  rst : Bool := false
  push : Bool := false
  ack : Bool := false
  urg : Bool := false
  ece : Bool := false
  cwr : Bool := false
  deriving DecidableEq

structure TcpHdr where
  thSeq : TcpSeq
  thAck : TcpSeq := 0
  thFlags : TcpFlags := {}
  thWin : ℕ := 0
  thUrp : ℕ := 0

structure Sackblk where
  start : TcpSeq
  stop : TcpSeq

/-- `struct tcpopt`, as `tcp_dooptions` leaves it.  The values are whatever was
on the stack when their flag is not set.  `toSacks` has `to_nsacks` blocks. -/
structure TcpOpt where
  tofTs : Bool := false
  toTsval : BitVec 32 := 0
  toTsecr : BitVec 32 := 0
  tofScale : Bool := false
  toWscale : ℕ := 0
  tofMss : Bool := false
  toMss : ℕ := 0
  tofSackperm : Bool := false
  tofSack : Bool := false
  toSacks : List Sackblk := []

/-- The arguments of `tcp_do_segment`; `m` still has `dropHdrlen` bytes of
headers in front of the data.  `m_pkthdr.len` is an `int`. -/
structure TcpPkt where
  th : TcpHdr
  opt : TcpOpt := {}
  tlen : ℕ
  dropHdrlen : ℕ := 0
  m : List Mbuf
  iptosCe : Bool := false
  fits : chainLen m ≤ intMax := by decide

/-- Congestion control, SACK and retransmission state. -/
structure SndCtl where
  sndCwnd : ℕ := 0
  sndSsthresh : ℕ := 0
  sndRecover : TcpSeq := 0
  sndLimited : ℕ := 0
  tDupacks : ℕ := 0
  inFastrecovery : Bool := false
  inCongrecovery : Bool := false
  tfPrevvalid : Bool := false
  tRxtshift : ℕ := 0
  tBadrxtwin : BitVec 32 := 0
  tRtttime : BitVec 32 := 0
  tRtseq : TcpSeq := 0
  tRttlow : BitVec 32 := 0
  sndFack : TcpSeq := 0
  sackBytesRexmit : ℕ := 0
  sackNewdata : TcpSeq := 0
  sndHoles : ℕ := 0
  rcvNumsacks : ℕ := 0
  ttRexmt : Bool := false
  ttPersist : Bool := false

def SndCtl.inRecovery (c : SndCtl) : Bool := c.inFastrecovery || c.inCongrecovery

/-- `struct tcpcb` with the parts of its `inpcb` and socket that
`tcp_do_segment` works on.  `ttDelack` says whether the timer is active. -/
structure Tcpcb extends ReassCb where
  irs : TcpSeq := 0
  rcvAdv : TcpSeq := 0
  rcvWnd : ℕ := 0
  rcvUp : TcpSeq := 0
  rcvScale : ℕ := 0
  requestRScale : ℕ := 0
  lastAckSent : TcpSeq := 0
  iss : TcpSeq := 0
  sndUna : TcpSeq := 0
  sndNxt : TcpSeq := 0
  sndMax : TcpSeq := 0
  sndWnd : ℕ := 0
  sndWl1 : TcpSeq := 0
  sndWl2 : TcpSeq := 0
  maxSndwnd : ℕ := 0
  sndScale : ℕ := 0
  tsRecent : BitVec 32 := 0
  tsRecentAge : BitVec 32 := 0
  tsOffset : BitVec 32 := 0
  rfbufTs : BitVec 32 := 0
  rfbufCnt : ℕ := 0
  tfAcknow : Bool := false
  tfDelack : Bool := false
  tfNeedsyn : Bool := false
  tfNeedfin : Bool := false
  tfReqScale : Bool := false
  tfRcvdScale : Bool := false
  tfReqTstmp : Bool := false
  tfRcvdTstmp : Bool := false
  tfSackPermit : Bool := false
  tfEcnPermit : Bool := false
  tfEcnSndEce : Bool := false
  tfRxwin0sent : Bool := false
  ttDelack : Bool := false
  tIobc : UInt8 := 0
  tcpoobHavedata : Bool := false
  tcpoobHaddata : Bool := false
  ctl : SndCtl := {}
  soSndCc : ℕ := 0
  soNofdref : Bool := false
  soOobinline : Bool := false
  soOobmark : BitVec 32 := 0
  soError : Option Errno := none
  sbAutosize : Bool := false

inductive CcSignal where
  | ccEcn
  | ccRtoErr
  | ccNdupack
  deriving DecidableEq

inductive CcAck where
  | ccAck
  | ccDupack
  deriving DecidableEq

/-- What `tcp_output` leaves in the fields it writes. -/
structure OutputEffect where
  sndNxt : TcpSeq
  sndMax : TcpSeq
  rcvAdv : TcpSeq
  lastAckSent : TcpSeq
  tfAcknow : Bool
  tfDelack : Bool
  tfRxwin0sent : Bool
  ttDelack : Bool
  ctl : SndCtl

structure MssEffect where
  tMaxseg : ℕ
  sbHiwat : BitVec 32
  sbMbmax : BitVec 32
  ctl : SndCtl

/-- What a call finds outside the connection: clocks, tunables, the outcome of
allocations, and the routines that are not modelled. -/
structure TcpEnv where
  ticks : ℕ := 0
  tcpTsGetticks : BitVec 32 := 0
  umaZalloc : Option ℕ := some 0
  chgsbsize : Bool := true
  hz : ℕ := 100
  sbMax : ℕ := 2097152
  sbMaxAdj : ℕ := 1864135
  sbEfficiency : ℕ := 8
  tcpInsecureRst : Bool := false
  tcpDoRfc3042 : Bool := true
  tcpDoEcn : Bool := false
  tcpDoSack : Bool := true
  tcpDelackEnabled : Bool := true
  tcpDoAutorcvbuf : Bool := true
  tcpAutorcvbufInc : ℕ := 16384
  tcpAutorcvbufMax : ℕ := 2097152
  ccCongSignal : Tcpcb → TcpHdr → CcSignal → SndCtl := fun tp _ _ => tp.ctl
  ccAckReceived : Tcpcb → TcpHdr → CcAck → SndCtl := fun tp _ _ => tp.ctl
  ccPostRecovery : Tcpcb → TcpHdr → SndCtl := fun tp _ => tp.ctl
  ccConnInit : Tcpcb → SndCtl := fun tp => tp.ctl
  tcpXmitTimer : Tcpcb → BitVec 32 → SndCtl := fun tp _ => tp.ctl
  tcpSackDoack : Tcpcb → TcpOpt → TcpSeq → SndCtl := fun tp _ _ => tp.ctl
  tcpUpdateSackList : Tcpcb → TcpSeq → TcpSeq → SndCtl := fun tp _ _ => tp.ctl
  tcpMss : Tcpcb → ℕ → MssEffect := fun tp _ =>
    ⟨tp.tMaxseg, tp.soRcv.sbHiwat, tp.soRcv.sbMbmax, tp.ctl⟩
  tcpOutput : Tcpcb → OutputEffect := fun tp =>
    ⟨tp.sndNxt, tp.sndMax, tp.rcvAdv, tp.lastAckSent, tp.tfAcknow, tp.tfDelack,
      tp.tfRxwin0sent, tp.ttDelack, tp.ctl⟩

inductive Fate where
  | live
  /-- `tcp_close`, also through `tcp_drop`. -/
  | closed
  /-- `tcp_twstart`. -/
  | timeWait
  | panicked
  deriving DecidableEq, Repr

structure TcpResult where
  tp : Tcpcb
  fate : Fate := .live

/-- The variables of `tcp_do_segment`.  `th` is the header in the packet and
`thflags` the copy of its flags that the trimming edits. -/
structure InputVars where
  tp : Tcpcb
  th : TcpHdr
  thflags : TcpFlags
  opt : TcpOpt
  tlen : ℕ
  dropHdrlen : ℕ
  m : List Mbuf
  tiwin : ℕ
  needoutput : Bool := false

end Libuinet
