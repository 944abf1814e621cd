import Libuinet.TcpConn
import Libuinet.TcpOptions

namespace Libuinet

structure Syncache where
  scIrs : TcpSeq
  scIss : TcpSeq
  scWnd : BitVec 16
  scPeerMss : BitVec 16 := 0
  scRequestedSScale : BitVec 4 := 0
  scRequestedRScale : BitVec 4 := 0
  scTsreflect : BitVec 32 := 0
  scTs : BitVec 32 := 0
  scTsoff : BitVec 32 := 0
  scRxmits : ℕ := 0
  scfNoopt : Bool := false
  scfWinscale : Bool := false
  scfTimestamp : Bool := false
  scfSack : Bool := false
  scfEcn : Bool := false
  scfPassive : Bool := true

/-- What a new connection takes over from the listening socket, and the default
segment size. -/
structure ListenSocket where
  soPassive : Bool := true
  sbHiwat : ℕ := 65536
  sbLowat : ℕ := 1
  sbAutosize : Bool := true
  soOobinline : Bool := false
  tReassdl : ℕ := 0
  tcpMssdflt : ℕ := 536

/-- `sonewconn` and `sonewconn_passive_client` with the control block of
`tcp_newtcpcb`; none when the buffer cannot be reserved.  The flags are cleared
by the callers. -/
def sonewconn (e : TcpEnv) (lso : ListenSocket) (passive : Bool) : Option Tcpcb :=
  (sbreserveLocked e Sockbuf.empty lso.sbHiwat).map fun sb =>
    { tState := .closed
      inpPassive := passive
      rcvNxt := 0
      tMaxseg := lso.tcpMssdflt
      tReassdl := lso.tReassdl
      soRcv := { sb with sbLowat := lso.sbLowat }
      soNofdref := true
      soOobinline := lso.soOobinline
      sbAutosize := lso.sbAutosize }

def syncacheOptions (e : TcpEnv) (sc : Syncache) (tp : Tcpcb) (sndScale requestRScale : ℕ)
    (tsRecent tsOffset : BitVec 32) : Tcpcb :=
  let tp := if sc.scfNoopt then tp
    else
      let tp := if sc.scfWinscale then
          { tp with
            tfReqScale := true
            tfRcvdScale := true
            sndScale := sndScale
            requestRScale := requestRScale }
        else tp
      let tp := if sc.scfTimestamp then
          { tp with
            tfReqTstmp := true
            tfRcvdTstmp := true
            tsRecent := tsRecent
            tsRecentAge := e.tcpTsGetticks
            tsOffset := tsOffset }
        else tp
      { tp with tfSackPermit := sc.scfSack }
  tcpMss e { tp with tfEcnPermit := sc.scfEcn } sc.scPeerMss.toNat

def serverSeqinit (sc : Syncache) (tp : Tcpcb) : Tcpcb :=
  { tp with
    tState := .synReceived
    iss := sc.scIss
    irs := sc.scIrs
    rcvNxt := sc.scIrs + 1
    sndUna := sc.scIss
    sndWl1 := sc.scIrs
    sndMax := sc.scIss + 1
    sndNxt := sc.scIss + 1
    rcvUp := sc.scIrs + 1
    rcvWnd := sc.scWnd.toNat
    rcvAdv := sc.scIrs + 1 + sc.scWnd.setWidth 32
    lastAckSent := sc.scIrs + 1
    ctl := { tp.ctl with sndRecover := sc.scIss } }

def syncacheSocket (e : TcpEnv) (sc : Syncache) (lso : ListenSocket) : Option Tcpcb :=
  (sonewconn e lso sc.scfPassive).map fun tp =>
    let tp := syncacheOptions e sc (serverSeqinit sc tp) sc.scRequestedSScale.toNat
      sc.scRequestedRScale.toNat sc.scTsreflect sc.scTsoff
    if 1 < sc.scRxmits then { tp with ctl := { tp.ctl with sndCwnd := tp.tMaxseg } } else tp

def synackOptions (sc : Syncache) : TcpOpt where
  tofMss := true
  toMss := sc.scPeerMss.toNat
  tofScale := sc.scfWinscale
  toWscale := sc.scRequestedRScale.toNat
  tofTs := sc.scfTimestamp
  toTsval := sc.scTs
  toTsecr := sc.scTsreflect
  tofSackperm := sc.scfSack

/-- The SYN|ACK of the handshake, its options as `tcp_dooptions` reads what
`tcp_addoptions` wrote.  The headers in the mbuf are not looked at, and there is no
data behind them. -/
def syncacheSynthesizeSynack (e : TcpEnv) (sc : Syncache) : TcpPkt where
  th :=
    { thSeq := sc.scIss
      thAck := sc.scIrs + 1
      thFlags := { syn := true, ack := true, ece := sc.scfEcn }
      thWin := sc.scWnd.toNat }
  opt := tcpDooptions e.tcpDoSack true
    (if sc.scfNoopt then [] else tcpAddoptions (synackOptions sc))
  tlen := 0
  m := []

/-- `tcp_sendseqinit` for the client end, and the SYN it has sent.
`last_ack_sent` stays zero, because the assignment is disabled. -/
def clientSeqinit (sc : Syncache) (tp : Tcpcb) : Tcpcb :=
  { tp with
    tState := .synSent
    iss := sc.scIrs
    sndUna := sc.scIrs
    sndMax := sc.scIrs + 1
    sndNxt := sc.scIrs + 1
    ctl := { tp.ctl with sndRecover := sc.scIrs } }

/-- The client end, which is in passive mode if the listening socket is.  `opt` are
the options of the segment that completed the handshake. -/
def syncachePassiveClientSocket (e : TcpEnv) (sc : Syncache) (lso : ListenSocket)
    (opt : TcpOpt) : Option TcpResult :=
  (sonewconn e lso lso.soPassive).map fun tp =>
    let tp := syncacheOptions e sc (clientSeqinit sc tp) sc.scRequestedRScale.toNat
      sc.scRequestedSScale.toNat sc.scTs (opt.toTsval - e.tcpTsGetticks)
    tcpDoSegment e tp (syncacheSynthesizeSynack e sc)

inductive PassiveRole where
  | server
  | client
  deriving DecidableEq

def PassiveRole.start (role : PassiveRole) (e : TcpEnv) (sc : Syncache) (lso : ListenSocket)
    (opt : TcpOpt) : Option TcpResult :=
  match role with
  | .server => (syncacheSocket e sc lso).map fun tp => { tp := tp }
  | .client => syncachePassiveClientSocket e sc lso opt

def PassiveRole.inpPassive (role : PassiveRole) (lso : ListenSocket) : Bool :=
  match role with
  | .server => true
  | .client => lso.soPassive

def PassiveRole.lastAckSent (role : PassiveRole) (sc : Syncache) : TcpSeq :=
  match role with
  | .server => sc.scIrs + 1
  | .client => 0

theorem sonewconn_fresh {e : TcpEnv} {lso : ListenSocket} {passive : Bool} {tp : Tcpcb}
    (h : sonewconn e lso passive = some tp) : tp.inpPassive = passive ∧ tp.lastAckSent = 0 := by
  obtain ⟨sb, -, rfl⟩ := Option.map_eq_some_iff.mp h
  exact ⟨rfl, rfl⟩

end Libuinet
