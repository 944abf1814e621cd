import Libuinet.ChainTable
import Libuinet.PromiscTags
import Libuinet.Syncache

namespace Libuinet

/-- `struct in_conninfo`. -/
structure InConninfo where
  incFaddr : BitVec 32
  incFport : BitVec 16
  incLaddr : BitVec 32
  incLport : BitVec 16
  incFibnum : BitVec 16 := 0
  incPassive : Bool := false
  incPromisc : Bool := false
  incSynfiltered : Bool := false
  incConvontmo : Bool := false
  deriving DecidableEq

def endptsEq (a b : InConninfo) : Bool :=
  a.incFport = b.incFport && a.incLport = b.incLport && a.incFaddr = b.incFaddr &&
    a.incLaddr = b.incLaddr

/-- `struct ipopt_tag`: the source route that came with a packet. -/
structure IpoptTag where
  optval : BitVec 8
  olen : BitVec 8
  route : List (BitVec 32)
  dst : BitVec 32

/-- The options that `ip_srcroute` writes: the first hop of the way back, the head of the option
and the other hops. -/
structure IpOptions where
  hop : BitVec 32
  optval : BitVec 8
  olen : BitVec 8
  route : List (BitVec 32)
  deriving DecidableEq

/-- An entry of the table: `struct syncache` with its addressing part. -/
structure SyncacheEntry extends Syncache where
  scInc : InConninfo
  scIpopts : Option IpOptions := none
  scFib : BitVec 16
  scAltfib : BitVec 16 := 0
  scL2tag : Option L2info := none
  scRxttime : ℤ := 0
  scfPassiveSynack : Bool := false
  scfNoTimeoutReset : Bool := false
  scfConvertOnTimeout : Bool := false

/-- What the functions below look at in the mbuf of a frame. -/
structure FrameMbuf where
  fib : BitVec 16
  l2i : Option L2info
  ipoptTag : Option IpoptTag := none

/-- The options of the way back, and the mbuf without the tag they were read from. -/
def ipSrcroute (mGet : Bool) (m : FrameMbuf) : Option IpOptions × FrameMbuf :=
  match m.ipoptTag with
  | none => (none, m)
  | some opts =>
    match opts.route.reverse with
    | [] => (none, m)
    | p :: route =>
      if mGet then
        (some ⟨p, opts.optval, opts.olen, route ++ [opts.dst]⟩, { m with ipoptTag := none })
      else (none, m)

/-- `TSTMP_LT` and `TSTMP_GT` of two `int`s.  Times do not wrap here, but their `int`s do; the
difference of two `int`s is compiled to a comparison of the two. -/
def tstmpLt (a b : ℤ) : Bool := a.bmod (2 ^ 32) < b.bmod (2 ^ 32)

def tstmpGt (a b : ℤ) : Bool := tstmpLt b a

abbrev ScId := ℕ

/-- `V_tcp_syncache`, with the entries of the zone. -/
structure TcpSyncache where
  hashmask : BitVec 32
  hashSecret : BitVec 32
  bucketLimit : ℕ
  rexmtLimit : ℕ
  sc : ScId → SyncacheEntry
  nextSc : ScId
  hashbase : ChainTable (BitVec 32) ScId

variable (e : SynEnv) (t : TcpSyncache) (l : SynListener) (a : SynArgs)

def syncacheHash (inc : InConninfo) : BitVec 32 :=
  (t.hashSecret ^^^ inc.incFaddr ^^^ (inc.incFaddr >>> 16) ^^^ inc.incFport.setWidth 32 ^^^
    inc.incLport.setWidth 32) &&& t.hashmask

def syncacheSeed (inc : InConninfo) (fib : BitVec 16) : BitVec 32 :=
  inPromiscHash32 (hashInput [inc.incLaddr, fib.setWidth 32]) (syncacheHash t inc)

def syncacheHashPromisc (inc : InConninfo) (fib : BitVec 16) (l2i : Option L2info) : BitVec 32 :=
  hashTags l2i (syncacheSeed t inc fib) &&& t.hashmask

def syncacheMatch (inc : InConninfo) (m : FrameMbuf) (sc : SyncacheEntry) : Bool :=
  m.fib = sc.scFib && inPromiscTagcmp (tagstackOf m.l2i) (tagstackOf sc.scL2tag) = 0 &&
    endptsEq inc sc.scInc

def syncacheLookup (inc : InConninfo) (m : FrameMbuf) : Option ScId :=
  (t.hashbase (syncacheHashPromisc t inc m.fib m.l2i)).find? fun id =>
    syncacheMatch inc m (t.sc id)

/-- The verdicts of a SYN filter. -/
inductive SynfDecision where
  | accept
  | acceptPassive
  | rejectRst
  | rejectSilent
  | defer
  deriving DecidableEq, Repr

/-- `struct syn_filter_cbarg`, the cookie of the callback. -/
structure SynFilterCbarg where
  inc : InConninfo
  opt : TcpOpt
  th : TcpHdr
  m : FrameMbuf
  initialTimeout : ℤ
  altfib : BitVec 32

/-- What the syncache asks the rest of the stack while it handles a segment.
`respond` is false when the SYN|ACK cannot be sent, `syncookie` are the initial
sequence number, the timestamp and its offset that `syncookie_generate` sets. -/
structure SynEnv where
  mGet : Bool := true
  zalloc : Bool := true
  zallocRetry : Bool := true
  tcpSyncookies : Bool := true
  tcpSyncookiesonly : Bool := false
  tcpDoRfc1323 : Bool := true
  tcpDoEcn : Bool := false
  sbMax : ℕ := 2097152
  arc4random : BitVec 32 := 0
  tcpTsGetticks : BitVec 32 := 0
  ticks : ℤ := 0
  rtobase : ℕ → ℤ := fun _ => 300
  respond : SyncacheEntry → Bool := fun _ => true
  syncookie : SyncacheEntry → TcpSeq × BitVec 32 × BitVec 32 := fun sc =>
    (sc.scIss, sc.scTs, sc.scTsoff)
  callback : SynFilterCbarg → SynfDecision × SynFilterCbarg := fun arg => (.accept, arg)

/-- What `_syncache_add` looks at in the listening socket. -/
structure SynListener where
  promisc : Bool := false
  synfilter : Bool := false
  noopt : Bool := false
  sbspace : ℤ := 65536

def syncacheTimeout (sc : SyncacheEntry) (timeoutTicks : ℤ) : SyncacheEntry :=
  { sc with
    scRxttime := e.ticks + if 0 < timeoutTicks then timeoutTicks else e.rtobase sc.scRxmits
    scRxmits := sc.scRxmits + 1 }

def TcpSyncache.setSc (id : ScId) (sc : SyncacheEntry) : TcpSyncache :=
  { t with sc := Function.update t.sc id sc }

def syncacheDrop (id : ScId) : TcpSyncache :=
  { t with hashbase := t.hashbase.remove id }

def dropLast (bucket : BitVec 32) : TcpSyncache :=
  match (t.hashbase bucket).getLast? with
  | some id => syncacheDrop t id
  | none => t

def fileEntry (bucket : BitVec 32) (sc : SyncacheEntry) : TcpSyncache :=
  { t.setSc t.nextSc sc with
    nextSc := t.nextSc + 1
    hashbase := t.hashbase.insertHead bucket t.nextSc }

def syncacheInsert (bucket : BitVec 32) (sc : SyncacheEntry) (initialTimeout : ℤ) : TcpSyncache :=
  -- a full bucket loses its oldest entry
  let t := if t.bucketLimit ≤ (t.hashbase bucket).length then dropLast t bucket else t
  fileEntry t bucket (syncacheTimeout e sc initialTimeout)

def syncacheRespond (sc : SyncacheEntry) : Bool :=
  sc.scfPassive || e.respond sc

/-- The arguments of `_syncache_add` that come with the segment. -/
structure SynArgs where
  inc : InConninfo
  opt : TcpOpt := {}
  th : TcpHdr
  m : FrameMbuf
  initialTimeout : ℤ := -1

/-- The local variables that the SYN filter may change, with the contents of `l2tag`, and the
options. -/
structure SynVars where
  passive : Bool
  altfib : BitVec 32
  initialTimeout : ℤ
  l2i : Option L2info
  ipopts : Option IpOptions

/-- What a call leaves behind: the table, how often the mbuf of the SYN has been
released, how many resets have been sent for it, and the cookie of a verdict that is
still to come. -/
structure SynOutcome where
  table : TcpSyncache
  freed : ℕ
  rst : ℕ := 0
  deferred : Option SynFilterCbarg := none

def SynArgs.vars : SynVars where
  passive := a.inc.incPassive
  altfib := a.inc.incFibnum.setWidth 32
  initialTimeout := a.initialTimeout
  l2i := a.m.l2i
  ipopts := (ipSrcroute e.mGet a.m).1

def SynArgs.cookie : SynFilterCbarg where
  inc := { a.inc with incSynfiltered := true }
  opt := a.opt
  th := a.th
  m := (ipSrcroute e.mGet a.m).2
  initialTimeout := -1
  altfib := a.inc.incFibnum.setWidth 32

def SynVars.judged (v : SynVars) (decision : SynfDecision) (arg : SynFilterCbarg) : SynVars where
  passive := v.passive || decision = .acceptPassive
  altfib := arg.altfib
  initialTimeout := if arg.inc.incPassive then arg.initialTimeout else v.initialTimeout
  -- `cbarg.l2i` points into the tag: the filter may write to it in place
  l2i := v.l2i.map fun l2i => arg.m.l2i.getD l2i
  ipopts := v.ipopts

/-- The SYN filter stage: the variables to go on with, or the cookie of a deferred
verdict, or nothing when the SYN is rejected. -/
def runFilter : Except (Option SynFilterCbarg) SynVars :=
  -- a SYN that comes back with a verdict is not judged again
  if l.synfilter && !a.inc.incSynfiltered then
    let (decision, arg) := e.callback (a.cookie e)
    match decision with
    | .accept => .ok ((a.vars e).judged .accept arg)
    | .acceptPassive => .ok ((a.vars e).judged .acceptPassive arg)
    | .defer => .error (some arg)
    | .rejectRst => .error none
    | .rejectSilent => .error none
  else .ok (a.vars e)

def wscaleFor (sbMax : ℕ) : ℕ :=
  ((List.range 14).find? fun wscale => sbMax ≤ 65535 <<< wscale).getD 14

def newEntry (v : SynVars) : SyncacheEntry :=
  let ts : Bool := e.tcpDoRfc1323 && a.opt.tofTs
  let scale : Bool := e.tcpDoRfc1323 && a.opt.tofScale
  { scIrs := a.th.thSeq
    scIss := e.arc4random
    scWnd := BitVec.ofInt 16 (min (max l.sbspace 0) 65535)
    scPeerMss := if a.opt.tofMss then BitVec.ofNat 16 a.opt.toMss else 0
    scRequestedSScale := if scale then BitVec.ofNat 4 a.opt.toWscale else 0
    scRequestedRScale := if scale then BitVec.ofNat 4 (wscaleFor e.sbMax) else 0
    scTsreflect := if ts then a.opt.toTsval else 0
    scTs := if ts then e.tcpTsGetticks else 0
    scfNoopt := l.noopt
    scfWinscale := scale
    scfTimestamp := ts
    scfSack := a.opt.tofSackperm
    scfEcn := (a.th.thFlags.ece || a.th.thFlags.cwr) && e.tcpDoEcn
    scfPassive := v.passive
    scInc := a.inc
    scIpopts := v.ipopts
    scFib := a.m.fib
    scAltfib := v.altfib.setWidth 16
    scL2tag := if l.promisc then v.l2i else none
    scfNoTimeoutReset := v.passive && 0 < v.initialTimeout
    scfConvertOnTimeout := v.passive && a.inc.incConvontmo }

/-- `syncookie_generate`, for entries that are not passive. -/
def withCookie (passive : Bool) (sc : SyncacheEntry) : SyncacheEntry :=
  if e.tcpSyncookies && !passive then
    let (iss, ts, tsoff) := e.syncookie sc
    { sc with scIss := iss, scTs := ts, scTsoff := tsoff }
  else sc

/-- Where the storage of a new entry comes from. -/
inductive ScStorage where
  | zone
  | stack
  | none
  deriving DecidableEq

/-- The allocation of an entry.  When the zone is exhausted the oldest entry of the
bucket makes room. -/
def allocSc (bucket : BitVec 32) (passive : Bool) : TcpSyncache × ScStorage :=
  if e.zalloc then (t, .zone)
  else
    -- an entry on the stack is answered with a cookie and then forgotten
    (dropLast t bucket, if e.zallocRetry then .zone
      else if e.tcpSyncookies && !passive then .stack else .none)

def admitSyn (v : SynVars) : TcpSyncache :=
  let bucket := syncacheHashPromisc t a.inc a.m.fib a.m.l2i
  let (t, storage) := allocSc e t bucket v.passive
  let sc := withCookie e v.passive (newEntry e l a v)
  if storage = .zone ∧ syncacheRespond e sc ∧
      !(e.tcpSyncookies && e.tcpSyncookiesonly && !v.passive) then
    syncacheInsert e t bucket sc v.initialTimeout
  else t

/-- A retransmission brings its own options if it has some, and turns timestamps off if it has
none. -/
def SyncacheEntry.refreshed (sc : SyncacheEntry) (opt : TcpOpt) (ipopts : Option IpOptions) :
    SyncacheEntry :=
  let sc := { sc with scIpopts := ipopts.or sc.scIpopts }
  if sc.scfTimestamp && opt.tofTs then { sc with scTsreflect := opt.toTsval }
  else { sc with scfTimestamp := false }

def dupSyn (opt : TcpOpt) (ipopts : Option IpOptions) (id : ScId) : TcpSyncache :=
  let sc := (t.sc id).refreshed opt ipopts
  t.setSc id (if syncacheRespond e sc && !sc.scfNoTimeoutReset then
    syncacheTimeout e { sc with scRxmits := 0 } (-1) else sc)

def syncacheAdd : SynOutcome :=
  match syncacheLookup t a.inc a.m with
  | some id => { table := dupSyn e t a.opt (ipSrcroute e.mGet a.m).1 id, freed := 1 }
  | none =>
    match runFilter e l a with
    -- the mbuf stays with the cookie until there is a verdict
    | .error (some arg) => { table := t, freed := 0, deferred := some arg }
    | .error none => { table := t, freed := 1 }
    | .ok v => { table := admitSyn e t l a v, freed := 1 }

def InConninfo.swap (inc : InConninfo) : InConninfo :=
  { inc with
    incFaddr := inc.incLaddr
    incLaddr := inc.incFaddr
    incFport := inc.incLport
    incLport := inc.incFport }

def synackScale (opt : TcpOpt) (sc : SyncacheEntry) : SyncacheEntry :=
  if !opt.tofScale then
    { sc with scfWinscale := false, scRequestedSScale := 0, scRequestedRScale := 0 }
  else if sc.scfWinscale then { sc with scRequestedRScale := BitVec.ofNat 4 opt.toWscale }
  else sc

def synackTimestamp (opt : TcpOpt) (sc : SyncacheEntry) : SyncacheEntry :=
  if !opt.tofTs then { sc with scfTimestamp := false, scTs := 0, scTsreflect := 0 }
  else if sc.scfTimestamp then
    { sc with
      scTsoff := opt.toTsval - sc.scTs
      scTs := opt.toTsval
      scTsreflect := opt.toTsecr }
  else sc

def synackUpdate (opt : TcpOpt) (th : TcpHdr) (sc : SyncacheEntry) : SyncacheEntry :=
  let sc := { sc with
    scfPassiveSynack := true
    scIss := th.thSeq
    scfEcn := sc.scfEcn && th.thFlags.ece
    scWnd := BitVec.ofNat 16 th.thWin }
  let sc := synackTimestamp opt (synackScale opt sc)
  { sc with scfSack := sc.scfSack && opt.tofSackperm }

def syncachePassiveSynack (inc : InConninfo) (opt : TcpOpt) (th : TcpHdr) (m : FrameMbuf) :
    TcpSyncache :=
  match syncacheLookup t inc.swap m with
  | some id => if (t.sc id).scfPassive then t.setSc id (synackUpdate opt th (t.sc id)) else t
  | none => t

def SyncacheEntry.retransmitted (sc : SyncacheEntry) : SyncacheEntry :=
  -- nothing was captured from the server: go on as a connection of our own
  let sc := if sc.scfPassive && sc.scfConvertOnTimeout then
      { sc with
        scfPassive := false
        scfPassiveSynack := false
        scfConvertOnTimeout := false
        scInc := { sc.scInc with incPassive := false, incConvontmo := false } }
    else sc
  syncacheTimeout e sc (-1)

def timerEntry (id : ScId) : TcpSyncache :=
  let sc := t.sc id
  if tstmpGt sc.scRxttime e.ticks then t
  else if t.rexmtLimit < sc.scRxmits then syncacheDrop t id
  else t.setSc id (sc.retransmitted e)

def syncacheTimer (bucket : BitVec 32) : TcpSyncache :=
  (t.hashbase bucket).foldl (timerEntry e) t

end Libuinet
