import Libuinet.PcbPlacement
import Libuinet.SyncacheTable

namespace Libuinet

open SerialArith

abbrev SoId := PcbId

def ssNofdref : BitVec 16 := 0x0001
def ssNbio : BitVec 16 := 0x0100

/-- The listening socket, as the sockets made after it see it. -/
structure Listener extends ListenSocket where
  soPromisc : Bool := false
  soFibnum : BitVec 16 := 0
  soState : BitVec 16 := 0
  soL2info : L2info := {}

/-- `struct socket`: the options and the state, the references, the queue of the
listening socket it is on, the other socket of a passive pair, and the control block
of the connection. -/
structure TcpSocket where
  soPassive : Bool := false
  soPassiveclnt : Bool := false
  soPromisc : Bool := false
  soState : BitVec 16 := 0
  soCount : ℕ := 0
  sqComp : Bool := false
  sqIncomp : Bool := false
  soL2info : L2info := {}
  soPassivePeer : Option SoId := none
  tp : Tcpcb

/-- The sockets of the stack with the tables they are found by. -/
structure TcpStack where
  syncache : TcpSyncache
  tcbinfo : Inpcbinfo
  so : SoId → TcpSocket
  nextSo : SoId

/-- The ACK: `inc` and `m` as `tcp_input` passes them. -/
structure AckArgs where
  inc : InConninfo
  opt : TcpOpt := {}
  th : TcpHdr
  m : FrameMbuf

/-- What the calls find outside the tables.  A socket can be had for each end when the
queue is not full and the allocations of `soalloc` and of the protocol succeed. -/
structure ExpandEnv where
  tcp : TcpEnv := {}
  pcb : PassiveRole → PcbEnv := fun _ => {}
  soalloc : PassiveRole → Bool := fun _ => true
  tcpSyncookies : Bool := true
  syncookieLookup : AckArgs → Option SyncacheEntry := fun _ => none

/-- Without the SYN|ACK of a passive connection its values are taken from the ACK. -/
def SyncacheEntry.completed (sc : SyncacheEntry) (a : AckArgs) : SyncacheEntry :=
  if sc.scfPassive && !sc.scfPassiveSynack then
    { sc with scIss := a.th.thAck - 1, scTs := a.opt.toTsecr }
  else sc

def AckArgs.valid (a : AckArgs) (sc : SyncacheEntry) : Bool :=
  a.th.thAck = sc.scIss + 1 &&
    !(seqLeq a.th.thSeq sc.scIrs || seqGt a.th.thSeq (sc.scIrs + sc.scWnd.setWidth 32)) &&
    -- timestamps that were not agreed on, or that do not echo ours
    !(!sc.scfTimestamp && a.opt.tofTs) && !(a.opt.tofTs && a.opt.toTsecr != sc.scTs)

/-- The first half of `syncache_expand`: the entry, taken out of the table, if it
accepts the ACK.  A connection without an entry may come back with a cookie, unless it
is passive. -/
def acceptAck (e : ExpandEnv) (t : TcpSyncache) (a : AckArgs) :
    TcpSyncache × Option SyncacheEntry :=
  match syncacheLookup t a.inc a.m with
  | some id => (syncacheDrop t id, some ((t.sc id).completed a) |>.filter a.valid)
  | none =>
    (t, if !e.tcpSyncookies || a.inc.incPassive then none
      else ((e.syncookieLookup a).map ({ · with scfPassive := false })).filter a.valid)

def L2info.swap (l2i : L2info) : L2info :=
  { l2i with inl2iLocalAddr := l2i.inl2iForeignAddr, inl2iForeignAddr := l2i.inl2iLocalAddr }

def PassiveRole.l2info (role : PassiveRole) (l2i : L2info) : L2info :=
  match role with
  | .server => l2i
  | .client => l2i.swap

def inPromiscSocketNewconn (lso : Listener) : L2info where
  inl2iTagstack := lso.soL2info.inl2iTagstack

def PassiveRole.localEnd (role : PassiveRole) (inc : InConninfo) : BitVec 32 × BitVec 16 :=
  match role with
  | .server => (inc.incLaddr, inc.incLport)
  | .client => (inc.incFaddr, inc.incFport)

def PassiveRole.foreignEnd (role : PassiveRole) (inc : InConninfo) : SockaddrIn :=
  match role with
  | .server => { sinAddr := inc.incFaddr, sinPort := inc.incFport }
  | .client => { sinAddr := inc.incLaddr, sinPort := inc.incLport }

def newInpcb (role : PassiveRole) (lso : Listener) (sc : SyncacheEntry) (l2i : L2info) : Inpcb where
  inpPromisc := lso.soPromisc
  inpFibnum := lso.soFibnum
  inpL2info := if lso.soPromisc then role.l2info l2i else {}
  inpLaddr := (role.localEnd sc.scInc).1
  inpLport := (role.localEnd sc.scInc).2

def newTcpSocket (role : PassiveRole) (lso : Listener) (passive : Bool) (l2i : L2info)
    (tp : Tcpcb) : TcpSocket where
  soPassive := passive
  soPromisc := lso.soPromisc
  soState := lso.soState ||| ssNofdref
  sqIncomp := role = .server
  soL2info := if lso.soPromisc then role.l2info l2i else inPromiscSocketNewconn lso
  tp := tp

def inPcballoc (info : Inpcbinfo) (id : PcbId) (inp : Inpcb) : Inpcbinfo :=
  { info with
    ipiListhead := id :: info.ipiListhead
    inpcb := Function.update info.inpcb id inp }

namespace TcpStack

variable (e : ExpandEnv) (s : TcpStack) (lso : Listener) (sc : SyncacheEntry)

def soabort (id : SoId) : TcpStack :=
  { s with tcbinfo := inPcbremlists s.tcbinfo id }

/-- A new control block goes into the hash under its local endpoint and is then
connected; the value says whether that worked. -/
def placeEnd (e : PcbEnv) (info : Inpcbinfo) (id : PcbId) (inp : Inpcb) (nam : SockaddrIn) :
    Except String (Bool × Inpcbinfo) := do
  let (failed, info) ← inPcbinshash (inPcballoc info id inp) id e.phd
  if failed then return (false, info)
  let (error, info) ← inPcbconnect info e id nam
  return (error.isNone, info)

def attachEnd (role : PassiveRole) (lso : Listener) (sc : SyncacheEntry) (l2i : L2info)
    (so : TcpSocket) : Except String (Option SoId × TcpStack) := do
  let id := s.nextSo
  let (ok, info) ←
    placeEnd (e.pcb role) s.tcbinfo id (newInpcb role lso sc l2i) (role.foreignEnd sc.scInc)
  let s := { s with tcbinfo := info, so := Function.update s.so id so, nextSo := id + 1 }
  return if ok then (some id, s) else (none, s.soabort id)

def syncachePassiveClientSocket (e : ExpandEnv) (s : TcpStack) (lso : Listener)
    (sc : SyncacheEntry) (l2i : L2info) (opt : TcpOpt) :
    Except String (Option SoId × TcpStack) :=
  match (if e.soalloc .client then
      Libuinet.syncachePassiveClientSocket e.tcp sc.toSyncache lso.toListenSocket opt
    else none) with
  | none => .ok (none, s)
  | some r => s.attachEnd e .client lso sc l2i (newTcpSocket .client lso lso.soPassive l2i r.tp)

def link (server client : SoId) : TcpStack :=
  let so := Function.update s.so server { s.so server with soPassivePeer := some client }
  { s with so := Function.update so client { so client with soPassivePeer := some server } }

def serverSocket (l2i : L2info) : Except String (Option SoId × TcpStack) :=
  match (if e.soalloc .server then
      Libuinet.syncacheSocket e.tcp sc.toSyncache lso.toListenSocket else none) with
  | none => .ok (none, s)
  | some tp => s.attachEnd e .server lso sc l2i (newTcpSocket .server lso sc.scfPassive l2i tp)

def passivePair (l2i : L2info) (opt : TcpOpt) : Except String (Option SoId × TcpStack) := do
  let (client, s) ← s.syncachePassiveClientSocket e lso sc l2i opt
  match client with
  | none => return (none, s)
  | some client =>
    let (server, s) ← s.serverSocket e lso sc l2i
    match server with
    -- the client's socket goes with the server's
    | none => return (none, s.soabort client)
    | some server => return (some server, s.link server client)

def syncacheSocket (m : FrameMbuf) (opt : TcpOpt) : Except String (Option SoId × TcpStack) :=
  -- the `panic` of a frame without its tag
  if lso.soPromisc ∧ m.l2i = none then .error "No MTAG_PROMISCINET_L2INFO on mbuf"
  else if sc.scfPassive then s.passivePair e lso sc (m.l2i.getD {}) opt
  else s.serverSocket e lso sc (m.l2i.getD {})

def syncacheExpand (a : AckArgs) : Except String (Option SoId × TcpStack) :=
  let (t, sc) := acceptAck e s.syncache a
  match sc with
  | none => .ok (none, { s with syncache := t })
  | some sc => ({ s with syncache := t } : TcpStack).syncacheSocket e lso sc a.m a.opt

end TcpStack

variable {info info' : Inpcbinfo} {id : PcbId}

theorem inPcbconnectSetup_ok {e : PcbEnv} {nam : SockaddrIn} {ends : Endpoints}
    (h : inPcbconnectSetup info e id nam = .ok ends) :
    nam.sinPort ≠ 0 ∧ ((info.inpcb id).inpLport ≠ 0 →
      ∃ faddr laddr, e.foreignFor nam.sinAddr = .ok faddr ∧
        e.localFor (info.inpcb id).inpLaddr faddr = .ok laddr ∧
        ends = ⟨laddr, (info.inpcb id).inpLport, faddr, nam.sinPort⟩) := by
  unfold inPcbconnectSetup at h
  dsimp only at h
  split at h
  · cases h
  split at h
  · cases h
  split at h
  · cases h
  next hport =>
  refine ⟨hport, fun hlport => ?_⟩
  cases hf : e.foreignFor nam.sinAddr with
  | error err => rw [hf] at h; cases h
  | ok faddr =>
    rw [hf] at h
    change (e.localFor (info.inpcb id).inpLaddr faddr >>= _) = _ at h
    cases hl : e.localFor (info.inpcb id).inpLaddr faddr with
    | error err => rw [hl] at h; cases h
    | ok laddr =>
      rw [hl] at h
      change (if _ then _ else _) = _ at h
      split_ifs at h <;> cases h <;> exact ⟨faddr, laddr, rfl, hl, rfl⟩

/-- A block that has been connected has the endpoints of the call. -/
structure Connected (e : PcbEnv) (nam : SockaddrIn) (inp inp' : Inpcb) : Prop where
  faddr : e.foreignFor nam.sinAddr = .ok inp'.inpFaddr
  laddr : e.localFor inp.inpLaddr inp'.inpFaddr = .ok inp'.inpLaddr
  fport : inp'.inpFport = nam.sinPort
  lport : inp'.inpLport = inp.inpLport
  promisc : inp'.inpPromisc = inp.inpPromisc
  l2info : inp'.inpL2info = inp.inpL2info

theorem commitConnect_ok {ends : Endpoints} {error : Option Errno} {anonport : Bool}
    (h : commitConnect info id ends anonport = .ok (error, info')) :
    ∃ f : Inpcb → Inpcb, info'.inpcb = (info.modify id f).inpcb ∧ ∀ inp, f inp = { inp with
      inpLport := ends.lport, inpLaddr := ends.laddr, inpFaddr := ends.faddr
      inpFport := ends.fport, inpAnonport := inp.inpAnonport || anonport } := by
  unfold commitConnect inPcbrehash at h
  split at h
  · cases h
    refine ⟨_, ?_, fun inp => rfl⟩
    funext j
    by_cases hj : j = id
    · subst hj
      cases anonport <;> simp [Inpcbinfo.modify]
    · cases anonport <;> simp [Inpcbinfo.modify, hj]
  · cases h

/-- Connecting a block that is bound to a port. -/
theorem inPcbconnect_ok {e : PcbEnv} {nam : SockaddrIn} (hin : (info.inpcb id).inpInhashlist = true)
    (h : inPcbconnect info e id nam = .ok (none, info')) :
    nam.sinPort ≠ 0 ∧ (∀ j ≠ id, info'.inpcb j = info.inpcb j) ∧
      ((info.inpcb id).inpLport ≠ 0 →
        Connected e nam (info.inpcb id) (info'.inpcb id)) := by
  unfold inPcbconnect at h
  dsimp only at h
  split at h
  · cases h
  · next ends hends =>
    obtain ⟨hport, hset⟩ := inPcbconnectSetup_ok hends
    have hcommit : commitConnect info id ends (decide ((info.inpcb id).inpLport = 0)) =
        .ok (none, info') := by
      split at h
      · -- a block without an address and a port is inserted again, and that fails
        unfold insertBound inPcbinshash at h
        rw [modify_inpcb_self, if_pos hin] at h
        cases h
      · exact h
    obtain ⟨f, hpcb, hf⟩ := commitConnect_ok hcommit
    refine ⟨hport, fun j hj => by rw [hpcb, modify_inpcb_of_ne hj], fun hlport => ?_⟩
    obtain ⟨faddr, laddr, hforeign, hlocal, rfl⟩ := hset hlport
    rw [hpcb, modify_inpcb_self, hf]
    exact ⟨hforeign, hlocal, rfl, rfl, rfl, rfl⟩

theorem inPcbinshash_ok {phd failed : Bool} (h : inPcbinshash info id phd = .ok (failed, info')) :
    failed = true ∨ info' = info.link id := by
  unfold inPcbinshash at h
  split_ifs at h
  · cases h
    exact .inl rfl
  · cases h
    exact .inr rfl

namespace TcpStack

theorem placeEnd_ok {e : PcbEnv} {id : PcbId} {inp : Inpcb} {nam : SockaddrIn}
    (h : placeEnd e info id inp nam = .ok (true, info')) :
    nam.sinPort ≠ 0 ∧ (∀ j ≠ id, info'.inpcb j = info.inpcb j) ∧
      (inp.inpLport ≠ 0 → Connected e nam inp (info'.inpcb id)) := by
  have hself :
      ((inPcballoc info id inp).link id).inpcb id = { inp with inpInhashlist := true } := by
    simp [inPcballoc, Inpcbinfo.link, Inpcbinfo.modify]
  unfold placeEnd at h
  cases hins : inPcbinshash (inPcballoc info id inp) id e.phd with
  | error err =>
    rw [hins] at h
    cases h
  | ok p =>
    obtain ⟨failed, info₁⟩ := p
    rw [hins] at h
    change (if failed = true then _ else _) = _ at h
    split at h
    · cases h
    · next hfailed =>
      obtain rfl := (inPcbinshash_ok hins).resolve_left hfailed
      change (inPcbconnect ((inPcballoc info id inp).link id) e id nam >>= _) = _ at h
      cases hc : inPcbconnect ((inPcballoc info id inp).link id) e id nam with
      | error err =>
        rw [hc] at h
        cases h
      | ok p =>
        obtain ⟨error, info₂⟩ := p
        rw [hc] at h
        cases error with
        | some err => cases h
        | none =>
          cases h
          obtain ⟨hport, hothers, hconn⟩ := inPcbconnect_ok (by rw [hself]) hc
          rw [hself] at hconn
          refine ⟨hport, fun j hj => ?_, fun hlport => ?_⟩
          · rw [hothers j hj]
            simp [inPcballoc, Inpcbinfo.link, Inpcbinfo.modify, hj]
          · have hconn := hconn hlport
            exact { hconn with }

/-- An end has been made: its socket, and its control block if the local port is one. -/
structure Attached (e : ExpandEnv) (s : TcpStack) (role : PassiveRole) (lso : Listener)
    (sc : SyncacheEntry) (l2i : L2info) (so : TcpSocket) (id : SoId) (s' : TcpStack) : Prop where
  id_eq : id = s.nextSo
  nextSo : s'.nextSo = s.nextSo + 1
  so_eq : s'.so = Function.update s.so id so
  port : (role.foreignEnd sc.scInc).sinPort ≠ 0
  others : ∀ j ≠ id, s'.tcbinfo.inpcb j = s.tcbinfo.inpcb j
  connected : (role.localEnd sc.scInc).2 ≠ 0 → Connected (e.pcb role) (role.foreignEnd sc.scInc)
    (newInpcb role lso sc l2i) (s'.tcbinfo.inpcb id)

variable {e : ExpandEnv} {l2i : L2info} {lso : Listener} {server : SoId} {sc : SyncacheEntry}
  {opt : TcpOpt} {s s' : TcpStack}

theorem attachEnd_ok {role : PassiveRole} {so : TcpSocket} {id : SoId}
    (h : s.attachEnd e role lso sc l2i so = .ok (some id, s')) :
    Attached e s role lso sc l2i so id s' := by
  unfold attachEnd at h
  change (placeEnd _ _ s.nextSo _ _ >>= _) = _ at h
  cases hp : placeEnd (e.pcb role) s.tcbinfo s.nextSo (newInpcb role lso sc l2i)
      (role.foreignEnd sc.scInc) with
  | error err =>
    rw [hp] at h
    cases h
  | ok p =>
    obtain ⟨ok, info⟩ := p
    rw [hp] at h
    cases ok with
    | false => cases h
    | true =>
      cases h
      obtain ⟨hport, hothers, hconn⟩ := placeEnd_ok hp
      exact ⟨rfl, rfl, rfl, hport, hothers, hconn⟩

theorem serverSocket_ok {id : SoId} (h : s.serverSocket e lso sc l2i = .ok (some id, s')) :
    ∃ tp, Libuinet.syncacheSocket e.tcp sc.toSyncache lso.toListenSocket = some tp ∧
      Attached e s .server lso sc l2i (newTcpSocket .server lso sc.scfPassive l2i tp) id s' := by
  unfold serverSocket at h
  split at h
  · cases h
  · next tp htp =>
    split_ifs at htp
    exact ⟨tp, htp, attachEnd_ok h⟩

theorem clientSocket_ok {id : SoId}
    (h : s.syncachePassiveClientSocket e lso sc l2i opt = .ok (some id, s')) :
    ∃ r, Libuinet.syncachePassiveClientSocket e.tcp sc.toSyncache lso.toListenSocket opt = some r ∧
      Attached e s .client lso sc l2i (newTcpSocket .client lso lso.soPassive l2i r.tp) id s' := by
  unfold syncachePassiveClientSocket at h
  split at h
  · cases h
  · next r hr =>
    split_ifs at hr
    exact ⟨r, hr, attachEnd_ok h⟩

/-- What `syncache_socket` leaves behind when it has made a passive pair. -/
structure MadePair (e : ExpandEnv) (lso : Listener) (sc : SyncacheEntry) (l2i : L2info)
    (opt : TcpOpt) (s' : TcpStack) (server client : SoId) (r : TcpResult) (tp : Tcpcb) : Prop where
  clientTcp :
    Libuinet.syncachePassiveClientSocket e.tcp sc.toSyncache lso.toListenSocket opt = some r
  serverTcp : Libuinet.syncacheSocket e.tcp sc.toSyncache lso.toListenSocket = some tp
  clientSo : s'.so client = { newTcpSocket .client lso lso.soPassive l2i r.tp with
    soPassivePeer := some server }
  serverSo : s'.so server = { newTcpSocket .server lso sc.scfPassive l2i tp with
    soPassivePeer := some client }
  clientPcb : Connected (e.pcb .client) (PassiveRole.client.foreignEnd sc.scInc)
    (newInpcb .client lso sc l2i) (s'.tcbinfo.inpcb client)
  serverPcb : Connected (e.pcb .server) (PassiveRole.server.foreignEnd sc.scInc)
    (newInpcb .server lso sc l2i) (s'.tcbinfo.inpcb server)

/-- The server end is made after the client end and leaves it alone. -/
theorem madePair_of_attached {s₁ s₂ : TcpStack} {client : SoId} {r : TcpResult} {tp : Tcpcb}
    (hr : Libuinet.syncachePassiveClientSocket e.tcp sc.toSyncache lso.toListenSocket opt = some r)
    (htp : Libuinet.syncacheSocket e.tcp sc.toSyncache lso.toListenSocket = some tp)
    (hclient : Attached e s .client lso sc l2i
      (newTcpSocket .client lso lso.soPassive l2i r.tp) client s₁)
    (hserver : Attached e s₁ .server lso sc l2i
      (newTcpSocket .server lso sc.scfPassive l2i tp) server s₂) :
    MadePair e lso sc l2i opt (s₂.link server client) server client r tp := by
  have hne : client ≠ server := by
    rw [hserver.id_eq, hclient.nextSo, hclient.id_eq]
    exact (Nat.succ_ne_self _).symm
  have hclientSo : s₂.so client = newTcpSocket .client lso lso.soPassive l2i r.tp := by
    rw [hserver.so_eq, hclient.so_eq]
    simp [hne]
  have hserverSo : s₂.so server = newTcpSocket .server lso sc.scfPassive l2i tp := by
    rw [hserver.so_eq]
    simp
  refine ⟨hr, htp, ?_, ?_, ?_, ?_⟩
  · simp [link, hne, hclientSo]
  · simp [link, hne.symm, hserverSo]
  · change Connected _ _ _ (s₂.tcbinfo.inpcb client)
    rw [hserver.others client hne]
    -- the foreign port of the server end is the local port of the client end
    exact hclient.connected hserver.port
  · exact hserver.connected hclient.port

theorem passivePair_ok (h : s.passivePair e lso sc l2i opt = .ok (some server, s')) :
    ∃ client r tp, MadePair e lso sc l2i opt s' server client r tp := by
  unfold passivePair at h
  cases hc : s.syncachePassiveClientSocket e lso sc l2i opt with
  | error err =>
    rw [hc] at h
    cases h
  | ok p =>
    obtain ⟨client, s₁⟩ := p
    rw [hc] at h
    cases client with
    | none => cases h
    | some client =>
      change (s₁.serverSocket e lso sc l2i >>= _) = _ at h
      cases hs : s₁.serverSocket e lso sc l2i with
      | error err =>
        rw [hs] at h
        cases h
      | ok p =>
        obtain ⟨server', s₂⟩ := p
        rw [hs] at h
        cases server' with
        | none => cases h
        | some server' =>
          cases h
          obtain ⟨r, hr, hclient⟩ := clientSocket_ok hc
          obtain ⟨tp, htp, hserver⟩ := serverSocket_ok hs
          exact ⟨client, r, tp, madePair_of_attached hr htp hclient hserver⟩

/-- The entry that an expansion has used, and the call it has made. -/
theorem syncacheExpand_ok {a : AckArgs} (h : s.syncacheExpand e lso a = .ok (some server, s')) :
    ∃ t sc, acceptAck e s.syncache a = (t, some sc) ∧
      ({ s with syncache := t } : TcpStack).syncacheSocket e lso sc a.m a.opt =
        .ok (some server, s') := by
  unfold syncacheExpand at h
  rcases hacc : acceptAck e s.syncache a with ⟨t, sc⟩
  rw [hacc] at h
  cases sc with
  | none => cases h
  | some sc => exact ⟨t, sc, rfl, h⟩

/-- A passive entry gives a pair. -/
theorem syncacheSocket_pair {m : FrameMbuf} (hpassive : sc.scfPassive = true)
    (h : s.syncacheSocket e lso sc m opt = .ok (some server, s')) :
    ∃ client r tp, MadePair e lso sc (m.l2i.getD {}) opt s' server client r tp := by
  unfold syncacheSocket at h
  rw [if_pos hpassive] at h
  split at h
  · cases h
  · exact passivePair_ok h

/-- Any other gives one socket. -/
theorem syncacheSocket_single {m : FrameMbuf} (hactive : sc.scfPassive = false)
    (h : s.syncacheSocket e lso sc m opt = .ok (some server, s')) :
    ∃ tp, Libuinet.syncacheSocket e.tcp sc.toSyncache lso.toListenSocket = some tp ∧
      s'.so server = newTcpSocket .server lso false (m.l2i.getD {}) tp := by
  unfold syncacheSocket at h
  rw [if_neg (by simp [hactive] : ¬ sc.scfPassive = true)] at h
  split at h
  · cases h
  · obtain ⟨tp, htp, hserver⟩ := serverSocket_ok h
    refine ⟨tp, htp, ?_⟩
    rw [hserver.so_eq, hactive]
    simp

end TcpStack

end Libuinet
