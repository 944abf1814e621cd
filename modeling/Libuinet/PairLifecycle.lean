import Libuinet.PassivePair

namespace Libuinet

open Execution

def sqIncompBit : BitVec 16 := 0x0800
def sqCompBit : BitVec 16 := 0x1000

/-- What keeps one of the two sockets, with the flags of its `inpcb`. -/
structure PairSocket where
  soState : BitVec 16
  soCount : ℕ := 0
  sqIncomp : Bool := false
  sqComp : Bool := false
  inpDropped : Bool := false
  inpSockref : Bool := false
  /-- how often it has been through `sofree_dispose` -/
  disposed : ℕ := 0

namespace PairSocket

variable (so : PairSocket)

def sohasrefs : Bool :=
  so.soState &&& ssNofdref = 0 || so.soCount ≠ 0 || so.soState &&& ssProtoref ≠ 0 || so.sqComp

def soisconnected (filtered : Bool) (so : PairSocket) : PairSocket :=
  { so with
    soState := so.soState &&& ~~~(ssIsconnecting ||| ssIsdisconnecting ||| ssIsconfirming) |||
      ssIsconnected
    sqIncomp := so.sqIncomp && filtered
    sqComp := so.sqComp || (so.sqIncomp && !filtered) }

def soisdisconnecting : PairSocket :=
  { so with soState := so.soState &&& ~~~ssIsconnecting ||| ssIsdisconnecting }

def soisdisconnected : PairSocket :=
  { so with
    soState := so.soState &&& ~~~(ssIsconnecting ||| ssIsconnected ||| ssIsdisconnecting) |||
      ssIsdisconnected }

def dropped : PairSocket := { so.soisdisconnected with inpDropped := true }

def setProtoref : PairSocket :=
  { so with soState := so.soState ||| ssProtoref, inpSockref := true }

def clearProtoref : PairSocket :=
  { so with soState := so.soState &&& ~~~ssProtoref, inpSockref := false }

/-- What `tcp_usr_abort` makes of a socket that the protocol does not keep. -/
def aborted : PairSocket := if so.inpDropped then so else so.dropped

def clearNofdref : PairSocket :=
  { so with soState := so.soState &&& ~~~ssNofdref }

def dequeued : PairSocket := { so with sqIncomp := false, sqComp := false }

def unref : PairSocket :=
  { so with soState := so.soState ||| ssNofdref, soCount := so.soCount - 1 }

/-- The assertions at the start of `soabort`.  The last two look for bits of `so_qstate` in
`so_state`. -/
def abortable : Bool :=
  so.soCount = 0 && so.soState &&& ssProtoref = 0 && so.soState &&& ssNofdref ≠ 0 &&
    so.soState &&& sqCompBit = 0 && so.soState &&& sqIncompBit = 0

end PairSocket

/-- What `tcp_disconnect` makes of the connection: it gives it up, begins to take it down, or finds
only the last segments missing. -/
inductive TcpDisconnect where
  | drops
  | begins
  | ends

/-- Where the thread that accepts the pair is. -/
inductive AcceptPc where
  | waiting
  /-- the two sockets are referenced, `soaccept` is to be called -/
  | taken
  /-- it has failed: both are to be closed -/
  | failed
  | returned
  deriving DecidableEq

/-- Where the call of `soclose` on one of the two is. -/
inductive SoclosePc where
  | before
  /-- at the label `drop` -/
  | drop
  /-- `pru_close` has returned -/
  | closed
  | returned
  deriving DecidableEq

/-- `asserted` says whether the assertions of `soclose` and `soabort` have held at every call, and
`sorele` has found a reference. -/
structure SocketPair where
  so : PassiveRole → PairSocket
  accept : AcceptPc := .waiting
  close : PassiveRole → SoclosePc := fun _ => .before
  asserted : Bool := true

def PassiveRole.peer : PassiveRole → PassiveRole
  | .server => .client
  | .client => .server

namespace SocketPair

variable (s : SocketPair) (m : PassiveRole)

def modify (f : PairSocket → PairSocket) : SocketPair :=
  { s with so := Function.update s.so m (f (s.so m)) }

def sofreeDispose (so : PairSocket) : PairSocket :=
  { so with sqIncomp := false, disposed := so.disposed + 1 }

def sofree : SocketPair :=
  if (s.so m).sohasrefs || (s.so m.peer).sohasrefs then s
  else (s.modify m sofreeDispose).modify m.peer sofreeDispose

def tcpClose : SocketPair :=
  let s := s.modify m PairSocket.dropped
  if (s.so m).inpSockref then (s.modify m PairSocket.clearProtoref).sofree m else s

def tcpDisconnect : TcpDisconnect → SocketPair
  | .drops => s.tcpClose m
  | .begins => s.modify m PairSocket.soisdisconnecting
  | .ends => s.modify m fun so => so.soisdisconnecting.soisdisconnected

def keepSocket : SocketPair :=
  s.modify m fun so => if so.inpDropped then so else so.setProtoref

def tcpUsrDisconnect (how : TcpDisconnect) : SocketPair :=
  if (s.so m).inpDropped then s else s.tcpDisconnect m how

def tcpUsrClose (how : TcpDisconnect) : SocketPair :=
  (s.tcpUsrDisconnect m how).keepSocket m

def tcpUsrAbort : SocketPair :=
  (s.tcpUsrDisconnect m .drops).keepSocket m

def soclose (how : TcpDisconnect) : SocketPair :=
  let so := s.so m
  let s' :=
    if so.soState &&& ssIsconnected ≠ 0 && so.soState &&& ssIsdisconnecting = 0 then
      s.tcpUsrDisconnect m how
    else s
  { s' with
    asserted := s.asserted && decide (so.soState &&& ssNofdref = 0)
    close := Function.update s.close m .drop }

def soclosePru (how : TcpDisconnect) : SocketPair :=
  { s.tcpUsrClose m how with close := Function.update s.close m .closed }

def socloseRele : SocketPair :=
  let s := { s with
    asserted := s.asserted && decide (0 < (s.so m).soCount)
    close := Function.update s.close m .returned }
  let s := s.modify m PairSocket.unref
  if (s.so m).soCount = 0 then s.sofree m else s

def soabort : SocketPair :=
  let s := { s with asserted := s.asserted && (s.so m).abortable }.tcpUsrAbort m
  let s := if (s.so m.peer).sohasrefs then s else s.tcpUsrAbort m.peer
  s.sofree m

/-- What `soclose` of the listening socket does to a pair it still has. -/
def abortQueued : SocketPair :=
  (s.modify .server PairSocket.dequeued).soabort .server

/-- `uinet_soaccept`, while it has `ACCEPT_LOCK`; `head` is the `so_state` of the listening
socket. -/
def uinetSoaccept (head : BitVec 16) (s : SocketPair) : SocketPair :=
  let s := s.modify .server fun so =>
    { so with
      soCount := so.soCount + 1
      soState := so.soState ||| (head &&& ssNbio)
      sqComp := false }
  let s := s.modify .client fun so =>
    { so with
      soCount := so.soCount + 1
      soState := (so.soState.setWidth 32 |||
        ((head &&& ssNbio).setWidth 32 ||| soPassiveclntBit)).setWidth 16 }
  { s with accept := .taken }

def soaccept : SocketPair :=
  let so := s.so .server
  let s := s.modify .server PairSocket.clearNofdref
  if so.soState &&& ssIsdisconnected ≠ 0 || so.inpDropped then { s with accept := .failed }
  else { s with accept := .returned }

/-- The server's socket is on one of the queues of the listening socket. -/
def queued : Bool := (s.so .server).sqIncomp || (s.so .server).sqComp

/-- Whether `soclose` may be called: by the application once it has the pair, and by
`uinet_soaccept` when it has failed, on the client first. -/
def mayClose : Bool :=
  s.close m = .before &&
    (s.accept = .returned ||
      s.accept = .failed && (m = .client || s.close .client = .returned))

end SocketPair

/-- What happens to the pair.  The protocol connects a socket, or closes its connection because of
a segment or a timer. -/
inductive PairEvent where
  | soisconnected (m : PassiveRole) (filtered : Bool)
  | tcpClose (m : PassiveRole)
  | accept
  | soaccept
  | soclose (m : PassiveRole) (how : TcpDisconnect)
  | soclosePru (m : PassiveRole) (how : TcpDisconnect)
  | socloseRele (m : PassiveRole)
  | closeListener

namespace SocketPair

def step (head : BitVec 16) (s : SocketPair) : PairEvent → SocketPair
  | .soisconnected m filtered =>
    if (s.so m).inpDropped then s else s.modify m (PairSocket.soisconnected filtered)
  | .tcpClose m => if (s.so m).inpDropped then s else s.tcpClose m
  | .accept => if s.accept = .waiting ∧ (s.so .server).sqComp then s.uinetSoaccept head else s
  | .soaccept => if s.accept = .taken then s.soaccept else s
  | .soclose m how => if s.mayClose m then s.soclose m how else s
  | .soclosePru m how => if s.close m = .drop then s.soclosePru m how else s
  | .socloseRele m => if s.close m = .closed then s.socloseRele m else s
  | .closeListener => if s.queued then s.abortQueued else s

/-- The pair as `syncache_socket` leaves it: the server's socket is `sonewconn`'s, the client's is
`sonewconn_passive_client`'s. -/
def start (head : BitVec 16) : SocketPair where
  so
    | .server => { soState := head ||| ssNofdref, sqIncomp := true }
    | .client => { soState := head ||| ssNofdref ||| ssIsconnecting }

variable (s : SocketPair) (m : PassiveRole)

/-- One of the two has references, or the listening socket still has the pair. -/
def kept : Bool :=
  (s.so .server).sohasrefs || (s.so .client).sohasrefs || s.queued

/-- Both have been disposed of once if nothing keeps the pair, and not at all otherwise. -/
def Disposes : Prop := ∀ m, (s.so m).disposed = if s.kept then 0 else 1

def ServerOnly (e : PairEvent) : Prop :=
  ∀ how, e = .soclose .client how → s.mayClose .client = false

/-- The bits of `so_state` that `sohasrefs` and the assertions look at. -/
def refBits : BitVec 16 := ssNofdref ||| ssProtoref ||| sqCompBit ||| sqIncompBit

def refWord (nofdref protoref : Bool) : BitVec 16 :=
  (if nofdref then ssNofdref else 0) ||| (if protoref then ssProtoref else 0)

variable {w : BitVec 16} {nofdref protoref : Bool}

theorem and_of_refBits (h : w &&& refBits = refWord nofdref protoref) {f : BitVec 16}
    (hf : refBits &&& f = f) : w &&& f = refWord nofdref protoref &&& f := by
  rw [← h, BitVec.and_assoc, hf]

theorem or_and_refBits (g : BitVec 16) :
    (w ||| g) &&& refBits = w &&& refBits ||| g &&& refBits := by
  ext i hi
  simp [Bool.and_or_distrib_right]

theorem andNot_and_refBits (g : BitVec 16) :
    (w &&& ~~~g) &&& refBits = w &&& refBits &&& ~~~g := by
  rw [BitVec.and_assoc, BitVec.and_comm (~~~g), ← BitVec.and_assoc]

/-- Changing other bits. -/
theorem other_refBits {off on : BitVec 16} (hoff : refBits &&& ~~~off = refBits)
    (hon : on &&& refBits = 0#16) : (w &&& ~~~off ||| on) &&& refBits = w &&& refBits := by
  rw [or_and_refBits, andNot_and_refBits, BitVec.and_assoc, hoff, hon, BitVec.or_zero]

/-- What is known of one of the sockets: whether the flag is set, whether somebody has a reference,
and whether `pru_close` is over. -/
structure Counted (nofdref holds ended : Bool) (so : PairSocket) : Prop where
  word : so.soState &&& refBits = refWord nofdref so.inpSockref
  count : so.soCount = if holds then 1 else 0
  sockref : so.inpSockref = (ended && !so.inpDropped)

section Counted

variable {holds ended : Bool} {so : PairSocket}

section

variable (h : Counted nofdref holds ended so)
include h

theorem Counted.connected (filtered : Bool) :
    Counted nofdref holds ended (so.soisconnected filtered) :=
  { h with word := (other_refBits (by decide) (by decide)).trans h.word }

theorem Counted.disconnecting :
    Counted nofdref holds ended so.soisdisconnecting :=
  { h with word := (other_refBits (by decide) (by decide)).trans h.word }

theorem Counted.disconnected :
    Counted nofdref holds ended so.soisdisconnected :=
  { h with word := (other_refBits (by decide) (by decide)).trans h.word }

end

/-- The connection goes before `pru_close` is over. -/
theorem Counted.dropped (h : Counted nofdref holds false so) :
    Counted nofdref holds false so.dropped :=
  { h with word := h.disconnected.word }

/-- It goes afterwards, and the protocol lets go of the socket. -/
theorem Counted.released (h : Counted nofdref holds ended so) :
    Counted nofdref holds ended so.dropped.clearProtoref := by
  refine ⟨?_, h.count, by simp [PairSocket.clearProtoref, PairSocket.dropped]⟩
  unfold PairSocket.clearProtoref PairSocket.dropped
  dsimp only
  rw [andNot_and_refBits, h.disconnected.word]
  cases nofdref <;> cases so.soisdisconnected.inpSockref <;> decide

/-- `pru_close` is over. -/
theorem Counted.ends (h : Counted nofdref holds false so) :
    Counted nofdref holds true (if so.inpDropped then so else so.setProtoref) := by
  have hsockref : so.inpSockref = false := h.sockref
  split
  · next hdropped => exact { h with sockref := by rw [hsockref, hdropped]; rfl }
  · next hdropped =>
    refine ⟨?_, h.count, by simp [PairSocket.setProtoref, hdropped]⟩
    unfold PairSocket.setProtoref
    dsimp only
    rw [or_and_refBits, h.word, hsockref]
    cases nofdref <;> decide

theorem Counted.unref (h : Counted nofdref true ended so) : Counted true false ended so.unref := by
  refine ⟨?_, by simp [PairSocket.unref, h.count], h.sockref⟩
  unfold PairSocket.unref
  dsimp only
  rw [or_and_refBits, h.word]
  cases nofdref <;> cases so.inpSockref <;> decide

theorem Counted.sohasrefs_eq (h : Counted nofdref holds ended so) :
    so.sohasrefs = (!nofdref || holds || so.inpSockref || so.sqComp) := by
  have hnofd := and_of_refBits h.word (f := ssNofdref) (by decide)
  have hproto := and_of_refBits h.word (f := ssProtoref) (by decide)
  unfold PairSocket.sohasrefs
  rw [hnofd, hproto, h.count]
  cases nofdref <;> cases holds <;> cases so.inpSockref <;> cases so.sqComp <;> decide

end Counted

def holds : Bool :=
  s.accept ≠ .waiting && s.close m ≠ .returned

def noFdref : Bool :=
  m = .client || s.accept = .waiting || s.accept = .taken || s.close m = .returned

def ended : Bool :=
  s.close m = .closed || s.close m = .returned

structure Sound (s : SocketPair) : Prop where
  counted : ∀ m, Counted (s.noFdref m) (s.holds m) (s.ended m) (s.so m)
  client : (s.so .client).sqIncomp = false ∧ (s.so .client).sqComp = false
  server : (s.so .server).sqComp = true → (s.so .server).sqIncomp = false
  queue : s.queued = true → s.accept = .waiting
  called : ∀ m, s.close m ≠ .before → s.accept = .failed ∨ s.accept = .returned
  gone : s.accept = .waiting → s.queued = false → ∀ m, (s.so m).inpDropped = true

variable {s : SocketPair} {m : PassiveRole}

theorem role_cases (m m' : PassiveRole) : m' = m ∨ m' = m.peer := by
  cases m <;> cases m' <;> decide

theorem Sound.sohasrefs_eq (h : s.Sound) (m : PassiveRole) :
    (s.so m).sohasrefs = (s.holds m || (s.so m).inpSockref || (s.so m).sqComp) := by
  rw [(h.counted m).sohasrefs_eq]
  have hcalled := h.called m
  unfold noFdref holds
  cases m <;> cases s.accept <;> cases hc : s.close _ <;> simp_all

theorem Sound.kept_eq (h : s.Sound) : s.kept =
    (s.holds .server || (s.so .server).inpSockref ||
      (s.holds .client || (s.so .client).inpSockref) || s.queued) := by
  rw [kept, h.sohasrefs_eq, h.sohasrefs_eq, h.client.2, queued]
  grind

variable {f : PairSocket → PairSocket} {s' : SocketPair}

/-- One of the sockets changes, and its call of `soclose` goes on. -/
theorem Sound.update (h : s.Sound) (haccept : s'.accept = s.accept)
    (hclose : s'.close m.peer = s.close m.peer) (hpeer : s'.so m.peer = s.so m.peer)
    (hcounted : Counted (s'.noFdref m) (s'.holds m) (s'.ended m) (s'.so m))
    (hcalled : s'.close m ≠ .before → s.accept = .failed ∨ s.accept = .returned)
    (hqueued : s'.queued = s.queued)
    (hclient : (s'.so .client).sqIncomp = false ∧ (s'.so .client).sqComp = false)
    (hserver : (s'.so .server).sqComp = true → (s'.so .server).sqIncomp = false)
    (hdropped : (s.so m).inpDropped = true → (s'.so m).inpDropped = true) : s'.Sound where
  counted m' := by
    rcases role_cases m m' with rfl | rfl
    · exact hcounted
    · have hc := h.counted m.peer
      unfold noFdref holds ended at hc ⊢
      rwa [haccept, hclose, hpeer]
  client := hclient
  server := hserver
  queue hq := by rw [haccept]; exact h.queue (hqueued.symm.trans hq)
  called m' := by
    rw [haccept]
    rcases role_cases m m' with rfl | rfl
    · exact hcalled
    · rw [hclose]
      exact h.called m.peer
  gone hw hq m' := by
    have hgone := h.gone (haccept.symm.trans hw) (hqueued.symm.trans hq)
    rcases role_cases m m' with rfl | rfl
    · exact hdropped (hgone m')
    · rw [hpeer]
      exact hgone m.peer

theorem peer_ne (m : PassiveRole) : m.peer ≠ m := by cases m <;> decide

section

variable (s : SocketPair) (m : PassiveRole)

@[simp] theorem modify_self (f : PairSocket → PairSocket) :
    (s.modify m f).so m = f (s.so m) := Function.update_self ..

@[simp] theorem modify_peer (f : PairSocket → PairSocket) :
    (s.modify m f).so m.peer = s.so m.peer := Function.update_of_ne (peer_ne m) _ _

@[simp] theorem modify_modify (f g : PairSocket → PairSocket) :
    (s.modify m f).modify m g = s.modify m fun so => g (f so) := by
  simp [modify]

end

theorem modify_queues (hincomp : (f (s.so m)).sqIncomp = (s.so m).sqIncomp)
    (hcomp : (f (s.so m)).sqComp = (s.so m).sqComp) (m' : PassiveRole) :
    ((s.modify m f).so m').sqIncomp = (s.so m').sqIncomp ∧
      ((s.modify m f).so m').sqComp = (s.so m').sqComp := by
  rcases role_cases m m' with rfl | rfl
  · simpa using ⟨hincomp, hcomp⟩
  · simp

theorem Sound.modify (h : s.Sound) {f : PairSocket → PairSocket}
    (hcounted : Counted (s.noFdref m) (s.holds m) (s.ended m) (f (s.so m)))
    (hincomp : (f (s.so m)).sqIncomp = (s.so m).sqIncomp)
    (hcomp : (f (s.so m)).sqComp = (s.so m).sqComp)
    (hdropped : (s.so m).inpDropped = true → (f (s.so m)).inpDropped = true) :
    (s.modify m f).Sound := by
  have hsq := modify_queues (s := s) (m := m) hincomp hcomp
  refine h.update (m := m) rfl rfl (modify_peer s m f) ?_ (h.called m) ?_ ?_ ?_ ?_
  · rw [modify_self]
    exact hcounted
  · rw [queued, queued, (hsq .server).1, (hsq .server).2]
  · rw [(hsq .client).1, (hsq .client).2]
    exact h.client
  · rw [(hsq .server).1, (hsq .server).2]
    exact h.server
  · rw [modify_self]
    exact hdropped

/-- Sockets that nothing keeps have been disposed of. -/
structure Lives (s : SocketPair) : Prop where
  sound : s.Sound
  disposes : s.Disposes

theorem Disposes.of_eq (h : s.Disposes) (hkept : s'.kept = s.kept)
    (hdisposed : ∀ m, (s'.so m).disposed = (s.so m).disposed) : s'.Disposes := by
  intro m
  rw [hdisposed, hkept]
  exact h m

theorem Disposes.zero (h : s.Disposes) (hkept : s.kept = true) (m : PassiveRole) :
    (s.so m).disposed = 0 := by rw [h m, if_pos hkept]

theorem kept_role (s : SocketPair) (m : PassiveRole) :
    s.kept = ((s.so m).sohasrefs || (s.so m.peer).sohasrefs || s.queued) := by
  cases m
  · rfl
  · rw [kept, Bool.or_comm (s.so .server).sohasrefs]
    rfl

theorem sofree_eq (s : SocketPair) (m : PassiveRole) (hqueued : s.queued = false) :
    s.sofree m = if s.kept then s else { s with so := fun m => sofreeDispose (s.so m) } := by
  rw [kept_role s m, hqueued, Bool.or_false, sofree]
  split
  · rfl
  · refine congrArg (fun so => { s with so := so }) (funext fun m' => ?_)
    rcases role_cases m m' with rfl | rfl
    · exact (Function.update_of_ne (peer_ne m').symm _ _).trans (modify_self ..)
    · rw [Function.update_self, modify_peer]

/-- `sofree`, when the listening socket has not the pair. -/
theorem Sound.sofree (h : s.Sound) (hqueued : s.queued = false)
    (hzero : ∀ m, (s.so m).disposed = 0) (m : PassiveRole) : (s.sofree m).Lives := by
  obtain ⟨hincomp, hcomp⟩ := Bool.or_eq_false_iff.mp hqueued
  rw [sofree_eq s m hqueued]
  split
  · next hkept => exact ⟨h, fun m' => by rw [hzero, hkept]; rfl⟩
  · next hkept =>
    have hqueued' : queued { s with so := fun m => sofreeDispose (s.so m) } = false := hcomp
    refine ⟨⟨fun m' => ?_, ⟨rfl, h.client.2⟩, fun _ => rfl, fun hq => ?_, h.called,
      fun hw _ => h.gone hw hqueued⟩, fun m' => ?_⟩
    · exact { (h.counted m') with }
    · exact absurd (hqueued'.symm.trans hq) (by simp)
    · have hkept' : kept { s with so := fun m => sofreeDispose (s.so m) } = false := by
        rw [kept, hqueued', Bool.or_false]
        exact (Bool.or_eq_false_iff.mp (Bool.eq_false_of_not_eq_true hkept)).1
      rw [hkept']
      exact congrArg (· + 1) (hzero m')

def rest (s : SocketPair) : AcceptPc × (PassiveRole → SoclosePc) × Bool :=
  (s.accept, s.close, s.asserted)

section

variable (s : SocketPair) (m : PassiveRole)

theorem sofree_rest : (s.sofree m).rest = s.rest := by
  unfold sofree
  split <;> rfl

theorem tcpClose_rest : (s.tcpClose m).rest = s.rest := by
  unfold tcpClose
  dsimp only
  split
  · exact sofree_rest ..
  · rfl

theorem tcpUsrDisconnect_rest (how : TcpDisconnect) : (s.tcpUsrDisconnect m how).rest = s.rest := by
  unfold tcpUsrDisconnect
  split
  · rfl
  · cases how
    · exact tcpClose_rest s m
    · rfl
    · rfl

end

/-- A change that touches nothing that keeps the pair. -/
theorem Lives.modify (h : s.Lives) {f : PairSocket → PairSocket}
    (hcounted : Counted (s.noFdref m) (s.holds m) (s.ended m) (f (s.so m)))
    (hincomp : (f (s.so m)).sqIncomp = (s.so m).sqIncomp)
    (hcomp : (f (s.so m)).sqComp = (s.so m).sqComp)
    (hsockref : (f (s.so m)).inpSockref = (s.so m).inpSockref)
    (hdropped : (s.so m).inpDropped = true → (f (s.so m)).inpDropped = true)
    (hdisposed : (f (s.so m)).disposed = (s.so m).disposed) : (s.modify m f).Lives := by
  have hsound := h.sound.modify hcounted hincomp hcomp hdropped
  have hsq := modify_queues (s := s) (m := m) hincomp hcomp
  refine ⟨hsound, h.disposes.of_eq ?_ fun m' => ?_⟩
  · have hrefs (m' : PassiveRole) : ((s.modify m f).so m').sohasrefs = (s.so m').sohasrefs := by
      rw [hsound.sohasrefs_eq, h.sound.sohasrefs_eq, (hsq m').2]
      rcases role_cases m m' with rfl | rfl
      · rw [modify_self, hsockref]
        rfl
      · rw [modify_peer]
        rfl
    rw [kept, kept, hrefs, hrefs, queued, queued, (hsq .server).1, (hsq .server).2]
  · rcases role_cases m m' with rfl | rfl
    · simpa using hdisposed
    · simp

theorem Sound.not_queued (h : s.Sound) (hclose : s.close m ≠ .before) : s.queued = false := by
  by_contra hq
  have hwaiting := h.queue (by simpa using hq)
  rcases h.called m hclose with hpc | hpc
  · exact absurd (hwaiting.symm.trans hpc) (by decide)
  · exact absurd (hwaiting.symm.trans hpc) (by decide)

theorem Lives.tcpClose (h : s.Lives) (hdropped : (s.so m).inpDropped = false) :
    (s.tcpClose m).Lives := by
  have hc := h.sound.counted m
  unfold SocketPair.tcpClose
  dsimp only
  rw [modify_self, modify_modify]
  split
  · next hsockref =>
    have hsockref : (s.so m).inpSockref = true := hsockref
    have hended : s.ended m = true := (Bool.and_eq_true_iff.mp (hc.sockref.symm.trans hsockref)).1
    have hqueued : s.queued = false := by
      apply h.sound.not_queued (m := m)
      intro hbefore
      simp [ended, hbefore] at hended
    have hkept : s.kept = true := by
      rw [kept_role s m, h.sound.sohasrefs_eq, hsockref]
      simp
    have hsq := modify_queues (s := s) (m := m) (f := fun so => so.dropped.clearProtoref) rfl rfl
    refine (h.sound.modify hc.released rfl rfl fun _ => rfl).sofree ?_ (fun m' => ?_) m
    · rw [← hqueued, queued, queued, (hsq .server).1, (hsq .server).2]
    · rw [← h.disposes.zero hkept m']
      rcases role_cases m m' with rfl | rfl
      · rw [modify_self]
        rfl
      · rw [modify_peer]
  · next hsockref =>
    have hsockref : ¬ (s.so m).inpSockref = true := hsockref
    have hended : s.ended m = false := by simpa [hdropped, hsockref] using hc.sockref
    have hc' : Counted (s.noFdref m) (s.holds m) (s.ended m) (s.so m).dropped := by
      rw [hended] at hc ⊢
      exact hc.dropped
    exact h.modify hc' rfl rfl rfl (fun _ => rfl) rfl

theorem Lives.tcpUsrDisconnect (h : s.Lives) (m : PassiveRole) (how : TcpDisconnect) :
    (s.tcpUsrDisconnect m how).Lives := by
  have hc := h.sound.counted m
  unfold SocketPair.tcpUsrDisconnect
  split
  · exact h
  · next hdropped =>
    cases how with
    | drops => exact h.tcpClose (Bool.eq_false_of_not_eq_true hdropped)
    | begins => exact h.modify hc.disconnecting rfl rfl rfl id rfl
    | ends =>
      exact h.modify (f := fun so => so.soisdisconnecting.soisdisconnected)
        hc.disconnecting.disconnected rfl rfl rfl id rfl

/-- A step that leaves the pair kept, as it was. -/
theorem Lives.of_kept (h : s.Lives) (hkept : s.kept = true) (hsound : s'.Sound)
    (hkept' : s'.kept = true) (hdisposed : ∀ m, (s'.so m).disposed = (s.so m).disposed) :
    s'.Lives :=
  ⟨hsound, h.disposes.of_eq (hkept'.trans hkept.symm) hdisposed⟩

theorem Sound.kept_of_holds (h : s.Sound) (hholds : s.holds m = true) : s.kept = true := by
  rw [kept_role s m, h.sohasrefs_eq, hholds]
  rfl

theorem Sound.kept_of_queued (hqueued : s.queued = true) : s.kept = true := by
  rw [kept, hqueued, Bool.or_true]

theorem disposed_modify (hf : (f (s.so m)).disposed = (s.so m).disposed) (m' : PassiveRole) :
    ((s.modify m f).so m').disposed = (s.so m').disposed := by
  rcases role_cases m m' with rfl | rfl
  · rw [modify_self, hf]
  · rw [modify_peer]

theorem Lives.soisconnected (h : s.Lives) (m : PassiveRole) (filtered : Bool) :
    (s.modify m (PairSocket.soisconnected filtered)).Lives := by
  have hqueued : (s.modify m (PairSocket.soisconnected filtered)).queued = s.queued := by
    cases m
    · rw [queued, modify_self, queued, PairSocket.soisconnected]
      cases (s.so .server).sqIncomp <;> cases (s.so .server).sqComp <;> cases filtered <;> rfl
    · rfl
  have hsound : (s.modify m (PairSocket.soisconnected filtered)).Sound := by
    refine h.sound.update (m := m) rfl rfl (modify_peer ..) ?_ (h.sound.called m) hqueued ?_ ?_ ?_
    · rw [modify_self]
      exact (h.sound.counted m).connected filtered
    · cases m
      · exact h.sound.client
      · rw [modify_self, PairSocket.soisconnected, h.sound.client.1, h.sound.client.2]
        exact ⟨rfl, rfl⟩
    · have hserver := h.sound.server
      cases m
      · rw [modify_self, PairSocket.soisconnected]
        cases filtered
        · simp
        · simpa using hserver
      · exact hserver
    · rw [modify_self]
      exact id
  refine ⟨hsound, h.disposes.of_eq ?_ (disposed_modify rfl)⟩
  have hsockref (m' : PassiveRole) :
      ((s.modify m (PairSocket.soisconnected filtered)).so m').inpSockref =
        (s.so m').inpSockref := by
    rcases role_cases m m' with rfl | rfl
    · rw [modify_self, PairSocket.soisconnected]
    · rw [modify_peer]
  rw [hsound.kept_eq, h.sound.kept_eq, hsockref, hsockref, hqueued]
  rfl

theorem tcpUsrDisconnect_fields (s : SocketPair) (m : PassiveRole) (how : TcpDisconnect) :
    (s.tcpUsrDisconnect m how).accept = s.accept ∧ (s.tcpUsrDisconnect m how).close = s.close ∧
      (s.tcpUsrDisconnect m how).asserted = s.asserted := by
  have hrest := tcpUsrDisconnect_rest s m how
  exact ⟨congrArg Prod.fst hrest, congrArg (·.2.1) hrest, congrArg (·.2.2) hrest⟩

/-- One of the sockets changes while its call of `soclose` goes on. -/
def go (s : SocketPair) (m : PassiveRole) (f : PairSocket → PairSocket) (pc : SoclosePc)
    (asserted : Bool) : SocketPair :=
  { s.modify m f with close := Function.update s.close m pc, asserted := asserted }

section go

variable {f : PairSocket → PairSocket} {pc : SoclosePc} {b : Bool}

@[simp] theorem go_self : (s.go m f pc b).so m = f (s.so m) := modify_self ..

@[simp] theorem go_peer : (s.go m f pc b).so m.peer = s.so m.peer := modify_peer ..

@[simp] theorem go_close : (s.go m f pc b).close m = pc := Function.update_self ..

theorem Sound.go (h : s.Sound)
    (hcounted : Counted ((s.go m f pc b).noFdref m) ((s.go m f pc b).holds m)
      ((s.go m f pc b).ended m) (f (s.so m)))
    (hincomp : (f (s.so m)).sqIncomp = (s.so m).sqIncomp)
    (hcomp : (f (s.so m)).sqComp = (s.so m).sqComp)
    (hdropped : (f (s.so m)).inpDropped = (s.so m).inpDropped)
    (hcalled : s.accept = .failed ∨ s.accept = .returned) : (s.go m f pc b).Sound := by
  have hsq := modify_queues (s := s) (m := m) hincomp hcomp
  refine h.update (m := m) rfl (Function.update_of_ne (peer_ne m) _ _) go_peer ?_
    (fun _ => hcalled) ?_ ?_ ?_ ?_
  · rwa [go_self]
  · exact congrArg₂ (· || ·) (hsq .server).1 (hsq .server).2
  · exact ⟨(hsq .client).1.trans h.client.1, (hsq .client).2.trans h.client.2⟩
  · exact fun hcomp' => (hsq .server).1.trans (h.server ((hsq .server).2.symm.trans hcomp'))
  · rw [go_self, hdropped]
    exact id

end go

theorem Sound.holds_of_called (hcalled : s.accept = .failed ∨ s.accept = .returned)
    (hpc : s.close m ≠ .returned) : s.holds m = true := by
  rcases hcalled with haccept | haccept <;> simp [holds, haccept, hpc]

/-- The call is not over yet. -/
theorem Lives.go (h : s.Lives) {f : PairSocket → PairSocket} {pc : SoclosePc} {b : Bool}
    (hpc : s.close m ≠ .returned) (hpc' : pc ≠ .returned)
    (hcalled : s.accept = .failed ∨ s.accept = .returned)
    (hcounted : Counted (s.noFdref m) (s.holds m) ((s.go m f pc b).ended m) (f (s.so m)))
    (hincomp : (f (s.so m)).sqIncomp = (s.so m).sqIncomp)
    (hcomp : (f (s.so m)).sqComp = (s.so m).sqComp)
    (hdropped : (f (s.so m)).inpDropped = (s.so m).inpDropped)
    (hdisposed : (f (s.so m)).disposed = (s.so m).disposed) : (s.go m f pc b).Lives := by
  have hholds := Sound.holds_of_called hcalled hpc
  have hholds' : (s.go m f pc b).holds m = true :=
    Sound.holds_of_called hcalled (by rwa [go_close])
  have hnofd : (s.go m f pc b).noFdref m = s.noFdref m := by
    unfold noFdref
    rw [go_close, decide_eq_false hpc, decide_eq_false hpc']
    rfl
  have hsound : (s.go m f pc b).Sound := by
    refine h.sound.go ?_ hincomp hcomp hdropped hcalled
    rwa [hnofd, hholds', ← hholds]
  exact h.of_kept (h.sound.kept_of_holds hholds) hsound (hsound.kept_of_holds hholds')
    (disposed_modify hdisposed)

theorem Lives.soclose (h : s.Lives) (hmay : s.mayClose m = true) (how : TcpDisconnect) :
    (s.soclose m how).Lives := by
  have hbefore : s.close m = .before := by
    simpa using (Bool.and_eq_true_iff.mp hmay).1
  have hcalled : s.accept = .failed ∨ s.accept = .returned := by
    rcases Bool.or_eq_true_iff.mp (Bool.and_eq_true_iff.mp hmay).2 with hpc | hpc
    · exact .inr (by simpa using hpc)
    · exact .inl (by simpa using (Bool.and_eq_true_iff.mp hpc).1)
  have hgo (t : SocketPair) (ht : t.Lives) (haccept : t.accept = s.accept)
      (hclose : t.close = s.close) (b : Bool) :
      Lives { t with asserted := b, close := Function.update s.close m .drop } := by
    have hlives : (t.go m id .drop b).Lives := by
      refine ht.go ?_ (by decide) ?_ ?_ rfl rfl rfl rfl
      · rw [hclose, hbefore]
        decide
      · rwa [haccept]
      · have hended : (t.go m id .drop b).ended m = t.ended m := by
          rw [ended, ended, go_close, hclose, hbefore]
          rfl
        rw [hended]
        exact ht.sound.counted m
    rw [← hclose]
    simpa [SocketPair.go, SocketPair.modify] using hlives
  unfold SocketPair.soclose
  dsimp only
  split
  · obtain ⟨haccept, hclose, -⟩ := tcpUsrDisconnect_fields s m how
    exact hgo _ (h.tcpUsrDisconnect m how) haccept hclose _
  · exact hgo s h rfl rfl _

theorem Lives.soclosePru (h : s.Lives) (hpc : s.close m = .drop) (how : TcpDisconnect) :
    (s.soclosePru m how).Lives := by
  have ht := h.tcpUsrDisconnect m how
  obtain ⟨haccept, hclose, -⟩ := tcpUsrDisconnect_fields s m how
  unfold SocketPair.soclosePru tcpUsrClose
  generalize s.tcpUsrDisconnect m how = t at ht haccept hclose
  rw [← hclose] at hpc ⊢
  have hcounted := ht.sound.counted m
  rw [show t.ended m = false by simp [ended, hpc]] at hcounted
  refine ht.go (b := t.asserted) (f := fun so => if so.inpDropped then so else so.setProtoref)
    (by rw [hpc]; decide) (by decide) (ht.sound.called m (by rw [hpc]; decide)) ?_ ?_ ?_ ?_ ?_
  · rw [ended, go_close]
    exact hcounted.ends
  all_goals split <;> rfl

theorem Lives.socloseRele (h : s.Lives) (hpc : s.close m = .closed) : (s.socloseRele m).Lives := by
  have hcalled := h.sound.called m (by rw [hpc]; decide)
  have hholds := Sound.holds_of_called hcalled (by rw [hpc]; decide)
  have hcounted := h.sound.counted m
  rw [hholds, show s.ended m = true by simp [ended, hpc]] at hcounted
  generalize hs' : s.go m PairSocket.unref .returned
    (s.asserted && decide (0 < (s.so m).soCount)) = s'
  have hsound : s'.Sound := by
    subst hs'
    refine h.sound.go ?_ rfl rfl rfl hcalled
    rw [noFdref, holds, ended, go_close]
    simpa using hcounted.unref
  have hcount : (s'.so m).soCount = 0 := by
    subst hs'
    rw [go_self]
    exact hcounted.unref.count
  have hqueued : s'.queued = false :=
    hsound.not_queued (m := m) (by subst hs'; rw [go_close]; decide)
  have hzero (m' : PassiveRole) : (s'.so m').disposed = 0 := by
    subst hs'
    exact (disposed_modify rfl m').trans (h.disposes.zero (h.sound.kept_of_holds hholds) m')
  have hrele : s.socloseRele m = if (s'.so m).soCount = 0 then s'.sofree m else s' := by
    subst hs'
    rfl
  rw [hrele, if_pos hcount]
  exact hsound.sofree hqueued hzero m

/-- Before a socket is accepted nobody closes it. -/
theorem Sound.close_before (h : s.Sound) (hfailed : s.accept ≠ .failed)
    (hreturned : s.accept ≠ .returned) (m : PassiveRole) : s.close m = .before := by
  by_contra hclose
  rcases h.called m hclose with hpc | hpc
  · exact hfailed hpc
  · exact hreturned hpc

theorem Sound.counted_waiting (h : s.Sound) (hpc : s.accept = .waiting) (m : PassiveRole) :
    Counted true false false (s.so m) := by
  have hbefore := h.close_before (by rw [hpc]; decide) (by rw [hpc]; decide) m
  have hc := h.counted m
  unfold noFdref holds ended at hc
  rw [hpc, hbefore] at hc
  simpa using hc

theorem nbio_refBits (head : BitVec 16) :
    (w ||| (head &&& ssNbio)) &&& refBits = w &&& refBits := by
  rw [or_and_refBits, BitVec.and_assoc, show ssNbio &&& refBits = 0#16 by decide, BitVec.and_zero,
    BitVec.or_zero]

/-- `SO_PASSIVECLNT` does not fit. -/
theorem passiveclnt_refBits (head : BitVec 16) :
    (w.setWidth 32 ||| ((head &&& ssNbio).setWidth 32 ||| soPassiveclntBit)).setWidth 16 &&&
      refBits = w &&& refBits := by
  have hbit : soPassiveclntBit.setWidth 16 = 0#16 := by decide
  rw [BitVec.setWidth_or, BitVec.setWidth_or, hbit, BitVec.or_zero,
    BitVec.setWidth_setWidth_of_le _ (by decide),
    BitVec.setWidth_setWidth_of_le _ (by decide), BitVec.setWidth_eq, BitVec.setWidth_eq,
    nbio_refBits]

/-- The pair has left the queue and nobody has begun to close it. -/
theorem sound_accepted (hpc : s.accept ≠ .waiting) (hclose : ∀ m, s.close m = .before)
    (hqueued : s.queued = false)
    (hclient : (s.so .client).sqIncomp = false ∧ (s.so .client).sqComp = false)
    (hcounted : ∀ m, Counted (m = .client || s.accept = .taken) true false (s.so m)) :
    s.Sound ∧ s.kept = true := by
  have hholds (m : PassiveRole) : s.holds m = true := by simp [holds, hpc, hclose m]
  have hsound : s.Sound := by
    refine ⟨fun m => ?_, hclient, fun _ => (Bool.or_eq_false_iff.mp hqueued).1, fun hq => ?_,
      fun m hm => absurd (hclose m) hm, fun hw => absurd hw hpc⟩
    · have hnofd : s.noFdref m = (m = .client || s.accept = .taken) := by
        simp [noFdref, hpc, hclose m]
      have hended : s.ended m = false := by simp [ended, hclose m]
      rw [hnofd, hholds m, hended]
      exact hcounted m
    · exact absurd (hqueued.symm.trans hq) (by decide)
  exact ⟨hsound, hsound.kept_of_holds (hholds .server)⟩

theorem Lives.uinetSoaccept (h : s.Lives) (head : BitVec 16) (hpc : s.accept = .waiting)
    (hcomp : (s.so .server).sqComp = true) : (s.uinetSoaccept head).Lives := by
  have hbefore := h.sound.close_before (by rw [hpc]; decide) (by rw [hpc]; decide)
  have hkept : s.kept = true := Sound.kept_of_queued (by rw [queued, hcomp, Bool.or_true])
  have hqueued : (s.uinetSoaccept head).queued = false :=
    (Bool.or_false _).trans (h.sound.server hcomp)
  obtain ⟨hsound, hkept'⟩ : (s.uinetSoaccept head).Sound ∧ (s.uinetSoaccept head).kept = true := by
    refine sound_accepted AcceptPc.noConfusion hbefore hqueued h.sound.client fun m => ?_
    have hc := h.sound.counted_waiting hpc m
    cases m with
    | server =>
      exact ⟨(nbio_refBits head).trans hc.word, congrArg (· + 1) hc.count, hc.sockref⟩
    | client =>
      exact ⟨(passiveclnt_refBits head).trans hc.word, congrArg (· + 1) hc.count, hc.sockref⟩
  refine h.of_kept hkept hsound hkept' fun m => ?_
  cases m <;> rfl

theorem Counted.accepted {so : PairSocket} (h : Counted true true false so) :
    Counted false true false so.clearNofdref := by
  refine { h with word := ?_ }
  unfold PairSocket.clearNofdref
  dsimp only
  rw [andNot_and_refBits, h.word]
  cases so.inpSockref <;> decide

theorem Lives.soaccept (h : s.Lives) (hpc : s.accept = .taken) : s.soaccept.Lives := by
  have hbefore := h.sound.close_before (by rw [hpc]; decide) (by rw [hpc]; decide)
  have hcounted (m : PassiveRole) : Counted true true false (s.so m) := by
    have hc := h.sound.counted m
    unfold noFdref holds ended at hc
    rw [hpc, hbefore] at hc
    simpa using hc
  have hkept : s.kept = true :=
    h.sound.kept_of_holds (m := .server) (by simp [holds, hpc, hbefore])
  have hqueued : s.queued = false := by
    by_contra hq
    exact absurd (hpc.symm.trans (h.sound.queue (by simpa using hq))) (by decide)
  have hlives (pc : AcceptPc) (hwaiting : pc ≠ .waiting) (htaken : pc ≠ .taken) :
      Lives { s.modify .server PairSocket.clearNofdref with accept := pc } := by
    obtain ⟨hsound, hkept'⟩ :=
      sound_accepted (s := { s.modify .server PairSocket.clearNofdref with accept := pc }) hwaiting
        hbefore hqueued h.sound.client fun m => by
          rw [decide_eq_false htaken, Bool.or_false]
          cases m with
          | server => exact (hcounted .server).accepted
          | client => exact hcounted .client
    refine h.of_kept hkept hsound hkept' fun m => ?_
    cases m <;> rfl
  unfold SocketPair.soaccept
  dsimp only
  split
  · exact hlives .failed (by decide) (by decide)
  · exact hlives .returned (by decide) (by decide)

theorem modify_congr {g : PairSocket → PairSocket} (h : f (s.so m) = g (s.so m)) :
    s.modify m f = s.modify m g := by
  rw [SocketPair.modify, SocketPair.modify, h]

theorem tcpUsrAbort_eq (hsockref : (s.so m).inpSockref = false) :
    s.tcpUsrAbort m = s.modify m PairSocket.aborted := by
  unfold tcpUsrAbort tcpUsrDisconnect
  split
  · next hdropped =>
    refine modify_congr ?_
    rw [PairSocket.aborted, if_pos hdropped, if_pos hdropped]
  · next hdropped =>
    have hclose : s.tcpDisconnect m .drops = s.modify m PairSocket.dropped := by
      refine if_neg ?_
      rw [modify_self]
      exact Bool.eq_false_iff.mp hsockref
    rw [hclose, keepSocket, modify_modify]
    refine modify_congr ?_
    rw [PairSocket.aborted, if_neg hdropped]
    exact if_pos rfl

theorem Counted.aborted {so : PairSocket} (h : Counted true false false so) :
    Counted true false false so.aborted := by
  unfold PairSocket.aborted
  split
  · exact h
  · exact h.dropped

theorem aborted_dropped (so : PairSocket) : so.aborted.inpDropped = true := by
  unfold PairSocket.aborted
  split
  · next hdropped => exact hdropped
  · rfl

theorem aborted_queues (so : PairSocket) :
    so.aborted.sqIncomp = so.sqIncomp ∧ so.aborted.sqComp = so.sqComp ∧
      so.aborted.disposed = so.disposed := by
  unfold PairSocket.aborted
  split <;> exact ⟨rfl, rfl, rfl⟩

theorem Counted.abortable {so : PairSocket} (h : Counted true false false so) :
    so.abortable = true := by
  have hbit (f : BitVec 16) := and_of_refBits h.word (f := f)
  have hsockref : so.inpSockref = false := h.sockref
  unfold PairSocket.abortable
  rw [hbit ssProtoref (by decide), hbit ssNofdref (by decide), hbit sqCompBit (by decide),
    hbit sqIncompBit (by decide), h.count, hsockref]
  decide

/-- The assertions hold, and both connections are given up before `sofree`. -/
theorem Sound.abortQueued_eq (h : s.Sound) (hqueued : s.queued = true) :
    s.abortQueued = ((s.modify .server fun so => so.dequeued.aborted).modify .client
      PairSocket.aborted).sofree .server := by
  have hcounted := h.counted_waiting (h.queue hqueued)
  have hdequeued : Counted true false false (s.so .server).dequeued :=
    { (hcounted .server) with }
  have hasserted : ({ s.modify .server PairSocket.dequeued with
      asserted := s.asserted && (s.so .server).dequeued.abortable } : SocketPair) =
      s.modify .server PairSocket.dequeued := by
    rw [hdequeued.abortable, Bool.and_true]
    rfl
  have hrefs : (s.so .client).sohasrefs = false := by
    rw [(hcounted .client).sohasrefs_eq, (hcounted .client).sockref, h.client.2]
    rfl
  have hserver : (s.modify .server PairSocket.dequeued).tcpUsrAbort .server =
      s.modify .server fun so => so.dequeued.aborted := by
    have hsockref : ((s.modify .server PairSocket.dequeued).so .server).inpSockref = false := by
      rw [modify_self]
      exact hdequeued.sockref
    rw [tcpUsrAbort_eq hsockref, modify_modify]
  have hclient : (s.modify .server fun so => so.dequeued.aborted).tcpUsrAbort .client =
      (s.modify .server fun so => so.dequeued.aborted).modify .client PairSocket.aborted :=
    tcpUsrAbort_eq (hcounted .client).sockref
  unfold SocketPair.abortQueued SocketPair.soabort
  rw [modify_self, show (s.modify .server PairSocket.dequeued).asserted = s.asserted from rfl,
    hasserted, hserver, ← hclient]
  exact congrArg (fun t => SocketPair.sofree t .server) (if_neg (Bool.eq_false_iff.mp hrefs))

theorem Lives.abortQueued (h : s.Lives) (hqueued : s.queued = true) : s.abortQueued.Lives := by
  have hpc := h.sound.queue hqueued
  have hcounted := h.sound.counted_waiting hpc
  have hbefore := h.sound.close_before (by rw [hpc]; decide) (by rw [hpc]; decide)
  have hzero := h.disposes.zero (Sound.kept_of_queued hqueued)
  rw [h.sound.abortQueued_eq hqueued]
  generalize hs' : (s.modify .server fun so => so.dequeued.aborted).modify .client
    PairSocket.aborted = s'
  have haccept : s'.accept = .waiting := by subst hs'; exact hpc
  have hclose (m : PassiveRole) : s'.close m = .before := by subst hs'; exact hbefore m
  have hserver : s'.so .server = (s.so .server).dequeued.aborted := by subst hs'; rfl
  have hclient : s'.so .client = (s.so .client).aborted := by subst hs'; rfl
  obtain ⟨hincomp, hcomp, hdisposed⟩ := aborted_queues (s.so .server).dequeued
  obtain ⟨hincomp', hcomp', hdisposed'⟩ := aborted_queues (s.so .client)
  have hqueued' : s'.queued = false := by
    rw [queued, hserver, hincomp, hcomp]
    rfl
  have hsound : s'.Sound := by
    refine ⟨fun m => ?_, ?_, fun hc => ?_, fun hq => ?_, fun m hm => absurd (hclose m) hm,
      fun _ _ m => ?_⟩
    · have hc : Counted true false false (s'.so m) := by
        cases m with
        | server =>
          rw [hserver]
          exact Counted.aborted
            { (hcounted .server) with }
        | client =>
          rw [hclient]
          exact (hcounted .client).aborted
      unfold noFdref holds ended
      rw [haccept, hclose m]
      simpa using hc
    · rw [hclient, hincomp', hcomp']
      exact h.sound.client
    · rw [hserver, hcomp] at hc
      exact absurd hc Bool.false_ne_true
    · exact absurd (hqueued'.symm.trans hq) (by decide)
    · cases m with
      | server => rw [hserver, aborted_dropped]
      | client => rw [hclient, aborted_dropped]
  refine hsound.sofree hqueued' (fun m => ?_) .server
  cases m with
  | server => rw [hserver, hdisposed, ← hzero .server, PairSocket.dequeued]
  | client => rw [hclient, hdisposed', hzero]

section

variable {P : Prop} [Decidable P] {t : SocketPair} (h : s.Lives)
include h

theorem Lives.ite (ht : P → t.Lives) : (if P then t else s).Lives := by
  split
  · next hp => exact ht hp
  · exact h

theorem Lives.ite_not (ht : ¬ P → t.Lives) : (if P then s else t).Lives := by
  split
  · exact h
  · next hp => exact ht hp

end

theorem Lives.step (h : s.Lives) (head : BitVec 16) (e : PairEvent) : (s.step head e).Lives := by
  cases e with
  | soisconnected m filtered => exact h.ite_not fun _ => h.soisconnected m filtered
  | tcpClose m =>
    exact h.ite_not fun hdropped => h.tcpClose (Bool.eq_false_of_not_eq_true hdropped)
  | accept => exact h.ite fun hpc => h.uinetSoaccept head hpc.1 hpc.2
  | soaccept => exact h.ite fun hpc => h.soaccept hpc
  | soclose m how => exact h.ite fun hmay => h.soclose hmay how
  | soclosePru m how => exact h.ite fun hpc => h.soclosePru hpc how
  | socloseRele m => exact h.ite fun hpc => h.socloseRele hpc
  | closeListener => exact h.ite fun hqueued => h.abortQueued hqueued

/-- The assertion of `soclose` fails for the client's socket, and for no other. -/
theorem Sound.soclose_asserted (h : s.Sound) (hmay : s.mayClose m = true) (how : TcpDisconnect) :
    (s.soclose m how).asserted = (s.asserted && decide (m = .server)) := by
  have hword := and_of_refBits (h.counted m).word (f := ssNofdref) (by decide)
  have hclose : s.close m = .before := by simpa using (Bool.and_eq_true_iff.mp hmay).1
  have hpc := (Bool.and_eq_true_iff.mp hmay).2
  have hnofd : s.noFdref m = decide (m = .client) := by
    unfold noFdref
    cases haccept : s.accept <;> simp [haccept] at hpc <;> simp [hclose]
  have hbit : decide ((s.so m).soState &&& ssNofdref = 0) = decide (m = .server) := by
    rw [hword, hnofd]
    cases m <;> cases (s.so _).inpSockref <;> decide
  unfold SocketPair.soclose
  dsimp only
  rw [hbit]

theorem ite_asserted {P : Prop} [Decidable P] {t : SocketPair}
    (ht : P → t.asserted = s.asserted) : (if P then t else s).asserted = s.asserted := by
  split
  · next hp => exact ht hp
  · rfl

theorem soaccept_asserted (s : SocketPair) : s.soaccept.asserted = s.asserted := by
  unfold SocketPair.soaccept
  dsimp only
  split <;> rfl

/-- `sorele` finds the reference. -/
theorem Sound.socloseRele_asserted (h : s.Sound) (hpc : s.close m = .closed) :
    (s.socloseRele m).asserted = s.asserted := by
  have hholds := Sound.holds_of_called (h.called m (by rw [hpc]; decide)) (by rw [hpc]; decide)
  have hcount : 0 < (s.so m).soCount := by
    rw [(h.counted m).count, hholds]
    decide
  unfold SocketPair.socloseRele
  dsimp only
  rw [decide_eq_true hcount, Bool.and_true]
  split
  · exact congrArg (·.2.2) (sofree_rest _ m)
  · rfl

/-- No other step fails one. -/
theorem Lives.step_asserted (h : s.Lives) (head : BitVec 16) (e : PairEvent) :
    (s.step head e).asserted = true ↔ s.asserted = true ∧ s.ServerOnly e := by
  have hquiet (he : ∀ how, e ≠ .soclose .client how)
      (hasserted : (s.step head e).asserted = s.asserted) :
      (s.step head e).asserted = true ↔ s.asserted = true ∧ s.ServerOnly e := by
    rw [hasserted, iff_self_and]
    exact fun _ how hhow => absurd hhow (he how)
  cases e with
  | soisconnected m filtered =>
    refine hquiet (fun _ => PairEvent.noConfusion) ?_
    unfold SocketPair.step
    dsimp only
    split <;> rfl
  | tcpClose m =>
    refine hquiet (fun _ => PairEvent.noConfusion) ?_
    unfold SocketPair.step
    dsimp only
    split
    · rfl
    · exact congrArg (·.2.2) (tcpClose_rest s m)
  | accept => exact hquiet (fun _ => PairEvent.noConfusion) (ite_asserted fun _ => rfl)
  | soaccept =>
    exact hquiet (fun _ => PairEvent.noConfusion) (ite_asserted fun _ => soaccept_asserted s)
  | soclose m how =>
    unfold SocketPair.step
    dsimp only
    split
    · next hmay =>
      rw [h.sound.soclose_asserted hmay, Bool.and_eq_true_iff, decide_eq_true_iff]
      refine and_congr_right fun _ => ⟨?_, fun hserver => ?_⟩
      · rintro rfl how' hhow
        cases hhow
      · cases m
        · rfl
        · exact absurd (hmay.symm.trans (hserver how rfl)) (by decide)
    · next hmay =>
      rw [iff_self_and]
      intro _ how' hhow
      cases hhow
      exact Bool.eq_false_of_not_eq_true hmay
  | soclosePru m how =>
    exact hquiet (fun _ => PairEvent.noConfusion)
      (ite_asserted fun _ => (tcpUsrDisconnect_fields s m how).2.2)
  | socloseRele m =>
    exact hquiet (fun _ => PairEvent.noConfusion)
      (ite_asserted fun hpc => h.sound.socloseRele_asserted hpc)
  | closeListener =>
    refine hquiet (fun _ => PairEvent.noConfusion) (ite_asserted fun hqueued => ?_)
    rw [h.sound.abortQueued_eq hqueued]
    exact congrArg (·.2.2) (sofree_rest _ .server)

theorem lives_start (head : BitVec 16) (hhead : head &&& refBits = 0#16) : (start head).Lives := by
  have hserver : (head ||| ssNofdref) &&& refBits = refWord true false := by
    rw [or_and_refBits, hhead]
    decide
  have hclient : (head ||| ssNofdref ||| ssIsconnecting) &&& refBits = refWord true false := by
    rw [or_and_refBits, hserver]
    decide
  have hsound : (start head).Sound := by
    refine ⟨fun m => ⟨?_, ?_, ?_⟩, ⟨rfl, rfl⟩, fun hc => Bool.noConfusion hc, fun _ => rfl,
      fun m hm => absurd rfl hm, fun _ hq => Bool.noConfusion hq⟩
    · cases m with
      | server => exact hserver
      | client => exact hclient
    · cases m <;> rfl
    · cases m <;> rfl
  refine ⟨hsound, fun m => ?_⟩
  rw [Sound.kept_of_queued (s := start head) rfl]
  cases m <;> rfl

/-- Over every order of accepting the pair, closing its sockets, letting them go and closing the
listening socket, the two are disposed of together, once, with the step that takes away the last
that kept them, and not before.  The assertions of `soclose` and `soabort` hold at every call if
and only if `soclose` is never called on the client's socket, neither by the application nor by
`uinet_soaccept`. -/
theorem passivePair_lifecycle (head : BitVec 16) (hhead : head &&& refBits = 0)
    (events : List PairEvent) :
    (run (step head) (start head) events).Disposes ∧
      ((run (step head) (start head) events).asserted = true ↔
        Along (step head) ServerOnly (start head) events) := by
  have hstart := lives_start head hhead
  have hrun := run_preserves (fun _ e h => h.step head e) hstart events
  refine ⟨hrun.disposes, ?_⟩
  rw [run_iff_along (I := Lives) (J := fun s => s.asserted = true) (fun _ e h => h.step head e)
    (fun _ e h => h.step_asserted head e) hstart events]
  exact and_iff_right rfl

def acceptedClosed : List PairEvent :=
  [.soisconnected .client false, .soisconnected .server false, .accept, .soaccept,
    .soclose .server .begins, .soclose .client .begins]

/-- The connection is reset before it is accepted, and `uinet_soaccept` fails. -/
def resetAccepted : List PairEvent :=
  [.soisconnected .server false, .tcpClose .server, .accept, .soaccept, .soclose .client .begins]

/-- Both times `soclose` finds `SS_NOFDREF` set on the client's socket. -/
theorem soclose_client_asserts :
    (run (step 0) (start 0) acceptedClosed).asserted = false ∧
      (run (step 0) (start 0) resetAccepted).asserted = false := by
  decide

/-- A pair that goes with the listening socket. -/
theorem passivePair_lifecycle_aborted :
    let s := run (step ssNbio) (start ssNbio) [.soisconnected .server false, .closeListener]
    (s.so .server).disposed = 1 ∧ s.Disposes ∧ s.asserted = true := by
  have hlife := passivePair_lifecycle ssNbio (by decide)
    [.soisconnected .server false, .closeListener]
  refine ⟨by decide, hlife.1, hlife.2.mpr ?_⟩
  exact ⟨fun _ => PairEvent.noConfusion, fun _ => PairEvent.noConfusion, trivial⟩

end SocketPair

end Libuinet
