import Libuinet.LockOrder
import Libuinet.PassiveMirror
import Libuinet.TcpPassive

namespace Libuinet

open Execution

section

variable {e : TcpEnv} {sc : Syncache} {lso : ListenSocket}

theorem syncacheSocket_inpPassive {tp : Tcpcb} (h : syncacheSocket e sc lso = some tp) :
    tp.inpPassive = sc.scfPassive := by
  obtain ⟨tp₀, hnew, rfl⟩ := Option.map_eq_some_iff.mp h
  have hinit : (serverSeqinit sc tp₀).inpPassive = sc.scfPassive := (sonewconn_fresh hnew).1
  have hopt := syncacheOptions_frozen e sc (serverSeqinit sc tp₀)
  dsimp only
  split_ifs
  · exact (hopt _ _ _ _).inpPassive.trans hinit
  · exact (hopt _ _ _ _).inpPassive.trans hinit

theorem syncachePassiveClientSocket_inpPassive {opt : TcpOpt} {r : TcpResult}
    (h : syncachePassiveClientSocket e sc lso opt = some r) : r.tp.inpPassive = lso.soPassive := by
  obtain ⟨tp₀, hnew, rfl⟩ := Option.map_eq_some_iff.mp h
  have hinit : (clientSeqinit sc tp₀).inpPassive = lso.soPassive := (sonewconn_fresh hnew).1
  have hopt := syncacheOptions_frozen e sc (clientSeqinit sc tp₀)
  have hseg (tp : Tcpcb) := tcpDoSegment_frozen e tp (syncacheSynthesizeSynack e sc)
  exact (hseg _).inpPassive.trans ((hopt _ _ _ _).inpPassive.trans hinit)

end

def TcpSocket.Passive (so : TcpSocket) : Prop := so.soPassive = true ∧ so.tp.inpPassive = true

/-- The socket of a connection of our own. -/
structure TcpSocket.Active (so : TcpSocket) : Prop where
  soPassive : so.soPassive = false
  inpPassive : so.tp.inpPassive = false
  soPassivePeer : so.soPassivePeer = none

/-- When `syncache_socket` succeeds for a passive entry, the two new sockets are each
other's peers, and both are passive exactly when the listening socket is; for any other
entry the new socket is an ordinary one. -/
theorem syncacheSocket_passive_iff (e : ExpandEnv) (s s' : TcpStack) (lso : Listener)
    (sc : SyncacheEntry) (m : FrameMbuf) (opt : TcpOpt) (server : SoId)
    (h : s.syncacheSocket e lso sc m opt = .ok (some server, s')) :
    (sc.scfPassive = true → ∃ client, (s'.so server).soPassivePeer = some client ∧
      (s'.so client).soPassivePeer = some server ∧
      ((s'.so server).Passive ∧ (s'.so client).Passive ↔ lso.soPassive = true)) ∧
    (sc.scfPassive = false → (s'.so server).Active) := by
  constructor
  · intro hpassive
    obtain ⟨client, r, tp, hpair⟩ := TcpStack.syncacheSocket_pair hpassive h
    have hserver := syncacheSocket_inpPassive hpair.serverTcp
    have hclient := syncachePassiveClientSocket_inpPassive hpair.clientTcp
    refine ⟨client, by rw [hpair.serverSo], by rw [hpair.clientSo], ?_⟩
    rw [hpair.serverSo, hpair.clientSo]
    constructor
    · rintro ⟨-, hso, -⟩
      exact hso
    · intro hlso
      exact ⟨⟨hpassive, hserver.trans hpassive⟩, ⟨hlso, hclient.trans hlso⟩⟩
  · intro hactive
    obtain ⟨tp, htp, hso⟩ := TcpStack.syncacheSocket_single hactive h
    have hinp := syncacheSocket_inpPassive htp
    rw [hso]
    exact ⟨rfl, hinp.trans hactive, rfl⟩

def entry80 : SyncacheEntry where
  scIrs := 1000
  scIss := 7000
  scWnd := 8192
  scInc := conn80
  scFib := 0

/-- At a passive listener. -/
theorem syncacheSocket_passive_conn80 :
    ∃ s', (stackOf emptySyncache).syncacheSocket {} {} entry80 (taggedFrame .empty) {} =
        .ok (some 1, s') ∧ (s'.so 1).Passive ∧ (s'.so 0).Passive := by
  have hexp : expandsTo ((stackOf emptySyncache).syncacheSocket {} {} entry80
      (taggedFrame .empty) {}) (fun _ => true) = true := by decide +kernel
  obtain ⟨s', hs', hpeer, -⟩ := exists_of_expandsTo hexp
  refine ⟨s', hs', ?_⟩
  obtain ⟨client, hclient, -, hiff⟩ := (syncacheSocket_passive_iff _ _ _ _ _ _ _ _ hs').1 rfl
  obtain rfl : 0 = client := Option.some.inj (hpeer.symm.trans hclient)
  exact hiff.2 rfl

/-- A SYN that a filter admits as passive, at a listener that is not. -/
def filteredSyn : List SynOp :=
  [.add { callback := fun arg => (.acceptPassive, arg) } { promisc := true, synfilter := true }
    { inc := conn80, th := { thSeq := 1000 }, m := taggedFrame .empty }]

/-- Its client's socket is not passive. -/
theorem syncacheSocket_filtered_not_passive :
    ∃ s', (stackOf (run synStep emptySyncache filteredSyn)).syncacheExpand {}
        { soPassive := false, soPromisc := true } (ackOf conn80) = .ok (some 1, s') ∧
      ((run synStep emptySyncache filteredSyn).sc 0).scfPassive = true ∧
      (s'.so 1).soPassivePeer = some 0 ∧ (s'.so 0).soPassive = false ∧
      (s'.so 0).tp.inpPassive = false := by
  have hexp : expandsTo ((stackOf (run synStep emptySyncache filteredSyn)).syncacheExpand {}
      { soPassive := false, soPromisc := true } (ackOf conn80)) (fun s =>
        (s.so 0).soPassive = false ∧ (s.so 0).tp.inpPassive = false) = true := by decide +kernel
  obtain ⟨s', hs', hpeer, hp⟩ := exists_of_expandsTo hexp
  exact ⟨s', hs', by decide +kernel, hpeer, of_decide_eq_true hp⟩

def soPassiveclntBit : BitVec 32 := 0x00040000

/-- `SS_ISCONNECTED`, `SS_ISCONNECTING`, `SS_ISDISCONNECTING`, `SS_ISCONFIRMING`,
`SS_ISDISCONNECTED` and `SS_PROTOREF`. -/
def ssIsconnected : BitVec 16 := 0x0002
def ssIsconnecting : BitVec 16 := 0x0004
def ssIsdisconnecting : BitVec 16 := 0x0008
def ssIsconfirming : BitVec 16 := 0x0400
def ssIsdisconnected : BitVec 16 := 0x2000
def ssProtoref : BitVec 16 := 0x4000

def econnaborted : Errno := .other 53

def TcpSocket.sohasrefs (so : TcpSocket) : Bool :=
  so.soState &&& ssNofdref = 0 || so.soCount ≠ 0 || so.soState &&& ssProtoref ≠ 0 || so.sqComp

namespace TcpStack

variable (s : TcpStack) (id : SoId)

def modifySo (f : TcpSocket → TcpSocket) : TcpStack :=
  { s with so := Function.update s.so id (f (s.so id)) }

/-- `sofree_dequeue` and `sofree_dispose`; the storage of the socket has no peer when it
is used again. -/
def dispose : TcpStack :=
  { s.modifySo id ({ · with sqIncomp := false, soPassivePeer := none }) with
    tcbinfo := inPcbremlists s.tcbinfo id }

def sofree : TcpStack :=
  match (s.so id).soPassivePeer with
  | some peer =>
    -- the two of a pair are kept as long as either is in use
    if (s.so id).sohasrefs || (s.so peer).sohasrefs then s else (s.dispose id).dispose peer
  | none => if (s.so id).sohasrefs then s else s.dispose id

def soisconnected : TcpStack :=
  s.modifySo id fun so =>
    { so with
      soState := so.soState &&& ~~~(ssIsconnecting ||| ssIsdisconnecting ||| ssIsconfirming) |||
        ssIsconnected
      sqIncomp := false
      sqComp := so.sqComp || so.sqIncomp }

def tcpClose : TcpStack :=
  let s := { s with tcbinfo := inPcbdrop s.tcbinfo id }
  let s := s.modifySo id fun so =>
    { so with
      soState := so.soState &&& ~~~(ssIsconnecting ||| ssIsconnected ||| ssIsdisconnecting) |||
        ssIsdisconnected }
  -- only the protocol still held the socket
  if (s.so id).soState &&& ssProtoref ≠ 0 then
    (s.modifySo id fun so => { so with soState := so.soState &&& ~~~ssProtoref }).sofree id
  else s

def tcpDrop (errno : Errno) : TcpStack :=
  let dropped (tp : Tcpcb) : Tcpcb :=
    { tp with
      tState := if tp.tState.haveEstablished || tp.tState = .synReceived then .closed else tp.tState
      soError := some errno }
  (s.modifySo id fun so => { so with tp := dropped so.tp }).tcpClose id

/-- `tcp_usr_close`; `drops` says whether `tcp_disconnect` gives the connection up. -/
def tcpUsrClose (drops : Bool) : TcpStack :=
  let s := if drops && !(s.tcbinfo.inpcb id).inpDropped then s.tcpClose id else s
  if (s.tcbinfo.inpcb id).inpDropped then s
  else s.modifySo id fun so => { so with soState := so.soState ||| ssProtoref }

def sorele (s : TcpStack) (id : SoId) : Except String TcpStack :=
  if (s.so id).soCount = 0 then .error "sorele"
  else
    let s := s.modifySo id fun so => { so with soCount := so.soCount - 1 }
    .ok (if (s.so id).soCount = 0 then s.sofree id else s)

def soclose (drops : Bool) : Except String TcpStack :=
  let s := s.tcpUsrClose id drops
  (s.modifySo id fun so => { so with soState := so.soState ||| ssNofdref }).sorele id

/-- What accepting does to the client's socket.  The state has 16 bits. -/
def acceptPeer (head : Listener) (so : TcpSocket) : TcpSocket :=
  { so with
    soCount := so.soCount + 1
    soState := (so.soState.setWidth 32 |||
      ((head.soState &&& ssNbio).setWidth 32 ||| soPassiveclntBit)).setWidth 16 }

/-- `uinet_soaccept`, when the socket is the first of the completed connections;
`aborted` says whether `tcp_usr_accept` fails. -/
def uinetSoaccept (head : Listener) (id : SoId) (aborted : Bool) : Except String TcpStack :=
  let s := s.modifySo id fun so =>
    { so with
      soCount := so.soCount + 1
      soState := so.soState ||| (head.soState &&& ssNbio)
      sqComp := false }
  let peer := (s.so id).soPassivePeer
  let accepted : Except String TcpStack :=
    if (s.so id).soPassive then
      match peer with
      | none => .error "uinet_soaccept: passive socket has no peer"
      | some peer => .ok (s.modifySo peer (acceptPeer head))
    else .ok s
  accepted >>= fun s =>
    let s := s.modifySo id fun so => { so with soState := so.soState &&& ~~~ssNofdref }
    if !aborted then .ok s
    else
      -- the connection was gone before it could be accepted
      (match peer with
        | some peer => s.soclose peer false
        | none => .ok s) >>= fun s => s.soclose id false

def converted (peertp : Tcpcb) (so : TcpSocket) : TcpSocket :=
  { so with
    soPassive := false
    soPassiveclnt := false
    tp := { so.tp with
      inpPassive := false
      sndUna := peertp.rcvNxt
      sndMax := peertp.rcvNxt
      sndNxt := peertp.rcvNxt
      tfRcvdTstmp := false } }

def inPassiveConvertToActive : Except String TcpStack :=
  match (s.so id).soPassivePeer with
  -- the peer is used without a check
  | none => .error "page fault"
  | some peer =>
    let tp := (s.so id).tp
    let peertp := (s.so peer).tp
    let s := (s.modifySo id (converted peertp)).modifySo peer (converted tp)
    .ok (s.tcpDrop peer econnaborted)

end TcpStack

/-- What happens to the sockets of passive connections.  Segments and timers call
`tcp_close`; sending on a passive connection converts it. -/
inductive PairOp where
  | expand (e : ExpandEnv) (lso : Listener) (a : AckArgs)
  | connected (id : SoId)
  | accept (head : Listener) (id : SoId) (aborted : Bool)
  | close (id : SoId) (drops : Bool)
  | dropped (id : SoId)
  | send (id : SoId)

def pairStep (r : Except String TcpStack) (op : PairOp) : Except String TcpStack :=
  r >>= fun s =>
    match op with
    | .expand e lso a => (s.syncacheExpand e lso a).map Prod.snd
    | .connected id => .ok (s.soisconnected id)
    | .accept head id aborted =>
      if (s.so id).sqComp then s.uinetSoaccept head id aborted else .ok s
    | .close id drops => s.soclose id drops
    | .dropped id => .ok (s.tcpClose id)
    | .send id => if (s.so id).tp.inpPassive then s.inPassiveConvertToActive id else .ok s

variable (s : TcpStack)

def TcpStack.inPassiveOrderedSocks (so : SoId) : Option SoId × Option SoId :=
  if (s.so so).soPassiveclnt then ((s.so so).soPassivePeer, some so)
  else (some so, (s.so so).soPassivePeer)

/-- Two sockets that are each other's peers. -/
structure TcpStack.Peers (s : TcpStack) (a b : SoId) : Prop where
  ne : a ≠ b
  left : (s.so a).soPassivePeer = some b
  right : (s.so b).soPassivePeer = some a

theorem TcpStack.Peers.order_left {s : TcpStack} {a b : SoId} (h : s.Peers a b) :
    s.inPassiveOrderedSocks a =
      if (s.so a).soPassiveclnt then (some b, some a) else (some a, some b) := by
  unfold inPassiveOrderedSocks
  rw [h.left]

theorem TcpStack.Peers.symm {s : TcpStack} {a b : SoId} (h : s.Peers a b) : s.Peers b a :=
  ⟨h.ne.symm, h.right, h.left⟩

/-- The locks that are taken around the two sockets of a pair. -/
inductive PairLock where
  | accept
  | tcbinfo
  | inp (id : SoId)
  | sock (id : SoId)
  deriving DecidableEq

/-- The two locks of `in_passive_acquire_sock_locks` or `in_passive_acquire_locks`. -/
def TcpStack.acquireBoth (lock : SoId → PairLock) (so : SoId) : List PairLock :=
  let (primary, secondary) := s.inPassiveOrderedSocks so
  [primary, secondary].reduceOption.map lock

def TcpStack.closeLocks (so : SoId) : List PairLock :=
  .accept :: s.acquireBoth .sock so

def TcpStack.convertLocks (so : SoId) : List PairLock :=
  .tcbinfo :: (s.acquireBoth .inp so ++ s.acquireBoth .sock so)

/-- One thread closes the first socket while another sends on the second. -/
def TcpStack.twoThreads (a b : SoId) : Bool → List PairLock
  | false => s.closeLocks a
  | true => s.convertLocks b

section

variable {p q : SoId} (hpq : p ≠ q) {plan : Bool → List PairLock}
  (hclose : plan false = [.accept, .sock p, .sock q])
include hpq hclose

/-- Both threads begin with the same socket. -/
theorem deadlockFree_of_same (hconvert : plan true = [.tcbinfo, .inp p, .inp q, .sock p, .sock q]) :
    LockOrder.DeadlockFree plan := by
  let rank : PairLock → ℕ
    | .accept => 0
    | .tcbinfo => 1
    | .inp id => if id = p then 2 else 3
    | .sock id => if id = p then 4 else 5
  apply LockOrder.deadlockFree_of_sorted rank
  intro thread
  cases thread with
  | false => simp [hclose, rank, hpq.symm]
  | true => simp [hconvert, rank, hpq.symm]

/-- They begin with different ones: each takes its first socket and waits for the other. -/
theorem not_deadlockFree_of_opposite
    (hconvert : plan true = [.tcbinfo, .inp q, .inp p, .sock q, .sock p]) :
    ¬ LockOrder.DeadlockFree plan := by
  intro hfree
  let closing := Function.update (LockOrder.start : LockOrder.Progress Bool) false (some 2)
  have hfirst : Relation.ReflTransGen (LockOrder.Step plan) LockOrder.start closing := by
    apply LockOrder.reaches_taken
    · rfl
    · simp [hclose, hpq]
    · simp [hclose]
    · intro l _ j _
      cases j <;> simp [LockOrder.held, LockOrder.start]
  have hsecond : Relation.ReflTransGen (LockOrder.Step plan) closing
      (Function.update closing true (some 4)) := by
    apply LockOrder.reaches_taken
    · rfl
    · simp [hconvert, hpq.symm]
    · simp [hconvert]
    · intro l hl j hj
      cases j with
      | false =>
        simp only [hconvert, List.take_succ_cons, List.take_zero, List.mem_cons,
          List.not_mem_nil, or_false] at hl
        rcases hl with rfl | rfl | rfl | rfl <;> simp [LockOrder.held, closing, hclose, hpq.symm]
      | true => exact absurd rfl hj
  apply hfree _ (hfirst.trans hsecond)
  apply LockOrder.deadlock_of_blocked ⟨true, by simp⟩
  intro thread n hn
  cases thread with
  | false =>
    obtain rfl : 2 = n := by simpa [closing] using hn
    exact ⟨.sock q, by simp [hclose], true, by simp [LockOrder.held, hconvert]⟩
  | true =>
    obtain rfl : 4 = n := by simpa using hn
    exact ⟨.sock p, by simp [hconvert], false, by simp [LockOrder.held, closing, hclose]⟩

end

theorem acquireBoth_eq {s : TcpStack} {a b : SoId} (h : s.Peers a b) (lock : SoId → PairLock) :
    s.acquireBoth lock a =
      if (s.so a).soPassiveclnt then [lock b, lock a] else [lock a, lock b] := by
  unfold TcpStack.acquireBoth
  rw [h.order_left]
  cases (s.so a).soPassiveclnt <;> rfl

/-- The two sockets of a pair come in one order, whichever of them is asked, and two
threads that lock them through different members do not deadlock, exactly when
one of the two has `SO_PASSIVECLNT` among its options and the other has not. -/
theorem inPassiveOrderedSocks_consistent_iff (s : TcpStack) (a b : SoId) (h : s.Peers a b) :
    s.inPassiveOrderedSocks a = s.inPassiveOrderedSocks b ∧
        LockOrder.DeadlockFree (s.twoThreads a b) ↔
      (s.so a).soPassiveclnt ≠ (s.so b).soPassiveclnt := by
  have hab (lock : SoId → PairLock) := acquireBoth_eq h lock
  have hba (lock : SoId → PairLock) := acquireBoth_eq h.symm lock
  rw [h.order_left, h.symm.order_left]
  constructor
  · rintro ⟨horder, -⟩ heq
    rw [heq] at horder
    split at horder <;> simp [h.ne, h.ne.symm] at horder
  · intro hne
    cases ha : (s.so a).soPassiveclnt <;> cases hb : (s.so b).soPassiveclnt
    · exact absurd (ha.trans hb.symm) hne
    · refine ⟨rfl, deadlockFree_of_same h.ne ?_ ?_⟩
      · simp [TcpStack.twoThreads, TcpStack.closeLocks, hab, ha]
      · simp [TcpStack.twoThreads, TcpStack.convertLocks, hba, hb]
    · refine ⟨rfl, deadlockFree_of_same h.ne.symm ?_ ?_⟩
      · simp [TcpStack.twoThreads, TcpStack.closeLocks, hab, ha]
      · simp [TcpStack.twoThreads, TcpStack.convertLocks, hba, hb]
    · exact absurd (ha.trans hb.symm) hne

def markedPair : TcpStack :=
  { stackOf emptySyncache with
    so := fun id =>
      { soPassiveclnt := id = 0
        soPassivePeer := if id = 0 then some 1 else some 0
        tp := { rcvNxt := 0, soRcv := Sockbuf.empty } } }

/-- With the mark on one of the two sockets, locking is safe. -/
theorem inPassiveOrderedSocks_consistent_marked :
    markedPair.inPassiveOrderedSocks 0 = markedPair.inPassiveOrderedSocks 1 ∧
      LockOrder.DeadlockFree (markedPair.twoThreads 0 1) :=
  (inPassiveOrderedSocks_consistent_iff markedPair 0 1 ⟨by decide, rfl, rfl⟩).2 (by decide)

/-- No socket is marked as the client of a pair, and peers are each other's peers. -/
structure TcpStack.Unmarked (s : TcpStack) : Prop where
  clnt : ∀ id, (s.so id).soPassiveclnt = false
  fresh : ∀ a b, (s.so a).soPassivePeer = some b → a < s.nextSo
  peers : ∀ a b, (s.so a).soPassivePeer = some b → s.Peers a b

namespace TcpStack.Unmarked

variable {s : TcpStack}

/-- Changes that leave the pairs as they are. -/
theorem of_eq (h : s.Unmarked) {s' : TcpStack}
    (hpeer : ∀ id, (s'.so id).soPassivePeer = (s.so id).soPassivePeer)
    (hclnt : ∀ id, (s'.so id).soPassiveclnt = false) (hnext : s.nextSo ≤ s'.nextSo) :
    s'.Unmarked := by
  refine ⟨hclnt, fun a b hab => ?_, fun a b hab => ?_⟩
  · rw [hpeer] at hab
    exact lt_of_lt_of_le (h.fresh a b hab) hnext
  · rw [hpeer] at hab
    have hp := h.peers a b hab
    exact ⟨hp.ne, (hpeer a).trans hp.left, (hpeer b).trans hp.right⟩

theorem clnt_modifySo (h : ∀ j, (s.so j).soPassiveclnt = false) (id : SoId)
    {f : TcpSocket → TcpSocket}
    (hclnt : ∀ so, so.soPassiveclnt = false → (f so).soPassiveclnt = false) (j : SoId) :
    ((s.modifySo id f).so j).soPassiveclnt = false := by
  by_cases hj : j = id
  · subst hj
    simpa [modifySo] using hclnt _ (h j)
  · simpa [modifySo, hj] using h j

theorem clnt_dispose (h : ∀ j, (s.so j).soPassiveclnt = false) (id j : SoId) :
    ((s.dispose id).so j).soPassiveclnt = false :=
  clnt_modifySo h id (f := ({ · with sqIncomp := false, soPassivePeer := none }))
    (fun _ hso => hso) j

section

variable (h : s.Unmarked)
include h

theorem modifySo (id : SoId) {f : TcpSocket → TcpSocket}
    (hpeer : ∀ so, (f so).soPassivePeer = so.soPassivePeer)
    (hclnt : ∀ so, so.soPassiveclnt = false → (f so).soPassiveclnt = false) :
    (s.modifySo id f).Unmarked := by
  apply h.of_eq
  · intro j
    by_cases hj : j = id
    · subst hj
      simp [TcpStack.modifySo, hpeer]
    · simp [TcpStack.modifySo, hj]
  · exact clnt_modifySo h.clnt id hclnt
  · exact le_refl _

theorem withTcbinfo (info : Inpcbinfo) : ({ s with tcbinfo := info } : TcpStack).Unmarked :=
  h.of_eq (fun _ => rfl) h.clnt (le_refl _)

theorem disposed {id : SoId} (hid : (s.so id).soPassivePeer = none) : (s.dispose id).Unmarked := by
  apply h.of_eq
  · intro j
    by_cases hj : j = id
    · subst hj
      simp [dispose, TcpStack.modifySo, hid]
    · simp [dispose, TcpStack.modifySo, hj]
  · exact clnt_dispose h.clnt id
  · exact le_refl _

/-- Both sockets of a pair go at once. -/
theorem disposedPair {a b : SoId} (hab : s.Peers a b) : ((s.dispose a).dispose b).Unmarked := by
  have hgone : ∀ j, j = a ∨ j = b →
      (((s.dispose a).dispose b).so j).soPassivePeer = none := by
    rintro j (rfl | rfl)
    · simp [dispose, TcpStack.modifySo, hab.ne]
    · simp [dispose, TcpStack.modifySo]
  have hkept : ∀ j, j ≠ a → j ≠ b → ((s.dispose a).dispose b).so j = s.so j := by
    intro j ha hb
    simp [dispose, TcpStack.modifySo, ha, hb]
  have hout {j k : SoId} (hj : (((s.dispose a).dispose b).so j).soPassivePeer = some k) :
      j ≠ a ∧ j ≠ b := by
    by_contra hin
    rw [hgone j (by tauto)] at hj
    cases hj
  refine ⟨fun j => ?_, fun j k hj => ?_, fun j k hj => ?_⟩
  · exact clnt_dispose (clnt_dispose h.clnt a) b j
  · rw [hkept j (hout hj).1 (hout hj).2] at hj
    exact h.fresh j k hj
  · obtain ⟨hja, hjb⟩ := hout hj
    rw [hkept j hja hjb] at hj
    have hjk := h.peers j k hj
    -- a peer of somebody else is none of the two either
    have hka : k ≠ a := by
      rintro rfl
      exact hjb (Option.some.inj (hjk.right.symm.trans hab.left))
    have hkb : k ≠ b := by
      rintro rfl
      exact hja (Option.some.inj (hjk.right.symm.trans hab.right))
    refine ⟨hjk.ne, ?_, ?_⟩
    · rw [hkept j hja hjb, hj]
    · rw [hkept k hka hkb, hjk.right]

theorem freed (id : SoId) : (s.sofree id).Unmarked := by
  unfold sofree
  split
  · next peer hpeer =>
    split
    · exact h
    · exact h.disposedPair (h.peers id peer hpeer)
  · next hnone =>
    split
    · exact h
    · exact h.disposed hnone

theorem tcpClosed (id : SoId) : (s.tcpClose id).Unmarked := by
  unfold tcpClose
  extract_lets s₁ s₂
  have h₂ : s₂.Unmarked := (h.withTcbinfo _).modifySo id (fun _ => rfl) (fun _ hso => hso)
  split
  · apply freed
    exact h₂.modifySo id (fun _ => rfl) (fun _ hso => hso)
  · exact h₂

theorem tcpDropped (id : SoId) (errno : Errno) : (s.tcpDrop id errno).Unmarked := by
  apply tcpClosed
  exact h.modifySo id (fun _ => rfl) (fun _ hso => hso)

theorem usrClosed (id : SoId) (drops : Bool) : (s.tcpUsrClose id drops).Unmarked := by
  unfold tcpUsrClose
  extract_lets s₁
  have h₁ : s₁.Unmarked := by
    unfold s₁
    split
    · exact h.tcpClosed id
    · exact h
  split
  · exact h₁
  · exact h₁.modifySo id (fun _ => rfl) (fun _ hso => hso)

end

abbrev Kept (r : Except String TcpStack) : Prop := Outcome (fun _ => True) TcpStack.Unmarked r

theorem sorele (h : s.Unmarked) (id : SoId) : Kept (s.sorele id) := by
  unfold TcpStack.sorele
  split
  · trivial
  · have h₁ : (s.modifySo id fun so => { so with soCount := so.soCount - 1 }).Unmarked :=
      h.modifySo id (fun _ => rfl) (fun _ hso => hso)
    change TcpStack.Unmarked _
    split
    · exact h₁.freed id
    · exact h₁

theorem soclose (h : s.Unmarked) (id : SoId) (drops : Bool) : Kept (s.soclose id drops) := by
  apply sorele
  exact (h.usrClosed id drops).modifySo id (fun _ => rfl) (fun _ hso => hso)

theorem uinetSoaccept (h : s.Unmarked) (head : Listener) (id : SoId) (aborted : Bool) :
    Kept (s.uinetSoaccept head id aborted) := by
  unfold TcpStack.uinetSoaccept
  extract_lets s₁ peer accepted
  have h₁ : s₁.Unmarked := h.modifySo id (fun _ => rfl) (fun _ hso => hso)
  have hacc : Kept accepted := by
    unfold accepted
    split
    · cases peer with
      | none => trivial
      | some peer => exact h₁.modifySo peer (fun _ => rfl) (fun _ hso => hso)
    · exact h₁
  apply Outcome.bind hacc
  intro s₂ h₂
  have h₃ : (s₂.modifySo id fun so =>
      { so with soState := so.soState &&& ~~~ssNofdref }).Unmarked :=
    h₂.modifySo id (fun _ => rfl) (fun _ hso => hso)
  dsimp only
  split
  · exact h₃
  · -- the accept has failed and both sockets are closed
    cases peer with
    | none => exact h₃.soclose id false
    | some peer => exact Outcome.bind (h₃.soclose peer false) fun s₄ h₄ => h₄.soclose id false

theorem inPassiveConvertToActive (h : s.Unmarked) (id : SoId) :
    Kept (s.inPassiveConvertToActive id) := by
  unfold TcpStack.inPassiveConvertToActive
  split
  · trivial
  · next peer _ =>
    have h₁ := h.modifySo id (f := converted (s.so peer).tp) (fun _ => rfl) fun _ _ => rfl
    have h₂ := h₁.modifySo peer (f := converted (s.so id).tp) (fun _ => rfl) fun _ _ => rfl
    exact h₂.tcpDropped peer econnaborted

/-- A call that makes one socket, if it succeeds. -/
structure NewEnd (s : TcpStack) (p : Option SoId × TcpStack) : Prop where
  unmarked : p.2.Unmarked
  made : ∀ id, p.1 = some id → id = s.nextSo ∧ p.2.nextSo = s.nextSo + 1 ∧
    (p.2.so id).soPassivePeer = none ∧ ∀ j ≠ id, p.2.so j = s.so j

section

variable (h : s.Unmarked)
include h

theorem attachEnd (e : ExpandEnv) (role : PassiveRole) (lso : Listener) (sc : SyncacheEntry)
    (l2i : L2info) {so : TcpSocket} (hpeer : so.soPassivePeer = none)
    (hclnt : so.soPassiveclnt = false) :
    Outcome (fun _ => True) (NewEnd s) (s.attachEnd e role lso sc l2i so) := by
  -- the number is new, so there was no pair to break
  have hold : (s.so s.nextSo).soPassivePeer = none := by
    cases hp : (s.so s.nextSo).soPassivePeer with
    | none => rfl
    | some b => exact absurd (h.fresh _ b hp) (lt_irrefl _)
  have hnew (info : Inpcbinfo) : ({ s with
      tcbinfo := info, so := Function.update s.so s.nextSo so,
      nextSo := s.nextSo + 1 } : TcpStack).Unmarked := by
    apply h.of_eq
    · intro j
      by_cases hj : j = s.nextSo
      · subst hj
        simp [hpeer, hold]
      · simp [hj]
    · intro j
      by_cases hj : j = s.nextSo
      · subst hj
        simp [hclnt]
      · simp [hj, h.clnt j]
    · exact Nat.le_succ _
  unfold TcpStack.attachEnd
  change Outcome _ _ (placeEnd _ _ s.nextSo _ _ >>= _)
  cases placeEnd (e.pcb role) s.tcbinfo s.nextSo (newInpcb role lso sc l2i)
      (role.foreignEnd sc.scInc) with
  | error err => trivial
  | ok r =>
    obtain ⟨ok, info⟩ := r
    cases ok with
    | false => exact ⟨(hnew info).withTcbinfo _, fun id hid => by cases hid⟩
    | true =>
      refine ⟨hnew info, fun id hid => ?_⟩
      obtain rfl : s.nextSo = id := Option.some.inj hid
      exact ⟨rfl, rfl, by simp [hpeer], fun j hj => by simp [hj]⟩

section

variable (e : ExpandEnv) (lso : Listener) (sc : SyncacheEntry) (l2i : L2info)

theorem serverSocket : Outcome (fun _ => True) (NewEnd s) (s.serverSocket e lso sc l2i) := by
  unfold TcpStack.serverSocket
  split
  · exact ⟨h, fun id hid => by cases hid⟩
  · exact h.attachEnd e .server lso sc l2i rfl rfl

theorem clientSocket (opt : TcpOpt) :
    Outcome (fun _ => True) (NewEnd s) (s.syncachePassiveClientSocket e lso sc l2i opt) := by
  unfold syncachePassiveClientSocket
  split
  · exact ⟨h, fun id hid => by cases hid⟩
  · exact h.attachEnd e .client lso sc l2i rfl rfl

end

/-- Two sockets without peers become a pair. -/
theorem linked {a b : SoId} (hne : a ≠ b) (ha : a < s.nextSo) (hb : b < s.nextSo)
    (hna : (s.so a).soPassivePeer = none) (hnb : (s.so b).soPassivePeer = none) :
    (s.link a b).Unmarked := by
  have hsoA : (s.link a b).so a = { s.so a with soPassivePeer := some b } := by
    simp [link, hne]
  have hsoB : (s.link a b).so b = { s.so b with soPassivePeer := some a } := by
    simp [link, hne.symm]
  have hkept : ∀ j, j ≠ a → j ≠ b → (s.link a b).so j = s.so j := by
    intro j hja hjb
    simp [link, hja, hjb]
  have hpeers : (s.link a b).Peers a b := ⟨hne, by rw [hsoA], by rw [hsoB]⟩
  refine ⟨fun j => ?_, fun j k hj => ?_, fun j k hj => ?_⟩
  · by_cases hja : j = a
    · rw [hja, hsoA]
      exact h.clnt a
    · by_cases hjb : j = b
      · rw [hjb, hsoB]
        exact h.clnt b
      · rw [hkept j hja hjb]
        exact h.clnt j
  · by_cases hja : j = a
    · exact hja ▸ ha
    · by_cases hjb : j = b
      · exact hjb ▸ hb
      · rw [hkept j hja hjb] at hj
        exact h.fresh j k hj
  · by_cases hja : j = a
    · subst hja
      obtain rfl : b = k := Option.some.inj (hpeers.left.symm.trans hj)
      exact hpeers
    · by_cases hjb : j = b
      · subst hjb
        obtain rfl : a = k := Option.some.inj (hpeers.right.symm.trans hj)
        exact hpeers.symm
      · rw [hkept j hja hjb] at hj
        have hjk := h.peers j k hj
        have hka : k ≠ a := by
          rintro rfl
          cases hna.symm.trans hjk.right
        have hkb : k ≠ b := by
          rintro rfl
          cases hnb.symm.trans hjk.right
        exact ⟨hjk.ne, by rw [hkept j hja hjb, hj], by rw [hkept k hka hkb, hjk.right]⟩

theorem passivePair (e : ExpandEnv) (lso : Listener) (sc : SyncacheEntry) (l2i : L2info)
    (opt : TcpOpt) :
    Outcome (fun _ => True) (fun p : Option SoId × TcpStack => p.2.Unmarked)
      (s.passivePair e lso sc l2i opt) := by
  apply Outcome.bind (h.clientSocket e lso sc l2i opt)
  rintro ⟨client, s₁⟩ h₁
  cases client with
  | none => exact h₁.unmarked
  | some client =>
    apply Outcome.bind (h₁.unmarked.serverSocket e lso sc l2i)
    rintro ⟨server, s₂⟩ h₂
    cases server with
    | none => exact h₂.unmarked.withTcbinfo _
    | some server =>
      obtain ⟨hc, hnext, hcpeer, -⟩ := h₁.made client rfl
      obtain ⟨hs, hnext', hspeer, hothers⟩ := h₂.made server rfl
      dsimp only at hc hnext hcpeer hs hnext' hspeer hothers
      have hne : server ≠ client := by
        rw [hs, hnext, hc]
        exact Nat.succ_ne_self _
      apply h₂.unmarked.linked hne
      · change server < s₂.nextSo
        rw [hnext', hs]
        exact Nat.lt_succ_self _
      · change client < s₂.nextSo
        rw [hnext', hnext, hc]
        exact Nat.lt_succ_of_lt (Nat.lt_succ_self _)
      · exact hspeer
      · change (s₂.so client).soPassivePeer = none
        rw [hothers client hne.symm]
        exact hcpeer

theorem syncacheExpand (e : ExpandEnv) (lso : Listener) (a : AckArgs) :
    Outcome (fun _ => True) (fun p : Option SoId × TcpStack => p.2.Unmarked)
      (s.syncacheExpand e lso a) := by
  have htable (t : TcpSyncache) : ({ s with syncache := t } : TcpStack).Unmarked :=
    h.of_eq (fun _ => rfl) h.clnt (le_refl _)
  unfold TcpStack.syncacheExpand
  rcases acceptAck e s.syncache a with ⟨t, sc⟩
  cases sc with
  | none => exact htable t
  | some sc =>
    change Outcome _ _ (TcpStack.syncacheSocket _ _ _ _ _ _)
    unfold TcpStack.syncacheSocket
    split
    · trivial
    · split
      · exact (htable t).passivePair e lso sc _ a.opt
      · exact ((htable t).serverSocket e lso sc _).imp (fun _ _ => trivial) fun _ hp => hp.unmarked

end

theorem step (r : Except String TcpStack) (op : PairOp) (h : Kept r) : Kept (pairStep r op) := by
  apply Outcome.bind h
  intro s hs
  cases op with
  | expand e lso a =>
    have hexp := hs.syncacheExpand e lso a
    dsimp only
    cases hr : s.syncacheExpand e lso a with
    | error err => trivial
    | ok p =>
      rw [hr] at hexp
      exact hexp
  | connected id => exact hs.modifySo id (fun _ => rfl) (fun _ hso => hso)
  | accept head id aborted =>
    dsimp only
    split
    · exact hs.uinetSoaccept head id aborted
    · exact hs
  | close id drops => exact hs.soclose id drops
  | dropped id => exact hs.tcpClosed id
  | send id =>
    dsimp only
    split
    · exact hs.inPassiveConvertToActive id
    · exact hs

end TcpStack.Unmarked

def TcpStack.Blank : Prop :=
  ∀ id, (s.so id).soPassivePeer = none ∧ (s.so id).soPassiveclnt = false

theorem TcpStack.Blank.unmarked {s : TcpStack} (h : s.Blank) : s.Unmarked := by
  refine ⟨fun id => (h id).2, fun a b hab => ?_, fun a b hab => ?_⟩
  · rw [(h a).1] at hab
    cases hab
  · rw [(h a).1] at hab
    cases hab

/-- Whatever happens, each socket of a pair puts itself first, and a thread that closes
one of them can deadlock with a thread that sends on the other. -/
theorem passive_pairs_never_ordered (s₀ s : TcpStack) (ops : List PairOp) (h₀ : s₀.Blank)
    (hrun : run pairStep (.ok s₀) ops = .ok s) (a b : SoId)
    (hab : (s.so a).soPassivePeer = some b) :
    s.inPassiveOrderedSocks a = (some a, some b) ∧ s.inPassiveOrderedSocks b = (some b, some a) ∧
      ¬ LockOrder.DeadlockFree (s.twoThreads a b) := by
  have hstart : TcpStack.Unmarked.Kept (.ok s₀) := h₀.unmarked
  have hkept := run_preserves TcpStack.Unmarked.step hstart ops
  rw [hrun] at hkept
  have hs : s.Unmarked := hkept
  have hpeers := hs.peers a b hab
  rw [hpeers.order_left, hpeers.symm.order_left, hs.clnt a, hs.clnt b]
  refine ⟨rfl, rfl, ?_⟩
  apply not_deadlockFree_of_opposite hpeers.ne
  · simp [TcpStack.twoThreads, TcpStack.closeLocks, acquireBoth_eq hpeers, hs.clnt]
  · simp [TcpStack.twoThreads, TcpStack.convertLocks, acquireBoth_eq hpeers.symm, hs.clnt]

def acceptedPair : List PairOp :=
  [.expand {} { soPromisc := true } (ackOf conn80), .connected 1, .accept {} 1 false]

/-- Then the thread that closes the client's socket and the one that sends on the
server's can each hold the lock the other waits for. -/
theorem accepted_pair_deadlocks :
    ∃ s, run pairStep (.ok (stackOf (run synStep emptySyncache (synAndSynack conn80))))
        acceptedPair = .ok s ∧ (s.so 1).soPassivePeer = some 0 ∧ (s.so 1).soCount = 1 ∧
      s.inPassiveOrderedSocks 1 ≠ s.inPassiveOrderedSocks 0 ∧
      ¬ LockOrder.DeadlockFree (s.twoThreads 0 1) := by
  have hpair : (match run pairStep (.ok (stackOf (run synStep emptySyncache (synAndSynack conn80))))
      acceptedPair with
    | .ok s => (s.so 1).soPassivePeer = some 0 && (s.so 0).soPassivePeer = some 1 &&
        (s.so 1).soCount = 1
    | .error _ => false) = true := by decide +kernel
  split at hpair
  · next s hs =>
    simp only [Bool.and_eq_true, decide_eq_true_eq] at hpair
    obtain ⟨⟨hpeer, hpeer'⟩, hcount⟩ := hpair
    have hblank : (stackOf (run synStep emptySyncache (synAndSynack conn80))).Blank :=
      fun _ => ⟨rfl, rfl⟩
    obtain ⟨h₀, h₁, hdead⟩ := passive_pairs_never_ordered _ s _ hblank hs 0 1 hpeer'
    refine ⟨s, hs, hpeer, hcount, ?_, hdead⟩
    rw [h₀, h₁]
    decide
  · cases hpair

end Libuinet
