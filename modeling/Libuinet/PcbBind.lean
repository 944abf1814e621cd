import Libuinet.InPcb
import Libuinet.Execution

namespace Libuinet

def eaddrinuse : Errno := .other 48
def eaddrnotavail : Errno := .other 49
def eafnosupport : Errno := .other 47
def eacces : Errno := .other 13
def eisconn : Errno := .other 56

def inaddrBroadcast : BitVec 32 := 0xffffffff

/-- `struct sockaddr_in`; the flags say whether `sa_len` and `sin_family` are those
of an internet address. -/
structure SockaddrIn where
  sinAddr : BitVec 32
  sinPort : BitVec 16
  lenOk : Bool := true
  familyOk : Bool := true

def ntohl (x : BitVec 32) : BitVec 32 :=
  ((x.extractLsb' 0 8) ++ (x.extractLsb' 8 8) ++ (x.extractLsb' 16 8) ++ (x.extractLsb' 24 8)).cast
    (by decide)

def inMulticast (addr : BitVec 32) : Bool := ntohl addr &&& 0xf0000000 = 0xe0000000

/-- What a call asks the rest of the stack. -/
structure PcbEnv where
  /-- `V_in_ifaddrhead` is empty. -/
  ifaddrEmpty : Bool := false
  /-- `prison_local_ip4`: the address it allows, or an error. -/
  prisonLocalIp4 : BitVec 32 → Except Errno (BitVec 32) := .ok
  /-- `ifa_ifwithaddr_check`, or `INP_BINDANY` is set. -/
  ifaWithaddr : BitVec 32 → Bool := fun _ => true
  /-- The port is reserved and the caller may not use it. -/
  reserved : BitVec 16 → Bool := fun _ => false
  /-- `SO_REUSEADDR` or `SO_REUSEPORT` is set. -/
  soReuse : Bool := false
  /-- The caller may not take over ports of other users. -/
  otherUsers : Bool := false
  /-- The block found bound belongs to another user and stands in the way. -/
  refusesUser : Inpcb → Bool := fun _ => true
  /-- The block found bound does not share the port. -/
  refusesShare : Inpcb → Bool := fun _ => true
  /-- `prison_equal_ip4` of the credentials of a block and of the caller. -/
  prisonEqual : Inpcb → Bool := fun _ => true
  /-- The ports `in_pcb_lport` tries, in its order. -/
  autoPorts : List (BitVec 16) := []
  /-- The foreign address in place of `INADDR_ANY` and of the broadcast address. -/
  destination : BitVec 32 → Except Errno (BitVec 32) := .ok
  /-- `in_pcbladdr` and the multicast options: the local address for a destination. -/
  inPcbladdr : BitVec 32 → Except Errno (BitVec 32) := .ok
  /-- `malloc` gives a new port list head. -/
  phd : Bool := true

/-- How far the block is from the local address asked for; none when it is bound to
another one. -/
def localWildcard (inp : Inpcb) (laddr : BitVec 32) : Option ℕ :=
  let foreign := if inp.inpFaddr ≠ inaddrAny then 1 else 0
  if inp.inpLaddr ≠ inaddrAny then
    if laddr = inaddrAny then some (foreign + 1)
    else if inp.inpLaddr ≠ laddr then none else some foreign
  else if laddr ≠ inaddrAny then some (foreign + 1) else some foreign

/-- The walk of a port list for the best match so far and its distance. -/
def bestLocal (info : Inpcbinfo) (e : PcbEnv) (laddr : BitVec 32) :
    List PcbId → Option PcbId → ℕ → Option PcbId
  | [], best, _ => best
  | id :: ids, best, matchwild =>
    let inp := info.inpcb id
    match (if e.prisonEqual inp then localWildcard inp laddr else none) with
    | none => bestLocal info e laddr ids best matchwild
    | some wildcard =>
      if wildcard < matchwild then
        if wildcard = 0 then some id else bestLocal info e laddr ids (some id) wildcard
      else bestLocal info e laddr ids best matchwild

variable (info : Inpcbinfo) (e : PcbEnv) (id : PcbId)

def inPcblookupLocal (laddr : BitVec 32) (lport : BitVec 16) (wildcard : Bool) : Option PcbId :=
  if wildcard then
    bestLocal info e laddr
      (info.ipiPorthashbase (inpPcbporthash lport info.ipiPorthashmask, lport)) none 3
  else
    (info.ipiHashbase (inpPcbhash inaddrAny lport 0 info.ipiHashmask)).find? fun id =>
      let inp := info.inpcb id
      inp.inpFaddr = inaddrAny && inp.inpLaddr = laddr && inp.inpLport = lport &&
        e.prisonEqual inp

def inPcbLport (laddr : BitVec 32) (wildcard : Bool) : Except Errno (BitVec 16) :=
  match e.autoPorts.find? fun port => (inPcblookupLocal info e laddr port wildcard).isNone with
  | some port => .ok port
  | none => .error eaddrnotavail

def portRefused (addr : BitVec 32) (lport : BitVec 16) (wildcard : Bool) : Bool :=
  (!inMulticast addr && e.otherUsers &&
      (inPcblookupLocal info e addr lport true).any fun t => e.refusesUser (info.inpcb t)) ||
    (inPcblookupLocal info e addr lport wildcard).any fun t => e.refusesShare (info.inpcb t)

def requestedName (nam : SockaddrIn) (lportp : BitVec 16) (wildcard : Bool) :
    Except Errno (BitVec 32 × BitVec 16) := do
  if !nam.lenOk then throw .einval
  let addr ← e.prisonLocalIp4 nam.sinAddr
  -- The port may be given, but not changed.
  if nam.sinPort ≠ lportp ∧ lportp ≠ 0 then throw .einval
  let lport := if nam.sinPort ≠ lportp then nam.sinPort else 0
  if !inMulticast addr ∧ addr ≠ inaddrAny ∧ !e.ifaWithaddr addr then throw eaddrnotavail
  if lport ≠ 0 then
    if e.reserved lport then throw eacces
    if portRefused info e addr lport wildcard then throw eaddrinuse
  return (addr, lport)

def inPcbbindSetup (promisc : Bool) (nam : Option SockaddrIn) (laddrp : BitVec 32)
    (lportp : BitVec 16) : Except Errno (BitVec 32 × BitVec 16) := do
  if e.ifaddrEmpty ∧ !promisc then throw eaddrnotavail
  if nam.isSome ∧ laddrp ≠ inaddrAny then throw .einval
  let wildcard := !e.soReuse
  let (laddr, lport) ← match nam with
    | none => (e.prisonLocalIp4 laddrp).map (·, 0)
    | some nam => requestedName info e nam lportp wildcard
  let lport := if lportp ≠ 0 then lportp else lport
  if lport = 0 ∧ !promisc then return (laddr, ← inPcbLport info e laddr wildcard)
  return (laddr, lport)

def inPcblookupHashLocked (faddr : BitVec 32) (fport : BitVec 16) (laddr : BitVec 32)
    (lport : BitVec 16) : Option PcbId :=
  let found := (info.ipiHashbase (inpPcbhash faddr lport fport info.ipiHashmask)).filter fun id =>
    let inp := info.inpcb id
    inp.inpFaddr = faddr && inp.inpLaddr = laddr && inp.inpFport = fport && inp.inpLport = lport
  (found.find? fun id => (info.inpcb id).inpJailed).or found.head?

/-- The foreign address to connect to: `INADDR_ANY` and the broadcast address stand for
addresses of the primary interface, if there is one. -/
def PcbEnv.foreignFor (addr : BitVec 32) : Except Errno (BitVec 32) :=
  if e.ifaddrEmpty ∨ (addr ≠ inaddrAny ∧ addr ≠ inaddrBroadcast) then .ok addr
  else e.destination addr

def PcbEnv.localFor (addr faddr : BitVec 32) : Except Errno (BitVec 32) :=
  if addr = inaddrAny then e.inPcbladdr faddr else .ok addr

/-- The four values `in_pcbconnect_setup` sets. -/
structure Endpoints where
  laddr : BitVec 32
  lport : BitVec 16
  faddr : BitVec 32
  fport : BitVec 16

def inPcbconnectSetup (nam : SockaddrIn) : Except Errno Endpoints := do
  let inp := info.inpcb id
  if !nam.lenOk then throw .einval
  if !nam.familyOk then throw eafnosupport
  if nam.sinPort = 0 then throw eaddrnotavail
  let faddr ← e.foreignFor nam.sinAddr
  let laddr ← e.localFor inp.inpLaddr faddr
  let oinp :=
    if inp.inpPromisc then
      inPcblookupHashPromiscLocked info
        ⟨faddr, nam.sinPort, laddr, inp.inpLport, inp.inpFibnum, inp.inpL2info⟩ false
    else inPcblookupHashLocked info faddr nam.sinPort laddr inp.inpLport
  if oinp.isSome then throw eaddrinuse
  if inp.inpLport = 0 then
    let (laddr, lport) ← inPcbbindSetup info e inp.inpPromisc none laddr 0
    return ⟨laddr, lport, faddr, nam.sinPort⟩
  return ⟨laddr, inp.inpLport, faddr, nam.sinPort⟩

/-- The value a call returns, with the table it leaves; an error is a failed
assertion. -/
abbrev PcbResult := Except String (Option Errno × Inpcbinfo)

def Inpcb.unbound (inp : Inpcb) : Bool := inp.inpLaddr = inaddrAny ∧ inp.inpLport = 0

/-- Set the local endpoint and insert the block, or put the endpoint back. -/
def insertBound (laddr : BitVec 32) (lport : BitVec 16) (phd : Bool) : PcbResult := do
  let (failed, info) ←
    inPcbinshash (info.modify id ({ · with inpLaddr := laddr, inpLport := lport })) id phd
  if failed then
    return (some .ewouldblock, info.modify id ({ · with inpLaddr := inaddrAny, inpLport := 0 }))
  return (none, info)

def inPcbbind (nam : Option SockaddrIn) : PcbResult :=
  let inp := info.inpcb id
  if !inp.unbound then .ok (some .einval, info)
  else
    let anonport := !inp.inpPromisc && (nam.map (·.sinPort)).getD 0 = 0
    match inPcbbindSetup info e inp.inpPromisc nam inp.inpLaddr inp.inpLport with
    | .error error => .ok (some error, info)
    | .ok (laddr, lport) =>
      (insertBound info id laddr lport e.phd).map fun (error, info) =>
        if error.isNone ∧ anonport then
          (none, info.modify id ({ · with inpAnonport := true }))
        else (error, info)

/-- Commit the endpoints of a connection and move the block to its new bucket. -/
def commitConnect (ends : Endpoints) (anonport : Bool) : PcbResult := do
  let info ← inPcbrehash (info.modify id ({ · with
    inpLport := ends.lport, inpLaddr := ends.laddr
    inpFaddr := ends.faddr, inpFport := ends.fport })) id
  return (none, if anonport then info.modify id ({ · with inpAnonport := true }) else info)

def inPcbconnect (nam : SockaddrIn) : PcbResult :=
  let inp := info.inpcb id
  let anonport : Bool := inp.inpLport = 0
  match inPcbconnectSetup info e id nam with
  | .error error => .ok (some error, info)
  | .ok ends =>
    if inp.unbound then do
      let (error, info) ← insertBound info id ends.laddr ends.lport e.phd
      if error.isSome then return (error, info)
      commitConnect info id ends anonport
    else commitConnect info id ends anonport

def inPcbdisconnect : Except String Inpcbinfo :=
  inPcbrehash (info.modify id ({ · with inpFaddr := inaddrAny, inpFport := 0 })) id

/-- `udp_disconnect`: the local address goes after the block has been moved. -/
def udpDisconnect : PcbResult :=
  if (info.inpcb id).inpFaddr = inaddrAny then .ok (some .enotconn, info)
  else do
    let info ← inPcbdisconnect info id
    return (none, info.modify id ({ · with inpLaddr := inaddrAny }))

def udpConnect (nam : SockaddrIn) : PcbResult :=
  if (info.inpcb id).inpFaddr ≠ inaddrAny then .ok (some eisconn, info)
  else inPcbconnect info e id nam

/-- The options that `ip_ctloutput` copies from the socket into the key. -/
inductive KeyOption where
  | promisc (on : Bool)
  | setfib (fib : BitVec 16)
  | l2info (l2i : L2info)

def KeyOption.set : KeyOption → Inpcb → Inpcb
  | .promisc on, inp => { inp with inpPromisc := on }
  | .setfib fib, inp => { inp with inpFibnum := fib }
  | .l2info l2i, inp => { inp with inpL2info := l2i }

/-- What can be done to a control block. -/
inductive PcbOp where
  | bind (e : PcbEnv) (nam : Option SockaddrIn)
  | connect (e : PcbEnv) (nam : SockaddrIn)
  | disconnect
  | setsockopt (opt : KeyOption)
  | drop
  | detach

/-- One operation on one block.  A block that has been freed takes none, and one that
has been dropped refuses those that would give it a key. -/
def pcbCall (op : PcbOp) : PcbResult :=
  if id ∉ info.ipiListhead then .ok (some .einval, info)
  else match op with
    | .bind e nam =>
      if (info.inpcb id).inpDropped then .ok (some .einval, info) else inPcbbind info e id nam
    | .connect e nam =>
      if (info.inpcb id).inpDropped then .ok (some .einval, info) else udpConnect info e id nam
    | .disconnect =>
      if (info.inpcb id).inpDropped then .ok (some .einval, info) else udpDisconnect info id
    | .setsockopt opt => .ok (none, info.modify id opt.set)
    | .drop => .ok (none, inPcbdrop info id)
    | .detach => .ok (none, inPcbremlists info id)

def pcbStep (s : Except String Inpcbinfo) (op : PcbId × PcbOp) : Except String Inpcbinfo :=
  s.bind fun info => (pcbCall info op.1 op.2).map (·.2)

end Libuinet
