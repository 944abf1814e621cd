import Libuinet.ChainTable
import Libuinet.PromiscTags
import Libuinet.Sockbuf

namespace Libuinet

def inaddrAny : BitVec 32 := 0

def inPromiscPortAny : BitVec 16 := 0

def ntohs (x : BitVec 16) : BitVec 16 := x.rotateLeft 8

/-- The bits `SO_REUSEADDR` and `SO_REUSEPORT` of a socket's options. -/
structure ReuseOptions where
  soReuseaddr : Bool := false
  soReuseport : Bool := false

/-- `struct inpcb`.  `inpJailed` is what `prison_flag` says of its credentials, and `twSoOptions`
are the options in its `struct tcptw`, if it has one. -/
structure Inpcb where
  inpFaddr : BitVec 32 := 0
  inpLaddr : BitVec 32 := 0
  inpFport : BitVec 16 := 0
  inpLport : BitVec 16 := 0
  inpFibnum : BitVec 16 := 0
  inpL2info : L2info := {}
  inpPromisc : Bool := false
  inpInhashlist : Bool := false
  inpDropped : Bool := false
  inpAnonport : Bool := false
  inpJailed : Bool := false
  inpReuseport : Bool := false
  inpTimewait : Bool := false
  twSoOptions : Option ReuseOptions := none

abbrev PcbId := ℕ

/-- `struct inpcbinfo`.  A port list is found by its bucket and its port; the one
that is empty is the one that has not been allocated. -/
structure Inpcbinfo where
  ipiHashmask : BitVec 32
  ipiPorthashmask : BitVec 32
  ipiListhead : List PcbId
  inpcb : PcbId → Inpcb
  ipiHashbase : ChainTable (BitVec 32) PcbId
  ipiPorthashbase : ChainTable (BitVec 32 × BitVec 16) PcbId

def promiscSeed (laddr faddr : BitVec 32) (lport fport fibnum : BitVec 16) : BitVec 32 :=
  inPromiscHash32 (hashInput [laddr, faddr,
    (lport.setWidth 32 <<< 16) ||| fport.setWidth 32, fibnum.setWidth 32]) 0

def inPcbhashPromisc (laddr faddr : BitVec 32) (lport fport fibnum : BitVec 16)
    (l2i : Option L2info) (mask : BitVec 32) : BitVec 32 :=
  hashTags l2i (promiscSeed laddr faddr lport fport fibnum) &&& mask

/-- `in_pcbporthash_promisc`; the mask is passed as 16 bits. -/
def inPcbporthashPromisc (lport fibnum : BitVec 16) (l2i : Option L2info) (mask : BitVec 16) :
    BitVec 16 :=
  let hash := hashTags l2i
    (inPromiscHash32 (hashInput [lport.setWidth 32, fibnum.setWidth 32]) 0)
  (hash ^^^ (hash >>> 16)).setWidth 16 &&& mask

def inpPcbhash (faddr : BitVec 32) (lport fport : BitVec 16) (mask : BitVec 32) : BitVec 32 :=
  (faddr ^^^ (faddr >>> 16) ^^^ (ntohs (lport ^^^ fport)).setWidth 32) &&& mask

def inpPcbporthash (lport : BitVec 16) (mask : BitVec 32) : BitVec 32 :=
  (ntohs lport).setWidth 32 &&& mask

/-- The bucket of `ipi_hashbase` that the key of the block hashes to. -/
def Inpcb.hashkey (inp : Inpcb) (mask : BitVec 32) : BitVec 32 :=
  if inp.inpPromisc then
    inPcbhashPromisc inp.inpLaddr inp.inpFaddr inp.inpLport inp.inpFport inp.inpFibnum
      (some inp.inpL2info) mask
  else inpPcbhash inp.inpFaddr inp.inpLport inp.inpFport mask

/-- The bucket of `ipi_porthashbase`; the promiscuous one is taken with the mask of
the other table. -/
def Inpcb.porthashkey (inp : Inpcb) (hashmask porthashmask : BitVec 32) : BitVec 32 :=
  if inp.inpPromisc then
    (inPcbporthashPromisc inp.inpLport inp.inpFibnum (some inp.inpL2info)
      (hashmask.setWidth 16)).setWidth 32
  else inpPcbporthash inp.inpLport porthashmask

variable (info : Inpcbinfo) (id : PcbId)

def Inpcbinfo.modify (f : Inpcb → Inpcb) : Inpcbinfo :=
  { info with inpcb := Function.update info.inpcb id (f (info.inpcb id)) }

def Inpcbinfo.hashkey (info : Inpcbinfo) (id : PcbId) : BitVec 32 :=
  (info.inpcb id).hashkey info.ipiHashmask

/-- The port list the block goes on: the bucket and the port of its head. -/
def Inpcbinfo.portlist : BitVec 32 × BitVec 16 :=
  ((info.inpcb id).porthashkey info.ipiHashmask info.ipiPorthashmask, (info.inpcb id).inpLport)

def Inpcbinfo.link : Inpcbinfo :=
  { info.modify id ({ · with inpInhashlist := true }) with
    ipiHashbase := info.ipiHashbase.insertHead (info.hashkey id) id
    ipiPorthashbase := info.ipiPorthashbase.insertHead (info.portlist id) id }

def Inpcbinfo.unlink : Inpcbinfo :=
  { info.modify id ({ · with inpInhashlist := false }) with
    ipiHashbase := info.ipiHashbase.remove id
    ipiPorthashbase := info.ipiPorthashbase.remove id }

/-- `in_pcbinshash_internal`.  An error is a failed assertion, with its text; the
value says whether the insertion failed with `ENOBUFS`, which it does when the head
of a new port list cannot be allocated (`phd` is false). -/
def inPcbinshash (phd : Bool) : Except String (Bool × Inpcbinfo) :=
  if (info.inpcb id).inpInhashlist then .error "in_pcbinshash: INP_INHASHLIST"
  else if (info.ipiPorthashbase (info.portlist id)).isEmpty && !phd then .ok (true, info)
  else .ok (false, info.link id)

def inPcbrehash : Except String Inpcbinfo :=
  if (info.inpcb id).inpInhashlist then
    .ok { info with
      ipiHashbase := (info.ipiHashbase.remove id).insertHead (info.hashkey id) id }
  else .error "in_pcbrehash: !INP_INHASHLIST"

def inPcbremlists : Inpcbinfo :=
  let info := if (info.inpcb id).inpInhashlist then info.unlink id else info
  { info with ipiListhead := info.ipiListhead.erase id }

def inPcbdrop : Inpcbinfo :=
  let info := info.modify id ({ · with inpDropped := true })
  if (info.inpcb id).inpInhashlist then info.unlink id else info

/-- The filing rule of `ipi_hashbase`: blocks that are in the table go under the
bucket their current key hashes to. -/
def Inpcbinfo.bucketOf : Option (BitVec 32) :=
  if (info.inpcb id).inpInhashlist then some (info.hashkey id) else none

/-- What the lookup is asked for: the endpoints of a packet, its fib and its
link-level information. -/
structure Arrival where
  faddr : BitVec 32
  fport : BitVec 16
  laddr : BitVec 32
  lport : BitVec 16
  fib : BitVec 16
  l2i : L2info

namespace Arrival

/-- The tag stack of the block compares equal to that of the packet. -/
def tagsMatch (a : Arrival) (inp : Inpcb) : Bool :=
  inPromiscTagcmp (some inp.inpL2info.inl2iTagstack) (some a.l2i.inl2iTagstack) = 0

def exactHash (a : Arrival) (mask : BitVec 32) : BitVec 32 :=
  inPcbhashPromisc a.laddr a.faddr a.lport a.fport a.fib (some a.l2i) mask

def exactMatch (a : Arrival) (inp : Inpcb) : Bool :=
  !inp.inpJailed && inp.inpFibnum = a.fib && inp.inpFaddr = a.faddr && inp.inpLaddr = a.laddr &&
    inp.inpFport = a.fport && inp.inpLport = a.lport && a.tagsMatch inp

def laddrToMatch (a : Arrival) (i : ℕ) : BitVec 32 :=
  if i.testBit 0 then inaddrAny else a.laddr

def lportToMatch (a : Arrival) (i : ℕ) : BitVec 16 :=
  if i.testBit 1 then inPromiscPortAny else a.lport

def anyTagFlag (i : ℕ) : Bool := i.testBit 2

def phaseHash (a : Arrival) (mask : BitVec 32) (i : ℕ) : BitVec 32 :=
  inPcbhashPromisc (a.laddrToMatch i) inaddrAny (a.lportToMatch i) inPromiscPortAny a.fib
    (if anyTagFlag i then none else some a.l2i) mask

/-- The bucket of phase `i`: the last four phases of a packet without tags take the
hashes of the first four. -/
def wildHash (a : Arrival) (mask : BitVec 32) (i : ℕ) : BitVec 32 :=
  if a.l2i.inl2iTagstack.inl2tCnt ≠ 0 ∨ !anyTagFlag i then a.phaseHash mask i
  else a.phaseHash mask (i - 4)

def wildMatch (a : Arrival) (i : ℕ) (inp : Inpcb) : Bool :=
  inp.inpFaddr = inaddrAny && inp.inpLaddr = a.laddrToMatch i &&
    inp.inpLport = a.lportToMatch i && inp.inpL2info.inl2iTagAny = anyTagFlag i &&
    inp.inpFibnum = a.fib && !inp.inpJailed && (inp.inpL2info.inl2iTagAny || a.tagsMatch inp)

end Arrival

def inPcblookupHashPromiscLocked (a : Arrival) (wildcard : Bool) : Option PcbId :=
  match (info.ipiHashbase (a.exactHash info.ipiHashmask)).find?
      fun id => a.exactMatch (info.inpcb id) with
  | some id => some id
  | none =>
    if wildcard then
      (List.range 8).findSome? fun i =>
        (info.ipiHashbase (a.wildHash info.ipiHashmask i)).find?
          fun id => a.wildMatch i (info.inpcb id)
    else none

end Libuinet
