import Libuinet.Mbuf
import Libuinet.PromiscTags
import Libuinet.TcpOptions

namespace Libuinet

def etherHdrLen : ℕ := 14
def etherVlanEncapLen : ℕ := 4
def etherCrcLen : ℕ := 4

def ethertypeVlan : BitVec 16 := 0x8100

def ethertypeIsVlan (et : BitVec 16) : Bool :=
  et = ethertypeVlan || et = 0x88a8 || et = 0x9100 || et = 0x9200 || et = 0x9300

def be48 (x : BitVec 48) : List OptByte :=
  [x.extractLsb' 40 8, x.extractLsb' 32 8, x.extractLsb' 24 8, x.extractLsb' 16 8,
    x.extractLsb' 8 8, x.extractLsb' 0 8]

def ofBe48 (a b c d e f : OptByte) : BitVec 48 := a ++ b ++ c ++ d ++ e ++ f

@[simp] theorem ofBe48_be48 (x : BitVec 48) :
    ofBe48 (x.extractLsb' 40 8) (x.extractLsb' 32 8) (x.extractLsb' 24 8) (x.extractLsb' 16 8)
      (x.extractLsb' 8 8) (x.extractLsb' 0 8) = x := by
  unfold ofBe48
  ext i hi
  simp only [BitVec.getElem_append, BitVec.getElem_extractLsb']
  split_ifs <;> grind

def wireBytes (bs : List OptByte) : List UInt8 := bs.map UInt8.ofBitVec

@[simp] theorem length_wireBytes (bs : List OptByte) : (wireBytes bs).length = bs.length := by
  simp [wireBytes]

namespace Mbuf

def octet (m : Mbuf) (off : ℕ) : OptByte := (m.mtod off).toBitVec

def u16 (m : Mbuf) (off : ℕ) : BitVec 16 := ofBe16 (m.octet off) (m.octet (off + 1))

def u32 (m : Mbuf) (off : ℕ) : BitVec 32 :=
  ofBe32 (m.octet off) (m.octet (off + 1)) (m.octet (off + 2)) (m.octet (off + 3))

def u48 (m : Mbuf) (off : ℕ) : BitVec 48 :=
  ofBe48 (m.octet off) (m.octet (off + 1)) (m.octet (off + 2)) (m.octet (off + 3))
    (m.octet (off + 4)) (m.octet (off + 5))

end Mbuf

/-- The branch of `ether_output` for a packet with link-level information. -/
def etherOutputL2info (mget : Bool) (l2i : L2info) (type : BitVec 16) (m : List Mbuf) :
    Option (List Mbuf) :=
  let l2ts := l2i.inl2iTagstack
  let numTagBytes := l2ts.inl2tCnt * 4
  match mPrepend mget m (etherHdrLen + numTagBytes) with
  | none | some [] => none
  | some (m :: ms) =>
    let m := m.memcpy 0 (wireBytes (be48 l2i.inl2iForeignAddr))
    let m := m.memcpy 6 (wireBytes (be48 l2i.inl2iLocalAddr))
    let m := m.memcpy 12 (wireBytes (l2ts.inl2tTags.flatMap (be32 ·.block)))
    let m := m.memcpy (12 + numTagBytes) (wireBytes (be16 type))
    some (m :: ms)

/-- What `ether_input_internal` looks at of an interface. -/
structure EtherIfp where
  iffUp : Bool
  iffMonitor : Bool
  iffPromiscinet : Bool

/-- The allocators as a frame meets them. -/
structure EtherEnv where
  tagAlloc : Bool
  mget : Bool
  maxProtohdr : ℕ

/-- A received packet: the chain and what its packet header holds beside the length. -/
structure EtherPkt where
  m : List Mbuf
  rcvif : Bool := true
  mHasfcs : Bool := false
  mVlantag : Bool := false
  etherVtag : BitVec 16 := 0
  l2info : Option L2info := none

def vlanMask (tci : BitVec 16) : BitVec 32 := if tci &&& 0x0fff ≠ 0 then 0x00000fff else 0

/-- The loop over the VLAN headers behind the addresses: the masks it writes, one for each
header it passes. -/
def vlanMasks (m : Mbuf) (tdAvail vlanBytes : ℕ) : List (BitVec 32) :=
  if vlanBytes + etherVlanEncapLen + etherHdrLen ≤ m.mLen ∧
      ethertypeIsVlan (m.u16 (12 + vlanBytes)) ∧ vlanBytes + etherVlanEncapLen ≤ tdAvail then
    vlanMask (m.u16 (14 + vlanBytes)) :: vlanMasks m tdAvail (vlanBytes + etherVlanEncapLen)
  else []
termination_by tdAvail - vlanBytes
decreasing_by
  unfold etherVlanEncapLen at *
  omega

theorem vlanMasks_length_le (m : Mbuf) (tdAvail vlanBytes : ℕ) :
    4 * (vlanMasks m tdAvail vlanBytes).length ≤ tdAvail - vlanBytes := by
  induction h : tdAvail - vlanBytes using Nat.strong_induction_on generalizing vlanBytes with
  | h left ih =>
    rw [vlanMasks]
    split
    · next hmore =>
      unfold etherVlanEncapLen at hmore ⊢
      have hrest := ih (tdAvail - (vlanBytes + 4)) (by omega) (vlanBytes + 4) rfl
      rw [List.length_cons]
      omega
    · exact Nat.zero_le _

def vlanTags (m : Mbuf) (masks : List (BitVec 32)) : List MaskedBlock :=
  List.zipWith (fun i mask => ⟨m.u32 (12 + 4 * i), mask⟩) (List.range masks.length) masks

@[simp] theorem length_vlanTags (m : Mbuf) (masks : List (BitVec 32)) :
    (vlanTags m masks).length = masks.length := by
  simp [vlanTags]

def hardwareTag (p : EtherPkt) : List MaskedBlock :=
  if p.mVlantag then [⟨ethertypeVlan ++ p.etherVtag, vlanMask p.etherVtag⟩] else []

theorem length_hardwareTag_le (p : EtherPkt) : (hardwareTag p).length ≤ 1 := by
  unfold hardwareTag
  split <;> simp

/-- The masks of the tags in a frame, of which there is room for as many as the hardware tag
leaves. -/
def frameMasks (p : EtherPkt) (m : Mbuf) : List (BitVec 32) :=
  vlanMasks m ((inL2infoMaxTags - (hardwareTag p).length) * etherVlanEncapLen) 0

/-- The stack of a received frame: the tag from the hardware, then those of the frame. -/
def receivedStack (p : EtherPkt) (m : Mbuf) : L2tagstack where
  inl2tTags := hardwareTag p ++ vlanTags m (frameMasks p m)
  bounded := by
    have hhw := length_hardwareTag_le p
    have hlen := vlanMasks_length_le m
      ((inL2infoMaxTags - (hardwareTag p).length) * etherVlanEncapLen) 0
    rw [List.length_append, length_vlanTags, frameMasks]
    unfold inL2infoMaxTags etherVlanEncapLen at *
    omega

/-- The block of `ether_input_internal` for an interface in promiscuous mode, with the frame
and the type that is left.  `none` is a frame that is dropped. -/
def promiscinetInput (env : EtherEnv) (p : EtherPkt) (dhost shost : BitVec 48)
    (etype : BitVec 16) : Option (EtherPkt × BitVec 16) :=
  if !env.tagAlloc then none
  else
    let l2info : L2info := { inl2iLocalAddr := dhost, inl2iForeignAddr := shost,
                             inl2iTagAny := false }
    if !ethertypeIsVlan etype then
      let hw : L2tagstack := ⟨hardwareTag p, (length_hardwareTag_le p).trans (by decide)⟩
      some ({ p with mVlantag := false, l2info := some { l2info with inl2iTagstack := hw } }, etype)
    else
      let len := (p.m.head?.bind (·.mPkthdrLen)).getD 0
      let needed := (min len (etherHdrLen + inL2infoMaxTags * etherVlanEncapLen : ℕ)).toNat
      let mLen := (p.m.head?.map (·.mLen)).getD 0
      match if mLen < needed then mPullup env.maxProtohdr env.mget p.m needed else some p.m with
      | none | some [] => none
      | some (m :: ms) =>
        let vlanBytes := (frameMasks p m).length * etherVlanEncapLen
        if m.mLen < vlanBytes + etherHdrLen ∨ ethertypeIsVlan (m.u16 (12 + vlanBytes)) then none
        else
          let moved := m.memmove vlanBytes 0 12
          some ({ p with
            m := mAdj (moved :: ms) vlanBytes
            mVlantag := false
            l2info := some { l2info with inl2iTagstack := receivedStack p m } },
            moved.u16 (12 + vlanBytes))

/-- The 802.1Q header that is left when the interface is not in promiscuous mode. -/
def vlanInput (env : EtherEnv) (p : EtherPkt) (etype : BitVec 16) : Option EtherPkt :=
  if p.mVlantag || etype ≠ ethertypeVlan then some p
  else
    let mLen := (p.m.head?.map (·.mLen)).getD 0
    match if mLen < 18 then mPullup env.maxProtohdr env.mget p.m 18 else some p.m with
    | none | some [] => none
    | some (m :: ms) => some { p with
        m := mAdj (m.memmove etherVlanEncapLen 0 12 :: ms) etherVlanEncapLen
        mVlantag := true
        etherVtag := m.u16 14 }

def etherInputInternal (ifp : EtherIfp) (env : EtherEnv) (p : EtherPkt) : Option EtherPkt :=
  match p.m with
  | [] => none
  | m :: _ =>
    if !ifp.iffUp || m.mPkthdrLen.isNone || m.mLen < etherHdrLen || !p.rcvif then none
    else
      let p := if p.mHasfcs then { p with m := mAdj p.m (-etherCrcLen), mHasfcs := false } else p
      if ifp.iffMonitor then none
      else if ifp.iffPromiscinet then
        (promiscinetInput env p (m.u48 0) (m.u48 6) (m.u16 12)).bind fun (p, etype) =>
          vlanInput env p etype
      else vlanInput env p (m.u16 12)

end Libuinet
