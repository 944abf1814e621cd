import Libuinet.EtherL2

namespace Libuinet

variable (m : Mbuf) (p : EtherPkt) (bs : List UInt8)

def byteAt (i : ℕ) : OptByte := (bs.getD i 0).toBitVec

def shortAt (i : ℕ) : BitVec 16 := ofBe16 (byteAt bs i) (byteAt bs (i + 1))

def longAt (i : ℕ) : BitVec 32 :=
  ofBe32 (byteAt bs i) (byteAt bs (i + 1)) (byteAt bs (i + 2)) (byteAt bs (i + 3))

def addrAt (i : ℕ) : BitVec 48 :=
  ofBe48 (byteAt bs i) (byteAt bs (i + 1)) (byteAt bs (i + 2)) (byteAt bs (i + 3))
    (byteAt bs (i + 4)) (byteAt bs (i + 5))

/-- A VLAN header in place `i` behind the addresses, with a type behind it. -/
def isTag (i : ℕ) : Bool :=
  16 + 4 * i + 2 ≤ bs.length && ethertypeIsVlan (shortAt bs (12 + 4 * i))

def vlanCount : ℕ := (List.range bs.length).findIdx fun i => !isTag bs i

def tagAt (i : ℕ) : MaskedBlock :=
  ⟨longAt bs (12 + 4 * i), vlanMask (shortAt bs (14 + 4 * i))⟩

def typeBehind : BitVec 16 := shortAt bs (12 + 4 * vlanCount bs)

theorem isTag_of_lt_vlanCount {bs : List UInt8} {i : ℕ} (hi : i < vlanCount bs) :
    isTag bs i = true := by
  have hlen : i < (List.range bs.length).length := hi.trans_le List.findIdx_le_length
  have hnot := List.not_of_lt_findIdx hi
  rw [List.getElem_range] at hnot
  simpa using hnot

theorem isTag_vlanCount : isTag bs (vlanCount bs) = false := by
  by_contra htag
  rw [Bool.not_eq_false] at htag
  have hlen : vlanCount bs < bs.length := by
    simp only [isTag, Bool.and_eq_true, decide_eq_true_eq] at htag
    omega
  have hlt : (List.range bs.length).findIdx (fun i => !isTag bs i) <
      (List.range bs.length).length := by
    rw [List.length_range]
    exact hlen
  have hfound := List.findIdx_getElem (w := hlt)
  rw [List.getElem_range] at hfound
  change (!isTag bs (vlanCount bs)) = true at hfound
  rw [htag] at hfound
  cases hfound

theorem vlanCount_eq {bs : List UInt8} {n : ℕ} (htags : ∀ i < n, isTag bs i = true)
    (hend : isTag bs n = false) : vlanCount bs = n := by
  apply le_antisymm
  · by_contra hlt
    rw [isTag_of_lt_vlanCount (not_le.mp hlt)] at hend
    cases hend
  · by_contra hlt
    have htag := htags _ (not_le.mp hlt)
    rw [isTag_vlanCount] at htag
    cases htag

/-- Each tag fits into the frame. -/
theorem le_length_of_le_vlanCount {bs : List UInt8} {i : ℕ} (hi : i ≤ vlanCount bs)
    (hlen : 14 ≤ bs.length) : 14 + 4 * i ≤ bs.length := by
  cases i with
  | zero => exact hlen
  | succ i =>
    have htag := isTag_of_lt_vlanCount hi
    simp only [isTag, Bool.and_eq_true, decide_eq_true_eq] at htag
    omega

/-- The addresses are moved to the front of the type. -/
theorem u16_memmove (vlanBytes : ℕ) :
    (m.memmove vlanBytes 0 12).u16 (12 + vlanBytes) = m.u16 (12 + vlanBytes) := by
  simp [Mbuf.u16, Mbuf.octet, Mbuf.memmove, show ¬ vlanBytes + 12 > 12 + vlanBytes by omega,
    show ¬ 12 + vlanBytes + 1 < vlanBytes + 12 by omega]

section FirstMbuf

variable {m : Mbuf} {ms : List Mbuf} {bs : List UInt8}
  (hview : chainView (m :: ms) = bs.map .data)
include hview

theorem mLen_le_length : m.mLen ≤ bs.length := by
  have htotal : (chainView (m :: ms)).length = bs.length := by rw [hview, List.length_map]
  rw [chainView_cons, List.length_append, Mbuf.view_length] at htotal
  omega

/-- The memory of the first mbuf is the front of the stream. -/
theorem octet_eq {off : ℕ} (hoff : off < m.mLen) : m.octet off = byteAt bs off := by
  have hlen := hoff.trans_le (mLen_le_length hview)
  have hget : (chainView (m :: ms))[off]? = some (m.elem off) := by
    rw [chainView_cons, List.getElem?_append_left (by simpa using hoff)]
    simp [Mbuf.view, hoff]
  rw [hview, List.getElem?_map, List.getElem?_eq_getElem hlen, Option.map_some, Option.some.injEq,
    Mbuf.elem] at hget
  split at hget
  · cases hget
  · injection hget with hbyte
    rw [Mbuf.octet, ← hbyte]
    simp [byteAt, hlen]

theorem u16_eq {off : ℕ} (hoff : off + 2 ≤ m.mLen) : m.u16 off = shortAt bs off := by
  rw [Mbuf.u16, shortAt, octet_eq hview (by omega), octet_eq hview (by omega)]

theorem u32_eq {off : ℕ} (hoff : off + 4 ≤ m.mLen) : m.u32 off = longAt bs off := by
  rw [Mbuf.u32, longAt, octet_eq hview (by omega), octet_eq hview (by omega),
    octet_eq hview (by omega), octet_eq hview (by omega)]

theorem u48_eq {off : ℕ} (hoff : off + 6 ≤ m.mLen) : m.u48 off = addrAt bs off := by
  rw [Mbuf.u48, addrAt, octet_eq hview (by omega), octet_eq hview (by omega),
    octet_eq hview (by omega), octet_eq hview (by omega), octet_eq hview (by omega),
    octet_eq hview (by omega)]

variable (hpulled : min bs.length 78 ≤ m.mLen)
include hpulled

/-- The loop goes on exactly as long as there are tags and slots. -/
theorem vlanMasks_more_iff {room i : ℕ} (hroom : room ≤ 16) :
    (4 * i + etherVlanEncapLen + etherHdrLen ≤ m.mLen ∧
      ethertypeIsVlan (m.u16 (12 + 4 * i)) ∧ 4 * i + etherVlanEncapLen ≤ 4 * room) ↔
    isTag bs i = true ∧ i < room := by
  have hle := mLen_le_length hview
  simp only [isTag, Bool.and_eq_true, decide_eq_true_eq, etherVlanEncapLen, etherHdrLen]
  constructor
  · rintro ⟨hfits, hvlan, hslot⟩
    rw [u16_eq hview (by omega)] at hvlan
    exact ⟨⟨by omega, hvlan⟩, by omega⟩
  · rintro ⟨⟨hfits, hvlan⟩, hslot⟩
    rw [u16_eq hview (by omega)]
    exact ⟨by omega, hvlan, by omega⟩

/-- The loop passes the tags of the frame, as far as there is room for them. -/
theorem vlanMasks_from {room : ℕ} (hroom : room ≤ 16) (left : ℕ) {i : ℕ}
    (hi : i + left = min (vlanCount bs) room) :
    vlanMasks m (4 * room) (4 * i) = (List.range' i left).map fun j =>
      vlanMask (shortAt bs (14 + 4 * j)) := by
  have hmore := vlanMasks_more_iff hview hpulled (i := i) hroom
  rw [vlanMasks]
  induction left generalizing i with
  | zero =>
    have hstop : ¬ (isTag bs i = true ∧ i < room) := by
      rintro ⟨htag, hlt⟩
      have hend : i = vlanCount bs := by omega
      rw [hend, isTag_vlanCount] at htag
      cases htag
    rw [if_neg (mt hmore.mp hstop)]
    rfl
  | succ left ih =>
    have htag : isTag bs i = true ∧ i < room := ⟨isTag_of_lt_vlanCount (by omega), by omega⟩
    have hfits := hmore.mpr htag
    have hnext := ih (i := i + 1) (by omega) (vlanMasks_more_iff hview hpulled hroom)
    rw [if_pos hfits]
    unfold etherVlanEncapLen etherHdrLen at hfits
    rw [u16_eq hview (by omega), List.range'_succ, List.map_cons, ← hnext, ← vlanMasks]
    rfl

theorem frameMasks_eq (p : EtherPkt) : frameMasks p m =
      (List.range (min (vlanCount bs) (inL2infoMaxTags - (hardwareTag p).length))).map fun j =>
        vlanMask (shortAt bs (14 + 4 * j)) := by
  have hroom : inL2infoMaxTags - (hardwareTag p).length ≤ 16 := Nat.sub_le _ _
  rw [frameMasks, etherVlanEncapLen, Nat.mul_comm, List.range_eq_range']
  exact vlanMasks_from hview hpulled hroom _ (Nat.zero_add _)

/-- The type that the frame is judged by. -/
theorem u16_frameMasks (hlen : 14 ≤ bs.length) (p : EtherPkt) :
    let vlanBytes := (frameMasks p m).length * etherVlanEncapLen
    vlanBytes + etherHdrLen ≤ m.mLen ∧
      (ethertypeIsVlan (m.u16 (12 + vlanBytes)) = false ↔
        (hardwareTag p).length + vlanCount bs ≤ inL2infoMaxTags ∧
          ethertypeIsVlan (typeBehind bs) = false) := by
  have hhw := length_hardwareTag_le p
  rw [frameMasks_eq hview hpulled, List.length_map, List.length_range]
  unfold etherVlanEncapLen etherHdrLen inL2infoMaxTags
  generalize hk : min (vlanCount bs) (16 - (hardwareTag p).length) = k
  have hfits : 14 + 4 * k ≤ bs.length := le_length_of_le_vlanCount (by omega) hlen
  refine ⟨by omega, ?_⟩
  rw [u16_eq hview (by omega), Nat.mul_comm]
  constructor
  · intro hnot
    -- a tag behind the last slot would show
    have hcount : k = vlanCount bs := by
      by_contra hne
      have htag := isTag_of_lt_vlanCount (show k < vlanCount bs by omega)
      simp only [isTag, Bool.and_eq_true] at htag
      rw [hnot] at htag
      cases htag.2
    rw [hcount] at hnot
    exact ⟨by omega, hnot⟩
  · rintro ⟨hroom, hnot⟩
    have hcount : k = vlanCount bs := by omega
    rw [hcount]
    exact hnot

theorem receivedStack_eq (hlen : 14 ≤ bs.length) (p : EtherPkt)
    (hroom : (hardwareTag p).length + vlanCount bs ≤ inL2infoMaxTags) :
    (receivedStack p m).inl2tTags =
      hardwareTag p ++ (List.range (vlanCount bs)).map (tagAt bs) := by
  have hcount : min (vlanCount bs) (inL2infoMaxTags - (hardwareTag p).length) = vlanCount bs := by
    omega
  have hmasks := frameMasks_eq hview hpulled p
  rw [hcount] at hmasks
  have hfits : 14 + 4 * vlanCount bs ≤ bs.length := le_length_of_le_vlanCount le_rfl hlen
  have htags : vlanTags m (frameMasks p m) = (List.range (vlanCount bs)).map (tagAt bs) := by
    rw [hmasks]
    apply List.ext_getElem
    · simp
    · intro i h₁ h₂
      have hi : i < vlanCount bs := by simpa using h₂
      have hword : m.u32 (12 + 4 * i) = longAt bs (12 + 4 * i) := by
        unfold inL2infoMaxTags at hroom
        exact u32_eq hview (by omega)
      simp [vlanTags, tagAt, hword]
  exact congrArg (hardwareTag p ++ ·) htags

end FirstMbuf

/-- A driver hands up a packet with these bytes: at least an ethernet header of them in the
first mbuf, and no checksum behind them. -/
structure Carries (p : EtherPkt) (bs : List UInt8) : Prop where
  view : chainView p.m = bs.map .data
  plain : ∀ m ∈ p.m, m.mHole = false
  head : ∃ m ms, p.m = m :: ms ∧ etherHdrLen ≤ m.mLen ∧ m.mPkthdrLen = some (bs.length : ℤ)
  rcvif : p.rcvif = true
  nofcs : p.mHasfcs = false

/-- The first mbuf after the pull-up has all headers that can be read. -/
theorem exists_pullup {env : EtherEnv} {p : EtherPkt} {bs : List UInt8} (hmget : env.mget = true)
    (hp : Carries p bs) :
    let len := (p.m.head?.bind (·.mPkthdrLen)).getD 0
    let needed := (min len (etherHdrLen + inL2infoMaxTags * etherVlanEncapLen : ℕ)).toNat
    let mLen := (p.m.head?.map (·.mLen)).getD 0
    ∃ m ms, (if mLen < needed then mPullup env.maxProtohdr env.mget p.m needed else some p.m) =
        some (m :: ms) ∧ min bs.length 78 ≤ m.mLen ∧ chainView (m :: ms) = bs.map .data ∧
      m.mHole = false := by
  obtain ⟨m, ms, hm, hhead, hpkt⟩ := hp.head
  have htotal : chainLen (m :: ms) = bs.length := by
    rw [← chainView_length, ← hm, hp.view, List.length_map]
  have hmin : 14 ≤ bs.length := by
    rw [chainLen_cons] at htotal
    unfold etherHdrLen at hhead
    omega
  have hneeded : (min (bs.length : ℤ) ((14 + 16 * 4 : ℕ) : ℤ)).toNat = min bs.length 78 := by omega
  simp only [hm, List.head?_cons, Option.bind_some, Option.map_some, Option.getD_some, hpkt,
    etherHdrLen, inL2infoMaxTags, etherVlanEncapLen, hneeded, hmget]
  split
  · next hshort =>
    obtain ⟨m', ms', heq, hle, hview, hhole, -⟩ := mPullup_spec env.maxProtohdr m ms
      (min bs.length 78) (hm ▸ hp.plain) (by omega)
      ((min_le_right _ _).trans (by decide)) (by rw [htotal]; exact min_le_left _ _)
    exact ⟨m', ms', heq, hle, by rw [hview, ← hm, hp.view], hhole⟩
  · next hlong =>
    exact ⟨m, ms, rfl, not_lt.mp hlong, by rw [← hm, hp.view],
      hp.plain m (hm ▸ List.mem_cons_self)⟩

section Carried

variable {env : EtherEnv} {p : EtherPkt} {bs : List UInt8}

/-- The frame has room for its tags, and the type behind them is not one of a tag. -/
def WellTagged (p : EtherPkt) (bs : List UInt8) : Prop :=
  (hardwareTag p).length + vlanCount bs ≤ inL2infoMaxTags ∧ ethertypeIsVlan (typeBehind bs) = false

theorem vlanCount_eq_zero (htype : ethertypeIsVlan (shortAt bs 12) = false) : vlanCount bs = 0 := by
  by_contra hne
  have htag := isTag_of_lt_vlanCount (Nat.pos_of_ne_zero hne)
  simp only [isTag, Bool.and_eq_true, Nat.mul_zero, Nat.add_zero, htype] at htag
  cases htag.2

theorem shortAt_vlan_iff (hgood : WellTagged p bs) :
    ethertypeIsVlan (shortAt bs 12) = true ↔ vlanCount bs ≠ 0 := by
  constructor
  · intro hvlan hzero
    have hnot := hgood.2
    rw [typeBehind, hzero, hvlan] at hnot
    cases hnot
  · intro hne
    by_contra hnot
    exact hne (vlanCount_eq_zero (by simpa using hnot))

theorem Carries.length_le (hp : Carries p bs) : 14 ≤ bs.length := by
  obtain ⟨m, ms, hm, hhead, -⟩ := hp.head
  exact hhead.trans (mLen_le_length (hm ▸ hp.view))

section

variable (halloc : env.tagAlloc = true) (hmget : env.mget = true) (hp : Carries p bs)
include halloc hmget hp

theorem promiscinetInput_none (hbad : ¬ WellTagged p bs) (dhost shost : BitVec 48) :
    promiscinetInput env p dhost shost (shortAt bs 12) = none := by
  have hvlan : ethertypeIsVlan (shortAt bs 12) = true := by
    by_contra htype
    rw [Bool.not_eq_true] at htype
    have hzero := vlanCount_eq_zero htype
    have hhw := length_hardwareTag_le p
    refine hbad ⟨?_, ?_⟩
    · unfold inL2infoMaxTags
      omega
    · rwa [typeBehind, hzero]
  obtain ⟨m, ms, hpull, hpulled, hview, -⟩ := exists_pullup hmget hp
  obtain ⟨-, hiff⟩ := u16_frameMasks hview hpulled hp.length_le p
  have hmore := mt hiff.mp hbad
  rw [Bool.not_eq_false] at hmore
  simp only [promiscinetInput, halloc, hvlan, hpull, hmore, Bool.not_true, Bool.false_eq_true,
    ↓reduceIte, or_true]

theorem promiscinetInput_some (hgood : WellTagged p bs) (dhost shost : BitVec 48) :
    ∃ p' stack, promiscinetInput env p dhost shost (shortAt bs 12) = some (p', typeBehind bs) ∧
      p'.mVlantag = false ∧
      p'.l2info = some { inl2iLocalAddr := dhost, inl2iForeignAddr := shost,
                         inl2iTagstack := stack } ∧
      stack.inl2tTags = hardwareTag p ++ (List.range (vlanCount bs)).map (tagAt bs) ∧
      chainView p'.m = (bs.take 12 ++ bs.drop (12 + 4 * vlanCount bs)).map .data := by
  cases htype : ethertypeIsVlan (shortAt bs 12) with
  | false =>
    have hzero := vlanCount_eq_zero htype
    rw [promiscinetInput, halloc, htype, typeBehind, hzero]
    refine ⟨_, _, rfl, rfl, rfl, by simp, ?_⟩
    rw [Nat.mul_zero, Nat.add_zero, List.take_append_drop]
    exact hp.view
  | true =>
    obtain ⟨m, ms, hpull, hpulled, hview, hhole⟩ := exists_pullup hmget hp
    obtain ⟨hfits, hiff⟩ := u16_frameMasks hview hpulled hp.length_le p
    have hstack := receivedStack_eq hview hpulled hp.length_le p hgood.1
    have hcount : (frameMasks p m).length = vlanCount bs := by
      have hroom := hgood.1
      rw [frameMasks_eq hview hpulled, List.length_map, List.length_range]
      omega
    have hbytes : (frameMasks p m).length * etherVlanEncapLen = 4 * vlanCount bs := by
      rw [hcount, etherVlanEncapLen, Nat.mul_comm]
    rw [hbytes] at hfits hiff
    have hend : m.u16 (12 + 4 * vlanCount bs) = typeBehind bs := by
      unfold etherHdrLen at hfits
      exact u16_eq hview (by omega)
    have hgood' : ¬ (m.mLen < 4 * vlanCount bs + etherHdrLen ∨
        ethertypeIsVlan (typeBehind bs) = true) := by
      rw [hgood.2]
      simpa using hfits
    simp only [promiscinetInput, halloc, htype, hpull, hbytes, hend, u16_memmove, if_neg hgood',
      Bool.not_true, Bool.false_eq_true, ↓reduceIte]
    refine ⟨_, _, rfl, rfl, rfl, hstack, ?_⟩
    have hcut := chainView_memmove_mAdj m ms (4 * vlanCount bs) 12 hhole (by
      unfold etherHdrLen at hfits
      omega)
    rw [hview, ← List.map_take, ← List.map_drop, ← List.map_append, Nat.add_comm] at hcut
    exact hcut

end

end Carried

theorem mapPkthdrLen_plain {f : ℤ → ℤ} {ms : List Mbuf} (h : ∀ m ∈ ms, m.mHole = false) :
    ∀ m ∈ mapPkthdrLen f ms, m.mHole = false := by
  cases ms with
  | nil => exact h
  | cons m ms =>
    rw [mapPkthdrLen, List.forall_mem_cons] at *
    exact h

section

variable {ms : List Mbuf} (h : ∀ m ∈ ms, m.mHole = false)
include h

theorem mAdjTruncate_plain (count : ℕ) : ∀ m ∈ mAdjTruncate ms count, m.mHole = false := by
  induction ms generalizing count with
  | nil => exact h
  | cons m ms ih =>
    rw [List.forall_mem_cons] at h
    unfold mAdjTruncate
    split_ifs
    · simpa using h.1
    · rw [List.forall_mem_cons]
      exact ⟨h.1, ih h.2 _⟩

theorem mAdjTail_plain (len : ℕ) : ∀ m ∈ mAdjTail ms len, m.mHole = false := by
  unfold mAdjTail
  split
  · simp
  · next l hl =>
    split_ifs
    · apply mapPkthdrLen_plain
      intro m hm
      rcases List.mem_append.mp hm with hm | hm
      · exact h m (List.mem_of_mem_dropLast hm)
      · rw [List.mem_singleton.mp hm, Mbuf.trimTail_mHole]
        exact h l (List.mem_of_getLast? hl)
    · exact mapPkthdrLen_plain (mAdjTruncate_plain h _)

end

/-- The first mbuf loses bytes only if all others are empty. -/
theorem mAdjTail_cons (ms : List Mbuf) (len : ℕ) (hlen : len ≤ chainLen (m :: ms))
    (hfits : chainLen (m :: ms) ≤ intMax)
    (hpkt : m.mPkthdrLen = some (chainLen (m :: ms) : ℤ)) :
    ∃ m' ms', mAdjTail (m :: ms) len = m' :: ms' ∧
      m'.mLen = min m.mLen (chainLen (m :: ms) - len) ∧ m'.mtod = m.mtod ∧
      m'.mPkthdrLen = some ((chainLen (m :: ms) - len : ℕ) : ℤ) := by
  have hl := List.getLast?_eq_some_getLast (List.cons_ne_nil m ms)
  generalize (m :: ms).getLast _ = l at hl
  have hcount := mAdjTail_count hfits (hlen.trans hfits)
  have hshorter : Option.map (fun n : ℤ => wrapInt (n - len)) m.mPkthdrLen =
      some ((chainLen (m :: ms) - len : ℕ) : ℤ) := by
    rw [hpkt, Option.map_some, Int.ofNat_sub hlen, wrapInt_eq (by omega) (by omega)]
  have hset : Option.map (fun _ : ℤ => wrapInt (chainLen (m :: ms) - len : ℕ)) m.mPkthdrLen =
      some ((chainLen (m :: ms) - len : ℕ) : ℤ) := by
    rw [hpkt, Option.map_some, wrapInt_eq (by omega) (by omega)]
  unfold mAdjTail
  rw [hl]
  dsimp only
  rw [hcount]
  split_ifs with hlast
  · rcases List.eq_nil_or_concat ms with rfl | ⟨front, last, rfl⟩
    · obtain rfl : m = l := Option.some.inj hl
      refine ⟨_, [], rfl, ?_, rfl, hshorter⟩
      simp [Mbuf.trimTail, chainLen]
    · have hsplit : m :: front.concat last = (m :: front) ++ [last] := by simp
      have hl' : last = l := by
        rw [hsplit, List.getLast?_concat] at hl
        exact Option.some.inj hl
      have hdrop : (m :: front.concat last).dropLast = m :: front := by
        rw [hsplit, List.dropLast_concat]
      rw [hdrop]
      refine ⟨_, _, rfl, ?_, rfl, hshorter⟩
      have hsum : chainLen (m :: front.concat last) = m.mLen + (chainLen front + last.mLen) := by
        simp [chainLen]
      rw [hsum, hl']
      change m.mLen = _
      omega
  · unfold mAdjTruncate
    split_ifs with hcut
    · refine ⟨_, [], rfl, ?_, rfl, hset⟩
      change chainLen (m :: ms) - len = _
      omega
    · refine ⟨_, _, rfl, ?_, rfl, hset⟩
      change m.mLen = _
      omega

/-- A driver hands up a frame, with the checksum behind it if the flag says so.  The first mbuf
has the bytes of a header; those of the checksum may be among them. -/
structure Framed (p : EtherPkt) (bs : List UInt8) : Prop where
  view : ∃ fcs : List UInt8, fcs.length = (if p.mHasfcs then etherCrcLen else 0) ∧
    chainView p.m = (bs ++ fcs).map .data
  plain : ∀ m ∈ p.m, m.mHole = false
  head : ∃ m ms, p.m = m :: ms ∧ etherHdrLen ≤ m.mLen ∧ m.mPkthdrLen = some (chainLen p.m : ℤ)
  fits : p.mHasfcs = true → chainLen p.m ≤ intMax
  rcvif : p.rcvif = true

theorem Carries.framed {p : EtherPkt} {bs : List UInt8} (hp : Carries p bs) : Framed p bs := by
  have hnofcs := hp.nofcs
  refine ⟨⟨[], ?_, ?_⟩, hp.plain, ?_, fun hfcs => ?_, hp.rcvif⟩
  · rw [hnofcs]
    rfl
  · rw [List.append_nil, hp.view]
  · rw [← chainView_length, hp.view, List.length_map]
    exact hp.head
  · rw [hnofcs] at hfcs
    cases hfcs

def EtherPkt.trimmed : EtherPkt :=
  if p.mHasfcs then { p with m := mAdj p.m (-etherCrcLen), mHasfcs := false } else p

theorem trimmed_mHasfcs : p.trimmed.mHasfcs = false := by
  unfold EtherPkt.trimmed
  split_ifs with hflag
  · rfl
  · simpa using hflag

theorem trimmed_rcvif : p.trimmed.rcvif = p.rcvif := by
  unfold EtherPkt.trimmed
  split_ifs <;> rfl

theorem byteAt_append {bs fcs : List UInt8} {i : ℕ} (hi : i < bs.length) :
    byteAt (bs ++ fcs) i = byteAt bs i := by
  rw [byteAt, byteAt, List.getD_eq_getElem?_getD, List.getElem?_append_left hi,
    ← List.getD_eq_getElem?_getD]

namespace Framed

variable {p : EtherPkt} {bs : List UInt8} (hp : Framed p bs)
include hp

theorem chainLen_eq : chainLen p.m = bs.length + if p.mHasfcs then etherCrcLen else 0 := by
  obtain ⟨fcs, hfcs, hview⟩ := hp.view
  rw [← chainView_length, hview, List.length_map, List.length_append, hfcs]

/-- The checksum takes four of the first fourteen bytes at most. -/
theorem ten_le_length : 10 ≤ bs.length := by
  have htotal := hp.chainLen_eq
  obtain ⟨m, ms, hm, hhead, -⟩ := hp.head
  rw [hm, chainLen_cons] at htotal
  unfold etherHdrLen at hhead
  unfold etherCrcLen at htotal
  split_ifs at htotal <;> omega

theorem trimmed_view : chainView p.trimmed.m = bs.map .data := by
  have htotal := hp.chainLen_eq
  obtain ⟨fcs, hfcs, hview⟩ := hp.view
  unfold EtherPkt.trimmed
  cases hflag : p.mHasfcs with
  | false =>
    rw [hflag] at hfcs
    have hnil : fcs = [] := List.length_eq_zero_iff.mp hfcs
    rw [hnil, List.append_nil] at hview
    exact hview
  | true =>
    rw [hflag] at htotal
    have hadj : mAdj p.m (-etherCrcLen) = mAdjTail p.m 4 := rfl
    change chainView (mAdj p.m (-etherCrcLen)) = bs.map .data
    rw [hadj, chainView_mAdjTail p.m 4 (hp.fits hflag) (by decide), hview, ← List.map_take]
    congr 1
    rw [htotal]
    simp [etherCrcLen]

/-- What is in front of the checksum is read in the first mbuf. -/
theorem octet_eq {m : Mbuf} {ms : List Mbuf} (hm : p.m = m :: ms) {i : ℕ} (hi : i < 14)
    (hlen : i < bs.length) : m.octet i = byteAt bs i := by
  obtain ⟨m₀, ms₀, hm₀, hhead, -⟩ := hp.head
  obtain ⟨rfl, rfl⟩ : m₀ = m ∧ ms₀ = ms := by simpa [hm] using hm₀.symm
  obtain ⟨fcs, -, hview⟩ := hp.view
  unfold etherHdrLen at hhead
  rw [hm] at hview
  rw [Libuinet.octet_eq hview (by omega), byteAt_append hlen]

theorem type_eq {m : Mbuf} {ms : List Mbuf} (hlong : etherHdrLen ≤ bs.length)
    (hm : p.m = m :: ms) : m.u16 12 = shortAt bs 12 := by
  unfold etherHdrLen at hlong
  rw [Mbuf.u16, shortAt, hp.octet_eq hm (by omega) (by omega),
    hp.octet_eq hm (by omega) (by omega)]

theorem addr_eq {m : Mbuf} {ms : List Mbuf} {off : ℕ} (hoff : off ≤ 6)
    (hlong : off + 6 ≤ bs.length) (hm : p.m = m :: ms) : m.u48 off = addrAt bs off := by
  have hbyte (i : ℕ) (hi : i < 6) : m.octet (off + i) = byteAt bs (off + i) :=
    hp.octet_eq hm (by omega) (by omega)
  rw [Mbuf.u48, addrAt, ← Nat.add_zero off, hbyte 0 (by decide)]
  simp only [Nat.add_zero, hbyte 1 (by decide), hbyte 2 (by decide), hbyte 3 (by decide),
    hbyte 4 (by decide), hbyte 5 (by decide)]

theorem trimmed_plain : ∀ m ∈ p.trimmed.m, m.mHole = false := by
  unfold EtherPkt.trimmed
  split_ifs
  · exact mAdjTail_plain hp.plain 4
  · exact hp.plain

/-- The checksum goes, and the memory stays as it was. -/
theorem trimmed_head : ∃ m ms m' ms', p.m = m :: ms ∧ p.trimmed.m = m' :: ms' ∧
    etherHdrLen ≤ m.mLen ∧ m.mPkthdrLen.isSome = true ∧ m'.mLen = min m.mLen bs.length ∧
    m'.mtod = m.mtod ∧ m'.mPkthdrLen = some (bs.length : ℤ) := by
  have htotal := hp.chainLen_eq
  have hfits := hp.fits
  obtain ⟨m, ms, hm, hhead, hpkt⟩ := hp.head
  rw [hm] at hpkt htotal hfits
  have hsome : m.mPkthdrLen.isSome = true := by
    rw [hpkt]
    rfl
  unfold EtherPkt.trimmed
  cases hflag : p.mHasfcs with
  | false =>
    rw [hflag] at htotal
    refine ⟨m, ms, m, ms, hm, hm, hhead, hsome, ?_, rfl, ?_⟩
    · rw [chainLen_cons] at htotal
      simp only [Bool.false_eq_true, if_false] at htotal
      omega
    · rw [hpkt, htotal]
      simp
  | true =>
    rw [hflag] at htotal
    have hfour : chainLen (m :: ms) = bs.length + 4 := htotal
    obtain ⟨m', ms', heq, hlen', hmem, hpkt'⟩ := mAdjTail_cons m ms 4 (by omega) (hfits hflag) hpkt
    have hrest : chainLen (m :: ms) - 4 = bs.length := by omega
    rw [hrest] at hlen' hpkt'
    refine ⟨m, ms, m', ms', hm, ?_, hhead, hsome, hlen', hmem, hpkt'⟩
    change mAdj p.m (-etherCrcLen) = _
    rw [hm, ← heq]
    rfl

theorem trimmed (hlong : etherHdrLen ≤ bs.length) : Carries p.trimmed bs := by
  obtain ⟨m, ms, m', ms', -, hm', hhead, -, hlen, -, hpkt⟩ := hp.trimmed_head
  refine ⟨hp.trimmed_view, hp.trimmed_plain, ⟨m', ms', hm', ?_, hpkt⟩, ?_, trimmed_mHasfcs p⟩
  · rw [hlen]
    exact le_min hhead hlong
  · rw [trimmed_rcvif]
    exact hp.rcvif

end Framed

/-- The interface takes frames, and the tag for the link-level information can be had. -/
def Takes (ifp : EtherIfp) (env : EtherEnv) : Prop :=
  ifp.iffUp = true ∧ ifp.iffMonitor = false ∧ env.tagAlloc = true

theorem hardwareTag_trimmed : hardwareTag p.trimmed = hardwareTag p := by
  unfold EtherPkt.trimmed
  split_ifs <;> rfl

/-- With no more than the addresses in front of the checksum there is no tag. -/
theorem vlanCount_eq_zero_of_short (hshort : bs.length < 14) : vlanCount bs = 0 := by
  by_contra hne
  have htag := isTag_of_lt_vlanCount (Nat.pos_of_ne_zero hne)
  simp only [isTag, Bool.and_eq_true, decide_eq_true_eq] at htag
  omega

section Input

variable {ifp : EtherIfp} {env : EtherEnv} {p p' : EtherPkt} {bs : List UInt8} {m : Mbuf}
  {ms : List Mbuf}

section

variable (hp : Framed p bs)
include hp

section

variable (hpromisc : ifp.iffPromiscinet = true)
include hpromisc

/-- What reaches the stripping of the tags. -/
theorem etherInputInternal_promisc (hm : p.m = m :: ms) (hup : ifp.iffUp = true)
    (hmonitor : ifp.iffMonitor = false) (env : EtherEnv) :
    etherInputInternal ifp env p =
      (promiscinetInput env p.trimmed (m.u48 0) (m.u48 6) (m.u16 12)).bind
        fun (p, etype) => vlanInput env p etype := by
  obtain ⟨m₀, ms₀, hm₀, hhead, hpkt⟩ := hp.head
  obtain ⟨rfl, rfl⟩ : m₀ = m ∧ ms₀ = ms := by simpa [hm] using hm₀.symm
  rw [etherInputInternal, hm]
  simp only [hup, hmonitor, hpromisc, hpkt, hp.rcvif, not_lt.mpr hhead, Option.isNone_some,
    Bool.not_true, Bool.or_self, Bool.false_eq_true, decide_false, if_false, if_true, ← hm,
    EtherPkt.trimmed]

theorem etherInputInternal_eq (hlong : etherHdrLen ≤ bs.length) (hup : ifp.iffUp = true)
    (hmonitor : ifp.iffMonitor = false) (env : EtherEnv) :
    etherInputInternal ifp env p =
      (promiscinetInput env p.trimmed (addrAt bs 0) (addrAt bs 6) (shortAt bs 12)).bind
        fun (p, etype) => vlanInput env p etype := by
  obtain ⟨m, ms, hm, -, -⟩ := hp.head
  rw [etherInputInternal_promisc hp hpromisc hm hup hmonitor, hp.type_eq hlong hm]
  unfold etherHdrLen at hlong
  rw [hp.addr_eq (by decide) (by omega) hm, hp.addr_eq le_rfl (by omega) hm]

theorem etherInputInternal_refused (hnot : ¬ Takes ifp env) :
    etherInputInternal ifp env p = none := by
  obtain ⟨m, ms, hm, -, -⟩ := hp.head
  by_cases hup : ifp.iffUp = true
  · cases hmonitor : ifp.iffMonitor with
    | true =>
      rw [etherInputInternal, hm]
      simp [hmonitor]
    | false =>
      have halloc : env.tagAlloc = false := by
        by_contra htag
        exact hnot ⟨hup, hmonitor, by simpa using htag⟩
      rw [etherInputInternal_promisc hp hpromisc hm hup hmonitor]
      simp [promiscinetInput, halloc]
  · rw [etherInputInternal, hm]
    simp [hup]

theorem takes_of_passed (h : etherInputInternal ifp env p = some p') : Takes ifp env := by
  by_contra hnot
  rw [etherInputInternal_refused hp hpromisc hnot] at h
  cases h

section

variable (hlong : etherHdrLen ≤ bs.length)
include hlong

theorem etherInputInternal_malformed (htakes : Takes ifp env) (hmget : env.mget = true)
    (hbad : ¬ WellTagged p bs) : etherInputInternal ifp env p = none := by
  obtain ⟨hup, hmonitor, halloc⟩ := htakes
  rw [etherInputInternal_eq hp hpromisc hlong hup hmonitor,
    promiscinetInput_none halloc hmget (hp.trimmed hlong)]
  · rfl
  · rwa [WellTagged, hardwareTag_trimmed]

theorem etherInputInternal_stripped (htakes : Takes ifp env) (hmget : env.mget = true)
    (hgood : WellTagged p bs) :
    ∃ p' stack, etherInputInternal ifp env p = some p' ∧
      p'.l2info = some { inl2iLocalAddr := addrAt bs 0, inl2iForeignAddr := addrAt bs 6,
                         inl2iTagstack := stack } ∧
      stack.inl2tTags = hardwareTag p ++ (List.range (vlanCount bs)).map (tagAt bs) ∧
      chainView p'.m = (bs.take 12 ++ bs.drop (12 + 4 * vlanCount bs)).map .data := by
  obtain ⟨hup, hmonitor, halloc⟩ := htakes
  obtain ⟨p', stack, hinput, hflag, hinfo, hstack, hview⟩ := promiscinetInput_some halloc hmget
    (hp.trimmed hlong) (by rwa [WellTagged, hardwareTag_trimmed]) (addrAt bs 0) (addrAt bs 6)
  have hother : typeBehind bs ≠ ethertypeVlan := by
    intro htype
    have hnot := hgood.2
    rw [htype] at hnot
    cases hnot
  refine ⟨p', _, ?_, hinfo, ?_, hview⟩
  · rw [etherInputInternal_eq hp hpromisc hlong hup hmonitor, hinput]
    change vlanInput env p' (typeBehind bs) = some p'
    simp [vlanInput, hflag, hother]
  · rw [← hardwareTag_trimmed]
    exact hstack

end

/-- A frame that is shorter than a header is passed on only without a VLAN type. -/
theorem type_of_passed_short (hshort : bs.length < 14) (hm : p.m = m :: ms)
    (h : etherInputInternal ifp env p = some p') : ethertypeIsVlan (m.u16 12) = false := by
  obtain ⟨hup, hmonitor, halloc⟩ := takes_of_passed hp hpromisc h
  by_contra hvlan
  rw [Bool.not_eq_false] at hvlan
  obtain ⟨m₀, ms₀, m', ms', hm₀, hm', hhead, -, hlen, -, hpkt⟩ := hp.trimmed_head
  obtain ⟨rfl, rfl⟩ : m₀ = m ∧ ms₀ = ms := by simpa [hm] using hm₀.symm
  unfold etherHdrLen at hhead
  have hless : ¬ m'.mLen <
      (min (bs.length : ℤ) (etherHdrLen + inL2infoMaxTags * etherVlanEncapLen : ℕ)).toNat := by
    omega
  have hbad (vlanBytes : ℕ) : m'.mLen < vlanBytes + etherHdrLen := by
    unfold etherHdrLen
    omega
  have hnone (dhost shost : BitVec 48) :
      promiscinetInput env p.trimmed dhost shost (m₀.u16 12) = none := by
    simp only [promiscinetInput, halloc, hvlan, hm', List.head?_cons, Option.bind_some,
      Option.map_some, Option.getD_some, hpkt, hless, if_false, Bool.not_true,
      Bool.false_eq_true]
    rw [if_pos (Or.inl (hbad _))]
  rw [etherInputInternal_promisc hp hpromisc hm hup hmonitor, hnone] at h
  cases h

end

end

end Input

/-- Memory that can be had changes nothing for a packet that is pulled up without it. -/
theorem mPullup_mget {maxProtohdr len : ℕ} {mget : Bool} {ms r : List Mbuf}
    (h : mPullup maxProtohdr mget ms len = some r) : mPullup maxProtohdr true ms len = some r := by
  cases mget with
  | true => exact h
  | false =>
    cases ms with
    | nil => exact h
    | cons n ns =>
      unfold mPullup at h ⊢
      dsimp only at h ⊢
      by_cases hplace : (n.mExt.isNone && decide (n.mOff + len < mlen) && !ns.isEmpty) = true
      · rw [if_pos hplace] at h ⊢
        exact h
      · rw [if_neg hplace, if_pos (by simp)] at h
        cases h

section Passed

variable {ifp : EtherIfp} {env : EtherEnv} {p p' : EtherPkt} {bs : List UInt8} {m : Mbuf}
  {ms : List Mbuf}

theorem promiscinetInput_mget {dhost shost : BitVec 48} {etype : BitVec 16}
    {r : EtherPkt × BitVec 16} (h : promiscinetInput env p dhost shost etype = some r) :
    promiscinetInput { env with mget := true } p dhost shost etype = some r := by
  unfold promiscinetInput at h ⊢
  dsimp only at h ⊢
  split_ifs at h ⊢
  · exact h
  · split at h
    · cases h
    · cases h
    · next m ms hpull =>
      rw [mPullup_mget hpull]
      exact h
  · exact h

theorem vlanInput_mget {etype : BitVec 16} (h : vlanInput env p etype = some p') :
    vlanInput { env with mget := true } p etype = some p' := by
  unfold vlanInput at h ⊢
  dsimp only at h ⊢
  split_ifs at h ⊢
  · exact h
  · split at h
    · cases h
    · cases h
    · next m ms hpull =>
      rw [mPullup_mget hpull]
      exact h
  · exact h

section

variable (hp : Framed p bs) (hpromisc : ifp.iffPromiscinet = true)
include hp hpromisc

theorem etherInputInternal_mget (h : etherInputInternal ifp env p = some p') :
    etherInputInternal ifp { env with mget := true } p = some p' := by
  obtain ⟨hup, hmonitor, -⟩ := takes_of_passed hp hpromisc h
  obtain ⟨m, ms, hm, -, -⟩ := hp.head
  rw [etherInputInternal_promisc hp hpromisc hm hup hmonitor, Option.bind_eq_some_iff] at h ⊢
  obtain ⟨r, hstrip, hrest⟩ := h
  exact ⟨r, promiscinetInput_mget hstrip, vlanInput_mget hrest⟩

/-- A frame that is passed on has room for its tags and no tag behind them. -/
theorem wellTagged_of_passed (hlong : etherHdrLen ≤ bs.length)
    (h : etherInputInternal ifp env p = some p') : WellTagged p bs := by
  by_contra hbad
  have htakes := takes_of_passed hp hpromisc h
  have hnone : etherInputInternal ifp { env with mget := true } p = none :=
    etherInputInternal_malformed hp hpromisc hlong htakes rfl hbad
  rw [etherInputInternal_mget hp hpromisc h] at hnone
  cases hnone

/-- A frame that is passed on has tags exactly when its first type says so. -/
theorem type_of_passed (hm : p.m = m :: ms) (h : etherInputInternal ifp env p = some p') :
    ethertypeIsVlan (m.u16 12) = true ↔ vlanCount bs ≠ 0 := by
  by_cases hlong : etherHdrLen ≤ bs.length
  · rw [← shortAt_vlan_iff (wellTagged_of_passed hp hpromisc hlong h), hp.type_eq hlong hm]
  · have hshort : bs.length < 14 := not_le.mp hlong
    simp [type_of_passed_short hp hpromisc hshort hm h, vlanCount_eq_zero_of_short bs hshort]

end

end Passed

def pullupNeeded (p : EtherPkt) : ℕ :=
  (min ((p.m.head?.bind (·.mPkthdrLen)).getD 0)
    (etherHdrLen + inL2infoMaxTags * etherVlanEncapLen : ℕ)).toNat

/-- `m_pullup` is called, and it does not go on with the first mbuf but frees it. -/
def pullupReplaces (p : EtherPkt) : Bool :=
  match p.m with
  | [] => false
  | n :: ns => n.mLen < pullupNeeded p &&
      !(n.mExt.isNone && n.mOff + pullupNeeded p < mlen && !ns.isEmpty)

/-- An access past `m_len`, to a slot that is not there, or to an mbuf that has been freed. -/
inductive Fault where
  | frame (off : ℕ)
  | slot (i : ℕ)
  | freed
  deriving DecidableEq

def Mbuf.access (off len : ℕ) : Except Fault Unit :=
  if off + len ≤ m.mLen then .ok () else .error (.frame (off + len))

/-- `struct in_l2tagstack`, with writes that are checked. -/
structure TagSlots where
  inl2tCnt : ℕ := 0
  inl2tTags : ℕ → BitVec 32 := fun _ => 0
  inl2tMasks : ℕ → BitVec 32 := fun _ => 0

namespace TagSlots

def setTag (ts : TagSlots) (i : ℕ) (tag : BitVec 32) : Except Fault TagSlots :=
  if i < inL2infoMaxTags then .ok { ts with inl2tTags := Function.update ts.inl2tTags i tag }
  else .error (.slot i)

def setMask (ts : TagSlots) (i : ℕ) (mask : BitVec 32) : Except Fault TagSlots :=
  if i < inL2infoMaxTags then .ok { ts with inl2tMasks := Function.update ts.inl2tMasks i mask }
  else .error (.slot i)

def stack (ts : TagSlots) : L2tagstack where
  inl2tTags := ((List.range ts.inl2tCnt).map fun i =>
    ⟨ts.inl2tTags i, ts.inl2tMasks i⟩).take inL2infoMaxTags
  bounded := List.length_take_le _ _

def ofHardware (p : EtherPkt) : Except Fault TagSlots :=
  if p.mVlantag then do
    let ts ← ({} : TagSlots).setTag 0 (ethertypeVlan ++ p.etherVtag)
    let ts ← ts.setMask 0 (vlanMask p.etherVtag)
    pure { ts with inl2tCnt := 1 }
  else pure {}

/-- The loop over the VLAN headers, with the number of bytes it has passed at the end. -/
def vlanWalk (m : Mbuf) (tdAvail : ℕ) (ts : TagSlots) (mask vlanBytes : ℕ) :
    Except Fault (TagSlots × ℕ) :=
  if vlanBytes + etherVlanEncapLen + etherHdrLen ≤ m.mLen then do
    m.access (12 + vlanBytes) 2
    if _h : ethertypeIsVlan (m.u16 (12 + vlanBytes)) ∧ vlanBytes + etherVlanEncapLen ≤ tdAvail then
      m.access (14 + vlanBytes) 2
      let ts ← ts.setMask mask (vlanMask (m.u16 (14 + vlanBytes)))
      vlanWalk m tdAvail ts (mask + 1) (vlanBytes + etherVlanEncapLen)
    else pure (ts, vlanBytes)
  else pure (ts, vlanBytes)
termination_by tdAvail - vlanBytes
decreasing_by
  unfold etherVlanEncapLen at *
  omega

def copyTags (ts : TagSlots) (m : Mbuf) (vlanBytes : ℕ) : Except Fault TagSlots := do
  m.access 12 vlanBytes
  let ts ← (List.range (vlanBytes / etherVlanEncapLen)).foldlM (fun ts i =>
    ts.setTag (ts.inl2tCnt + i) (m.u32 (12 + 4 * i))) ts
  pure { ts with inl2tCnt := ts.inl2tCnt + vlanBytes / etherVlanEncapLen }

end TagSlots

def stripChecked (l2info : L2info) (ts : TagSlots) (m : Mbuf) (ms : List Mbuf) :
    Except Fault (Option (EtherPkt × BitVec 16)) := do
  let tdAvail := (inL2infoMaxTags - ts.inl2tCnt) * etherVlanEncapLen
  let (ts, vlanBytes) ← TagSlots.vlanWalk m tdAvail ts ts.inl2tCnt 0
  if m.mLen < vlanBytes + etherHdrLen then pure none
  else
    m.access (12 + vlanBytes) 2
    if ethertypeIsVlan (m.u16 (12 + vlanBytes)) then pure none
    else
      let ts ← ts.copyTags m vlanBytes
      m.access 0 12
      m.access vlanBytes 12
      let moved := m.memmove vlanBytes 0 12
      moved.access (12 + vlanBytes) 2
      pure (some ({ p with
        m := mAdj (moved :: ms) vlanBytes
        mVlantag := false
        l2info := some { l2info with inl2iTagstack := ts.stack } }, moved.u16 (12 + vlanBytes)))

/-- `promiscinetInput` with its accesses to the frame and to the slots. -/
def promiscinetChecked (env : EtherEnv) (p : EtherPkt) (dhost shost : BitVec 48)
    (etype : BitVec 16) : Except Fault (Option (EtherPkt × BitVec 16)) :=
  if !env.tagAlloc then pure none
  else do
    let mLen := (p.m.head?.map (·.mLen)).getD 0
    -- the addresses are read where they were before the checksum was cut off
    if mLen < 12 then throw (.frame 12)
    let l2info : L2info := { inl2iLocalAddr := dhost, inl2iForeignAddr := shost,
                             inl2iTagAny := false }
    let ts ← TagSlots.ofHardware p
    if !ethertypeIsVlan etype then
      pure (some ({ p with
        mVlantag := false
        l2info := some { l2info with inl2iTagstack := ts.stack } }, etype))
    else
      let len := (p.m.head?.bind (·.mPkthdrLen)).getD 0
      let needed := (min len (etherHdrLen + inL2infoMaxTags * etherVlanEncapLen : ℕ)).toNat
      match if mLen < needed then mPullup env.maxProtohdr env.mget p.m needed else some p.m with
      | none | some [] => pure none
      | some (m :: ms) => stripChecked p l2info ts m ms

/-- The test at the end reads `eh->ether_dhost`, where the header was at first. -/
def ehChecked (p : EtherPkt) (etype : BitVec 16) : Except Fault Unit :=
  if ethertypeIsVlan etype && pullupReplaces p then .error .freed else .ok ()

/-- `etherInputInternal` with its accesses, on an interface in promiscuous mode. -/
def etherInputChecked (ifp : EtherIfp) (env : EtherEnv) (p : EtherPkt) :
    Except Fault (Option EtherPkt) :=
  match p.m with
  | [] => pure none
  | m :: _ =>
    if !ifp.iffUp || m.mPkthdrLen.isNone || m.mLen < etherHdrLen || !p.rcvif then pure none
    else do
      m.access 0 14
      let p := p.trimmed
      if ifp.iffMonitor then pure none
      else
        let r ← promiscinetChecked env p (m.u48 0) (m.u48 6) (m.u16 12)
        match r.bind fun (p, etype) => vlanInput env p etype with
        | none => pure none
        | some p' => do
          ehChecked p (m.u16 12)
          pure (some p')

theorem ok_bind {α β : Type} (a : α) (f : α → Except Fault β) :
    ((Except.ok a : Except Fault α) >>= f) = f a := rfl

theorem Mbuf.access_eq {m : Mbuf} {off len : ℕ} (h : off + len ≤ m.mLen) :
    m.access off len = .ok () := if_pos h

def writeFrom (f : ℕ → BitVec 32) (i : ℕ) : List (BitVec 32) → ℕ → BitVec 32
  | [] => f
  | v :: vs => writeFrom (Function.update f i v) (i + 1) vs

theorem writeFrom_of_lt (vs : List (BitVec 32)) {f : ℕ → BitVec 32} {i j : ℕ} (h : j < i) :
    writeFrom f i vs j = f j := by
  induction vs generalizing f i with
  | nil => rfl
  | cons v vs ih => rw [writeFrom, ih (by omega), Function.update_of_ne (by omega)]

theorem writeFrom_add (vs : List (BitVec 32)) (f : ℕ → BitVec 32) (i : ℕ) {k : ℕ}
    (hk : k < vs.length) : writeFrom f i vs (i + k) = vs[k] := by
  induction vs generalizing f i k with
  | nil => cases hk
  | cons v vs ih =>
    cases k with
    | zero =>
      rw [writeFrom, writeFrom_of_lt vs (by omega)]
      exact Function.update_self i v f
    | succ k =>
      rw [writeFrom, show i + (k + 1) = i + 1 + k by omega]
      exact ih _ _ (by simpa using hk)

namespace TagSlots

/-- The slots in use have these tags and masks. -/
structure Holds (ts : TagSlots) (tags : List MaskedBlock) : Prop where
  cnt : ts.inl2tCnt = tags.length
  tag : ∀ i (h : i < tags.length), ts.inl2tTags i = tags[i].block
  mask : ∀ i (h : i < tags.length), ts.inl2tMasks i = tags[i].mask

theorem Holds.stack {ts : TagSlots} {tags : List MaskedBlock} (h : ts.Holds tags)
    (hlen : tags.length ≤ inL2infoMaxTags) : ts.stack = ⟨tags, hlen⟩ := by
  have hlist : (List.range ts.inl2tCnt).map (fun i =>
      (⟨ts.inl2tTags i, ts.inl2tMasks i⟩ : MaskedBlock)) = tags := by
    apply List.ext_getElem
    · simp [h.cnt]
    · intro i h₁ h₂
      simp [h.tag i h₂, h.mask i h₂]
  simp only [TagSlots.stack, hlist]
  congr 1
  exact List.take_of_length_le hlen

theorem ofHardware_holds (p : EtherPkt) :
    ∃ ts, ofHardware p = .ok ts ∧ ts.Holds (hardwareTag p) := by
  unfold ofHardware hardwareTag
  split_ifs
  · refine ⟨_, rfl, rfl, fun i hi => ?_, fun i hi => ?_⟩
    · obtain rfl : i = 0 := by simpa using hi
      rfl
    · obtain rfl : i = 0 := by simpa using hi
      rfl
  · exact ⟨_, rfl, rfl, fun i hi => by simp at hi, fun i hi => by simp at hi⟩

/-- The loop writes the masks that it should, as long as there are slots for them. -/
theorem vlanWalk_eq (m : Mbuf) (tdAvail : ℕ) (ts : TagSlots) (mask vlanBytes : ℕ)
    (hroom : mask + (vlanMasks m tdAvail vlanBytes).length ≤ inL2infoMaxTags) :
    vlanWalk m tdAvail ts mask vlanBytes =
      .ok ({ ts with inl2tMasks := writeFrom ts.inl2tMasks mask (vlanMasks m tdAvail vlanBytes) },
        vlanBytes + (vlanMasks m tdAvail vlanBytes).length * etherVlanEncapLen) := by
  induction h : tdAvail - vlanBytes using Nat.strong_induction_on
    generalizing ts mask vlanBytes with
  | h left ih =>
    rw [vlanMasks] at hroom ⊢
    rw [vlanWalk]
    by_cases hmore : vlanBytes + etherVlanEncapLen + etherHdrLen ≤ m.mLen ∧
        ethertypeIsVlan (m.u16 (12 + vlanBytes)) = true ∧ vlanBytes + etherVlanEncapLen ≤ tdAvail
    · rw [if_pos hmore] at hroom ⊢
      obtain ⟨hfits, hvlan⟩ := hmore
      rw [List.length_cons] at hroom ⊢
      have hslot : mask < inL2infoMaxTags := by omega
      have hless : tdAvail - (vlanBytes + etherVlanEncapLen) < left := by
        have hroom' := hvlan.2
        unfold etherVlanEncapLen at hroom' ⊢
        omega
      set masks := Function.update ts.inl2tMasks mask (vlanMask (m.u16 (14 + vlanBytes)))
      have hnext := ih _ hless { ts with inl2tMasks := masks } (mask + 1)
        (vlanBytes + etherVlanEncapLen) (by omega) rfl
      rw [if_pos hfits, dif_pos hvlan, setMask, if_pos hslot]
      unfold etherVlanEncapLen etherHdrLen at hfits
      rw [Mbuf.access_eq (by omega), Mbuf.access_eq (by omega)]
      change vlanWalk m tdAvail _ _ _ = _
      rw [hnext]
      simp only [writeFrom]
      congr 2
      unfold etherVlanEncapLen
      omega
    · rw [if_neg hmore]
      by_cases hfits : vlanBytes + etherVlanEncapLen + etherHdrLen ≤ m.mLen
      · rw [if_pos hfits, dif_neg (fun hvlan => hmore ⟨hfits, hvlan⟩)]
        unfold etherVlanEncapLen etherHdrLen at hfits
        rw [Mbuf.access_eq (by omega)]
        rfl
      · rw [if_neg hfits]
        rfl

/-- So does the copy of the tags. -/
theorem foldlM_setTag (m : Mbuf) (count : ℕ) (ts : TagSlots) (i : ℕ)
    (hroom : ts.inl2tCnt + i + count ≤ inL2infoMaxTags) :
    (List.range' i count).foldlM (fun ts i => ts.setTag (ts.inl2tCnt + i) (m.u32 (12 + 4 * i))) ts =
      .ok { ts with
        inl2tTags := writeFrom ts.inl2tTags (ts.inl2tCnt + i)
          ((List.range' i count).map fun j => m.u32 (12 + 4 * j)) } := by
  induction count generalizing ts i with
  | zero => rfl
  | succ count ih =>
    rw [List.range'_succ, List.foldlM_cons, setTag, if_pos (by omega)]
    exact ih (TagSlots.mk ts.inl2tCnt (Function.update ts.inl2tTags (ts.inl2tCnt + i)
      (m.u32 (12 + 4 * i))) ts.inl2tMasks) (i + 1) (by dsimp only; omega)

theorem copyTags_eq {ts : TagSlots} {m : Mbuf} {count : ℕ}
    (hroom : ts.inl2tCnt + count ≤ inL2infoMaxTags)
    (hfits : count * etherVlanEncapLen + etherHdrLen ≤ m.mLen) :
    ts.copyTags m (count * etherVlanEncapLen) = .ok { ts with
      inl2tCnt := ts.inl2tCnt + count
      inl2tTags := writeFrom ts.inl2tTags ts.inl2tCnt
        ((List.range count).map fun j => m.u32 (12 + 4 * j)) } := by
  unfold etherHdrLen at hfits
  have hcount : count * etherVlanEncapLen / etherVlanEncapLen = count :=
    Nat.mul_div_cancel _ (by decide)
  have hfold := foldlM_setTag m count ts 0 hroom
  rw [Nat.add_zero, ← List.range_eq_range'] at hfold
  rw [copyTags, Mbuf.access_eq (by omega), hcount, hfold]
  rfl

/-- Behind the tags that were there come those of the frame. -/
theorem Holds.append {ts : TagSlots} {tags : List MaskedBlock} (h : ts.Holds tags) (m : Mbuf)
    (masks : List (BitVec 32)) :
    ({ inl2tCnt := ts.inl2tCnt + masks.length
       inl2tTags := writeFrom ts.inl2tTags ts.inl2tCnt
         ((List.range masks.length).map fun j => m.u32 (12 + 4 * j))
       inl2tMasks := writeFrom ts.inl2tMasks ts.inl2tCnt masks } : TagSlots).Holds
      (tags ++ vlanTags m masks) := by
  have hcnt := h.cnt
  have hsplit (i : ℕ) (hi : i < (tags ++ vlanTags m masks).length) (hge : ¬ i < tags.length) :
      ∃ k, k < masks.length ∧ i = tags.length + k := by
    rw [List.length_append, length_vlanTags] at hi
    exact ⟨i - tags.length, by omega, by omega⟩
  refine ⟨by rw [List.length_append, length_vlanTags, hcnt], fun i hi => ?_, fun i hi => ?_⟩
  · by_cases hlt : i < tags.length
    · dsimp only
      rw [writeFrom_of_lt _ (by omega), List.getElem_append_left hlt]
      exact h.tag i hlt
    · obtain ⟨k, hk, rfl⟩ := hsplit i hi hlt
      dsimp only
      rw [hcnt, writeFrom_add _ _ _ (by simpa using hk)]
      simp [vlanTags]
  · by_cases hlt : i < tags.length
    · dsimp only
      rw [writeFrom_of_lt _ (by omega), List.getElem_append_left hlt]
      exact h.mask i hlt
    · obtain ⟨k, hk, rfl⟩ := hsplit i hi hlt
      dsimp only
      rw [hcnt, writeFrom_add _ _ _ hk]
      simp [vlanTags]

end TagSlots

theorem stripChecked_eq {p : EtherPkt} {ts : TagSlots} (h : ts.Holds (hardwareTag p))
    (l2info : L2info) (m : Mbuf) (ms : List Mbuf) :
    stripChecked p l2info ts m ms = .ok (
      let vlanBytes := (frameMasks p m).length * etherVlanEncapLen
      if m.mLen < vlanBytes + etherHdrLen ∨ ethertypeIsVlan (m.u16 (12 + vlanBytes)) then none
      else some ({ p with
        m := mAdj (m.memmove vlanBytes 0 12 :: ms) vlanBytes
        mVlantag := false
        l2info := some { l2info with inl2iTagstack := receivedStack p m } },
        (m.memmove vlanBytes 0 12).u16 (12 + vlanBytes))) := by
  have hroom := (receivedStack p m).bounded
  rw [receivedStack, List.length_append, length_vlanTags, ← h.cnt] at hroom
  have hmasks : vlanMasks m ((inL2infoMaxTags - ts.inl2tCnt) * etherVlanEncapLen) 0 =
      frameMasks p m := by
    rw [frameMasks, h.cnt]
  have hwalk := TagSlots.vlanWalk_eq m ((inL2infoMaxTags - ts.inl2tCnt) * etherVlanEncapLen) ts
    ts.inl2tCnt 0 (by rwa [hmasks])
  rw [hmasks, Nat.zero_add] at hwalk
  unfold stripChecked
  dsimp only
  rw [hwalk, ok_bind]
  dsimp only
  by_cases hshort : m.mLen < (frameMasks p m).length * etherVlanEncapLen + etherHdrLen
  · rw [if_pos hshort, if_pos (Or.inl hshort)]
    rfl
  · have hfits := not_lt.mp hshort
    rw [if_neg hshort]
    have haccess (off len : ℕ)
        (hle : off + len ≤ (frameMasks p m).length * etherVlanEncapLen + etherHdrLen) :
        m.access off len = .ok () := Mbuf.access_eq (hle.trans hfits)
    unfold etherHdrLen at haccess
    rw [haccess _ _ (by omega), ok_bind]
    by_cases hvlan : ethertypeIsVlan
        (m.u16 (12 + (frameMasks p m).length * etherVlanEncapLen)) = true
    · rw [if_pos hvlan, if_pos (Or.inr hvlan)]
      rfl
    · rw [if_neg hvlan, if_neg (not_or.mpr ⟨hshort, hvlan⟩),
        TagSlots.copyTags_eq (by exact hroom) hfits, ok_bind, haccess _ _ (by omega), ok_bind,
        haccess _ _ (by omega), ok_bind]
      have hmoved : (m.memmove ((frameMasks p m).length * etherVlanEncapLen) 0 12).access
          (12 + (frameMasks p m).length * etherVlanEncapLen) 2 = .ok () :=
        haccess _ _ (by omega)
      rw [hmoved, ok_bind, (h.append m (frameMasks p m)).stack]
      rfl

/-- No frame makes the code read past the end of the first mbuf or write past the slots. -/
theorem promiscinetChecked_eq {p : EtherPkt} {m : Mbuf} {ms : List Mbuf} (hm : p.m = m :: ms)
    (hlen : 12 ≤ m.mLen) (env : EtherEnv) (dhost shost : BitVec 48) (etype : BitVec 16) :
    promiscinetChecked env p dhost shost etype =
      .ok (promiscinetInput env p dhost shost etype) := by
  unfold promiscinetChecked promiscinetInput
  cases env.tagAlloc with
  | false => rfl
  | true =>
    obtain ⟨ts, hts, hholds⟩ := TagSlots.ofHardware_holds p
    have hshort : ¬ ((p.m.head?.map (·.mLen)).getD 0) < 12 := by
      rw [hm]
      exact not_lt.mpr hlen
    simp only [Bool.not_true, Bool.false_eq_true, if_false, if_neg hshort]
    rw [hts]
    cases ethertypeIsVlan etype with
    | false =>
      rw [ok_bind, hholds.stack ((length_hardwareTag_le p).trans (by decide))]
      rfl
    | true =>
      rw [ok_bind]
      simp only [Bool.not_true, Bool.false_eq_true, if_false]
      generalize (if (p.m.head?.map (·.mLen)).getD 0 < _ then mPullup env.maxProtohdr env.mget p.m _
        else some p.m) = pulled
      cases pulled with
      | none => rfl
      | some pulled =>
        cases pulled with
        | nil => rfl
        | cons m' ms' => exact stripChecked_eq hholds _ m' ms'

/-- The interface does not take frames; or the addresses are in front of the checksum, and a frame
with tags is not passed on when `m_pullup` has freed the mbuf that `eh` points to. -/
def ReadsInside (ifp : EtherIfp) (env : EtherEnv) (p : EtherPkt) (bs : List UInt8) : Prop :=
  Takes ifp env → 12 ≤ bs.length ∧ ((etherInputInternal ifp env p).isSome = true →
    vlanCount bs = 0 ∨ pullupReplaces p.trimmed = false)

section Checked

variable {ifp : EtherIfp} {p : EtherPkt} {bs : List UInt8} (hp : Framed p bs)
include hp

theorem etherInputChecked_refused {env : EtherEnv} (hnot : ¬ Takes ifp env) :
    etherInputChecked ifp env p = .ok none := by
  obtain ⟨m, ms, hm, hhead, -⟩ := hp.head
  unfold etherHdrLen at hhead
  rw [etherInputChecked, hm]
  dsimp only
  split_ifs with hdiscard hmonitor
  · rfl
  · rw [Mbuf.access_eq (by omega)]
    rfl
  · have halloc : env.tagAlloc = false := by
      simp only [Bool.or_eq_true, not_or, Bool.not_eq_true, Bool.not_eq_false'] at hdiscard
      by_contra htag
      exact hnot ⟨hdiscard.1.1.1, by simpa using hmonitor, by simpa using htag⟩
    rw [Mbuf.access_eq (by omega), promiscinetChecked, halloc]
    rfl

/-- On an interface that takes frames the addresses are read again, then the tags are, and then
once more the destination. -/
theorem etherInputChecked_takes {env : EtherEnv} (htakes : Takes ifp env) {m : Mbuf}
    {ms : List Mbuf} (hm : p.m = m :: ms) :
    etherInputChecked ifp env p = (do
      let r ← promiscinetChecked env p.trimmed (m.u48 0) (m.u48 6) (m.u16 12)
      match r.bind fun (p, etype) => vlanInput env p etype with
      | none => pure none
      | some p' => do
        ehChecked p.trimmed (m.u16 12)
        pure (some p')) := by
  obtain ⟨hup, hmonitor, -⟩ := htakes
  obtain ⟨m₀, ms₀, hm₀, hhead, hpkt⟩ := hp.head
  obtain ⟨rfl, rfl⟩ : m₀ = m ∧ ms₀ = ms := by simpa [hm] using hm₀.symm
  have haccess : m₀.access 0 14 = .ok () := Mbuf.access_eq (by unfold etherHdrLen at hhead; omega)
  rw [etherInputChecked, hm]
  simp only [hup, hmonitor, hpkt, hp.rcvif, not_lt.mpr hhead, haccess, Option.isNone_some,
    Bool.not_true, Bool.or_self, Bool.false_eq_true, decide_false, if_false, ok_bind]

theorem etherInputChecked_iff (hpromisc : ifp.iffPromiscinet = true) (env : EtherEnv) :
    etherInputChecked ifp env p = .ok (etherInputInternal ifp env p) ↔
      ReadsInside ifp env p bs := by
  by_cases htakes : Takes ifp env
  · obtain ⟨m, ms, m', ms', hm, hm', hhead, -, hlen, -, -⟩ := hp.trimmed_head
    have hinput := etherInputInternal_promisc hp hpromisc hm htakes.1 htakes.2.1 env
    unfold etherHdrLen at hhead
    rw [etherInputChecked_takes hp htakes hm]
    by_cases haddrs : 12 ≤ bs.length
    · rw [promiscinetChecked_eq hm' (by omega), ok_bind, ← hinput]
      simp only [ReadsInside, htakes, haddrs, true_implies, true_and]
      cases hpassed : etherInputInternal ifp env p with
      | none => exact iff_of_true rfl (by simp)
      | some p' =>
        have htype := type_of_passed hp hpromisc hm hpassed
        unfold ehChecked
        by_cases hzero : vlanCount bs = 0
        · have hplain : ethertypeIsVlan (m.u16 12) = false := by simpa [hzero] using htype
          rw [hplain]
          exact iff_of_true rfl fun _ => .inl hzero
        · rw [htype.mpr hzero]
          cases pullupReplaces p.trimmed with
          | false => exact iff_of_true rfl fun _ => .inr rfl
          | true =>
            refine iff_of_false (fun h => ?_) (by simp [hzero])
            cases h
    · have hshort : (p.trimmed.m.head?.map (·.mLen)).getD 0 < 12 := by
        rw [hm']
        change m'.mLen < 12
        omega
      rw [promiscinetChecked, htakes.2.2]
      simp only [Bool.not_true, Bool.false_eq_true, if_false, if_pos hshort]
      refine iff_of_false ?_ fun hin => haddrs (hin htakes).1
      intro h
      cases h
  · rw [etherInputChecked_refused hp htakes, etherInputInternal_refused hp hpromisc htakes]
    exact iff_of_true rfl fun h => absurd h htakes

end Checked

/-- A frame on a promiscuous interface with its header in front of the checksum is passed on exactly
when it has room for its tags and the type behind them is not one of a tag; then the tags are off
the frame and filed in their order.  No access goes past the first mbuf or the slots, on any frame,
exactly as long as the checksum leaves the addresses and `m_pullup` the mbuf they are read in. -/
theorem vlan_strip (ifp : EtherIfp) (env : EtherEnv) (p : EtherPkt) (bs : List UInt8)
    (hpromisc : ifp.iffPromiscinet = true) (hp : Framed p bs) :
    (etherHdrLen ≤ bs.length → env.mget = true →
      ((etherInputInternal ifp env p).isSome ↔ Takes ifp env ∧
        (hardwareTag p).length + vlanCount bs ≤ inL2infoMaxTags ∧
        ethertypeIsVlan (typeBehind bs) = false) ∧
      ∀ p', etherInputInternal ifp env p = some p' →
        chainView p'.m = (bs.take 12 ++ bs.drop (12 + 4 * vlanCount bs)).map .data ∧
        ∃ l2i, p'.l2info = some l2i ∧ l2i.inl2iTagstack.inl2tTags =
          hardwareTag p ++ (List.range (vlanCount bs)).map (tagAt bs)) ∧
    (etherInputChecked ifp env p = .ok (etherInputInternal ifp env p) ↔
      ReadsInside ifp env p bs) := by
  refine ⟨fun hlong hmget => ?_, etherInputChecked_iff hp hpromisc env⟩
  by_cases htakes : Takes ifp env
  · by_cases hgood : WellTagged p bs
    · obtain ⟨p', stack, hinput, hinfo, htags, hview⟩ :=
        etherInputInternal_stripped hp hpromisc hlong htakes hmget hgood
      rw [hinput]
      refine ⟨⟨fun _ => ⟨htakes, hgood⟩, fun _ => rfl⟩, ?_⟩
      rintro _ ⟨⟩
      exact ⟨hview, _, hinfo, htags⟩
    · rw [etherInputInternal_malformed hp hpromisc hlong htakes hmget hgood]
      exact ⟨⟨by simp, fun h => absurd h.2 hgood⟩, by simp⟩
  · rw [etherInputInternal_refused hp hpromisc htakes]
    exact ⟨⟨by simp, fun h => absurd h.1 htakes⟩, by simp⟩

def vlanFrame : List UInt8 :=
  [2, 0, 0, 0, 0, 1, 2, 0, 0, 0, 0, 2, 0x81, 0, 0, 5, 8, 0, 1, 2, 3]

def vlanPkt : EtherPkt :=
  { m := [{ Mbuf.ofBytes vlanFrame with mPkthdrLen := some 21 }] }

theorem vlanPkt_framed : Framed vlanPkt vlanFrame := by
  refine ⟨⟨[], rfl, rfl⟩, fun m hm => ?_, ⟨_, _, rfl, by decide, rfl⟩, by decide, rfl⟩
  rw [List.mem_singleton.mp hm]
  rfl

theorem vlan_strip_one :
    vlanCount vlanFrame = 1 ∧ ∃ p', etherInputChecked ⟨true, false, true⟩ ⟨true, true, 0⟩ vlanPkt =
        .ok (some p') ∧
      chainView p'.m =
        [2, 0, 0, 0, 0, 1, 2, 0, 0, 0, 0, 2, 8, 0, 1, 2, 3].map Elem.data ∧
      p'.l2info.map (·.inl2iTagstack.inl2tTags) = some [⟨0x81000005, 0xfff⟩] := by
  have hcount : vlanCount vlanFrame = 1 := by decide +kernel
  obtain ⟨hstrip, hreads⟩ := vlan_strip ⟨true, false, true⟩ ⟨true, true, 0⟩ vlanPkt vlanFrame rfl
    vlanPkt_framed
  obtain ⟨hiff, htags⟩ := hstrip (by decide) rfl
  have hsome := hiff.mpr ⟨⟨rfl, rfl, rfl⟩, by rw [hcount]; decide, by
    rw [typeBehind, hcount]
    decide⟩
  obtain ⟨p', hp'⟩ := Option.isSome_iff_exists.mp hsome
  obtain ⟨hview, l2i, hinfo, hstack⟩ := htags p' hp'
  rw [hcount] at hview hstack
  have hinside : ReadsInside ⟨true, false, true⟩ ⟨true, true, 0⟩ vlanPkt vlanFrame :=
    fun _ => ⟨by decide, fun _ => .inr (by decide)⟩
  refine ⟨hcount, p', (hreads.mpr hinside).trans (congrArg _ hp'), hview, ?_⟩
  rw [hinfo, Option.map_some, hstack]
  decide

def qinqFrame : List UInt8 :=
  [2, 0, 0, 0, 0, 1, 2, 0, 0, 0, 0, 2, 0x88, 0xa8, 0, 7, 0x81, 0, 0, 5, 8, 0, 1, 2, 3]

def splitPkt : EtherPkt :=
  { m := [{ Mbuf.ofBytes (qinqFrame.take 14) with mPkthdrLen := some 25, mExt := some ⟨2048, 1⟩ },
      Mbuf.ofBytes (qinqFrame.drop 14)] }

def runtFrame : List UInt8 := [2, 0, 0, 0, 0, 1, 2, 0, 0, 0]

/-- Fourteen bytes, the last four of them a checksum. -/
def runtPkt : EtherPkt :=
  { m := [{ Mbuf.ofBytes (runtFrame ++ [9, 9, 9, 9]) with mPkthdrLen := some 14 }]
    mHasfcs := true }

def faultOf {α : Type} : Except Fault α → Option Fault
  | .error f => some f
  | .ok _ => none

/-- The header is alone in an mbuf that `m_pullup` frees, and is read there again; and a source
address that reaches into the checksum is read after that has been cut off. -/
theorem vlan_strip_faults :
    Framed splitPkt qinqFrame ∧
    faultOf (etherInputChecked ⟨true, false, true⟩ ⟨true, true, 0⟩ splitPkt) = some .freed ∧
    Framed runtPkt runtFrame ∧
    faultOf (etherInputChecked ⟨true, false, true⟩ ⟨true, true, 0⟩ runtPkt) =
      some (.frame 12) := by
  refine ⟨⟨⟨[], rfl, rfl⟩, fun m hm => ?_, ⟨_, _, rfl, by decide, rfl⟩, by decide, rfl⟩,
    by decide +kernel,
    ⟨⟨[9, 9, 9, 9], rfl, rfl⟩, fun m hm => ?_, ⟨_, _, rfl, by decide, rfl⟩, by decide, rfl⟩,
    by decide +kernel⟩
  · rcases List.mem_pair.mp hm with rfl | rfl <;> rfl
  · rw [List.mem_singleton.mp hm]
    rfl

end Libuinet
