import Libuinet.VlanStrip

namespace Libuinet

def etherIsMulticast (addr : BitVec 48) : Bool := addr.getLsbD 40

def notForUs (lladdr dhost : BitVec 48) : Bool := !etherIsMulticast dhost && lladdr ≠ dhost

/-- `eh->ether_dhost` at the end, on an interface in promiscuous mode.  `stale` is what is found in
the place of an mbuf that has been freed. -/
def ehDhost (env : EtherEnv) (stale : BitVec 48) (p : EtherPkt) : BitVec 48 :=
  match p.m with
  | [] => stale
  | eh :: _ =>
    if !ethertypeIsVlan (eh.u16 12) then eh.u48 0
    else if pullupReplaces p then stale
    else
      match if eh.mLen < pullupNeeded p then mPullup env.maxProtohdr env.mget p.m (pullupNeeded p)
        else some p.m with
      | none | some [] => stale
      | some (m :: _) =>
        -- the addresses are moved within the mbuf, and the pointer is not
        (m.memmove ((frameMasks p m).length * etherVlanEncapLen) 0 12).u48 0

/-- `ether_input_internal` up to `ether_demux`, with `M_PROMISC`, which the driver leaves clear and
nothing but the test sets: there is no carp, bridge or netgraph. -/
def etherInputDemux (ifp : EtherIfp) (lladdr : BitVec 48) (env : EtherEnv) (stale : BitVec 48)
    (p : EtherPkt) : Option (EtherPkt × Bool) :=
  (etherInputInternal ifp env p).map fun p' =>
    (p', notForUs lladdr (ehDhost env stale p.trimmed))

def dhostOf (bs : List UInt8) : BitVec 48 :=
  ofBe48 (byteAt bs 0) (byteAt bs 1) (byteAt bs 2) (byteAt bs 3) (byteAt bs 4) (byteAt bs 5)

/-- The same when the first bytes of it have been written over the last two. -/
def overwritten (bs : List UInt8) : BitVec 48 :=
  ofBe48 (byteAt bs 0) (byteAt bs 1) (byteAt bs 2) (byteAt bs 3) (byteAt bs 0) (byteAt bs 1)

section Pointer

variable {m : Mbuf} {ms : List Mbuf} {bs : List UInt8}

/-- Two tags or more leave the address alone. -/
theorem u48_memmove_of_le (m : Mbuf) {vlanBytes : ℕ} (h : 6 ≤ vlanBytes) :
    (m.memmove vlanBytes 0 12).u48 0 = m.u48 0 := by
  have hbyte (i : ℕ) (hi : i < 6) : (m.memmove vlanBytes 0 12).octet i = m.octet i := by
    simp [Mbuf.octet, Mbuf.memmove, show ¬ vlanBytes ≤ i by omega]
  rw [Mbuf.u48, Mbuf.u48, hbyte _ (by omega), hbyte _ (by omega), hbyte _ (by omega),
    hbyte _ (by omega), hbyte _ (by omega), hbyte _ (by omega)]

/-- One tag does not. -/
theorem u48_memmove_four (hview : chainView (m :: ms) = bs.map .data) (hlen : 6 ≤ m.mLen) :
    (m.memmove 4 0 12).u48 0 = overwritten bs := by
  have hfront (i : ℕ) (hi : i < 4) : (m.memmove 4 0 12).octet i = byteAt bs i := by
    rw [← octet_eq hview (by omega)]
    simp [Mbuf.octet, Mbuf.memmove, show ¬ 4 ≤ i by omega]
  have hback (i : ℕ) (hi : i < 2) : (m.memmove 4 0 12).octet (i + 4) = byteAt bs i := by
    rw [← octet_eq hview (by omega)]
    simp [Mbuf.octet, Mbuf.memmove, show i + 4 < 16 by omega]
  rw [Mbuf.u48, overwritten, hfront _ (by omega), hfront _ (by omega), hfront _ (by omega),
    hfront _ (by omega), hback _ (by omega), Nat.add_comm 0 5, hback 1 (by omega)]

end Pointer

/-- The multicast bit is in the first byte. -/
theorem etherIsMulticast_ofBe48 (a b c d e f : OptByte) :
    etherIsMulticast (ofBe48 a b c d e f) = a.getLsbD 0 := by
  unfold etherIsMulticast ofBe48
  simp only [BitVec.getLsbD_append]
  simp

theorem etherIsMulticast_overwritten (bs : List UInt8) :
    etherIsMulticast (overwritten bs) = etherIsMulticast (dhostOf bs) := by
  rw [overwritten, dhostOf, etherIsMulticast_ofBe48, etherIsMulticast_ofBe48]

section Carried

variable {env : EtherEnv} {p : EtherPkt} {bs : List UInt8}

def shownDhost (bs : List UInt8) : BitVec 48 :=
  if vlanCount bs = 1 then overwritten bs else dhostOf bs

theorem ehDhost_eq (hmget : env.mget = true) (hp : Carries p bs) (hgood : WellTagged p bs)
    (stale : BitVec 48) :
    ehDhost env stale p =
      if vlanCount bs = 0 then dhostOf bs else if pullupReplaces p then stale
      else shownDhost bs := by
  obtain ⟨eh, ms, hm, hhead, -⟩ := hp.head
  unfold etherHdrLen at hhead
  have hview : chainView (eh :: ms) = bs.map .data := hm ▸ hp.view
  have htype : eh.u16 12 = shortAt bs 12 := u16_eq hview (by omega)
  by_cases hzero : vlanCount bs = 0
  · have hnot : ethertypeIsVlan (shortAt bs 12) = false := by
      rw [← Bool.not_eq_true, shortAt_vlan_iff hgood]
      exact not_not.mpr hzero
    rw [if_pos hzero, ehDhost, hm]
    simp only [htype, hnot, Bool.not_false, if_true]
    exact u48_eq hview (by omega)
  · have hvlan := (shortAt_vlan_iff hgood).mpr hzero
    obtain ⟨m, ms', hpull, hpulled, hview', -⟩ := exists_pullup hmget hp
    rw [hm] at hpull
    have hcount : (frameMasks p m).length * etherVlanEncapLen = 4 * vlanCount bs := by
      have hroom := hgood.1
      rw [frameMasks_eq hview' hpulled, List.length_map, List.length_range, etherVlanEncapLen]
      omega
    have hlen : 6 ≤ m.mLen := by
      have hlong := hp.length_le
      omega
    have hshown : (m.memmove (4 * vlanCount bs) 0 12).u48 0 = shownDhost bs := by
      unfold shownDhost
      split_ifs with hone
      · rw [hone]
        exact u48_memmove_four hview' hlen
      · rw [u48_memmove_of_le m (by omega), u48_eq hview' hlen]
        rfl
    rw [if_neg hzero, ehDhost, hm]
    simp only [htype, hvlan, Bool.not_true, Bool.false_eq_true, if_false]
    by_cases hreplaced : pullupReplaces p = true
    · rw [if_pos hreplaced, if_pos hreplaced]
    · rw [if_neg hreplaced, if_neg hreplaced]
      have hpull' : (if eh.mLen < pullupNeeded p then
          mPullup env.maxProtohdr env.mget (eh :: ms) (pullupNeeded p) else some (eh :: ms)) =
          some (m :: ms') := by
        rw [pullupNeeded, hm]
        exact hpull
      rw [hpull']
      dsimp only
      rw [hcount]
      exact hshown

end Carried

/-- A header that stays in its mbuf needs no memory. -/
theorem ehDhost_mget (env : EtherEnv) (stale : BitVec 48) (p : EtherPkt) :
    ehDhost { env with mget := true } stale p = ehDhost env stale p := by
  unfold ehDhost
  cases hm : p.m with
  | nil => rfl
  | cons eh ms =>
    dsimp only
    by_cases hreplaced : pullupReplaces p = true
    · rw [if_pos hreplaced, if_pos hreplaced]
    · rw [if_neg hreplaced, if_neg hreplaced]
      by_cases hshort : eh.mLen < pullupNeeded p
      · have hplace : (eh.mExt.isNone && decide (eh.mOff + pullupNeeded p < mlen) &&
            !ms.isEmpty) = true := by
          by_contra hnot
          rw [Bool.not_eq_true] at hnot
          apply hreplaced
          simp only [pullupReplaces, hm, hnot, hshort, decide_true, Bool.not_false, Bool.and_self]
        have hsame (mget : Bool) : mPullup env.maxProtohdr mget (eh :: ms) (pullupNeeded p) =
            mPullup env.maxProtohdr true (eh :: ms) (pullupNeeded p) := by
          unfold mPullup
          dsimp only
          rw [if_pos hplace, if_pos hplace]
        rw [hsame env.mget]
      · rw [if_neg hshort, if_neg hshort]

/-- Where the pointer is taken, the address is still the one that was received; or its loss does
not matter. -/
def Undisturbed (lladdr : BitVec 48) (p : EtherPkt) (bs : List UInt8) : Prop :=
  vlanCount bs = 0 ∨ pullupReplaces p.trimmed = false ∧
    (vlanCount bs = 1 → etherIsMulticast (dhostOf bs) = true ∨
      (lladdr = dhostOf bs ↔ lladdr = overwritten bs))

/-- There is an address that is judged either way. -/
theorem exists_notForUs (lladdr : BitVec 48) (b : Bool) : ∃ stale, notForUs lladdr stale = b := by
  cases b with
  | false => exact ⟨0xffffffffffff, by simp [notForUs, etherIsMulticast]⟩
  | true =>
    by_cases hzero : lladdr = 0
    · exact ⟨1, by rw [hzero]; decide⟩
    · exact ⟨0, by simpa [notForUs, etherIsMulticast] using hzero⟩

theorem notForUs_overwritten_iff (lladdr : BitVec 48) (bs : List UInt8) :
    notForUs lladdr (overwritten bs) = notForUs lladdr (dhostOf bs) ↔
      etherIsMulticast (dhostOf bs) = true ∨
        (lladdr = dhostOf bs ↔ lladdr = overwritten bs) := by
  unfold notForUs
  rw [etherIsMulticast_overwritten]
  cases etherIsMulticast (dhostOf bs) with
  | true => simp
  | false =>
    simp only [Bool.not_false, Bool.true_and, ne_eq, decide_not, Bool.not_inj_iff,
      Bool.false_eq_true, false_or, decide_eq_decide]
    exact Iff.comm

section Shown

variable {ifp : EtherIfp} {env : EtherEnv} {p p' : EtherPkt} {bs : List UInt8} (hp : Framed p bs)
  (hpromisc : ifp.iffPromiscinet = true) (hpassed : etherInputInternal ifp env p = some p')
include hp hpromisc hpassed

/-- The address that the test sees at the end, for a frame that is passed on. -/
theorem ehDhost_of_passed (stale : BitVec 48) :
    ehDhost env stale p.trimmed =
      if vlanCount bs = 0 then dhostOf bs else if pullupReplaces p.trimmed then stale
      else shownDhost bs := by
  by_cases hlong : etherHdrLen ≤ bs.length
  · have hgood : WellTagged p.trimmed bs := by
      rw [WellTagged, hardwareTag_trimmed]
      exact wellTagged_of_passed hp hpromisc hlong hpassed
    rw [← ehDhost_mget, ehDhost_eq rfl (hp.trimmed hlong) hgood]
  · -- the address is in front of the checksum in any case
    have hshort : bs.length < 14 := not_le.mp hlong
    obtain ⟨m, ms, m', ms', hm, hm', -, -, -, hmem, -⟩ := hp.trimmed_head
    have htype := type_of_passed_short hp hpromisc hshort hm hpassed
    have hlen := hp.ten_le_length
    have htype' : m'.u16 12 = m.u16 12 := by simp only [Mbuf.u16, Mbuf.octet, hmem]
    have haddr : m'.u48 0 = m.u48 0 := by simp only [Mbuf.u48, Mbuf.octet, hmem]
    rw [if_pos (vlanCount_eq_zero_of_short bs hshort), ehDhost, hm']
    dsimp only
    rw [htype', htype, haddr, hp.addr_eq (by decide) (by omega) hm]
    rfl

end Shown

/-- A frame that is passed on is marked as one for another host exactly when it is, whatever is in
freed memory, unless its one tag or a pull-up has moved the address away from the pointer. -/
theorem promisc_mark_kept_iff (ifp : EtherIfp) (lladdr : BitVec 48) (env : EtherEnv)
    (p p' : EtherPkt) (bs : List UInt8) (hpromisc : ifp.iffPromiscinet = true) (hp : Framed p bs)
    (hpassed : etherInputInternal ifp env p = some p') :
    (∀ stale, etherInputDemux ifp lladdr env stale p =
      some (p', notForUs lladdr (dhostOf bs))) ↔ Undisturbed lladdr p bs := by
  have hdemux : (∀ stale, etherInputDemux ifp lladdr env stale p =
      some (p', notForUs lladdr (dhostOf bs))) ↔
      ∀ stale, notForUs lladdr (ehDhost env stale p.trimmed) = notForUs lladdr (dhostOf bs) := by
    simp only [etherInputDemux, hpassed, Option.map_some, Option.some.injEq, Prod.mk.injEq,
      true_and]
  rw [hdemux]
  simp only [ehDhost_of_passed hp hpromisc hpassed]
  unfold Undisturbed
  by_cases hzero : vlanCount bs = 0
  · simp [hzero]
  · simp only [hzero, if_false, false_or]
    cases hreplaced : pullupReplaces p.trimmed with
    | true =>
      simp only [if_true, Bool.true_eq_false, false_and, iff_false, not_forall]
      obtain ⟨stale, hstale⟩ := exists_notForUs lladdr (!notForUs lladdr (dhostOf bs))
      exact ⟨stale, by simp [hstale]⟩
    | false =>
      simp only [Bool.false_eq_true, if_false, forall_const, true_and, shownDhost]
      by_cases hone : vlanCount bs = 1
      · simp only [hone, if_true, true_implies]
        exact notForUs_overwritten_iff lladdr bs
      · simp [hone]

def qinqPkt : EtherPkt :=
  { m := [{ Mbuf.ofBytes qinqFrame with mPkthdrLen := some 25 }] }

theorem qinqPkt_framed : Framed qinqPkt qinqFrame := by
  refine ⟨⟨[], rfl, rfl⟩, fun m hm => ?_, ⟨_, _, rfl, by decide, rfl⟩, by decide, rfl⟩
  rw [List.mem_singleton.mp hm]
  rfl

/-- For the host itself and for another one. -/
theorem promisc_mark_kept_qinq : ∃ p', ∀ stale,
    etherInputDemux ⟨true, false, true⟩ 0x020000000001 ⟨true, true, 0⟩ stale qinqPkt =
      some (p', false) ∧
    etherInputDemux ⟨true, false, true⟩ 0x020000000009 ⟨true, true, 0⟩ stale qinqPkt =
      some (p', true) := by
  have hcount : vlanCount qinqFrame = 2 := by decide +kernel
  have hsome : (etherInputInternal ⟨true, false, true⟩ ⟨true, true, 0⟩ qinqPkt).isSome = true := by
    decide +kernel
  obtain ⟨p', hp'⟩ := Option.isSome_iff_exists.mp hsome
  have hkept (lladdr : BitVec 48) : Undisturbed lladdr qinqPkt qinqFrame :=
    .inr ⟨by decide, fun hone => absurd (hcount.symm.trans hone) (by decide)⟩
  have hmark (lladdr : BitVec 48) := (promisc_mark_kept_iff _ lladdr _ qinqPkt p' qinqFrame rfl
    qinqPkt_framed hp').mpr (hkept lladdr)
  exact ⟨p', fun stale => ⟨hmark _ stale, hmark _ stale⟩⟩

/-- With one tag a frame for the host is marked, and a frame for another one is not; with the header
in a mbuf that is freed, the mark depends on what is found there. -/
theorem promisc_mark_lost :
    dhostOf vlanFrame = 0x020000000001 ∧
    (etherInputDemux ⟨true, false, true⟩ 0x020000000001 ⟨true, true, 0⟩ 0 vlanPkt).map Prod.snd =
      some true ∧
    (etherInputDemux ⟨true, false, true⟩ 0x020000000200 ⟨true, true, 0⟩ 0 vlanPkt).map Prod.snd =
      some false ∧
    (etherInputDemux ⟨true, false, true⟩ 0x020000000001 ⟨true, true, 0⟩ 0 splitPkt).map Prod.snd =
      some true ∧
    (etherInputDemux ⟨true, false, true⟩ 0x020000000001 ⟨true, true, 0⟩ 0x020000000001
      splitPkt).map Prod.snd = some false := by
  refine ⟨by decide, ?_, ?_, ?_, ?_⟩ <;> decide +kernel

end Libuinet
