import Libuinet.VlanStrip

namespace Libuinet

def tagProto (tag : BitVec 32) : BitVec 16 := tag.extractLsb' 16 16

def tagTci (tag : BitVec 32) : BitVec 16 := tag.extractLsb' 0 16

theorem be32_eq (tag : BitVec 32) : be32 tag = be16 (tagProto tag) ++ be16 (tagTci tag) := by
  simp only [be32, be16, tagProto, tagTci, List.cons_append, List.nil_append, List.cons.injEq,
    and_true]
  refine ⟨?_, ?_, ?_, ?_⟩
  all_goals
    ext i hi
    simp only [BitVec.getElem_extractLsb', BitVec.getLsbD_extractLsb']
    grind

theorem tagProto_append_tagTci (tag : BitVec 32) : tagProto tag ++ tagTci tag = tag := by
  unfold tagProto tagTci
  ext i hi
  simp only [BitVec.getElem_append, BitVec.getElem_extractLsb']
  split_ifs <;> grind

/-- The bytes of a frame behind the addresses. -/
def tagBytes (tags : List MaskedBlock) (type : BitVec 16) (payload : List UInt8) : List UInt8 :=
  wireBytes (tags.flatMap (be32 ·.block)) ++ (wireBytes (be16 type) ++ payload)

def frameBytes (dhost shost : BitVec 48) (tags : List MaskedBlock) (type : BitVec 16)
    (payload : List UInt8) : List UInt8 :=
  wireBytes (be48 dhost) ++ (wireBytes (be48 shost) ++ tagBytes tags type payload)

theorem length_tagBytes (tags : List MaskedBlock) (type : BitVec 16) (payload : List UInt8) :
    (tagBytes tags type payload).length = 4 * tags.length + 2 + payload.length := by
  have htags : (tags.flatMap (be32 ·.block)).length = 4 * tags.length := by
    induction tags with
    | nil => rfl
    | cons t tags ih =>
      rw [List.flatMap_cons, List.length_append, ih]
      simp only [be32, List.length_cons, List.length_nil]
      omega
  simp [tagBytes, htags, be16]
  omega

theorem tagBytes_cons (t : MaskedBlock) (tags : List MaskedBlock) (type : BitVec 16)
    (payload : List UInt8) :
    tagBytes (t :: tags) type payload = wireBytes (be32 t.block) ++ tagBytes tags type payload := by
  simp [tagBytes, wireBytes]

theorem drop_tagBytes (tags : List MaskedBlock) (type : BitVec 16) (payload : List UInt8) (i : ℕ)
    (hi : i ≤ tags.length) :
    (tagBytes tags type payload).drop (4 * i) = tagBytes (tags.drop i) type payload := by
  induction i generalizing tags with
  | zero => rfl
  | succ i ih =>
    cases tags with
    | nil => simp at hi
    | cons t tags =>
      have hfour : 4 * (i + 1) = 4 + 4 * i := by omega
      rw [hfour, ← List.drop_drop, tagBytes_cons]
      exact ih tags (Nat.le_of_succ_le_succ hi)

theorem byteAt_drop (bs : List UInt8) (off k : ℕ) :
    byteAt (bs.drop off) k = byteAt bs (off + k) := by
  simp [byteAt]

section Words

variable {bs rest : List UInt8} {off : ℕ}

theorem shortAt_of_drop {x : BitVec 16} (hdrop : bs.drop off = wireBytes (be16 x) ++ rest) :
    shortAt bs off = x := by
  have hfront : shortAt bs off = shortAt (bs.drop off) 0 := by simp [shortAt, byteAt_drop]
  rw [hfront, hdrop]
  exact ofBe16_be16 x

theorem longAt_of_drop {x : BitVec 32} (hdrop : bs.drop off = wireBytes (be32 x) ++ rest) :
    longAt bs off = x := by
  have hfront : longAt bs off = longAt (bs.drop off) 0 := by simp [longAt, byteAt_drop]
  rw [hfront, hdrop]
  exact ofBe32_be32 x

theorem addrAt_of_drop {x : BitVec 48} (hdrop : bs.drop off = wireBytes (be48 x) ++ rest) :
    addrAt bs off = x := by
  have hfront : addrAt bs off = addrAt (bs.drop off) 0 := by simp [addrAt, byteAt_drop]
  rw [hfront, hdrop]
  exact ofBe48_be48 x

end Words

/-- The tags of a stack all start with a VLAN ethertype. -/
def VlanTags (tags : List MaskedBlock) : Prop :=
  ∀ t ∈ tags, ethertypeIsVlan (tagProto t.block) = true

def received (t : MaskedBlock) : MaskedBlock := ⟨t.block, vlanMask (tagTci t.block)⟩

section Frame

variable {bs : List UInt8} {tags : List MaskedBlock} {type : BitVec 16} {payload : List UInt8}
  (hbs : bs.drop 12 = tagBytes tags type payload)
include hbs

theorem drop_tag {i : ℕ} (hi : i < tags.length) :
    bs.drop (12 + 4 * i) =
      wireBytes (be32 tags[i].block) ++ tagBytes (tags.drop (i + 1)) type payload := by
  rw [← List.drop_drop, hbs, drop_tagBytes _ _ _ _ hi.le, ← tagBytes_cons,
    List.drop_eq_getElem_cons hi]

theorem drop_type : bs.drop (12 + 4 * tags.length) = wireBytes (be16 type) ++ payload := by
  rw [← List.drop_drop, hbs, drop_tagBytes _ _ _ _ le_rfl, List.drop_length]
  rfl

/-- The words of a tag. -/
theorem shortAt_tag {i : ℕ} (hi : i < tags.length) :
    shortAt bs (12 + 4 * i) = tagProto tags[i].block ∧
      shortAt bs (14 + 4 * i) = tagTci tags[i].block := by
  have hdrop := drop_tag hbs hi
  rw [be32_eq, wireBytes, List.map_append, List.append_assoc] at hdrop
  have hbehind : bs.drop (14 + 4 * i) =
      wireBytes (be16 (tagTci tags[i].block)) ++ tagBytes (tags.drop (i + 1)) type payload := by
    rw [show 14 + 4 * i = 12 + 4 * i + 2 by omega, ← List.drop_drop, hdrop]
    rfl
  exact ⟨shortAt_of_drop hdrop, shortAt_of_drop hbehind⟩

theorem tagAt_eq {i : ℕ} (hi : i < tags.length) : tagAt bs i = received tags[i] := by
  rw [tagAt, (shortAt_tag hbs hi).2, longAt_of_drop (drop_tag hbs hi), received]

theorem typeBehind_eq (htags : VlanTags tags) (htype : ethertypeIsVlan type = false) :
    vlanCount bs = tags.length ∧ typeBehind bs = type := by
  have hend : shortAt bs (12 + 4 * tags.length) = type := shortAt_of_drop (drop_type hbs)
  have hlen := congrArg List.length hbs
  rw [length_tagBytes, List.length_drop] at hlen
  have hcount : vlanCount bs = tags.length := by
    apply vlanCount_eq
    · intro i hi
      rw [isTag, (shortAt_tag hbs hi).1, htags _ (List.getElem_mem hi), Bool.and_true,
        decide_eq_true_eq]
      omega
    · rw [isTag, hend, htype, Bool.and_false]
  exact ⟨hcount, by rw [typeBehind, hcount, hend]⟩

theorem map_tagAt : (List.range tags.length).map (tagAt bs) = tags.map received := by
  apply List.ext_getElem
  · simp
  · intro i h₁ h₂
    rw [List.getElem_map, List.getElem_map, List.getElem_range]
    exact tagAt_eq hbs (by simpa using h₂)

end Frame

/-- The information a receiver finds in a frame that was sent with `l2i`. -/
def L2info.returned (l2i : L2info) : L2info where
  inl2iLocalAddr := l2i.inl2iForeignAddr
  inl2iForeignAddr := l2i.inl2iLocalAddr
  inl2iTagstack := ⟨l2i.inl2iTagstack.inl2tTags.map received, by
    rw [List.length_map]
    exact l2i.inl2iTagstack.bounded⟩

theorem etherInputInternal_frame {ifp : EtherIfp} {env : EtherEnv} {p : EtherPkt}
    {dhost shost : BitVec 48} {tags : List MaskedBlock} {type : BitVec 16} {payload : List UInt8}
    (hpromisc : ifp.iffPromiscinet = true) (htakes : Takes ifp env) (hmget : env.mget = true)
    (htags : VlanTags tags) (htype : ethertypeIsVlan type = false)
    (hbound : (hardwareTag p ++ tags.map received).length ≤ inL2infoMaxTags)
    (hp : Carries p (frameBytes dhost shost tags type payload)) :
    ∃ p', etherInputInternal ifp env p = some p' ∧
      p'.l2info = some { inl2iLocalAddr := dhost, inl2iForeignAddr := shost,
                         inl2iTagstack := ⟨hardwareTag p ++ tags.map received, hbound⟩ } ∧
      chainView p'.m = (frameBytes dhost shost [] type payload).map .data := by
  have hbs : (frameBytes dhost shost tags type payload).drop 12 = tagBytes tags type payload := rfl
  have hdhost : addrAt (frameBytes dhost shost tags type payload) 0 = dhost := addrAt_of_drop rfl
  have hshost : addrAt (frameBytes dhost shost tags type payload) 6 = shost := addrAt_of_drop rfl
  have htake : (frameBytes dhost shost tags type payload).take 12 =
      wireBytes (be48 dhost) ++ wireBytes (be48 shost) := rfl
  generalize frameBytes dhost shost tags type payload = bs at *
  obtain ⟨hcount, hbehind⟩ := typeBehind_eq hbs htags htype
  have hgood : WellTagged p bs := by
    rw [List.length_append, List.length_map] at hbound
    exact ⟨by rwa [hcount], by rwa [hbehind]⟩
  obtain ⟨p', stack, hinput, hinfo, hstack, hchain⟩ :=
    etherInputInternal_stripped hp.framed hpromisc hp.length_le htakes hmget hgood
  refine ⟨p', hinput, ?_, ?_⟩
  · rw [hcount, map_tagAt hbs] at hstack
    obtain ⟨stack, hlen⟩ := stack
    subst hstack
    rw [hinfo, hdhost, hshost]
  · rw [hchain, hcount, drop_type hbs, htake]
    rfl

/-- The bytes of the packet that is sent. -/
theorem etherOutputL2info_frame {mget : Bool} {l2i : L2info} {type : BitVec 16} {m : Mbuf}
    {ms out : List Mbuf} {payload : List UInt8} (hm : m.mHole = false)
    (hpayload : chainView (m :: ms) = payload.map .data)
    (hout : etherOutputL2info mget l2i type (m :: ms) = some out) :
    chainView out = (frameBytes l2i.inl2iForeignAddr l2i.inl2iLocalAddr
      l2i.inl2iTagstack.inl2tTags type payload).map .data := by
  set tags := l2i.inl2iTagstack.inl2tTags with htags
  set dhost := wireBytes (be48 l2i.inl2iForeignAddr)
  set shost := wireBytes (be48 l2i.inl2iLocalAddr)
  set tagWords := wireBytes (tags.flatMap (be32 ·.block))
  have hdlen : dhost.length = 6 := length_wireBytes _
  have hslen : shost.length = 6 := length_wireBytes _
  have hwords : tagWords.length = tags.length * 4 := by
    have hlen := length_tagBytes tags 0 []
    simp only [tagBytes, List.length_append, length_wireBytes, List.length_nil, be16,
      List.length_cons] at hlen
    rw [length_wireBytes]
    omega
  have hhdr : etherHdrLen + l2i.inl2iTagstack.inl2tCnt * 4 =
      (dhost ++ shost ++ tagWords ++ wireBytes (be16 type)).length := by
    simp only [List.length_append, hdlen, hslen, hwords, L2tagstack.inl2tCnt, ← htags,
      length_wireBytes, be16, etherHdrLen, List.length_cons, List.length_nil]
    omega
  rw [etherOutputL2info, hhdr] at hout
  split at hout
  · cases hout
  · cases hout
  · next m' ms' hprepend =>
    obtain ⟨m'', ms'', heq, -, -, hview⟩ := mPrepend_memcpy hm hprepend
    obtain ⟨rfl, rfl⟩ := List.cons.inj heq
    have hmem : (((m'.memcpy 0 dhost).memcpy 6 shost).memcpy 12 tagWords).memcpy
        (12 + l2i.inl2iTagstack.inl2tCnt * 4) (wireBytes (be16 type)) =
        m'.memcpy 0 (dhost ++ shost ++ tagWords ++ wireBytes (be16 type)) := by
      rw [← Mbuf.memcpy_memcpy, ← Mbuf.memcpy_memcpy, ← Mbuf.memcpy_memcpy]
      simp only [List.length_append, hdlen, hslen, hwords, L2tagstack.inl2tCnt, ← htags,
        Nat.zero_add, Nat.reduceAdd]
    rw [← Option.some.inj hout, hmem, hview, hpayload]
    simp [frameBytes, tagBytes, dhost, shost, tagWords]

/-- What is sent with link-level information is received, on an interface in promiscuous mode
that gets the memory it asks for, with the addresses exchanged, the same tags and the masks that
follow from them, in front of the type and the payload that were sent; and the tags and masks
are the same when the hardware took off an outermost 802.1Q tag. -/
theorem etherInput_etherOutput {ifp : EtherIfp} {env : EtherEnv} {mget : Bool} {l2i : L2info}
    {type : BitVec 16} {m : Mbuf} {ms out : List Mbuf} {payload : List UInt8}
    (hup : ifp.iffUp = true) (hmonitor : ifp.iffMonitor = false)
    (hpromisc : ifp.iffPromiscinet = true) (halloc : env.tagAlloc = true) (hmget : env.mget = true)
    (htags : VlanTags l2i.inl2iTagstack.inl2tTags) (htype : ethertypeIsVlan type = false)
    (hm : m.mHole = false) (hpayload : chainView (m :: ms) = payload.map .data)
    (hout : etherOutputL2info mget l2i type (m :: ms) = some out) :
    (∀ (p : EtherPkt) (bs : List UInt8), chainView out = bs.map .data → Carries p bs →
      p.mVlantag = false →
      ∃ p', etherInputInternal ifp env p = some p' ∧ p'.l2info = some l2i.returned ∧
        chainView p'.m = (frameBytes l2i.inl2iForeignAddr l2i.inl2iLocalAddr [] type
          payload).map .data) ∧
    ∀ (p : EtherPkt) (bs : List UInt8) (tag : MaskedBlock) (rest : List MaskedBlock),
      l2i.inl2iTagstack.inl2tTags = tag :: rest →
      tagProto tag.block = ethertypeVlan → chainView out = bs.map .data →
      Carries p (bs.take 12 ++ bs.drop 16) → p.mVlantag = true → p.etherVtag = tagTci tag.block →
      ∃ p', etherInputInternal ifp env p = some p' ∧ p'.l2info = some l2i.returned ∧
        chainView p'.m = (frameBytes l2i.inl2iForeignAddr l2i.inl2iLocalAddr [] type
          payload).map .data := by
  have hframe := etherOutputL2info_frame hm hpayload hout
  have htakes : Takes ifp env := ⟨hup, hmonitor, halloc⟩
  have hdata : Function.Injective (List.map Elem.data) :=
    List.map_injective_iff.mpr fun _ _ h => Elem.data.inj h
  constructor
  · intro p bs hbs hp hflag
    rw [hframe] at hbs
    rw [← hdata hbs] at hp
    have hhw : hardwareTag p = [] := by simp [hardwareTag, hflag]
    obtain ⟨p', hinput, hinfo, hchain⟩ := etherInputInternal_frame hpromisc htakes hmget htags
      htype (by simpa [hhw] using l2i.inl2iTagstack.bounded) hp
    exact ⟨p', hinput, by simpa [hhw, L2info.returned] using hinfo, hchain⟩
  · intro p bs tag rest hstack hproto hbs hp hflag hvtag
    rw [hframe] at hbs
    rw [← hdata hbs, hstack] at hp
    have hstrip : (frameBytes l2i.inl2iForeignAddr l2i.inl2iLocalAddr (tag :: rest) type
          payload).take 12 ++
        (frameBytes l2i.inl2iForeignAddr l2i.inl2iLocalAddr (tag :: rest) type payload).drop 16 =
        frameBytes l2i.inl2iForeignAddr l2i.inl2iLocalAddr rest type payload := rfl
    rw [hstrip] at hp
    have hhw : hardwareTag p = [received tag] := by
      rw [hardwareTag, if_pos hflag, hvtag, ← hproto, tagProto_append_tagTci, received]
    have hreturned : hardwareTag p ++ rest.map received =
        l2i.inl2iTagstack.inl2tTags.map received := by
      rw [hhw, hstack]
      rfl
    have hbound : (hardwareTag p ++ rest.map received).length ≤ inL2infoMaxTags := by
      rw [hreturned, List.length_map]
      exact l2i.inl2iTagstack.bounded
    obtain ⟨p', hinput, hinfo, hchain⟩ := etherInputInternal_frame hpromisc htakes hmget
      (fun t ht => htags t (hstack ▸ List.mem_cons_of_mem tag ht)) htype hbound hp
    refine ⟨p', hinput, ?_, hchain⟩
    simpa only [hreturned, L2info.returned] using hinfo

def doubleTagged : L2info where
  inl2iLocalAddr := 0x020000000001
  inl2iForeignAddr := 0x020000000002
  inl2iTagstack := ⟨[⟨0x88a80005, 0⟩, ⟨0x81006000, 0⟩], by decide⟩

/-- A packet of three bytes, and the same with a header. -/
def threeBytes : Mbuf := { Mbuf.ofBytes [1, 2, 3] with mPkthdrLen := some 3, mOff := 48 }

def doubleTaggedFrame : List Mbuf :=
  (etherOutputL2info true doubleTagged 0x0800 [threeBytes]).getD []

theorem etherInput_etherOutput_qinq :
    ∃ p', etherInputInternal ⟨true, false, true⟩ ⟨true, true, 0⟩ { m := doubleTaggedFrame } =
        some p' ∧ p'.l2info = some doubleTagged.returned ∧
      chainView p'.m =
        (frameBytes 0x020000000002 0x020000000001 [] 0x0800 [1, 2, 3]).map .data := by
  have hout : etherOutputL2info true doubleTagged 0x0800 [threeBytes] = some doubleTaggedFrame :=
    rfl
  have hpayload : chainView [threeBytes] = [1, 2, 3].map Elem.data := rfl
  have hview := etherOutputL2info_frame rfl hpayload hout
  refine (etherInput_etherOutput rfl rfl rfl rfl rfl ?_ rfl rfl hpayload hout).1 _ _ hview
    ⟨hview, ?_, ⟨_, _, rfl, ?_, rfl⟩, rfl, rfl⟩ rfl
  · unfold VlanTags
    decide
  · intro m hm
    rcases List.mem_pair.mp hm with rfl | rfl <;> rfl
  · decide

end Libuinet
