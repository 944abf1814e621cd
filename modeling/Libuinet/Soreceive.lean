import Libuinet.Sockbuf
import Libuinet.Uio
import Mathlib.Data.List.TakeWhile

namespace Libuinet

/-- The `MSG_` flags that a receive call reads or sets. -/
structure MsgFlags where
  msgOob : Bool := false
  msgPeek : Bool := false
  msgEor : Bool := false
  msgWaitall : Bool := false
  msgDontwait : Bool := false
  msgNbio : Bool := false
  msgHoleBreak : Bool := false
  deriving DecidableEq, Repr

def MsgFlags.or (a b : MsgFlags) : MsgFlags where
  msgOob := a.msgOob || b.msgOob
  msgPeek := a.msgPeek || b.msgPeek
  msgEor := a.msgEor || b.msgEor
  msgWaitall := a.msgWaitall || b.msgWaitall
  msgDontwait := a.msgDontwait || b.msgDontwait
  msgNbio := a.msgNbio || b.msgNbio
  msgHoleBreak := a.msgHoleBreak || b.msgHoleBreak

structure Socket where
  soRcv : Sockbuf
  soStream : Bool := true
  soError : Option Errno := none
  soOobmark : ℕ := 0
  ssIsconnected : Bool := true
  ssIsconnecting : Bool := false
  ssIsdisconnected : Bool := false
  ssNbio : Bool := false

def nonblocking (so : Socket) (flags : MsgFlags) : Bool :=
  so.ssNbio || flags.msgDontwait || flags.msgNbio

inductive RecvExit where
  | returned (error : Option Errno)
  | asleep
  /-- memory that is not the caller's, or not there, is used -/
  | faulted
  /-- `soreceive_rcvoob` takes over -/
  | rcvoob
  deriving DecidableEq, Repr

/-- What a call leaves behind; `mp` is the chain at `*mp0`. -/
structure RecvResult where
  exit : RecvExit
  so : Socket
  uio : Uio
  mp : List Mbuf := []
  flagsp : Option MsgFlags

/-- The arguments of a call that do not change: `hole_break`, whether `mp0` is
given, and whether mbufs can be had without waiting. -/
structure RecvCall where
  holeBreak : Bool
  mp0 : Bool
  mget : Bool := true

/-- The variables of the loop; `m` is the chain from `m` on, `lastHole` is
`M_HOLE` of `last_m_flags` and `oobdata` says that `type` is `MT_OOBDATA`. -/
structure RecvVars where
  so : Socket
  uio : Uio
  m : List Mbuf
  moff : ℕ := 0
  offset : ℕ := 0
  flags : MsgFlags
  lastHole : Bool
  oobdata : Bool := false
  mp : List Mbuf := []

inductive RecvNext where
  | again
  | leave
  | sleep
  | fault
  deriving DecidableEq, Repr

def recvLen (v : RecvVars) (m : Mbuf) : ℕ :=
  let len := v.uio.uioResid.toNat
  -- never past the out-of-band mark
  let len := if v.so.soOobmark ≠ 0 then min len (v.so.soOobmark - v.offset) else len
  min len (m.mLen - v.moff)

def recvWhole (c : RecvCall) (v : RecvVars) (m : Mbuf) (rest : List Mbuf) : RecvVars :=
  let v := { v with flags := { v.flags with msgEor := v.flags.msgEor || m.mEor } }
  if v.flags.msgPeek then { v with m := rest, moff := 0 }
  else { v with
    so := { v.so with soRcv := { v.so.soRcv.sbfree m with sbMb := rest } }
    m := rest
    mp := if c.mp0 then v.mp ++ [m] else v.mp }

def RecvVars.cutFront (v : RecvVars) (m : Mbuf) (rest : List Mbuf) (len : ℕ) (mp : List Mbuf) :
    RecvVars :=
  { v with
    so := { v.so with soRcv := { v.so.soRcv with
      sbMb := m.trimHead len :: rest
      sbCc := v.so.soRcv.sbCc - BitVec.ofNat 32 len } }
    m := m.trimHead len :: rest
    mp := mp }

def recvPart (c : RecvCall) (v : RecvVars) (m : Mbuf) (rest : List Mbuf) (len : ℕ) :
    Option RecvVars :=
  if v.flags.msgPeek then some { v with moff := v.moff + len }
  else
    let copy := mCopym2 (m :: rest) len (!v.flags.msgDontwait || c.mget) c.holeBreak
    if c.mp0 && copy.isEmpty then none
    else some (v.cutFront m rest len (if c.mp0 then v.mp ++ copy else v.mp))

/-- The end of a round: the out-of-band mark, the end of a record, and
`MSG_WAITALL`. -/
def recvRoundEnd (v : RecvVars) (len : ℕ) : RecvVars × RecvNext :=
  let mark := v.so.soOobmark
  let v :=
    if mark = 0 then v
    else if v.flags.msgPeek then { v with offset := v.offset + len }
    else { v with so := { v.so with
      soOobmark := mark - len
      soRcv := { v.so.soRcv with
        sbRcvatmark := v.so.soRcv.sbRcvatmark || decide (mark - len = 0) } } }
  if mark ≠ 0 ∧ (if v.flags.msgPeek then v.offset = mark else v.so.soOobmark = 0) then (v, .leave)
  else if v.flags.msgEor then (v, .leave)
  else if v.flags.msgWaitall ∧ v.m = [] ∧ 0 < v.uio.uioResid ∧ v.so.soError = none ∧
      v.so.soRcv.sbCantrcvmore = false then
    -- a look that takes nothing away begins anew; otherwise the buffer is empty
    if v.so.soRcv.sbMb = [] then (v, .sleep) else ({ v with m := v.so.soRcv.sbMb }, .again)
  else (v, .again)

def RecvVars.clearRcvatmark (v : RecvVars) : RecvVars :=
  { v with so := { v.so with soRcv := { v.so.soRcv with sbRcvatmark := false } } }

def recvTake (c : RecvCall) (v : RecvVars) (m : Mbuf) (rest : List Mbuf) : RecvVars × RecvNext :=
  let len := recvLen v m
  let uio := if c.mp0 then some { v.uio with uioResid := v.uio.uioResid - len }
    else copyMbuf m v.moff len v.uio
  match uio with
  | none => (v, .fault)
  | some uio =>
    if len = m.mLen - v.moff then
      recvRoundEnd (recvWhole c { v with uio := uio } m rest) len
    else
      match recvPart c { v with uio := uio } m rest len with
      -- `uio_resid` is put back
      | none => (v, .leave)
      | some v => recvRoundEnd v len

def recvStep (c : RecvCall) (v : RecvVars) : RecvVars × RecvNext :=
  match v.m with
  | [] => (v, .leave)
  | m :: rest =>
    if v.uio.uioResid ≤ 0 then (v, .leave)
    -- data and holes are not returned together
    else if c.holeBreak ∧ m.mHole ≠ v.lastHole then (v, .leave)
    else
      let v := { v with lastHole := m.mHole }
      if decide (m.mType = .mtOobdata) ≠ v.oobdata then (v, .leave)
      else recvTake c v.clearRcvatmark m rest

def recvLoop (c : RecvCall) : ℕ → RecvVars → Option (RecvVars × RecvNext)
  | 0, _ => none
  | fuel + 1, v =>
    match recvStep c v with
    | (v, .again) => recvLoop c fuel v
    | r => some r

inductive BlockVerdict where
  | dontblock
  | release (error : Option Errno)
  | sbwait
  deriving DecidableEq, Repr

def mayBlock (so : Socket) (uio : Uio) (flags : MsgFlags) : Bool :=
  so.soRcv.sbMb.isEmpty ||
    (!flags.msgDontwait && decide (so.soRcv.sbCc.toNat < uio.uioResid) &&
      (decide (so.soRcv.sbCc.toNat < so.soRcv.sbLowat) ||
        (flags.msgWaitall && decide (uio.uioResid ≤ so.soRcv.sbHiwat.toNat))))

def blockVerdict (so : Socket) (uio : Uio) (flags : MsgFlags) : BlockVerdict :=
  if !mayBlock so uio flags then .dontblock
  -- an error or the end of the stream waits until the data has been read
  else if so.soError.isSome then
    if so.soRcv.sbMb.isEmpty then .release so.soError else .dontblock
  else if so.soRcv.sbCantrcvmore then
    if so.soRcv.sbMb.isEmpty then .release none else .dontblock
  else if so.soRcv.sbMb.any fun m => m.mType == .mtOobdata || m.mEor then .dontblock
  else if !so.ssIsconnected && !so.ssIsconnecting then .release (some .enotconn)
  else if uio.uioResid = 0 then .release none
  else if nonblocking so flags then .release (some .ewouldblock)
  else .sbwait

/-- Control mbufs in front of the data are dropped, as `controlp` is not given. -/
def recvControl (so : Socket) (flags : MsgFlags) : Socket × List Mbuf :=
  let ctl := so.soRcv.sbMb.takeWhile fun m => m.mType == .mtControl
  let rest := so.soRcv.sbMb.dropWhile fun m => m.mType == .mtControl
  if flags.msgPeek then (so, rest)
  else ({ so with soRcv := { ctl.foldl Sockbuf.sbfree so.soRcv with sbMb := rest } }, rest)

def recvStart (c : RecvCall) (so : Socket) (uio : Uio) (flags : MsgFlags) (mp : List Mbuf) :
    RecvVars :=
  let (so, ms) := recvControl so flags
  match ms with
  | [] => { so := so, uio := uio, m := [], flags := flags, lastHole := false, mp := mp }
  | m :: _ =>
    let oob := m.mType == .mtOobdata
    let flags := { flags with
      msgOob := flags.msgOob || oob
      msgHoleBreak := flags.msgHoleBreak || (c.holeBreak && m.mHole) }
    { so := so, uio := uio, m := ms, flags := flags, lastHole := m.mHole, oobdata := oob, mp := mp }

def genericRestart (c : RecvCall) (flagsp : Option MsgFlags) :
    ℕ → ℤ → Socket → Uio → MsgFlags → List Mbuf → Option RecvResult
  | 0, _, _, _, _, _ => none
  | fuel + 1, origResid, so, uio, flags, mp =>
    match blockVerdict so uio flags with
    | .sbwait => some ⟨.asleep, so, uio, mp, flagsp⟩
    | .release error =>
      let taken := so.soError.isSome && so.soRcv.sbMb.isEmpty && !flags.msgPeek
      some ⟨.returned error, if taken then { so with soError := none } else so, uio, mp, flagsp⟩
    | .dontblock =>
      let origResid := if (so.soRcv.sbMb.head?.map Mbuf.mType) = some .mtControl then 0
        else origResid
      match recvLoop c fuel (recvStart c so uio flags mp) with
      | none => none
      | some (v, .sleep) => some ⟨.asleep, v.so, v.uio, v.mp, flagsp⟩
      | some (v, .fault) => some ⟨.faulted, v.so, v.uio, v.mp, flagsp⟩
      | some (v, _) =>
        -- nothing has been received, and more may come
        if origResid = v.uio.uioResid ∧ origResid ≠ 0 ∧ v.flags.msgEor = false ∧
            v.so.soRcv.sbCantrcvmore = false then
          genericRestart c flagsp fuel origResid v.so v.uio v.flags v.mp
        else some ⟨.returned none, v.so, v.uio, v.mp, flagsp.map (·.or v.flags)⟩

def MsgFlags.clearHoleBreak (f : MsgFlags) : MsgFlags := { f with msgHoleBreak := false }

def recvFlags (flagsp : Option MsgFlags) : MsgFlags :=
  (flagsp.map fun f => { f.clearHoleBreak with msgEor := false }).getD {}

def recvCall (mp0 mget : Bool) (flagsp : Option MsgFlags) : RecvCall where
  holeBreak := (flagsp.map MsgFlags.msgHoleBreak).getD false
  mp0 := mp0
  mget := mget

/-- `soreceive_generic`, with `psa` and `controlp` not given; `none` if `fuel`
rounds are not enough. -/
def soreceiveGeneric (fuel : ℕ) (so : Socket) (uio : Uio) (mp0 mget : Bool)
    (flagsp : Option MsgFlags) : Option RecvResult :=
  if (recvFlags flagsp).msgOob then
    some ⟨.rcvoob, so, uio, [], flagsp.map MsgFlags.clearHoleBreak⟩
  else
    genericRestart (recvCall mp0 mget flagsp) (flagsp.map MsgFlags.clearHoleBreak) fuel
      uio.uioResid so uio (recvFlags flagsp) []

/-- An mbuf of a stream: ordinary data or a hole, not empty and not the end of a
record. -/
structure Mbuf.InStream (m : Mbuf) : Prop where
  mType : m.mType = .mtData
  noEor : m.mEor = false
  pos : 0 < m.mLen

def Room (c : RecvCall) (uio : Uio) : Prop := if c.mp0 then 0 ≤ uio.uioResid else uio.Ready

/-- A call on a plain stream that takes what it returns. -/
structure RecvVars.Plain (c : RecvCall) (v : RecvVars) : Prop where
  sync : v.m = v.so.soRcv.sbMb
  chain : ∀ m ∈ v.m, m.InStream
  moff : v.moff = 0
  noMark : v.so.soOobmark = 0
  noOob : v.oobdata = false
  noPeek : v.flags.msgPeek = false
  noEor : v.flags.msgEor = false
  noWait : v.flags.msgWaitall = true → v.uio.uioResid ≤ chainLen v.m ∨ v.so.soError ≠ none ∨
    v.so.soRcv.sbCantrcvmore = true ∨ c.holeBreak = true ∧ ∃ m ∈ v.m, m.mHole ≠ v.lastHole
  mget : c.mp0 = true → c.mget = true
  room : Room c v.uio

/-- The first `n` elements of a chain are handed over, to the memory of the
caller or as mbufs. -/
def Given (c : RecvCall) (ms : List Mbuf) (n : ℕ) (uio : Uio) (mp : List Mbuf) (uio' : Uio)
    (mp' : List Mbuf) : Prop :=
  if c.mp0 then
    uio' = { uio with uioResid := uio.uioResid - n } ∧ mp' = mp ++ takeMbufs c.holeBreak ms n
  else uio.Copied (((chainView ms).take n).map Elem.byte) uio' ∧ mp' = mp

structure RecvVars.Delivered (c : RecvCall) (v : RecvVars) (n : ℕ) (v' : RecvVars) : Prop where
  view : v'.so.soRcv.view = v.so.soRcv.view.drop n
  sbCc : v'.so.soRcv.sbCc = v.so.soRcv.sbCc - BitVec.ofNat 32 n
  cantrcvmore : v'.so.soRcv.sbCantrcvmore = v.so.soRcv.sbCantrcvmore
  flags : v'.flags = v.flags
  given : Given c v.m n v.uio v.mp v'.uio v'.mp

section Given

variable {c : RecvCall} {m : Mbuf} {ms : List Mbuf} {n k : ℕ} {uio uio' uio'' : Uio}
  {mp mp' mp'' : List Mbuf}

theorem Given.zero (h : Room c uio) : Given c ms 0 uio mp uio mp := by
  unfold Given
  unfold Room at h
  split_ifs at h ⊢
  · cases ms <;> simp [takeMbufs]
  · exact ⟨.nil h, rfl⟩

/-- A whole mbuf, and then more. -/
theorem Given.cons (hpos : 0 < m.mLen) (h : Given c [m] m.mLen uio mp uio' mp')
    (h' : Given c ms k uio' mp' uio'' mp'') : Given c (m :: ms) (m.mLen + k) uio mp uio'' mp'' := by
  unfold Given at *
  split_ifs at *
  · obtain ⟨hu, hm⟩ := h
    obtain ⟨hu', hm'⟩ := h'
    have hwhole : takeMbufs c.holeBreak [m] m.mLen = [m] := by
      simp [takeMbufs, hpos.ne']
    have hboth : takeMbufs c.holeBreak (m :: ms) (m.mLen + k) =
        m :: takeMbufs c.holeBreak ms k := by
      rw [takeMbufs, if_neg (by omega), if_pos (by omega), Nat.add_sub_cancel_left]
    refine ⟨?_, by rw [hm', hm, hwhole, hboth, List.append_assoc]; rfl⟩
    rw [hu', hu]
    simp only [Uio.mk.injEq, true_and, and_true]
    push_cast
    ring
  · obtain ⟨hu, hm⟩ := h
    obtain ⟨hu', hm'⟩ := h'
    have hsplit : (chainView (m :: ms)).take (m.mLen + k) =
        (chainView [m]).take m.mLen ++ (chainView ms).take k := by
      rw [chainView_cons, chainView_cons, chainView_nil, List.append_nil, List.take_append,
        m.view_length, Nat.add_sub_cancel_left, List.take_of_length_le (by simp),
        List.take_of_length_le m.view_length.le]
    rw [hsplit, List.map_append]
    exact ⟨hu.trans hu', hm'.trans hm⟩

theorem Given.resid (h : Given c ms n uio mp uio' mp') (hn : n ≤ chainLen ms)
    (hr : Room c uio) : uio'.uioResid = uio.uioResid - n := by
  unfold Given at h
  unfold Room at hr
  split_ifs at h hr
  · rw [h.1]
  · rw [h.1.resid hr, List.length_map, List.length_take, chainView_length, min_eq_left hn]

end Given

section Round

variable {c : RecvCall} {v : RecvVars} {m : Mbuf} {rest : List Mbuf}

theorem recvRoundEnd_again {len : ℕ} (hmark : v.so.soOobmark = 0) (heor : v.flags.msgEor = false)
    (hwait : v.flags.msgWaitall = true → v.m = [] → v.uio.uioResid ≤ 0 ∨ v.so.soError ≠ none ∨
      v.so.soRcv.sbCantrcvmore = true) : recvRoundEnd v len = (v, .again) := by
  have hno : ¬ (v.flags.msgWaitall = true ∧ v.m = [] ∧ 0 < v.uio.uioResid ∧ v.so.soError = none ∧
      v.so.soRcv.sbCantrcvmore = false) := by
    rintro ⟨hw, hm, hpos, herr, hmore⟩
    rcases hwait hw hm with h | h | h
    · omega
    · exact h herr
    · rw [hmore] at h
      cases h
  simp only [recvRoundEnd, hmark]
  simp [hno, heor]

/-- The first mbuf goes to the caller, or the first part of it. -/
theorem Room.give (hr : Room c v.uio) (hoff : v.moff = 0) {len : ℕ}
    (hle : len ≤ m.mLen) (hroom : (len : ℤ) ≤ v.uio.uioResid) :
    ∃ uio, (if c.mp0 then some { v.uio with uioResid := v.uio.uioResid - len }
      else copyMbuf m v.moff len v.uio) = some uio ∧ Room c uio ∧
      if c.mp0 then uio = { v.uio with uioResid := v.uio.uioResid - len }
      else v.uio.Copied ((m.view.take len).map Elem.byte) uio := by
  unfold Room at *
  split_ifs at *
  · exact ⟨_, rfl, by simpa using hroom, rfl⟩
  · have hslots : len ≤ v.uio.slots.length := by
      have := hr.resid
      omega
    obtain ⟨uio, hcopy, hcopied⟩ := copyMbuf_copied hr hle hslots
    exact ⟨uio, by rw [hoff, hcopy], hcopied.ready, hcopied⟩

theorem recvLen_eq (hmark : v.so.soOobmark = 0) (hoff : v.moff = 0) :
    recvLen v m = min v.uio.uioResid.toNat m.mLen := by
  simp [recvLen, hmark, hoff]

/-- A round that gets to the copy. -/
theorem recvStep_take (h : v.Plain c) (hv : v.m = m :: rest) (hpos : 0 < v.uio.uioResid)
    (hkind : c.holeBreak = true → m.mHole = v.lastHole) :
    recvStep c v = recvTake c { v with lastHole := m.mHole }.clearRcvatmark m rest := by
  have hm : m.InStream := h.chain m (by rw [hv]; exact List.mem_cons_self)
  have hkind' : ¬ (c.holeBreak = true ∧ m.mHole ≠ v.lastHole) := fun hk => hk.2 (hkind hk.1)
  have hoob : ¬ (decide (m.mType = .mtOobdata) ≠ v.oobdata) := by
    rw [hm.mType, h.noOob]
    decide
  unfold recvStep
  rw [hv]
  dsimp only
  rw [if_neg (by omega), if_neg hkind', if_neg hoob]

/-- The whole mbuf fits. -/
theorem recvTake_whole (h : v.Plain c) (hv : v.m = m :: rest) (hle : m.mLen ≤ v.uio.uioResid)
    (hkind : c.holeBreak = true → m.mHole = v.lastHole) :
    ∃ v', recvTake c v m rest = (v', .again) ∧ v'.Plain c ∧ v'.m = rest ∧
      v'.lastHole = v.lastHole ∧ v'.flags = v.flags ∧
      v'.so.soRcv.sbCc = v.so.soRcv.sbCc - BitVec.ofNat 32 m.mLen ∧
      v'.so.soRcv.sbCantrcvmore = v.so.soRcv.sbCantrcvmore ∧
      Given c [m] m.mLen v.uio v.mp v'.uio v'.mp := by
  have hm : m.InStream := h.chain m (by rw [hv]; exact List.mem_cons_self)
  have hlen : recvLen v m = m.mLen := by
    rw [recvLen_eq h.noMark h.moff]
    omega
  obtain ⟨uio, hcopy, hroom, hgive⟩ := h.room.give h.moff le_rfl hle
  have hgiven : Given c [m] m.mLen v.uio v.mp uio (if c.mp0 then v.mp ++ [m] else v.mp) := by
    unfold Given
    split_ifs at hgive ⊢
    · exact ⟨hgive, by simp [takeMbufs, hm.pos.ne']⟩
    · exact ⟨by simpa using hgive, rfl⟩
  have hresid := hgiven.resid (by simp) h.room
  have hflags : { v.flags with msgEor := v.flags.msgEor || m.mEor } = v.flags := by
    rw [hm.noEor, Bool.or_false]
  have hwhole : recvWhole c { v with uio := uio } m rest = { v with
      uio := uio
      so := { v.so with soRcv := { v.so.soRcv.sbfree m with sbMb := rest } }
      m := rest
      mp := if c.mp0 then v.mp ++ [m] else v.mp } := by
    unfold recvWhole
    rw [hflags]
    dsimp only
    rw [h.noPeek]
    rfl
  have hchain : ∀ m ∈ rest, m.InStream := fun m' hm' => h.chain m' (by simp [hv, hm'])
  have hwait : v.flags.msgWaitall = true → uio.uioResid ≤ chainLen rest ∨ v.so.soError ≠ none ∨
      v.so.soRcv.sbCantrcvmore = true ∨ c.holeBreak = true ∧ ∃ m ∈ rest, m.mHole ≠ v.lastHole := by
    intro hw
    have := h.noWait hw
    rw [hv, chainLen_cons] at this
    rcases this with hr | he | hc | ⟨hb, m', hm', hne⟩
    · exact Or.inl (by push_cast at hr; omega)
    · exact Or.inr (Or.inl he)
    · exact Or.inr (Or.inr (Or.inl hc))
    · rcases List.mem_cons.mp hm' with rfl | hm'
      · exact absurd (hkind hb) hne
      · exact Or.inr (Or.inr (Or.inr ⟨hb, m', hm', hne⟩))
  refine ⟨recvWhole c { v with uio := uio } m rest, ?_, ?_⟩
  · unfold recvTake
    dsimp only
    rw [hlen, hcopy]
    dsimp only
    rw [if_pos (by rw [h.moff, Nat.sub_zero]), hwhole]
    refine recvRoundEnd_again h.noMark h.noEor fun hw hnil => ?_
    have hmore := hwait hw
    rw [show rest = [] from hnil] at hmore
    change uio.uioResid ≤ 0 ∨ v.so.soError ≠ none ∨ v.so.soRcv.sbCantrcvmore = true
    simpa using hmore
  · rw [hwhole]
    exact ⟨{ h with sync := rfl, chain := hchain, noWait := hwait, room := hroom },
      rfl, rfl, rfl, rfl, rfl, hgiven⟩

/-- Only a part of it does, and then the caller has no room left. -/
theorem recvTake_part (h : v.Plain c) (hpos : 0 < v.uio.uioResid) (hlt : v.uio.uioResid < m.mLen) :
    ∃ v', recvTake c v m rest = (v', .again) ∧ v'.uio.uioResid ≤ 0 ∧ v'.flags = v.flags ∧
      v'.so.soRcv.sbMb = m.trimHead v.uio.uioResid.toNat :: rest ∧
      v'.so.soRcv.sbCc = v.so.soRcv.sbCc - BitVec.ofNat 32 v.uio.uioResid.toNat ∧
      v'.so.soRcv.sbCantrcvmore = v.so.soRcv.sbCantrcvmore ∧
      Given c (m :: rest) v.uio.uioResid.toNat v.uio v.mp v'.uio v'.mp := by
  obtain ⟨n, hn⟩ := Int.eq_ofNat_of_zero_le hpos.le
  have hlen : recvLen v m = n := by
    rw [recvLen_eq h.noMark h.moff]
    omega
  have hn' : v.uio.uioResid.toNat = n := by omega
  rw [hn']
  obtain ⟨uio, hcopy, hroom, hgive⟩ := h.room.give h.moff (by omega : n ≤ m.mLen) (by omega)
  have hgiven : Given c (m :: rest) n v.uio v.mp uio
      (if c.mp0 then v.mp ++ mCopym2 (m :: rest) n true c.holeBreak else v.mp) := by
    unfold Given
    split_ifs at hgive ⊢
    · refine ⟨hgive, ?_⟩
      rw [takeMbufs, if_neg (by omega), if_neg (by omega)]
    · refine ⟨?_, rfl⟩
      rwa [chainView_cons, List.take_append_of_le_length (by rw [m.view_length]; omega)]
  have hresid := hgiven.resid (by rw [chainLen_cons]; omega) h.room
  have hpart : recvPart c { v with uio := uio } m rest n =
      some (RecvVars.cutFront { v with uio := uio } m rest n
        (if c.mp0 then v.mp ++ mCopym2 (m :: rest) n true c.holeBreak else v.mp)) := by
    have hne : (mCopym2 (m :: rest) n true c.holeBreak).isEmpty = false := by
      obtain ⟨_, _, hcons, -⟩ := @mCopym2_cons m rest n c.holeBreak (by omega)
      rw [hcons]
      rfl
    unfold recvPart
    dsimp only
    rw [h.noPeek]
    cases hmp : c.mp0 with
    | true =>
      rw [h.mget hmp, Bool.or_true, hne]
      rfl
    | false => rfl
  refine ⟨RecvVars.cutFront { v with uio := uio } m rest n
      (if c.mp0 then v.mp ++ mCopym2 (m :: rest) n true c.holeBreak else v.mp),
    ?_, ?_, rfl, rfl, rfl, rfl, hgiven⟩
  · unfold recvTake
    dsimp only
    rw [hlen, hcopy]
    dsimp only
    rw [if_neg (by rw [h.moff]; omega), hpart]
    exact recvRoundEnd_again h.noMark h.noEor fun _ hnil => by cases hnil
  · change uio.uioResid ≤ 0
    omega

end Round

def runLen (holeBreak lastHole : Bool) (ms : List Mbuf) : ℕ :=
  chainLen (if holeBreak then ms.takeWhile fun m => m.mHole == lastHole else ms)

theorem runLen_cons {holeBreak lastHole : Bool} {m : Mbuf} {ms : List Mbuf}
    (h : holeBreak = true → m.mHole = lastHole) :
    runLen holeBreak lastHole (m :: ms) = m.mLen + runLen holeBreak m.mHole ms := by
  cases holeBreak with
  | true => simp [runLen, h rfl]
  | false => simp [runLen]

theorem runLen_le (holeBreak lastHole : Bool) (ms : List Mbuf) :
    runLen holeBreak lastHole ms ≤ chainLen ms := by
  cases holeBreak with
  | true =>
    have hsplit := congrArg chainLen (ms.takeWhile_append_dropWhile (p := (·.mHole == lastHole)))
    simp only [chainLen, List.map_append, List.sum_append] at hsplit
    rw [runLen, if_pos rfl, chainLen, chainLen]
    omega
  | false => simp [runLen]

variable {c : RecvCall} {v : RecvVars}

theorem recvStep_full (h : v.uio.uioResid ≤ 0) : recvStep c v = (v, .leave) := by
  unfold recvStep
  split
  · rfl
  · rw [if_pos h]

/-- Nothing is delivered. -/
theorem recvLoop_stays {fuel n : ℕ} (h : v.Plain c) (hf : 0 < fuel)
    (hstep : recvStep c v = (v, .leave)) (hn : n = 0) :
    ∃ v', recvLoop c fuel v = some (v', .leave) ∧ v.Delivered c n v' := by
  obtain ⟨fuel, rfl⟩ := Nat.exists_eq_succ_of_ne_zero hf.ne'
  subst hn
  exact ⟨v, by rw [recvLoop, hstep], by simp, by simp, rfl, rfl, .zero h.room⟩

/-- The state in which a round comes to the copy. -/
theorem RecvVars.Plain.atCopy {m : Mbuf} (h : v.Plain c)
    (hkind : c.holeBreak = true → m.mHole = v.lastHole) :
    ({ v with lastHole := m.mHole }.clearRcvatmark).Plain c := by
  refine { h with noWait := fun hw => ?_ }
  rcases h.noWait hw with hr | he | hc | ⟨hb, hm⟩
  · exact Or.inl hr
  · exact Or.inr (Or.inl he)
  · exact Or.inr (Or.inr (Or.inl hc))
  · rw [← hkind hb] at hm
    exact Or.inr (Or.inr (Or.inr ⟨hb, hm⟩))

/-- The loop delivers what there is of one kind, as far as there is room. -/
theorem recvLoop_delivers (ms : List Mbuf) {fuel : ℕ} (h : v.Plain c) (hms : v.m = ms)
    (hf : ms.length < fuel) :
    ∃ v', recvLoop c fuel v = some (v', .leave) ∧
      v.Delivered c (min v.uio.uioResid.toNat (runLen c.holeBreak v.lastHole ms)) v' := by
  induction ms generalizing v fuel with
  | nil =>
    refine recvLoop_stays h hf ?_ (by simp [runLen])
    rw [recvStep, hms]
  | cons m ms ih =>
    have hpos : 0 < fuel := Nat.zero_lt_of_lt hf
    by_cases hresid : v.uio.uioResid ≤ 0
    · exact recvLoop_stays h hpos (recvStep_full hresid) (by omega)
    by_cases hother : c.holeBreak = true ∧ m.mHole ≠ v.lastHole
    · refine recvLoop_stays h hpos ?_ (by simp [runLen, hother])
      rw [recvStep, hms]
      dsimp only
      rw [if_neg hresid, if_pos hother]
    have hkind : c.holeBreak = true → m.mHole = v.lastHole := by
      intro hb
      by_contra hne
      exact hother ⟨hb, hne⟩
    have hplain := h.atCopy hkind
    have hview : v.so.soRcv.view = m.view ++ chainView ms := by
      rw [Sockbuf.view, ← h.sync, hms, chainView_cons]
    obtain ⟨fuel, rfl⟩ := Nat.exists_eq_succ_of_ne_zero hpos.ne'
    rw [List.length_cons] at hf
    rw [recvLoop, recvStep_take h hms (by omega) hkind, runLen_cons hkind]
    by_cases hle : (m.mLen : ℤ) ≤ v.uio.uioResid
    · obtain ⟨v₁, hstep, hplain₁, hms₁, hlast, hflags, hcc, hmore, hgiven⟩ :=
        recvTake_whole hplain hms hle fun _ => rfl
      obtain ⟨v₂, hloop, hdone⟩ := ih hplain₁ hms₁ (by omega : ms.length < fuel)
      have hresid₁ : v₁.uio.uioResid = v.uio.uioResid - m.mLen :=
        hgiven.resid (by simp) hplain.room
      have hlast₁ : v₁.lastHole = m.mHole := hlast
      have hview₁ : v₁.so.soRcv.view = chainView ms := by
        rw [Sockbuf.view, ← hplain₁.sync, hms₁]
      have hsum : min v.uio.uioResid.toNat (m.mLen + runLen c.holeBreak m.mHole ms) =
          m.mLen + min v₁.uio.uioResid.toNat (runLen c.holeBreak v₁.lastHole ms) := by
        rw [hresid₁, hlast₁]
        omega
      have hpos := (h.chain m (by simp [hms])).pos
      rw [hstep, hsum]
      refine ⟨v₂, hloop, ?_, ?_, hdone.cantrcvmore.trans hmore, hdone.flags.trans hflags, ?_⟩
      · rw [hdone.view, hview₁, hview, ← List.drop_drop, List.drop_left' m.view_length]
      · rw [hdone.sbCc, hcc, BitVec.ofNat_add]
        change v.so.soRcv.sbCc - _ - _ = _
        ring
      · have hrest := hdone.given
        rw [hms₁] at hrest
        rw [hms]
        exact Given.cons hpos hgiven hrest
    · have hlt : v.uio.uioResid < m.mLen := by omega
      obtain ⟨v₁, hstep, hresid₁, hflags, hmb, hcc, hmore, hgiven⟩ :=
        @recvTake_part c _ m ms hplain (not_le.mp hresid) hlt
      have hn : min v.uio.uioResid.toNat (m.mLen + runLen c.holeBreak m.mHole ms) =
          v.uio.uioResid.toNat := by
        omega
      obtain ⟨fuel, rfl⟩ := Nat.exists_eq_succ_of_ne_zero (by omega : fuel ≠ 0)
      rw [hstep, hn]
      refine ⟨v₁, ?_, ?_, hcc, hmore, hflags, ?_⟩
      · dsimp only
        rw [recvLoop, recvStep_full hresid₁]
      · rw [Sockbuf.view, hmb, hview, chainView_cons, Mbuf.view_trimHead]
        rw [List.drop_append_of_le_length (by rw [m.view_length]; omega)]
        rfl
      · rw [hms]
        exact hgiven

/-- A stream socket with something to receive, and no out-of-band mark. -/
structure Socket.HasStream (so : Socket) : Prop where
  chain : ∀ m ∈ so.soRcv.sbMb, m.InStream
  nonempty : so.soRcv.sbMb ≠ []
  noMark : so.soOobmark = 0

/-- The data are held back: there are fewer than the low-water mark, or than
`MSG_WAITALL` asks for, and more can come. -/
def HeldBack (so : Socket) (uio : Uio) (flags : MsgFlags) : Prop :=
  mayBlock so uio flags = true ∧ so.soError = none ∧ so.soRcv.sbCantrcvmore = false

/-- `MSG_WAITALL` will wait behind the data: they are all taken, are not enough,
and more can come. -/
def WaitsBehind (so : Socket) (uio : Uio) (flags : MsgFlags) (holeBreak : Bool) : Prop :=
  flags.msgWaitall = true ∧ chainLen so.soRcv.sbMb < uio.uioResid ∧ so.soError = none ∧
    so.soRcv.sbCantrcvmore = false ∧
    (holeBreak = true → ∀ m ∈ so.soRcv.sbMb, ∀ m' ∈ so.soRcv.sbMb.head?, m.mHole = m'.mHole)

def Sockbuf.startsWithHole (sb : Sockbuf) : Bool := (sb.sbMb.head?.map Mbuf.mHole).getD false

/-- What a call delivers from a stream: this much, if there is room for it. -/
def Sockbuf.available (sb : Sockbuf) (holeBreak : Bool) : ℕ :=
  runLen holeBreak sb.startsWithHole sb.sbMb

/-- The result of a call that has delivered the first `n` elements. -/
structure RecvResult.Delivers (r : RecvResult) (c : RecvCall) (so : Socket) (uio : Uio) (n : ℕ) :
    Prop where
  exit : r.exit = .returned none
  view : r.so.soRcv.view = so.soRcv.view.drop n
  sbCc : r.so.soRcv.sbCc = so.soRcv.sbCc - BitVec.ofNat 32 n
  given : Given c so.soRcv.sbMb n uio [] r.uio r.mp

section Generic

variable {so : Socket} {uio : Uio} {flags : MsgFlags} {c : RecvCall}

theorem blockVerdict_dontblock (hs : so.HasStream) (h : ¬ HeldBack so uio flags) :
    blockVerdict so uio flags = .dontblock := by
  have hne : so.soRcv.sbMb.isEmpty = false := List.isEmpty_eq_false_iff.mpr hs.nonempty
  unfold blockVerdict
  rw [hne]
  by_cases hb : mayBlock so uio flags = true
  · by_cases herr : so.soError = none
    · have hmore : so.soRcv.sbCantrcvmore = true := by
        by_contra hno
        exact h ⟨hb, herr, Bool.eq_false_iff.mpr hno⟩
      simp [hb, herr, hmore]
    · simp [hb, Option.isSome_iff_ne_none.mpr herr]
  · simp [hb]

/-- The first mbuf of a stream is not a control message, so the loop starts
with it. -/
theorem recvStart_eq {m : Mbuf} {ms : List Mbuf} (hm : m.InStream) (hsb : so.soRcv.sbMb = m :: ms)
    (mp : List Mbuf) :
    recvStart c so uio flags mp =
      { so := so, uio := uio, m := m :: ms,
        flags := { flags with msgHoleBreak := flags.msgHoleBreak || (c.holeBreak && m.mHole) },
        lastHole := m.mHole, mp := mp } := by
  have hctl : recvControl so flags = (so, m :: ms) := by
    have hno : (m.mType == .mtControl) = false := by rw [hm.mType]; rfl
    unfold recvControl
    rw [hsb, List.takeWhile_cons, List.dropWhile_cons, hno]
    simp [← hsb]
  have hoob : (m.mType == .mtOobdata) = false := by rw [hm.mType]; rfl
  unfold recvStart
  rw [hctl]
  simp [hoob]

structure MsgFlags.Takes (flags : MsgFlags) : Prop where
  noOob : flags.msgOob = false
  noPeek : flags.msgPeek = false

theorem Socket.HasStream.available_pos (hs : so.HasStream) (holeBreak : Bool) :
    0 < so.soRcv.available holeBreak := by
  obtain ⟨m, ms, hsb⟩ := List.exists_cons_of_ne_nil hs.nonempty
  have hpos := (hs.chain m (by simp [hsb])).pos
  have hhole : so.soRcv.startsWithHole = m.mHole := by simp [Sockbuf.startsWithHole, hsb]
  rw [Sockbuf.available, hhole, hsb, runLen_cons fun _ => rfl]
  omega

theorem genericRestart_delivers (flagsp : Option MsgFlags) {fuel : ℕ} (hs : so.HasStream)
    (hheld : ¬ HeldBack so uio flags) (hwait : ¬ WaitsBehind so uio flags c.holeBreak)
    (hflags : flags.Takes) (heor : flags.msgEor = false) (hget : c.mp0 = true → c.mget = true)
    (hpos : 0 < uio.uioResid) (hroom : Room c uio) (hf : so.soRcv.sbMb.length + 1 < fuel) :
    ∃ r, genericRestart c flagsp fuel uio.uioResid so uio flags [] = some r ∧
      r.Delivers c so uio (min uio.uioResid.toNat (so.soRcv.available c.holeBreak)) ∧
      r.flagsp = flagsp.map fun f => f.or { flags with
        msgHoleBreak := flags.msgHoleBreak || (c.holeBreak && so.soRcv.startsWithHole) } := by
  obtain ⟨m, ms, hsb⟩ := List.exists_cons_of_ne_nil hs.nonempty
  have hm : m.InStream := hs.chain m (by simp [hsb])
  have hhole : so.soRcv.startsWithHole = m.mHole := by simp [Sockbuf.startsWithHole, hsb]
  have havail : so.soRcv.available c.holeBreak = runLen c.holeBreak m.mHole (m :: ms) := by
    rw [Sockbuf.available, hhole, hsb]
  obtain ⟨fuel, rfl⟩ := Nat.exists_eq_succ_of_ne_zero (by omega : fuel ≠ 0)
  have hplain : (recvStart c so uio flags []).Plain c := by
    rw [recvStart_eq hm hsb]
    refine ⟨hsb.symm, by simpa [hsb] using hs.chain, rfl, hs.noMark, rfl, hflags.noPeek, heor,
      fun hw => ?_, hget, hroom⟩
    by_contra hno
    simp only [not_or, not_and, not_exists, not_not, not_le, Bool.not_eq_true] at hno
    obtain ⟨hlt, herr, hmore, hkinds⟩ := hno
    refine hwait ⟨hw, by rw [hsb]; exact hlt, herr, hmore, fun hb m' hm' m₀ hm₀ => ?_⟩
    rw [hsb] at hm' hm₀
    obtain rfl : m = m₀ := by simpa using hm₀
    exact hkinds hb m' hm'
  obtain ⟨v, hloop, hdone⟩ := recvLoop_delivers (m :: ms) hplain
    (by rw [recvStart_eq hm hsb]) (by rw [hsb] at hf; omega : (m :: ms).length < fuel)
  have hctl : ¬ (so.soRcv.sbMb.head?.map Mbuf.mType = some .mtControl) := by
    simp [hsb, hm.mType]
  rw [recvStart_eq hm hsb] at hdone
  dsimp only at hdone
  rw [← havail] at hdone
  have hn : 0 < min uio.uioResid.toNat (so.soRcv.available c.holeBreak) := by
    have hrun := hs.available_pos c.holeBreak
    omega
  have hle : min uio.uioResid.toNat (so.soRcv.available c.holeBreak) ≤ chainLen (m :: ms) := by
    have hrun := runLen_le c.holeBreak m.mHole (m :: ms)
    rw [havail]
    omega
  have hresid := hdone.given.resid hle hroom
  refine ⟨⟨.returned none, v.so, v.uio, v.mp, flagsp.map (·.or v.flags)⟩, ?_,
    ⟨rfl, hdone.view, hdone.sbCc, by rw [hsb]; exact hdone.given⟩, ?_⟩
  · rw [genericRestart, blockVerdict_dontblock hs hheld]
    dsimp only
    rw [if_neg hctl, hloop]
    dsimp only
    rw [if_neg]
    rintro ⟨hsame, -⟩
    change v.uio.uioResid = uio.uioResid - _ at hresid
    omega
  · rw [hdone.flags, hhole]

theorem MsgFlags.or_recvFlags (f : MsgFlags) (hole : Bool) :
    f.clearHoleBreak.or { recvFlags (some f) with
      msgHoleBreak := (recvFlags (some f)).msgHoleBreak || hole } =
      { f with msgHoleBreak := hole } := by
  cases f
  simp [MsgFlags.or, recvFlags, MsgFlags.clearHoleBreak]

/-- `soreceive_generic` on a stream that it does not hold back. -/
theorem soreceiveGeneric_delivers {f : MsgFlags} (mp0 mget : Bool) {fuel : ℕ} (hs : so.HasStream)
    (hheld : ¬ HeldBack so uio (recvFlags (some f)))
    (hwait : ¬ WaitsBehind so uio (recvFlags (some f)) f.msgHoleBreak) (hf : f.Takes)
    (hget : mp0 = true → mget = true) (hpos : 0 < uio.uioResid)
    (hroom : Room (recvCall mp0 mget (some f)) uio) (hfuel : so.soRcv.sbMb.length + 1 < fuel) :
    ∃ r, soreceiveGeneric fuel so uio mp0 mget (some f) = some r ∧
      r.Delivers (recvCall mp0 mget (some f)) so uio
        (min uio.uioResid.toNat (so.soRcv.available f.msgHoleBreak)) ∧
      r.flagsp = some { f with
        msgHoleBreak := f.msgHoleBreak && so.soRcv.startsWithHole } := by
  obtain ⟨r, hr, hdel, hflagsp⟩ := genericRestart_delivers (c := recvCall mp0 mget (some f))
    (some f.clearHoleBreak) hs hheld hwait { hf with } rfl hget hpos hroom hfuel
  refine ⟨r, ?_, hdel, ?_⟩
  · have hoob : (recvFlags (some f)).msgOob = false := hf.noOob
    rw [soreceiveGeneric, hoob]
    exact hr
  · rw [hflagsp, Option.map_some, MsgFlags.or_recvFlags]
    rfl

end Generic

def Elem.isMissing : Elem → Bool
  | .data _ => false
  | .missing => true

def firstRun (es : List Elem) : List Elem :=
  es.takeWhile fun e => es.head?.map Elem.isMissing == some e.isMissing

theorem firstRun_of_head {es : List Elem} {b : Bool} (h : ∀ e ∈ es.head?, e.isMissing = b) :
    firstRun es = es.takeWhile fun e => e.isMissing == b := by
  cases es with
  | nil => rfl
  | cons e es =>
    obtain rfl := h e rfl
    simp only [firstRun, List.head?_cons, Option.map_some, Option.some_beq_some, Bool.beq_comm]

theorem Mbuf.isMissing_of_mem {m : Mbuf} {e : Elem} (h : e ∈ m.view) : e.isMissing = m.mHole := by
  obtain ⟨i, -, rfl⟩ := List.mem_map.mp h
  cases hm : m.mHole <;> simp [elem, hm, Elem.isMissing]

/-- A change of kind in the stream is a change of mbuf. -/
theorem takeWhile_chainView (b : Bool) (ms : List Mbuf) (h : ∀ m ∈ ms, m.InStream) :
    (chainView ms).takeWhile (fun e => e.isMissing == b) =
      chainView (ms.takeWhile fun m => m.mHole == b) := by
  induction ms with
  | nil => rfl
  | cons m ms ih =>
    have hrest := ih fun m' hm' => h m' (List.mem_cons_of_mem _ hm')
    have hpos := (h m List.mem_cons_self).pos
    rw [chainView_cons]
    by_cases hb : m.mHole = b
    · rw [List.takeWhile_append_of_pos fun e he => by simp [Mbuf.isMissing_of_mem he, hb], hrest]
      simp [hb]
    · obtain ⟨e, es, hes⟩ := List.exists_cons_of_length_pos (by rwa [m.view_length] :
        0 < m.view.length)
      have he : e.isMissing = m.mHole := Mbuf.isMissing_of_mem (by rw [hes]; simp)
      simp [hes, he, hb]

section

variable {so : Socket} (hs : so.HasStream)
include hs

theorem Socket.HasStream.firstRun_eq :
    firstRun so.soRcv.view =
      chainView (so.soRcv.sbMb.takeWhile fun m => m.mHole == so.soRcv.startsWithHole) := by
  obtain ⟨m, ms, hsb⟩ := List.exists_cons_of_ne_nil hs.nonempty
  have hpos := (hs.chain m (by simp [hsb])).pos
  obtain ⟨e, es, hes⟩ := List.exists_cons_of_length_pos (by rwa [m.view_length] :
    0 < m.view.length)
  have he : e.isMissing = m.mHole := Mbuf.isMissing_of_mem (by rw [hes]; simp)
  have hhead : ∀ x ∈ so.soRcv.view.head?, x.isMissing = m.mHole := by
    simp [Sockbuf.view, hsb, hes, he]
  have hstart : so.soRcv.startsWithHole = m.mHole := by simp [Sockbuf.startsWithHole, hsb]
  rw [firstRun_of_head hhead, hstart, ← takeWhile_chainView _ _ hs.chain, Sockbuf.view]

theorem Socket.HasStream.available_eq :
    so.soRcv.available true = (firstRun so.soRcv.view).length := by
  rw [hs.firstRun_eq, chainView_length]
  rfl

theorem Socket.HasStream.startsWithHole_eq :
    so.soRcv.startsWithHole = decide (.missing ∈ firstRun so.soRcv.view) := by
  obtain ⟨m, ms, hsb⟩ := List.exists_cons_of_ne_nil hs.nonempty
  have hpos := (hs.chain m (by simp [hsb])).pos
  have hstart : so.soRcv.startsWithHole = m.mHole := by simp [Sockbuf.startsWithHole, hsb]
  rw [hs.firstRun_eq, hstart, hsb]
  cases hm : m.mHole with
  | true =>
    have hmem : .missing ∈ m.view := by
      refine List.mem_map.mpr ⟨0, List.mem_range.mpr hpos, ?_⟩
      simp [Mbuf.elem, hm]
    simp [hm, hmem]
  | false =>
    symm
    rw [decide_eq_false_iff_not]
    intro hmem
    obtain ⟨m', hm', he⟩ := List.mem_flatMap.mp hmem
    have hdata : m'.mHole = false := by simpa [hm] using List.mem_takeWhile_imp hm'
    have hmissing : true = m'.mHole := Mbuf.isMissing_of_mem he
    rw [hdata] at hmissing
    cases hmissing

end

/-- A call that asks for a break at holes and is not held back delivers one run
of data or of missing marks, up to what there is room for, and says which. -/
theorem soreceive_generic_one_run (so : Socket) (uio : Uio) (f : MsgFlags) (mget : Bool)
    (fuel : ℕ) (hs : so.HasStream) (hbreak : f.msgHoleBreak = true) (hf : f.Takes)
    (hheld : ¬ HeldBack so uio (recvFlags (some f)))
    (hwait : ¬ WaitsBehind so uio (recvFlags (some f)) true) (hpos : 0 < uio.uioResid)
    (hready : uio.Ready) (hfuel : so.soRcv.sbMb.length + 1 < fuel) :
    let n := min uio.uioResid.toNat (firstRun so.soRcv.view).length
    ∃ r, soreceiveGeneric fuel so uio false mget (some f) = some r ∧
      r.exit = .returned none ∧ r.uio.uioResid = uio.uioResid - n ∧
      uio.Copied ((so.soRcv.view.take n).map Elem.byte) r.uio ∧
      r.flagsp = some { f with msgHoleBreak := decide (.missing ∈ firstRun so.soRcv.view) } ∧
      r.so.soRcv.view = so.soRcv.view.drop n ∧
      r.so.soRcv.sbCc = so.soRcv.sbCc - BitVec.ofNat 32 n := by
  intro n
  have hwait' : ¬ WaitsBehind so uio (recvFlags (some f)) f.msgHoleBreak := by rwa [hbreak]
  obtain ⟨r, hr, hdel, hflagsp⟩ := soreceiveGeneric_delivers false mget hs hheld hwait' hf nofun
    hpos hready hfuel
  rw [hbreak, hs.available_eq] at hdel
  have hcopied : uio.Copied ((so.soRcv.view.take n).map Elem.byte) r.uio := hdel.given.1
  have hresid := hcopied.resid hready
  rw [List.length_map, List.length_take] at hresid
  have hn : n ≤ so.soRcv.view.length :=
    (min_le_right _ _).trans (List.takeWhile_sublist _).length_le
  refine ⟨r, hr, hdel.exit, by omega, hcopied, ?_, hdel.view, hdel.sbCc⟩
  rw [hflagsp, hbreak, Bool.true_and, hs.startsWithHole_eq]

/-- Two holes in front of a byte: the first three elements are missing marks,
and there is room for two. -/
theorem soreceive_generic_one_run_holes :
    let sb := { Sockbuf.empty with sbMb := [mGethole 1, mGethole 2, .ofBytes [7]], sbCc := 4 }
    let uio : Uio := { uioIov := [⟨100, 1⟩, ⟨200, 1⟩], uioResid := 2 }
    ∃ r, soreceiveGeneric 5 { soRcv := sb, ssNbio := true } uio false true
        (some { msgHoleBreak := true }) = some r ∧
      r.uio.written = [(100, 0), (200, 0)] ∧ r.flagsp = some { msgHoleBreak := true } ∧
      r.so.soRcv.view = [.missing, .data 7] ∧ r.so.soRcv.sbCc = 2 := by
  intro sb uio
  have hs : Socket.HasStream { soRcv := sb, ssNbio := true } := by
    refine ⟨?_, by simp [sb], rfl⟩
    intro m hm
    simp only [sb, List.mem_cons, List.not_mem_nil, or_false] at hm
    rcases hm with rfl | rfl | rfl <;> exact ⟨rfl, rfl, by decide⟩
  have hready : uio.Ready := ⟨rfl, by decide, by decide⟩
  obtain ⟨r, hr, -, -, hcopied, hflags, hview, hcc⟩ := soreceive_generic_one_run
    { soRcv := sb, ssNbio := true } uio { msgHoleBreak := true } true 5 hs rfl ⟨rfl, rfl⟩
    (fun h => absurd h.1 (by decide)) (fun h => absurd h.1 (by decide)) (by decide) hready
    (by decide)
  exact ⟨r, hr, hcopied.written.trans (by decide), hflags.trans (by decide),
    hview.trans (by decide), hcc.trans (by decide)⟩

/-- A non-blocking socket whose low-water mark is not reached: the data there
are is held back. -/
theorem soreceive_generic_holds_back :
    let sb := { Sockbuf.empty with sbMb := [.ofBytes [7]], sbCc := 1, sbLowat := 2 }
    let so : Socket := { soRcv := sb, ssNbio := true }
    let uio : Uio := { uioIov := [⟨100, 4⟩], uioResid := 4 }
    nonblocking so { msgHoleBreak := true } = true ∧
      (soreceiveGeneric 3 so uio false true (some { msgHoleBreak := true })).map
        (fun r => (r.exit, r.uio.uioResid, r.so.soRcv.view)) =
        some (.returned (some .ewouldblock), 4, [.data 7]) := by
  decide

end Libuinet
