import Libuinet.Soreceive

namespace Libuinet

inductive StreamVerdict where
  | deliver
  | out (error : Option Errno)
  | sbwait
  deriving DecidableEq, Repr

/-- There is enough to return.  The flags of the buffer are tested for `SS_NBIO`,
a bit that is `SB_KNOTE` there. -/
def enoughToDeliver (so : Socket) (uio : Uio) (flags : MsgFlags) : Bool :=
  so.soRcv.sbKnote || flags.msgDontwait || flags.msgNbio ||
    decide (so.soRcv.sbLowat ≤ so.soRcv.sbCc.toNat) ||
    decide (uio.uioResid ≤ so.soRcv.sbCc.toNat) ||
    decide (so.soRcv.sbHiwat.toNat ≤ so.soRcv.sbCc.toNat)

def streamVerdict (so : Socket) (uio : Uio) (flags : MsgFlags) (oresid : ℤ) : StreamVerdict :=
  let cc := so.soRcv.sbCc.toNat
  if so.soError.isSome then
    if 0 < cc then .deliver
    else if uio.uioResid < oresid then .out none
    else .out so.soError
  else if so.soRcv.sbCantrcvmore then if 0 < cc then .deliver else .out none
  else if cc = 0 ∧ nonblocking so flags = true then .out (some .ewouldblock)
  else if 0 < cc ∧ flags.msgWaitall = false ∧ enoughToDeliver so uio flags = true then .deliver
  else if flags.msgWaitall = true ∧ (uio.uioResid ≤ cc ∨ so.soRcv.sbLowat ≤ cc) then .deliver
  else .sbwait

def streamDequeue : List Mbuf → ℤ → Sockbuf → Uio → List Mbuf → Sockbuf × Uio × ℤ × List Mbuf
  | [], len, sb, uio, mp => ({ sb with sbMb := [] }, uio, len, mp)
  | m :: ms, len, sb, uio, mp =>
    if (m.mLen : ℤ) ≤ len then
      streamDequeue ms (len - m.mLen) (sb.sbfree m)
        { uio with uioResid := uio.uioResid - m.mLen } (mp ++ [m])
    else ({ sb with sbMb := m :: ms }, uio, len, mp)

/-- What has been copied out, and the length still to be dropped. -/
structure StreamCopy where
  sb : Sockbuf
  uio : Uio
  mp : List Mbuf
  len : ℤ
  enobufs : Bool := false

/-- The copy of what is left of the length, for a caller that takes mbufs. -/
def streamCopyRest (c : RecvCall) (s : StreamCopy) : StreamCopy :=
  if 0 < s.len then
    let copy := mCopym2 s.sb.sbMb s.len.toNat c.mget c.holeBreak
    match copy with
    -- with whole mbufs already taken the call returns those
    | [] => { s with len := 0, enobufs := s.mp.isEmpty }
    | m :: _ =>
      { s with uio := { s.uio with uioResid := s.uio.uioResid - m.mLen }, mp := s.mp ++ copy }
  else s

def streamCopy (c : RecvCall) (peek : Bool) (sb : Sockbuf) (uio : Uio) (mp : List Mbuf) (len : ℤ) :
    Option StreamCopy :=
  if c.mp0 then
    let whole := (sb.sbMb.head?.map fun m => decide ((m.mLen : ℤ) ≤ len)).getD false
    if !peek && whole then
      -- `*mp0` is set anew, also if there is a chain from an earlier round
      let (sb, uio, len, mp) := streamDequeue sb.sbMb len sb uio []
      some (streamCopyRest c { sb := sb, uio := uio, mp := mp, len := len })
    else some (streamCopyRest c { sb := sb, uio := uio, mp := mp, len := len })
  else (mMbuftouio uio sb.sbMb len c.holeBreak).map fun uio =>
    { sb := sb, uio := uio, mp := mp, len := len }

def streamDrop (peek : Bool) (s : StreamCopy) : Option Sockbuf :=
  if !peek && decide (0 < s.len) then sbdropLocked s.sb s.len.toNat else some s.sb

def streamRestart (c : RecvCall) (flagsp : Option MsgFlags) (oresid : ℤ) :
    ℕ → Socket → Uio → MsgFlags → List Mbuf → Option RecvResult
  | 0, _, _, _, _ => none
  | fuel + 1, so, uio, flags, mp =>
    match streamVerdict so uio flags oresid with
    | .sbwait => some ⟨.asleep, so, uio, mp, flagsp⟩
    | .out error =>
      let so := if error.isSome && !flags.msgPeek && so.soError.isSome then
        { so with soError := none } else so
      some ⟨.returned error, so, uio, mp, flagsp.map (·.or flags)⟩
    | .deliver =>
      let len := asInt (umin uio.uioResid so.soRcv.sbCc.toNat)
      let flags := { flags with
        msgHoleBreak := flags.msgHoleBreak || (c.holeBreak && so.soRcv.startsWithHole) }
      match streamCopy c flags.msgPeek so.soRcv uio mp len with
      | none => some ⟨.faulted, so, uio, mp, flagsp⟩
      | some s =>
        if s.enobufs then
          some ⟨.returned (some .enobufs), { so with soRcv := s.sb }, s.uio, s.mp,
            flagsp.map (·.or flags)⟩
        else
          match streamDrop flags.msgPeek s with
          | none => some ⟨.faulted, { so with soRcv := s.sb }, s.uio, s.mp, flagsp⟩
          | some sb =>
            let so := { so with soRcv := sb }
            -- `MSG_WAITALL` starts over for the rest
            if flags.msgWaitall ∧ 0 < s.uio.uioResid then
              streamRestart c flagsp oresid fuel so s.uio flags s.mp
            else some ⟨.returned none, so, s.uio, s.mp, flagsp.map (·.or flags)⟩

def soreceiveStream (fuel : ℕ) (so : Socket) (uio : Uio) (mp0 mget : Bool)
    (flagsp : Option MsgFlags) : Option RecvResult :=
  let flagsp' := flagsp.map MsgFlags.clearHoleBreak
  let flags := recvFlags flagsp
  if !so.soStream then some ⟨.returned (some .einval), so, uio, [], flagsp⟩
  else if flags.msgOob then some ⟨.rcvoob, so, uio, [], flagsp'⟩
  else if uio.uioResid = 0 then
    some ⟨.returned (some .einval), so, uio, [], flagsp'.map (·.or flags)⟩
  else if !so.ssIsconnected && !so.ssIsdisconnected then
    some ⟨.returned (some .enotconn), so, uio, [], flagsp'.map (·.or flags)⟩
  else streamRestart (recvCall mp0 mget flagsp) flagsp' (asInt uio.uioResid) fuel so uio flags []

section Lengths

variable {R : ℤ} {k : ℕ}

theorem umin_natCast (hk : k < 2 ^ 32) : umin R k = min (R % 2 ^ 32).toNat k := by
  unfold umin
  omega

end Lengths

/-- `m_mbuftouio` stops at a hole, too. -/
theorem mMbuftouioLoop_copied (holeBreak : Bool) (ms : List Mbuf) {k : ℕ} {lastHole : Bool}
    {uio : Uio} (h : uio.Ready) (hk : k < 2 ^ 31) (hroom : k ≤ uio.slots.length)
    (hlen : chainLen ms < 2 ^ 32) :
    ∃ uio', mMbuftouioLoop holeBreak ms k lastHole uio = some uio' ∧
      uio.Copied (((chainView ms).take (min k (runLen holeBreak lastHole ms))).map Elem.byte)
        uio' := by
  induction ms generalizing k lastHole uio with
  | nil => exact ⟨uio, rfl, by simpa using Uio.Copied.nil h⟩
  | cons m ms ih =>
    rw [chainLen_cons] at hlen
    have hlength : umin m.mLen k = min m.mLen k := by
      rw [umin_natCast (by omega)]
      omega
    unfold mMbuftouioLoop
    rw [hlength]
    -- the run ends here, or `m` belongs to it
    by_cases hother : holeBreak = true ∧ m.mHole ≠ lastHole
    · refine ⟨uio, by simp [hother], ?_⟩
      have hrun : runLen holeBreak lastHole (m :: ms) = 0 := by simp [runLen, hother]
      rw [hrun, Nat.min_zero]
      exact .nil h
    have hkind : holeBreak = true → m.mHole = lastHole := by
      intro hb
      by_contra hne
      exact hother ⟨hb, hne⟩
    obtain ⟨uio₁, hfront, hcopied₁⟩ := copyMbuf_copied (m := m) h (min_le_left m.mLen k)
      (by omega)
    have hslots : uio₁.slots.length = uio.slots.length - min m.mLen k := by
      rw [hcopied₁.slots, List.length_drop, List.length_map, List.length_take, m.view_length]
      omega
    have hleft : (k : ℤ) - (min m.mLen k : ℕ) = (k - min m.mLen k : ℕ) := by omega
    obtain ⟨uio₂, hrest, hcopied₂⟩ := @ih (k - min m.mLen k) m.mHole uio₁ hcopied₁.ready
      (by omega) (by omega) (by omega)
    refine ⟨uio₂, ?_, ?_⟩
    · dsimp only
      rw [if_neg hother, hfront, hleft, Option.bind_some, hrest]
    · have hboth := hcopied₁.trans hcopied₂
      have hsplit : (chainView (m :: ms)).take (min k (runLen holeBreak lastHole (m :: ms))) =
          m.view.take (min m.mLen k) ++
            (chainView ms).take (min (k - min m.mLen k) (runLen holeBreak m.mHole ms)) := by
        rw [runLen_cons hkind, chainView_cons, List.take_append, m.view_length]
        congr 1
        · by_cases hle : m.mLen ≤ k
          · rw [List.take_of_length_le (by rw [m.view_length]; omega),
              List.take_of_length_le (by rw [m.view_length]; omega)]
          · congr 1
            omega
        · congr 1
          omega
      rwa [← List.map_append, ← hsplit] at hboth

theorem mMbuftouio_copied (holeBreak : Bool) {m : Mbuf} {ms : List Mbuf} {n : ℕ} {uio : Uio}
    (h : uio.Ready) (hpos : 0 < chainLen (m :: ms)) (hlen : chainLen (m :: ms) < 2 ^ 32)
    (hsmall : n < 2 ^ 31) (hn : n = min (uio.uioResid % 2 ^ 32).toNat (chainLen (m :: ms))) :
    ∃ uio', mMbuftouio uio (m :: ms) n holeBreak = some uio' ∧
      uio.Copied (((chainView (m :: ms)).take
        (min n (runLen holeBreak m.mHole (m :: ms)))).map Elem.byte) uio' := by
  have hresid := h.resid
  have htotal : (if (0 : ℤ) < n then asInt (umin uio.uioResid n) else asInt uio.uioResid) = n := by
    split_ifs with hzero
    · have humin : umin uio.uioResid n = n := by
        rw [umin_natCast (by omega)]
        omega
      rw [humin, asInt_natCast (by omega)]
    · -- the request is a multiple of `2 ^ 32`, and as an `int` it is 0
      rw [asInt, BitVec.toInt_ofInt, Int.bmod_def]
      omega
  unfold mMbuftouio
  dsimp only
  rw [htotal]
  exact mMbuftouioLoop_copied holeBreak (m :: ms) h (by omega) (by omega) (by omega)

/-- What the loop over whole mbufs leaves to be copied. -/
theorem streamDequeue_spec (holeBreak : Bool) (ms : List Mbuf) {n : ℕ} {sb : Sockbuf} {uio : Uio}
    {mp : List Mbuf} (hms : ∀ m ∈ ms, m.InStream) (hn : n ≤ chainLen ms) :
    ∃ k rest sb' mp', k ≤ n ∧ streamDequeue ms n sb uio mp =
        (sb', { uio with uioResid := uio.uioResid - k }, ((n - k : ℕ) : ℤ), mp') ∧
      sb'.sbMb = rest ∧ chainView rest = (chainView ms).drop k ∧
      sb'.sbCc = sb.sbCc - BitVec.ofNat 32 k ∧
      mp' ++ takeMbufs holeBreak rest (n - k) = mp ++ takeMbufs holeBreak ms n ∧
      (n - k ≠ 0 → ∃ m ms', rest = m :: ms' ∧ n - k < m.mLen) := by
  induction ms generalizing n sb uio mp with
  | nil =>
    obtain rfl : n = 0 := by simpa using hn
    exact ⟨0, [], { sb with sbMb := [] }, mp, le_rfl, by simp [streamDequeue], rfl, rfl, by simp,
      rfl, fun h => absurd rfl h⟩
  | cons m ms ih =>
    rw [chainLen_cons] at hn
    have hpos := (hms m List.mem_cons_self).pos
    by_cases hle : m.mLen ≤ n
    · obtain ⟨k, rest, sb', mp', hk, hrun, hmb, hview, hcc, hmp, hlast⟩ :=
        @ih (n - m.mLen) (sb.sbfree m) { uio with uioResid := uio.uioResid - m.mLen } (mp ++ [m])
          (fun m' hm' => hms m' (List.mem_cons_of_mem _ hm')) (by omega)
      have hleft : n - m.mLen - k = n - (m.mLen + k) := by omega
      rw [hleft] at hrun hmp hlast
      refine ⟨m.mLen + k, rest, sb', mp', by omega, ?_, hmb, ?_, ?_, ?_, hlast⟩
      · have hsub : (n : ℤ) - m.mLen = (n - m.mLen : ℕ) := (Nat.cast_sub hle).symm
        rw [streamDequeue, if_pos (Nat.cast_le.mpr hle), hsub, hrun]
        simp only [Prod.mk.injEq, Uio.mk.injEq, true_and, and_true]
        push_cast
        ring
      · rw [hview, chainView_cons, ← List.drop_drop, List.drop_left' m.view_length]
      · rw [hcc, BitVec.ofNat_add]
        change sb.sbCc - _ - _ = _
        ring
      · rw [hmp, takeMbufs, if_neg (by omega), if_pos hle, List.append_assoc]
        rfl
    · refine ⟨0, m :: ms, { sb with sbMb := m :: ms }, mp, Nat.zero_le _, ?_, rfl, rfl, by simp,
        rfl, fun _ => ⟨m, ms, rfl, by omega⟩⟩
      rw [streamDequeue, if_neg (by omega)]
      simp

/-- What `deliver` has copied out when `n` elements are to be dropped, of which
`k` are gone already. -/
structure StreamCopy.Copies (s : StreamCopy) (c : RecvCall) (sb : Sockbuf) (uio : Uio) (n k : ℕ) :
    Prop where
  enobufs : s.enobufs = false
  le : k ≤ n
  len : s.len = (n - k : ℕ)
  view : s.sb.view = sb.view.drop k
  sbCc : s.sb.sbCc = sb.sbCc - BitVec.ofNat 32 k
  given : Given c sb.sbMb (if c.mp0 then n else min n (sb.available c.holeBreak)) uio [] s.uio s.mp

/-- Without enough left for the first mbuf, the loop over whole mbufs does
nothing. -/
theorem streamCopy_mp0 {c : RecvCall} {sb : Sockbuf} {uio : Uio} {len : ℤ} (hmp : c.mp0 = true) :
    streamCopy c false sb uio [] len =
      let (sb', uio', len', mp') := streamDequeue sb.sbMb len sb uio []
      some (streamCopyRest c { sb := sb', uio := uio', mp := mp', len := len' }) := by
  unfold streamCopy
  rw [if_pos hmp]
  cases hmb : sb.sbMb with
  | nil =>
    simp [streamDequeue, ← hmb]
  | cons m ms =>
    by_cases hle : (m.mLen : ℤ) ≤ len
    · simp [hle]
    · simp [hle, streamDequeue, ← hmb]

theorem streamCopy_copies {c : RecvCall} {so : Socket} {uio : Uio} {n : ℕ} (hs : so.HasStream)
    (hlen : chainLen so.soRcv.sbMb < 2 ^ 32) (hsmall : n < 2 ^ 31)
    (hn : n = min (uio.uioResid % 2 ^ 32).toNat (chainLen so.soRcv.sbMb))
    (hget : c.mp0 = true → c.mget = true) (hroom : Room c uio) :
    ∃ s k, streamCopy c false so.soRcv uio [] n = some s ∧ s.Copies c so.soRcv uio n k := by
  by_cases hmp : c.mp0 = true
  · obtain ⟨k, rest, sb, mp, hk, hrun, hmb, hview, hcc, htake, hlast⟩ :=
      @streamDequeue_spec c.holeBreak so.soRcv.sbMb n so.soRcv uio [] hs.chain (by omega)
    have hview' : sb.view = so.soRcv.view.drop k := by rw [Sockbuf.view, hmb, hview, Sockbuf.view]
    rw [streamCopy_mp0 hmp, hrun]
    refine ⟨_, k, rfl, ?_⟩
    rw [List.nil_append] at htake
    by_cases hzero : n - k = 0
    · obtain rfl : k = n := by omega
      have hmp' : mp = takeMbufs c.holeBreak so.soRcv.sbMb k := by
        rw [← htake, hzero]
        cases rest <;> simp [takeMbufs]
      refine ⟨by simp [streamCopyRest], le_rfl, by simp [streamCopyRest], ?_, ?_, ?_⟩
      · simpa [streamCopyRest] using hview'
      · simpa [streamCopyRest] using hcc
      · simp [Given, hmp, streamCopyRest, hmp']
    · obtain ⟨m, ms, hrest, hlt⟩ := hlast hzero
      obtain ⟨x, xs, hcopy, hxlen⟩ := @mCopym2_cons m ms (n - k) c.holeBreak hzero
      have htake' : takeMbufs c.holeBreak rest (n - k) = x :: xs := by
        rw [hrest, takeMbufs, if_neg hzero, if_neg (by omega), hcopy]
      rw [htake'] at htake
      have hcopyRest :
          streamCopyRest c ⟨sb, { uio with uioResid := uio.uioResid - k }, mp, (n - k : ℕ), false⟩ =
            ⟨sb, { uio with uioResid := uio.uioResid - k - x.mLen }, mp ++ x :: xs, (n - k : ℕ),
              false⟩ := by
        unfold streamCopyRest
        dsimp only
        rw [if_pos (by omega), hmb, hrest, Int.toNat_natCast, hget hmp, hcopy]
      rw [hcopyRest]
      refine ⟨rfl, hk, rfl, hview', hcc, ?_⟩
      unfold Given
      rw [if_pos hmp, if_pos hmp]
      refine ⟨?_, htake⟩
      simp only [Uio.mk.injEq, true_and, and_true]
      omega
  · obtain ⟨m, ms, hsb⟩ := List.exists_cons_of_ne_nil hs.nonempty
    have hpos := (hs.chain m (by simp [hsb])).pos
    have hready : uio.Ready := by simpa [Room, hmp] using hroom
    have hhole : so.soRcv.startsWithHole = m.mHole := by simp [Sockbuf.startsWithHole, hsb]
    have havail : so.soRcv.available c.holeBreak = runLen c.holeBreak m.mHole (m :: ms) := by
      rw [Sockbuf.available, hhole, hsb]
    rw [hsb] at hlen hn
    obtain ⟨uio', hrun, hcopied⟩ := mMbuftouio_copied c.holeBreak hready
      (by rw [chainLen_cons]; omega) hlen hsmall hn
    refine ⟨{ sb := so.soRcv, uio := uio', mp := [], len := n }, 0, ?_,
      rfl, Nat.zero_le _, rfl, rfl, by simp, ?_⟩
    · rw [streamCopy, if_neg hmp, hsb, hrun]
      rfl
    · unfold Given
      rw [if_neg hmp, if_neg hmp, havail, hsb]
      exact ⟨hcopied, rfl⟩

/-- A connected stream socket whose counter is right. -/
structure Socket.Connected (so : Socket) : Prop extends so.HasStream where
  stream : so.soStream = true
  connected : so.ssIsconnected = true
  counted : so.soRcv.sbCc = BitVec.ofNat 32 (chainLen so.soRcv.sbMb)
  bound : chainLen so.soRcv.sbMb < 2 ^ 32

def streamLen (so : Socket) (uio : Uio) : ℕ :=
  min (uio.uioResid % 2 ^ 32).toNat (chainLen so.soRcv.sbMb)

section Stream

variable {so : Socket} {uio : Uio} {f : MsgFlags}

theorem Socket.Connected.toNat_sbCc (hs : so.Connected) :
    so.soRcv.sbCc.toNat = chainLen so.soRcv.sbMb := by
  have hbound := hs.bound
  rw [hs.counted, BitVec.toNat_ofNat, Nat.mod_eq_of_lt (by omega)]

theorem Socket.Connected.chainLen_pos (hs : so.Connected) : 0 < chainLen so.soRcv.sbMb := by
  obtain ⟨m, ms, hsb⟩ := List.exists_cons_of_ne_nil hs.nonempty
  have hpos := (hs.chain m (by simp [hsb])).pos
  rw [hsb, chainLen_cons]
  omega

theorem streamDrop_spec {s : StreamCopy} {c : RecvCall} {sb : Sockbuf} {n k : ℕ}
    (h : s.Copies c sb uio n k) (hn : n ≤ sb.view.length) :
    ∃ sb', streamDrop false s = some sb' ∧ sb'.view = sb.view.drop n := by
  have hk := h.le
  have hlen : s.len.toNat = n - k := by rw [h.len, Int.toNat_natCast]
  by_cases hzero : n - k = 0
  · obtain rfl : k = n := by omega
    refine ⟨s.sb, ?_, h.view⟩
    simp [streamDrop, h.len]
  · have hroom : s.len.toNat ≤ s.sb.view.length := by
      rw [hlen, h.view, List.length_drop]
      omega
    obtain ⟨sb', hdrop, hview, -⟩ := sbdropLocked_some s.sb s.len.toNat hroom
    refine ⟨sb', ?_, ?_⟩
    · have hpos : 0 < s.len := by rw [h.len]; omega
      simp [streamDrop, hpos, hdrop]
    · rw [hview, h.view, hlen, List.drop_drop]
      congr 1
      omega

/-- A delivery without `MSG_WAITALL` is the end of the call. -/
theorem streamRestart_deliver {c : RecvCall} (flagsp : Option MsgFlags) {oresid : ℤ} (fuel : ℕ)
    {flags : MsgFlags} {s : StreamCopy} {sb : Sockbuf} (hpeek : flags.msgPeek = false)
    (hwait : flags.msgWaitall = false) (hgo : streamVerdict so uio flags oresid = .deliver)
    (hcopy : streamCopy c false so.soRcv uio []
      (asInt (umin uio.uioResid so.soRcv.sbCc.toNat)) = some s)
    (hbufs : s.enobufs = false) (hdrop : streamDrop false s = some sb) :
    streamRestart c flagsp oresid (fuel + 1) so uio flags [] =
      some ⟨.returned none, { so with soRcv := sb }, s.uio, s.mp,
        flagsp.map fun f => f.or { flags with
          msgHoleBreak := flags.msgHoleBreak || (c.holeBreak && so.soRcv.startsWithHole) }⟩ := by
  rw [streamRestart, hgo]
  dsimp only
  rw [hpeek, hcopy]
  dsimp only
  rw [hbufs, hdrop]
  simp [hwait]

variable {fuel : ℕ} (mp0 mget : Bool)

theorem soreceiveStream_eq (hs : so.Connected) (hf : f.Takes) (hpos : 0 < uio.uioResid) :
    soreceiveStream fuel so uio mp0 mget (some f) =
      streamRestart (recvCall mp0 mget (some f)) (some f.clearHoleBreak) (asInt uio.uioResid)
        fuel so uio (recvFlags (some f)) [] := by
  have hoob : (recvFlags (some f)).msgOob = false := hf.noOob
  unfold soreceiveStream
  dsimp only
  rw [hs.stream, hoob, if_neg hpos.ne', hs.connected]
  rfl

/-- `soreceive_stream` drops one length, and copies it up to the first hole
boundary in the one mode and all of it in the other. -/
theorem soreceiveStream_delivers (hs : so.Connected) (hf : f.Takes) (hwait : f.msgWaitall = false)
    (hget : mp0 = true → mget = true) (hpos : 0 < uio.uioResid)
    (hroom : Room (recvCall mp0 mget (some f)) uio)
    (hgo : streamVerdict so uio (recvFlags (some f)) (asInt uio.uioResid) = .deliver)
    (hsmall : streamLen so uio < 2 ^ 31) :
    ∃ r, soreceiveStream (fuel + 1) so uio mp0 mget (some f) = some r ∧
      r.exit = .returned none ∧ r.so.soRcv.view = so.soRcv.view.drop (streamLen so uio) ∧
      Given (recvCall mp0 mget (some f)) so.soRcv.sbMb
        (if mp0 then streamLen so uio
          else min (streamLen so uio) (so.soRcv.available f.msgHoleBreak)) uio [] r.uio r.mp ∧
      r.flagsp = some { f with
        msgHoleBreak := f.msgHoleBreak && so.soRcv.startsWithHole } := by
  have hlen : asInt (umin uio.uioResid so.soRcv.sbCc.toNat) = streamLen so uio := by
    rw [hs.toNat_sbCc, umin_natCast hs.bound]
    exact asInt_natCast hsmall
  obtain ⟨s, k, hcopy, hs'⟩ := streamCopy_copies (c := recvCall mp0 mget (some f))
    hs.toHasStream hs.bound hsmall rfl hget hroom
  have hn : streamLen so uio ≤ so.soRcv.view.length := by
    rw [Sockbuf.view, chainView_length]
    exact min_le_right _ _
  obtain ⟨sb, hdrop, hview⟩ := streamDrop_spec hs' hn
  rw [← hlen] at hcopy
  have hpeek : (recvFlags (some f)).msgPeek = false := hf.noPeek
  have hwait' : (recvFlags (some f)).msgWaitall = false := hwait
  have hrun := streamRestart_deliver (some f.clearHoleBreak) fuel hpeek hwait' hgo hcopy
    hs'.enobufs hdrop
  refine ⟨⟨.returned none, { so with soRcv := sb }, s.uio, s.mp,
    some { f with msgHoleBreak := f.msgHoleBreak && so.soRcv.startsWithHole }⟩,
    ?_, rfl, hview, hs'.given, rfl⟩
  rw [soreceiveStream_eq mp0 mget hs hf hpos, hrun, Option.map_some, MsgFlags.or_recvFlags]
  rfl

/-- A length that does not fit an `int` is negative, and nothing is dropped. -/
theorem streamCopy_negative {c : RecvCall} {sb : Sockbuf} {len : ℤ} {s : StreamCopy}
    (hlen : len < 0) (h : streamCopy c false sb uio [] len = some s) :
    s.sb = sb ∧ s.len = len ∧ s.enobufs = false := by
  unfold streamCopy at h
  split_ifs at h with hmp
  · have hwhole : (sb.sbMb.head?.map fun m => decide ((m.mLen : ℤ) ≤ len)).getD false = false := by
      cases sb.sbMb with
      | nil => rfl
      | cons m ms =>
        have hno : ¬ (m.mLen : ℤ) ≤ len := by omega
        simp [hno]
    simp only [hwhole, Bool.and_false, Bool.false_eq_true, if_false, Option.some.injEq,
      streamCopyRest, not_lt.mpr hlen.le] at h
    subst h
    exact ⟨rfl, rfl, rfl⟩
  · obtain ⟨uio', -, rfl⟩ := Option.map_eq_some_iff.mp h
    exact ⟨rfl, rfl, rfl⟩

section

variable (hs : so.Connected)
include hs

theorem soreceiveStream_negative (hf : f.Takes) (hwait : f.msgWaitall = false)
    (hpos : 0 < uio.uioResid)
    (hgo : streamVerdict so uio (recvFlags (some f)) (asInt uio.uioResid) = .deliver)
    (hbig : 2 ^ 31 ≤ streamLen so uio) :
    ∃ r, soreceiveStream (fuel + 1) so uio mp0 mget (some f) = some r ∧
      r.exit ≠ .returned (some .ewouldblock) ∧ r.so.soRcv.view = so.soRcv.view := by
  have hbound := hs.bound
  have hle : streamLen so uio ≤ chainLen so.soRcv.sbMb := min_le_right _ _
  have hlen : asInt (umin uio.uioResid so.soRcv.sbCc.toNat) < 0 := by
    rw [hs.toNat_sbCc, umin_natCast hbound]
    change asInt (streamLen so uio) < 0
    rw [asInt, BitVec.toInt_ofInt, Int.bmod_def]
    omega
  have hpeek : (recvFlags (some f)).msgPeek = false := hf.noPeek
  have hwait' : (recvFlags (some f)).msgWaitall = false := hwait
  rw [soreceiveStream_eq mp0 mget hs hf hpos]
  cases hcopy : streamCopy (recvCall mp0 mget (some f)) false so.soRcv uio []
      (asInt (umin uio.uioResid so.soRcv.sbCc.toNat)) with
  | none =>
    refine ⟨⟨.faulted, so, uio, [], some f.clearHoleBreak⟩, ?_, by simp, rfl⟩
    rw [streamRestart, hgo]
    dsimp only
    rw [hpeek, hcopy]
  | some s =>
    obtain ⟨hsb, hlen', hbufs⟩ := streamCopy_negative hlen hcopy
    have hdrop : streamDrop false s = some s.sb := by
      rw [streamDrop, hlen', decide_eq_false (by omega)]
      rfl
    refine ⟨_, streamRestart_deliver (some f.clearHoleBreak) fuel hpeek hwait' hgo hcopy hbufs
      hdrop, by simp, ?_⟩
    rw [hsb]

/-- What `soreceive_generic` does not hold back, `soreceive_stream` delivers. -/
theorem streamVerdict_deliver {flags : MsgFlags} (hwait : flags.msgWaitall = false)
    (h : ¬ HeldBack so uio flags) (oresid : ℤ) : streamVerdict so uio flags oresid = .deliver := by
  have hpos := hs.chainLen_pos
  have hcc := hs.toNat_sbCc
  have hne : so.soRcv.sbMb.isEmpty = false := List.isEmpty_eq_false_iff.mpr hs.nonempty
  unfold streamVerdict
  dsimp only
  rw [hcc]
  by_cases herr : so.soError = none
  · by_cases hmore : so.soRcv.sbCantrcvmore = true
    · simp [herr, hmore, hpos]
    · have hmay : mayBlock so uio flags = false := by
        by_contra hb
        exact h ⟨Bool.not_eq_false _ ▸ hb, herr, Bool.eq_false_iff.mpr hmore⟩
      have henough : enoughToDeliver so uio flags = true := by
        by_cases hnow : flags.msgDontwait = true
        · simp [enoughToDeliver, hnow]
        · simp only [mayBlock, hne, hwait, hnow, Bool.false_or, Bool.false_and, Bool.or_false,
            Bool.not_false, Bool.true_and, Bool.and_eq_false_iff, decide_eq_false_iff_not,
            not_lt] at hmay
          rcases hmay with hroom | hlow
          · simp [enoughToDeliver, hroom]
          · simp [enoughToDeliver, hlow]
      simp [herr, hmore, hpos, hpos.ne', hwait, henough]
  · simp [Option.isSome_iff_ne_none.mpr herr, hpos]

/-- A call that is held back does not deliver. -/
theorem soreceiveGeneric_heldBack (hf : f.Takes) (hnb : nonblocking so f = true)
    (hpos : 0 < uio.uioResid) (h : HeldBack so uio (recvFlags (some f))) :
    ∃ r, soreceiveGeneric (fuel + 1) so uio mp0 mget (some f) = some r ∧
      r.exit = .returned (some .ewouldblock) := by
  obtain ⟨hmay, herr, hmore⟩ := h
  have hoob : (recvFlags (some f)).msgOob = false := hf.noOob
  have hany : (so.soRcv.sbMb.any fun m => m.mType == .mtOobdata || m.mEor) = false := by
    rw [List.any_eq_false]
    intro m hm
    simp [(hs.chain m hm).mType, (hs.chain m hm).noEor]
  have hnb' : nonblocking so (recvFlags (some f)) = true := hnb
  have hverdict : blockVerdict so uio (recvFlags (some f)) = .release (some .ewouldblock) := by
    unfold blockVerdict
    rw [hmay, herr, hmore, hany, hs.connected, if_neg hpos.ne', hnb']
    rfl
  rw [soreceiveGeneric, hoob, genericRestart, hverdict]
  exact ⟨_, rfl, rfl⟩

/-- Nor does `soreceive_stream` say that it would block. -/
theorem soreceiveStream_heldBack (hf : f.Takes) (hwait : f.msgWaitall = false)
    (hget : mp0 = true → mget = true) (hpos : 0 < uio.uioResid)
    (hroom : Room (recvCall mp0 mget (some f)) uio) (h : HeldBack so uio (recvFlags (some f))) :
    ∃ r, soreceiveStream (fuel + 1) so uio mp0 mget (some f) = some r ∧
      r.exit ≠ .returned (some .ewouldblock) := by
  obtain ⟨-, herr, hmore⟩ := h
  have hwait' : (recvFlags (some f)).msgWaitall = false := hwait
  have hcc : 0 < so.soRcv.sbCc.toNat := hs.toNat_sbCc ▸ hs.chainLen_pos
  have hverdict : streamVerdict so uio (recvFlags (some f)) (asInt uio.uioResid) =
      if enoughToDeliver so uio (recvFlags (some f)) then .deliver else .sbwait := by
    unfold streamVerdict
    simp [herr, hmore, hcc, hcc.ne', hwait']
  split_ifs at hverdict
  · by_cases hsmall : streamLen so uio < 2 ^ 31
    · obtain ⟨r, hr, hexit, -⟩ := soreceiveStream_delivers mp0 mget hs hf hwait hget hpos hroom
        hverdict hsmall
      exact ⟨r, hr, by rw [hexit]; decide⟩
    · obtain ⟨r, hr, hexit, -⟩ := soreceiveStream_negative mp0 mget hs hf hwait hpos hverdict
        (not_lt.mp hsmall)
      exact ⟨r, hr, hexit⟩
  · refine ⟨⟨.asleep, so, uio, [], some f.clearHoleBreak⟩, ?_, by simp⟩
    rw [soreceiveStream_eq mp0 mget hs hf hpos, streamRestart, hverdict]

end

end Stream

/-- The same elements, flags, `uio_resid` and rest of the buffer. -/
structure RecvResult.Agrees (r r' : RecvResult) : Prop where
  exit : r.exit = r'.exit
  written : r.uio.written = r'.uio.written
  mp : chainView r.mp = chainView r'.mp
  flagsp : r.flagsp = r'.flagsp
  resid : r.uio.uioResid = r'.uio.uioResid
  view : r.so.soRcv.view = r'.so.soRcv.view

def RecvResult.Conserves (r : RecvResult) (so : Socket) (uio : Uio) (mp0 : Bool) : Prop :=
  ∃ n ≤ so.soRcv.view.length, r.so.soRcv.view = so.soRcv.view.drop n ∧
    if mp0 then so.soRcv.view.take n <+: chainView r.mp
    else uio.Copied ((so.soRcv.view.take n).map Elem.byte) r.uio

theorem takeMbufs_view (holeBreak : Bool) (ms : List Mbuf) {n : ℕ} (hn : n ≤ chainLen ms)
    (hext : ∀ m ∈ ms, m.mHole = true → m.mExt = none) :
    (chainView ms).take n <+: chainView (takeMbufs holeBreak ms n) := by
  induction ms generalizing n with
  | nil => simp
  | cons m ms ih =>
    rw [chainLen_cons] at hn
    rw [takeMbufs, chainView_cons]
    split_ifs with hzero hle
    · simp [hzero]
    · rw [List.take_append, m.view_length, List.take_of_length_le (by rw [m.view_length]; omega),
        chainView_cons]
      exact (List.prefix_append_right_inj _).mpr
        (ih (by omega) fun m' hm' => hext m' (List.mem_cons_of_mem _ hm'))
    · obtain ⟨es, hes, -⟩ := @mCopym2_view m ms n holeBreak hzero (by omega)
        (hext m List.mem_cons_self)
      rw [hes, List.take_append_of_le_length (by rw [m.view_length]; omega)]
      exact List.prefix_append _ _

section Agree

variable {so : Socket} {uio : Uio} {c : RecvCall} {n k : ℕ}

theorem Sockbuf.available_le (sb : Sockbuf) (holeBreak : Bool) :
    sb.available holeBreak ≤ sb.view.length := by
  rw [view, chainView_length]
  exact runLen_le _ _ _

/-- Handing over the same number of elements is the same delivery. -/
theorem Given.unique {uio₁ uio₂ : Uio} {mp₁ mp₂ : List Mbuf}
    (h₁ : Given c so.soRcv.sbMb n uio [] uio₁ mp₁)
    (h₂ : Given c so.soRcv.sbMb n uio [] uio₂ mp₂) : uio₁.written = uio₂.written ∧ mp₁ = mp₂ := by
  unfold Given at *
  split_ifs at *
  · rw [h₁.1, h₁.2, h₂.1, h₂.2]
    exact ⟨rfl, rfl⟩
  · rw [h₁.1.written, h₁.2, h₂.1.written, h₂.2]
    exact ⟨rfl, rfl⟩

theorem Given.conserves {r : RecvResult} (hn : n ≤ so.soRcv.view.length)
    (hview : r.so.soRcv.view = so.soRcv.view.drop n)
    (h : Given c so.soRcv.sbMb n uio [] r.uio r.mp)
    (hext : ∀ m ∈ so.soRcv.sbMb, m.mHole = true → m.mExt = none) :
    r.Conserves so uio c.mp0 := by
  refine ⟨n, hn, hview, ?_⟩
  unfold Given at h
  split_ifs at h ⊢
  · rw [h.2, List.nil_append]
    exact takeMbufs_view _ _ (by rwa [← chainView_length]) hext
  · exact h.1

end Agree

/-- The routines agree where nothing is held back and the length fits an `int`. -/
theorem agrees_of_delivers {so : Socket} {uio : Uio} {f : MsgFlags} {mp0 mget : Bool}
    {r r' : RecvResult} {n : ℕ} (hroom : Room (recvCall mp0 mget (some f)) uio)
    (hexit : r.exit = .returned none)
    (hview : r.so.soRcv.view = so.soRcv.view.drop (streamLen so uio))
    (hgiven : Given (recvCall mp0 mget (some f)) so.soRcv.sbMb
      (if mp0 then streamLen so uio
        else min (streamLen so uio) (so.soRcv.available f.msgHoleBreak)) uio [] r.uio r.mp)
    (hflags : r.flagsp = r'.flagsp) (hdel : r'.Delivers (recvCall mp0 mget (some f)) so uio n)
    (hn : n = min uio.uioResid.toNat (so.soRcv.available f.msgHoleBreak)) :
    (r.Agrees r' ↔ streamLen so uio = n) ∧
      (streamLen so uio = n →
        Given (recvCall mp0 mget (some f)) so.soRcv.sbMb n uio [] r.uio r.mp) := by
  have hle : streamLen so uio ≤ chainLen so.soRcv.sbMb := min_le_right _ _
  have hlen : so.soRcv.view.length = chainLen so.soRcv.sbMb := chainView_length _
  have havail := so.soRcv.available_le f.msgHoleBreak
  have hsame : streamLen so uio = n →
      Given (recvCall mp0 mget (some f)) so.soRcv.sbMb n uio [] r.uio r.mp := by
    intro heq
    have hcount : (if mp0 then streamLen so uio
        else min (streamLen so uio) (so.soRcv.available f.msgHoleBreak)) = n := by
      split_ifs
      · exact heq
      · omega
    rwa [hcount] at hgiven
  refine ⟨⟨fun h => ?_, fun heq => ?_⟩, hsame⟩
  · have hrest := congrArg List.length h.view
    rw [hview, hdel.view, List.length_drop, List.length_drop] at hrest
    omega
  · obtain ⟨hwritten, hmp⟩ := Given.unique (hsame heq) hdel.given
    refine ⟨hexit.trans hdel.exit.symm, hwritten, by rw [hmp], hflags, ?_, ?_⟩
    · rw [(hsame heq).resid (by omega) hroom, hdel.given.resid (by omega) hroom]
    · rw [hview, hdel.view, heq]

/-- The two routines agree on a non-blocking call if and only if the call is not
held back by the low-water mark, and the length that `soreceive_stream` computes
fits an `int` and is what there is to deliver; and then nothing is lost. -/
theorem soreceive_stream_agrees_iff (so : Socket) (uio : Uio) (f : MsgFlags) (mp0 mget : Bool)
    (fuel : ℕ) (hs : so.Connected) (hf : f.Takes) (hwait : f.msgWaitall = false)
    (hnb : nonblocking so f = true) (hget : mp0 = true → mget = true) (hpos : 0 < uio.uioResid)
    (hroom : Room (recvCall mp0 mget (some f)) uio) (hfuel : so.soRcv.sbMb.length + 1 < fuel) :
    ∃ r r', soreceiveStream fuel so uio mp0 mget (some f) = some r ∧
      soreceiveGeneric fuel so uio mp0 mget (some f) = some r' ∧
      (r.Agrees r' ↔ ¬ HeldBack so uio (recvFlags (some f)) ∧ streamLen so uio < 2 ^ 31 ∧
        streamLen so uio = min uio.uioResid.toNat (so.soRcv.available f.msgHoleBreak)) ∧
      (r.Agrees r' → (∀ m ∈ so.soRcv.sbMb, m.mHole = true → m.mExt = none) →
        r.Conserves so uio mp0) := by
  obtain ⟨fuel, rfl⟩ := Nat.exists_eq_succ_of_ne_zero (by omega : fuel ≠ 0)
  by_cases hheld : HeldBack so uio (recvFlags (some f))
  · obtain ⟨r, hr, hexit⟩ := soreceiveStream_heldBack mp0 mget hs hf hwait hget hpos hroom hheld
    obtain ⟨r', hr', hexit'⟩ := soreceiveGeneric_heldBack mp0 mget hs hf hnb hpos hheld
    have hno : ¬ r.Agrees r' := fun h => hexit (h.exit.trans hexit')
    exact ⟨r, r', hr, hr', iff_of_false hno fun h => h.1 hheld, fun h => absurd h hno⟩
  have hgo := streamVerdict_deliver hs (hwait : (recvFlags (some f)).msgWaitall = false) hheld
    (asInt uio.uioResid)
  have hbehind : ¬ WaitsBehind so uio (recvFlags (some f)) f.msgHoleBreak := by
    intro h
    have hw : f.msgWaitall = true := h.1
    rw [hwait] at hw
    cases hw
  obtain ⟨r', hr', hdel, hflags'⟩ := soreceiveGeneric_delivers mp0 mget hs.toHasStream hheld
    hbehind hf hget hpos hroom hfuel
  have havail := so.soRcv.available_le f.msgHoleBreak
  by_cases hsmall : streamLen so uio < 2 ^ 31
  · obtain ⟨r, hr, hexit, hview, hgiven, hflags⟩ :=
      soreceiveStream_delivers mp0 mget hs hf hwait hget hpos hroom hgo hsmall
    obtain ⟨hiff, hsame⟩ := agrees_of_delivers hroom hexit hview hgiven
      (hflags.trans hflags'.symm) hdel rfl
    refine ⟨r, r', hr, hr', ⟨fun h => ⟨hheld, hsmall, hiff.mp h⟩, fun h => hiff.mpr h.2.2⟩, ?_⟩
    intro h hext
    have heq := hiff.mp h
    refine Given.conserves (by omega) ?_ (hsame heq) hext
    rw [hview, heq]
  · obtain ⟨r, hr, -, hview⟩ := soreceiveStream_negative mp0 mget hs hf hwait hpos hgo
      (not_lt.mp hsmall)
    have hno : ¬ r.Agrees r' := by
      intro h
      have hrest := congrArg List.length h.view
      rw [hview, hdel.view, List.length_drop] at hrest
      have hsome := hs.available_pos f.msgHoleBreak
      omega
    exact ⟨r, r', hr, hr', iff_of_false hno fun h => hsmall h.2.1, fun h => absurd h hno⟩

/-- Two bytes and a hole: a request for the two bytes. -/
theorem soreceive_stream_agrees_small :
    let sb := { Sockbuf.empty with sbMb := [.ofBytes [7, 8], mGethole 3], sbCc := 5 }
    let uio : Uio := { uioIov := [⟨100, 2⟩], uioResid := 2 }
    ∃ r r', soreceiveStream 5 { soRcv := sb, ssNbio := true } uio false true
        (some { msgHoleBreak := true }) = some r ∧
      soreceiveGeneric 5 { soRcv := sb, ssNbio := true } uio false true
        (some { msgHoleBreak := true }) = some r' ∧ r.Agrees r' := by
  intro sb uio
  have hs : Socket.Connected { soRcv := sb, ssNbio := true } := by
    refine ⟨⟨?_, by simp [sb], rfl⟩, rfl, rfl, rfl, by decide⟩
    intro m hm
    simp only [sb, List.mem_cons, List.not_mem_nil, or_false] at hm
    rcases hm with rfl | rfl <;> exact ⟨rfl, rfl, by decide⟩
  have hready : uio.Ready := ⟨rfl, by decide, by decide⟩
  obtain ⟨r, r', hr, hr', hiff, -⟩ := soreceive_stream_agrees_iff
    { soRcv := sb, ssNbio := true } uio { msgHoleBreak := true } false true 5 hs ⟨rfl, rfl⟩ rfl rfl
    nofun (by decide) hready (by decide)
  exact ⟨r, r', hr, hr', hiff.mpr ⟨fun h => absurd h.1 (by decide), by decide, by decide⟩⟩

/-- A byte and a hole behind it, and a request for more: the hole is dropped by
`soreceive_stream` without having been delivered, or delivered in spite of the
break. -/
theorem soreceive_stream_loses_hole :
    let sb := { Sockbuf.empty with sbMb := [.ofBytes [7], mGethole 2], sbCc := 3 }
    let so : Socket := { soRcv := sb, ssNbio := true }
    let uio : Uio := { uioIov := [⟨100, 4⟩], uioResid := 4 }
    let seen := fun r : RecvResult => (r.uio.written, chainView r.mp, r.so.soRcv.view)
    let f : MsgFlags := { msgHoleBreak := true }
    (soreceiveGeneric 4 so uio false true (some f)).map seen =
        some ([(100, 7)], [], [.missing, .missing]) ∧
      (soreceiveStream 4 so uio false true (some f)).map seen = some ([(100, 7)], [], []) ∧
      (soreceiveGeneric 4 so uio true true (some f)).map seen =
        some ([], [.data 7], [.missing, .missing]) ∧
      (soreceiveStream 4 so uio true true (some f)).map seen =
        some ([], [.data 7, .missing, .missing], []) := by
  exact ⟨rfl, rfl, rfl, rfl⟩

end Libuinet
