import Libuinet.ReassWindow
import Libuinet.TcpInput

namespace Libuinet

open Execution SerialArith

def StateKept (a b : TcpState) : Prop := b = a ∨ a = .finWait1 ∧ b = .finWait2

theorem StateKept.trans {a b c : TcpState} (h : StateKept a b) (h' : StateKept b c) :
    StateKept a c := by
  rcases h with rfl | ⟨rfl, rfl⟩
  · exact h'
  · rcases h' with rfl | ⟨h, -⟩
    · exact Or.inr ⟨rfl, rfl⟩
    · cases h

/-- The two blocks agree on what has been received, up to the connection state
and the urgent mark.  For a passive connection they agree on what has been
advertised as well. -/
structure Tcpcb.SameRecv (a b : Tcpcb) : Prop where
  reass : b.toReassCb = { a.toReassCb with
    tState := b.tState
    soRcv := { a.soRcv with sbRcvatmark := b.soRcv.sbRcvatmark } }
  rcvWnd : b.rcvWnd = a.rcvWnd
  oobinline : b.soOobinline = a.soOobinline
  frozen : a.inpPassive = true → b.rcvAdv = a.rcvAdv ∧ b.lastAckSent = a.lastAckSent

/-- The connection goes on with what it has received. -/
structure Tcpcb.Keeps (a b : Tcpcb) : Prop extends a.SameRecv b where
  state : StateKept a.tState b.tState

def Tcpcb.Drops (tp : Tcpcb) (r : TcpResult) : Prop :=
  tp.SameRecv r.tp ∧ (r.fate = .live → StateKept tp.tState r.tp.tState)

theorem Tcpcb.SameRecv.inpPassive {a b : Tcpcb} (h : a.SameRecv b) :
    b.inpPassive = a.inpPassive := by rw [h.reass]

theorem Tcpcb.SameRecv.trans {a b c : Tcpcb} (h : a.SameRecv b) (h' : b.SameRecv c) :
    a.SameRecv c := by
  refine ⟨by rw [h'.reass, h.reass], h'.rcvWnd.trans h.rcvWnd, h'.oobinline.trans h.oobinline,
    fun hp => ?_⟩
  have h₁ := h.frozen hp
  have h₂ := h'.frozen (h.inpPassive.trans hp)
  exact ⟨h₂.1.trans h₁.1, h₂.2.trans h₁.2⟩

namespace Tcpcb.Keeps

variable {a b c : Tcpcb}

/-- Nothing but send state, flags and timestamps is different. -/
theorem of_eq (h : b.toReassCb = a.toReassCb) (hw : b.rcvWnd = a.rcvWnd)
    (ho : b.soOobinline = a.soOobinline) (ha : b.rcvAdv = a.rcvAdv)
    (hl : b.lastAckSent = a.lastAckSent) : a.Keeps b :=
  ⟨⟨by rw [h], hw, ho, fun _ => ⟨ha, hl⟩⟩, Or.inl (by rw [h])⟩

theorem refl (a : Tcpcb) : a.Keeps a := of_eq rfl rfl rfl rfl rfl

theorem trans (h : a.Keeps b) (h' : b.Keeps c) : a.Keeps c :=
  ⟨h.toSameRecv.trans h'.toSameRecv, h.state.trans h'.state⟩

theorem drops {r : TcpResult} (h : a.Keeps r.tp) : a.Drops r := ⟨h.toSameRecv, fun _ => h.state⟩

theorem trans_drops {r : TcpResult} (h : a.Keeps b) (h' : b.Drops r) : a.Drops r :=
  ⟨h.toSameRecv.trans h'.1, fun hr => h.state.trans (h'.2 hr)⟩

end Tcpcb.Keeps

structure InputVars.Keeps (v v' : InputVars) : Prop where
  tp : v.tp.Keeps v'.tp
  th : v'.th = v.th
  thflags : v'.thflags = v.thflags
  tlen : v'.tlen = v.tlen
  dropHdrlen : v'.dropHdrlen = v.dropHdrlen
  m : v'.m = v.m

variable (e : TcpEnv) (v : InputVars)

def InputVars.Passes : Except TcpResult InputVars → Prop :=
  Outcome v.tp.Drops v.Keeps

namespace InputVars.Keeps

variable {v v' v'' : InputVars}

theorem refl (v : InputVars) : v.Keeps v := ⟨.refl v.tp, rfl, rfl, rfl, rfl, rfl⟩

/-- Only the control block is different. -/
theorem of_tp {tp : Tcpcb} {b : Bool} (h : v.tp.Keeps tp) :
    v.Keeps { v with tp := tp, needoutput := b } := ⟨h, rfl, rfl, rfl, rfl, rfl⟩

theorem trans (h : v.Keeps v') (h' : v'.Keeps v'') : v.Keeps v'' :=
  ⟨h.tp.trans h'.tp, h'.th.trans h.th, h'.thflags.trans h.thflags, h'.tlen.trans h.tlen,
    h'.dropHdrlen.trans h.dropHdrlen, h'.m.trans h.m⟩

theorem trans_passes {x : Except TcpResult InputVars} (h : v.Keeps v') (h' : v'.Passes x) :
    v.Passes x :=
  Outcome.imp h' (fun _ => h.tp.trans_drops) (fun _ => h.trans)

end InputVars.Keeps

section Frame

variable (e : TcpEnv) (v : InputVars)

variable (tp : Tcpcb)

theorem tcpOutput_keeps : tp.Keeps (tcpOutput e tp) := by
  unfold tcpOutput
  split_ifs with h
  · exact .refl tp
  · exact ⟨⟨rfl, rfl, rfl, fun h' => absurd h' h⟩, Or.inl rfl⟩

/-- Output followed by changes to send state and flags. -/
theorem Tcpcb.Keeps.output {a b tp : Tcpcb} (hr : b.toReassCb = (tcpOutput e tp).toReassCb)
    (hw : b.rcvWnd = (tcpOutput e tp).rcvWnd) (ho : b.soOobinline = (tcpOutput e tp).soOobinline)
    (ha : b.rcvAdv = (tcpOutput e tp).rcvAdv)
    (hl : b.lastAckSent = (tcpOutput e tp).lastAckSent) (h : a.Keeps tp) : a.Keeps b :=
  (h.trans (tcpOutput_keeps e tp)).trans (.of_eq hr hw ho ha hl)

theorem checkDelack_keeps : tp.Keeps (checkDelack tp).tp := by
  unfold checkDelack
  dsimp only
  split_ifs
  · exact .of_eq rfl rfl rfl rfl rfl
  · exact .refl tp

theorem dropafterack_keeps : v.tp.Keeps (dropafterack e v).tp := by
  have hack : v.tp.Keeps { v.tp with tfAcknow := true } := .of_eq rfl rfl rfl rfl rfl
  unfold dropafterack
  split_ifs
  · exact .refl v.tp
  · exact hack.trans (tcpOutput_keeps e _)

theorem ccAckReceived_keeps (th : TcpHdr) (type : CcAck) :
    tp.Keeps (ccAckReceived e tp th type) := .of_eq rfl rfl rfl rfl rfl

theorem ackTiming_keeps : v.tp.Keeps (ackTiming e v) := by
  unfold ackTiming
  dsimp only
  split_ifs <;> exact .of_eq rfl rfl rfl rfl rfl

theorem rexmtAfterAck_keeps (una : TcpSeq) : tp.Keeps (rexmtAfterAck tp una) := by
  unfold rexmtAfterAck
  split_ifs <;> exact .of_eq rfl rfl rfl rfl rfl

theorem fastAckSend_keeps (th : TcpHdr) (acked : ℕ) : tp.Keeps (fastAckSend e tp th acked) := by
  unfold fastAckSend
  dsimp only
  refine .trans ?_ (rexmtAfterAck_keeps _ _)
  split_ifs <;> exact .of_eq rfl rfl rfl rfl rfl

theorem fastAck_keeps : v.tp.Keeps (fastAck e v).tp := by
  have htime := ackTiming_keeps e v
  unfold fastAck
  dsimp only
  split_ifs
  · exact htime
  · exact ((htime.trans (fastAckSend_keeps e _ _ _)).trans (tcpOutput_keeps e _)).trans
      (checkDelack_keeps _)
  · exact (htime.trans (fastAckSend_keeps e _ _ _)).trans (checkDelack_keeps _)

theorem synReceivedInput_passes : v.Passes (synReceivedInput v) := by
  unfold synReceivedInput
  split_ifs
  · exact Tcpcb.Keeps.drops (.refl v.tp)
  · exact .refl v

theorem rstClose_drops (err : Errno) : tp.Drops (rstClose tp err) := by
  refine ⟨⟨rfl, rfl, rfl, fun _ => ⟨rfl, rfl⟩⟩, fun h => ?_⟩
  cases h

theorem rstInput_passes : v.Passes (rstInput e v) := by
  have hlive : v.tp.Drops { tp := v.tp } := Tcpcb.Keeps.drops (.refl v.tp)
  have hclosed : v.tp.Drops { tp := v.tp, fate := .closed } := Tcpcb.Keeps.drops (.refl v.tp)
  have hacc : v.tp.Drops (rstAccepted e v) := by
    unfold rstAccepted
    split
    case h_2 =>
      split_ifs
      · exact rstClose_drops v.tp _
      · exact hlive
    case h_6 => exact hclosed
    case h_7 => exact hclosed
    case h_8 => exact hlive
    all_goals exact rstClose_drops v.tp _
  unfold rstInput
  split_ifs
  · exact hacc
  · exact hlive
  · exact .refl v

theorem pawsInput_passes : v.Passes (pawsInput e v) := by
  unfold pawsInput
  split_ifs
  · exact .of_tp (.of_eq rfl rfl rfl rfl rfl)
  · exact (dropafterack_keeps e v).drops
  · exact Tcpcb.Keeps.drops (.refl v.tp)
  · exact .refl v

theorem synReceivedSeq_passes : v.Passes (synReceivedSeq v) := by
  unfold synReceivedSeq
  split_ifs
  · exact Tcpcb.Keeps.drops (.refl v.tp)
  · exact .refl v

theorem afterClose_passes : v.Passes (afterClose v) := by
  unfold afterClose
  split_ifs
  · exact Tcpcb.Keeps.drops (.refl v.tp)
  · exact .refl v

theorem updateTsRecent_keeps : v.Keeps (updateTsRecent e v) := by
  unfold updateTsRecent
  split
  · exact .of_tp (.of_eq rfl rfl rfl rfl rfl)
  · exact .refl v

theorem synInWindow_passes : v.Passes (synInWindow v) := by
  unfold synInWindow
  split_ifs
  · exact rstClose_drops v.tp _
  · exact .refl v

theorem dupAckInflate_keeps : v.tp.Keeps (dupAckInflate e v) := by
  unfold dupAckInflate
  dsimp only
  refine .trans ?_ (tcpOutput_keeps e _)
  exact .of_eq rfl rfl rfl rfl rfl

theorem fastRetransmit_keeps : v.tp.Keeps (fastRetransmit e v) := by
  unfold fastRetransmit
  dsimp only
  split
  · exact .output e rfl rfl rfl rfl rfl (.of_eq rfl rfl rfl rfl rfl)
  · exact .output e rfl rfl rfl rfl rfl (.of_eq rfl rfl rfl rfl rfl)

theorem limitedTransmit_keeps : v.tp.Keeps (limitedTransmit e v) := by
  unfold limitedTransmit
  dsimp only
  exact .output e rfl rfl rfl rfl rfl (.of_eq rfl rfl rfl rfl rfl)

theorem setDupacks_keeps (n : ℕ) : tp.Keeps (tp.setDupacks n) :=
  .of_eq rfl rfl rfl rfl rfl

theorem dupAckInput_passes : v.Passes (dupAckInput e v) := by
  have hset : ∀ (v : InputVars) (n : ℕ), v.Keeps { v with tp := v.tp.setDupacks n } :=
    fun v n => .of_tp (setDupacks_keeps v.tp n)
  have hcounted : ∀ v : InputVars, v.Passes (dupAckCounted e v) := by
    intro v
    unfold dupAckCounted
    split
    · exact (dupAckInflate_keeps e v).drops
    · split
      · split
        · exact hset v 0
        · exact (fastRetransmit_keeps e v).drops
      · split
        · exact (limitedTransmit_keeps e v).drops
        · exact .refl v
  unfold dupAckInput
  split_ifs
  · exact hset v 0
  · exact (hset v _).trans_passes (hcounted _)
  · exact hset v 0

theorem recoveryAck_keeps (th : TcpHdr) : tp.Keeps (recoveryAck e tp th) := by
  have hsack : tp.Keeps (tcpSackPartialack e tp th) := by
    unfold tcpSackPartialack
    dsimp only
    refine .trans ?_ (tcpOutput_keeps e _)
    exact .of_eq rfl rfl rfl rfl rfl
  have hreno : tp.Keeps (tcpNewrenoPartialAck e tp th) := by
    unfold tcpNewrenoPartialAck
    dsimp only
    exact .output e rfl rfl rfl rfl rfl (.of_eq rfl rfl rfl rfl rfl)
  unfold recoveryAck
  split_ifs
  · exact hsack
  · exact hreno
  · exact .of_eq rfl rfl rfl rfl rfl
  · exact .refl tp

theorem needsynAck_keeps : tp.Keeps (needsynAck tp) := by
  unfold needsynAck
  split_ifs <;> exact .of_eq rfl rfl rfl rfl rfl

/-- The acknowledgement of our FIN is the only thing that changes the state. -/
theorem finAcked_passes (b : Bool) : v.Passes (finAcked v b) := by
  unfold finAcked
  split_ifs
  · split
    · rename_i hs
      exact .of_tp ⟨⟨rfl, rfl, rfl, fun _ => ⟨rfl, rfl⟩⟩, Or.inr ⟨hs, rfl⟩⟩
    · exact Tcpcb.Keeps.drops (.refl v.tp)
    · exact Tcpcb.Keeps.drops (.refl v.tp)
    · exact .refl v
  · exact .refl v

theorem dropAcked_keeps (acked : ℕ) : tp.Keeps (dropAcked tp acked).1 :=
  .of_eq rfl rfl rfl rfl rfl

theorem ackPointers_keeps (th : TcpHdr) : tp.Keeps (ackPointers tp th) :=
  .of_eq rfl rfl rfl rfl rfl

theorem processAck_passes : v.Passes (processAck e v) := by
  have htime : v.tp.Keeps (rexmtAfterAck (ackTiming e v) v.th.thAck) :=
    (ackTiming_keeps e v).trans (rexmtAfterAck_keeps _ _)
  unfold processAck
  dsimp only
  split
  · exact .of_tp htime
  · exact InputVars.Keeps.trans_passes
      (.of_tp (htime.trans ((ccAckReceived_keeps e _ _ _).trans
        ((dropAcked_keeps _ _).trans (ackPointers_keeps _ _)))))
      (finAcked_passes _ _)

theorem establishedAck_passes : v.Passes (establishedAck e v) := by
  have hmax : v.tp.Keeps (passiveSndMax v.tp v.th) := by
    unfold passiveSndMax
    split_ifs <;> exact .of_eq rfl rfl rfl rfl rfl
  unfold establishedAck
  dsimp only
  split
  · exact (hmax.trans (dropafterack_keeps e { v with tp := passiveSndMax v.tp v.th })).drops
  · have hsack : v.tp.Keeps (sackAck e (passiveSndMax v.tp v.th) v.opt v.th) := by
      refine hmax.trans ?_
      unfold sackAck
      split_ifs <;> exact .of_eq rfl rfl rfl rfl rfl
    split
    · exact InputVars.Keeps.trans_passes (.of_tp hsack) (dupAckInput_passes e _)
    · refine InputVars.Keeps.trans_passes (.of_tp ?_) (processAck_passes e _)
      exact hsack.trans ((recoveryAck_keeps e _ _).trans
        ((setDupacks_keeps _ 0).trans (needsynAck_keeps _)))

theorem ackInput_passes (hs : v.tp.tState ≠ .synReceived) : v.Passes (ackInput e v) := by
  unfold ackInput
  split
  · split_ifs
    · exact .refl v
    · exact (dropafterack_keeps e v).drops
    · exact Tcpcb.Keeps.drops (.refl v.tp)
  · split
    case h_5 => exact absurd ‹_› hs
    case h_6 => exact establishedAck_passes e v
    all_goals exact .refl v

theorem step6_keeps : v.Keeps (step6 v) := by
  unfold step6
  split
  · exact .of_tp (.of_eq rfl rfl rfl rfl rfl)
  · exact .refl v

end Frame

def InputVars.payload : List Elem := (chainView v.m).drop v.dropHdrlen

theorem InputVars.segment_view : chainView v.segment.m = v.payload :=
  chainView_mAdj_head v.m v.dropHdrlen

structure InputVars.Cuts (v v' : InputVars) : Prop where
  tp : v.tp.Keeps v'.tp
  thFlags : v'.th.thFlags = v.th.thFlags
  syn : v'.thflags.syn = true → v.thflags.syn = true
  urg : v'.thflags.urg = true → v.thflags.urg = true

theorem InputVars.Keeps.cuts {v v' : InputVars} (h : v.Keeps v') : v.Cuts v' :=
  ⟨h.tp, by rw [h.th], by rw [h.thflags]; exact id, by rw [h.thflags]; exact id⟩

theorem InputVars.Cuts.trans {v v' v'' : InputVars} (h : v.Cuts v') (h' : v'.Cuts v'') :
    v.Cuts v'' :=
  ⟨h.tp.trans h'.tp, h'.thFlags.trans h.thFlags, fun hs => h.syn (h'.syn hs),
    fun hu => h.urg (h'.urg hu)⟩

/-- Where the segment with the given data and FIN begins, `d` from `rcv_nxt`,
and that everything is close enough for the signed comparisons. -/
structure InputVars.Near (v : InputVars) (d : ℤ) (data : List Elem) (fin : Bool) : Prop where
  seq : v.th.thSeq = v.tp.rcvNxt + BitVec.ofInt 32 d
  tlen : v.tlen = data.length
  payload : v.payload = data
  fin : v.thflags.fin = fin
  noSyn : v.thflags.syn = false
  lower : -2 ^ 30 ≤ d
  upper : d + data.length ≤ 2 ^ 30
  fits : chainLen v.m ≤ intMax

/-- What is left of the segment seen through a window of `wnd` bytes: nothing,
or what lies between the two edges, and the FIN if it is not cut off. -/
def InputVars.TrimmedTo (d : ℤ) (data : List Elem) (fin : Bool) (wnd : ℕ) : Prop :=
  (v.tlen = 0 ∧ v.thflags.fin = false ∧
    (fin = true → d + data.length < 0 ∨ wnd < d + data.length)) ∨
  ∃ s : ℕ, (s : ℤ) = max d 0 ∧ v.th.thSeq = v.tp.rcvNxt + BitVec.ofNat 32 s ∧
    (s + v.tlen : ℤ) = min (d + data.length) wnd ∧
    v.payload = (data.drop (s - d).toNat).take v.tlen ∧
    v.thflags.fin = (fin && decide (d + data.length ≤ wnd))

theorem trimHeadBy_eq (todrop : ℕ) :
    v.Cuts (trimHeadBy v todrop) ∧
      (trimHeadBy v todrop).th.thSeq = v.th.thSeq + BitVec.ofNat 32 todrop ∧
      (trimHeadBy v todrop).tlen = v.tlen - todrop ∧
      (trimHeadBy v todrop).payload = v.payload.drop todrop ∧
      (trimHeadBy v todrop).thflags.fin = v.thflags.fin := by
  unfold trimHeadBy
  dsimp only
  split_ifs
  · refine ⟨⟨.refl v.tp, rfl, id, id⟩, rfl, rfl, ?_, rfl⟩
    simp [InputVars.payload, List.drop_drop]
  · refine ⟨⟨.refl v.tp, rfl, id, by simp⟩, rfl, rfl, ?_, rfl⟩
    simp [InputVars.payload, List.drop_drop]

section Trim

variable {v : InputVars} {d : ℤ} {data : List Elem} {fin : Bool}

def InputVars.LeftTrimmed (v : InputVars) (d : ℤ) (data : List Elem) (fin : Bool) : Prop :=
  (v.tlen = 0 ∧ v.thflags.fin = false ∧ d + data.length ≤ 0 ∧
    (fin = true → d + data.length < 0) ∧
    v.th.thSeq = v.tp.rcvNxt + BitVec.ofInt 32 (d + data.length)) ∨
  ∃ s : ℕ, (s : ℤ) = max d 0 ∧ v.th.thSeq = v.tp.rcvNxt + BitVec.ofNat 32 s ∧
    (s + v.tlen : ℤ) = d + data.length ∧ v.payload = data.drop (s - d).toNat ∧
    v.thflags.fin = fin

theorem trimLeft_near (h : v.Near d data fin) :
    v.Cuts (trimLeft v) ∧ (trimLeft v).LeftTrimmed d data fin := by
  have hlo := h.lower
  have hhi := h.upper
  have hlen := h.tlen
  have hdrop : (v.tp.rcvNxt - v.th.thSeq).toInt = -d := by
    have := toInt_sub_ofInt (by decide) v.tp.rcvNxt (by norm_num; omega : -2 ^ (32 - 1) ≤ 0 - d)
      (by norm_num; omega)
    rw [h.seq]
    simpa using this
  unfold trimLeft
  simp only [hdrop, h.noSyn, trimSyn, Bool.false_eq_true, if_false]
  split_ifs with hpos hdup
  · -- a complete duplicate
    have hcut' : v.Cuts v.asDuplicate := ⟨.of_eq rfl rfl rfl rfl rfl, rfl, id, id⟩
    have hbefore : fin = true → d + data.length < 0 := by
      rintro rfl
      rw [h.fin] at hdup
      simp only [Bool.true_eq_false, and_false, or_false] at hdup
      omega
    obtain ⟨hcut, hseq, htl, -, hf⟩ := trimHeadBy_eq v.asDuplicate v.tlen
    refine ⟨hcut'.trans hcut,
      Or.inl ⟨by rw [htl]; exact Nat.sub_self _, hf, by omega, hbefore, ?_⟩⟩
    rw [hseq, hcut.tp.reass, BitVec.ofInt_add, BitVec.ofInt_natCast, ← hlen]
    change v.th.thSeq + _ = v.tp.rcvNxt + _
    rw [h.seq]
    ring
  · -- the front has been received before
    obtain ⟨hcut, hseq, htl, hp, hf⟩ := trimHeadBy_eq v (-d).toNat
    refine ⟨hcut, Or.inr ⟨0, by simp; omega, ?_, by rw [htl]; omega, ?_, by rw [hf, h.fin]⟩⟩
    · have hd : BitVec.ofNat 32 (-d).toNat = -BitVec.ofInt 32 d := by
        rw [← BitVec.ofInt_natCast, Int.toNat_of_nonneg (by omega), BitVec.ofInt_neg]
      rw [hseq, hcut.tp.reass, h.seq, hd]
      simp
    · rw [hp, h.payload]
      simp
  · obtain ⟨s, rfl⟩ := Int.eq_ofNat_of_zero_le (by omega : 0 ≤ d)
    refine ⟨⟨.refl v.tp, rfl, id, id⟩, Or.inr ⟨s, by simp, ?_, by omega, ?_, h.fin⟩⟩
    · rw [h.seq, BitVec.ofInt_natCast]
    · rw [h.payload]
      simp

/-- The front of the packet is passed over and not cut off. -/
theorem trimLeft_m (v : InputVars) : (trimLeft v).m = v.m := by
  unfold trimLeft trimHeadBy trimSyn InputVars.asDuplicate
  dsimp only
  split_ifs <;> rfl

/-- Cutting bytes off the end of the packet cuts them off its data. -/
theorem payload_cut (v : InputVars) (k : ℕ) (hk : 0 < k) (hle : k ≤ v.payload.length)
    (hfits : chainLen v.m ≤ intMax) :
    (chainView (mAdj v.m (-k))).drop v.dropHdrlen = v.payload.take (v.payload.length - k) := by
  have hlen : v.payload.length = chainLen v.m - v.dropHdrlen := by
    rw [InputVars.payload, List.length_drop, chainView_length]
  rw [chainView_mAdj_tail v.m k hfits (by omega) hk, List.drop_take, hlen]
  congr 1
  omega

/-- How far the segment reaches beyond the window. -/
theorem trimRight_todrop {s : ℕ} (hseq : v.th.thSeq = v.tp.rcvNxt + BitVec.ofNat 32 s)
    (hs : s + v.tlen ≤ 2 ^ 30) (hw : v.tp.rcvWnd ≤ 2 ^ 30) :
    (v.th.thSeq + BitVec.ofNat 32 v.tlen -
      (v.tp.rcvNxt + BitVec.ofNat 32 v.tp.rcvWnd)).toInt = (s + v.tlen : ℤ) - v.tp.rcvWnd := by
  have := toInt_sub_ofInt (by decide) v.tp.rcvNxt
    (by norm_num; omega : -2 ^ (32 - 1) ≤ ((s + v.tlen : ℕ) : ℤ) - v.tp.rcvWnd)
    (by norm_num; omega)
  rw [BitVec.ofInt_natCast, BitVec.ofInt_natCast, BitVec.ofNat_add] at this
  rw [hseq, add_assoc, this]
  push_cast
  ring

theorem trimRight_near (h : v.LeftTrimmed d data fin) (hhi : d + data.length ≤ 2 ^ 30)
    (hlo : -2 ^ 30 ≤ d) (hw : v.tp.rcvWnd ≤ 2 ^ 30) (hfits : chainLen v.m ≤ intMax) :
    Outcome v.tp.Drops (fun v' => v.Cuts v' ∧ v'.TrimmedTo d data fin v.tp.rcvWnd)
      (trimRight e v) := by
  rcases h with ⟨ht, hf, hle, hbefore, hseq⟩ | ⟨s, hs, hseq, hend, hp, hf⟩
  · have htodrop : (v.th.thSeq + BitVec.ofNat 32 v.tlen -
        (v.tp.rcvNxt + BitVec.ofNat 32 v.tp.rcvWnd)).toInt =
          d + data.length - v.tp.rcvWnd := by
      have := toInt_sub_ofInt (by decide) v.tp.rcvNxt
        (by norm_num; omega : -2 ^ (32 - 1) ≤ d + data.length - v.tp.rcvWnd)
        (by norm_num; omega)
      rw [BitVec.ofInt_natCast] at this
      rw [hseq, ht, this.symm]
      simp
    unfold trimRight
    simp only [htodrop]
    rw [if_neg (by omega)]
    exact ⟨(InputVars.Keeps.refl v).cuts, Or.inl ⟨ht, hf, fun h => Or.inl (hbefore h)⟩⟩
  · have hplen : v.payload.length = v.tlen := by
      rw [hp, List.length_drop]
      omega
    have hlen : v.tlen ≤ data.length := by omega
    unfold trimRight
    simp only [trimRight_todrop hseq (by omega) hw]
    split_ifs with hpos hdrop hall
    · exact (dropafterack_keeps e v).drops
    · -- a probe of the closed window
      refine ⟨⟨.of_eq rfl rfl rfl rfl rfl, rfl, id, id⟩, Or.inl ⟨?_, rfl, fun _ => Or.inr ?_⟩⟩
      · dsimp only
        omega
      · omega
    · obtain ⟨k, hk⟩ := Int.eq_ofNat_of_zero_le hpos.le
      refine ⟨⟨.refl v.tp, rfl, id, id⟩, Or.inr ⟨s, hs, hseq, ?_, ?_, ?_⟩⟩
      · dsimp only
        omega
      · have hcut := payload_cut v k (by omega) (by omega) hfits
        rw [hplen, hp] at hcut
        rw [hk]
        exact hcut
      · simp only [Bool.false_eq, Bool.and_eq_false_iff, decide_eq_false_iff_not]
        exact Or.inr (by omega)
    · refine ⟨(InputVars.Keeps.refl v).cuts, Or.inr ⟨s, hs, hseq, by omega, ?_, ?_⟩⟩
      · rw [hp, List.take_of_length_le]
        rw [← hp, hplen]
      · rw [hf, decide_eq_true (by omega), Bool.and_true]

end Trim

structure Tcpcb.SameRecvAll (a b : Tcpcb) : Prop where
  reass : b.toReassCb = a.toReassCb
  rcvWnd : b.rcvWnd = a.rcvWnd
  rcvAdv : b.rcvAdv = a.rcvAdv
  lastAckSent : b.lastAckSent = a.lastAckSent
  oobinline : b.soOobinline = a.soOobinline

theorem ecnInput_sameRecvAll (tp : Tcpcb) (p : TcpPkt) : tp.SameRecvAll (ecnInput e tp p) := by
  unfold ecnInput
  dsimp only
  split_ifs <;> exact ⟨rfl, rfl, rfl, rfl, rfl⟩

theorem predictedTs_sameRecvAll : v.tp.SameRecvAll (predictedTs e v) := by
  unfold predictedTs
  split_ifs <;> exact ⟨rfl, rfl, rfl, rfl, rfl⟩

theorem Tcpcb.SameRecvAll.keeps {a b : Tcpcb} (h : a.SameRecvAll b) : a.Keeps b :=
  .of_eq h.reass h.rcvWnd h.oobinline h.rcvAdv h.lastAckSent

theorem Tcpcb.SameRecvAll.window {a b : Tcpcb} (h : a.SameRecvAll b) : b.window = a.window := by
  rw [Tcpcb.window, Tcpcb.window, h.reass, h.rcvAdv]

/-- The buffer before data is appended to it on the fast path: as it was, or
enlarged by the automatic sizing. -/
def Sockbuf.Resized (sb sb' : Sockbuf) : Prop :=
  sb' = sb ∨ sb.sbHiwat.toNat < e.tcpAutorcvbufMax ∧ ∃ mbmax lowat,
    sb' = { sb with
      sbHiwat := BitVec.ofNat 32
        (min ((sb.sbHiwat.toNat + e.tcpAutorcvbufInc) % 2 ^ 32) e.tcpAutorcvbufMax)
      sbMbmax := mbmax
      sbLowat := lowat }

theorem Tcpcb.SameRecvAll.trans {a b c : Tcpcb} (h : a.SameRecvAll b) (h' : b.SameRecvAll c) :
    a.SameRecvAll c :=
  ⟨h'.reass.trans h.reass, h'.rcvWnd.trans h.rcvWnd, h'.rcvAdv.trans h.rcvAdv,
    h'.lastAckSent.trans h.lastAckSent, h'.oobinline.trans h.oobinline⟩

theorem autosize_spec (tp : Tcpcb) :
    tp.SameRecvAll (autosize e v tp).1 ∧ ((autosize e v tp).2 = 0 ∨
      tp.soRcv.sbHiwat.toNat < e.tcpAutorcvbufMax ∧ (autosize e v tp).2 =
        min ((tp.soRcv.sbHiwat.toNat + e.tcpAutorcvbufInc) % 2 ^ 32) e.tcpAutorcvbufMax) := by
  unfold autosize
  dsimp only
  split_ifs with _ _ hgrow
  · exact ⟨⟨rfl, rfl, rfl, rfl, rfl⟩, Or.inr ⟨hgrow.2, rfl⟩⟩
  all_goals exact ⟨⟨rfl, rfl, rfl, rfl, rfl⟩, Or.inl rfl⟩

theorem reserveNewsize_spec (tp : Tcpcb) (newsize : ℕ) :
    ∃ sb, Tcpcb.SameRecvAll { tp with soRcv := sb } (reserveNewsize e tp newsize) ∧
      (sb = tp.soRcv ∨ newsize ≠ 0 ∧ ∃ mbmax lowat, sb = { tp.soRcv with
        sbHiwat := BitVec.ofNat 32 newsize, sbMbmax := mbmax, sbLowat := lowat }) := by
  unfold reserveNewsize
  split_ifs with hz
  · exact ⟨tp.soRcv, ⟨rfl, rfl, rfl, rfl, rfl⟩, Or.inl rfl⟩
  · cases hsb : sbreserveLocked e tp.soRcv newsize with
    | none => exact ⟨tp.soRcv, ⟨rfl, rfl, rfl, rfl, rfl⟩, Or.inl rfl⟩
    | some sb =>
      refine ⟨sb, ⟨rfl, rfl, rfl, rfl, rfl⟩, Or.inr ⟨hz, ?_⟩⟩
      unfold sbreserveLocked at hsb
      split_ifs at hsb
      exact ⟨_, _, (Option.some.inj hsb).symm⟩

theorem fastDataReserve_spec :
    ∃ sb, v.tp.soRcv.Resized e sb ∧
      Tcpcb.SameRecvAll { v.tp with soRcv := sb } (fastDataReserve e v) := by
  unfold fastDataReserve
  dsimp only
  generalize htp : (if v.tp.tfSackPermit && v.tp.ctl.rcvNumsacks != 0 then
    { v.tp with ctl := { v.tp.ctl with rcvNumsacks := 0 } } else v.tp) = tp
  have hsack : v.tp.SameRecvAll tp := by
    rw [← htp]
    split_ifs <;> exact ⟨rfl, rfl, rfl, rfl, rfl⟩
  obtain ⟨hauto, hsize⟩ := autosize_spec e v tp
  have hsame : v.tp.SameRecvAll (autosize e v tp).1 := hsack.trans hauto
  have hrcv : (autosize e v tp).1.soRcv = v.tp.soRcv := by rw [hsame.reass]
  split_ifs
  · exact ⟨v.tp.soRcv, Or.inl rfl, hsame⟩
  · obtain ⟨sb, hres, hsb⟩ := reserveNewsize_spec e (autosize e v tp).1 (autosize e v tp).2
    rw [hrcv] at hsb
    refine ⟨sb, ?_, ⟨?_, hres.rcvWnd.trans hsame.rcvWnd, hres.rcvAdv.trans hsame.rcvAdv,
      hres.lastAckSent.trans hsame.lastAckSent, hres.oobinline.trans hsame.oobinline⟩⟩
    · obtain rfl | ⟨hnz, mbmax, lowat, hsb⟩ := hsb
      · exact Or.inl rfl
      · obtain h0 | ⟨hlt, hnew⟩ := hsize
        · exact absurd h0 hnz
        · rw [hsack.reass] at hlt hnew
          exact Or.inr ⟨hlt, mbmax, lowat, by rw [hsb, hnew]⟩
    · rw [hres.reass]
      dsimp only
      rw [hsame.reass]

def Tcpcb.setReass (tp : Tcpcb) (rcv : ReassCb) : Tcpcb := { tp with toReassCb := rcv }

def Tcpcb.appended (tp : Tcpcb) (sb : Sockbuf) (th : Segment) : Tcpcb :=
  tp.setReass (acceptInOrder { tp.toReassCb with soRcv := sb } th)

theorem Tcpcb.SameRecvAll.appended {a b : Tcpcb} (h : a.SameRecvAll b) (sb : Sockbuf)
    (th : Segment) : (a.appended sb th).Keeps (b.appended sb th) := by
  refine .of_eq ?_ h.rcvWnd h.oobinline h.rcvAdv h.lastAckSent
  rw [Tcpcb.appended, Tcpcb.appended, h.reass]
  rfl

/-- The call has taken the segment as the next one of the stream. -/
structure Tcpcb.AcceptsFast (tp : Tcpcb) (e : TcpEnv) (th : Segment) (r : TcpResult) : Prop where
  established : tp.tState = .established
  seq : th.thSeq = tp.rcvNxt
  queue : tp.tSegq = []
  noFin : th.thFin = false
  fits : (th.tlen : ℤ) ≤ tp.soRcv.sbspace
  live : r.fate = .live
  result : ∃ sb, tp.soRcv.Resized e sb ∧ (tp.appended sb th).Keeps r.tp

theorem Tcpcb.SameRecvAll.acceptsFast {a b : Tcpcb} (h : a.SameRecvAll b) {e : TcpEnv}
    {th : Segment} {r : TcpResult} (hf : b.AcceptsFast e th r) : a.AcceptsFast e th r := by
  obtain ⟨hest, hseq, hq, hfin, hfit, hlive, sb, hsb, hres⟩ := hf
  rw [h.reass] at hest hseq hq hfit hsb
  exact ⟨hest, hseq, hq, hfin, hfit, hlive, sb, hsb, (h.appended sb th).trans hres⟩

theorem fastData_result : ∃ sb, v.tp.soRcv.Resized e sb ∧
    (v.tp.appended sb v.segment).Keeps (fastData e v).tp := by
  obtain ⟨sb, hsb, hres⟩ := fastDataReserve_spec e v
  have happ : acceptInOrder (fastDataReserve e v).toReassCb v.segment =
      (v.tp.appended sb v.segment).toReassCb := by
    rw [hres.reass]
    rfl
  refine ⟨sb, hsb, ?_⟩
  unfold fastData
  dsimp only
  refine .trans ?_ (checkDelack_keeps _)
  split_ifs
  · exact .of_eq happ hres.rcvWnd hres.oobinline hres.rcvAdv hres.lastAckSent
  · refine .output e rfl rfl rfl rfl rfl ?_
    exact .of_eq happ hres.rcvWnd hres.oobinline hres.rcvAdv hres.lastAckSent

/-- What prediction says of the receive side. -/
theorem predicted_inOrder {v : InputVars} (h : predicted v = true) :
    v.tp.tState = .established ∧ v.th.thSeq = v.tp.rcvNxt ∧ v.tp.tSegq = [] ∧
      v.thflags.fin = false := by
  simp only [predicted, Bool.and_eq_true, decide_eq_true_eq, beq_iff_eq, Bool.not_eq_true',
    List.isEmpty_iff] at h
  tauto

theorem headerPrediction_spec (hfl : v.thflags = v.th.thFlags) :
    Outcome (fun r => v.tp.Drops r ∨ v.tp.AcceptsFast e v.segment r)
      (fun v' => v.Keeps v' ∧ v.tp.SameRecvAll v'.tp) (headerPrediction e v) := by
  have hts := predictedTs_sameRecvAll e v
  have hkeep : v.Keeps { v with tp := predictedTs e v } := .of_tp hts.keeps
  unfold headerPrediction
  dsimp only
  split_ifs with hpred _ hack hfit
  · exact Or.inl (hts.keeps.trans (fastAck_keeps e { v with tp := predictedTs e v })).drops
  · exact ⟨hkeep, hts⟩
  · obtain ⟨hest, hseq, hqueue, hfin⟩ := predicted_inOrder hpred
    refine Or.inr (hts.acceptsFast ⟨?_, ?_, ?_, ?_, hfit.2, rfl,
      fastData_result e { v with tp := predictedTs e v }⟩)
    · rw [hts.reass]
      exact hest
    · rw [hts.reass]
      exact hseq
    · rw [hts.reass]
      exact hqueue
    · rw [hfl] at hfin
      exact hfin
  · exact ⟨hkeep, hts⟩
  · exact ⟨.refl v, ⟨rfl, rfl, rfl, rfl, rfl⟩⟩

/-- Urgent data that stays in line does not change the segment. -/
theorem urgInput_spec (hin : v.thflags.urg = true → v.tp.soOobinline = true) :
    Outcome v.tp.Drops (fun v' => v.tp.Keeps v'.tp ∧ v'.th.thFlags = v.th.thFlags ∧
      v'.th.thSeq = v.th.thSeq ∧ v'.tlen = v.tlen ∧ v'.payload = v.payload ∧
      v'.thflags.fin = v.thflags.fin) (urgInput e v) := by
  have hup : v.tp.Keeps (advanceRcvUp v.tp v.th) := by
    unfold advanceRcvUp
    dsimp only
    split_ifs
    · exact ⟨⟨rfl, rfl, rfl, fun _ => ⟨rfl, rfl⟩⟩, Or.inl rfl⟩
    · exact .refl v.tp
  unfold urgInput
  dsimp only
  split_ifs with hurg _ hpull
  · exact ⟨.refl v.tp, rfl, rfl, rfl, rfl, rfl⟩
  · simp only [Bool.and_eq_true] at hurg
    have h := hin hurg.1.1
    rw [← hup.oobinline, hpull.2] at h
    cases h
  · exact ⟨hup, rfl, rfl, rfl, rfl, rfl⟩
  · exact ⟨.of_eq rfl rfl rfl rfl rfl, rfl, rfl, rfl, rfl, rfl⟩
  · exact ⟨.refl v.tp, rfl, rfl, rfl, rfl, rfl⟩

def Tcpcb.setWnd (tp : Tcpcb) (w : ℕ) : Tcpcb := { tp with rcvWnd := w }

/-- A packet with data of the announced length that lies `d` from `rcv_nxt`,
close enough for the signed comparisons. -/
structure TcpPkt.Near (p : TcpPkt) (tp : Tcpcb) (d : ℤ) : Prop where
  seq : p.th.thSeq = tp.rcvNxt + BitVec.ofInt 32 d
  len : chainLen p.m = p.dropHdrlen + p.tlen
  lower : -2 ^ 30 ≤ d
  upper : d + p.tlen ≤ 2 ^ 30
  wnd : tp.window ≤ 2 ^ 30
  noSyn : p.th.thFlags.syn = false
  inline : p.th.thFlags.urg = true → tp.soOobinline = true

def TcpPkt.data (p : TcpPkt) : List Elem := (chainView p.m).drop p.dropHdrlen

variable {tp : Tcpcb}

theorem TcpPkt.Near.data_length {p : TcpPkt} {d : ℤ} (h : p.Near tp d) :
    p.data.length = p.tlen := by
  rw [TcpPkt.data, List.length_drop, chainView_length, h.len]
  omega

/-- The variables when `dodata` is reached: the segment is trimmed to the
window, and nothing has been received yet. -/
structure InputVars.Reached (v : InputVars) (tp : Tcpcb) (p : TcpPkt) (d : ℤ) : Prop where
  keeps : (tp.setWnd tp.window).Keeps v.tp
  thFlags : v.th.thFlags = p.th.thFlags
  trimmed : v.TrimmedTo d p.data p.th.thFlags.fin tp.window

section Congr

variable {v v' : InputVars} {d : ℤ} {data : List Elem} {fin : Bool}

theorem Tcpcb.SameRecv.rcvNxt {a b : Tcpcb} (h : a.SameRecv b) : b.rcvNxt = a.rcvNxt := by
  rw [h.reass]

theorem InputVars.Keeps.payload (h : v.Keeps v') : v'.payload = v.payload := by
  rw [InputVars.payload, InputVars.payload, h.m, h.dropHdrlen]

theorem InputVars.Keeps.near (h : v.Keeps v') (hn : v.Near d data fin) : v'.Near d data fin :=
  ⟨by rw [h.th, h.tp.rcvNxt, hn.seq], h.tlen.trans hn.tlen, h.payload.trans hn.payload,
    by rw [h.thflags, hn.fin], by rw [h.thflags, hn.noSyn], hn.lower, hn.upper,
    by rw [h.m]; exact hn.fits⟩

theorem InputVars.Keeps.leftTrimmed (h : v.Keeps v') (ht : v.LeftTrimmed d data fin) :
    v'.LeftTrimmed d data fin := by
  rw [InputVars.LeftTrimmed, h.tlen, h.thflags, h.th, h.tp.rcvNxt, h.payload]
  exact ht

theorem InputVars.TrimmedTo.congr {wnd : ℕ} (ht : v.TrimmedTo d data fin wnd)
    (hnxt : v'.tp.rcvNxt = v.tp.rcvNxt) (hseq : v'.th.thSeq = v.th.thSeq)
    (hlen : v'.tlen = v.tlen) (hp : v'.payload = v.payload)
    (hf : v'.thflags.fin = v.thflags.fin) : v'.TrimmedTo d data fin wnd := by
  rw [InputVars.TrimmedTo, hlen, hf, hseq, hnxt, hp]
  exact ht

theorem StateKept.haveEstablished {a b : TcpState} (h : StateKept a b)
    (ha : a.haveEstablished = true) : b.haveEstablished = true := by
  rcases h with rfl | ⟨-, rfl⟩
  · exact ha
  · rfl

end Congr

theorem inputOtherwise_spec {v : InputVars} {d : ℤ} {data : List Elem} {fin : Bool}
    (hs : v.tp.tState.haveEstablished = true) (h : v.Near d data fin) (hw : v.tp.rcvWnd ≤ 2 ^ 30)
    (hin : v.thflags.urg = true → v.tp.soOobinline = true) :
    Outcome v.tp.Drops (fun v' => v.tp.Keeps v'.tp ∧ v'.th.thFlags = v.th.thFlags ∧
      v'.TrimmedTo d data fin v.tp.rcvWnd) (inputOtherwise e v) := by
  unfold inputOtherwise
  -- the checks in front of the trimming
  refine Outcome.bind (synReceivedInput_passes v) fun v₁ h₁ => ?_
  refine Outcome.bind (h₁.trans_passes (rstInput_passes e v₁)) fun v₂ h₂ => ?_
  refine Outcome.bind (h₂.trans_passes (pawsInput_passes e v₂)) fun v₃ h₃ => ?_
  refine Outcome.bind (h₃.trans_passes (synReceivedSeq_passes v₃)) fun v₄ h₄ => ?_
  -- the trimming
  obtain ⟨hcut, hleft⟩ := trimLeft_near (h₄.near h)
  have hcut' : v.Cuts (trimLeft v₄) := h₄.cuts.trans hcut
  have hclose : Outcome v.tp.Drops
      (fun v' => v.Cuts v' ∧ v'.LeftTrimmed d data fin ∧ v'.m = v.m) (afterClose (trimLeft v₄)) :=
    (afterClose_passes _).imp (fun _ => hcut'.tp.trans_drops)
      (fun _ h₅ => ⟨hcut'.trans h₅.cuts, h₅.leftTrimmed hleft,
        h₅.m.trans ((trimLeft_m v₄).trans h₄.m)⟩)
  refine Outcome.bind hclose fun v₅ ⟨hcut₅, hleft₅, hm₅⟩ => ?_
  have hright : Outcome v.tp.Drops (fun v' => v.Cuts v' ∧ v'.TrimmedTo d data fin v.tp.rcvWnd)
      (trimRight e v₅) := by
    have := trimRight_near e hleft₅ h.upper h.lower (hcut₅.tp.rcvWnd ▸ hw) (hm₅ ▸ h.fits)
    rw [hcut₅.tp.rcvWnd] at this
    exact this.imp (fun _ => hcut₅.tp.trans_drops) (fun _ h₆ => ⟨hcut₅.trans h₆.1, h₆.2⟩)
  refine Outcome.bind hright fun v₆ ⟨hcut₆, htrim⟩ => ?_
  -- the rest leaves the segment alone
  have hsyn : v₆.Passes (synInWindow (updateTsRecent e v₆)) :=
    (updateTsRecent_keeps e v₆).trans_passes (synInWindow_passes _)
  refine Outcome.bind (hsyn.imp (fun _ => hcut₆.tp.trans_drops) fun _ => id) fun v₇ h₇ => ?_
  have hstate : v₇.tp.tState ≠ .synReceived := by
    intro hc
    have := (hcut₆.tp.trans h₇.tp).state.haveEstablished hs
    rw [hc] at this
    cases this
  refine Outcome.bind ((h₇.trans_passes (ackInput_passes e v₇ hstate)).imp
    (fun _ => hcut₆.tp.trans_drops) fun _ => id) fun v₈ h₈ => ?_
  have h₉ := h₈.trans (step6_keeps v₈)
  have hcut₉ : v.Cuts (step6 v₈) := hcut₆.trans h₉.cuts
  refine (urgInput_spec e (step6 v₈) ?_).imp (fun _ => hcut₉.tp.trans_drops) ?_
  · intro hu
    rw [hcut₉.tp.oobinline]
    exact hin (hcut₉.urg hu)
  · intro v' ⟨hk, hfl, hseq, hlen, hp, hf⟩
    refine ⟨hcut₉.tp.trans hk, hfl.trans hcut₉.thFlags, htrim.congr ?_ ?_ ?_ ?_ ?_⟩
    · rw [hk.rcvNxt, h₉.tp.rcvNxt]
    · rw [hseq, h₉.th]
    · rw [hlen, h₉.tlen]
    · rw [hp, h₉.payload]
    · rw [hf, h₉.thflags]

def TcpPkt.segment (p : TcpPkt) : Segment :=
  ⟨p.th.thSeq, p.th.thFlags.fin, p.tlen, mAdj p.m p.dropHdrlen⟩

theorem TcpState.ne_synSent {s : TcpState} (h : s.haveEstablished = true) : s ≠ .synSent := by
  rintro rfl
  cases h

theorem inputEntry_tp (p : TcpPkt) (hs : tp.tState.haveEstablished = true) :
    (inputEntry e tp p).tp = ecnInput e tp p := by
  have hne : (ecnInput e tp p).tState ≠ .synSent := by
    rw [(ecnInput_sameRecvAll e tp p).reass]
    exact TcpState.ne_synSent hs
  simp [inputEntry, hne]

section

variable {p : TcpPkt} {d : ℤ} (hs : tp.tState.haveEstablished = true) (hp : p.Near tp d)
include hs hp

theorem toDodata_spec :
    Outcome (fun r => (∃ w, (tp.setWnd w).Drops r) ∨
      tp.AcceptsFast e p.segment r) (fun v => v.Reached tp p d) (toDodata e tp p) := by
  have hent : tp.SameRecvAll (inputEntry e tp p).tp := by
    rw [inputEntry_tp e p hs]
    exact ecnInput_sameRecvAll e tp p
  have hpred := headerPrediction_spec e (inputEntry e tp p) rfl
  refine Outcome.bind (hpred.imp ?_ fun _ => id) fun v ⟨hk, hv⟩ => ?_
  · rintro r (hr | hr)
    · exact Or.inl ⟨tp.rcvWnd, hent.keeps.trans_drops hr⟩
    · exact Or.inr (hent.acceptsFast hr)
  · have hall := hent.trans hv
    have hst : v.tp.tState.haveEstablished = true := by
      rw [hall.reass]
      exact hs
    have hset : (tp.setWnd tp.window).Keeps (setRcvWnd v).tp :=
      .of_eq hall.reass hall.window hall.oobinline hall.rcvAdv hall.lastAckSent
    have hnear : (setRcvWnd v).Near d p.data p.th.thFlags.fin := by
      refine ⟨?_, ?_, hk.payload, ?_, ?_, hp.lower, ?_, ?_⟩
      · change v.th.thSeq = v.tp.rcvNxt + _
        rw [hk.th, hall.reass]
        exact hp.seq
      · rw [hp.data_length]
        exact hk.tlen
      · change v.thflags.fin = _
        rw [hk.thflags]
        rfl
      · change v.thflags.syn = _
        rw [hk.thflags]
        exact hp.noSyn
      · rw [hp.data_length]
        exact hp.upper
      · change chainLen v.m ≤ intMax
        rw [hk.m]
        exact p.fits
    have hst' : (setRcvWnd v).tp.tState.haveEstablished = true := hst
    have hspec := inputOtherwise_spec e hst' hnear (by rw [hset.rcvWnd]; exact hp.wnd) (by
      intro hu
      rw [hset.oobinline]
      apply hp.inline
      change v.thflags.urg = true at hu
      rwa [hk.thflags] at hu)
    rw [inputWindow, if_neg (TcpState.ne_synSent hst)]
    refine hspec.imp (fun r hr => Or.inl ⟨_, hset.trans_drops hr⟩) ?_
    intro v' ⟨hk', hfl, htrim⟩
    rw [hset.rcvWnd] at htrim
    refine ⟨hset.trans hk', ?_, htrim⟩
    rw [hfl]
    change v.th.thFlags = _
    rw [hk.th]
    rfl

/-- Everything a call can do to the receive side of a connection that has been
established: leave it alone, take the segment on the fast path, or reach
`dodata` with what is left of the segment. -/
theorem tcpDoSegment_cases :
    (toDodata e tp p = .error (tcpDoSegment e tp p) ∧
      ((∃ w, (tp.setWnd w).Drops (tcpDoSegment e tp p)) ∨
        tp.AcceptsFast e p.segment (tcpDoSegment e tp p))) ∨
    ∃ v, toDodata e tp p = .ok v ∧ v.Reached tp p d ∧ tcpDoSegment e tp p = finishInput e v := by
  have h := toDodata_spec e hs hp
  unfold tcpDoSegment
  cases hd : toDodata e tp p with
  | error r =>
    rw [hd] at h
    exact Or.inl ⟨rfl, h⟩
  | ok v =>
    rw [hd] at h
    exact Or.inr ⟨v, rfl, h, rfl⟩

end

def InputVars.received (e : TcpEnv) : ReassCb × Bool :=
  if v.hasData then
    if v.inOrder then (acceptInOrder v.tp.toReassCb v.segment, v.segment.thFin)
    else
      let r := tcpReass v.tp.toReassCb e.ticks e.umaZalloc (some v.segment)
      (r.1, r.2.1)
  else (v.tp.toReassCb, false)

theorem dodata_spec :
    (v.tp.setReass (v.received e).1).SameRecvAll (dodata e v).1 ∧
      (dodata e v).2 = (v.received e).2 := by
  by_cases hd : v.hasData = true
  · have hseg : (v.tp.setReass (v.received e).1).SameRecvAll (dodataSegment e v).1 ∧
        (dodataSegment e v).2.1 = (v.received e).2 := by
      simp only [InputVars.received, dodataSegment, if_pos hd]
      split_ifs <;> exact ⟨⟨rfl, rfl, rfl, rfl, rfl⟩, rfl⟩
    simp only [dodata, if_pos hd]
    refine ⟨hseg.1.trans ?_, hseg.2⟩
    split_ifs <;> exact ⟨rfl, rfl, rfl, rfl, rfl⟩
  · rw [dodata, InputVars.received, if_neg hd, if_neg hd]
    exact ⟨⟨rfl, rfl, rfl, rfl, rfl⟩, rfl⟩

theorem finReceived_spec (tp : Tcpcb) (hs : tp.tState ≠ .timeWait) :
    (tp.setReass tp.toReassCb.actOnFin).SameRecvAll (finReceived tp).tp := by
  have hfin : tp.tState.haveRcvdFin = false := by simp [TcpState.haveRcvdFin, hs]
  have hflags : (tp.setReass { tp.toReassCb.socantrcvmore with
      rcvNxt := tp.rcvNxt + 1 }).SameRecvAll (finFlags tp) := by
    unfold finFlags
    simp only [hfin, Bool.false_eq_true, if_false]
    split_ifs <;> exact ⟨rfl, rfl, rfl, rfl, rfl⟩
  have hact : ∀ s, finHoleState tp.tState = s →
      (tp.setReass tp.toReassCb.actOnFin).SameRecvAll ((finFlags tp).setState s) := by
    rintro s rfl
    refine { hflags with reass := ?_ }
    change { (finFlags tp).toReassCb with tState := finHoleState tp.tState } = _
    rw [hflags.reass]
    rfl
  have hstay : finHoleState tp.tState = tp.tState →
      (tp.setReass tp.toReassCb.actOnFin).SameRecvAll (finFlags tp) := by
    intro h
    have hst : (finFlags tp).tState = tp.tState := by
      rw [hflags.reass]
      rfl
    have := hact _ h
    rw [← hst] at this
    exact this
  unfold finReceived
  split
  all_goals rename_i h
  · exact hact _ (by rw [h]; rfl)
  · exact hact _ (by rw [h]; rfl)
  · exact hact _ (by rw [h]; rfl)
  · exact hstay (by rw [h]; rfl)
  · refine hstay ?_
    cases ht : tp.tState <;> first | rfl | simp_all

def InputVars.outcome (e : TcpEnv) : ReassCb :=
  if (v.received e).2 then (v.received e).1.actOnFin else (v.received e).1

theorem dataAndFin_spec (hs : (v.received e).1.tState ≠ .timeWait) :
    (v.tp.setReass (v.outcome e)).SameRecvAll (dataAndFin e v).tp := by
  obtain ⟨hdata, hfin⟩ := dodata_spec e v
  unfold dataAndFin InputVars.outcome
  dsimp only
  rw [hfin]
  split_ifs
  · have hst : (dodata e v).1.tState ≠ .timeWait := by
      rw [hdata.reass]
      exact hs
    have hf := finReceived_spec _ hst
    refine ⟨?_, hf.rcvWnd.trans hdata.rcvWnd, hf.rcvAdv.trans hdata.rcvAdv,
      hf.lastAckSent.trans hdata.lastAckSent, hf.oobinline.trans hdata.oobinline⟩
    rw [hf.reass, hdata.reass]
    rfl
  · exact hdata

theorem finishInput_spec (hs : (v.received e).1.tState ≠ .timeWait) :
    (v.tp.setReass (v.outcome e)).Keeps (finishInput e v).tp := by
  have hfin := dataAndFin_spec e v hs
  unfold finishInput inputExit
  dsimp only
  split_ifs
  · exact (hfin.keeps.trans (tcpOutput_keeps e _)).trans (checkDelack_keeps _)
  · exact hfin.keeps.trans (checkDelack_keeps _)
  · exact hfin.keeps

end Libuinet
