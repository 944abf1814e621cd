import Libuinet.TcpPassive

namespace Libuinet

open Execution SerialArith

/-- A passive connection whose pointers are at `una`, `nxt` and `max`, with nothing to send and no
timer running. -/
structure Tcpcb.At (tp : Tcpcb) (una nxt max : TcpSeq) : Prop where
  inpPassive : tp.inpPassive = true
  view : tp.sndView = ((una, nxt, max), 0, false)
  timers : tp.ctl.timers = (false, false)

/-- The two tests against one number differ at the number half the sequence space away only. -/
theorem seqLeq_eq_false_of_seqLt {a b : TcpSeq} (h : seqLt a b = true)
    (hne : b ≠ a + 0x80000000) : seqLeq b a = false := by
  have hmin : b - a ≠ BitVec.intMin 32 := fun heq => hne (sub_eq_iff_eq_add'.mp heq)
  rw [seqLt, decide_eq_true_eq, ← neg_sub b a, BitVec.toInt_neg_of_ne_intMin hmin] at h
  rw [seqLeq, decide_eq_false_iff_not]
  omega

theorem seqGt_of_not_seqLeq {a b : TcpSeq} (h : ¬ seqLeq a b = true) : seqGt a b = true := by
  rw [seqLeq, decide_eq_true_eq, not_le] at h
  rwa [seqGt, decide_eq_true_eq]

section At

variable {tp tp' : Tcpcb} {una nxt max ack : TcpSeq}

theorem Tcpcb.SameSend.at {kept : Prop} (h : tp.SameSend kept tp') (hk : kept)
    (hat : tp.At una nxt max) : tp'.At una nxt max :=
  ⟨h.inpPassive.trans hat.inpPassive, (h.view hat.inpPassive).trans hat.view,
    (h.timers hk hat.inpPassive).trans hat.timers⟩

section

variable (h : tp.At una nxt max)
include h

theorem Tcpcb.At.sndUna : tp.sndUna = una := congrArg (·.1.1) h.view

theorem Tcpcb.At.sndNxt : tp.sndNxt = nxt := congrArg (·.1.2.1) h.view

theorem Tcpcb.At.sndMax : tp.sndMax = max := congrArg (·.1.2.2) h.view

theorem Tcpcb.At.soSndCc : tp.soSndCc = 0 := congrArg (·.2.1) h.view

theorem Tcpcb.At.tfNeedsyn : tp.tfNeedsyn = false :=
  congrArg (·.2.2) h.view

end

theorem Tcpcb.At.mk' (hp : tp.inpPassive = true) (hu : tp.sndUna = una) (hn : tp.sndNxt = nxt)
    (hm : tp.sndMax = max) (hc : tp.soSndCc = 0) (ht : tp.ctl.timers = (false, false))
    (hs : tp.tfNeedsyn = false) : tp.At una nxt max := by
  refine ⟨hp, ?_, ht⟩
  rw [sndView, hu, hn, hm, hc, hs]

theorem Tcpcb.At.setCtl {c : SndCtl} (h : tp.At una nxt max) (hc : c.timers = tp.ctl.timers) :
    { tp with ctl := c }.At una nxt max :=
  .mk' h.inpPassive h.sndUna h.sndNxt h.sndMax h.soSndCc (hc.trans h.timers) h.tfNeedsyn

/-- The timer is stopped when everything sent is acknowledged. -/
theorem Tcpcb.At.rexmtAfterAck (h : tp.At una nxt ack) :
    (rexmtAfterAck tp ack).At una nxt ack := by
  have hrexmt : tp.ctl.ttRexmt = false := congrArg Prod.fst h.timers
  rw [Libuinet.rexmtAfterAck, if_pos h.sndMax.symm]
  exact h.setCtl (Prod.ext hrexmt.symm rfl)

theorem Tcpcb.At.dropAcked (h : tp.At una nxt max) (acked : ℕ) :
    (dropAcked tp acked).1.At una nxt max := by
  refine .mk' h.inpPassive h.sndUna h.sndNxt h.sndMax ?_ h.timers h.tfNeedsyn
  have hcc := h.soSndCc
  unfold Libuinet.dropAcked
  dsimp only
  omega

/-- The pointers meet at the acknowledgement. -/
theorem Tcpcb.At.ackPointers (h : tp.At una nxt ack) {th : TcpHdr} (hack : th.thAck = ack)
    (hnxt : nxt = ack ∨ seqLt nxt ack = true) : (ackPointers tp th).At ack ack ack := by
  have htimers : (Libuinet.ackPointers tp th).ctl.timers = tp.ctl.timers := by
    unfold Libuinet.ackPointers
    dsimp only
    split_ifs <;> rfl
  refine .mk' h.inpPassive hack ?_ h.sndMax h.soSndCc (htimers.trans h.timers) h.tfNeedsyn
  unfold Libuinet.ackPointers
  dsimp only
  rw [h.sndNxt, hack]
  rcases hnxt with rfl | hnxt
  · exact ite_self _
  · exact if_pos hnxt

theorem finAcked_at {v : InputVars} (h : v.tp.At una nxt max) (fin : Bool) :
    Outcome (fun r => r.tp.At una nxt max) (fun v' => v'.tp.At una nxt max) (finAcked v fin) := by
  unfold finAcked
  split
  · split
    · exact { h with }
    · exact h
    · exact h
    · exact h
  · exact h

variable {e : TcpEnv} {v : InputVars}

/-- With no retransmission timer running, a duplicate is not counted. -/
theorem dupAckInput_at (h : v.tp.At una nxt max) :
    Outcome (fun r => r.tp.At una nxt max) (fun v' => v'.tp.At una nxt max) (dupAckInput e v) := by
  have hrexmt : v.tp.ctl.ttRexmt = false := congrArg Prod.fst h.timers
  have hdup : (v.tp.setDupacks 0).At una nxt max := h.setCtl rfl
  unfold dupAckInput
  rw [hrexmt, Bool.not_false, Bool.true_or, if_pos rfl]
  split <;> exact hdup

variable (he : e.TimersKept)
include he

/-- An acknowledgement during recovery moves `snd_nxt` at most. -/
theorem recoveryAck_at (h : tp.At una nxt max) (th : TcpHdr) :
    ∃ n, (n = nxt ∨ n = th.thAck) ∧ (recoveryAck e tp th).At una n max := by
  have hpersist : tp.ctl.ttPersist = false := congrArg Prod.snd h.timers
  have hoff : (false, tp.ctl.ttPersist) = (false, false) := Prod.ext rfl hpersist
  unfold recoveryAck
  split
  · split
    · split
      · refine ⟨nxt, .inl rfl, (tcpOutput_sameSend e _).at trivial ?_⟩
        exact .mk' h.inpPassive h.sndUna h.sndNxt h.sndMax h.soSndCc hoff h.tfNeedsyn
      · unfold tcpNewrenoPartialAck
        dsimp only
        generalize hout : tcpOutput e _ = tp'
        have hat : tp'.At una th.thAck max := hout ▸ (tcpOutput_sameSend e _).at trivial
          (.mk' h.inpPassive h.sndUna rfl h.sndMax h.soSndCc hoff h.tfNeedsyn)
        refine ⟨if seqGt nxt th.thAck then nxt else th.thAck, ?_, ?_⟩
        · split
          · exact .inl rfl
          · exact .inr rfl
        · refine .mk' hat.inpPassive hat.sndUna ?_ hat.sndMax hat.soSndCc hat.timers hat.tfNeedsyn
          rw [h.sndNxt, hat.sndNxt]
    · exact ⟨nxt, .inl rfl, h.setCtl (he.ccPostRecovery tp th)⟩
  · exact ⟨nxt, .inl rfl, h⟩

theorem ccCongSignal_at (h : tp.At una nxt max) (th : TcpHdr) (type : CcSignal) :
    ∃ n, (n = nxt ∨ n = max) ∧ (ccCongSignal e tp th type).At una n max := by
  refine ⟨if type = .ccRtoErr then max else nxt, ?_, ?_⟩
  · split
    · exact .inr rfl
    · exact .inl rfl
  · refine .mk' h.inpPassive h.sndUna ?_ h.sndMax h.soSndCc ((he.ccCongSignal ..).trans h.timers)
      h.tfNeedsyn
    rw [ccCongSignal, h.sndMax, h.sndNxt]

/-- The round trip sample moves `snd_nxt` at most. -/
theorem ackTiming_at (h : v.tp.At una nxt max) :
    ∃ n, (n = nxt ∨ n = max) ∧ (ackTiming e v).At una n max := by
  have hbad : ∀ b : Bool, ∃ n, (n = nxt ∨ n = max) ∧
      (if b then ccCongSignal e v.tp v.th .ccRtoErr else v.tp).At una n max := by
    intro b
    cases b
    · exact ⟨nxt, .inl rfl, h⟩
    · exact ccCongSignal_at he h v.th .ccRtoErr
  unfold ackTiming
  dsimp only
  generalize (decide (v.tp.ctl.tRxtshift = 1) && v.tp.ctl.tfPrevvalid &&
    decide ((BitVec.ofNat 32 e.ticks - v.tp.ctl.tBadrxtwin).toInt < 0)) = b
  obtain ⟨n, hn, hat⟩ := hbad b
  refine ⟨n, hn, ?_⟩
  generalize (if b = true then ccCongSignal e v.tp v.th .ccRtoErr else v.tp) = tp' at hat ⊢
  split
  · exact hat.setCtl (he.tcpXmitTimer ..)
  · split
    · exact hat.setCtl (he.tcpXmitTimer ..)
    · exact hat

/-- An acknowledgement of something new, when `snd_max` is there. -/
theorem processAck_at (h : v.tp.At una nxt v.th.thAck) (hnew : v.th.thAck ≠ una)
    (hnxt : nxt = v.th.thAck ∨ seqLt nxt v.th.thAck = true) :
    Outcome (fun r => r.tp.At v.th.thAck v.th.thAck v.th.thAck)
      (fun v' => v'.tp.At v.th.thAck v.th.thAck v.th.thAck) (processAck e v) := by
  have hacked : bytesThisAck v.tp v.th ≠ 0 := by
    rw [bytesThisAck, h.sndUna, ← BitVec.toNat_zero (w := 32)]
    exact fun h0 => hnew (sub_eq_zero.mp (BitVec.eq_of_toNat_eq h0))
  obtain ⟨n, hn, htiming⟩ := ackTiming_at he h
  have hn' : n = v.th.thAck ∨ seqLt n v.th.thAck = true := by
    rcases hn with rfl | rfl
    · exact hnxt
    · exact .inl rfl
  have hreceived := htiming.rexmtAfterAck.setCtl (he.ccAckReceived _ v.th .ccAck)
  unfold processAck
  dsimp only
  rw [if_neg hacked]
  exact finAcked_at ((hreceived.dropAcked _).ackPointers rfl hn') _

theorem sackAck_at (h : tp.At una nxt max) (opt : TcpOpt) (th : TcpHdr) :
    (sackAck e tp opt th).At una nxt max := by
  unfold sackAck
  split
  · exact h.setCtl (he.tcpSackDoack ..)
  · exact h

/-- An acknowledgement of something new moves the pointers there. -/
theorem establishedAck_new (h : (passiveSndMax v.tp v.th).At una nxt v.th.thAck)
    (hnew : seqLeq v.th.thAck una = false)
    (hnxt : nxt = v.th.thAck ∨ seqLt nxt v.th.thAck = true) :
    Outcome (fun r => r.tp.At v.th.thAck v.th.thAck v.th.thAck)
      (fun v' => v'.tp.At v.th.thAck v.th.thAck v.th.thAck) (establishedAck e v) := by
  have hsack := sackAck_at he h v.opt v.th
  obtain ⟨n, hn, hrec⟩ := recoveryAck_at he hsack v.th
  have hmax : seqGt v.th.thAck (passiveSndMax v.tp v.th).sndMax = false := by
    rw [h.sndMax, seqGt, sub_self]
    decide
  have hne : v.th.thAck ≠ una := by
    rintro rfl
    rw [seqLeq, sub_self] at hnew
    exact absurd hnew (by decide)
  unfold establishedAck
  dsimp only
  rw [hmax, hsack.sndUna, hnew, if_neg Bool.false_ne_true, if_neg Bool.false_ne_true]
  have hdup : ((recoveryAck e (sackAck e (passiveSndMax v.tp v.th) v.opt v.th) v.th).setDupacks
      0).At una n v.th.thAck := hrec.setCtl rfl
  rw [needsynAck, hdup.tfNeedsyn, if_neg Bool.false_ne_true]
  refine processAck_at he hdup hne ?_
  rcases hn with rfl | rfl
  · exact hnxt
  · exact .inl rfl

/-- With all that was sent acknowledged, any acknowledgement but the one half the sequence space
away leaves it so. -/
theorem establishedAck_idle {seq : TcpSeq} (h : v.tp.At seq seq seq)
    (hok : v.th.thAck ≠ seq + 0x80000000) :
    Outcome (fun r => ∃ seq, r.tp.At seq seq seq) (fun v' => ∃ seq, v'.tp.At seq seq seq)
      (establishedAck e v) := by
  by_cases hlt : seqLt seq v.th.thAck = true
  · have hpas : passiveSndMax v.tp v.th = { v.tp with sndMax := v.th.thAck } := by
      rw [passiveSndMax, h.inpPassive, h.sndMax, hlt, Bool.and_self, if_pos rfl]
    have hat : (passiveSndMax v.tp v.th).At seq seq v.th.thAck := by
      rw [hpas]
      exact .mk' h.inpPassive h.sndUna h.sndNxt rfl h.soSndCc h.timers h.tfNeedsyn
    have hnew : seqLeq v.th.thAck seq = false := seqLeq_eq_false_of_seqLt hlt hok
    exact (establishedAck_new he hat hnew (.inr hlt)).imp (fun _ hr => ⟨_, hr⟩) fun _ hv => ⟨_, hv⟩
  · have hpas : passiveSndMax v.tp v.th = v.tp := by
      rw [passiveSndMax, h.sndMax, Bool.eq_false_iff.mpr hlt, Bool.and_false,
        if_neg Bool.false_ne_true]
    have hsack := sackAck_at he h v.opt v.th
    unfold establishedAck
    dsimp only
    rw [hpas, h.sndMax, hsack.sndUna]
    split
    · exact ⟨seq, (dropafterack_sameSend e v).at trivial h⟩
    · next hgt =>
      split
      · exact (dupAckInput_at hsack).imp (fun _ hr => ⟨_, hr⟩) fun _ hv => ⟨_, hv⟩
      · next hleq => exact absurd (seqGt_of_not_seqLeq hleq) hgt

theorem synReceivedAck_at (h : v.tp.At una nxt max) : (synReceivedAck e v).tp.At una nxt max := by
  generalize hv : synReceivedAck e v = v'
  unfold synReceivedAck at hv
  extract_lets _ tp₁ tp₂ _ tp₃ at hv
  subst hv
  have h₁ : tp₁.At una nxt max := by
    unfold tp₁
    split
    · exact { h with }
    · exact h
  have h₂ : tp₂.At una nxt max := by
    unfold tp₂
    split
    · exact { h₁ with }
    · exact { h₁ with timers := (he.ccConnInit tp₁).trans h₁.timers }
  have h₃ : tp₃.At una nxt max := by
    unfold tp₃
    split
    · have hpassive := tcpReass_none_inpPassive tp₂.toReassCb e.ticks e.umaZalloc
      exact { h₂ with inpPassive := hpassive.trans h₂.inpPassive }
    · exact h₂
  exact { h₃ with }

end At

structure Tcpcb.Idle (tp : Tcpcb) : Prop where
  sent : ∃ seq, tp.At seq seq seq
  state : tp.tState ≠ .synSent ∧ tp.tState ≠ .synReceived

/-- A passive connection on its way to `TCPS_ESTABLISHED`: the SYN alone is outstanding. -/
structure Tcpcb.Opening (tp : Tcpcb) : Prop where
  inpPassive : tp.inpPassive = true
  state : tp.tState ≠ .synSent
  received : tp.tState = .synReceived → ∃ seq, tp.At seq (seq + 1) (seq + 1)
  established : tp.tState = .established → ∃ seq, tp.At seq seq seq

section Invariant

variable {tp tp' : Tcpcb}

theorem Tcpcb.Idle.congr {kept : Prop} (h : tp.Idle) (hk : kept) (hs : tp.SameSend kept tp') :
    tp'.Idle := by
  obtain ⟨⟨seq, hat⟩, hstate⟩ := h
  refine ⟨⟨seq, hs.at hk hat⟩, ?_⟩
  rcases hs.state with heq | heq | heq | heq
  · rwa [heq]
  all_goals rw [heq]; decide

theorem Tcpcb.Idle.opening (h : tp.Idle) : tp.Opening := by
  obtain ⟨⟨seq, hat⟩, hsent, hrcvd⟩ := h
  exact ⟨hat.inpPassive, hsent, fun hst => absurd hst hrcvd, fun _ => ⟨seq, hat⟩⟩

/-- In the states the connection goes on to nothing is said. -/
theorem Tcpcb.Opening.beyond (hp : tp.inpPassive = true)
    (h : tp.tState ≠ .synSent ∧ tp.tState ≠ .synReceived ∧ tp.tState ≠ .established) :
    tp.Opening := ⟨hp, h.1, fun hst => absurd hst h.2.1, fun hst => absurd hst h.2.2⟩

theorem Tcpcb.Opening.congr {kept : Prop} (h : tp.Opening) (hk : kept)
    (hs : tp.SameSend kept tp') : tp'.Opening := by
  have hp : tp'.inpPassive = true := hs.inpPassive.trans h.inpPassive
  rcases hs.state with heq | heq | heq | heq
  · refine ⟨hp, by rw [heq]; exact h.state, fun hst => ?_, fun hst => ?_⟩
    · obtain ⟨seq, hat⟩ := h.received (heq.symm.trans hst)
      exact ⟨seq, hs.at hk hat⟩
    · obtain ⟨seq, hat⟩ := h.established (heq.symm.trans hst)
      exact ⟨seq, hs.at hk hat⟩
  all_goals exact .beyond hp (by rw [heq]; decide)

variable {e : TcpEnv} (he : e.TimersKept) {v : InputVars}
include he

/-- The second switch in a state from `TCPS_ESTABLISHED` on. -/
theorem establishedAck_keeps_idle (h : v.tp.Idle)
    (hok : v.th.thAck ≠ v.tp.sndMax + 0x80000000) :
    Outcome (fun r => r.fate = .live → r.tp.Idle) (fun v' => v'.tp.Idle) (establishedAck e v) := by
  obtain ⟨⟨seq, hat⟩, hstate⟩ := h
  rw [hat.sndMax] at hok
  have hkept : ∀ s, StateKept v.tp.tState s → s ≠ .synSent ∧ s ≠ .synReceived := by
    rintro s (rfl | ⟨-, rfl⟩)
    · exact hstate
    · decide
  refine ((establishedAck_idle he hat hok).and (establishedAck_passes e v)).imp ?_ ?_
  · exact fun r hr hlive => ⟨hr.1, hkept _ (hr.2.2 hlive)⟩
  · exact fun v' hv => ⟨hv.1, hkept _ hv.2.tp.state⟩

theorem ackInput_idle (h : v.tp.Idle)
    (hok : v.thflags.ack = true → v.th.thAck ≠ v.tp.sndMax + 0x80000000) :
    Outcome (fun r => r.fate = .live → r.tp.Idle) (fun v' => v'.tp.Idle) (ackInput e v) := by
  obtain ⟨seq, hat⟩ := h.sent
  unfold ackInput
  split
  · split
    · exact h
    · split
      · exact fun _ => h.congr trivial (dropafterack_sameSend e v)
      · exact fun _ => h
  · next hflag =>
    have hack : v.thflags.ack = true := by simpa using hflag
    split
    · exact h
    · exact h
    · exact h
    · exact h
    · next hst => exact absurd hst h.state.2
    · exact establishedAck_keeps_idle he h (hok hack)

/-- The acknowledgement of the SYN. -/
theorem establishedAck_syn {seq : TcpSeq} (h : v.tp.At seq (seq + 1) (seq + 1))
    (hack : v.th.thAck = seq + 1) :
    Outcome (fun r => ∃ seq, r.tp.At seq seq seq) (fun v' => ∃ seq, v'.tp.At seq seq seq)
      (establishedAck e v) := by
  have hpas : passiveSndMax v.tp v.th = v.tp := by
    have hnot : seqLt v.tp.sndMax v.th.thAck = false := by
      rw [h.sndMax, hack, seqLt, sub_self]
      decide
    rw [passiveSndMax, hnot, Bool.and_false, if_neg Bool.false_ne_true]
  have hnew : seqLeq v.th.thAck seq = false := by
    rw [hack, seqLeq, add_sub_cancel_left]
    decide
  have hat : (passiveSndMax v.tp v.th).At seq (seq + 1) v.th.thAck := by
    rw [hpas, hack]
    exact h
  exact (establishedAck_new he hat hnew (.inl hack.symm)).imp (fun _ hr => ⟨_, hr⟩) fun _ hv =>
    ⟨_, hv⟩

end Invariant

/-- The test in `TCPS_SYN_RECEIVED` lets the acknowledgement of the SYN pass only. -/
theorem synAcked_eq {seq ack : TcpSeq} (hlow : seqLeq ack seq = false)
    (hhigh : seqGt ack (seq + 1) = false) : ack = seq + 1 := by
  rw [seqLeq, decide_eq_false_iff_not, not_le] at hlow
  rw [seqGt, decide_eq_false_iff_not, not_lt, ← sub_sub] at hhigh
  have hone : ack - seq = 1 := by
    generalize ack - seq = d at hlow hhigh
    have hd := BitVec.toInt_eq_toNat_cond d
    have hd' := BitVec.toInt_eq_toNat_cond (d - 1)
    have hlt := d.isLt
    rw [BitVec.toNat_sub] at hd'
    apply BitVec.eq_of_toNat_eq
    change d.toNat = 1
    have hone : (1 : BitVec 32).toNat = 1 := rfl
    rw [hone] at hd'
    split at hd <;> split at hd' <;> omega
  exact sub_eq_iff_eq_add'.mp hone

theorem synReceivedAck_state (e : TcpEnv) (v : InputVars) :
    (synReceivedAck e v).tp.tState = .finWait1 ∨ (synReceivedAck e v).tp.tState = .established := by
  have hreass : ∀ (tp : ReassCb) (ticks : ℕ) (alloc : Option ℕ),
      (tcpReass tp ticks alloc none).1.tState = tp.tState := by
    intro tp ticks alloc
    refine tcpReassPresent_rule (I := fun tp' => tp'.tState = tp.tState) ?_ (fun _ _ _ h _ _ => h)
      rfl ticks false false (fun _ _ _ h => by cases h)
    intro _ _ hs h
    exact hs.tState.trans h
  unfold synReceivedAck
  dsimp only
  split_ifs
  all_goals first
    | exact .inl ((hreass _ e.ticks e.umaZalloc).trans rfl)
    | exact .inr ((hreass _ e.ticks e.umaZalloc).trans rfl)
    | exact .inl rfl
    | exact .inr rfl

/-- The ACK part on the way to `TCPS_ESTABLISHED`. -/
theorem ackInput_opening {e : TcpEnv} (he : e.TimersKept) {v : InputVars} (h : v.tp.Opening)
    (hsyn : v.tp.tState = .synReceived → v.thflags.ack = true →
      v.th.thAck = v.tp.sndUna + 1)
    (hok : v.thflags.ack = true → v.th.thAck ≠ v.tp.sndMax + 0x80000000) :
    Outcome (fun r => r.fate = .live → r.tp.Opening) (fun v' => v'.tp.Opening) (ackInput e v) := by
  by_cases hrcvd : v.tp.tState = .synReceived
  · unfold ackInput
    split
    · rw [hrcvd, decide_eq_true rfl, Bool.true_or, if_pos rfl]
      exact h
    · next hflag =>
      have hack : v.thflags.ack = true := by simpa using hflag
      obtain ⟨seq, hat⟩ := h.received hrcvd
      have hseq : v.th.thAck = seq + 1 := by rw [hsyn hrcvd hack, hat.sndUna]
      have hkept : ∀ s, StateKept (synReceivedAck e v).tp.tState s →
          s ≠ .synSent ∧ s ≠ .synReceived := by
        rintro s (rfl | ⟨-, rfl⟩)
        · rcases synReceivedAck_state e v with h | h <;> rw [h] <;> decide
        · decide
      rw [hrcvd]
      refine ((establishedAck_syn he (synReceivedAck_at he hat) hseq).and
        (establishedAck_passes e _)).imp ?_ ?_
      · exact fun r hr hlive => Tcpcb.Idle.opening ⟨hr.1, hkept _ (hr.2.2 hlive)⟩
      · exact fun v' hv => Tcpcb.Idle.opening ⟨hv.1, hkept _ hv.2.tp.state⟩
  · by_cases hest : v.tp.tState = .established
    · have hidle : v.tp.Idle := ⟨h.established hest, h.state, hrcvd⟩
      exact (ackInput_idle he hidle hok).imp (fun _ hr hlive => (hr hlive).opening) fun _ hv =>
        hv.opening
    · have hkept : ∀ s, StateKept v.tp.tState s →
          s ≠ .synSent ∧ s ≠ .synReceived ∧ s ≠ .established := by
        rintro s (rfl | ⟨-, rfl⟩)
        · exact ⟨h.state, hrcvd, hest⟩
        · decide
      refine (ackInput_passes e v hrcvd).imp ?_ ?_
      · exact fun r hr hlive => .beyond (hr.1.inpPassive.trans h.inpPassive) (hkept _ (hr.2 hlive))
      · exact fun v' hv => .beyond (hv.tp.inpPassive.trans h.inpPassive) (hkept _ hv.tp.state)

section Start

variable {e : TcpEnv} (he : e.TimersKept)
include he

omit he in
theorem syncacheOptions_state (sc : Syncache) (tp : Tcpcb) (s r : ℕ) (t o : BitVec 32) :
    (syncacheOptions e sc tp s r t o).tState = tp.tState ∧
      (syncacheOptions e sc tp s r t o).iss = tp.iss := by
  unfold syncacheOptions tcpMss
  dsimp only
  split_ifs <;> exact ⟨rfl, rfl⟩

omit he in
theorem syncacheOptions_sameSend (sc : Syncache) (tp : Tcpcb) (s r : ℕ) (t o : BitVec 32) :
    tp.SameSend e.TimersKept (syncacheOptions e sc tp s r t o) := by
  refine ⟨syncacheOptions_frozen e sc tp s r t o, fun _ => ?_, fun he _ => ?_,
    .inl (syncacheOptions_state sc tp s r t o).1⟩
  · unfold syncacheOptions tcpMss
    dsimp only
    split_ifs <;> rfl
  · unfold syncacheOptions tcpMss
    dsimp only
    split_ifs <;> simp only [he.tcpMss]

variable {tp : Tcpcb}

omit he in
theorem inputEntry_view (hp : tp.inpPassive = true) (p : TcpPkt) :
    (inputEntry e tp p).tp.sndView = tp.sndView ∧ (inputEntry e tp p).tp.inpPassive = true ∧
      (inputEntry e tp p).tp.tState = tp.tState ∧ (inputEntry e tp p).tp.iss = tp.iss := by
  have hecn : (ecnInput e tp p).sndView = tp.sndView ∧ (ecnInput e tp p).inpPassive = true ∧
      (ecnInput e tp p).tState = tp.tState ∧ (ecnInput e tp p).iss = tp.iss := by
    have hsame := ecnInput_sameSend e tp p
    refine ⟨hsame.view hp, hsame.inpPassive.trans hp, by rw [(ecnInput_sameRecvAll e tp p).reass],
      ?_⟩
    unfold ecnInput ccCongSignal
    dsimp only
    split_ifs <;> rfl
  have hopt : ∀ (tp : Tcpcb) th opt, (synSentOptions e tp th opt).sndView = tp.sndView ∧
      (synSentOptions e tp th opt).inpPassive = tp.inpPassive ∧
      (synSentOptions e tp th opt).tState = tp.tState ∧
      (synSentOptions e tp th opt).iss = tp.iss := by
    intro tp th opt
    unfold synSentOptions tcpMss
    dsimp only
    split_ifs <;> exact ⟨rfl, rfl, rfl, rfl⟩
  obtain ⟨hview, hpas, hst, hiss⟩ := hopt (ecnInput e tp p) p.th
    (adjustTsecr e (ecnInput e tp p) p.opt)
  unfold inputEntry
  dsimp only
  split
  · exact ⟨hview.trans hecn.1, hpas.trans hecn.2.1, hst.trans hecn.2.2.1, hiss.trans hecn.2.2.2⟩
  · exact hecn

theorem inputEntry_synSent {una nxt max : TcpSeq} (h : tp.At una nxt max) (p : TcpPkt) :
    (inputEntry e tp p).tp.At una nxt max ∧
      (inputEntry e tp p).tp.tState = tp.tState ∧ (inputEntry e tp p).tp.iss = tp.iss := by
  obtain ⟨hview, hpas, hrest⟩ := inputEntry_view (e := e) h.inpPassive p
  have hecn : (ecnInput e tp p).ctl.timers = tp.ctl.timers :=
    (ecnInput_sameSend e tp p).timers he h.inpPassive
  have htimers : (inputEntry e tp p).tp.ctl.timers = tp.ctl.timers := by
    unfold inputEntry
    dsimp only
    split
    · unfold synSentOptions tcpMss
      dsimp only
      split_ifs <;> simp only [he.tcpMss, hecn]
    · exact hecn
  exact ⟨⟨hpas, hview.trans h.view, htimers.trans h.timers⟩, hrest⟩

theorem synSentAck_at {v : InputVars} {una nxt max : TcpSeq} (h : v.tp.At una nxt max) :
    (synSentAck e v).tp.At (una + 1) nxt max ∧ ((synSentAck e v).tp.tState = .finWait1 ∨
      (synSentAck e v).tp.tState = .established) ∧ (synSentAck e v).th = v.th ∧
      (synSentAck e v).thflags.ack = v.thflags.ack := by
  generalize hv : synSentAck e v = v'
  unfold synSentAck at hv
  extract_lets _ tp₁ tp₂ tp₃ tp₄ at hv
  have h₂ : tp₂.At (una + 1) nxt max :=
    .mk' h.inpPassive (congrArg (· + 1) h.sndUna) h.sndNxt h.sndMax h.soSndCc h.timers h.tfNeedsyn
  have h₃ : tp₃.At (una + 1) nxt max := by
    unfold tp₃
    split
    · exact { h₂ with }
    · exact { h₂ with }
  have h₄ : tp₄.At (una + 1) nxt max := by
    unfold tp₄
    split
    · exact { h₃ with }
    · exact h₃
  split at hv
  · subst hv
    exact ⟨{ h₄ with }, .inl rfl, rfl, rfl⟩
  · subst hv
    exact ⟨{ h₄ with timers := (he.ccConnInit tp₄).trans h₄.timers }, .inr rfl, rfl, rfl⟩

/-- The acknowledgement of the SYN in `TCPS_SYN_SENT`. -/
theorem synSentInput_at {v : InputVars} {seq : TcpSeq} (h : v.tp.At seq (seq + 1) (seq + 1))
    (hiss : v.tp.iss = seq) (hack : v.th.thAck = seq + 1) (hflag : v.thflags.ack = true)
    (hsyn : v.thflags.syn = true) (hrst : v.thflags.rst = false) :
    ∃ v', synSentInput e v = .ok v' ∧ v'.tp.At (seq + 1) (seq + 1) (seq + 1) ∧
      (v'.tp.tState = .finWait1 ∨ v'.tp.tState = .established) ∧ v'.th.thAck = seq + 1 ∧
      v'.thflags.ack = true := by
  obtain ⟨v₁, hv₁, hsame⟩ := synSentInput_answered e hiss h.sndMax hack hflag hsyn hrst
  obtain ⟨hat, hst, hth, hflag'⟩ := synSentAck_at he (hsame.tp.at trivial h)
  have htrim : (synSentAck e v₁).SameAck True _ := synSentTrim_sameAck (synSentAck e v₁)
  refine ⟨_, hv₁, htrim.tp.at trivial hat, ?_, ?_, ?_⟩
  · rwa [htrim.state]
  · rw [htrim.thAck, hth, hsame.thAck, hack]
  · rw [htrim.ack, hflag', hsame.ack, hflag]

/-- An acknowledgement of nothing new that still goes through `process_ACK`. -/
theorem processAck_none {v : InputVars} {seq : TcpSeq} (h : v.tp.At seq seq seq)
    (hack : v.th.thAck = seq) :
    Outcome (fun r => r.tp.At seq seq seq) (fun v' => v'.tp.At seq seq seq) (processAck e v) := by
  have hacked : bytesThisAck v.tp v.th = 0 := by
    rw [bytesThisAck, h.sndUna, hack, sub_self]
    rfl
  obtain ⟨n, hn, htiming⟩ := ackTiming_at he h
  obtain rfl : n = seq := hn.elim id id
  unfold processAck
  dsimp only
  rw [if_pos hacked, hack]
  exact htiming.rexmtAfterAck

/-- The SYN|ACK that answers the SYN. -/
theorem tcpDoSegment_synack_idle {p : TcpPkt} {seq : TcpSeq} (h : tp.At seq (seq + 1) (seq + 1))
    (hst : tp.tState = .synSent) (hiss : tp.iss = seq) (hack : p.th.thAck = seq + 1)
    (hflag : p.th.thFlags.ack = true) (hsyn : p.th.thFlags.syn = true)
    (hrst : p.th.thFlags.rst = false) (hlive : (tcpDoSegment e tp p).fate = .live) :
    (tcpDoSegment e tp p).tp.Idle := by
  obtain ⟨hat, hst', hiss'⟩ := inputEntry_synSent he h p
  have hset : (setRcvWnd (inputEntry e tp p)).tp.At seq (seq + 1) (seq + 1) :=
    { hat with }
  obtain ⟨v, hv, hat₁, hst₁, hack₁, hflag₁⟩ :=
    synSentInput_at he hset (hiss'.trans hiss) hack hflag hsyn hrst
  have hkept : ∀ s, StateKept v.tp.tState s → s ≠ .synSent ∧ s ≠ .synReceived := by
    rintro s (rfl | ⟨-, rfl⟩)
    · rcases hst₁ with h | h <;> rw [h] <;> decide
    · decide
  have hprocess : Outcome (fun r => r.fate = .live → r.tp.Idle) (fun v' => v'.tp.Idle)
      (processAck e v) := by
    refine ((processAck_none he hat₁ hack₁).and (processAck_passes e v)).imp ?_ ?_
    · exact fun r hr hlive => ⟨⟨_, hr.1⟩, hkept _ (hr.2.2 hlive)⟩
    · exact fun v' hv => ⟨⟨_, hv.1⟩, hkept _ hv.2.tp.state⟩
  have hI : ∀ a b : Tcpcb, a.SameSend e.TimersKept b → a.Idle → b.Idle := fun _ _ hs hidle =>
    hidle.congr he hs
  exact tcpDoSegment_of_synSent hI (hst'.trans hst) hv hflag₁ hprocess hlive

omit he in
theorem sonewconn_at {lso : ListenSocket} {passive : Bool} (h : sonewconn e lso passive = some tp)
    (hpas : passive = true) : tp.At 0 0 0 := by
  obtain ⟨sb, -, rfl⟩ := Option.map_eq_some_iff.mp h
  exact .mk' hpas rfl rfl rfl rfl rfl rfl

/-- Either end right after it has been set up. -/
theorem PassiveRole.start_opening {role : PassiveRole} {sc : Syncache} {lso : ListenSocket}
    {opt : TcpOpt} {c : TcpResult} (hpas : sc.scfPassive = true)
    (hmode : role.inpPassive lso = true) (h : role.start e sc lso opt = some c) :
    c.fate = .live → c.tp.Opening := by
  cases role with
  | server =>
    obtain ⟨tp, hserver, rfl⟩ := Option.map_eq_some_iff.mp h
    obtain ⟨tp₀, hnew, rfl⟩ := Option.map_eq_some_iff.mp hserver
    have hfresh := sonewconn_at hnew hpas
    have hinit : (serverSeqinit sc tp₀).At sc.scIss (sc.scIss + 1) (sc.scIss + 1) :=
      .mk' hfresh.inpPassive rfl rfl rfl hfresh.soSndCc hfresh.timers hfresh.tfNeedsyn
    have hopen : (serverSeqinit sc tp₀).Opening :=
      ⟨hinit.inpPassive, TcpState.noConfusion, fun _ => ⟨_, hinit⟩, TcpState.noConfusion⟩
    have hopt := hopen.congr he (syncacheOptions_sameSend sc _ sc.scRequestedSScale.toNat
      sc.scRequestedRScale.toNat sc.scTsreflect sc.scTsoff)
    intro _
    dsimp only
    split
    · exact hopt.congr trivial (.of_eq rfl rfl rfl rfl rfl)
    · exact hopt
  | client =>
    obtain ⟨tp₀, hnew, rfl⟩ := Option.map_eq_some_iff.mp h
    have hfresh := sonewconn_at hnew hmode
    have hinit : (clientSeqinit sc tp₀).At sc.scIrs (sc.scIrs + 1) (sc.scIrs + 1) :=
      .mk' hfresh.inpPassive rfl rfl rfl hfresh.soSndCc hfresh.timers hfresh.tfNeedsyn
    intro hlive
    obtain ⟨hst, hiss⟩ := syncacheOptions_state (e := e) sc (clientSeqinit sc tp₀)
      sc.scRequestedRScale.toNat sc.scRequestedSScale.toNat sc.scTs (opt.toTsval - e.tcpTsGetticks)
    have hopt := (syncacheOptions_sameSend sc _ sc.scRequestedRScale.toNat
      sc.scRequestedSScale.toNat sc.scTs (opt.toTsval - e.tcpTsGetticks)).at he hinit
    exact (tcpDoSegment_synack_idle he hopt hst hiss rfl rfl rfl rfl hlive).opening

end Start

/-- With nothing outstanding no segment is taken for a pure acknowledgement. -/
theorem predictedAck_eq_false {v : InputVars} (h : v.tp.sndUna = v.tp.sndMax) :
    predictedAck v = false := by
  rw [predictedAck, h]
  by_cases hgt : seqGt v.th.thAck v.tp.sndMax = true
  · have hle : seqLeq v.th.thAck v.tp.sndMax = false := by
      rw [seqGt, decide_eq_true_eq] at hgt
      rwa [seqLeq, decide_eq_false_iff_not, not_le]
    simp [hle]
  · simp [hgt]

def TcpOp.TimersKept : TcpOp → Prop
  | .segment e _ => e.TimersKept
  | .timer _ => True
  | .read _ _ => True

def TcpResult.AckOk (c : TcpResult) : TcpOp → Prop
  | .segment _ p => p.th.thFlags.ack = true → p.th.thAck ≠ c.tp.sndMax + 0x80000000
  | .timer _ => True
  | .read _ _ => True

section Step

variable {c : TcpResult} {op : TcpOp}

/-- What a segment keeps, everything keeps. -/
theorem TcpResult.step_rule {I : Tcpcb → Prop} (hI : ∀ a b, a.SameSend True b → I a → I b)
    (h : c.fate = .live → I c.tp)
    (hseg : ∀ e p, op = .segment e p → I c.tp →
      (tcpDoSegment e c.tp p).fate = .live → I (tcpDoSegment e c.tp p).tp) :
    (c.step op).fate = .live → I (c.step op).tp := by
  by_cases hlive : c.fate = .live
  · cases op with
    | segment e p =>
      rw [step_segment hlive]
      exact hseg e p rfl (h hlive)
    | timer ticks =>
      rw [step_timer hlive]
      exact fun _ => hI _ _ (fireReassdl_sameSend c.tp ticks) (h hlive)
    | read e n =>
      rw [step_read hlive]
      exact fun _ => hI _ _ (tcpUsrRcvd_sameSend e c.tp n) (h hlive)
  · rw [step_dead hlive]
    exact h

theorem TcpResult.step_idle (h : c.fate = .live → c.tp.Idle) (hkept : op.TimersKept)
    (hok : c.AckOk op) : (c.step op).fate = .live → (c.step op).tp.Idle := by
  refine step_rule (fun _ _ hs hI => hI.congr trivial hs) h ?_
  rintro e p rfl hidle
  obtain ⟨seq, hat⟩ := hidle.sent
  refine tcpDoSegment_rule hidle.state.1 (fun _ _ hs hI => hI.congr hkept hs) hat.inpPassive hidle
    ?_ ?_
  · intro v hv _ hpred
    obtain ⟨seq', hat'⟩ := hv.sent
    rw [predictedAck_eq_false (hat'.sndUna.trans hat'.sndMax.symm)] at hpred
    cases hpred
  · intro v hv _
    refine ackInput_idle hkept (hidle.congr hkept hv.same) fun hack => ?_
    rw [hv.thAck, hv.same.sndMax hat.inpPassive]
    exact hok (hv.ack.symm.trans hack)

theorem TcpResult.step_opening (h : c.fate = .live → c.tp.Opening) (hkept : op.TimersKept)
    (hok : c.AckOk op) : (c.step op).fate = .live → (c.step op).tp.Opening := by
  refine step_rule (fun _ _ hs hI => hI.congr trivial hs) h ?_
  rintro e p rfl hopen
  refine tcpDoSegment_rule hopen.state (fun _ _ hs hI => hI.congr hkept hs) hopen.inpPassive hopen
    ?_ ?_
  · intro v hv hest hpred
    obtain ⟨seq, hat⟩ := hv.established hest
    rw [predictedAck_eq_false (hat.sndUna.trans hat.sndMax.symm)] at hpred
    cases hpred
  · intro v hv hacked
    have hv' := hopen.congr hkept hv.same
    refine ackInput_opening hkept hv' ?_ fun hack => ?_
    · intro hst hack
      obtain ⟨seq, hat⟩ := hv'.received hst
      obtain ⟨hlow, hhigh⟩ := hacked hst hack
      rw [hat.sndUna] at hlow ⊢
      rw [hat.sndMax] at hhigh
      exact synAcked_eq hlow hhigh
    · rw [hv.thAck, hv.same.sndMax hopen.inpPassive]
      exact hok (hv.ack.symm.trans hack)

end Step

theorem TcpResult.run_live {c : TcpResult} {ops : List TcpOp}
    (h : (run step c ops).fate = .live) : c.fate = .live := by
  by_contra hdead
  refine run_preserves (I := fun c' : TcpResult => c'.fate ≠ .live) ?_ hdead ops h
  intro c' op hc
  rwa [step_dead hc]

/-- The bytes `sbdrop` is asked to drop from `so_snd` on the fast path, with `sb_cc`. -/
def fastDrop (e : TcpEnv) (v : InputVars) : Option (ℕ × ℕ) :=
  if predicted v then
    let v := { v with tp := predictedTs e v }
    let tp := ackTiming e v
    if v.tlen = 0 ∧ predictedAck v = true then some (bytesThisAck tp v.th, tp.soSndCc) else none
  else none

def toProcessAck (e : TcpEnv) (v : InputVars) : Option InputVars :=
  let v := { v with tp := passiveSndMax v.tp v.th }
  if seqGt v.th.thAck v.tp.sndMax then none
  else
    let v := { v with tp := sackAck e v.tp v.opt v.th }
    if seqLeq v.th.thAck v.tp.sndUna then none
    else some { v with tp := needsynAck ((recoveryAck e v.tp v.th).setDupacks 0) }

def processDrop (e : TcpEnv) (v : InputVars) : Option (ℕ × ℕ) :=
  let acked := bytesThisAck v.tp v.th
  let tp := ccAckReceived e (rexmtAfterAck (ackTiming e v) v.th.thAck) v.th .ccAck
  if acked = 0 then none
  else if tp.soSndCc < acked then some (tp.soSndCc, tp.soSndCc)
  else some (acked, tp.soSndCc)

/-- The same for the whole of `tcp_do_segment`, in a state other than `TCPS_SYN_SENT`. -/
def sndDrop (e : TcpEnv) (tp : Tcpcb) (p : TcpPkt) : Option (ℕ × ℕ) :=
  match fastDrop e (inputEntry e tp p), toAckInput e tp p with
  | some d, _ => some d
  | none, .error _ => none
  | none, .ok v =>
    if !v.thflags.ack then none
    else match v.tp.tState with
      | .closed | .listen | .synSent | .timeWait => none
      | .synReceived => (toProcessAck e (synReceivedAck e v)).bind (processDrop e)
      | _ => (toProcessAck e v).bind (processDrop e)

theorem processDrop_le {e : TcpEnv} {v : InputVars} {d : ℕ × ℕ} (h : processDrop e v = some d) :
    d.1 ≤ d.2 := by
  unfold processDrop at h
  dsimp only at h
  split_ifs at h with _ hlt
  · cases h
    exact le_rfl
  · cases h
    exact Nat.le_of_not_lt hlt

theorem sndDrop_le {e : TcpEnv} (he : e.TimersKept) {tp : Tcpcb} (h : tp.Idle) {p : TcpPkt}
    {d : ℕ × ℕ} (hd : sndDrop e tp p = some d) : d.1 ≤ d.2 := by
  obtain ⟨seq, hat⟩ := h.sent
  have hfast : fastDrop e (inputEntry e tp p) = none := by
    have hentry := (inputEntry_sameSend e p h.state.1).1.at he hat
    generalize inputEntry e tp p = v at hentry
    have hptr : (predictedTs e v).sndUna = v.tp.sndUna ∧
        (predictedTs e v).sndMax = v.tp.sndMax := by
      unfold predictedTs
      split <;> exact ⟨rfl, rfl⟩
    have hnot : predictedAck { v with tp := predictedTs e v } = false := by
      refine predictedAck_eq_false ?_
      rw [hptr.1, hptr.2, hentry.sndUna, hentry.sndMax]
    unfold fastDrop
    dsimp only
    simp only [hnot, Bool.false_eq_true, and_false, if_false, ite_self]
  have hslow : ∀ x : Option InputVars, x.bind (processDrop e) = some d → d.1 ≤ d.2 := by
    intro x hx
    obtain ⟨v, -, hv⟩ := Option.bind_eq_some_iff.mp hx
    exact processDrop_le hv
  unfold sndDrop at hd
  rw [hfast] at hd
  cases hto : toAckInput e tp p with
  | error r =>
    rw [hto] at hd
    cases hd
  | ok v =>
    rw [hto] at hd
    dsimp only at hd
    split at hd
    · cases hd
    · split at hd
      all_goals first
        | cases hd
        | exact hslow _ hd

/-- Once in `TCPS_ESTABLISHED`, a passive connection that is never shown an acknowledgement half
the sequence space away from its `snd_max` has nothing outstanding, nothing to send and no timer
that would resend, and never drops more of its send buffer than there is, for as long as it
lasts. -/
theorem passive_send_idle (role : PassiveRole) (e : TcpEnv) (sc : Syncache) (lso : ListenSocket)
    (opt : TcpOpt) (c₀ : TcpResult) (pre post : List TcpOp) (hpas : sc.scfPassive = true)
    (hmode : role.inpPassive lso = true) (hstart : role.start e sc lso opt = some c₀)
    (he : e.TimersKept) (hkept : ∀ op ∈ pre ++ post, op.TimersKept)
    (hest : (run TcpResult.step c₀ pre).tp.tState = .established)
    (hok : Along TcpResult.step TcpResult.AckOk c₀ (pre ++ post))
    (hlive : (run TcpResult.step c₀ (pre ++ post)).fate = .live) :
    let tp := (run TcpResult.step c₀ (pre ++ post)).tp
    (tp.sndUna = tp.sndNxt ∧ tp.sndNxt = tp.sndMax) ∧ tp.soSndCc = 0 ∧
      (tp.ctl.ttRexmt = false ∧ tp.ctl.ttPersist = false) ∧
      ∀ e' p d, e'.TimersKept → sndDrop e' tp p = some d → d.1 ≤ d.2 := by
  intro tp
  obtain ⟨hpre, hpost⟩ := along_append.mp ((along_of_forall hkept c₀).and hok)
  have hidle : tp.Idle := by
    change (run TcpResult.step c₀ (pre ++ post)).tp.Idle
    rw [run_append] at hlive ⊢
    have hopen := run_invariant (I := fun c : TcpResult => c.fate = .live → c.tp.Opening)
      (fun _ _ h hop => TcpResult.step_opening h hop.1 hop.2)
      (PassiveRole.start_opening he hpas hmode hstart) hpre (TcpResult.run_live hlive)
    have hmid : (run TcpResult.step c₀ pre).tp.Idle :=
      ⟨hopen.established hest, hopen.state, by rw [hest]; decide⟩
    exact run_invariant (I := fun c : TcpResult => c.fate = .live → c.tp.Idle)
      (fun _ _ h hop => TcpResult.step_idle h hop.1 hop.2) (fun _ => hmid) hpost hlive
  obtain ⟨seq, hat⟩ := hidle.sent
  refine ⟨⟨hat.sndUna.trans hat.sndNxt.symm, hat.sndNxt.trans hat.sndMax.symm⟩, hat.soSndCc,
    ⟨congrArg Prod.fst hat.timers, congrArg Prod.snd hat.timers⟩, ?_⟩
  exact fun e' p d he' hd => sndDrop_le he' hidle hd

def ackSegment (ack : TcpSeq) : TcpOp :=
  .segment {}
    { th := { thSeq := 1, thAck := ack, thFlags := { ack := true } }
      tlen := 0
      m := []
      fits := Nat.zero_le _ }

theorem timersKept_default : ({} : TcpEnv).TimersKept :=
  ⟨fun _ _ _ => rfl, fun _ _ _ => rfl, fun _ _ => rfl, fun _ => rfl, fun _ _ => rfl,
    fun _ _ _ => rfl, fun _ _ _ => rfl, fun _ _ => rfl⟩

/-- The server end is shown the acknowledgements of five bytes it never sent. -/
theorem passive_send_idle_five :
    let ops := [ackSegment 1] ++ [ackSegment 3, ackSegment 6]
    ∃ c, PassiveRole.server.start {} { scIrs := 0, scIss := 0, scWnd := 1000 } {} {} = some c ∧
      (run TcpResult.step c ops).tp.sndMax = 6 ∧
      (run TcpResult.step c ops).tp.sndUna = (run TcpResult.step c ops).tp.sndNxt := by
  intro ops
  have hkept : ∀ op ∈ ops, op.TimersKept := by
    intro op hop
    simp only [ops, List.cons_append, List.nil_append, List.mem_cons, List.not_mem_nil,
      or_false] at hop
    rcases hop with rfl | rfl | rfl <;> exact timersKept_default
  refine ⟨_, rfl, by decide, ?_⟩
  refine (passive_send_idle .server {} { scIrs := 0, scIss := 0, scWnd := 1000 } {} {} _
    [ackSegment 1] [ackSegment 3, ackSegment 6] rfl rfl rfl timersKept_default hkept ?_ ?_ ?_).1.1
  · decide
  · refine ⟨fun _ => ?_, fun _ => ?_, fun _ => ?_, trivial⟩ <;> decide
  · decide

/-- An acknowledgement half the sequence space ahead moves `snd_max` and is then taken for an old
one, and the next acknowledgement starts the retransmission timer with nothing outstanding. -/
theorem passive_send_rearmed :
    (PassiveRole.server.start {} { scIrs := 0, scIss := 0, scWnd := 1000 } {} {}).map (fun c =>
      let c₁ := run TcpResult.step c [ackSegment 1]
      let c₂ := run TcpResult.step c₁ [ackSegment 0x80000001]
      let c₃ := run TcpResult.step c₂ [ackSegment 2]
      ((c₁.tp.tState, c₁.tp.sndUna, c₁.tp.sndMax), (c₂.fate, c₂.tp.sndUna, c₂.tp.sndMax),
        c₃.fate, c₃.tp.soSndCc, c₃.tp.ctl.ttRexmt)) =
      some ((.established, 1, 1), (.live, 1, 0x80000001), .live, 0, true) := by
  decide

end Libuinet
