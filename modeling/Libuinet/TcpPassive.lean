import Libuinet.SendFrame
import Libuinet.Syncache

namespace Libuinet

open Execution SerialArith

/-- A part that may return early. -/
def Tcpcb.Freezes (tp : Tcpcb) : Except TcpResult InputVars → Prop :=
  Outcome (fun r => tp.Frozen r.tp) (fun v => tp.Frozen v.tp)

section Frozen

variable {a b c : Tcpcb}

variable {x : Except TcpResult InputVars}

theorem InputVars.Passes.freezes {v : InputVars} (h : v.Passes x) : v.tp.Freezes x :=
  Outcome.imp h (fun _ hr => hr.1.frozenAck) (fun _ hv => hv.tp.frozenAck)

theorem Tcpcb.Frozen.freezes (h : a.Frozen b) (hx : b.Freezes x) : a.Freezes x :=
  Outcome.imp hx (fun _ => h.trans) (fun _ => h.trans)

theorem Tcpcb.Freezes.bind {f : InputVars → Except TcpResult InputVars} (hx : a.Freezes x)
    (hf : ∀ v : InputVars, v.tp.Freezes (f v)) : a.Freezes (x >>= f) :=
  Outcome.bind hx fun v hv => Tcpcb.Frozen.freezes hv (hf v)

end Frozen

section Parts

variable (e : TcpEnv) (v : InputVars)

theorem trimRight_freezes : v.tp.Freezes (trimRight e v) := by
  unfold trimRight
  dsimp only
  split
  · split
    · exact (dropafterack_keeps e v).frozenAck
    · refine .of_eq ?_ ?_ <;> split_ifs <;> rfl
  · exact .of_eq rfl rfl

theorem tcpReass_none_inpPassive (tp : ReassCb) (ticks : ℕ) (alloc : Option ℕ) :
    (tcpReass tp ticks alloc none).1.inpPassive = tp.inpPassive := by
  refine tcpReassPresent_rule (I := fun tp' => tp'.inpPassive = tp.inpPassive) ?_
    (fun _ _ _ h _ _ => h) rfl ticks false false (fun _ _ _ h => by cases h)
  intro _ _ hs h
  exact hs.inpPassive.trans h

theorem synReceivedAck_frozen : v.tp.Frozen (synReceivedAck e v).tp := by
  unfold synReceivedAck
  dsimp only
  split_ifs
  all_goals first
    | exact .of_eq ((tcpReass_none_inpPassive _ e.ticks e.umaZalloc).trans rfl) rfl
    | exact .of_eq rfl rfl

theorem ackInput_freezes : v.tp.Freezes (ackInput e v) := by
  by_cases hs : v.tp.tState = .synReceived
  · unfold ackInput
    split
    · split_ifs
      · exact .of_eq rfl rfl
      · exact (dropafterack_keeps e v).frozenAck
      · exact .of_eq rfl rfl
    · rw [hs]
      exact (synReceivedAck_frozen e v).freezes (establishedAck_passes e _).freezes
  · exact (ackInput_passes e v hs).freezes

theorem urgInput_freezes : v.tp.Freezes (urgInput e v) := by
  have hsends : Outcome (fun r => v.tp.SameSend True r.tp) (fun v' => v.tp.SameSend True v'.tp)
    (urgInput e v) := urgInput_sends e v
  exact hsends.imp (fun _ hr => hr.toFrozen) fun _ hv => hv.toFrozen

theorem synSentInput_freezes : v.tp.Freezes (synSentInput e v) := by
  have hack : ∀ v : InputVars, v.tp.Frozen (synSentAck e v).tp := by
    intro v
    unfold synSentAck
    dsimp only
    refine .of_eq ?_ ?_ <;> split_ifs <;> rfl
  have htrim (v : InputVars) : v.tp.Frozen (synSentTrim v).tp :=
    (synSentTrim_sameAck v : v.SameAck True _).tp.toFrozen
  unfold synSentInput
  dsimp only
  split
  · exact .of_eq rfl rfl
  · split
    · split <;> exact .of_eq rfl rfl
    · split
      · exact .of_eq rfl rfl
      · refine .trans ?_ (htrim _)
        split
        · refine .trans ?_ (hack _)
          exact .of_eq rfl rfl
        · exact .of_eq rfl rfl

theorem inputEntry_frozen (tp : Tcpcb) (p : TcpPkt) : tp.Frozen (inputEntry e tp p).tp := by
  have hopt : ∀ (tp : Tcpcb) th opt, tp.Frozen (synSentOptions e tp th opt) := by
    intro tp th opt
    unfold synSentOptions tcpMss
    dsimp only
    refine .of_eq ?_ ?_ <;> split_ifs <;> rfl
  have hecn := (ecnInput_sameRecvAll e tp p).frozenAck
  unfold inputEntry
  dsimp only
  split
  · exact hecn.trans (hopt _ _ _)
  · exact hecn

theorem headerPrediction_freezes (h : v.thflags = v.th.thFlags) :
    v.tp.Freezes (headerPrediction e v) := by
  refine (headerPrediction_spec e v h).imp ?_ fun _ hv => hv.2.frozenAck
  rintro r (hr | hr)
  · exact hr.1.frozenAck
  · obtain ⟨sb, -, hkeep⟩ := hr.result
    refine hkeep.frozenAck.after ?_ rfl
    rw [Tcpcb.appended, acceptInOrder, ReassCb.sbappendOrFree_eq]
    rfl

theorem toDodata_freezes (tp : Tcpcb) (p : TcpPkt) : tp.Freezes (toDodata e tp p) := by
  refine (inputEntry_frozen e tp p).freezes ?_
  refine (headerPrediction_freezes e (inputEntry e tp p) rfl).bind fun v => ?_
  have hset : v.tp.Frozen (setRcvWnd v).tp := .of_eq rfl rfl
  refine hset.freezes ?_
  unfold inputWindow
  split
  · refine (synSentInput_freezes e _).bind fun v => ?_
    have hrest : ∀ v : InputVars, v.tp.Freezes (urgInput e (step6 v)) := fun v =>
      (step6_keeps v).tp.frozenAck.freezes (urgInput_freezes e _)
    dsimp only
    split
    · exact (processAck_passes e v).freezes.bind hrest
    · exact hrest v
  · refine (synReceivedInput_passes _).freezes.bind fun v => ?_
    refine (rstInput_passes e v).freezes.bind fun v => ?_
    refine (pawsInput_passes e v).freezes.bind fun v => ?_
    refine (synReceivedSeq_passes v).freezes.bind fun v => ?_
    have hleft := (trimLeft_sameAck v : v.SameAck True _).tp.toFrozen
    refine (hleft.freezes (afterClose_passes _).freezes).bind fun v => ?_
    refine (trimRight_freezes e v).bind fun v => ?_
    refine ((updateTsRecent_keeps e v).tp.frozenAck.freezes
      (synInWindow_passes _).freezes).bind fun v => ?_
    refine (ackInput_freezes e v).bind fun v => ?_
    exact (step6_keeps v).tp.frozenAck.freezes (urgInput_freezes e _)

theorem outcome_inpPassive : (v.outcome e).inpPassive = v.tp.inpPassive := by
  unfold InputVars.outcome
  split_ifs <;> exact received_inpPassive e v

theorem finishInput_frozen : v.tp.Frozen (finishInput e v).tp := (finishInput_sameSend e v).toFrozen

/-- Whatever segment is processed. -/
theorem tcpDoSegment_frozen (tp : Tcpcb) (p : TcpPkt) : tp.Frozen (tcpDoSegment e tp p).tp := by
  have h := toDodata_freezes e tp p
  unfold tcpDoSegment
  cases hd : toDodata e tp p with
  | error r =>
    rw [hd] at h
    exact h
  | ok v =>
    rw [hd] at h
    exact Tcpcb.Frozen.trans h (finishInput_frozen e v)

end Parts

theorem TcpResult.step_frozen (c : TcpResult) (op : TcpOp) : c.tp.Frozen (c.step op).tp := by
  by_cases hlive : c.fate = .live
  · cases op with
    | segment e p =>
      rw [step_segment hlive]
      exact tcpDoSegment_frozen e c.tp p
    | timer ticks =>
      rw [step_timer hlive]
      exact .of_eq (fireReassdl_inpPassive _ _) rfl
    | read e n =>
      rw [step_read hlive]
      unfold tcpUsrRcvd
      split
      · exact .of_eq rfl rfl
      · exact (tcpOutput_keeps e _).frozenAck.after rfl rfl
  · rw [step_dead hlive]
    exact .of_eq rfl rfl

/-- Over any run. -/
theorem TcpResult.run_frozen (c : TcpResult) (ops : List TcpOp) :
    c.tp.Frozen (run step c ops).tp := by
  refine run_preserves (I := fun c' : TcpResult => c.tp.Frozen c'.tp) ?_ (.of_eq rfl rfl) ops
  intro s op h
  exact h.trans (s.step_frozen op)

theorem syncacheOptions_frozen (e : TcpEnv) (sc : Syncache) (tp : Tcpcb) (s r : ℕ)
    (t o : BitVec 32) : tp.Frozen (syncacheOptions e sc tp s r t o) := by
  unfold syncacheOptions tcpMss
  dsimp only
  refine .of_eq ?_ ?_ <;> split_ifs <;> rfl

theorem PassiveRole.start_frozen {role : PassiveRole} {e : TcpEnv} {sc : Syncache}
    {lso : ListenSocket} {opt : TcpOpt} {c : TcpResult} (hpas : sc.scfPassive = true)
    (h : role.start e sc lso opt = some c) :
    c.tp.inpPassive = role.inpPassive lso ∧
      (role.inpPassive lso = true → c.tp.lastAckSent = role.lastAckSent sc) := by
  cases role with
  | server =>
    obtain ⟨tp, hserver, rfl⟩ := Option.map_eq_some_iff.mp h
    obtain ⟨tp₀, hnew, rfl⟩ := Option.map_eq_some_iff.mp hserver
    have hinit : (serverSeqinit sc tp₀).inpPassive = true := (sonewconn_fresh hnew).1.trans hpas
    have hopt := syncacheOptions_frozen e sc (serverSeqinit sc tp₀)
    dsimp only
    split_ifs
    · exact ⟨(hopt _ _ _ _).inpPassive.trans hinit, fun _ => (hopt _ _ _ _).lastAckSent hinit⟩
    · exact ⟨(hopt _ _ _ _).inpPassive.trans hinit, fun _ => (hopt _ _ _ _).lastAckSent hinit⟩
  | client =>
    obtain ⟨tp₀, hnew, rfl⟩ := Option.map_eq_some_iff.mp h
    have hinit : (clientSeqinit sc tp₀).inpPassive = lso.soPassive := (sonewconn_fresh hnew).1
    have hseg := fun s r t o => (syncacheOptions_frozen e sc (clientSeqinit sc tp₀) s r t o).trans
      (tcpDoSegment_frozen e _ (syncacheSynthesizeSynack e sc))
    refine ⟨(hseg _ _ _ _).inpPassive.trans hinit, ?_⟩
    intro hlso
    exact ((hseg _ _ _ _).lastAckSent (hinit.trans hlso)).trans (sonewconn_fresh hnew).2

theorem Tcpcb.window_lt (tp : Tcpcb) : tp.window < 2 ^ 31 := by
  have hspace : tp.soRcv.sbspace < 2 ^ 31 :=
    lt_of_le_of_lt (min_le_left _ _) (BitVec.toInt_lt (x := tp.soRcv.sbHiwat - tp.soRcv.sbCc))
  have hadv : (tp.rcvAdv - tp.rcvNxt).toInt < 2 ^ 31 := BitVec.toInt_lt
  unfold window
  omega

/-- The sequence test for a reset, in terms of the distance from
`last_ack_sent`. -/
theorem rstInWindow_iff {v : InputVars} (hw : v.tp.rcvWnd < 2 ^ 31) :
    rstInWindow v = true ↔
      (off v.tp.lastAckSent v.th.thSeq + 1) % 2 ^ 32 ≤ min (v.tp.rcvWnd + 1) (2 ^ 31 - 1) := by
  -- the distance from one before `last_ack_sent`, where the window of the test begins
  generalize hy : off (v.tp.lastAckSent - 1) v.th.thSeq = y
  have hlt : y < 2 ^ 32 := hy ▸ off_lt _ _
  have hoff : (off v.tp.lastAckSent v.th.thSeq + 1) % 2 ^ 32 = y := by
    rw [← hy, off, off]
    have hsub : v.th.thSeq - (v.tp.lastAckSent - 1) = v.th.thSeq - v.tp.lastAckSent + 1 := by ring
    rw [hsub, BitVec.toNat_add]
    rfl
  have hseq : v.th.thSeq = v.tp.lastAckSent - 1 + BitVec.ofInt 32 y := by
    rw [BitVec.ofInt_natCast, ← hy, add_off]
  have hleft : seqGeq v.th.thSeq (v.tp.lastAckSent - 1) = true ↔ y < 2 ^ 31 := by
    rw [seqGeq, decide_eq_true_eq, ← hy, off, BitVec.toInt_eq_toNat_cond]
    split_ifs <;> omega
  have hright : y < 2 ^ 31 →
      (seqLeq v.th.thSeq (v.tp.lastAckSent + BitVec.ofNat 32 v.tp.rcvWnd) = true ↔
        y ≤ v.tp.rcvWnd + 1) := by
    intro hy'
    have hedge : v.tp.lastAckSent + BitVec.ofNat 32 v.tp.rcvWnd =
        v.tp.lastAckSent - 1 + BitVec.ofInt 32 ((v.tp.rcvWnd + 1 : ℕ) : ℤ) := by
      have hone : BitVec.ofNat 32 1 = (1 : TcpSeq) := rfl
      rw [BitVec.ofInt_natCast, BitVec.ofNat_add, hone]
      ring
    rw [seqLeq, decide_eq_true_eq, hseq, hedge, toInt_sub_ofInt (by decide) _ (by omega) (by omega)]
    omega
  rw [hoff, rstInWindow, Bool.and_eq_true, hleft]
  constructor
  · rintro ⟨h, h'⟩
    have := (hright h).mp h'
    omega
  · intro h
    have hy' : y < 2 ^ 31 := by omega
    exact ⟨hy', (hright hy').mpr (by omega)⟩

/-- A reset at `rcv_nxt` ends the connection if and only if it passes the test
against `last_ack_sent`. -/
theorem tcpDoSegment_rst (e : TcpEnv) {tp : Tcpcb} {p : TcpPkt}
    (hst : tp.tState = .established ∨ tp.tState = .closeWait) (hrst : p.th.thFlags.rst = true)
    (hseq : p.th.thSeq = tp.rcvNxt) :
    (tcpDoSegment e tp p).fate = .closed ↔
      (off tp.lastAckSent tp.rcvNxt + 1) % 2 ^ 32 ≤ min (tp.window + 1) (2 ^ 31 - 1) := by
  have hest : tp.tState.haveEstablished = true := by
    rcases hst with h | h <;> rw [h] <;> rfl
  have hent : tp.SameRecvAll (inputEntry e tp p).tp := by
    rw [inputEntry_tp e p hest]
    exact ecnInput_sameRecvAll e tp p
  generalize hv : setRcvWnd (inputEntry e tp p) = v
  have hvr : v.tp.toReassCb = tp.toReassCb := by rw [← hv]; exact hent.reass
  have hva : v.tp.lastAckSent = tp.lastAckSent := by rw [← hv]; exact hent.lastAckSent
  have hvw : v.tp.rcvWnd = tp.window := by rw [← hv]; exact hent.window
  have hth : v.th = p.th := by rw [← hv]; rfl
  have hfl : v.thflags = p.th.thFlags := by rw [← hv]; rfl
  have hgo : toDodata e tp p =
      .error (if rstInWindow v then rstAccepted e v else { tp := v.tp }) := by
    have hpred : predicted (inputEntry e tp p) = false := by
      have hfl₀ : (inputEntry e tp p).thflags.rst = true := hrst
      simp [predicted, hfl₀]
    have hsent : (inputEntry e tp p).tp.tState ≠ .synSent := by
      rw [hent.reass]
      exact TcpState.ne_synSent hest
    have hrcvd : v.tp.tState ≠ .synReceived := by
      rw [hvr]
      rcases hst with h | h <;> rw [h] <;> decide
    have hpass : synReceivedInput v = .ok v := by simp [synReceivedInput, hrcvd]
    have hstop : rstInput e v =
        .error (if rstInWindow v then rstAccepted e v else { tp := v.tp }) := by
      rw [rstInput, if_pos (by rw [hfl]; exact hrst)]
    unfold toDodata headerPrediction inputWindow inputOtherwise
    simp only [hpred, Bool.false_eq_true, if_false]
    change (if (inputEntry e tp p).tp.tState = .synSent then _ else _) = _
    rw [if_neg hsent, hv, hpass]
    change (rstInput e v >>= _) = _
    rw [hstop]
    rfl
  have hacc : (rstAccepted e v).fate = .closed := by
    have hsecure : rstSecure e v = true := by
      have hge : seqGeq v.th.thSeq (v.tp.rcvNxt - 1) = true := by
        rw [hth, hseq, hvr, seqGeq, sub_sub_cancel]
        decide
      have hle : seqLeq v.th.thSeq (v.tp.rcvNxt + 1) = true := by
        rw [hth, hseq, hvr, seqLeq, sub_add_cancel_left]
        decide
      rw [rstSecure, hge, hle, Bool.and_self, Bool.or_true, Bool.true_or]
    unfold rstAccepted
    rw [hvr]
    rcases hst with h | h <;> rw [h]
    · rw [hsecure]
      rfl
    · rfl
  have hiff := rstInWindow_iff (v := v) (by rw [hvw]; exact tp.window_lt)
  rw [hva, hth, hseq, hvw] at hiff
  unfold tcpDoSegment
  rw [hgo, ← hiff]
  dsimp only
  split_ifs with h
  · simp [h, hacc]
  · simp [h]

/-- After any run of an end of a passive connection, a reset at `rcv_nxt` closes
it if and only if `rcv_nxt` has not left the window that begins one before the
`last_ack_sent` the end was set up with.  The client end of a listening socket that
is not passive itself sends acknowledgments, and there `last_ack_sent` is that of
the last of them. -/
theorem passive_rst_closes_iff (role : PassiveRole) (e : TcpEnv) (sc : Syncache)
    (lso : ListenSocket) (opt : TcpOpt) (c₀ : TcpResult) (ops : List TcpOp) (e' : TcpEnv)
    (p : TcpPkt) (hpas : sc.scfPassive = true) (hstart : role.start e sc lso opt = some c₀)
    (hst : (run TcpResult.step c₀ ops).tp.tState = .established ∨
      (run TcpResult.step c₀ ops).tp.tState = .closeWait)
    (hrst : p.th.thFlags.rst = true) (hseq : p.th.thSeq = (run TcpResult.step c₀ ops).tp.rcvNxt) :
    let tp := (run TcpResult.step c₀ ops).tp
    let last := if role.inpPassive lso then role.lastAckSent sc else tp.lastAckSent
    (tcpDoSegment e' tp p).fate = .closed ↔
      (off last tp.rcvNxt + 1) % 2 ^ 32 ≤ min (tp.window + 1) (2 ^ 31 - 1) := by
  intro tp last
  obtain ⟨hp, hl⟩ := PassiveRole.start_frozen hpas hstart
  have hlast : last = tp.lastAckSent := by
    by_cases hmode : role.inpPassive lso = true
    · have hkept := (c₀.run_frozen ops).lastAckSent (hp.trans hmode)
      exact (if_pos hmode).trans (hkept.trans (hl hmode)).symm
    · exact if_neg hmode
  rw [hlast]
  exact tcpDoSegment_rst e' hst hrst hseq

/-- The server end, right after the handshake. -/
theorem passive_rst_closes_server :
    let th : TcpHdr := { thSeq := 1, thAck := 1, thFlags := { ack := true } }
    let ops := [TcpOp.segment {} { th := th, tlen := 0, m := [] }]
    ∃ c, PassiveRole.server.start {} { scIrs := 0, scIss := 0, scWnd := 1000 } {} {} = some c ∧
      (tcpDoSegment {} (run TcpResult.step c ops).tp (.ofBytes 1 { rst := true } [])).fate =
        .closed := by
  intro th ops
  refine ⟨_, rfl, ?_⟩
  refine (passive_rst_closes_iff .server {} { scIrs := 0, scIss := 0, scWnd := 1000 } {} {} _ ops {}
    (.ofBytes 1 { rst := true } []) rfl rfl (Or.inl ?_) rfl ?_).mpr ?_
  · decide
  · decide
  · decide

/-- The client end whose peer chose the initial sequence number 1000000 does not
take a reset, not even right after the handshake. -/
theorem passive_rst_ignored_by_client :
    (PassiveRole.client.start {} { scIrs := 0, scIss := 1000000, scWnd := 1000 } {} {}).map
      (fun c => (c.fate, c.tp.tState, c.tp.rcvNxt,
        (tcpDoSegment {} c.tp (.ofBytes 1000001 { rst := true } [])).fate)) =
      some (.live, .established, 1000001, .live) := by
  decide

end Libuinet
