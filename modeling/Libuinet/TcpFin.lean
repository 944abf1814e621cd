import Libuinet.ReassFin
import Libuinet.TcpConn

namespace Libuinet

open Execution SerialArith

/-- The FIN of the segment lies in the window, and the segment reaches the socket
or the queue. -/
def acceptsFin (e : TcpEnv) (tp : Tcpcb) (p : TcpPkt) : Bool :=
  match toDodata e tp p with
  | .error _ => false
  | .ok v => p.th.thFlags.fin &&
      decide (off tp.rcvNxt (p.th.thSeq + BitVec.ofNat 32 p.tlen) ≤ tp.window) &&
      (v.inOrder || !shortOfResources v.tp.toReassCb e.umaZalloc v.segment || v.tp.inpPassive)

structure FinRun where
  conn : TcpResult
  accepted : Bool := false

def TcpOp.acceptsFin (tp : Tcpcb) : TcpOp → Bool
  | .segment e p => Libuinet.acceptsFin e tp p
  | _ => false

def FinRun.step (s : FinRun) (op : TcpOp) : FinRun where
  conn := s.conn.step op
  accepted := s.accepted || (s.conn.fate == .live && op.acceptsFin s.conn.tp)

def ReassCb.position (tp : ReassCb) : ℕ :=
  tp.out.length + if tp.soRcv.sbCantrcvmore then 1 else 0

/-- The packet is the part of the stream that begins `o` behind `r₀`. -/
structure TcpPkt.PartOf (p : TcpPkt) (r₀ : TcpSeq) (f o : ℕ) (tp : Tcpcb) : Prop where
  seq : p.th.thSeq = r₀ + BitVec.ofNat 32 o
  upto : o + p.tlen ≤ f
  atFin : p.th.thFlags.fin = true → o + p.tlen = f
  near : p.Near tp (o - tp.position)
  data : .missing ∉ p.data

/-- The FIN of the packet is not separated from its data by the window, and
neither this nor an earlier packet takes the place of the FIN in the queue. -/
structure TcpPkt.FinSafe (p : TcpPkt) (f o : ℕ) (tp : Tcpcb) : Prop where
  whole : p.th.thFlags.fin = true →
    f ≤ tp.out.length + tp.window ∨ tp.out.length + tp.window ≤ max o tp.out.length
  queue : tp.FinSafe (f - tp.out.length) (max o tp.out.length - tp.out.length)
    (min (o + p.tlen - tp.out.length) tp.window) p.th.thFlags.fin

/-- The condition on one step: packets are parts of the stream and safe for the
FIN, and holes are delivered on passive connections only. -/
def FinRun.Ok (r₀ : TcpSeq) (f : ℕ) (s : FinRun) (op : TcpOp) : Prop :=
  s.conn.fate = .live → match op with
    | .segment _ p => ∃ o, p.PartOf r₀ f o s.conn.tp ∧ p.FinSafe f o s.conn.tp
    | .timer ticks => s.conn.tp.inpPassive = true ∨ NoneExpired s.conn.tp.toReassCb ticks
    | .read _ _ => True

theorem Tcpcb.SameRecv.sameStream {a b : Tcpcb} (h : a.SameRecv b) :
    a.toReassCb.SameStream b.toReassCb := by
  refine ⟨by rw [h.reass], ?_, by rw [h.reass], by rw [h.reass]⟩
  rw [h.reass]
  rfl

theorem ReassCb.FinSafe.congr {tp tp' : ReassCb} {left first last : ℕ} {fin : Bool}
    (hn : tp'.rcvNxt = tp.rcvNxt) (hq : tp'.tSegq = tp.tSegq)
    (h : tp.FinSafe left first last fin) : tp'.FinSafe left first last fin := by
  have hf : tp'.FinQueued ↔ tp.FinQueued := by
    rw [ReassCb.FinQueued, ReassCb.FinQueued, segments, segments, hq]
  refine ⟨?_, ?_⟩
  · rw [hf, hn, hq]
    exact h.covered
  · rw [hf, hn, hq]
    exact h.covering

section Segment

variable {r₀ : TcpSeq} {f o : ℕ} {had : Prop} {tp : Tcpcb} {p : TcpPkt} {v : InputVars}

theorem AwaitingFin.position {tp : ReassCb} (h : AwaitingFin r₀ f tp) :
    tp.position = tp.out.length := by
  simp [ReassCb.position, h.opened]

theorem FinActedOn.position {tp : ReassCb} (h : FinActedOn r₀ f tp) : tp.position = f + 1 := by
  simp [ReassCb.position, h.closed, h.out]

/-- In-order data moves the stream on. -/
theorem AwaitingFin.acceptInOrder {tp : ReassCb} {th : Segment} (h : AwaitingFin r₀ f tp)
    (hq : tp.tSegq = []) (hlen : chainLen th.m = th.tlen)
    (hle : th.tlen ≤ f - tp.out.length) :
    AwaitingFin r₀ f (acceptInOrder tp th) ∧
      (acceptInOrder tp th).out.length = tp.out.length + th.tlen ∧
      (acceptInOrder tp th).tSegq = [] := by
  have hnil : FinQueue (tp.rcvNxt + BitVec.ofNat 32 th.tlen) (f - tp.out.length - th.tlen)
      tp.tSegq := by
    rw [hq]
    exact ⟨inWindow_nil _ _, by simp⟩
  have hdel := h.deliver th.m tp.tSegq (by omega) (by rw [hlen]; exact hnil)
  rw [hlen] at hdel
  rw [Libuinet.acceptInOrder, ReassCb.sbappendOrFree_eq]
  refine ⟨hdel, ?_, hq⟩
  change (tp.appendAll [th.m]).out.length = _
  rw [ReassCb.out_appendAll h.opened, List.length_append, chainView_length, hlen]

structure InputVars.Handed (v : InputVars) (tp : Tcpcb) (p : TcpPkt) (f o : ℕ) : Prop where
  first : off tp.rcvNxt v.segment.thSeq = max o tp.out.length - tp.out.length
  last : off tp.rcvNxt v.segment.thSeq + v.segment.tlen =
    min (o + p.tlen - tp.out.length) tp.window
  fin : v.segment.thFin = p.th.thFlags.fin
  whole : p.th.thFlags.fin = true → f ≤ tp.out.length + tp.window
  stream : v.segment.InStream tp.rcvNxt (f - tp.out.length)

theorem InputVars.off_segment (v : InputVars) {r : TcpSeq} {s : ℕ}
    (hseq : v.th.thSeq = r + BitVec.ofNat 32 s) (hs : s < 2 ^ 32) :
    off r v.segment.thSeq = s := by
  change off r v.th.thSeq = s
  rw [hseq, off_add _ _ _ (by rw [off_self]; omega), off_self, Nat.zero_add]

theorem InputVars.Reached.handed (h : AwaitingFin r₀ f tp.toReassCb) (hp : p.PartOf r₀ f o tp)
    (hs : p.FinSafe f o tp) (hr : v.Reached tp p (o - tp.position)) (hd : v.hasData = true) :
    v.Handed tp p f o := by
  have hnear := hp.near
  rw [h.position] at hr hnear
  have hlen := hnear.data_length
  have hhi := hnear.upper
  have hwnd := hnear.wnd
  have hupto := hp.upto
  have hle := h.le
  have hsome : v.tlen ≠ 0 ∨ v.thflags.fin = true := by
    simp only [hasData, Bool.and_eq_true, Bool.or_eq_true, bne_iff_ne] at hd
    exact hd.1
  obtain ⟨ht, hf, -⟩ | ⟨s, hmax, hseq, hend, hpay, hf⟩ := hr.trimmed
  · simp [ht, hf] at hsome
  rw [hr.keeps.rcvNxt] at hseq
  rw [hlen] at hend hf
  have hwhole : p.th.thFlags.fin = true → f ≤ tp.out.length + tp.window := by
    intro hfin
    have hat := hp.atFin hfin
    rcases hs.whole hfin with hin | hout
    · exact hin
    · -- the window ends before the segment: its FIN must not be left alone
      have h0 : v.tlen = 0 := by omega
      have hfin' := hsome.resolve_left (not_not.mpr h0)
      rw [hf, Bool.and_eq_true, decide_eq_true_eq] at hfin'
      omega
  have hoff : off tp.rcvNxt v.segment.thSeq = s := v.off_segment hseq (by omega)
  have hfirst : s = max o tp.out.length - tp.out.length := by omega
  have hlast : s + v.tlen = min (o + p.tlen - tp.out.length) tp.window := by omega
  have htl : v.segment.tlen = v.tlen := rfl
  have hfin : v.segment.thFin = p.th.thFlags.fin := by
    change v.th.thFlags.fin = _
    rw [hr.thFlags]
  refine ⟨by rw [hoff, hfirst], by rw [hoff, htl, hlast], hfin, hwhole, ⟨?_, ?_, ?_, ?_, ?_⟩⟩
  · rw [hoff, htl, maxWindow]
    omega
  · rw [hoff, htl]
    omega
  · intro hf'
    rw [hfin] at hf'
    have hat := hp.atFin hf'
    have := hwhole hf'
    rw [hoff, htl]
    omega
  · intro h0
    have hfin' := hsome.resolve_left (not_not.mpr h0)
    rw [hf, Bool.and_eq_true] at hfin'
    rw [hfin]
    exact hfin'.1
  · rw [← chainView_length, v.segment_view, hpay, List.length_take, List.length_drop, hlen, htl]
    omega

/-- The FIN of a segment that leaves nothing to hand on is not in the window. -/
theorem acceptsFin_noData {d : ℤ} {e : TcpEnv} (hgo : toDodata e tp p = .ok v)
    (hnear : p.Near tp d) (hr : v.Reached tp p d) (hst : v.tp.tState ≠ .timeWait)
    (hd : v.hasData = false) : acceptsFin e tp p = false := by
  have hnone : v.tlen = 0 ∧ v.thflags.fin = false := by
    simpa [InputVars.hasData, TcpState.haveRcvdFin, hst] using hd
  have hlo := hnear.lower
  have hhi := hnear.upper
  have hw := hnear.wnd
  have hout : p.th.thFlags.fin = true → d + p.tlen < 0 ∨ tp.window < d + p.tlen := by
    intro hfin
    obtain ⟨-, -, h⟩ | ⟨s, -, -, -, -, hf⟩ := hr.trimmed
    · rw [hnear.data_length] at h
      exact h hfin
    · rw [hnone.2, hfin, hnear.data_length, Bool.true_and] at hf
      have := of_decide_eq_false hf.symm
      omega
  unfold acceptsFin
  rw [hgo]
  by_cases hfin : p.th.thFlags.fin = true
  · have hoff : ¬ off tp.rcvNxt (p.th.thSeq + BitVec.ofNat 32 p.tlen) ≤ tp.window := by
      rw [hnear.seq, ← BitVec.ofInt_natCast, add_assoc, ← BitVec.ofInt_add, off_add_ofInt]
      rcases hout hfin with h | h
      all_goals omega
    simp [hoff]
  · simp [hfin]

/-- A segment that is handed on has its FIN accepted unless it is refused. -/
theorem acceptsFin_handed {e : TcpEnv} (h : AwaitingFin r₀ f tp.toReassCb)
    (hp : p.PartOf r₀ f o tp) (hgo : toDodata e tp p = .ok v) (hh : v.Handed tp p f o) :
    acceptsFin e tp p = true ↔ v.segment.thFin = true ∧ (v.inOrder = true ∨
      (shortOfResources v.tp.toReassCb e.umaZalloc v.segment = true → v.tp.inpPassive = true)) := by
  have hnear := hp.near
  rw [h.position] at hnear
  have hhi := hnear.upper
  have hle := h.le
  have hoff : p.th.thFlags.fin = true →
      off tp.rcvNxt (p.th.thSeq + BitVec.ofNat 32 p.tlen) ≤ tp.window := by
    intro hfin
    have hat := hp.atFin hfin
    have hwhole := hh.whole hfin
    rw [hnear.seq, ← BitVec.ofInt_natCast, add_assoc, ← BitVec.ofInt_add, off_add_ofInt]
    omega
  unfold acceptsFin
  rw [hgo, hh.fin]
  simp only [Bool.and_eq_true, Bool.or_eq_true, Bool.not_eq_true', decide_eq_true_eq]
  constructor
  · rintro ⟨⟨hfin, -⟩, hor⟩
    refine ⟨hfin, ?_⟩
    rcases hor with (hin | hroom) | hpas
    · exact Or.inl hin
    · exact Or.inr fun hshort => by rw [hroom] at hshort; cases hshort
    · exact Or.inr fun _ => hpas
  · rintro ⟨hfin, hor⟩
    refine ⟨⟨hfin, hoff hfin⟩, ?_⟩
    rcases hor with hin | hpas
    · exact Or.inl (Or.inl hin)
    · by_cases hshort : shortOfResources v.tp.toReassCb e.umaZalloc v.segment = true
      · exact Or.inr (hpas hshort)
      · exact Or.inl (Or.inr (Bool.eq_false_iff.mpr hshort))

/-- In-order data, and the FIN behind it. -/
theorem finPhase_inOrder {tp : ReassCb} {th : Segment} {had' : Prop} (h : AwaitingFin r₀ f tp)
    (hq : had ↔ tp.FinQueued) (hnil : tp.tSegq = []) (hlen : chainLen th.m = th.tlen)
    (hle : th.tlen ≤ f - tp.out.length) (hat : th.thFin = true → th.tlen = f - tp.out.length)
    (hhad : had' ↔ had ∨ th.thFin = true) :
    FinPhase r₀ f had' (if th.thFin then (acceptInOrder tp th).actOnFin
      else acceptInOrder tp th) := by
  obtain ⟨hacc, hout, hqueue⟩ := h.acceptInOrder hnil hlen hle
  cases hf : th.thFin with
  | true =>
    have hle := h.le
    have hend := hat hf
    exact Or.inr ⟨hhad.mpr (Or.inr hf), hacc.actOnFin (by omega)⟩
  | false =>
    refine Or.inl ⟨hacc, ReassCb.settled_nil hqueue, ?_⟩
    simp [hhad, hq, hf, ReassCb.FinQueued, ReassCb.segments, hnil, hqueue]

variable (e : TcpEnv)

/-- What `dodata` makes of a segment that is handed on. -/
theorem finPhase_outcome (hst : v.tp.tState.Receiving) (h : AwaitingFin r₀ f v.tp.toReassCb)
    (hset : v.tp.toReassCb.Settled) (hq : had ↔ v.tp.toReassCb.FinQueued) (hd : v.hasData = true)
    (hth : v.segment.InStream v.tp.rcvNxt (f - v.tp.toReassCb.out.length))
    (hsafe : v.tp.toReassCb.FinSafe (f - v.tp.toReassCb.out.length)
      (off v.tp.rcvNxt v.segment.thSeq) (off v.tp.rcvNxt v.segment.thSeq + v.segment.tlen)
      v.segment.thFin) :
    FinPhase r₀ f (had ∨ v.segment.thFin = true ∧ (v.inOrder = true ∨
      (shortOfResources v.tp.toReassCb e.umaZalloc v.segment = true → v.tp.inpPassive = true)))
      (v.outcome e) := by
  cases hin : v.inOrder with
  | true =>
    have hplace : v.segment.thSeq = v.tp.rcvNxt ∧ v.tp.tSegq = [] := by
      simp only [InputVars.inOrder, Bool.and_eq_true, beq_iff_eq, List.isEmpty_iff] at hin
      exact hin.1
    have hupto := hth.upto
    have hat := hth.atFin
    rw [hplace.1, off_self, Nat.zero_add] at hupto hat
    have houtcome : v.outcome e = if v.segment.thFin then
        (acceptInOrder v.tp.toReassCb v.segment).actOnFin
        else acceptInOrder v.tp.toReassCb v.segment := by
      simp [InputVars.outcome, InputVars.received, hd, hin]
    rw [houtcome]
    exact finPhase_inOrder h hq hplace.2 hth.len hupto hat (by simp)
  | false =>
    have houtcome : v.outcome e =
        if (tcpReass v.tp.toReassCb e.ticks e.umaZalloc (some v.segment)).2.1 then
          (tcpReass v.tp.toReassCb e.ticks e.umaZalloc (some v.segment)).1.actOnFin
        else (tcpReass v.tp.toReassCb e.ticks e.umaZalloc (some v.segment)).1 := by
      simp [InputVars.outcome, InputVars.received, hd, hin]
    rw [houtcome]
    simp only [Bool.false_eq_true, false_or]
    exact h.tcpReass e.ticks e.umaZalloc hst.1 hset hq hth hsafe

theorem outcome_noData (hd : v.hasData = false) : v.outcome e = v.tp.toReassCb := by
  simp [InputVars.outcome, InputVars.received, hd]

/-- What `dodata` makes of a segment of the stream. -/
theorem finPhase_received (hst : tp.tState.Receiving) (h : AwaitingFin r₀ f tp.toReassCb)
    (hset : tp.toReassCb.Settled) (hq : had ↔ tp.toReassCb.FinQueued) (hp : p.PartOf r₀ f o tp)
    (hs : p.FinSafe f o tp) (hgo : toDodata e tp p = .ok v)
    (hr : v.Reached tp p (o - tp.position)) :
    FinPhase r₀ f (had ∨ acceptsFin e tp p = true) (v.outcome e) := by
  have hsame : tp.toReassCb.SameStream v.tp.toReassCb := hr.keeps.sameStream
  have hstv : v.tp.tState.Receiving := hr.keeps.state.receiving hst
  have hv : AwaitingFin r₀ f v.tp.toReassCb := h.congr hsame
  have hqv : had ↔ v.tp.toReassCb.FinQueued := by rw [hsame.finQueued, hq]
  cases hd : v.hasData with
  | false =>
    rw [outcome_noData e hd, acceptsFin_noData hgo hp.near hr hstv.2 hd]
    exact Or.inl ⟨hv, hset.congr hsame, by simpa using hqv⟩
  | true =>
    have hh := hr.handed h hp hs hd
    have hsafe := hs.queue
    rw [← hh.first, ← hh.last, ← hh.fin] at hsafe
    rw [acceptsFin_handed h hp hgo hh]
    refine finPhase_outcome e hstv hv (hset.congr hsame) hqv hd ?_ ?_
    · rw [hsame.rcvNxt, hsame.out]
      exact hh.stream
    · rw [hsame.rcvNxt, hsame.out]
      exact hsafe.congr hsame.rcvNxt (by rw [hr.keeps.reass]; rfl)

/-- Behind the FIN, a segment of the stream has nothing new. -/
theorem acted_noData (h : FinActedOn r₀ f tp.toReassCb) (hp : p.PartOf r₀ f o tp)
    (hr : v.Reached tp p (o - tp.position)) : v.hasData = false := by
  have hupto := hp.upto
  obtain ⟨ht, hf, -⟩ | ⟨s, hmax, -, hend, -, -⟩ := hr.trimmed
  · simp [InputVars.hasData, ht, hf]
  · rw [h.position] at hmax hend
    rw [hp.near.data_length] at hend
    omega

section

variable {e : TcpEnv} {r : TcpResult}

theorem acceptsFin_error (h : toDodata e tp p = .error r) : acceptsFin e tp p = false := by
  unfold acceptsFin
  rw [h]

/-- A segment taken on the fast path. -/
theorem finPhase_fast (h : AwaitingFin r₀ f tp.toReassCb) (hq : had ↔ tp.toReassCb.FinQueued)
    (hlen : chainLen p.m = p.dropHdrlen + p.tlen) (hle : p.tlen ≤ f - tp.toReassCb.out.length)
    (hr : tp.AcceptsFast e p.segment r) : FinPhase r₀ f had r.tp.toReassCb := by
  obtain ⟨sb, hsb, hkeep⟩ := hr.result
  refine FinPhase.congr hkeep.sameStream ?_
  have hresized : tp.toReassCb.SameStream { tp.toReassCb with soRcv := sb } := by
    refine ⟨rfl, rfl, rfl, ?_⟩
    rcases hsb with rfl | ⟨-, mbmax, lowat, rfl⟩ <;> rfl
  have hdata : chainLen p.segment.m = p.segment.tlen := by
    change chainLen (mAdj p.m p.dropHdrlen) = p.tlen
    rw [← chainView_length, chainView_mAdj_head, List.length_drop, chainView_length, hlen]
    omega
  have hin : FinPhase r₀ f had _ := finPhase_inOrder (h.congr hresized) hq hr.queue hdata hle
    (by simp [hr.noFin]) (by simp [hr.noFin])
  rw [hr.noFin] at hin
  exact hin

/-- The segment of the fast path begins at `rcv_nxt`. -/
theorem fast_position {d : ℤ} (hnear : p.Near tp d) (hr : tp.AcceptsFast e p.segment r) :
    d = 0 := by
  have hlo := hnear.lower
  have hhi := hnear.upper
  have hoff := off_add_ofInt tp.rcvNxt d
  have hseq : p.th.thSeq = tp.rcvNxt := hr.seq
  rw [← hnear.seq, hseq, off_self] at hoff
  omega

end

/-- While it is alive, the connection goes on receiving. -/
theorem tcpDoSegment_receiving {d : ℤ} (hst : tp.tState.Receiving) (hp : p.Near tp d)
    (hlive : (tcpDoSegment e tp p).fate = .live) : (tcpDoSegment e tp p).tp.tState.Receiving := by
  obtain ⟨-, ⟨w, hdrop⟩ | hfast⟩ | ⟨v, -, hr, hres⟩ := tcpDoSegment_cases e hst.1 hp
  · exact (hdrop.2 hlive).receiving hst
  · obtain ⟨sb, -, hkeep⟩ := hfast.result
    refine hkeep.state.receiving ?_
    rw [Tcpcb.appended, acceptInOrder, ReassCb.sbappendOrFree_eq]
    exact hst
  · obtain ⟨hstv, hkeep⟩ := hr.finish e hst
    rw [hres]
    exact hkeep.state.receiving (InputVars.outcome_receiving e hstv)

theorem finPhase_tcpDoSegment (hst : tp.tState.Receiving) (h : FinPhase r₀ f had tp.toReassCb)
    (hp : p.PartOf r₀ f o tp) (hs : p.FinSafe f o tp) :
    FinPhase r₀ f (had ∨ acceptsFin e tp p = true) (tcpDoSegment e tp p).tp.toReassCb := by
  obtain ⟨herr, ⟨w, hdrop⟩ | hfast⟩ | ⟨v, hgo, hr, hres⟩ := tcpDoSegment_cases e hst.1 hp.near
  · rw [acceptsFin_error herr]
    simp only [Bool.false_eq_true, or_false]
    exact h.congr hdrop.1.sameStream
  · rw [acceptsFin_error herr]
    simp only [Bool.false_eq_true, or_false]
    have hpos := fast_position hp.near hfast
    have hupto := hp.upto
    rcases h with ⟨h, -, hq⟩ | ⟨-, h⟩
    · rw [h.position] at hpos
      exact finPhase_fast h hq hp.near.len (by omega) hfast
    · rw [h.position] at hpos
      omega
  · obtain ⟨hstv, hkeep⟩ := hr.finish e hst
    rw [hres]
    refine FinPhase.congr hkeep.sameStream ?_
    rcases h with ⟨h, hset, hq⟩ | ⟨hhad, h⟩
    · exact finPhase_received e hst h hset hq hp hs hgo hr
    · have hd := acted_noData h hp hr
      rw [outcome_noData e hd]
      exact Or.inr ⟨Or.inl hhad, h.congr hr.keeps.sameStream⟩

end Segment

def ReassCb.ActiveData (tp : ReassCb) : Prop :=
  tp.inpPassive = false → (∀ th ∈ tp.segments, .missing ∉ chainView th.m) ∧ .missing ∉ tp.out

namespace ReassCb.ActiveData

variable {tp tp' : ReassCb}

theorem congr (hs : tp.SameStream tp') (hp : tp'.inpPassive = tp.inpPassive) (h : tp.ActiveData) :
    tp'.ActiveData := by
  rw [ActiveData, hs.segments, hs.out, hp]
  exact h

theorem deliver (h : tp.ActiveData) {ms : List Mbuf} (hms : .missing ∉ chainView ms)
    {l : List TsegQent} (hl : ∀ q ∈ l, q ∈ tp.tSegq) (nxt : TcpSeq) :
    ReassCb.ActiveData { tp.appendAll [ms] with rcvNxt := nxt, tSegq := l } := by
  intro hp
  obtain ⟨hq, hout⟩ := h hp
  refine ⟨?_, ?_⟩
  · intro th hth
    obtain ⟨q, hq', rfl⟩ := List.mem_map.mp hth
    exact hq _ (List.mem_map_of_mem (hl q hq'))
  · change .missing ∉ (tp.appendAll [ms]).out
    by_cases hc : tp.soRcv.sbCantrcvmore = true
    · have hsame : tp.appendAll [ms] = tp := by simp [appendAll, hc]
      rwa [hsame]
    · rw [out_appendAll (by simpa using hc), List.mem_append, not_or]
      exact ⟨hout, hms⟩

theorem popEntry {q : TsegQent} {rest : List TsegQent} (h : tp.ActiveData)
    (hq : tp.tSegq = q :: rest) : (tp.popEntry q rest).ActiveData := by
  intro hp
  have hms : .missing ∉ chainView q.tqeM := (h hp).1 q.segment (by simp [segments, hq])
  exact h.deliver hms (by simp +contextual [hq]) _ hp

theorem queueSegment {th th' : Segment} (ticks : ℕ) (alloc : Option ℕ) (h : tp.ActiveData)
    (hth : .missing ∉ chainView th.m)
    (htrim : trimByPredecessor (splitQueue tp th).1.getLast? th = some th') :
    (queueSegment tp ticks alloc th th').ActiveData := by
  have hpas : (Libuinet.queueSegment tp ticks alloc th th').inpPassive = tp.inpPassive := by
    rw [queueSegment_eq]
  have hhanded : (Libuinet.queueSegment tp ticks alloc th th').handed = tp.handed := by
    rw [queueSegment_eq]
  intro hp
  obtain ⟨hq, hout⟩ := h (hpas ▸ hp)
  refine ⟨queueSegment_forall (P := fun th => .missing ∉ chainView th.m) ?_ ticks alloc hq hth
    htrim, by rwa [out, hhanded]⟩
  intro a b i hab ha
  rw [hab.data]
  split_ifs
  · exact ha
  · rw [chainView_mAdj_head]
    exact fun hm => ha (List.mem_of_mem_drop hm)

theorem tcpReass {th : Segment} (ticks : ℕ) (alloc : Option ℕ) (h : tp.ActiveData)
    (hth : .missing ∉ chainView th.m) : (tcpReass tp ticks alloc (some th)).1.ActiveData :=
  tcpReass_rule (fun _ _ hs h => h.congr hs.sameStream hs.inpPassive)
    (fun _ _ _ h hq _ => h.popEntry hq)
    (fun _ _ _ _ _ hp hact => absurd (hp.symm.trans hact) (by decide)) h ticks alloc th
    fun _ htrim => h.queueSegment ticks alloc hth htrim

theorem acceptInOrder {th : Segment} (h : tp.ActiveData) (hth : .missing ∉ chainView th.m) :
    (acceptInOrder tp th).ActiveData := by
  rw [Libuinet.acceptInOrder, sbappendOrFree_eq]
  exact h.deliver hth (fun _ => id) _

end ReassCb.ActiveData

theorem activeData_outcome (e : TcpEnv) {v : InputVars} (h : v.tp.toReassCb.ActiveData)
    (hms : v.hasData = true → .missing ∉ chainView v.segment.m) : (v.outcome e).ActiveData := by
  have hr : (v.received e).1.ActiveData := by
    unfold InputVars.received
    split_ifs with hd
    · exact h.acceptInOrder (hms hd)
    · exact h.tcpReass _ _ (hms hd)
    · exact h
  unfold InputVars.outcome
  split_ifs
  · exact hr
  · exact hr

theorem activeData_tcpDoSegment (e : TcpEnv) {tp : Tcpcb} {p : TcpPkt} {d : ℤ}
    (hst : tp.tState.Receiving) (hp : p.Near tp d) (hdata : .missing ∉ p.data)
    (h : tp.toReassCb.ActiveData) : (tcpDoSegment e tp p).tp.toReassCb.ActiveData := by
  obtain ⟨-, ⟨w, hdrop⟩ | hfast⟩ | ⟨v, -, hr, hres⟩ := tcpDoSegment_cases e hst.1 hp
  · exact h.congr hdrop.1.sameStream hdrop.1.inpPassive
  · obtain ⟨sb, -, hkeep⟩ := hfast.result
    refine ReassCb.ActiveData.congr hkeep.sameStream hkeep.inpPassive ?_
    have hsb : ReassCb.ActiveData { tp.toReassCb with soRcv := sb } := h
    refine hsb.acceptInOrder ?_
    rw [TcpPkt.segment, chainView_mAdj_head]
    exact hdata
  · obtain ⟨hstv, hkeep⟩ := hr.finish e hst
    rw [hres]
    refine ReassCb.ActiveData.congr hkeep.sameStream hkeep.inpPassive ?_
    refine activeData_outcome e (h.congr hr.keeps.sameStream hr.keeps.inpPassive) fun hd => ?_
    rw [v.segment_view]
    obtain ⟨ht, hf, -⟩ | ⟨s, -, -, -, hpay, -⟩ := hr.trimmed
    · simp [InputVars.hasData, ht, hf] at hd
    · rw [hpay]
      exact fun hm => hdata (List.mem_of_mem_drop (List.mem_of_mem_take hm))

structure FinInv (r₀ : TcpSeq) (f : ℕ) (s : FinRun) : Prop where
  phase : FinPhase r₀ f (s.accepted = true) s.conn.tp.toReassCb
  data : s.conn.tp.toReassCb.ActiveData
  receiving : s.conn.fate = .live → s.conn.tp.tState.Receiving

theorem fireReassdl_finPhase {r₀ : TcpSeq} {f : ℕ} {had : Prop} {tp : ReassCb} (ticks : ℕ)
    (h : FinPhase r₀ f had tp) : FinPhase r₀ f had (tp.fireReassdl ticks) := by
  obtain hs | ⟨c, hc⟩ := fireReassdl_cases tp ticks
  · exact h.congr hs.sameStream
  · rw [hc]
    exact (h.congr (ReassCb.SameData.timer tp c).sameStream).tcpReassDeliverHoles ticks

theorem fireReassdl_activeData {tp : ReassCb} (ticks : ℕ) (h : tp.ActiveData)
    (ht : tp.inpPassive = true ∨ NoneExpired tp ticks) : (tp.fireReassdl ticks).ActiveData := by
  rcases ht with hpas | hnone
  · intro hact
    rw [fireReassdl_inpPassive, hpas] at hact
    cases hact
  · obtain hs | ⟨c, hc⟩ := fireReassdl_cases tp ticks
    · exact h.congr hs.sameStream hs.inpPassive
    · have hnone' : NoneExpired { tp with ttReassdl := c } ticks := hnone
      rw [hc, tcpReassDeliverHoles_of_noneExpired hnone']
      exact h

/-- A read changes nothing but the buffer. -/
theorem tcpUsrRcvd_sameStream (e : TcpEnv) (tp : Tcpcb) (n : ℕ) :
    tp.toReassCb.SameStream (tcpUsrRcvd e tp n).tp.toReassCb ∧
      (tcpUsrRcvd e tp n).tp.inpPassive = tp.inpPassive ∧
      StateKept tp.tState (tcpUsrRcvd e tp n).tp.tState := by
  unfold tcpUsrRcvd
  cases hd : sbdropLocked tp.soRcv n with
  | none => exact ⟨⟨rfl, rfl, rfl, rfl⟩, rfl, Or.inl rfl⟩
  | some sb =>
    obtain ⟨-, -, -, hlim⟩ := sbdropLocked_spec hd
    have hout := tcpOutput_keeps e { tp with soRcv := sb }
    have hs := hout.sameStream
    have hmore : sb.sbCantrcvmore = tp.soRcv.sbCantrcvmore := by rw [hlim]
    exact ⟨{ hs with sbCantrcvmore := hs.sbCantrcvmore.trans hmore }, hout.inpPassive,
      hout.state⟩

theorem finInv_step {r₀ : TcpSeq} {f : ℕ} (s : FinRun) (op : TcpOp) (h : FinInv r₀ f s)
    (hop : s.Ok r₀ f op) : FinInv r₀ f (s.step op) := by
  obtain ⟨c, acc⟩ := s
  by_cases hlive : c.fate = .live
  · have hst := h.receiving hlive
    have hok := hop hlive
    have hstep : (⟨c, acc⟩ : FinRun).step op = ⟨c.step op, acc || op.acceptsFin c.tp⟩ := by
      rw [FinRun.step, beq_iff_eq.mpr hlive, Bool.true_and]
    rw [hstep]
    cases op with
    | segment e p =>
      obtain ⟨o, hp, hs⟩ := hok
      rw [TcpResult.step_segment hlive]
      refine ⟨?_, activeData_tcpDoSegment e hst hp.near hp.data h.data,
        tcpDoSegment_receiving e hst hp.near⟩
      rw [Bool.or_eq_true]
      exact finPhase_tcpDoSegment e hst h.phase hp hs
    | timer ticks =>
      have hnone : (acc || TcpOp.acceptsFin c.tp (.timer ticks)) = acc := Bool.or_false acc
      rw [TcpResult.step_timer hlive, hnone]
      exact ⟨fireReassdl_finPhase ticks h.phase, fireReassdl_activeData ticks h.data hok,
        fun _ => fireReassdl_receiving ticks hst⟩
    | read e n =>
      have hnone : (acc || TcpOp.acceptsFin c.tp (.read e n)) = acc := Bool.or_false acc
      obtain ⟨hsame, hpas, hkept⟩ := tcpUsrRcvd_sameStream e c.tp n
      rw [TcpResult.step_read hlive, hnone]
      exact ⟨h.phase.congr hsame, h.data.congr hsame hpas, fun _ => hkept.receiving hst⟩
  · have hstep : (⟨c, acc⟩ : FinRun).step op = ⟨c, acc⟩ := by
      rw [FinRun.step, TcpResult.step_dead hlive, beq_eq_false_iff_ne.mpr hlive, Bool.false_and,
        Bool.or_false]
    rw [hstep]
    exact h

/-- In every run of a connection on the segments of a stream, the FIN has been
acted on if and only if it has been accepted and all of the stream in front of
it has been delivered, as data if the connection is active. -/
theorem fin_acted_on_at_end (tp : Tcpcb) (f : ℕ) (ops : List TcpOp)
    (hst : tp.tState = .established ∨ tp.tState = .finWait1 ∨ tp.tState = .finWait2)
    (hopen : tp.soRcv.sbCantrcvmore = false) (hq : tp.tSegq = []) (hh : tp.handed = [])
    (hok : Along FinRun.step (FinRun.Ok tp.rcvNxt f) ⟨{ tp := tp }, false⟩ ops) :
    let s := run FinRun.step ⟨{ tp := tp }, false⟩ ops
    FinSound tp.rcvNxt f (s.accepted = true) s.conn.tp.toReassCb ∧
      (s.conn.tp.inpPassive = false → .missing ∉ s.conn.tp.out) := by
  have hout : tp.toReassCb.out = [] := by simp [ReassCb.out, hh]
  have hnone : ¬ tp.toReassCb.FinQueued := by
    simp [ReassCb.FinQueued, ReassCb.segments, hq]
  have hwait : AwaitingFin tp.rcvNxt f tp.toReassCb := by
    refine ⟨hopen, by simp [hout], by simp [hout], ?_⟩
    rw [hq]
    exact ⟨inWindow_nil _ _, by simp⟩
  have hinv : FinInv tp.rcvNxt f ⟨{ tp := tp }, false⟩ := by
    refine ⟨Or.inl ⟨hwait, ReassCb.settled_nil hq, by simpa using hnone⟩, fun _ => ?_, fun _ => ?_⟩
    · simp [ReassCb.segments, hq, hout]
    · change tp.tState.Receiving
      rcases hst with h | h | h <;> rw [h] <;> exact ⟨rfl, by decide⟩
  have hend := run_invariant finInv_step hinv hok
  exact ⟨hend.phase.sound, fun hact => (hend.data hact).2⟩

/-- The FIN comes first, is queued, and is acted on when the byte in front of it
arrives. -/
theorem fin_acted_on_at_end_reordered :
    let ops := [TcpOp.segment {} (.ofBytes 1 { fin := true, ack := true } []),
      .segment {} (.ofBytes 0 { ack := true } [7])]
    let s := run FinRun.step ⟨{ tp := { rcvNxt := 0 } }, false⟩ ops
    s.accepted = true ∧ s.conn.tp.out.length = 1 ∧ s.conn.tp.soRcv.sbCantrcvmore = true := by
  intro ops s
  have hfirst : FinRun.Ok 0 1 ⟨{ tp := { rcvNxt := 0 } }, false⟩
      (.segment {} (.ofBytes 1 { fin := true, ack := true } [])) := fun _ =>
    ⟨1, ⟨rfl, by decide, by decide, ⟨by decide, by decide, by decide, by decide, by decide, rfl,
      by decide⟩, by decide⟩, fun _ => Or.inl (by decide), fun _ h => absurd h (by decide), nofun⟩
  have hsecond : FinRun.Ok 0 1 (FinRun.step ⟨{ tp := { rcvNxt := 0 } }, false⟩
      (.segment {} (.ofBytes 1 { fin := true, ack := true } [])))
      (.segment {} (.ofBytes 0 { ack := true } [7])) := fun _ =>
    ⟨0, ⟨rfl, by decide, nofun, ⟨by decide, by decide, by decide, by decide, by decide, rfl,
      nofun⟩, by decide⟩, nofun, nofun, fun _ _ _ =>
        ⟨⟨.zone 0, 1, true, 0, _⟩, List.mem_singleton.mpr rfl, rfl, Or.inl rfl⟩⟩
  have h := fin_acted_on_at_end { rcvNxt := 0 } 1 ops (Or.inl rfl) rfl rfl rfl
    ⟨hfirst, hsecond, trivial⟩
  have hacc : s.accepted = true := by decide
  have hlen : s.conn.tp.out.length = 1 := by decide
  exact ⟨hacc, hlen, h.1.acted.mpr ⟨hacc, hlen⟩⟩

/-- The window cuts the last byte off a segment, and its FIN is acted on
nevertheless; and a segment queued without the FIN makes the FIN of its
retransmission disappear. -/
theorem fin_early_and_lost :
    (let tp : Tcpcb := { rcvNxt := 0, soRcv := { Sockbuf.empty with sbHiwat := 1 } }
      let p := TcpPkt.ofBytes 0 { fin := true, ack := true } [7, 8]
      p.PartOf 0 2 0 tp ∧ (tcpDoSegment {} tp p).tp.soRcv.sbCantrcvmore = true ∧
        (tcpDoSegment {} tp p).tp.out.length = 1 ∧ (tcpDoSegment {} tp p).tp.rcvNxt = 2) ∧
    (let ops := [TcpOp.segment {} (.ofBytes 1 { ack := true } [8]),
        .segment { umaZalloc := some 1 } (.ofBytes 1 { fin := true, ack := true } [8]),
        .segment { umaZalloc := some 2 } (.ofBytes 0 { ack := true } [7])]
      let s := run FinRun.step ⟨{ tp := { rcvNxt := 0 } }, false⟩ ops
      s.conn.fate = .live ∧ s.accepted = true ∧ s.conn.tp.out = [.data 7, .data 8] ∧
        s.conn.tp.tSegq.length = 0 ∧ s.conn.tp.soRcv.sbCantrcvmore = false) := by
  refine ⟨⟨⟨rfl, by decide, by decide, ⟨by decide, by decide, by decide, by decide, by decide, rfl,
    by decide⟩, by decide⟩, by decide, by decide, by decide⟩, ?_⟩
  exact ⟨by decide, by decide, by decide, by decide, by decide⟩

end Libuinet
