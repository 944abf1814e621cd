import Libuinet.TcpFin
import Libuinet.TcpPassive

namespace Libuinet

open Execution SerialArith

section Window

variable {tp : Tcpcb} {r₀ : TcpSeq} {W₀ n : ℕ} (hW : W₀ < 2 ^ 31)
  (hadv : tp.rcvAdv = r₀ + BitVec.ofNat 32 W₀) (hnxt : tp.rcvNxt = r₀ + BitVec.ofNat 32 n)
  (hn : n ≤ W₀ + 2 ^ 31)
include hW hadv hnxt hn

/-- The difference to the edge first advertised has the right sign for `2 ^ 31` bytes. -/
theorem toInt_rcvAdv_sub : (tp.rcvAdv - tp.rcvNxt).toInt = (W₀ : ℤ) - n := by
  have hdiff : tp.rcvAdv - tp.rcvNxt = BitVec.ofInt 32 ((W₀ : ℤ) - n) := by
    rw [hadv, hnxt, sub_eq_add_neg (W₀ : ℤ), BitVec.ofInt_add, BitVec.ofInt_neg,
      BitVec.ofInt_natCast, BitVec.ofInt_natCast]
    ring
  rw [hdiff, BitVec.toInt_ofInt]
  apply Int.bmod_eq_of_le <;> omega

theorem window_eq : (tp.window : ℤ) = max (max tp.soRcv.sbspace 0) (W₀ - n) := by
  rw [Tcpcb.window, toInt_rcvAdv_sub hW hadv hnxt hn]
  omega

theorem window_le : (tp.window : ℤ) ≤ max tp.soRcv.sbspace W₀ := by
  rw [window_eq hW hadv hnxt hn]
  omega

end Window

/-- `K` of the delivered bytes have been read, the others are counted by
`sb_cc`. -/
structure ReassCb.Counts (K : ℕ) (hiwat : BitVec 32) (tp : ReassCb) : Prop where
  sbHiwat : tp.soRcv.sbHiwat = hiwat
  count : tp.soRcv.sbCantrcvmore = false →
    K ≤ tp.out.length ∧ tp.soRcv.sbCc = BitVec.ofNat 32 (tp.out.length - K)

namespace ReassCb.Counts

variable {K : ℕ} {hiwat : BitVec 32} {tp tp' : ReassCb}

theorem appendAll (h : tp.Counts K hiwat) (ms : List Mbuf) :
    (tp.appendAll [ms]).Counts K hiwat := by
  by_cases hc : tp.soRcv.sbCantrcvmore = true
  · have hsame : tp.appendAll [ms] = tp := by simp [ReassCb.appendAll, hc]
    rwa [hsame]
  · have hopen : tp.soRcv.sbCantrcvmore = false := by simpa using hc
    have hsb : (tp.appendAll [ms]).soRcv = sbappendstreamLocked tp.soRcv ms := by
      simp [ReassCb.appendAll, hopen]
    obtain ⟨hle, hcc⟩ := h.count hopen
    have hlen : (tp.appendAll [ms]).out.length = tp.out.length + chainLen ms := by
      rw [ReassCb.out_appendAll hopen, List.length_append, chainView_length]
    refine ⟨?_, fun _ => ⟨by omega, ?_⟩⟩
    · rw [hsb, sbappendstreamLocked_sameLimits tp.soRcv ms]
      exact h.sbHiwat
    · rw [hsb, sbappendstreamLocked_sbCc, hcc, hlen, ← BitVec.ofNat_add]
      congr 1
      omega

theorem of_buffer (h : tp.Counts K hiwat) (hso : tp'.soRcv = tp.soRcv)
    (hh : tp'.handed = tp.handed) : tp'.Counts K hiwat := by
  have hout : tp'.out = tp.out := by rw [out, hh, out]
  refine ⟨by rw [hso, h.sbHiwat], ?_⟩
  rw [hso, hout]
  exact h.count

theorem congr (hs : tp.SameData tp') (h : tp.Counts K hiwat) : tp'.Counts K hiwat :=
  h.of_buffer hs.soRcv hs.handed

section

variable (h : tp.Counts K hiwat)
include h

theorem popEntry {q : TsegQent} {rest : List TsegQent} :
    (tp.popEntry q rest).Counts K hiwat := (h.appendAll q.tqeM).of_buffer rfl rfl

theorem afterHole {q : TsegQent} {rest : List TsegQent} : (afterHole tp q rest).Counts K hiwat := by
  unfold Libuinet.afterHole holeBefore
  refine popEntry ?_
  split_ifs
  · rw [appendAll_nil]
    exact h.of_buffer rfl rfl
  · exact (h.appendAll _).of_buffer rfl rfl

theorem actOnFin : tp.actOnFin.Counts K hiwat :=
  ⟨h.sbHiwat, fun hc => by cases hc⟩

theorem deliverHolesEntry {q : TsegQent} {rest : List TsegQent} :
    (deliverHolesEntry tp q rest).Counts K hiwat := by
  refine congr (deliverHolesEntry_sameData tp q rest) ?_
  split_ifs
  · exact h.afterHole.actOnFin
  · exact h.afterHole

theorem fireReassdl (ticks : ℕ) :
    (tp.fireReassdl ticks).Counts K hiwat :=
  fireReassdl_rule (fun _ _ => congr) (fun _ _ _ h _ => h.deliverHolesEntry) h ticks

theorem tcpReass (ticks : ℕ) (alloc : Option ℕ) (th : Segment) :
    (tcpReass tp ticks alloc (some th)).1.Counts K hiwat := by
  refine tcpReass_rule (fun _ _ => congr) (fun _ _ _ h _ _ => h.popEntry)
    (fun _ _ _ h _ _ => (h.appendAll _).of_buffer rfl rfl) h ticks alloc th ?_
  intro th' _
  rw [queueSegment_eq]
  exact h.of_buffer rfl rfl

theorem acceptInOrder (th : Segment) : (acceptInOrder tp th).Counts K hiwat := by
  rw [Libuinet.acceptInOrder, sbappendOrFree_eq]
  refine appendAll ?_ th.m
  exact h.of_buffer rfl rfl

end

end ReassCb.Counts

theorem InputVars.outcome_counts {K : ℕ} {hiwat : BitVec 32} (e : TcpEnv) {v : InputVars}
    (h : v.tp.toReassCb.Counts K hiwat) : (v.outcome e).Counts K hiwat := by
  have hr : (v.received e).1.Counts K hiwat := by
    unfold InputVars.received
    split_ifs
    · exact h.acceptInOrder _
    · exact h.tcpReass _ _ _
    · exact h
  unfold InputVars.outcome
  split_ifs
  · exact hr.actOnFin
  · exact hr

theorem Tcpcb.SameRecv.counts {K : ℕ} {hiwat : BitVec 32} {a b : Tcpcb} (h : a.SameRecv b)
    (hc : a.toReassCb.Counts K hiwat) : b.toReassCb.Counts K hiwat := by
  have hout := h.sameStream.out
  refine ⟨by rw [h.reass]; exact hc.sbHiwat, ?_⟩
  rw [hout, h.reass]
  exact hc.count

/-- Data up to a later edge may come. -/
theorem AwaitingFin.mono {r₀ : TcpSeq} {f f' : ℕ} {tp : ReassCb} (h : AwaitingFin r₀ f tp)
    (hno : ¬ tp.FinQueued) (hle : f ≤ f') : AwaitingFin r₀ f' tp := by
  refine ⟨h.opened, h.nxt, h.le.trans hle, h.queue.window, fun q hq => ?_⟩
  have hs := h.queue.stream q hq
  have hup := hs.upto
  refine { hs with upto := by omega, atFin := fun hf => absurd ?_ hno }
  exact ⟨q.segment, List.mem_map_of_mem hq, hf⟩

section Segment

variable {r₀ : TcpSeq} {f K : ℕ} {tp : Tcpcb} {p : TcpPkt} {v : InputVars} {d : ℤ}

/-- What is handed on of a segment without a FIN lies in the segment and in the window. -/
theorem InputVars.Reached.inStream (hr : v.Reached tp p d) (hp : p.Near tp d)
    (hfin : p.th.thFlags.fin = false) (hle : min (d + p.tlen) tp.window ≤ (f : ℤ))
    (hd : v.hasData = true) :
    v.segment.InStream tp.rcvNxt f ∧ v.segment.thFin = false := by
  have hlen := hp.data_length
  have hhi := hp.upper
  have hwnd := hp.wnd
  have hnofin : v.segment.thFin = false := by
    change v.th.thFlags.fin = false
    rw [hr.thFlags, hfin]
  obtain ⟨ht, hf, -⟩ | ⟨s, hmax, hseq, hend, hpay, hf⟩ := hr.trimmed
  · simp [InputVars.hasData, ht, hf] at hd
  rw [hr.keeps.rcvNxt] at hseq
  rw [hlen] at hend
  rw [hfin, Bool.false_and] at hf
  have htl : v.segment.tlen = v.tlen := rfl
  have hsome : v.tlen ≠ 0 := by
    intro h0
    simp [InputVars.hasData, h0, hf] at hd
  have hoff : off tp.rcvNxt v.segment.thSeq = s := v.off_segment hseq (by omega)
  refine ⟨⟨?_, ?_, fun h => ?_, fun h => absurd h hsome, ?_⟩, hnofin⟩
  · rw [hoff, htl, maxWindow]
    omega
  · rw [hoff, htl]
    omega
  · rw [hnofin] at h
    cases h
  · rw [← chainView_length, v.segment_view, hpay, List.length_take, List.length_drop, hlen, htl]
    omega

section

variable (e : TcpEnv) (hst : tp.tState.Receiving)
include hst

/-- A segment without a FIN adds data up to its end or the edge of the window. -/
theorem finPhase_window (h : FinPhase r₀ f False tp.toReassCb) (hp : p.Near tp d)
    (hfin : p.th.thFlags.fin = false)
    (hle : tp.toReassCb.out.length + min (d + p.tlen) tp.window ≤ (f : ℤ)) :
    FinPhase r₀ f False (tcpDoSegment e tp p).tp.toReassCb := by
  obtain ⟨-, ⟨w, hdrop⟩ | hfast⟩ | ⟨v, hgo, hr, hres⟩ := tcpDoSegment_cases e hst.1 hp
  · exact h.congr hdrop.1.sameStream
  · obtain ⟨hwait, -, hq⟩ : _ ∧ _ ∧ _ := h.resolve_right fun h => h.1
    have hfits := hfast.fits
    have hlen : p.segment.tlen = p.tlen := rfl
    have hroom : tp.soRcv.sbspace ≤ tp.window := by
      unfold Tcpcb.window
      omega
    have hstart := fast_position hp hfast
    exact finPhase_fast hwait hq hp.len (by omega) hfast
  · obtain ⟨hstv, hkeep⟩ := hr.finish e hst
    have hsame : tp.toReassCb.SameStream v.tp.toReassCb := hr.keeps.sameStream
    rw [hres]
    refine FinPhase.congr hkeep.sameStream ?_
    have hv := h.congr hsame
    cases hd : v.hasData with
    | false =>
      rw [outcome_noData e hd]
      exact hv
    | true =>
      obtain ⟨hwait, hset, hq⟩ : _ ∧ _ ∧ _ := hv.resolve_right fun h => h.1
      have hout := hwait.le
      have hlen : min (d + p.tlen) tp.window ≤ ((f - v.tp.toReassCb.out.length : ℕ) : ℤ) := by
        rw [hsame.out] at hout ⊢
        omega
      obtain ⟨hin, hnofin⟩ := hr.inStream hp hfin hlen hd
      rw [← hsame.rcvNxt] at hin
      have hsafe : v.tp.toReassCb.FinSafe (f - v.tp.toReassCb.out.length)
          (off v.tp.rcvNxt v.segment.thSeq)
          (off v.tp.rcvNxt v.segment.thSeq + v.segment.tlen) v.segment.thFin := by
        rw [hnofin]
        exact ⟨nofun, fun _ _ hf => (hq.mpr hf).elim⟩
      have hout := finPhase_outcome e hstv hwait hset hq hd hin hsafe
      rw [hnofin] at hout
      simp only [Bool.false_eq_true, false_and, or_false] at hout
      exact hout

/-- The buffer may have been made larger on the fast path. -/
theorem counts_tcpDoSegment (hp : p.Near tp d) {hiwat : BitVec 32} (h : tp.toReassCb.Counts K hiwat)
    :
    ∃ sb, tp.soRcv.Resized e sb ∧
      (tcpDoSegment e tp p).tp.toReassCb.Counts K sb.sbHiwat := by
  obtain ⟨-, ⟨w, hdrop⟩ | hfast⟩ | ⟨v, -, hr, hres⟩ := tcpDoSegment_cases e hst.1 hp
  · refine ⟨tp.soRcv, Or.inl rfl, ?_⟩
    rw [h.sbHiwat]
    exact hdrop.1.counts h
  · obtain ⟨sb, hsb, hkeep⟩ := hfast.result
    have hresized : ReassCb.Counts K sb.sbHiwat { tp.toReassCb with soRcv := sb } := by
      refine ⟨rfl, ?_⟩
      rcases hsb with rfl | ⟨-, mbmax, lowat, rfl⟩ <;> exact h.count
    exact ⟨sb, hsb, hkeep.counts (hresized.acceptInOrder _)⟩
  · refine ⟨tp.soRcv, Or.inl rfl, ?_⟩
    have hv : v.tp.toReassCb.Counts K hiwat := hr.keeps.counts h
    rw [h.sbHiwat, hres]
    exact (hr.finish e hst).2.counts (InputVars.outcome_counts e hv)

theorem rcvAdv_tcpDoSegment (hp : p.Near tp d) (hpas : tp.inpPassive = true) :
    (tcpDoSegment e tp p).tp.rcvAdv = tp.rcvAdv := by
  obtain ⟨-, ⟨w, hdrop⟩ | hfast⟩ | ⟨v, -, hr, hres⟩ := tcpDoSegment_cases e hst.1 hp
  · exact (hdrop.1.frozen hpas).1
  · obtain ⟨sb, -, hkeep⟩ := hfast.result
    refine (hkeep.frozen ?_).1
    rw [Tcpcb.appended, acceptInOrder, ReassCb.sbappendOrFree_eq]
    exact hpas
  · have hpasv : v.tp.inpPassive = true := hr.keeps.inpPassive.trans hpas
    have hfinish := (hr.finish e hst).2.frozen ((outcome_inpPassive e v).trans hpasv)
    rw [hres]
    exact hfinish.1.trans (hr.keeps.frozen hpas).1

end

end Segment

/-- The packet begins `o` behind `r₀` in the stream, and is near the bytes that come next. -/
structure TcpPkt.At (p : TcpPkt) (r₀ : TcpSeq) (o : ℤ) (tp : Tcpcb) : Prop where
  seq : p.th.thSeq = r₀ + BitVec.ofInt 32 o
  len : chainLen p.m = p.dropHdrlen + p.tlen
  lower : tp.out.length - 2 ^ 30 ≤ o
  upper : o + p.tlen ≤ tp.out.length + 2 ^ 30
  noSyn : p.th.thFlags.syn = false
  inline : p.th.thFlags.urg = true → tp.soOobinline = true

/-- The condition on one step: a segment without a FIN ends in the first `W₀ + 2 ^ 31` bytes of the
stream, the buffer is not sized to more than `2 ^ 30`, and a read takes no more than there is. -/
def WindowOk (r₀ : TcpSeq) (W₀ : ℕ) (c : TcpResult) (op : TcpOp) : Prop :=
  c.fate = .live → match op with
    | .segment e p => (∃ o : ℤ, p.At r₀ o c.tp ∧ o + p.tlen ≤ W₀ + 2 ^ 31) ∧
        p.th.thFlags.fin = false ∧ e.tcpAutorcvbufMax ≤ 2 ^ 30 ∧ e.tcpAutorcvbufInc ≤ 2 ^ 30
    | .timer _ => True
    | .read _ n => n ≤ c.tp.soRcv.sbCc.toNat

def WindowBounded (W₀ : ℕ) (c : TcpResult) (op : TcpOp) : Prop :=
  c.fate = .live → ∀ e p, op = .segment e p → (c.tp.window : ℤ) ≤ max c.tp.soRcv.sbspace W₀

/-- Data has been accepted up to an edge that was in the buffer's space when `K` bytes had been
read, or that is the edge first advertised. -/
def ReassCb.Bounded (r₀ : TcpSeq) (W₀ : ℕ) (tp : ReassCb) : Prop :=
  ∃ edge K hiwat, FinPhase r₀ edge False tp ∧ tp.Counts K hiwat ∧
    edge ≤ max (K + hiwat.toNat) W₀ ∧ hiwat.toNat ≤ 2 ^ 30

structure WindowInv (r₀ : TcpSeq) (W₀ : ℕ) (c : TcpResult) : Prop where
  inpPassive : c.tp.inpPassive = true
  rcvAdv : c.tp.rcvAdv = r₀ + BitVec.ofNat 32 W₀
  receiving : c.fate = .live → c.tp.tState.Receiving
  stream : FinPhase r₀ (W₀ + 2 ^ 31) False c.tp.toReassCb
  bounded : c.tp.toReassCb.Bounded r₀ W₀

theorem FinPhase.awaiting {r₀ : TcpSeq} {f : ℕ} {tp : ReassCb} (h : FinPhase r₀ f False tp) :
    AwaitingFin r₀ f tp := (h.resolve_right fun h => h.1).1

section Bounded

variable {r₀ : TcpSeq} {W₀ edge K : ℕ} {hiwat : BitVec 32} {tp : ReassCb}

/-- `sb_cc` counts what has been delivered and not read, without wrapping. -/
theorem ReassCb.Counts.toNat_sbCc (h : tp.Counts K hiwat) (hw : AwaitingFin r₀ edge tp)
    (hedge : edge ≤ max (K + hiwat.toNat) W₀) (hW : W₀ < 2 ^ 32) :
    K ≤ tp.out.length ∧ tp.soRcv.sbCc.toNat = tp.out.length - K := by
  obtain ⟨hle, hcc⟩ := h.count hw.opened
  have hout := hw.le
  have hlt := hiwat.isLt
  refine ⟨hle, ?_⟩
  rw [hcc, BitVec.toNat_ofNat, Nat.mod_eq_of_lt (by omega)]

theorem ReassCb.Bounded.sbCc_le (h : tp.Bounded r₀ W₀) (hW : W₀ < 2 ^ 32) :
    tp.soRcv.sbCc.toNat ≤ tp.soRcv.sbHiwat.toNat + W₀ := by
  obtain ⟨edge, K, hiwat, hphase, hcount, hedge, -⟩ := h
  have hcc := (hcount.toNat_sbCc hphase.awaiting hedge hW).2
  have hle := hphase.awaiting.le
  rw [hcount.sbHiwat]
  omega

end Bounded

/-- The space of a buffer that is not overfull by much is not overestimated. -/
theorem sbspace_le {sb : Sockbuf} {W₀ : ℕ} (hW : W₀ < 2 ^ 31)
    (hcc : sb.sbCc.toNat ≤ sb.sbHiwat.toNat + W₀) :
    sb.sbspace ≤ sb.sbHiwat.toNat - sb.sbCc.toNat := by
  refine (min_le_left _ _).trans ?_
  have hlt := sb.sbCc.isLt
  have hlt' := sb.sbHiwat.isLt
  rw [BitVec.toInt_eq_toNat_cond, BitVec.toNat_sub]
  split_ifs <;> omega

theorem Sockbuf.Resized.sbHiwat {e : TcpEnv} {sb sb' : Sockbuf} (h : sb.Resized e sb')
    (hmax : e.tcpAutorcvbufMax ≤ 2 ^ 30) (hinc : e.tcpAutorcvbufInc ≤ 2 ^ 30)
    (hle : sb.sbHiwat.toNat ≤ 2 ^ 30) :
    sb.sbHiwat.toNat ≤ sb'.sbHiwat.toNat ∧ sb'.sbHiwat.toNat ≤ 2 ^ 30 := by
  rcases h with rfl | ⟨hroom, mbmax, lowat, rfl⟩
  · omega
  · rw [Nat.mod_eq_of_lt (by omega), BitVec.toNat_ofNat, Nat.mod_eq_of_lt (by omega)]
    omega

section Steps

variable {r₀ : TcpSeq} {W₀ : ℕ} (hW : W₀ ≤ 2 ^ 30)
include hW

namespace WindowInv

variable {c : TcpResult} (h : WindowInv r₀ W₀ c)
include h

theorem window_eq : (c.tp.window : ℤ) = max (max c.tp.soRcv.sbspace 0) (W₀ - c.tp.out.length) :=
  Libuinet.window_eq (by omega) h.rcvAdv h.stream.awaiting.nxt h.stream.awaiting.le

theorem window_le : (c.tp.window : ℤ) ≤ max c.tp.soRcv.sbspace W₀ :=
  Libuinet.window_le (by omega) h.rcvAdv h.stream.awaiting.nxt h.stream.awaiting.le

theorem sbspace_le : c.tp.soRcv.sbspace ≤ c.tp.soRcv.sbHiwat.toNat - c.tp.soRcv.sbCc.toNat :=
  Libuinet.sbspace_le (by omega) (h.bounded.sbCc_le (by omega))

/-- A segment at a place of the stream is near `rcv_nxt`, and the window is small enough. -/
theorem near {p : TcpPkt} {o : ℤ} (hp : p.At r₀ o c.tp) : p.Near c.tp (o - c.tp.out.length) := by
  have hlower := hp.lower
  have hupper := hp.upper
  refine ⟨?_, hp.len, by omega, by omega, ?_, hp.noSyn, hp.inline⟩
  · rw [hp.seq, h.stream.awaiting.nxt, sub_eq_add_neg o, BitVec.ofInt_add, BitVec.ofInt_neg,
      BitVec.ofInt_natCast]
    ring
  · have hwindow := h.window_le hW
    have hspace := h.sbspace_le hW
    obtain ⟨edge, K, hiwat, -, hcount, -, hsize⟩ := h.bounded
    rw [hcount.sbHiwat] at hspace
    omega

/-- What a segment adds lies in the space of the buffer or below the edge first advertised. -/
theorem bounded_tcpDoSegment (e : TcpEnv) {p : TcpPkt} {d : ℤ} (hst : c.tp.tState.Receiving)
    (hp : p.Near c.tp d) (hfin : p.th.thFlags.fin = false) (hmax : e.tcpAutorcvbufMax ≤ 2 ^ 30)
    (hinc : e.tcpAutorcvbufInc ≤ 2 ^ 30) :
    (tcpDoSegment e c.tp p).tp.toReassCb.Bounded r₀ W₀ := by
  have hwindow := h.window_eq hW
  have hspace := h.sbspace_le hW
  obtain ⟨edge, K, hiwat, hphase, hcount, hedge, hsize⟩ := h.bounded
  obtain ⟨hwait, hset, hq⟩ : _ ∧ _ ∧ _ := hphase.resolve_right fun h => h.1
  obtain ⟨hK, hcc⟩ := hcount.toNat_sbCc hwait hedge (by omega)
  have hle := hwait.le
  obtain ⟨sb, hsb, hcount'⟩ := counts_tcpDoSegment e hst hp hcount
  rw [← hcount.sbHiwat] at hsize hedge
  obtain ⟨hgrown, hsize'⟩ := hsb.sbHiwat hmax hinc hsize
  refine ⟨max edge (c.tp.out.length + c.tp.window), K, sb.sbHiwat, ?_, hcount', by omega, hsize'⟩
  exact finPhase_window e hst (Or.inl ⟨hwait.mono hq.mpr (le_max_left _ _), hset, hq⟩) hp hfin
    (by omega)

theorem bounded_tcpUsrRcvd (e : TcpEnv) {n : ℕ} (hn : n ≤ c.tp.soRcv.sbCc.toNat) :
    (tcpUsrRcvd e c.tp n).tp.toReassCb.Bounded r₀ W₀ := by
  obtain ⟨edge, K, hiwat, hphase, hcount, hedge, hsize⟩ := h.bounded
  have hphase' := hphase.congr (tcpUsrRcvd_sameStream e c.tp n).1
  obtain ⟨hK, hcc⟩ := hcount.toNat_sbCc hphase.awaiting hedge (by omega)
  unfold tcpUsrRcvd at hphase' ⊢
  cases hd : sbdropLocked c.tp.soRcv n with
  | none => exact ⟨edge, K, hiwat, hphase, hcount, hedge, hsize⟩
  | some sb =>
    rw [hd] at hphase'
    obtain ⟨-, -, hcc', hlimits⟩ := sbdropLocked_spec hd
    have hsb : ReassCb.Counts (K + n) hiwat { c.tp.toReassCb with soRcv := sb } := by
      refine ⟨by rw [hlimits, hcount.sbHiwat], fun _ => ?_⟩
      change K + n ≤ c.tp.toReassCb.out.length ∧
        sb.sbCc = BitVec.ofNat 32 (c.tp.toReassCb.out.length - (K + n))
      refine ⟨by omega, BitVec.eq_of_toNat_eq ?_⟩
      have hlt := c.tp.soRcv.sbCc.isLt
      have hn' : (BitVec.ofNat 32 n).toNat = n := by
        rw [BitVec.toNat_ofNat, Nat.mod_eq_of_lt (by omega)]
      rw [hcc', BitVec.toNat_sub_of_le (by rwa [BitVec.le_def, hn']), hn', hcc, BitVec.toNat_ofNat,
        Nat.mod_eq_of_lt (by omega), Nat.sub_sub]
    exact ⟨edge, K + n, hiwat, hphase', (tcpOutput_keeps e _).counts hsb, by omega, hsize⟩

end WindowInv

omit hW in
theorem bounded_fireReassdl {tp : ReassCb} (ticks : ℕ) (h : tp.Bounded r₀ W₀) :
    (tp.fireReassdl ticks).Bounded r₀ W₀ := by
  obtain ⟨edge, K, hiwat, hphase, hcount, hedge, hsize⟩ := h
  exact ⟨edge, K, hiwat, fireReassdl_finPhase ticks hphase, hcount.fireReassdl ticks, hedge, hsize⟩

omit hW in
theorem rcvAdv_tcpUsrRcvd {tp : Tcpcb} (e : TcpEnv) (n : ℕ) (hpas : tp.inpPassive = true) :
    (tcpUsrRcvd e tp n).tp.rcvAdv = tp.rcvAdv := by
  unfold tcpUsrRcvd
  cases sbdropLocked tp.soRcv n with
  | none => rfl
  | some sb =>
    have hkeep := tcpOutput_keeps e { tp with soRcv := sb }
    exact (hkeep.frozen hpas).1

theorem windowInv_step (c : TcpResult) (op : TcpOp) (h : WindowInv r₀ W₀ c)
    (hop : WindowOk r₀ W₀ c op) : WindowInv r₀ W₀ (c.step op) := by
  by_cases hlive : c.fate = .live
  · have hst := h.receiving hlive
    have hok := hop hlive
    have hpas := (c.step_frozen op).inpPassive.trans h.inpPassive
    cases op with
    | segment e p =>
      obtain ⟨⟨o, hat, hend⟩, hfin, hmax, hinc⟩ := hok
      have hp := h.near hW hat
      rw [TcpResult.step_segment hlive] at hpas ⊢
      exact ⟨hpas, (rcvAdv_tcpDoSegment e hst hp h.inpPassive).trans h.rcvAdv,
        tcpDoSegment_receiving e hst hp, finPhase_window e hst h.stream hp hfin (by omega),
        h.bounded_tcpDoSegment hW e hst hp hfin hmax hinc⟩
    | timer ticks =>
      rw [TcpResult.step_timer hlive] at hpas ⊢
      exact ⟨hpas, h.rcvAdv, fun _ => fireReassdl_receiving ticks hst,
        fireReassdl_finPhase ticks h.stream, bounded_fireReassdl ticks h.bounded⟩
    | read e n =>
      rw [TcpResult.step_read hlive] at hpas ⊢
      exact ⟨hpas, (rcvAdv_tcpUsrRcvd e n h.inpPassive).trans h.rcvAdv,
        fun _ => (tcpUsrRcvd_sameStream e c.tp n).2.2.receiving hst,
        h.stream.congr (tcpUsrRcvd_sameStream e c.tp n).1, h.bounded_tcpUsrRcvd hW e hok⟩
  · rw [TcpResult.step_dead hlive]
    exact h

end Steps

/-- A passive connection that receives data only, in segments that end in the first `2 ^ 31` bytes
behind the window first advertised: `rcv_adv` stays where it was, every window is bounded by the
space in the buffer and that window, and the buffer never holds more than its limit and it. -/
theorem passive_window_bounded (tp : Tcpcb) (W₀ : ℕ) (ops : List TcpOp)
    (hpas : tp.inpPassive = true) (hst : tp.tState.Receiving)
    (hopen : tp.soRcv.sbCantrcvmore = false) (hq : tp.tSegq = []) (hh : tp.handed = [])
    (hcc : tp.soRcv.sbCc = 0) (hadv : tp.rcvAdv = tp.rcvNxt + BitVec.ofNat 32 W₀)
    (hW : W₀ ≤ 2 ^ 30) (hsize : tp.soRcv.sbHiwat.toNat ≤ 2 ^ 30)
    (hok : Along TcpResult.step (WindowOk tp.rcvNxt W₀) { tp := tp } ops) :
    let s := run TcpResult.step { tp := tp } ops
    Along TcpResult.step (WindowBounded W₀) { tp := tp } ops ∧ s.tp.rcvAdv = tp.rcvAdv ∧
      s.tp.rcvNxt = tp.rcvNxt + BitVec.ofNat 32 s.tp.out.length ∧
      (s.tp.window : ℤ) ≤ max s.tp.soRcv.sbspace W₀ ∧
      s.tp.soRcv.sbCc.toNat ≤ s.tp.soRcv.sbHiwat.toNat + W₀ := by
  have hout : tp.toReassCb.out = [] := by simp [ReassCb.out, hh]
  have hphase (f : ℕ) : FinPhase tp.rcvNxt f False tp.toReassCb := by
    refine Or.inl ⟨⟨hopen, by simp [hout], by simp [hout], ?_⟩, ReassCb.settled_nil hq, ?_⟩
    · rw [hq]
      exact ⟨inWindow_nil _ _, by simp⟩
    · simp [ReassCb.FinQueued, ReassCb.segments, hq]
  have hbounded : tp.toReassCb.Bounded tp.rcvNxt W₀ := by
    refine ⟨0, 0, tp.soRcv.sbHiwat, hphase 0, ⟨rfl, fun _ => ?_⟩, Nat.zero_le _, hsize⟩
    simp [hout, hcc]
  have hinit : WindowInv tp.rcvNxt W₀ { tp := tp } :=
    ⟨hpas, hadv, fun _ => hst, hphase _, hbounded⟩
  have hend := run_invariant (windowInv_step hW) hinit hok
  refine ⟨hok.of_invariant (windowInv_step hW) (fun c op h _ e p _ => h.window_le hW) hinit,
    hend.rcvAdv.trans hadv.symm, hend.stream.awaiting.nxt, hend.window_le hW,
    hend.bounded.sbCc_le (by omega)⟩

/-- With a passive connection two bytes are received and one is read. -/
theorem passive_window_bounded_small :
    let tp : Tcpcb := { inpPassive := true, rcvNxt := 0, rcvAdv := 10 }
    let ops := [TcpOp.segment {} (.ofBytes 0 { ack := true } [7, 8]), .read {} 1]
    let s := run TcpResult.step { tp := tp } ops
    s.tp.rcvAdv = 10 ∧ s.tp.out.length = 2 ∧ s.tp.soRcv.sbCc = 1 ∧
      s.tp.soRcv.sbCc.toNat ≤ s.tp.soRcv.sbHiwat.toNat + 10 := by
  intro tp ops s
  have hsegment : WindowOk 0 10 { tp := tp } (.segment {} (.ofBytes 0 { ack := true } [7, 8])) :=
    fun _ => ⟨⟨0, ⟨by decide, by decide, by decide, by decide, rfl, nofun⟩, by decide⟩, rfl,
      by decide, by decide⟩
  have hread : WindowOk 0 10
      (TcpResult.step { tp := tp } (.segment {} (.ofBytes 0 { ack := true } [7, 8])))
      (.read {} 1) := fun _ => by decide
  have h := passive_window_bounded tp 10 ops rfl ⟨rfl, by decide⟩ rfl rfl rfl rfl rfl (by decide)
    (by decide) ⟨hsegment, hread, trivial⟩
  exact ⟨h.2.1, by decide, by decide, h.2.2.2.2⟩

/-- Past `2 ^ 31` bytes the difference to `rcv_adv` is positive again: the window
is far wider than the buffer, and what it lets in overfills it. -/
theorem passive_window_reopens :
    let sb := { Sockbuf.empty with sbHiwat := 1073741924, sbMbmax := 2147483647 }
    let tp : Tcpcb :=
      { inpPassive := true, rcvNxt := 0, rcvAdv := 10, tcpReassdl := 100, soRcv := sb }
    let ops := [TcpOp.segment {} (.ofBytes 1073741824 { ack := true } [7]), .timer 100,
      .read {} 1073741825, .segment {} (.ofBytes 2147483659 { ack := true } [7]), .timer 200,
      .read {} 1073741835]
    let s := run TcpResult.step { tp := tp } ops
    let s' := run TcpResult.step s
      [.segment {} (.ofBytes 4294967260 { ack := true } [7]), .timer 300]
    tp.rcvAdv - tp.rcvNxt = 10 ∧
      (s.fate = .live ∧ s.tp.rcvNxt = 2147483660 ∧ s.tp.window = 2147483646 ∧
        s.tp.soRcv.sbspace = 1073741924) ∧
      s'.fate = .live ∧ s'.tp.soRcv.sbCc.toNat = 2147483601 ∧
        s'.tp.soRcv.sbHiwat.toNat = 1073741924 := by
  decide

end Libuinet
