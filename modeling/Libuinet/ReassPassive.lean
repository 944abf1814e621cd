import Libuinet.ReassStream

namespace Libuinet

open Execution SerialArith

def ReassCb.out (tp : ReassCb) : List Elem := chainView tp.handed.flatten

/-- While `so_rcv` is open, what is appended is delivered. -/
theorem ReassCb.handed_appendAll {tp : ReassCb} (h : tp.soRcv.sbCantrcvmore = false)
    (l : List (List Mbuf)) : (tp.appendAll l).handed = tp.handed ++ l := by
  simp [appendAll, h]

theorem ReassCb.out_appendAll {tp : ReassCb} (h : tp.soRcv.sbCantrcvmore = false)
    (ms : List Mbuf) : (tp.appendAll [ms]).out = tp.out ++ chainView ms := by
  simp [out, handed_appendAll h]

/-- `out` has one element for each sequence number from `r₀` up to `nxt`, and
each is missing or was received at its number. -/
structure StreamFrom (r₀ : TcpSeq) (rcvd : List Segment) (nxt : TcpSeq) (out : List Elem) :
    Prop where
  nxt : nxt = r₀ + BitVec.ofNat 32 out.length
  elems : ∀ k e, out[k]? = some e →
    e = .missing ∨ ∃ b, e = .data b ∧ Carried rcvd (r₀ + BitVec.ofNat 32 k) b

namespace StreamFrom

variable {r₀ nxt : TcpSeq} {rcvd : List Segment} {out : List Elem}

theorem mono {rcvd' : List Segment} (hsub : rcvd ⊆ rcvd') (h : StreamFrom r₀ rcvd nxt out) :
    StreamFrom r₀ rcvd' nxt out := by
  refine ⟨h.nxt, fun k e he => ?_⟩
  rcases h.elems k e he with hm | ⟨b, hb, hc⟩
  · exact Or.inl hm
  · exact Or.inr ⟨b, hb, hc.mono hsub⟩

section

variable (h : StreamFrom r₀ rcvd nxt out)
include h

/-- More elements, each right for its place. -/
theorem append (l : List Elem) (hl : ∀ j e, l[j]? = some e →
      e = .missing ∨ ∃ b, e = .data b ∧ Carried rcvd (nxt + BitVec.ofNat 32 j) b) :
    StreamFrom r₀ rcvd (nxt + BitVec.ofNat 32 l.length) (out ++ l) := by
  refine ⟨?_, fun k e he => ?_⟩
  · rw [h.nxt, List.length_append, BitVec.ofNat_add, add_assoc]
  · by_cases hk : k < out.length
    · rw [List.getElem?_append_left hk] at he
      exact h.elems k e he
    · rw [List.getElem?_append_right (by omega)] at he
      have hpos : nxt + BitVec.ofNat 32 (k - out.length) = r₀ + BitVec.ofNat 32 k := by
        rw [h.nxt, add_assoc, ← BitVec.ofNat_add]
        congr 2
        omega
      rw [← hpos]
      exact hl _ e he

theorem hole (seq : TcpSeq) :
    StreamFrom r₀ rcvd seq (out ++ chainView [mGethole (seq - nxt).toNat]) := by
  have happ := h.append (chainView [mGethole (seq - nxt).toNat]) (by
    intro j e he
    left
    obtain ⟨hlt, rfl⟩ := List.getElem?_eq_some_iff.mp he
    simp [Mbuf.view, Mbuf.elem, mGethole])
  have hlen : (chainView [mGethole (seq - nxt).toNat]).length = off nxt seq := by
    rw [chainView_length]
    simp [mGethole, off]
  rwa [hlen, add_off] at happ

theorem segment {th : Segment} (hc : th.CarriedBy rcvd) (hseq : th.thSeq = nxt) :
    StreamFrom r₀ rcvd (nxt + BitVec.ofNat 32 th.tlen) (out ++ chainView th.m) := by
  have happ := h.append (chainView th.m) (by
    intro j e he
    obtain ⟨hlt, -⟩ := List.getElem?_eq_some_iff.mp he
    rw [chainView_length, hc.len] at hlt
    obtain ⟨b, hb, hcar⟩ := hc.bytes j hlt
    rw [hb] at he
    rw [← hseq]
    exact Or.inr ⟨b, (Option.some.inj he).symm, hcar⟩)
  rwa [chainView_length, hc.len] at happ

end

end StreamFrom

/-- The bound on the window: holes and segments fit an `int` many times over. -/
def maxWindow : ℕ := 2 ^ 30

structure PassiveStream (r₀ : TcpSeq) (rcvd : List Segment) (tp : ReassCb) : Prop where
  opened : tp.soRcv.sbCantrcvmore = false
  noFin : ∀ th ∈ tp.segments, th.thFin = false
  window : InWindow maxWindow tp.rcvNxt tp.tSegq
  queue : QueueCarried rcvd tp
  stream : StreamFrom r₀ rcvd tp.rcvNxt tp.out
  sizes : ∀ ms ∈ tp.handed, chainLen ms ≤ maxWindow

namespace PassiveStream

variable {r₀ : TcpSeq} {rcvd : List Segment} {tp tp' : ReassCb} {q : TsegQent}
  {rest : List TsegQent}

theorem congr (hs : tp.SameData tp') (h : PassiveStream r₀ rcvd tp) :
    PassiveStream r₀ rcvd tp' := by
  have hout : tp'.out = tp.out := by rw [ReassCb.out, ReassCb.out, hs.handed]
  refine ⟨?_, ?_, ?_, ?_, ?_, ?_⟩
  · rw [hs.soRcv]
    exact h.opened
  · rw [hs.segments]
    exact h.noFin
  · rw [hs.rcvNxt]
    exact h.window.congr hs.segments
  · rw [QueueCarried, hs.segments]
    exact h.queue
  · rw [hs.rcvNxt, hout]
    exact h.stream
  · rw [hs.handed]
    exact h.sizes

theorem mono {rcvd' : List Segment} (hsub : rcvd ⊆ rcvd') (h : PassiveStream r₀ rcvd tp) :
    PassiveStream r₀ rcvd' tp :=
  { h with queue := h.queue.mono hsub, stream := h.stream.mono hsub }

section

variable (h : PassiveStream r₀ rcvd tp)
include h

theorem sizes_appendAll {ms : List Mbuf} (hms : chainLen ms ≤ maxWindow) :
    ∀ ms' ∈ (tp.appendAll [ms]).handed, chainLen ms' ≤ maxWindow := by
  rw [ReassCb.handed_appendAll h.opened]
  intro ms' hmem
  rcases List.mem_append.mp hmem with hm | hm
  · exact h.sizes ms' hm
  · obtain rfl := List.mem_singleton.mp hm
    exact hms

section

variable (hq : tp.tSegq = q :: rest)
include hq

theorem popEntry (hseq : q.thSeq = tp.rcvNxt) : PassiveStream r₀ rcvd (tp.popEntry q rest) := by
  have hw := h.window
  rw [hq] at hw
  have hc := h.queue.head hq
  refine ⟨?_, ?_, ?_, h.queue.tail hq, ?_, ?_⟩
  · exact (tp.appendAll_sbCantrcvmore _).trans h.opened
  · intro th hth
    apply h.noFin
    rw [ReassCb.segments, hq, List.map_cons]
    exact List.mem_cons_of_mem _ hth
  · have hpop := hw.pop
    rw [hseq] at hpop
    exact hpop.mono (Nat.sub_le _ _)
  · have hs := h.stream.segment hc hseq
    have hout : (tp.popEntry q rest).out = tp.out ++ chainView q.tqeM :=
      ReassCb.out_appendAll h.opened q.tqeM
    rw [hout]
    exact hs
  · apply h.sizes_appendAll
    have hb := hw.bound q (by simp)
    have hlen : chainLen q.tqeM = q.tqeLen := hc.len
    omega

/-- A leading hole takes the stream to the first entry. -/
theorem leadingHole :
    PassiveStream r₀ rcvd { tp.appendAll [[mGethole (q.thSeq - tp.rcvNxt).toNat]] with
      rcvNxt := q.thSeq } := by
  have hw := h.window
  rw [hq] at hw
  refine ⟨?_, h.noFin, ?_, h.queue, ?_, ?_⟩
  · exact (tp.appendAll_sbCantrcvmore _).trans h.opened
  · change InWindow maxWindow q.thSeq tp.tSegq
    rw [hq]
    exact hw.toHead
  · change StreamFrom r₀ rcvd q.thSeq
      (tp.appendAll [[mGethole (q.thSeq - tp.rcvNxt).toNat]]).out
    rw [ReassCb.out_appendAll h.opened]
    exact h.stream.hole q.thSeq
  · apply h.sizes_appendAll
    have hb := hw.bound q (by simp)
    have hlen : chainLen [mGethole (q.thSeq - tp.rcvNxt).toNat] = off tp.rcvNxt q.thSeq := by
      simp [mGethole, off]
    omega

theorem deliverHolesEntry : PassiveStream r₀ rcvd (deliverHolesEntry tp q rest) := by
  have hf : q.thFin = false := h.noFin q.segment (by simp [ReassCb.segments, hq])
  exact deliverHolesEntry_rule (fun _ _ => congr) (fun _ _ _ h => h.popEntry)
    (fun _ _ _ h => h.leadingHole) h hq hf

end

theorem queueSegment {th th' : Segment} (ticks : ℕ) (alloc : Option ℕ) (hth : th.CarriedBy rcvd)
    (hfin : th.thFin = false) (hwin : off tp.rcvNxt th.thSeq + th.tlen ≤ maxWindow)
    (htrim : trimByPredecessor (splitQueue tp th).1.getLast? th = some th') :
    PassiveStream r₀ rcvd (queueSegment tp ticks alloc th th') := by
  have hq := queueSegment_carried ticks alloc h.queue hth htrim
  have hw := queueSegment_window (by decide) ticks alloc h.window hwin htrim
  have hf := queueSegment_forall (fun _ _ _ ht hf => ht.fin.trans hf) ticks alloc h.noFin hfin
    htrim
  rw [queueSegment_eq] at hq hw hf ⊢
  exact ⟨h.opened, hf, hw, hq, h.stream, h.sizes⟩

end

end PassiveStream

def ReassOp.received : ReassOp → List Segment
  | .reass _ _ (some th) => [th]
  | _ => []

/-- The calls a passive connection with `so_rcv` open may see: segments without
FIN that lie in the receive window and get an entry, and deliveries of holes at
any time. -/
def ReassOp.PassiveInput (tp : ReassCb) : ReassOp → Prop
  | .reass _ alloc (some th) => alloc.isSome = true ∧ th.thFin = false ∧ th.Plain ∧
      ∃ rcvWnd < 2 ^ 30, off tp.rcvNxt th.thSeq + th.tlen ≤ rcvWnd
  | .reass _ _ none => True
  | .deliverHoles _ => True
  | .flush => False
  | .outside .. => False

theorem passiveStream_step {r₀ : TcpSeq} (h : List ReassOp) (tp : ReassCb) (op : ReassOp)
    (hs : PassiveStream r₀ (h.flatMap ReassOp.received) tp) (hop : op.PassiveInput tp) :
    PassiveStream r₀ ((h ++ [op]).flatMap ReassOp.received) (tp.step op) := by
  have hmono : h.flatMap ReassOp.received ⊆ (h ++ [op]).flatMap ReassOp.received := by simp
  have hs' := hs.mono hmono
  cases op with
  | reass ticks alloc th =>
    cases th with
    | none =>
      exact tcpReassPresent_rule (fun _ _ => PassiveStream.congr)
        (fun _ _ _ => PassiveStream.popEntry) hs' ticks false false (by simp)
    | some th =>
      obtain ⟨-, hfin, hplain, wnd, hwnd, hin⟩ := hop
      have hwin : off tp.rcvNxt th.thSeq + th.tlen ≤ maxWindow := by
        rw [maxWindow]
        omega
      exact tcpReass_rule (fun _ _ => PassiveStream.congr) (fun _ _ _ => PassiveStream.popEntry)
        (fun _ _ _ h' hq _ => h'.leadingHole hq) hs' ticks alloc th fun _ =>
          hs'.queueSegment ticks alloc (hplain.carriedBy (by simp [ReassOp.received])) hfin hwin
  | deliverHoles ticks =>
    exact tcpReassDeliverHoles_rule (fun _ _ => PassiveStream.congr)
      (fun _ _ _ => PassiveStream.deliverHolesEntry) hs' ticks
  | flush => exact hop.elim
  | outside _ _ _ _ _ => exact hop.elim

/-- What a passive connection hands to `so_rcv` is one element per sequence
number, in order: a byte received there or a missing mark; and no chain is
longer than the window, so no length wraps. -/
theorem passive_stream_correct (tp : ReassCb) (ops : List ReassOp)
    (hopen : tp.soRcv.sbCantrcvmore = false) (hq : tp.tSegq = []) (hh : tp.handed = [])
    (hok : Along ReassCb.step ReassOp.PassiveInput tp ops) :
    (run ReassCb.step tp ops).rcvNxt =
      tp.rcvNxt + BitVec.ofNat 32 (run ReassCb.step tp ops).out.length ∧
    (∀ k e, (run ReassCb.step tp ops).out[k]? = some e → e = .missing ∨
      ∃ b, e = .data b ∧
        Carried (ops.flatMap ReassOp.received) (tp.rcvNxt + BitVec.ofNat 32 k) b) ∧
    ∀ ms ∈ (run ReassCb.step tp ops).handed, chainLen ms ≤ 2 ^ 30 := by
  have h0 : PassiveStream tp.rcvNxt (([] : List ReassOp).flatMap ReassOp.received) tp := by
    refine ⟨hopen, by simp [ReassCb.segments, hq], by rw [hq]; exact inWindow_nil _ _,
      by simp [QueueCarried, ReassCb.segments, hq], ⟨?_, ?_⟩, by simp [hh]⟩
    · simp [ReassCb.out, hh]
    · simp [ReassCb.out, hh]
  have h := run_history passiveStream_step h0 hok
  exact ⟨h.stream.nxt, h.stream.elems, h.sizes⟩

/-- A segment behind a gap and the deadline: three missing marks and a byte. -/
theorem passive_stream_correct_gap :
    let tp := run ReassCb.step { rcvNxt := 0 }
      [.reass 0 (some 0) (some ⟨3, false, 1, [Mbuf.ofBytes [7]]⟩), .deliverHoles 100]
    tp.out = [.missing, .missing, .missing, .data 7] ∧
      tp.rcvNxt = 0 + BitVec.ofNat 32 tp.out.length := by
  refine ⟨by decide, (passive_stream_correct _ _ rfl rfl rfl ?_).1⟩
  exact ⟨⟨rfl, rfl, ⟨by simp [Mbuf.ofBytes], rfl⟩, 4, by decide, by decide⟩, trivial, trivial⟩

end Libuinet
