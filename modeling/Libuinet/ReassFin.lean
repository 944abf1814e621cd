import Mathlib.Data.List.TakeWhile
import Libuinet.ReassPassive

namespace Libuinet

open SerialArith

/-- A segment of the stream whose FIN lies `left` ahead of `r`.  Its own FIN, if
it has one, is that FIN, and it has data or the FIN. -/
structure Segment.InStream (r : TcpSeq) (left : ℕ) (th : Segment) : Prop where
  bound : off r th.thSeq + th.tlen ≤ maxWindow
  upto : off r th.thSeq + th.tlen ≤ left
  atFin : th.thFin = true → off r th.thSeq + th.tlen = left
  bare : th.tlen = 0 → th.thFin = true
  len : chainLen th.m = th.tlen

variable {rest : List TsegQent} {tp : ReassCb} {th th' : Segment} {r : TcpSeq} {q : TsegQent}
  {left : ℕ}

/-- What is left of a segment of the stream is one, too. -/
theorem Segment.InStream.trimmed {i : ℕ} (h : th.InStream r left) (ht : th.TrimmedTo th' i) :
    th'.InStream r left := by
  have hi := ht.le
  have hb := h.bound
  have hend : off r th'.thSeq + th'.tlen = off r th.thSeq + th.tlen := by
    rw [ht.seq, ht.len, off_add r th.thSeq i (by rw [maxWindow] at hb; omega)]
    omega
  have hlen : chainLen th'.m = th'.tlen := by
    rw [ht.data, ht.len]
    split_ifs with h0
    · rw [h.len, h0, Nat.sub_zero]
    · rw [← chainView_length, chainView_mAdj_head, List.length_drop, chainView_length, h.len]
  refine ⟨by omega, by rw [hend]; exact h.upto, ?_, ?_, hlen⟩
  · intro hf
    rw [hend]
    exact h.atFin (ht.fin ▸ hf)
  · intro h0
    rw [ht.fin]
    apply h.bare
    rw [ht.len] at h0
    by_cases hz : i = 0
    · omega
    · have := ht.lt hz
      omega

/-- The view from a point that the segment does not lie before. -/
theorem Segment.InStream.advance (h : th.InStream r left) (k : ℕ) (hk : k ≤ off r th.thSeq) :
    th.InStream (r + BitVec.ofNat 32 k) (left - k) := by
  have hb := h.bound
  have hu := h.upto
  refine ⟨?_, ?_, fun hf => ?_, h.bare, h.len⟩
  all_goals rw [off_advance r th.thSeq k hk]
  · omega
  · omega
  · have := h.atFin hf
    omega

structure FinQueue (r : TcpSeq) (left : ℕ) (l : List TsegQent) : Prop where
  window : InWindow maxWindow r l
  stream : ∀ q ∈ l, q.segment.InStream r left

theorem FinQueue.advance {r : TcpSeq} {left : ℕ} {l : List TsegQent} (h : FinQueue r left l)
    (k : ℕ) (hk : ∀ q ∈ l, k ≤ off r q.thSeq) :
    FinQueue (r + BitVec.ofNat 32 k) (left - k) l :=
  ⟨(h.window.advance k hk).mono (Nat.sub_le _ _), fun q hq => (h.stream q hq).advance k (hk q hq)⟩

theorem FinQueue.congr {r : TcpSeq} {left : ℕ} {l l' : List TsegQent} (h : FinQueue r left l)
    (he : l'.map TsegQent.segment = l.map TsegQent.segment) : FinQueue r left l' := by
  refine ⟨h.window.congr he, ?_⟩
  have hs : ∀ th ∈ l.map TsegQent.segment, th.InStream r left := by
    simpa using h.stream
  rw [← he] at hs
  simpa using hs

/-- Behind the first entry. -/
theorem FinQueue.pop (h : FinQueue r left (q :: rest)) :
    FinQueue (q.thSeq + BitVec.ofNat 32 q.tqeLen) (left - (off r q.thSeq + q.tqeLen)) rest := by
  obtain ⟨hhead, hrest⟩ := List.pairwise_cons.mp h.window.sorted
  have htail : FinQueue r left rest :=
    ⟨⟨hrest, fun a ha => h.window.bound a (by simp [ha])⟩, fun a ha => h.stream a (by simp [ha])⟩
  have hadv := htail.advance (off r q.thSeq + q.tqeLen) hhead
  rwa [BitVec.ofNat_add, ← add_assoc, add_off] at hadv

/-- At the first entry. -/
theorem FinQueue.toHead (h : FinQueue r left (q :: rest)) :
    FinQueue q.thSeq (left - off r q.thSeq) (q :: rest) := by
  obtain ⟨hhead, -⟩ := List.pairwise_cons.mp h.window.sorted
  have hadv := h.advance (off r q.thSeq) (by
    intro a ha
    rcases List.mem_cons.mp ha with rfl | ha
    · rfl
    · have := hhead a ha
      omega)
  rwa [add_off] at hadv

def ReassCb.FinQueued (tp : ReassCb) : Prop := ∃ th ∈ tp.segments, th.thFin = true

theorem queueSegment_finQueue (ticks : ℕ) (alloc : Option ℕ) (h : FinQueue tp.rcvNxt left tp.tSegq)
    (hth : th.InStream tp.rcvNxt left)
    (htrim : trimByPredecessor (splitQueue tp th).1.getLast? th = some th') :
    FinQueue tp.rcvNxt left (queueSegment tp ticks alloc th th').tSegq := by
  refine ⟨queueSegment_window (by decide) ticks alloc h.window hth.bound htrim, ?_⟩
  have hq := queueSegment_forall (fun _ _ _ ht hs => Segment.InStream.trimmed hs ht) ticks alloc
    (by simpa [ReassCb.segments] using h.stream) hth htrim
  simpa [ReassCb.segments] using hq

/-- A FIN in the queue was there before, or came with the segment. -/
theorem queueSegment_finQueued (ticks : ℕ) (alloc : Option ℕ)
    (htrim : trimByPredecessor (splitQueue tp th).1.getLast? th = some th')
    (h : (queueSegment tp ticks alloc th th').FinQueued) : tp.FinQueued ∨ th.thFin = true := by
  by_contra hno
  rw [not_or] at hno
  obtain ⟨seg, hseg, hfin⟩ := h
  have hnone := queueSegment_forall (P := fun th => th.thFin = false)
    (fun _ _ _ ht hf => ht.fin.trans hf) ticks alloc
    (fun seg hs => Bool.eq_false_iff.mpr fun hf => hno.1 ⟨seg, hs, hf⟩)
    (Bool.eq_false_iff.mpr hno.2) htrim seg hseg
  rw [hfin] at hnone
  cases hnone

theorem mem_splitQueue_fst (h : q ∈ (splitQueue tp th).1) : seqGt q.thSeq th.thSeq = false := by
  rw [splitQueue, List.span_eq_takeWhile_dropWhile] at h
  simpa using List.mem_takeWhile_imp h

section

variable {W : ℕ} (hW : W < 2 ^ 31) (hw : InWindow W tp.rcvNxt tp.tSegq)
include hW hw

theorem mem_splitQueue_snd (hth : off tp.rcvNxt th.thSeq ≤ W) (h : q ∈ (splitQueue tp th).2) :
    off tp.rcvNxt th.thSeq < off tp.rcvNxt q.thSeq := by
  rw [← splitQueue_append tp th] at hw
  have hpost := hw.of_append.2.1
  cases hl : (splitQueue tp th).2 with
  | nil =>
    rw [hl] at h
    cases h
  | cons a rest =>
    rw [hl] at h hpost
    have hgt : seqGt a.thSeq th.thSeq = true := by
      have hhead := List.head?_dropWhile_not (fun q => !seqGt q.thSeq th.thSeq) tp.tSegq
      simp only [splitQueue, List.span_eq_takeWhile_dropWhile] at hl
      rw [hl] at hhead
      simpa using hhead
    have hba := hpost.bound a (by simp)
    rw [seqGt_iff hW (by omega) hth] at hgt
    rcases List.mem_cons.mp h with rfl | hm
    · exact hgt
    · have := (List.pairwise_cons.mp hpost.sorted).1 q hm
      omega

/-- An entry that holds all of the segment. -/
theorem trimByPredecessor_none (hth : off tp.rcvNxt th.thSeq + th.tlen ≤ W)
    (h : trimByPredecessor (splitQueue tp th).1.getLast? th = none) :
    ∃ q ∈ tp.tSegq, off tp.rcvNxt q.thSeq ≤ off tp.rcvNxt th.thSeq ∧
      off tp.rcvNxt th.thSeq < off tp.rcvNxt q.thSeq + q.tqeLen ∧
      off tp.rcvNxt th.thSeq + th.tlen ≤ off tp.rcvNxt q.thSeq + q.tqeLen := by
  cases hl : (splitQueue tp th).1.getLast? with
  | none =>
    rw [hl] at h
    cases h
  | some q =>
    have hpre : q ∈ (splitQueue tp th).1 := List.mem_of_getLast? hl
    have hq : q ∈ tp.tSegq := by
      rw [← splitQueue_append tp th]
      exact List.mem_append_left _ hpre
    have hb := hw.bound q hq
    have hle : ¬ off tp.rcvNxt th.thSeq < off tp.rcvNxt q.thSeq := by
      rw [← seqGt_iff hW (by omega) (by omega), mem_splitQueue_fst hpre]
      decide
    simp only [hl, trimByPredecessor] at h
    rw [toInt_end_sub hW hb (by omega : off tp.rcvNxt th.thSeq ≤ W)] at h
    split_ifs at h with h0 hcov
    exact ⟨q, hq, by omega, by omega, by omega⟩

end

def coveredBy (edge : TcpSeq) (q : TsegQent) : Prop :=
  0 < (edge - q.thSeq).toInt ∧ (q.tqeLen : ℤ) ≤ (edge - q.thSeq).toInt

theorem trimSuccessors_fin (edge : TcpSeq) (post : List TsegQent) (q : TsegQent) (hq : q ∈ post)
    (hc : ¬ coveredBy edge q) :
    ∃ q' ∈ (trimSuccessors edge post).1, q'.thFin = q.thFin := by
  induction post with
  | nil => cases hq
  | cons a post ih =>
    unfold trimSuccessors
    dsimp only
    split_ifs with h0 hlt
    · exact ⟨q, hq, rfl⟩
    · rcases List.mem_cons.mp hq with rfl | hm
      · exact ⟨_, List.mem_cons_self, rfl⟩
      · exact ⟨q, List.mem_cons_of_mem _ hm, rfl⟩
    · rcases List.mem_cons.mp hq with rfl | hm
      · exact absurd ⟨by omega, by omega⟩ hc
      · exact ih hm

/-- A FIN stays in the queue unless a segment without one takes all of the only
entries that have it. -/
theorem queueSegment_keeps_fin (ticks : ℕ) (alloc : Option ℕ)
    (h : th'.thFin = true ∨ ∃ q ∈ tp.tSegq, q.thFin = true ∧
      (q ∈ (splitQueue tp th).2 → ¬ coveredBy (th'.thSeq + BitVec.ofNat 32 th'.tlen) q)) :
    (queueSegment tp ticks alloc th th').FinQueued := by
  rw [queueSegment_eq]
  simp only [ReassCb.FinQueued, ReassCb.segments, List.map_append, List.map_cons]
  rcases h with hf | ⟨q, hq, hf, hc⟩
  · exact ⟨_, List.mem_append.mpr (Or.inr List.mem_cons_self), hf⟩
  · rw [← splitQueue_append tp th] at hq
    rcases List.mem_append.mp hq with hq | hq
    · exact ⟨q.segment, by simp only [List.mem_append]; exact Or.inl (List.mem_map_of_mem hq), hf⟩
    · obtain ⟨q', hq', hf'⟩ := trimSuccessors_fin _ _ q hq (hc hq)
      refine ⟨q'.segment, ?_, hf'.trans hf⟩
      simp only [List.mem_append, List.mem_cons]
      exact Or.inr (Or.inr (List.mem_map_of_mem hq'))

/-- No segment takes the place of the FIN.  The newcomer lies between `first`
and `last`, and `fin` says that it has the FIN. -/
structure ReassCb.FinSafe (tp : ReassCb) (left first last : ℕ) (fin : Bool) : Prop where
  /-- an entry without the FIN does not hold all the data of a segment with it -/
  covered : fin = true → first < left →
    (∃ q ∈ tp.tSegq, off tp.rcvNxt q.thSeq ≤ first ∧ off tp.rcvNxt q.thSeq + q.tqeLen = left) →
    tp.FinQueued
  /-- a segment without the FIN does not take all of the entry with it -/
  covering : fin = false → last = left → tp.FinQueued →
    ∃ q ∈ tp.tSegq, q.thFin = true ∧ (q.tqeLen = 0 ∨ off tp.rcvNxt q.thSeq ≤ first)

section FinSafe

variable {tp : ReassCb} {left : ℕ} {th th' : Segment}

theorem trimByPredecessor_keeps_fin (h : FinQueue tp.rcvNxt left tp.tSegq)
    (hth : th.InStream tp.rcvNxt left)
    (hsafe : tp.FinSafe left (off tp.rcvNxt th.thSeq) (off tp.rcvNxt th.thSeq + th.tlen) th.thFin)
    (htrim : trimByPredecessor (splitQueue tp th).1.getLast? th = none) (hf : th.thFin = true) :
    tp.FinQueued := by
  obtain ⟨q, hq, hle, hlt, hcov⟩ := trimByPredecessor_none (by decide) h.window hth.bound htrim
  have hupto : off tp.rcvNxt q.thSeq + q.tqeLen ≤ left := (h.stream q hq).upto
  have hat := hth.atFin hf
  exact hsafe.covered hf (by omega) ⟨q, hq, hle, by omega⟩

theorem queueSegment_finQueued_iff (ticks : ℕ) (alloc : Option ℕ)
    (h : FinQueue tp.rcvNxt left tp.tSegq) (hth : th.InStream tp.rcvNxt left)
    (hsafe : tp.FinSafe left (off tp.rcvNxt th.thSeq) (off tp.rcvNxt th.thSeq + th.tlen) th.thFin)
    (htrim : trimByPredecessor (splitQueue tp th).1.getLast? th = some th') :
    (queueSegment tp ticks alloc th th').FinQueued ↔ tp.FinQueued ∨ th.thFin = true := by
  obtain ⟨i, ht⟩ := trimByPredecessor_trimmed htrim
  refine ⟨queueSegment_finQueued ticks alloc htrim, fun hor => ?_⟩
  apply queueSegment_keeps_fin ticks alloc
  rw [ht.fin]
  by_cases hf : th.thFin = true
  · exact Or.inl hf
  right
  have hqueued : tp.FinQueued := hor.resolve_right hf
  have hpre : InWindow maxWindow tp.rcvNxt (splitQueue tp th).1 := by
    have hw := h.window
    rw [← splitQueue_append tp th] at hw
    exact hw.of_append.1
  have hb := hth.bound
  obtain ⟨-, hend⟩ := trimByPredecessor_window (by decide) hpre hb htrim
  -- the newcomer takes an entry with the FIN only if it reaches the end of the stream
  have hcov : ∀ q ∈ tp.tSegq, q.thFin = true →
      coveredBy (th'.thSeq + BitVec.ofNat 32 th'.tlen) q →
      off tp.rcvNxt th.thSeq + th.tlen = left ∧ 0 < q.tqeLen := by
    intro q hq hqf ⟨hpos, hlen⟩
    have hbq := h.window.bound q hq
    have hat : off tp.rcvNxt q.thSeq + q.tqeLen = left := (h.stream q hq).atFin hqf
    rw [toInt_end_sub (r := tp.rcvNxt) (W := maxWindow) (by decide) (by omega) (by omega)]
      at hpos hlen
    have := hth.upto
    constructor <;> omega
  by_cases hlast : off tp.rcvNxt th.thSeq + th.tlen = left
  · obtain ⟨q, hq, hqf, hor⟩ := hsafe.covering (Bool.eq_false_iff.mpr hf) hlast hqueued
    refine ⟨q, hq, hqf, fun hpost hc => ?_⟩
    have hlen := (hcov q hq hqf hc).2
    have hafter := mem_splitQueue_snd (by decide) h.window (by omega) hpost
    omega
  · obtain ⟨seg, hseg, hqf⟩ := hqueued
    obtain ⟨q, hq, rfl⟩ := List.mem_map.mp hseg
    exact ⟨q, hq, hqf, fun _ hc => hlast (hcov q hq hqf hc).1⟩

end FinSafe

/-- The connection has delivered a part of the stream from `r₀` on, whose FIN
lies `f` behind `r₀`, and waits for more. -/
structure AwaitingFin (r₀ : TcpSeq) (f : ℕ) (tp : ReassCb) : Prop where
  opened : tp.soRcv.sbCantrcvmore = false
  nxt : tp.rcvNxt = r₀ + BitVec.ofNat 32 tp.out.length
  le : tp.out.length ≤ f
  queue : FinQueue tp.rcvNxt (f - tp.out.length) tp.tSegq

/-- All of the stream has been delivered and the FIN acted on.  Further copies
of the FIN may be left in the queue. -/
structure FinActedOn (r₀ : TcpSeq) (f : ℕ) (tp : ReassCb) : Prop where
  closed : tp.soRcv.sbCantrcvmore = true
  nxt : tp.rcvNxt = r₀ + BitVec.ofNat 32 f + 1
  out : tp.out.length = f
  queue : ∀ th ∈ tp.segments, th.thFin = true ∧ th.thSeq = r₀ + BitVec.ofNat 32 f ∧ th.tlen = 0

structure ReassCb.SameStream (tp tp' : ReassCb) : Prop where
  rcvNxt : tp'.rcvNxt = tp.rcvNxt
  segments : tp'.segments = tp.segments
  handed : tp'.handed = tp.handed
  sbCantrcvmore : tp'.soRcv.sbCantrcvmore = tp.soRcv.sbCantrcvmore

namespace ReassCb.SameStream

variable {tp tp' : ReassCb}

theorem out (h : tp.SameStream tp') : tp'.out = tp.out := by
  rw [ReassCb.out, ReassCb.out, h.handed]

theorem finQueued (h : tp.SameStream tp') : tp'.FinQueued ↔ tp.FinQueued := by
  rw [ReassCb.FinQueued, ReassCb.FinQueued, h.segments]

end ReassCb.SameStream

theorem ReassCb.SameData.sameStream {tp' : ReassCb} (h : tp.SameData tp') :
    tp.SameStream tp' :=
  { h with sbCantrcvmore := by rw [h.soRcv] }

namespace AwaitingFin

variable {r₀ : TcpSeq} {f : ℕ} {tp tp' : ReassCb} {q : TsegQent} {rest : List TsegQent}

theorem congr (hs : tp.SameStream tp') (h : AwaitingFin r₀ f tp) : AwaitingFin r₀ f tp' := by
  refine ⟨hs.sbCantrcvmore.trans h.opened, ?_, ?_, ?_⟩
  · rw [hs.rcvNxt, hs.out]
    exact h.nxt
  · rw [hs.out]
    exact h.le
  · rw [hs.rcvNxt, hs.out]
    exact h.queue.congr hs.segments

section

variable (h : AwaitingFin r₀ f tp)
include h

/-- Where the segments of the stream can be once all of it has been delivered. -/
theorem at_end (hend : tp.out.length = f) :
    ∀ th ∈ tp.segments, th.thFin = true ∧ th.thSeq = tp.rcvNxt ∧ th.tlen = 0 := by
  intro th hth
  obtain ⟨q, hq, rfl⟩ := List.mem_map.mp hth
  have hs := h.queue.stream q hq
  have hupto := hs.upto
  rw [hend, Nat.sub_self, Nat.le_zero, Nat.add_eq_zero_iff] at hupto
  exact ⟨hs.bare hupto.2, off_eq_zero.mp hupto.1, hupto.2⟩

/-- The FIN is acted on when all of the stream has been delivered. -/
theorem actOnFin (hend : tp.out.length = f) : FinActedOn r₀ f tp.actOnFin := by
  have hnxt : tp.rcvNxt = r₀ + BitVec.ofNat 32 f := by rw [h.nxt, hend]
  refine ⟨rfl, ?_, hend, ?_⟩
  · change tp.rcvNxt + 1 = _
    rw [hnxt]
  · rw [← hnxt]
    exact h.at_end hend

/-- The stream moves on by what is handed to `so_rcv`. -/
theorem deliver (ms : List Mbuf) (l : List TsegQent) (hle : chainLen ms ≤ f - tp.out.length)
    (hq : FinQueue (tp.rcvNxt + BitVec.ofNat 32 (chainLen ms)) (f - tp.out.length - chainLen ms) l)
    :
    AwaitingFin r₀ f { tp.appendAll [ms] with
      rcvNxt := tp.rcvNxt + BitVec.ofNat 32 (chainLen ms)
      tSegq := l } := by
  have hlen : (tp.appendAll [ms]).out.length = tp.out.length + chainLen ms := by
    rw [ReassCb.out_appendAll h.opened, List.length_append, chainView_length]
  have hle' := h.le
  refine ⟨(tp.appendAll_sbCantrcvmore _).trans h.opened, ?_, ?_, ?_⟩
  · change tp.rcvNxt + BitVec.ofNat 32 (chainLen ms) =
      r₀ + BitVec.ofNat 32 (tp.appendAll [ms]).out.length
    rw [hlen, h.nxt, BitVec.ofNat_add, add_assoc]
  · change (tp.appendAll [ms]).out.length ≤ f
    omega
  · change FinQueue _ (f - (tp.appendAll [ms]).out.length) l
    rw [hlen, ← Nat.sub_sub]
    exact hq

theorem popEntry (hq : tp.tSegq = q :: rest) (hseq : q.thSeq = tp.rcvNxt) :
    AwaitingFin r₀ f (tp.popEntry q rest) := by
  have hw := h.queue
  rw [hq] at hw
  have hs := hw.stream q (by simp)
  have hlen : chainLen q.tqeM = q.tqeLen := hs.len
  have hupto : off tp.rcvNxt q.thSeq + q.tqeLen ≤ f - tp.out.length := hs.upto
  have hpop := hw.pop
  rw [hseq, off_self, Nat.zero_add] at hpop hupto
  have := h.deliver q.tqeM rest (by omega) (by rw [hlen]; exact hpop)
  rwa [hlen] at this

theorem leadingHole (hq : tp.tSegq = q :: rest) :
    AwaitingFin r₀ f { tp.appendAll [[mGethole (q.thSeq - tp.rcvNxt).toNat]] with
      rcvNxt := q.thSeq } := by
  have hw := h.queue
  rw [hq] at hw
  have hs := hw.stream q (by simp)
  have hupto : off tp.rcvNxt q.thSeq + q.tqeLen ≤ f - tp.out.length := hs.upto
  have hlen : chainLen [mGethole (q.thSeq - tp.rcvNxt).toNat] = off tp.rcvNxt q.thSeq := by
    simp [mGethole, off]
  have := h.deliver [mGethole (q.thSeq - tp.rcvNxt).toNat] tp.tSegq (by omega) (by
    rw [hlen, add_off, hq]
    exact hw.toHead)
  rwa [hlen, add_off] at this

end

theorem queueSegment {th th' : Segment} (ticks : ℕ) (alloc : Option ℕ) (h : AwaitingFin r₀ f tp)
    (hth : th.InStream tp.rcvNxt (f - tp.out.length))
    (htrim : trimByPredecessor (splitQueue tp th).1.getLast? th = some th') :
    AwaitingFin r₀ f (queueSegment tp ticks alloc th th') := by
  have hq := queueSegment_finQueue ticks alloc h.queue hth htrim
  have heq := queueSegment_eq tp ticks alloc th th'
  rw [heq] at hq ⊢
  exact { h with queue := hq }

end AwaitingFin

theorem FinActedOn.congr {r₀ : TcpSeq} {f : ℕ} {tp' : ReassCb} (hs : tp.SameStream tp')
    (h : FinActedOn r₀ f tp) : FinActedOn r₀ f tp' := by
  refine ⟨hs.sbCantrcvmore.trans h.closed, hs.rcvNxt.trans h.nxt, ?_, ?_⟩
  · rw [hs.out, h.out]
  · rw [hs.segments]
    exact h.queue

/-- In the presentation loop.  `flag` is the FIN of the entry delivered last,
and `had` says that a FIN has been accepted. -/
structure Presenting (r₀ : TcpSeq) (f : ℕ) (had : Prop) (tp : ReassCb) (flag : Bool) : Prop where
  awaiting : AwaitingFin r₀ f tp
  atEnd : flag = true → tp.out.length = f
  fin : had ↔ flag = true ∨ tp.FinQueued

section Presenting

variable {r₀ : TcpSeq} {f : ℕ} {had : Prop} {tp tp' : ReassCb} {flag : Bool} {q : TsegQent}
  {rest : List TsegQent}

theorem Presenting.congr (hs : tp.SameData tp') (h : Presenting r₀ f had tp flag) :
    Presenting r₀ f had tp' flag := by
  refine ⟨h.awaiting.congr hs.sameStream, ?_, ?_⟩
  · rw [hs.sameStream.out]
    exact h.atEnd
  · rw [hs.sameStream.finQueued]
    exact h.fin

theorem ReassCb.finQueued_cons (hq : tp.tSegq = q :: rest) :
    tp.FinQueued ↔ q.thFin = true ∨ ∃ a ∈ rest, a.thFin = true := by
  simp [ReassCb.FinQueued, segments, hq, TsegQent.segment]

/-- An entry with the FIN is delivered last. -/
theorem Presenting.popEntry (h : Presenting r₀ f had tp flag) (hq : tp.tSegq = q :: rest)
    (hseq : q.thSeq = tp.rcvNxt) : Presenting r₀ f had (tp.popEntry q rest) q.thFin := by
  have hpop := h.awaiting.popEntry hq hseq
  have hqueue := h.awaiting.queue
  rw [hq] at hqueue
  have hs := hqueue.stream q (by simp)
  have hlen : (tp.popEntry q rest).out.length = tp.out.length + q.tqeLen := by
    change (tp.appendAll [q.tqeM]).out.length = _
    rw [ReassCb.out_appendAll h.awaiting.opened, List.length_append, chainView_length]
    congr 1
    exact hs.len
  have hrest : (tp.popEntry q rest).FinQueued ↔ ∃ a ∈ rest, a.thFin = true := by
    simp [ReassCb.FinQueued, ReassCb.segments, ReassCb.popEntry, TsegQent.segment]
  refine ⟨hpop, ?_, ?_⟩
  · intro hf
    have hat : off tp.rcvNxt q.thSeq + q.tqeLen = f - tp.out.length := hs.atFin hf
    have hle := h.awaiting.le
    rw [hseq, off_self] at hat
    omega
  · rw [h.fin, ReassCb.finQueued_cons hq, hrest]
    constructor
    · rintro (hflag | hf)
      · -- behind the FIN there is nothing but the FIN
        exact Or.inl (h.awaiting.at_end (h.atEnd hflag) q.segment
          (by simp [ReassCb.segments, hq])).1
      · exact hf
    · exact Or.inr

theorem Presenting.leadingHole (h : Presenting r₀ f had tp false) (hq : tp.tSegq = q :: rest) :
    Presenting r₀ f had { tp.appendAll [[mGethole (q.thSeq - tp.rcvNxt).toNat]] with
      rcvNxt := q.thSeq } false :=
  ⟨h.awaiting.leadingHole hq, by simp, h.fin⟩

end Presenting

def ReassCb.Settled (tp : ReassCb) : Prop := ∀ th ∈ tp.segments.head?, th.thSeq ≠ tp.rcvNxt

theorem ReassCb.Settled.congr {tp' : ReassCb} (hs : tp.SameStream tp') (h : tp.Settled) :
    tp'.Settled := by
  rw [ReassCb.Settled, hs.segments, hs.rcvNxt]
  exact h

theorem ReassCb.settled_nil (h : tp.tSegq = []) : tp.Settled := by
  simp [ReassCb.Settled, segments, h]

theorem ReassCb.settled_cons (h : tp.tSegq = q :: rest) (hseq : q.thSeq ≠ tp.rcvNxt) :
    tp.Settled := by
  simpa [ReassCb.Settled, segments, h, TsegQent.segment] using hseq

theorem presentLoop_settled (l : List TsegQent) (s : Present) (hl : s.tp.tSegq = l) :
    (presentLoop l s).tp.Settled := by
  induction l generalizing s with
  | nil => exact ReassCb.settled_nil hl
  | cons q rest ih =>
    unfold presentLoop
    split_ifs with hseq
    · exact ih _ (by rw [presentEntry_tp])
    · exact ReassCb.settled_cons hl hseq

theorem tcpReassPresent_settled (tp : ReassCb) (ticks : ℕ) (leadingHole replace : Bool)
    (he : tp.tState.haveEstablished = true) :
    (tcpReassPresent tp ticks leadingHole replace).1.Settled := by
  obtain ⟨hq, hr⟩ | ⟨q, rest, -, hq, hseq, -, hr⟩ | ⟨q, rest, -, -, -, hr⟩ :=
    tcpReassPresent_cases tp ticks leadingHole replace
  · rw [hr]
    apply ReassCb.settled_nil
    simpa [he] using hq
  · have hset : tp.Settled := ReassCb.settled_cons hq hseq
    rw [hr]
    dsimp only
    split_ifs
    · exact hset.congr (ReassCb.SameData.timer tp _).sameStream
    · exact hset
  · rw [hr]
    exact (presentLoop_settled rest _ (by rw [presentEntry_tp])).congr
      (presentFinish_sameData _ ticks).sameStream

theorem tcpReass_settled (ticks : ℕ) (alloc : Option ℕ) (th : Segment)
    (he : tp.tState.haveEstablished = true) (h : tp.Settled) :
    (tcpReass tp ticks alloc (some th)).1.Settled := by
  obtain ⟨-, -, hr⟩ | ⟨-, -, hr⟩ | ⟨-, th', -, hr⟩ := tcpReass_cases tp ticks alloc th
  · rw [hr]
    exact h
  · rw [congrArg Prod.fst hr]
    exact tcpReassPresent_settled tp ticks _ _ he
  · rw [congrArg Prod.fst hr]
    apply tcpReassPresent_settled
    rw [queueSegment_eq]
    exact he

def FinPhase (r₀ : TcpSeq) (f : ℕ) (had : Prop) (tp : ReassCb) : Prop :=
  (AwaitingFin r₀ f tp ∧ tp.Settled ∧ (had ↔ tp.FinQueued)) ∨ (had ∧ FinActedOn r₀ f tp)

structure FinSound (r₀ : TcpSeq) (f : ℕ) (had : Prop) (tp : ReassCb) : Prop where
  acted : tp.soRcv.sbCantrcvmore = true ↔ had ∧ tp.out.length = f
  le : tp.out.length ≤ f
  nxt : tp.rcvNxt = r₀ + BitVec.ofNat 32 tp.out.length +
    if tp.soRcv.sbCantrcvmore then 1 else 0

section Phase

variable {r₀ : TcpSeq} {f : ℕ} {had : Prop} {tp tp' : ReassCb}

theorem FinPhase.congr (hs : tp.SameStream tp') (h : FinPhase r₀ f had tp) :
    FinPhase r₀ f had tp' := by
  rcases h with ⟨h, hset, hq⟩ | ⟨hhad, h⟩
  · exact Or.inl ⟨h.congr hs, hset.congr hs, by rw [hs.finQueued, hq]⟩
  · exact Or.inr ⟨hhad, h.congr hs⟩

theorem FinPhase.sound (h : FinPhase r₀ f had tp) : FinSound r₀ f had tp := by
  rcases h with ⟨h, hset, hq⟩ | ⟨hhad, h⟩
  · refine ⟨?_, h.le, ?_⟩
    · rw [h.opened, hq]
      constructor
      · intro hc
        cases hc
      · -- a queued FIN would be the entry that is waited for
        rintro ⟨⟨th, hth, -⟩, hend⟩
        cases hl : tp.segments with
        | nil =>
          rw [hl] at hth
          cases hth
        | cons a l =>
          refine absurd (h.at_end hend a (by simp [hl])).2.1 (hset a ?_)
          rw [hl]
          rfl
    · rw [h.opened, h.nxt]
      simp
  · refine ⟨?_, h.out.le, ?_⟩
    · simp [h.closed, hhad, h.out]
    · rw [h.closed, h.nxt, h.out]
      rfl

/-- The end of a call that has presented data. -/
theorem Presenting.phase {flag : Bool} (h : Presenting r₀ f had tp flag) (hset : tp.Settled) :
    FinPhase r₀ f had (if flag then tp.actOnFin else tp) := by
  cases flag with
  | true => exact Or.inr ⟨h.fin.mpr (Or.inl rfl), h.awaiting.actOnFin (h.atEnd rfl)⟩
  | false => exact Or.inl ⟨h.awaiting, hset, by simpa using h.fin⟩

/-- A segment of the stream goes through `tcp_reass`. -/
theorem AwaitingFin.tcpReass {th : Segment} (ticks : ℕ) (alloc : Option ℕ)
    (he : tp.tState.haveEstablished = true) (h : AwaitingFin r₀ f tp) (hset : tp.Settled)
    (hq : had ↔ tp.FinQueued) (hth : th.InStream tp.rcvNxt (f - tp.out.length))
    (hsafe : tp.FinSafe (f - tp.out.length) (off tp.rcvNxt th.thSeq)
      (off tp.rcvNxt th.thSeq + th.tlen) th.thFin) :
    FinPhase r₀ f (had ∨ th.thFin = true ∧
        (shortOfResources tp alloc th = true → tp.inpPassive = true))
      (if (tcpReass tp ticks alloc (some th)).2.1 then
        (tcpReass tp ticks alloc (some th)).1.actOnFin
      else (tcpReass tp ticks alloc (some th)).1) := by
  refine Presenting.phase ?_ (tcpReass_settled ticks alloc th he hset)
  refine tcpReass_flags (J := Presenting r₀ f _) (fun _ _ _ hs hp => hp.congr hs)
    (fun _ _ _ _ hp => hp.popEntry) (fun _ _ _ hp hq _ => hp.leadingHole hq) ticks alloc th ?_ ?_ ?_
  · intro hshort hact
    refine ⟨h, by simp, ?_⟩
    simp [hq, hshort, hact]
  · intro hpas htrim
    have hkeep := trimByPredecessor_keeps_fin h.queue hth hsafe htrim
    refine ⟨h, by simp, ?_⟩
    rw [hq]
    simp only [Bool.false_eq_true, false_or]
    exact ⟨fun hor => hor.elim id fun hf => hkeep hf.1, Or.inl⟩
  · intro hpas th' htrim
    have hiff := queueSegment_finQueued_iff ticks alloc h.queue hth hsafe htrim
    refine ⟨h.queueSegment ticks alloc hth htrim, by simp, ?_⟩
    rw [hiff, hq]
    exact ⟨fun hor => Or.inr (hor.imp_right And.left),
      fun hor => (hor.resolve_left (by decide)).imp_right fun hf => ⟨hf, hpas⟩⟩

theorem Presenting.afterHole {q : TsegQent} {rest : List TsegQent}
    (h : Presenting r₀ f had tp false) (hq : tp.tSegq = q :: rest) :
    Presenting r₀ f had (afterHole tp q rest) q.thFin := by
  unfold Libuinet.afterHole holeBefore
  split_ifs with hseq
  · rw [ReassCb.appendAll_nil, hseq]
    exact h.popEntry hq hseq
  · exact (h.leadingHole hq).popEntry hq rfl

/-- A copy of the FIN left in the queue changes nothing. -/
theorem FinActedOn.deliverHolesEntry {q : TsegQent} {rest : List TsegQent}
    (h : FinActedOn r₀ f tp) (hq : tp.tSegq = q :: rest) :
    FinActedOn r₀ f (deliverHolesEntry tp q rest) := by
  have hqueue := h.queue
  simp only [ReassCb.segments, hq, List.map_cons, List.forall_mem_cons] at hqueue
  obtain ⟨⟨hfin, hseq, hlen⟩, hrest⟩ := hqueue
  have hfree : ∀ l, tp.appendAll l = tp := by
    intro l
    simp [ReassCb.appendAll, h.closed]
  rw [deliverHolesEntry_eq, hfree]
  refine ⟨?_, ?_, h.out, hrest⟩
  · change (tp.soRcv.sbCantrcvmore || q.thFin) = true
    rw [h.closed, Bool.true_or]
  · change q.segment.thSeq + BitVec.ofNat 32 q.segment.tlen + (if q.segment.thFin then 1 else 0) = _
    rw [hfin, hseq, hlen]
    simp

theorem deliverHolesLoop_settled (p : Tqe) (l : List TsegQent) (contiguous : Bool) (tp : ReassCb)
    (hl : tp.tSegq = l) : (deliverHolesLoop p l contiguous tp).Settled := by
  induction l generalizing contiguous tp with
  | nil => exact ReassCb.settled_nil hl
  | cons q rest ih =>
    unfold deliverHolesLoop
    split_ifs with hgap
    · simp only [Bool.and_eq_true, bne_iff_ne] at hgap
      exact ReassCb.settled_cons hl hgap.2
    · exact ih _ _ (by rw [deliverHolesEntry_eq])

theorem tcpReassDeliverHoles_settled (ticks : ℕ) (h : tp.Settled) :
    (tcpReassDeliverHoles tp ticks).Settled := by
  unfold tcpReassDeliverHoles
  split
  · exact h
  · exact (deliverHolesLoop_settled _ _ _ _ rfl).congr (ReassCb.SameData.timer _ _).sameStream

theorem FinActedOn.tcpReassDeliverHoles (h : FinActedOn r₀ f tp) (ticks : ℕ) :
    FinActedOn r₀ f (tcpReassDeliverHoles tp ticks) :=
  tcpReassDeliverHoles_rule (fun _ _ hs => FinActedOn.congr hs.sameStream)
    (fun _ _ _ h hq => h.deliverHolesEntry hq) h ticks

/-- In the middle of the loop the next entry may be the one that is waited for. -/
theorem Presenting.tcpReassDeliverHoles (h : Presenting r₀ f had tp false) (ticks : ℕ) :
    Presenting r₀ f had (tcpReassDeliverHoles tp ticks) false ∨
      had ∧ FinActedOn r₀ f (tcpReassDeliverHoles tp ticks) := by
  refine tcpReassDeliverHoles_rule
    (I := fun tp => Presenting r₀ f had tp false ∨ (had ∧ FinActedOn r₀ f tp))
    (fun _ _ hs => Or.imp (Presenting.congr hs) (And.imp_right (FinActedOn.congr hs.sameStream)))
    ?_ (Or.inl h) ticks
  rintro tp q rest (h | ⟨hhad, h⟩) hq
  · have hpop := h.afterHole hq
    have hsame := deliverHolesEntry_sameData tp q rest
    cases hf : q.thFin with
    | true =>
      rw [hf] at hpop hsame
      exact Or.inr ⟨hpop.fin.mpr (Or.inl rfl),
        (hpop.awaiting.actOnFin (hpop.atEnd rfl)).congr hsame.sameStream⟩
    | false =>
      rw [hf] at hpop hsame
      exact Or.inl (hpop.congr hsame)
  · exact Or.inr ⟨hhad, h.deliverHolesEntry hq⟩

theorem FinPhase.tcpReassDeliverHoles (h : FinPhase r₀ f had tp) (ticks : ℕ) :
    FinPhase r₀ f had (tcpReassDeliverHoles tp ticks) := by
  rcases h with ⟨h, hset, hq⟩ | ⟨hhad, h⟩
  · have hpres : Presenting r₀ f had tp false := ⟨h, by simp, by simpa using hq⟩
    rcases hpres.tcpReassDeliverHoles ticks with h' | h'
    · exact Or.inl ⟨h'.awaiting, tcpReassDeliverHoles_settled ticks hset, by simpa using h'.fin⟩
    · exact Or.inr h'
  · exact Or.inr ⟨hhad, h.tcpReassDeliverHoles ticks⟩

end Phase

end Libuinet
