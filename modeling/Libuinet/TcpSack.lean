import Libuinet.Execution
import Libuinet.TcpOptions

namespace Libuinet

open Execution SerialArith

def maxSackBlks : ℕ := 6

def mergeSackblks (rcvNxt : TcpSeq) : List Sackblk → Sackblk → Sackblk × List Sackblk
  | [], headBlk => (headBlk, [])
  | blk :: sackblks, headBlk =>
    if seqGeq blk.start blk.stop || seqLeq blk.start rcvNxt then
      mergeSackblks rcvNxt sackblks headBlk
    else if seqLeq headBlk.start blk.stop && seqGeq headBlk.stop blk.start then
      mergeSackblks rcvNxt sackblks
        { start := if seqGt headBlk.start blk.start then blk.start else headBlk.start
          stop := if seqLt headBlk.stop blk.stop then blk.stop else headBlk.stop }
    else
      let r := mergeSackblks rcvNxt sackblks headBlk
      (r.1, blk :: r.2)

def numSaved (n : ℕ) : ℕ := if maxSackBlks ≤ n then n - 1 else n

def tcpUpdateSackList (rcvNxt : TcpSeq) (sackblks : List Sackblk) (rcvStart rcvEnd : TcpSeq) :
    List Sackblk :=
  let r := mergeSackblks rcvNxt sackblks ⟨rcvStart, rcvEnd⟩
  if seqGt r.1.start rcvNxt then r.1 :: r.2.take (numSaved r.2.length) else r.2

abbrev seqAt (r : TcpSeq) (x : ℤ) : TcpSeq := r + BitVec.ofInt 32 x

/-- The bytes from `lo` up to `hi`. -/
structure Span where
  lo : ℤ
  hi : ℤ

namespace Span

def Apart (p q : Span) : Prop := p.hi < q.lo ∨ q.hi < p.lo

/-- Not empty, near `nxt`, and of received bytes. -/
structure Fits (nxt : ℤ) (rcvd : ℤ → Prop) (p : Span) : Prop where
  lo : nxt - 2 ^ 30 < p.lo
  lt : p.lo < p.hi
  hi : p.hi ≤ nxt + 2 ^ 30
  rcvd : ∀ x, p.lo ≤ x → x < p.hi → rcvd x

def blk (r : TcpSeq) (p : Span) : Sackblk := ⟨seqAt r p.lo, seqAt r p.hi⟩

/-- What the loop makes of the blocks `l` and the segment `h`. -/
structure Merged (nxt : ℤ) (rcvd : ℤ → Prop) (l : List Span) (h h' : Span) (saved : List Span) :
    Prop where
  fits : h'.Fits nxt rcvd
  covers : h'.lo ≤ h.lo ∧ h.hi ≤ h'.hi ∧ (nxt < h.lo → nxt < h'.lo)
  sub : saved.Sublist l
  ahead : ∀ p ∈ saved, nxt < p.lo ∧ h'.Apart p
  others : ∀ p : Span, p.lo < p.hi → h.Apart p → (∀ q ∈ l, q.Apart p) → h'.Apart p

variable {r : TcpSeq} {nxt : ℤ} {rcvd : ℤ → Prop} {l : List Span} {h : Span}

theorem mergeSackblks_spec (hl : ∀ p ∈ l, p.Fits nxt rcvd) (hapart : l.Pairwise Apart)
    (hh : h.Fits nxt rcvd) : ∃ h' saved, Merged nxt rcvd l h h' saved ∧
      mergeSackblks (seqAt r nxt) (l.map (blk r)) (h.blk r) = (h'.blk r, saved.map (blk r)) := by
  induction l generalizing h with
  | nil => exact ⟨h, [], ⟨hh, by simp, by simp, by simp, by simp⟩, rfl⟩
  | cons q l ih =>
    obtain ⟨⟨hlo, hlt, hhi, hrcvd⟩, hl⟩ := List.forall_mem_cons.1 hl
    obtain ⟨hql, hapart⟩ := List.pairwise_cons.1 hapart
    obtain ⟨hlo', hlt', hhi', hrcvd'⟩ := id hh
    have hjoin : (⟨if q.lo < h.lo then seqAt r q.lo else seqAt r h.lo,
        if h.hi < q.hi then seqAt r q.hi else seqAt r h.hi⟩ : Sackblk) =
          blk r ⟨min h.lo q.lo, max h.hi q.hi⟩ := by grind [blk]
    -- the sequence numbers compare as the positions do
    rw [List.map_cons, mergeSackblks]
    simp (disch := omega) only [blk, seqGeq, seqLeq, seqGt, seqLt, toInt_sub_ofInt]
    simp only [sub_nonneg, sub_nonpos, sub_pos, sub_neg, hlt.not_ge, decide_eq_true_eq,
      Bool.or_eq_true, Bool.and_eq_true, decide_false, Bool.false_eq_true, false_or, hjoin]
    split_ifs with hskip htouch
    · obtain ⟨h', saved, hm, heq⟩ := ih hl hapart hh
      exact ⟨h', saved, { hm with sub := hm.sub.cons q, others := by grind [hm.others] }, heq⟩
    · obtain ⟨h', saved, hm, heq⟩ := ih (h := ⟨min h.lo q.lo, max h.hi q.hi⟩) hl hapart
        ⟨by grind, by grind, by grind, by grind⟩
      refine ⟨h', saved, ⟨hm.fits, by grind [hm.covers], hm.sub.cons q, hm.ahead, ?_⟩, heq⟩
      intro p hp hap hqp
      have := hqp q (by simp)
      exact hm.others p hp (by grind [Apart]) (by grind)
    · obtain ⟨h', saved, hm, heq⟩ := ih hl hapart hh
      have hq := hm.others q hlt (by grind [Apart]) (by grind [Apart])
      refine ⟨h', q :: saved, { hm with
        sub := hm.sub.cons_cons q
        ahead := List.forall_mem_cons.2 ⟨⟨by omega, hq⟩, hm.ahead⟩
        others := by grind [hm.others] }, ?_⟩
      dsimp only [blk] at heq
      rw [heq]
      rfl

end Span

/-- A receiver: `rcv_nxt` and the segments since the list was empty, by positions, and
`sackblks`. -/
structure SackRcvr where
  nxt : ℤ := 0
  segs : List Span := []
  sackblks : List Sackblk := []

namespace SackRcvr

inductive Op where
  /-- `tcp_update_sack_list`, with `rcv_nxt` at `nxt` -/
  | update (nxt : ℤ) (seg : Span)
  /-- `tcp_clean_sackreport` -/
  | clean

variable (r : TcpSeq) (s : SackRcvr)

def step : Op → SackRcvr
  | .update nxt seg =>
    ⟨nxt, seg :: s.segs,
      tcpUpdateSackList (seqAt r nxt) s.sackblks (seqAt r seg.lo) (seqAt r seg.hi)⟩
  | .clean => { s with segs := [], sackblks := [] }

/-- Segments lie in the window, and `rcv_nxt` moves by no more than a window. -/
def Allows : Op → Prop
  | .update nxt seg => s.nxt ≤ nxt ∧ (s.sackblks = [] ∨ nxt ≤ s.nxt + 2 ^ 30) ∧
      nxt - 2 ^ 30 < seg.lo ∧ seg.lo < seg.hi ∧ seg.hi ≤ nxt + 2 ^ 30
  | .clean => True

def Rcvd (x : ℤ) : Prop := ∃ seg ∈ s.segs, seg.lo ≤ x ∧ x < seg.hi

/-- The blocks lie ahead of `rcv_nxt` and apart from each other.  They hold received bytes only, and
the first one holds the latest segment if that is ahead. -/
structure Reports (l : List Span) : Prop where
  sackblks : s.sackblks = l.map (Span.blk r)
  length : l.length ≤ maxSackBlks
  ahead : ∀ p ∈ l, s.nxt < p.lo ∧ p.Fits s.nxt s.Rcvd
  apart : l.Pairwise Span.Apart
  latest : ∀ seg ∈ s.segs.head?, s.nxt < seg.lo → ∃ p ∈ l.head?, p.lo ≤ seg.lo ∧ seg.hi ≤ p.hi

variable {r s}

theorem Reports.update {l : List Span} (hs : s.Reports r l) {nxt : ℤ} {seg : Span}
    (hop : s.Allows (.update nxt seg)) : ∃ l', (s.step r (.update nxt seg)).Reports r l' := by
  obtain ⟨hle, hsoon, hlo, hlt, hhi⟩ := hop
  rw [hs.sackblks, List.map_eq_nil_iff] at hsoon
  have hl : ∀ p ∈ l, p.Fits nxt (s.step r (.update nxt seg)).Rcvd := by
    intro p hp
    obtain ⟨hplo, -, hplt, hphi, hrcvd⟩ := hs.ahead p hp
    have := hsoon.resolve_left (List.ne_nil_of_mem hp)
    exact ⟨by omega, hplt, by omega, by grind [Rcvd, step]⟩
  obtain ⟨h, saved, hm, heq⟩ := Span.mergeSackblks_spec (r := r) hl hs.apart
    ⟨hlo, hlt, hhi, fun x hx hx' => ⟨seg, by simp [step], hx, hx'⟩⟩
  have hgt : seqGt (h.blk r).start (seqAt r nxt) = decide (nxt < h.lo) := by
    obtain ⟨hlo, hlt, hhi⟩ := hm.fits
    simp (disch := omega) only [seqGt, Span.blk, toInt_sub_ofInt, sub_pos]
  have hlen := hm.sub.length_le.trans hs.length
  have hsaved : ∀ p ∈ saved, nxt < p.lo ∧ p.Fits nxt _ := fun p hp =>
    ⟨(hm.ahead p hp).1, hl p (hm.sub.subset hp)⟩
  have hpair := hs.apart.sublist hm.sub
  have hblks : (s.step r (.update nxt seg)).sackblks =
      (if nxt < h.lo then h :: saved.take (numSaved saved.length) else saved).map (Span.blk r) := by
    change tcpUpdateSackList _ _ (seg.blk r).start (seg.blk r).stop = _
    simp only [tcpUpdateSackList, hs.sackblks, heq, hgt, decide_eq_true_eq, List.length_map]
    split_ifs <;> simp
  split_ifs at hblks with hout
  · have hcut := saved.take_sublist (numSaved saved.length)
    refine ⟨_, hblks, ?_, ?_, ?_, by simp [step, hm.covers]⟩
    · grind [maxSackBlks, numSaved]
    · exact List.forall_mem_cons.2 ⟨⟨hout, hm.fits⟩, fun p hp => hsaved p (hcut.subset hp)⟩
    · exact List.pairwise_cons.2
        ⟨fun p hp => (hm.ahead p (hcut.subset hp)).2, hpair.sublist hcut⟩
  · refine ⟨_, hblks, hlen, hsaved, hpair, ?_⟩
    rintro _ ⟨⟩ hahead
    exact absurd (hm.covers.2.2 hahead) hout

/-- In every run the list is a report of what has been received, in at most six blocks, and the
options of a segment hand the first of them on to the other side. -/
theorem sack_report (r : TcpSeq) (ops : List Op) (tcpDoSack : Bool) (opts : TcpOpt)
    (hops : Along (step r) Allows {} ops) (hmss : opts.toMss < 2 ^ 16)
    (hscale : opts.toWscale < 2 ^ 8) :
    let s := run (step r) {} ops
    ∃ l, s.Reports r l ∧
      (tcpDooptions tcpDoSack false (tcpAddoptions
        { opts with tofSack := true, toSacks := s.sackblks })).toSacks =
          (l.take opts.sackRoom).map (Span.blk r) := by
  intro s
  have hreport : ∃ l, s.Reports r l := by
    refine run_invariant (I := fun s => ∃ l, s.Reports r l) ?_ ?_ hops
    · rintro s (⟨nxt, seg⟩ | _) ⟨l, hs⟩ hop
      · exact hs.update hop
      · exact ⟨[], rfl, by simp, by simp, by simp, by simp [step]⟩
    · exact ⟨[], rfl, by simp, by simp, by simp, by simp⟩
  obtain ⟨l, hl⟩ := hreport
  have hread := tcpDooptions_tcpAddoptions tcpDoSack false
    { opts with tofSack := true, toSacks := s.sackblks } hmss hscale
  refine ⟨l, hl, ?_⟩
  rw [hread, List.map_take, ← hl.sackblks]
  rfl

/-- The third segment joins the first two. -/
theorem sack_report_joined :
    let s := run (step 0) {} [.update 0 ⟨1, 2⟩, .update 0 ⟨3, 4⟩, .update 0 ⟨2, 3⟩]
    s.sackblks.length = 1 ∧ ∃ l, s.Reports 0 l := by
  intro s
  obtain ⟨l, hl, -⟩ := sack_report 0 [.update 0 ⟨1, 2⟩, .update 0 ⟨3, 4⟩, .update 0 ⟨2, 3⟩] true {}
    (by simp [Along, Allows, step]) (by decide) (by decide)
  exact ⟨by decide, l, hl⟩

end SackRcvr

end Libuinet
