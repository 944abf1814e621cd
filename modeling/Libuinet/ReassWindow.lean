import Libuinet.Reass

namespace Libuinet

open SerialArith

/-- The entries lie in order, apart from each other and within `W` of `r`. -/
structure InWindow (W : ℕ) (r : TcpSeq) (l : List TsegQent) : Prop where
  sorted : l.Pairwise fun a b => off r a.thSeq + a.tqeLen ≤ off r b.thSeq
  bound : ∀ q ∈ l, off r q.thSeq + q.tqeLen ≤ W

theorem inWindow_nil (W : ℕ) (r : TcpSeq) : InWindow W r [] := ⟨List.Pairwise.nil, by simp⟩

variable {l : List TsegQent} {r : TcpSeq} {W : ℕ}

theorem InWindow.mono {W' : ℕ} (h : InWindow W r l) (hW : W ≤ W') : InWindow W' r l :=
  ⟨h.sorted, fun q hq => (h.bound q hq).trans hW⟩

theorem InWindow.of_append {l' : List TsegQent} (h : InWindow W r (l ++ l')) :
    InWindow W r l ∧ InWindow W r l' ∧
      ∀ a ∈ l, ∀ b ∈ l', off r a.thSeq + a.tqeLen ≤ off r b.thSeq := by
  obtain ⟨h₁, h₂, h₁₂⟩ := List.pairwise_append.mp h.sorted
  exact ⟨⟨h₁, fun q hq => h.bound q (by simp [hq])⟩, ⟨h₂, fun q hq => h.bound q (by simp [hq])⟩,
    h₁₂⟩

/-- Seen from a later point that no entry lies before, the entries are in order
again. -/
theorem InWindow.advance (h : InWindow W r l) (k : ℕ) (hk : ∀ q ∈ l, k ≤ off r q.thSeq) :
    InWindow (W - k) (r + BitVec.ofNat 32 k) l := by
  refine ⟨?_, ?_⟩
  · refine h.sorted.imp_of_mem ?_
    intro a b ha hb hab
    have hka := hk a ha
    rw [off_advance r a.thSeq k hka, off_advance r b.thSeq k (hk b hb)]
    omega
  · intro a ha
    have hka := hk a ha
    have hb := h.bound a ha
    rw [off_advance r a.thSeq k hka]
    omega

section

variable {q : TsegQent} {rest : List TsegQent} (h : InWindow W r (q :: rest))
include h

/-- The window moves to the first entry. -/
theorem InWindow.toHead : InWindow W q.thSeq (q :: rest) := by
  obtain ⟨hhead, -⟩ := List.pairwise_cons.mp h.sorted
  have hadv := h.advance (off r q.thSeq) (by
    intro a ha
    rcases List.mem_cons.mp ha with rfl | ha
    · rfl
    · have := hhead a ha
      omega)
  rw [add_off] at hadv
  exact hadv.mono (Nat.sub_le _ _)

/-- The window moves behind the first entry. -/
theorem InWindow.pop :
    InWindow (W - (off r q.thSeq + q.tqeLen)) (q.thSeq + BitVec.ofNat 32 q.tqeLen) rest := by
  obtain ⟨hhead, hrest⟩ := List.pairwise_cons.mp h.sorted
  have htail : InWindow W r rest := ⟨hrest, fun a ha => h.bound a (by simp [ha])⟩
  have hadv := htail.advance (off r q.thSeq + q.tqeLen) hhead
  rwa [BitVec.ofNat_add, ← add_assoc, add_off] at hadv

end

theorem InWindow.congr {l' : List TsegQent} (h : InWindow W r l)
    (he : l'.map TsegQent.segment = l.map TsegQent.segment) : InWindow W r l' := by
  have hiff : ∀ l : List TsegQent, InWindow W r l ↔
      (l.map TsegQent.segment).Pairwise (fun a b => off r a.thSeq + a.tlen ≤ off r b.thSeq) ∧
        ∀ th ∈ l.map TsegQent.segment, off r th.thSeq + th.tlen ≤ W := by
    intro l
    simp only [List.pairwise_map, List.forall_mem_map]
    exact ⟨fun h => ⟨h.sorted, h.bound⟩, fun h => ⟨h.1, h.2⟩⟩
  rw [hiff, he, ← hiff]
  exact h

section Compare

variable {r : TcpSeq} {W : ℕ}

theorem seqGt_iff (hW : W < 2 ^ 31) {a b : TcpSeq} (ha : off r a ≤ W) (hb : off r b ≤ W) :
    seqGt a b = true ↔ off r b < off r a := by
  rw [seqGt, decide_eq_true_eq, toInt_sub r a b (by omega) (by omega)]
  omega

/-- The end of a stretch that stays within the window. -/
theorem off_end (hW : W < 2 ^ 31) {a : TcpSeq} {len : ℕ} (ha : off r a + len ≤ W) :
    off r (a + BitVec.ofNat 32 len) = off r a + len :=
  off_add r a len (by omega)

theorem toInt_end_sub (hW : W < 2 ^ 31) {a b : TcpSeq} {len : ℕ} (ha : off r a + len ≤ W)
    (hb : off r b ≤ W) :
    (a + BitVec.ofNat 32 len - b).toInt = (off r a + len : ℤ) - off r b := by
  have he := off_end hW ha
  rw [toInt_sub r _ b (by omega) (by omega), he]
  push_cast
  ring

end Compare

/-- `th'` is `th` without its first `i` bytes. -/
structure Segment.TrimmedTo (th th' : Segment) (i : ℕ) : Prop where
  lt : i ≠ 0 → i < th.tlen
  seq : th'.thSeq = th.thSeq + BitVec.ofNat 32 i
  len : th'.tlen = th.tlen - i
  fin : th'.thFin = th.thFin
  data : th'.m = if i = 0 then th.m else mAdj th.m i

theorem Segment.TrimmedTo.le {th th' : Segment} {i : ℕ} (h : th.TrimmedTo th' i) :
    i ≤ th.tlen := by
  by_cases hi : i = 0
  · omega
  · exact (h.lt hi).le

theorem Segment.TrimmedTo.refl (th : Segment) : th.TrimmedTo th 0 :=
  ⟨fun h => absurd rfl h, by simp, by simp, rfl, by simp⟩

theorem trimByPredecessor_trimmed {p : Option TsegQent} {th th' : Segment}
    (h : trimByPredecessor p th = some th') : ∃ i, th.TrimmedTo th' i := by
  cases p with
  | none =>
    obtain rfl : th = th' := Option.some.inj h
    exact ⟨0, .refl th⟩
  | some p =>
    simp only [trimByPredecessor] at h
    split_ifs at h with h0 hle
    · obtain rfl := Option.some.inj h
      have hpos : (p.thSeq + BitVec.ofNat 32 p.tqeLen - th.thSeq).toInt.toNat ≠ 0 := by omega
      refine ⟨_, ?_, rfl, rfl, rfl, ?_⟩
      · omega
      · rw [if_neg hpos, Int.toNat_of_nonneg h0.le]
    · obtain rfl : th = th' := Option.some.inj h
      exact ⟨0, .refl th⟩

/-- The entries that stay are suffixes of entries that were there. -/
theorem trimSuccessors_trimmed (edge : TcpSeq) (post : List TsegQent) :
    ∀ q' ∈ (trimSuccessors edge post).1, ∃ q ∈ post, ∃ i, q.segment.TrimmedTo q'.segment i := by
  induction post with
  | nil => simp [trimSuccessors]
  | cons q post ih =>
    intro q' hq'
    unfold trimSuccessors at hq'
    dsimp only at hq'
    split_ifs at hq' with h0 hlt
    · exact ⟨q', hq', 0, .refl _⟩
    · rcases List.mem_cons.mp hq' with rfl | hm
      · have hpos : (edge - q.thSeq).toInt.toNat ≠ 0 := by omega
        refine ⟨q, by simp, (edge - q.thSeq).toInt.toNat, ?_, rfl, rfl, rfl, ?_⟩
        · have hlen : q.segment.tlen = q.tqeLen := rfl
          omega
        · rw [if_neg hpos, Int.toNat_of_nonneg (by omega)]
          rfl
      · exact ⟨q', by simp [hm], 0, .refl _⟩
    · obtain ⟨a, ha, hi⟩ := ih q' hq'
      exact ⟨a, by simp [ha], hi⟩

section Queueing

variable {r : TcpSeq} {W : ℕ}

/-- What is left of a segment lies behind its predecessors and ends where the
segment ended. -/
theorem trimByPredecessor_window (hW : W < 2 ^ 31) {pre : List TsegQent} {th th' : Segment}
    (hpre : InWindow W r pre) (hth : off r th.thSeq + th.tlen ≤ W)
    (h : trimByPredecessor pre.getLast? th = some th') :
    (∀ q ∈ pre, off r q.thSeq + q.tqeLen ≤ off r th'.thSeq) ∧
      off r th'.thSeq + th'.tlen = off r th.thSeq + th.tlen := by
  obtain ⟨i, htrim⟩ := trimByPredecessor_trimmed h
  have hi := htrim.le
  have hend : off r th'.thSeq + th'.tlen = off r th.thSeq + th.tlen := by
    rw [htrim.seq, htrim.len, off_end hW (by omega)]
    omega
  refine ⟨?_, hend⟩
  rcases List.eq_nil_or_concat pre with rfl | ⟨l, p, rfl⟩
  · simp
  rw [List.concat_eq_append] at hpre h
  obtain ⟨-, -, hlast⟩ := hpre.of_append
  have hp := hpre.bound p (by simp)
  have hbehind : off r p.thSeq + p.tqeLen ≤ off r th'.thSeq := by
    simp only [List.getLast?_append, List.getLast?_singleton, Option.some_or,
      trimByPredecessor] at h
    rw [toInt_end_sub hW hp (by omega : off r th.thSeq ≤ W)] at h
    split_ifs at h with h0 hle
    · obtain rfl := Option.some.inj h
      dsimp only
      rw [off_end hW (by omega)]
      omega
    · obtain rfl : th = th' := Option.some.inj h
      omega
  intro q hq
  rcases List.mem_append.mp (by simpa using hq : q ∈ l ++ [p]) with hm | hm
  · have hqp := hlast q hm p (by simp)
    omega
  · obtain rfl := List.mem_singleton.mp hm
    exact hbehind

/-- What is left of the following entries lies behind the segment. -/
theorem trimSuccessors_window (hW : W < 2 ^ 31) {edge : TcpSeq} (hedge : off r edge ≤ W)
    {post : List TsegQent} (hpost : InWindow W r post) :
    InWindow W r (trimSuccessors edge post).1 ∧
      ∀ q ∈ (trimSuccessors edge post).1, off r edge ≤ off r q.thSeq := by
  induction post with
  | nil => exact ⟨hpost, by simp [trimSuccessors]⟩
  | cons q post ih =>
    obtain ⟨hhead, hrest⟩ := List.pairwise_cons.mp hpost.sorted
    have hq := hpost.bound q (by simp)
    have htail : InWindow W r post := ⟨hrest, fun a ha => hpost.bound a (by simp [ha])⟩
    have hi : (edge - q.thSeq).toInt = (off r edge : ℤ) - off r q.thSeq :=
      toInt_sub r edge q.thSeq (by omega) (by omega)
    unfold trimSuccessors
    dsimp only
    rw [hi]
    split_ifs with h0 hlt
    · refine ⟨hpost, ?_⟩
      intro a ha
      rcases List.mem_cons.mp ha with rfl | ha
      · omega
      · have := hhead a ha
        omega
    · have hoff : off r (q.thSeq + BitVec.ofNat 32 ((off r edge : ℤ) - off r q.thSeq).toNat) =
          off r edge := by
        rw [off_end hW (by omega)]
        omega
      refine ⟨⟨List.pairwise_cons.mpr ⟨?_, hrest⟩, ?_⟩, ?_⟩
      · intro a ha
        have := hhead a ha
        dsimp only
        rw [hoff]
        omega
      · intro a ha
        rcases List.mem_cons.mp ha with rfl | ha
        · dsimp only
          rw [hoff]
          omega
        · exact htail.bound a ha
      · intro a ha
        rcases List.mem_cons.mp ha with rfl | ha
        · dsimp only
          rw [hoff]
        · have := hhead a ha
          omega
    · exact ih htail

/-- A segment inside the window leaves the queue in order. -/
theorem queueSegment_window (hW : W < 2 ^ 31) {tp : ReassCb} {th th' : Segment} (ticks : ℕ)
    (alloc : Option ℕ) (h : InWindow W r tp.tSegq) (hth : off r th.thSeq + th.tlen ≤ W)
    (htrim : trimByPredecessor (splitQueue tp th).1.getLast? th = some th') :
    InWindow W r (queueSegment tp ticks alloc th th').tSegq := by
  rw [← splitQueue_append tp th] at h
  obtain ⟨hpre, hpost, -⟩ := h.of_append
  obtain ⟨hbehind, hend⟩ := trimByPredecessor_window hW hpre hth htrim
  have hedge := off_end hW (by omega : off r th'.thSeq + th'.tlen ≤ W)
  obtain ⟨hpost', hafter⟩ := trimSuccessors_window hW
    (by omega : off r (th'.thSeq + BitVec.ofNat 32 th'.tlen) ≤ W) hpost
  rw [queueSegment_eq]
  refine ⟨?_, ?_⟩
  · rw [List.pairwise_append, List.pairwise_cons]
    refine ⟨hpre.sorted, ⟨?_, hpost'.sorted⟩, ?_⟩
    · intro b hb
      have := hafter b hb
      dsimp only
      omega
    · intro a ha b hb
      have hab := hbehind a ha
      rcases List.mem_cons.mp hb with rfl | hb
      · exact hab
      · have := hafter b hb
        omega
  · intro q hq
    rcases List.mem_append.mp hq with hq | hq
    · exact hpre.bound q hq
    · rcases List.mem_cons.mp hq with rfl | hq
      · dsimp only
        omega
      · exact hpost'.bound q hq

end Queueing

end Libuinet
