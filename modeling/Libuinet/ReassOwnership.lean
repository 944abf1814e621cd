import Libuinet.Execution
import Libuinet.Reass

namespace Libuinet

open Execution TailQueue

def ReassCb.addrs (tp : ReassCb) : List Tqe := tp.tSegq.map TsegQent.tqe

/-- The age list is `ages` and holds the entries of `t_segq`, `t_segqlen`
counts them, and the zone holds them and the item `spare`. -/
structure Linked (tp : ReassCb) (ages : List Tqe) (spare : Option ℕ) : Prop where
  list : tp.tSegageq.IsList ages
  perm : ages.Perm tp.addrs
  count : tp.tSegqlen = tp.tSegq.length
  zone : ∀ n, n ∈ tp.zone ↔ Tqe.zone n ∈ tp.addrs ∨ spare = some n
  spare_free : ∀ n, spare = some n → Tqe.zone n ∉ tp.addrs

/-- Both lists hold the same entries, `t_segqlen` counts them, the zone holds
just these, and `tqs` is not one of them. -/
def ReassCb.Owned (tp : ReassCb) : Prop := (∃ ages, Linked tp ages none) ∧ Tqe.tqs ∉ tp.addrs

namespace Linked

variable {tp tp' : ReassCb} {ages : List Tqe} {spare : Option ℕ} {q : TsegQent}
  {rest : List TsegQent}

theorem nodup (h : Linked tp ages spare) : tp.addrs.Nodup := h.perm.nodup_iff.mp h.list.nodup

section

variable (h : Linked tp ages spare) (hq : tp.tSegq = q :: rest) (hq' : tp'.tSegq = rest)
  (ha : tp'.tSegageq = tp.tSegageq.remove q.tqe) (hc : tp'.tSegqlen = tp.tSegqlen - 1)
include h hq hq' ha hc

/-- The first entry leaves both lists, and the zone changes as it may. -/
theorem pop {spare' : Option ℕ} (hz : ∀ n, n ∈ tp'.zone ↔ Tqe.zone n ∈ tp'.addrs ∨ spare' = some n)
    (hs : ∀ n, spare' = some n → Tqe.zone n ∉ tp'.addrs) :
    Linked tp' (ages.erase q.tqe) spare' := by
  have haddrs : tp.addrs = q.tqe :: tp'.addrs := by simp [ReassCb.addrs, hq, hq']
  have hmem : q.tqe ∈ ages := h.perm.mem_iff.mpr (by simp [haddrs])
  refine ⟨?_, ?_, ?_, hz, hs⟩
  · rw [ha]
    exact h.list.remove_mem hmem
  · have hp := h.perm.erase q.tqe
    rwa [haddrs, List.erase_cons_head] at hp
  · rw [hc, h.count, hq, hq']
    simp

/-- The first entry is delivered and its item freed. -/
theorem pop_free (hz : tp'.zone = zoneWithout tp.zone q.tqe) :
    Linked tp' (ages.erase q.tqe) spare := by
  have haddrs : tp.addrs = q.tqe :: tp'.addrs := by simp [ReassCb.addrs, hq, hq']
  have hnd := h.nodup
  rw [haddrs, List.nodup_cons] at hnd
  have hspare : ∀ n, spare = some n → Tqe.zone n ∉ q.tqe :: tp'.addrs := by
    intro n hn
    rw [← haddrs]
    exact h.spare_free n hn
  apply h.pop hq hq' ha hc
  · intro n
    have hzn := h.zone n
    rw [haddrs, List.mem_cons] at hzn
    cases hk : q.tqe with
    | tqs =>
      rw [hz, hk, zoneWithout, hzn, hk]
      simp
    | zone k =>
      rw [hz, hk, zoneWithout, Finset.mem_erase, hzn, hk]
      by_cases hnk : n = k
      · subst hnk
        have hns : spare ≠ some n := fun hn => hspare n hn (by simp [hk])
        have hnr : Tqe.zone n ∉ tp'.addrs := by
          rw [← hk]
          exact hnd.1
        simp [hns, hnr]
      · simp [hnk]
  · intro n hn hm
    exact hspare n hn (List.mem_cons_of_mem _ hm)

end

/-- The first entry is delivered and its item set aside. -/
theorem pop_keep (h : Linked tp ages none) (hq : tp.tSegq = q :: rest) (hq' : tp'.tSegq = rest)
    (ha : tp'.tSegageq = tp.tSegageq.remove q.tqe) (hc : tp'.tSegqlen = tp.tSegqlen - 1)
    {k : ℕ} (hk : q.tqe = .zone k) (hz : tp'.zone = tp.zone) :
    Linked tp' (ages.erase q.tqe) (some k) := by
  have haddrs : tp.addrs = q.tqe :: tp'.addrs := by simp [ReassCb.addrs, hq, hq']
  have hnd := h.nodup
  rw [haddrs, List.nodup_cons, hk] at hnd
  apply h.pop hq hq' ha hc
  · intro n
    have hzn := h.zone n
    rw [haddrs, List.mem_cons, hk, Tqe.zone.injEq] at hzn
    rw [hz, hzn, Option.some.injEq, eq_comm (a := k)]
    simp [or_comm]
  · intro n hn
    cases hn
    exact hnd.1

end Linked

theorem presentEntry_linked {s : Present} {ages : List Tqe} {q : TsegQent}
    {rest : List TsegQent} (h : Linked s.tp ages s.reclaimedTqe) (hq : s.tp.tSegq = q :: rest) :
    Linked (presentEntry s q rest).tp (ages.erase q.tqe) (presentEntry s q rest).reclaimedTqe := by
  have htp := presentEntry_tp s q rest
  have hq' : (presentEntry s q rest).tp.tSegq = rest := by rw [htp]
  have ha : (presentEntry s q rest).tp.tSegageq = s.tp.tSegageq.remove q.tqe := by rw [htp]
  have hc : (presentEntry s q rest).tp.tSegqlen = s.tp.tSegqlen - 1 := by rw [htp]
  have hz := congrArg ReassCb.zone htp
  dsimp only at hz
  cases hk : q.tqe with
  | tqs =>
    have hrec : (presentEntry s q rest).reclaimedTqe = s.reclaimedTqe := by
      simp only [presentEntry, hk]
    rw [hrec, ← hk]
    refine h.pop_free hq hq' ha hc ?_
    rw [hz, hk]
    simp [zoneWithout]
  | zone k =>
    by_cases hr : (s.replaceTqsInList && s.reclaimedTqe.isNone) = true
    · have hrec : (presentEntry s q rest).reclaimedTqe = some k := by
        simp only [presentEntry, hk, hr, if_true]
      have hnone : s.reclaimedTqe = none := by
        rw [Bool.and_eq_true, Option.isNone_iff_eq_none] at hr
        exact hr.2
      rw [hnone] at h
      rw [hrec, ← hk]
      exact h.pop_keep hq hq' ha hc hk (by rw [hz, if_pos hr])
    · have hrec : (presentEntry s q rest).reclaimedTqe = s.reclaimedTqe := by
        simp only [presentEntry, hk, if_neg hr]
      rw [hrec, ← hk]
      exact h.pop_free hq hq' ha hc (by rw [hz, if_neg hr])

variable (l : List TsegQent) (s : Present)

/-- The presentation loop keeps the lists together and only shortens the age
list. -/
theorem presentLoop_linked (ages : List Tqe) (h : Linked s.tp ages s.reclaimedTqe)
    (hl : s.tp.tSegq = l) :
    ∃ ages', ages'.Sublist ages ∧
      Linked (presentLoop l s).tp ages' (presentLoop l s).reclaimedTqe := by
  induction l generalizing s ages with
  | nil => exact ⟨ages, List.Sublist.refl _, h⟩
  | cons q rest ih =>
    unfold presentLoop
    split_ifs with hseq
    · have hs := presentEntry_linked h hl
      have hq' : (presentEntry s q rest).tp.tSegq = rest := by rw [presentEntry_tp]
      obtain ⟨ages', hsub, hlinked⟩ := ih _ _ hs hq'
      exact ⟨ages', hsub.trans List.erase_sublist, hlinked⟩
    · exact ⟨ages, List.Sublist.refl _, h⟩

theorem deliverHolesEntry_linked {tp : ReassCb} {ages : List Tqe} {q : TsegQent}
    {rest : List TsegQent} (h : Linked tp ages none) (hq : tp.tSegq = q :: rest) :
    Linked (deliverHolesEntry tp q rest) (ages.erase q.tqe) none := by
  rw [deliverHolesEntry_eq]
  exact h.pop_free hq rfl rfl rfl rfl

theorem deliverHolesLoop_linked (p : Tqe) (l : List TsegQent) (contiguous : Bool) (tp : ReassCb)
    (ages : List Tqe) (h : Linked tp ages none) (hl : tp.tSegq = l) :
    ∃ ages', ages'.Sublist ages ∧ Linked (deliverHolesLoop p l contiguous tp) ages' none ∧
      (deliverHolesLoop p l contiguous tp).addrs.Sublist tp.addrs := by
  induction l generalizing contiguous tp ages with
  | nil => exact ⟨ages, List.Sublist.refl _, h, List.Sublist.refl _⟩
  | cons q rest ih =>
    unfold deliverHolesLoop
    split_ifs with hgap
    · exact ⟨ages, List.Sublist.refl _, h, List.Sublist.refl _⟩
    · have hq' : (deliverHolesEntry tp q rest).tSegq = rest := by rw [deliverHolesEntry_eq]
      obtain ⟨ages', hsub, hlinked, haddr⟩ :=
        ih (contiguous || q.tqe == p) _ _ (deliverHolesEntry_linked h hl) hq'
      refine ⟨ages', hsub.trans List.erase_sublist, hlinked, haddr.trans ?_⟩
      simp [ReassCb.addrs, hl, hq']

theorem tcpReassDeliverHoles_linked {tp : ReassCb} {ages : List Tqe} (ticks : ℕ)
    (h : Linked tp ages none) :
    ∃ ages', ages'.Sublist ages ∧ Linked (tcpReassDeliverHoles tp ticks) ages' none ∧
      (tcpReassDeliverHoles tp ticks).addrs.Sublist tp.addrs := by
  unfold tcpReassDeliverHoles
  split
  · exact ⟨ages, List.Sublist.refl _, h, List.Sublist.refl _⟩
  · rename_i p _
    obtain ⟨ages', hsub, hl, haddr⟩ := deliverHolesLoop_linked p tp.tSegq false tp ages h rfl
    exact ⟨ages', hsub, { hl with }, haddr⟩

def ChainsFrom : TcpSeq → List TsegQent → TcpSeq → Prop
  | nxt, [], seq => nxt = seq
  | nxt, q :: l, seq => q.thSeq = nxt ∧ ChainsFrom (nxt + BitVec.ofNat 32 q.tqeLen) l seq

theorem presentLoop_addrs (hl : s.tp.tSegq = l) :
    (presentLoop l s).tp.addrs.Sublist s.tp.addrs := by
  induction l generalizing s with
  | nil => exact List.Sublist.refl _
  | cons q rest ih =>
    unfold presentLoop
    split_ifs with hseq
    · have hq' : (presentEntry s q rest).tp.tSegq = rest := by rw [presentEntry_tp]
      refine (ih _ hq').trans ?_
      simp [ReassCb.addrs, hl, hq']
    · exact List.Sublist.refl _

/-- Once an item is reclaimed, or when none is wanted, no other is. -/
theorem presentLoop_reclaimed (h : s.replaceTqsInList = false ∨ s.reclaimedTqe.isSome = true) :
    (presentLoop l s).reclaimedTqe = s.reclaimedTqe := by
  induction l generalizing s with
  | nil => rfl
  | cons q rest ih =>
    unfold presentLoop
    split_ifs with hseq
    · have hr : (s.replaceTqsInList && s.reclaimedTqe.isNone) = false := by
        rcases h with h | h
        · rw [h, Bool.false_and]
        · rw [Option.isNone_eq_false_iff.mpr h, Bool.and_false]
      have hs : (presentEntry s q rest).reclaimedTqe = s.reclaimedTqe ∧
          ((presentEntry s q rest).replaceTqsInList = false ∨
            (presentEntry s q rest).replaceTqsInList = s.replaceTqsInList) := by
        cases hk : q.tqe <;> simp [presentEntry, hk, hr]
      rw [ih _ ?_, hs.1]
      rw [hs.1]
      rcases hs.2 with h' | h'
      · exact Or.inl h'
      · rwa [h']
    · rfl

/-- While `tqs` stays on the list, the wish to replace it stays. -/
theorem presentLoop_replace (hl : s.tp.tSegq = l) (hnd : s.tp.addrs.Nodup)
    (h : Tqe.tqs ∈ (presentLoop l s).tp.addrs) :
    (presentLoop l s).replaceTqsInList = s.replaceTqsInList := by
  induction l generalizing s with
  | nil => rfl
  | cons q rest ih =>
    unfold presentLoop at h ⊢
    split_ifs at h ⊢ with hseq
    · have hq' : (presentEntry s q rest).tp.tSegq = rest := by rw [presentEntry_tp]
      have haddrs : s.tp.addrs = q.tqe :: (presentEntry s q rest).tp.addrs := by
        simp [ReassCb.addrs, hl, hq']
      rw [haddrs, List.nodup_cons] at hnd
      have hmem := (presentLoop_addrs rest _ hq').subset h
      rw [ih _ hq' hnd.2 h]
      cases hk : q.tqe with
      | tqs =>
        rw [hk] at hnd
        exact absurd hmem hnd.1
      | zone k =>
        simp only [presentEntry, hk]
        split_ifs <;> rfl
    · rfl

/-- The loop takes `tqs` off the list exactly when it gets there without a
gap. -/
theorem presentLoop_tqs (pre post : List TsegQent) (te : TsegQent) (s : Present)
    (hl : s.tp.tSegq = pre ++ te :: post) (hte : te.tqe = .tqs) (hnd : s.tp.addrs.Nodup) :
    Tqe.tqs ∈ (presentLoop (pre ++ te :: post) s).tp.addrs ↔
      ¬ ChainsFrom s.tp.rcvNxt pre te.thSeq := by
  induction pre generalizing s with
  | nil =>
    rw [List.nil_append] at hl ⊢
    unfold presentLoop
    by_cases hseq : te.thSeq = s.tp.rcvNxt
    · have hq' : (presentEntry s te post).tp.tSegq = post := by rw [presentEntry_tp]
      have haddrs : s.tp.addrs = Tqe.tqs :: (presentEntry s te post).tp.addrs := by
        simp [ReassCb.addrs, hl, hq', hte]
      rw [haddrs, List.nodup_cons] at hnd
      have hout : Tqe.tqs ∉ (presentLoop post (presentEntry s te post)).tp.addrs :=
        fun h => hnd.1 ((presentLoop_addrs post _ hq').subset h)
      simp [hseq, hout, ChainsFrom]
    · have hin : Tqe.tqs ∈ s.tp.addrs := by simp [ReassCb.addrs, hl, hte]
      simp [hseq, hin, ChainsFrom, eq_comm]
  | cons q pre ih =>
    rw [List.cons_append] at hl ⊢
    unfold presentLoop
    by_cases hseq : q.thSeq = s.tp.rcvNxt
    · have hq' : (presentEntry s q (pre ++ te :: post)).tp.tSegq = pre ++ te :: post := by
        rw [presentEntry_tp]
      have hnxt : (presentEntry s q (pre ++ te :: post)).tp.rcvNxt =
          s.tp.rcvNxt + BitVec.ofNat 32 q.tqeLen := by rw [presentEntry_tp]
      have haddrs : s.tp.addrs = q.tqe :: (presentEntry s q (pre ++ te :: post)).tp.addrs := by
        simp only [ReassCb.addrs, hl, hq', List.map_cons]
      rw [haddrs, List.nodup_cons] at hnd
      rw [if_pos hseq, ih _ hq' hnd.2, hnxt, ChainsFrom]
      simp [hseq]
    · have hin : Tqe.tqs ∈ s.tp.addrs := by simp [ReassCb.addrs, hl, hte]
      simp [hseq, hin, ChainsFrom]

theorem presentLoop_replace_false (h : s.replaceTqsInList = false) :
    (presentLoop l s).replaceTqsInList = false := by
  induction l generalizing s with
  | nil => exact h
  | cons q rest ih =>
    unfold presentLoop
    split_ifs with hseq
    · apply ih
      cases hk : q.tqe <;> simp [presentEntry, hk, h]
    · exact h

def ReassCb.times (tp : ReassCb) (ages : List Tqe) : List ℕ := ages.map tp.tqeTicks

theorem presentLoop_tqeTicks : (presentLoop l s).tp.tqeTicks = s.tp.tqeTicks := by
  induction l generalizing s with
  | nil => rfl
  | cons q rest ih =>
    unfold presentLoop
    split_ifs with hseq
    · rw [ih, presentEntry_tp]
      rfl
    · rfl

theorem deliverHolesLoop_tqeTicks (p : Tqe) (l : List TsegQent) (contiguous : Bool)
    (tp : ReassCb) : (deliverHolesLoop p l contiguous tp).tqeTicks = tp.tqeTicks := by
  induction l generalizing contiguous tp with
  | nil => rfl
  | cons q rest ih =>
    unfold deliverHolesLoop
    split_ifs with hgap
    · rfl
    · rw [ih, deliverHolesEntry_eq]
      rfl

def OwnedFrom (times : List ℕ) (tp' : ReassCb) : Prop :=
  ∃ ages, Linked tp' ages none ∧ Tqe.tqs ∉ tp'.addrs ∧ (tp'.times ages).Sublist times

theorem OwnedFrom.mono {times times' : List ℕ} {tp : ReassCb} (h : OwnedFrom times tp)
    (ht : times.Sublist times') : OwnedFrom times' tp := by
  obtain ⟨ages, hl, hn, hs⟩ := h
  exact ⟨ages, hl, hn, hs.trans ht⟩

section

variable {times : List ℕ} {tp : ReassCb} (h : OwnedFrom times tp)
include h

theorem OwnedFrom.owned : tp.Owned := by
  obtain ⟨ages, hl, hn, -⟩ := h
  exact ⟨⟨ages, hl⟩, hn⟩

/-- The timer is not part of the lists. -/
theorem OwnedFrom.timer (c : Callout) : OwnedFrom times { tp with ttReassdl := c } := by
  obtain ⟨ages, hl, hn, hs⟩ := h
  exact ⟨ages, { hl with }, hn, hs⟩

end

theorem replaceTqs_owned {tp : ReassCb} {ages : List Tqe} {n : ℕ} (h : Linked tp ages (some n))
    (htqs : Tqe.tqs ∈ tp.addrs) : OwnedFrom (tp.times ages) (replaceTqs tp n) := by
  have hn : Tqe.zone n ∉ tp.addrs := h.spare_free n rfl
  have hn' : Tqe.zone n ∉ ages := fun hm => hn (h.perm.mem_iff.mp hm)
  have haddrs : (replaceTqs tp n).addrs =
      tp.addrs.map fun c => if c = Tqe.tqs then Tqe.zone n else c := by
    simp only [ReassCb.addrs, replaceTqs, List.map_map]
    apply List.map_congr_left
    intro q _
    simp only [Function.comp_apply]
    split_ifs <;> rfl
  refine ⟨ages.map fun c => if c = Tqe.tqs then Tqe.zone n else c, ⟨?_, ?_, ?_, ?_, by simp⟩,
    ?_, ?_⟩
  · exact h.list.replace (h.perm.mem_iff.mpr htqs) hn'
  · rw [haddrs]
    exact h.perm.map _
  · rw [replaceTqs, List.length_map]
    exact h.count
  · intro k
    have hk : k ∈ (replaceTqs tp n).zone ↔ k ∈ tp.zone := Iff.rfl
    rw [hk, h.zone k, haddrs, List.mem_map]
    constructor
    · rintro (hm | hm)
      · exact Or.inl ⟨Tqe.zone k, hm, by simp⟩
      · exact Or.inl ⟨Tqe.tqs, htqs, by simp [Option.some.inj hm]⟩
    · rintro (⟨c, hc, he⟩ | hm)
      · split_ifs at he with hct
        · exact Or.inr (by simpa using he)
        · exact Or.inl (he ▸ hc)
      · exact absurd hm (by simp)
  · rw [haddrs, List.mem_map]
    rintro ⟨c, -, he⟩
    split_ifs at he with hct
    exact hct he
  · have hsame : (replaceTqs tp n).times
        (ages.map fun c => if c = Tqe.tqs then Tqe.zone n else c) = tp.times ages := by
      rw [ReassCb.times, ReassCb.times, List.map_map]
      apply List.map_congr_left
      intro c hc
      by_cases hct : c = Tqe.tqs
      · simp [hct, replaceTqs]
      · have hcn : c ≠ Tqe.zone n := fun he => hn' (he ▸ hc)
        simp [hct, hcn, replaceTqs]
    rw [hsame]

/-- At the end of the loop either nothing is left to replace, or `tqs` is on
the list and an item is there to take its place. -/
theorem presentFinish_owned {s : Present} {ages : List Tqe} (ticks : ℕ)
    (h : Linked s.tp ages s.reclaimedTqe)
    (hs : (s.replaceTqsInList = false ∧ s.reclaimedTqe = none ∧ Tqe.tqs ∉ s.tp.addrs) ∨
      (s.replaceTqsInList = true ∧ s.reclaimedTqe.isSome = true ∧ Tqe.tqs ∈ s.tp.addrs)) :
    OwnedFrom (s.tp.times ages) (presentFinish s ticks).1 := by
  have hcase : ∃ tp', OwnedFrom (s.tp.times ages) tp' ∧
      ((presentFinish s ticks).1 = tp' ∨ ∃ delta,
        (presentFinish s ticks).1 = tp'.tcpTimerActivate ticks delta) := by
    rcases hs with ⟨hr, hrec, hn⟩ | ⟨hr, hrec, hn⟩
    · rw [hrec] at h
      refine ⟨s.tp, ⟨ages, h, hn, List.Sublist.refl _⟩, ?_⟩
      simp only [presentFinish, hr, hrec]
      split_ifs
      · exact Or.inr ⟨_, rfl⟩
      · exact Or.inl rfl
    · obtain ⟨n, hn'⟩ := Option.isSome_iff_exists.mp hrec
      rw [hn'] at h
      refine ⟨replaceTqs s.tp n, replaceTqs_owned h hn, ?_⟩
      simp only [presentFinish, hr, hn']
      split_ifs
      · exact Or.inr ⟨_, rfl⟩
      · exact Or.inl rfl
  obtain ⟨tp', ho, he | ⟨delta, he⟩⟩ := hcase
  · rw [he]
    exact ho
  · rw [he]
    exact ho.timer _

section Presenting

variable {tp : ReassCb} {ages : List Tqe} {q : TsegQent} {rest : List TsegQent}
  {leadingHole : Bool}

/-- The state after the first turn of the loop. -/
theorem presentStart_entry (h : Linked tp ages none) (hq : tp.tSegq = q :: rest)
    (hseq : q.thSeq = tp.rcvNxt ∨ leadingHole = true) (replace : Bool) :
    let s := presentEntry (presentStart tp q leadingHole replace) q rest
    Linked s.tp (ages.erase q.tqe) s.reclaimedTqe ∧ s.tp.tSegq = rest ∧
      s.tp.tqeTicks = tp.tqeTicks ∧ s.tp.rcvNxt = q.thSeq + BitVec.ofNat 32 q.tqeLen := by
  have hstart := presentStart_tp tp q leadingHole replace hseq
  have hrec : (presentStart tp q leadingHole replace).reclaimedTqe = none := rfl
  have hl : Linked (presentStart tp q leadingHole replace).tp ages
      (presentStart tp q leadingHole replace).reclaimedTqe := by
    rw [hstart, hrec]
    exact { h with }
  have hq' : (presentStart tp q leadingHole replace).tp.tSegq = q :: rest := by
    rw [hstart]
    exact hq
  refine ⟨presentEntry_linked hl hq', ?_, ?_, ?_⟩ <;> rw [presentEntry_tp, hstart]
  rfl

/-- An entry that does not lend its memory to `tqs`: nothing is reclaimed in the end. -/
theorem presentFirst_reclaims_nothing (tp : ReassCb) (q : TsegQent) (rest : List TsegQent)
    (leadingHole replace : Bool) (h : replace = false ∨ q.tqe = .tqs) :
    (presentLoop rest (presentEntry (presentStart tp q leadingHole replace) q
        rest)).replaceTqsInList = false ∧
      (presentLoop rest (presentEntry (presentStart tp q leadingHole replace) q
        rest)).reclaimedTqe = none := by
  have hfirst : (presentEntry (presentStart tp q leadingHole replace) q rest).replaceTqsInList =
      false ∧
      (presentEntry (presentStart tp q leadingHole replace) q rest).reclaimedTqe = none := by
    rcases h with rfl | hq
    · cases hk : q.tqe <;> simp [presentEntry, presentStart, hk]
    · simp [presentEntry, presentStart, hq]
  exact ⟨presentLoop_replace_false rest _ hfirst.1,
    (presentLoop_reclaimed rest _ (.inl hfirst.1)).trans hfirst.2⟩

theorem tcpReassPresent_owned (h : Linked tp ages none) (hn : Tqe.tqs ∉ tp.addrs) (ticks : ℕ)
    (leadingHole : Bool) :
    OwnedFrom (tp.times ages) (tcpReassPresent tp ticks leadingHole false).1 := by
  have hself : OwnedFrom (tp.times ages) tp := ⟨ages, h, hn, List.Sublist.refl _⟩
  obtain ⟨-, he⟩ | ⟨q, rest, -, -, -, -, he⟩ | ⟨q, rest, -, hq, hseq, he⟩ :=
    tcpReassPresent_cases tp ticks leadingHole false
  · rw [he]
    exact hself
  · rw [he]
    dsimp only
    split_ifs
    · exact hself.timer _
    · exact hself
  · obtain ⟨hl, hq', ht, -⟩ := presentStart_entry h hq hseq false
    obtain ⟨ages', hsub, hlinked⟩ := presentLoop_linked rest _ _ hl hq'
    have hf := presentFirst_reclaims_nothing tp q rest leadingHole false (.inl rfl)
    have hout : Tqe.tqs ∉ (presentLoop rest
        (presentEntry (presentStart tp q leadingHole false) q rest)).tp.addrs := by
      intro hm
      apply hn
      have hm' := (presentLoop_addrs rest _ hq').subset hm
      rw [ReassCb.addrs, hq'] at hm'
      rw [ReassCb.addrs, hq]
      exact List.mem_cons_of_mem _ hm'
    rw [he]
    refine (presentFinish_owned ticks hlinked (Or.inl ⟨hf.1, hf.2, hout⟩)).mono ?_
    rw [ReassCb.times, presentLoop_tqeTicks, ht]
    exact (hsub.trans List.erase_sublist).map _

/-- With `tqs` queued behind `pre`, all is well if the first entry can be
presented and `tqs` is either reached or replaced, not both. -/
theorem tcpReassPresent_stack (h : Linked tp ages none) {pre post : List TsegQent}
    {te : TsegQent} (hsplit : tp.tSegq = pre ++ te :: post) (hte : te.tqe = .tqs) (ticks : ℕ)
    {replace : Bool} (hest : tp.tState.haveEstablished = true)
    (hfirst : ∀ q ∈ (pre ++ [te]).head?, q.thSeq = tp.rcvNxt ∨ leadingHole = true)
    (hcons : ∀ q ∈ pre.head?, (replace = true ↔ ¬ ChainsFrom q.thSeq pre te.thSeq)) :
    OwnedFrom (tp.times ages) (tcpReassPresent tp ticks leadingHole replace).1 := by
  obtain ⟨hno, -⟩ | ⟨q, rest, -, hq, hne, hlh, -⟩ | ⟨q, rest, -, hq, hseq, he⟩ :=
    tcpReassPresent_cases tp ticks leadingHole replace
  · simp [hest, hsplit] at hno
  · have hhead : q ∈ (pre ++ [te]).head? := by
      cases pre <;> simp_all
    rcases hfirst q hhead with hf | hf
    · exact absurd hf hne
    · rw [hlh] at hf
      cases hf
  rw [he]
  obtain ⟨hl, hq', ht, hnxt⟩ := presentStart_entry h hq hseq replace
  obtain ⟨ages', hsub, hlinked⟩ := presentLoop_linked rest _ _ hl hq'
  have htimes : ((presentLoop rest
      (presentEntry (presentStart tp q leadingHole replace) q rest)).tp.times ages').Sublist
      (tp.times ages) := by
    rw [ReassCb.times, presentLoop_tqeTicks, ht]
    exact (hsub.trans List.erase_sublist).map _
  refine (presentFinish_owned ticks hlinked ?_).mono htimes
  have hnd := h.nodup
  cases pre with
  | nil =>
    obtain ⟨rfl, rfl⟩ : te = q ∧ post = rest := by simpa [hq, eq_comm] using hsplit
    -- `tqs` is the first to be presented, and gone after that
    have hf := presentFirst_reclaims_nothing tp te post leadingHole replace (.inr hte)
    refine Or.inl ⟨hf.1, hf.2, ?_⟩
    intro hm
    have hm' := (presentLoop_addrs post _ hq').subset hm
    rw [ReassCb.addrs, hq, List.map_cons, List.nodup_cons, hte] at hnd
    rw [ReassCb.addrs, hq'] at hm'
    exact hnd.1 hm'
  | cons q₀ pre =>
    obtain ⟨rfl, rfl⟩ : q = q₀ ∧ rest = pre ++ te :: post := by simpa [hq] using hsplit
    have hnd' : (presentEntry (presentStart tp q leadingHole replace) q
        (pre ++ te :: post)).tp.addrs.Nodup := by
      rw [ReassCb.addrs, hq']
      rw [ReassCb.addrs, hq, List.map_cons, List.nodup_cons] at hnd
      exact hnd.2
    obtain ⟨k, hk⟩ : ∃ k, q.tqe = .zone k := by
      cases hk : q.tqe with
      | zone k => exact ⟨k, rfl⟩
      | tqs => simp [ReassCb.addrs, hq, hk, hte] at hnd
    have hreach := presentLoop_tqs pre post te _ hq' hte hnd'
    rw [hnxt] at hreach
    have hchain : replace = true ↔
        ¬ ChainsFrom (q.thSeq + BitVec.ofNat 32 q.tqeLen) pre te.thSeq := by
      simpa [ChainsFrom] using hcons q (by simp)
    cases replace with
    | false =>
      have hc : ChainsFrom (q.thSeq + BitVec.ofNat 32 q.tqeLen) pre te.thSeq := by
        by_contra hc
        exact absurd (hchain.mpr hc) (by simp)
      have hf := presentFirst_reclaims_nothing tp q (pre ++ te :: post) leadingHole false
        (.inl rfl)
      exact Or.inl ⟨hf.1, hf.2, fun hm => hreach.mp hm hc⟩
    | true =>
      -- `tqs` is not reached, and the memory of the first entry replaces it
      have hin := hreach.mpr (hchain.mp rfl)
      have hf : (presentEntry (presentStart tp q leadingHole true) q
            (pre ++ te :: post)).replaceTqsInList = true ∧
          (presentEntry (presentStart tp q leadingHole true) q
            (pre ++ te :: post)).reclaimedTqe = some k := by
        simp [presentEntry, presentStart, hk]
      refine Or.inr ⟨(presentLoop_replace _ _ hq' hnd' hin).trans hf.1, ?_, hin⟩
      rw [presentLoop_reclaimed _ _ (Or.inr (by rw [hf.2]; rfl)), hf.2]
      rfl

end Presenting

def covers (th : Segment) (q : TsegQent) : Bool :=
  let i := (th.thSeq + BitVec.ofNat 32 th.tlen - q.thSeq).toInt
  decide (0 < i) && decide ((q.tqeLen : ℤ) ≤ i)

/-- If the next entry is not covered, no entry is dequeued. -/
theorem trimSuccessors_uncovered (th : Segment) (post : List TsegQent)
    (h : ∀ q ∈ post.head?, covers th q = false) :
    (trimSuccessors (th.thSeq + BitVec.ofNat 32 th.tlen) post).2 = [] ∧
      (trimSuccessors (th.thSeq + BitVec.ofNat 32 th.tlen) post).1.map TsegQent.tqe =
        post.map TsegQent.tqe := by
  cases post with
  | nil => simp [trimSuccessors]
  | cons q post =>
    have hq := h q (by simp)
    simp only [covers, Bool.and_eq_false_iff, decide_eq_false_iff_not] at hq
    unfold trimSuccessors
    dsimp only
    split_ifs with h0 hlt
    · simp
    · simp
    · omega

/-- Queueing a segment that covers no entry links its entry into both lists. -/
theorem queueSegment_linked {tp : ReassCb} {ages : List Tqe} (h : Linked tp ages none)
    (ticks : ℕ) {alloc : Option ℕ} {th th' : Segment} (hnew : entryFor alloc ∉ tp.addrs)
    (hcov : ∀ q ∈ (splitQueue tp th).2.head?, covers th' q = false) :
    Linked (queueSegment tp ticks alloc th th') (ages ++ [entryFor alloc]) none ∧
      (queueSegment tp ticks alloc th th').times (ages ++ [entryFor alloc]) =
        tp.times ages ++ [ticks] := by
  obtain ⟨hnone, haddr⟩ := trimSuccessors_uncovered th' (splitQueue tp th).2 hcov
  have hfresh : entryFor alloc ∉ ages := fun hm => hnew (h.perm.mem_iff.mp hm)
  have haddrs : tp.addrs = (splitQueue tp th).1.map TsegQent.tqe ++
      (splitQueue tp th).2.map TsegQent.tqe := by
    rw [ReassCb.addrs, ← splitQueue_append tp th, List.map_append]
  have haddrs' : (queueSegment tp ticks alloc th th').addrs =
      (splitQueue tp th).1.map TsegQent.tqe ++ entryFor alloc ::
        (splitQueue tp th).2.map TsegQent.tqe := by
    rw [ReassCb.addrs, queueSegment_eq, List.map_append, List.map_cons, haddr]
  have hperm : (queueSegment tp ticks alloc th th').addrs.Perm (entryFor alloc :: tp.addrs) := by
    rw [haddrs, haddrs']
    exact List.perm_middle
  refine ⟨⟨?_, ?_, ?_, ?_, by simp⟩, ?_⟩
  · rw [queueSegment_eq]
    exact h.list.insertTail hfresh
  · exact ((List.perm_append_singleton _ _).trans (h.perm.cons _)).trans hperm.symm
  · have hlen := hperm.length_eq
    have hcount : (queueSegment tp ticks alloc th th').tSegqlen = tp.tSegqlen + 1 := by
      simp [queueSegment_eq, hnone]
    simp only [ReassCb.addrs, List.length_map, List.length_cons] at hlen
    rw [hcount, h.count, hlen]
    push_cast
    ring
  · intro n
    have hz : (queueSegment tp ticks alloc th th').zone =
        alloc.elim tp.zone fun n => insert n tp.zone := by
      simp only [queueSegment_eq, hnone, List.foldl_nil]
    have hzn := h.zone n
    rw [hz, hperm.mem_iff, List.mem_cons]
    cases alloc with
    | none => simpa [entryFor] using hzn
    | some k => simpa [entryFor] using or_congr Iff.rfl hzn
  · simp only [queueSegment_eq, ReassCb.times, List.map_append, List.map_cons, List.map_nil,
      Function.update_self]
    congr 1
    apply List.map_congr_left
    intro a ha
    rw [Function.update_of_ne]
    rintro rfl
    exact hfresh ha

/-- The entry on the stack is safe: it is the first entry, or the first entry
can be presented and `tqs` is either replaced (on a passive connection) or
reached by the presentation (on an active one). -/
def StackEntrySafe (tp : ReassCb) (th th' : Segment) : Prop :=
  tp.tState.haveEstablished = true ∧
    ∀ q ∈ (splitQueue tp th).1.head?,
      (q.thSeq = tp.rcvNxt ∨ (tp.inpPassive = true ∧ th.thSeq ≠ tp.rcvNxt)) ∧
      (tp.inpPassive = true ↔ ¬ ChainsFrom q.thSeq (splitQueue tp th).1 th'.thSeq)

/-- The segment is dropped, is a duplicate, or is queued without covering the
next entry and with a proper entry or a safe one on the stack. -/
def SegmentSafe (tp : ReassCb) (alloc : Option ℕ) (th : Segment) : Prop :=
  (shortOfResources tp alloc th = true ∧ tp.inpPassive = false) ∨
  ∀ th', trimByPredecessor (splitQueue tp th).1.getLast? th = some th' →
    (∀ q ∈ (splitQueue tp th).2.head?, covers th' q = false) ∧
    (alloc = none → StackEntrySafe tp th th')

def Fresh (tp : ReassCb) (alloc : Option ℕ) : Prop := ∀ n ∈ alloc, n ∉ tp.zone

theorem tcpReass_owned {tp : ReassCb} {ages : List Tqe} (h : Linked tp ages none)
    (hn : Tqe.tqs ∉ tp.addrs) (ticks : ℕ) {alloc : Option ℕ} {th : Segment}
    (hfresh : Fresh tp alloc) (hsafe : SegmentSafe tp alloc th) :
    OwnedFrom (tp.times ages ++ [ticks]) (tcpReass tp ticks alloc (some th)).1 := by
  have hgrow : (tp.times ages).Sublist (tp.times ages ++ [ticks]) := List.sublist_append_left _ _
  obtain ⟨-, -, he⟩ | ⟨-, -, he⟩ | ⟨hpas, th', htrim, he⟩ := tcpReass_cases tp ticks alloc th
  · rw [he]
    exact ⟨ages, h, hn, hgrow⟩
  · rw [congrArg Prod.fst he]
    exact (tcpReassPresent_owned h hn ticks _).mono hgrow
  have hdrop : ¬ (shortOfResources tp alloc th = true ∧ tp.inpPassive = false) := by
    rintro ⟨hs, hp⟩
    rw [hpas hs] at hp
    cases hp
  obtain ⟨hcov, hstack⟩ := (hsafe.resolve_left hdrop) th' htrim
  rw [congrArg Prod.fst he]
  cases alloc with
  | some n =>
    have hnew : entryFor (some n) ∉ tp.addrs := by
      intro hm
      exact hfresh n rfl ((h.zone n).mpr (Or.inl hm))
    obtain ⟨hl, ht⟩ := queueSegment_linked h ticks hnew hcov
    have hn' : Tqe.tqs ∉ (queueSegment tp ticks (some n) th th').addrs := by
      rw [← hl.perm.mem_iff, List.mem_append]
      rintro (hm | hm)
      · exact hn (h.perm.mem_iff.mp hm)
      · simp [entryFor] at hm
    rw [← ht, Option.isNone_some, Bool.and_false]
    exact tcpReassPresent_owned hl hn' ticks _
  | none =>
    obtain ⟨hest, hfirst⟩ := hstack rfl
    have hnew : entryFor none ∉ tp.addrs := hn
    obtain ⟨hl, ht⟩ := queueSegment_linked h ticks hnew hcov
    have heq := queueSegment_eq tp ticks none th th'
    have hshort : th.thSeq ≠ tp.rcvNxt → shortOfResources tp none th = true := by
      intro hne
      simp [shortOfResources, outOfPlace, hne]
    rw [← ht]
    apply tcpReassPresent_stack hl (congrArg ReassCb.tSegq heq) rfl ticks (by rw [heq]; exact hest)
    · intro q hq
      have hnxt : (queueSegment tp ticks none th th').rcvNxt = tp.rcvNxt := by rw [heq]
      rw [hnxt]
      cases hpre : (splitQueue tp th).1 with
      | nil =>
        have hth : th' = th := by simpa [hpre, trimByPredecessor, eq_comm] using htrim
        obtain rfl : q = ⟨entryFor none, th'.thSeq, th'.thFin, th'.tlen, th'.m⟩ := by
          simpa [hpre, eq_comm] using hq
        rw [hth]
        by_cases hs : th.thSeq = tp.rcvNxt
        · exact Or.inl hs
        · exact Or.inr (hshort hs)
      | cons q₀ pre =>
        have hq₀ : q ∈ (splitQueue tp th).1.head? := by simpa [hpre] using hq
        rcases (hfirst q hq₀).1 with hs | ⟨-, hs⟩
        · exact Or.inl hs
        · exact Or.inr (hshort hs)
    · intro q hq
      have hne : (splitQueue tp th).1 ≠ [] := by
        rintro hnil
        simp [hnil] at hq
      have hrep : (!(splitQueue tp th).1.isEmpty && tp.inpPassive &&
          Option.isNone (none : Option ℕ)) = tp.inpPassive := by simp [hne]
      rw [hrep]
      exact (hfirst q hq).2

/-- What can happen to the queue: the calls of `tcp_reass.c`, and whatever the
rest of the stack does to the connection in between. -/
inductive ReassOp where
  | reass (ticks : ℕ) (alloc : Option ℕ) (th : Option Segment)
  | deliverHoles (ticks : ℕ)
  | flush
  | outside (tState : TcpState) (inpPassive : Bool) (rcvNxt : TcpSeq) (tMaxseg : ℕ)
      (soRcv : Sockbuf)

def ReassCb.step (tp : ReassCb) : ReassOp → ReassCb
  | .reass ticks alloc th => (tcpReass tp ticks alloc th).1
  | .deliverHoles ticks => tcpReassDeliverHoles tp ticks
  | .flush => tcpReassFlush tp
  | .outside tState inpPassive rcvNxt tMaxseg soRcv =>
    { tp with
      tState := tState, inpPassive := inpPassive, rcvNxt := rcvNxt, tMaxseg := tMaxseg,
      soRcv := soRcv }

def ReassOp.Safe (tp : ReassCb) : ReassOp → Prop
  | .reass _ alloc (some th) => Fresh tp alloc ∧ SegmentSafe tp alloc th
  | .flush => tp.tSegq = []
  | _ => True

theorem step_owned (tp : ReassCb) (op : ReassOp) (h : tp.Owned) (hs : op.Safe tp) :
    (tp.step op).Owned := by
  obtain ⟨⟨ages, hl⟩, hn⟩ := h
  cases op with
  | reass ticks alloc th =>
    cases th with
    | none => exact (tcpReassPresent_owned hl hn ticks false).owned
    | some th => exact (tcpReass_owned hl hn ticks hs.1 hs.2).owned
  | deliverHoles ticks =>
    obtain ⟨ages', -, hl', haddr⟩ := tcpReassDeliverHoles_linked ticks hl
    exact ⟨⟨ages', hl'⟩, fun hm => hn (haddr.subset hm)⟩
  | flush =>
    have hf : tcpReassFlush tp = tp := by
      have hq : tp.tSegq = [] := hs
      simp [tcpReassFlush, hq]
    exact ⟨⟨ages, by rw [ReassCb.step, hf]; exact hl⟩, by rw [ReassCb.step, hf]; exact hn⟩
  | outside tState inpPassive rcvNxt tMaxseg soRcv =>
    exact ⟨⟨ages, hl.list, hl.perm, hl.count, hl.zone, hl.spare_free⟩, hn⟩

/-- In a run whose segments cover no queued entry, whose stack entries are safe
and whose flushes find the queue empty, the entries stay owned. -/
theorem tcp_reass_ownership (tp : ReassCb) (ops : List ReassOp) (h : tp.Owned)
    (hs : Along ReassCb.step ReassOp.Safe tp ops) : (run ReassCb.step tp ops).Owned :=
  run_invariant step_owned h hs

theorem owned_of_empty (tp : ReassCb) (hq : tp.tSegq = []) (hlen : tp.tSegqlen = 0)
    (hz : tp.zone = ∅) (ha : tp.tSegageq.IsList []) : tp.Owned := by
  have haddrs : tp.addrs = [] := by simp [ReassCb.addrs, hq]
  refine ⟨⟨[], ha, by rw [haddrs], by simp [hlen, hq], ?_, by simp⟩, by simp [haddrs]⟩
  intro n
  simp [haddrs, hz]

/-- Allocation fails for a segment behind a gap: the item of the entry that is
delivered takes the place of `tqs`. -/
theorem tcp_reass_ownership_replaced :
    (run ReassCb.step { rcvNxt := 0 }
      [.reass 0 (some 0) (some ⟨10, false, 1, [Mbuf.ofBytes [1]]⟩),
        .reass 1 none (some ⟨20, false, 1, [Mbuf.ofBytes [2]]⟩)]).Owned := by
  have hq : (ReassCb.step { rcvNxt := 0 }
      (.reass 0 (some 0) (some ⟨10, false, 1, [Mbuf.ofBytes [1]]⟩))).tSegq =
      [⟨.zone 0, 10, false, 1, [Mbuf.ofBytes [1]]⟩] := rfl
  refine tcp_reass_ownership _ _ (owned_of_empty _ rfl rfl rfl (init_isList _))
    ⟨⟨by simp [Fresh], Or.inr fun th' _ => ⟨by simp [splitQueue], by simp⟩⟩,
      ⟨by simp [Fresh], Or.inr fun th' hth => ?_⟩, trivial⟩
  simp only [splitQueue, hq] at hth ⊢
  obtain rfl : (⟨20, false, 1, [Mbuf.ofBytes [2]]⟩ : Segment) = th' := Option.some.inj hth
  refine ⟨by decide, fun _ => ⟨rfl, ?_⟩⟩
  intro q hmem
  simp only [splitQueue, hq] at hmem ⊢
  obtain rfl : (⟨.zone 0, 10, false, 1, [Mbuf.ofBytes [1]]⟩ : TsegQent) = q := Option.some.inj hmem
  refine ⟨Or.inr ⟨rfl, by decide⟩, iff_of_true rfl fun hc => ?_⟩
  have hend : (11 : TcpSeq) = 20 := hc.2
  exact absurd hend (by decide)

/-- An entry covered by a newcomer is freed and stays on the age list. -/
theorem tcp_reass_covered_entry_dangles :
    let tp := run ReassCb.step { rcvNxt := 0 }
      [.reass 0 (some 0) (some ⟨10, false, 1, [Mbuf.ofBytes [1]]⟩),
        .reass 1 (some 1) (some ⟨9, false, 3, [Mbuf.ofBytes [1, 2, 3]]⟩)]
    tp.addrs = [.zone 1] ∧ tp.tSegageq.first = some (.zone 0) ∧ tp.zone = {1} ∧ ¬ tp.Owned := by
  have h : ∀ tp : ReassCb, tp.addrs = [.zone 1] → tp.tSegageq.first = some (.zone 0) →
      ¬ tp.Owned := by
    rintro tp haddrs hfirst ⟨⟨ages, hl⟩, -⟩
    have hhead := hl.list.first_eq
    have hmem : Tqe.zone 0 ∈ ages := by
      apply List.mem_of_mem_head?
      rw [← hhead, hfirst]
      rfl
    have hm := hl.perm.mem_iff.mp hmem
    rw [haddrs] at hm
    simp at hm
  exact ⟨by decide, by decide, by decide, h _ (by decide) (by decide)⟩

end Libuinet
