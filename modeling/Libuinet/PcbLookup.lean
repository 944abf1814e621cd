import Libuinet.InPcb
import Mathlib.Tactic.IntervalCases

namespace Libuinet

open ChainTable

/-- A row of the order of socket selection: which parts of the local endpoint are
wild, and whether the tags are. -/
structure WildClass where
  anyAddr : Bool
  anyPort : Bool
  anyTags : Bool

def wildClasses : List WildClass :=
  [⟨false, false, false⟩, ⟨true, false, false⟩, ⟨false, true, false⟩, ⟨true, true, false⟩,
    ⟨false, false, true⟩, ⟨true, false, true⟩, ⟨false, true, true⟩, ⟨true, true, true⟩]

/-- The block is bound to the local endpoint of the row and to no foreign one, and
takes the tags of the packet. -/
def WildClass.Holds (c : WildClass) (a : Arrival) (inp : Inpcb) : Prop :=
  inp.inpPromisc = true ∧ inp.inpFibnum = a.fib ∧
    inp.inpFaddr = inaddrAny ∧ inp.inpFport = inPromiscPortAny ∧
    inp.inpLaddr = (if c.anyAddr then inaddrAny else a.laddr) ∧
    inp.inpLport = (if c.anyPort then inPromiscPortAny else a.lport) ∧
    inp.inpL2info.inl2iTagAny = c.anyTags ∧ (c.anyTags = false → a.tagsMatch inp = true)

variable (info : Inpcbinfo) (a : Arrival)

def Arrival.Exact (inp : Inpcb) : Prop :=
  inp.inpPromisc = true ∧ inp.inpFibnum = a.fib ∧
    inp.inpFaddr = a.faddr ∧ inp.inpFport = a.fport ∧
    inp.inpLaddr = a.laddr ∧ inp.inpLport = a.lport ∧ a.tagsMatch inp = true

/-- The classes of the documented order over the blocks of a table: exact matches,
then the rows. -/
def Inpcbinfo.Wanted : ℕ → PcbId → Prop
  | 0, id => (info.inpcb id).inpInhashlist = true ∧ a.Exact (info.inpcb id)
  | k + 1, id => (info.inpcb id).inpInhashlist = true ∧
      ∃ c, wildClasses[k]? = some c ∧ c.Holds a (info.inpcb id)

def Inpcbinfo.probes : List (BitVec 32 × (PcbId → Bool)) :=
  (a.exactHash info.ipiHashmask, fun id => a.exactMatch (info.inpcb id)) ::
    (List.range 8).map fun i =>
      (a.wildHash info.ipiHashmask i, fun id => a.wildMatch i (info.inpcb id))

def Inpcbinfo.AnswersProbe : ℕ → PcbId → Prop :=
  Answers info.bucketOf (info.probes a)

theorem lookup_eq_probe :
    inPcblookupHashPromiscLocked info a true = info.ipiHashbase.probe (info.probes a) := by
  unfold inPcblookupHashPromiscLocked probe Inpcbinfo.probes
  rw [List.findSome?_cons, List.findSome?_map, if_pos rfl]
  cases (info.ipiHashbase (a.exactHash info.ipiHashmask)).find?
    fun id => a.exactMatch (info.inpcb id) <;> rfl

theorem bucketOf_eq_some_iff (id : PcbId) (b : BitVec 32) :
    info.bucketOf id = some b ↔ (info.inpcb id).inpInhashlist = true ∧ info.hashkey id = b := by
  unfold Inpcbinfo.bucketOf
  split <;> simp_all

theorem exactMatch_iff (inp : Inpcb) :
    a.exactMatch inp = true ↔ inp.inpJailed = false ∧ inp.inpFibnum = a.fib ∧
      inp.inpFaddr = a.faddr ∧ inp.inpLaddr = a.laddr ∧ inp.inpFport = a.fport ∧
      inp.inpLport = a.lport ∧ a.tagsMatch inp = true := by
  simp [Arrival.exactMatch, and_assoc]

theorem wildMatch_iff (i : ℕ) (inp : Inpcb) :
    a.wildMatch i inp = true ↔ inp.inpFaddr = inaddrAny ∧ inp.inpLaddr = a.laddrToMatch i ∧
      inp.inpLport = a.lportToMatch i ∧ inp.inpL2info.inl2iTagAny = Arrival.anyTagFlag i ∧
      inp.inpFibnum = a.fib ∧ inp.inpJailed = false ∧
      (Arrival.anyTagFlag i = false → a.tagsMatch inp = true) := by
  simp only [Arrival.wildMatch, Bool.and_eq_true, Bool.or_eq_true, decide_eq_true_eq, and_assoc,
    Bool.not_eq_true']
  cases hany : inp.inpL2info.inl2iTagAny <;> cases hflag : Arrival.anyTagFlag i <;> simp

theorem answersProbe_zero (id : PcbId) :
    info.AnswersProbe a 0 id ↔ (info.inpcb id).inpInhashlist = true ∧
      info.hashkey id = a.exactHash info.ipiHashmask ∧ a.exactMatch (info.inpcb id) = true := by
  simp [Inpcbinfo.AnswersProbe, Answers, Inpcbinfo.probes, bucketOf_eq_some_iff, and_assoc]

theorem answersProbe_succ (i : ℕ) (id : PcbId) :
    info.AnswersProbe a (i + 1) id ↔ i < 8 ∧ (info.inpcb id).inpInhashlist = true ∧
      info.hashkey id = a.wildHash info.ipiHashmask i ∧
      a.wildMatch i (info.inpcb id) = true := by
  by_cases hi : i < 8
  · simp [Inpcbinfo.AnswersProbe, Answers, Inpcbinfo.probes, bucketOf_eq_some_iff, and_assoc, hi]
  · simp [Inpcbinfo.AnswersProbe, Answers, Inpcbinfo.probes, hi]

/-- The bits of the phase number are the rows of the order. -/
theorem wildClasses_getElem {i : ℕ} (hi : i < 8) :
    wildClasses[i]? = some ⟨i.testBit 0, i.testBit 1, i.testBit 2⟩ := by
  interval_cases i <;> rfl

/-- The phases that reuse a hash would compute the same one. -/
theorem wildHash_eq (mask : BitVec 32) {i : ℕ} (hi : i < 8) :
    a.wildHash mask i = a.phaseHash mask i := by
  unfold Arrival.wildHash
  split
  · rfl
  · next h =>
    have htags : stackTags (tagstackOf (some a.l2i)) = [] := by
      simpa [L2tagstack.inl2tCnt, stackTags, tagstackOf] using (not_or.1 h).1
    have hany : i.testBit 2 = true := by
      simpa [Arrival.anyTagFlag] using (not_or.1 h).2
    have hnone : stackTags (tagstackOf none) = [] := rfl
    -- Phases 4 to 7 differ from phases 0 to 3 in the tag bit only.
    have hlow : (i - 4).testBit 0 = i.testBit 0 ∧ (i - 4).testBit 1 = i.testBit 1 ∧
        (i - 4).testBit 2 = false := by
      interval_cases i <;> simp_all [Nat.testBit]
    simp [Arrival.phaseHash, Arrival.laddrToMatch, Arrival.lportToMatch, Arrival.anyTagFlag, hlow,
      hany, inPcbhashPromisc, hashTags_of_tagless htags, hashTags_of_tagless hnone]

variable {info : Inpcbinfo} {a : Arrival}

/-- A block of row `i`, in the terms of the searches. -/
theorem wanted_succ_iff (info : Inpcbinfo) (a : Arrival) (i : ℕ) (id : PcbId) :
    info.Wanted a (i + 1) id ↔ i < 8 ∧ (info.inpcb id).inpInhashlist = true ∧
      (info.inpcb id).inpPromisc = true ∧ (info.inpcb id).inpFibnum = a.fib ∧
      (info.inpcb id).inpFaddr = inaddrAny ∧ (info.inpcb id).inpFport = inPromiscPortAny ∧
      (info.inpcb id).inpLaddr = a.laddrToMatch i ∧
      (info.inpcb id).inpLport = a.lportToMatch i ∧
      (info.inpcb id).inpL2info.inl2iTagAny = Arrival.anyTagFlag i ∧
      (Arrival.anyTagFlag i = false → a.tagsMatch (info.inpcb id) = true) := by
  by_cases hi : i < 8
  · rw [Inpcbinfo.Wanted.eq_2]
    rw [wildClasses_getElem hi]
    simp only [Option.some.injEq, exists_eq_left', WildClass.Holds, hi, true_and]
    rfl
  · have hlen : wildClasses.length ≤ i := by
      simp only [wildClasses, List.length_cons, List.length_nil]
      omega
    simp [Inpcbinfo.Wanted, hi, List.getElem?_eq_none hlen]

/-- The block would be of the class if it were promiscuous and, in a row, had no foreign port. -/
def Inpcbinfo.WouldBe (info : Inpcbinfo) (a : Arrival) : ℕ → PcbId → Prop
  | 0, id => (info.inpcb id).inpInhashlist = true ∧
      a.Exact { info.inpcb id with inpPromisc := true }
  | k + 1, id => (info.inpcb id).inpInhashlist = true ∧ ∃ c, wildClasses[k]? = some c ∧
      c.Holds a { info.inpcb id with inpPromisc := true, inpFport := inPromiscPortAny }

theorem wanted_iff_wouldBe (info : Inpcbinfo) (a : Arrival) (k : ℕ) (id : PcbId) :
    info.Wanted a k id ↔ info.WouldBe a k id ∧ (info.inpcb id).inpPromisc = true ∧
      (k ≠ 0 → (info.inpcb id).inpFport = inPromiscPortAny) := by
  cases k with
  | zero =>
    simp only [Inpcbinfo.Wanted, Inpcbinfo.WouldBe, Arrival.Exact, Arrival.tagsMatch]
    tauto
  | succ k =>
    simp only [Inpcbinfo.Wanted, Inpcbinfo.WouldBe, WildClass.Holds, Arrival.tagsMatch, ne_eq,
      Nat.succ_ne_zero, not_false_eq_true, forall_const, true_and]
    constructor
    · rintro ⟨hin, c, hc, hprom, hfib, hfaddr, hfport, hrest⟩
      exact ⟨⟨hin, c, hc, hfib, hfaddr, hrest⟩, hprom, hfport⟩
    · rintro ⟨⟨hin, c, hc, hfib, hfaddr, hrest⟩, hprom, hfport⟩
      exact ⟨hin, c, hc, hprom, hfib, hfaddr, hfport, hrest⟩

/-- The tags a class is searched under. -/
def Arrival.searchTags (a : Arrival) : ℕ → Option L2info
  | 0 => some a.l2i
  | i + 1 => if Arrival.anyTagFlag i then none else some a.l2i

/-- The key of the block hashes alike with its own tags and with those it is searched under. -/
def Inpcb.HashesAs (inp : Inpcb) (l2i : Option L2info) : Prop :=
  let seed := promiscSeed inp.inpLaddr inp.inpFaddr inp.inpLport inp.inpFport inp.inpFibnum
  hashTags (some inp.inpL2info) seed = hashTags l2i seed

/-- The blocks that would be of a class, up to the first class that has one, are of it; and in that
class there is a block that hashes as it is searched. -/
structure Inpcbinfo.Orderly (info : Inpcbinfo) (a : Arrival) : Prop where
  genuine : ∀ k id, info.WouldBe a k id → (∀ j < k, ∀ b, ¬ info.Wanted a j b) →
    (info.inpcb id).inpPromisc = true ∧ (k ≠ 0 → (info.inpcb id).inpFport = inPromiscPortAny)
  hashed : ∀ k id, info.Wanted a k id → (∀ j < k, ∀ b, ¬ info.Wanted a j b) →
    ∃ b, info.Wanted a k b ∧ (info.inpcb b).HashesAs (a.searchTags k)

/-- In a table with this mask, however its chains are ordered, the lookup follows the documented
order. -/
def Inpcbinfo.FollowsOrder (info : Inpcbinfo) (a : Arrival) (mask : BitVec 32) : Prop :=
  ∀ hashbase : ChainTable (BitVec 32) PcbId,
    hashbase.Filed { info with ipiHashmask := mask }.bucketOf →
      Selected (info.Wanted a) (inPcblookupHashPromiscLocked
        { info with ipiHashmask := mask, ipiHashbase := hashbase } a true)

def Arrival.searchHash (a : Arrival) (mask : BitVec 32) : ℕ → BitVec 32
  | 0 => a.exactHash mask
  | i + 1 => a.phaseHash mask i

section Searches

variable (hjail : ∀ id, (info.inpcb id).inpJailed = false) (mask : BitVec 32)
include hjail

/-- A search is answered by the blocks that would be of its class and are in its bucket. -/
theorem answersProbe_iff (k : ℕ) (id : PcbId) :
    { info with ipiHashmask := mask }.AnswersProbe a k id ↔
      info.WouldBe a k id ∧ (info.inpcb id).hashkey mask = a.searchHash mask k := by
  have hfree := hjail id
  cases k with
  | zero =>
    rw [answersProbe_zero, exactMatch_iff]
    simp only [Inpcbinfo.hashkey, Inpcbinfo.WouldBe, Arrival.Exact, Arrival.searchHash,
      Arrival.tagsMatch, hfree, true_and]
    tauto
  | succ i =>
    rw [answersProbe_succ, wildMatch_iff]
    by_cases hi : i < 8
    · rw [wildHash_eq a mask hi]
      simp only [Inpcbinfo.hashkey, Inpcbinfo.WouldBe, wildClasses_getElem hi, Option.some.injEq,
        exists_eq_left', WildClass.Holds, Arrival.searchHash, Arrival.tagsMatch, hfree, hi,
        true_and, Arrival.laddrToMatch, Arrival.lportToMatch, Arrival.anyTagFlag]
      tauto
    · have hlen : wildClasses.length ≤ i := by
        simp only [wildClasses, List.length_cons, List.length_nil]
        omega
      simp [Inpcbinfo.WouldBe, hi, List.getElem?_eq_none hlen]

omit hjail in
/-- The bucket of a block and the one it is searched in differ in the tags only. -/
theorem hashkey_of_wanted {k : ℕ} {id : PcbId} (h : info.Wanted a k id) :
    let inp := info.inpcb id
    let seed := promiscSeed inp.inpLaddr inp.inpFaddr inp.inpLport inp.inpFport inp.inpFibnum
    inp.hashkey mask = hashTags (some inp.inpL2info) seed &&& mask ∧
      a.searchHash mask k = hashTags (a.searchTags k) seed &&& mask := by
  cases k with
  | zero =>
    obtain ⟨-, hprom, hfib, hfaddr, hfport, hladdr, hlport, -⟩ := h
    simp [Inpcb.hashkey, hprom, inPcbhashPromisc, Arrival.searchHash, Arrival.exactHash,
      Arrival.searchTags, hfib, hfaddr, hfport, hladdr, hlport]
  | succ i =>
    obtain ⟨-, -, hprom, hfib, hfaddr, hfport, hladdr, hlport, -⟩ :=
      (wanted_succ_iff info a i id).1 h
    simp [Inpcb.hashkey, hprom, inPcbhashPromisc, Arrival.searchHash, Arrival.phaseHash,
      Arrival.searchTags, hfib, hfaddr, hfport, hladdr, hlport]

theorem answers_of_hashesAs {k : ℕ} {id : PcbId} (h : info.Wanted a k id)
    (hhash : (info.inpcb id).HashesAs (a.searchTags k)) :
    { info with ipiHashmask := mask }.AnswersProbe a k id := by
  obtain ⟨hown, hsearch⟩ := hashkey_of_wanted mask h
  rw [answersProbe_iff hjail, hown, hsearch]
  exact ⟨((wanted_iff_wouldBe info a k id).1 h).1, congrArg (· &&& mask) hhash⟩

theorem Inpcbinfo.Orderly.answersWanted (h : info.Orderly a) :
    AnswersWanted ({ info with ipiHashmask := mask }.AnswersProbe a) (info.Wanted a) := by
  have hfound {k : ℕ} {id : PcbId} (hwanted : info.Wanted a k id) :
      ∃ j ≤ k, ∃ b, { info with ipiHashmask := mask }.AnswersProbe a j b := by
    obtain ⟨j, hj, ⟨b, hb⟩, hfirst⟩ := exists_first hwanted
    obtain ⟨b', hb', hhash⟩ := h.hashed j b hb hfirst
    exact ⟨j, hj, b', answers_of_hashesAs hjail mask hb' hhash⟩
  constructor
  · intro k id hanswers hbefore
    have hnone : ∀ j < k, ∀ b, ¬ info.Wanted a j b := by
      intro j hj b hb
      obtain ⟨i, hi, b', hb'⟩ := hfound hb
      exact hbefore i (hi.trans_lt hj) b' hb'
    have hwould := ((answersProbe_iff hjail mask k id).1 hanswers).1
    exact ⟨k, (wanted_iff_wouldBe info a k id).2 ⟨hwould, h.genuine k id hwould hnone⟩, hnone⟩
  · intro k id hwanted
    obtain ⟨j, -, b, hb⟩ := hfound hwanted
    exact ⟨j, b, hb⟩

omit hjail in
theorem followsOrder_iff
    (hlist : ∀ id, (info.inpcb id).inpInhashlist = true → id ∈ info.ipiListhead) :
    info.FollowsOrder a mask ↔
      AnswersWanted ({ info with ipiHashmask := mask }.AnswersProbe a) (info.Wanted a) := by
  have hfiled : (ofList { info with ipiHashmask := mask }.bucketOf info.ipiListhead.dedup).Filed
      { info with ipiHashmask := mask }.bucketOf := by
    apply filed_ofList (List.nodup_dedup _)
    intro id hid
    rw [List.mem_dedup]
    apply hlist
    by_contra hnot
    simp [Inpcbinfo.bucketOf, hnot] at hid
  unfold Inpcbinfo.AnswersProbe
  rw [← hfiled.probe_selects_iff (info.Wanted a)]
  apply forall_congr'
  intro hashbase
  rw [lookup_eq_probe]
  rfl

/-- In a table of one bucket everything that would be of a class answers. -/
theorem genuine_of_answersWanted
    (h : AnswersWanted ({ info with ipiHashmask := 0 }.AnswersProbe a) (info.Wanted a)) {k : ℕ}
    {id : PcbId} (hwould : info.WouldBe a k id) (hnone : ∀ j < k, ∀ b, ¬ info.Wanted a j b) :
    info.Wanted a k id := by
  have hanswers {j : ℕ} {b : PcbId} :
      { info with ipiHashmask := 0 }.AnswersProbe a j b ↔ info.WouldBe a j b := by
    have hbucket : (info.inpcb b).hashkey 0 = a.searchHash 0 j := by
      cases j <;> simp [Inpcb.hashkey, inPcbhashPromisc, inpPcbhash, Arrival.searchHash,
        Arrival.exactHash, Arrival.phaseHash]
    rw [answersProbe_iff hjail, hbucket]
    exact and_iff_left rfl
  -- what answers first is of some class, and so of the one it would be of
  have hfirst {j : ℕ} {b : PcbId} (hj : j ≤ k) (hb : info.WouldBe a j b)
      (hmin : ∀ i < j, ∀ c, ¬ info.WouldBe a i c) : info.Wanted a j b := by
    obtain ⟨w, hw, -⟩ := h.first j b (hanswers.2 hb) fun i hi c hc => hmin i hi c (hanswers.1 hc)
    obtain ⟨-, hprom, hfport⟩ := (wanted_iff_wouldBe info a w b).1 hw
    refine (wanted_iff_wouldBe info a j b).2 ⟨hb, hprom, fun hne => hfport ?_⟩
    rintro rfl
    exact hnone 0 (by omega) b hw
  obtain ⟨j, hj, ⟨b, hb⟩, hmin⟩ := exists_first hwould
  have hsame : j = k := by
    by_contra hne
    exact hnone j (by omega) b (hfirst hj hb hmin)
  exact hfirst le_rfl hwould (hsame ▸ hmin)

/-- In the largest table a block answers only if it hashes as it is searched. -/
theorem hashed_of_answersWanted (hfaddr : a.faddr ≠ inaddrAny)
    (h : AnswersWanted
      ({ info with ipiHashmask := BitVec.allOnes 32 }.AnswersProbe a) (info.Wanted a))
    (hgenuine : ∀ k id, info.WouldBe a k id → (∀ j < k, ∀ b, ¬ info.Wanted a j b) →
      info.Wanted a k id) {k : ℕ} {id : PcbId} (hwanted : info.Wanted a k id)
    (hnone : ∀ j < k, ∀ b, ¬ info.Wanted a j b) :
    ∃ b, info.Wanted a k b ∧ (info.inpcb b).HashesAs (a.searchTags k) := by
  obtain ⟨i, b, hb⟩ := h.some_answer k id hwanted
  obtain ⟨j, -, ⟨b, hb⟩, hmin⟩ := exists_first hb
  obtain ⟨w, hw, hbefore⟩ := h.first j b hb hmin
  obtain rfl : w = k := by
    rcases lt_trichotomy w k with hlt | heq | hlt
    · exact absurd hw (hnone w hlt b)
    · exact heq
    · exact absurd hwanted (hbefore k hlt id)
  obtain ⟨hwould, hbucket⟩ := (answersProbe_iff hjail _ j b).1 hb
  have hle : w ≤ j := by
    by_contra hlt
    exact hnone j (by omega) b (hgenuine j b hwould fun i hi => hnone i (by omega))
  -- a block of two classes has the same key and the same tags in both
  have hboth : info.Wanted a j b ∧ a.searchTags j = a.searchTags w := by
    rcases hle.eq_or_lt with rfl | hlt
    · exact ⟨hw, rfl⟩
    · obtain ⟨-, hprom, hfport⟩ := (wanted_iff_wouldBe info a w b).1 hw
      have hrow : w ≠ 0 := by
        rintro rfl
        obtain ⟨-, c, -, -, -, hany, -⟩ : info.WouldBe a (j - 1 + 1) b := by
          rwa [Nat.sub_add_cancel hlt]
        exact hfaddr (hw.2.2.2.1.symm.trans hany)
      have hj := (wanted_iff_wouldBe info a j b).2 ⟨hwould, hprom, fun _ => hfport hrow⟩
      obtain ⟨i, rfl⟩ := Nat.exists_eq_succ_of_ne_zero hrow
      obtain ⟨i', rfl⟩ := Nat.exists_eq_succ_of_ne_zero (show j ≠ 0 by omega)
      have htags := ((wanted_succ_iff info a i b).1 hw).2.2.2.2.2.2.2.2.1
      have htags' := ((wanted_succ_iff info a i' b).1 hj).2.2.2.2.2.2.2.2.1
      refine ⟨hj, ?_⟩
      simp only [Arrival.searchTags, ← htags, ← htags']
  obtain ⟨hown, hsearch⟩ := hashkey_of_wanted (BitVec.allOnes 32) hboth.1
  rw [hown, hsearch, BitVec.and_allOnes, BitVec.and_allOnes, hboth.2] at hbucket
  exact ⟨b, hw, hbucket⟩

end Searches

/-- The tags of the block keep it out of the bucket that is searched for it: it takes
any tags but has some of its own, or one of block and packet has tags of which none
counts and the other has no tags. -/
def Arrival.TagsApart (a : Arrival) (inp : Inpcb) : Prop :=
  (inp.inpL2info.inl2iTagAny = true ∧ stackTags (tagstackOf (some inp.inpL2info)) ≠ []) ∨
    TagSplit (some inp.inpL2info) (some a.l2i)

theorem significant_of_tagsMatch {inp : Inpcb} (h : a.tagsMatch inp = true) :
    significant (stackTags (tagstackOf (some inp.inpL2info))) =
      significant (stackTags (tagstackOf (some a.l2i))) := by
  apply (inPromiscTagcmp_eq_zero_iff _ _).1
  exact of_decide_eq_true h

/-- A block of a class hashes as it is searched unless its tags keep it apart. -/
theorem hashesAs_of_not_tagsApart {k : ℕ} {id : PcbId} (h : info.Wanted a k id)
    (happart : ¬ a.TagsApart (info.inpcb id)) : (info.inpcb id).HashesAs (a.searchTags k) := by
  unfold Arrival.TagsApart at happart
  rw [not_or] at happart
  obtain ⟨hown, hsplit⟩ := happart
  cases k with
  | zero =>
    obtain ⟨-, -, -, -, -, -, -, htags⟩ := h
    exact hashTags_congr (significant_of_tagsMatch htags) hsplit _
  | succ i =>
    obtain ⟨-, -, -, -, -, -, -, -, hany, htags⟩ := (wanted_succ_iff info a i id).1 h
    simp only [Inpcb.HashesAs, Arrival.searchTags]
    cases hflag : Arrival.anyTagFlag i with
    | true =>
      have hnone : stackTags (tagstackOf (some (info.inpcb id).inpL2info)) = [] := by
        by_contra hne
        exact hown ⟨hany.trans hflag, hne⟩
      rw [hashTags_of_tagless hnone]
      rfl
    | false => exact hashTags_congr (significant_of_tagsMatch (htags hflag)) hsplit _

/-- Blocks and packet of the everyday kind. -/
theorem orderly_of_plain
    (hplain : ∀ id, (info.inpcb id).inpInhashlist = true → (info.inpcb id).inpPromisc = true ∧
      ((info.inpcb id).inpFaddr = inaddrAny → (info.inpcb id).inpFport = inPromiscPortAny) ∧
      ¬ a.TagsApart (info.inpcb id)) : info.Orderly a := by
  have hin {k : ℕ} {id : PcbId} (h : info.WouldBe a k id) :
      (info.inpcb id).inpInhashlist = true := by
    cases k <;> exact h.1
  constructor
  · intro k id hwould _
    obtain ⟨hprom, hfport, -⟩ := hplain id (hin hwould)
    refine ⟨hprom, fun hne => hfport ?_⟩
    obtain ⟨i, rfl⟩ := Nat.exists_eq_succ_of_ne_zero hne
    obtain ⟨-, c, -, -, -, hfaddr, -⟩ := hwould
    exact hfaddr
  · intro k id h _
    have hwould := ((wanted_iff_wouldBe info a k id).1 h).1
    exact ⟨id, h, hashesAs_of_not_tagsApart h (hplain id (hin hwould)).2.2⟩

/-- The lookup follows the documented order, in tables of every size and whatever the order of the
chains, if the blocks are orderly for the packet, and only if they are when the packet has a source
address.  Blocks are orderly when all of them are promiscuous, have a foreign port only with a
foreign address, and are not kept apart by their tags. -/
theorem promisc_lookup_selects_iff (info : Inpcbinfo) (a : Arrival)
    (hlist : ∀ id, (info.inpcb id).inpInhashlist = true → id ∈ info.ipiListhead)
    (hjail : ∀ id, (info.inpcb id).inpJailed = false) :
    (info.Orderly a → ∀ mask, info.FollowsOrder a mask) ∧
    (a.faddr ≠ inaddrAny →
      ((∀ k ≤ 32, info.FollowsOrder a (BitVec.ofNat 32 (2 ^ k - 1))) ↔ info.Orderly a)) ∧
    ((∀ id, (info.inpcb id).inpInhashlist = true → (info.inpcb id).inpPromisc = true ∧
      ((info.inpcb id).inpFaddr = inaddrAny → (info.inpcb id).inpFport = inPromiscPortAny) ∧
      ¬ a.TagsApart (info.inpcb id)) → info.Orderly a) := by
  have hsuffices (horder : info.Orderly a) (mask : BitVec 32) : info.FollowsOrder a mask :=
    (followsOrder_iff mask hlist).2 (horder.answersWanted hjail mask)
  refine ⟨hsuffices, fun hfaddr => ⟨fun hall => ?_, fun h k _ => hsuffices h _⟩, orderly_of_plain⟩
  have hone := (followsOrder_iff _ hlist).1 (hall 0 (by omega))
  have hmany := (followsOrder_iff _ hlist).1 (hall 32 le_rfl)
  have hgenuine : ∀ k id, info.WouldBe a k id → (∀ j < k, ∀ b, ¬ info.Wanted a j b) →
      info.Wanted a k id := fun k id => genuine_of_answersWanted hjail hone
  refine ⟨fun k id hwould hnone => ?_, fun k id hwanted hnone => ?_⟩
  · exact ((wanted_iff_wouldBe info a k id).1 (hgenuine k id hwould hnone)).2
  · exact hashed_of_answersWanted hjail hfaddr hmany hgenuine hwanted hnone

def listener80 : Inpcb := { inpLport := 0x5000, inpPromisc := true, inpInhashlist := true }

def listenerTable (mask : BitVec 32) : Inpcbinfo where
  ipiHashmask := mask
  ipiPorthashmask := mask
  ipiListhead := [0]
  inpcb := fun id => if id = 0 then listener80 else {}
  ipiHashbase := ChainTable.empty.insertHead (listener80.hashkey mask) 0
  ipiPorthashbase := ChainTable.empty.insertHead (0, 0x5000) 0

theorem listenerTable_filed (mask : BitVec 32) :
    (listenerTable mask).ipiHashbase.Filed (listenerTable mask).bucketOf := by
  have hempty : (empty : ChainTable (BitVec 32) PcbId).Filed fun _ => none :=
    filed_empty
  apply (hempty.insertHead rfl (listener80.hashkey mask)).congr
  intro id
  by_cases hid : id = 0
  · subst hid
    rfl
  · rw [Function.update_of_ne hid]
    simp [Inpcbinfo.bucketOf, listenerTable, hid]

theorem listenerTable_jail (mask : BitVec 32) (id : PcbId) :
    ((listenerTable mask).inpcb id).inpJailed = false := by
  unfold listenerTable
  dsimp only
  split <;> rfl

def packet80 (ts : L2tagstack) : Arrival where
  faddr := 0x0200000a
  fport := 0x3930
  laddr := 0x0100000a
  lport := 0x5000
  fib := 0
  l2i := { inl2iTagstack := ts }

/-- Without tags the listener is found in a table of every size. -/
theorem promisc_lookup_selects_untagged :
    (∀ mask, (listenerTable mask).ipiHashbase.Filed (listenerTable mask).bucketOf) ∧
      ∀ mask, Selected ((listenerTable mask).Wanted (packet80 .empty))
        (inPcblookupHashPromiscLocked (listenerTable mask) (packet80 .empty) true) := by
  have hin (mask : BitVec 32) (id : PcbId)
      (h : ((listenerTable mask).inpcb id).inpInhashlist = true) : id = 0 := by
    by_contra hid
    simp [listenerTable, hid] at h
  refine ⟨listenerTable_filed, fun mask => ?_⟩
  obtain ⟨hfollows, -, hplain⟩ := promisc_lookup_selects_iff (listenerTable mask) (packet80 .empty)
    (fun id h => by rw [hin mask id h]; exact List.mem_singleton_self _) (listenerTable_jail mask)
  refine hfollows (hplain fun id h => ?_) mask _ (listenerTable_filed mask)
  rw [hin mask id h]
  exact ⟨rfl, fun _ => rfl, by simp [Arrival.TagsApart, TagSplit, listenerTable, listener80,
    packet80, stackTags, tagstackOf, L2tagstack.empty]⟩

/-- A priority tag, which counts for nothing in the comparison, hides the listener. -/
theorem promisc_lookup_misses_priority_tagged :
    ∃ a, a = packet80 ⟨[⟨0x00000081, 0⟩], by decide⟩ ∧
      (listenerTable 511).ipiHashbase.Filed (listenerTable 511).bucketOf ∧
      (listenerTable 511).Wanted a 2 0 ∧
      inPcblookupHashPromiscLocked (listenerTable 511) a true = none ∧
      ¬ Selected ((listenerTable 511).Wanted a)
        (inPcblookupHashPromiscLocked (listenerTable 511) a true) := by
  have hwanted : (listenerTable 511).Wanted (packet80 ⟨[⟨0x00000081, 0⟩], by decide⟩) 2 0 :=
    ⟨rfl, ⟨true, false, false⟩, rfl, rfl, rfl, rfl, rfl, rfl, rfl, rfl, fun _ => rfl⟩
  have hnone : inPcblookupHashPromiscLocked (listenerTable 511)
      (packet80 ⟨[⟨0x00000081, 0⟩], by decide⟩) true = none := by
    decide +kernel
  refine ⟨_, rfl, listenerTable_filed 511, hwanted, hnone, ?_⟩
  rw [hnone]
  intro h
  exact h 2 0 hwanted

end Libuinet
