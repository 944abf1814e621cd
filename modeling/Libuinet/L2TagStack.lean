import Libuinet.PromiscTags
import Mathlib.Data.List.Range

namespace Libuinet

/-- `struct uinet_in_l2tagstack`.  The arrays have their full size whatever the count is. -/
structure UinetInL2tagstack where
  inl2tCnt : ℕ
  inl2tMasks : Vector (BitVec 32) inL2infoMaxTags
  inl2tTags : Vector (BitVec 32) inL2infoMaxTags
  bounded : inl2tCnt ≤ inL2infoMaxTags

namespace UinetInL2tagstack

variable (ts : UinetInL2tagstack)

def entry (i : ℕ) : MaskedBlock :=
  ⟨ts.inl2tTags[i]!, ts.inl2tMasks[i]!⟩

theorem entry_skipped (i : ℕ) : (ts.entry i).skipped = true ↔ ts.inl2tMasks[i]! = 0 := by
  rw [MaskedBlock.skipped, decide_eq_true_eq]
  rfl

def entriesFrom (tagcnt i : ℕ) : List MaskedBlock :=
  (List.range' i tagcnt).map ts.entry

@[simp] theorem entriesFrom_zero (i : ℕ) : ts.entriesFrom 0 i = [] := rfl

theorem entriesFrom_succ (tagcnt i : ℕ) :
    ts.entriesFrom (tagcnt + 1) i = ts.entry i :: ts.entriesFrom tagcnt (i + 1) := by
  rw [entriesFrom, List.range'_succ, List.map_cons]
  rfl

@[simp] theorem length_entriesFrom (tagcnt i : ℕ) : (ts.entriesFrom tagcnt i).length = tagcnt := by
  simp [entriesFrom]

def toL2tagstack : L2tagstack where
  inl2tTags := ts.entriesFrom ts.inl2tCnt 0
  bounded := by
    rw [length_entriesFrom]
    exact ts.bounded

def norm : List (BitVec 32) :=
  ((List.range ts.inl2tCnt).filter fun i => ts.inl2tMasks[i]! ≠ 0).map
    fun i => ts.inl2tTags[i]! &&& ts.inl2tMasks[i]!

theorem norm_eq_significant : ts.norm = significant (stackTags (some ts.toL2tagstack)) := by
  simp only [norm, stackTags, toL2tagstack, entriesFrom, significant, Option.map_some,
    Option.getD_some, List.filter_map, List.map_map, List.range_eq_range']
  congr 1
  apply List.filter_congr
  intro i _
  rw [Function.comp_apply, decide_not, Bool.not_inj_iff, Bool.eq_iff_iff, decide_eq_true_eq]
  exact (ts.entry_skipped i).symm

end UinetInL2tagstack

def skipZeroMasked (ts : UinetInL2tagstack) : ℕ → ℕ → ℕ × ℕ
  | 0, i => (0, i)
  | tagcnt + 1, i =>
    if ts.inl2tMasks[i]! = 0 then skipZeroMasked ts tagcnt (i + 1) else (tagcnt + 1, i)

variable (ts : UinetInL2tagstack)

theorem skipZeroMasked_le (tagcnt i : ℕ) : (skipZeroMasked ts tagcnt i).1 ≤ tagcnt := by
  induction tagcnt generalizing i with
  | zero => exact le_rfl
  | succ tagcnt ih =>
    rw [skipZeroMasked]
    split
    · exact (ih (i + 1)).trans (Nat.le_succ tagcnt)
    · exact le_rfl

/-- What is left after an inner loop is what is left of the list of tags. -/
theorem skipZeroMasked_entries (tagcnt i : ℕ) :
    ts.entriesFrom (skipZeroMasked ts tagcnt i).1 (skipZeroMasked ts tagcnt i).2 =
      (ts.entriesFrom tagcnt i).dropWhile (·.skipped) := by
  induction tagcnt generalizing i with
  | zero => rfl
  | succ tagcnt ih =>
    rw [skipZeroMasked, ts.entriesFrom_succ, List.dropWhile_cons]
    by_cases hmask : ts.inl2tMasks[i]! = 0
    · rw [if_pos hmask, if_pos ((ts.entry_skipped i).mpr hmask), ih]
    · rw [if_neg hmask, if_neg (mt (ts.entry_skipped i).mp hmask), ts.entriesFrom_succ]

/-- The outer loop of `in_promisc_tagcmp`, with an index and the number of tags left for
each stack. -/
def tagcmpWalk (ts1 ts2 : UinetInL2tagstack) (tagcnt1 i1 tagcnt2 i2 : ℕ) : ℕ :=
  match _h : skipZeroMasked ts1 tagcnt1 i1, skipZeroMasked ts2 tagcnt2 i2 with
  | (0, _), (0, _) => 0
  | (0, _), (_ + 1, _) => 1
  | (_ + 1, _), (0, _) => 1
  | (left1 + 1, j1), (left2 + 1, j2) =>
    if ts1.inl2tTags[j1]! &&& ts1.inl2tMasks[j1]! ≠ ts2.inl2tTags[j2]! &&& ts2.inl2tMasks[j2]!
    then 1
    else tagcmpWalk ts1 ts2 left1 (j1 + 1) left2 (j2 + 1)
termination_by tagcnt1
decreasing_by
  have hle := skipZeroMasked_le ts1 tagcnt1 i1
  rw [_h] at hle
  exact hle

def uinetL2tagstackCmp (ts1 ts2 : UinetInL2tagstack) : ℕ :=
  if ts1.inl2tCnt + ts2.inl2tCnt = 0 then 0
  else tagcmpWalk ts1 ts2 ts1.inl2tCnt 0 ts2.inl2tCnt 0

/-- The loop over lists does not mind tags of the first stack that are passed over. -/
theorem tagcmpLoop_dropWhile (ts1 ts2 : List MaskedBlock) :
    tagcmpLoop (ts1.dropWhile (·.skipped)) ts2 = tagcmpLoop ts1 ts2 := by
  induction ts1 with
  | nil => rfl
  | cons t1 ts1 ih =>
    cases h : t1.skipped with
    | true => rw [List.dropWhile_cons_of_pos h, ih, tagcmpLoop, if_pos h]
    | false => rw [List.dropWhile_cons_of_neg (by simp [h])]

/-- The walk by index is the loop over the tags that are left. -/
theorem tagcmpWalk_eq (ts1 ts2 : UinetInL2tagstack) (tagcnt1 i1 tagcnt2 i2 : ℕ) :
    tagcmpWalk ts1 ts2 tagcnt1 i1 tagcnt2 i2 =
      tagcmpLoop (ts1.entriesFrom tagcnt1 i1) (ts2.entriesFrom tagcnt2 i2) := by
  induction tagcnt1 using Nat.strong_induction_on generalizing i1 tagcnt2 i2 with
  | h tagcnt1 ih =>
    have hle := skipZeroMasked_le ts1 tagcnt1 i1
    have hfirst := skipZeroMasked_entries ts1 tagcnt1 i1
    have hsecond := skipZeroMasked_entries ts2 tagcnt2 i2
    rw [tagcmpWalk, ← tagcmpLoop_dropWhile]
    rcases h1 : skipZeroMasked ts1 tagcnt1 i1 with ⟨_ | left1, j1⟩
    · -- The first stack is used up.
      rw [h1] at hfirst
      rw [← hfirst]
      rcases h2 : skipZeroMasked ts2 tagcnt2 i2 with ⟨_ | left2, j2⟩
      all_goals simp [tagcmpLoop, ← hsecond, h2, ts2.entriesFrom_succ]
    · rw [h1, ts1.entriesFrom_succ] at hfirst
      rw [h1] at hle
      rw [← hfirst, tagcmpLoop, if_neg (by simp [not_skipped_of_dropWhile hfirst.symm]),
        ← hsecond]
      rcases h2 : skipZeroMasked ts2 tagcnt2 i2 with ⟨_ | left2, j2⟩
      · rfl
      · rw [ts2.entriesFrom_succ]
        show ite _ _ _ = ite _ _ _
        rw [ih left1 hle]
        rfl

theorem uinetL2tagstackCmp_eq (ts1 ts2 : UinetInL2tagstack) :
    uinetL2tagstackCmp ts1 ts2 =
      inPromiscTagcmp (some ts1.toL2tagstack) (some ts2.toL2tagstack) := by
  simp [uinetL2tagstackCmp, inPromiscTagcmp, stackTags, UinetInL2tagstack.toL2tagstack,
    tagcmpWalk_eq]

/-- The loop of `in_promisc_hash32` over `int i = -nblocks; i; i++`, with `left` for `-i`.
The pointers stay `nblocks` positions past the start of the arrays while the count of
blocks that goes into the hash is lowered in the body. -/
def hash32Walk (ts : UinetInL2tagstack) (nblocks : ℕ) :
    ℕ → BitVec 32 × BitVec 32 → BitVec 32 × BitVec 32
  | 0, st => st
  | left + 1, st => hash32Walk ts nblocks left (hash32Block st (ts.entry (nblocks - (left + 1))))

theorem hash32Walk_eq (ts : UinetInL2tagstack) (nblocks : ℕ) :
    ∀ (left : ℕ) (st : BitVec 32 × BitVec 32), left ≤ nblocks →
      hash32Walk ts nblocks left st = (ts.entriesFrom left (nblocks - left)).foldl hash32Block st
  | 0, _, _ => rfl
  | left + 1, st, hle => by
    have hnext : nblocks - (left + 1) + 1 = nblocks - left := by omega
    rw [hash32Walk, hash32Walk_eq ts nblocks left _ (by omega), ts.entriesFrom_succ,
      List.foldl_cons, hnext]

/-- `uinet_l2tagstack_hash`: `in_promisc_hash32` with seed zero, unless there is no tag. -/
def uinetL2tagstackHash : BitVec 32 :=
  if ts.inl2tCnt ≠ 0 then
    let st := hash32Walk ts ts.inl2tCnt ts.inl2tCnt (0, BitVec.ofNat 32 ts.inl2tCnt)
    fmix32 (st.1 ^^^ (st.2 <<< 2))
  else 0

theorem fmix32_zero : fmix32 0 = 0 := by decide

/-- The shortcut for a stack without tags agrees with the hash of no block, because the
finalizer keeps zero. -/
theorem uinetL2tagstackHash_eq :
    uinetL2tagstackHash ts = inPromiscHash32 (stackTags (some ts.toL2tagstack)) 0 := by
  have htags : stackTags (some ts.toL2tagstack) = ts.entriesFrom ts.inl2tCnt 0 := rfl
  rw [uinetL2tagstackHash, htags]
  split
  · rw [hash32Walk_eq ts _ _ _ le_rfl, Nat.sub_self, inPromiscHash32, ts.length_entriesFrom]
  · next hempty =>
    rw [not_not.mp hempty, ts.entriesFrom_zero,
      inPromiscHash32_of_significant_nil significant_nil, fmix32_zero]

/-- Two stacks compare equal exactly when the masked tags that count are the same, so the
comparison is an equivalence, and stacks that compare equal have the same hash. -/
theorem uinetL2tagstack_cmp_hash :
    (∀ a b, uinetL2tagstackCmp a b = 0 ↔ a.norm = b.norm) ∧
      Equivalence (fun a b => uinetL2tagstackCmp a b = 0) ∧
      ∀ a b, uinetL2tagstackCmp a b = 0 → uinetL2tagstackHash a = uinetL2tagstackHash b := by
  have hcmp (a b : UinetInL2tagstack) : uinetL2tagstackCmp a b = 0 ↔ a.norm = b.norm := by
    rw [uinetL2tagstackCmp_eq, inPromiscTagcmp_eq_zero_iff, a.norm_eq_significant,
      b.norm_eq_significant]
  refine ⟨hcmp, ?_, ?_⟩
  · simp only [hcmp]
    exact ⟨fun _ => rfl, Eq.symm, Eq.trans⟩
  · intro a b h
    rw [hcmp, a.norm_eq_significant, b.norm_eq_significant] at h
    rw [uinetL2tagstackHash_eq, uinetL2tagstackHash_eq, inPromiscHash32_eq, inPromiscHash32_eq, h]

/-- A stack without tags against two tags that are both masked out. -/
theorem uinetL2tagstack_hash_masked_out :
    uinetL2tagstackHash ⟨0, Vector.replicate _ 0, Vector.replicate _ 0, by decide⟩ =
      uinetL2tagstackHash ⟨2, Vector.replicate _ 0, Vector.replicate _ 0x81000005, by decide⟩ :=
  uinetL2tagstack_cmp_hash.2.2 _ _ ((uinetL2tagstack_cmp_hash.1 _ _).mpr (by decide))

end Libuinet
