import Mathlib.Data.List.Basic
import Mathlib.Data.BitVec
import Mathlib.Logic.Basic
import Mathlib.Tactic.Ring

namespace Libuinet

/-- A 32-bit block and the mask that goes with it. -/
structure MaskedBlock where
  block : BitVec 32
  mask : BitVec 32
  deriving DecidableEq, Repr

def MaskedBlock.skipped (b : MaskedBlock) : Bool := b.mask = 0

def inL2infoMaxTags : ℕ := 16

/-- `struct in_l2tagstack`; `inl2t_cnt` is the length of the list. -/
structure L2tagstack where
  inl2tTags : List MaskedBlock
  bounded : inl2tTags.length ≤ inL2infoMaxTags
  deriving DecidableEq

def L2tagstack.inl2tCnt (ts : L2tagstack) : ℕ := ts.inl2tTags.length

def L2tagstack.empty : L2tagstack := ⟨[], by decide⟩

structure L2info where
  inl2iLocalAddr : BitVec 48 := 0
  inl2iForeignAddr : BitVec 48 := 0
  inl2iTagAny : Bool := false
  inl2iTagstack : L2tagstack := .empty
  deriving DecidableEq

/-- The comparison loop.  The first stack is walked one tag at a time; the inner
loop over the second one is the `dropWhile`. -/
def tagcmpLoop : List MaskedBlock → List MaskedBlock → ℕ
  | [], ts2 => if (ts2.dropWhile (·.skipped)).isEmpty then 0 else 1
  | t1 :: ts1, ts2 =>
    if t1.skipped then tagcmpLoop ts1 ts2
    else match ts2.dropWhile (·.skipped) with
      | [] => 1
      | t2 :: ts2 =>
        if t1.block &&& t1.mask ≠ t2.block &&& t2.mask then 1 else tagcmpLoop ts1 ts2

def stackTags (ts : Option L2tagstack) : List MaskedBlock :=
  (ts.map (·.inl2tTags)).getD []

def inPromiscTagcmp (l2ts1 l2ts2 : Option L2tagstack) : ℕ :=
  if (stackTags l2ts1).length + (stackTags l2ts2).length = 0 then 0
  else tagcmpLoop (stackTags l2ts1) (stackTags l2ts2)

/-- What counts of a list of blocks: the masked values of those with a mask. -/
def significant (ts : List MaskedBlock) : List (BitVec 32) :=
  (ts.filter (!·.skipped)).map fun t => t.block &&& t.mask

@[simp] theorem significant_nil : significant [] = [] := rfl

variable {t : MaskedBlock}

theorem significant_cons_skipped (h : t.skipped = true) (ts : List MaskedBlock) :
    significant (t :: ts) = significant ts := by
  simp [significant, h]

theorem significant_cons (h : t.skipped = false) (ts : List MaskedBlock) :
    significant (t :: ts) = (t.block &&& t.mask) :: significant ts := by
  simp [significant, h]

theorem significant_dropWhile (ts : List MaskedBlock) :
    significant (ts.dropWhile (·.skipped)) = significant ts := by
  induction ts with
  | nil => rfl
  | cons t ts ih =>
    cases h : t.skipped with
    | true => simp [h, ih, significant_cons_skipped]
    | false => simp [h]

/-- After the inner loop the stack is empty or starts with a tag that counts. -/
theorem not_skipped_of_dropWhile {ts us : List MaskedBlock}
    (h : ts.dropWhile (·.skipped) = t :: us) : t.skipped = false := by
  have hhead := List.head?_dropWhile_not (fun b : MaskedBlock => b.skipped) ts
  rw [h] at hhead
  simpa using hhead

theorem tagcmpLoop_eq_zero_iff (ts1 ts2 : List MaskedBlock) :
    tagcmpLoop ts1 ts2 = 0 ↔ significant ts1 = significant ts2 := by
  induction ts1 generalizing ts2 with
  | nil =>
    rw [← significant_dropWhile ts2, tagcmpLoop]
    cases h : ts2.dropWhile (·.skipped) with
    | nil => simp
    | cons t us => simp [significant_cons (not_skipped_of_dropWhile h)]
  | cons t1 ts1 ih =>
    rw [tagcmpLoop]
    cases h1 : t1.skipped with
    | true => rw [if_pos rfl, ih, significant_cons_skipped h1]
    | false =>
      rw [if_neg Bool.false_ne_true, significant_cons h1, ← significant_dropWhile ts2]
      cases h : ts2.dropWhile (·.skipped) with
      | nil => simp
      | cons t2 us =>
        rw [significant_cons (not_skipped_of_dropWhile h), List.cons.injEq, ← ih us]
        by_cases hne : t1.block &&& t1.mask = t2.block &&& t2.mask <;> simp [hne]

/-- Two stacks compare equal when what counts of them is equal. -/
theorem inPromiscTagcmp_eq_zero_iff (l2ts1 l2ts2 : Option L2tagstack) :
    inPromiscTagcmp l2ts1 l2ts2 = 0 ↔
      significant (stackTags l2ts1) = significant (stackTags l2ts2) := by
  unfold inPromiscTagcmp
  split
  · next h =>
    rw [List.eq_nil_of_length_eq_zero (Nat.eq_zero_of_add_eq_zero_right h),
      List.eq_nil_of_length_eq_zero (Nat.eq_zero_of_add_eq_zero_left h)]
    simp
  · exact tagcmpLoop_eq_zero_iff _ _

def fmix32 (h : BitVec 32) : BitVec 32 :=
  let h := h ^^^ (h >>> 16)
  let h := h * 0x85ebca6b
  let h := h ^^^ (h >>> 13)
  let h := h * 0xc2b2ae35
  h ^^^ (h >>> 16)

def mixBlock (h1 k1 : BitVec 32) : BitVec 32 :=
  let k1 := ((k1 * 0xcc9e2d51).rotateLeft 15) * 0x1b873593
  (h1 ^^^ k1).rotateLeft 13 * 5 + 0xe6546b64

/-- The body of the hash loop, on the hash and the count of blocks. -/
def hash32Block (st : BitVec 32 × BitVec 32) (b : MaskedBlock) : BitVec 32 × BitVec 32 :=
  if !b.skipped then (mixBlock st.1 (b.block &&& b.mask), st.2) else (st.1, st.2 - 1)

def inPromiscHash32 (key : List MaskedBlock) (seed : BitVec 32) : BitVec 32 :=
  let st := key.foldl hash32Block (seed, BitVec.ofNat 32 key.length)
  fmix32 (st.1 ^^^ (st.2 <<< 2))

theorem hash32Block_foldl (key : List MaskedBlock) (h n : BitVec 32) :
    key.foldl hash32Block (h, n + BitVec.ofNat 32 key.length) =
      ((significant key).foldl mixBlock h,
        n + BitVec.ofNat 32 (significant key).length) := by
  induction key generalizing h n with
  | nil => rfl
  | cons b key ih =>
    -- A block that counts keeps its place in the count, another gives it back.
    have hcount (m : ℕ) : n + BitVec.ofNat 32 (m + 1) = n + 1 + BitVec.ofNat 32 m := by
      rw [BitVec.ofNat_add, add_comm (BitVec.ofNat 32 m), ← add_assoc]
      rfl
    rw [List.foldl_cons, List.length_cons, hcount]
    cases hb : b.skipped with
    | true =>
      have hback : n + 1 + BitVec.ofNat 32 key.length - 1 = n + BitVec.ofNat 32 key.length := by
        ring
      simp only [hash32Block, hb, hback, ih, significant_cons_skipped hb, Bool.not_true,
        Bool.false_eq_true, ↓reduceIte]
    | false =>
      simp only [hash32Block, hb, ih, significant_cons hb, List.length_cons, hcount,
        Bool.not_false, ↓reduceIte, List.foldl_cons]

/-- The hash depends on nothing but what counts. -/
theorem inPromiscHash32_eq (key : List MaskedBlock) (seed : BitVec 32) :
    inPromiscHash32 key seed =
      fmix32 ((significant key).foldl mixBlock seed ^^^
        (BitVec.ofNat 32 (significant key).length <<< 2)) := by
  have h := hash32Block_foldl key seed 0
  simp only [zero_add] at h
  rw [inPromiscHash32, h]

/-- A stack in which nothing counts still mixes the seed. -/
theorem inPromiscHash32_of_significant_nil {key : List MaskedBlock} (h : significant key = [])
    (seed : BitVec 32) : inPromiscHash32 key seed = fmix32 seed := by
  rw [inPromiscHash32_eq, h]
  simp

def hashInput (ws : List (BitVec 32)) : List MaskedBlock :=
  ws.map fun w => ⟨w, 0xffffffff⟩

def tagstackOf (l2i : Option L2info) : Option L2tagstack := l2i.map (·.inl2iTagstack)

/-- The end of the hash functions over promiscuous keys: the tags go in unless there
is no information or no tag. -/
def hashTags (l2i : Option L2info) (hash : BitVec 32) : BitVec 32 :=
  let tags := stackTags (tagstackOf l2i)
  if tags.length ≠ 0 then inPromiscHash32 tags hash else hash

/-- One of the two has no tags, the other has some but none that counts. -/
def TagSplit (a b : Option L2info) : Prop :=
  (stackTags (tagstackOf a) = []) ≠ (stackTags (tagstackOf b) = [])

theorem hashTags_of_tagless {l2i : Option L2info} (h : stackTags (tagstackOf l2i) = [])
    (hash : BitVec 32) : hashTags l2i hash = hash := by
  simp [hashTags, h]

section

variable {a b : Option L2info}
  (heq : significant (stackTags (tagstackOf a)) = significant (stackTags (tagstackOf b)))
include heq

/-- Stacks that compare equal hash alike when both or none of them have tags. -/
theorem hashTags_congr (hsplit : ¬ TagSplit a b) (hash : BitVec 32) :
    hashTags a hash = hashTags b hash := by
  have hempty : stackTags (tagstackOf a) = [] ↔ stackTags (tagstackOf b) = [] := by
    simpa [TagSplit] using hsplit
  simp only [hashTags, ne_eq, List.length_eq_zero_iff, hempty, inPromiscHash32_eq, heq]

/-- Otherwise one of them leaves the hash alone and the other mixes it. -/
theorem hashTags_split (hsplit : TagSplit a b) (hash : BitVec 32) :
    (hashTags a hash = hash ∧ hashTags b hash = fmix32 hash) ∨
      (hashTags a hash = fmix32 hash ∧ hashTags b hash = hash) := by
  unfold TagSplit at hsplit
  by_cases ha : stackTags (tagstackOf a) = []
  · have hb : stackTags (tagstackOf b) ≠ [] := by
      intro hb
      simp [ha, hb] at hsplit
    rw [ha] at heq
    left
    refine ⟨hashTags_of_tagless ha hash, ?_⟩
    rw [hashTags, if_pos (by simpa using hb), inPromiscHash32_of_significant_nil heq.symm]
  · have hb : stackTags (tagstackOf b) = [] := by
      by_contra hb
      simp [ha, hb] at hsplit
    rw [hb] at heq
    right
    refine ⟨?_, hashTags_of_tagless hb hash⟩
    rw [hashTags, if_pos (by simpa using ha), inPromiscHash32_of_significant_nil heq]

end

end Libuinet
