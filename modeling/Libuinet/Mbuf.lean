import Mathlib.Data.List.Basic
import Mathlib.Tactic.Ring

namespace Libuinet

/-- One position of the byte stream. -/
inductive Elem where
  | data (b : UInt8)
  | missing
  deriving DecidableEq, Repr

inductive MbufType where
  | mtData
  | mtSoname
  | mtControl
  | mtOobdata
  deriving DecidableEq, Repr

/-- External storage: `ext_size` and the count behind `ref_cnt`. -/
structure MExt where
  extSize : ℕ
  refCnt : ℕ
  deriving DecidableEq, Repr

/-- `struct mbuf`.  `mOff` is the distance of `m_data` from the start of the
storage area and `mtod` is the memory from `m_data` on, whether or not `m_len`
bytes of it are in use; `mPkthdrLen` is present when `M_PKTHDR` is set. -/
structure Mbuf where
  mLen : ℕ
  mType : MbufType := .mtData
  mHole : Bool := false
  mEor : Bool := false
  mRdonly : Bool := false
  mExt : Option MExt := none
  mPkthdrLen : Option ℤ := none
  mOff : ℕ := 0
  mtod : ℕ → UInt8

def mlen : ℕ := 216

def mclbytes : ℕ := 2048

def intMax : ℕ := 2147483647

/-- The value that `int` arithmetic leaves. -/
def wrapInt (n : ℤ) : ℤ := n.bmod (2 ^ 32)

theorem wrapInt_eq {n : ℤ} (hlo : -intMax ≤ n) (hhi : n ≤ intMax) : wrapInt n = n := by
  unfold intMax at hlo hhi
  apply Int.bmod_eq_of_le <;> omega

namespace Mbuf

variable (m : Mbuf)

def elem (i : ℕ) : Elem := if m.mHole then .missing else .data (m.mtod i)

def view : List Elem := (List.range m.mLen).map m.elem

def mWritable : Bool :=
  !m.mRdonly && match m.mExt with
    | none => true
    | some e => e.refCnt == 1

def mTrailingspace : ℤ :=
  match m.mExt with
  | some e => if m.mWritable then e.extSize - (m.mOff + m.mLen) else 0
  | none => if m.mHole then intMax - m.mLen else mlen - (m.mOff + m.mLen)

/-- Drop `len` bytes at the front of one mbuf; a hole has no data pointer to
move. -/
def trimHead (len : ℕ) : Mbuf :=
  if m.mHole then { m with mLen := m.mLen - len }
  else { m with
    mLen := m.mLen - len
    mOff := m.mOff + len
    mtod := fun i => m.mtod (i + len) }

def trimTail (len : ℕ) : Mbuf := { m with mLen := len }

@[simp] theorem view_length : m.view.length = m.mLen := by simp [view]

section

variable (len : ℕ)

theorem view_trimHead : (m.trimHead len).view = m.view.drop len := by
  apply List.ext_getElem
  · by_cases h : m.mHole <;> simp [trimHead, h]
  · intro i h₁ h₂
    by_cases h : m.mHole <;> simp [trimHead, h, view, elem, Nat.add_comm]

theorem view_trimTail (h : len ≤ m.mLen) : (m.trimTail len).view = m.view.take len := by
  apply List.ext_getElem
  · simp [trimTail, h]
  · intro i h₁ h₂
    simp [trimTail, view, elem]

@[simp] theorem trimHead_mLen : (m.trimHead len).mLen = m.mLen - len := by
  by_cases h : m.mHole <;> simp [trimHead, h]

@[simp] theorem trimHead_mHole : (m.trimHead len).mHole = m.mHole := by
  by_cases h : m.mHole <;> simp [trimHead, h]

@[simp] theorem trimTail_mHole : (m.trimTail len).mHole = m.mHole := rfl

end

end Mbuf

/-- `m_gethole`, with the length its callers set.  The storage of a new mbuf is
not initialised; it is zero here and no view shows it. -/
def mGethole (len : ℕ) : Mbuf := { mLen := len, mHole := true, mtod := fun _ => 0 }

def Mbuf.ofBytes (bs : List UInt8) : Mbuf := { mLen := bs.length, mtod := fun i => bs.getD i 0 }

def chainView (ms : List Mbuf) : List Elem := ms.flatMap Mbuf.view

def chainLen (ms : List Mbuf) : ℕ := (ms.map Mbuf.mLen).sum

@[simp] theorem chainView_nil : chainView [] = [] := rfl

variable (ms : List Mbuf) (m : Mbuf) (len : ℕ)

@[simp] theorem chainView_cons (ms : List Mbuf) :
    chainView (m :: ms) = m.view ++ chainView ms := by simp [chainView]

@[simp] theorem chainView_append (ms' : List Mbuf) :
    chainView (ms ++ ms') = chainView ms ++ chainView ms' := by simp [chainView]

@[simp] theorem chainLen_nil : chainLen [] = 0 := rfl

@[simp] theorem chainLen_cons (ms : List Mbuf) :
    chainLen (m :: ms) = m.mLen + chainLen ms := by simp [chainLen]

theorem chainView_length : (chainView ms).length = chainLen ms := by
  induction ms with
  | nil => rfl
  | cons m ms ih => simp [ih]

/-- Every element of a chain without holes is a byte. -/
theorem chainView_plain (h : ∀ m ∈ ms, m.mHole = false) : ∀ e ∈ chainView ms, ∃ b, e = .data b := by
  intro e he
  obtain ⟨m, hm, he⟩ := List.mem_flatMap.mp he
  obtain ⟨i, -, rfl⟩ := List.mem_map.mp he
  exact ⟨m.mtod i, by simp [Mbuf.elem, h m hm]⟩

def mAdjHead : List Mbuf → ℕ → List Mbuf
  | [], _ => []
  | m :: ms, len =>
    if len = 0 then m :: ms
    else if m.mLen ≤ len then { m with mLen := 0 } :: mAdjHead ms (len - m.mLen)
    else m.trimHead len :: ms

/-- The second scan of `m_adj` for a trim from the tail: `count` bytes stay. -/
def mAdjTruncate : List Mbuf → ℕ → List Mbuf
  | [], _ => []
  | m :: ms, count =>
    if count ≤ m.mLen then [m.trimTail count]
    else m :: mAdjTruncate ms (count - m.mLen)

def mapPkthdrLen (f : ℤ → ℤ) : List Mbuf → List Mbuf
  | [] => []
  | m :: ms => { m with mPkthdrLen := m.mPkthdrLen.map fun n => wrapInt (f n) } :: ms

/-- The branch of `m_adj` that trims `len` bytes from the tail: only the last
mbuf when it has that many, else everything behind the bytes that stay. -/
def mAdjTail (ms : List Mbuf) (len : ℕ) : List Mbuf :=
  match ms.getLast? with
  | none => []
  | some m =>
    if len ≤ m.mLen then
      mapPkthdrLen (· - len) (ms.dropLast ++ [m.trimTail (m.mLen - len)])
    else
      -- the lengths are added up in an `int`, and a negative one counts as 0
      let count := (wrapInt (chainLen ms - len)).toNat
      mapPkthdrLen (fun _ => count) (mAdjTruncate ms count)

def mAdj (ms : List Mbuf) (reqLen : ℤ) : List Mbuf :=
  if 0 ≤ reqLen then
    let ms' := mAdjHead ms reqLen.toNat
    mapPkthdrLen (· - ((chainLen ms : ℤ) - chainLen ms')) ms'
  else mAdjTail ms (-reqLen).toNat

@[simp] theorem chainView_mapPkthdrLen (f : ℤ → ℤ) (ms : List Mbuf) :
    chainView (mapPkthdrLen f ms) = chainView ms := by
  cases ms <;> rfl

theorem chainView_mAdjHead : chainView (mAdjHead ms len) = (chainView ms).drop len := by
  induction ms generalizing len with
  | nil => simp [mAdjHead]
  | cons m ms ih =>
    unfold mAdjHead
    split_ifs with h0 hle
    · simp [h0]
    · have hz : ({ m with mLen := 0 } : Mbuf).view = [] := by simp [Mbuf.view]
      have hd : m.view.drop len = [] := List.drop_eq_nil_of_le (by simpa using hle)
      simp [hz, ih, List.drop_append, hd]
    · have hle' : len - m.mLen = 0 := by omega
      simp [Mbuf.view_trimHead, List.drop_append, hle']

theorem chainView_mAdjTruncate (count : ℕ) :
    chainView (mAdjTruncate ms count) = (chainView ms).take count := by
  induction ms generalizing count with
  | nil => simp [mAdjTruncate]
  | cons m ms ih =>
    unfold mAdjTruncate
    split_ifs with h
    · have hz : count - m.mLen = 0 := by omega
      simp [Mbuf.view_trimTail _ _ h, List.take_append, hz]
    · have ht : m.view.take count = m.view := List.take_of_length_le (by simp; omega)
      simp [ih, List.take_append, ht]

/-- The bytes that stay are counted right in a chain whose length fits an `int`. -/
theorem mAdjTail_count {len total : ℕ} (htotal : total ≤ intMax) (hlen : len ≤ intMax) :
    (wrapInt (total - len)).toNat = total - len := by
  rw [wrapInt_eq (by omega) (by omega)]
  omega

section Tail

variable (hfits : chainLen ms ≤ intMax) (hlen : len ≤ intMax)
include hfits hlen

theorem chainView_mAdjTail :
    chainView (mAdjTail ms len) = (chainView ms).take (chainLen ms - len) := by
  have hcount := mAdjTail_count hfits hlen
  rcases List.eq_nil_or_concat ms with rfl | ⟨ms', m, rfl⟩
  · simp [mAdjTail]
  · have hlen : chainLen (ms' ++ [m]) = chainLen ms' + m.mLen := by simp [chainLen]
    rw [List.concat_eq_append] at hcount
    simp only [mAdjTail, List.concat_eq_append, List.getLast?_append, List.getLast?_singleton,
      Option.some_or, List.dropLast_concat, hcount]
    split_ifs with h
    · have hk : chainLen ms' + m.mLen - len = chainLen ms' + (m.mLen - len) := by omega
      have ht : (chainView ms').take (chainLen ms' + (m.mLen - len)) = chainView ms' :=
        List.take_of_length_le (by rw [chainView_length]; omega)
      rw [hlen, hk]
      simp [Mbuf.view_trimTail _ _ (Nat.sub_le m.mLen len), List.take_append, ht, chainView_length]
    · rw [chainView_mapPkthdrLen, chainView_mAdjTruncate]

/-- Trimming from the tail keeps a prefix of the stream. -/
theorem chainView_mAdj_tail (h : 0 < len) :
    chainView (mAdj ms (-len)) = (chainView ms).take (chainLen ms - len) := by
  have hneg : ¬ (0 : ℤ) ≤ -(len : ℤ) := by omega
  simp only [mAdj, if_neg hneg, neg_neg, Int.toNat_natCast]
  exact chainView_mAdjTail ms len hfits hlen

end Tail

theorem mAdjHead_plain (h : ∀ m ∈ ms, m.mHole = false) :
    ∀ m ∈ mAdjHead ms len, m.mHole = false := by
  induction ms generalizing len with
  | nil => simp [mAdjHead]
  | cons m ms ih =>
    have hm := h m (by simp)
    have hms : ∀ m' ∈ ms, m'.mHole = false := fun m' hm' => h m' (by simp [hm'])
    unfold mAdjHead
    split_ifs with h0 hle
    · exact h
    · simpa [hm] using ih (len - m.mLen) hms
    · simpa [hm] using hms

/-- Trimming from the head makes no holes. -/
theorem mAdj_plain (h : ∀ m ∈ ms, m.mHole = false) : ∀ m ∈ mAdj ms len, m.mHole = false := by
  have hadj := mAdjHead_plain ms len h
  simp only [mAdj, if_pos (Int.natCast_nonneg len), Int.toNat_natCast]
  cases hms : mAdjHead ms len with
  | nil => simp [mapPkthdrLen]
  | cons m ms' =>
    rw [hms] at hadj
    simpa [mapPkthdrLen] using hadj

/-- Trimming from the head drops a prefix of the stream. -/
theorem chainView_mAdj_head : chainView (mAdj ms len) = (chainView ms).drop len := by
  simp [mAdj, chainView_mAdjHead]

def Mbuf.byte (m : Mbuf) (i : ℕ) : UInt8 := if m.mHole then 0 else m.mtod i

def chainBytes (ms : List Mbuf) : List UInt8 :=
  ms.flatMap fun m => (List.range m.mLen).map m.byte

def mCopydataSkip : List Mbuf → ℕ → List Mbuf × ℕ
  | [], off => ([], off)
  | m :: ms, off =>
    if off = 0 ∨ off < m.mLen then (m :: ms, off) else mCopydataSkip ms (off - m.mLen)

/-- The loop that copies; it runs off the chain when that is too short. -/
def mCopydataLoop : List Mbuf → ℕ → ℕ → List UInt8
  | [], _, _ => []
  | m :: ms, off, len =>
    if len = 0 then []
    else
      let count := min (m.mLen - off) len
      (List.range count).map (fun i => m.byte (off + i)) ++ mCopydataLoop ms 0 (len - count)

def mCopydata (ms : List Mbuf) (off len : ℕ) : List UInt8 :=
  let (ms, off) := mCopydataSkip ms off
  mCopydataLoop ms off len

theorem chainBytes_length : (chainBytes ms).length = chainLen ms := by
  induction ms with
  | nil => rfl
  | cons m ms ih => simpa [chainBytes] using ih

theorem mCopydataLoop_chainLen : mCopydataLoop ms 0 (chainLen ms) = chainBytes ms := by
  induction ms with
  | nil => rfl
  | cons m ms ih =>
    unfold mCopydataLoop
    split
    · next hlen =>
      rw [List.eq_nil_of_length_eq_zero ((chainBytes_length _).trans hlen)]
    · simpa [chainBytes] using ih

/-- Copying the length of a chain copies all of it. -/
theorem mCopydata_chainLen : mCopydata ms 0 (chainLen ms) = chainBytes ms := by
  rw [← mCopydataLoop_chainLen]
  cases ms <;> simp [mCopydata, mCopydataSkip]

def mhlen : ℕ := 168

/-- Where the data of a new mbuf starts: behind the packet header if it has one. -/
def Mbuf.datOff (m : Mbuf) : ℕ := if m.mPkthdrLen.isSome then mlen - mhlen else 0

def Mbuf.memcpy (m : Mbuf) (off : ℕ) (bs : List UInt8) : Mbuf :=
  { m with mtod := fun i => if off ≤ i ∧ i < off + bs.length then bs.getD (i - off) 0
                            else m.mtod i }

/-- A `memmove` of `len` bytes from `m_data + src` to `m_data + dst`; the stretches may
overlap. -/
def Mbuf.memmove (m : Mbuf) (dst src len : ℕ) : Mbuf :=
  { m with mtod := fun i => if dst ≤ i ∧ i < dst + len then m.mtod (src + (i - dst))
                            else m.mtod i }

/-- The `bcopy` of `m_pullup`: the first `count` bytes of `n` go behind the data of `m`. -/
def Mbuf.pullFrom (m n : Mbuf) (count : ℕ) : Mbuf :=
  { m with
    mLen := m.mLen + count
    mtod := fun i => if m.mLen ≤ i ∧ i < m.mLen + count then n.mtod (i - m.mLen) else m.mtod i }

/-- The copy loop of `m_pullup`: `len` bytes are still wanted and there is room for `space`.
Once the room is used up with bytes still wanted, the loop of the source does not end;
`m_pullup` only starts it with room for what it wants. -/
def mPullupLoop (maxProtohdr : ℕ) : List Mbuf → ℕ → ℕ → Mbuf → Option (List Mbuf)
  | [], _, _, _ => none
  | n :: ns, len, space, m =>
    let count := min (min (max len maxProtohdr) space) n.mLen
    let m := m.pullFrom n count
    if n.mLen ≠ count then
      if len ≤ count then some (m :: n.trimHead count :: ns) else none
    else if len ≤ count then some (m :: ns)
    else mPullupLoop maxProtohdr ns (len - count) (space - count) m

def mPullup (maxProtohdr : ℕ) (mget : Bool) (ms : List Mbuf) (len : ℕ) : Option (List Mbuf) :=
  match ms with
  | [] => none
  | n :: ns =>
    if n.mExt.isNone && n.mOff + len < mlen && !ns.isEmpty then
      if len ≤ n.mLen then some (n :: ns)
      else mPullupLoop maxProtohdr ns (len - n.mLen) (mlen - (n.mOff + n.mLen)) n
    else if mhlen < len || !mget then none
    else
      let m : Mbuf := { mLen := 0, mType := n.mType, mEor := n.mEor, mRdonly := n.mRdonly,
                        mPkthdrLen := n.mPkthdrLen, mOff := n.datOff, mtod := fun _ => 0 }
      mPullupLoop maxProtohdr ({ n with mPkthdrLen := none } :: ns) len (mlen - n.datOff) m

def Mbuf.mLeadingspace (m : Mbuf) : ℤ :=
  match m.mExt with
  | some _ => if m.mWritable then m.mOff else 0
  | none => if m.mPkthdrLen.isSome then m.mOff - m.datOff
            else if m.mHole then intMax - m.mLen else m.mOff

/-- `M_PREPEND`.  The bytes in front are whatever the storage holds, zero here, and every
caller writes them. -/
def mPrepend (mget : Bool) (ms : List Mbuf) (plen : ℕ) : Option (List Mbuf) :=
  match ms with
  | [] => none
  | m :: ms =>
    if plen ≤ m.mLeadingspace then
      some ({ m with
        mOff := m.mOff - plen
        mLen := m.mLen + plen
        mPkthdrLen := m.mPkthdrLen.map (· + plen)
        mtod := fun i => if i < plen then 0 else m.mtod (i - plen) } :: ms)
    else if !mget then none
    else
      let room := mlen - m.datOff
      some ({ mLen := plen, mType := m.mType, mEor := m.mEor, mRdonly := m.mRdonly
              mPkthdrLen := m.mPkthdrLen.map (· + plen)
              mOff := m.datOff + (if plen < room then (room - plen) / 8 * 8 else 0)
              mtod := fun _ => 0 } :: { m with mPkthdrLen := none } :: ms)

theorem Mbuf.view_pullFrom (n : Mbuf) (count : ℕ) (hm : m.mHole = false) (hn : n.mHole = false)
    (hle : count ≤ n.mLen) : (m.pullFrom n count).view = m.view ++ n.view.take count := by
  apply List.ext_getElem
  · simp [pullFrom, hle]
  · intro i h₁ h₂
    simp only [view_length] at h₁
    have hi : i < m.mLen + count := h₁
    rw [List.getElem_append]
    by_cases hlt : i < m.mLen
    · simp [view, elem, pullFrom, hm, hlt]
    · have hge : m.mLen ≤ i := by omega
      simp [view, elem, pullFrom, hm, hn, hlt, hge, hi]

/-- With room for the bytes that are wanted, and the bytes there, the loop puts them in the
first mbuf and loses none. -/
theorem mPullupLoop_spec (maxProtohdr : ℕ) (ns : List Mbuf) (len space : ℕ) (m : Mbuf)
    (hm : m.mHole = false) (hns : ∀ n ∈ ns, n.mHole = false) (hpos : 0 < len)
    (hlen : len ≤ chainLen ns) (hspace : len ≤ space) :
    ∃ m' ns', mPullupLoop maxProtohdr ns len space m = some (m' :: ns') ∧
      m.mLen + len ≤ m'.mLen ∧ chainView (m' :: ns') = chainView (m :: ns) ∧
      m'.mHole = false ∧ m'.mPkthdrLen = m.mPkthdrLen := by
  induction ns generalizing len space m with
  | nil => exact absurd (hpos.trans_le hlen) (lt_irrefl 0)
  | cons n ns ih =>
    rw [mPullupLoop]
    set count := min (min (max len maxProtohdr) space) n.mLen
    set m' := m.pullFrom n count
    have hn : n.mHole = false := hns n List.mem_cons_self
    have hcount : count ≤ n.mLen := min_le_right _ _
    have hview : m'.view = m.view ++ n.view.take count := m.view_pullFrom n count hm hn hcount
    have hmlen : m'.mLen = m.mLen + count := rfl
    by_cases hleft : n.mLen = count
    · have hall : n.view.take count = n.view := List.take_of_length_le (by simp [hleft])
      rw [if_neg (not_not.mpr hleft)]
      split
      · next hdone =>
        refine ⟨m', ns, rfl, by omega, ?_, hm, rfl⟩
        simp [hview, hall]
      · next hmore =>
        rw [chainLen_cons] at hlen
        obtain ⟨m'', ns', heq, hle, hchain, hhole, hpkt⟩ :=
          ih (len - count) (space - count) m' hm (fun x hx => hns x (List.mem_cons_of_mem n hx))
            (by omega) (by omega) (by omega)
        refine ⟨m'', ns', heq, by omega, ?_, hhole, hpkt⟩
        rw [hchain]
        simp [hview, hall]
    · -- Bytes of `n` stay behind, so the count was cut by what was wanted or by the room.
      have hdone : len ≤ count := by omega
      rw [if_pos hleft, if_pos hdone]
      refine ⟨m', _, rfl, by omega, ?_, hm, rfl⟩
      simp only [chainView_cons, hview, n.view_trimHead, List.append_assoc]
      rw [← List.append_assoc (n.view.take count), List.take_append_drop]

/-- A pull-up of bytes that are there, with an mbuf to be had, makes them contiguous and keeps
the stream. -/
theorem mPullup_spec (maxProtohdr : ℕ) (n : Mbuf) (ns : List Mbuf) (len : ℕ)
    (hplain : ∀ m ∈ n :: ns, m.mHole = false) (hpos : 0 < len) (hmhlen : len ≤ mhlen)
    (hlen : len ≤ chainLen (n :: ns)) :
    ∃ m ms, mPullup maxProtohdr true (n :: ns) len = some (m :: ms) ∧ len ≤ m.mLen ∧
      chainView (m :: ms) = chainView (n :: ns) ∧ m.mHole = false ∧
      m.mPkthdrLen = n.mPkthdrLen := by
  have hn : n.mHole = false := hplain n List.mem_cons_self
  have hns : ∀ m ∈ ns, m.mHole = false := fun m hm => hplain m (List.mem_cons_of_mem n hm)
  rw [mPullup]
  split
  · next hfits =>
    simp only [Bool.and_eq_true, decide_eq_true_eq] at hfits
    split
    · next hle => exact ⟨n, ns, rfl, hle, rfl, hn, rfl⟩
    · next hlt =>
      rw [chainLen_cons] at hlen
      obtain ⟨m, ms, heq, hle, hrest⟩ := mPullupLoop_spec maxProtohdr ns (len - n.mLen)
        (mlen - (n.mOff + n.mLen)) n hn hns (by omega) (by omega) (by omega)
      exact ⟨m, ms, heq, by omega, hrest⟩
  · rw [if_neg (by simpa using hmhlen)]
    have hroom : len ≤ mlen - n.datOff := by
      unfold Mbuf.datOff mlen
      unfold mhlen at hmhlen ⊢
      split <;> omega
    obtain ⟨m, ms, heq, hle, hview, hrest⟩ := mPullupLoop_spec maxProtohdr
      ({ n with mPkthdrLen := none } :: ns) len (mlen - n.datOff)
      { mLen := 0, mType := n.mType, mEor := n.mEor, mRdonly := n.mRdonly,
        mPkthdrLen := n.mPkthdrLen, mOff := n.datOff, mtod := fun _ => 0 } rfl
      (by simpa [hn] using hns) hpos (by simpa using hlen) hroom
    exact ⟨m, ms, heq, by simpa using hle, hview, hrest⟩

theorem Mbuf.memcpy_memcpy (off : ℕ) (as bs : List UInt8) :
    (m.memcpy off as).memcpy (off + as.length) bs = m.memcpy off (as ++ bs) := by
  simp only [memcpy, List.length_append]
  congr 1
  funext i
  rw [List.getD_eq_getElem?_getD, List.getD_eq_getElem?_getD, List.getD_eq_getElem?_getD,
    List.getElem?_append]
  by_cases has : off ≤ i ∧ i < off + as.length
  · rw [if_neg (by omega), if_pos has, if_pos (by omega), if_pos (by omega)]
  · by_cases hbs : off + as.length ≤ i ∧ i < off + as.length + bs.length
    · rw [if_pos hbs, if_pos (by omega), if_neg (by omega), Nat.sub_add_eq]
    · rw [if_neg hbs, if_neg has, if_neg (by omega)]

theorem Mbuf.view_memcpy_zero (bs : List UInt8) (hm : m.mHole = false) (hle : bs.length ≤ m.mLen) :
    (m.memcpy 0 bs).view = bs.map .data ++ m.view.drop bs.length := by
  apply List.ext_getElem
  · simp [memcpy]
    omega
  · intro i h₁ h₂
    by_cases hlt : i < bs.length
    · simp [view, elem, memcpy, hm, hlt]
    · simp [view, elem, memcpy, hm, List.getElem_append, hlt,
        show bs.length + (i - bs.length) = i by omega]

/-- The header written into the room that `M_PREPEND` makes is in front of the stream. -/
theorem mPrepend_memcpy {mget : Bool} {m : Mbuf} {ms out : List Mbuf} {bs : List UInt8}
    (hm : m.mHole = false) (h : mPrepend mget (m :: ms) bs.length = some out) :
    ∃ m' ms', out = m' :: ms' ∧ m'.mHole = false ∧ bs.length ≤ m'.mLen ∧
      chainView (m'.memcpy 0 bs :: ms') = bs.map .data ++ chainView (m :: ms) := by
  rw [mPrepend] at h
  split at h
  · cases h
    refine ⟨_, _, rfl, hm, Nat.le_add_left _ _, ?_⟩
    rw [chainView_cons, Mbuf.view_memcpy_zero, List.append_assoc, chainView_cons]
    · congr 2
      apply List.ext_getElem
      · simp
      · intro i h₁ h₂
        simp [Mbuf.view, Mbuf.elem, hm]
    · exact hm
    · exact Nat.le_add_left _ _
  · split at h
    · cases h
    · cases h
      refine ⟨_, _, rfl, rfl, le_rfl, ?_⟩
      rw [chainView_cons, Mbuf.view_memcpy_zero _ _ rfl le_rfl, List.append_assoc,
        List.drop_of_length_le (by simp)]
      rfl

/-- Moving the front of an mbuf up by `len` bytes and dropping as many from the head cuts
those `len` bytes out of the stream. -/
theorem chainView_memmove_mAdj (ms : List Mbuf) (len front : ℕ) (hm : m.mHole = false)
    (hle : len + front ≤ m.mLen) :
    chainView (mAdj (m.memmove len 0 front :: ms) len) =
      (chainView (m :: ms)).take front ++ (chainView (m :: ms)).drop (len + front) := by
  have hview : (m.memmove len 0 front).view.drop len =
      m.view.take front ++ m.view.drop (len + front) := by
    apply List.ext_getElem
    · simp [Mbuf.memmove]
      omega
    · intro i h₁ h₂
      by_cases hlt : i < front
      · simp [Mbuf.view, Mbuf.elem, Mbuf.memmove, hm, hlt, show i < m.mLen by omega]
      · have hmin : min front m.mLen = front := by omega
        simp [Mbuf.view, Mbuf.elem, Mbuf.memmove, hm, List.getElem_append, hlt, hmin,
          show len + front + (i - front) = len + i by omega]
  rw [chainView_mAdj_head, chainView_cons, chainView_cons,
    List.drop_append_of_le_length (by simp [Mbuf.memmove]; omega), hview,
    List.take_append_of_le_length (by simp; omega),
    List.drop_append_of_le_length (by simpa using hle), List.append_assoc]

end Libuinet
