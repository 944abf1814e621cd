import Libuinet.Mbuf

namespace Libuinet

inductive UioSeg where
  | uioUserspace
  | uioSysspace
  | uioNocopy
  deriving DecidableEq, Repr

structure Iovec where
  iovBase : ℕ
  iovLen : ℕ
  deriving DecidableEq, Repr

/-- `struct uio` with `uio_rw` set to `UIO_READ`.  `written` has the stores made
so far, oldest first. -/
structure Uio where
  uioIov : List Iovec
  uioResid : ℤ
  uioOffset : ℤ := 0
  uioSegflg : UioSeg := .uioSysspace
  written : List (ℕ × UInt8) := []

/-- Store bytes at the front of the iovec `iov`, which the iovecs `iovs` follow.
Here `copyout` is `memcpy` and never fails. -/
def Uio.put (uio : Uio) (iov : Iovec) (iovs : List Iovec) (bs : List UInt8) : Uio :=
  { uio with
    uioIov := { iovBase := iov.iovBase + bs.length, iovLen := iov.iovLen - bs.length } :: iovs
    uioResid := uio.uioResid - bs.length
    uioOffset := uio.uioOffset + bs.length
    written :=
      if uio.uioSegflg = .uioNocopy then uio.written
      else uio.written ++ (List.range' iov.iovBase bs.length).zip bs }

/-- The loop that `uiofill` and `uiomove` share.  `cnt` is how they read
`iov_len`; running past the last iovec is `none`. -/
def uioLoop (cnt : ℕ → ℕ) : List Iovec → List UInt8 → Uio → Option Uio
  | [], bs, uio =>
    if bs = [] ∨ uio.uioResid = 0 then some { uio with uioIov := [] } else none
  | iov :: iovs, bs, uio =>
    if bs = [] ∨ uio.uioResid = 0 then some { uio with uioIov := iov :: iovs }
    else if cnt iov.iovLen = 0 then uioLoop cnt iovs bs uio
    else if bs.length < cnt iov.iovLen then some (uio.put iov iovs bs)
    else
      let left := bs.drop (cnt iov.iovLen)
      let uio := uio.put iov iovs (bs.take (cnt iov.iovLen))
      -- the next round reads what is left of this iovec as 0, and skips it
      if left = [] ∨ uio.uioResid = 0 then some uio else uioLoop cnt iovs left uio

def uiofillMaxbuf : ℕ := 256

/-- `uiofill`.  For user space a buffer is filled first, with `imax` where `imin`
is meant: a longer run overwrites the stack, which is `none`. -/
def uiofill (val : UInt8) (n : ℕ) (uio : Uio) : Option Uio :=
  if uio.uioSegflg = .uioUserspace ∧ uiofillMaxbuf < n then none
  else uioLoop id uio.uioIov (List.replicate n val) uio

def uiomove (cp : List UInt8) (uio : Uio) : Option Uio :=
  uioLoop (· % 2 ^ 32) uio.uioIov cp uio

def copyMbuf (m : Mbuf) (moff len : ℕ) (uio : Uio) : Option Uio :=
  if m.mHole then uiofill 0 len uio
  else uiomove ((List.range len).map fun i => m.mtod (moff + i)) uio

def Elem.byte : Elem → UInt8
  | .data b => b
  | .missing => 0

def iovSlots (iovs : List Iovec) : List ℕ :=
  iovs.flatMap fun iov => List.range' iov.iovBase iov.iovLen

def Uio.slots (uio : Uio) : List ℕ := iovSlots uio.uioIov

/-- A `uio` as `uinet_soreceive` sets it up: `uio_resid` is what the iovecs hold. -/
structure Uio.Ready (uio : Uio) : Prop where
  segflg : uio.uioSegflg = .uioSysspace
  small : ∀ iov ∈ uio.uioIov, iov.iovLen < 2 ^ 32
  resid : uio.uioResid = uio.slots.length

structure Uio.Copied (uio : Uio) (bs : List UInt8) (uio' : Uio) : Prop where
  ready : uio'.Ready
  le : bs.length ≤ uio.slots.length
  slots : uio'.slots = uio.slots.drop bs.length
  offset : uio'.uioOffset = uio.uioOffset + bs.length
  written : uio'.written = uio.written ++ uio.slots.zip bs

theorem zip_append_right {α β : Type*} {l : List α} {bs cs : List β} (h : bs.length ≤ l.length) :
    l.zip (bs ++ cs) = l.zip bs ++ (l.drop bs.length).zip cs := by
  induction bs generalizing l with
  | nil => simp
  | cons b bs ih =>
    obtain ⟨a, l, rfl⟩ := List.exists_cons_of_length_pos (Nat.lt_of_lt_of_le (Nat.succ_pos _) h)
    simp [ih (Nat.le_of_succ_le_succ h)]

theorem zip_append_left {α β : Type*} {l l' : List α} {bs : List β} (h : bs.length ≤ l.length) :
    (l ++ l').zip bs = l.zip bs := by
  induction bs generalizing l with
  | nil => simp
  | cons b bs ih =>
    obtain ⟨a, l, rfl⟩ := List.exists_cons_of_length_pos (Nat.lt_of_lt_of_le (Nat.succ_pos _) h)
    simp [ih (Nat.le_of_succ_le_succ h)]

namespace Uio

variable {uio uio' uio'' : Uio} {bs cs : List UInt8}

theorem Copied.resid (h : uio.Copied bs uio') (hr : uio.Ready) :
    uio'.uioResid = uio.uioResid - bs.length := by
  have hle := h.le
  rw [h.ready.resid, hr.resid, h.slots, List.length_drop]
  omega

theorem Copied.nil (h : uio.Ready) : uio.Copied [] uio := ⟨h, by simp, by simp, by simp, by simp⟩

theorem Copied.trans (h : uio.Copied bs uio') (h' : uio'.Copied cs uio'') :
    uio.Copied (bs ++ cs) uio'' := by
  have hle := h.le
  have hle' := h'.le
  rw [h.slots, List.length_drop] at hle'
  refine ⟨h'.ready, ?_, ?_, ?_, ?_⟩
  · rw [List.length_append]
    omega
  · rw [h'.slots, h.slots, List.drop_drop, List.length_append]
  · rw [h'.offset, h.offset, List.length_append]
    push_cast
    ring
  · rw [h'.written, h.written, h.slots, zip_append_right h.le, List.append_assoc]

/-- The iovecs may be cut up differently. -/
theorem Copied.congr (h : uio.Copied bs uio'') (hs : uio'.slots = uio.slots)
    (ho : uio'.uioOffset = uio.uioOffset) (hw : uio'.written = uio.written) :
    uio'.Copied bs uio'' :=
  ⟨h.ready, by rw [hs]; exact h.le, by rw [hs, h.slots], by rw [ho, h.offset],
    by rw [hs, hw, h.written]⟩

theorem put_copied {iov : Iovec} {iovs : List Iovec}
    (h : Ready { uio with uioIov := iov :: iovs }) (hle : bs.length ≤ iov.iovLen) :
    Copied { uio with uioIov := iov :: iovs } bs (uio.put iov iovs bs) := by
  have hseg : uio.uioSegflg = .uioSysspace := h.segflg
  have hsmall := h.small
  have hslots : iovSlots (iov :: iovs) =
      List.range' iov.iovBase bs.length ++
        (List.range' (iov.iovBase + bs.length) (iov.iovLen - bs.length) ++ iovSlots iovs) := by
    rw [← List.append_assoc, List.range'_append_1, Nat.add_sub_cancel' hle]
    rfl
  have hdrop : (iovSlots (iov :: iovs)).drop bs.length = (uio.put iov iovs bs).slots := by
    rw [hslots, List.drop_left' (by simp)]
    rfl
  have hzip : (iovSlots (iov :: iovs)).zip bs = (List.range' iov.iovBase bs.length).zip bs := by
    rw [hslots, zip_append_left (by simp)]
  have hres : uio.uioResid = (iovSlots (iov :: iovs)).length := h.resid
  have hlen : (uio.put iov iovs bs).slots.length + bs.length =
      (iovSlots (iov :: iovs)).length := by
    rw [← hdrop, List.length_drop, hslots, List.length_append, List.length_range']
    omega
  refine ⟨⟨hseg, ?_, ?_⟩, ?_, hdrop.symm, rfl, ?_⟩
  · intro i hi
    rcases List.mem_cons.mp hi with rfl | hi
    · have := hsmall iov List.mem_cons_self
      change iov.iovLen - bs.length < 2 ^ 32
      omega
    · exact hsmall i (List.mem_cons_of_mem _ hi)
  · change uio.uioResid - (bs.length : ℤ) = _
    omega
  · change bs.length ≤ (iovSlots (iov :: iovs)).length
    omega
  · change (if uio.uioSegflg = .uioNocopy then _ else _) = uio.written ++
      (iovSlots (iov :: iovs)).zip bs
    rw [if_neg (by rw [hseg]; decide), hzip]

end Uio

section Loop

variable {uio : Uio} {bs : List UInt8}

/-- Enough room: every byte is stored. -/
theorem uioLoop_copied {cnt : ℕ → ℕ} (hcnt : ∀ n < 2 ^ 32, cnt n = n) (iovs : List Iovec)
    (h : Uio.Ready { uio with uioIov := iovs }) (hle : bs.length ≤ (iovSlots iovs).length) :
    ∃ uio', uioLoop cnt iovs bs uio = some uio' ∧
      Uio.Copied { uio with uioIov := iovs } bs uio' := by
  induction iovs generalizing bs uio with
  | nil =>
    obtain rfl : bs = [] := List.eq_nil_of_length_eq_zero (by simpa [iovSlots] using hle)
    exact ⟨_, by simp [uioLoop], .nil h⟩
  | cons iov iovs ih =>
    have hres : uio.uioResid = (iovSlots (iov :: iovs)).length := h.resid
    have hread := hcnt iov.iovLen (h.small iov List.mem_cons_self)
    have hslots : (iovSlots (iov :: iovs)).length = iov.iovLen + (iovSlots iovs).length := by
      simp [iovSlots]
    by_cases hbs : bs = []
    · subst hbs
      exact ⟨_, by simp [uioLoop], .nil h⟩
    have hpos := List.length_pos_of_ne_nil hbs
    have htest : ¬ (bs = [] ∨ uio.uioResid = 0) := by
      rintro (h | h)
      · exact hbs h
      · omega
    rw [uioLoop, if_neg htest, hread]
    split_ifs with hzero hlt
    · -- an iovec of length 0 has no place to offer
      have hsame : iovSlots (iov :: iovs) = iovSlots iovs := by
        simp [iovSlots, hzero]
      rw [hsame] at hle hres
      obtain ⟨uio', hrun, hcopied⟩ := ih ⟨h.segflg,
        fun i hi => h.small i (List.mem_cons_of_mem _ hi), hres⟩ hle
      exact ⟨uio', hrun, hcopied.congr hsame rfl rfl⟩
    · exact ⟨_, rfl, Uio.put_copied h hlt.le⟩
    · -- the iovec is filled up
      have htake : (bs.take iov.iovLen).length = iov.iovLen := by
        rw [List.length_take]
        omega
      have hput := Uio.put_copied h htake.le
      have hrest : (uio.put iov iovs (bs.take iov.iovLen)).slots = iovSlots iovs := by
        simp [Uio.slots, Uio.put, iovSlots, htake]
      have hsplit := List.take_append_drop iov.iovLen bs
      have hleft : (bs.drop iov.iovLen).length ≤ (iovSlots iovs).length := by
        rw [List.length_drop]
        omega
      have hres' := hput.ready.resid
      rw [hrest] at hres'
      dsimp only
      split_ifs with hdone
      · have hnil : bs.drop iov.iovLen = [] := by
          rcases hdone with hnil | hresid
          · exact hnil
          · exact List.eq_nil_of_length_eq_zero (by omega)
        rw [hnil, List.append_nil] at hsplit
        rw [hsplit] at hput ⊢
        exact ⟨_, rfl, hput⟩
      · have hready : Uio.Ready
            { uio.put iov iovs (bs.take iov.iovLen) with uioIov := iovs } :=
          ⟨hput.ready.segflg, fun i hi => h.small i (List.mem_cons_of_mem _ hi), hres'⟩
        obtain ⟨uio', hrun, hcopied⟩ := ih hready hleft
        have hboth := hput.trans (hcopied.congr hrest rfl rfl)
        rw [hsplit] at hboth
        exact ⟨uio', hrun, hboth⟩

theorem uiomove_copied (h : uio.Ready) (hle : bs.length ≤ uio.slots.length) :
    ∃ uio', uiomove bs uio = some uio' ∧ uio.Copied bs uio' :=
  uioLoop_copied (fun _ hn => Nat.mod_eq_of_lt hn) uio.uioIov h hle

theorem uiofill_copied {val : UInt8} {n : ℕ} (h : uio.Ready) (hle : n ≤ uio.slots.length) :
    ∃ uio', uiofill val n uio = some uio' ∧ uio.Copied (List.replicate n val) uio' := by
  have hseg : ¬ (uio.uioSegflg = .uioUserspace ∧ uiofillMaxbuf < n) := by
    rw [h.segflg]
    exact fun h => absurd h.1 (by decide)
  rw [uiofill, if_neg hseg]
  exact uioLoop_copied (fun _ _ => rfl) uio.uioIov h (by rw [List.length_replicate]; exact hle)

end Loop

theorem Mbuf.view_take_byte (m : Mbuf) {len : ℕ} (hle : len ≤ m.mLen) :
    (m.view.take len).map Elem.byte =
      if m.mHole then List.replicate len 0 else (List.range len).map m.mtod := by
  rw [view, ← List.map_take, List.take_range, min_eq_left hle, List.map_map]
  split_ifs with hole
  · refine List.eq_replicate_iff.mpr ⟨by simp, fun b hb => ?_⟩
    obtain ⟨i, -, rfl⟩ := List.mem_map.mp hb
    simp [elem, hole, Elem.byte]
  · refine List.map_congr_left fun i _ => ?_
    simp [elem, hole, Elem.byte]

theorem copyMbuf_copied {uio : Uio} {m : Mbuf} {len : ℕ} (h : uio.Ready) (hle : len ≤ m.mLen)
    (hroom : len ≤ uio.slots.length) :
    ∃ uio', copyMbuf m 0 len uio = some uio' ∧
      uio.Copied ((m.view.take len).map Elem.byte) uio' := by
  rw [m.view_take_byte hle, copyMbuf]
  simp only [Nat.zero_add]
  split_ifs
  · exact uiofill_copied h hroom
  · exact uiomove_copied h (by simpa using hroom)

def mCopyall : ℕ := 1000000000

/-- One round of the loop in `m_copym2`: the copy of the first `len` bytes of
`m`.  Storage is shared if it is external, and only then; a packet header brings
the flags of `M_COPYFLAGS` along. -/
def mCopyOne (m : Mbuf) (len : ℕ) (copyhdr : Bool) : Mbuf where
  mLen := min len m.mLen
  mType := m.mType
  mHole := m.mExt.isNone && m.mHole
  mEor := copyhdr && m.mEor
  mRdonly := (copyhdr || m.mExt.isSome) && m.mRdonly
  mExt := m.mExt.map fun x => { x with refCnt := x.refCnt + 1 }
  mPkthdrLen :=
    if copyhdr then (if len = mCopyall then m.mPkthdrLen else some len) else none
  mOff := if m.mExt.isSome then m.mOff else 0
  mtod := m.mtod

def mCopym2Loop (holeBreak : Bool) : List Mbuf → ℕ → Bool → Bool → List Mbuf
  | [], _, _, _ => []
  | m :: ms, len, lastHole, copyhdr =>
    if len = 0 ∨ holeBreak = true ∧ m.mHole ≠ lastHole then []
    else mCopyOne m len copyhdr :: mCopym2Loop holeBreak ms
      (if len = mCopyall then len else len - (mCopyOne m len copyhdr).mLen) m.mHole false

/-- `m_copym2` from the start of the chain.  `mget` says whether it gets its
mbufs: without them it returns no chain. -/
def mCopym2 (ms : List Mbuf) (len : ℕ) (mget holeBreak : Bool) : List Mbuf :=
  match ms with
  | [] => []
  | m :: _ =>
    if mget then mCopym2Loop holeBreak ms len m.mHole m.mPkthdrLen.isSome else []

def umin (a b : ℤ) : ℕ := min (a % 2 ^ 32).toNat (b % 2 ^ 32).toNat

def asInt (x : ℤ) : ℤ := (BitVec.ofInt 32 x).toInt

theorem asInt_natCast {k : ℕ} (hk : k < 2 ^ 31) : asInt k = k := by
  rw [asInt, BitVec.toInt_ofInt]
  exact Int.bmod_eq_of_le (by omega) (by omega)

def mMbuftouioLoop (holeBreak : Bool) : List Mbuf → ℤ → Bool → Uio → Option Uio
  | [], _, _, uio => some uio
  | m :: ms, left, lastHole, uio =>
    let length := umin m.mLen left
    if holeBreak = true ∧ m.mHole ≠ lastHole then some uio
    else (copyMbuf m 0 length uio).bind
      (mMbuftouioLoop holeBreak ms (left - length) m.mHole)

def mMbuftouio (uio : Uio) (ms : List Mbuf) (len : ℤ) (holeBreak : Bool) : Option Uio :=
  let total := if 0 < len then asInt (umin uio.uioResid len) else asInt uio.uioResid
  match ms with
  | [] => some uio
  | m :: _ => mMbuftouioLoop holeBreak ms total m.mHole uio

/-- The mbufs that hold the first `n` elements: the last one is a copy if only a
part of it is asked for. -/
def takeMbufs (holeBreak : Bool) : List Mbuf → ℕ → List Mbuf
  | [], _ => []
  | m :: ms, n =>
    if n = 0 then []
    else if m.mLen ≤ n then m :: takeMbufs holeBreak ms (n - m.mLen)
    else mCopym2 (m :: ms) n true holeBreak

theorem mCopym2_cons {m : Mbuf} {ms : List Mbuf} {len : ℕ} (holeBreak : Bool) (h : len ≠ 0) :
    ∃ n ns, mCopym2 (m :: ms) len true holeBreak = n :: ns ∧ n.mLen = min len m.mLen := by
  rw [mCopym2, if_pos rfl, mCopym2Loop, if_neg (by simp [h])]
  exact ⟨_, _, rfl, rfl⟩

theorem Mbuf.view_mCopyOne {m : Mbuf} (len : ℕ) (copyhdr : Bool)
    (hext : m.mHole = true → m.mExt = none) : (mCopyOne m len copyhdr).view = m.view.take len := by
  have hhole : (mCopyOne m len copyhdr).mHole = m.mHole := by
    cases hm : m.mHole with
    | true => simp [mCopyOne, hm, hext hm]
    | false => simp [mCopyOne, hm]
  apply List.ext_getElem
  · simp [mCopyOne]
  · intro i h₁ h₂
    simp only [view, elem, List.getElem_map, List.getElem_range, List.getElem_take, hhole]
    rfl

/-- Whatever is asked for is in the copy; nothing else is, unless the length
happens to be `M_COPYALL`. -/
theorem mCopym2_view {m : Mbuf} {ms : List Mbuf} {len : ℕ} (holeBreak : Bool) (h0 : len ≠ 0)
    (hle : len ≤ m.mLen) (hext : m.mHole = true → m.mExt = none) :
    ∃ es, chainView (mCopym2 (m :: ms) len true holeBreak) = m.view.take len ++ es ∧
      (len ≠ mCopyall → es = []) := by
  rw [mCopym2, if_pos rfl, mCopym2Loop, if_neg (by simp [h0]), chainView_cons,
    Mbuf.view_mCopyOne _ _ hext]
  refine ⟨_, rfl, fun hall => ?_⟩
  have hdone : len - (mCopyOne m len m.mPkthdrLen.isSome).mLen = 0 := by
    change len - min len m.mLen = 0
    omega
  rw [if_neg hall, hdone]
  cases ms <;> simp [mCopym2Loop]

end Libuinet
