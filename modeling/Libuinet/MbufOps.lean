import Libuinet.Soreceive

namespace Libuinet

/-- The loop of `m_copym2` that finds the offset; what is in front of it is cut off. -/
def mCopym2Skip : List Mbuf → ℕ → List Mbuf
  | [], _ => []
  | m :: ms, off =>
    if off = 0 ∨ off < m.mLen then m.trimHead off :: ms else mCopym2Skip ms (off - m.mLen)

def mCopym2At (ms : List Mbuf) (off0 len : ℕ) (mget holeBreak : Bool) : List Mbuf :=
  match mCopym2Skip ms off0 with
  | [] => []
  | m :: ms =>
    let copyhdr := off0 = 0 && m.mPkthdrLen.isSome
    if mget then mCopym2Loop holeBreak (m :: ms) len m.mHole copyhdr else []

/-- The loop of `m_cat`, with `m` the last mbuf of the first chain. -/
def mCatLoop (m : Mbuf) : List Mbuf → List Mbuf
  | [] => [m]
  | n :: ns =>
    if m.mExt.isSome ∨ m.mHole ∨ n.mHole ∨ mlen ≤ m.mOff + m.mLen + n.mLen then m :: n :: ns
    else mCatLoop (m.pullFrom n n.mLen) ns

def mCat (ms ns : List Mbuf) : List Mbuf :=
  match ms.getLast? with
  | none => []
  | some m => ms.dropLast ++ mCatLoop m ns

/-- The loop of `m_append`, with what it leaves.  `mget` says which calls of `m_get` succeed. -/
def mAppendLoop (mType : MbufType) (mget : ℕ → Bool) (bs : List UInt8) :
    List Mbuf × List UInt8 :=
  if h : bs = [] ∨ mget 0 = false then ([], bs)
  else
    have : bs.length - mlen < bs.length :=
      Nat.sub_lt (List.length_pos_iff.mpr (not_or.mp h).1) (by decide)
    let (ns, remainder) := mAppendLoop mType (fun k => mget (k + 1)) (bs.drop mlen)
    ({ Mbuf.ofBytes (bs.take mlen) with mType } :: ns, remainder)
termination_by bs.length
decreasing_by rwa [List.length_drop]

def mAppend (mget : ℕ → Bool) (ms : List Mbuf) (bs : List UInt8) : List Mbuf × Bool :=
  match ms.getLast? with
  | none => ([], false)
  | some m =>
    let space := if m.mHole then 0 else m.mTrailingspace
    let count := min space.toNat bs.length
    let m' := if 0 < space then m.pullFrom (.ofBytes bs) count else m
    let (ns, remainder) := mAppendLoop m.mType mget (bs.drop count)
    (mapPkthdrLen (· + (bs.length - remainder.length)) (ms.dropLast ++ m' :: ns),
      remainder.isEmpty)

structure MbufChain where
  mbufs : List Mbuf
  nonempty : mbufs ≠ []
  hole_ext : ∀ m ∈ mbufs, m.mHole = true → m.mExt = none

/-- The packet length kept by the first mbuf, if it has a packet header. -/
def pktLen (ms : List Mbuf) : Option ℤ := ms.head?.bind Mbuf.mPkthdrLen

def PktLenExact (ms : List Mbuf) : Prop := ∀ len ∈ pktLen ms, len = (chainView ms).length

def askedFor (es : List Elem) (len : ℕ) : List Elem := if len = mCopyall then es else es.take len

/-- `M_COPYALL` reaches to the end of each mbuf, and another length does not come down to it at
the end of an mbuf. -/
def CountsDown (ms : List Mbuf) (off len : ℕ) : Prop :=
  (len = mCopyall → ∀ m ∈ ms, m.mLen ≤ mCopyall) ∧
    (len ≠ mCopyall → ∀ pre, pre <+: ms → off < chainLen pre →
      off + len ≠ chainLen pre + mCopyall)

variable {ms : List Mbuf} {len off : ℕ}

theorem countsDown_of_lt (h : len < mCopyall) : CountsDown ms off len :=
  ⟨fun hall => absurd hall h.ne, fun _ _ _ hpre => by omega⟩

theorem mCopym2At_zero (ms : List Mbuf) (len : ℕ) (mget holeBreak : Bool) :
    mCopym2At ms 0 len mget holeBreak = mCopym2 ms len mget holeBreak := by
  cases ms with
  | nil => rfl
  | cons m ms =>
    have hm : m.trimHead 0 = m := by
      rw [Mbuf.trimHead]
      split <;> rfl
    simp [mCopym2At, mCopym2Skip, mCopym2, hm]

theorem chainView_mCopym2Skip : chainView (mCopym2Skip ms off) = (chainView ms).drop off := by
  induction ms generalizing off with
  | nil => simp [mCopym2Skip]
  | cons m ms ih =>
    rw [mCopym2Skip]
    split_ifs with h
    · rw [chainView_cons, m.view_trimHead, chainView_cons,
        List.drop_append_of_le_length (by rw [m.view_length]; omega)]
    · have hm : m.view.drop off = [] := List.drop_eq_nil_of_le (by rw [m.view_length]; omega)
      rw [ih, chainView_cons, List.drop_append, hm, m.view_length, List.nil_append]

/-- What holds of all mbufs, cut at the front or not, holds from the offset on. -/
theorem forall_mCopym2Skip {P : Mbuf → Prop} (h : ∀ m ∈ ms, P m)
    (htrim : ∀ m ∈ ms, ∀ k, k = 0 ∨ k < m.mLen → P (m.trimHead k)) :
    ∀ m ∈ mCopym2Skip ms off, P m := by
  induction ms generalizing off with
  | nil => simp [mCopym2Skip]
  | cons m ms ih =>
    have hms : ∀ n ∈ ms, P n := fun n hn => h n (List.mem_cons_of_mem m hn)
    rw [mCopym2Skip]
    split_ifs with hoff
    · exact List.forall_mem_cons.mpr ⟨htrim m List.mem_cons_self off hoff, hms⟩
    · exact ih hms fun n hn => htrim n (List.mem_cons_of_mem m hn)

theorem CountsDown.skip (h : CountsDown ms off len) : CountsDown (mCopym2Skip ms off) 0 len := by
  refine ⟨fun hall => forall_mCopym2Skip (h.1 hall) fun m hm k _ => ?_, fun hlen => ?_⟩
  · rw [m.trimHead_mLen]
    exact (Nat.sub_le _ _).trans (h.1 hall m hm)
  · have hcut := h.2 hlen
    clear h
    induction ms generalizing off with
    | nil => simp [mCopym2Skip]
    | cons m ms ih =>
      have hcons : ∀ pre, pre <+: ms → off < m.mLen + chainLen pre →
          off + len ≠ m.mLen + chainLen pre + mCopyall := fun pre hpre => by
        simpa using hcut (m :: pre) (List.cons_prefix_cons.mpr ⟨rfl, hpre⟩)
      rw [mCopym2Skip]
      split_ifs with hoff
      · rintro (_ | ⟨n, pre⟩) hpre hpos
        · exact absurd hpos (lt_irrefl 0)
        · obtain ⟨rfl, hprefix⟩ := List.cons_prefix_cons.mp hpre
          have hne := hcons pre hprefix
          rw [chainLen_cons, m.trimHead_mLen] at hpos ⊢
          omega
      · refine ih fun pre hpre hpos => ?_
        have hne := hcons pre hpre
        omega

def lenBehind (m : Mbuf) (len : ℕ) : ℕ := if len = mCopyall then len else len - min len m.mLen

theorem CountsDown.cons {m : Mbuf} (h : CountsDown (m :: ms) 0 len) :
    CountsDown ms 0 (lenBehind m len) ∧
      askedFor (chainView (m :: ms)) len =
        m.view.take len ++ askedFor (chainView ms) (lenBehind m len) := by
  by_cases hall : len = mCopyall
  · have hm := h.1 hall
    have htake : m.view.take len = m.view :=
      List.take_of_length_le (by rw [m.view_length, hall]; exact hm m List.mem_cons_self)
    rw [lenBehind, if_pos hall, htake, askedFor, if_pos hall, askedFor, if_pos hall]
    exact ⟨⟨fun _ n hn => hm n (List.mem_cons_of_mem m hn), fun hne => absurd hall hne⟩, rfl⟩
  · have hcons : ∀ pre, pre <+: ms → 0 < m.mLen + chainLen pre →
        len ≠ m.mLen + chainLen pre + mCopyall := fun pre hpre => by
      simpa using h.2 hall (m :: pre) (List.cons_prefix_cons.mpr ⟨rfl, hpre⟩)
    have hnil := hcons [] (List.nil_prefix)
    have hpos : 0 < mCopyall := by decide
    have hne : len - min len m.mLen ≠ mCopyall := by
      rw [chainLen_nil] at hnil
      omega
    rw [lenBehind, if_neg hall, askedFor, if_neg hall, askedFor, if_neg hne]
    refine ⟨⟨fun heq => absurd heq hne, fun _ pre hpre hlen => ?_⟩, ?_⟩
    · have := hcons pre hpre
      omega
    · rw [chainView_cons, List.take_append, m.view_length]
      congr 2
      omega

/-- The loop goes on to an element: it does not break at holes or the kind is the same. -/
def sameRun (holeBreak lastHole : Bool) (e : Elem) : Bool := !holeBreak || e.isMissing == lastHole

theorem isMissing_of_head {m : Mbuf} (ms : List Mbuf) (len : ℕ) (hpos : 0 < m.mLen) :
    ∀ e ∈ (askedFor (chainView (m :: ms)) len).head?, e.isMissing = m.mHole := by
  intro e he
  have hhead : e ∈ (chainView (m :: ms)).head? := by
    rw [askedFor] at he
    split_ifs at he with hall
    · exact he
    · rw [List.head?_take] at he
      split_ifs at he
      · cases he
      · exact he
  obtain ⟨e', es, hes⟩ := List.exists_cons_of_length_pos (by rwa [m.view_length] :
    0 < m.view.length)
  rw [chainView_cons, hes] at hhead
  cases hhead
  exact Mbuf.isMissing_of_mem (by rw [hes]; simp)

theorem chainView_mCopym2Loop (holeBreak lastHole copyhdr : Bool)
    (hext : ∀ m ∈ ms, m.mHole = true → m.mExt = none)
    (hpos : holeBreak = true → ∀ m ∈ ms, 0 < m.mLen) (h : CountsDown ms 0 len) :
    chainView (mCopym2Loop holeBreak ms len lastHole copyhdr) =
      (askedFor (chainView ms) len).takeWhile (sameRun holeBreak lastHole) := by
  induction ms generalizing len lastHole copyhdr with
  | nil => simp [mCopym2Loop, askedFor]
  | cons m ms ih =>
    obtain ⟨hrest, hasked⟩ := h.cons
    obtain ⟨hm, hms⟩ := List.forall_mem_cons.mp hext
    rw [mCopym2Loop]
    split
    · next hstop =>
      rcases hstop with rfl | ⟨hbreak, hkind⟩
      · simp [askedFor, show 0 ≠ mCopyall by decide]
      · have hhead := isMissing_of_head ms len (hpos hbreak m List.mem_cons_self)
        cases hes : askedFor (chainView (m :: ms)) len with
        | nil => rfl
        | cons e es =>
          rw [hes] at hhead
          simp [sameRun, hbreak, hhead e rfl, hkind]
    · next hgo =>
      have hsame : sameRun holeBreak m.mHole = sameRun holeBreak lastHole := by
        cases holeBreak with
        | false => rfl
        | true => rw [show m.mHole = lastHole by tauto]
      have hview : ∀ e ∈ m.view.take len, sameRun holeBreak m.mHole e = true := fun e he => by
        simp [sameRun, Mbuf.isMissing_of_mem (List.mem_of_mem_take he)]
      rw [chainView_cons, Mbuf.view_mCopyOne len copyhdr hm, hasked, ← hsame,
        List.takeWhile_append_of_pos hview]
      exact congrArg _ (ih m.mHole false hms
        (fun hb n hn => hpos hb n (List.mem_cons_of_mem m hn)) hrest)

/-- `m_copym2` copies what it is asked for, or the first run of that. -/
theorem chainView_mCopym2At (holeBreak : Bool) (hext : ∀ m ∈ ms, m.mHole = true → m.mExt = none)
    (hpos : holeBreak = true → ∀ m ∈ ms, 0 < m.mLen) (h : CountsDown ms off len) :
    chainView (mCopym2At ms off len true holeBreak) =
      if holeBreak then firstRun (askedFor ((chainView ms).drop off) len)
      else askedFor ((chainView ms).drop off) len := by
  have hext' : ∀ m ∈ mCopym2Skip ms off, m.mHole = true → m.mExt = none :=
    forall_mCopym2Skip hext fun m hm k _ => by
      rw [m.trimHead_mHole, Mbuf.trimHead]
      split <;> exact hext m hm
  have hpos' : holeBreak = true → ∀ m ∈ mCopym2Skip ms off, 0 < m.mLen := fun hb =>
    forall_mCopym2Skip (hpos hb) fun m hm k hk => by
      have := hpos hb m hm
      rw [m.trimHead_mLen]
      omega
  have hcounts := h.skip
  rw [← chainView_mCopym2Skip, mCopym2At]
  cases hskip : mCopym2Skip ms off with
  | nil => cases holeBreak <;> simp [askedFor, firstRun]
  | cons m ms' =>
    rw [hskip] at hext' hpos' hcounts
    dsimp only
    rw [if_pos rfl, chainView_mCopym2Loop holeBreak m.mHole _ hext' hpos' hcounts]
    cases holeBreak with
    | false => simp [sameRun]
    | true =>
      rw [if_pos rfl, firstRun_of_head (isMissing_of_head ms' len (hpos' rfl m List.mem_cons_self))]
      rfl

theorem Mbuf.byte_elem (m : Mbuf) (i : ℕ) : (m.elem i).byte = m.byte i := by
  unfold elem byte
  split <;> rfl

theorem mCopydataLoop_take (ms : List Mbuf) (len : ℕ) :
    mCopydataLoop ms 0 len = ((chainView ms).take len).map Elem.byte := by
  induction ms generalizing len with
  | nil => simp [mCopydataLoop]
  | cons m ms ih =>
    rw [mCopydataLoop]
    split
    · simp [*]
    · have hcount : min (m.mLen - 0) len = min len m.mLen := by omega
      have hm : (m.view.take len).map Elem.byte =
          (List.range (min len m.mLen)).map fun i => m.byte (0 + i) := by
        simp [Mbuf.view, ← List.map_take, List.take_range, Function.comp_def, Mbuf.byte_elem]
      dsimp only
      rw [ih, hcount, chainView_cons, List.take_append, List.map_append, hm, m.view_length]
      congr 3
      omega

theorem mCopydata_eq (ms : List Mbuf) (off len : ℕ) :
    mCopydata ms off len = (((chainView ms).drop off).take len).map Elem.byte := by
  rw [← chainView_mCopym2Skip, ← mCopydataLoop_take, mCopydata]
  induction ms generalizing off with
  | nil => simp [mCopydataSkip, mCopym2Skip, mCopydataLoop]
  | cons m ms ih =>
    rw [mCopydataSkip, mCopym2Skip]
    split_ifs with hoff
    · have hbyte : ∀ i, (m.trimHead off).byte i = m.byte (off + i) := by
        intro i
        cases hm : m.mHole <;> simp [Mbuf.byte, Mbuf.trimHead, hm, Nat.add_comm]
      simp only [mCopydataLoop, m.trimHead_mLen, hbyte, Nat.sub_zero, Nat.zero_add]
    · exact ih (off - m.mLen)

theorem chainView_mCatLoop (m : Mbuf) (ns : List Mbuf) :
    chainView (mCatLoop m ns) = m.view ++ chainView ns := by
  induction ns generalizing m with
  | nil => simp [mCatLoop]
  | cons n ns ih =>
    rw [mCatLoop]
    split_ifs with hjoin
    · rfl
    · obtain ⟨-, hm, hn, -⟩ : _ ∧ m.mHole = false ∧ n.mHole = false ∧ _ := by
        simpa only [not_or, Bool.not_eq_true] using hjoin
      rw [ih, m.view_pullFrom n n.mLen hm hn le_rfl, List.take_of_length_le n.view_length.le,
        chainView_cons, List.append_assoc]

theorem chainView_mCat (h : ms ≠ []) (ns : List Mbuf) :
    chainView (mCat ms ns) = chainView ms ++ chainView ns := by
  obtain ⟨ms', m, rfl⟩ := (List.eq_nil_or_concat ms).resolve_left h
  simp [mCat, chainView_mCatLoop]

theorem Mbuf.view_ofBytes (bs : List UInt8) : (Mbuf.ofBytes bs).view = bs.map .data := by
  apply List.ext_getElem
  · simp [ofBytes]
  · intro i h₁ h₂
    simp at h₂
    simp [view, elem, ofBytes, h₂]

theorem mAppendLoop_spec (mType : MbufType) (mget : ℕ → Bool) (bs : List UInt8) :
    ∃ stored, bs = stored ++ (mAppendLoop mType mget bs).2 ∧
      chainView (mAppendLoop mType mget bs).1 = stored.map .data ∧
      ((∀ k, mget k = true) → (mAppendLoop mType mget bs).2 = []) := by
  fun_induction mAppendLoop mType mget bs with
  | case1 mget bs hstop =>
    refine ⟨[], rfl, rfl, fun hget => ?_⟩
    simpa [hget 0] using hstop
  | case2 mget bs hgo _ ns remainder hloop ih =>
    obtain ⟨stored, hbs, hview, hall⟩ := ih
    rw [hloop] at hbs hview hall
    refine ⟨bs.take mlen ++ stored, ?_, ?_, fun hget => hall fun k => hget (k + 1)⟩
    · rw [List.append_assoc, ← hbs, List.take_append_drop]
    · rw [chainView_cons, hview, List.map_append, ← Mbuf.view_ofBytes (bs.take mlen)]
      rfl

/-- What `m_append` stores is behind the chain, all of it if there are mbufs for it. -/
theorem mAppend_spec (mget : ℕ → Bool) (ms' : List Mbuf) (m : Mbuf) (bs : List UInt8) :
    ∃ stored remainder m' ns, bs = stored ++ remainder ∧ m'.mPkthdrLen = m.mPkthdrLen ∧
      mAppend mget (ms' ++ [m]) bs =
        (mapPkthdrLen (· + (bs.length - remainder.length)) (ms' ++ m' :: ns), remainder.isEmpty) ∧
      chainView (ms' ++ m' :: ns) = chainView (ms' ++ [m]) ++ stored.map .data ∧
      ((∀ k, mget k = true) → remainder = []) := by
  set space := if m.mHole then 0 else m.mTrailingspace with hspace
  set count := min space.toNat bs.length with hcount
  obtain ⟨stored, hbs, hview, hall⟩ := mAppendLoop_spec m.mType mget (bs.drop count)
  refine ⟨bs.take count ++ stored, _, if 0 < space then m.pullFrom (.ofBytes bs) count else m,
    (mAppendLoop m.mType mget (bs.drop count)).1, ?_, ?_,
    by simp [mAppend, ← hspace, ← hcount], ?_, hall⟩
  · rw [List.append_assoc, ← hbs, List.take_append_drop]
  · split_ifs <;> rfl
  · have hm : (if 0 < space then m.pullFrom (.ofBytes bs) count else m).view =
        m.view ++ (bs.take count).map .data := by
      split_ifs with hpos
      · have hole : m.mHole = false := by
          cases hm : m.mHole with
          | true => simp [hspace, hm] at hpos
          | false => rfl
        rw [m.view_pullFrom _ count hole rfl (min_le_right _ _), Mbuf.view_ofBytes, List.map_take]
      · have hzero : count = 0 := by omega
        simp [hzero]
    simp [hm, hview]

theorem PktLenExact.map {ms' : List Mbuf} {f : ℤ → ℤ} (h : PktLenExact ms)
    (hhdr : pktLen ms' = pktLen ms) (hf : f (chainView ms).length = (chainView ms').length)
    (hfits : (chainView ms').length ≤ intMax) : PktLenExact (mapPkthdrLen f ms') := by
  have hmap : pktLen (mapPkthdrLen f ms') = (pktLen ms).map fun n => wrapInt (f n) := by
    rw [← hhdr]
    cases ms' <;> rfl
  intro len hlen
  obtain ⟨len', hlen', rfl⟩ := Option.map_eq_some_iff.mp (hmap ▸ hlen)
  rw [h len' hlen', chainView_mapPkthdrLen, hf, wrapInt_eq (by omega) (by omega)]

theorem pktLen_append {m m' : Mbuf} (ms ns : List Mbuf) (h : m'.mPkthdrLen = m.mPkthdrLen) :
    pktLen (ms ++ m' :: ns) = pktLen (ms ++ [m]) := by
  cases ms with
  | nil => exact h
  | cons _ _ => rfl

theorem pktLen_mAdjHead (ms : List Mbuf) (len : ℕ) : pktLen (mAdjHead ms len) = pktLen ms := by
  cases ms with
  | nil => rfl
  | cons m ms =>
    rw [mAdjHead, Mbuf.trimHead]
    split_ifs <;> rfl

theorem pktLen_mAdjTruncate (ms : List Mbuf) (count : ℕ) :
    pktLen (mAdjTruncate ms count) = pktLen ms := by
  cases ms with
  | nil => rfl
  | cons m ms =>
    rw [mAdjTruncate]
    split_ifs <;> rfl

theorem PktLenExact.mAdj (h : PktLenExact ms) (hfits : chainLen ms ≤ intMax) {reqLen : ℤ}
    (hreq : reqLen.natAbs ≤ intMax) : PktLenExact (mAdj ms reqLen) := by
  rw [Libuinet.mAdj]
  split_ifs with hpos
  · refine h.map (pktLen_mAdjHead ms _) ?_ ?_
    · simp only [chainView_length]
      ring
    · rw [chainView_mAdjHead, List.length_drop, chainView_length]
      omega
  · rcases List.eq_nil_or_concat ms with rfl | ⟨ms', m, rfl⟩
    · exact h
    · have hcount := mAdjTail_count hfits (by omega : (-reqLen).toNat ≤ intMax)
      rw [List.concat_eq_append] at h hfits hcount
      have hsum : chainLen (ms' ++ [m]) = chainLen ms' + m.mLen := by simp [chainLen]
      simp only [mAdjTail, List.concat_eq_append, List.getLast?_append, List.getLast?_singleton,
        Option.some_or, List.dropLast_concat, hcount]
      split_ifs with hlast
      · have hcut : (chainView (ms' ++ [m.trimTail (m.mLen - (-reqLen).toNat)])).length =
            chainLen ms' + (m.mLen - (-reqLen).toNat) := by
          simp [chainView_length, Mbuf.trimTail]
        refine h.map (pktLen_append ms' [] rfl) ?_ (by omega)
        rw [hcut, chainView_length, hsum]
        omega
      · refine h.map (pktLen_mAdjTruncate _ _) ?_ ?_ <;>
          rw [chainView_mAdjTruncate, List.length_take, chainView_length] <;> omega

theorem PktLenExact.mAppend (h : PktLenExact ms) (mget : ℕ → Bool) {bs : List UInt8}
    (hfits : chainLen ms + bs.length ≤ intMax) : PktLenExact (mAppend mget ms bs).1 := by
  rcases List.eq_nil_or_concat ms with rfl | ⟨ms', m, rfl⟩
  · exact h
  · rw [List.concat_eq_append] at h hfits ⊢
    obtain ⟨stored, remainder, m', ns, hbs, hhdr, heq, hview, -⟩ := mAppend_spec mget ms' m bs
    rw [heq]
    refine h.map (pktLen_append ms' ns hhdr) ?_ ?_
    · rw [hview, hbs]
      push_cast [List.length_append, List.length_map]
      ring
    · have hstored : stored.length ≤ bs.length := by simp [hbs]
      rw [hview, List.length_append, List.length_map, chainView_length]
      omega

/-- The operations on a chain whose length fits an `int`, in terms of its view. -/
theorem mbuf_chain_ops (c : MbufChain) (hfits : chainLen c.mbufs ≤ intMax) :
    (∀ len ≤ intMax, chainView (mAdj c.mbufs len) = (chainView c.mbufs).drop len ∧
      chainView (mAdj c.mbufs (-len)) = (chainView c.mbufs).take (chainLen c.mbufs - len)) ∧
    (∀ off len, CountsDown c.mbufs off len →
      chainView (mCopym2At c.mbufs off len true false) =
        askedFor ((chainView c.mbufs).drop off) len ∧
      ((∀ m ∈ c.mbufs, 0 < m.mLen) → chainView (mCopym2At c.mbufs off len true true) =
        firstRun (askedFor ((chainView c.mbufs).drop off) len))) ∧
    (∀ off len, mCopydata c.mbufs off len =
      (((chainView c.mbufs).drop off).take len).map Elem.byte) ∧
    (∀ ns, chainView (mCat c.mbufs ns) = chainView c.mbufs ++ chainView ns) ∧
    (∀ mget bs, ∃ stored remainder, bs = stored ++ remainder ∧
      chainView (mAppend mget c.mbufs bs).1 = chainView c.mbufs ++ stored.map .data ∧
      ((mAppend mget c.mbufs bs).2 = true ↔ remainder = []) ∧
      ((∀ k, mget k = true) → remainder = [])) ∧
    (PktLenExact c.mbufs →
      (∀ reqLen : ℤ, reqLen.natAbs ≤ intMax → PktLenExact (mAdj c.mbufs reqLen)) ∧
      ∀ mget (bs : List UInt8), chainLen c.mbufs + bs.length ≤ intMax →
        PktLenExact (mAppend mget c.mbufs bs).1) := by
  refine ⟨fun len hlen => ⟨chainView_mAdj_head c.mbufs len, ?_⟩,
    fun off len h => ⟨?_, fun hpos => ?_⟩, mCopydata_eq c.mbufs, chainView_mCat c.nonempty,
    fun mget bs => ?_, fun h => ⟨fun _ hreq => h.mAdj hfits hreq, fun mget _ => h.mAppend mget⟩⟩
  · rcases len.eq_zero_or_pos with rfl | hpos
    · simpa [← chainView_length] using chainView_mAdj_head c.mbufs 0
    · exact chainView_mAdj_tail c.mbufs len hfits hlen hpos
  · exact chainView_mCopym2At false c.hole_ext nofun h
  · exact chainView_mCopym2At true c.hole_ext (fun _ => hpos) h
  · obtain ⟨ms', m, hms⟩ := (List.eq_nil_or_concat c.mbufs).resolve_left c.nonempty
    rw [hms, List.concat_eq_append]
    obtain ⟨stored, remainder, m', ns, hbs, -, heq, hview, hall⟩ := mAppend_spec mget ms' m bs
    refine ⟨stored, remainder, hbs, ?_, ?_, hall⟩
    · rw [heq, chainView_mapPkthdrLen, hview]
    · rw [heq, List.isEmpty_iff]

def holedChain : MbufChain where
  mbufs := [{ Mbuf.ofBytes [1, 2] with mPkthdrLen := some 6 }, mGethole 3, Mbuf.ofBytes [4]]
  nonempty := by simp
  hole_ext := by simp [mGethole, Mbuf.ofBytes]

theorem mbuf_chain_ops_holed :
    chainView (mCopym2At holedChain.mbufs 1 4 true false) =
        [.data 2, .missing, .missing, .missing] ∧
      chainView (mCopym2At holedChain.mbufs 1 4 true true) = [.data 2] ∧
      PktLenExact (mAdj holedChain.mbufs (-2)) := by
  obtain ⟨-, hcopy, -, -, -, hlen⟩ := mbuf_chain_ops holedChain (by decide)
  obtain ⟨hslice, hrun⟩ := hcopy 1 4 (countsDown_of_lt (by decide))
  refine ⟨hslice.trans rfl, (hrun (by simp [holedChain, mGethole, Mbuf.ofBytes])).trans rfl,
    (hlen fun len h => ?_).1 (-2) (by decide)⟩
  cases h
  rfl

def copyallChain : MbufChain where
  mbufs := [mGethole mCopyall, Mbuf.ofBytes [7]]
  nonempty := by simp
  hole_ext := by simp [mGethole, Mbuf.ofBytes]

def longChain : MbufChain where
  mbufs := [mGethole 1500000000, mGethole 1500000000, Mbuf.ofBytes [7]]
  nonempty := by simp
  hole_ext := by simp [mGethole, Mbuf.ofBytes]

/-- The first `M_COPYALL` bytes of a longer chain cannot be asked for; and a chain whose length
does not fit an `int` loses everything when two bytes are cut off its end. -/
theorem mCopym2_copyall :
    (mCopyall ≤ chainLen copyallChain.mbufs ∧
      chainView (mCopym2At copyallChain.mbufs 0 mCopyall true false) ≠
        ((chainView copyallChain.mbufs).drop 0).take mCopyall) ∧
    chainLen longChain.mbufs = 3000000001 ∧ chainView (mAdj longChain.mbufs (-2)) = [] := by
  refine ⟨⟨by decide, fun h => ?_⟩, by decide, ?_⟩
  · have hlen := congrArg List.length h
    rw [List.drop_zero, List.length_take, chainView_length, chainView_length] at hlen
    exact absurd hlen (by decide)
  · apply List.eq_nil_of_length_eq_zero
    rw [chainView_length]
    decide

end Libuinet
