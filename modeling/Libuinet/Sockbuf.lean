import Libuinet.Mbuf
import Mathlib.Data.BitVec

namespace Libuinet

/-- Error numbers, also as the value of `so_error`. -/
inductive Errno where
  | econnrefused
  | econnreset
  | enotconn
  | ewouldblock
  | einval
  | enobufs
  | other (n : ℕ)
  deriving DecidableEq, Repr

/-- `struct sockbuf`: the chain, the counters and the flags that are read here. -/
structure Sockbuf where
  sbMb : List Mbuf
  sbCc : BitVec 32
  sbCtl : BitVec 32 := 0
  sbMbcnt : BitVec 32 := 0
  sbMcnt : BitVec 32 := 0
  sbCcnt : BitVec 32 := 0
  sbHiwat : BitVec 32 := 65536
  sbMbmax : BitVec 32 := 524288
  sbLowat : ℕ := 1
  sbNocoalesce : Bool := false
  sbKnote : Bool := false
  sbCantrcvmore : Bool := false
  sbRcvatmark : Bool := false

def msize : ℕ := 256

def MbufType.isCtl : MbufType → Bool
  | .mtData => false
  | .mtOobdata => false
  | _ => true

namespace Sockbuf

def empty : Sockbuf := { sbMb := [], sbCc := 0 }

def view (sb : Sockbuf) : List Elem := chainView sb.sbMb

def sbMbtail (sb : Sockbuf) : Option Mbuf := sb.sbMb.getLast?

def sballoc (sb : Sockbuf) (m : Mbuf) : Sockbuf :=
  { sb with
    sbCc := sb.sbCc + BitVec.ofNat 32 m.mLen
    sbCtl := if m.mType.isCtl then sb.sbCtl + BitVec.ofNat 32 m.mLen else sb.sbCtl
    sbMbcnt := sb.sbMbcnt + BitVec.ofNat 32 (msize + (m.mExt.map MExt.extSize).getD 0)
    sbMcnt := sb.sbMcnt + 1
    sbCcnt := if m.mExt.isSome then sb.sbCcnt + 1 else sb.sbCcnt }

def sbfree (sb : Sockbuf) (m : Mbuf) : Sockbuf :=
  { sb with
    sbCc := sb.sbCc - BitVec.ofNat 32 m.mLen
    sbCtl := if m.mType.isCtl then sb.sbCtl - BitVec.ofNat 32 m.mLen else sb.sbCtl
    sbMbcnt := sb.sbMbcnt - BitVec.ofNat 32 (msize + (m.mExt.map MExt.extSize).getD 0)
    sbMcnt := sb.sbMcnt - 1
    sbCcnt := if m.mExt.isSome then sb.sbCcnt - 1 else sb.sbCcnt }

/-- `sbspace`: the smaller of the two headrooms, both read as signed. -/
def sbspace (sb : Sockbuf) : ℤ :=
  min (sb.sbHiwat - sb.sbCc).toInt (sb.sbMbmax - sb.sbMbcnt).toInt

end Sockbuf

/-- The guard of the coalescing branch, for the tail `n` and the next mbuf `m`
(`SB_NOCOALESCE` aside). -/
def coalesces (n m : Mbuf) : Bool :=
  !n.mEor && n.mWritable && decide ((m.mLen : ℤ) ≤ n.mTrailingspace) && n.mType == m.mType

def bcopyTail (n m : Mbuf) : Mbuf :=
  { n with
    mLen := n.mLen + m.mLen
    mtod := fun i =>
      if n.mLen ≤ i ∧ i < n.mLen + m.mLen then m.mtod (i - n.mLen) else n.mtod i }

/-- One mbuf of positive length, or one whose record mark has to be kept. -/
def sbcompressLink (sb : Sockbuf) (m : Mbuf) : Sockbuf :=
  { sb.sballoc m with sbMb := sb.sbMb ++ [{ m with mEor := false }] }

/-- The two coalescing branches and the link at the end of the loop body. -/
def sbcompressOne (sb : Sockbuf) (m : Mbuf) : Sockbuf :=
  match sb.sbMbtail with
  | none => sbcompressLink sb m
  | some n =>
    if coalesces n m && !sb.sbNocoalesce then
      -- a hole grows without looking at what is added to it
      if n.mHole then
        { sb with
          sbMb := sb.sbMb.dropLast ++ [{ n with mLen := n.mLen + m.mLen }]
          sbCc := sb.sbCc + BitVec.ofNat 32 m.mLen }
      else if m.mLen ≤ mclbytes / 4 then
        { sb with
          sbMb := sb.sbMb.dropLast ++ [bcopyTail n m]
          sbCc := sb.sbCc + BitVec.ofNat 32 m.mLen
          sbCtl := if m.mType.isCtl then sb.sbCtl + BitVec.ofNat 32 m.mLen else sb.sbCtl }
      else sbcompressLink sb m
    else sbcompressLink sb m

/-- The mbuf whose type decides whether an empty mbuf at the end of a record
may go: its successor, or the tail. -/
def sbcompressNeighbour (sb : Sockbuf) (ms : List Mbuf) : Option Mbuf :=
  ms.head?.or sb.sbMbtail

/-- The loop of `sbcompress`; `eor` collects the record marks. -/
def sbcompressLoop : List Mbuf → Bool → Sockbuf → Sockbuf × Bool
  | [], eor, sb => (sb, eor)
  | m :: ms, eor, sb =>
    let eor := eor || m.mEor
    -- an empty mbuf goes unless it alone can carry the record mark
    if m.mLen = 0 ∧ (eor = false ∨
        (sbcompressNeighbour sb ms).map Mbuf.mType = some m.mType) then
      sbcompressLoop ms eor sb
    else sbcompressLoop ms eor (sbcompressOne sb m)

def sbcompress (sb : Sockbuf) (ms : List Mbuf) : Sockbuf :=
  let r := sbcompressLoop ms false sb
  match r.2, r.1.sbMbtail with
  | true, some n => { r.1 with sbMb := r.1.sbMb.dropLast ++ [{ n with mEor := true }] }
  | _, _ => r.1

def sbappendstreamLocked (sb : Sockbuf) (ms : List Mbuf) : Sockbuf := sbcompress sb ms

def sbdropLoop : List Mbuf → ℕ → Sockbuf → Option Sockbuf
  | [], len, sb => if len = 0 then some { sb with sbMb := [] } else none
  | m :: ms, len, sb =>
    if len = 0 then some { sb with sbMb := m :: ms }
    else if len < m.mLen then
      -- the rest of the length comes off the front of this mbuf
      some { sb with
        sbMb := m.trimHead len :: ms
        sbCc := sb.sbCc - BitVec.ofNat 32 len
        sbCtl := if m.mType.isCtl then sb.sbCtl - BitVec.ofNat 32 len else sb.sbCtl }
    else sbdropLoop ms (len - m.mLen) (sb.sbfree m)

def sbdropEmpty : List Mbuf → Sockbuf → Sockbuf
  | [], sb => { sb with sbMb := [] }
  | m :: ms, sb => if m.mLen = 0 then sbdropEmpty ms (sb.sbfree m) else { sb with sbMb := m :: ms }

def sbdropInternal (sb : Sockbuf) (len : ℕ) : Option Sockbuf :=
  (sbdropLoop sb.sbMb len sb).map fun sb => sbdropEmpty sb.sbMb sb

def sbdropLocked (sb : Sockbuf) (len : ℕ) : Option Sockbuf := sbdropInternal sb len

def Sockbuf.SameLimits (sb sb' : Sockbuf) : Prop :=
  sb' = { sb with
    sbMb := sb'.sbMb, sbCc := sb'.sbCc, sbCtl := sb'.sbCtl, sbMbcnt := sb'.sbMbcnt,
    sbMcnt := sb'.sbMcnt, sbCcnt := sb'.sbCcnt }

theorem Sockbuf.SameLimits.trans {a b c : Sockbuf} (h : a.SameLimits b) (h' : b.SameLimits c) :
    a.SameLimits c := by
  unfold Sockbuf.SameLimits at *
  rw [h', h]

variable (sb : Sockbuf) (ms : List Mbuf)

theorem sbcompressOne_sameLimits (m : Mbuf) : sb.SameLimits (sbcompressOne sb m) := by
  unfold sbcompressOne
  split
  · rfl
  · split_ifs <;> rfl

theorem sbcompressLoop_sameLimits (eor : Bool) (sb : Sockbuf) :
    sb.SameLimits (sbcompressLoop ms eor sb).1 := by
  induction ms generalizing eor sb with
  | nil => rfl
  | cons m ms ih =>
    unfold sbcompressLoop
    dsimp only
    split_ifs
    · exact ih _ sb
    · exact (sbcompressOne_sameLimits sb m).trans (ih _ _)

theorem sbappendstreamLocked_sameLimits : sb.SameLimits (sbappendstreamLocked sb ms) := by
  have h := sbcompressLoop_sameLimits ms false sb
  unfold sbappendstreamLocked sbcompress
  dsimp only
  split
  · exact h.trans rfl
  · exact h

@[simp] theorem sbappendstreamLocked_sbCantrcvmore :
    (sbappendstreamLocked sb ms).sbCantrcvmore = sb.sbCantrcvmore := by
  rw [sbappendstreamLocked_sameLimits sb ms]

/-- Linked or absorbed, the mbuf is counted. -/
theorem sbcompressOne_sbCc (m : Mbuf) :
    (sbcompressOne sb m).sbCc = sb.sbCc + BitVec.ofNat 32 m.mLen := by
  unfold sbcompressOne
  split
  · rfl
  · split_ifs <;> rfl

theorem sbcompressLoop_sbCc (eor : Bool) (sb : Sockbuf) :
    (sbcompressLoop ms eor sb).1.sbCc = sb.sbCc + BitVec.ofNat 32 (chainLen ms) := by
  induction ms generalizing eor sb with
  | nil => simp [sbcompressLoop]
  | cons m ms ih =>
    unfold sbcompressLoop
    dsimp only
    split_ifs with h0
    · rw [ih, chainLen_cons, h0.1, Nat.zero_add]
    · rw [ih, sbcompressOne_sbCc, chainLen_cons, BitVec.ofNat_add, add_assoc]

theorem sbappendstreamLocked_sbCc :
    (sbappendstreamLocked sb ms).sbCc = sb.sbCc + BitVec.ofNat 32 (chainLen ms) := by
  have h := sbcompressLoop_sbCc ms false sb
  unfold sbappendstreamLocked sbcompress
  dsimp only
  split <;> exact h

theorem Sockbuf.sbfree_sameLimits (m : Mbuf) : sb.SameLimits (sb.sbfree m) := rfl

theorem sbdropLoop_some (len : ℕ) (sb : Sockbuf) (h : len ≤ chainLen ms) :
    ∃ sb', sbdropLoop ms len sb = some sb' ∧ sb'.view = (chainView ms).drop len ∧
      sb'.sbCc = sb.sbCc - BitVec.ofNat 32 len ∧ sb.SameLimits sb' := by
  induction ms generalizing len sb with
  | nil =>
    have h0 : len = 0 := by simpa using h
    exact ⟨{ sb with sbMb := [] }, by simp [sbdropLoop, h0], by simp [Sockbuf.view],
      by simp [h0], rfl⟩
  | cons m ms ih =>
    by_cases h0 : len = 0
    · exact ⟨{ sb with sbMb := m :: ms }, by simp [sbdropLoop, h0], by simp [Sockbuf.view, h0],
        by simp [h0], rfl⟩
    · by_cases hlt : len < m.mLen
      · have hz : len - m.mLen = 0 := by omega
        simp only [sbdropLoop, if_neg h0, if_pos hlt]
        refine ⟨_, rfl, ?_, rfl, rfl⟩
        simp [Sockbuf.view, Mbuf.view_trimHead, List.drop_append, hz]
      · have hle : len - m.mLen ≤ chainLen ms := by
          rw [chainLen_cons] at h
          omega
        obtain ⟨sb', he, hv, hc, hn⟩ := ih (len - m.mLen) (sb.sbfree m) hle
        refine ⟨sb', by simp only [sbdropLoop, if_neg h0, if_neg hlt, he], ?_, ?_, ?_⟩
        · have hd : m.view.drop len = [] := List.drop_eq_nil_of_le (by simp; omega)
          rw [hv, chainView_cons, List.drop_append, hd]
          simp
        · have hsplit : BitVec.ofNat 32 len =
              BitVec.ofNat 32 m.mLen + BitVec.ofNat 32 (len - m.mLen) := by
            rw [← BitVec.ofNat_add]
            congr 1
            omega
          rw [hc, hsplit]
          simp only [Sockbuf.sbfree]
          ring
        · exact (sb.sbfree_sameLimits m).trans hn

theorem sbdropLoop_le {ms : List Mbuf} {len : ℕ} {sb sb' : Sockbuf}
    (h : sbdropLoop ms len sb = some sb') : len ≤ chainLen ms := by
  induction ms generalizing len sb with
  | nil =>
    unfold sbdropLoop at h
    split_ifs at h with h0
    simp [h0]
  | cons m ms ih =>
    rw [chainLen_cons]
    unfold sbdropLoop at h
    split at h
    · omega
    · split at h
      · omega
      · have := ih h
        omega

theorem sbdropEmpty_spec (sb : Sockbuf) :
    (sbdropEmpty ms sb).view = chainView ms ∧ (sbdropEmpty ms sb).sbCc = sb.sbCc ∧
      sb.SameLimits (sbdropEmpty ms sb) := by
  induction ms generalizing sb with
  | nil => exact ⟨rfl, rfl, rfl⟩
  | cons m ms ih =>
    by_cases h : m.mLen = 0
    · obtain ⟨hv, hc, hn⟩ := ih (sb.sbfree m)
      have hm : m.view = [] := by simp [Mbuf.view, h]
      rw [sbdropEmpty, if_pos h, chainView_cons, hm, List.nil_append]
      exact ⟨hv, by rw [hc]; simp [Sockbuf.sbfree, h],
        (sb.sbfree_sameLimits m).trans hn⟩
    · rw [sbdropEmpty, if_neg h]
      exact ⟨rfl, rfl, rfl⟩

/-- Dropping no more than there is takes exactly that prefix off the view. -/
theorem sbdropLocked_some (len : ℕ) (h : len ≤ sb.view.length) :
    ∃ sb', sbdropLocked sb len = some sb' ∧ sb'.view = sb.view.drop len ∧
      sb'.sbCc = sb.sbCc - BitVec.ofNat 32 len ∧ sb.SameLimits sb' := by
  have h' : len ≤ chainLen sb.sbMb := by rwa [← chainView_length]
  obtain ⟨sb₁, he, hv, hc, hn⟩ := sbdropLoop_some sb.sbMb len sb h'
  obtain ⟨hv', hc', hn'⟩ := sbdropEmpty_spec sb₁.sbMb sb₁
  refine ⟨sbdropEmpty sb₁.sbMb sb₁, by simp [sbdropLocked, sbdropInternal, he], ?_, ?_, ?_⟩
  · rw [hv']
    exact hv
  · rw [hc', hc]
  · exact hn.trans hn'

/-- A drop that does not panic. -/
theorem sbdropLocked_spec {sb sb' : Sockbuf} {len : ℕ} (h : sbdropLocked sb len = some sb') :
    len ≤ sb.view.length ∧ sb'.view = sb.view.drop len ∧
      sb'.sbCc = sb.sbCc - BitVec.ofNat 32 len ∧ sb.SameLimits sb' := by
  have hle : len ≤ sb.view.length := by
    simp only [sbdropLocked, sbdropInternal, Option.map_eq_some_iff] at h
    obtain ⟨sb₁, h₁, -⟩ := h
    have := sbdropLoop_le h₁
    rwa [← chainView_length] at this
  obtain ⟨sb₂, h₂, hspec⟩ := sbdropLocked_some sb len hle
  obtain rfl : sb' = sb₂ := Option.some.inj (h.symm.trans h₂)
  exact ⟨hle, hspec⟩

end Libuinet
