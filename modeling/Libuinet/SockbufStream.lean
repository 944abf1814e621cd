import Libuinet.Execution
import Libuinet.Sockbuf

namespace Libuinet

open Execution

def Sockbuf.Counted (sb : Sockbuf) : Prop := sb.sbCc.toNat = sb.view.length

instance (sb : Sockbuf) : Decidable sb.Counted :=
  inferInstanceAs (Decidable (sb.sbCc.toNat = sb.view.length))

/-- The append adds the view of the chain and nothing else, and `sb_cc`
follows. -/
def AppendFaithful (sb : Sockbuf) (ms : List Mbuf) : Prop :=
  (sbappendstreamLocked sb ms).view = sb.view ++ chainView ms ∧
    (sbappendstreamLocked sb ms).Counted

/-- The tail `n` takes up the bytes of `m` instead of being followed by `m`. -/
def absorbs (n m : Mbuf) : Bool := coalesces n m && (n.mHole || decide (m.mLen ≤ mclbytes / 4))

/-- No mbuf of the chain is absorbed by a tail of the other kind.  The first
argument is the tail of the buffer, which grows by what it absorbs. -/
def KeepsKinds : Option Mbuf → List Mbuf → Prop
  | _, [] => True
  | none, m :: ms => if m.mLen = 0 then KeepsKinds none ms else KeepsKinds (some m) ms
  | some n, m :: ms =>
    if m.mLen = 0 then KeepsKinds (some n) ms
    else if absorbs n m then
      n.mHole = m.mHole ∧ KeepsKinds (some { n with mLen := n.mLen + m.mLen }) ms
    else KeepsKinds (some m) ms

def absorbed (n m : Mbuf) : Mbuf :=
  if n.mHole then { n with mLen := n.mLen + m.mLen } else bcopyTail n m

/-- An absorbed mbuf is read as if it were of the tail's kind. -/
theorem view_absorbed (n m : Mbuf) :
    (absorbed n m).view = n.view ++ ({ m with mHole := n.mHole } : Mbuf).view := by
  apply List.ext_getElem
  · by_cases h : n.mHole <;> simp [absorbed, bcopyTail, h]
  · intro i h₁ h₂
    by_cases h : n.mHole
    · simp [absorbed, h, Mbuf.view, Mbuf.elem, List.getElem_append]
    · have hi : i < n.mLen + m.mLen := by simpa using h₂
      by_cases hlt : i < n.mLen
      · have hge : ¬ n.mLen ≤ i := by omega
        simp [absorbed, bcopyTail, h, Mbuf.view, Mbuf.elem, hlt, hge]
      · have hge : n.mLen ≤ i := by omega
        simp [absorbed, bcopyTail, h, Mbuf.view, Mbuf.elem, hge, hi]

/-- Changing the kind of a non-empty mbuf changes its view. -/
theorem view_setHole_ne (m : Mbuf) (k : Bool) (hm : m.mLen ≠ 0) (hk : k ≠ m.mHole)
    (u v : List Elem) : ({ m with mHole := k } : Mbuf).view ++ u ≠ m.view ++ v := by
  intro he
  obtain ⟨l, hl⟩ := Nat.exists_eq_succ_of_ne_zero hm
  simp only [Mbuf.view, hl, List.range_succ_eq_map, List.map_cons, List.cons_append,
    List.cons.injEq] at he
  have h0 := he.1
  cases k <;> cases hh : m.mHole <;> simp_all [Mbuf.elem]

variable (ms : List Mbuf) (sb : Sockbuf)

theorem sbcompressOne_link (m : Mbuf) (h : ∀ n, sb.sbMbtail = some n → absorbs n m = false) :
    sbcompressOne sb m = sbcompressLink sb m := by
  unfold sbcompressOne
  split
  · rfl
  · rename_i n hn
    have ha := h n hn
    simp only [absorbs] at ha
    split_ifs with hc hh hl
    all_goals simp_all

theorem sbcompressOne_absorb (n m : Mbuf) (hno : sb.sbNocoalesce = false)
    (hn : sb.sbMbtail = some n) (ha : absorbs n m = true) :
    (sbcompressOne sb m).sbMb = sb.sbMb.dropLast ++ [absorbed n m] := by
  have hc : coalesces n m = true := by
    simp only [absorbs, Bool.and_eq_true] at ha
    exact ha.1
  by_cases hh : n.mHole = true
  · simp [sbcompressOne, hn, hc, hno, hh, absorbed]
  · have hl : m.mLen ≤ mclbytes / 4 := by simpa [absorbs, hc, hh] using ha
    simp [sbcompressOne, hn, hc, hno, hh, hl, absorbed]

theorem sbMbtail_split {sb : Sockbuf} {n : Mbuf} (hn : sb.sbMbtail = some n) :
    sb.sbMb = sb.sbMb.dropLast ++ [n] := (List.dropLast_append_getLast? n hn).symm

/-- Everything one turn of the loop can do to a non-empty mbuf without a record
mark: it is linked, or it is absorbed and takes the kind of the tail. -/
theorem sbcompressOne_cases (m : Mbuf) (hno : sb.sbNocoalesce = false) (he : m.mEor = false) :
    (∃ n, sb.sbMbtail = some n ∧ absorbs n m = true ∧
      (sbcompressOne sb m).sbMbtail = some (absorbed n m) ∧
      (sbcompressOne sb m).view = sb.view ++ ({ m with mHole := n.mHole } : Mbuf).view) ∨
    ((∀ n, sb.sbMbtail = some n → absorbs n m = false) ∧
      (sbcompressOne sb m).sbMbtail = some m ∧
      (sbcompressOne sb m).view = sb.view ++ m.view) := by
  by_cases h : ∃ n, sb.sbMbtail = some n ∧ absorbs n m = true
  · obtain ⟨n, hn, ha⟩ := h
    have hmb := sbcompressOne_absorb sb n m hno hn ha
    refine Or.inl ⟨n, hn, ha, by simp [Sockbuf.sbMbtail, hmb], ?_⟩
    have hv : sb.view = chainView sb.sbMb.dropLast ++ n.view := by
      conv_lhs => rw [Sockbuf.view, sbMbtail_split hn]
      simp
    rw [hv, Sockbuf.view, hmb]
    simp [view_absorbed]
  · have hl : ∀ n, sb.sbMbtail = some n → absorbs n m = false := by
      intro n hn
      by_contra ha
      exact h ⟨n, hn, by simpa using ha⟩
    have hm : ({ m with mEor := false } : Mbuf) = m := by
      cases m
      simp_all
    refine Or.inr ⟨hl, ?_, ?_⟩ <;> rw [sbcompressOne_link sb m hl]
    · simp [sbcompressLink, Sockbuf.sbMbtail, hm]
    · simp [sbcompressLink, Sockbuf.view, hm]

theorem sbcompressOne_sbNocoalesce (m : Mbuf) :
    (sbcompressOne sb m).sbNocoalesce = sb.sbNocoalesce := by
  rw [sbcompressOne_sameLimits sb m]

def NoEor (ms : List Mbuf) : Prop := ∀ m ∈ ms, m.mEor = false

theorem sbcompressLoop_cons (m : Mbuf) (ms : List Mbuf) (sb : Sockbuf) (he : m.mEor = false) :
    sbcompressLoop (m :: ms) false sb =
      if m.mLen = 0 then sbcompressLoop ms false sb
      else sbcompressLoop ms false (sbcompressOne sb m) := by
  simp [sbcompressLoop, he]

theorem sbcompressLoop_eor (he : NoEor ms) : (sbcompressLoop ms false sb).2 = false := by
  induction ms generalizing sb with
  | nil => rfl
  | cons m ms ih =>
    have hms : NoEor ms := fun m' h => he m' (by simp [h])
    rw [sbcompressLoop_cons m ms sb (he m (by simp))]
    split_ifs
    · exact ih sb hms
    · exact ih _ hms

/-- The view only grows, by one element for each element of the chain. -/
theorem sbcompressLoop_extends (hno : sb.sbNocoalesce = false) (he : NoEor ms) :
    ∃ l, (sbcompressLoop ms false sb).1.view = sb.view ++ l ∧ l.length = chainLen ms := by
  induction ms generalizing sb with
  | nil => exact ⟨[], by simp [sbcompressLoop], rfl⟩
  | cons m ms ih =>
    have hm : m.mEor = false := he m (by simp)
    have hms : NoEor ms := fun m' h => he m' (by simp [h])
    rw [sbcompressLoop_cons m ms sb hm]
    split_ifs with h0
    · simpa [h0] using ih sb hno hms
    · have hn := (sbcompressOne_sbNocoalesce sb m).trans hno
      obtain ⟨l, hl, hlen⟩ := ih (sbcompressOne sb m) hn hms
      obtain ⟨n, -, -, -, hv⟩ | ⟨-, -, hv⟩ := sbcompressOne_cases sb m hno hm
      · exact ⟨({ m with mHole := n.mHole } : Mbuf).view ++ l,
          by rw [hl, hv, List.append_assoc], by simp [hlen]⟩
      · exact ⟨m.view ++ l, by rw [hl, hv, List.append_assoc], by simp [hlen]⟩

/-- The bytes of the tail play no part. -/
theorem keepsKinds_mtod (n : Mbuf) (f : ℕ → UInt8) :
    KeepsKinds (some { n with mtod := f }) ms ↔ KeepsKinds (some n) ms := by
  induction ms generalizing n with
  | nil => rfl
  | cons m ms ih =>
    have ha : absorbs { n with mtod := f } m = absorbs n m := rfl
    have ih' := ih { n with mLen := n.mLen + m.mLen }
    simp only [KeepsKinds, ha, ih, ih']

theorem keepsKinds_absorbed (n m : Mbuf) :
    KeepsKinds (some (absorbed n m)) ms ↔
      KeepsKinds (some { n with mLen := n.mLen + m.mLen }) ms := by
  unfold absorbed
  split_ifs
  · rfl
  · exact keepsKinds_mtod ms { n with mLen := n.mLen + m.mLen } (bcopyTail n m).mtod

theorem sbcompressLoop_view_iff (hno : sb.sbNocoalesce = false) (he : NoEor ms) :
    (sbcompressLoop ms false sb).1.view = sb.view ++ chainView ms ↔
      KeepsKinds sb.sbMbtail ms := by
  induction ms generalizing sb with
  | nil => simp [sbcompressLoop, KeepsKinds]
  | cons m ms ih =>
    have hm : m.mEor = false := he m (by simp)
    have hms : NoEor ms := fun m' h => he m' (by simp [h])
    rw [sbcompressLoop_cons m ms sb hm]
    by_cases h0 : m.mLen = 0
    · have hv : m.view = [] := by simp [Mbuf.view, h0]
      rw [if_pos h0, chainView_cons, hv, List.nil_append, ih sb hno hms]
      cases sb.sbMbtail <;> simp [KeepsKinds, h0]
    rw [if_neg h0]
    have hn := (sbcompressOne_sbNocoalesce sb m).trans hno
    have ih' := ih (sbcompressOne sb m) hn hms
    obtain ⟨n, htail, ha, htail', hv⟩ | ⟨hl, htail', hv⟩ := sbcompressOne_cases sb m hno hm
    · rw [htail]
      simp only [KeepsKinds, if_neg h0, ha, if_true]
      by_cases hk : n.mHole = m.mHole
      · have hsame : ({ m with mHole := n.mHole } : Mbuf) = m := by rw [hk]
        rw [hv, htail', hsame, keepsKinds_absorbed, List.append_assoc] at ih'
        rw [chainView_cons, ih']
        simp [hk]
      · -- the wrong kind stays in the view, whatever is appended behind it
        obtain ⟨l, hext, -⟩ := sbcompressLoop_extends ms (sbcompressOne sb m) hn hms
        simp only [hk, false_and, iff_false]
        intro heq
        rw [hext, hv, List.append_assoc, List.append_cancel_left_eq, chainView_cons] at heq
        exact view_setHole_ne m n.mHole h0 hk l (chainView ms) heq
    · rw [hv, htail', List.append_assoc] at ih'
      rw [chainView_cons, ih']
      cases htail : sb.sbMbtail with
      | none => simp [KeepsKinds, h0]
      | some n => simp [KeepsKinds, h0, hl n htail]

theorem sbappendstreamLocked_eq (he : NoEor ms) :
    sbappendstreamLocked sb ms = (sbcompressLoop ms false sb).1 := by
  simp [sbappendstreamLocked, sbcompress, sbcompressLoop_eor ms sb he]

/-- The length of the view grows by the length of the chain, faithfully or
not. -/
theorem sbappendstreamLocked_length (hno : sb.sbNocoalesce = false) (he : NoEor ms) :
    (sbappendstreamLocked sb ms).view.length = sb.view.length + chainLen ms := by
  obtain ⟨l, hl, hlen⟩ := sbcompressLoop_extends ms sb hno he
  rw [sbappendstreamLocked_eq ms sb he, hl, List.length_append, hlen]

theorem appendFaithful_iff (ms : List Mbuf) (hno : sb.sbNocoalesce = false) (hcc : sb.Counted)
    (he : NoEor ms) :
    AppendFaithful sb ms ↔
      KeepsKinds sb.sbMbtail ms ∧ sb.view.length + chainLen ms < 2 ^ 32 := by
  have hlen := sbappendstreamLocked_length ms sb hno he
  have hcount : (sbappendstreamLocked sb ms).Counted ↔
      sb.view.length + chainLen ms < 2 ^ 32 := by
    rw [Sockbuf.Counted, hlen, sbappendstreamLocked_sbCc, BitVec.toNat_add, BitVec.toNat_ofNat,
      hcc]
    omega
  rw [AppendFaithful, hcount, sbappendstreamLocked_eq ms sb he,
    sbcompressLoop_view_iff ms sb hno he]

inductive SbOp where
  | append (ms : List Mbuf)
  | drop (len : ℕ)

/-- One operation; a drop that would panic changes nothing here, and `SbOp.Ok`
rules it out. -/
def sbStep (sb : Sockbuf) : SbOp → Sockbuf
  | .append ms => sbappendstreamLocked sb ms
  | .drop len => (sbdropLocked sb len).getD sb

def SbOp.Ok (sb : Sockbuf) : SbOp → Prop
  | .append ms => NoEor ms ∧ KeepsKinds sb.sbMbtail ms ∧ sb.view.length + chainLen ms < 2 ^ 32
  | .drop len => len ≤ sb.view.length

def SbOp.appended : SbOp → List Elem
  | .append ms => chainView ms
  | .drop _ => []

def SbOp.dropped : SbOp → ℕ
  | .append _ => 0
  | .drop len => len

def appendedBy (ops : List SbOp) : List Elem := ops.flatMap SbOp.appended

def droppedBy (ops : List SbOp) : ℕ := (ops.map SbOp.dropped).sum

@[simp] theorem appendedBy_snoc (ops : List SbOp) (op : SbOp) :
    appendedBy (ops ++ [op]) = appendedBy ops ++ op.appended := by simp [appendedBy]

@[simp] theorem droppedBy_snoc (ops : List SbOp) (op : SbOp) :
    droppedBy (ops ++ [op]) = droppedBy ops + op.dropped := by simp [droppedBy]

/-- The buffer holds what the operations `ops` appended to `start`, less what
they dropped. -/
structure HoldsStream (start : List Elem) (ops : List SbOp) (sb : Sockbuf) : Prop where
  coalesce : sb.sbNocoalesce = false
  counted : sb.Counted
  bound : droppedBy ops ≤ (start ++ appendedBy ops).length
  view : sb.view = (start ++ appendedBy ops).drop (droppedBy ops)

section

variable {start : List Elem} {ops : List SbOp} {sb : Sockbuf}

theorem holdsStream_append {ms : List Mbuf} (h : HoldsStream start ops sb)
    (hok : (SbOp.append ms).Ok sb) :
    HoldsStream start (ops ++ [.append ms]) (sbStep sb (.append ms)) := by
  obtain ⟨he, hk, hlen⟩ := hok
  obtain ⟨hv, hc⟩ := (appendFaithful_iff sb ms h.coalesce h.counted he).2 ⟨hk, hlen⟩
  have hb := h.bound
  refine ⟨?_, hc, ?_, ?_⟩
  · change (sbappendstreamLocked sb ms).sbNocoalesce = false
    rw [sbappendstreamLocked_sameLimits sb ms]
    exact h.coalesce
  · simp only [appendedBy_snoc, droppedBy_snoc, SbOp.dropped, List.length_append] at hb ⊢
    omega
  · change (sbappendstreamLocked sb ms).view = _
    rw [hv, h.view, appendedBy_snoc, droppedBy_snoc, ← List.append_assoc]
    exact (List.drop_append_of_le_length hb).symm

theorem holdsStream_drop {len : ℕ} (h : HoldsStream start ops sb) (hok : (SbOp.drop len).Ok sb) :
    HoldsStream start (ops ++ [.drop len]) (sbStep sb (.drop len)) := by
  obtain ⟨sb', hs, hv, hc, hn⟩ := sbdropLocked_some sb len hok
  have hle : len ≤ sb.view.length := hok
  have hcc : sb.sbCc.toNat = sb.view.length := h.counted
  have hlt := sb.sbCc.isLt
  have hb := h.bound
  have hlen : sb.view.length = (start ++ appendedBy ops).length - droppedBy ops := by
    rw [h.view, List.length_drop]
  simp only [sbStep, hs, Option.getD_some]
  refine ⟨?_, ?_, ?_, ?_⟩
  · rw [hn]
    exact h.coalesce
  · rw [Sockbuf.Counted, hc, hv, List.length_drop, BitVec.toNat_sub_of_le]
    · rw [BitVec.toNat_ofNat, hcc, Nat.mod_eq_of_lt (by omega)]
    · rw [BitVec.le_def, BitVec.toNat_ofNat, Nat.mod_eq_of_lt (by omega)]
      omega
  · simp only [appendedBy_snoc, droppedBy_snoc, SbOp.appended, SbOp.dropped, List.append_nil]
    omega
  · rw [hv, h.view]
    simp [SbOp.appended, SbOp.dropped]

end

theorem holdsStream_run (ops : List SbOp) (hno : sb.sbNocoalesce = false) (hcc : sb.Counted)
    (hok : Along sbStep SbOp.Ok sb ops) : HoldsStream sb.view ops (run sbStep sb ops) := by
  have h0 : HoldsStream sb.view [] sb := ⟨hno, hcc, by simp [droppedBy], by
    simp [appendedBy, droppedBy]⟩
  have hstep : ∀ h s a, HoldsStream sb.view h s → SbOp.Ok s a →
      HoldsStream sb.view (h ++ [a]) (sbStep s a) := by
    intro h s a hs ha
    cases a with
    | append ms => exact holdsStream_append hs ha
    | drop len => exact holdsStream_drop hs ha
  simpa using run_history hstep h0 hok

/-- An append is faithful exactly when no mbuf of the chain is absorbed by a
tail of the other kind and `sb_cc` does not wrap; and a run of such appends and
of drops holds the appended stream less the dropped prefix. -/
theorem sbappendstream_fidelity (sb : Sockbuf) (hno : sb.sbNocoalesce = false)
    (hcc : sb.Counted) :
    (∀ ms, NoEor ms → (AppendFaithful sb ms ↔
      KeepsKinds sb.sbMbtail ms ∧ sb.view.length + chainLen ms < 2 ^ 32)) ∧
    ∀ ops, Along sbStep SbOp.Ok sb ops →
      (run sbStep sb ops).view = (sb.view ++ appendedBy ops).drop (droppedBy ops) ∧
        (run sbStep sb ops).Counted := by
  refine ⟨fun ms => appendFaithful_iff sb ms hno hcc, ?_⟩
  intro ops hok
  have h := holdsStream_run sb ops hno hcc hok
  exact ⟨h.view, h.counted⟩

/-- Two bytes in read-only storage, a hole behind them, and a drop of one. -/
theorem sbappendstream_fidelity_run :
    AppendFaithful Sockbuf.empty [Mbuf.ofBytes [1, 2]] ∧
      (run sbStep Sockbuf.empty [.append [{ Mbuf.ofBytes [1, 2] with mRdonly := true }],
        .append [mGethole 1], .drop 1]).view = [.data 2, .missing] := by
  have hok : Along sbStep SbOp.Ok Sockbuf.empty
      [.append [{ Mbuf.ofBytes [1, 2] with mRdonly := true }], .append [mGethole 1], .drop 1] := by
    refine ⟨⟨by simp [NoEor, Mbuf.ofBytes], ?_, by decide⟩,
      ⟨by simp [NoEor, mGethole], ?_, by decide⟩, ?_, trivial⟩
    · simp [KeepsKinds, Sockbuf.empty, Sockbuf.sbMbtail, Mbuf.ofBytes]
    · change KeepsKinds (some { Mbuf.ofBytes [1, 2] with mRdonly := true }) [mGethole 1]
      simp [KeepsKinds, absorbs, coalesces, Mbuf.mWritable]
    · change 1 ≤ _
      decide
  obtain ⟨happend, hrun⟩ := sbappendstream_fidelity Sockbuf.empty rfl rfl
  refine ⟨(happend [Mbuf.ofBytes [1, 2]] (by simp [NoEor, Mbuf.ofBytes])).2 ⟨?_, by decide⟩, ?_⟩
  · simp [KeepsKinds, Sockbuf.empty, Sockbuf.sbMbtail, Mbuf.ofBytes]
  · exact (hrun _ hok).1.trans (by decide)

/-- A byte appended behind a hole becomes a missing mark. -/
theorem sbappendstream_hole_swallows_data :
    ∃ sb, sb = sbappendstreamLocked Sockbuf.empty [mGethole 1] ∧ sb.Counted ∧
      sb.sbNocoalesce = false ∧ NoEor [Mbuf.ofBytes [65]] ∧
      sb.view ++ chainView [Mbuf.ofBytes [65]] = [.missing, .data 65] ∧
      (sbappendstreamLocked sb [Mbuf.ofBytes [65]]).view = [.missing, .missing] :=
  ⟨_, rfl, by decide, rfl, by simp [NoEor, Mbuf.ofBytes], by decide, by decide⟩

end Libuinet
