import Libuinet.SyncacheExpand
import Libuinet.SyncacheTags
import Mathlib.Data.FinEnum
import Mathlib.Algebra.BigOperators.Group.Finset.Piecewise

namespace Libuinet

open Execution

/-- `struct syncache_head` without its list.  The callout is pending for a time or not at all. -/
structure SyncacheHead where
  schLength : ℤ := 0
  schNextc : ℤ := 0
  schTimer : Option ℤ := none

def SyncacheHead.calloutReset (h : SyncacheHead) (ticks : ℤ) : SyncacheHead :=
  { h with schTimer := some (ticks + max 1 ((h.schNextc - ticks).bmod (2 ^ 32))) }

def SyncacheHead.timeout (h : SyncacheHead) (ticks rxttime : ℤ) (docallout : Bool) :
    SyncacheHead :=
  if tstmpLt rxttime h.schNextc then
    let h := { h with schNextc := rxttime }
    if docallout then h.calloutReset ticks else h
  else h

/-- The syncache with the heads of its rows, the count of the entries and the clock. -/
structure SyncacheRows where
  table : TcpSyncache
  head : BitVec 32 → SyncacheHead := fun _ => {}
  cacheCount : ℤ := 0
  ticks : ℤ := 0

namespace SyncacheRows

variable (s : SyncacheRows) (e : SynEnv)

def setHead (b : BitVec 32) (h : SyncacheHead) : SyncacheRows :=
  { s with head := Function.update s.head b h }

def setSc (s : SyncacheRows) (id : ScId) (sc : SyncacheEntry) : SyncacheRows :=
  { s with table := s.table.setSc id sc }

/-- `syncache_drop`; `syncache_expand` takes an entry out in the same way. -/
def syncacheDrop (s : SyncacheRows) (b : BitVec 32) (id : ScId) : SyncacheRows :=
  { s.setHead b { s.head b with schLength := (s.head b).schLength - 1 } with
    table := Libuinet.syncacheDrop s.table id
    cacheCount := s.cacheCount - 1 }

def dropLast (b : BitVec 32) : SyncacheRows :=
  match (s.table.hashbase b).getLast? with
  | some id => s.syncacheDrop b id
  | none => s

def fileEntry (s : SyncacheRows) (e : SynEnv) (b : BitVec 32) (sc : SyncacheEntry)
    (initialTimeout : ℤ) : SyncacheRows :=
  let sc := syncacheTimeout e sc initialTimeout
  let h : SyncacheHead := { s.head b with schLength := (s.head b).schLength + 1 }
  -- the timer of a row starts with its first entry
  let h := if h.schLength = 1 then { h with schNextc := e.ticks + intMax } else h
  { s.setHead b (h.timeout e.ticks sc.scRxttime true) with
    table := Libuinet.fileEntry s.table b sc
    cacheCount := s.cacheCount + 1 }

/-- A full row loses its oldest entry. -/
def tossOldest (b : BitVec 32) : SyncacheRows :=
  if s.table.bucketLimit ≤ (s.head b).schLength then s.dropLast b else s

def syncacheInsert (b : BitVec 32) (sc : SyncacheEntry) (initialTimeout : ℤ) : SyncacheRows :=
  (s.tossOldest b).fileEntry e b sc initialTimeout

/-- When the zone is exhausted the oldest entry of the row makes room. -/
def makeRoom (b : BitVec 32) : SyncacheRows :=
  if e.zalloc then s else s.dropLast b

def admitSyn (l : SynListener) (a : SynArgs) (v : SynVars) : SyncacheRows :=
  let b := syncacheHashPromisc s.table a.inc a.m.fib a.m.l2i
  let storage := (allocSc e s.table b v.passive).2
  let s := s.makeRoom e b
  let sc := withCookie e v.passive (newEntry e l a v)
  if storage = .zone ∧ syncacheRespond e sc ∧
      !(e.tcpSyncookies && e.tcpSyncookiesonly && !v.passive) then
    s.syncacheInsert e b sc v.initialTimeout
  else s

def dupSyn (b : BitVec 32) (opt : TcpOpt) (ipopts : Option IpOptions) (id : ScId) : SyncacheRows :=
  let sc := (s.table.sc id).refreshed opt ipopts
  if syncacheRespond e sc && !sc.scfNoTimeoutReset then
    let sc := syncacheTimeout e { sc with scRxmits := 0 } (-1)
    (s.setHead b ((s.head b).timeout e.ticks sc.scRxttime true)).setSc id sc
  else s.setSc id sc

def syncacheAdd (l : SynListener) (a : SynArgs) : SyncacheRows :=
  match syncacheLookup s.table a.inc a.m with
  | some id =>
    s.dupSyn e (syncacheHashPromisc s.table a.inc a.m.fib a.m.l2i) a.opt
      (ipSrcroute e.mGet a.m).1 id
  | none =>
    match runFilter e l a with
    | .error _ => s
    | .ok v => s.admitSyn e l a v

def dropFound (inc : InConninfo) (m : FrameMbuf) : SyncacheRows :=
  match syncacheLookup s.table inc m with
  | some id => s.syncacheDrop (syncacheHashPromisc s.table inc m.fib m.l2i) id
  | none => s

/-- `syncache_expand`, as far as the table goes: the entry is taken out before the ACK is looked
at. -/
def syncacheExpand (a : AckArgs) : SyncacheRows := s.dropFound a.inc a.m

def syncacheBadack (inc : InConninfo) (m : FrameMbuf) : SyncacheRows :=
  s.dropFound inc m

def syncacheChkrst (inc : InConninfo) (th : TcpHdr) (m : FrameMbuf) : SyncacheRows :=
  if th.thFlags.ack || th.thFlags.syn || th.thFlags.fin then s
  else match syncacheLookup s.table inc m with
    | none => s
    | some id =>
      let sc := s.table.sc id
      if seqGeq th.thSeq sc.scIrs && seqLeq th.thSeq (sc.scIrs + sc.scWnd.setWidth 32) then
        s.dropFound inc m
      else s

def syncachePassiveSynack (s : SyncacheRows) (inc : InConninfo) (opt : TcpOpt) (th : TcpHdr)
    (m : FrameMbuf) : SyncacheRows :=
  { s with table := Libuinet.syncachePassiveSynack s.table inc opt th m }

def timerEntry (b : BitVec 32) (s : SyncacheRows) (id : ScId) : SyncacheRows :=
  let sc := s.table.sc id
  if tstmpGt sc.scRxttime e.ticks then
    s.setHead b ((s.head b).timeout e.ticks sc.scRxttime false)
  else if s.table.rexmtLimit < sc.scRxmits then s.syncacheDrop b id
  else
    let sc := sc.retransmitted e
    (s.setHead b ((s.head b).timeout e.ticks sc.scRxttime false)).setSc id sc

def syncacheTimer (b : BitVec 32) : SyncacheRows :=
  let s := s.setHead b { s.head b with schNextc := e.ticks + intMax, schTimer := none }
  let s := (s.table.hashbase b).foldl (timerEntry e b) s
  if (s.table.hashbase b).isEmpty then s else s.setHead b ((s.head b).calloutReset e.ticks)

end SyncacheRows

/-- What happens to the syncache; the callout of a row goes off at its time or after it. -/
inductive RowOp where
  | add (e : SynEnv) (l : SynListener) (a : SynArgs)
  | expand (a : AckArgs)
  | chkrst (inc : InConninfo) (th : TcpHdr) (m : FrameMbuf)
  | badack (inc : InConninfo) (m : FrameMbuf)
  | synack (inc : InConninfo) (opt : TcpOpt) (th : TcpHdr) (m : FrameMbuf)
  | timer (e : SynEnv) (b : BitVec 32)
  | advance (d : ℕ)

namespace SyncacheRows

def step (s : SyncacheRows) : RowOp → SyncacheRows
  | .add e l a => s.syncacheAdd { e with ticks := s.ticks } l a
  | .expand a => s.syncacheExpand a
  | .chkrst inc th m => s.syncacheChkrst inc th m
  | .badack inc m => s.syncacheBadack inc m
  | .synack inc opt th m => s.syncachePassiveSynack inc opt th m
  | .timer e b =>
    match (s.head b).schTimer with
    | some c => if c ≤ s.ticks then s.syncacheTimer { e with ticks := s.ticks } b else s
    | none => s
  | .advance d => { s with ticks := s.ticks + d }

end SyncacheRows

/-- How often the 32-bit clock has wrapped by the time `t`. -/
def lap (t : ℤ) : ℤ := (t + 2 ^ 31) / 2 ^ 32

theorem bmod_eq_sub_lap (t : ℤ) : t.bmod (2 ^ 32) = t - 2 ^ 32 * lap t := by
  simp only [Int.bmod, lap]
  split <;> omega

/-- Times of one lap compare as their `int`s do. -/
theorem tstmpLt_iff {a b : ℤ} (h : lap a = lap b) : tstmpLt a b = true ↔ a < b := by
  rw [tstmpLt, decide_eq_true_eq, bmod_eq_sub_lap, bmod_eq_sub_lap, h]
  exact sub_lt_sub_iff_right _

namespace SyncacheHead

theorem calloutReset_eq {h : SyncacheHead} {ticks : ℤ} (hlow : ticks < h.schNextc)
    (hhigh : h.schNextc ≤ ticks + intMax) :
    h.calloutReset ticks = { h with schTimer := some h.schNextc } := by
  have hmod : (h.schNextc - ticks).bmod (2 ^ 32) = h.schNextc - ticks :=
    Int.bmod_eq_of_le (by omega) (by unfold intMax at hhigh; omega)
  rw [calloutReset, hmod, max_eq_right (by omega), add_sub_cancel]

section

variable (h : SyncacheHead) (ticks rxttime : ℤ) (docallout : Bool)
include h

/-- The time of the row moves forward to that of the entry, if that is earlier. -/
theorem timeout_cases (hlap : lap rxttime = lap h.schNextc) (hlater : ticks < rxttime)
    (hsoon : rxttime ≤ ticks + intMax) :
    (rxttime < h.schNextc ∧ h.timeout ticks rxttime docallout =
      { h with
        schNextc := rxttime
        schTimer := if docallout then some rxttime else h.schTimer }) ∨
    (h.schNextc ≤ rxttime ∧ h.timeout ticks rxttime docallout = h) := by
  unfold timeout
  have hlt := tstmpLt_iff hlap
  by_cases hrx : rxttime < h.schNextc
  · left
    rw [if_pos (hlt.mpr hrx)]
    refine ⟨hrx, ?_⟩
    cases docallout with
    | true =>
      have hreset := calloutReset_eq (h := { h with schNextc := rxttime }) hlater hsoon
      simpa using hreset
    | false => simp
  · right
    rw [if_neg (mt hlt.mp hrx)]
    exact ⟨not_lt.mp hrx, rfl⟩

@[simp] theorem timeout_schLength :
    (h.timeout ticks rxttime docallout).schLength = h.schLength := by
  unfold timeout
  dsimp only
  split_ifs <;> rfl

end

theorem timeout_setLength (h : SyncacheHead) (ticks rxttime n : ℤ) (docallout : Bool) :
    ({ h with schLength := n } : SyncacheHead).timeout ticks rxttime docallout =
      { h.timeout ticks rxttime docallout with schLength := n } := by
  unfold timeout
  dsimp only
  split_ifs <;> rfl

end SyncacheHead

namespace SyncacheRows

/-- The lengths and the count are right, and the rows are not too long. -/
structure Counted (s : SyncacheRows) : Prop where
  room : 1 ≤ s.table.bucketLimit
  length : ∀ b, (s.head b).schLength = (s.table.hashbase b).length
  limit : ∀ b, (s.table.hashbase b).length ≤ s.table.bucketLimit
  count : s.cacheCount = ∑ b, (s.head b).schLength

/-- The callout of a row that is not empty is pending for `sch_nextc`, which is not after the time
of any entry. -/
structure Timed (s : SyncacheRows) (b : BitVec 32) : Prop where
  pending : s.table.hashbase b ≠ [] → (s.head b).schTimer = some (s.head b).schNextc
  earliest : ∀ id ∈ s.table.hashbase b, (s.head b).schNextc ≤ (s.table.sc id).scRxttime
  soon : ∀ id ∈ s.table.hashbase b, (s.table.sc id).scRxttime ≤ s.ticks + intMax

structure Consistent (s : SyncacheRows) : Prop where
  sound : ∀ inc fib, s.table.Sound inc fib
  counted : s.Counted
  timed : ∀ b, s.Timed b

end SyncacheRows

section Sound

variable {t : TcpSyncache} {b b' : BitVec 32} {id : ScId}

theorem SyncacheEntry.ofConn_self (sc : SyncacheEntry) : sc.ofConn sc.scInc sc.scFib = true := by
  simp [SyncacheEntry.ofConn, endptsEq]

section

variable (h : ∀ inc fib, t.Sound inc fib)
include h

theorem bucketOf_of_mem (hid : id ∈ t.hashbase b) :
    t.bucketOf (t.sc id) = b :=
  (h _ _).placed b id hid (t.sc id).ofConn_self

theorem not_mem_of_mem (hid : id ∈ t.hashbase b) (hb : b' ≠ b) : id ∉ t.hashbase b' := by
  intro hid'
  exact hb ((bucketOf_of_mem h hid').symm.trans (bucketOf_of_mem h hid))

theorem nodup_row (b : BitVec 32) : (t.hashbase b).Nodup := by
  refine List.nodup_iff_pairwise_ne.mpr (List.pairwise_iff_getElem.mpr ?_)
  intro i j hi hj hij heq
  have hdist := List.pairwise_iff_getElem.mp
    ((h (t.sc (t.hashbase b)[i]).scInc (t.sc (t.hashbase b)[i]).scFib).distinct b) i j hi hj hij
  rw [← heq] at hdist
  exact hdist (SyncacheEntry.ofConn_self _) (SyncacheEntry.ofConn_self _) rfl

/-- Dropping an entry changes its own row only. -/
theorem syncacheDrop_hashbase (hid : id ∈ t.hashbase b) (hb : b' ≠ b) :
    (syncacheDrop t id).hashbase b' = t.hashbase b' :=
  List.erase_of_not_mem (not_mem_of_mem h hid hb)

end

end Sound

namespace SyncacheRows

variable {s s' : SyncacheRows} {e : SynEnv} {b : BitVec 32} {id : ScId}

theorem sum_setHead (s : SyncacheRows) (b : BitVec 32) (h : SyncacheHead) :
    ∑ x, ((s.setHead b h).head x).schLength =
      ∑ x, (s.head x).schLength + (h.schLength - (s.head b).schLength) := by
  have hupd : (fun x => ((s.setHead b h).head x).schLength) =
      Function.update (fun x => (s.head x).schLength) b h.schLength := by
    funext x
    by_cases hx : x = b
    · subst hx
      simp [setHead]
    · simp [setHead, hx]
  have hsplit := Finset.add_sum_erase Finset.univ (fun x => (s.head x).schLength)
    (Finset.mem_univ b)
  rw [hupd, Finset.sum_update_of_mem (Finset.mem_univ b), Finset.sdiff_singleton_eq_erase]
  omega

/-- The timing of a row looks at its own head and entries. -/
theorem Timed.frame (h : s.Timed b) (hnext : (s'.head b).schNextc = (s.head b).schNextc)
    (htimer : (s'.head b).schTimer = (s.head b).schTimer)
    (hrow : ∀ id ∈ s'.table.hashbase b, id ∈ s.table.hashbase b ∧
      (s'.table.sc id).scRxttime = (s.table.sc id).scRxttime)
    (hticks : s.ticks ≤ s'.ticks) : s'.Timed b := by
  refine ⟨fun hne => ?_, fun id hid => ?_, fun id hid => ?_⟩
  · obtain ⟨id, hid⟩ := List.exists_mem_of_ne_nil _ hne
    rw [hnext, htimer]
    exact h.pending (List.ne_nil_of_mem (hrow id hid).1)
  · rw [hnext, (hrow id hid).2]
    exact h.earliest id (hrow id hid).1
  · rw [(hrow id hid).2]
    exact (h.soon id (hrow id hid).1).trans (by omega)

theorem Counted.drop (h : s.Counted) (hs : ∀ inc fib, s.table.Sound inc fib)
    (hid : id ∈ s.table.hashbase b) : (s.syncacheDrop b id).Counted := by
  have hpos := List.length_pos_of_mem hid
  have hlen : ((Libuinet.syncacheDrop s.table id).hashbase b).length =
      (s.table.hashbase b).length - 1 := List.length_erase_of_mem hid
  refine ⟨h.room, fun b' => ?_, fun b' => ?_, ?_⟩
  · by_cases hb : b' = b
    · subst hb
      have hb := h.length b'
      simp only [syncacheDrop, setHead, Function.update_self, hlen]
      omega
    · simp only [syncacheDrop, setHead, Function.update_of_ne hb,
        syncacheDrop_hashbase hs hid hb]
      exact h.length b'
  · exact le_trans (List.length_erase_le) (h.limit b')
  · have hsum := sum_setHead s b { s.head b with schLength := (s.head b).schLength - 1 }
    change s.cacheCount - 1 = ∑ x, ((s.setHead b _).head x).schLength
    rw [hsum, h.count]
    ring

theorem Timed.drop {b' : BitVec 32} (h : s.Timed b') (b : BitVec 32) (id : ScId) :
    (s.syncacheDrop b id).Timed b' := by
  have hhead : ((s.syncacheDrop b id).head b').schNextc = (s.head b').schNextc ∧
      ((s.syncacheDrop b id).head b').schTimer = (s.head b').schTimer := by
    by_cases hb : b' = b
    · subst hb
      simp [syncacheDrop, setHead]
    · simp [syncacheDrop, setHead, hb]
  exact h.frame hhead.1 hhead.2 (fun j hj => ⟨List.mem_of_mem_erase hj, rfl⟩) le_rfl

theorem Consistent.drop (h : s.Consistent) (hid : id ∈ s.table.hashbase b) :
    (s.syncacheDrop b id).Consistent :=
  ⟨fun inc fib => (h.sound inc fib).drop id, h.counted.drop h.sound hid,
    fun b' => (h.timed b').drop b id⟩

theorem Consistent.dropLast (h : s.Consistent) (b : BitVec 32) : (s.dropLast b).Consistent := by
  unfold SyncacheRows.dropLast
  split
  · next id hlast => exact h.drop (List.mem_of_getLast? hlast)
  · exact h

theorem dropLast_table (s : SyncacheRows) (b : BitVec 32) :
    (s.dropLast b).table = Libuinet.dropLast s.table b := by
  unfold dropLast Libuinet.dropLast
  cases (s.table.hashbase b).getLast? <;> rfl

/-- A delay that can be set for an entry of a row: the time it ends at is of the lap of the time
that it is compared with. -/
structure InTime (s : SyncacheRows) (b : BitVec 32) (delay : ℤ) : Prop where
  pos : 0 < delay
  lt : delay < intMax
  lap : lap (s.ticks + delay) =
    lap (if s.table.hashbase b = [] then s.ticks + intMax else (s.head b).schNextc)

variable {todo : List ScId} {sc : SyncacheEntry} {delay : ℤ}

/-- The head of a row with entries, after the time of one of them has been set. -/
theorem Timed.head_timeout (h : s.Timed b) (hin : s.InTime b delay)
    (hne : s.table.hashbase b ≠ []) :
    let h' := (s.head b).timeout s.ticks (s.ticks + delay) true
    h'.schTimer = some h'.schNextc ∧ h'.schNextc ≤ (s.head b).schNextc ∧
      h'.schNextc ≤ s.ticks + delay := by
  obtain ⟨hpos, hlt, hlap⟩ := hin
  rw [if_neg hne] at hlap
  have hpend := h.pending hne
  rcases (s.head b).timeout_cases s.ticks (s.ticks + delay) true hlap (by omega) (by omega)
    with ⟨hrx, heq⟩ | ⟨hrx, heq⟩
  · rw [heq]
    exact ⟨rfl, hrx.le, le_rfl⟩
  · rw [heq]
    exact ⟨hpend, le_rfl, hrx⟩

/-- The head of a row that was empty. -/
theorem head_timeout_first (h : SyncacheHead) (ticks : ℤ) (hpos : 0 < delay) (hlt : delay < intMax)
    (hlap : lap (ticks + delay) = lap (ticks + intMax)) :
    ({ h with schNextc := ticks + intMax } : SyncacheHead).timeout ticks (ticks + delay) true =
      { h with schNextc := ticks + delay, schTimer := some (ticks + delay) } := by
  rcases SyncacheHead.timeout_cases { h with schNextc := ticks + intMax } ticks (ticks + delay) true
    hlap (by omega) (by omega) with ⟨-, heq⟩ | ⟨hrx, -⟩
  · rw [heq]
    rfl
  · dsimp only at hrx
    omega

def firstDelay (e : SynEnv) (sc : SyncacheEntry) (initialTimeout : ℤ) : ℤ :=
  if 0 < initialTimeout then initialTimeout else e.rtobase sc.scRxmits

theorem Counted.file (h : s.Counted) (hroom : (s.table.hashbase b).length < s.table.bucketLimit)
    (e : SynEnv) (sc : SyncacheEntry) (initialTimeout : ℤ) :
    (s.fileEntry e b sc initialTimeout).Counted := by
  have hchain (b' : BitVec 32) : (s.fileEntry e b sc initialTimeout).table.hashbase b' =
      if b' = b then s.table.nextSc :: s.table.hashbase b' else s.table.hashbase b' := rfl
  have hself : ((s.fileEntry e b sc initialTimeout).head b).schLength =
      (s.head b).schLength + 1 := by
    simp only [fileEntry, setHead, Function.update_self,
      SyncacheHead.timeout_schLength]
    split_ifs <;> rfl
  have hother {b' : BitVec 32} (hb : b' ≠ b) :
      (s.fileEntry e b sc initialTimeout).head b' = s.head b' := by
    simp [fileEntry, setHead, hb]
  refine ⟨h.room, fun b' => ?_, fun b' => ?_, ?_⟩
  · rw [hchain]
    split_ifs with hb
    · subst hb
      rw [hself, h.length b', List.length_cons]
      push_cast
      rfl
    · rw [hother hb]
      exact h.length b'
  · rw [hchain]
    split_ifs with hb
    · subst hb
      exact hroom
    · exact h.limit b'
  · have hsum := sum_setHead s b ((s.fileEntry e b sc initialTimeout).head b)
    have hheads : (s.setHead b ((s.fileEntry e b sc initialTimeout).head b)).head =
        (s.fileEntry e b sc initialTimeout).head := by
      funext b'
      by_cases hb : b' = b
      · subst hb
        simp [setHead]
      · rw [hother hb]
        simp [setHead, hb]
    rw [hheads, hself] at hsum
    have hcount := h.count
    change s.cacheCount + 1 = _
    omega

/-- What the head says of a row with a new entry, whether it was empty or not. -/
theorem Timed.fileEntry_head (h : s.Timed b) (hc : s.Counted) (hticks : e.ticks = s.ticks)
    (sc : SyncacheEntry) (initialTimeout : ℤ)
    (hin : s.InTime b (firstDelay e sc initialTimeout)) :
    let head := (s.fileEntry e b sc initialTimeout).head b
    head.schTimer = some head.schNextc ∧
      (∀ id ∈ s.table.hashbase b, head.schNextc ≤ (s.head b).schNextc) ∧
      head.schNextc ≤ s.ticks + firstDelay e sc initialTimeout := by
  have hrx : (syncacheTimeout e sc initialTimeout).scRxttime =
      s.ticks + firstDelay e sc initialTimeout := by
    rw [← hticks]
    rfl
  simp only [fileEntry, setHead, Function.update_self, hrx, hticks]
  by_cases hne : s.table.hashbase b = []
  · have hlen : (s.head b).schLength + 1 = 1 := by
      rw [hc.length b, hne]
      rfl
    have hlap := hin.lap
    rw [if_pos hne] at hlap
    have hfirst := head_timeout_first
      { s.head b with schLength := (s.head b).schLength + 1 } s.ticks hin.pos hin.lt hlap
    dsimp only at hfirst
    rw [if_pos hlen, hfirst]
    exact ⟨rfl, fun id hid => absurd hid (by simp [hne]), le_rfl⟩
  · have hlen : (s.head b).schLength + 1 ≠ 1 := by
      have hpos := List.length_pos_iff.mpr hne
      rw [hc.length b]
      omega
    obtain ⟨hpend, hle, hle'⟩ := h.head_timeout hin hne
    rw [if_neg hlen, SyncacheHead.timeout_setLength]
    exact ⟨hpend, fun _ _ => hle, hle'⟩

theorem Timed.file (h : ∀ b, s.Timed b) (hc : s.Counted)
    (hs : ∀ inc fib, s.table.Sound inc fib) (hticks : e.ticks = s.ticks) (sc : SyncacheEntry)
    (initialTimeout : ℤ) (hin : s.InTime b (firstDelay e sc initialTimeout)) (b' : BitVec 32) :
    (s.fileEntry e b sc initialTimeout).Timed b' := by
  have hrx : (syncacheTimeout e sc initialTimeout).scRxttime =
      s.ticks + firstDelay e sc initialTimeout := by
    rw [← hticks]
    rfl
  have hold {b' : BitVec 32} {id : ScId} (hid : id ∈ s.table.hashbase b') :
      (s.fileEntry e b sc initialTimeout).table.sc id = s.table.sc id := by
    have hne : id ≠ s.table.nextSc :=
      Nat.ne_of_lt ((hs (s.table.sc id).scInc (s.table.sc id).scFib).fresh b' id hid)
    simp [fileEntry, Libuinet.fileEntry, TcpSyncache.setSc, hne]
  by_cases hb : b' = b
  · subst hb
    have hnew : (s.fileEntry e b' sc initialTimeout).table.sc s.table.nextSc =
        syncacheTimeout e sc initialTimeout := by
      simp [fileEntry, Libuinet.fileEntry, TcpSyncache.setSc]
    have hrow : (s.fileEntry e b' sc initialTimeout).table.hashbase b' =
        s.table.nextSc :: s.table.hashbase b' := if_pos rfl
    have hhead := (h b').fileEntry_head hc hticks sc initialTimeout hin
    refine ⟨fun _ => hhead.1, fun id hid => ?_, fun id hid => ?_⟩
    · rw [hrow] at hid
      rcases List.mem_cons.mp hid with rfl | hid
      · rw [hnew, hrx]
        exact hhead.2.2
      · rw [hold hid]
        exact (hhead.2.1 id hid).trans ((h b').earliest id hid)
    · rw [hrow] at hid
      rcases List.mem_cons.mp hid with rfl | hid
      · rw [hnew, hrx]
        exact (add_le_add_iff_left s.ticks).mpr hin.lt.le
      · rw [hold hid]
        exact (h b').soon id hid
  · have hhead : (s.fileEntry e b sc initialTimeout).head b' = s.head b' := by
      simp [fileEntry, setHead, hb]
    have hrow : (s.fileEntry e b sc initialTimeout).table.hashbase b' = s.table.hashbase b' :=
      if_neg hb
    refine (h b').frame (by rw [hhead]) (by rw [hhead]) (fun id hid => ?_) le_rfl
    rw [hrow] at hid
    exact ⟨hid, by rw [hold hid]⟩

theorem fileEntry_table (s : SyncacheRows) (e : SynEnv) (b : BitVec 32) (sc : SyncacheEntry)
    (initialTimeout : ℤ) : (s.fileEntry e b sc initialTimeout).table =
      Libuinet.fileEntry s.table b (syncacheTimeout e sc initialTimeout) := rfl

theorem syncacheInsert_table (h : s.Counted) (e : SynEnv) (b : BitVec 32) (sc : SyncacheEntry)
    (initialTimeout : ℤ) : (s.syncacheInsert e b sc initialTimeout).table =
      Libuinet.syncacheInsert e s.table b sc initialTimeout := by
  have hfull : (s.table.bucketLimit : ℤ) ≤ (s.head b).schLength ↔
      s.table.bucketLimit ≤ (s.table.hashbase b).length := by
    rw [h.length b]
    exact Int.ofNat_le
  unfold syncacheInsert tossOldest Libuinet.syncacheInsert
  by_cases hb : s.table.bucketLimit ≤ (s.table.hashbase b).length
  · rw [if_pos (hfull.mpr hb), if_pos hb, fileEntry_table, dropLast_table]
  · rw [if_neg (mt hfull.mp hb), if_neg hb, fileEntry_table]

@[simp] theorem dropLast_ticks (s : SyncacheRows) (b : BitVec 32) :
    (s.dropLast b).ticks = s.ticks := by
  unfold dropLast
  split <;> rfl

/-- A full row has lost an entry. -/
theorem length_dropLast_lt (h : s.Consistent) (b : BitVec 32) :
    ((s.dropLast b).table.hashbase b).length < (s.dropLast b).table.bucketLimit := by
  unfold dropLast
  split
  · next id hlast =>
    have hmem := List.mem_of_getLast? hlast
    have hpos := List.length_pos_of_mem hmem
    have hlen : ((Libuinet.syncacheDrop s.table id).hashbase b).length =
      (s.table.hashbase b).length - 1 := List.length_erase_of_mem hmem
    have hle := h.counted.limit b
    change ((Libuinet.syncacheDrop s.table id).hashbase b).length < s.table.bucketLimit
    omega
  · next hlast =>
    rw [List.getLast?_eq_none_iff.mp hlast]
    exact h.counted.room

theorem Consistent.tossOldest (h : s.Consistent) (b : BitVec 32) :
    (s.tossOldest b).Consistent ∧ (s.tossOldest b).ticks = s.ticks ∧
      ((s.tossOldest b).table.hashbase b).length < (s.tossOldest b).table.bucketLimit := by
  unfold SyncacheRows.tossOldest
  split_ifs with hfull
  · exact ⟨h.dropLast b, dropLast_ticks s b, length_dropLast_lt h b⟩
  · refine ⟨h, rfl, ?_⟩
    rw [h.counted.length b] at hfull
    omega

theorem Consistent.insert (h : s.Consistent) (hticks : e.ticks = s.ticks) (sc : SyncacheEntry)
    (initialTimeout : ℤ)
    (hin : (s.tossOldest b).InTime b (firstDelay e sc initialTimeout))
    (hsound : ∀ inc fib, (s.syncacheInsert e b sc initialTimeout).table.Sound inc fib) :
    (s.syncacheInsert e b sc initialTimeout).Consistent := by
  obtain ⟨hroom, hsame, hlt⟩ := h.tossOldest b
  exact ⟨hsound, hroom.counted.file hlt e sc initialTimeout, fun b' => Timed.file hroom.timed
    hroom.counted hroom.sound (hticks.trans hsame.symm) sc initialTimeout hin b'⟩

theorem Consistent.makeRoom (h : s.Consistent) (e : SynEnv) (b : BitVec 32) :
    (s.makeRoom e b).Consistent := by
  unfold SyncacheRows.makeRoom
  split_ifs
  · exact h
  · exact h.dropLast b

theorem makeRoom_table (s : SyncacheRows) (e : SynEnv) (b : BitVec 32) (passive : Bool) :
    (s.makeRoom e b).table = (allocSc e s.table b passive).1 := by
  unfold makeRoom allocSc
  by_cases he : e.zalloc = true
  · rw [if_pos he, if_pos he]
  · rw [if_neg he, if_neg he, dropLast_table]

@[simp] theorem makeRoom_ticks (s : SyncacheRows) (e : SynEnv) (b : BitVec 32) :
    (s.makeRoom e b).ticks = s.ticks := by
  unfold makeRoom
  split_ifs <;> simp

theorem admitSyn_table (h : s.Consistent) (e : SynEnv) (l : SynListener) (a : SynArgs)
    (v : SynVars) : (s.admitSyn e l a v).table = Libuinet.admitSyn e s.table l a v := by
  unfold admitSyn Libuinet.admitSyn
  dsimp only
  rw [← makeRoom_table]
  split_ifs
  · exact syncacheInsert_table (h.makeRoom e _).counted e _ _ _
  · rfl

theorem Consistent.admitted (h : s.Consistent) (hticks : e.ticks = s.ticks) (l : SynListener)
    (a : SynArgs) (v : SynVars) (hkept : a.TagsKept l v)
    (hnone : syncacheLookup s.table a.inc a.m = none)
    (hin : let b := syncacheHashPromisc s.table a.inc a.m.fib a.m.l2i
      ((s.makeRoom e b).tossOldest b).InTime b
        (firstDelay e (newEntry e l a v) v.initialTimeout)) :
    (s.admitSyn e l a v).Consistent := by
  have hsound (inc : InConninfo) (fib : BitVec 16) : (s.admitSyn e l a v).table.Sound inc fib := by
    rw [admitSyn_table h]
    exact (h.sound inc fib).admitted e l a v (fun _ _ => hkept) hnone
  have hdelay : firstDelay e (withCookie e v.passive (newEntry e l a v)) v.initialTimeout =
      firstDelay e (newEntry e l a v) v.initialTimeout := by
    unfold firstDelay withCookie
    split_ifs <;> rfl
  unfold admitSyn at hsound ⊢
  dsimp only at hsound ⊢
  split_ifs at hsound ⊢
  · refine (h.makeRoom e _).insert (hticks.trans (makeRoom_ticks s e _).symm) _ _ ?_ hsound
    rw [hdelay]
    exact hin
  · exact h.makeRoom e _

theorem dupSyn_table (s : SyncacheRows) (e : SynEnv) (b : BitVec 32) (opt : TcpOpt)
    (ipopts : Option IpOptions) (id : ScId) :
    (s.dupSyn e b opt ipopts id).table = Libuinet.dupSyn e s.table opt ipopts id := by
  unfold dupSyn Libuinet.dupSyn
  dsimp only
  split_ifs <;> rfl

/-- The time of an entry is set anew, and its row takes note of it. -/
theorem Timed.setSc {b' : BitVec 32} (h : ∀ b, s.Timed b) (hs : ∀ inc fib, s.table.Sound inc fib)
    (hid : id ∈ s.table.hashbase b) (hin : s.InTime b delay)
    (hrx : sc.scRxttime = s.ticks + delay) :
    ((s.setHead b ((s.head b).timeout s.ticks sc.scRxttime true)).setSc id sc).Timed b' := by
  by_cases hb : b' = b
  · subst hb
    obtain ⟨hpend, hle, hle'⟩ := (h b').head_timeout hin (List.ne_nil_of_mem hid)
    have hhead : ((s.setHead b' ((s.head b').timeout s.ticks sc.scRxttime true)).setSc id sc).head
        b' = (s.head b').timeout s.ticks (s.ticks + delay) true := by
      simp [SyncacheRows.setSc, setHead, hrx]
    refine ⟨fun _ => ?_, fun j hj => ?_, fun j hj => ?_⟩
    · rw [hhead]
      exact hpend
    · rw [hhead]
      by_cases hji : j = id
      · subst hji
        simpa [SyncacheRows.setSc, TcpSyncache.setSc, setHead, hrx] using hle'
      · have hj' := (h b').earliest j hj
        simpa [SyncacheRows.setSc, TcpSyncache.setSc, setHead, hji] using hle.trans hj'
    · by_cases hji : j = id
      · subst hji
        have hlt := hin.lt
        simp only [SyncacheRows.setSc, TcpSyncache.setSc, setHead, Function.update_self, hrx]
        omega
      · simpa [SyncacheRows.setSc, TcpSyncache.setSc, setHead, hji] using (h b').soon j hj
  · refine (h b').frame ?_ ?_ (fun j hj => ⟨hj, ?_⟩) le_rfl
    · simp [SyncacheRows.setSc, setHead, hb]
    · simp [SyncacheRows.setSc, setHead, hb]
    · have hji : j ≠ id := fun hji => not_mem_of_mem hs hid hb (hji ▸ hj)
      simp [SyncacheRows.setSc, TcpSyncache.setSc, setHead, hji]

theorem Counted.of_eq (h : s.Counted) (hrows : s'.table.hashbase = s.table.hashbase)
    (hlimit : s'.table.bucketLimit = s.table.bucketLimit)
    (hlength : ∀ b, (s'.head b).schLength = (s.head b).schLength)
    (hcount : s'.cacheCount = s.cacheCount) : s'.Counted := by
  refine ⟨hlimit ▸ h.room, fun b => ?_, fun b => ?_, ?_⟩
  · rw [hlength, hrows, h.length]
  · rw [hlimit, hrows]
    exact h.limit b
  · simp only [hcount, h.count, hlength]

theorem setHead_schLength (s : SyncacheRows) (b b' : BitVec 32) {h : SyncacheHead}
    (hlen : h.schLength = (s.head b).schLength) :
    ((s.setHead b h).head b').schLength = (s.head b').schLength := by
  by_cases hb : b' = b
  · subst hb
    simpa [setHead] using hlen
  · simp [setHead, hb]

/-- An entry changes, but neither its place nor its time. -/
theorem Consistent.setSc (h : s.Consistent) (id : ScId) (hplace : sc.place = (s.table.sc id).place)
    (hrx : sc.scRxttime = (s.table.sc id).scRxttime) : (s.setSc id sc).Consistent := by
  refine ⟨fun inc fib => (h.sound inc fib).setSc id hplace, ?_, fun b => ?_⟩
  · exact h.counted.of_eq rfl rfl (fun _ => rfl) rfl
  · refine (h.timed b).frame rfl rfl (fun j hj => ⟨hj, ?_⟩) le_rfl
    by_cases hji : j = id
    · subst hji
      simpa [SyncacheRows.setSc, TcpSyncache.setSc] using hrx
    · simp [SyncacheRows.setSc, TcpSyncache.setSc, hji]

theorem Consistent.dup (h : s.Consistent) (hticks : e.ticks = s.ticks) (opt : TcpOpt)
    (ipopts : Option IpOptions) (hid : id ∈ s.table.hashbase b) (hin : s.InTime b (e.rtobase 0)) :
    (s.dupSyn e b opt ipopts id).Consistent := by
  have hplace := place_refreshed (s.table.sc id) opt ipopts
  have hrx : ((s.table.sc id).refreshed opt ipopts).scRxttime = (s.table.sc id).scRxttime := by
    unfold SyncacheEntry.refreshed
    dsimp only
    split_ifs <;> rfl
  unfold dupSyn
  dsimp only
  split_ifs
  · rw [hticks]
    refine ⟨fun inc fib => (h.sound inc fib).setSc id hplace, ?_, fun b' => ?_⟩
    · exact h.counted.of_eq rfl rfl (fun b' => setHead_schLength s b b' (by simp)) rfl
    · exact Timed.setSc h.timed h.sound hid hin (by rw [← hticks]; rfl)
  · exact h.setSc id hplace hrx

theorem mem_of_lookup {t : TcpSyncache} {inc : InConninfo} {m : FrameMbuf}
    (h : syncacheLookup t inc m = some id) :
    id ∈ t.hashbase (syncacheHashPromisc t inc m.fib m.l2i) :=
  List.mem_of_find?_eq_some h

theorem Consistent.dropFound (h : s.Consistent) (inc : InConninfo) (m : FrameMbuf) :
    (s.dropFound inc m).Consistent := by
  unfold SyncacheRows.dropFound
  split
  · next id hfound => exact h.drop (mem_of_lookup hfound)
  · exact h

theorem Consistent.synack (h : s.Consistent) (inc : InConninfo) (opt : TcpOpt) (th : TcpHdr)
    (m : FrameMbuf) : (s.syncachePassiveSynack inc opt th m).Consistent := by
  unfold syncachePassiveSynack Libuinet.syncachePassiveSynack
  split
  · next id _ =>
    split_ifs
    · have hrx : (synackUpdate opt th (s.table.sc id)).scRxttime =
          (s.table.sc id).scRxttime := by
        unfold synackUpdate synackTimestamp synackScale
        dsimp only
        split_ifs <;> rfl
      exact h.setSc id (place_synackUpdate opt th _) hrx
    · exact h
  · exact h

/-- The time that the timer leaves an entry with, if it leaves it in the row. -/
def timerTime (e : SynEnv) (rexmtLimit : ℕ) (sc : SyncacheEntry) : Option ℤ :=
  if tstmpGt sc.scRxttime e.ticks then some sc.scRxttime
  else if rexmtLimit < sc.scRxmits then none
  else some (e.ticks + e.rtobase sc.scRxmits)

/-- A time ahead of the clock, and of the lap of `ticks + INT_MAX`. -/
structure Ahead (ticks t : ℤ) : Prop where
  later : ticks < t
  soon : t ≤ ticks + intMax
  lap : lap t = lap (ticks + intMax)

/-- The timer has come to the entries `todo` of its row. -/
structure Scanning (e : SynEnv) (s : SyncacheRows) (b : BitVec 32) (todo : List ScId) : Prop where
  sound : ∀ inc fib, s.table.Sound inc fib
  counted : s.Counted
  others : ∀ b' ≠ b, s.Timed b'
  nextc : Ahead s.ticks (s.head b).schNextc
  nodup : todo.Nodup
  mem : ∀ id ∈ todo, id ∈ s.table.hashbase b
  ahead : ∀ id ∈ todo, ∀ t ∈ timerTime e s.table.rexmtLimit (s.table.sc id), Ahead s.ticks t
  earliest : ∀ id ∈ s.table.hashbase b, id ∉ todo →
    (s.head b).schNextc ≤ (s.table.sc id).scRxttime
  soon : ∀ id ∈ s.table.hashbase b, (s.table.sc id).scRxttime ≤ s.ticks + intMax

section

variable (h : Scanning e s b (id :: todo))
include h

/-- An entry that has been looked at: the row has taken note of its time. -/
theorem Scanning.setSc (hplace : sc.place = (s.table.sc id).place)
    (hahead : Ahead s.ticks sc.scRxttime) :
    Scanning e ((s.setHead b ((s.head b).timeout s.ticks sc.scRxttime false)).setSc id sc) b
      todo := by
  have hid := h.mem id List.mem_cons_self
  have hnd := List.nodup_cons.mp h.nodup
  have hlap : lap sc.scRxttime = lap (s.head b).schNextc := hahead.lap.trans h.nextc.lap.symm
  obtain ⟨hle, hle', hnext⟩ : ((s.head b).timeout s.ticks sc.scRxttime false).schNextc ≤
        (s.head b).schNextc ∧
      ((s.head b).timeout s.ticks sc.scRxttime false).schNextc ≤ sc.scRxttime ∧
      Ahead s.ticks ((s.head b).timeout s.ticks sc.scRxttime false).schNextc := by
    rcases (s.head b).timeout_cases s.ticks sc.scRxttime false hlap hahead.later hahead.soon
      with ⟨hrx, heq⟩ | ⟨hrx, heq⟩
    · rw [heq]
      exact ⟨hrx.le, le_rfl, hahead⟩
    · rw [heq]
      exact ⟨le_rfl, hrx, h.nextc⟩
  generalize hhead : (s.head b).timeout s.ticks sc.scRxttime false = head at *
  have hlength : head.schLength = (s.head b).schLength := by
    rw [← hhead, SyncacheHead.timeout_schLength]
  have hother {j : ScId} (hj : j ≠ id) :
      ((s.setHead b head).setSc id sc).table.sc j = s.table.sc j := by
    simp [SyncacheRows.setSc, TcpSyncache.setSc, setHead, hj]
  have hself : ((s.setHead b head).setSc id sc).table.sc id = sc := by
    simp [SyncacheRows.setSc, TcpSyncache.setSc]
  have hrow : ((s.setHead b head).setSc id sc).head b = head := by
    simp [SyncacheRows.setSc, setHead]
  refine ⟨fun inc fib => (h.sound inc fib).setSc id hplace, ?_, fun b' hb => ?_, ?_, hnd.2,
    fun j hj => h.mem j (List.mem_cons_of_mem _ hj), fun j hj => ?_, fun j hj hnot => ?_,
    fun j hj => ?_⟩
  · exact h.counted.of_eq rfl rfl (fun b' => setHead_schLength s b b' hlength) rfl
  · refine (h.others b' hb).frame ?_ ?_ (fun j hj => ⟨hj, ?_⟩) le_rfl
    · simp [SyncacheRows.setSc, setHead, hb]
    · simp [SyncacheRows.setSc, setHead, hb]
    · rw [hother]
      rintro rfl
      exact not_mem_of_mem h.sound hid hb hj
  · rw [hrow]
    exact hnext
  · rw [hother]
    · exact h.ahead j (List.mem_cons_of_mem _ hj)
    · rintro rfl
      exact hnd.1 hj
  · rw [hrow]
    by_cases hji : j = id
    · rw [hji, hself]
      exact hle'
    · rw [hother hji]
      exact hle.trans (h.earliest j hj (by simp [hji, hnot]))
  · by_cases hji : j = id
    · rw [hji, hself]
      exact hahead.soon
    · rw [hother hji]
      exact h.soon j hj

theorem Scanning.drop : Scanning e (s.syncacheDrop b id) b todo := by
  have hid := h.mem id List.mem_cons_self
  have hnd := List.nodup_cons.mp h.nodup
  have hnext : ((s.syncacheDrop b id).head b).schNextc = (s.head b).schNextc := by
    simp [syncacheDrop, setHead]
  have hmem {j : ScId} (hj : j ∈ (s.syncacheDrop b id).table.hashbase b) :
      j ≠ id ∧ j ∈ s.table.hashbase b :=
    (nodup_row h.sound b).mem_erase_iff.mp hj
  refine ⟨fun inc fib => (h.sound inc fib).drop id, h.counted.drop h.sound hid,
    fun b' hb => (h.others b' hb).drop b id, hnext ▸ h.nextc, hnd.2,
    fun j hj => ?_, fun j hj => h.ahead j (List.mem_cons_of_mem _ hj), fun j hj hnot => ?_,
    fun j hj => h.soon j (hmem hj).2⟩
  · have hji : j ≠ id := by
      rintro rfl
      exact hnd.1 hj
    exact (List.mem_erase_of_ne hji).mpr (h.mem j (List.mem_cons_of_mem _ hj))
  · rw [hnext]
    exact h.earliest j (hmem hj).2 (by simp [(hmem hj).1, hnot])

theorem timerEntry_scanning (hticks : e.ticks = s.ticks) :
    Scanning e (timerEntry e b s id) b todo := by
  have hahead := h.ahead id List.mem_cons_self
  unfold timerTime at hahead
  unfold timerEntry
  dsimp only
  rw [hticks] at hahead ⊢
  split_ifs at hahead ⊢ with hwait hspent
  · have hsame : s.table.setSc id (s.table.sc id) = s.table := by
      simp [TcpSyncache.setSc]
    have hset := h.setSc rfl (hahead _ rfl)
    rwa [setSc, setHead, hsame] at hset
  · exact h.drop
  · have hrx : ((s.table.sc id).retransmitted e).scRxttime =
        s.ticks + e.rtobase (s.table.sc id).scRxmits := by
      rw [← hticks]
      unfold SyncacheEntry.retransmitted
      dsimp only
      split_ifs <;> rfl
    exact h.setSc (place_retransmitted e _) (hrx ▸ hahead _ rfl)

end

theorem timerEntry_ticks (e : SynEnv) (b : BitVec 32) (s : SyncacheRows) (id : ScId) :
    (timerEntry e b s id).ticks = s.ticks := by
  unfold timerEntry
  dsimp only
  split_ifs <;> rfl

theorem timerLoop_scanning (h : Scanning e s b todo) (hticks : e.ticks = s.ticks) :
    Scanning e (todo.foldl (timerEntry e b) s) b [] ∧
      (todo.foldl (timerEntry e b) s).ticks = s.ticks := by
  induction todo generalizing s with
  | nil => exact ⟨h, rfl⟩
  | cons id todo ih =>
    have hsame := timerEntry_ticks e b s id
    obtain ⟨hend, htime⟩ := ih (timerEntry_scanning h hticks) (hticks.trans hsame.symm)
    exact ⟨hend, htime.trans hsame⟩

/-- The callout has gone off, and no entry has been looked at. -/
theorem Consistent.scanning (h : s.Consistent) (hahead : ∀ id ∈ s.table.hashbase b,
    ∀ t ∈ timerTime e s.table.rexmtLimit (s.table.sc id), Ahead s.ticks t) :
    Scanning e (s.setHead b { s.head b with schNextc := s.ticks + intMax, schTimer := none }) b
      (s.table.hashbase b) := by
  refine ⟨h.sound, ?_, fun b' hb => ?_, ?_, nodup_row h.sound b, fun _ hid => hid, hahead,
    fun _ hid hnot => absurd hid hnot, (h.timed b).soon⟩
  · exact h.counted.of_eq rfl rfl (fun b' => setHead_schLength s b b' rfl) rfl
  · refine (h.timed b').frame ?_ ?_ (fun j hj => ⟨hj, rfl⟩) le_rfl
    · simp [setHead, hb]
    · simp [setHead, hb]
  · have hmax : (0 : ℤ) < intMax := by decide
    simp only [setHead, Function.update_self]
    exact ⟨by omega, le_rfl, rfl⟩

/-- All entries have been looked at: the callout is set again. -/
theorem Scanning.finish (h : Scanning e s b []) :
    (if (s.table.hashbase b).isEmpty then s
      else s.setHead b ((s.head b).calloutReset s.ticks)).Consistent := by
  split_ifs with hempty
  · refine { h with timed := fun b' => ?_ }
    by_cases hb : b' = b
    · have hnil := List.isEmpty_iff.mp hempty
      subst hb
      refine ⟨fun hne => absurd hnil hne, ?_, ?_⟩ <;> simp [hnil]
    · exact h.others b' hb
  · rw [SyncacheHead.calloutReset_eq h.nextc.later h.nextc.soon]
    refine ⟨h.sound, ?_, fun b' => ?_⟩
    · exact h.counted.of_eq rfl rfl (fun b' => setHead_schLength s b b' rfl) rfl
    · by_cases hb : b' = b
      · subst hb
        refine ⟨fun _ => by simp [setHead], fun id hid => ?_, h.soon⟩
        simpa [setHead] using h.earliest id hid (by simp)
      · refine (h.others b' hb).frame ?_ ?_ (fun j hj => ⟨hj, rfl⟩) le_rfl
        · simp [setHead, hb]
        · simp [setHead, hb]

theorem Consistent.timer (h : s.Consistent) (hticks : e.ticks = s.ticks)
    (hahead : ∀ id ∈ s.table.hashbase b,
      ∀ t ∈ timerTime e s.table.rexmtLimit (s.table.sc id), Ahead s.ticks t) :
    (s.syncacheTimer e b).Consistent := by
  obtain ⟨hend, hsame⟩ := timerLoop_scanning (h.scanning hahead) hticks
  have hfinish := hend.finish
  rw [hsame] at hfinish
  unfold syncacheTimer
  rw [hticks]
  exact hfinish

end SyncacheRows

/-- When a step keeps the rows in order: a new entry has the tags of its frame, and the times that
are set can be compared with the one that the row waits for. -/
def RowOp.Ok (s : SyncacheRows) : RowOp → Prop
  | .add e l a =>
    let b := syncacheHashPromisc s.table a.inc a.m.fib a.m.l2i
    match syncacheLookup s.table a.inc a.m with
    | some _ => s.InTime b (e.rtobase 0)
    | none => ∀ v, runFilter e l a = .ok v → a.TagsKept l v ∧
        ((s.makeRoom e b).tossOldest b).InTime b
          (if 0 < v.initialTimeout then v.initialTimeout else e.rtobase 0)
  | .timer e b => ∀ id ∈ s.table.hashbase b,
    ∀ t ∈ SyncacheRows.timerTime { e with ticks := s.ticks } s.table.rexmtLimit (s.table.sc id),
      SyncacheRows.Ahead s.ticks t
  | _ => True

namespace SyncacheRows

variable {s : SyncacheRows}

theorem Consistent.add (h : s.Consistent) (e : SynEnv) (l : SynListener) (a : SynArgs)
    (hok : (RowOp.add e l a).Ok s) :
    (s.syncacheAdd { e with ticks := s.ticks } l a).Consistent := by
  unfold syncacheAdd
  unfold RowOp.Ok at hok
  dsimp only at hok
  split
  · next id hfound =>
    rw [hfound] at hok
    exact h.dup rfl a.opt _ (mem_of_lookup hfound) hok
  · next hnone =>
    rw [hnone] at hok
    split
    · exact h
    · next v hv =>
      obtain ⟨hkept, hin⟩ := hok v hv
      exact h.admitted rfl l a v hkept hnone hin

theorem consistent_step (s : SyncacheRows) (op : RowOp) (h : s.Consistent) (hok : op.Ok s) :
    (s.step op).Consistent := by
  cases op with
  | add e l a => exact h.add e l a hok
  | expand a => exact h.dropFound a.inc a.m
  | chkrst inc th m =>
    change (s.syncacheChkrst inc th m).Consistent
    unfold syncacheChkrst
    split_ifs
    · exact h
    · split
      · exact h
      · dsimp only
        split_ifs
        · exact h.dropFound inc m
        · exact h
  | badack inc m => exact h.dropFound inc m
  | synack inc opt th m => exact h.synack inc opt th m
  | timer e b =>
    simp only [step]
    split
    · split_ifs
      · exact h.timer rfl hok
      · exact h
    · exact h
  | advance d =>
    refine ⟨h.sound, h.counted.of_eq rfl rfl (fun _ => rfl) rfl, fun b => ?_⟩
    refine (h.timed b).frame rfl rfl (fun j hj => ⟨hj, rfl⟩) ?_
    change s.ticks ≤ s.ticks + d
    omega

/-- Every entry is where its key hashes to and in no other row, the lengths and the count are right,
no two entries have one key, and each row with entries waits for the first of them. -/
structure Structured (s : SyncacheRows) : Prop where
  placed : ∀ b, ∀ id ∈ s.table.hashbase b, s.table.bucketOf (s.table.sc id) = b
  nodup : ∀ b, (s.table.hashbase b).Nodup
  length : ∀ b, (s.head b).schLength = (s.table.hashbase b).length
  limit : ∀ b, (s.head b).schLength ≤ s.table.bucketLimit
  count : s.cacheCount = ∑ b, (s.head b).schLength
  distinct : ∀ b b', ∀ i ∈ s.table.hashbase b, ∀ j ∈ s.table.hashbase b', i ≠ j →
    ¬ (endptsEq (s.table.sc i).scInc (s.table.sc j).scInc = true ∧
      (s.table.sc i).scFib = (s.table.sc j).scFib ∧
      stackTags (tagstackOf (s.table.sc i).scL2tag) =
        stackTags (tagstackOf (s.table.sc j).scL2tag))
  pending : ∀ b, s.table.hashbase b ≠ [] → ∃ c, (s.head b).schTimer = some c ∧
    ((∀ id ∈ s.table.hashbase b, c ≤ (s.table.sc id).scRxttime) ∨ c = s.ticks + 1)

theorem Consistent.structured (h : s.Consistent) : s.Structured where
  placed _ _ hid := bucketOf_of_mem h.sound hid
  nodup := nodup_row h.sound
  length := h.counted.length
  limit b := by
    rw [h.counted.length b]
    exact_mod_cast h.counted.limit b
  count := h.counted.count
  distinct := by
    rintro b b' i hi j hj hij ⟨hends, hfib, htags⟩
    have hconn : (s.table.sc j).ofConn (s.table.sc i).scInc (s.table.sc i).scFib = true := by
      simp [SyncacheEntry.ofConn, hends, hfib]
    have hbucket : s.table.bucketOf (s.table.sc i) = s.table.bucketOf (s.table.sc j) := by
      simp only [endptsEq, Bool.and_eq_true, decide_eq_true_eq] at hends
      simp [TcpSyncache.bucketOf, syncacheHashPromisc, syncacheSeed, syncacheHash, hashTags, hends,
        hfib, htags]
    have hb : b = b' := by
      rw [← bucketOf_of_mem h.sound hi, hbucket, bucketOf_of_mem h.sound hj]
    subst hb
    exact (h.sound _ _).tags_ne hi hj hij (SyncacheEntry.ofConn_self _) hconn
      (congrArg significant htags)
  pending b hne := ⟨_, (h.timed b).pending hne, .inl (h.timed b).earliest⟩

structure Empty (s : SyncacheRows) : Prop where
  room : 1 ≤ s.table.bucketLimit
  rows : s.table.hashbase = ChainTable.empty
  length : ∀ b, (s.head b).schLength = 0
  count : s.cacheCount = 0

theorem Empty.consistent (h : s.Empty) : s.Consistent := by
  have hnil (b : BitVec 32) : s.table.hashbase b = [] := by
    rw [h.rows]
    rfl
  refine ⟨fun inc fib => sound_of_empty h.rows, ⟨h.room, fun b => ?_, fun b => ?_, ?_⟩,
    fun b => ⟨fun hne => absurd (hnil b) hne, ?_, ?_⟩⟩
  · simp [h.length, hnil]
  · simp [hnil]
  · simp [h.count, h.length]
  · simp [hnil]
  · simp [hnil]

/-- The rows of a syncache that starts out empty stay in order as long as new entries have the tags
of their frames and the times that are set can be compared. -/
theorem syncache_structured {s : SyncacheRows} (hempty : s.Empty) (ops : List RowOp)
    (hok : Along step (fun s op => op.Ok s) s ops) : (run step s ops).Structured :=
  (run_invariant consistent_step hempty.consistent hok).structured

def emptyRows (ticks : ℤ) : SyncacheRows := { table := emptySyncache, ticks }

theorem emptyRows_empty (ticks : ℤ) : (emptyRows ticks).Empty :=
  ⟨(by decide : 1 ≤ 30), rfl, fun _ => rfl, rfl⟩

def vlanSyn (e : SynEnv) (l : SynListener) : RowOp :=
  .add e l
    { inc := { conn80 with incPromisc := l.promisc }
      th := { thSeq := 1000 }
      m := taggedFrame vlan5 }

/-- The row of a promiscuous listener, after its timer has gone off once, with the clock below
zero. -/
theorem syncache_structured_vlan :
    let s := run step (emptyRows (-1000))
      [vlanSyn {} { promisc := true }, .advance 300, .timer {} 161]
    s.table.hashbase 161 = [0] ∧ (s.head 161).schTimer = some (-400) ∧ s.Structured := by
  have hrow : (run step (emptyRows (-1000))
      [vlanSyn {} { promisc := true }, .advance 300]).table.hashbase 161 = [0] := by
    decide +kernel
  have htime : timerTime { ticks := -700 } 3 ((run step (emptyRows (-1000))
      [vlanSyn {} { promisc := true }, .advance 300]).table.sc 0) = some (-400) := by
    decide +kernel
  refine ⟨by decide +kernel, by decide +kernel, syncache_structured (emptyRows_empty (-1000)) _
    ⟨fun v hv => ?_, trivial, fun id hid t ht => ?_, trivial⟩⟩
  · obtain rfl := Except.ok.inj hv
    exact ⟨rfl, by decide, by decide, by decide +kernel⟩
  · change id ∈ (run step (emptyRows (-1000))
      [vlanSyn {} { promisc := true }, .advance 300]).table.hashbase 161 at hid
    rw [hrow] at hid
    obtain rfl := List.mem_singleton.mp hid
    obtain rfl := Option.some.inj (htime.symm.trans ht)
    exact ⟨by decide, by decide, by decide⟩

/-- A SYN filter that makes the connection passive and leaves it as much time as there is. -/
def patientFilter : SynEnv where
  callback arg := (.acceptPassive,
    { arg with inc := { arg.inc with incPassive := true }, initialTimeout := intMax })

/-- A row of the syncache whose callout is not set. -/
theorem not_structured_of_idle {s : SyncacheRows} {b : BitVec 32} {ids : List ScId}
    (hrow : s.table.hashbase b = ids) (hne : ids ≠ []) (htimer : (s.head b).schTimer = none) :
    ¬ s.Structured := by
  intro h
  obtain ⟨c, hc, -⟩ := h.pending b (by rwa [hrow])
  rw [htimer] at hc
  cases hc

/-- The listener accepts tagged frames without being promiscuous, or an ordinary SYN comes in one
tick after the clock was zero, or a filter asks for the longest delay there is. -/
theorem syncache_unstructured :
    let s := run step (emptyRows 0) [vlanSyn {} {}, vlanSyn {} {}]
    let t := run step (emptyRows 0) [.advance 1, vlanSyn {} { promisc := true }]
    let u := run step (emptyRows 0) [vlanSyn patientFilter { promisc := true, synfilter := true }]
    (s.table.hashbase 161 = [1, 0] ∧ s.table.bucketOf (s.table.sc 0) ≠ 161 ∧ ¬ s.Structured) ∧
    (t.table.hashbase 161 = [0] ∧ (t.head 161).schTimer = none ∧ ¬ t.Structured) ∧
    (u.table.hashbase 161 = [0] ∧ (u.head 161).schTimer = none ∧ ¬ u.Structured) := by
  intro s t u
  have hs : s.table.hashbase 161 = [1, 0] := by decide +kernel
  have hbucket : s.table.bucketOf (s.table.sc 0) ≠ 161 := by decide +kernel
  have ht : t.table.hashbase 161 = [0] := by decide +kernel
  have ht' : (t.head 161).schTimer = none := by decide +kernel
  have hu : u.table.hashbase 161 = [0] := by decide +kernel
  have hu' : (u.head 161).schTimer = none := by decide +kernel
  refine ⟨⟨hs, hbucket, fun h => hbucket (h.placed 161 0 ?_)⟩,
    ⟨ht, ht', not_structured_of_idle ht (by simp) ht'⟩,
    hu, hu', not_structured_of_idle hu (by simp) hu'⟩
  rw [hs]
  decide

end SyncacheRows

end Libuinet
