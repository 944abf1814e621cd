import Libuinet.SyncacheTags
import Mathlib.Data.List.Induction
import Mathlib.Data.List.TakeWhile

namespace Libuinet

/-- A captured SYN|ACK: its options as parsed, its header, its frame. -/
structure Synack where
  opt : TcpOpt
  th : TcpHdr
  m : FrameMbuf

/-- The parts of an entry that a SYN|ACK is about, with all of `sc_flags`. -/
@[ext]
structure HandshakeView where
  scIss : TcpSeq
  scWnd : BitVec 16
  scRequestedSScale : BitVec 4
  scRequestedRScale : BitVec 4
  scTs : BitVec 32
  scTsoff : BitVec 32
  scTsreflect : BitVec 32
  scfNoopt : Bool
  scfWinscale : Bool
  scfTimestamp : Bool
  scfSack : Bool
  scfEcn : Bool
  scfPassive : Bool
  scfPassiveSynack : Bool
  scfNoTimeoutReset : Bool
  scfConvertOnTimeout : Bool

def SyncacheEntry.handshake (sc : SyncacheEntry) : HandshakeView where
  scIss := sc.scIss
  scWnd := sc.scWnd
  scRequestedSScale := sc.scRequestedSScale
  scRequestedRScale := sc.scRequestedRScale
  scTs := sc.scTs
  scTsoff := sc.scTsoff
  scTsreflect := sc.scTsreflect
  scfNoopt := sc.scfNoopt
  scfWinscale := sc.scfWinscale
  scfTimestamp := sc.scfTimestamp
  scfSack := sc.scfSack
  scfEcn := sc.scfEcn
  scfPassive := sc.scfPassive
  scfPassiveSynack := sc.scfPassiveSynack
  scfNoTimeoutReset := sc.scfNoTimeoutReset
  scfConvertOnTimeout := sc.scfConvertOnTimeout

namespace HandshakeView

def learn (v : HandshakeView) (s : Synack) : HandshakeView :=
  { v with
    scIss := s.th.thSeq
    scWnd := BitVec.ofNat 16 s.th.thWin
    scfPassiveSynack := true
    scfEcn := v.scfEcn && s.th.thFlags.ece
    scfSack := v.scfSack && s.opt.tofSackperm
    scfWinscale := v.scfWinscale && s.opt.tofScale
    scRequestedSScale := if s.opt.tofScale then v.scRequestedSScale else 0
    scRequestedRScale := if s.opt.tofScale then
      if v.scfWinscale then BitVec.ofNat 4 s.opt.toWscale else v.scRequestedRScale else 0
    scfTimestamp := v.scfTimestamp && s.opt.tofTs
    scTs := if s.opt.tofTs then if v.scfTimestamp then s.opt.toTsval else v.scTs else 0
    scTsreflect := if s.opt.tofTs then
      if v.scfTimestamp then s.opt.toTsecr else v.scTsreflect else 0
    scTsoff := if s.opt.tofTs && v.scfTimestamp then s.opt.toTsval - v.scTs else v.scTsoff }

end HandshakeView

/-- The handshake after a SYN|ACK is a matter of the handshake before it. -/
theorem handshake_synackUpdate (s : Synack) (sc : SyncacheEntry) :
    (synackUpdate s.opt s.th sc).handshake = sc.handshake.learn s := by
  unfold synackUpdate synackTimestamp synackScale SyncacheEntry.handshake HandshakeView.learn
  cases s.opt.tofScale <;> cases s.opt.tofTs <;> cases hw : sc.scfWinscale <;>
    cases ht : sc.scfTimestamp <;> simp

def lastOr {α β : Type} (f : α → β) (b : β) (l : List α) : β :=
  (l.getLast?.map f).getD b

@[simp] theorem lastOr_nil {α β : Type} (f : α → β) (b : β) : lastOr f b [] = b := rfl

@[simp] theorem lastOr_concat {α β : Type} (f : α → β) (b : β) (l : List α) (x : α) :
    lastOr f b (l ++ [x]) = f x := by
  simp [lastOr]

namespace HandshakeView

def lastOffset (v : HandshakeView) (segs : List Synack) : BitVec 32 :=
  if segs = [] then v.scTsoff
  else lastOr (·.opt.toTsval) v.scTs segs - lastOr (·.opt.toTsval) v.scTs segs.dropLast

variable (v : HandshakeView) (segs : List Synack)

@[simp] theorem lastOffset_nil : v.lastOffset [] = v.scTsoff := rfl

@[simp] theorem lastOffset_concat (s : Synack) :
    v.lastOffset (segs ++ [s]) = s.opt.toTsval - lastOr (·.opt.toTsval) v.scTs segs := by
  simp [lastOffset]

def learned (v : HandshakeView) (segs : List Synack) : HandshakeView :=
  { v with
    scIss := lastOr (·.th.thSeq) v.scIss segs
    scWnd := lastOr (BitVec.ofNat 16 ·.th.thWin) v.scWnd segs
    scfPassiveSynack := v.scfPassiveSynack || !segs.isEmpty
    scfEcn := v.scfEcn && segs.all (·.th.thFlags.ece)
    scfSack := v.scfSack && segs.all (·.opt.tofSackperm)
    scfWinscale := v.scfWinscale && segs.all (·.opt.tofScale)
    scRequestedSScale := if segs.all (·.opt.tofScale) then v.scRequestedSScale else 0
    scRequestedRScale := if segs.all (·.opt.tofScale) then
      if v.scfWinscale then lastOr (BitVec.ofNat 4 ·.opt.toWscale) v.scRequestedRScale segs
      else v.scRequestedRScale else 0
    scfTimestamp := v.scfTimestamp && segs.all (·.opt.tofTs)
    scTs := if segs.all (·.opt.tofTs) then
      if v.scfTimestamp then lastOr (·.opt.toTsval) v.scTs segs else v.scTs else 0
    scTsreflect := if segs.all (·.opt.tofTs) then
      if v.scfTimestamp then lastOr (·.opt.toTsecr) v.scTsreflect segs
      else v.scTsreflect else 0
    -- the first SYN|ACK without a timestamp option switches timestamps off for good
    scTsoff := if v.scfTimestamp then v.lastOffset (segs.takeWhile (·.opt.tofTs))
      else v.scTsoff }

theorem learned_nil : v.learned [] = v := by
  ext <;> simp [learned]

/-- The offset after one more SYN|ACK. -/
theorem lastOffset_takeWhile_concat (s : Synack) :
    v.lastOffset ((segs ++ [s]).takeWhile (·.opt.tofTs)) =
      if s.opt.tofTs && segs.all (·.opt.tofTs) then
        s.opt.toTsval - lastOr (·.opt.toTsval) v.scTs segs
      else v.lastOffset (segs.takeWhile (·.opt.tofTs)) := by
  cases hall : segs.all (·.opt.tofTs) with
  | true =>
    have hself : segs.takeWhile (·.opt.tofTs) = segs :=
      List.takeWhile_eq_self_iff.mpr (by simpa using hall)
    cases hs : s.opt.tofTs <;> simp [List.takeWhile_append, hself, hs]
  | false =>
    have hpart : (segs.takeWhile (·.opt.tofTs)).length ≠ segs.length := by
      intro hlen
      have hself := (List.takeWhile_prefix (fun x : Synack => x.opt.tofTs)).eq_of_length hlen
      have hevery := List.takeWhile_eq_self_iff.mp hself
      simp only [List.all_eq_false] at hall
      obtain ⟨x, hx, hno⟩ := hall
      exact hno (hevery x hx)
    simp [List.takeWhile_append, hpart]

/-- One more SYN|ACK. -/
theorem learned_concat (s : Synack) : (v.learned segs).learn s = v.learned (segs ++ [s]) := by
  have hall (p : Synack → Bool) : (segs ++ [s]).all p = (segs.all p && p s) := by simp
  unfold learn learned
  simp only [lastOffset_takeWhile_concat, hall, lastOr_concat]
  -- which options the last segment carries, and whether all before it carried them
  cases segs.all (·.opt.tofTs) <;> cases segs.all (·.opt.tofScale) <;>
    cases s.opt.tofTs <;> cases s.opt.tofScale <;>
    cases v.scfTimestamp <;> cases v.scfWinscale <;> simp [Bool.and_assoc]

/-- A sequence of SYN|ACKs, one after the other. -/
theorem foldl_learn : segs.foldl learn v = v.learned segs := by
  induction segs using List.reverseRecOn with
  | nil => exact (learned_nil v).symm
  | append_singleton segs s ih =>
    rw [List.foldl_append, List.foldl_cons, List.foldl_nil, ih, learned_concat]

/-- The sequence makes of the handshake what one of its segments makes of it. -/
structure Undisturbed (v : HandshakeView) (g : Synack) (init : List Synack) (last : Synack) :
    Prop where
  iss : last.th.thSeq = g.th.thSeq
  wnd : BitVec.ofNat 16 last.th.thWin = BitVec.ofNat 16 g.th.thWin
  ecn : v.scfEcn → g.th.thFlags.ece → (init ++ [last]).all (·.th.thFlags.ece)
  sack : v.scfSack → g.opt.tofSackperm → (init ++ [last]).all (·.opt.tofSackperm)
  scale : g.opt.tofScale →
    (init ++ [last]).all (·.opt.tofScale) ∧
        (v.scfWinscale → BitVec.ofNat 4 last.opt.toWscale = BitVec.ofNat 4 g.opt.toWscale) ∨
      v.scfWinscale = false ∧ v.scRequestedSScale = 0 ∧ v.scRequestedRScale = 0
  timestamp : g.opt.tofTs →
    (init ++ [last]).all (·.opt.tofTs) ∧
        (v.scfTimestamp → last.opt.toTsval = g.opt.toTsval ∧
          last.opt.toTsecr = g.opt.toTsecr ∧ lastOr (·.opt.toTsval) v.scTs init = v.scTs) ∨
      v.scfTimestamp = false ∧ v.scTs = 0 ∧ v.scTsreflect = 0
  offset : v.scfTimestamp → g.opt.tofTs = false →
    v.lastOffset ((init ++ [last]).takeWhile (·.opt.tofTs)) = v.scTsoff

section

variable {a all one : Bool} (hof : all = true → one = true)
include hof

/-- A flag that every segment may take away. -/
theorem flag_eq_iff : (a && all) = (a && one) ↔ (a = true → one = true → all = true) := by
  cases a <;> cases all <;> cases one <;> simp at hof ⊢

/-- The window scales: the flag, the client's scale, the server's scale. -/
theorem scale_eq_iff (s r last gen : BitVec 4) :
    ((a && all) = (a && one) ∧ (if all then s else 0) = (if one then s else 0) ∧
        (if all then if a then last else r else 0) = if one then if a then gen else r else 0) ↔
      (one = true → all = true ∧ (a = true → last = gen) ∨ a = false ∧ s = 0 ∧ r = 0) := by
  rw [flag_eq_iff hof]
  cases a <;> cases all <;> cases one <;> simp at hof ⊢
  exact and_congr eq_comm eq_comm

/-- The timestamps: the flag, the value, the echo, the offset. -/
theorem timestamp_eq_iff {off prev lastTs : BitVec 32} (hoff : all = true → off = lastTs - prev)
    (off₀ ts ecr lastEcr genTs genEcr : BitVec 32) :
    ((a && all) = (a && one) ∧
        (if all then if a then lastTs else ts else 0) =
          (if one then if a then genTs else ts else 0) ∧
        (if all then if a then lastEcr else ecr else 0) =
          (if one then if a then genEcr else ecr else 0) ∧
        (if a then off else off₀) = if one && a then genTs - ts else off₀) ↔
      (one = true → all = true ∧
          (a = true → lastTs = genTs ∧ lastEcr = genEcr ∧ prev = ts) ∨
        a = false ∧ ts = 0 ∧ ecr = 0) ∧ (a = true → one = false → off = off₀) := by
  rw [flag_eq_iff hof]
  cases a <;> cases all <;> cases one <;> simp at hof hoff ⊢
  · exact and_congr eq_comm eq_comm
  · intro hlast _
    rw [hoff, hlast]
    exact sub_right_inj

end

theorem learned_eq_learn_iff {g : Synack} {init : List Synack} {last : Synack}
    (hg : g ∈ init ++ [last]) :
    v.learned (init ++ [last]) = v.learn g ↔ v.Undisturbed g init last := by
  have hof (p : Synack → Bool) (hall : (init ++ [last]).all p = true) : p g = true :=
    List.all_eq_true.mp hall g hg
  -- with timestamps throughout, the offset is the last step between two of them
  have hoff : (init ++ [last]).all (·.opt.tofTs) = true →
      v.lastOffset ((init ++ [last]).takeWhile (·.opt.tofTs)) =
        last.opt.toTsval - lastOr (·.opt.toTsval) v.scTs init := by
    intro hall
    rw [lastOffset_takeWhile_concat, if_pos]
    simpa [and_comm] using hall
  have hecn := flag_eq_iff (a := v.scfEcn) (hof (·.th.thFlags.ece))
  have hsack := flag_eq_iff (a := v.scfSack) (hof (·.opt.tofSackperm))
  have hscale := scale_eq_iff (a := v.scfWinscale) (hof (·.opt.tofScale)) v.scRequestedSScale
    v.scRequestedRScale (BitVec.ofNat 4 last.opt.toWscale) (BitVec.ofNat 4 g.opt.toWscale)
  have hts := timestamp_eq_iff (a := v.scfTimestamp) (hof (·.opt.tofTs)) hoff v.scTsoff v.scTs
    v.scTsreflect last.opt.toTsecr g.opt.toTsval g.opt.toTsecr
  have hne : (init ++ [last]).isEmpty = false := by simp
  unfold learned learn
  rw [mk.injEq]
  simp only [lastOr_concat, hne, Bool.not_false, Bool.or_true]
  constructor
  · rintro ⟨hiss, hwnd, hs, hr, hval, hoffset, hecr, -, hwin, htstamp, hsackp, hece, -⟩
    obtain ⟨htimes, hoffs⟩ := hts.mp ⟨htstamp, hval, hecr, hoffset⟩
    exact ⟨hiss, hwnd, hecn.mp hece, hsack.mp hsackp, hscale.mp ⟨hwin, hs, hr⟩, htimes, hoffs⟩
  · intro h
    obtain ⟨hwin, hs, hr⟩ := hscale.mpr h.scale
    obtain ⟨htstamp, hval, hecr, hoffset⟩ := hts.mpr ⟨h.timestamp, h.offset⟩
    exact ⟨h.iss, h.wnd, hs, hr, hval, hoffset, hecr, trivial, hwin, htstamp, hsack.mpr h.sack,
      hecn.mpr h.ecn, trivial, trivial, trivial, trivial⟩

end HandshakeView

def passiveSynacks (t : TcpSyncache) (inc : InConninfo) (segs : List Synack) : TcpSyncache :=
  segs.foldl (fun t s => syncachePassiveSynack t inc s.opt s.th s.m) t

theorem syncacheLookup_setSc (t : TcpSyncache) (id : ScId) {sc : SyncacheEntry}
    (hsc : sc.place = (t.sc id).place) (inc : InConninfo) (m : FrameMbuf) :
    syncacheLookup (t.setSc id sc) inc m = syncacheLookup t inc m := by
  have hmatch (j : ScId) : syncacheMatch inc m ((t.setSc id sc).sc j) =
      syncacheMatch inc m (t.sc j) := by
    have hplace := place_setSc t id hsc j
    rw [Bool.eq_iff_iff, syncacheMatch_iff, syncacheMatch_iff, ofConn_congr hplace,
      tags_congr hplace]
  unfold syncacheLookup
  simp only [hmatch]
  rfl

/-- SYN|ACKs that find a passive entry are taken for its own. -/
theorem passiveSynacks_handshake (inc : InConninfo) (id : ScId) (segs : List Synack) :
    ∀ t : TcpSyncache, (t.sc id).scfPassive = true →
      (∀ s ∈ segs, syncacheLookup t inc.swap s.m = some id) →
      ((passiveSynacks t inc segs).sc id).handshake =
        segs.foldl HandshakeView.learn (t.sc id).handshake := by
  induction segs with
  | nil => exact fun t _ _ => rfl
  | cons s segs ih =>
    intro t hpassive hfind
    have hstep : syncachePassiveSynack t inc s.opt s.th s.m =
        t.setSc id (synackUpdate s.opt s.th (t.sc id)) := by
      simp [syncachePassiveSynack, hfind s List.mem_cons_self, hpassive]
    have hentry : ((t.setSc id (synackUpdate s.opt s.th (t.sc id))).sc id).handshake =
        (t.sc id).handshake.learn s := by
      rw [← handshake_synackUpdate]
      simp [TcpSyncache.setSc]
    have hstill : ((t.setSc id (synackUpdate s.opt s.th (t.sc id))).sc id).scfPassive = true := by
      change ((t.setSc id (synackUpdate s.opt s.th (t.sc id))).sc id).handshake.scfPassive = true
      rw [hentry]
      exact hpassive
    change ((passiveSynacks (syncachePassiveSynack t inc s.opt s.th s.m) inc segs).sc
      id).handshake = _
    rw [hstep, ih _ hstill, hentry, List.foldl_cons]
    intro s' hs'
    rw [syncacheLookup_setSc t id (place_synackUpdate _ _ _)]
    exact hfind s' (List.mem_cons_of_mem _ hs')

/-- The entry after the whole sequence is the entry after one of the SYN|ACKs `g` exactly
when the sequence does not disturb it.  Nothing is asked about acknowledgment
numbers, because `syncache_passive_synack` does not look at them. -/
theorem passiveSynacks_undisturbed_iff (t : TcpSyncache) (inc : InConninfo) (id : ScId)
    (g : Synack) (init : List Synack) (last : Synack)
    (hpassive : (t.sc id).scfPassive = true)
    (hfind : ∀ s ∈ init ++ [last], syncacheLookup t inc.swap s.m = some id)
    (hg : g ∈ init ++ [last]) :
    ((passiveSynacks t inc (init ++ [last])).sc id).handshake =
        ((syncachePassiveSynack t inc g.opt g.th g.m).sc id).handshake ↔
      (t.sc id).handshake.Undisturbed g init last := by
  have honce := passiveSynacks_handshake inc id [g] t hpassive (by simpa using hfind g hg)
  have hall := passiveSynacks_handshake inc id (init ++ [last]) t hpassive hfind
  change ((syncachePassiveSynack t inc g.opt g.th g.m).sc id).handshake =
    (t.sc id).handshake.learn g at honce
  rw [honce, hall, HandshakeView.foldl_learn]
  exact HandshakeView.learned_eq_learn_iff _ hg

/-- The syncache after a SYN from 1000 that a passive listener takes in, with the given
options. -/
def passiveTable (opt : TcpOpt) : TcpSyncache :=
  (syncacheAdd {} emptySyncache { promisc := true }
    { inc := { conn80 with incPassive := true }, opt := opt, th := { thSeq := 1000 },
      m := taggedFrame .empty }).table

def synackFor (seq ack : TcpSeq) (opt : TcpOpt) : Synack where
  opt := opt
  th := { thSeq := seq, thAck := ack, thFlags := { syn := true, ack := true }, thWin := 8192 }
  m := taggedFrame .empty

/-- Without options, a SYN|ACK may come twice. -/
theorem passiveSynacks_undisturbed_twice :
    ((passiveSynacks (passiveTable {}) conn80.swap
        [synackFor 7000 1001 {}, synackFor 7000 1001 {}]).sc 0).handshake =
      ((syncachePassiveSynack (passiveTable {}) conn80.swap {} (synackFor 7000 1001 {}).th
        (taggedFrame .empty)).sc 0).handshake := by
  apply (passiveSynacks_undisturbed_iff (passiveTable {}) conn80.swap 0 (synackFor 7000 1001 {})
    [synackFor 7000 1001 {}] (synackFor 7000 1001 {}) (by decide +kernel) ?_ (by simp)).2
  · exact ⟨rfl, rfl, by decide +kernel, by decide +kernel, by decide +kernel, by decide +kernel,
      by decide +kernel⟩
  · intro s hs
    simp only [List.cons_append, List.nil_append, List.mem_cons, List.not_mem_nil, or_false,
      or_self] at hs
    subst hs
    decide +kernel

/-- With timestamps the second copy wipes out the offset, and a SYN|ACK for an earlier
SYN replaces the initial sequence number of the server. -/
theorem passiveSynacks_disturbed :
    ∃ t g stale, t = passiveTable { tofTs := true, toTsval := 5 } ∧
      g = synackFor 7000 1001 { tofTs := true, toTsval := 90, toTsecr := 5 } ∧
      stale = synackFor 4000 501 {} ∧ (t.sc 0).scfPassive = true ∧ (t.sc 0).scIrs = 1000 ∧
      (∀ s ∈ [g, g, stale], syncacheLookup t conn80.swap.swap s.m = some 0) ∧
      ((syncachePassiveSynack t conn80.swap g.opt g.th g.m).sc 0).scTsoff = 90 ∧
      ((passiveSynacks t conn80.swap [g, g]).sc 0).scTsoff = 0 ∧
      ((syncachePassiveSynack t conn80.swap g.opt g.th g.m).sc 0).scIss = 7000 ∧
      ((passiveSynacks t conn80.swap [g, stale]).sc 0).scIss = 4000 := by
  refine ⟨_, _, _, rfl, rfl, rfl, by decide +kernel, by decide +kernel, ?_, by decide +kernel,
    by decide +kernel, by decide +kernel, by decide +kernel⟩
  intro s hs
  simp only [List.mem_cons, List.not_mem_nil, or_false] at hs
  rcases hs with rfl | rfl | rfl <;> decide +kernel

end Libuinet
