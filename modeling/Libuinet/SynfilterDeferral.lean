import Libuinet.SyncacheTags

namespace Libuinet

inductive CookieOp where
  | setaltfib (altfib : BitVec 32)
  | goActiveOnTimeout (ms : BitVec 32)

/-- `uinet_synfilter_setaltfib` and `uinet_synfilter_go_active_on_timeout`. -/
def CookieOp.apply (hz : ℕ) (cbarg : SynFilterCbarg) : CookieOp → SynFilterCbarg
  | .setaltfib altfib => { cbarg with altfib := altfib }
  | .goActiveOnTimeout ms =>
    { cbarg with
      inc := { cbarg.inc with incConvontmo := true }
      initialTimeout := if intMax / hz < ms.toNat then (intMax / 1000 : ℕ)
        else (ms.toNat * hz / 1000 : ℕ) }

def SynArgs.settled (a : SynArgs) (e : SynEnv) (hz : ℕ) (settings : List CookieOp) :
    SynFilterCbarg :=
  settings.foldl (CookieOp.apply hz) (a.cookie e)

/-- `IP_SYNFILTER_RESULT` of `syn_filter_setopt`.  `bandlim` says that no more resets may
be sent for the moment. -/
def synFilterResult (e : SynEnv) (bandlim : Bool) (t : TcpSyncache) (l : SynListener)
    (cbarg : SynFilterCbarg) (decision : SynfDecision) : SynOutcome :=
  if !l.promisc then { table := t, freed := 0 }
  else
    match decision with
    | .rejectSilent => { table := t, freed := 1 }
    | .rejectRst => { table := t, freed := 1, rst := if bandlim then 0 else 1 }
    | .accept =>
      syncacheAdd e t l ⟨cbarg.inc, cbarg.opt, cbarg.th, cbarg.m, cbarg.initialTimeout⟩
    | .acceptPassive => { table := t, freed := 0 }
    | .defer => { table := t, freed := 0 }

def atOnce (e : SynEnv) (hz : ℕ) (t : TcpSyncache) (l : SynListener) (a : SynArgs)
    (settings : List CookieOp) (d : SynfDecision) : SynOutcome :=
  syncacheAdd { e with callback := fun cbarg => (d, settings.foldl (CookieOp.apply hz) cbarg) }
    t l a

def later (e : SynEnv) (hz : ℕ) (bandlim : Bool) (t : TcpSyncache) (l : SynListener)
    (a : SynArgs) (settings : List CookieOp) (d : SynfDecision) : SynOutcome :=
  let first := atOnce e hz t l a settings .defer
  match first.deferred with
  | none => first
  | some cbarg =>
    let second := synFilterResult e bandlim first.table l cbarg d
    { second with freed := first.freed + second.freed, rst := first.rst + second.rst }

/-- The entry without the marks of the two routes in its copy of the connection info,
which nothing reads. -/
def SyncacheEntry.seen (sc : SyncacheEntry) : SyncacheEntry :=
  { sc with scInc := { sc.scInc with incSynfiltered := false, incConvontmo := false } }

def TcpSyncache.seen (t : TcpSyncache) : TcpSyncache := { t with sc := fun id => (t.sc id).seen }

def SameOutcome (o o' : SynOutcome) : Prop :=
  o.table.seen = o'.table.seen ∧ o.freed = o'.freed ∧ o.rst = o'.rst

/-- Neither the SYN|ACK nor the SYN cookie depends on the marks. -/
structure SynEnv.MarkBlind (e : SynEnv) : Prop where
  respond : ∀ sc, e.respond sc.seen = e.respond sc
  syncookie : ∀ sc, e.syncookie sc.seen = e.syncookie sc

/-- The arguments of `_syncache_add` as `tcp_input` passes them. -/
structure SynArgs.FromInput (a : SynArgs) : Prop where
  incSynfiltered : a.inc.incSynfiltered = false
  incConvontmo : a.inc.incConvontmo = false
  initialTimeout : a.initialTimeout = -1

def Stored (e : SynEnv) (t : TcpSyncache) (l : SynListener) (a : SynArgs) (v : SynVars) : Prop :=
  (allocSc e t (syncacheHashPromisc t a.inc a.m.fib a.m.l2i) v.passive).2 = .zone ∧
    syncacheRespond e (withCookie e v.passive (newEntry e l a v)) = true ∧
    (!(e.tcpSyncookies && e.tcpSyncookiesonly && !v.passive)) = true

instance (e : SynEnv) (t : TcpSyncache) (l : SynListener) (a : SynArgs) (v : SynVars) :
    Decidable (Stored e t l a v) :=
  inferInstanceAs (Decidable (_ ∧ _ ∧ _))

def SynArgs.resubmitted (a : SynArgs) (cbarg : SynFilterCbarg) : SynArgs :=
  ⟨cbarg.inc, a.opt, a.th, cbarg.m, cbarg.initialTimeout⟩

/-- The source route is read once, and the rest of the mbuf stays as it is. -/
theorem ipSrcroute_snd (mGet : Bool) (m : FrameMbuf) :
    (ipSrcroute mGet (ipSrcroute mGet m).2).1 = none ∧ (ipSrcroute mGet m).2.fib = m.fib ∧
      (ipSrcroute mGet m).2.l2i = m.l2i := by
  obtain ⟨fib, l2i, ipoptTag⟩ := m
  cases ipoptTag with
  | none => exact ⟨rfl, rfl, rfl⟩
  | some opts =>
    cases hroute : opts.route.reverse with
    | nil => simp [ipSrcroute, hroute]
    | cons p route => cases mGet <;> simp [ipSrcroute, hroute]

/-- Only the timeout, its mark and the fib are set. -/
theorem settled_eq (e : SynEnv) (a : SynArgs) (hz : ℕ) (settings : List CookieOp) :
    ∃ convontmo timeout altfib, a.settled e hz settings =
      { a.cookie e with
        inc := { (a.cookie e).inc with incConvontmo := convontmo }
        initialTimeout := timeout
        altfib := altfib } := by
  unfold SynArgs.settled
  induction settings using List.reverseRecOn with
  | nil => exact ⟨_, _, _, rfl⟩
  | append_singleton settings op ih =>
    obtain ⟨convontmo, timeout, altfib, heq⟩ := ih
    rw [List.foldl_concat, heq]
    cases op with
    | setaltfib altfib' => exact ⟨_, _, _, rfl⟩
    | goActiveOnTimeout ms => exact ⟨_, _, _, rfl⟩

section Routes

variable {e : SynEnv} {t : TcpSyncache} {l : SynListener} {a : SynArgs}

theorem atOnce_eq (hz : ℕ) (settings : List CookieOp) (d : SynfDecision)
    (hl : l.synfilter = true) (ha : a.FromInput) (hnew : syncacheLookup t a.inc a.m = none) :
    atOnce e hz t l a settings d =
      match d with
      | .accept | .acceptPassive =>
        { table := admitSyn e t l a ((a.vars e).judged d (a.settled e hz settings)), freed := 1 }
      | .defer => { table := t, freed := 0, deferred := some (a.settled e hz settings) }
      | .rejectRst | .rejectSilent => { table := t, freed := 1 } := by
  have hrun : (l.synfilter && !a.inc.incSynfiltered) = true := by simp [hl, ha.incSynfiltered]
  unfold atOnce syncacheAdd
  rw [hnew]
  unfold runFilter
  rw [if_pos hrun]
  cases d <;> rfl

theorem later_eq (hz : ℕ) (bandlim : Bool) (settings : List CookieOp) (d : SynfDecision)
    (hl : l.synfilter = true) (hpromisc : l.promisc = true) (ha : a.FromInput)
    (hnew : syncacheLookup t a.inc a.m = none) :
    later e hz bandlim t l a settings d =
      match d with
      | .accept =>
        { table := admitSyn e t l (a.resubmitted (a.settled e hz settings))
            ((a.resubmitted (a.settled e hz settings)).vars e)
          freed := 1 }
      | .rejectSilent => { table := t, freed := 1 }
      | .rejectRst => { table := t, freed := 1, rst := if bandlim then 0 else 1 }
      | .acceptPassive | .defer => { table := t, freed := 0 } := by
  obtain ⟨convontmo, timeout, altfib, heq⟩ := settled_eq e a hz settings
  unfold later
  rw [atOnce_eq hz settings .defer hl ha hnew]
  dsimp only
  unfold synFilterResult
  rw [if_neg (by simp [hpromisc])]
  cases d with
  | accept =>
    obtain ⟨-, hfib, hl2i⟩ := ipSrcroute_snd e.mGet a.m
    have hagain :
        syncacheLookup t (a.settled e hz settings).inc (a.settled e hz settings).m = none := by
      rw [heq]
      unfold syncacheLookup syncacheMatch at hnew ⊢
      simp only [SynArgs.cookie, hfib, hl2i]
      exact hnew
    dsimp only
    unfold syncacheAdd
    rw [hagain]
    dsimp only
    unfold runFilter
    -- the mark in the cookie keeps the filter from being asked again
    rw [if_neg (by simp [heq, SynArgs.cookie]), heq]
    rfl
  | rejectSilent => rfl
  | rejectRst => simp
  | acceptPassive => rfl
  | defer => rfl

end Routes

theorem admitSyn_eq (e : SynEnv) (t : TcpSyncache) (l : SynListener) (a : SynArgs) (v : SynVars) :
    admitSyn e t l a v =
      let bucket := syncacheHashPromisc t a.inc a.m.fib a.m.l2i
      let t' := (allocSc e t bucket v.passive).1
      if Stored e t l a v then
        syncacheInsert e t' bucket (withCookie e v.passive (newEntry e l a v)) v.initialTimeout
      else t' :=
  rfl

theorem seen_fileEntry_iff (t : TcpSyncache) (bucket : BitVec 32) (x y : SyncacheEntry) :
    (fileEntry t bucket x).seen = (fileEntry t bucket y).seen ↔ x.seen = y.seen := by
  constructor
  · intro h
    have hsc := congrArg (fun s : TcpSyncache => s.sc t.nextSc) h
    simpa [TcpSyncache.seen, fileEntry, TcpSyncache.setSc] using hsc
  · intro h
    have hsc : (fun id => ((fileEntry t bucket x).sc id).seen) =
        fun id => ((fileEntry t bucket y).sc id).seen := by
      funext id
      by_cases hid : id = t.nextSc
      · subst hid
        simpa [fileEntry, TcpSyncache.setSc] using h
      · simp [fileEntry, TcpSyncache.setSc, hid]
    unfold TcpSyncache.seen
    rw [hsc]
    rfl

section

variable (e : SynEnv) (t : TcpSyncache) (bucket : BitVec 32)

theorem seen_syncacheInsert_iff (x y : SyncacheEntry) (n k : ℤ) :
    (syncacheInsert e t bucket x n).seen = (syncacheInsert e t bucket y k).seen ↔
      (syncacheTimeout e x n).seen = (syncacheTimeout e y k).seen :=
  seen_fileEntry_iff _ bucket _ _

theorem syncacheInsert_nextSc (x : SyncacheEntry) (n : ℤ) :
    (syncacheInsert e t bucket x n).nextSc = t.nextSc + 1 := by
  have hdrop : (dropLast t bucket).nextSc = t.nextSc := by
    unfold dropLast
    split <;> rfl
  unfold syncacheInsert
  dsimp only
  split
  · exact congrArg (· + 1) hdrop
  · rfl

/-- Two ways to go on from one table agree when they store the same entry or none. -/
theorem seen_stored_iff (x y : SyncacheEntry) (n k : ℤ) (p q : Prop) [Decidable p] [Decidable q] :
    (if p then syncacheInsert e t bucket x n else t).seen =
        (if q then syncacheInsert e t bucket y k else t).seen ↔
      (¬ p ∧ ¬ q) ∨ (p ∧ q ∧ (syncacheTimeout e x n).seen = (syncacheTimeout e y k).seen) := by
  have hgrows (z : SyncacheEntry) (i : ℤ) : (syncacheInsert e t bucket z i).seen ≠ t.seen := by
    intro h
    have hnext := congrArg TcpSyncache.nextSc h
    change (syncacheInsert e t bucket z i).nextSc = t.nextSc at hnext
    rw [syncacheInsert_nextSc] at hnext
    exact absurd hnext (Nat.succ_ne_self _)
  by_cases hp : p <;> by_cases hq : q
  · simp [hp, hq, seen_syncacheInsert_iff]
  · simpa [hp, hq] using hgrows x n
  · simpa [hp, hq] using (hgrows y k).symm
  · simp [hp, hq]

end

theorem withCookie_eq (e : SynEnv) (passive : Bool) (sc : SyncacheEntry) :
    ∃ iss ts tsoff, withCookie e passive sc =
      { sc with scIss := iss, scTs := ts, scTsoff := tsoff } := by
  unfold withCookie
  split
  · exact ⟨_, _, _, rfl⟩
  · exact ⟨_, _, _, rfl⟩

variable {x y : SyncacheEntry}

theorem seen_withCookie {e : SynEnv} (he : e.MarkBlind) (passive : Bool) (h : x.seen = y.seen) :
    (withCookie e passive x).seen = (withCookie e passive y).seen := by
  unfold withCookie
  split
  · rw [← he.syncookie x, ← he.syncookie y, h]
    change { x.seen with
      scIss := (e.syncookie y.seen).1
      scTs := (e.syncookie y.seen).2.1
      scTsoff := (e.syncookie y.seen).2.2 } = _
    rw [h]
    rfl
  · exact h

theorem seen_syncacheTimeout (e : SynEnv) (h : x.seen = y.seen) {n k : ℤ}
    (hdelay : (if 0 < n then n else e.rtobase x.scRxmits) =
      if 0 < k then k else e.rtobase x.scRxmits) :
    (syncacheTimeout e x n).seen = (syncacheTimeout e y k).seen := by
  change { x.seen with
    scRxttime := e.ticks + if 0 < n then n else e.rtobase x.scRxmits
    scRxmits := x.seen.scRxmits + 1 } = { y.seen with
    scRxttime := e.ticks + if 0 < k then k else e.rtobase y.seen.scRxmits
    scRxmits := y.seen.scRxmits + 1 }
  rw [hdelay, ← h]
  rfl

theorem respond_seen {e : SynEnv} (he : e.MarkBlind) (h : x.seen = y.seen) :
    syncacheRespond e x = syncacheRespond e y := by
  have hpassive := congrArg (fun sc : SyncacheEntry => sc.scfPassive) h
  change x.scfPassive = y.scfPassive at hpassive
  unfold syncacheRespond
  rw [hpassive, ← he.respond x, ← he.respond y, h]

/-- What the settings have to leave alone so that it does not matter when the SYN is
accepted.  A source route is lost on the way. -/
structure Harmless (e : SynEnv) (a : SynArgs) (cbarg : SynFilterCbarg) : Prop where
  srcroute : (ipSrcroute e.mGet a.m).1 = none
  altfib : cbarg.altfib.setWidth 16 = a.inc.incFibnum
  convert : a.inc.incPassive = true → cbarg.inc.incConvontmo = false
  timeout : a.inc.incPassive = false → 0 < cbarg.initialTimeout →
    cbarg.initialTimeout = e.rtobase 0

section Entries

variable {e : SynEnv} {l : SynListener} {a : SynArgs} {cbarg : SynFilterCbarg}

def SynArgs.Sets (a : SynArgs) (e : SynEnv) (cbarg : SynFilterCbarg) : Prop :=
  cbarg.inc = { a.inc with incSynfiltered := true, incConvontmo := cbarg.inc.incConvontmo } ∧
    cbarg.m = (ipSrcroute e.mGet a.m).2

theorem SynArgs.Sets.incPassive (h : a.Sets e cbarg) :
    cbarg.inc.incPassive = a.inc.incPassive := by
  rw [h.1]

/-- The SYN goes to the same bucket both times. -/
theorem SynArgs.Sets.bucket (h : a.Sets e cbarg) (t : TcpSyncache) :
    syncacheHashPromisc t (a.resubmitted cbarg).inc (a.resubmitted cbarg).m.fib
      (a.resubmitted cbarg).m.l2i = syncacheHashPromisc t a.inc a.m.fib a.m.l2i := by
  obtain ⟨-, hfib, hl2i⟩ := ipSrcroute_snd e.mGet a.m
  change syncacheHashPromisc t cbarg.inc cbarg.m.fib cbarg.m.l2i = _
  rw [h.2, hfib, hl2i, h.1]
  rfl

/-- The timeout with which a SYN is accepted at once. -/
theorem judged_initialTimeout (ha : a.FromInput) (hsets : a.Sets e cbarg) :
    ((a.vars e).judged .accept cbarg).initialTimeout =
      if a.inc.incPassive then cbarg.initialTimeout else -1 := by
  change (if cbarg.inc.incPassive = true then cbarg.initialTimeout else a.initialTimeout) = _
  rw [hsets.incPassive, ha.initialTimeout]

/-- The entries made at once and later differ in four fields. -/
theorem seen_newEntry (ha : a.FromInput) (hsets : a.Sets e cbarg) :
    (newEntry e l a ((a.vars e).judged .accept cbarg)).seen =
      { (newEntry e l (a.resubmitted cbarg) ((a.resubmitted cbarg).vars e)).seen with
        scIpopts := (ipSrcroute e.mGet a.m).1
        scAltfib := cbarg.altfib.setWidth 16
        scfNoTimeoutReset := a.inc.incPassive && decide (0 < cbarg.initialTimeout)
        scfConvertOnTimeout := false } := by
  have hreset : (a.inc.incPassive && decide
      (0 < if a.inc.incPassive = true then cbarg.initialTimeout else -1)) =
      (a.inc.incPassive && decide (0 < cbarg.initialTimeout)) := by
    cases a.inc.incPassive <;> simp
  rw [← judged_initialTimeout ha hsets] at hreset
  obtain ⟨-, hfib, hl2i⟩ := ipSrcroute_snd e.mGet a.m
  have hsame : (a.m.l2i.map fun l2i => a.m.l2i.getD l2i) = a.m.l2i := by
    cases a.m.l2i <;> rfl
  obtain ⟨inc, opt, th, m, timeout, altfib⟩ := cbarg
  obtain ⟨hinc, hm⟩ := hsets
  dsimp only at hinc hm
  generalize inc.incConvontmo = convontmo at hinc
  subst hinc hm
  rw [← hreset]
  unfold newEntry SyncacheEntry.seen
  simp only [SynArgs.vars, SynVars.judged, SynArgs.resubmitted, ha.incConvontmo, Bool.and_false,
    reduceCtorEq, decide_false, Bool.or_false, hfib, hl2i, hsame]
  rfl

/-- The values of these fields in the entry made later. -/
theorem resubmitted_newEntry (hsets : a.Sets e cbarg) :
    (newEntry e l (a.resubmitted cbarg) ((a.resubmitted cbarg).vars e)).scIpopts = none ∧
    (newEntry e l (a.resubmitted cbarg) ((a.resubmitted cbarg).vars e)).scAltfib = a.inc.incFibnum ∧
    (newEntry e l (a.resubmitted cbarg) ((a.resubmitted cbarg).vars e)).scfNoTimeoutReset =
      (a.inc.incPassive && decide (0 < cbarg.initialTimeout)) ∧
    (newEntry e l (a.resubmitted cbarg) ((a.resubmitted cbarg).vars e)).scfConvertOnTimeout =
      (a.inc.incPassive && cbarg.inc.incConvontmo) := by
  have hpassive : ((a.resubmitted cbarg).vars e).passive = a.inc.incPassive := hsets.incPassive
  have hfib : cbarg.inc.incFibnum = a.inc.incFibnum := by rw [hsets.1]
  refine ⟨?_, ?_, ?_, ?_⟩
  · change (ipSrcroute e.mGet cbarg.m).1 = none
    rw [hsets.2]
    exact (ipSrcroute_snd e.mGet a.m).1
  · rw [← hfib]
    change (cbarg.inc.incFibnum.setWidth 32).setWidth 16 = _
    simp
  · rw [← hpassive]
    rfl
  · rw [← hpassive]
    rfl

theorem seen_newEntry_of_harmless (ha : a.FromInput) (hsets : a.Sets e cbarg)
    (h : Harmless e a cbarg) :
    (newEntry e l a ((a.vars e).judged .accept cbarg)).seen =
      (newEntry e l (a.resubmitted cbarg) ((a.resubmitted cbarg).vars e)).seen := by
  have hentries := seen_newEntry (e := e) (l := l) ha hsets
  obtain ⟨hipopts, haltfib, hreset, hconvert⟩ := resubmitted_newEntry (l := l) hsets
  generalize newEntry e l (a.resubmitted cbarg) ((a.resubmitted cbarg).vars e) = y at *
  have hnever : y.scfConvertOnTimeout = false := by
    rw [hconvert]
    cases hp : a.inc.incPassive with
    | false => rfl
    | true => rw [h.convert hp]; rfl
  calc _ = { y.seen with
        scIpopts := y.scIpopts
        scAltfib := y.scAltfib
        scfNoTimeoutReset := y.scfNoTimeoutReset
        scfConvertOnTimeout := y.scfConvertOnTimeout } := by
          rw [hentries, h.srcroute, hipopts, h.altfib, haltfib, hreset, hnever]
    _ = y.seen := rfl

section

variable (he : e.MarkBlind) (ha : a.FromInput) (hsets : a.Sets e cbarg)
include he ha hsets

/-- Accepting at once and accepting later make the same entry exactly when the settings
are harmless. -/
theorem seen_accepted_iff :
    (syncacheTimeout e (withCookie e a.inc.incPassive
        (newEntry e l a ((a.vars e).judged .accept cbarg)))
        ((a.vars e).judged .accept cbarg).initialTimeout).seen =
      (syncacheTimeout e (withCookie e a.inc.incPassive
        (newEntry e l (a.resubmitted cbarg) ((a.resubmitted cbarg).vars e)))
        cbarg.initialTimeout).seen ↔
      Harmless e a cbarg := by
  have hentries := seen_newEntry (e := e) (l := l) ha hsets
  have hsame := seen_newEntry_of_harmless (e := e) (l := l) ha hsets
  obtain ⟨hipopts, haltfib, -, hconvert⟩ := resubmitted_newEntry (l := l) hsets
  have hzero : (newEntry e l a ((a.vars e).judged .accept cbarg)).scRxmits = 0 := rfl
  have hzero' : (newEntry e l (a.resubmitted cbarg) ((a.resubmitted cbarg).vars e)).scRxmits = 0 :=
    rfl
  generalize newEntry e l a ((a.vars e).judged .accept cbarg) = x at *
  generalize newEntry e l (a.resubmitted cbarg) ((a.resubmitted cbarg).vars e) = y at *
  obtain ⟨iss, ts, tsoff, hx⟩ := withCookie_eq e a.inc.incPassive x
  obtain ⟨iss', ts', tsoff', hy⟩ := withCookie_eq e a.inc.incPassive y
  rw [judged_initialTimeout ha hsets]
  constructor
  · intro h
    rw [hx, hy] at h
    have hI := congrArg SyncacheEntry.scIpopts h
    have hA := congrArg SyncacheEntry.scAltfib h
    have hC := congrArg SyncacheEntry.scfConvertOnTimeout h
    have hT := congrArg SyncacheEntry.scRxttime h
    have hxI := congrArg SyncacheEntry.scIpopts hentries
    have hxA := congrArg SyncacheEntry.scAltfib hentries
    have hxC := congrArg SyncacheEntry.scfConvertOnTimeout hentries
    change x.scIpopts = y.scIpopts at hI
    change x.scAltfib = y.scAltfib at hA
    change x.scfConvertOnTimeout = y.scfConvertOnTimeout at hC
    change x.scIpopts = (ipSrcroute e.mGet a.m).1 at hxI
    change x.scAltfib = cbarg.altfib.setWidth 16 at hxA
    change x.scfConvertOnTimeout = false at hxC
    refine ⟨?_, ?_, ?_, ?_⟩
    · rw [← hxI, hI, hipopts]
    · rw [← hxA, hA, haltfib]
    · intro hp
      rw [hxC, hconvert, hp] at hC
      exact hC.symm
    · intro hp hpos
      change e.ticks + (if 0 < _ then _ else e.rtobase x.scRxmits) =
        e.ticks + (if 0 < _ then _ else e.rtobase y.scRxmits) at hT
      rw [hzero, hzero', hp, if_pos hpos] at hT
      simpa using hT.symm
  · intro h
    apply seen_syncacheTimeout e (seen_withCookie he a.inc.incPassive (hsame h))
    have hrxmits : (withCookie e a.inc.incPassive x).scRxmits = 0 := by
      rw [hx]
      exact hzero
    rw [hrxmits]
    cases hp : a.inc.incPassive with
    | true => rfl
    | false =>
      by_cases hpos : 0 < cbarg.initialTimeout
      · simp [h.timeout hp hpos]
      · simp [hpos]

/-- Under harmless settings both routes store their entry, or none does. -/
theorem stored_iff_of_harmless (h : Harmless e a cbarg) (t : TcpSyncache) :
    Stored e t l a ((a.vars e).judged .accept cbarg) ↔
      Stored e t l (a.resubmitted cbarg) ((a.resubmitted cbarg).vars e) := by
  have hpassive : ((a.vars e).judged .accept cbarg).passive =
      ((a.resubmitted cbarg).vars e).passive := by
    change (a.inc.incPassive || false) = cbarg.inc.incPassive
    rw [Bool.or_false, hsets.incPassive]
  have hrespond := respond_seen he (seen_withCookie he ((a.resubmitted cbarg).vars e).passive
    (seen_newEntry_of_harmless (l := l) ha hsets h))
  unfold Stored
  rw [hpassive, hrespond]
  rw [hsets.bucket t]

end

end Entries

/-- The verdicts that have one outcome, given at once or later.  A SYN is accepted
alike when the settings are harmless, or when it finds no place in the table. -/
def TimingFree (e : SynEnv) (bandlim : Bool) (t : TcpSyncache) (l : SynListener) (a : SynArgs)
    (cbarg : SynFilterCbarg) : SynfDecision → Prop
  | .accept => Harmless e a cbarg ∨ (¬ Stored e t l a ((a.vars e).judged .accept cbarg) ∧
      ¬ Stored e t l (a.resubmitted cbarg) ((a.resubmitted cbarg).vars e))
  | .acceptPassive => False
  | .rejectRst => bandlim = true
  | .rejectSilent => True
  | .defer => False

theorem sameOutcome_accept {e : SynEnv} {l : SynListener} {a : SynArgs} {cbarg : SynFilterCbarg}
    (he : e.MarkBlind) (ha : a.FromInput) (hsets : a.Sets e cbarg) (bandlim : Bool)
    (t : TcpSyncache) :
    (admitSyn e t l a ((a.vars e).judged .accept cbarg)).seen =
        (admitSyn e t l (a.resubmitted cbarg) ((a.resubmitted cbarg).vars e)).seen ↔
      TimingFree e bandlim t l a cbarg .accept := by
  have hnow : ((a.vars e).judged .accept cbarg).passive = a.inc.incPassive := Bool.or_false _
  have hthen : ((a.resubmitted cbarg).vars e).passive = a.inc.incPassive := hsets.incPassive
  rw [admitSyn_eq, admitSyn_eq]
  dsimp only
  rw [hnow, hthen, hsets.bucket t, seen_stored_iff]
  change _ ∨ (_ ∧ _ ∧ _ = (syncacheTimeout e _ cbarg.initialTimeout).seen) ↔ _
  rw [seen_accepted_iff he ha hsets]
  constructor
  · rintro (hnone | ⟨-, -, h⟩)
    · exact .inr hnone
    · exact .inl h
  · rintro (h | hnone)
    · have hiff := stored_iff_of_harmless (l := l) he ha hsets h t
      by_cases hs : Stored e t l a ((a.vars e).judged .accept cbarg)
      · exact .inr ⟨hs, hiff.1 hs, h⟩
      · exact .inl ⟨hs, fun hs' => hs (hiff.2 hs')⟩
    · exact .inl hnone

def syn80 (passive : Bool) : SynArgs where
  inc := { conn80 with incPassive := passive }
  th := { thSeq := 1000 }
  m := taggedFrame .empty

def filterListener : SynListener := { promisc := true, synfilter := true }

/-- A SYN that came through 10.0.0.3. -/
def routedSyn : SynArgs :=
  { syn80 false with
    m := { taggedFrame .empty with ipoptTag := some ⟨0x83, 7, [0x0300000a], 0x0100000a⟩ } }

end Libuinet
