import Libuinet.SyncacheTags

namespace Libuinet

/-- What is released with `crfree`, `m_free` and `m_tag_free`. -/
inductive SynResource where
  | cred (ref : ℕ)
  | mbuf (id : ℕ)
  | tag (id : ℕ)
  deriving DecidableEq

/-- The pointers of an entry to what `syncache_free` releases. -/
structure ScRefs where
  scIpopts : Option ℕ := none
  scCred : Option ℕ := none
  scL2tag : Option ℕ := none

def ScRefs.resources (r : ScRefs) : List SynResource :=
  r.scIpopts.toList.map .mbuf ++ r.scCred.toList.map .cred ++ r.scL2tag.toList.map .tag

/-- The mbuf of a SYN, with its tag of L2 information. -/
structure SynMbuf where
  id : ℕ
  l2tag : Option ℕ

def SynMbuf.resources (m : SynMbuf) : List SynResource :=
  .mbuf m.id :: m.l2tag.toList.map .tag

/-- What comes with a SYN: the reference from `crhold`, the options from `ip_srcroute`, the mbuf and
its tag, if the frame has one. -/
structure SynRefs where
  cred : ℕ
  ipopts : Option ℕ
  m : ℕ
  l2tag : ℕ

def SynRefs.mbuf (r : SynRefs) (a : SynArgs) : SynMbuf := ⟨r.m, a.m.l2i.map fun _ => r.l2tag⟩

def SynRefs.resources (r : SynRefs) (a : SynArgs) : List SynResource :=
  .cred r.cred :: (r.ipopts.toList.map .mbuf ++ (r.mbuf a).resources)

/-- What the new entry takes over: the reference, the options, and for a promiscuous listener the
tag, which is unlinked from the mbuf. -/
def SynRefs.filled (r : SynRefs) (l : SynListener) (a : SynArgs) : ScRefs where
  scCred := some r.cred
  scIpopts := r.ipopts
  scL2tag := if l.promisc then (r.mbuf a).l2tag else none

def SynRefs.unlinked (r : SynRefs) (l : SynListener) (a : SynArgs) : SynMbuf :=
  if l.promisc then { r.mbuf a with l2tag := none } else r.mbuf a

/-- The syncache with what its entries hold, and what has been released. -/
structure SynStore where
  table : TcpSyncache
  refs : ScId → ScRefs := fun _ => {}
  released : List SynResource := []

/-- What a call leaves behind; the mbuf of a deferred SYN stays with the filter. -/
structure SynReturn where
  store : SynStore
  deferred : Option SynMbuf := none

namespace SynStore

variable (s : SynStore) (e : SynEnv) (l : SynListener) (a : SynArgs)

def release (xs : List SynResource) : SynStore :=
  { s with released := s.released ++ xs }

def syncacheFree (r : ScRefs) : SynStore := s.release r.resources

def syncacheDrop (s : SynStore) (id : ScId) : SynStore :=
  { s with table := Libuinet.syncacheDrop s.table id }.syncacheFree (s.refs id)

def dropLast (b : BitVec 32) : SynStore :=
  match (s.table.hashbase b).getLast? with
  | some id => s.syncacheDrop id
  | none => s

def syncacheInsert (b : BitVec 32) (sc : SyncacheEntry) (r : ScRefs) (initialTimeout : ℤ) :
    SynStore :=
  let s := if s.table.bucketLimit ≤ (s.table.hashbase b).length then s.dropLast b else s
  { s with
    table := fileEntry s.table b (syncacheTimeout e sc initialTimeout)
    refs := Function.update s.refs s.table.nextSc r }

def done (cred : Option ℕ) (m : Option SynMbuf) : SynStore :=
  s.release (cred.toList.map .cred ++ m.toList.flatMap SynMbuf.resources)

def newIpopts (id : ScId) : Option ℕ → SynStore
  | some o =>
    -- the options of the SYN before are forgotten
    { s.release ((s.refs id).scIpopts.toList.map .mbuf) with
      refs := Function.update s.refs id { s.refs id with scIpopts := some o } }
  | none => s

def answerSyn (b : BitVec 32) (storage : ScStorage) (sc : SyncacheEntry) (r : ScRefs)
    (v : SynVars) : SynStore :=
  if syncacheRespond e sc then
    if e.tcpSyncookies && e.tcpSyncookiesonly && storage = .zone && !v.passive then
      s.syncacheFree r
    else if storage = .zone then s.syncacheInsert e b sc r v.initialTimeout
    else s
  else if storage = .zone then s.syncacheFree r
  else s

/-- When the zone is exhausted the oldest entry of the bucket makes room. -/
def makeRoom (b : BitVec 32) : SynStore :=
  if e.zalloc then s else s.dropLast b

def admitSyn (r : SynRefs) (v : SynVars) : SynStore :=
  let b := syncacheHashPromisc s.table a.inc a.m.fib a.m.l2i
  let storage := (allocSc e s.table b v.passive).2
  let s := s.makeRoom e b
  if storage = .none then
    (s.release (r.ipopts.toList.map .mbuf)).done (some r.cred) (some (r.mbuf a))
  else
    let sc := withCookie e v.passive (newEntry e l a v)
    (s.answerSyn e b storage sc (r.filled l a) v).done none (some (r.unlinked l a))

def syncacheAdd (r : SynRefs) : SynReturn :=
  match syncacheLookup s.table a.inc a.m with
  | some id =>
    let s := s.newIpopts id r.ipopts
    let table := dupSyn e s.table a.opt (ipSrcroute e.mGet a.m).1 id
    ⟨{ s with table }.done (some r.cred) (some (r.mbuf a)), none⟩
  | none =>
    match runFilter e l a with
    -- the mbuf is not freed before there is a verdict
    | .error (some _) =>
      ⟨(s.release (r.ipopts.toList.map .mbuf)).done (some r.cred) none, some (r.mbuf a)⟩
    | .error none =>
      ⟨(s.release (r.ipopts.toList.map .mbuf)).done (some r.cred) (some (r.mbuf a)), none⟩
    | .ok v => ⟨s.admitSyn e l a r v, none⟩

section

variable (b : BitVec 32)

theorem dropLast_table : (s.dropLast b).table = Libuinet.dropLast s.table b := by
  unfold dropLast Libuinet.dropLast
  cases (s.table.hashbase b).getLast? <;> rfl

section

variable (sc : SyncacheEntry) (r : ScRefs)

theorem syncacheInsert_table (initialTimeout : ℤ) :
    (s.syncacheInsert e b sc r initialTimeout).table =
      Libuinet.syncacheInsert e s.table b sc initialTimeout := by
  unfold syncacheInsert Libuinet.syncacheInsert
  by_cases hfull : s.table.bucketLimit ≤ (s.table.hashbase b).length
  · simp only [if_pos hfull, dropLast_table]
  · simp only [if_neg hfull]

/-- An entry from the zone is inserted or freed. -/
theorem answerSyn_zone (v : SynVars) :
    s.answerSyn e b .zone sc r v =
      if syncacheRespond e sc ∧ !(e.tcpSyncookies && e.tcpSyncookiesonly && !v.passive) then
        s.syncacheInsert e b sc r v.initialTimeout
      else s.syncacheFree r := by
  unfold answerSyn
  cases syncacheRespond e sc <;> cases e.tcpSyncookies <;> cases e.tcpSyncookiesonly <;>
    cases v.passive <;> rfl

/-- One on the stack is neither. -/
theorem answerSyn_stack (v : SynVars) : s.answerSyn e b .stack sc r v = s := by
  simp [answerSyn]

end

theorem makeRoom_table (passive : Bool) :
    (s.makeRoom e b).table = (allocSc e s.table b passive).1 := by
  unfold makeRoom allocSc
  by_cases he : e.zalloc = true
  · rw [if_pos he, if_pos he]
  · rw [if_neg he, if_neg he, dropLast_table]

end

@[simp] theorem release_table (xs : List SynResource) : (s.release xs).table = s.table := rfl

@[simp] theorem done_table (cred : Option ℕ) (m : Option SynMbuf) :
    (s.done cred m).table = s.table := rfl

theorem admitSyn_table (r : SynRefs) (v : SynVars) :
    (s.admitSyn e l a r v).table = Libuinet.admitSyn e s.table l a v := by
  unfold admitSyn Libuinet.admitSyn
  dsimp only
  rw [← makeRoom_table]
  generalize (allocSc e s.table _ v.passive).2 = storage
  cases storage with
  | none => rfl
  | stack =>
    rw [answerSyn_stack]
    rfl
  | zone =>
    rw [answerSyn_zone]
    simp only [reduceCtorEq, if_false, true_and, done_table]
    split_ifs
    · exact syncacheInsert_table _ e _ _ _ _
    · rfl

/-- The table is the one that `_syncache_add` leaves behind. -/
theorem syncacheAdd_table (r : SynRefs) :
    (s.syncacheAdd e l a r).store.table = (Libuinet.syncacheAdd e s.table l a).table := by
  unfold syncacheAdd Libuinet.syncacheAdd
  cases syncacheLookup s.table a.inc a.m with
  | some id => cases r.ipopts <;> rfl
  | none =>
    cases runFilter e l a with
    | error verdict => cases verdict <;> rfl
    | ok v => exact admitSyn_table s e l a r v

def Present (id : ScId) : Prop := ∃ b, id ∈ s.table.hashbase b

/-- Neither released nor held by an entry. -/
structure Clear (s : SynStore) (x : SynResource) : Prop where
  live : x ∉ s.released
  unheld : ∀ id, s.Present id → x ∉ (s.refs id).resources

end SynStore

/-- A resource has been released once, or one entry holds it, or it is left with the mbuf of a
deferred SYN. -/
inductive SynReturn.Settled (o : SynReturn) (x : SynResource) : Prop
  | released (hone : o.store.released.count x = 1)
      (hheld : ∀ id, o.store.Present id → x ∉ (o.store.refs id).resources)
      (hleft : ∀ m ∈ o.deferred, x ∉ m.resources)
  | owned (id : ScId) (hid : o.store.Present id) (hone : (o.store.refs id).resources.count x = 1)
      (honly : ∀ j, o.store.Present j → x ∈ (o.store.refs j).resources → j = id)
      (hlive : x ∉ o.store.released) (hleft : ∀ m ∈ o.deferred, x ∉ m.resources)
  | left (m : SynMbuf) (hm : o.deferred = some m) (hone : m.resources.count x = 1)
      (hclear : o.store.Clear x)

namespace SynStore

structure Arrives (s : SynStore) (a : SynArgs) (r : SynRefs) : Prop where
  nodup : (r.resources a).Nodup
  clear : ∀ x ∈ r.resources a, s.Clear x

variable {s : SynStore} {e : SynEnv} {b : BitVec 32} {x : SynResource}

theorem Clear.release (h : s.Clear x) {xs : List SynResource} (hx : x ∉ xs) :
    (s.release xs).Clear x :=
  ⟨by simp [SynStore.release, h.live, hx], h.unheld⟩

/-- Entries have been dropped to make room. -/
structure Trims (s s' : SynStore) : Prop where
  refs : s'.refs = s.refs
  nextSc : s'.table.nextSc = s.table.nextSc
  present : ∀ id, s'.Present id → s.Present id
  clear : ∀ x, s.Clear x → s'.Clear x

theorem Trims.refl (s : SynStore) : s.Trims s := ⟨rfl, rfl, fun _ h => h, fun _ h => h⟩

theorem trims_syncacheDrop {id : ScId} (h : s.Present id) : s.Trims (s.syncacheDrop id) := by
  have hpresent (j : ScId) (hj : (s.syncacheDrop id).Present j) : s.Present j := by
    obtain ⟨b', hj⟩ := hj
    exact ⟨b', List.mem_of_mem_erase hj⟩
  refine ⟨rfl, rfl, hpresent, fun x hx => ⟨?_, fun j hj => hx.unheld j (hpresent j hj)⟩⟩
  change x ∉ s.released ++ (s.refs id).resources
  simp [hx.live, hx.unheld id h]

theorem trims_dropLast (s : SynStore) (b : BitVec 32) : s.Trims (s.dropLast b) := by
  unfold dropLast
  split
  · next id hlast => exact trims_syncacheDrop ⟨b, List.mem_of_getLast? hlast⟩
  · exact Trims.refl s

section

variable (s : SynStore) (e : SynEnv) (b : BitVec 32)

theorem trims_makeRoom : s.Trims (s.makeRoom e b) := by
  unfold makeRoom
  split_ifs
  · exact Trims.refl s
  · exact trims_dropLast s b

/-- What the insertion of an entry does to the store. -/
theorem syncacheInsert_cases (sc : SyncacheEntry) (r : ScRefs) (initialTimeout : ℤ) :
    let s' := s.syncacheInsert e b sc r initialTimeout
    s'.refs = Function.update s.refs s.table.nextSc r ∧ s'.Present s.table.nextSc ∧
      (∀ id, s'.Present id → id = s.table.nextSc ∨ s.Present id) ∧
      ∀ x, s.Clear x → x ∉ s'.released := by
  obtain ⟨t, htrims, heq⟩ : ∃ t, s.Trims t ∧ s.syncacheInsert e b sc r initialTimeout =
      { t with
        table := fileEntry t.table b (syncacheTimeout e sc initialTimeout)
        refs := Function.update t.refs t.table.nextSc r } := by
    unfold syncacheInsert
    dsimp only
    split_ifs
    · exact ⟨_, trims_dropLast s b, rfl⟩
    · exact ⟨s, Trims.refl s, rfl⟩
  rw [heq]
  have hrows (b' : BitVec 32) : (fileEntry t.table b
      (syncacheTimeout e sc initialTimeout)).hashbase b' =
      if b' = b then t.table.nextSc :: t.table.hashbase b' else t.table.hashbase b' := rfl
  refine ⟨by rw [htrims.refs, htrims.nextSc], ⟨b, ?_⟩, fun id ⟨b', hid⟩ => ?_,
    fun x hx => (htrims.clear x hx).live⟩
  · rw [hrows, if_pos rfl, htrims.nextSc]
    exact List.mem_cons_self
  · rw [hrows] at hid
    split_ifs at hid
    · rcases List.mem_cons.mp hid with rfl | hid
      · exact .inl htrims.nextSc
      · exact .inr (htrims.present id ⟨b', hid⟩)
    · exact .inr (htrims.present id ⟨b', hid⟩)

end

end SynStore

section Exits

variable {s : SynStore} {x : SynResource} {a : SynArgs} {r : SynRefs}

theorem count_resources (h : s.Arrives a r) (hx : x ∈ r.resources a) :
    (r.resources a).count x = 1 :=
  List.count_eq_one_of_mem h.nodup hx

/-- What is the entry's and what stays with the mbuf. -/
theorem count_filled_add (r : SynRefs) (l : SynListener) (a : SynArgs) (x : SynResource) :
    (r.filled l a).resources.count x + (r.unlinked l a).resources.count x =
      (r.resources a).count x := by
  unfold SynRefs.filled SynRefs.unlinked
  cases l.promisc <;>
    simp only [SynRefs.resources, ScRefs.resources, SynMbuf.resources, List.count_cons,
      List.count_append, Option.toList_some, Option.toList_none, List.map_cons, List.map_nil,
      List.count_nil, if_true, if_false, Bool.false_eq_true] <;>
    omega

/-- Everything that is left is released. -/
theorem SynStore.Clear.settled (h : s.Clear x) (xs : List SynResource)
    (hone : xs.count x = 1) : (⟨s.release xs, none⟩ : SynReturn).Settled x := by
  refine .released ?_ h.unheld (by simp)
  change (s.released ++ xs).count x = 1
  rw [List.count_append, List.count_eq_zero.mpr h.live, hone]

/-- Nobody has it any more. -/
theorem SynStore.Clear.not_settled (h : s.Clear x) : ¬ (⟨s, none⟩ : SynReturn).Settled x := by
  rintro (⟨hone, -, -⟩ | ⟨id, hid, hone, -, -, -⟩ | ⟨m, hm, -, -⟩)
  · rw [List.count_eq_zero.mpr h.live] at hone
    cases hone
  · rw [List.count_eq_zero.mpr (h.unheld id hid)] at hone
    cases hone
  · cases hm

section

variable (h : s.Arrives a r)
include h

/-- A SYN that is rejected, or for which there is no storage. -/
theorem settled_rejected {t : SynStore} (ht : ∀ x, s.Clear x → t.Clear x) (hx : x ∈ r.resources a) :
    (⟨(t.release (r.ipopts.toList.map .mbuf)).done (some r.cred) (some (r.mbuf a)), none⟩ :
      SynReturn).Settled x := by
  have hone := count_resources h hx
  have hall := (ht x (h.clear x hx)).settled
    (r.ipopts.toList.map .mbuf ++ (.cred r.cred :: (r.mbuf a).resources)) (by
      simp only [SynRefs.resources, List.count_cons, List.count_append] at hone ⊢
      omega)
  simpa [SynStore.done, SynStore.release] using hall

theorem settled_deferred (hx : x ∈ r.resources a) :
    (⟨(s.release (r.ipopts.toList.map .mbuf)).done (some r.cred) none, some (r.mbuf a)⟩ :
      SynReturn).Settled x := by
  have hone := count_resources h hx
  have hclear := h.clear x hx
  have hreleased : ((s.release (r.ipopts.toList.map .mbuf)).done (some r.cred) none).released =
      s.released ++ (r.ipopts.toList.map .mbuf ++ [.cred r.cred]) := by
    simp [SynStore.done, SynStore.release]
  simp only [SynRefs.resources, List.count_cons, List.count_append] at hone
  by_cases hleft : x ∈ (r.mbuf a).resources
  · have hpos := List.count_pos_iff.mpr hleft
    have hnot : x ∉ r.ipopts.toList.map .mbuf ++ [.cred r.cred] := by
      rw [← List.count_eq_zero, List.count_append, List.count_singleton]
      omega
    refine .left (r.mbuf a) rfl (by omega) ⟨?_, hclear.unheld⟩
    rw [hreleased, List.mem_append]
    exact not_or.mpr ⟨hclear.live, hnot⟩
  · have hzero := List.count_eq_zero.mpr hleft
    refine .released ?_ hclear.unheld ?_
    · rw [hreleased, List.count_append, List.count_append, List.count_singleton,
        List.count_eq_zero.mpr hclear.live]
      omega
    · rintro m ⟨⟩
      exact hleft

/-- Another SYN of a connection: the entry takes its options. -/
theorem settled_duplicate {id : ScId} (hid : s.Present id) (t : TcpSyncache)
    (ht : t.hashbase = s.table.hashbase) (hx : x ∈ r.resources a) :
    (⟨{ s.newIpopts id r.ipopts with table := t }.done (some r.cred) (some (r.mbuf a)), none⟩ :
      SynReturn).Settled x := by
  have hone := count_resources h hx
  have hclear := h.clear x hx
  have hrows {s' : SynStore} (hs' : s'.table = t) {j : ScId} (hj : s'.Present j) :
      s.Present j := by
    obtain ⟨b, hj⟩ := hj
    rw [hs', ht] at hj
    exact ⟨b, hj⟩
  have hrest : (SynResource.cred r.cred :: (r.mbuf a).resources).count x +
      (r.ipopts.toList.map .mbuf).count x = 1 := by
    simp only [SynRefs.resources, List.count_cons, List.count_append] at hone ⊢
    omega
  cases hopts : r.ipopts with
  | none =>
    have hclear' : ({ s with table := t } : SynStore).Clear x :=
      ⟨hclear.live, fun j hj => hclear.unheld j (hrows rfl hj)⟩
    have hall := hclear'.settled (.cred r.cred :: (r.mbuf a).resources) (by
      rw [hopts] at hrest
      simpa using hrest)
    simpa [SynStore.newIpopts, SynStore.done, SynStore.release] using hall
  | some o =>
    rw [hopts] at hrest
    have hstale : x ∉ (s.refs id).scIpopts.toList.map SynResource.mbuf := by
      have hheld := hclear.unheld id hid
      simp only [ScRefs.resources, List.mem_append, not_or] at hheld
      exact hheld.1.1
    have hself : (({ s.newIpopts id (some o) with table := t } : SynStore).refs id).resources =
        .mbuf o ::
          ((s.refs id).scCred.toList.map .cred ++ (s.refs id).scL2tag.toList.map .tag) := by
      simp [SynStore.newIpopts, ScRefs.resources]
    have hother {j : ScId} (hj : s.Present j) (hne : j ≠ id) :
        x ∉ (({ s.newIpopts id (some o) with table := t } : SynStore).refs j).resources := by
      simpa [SynStore.newIpopts, hne] using hclear.unheld j hj
    by_cases hxo : x = .mbuf o
    · subst hxo
      have hout : SynResource.mbuf o ∉ SynResource.cred r.cred :: (r.mbuf a).resources := by
        rw [← List.count_eq_zero]
        simpa using hrest
      obtain ⟨b, hb⟩ := hid
      refine .owned id ⟨b, ?_⟩ ?_ (fun j hj hmem => ?_) ?_ (by simp)
      · change id ∈ t.hashbase b
        rwa [ht]
      · change (({ s.newIpopts id (some o) with table := t } : SynStore).refs
          id).resources.count _ = 1
        rw [hself, List.count_cons_self, List.count_eq_zero.mpr (by simp)]
      · by_contra hne
        exact hother (hrows rfl hj) hne hmem
      · have hlive := hclear.live
        simp_all [SynStore.newIpopts, SynStore.done, SynStore.release]
    · have hclear' : ({ s.newIpopts id (some o) with table := t } : SynStore).Clear x := by
        refine ⟨?_, fun j hj => ?_⟩
        · change x ∉ s.released ++ _
          exact List.not_mem_append hclear.live hstale
        · by_cases hne : j = id
          · have hheld := hclear.unheld id hid
            rw [hne, hself]
            simp only [ScRefs.resources, List.mem_append, not_or] at hheld
            simp only [List.mem_cons, List.mem_append, not_or]
            exact ⟨hxo, hheld.1.2, hheld.2⟩
          · exact hother (hrows rfl hj) hne
      have hall := hclear'.settled (.cred r.cred :: (r.mbuf a).resources) (by
        have hzero : (List.map SynResource.mbuf (some o).toList).count x = 0 := by
          rw [List.count_eq_zero]
          simpa using hxo
        omega)
      simpa [SynStore.done, SynStore.release] using hall

/-- The entry from the zone has been freed or is in the cache. -/
theorem settled_answered {t : SynStore} (ht : s.Trims t) (e : SynEnv) (b : BitVec 32)
    (sc : SyncacheEntry) (l : SynListener) (v : SynVars) (hx : x ∈ r.resources a) :
    (⟨(t.answerSyn e b .zone sc (r.filled l a) v).done none (some (r.unlinked l a)), none⟩ :
      SynReturn).Settled x := by
  have hone := (count_filled_add r l a x).trans (count_resources h hx)
  have hclear := ht.clear x (h.clear x hx)
  rw [SynStore.answerSyn_zone]
  split_ifs
  · obtain ⟨hrefs, hnew, hpresent, hlive⟩ := t.syncacheInsert_cases e b sc (r.filled l a)
      v.initialTimeout
    generalize t.syncacheInsert e b sc (r.filled l a) v.initialTimeout = t' at *
    have hold {j : ScId} (hj : t'.Present j) (hne : j ≠ t.table.nextSc) :
        x ∉ (t'.refs j).resources := by
      rw [hrefs, Function.update_of_ne hne]
      exact hclear.unheld j ((hpresent j hj).resolve_left hne)
    have hself : t'.refs t.table.nextSc = r.filled l a := by
      rw [hrefs, Function.update_self]
    by_cases hin : x ∈ (r.filled l a).resources
    · have hpos := List.count_pos_iff.mpr hin
      have hout : x ∉ (r.unlinked l a).resources := List.count_eq_zero.mp (by omega)
      refine .owned t.table.nextSc hnew ?_ (fun j hj hmem => ?_) ?_ (by simp)
      · change (t'.refs t.table.nextSc).resources.count x = 1
        rw [hself]
        omega
      · by_contra hne
        exact hold hj hne hmem
      · simpa [SynStore.done, SynStore.release, hout] using hlive x hclear
    · have hzero := List.count_eq_zero.mpr hin
      have hclear' : t'.Clear x := by
        refine ⟨hlive x hclear, fun j hj => ?_⟩
        by_cases hne : j = t.table.nextSc
        · rw [hne, hself]
          exact hin
        · exact hold hj hne
      have hall := hclear'.settled (r.unlinked l a).resources (by omega)
      simpa [SynStore.done, SynStore.release] using hall
  · have hall := hclear.settled ((r.filled l a).resources ++ (r.unlinked l a).resources)
      (by rw [List.count_append]; omega)
    simpa [SynStore.done, SynStore.release, SynStore.syncacheFree] using hall

end

end Exits

def SynStore.OnStack (s : SynStore) (e : SynEnv) (l : SynListener) (a : SynArgs) : Prop :=
  syncacheLookup s.table a.inc a.m = none ∧
    (∃ v, runFilter e l a = .ok v ∧ v.passive = false) ∧
    e.zalloc = false ∧ e.zallocRetry = false ∧ e.tcpSyncookies = true

/-- Where the storage comes from. -/
theorem allocSc_storage (e : SynEnv) (t : TcpSyncache) (b : BitVec 32) (passive : Bool) :
    (allocSc e t b passive).2 = .stack ↔
      passive = false ∧ e.zalloc = false ∧ e.zallocRetry = false ∧ e.tcpSyncookies = true := by
  unfold allocSc
  cases e.zalloc <;> cases e.zallocRetry <;> cases e.tcpSyncookies <;> cases passive <;> simp

/-- Whatever comes with a SYN is released once or has one owner, unless the entry is on the
stack. -/
theorem syncache_add_settles_iff (s : SynStore) (e : SynEnv) (l : SynListener) (a : SynArgs)
    (r : SynRefs) (h : s.Arrives a r) :
    (∀ x ∈ r.resources a, (s.syncacheAdd e l a r).Settled x) ↔ ¬ s.OnStack e l a := by
  unfold SynStore.syncacheAdd SynStore.OnStack
  cases hfound : syncacheLookup s.table a.inc a.m with
  | some id =>
    simp only [reduceCtorEq, false_and, not_false_eq_true, iff_true]
    intro x hx
    exact settled_duplicate h ⟨_, List.mem_of_find?_eq_some hfound⟩ _
      (by cases r.ipopts <;> rfl) hx
  | none =>
    cases hv : runFilter e l a with
    | error verdict =>
      simp only [reduceCtorEq, false_and, exists_false, and_false, not_false_eq_true, iff_true]
      intro x hx
      cases verdict with
      | none => exact settled_rejected h (fun _ hx => hx) hx
      | some arg => exact settled_deferred h hx
    | ok v =>
      simp only [Except.ok.injEq, true_and, exists_eq_left']
      rw [← allocSc_storage e s.table (syncacheHashPromisc s.table a.inc a.m.fib a.m.l2i)]
      unfold SynStore.admitSyn
      dsimp only
      have htrims := s.trims_makeRoom e (syncacheHashPromisc s.table a.inc a.m.fib a.m.l2i)
      generalize (allocSc e s.table _ v.passive).2 = storage
      cases storage with
      | none =>
        simp only [reduceCtorEq, if_true, not_false_eq_true, iff_true]
        exact fun x hx => settled_rejected h htrims.clear hx
      | zone =>
        simp only [reduceCtorEq, if_false, not_false_eq_true, iff_true]
        exact fun x hx => settled_answered h htrims e _ _ l v hx
      | stack =>
        simp only [reduceCtorEq, if_false, not_true_eq_false, iff_false]
        intro hall
        rw [SynStore.answerSyn_stack] at hall
        have hcred : SynResource.cred r.cred ∈ r.resources a := List.mem_cons_self
        have hout : SynResource.cred r.cred ∉ (r.unlinked l a).resources := by
          simp [SynMbuf.resources]
        -- the reference went to the entry, and the entry is gone
        refine ((htrims.clear _ (h.clear _ hcred)).release hout).not_settled ?_
        simpa [SynStore.done, SynStore.release] using hall _ hcred

def optionsSyn : SynArgs where
  inc := conn80
  th := { thSeq := 1000 }
  m := taggedFrame vlan5

def optionsRefs : SynRefs where
  cred := 7
  ipopts := some 1
  m := 2
  l2tag := 3

theorem optionsSyn_arrives :
    SynStore.Arrives { table := emptySyncache } optionsSyn optionsRefs := by
  refine ⟨by decide, fun x _ => ⟨by simp, ?_⟩⟩
  rintro id ⟨b, hid⟩
  cases hid

/-- The entry holds the reference, the options and the tag. -/
theorem syncache_add_settles_inserted :
    let o := SynStore.syncacheAdd { table := emptySyncache } {} { promisc := true } optionsSyn
      optionsRefs
    (o.store.refs 0).resources = [.mbuf 1, .cred 7, .tag 3] ∧ o.store.released = [.mbuf 2] ∧
      ∀ x ∈ optionsRefs.resources optionsSyn, o.Settled x := by
  refine ⟨by decide +kernel, by decide +kernel,
    (syncache_add_settles_iff _ {} _ _ _ optionsSyn_arrives).mpr ?_⟩
  rintro ⟨-, -, hzalloc, -⟩
  cases hzalloc

/-- The zone is exhausted, and the SYN is answered with a cookie from the stack. -/
theorem syncache_add_loses_reference :
    let o := SynStore.syncacheAdd { table := emptySyncache }
      { zalloc := false, zallocRetry := false } { promisc := true } optionsSyn optionsRefs
    o.store.released = [.mbuf 2] ∧ (∀ b, o.store.table.hashbase b = []) ∧ o.deferred = none ∧
      ∀ x ∈ [SynResource.cred 7, .mbuf 1, .tag 3], x ∈ optionsRefs.resources optionsSyn ∧
        ¬ o.Settled x := by
  intro o
  have hreleased : o.store.released = [.mbuf 2] := by decide +kernel
  have hrows (b : BitVec 32) : o.store.table.hashbase b = [] := rfl
  refine ⟨hreleased, hrows, rfl, fun x hx => ⟨?_, ?_⟩⟩
  · have hsub : [SynResource.cred 7, .mbuf 1, .tag 3] ⊆ optionsRefs.resources optionsSyn := by
      decide
    exact hsub hx
  · have hclear : o.store.Clear x := by
      refine ⟨fun hmem => ?_, fun id ⟨b, hid⟩ => ?_⟩
      · rw [hreleased, List.mem_singleton] at hmem
        subst hmem
        revert hx
        decide
      · rw [hrows] at hid
        cases hid
    exact hclear.not_settled

end Libuinet
