import Libuinet.SyncacheTable
import Libuinet.Execution
import Mathlib.Data.List.Pairwise

namespace Libuinet

open Execution

/-- Part of the key of an entry that nothing changes after the entry has been made. -/
def SyncacheEntry.place (sc : SyncacheEntry) :
    (BitVec 32 × BitVec 16 × BitVec 32 × BitVec 16) × BitVec 16 × Option L2info :=
  ((sc.scInc.incFaddr, sc.scInc.incFport, sc.scInc.incLaddr, sc.scInc.incLport), sc.scFib,
    sc.scL2tag)

def SyncacheEntry.ofConn (sc : SyncacheEntry) (inc : InConninfo) (fib : BitVec 16) : Bool :=
  endptsEq inc sc.scInc && fib = sc.scFib

def SyncacheEntry.tags (sc : SyncacheEntry) : List (BitVec 32) :=
  significant (stackTags (tagstackOf sc.scL2tag))

def TcpSyncache.bucketOf (t : TcpSyncache) (sc : SyncacheEntry) : BitVec 32 :=
  syncacheHashPromisc t sc.scInc sc.scFib sc.scL2tag

variable {bucket : BitVec 32} {a b sc : SyncacheEntry}

theorem ofConn_congr (h : a.place = b.place) (inc : InConninfo) (fib : BitVec 16) :
    a.ofConn inc fib = b.ofConn inc fib := by
  simp only [SyncacheEntry.place, Prod.mk.injEq] at h
  simp [SyncacheEntry.ofConn, endptsEq, h]

theorem tags_congr (h : a.place = b.place) : a.tags = b.tags := by
  simp only [SyncacheEntry.place, Prod.mk.injEq] at h
  simp [SyncacheEntry.tags, h]

theorem bucketOf_congr {t t' : TcpSyncache} (hmask : t'.hashmask = t.hashmask)
    (hsecret : t'.hashSecret = t.hashSecret) (h : a.place = b.place) :
    t'.bucketOf a = t.bucketOf b := by
  simp only [SyncacheEntry.place, Prod.mk.injEq] at h
  simp [TcpSyncache.bucketOf, syncacheHashPromisc, syncacheSeed, syncacheHash, h, hmask, hsecret]

theorem syncacheMatch_iff (inc : InConninfo) (m : FrameMbuf) (sc : SyncacheEntry) :
    syncacheMatch inc m sc = true ↔
      sc.ofConn inc m.fib = true ∧ significant (stackTags (tagstackOf m.l2i)) = sc.tags := by
  simp only [syncacheMatch, SyncacheEntry.ofConn, SyncacheEntry.tags, Bool.and_eq_true,
    decide_eq_true_eq, inPromiscTagcmp_eq_zero_iff]
  constructor
  · rintro ⟨⟨hfib, htags⟩, hends⟩
    exact ⟨⟨hends, hfib⟩, htags⟩
  · rintro ⟨⟨hends, hfib⟩, htags⟩
    exact ⟨⟨hfib, htags⟩, hends⟩

/-- The entries of a connection are in the buckets of their frames, and no two in one
bucket have tags that compare equal. -/
structure TcpSyncache.Sound (t : TcpSyncache) (inc : InConninfo) (fib : BitVec 16) : Prop where
  fresh : ∀ b, ∀ id ∈ t.hashbase b, id < t.nextSc
  placed : ∀ b, ∀ id ∈ t.hashbase b, (t.sc id).ofConn inc fib = true → t.bucketOf (t.sc id) = b
  distinct : ∀ b, (t.hashbase b).Pairwise fun i j => (t.sc i).ofConn inc fib = true →
    (t.sc j).ofConn inc fib = true → (t.sc i).tags ≠ (t.sc j).tags

variable {t : TcpSyncache} {inc : InConninfo} {fib : BitVec 16}

theorem TcpSyncache.Sound.tags_ne (h : t.Sound inc fib) {b : BitVec 32} {i j : ScId}
    (hi : i ∈ t.hashbase b) (hj : j ∈ t.hashbase b) (hij : i ≠ j)
    (hic : (t.sc i).ofConn inc fib = true) (hjc : (t.sc j).ofConn inc fib = true) :
    (t.sc i).tags ≠ (t.sc j).tags := by
  have hsymm : Std.Symm fun i k : ScId => (t.sc i).ofConn inc fib = true →
      (t.sc k).ofConn inc fib = true → (t.sc i).tags ≠ (t.sc k).tags :=
    ⟨fun i k hik hk hi => (hik hi hk).symm⟩
  exact (h.distinct b).forall hi hj hij hic hjc

theorem place_setSc (t : TcpSyncache) (id : ScId) (hsc : sc.place = (t.sc id).place) (j : ScId) :
    ((t.setSc id sc).sc j).place = (t.sc j).place := by
  by_cases hj : j = id
  · subst hj
    simpa [TcpSyncache.setSc] using hsc
  · simp [TcpSyncache.setSc, hj]

section

variable (h : t.Sound inc fib)
include h

/-- Entries may change, except for their key. -/
theorem TcpSyncache.Sound.setSc (id : ScId) (hsc : sc.place = (t.sc id).place) :
    (t.setSc id sc).Sound inc fib := by
  have hplace := place_setSc t id hsc
  refine ⟨h.fresh, ?_, ?_⟩
  · intro b j hj hconn
    rw [ofConn_congr (hplace j)] at hconn
    rw [bucketOf_congr rfl rfl (hplace j)]
    exact h.placed b j hj hconn
  · intro b
    apply (h.distinct b).imp
    intro i j hij hi hj
    rw [ofConn_congr (hplace i)] at hi
    rw [ofConn_congr (hplace j)] at hj
    rw [tags_congr (hplace i), tags_congr (hplace j)]
    exact hij hi hj

theorem TcpSyncache.Sound.drop (id : ScId) : (syncacheDrop t id).Sound inc fib := by
  have hmem {b : BitVec 32} {j : ScId} (hj : j ∈ (syncacheDrop t id).hashbase b) :
      j ∈ t.hashbase b := List.mem_of_mem_erase hj
  refine ⟨fun b j hj => h.fresh b j (hmem hj), fun b j hj => h.placed b j (hmem hj), ?_⟩
  intro b
  exact (h.distinct b).sublist List.erase_sublist

theorem TcpSyncache.Sound.dropLast (bucket : BitVec 32) : (dropLast t bucket).Sound inc fib := by
  unfold Libuinet.dropLast
  split
  · exact h.drop _
  · exact h

/-- A new entry, in the bucket of its frame. -/
theorem TcpSyncache.Sound.file (hbucket : sc.ofConn inc fib = true → t.bucketOf sc = bucket)
    (hnew : sc.ofConn inc fib = true → ∀ id ∈ t.hashbase bucket,
      (t.sc id).ofConn inc fib = true → sc.tags ≠ (t.sc id).tags) :
    (fileEntry t bucket sc).Sound inc fib := by
  have hself : (fileEntry t bucket sc).sc t.nextSc = sc := by
    simp [fileEntry, TcpSyncache.setSc]
  have hold {b : BitVec 32} {j : ScId} (hj : j ∈ t.hashbase b) :
      (fileEntry t bucket sc).sc j = t.sc j := by
    have hne : j ≠ t.nextSc := Nat.ne_of_lt (h.fresh b j hj)
    simp [fileEntry, TcpSyncache.setSc, hne]
  have hchain (b : BitVec 32) : (fileEntry t bucket sc).hashbase b =
      if b = bucket then t.nextSc :: t.hashbase b else t.hashbase b := rfl
  refine ⟨?_, ?_, ?_⟩
  · intro b j hj
    rw [hchain] at hj
    change j < t.nextSc + 1
    split at hj
    · rcases List.mem_cons.1 hj with rfl | hj
      · exact Nat.lt_succ_self _
      · exact Nat.lt_succ_of_lt (h.fresh b j hj)
    · exact Nat.lt_succ_of_lt (h.fresh b j hj)
  · intro b j hj hconn
    rw [hchain] at hj
    split at hj
    · next hb =>
      rcases List.mem_cons.1 hj with rfl | hj
      · rw [hself] at hconn ⊢
        exact (hbucket hconn).trans hb.symm
      · rw [hold hj] at hconn ⊢
        exact h.placed b j hj hconn
    · rw [hold hj] at hconn ⊢
      exact h.placed b j hj hconn
  · intro b
    have hrest : (t.hashbase b).Pairwise fun i j =>
        ((fileEntry t bucket sc).sc i).ofConn inc fib = true →
        ((fileEntry t bucket sc).sc j).ofConn inc fib = true →
        ((fileEntry t bucket sc).sc i).tags ≠ ((fileEntry t bucket sc).sc j).tags := by
      apply (h.distinct b).imp_of_mem
      intro i j hi hj hij
      rwa [hold hi, hold hj]
    rw [hchain]
    split
    · next hb =>
      subst hb
      rw [List.pairwise_cons]
      refine ⟨?_, hrest⟩
      intro j hj hconn
      rw [hself] at hconn ⊢
      rw [hold hj]
      exact hnew hconn j hj
    · exact hrest

end

theorem place_syncacheTimeout (e : SynEnv) (sc : SyncacheEntry) (n : ℤ) :
    (syncacheTimeout e sc n).place = sc.place := rfl

theorem place_withCookie (e : SynEnv) (passive : Bool) (sc : SyncacheEntry) :
    (withCookie e passive sc).place = sc.place := by
  unfold withCookie
  split <;> rfl

theorem place_synackUpdate (opt : TcpOpt) (th : TcpHdr) (sc : SyncacheEntry) :
    (synackUpdate opt th sc).place = sc.place := by
  have hscale (sc : SyncacheEntry) : (synackScale opt sc).place = sc.place := by
    unfold synackScale
    split_ifs <;> rfl
  have hts (sc : SyncacheEntry) : (synackTimestamp opt sc).place = sc.place := by
    unfold synackTimestamp
    split_ifs <;> rfl
  exact (hts _).trans (hscale _)

/-- Room is made by dropping entries only. -/
theorem dropLast_eq (t : TcpSyncache) (bucket : BitVec 32) :
    dropLast t bucket = t ∨ ∃ id, dropLast t bucket = syncacheDrop t id := by
  unfold dropLast
  split
  · exact .inr ⟨_, rfl⟩
  · exact .inl rfl

theorem mem_dropLast {b : BitVec 32} {id : ScId} (h : id ∈ (dropLast t bucket).hashbase b) :
    id ∈ t.hashbase b := by
  rcases dropLast_eq t bucket with heq | ⟨j, heq⟩
  · rwa [heq] at h
  · rw [heq] at h
    exact List.mem_of_mem_erase h

theorem dropLast_sc (t : TcpSyncache) (bucket : BitVec 32) :
    (dropLast t bucket).sc = t.sc := by
  rcases dropLast_eq t bucket with heq | ⟨j, heq⟩
  · rw [heq]
  · rw [heq]
    rfl

theorem dropLast_bucketOf (t : TcpSyncache) (bucket : BitVec 32) (sc : SyncacheEntry) :
    (dropLast t bucket).bucketOf sc = t.bucketOf sc := by
  rcases dropLast_eq t bucket with heq | ⟨j, heq⟩
  · rw [heq]
  · rw [heq]
    rfl

/-- An insertion where no entry of the bucket matches. -/
theorem TcpSyncache.Sound.insert (h : t.Sound inc fib) (e : SynEnv) (n : ℤ)
    (hbucket : sc.ofConn inc fib = true → t.bucketOf sc = bucket)
    (hnew : sc.ofConn inc fib = true → ∀ id ∈ t.hashbase bucket,
      (t.sc id).ofConn inc fib = true → sc.tags ≠ (t.sc id).tags) :
    (syncacheInsert e t bucket sc n).Sound inc fib := by
  unfold syncacheInsert
  dsimp only
  have hplace := place_syncacheTimeout e sc n
  split
  · apply (h.dropLast bucket).file
    · rw [ofConn_congr hplace, dropLast_bucketOf, bucketOf_congr rfl rfl hplace]
      exact hbucket
    · rw [ofConn_congr hplace, tags_congr hplace, dropLast_sc]
      exact fun hconn id hid => hnew hconn id (mem_dropLast hid)
  · apply h.file
    · rw [ofConn_congr hplace, bucketOf_congr rfl rfl hplace]
      exact hbucket
    · rw [ofConn_congr hplace, tags_congr hplace]
      exact hnew

/-- The entry of the SYN has the tags of its frame: the listener is promiscuous and its filter
leaves them alone, or there are none. -/
def SynArgs.TagsKept (a : SynArgs) (l : SynListener) (v : SynVars) : Prop :=
  if l.promisc then stackTags (tagstackOf v.l2i) = stackTags (tagstackOf a.m.l2i)
  else stackTags (tagstackOf a.m.l2i) = []

/-- The entry of a SYN keeps the endpoints, the fib and the tags of its frame. -/
theorem newEntry_stackTags {l : SynListener} {a : SynArgs} {v : SynVars} (h : a.TagsKept l v)
    (e : SynEnv) :
    stackTags (tagstackOf (newEntry e l a v).scL2tag) = stackTags (tagstackOf a.m.l2i) := by
  change stackTags (tagstackOf (if l.promisc = true then v.l2i else none)) = _
  unfold SynArgs.TagsKept at h
  split_ifs at h ⊢
  · exact h
  · rw [h]
    rfl

theorem TcpSyncache.Sound.admitted (h : t.Sound inc fib) (e : SynEnv) (l : SynListener)
    (a : SynArgs) (v : SynVars)
    (hkept : endptsEq inc a.inc = true → fib = a.m.fib → a.TagsKept l v)
    (hnone : syncacheLookup t a.inc a.m = none) : (admitSyn e t l a v).Sound inc fib := by
  have hplace := place_withCookie e v.passive (newEntry e l a v)
  -- An entry of the connection has the key of the frame.
  have hconn (hc : (withCookie e v.passive (newEntry e l a v)).ofConn inc fib = true) :
      stackTags (tagstackOf (newEntry e l a v).scL2tag) = stackTags (tagstackOf a.m.l2i) := by
    rw [ofConn_congr hplace, SyncacheEntry.ofConn, Bool.and_eq_true] at hc
    exact newEntry_stackTags (hkept hc.1 (of_decide_eq_true hc.2)) e
  have hbucket (hc : (withCookie e v.passive (newEntry e l a v)).ofConn inc fib = true) :
      t.bucketOf (withCookie e v.passive (newEntry e l a v)) =
        syncacheHashPromisc t a.inc a.m.fib a.m.l2i := by
    rw [bucketOf_congr rfl rfl hplace, bucketOf, syncacheHashPromisc, hashTags,
      hconn hc]
    rfl
  have hnew (hc : (withCookie e v.passive (newEntry e l a v)).ofConn inc fib = true) (id : ScId)
      (hid : id ∈ t.hashbase (syncacheHashPromisc t a.inc a.m.fib a.m.l2i))
      (hidc : (t.sc id).ofConn inc fib = true) :
      (withCookie e v.passive (newEntry e l a v)).tags ≠ (t.sc id).tags := by
    have hno := List.find?_eq_none.1 hnone id hid
    rw [syncacheMatch_iff, not_and] at hno
    rw [tags_congr hplace, SyncacheEntry.tags, hconn hc]
    apply hno
    rw [ofConn_congr hplace] at hc
    simp only [SyncacheEntry.ofConn, endptsEq, Bool.and_eq_true, decide_eq_true_eq] at hc hidc ⊢
    obtain ⟨⟨⟨⟨h1, h2⟩, h3⟩, h4⟩, h5⟩ := hc
    obtain ⟨⟨⟨⟨g1, g2⟩, g3⟩, g4⟩, g5⟩ := hidc
    exact ⟨⟨⟨⟨h1.symm.trans g1, h2.symm.trans g2⟩, h3.symm.trans g3⟩, h4.symm.trans g4⟩,
      h5.symm.trans g5⟩
  -- The entry goes into the table as it is, or into what is left of it.
  have hhere (c : Prop) [Decidable c] : (if c then
      syncacheInsert e t (syncacheHashPromisc t a.inc a.m.fib a.m.l2i)
        (withCookie e v.passive (newEntry e l a v)) v.initialTimeout else t).Sound inc fib := by
    split
    · exact h.insert e v.initialTimeout hbucket hnew
    · exact h
  have hthere (b : BitVec 32) (c : Prop) [Decidable c] : (if c then
      syncacheInsert e (Libuinet.dropLast t b) (syncacheHashPromisc t a.inc a.m.fib a.m.l2i)
        (withCookie e v.passive (newEntry e l a v)) v.initialTimeout
      else Libuinet.dropLast t b).Sound inc fib := by
    split
    · apply (h.dropLast b).insert e v.initialTimeout
      · rw [dropLast_bucketOf]
        exact hbucket
      · rw [dropLast_sc]
        exact fun hc id hid => hnew hc id (mem_dropLast hid)
    · exact h.dropLast b
  unfold admitSyn allocSc
  split
  · exact hhere _
  · exact hthere _ _

theorem place_refreshed (sc : SyncacheEntry) (opt : TcpOpt) (ipopts : Option IpOptions) :
    (sc.refreshed opt ipopts).place = sc.place := by
  unfold SyncacheEntry.refreshed
  dsimp only
  split_ifs <;> rfl

theorem place_retransmitted (e : SynEnv) (sc : SyncacheEntry) :
    (sc.retransmitted e).place = sc.place := by
  unfold SyncacheEntry.retransmitted
  dsimp only
  split_ifs <;> rfl

theorem place_dupSyn (e : SynEnv) (t : TcpSyncache) (opt : TcpOpt) (ipopts : Option IpOptions)
    (id : ScId) : ∃ sc : SyncacheEntry,
      dupSyn e t opt ipopts id = t.setSc id sc ∧ sc.place = (t.sc id).place := by
  unfold dupSyn
  refine ⟨_, rfl, ?_⟩
  split_ifs <;> exact place_refreshed (t.sc id) opt ipopts

section

variable (h : t.Sound inc fib)
include h

theorem TcpSyncache.Sound.add (e : SynEnv) (l : SynListener) (a : SynArgs)
    (hkept : endptsEq inc a.inc = true → fib = a.m.fib →
      ∀ v, runFilter e l a = .ok v → a.TagsKept l v) :
    (syncacheAdd e t l a).table.Sound inc fib := by
  unfold syncacheAdd
  split
  · next id _ =>
    obtain ⟨sc, heq, hplace⟩ := place_dupSyn e t a.opt (ipSrcroute e.mGet a.m).1 id
    change (dupSyn e t a.opt _ id).Sound inc fib
    rw [heq]
    exact h.setSc id hplace
  · next hnone =>
    split
    · exact h
    · exact h
    · next v hv => exact h.admitted e l a v (fun hends hfib => hkept hends hfib v hv) hnone

theorem TcpSyncache.Sound.synack (inc' : InConninfo) (opt : TcpOpt) (th : TcpHdr) (m : FrameMbuf) :
    (syncachePassiveSynack t inc' opt th m).Sound inc fib := by
  unfold syncachePassiveSynack
  split
  · split
    · exact h.setSc _ (place_synackUpdate opt th _)
    · exact h
  · exact h

theorem TcpSyncache.Sound.timerEntry (e : SynEnv) (id : ScId) :
    (timerEntry e t id).Sound inc fib := by
  unfold Libuinet.timerEntry
  dsimp only
  split
  · exact h
  · split
    · exact h.drop id
    · exact h.setSc id (place_retransmitted e _)

theorem TcpSyncache.Sound.timer (e : SynEnv) (bucket : BitVec 32) :
    (syncacheTimer e t bucket).Sound inc fib :=
  run_preserves (I := fun s : TcpSyncache => s.Sound inc fib)
    (fun _ id hs => hs.timerEntry e id) h _

end

/-- What happens to the syncache.  Entries are dropped when a reset or an
unreachable comes in, when the handshake is completed and when it fails. -/
inductive SynOp where
  | add (e : SynEnv) (l : SynListener) (a : SynArgs)
  | synack (inc : InConninfo) (opt : TcpOpt) (th : TcpHdr) (m : FrameMbuf)
  | timer (e : SynEnv) (bucket : BitVec 32)
  | drop (id : ScId)

def synStep (t : TcpSyncache) : SynOp → TcpSyncache
  | .add e l a => (syncacheAdd e t l a).table
  | .synack inc opt th m => syncachePassiveSynack t inc opt th m
  | .timer e bucket => syncacheTimer e t bucket
  | .drop id => syncacheDrop t id

/-- The SYNs of the connection come to promiscuous listeners, or without link-level information, and
the SYN filters do not rewrite their tags. -/
def SynOp.OnPromisc (inc : InConninfo) (fib : BitVec 16) (_ : TcpSyncache) : SynOp → Prop
  | .add e l a => endptsEq inc a.inc = true → fib = a.m.fib →
    (l.promisc = true ∨ a.m.l2i = none) ∧ ∀ v, runFilter e l a = .ok v →
      stackTags (tagstackOf v.l2i) = stackTags (tagstackOf a.m.l2i)
  | _ => True

theorem sound_step (s : TcpSyncache) (op : SynOp) (h : s.Sound inc fib)
    (hok : op.OnPromisc inc fib s) : (synStep s op).Sound inc fib := by
  cases op with
  | add e l a =>
    refine h.add e l a fun hends hfib v hv => ?_
    obtain ⟨hpromisc, htags⟩ := hok hends hfib
    unfold SynArgs.TagsKept
    split_ifs with hl
    · exact htags v hv
    · simp [hpromisc.resolve_left hl, tagstackOf, stackTags]
  | synack inc' opt th m => exact h.synack inc' opt th m
  | timer e bucket => exact h.timer e bucket
  | drop id => exact h.drop id

theorem sound_of_empty (h : t.hashbase = ChainTable.empty) : t.Sound inc fib := by
  have hnone (b : BitVec 32) : t.hashbase b = [] := by rw [h]; rfl
  constructor <;> intro b <;> rw [hnone b] <;> simp

/-- A lookup finds the entry when it searches the right bucket. -/
theorem TcpSyncache.Sound.lookup_iff (h : t.Sound inc fib) {m : FrameMbuf} (hfib : m.fib = fib)
    {b : BitVec 32} {id : ScId} (hid : id ∈ t.hashbase b)
    (hconn : (t.sc id).ofConn inc fib = true)
    (htags : significant (stackTags (tagstackOf m.l2i)) = (t.sc id).tags) :
    syncacheLookup t inc m = some id ↔ syncacheHashPromisc t inc m.fib m.l2i = b := by
  subst hfib
  constructor
  · intro hfound
    -- The entry found is in the bucket searched, and its own bucket is `b`.
    have hmem := List.mem_of_find?_eq_some hfound
    rw [← h.placed b id hid hconn, ← h.placed _ id hmem hconn]
  · intro hbucket
    unfold syncacheLookup
    rw [hbucket]
    have hmatch : syncacheMatch inc m (t.sc id) = true :=
      (syncacheMatch_iff inc m _).2 ⟨hconn, htags⟩
    have hsome : ((t.hashbase b).find? fun i => syncacheMatch inc m (t.sc i)).isSome = true :=
      List.find?_isSome.2 ⟨id, hid, hmatch⟩
    obtain ⟨j, hj⟩ := Option.isSome_iff_exists.1 hsome
    rw [hj]
    have htest : syncacheMatch inc m (t.sc j) = true := by simpa using List.find?_some hj
    have hjm := (syncacheMatch_iff inc m _).1 htest
    by_contra hne
    have hij : j ≠ id := fun heq => hne (congrArg some heq)
    exact h.tags_ne (List.mem_of_find?_eq_some hj) hid hij hjm.1 hconn (hjm.2.symm.trans htags)

/-- Two stacks that compare equal hash to one bucket, unless one is empty and the mixing
of the other tells. -/
theorem hashTags_mask_eq_iff {a b : Option L2info}
    (heq : significant (stackTags (tagstackOf a)) = significant (stackTags (tagstackOf b)))
    (hash mask : BitVec 32) :
    hashTags b hash &&& mask = hashTags a hash &&& mask ↔
      ¬ TagSplit a b ∨ fmix32 hash &&& mask = hash &&& mask := by
  by_cases hsplit : TagSplit a b
  · rcases hashTags_split heq hsplit hash with ⟨ha, hb⟩ | ⟨ha, hb⟩
    · simp [ha, hb, hsplit]
    · rw [ha, hb, eq_comm]
      simp [hsplit]
  · simp [hashTags_congr heq hsplit, hsplit]

/-- In every run in which the SYNs of the connection come to promiscuous listeners whose filters
leave their tags alone, an entry that is in the table is found by a frame of its connection whose
tags compare equal exactly when both frames have tags, or none has, or the bucket of the untagged
hash is the one of the mixed hash. -/
theorem syncache_lookup_finds_iff (t : TcpSyncache) (ops : List SynOp) (inc : InConninfo)
    (m : FrameMbuf) (b : BitVec 32) (id : ScId) (hempty : t.hashbase = ChainTable.empty)
    (hok : Along synStep (SynOp.OnPromisc inc m.fib) t ops)
    (hid : id ∈ (run synStep t ops).hashbase b)
    (hends : endptsEq inc ((run synStep t ops).sc id).scInc = true)
    (hfib : m.fib = ((run synStep t ops).sc id).scFib)
    (htags : inPromiscTagcmp (tagstackOf ((run synStep t ops).sc id).scL2tag)
      (tagstackOf m.l2i) = 0) :
    syncacheLookup (run synStep t ops) inc m = some id ↔
      ¬ TagSplit ((run synStep t ops).sc id).scL2tag m.l2i ∨
      fmix32 (syncacheSeed (run synStep t ops) inc m.fib) &&& (run synStep t ops).hashmask =
        syncacheSeed (run synStep t ops) inc m.fib &&& (run synStep t ops).hashmask := by
  have hsound : (run synStep t ops).Sound inc m.fib :=
    run_invariant sound_step (sound_of_empty hempty) hok
  have hconn : ((run synStep t ops).sc id).ofConn inc m.fib = true := by
    simp [SyncacheEntry.ofConn, hends, hfib]
  have heq := (inPromiscTagcmp_eq_zero_iff _ _).1 htags
  rw [hsound.lookup_iff rfl hid hconn heq.symm, ← hsound.placed b id hid hconn,
    ← hashTags_mask_eq_iff heq]
  -- Equal endpoints and fib give equal seeds.
  simp only [endptsEq, Bool.and_eq_true, decide_eq_true_eq] at hends
  obtain ⟨⟨⟨hfport, hlport⟩, hfaddr⟩, hladdr⟩ := hends
  simp only [TcpSyncache.bucketOf, syncacheHashPromisc, syncacheSeed, syncacheHash, hfport, hlport,
    hfaddr, hladdr, hfib]

def emptySyncache : TcpSyncache where
  hashmask := 511
  hashSecret := 0
  bucketLimit := 30
  rexmtLimit := 3
  sc := fun _ => { scIrs := 0, scIss := 0, scWnd := 0, scInc := ⟨0, 0, 0, 0, 0, false, false,
    false, false⟩, scFib := 0 }
  nextSc := 0
  hashbase := ChainTable.empty

def conn80 : InConninfo where
  incFaddr := 0x0200000a
  incFport := 0x3930
  incLaddr := 0x0100000a
  incLport := 0x5000
  incPromisc := true

def taggedFrame (ts : L2tagstack) : FrameMbuf where
  fib := 0
  l2i := some { inl2iTagstack := ts }

def afterSyn (e : SynEnv) (l : SynListener) (m : FrameMbuf) : List SynOp :=
  [.add e l { inc := conn80, th := { thSeq := 1000 }, m := m }]

def vlan5 : L2tagstack := ⟨[⟨0x05000081, 0xff0f0000⟩], by decide⟩

def priorityVlan5 : L2tagstack := ⟨[⟨0x00e00081, 0⟩, ⟨0x05000081, 0xff0f0000⟩], by decide⟩

def vlan6 : L2tagstack := ⟨[⟨0x06000081, 0xff0f0000⟩], by decide⟩

/-- A priority tag in front of the tag of VLAN 5 does not matter. -/
theorem syncache_lookup_finds_behind_priority :
    syncacheLookup (run synStep emptySyncache (afterSyn {} { promisc := true } (taggedFrame vlan5)))
      conn80 (taggedFrame priorityVlan5) = some 0 := by
  have hid : 0 ∈ (run synStep emptySyncache
      (afterSyn {} { promisc := true } (taggedFrame vlan5))).hashbase 161 := by
    decide +kernel
  have hok : Along synStep (SynOp.OnPromisc conn80 0) emptySyncache
      (afterSyn {} { promisc := true } (taggedFrame vlan5)) := by
    refine ⟨fun _ _ => ⟨.inl rfl, fun v hv => ?_⟩, trivial⟩
    obtain rfl := Except.ok.inj hv
    rfl
  apply (syncache_lookup_finds_iff emptySyncache _ conn80 (taggedFrame priorityVlan5) _ 0 rfl hok
    hid rfl rfl rfl).2
  left
  have hfirst : stackTags (tagstackOf ((run synStep emptySyncache
      (afterSyn {} { promisc := true } (taggedFrame vlan5))).sc 0).scL2tag) ≠ [] := by
    decide +kernel
  have hsecond : stackTags (tagstackOf (taggedFrame priorityVlan5).l2i) ≠ [] := by decide
  rw [TagSplit, not_not]
  exact propext ⟨fun h => absurd h hfirst, fun h => absurd h hsecond⟩

/-- A SYN filter that accepts, and moves the connection to VLAN 6. -/
def vlan6Filter : SynEnv where
  callback arg := (.accept, { arg with m := taggedFrame vlan6 })

/-- A priority tag on an otherwise untagged frame does, and so does a filter that rewrites the tag
of the SYN: the entry stays in the bucket of VLAN 5, but the next frame does not compare equal to
it. -/
theorem syncache_lookup_misses :
    (∃ t m, t = run synStep emptySyncache
        (afterSyn {} { promisc := true } (taggedFrame .empty)) ∧
      m = taggedFrame ⟨[⟨0x00e00081, 0⟩], by decide⟩ ∧
      t.hashbase (t.bucketOf (t.sc 0)) = [0] ∧ endptsEq conn80 (t.sc 0).scInc = true ∧
      m.fib = (t.sc 0).scFib ∧
      inPromiscTagcmp (tagstackOf (t.sc 0).scL2tag) (tagstackOf m.l2i) = 0 ∧
      syncacheLookup t conn80 m = none) ∧
    (∃ t, t = run synStep emptySyncache (afterSyn vlan6Filter { promisc := true, synfilter := true }
        (taggedFrame vlan5)) ∧
      t.hashbase (syncacheHashPromisc t conn80 0 (taggedFrame vlan5).l2i) = [0] ∧
      tagstackOf (t.sc 0).scL2tag = some vlan6 ∧
      syncacheLookup t conn80 (taggedFrame vlan5) = none) := by
  refine ⟨⟨_, _, rfl, rfl, by decide +kernel, rfl, rfl, rfl, by decide +kernel⟩, _, rfl, ?_⟩
  decide +kernel

end Libuinet
