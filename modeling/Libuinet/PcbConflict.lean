import Libuinet.PcbBind

namespace Libuinet

open ChainTable

def ReuseOptions.any (o : ReuseOptions) : Bool := o.soReuseaddr || o.soReuseport

def ReuseOptions.meets (o o' : ReuseOptions) : Bool :=
  (o.soReuseaddr && o'.soReuseaddr) || (o.soReuseport && o'.soReuseport)

/-- A call of `in_pcbbind_setup` for a socket with these options. -/
structure BindRequest where
  inpPromisc : Bool := false
  soOptions : ReuseOptions := {}
  nam : Option SockaddrIn
  laddrp : BitVec 32 := inaddrAny
  lportp : BitVec 16 := 0
  ifaddrEmpty : Bool := false
  ifaWithaddr : BitVec 32 → Bool := fun _ => true
  autoPorts : List (BitVec 16) := []

/-- The variable `reuseport` at the check: `SO_REUSEADDR` counts as `SO_REUSEPORT` for a multicast
address. -/
def ReuseOptions.reuseport (o : ReuseOptions) (addr : BitVec 32) : ReuseOptions :=
  if inMulticast addr && o.soReuseaddr then ⟨true, true⟩ else ⟨false, o.soReuseport⟩

def Inpcb.refusesShare (t : Inpcb) (reuseport : ReuseOptions) : Bool :=
  if t.inpTimewait then
    -- a block whose time-wait state has been recycled keeps the address
    match t.twSoOptions with
    | none => true
    | some options => !reuseport.meets options
  else !reuseport.any || !t.inpReuseport

namespace BindRequest

/-- The environment of the call.  In the library `priv_check_cred` and the checks of the prison
refuse nothing. -/
def env (r : BindRequest) : PcbEnv where
  ifaddrEmpty := r.ifaddrEmpty
  ifaWithaddr := r.ifaWithaddr
  soReuse := r.soOptions.any
  refusesShare t :=
    t.refusesShare (r.soOptions.reuseport ((r.nam.map SockaddrIn.sinAddr).getD inaddrAny))
  autoPorts := r.autoPorts

def setup (r : BindRequest) (info : Inpcbinfo) : Except Errno (BitVec 32 × BitVec 16) :=
  inPcbbindSetup info r.env r.inpPromisc r.nam r.laddrp r.lportp

def refused (r : BindRequest) (info : Inpcbinfo) (addr : BitVec 32) (lport : BitVec 16) : Bool :=
  (inPcblookupLocal info r.env addr lport (!r.soOptions.any)).any
    fun t => (info.inpcb t).refusesShare (r.soOptions.reuseport addr)

/-- What is left to do for an address and a port: a port is chosen if none is given. -/
def choosePort (r : BindRequest) (info : Inpcbinfo) (v : BitVec 32 × BitVec 16) :
    Except Errno (BitVec 32 × BitVec 16) :=
  let lport := if r.lportp ≠ 0 then r.lportp else v.2
  if lport = 0 ∧ !r.inpPromisc then do
    return (v.1, ← inPcbLport info r.env v.1 (!r.env.soReuse))
  else .ok (v.1, lport)

def addrAllowed (r : BindRequest) (addr : BitVec 32) : Bool :=
  !(!inMulticast addr && addr ≠ inaddrAny && !r.ifaWithaddr addr)

def lookedUp (r : BindRequest) : Option (BitVec 32 × BitVec 16) :=
  match r.nam with
  | none => none
  | some nam =>
    if (r.ifaddrEmpty → r.inpPromisc) ∧ r.laddrp = inaddrAny ∧ nam.lenOk ∧ r.lportp = 0 ∧
        nam.sinPort ≠ 0 ∧ r.addrAllowed nam.sinAddr then some (nam.sinAddr, nam.sinPort)
    else none

end BindRequest

def sizeMask (j : ℕ) : BitVec 32 := BitVec.ofNat 32 (2 ^ j - 1)

def boundBlocks (bound : List Inpcb) (id : PcbId) : Inpcb :=
  match bound[id]? with
  | some t => { t with inpInhashlist := true }
  | none => {}

def Inpcbinfo.portOf (info : Inpcbinfo) (id : PcbId) : Option (BitVec 32 × BitVec 16) :=
  if (info.inpcb id).inpInhashlist then some (info.portlist id) else none

/-- Tables of some size that hold the blocks, in whatever order. -/
structure TablesOf (bound : List Inpcb) (info : Inpcbinfo) : Prop where
  inpcb : info.inpcb = boundBlocks bound
  hashmask : ∃ j, info.ipiHashmask = sizeMask j
  porthashmask : ∃ k, info.ipiPorthashmask = sizeMask k
  hash : info.ipiHashbase.Filed info.bucketOf
  port : info.ipiPorthashbase.Filed info.portOf

/-- Whether the request is refused because the port is in use is the same in all tables that hold
the blocks. -/
def SizeIndependent (bound : List Inpcb) (r : BindRequest) : Prop :=
  ∀ info info', TablesOf bound info → TablesOf bound info' →
    (r.setup info = .error eaddrinuse ↔ r.setup info' = .error eaddrinuse)

def Inpcb.overlaps (t : Inpcb) (addr : BitVec 32) (lport : BitVec 16) : Bool :=
  t.inpLport = lport && (localWildcard t addr).isSome

def Inpcb.coincides (t : Inpcb) (addr : BitVec 32) (lport : BitVec 16) : Bool :=
  t.inpFaddr = inaddrAny && t.inpLaddr = addr && t.inpLport = lport

/-- The key of the block hashes to that of an unconnected ordinary block, with all bits. -/
def Inpcb.hashedAs (t : Inpcb) (lport : BitVec 16) : Prop :=
  t.hashkey (BitVec.allOnes 32) = inpPcbhash inaddrAny lport 0 (BitVec.allOnes 32)

/-- The condition: without an option to share the port, a promiscuous block overlaps only where an
ordinary one does too.  With one, the blocks bound alike do not refuse the request, or all refuse
it and one of them is in the bucket whatever the size. -/
def Agreed (bound : List Inpcb) (r : BindRequest) : Prop :=
  ∀ addr lport, r.lookedUp = some (addr, lport) →
    if r.soOptions.any then
      (∀ t ∈ bound, t.coincides addr lport = true →
        t.refusesShare (r.soOptions.reuseport addr) = false) ∨
      ((∃ t ∈ bound, t.coincides addr lport = true ∧ t.hashedAs lport) ∧
        ∀ t ∈ bound, t.coincides addr lport = true →
          t.refusesShare (r.soOptions.reuseport addr) = true)
    else (∃ t ∈ bound, t.overlaps addr lport = true) →
      ∃ t ∈ bound, t.overlaps addr lport = true ∧ t.inpPromisc = false

theorem localWildcard_le {t : Inpcb} {laddr : BitVec 32} {wildcard : ℕ}
    (h : localWildcard t laddr = some wildcard) : wildcard < 3 := by
  unfold localWildcard at h
  dsimp only at h
  split_ifs at h <;> simp only [Option.some.injEq] at h <;> omega

/-- The walk finds a block if there is one that is not too far from the address. -/
theorem bestLocal_isSome {info : Inpcbinfo} {e : PcbEnv} (he : ∀ t, e.prisonEqual t = true)
    (laddr : BitVec 32) (l : List PcbId) (best : Option PcbId) (matchwild : ℕ)
    (hw : best = none → matchwild = 3) :
    (bestLocal info e laddr l best matchwild).isSome = true ↔
      best.isSome = true ∨ ∃ id ∈ l, (localWildcard (info.inpcb id) laddr).isSome = true := by
  induction l generalizing best matchwild with
  | nil => simp [bestLocal]
  | cons id ids ih =>
    rw [bestLocal, he, if_pos rfl]
    cases hid : localWildcard (info.inpcb id) laddr with
    | none =>
      rw [ih best matchwild hw]
      simp [hid]
    | some wildcard =>
      have hlt := localWildcard_le hid
      change (if _ then _ else _ : Option PcbId).isSome = true ↔ _
      split_ifs with hless hzero
      · simp [hid]
      · rw [ih (some id) wildcard (by simp)]
        simp [hid]
      · have hsome : best.isSome = true := by
          cases best with
          | some b => rfl
          | none => exact absurd (hw rfl ▸ hlt) hless
        rw [ih best matchwild hw]
        simp [hsome]

variable {bound : List Inpcb} {r : BindRequest} {info : Inpcbinfo} {addr : BitVec 32}
  {lport : BitVec 16}

/-- The named port is found to be in use by the lookups only. -/
theorem requestedName_eaddrinuse_iff (r : BindRequest) (info : Inpcbinfo) (nam : SockaddrIn)
    (lportp : BitVec 16) (wildcard : Bool) :
    requestedName info r.env nam lportp wildcard = .error eaddrinuse ↔
      nam.lenOk = true ∧ lportp = 0 ∧ nam.sinPort ≠ 0 ∧ r.addrAllowed nam.sinAddr = true ∧
      portRefused info r.env nam.sinAddr nam.sinPort wildcard = true := by
  have hok : r.env.prisonLocalIp4 nam.sinAddr = .ok nam.sinAddr := rfl
  have hwith : r.env.ifaWithaddr = r.ifaWithaddr := rfl
  have hfree (port : BitVec 16) : r.env.reserved port = false := rfl
  unfold requestedName BindRequest.addrAllowed
  rw [hok, hwith]
  by_cases hlen : nam.lenOk = true
  · simp [hlen, hfree, bind, Except.bind, throw, throwThe, MonadExceptOf.throw, eaddrinuse,
      eaddrnotavail]
    split_ifs <;> simp_all [pure, Except.pure, or_iff_not_imp_left]
  · simp [hlen, bind, Except.bind, throw, throwThe, MonadExceptOf.throw, eaddrinuse]

theorem bind_eq_error_iff {ε α β : Type} {x : Except ε α} {f : α → Except ε β} {err : ε}
    (hf : ∀ v, f v ≠ .error err) : x >>= f = .error err ↔ x = .error err := by
  cases x with
  | error e => simp [bind, Except.bind]
  | ok v => simpa [bind, Except.bind] using hf v

/-- Choosing a port does not find it in use. -/
theorem choosePort_ne (r : BindRequest) (info : Inpcbinfo) (v : BitVec 32 × BitVec 16) :
    r.choosePort info v ≠ .error eaddrinuse := by
  have hport : inPcbLport info r.env v.1 (!r.env.soReuse) ≠ .error eaddrinuse := by
    unfold inPcbLport
    split <;> simp [eaddrinuse, eaddrnotavail]
  unfold BindRequest.choosePort
  generalize (if r.lportp ≠ 0 then r.lportp else v.2) = lport
  dsimp only
  split_ifs
  · exact mt (bind_eq_error_iff fun port => by simp [pure, Except.pure]).mp hport
  · simp

/-- The request is refused where it comes to the lookups and the block found refuses it. -/
theorem setup_eaddrinuse_iff (r : BindRequest) (info : Inpcbinfo) :
    r.setup info = .error eaddrinuse ↔ ∃ addr lport, r.lookedUp = some (addr, lport) ∧
      r.refused info addr lport = true := by
  have hsetup : r.setup info =
      if r.ifaddrEmpty ∧ !r.inpPromisc then .error eaddrnotavail
      else if r.nam.isSome ∧ r.laddrp ≠ inaddrAny then .error .einval
      else (match r.nam with
        | none => .ok (r.laddrp, 0)
        | some nam => requestedName info r.env nam r.lportp (!r.env.soReuse)) >>=
          r.choosePort info := by
    unfold BindRequest.setup inPcbbindSetup
    cases r.nam <;> rfl
  rw [hsetup]
  cases hnam : r.nam with
  | none =>
    have hnone : r.lookedUp = none := by simp only [BindRequest.lookedUp, hnam]
    have hne := choosePort_ne r info (r.laddrp, 0)
    simp only [hnone, Option.isSome_none, Bool.false_eq_true, false_and, if_false, reduceCtorEq,
      exists_const, iff_false]
    split_ifs
    · simp [eaddrinuse, eaddrnotavail]
    · exact hne
  | some nam =>
    have hname := requestedName_eaddrinuse_iff r info nam r.lportp (!r.env.soReuse)
    have hrefused : portRefused info r.env nam.sinAddr nam.sinPort (!r.env.soReuse) =
        r.refused info nam.sinAddr nam.sinPort := by
      simp [portRefused, BindRequest.refused, BindRequest.env, hnam]
    rw [hrefused] at hname
    have hbind := bind_eq_error_iff (x := requestedName info r.env nam r.lportp (!r.env.soReuse))
      (choosePort_ne r info)
    rw [hname] at hbind
    simp only [BindRequest.lookedUp, hnam]
    by_cases hempty : r.ifaddrEmpty = true ∧ (!r.inpPromisc) = true
    · rw [if_pos hempty]
      simp [eaddrinuse, eaddrnotavail, hempty.1, by simpa using hempty.2]
    · rw [if_neg hempty]
      by_cases hladdr : r.laddrp = inaddrAny
      · rw [if_neg (by simp [hladdr]), hbind]
        have hopen : r.ifaddrEmpty = true → r.inpPromisc = true := by simpa using hempty
        simp only [hladdr, true_and, and_assoc, Option.ite_none_right_eq_some, Option.some.injEq,
          Prod.mk.injEq]
        constructor
        · rintro ⟨hlen, hlport, hsin, haddr, hfound⟩
          exact ⟨_, _, hopen, hlen, hlport, hsin, haddr, rfl, rfl, hfound⟩
        · rintro ⟨_, _, -, hlen, hlport, hsin, haddr, rfl, rfl, hfound⟩
          exact ⟨hlen, hlport, hsin, haddr, hfound⟩
      · rw [if_pos ⟨rfl, hladdr⟩]
        simp [hladdr, eaddrinuse]

namespace TablesOf

section

variable (h : TablesOf bound info)
include h

theorem mem_hash (b : BitVec 32) (id : PcbId) :
    id ∈ info.ipiHashbase b ↔ ∃ t, bound[id]? = some t ∧ t.hashkey info.ipiHashmask = b := by
  rw [h.hash.mem_iff, Inpcbinfo.bucketOf, Inpcbinfo.hashkey, h.inpcb, boundBlocks]
  cases bound[id]? with
  | none => simp
  | some t => simp [Inpcb.hashkey]

theorem mem_port (b : BitVec 32) (port : BitVec 16) (id : PcbId) :
    id ∈ info.ipiPorthashbase (b, port) ↔ ∃ t, bound[id]? = some t ∧
      t.porthashkey info.ipiHashmask info.ipiPorthashmask = b ∧ t.inpLport = port := by
  rw [h.port.mem_iff, Inpcbinfo.portOf, Inpcbinfo.portlist, h.inpcb, boundBlocks]
  cases bound[id]? with
  | none => simp
  | some t => simp [Inpcb.porthashkey]

/-- Without an option to share the port, a block in the way that is found refuses the request. -/
theorem refused_wildcard_iff (hshare : r.soOptions.any = false) :
    r.refused info addr lport = true ↔
      ∃ t ∈ bound, t.overlaps addr lport = true ∧
        t.porthashkey info.ipiHashmask info.ipiPorthashmask =
          inpPcbporthash lport info.ipiPorthashmask := by
  have hrefuse (t : Inpcb) : t.refusesShare (r.soOptions.reuseport addr) = true := by
    have ha : r.soOptions.soReuseaddr = false := by
      simpa using (Bool.or_eq_false_iff.mp hshare).1
    have hp : r.soOptions.soReuseport = false := (Bool.or_eq_false_iff.mp hshare).2
    unfold Inpcb.refusesShare
    split_ifs
    · cases t.twSoOptions <;> simp [ReuseOptions.reuseport, ReuseOptions.meets, ha, hp]
    · simp [ReuseOptions.reuseport, ReuseOptions.any, ha, hp]
  have hany : ∀ o : Option PcbId,
      o.any (fun t => (info.inpcb t).refusesShare (r.soOptions.reuseport addr)) = o.isSome := by
    intro o
    cases o with
    | none => rfl
    | some id => exact hrefuse _
  rw [BindRequest.refused, hany, hshare, Bool.not_false, inPcblookupLocal, if_pos rfl,
    bestLocal_isSome (fun _ => rfl) _ _ _ _ (fun _ => rfl)]
  simp only [Option.isSome_none, Bool.false_eq_true, false_or, h.mem_port]
  constructor
  · rintro ⟨id, ⟨t, ht, hkey, hport⟩, hwild⟩
    rw [h.inpcb, boundBlocks, ht] at hwild
    exact ⟨t, List.mem_of_getElem? ht, by simp [Inpcb.overlaps, hport]; exact hwild, hkey⟩
  · rintro ⟨t, ht, hover, hkey⟩
    obtain ⟨id, hid⟩ := List.getElem?_of_mem ht
    have hover' : t.inpLport = lport ∧ (localWildcard t addr).isSome = true := by
      simpa [Inpcb.overlaps] using hover
    refine ⟨id, ⟨t, hid, hkey, hover'.1⟩, ?_⟩
    rw [h.inpcb, boundBlocks, hid]
    exact hover'.2

/-- With such an option, it is one of the blocks bound alike in the bucket that decides. -/
theorem refused_exact (hshare : r.soOptions.any = true) (addr : BitVec 32) (lport : BitVec 16) :
    r.refused info addr lport = true ∧
      (∃ t ∈ bound, t.coincides addr lport = true ∧
        t.hashkey info.ipiHashmask = inpPcbhash inaddrAny lport 0 info.ipiHashmask ∧
        t.refusesShare (r.soOptions.reuseport addr) = true) ∨
    r.refused info addr lport = false ∧
      ∀ t ∈ bound, t.coincides addr lport = true →
        t.hashkey info.ipiHashmask = inpPcbhash inaddrAny lport 0 info.ipiHashmask →
        ∃ t' ∈ bound, t'.coincides addr lport = true ∧
          t'.refusesShare (r.soOptions.reuseport addr) = false := by
  rw [BindRequest.refused, hshare, Bool.not_true, inPcblookupLocal, if_neg Bool.false_ne_true]
  cases hfind : (info.ipiHashbase (inpPcbhash inaddrAny lport 0 info.ipiHashmask)).find? _ with
  | none =>
    refine Or.inr ⟨rfl, fun t ht hsame hkey => ?_⟩
    obtain ⟨id, hid⟩ := List.getElem?_of_mem ht
    have hnot := List.find?_eq_none.mp hfind id ((h.mem_hash _ id).mpr ⟨t, hid, hkey⟩)
    rw [h.inpcb, boundBlocks, hid] at hnot
    refine absurd ?_ hnot
    simpa [Inpcb.coincides, BindRequest.env] using hsame
  | some id =>
    obtain ⟨t, hid, hkey⟩ := (h.mem_hash _ id).mp (List.mem_of_find?_eq_some hfind)
    have hsame := List.find?_some hfind
    rw [h.inpcb, boundBlocks, hid] at hsame
    have hsame' : t.coincides addr lport = true := by
      simpa [Inpcb.coincides, BindRequest.env] using hsame
    have hany : (some id).any
        (fun t => (info.inpcb t).refusesShare (r.soOptions.reuseport addr)) =
        t.refusesShare (r.soOptions.reuseport addr) := by
      rw [h.inpcb, Option.any_some, boundBlocks, hid]
      rfl
    rw [hany]
    have ht := List.mem_of_getElem? hid
    cases hrefuse : t.refusesShare (r.soOptions.reuseport addr) with
    | true => exact Or.inl ⟨rfl, t, ht, hsame', hkey, hrefuse⟩
    | false => exact Or.inr ⟨rfl, fun _ _ _ _ => ⟨t, ht, hsame', hrefuse⟩⟩

end

end TablesOf

def filedTables (bound : List Inpcb) (j k : ℕ) (ids : List PcbId) : Inpcbinfo :=
  let info : Inpcbinfo :=
    { ipiHashmask := sizeMask j, ipiPorthashmask := sizeMask k, ipiListhead := ids
      inpcb := boundBlocks bound, ipiHashbase := .empty, ipiPorthashbase := .empty }
  { info with
    ipiHashbase := .ofList info.bucketOf ids, ipiPorthashbase := .ofList info.portOf ids }

theorem tablesOf_filedTables (bound : List Inpcb) (j k : ℕ) {ids : List PcbId} (hn : ids.Nodup)
    (hids : ∀ id < bound.length, id ∈ ids) : TablesOf bound (filedTables bound j k ids) := by
  have hbound (id : PcbId) (hin : (boundBlocks bound id).inpInhashlist = true) : id ∈ ids := by
    apply hids
    by_contra hlt
    rw [boundBlocks, List.getElem?_eq_none (not_lt.mp hlt)] at hin
    exact Bool.false_ne_true hin
  refine ⟨rfl, ⟨j, rfl⟩, ⟨k, rfl⟩, filed_ofList hn ?_, filed_ofList hn ?_⟩
  · intro id hin
    unfold Inpcbinfo.bucketOf at hin
    split_ifs at hin with hb
    · exact hbound id hb
    · cases hin
  · intro id hin
    unfold Inpcbinfo.portOf at hin
    split_ifs at hin with hb
    · exact hbound id hb
    · cases hin

theorem tablesOf_range (bound : List Inpcb) (j k : ℕ) :
    TablesOf bound (filedTables bound j k (List.range bound.length)) :=
  tablesOf_filedTables bound j k List.nodup_range fun _ => List.mem_range.mpr

theorem hashkey_eq_and (t : Inpcb) (mask : BitVec 32) :
    t.hashkey mask = t.hashkey (BitVec.allOnes 32) &&& mask := by
  unfold Inpcb.hashkey inPcbhashPromisc inpPcbhash
  split_ifs <;> rw [BitVec.and_allOnes]

theorem inpPcbhash_eq_and (faddr : BitVec 32) (lport fport : BitVec 16) (mask : BitVec 32) :
    inpPcbhash faddr lport fport mask =
      inpPcbhash faddr lport fport (BitVec.allOnes 32) &&& mask := by
  rw [inpPcbhash, inpPcbhash, BitVec.and_allOnes]

/-- With one bucket, the block put first among those bound alike decides. -/
theorem refused_first (hshare : r.soOptions.any = true) {t : Inpcb} (ht : t ∈ bound)
    (hsame : t.coincides addr lport = true) :
    ∃ info, TablesOf bound info ∧
      r.refused info addr lport = t.refusesShare (r.soOptions.reuseport addr) := by
  obtain ⟨i, hi⟩ := List.getElem?_of_mem ht
  refine ⟨filedTables bound 0 0 (i :: (List.range bound.length).erase i),
    tablesOf_filedTables bound 0 0 ?_ ?_, ?_⟩
  · exact List.nodup_cons.mpr ⟨List.nodup_range.not_mem_erase, List.nodup_range.erase i⟩
  · intro id hid
    by_cases hid' : id = i
    · exact hid' ▸ List.mem_cons_self
    · exact List.mem_cons_of_mem _ ((List.mem_erase_of_ne hid').mpr (List.mem_range.mpr hid))
  · have hzero (x : BitVec 32) : x &&& sizeMask 0 = 0 := BitVec.and_zero
    have hkey : (filedTables bound 0 0 (i :: (List.range bound.length).erase i)).bucketOf i =
        some (inpPcbhash inaddrAny lport 0 (sizeMask 0)) := by
      rw [inpPcbhash_eq_and, hzero]
      simp only [Inpcbinfo.bucketOf, Inpcbinfo.hashkey, filedTables, boundBlocks, hi, if_true]
      rw [hashkey_eq_and, hzero]
    have hlist : (filedTables bound 0 0 (i :: (List.range bound.length).erase i)).ipiHashbase
        (inpPcbhash inaddrAny lport 0 (sizeMask 0)) = i :: _ := ofList_cons_of_key hkey _
    have hmask : (filedTables bound 0 0 (i :: (List.range bound.length).erase i)).ipiHashmask =
      sizeMask 0 := rfl
    have hblock : (filedTables bound 0 0 (i :: (List.range bound.length).erase i)).inpcb i =
        { t with inpInhashlist := true } := by
      simp only [filedTables, boundBlocks, hi]
    rw [BindRequest.refused, hshare, Bool.not_true, inPcblookupLocal, if_neg Bool.false_ne_true,
      hmask, hlist, List.find?_cons_of_pos, Option.any_some, hblock]
    · rfl
    · rw [hblock]
      simpa [Inpcb.coincides, BindRequest.env] using hsame

theorem ntohs_ne_zero {port : BitVec 16} (h : port ≠ 0) : ntohs port ≠ 0 := by
  have hback : ntohs (ntohs port) = port := by
    ext i hi
    simp only [ntohs, BitVec.getElem_rotateLeft, Nat.reduceMod, Nat.reduceSub]
    split_ifs <;> first | omega | (congr 1; omega)
  intro h0
  rw [h0] at hback
  exact h (hback.symm.trans (by decide))

theorem lookedUp_ne_zero (h : r.lookedUp = some (addr, lport)) : lport ≠ 0 := by
  unfold BindRequest.lookedUp at h
  split at h
  · cases h
  · split_ifs at h with hc
    obtain ⟨rfl, rfl⟩ := Prod.mk.inj (Option.some.inj h)
    exact hc.2.2.2.2.1

/-- A promiscuous block is on a port list that is not searched when the hash table has one bucket
and the port table has one for each port. -/
theorem porthashkey_hidden {t : Inpcb} (hp : t.inpPromisc = true) (hport : lport ≠ 0) :
    t.porthashkey (sizeMask 0) (sizeMask 16) ≠ inpPcbporthash lport (sizeMask 16) := by
  have hzero : t.porthashkey (sizeMask 0) (sizeMask 16) = 0 := by
    simp [Inpcb.porthashkey, hp, inPcbporthashPromisc, sizeMask]
  rw [hzero]
  intro h
  apply ntohs_ne_zero hport
  apply BitVec.eq_of_toNat_eq
  have hnat := congrArg BitVec.toNat h
  have hlt := (ntohs lport).isLt
  simpa [inpPcbporthash, sizeMask, Nat.and_two_pow_sub_one_eq_mod _ 16, Nat.mod_eq_of_lt hlt,
    eq_comm] using hnat

/-- With one bucket in each table, the blocks bound to the port are found. -/
theorem porthashkey_shown (t : Inpcb) (lport : BitVec 16) :
    t.porthashkey (sizeMask 0) (sizeMask 0) = inpPcbporthash lport (sizeMask 0) := by
  unfold Inpcb.porthashkey
  split_ifs <;> simp [inPcbporthashPromisc, inpPcbporthash, sizeMask]

/-- Without an option to share the port. -/
theorem refused_same_wildcard_iff (hshare : r.soOptions.any = false) (hport : lport ≠ 0) :
    (∀ info info', TablesOf bound info → TablesOf bound info' →
      (r.refused info addr lport = true ↔ r.refused info' addr lport = true)) ↔
    ((∃ t ∈ bound, t.overlaps addr lport = true) →
      ∃ t ∈ bound, t.overlaps addr lport = true ∧ t.inpPromisc = false) := by
  constructor
  · rintro hsame ⟨t, ht, hover⟩
    -- one bucket shows every block, and then the promiscuous ones are hidden
    have hshown := tablesOf_range bound 0 0
    have hhidden := tablesOf_range bound 0 16
    have hrefused := (hshown.refused_wildcard_iff hshare).mpr
      ⟨t, ht, hover, porthashkey_shown t lport⟩
    obtain ⟨t', ht', hover', hkey⟩ :=
      (hhidden.refused_wildcard_iff hshare).mp ((hsame _ _ hshown hhidden).mp hrefused)
    refine ⟨t', ht', hover', ?_⟩
    by_contra hp
    exact porthashkey_hidden (by simpa using hp) hport hkey
  · intro hordinary
    -- an ordinary block is found in every table
    have hall : ∀ info, TablesOf bound info →
        (r.refused info addr lport = true ↔ ∃ t ∈ bound, t.overlaps addr lport = true) := by
      intro info h
      rw [h.refused_wildcard_iff hshare]
      constructor
      · rintro ⟨t, ht, hover, -⟩
        exact ⟨t, ht, hover⟩
      · intro hex
        obtain ⟨t, ht, hover, hp⟩ := hordinary hex
        have hlport : t.inpLport = lport := by
          simp only [Inpcb.overlaps, Bool.and_eq_true, decide_eq_true_eq] at hover
          exact hover.1
        refine ⟨t, ht, hover, ?_⟩
        rw [Inpcb.porthashkey, hp, if_neg Bool.false_ne_true, hlport]
    intro info info' h h'
    rw [hall info h, hall info' h']

/-- With one. -/
theorem refused_same_exact_iff (hshare : r.soOptions.any = true) :
    (∀ info info', TablesOf bound info → TablesOf bound info' →
      (r.refused info addr lport = true ↔ r.refused info' addr lport = true)) ↔
    (∀ t ∈ bound, t.coincides addr lport = true →
        t.refusesShare (r.soOptions.reuseport addr) = false) ∨
      ((∃ t ∈ bound, t.coincides addr lport = true ∧ t.hashedAs lport) ∧
        ∀ t ∈ bound, t.coincides addr lport = true →
          t.refusesShare (r.soOptions.reuseport addr) = true) := by
  constructor
  · intro hsame
    by_cases hnone : ∀ t ∈ bound, t.coincides addr lport = true →
        t.refusesShare (r.soOptions.reuseport addr) = false
    · exact Or.inl hnone
    · push Not at hnone
      obtain ⟨t, ht, hco, hrefuse⟩ := hnone
      obtain ⟨info, htab, hfirst⟩ := refused_first (r := r) hshare ht hco
      have hrefused : r.refused info addr lport = true := by
        rw [hfirst]
        simpa using hrefuse
      refine Or.inr ⟨?_, fun t' ht' hco' => ?_⟩
      · -- in the largest table only the blocks with the same hash are seen
        have hlarge := tablesOf_range bound 32 32
        have hmust := (hsame _ _ htab hlarge).mp hrefused
        rcases hlarge.refused_exact hshare addr lport with
          ⟨-, t', ht', hco', hkey, -⟩ | ⟨hnot, -⟩
        · exact ⟨t', ht', hco', hkey⟩
        · rw [hnot] at hmust
          cases hmust
      · obtain ⟨info', htab', hfirst'⟩ := refused_first (r := r) hshare ht' hco'
        rw [← hfirst']
        exact (hsame _ _ htab htab').mp hrefused
  · rintro (hnone | ⟨⟨t, ht, hco, hhash⟩, hall⟩)
    · have hnot : ∀ info, TablesOf bound info → r.refused info addr lport = false := by
        intro info h
        rcases h.refused_exact hshare addr lport with
          ⟨-, t, ht, hco, -, hrefuse⟩ | ⟨hnot, -⟩
        · rw [hnone t ht hco] at hrefuse
          cases hrefuse
        · exact hnot
      intro info info' h h'
      rw [hnot info h, hnot info' h']
    · have hyes : ∀ info, TablesOf bound info → r.refused info addr lport = true := by
        intro info h
        rcases h.refused_exact hshare addr lport with
          ⟨hyes, -⟩ | ⟨-, hnot⟩
        · exact hyes
        · have hkey : t.hashkey info.ipiHashmask =
              inpPcbhash inaddrAny lport 0 info.ipiHashmask := by
            rw [hashkey_eq_and, hhash, ← inpPcbhash_eq_and]
          obtain ⟨t', ht', hco', hrefuse⟩ := hnot t ht hco hkey
          rw [hall t' ht' hco'] at hrefuse
          cases hrefuse
      intro info info' h h'
      rw [hyes info h, hyes info' h']

/-- Whether the port is found in use does not depend on the size and order of the tables exactly
when the blocks agree. -/
theorem bind_conflict_size_independent_iff (bound : List Inpcb) (r : BindRequest) :
    SizeIndependent bound r ↔ Agreed bound r := by
  cases hlook : r.lookedUp with
  | none =>
    have hset (info : Inpcbinfo) : ¬ r.setup info = .error eaddrinuse := by
      rw [setup_eaddrinuse_iff, hlook]
      simp
    simp [SizeIndependent, Agreed, hset, hlook]
  | some v =>
    obtain ⟨addr, lport⟩ := v
    have hset (info : Inpcbinfo) :
        r.setup info = .error eaddrinuse ↔ r.refused info addr lport = true := by
      rw [setup_eaddrinuse_iff, hlook]
      constructor
      · rintro ⟨_, _, ⟨⟩, h⟩
        exact h
      · exact fun h => ⟨_, _, rfl, h⟩
    simp only [SizeIndependent, hset]
    cases hshare : r.soOptions.any with
    | true =>
      rw [refused_same_exact_iff hshare]
      simp [Agreed, hlook, hshare]
    | false =>
      rw [refused_same_wildcard_iff hshare (lookedUp_ne_zero hlook)]
      simp [Agreed, hlook, hshare]

def promiscListener : Inpcb := { inpLport := 0x5000, inpPromisc := true }

def withListener (j : ℕ) : Except String (Bool × Inpcbinfo) :=
  inPcbinshash
    { ipiHashmask := sizeMask j, ipiPorthashmask := sizeMask j, ipiListhead := [0]
      inpcb := fun _ => promiscListener, ipiHashbase := .empty, ipiPorthashbase := .empty } 0 true

/-- An ordinary socket that is to be bound to port 80 is refused when the tables have one bucket,
and accepted when they have 512. -/
theorem bind_conflict_by_collision :
    let r : BindRequest := { nam := some { sinAddr := 0, sinPort := 0x5000 } }
    ((withListener 0).map fun t => r.setup t.2) = .ok (.error eaddrinuse) ∧
      ((withListener 9).map fun t => r.setup t.2) = .ok (.ok (0, 0x5000)) := by
  intro r
  constructor <;> decide

end Libuinet
