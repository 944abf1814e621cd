import Libuinet.PcbBind

namespace Libuinet

open ChainTable Execution

/-- Both tables hold the blocks that are in the hash, once: `ipi_hashbase` under the
current key, `ipi_porthashbase` on some port list. -/
structure Inpcbinfo.Tables (info : Inpcbinfo) : Prop where
  hash : info.ipiHashbase.Filed info.bucketOf
  port : ∃ listOf : PcbId → Option (BitVec 32 × BitVec 16), info.ipiPorthashbase.Filed listOf ∧
    ∀ id, (listOf id).isSome = (info.inpcb id).inpInhashlist

def Inpcb.Blank (inp : Inpcb) : Prop :=
  inp.inpLaddr = inaddrAny ∧ inp.inpLport = 0 ∧ inp.inpFaddr = inaddrAny

/-- The state between two operations: besides the tables, a block that is not in them
and can still be used has no key. -/
structure Inpcbinfo.Placed (info : Inpcbinfo) : Prop extends info.Tables where
  nodup : info.ipiListhead.Nodup
  outside : ∀ id ∈ info.ipiListhead, (info.inpcb id).inpInhashlist = false →
    (info.inpcb id).inpDropped = false → (info.inpcb id).Blank

variable {info : Inpcbinfo} {id : PcbId}

@[simp] theorem modify_inpcb_self (info : Inpcbinfo) (id : PcbId) (f : Inpcb → Inpcb) :
    (info.modify id f).inpcb id = f (info.inpcb id) := by
  simp [Inpcbinfo.modify]

theorem modify_inpcb_of_ne {j : PcbId} (h : j ≠ id) (f : Inpcb → Inpcb) :
    (info.modify id f).inpcb j = info.inpcb j := by
  simp [Inpcbinfo.modify, h]

theorem modify_modify (info : Inpcbinfo) (id : PcbId) (f g : Inpcb → Inpcb) :
    (info.modify id f).modify id g = info.modify id (g ∘ f) := by
  simp [Inpcbinfo.modify]

/-- A change of a block that leaves the bucket alone leaves every bucket alone. -/
theorem bucketOf_modify {f : Inpcb → Inpcb}
    (hin : (f (info.inpcb id)).inpInhashlist = (info.inpcb id).inpInhashlist)
    (hkey : (info.inpcb id).inpInhashlist = true →
      (f (info.inpcb id)).hashkey info.ipiHashmask = info.hashkey id) (j : PcbId) :
    (info.modify id f).bucketOf j = info.bucketOf j := by
  by_cases hj : j = id
  · subst hj
    unfold Inpcbinfo.bucketOf
    rw [modify_inpcb_self, hin]
    split
    · next h =>
      rw [← hkey h]
      simp [Inpcbinfo.hashkey, Inpcbinfo.modify]
    · rfl
  · simp [Inpcbinfo.bucketOf, Inpcbinfo.hashkey, Inpcbinfo.modify, hj]

section

variable (h : info.Tables)
include h

theorem Inpcbinfo.Tables.modify (id : PcbId) {f : Inpcb → Inpcb}
    (hin : (f (info.inpcb id)).inpInhashlist = (info.inpcb id).inpInhashlist)
    (hkey : (info.inpcb id).inpInhashlist = true →
      (f (info.inpcb id)).hashkey info.ipiHashmask = info.hashkey id) :
    (info.modify id f).Tables := by
  obtain ⟨listOf, hfiled, hsome⟩ := h.port
  refine ⟨h.hash.congr (bucketOf_modify hin hkey), listOf, hfiled, ?_⟩
  intro j
  rw [hsome]
  by_cases hj : j = id
  · subst hj
    rw [modify_inpcb_self, hin]
  · rw [modify_inpcb_of_ne hj]

theorem Inpcbinfo.Tables.link (hin : (info.inpcb id).inpInhashlist = false) :
    (info.link id).Tables := by
  obtain ⟨listOf, hfiled, hsome⟩ := h.port
  have hbucket : info.bucketOf id = none := by simp [Inpcbinfo.bucketOf, hin]
  have hlist : listOf id = none := by
    have := hsome id
    rw [hin] at this
    simpa using this
  refine ⟨(h.hash.insertHead hbucket (info.hashkey id)).congr ?_, _,
    hfiled.insertHead hlist (info.portlist id), ?_⟩
  · intro j
    by_cases hj : j = id
    · subst hj
      simp [Inpcbinfo.bucketOf, Inpcbinfo.link, Inpcbinfo.hashkey, Inpcb.hashkey,
        Inpcbinfo.modify]
    · simp [Inpcbinfo.bucketOf, Inpcbinfo.link, Inpcbinfo.hashkey, Inpcbinfo.modify, hj]
  · intro j
    by_cases hj : j = id
    · subst hj
      simp [Inpcbinfo.link, Inpcbinfo.modify]
    · simpa [Inpcbinfo.link, Inpcbinfo.modify, hj] using hsome j

theorem Inpcbinfo.Tables.unlink (id : PcbId) : (info.unlink id).Tables := by
  obtain ⟨listOf, hfiled, hsome⟩ := h.port
  refine ⟨(h.hash.remove id).congr ?_, _, hfiled.remove id, ?_⟩
  · intro j
    by_cases hj : j = id
    · subst hj
      simp [Inpcbinfo.bucketOf, Inpcbinfo.unlink, Inpcbinfo.modify]
    · simp [Inpcbinfo.bucketOf, Inpcbinfo.unlink, Inpcbinfo.hashkey, Inpcbinfo.modify, hj]
  · intro j
    by_cases hj : j = id
    · subst hj
      simp [Inpcbinfo.unlink, Inpcbinfo.modify]
    · simpa [Inpcbinfo.unlink, Inpcbinfo.modify, hj] using hsome j

/-- Whatever happened to the key, a rehash files the block again. -/
theorem Inpcbinfo.Tables.rehash (id : PcbId) {f : Inpcb → Inpcb}
    (hin : (info.inpcb id).inpInhashlist = true) (hf : (f (info.inpcb id)).inpInhashlist = true) :
    ∃ r, inPcbrehash (info.modify id f) id = .ok r ∧ r.Tables ∧
      r.inpcb = (info.modify id f).inpcb ∧ r.ipiListhead = info.ipiListhead ∧
      r.ipiHashmask = info.ipiHashmask := by
  obtain ⟨listOf, hfiled, hsome⟩ := h.port
  unfold inPcbrehash
  rw [modify_inpcb_self, hf, if_pos rfl]
  refine ⟨_, rfl, ⟨(h.hash.refile id ((info.modify id f).hashkey id)).congr ?_, listOf, hfiled, ?_⟩,
    rfl, rfl, rfl⟩
  · intro j
    by_cases hj : j = id
    · subst hj
      simp [Inpcbinfo.bucketOf, Inpcbinfo.hashkey, Inpcbinfo.modify, hf]
    · simp [Inpcbinfo.bucketOf, Inpcbinfo.hashkey, Inpcbinfo.modify, hj]
  · intro j
    change _ = ((info.modify id f).inpcb j).inpInhashlist
    rw [hsome]
    by_cases hj : j = id
    · subst hj
      rw [modify_inpcb_self, hin, hf]
    · rw [modify_inpcb_of_ne hj]

end

def PcbResult.Keeps (r : PcbResult) : Prop :=
  ∃ error info, r = .ok (error, info) ∧ info.Placed

section

variable (h : info.Placed)
include h

theorem Inpcbinfo.Placed.returns (error : Option Errno) :
    PcbResult.Keeps (.ok (error, info)) := ⟨error, info, rfl, h⟩

/-- What only the changed block has to be checked for. -/
theorem Inpcbinfo.Placed.of_tables (id : PcbId) {r : Inpcbinfo} (ht : r.Tables)
    (hlist : r.ipiListhead = info.ipiListhead) (hothers : ∀ j ≠ id, r.inpcb j = info.inpcb j)
    (hself : id ∈ info.ipiListhead → (r.inpcb id).inpInhashlist = false →
      (r.inpcb id).inpDropped = false → (r.inpcb id).Blank) : r.Placed := by
  refine ⟨ht, hlist ▸ h.nodup, ?_⟩
  intro j hj hin hdrop
  rw [hlist] at hj
  by_cases hji : j = id
  · subst hji
    exact hself hj hin hdrop
  · rw [hothers j hji] at hin hdrop ⊢
    exact h.outside j hj hin hdrop

theorem Inpcbinfo.Placed.modify {f : Inpcb → Inpcb}
    (hin : (f (info.inpcb id)).inpInhashlist = (info.inpcb id).inpInhashlist)
    (hkey : (info.inpcb id).inpInhashlist = true →
      (f (info.inpcb id)).hashkey info.ipiHashmask = info.hashkey id)
    (hself : id ∈ info.ipiListhead → (info.inpcb id).inpInhashlist = false →
      (f (info.inpcb id)).inpDropped = false → (f (info.inpcb id)).Blank) :
    (info.modify id f).Placed := by
  apply h.of_tables id (h.toTables.modify id hin hkey) rfl
  · intro j hj
    exact modify_inpcb_of_ne hj f
  · rw [modify_inpcb_self, hin]
    exact hself

theorem Inpcbinfo.Placed.setAnonport (id : PcbId) :
    (info.modify id ({ · with inpAnonport := true })).Placed :=
  h.modify rfl (fun _ => rfl) fun hmem hin hdrop => h.outside id hmem hin hdrop

/-- The block is linked, or everything is as it was. -/
theorem Inpcbinfo.Placed.insertBound (hin : (info.inpcb id).inpInhashlist = false)
    (laddr : BitVec 32) (lport : BitVec 16) (phd : Bool) :
    ∃ error r, insertBound info id laddr lport phd = .ok (error, r) ∧ r.Placed ∧
      (error = none → (r.inpcb id).inpInhashlist = true) := by
  have ht := h.toTables.modify id
    (f := ({ · with inpLaddr := laddr, inpLport := lport })) rfl (by simp [hin])
  unfold Libuinet.insertBound inPcbinshash
  rw [modify_inpcb_self, if_neg (by simp [hin])]
  split
  · -- No memory for the port list: the endpoint is put back.
    refine ⟨_, _, rfl, ?_, by simp⟩
    rw [modify_modify]
    apply h.modify rfl (by simp [hin])
    intro hmem _ hdrop
    exact ⟨rfl, rfl, (h.outside id hmem hin hdrop).2.2⟩
  · refine ⟨_, _, rfl, ?_, fun _ => ?_⟩
    · apply h.of_tables id (ht.link (by simpa using hin)) rfl
      · intro j hj
        simp [Inpcbinfo.link, Inpcbinfo.modify, hj]
      · simp [Inpcbinfo.link, Inpcbinfo.modify]
    · simp [Inpcbinfo.link, Inpcbinfo.modify]

theorem Inpcbinfo.Placed.inPcbbind (e : PcbEnv) (nam : Option SockaddrIn)
    (hok : (info.inpcb id).inpInhashlist = true → (info.inpcb id).unbound = true →
      ∀ ends, inPcbbindSetup info e (info.inpcb id).inpPromisc nam (info.inpcb id).inpLaddr
        (info.inpcb id).inpLport ≠ .ok ends) : (inPcbbind info e id nam).Keeps := by
  unfold Libuinet.inPcbbind
  dsimp only
  split
  · exact h.returns _
  · next hub =>
    split
    · exact h.returns _
    · next laddr lport hsetup =>
      have hin : (info.inpcb id).inpInhashlist = false := by
        by_contra hin
        exact hok (by simpa using hin) (by simpa using hub) _ hsetup
      obtain ⟨error, r, hr, hplaced, -⟩ := h.insertBound hin laddr lport e.phd
      rw [hr]
      change PcbResult.Keeps (.ok (if _ then _ else _))
      split
      · exact (hplaced.setAnonport id).returns _
      · exact hplaced.returns _

/-- A block in the table may get any key, if it is rehashed. -/
theorem Inpcbinfo.Placed.rehash (id : PcbId) {f : Inpcb → Inpcb}
    (hin : (info.inpcb id).inpInhashlist = true) (hf : (f (info.inpcb id)).inpInhashlist = true) :
    ∃ r, inPcbrehash (info.modify id f) id = .ok r ∧ r.Placed ∧
      r.inpcb id = f (info.inpcb id) ∧ r.ipiHashmask = info.ipiHashmask := by
  obtain ⟨r, hr, ht, hpcb, hlist, hmask⟩ := h.toTables.rehash id hin hf
  have hself : r.inpcb id = f (info.inpcb id) := by rw [hpcb, modify_inpcb_self]
  refine ⟨r, hr, ?_, hself, hmask⟩
  apply h.of_tables id ht hlist
  · intro j hj
    rw [hpcb, modify_inpcb_of_ne hj]
  · intro _ hout
    rw [hself, hf] at hout
    exact absurd hout (by simp)

theorem Inpcbinfo.Placed.commitConnect (hin : (info.inpcb id).inpInhashlist = true)
    (ends : Endpoints) (anonport : Bool) : (commitConnect info id ends anonport).Keeps := by
  obtain ⟨r, hr, hplaced, -⟩ := h.rehash id (f := ({ · with
    inpLport := ends.lport, inpLaddr := ends.laddr
    inpFaddr := ends.faddr, inpFport := ends.fport })) hin hin
  unfold Libuinet.commitConnect
  rw [hr]
  change PcbResult.Keeps (.ok (none, if anonport then _ else _))
  split
  · exact (hplaced.setAnonport id).returns _
  · exact hplaced.returns _

section

variable (hmem : id ∈ info.ipiListhead) (hdrop : (info.inpcb id).inpDropped = false)
include hmem hdrop

theorem Inpcbinfo.Placed.inPcbconnect (e : PcbEnv) (nam : SockaddrIn)
    (hok : (info.inpcb id).inpInhashlist = true → (info.inpcb id).unbound = true →
      ∀ ends, inPcbconnectSetup info e id nam ≠ .ok ends) : (inPcbconnect info e id nam).Keeps := by
  unfold Libuinet.inPcbconnect
  dsimp only
  split
  · exact h.returns _
  · next ends hsetup =>
    split
    · next hub =>
      have hin : (info.inpcb id).inpInhashlist = false := by
        by_contra hin
        exact hok (by simpa using hin) hub _ hsetup
      obtain ⟨error, r, hr, hplaced, hlinked⟩ := h.insertBound hin ends.laddr ends.lport e.phd
      rw [hr]
      change (if error.isSome = true then _ else _ : PcbResult).Keeps
      split
      · exact hplaced.returns _
      · next herr => exact hplaced.commitConnect (hlinked (by simpa using herr)) ends _
    · next hub =>
      -- A block with an address or a port is in the table.
      have hin : (info.inpcb id).inpInhashlist = true := by
        by_contra hin
        obtain ⟨hladdr, hlport, -⟩ := h.outside id hmem (by simpa using hin) hdrop
        exact hub (by simp [Inpcb.unbound, hladdr, hlport])
      exact h.commitConnect hin ends _

theorem Inpcbinfo.Placed.udpDisconnect (hok : (info.inpcb id).inpFaddr ≠ inaddrAny →
      Inpcb.hashkey { info.inpcb id with
        inpFaddr := inaddrAny, inpFport := 0, inpLaddr := inaddrAny } info.ipiHashmask =
      Inpcb.hashkey { info.inpcb id with inpFaddr := inaddrAny, inpFport := 0 }
        info.ipiHashmask) : (udpDisconnect info id).Keeps := by
  unfold Libuinet.udpDisconnect
  split
  · exact h.returns _
  · next hfaddr =>
    have hin : (info.inpcb id).inpInhashlist = true := by
      by_contra hin
      exact hfaddr (h.outside id hmem (by simpa using hin) hdrop).2.2
    obtain ⟨r, hr, hplaced, hself, hmask⟩ := h.rehash id
      (f := ({ · with inpFaddr := inaddrAny, inpFport := 0 })) hin hin
    unfold inPcbdisconnect
    rw [hr]
    apply Inpcbinfo.Placed.returns
    apply hplaced.modify rfl
    · intro _
      rw [hashkey, hself, hmask]
      exact hok hfaddr
    · intro _ hout
      rw [hself, hin] at hout
      exact absurd hout (by simp)

end

theorem Inpcbinfo.Placed.drop (id : PcbId) : (inPcbdrop info id).Placed := by
  have hdropped : (info.modify id ({ · with inpDropped := true })).Placed := by
    apply h.modify rfl (fun _ => rfl)
    intro _ _ hdrop
    exact absurd hdrop (by simp)
  unfold inPcbdrop
  dsimp only
  split
  · apply hdropped.of_tables id (hdropped.toTables.unlink id) rfl
    · intro j hj
      simp [Inpcbinfo.unlink, Inpcbinfo.modify, hj]
    · simp [Inpcbinfo.unlink, Inpcbinfo.modify]
  · exact hdropped

/-- A block that is freed leaves the list of blocks as well. -/
theorem Inpcbinfo.Placed.detach (id : PcbId) : (inPcbremlists info id).Placed := by
  -- Only blocks other than the freed one are left to check.
  have hrest {r : Inpcbinfo} (ht : r.Tables) (hlist : r.ipiListhead = info.ipiListhead)
      (hothers : ∀ j ≠ id, r.inpcb j = info.inpcb j) :
      Inpcbinfo.Placed { r with ipiListhead := r.ipiListhead.erase id } := by
    refine ⟨{ ht with }, hlist ▸ h.nodup.erase id, ?_⟩
    intro j hj hin hdrop
    dsimp only at hj hin hdrop ⊢
    rw [hlist, h.nodup.mem_erase_iff] at hj
    rw [hothers j hj.1] at hin hdrop ⊢
    exact h.outside j hj.2 hin hdrop
  unfold inPcbremlists
  dsimp only
  split
  · apply hrest (h.toTables.unlink id) rfl
    intro j hj
    simp [Inpcbinfo.unlink, Inpcbinfo.modify, hj]
  · exact hrest h.toTables rfl fun _ _ => rfl

end

/-- The operation keeps the rules in this state: it does not bind or connect a block
that is in the table with neither address nor port, and a change of the key that no
rehash follows leaves the bucket as it is. -/
def PcbOp.Ok (info : Inpcbinfo) (id : PcbId) : PcbOp → Prop
  | .bind e nam => (info.inpcb id).inpInhashlist = true → (info.inpcb id).unbound = true →
      ∀ ends, inPcbbindSetup info e (info.inpcb id).inpPromisc nam (info.inpcb id).inpLaddr
        (info.inpcb id).inpLport ≠ .ok ends
  | .connect e nam => (info.inpcb id).inpInhashlist = true → (info.inpcb id).unbound = true →
      (info.inpcb id).inpFaddr = inaddrAny → ∀ ends, inPcbconnectSetup info e id nam ≠ .ok ends
  | .disconnect => (info.inpcb id).inpFaddr ≠ inaddrAny →
      Inpcb.hashkey { info.inpcb id with
        inpFaddr := inaddrAny, inpFport := 0, inpLaddr := inaddrAny } info.ipiHashmask =
      Inpcb.hashkey { info.inpcb id with inpFaddr := inaddrAny, inpFport := 0 } info.ipiHashmask
  | .setsockopt opt => (info.inpcb id).inpInhashlist = true →
      (opt.set (info.inpcb id)).hashkey info.ipiHashmask = info.hashkey id
  | .drop => True
  | .detach => True

theorem KeyOption.set_inpInhashlist (opt : KeyOption) (inp : Inpcb) :
    (opt.set inp).inpInhashlist = inp.inpInhashlist := by
  cases opt <;> rfl

theorem KeyOption.set_inpDropped (opt : KeyOption) (inp : Inpcb) :
    (opt.set inp).inpDropped = inp.inpDropped := by
  cases opt <;> rfl

theorem KeyOption.set_blank (opt : KeyOption) {inp : Inpcb} (h : inp.Blank) :
    (opt.set inp).Blank := by
  cases opt <;> exact h

/-- One operation. -/
theorem Inpcbinfo.Placed.call (h : info.Placed) (id : PcbId) (op : PcbOp) (hok : op.Ok info id) :
    (pcbCall info id op).Keeps := by
  unfold pcbCall
  split
  · exact h.returns _
  · next hmem =>
    rw [not_not] at hmem
    cases op with
    | bind e nam =>
      dsimp only
      split
      · exact h.returns _
      · exact h.inPcbbind e nam hok
    | connect e nam =>
      dsimp only
      split
      · exact h.returns _
      · next hdrop =>
        unfold udpConnect
        split
        · exact h.returns _
        · next hfaddr =>
          rw [not_not] at hfaddr
          exact h.inPcbconnect hmem (by simpa using hdrop) e nam
            fun hin hub => hok hin hub hfaddr
    | disconnect =>
      dsimp only
      split
      · exact h.returns _
      · next hdrop => exact h.udpDisconnect hmem (by simpa using hdrop) hok
    | setsockopt opt =>
      apply Inpcbinfo.Placed.returns
      apply h.modify (opt.set_inpInhashlist _) hok
      intro hmem hin hdrop
      rw [opt.set_inpDropped] at hdrop
      exact opt.set_blank (h.outside id hmem hin hdrop)
    | drop => exact (h.drop id).returns _
    | detach => exact (h.detach id).returns _

structure Inpcbinfo.Fresh (info : Inpcbinfo) : Prop where
  hash : info.ipiHashbase = ChainTable.empty
  port : info.ipiPorthashbase = ChainTable.empty
  nodup : info.ipiListhead.Nodup
  blank : ∀ id, (info.inpcb id).inpInhashlist = false ∧ (info.inpcb id).Blank

theorem Inpcbinfo.Fresh.placed (h : info.Fresh) : info.Placed := by
  refine ⟨⟨?_, fun _ => none, ?_, ?_⟩, h.nodup, fun id _ _ _ => (h.blank id).2⟩
  · rw [h.hash]
    apply filed_empty.congr
    intro id
    simp [bucketOf, (h.blank id).1]
  · rw [h.port]
    exact filed_empty
  · intro id
    simp [(h.blank id).1]

/-- Every block in the hash is once on the chain its current key hashes to and on no
other, and once on one port list and on no other. -/
def Inpcbinfo.PlacedOnce (info : Inpcbinfo) : Prop :=
  ∀ id, (info.inpcb id).inpInhashlist = true →
    (∀ b, (info.ipiHashbase b).count id = if b = info.hashkey id then 1 else 0) ∧
    ∃ p, ∀ q, (info.ipiPorthashbase q).count id = if q = p then 1 else 0

theorem Inpcbinfo.Tables.placedOnce (h : info.Tables) : info.PlacedOnce := by
  intro id hin
  obtain ⟨listOf, hfiled, hsome⟩ := h.port
  constructor
  · intro b
    rw [h.hash b id]
    simp [bucketOf, hin, eq_comm]
  · obtain ⟨p, hp⟩ := Option.isSome_iff_exists.1 ((hsome id).trans hin)
    refine ⟨p, fun q => ?_⟩
    rw [hfiled q id, hp]
    simp [eq_comm]

def StepOk (s : Except String Inpcbinfo) (op : PcbId × PcbOp) : Prop :=
  ∀ info, s = .ok info → op.2.Ok info op.1

/-- In every run whose steps meet the condition, no block is inserted twice and every
block in the hash is in its place. -/
theorem pcb_hash_placement (info : Inpcbinfo) (ops : List (PcbId × PcbOp)) (hfresh : info.Fresh)
    (hok : Along pcbStep StepOk (.ok info) ops) :
    ∃ r, run pcbStep (.ok info) ops = .ok r ∧ r.PlacedOnce := by
  have hinv : ∃ r, run pcbStep (.ok info) ops = .ok r ∧ r.Placed := by
    apply run_invariant (I := fun s => ∃ r, s = .ok r ∧ r.Placed) (P := StepOk) _
      ⟨info, rfl, hfresh.placed⟩ hok
    rintro s op ⟨r, rfl, hr⟩ hstep
    obtain ⟨error, r', hcall, hr'⟩ := hr.call op.1 op.2 (hstep r rfl)
    refine ⟨r', ?_, hr'⟩
    change (pcbCall r op.1 op.2).map (·.2) = .ok r'
    rw [hcall]
    rfl
  obtain ⟨r, hr, hplaced⟩ := hinv
  exact ⟨r, hr, hplaced.toTables.placedOnce⟩

def oneSocket : Inpcbinfo where
  ipiHashmask := 511
  ipiPorthashmask := 511
  ipiListhead := [0]
  inpcb := fun id => if id = 0 then { inpPromisc := true } else {}
  ipiHashbase := ChainTable.empty
  ipiPorthashbase := ChainTable.empty

theorem oneSocket_fresh : oneSocket.Fresh := by
  refine ⟨rfl, rfl, by decide, ?_⟩
  intro id
  unfold oneSocket
  dsimp only
  split <;> exact ⟨rfl, rfl, rfl, rfl⟩

/-- Set the fib, then bind to port 80. -/
def fibThenBind : List (PcbId × PcbOp) :=
  [(0, .setsockopt (.setfib 1)), (0, .bind {} (some ⟨inaddrAny, 0x5000, true, true⟩))]

theorem pcb_hash_placement_bound :
    ∃ r, run pcbStep (.ok oneSocket) fibThenBind = .ok r ∧ (r.inpcb 0).inpInhashlist = true ∧
      r.PlacedOnce := by
  have hbound : ∃ r, run pcbStep (.ok oneSocket) fibThenBind = .ok r ∧
      (r.inpcb 0).inpInhashlist = true := ⟨_, rfl, rfl⟩
  have hok : Along pcbStep StepOk (.ok oneSocket) fibThenBind := by
    refine ⟨?_, ?_, trivial⟩ <;>
    · intro info hinfo
      cases hinfo
      exact fun hin => absurd hin (by decide)
  obtain ⟨r, hr, hin⟩ := hbound
  obtain ⟨r', hr', hplaced⟩ := pcb_hash_placement oneSocket fibThenBind oneSocket_fresh hok
  rw [hr] at hr'
  cases hr'
  exact ⟨r, hr, hin, hplaced⟩

/-- Bound to every address and every port, the socket passes for unbound and is
inserted a second time; and with the fib changed after the bind it is on no chain of
its key. -/
theorem pcb_hash_placement_fails :
    oneSocket.Fresh ∧
    run pcbStep (.ok oneSocket) [(0, .bind {} (some ⟨inaddrAny, 0, true, true⟩)),
      (0, .bind {} (some ⟨inaddrAny, 0x5000, true, true⟩))] =
        .error "in_pcbinshash: INP_INHASHLIST" ∧
    ∃ r, run pcbStep (.ok oneSocket) [(0, .bind {} (some ⟨inaddrAny, 0x5000, true, true⟩)),
      (0, .setsockopt (.setfib 1))] = .ok r ∧ (r.inpcb 0).inpInhashlist = true ∧
      (r.ipiHashbase (r.hashkey 0)).count 0 = 0 ∧ ¬ r.PlacedOnce := by
  have hrun : ∃ r, run pcbStep (.ok oneSocket)
      [(0, .bind {} (some ⟨inaddrAny, 0x5000, true, true⟩)), (0, .setsockopt (.setfib 1))] =
        .ok r ∧ (r.inpcb 0).inpInhashlist = true ∧ (r.ipiHashbase (r.hashkey 0)).count 0 = 0 :=
    ⟨_, rfl, rfl, by decide +kernel⟩
  obtain ⟨r, hr, hin, hcount⟩ := hrun
  refine ⟨oneSocket_fresh, rfl, r, hr, hin, hcount, ?_⟩
  intro h
  have hone := (h 0 hin).1 (r.hashkey 0)
  rw [hcount, if_pos rfl] at hone
  exact absurd hone (by decide)

end Libuinet
