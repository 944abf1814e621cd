import Libuinet.Execution
import Libuinet.InPcb
import Libuinet.RefCount

namespace Libuinet

open Execution RefCount

/-- `synf_callback`: `syn_filter_null_callback`, or that of a module. -/
inductive SynfCallback where
  | null
  | module (n : ℕ)
  deriving DecidableEq

structure SynFilterInternal where
  synfName : String
  synfCallback : SynfCallback
  refcount : ℕ

abbrev SfiId := ℕ

/-- `syn_filter_head` with the entries it links, and the filters that `inp_synf` of the
control blocks refers to. -/
@[ext]
structure SynFilters where
  synFilterHead : List SfiId
  sfi : SfiId → SynFilterInternal
  nextSfi : SfiId
  inpSynf : PcbId → Option SfiId

def enoent : Errno := .other 2
def eexist : Errno := .other 17

namespace SynFilters

variable (s : SynFilters)

def synFilterGetLocked (name : String) : Option SfiId :=
  s.synFilterHead.find? fun id => (s.sfi id).synfName = name

def modifySfi (id : SfiId) (f : SynFilterInternal → SynFilterInternal) : SynFilters :=
  { s with sfi := Function.update s.sfi id (f (s.sfi id)) }

def synFilterDetachLocked (id : SfiId) : SynFilters :=
  let s' := s.modifySfi id fun p => { p with refcount := p.refcount - 1 }
  if (s.sfi id).refcount = 1 then { s' with synFilterHead := s'.synFilterHead.erase id } else s'

section Detach

variable (s : SynFilters) (id : SfiId)

theorem detach_sfi : (s.synFilterDetachLocked id).sfi =
    Function.update s.sfi id { s.sfi id with refcount := (s.sfi id).refcount - 1 } := by
  unfold synFilterDetachLocked
  dsimp only
  split <;> rfl

theorem detach_head : (s.synFilterDetachLocked id).synFilterHead =
    if (s.sfi id).refcount = 1 then s.synFilterHead.erase id else s.synFilterHead := by
  unfold synFilterDetachLocked
  dsimp only
  split <;> rfl

theorem detach_nextSfi : (s.synFilterDetachLocked id).nextSfi = s.nextSfi := by
  unfold synFilterDetachLocked
  dsimp only
  split <;> rfl

theorem detach_inpSynf : (s.synFilterDetachLocked id).inpSynf = s.inpSynf := by
  unfold synFilterDetachLocked
  dsimp only
  split <;> rfl

end Detach

def synFilterAdd (name : String) (callback : SynfCallback) : Option Errno × SynFilters :=
  match s.synFilterGetLocked name with
  | some id =>
    if (s.sfi id).synfCallback ≠ .null then (some eexist, s)
    -- a zombie gets a callback again, but no reference
    else (none, s.modifySfi id fun p => { p with synfCallback := callback })
  | none =>
    (none, { s with
      sfi := Function.update s.sfi s.nextSfi ⟨name, callback, 1⟩
      nextSfi := s.nextSfi + 1
      synFilterHead := s.nextSfi :: s.synFilterHead })

def synFilterDel (name : String) : SynFilters :=
  match s.synFilterGetLocked name with
  | some id =>
    (s.modifySfi id fun p => { p with synfCallback := .null }).synFilterDetachLocked id
  | none => s

def synFilterRunDestructor (inp : PcbId) : SynFilters :=
  match s.inpSynf inp with
  | some id => { s.synFilterDetachLocked id with inpSynf := Function.update s.inpSynf inp none }
  | none => s

def installed (inp : PcbId) (id : SfiId) (created : Bool) : Option Errno × SynFilters :=
  let s := { s with inpSynf := Function.update s.inpSynf inp (some id) }
  if created then (none, s)
  else
    (some .einval,
      { s.synFilterDetachLocked id with inpSynf := Function.update s.inpSynf inp none })

/-- `IP_SYNFILTER` of `syn_filter_setopt`.  Without a name the filter is removed; `created`
says whether its constructor succeeds. -/
def setSynfilter (promisc : Bool) (inp : PcbId) (name : Option String) (created : Bool) :
    Option Errno × SynFilters :=
  if !promisc then (some .einval, s)
  else
    match name with
    | none => (none, s.synFilterRunDestructor inp)
    | some name =>
      -- the old filter must be removed first
      if s.inpSynf inp ≠ none then (some .einval, s)
      else
        match s.synFilterGetLocked name with
        | none => (some enoent, s)
        | some id =>
          (s.modifySfi id fun p => { p with refcount := p.refcount + 1 }).installed inp id created

/-- The names on the list are unique and each entry has a reference. -/
structure Listed (s : SynFilters) : Prop where
  names : (s.synFilterHead.map fun id => (s.sfi id).synfName).Nodup
  counted : ∀ id ∈ s.synFilterHead, 0 < (s.sfi id).refcount
  fresh : ∀ id ∈ s.synFilterHead, id < s.nextSfi

theorem mem_of_getLocked {s : SynFilters} {name : String} {id : SfiId}
    (h : s.synFilterGetLocked name = some id) :
    id ∈ s.synFilterHead ∧ (s.sfi id).synfName = name := by
  refine ⟨List.mem_of_find?_eq_some h, ?_⟩
  simpa using List.find?_some h

theorem ne_of_getLocked_none {s : SynFilters} {name : String}
    (h : s.synFilterGetLocked name = none) :
    ∀ id ∈ s.synFilterHead, (s.sfi id).synfName ≠ name := by
  intro id hid
  simpa using List.find?_eq_none.1 h id hid

namespace Listed

variable {s : SynFilters}

section

variable (h : s.Listed)
include h

theorem nodup : s.synFilterHead.Nodup := h.names.of_map _

theorem eq_of_name {i j : SfiId} (hi : i ∈ s.synFilterHead) (hj : j ∈ s.synFilterHead)
    (hname : (s.sfi i).synfName = (s.sfi j).synfName) : i = j :=
  List.inj_on_of_nodup_map h.names hi hj hname

theorem getLocked {id : SfiId} (hid : id ∈ s.synFilterHead) :
    s.synFilterGetLocked (s.sfi id).synfName = some id := by
  cases hget : s.synFilterGetLocked (s.sfi id).synfName with
  | none => exact absurd rfl (ne_of_getLocked_none hget id hid)
  | some j =>
    obtain ⟨hj, hname⟩ := mem_of_getLocked hget
    rw [h.eq_of_name hj hid hname]

/-- An entry changes, but not its name. -/
theorem modifySfi (id : SfiId) {f : SynFilterInternal → SynFilterInternal}
    (hname : (f (s.sfi id)).synfName = (s.sfi id).synfName)
    (hrefs : (s.sfi id).refcount ≤ (f (s.sfi id)).refcount) : (s.modifySfi id f).Listed := by
  have hnames (j : SfiId) : ((s.modifySfi id f).sfi j).synfName = (s.sfi j).synfName := by
    by_cases hj : j = id
    · simp [SynFilters.modifySfi, hj, hname]
    · simp [SynFilters.modifySfi, hj]
  refine ⟨?_, ?_, h.fresh⟩
  · simp only [hnames]
    exact h.names
  · intro j hj
    have hpos := h.counted j hj
    by_cases hji : j = id
    · subst hji
      simpa [SynFilters.modifySfi] using hpos.trans_le hrefs
    · simpa [SynFilters.modifySfi, hji] using hpos

/-- A reference is released, the last one with the entry. -/
theorem detach (id : SfiId) : (s.synFilterDetachLocked id).Listed := by
  have hnames (j : SfiId) :
      ((s.synFilterDetachLocked id).sfi j).synfName = (s.sfi j).synfName := by
    rw [detach_sfi]
    by_cases hj : j = id <;> simp [hj]
  have hsub : (s.synFilterDetachLocked id).synFilterHead.Sublist s.synFilterHead := by
    rw [detach_head]
    split
    · exact List.erase_sublist
    · exact List.Sublist.refl _
  refine ⟨?_, ?_, ?_⟩
  · simp only [hnames]
    exact List.Nodup.sublist (hsub.map _) h.names
  · intro j hj
    have hpos := h.counted j (hsub.subset hj)
    rw [detach_sfi]
    by_cases hji : j = id
    · subst hji
      have hmore : (s.sfi j).refcount ≠ 1 := by
        intro hone
        rw [detach_head, if_pos hone, h.nodup.mem_erase_iff] at hj
        exact hj.1 rfl
      simp only [Function.update_self]
      omega
    · simpa [hji] using hpos
  · intro j hj
    rw [detach_nextSfi]
    exact h.fresh j (hsub.subset hj)

theorem add (name : String) (callback : SynfCallback) :
    (s.synFilterAdd name callback).2.Listed := by
  unfold synFilterAdd
  cases hget : s.synFilterGetLocked name with
  | some id =>
    dsimp only
    split
    · exact h
    · exact h.modifySfi id (f := fun p => { p with synfCallback := callback }) rfl le_rfl
  | none =>
    have hnew := ne_of_getLocked_none hget
    have hne {j : SfiId} (hj : j ∈ s.synFilterHead) : j ≠ s.nextSfi := Nat.ne_of_lt (h.fresh j hj)
    refine ⟨?_, ?_, ?_⟩
    · simp only [List.map_cons, Function.update_self, List.nodup_cons, List.mem_map, not_exists]
      refine ⟨fun j hj => ?_, ?_⟩
      · rw [Function.update_of_ne (hne hj.1)] at hj
        exact hnew j hj.1 hj.2
      · rw [List.map_congr_left fun j hj => by rw [Function.update_of_ne (hne hj)]]
        exact h.names
    · intro j hj
      rcases List.mem_cons.1 hj with rfl | hj
      · simp
      · simpa [hne hj] using h.counted j hj
    · intro j hj
      rcases List.mem_cons.1 hj with rfl | hj
      · exact Nat.lt_succ_self _
      · exact Nat.lt_succ_of_lt (h.fresh j hj)

theorem del (name : String) : (s.synFilterDel name).Listed := by
  unfold synFilterDel
  cases s.synFilterGetLocked name with
  | some id =>
    apply detach
    exact h.modifySfi id (f := fun p => { p with synfCallback := .null }) rfl le_rfl
  | none => exact h

theorem runDestructor (inp : PcbId) : (s.synFilterRunDestructor inp).Listed := by
  unfold synFilterRunDestructor
  cases s.inpSynf inp with
  | some id =>
    have hd := h.detach id
    exact { hd with }
  | none => exact h

theorem installed (inp : PcbId) (id : SfiId) (created : Bool) :
    (s.installed inp id created).2.Listed := by
  have hs : ({ s with inpSynf := Function.update s.inpSynf inp (some id) } : SynFilters).Listed :=
    { h with }
  cases created with
  | true => exact hs
  | false =>
    have hd := hs.detach id
    exact { hd with }

theorem setSynfilter (promisc : Bool) (inp : PcbId) (name : Option String) (created : Bool) :
    (s.setSynfilter promisc inp name created).2.Listed := by
  unfold SynFilters.setSynfilter
  split
  · exact h
  · cases name with
    | none => exact h.runDestructor inp
    | some name =>
      dsimp only
      split
      · exact h
      · cases s.synFilterGetLocked name with
        | none => exact h
        | some id => exact (h.modifySfi id rfl (Nat.le_succ _)).installed inp id created

end

end Listed

end SynFilters

/-- A module with its `struct syn_filter`.  Two modules may bring a filter of one name. -/
structure SynfModule where
  modid : ℕ
  synfName : String
  deriving DecidableEq

/-- The registry, and the modules that are loaded. -/
structure SynfWorld extends SynFilters where
  loaded : SynfModule → Bool

inductive SynfOp where
  | load (mod : SynfModule)
  | unload (mod : SynfModule)
  | setopt (promisc : Bool) (inp : PcbId) (name : Option String) (created : Bool)
  | destroy (inp : PcbId)

/-- One operation, with `net.inet.synf.unloadable` set: `MOD_LOAD` and `MOD_UNLOAD` of
`syn_filter_generic_mod_event`, the option and the end of a control block.  A load that
fails leaves the module unloaded, unless it was there before. -/
def synfStep (w : SynfWorld) : SynfOp → SynfWorld
  | .load mod =>
    let (error, s) := w.synFilterAdd mod.synfName (.module mod.modid)
    { s with loaded := if error.isNone then Function.update w.loaded mod true else w.loaded }
  | .unload mod =>
    -- the filter is looked up by its name, whichever module registered it
    { w.synFilterDel mod.synfName with loaded := Function.update w.loaded mod false }
  | .setopt promisc inp name created =>
    { (w.setSynfilter promisc inp name created).2 with loaded := w.loaded }
  | .destroy inp => { w.synFilterRunDestructor inp with loaded := w.loaded }

def SynfWorld.empty : SynfWorld where
  synFilterHead := []
  sfi := fun _ => ⟨"", .null, 0⟩
  nextSfi := 0
  inpSynf := fun _ => none
  loaded := fun _ => false

/-- Whatever happens, the list stays in order. -/
theorem SynFilters.Listed.step {w : SynfWorld} (h : w.Listed) (op : SynfOp) :
    (synfStep w op).Listed := by
  cases op with
  | load mod =>
    have h' := h.add mod.synfName (.module mod.modid)
    exact { h' with }
  | unload mod =>
    have h' := h.del mod.synfName
    exact { h' with }
  | setopt promisc inp name created =>
    have h' := h.setSynfilter promisc inp name created
    exact { h' with }
  | destroy inp =>
    have h' := h.runDestructor inp
    exact { h' with }

namespace SynfWorld

open SynFilters

def NameLoaded (w : SynfWorld) (name : String) : Prop :=
  ∃ mod : SynfModule, w.loaded mod = true ∧ mod.synfName = name

open Classical in
noncomputable def moduleRefs (w : SynfWorld) (name : String) : ℕ :=
  if w.NameLoaded name then 1 else 0

/-- The references there ought to be: the control blocks that use the entry, and its
module if that is loaded. -/
noncomputable def owed (w : SynfWorld) (id : SfiId) : ℕ :=
  users w.inpSynf id + w.moduleRefs (w.sfi id).synfName

section NameLoaded

variable {w w' : SynfWorld} {name : String}

theorem nameLoaded_congr
    (h : ∀ mod : SynfModule, mod.synfName = name → w'.loaded mod = w.loaded mod) :
    w'.NameLoaded name ↔ w.NameLoaded name := by
  unfold NameLoaded
  constructor
  · rintro ⟨mod, hl, hname⟩
    exact ⟨mod, h mod hname ▸ hl, hname⟩
  · rintro ⟨mod, hl, hname⟩
    exact ⟨mod, (h mod hname).trans hl, hname⟩

theorem moduleRefs_congr (h : w'.NameLoaded name ↔ w.NameLoaded name) :
    w'.moduleRefs name = w.moduleRefs name := by
  unfold moduleRefs
  by_cases hl : w.NameLoaded name
  · rw [if_pos hl, if_pos (h.2 hl)]
  · rw [if_neg hl, if_neg (mt h.1 hl)]

theorem moduleRefs_of_loaded (h : w.NameLoaded name) : w.moduleRefs name = 1 := if_pos h

theorem moduleRefs_of_not_loaded (h : ¬ w.NameLoaded name) : w.moduleRefs name = 0 := if_neg h

end NameLoaded

section Load

variable {w : SynfWorld} {mod : SynfModule} {id : SfiId}

section

variable (hget : w.synFilterGetLocked mod.synfName = some id)
include hget

/-- A filter of that name is there. -/
theorem step_load_live (hcb : (w.sfi id).synfCallback ≠ .null) :
    synfStep w (.load mod) = w := by
  simp [synfStep, synFilterAdd, hget, hcb]

/-- A zombie of that name is there. -/
theorem step_load_zombie (hcb : (w.sfi id).synfCallback = .null) :
    synfStep w (.load mod) =
      { w.modifySfi id fun p => { p with synfCallback := .module mod.modid } with
        loaded := Function.update w.loaded mod true } := by
  simp [synfStep, synFilterAdd, hget, hcb]

end

/-- The name is new. -/
theorem step_load_new (hget : w.synFilterGetLocked mod.synfName = none) :
    synfStep w (.load mod) =
      { sfi := Function.update w.sfi w.nextSfi ⟨mod.synfName, .module mod.modid, 1⟩
        nextSfi := w.nextSfi + 1
        synFilterHead := w.nextSfi :: w.synFilterHead
        inpSynf := w.inpSynf
        loaded := Function.update w.loaded mod true } := by
  simp [synfStep, synFilterAdd, hget]

end Load

/-- Unloading a filter that is there leaves the null callback and takes a reference. -/
structure Unloaded (w : SynfWorld) (mod : SynfModule) (id : SfiId) (w' : SynfWorld) : Prop where
  sfi : w'.sfi = Function.update w.sfi id
    ⟨(w.sfi id).synfName, .null, (w.sfi id).refcount - 1⟩
  head : w'.synFilterHead =
    if (w.sfi id).refcount = 1 then w.synFilterHead.erase id else w.synFilterHead
  inpSynf : w'.inpSynf = w.inpSynf
  loaded : w'.loaded = Function.update w.loaded mod false

theorem step_unload {w : SynfWorld} {mod : SynfModule} {id : SfiId}
    (hget : w.synFilterGetLocked mod.synfName = some id) :
    Unloaded w mod id (synfStep w (.unload mod)) := by
  have hdel : w.synFilterDel mod.synfName =
      (w.modifySfi id fun p => { p with synfCallback := .null }).synFilterDetachLocked id := by
    simp [synFilterDel, hget]
  refine ⟨?_, ?_, ?_, rfl⟩
  · change (w.synFilterDel mod.synfName).sfi = _
    rw [hdel, detach_sfi]
    simp [modifySfi]
  · change (w.synFilterDel mod.synfName).synFilterHead = _
    rw [hdel, detach_head]
    simp [modifySfi]
  · change (w.synFilterDel mod.synfName).inpSynf = _
    rw [hdel, detach_inpSynf]
    rfl

structure Consistent (w : SynfWorld) : Prop where
  names : (w.synFilterHead.map fun id => (w.sfi id).synfName).Nodup
  refcount : ∀ id ∈ w.synFilterHead, (w.sfi id).refcount = w.owed id
  positive : ∀ id ∈ w.synFilterHead, 0 < w.owed id
  attached : ∀ inp id, w.inpSynf inp = some id → id ∈ w.synFilterHead
  registered : ∀ mod, w.loaded mod = true →
    ∃ id ∈ w.synFilterHead, (w.sfi id).synfName = mod.synfName

def Zombie (w : SynfWorld) (name : String) : Prop :=
  ∃ id ∈ w.synFilterHead, (w.sfi id).synfName = name ∧ (w.sfi id).synfCallback = .null

instance (w : SynfWorld) (name : String) : Decidable (w.Zombie name) :=
  inferInstanceAs (Decidable (∃ id ∈ w.synFilterHead, _))

end SynfWorld

/-- A module is not loaded over a zombie, and a module that is not loaded (its load may
have failed) is not unloaded over a filter of its name. -/
def SynfOp.Proper (w : SynfWorld) : SynfOp → Prop
  | .load mod => ¬ w.Zombie mod.synfName
  | .unload mod =>
    w.loaded mod = true ∨ ∀ id ∈ w.synFilterHead, (w.sfi id).synfName ≠ mod.synfName
  | _ => True

instance (w : SynfWorld) : (op : SynfOp) → Decidable (op.Proper w)
  | .load mod => inferInstanceAs (Decidable (¬ w.Zombie mod.synfName))
  | .unload _ => inferInstanceAs (Decidable (_ ∨ _))
  | .setopt .. => instDecidableTrue
  | .destroy _ => instDecidableTrue

namespace SynfWorld

open SynFilters

/-- An entry with the references it ought to have.  It is a zombie if its module is gone. -/
structure EntryOk (w : SynfWorld) (id : SfiId) : Prop where
  refcount : (w.sfi id).refcount = w.owed id
  positive : 0 < w.owed id
  callback : (w.sfi id).synfCallback = .null ↔ ¬ w.NameLoaded (w.sfi id).synfName

/-- An entry that an operation does not touch stays in order. -/
theorem EntryOk.congr {w w' : SynfWorld} {id : SfiId} (h : w.EntryOk id)
    (hsfi : w'.sfi id = w.sfi id) (husers : users w'.inpSynf id = users w.inpSynf id)
    (hloaded : w'.NameLoaded (w.sfi id).synfName ↔ w.NameLoaded (w.sfi id).synfName) :
    w'.EntryOk id := by
  have howed : w'.owed id = w.owed id := by
    unfold owed
    rw [hsfi, husers, moduleRefs_congr hloaded]
  refine ⟨?_, ?_, ?_⟩
  · rw [hsfi, howed]
    exact h.refcount
  · rw [howed]
    exact h.positive
  · rw [hsfi, hloaded]
    exact h.callback

/-- Every entry of the list is in order, and no other is referred to. -/
structure Registered (w : SynfWorld) : Prop where
  listed : w.Listed
  entries : ∀ id ∈ w.synFilterHead, w.EntryOk id
  attached : ∀ inp id, w.inpSynf inp = some id → id ∈ w.synFilterHead
  registered : ∀ mod, w.loaded mod = true →
    ∃ id ∈ w.synFilterHead, (w.sfi id).synfName = mod.synfName
  unique : ∀ mod mod' : SynfModule, w.loaded mod = true → w.loaded mod' = true →
    mod.synfName = mod'.synfName → mod = mod'
  finitary : Finitary w.inpSynf

namespace Registered

variable {w : SynfWorld}

section

variable (h : w.Registered)
include h

theorem consistent : w.Consistent :=
  ⟨h.listed.names, fun id hid => (h.entries id hid).refcount,
    fun id hid => (h.entries id hid).positive, h.attached, h.registered⟩

variable {id : SfiId}

/-- One reference to an entry is given back, by a control block or by the module. -/
theorem release (hid : id ∈ w.synFilterHead) {w' : SynfWorld} (callback : SynfCallback)
    (hsfi : w'.sfi = Function.update w.sfi id
      ⟨(w.sfi id).synfName, callback, (w.sfi id).refcount - 1⟩) (hhead : w'.synFilterHead =
      if (w.sfi id).refcount = 1 then w.synFilterHead.erase id else w.synFilterHead)
    (hself : users w'.inpSynf id + w'.moduleRefs (w.sfi id).synfName + 1 = w.owed id)
    (hothers : ∀ j ∈ w.synFilterHead, j ≠ id → users w'.inpSynf j = users w.inpSynf j ∧
      (w'.NameLoaded (w.sfi j).synfName ↔ w.NameLoaded (w.sfi j).synfName))
    (hfin : Finitary w'.inpSynf)
    (hatt : ∀ inp j, w'.inpSynf inp = some j → w.inpSynf inp = some j)
    (hloaded : ∀ mod, w'.loaded mod = true → w.loaded mod = true)
    (hnull : callback = .null ↔ ¬ w'.NameLoaded (w.sfi id).synfName) (hlisted : w'.Listed) :
    w'.Registered := by
  have hrefs := (h.entries id hid).refcount
  have hat : w'.sfi id = ⟨(w.sfi id).synfName, callback, (w.sfi id).refcount - 1⟩ := by
    rw [hsfi]
    simp
  have hoff (j : SfiId) (hj : j ≠ id) : w'.sfi j = w.sfi j := by
    rw [hsfi]
    simp [hj]
  have hnames (j : SfiId) : (w'.sfi j).synfName = (w.sfi j).synfName := by
    by_cases hj : j = id
    · rw [hj, hat]
    · rw [hoff j hj]
  have howed : w'.owed id + 1 = w.owed id := by
    rw [← hself]
    unfold owed
    rw [hnames]
  have hmem (j : SfiId) : j ∈ w'.synFilterHead ↔
      j ∈ w.synFilterHead ∧ (j = id → (w.sfi id).refcount ≠ 1) := by
    rw [hhead]
    split
    · next hone => simp [h.listed.nodup.mem_erase_iff, hone, and_comm]
    · next hmore => simp [hmore]
  -- with the last reference all users are gone
  have hlast (hone : (w.sfi id).refcount = 1) : w'.owed id = 0 := by omega
  refine ⟨hlisted, ?_, ?_, ?_, fun mod mod' hl hl' => h.unique mod mod' (hloaded mod hl)
    (hloaded mod' hl'), hfin⟩
  · intro j hj
    obtain ⟨hj, hmore⟩ := (hmem j).1 hj
    by_cases hji : j = id
    · subst hji
      have hmore := hmore rfl
      have hpos := (h.entries j hj).positive
      refine ⟨?_, by omega, ?_⟩
      · rw [hat]
        dsimp only
        omega
      · rw [hat]
        exact hnull
    · exact (h.entries j hj).congr (hoff j hji) (hothers j hj hji).1 (hothers j hj hji).2
  · intro inp j hj
    refine (hmem j).2 ⟨h.attached inp j (hatt inp j hj), ?_⟩
    rintro rfl hone
    have hpos := users_pos hfin hj
    have hzero := hlast hone
    unfold owed at hzero
    omega
  · intro mod hl
    obtain ⟨j, hj, hname⟩ := h.registered mod (hloaded mod hl)
    refine ⟨j, (hmem j).2 ⟨hj, ?_⟩, (hnames j).trans hname⟩
    rintro rfl hone
    have hzero := hlast hone
    unfold owed at hzero
    rw [hnames, moduleRefs_of_loaded ⟨mod, hl, hname.symm⟩] at hzero
    omega

/-- A control block lets go of its filter. -/
theorem runDestructor (inp : PcbId) :
    ({ w.synFilterRunDestructor inp with loaded := w.loaded } : SynfWorld).Registered := by
  unfold synFilterRunDestructor
  cases hinp : w.inpSynf inp with
  | none => exact h
  | some id =>
    have hid := h.attached inp id hinp
    have husers := users_update_none h.finitary hinp
    apply h.release hid (w.sfi id).synfCallback
    · exact detach_sfi w.toSynFilters id
    · exact detach_head w.toSynFilters id
    · have hrefs : ({ w.synFilterDetachLocked id with
          inpSynf := Function.update w.inpSynf inp none
          loaded := w.loaded } : SynfWorld).moduleRefs (w.sfi id).synfName =
            w.moduleRefs (w.sfi id).synfName := rfl
      unfold owed
      rw [hrefs]
      dsimp only
      omega
    · intro j _ hj
      refine ⟨users_update_of_ne ?_ (by simp), Iff.rfl⟩
      rw [hinp]
      simpa using hj.symm
    · exact h.finitary.update inp none
    · intro inp' j hj
      by_cases hi : inp' = inp
      · subst hi
        simp at hj
      · simpa [hi] using hj
    · exact fun _ hl => hl
    · exact (h.entries id hid).callback
    · have hd := h.listed.detach id
      exact { hd with }

/-- A module that is loaded is unloaded, or nobody has its filter's name. -/
theorem unload (mod : SynfModule) (hop : (SynfOp.unload mod).Proper w) :
    (synfStep w (.unload mod)).Registered := by
  cases hget : w.synFilterGetLocked mod.synfName with
  | none =>
    -- nobody has that name, so the module was not loaded
    have hnot : w.loaded mod = false := by
      by_contra hl
      obtain ⟨id, hid, hname⟩ := h.registered mod (by simpa using hl)
      exact ne_of_getLocked_none hget id hid hname
    have hsame : synfStep w (.unload mod) = w := by
      simp [synfStep, synFilterDel, hget, ← hnot]
    rw [hsame]
    exact h
  | some id =>
    have hun := step_unload hget
    obtain ⟨hid, hname⟩ := mem_of_getLocked hget
    have hloaded : w.loaded mod = true := hop.resolve_right fun hnone => hnone id hid hname
    have hold : w.NameLoaded (w.sfi id).synfName := ⟨mod, hloaded, hname.symm⟩
    -- no other module of that name is loaded
    have hgone : ¬ (synfStep w (.unload mod)).NameLoaded (w.sfi id).synfName := by
      rintro ⟨mod', hl, hname'⟩
      rw [hun.loaded] at hl
      by_cases heq : mod' = mod
      · simp [heq] at hl
      · rw [Function.update_of_ne heq] at hl
        exact heq (h.unique mod' mod hl hloaded (hname'.trans hname))
    apply h.release hid .null hun.sfi hun.head
    · unfold owed
      rw [hun.inpSynf, moduleRefs_of_not_loaded hgone, moduleRefs_of_loaded hold]
    · intro j hj hne
      rw [hun.inpSynf]
      refine ⟨rfl, nameLoaded_congr fun mod' hname' => ?_⟩
      rw [hun.loaded]
      apply Function.update_of_ne
      rintro rfl
      exact hne (h.listed.eq_of_name hj hid (hname'.symm.trans hname.symm))
    · rw [hun.inpSynf]
      exact h.finitary
    · rw [hun.inpSynf]
      exact fun _ _ hj => hj
    · intro mod' hl
      rw [hun.loaded] at hl
      by_cases hm : mod' = mod
      · exact hm ▸ hloaded
      · simpa [hm] using hl
    · simp [hgone]
    · exact h.listed.step (.unload _)

section

variable (hid : id ∈ w.synFilterHead) {inp : PcbId} (hinp : w.inpSynf inp = none)
include hid hinp

/-- A control block takes a filter. -/
theorem acquire : ({ w.modifySfi id fun p => { p with refcount := p.refcount + 1 } with
      inpSynf := Function.update w.inpSynf inp (some id)
      loaded := w.loaded } : SynfWorld).Registered := by
  generalize hw' : ({ w.modifySfi id fun p => { p with refcount := p.refcount + 1 } with
    inpSynf := Function.update w.inpSynf inp (some id)
    loaded := w.loaded } : SynfWorld) = w'
  have hat : w'.sfi id = { w.sfi id with refcount := (w.sfi id).refcount + 1 } := by
    rw [← hw']
    simp [modifySfi]
  have hoff (j : SfiId) (hj : j ≠ id) : w'.sfi j = w.sfi j := by
    rw [← hw']
    simp [modifySfi, hj]
  have hhead : w'.synFilterHead = w.synFilterHead := by rw [← hw']; rfl
  have hlisted : w'.Listed := by
    have hl := h.listed.modifySfi id (f := fun p => { p with refcount := p.refcount + 1 }) rfl
      (Nat.le_succ _)
    rw [← hw']
    exact { hl with }
  have hload : w'.loaded = w.loaded := by rw [← hw']
  have hnameLoaded (name : String) : w'.NameLoaded name ↔ w.NameLoaded name :=
    nameLoaded_congr fun mod _ => by rw [hload]
  have hsynf : w'.inpSynf = Function.update w.inpSynf inp (some id) := by rw [← hw']
  have hnames (j : SfiId) : (w'.sfi j).synfName = (w.sfi j).synfName := by
    by_cases hj : j = id
    · rw [hj, hat]
    · rw [hoff j hj]
  have howed : w'.owed id = w.owed id + 1 := by
    unfold owed
    rw [hnames, moduleRefs_congr (hnameLoaded _), hsynf, users_update_some h.finitary id hinp]
    omega
  refine ⟨hlisted, ?_, ?_, ?_, ?_, ?_⟩
  · intro j hj
    rw [hhead] at hj
    by_cases hji : j = id
    · subst hji
      refine ⟨?_, by omega, ?_⟩
      · rw [hat, howed, ← (h.entries j hj).refcount]
      · rw [hat, hnameLoaded]
        exact (h.entries j hj).callback
    · refine (h.entries j hj).congr (hoff j hji) ?_ (hnameLoaded _)
      rw [hsynf]
      exact users_update_of_ne (by simp [hinp]) (by simpa using Ne.symm hji)
  · intro inp' j hj
    rw [hsynf] at hj
    rw [hhead]
    by_cases hi : inp' = inp
    · subst hi
      obtain rfl : id = j := by simpa using hj
      exact hid
    · exact h.attached inp' j (by simpa [hi] using hj)
  · intro mod hl
    rw [hload] at hl
    obtain ⟨j, hj, hname⟩ := h.registered mod hl
    exact ⟨j, hhead ▸ hj, (hnames j).trans hname⟩
  · rw [hload]
    exact h.unique
  · rw [hsynf]
    exact h.finitary.update inp (some id)

/-- When the constructor fails, nothing has changed in the end. -/
theorem installed_failed :
    ((w.modifySfi id fun p => { p with refcount := p.refcount + 1 }).installed inp id false).2 =
      w.toSynFilters := by
  have hpos : (w.sfi id).refcount ≠ 0 := (h.listed.counted id hid).ne'
  have hback : Function.update w.inpSynf inp none = w.inpSynf := by
    rw [← hinp, Function.update_eq_self]
  unfold installed
  dsimp only
  rw [if_neg (by simp)]
  ext1
  · refine (detach_head _ id).trans ?_
    simp [modifySfi, hpos]
  · refine (detach_sfi _ id).trans ?_
    simp [modifySfi]
  · exact detach_nextSfi _ id
  · simpa [modifySfi] using hback

end

theorem setopt (promisc : Bool) (inp : PcbId) (name : Option String) (created : Bool) :
    (synfStep w (.setopt promisc inp name created)).Registered := by
  change ({ (w.setSynfilter promisc inp name created).2 with
    loaded := w.loaded } : SynfWorld).Registered
  unfold setSynfilter
  split
  · exact h
  · cases name with
    | none => exact h.runDestructor inp
    | some name =>
      dsimp only
      split
      · exact h
      · next hnone =>
        have hinp : w.inpSynf inp = none := by simpa using hnone
        cases hget : w.synFilterGetLocked name with
        | none => exact h
        | some id =>
          have hid := (mem_of_getLocked hget).1
          cases created with
          | true => exact h.acquire hid hinp
          | false =>
            dsimp only
            rw [h.installed_failed hid hinp]
            exact h

/-- A filter is registered under a new name. -/
theorem register {mod : SynfModule} (hget : w.synFilterGetLocked mod.synfName = none) :
    (synfStep w (.load mod)).Registered := by
  have hlisted := h.listed.step (.load mod)
  rw [step_load_new hget] at hlisted ⊢
  generalize hw' : ({
    sfi := Function.update w.sfi w.nextSfi ⟨mod.synfName, .module mod.modid, 1⟩
    nextSfi := w.nextSfi + 1
    synFilterHead := w.nextSfi :: w.synFilterHead
    inpSynf := w.inpSynf
    loaded := Function.update w.loaded mod true } : SynfWorld) = w' at hlisted ⊢
  have hnew := ne_of_getLocked_none hget
  have hne {j : SfiId} (hj : j ∈ w.synFilterHead) : j ≠ w.nextSfi :=
    Nat.ne_of_lt (h.listed.fresh j hj)
  have hat : w'.sfi w.nextSfi = ⟨mod.synfName, .module mod.modid, 1⟩ := by rw [← hw']; simp
  have hoff {j : SfiId} (hj : j ∈ w.synFilterHead) : w'.sfi j = w.sfi j := by
    rw [← hw']
    simp [hne hj]
  have hload : w'.loaded = Function.update w.loaded mod true := by rw [← hw']
  have hsynf : w'.inpSynf = w.inpSynf := by rw [← hw']
  have hhead : w'.synFilterHead = w.nextSfi :: w.synFilterHead := by rw [← hw']
  have hnow : w'.NameLoaded mod.synfName := ⟨mod, by simp [hload], rfl⟩
  -- no module of that name was loaded, or its filter would be on the list
  have hfirst (mod' : SynfModule) (hl : w.loaded mod' = true) : mod'.synfName ≠ mod.synfName := by
    obtain ⟨j, hj, hname⟩ := h.registered mod' hl
    exact hname ▸ hnew j hj
  have hbefore (mod' : SynfModule) (hl : w'.loaded mod' = true) :
      mod' = mod ∨ w.loaded mod' = true := by
    by_cases hm : mod' = mod
    · exact .inl hm
    · right
      simpa [hload, hm] using hl
  -- nobody can refer to the new entry yet
  have howed : w'.owed w.nextSfi = 1 := by
    have hnone : users w.inpSynf w.nextSfi = 0 := by
      rw [users_eq_zero_iff h.finitary]
      intro inp hinp
      exact hne (h.attached inp _ hinp) rfl
    unfold owed
    rw [hat, hsynf, hnone, moduleRefs_of_loaded hnow]
  refine ⟨hlisted, ?_, ?_, ?_, ?_, ?_⟩
  · intro j hj
    rw [hhead, List.mem_cons] at hj
    rcases hj with rfl | hj
    · refine ⟨?_, by omega, ?_⟩
      · rw [howed, hat]
      · rw [hat]
        simp [hnow]
    · refine (h.entries j hj).congr (hoff hj) (by rw [hsynf]) (nameLoaded_congr ?_)
      intro mod' hname
      rw [hload, Function.update_of_ne]
      rintro rfl
      exact hnew j hj hname.symm
  · intro inp j hj
    rw [hsynf] at hj
    rw [hhead]
    exact List.mem_cons_of_mem _ (h.attached inp j hj)
  · intro mod' hl
    rw [hhead]
    rcases hbefore mod' hl with rfl | hl
    · exact ⟨w.nextSfi, List.mem_cons_self, by rw [hat]⟩
    · obtain ⟨j, hj, hname⟩ := h.registered mod' hl
      exact ⟨j, List.mem_cons_of_mem _ hj, by rw [hoff hj, hname]⟩
  · intro mod₁ mod₂ hl₁ hl₂ hname
    rcases hbefore mod₁ hl₁ with rfl | hl₁ <;> rcases hbefore mod₂ hl₂ with rfl | hl₂
    · rfl
    · exact absurd hname.symm (hfirst _ hl₂)
    · exact absurd hname (hfirst _ hl₁)
    · exact h.unique mod₁ mod₂ hl₁ hl₂ hname
  · rw [hsynf]
    exact h.finitary

/-- A module is loaded under a name that is not a zombie's. -/
theorem load (mod : SynfModule) (hlive : ¬ w.Zombie mod.synfName) :
    (synfStep w (.load mod)).Registered := by
  cases hget : w.synFilterGetLocked mod.synfName with
  | none => exact h.register hget
  | some id =>
    obtain ⟨hid, hname⟩ := mem_of_getLocked hget
    rw [step_load_live hget fun hnull => hlive ⟨id, hid, hname, hnull⟩]
    exact h

theorem step (op : SynfOp) (hop : op.Proper w) : (synfStep w op).Registered := by
  cases op with
  | load mod => exact h.load mod hop
  | unload mod => exact h.unload mod hop
  | setopt promisc inp name created => exact h.setopt promisc inp name created
  | destroy inp => exact h.runDestructor inp

/-- A zombie that is revived is short of a reference. -/
theorem load_zombie {mod : SynfModule} (hz : w.Zombie mod.synfName) :
    ¬ (synfStep w (.load mod)).Consistent := by
  obtain ⟨id, hid, hname, hnull⟩ := hz
  have hget := h.listed.getLocked hid
  rw [hname] at hget
  have hcount := (h.entries id hid).refcount
  unfold owed at hcount
  rw [moduleRefs_of_not_loaded ((h.entries id hid).callback.1 hnull)] at hcount
  rw [step_load_zombie hget hnull]
  intro hc
  have hcount' := hc.refcount id hid
  unfold owed at hcount'
  simp only [modifySfi, Function.update_self] at hcount'
  rw [moduleRefs_of_loaded ⟨mod, by simp, hname.symm⟩] at hcount'
  omega

/-- A module that is not loaded takes a reference that is not its own. -/
theorem unload_stranger {mod : SynfModule} (hnot : w.loaded mod ≠ true)
    (hid : id ∈ w.synFilterHead) (hname : (w.sfi id).synfName = mod.synfName) :
    ¬ (synfStep w (.unload mod)).Consistent := by
  have hget := h.listed.getLocked hid
  rw [hname] at hget
  have hun := step_unload hget
  generalize synfStep w (.unload mod) = w' at hun
  have hsame : w'.loaded = w.loaded := by
    rw [hun.loaded, ← Bool.not_eq_true _ |>.mp hnot, Function.update_eq_self]
  have hnames (j : SfiId) : (w'.sfi j).synfName = (w.sfi j).synfName := by
    rw [hun.sfi]
    by_cases hj : j = id <;> simp [hj]
  have howed : w'.owed id = w.owed id := by
    unfold owed
    rw [hnames, hun.inpSynf, moduleRefs_congr (nameLoaded_congr fun mod' _ => congrFun hsame mod')]
  have hpos := (h.entries id hid).positive
  have hcount := (h.entries id hid).refcount
  intro hc
  -- a control block or a module still counts on the entry
  have hin : id ∈ w'.synFilterHead := by
    by_cases hl : w.NameLoaded (w.sfi id).synfName
    · obtain ⟨mod', hl, hname'⟩ := hl
      obtain ⟨j, hj, hjname⟩ := hc.registered mod' (hsame ▸ hl)
      have hold : j ∈ w.synFilterHead := by
        rw [hun.head] at hj
        split at hj
        · exact List.mem_of_mem_erase hj
        · exact hj
      rw [hnames, hname'] at hjname
      exact h.listed.eq_of_name hold hid hjname ▸ hj
    · obtain ⟨inp, hinp⟩ : ∃ inp, w.inpSynf inp = some id := by
        by_contra hnone
        push Not at hnone
        unfold owed at hpos
        rw [moduleRefs_of_not_loaded hl, (users_eq_zero_iff h.finitary id).2 hnone] at hpos
        omega
      exact hc.attached inp id (hun.inpSynf ▸ hinp)
  have hcount' := hc.refcount id hin
  rw [howed, ← hcount, hun.sfi, Function.update_self] at hcount'
  dsimp only at hcount'
  omega

/-- Exactly the proper operations keep the counts right. -/
theorem step_consistent_iff (op : SynfOp) : (synfStep w op).Consistent ↔ op.Proper w := by
  constructor
  · intro hc
    cases op with
    | load mod => exact fun hz => h.load_zombie hz hc
    | unload mod =>
      by_contra hop
      obtain ⟨hnot, hthere⟩ := not_or.1 hop
      push Not at hthere
      obtain ⟨id, hid, hname⟩ := hthere
      exact h.unload_stranger hnot hid hname hc
    | setopt promisc inp name created => trivial
    | destroy inp => trivial
  · intro hop
    exact (h.step op hop).consistent

end

end Registered

theorem registered_empty : empty.Registered := by
  have hlisted : empty.Listed :=
    ⟨List.nodup_nil, fun id hid => absurd hid List.not_mem_nil,
      fun id hid => absurd hid List.not_mem_nil⟩
  refine ⟨hlisted, fun id hid => absurd hid List.not_mem_nil, ?_, ?_, ?_, ?_⟩
  · intro inp id hinp
    cases hinp
  · intro mod hl
    cases hl
  · intro mod mod' hl
    cases hl
  · intro b
    have hnone : usersOf empty.inpSynf b = ∅ := by
      ext inp
      simp [usersOf, empty]
    rw [hnone]
    exact Set.finite_empty

def SameCounts (w w' : SynfWorld) : Prop :=
  w'.synFilterHead = w.synFilterHead ∧
    ∀ id ∈ w.synFilterHead, (w'.sfi id).refcount = (w.sfi id).refcount

/-- A load leaves the filters that were there alone, apart from their callbacks. -/
theorem load_present {w : SynfWorld} {mod : SynfModule} {id : SfiId}
    (hget : w.synFilterGetLocked mod.synfName = some id) :
    (synfStep w (.load mod)).synFilterHead = w.synFilterHead ∧
      ((synfStep w (.load mod)).sfi id).refcount = (w.sfi id).refcount ∧
      (synfStep w (.load mod)).synFilterGetLocked mod.synfName = some id := by
  by_cases hcb : (w.sfi id).synfCallback = .null
  · rw [step_load_zombie hget hcb]
    refine ⟨rfl, by simp [modifySfi], ?_⟩
    rw [← hget]
    unfold synFilterGetLocked modifySfi
    dsimp only
    congr 1
    funext j
    by_cases hj : j = id
    · subst hj
      simp
    · simp [hj]
  · rw [step_load_live hget hcb]
    exact ⟨rfl, rfl, hget⟩

/-- A load and an unload cancel out exactly when the name was not registered. -/
theorem load_unload_iff {w : SynfWorld} (h : w.Listed) (mod : SynfModule) :
    w.SameCounts (synfStep (synfStep w (.load mod)) (.unload mod)) ↔
      ∀ id ∈ w.synFilterHead, (w.sfi id).synfName ≠ mod.synfName := by
  constructor
  · rintro ⟨hhead, hcounts⟩ id hid hname
    obtain ⟨hhead₁, hcount₁, hget₁⟩ := load_present (hname ▸ h.getLocked hid)
    have hun := step_unload hget₁
    have hpos := h.counted id hid
    have hcount := hcounts id hid
    rw [hun.sfi, Function.update_self] at hcount
    dsimp only at hcount
    omega
  · intro hnew
    have hget : w.synFilterGetLocked mod.synfName = none := by
      apply List.find?_eq_none.2
      intro id hid
      simpa using hnew id hid
    have hnotin : w.nextSfi ∉ w.synFilterHead := fun hin => lt_irrefl _ (h.fresh _ hin)
    rw [step_load_new hget]
    generalize hw₁ : ({
      sfi := Function.update w.sfi w.nextSfi ⟨mod.synfName, .module mod.modid, 1⟩
      nextSfi := w.nextSfi + 1
      synFilterHead := w.nextSfi :: w.synFilterHead
      inpSynf := w.inpSynf
      loaded := Function.update w.loaded mod true } : SynfWorld) = w₁
    have hun : Unloaded w₁ mod w.nextSfi (synfStep w₁ (.unload mod)) := by
      apply step_unload
      simp [synFilterGetLocked, ← hw₁]
    refine ⟨?_, fun id hid => ?_⟩
    · rw [hun.head, ← hw₁]
      simp
    · have hne : id ≠ w.nextSfi := fun heq => hnotin (heq ▸ hid)
      rw [hun.sfi, ← hw₁]
      simp [hne]

end SynfWorld

/-- The reference counts are right all along a run exactly when no module was loaded under
the name of a zombie, and none was unloaded that was not loaded while a filter of its name
was there.  Wherever a run ends, a load and an unload cancel out exactly under a name that is
not on the list. -/
theorem synfilter_refcounts_iff (ops : List SynfOp) :
    ((∀ pre, pre <+: ops → (run synfStep SynfWorld.empty pre).Consistent) ↔
      Along synfStep SynfOp.Proper SynfWorld.empty ops) ∧
    ∀ mod : SynfModule,
      let w := run synfStep SynfWorld.empty ops
      w.SameCounts (run synfStep w [.load mod, .unload mod]) ↔
        ∀ id ∈ w.synFilterHead, (w.sfi id).synfName ≠ mod.synfName := by
  constructor
  · apply along_iff_of_step_iff SynfWorld.Registered.step
    · intro w op h
      exact h.step_consistent_iff op
    · exact fun w h => h.consistent
    · exact SynfWorld.registered_empty
  · intro mod
    have hlisted : (run synfStep SynfWorld.empty ops).Listed :=
      run_preserves (I := fun w : SynfWorld => w.Listed) (fun w op h => h.step op)
        SynfWorld.registered_empty.listed ops
    exact SynfWorld.load_unload_iff hlisted mod

/-- A socket that uses the filter outlives the module, and then another module brings it
again. -/
theorem synfilter_refcounts_reload :
    (run synfStep SynfWorld.empty
      [.load ⟨0, "f"⟩, .setopt true 0 (some "f") true, .unload ⟨0, "f"⟩, .destroy 0,
        .load ⟨1, "f"⟩]).Consistent := by
  apply ((synfilter_refcounts_iff _).1.2 ?_) _ (List.prefix_refl _)
  refine ⟨?_, trivial, ?_, trivial, ?_, trivial⟩ <;> decide

/-- The module comes back while the socket still uses the filter, and goes again: the entry
is freed under the socket.  A second module of that name is refused, and the unload that
follows frees the entry of the first. -/
theorem synfilter_zombie_freed :
    (let zombie := run synfStep SynfWorld.empty
      [.load ⟨0, "f"⟩, .setopt true 0 (some "f") true, .unload ⟨0, "f"⟩]
    let w := run synfStep zombie [.load ⟨0, "f"⟩, .unload ⟨0, "f"⟩]
    w.inpSynf 0 = some 0 ∧ w.synFilterHead = [] ∧ ¬ w.Consistent ∧ ¬ zombie.SameCounts w) ∧
    (let w := run synfStep SynfWorld.empty [.load ⟨0, "f"⟩, .load ⟨1, "f"⟩, .unload ⟨1, "f"⟩]
    w.loaded ⟨0, "f"⟩ = true ∧ w.synFilterHead = [] ∧ ¬ w.Consistent) := by
  constructor
  · intro zombie w
    have hinp : w.inpSynf 0 = some 0 := by decide
    have hhead : w.synFilterHead = [] := by decide
    refine ⟨hinp, hhead, ?_, ?_⟩
    · intro hc
      have hin := hc.attached 0 0 hinp
      rw [hhead] at hin
      exact List.not_mem_nil hin
    · intro hs
      have hlist : zombie.synFilterHead = [0] := by decide
      rw [hs.1, hlist] at hhead
      exact List.cons_ne_nil _ _ hhead
  · intro w
    have hloaded : w.loaded ⟨0, "f"⟩ = true := by decide
    have hhead : w.synFilterHead = [] := by decide
    refine ⟨hloaded, hhead, ?_⟩
    intro hc
    obtain ⟨id, hid, -⟩ := hc.registered _ hloaded
    rw [hhead] at hid
    exact List.not_mem_nil hid

end Libuinet
