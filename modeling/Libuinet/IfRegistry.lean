import Libuinet.Execution
import Libuinet.SynfilterRegistry
import Mathlib.Data.List.Basic
import Mathlib.Tactic.Common

namespace Libuinet

open Execution

inductive UinetIfType where
  | loopback
  | netmap
  | pcap
  | bridge
  | span
  deriving DecidableEq

structure HeapPtr where
  block : ℕ
  offset : ℕ
  deriving DecidableEq

structure HeapString where
  block : ℕ
  text : List Char
  deriving DecidableEq

/-- `struct uinet_if`, with the block it was allocated in. -/
structure UinetIf where
  block : ℕ
  type : UinetIfType
  configstr : Option HeapString
  name : List Char
  ifAlias : List Char
  cdom : BitVec 32
  deriving DecidableEq

def enxio : Errno := .other 6
def enomem : Errno := .other 12

def ifNamesize : ℕ := 16

/-- `V_uinet_if_list` of the instance, the static counter of each driver and the number of
blocks allocated so far. -/
structure IfRegistry where
  uinetIfList : List UinetIf
  interfaceCount : UinetIfType → BitVec 32
  heap : ℕ

/-- What a call returns, the pointers it freed and the state it leaves.  `fault` marks a call
that has used a pointer that nobody set, or a null pointer. -/
structure IfResult where
  error : Option Errno
  freed : List HeapPtr
  registry : IfRegistry
  fault : Bool := false

/-- What an attach function returns, with the `name` it wrote. -/
structure AttachResult extends IfResult where
  name : List Char

/-- How the parse of a configuration string ends: with `goto fail` and this value of `error`,
or attached. -/
structure ConfigParse where
  fail : Option (Option Errno)
  freed : List HeapPtr
  heap : ℕ

/-- The arguments of `uinet_ifcreate`, what the host answers to the driver, and what is on
the stack in place of `new_uif` before it is assigned: a pointer and what is read as its
`configstr`. -/
structure IfCreate where
  type : UinetIfType
  configstr : Option (List Char)
  ifAlias : Option (List Char)
  cdom : BitVec 32
  device : Option Errno
  ifAlloc : Bool
  stack : Option (HeapPtr × Option HeapPtr)

def UinetIf.answersTo (uif : UinetIf) (ifname : List Char) : Bool :=
  ifname = uif.name || (uif.ifAlias ≠ [] && ifname = uif.ifAlias)

/-- `free` of a string pointer that `strsep` has moved to the next token; behind the last
token it is null. -/
def freeMoved (block offset : ℕ) (tokens : List (List Char)) : List HeapPtr :=
  if tokens = [] then [] else [⟨block, offset⟩]

/-- The `while` loop of `if_bridge_attach` and `if_span_attach` over the tokens that `strsep`
finds between commas.  `cstr` is the block of the string, `offset` the place of the next token
in it. -/
def parseConfig (options : List (List Char)) (cstr : ℕ) :
    List (List Char) → ℕ → ℕ → ConfigParse
  | [], _, heap => ⟨none, [], heap⟩
  | s :: rest, offset, heap =>
    let next := offset + s.length + 1
    let freeCstr := freeMoved cstr next rest
    match s.splitOn '=' with
    | a :: v :: more =>
      let freeSs := freeMoved heap (a.length + v.length + 2) more
      if a ∈ options then
        let tail := parseConfig options cstr rest next (heap + 1)
        { tail with freed := freeSs ++ tail.freed }
      else ⟨some none, freeSs ++ freeCstr, heap + 1⟩
    | _ => ⟨some (some enomem), freeCstr, heap + 1⟩

namespace IfRegistry

def uinetIffindByname (l : List UinetIf) (ifname : List Char) : Option UinetIf :=
  l.find? (·.answersTo ifname)

def uinetIffindBycdom (l : List UinetIf) (cdom : BitVec 32) : Option UinetIf :=
  l.find? fun uif => cdom = uif.cdom

variable (s : IfRegistry) (uif : UinetIf)

def ifName (type : UinetIfType) (stem : List Char) : List Char :=
  (stem ++ Nat.toDigits 10 (s.interfaceCount type).toNat).take (ifNamesize - 1)

def counted (type : UinetIfType) : IfRegistry :=
  { s with interfaceCount := Function.update s.interfaceCount type (s.interfaceCount type + 1) }

/-- An attach function that opens a device of the host, and frees its softc when that fails. -/
def deviceAttach (type : UinetIfType) (stem : List Char) (uif : UinetIf) (device : Option Errno) :
    AttachResult :=
  match uif.configstr with
  | none => { error := some .einval, freed := [], registry := s, name := uif.name }
  | some _ =>
    { error := device
      freed := if device = none then [] else [⟨s.heap, 0⟩]
      registry := { s.counted type with heap := s.heap + 1 }
      name := s.ifName type stem }

def configAttach (type : UinetIfType) (stem : List Char) (options : List (List Char))
    (uif : UinetIf) (ifAlloc : Bool) : AttachResult :=
  match uif.configstr with
  | none => { error := some .einval, freed := [], registry := s, name := uif.name }
  | some config =>
    let cstr := s.heap
    let sc := s.heap + 1
    if ifAlloc then
      let p := parseConfig options cstr (config.text.splitOn ',') 0 (s.heap + 2)
      match p.fail with
      | none =>
        { error := none, freed := p.freed, registry := { s.counted type with heap := p.heap }
          name := s.ifName type stem }
      | some error =>
        { error := error, freed := p.freed ++ [⟨sc, 0⟩]
          registry := { s.counted type with heap := p.heap }, name := s.ifName type stem }
    else
      { error := some enomem, freed := [⟨cstr, 0⟩, ⟨sc, 0⟩]
        registry := { s.counted type with heap := s.heap + 2 }, name := s.ifName type stem }

def ifNetmapAttach (device : Option Errno) : AttachResult :=
  s.deviceAttach .netmap ['n', 'e', 't', 'm', 'a', 'p'] uif device

def ifPcapAttach (device : Option Errno) : AttachResult :=
  s.deviceAttach .pcap ['p', 'c', 'a', 'p'] uif device

def bridgeOptions : List (List Char) :=
  [['i', 'f', 'i', 'n'], ['i', 'f', 'o', 'u', 't'], ['m', 'a', 'c']]

def spanOptions : List (List Char) := [['i', 'f'], ['m', 'a', 'c']]

def ifBridgeAttach (ifAlloc : Bool) : AttachResult :=
  s.configAttach .bridge ['b', 'r', 'i', 'd', 'g', 'e'] bridgeOptions uif ifAlloc

def ifSpanAttach (ifAlloc : Bool) : AttachResult :=
  s.configAttach .span ['s', 'p', 'a', 'n'] spanOptions uif ifAlloc

def attach (c : IfCreate) : AttachResult :=
  match uif.type with
  | .netmap => s.ifNetmapAttach uif c.device
  | .pcap => s.ifPcapAttach uif c.device
  | .bridge => s.ifBridgeAttach uif c.ifAlloc
  | .span => s.ifSpanAttach uif c.ifAlloc
  | .loopback => { error := some enxio, freed := [], registry := s, name := uif.name }

def precheck (c : IfCreate) : Option Errno :=
  let name := c.ifAlias.getD []
  if name.length ≥ ifNamesize then some .einval
  else if name ≠ [] ∧ uinetIffindByname s.uinetIfList name ≠ none then some eexist
  else if c.cdom ≠ 0 ∧ uinetIffindBycdom s.uinetIfList c.cdom ≠ none then some eexist
  else none

/-- The record before the driver attaches it; its `name` is written by the driver. -/
def newUif (c : IfCreate) : UinetIf where
  block := s.heap
  type := c.type
  configstr := c.configstr.map fun text => ⟨s.heap + 1, text⟩
  name := []
  ifAlias := c.ifAlias.getD []
  cdom := c.cdom

def freeUif (new : HeapPtr) (configstr : Option HeapPtr) : List HeapPtr :=
  configstr.toList ++ [new]

def release : List HeapPtr :=
  freeUif ⟨uif.block, 0⟩ (uif.configstr.map fun config => ⟨config.block, 0⟩)

/-- The part of `uinet_ifcreate` behind the checks, up to the end of the `switch`. -/
def attachNew (c : IfCreate) : AttachResult :=
  attach { s with heap := s.heap + 1 + c.configstr.toList.length } (s.newUif c) c

def uinetIfcreate (c : IfCreate) : IfResult :=
  match s.precheck c with
  | some error =>
    -- `new_uif` has not been assigned, and is freed when what is in its place is not null.
    { error := some error
      freed := match c.stack with
        | some (new, configstr) => freeUif new configstr
        | none => []
      registry := s }
  | none =>
    let uif := s.newUif c
    let att := s.attachNew c
    match att.error with
    | none =>
      { error := none, freed := att.freed
        registry := { att.registry with
          uinetIfList := att.registry.uinetIfList ++ [{ uif with name := att.name }] } }
    | some error =>
      { error := some error, freed := att.freed ++ release uif, registry := att.registry }

/-- `if_netmap_detach` and `if_pcap_detach` return zero, the other types have no case. -/
def detachError (type : UinetIfType) : Option Errno :=
  match type with
  | .netmap | .pcap => none
  | .loopback | .bridge | .span => some enxio

def uinetIfdestroyInternal : IfResult where
  error := detachError uif.type
  freed := release uif
  registry := { s with uinetIfList := s.uinetIfList.erase uif }

/-- `uinet_ifdestroy` of a listed interface or of a null pointer.  `CURVNET_SET` reads
`uif->uinst` first, which no function ever sets; `uinst` says that what the allocator left
there is the instance. -/
def uinetIfdestroy (uif : Option UinetIf) (uinst : Bool) : IfResult :=
  match uif with
  | some uif =>
    if uinst then s.uinetIfdestroyInternal uif
    else { error := none, freed := [], registry := s, fault := true }
  | none => { error := none, freed := [], registry := s, fault := true }

def uinetIfdestroyByname (ifname : List Char) : IfResult :=
  match uinetIffindByname s.uinetIfList ifname with
  | some uif => s.uinetIfdestroyInternal uif
  | none => { error := some .einval, freed := [], registry := s }

def uinetIfdestroyAll : IfRegistry :=
  s.uinetIfList.foldl (fun s uif => (s.uinetIfdestroyInternal uif).registry) s

end IfRegistry

/-- The calls on one instance.  A handle of `uinet_ifdestroy` is null or the block of a listed
interface; with another one the call is not made.  `elsewhere` is an interface that is created
in another instance. -/
inductive IfOp where
  | create (c : IfCreate)
  | destroy (uif : Option ℕ) (uinst : Bool)
  | destroyByname (ifname : List Char)
  | destroyAll
  | elsewhere (type : UinetIfType)

namespace IfRegistry

def listed (s : IfRegistry) (block : ℕ) : Option UinetIf :=
  s.uinetIfList.find? fun uif => uif.block = block

def call (s : IfRegistry) : IfOp → IfResult
  | .create c => s.uinetIfcreate c
  | .destroy none uinst => s.uinetIfdestroy none uinst
  | .destroy (some block) uinst =>
    match s.listed block with
    | some uif => s.uinetIfdestroy (some uif) uinst
    | none => { error := none, freed := [], registry := s }
  | .destroyByname ifname => s.uinetIfdestroyByname ifname
  | .destroyAll => { error := none, freed := [], registry := s.uinetIfdestroyAll }
  | .elsewhere type =>
    { error := none, freed := [], registry := { s.counted type with heap := s.heap + 1 } }

def step (s : IfRegistry) (op : IfOp) : IfRegistry := (s.call op).registry

def vnetIfListInit (interfaceCount : UinetIfType → BitVec 32) (heap : ℕ) : IfRegistry where
  uinetIfList := []
  interfaceCount := interfaceCount
  heap := heap

/-- Every listed interface is the one that is found by its names, and a domain other than
zero has one interface at most. -/
structure Registered (s : IfRegistry) : Prop where
  byName : ∀ uif ∈ s.uinetIfList, uinetIffindByname s.uinetIfList uif.name = some uif
  byAlias : ∀ uif ∈ s.uinetIfList, uif.ifAlias ≠ [] →
    uinetIffindByname s.uinetIfList uif.ifAlias = some uif
  byCdom : ∀ cdom, cdom ≠ 0 → (s.uinetIfList.filter (·.cdom = cdom)).length ≤ 1

def target (s : IfRegistry) : IfOp → Option UinetIf
  | .destroy (some block) _ => s.listed block
  | .destroyByname ifname => uinetIffindByname s.uinetIfList ifname
  | _ => none

/-- The pointer is the start of a block that was allocated between the two states. -/
def Allocated (s s' : IfRegistry) (p : HeapPtr) : Prop :=
  s.heap ≤ p.block ∧ p.block < s'.heap ∧ p.offset = 0

structure Honours (s : IfRegistry) (op : IfOp) : Prop where
  defined : (s.call op).fault = false
  create : ∀ c, op = .create c → (s.call op).error ≠ none →
    (s.step op).uinetIfList = s.uinetIfList ∧ ∀ p ∈ (s.call op).freed, Allocated s (s.step op) p
  destroy : ∀ uif, s.target op = some uif → (s.call op).error ≠ none →
    uif ∈ (s.step op).uinetIfList
  registered : (s.step op).Registered

end IfRegistry

/-- The parse of the configuration string, if there is one, stops at its last token, and the
tokens before it have one `=` each. -/
def IfCreate.StopsAtLast (c : IfCreate) : Prop :=
  (c.type = .bridge ∨ c.type = .span) → c.ifAlloc = true → ∀ text ∈ c.configstr,
    ∀ t ∈ (text.splitOn ',').dropLast, (t.splitOn '=').length = 2

namespace IfRegistry

/-- A create that fails a check finds a null pointer on the stack, one whose driver fails has
parsed its options up to the last, and one that succeeds has got a name that nobody answers to.
A destroy is of an interface that has a detach function, through an instance pointer that
happens to be right. -/
def Allowed (s : IfRegistry) : IfOp → Prop
  | .create c =>
    match s.precheck c, (s.attachNew c).error with
    | some _, _ => c.stack = none
    | none, some _ => c.StopsAtLast
    | none, none => uinetIffindByname s.uinetIfList (s.attachNew c).name = none
  | .destroy none _ => False
  | .destroy (some block) uinst =>
    ∀ uif ∈ s.listed block, uinst = true ∧ detachError uif.type = none
  | .destroyByname ifname =>
    ∀ uif ∈ uinetIffindByname s.uinetIfList ifname, detachError uif.type = none
  | .destroyAll => True
  | .elsewhere _ => True

section Parse

variable (options : List (List Char)) (cstr : ℕ)

theorem freeMoved_eq_nil (block offset : ℕ) (tokens : List (List Char)) :
    freeMoved block offset tokens = [] ↔ tokens = [] := by
  rw [freeMoved]
  split <;> simp_all

theorem offset_of_mem_freeMoved {block offset : ℕ} {tokens : List (List Char)} {p : HeapPtr}
    (hp : p ∈ freeMoved block offset tokens) : p.offset = offset := by
  rw [freeMoved] at hp
  split at hp <;> simp_all

section

variable (tokens : List (List Char)) (offset heap : ℕ)

/-- The parse frees only pointers into the middle of a string. -/
theorem offset_of_mem_parseConfig :
    ∀ p ∈ (parseConfig options cstr tokens offset heap).freed, 0 < p.offset := by
  induction tokens generalizing offset heap with
  | nil => simp [parseConfig]
  | cons s rest ih =>
    intro p hp
    rw [parseConfig] at hp
    split at hp
    · dsimp only at hp
      split at hp
      · rcases List.mem_append.1 hp with hp | hp
        · simp [offset_of_mem_freeMoved hp]
        · exact ih _ _ p hp
      · rcases List.mem_append.1 hp with hp | hp <;> simp [offset_of_mem_freeMoved hp]
    · simp [offset_of_mem_freeMoved hp]

theorem heap_le_parseConfig : heap ≤ (parseConfig options cstr tokens offset heap).heap := by
  induction tokens generalizing offset heap with
  | nil => exact le_rfl
  | cons s rest ih =>
    rw [parseConfig]
    split
    · dsimp only
      split
      · exact (Nat.le_succ heap).trans (ih _ _)
      · exact Nat.le_succ heap
    · exact Nat.le_succ heap

end

/-- A token without `=` ends the parse; `cstr` is null then only if it is the last. -/
theorem freeMoved_bare {block offset : ℕ} {s : List Char} {rest : List (List Char)}
    (hs : (s.splitOn '=').length ≠ 2) :
    freeMoved block offset rest = [] ↔
      ∀ t ∈ (s :: rest).dropLast, (t.splitOn '=').length = 2 := by
  rw [freeMoved_eq_nil]
  cases rest with
  | nil => simp
  | cons t rest =>
    refine ⟨fun h => absurd h (List.cons_ne_nil t rest), fun h => absurd (h s ?_) hs⟩
    simp

/-- A parse that ends with an error has freed nothing exactly when it ends at the last token
and every token before that has one `=`. -/
theorem parseConfig_freed_eq_nil (tokens : List (List Char)) {offset heap : ℕ} {e : Errno}
    (h : (parseConfig options cstr tokens offset heap).fail = some (some e)) :
    (parseConfig options cstr tokens offset heap).freed = [] ↔
      ∀ t ∈ tokens.dropLast, (t.splitOn '=').length = 2 := by
  induction tokens generalizing offset heap with
  | nil => simp [parseConfig] at h
  | cons s rest ih =>
    match hs : s.splitOn '=' with
    | [] | [_] =>
      simp only [parseConfig, hs]
      exact freeMoved_bare (by simp [hs])
    | a :: v :: more =>
      by_cases ha : a ∈ options
      · simp only [parseConfig, hs, if_pos ha] at h ⊢
        cases rest with
        | nil => simp [parseConfig] at h
        | cons t rest =>
          rw [List.append_eq_nil_iff, freeMoved_eq_nil, ih h]
          simp [hs]
      · simp [parseConfig, hs, ha] at h

end Parse

section Attach

variable {s s₀ s' : IfRegistry} {uif : UinetIf} {c : IfCreate} {e : Errno}

theorem Allocated.of_le {p : HeapPtr} (h : Allocated s s' p) (hheap : s₀.heap ≤ s.heap) :
    Allocated s₀ s' p :=
  ⟨hheap.trans h.1, h.2.1, h.2.2⟩

/-- Pointers into the middle of a block are not to be freed. -/
theorem forall_allocated_iff {l : List HeapPtr} (hl : ∀ p ∈ l, 0 < p.offset) :
    (∀ p ∈ l, Allocated s s' p) ↔ l = [] := by
  constructor
  · intro h
    apply List.eq_nil_iff_forall_not_mem.2
    intro p hp
    have := hl p hp
    have := (h p hp).2.2
    omega
  · rintro rfl
    simp

variable (type : UinetIfType) (stem : List Char)

theorem deviceAttach_allocated (device : Option Errno) :
    ∀ p ∈ (s.deviceAttach type stem uif device).freed,
      Allocated s (s.deviceAttach type stem uif device).registry p := by
  intro p hp
  unfold deviceAttach at hp ⊢
  cases hc : uif.configstr with
  | none => simp [hc] at hp
  | some config =>
    simp only [hc] at hp ⊢
    split at hp
    · simp at hp
    · obtain rfl := List.mem_singleton.1 hp
      exact ⟨le_rfl, Nat.lt_succ_self _, rfl⟩

theorem configAttach_allocated_iff (options : List (List Char)) (ifAlloc : Bool)
    (hheap : s₀.heap ≤ s.heap) (he : (s.configAttach type stem options uif ifAlloc).error = some e)
    :
    (∀ p ∈ (s.configAttach type stem options uif ifAlloc).freed,
        Allocated s₀ (s.configAttach type stem options uif ifAlloc).registry p) ↔
      (ifAlloc = true → ∀ config ∈ uif.configstr,
        ∀ t ∈ (config.text.splitOn ',').dropLast, (t.splitOn '=').length = 2) := by
  unfold configAttach at he ⊢
  cases hc : uif.configstr with
  | none => simp
  | some config =>
    simp only [hc] at he ⊢
    cases ifAlloc with
    | false =>
      simp [Allocated]
      omega
    | true =>
      set p := parseConfig options s.heap (config.text.splitOn ',') 0 (s.heap + 2) with hp
      have hpheap : s.heap + 2 ≤ p.heap := heap_le_parseConfig _ _ _ _ _
      have hoffset : ∀ q ∈ p.freed, 0 < q.offset := offset_of_mem_parseConfig _ _ _ _ _
      cases hfail : p.fail with
      | none => simp only [if_true, hfail, reduceCtorEq] at he
      | some error =>
        simp only [if_true, hfail] at he ⊢
        have hnil := parseConfig_freed_eq_nil options s.heap _ (hfail.trans (congrArg some he))
        rw [← hp] at hnil
        have hsc : Allocated s₀ { s.counted type with heap := p.heap } ⟨s.heap + 1, 0⟩ :=
          ⟨by dsimp only; omega, by dsimp only; omega, rfl⟩
        simp only [List.forall_mem_append, forall_allocated_iff hoffset, hnil,
          List.forall_mem_singleton, hsc, Option.mem_def, Option.some.injEq, forall_eq',
          and_true, true_implies]

def Grows (s s' : IfRegistry) : Prop := s'.uinetIfList = s.uinetIfList ∧ s.heap ≤ s'.heap

theorem deviceAttach_grows (device : Option Errno) :
    Grows s (s.deviceAttach type stem uif device).registry := by
  unfold deviceAttach
  cases uif.configstr with
  | none => exact ⟨rfl, le_rfl⟩
  | some config => exact ⟨rfl, Nat.le_succ _⟩

theorem configAttach_grows (options : List (List Char)) (ifAlloc : Bool) :
    Grows s (s.configAttach type stem options uif ifAlloc).registry := by
  unfold configAttach
  cases uif.configstr with
  | none => exact ⟨rfl, le_rfl⟩
  | some config =>
    have hheap := heap_le_parseConfig options s.heap (config.text.splitOn ',') 0 (s.heap + 2)
    dsimp only
    split
    · split <;> exact ⟨rfl, (Nat.le_add_right _ 2).trans hheap⟩
    · exact ⟨rfl, Nat.le_add_right _ 2⟩

theorem attach_grows : Grows s (s.attach uif c).registry := by
  unfold attach
  cases uif.type with
  | loopback => exact ⟨rfl, le_rfl⟩
  | netmap => exact deviceAttach_grows _ _ _
  | pcap => exact deviceAttach_grows _ _ _
  | bridge => exact configAttach_grows _ _ _ _
  | span => exact configAttach_grows _ _ _ _

theorem attachNew_uinetIfList : (s.attachNew c).registry.uinetIfList = s.uinetIfList :=
  attach_grows.1

theorem heap_lt_attachNew : s.heap + c.configstr.toList.length < (s.attachNew c).registry.heap := by
  have h : _ ≤ (s.attachNew c).registry.heap := attach_grows.2
  dsimp only at h
  omega

/-- A create whose driver fails has freed nothing but its own memory up to there exactly when
the options were parsed to the last. -/
theorem attachNew_allocated_iff (he : (s.attachNew c).error = some e) :
    (∀ p ∈ (s.attachNew c).freed, Allocated s (s.attachNew c).registry p) ↔ c.StopsAtLast := by
  have hheap : s.heap ≤ s.heap + 1 + c.configstr.toList.length := by omega
  unfold attachNew attach at he ⊢
  unfold IfCreate.StopsAtLast
  have htype : (s.newUif c).type = c.type := rfl
  cases hc : c.type with
  | loopback => simp [htype, hc]
  | netmap | pcap =>
    simp only [htype, hc] at he ⊢
    refine iff_of_true (fun p hp => ?_) (by simp)
    exact Allocated.of_le (deviceAttach_allocated _ _ _ p hp) hheap
  | bridge | span =>
    simp only [htype, hc] at he ⊢
    refine (configAttach_allocated_iff _ _ _ _ hheap he).trans ?_
    simp [newUif]

end Attach

/-- Another element goes, and the first match stays. -/
theorem find_erase_of_ne {α : Type*} [DecidableEq α] {p : α → Bool} {l : List α} {a b : α}
    (h : l.find? p = some a) (hne : a ≠ b) : (l.erase b).find? p = some a := by
  induction l with
  | nil => simp at h
  | cons c l ih =>
    by_cases hc : p c = true
    · obtain rfl : c = a := by simpa [hc] using h
      rw [List.erase_cons_tail (by simpa using hne), List.find?_cons_of_pos hc]
    · rw [List.find?_cons_of_neg hc] at h
      rw [List.erase_cons]
      split
      · exact h
      · rw [List.find?_cons_of_neg hc]
        exact ih h

/-- The listed interfaces are records of their own, all of them allocated. -/
structure Sound (s : IfRegistry) : Prop where
  registered : s.Registered
  nodup : s.uinetIfList.Nodup
  block_lt : ∀ uif ∈ s.uinetIfList, uif.block < s.heap

section Lists

variable {s s' : IfRegistry} {uif : UinetIf}

theorem Registered.of_eq (h : s.Registered) (hlist : s'.uinetIfList = s.uinetIfList) :
    s'.Registered := by
  refine ⟨?_, ?_, ?_⟩ <;> rw [hlist]
  · exact h.byName
  · exact h.byAlias
  · exact h.byCdom

theorem Sound.grows (h : s.Sound) (hgrows : Grows s s') : s'.Sound where
  registered := h.registered.of_eq hgrows.1
  nodup := hgrows.1 ▸ h.nodup
  block_lt := by
    rw [hgrows.1]
    intro uif hmem
    exact (h.block_lt uif hmem).trans_le hgrows.2

variable {ifname : List Char}

theorem Sound.find_erase (h : s.Sound) {uif' : UinetIf} (hmem : uif' ∈ s.uinetIfList.erase uif)
    (hfound : uinetIffindByname s.uinetIfList ifname = some uif') :
    uinetIffindByname (s.uinetIfList.erase uif) ifname = some uif' := by
  apply find_erase_of_ne hfound
  rintro rfl
  exact h.nodup.not_mem_erase hmem

/-- Removing an interface leaves the others as they are found. -/
theorem Sound.erase (h : s.Sound) (uif : UinetIf) :
    ({ s with uinetIfList := s.uinetIfList.erase uif } : IfRegistry).Sound where
  registered := {
    byName := fun uif' hmem =>
      h.find_erase hmem (h.registered.byName uif' (List.mem_of_mem_erase hmem))
    byAlias := fun uif' hmem halias =>
      h.find_erase hmem (h.registered.byAlias uif' (List.mem_of_mem_erase hmem) halias)
    byCdom := by
      intro cdom hcdom
      have hsub := (List.erase_sublist (a := uif) (l := s.uinetIfList)).filter (·.cdom = cdom)
      exact hsub.length_le.trans (h.registered.byCdom cdom hcdom) }
  nodup := h.nodup.erase uif
  block_lt := fun uif' hmem => h.block_lt uif' (List.mem_of_mem_erase hmem)

theorem answersTo_name (uif : UinetIf) : uif.answersTo uif.name = true := by
  simp [UinetIf.answersTo]

theorem answersTo_ifAlias (h : uif.ifAlias ≠ []) : uif.answersTo uif.ifAlias = true := by
  simp [UinetIf.answersTo, h]

/-- A name that nobody answers to finds the interface that is put at the end. -/
theorem find_append_new {l : List UinetIf} (hnone : uinetIffindByname l ifname = none)
    (huif : uif.answersTo ifname = true) : uinetIffindByname (l ++ [uif]) ifname = some uif := by
  unfold uinetIffindByname at hnone ⊢
  simp [List.find?_append, hnone, huif]

theorem find_append_old {l : List UinetIf} {uif' : UinetIf}
    (h : uinetIffindByname l ifname = some uif') :
    uinetIffindByname (l ++ [uif]) ifname = some uif' := by
  unfold uinetIffindByname at h ⊢
  simp [List.find?_append, h]

/-- A new record whose alias and domain have been checked is found exactly when nobody answers
to its generic name yet. -/
theorem Registered.append_iff (h : s.Registered) (hnew : uif ∉ s.uinetIfList)
    (halias : uif.ifAlias ≠ [] → uinetIffindByname s.uinetIfList uif.ifAlias = none)
    (hcdom : uif.cdom ≠ 0 → uinetIffindBycdom s.uinetIfList uif.cdom = none)
    (hlist : s'.uinetIfList = s.uinetIfList ++ [uif]) :
    s'.Registered ↔ uinetIffindByname s.uinetIfList uif.name = none := by
  constructor
  · intro h'
    have hfound := h'.byName uif (by simp [hlist])
    rw [hlist] at hfound
    cases hold : uinetIffindByname s.uinetIfList uif.name with
    | none => rfl
    | some uif' =>
      rw [find_append_old hold] at hfound
      obtain rfl := Option.some.inj hfound
      exact absurd (List.mem_of_find?_eq_some hold) hnew
  · intro hname
    refine ⟨?_, ?_, ?_⟩ <;> rw [hlist]
    · intro uif' hmem
      rcases List.mem_append.1 hmem with hmem | hmem
      · exact find_append_old (h.byName uif' hmem)
      · obtain rfl := List.mem_singleton.1 hmem
        exact find_append_new hname (answersTo_name uif')
    · intro uif' hmem hne
      rcases List.mem_append.1 hmem with hmem | hmem
      · exact find_append_old (h.byAlias uif' hmem hne)
      · obtain rfl := List.mem_singleton.1 hmem
        exact find_append_new (halias hne) (answersTo_ifAlias hne)
    · intro cdom hne
      rw [List.filter_append]
      by_cases heq : uif.cdom = cdom
      · subst heq
        have hnil : s.uinetIfList.filter (·.cdom = uif.cdom) = [] := by
          rw [List.filter_eq_nil_iff]
          intro uif' hmem heq
          have hother := List.find?_eq_none.1 (hcdom hne) uif' hmem
          simp_all
        simp [hnil]
      · simpa [heq] using h.byCdom cdom hne

end Lists

section Calls

variable {s : IfRegistry} {c : IfCreate} {op : IfOp} {uif : UinetIf}

theorem free_of_precheck (h : s.precheck c = none) :
    (c.ifAlias.getD [] ≠ [] →
      uinetIffindByname s.uinetIfList (c.ifAlias.getD []) = none) ∧
    (c.cdom ≠ 0 → uinetIffindBycdom s.uinetIfList c.cdom = none) := by
  simp only [precheck] at h
  split at h
  · cases h
  · split_ifs at h with halias hcdom
    exact ⟨fun hne => by_contra fun hsome => halias ⟨hne, hsome⟩,
      fun hne => by_contra fun hsome => hcdom ⟨hne, hsome⟩⟩

theorem Sound.newUif_not_mem (h : s.Sound) (name : List Char) :
    { s.newUif c with name := name } ∉ s.uinetIfList := by
  intro hmem
  exact (h.block_lt _ hmem).false

/-- The state after a create that fails a check, a create whose driver fails and a create that
succeeds. -/
theorem uinetIfcreate_precheck {e : Errno} (hpre : s.precheck c = some e) :
    s.uinetIfcreate c =
      { error := some e, registry := s
        freed := c.stack.elim [] fun stack => freeUif stack.1 stack.2 } := by
  unfold uinetIfcreate
  rw [hpre]
  rcases c.stack with - | ⟨new, configstr⟩ <;> rfl

theorem uinetIfcreate_failed {e : Errno} (hpre : s.precheck c = none)
    (hatt : (s.attachNew c).error = some e) :
    s.uinetIfcreate c =
      { error := some e, freed := (s.attachNew c).freed ++ release (s.newUif c)
        registry := (s.attachNew c).registry } := by
  simp only [uinetIfcreate, hpre, hatt]

theorem uinetIfcreate_done (hpre : s.precheck c = none) (hatt : (s.attachNew c).error = none) :
    s.uinetIfcreate c =
      { error := none, freed := (s.attachNew c).freed
        registry := { (s.attachNew c).registry with
          uinetIfList :=
            s.uinetIfList ++ [{ s.newUif c with name := (s.attachNew c).name }] } } := by
  simp only [uinetIfcreate, hpre, hatt, attachNew_uinetIfList]

/-- The record and the copy of the configuration string are the memory of the call. -/
theorem release_newUif_allocated :
    ∀ p ∈ release (s.newUif c), Allocated s (s.attachNew c).registry p := by
  have hheap : s.heap + c.configstr.toList.length < (s.attachNew c).registry.heap :=
    heap_lt_attachNew
  intro p hp
  cases hc : c.configstr with
  | none =>
    simp_all [release, freeUif, newUif, Allocated]
  | some text =>
    simp_all [release, freeUif, newUif, Allocated]
    rcases hp with rfl | rfl <;> simp <;> omega

/-- The list after a create that succeeds. -/
theorem Sound.registered_done_iff (h : s.Sound) (hpre : s.precheck c = none)
    (hatt : (s.attachNew c).error = none) :
    (s.step (.create c)).Registered ↔
      uinetIffindByname s.uinetIfList (s.attachNew c).name = none := by
  obtain ⟨halias, hcdom⟩ := free_of_precheck hpre
  apply h.registered.append_iff (h.newUif_not_mem _) halias hcdom
  rw [step, call, uinetIfcreate_done hpre hatt]

theorem Sound.created (h : s.Sound) (hc : s.Allowed (.create c)) : (s.step (.create c)).Sound := by
  have hstep : s.step (.create c) = (s.uinetIfcreate c).registry := rfl
  cases hpre : s.precheck c with
  | some e =>
    rw [hstep, uinetIfcreate_precheck hpre]
    exact h
  | none =>
    have hheap := heap_lt_attachNew (s := s) (c := c)
    cases hatt : (s.attachNew c).error with
    | some e =>
      rw [hstep, uinetIfcreate_failed hpre hatt]
      exact h.grows ⟨attachNew_uinetIfList, by dsimp only; omega⟩
    | none =>
      have hname : uinetIffindByname s.uinetIfList (s.attachNew c).name = none := by
        simpa only [Allowed, hpre, hatt] using hc
      refine ⟨(h.registered_done_iff hpre hatt).2 hname, ?_, ?_⟩ <;>
        rw [hstep, uinetIfcreate_done hpre hatt]
      · exact List.nodup_append.2 ⟨h.nodup, List.nodup_singleton _, by
          rintro uif hmem uif' hnew rfl
          obtain rfl := List.mem_singleton.1 hnew
          exact h.newUif_not_mem _ hmem⟩
      · intro uif hmem
        dsimp only at hmem ⊢
        rcases List.mem_append.1 hmem with hmem | hmem
        · have := h.block_lt uif hmem
          omega
        · obtain rfl := List.mem_singleton.1 hmem
          dsimp only [newUif]
          omega

/-- A call that returns no error has nothing to answer for but the list. -/
theorem honours_of_error_eq_none (herror : (s.call op).error = none)
    (hfault : (s.call op).fault = false) (hsound : (s.step op).Sound) : s.Honours op where
  defined := hfault
  create := fun _ _ hne => absurd herror hne
  destroy := fun _ _ hne => absurd herror hne
  registered := hsound.registered

theorem uinetIfcreate_fault : (s.uinetIfcreate c).fault = false := by
  unfold uinetIfcreate
  split
  · rfl
  · dsimp only
    split <;> rfl

section

variable (h : s.Sound)
include h

/-- A create that returns an error has to answer for what it frees. -/
theorem Sound.honours_failed_iff {e : Errno} (herror : (s.uinetIfcreate c).error = some e)
    (hlist : (s.uinetIfcreate c).registry.uinetIfList = s.uinetIfList) :
    s.Honours (.create c) ↔
      ∀ p ∈ (s.uinetIfcreate c).freed, Allocated s (s.uinetIfcreate c).registry p := by
  have hne : (s.uinetIfcreate c).error ≠ none := by simp [herror]
  constructor
  · intro hc
    exact (hc.create c rfl hne).2
  · intro hfreed
    refine ⟨uinetIfcreate_fault, fun c' heq _ => ?_, fun uif htarget => ?_, ?_⟩
    · exact ⟨hlist, hfreed⟩
    · cases htarget
    · exact h.registered.of_eq hlist

theorem Sound.honours_create_iff : s.Honours (.create c) ↔ s.Allowed (.create c) := by
  cases hpre : s.precheck c with
  | some e =>
    have hresult := uinetIfcreate_precheck hpre
    rw [h.honours_failed_iff (by rw [hresult]) (by rw [hresult]), hresult]
    simp only [Allowed, hpre]
    rcases c.stack with - | ⟨new, configstr⟩
    · simp
    · -- Nothing has been allocated, so the pointer cannot be one of the call's own.
      refine iff_of_false (fun hfreed => ?_) (by simp)
      have hnew : Allocated s s new := hfreed new (by simp [freeUif])
      exact absurd (hnew.1.trans_lt hnew.2.1) (lt_irrefl _)
  | none =>
    cases hatt : (s.attachNew c).error with
    | some e =>
      have hresult := uinetIfcreate_failed hpre hatt
      rw [h.honours_failed_iff (by rw [hresult]) (by rw [hresult]; exact attachNew_uinetIfList),
        hresult, List.forall_mem_append, attachNew_allocated_iff hatt]
      simp only [Allowed, hpre, hatt]
      exact and_iff_left release_newUif_allocated
    | none =>
      have hresult := uinetIfcreate_done hpre hatt
      have herror : (s.call (.create c)).error = none := by rw [call, hresult]
      constructor
      · intro hc
        simpa only [Allowed, hpre, hatt] using (h.registered_done_iff hpre hatt).1 hc.registered
      · intro hc
        exact honours_of_error_eq_none herror uinetIfcreate_fault (h.created hc)

/-- `uinet_ifdestroy_internal` unlists the interface whatever the driver returns. -/
theorem Sound.honours_internal_iff (hcall : s.call op = s.uinetIfdestroyInternal uif)
    (htarget : s.target op = some uif) : s.Honours op ↔ detachError uif.type = none := by
  have hsound : (s.step op).Sound := by
    rw [step, hcall]
    exact h.erase uif
  constructor
  · intro hop
    by_contra hne
    have hmem : uif ∈ (s.step op).uinetIfList := by
      apply hop.destroy uif htarget
      rw [hcall]
      exact hne
    rw [step, hcall] at hmem
    exact h.nodup.not_mem_erase hmem
  · intro herror
    apply honours_of_error_eq_none _ _ hsound
    · rw [hcall]
      exact herror
    · rw [hcall]
      rfl

theorem Sound.honours_destroy_iff (block : ℕ) (uinst : Bool) :
    s.Honours (.destroy (some block) uinst) ↔ s.Allowed (.destroy (some block) uinst) := by
  simp only [Allowed]
  cases hlisted : s.listed block with
  | none =>
    have hcall : s.call (.destroy (some block) uinst) =
        { error := none, freed := [], registry := s } := by simp only [call, hlisted]
    refine iff_of_true (honours_of_error_eq_none (by rw [hcall]) (by rw [hcall]) ?_) (by simp)
    rw [step, hcall]
    exact h
  | some uif =>
    cases uinst with
    | false =>
      refine iff_of_false (fun hop => ?_) (by simp)
      have hdefined := hop.defined
      simp [call, hlisted, uinetIfdestroy] at hdefined
    | true =>
      have hcall : s.call (.destroy (some block) true) = s.uinetIfdestroyInternal uif := by
        simp [call, hlisted, uinetIfdestroy]
      rw [h.honours_internal_iff hcall hlisted]
      simp

theorem Sound.honours_destroyByname_iff (ifname : List Char) :
    s.Honours (.destroyByname ifname) ↔ s.Allowed (.destroyByname ifname) := by
  simp only [Allowed]
  cases hfound : uinetIffindByname s.uinetIfList ifname with
  | none =>
    have hcall : s.call (.destroyByname ifname) =
        { error := some .einval, freed := [], registry := s } := by
      simp only [call, uinetIfdestroyByname, hfound]
    refine iff_of_true ⟨by rw [hcall], ?_, ?_, ?_⟩ (by simp)
    · intro c heq
      cases heq
    · intro uif htarget
      rw [target, hfound] at htarget
      cases htarget
    · rw [step, hcall]
      exact h.registered
  | some uif =>
    have hcall : s.call (.destroyByname ifname) = s.uinetIfdestroyInternal uif := by
      simp only [call, uinetIfdestroyByname, hfound]
    rw [h.honours_internal_iff hcall hfound]
    simp

theorem Sound.destroyedAll : s.uinetIfdestroyAll.Sound :=
  run_preserves (fun _ uif hs => hs.erase uif) h s.uinetIfList

/-- A step from a sound state does what is asked of it exactly when it is allowed. -/
theorem Sound.honours_iff (op : IfOp) : s.Honours op ↔ s.Allowed op := by
  cases op with
  | create c => exact h.honours_create_iff
  | destroy handle uinst =>
    cases handle with
    | none => exact iff_of_false (fun hop => Bool.noConfusion hop.defined) id
    | some block => exact h.honours_destroy_iff block uinst
  | destroyByname ifname => exact h.honours_destroyByname_iff ifname
  | destroyAll => exact iff_of_true (honours_of_error_eq_none rfl rfl h.destroyedAll) trivial
  | elsewhere type =>
    have hsound : (s.step (.elsewhere type)).Sound := h.grows ⟨rfl, Nat.le_succ _⟩
    exact iff_of_true (honours_of_error_eq_none rfl rfl hsound) trivial

theorem Sound.destroyed (uif : Option UinetIf) (uinst : Bool) :
    (s.uinetIfdestroy uif uinst).registry.Sound := by
  unfold uinetIfdestroy
  cases uif with
  | none => exact h
  | some uif =>
    cases uinst with
    | false => exact h
    | true => exact h.erase uif

theorem Sound.step (hop : s.Allowed op) : (step s op).Sound := by
  cases op with
  | create c => exact h.created hop
  | destroy handle uinst =>
    cases handle with
    | none => exact h.destroyed none uinst
    | some block =>
      rw [step, call]
      split
      next uif _ => exact h.destroyed (some uif) uinst
      next => exact h
  | destroyByname ifname =>
    rw [step, call, uinetIfdestroyByname]
    split
    next uif _ => exact h.erase uif
    next => exact h
  | destroyAll => exact h.destroyedAll
  | elsewhere type => exact h.grows ⟨rfl, Nat.le_succ _⟩

end

end Calls

theorem sound_vnetIfListInit (interfaceCount : UinetIfType → BitVec 32) (heap : ℕ) :
    (vnetIfListInit interfaceCount heap).Sound where
  registered := ⟨by simp [vnetIfListInit], by simp [vnetIfListInit], by simp [vnetIfListInit]⟩
  nodup := List.nodup_nil
  block_lt := by simp [vnetIfListInit]

end IfRegistry

/-- Every call of a sequence keeps the list and its own promises exactly when every one of them
is allowed. -/
theorem uinet_if_registry_iff (interfaceCount : UinetIfType → BitVec 32) (heap : ℕ)
    (ops : List IfOp) :
    Along IfRegistry.step IfRegistry.Honours (.vnetIfListInit interfaceCount heap) ops ↔
      Along IfRegistry.step IfRegistry.Allowed (.vnetIfListInit interfaceCount heap) ops :=
  along_iff_along (fun _ _ h hop => h.step hop) (fun _ op h => h.honours_iff op)
    (IfRegistry.sound_vnetIfListInit interfaceCount heap)

def hostedCreate (type : UinetIfType) (configstr : List Char) (ifAlias : List Char)
    (stack : Option HeapPtr) : IfCreate where
  type := type
  configstr := some configstr
  ifAlias := some ifAlias
  cdom := 0
  device := none
  ifAlloc := true
  stack := stack.map fun new => (new, none)

/-- The second interface gets the generic name that is the alias of the first. -/
def aliasThenName : List IfOp :=
  [.create (hostedCreate .netmap ['e', 'm', '0'] ['n', 'e', 't', 'm', 'a', 'p', '1'] none),
    .create (hostedCreate .netmap ['e', 'm', '1'] [] none)]

def bridgeDestroyed : List IfOp :=
  [.create (hostedCreate .bridge ['m', 'a', 'c', '=', '0'] ['b'] none), .destroyByname ['b']]

def aliasTwice : List IfOp :=
  [.create (hostedCreate .netmap ['e', 'm', '0'] ['a'] none),
    .create (hostedCreate .netmap ['e', 'm', '1'] ['a'] (some ⟨0, 8⟩))]

def bareOption : List IfOp :=
  [.create (hostedCreate .bridge ['m', 'a', 'c', ',', 'm', 'a', 'c', '=', '0'] [] none)]

theorem uinet_if_registry_broken :
    ¬ Along IfRegistry.step IfRegistry.Honours (.vnetIfListInit (fun _ => 0) 0) aliasThenName ∧
    ¬ Along IfRegistry.step IfRegistry.Honours (.vnetIfListInit (fun _ => 0) 0) bridgeDestroyed ∧
    ¬ Along IfRegistry.step IfRegistry.Honours (.vnetIfListInit (fun _ => 0) 0) aliasTwice ∧
    ¬ Along IfRegistry.step IfRegistry.Honours (.vnetIfListInit (fun _ => 0) 0) bareOption := by
  refine ⟨fun h => ?_, fun h => ?_, fun h => ?_, fun h => ?_⟩
  · have hfound := h.2.1.registered.byName
    revert hfound
    decide +kernel
  · have hdestroy := h.2.1.destroy _ rfl
    revert hdestroy
    decide +kernel
  · have hfreed := (h.2.1.create _ rfl (by decide +kernel)).2 ⟨0, 8⟩ (by decide +kernel)
    exact absurd hfreed.2.2 (by decide)
  · have hfreed := (h.1.create _ rfl (by decide +kernel)).2 ⟨2, 4⟩ (by decide +kernel)
    exact absurd hfreed.2.2 (by decide)

end Libuinet
