import Libuinet.Execution
import Libuinet.NetmapTx
import Libuinet.TokenRing

namespace Libuinet

open Execution SlotRing TokenRing

/-- `struct if_netmap_bufinfo`.  A pointer to one is its index in the pool. -/
structure Bufinfo where
  nmIndex : BitVec 32 := 0
  biIndex : ℕ

structure BufinfoPool where
  pool : ℕ → Bufinfo
  freeList : ℕ → ℕ
  max : ℕ
  avail : ℕ
  returnable : ℕ := 0
  head : ℕ := 0
  tail : ℕ := 0
  trail : ℕ := 0

namespace BufinfoPool

def ifNetmapBufinfoPoolInit (max : ℕ) : BufinfoPool where
  pool i := { biIndex := i }
  freeList i := i
  max := max
  avail := max

def ifNetmapBufinfoAlloc (p : BufinfoPool) (slotindex : BitVec 32) : Option ℕ × BufinfoPool :=
  if p.avail ≠ 0 then
    let bi := p.freeList p.head
    (some bi, { p with
      avail := p.avail - 1
      pool := Function.update p.pool bi { p.pool bi with nmIndex := slotindex }
      head := nextIndex p.max p.head })
  else (none, p)

def ifNetmapBufinfoUnalloc (p : BufinfoPool) : BufinfoPool :=
  { p with avail := p.avail + 1, head := prevIndex p.max p.head }

end BufinfoPool

/-- How far `if_netmap_bufinfo_free` is, which holds `tail_lock` from start to end. -/
inductive FreeStage where
  | locked
  /-- `free_list` is written -/
  | written
  /-- `returnable` is increased -/
  | added
  deriving DecidableEq

/-- The next step of `if_netmap_bufinfo_free`; the last one has no stage after it. -/
def BufinfoPool.ifNetmapBufinfoFree (p : BufinfoPool) (bi : ℕ) :
    FreeStage → Option FreeStage × BufinfoPool
  | .locked =>
    (some .written, { p with freeList := Function.update p.freeList p.tail (p.pool bi).biIndex })
  | .written => (some .added, { p with returnable := p.returnable + 1 })
  | .added => (none, { p with tail := nextIndex p.max p.tail })

/-- The receive ring: `buf_idx` of the slots, and what the driver publishes, which is `reserved`
or `head` by the version of netmap. -/
structure NetmapRxRing where
  bufIdx : ℕ → BitVec 32
  cur : ℕ := 0
  reserved : ℕ := 0
  head : ℕ := 0

namespace NetmapRxRing

variable (api : NetmapApi) (numSlots : ℕ)

def ifNetmapRxupdate (r : NetmapRxRing) (cur reserved : ℕ) : NetmapRxRing :=
  match api with
  | .below10 => { r with cur := cur, reserved := reserved }
  | .from10 => { r with
      cur := cur
      head := if cur < reserved then cur + numSlots - reserved else cur - reserved }

def ifNetmapRxreserved (r : NetmapRxRing) : ℕ :=
  match api with
  | .below10 => r.reserved
  | .from10 => if r.cur < r.head then r.cur + numSlots - r.head else r.cur - r.head

/-- `if_netmap_rxslot`: the buffer index of the slot, and the next slot. -/
def ifNetmapRxslot (r : NetmapRxRing) (slotno : ℕ) : BitVec 32 × ℕ :=
  (r.bufIdx slotno, nextIndex numSlots slotno)

def ifNetmapRxsetslot (r : NetmapRxRing) (slotno : ℕ) (index : BitVec 32) : NetmapRxRing × ℕ :=
  ({ r with bufIdx := Function.update r.bufIdx slotno index }, nextIndex numSlots slotno)

end NetmapRxRing

/-- Where `if_netmap_receive` is, with its variables. -/
inductive RxPc where
  /-- waiting for packets -/
  | poll
  /-- in the loop over the slots, `left` of them to go -/
  | receive (cur left newReserved : ℕ)
  /-- about to call `m_gethdr`, with a bufinfo -/
  | zeroCopy (cur left newReserved bi : ℕ) (slotindex : BitVec 32)
  /-- in the loop of `if_netmap_sweep_trail` -/
  | sweep (cur i n returned : ℕ)
  /-- about to call `if_netmap_rxupdate` -/
  | update (cur : ℕ)
  deriving DecidableEq

/-- The driver.  The stack has the bufinfos in `held`, and one may be in
`if_netmap_bufinfo_free`. -/
structure NetmapRx where
  ring : NetmapRxRing
  rxBufinfo : BufinfoPool
  hwRxRsvdBegin : ℕ := 0
  reserved : ℕ := 0
  pc : RxPc := .poll
  held : List ℕ := []
  freeing : Option (ℕ × FreeStage) := none

/-- The kernel hands over `avail` slots; the receive thread makes a step, in which `m_gethdr`, if
it is called, succeeds or not; a thread enters `if_netmap_free` with a bufinfo; a thread in
there makes a step. -/
inductive RxEvent where
  | handOver (avail : ℕ)
  | rx (gethdr : Bool)
  | free (bi : ℕ)
  | freeStep

namespace NetmapRx

/-- `IF_NETMAP_RXRING_ZCOPY_FRAC_NUM` and `IF_NETMAP_RXRING_ZCOPY_FRAC_DEN`. -/
def poolSize (numSlots : ℕ) : ℕ := numSlots * 1 / 2

def start (numSlots : ℕ) (bufIdx : ℕ → BitVec 32) : NetmapRx where
  ring := { bufIdx }
  rxBufinfo := .ifNetmapBufinfoPoolInit (poolSize numSlots)

variable (api : NetmapApi) (numSlots : ℕ)

variable (s : NetmapRx)

/-- A buffer goes back to the ring at the far end of the reserved range. -/
def recover (slotindex : BitVec 32) : NetmapRx :=
  let (ring, begin) := s.ring.ifNetmapRxsetslot numSlots s.hwRxRsvdBegin slotindex
  { s with ring := ring, hwRxRsvdBegin := begin }

def sweepOne (cur i n returned : ℕ) : NetmapRx :=
  let p := s.rxBufinfo
  let bi := p.pool (p.freeList p.trail)
  let (ring, i) := s.ring.ifNetmapRxsetslot numSlots i bi.nmIndex
  { s with
    ring := ring
    rxBufinfo := { p with trail := nextIndex p.max p.trail }
    pc := .sweep cur i (n + 1) returned }

def ifNetmapReceive (gethdr : Bool) : NetmapRx :=
  match s.pc with
  | .poll => s
  | .receive cur 0 newReserved => { s with
      reserved := s.reserved + newReserved
      pc := .sweep cur s.hwRxRsvdBegin 0 s.rxBufinfo.returnable }
  | .receive cur (left + 1) newReserved =>
    let (slotindex, cur) := s.ring.ifNetmapRxslot numSlots cur
    match s.rxBufinfo.ifNetmapBufinfoAlloc slotindex with
    | (none, _) => { s.recover numSlots slotindex with pc := .receive cur left newReserved }
    | (some bi, p) => { s with rxBufinfo := p, pc := .zeroCopy cur left newReserved bi slotindex }
  | .zeroCopy cur left newReserved bi slotindex =>
    if gethdr then { s with held := bi :: s.held, pc := .receive cur left (newReserved + 1) }
    else { s.recover numSlots slotindex with
      rxBufinfo := s.rxBufinfo.ifNetmapBufinfoUnalloc
      pc := .receive cur left newReserved }
  | .sweep cur i n returned =>
    if n < returned then s.sweepOne numSlots cur i n returned
    else { s with
      hwRxRsvdBegin := i
      rxBufinfo := { s.rxBufinfo with
        returnable := s.rxBufinfo.returnable - returned
        avail := s.rxBufinfo.avail + returned }
      reserved := s.reserved - returned
      pc := .update cur }
  | .update cur =>
    { s with ring := s.ring.ifNetmapRxupdate api numSlots cur s.reserved, pc := .poll }

def step : RxEvent → NetmapRx
  | .handOver avail =>
    if s.pc = .poll ∧ avail ≠ 0 then { s with pc := .receive s.ring.cur avail 0 } else s
  | .rx gethdr => s.ifNetmapReceive api numSlots gethdr
  | .free bi =>
    if bi ∈ s.held ∧ s.freeing = none then
      { s with held := s.held.erase bi, freeing := some (bi, .locked) }
    else s
  | .freeStep =>
    match s.freeing with
    | none => s
    | some (bi, stage) =>
      let (stage, p) := s.rxBufinfo.ifNetmapBufinfoFree bi stage
      { s with rxBufinfo := p, freeing := stage.map (bi, ·) }

def inHand : List ℕ :=
  match s.pc with
  | .zeroCopy _ _ _ bi _ => [bi]
  | _ => []

/-- The bufinfo in `if_netmap_bufinfo_free` that is not counted in `returnable` yet. -/
def leaving : List ℕ :=
  match s.freeing with
  | some (bi, .locked) | some (bi, .written) => [bi]
  | _ => []

def out : List ℕ := s.inHand ++ (s.held ++ s.leaving)

def lag : ℕ :=
  match s.pc with
  | .sweep _ _ n _ => n
  | _ => 0

def tailLag : ℕ :=
  match s.freeing with
  | some (_, .added) => 1
  | _ => 0

def rsvdBegin : ℕ :=
  match s.pc with
  | .sweep _ i _ _ => i
  | _ => s.hwRxRsvdBegin

def rsvdEnd : ℕ :=
  match s.pc with
  | .poll => s.ring.cur
  | .receive cur _ _ | .zeroCopy cur _ _ _ _ | .sweep cur _ _ _ | .update cur => cur

def taken : ℕ :=
  match s.pc with
  | .receive _ _ newReserved => s.reserved + newReserved
  | .zeroCopy _ _ newReserved _ _ => s.reserved + newReserved + 1
  | _ => s.reserved

def nmIndices (l : List ℕ) : List (BitVec 32) :=
  l.map fun bi => (s.rxBufinfo.pool bi).nmIndex

/-- The books balance, with the positions of the ring and of `free_list` counted without end: the
reserved range is from `B` to `C`, the trail, tail and head of the list are at `T`, `L` and `H`. -/
structure Accounts (original : List (BitVec 32)) (s : NetmapRx) (B C T L H : ℕ) : Prop where
  ledger : Ledger s.rxBufinfo.freeList s.rxBufinfo.max T L H s.out
  ring : Ring s.ring.bufIdx numSlots B C
    (s.nmIndices (stretch s.rxBufinfo.freeList s.rxBufinfo.max T (L - T) ++ s.out)) original
  span : C + T = B + H
  small : s.rxBufinfo.max < numSlots
  begin : s.rsvdBegin = B % numSlots
  cur : s.rsvdEnd = C % numSlots
  head : s.rxBufinfo.head = H % s.rxBufinfo.max
  trail : s.rxBufinfo.trail = T % s.rxBufinfo.max
  tail : ∃ k, L = k + s.tailLag ∧ s.rxBufinfo.tail = k % s.rxBufinfo.max
  returnable : s.rxBufinfo.returnable + T = L + s.lag
  avail : s.rxBufinfo.avail + s.lag + H = T + s.rxBufinfo.max
  taken : s.taken + T = H + s.lag
  returned : ∀ cur i n returned, s.pc = .sweep cur i n returned →
    n ≤ returned ∧ returned ≤ s.rxBufinfo.returnable
  biIndex : ∀ bi, (s.rxBufinfo.pool bi).biIndex = bi
  written : ∀ bi, s.freeing = some (bi, .written) →
    s.rxBufinfo.freeList (L % s.rxBufinfo.max) = bi
  allocated : ∀ cur left newReserved bi slotindex,
    s.pc = .zeroCopy cur left newReserved bi slotindex →
      (s.rxBufinfo.pool bi).nmIndex = slotindex ∧
      ∃ k, H = k + 1 ∧ s.rxBufinfo.freeList (k % s.rxBufinfo.max) = bi
  published : s.pc = .poll → s.ring.ifNetmapRxreserved api numSlots = s.reserved

variable {api numSlots} {original : List (BitVec 32)} {s : NetmapRx} {B C T L H : ℕ}

theorem accounts_start (hn : 0 < numSlots) (bufIdx : ℕ → BitVec 32) :
    (start numSlots bufIdx).Accounts api numSlots (stretch bufIdx numSlots 0 numSlots)
      0 0 0 0 0 where
  ledger := .start _
  ring := ⟨le_rfl, Nat.zero_le _, by simp [start, nmIndices, out, inHand, leaving]⟩
  span := rfl
  small := by
    simp only [start, BufinfoPool.ifNetmapBufinfoPoolInit, poolSize]
    omega
  begin := (Nat.zero_mod _).symm
  cur := (Nat.zero_mod _).symm
  head := (Nat.zero_mod _).symm
  trail := (Nat.zero_mod _).symm
  tail := ⟨0, rfl, (Nat.zero_mod _).symm⟩
  returnable := rfl
  avail := by simp [start, BufinfoPool.ifNetmapBufinfoPoolInit, lag]
  taken := rfl
  returned := by simp [start]
  biIndex bi := rfl
  written := by simp [start]
  allocated := by simp [start]
  published _ := by cases api <;> rfl

theorem rxreserved_rxupdate (r : NetmapRxRing) {cur reserved : ℕ} (hlt : reserved < numSlots) :
    (r.ifNetmapRxupdate api numSlots cur reserved).ifNetmapRxreserved api numSlots = reserved := by
  cases api with
  | below10 => rfl
  | from10 =>
    simp only [NetmapRxRing.ifNetmapRxupdate, NetmapRxRing.ifNetmapRxreserved]
    split <;> split <;> omega

/-- The buffer of an allocated bufinfo is away with the others. -/
theorem nmIndices_alloc (s : NetmapRx) {bi : ℕ} {l l' : List ℕ} (hbi : bi ∉ l ++ l')
    {pool : ℕ → Bufinfo} (hother : ∀ i, i ≠ bi → pool i = s.rxBufinfo.pool i) :
    ((pool bi).nmIndex :: s.nmIndices (l ++ l')).Perm
      ((l ++ bi :: l').map fun i => (pool i).nmIndex) := by
  have hsame : s.nmIndices (l ++ l') = (l ++ l').map fun i => (pool i).nmIndex := by
    apply List.map_congr_left
    intro i hi
    rw [hother i (ne_of_mem_of_not_mem hi hbi)]
  rw [hsame]
  exact List.perm_middle.symm.map fun i => (pool i).nmIndex

section Accounts

variable (h : s.Accounts api numSlots original B C T L H)
include h

/-- The figures, all of which a step of the receive thread looks at. -/
theorem Accounts.figures : C + T = B + H ∧ s.rxBufinfo.max < numSlots ∧
    (T ≤ L ∧ L ≤ H ∧ H ≤ T + s.rxBufinfo.max) ∧ s.rxBufinfo.returnable + T = L + s.lag ∧
    s.rxBufinfo.avail + s.lag + H = T + s.rxBufinfo.max ∧ s.taken + T = H + s.lag :=
  ⟨h.span, h.small, ⟨h.ledger.le_tail, h.ledger.le_head, h.ledger.le_turn⟩, h.returnable, h.avail,
    h.taken⟩

/-- A step that moves no buffer: only the counts and the place change. -/
theorem Accounts.relabel {t : NetmapRx} (hpool : { t.rxBufinfo with returnable := 0, avail := 0 } =
      { s.rxBufinfo with returnable := 0, avail := 0 })
    (hsame : (t.ring.bufIdx, t.freeing, t.rsvdBegin, t.rsvdEnd, t.inHand) =
      (s.ring.bufIdx, s.freeing, s.rsvdBegin, s.rsvdEnd, [])) (hout : s.out.Perm t.out)
    (hreturnable : t.rxBufinfo.returnable + T = L + t.lag)
    (havail : t.rxBufinfo.avail + t.lag + H = T + t.rxBufinfo.max)
    (htaken : t.taken + T = H + t.lag)
    (hreturned : ∀ cur i n returned, t.pc = .sweep cur i n returned →
      n ≤ returned ∧ returned ≤ t.rxBufinfo.returnable)
    (hpublished : t.pc = .poll → t.ring.ifNetmapRxreserved api numSlots = t.reserved) :
    t.Accounts api numSlots original B C T L H := by
  simp only [Prod.mk.injEq] at hsame
  obtain ⟨hbufs, hfreeing, hbegin, hend, hhand⟩ := hsame
  obtain ⟨hinfo, hlist, hmax, -, -, hhead, htail, htrail⟩ := BufinfoPool.mk.injEq .. ▸ hpool
  have hlag : t.tailLag = s.tailLag := by rw [tailLag, hfreeing, ← tailLag]
  exact {
    ledger := by
      rw [hlist, hmax]
      exact h.ledger.congr hout
    ring := by
      rw [hlist, hmax, hbufs, nmIndices, hinfo]
      exact h.ring.congr ((hout.append_left _).map _)
    span := h.span
    small := hmax ▸ h.small
    begin := hbegin.trans h.begin
    cur := hend.trans h.cur
    head := by rw [hhead, hmax, h.head]
    trail := by rw [htrail, hmax, h.trail]
    tail := by
      rw [htail, hmax, hlag]
      exact h.tail
    returnable := hreturnable
    avail := havail
    taken := htaken
    returned := hreturned
    biIndex := by
      rw [hinfo]
      exact h.biIndex
    written := by
      rw [hlist, hmax, hfreeing]
      exact h.written
    allocated := by
      intro cur left newReserved bi slotindex hpc
      simp [inHand, hpc] at hhand
    published := hpublished }

theorem Accounts.handOver (hpc : s.pc = .poll) (avail : ℕ) :
    Accounts api numSlots original { s with pc := .receive s.ring.cur avail 0 } B C T L H := by
  refine h.relabel rfl ?_ ?_ ?_ ?_ ?_ (by simp) (by simp)
  · simp [rsvdBegin, rsvdEnd, inHand, hpc]
  · simp [out, inHand, leaving, hpc]
  · simpa [lag, hpc] using h.returnable
  · simpa [lag, hpc] using h.avail
  · simpa [NetmapRx.taken, lag, hpc] using h.taken

variable {bi cur newReserved : ℕ}

theorem Accounts.beginSweep (hpc : s.pc = .receive cur 0 newReserved) (gethdr : Bool) :
    (s.ifNetmapReceive api numSlots gethdr).Accounts api numSlots original B C T L H := by
  obtain ⟨-, -, -, hreturnable, havail, htaken⟩ := h.figures
  simp only [lag, NetmapRx.taken, hpc] at hreturnable havail htaken
  rw [ifNetmapReceive, hpc]
  refine h.relabel rfl ?_ ?_ hreturnable havail htaken ?_ (by simp)
  · simp [rsvdBegin, rsvdEnd, inHand, hpc]
  · simp [out, inHand, leaving, hpc]
  · rintro _ _ _ _ ⟨-⟩
    exact ⟨Nat.zero_le _, le_rfl⟩

theorem Accounts.endSweep {i n returned : ℕ} (hpc : s.pc = .sweep cur i n returned)
    (hend : ¬ n < returned) (gethdr : Bool) :
    (s.ifNetmapReceive api numSlots gethdr).Accounts api numSlots original B C T L H := by
  obtain ⟨hn, hle⟩ := h.returned cur i n returned hpc
  obtain rfl : n = returned := by omega
  obtain ⟨-, -, ⟨hTL, hLH, -⟩, hreturnable, havail, htaken⟩ := h.figures
  simp only [lag, NetmapRx.taken, hpc] at hreturnable havail htaken
  simp only [ifNetmapReceive, hpc, lt_irrefl, if_false]
  refine h.relabel rfl ?_ ?_ ?_ ?_ ?_ (by simp) (by simp)
  · simp [rsvdBegin, rsvdEnd, inHand, hpc]
  · simp [out, inHand, leaving, hpc]
  · simp only [lag]
    omega
  · simp only [lag]
    omega
  · simp only [lag, NetmapRx.taken]
    omega

variable {left : ℕ}

theorem Accounts.keep {slotindex : BitVec 32}
    (hpc : s.pc = .zeroCopy cur left newReserved bi slotindex) :
    (s.ifNetmapReceive api numSlots true).Accounts api numSlots original B C T L H := by
  obtain ⟨-, -, -, hreturnable, havail, htaken⟩ := h.figures
  simp only [lag, NetmapRx.taken, hpc] at hreturnable havail htaken
  simp only [ifNetmapReceive, hpc, if_true]
  refine h.relabel rfl ?_ ?_ hreturnable havail ?_ (by simp) (by simp)
  · simp [rsvdBegin, rsvdEnd, inHand, hpc]
  · simp [out, inHand, leaving, hpc]
  · simp only [lag, NetmapRx.taken]
    omega

theorem Accounts.publish (hpc : s.pc = .update cur) (gethdr : Bool) :
    (s.ifNetmapReceive api numSlots gethdr).Accounts api numSlots original B C T L H := by
  obtain ⟨-, hsmall, ⟨-, -, hturn⟩, hreturnable, havail, htaken⟩ := h.figures
  simp only [lag, NetmapRx.taken, hpc] at hreturnable havail htaken
  have hring : (s.ring.ifNetmapRxupdate api numSlots cur s.reserved).bufIdx = s.ring.bufIdx ∧
      (s.ring.ifNetmapRxupdate api numSlots cur s.reserved).cur = cur := by
    cases api <;> exact ⟨rfl, rfl⟩
  simp only [ifNetmapReceive, hpc]
  refine h.relabel rfl ?_ ?_ hreturnable havail htaken (by simp) fun _ => ?_
  · simp [rsvdBegin, rsvdEnd, inHand, hpc, hring]
  · simp [out, inHand, leaving, hpc]
  · exact rxreserved_rxupdate _ (by omega)

/-- The token that goes out of a ledger is at no other place. -/
theorem Accounts.head_not_mem (hlt : H < T + s.rxBufinfo.max) :
    s.rxBufinfo.freeList (H % s.rxBufinfo.max) ∉
      stretch s.rxBufinfo.freeList s.rxBufinfo.max T (L - T) ++ s.out := by
  have hnodup := (List.nodup_append.mp (h.ledger.take hlt).nodup).2.1
  exact (List.nodup_cons.mp (List.perm_middle.nodup_iff.mp hnodup)).1

/-- A bufinfo is allocated for the next slot. -/
theorem Accounts.alloc (hpc : s.pc = .receive cur (left + 1) newReserved)
    (hfree : s.rxBufinfo.avail ≠ 0) (gethdr : Bool) :
    (s.ifNetmapReceive api numSlots gethdr).Accounts api numSlots original B (C + 1) T L
      (H + 1) := by
  obtain ⟨hspan, hsmall, -, hreturnable, havail, htaken⟩ := h.figures
  have hcur := h.cur
  have hbegin := h.begin
  simp only [lag, NetmapRx.taken, rsvdEnd, rsvdBegin, hpc] at hreturnable havail htaken hcur hbegin
  have hlt : H < T + s.rxBufinfo.max := by omega
  have hnew := h.head_not_mem hlt
  have hledger := h.ledger.take hlt
  have hring := h.ring.take (by omega)
  have hout : s.out = s.held ++ s.leaving := by simp [out, inHand, hpc]
  simp only [ifNetmapReceive, hpc, NetmapRxRing.ifNetmapRxslot, BufinfoPool.ifNetmapBufinfoAlloc,
    if_pos hfree]
  rw [hcur]
  rw [h.head]
  generalize hbi : s.rxBufinfo.freeList (H % s.rxBufinfo.max) = bi at *
  exact { h with
    ledger := by
      rw [hout] at hledger
      exact hledger
    ring := by
      have hperm := s.nmIndices_alloc hnew fun i hi => Function.update_of_ne hi
        { s.rxBufinfo.pool bi with nmIndex := s.ring.bufIdx (C % numSlots) } s.rxBufinfo.pool
      rw [Function.update_self] at hperm
      rw [hout] at hring hperm
      exact hring.congr hperm
    span := by omega
    small := hsmall
    begin := hbegin
    cur := nextIndex_mod _ C
    head := nextIndex_mod _ H
    returnable := hreturnable
    avail := by
      simp only [lag]
      omega
    taken := by
      simp only [lag, NetmapRx.taken]
      omega
    returned := by simp
    biIndex := by
      intro i
      by_cases hi : i = bi <;> simp [hi, h.biIndex]
    allocated := by
      rintro _ _ _ _ _ ⟨-⟩
      exact ⟨by simp, H, rfl, hbi⟩
    published := by simp }

/-- The next slot is copied. -/
theorem Accounts.copy (hpc : s.pc = .receive cur (left + 1) newReserved)
    (hnone : s.rxBufinfo.avail = 0) (gethdr : Bool) :
    (s.ifNetmapReceive api numSlots gethdr).Accounts api numSlots original (B + 1) (C + 1) T L
      H := by
  obtain ⟨hspan, hsmall, ⟨-, -, hturn⟩, hreturnable, havail, htaken⟩ := h.figures
  have hcur := h.cur
  have hbegin := h.begin
  simp only [lag, NetmapRx.taken, rsvdEnd, rsvdBegin, hpc] at hreturnable havail htaken hcur hbegin
  have hring := (h.ring.take (by omega)).put (by have := h.ring.le; omega)
  have hout : s.out = s.held ++ s.leaving := by simp [out, inHand, hpc]
  have hledger := h.ledger
  rw [hout] at hledger hring
  simp only [ifNetmapReceive, hpc, NetmapRxRing.ifNetmapRxslot, BufinfoPool.ifNetmapBufinfoAlloc,
    hnone, ne_eq, not_true_eq_false, if_false, recover, NetmapRxRing.ifNetmapRxsetslot]
  rw [hcur, hbegin]
  exact { h with
    ledger := hledger
    ring := hring
    span := by omega
    small := hsmall
    begin := nextIndex_mod _ B
    cur := nextIndex_mod _ C
    returnable := hreturnable
    avail := by
      simp only [lag]
      omega
    taken := htaken
    returned := by simp
    allocated := by simp
    published := by simp }

/-- There is no mbuf for the bufinfo. -/
theorem Accounts.unalloc {slotindex : BitVec 32}
    (hpc : s.pc = .zeroCopy cur left newReserved bi slotindex) :
    (s.ifNetmapReceive api numSlots false).Accounts api numSlots original (B + 1) C T L
      (H - 1) := by
  obtain ⟨hindex, k, rfl, hbi⟩ := h.allocated _ _ _ _ _ hpc
  rw [Nat.add_sub_cancel]
  obtain ⟨hspan, hsmall, ⟨-, -, hturn⟩, hreturnable, havail, htaken⟩ := h.figures
  have hcur := h.cur
  have hbegin := h.begin
  simp only [lag, NetmapRx.taken, rsvdEnd, rsvdBegin, hpc] at hreturnable havail htaken hcur hbegin
  have hout : s.out = bi :: (s.held ++ s.leaving) := by simp [out, inHand, hpc]
  have hledger := h.ledger
  rw [hout] at hledger
  have hcount := hledger.add_length
  rw [List.length_cons] at hcount
  have hTL := hledger.le_tail
  -- The buffer of the bufinfo comes to the front of those away.
  have hring := h.ring
  rw [hout] at hring
  have hfront := (hring.congr (List.perm_middle.map _)).put (by omega)
  simp only [hindex] at hfront
  simp only [ifNetmapReceive, hpc, Bool.false_eq_true, if_false, recover,
    NetmapRxRing.ifNetmapRxsetslot, BufinfoPool.ifNetmapBufinfoUnalloc]
  rw [hbegin]
  exact { h with
    ledger := hledger.untake hbi
    ring := hfront
    span := by omega
    small := hsmall
    begin := nextIndex_mod _ B
    cur := hcur
    head := by
      rw [h.head]
      exact prevIndex_mod _ k
    returnable := hreturnable
    avail := by
      simp only [lag]
      omega
    taken := by
      simp only [lag, NetmapRx.taken]
      omega
    returned := by simp
    allocated := by simp
    published := by simp }

theorem Accounts.sweepOne {i n returned : ℕ} (hpc : s.pc = .sweep cur i n returned)
    (hlt : n < returned) :
    (s.sweepOne numSlots cur i n returned).Accounts api numSlots original (B + 1) C (T + 1) L
      H := by
  obtain ⟨-, hle⟩ := h.returned cur i n returned hpc
  obtain ⟨hspan, hsmall, ⟨hTL, hLH, hturn⟩, hreturnable, havail, htaken⟩ := h.figures
  have hcur := h.cur
  have hbegin := h.begin
  simp only [lag, NetmapRx.taken, rsvdEnd, rsvdBegin, hpc] at hreturnable havail htaken hcur hbegin
  have hback : T < L := by omega
  have hout : s.out = s.held ++ s.leaving := by simp [out, inHand, hpc]
  have hledger := h.ledger.sweep hback
  have hring := h.ring
  rw [show L - T = L - (T + 1) + 1 by omega, stretch_succ, List.cons_append, nmIndices,
    List.map_cons] at hring
  have hput := hring.put (by omega)
  rw [hout] at hledger hput
  simp only [NetmapRx.sweepOne, NetmapRxRing.ifNetmapRxsetslot]
  rw [hbegin, h.trail]
  exact { h with
    ledger := hledger
    ring := hput
    span := by omega
    small := hsmall
    begin := nextIndex_mod _ B
    cur := hcur
    trail := nextIndex_mod _ T
    returnable := by
      simp only [lag]
      omega
    avail := by
      simp only [lag]
      omega
    taken := by
      simp only [lag, NetmapRx.taken]
      omega
    returned := by
      rintro _ _ _ _ ⟨-⟩
      exact ⟨hlt, hle⟩
    allocated := by simp
    published := by simp }

theorem Accounts.free (hheld : bi ∈ s.held) (hfree : s.freeing = none) :
    Accounts api numSlots original
      { s with held := s.held.erase bi, freeing := some (bi, .locked) } B C T L H := by
  have hperm : s.out.Perm (s.inHand ++ (s.held.erase bi ++ [bi])) := by
    have hleaving : s.leaving = [] := by simp [leaving, hfree]
    rw [out, hleaving, List.append_nil]
    exact ((List.perm_cons_erase hheld).trans (List.perm_append_singleton _ _).symm).append_left _
  have htail := h.tail
  simp only [tailLag, hfree] at htail
  exact { h with
    ledger := h.ledger.congr hperm
    ring := h.ring.congr ((hperm.append_left _).map _)
    tail := htail
    written := by simp }

/-- The tail is where the list ends, except between `returnable` and `tail` being set. -/
theorem Accounts.tail_eq (hlag : s.tailLag = 0) : s.rxBufinfo.tail = L % s.rxBufinfo.max := by
  obtain ⟨k, hk, htail⟩ := h.tail
  rw [htail, hk, hlag, Nat.add_zero]

/-- `free_list` is written. -/
theorem Accounts.freeWrite (hfree : s.freeing = some (bi, .locked)) :
    Accounts api numSlots original { s with
      rxBufinfo := { s.rxBufinfo with
        freeList := Function.update s.rxBufinfo.freeList s.rxBufinfo.tail
          (s.rxBufinfo.pool bi).biIndex }
      freeing := some (bi, .written) } B C T L H := by
  have htail : s.rxBufinfo.tail = L % s.rxBufinfo.max := h.tail_eq (by simp [tailLag, hfree])
  have hout : s.out = s.inHand ++ (s.held ++ [bi]) := by simp [out, leaving, hfree]
  have hcount := h.ledger.add_length
  simp only [hout, List.length_append, List.length_singleton] at hcount
  have hTL := h.ledger.le_tail
  have hturn := h.ledger.le_turn
  have hledger := h.ledger.write (by omega) bi
  have hsame : stretch (Function.update s.rxBufinfo.freeList (L % s.rxBufinfo.max) bi)
      s.rxBufinfo.max T (L - T) = stretch s.rxBufinfo.freeList s.rxBufinfo.max T (L - T) :=
    stretch_update_behind _ (by omega) (by omega) bi
  have hring := h.ring
  rw [← hsame] at hring
  rw [hout] at hledger hring
  rw [h.biIndex, htail]
  exact { h with
    ledger := hledger
    ring := hring
    tail := ⟨L, rfl, htail⟩
    written := by
      rintro _ ⟨-⟩
      exact Function.update_self _ _ _
    allocated := by
      -- What the receive thread has at hand is out as well, and has a later position.
      intro cur left newReserved bi' slotindex hpc
      obtain ⟨hindex, k, hk, hbi⟩ := h.allocated cur left newReserved bi' slotindex hpc
      have hhand : s.inHand = [bi'] := by
        change s.pc = _ at hpc
        simp [inHand, hpc]
      rw [hhand, List.length_singleton] at hcount
      have hne : L % s.rxBufinfo.max ≠ k % s.rxBufinfo.max := mod_ne_mod (by omega) (by omega)
      exact ⟨hindex, k, hk, (Function.update_of_ne hne.symm _ _).trans hbi⟩ }

/-- `returnable` counts it. -/
theorem Accounts.freeAdd (hfree : s.freeing = some (bi, .written)) :
    Accounts api numSlots original { s with
      rxBufinfo := { s.rxBufinfo with returnable := s.rxBufinfo.returnable + 1 }
      freeing := some (bi, .added) } B C T (L + 1) H := by
  have hbi := h.written bi hfree
  have htail : s.rxBufinfo.tail = L % s.rxBufinfo.max := h.tail_eq (by simp [tailLag, hfree])
  have hperm : s.out.Perm (bi :: (s.inHand ++ (s.held ++ []))) := by
    simp only [out, leaving, hfree, List.append_nil, ← List.append_assoc]
    exact List.perm_append_singleton _ _
  have hTL := h.ledger.le_tail
  have hreturnable := h.returnable
  have hback : stretch s.rxBufinfo.freeList s.rxBufinfo.max T (L + 1 - T) =
      stretch s.rxBufinfo.freeList s.rxBufinfo.max T (L - T) ++ [bi] := by
    rw [show L + 1 - T = L - T + 1 by omega, stretch_concat, show T + (L - T) = L by omega, hbi]
  have hring := h.ring.congr ((hperm.append_left
    (stretch s.rxBufinfo.freeList s.rxBufinfo.max T (L - T))).map _)
  rw [List.append_cons, ← hback] at hring
  exact { h with
    ledger := (h.ledger.congr hperm).back hbi
    ring := hring
    tail := ⟨L, rfl, htail⟩
    returnable := by
      change s.rxBufinfo.returnable + 1 + T = L + 1 + s.lag
      omega
    returned := fun cur i n returned hpc =>
      (h.returned cur i n returned hpc).imp_right Nat.le_succ_of_le
    written := by simp }

theorem Accounts.freeTail (hfree : s.freeing = some (bi, .added)) :
    Accounts api numSlots original { s with
      rxBufinfo := { s.rxBufinfo with
        tail := nextIndex s.rxBufinfo.max s.rxBufinfo.tail }
      freeing := none } B C T L H := by
  have hout : s.out = s.inHand ++ (s.held ++ []) := by simp [out, leaving, hfree]
  have hledger := h.ledger
  have hring := h.ring
  rw [hout] at hledger hring
  obtain ⟨k, hk, htail⟩ := h.tail
  simp only [tailLag, hfree] at hk
  exact { h with
    ledger := hledger
    ring := hring
    tail := ⟨L, rfl, by rw [htail, hk]; exact nextIndex_mod _ k⟩
    written := by simp }

end Accounts

def Balanced (api : NetmapApi) (numSlots : ℕ) (original : List (BitVec 32)) (s : NetmapRx) : Prop :=
  ∃ B C T L H, s.Accounts api numSlots original B C T L H

theorem Balanced.receive (h : s.Balanced api numSlots original) (gethdr : Bool) :
    (s.ifNetmapReceive api numSlots gethdr).Balanced api numSlots original := by
  have hbalanced := h
  obtain ⟨B, C, T, L, H, h⟩ := h
  cases hpc : s.pc with
  | poll =>
    rw [ifNetmapReceive, hpc]
    exact hbalanced
  | receive cur left newReserved =>
    cases left with
    | zero => exact ⟨_, _, _, _, _, h.beginSweep hpc gethdr⟩
    | succ left =>
      by_cases havail : s.rxBufinfo.avail = 0
      · exact ⟨_, _, _, _, _, h.copy hpc havail gethdr⟩
      · exact ⟨_, _, _, _, _, h.alloc hpc havail gethdr⟩
  | zeroCopy cur left newReserved bi slotindex =>
    cases gethdr with
    | true => exact ⟨_, _, _, _, _, h.keep hpc⟩
    | false => exact ⟨_, _, _, _, _, h.unalloc hpc⟩
  | sweep cur i n returned =>
    by_cases hn : n < returned
    · have hstep := h.sweepOne hpc hn
      rw [ifNetmapReceive, hpc]
      simp only [hn, if_true]
      exact ⟨_, _, _, _, _, hstep⟩
    · exact ⟨_, _, _, _, _, h.endSweep hpc hn gethdr⟩
  | update cur => exact ⟨_, _, _, _, _, h.publish hpc gethdr⟩

theorem Balanced.step (h : s.Balanced api numSlots original) (e : RxEvent) :
    (s.step api numSlots e).Balanced api numSlots original := by
  have hbalanced := h
  obtain ⟨B, C, T, L, H, h⟩ := h
  cases e with
  | handOver avail =>
    rw [NetmapRx.step]
    split
    · next hpoll => exact ⟨_, _, _, _, _, h.handOver hpoll.1 avail⟩
    · exact hbalanced
  | rx gethdr => exact hbalanced.receive gethdr
  | free bi =>
    rw [NetmapRx.step]
    split
    · next hfree => exact ⟨_, _, _, _, _, h.free hfree.1 hfree.2⟩
    · exact hbalanced
  | freeStep =>
    rw [NetmapRx.step]
    split
    · exact hbalanced
    · next bi stage hfree =>
      cases stage with
      | locked => exact ⟨_, _, _, _, _, h.freeWrite hfree⟩
      | written => exact ⟨_, _, _, _, _, h.freeAdd hfree⟩
      | added => exact ⟨_, _, _, _, _, h.freeTail hfree⟩

def unswept (s : NetmapRx) : List ℕ :=
  stretch s.rxBufinfo.freeList s.rxBufinfo.max s.rxBufinfo.trail s.rxBufinfo.returnable

def rsvdLength (numSlots : ℕ) (s : NetmapRx) : ℕ := distance numSlots s.hwRxRsvdBegin s.ring.cur

def outside (numSlots : ℕ) (s : NetmapRx) : List (BitVec 32) :=
  stretch s.ring.bufIdx numSlots s.ring.cur (numSlots - s.rsvdLength numSlots)

/-- Whatever the kernel hands over, whether mbufs can be had and whenever buffers are freed: no
bufinfo is out twice, and between the passes the buffers outside the reserved range and those away
are the original ones, with the counts the driver keeps and publishes. -/
theorem ifNetmapReceive_conserves (api : NetmapApi) {numSlots : ℕ} (hslots : 0 < numSlots)
    (bufIdx : ℕ → BitVec 32) (hdistinct : ((List.range numSlots).map bufIdx).Nodup)
    (events : List RxEvent) :
    let s := run (NetmapRx.step api numSlots) (start numSlots bufIdx) events
    s.out.Nodup ∧ (s.pc = .poll →
      (s.outside numSlots ++ s.nmIndices (s.unswept ++ s.out)).Perm
        ((List.range numSlots).map bufIdx) ∧
      (s.outside numSlots ++ s.nmIndices (s.unswept ++ s.out)).Nodup ∧
      s.ring.ifNetmapRxreserved api numSlots = s.rsvdLength numSlots ∧
      s.rsvdLength numSlots = (s.unswept ++ s.out).length ∧
      s.rxBufinfo.avail + s.rxBufinfo.returnable + s.out.length = s.rxBufinfo.max) := by
  intro s
  have hstart : (start numSlots bufIdx).Accounts api numSlots _ 0 0 0 0 0 :=
    accounts_start hslots bufIdx
  rw [stretch_whole] at hstart
  obtain ⟨B, C, T, L, H, h⟩ : s.Balanced api numSlots ((List.range numSlots).map bufIdx) :=
    run_preserves (fun _ e h => h.step e) ⟨_, _, _, _, _, hstart⟩ events
  refine ⟨(List.nodup_append.mp (List.nodup_append.mp h.ledger.nodup).2.1).2.1, fun hpc => ?_⟩
  obtain ⟨hspan, hsmall, ⟨hTL, -, hturn⟩, hreturnable, havail, htaken⟩ := h.figures
  have hcount := h.ledger.add_length
  have hcur := h.cur
  have hbegin := h.begin
  simp only [lag, taken, rsvdEnd, rsvdBegin, hpc] at hreturnable havail htaken hcur hbegin
  have hlength : s.rsvdLength numSlots = C - B := by
    rw [rsvdLength, hbegin, hcur]
    exact distance_mod h.ring.le (by omega)
  have hunswept : s.unswept = stretch s.rxBufinfo.freeList s.rxBufinfo.max T (L - T) := by
    rw [unswept, h.trail, stretch_mod, show s.rxBufinfo.returnable = L - T by omega]
  have houtside : s.outside numSlots = stretch s.ring.bufIdx numSlots C (B + numSlots - C) := by
    rw [outside, hlength, hcur, stretch_mod, show numSlots - (C - B) = B + numSlots - C by
      have := h.ring.le; omega]
  have hperm := h.ring.perm
  rw [← hunswept, ← houtside] at hperm
  refine ⟨hperm, hperm.nodup_iff.mpr hdistinct, ?_, ?_, ?_⟩
  · rw [h.published hpc, hlength]
    omega
  · rw [hlength, hunswept, List.length_append, stretch_length]
    omega
  · omega

/-- Three slots are handed over; there is no mbuf for the second, and the first is freed while the
third is received. -/
def onePass : List RxEvent :=
  [.handOver 3, .rx true, .rx true, .rx true, .rx false, .rx true, .free 0, .freeStep, .freeStep,
    .rx true, .rx true, .rx true, .freeStep, .rx true, .rx true]

theorem ifNetmapReceive_conserves_onePass :
    let s := run (NetmapRx.step .from10 4) (start 4 (BitVec.ofNat 32)) onePass
    s.pc = .poll ∧ s.held = [1] ∧
      (s.outside 4 ++ s.nmIndices (s.unswept ++ s.out)).Perm
        ((List.range 4).map (BitVec.ofNat 32)) :=
  have hpoll : (run (NetmapRx.step .from10 4) (start 4 (BitVec.ofNat 32)) onePass).pc = .poll := by
    decide
  ⟨hpoll, by decide,
    ((ifNetmapReceive_conserves .from10 (by decide) _ (by decide) onePass).2 hpoll).1⟩

end NetmapRx

end Libuinet
