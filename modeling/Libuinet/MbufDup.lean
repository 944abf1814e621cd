import Libuinet.Mbuf
import Mathlib.Algebra.Order.BigOperators.Group.List

namespace Libuinet

/-- An mbuf in memory: its address, and that of its external storage if it has some. -/
structure StoredMbuf extends Mbuf where
  addr : ℕ
  extBuf : ℕ

/-- Where the data of an mbuf is: in the mbuf, or elsewhere. -/
inductive Storage where
  | dat (addr : ℕ)
  | ext (extBuf : ℕ)
  deriving DecidableEq

def StoredMbuf.storage (m : StoredMbuf) : Storage :=
  if m.mExt.isSome then .ext m.extBuf else .dat m.addr

def mbufs (ms : List StoredMbuf) : List Mbuf := ms.map StoredMbuf.toMbuf

/-- The results of `m_get` and `m_getcl` during a call, all of them successful: memory that is not
in use. -/
structure MbufAlloc (ms : List StoredMbuf) where
  addr : ℕ → ℕ
  cluster : ℕ → ℕ
  addr_injective : addr.Injective
  cluster_injective : cluster.Injective
  addr_fresh : ∀ k, ∀ m ∈ ms, addr k ≠ m.addr
  cluster_fresh : ∀ k, ∀ m ∈ ms, m.mExt.isSome → cluster k ≠ m.extBuf

def minclsize : ℕ := mhlen + 1

def mDupPkthdr (n m : Mbuf) : Mbuf :=
  { n with
    mEor := m.mEor
    mRdonly := m.mRdonly
    mPkthdrLen := m.mPkthdrLen
    mOff := if n.mExt.isNone then mlen - mhlen else n.mOff }

/-- The inner loop of `m_dup`: `n` is filled up to `nsize` bytes from `m` on, at `moff` in its first
mbuf.  When that is not used up, the room is. -/
def mDupFill (nsize : ℕ) : List Mbuf → ℕ → Mbuf → List Mbuf × ℕ × Mbuf
  | [], moff, n => ([], moff, n)
  | m :: ms, moff, n =>
    if n.mLen < nsize then
      let chunk := min (nsize - n.mLen) (m.mLen - moff)
      let n := n.pullFrom { m with mtod := fun i => m.mtod (moff + i) } chunk
      if moff + chunk = m.mLen then mDupFill nsize ms 0 n else (m :: ms, moff + chunk, n)
    else (m :: ms, moff, n)

structure MDup where
  m : List Mbuf
  moff : ℕ
  remain : ℤ
  top : List StoredMbuf

namespace MDup

variable {ms : List StoredMbuf}

def continues (s : MDup) : Bool := 0 < s.remain ∨ s.top.isEmpty

def turn (alloc : MbufAlloc ms) (s : MDup) : Option MDup :=
  match s.m with
  | [] => none
  | m :: _ =>
    let cluster := !m.mHole && decide (minclsize ≤ s.remain)
    let nsize := if cluster then mclbytes else if s.top.isEmpty then mhlen else mlen
    let n : Mbuf :=
      { mLen := 0
        mType := m.mType
        mExt := if cluster then some ⟨mclbytes, 1⟩ else none
        mtod := fun _ => 0 }
    let n := if s.top.isEmpty then mDupPkthdr n m else n
    let k := s.top.length
    if m.mHole then
      let n := { n with mHole := true, mLen := m.mLen }
      some { s with top := s.top ++ [⟨n, alloc.addr k, alloc.cluster k⟩] }
    else
      let (rest, moff, n) := mDupFill nsize s.m s.moff n
      some ⟨rest, moff, s.remain - n.mLen, s.top ++ [⟨n, alloc.addr k, alloc.cluster k⟩]⟩

def loop (alloc : MbufAlloc ms) : ℕ → MDup → Option MDup
  | 0, s => if s.continues then none else some s
  | fuel + 1, s => if s.continues then (s.turn alloc).bind (loop alloc fuel) else some s

end MDup

def mDup {ms : List StoredMbuf} (alloc : MbufAlloc ms) (fuel : ℕ) : Option (List StoredMbuf) :=
  match ms with
  | [] => some []
  | m :: ms' =>
    (MDup.loop alloc fuel ⟨mbufs (m :: ms'), 0, m.mPkthdrLen.getD 0, []⟩).map MDup.top

def pkthdrLen (ms : List StoredMbuf) : Option ℤ := (ms.head?.map fun m => m.mPkthdrLen).join

/-- A packet, with its length in the header and no holes of length 0. -/
structure Packet where
  chain : List StoredMbuf
  len : pkthdrLen chain = some (chainLen (mbufs chain) : ℤ)
  holes : ∀ m ∈ chain, m.mHole → 0 < m.mLen

/-- The call returns a chain with the same view and packet length, in storage of its own. -/
def Packet.Dups (pkt : Packet) : Prop :=
  ∀ alloc : MbufAlloc pkt.chain, ∃ fuel out, mDup alloc fuel = some out ∧
    chainView (mbufs out) = chainView (mbufs pkt.chain) ∧ pkthdrLen out = pkthdrLen pkt.chain ∧
    ∀ n ∈ out, ∀ m ∈ pkt.chain, n.storage ≠ m.storage ∧ n.addr ≠ m.addr

def AtMbuf (m : List Mbuf) (moff : ℕ) : Prop :=
  (m = [] → moff = 0) ∧ ∀ m₀ ∈ m.head?, moff = 0 ∨ moff < m₀.mLen

def bytesFrom (m : List Mbuf) (moff : ℕ) : ℕ := chainLen m - moff

theorem atMbuf_zero (m : List Mbuf) : AtMbuf m 0 := ⟨fun _ => rfl, fun _ _ => .inl rfl⟩

theorem AtMbuf.le {m : Mbuf} {ms : List Mbuf} {moff : ℕ} (h : AtMbuf (m :: ms) moff) :
    moff ≤ m.mLen := by
  rcases h.2 m rfl with h | h <;> omega

theorem Mbuf.view_pullFrom_at {n m : Mbuf} {moff chunk : ℕ} (hn : n.mHole = false)
    (hm : m.mHole = false) (hle : moff + chunk ≤ m.mLen) :
    (n.pullFrom { m with mtod := fun i => m.mtod (moff + i) } chunk).view =
      n.view ++ (m.view.drop moff).take chunk := by
  refine (n.view_pullFrom { m with mtod := fun i => m.mtod (moff + i) } chunk hn hm
    (show chunk ≤ m.mLen by omega)).trans ?_
  congr 1
  apply List.ext_getElem
  · simp
    omega
  · intro i h₁ h₂
    simp [view, elem, hm]

/-- What the inner loop does to the place and to the new mbuf. -/
structure FillsUp (nsize : ℕ) (m : List Mbuf) (moff : ℕ) (n : Mbuf) (m' : List Mbuf) (moff' : ℕ)
    (n' : Mbuf) : Prop where
  place : AtMbuf m' moff'
  suffix : m' <:+ m
  size : n'.mLen = min nsize (n.mLen + bytesFrom m moff)
  left : n'.mLen + bytesFrom m' moff' = n.mLen + bytesFrom m moff
  same : n'.mHole = n.mHole ∧ n'.mPkthdrLen = n.mPkthdrLen
  view : n.mHole = false → (∀ m₀ ∈ m, m₀.mHole = false) →
    n'.view ++ (chainView m').drop moff' = n.view ++ (chainView m).drop moff

theorem fillsUp (nsize : ℕ) (m : List Mbuf) (moff : ℕ) (n : Mbuf) (hat : AtMbuf m moff)
    (hn : n.mLen ≤ nsize) :
    FillsUp nsize m moff n (mDupFill nsize m moff n).1 (mDupFill nsize m moff n).2.1
      (mDupFill nsize m moff n).2.2 := by
  induction m generalizing moff n with
  | nil =>
    obtain rfl : moff = 0 := hat.1 rfl
    exact ⟨hat, List.suffix_rfl, by simp [mDupFill, bytesFrom, hn], rfl, ⟨rfl, rfl⟩,
      fun _ _ => rfl⟩
  | cons m ms ih =>
    have hle := hat.le
    rw [mDupFill]
    split_ifs with hroom
    · set n₁ := n.pullFrom { m with mtod := fun i => m.mtod (moff + i) }
        (min (nsize - n.mLen) (m.mLen - moff))
      have hlen : n₁.mLen = n.mLen + min (nsize - n.mLen) (m.mLen - moff) := rfl
      dsimp only
      split_ifs with hend
      · have hn₁ : n₁.mLen ≤ nsize := by omega
        have h := ih 0 n₁ (atMbuf_zero ms) hn₁
        have hsize := h.size
        have hleft := h.left
        simp only [bytesFrom, Nat.sub_zero] at hsize hleft
        refine ⟨h.place, h.suffix.trans (List.suffix_cons m ms), ?_, ?_, h.same, ?_⟩
        · rw [hsize, bytesFrom, chainLen_cons]
          omega
        · rw [bytesFrom, hleft, bytesFrom, chainLen_cons]
          omega
        · intro hplain hms
          have hm : m.mHole = false := hms m List.mem_cons_self
          rw [h.view hplain fun x hx => hms x (List.mem_cons_of_mem m hx),
            Mbuf.view_pullFrom_at hplain hm hend.le, List.drop_zero, chainView_cons,
            List.drop_append_of_le_length (by simpa using hle), List.append_assoc]
          rw [List.take_of_length_le (by simp; omega)]
      · -- the room is used up
        have hfull : min (nsize - n.mLen) (m.mLen - moff) = nsize - n.mLen := by omega
        dsimp only
        refine ⟨⟨by simp, ?_⟩, List.suffix_rfl, ?_, ?_, ⟨rfl, rfl⟩, ?_⟩
        · rintro m₀ ⟨⟩
          exact .inr (by omega)
        · rw [hlen, bytesFrom, chainLen_cons]
          omega
        · rw [hlen, bytesFrom, bytesFrom, chainLen_cons]
          omega
        · intro hplain hms
          have hm : m.mHole = false := hms m List.mem_cons_self
          rw [Mbuf.view_pullFrom_at hplain hm (by omega), ← List.drop_drop, chainView_cons,
            List.drop_append_of_le_length (by simpa using hle), List.append_assoc]
          congr 1
          rw [List.drop_append_of_le_length (by simp), ← List.append_assoc,
            List.take_append_drop]
    · refine ⟨hat, List.suffix_rfl, ?_, rfl, ⟨rfl, rfl⟩, fun _ _ => rfl⟩
      dsimp only
      omega

namespace MDup

variable {ms : List StoredMbuf} (alloc : MbufAlloc ms) {s : MDup} {m : Mbuf} {rest : List Mbuf}

/-- At a hole the place stays where it is. -/
theorem turn_hole (hm : s.m = m :: rest) (hole : m.mHole = true) :
    ∃ n, s.turn alloc = some { s with top := s.top ++ [n] } := by
  unfold turn
  rw [hm]
  simp only [hole, if_true]
  exact ⟨_, rfl⟩

theorem turn_data (hm : s.m = m :: rest) (hole : m.mHole = false) :
    ∃ nsize n, 0 < nsize ∧ n.mLen = 0 ∧ n.mHole = false ∧
      (s.top = [] → n.mPkthdrLen = m.mPkthdrLen) ∧
      s.turn alloc = some ⟨(mDupFill nsize s.m s.moff n).1, (mDupFill nsize s.m s.moff n).2.1,
        s.remain - (mDupFill nsize s.m s.moff n).2.2.mLen,
        s.top ++ [⟨(mDupFill nsize s.m s.moff n).2.2, alloc.addr s.top.length,
          alloc.cluster s.top.length⟩]⟩ := by
  unfold turn
  rw [hm]
  simp only [hole, Bool.false_eq_true, if_false]
  refine ⟨_, _, ?_, ?_, ?_, ?_, rfl⟩
  · split_ifs <;> decide
  · split_ifs <;> rfl
  · split_ifs <;> rfl
  · intro htop
    simp [htop, mDupPkthdr]

/-- The place is in the chain, and `remain` counts the bytes from there on. -/
structure Placed (s : MDup) : Prop where
  place : AtMbuf s.m s.moff
  remain : s.remain = bytesFrom s.m s.moff
  holes : ∀ m ∈ s.m, m.mHole = true → 0 < m.mLen

theorem Placed.remain_pos (h : s.Placed) (hm : s.m = m :: rest) (hole : m.mHole = true) :
    0 < s.remain := by
  have hpos := h.holes m (by simp [hm]) hole
  have hat := h.place.2 m (by simp [hm])
  rw [h.remain, hm, bytesFrom, chainLen_cons]
  omega

/-- What is taken from the chain is in the new mbuf. -/
theorem Placed.turn_data (h : s.Placed) (hm : s.m = m :: rest) (hole : m.mHole = false) :
    ∃ (s' : MDup) (nsize : ℕ) (n n' : Mbuf), s.turn alloc = some s' ∧ s'.Placed ∧
      s'.top = s.top ++ [⟨n', alloc.addr s.top.length, alloc.cluster s.top.length⟩] ∧
      s'.remain = s.remain - n'.mLen ∧ 0 < nsize ∧ n.mLen = 0 ∧ n.mHole = false ∧
      (s.top = [] → n.mPkthdrLen = m.mPkthdrLen) ∧
      FillsUp nsize s.m s.moff n s'.m s'.moff n' := by
  obtain ⟨nsize, n, hpos, hlen, hplain, hhdr, hturn⟩ := MDup.turn_data alloc hm hole
  have hfill := fillsUp nsize s.m s.moff n h.place (by omega)
  refine ⟨_, nsize, n, _, hturn, ⟨hfill.place, ?_, ?_⟩, rfl, rfl, hpos, hlen, hplain, hhdr, hfill⟩
  · have hleft := hfill.left
    rw [h.remain]
    dsimp only
    omega
  · exact fun x hx => h.holes x (hfill.suffix.subset hx)

/-- From a hole on, the loop does not end. -/
theorem loop_hole (fuel : ℕ) (hm : s.m = m :: rest) (hole : m.mHole = true) (hpos : 0 < s.remain) :
    loop alloc fuel s = none := by
  have hgo : s.continues = true := by simp [continues, hpos]
  induction fuel generalizing s with
  | zero => rw [loop, if_pos hgo]
  | succ fuel ih =>
    obtain ⟨n, hturn⟩ := turn_hole alloc hm hole
    rw [loop, if_pos hgo, hturn, Option.bind_some]
    exact ih hm hpos (by simp [continues, hpos])

/-- All new mbufs of a call that returns hold data. -/
theorem Placed.top_plain (fuel : ℕ) {s' : MDup} (h : s.Placed) (hs : loop alloc fuel s = some s')
    (htop : ∀ n ∈ s.top, n.mHole = false) : ∀ n ∈ s'.top, n.mHole = false := by
  induction fuel generalizing s with
  | zero =>
    rw [loop] at hs
    split_ifs at hs
    cases hs
    exact htop
  | succ fuel ih =>
    rw [loop] at hs
    split_ifs at hs with hgo
    · cases hm : s.m with
      | nil => simp [turn, hm] at hs
      | cons m rest =>
        cases hole : m.mHole with
        | true =>
          have hnone := loop_hole alloc (fuel + 1) hm hole (h.remain_pos hm hole)
          rw [loop, if_pos hgo, hs] at hnone
          cases hnone
        | false =>
          obtain ⟨s₁, nsize, n, n', hturn, hplaced, htop₁, -, -, -, hplain, -, hfill⟩ :=
            h.turn_data alloc hm hole
          rw [hturn, Option.bind_some] at hs
          refine ih hplaced hs fun x hx => ?_
          rw [htop₁] at hx
          rcases List.mem_append.mp hx with hx | hx
          · exact htop x hx
          · obtain rfl := List.mem_singleton.mp hx
            exact hfill.same.1.trans hplain
    · cases hs
      exact htop

/-- What is in the new mbufs and what is still to be copied make up the packet. -/
structure Copies (s : MDup) : Prop extends s.Placed where
  view : chainView (mbufs s.top) ++ (chainView s.m).drop s.moff = chainView (mbufs ms)
  plain : ∀ m ∈ s.m, m.mHole = false
  fresh : ∀ n ∈ s.top, ∃ k, n.addr = alloc.addr k ∧ n.extBuf = alloc.cluster k
  start : s.top = [] → (s.m.head?.map fun m => m.mPkthdrLen).join = pkthdrLen ms
  header : s.top ≠ [] → pkthdrLen s.top = pkthdrLen ms

theorem Copies.turn {alloc : MbufAlloc ms} (h : Copies alloc s) (hm : s.m = m :: rest) :
    ∃ s', s.turn alloc = some s' ∧ Copies alloc s' ∧ s'.top ≠ [] ∧
      s'.remain ≤ s.remain ∧ (0 < s.remain → s'.remain < s.remain) := by
  have hole : m.mHole = false := h.plain m (by simp [hm])
  obtain ⟨s', nsize, n, n', hturn, hplaced, htop, hremain, hpos, hlen, hplain, hhdr, hfill⟩ :=
    h.turn_data alloc hm hole
  refine ⟨s', hturn, { hplaced with
    view := ?_, plain := ?_, fresh := ?_, start := ?_, header := ?_ }, by simp [htop],
    by omega, ?_⟩
  · have hview := hfill.view hplain h.plain
    have hnil : n.view = [] := List.eq_nil_of_length_eq_zero (by simp [hlen])
    rw [hnil, List.nil_append] at hview
    rw [← h.view, ← hview, htop]
    simp [mbufs]
  · exact fun x hx => h.plain x (hfill.suffix.subset hx)
  · intro x hx
    rw [htop] at hx
    rcases List.mem_append.mp hx with hx | hx
    · exact h.fresh x hx
    · obtain rfl := List.mem_singleton.mp hx
      exact ⟨_, rfl, rfl⟩
  · intro hempty
    simp [htop] at hempty
  · intro _
    by_cases hempty : s.top = []
    · have hstart := h.start hempty
      rw [hm] at hstart
      rw [← hstart, htop, hempty]
      simp [pkthdrLen, hfill.same.2, hhdr hempty]
    · rw [← h.header hempty, htop, pkthdrLen, pkthdrLen,
        List.head?_append_of_ne_nil _ hempty]
  · intro hgo
    have hsize := hfill.size
    have hrem := h.remain
    rw [hremain]
    omega

theorem continues_iff : s.continues = true ↔ 0 < s.remain ∨ s.top = [] := by
  simp [continues]

theorem Copies.ne_nil {alloc : MbufAlloc ms} (h : Copies alloc s) (hlen : (pkthdrLen ms).isSome)
    (hgo : s.continues = true) : s.m ≠ [] := by
  intro hm
  rcases continues_iff.mp hgo with hpos | htop
  · rw [h.remain, hm, bytesFrom, chainLen_nil] at hpos
    omega
  · rw [← h.start htop, hm] at hlen
    exact Bool.false_ne_true hlen

/-- With a turn for every byte, and one for the first mbuf, the loop ends. -/
theorem Copies.loop {alloc : MbufAlloc ms} (hlen : (pkthdrLen ms).isSome) (fuel : ℕ)
    {s : MDup} (h : Copies alloc s) (hfuel : s.remain < fuel ∨ s.remain = fuel ∧ s.top ≠ []) :
    ∃ s', loop alloc fuel s = some s' ∧ Copies alloc s' ∧ s'.top ≠ [] ∧ s'.remain = 0 := by
  have hnat := h.remain
  induction fuel generalizing s with
  | zero =>
    obtain ⟨hzero, htop⟩ : s.remain = 0 ∧ s.top ≠ [] := hfuel.resolve_left (by omega)
    have hstop : ¬ s.continues = true := by
      rw [continues_iff]
      rintro (hpos | hempty)
      · omega
      · exact htop hempty
    exact ⟨s, by rw [MDup.loop, if_neg hstop], h, htop, hzero⟩
  | succ fuel ih =>
    by_cases hgo : s.continues = true
    · obtain ⟨m, rest, hm⟩ := List.exists_cons_of_ne_nil (h.ne_nil hlen hgo)
      obtain ⟨s₁, hturn, hcopies, htop, hle, hless⟩ := h.turn hm
      have hfuel₁ : s₁.remain < fuel ∨ s₁.remain = fuel ∧ s₁.top ≠ [] := by
        have hle' : s₁.remain ≤ fuel := by
          rcases continues_iff.mp hgo with hpos | hempty
          · have := hless hpos
            omega
          · rcases hfuel with hfuel | ⟨-, hne⟩
            · omega
            · exact absurd hempty hne
        rcases hle'.lt_or_eq with hlt | heq
        · exact .inl hlt
        · exact .inr ⟨heq, htop⟩
      rw [MDup.loop, if_pos hgo, hturn, Option.bind_some]
      exact ih hcopies hfuel₁ hcopies.remain
    · rw [MDup.loop, if_neg hgo]
      rw [continues_iff, not_or] at hgo
      exact ⟨s, rfl, h, hgo.2, by omega⟩

end MDup

section Call

variable {ms : List StoredMbuf}

def MbufAlloc.above (ms : List StoredMbuf) : MbufAlloc ms where
  addr k := (ms.map fun m => m.addr).sum + 1 + k
  cluster k := (ms.map fun m => m.extBuf).sum + 1 + k
  addr_injective := fun a b h => by simpa using h
  cluster_injective := fun a b h => by simpa using h
  addr_fresh := by
    intro k m hm
    have hle := List.le_sum_of_mem (List.mem_map_of_mem hm (f := fun m => m.addr))
    omega
  cluster_fresh := by
    intro k m hm _
    have hle := List.le_sum_of_mem (List.mem_map_of_mem hm (f := fun m => m.extBuf))
    omega

/-- New mbufs are elsewhere. -/
theorem MbufAlloc.storage_ne (alloc : MbufAlloc ms) {n m : StoredMbuf} {k : ℕ} (hm : m ∈ ms)
    (haddr : n.addr = alloc.addr k) (hext : n.extBuf = alloc.cluster k) :
    n.storage ≠ m.storage ∧ n.addr ≠ m.addr := by
  have hne := alloc.addr_fresh k m hm
  rw [← haddr] at hne
  refine ⟨?_, hne⟩
  unfold StoredMbuf.storage
  split_ifs with hn hm'
  · intro h
    have := alloc.cluster_fresh k m hm hm'
    rw [← hext] at this
    exact this (Storage.ext.inj h)
  · simp
  · simp
  · exact fun h => hne (Storage.dat.inj h)

end Call

namespace Packet

variable (pkt : Packet)

def start : MDup := ⟨mbufs pkt.chain, 0, chainLen (mbufs pkt.chain), []⟩

theorem mDup_eq (alloc : MbufAlloc pkt.chain) (fuel : ℕ) :
    mDup alloc fuel = (MDup.loop alloc fuel pkt.start).map MDup.top := by
  obtain ⟨chain, hlen, -⟩ := pkt
  cases chain with
  | nil => cases hlen
  | cons m ms =>
    have hm : m.mPkthdrLen = some (chainLen (mbufs (m :: ms)) : ℤ) := hlen
    simp only [mDup, hm, Option.getD_some]
    rfl

theorem placed_start : pkt.start.Placed := by
  refine ⟨atMbuf_zero _, by simp [start, bytesFrom], ?_⟩
  intro m hm hole
  obtain ⟨m', hm', rfl⟩ := List.mem_map.mp hm
  exact pkt.holes m' hm' hole

variable {pkt}

/-- A call that returns makes bytes of everything. -/
theorem Dups.plain (h : pkt.Dups) : ∀ m ∈ pkt.chain, m.mHole = false := by
  intro m hm
  by_contra hole
  rw [Bool.not_eq_false] at hole
  obtain ⟨fuel, out, hout, hview, -⟩ := h (MbufAlloc.above pkt.chain)
  rw [mDup_eq] at hout
  obtain ⟨s', hloop, rfl⟩ := Option.map_eq_some_iff.mp hout
  have htop := pkt.placed_start.top_plain _ fuel hloop (by simp [start])
  have hplain : ∀ m ∈ mbufs s'.top, m.mHole = false := by
    intro n hn
    obtain ⟨n', hn', rfl⟩ := List.mem_map.mp hn
    exact htop n' hn'
  have hmissing : Elem.missing ∈ chainView (mbufs pkt.chain) := by
    refine List.mem_flatMap.mpr ⟨m.toMbuf, List.mem_map_of_mem hm, ?_⟩
    refine List.mem_map.mpr ⟨0, List.mem_range.mpr (pkt.holes m hm hole), ?_⟩
    rw [Mbuf.elem, if_pos hole]
  rw [← hview] at hmissing
  obtain ⟨b, hb⟩ := chainView_plain _ hplain _ hmissing
  cases hb

theorem dups_of_plain (h : ∀ m ∈ pkt.chain, m.mHole = false) : pkt.Dups := by
  intro alloc
  have hlen : (pkthdrLen pkt.chain).isSome := by simp [pkt.len]
  have hstart : MDup.Copies alloc pkt.start :=
    { pkt.placed_start with
      view := rfl
      plain := by
        intro m hm
        obtain ⟨m', hm', rfl⟩ := List.mem_map.mp hm
        exact h m' hm'
      fresh := by simp [start]
      start := by
        intro _
        simp [start, mbufs, pkthdrLen, Function.comp_def]
      header := fun hne => absurd rfl hne }
  obtain ⟨s', hloop, hcopies, hne, hzero⟩ :=
    hstart.loop hlen (chainLen (mbufs pkt.chain) + 1) (.inl (by simp [start]))
  refine ⟨_, s'.top, by rw [mDup_eq, hloop, Option.map_some], ?_, hcopies.header hne, ?_⟩
  · have hdone : (chainView s'.m).drop s'.moff = [] := by
      have hremain := hcopies.remain
      apply List.drop_eq_nil_of_le
      rw [chainView_length]
      unfold bytesFrom at hremain
      omega
    rw [← hcopies.view, hdone, List.append_nil]
  · intro n hn m hm
    obtain ⟨k, haddr, hext⟩ := hcopies.fresh n hn
    exact alloc.storage_ne hm haddr hext

end Packet

/-- `m_dup` duplicates the packets without holes, and no others. -/
theorem m_dup_iff (pkt : Packet) : pkt.Dups ↔ ∀ m ∈ pkt.chain, m.mHole = false :=
  ⟨Packet.Dups.plain, Packet.dups_of_plain⟩

def holePacket : Packet where
  chain := [⟨{ mGethole 5 with mPkthdrLen := some 5 }, 0, 0⟩]
  len := rfl
  holes := by simp [mGethole]

def byteHolePacket : Packet where
  chain := [⟨{ Mbuf.ofBytes [7] with mPkthdrLen := some 3 }, 0, 0⟩, ⟨mGethole 2, 1, 0⟩]
  len := rfl
  holes := by simp [mGethole, Mbuf.ofBytes]

/-- The call does not return for the one, and makes bytes of the hole in the other. -/
theorem m_dup_hole :
    (∀ (alloc : MbufAlloc holePacket.chain) (fuel : ℕ), mDup alloc fuel = none) ∧
    ¬ holePacket.Dups ∧
    (∀ alloc : MbufAlloc byteHolePacket.chain, ∃ out, mDup alloc 1 = some out ∧
      chainView (mbufs out) = [.data 7, .data 0, .data 0]) ∧
    ¬ byteHolePacket.Dups := by
  refine ⟨fun alloc fuel => ?_, fun h => ?_, fun alloc => ⟨_, rfl, ?_⟩, fun h => ?_⟩
  · rw [Packet.mDup_eq, MDup.loop_hole alloc fuel rfl rfl (by decide), Option.map_none]
  · exact absurd (h.plain _ List.mem_cons_self) (by decide)
  · rfl
  · exact absurd (h.plain ⟨mGethole 2, 1, 0⟩ (by simp [byteHolePacket])) (by decide)

end Libuinet
