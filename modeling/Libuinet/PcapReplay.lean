import Libuinet.Execution
import Mathlib.Tactic.Ring

namespace Libuinet

open Execution

structure PcapPkthdr where
  tvSec : BitVec 32
  tvUsec : BitVec 32

def PcapPkthdr.nanos (hdr : PcapPkthdr) : ℕ :=
  hdr.tvSec.toNat * 1000000000 + hdr.tvUsec.toNat * 1000

def PcapPkthdr.timestamp (hdr : PcapPkthdr) : BitVec 64 :=
  hdr.tvSec.setWidth 64 * 1000000000 + hdr.tvUsec.setWidth 64 * 1000

/-- What `struct if_pcap_host_context` keeps from one packet to the next. -/
structure IfPcapHostContext where
  isfile : Bool
  lastPacketDelivery : BitVec 64
  lastPacketTimestamp : BitVec 64

def ifPcapPacketHandler (ctx : IfPcapHostContext) (hdr : PcapPkthdr) (now : BitVec 64) :
    IfPcapHostContext × Option (BitVec 64) :=
  if ctx.isfile then
    let timestamp := hdr.timestamp
    let timeSinceLastDelivery := now - ctx.lastPacketDelivery
    let timeSinceLastCapture := timestamp - ctx.lastPacketTimestamp
    ({ ctx with lastPacketDelivery := now, lastPacketTimestamp := timestamp },
      if ctx.lastPacketDelivery ≠ 0 ∧ timeSinceLastDelivery < timeSinceLastCapture then
        some (timeSinceLastCapture - timeSinceLastDelivery)
      else none)
  else (ctx, none)

/-- The replay at a moment: `time` is what the clock shows in nanoseconds, and `last` when
the last packet was handed on and its time stamp. -/
structure Replay where
  ctx : IfPcapHostContext
  time : ℕ
  last : Option (ℕ × ℕ)

namespace Replay

def asks (s : Replay) (hdr : PcapPkthdr) : Option (BitVec 64) :=
  (ifPcapPacketHandler s.ctx hdr (BitVec.ofNat 64 s.time)).2

/-- A packet is handled.  A sleep takes `extra` nanoseconds longer than asked for, and
nothing else takes time. -/
def step (s : Replay) (packet : PcapPkthdr × ℕ) : Replay :=
  let time :=
    match s.asks packet.1 with
    | some nsecs => s.time + nsecs.toNat + packet.2
    | none => s.time
  { ctx := (ifPcapPacketHandler s.ctx packet.1 (BitVec.ofNat 64 s.time)).1
    time := time
    last := some (time, packet.1.nanos) }

def start (time : ℕ) : Replay where
  ctx := ⟨true, 0, 0⟩
  time := time
  last := none

def ClockValid (s : Replay) : Prop := 0 < s.time ∧ s.time < 2 ^ 64

instance (s : Replay) : Decidable s.ClockValid := inferInstanceAs (Decidable (_ ∧ _))

/-- The next packet is handed on no earlier than the spacing asks for, and one that was
captured before the last does not sleep. -/
def Spaced (s : Replay) (packet : PcapPkthdr × ℕ) : Prop :=
  ∀ d t, s.last = some (d, t) →
    d + (packet.1.nanos - t) ≤ (s.step packet).time ∧
      (packet.1.nanos < t → s.asks packet.1 = none)

end Replay

/-- The time stamps after one of `t` do not go back, and no two gaps follow each other;
`gap` says whether there was one before `t`. -/
def PacedAfter (t : ℕ) (gap : Bool) : List ℕ → Prop
  | [] => True
  | u :: us => t ≤ u ∧ (gap = true → u = t) ∧ PacedAfter u (decide (t < u)) us

def Paced : List ℕ → Prop
  | [] => True
  | t :: ts => PacedAfter t false ts

theorem PacedAfter.of_append {t : ℕ} {gap : Bool} {us vs : List ℕ}
    (h : PacedAfter t gap (us ++ vs)) : PacedAfter t gap us := by
  induction us generalizing t gap with
  | nil => trivial
  | cons u us ih => exact ⟨h.1, h.2.1, ih h.2.2⟩

theorem PcapPkthdr.nanos_lt (hdr : PcapPkthdr) : hdr.nanos < 2 ^ 63 := by
  have hsec := hdr.tvSec.isLt
  have husec := hdr.tvUsec.isLt
  unfold nanos
  omega

theorem PcapPkthdr.timestamp_eq (hdr : PcapPkthdr) :
    hdr.timestamp = BitVec.ofNat 64 hdr.nanos := by
  rw [timestamp, nanos, BitVec.ofNat_add, BitVec.ofNat_mul, BitVec.ofNat_mul, BitVec.ofNat_toNat,
    BitVec.ofNat_toNat]
  rfl

namespace Replay

variable {s : Replay} {hdr : PcapPkthdr} {d n t extra : ℕ}

/-- A packet of time stamp `t` came at `n` and was handed on at `d`. -/
structure Handed (s : Replay) (n d t : ℕ) : Prop where
  isfile : s.ctx.isfile = true
  delivery : s.ctx.lastPacketDelivery = BitVec.ofNat 64 n
  timestamp : s.ctx.lastPacketTimestamp = BitVec.ofNat 64 t
  time : s.time = d
  last : s.last = some (d, t)
  pos : 0 < n
  le : n ≤ d
  stamp : t < 2 ^ 63

theorem ofNat_sub_toNat {a b : ℕ} (hle : b ≤ a) (ha : a < 2 ^ 64) :
    (BitVec.ofNat 64 a - BitVec.ofNat 64 b).toNat = a - b := by
  rw [BitVec.toNat_sub, BitVec.toNat_ofNat, BitVec.toNat_ofNat]
  omega

theorem ofNat_sub_toNat_of_lt {a b : ℕ} (hlt : a < b) (hb : b < 2 ^ 64) :
    (BitVec.ofNat 64 a - BitVec.ofNat 64 b).toNat = 2 ^ 64 - (b - a) := by
  rw [BitVec.toNat_sub, BitVec.toNat_ofNat, BitVec.toNat_ofNat]
  omega

section

variable (h : s.Handed n d t) (hclock : s.ClockValid)
include h hclock

theorem Handed.asks_eq {gap : ℕ}
    (hgap : (BitVec.ofNat 64 hdr.nanos - BitVec.ofNat 64 t).toNat = gap) :
    (s.asks hdr).map BitVec.toNat = if d - n < gap then some (gap - (d - n)) else none := by
  obtain ⟨-, hlt⟩ := hclock
  rw [h.time] at hlt
  have hle := h.le
  have hdelivery : (BitVec.ofNat 64 d - BitVec.ofNat 64 n).toNat = d - n :=
    ofNat_sub_toNat hle hlt
  have hnonzero : BitVec.ofNat 64 n ≠ 0 := by
    intro hzero
    have hn := congrArg BitVec.toNat hzero
    have hpos := h.pos
    simp only [BitVec.ofNat_eq_ofNat, BitVec.toNat_ofNat] at hn
    omega
  simp only [asks, ifPcapPacketHandler, h.isfile, if_true, h.delivery, h.timestamp, h.time,
    hdr.timestamp_eq, BitVec.lt_def, hdelivery, hgap]
  by_cases hshort : d - n < gap
  · rw [if_pos ⟨hnonzero, hshort⟩, if_pos hshort, Option.map_some, BitVec.toNat_sub_of_le]
    · rw [hdelivery, hgap]
    · rw [BitVec.le_def, hdelivery, hgap]
      exact hshort.le
  · rw [if_neg (fun hboth => hshort hboth.2), if_neg hshort, Option.map_none]

/-- In order of capture it sleeps for what is left of the gap. -/
theorem Handed.asks_of_le (hle : t ≤ hdr.nanos) :
    (s.asks hdr).map BitVec.toNat =
      if d - n < hdr.nanos - t then some (hdr.nanos - t - (d - n)) else none := by
  have hlt := hdr.nanos_lt
  exact h.asks_eq hclock (ofNat_sub_toNat hle (by omega))

/-- Captured before the last packet, it sleeps for centuries. -/
theorem Handed.asks_of_lt (hlt : hdr.nanos < t) (hshort : d - n < 2 ^ 63) : s.asks hdr ≠ none := by
  have hstamp := h.stamp
  have hask := h.asks_eq hclock (ofNat_sub_toNat_of_lt hlt (by omega))
  rw [if_pos (by omega)] at hask
  intro hnone
  simp [hnone] at hask

end

theorem step_time (s : Replay) (packet : PcapPkthdr × ℕ) :
    (s.step packet).time =
      match (s.asks packet.1).map BitVec.toNat with
      | some nsecs => s.time + nsecs + packet.2
      | none => s.time := by
  unfold step
  cases s.asks packet.1 <;> rfl

theorem Handed.step (h : s.Handed n d t) (hclock : s.ClockValid) (packet : PcapPkthdr × ℕ) :
    (s.step packet).Handed d (s.step packet).time packet.1.nanos := by
  have hle : d ≤ (s.step packet).time := by
    rw [step_time, h.time]
    split
    · exact (Nat.le_add_right d _).trans (Nat.le_add_right _ _)
    · exact le_rfl
  refine ⟨?_, ?_, ?_, rfl, rfl, ?_, hle, packet.1.nanos_lt⟩
  · simp [Replay.step, ifPcapPacketHandler, h.isfile]
  · simp [Replay.step, ifPcapPacketHandler, h.isfile, h.time]
  · simp [Replay.step, ifPcapPacketHandler, h.isfile, packet.1.timestamp_eq]
  · have hpos := hclock.1
    rwa [h.time] at hpos

/-- The first packet is handed on at once. -/
theorem start_step {time : ℕ} (hpos : 0 < time) (packet : PcapPkthdr × ℕ) :
    ((start time).step packet).Handed time time packet.1.nanos := by
  have hask : (start time).asks packet.1 = none := by
    simp [asks, start, ifPcapPacketHandler]
  have htime : ((start time).step packet).time = time := by
    rw [step_time, hask]
    rfl
  refine ⟨?_, ?_, ?_, htime, ?_, hpos, le_rfl, packet.1.nanos_lt⟩
  · simp [step, start, ifPcapPacketHandler]
  · simp [step, start, ifPcapPacketHandler]
  · simp [step, start, ifPcapPacketHandler, packet.1.timestamp_eq]
  · show some (((start time).step packet).time, packet.1.nanos) = _
    rw [htime]

/-- In order of capture, the next packet is handed on a gap after this one came. -/
theorem Handed.time_of_le (h : s.Handed n d t) (hclock : s.ClockValid) (hle : t ≤ hdr.nanos)
    (extra : ℕ) :
    (s.step (hdr, extra)).time =
      if d - n < hdr.nanos - t then n + (hdr.nanos - t) + extra else d := by
  have hn := h.le
  rw [step_time, h.asks_of_le hclock hle, h.time]
  split_ifs with hshort
  · show d + (hdr.nanos - t - (d - n)) + extra = n + (hdr.nanos - t) + extra
    omega
  · rfl

/-- A paced file is replayed well, however much longer the sleeps take. -/
theorem Handed.along_spaced {evs : List (PcapPkthdr × ℕ)} {gap : Bool} (h : s.Handed n d t)
    (hgap : n < d → gap = true) (hpaced : PacedAfter t gap (evs.map fun ev => ev.1.nanos))
    (hclock : Along Replay.step (fun s _ => s.ClockValid) s evs) :
    Along Replay.step Spaced s evs := by
  induction evs generalizing s n d t gap with
  | nil => trivial
  | cons ev evs ih =>
    obtain ⟨hdr, extra⟩ := ev
    obtain ⟨hle, hsame, hrest⟩ := hpaced
    dsimp only at hle hsame hrest
    have htime := h.time_of_le hclock.1 hle extra
    have hn := h.le
    -- the last packet did not sleep if there is a gap now
    have hnow : t < hdr.nanos → n = d := by
      intro hlt
      by_contra hne
      have hstay := hsame (hgap (by omega))
      omega
    constructor
    · intro d' t' hlast
      obtain ⟨rfl, rfl⟩ : d = d' ∧ t = t' := by simpa [h.last] using hlast
      refine ⟨?_, fun hlt => absurd hle (Nat.not_le_of_lt hlt)⟩
      dsimp only
      rw [htime]
      split_ifs <;> omega
    · apply ih (h.step hclock.1 (hdr, extra)) _ hrest hclock.2
      rw [htime, decide_eq_true_eq]
      split_ifs <;> omega

/-- With sleeps that take no longer than asked for, only a paced file is replayed well. -/
theorem Handed.paced {hdrs : List PcapPkthdr} {gap : Bool} (h : s.Handed n d t)
    (hgap : gap = true → n < d) (htime : d ≤ 1 + t)
    (hspaced : ∀ pre, pre <+: hdrs →
      Along Replay.step (fun s _ => s.ClockValid) s (pre.map (·, 0)) →
        Along Replay.step Spaced s (pre.map (·, 0))) :
    PacedAfter t gap (hdrs.map PcapPkthdr.nanos) := by
  induction hdrs generalizing s n d t gap with
  | nil => trivial
  | cons hdr hdrs ih =>
    have hpos := h.pos
    have hn := h.le
    have hstamp := h.stamp
    have hclock : s.ClockValid := by
      unfold ClockValid
      rw [h.time]
      omega
    obtain ⟨hdelivered, hback⟩ := (hspaced [hdr] (by simp) ⟨hclock, trivial⟩).1 d t h.last
    dsimp only at hdelivered hback
    have hle : t ≤ hdr.nanos := by
      by_contra hlt
      exact h.asks_of_lt hclock (by omega) (by omega) (hback (by omega))
    have hnext := h.time_of_le hclock hle 0
    rw [hnext] at hdelivered
    refine ⟨hle, ?_, ?_⟩
    · intro hbefore
      have hslept := hgap hbefore
      split_ifs at hdelivered <;> omega
    · apply ih (h.step hclock (hdr, 0))
      · rw [hnext, decide_eq_true_eq]
        split_ifs at hdelivered ⊢ <;> omega
      · rw [hnext]
        split_ifs <;> dsimp only <;> omega
      · intro pre hpre hlegal
        exact (hspaced (hdr :: pre) (List.cons_prefix_cons.2 ⟨rfl, hpre⟩) ⟨hclock, hlegal⟩).2

end Replay

/-- The spacing of a file is kept, whenever the replay starts and however long the sleeps
take, exactly when its time stamps never go back and no gap follows right after another. -/
theorem pcap_replay_spaced_iff (file : List PcapPkthdr) :
    (∀ time, 0 < time → ∀ evs : List (PcapPkthdr × ℕ), evs.map Prod.fst <+: file →
      Along Replay.step (fun s _ => s.ClockValid) (Replay.start time) evs →
        Along Replay.step Replay.Spaced (Replay.start time) evs) ↔
    Paced (file.map PcapPkthdr.nanos) := by
  constructor
  · intro hspaced
    cases file with
    | nil => trivial
    | cons hdr hdrs =>
      apply (Replay.start_step one_pos (hdr, 0)).paced (by simp) (Nat.le_add_right 1 _)
      intro pre hpre hlegal
      apply (hspaced 1 one_pos ((hdr, 0) :: pre.map (·, 0)) _ ⟨⟨one_pos, by decide⟩, hlegal⟩).2
      simpa [Function.comp_def] using hpre
  · intro hpaced time hpos evs hpre hlegal
    cases evs with
    | nil => trivial
    | cons ev evs =>
      obtain ⟨rest, rfl⟩ := hpre
      refine ⟨fun d t hlast => by simp [Replay.start] at hlast, ?_⟩
      have hrest : PacedAfter ev.1.nanos false (evs.map fun ev => ev.1.nanos) := by
        simp only [List.map_append, List.map_cons, List.map_map, List.cons_append] at hpaced
        exact hpaced.of_append
      exact (Replay.start_step hpos ev).along_spaced (by simp) hrest hlegal.2

def atSecond (sec : BitVec 32) : PcapPkthdr := ⟨sec, 0⟩

def threePackets : Replay :=
  run Replay.step (Replay.start 1) [(atSecond 0, 0), (atSecond 10, 0)]

/-- Three packets ten seconds apart: the third comes right after the second.  And a packet
captured five seconds before the last sleeps for 584 years. -/
theorem pcap_replay_bunches :
    (threePackets.ClockValid ∧ threePackets.last = some (10000000001, 10000000000) ∧
      (threePackets.step (atSecond 20, 0)).last = some (10000000001, 20000000000) ∧
      ¬ threePackets.Spaced (atSecond 20, 0)) ∧
    ((Replay.start 1).step (atSecond 10, 0)).asks (atSecond 5) =
      some (BitVec.ofInt 64 (-5000000000)) := by
  have hlast : threePackets.last = some (10000000001, 10000000000) := by decide +kernel
  refine ⟨⟨by decide +kernel, hlast, by decide +kernel, ?_⟩, by decide +kernel⟩
  intro hspaced
  have hlate := (hspaced _ _ hlast).1
  revert hlate
  decide +kernel

end Libuinet
