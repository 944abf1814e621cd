import Libuinet.Execution
import Libuinet.Uio

namespace Libuinet

open Execution

inductive HttpErrno where
  | ok
  | paused
  | other (n : ℕ)
  deriving DecidableEq

def sizeSub (a b : ℕ) : ℕ := (a + (2 ^ 64 - b)) % 2 ^ 64

def imin (a b : ℤ) : ℤ := min (asInt a) (asInt b)

def extractBufferSize : ℕ := 1024

/-- `struct connection_context`, as far as the buffer goes, with all that was read on the connection
and all that its parser has consumed. -/
structure ExtractConn where
  errno : HttpErrno
  buffer : ℕ → UInt8
  bufferSize : ℕ
  bufferCount : ℕ
  bufferIndex : ℕ
  /-- The read watcher is active. -/
  watching : Bool
  read : List UInt8
  consumed : List UInt8

/-- How a call of `http_parser_execute` ends: unless it ends paused or in error it consumes
everything, else any part of it. -/
structure Parsed where
  errno : HttpErrno
  upTo : ℕ

def Parsed.nparsed (p : Parsed) (len : ℕ) : ℕ := if p.errno = .ok then len else min p.upTo len

namespace ExtractConn

def front (c : ExtractConn) (len : ℕ) : List UInt8 :=
  (List.range len).map fun i => c.buffer (c.bufferIndex + i)

/-- The condition of the loop in `passive_extract_parse_buffer`. -/
def parses (c : ExtractConn) : Bool := c.bufferCount ≠ 0 ∧ c.errno = .ok

def parseBuffer (c : ExtractConn) (p : Parsed) : ExtractConn :=
  let bytesToEndOfBuffer := sizeSub c.bufferSize c.bufferIndex
  let input := c.front (imin c.bufferCount bytesToEndOfBuffer).toNat
  let nparsed := p.nparsed input.length
  let index := c.bufferIndex + nparsed
  { c with
    errno := p.errno
    bufferCount := sizeSub c.bufferCount nparsed
    bufferIndex := if index = c.bufferSize then 0 else index
    consumed := c.consumed ++ input.take nparsed }

/-- `uinet_soreceive` stores at most `read_size` bytes from `buffer_index` on. -/
def receive (c : ExtractConn) (maxRead : ℤ) (bytes : List UInt8) : ExtractConn :=
  let readSize := imin maxRead (sizeSub c.bufferSize c.bufferIndex)
  let bytes := bytes.take readSize.toNat
  { c with
    buffer := fun i =>
      if c.bufferIndex ≤ i ∧ i < c.bufferIndex + bytes.length then
        bytes.getD (i - c.bufferIndex) 0
      else c.buffer i
    bufferCount := c.bufferCount + bytes.length
    read := c.read ++ bytes }

def create (watching : Bool) : ExtractConn where
  errno := .ok
  buffer _ := 0
  bufferSize := extractBufferSize
  bufferCount := 0
  bufferIndex := 0
  watching := watching
  read := []
  consumed := []

end ExtractConn

/-- The two connections of a pair: requests are read on one, and responses on the other. -/
inductive ExtractSide where
  | request
  | response
  deriving DecidableEq

def ExtractSide.peer : ExtractSide → ExtractSide
  | .request => .response
  | .response => .request

/-- Where the event loop is: between callbacks, in the callback of a connection at the loop that
parses its own buffer or that of its peer, behind the destruction of the pair, or at a failed
assertion. -/
inductive ExtractPc where
  | idle
  | own (side : ExtractSide)
  | peer (side : ExtractSide)
  | closed
  | aborted
  deriving DecidableEq

structure ExtractPair where
  conn : ExtractSide → ExtractConn
  pc : ExtractPc

/-- What `uinet_soreceive` comes back with. -/
inductive ExtractRead where
  | error
  | hole
  | data (bytes : List UInt8)

/-- The event loop calls the callback of a watcher, or the callback goes on, with the result of
`http_parser_execute` if it gets to it. -/
inductive ExtractAct where
  | call (side : ExtractSide) (maxRead : ℤ) (result : ExtractRead)
  | go (p : Parsed)

namespace ExtractPair

variable (s : ExtractPair) (side : ExtractSide)

def setConn (c : ExtractConn) : ExtractPair :=
  { s with conn := Function.update s.conn side c }

def unpause (next : ExtractPc) : ExtractPair :=
  match (s.conn side).errno with
  | .other _ => { s with pc := .aborted }
  | _ => { s.setConn side { s.conn side with errno := .ok } with pc := next }

def whileCount : ExtractPc :=
  if (s.conn side).bufferCount ≠ 0 then .own side else .idle

def passiveExtractCb (maxRead : ℤ) (result : ExtractRead) : ExtractPair :=
  if maxRead ≤ 0 then
    if maxRead = 0 then { s with pc := .aborted } else { s with pc := .closed }
  else
    match result with
    | .error | .hole => { s with pc := .closed }
    | .data bytes =>
      { s.setConn side ((s.conn side).receive maxRead bytes) with pc := .own side }

def ownGo (p : Parsed) : ExtractPair :=
  let c := s.conn side
  if c.parses then s.setConn side (c.parseBuffer p)
  else
    match c.errno with
    | .ok => { s with pc := s.whileCount side }
    | .paused => s.unpause side.peer (.peer side)
    | .other _ => { s with pc := .closed }

/-- `passive_extract_parse_buffer(conn->peer)` and what follows it. -/
def peerGo (p : Parsed) : ExtractPair :=
  let c := s.conn side.peer
  if c.parses then s.setConn side.peer (c.parseBuffer p)
  else
    match c.errno with
    | .ok =>
      -- the peer needs more data
      { (s.setConn side { s.conn side with watching := false }).setConn side.peer
          { c with watching := true } with pc := .idle }
    | .paused => s.unpause side (s.whileCount side)
    | .other _ => { s with pc := .closed }

def step : ExtractAct → ExtractPair
  | .call side maxRead result =>
    if s.pc = .idle ∧ (s.conn side).watching then s.passiveExtractCb side maxRead result else s
  | .go p =>
    match s.pc with
    | .own side => s.ownGo side p
    | .peer side => s.peerGo side p
    | _ => s

def accept : ExtractPair where
  conn side := ExtractConn.create (side = .request)
  pc := .idle

end ExtractPair

theorem sizeSub_of_le {a b : ℕ} (h : b ≤ a) (ha : a < 2 ^ 64) : sizeSub a b = a - b := by
  unfold sizeSub
  omega

namespace ExtractConn

/-- What was read is what the parser has consumed followed by what is in the buffer. -/
structure Fed (c : ExtractConn) : Prop where
  size : c.bufferSize = extractBufferSize
  room : c.bufferIndex < c.bufferSize
  bound : c.bufferIndex + c.bufferCount ≤ c.bufferSize
  stream : c.read = c.consumed ++ c.front c.bufferCount

variable {c : ExtractConn}

theorem front_length (c : ExtractConn) (len : ℕ) : (c.front len).length = len := by
  simp [front]

theorem front_add (c : ExtractConn) (a b : ℕ) :
    c.front (a + b) = c.front a ++ { c with bufferIndex := c.bufferIndex + a }.front b := by
  simp only [front, List.range_add, List.map_append, List.map_map]
  congr 2
  funext i
  simp [Nat.add_assoc]

/-- The parser is given all that is in the buffer. -/
theorem Fed.input (h : c.Fed) :
    (imin c.bufferCount (sizeSub c.bufferSize c.bufferIndex)).toNat = c.bufferCount := by
  have hsize := h.size
  have hbound := h.bound
  unfold extractBufferSize at hsize
  rw [sizeSub_of_le h.room.le (by omega), imin, asInt_natCast (by omega), asInt_natCast (by omega)]
  omega

theorem Parsed.nparsed_le (p : Parsed) (len : ℕ) : p.nparsed len ≤ len := by
  unfold Parsed.nparsed
  split <;> omega

theorem Fed.parseBuffer (h : c.Fed) (p : Parsed) : (c.parseBuffer p).Fed := by
  have hsize := h.size
  have hbound := h.bound
  have hroom := h.room
  unfold extractBufferSize at hsize
  have hle := Parsed.nparsed_le p c.bufferCount
  simp only [ExtractConn.parseBuffer, h.input, front_length]
  generalize p.nparsed c.bufferCount = n at hle
  have hcount : sizeSub c.bufferCount n = c.bufferCount - n := sizeSub_of_le hle (by omega)
  rw [hcount]
  have hsplit := c.front_add n (c.bufferCount - n)
  rw [Nat.add_sub_cancel' hle] at hsplit
  refine ⟨h.size, ?_, ?_, ?_⟩
  · dsimp only
    split_ifs <;> omega
  · dsimp only
    split_ifs <;> omega
  · have htake : (c.front c.bufferCount).take n = c.front n := by
      rw [hsplit, List.take_left' (c.front_length n)]
    dsimp only
    rw [h.stream, htake, hsplit, List.append_assoc]
    congr 2
    split_ifs with hend
    · -- at the end of the buffer nothing is left of it
      rw [show c.bufferCount - n = 0 by omega]
      rfl
    · rfl

/-- The buffer is read into at its index, so it has to be empty. -/
theorem Fed.receive (h : c.Fed) (hcount : c.bufferCount = 0) (maxRead : ℤ)
    (bytes : List UInt8) : (c.receive maxRead bytes).Fed := by
  have hsize := h.size
  have hroom := h.room
  unfold extractBufferSize at hsize
  have hread : c.read = c.consumed := by
    rw [h.stream, hcount]
    exact List.append_nil _
  simp only [ExtractConn.receive]
  generalize hb : bytes.take (imin maxRead (sizeSub c.bufferSize c.bufferIndex)).toNat = bs
  have hlen : c.bufferIndex + bs.length ≤ c.bufferSize := by
    have hle : bs.length ≤ (imin maxRead (sizeSub c.bufferSize c.bufferIndex)).toNat := by
      rw [← hb]
      exact List.length_take_le _ _
    rw [sizeSub_of_le hroom.le (by omega), imin, asInt_natCast (k := _ - _) (by omega)] at hle
    omega
  refine ⟨h.size, hroom, by dsimp only; omega, ?_⟩
  dsimp only
  rw [hread, hcount, Nat.zero_add]
  congr 1
  apply List.ext_getElem
  · simp [front]
  · intro i h₁ h₂
    simp [front, h₁]

theorem Fed.setErrno (h : c.Fed) (e : HttpErrno) : Fed { c with errno := e } :=
  { h with }

theorem Fed.setWatching (h : c.Fed) (b : Bool) : Fed { c with watching := b } :=
  { h with }

theorem count_eq_zero (h : c.parses = false) (hok : c.errno = .ok) : c.bufferCount = 0 := by
  simpa [parses, hok] using h

end ExtractConn

namespace ExtractPair

open ExtractConn

variable (s : ExtractPair) (side : ExtractSide)

def Watches : Prop :=
  (s.conn side).watching = true ∧ (s.conn side.peer).watching = false

def Sane : Prop := ∀ n, (s.conn side).errno ≠ .other n

/-- Whose turn it is: between callbacks that of a parser that waits for data with nothing in its
buffer. -/
def Turns : Prop :=
  match s.pc with
  | .idle => ∃ side, s.Watches side ∧ (s.conn side).errno = .ok ∧
      (s.conn side).bufferCount = 0 ∧ s.Sane side.peer
  | .own side => s.Watches side ∧ s.Sane side.peer
  | .peer side => s.Watches side ∧ (s.conn side).errno = .paused
  | .closed | .aborted => True

structure Inv (s : ExtractPair) : Prop where
  fed : ∀ side, (s.conn side).Fed
  turns : s.Turns

variable {s : ExtractPair}

@[simp] theorem peer_ne : side.peer ≠ side := by cases side <;> decide

@[simp] theorem peer_peer : side.peer.peer = side := by cases side <;> rfl

theorem eq_or_eq_peer (side' : ExtractSide) : side' = side ∨ side' = side.peer := by
  cases side <;> cases side' <;> decide

@[simp] theorem setConn_self (s : ExtractPair) (side : ExtractSide) (c : ExtractConn) :
    (s.setConn side c).conn side = c := Function.update_self ..

variable {side side' : ExtractSide}

theorem setConn_of_ne (s : ExtractPair) (h : side' ≠ side) (c : ExtractConn) :
    (s.setConn side c).conn side' = s.conn side' := Function.update_of_ne h ..

theorem Fed.setConn (h : ∀ side, (s.conn side).Fed) (side : ExtractSide) {c : ExtractConn}
    (hc : c.Fed) (side' : ExtractSide) : ((s.setConn side c).conn side').Fed := by
  by_cases hside : side' = side
  · rw [hside, setConn_self]
    exact hc
  · rw [setConn_of_ne s hside]
    exact h side'

theorem Watches.setConn (h : s.Watches side) {c : ExtractConn}
    (hc : c.watching = (s.conn side').watching) : (s.setConn side' c).Watches side := by
  rcases eq_or_eq_peer side side' with rfl | rfl
  · rw [Watches, setConn_self, setConn_of_ne s (peer_ne _), hc]
    exact h
  · rw [Watches, setConn_self, setConn_of_ne s (peer_ne _).symm, hc]
    exact h

theorem Sane.setConn (h : s.Sane side) (hne : side ≠ side') (c : ExtractConn) :
    (s.setConn side' c).Sane side := by
  rw [Sane, setConn_of_ne s hne]
  exact h

theorem sane_of_ok (h : (s.conn side).errno = .ok) : s.Sane side := by
  intro n hn
  rw [h] at hn
  cases hn

theorem sane_of_paused (h : (s.conn side).errno = .paused) : s.Sane side := by
  intro n hn
  rw [h] at hn
  cases hn

theorem inv_accept : accept.Inv := by
  refine ⟨fun side => ⟨rfl, ?_, ?_, rfl⟩, .request, ⟨rfl, rfl⟩, rfl, rfl, sane_of_ok rfl⟩
  · exact (by decide : 0 < extractBufferSize)
  · exact Nat.zero_le _

theorem Inv.closed (h : s.Inv) : Inv { s with pc := .closed } := ⟨h.fed, trivial⟩

theorem Inv.aborted (h : s.Inv) : Inv { s with pc := .aborted } := ⟨h.fed, trivial⟩

/-- Only the side that is watched can be called. -/
theorem Inv.call (h : s.Inv) (side : ExtractSide) (maxRead : ℤ) (result : ExtractRead) :
    (s.step (.call side maxRead result)).Inv := by
  rw [step]
  split_ifs with hcall
  · obtain ⟨hpc, hwatch⟩ := hcall
    have hturns := h.turns
    simp only [Turns, hpc] at hturns
    obtain ⟨active, hwatches, hok, hcount, hsane⟩ := hturns
    obtain rfl : side = active := by
      rcases eq_or_eq_peer active side with rfl | rfl
      · rfl
      · rw [hwatches.2] at hwatch
        exact absurd hwatch Bool.false_ne_true
    unfold passiveExtractCb
    split_ifs
    · exact h.aborted
    · exact h.closed
    · cases result with
      | error => exact h.closed
      | hole => exact h.closed
      | data bytes =>
        refine ⟨Fed.setConn h.fed side ((h.fed side).receive hcount maxRead bytes), ?_, ?_⟩
        · exact hwatches.setConn rfl
        · exact hsane.setConn (peer_ne side) _
  · exact h

/-- The end of the loop in `passive_extract_cb`. -/
theorem turns_whileCount (hwatches : s.Watches side) (hok : (s.conn side).errno = .ok)
    (hsane : s.Sane side.peer) : Turns { s with pc := s.whileCount side } := by
  unfold whileCount
  split_ifs with hcount
  · exact ⟨hwatches, hsane⟩
  · exact ⟨side, hwatches, hok, not_not.mp hcount, hsane⟩

theorem unpause_of_sane (h : s.Sane side) (next : ExtractPc) :
    s.unpause side next =
      { s.setConn side { s.conn side with errno := .ok } with pc := next } := by
  unfold unpause
  cases herr : (s.conn side).errno with
  | ok => rfl
  | paused => rfl
  | other n => exact absurd herr (h n)

theorem Inv.ownGo (h : s.Inv) (hpc : s.pc = .own side) (p : Parsed) : (s.ownGo side p).Inv := by
  have hturns := h.turns
  simp only [Turns, hpc] at hturns
  obtain ⟨hwatches, hsane⟩ := hturns
  by_cases hparses : (s.conn side).parses
  · simp only [ExtractPair.ownGo, hparses, if_true]
    refine ⟨Fed.setConn h.fed side ((h.fed side).parseBuffer p), ?_⟩
    have hpc' : (s.setConn side ((s.conn side).parseBuffer p)).pc = .own side := hpc
    simp only [Turns, hpc']
    exact ⟨hwatches.setConn rfl, hsane.setConn (peer_ne side) _⟩
  · simp only [ExtractPair.ownGo, hparses, Bool.false_eq_true, if_false]
    split
    · next hok => exact ⟨h.fed, turns_whileCount hwatches hok hsane⟩
    · next hpaused =>
      rw [unpause_of_sane hsane]
      refine ⟨Fed.setConn h.fed side.peer ((h.fed side.peer).setErrno .ok), ?_, ?_⟩
      · exact hwatches.setConn rfl
      · exact (congrArg errno (setConn_of_ne s (peer_ne side).symm _)).trans hpaused
    · exact h.closed

theorem Inv.peerGo (h : s.Inv) (hpc : s.pc = .peer side) (p : Parsed) : (s.peerGo side p).Inv := by
  have hturns := h.turns
  simp only [Turns, hpc] at hturns
  obtain ⟨hwatches, hpaused⟩ := hturns
  by_cases hparses : (s.conn side.peer).parses
  · simp only [ExtractPair.peerGo, hparses, if_true]
    refine ⟨Fed.setConn h.fed side.peer ((h.fed side.peer).parseBuffer p), ?_⟩
    have hpc' : (s.setConn side.peer ((s.conn side.peer).parseBuffer p)).pc = .peer side := hpc
    simp only [Turns, hpc']
    refine ⟨hwatches.setConn rfl, ?_⟩
    rw [setConn_of_ne s (peer_ne side).symm]
    exact hpaused
  · simp only [ExtractPair.peerGo, hparses, Bool.false_eq_true, if_false]
    split
    · next hok =>
      -- the watchers are exchanged
      have hcount := count_eq_zero (by simpa using hparses) hok
      have hfed := Fed.setConn h.fed side ((h.fed side).setWatching false)
      refine ⟨Fed.setConn hfed side.peer ((h.fed side.peer).setWatching true), side.peer, ?_⟩
      simp only [Watches, Sane, peer_peer, setConn_self, setConn_of_ne _ (peer_ne side).symm,
        hpaused, hok, hcount]
      simp
    · next hpeer =>
      rw [unpause_of_sane (sane_of_paused hpaused)]
      refine ⟨Fed.setConn h.fed side ((h.fed side).setErrno .ok), ?_⟩
      have hcount : s.whileCount side =
          (s.setConn side { s.conn side with errno := .ok }).whileCount side := by
        rw [whileCount, whileCount, setConn_self]
      rw [hcount]
      refine turns_whileCount (hwatches.setConn rfl) ?_ ?_
      · rw [setConn_self]
      · exact (sane_of_paused hpeer).setConn (peer_ne side) _
    · exact h.closed

theorem Inv.step (h : s.Inv) (a : ExtractAct) : (s.step a).Inv := by
  cases a with
  | call side maxRead result => exact h.call side maxRead result
  | go p =>
    simp only [ExtractPair.step]
    split
    · next side hpc => exact h.ownGo hpc p
    · next side hpc => exact h.peerGo hpc p
    · exact h

end ExtractPair

open ExtractPair

/-- In every run of the event loop, what a parser has consumed is a prefix of what was read on its
connection, the bytes in a buffer are within it, and between callbacks one of the two connections is
read, into a buffer that is empty. -/
theorem passive_extract_feeds_once (acts : List ExtractAct) :
    let s := run step accept acts
    (∀ side, (s.conn side).consumed <+: (s.conn side).read ∧
      (s.conn side).bufferIndex + (s.conn side).bufferCount ≤ (s.conn side).bufferSize) ∧
    (s.pc = .idle → ∃ side, (s.conn side).watching = true ∧
      (s.conn side.peer).watching = false ∧ (s.conn side).bufferCount = 0) := by
  have h : (run step accept acts).Inv :=
    run_preserves (I := Inv) (fun _ a h => h.step a) inv_accept acts
  refine ⟨fun side => ⟨?_, (h.fed side).bound⟩, fun hpc => ?_⟩
  · rw [(h.fed side).stream]
    exact List.prefix_append _ _
  · have hturns := h.turns
    simp only [Turns, hpc] at hturns
    obtain ⟨side, hwatches, -, hcount, -⟩ := hturns
    exact ⟨side, hwatches.1, hwatches.2, hcount⟩

end Libuinet
