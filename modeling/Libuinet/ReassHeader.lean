import Libuinet.ReassOwnership

namespace Libuinet

/-- `tqe_th` of an entry is followed, or its `tqe_m` is given away.  `freed` says what has become
of the mbuf with the header. -/
inductive HdrEvent where
  | read (q : Tqe)
  | give (q : Tqe) (freed : Bool)
  deriving DecidableEq, Repr

def HdrEvent.entry : HdrEvent → Tqe
  | .read q => q
  | .give q _ => q

def HeadersSafe : List HdrEvent → Prop
  | [] => True
  | .read _ :: l => HeadersSafe l
  | .give q _ :: l => .read q ∉ l ∧ HeadersSafe l

/-- `sbcompress` frees the first mbuf of the chain: it is empty, or it is absorbed by the tail. -/
def sbcompressFreesFirst (sb : Sockbuf) : List Mbuf → Bool
  | [] => false
  | m :: ms =>
    if m.mLen = 0 ∧ (m.mEor = false ∨
        (sbcompressNeighbour sb ms).map Mbuf.mType = some m.mType) then true
    else match sb.sbMbtail with
      | none => false
      | some n => coalesces n m && !sb.sbNocoalesce && (n.mHole || decide (m.mLen ≤ mclbytes / 4))

def giveEntry (tp : ReassCb) (q : TsegQent) : HdrEvent :=
  .give q.tqe (tp.soRcv.sbCantrcvmore || sbcompressFreesFirst tp.soRcv q.tqeM)

def deliverHolesEntryLog (tp : ReassCb) (q : TsegQent) : List HdrEvent :=
  (if tp.soRcv.sbCantrcvmore then [] else [.read q.tqe]) ++
    [.read q.tqe, giveEntry (deliverHoleBefore tp q) q, .read q.tqe]

def deliverHolesLoopLog (p : Tqe) : List TsegQent → Bool → ReassCb → List HdrEvent
  | [], _, _ => []
  | q :: rest, contiguous, tp =>
    (if contiguous then [.read q.tqe] else []) ++
      if contiguous && q.thSeq != tp.rcvNxt then []
      else deliverHolesEntryLog tp q ++
        deliverHolesLoopLog p rest (contiguous || q.tqe == p) (deliverHolesEntry tp q rest)

def tcpReassDeliverHolesLog (tp : ReassCb) (ticks : ℕ) : List HdrEvent :=
  match furthestExpired tp ticks with
  | none => []
  | some p => deliverHolesLoopLog p tp.tSegq false tp

/-- The body of the presentation loop.  The flags are read first. -/
def presentEntryLog (tp : ReassCb) (q : TsegQent) : List HdrEvent :=
  [.read q.tqe, giveEntry tp q]

def presentLoopLog : List TsegQent → Present → List HdrEvent
  | [], _ => []
  | q :: rest, s =>
    .read q.tqe :: if q.thSeq = s.tp.rcvNxt then
      presentEntryLog s.tp q ++ presentLoopLog rest (presentEntry s q rest)
    else []

/-- The size of the leading hole is only computed while `so_rcv` takes more. -/
def leadingHoleLog (tp : ReassCb) (q : TsegQent) : List HdrEvent :=
  (if tp.soRcv.sbCantrcvmore then [] else [.read q.tqe]) ++ [.read q.tqe]

def tcpReassPresentLog (tp : ReassCb) (leadingHole replace : Bool) : List HdrEvent :=
  if !tp.tState.haveEstablished then []
  else match tp.tSegq with
    | [] => []
    | q :: rest =>
      .read q.tqe ::
        if q.thSeq ≠ tp.rcvNxt ∧ leadingHole = false then
          if tp.inpPassive then [.read q.tqe] else []
        else
          let s := presentStart tp q leadingHole replace
          (if leadingHole then leadingHoleLog tp q else []) ++
            (presentEntryLog s.tp q ++ presentLoopLog rest (presentEntry s q rest))

def trimSuccessorsLog (edge : TcpSeq) : List TsegQent → List HdrEvent
  | [] => []
  | q :: qs =>
    let i := (edge - q.thSeq).toInt
    .read q.tqe ::
      if i ≤ 0 then []
      else if i < q.tqeLen then [.read q.tqe]
      else .give q.tqe true :: trimSuccessorsLog edge qs

/-- The search for the place of the segment, and the end of the entry in front of it. -/
def splitQueueLog (tp : ReassCb) (th : Segment) : List HdrEvent :=
  ((splitQueue tp th).1 ++ (splitQueue tp th).2.head?.toList ++
    (splitQueue tp th).1.getLast?.toList).map fun q => .read q.tqe

def tcpReassLog (tp : ReassCb) (ticks : ℕ) (alloc : Option ℕ) (th : Option Segment) :
    List HdrEvent :=
  match th with
  | none => tcpReassPresentLog tp false false
  | some th =>
    let short := shortOfResources tp alloc th
    if short && !tp.inpPassive then []
    else splitQueueLog tp th ++
      match trimByPredecessor (splitQueue tp th).1.getLast? th with
      | none => tcpReassPresentLog tp short false
      | some th' =>
        trimSuccessorsLog (th'.thSeq + BitVec.ofNat 32 th'.tlen) (splitQueue tp th).2 ++
          tcpReassPresentLog (queueSegment tp ticks alloc th th') short
            (!(splitQueue tp th).1.isEmpty && tp.inpPassive && alloc.isNone)

instance instDecidableHeadersSafe : (l : List HdrEvent) → Decidable (HeadersSafe l)
  | [] => instDecidableTrue
  | .read _ :: l => instDecidableHeadersSafe l
  | .give q _ :: l =>
    have : Decidable (HeadersSafe l) := instDecidableHeadersSafe l
    inferInstanceAs (Decidable (.read q ∉ l ∧ HeadersSafe l))

variable {ev : HdrEvent} {l : List HdrEvent} (tp : ReassCb)

theorem headersSafe_append {l' : List HdrEvent} (h : HeadersSafe l) (h' : HeadersSafe l')
    (hdisj : ∀ q b, .give q b ∈ l → .read q ∉ l') : HeadersSafe (l ++ l') := by
  induction l with
  | nil => exact h'
  | cons ev l ih =>
    have hrest (hl : HeadersSafe l) : HeadersSafe (l ++ l') :=
      ih hl fun q b hq => hdisj q b (List.mem_cons_of_mem ev hq)
    cases ev with
    | read q => exact hrest h
    | give q b =>
      refine ⟨fun hmem => ?_, hrest h.2⟩
      rcases List.mem_append.mp hmem with hmem | hmem
      · exact h.1 hmem
      · exact hdisj q b List.mem_cons_self hmem

/-- A log that only reads is safe. -/
theorem headersSafe_reads (h : ∀ q b, .give q b ∉ l) : HeadersSafe l := by
  induction l with
  | nil => trivial
  | cons ev l ih =>
    have hl := ih fun q b hq => h q b (List.mem_cons_of_mem ev hq)
    cases ev with
    | read q => exact hl
    | give q b => exact absurd List.mem_cons_self (h q b)

theorem presentLoopLog_entry (l : List TsegQent) (s : Present) (h : ev ∈ presentLoopLog l s) :
    ev.entry ∈ l.map TsegQent.tqe := by
  induction l generalizing s with
  | nil => cases h
  | cons q rest ih =>
    rw [List.map_cons, List.mem_cons]
    rcases List.mem_cons.mp h with rfl | h
    · exact .inl rfl
    split_ifs at h
    · rcases List.mem_append.mp h with h | h
      · simp only [presentEntryLog, giveEntry, List.mem_cons, List.not_mem_nil, or_false] at h
        rcases h with rfl | rfl <;> exact .inl rfl
      · exact .inr (ih _ h)
    · cases h

/-- The header of an entry is read before its chain is given away, and what follows is about the
entries behind it. -/
theorem headersSafe_presentEntry {q : TsegQent} {rest : List TsegQent}
    (hq : q.tqe ∉ rest.map tqe) (hl : ∀ ev ∈ l, ev.entry ∈ rest.map tqe)
    (h : HeadersSafe l) :
    HeadersSafe (presentEntryLog tp q ++ l) :=
  ⟨fun hmem => hq (hl _ hmem), h⟩

theorem headersSafe_presentLoop (l : List TsegQent) (s : Present)
    (hnodup : (l.map TsegQent.tqe).Nodup) : HeadersSafe (presentLoopLog l s) := by
  induction l generalizing s with
  | nil => trivial
  | cons q rest ih =>
    obtain ⟨hq, hrest⟩ := List.nodup_cons.mp (List.map_cons ▸ hnodup)
    unfold presentLoopLog
    split_ifs
    · exact headersSafe_presentEntry s.tp hq (fun _ => presentLoopLog_entry rest _) (ih _ hrest)
    · trivial

theorem leadingHoleLog_entry {tp : ReassCb} {q : TsegQent} (h : ev ∈ leadingHoleLog tp q) :
    ev = .read q.tqe := by
  unfold leadingHoleLog at h
  split_ifs at h <;> simpa using h

/-- The log of `present` is that of the entry in front, and then of those behind it. -/
theorem tcpReassPresentLog_cases (leadingHole replace : Bool) :
    tcpReassPresentLog tp leadingHole replace = [] ∨
    ∃ q rest pre, tp.tSegq = q :: rest ∧ (∀ ev ∈ pre, ev = .read q.tqe) ∧
      (tcpReassPresentLog tp leadingHole replace = pre ∨
        ∃ s, tcpReassPresentLog tp leadingHole replace = pre ++
          (presentEntryLog s.tp q ++ presentLoopLog rest (presentEntry s q rest))) := by
  unfold tcpReassPresentLog
  split
  · exact .inl rfl
  split
  · exact .inl rfl
  · next q rest hq =>
    right
    split_ifs
    · exact ⟨q, rest, [.read q.tqe, .read q.tqe], hq, by simp, .inl rfl⟩
    · exact ⟨q, rest, [.read q.tqe], hq, by simp, .inl rfl⟩
    · refine ⟨q, rest, .read q.tqe :: leadingHoleLog tp q, hq, fun ev hev => ?_,
        .inr ⟨presentStart tp q leadingHole replace, rfl⟩⟩
      rcases List.mem_cons.mp hev with rfl | hev
      · rfl
      · exact leadingHoleLog_entry hev
    · exact ⟨q, rest, [.read q.tqe], hq, by simp,
        .inr ⟨presentStart tp q leadingHole replace, rfl⟩⟩

theorem presentEntryLog_entry {tp : ReassCb} {q : TsegQent} (h : ev ∈ presentEntryLog tp q) :
    ev.entry = q.tqe := by
  simp only [presentEntryLog, giveEntry, List.mem_cons, List.not_mem_nil, or_false] at h
  rcases h with rfl | rfl <;> rfl

theorem tcpReassPresentLog_entry (leadingHole replace : Bool)
    (h : ev ∈ tcpReassPresentLog tp leadingHole replace) : ev.entry ∈ tp.addrs := by
  obtain he | ⟨q, rest, pre, hq, hpre, he | ⟨s, he⟩⟩ :=
    tcpReassPresentLog_cases tp leadingHole replace
  · rw [he] at h
    cases h
  · rw [he] at h
    rw [hpre ev h, ReassCb.addrs, hq]
    exact List.mem_cons_self
  · rw [he] at h
    rw [ReassCb.addrs, hq, List.map_cons, List.mem_cons]
    rcases List.mem_append.mp h with h | h
    · exact .inl (by rw [hpre ev h]; rfl)
    rcases List.mem_append.mp h with h | h
    · exact .inl (presentEntryLog_entry h)
    · exact .inr (presentLoopLog_entry rest _ h)

theorem headersSafe_present (leadingHole replace : Bool) (hnodup : tp.addrs.Nodup) :
    HeadersSafe (tcpReassPresentLog tp leadingHole replace) := by
  obtain he | ⟨q, rest, pre, hq, hpre, he⟩ := tcpReassPresentLog_cases tp leadingHole replace
  · rw [he]
    trivial
  have hreads : HeadersSafe pre := headersSafe_reads fun a b h => by cases hpre _ h
  obtain he | ⟨s, he⟩ := he
  · rwa [he]
  · rw [ReassCb.addrs, hq, List.map_cons, List.nodup_cons] at hnodup
    rw [he]
    refine headersSafe_append hreads ?_ fun a b h => by cases hpre _ h
    exact headersSafe_presentEntry s.tp hnodup.1 (fun _ => presentLoopLog_entry rest _)
      (headersSafe_presentLoop rest _ hnodup.2)

section

variable (edge : TcpSeq) (post : List TsegQent)

/-- Each of the following entries is dequeued or left in the queue. -/
theorem trimSuccessors_addrs :
    (trimSuccessors edge post).2 ++ (trimSuccessors edge post).1.map TsegQent.tqe =
      post.map TsegQent.tqe := by
  induction post with
  | nil => rfl
  | cons q qs ih =>
    unfold trimSuccessors
    dsimp only
    split_ifs
    · rfl
    · rfl
    · rw [List.cons_append, ih, List.map_cons]

/-- Only the entries that are dequeued are given away. -/
theorem trimSuccessorsLog_entry (h : ev ∈ trimSuccessorsLog edge post) :
    ev.entry ∈ post.map TsegQent.tqe ∧
      ∀ q b, ev = .give q b → q ∈ (trimSuccessors edge post).2 := by
  induction post with
  | nil => cases h
  | cons q qs ih =>
    have hread : (HdrEvent.read q.tqe).entry ∈ (q :: qs).map TsegQent.tqe ∧
        ∀ a b, HdrEvent.read q.tqe = .give a b → a ∈ (trimSuccessors edge (q :: qs)).2 :=
      ⟨List.mem_cons_self, nofun⟩
    unfold trimSuccessorsLog at h
    dsimp only at h
    rcases List.mem_cons.mp h with rfl | h
    · exact hread
    split_ifs at h with hle hlt
    · cases h
    · rw [List.mem_singleton.mp h]
      exact hread
    · have hdequeued : (trimSuccessors edge (q :: qs)).2 = q.tqe :: (trimSuccessors edge qs).2 := by
        simp only [trimSuccessors, if_neg hle, if_neg hlt]
      rw [hdequeued]
      rcases List.mem_cons.mp h with rfl | h
      · refine ⟨List.mem_cons_self, fun a b heq => ?_⟩
        cases heq
        exact List.mem_cons_self
      · obtain ⟨hin, hgive⟩ := ih h
        exact ⟨List.mem_cons_of_mem _ hin, fun a b heq => List.mem_cons_of_mem _ (hgive a b heq)⟩

theorem headersSafe_trimSuccessors (hnodup : (post.map TsegQent.tqe).Nodup) :
    HeadersSafe (trimSuccessorsLog edge post) := by
  induction post with
  | nil => trivial
  | cons q qs ih =>
    obtain ⟨hq, hrest⟩ := List.nodup_cons.mp (List.map_cons ▸ hnodup)
    unfold trimSuccessorsLog
    dsimp only
    split_ifs
    · trivial
    · trivial
    · exact ⟨fun h => hq (trimSuccessorsLog_entry edge qs h).1, ih hrest⟩

end

theorem queueSegment_addrs (ticks : ℕ) (alloc : Option ℕ) (th th' : Segment) :
    (queueSegment tp ticks alloc th th').addrs = (splitQueue tp th).1.map TsegQent.tqe ++
      entryFor alloc :: (trimSuccessors (th'.thSeq + BitVec.ofNat 32 th'.tlen)
        (splitQueue tp th).2).1.map TsegQent.tqe := by
  rw [queueSegment_eq, ReassCb.addrs, List.map_append, List.map_cons]

/-- The queue before, in the order of the list. -/
theorem addrs_split (th : Segment) (edge : TcpSeq) :
    (splitQueue tp th).1.map TsegQent.tqe ++ ((trimSuccessors edge (splitQueue tp th).2).2 ++
      (trimSuccessors edge (splitQueue tp th).2).1.map TsegQent.tqe) = tp.addrs := by
  rw [trimSuccessors_addrs, ← List.map_append, splitQueue_append]
  rfl

theorem headersSafe_tcpReass {tp : ReassCb} (hnodup : tp.addrs.Nodup) (ticks : ℕ)
    {alloc : Option ℕ} (hfresh : entryFor alloc ∉ tp.addrs) (th : Option Segment) :
    HeadersSafe (tcpReassLog tp ticks alloc th) := by
  cases th with
  | none => exact headersSafe_present tp false false hnodup
  | some th =>
    unfold tcpReassLog
    dsimp only
    split
    · trivial
    have hscan : ∀ q b, HdrEvent.give q b ∉ splitQueueLog tp th := by
      intro q b h
      obtain ⟨a, -, ha⟩ := List.mem_map.mp h
      cases ha
    refine headersSafe_append (headersSafe_reads hscan) ?_ fun q b h => absurd h (hscan q b)
    split
    · exact headersSafe_present tp _ false hnodup
    · next th' _ =>
      have hsplit := addrs_split tp th (th'.thSeq + BitVec.ofNat 32 th'.tlen)
      have haddrs := queueSegment_addrs tp ticks alloc th th'
      have hpost := trimSuccessors_addrs (th'.thSeq + BitVec.ofNat 32 th'.tlen)
        (splitQueue tp th).2
      rw [← hsplit] at hnodup hfresh
      obtain ⟨-, hbehind, hapart⟩ := List.nodup_append.mp hnodup
      obtain ⟨-, -, hleft⟩ := List.nodup_append.mp hbehind
      have hsub := List.Sublist.append_left (List.sublist_append_right
        (trimSuccessors (th'.thSeq + BitVec.ofNat 32 th'.tlen) (splitQueue tp th).2).2
        ((trimSuccessors (th'.thSeq + BitVec.ofNat 32 th'.tlen) (splitQueue tp th).2).1.map
          TsegQent.tqe)) ((splitQueue tp th).1.map TsegQent.tqe)
      refine headersSafe_append ?_ (headersSafe_present _ _ _ ?_) fun q b hgive hread => ?_
      · exact headersSafe_trimSuccessors _ _ (hpost ▸ hbehind)
      · rw [haddrs, List.nodup_middle, List.nodup_cons]
        exact ⟨fun hmem => hfresh (hsub.subset hmem), hnodup.sublist hsub⟩
      · have hq := (trimSuccessorsLog_entry _ _ hgive).2 q b rfl
        have hin : q ∈ _ := tcpReassPresentLog_entry _ _ _ hread
        rw [haddrs, List.mem_append, List.mem_cons] at hin
        rcases hin with hin | rfl | hin
        · exact hapart q hin q (List.mem_append_left _ hq) rfl
        · exact hfresh (List.mem_append_right _ (List.mem_append_left _ hq))
        · exact hleft q hq q hin rfl

theorem not_headersSafe_deliverHolesEntry (q : TsegQent) (l : List HdrEvent) :
    ¬ HeadersSafe (deliverHolesEntryLog tp q ++ l) := by
  have hnot : ¬ HeadersSafe (giveEntry (deliverHoleBefore tp q) q :: .read q.tqe :: l) :=
    fun h => h.1 List.mem_cons_self
  unfold deliverHolesEntryLog
  split_ifs <;> exact hnot

theorem headersSafe_deliverHoles_iff (ticks : ℕ) :
    HeadersSafe (tcpReassDeliverHolesLog tp ticks) ↔ furthestExpired tp ticks = none := by
  unfold tcpReassDeliverHolesLog
  split
  · next h => exact iff_of_true trivial h
  · next p hp =>
    have hne : tp.tSegq ≠ [] := by
      intro hnil
      simp [furthestExpired, hnil] at hp
    obtain ⟨q, rest, hq⟩ := List.exists_cons_of_ne_nil hne
    rw [hp, hq, deliverHolesLoopLog]
    simp only [reduceCtorEq, iff_false, Bool.false_eq_true, if_false, List.nil_append,
      Bool.false_and]
    exact not_headersSafe_deliverHolesEntry tp q _

/-- `tcp_reass` never reads the header of an entry whose mbuf it has given away, and
`tcp_reass_deliver_holes` does so whenever it has something to deliver. -/
theorem queued_headers_iff (tp : ReassCb) (ticks : ℕ) (alloc : Option ℕ) (th : Option Segment)
    (hnodup : tp.addrs.Nodup) (hfresh : entryFor alloc ∉ tp.addrs) :
    HeadersSafe (tcpReassLog tp ticks alloc th) ∧
      (HeadersSafe (tcpReassDeliverHolesLog tp ticks) ↔ furthestExpired tp ticks = none) :=
  ⟨headersSafe_tcpReass hnodup ticks hfresh th, headersSafe_deliverHoles_iff tp ticks⟩

/-- The byte 8 is queued behind a gap, and `so_rcv` ends in an mbuf with room behind its byte. -/
def queuedByte : ReassCb where
  rcvNxt := 0
  tSegq := [⟨.zone 0, 1, false, 1, [Mbuf.ofBytes [8]]⟩]
  tSegqlen := 1
  soRcv := sbappendstreamLocked Sockbuf.empty [Mbuf.ofBytes [6]]

/-- The byte 7 arrives. -/
theorem queued_headers_iff_byte :
    HeadersSafe (tcpReassLog queuedByte 0 (some 1) (some ⟨0, false, 1, [Mbuf.ofBytes [7]]⟩)) ∧
      HeadersSafe (tcpReassDeliverHolesLog queuedByte 0) := by
  have h := queued_headers_iff queuedByte 0 (some 1) (some ⟨0, false, 1, [Mbuf.ofBytes [7]]⟩)
    (by decide) (by decide)
  exact ⟨h.1, h.2.mpr (by decide)⟩

/-- After the deadline the chain of the byte 8 is absorbed by the hole in front of it, and its mbuf
freed, before the flags are read. -/
theorem queued_header_read_freed :
    tcpReassDeliverHolesLog queuedByte 100 =
      [.read (.zone 0), .read (.zone 0), .give (.zone 0) true, .read (.zone 0)] := by
  decide

end Libuinet
