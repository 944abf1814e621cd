import Libuinet.Uio

namespace Libuinet

def Uio.memory (uio : Uio) (mem : ℕ → UInt8) : ℕ → UInt8 :=
  uio.written.foldl (fun mem store => Function.update mem store.1 store.2) mem

/-- The same in every respect that a caller can see. -/
structure Uio.Same (u v : Uio) : Prop where
  iov : u.uioIov = v.uioIov
  resid : u.uioResid = v.uioResid
  offset : u.uioOffset = v.uioOffset
  memory : u.memory = v.memory

def uiofillStores (buf : ℕ) (val : UInt8) (n : ℕ) (uio : Uio) : List ℕ :=
  -- `memset(buf, val, imax(UIOFILL_MAXBUF, n))`
  (if uio.uioSegflg = .uioUserspace then List.range' buf (max uiofillMaxbuf n) else []) ++
    match uioLoop id uio.uioIov (List.replicate n val) { uio with written := [] } with
    | some uio' => uio'.written.map Prod.fst
    | none => []

@[simp] theorem iovSlots_cons (iov : Iovec) (iovs : List Iovec) :
    iovSlots (iov :: iovs) = List.range' iov.iovBase iov.iovLen ++ iovSlots iovs := rfl

@[simp] theorem iovSlots_append (iovs iovs' : List Iovec) :
    iovSlots (iovs ++ iovs') = iovSlots iovs ++ iovSlots iovs' := List.flatMap_append

variable {bs : List UInt8}

theorem Uio.put_stores (uio : Uio) {iov : Iovec} (iovs : List Iovec) (hle : bs.length ≤ iov.iovLen)
    :
    ∃ stores, (uio.put iov iovs bs).written = uio.written ++ stores ∧
      ∀ p ∈ stores, p.1 ∈ iovSlots (iov :: iovs) := by
  by_cases hseg : uio.uioSegflg = .uioNocopy
  · exact ⟨[], by simp [put, hseg], by simp⟩
  · refine ⟨(List.range' iov.iovBase bs.length).zip bs, by simp [put, hseg], ?_⟩
    intro p hp
    have hmem := (List.of_mem_zip hp).1
    rw [List.mem_range'_1] at hmem
    rw [iovSlots_cons, List.mem_append, List.mem_range'_1]
    omega

/-- Nothing is stored but behind the iovecs. -/
theorem uioLoop_stores {cnt : ℕ → ℕ} (hcnt : ∀ k, cnt k ≤ k) {iovs : List Iovec} {uio uio' : Uio}
    (h : uioLoop cnt iovs bs uio = some uio') :
    ∃ stores, uio'.written = uio.written ++ stores ∧ ∀ p ∈ stores, p.1 ∈ iovSlots iovs := by
  induction iovs generalizing bs uio with
  | nil =>
    rw [uioLoop] at h
    split_ifs at h
    cases h
    exact ⟨[], by simp, by simp⟩
  | cons iov iovs ih =>
    rw [uioLoop] at h
    split_ifs at h with hstop hzero hlt
    · cases h
      exact ⟨[], by simp, by simp⟩
    · obtain ⟨stores, hwritten, hmem⟩ := ih h
      exact ⟨stores, hwritten, fun p hp => List.mem_append_right _ (hmem p hp)⟩
    · cases h
      exact uio.put_stores iovs (hlt.le.trans (hcnt _))
    · have htake : (bs.take (cnt iov.iovLen)).length ≤ iov.iovLen :=
        (List.length_take_le _ _).trans (hcnt _)
      obtain ⟨stores, hwritten, hmem⟩ := uio.put_stores iovs htake
      dsimp only at h
      split_ifs at h
      · cases h
        exact ⟨stores, hwritten, hmem⟩
      · obtain ⟨stores', hwritten', hmem'⟩ := ih h
        refine ⟨stores ++ stores', by rw [hwritten', hwritten, List.append_assoc], ?_⟩
        intro p hp
        rcases List.mem_append.1 hp with hp | hp
        · exact hmem p hp
        · exact List.mem_append_right _ (hmem' p hp)

/-- An iovec is skipped or kept, never added. -/
theorem uioLoop_length {cnt : ℕ → ℕ} {iovs : List Iovec} {uio uio' : Uio}
    (h : uioLoop cnt iovs bs uio = some uio') : uio'.uioIov.length ≤ iovs.length := by
  induction iovs generalizing bs uio with
  | nil =>
    rw [uioLoop] at h
    split_ifs at h
    cases h
    simp
  | cons iov iovs ih =>
    rw [uioLoop] at h
    split_ifs at h
    · cases h
      simp
    · exact (ih h).trans (Nat.le_succ _)
    · cases h
      simp [Uio.put]
    · dsimp only at h
      split_ifs at h
      · cases h
        simp [Uio.put]
      · exact (ih h).trans (Nat.le_succ _)

section Agree

variable {iovs : List Iovec} {bs : List UInt8} {uio : Uio}

theorem put_resid (iov : Iovec) (hresid : uio.uioResid = (iovSlots (iov :: iovs)).length)
    (hle : iov.iovLen ≤ bs.length) :
    (uio.put iov iovs (bs.take iov.iovLen)).uioResid = (iovSlots iovs).length := by
  simp only [iovSlots_cons, List.length_append, List.length_range'] at hresid
  simp only [Uio.put, List.length_take]
  omega

/-- Reading the whole `iov_len`, the loop ends before the iovecs do. -/
theorem uioLoop_id_some (hresid : uio.uioResid = (iovSlots iovs).length) :
    ∃ uio', uioLoop id iovs bs uio = some uio' := by
  induction iovs generalizing bs uio with
  | nil =>
    rw [uioLoop, if_pos (.inr (by simpa [iovSlots] using hresid))]
    exact ⟨_, rfl⟩
  | cons iov iovs ih =>
    rw [uioLoop]
    split_ifs with hstop hzero hlt
    · exact ⟨_, rfl⟩
    · apply ih
      have hlen : iov.iovLen = 0 := hzero
      simpa [hlen] using hresid
    · exact ⟨_, rfl⟩
    · dsimp only [id]
      split_ifs
      · exact ⟨_, rfl⟩
      · apply ih
        exact put_resid iov hresid (by simpa using hlt)

/-- The first `n` bytes do not come to the end of what a `u_int` says of an iovec that is
longer than that. -/
def ReadWhole (n : ℕ) (iovs : List Iovec) : Prop :=
  ∀ pre iov post, iovs = pre ++ iov :: post → 2 ^ 32 ≤ iov.iovLen →
    n ≤ (iovSlots pre).length + iov.iovLen % 2 ^ 32

theorem ReadWhole.tail {n : ℕ} {iov : Iovec} (h : ReadWhole n (iov :: iovs)) :
    ReadWhole (n - iov.iovLen) iovs := by
  intro pre iov' post hsplit hbig
  have hle := h (iov :: pre) iov' post (by rw [hsplit, List.cons_append]) hbig
  simp only [iovSlots_cons, List.length_append, List.length_range'] at hle
  omega

theorem uioLoop_agree (h : ReadWhole bs.length iovs) :
    uioLoop id iovs bs uio = uioLoop (· % 2 ^ 32) iovs bs uio := by
  induction iovs generalizing bs uio with
  | nil => rfl
  | cons iov iovs ih =>
    have htail := h.tail
    by_cases hstop : bs = [] ∨ uio.uioResid = 0
    · rw [uioLoop, uioLoop, if_pos hstop, if_pos hstop]
    by_cases hsmall : iov.iovLen < 2 ^ 32
    · have hread : iov.iovLen % 2 ^ 32 = iov.iovLen := Nat.mod_eq_of_lt hsmall
      simp only [uioLoop, hread, id]
      split_ifs with hzero hlt hleft
      · apply ih
        simpa [hzero] using htail
      · rfl
      · rfl
      · apply ih
        simpa using htail
    · -- this iovec takes all that is left, either way
      have hle : bs.length ≤ iov.iovLen % 2 ^ 32 := by
        simpa [iovSlots] using h [] iov iovs rfl (Nat.le_of_not_lt hsmall)
      have hpos : 0 < bs.length := by
        apply List.length_pos_of_ne_nil
        exact fun hnil => hstop (.inl hnil)
      have hlt : iov.iovLen % 2 ^ 32 < 2 ^ 32 := Nat.mod_lt _ (by norm_num)
      simp only [uioLoop, id, if_neg hstop]
      rw [if_neg (by omega), if_pos (by omega), if_neg (by omega)]
      split_ifs with hless hleft
      · rfl
      · rw [List.take_of_length_le (by omega)]
      · exact absurd (.inl (List.drop_eq_nil_of_le (by omega))) hleft

/-- The bytes end in a long iovec.  The loop that reads its length short goes past it. -/
theorem uioLoop_short {post : List Iovec} {iov : Iovec} (hn : bs.length < 2 ^ 32)
    (hbig : 2 ^ 32 ≤ iov.iovLen) (hshort : iov.iovLen % 2 ^ 32 < bs.length)
    (hresid : uio.uioResid = (iovSlots (iov :: post)).length) {u v : Uio}
    (hu : uioLoop id (iov :: post) bs uio = some u)
    (hv : uioLoop (· % 2 ^ 32) (iov :: post) bs uio = some v) : u.uioIov ≠ v.uioIov := by
  simp only [iovSlots_cons, List.length_append, List.length_range'] at hresid
  have hstop : ¬ (bs = [] ∨ uio.uioResid = 0) := by
    rintro (rfl | hzero)
    · simp at hshort
    · omega
  have hkept : u.uioIov.length = post.length + 1 := by
    rw [uioLoop, if_neg hstop, if_neg (by dsimp only [id]; omega),
      if_pos (by dsimp only [id]; omega)] at hu
    cases hu
    simp [Uio.put]
  have hskipped : v.uioIov.length ≤ post.length := by
    rw [uioLoop, if_neg hstop] at hv
    split_ifs at hv with hzero hlt
    · exact uioLoop_length hv
    · omega
    · dsimp only at hv
      rw [if_neg] at hv
      · exact uioLoop_length hv
      · simp only [Uio.put, List.drop_eq_nil_iff, List.length_take]
        omega
  intro heq
  rw [heq] at hkept
  omega

/-- At an iovec that is read short the one loop stops, and the other goes past it. -/
theorem uioLoop_differ {pre post : List Iovec} {iov : Iovec} (hn : bs.length < 2 ^ 32)
    (hbig : 2 ^ 32 ≤ iov.iovLen) (hshort : (iovSlots pre).length + iov.iovLen % 2 ^ 32 < bs.length)
    (hresid : uio.uioResid = (iovSlots (pre ++ iov :: post)).length) {u v : Uio}
    (hu : uioLoop id (pre ++ iov :: post) bs uio = some u)
    (hv : uioLoop (· % 2 ^ 32) (pre ++ iov :: post) bs uio = some v) : u.uioIov ≠ v.uioIov := by
  induction pre generalizing bs uio with
  | nil => exact uioLoop_short hn hbig (by simpa [iovSlots] using hshort) hresid hu hv
  | cons p pre ih =>
    simp only [iovSlots_cons, List.length_append, List.length_range'] at hshort
    have hread : p.iovLen % 2 ^ 32 = p.iovLen := Nat.mod_eq_of_lt (by omega)
    have hrest : 2 ^ 32 ≤ (iovSlots (pre ++ iov :: post)).length := by
      simp only [iovSlots_append, iovSlots_cons, List.length_append, List.length_range']
      omega
    have hput : (uio.put p (pre ++ iov :: post) (bs.take p.iovLen)).uioResid =
        (iovSlots (pre ++ iov :: post)).length := put_resid p hresid (by omega)
    have hstop : ¬ (bs = [] ∨ uio.uioResid = 0) := by
      rintro (rfl | hzero)
      · simp at hshort
      · simp only [List.cons_append, iovSlots_cons, List.length_append,
          List.length_range'] at hresid
        omega
    have hon : ¬ (bs.drop p.iovLen = [] ∨
        (uio.put p (pre ++ iov :: post) (bs.take p.iovLen)).uioResid = 0) := by
      rw [hput, List.drop_eq_nil_iff]
      omega
    have hlt : ¬ bs.length < p.iovLen := by omega
    simp only [List.cons_append, uioLoop, hread, id, if_neg hstop, if_neg hlt, if_neg hon] at hu hv
    by_cases hzero : p.iovLen = 0
    · rw [if_pos hzero] at hu hv
      apply ih hn _ _ hu hv
      · omega
      · simpa [hzero] using hresid
    · rw [if_neg hzero] at hu hv
      apply ih _ _ hput hu hv
      · rw [List.length_drop]
        omega
      · rw [List.length_drop]
        omega

end Agree

/-- `uiofill` leaves what `uiomove` of equal bytes leaves, and stores nowhere else, exactly
when the run fits its buffer, if it needs one, and no iovec is cut short that `uiomove`
reads as a `u_int`. -/
theorem uiofill_uiomove_iff (buf : ℕ) (val : UInt8) (n : ℕ) (hn : n < 2 ^ 31) (uio : Uio)
    (hresid : uio.uioResid = uio.slots.length) :
    ((∃ u v, uiofill val n uio = some u ∧ uiomove (List.replicate n val) uio = some v ∧
        u.Same v) ∧
      ∀ a ∈ uiofillStores buf val n uio,
        a ∈ uio.slots ∨ a ∈ List.range' buf uiofillMaxbuf) ↔
    (uio.uioSegflg = .uioUserspace → n ≤ uiofillMaxbuf) ∧ ReadWhole n uio.uioIov := by
  constructor
  · rintro ⟨⟨u, v, hu, hv, hsame⟩, -⟩
    have hfits : ¬ (uio.uioSegflg = .uioUserspace ∧ uiofillMaxbuf < n) := by
      intro hover
      rw [uiofill, if_pos hover] at hu
      cases hu
    refine ⟨fun huser => Nat.le_of_not_lt fun hlt => hfits ⟨huser, hlt⟩, ?_⟩
    rw [uiofill, if_neg hfits] at hu
    intro pre iov post hsplit hbig
    by_contra hshort
    rw [uiomove, hsplit] at hv
    rw [hsplit] at hu
    rw [Uio.slots, hsplit] at hresid
    apply uioLoop_differ _ hbig _ hresid hu hv hsame.iov
    · rw [List.length_replicate]
      omega
    · rw [List.length_replicate]
      omega
  · rintro ⟨hfits, hwhole⟩
    have hbuf : ¬ (uio.uioSegflg = .uioUserspace ∧ uiofillMaxbuf < n) := by
      rintro ⟨huser, hlt⟩
      exact absurd (hfits huser) (Nat.not_le_of_lt hlt)
    constructor
    · obtain ⟨u, hu⟩ : ∃ u, uioLoop id uio.uioIov (List.replicate n val) uio = some u :=
        uioLoop_id_some hresid
      refine ⟨u, u, ?_, ?_, ⟨rfl, rfl, rfl, rfl⟩⟩
      · rw [uiofill, if_neg hbuf, hu]
      · rw [uiomove, ← uioLoop_agree (by rwa [List.length_replicate]), hu]
    · intro a ha
      rcases List.mem_append.1 ha with ha | ha
      · split_ifs at ha with huser
        · right
          rwa [max_eq_left (hfits huser)] at ha
        · simp at ha
      · left
        split at ha
        · next u hu =>
          obtain ⟨stores, hwritten, hmem⟩ := uioLoop_stores (fun _ => le_rfl) hu
          obtain ⟨p, hp, rfl⟩ := List.mem_map.1 ha
          rw [hwritten] at hp
          exact hmem p hp
        · simp at ha

def threeIovecs : Uio where
  uioIov := [⟨4096, 4⟩, ⟨0, 0⟩, ⟨8192, 10⟩]
  uioResid := 14
  uioSegflg := .uioUserspace

theorem uiofill_uiomove_seven :
    ∃ u v, uiofill 9 7 threeIovecs = some u ∧
      uiomove (List.replicate 7 9) threeIovecs = some v ∧ u.Same v := by
  have hwhole : ReadWhole 7 threeIovecs.uioIov := by
    intro pre iov post hsplit hbig
    have hmem : iov ∈ threeIovecs.uioIov := by simp [hsplit]
    simp only [threeIovecs, List.mem_cons, List.not_mem_nil, or_false] at hmem
    rcases hmem with rfl | rfl | rfl <;> simp at hbig
  exact ((uiofill_uiomove_iff 0 9 7 (by decide) threeIovecs (by decide)).2
    ⟨fun _ => by decide, hwhole⟩).1

/-- A run of 257 bytes to user space, and a run of one byte to an iovec of four gigabytes. -/
def longRun : Uio where
  uioIov := [⟨4096, 300⟩]
  uioResid := 300
  uioSegflg := .uioUserspace

def longIovec : Uio where
  uioIov := [⟨4096, 2 ^ 32⟩]
  uioResid := 2 ^ 32

/-- The first stores behind its buffer; for the second `uiomove` finds no room at all. -/
theorem uiofill_overruns :
    (longRun.uioResid = longRun.slots.length ∧ 256 ∈ uiofillStores 0 0 257 longRun ∧
      256 ∉ longRun.slots ∧ 256 ∉ List.range' 0 uiofillMaxbuf) ∧
    longIovec.uioResid = longIovec.slots.length ∧ (uiofill 0 1 longIovec).isSome ∧
      uiomove [0] longIovec = none := by
  refine ⟨⟨by decide +kernel, by decide +kernel, by decide +kernel, by decide +kernel⟩,
    ?_, ?_, ?_⟩
  · simp [longIovec, Uio.slots, iovSlots]
  · simp [uiofill, longIovec, uioLoop]
  · simp [uiomove, longIovec, uioLoop]

end Libuinet
