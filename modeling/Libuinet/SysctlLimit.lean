import Mathlib.Tactic.Common
import Libuinet.RemoteSysctl

namespace Libuinet

/-- What `mmap` returns.  Its failure is `MAP_FAILED`, which the server's test for a null pointer
lets pass. -/
inductive MmapResult where
  | null
  | mapFailed
  | mapped
  deriving DecidableEq

structure ReqSystem where
  shmOpen : Bool
  mmap : MmapResult
  calloc : Bool

namespace ReqSystem

variable (sys : ReqSystem) (nvl : Nvlist)

def openShm : Option (Option ℕ) :=
  match handleShm nvl with
  | none => none
  | some none => some none
  | some (some shmLen) =>
    if !sys.shmOpen then none
    else if sys.mmap = .null then none
    else some (some shmLen)

def handleReq : Option USysctlState :=
  match sys.openShm nvl with
  | none => none
  | some shmLen =>
    let wbufLen := (nvl.number? .sysctlRespbufLen).getD 0
    if !respbufFits shmLen wbufLen then none
    else
      let us := chooseBuf { shmLen, wbufLen }
      if us.wbuf && !sys.calloc then none
      else some { us with sbuf := nvl.binary? .sysctlReqbuf }

end ReqSystem

def USysctlState.allocated (us : USysctlState) : ℕ := if us.wbuf then us.wbufLen else 0

/-- What the call of the server leaves, made without a length when there is no buffer. -/
def USysctlState.answer (us : USysctlState) (kernel : KernelSysctl) (id : SysctlId) :
    SysctlAnswer :=
  kernel.call id (if us.oldp = .null then none else some us.wbufLen) us.sbuf

variable {sys : ReqSystem}

/-- With a system that fails no call, a request is taken as `passiveSysctlHandleReq` takes it. -/
theorem ReqSystem.handleReq_eq (hopen : sys.shmOpen) (hmap : sys.mmap ≠ .null)
    (hcalloc : sys.calloc) (nvl : Nvlist) : sys.handleReq nvl = passiveSysctlHandleReq nvl := by
  have hshm : sys.openShm nvl = handleShm nvl := by
    unfold openShm
    split <;> simp_all
  rw [handleReq, passiveSysctlHandleReq, hshm]
  cases handleShm nvl with
  | none => rfl
  | some shmLen => simp [hcalloc]

/-- The answer that is sent to the client is that of `passiveSysctlReqtype`. -/
theorem passiveSysctlReqtype_eq (kernel : KernelSysctl) (id : SysctlId) (nvl : Nvlist) :
    passiveSysctlReqtype kernel id nvl =
      (passiveSysctlHandleReq nvl).bind fun us =>
        passiveSysctlHandleResp us (us.answer kernel id) := by
  unfold passiveSysctlReqtype
  cases passiveSysctlHandleReq nvl <;> rfl

/-- The buffer is the server's own whenever a length is asked for. -/
theorem chooseBuf_eq (shmLen : Option ℕ) (wbufLen : ℕ) :
    chooseBuf { shmLen, wbufLen } =
      { shmLen
        wbufLen
        wbuf := decide (wbufLen ≠ 0)
        oldp := if wbufLen = 0 then .null else .wbuf } := by
  unfold chooseBuf
  by_cases hlen : wbufLen = 0 <;> cases shmLen <;> simp [hlen]

variable {us : USysctlState}

/-- What is known of a request that is taken. -/
theorem ReqSystem.handleReq_some {nvl : Nvlist} :
    sys.handleReq nvl = some us ↔
      sys.openShm nvl = some us.shmLen ∧
      us.wbufLen = (nvl.number? .sysctlRespbufLen).getD 0 ∧
      respbufFits us.shmLen us.wbufLen ∧
      (us.wbufLen ≠ 0 → sys.calloc) ∧
      us.wbuf = decide (us.wbufLen ≠ 0) ∧
      us.oldp = (if us.wbufLen = 0 then .null else .wbuf) ∧
      us.sbuf = nvl.binary? .sysctlReqbuf := by
  rcases us with ⟨shm, len, wbuf, oldp, sbuf⟩
  unfold handleReq
  cases hshm : sys.openShm nvl with
  | none => simp
  | some shmLen =>
    simp only [chooseBuf_eq]
    constructor
    · intro h
      split at h
      · cases h
      · next hfits =>
        split at h
        · cases h
        · next hcalloc =>
          simp only [Option.some.injEq, USysctlState.mk.injEq] at h
          obtain ⟨rfl, rfl, rfl, rfl, rfl⟩ := h
          simp_all
    · rintro ⟨hshm', hlen, hfits, hcalloc, hwbuf, holdp, hsbuf⟩
      cases hshm'
      rw [hwbuf, holdp, hsbuf]
      subst hlen
      rw [if_neg (by simpa using hfits), if_neg]
      simpa using hcalloc

/-- The segment that is mapped is the one the fields of the request name. -/
theorem ReqSystem.openShm_some {nvl : Nvlist} {shmLen : ℕ} :
    sys.openShm nvl = some (some shmLen) ↔
      (nvl.string? .sysctlRespbufShmPath).isSome ∧
      nvl.number? .sysctlRespbufShmLen = some shmLen ∧
      (nvl.number? .sysctlRespbufLen).isSome ∧ sys.shmOpen ∧ sys.mmap ≠ .null := by
  unfold openShm handleShm
  cases nvl.string? .sysctlRespbufShmPath with
  | none => simp
  | some path =>
    cases nvl.number? .sysctlRespbufShmLen with
    | none => simp
    | some len =>
      cases nvl.number? .sysctlRespbufLen with
      | none => simp
      | some wbufLen =>
        cases sys.shmOpen <;> cases sys.mmap <;> simp

/-- An inline answer is what the call left, and is sent only from a buffer of the server's own. -/
theorem passiveSysctlHandleResp_respbuf {a : SysctlAnswer} {resp : Nvlist} {b : List UInt8}
    (h : passiveSysctlHandleResp us a = some resp) (hb : resp.binary? .sysctlRespbuf = some b) :
    us.wbuf = true ∧ b = a.bytes := by
  unfold passiveSysctlHandleResp at h
  split at h
  · cases h
  · by_cases hinline : a.error = 0 ∧ us.wbuf = true
    · refine ⟨hinline.2, ?_⟩
      by_cases hbytes : a.bytes = []
      · simp [hinline, hbytes, Nvlist.create, Nvlist.addNumber, Nvlist.addBinary,
          Nvlist.movePair] at h
      · simp [hinline, hbytes, Nvlist.create, Nvlist.addNumber, Nvlist.addBinary,
          Nvlist.movePair] at h
        subst h
        simpa [Nvlist.binary?] using hb.symm
    · have hnot : (decide (a.error = 0) && us.wbuf) = false := by simpa using hinline
      simp [hnot, Nvlist.create, Nvlist.addNumber, Nvlist.movePair] at h
      subst h
      simp [Nvlist.binary?] at hb

/-- A value that is found and fits is sent inline from the server's own buffer. -/
theorem passiveSysctlHandleResp_inline {a : SysctlAnswer} (hwbuf : us.wbuf = true)
    (herror : a.error = 0) (hbytes : a.bytes ≠ []) (hle : a.rval ≤ us.wbufLen) :
    ∃ resp, passiveSysctlHandleResp us a = some resp ∧
      resp.binary? .sysctlRespbuf = some a.bytes := by
  have hfits : ¬us.wbufLen < a.rval := by omega
  simp [passiveSysctlHandleResp, hwbuf, herror, hfits, hbytes, Nvlist.create, Nvlist.addNumber,
    Nvlist.addBinary, Nvlist.movePair, Nvlist.binary?]

/-- The server stays within its limit on a request: in what it allocates, in what it sends inline
whatever the tree behind it holds, and a segment that is mapped takes the value in place of an
inline answer. -/
structure WithinLimit (sys : ReqSystem) (nvl : Nvlist) : Prop where
  allocates : ∀ us, sys.handleReq nvl = some us → us.allocated ≤ uSysctlMaxReqBufLen
  inline : ∀ us kernel id resp b, sys.handleReq nvl = some us →
    passiveSysctlHandleResp us (us.answer kernel id) = some resp →
    resp.binary? .sysctlRespbuf = some b → b.length ≤ uSysctlMaxReqBufLen
  stored : ∀ us kernel id, sys.handleReq nvl = some us → us.shmLen.isSome →
    sys.mmap = .mapped → (us.answer kernel id).bytes ≠ [] → us.oldp = .shmMem
  no_inline : ∀ us, sys.handleReq nvl = some us → us.shmLen.isSome →
    sys.mmap = .mapped → us.wbuf = false

/-- The bytes of an answer fit the length that was asked for. -/
theorem USysctlState.answer_length_le (holdp : us.oldp = if us.wbufLen = 0 then .null else .wbuf)
    (kernel : KernelSysctl) (id : SysctlId) : (us.answer kernel id).bytes.length ≤ us.wbufLen := by
  unfold answer
  by_cases hlen : us.wbufLen = 0
  · rw [holdp, if_pos hlen, if_pos rfl, kernel.bytes_nobuf]
    exact Nat.zero_le _
  · rw [holdp, if_neg hlen, if_neg (by decide), kernel.length_bytes]
    exact kernel.rval_le _ _ _

/-- The limit is one on the length that a request which is taken asks for. -/
theorem withinLimit_iff (sys : ReqSystem) (nvl : Nvlist) :
    WithinLimit sys nvl ↔ ∀ us, sys.handleReq nvl = some us →
      us.wbufLen ≤ uSysctlMaxReqBufLen ∧
        (us.shmLen.isSome → sys.mmap = .mapped → us.wbufLen = 0) := by
  constructor
  · intro h us htaken
    obtain ⟨-, -, -, -, hwbuf, -⟩ := ReqSystem.handleReq_some.mp htaken
    constructor
    · have hle := h.allocates us htaken
      by_cases hzero : us.wbufLen = 0
      · omega
      · simpa [USysctlState.allocated, hwbuf, hzero] using hle
    · intro hshm hmapped
      simpa [hwbuf] using h.no_inline us htaken hshm hmapped
  · intro h
    constructor
    · intro us htaken
      have hle := (h us htaken).1
      unfold USysctlState.allocated
      split <;> omega
    · intro us kernel id resp b htaken hresp hb
      obtain ⟨-, -, -, -, -, holdp, -⟩ := ReqSystem.handleReq_some.mp htaken
      rw [(passiveSysctlHandleResp_respbuf hresp hb).2]
      exact (USysctlState.answer_length_le holdp kernel id).trans (h us htaken).1
    · intro us kernel id htaken hshm hmapped hbytes
      obtain ⟨-, -, -, -, -, holdp, -⟩ := ReqSystem.handleReq_some.mp htaken
      have hle := USysctlState.answer_length_le holdp kernel id
      rw [(h us htaken).2 hshm hmapped] at hle
      exact absurd (List.eq_nil_of_length_eq_zero (Nat.le_zero.mp hle)) hbytes
    · intro us htaken hshm hmapped
      obtain ⟨-, -, -, -, hwbuf, -⟩ := ReqSystem.handleReq_some.mp htaken
      simpa [hwbuf] using (h us htaken).2 hshm hmapped

/-- The limit holds of a request exactly when no length is asked for with a segment that is mapped,
and none above the limit with one whose mapping failed. -/
theorem sysctl_limit_iff (sys : ReqSystem) (nvl : Nvlist) :
    WithinLimit sys nvl ↔
      ∀ path shmLen len, nvl.string? .sysctlRespbufShmPath = some path →
        nvl.number? .sysctlRespbufShmLen = some shmLen →
        nvl.number? .sysctlRespbufLen = some len → len ≤ shmLen →
        sys.shmOpen → sys.mmap ≠ .null → sys.calloc →
        len ≤ uSysctlMaxReqBufLen ∧ (sys.mmap = .mapped → len = 0) := by
  rw [withinLimit_iff]
  constructor
  · intro h path shmLen len hpath hshm hlen hfits hopen hmap hcalloc
    -- The request is taken, with a buffer of the server's own of the length that is asked for.
    let us : USysctlState :=
      { shmLen := some shmLen
        wbufLen := len
        wbuf := decide (len ≠ 0)
        oldp := if len = 0 then .null else .wbuf
        sbuf := nvl.binary? .sysctlReqbuf }
    have htaken : sys.handleReq nvl = some us := by
      apply ReqSystem.handleReq_some.mpr
      refine ⟨ReqSystem.openShm_some.mpr ⟨by simp [hpath], hshm, by simp [hlen], hopen, hmap⟩,
        by simp [us, hlen], by simpa [us, respbufFits] using hfits, fun _ => hcalloc, rfl, rfl, rfl⟩
    exact ⟨(h us htaken).1, (h us htaken).2 rfl⟩
  · intro h us htaken
    obtain ⟨hshm, hlen, hfits, hcalloc, -⟩ := ReqSystem.handleReq_some.mp htaken
    cases hsome : us.shmLen with
    | none =>
      rw [hsome] at hfits
      exact ⟨by simpa [respbufFits] using hfits, by simp⟩
    | some shmLen =>
      by_cases hzero : us.wbufLen = 0
      · exact ⟨by omega, fun _ _ => hzero⟩
      · rw [hsome] at hshm hfits
        obtain ⟨hpath, hshmLen, hresp, hopen, hmap⟩ := ReqSystem.openShm_some.mp hshm
        obtain ⟨path, hpath⟩ := Option.isSome_iff_exists.mp hpath
        obtain ⟨len, hresp⟩ := Option.isSome_iff_exists.mp hresp
        have heq : us.wbufLen = len := by simpa [hresp] using hlen
        have hle : len ≤ shmLen := by simpa [respbufFits, heq] using hfits
        have hkept := h path shmLen len hpath hshmLen hresp hle hopen hmap (hcalloc hzero)
        rw [heq]
        exact ⟨hkept.1, fun _ => hkept.2⟩

def segmentRequest : Nvlist where
  find
    | .sysctlRespbufShmPath => some (.string "/seg")
    | .sysctlRespbufShmLen => some (.number 16777216)
    | .sysctlRespbufLen => some (.number 16777216)
    | _ => none

/-- The request passes the limit in all three ways: 16 MiB are allocated, they are sent inline, and
the segment is not used. -/
theorem sysctl_limit_passed :
    let kernel := constKernel 0 (List.replicate 16777216 0)
    ∃ us resp b, (ReqSystem.mk true .mapped true).handleReq segmentRequest = some us ∧
      us.allocated = 16777216 ∧ us.shmLen = some 16777216 ∧ us.oldp = .wbuf ∧
      passiveSysctlHandleResp us (us.answer kernel (.str "kern.x")) = some resp ∧
      resp.binary? .sysctlRespbuf = some b ∧ b.length = 16777216 ∧
      uSysctlMaxReqBufLen < 16777216 := by
  intro kernel
  let us : USysctlState :=
    { shmLen := some 16777216
      wbufLen := 16777216
      wbuf := true
      oldp := .wbuf
      sbuf := none }
  have htaken : (ReqSystem.mk true .mapped true).handleReq segmentRequest = some us := by
    apply ReqSystem.handleReq_some.mpr
    refine ⟨rfl, rfl, by simp [us, respbufFits], fun _ => rfl, by simp [us], by simp [us], rfl⟩
  have hlen : (us.answer kernel (.str "kern.x")).bytes.length = 16777216 := by
    show (List.take 16777216 (List.replicate 16777216 (0 : UInt8))).length = 16777216
    rw [List.length_take, List.length_replicate, Nat.min_self]
  obtain ⟨resp, hresp, hb⟩ := passiveSysctlHandleResp_inline
    (show us.wbuf = true from rfl) (show (us.answer kernel (.str "kern.x")).error = 0 from rfl)
    (by intro h; rw [h] at hlen; cases hlen)
    (kernel.rval_le _ _ _)
  exact ⟨us, resp, _, htaken, rfl, rfl, rfl, hresp, hb, hlen, by decide⟩

end Libuinet
