import Mathlib.Data.List.Basic
import Mathlib.Data.BitVec

namespace Libuinet

/-- The names of the fields of requests and answers. -/
inductive NvName where
  | type
  | sysctlStr
  | sysctlOid
  | sysctlRespbufShmPath
  | sysctlRespbufShmLen
  | sysctlRespbufLen
  | sysctlReqbuf
  | sysctlErrno
  | sysctlRespbuf
  deriving DecidableEq

inductive NvValue where
  | number (n : ℕ)
  | string (s : String)
  | binary (b : List UInt8)

/-- `nvlist_t`: the pairs and the error that the first failed addition leaves. -/
@[ext] structure Nvlist where
  find : NvName → Option NvValue := fun _ => none
  nvlError : Option ℕ := none

def nvEinval : ℕ := 22
def nvEexist : ℕ := 17
def nvEnotconn : ℕ := 57

namespace Nvlist

def create : Nvlist := {}

variable (nvl : Nvlist)

def movePair (name : NvName) (value : NvValue) : Nvlist :=
  if nvl.nvlError.isSome then nvl
  else if (nvl.find name).isSome then { nvl with nvlError := some nvEexist }
  else { nvl with find := fun n => if n = name then some value else nvl.find n }

def addNumber (name : NvName) (n : ℕ) : Nvlist := nvl.movePair name (.number n)

def addString (name : NvName) (s : String) : Nvlist := nvl.movePair name (.string s)

def addBinary (name : NvName) (b : List UInt8) : Nvlist :=
  if nvl.nvlError.isSome then nvl
  else if b.length = 0 then { nvl with nvlError := some nvEinval }
  else nvl.movePair name (.binary b)

def number? (name : NvName) : Option ℕ :=
  match nvl.find name with
  | some (.number n) => some n
  | _ => none

def string? (name : NvName) : Option String :=
  match nvl.find name with
  | some (.string s) => some s
  | _ => none

def binary? (name : NvName) : Option (List UInt8) :=
  match nvl.find name with
  | some (.binary b) => some b
  | _ => none

end Nvlist

/-- What a variable is asked for by; a MIB name has at least one number. -/
inductive SysctlId where
  | str (name : String)
  | oid (head : BitVec 32) (tail : List (BitVec 32))
  deriving DecidableEq

/-- What a call of `uinet_sysctl` leaves: its error, its `*retval` and that many bytes. -/
structure SysctlAnswer where
  error : ℕ
  rval : ℕ
  bytes : List UInt8

/-- The sysctl tree behind the server: with a buffer it produces at most its size, without one
no bytes. -/
structure KernelSysctl where
  call : SysctlId → Option ℕ → Option (List UInt8) → SysctlAnswer
  length_bytes : ∀ id n new, (call id (some n) new).bytes.length = (call id (some n) new).rval
  rval_le : ∀ id n new, (call id (some n) new).rval ≤ n
  bytes_nobuf : ∀ id new, (call id none new).bytes = []

def uSysctlMaxReqBufLen : ℕ := 1048576

inductive ServerBuf where
  | null
  | shmMem
  | wbuf
  deriving DecidableEq

/-- The parts of `struct u_sysctl_state_t` that the request sets. -/
structure USysctlState where
  shmLen : Option ℕ := none
  wbufLen : ℕ := 0
  wbuf : Bool := false
  oldp : ServerBuf := .null
  sbuf : Option (List UInt8) := none

variable (kernel : KernelSysctl) (shmPath : String) (nvl : Nvlist) (r : SysctlRequest)

/-- The segment a request names, with its length.  The outer `none` is a request that is turned
down. -/
def handleShm : Option (Option ℕ) :=
  match nvl.string? .sysctlRespbufShmPath with
  | none => some none
  | some _ =>
    match nvl.number? .sysctlRespbufShmLen, nvl.number? .sysctlRespbufLen with
    | some shmLen, some _ => some (some shmLen)
    | _, _ => none

/-- The length of the response is checked against the maximum or against the segment. -/
def respbufFits (shmLen : Option ℕ) (wbufLen : ℕ) : Bool :=
  match shmLen with
  | none => wbufLen ≤ uSysctlMaxReqBufLen
  | some shmLen => wbufLen ≤ shmLen

/-- The two tests that choose the buffer.  There is no `else` between them in the source: with a
segment and a length the second one puts the value into a buffer of the server's own. -/
def chooseBuf (us : USysctlState) : USysctlState :=
  let us := if us.shmLen.isSome then { us with wbuf := false, oldp := .shmMem } else us
  if us.wbufLen = 0 then { us with wbuf := false, oldp := .null }
  else { us with wbuf := true, oldp := .wbuf }

def passiveSysctlHandleReq : Option USysctlState :=
  match handleShm nvl with
  | none => none
  | some shmLen =>
    let wbufLen := (nvl.number? .sysctlRespbufLen).getD 0
    if !respbufFits shmLen wbufLen then none
    else some { chooseBuf { shmLen, wbufLen } with sbuf := nvl.binary? .sysctlReqbuf }

def passiveSysctlHandleResp (us : USysctlState) (a : SysctlAnswer) : Option Nvlist :=
  if us.wbuf && a.error = 0 && us.wbufLen < a.rval then none
  else
    let resp := Nvlist.create.addNumber .sysctlErrno a.error
    let resp := if a.error = 0 && us.wbuf then resp.addBinary .sysctlRespbuf a.bytes else resp
    let resp := resp.addNumber .sysctlRespbufLen a.rval
    if resp.nvlError.isSome then none else some resp

/-- What `passive_sysctl_reqtype_str` and `passive_sysctl_reqtype_oid` do once they have the name:
the call is made without a length when there is no buffer. -/
def passiveSysctlReqtype (id : SysctlId) (nvl : Nvlist) : Option Nvlist :=
  match passiveSysctlHandleReq nvl with
  | none => none
  | some us =>
    let len := if us.oldp = .null then none else some us.wbufLen
    passiveSysctlHandleResp us (kernel.call id len us.sbuf)

def oidBytes : List (BitVec 32) → List UInt8
  | [] => []
  | w :: ws => .ofBitVec (w.extractLsb' 0 8) :: .ofBitVec (w.extractLsb' 8 8) ::
      .ofBitVec (w.extractLsb' 16 8) :: .ofBitVec (w.extractLsb' 24 8) :: oidBytes ws

/-- The array read back; `none` when its length is not that of an array of `int`s. -/
def oidOfBytes : List UInt8 → Option (List (BitVec 32))
  | [] => some []
  | a :: b :: c :: d :: bs =>
    (oidOfBytes bs).map ((d.toBitVec ++ c.toBitVec ++ b.toBitVec ++ a.toBitVec) :: ·)
  | _ => none

def passiveSysctlReqtypeStr : Option Nvlist :=
  match nvl.string? .sysctlStr with
  | none => none
  | some name => passiveSysctlReqtype kernel (.str name) nvl

def passiveSysctlReqtypeOid : Option Nvlist :=
  match (nvl.binary? .sysctlOid).bind oidOfBytes with
  | none | some [] => none
  | some (w :: ws) => passiveSysctlReqtype kernel (.oid w ws) nvl

/-- One round of the inner loop of `uinet_host_sysctl_listener_thread`. -/
def sysctlListener : Option Nvlist :=
  match nvl.string? .type with
  | none => none
  | some type =>
    if type.toList.take 10 = "sysctl_str".toList then passiveSysctlReqtypeStr kernel nvl
    else if type.toList.take 10 = "sysctl_oid".toList then passiveSysctlReqtypeOid kernel nvl
    else none

/-- A request of an application: whether `oldp` is there, `*oldlenp` if `oldlenp` is there, and
the new value, empty for none. -/
structure SysctlRequest where
  id : SysctlId
  oldp : Bool
  oldlenp : Option ℕ
  newp : List UInt8

/-- What the caller sees: the result with `errno` when it is set, `*oldlenp`, and what was
written to `oldp`. -/
structure SysctlReturn where
  retval : ℤ
  errno : Option ℕ
  oldlenp : Option ℕ
  written : List UInt8
  deriving DecidableEq

/-- The end of a call.  A fault is a copy to a null pointer, a copy whose length was never set,
or the abort of the library over a field that is not there. -/
inductive ClientOutcome where
  | fault
  | returned (r : SysctlReturn)
  deriving DecidableEq

def roundPage (n : ℕ) : ℕ := (n + 4095) / 4096 * 4096

def wantsShm (oldlenp : Option ℕ) : Bool :=
  match oldlenp with
  | none => false
  | some len => uSysctlMaxReqBufLen ≤ len

def sysctlFields : Nvlist :=
  let len := r.oldlenp.getD 0
  let nvl := if wantsShm r.oldlenp then
      (nvl.addString .sysctlRespbufShmPath shmPath).addNumber .sysctlRespbufShmLen (roundPage len)
    else nvl
  let nvl := if r.oldlenp.isSome then nvl.addNumber .sysctlRespbufLen len else nvl
  if 0 < r.newp.length then nvl.addBinary .sysctlReqbuf r.newp else nvl

/-- The call ends with the error of the answer and the length that was found. -/
def sysctlFinish (rErrno rLen : ℕ) (written : List UInt8) : SysctlReturn where
  retval := if rErrno = 0 then 0 else -1
  errno := if rErrno = 0 then none else some rErrno
  oldlenp := r.oldlenp.map fun _ => rLen
  written := written

def sysctlAnswered (resp : Nvlist) : ClientOutcome :=
  match resp.number? .sysctlErrno with
  | none => .returned ⟨0, none, r.oldlenp, []⟩
  | some rErrno =>
    match resp.binary? .sysctlRespbuf with
    | some rbuf =>
      if !r.oldp && 0 < rbuf.length then .fault
      else .returned (sysctlFinish r rErrno rbuf.length rbuf)
    | none =>
      -- `r_len` is read before it is set, and then taken from a field no answer has.
      if wantsShm r.oldlenp then .fault
      else .returned (sysctlFinish r rErrno ((resp.number? .sysctlRespbufLen).getD 0) [])

def uSysctlDoSysctl (serve : Nvlist → Option Nvlist) (shmPath : String) (nvl : Nvlist)
    (r : SysctlRequest) : ClientOutcome :=
  let nvl := sysctlFields shmPath nvl r
  match nvl.nvlError with
  | some error => .returned ⟨-1, some error, r.oldlenp, []⟩
  | none =>
    match serve nvl with
    | none => .returned ⟨-1, some nvEnotconn, r.oldlenp, []⟩
    | some resp => sysctlAnswered r resp

/-- The fields with which `u_sysctlbyname` and `u_sysctl` start a request. -/
def sysctlBase (id : SysctlId) : Nvlist :=
  match id with
  | .str name => (Nvlist.create.addString .type "sysctl_str").addString .sysctlStr name
  | .oid w ws => (Nvlist.create.addString .type "sysctl_oid").addBinary .sysctlOid
      (oidBytes (w :: ws))

def uSysctl : ClientOutcome :=
  uSysctlDoSysctl (sysctlListener kernel) shmPath (sysctlBase r.id) r

def SysctlRequest.oldlen : ℕ := r.oldlenp.getD 0

def SysctlRequest.newval : Option (List UInt8) :=
  if 0 < r.newp.length then some r.newp else none

def serverCall : SysctlAnswer :=
  kernel.call r.id (if r.oldlen = 0 then none else some r.oldlen) r.newval

/-- The client shows its caller what the call produced: the error, the length, and the bytes,
of which there are never more than there is room for. -/
def Transparent (a : SysctlAnswer) (o : ClientOutcome) : Prop :=
  ∃ ret, o = .returned ret ∧
    ret.retval = (if a.error = 0 then 0 else -1) ∧
    (a.error ≠ 0 → ret.errno = some a.error) ∧
    ret.oldlenp = r.oldlenp.map (fun _ => a.rval) ∧
    ret.written = (if r.oldp then a.bytes else []) ∧
    ret.written.length ≤ r.oldlen

theorem sysctlBase_find (id : SysctlId) :
    (sysctlBase id).nvlError = none ∧ (sysctlBase id).find .sysctlRespbufShmPath = none ∧
      (sysctlBase id).find .sysctlRespbufShmLen = none ∧
      (sysctlBase id).find .sysctlRespbufLen = none ∧
      (sysctlBase id).find .sysctlReqbuf = none := by
  cases id <;>
    simp [sysctlBase, Nvlist.create, Nvlist.addString, Nvlist.addBinary, Nvlist.movePair, oidBytes]

theorem Nvlist.movePair_of_none {nvl : Nvlist} {name : NvName} (herr : nvl.nvlError = none)
    (hfind : nvl.find name = none) (value : NvValue) :
    nvl.movePair name value =
      { find := fun n => if n = name then some value else nvl.find n, nvlError := none } := by
  simp [movePair, herr, hfind]

def requestFields : NvName → Option NvValue
  | .sysctlRespbufShmPath => if wantsShm r.oldlenp then some (.string shmPath) else none
  | .sysctlRespbufShmLen =>
    if wantsShm r.oldlenp then some (.number (roundPage r.oldlen)) else none
  | .sysctlRespbufLen => r.oldlenp.map .number
  | .sysctlReqbuf => r.newval.map .binary
  | name => (sysctlBase r.id).find name

def shmFields : NvName → Option NvValue
  | .sysctlRespbufLen | .sysctlReqbuf => none
  | name => requestFields shmPath r name

def lenFields : NvName → Option NvValue
  | .sysctlReqbuf => none
  | name => requestFields shmPath r name

variable {r : SysctlRequest} (kernel : KernelSysctl) (shmPath : String)

theorem sysctlFields_eq (r : SysctlRequest) :
    sysctlFields shmPath (sysctlBase r.id) r =
      { find := requestFields shmPath r, nvlError := none } := by
  obtain ⟨herr, hpath, hlen, hresp, hreq⟩ := sysctlBase_find r.id
  have hshm : (if wantsShm r.oldlenp then
      ((sysctlBase r.id).addString .sysctlRespbufShmPath shmPath).addNumber .sysctlRespbufShmLen
        (roundPage (r.oldlenp.getD 0)) else sysctlBase r.id) =
      { find := shmFields shmPath r, nvlError := none } := by
    split
    · next hwants =>
      rw [Nvlist.addString, Nvlist.movePair_of_none herr hpath, Nvlist.addNumber,
        Nvlist.movePair_of_none rfl (by simpa using hlen)]
      congr 1
      funext name
      cases name <;>
        simp [shmFields, requestFields, hwants, hresp, hreq, SysctlRequest.oldlen]
    · next hwants =>
      refine Nvlist.ext (funext fun name => ?_) herr
      cases name <;> simp [shmFields, requestFields, hwants, hpath, hlen, hresp, hreq]
  have hlens : (if r.oldlenp.isSome then
      Nvlist.addNumber { find := shmFields shmPath r, nvlError := none } .sysctlRespbufLen
        (r.oldlenp.getD 0) else { find := shmFields shmPath r, nvlError := none }) =
      { find := lenFields shmPath r, nvlError := none } := by
    cases holdlenp : r.oldlenp with
    | none =>
      refine Nvlist.ext (funext fun name => ?_) rfl
      cases name <;> simp [shmFields, lenFields, requestFields, holdlenp]
    | some len =>
      rw [Option.isSome_some, if_pos rfl, Nvlist.addNumber, Nvlist.movePair_of_none rfl rfl]
      congr 1
      funext name
      cases name <;> simp [shmFields, lenFields, requestFields, holdlenp]
  rw [sysctlFields, hshm, hlens]
  split
  · next hnew =>
    rw [Nvlist.addBinary, if_neg (by simp), if_neg (by omega), Nvlist.movePair_of_none rfl rfl]
    congr 1
    funext name
    cases name <;> simp [lenFields, requestFields, SysctlRequest.newval, hnew]
  · next hnew =>
    congr 1
    funext name
    cases name <;> simp [lenFields, requestFields, SysctlRequest.newval, hnew]

theorem le_roundPage (n : ℕ) : n ≤ roundPage n := by
  unfold roundPage
  omega

def requestState (r : SysctlRequest) : USysctlState where
  shmLen := if wantsShm r.oldlenp then some (roundPage r.oldlen) else none
  wbufLen := r.oldlen
  wbuf := r.oldlen ≠ 0
  oldp := if r.oldlen = 0 then .null else .wbuf
  sbuf := r.newval

/-- Every request is taken. -/
theorem passiveSysctlHandleReq_request (r : SysctlRequest) :
    passiveSysctlHandleReq { find := requestFields shmPath r, nvlError := none } =
      some (requestState r) := by
  have hlen : Nvlist.number? { find := requestFields shmPath r, nvlError := none }
      .sysctlRespbufLen = r.oldlenp := by
    cases h : r.oldlenp <;> simp [Nvlist.number?, requestFields, h]
  have hnew : Nvlist.binary? { find := requestFields shmPath r, nvlError := none }
      .sysctlReqbuf = r.newval := by
    cases h : r.newval <;> simp [Nvlist.binary?, requestFields, h]
  have hshm : handleShm { find := requestFields shmPath r, nvlError := none } =
      some (if wantsShm r.oldlenp then some (roundPage r.oldlen) else none) := by
    rw [handleShm, hlen]
    cases h : r.oldlenp with
    | none => simp [Nvlist.string?, requestFields, wantsShm, h]
    | some len =>
      by_cases hwants : wantsShm (some len) <;>
        simp [Nvlist.string?, Nvlist.number?, requestFields, h, hwants]
  have hfits : respbufFits (if wantsShm r.oldlenp then some (roundPage r.oldlen) else none)
      r.oldlen = true := by
    split
    · exact decide_eq_true (le_roundPage r.oldlen)
    · next hwants =>
      refine decide_eq_true ?_
      rw [SysctlRequest.oldlen]
      cases h : r.oldlenp with
      | none => exact Nat.zero_le _
      | some len =>
        rw [h, wantsShm, decide_eq_true_eq] at hwants
        exact (not_le.mp hwants).le
  simp only [passiveSysctlHandleReq, hshm, hlen, hnew]
  rw [show r.oldlenp.getD 0 = r.oldlen from rfl, hfits]
  simp only [Bool.not_true, Bool.false_eq_true, ↓reduceIte, chooseBuf, requestState]
  split_ifs <;> simp_all

theorem ofBytes_extract (w : BitVec 32) :
    w.extractLsb' 24 8 ++ w.extractLsb' 16 8 ++ w.extractLsb' 8 8 ++ w.extractLsb' 0 8 = w := by
  ext i hi
  simp only [BitVec.getElem_append, BitVec.getElem_extractLsb']
  split_ifs <;> grind

theorem oidOfBytes_oidBytes (ws : List (BitVec 32)) : oidOfBytes (oidBytes ws) = some ws := by
  induction ws with
  | nil => rfl
  | cons w ws ih =>
    rw [oidBytes, oidOfBytes, ih, Option.map_some]
    exact congrArg (some <| · :: ws) (ofBytes_extract w)

/-- The request reaches the handler of its type, which makes one call. -/
theorem sysctlListener_request (r : SysctlRequest) :
    sysctlListener kernel { find := requestFields shmPath r, nvlError := none } =
      passiveSysctlHandleResp (requestState r) (serverCall kernel r) := by
  have hreqtype : passiveSysctlReqtype kernel r.id
      { find := requestFields shmPath r, nvlError := none } =
      passiveSysctlHandleResp (requestState r) (serverCall kernel r) := by
    rw [passiveSysctlReqtype, passiveSysctlHandleReq_request]
    by_cases hlen : r.oldlen = 0 <;> simp [requestState, serverCall, hlen]
  rw [← hreqtype]
  cases hid : r.id with
  | str name =>
    have htype : requestFields shmPath r .type = some (.string "sysctl_str") := by
      simp [requestFields, sysctlBase, hid, Nvlist.create, Nvlist.addString, Nvlist.movePair]
    have hname : requestFields shmPath r .sysctlStr = some (.string name) := by
      simp [requestFields, sysctlBase, hid, Nvlist.create, Nvlist.addString, Nvlist.movePair]
    simp [sysctlListener, Nvlist.string?, htype, passiveSysctlReqtypeStr, hname]
  | oid w ws =>
    have htype : requestFields shmPath r .type = some (.string "sysctl_oid") := by
      simp [requestFields, sysctlBase, hid, Nvlist.create, Nvlist.addString, Nvlist.addBinary,
        Nvlist.movePair, oidBytes]
    have hname : requestFields shmPath r .sysctlOid = some (.binary (oidBytes (w :: ws))) := by
      simp [requestFields, sysctlBase, hid, Nvlist.create, Nvlist.addString, Nvlist.addBinary,
        Nvlist.movePair, oidBytes]
    simp [sysctlListener, Nvlist.string?, Nvlist.binary?, htype, passiveSysctlReqtypeOid, hname,
      oidOfBytes_oidBytes]

theorem length_bytes_serverCall (h : r.oldlen ≠ 0) :
    (serverCall kernel r).bytes.length = (serverCall kernel r).rval := by
  rw [serverCall, if_neg h]
  exact kernel.length_bytes _ _ _

theorem rval_serverCall_le (h : r.oldlen ≠ 0) : (serverCall kernel r).rval ≤ r.oldlen := by
  rw [serverCall, if_neg h]
  exact kernel.rval_le _ _ _

theorem bytes_serverCall_nil (h : r.oldlen = 0) : (serverCall kernel r).bytes = [] := by
  rw [serverCall, if_pos h]
  exact kernel.bytes_nobuf _ _

/-- What becomes of a request, by the answer of the call made for it.  A value is sent inside
the answer whenever there is one and no error, segment or not. -/
theorem uSysctl_eq (r : SysctlRequest) :
    uSysctl kernel shmPath r =
      let a := serverCall kernel r
      if r.oldlen ≠ 0 ∧ a.error = 0 then
        if a.rval = 0 then .returned ⟨-1, some nvEnotconn, r.oldlenp, []⟩
        else if !r.oldp then .fault
        else .returned (sysctlFinish r a.error a.rval a.bytes)
      else if wantsShm r.oldlenp then .fault
      else .returned (sysctlFinish r a.error a.rval []) := by
  rw [uSysctl, uSysctlDoSysctl, sysctlFields_eq]
  simp only [sysctlListener_request]
  generalize ha : serverCall kernel r = a
  by_cases hvalue : r.oldlen ≠ 0 ∧ a.error = 0
  · obtain ⟨hlen, herror⟩ := hvalue
    have hbytes : a.bytes.length = a.rval := by
      rw [← ha]
      exact length_bytes_serverCall kernel hlen
    have hle : a.rval ≤ r.oldlen := by
      rw [← ha]
      exact rval_serverCall_le kernel hlen
    by_cases hrval : a.rval = 0
    · simp [passiveSysctlHandleResp, requestState, hlen, herror, hrval, hbytes, Nvlist.create,
        Nvlist.addNumber, Nvlist.addBinary, Nvlist.movePair]
    · have hresp : passiveSysctlHandleResp (requestState r) a = some
          (((Nvlist.create.addNumber .sysctlErrno 0).addBinary .sysctlRespbuf a.bytes).addNumber
            .sysctlRespbufLen a.rval) := by
        simp [passiveSysctlHandleResp, requestState, hlen, herror, hrval, hbytes, hle,
          Nvlist.create, Nvlist.addNumber, Nvlist.addBinary, Nvlist.movePair]
      rw [hresp, if_pos ⟨hlen, herror⟩, if_neg hrval]
      simp [sysctlAnswered, Nvlist.create, Nvlist.addNumber, Nvlist.addBinary, Nvlist.movePair,
        Nvlist.number?, Nvlist.binary?, hbytes, hrval, herror, Nat.pos_of_ne_zero hrval]
  · have hresp : passiveSysctlHandleResp (requestState r) a = some
        ((Nvlist.create.addNumber .sysctlErrno a.error).addNumber .sysctlRespbufLen a.rval) := by
      by_cases herror : a.error = 0
      · have hlen : r.oldlen = 0 := by
          by_contra hlen
          exact hvalue ⟨hlen, herror⟩
        simp [passiveSysctlHandleResp, requestState, hlen, Nvlist.create, Nvlist.addNumber,
          Nvlist.movePair]
      · simp [passiveSysctlHandleResp, herror, Nvlist.create, Nvlist.addNumber, Nvlist.movePair]
    rw [hresp, if_neg hvalue]
    simp [sysctlAnswered, Nvlist.create, Nvlist.addNumber, Nvlist.movePair, Nvlist.number?,
      Nvlist.binary?]

/-- The answers that a request gets through to its caller: any when no room is offered; a value
that is not empty, with a place to put it; an error to a request without a segment, when the call
left no bytes or there is no place for them. -/
def GetsThrough (r : SysctlRequest) (a : SysctlAnswer) : Prop :=
  r.oldlen = 0 ∨ (a.error = 0 ∧ a.rval ≠ 0 ∧ r.oldp = true) ∨
    (a.error ≠ 0 ∧ wantsShm r.oldlenp = false ∧ (a.rval = 0 ∨ r.oldp = false))

theorem wantsShm_of_oldlen_zero (h : r.oldlen = 0) : wantsShm r.oldlenp = false := by
  rw [SysctlRequest.oldlen] at h
  cases hlenp : r.oldlenp with
  | none => rfl
  | some len =>
    rw [hlenp] at h
    rw [show len = 0 from h]
    rfl

/-- A returned call is transparent when it finishes with what the server's call left and writes
the bytes. -/
theorem transparent_finish_iff {a : SysctlAnswer} {written : List UInt8} :
    Transparent r a (.returned (sysctlFinish r a.error a.rval written)) ↔
      written = (if r.oldp then a.bytes else []) ∧ written.length ≤ r.oldlen := by
  constructor
  · rintro ⟨ret, heq, -, -, -, hwritten, hle⟩
    cases heq
    exact ⟨hwritten, hle⟩
  · rintro ⟨hwritten, hle⟩
    refine ⟨_, rfl, rfl, ?_, rfl, hwritten, hle⟩
    intro herror
    simp [sysctlFinish, herror]

theorem not_transparent_fault (r : SysctlRequest) (a : SysctlAnswer) :
    ¬ Transparent r a .fault := by
  rintro ⟨ret, heq, -⟩
  cases heq

/-- A call over the socket is transparent for exactly the answers that get through. -/
theorem uSysctl_transparent_iff (kernel : KernelSysctl) (shmPath : String) (r : SysctlRequest) :
    Transparent r (serverCall kernel r) (uSysctl kernel shmPath r) ↔
      GetsThrough r (serverCall kernel r) := by
  rw [uSysctl_eq]
  have hbytes := @length_bytes_serverCall r kernel
  have hle := @rval_serverCall_le r kernel
  have hnil := @bytes_serverCall_nil r kernel
  generalize serverCall kernel r = a at *
  simp only
  unfold GetsThrough
  split
  · next hvalue =>
    obtain ⟨hlen, herror⟩ := hvalue
    split
    · next hrval =>
      simp only [hlen, herror, hrval, ne_eq, not_true_eq_false, false_and, and_false, or_false,
        iff_false]
      rintro ⟨ret, heq, hretval, -⟩
      cases heq
      rw [if_pos herror] at hretval
      cases hretval
    · next hrval =>
      cases holdp : r.oldp with
      | false => simp [not_transparent_fault, hlen, herror]
      | true =>
        rw [Bool.not_true, if_neg Bool.false_ne_true, transparent_finish_iff, holdp, hbytes hlen]
        simp [hle hlen, herror, hrval]
  · next hnovalue =>
    cases hwants : wantsShm r.oldlenp with
    | true =>
      have hlen : r.oldlen ≠ 0 := by
        intro hlen
        rw [wantsShm_of_oldlen_zero hlen] at hwants
        cases hwants
      have herror : a.error ≠ 0 := fun herror => hnovalue ⟨hlen, herror⟩
      simp [not_transparent_fault, hlen, herror]
    | false =>
      rw [if_neg Bool.false_ne_true, transparent_finish_iff]
      by_cases hlen : r.oldlen = 0
      · simp [hlen, hnil hlen]
      · have herror : a.error ≠ 0 := fun herror => hnovalue ⟨hlen, herror⟩
        have hempty : a.bytes = [] ↔ a.rval = 0 := by
          rw [← hbytes hlen, List.length_eq_zero_iff]
        cases holdp : r.oldp <;> simp [hlen, herror, ← hempty, eq_comm]

def constKernel (error : ℕ) (value : List UInt8) : KernelSysctl where
  call _ len _ :=
    match len with
    | none => ⟨error, value.length, []⟩
    | some n => ⟨error, (value.take n).length, value.take n⟩
  length_bytes _ _ _ := rfl
  rval_le _ n value' := by simp
  bytes_nobuf _ _ := rfl

def largeRequest : SysctlRequest := ⟨.str "kern.x", true, some 2097152, []⟩

/-- Each of the other answers is lost: the error of a variable that is not there to a request
with a segment, a value for a caller that gave a length and no place, an empty value, and the part
of a value that fit. -/
theorem uSysctl_loses :
    uSysctl (constKernel 2 []) "/sysctl.1" largeRequest = .fault ∧
    ¬ Transparent largeRequest (serverCall (constKernel 2 []) largeRequest)
      (uSysctl (constKernel 2 []) "/sysctl.1" largeRequest) ∧
    uSysctl (constKernel 0 [1, 0, 0, 0]) "" ⟨.str "kern.x", false, some 4, []⟩ = .fault ∧
    uSysctl (constKernel 0 []) "" ⟨.str "kern.x", true, some 4, []⟩ =
      .returned ⟨-1, some 57, some 4, []⟩ ∧
    uSysctl (constKernel 12 [1, 2, 3, 4]) "" ⟨.str "kern.x", true, some 2, []⟩ =
      .returned ⟨-1, some 12, some 2, []⟩ := by
  have hlarge : uSysctl (constKernel 2 []) "/sysctl.1" largeRequest = .fault := by
    rw [uSysctl_eq]
    simp [serverCall, SysctlRequest.oldlen, constKernel, wantsShm, uSysctlMaxReqBufLen,
      largeRequest]
  refine ⟨hlarge, by rw [hlarge]; exact not_transparent_fault _ _, ?_, ?_, ?_⟩
  all_goals
    rw [uSysctl_eq]
    rfl

end Libuinet
