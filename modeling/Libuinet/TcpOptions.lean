import Libuinet.Tcpcb

namespace Libuinet

abbrev OptByte := BitVec 8

def tcpoptEol : OptByte := 0
def tcpoptNop : OptByte := 1
def tcpoptMaxseg : OptByte := 2
def tcpoptWindow : OptByte := 3
def tcpoptSackPermitted : OptByte := 4
def tcpoptSack : OptByte := 5
def tcpoptTimestamp : OptByte := 8

def tcpMaxWinshift : ℕ := 14

def tcpMaxolen : ℕ := 40

/-- The bytes of a short in network byte order. -/
def be16 (x : BitVec 16) : List OptByte := [x.extractLsb' 8 8, x.extractLsb' 0 8]

/-- The bytes of a long in network byte order. -/
def be32 (x : BitVec 32) : List OptByte :=
  [x.extractLsb' 24 8, x.extractLsb' 16 8, x.extractLsb' 8 8, x.extractLsb' 0 8]

def ofBe16 (a b : OptByte) : BitVec 16 := a ++ b

def ofBe32 (a b c d : OptByte) : BitVec 32 := a ++ b ++ c ++ d

@[simp] theorem ofBe16_be16 (x : BitVec 16) :
    ofBe16 (x.extractLsb' 8 8) (x.extractLsb' 0 8) = x := by
  unfold ofBe16
  ext i hi
  simp only [BitVec.getElem_append, BitVec.getElem_extractLsb']
  split_ifs <;> grind

@[simp] theorem ofBe32_be32 (x : BitVec 32) :
    ofBe32 (x.extractLsb' 24 8) (x.extractLsb' 16 8) (x.extractLsb' 8 8) (x.extractLsb' 0 8) =
      x := by
  unfold ofBe32
  ext i hi
  simp only [BitVec.getElem_append, BitVec.getElem_extractLsb']
  split_ifs <;> grind

/-- One option of `tcp_addoptions`: no-ops up to the length `r` modulo `m`, then the
option if it fits. -/
def addOption (set : Bool) (m r : ℕ) (opt : List OptByte) (optp : List OptByte) :
    List OptByte :=
  if !set || optp.length = tcpMaxolen then optp
  else
    let optp := optp ++ List.replicate ((m + r - optp.length % m) % m) tcpoptNop
    if tcpMaxolen < optp.length + opt.length then optp else optp ++ opt

def sackBytes (sacks : List Sackblk) : List OptByte :=
  sacks.flatMap fun sack => be32 sack.start ++ be32 sack.stop

def sackOption (sacks : List Sackblk) : List OptByte :=
  tcpoptSack :: BitVec.ofNat 8 (2 + sacks.length * 8) :: sackBytes sacks

/-- `TOF_SACK` in `tcp_addoptions`, with as many blocks as fit. -/
def addSack (opts : TcpOpt) (optp : List OptByte) : List OptByte :=
  if !opts.tofSack || optp.length = tcpMaxolen then optp
  else
    let optp := optp ++ List.replicate ((6 - optp.length % 4) % 4) tcpoptNop
    if tcpMaxolen < optp.length + 10 then optp
    else
      optp ++ sackOption (opts.toSacks.take ((tcpMaxolen - (optp.length + 2)) / 8))

/-- The options of `tcp_addoptions` that come before `TOF_SACK`. -/
def addFixed (opts : TcpOpt) : List OptByte :=
  let optp := addOption opts.tofMss 4 0
    (tcpoptMaxseg :: 4 :: be16 (BitVec.ofNat 16 opts.toMss)) []
  let optp := addOption opts.tofScale 2 1 [tcpoptWindow, 3, BitVec.ofNat 8 opts.toWscale] optp
  let optp := addOption opts.tofSackperm 2 0 [tcpoptSackPermitted, 2] optp
  addOption opts.tofTs 4 2
    (tcpoptTimestamp :: 10 :: (be32 opts.toTsval ++ be32 opts.toTsecr)) optp

def tcpAddoptions (opts : TcpOpt) : List OptByte :=
  let optp := addSack opts (addFixed opts)
  -- the end of the list and the padding are zero bytes both
  optp ++ List.replicate ((4 - optp.length % 4) % 4) tcpoptEol

def ofSackBytes : List OptByte → List Sackblk
  | a :: b :: c :: d :: a' :: b' :: c' :: d' :: body =>
    ⟨ofBe32 a b c d, ofBe32 a' b' c' d'⟩ :: ofSackBytes body
  | _ => []

/-- The cases of `tcp_dooptions`; `body` is the option without its kind and length. -/
def doOption (tcpDoSack syn : Bool) (opt : OptByte) (body : List OptByte) (opts : TcpOpt) :
    TcpOpt :=
  if opt = tcpoptMaxseg then
    match body with
    | [a, b] => if syn then { opts with tofMss := true, toMss := (ofBe16 a b).toNat } else opts
    | _ => opts
  else if opt = tcpoptWindow then
    match body with
    | [a] =>
      if syn then { opts with tofScale := true, toWscale := min a.toNat tcpMaxWinshift } else opts
    | _ => opts
  else if opt = tcpoptTimestamp then
    match body with
    | [a, b, c, d, a', b', c', d'] =>
      { opts with tofTs := true, toTsval := ofBe32 a b c d, toTsecr := ofBe32 a' b' c' d' }
    | _ => opts
  else if opt = tcpoptSackPermitted then
    if body = [] ∧ syn ∧ tcpDoSack then { opts with tofSackperm := true } else opts
  else if opt = tcpoptSack then
    if body ≠ [] ∧ body.length % 8 = 0 ∧ !syn then
      { opts with tofSack := true, toSacks := ofSackBytes body }
    else opts
  else opts

/-- The loop of `tcp_dooptions`; every round takes at least one byte. -/
def doOptions (tcpDoSack syn : Bool) : ℕ → List OptByte → TcpOpt → TcpOpt
  | n + 1, opt :: cp, opts =>
    if opt = tcpoptEol then opts
    else if opt = tcpoptNop then doOptions tcpDoSack syn n cp opts
    else
      match cp with
      | [] => opts
      | optlen :: cp =>
        if optlen.toNat < 2 ∨ cp.length + 2 < optlen.toNat then opts
        else
          doOptions tcpDoSack syn n (cp.drop (optlen.toNat - 2))
            (doOption tcpDoSack syn opt (cp.take (optlen.toNat - 2)) opts)
  | _, _, opts => opts

/-- `tcp_dooptions`; `syn` is the flag `TO_SYN`. -/
def tcpDooptions (tcpDoSack syn : Bool) (cp : List OptByte) : TcpOpt :=
  doOptions tcpDoSack syn cp.length cp {}

/-- What is left of the options of a SYN on the other side. -/
def TcpOpt.received (tcpDoSack : Bool) (opts : TcpOpt) : TcpOpt where
  tofMss := opts.tofMss
  toMss := if opts.tofMss then opts.toMss else 0
  tofScale := opts.tofScale
  toWscale := if opts.tofScale then min opts.toWscale tcpMaxWinshift else 0
  tofSackperm := opts.tofSackperm && tcpDoSack
  tofTs := opts.tofTs
  toTsval := if opts.tofTs then opts.toTsval else 0
  toTsecr := if opts.tofTs then opts.toTsecr else 0

/-- The words of 32 bits that the options before `TOF_SACK` take; `TOF_SACKPERM` shares one with the
option behind it. -/
def TcpOpt.words (opts : TcpOpt) : ℕ :=
  opts.tofMss.toNat + opts.tofScale.toNat + 3 * opts.tofTs.toNat

/-- The blocks that fit behind them. -/
def TcpOpt.sackRoom (opts : TcpOpt) : ℕ := (9 - opts.words) / 2

/-- What is left of the options of a segment that is not a SYN. -/
def TcpOpt.receivedData (opts : TcpOpt) : TcpOpt where
  tofTs := opts.tofTs
  toTsval := if opts.tofTs then opts.toTsval else 0
  toTsecr := if opts.tofTs then opts.toTsecr else 0
  tofSack := opts.tofSack && !opts.toSacks.isEmpty
  toSacks := if opts.tofSack then opts.toSacks.take opts.sackRoom else []

@[simp] theorem length_sackBytes (sacks : List Sackblk) :
    (sackBytes sacks).length = sacks.length * 8 := by
  induction sacks with
  | nil => rfl
  | cons sack sacks ih =>
    simp_all [sackBytes, be32]
    omega

@[simp] theorem ofSackBytes_sackBytes (sacks : List Sackblk) :
    ofSackBytes (sackBytes sacks) = sacks := by
  induction sacks with
  | nil => rfl
  | cons sack sacks ih => simpa [sackBytes, be32, ofSackBytes] using ih

section

variable (tcpDoSack syn : Bool) {n : ℕ} {opts : TcpOpt}

/-- More rounds than bytes make no difference. -/
theorem doOptions_congr {m : ℕ} {cp : List OptByte} (hn : cp.length ≤ n) (hm : cp.length ≤ m) :
    doOptions tcpDoSack syn n cp opts = doOptions tcpDoSack syn m cp opts := by
  induction n generalizing m cp opts with
  | zero =>
    obtain rfl := List.length_eq_zero_iff.mp (Nat.le_zero.mp hn)
    cases m <;> rfl
  | succ n ih =>
    cases cp with
    | nil => cases m <;> rfl
    | cons opt cp =>
      obtain ⟨m, rfl⟩ := Nat.exists_eq_add_of_le' (Nat.one_le_of_lt hm)
      rw [List.length_cons] at hn hm
      simp only [doOptions]
      split_ifs
      · rfl
      · exact ih (by omega) (by omega)
      · cases cp with
        | nil => rfl
        | cons optlen cp =>
          rw [List.length_cons] at hn hm
          dsimp only
          split_ifs
          · rfl
          · exact ih (by rw [List.length_drop]; omega) (by rw [List.length_drop]; omega)

theorem doOptions_eol (k : ℕ) :
    doOptions tcpDoSack syn n (List.replicate k tcpoptEol) opts = opts := by
  cases n <;> cases k <;> simp [doOptions, List.replicate_succ]

/-- Whatever is behind it, `optp` is read as `f`. -/
def Reads (optp : List OptByte) (f : TcpOpt → TcpOpt) : Prop :=
  ∀ cp opts, doOptions tcpDoSack syn (optp ++ cp).length (optp ++ cp) opts =
    doOptions tcpDoSack syn cp.length cp (f opts)

section

variable {tcpDoSack syn} {optp optp' : List OptByte} {f g : TcpOpt → TcpOpt}

theorem Reads.append (h : Reads tcpDoSack syn optp f) (h' : Reads tcpDoSack syn optp' g) :
    Reads tcpDoSack syn (optp ++ optp') (g ∘ f) := by
  intro cp opts
  rw [List.append_assoc, h, h']
  rfl

theorem Reads.nop (k : ℕ) : Reads tcpDoSack syn (List.replicate k tcpoptNop) id := by
  intro cp opts
  induction k with
  | zero => rfl
  | succ k ih =>
    rw [List.replicate_succ, List.cons_append, List.length_cons]
    simpa only [doOptions, if_neg (show tcpoptNop ≠ tcpoptEol by decide), ↓reduceIte] using ih

theorem Reads.option {opt optlen : OptByte} {body : List OptByte} (heol : opt ≠ tcpoptEol)
    (hnop : opt ≠ tcpoptNop) (hlen : optlen.toNat = body.length + 2) :
    Reads tcpDoSack syn (opt :: optlen :: body) (doOption tcpDoSack syn opt body) := by
  intro cp opts
  have hfits : ¬ (body.length + 2 < 2 ∨ body.length + cp.length + 2 < body.length + 2) := by omega
  simp only [List.cons_append, List.length_cons, List.length_append, doOptions, if_neg heol,
    if_neg hnop, hlen, if_neg hfits, Nat.add_sub_cancel, List.drop_left, List.take_left]
  apply doOptions_congr <;> omega

/-- An option that is not set is not read, and one that is set follows no-ops. -/
theorem Reads.addOption (set : Bool) (m r : ℕ) (opt optlen : OptByte) (body : List OptByte) {b : ℕ}
    (h : Reads tcpDoSack syn optp f ∧ optp.length ≤ b) (hlen : optlen.toNat = body.length + 2)
    (hopt : opt ≠ tcpoptEol ∧ opt ≠ tcpoptNop)
    (hfits : 0 < m ∧ b + m + optlen.toNat ≤ tcpMaxolen) :
    let optp' := Libuinet.addOption set m r (opt :: optlen :: body) optp
    Reads tcpDoSack syn optp' (if set then doOption tcpDoSack syn opt body ∘ f else f) ∧
      optp'.length ≤ b + m + optlen.toNat := by
  obtain ⟨hread, hb⟩ := h
  have hpad := Nat.mod_lt (m + r - optp.length % m) hfits.1
  cases set with
  | false => exact ⟨hread, show optp.length ≤ _ by omega⟩
  | true =>
    have hfull : optp.length ≠ tcpMaxolen := by omega
    have hroom : ¬ tcpMaxolen < optp.length + (m + r - optp.length % m) % m + optlen.toNat := by
      omega
    simp only [Libuinet.addOption, Bool.not_true, hfull, hroom, ← hlen, decide_false, Bool.or_self,
      Bool.false_eq_true, ↓reduceIte, List.length_append, List.length_replicate, List.length_cons]
    exact ⟨(hread.append (.nop _)).append (.option hopt.1 hopt.2 hlen), by omega⟩

end

theorem doOption_sackBytes (sacks : List Sackblk) :
    doOption tcpDoSack syn tcpoptSack (sackBytes sacks) opts =
      if syn || sacks.isEmpty then opts else { opts with tofSack := true, toSacks := sacks } := by
  have hnil : sackBytes sacks = [] ↔ sacks = [] := by
    simp only [← List.length_eq_zero_iff, length_sackBytes]
    omega
  change (if sackBytes sacks ≠ [] ∧ (sackBytes sacks).length % 8 = 0 ∧ !syn then
    { opts with tofSack := true, toSacks := ofSackBytes (sackBytes sacks) } else opts) = _
  rw [length_sackBytes, ofSackBytes_sackBytes]
  cases sacks <;> cases syn <;> simp [hnil]

theorem Reads.sackOption {sacks : List Sackblk} (h : sacks.length ≤ 4) :
    Reads tcpDoSack syn (sackOption sacks) fun opts =>
      if syn || sacks.isEmpty then opts else { opts with tofSack := true, toSacks := sacks } := by
  have hlen : (BitVec.ofNat 8 (2 + sacks.length * 8)).toNat = (sackBytes sacks).length + 2 := by
    rw [BitVec.toNat_ofNat, Nat.mod_eq_of_lt (by omega), length_sackBytes, Nat.add_comm]
  have hread : Reads tcpDoSack syn (Libuinet.sackOption sacks)
      (doOption tcpDoSack syn tcpoptSack (sackBytes sacks)) :=
    .option (by decide) (by decide) hlen
  intro cp opts
  rw [hread, doOption_sackBytes]

theorem doOption_maxseg {mss : ℕ} (h : mss < 2 ^ 16) :
    doOption tcpDoSack syn tcpoptMaxseg (be16 (BitVec.ofNat 16 mss)) opts =
      if syn then { opts with tofMss := true, toMss := mss } else opts := by
  change (if syn then { opts with tofMss := true, toMss := (ofBe16 _ _).toNat } else opts) = _
  rw [ofBe16_be16, BitVec.toNat_ofNat, Nat.mod_eq_of_lt h]

theorem doOption_window {wscale : ℕ} (h : wscale < 2 ^ 8) :
    doOption tcpDoSack syn tcpoptWindow [BitVec.ofNat 8 wscale] opts =
      if syn then { opts with tofScale := true, toWscale := min wscale tcpMaxWinshift }
      else opts := by
  change (if syn then { opts with tofScale := true, toWscale := min (BitVec.toNat _) _ } else opts)
    = _
  rw [BitVec.toNat_ofNat, Nat.mod_eq_of_lt h]

theorem doOption_sackPermitted :
    doOption tcpDoSack syn tcpoptSackPermitted [] opts =
      { opts with tofSackperm := opts.tofSackperm || syn && tcpDoSack } := by
  change (if _ ∧ syn ∧ tcpDoSack then { opts with tofSackperm := true } else opts) = _
  cases syn <;> cases tcpDoSack <;> simp

theorem doOption_timestamp (tsval tsecr : BitVec 32) :
    doOption tcpDoSack syn tcpoptTimestamp (be32 tsval ++ be32 tsecr) opts =
      { opts with tofTs := true, toTsval := tsval, toTsecr := tsecr } := by
  change ({ opts with tofTs := true, toTsval := ofBe32 _ _ _ _, toTsecr := ofBe32 _ _ _ _ }) = _
  rw [ofBe32_be32, ofBe32_be32]

end

section

variable (opts : TcpOpt)

theorem TcpOpt.words_le : opts.words ≤ 5 := by
  unfold TcpOpt.words
  cases opts.tofMss <;> cases opts.tofScale <;> cases opts.tofTs <;> decide

theorem length_addFixed :
    (addFixed opts).length = 4 * opts.words + 2 * (opts.tofSackperm && !opts.tofTs).toNat := by
  unfold addFixed TcpOpt.words
  cases opts.tofMss <;> cases opts.tofScale <;> cases opts.tofSackperm <;> cases opts.tofTs <;>
    simp [addOption, be16, be32, tcpMaxolen]

variable {opts} in
/-- No-ops bring the option to where its blocks start on a word. -/
theorem addSack_addFixed (hsack : opts.tofSack = true) :
    ∃ k, (addFixed opts).length + k = 4 * opts.words + 2 ∧
      addSack opts (addFixed opts) = addFixed opts ++ (List.replicate k tcpoptNop ++
        sackOption (opts.toSacks.take opts.sackRoom)) := by
  have hwords := opts.words_le
  have hperm := (opts.tofSackperm && !opts.tofTs).toNat_le
  have hfixed := length_addFixed opts
  have hk : (addFixed opts).length + (6 - (addFixed opts).length % 4) % 4 = 4 * opts.words + 2 := by
    omega
  have hfull : (addFixed opts).length ≠ tcpMaxolen := by
    unfold tcpMaxolen
    omega
  have hfits : ¬ tcpMaxolen < 4 * opts.words + 2 + 10 := by
    unfold tcpMaxolen
    omega
  have hroom : (tcpMaxolen - (4 * opts.words + 2 + 2)) / 8 = opts.sackRoom := by
    unfold tcpMaxolen TcpOpt.sackRoom
    omega
  refine ⟨_, hk, ?_⟩
  simp only [addSack, hsack, hfull, hfits, hk, hroom, List.length_append, List.length_replicate,
    List.append_assoc, Bool.not_true, Bool.false_or, decide_false, Bool.false_eq_true, ↓reduceIte]

theorem tcpAddoptions_eq :
    ((tcpAddoptions opts).length ≤ tcpMaxolen ∧ (tcpAddoptions opts).length % 4 = 0) ∧
      ∃ k, tcpAddoptions opts = addFixed opts ++
        if opts.tofSack then
          List.replicate k tcpoptNop ++ sackOption (opts.toSacks.take opts.sackRoom)
        else List.replicate k tcpoptEol := by
  have hwords := opts.words_le
  have hperm := (opts.tofSackperm && !opts.tofTs).toNat_le
  have hfixed := length_addFixed opts
  -- the padding is the one of the list the options make
  have hpad (optp : List OptByte) (hadd : addSack opts (addFixed opts) = optp)
      (hle : optp.length ≤ tcpMaxolen) :
      (tcpAddoptions opts).length ≤ tcpMaxolen ∧ (tcpAddoptions opts).length % 4 = 0 := by
    rw [tcpAddoptions, hadd, List.length_append, List.length_replicate]
    unfold tcpMaxolen at hle ⊢
    omega
  cases hsack : opts.tofSack with
  | false =>
    have hadd : addSack opts (addFixed opts) = addFixed opts := by
      simp only [addSack, hsack, Bool.not_false, Bool.true_or, ↓reduceIte]
    refine ⟨hpad _ hadd ?_, _, by rw [tcpAddoptions, hadd]; rfl⟩
    unfold tcpMaxolen
    omega
  | true =>
    obtain ⟨k, hk, hadd⟩ := addSack_addFixed hsack
    have hlen : (addFixed opts ++ (List.replicate k tcpoptNop ++
        sackOption (opts.toSacks.take opts.sackRoom))).length =
          4 * opts.words + 4 + 8 * min opts.sackRoom opts.toSacks.length := by
      simp only [sackOption, List.length_append, List.length_replicate, List.length_cons,
        length_sackBytes, List.length_take]
      omega
    refine ⟨hpad _ hadd ?_, k, ?_⟩
    · rw [hlen]
      unfold tcpMaxolen TcpOpt.sackRoom
      omega
    · have hword : (4 - (4 * opts.words + 4 + 8 * min opts.sackRoom opts.toSacks.length) % 4) % 4 =
        0 := by omega
      rw [tcpAddoptions, hadd, hlen, hword, List.replicate_zero, List.append_nil, if_pos rfl]

variable {opts}

/-- What the other side makes of the fixed options. -/
theorem reads_addFixed (tcpDoSack syn : Bool) (hmss : opts.toMss < 2 ^ 16)
    (hscale : opts.toWscale < 2 ^ 8) :
    ∃ f, Reads tcpDoSack syn (addFixed opts) f ∧
      f {} = if syn then opts.received tcpDoSack
        else { opts with tofSack := false }.receivedData := by
  have hnil : Reads tcpDoSack syn [] id ∧ ([] : List OptByte).length ≤ 0 := ⟨fun _ _ => rfl, le_rfl⟩
  have hmaxseg := Reads.addOption opts.tofMss 4 0 tcpoptMaxseg 4
    (be16 (BitVec.ofNat 16 opts.toMss)) hnil rfl (by decide) (by decide)
  have hwindow := Reads.addOption opts.tofScale 2 1 tcpoptWindow 3 [BitVec.ofNat 8 opts.toWscale]
    hmaxseg rfl (by decide) (by decide)
  have hperm := Reads.addOption opts.tofSackperm 2 0 tcpoptSackPermitted 2 [] hwindow rfl
    (by decide) (by decide)
  have hts := Reads.addOption opts.tofTs 4 2 tcpoptTimestamp 10
    (be32 opts.toTsval ++ be32 opts.toTsecr) hperm rfl (by decide) (by decide)
  refine ⟨_, hts.1, ?_⟩
  clear hnil hmaxseg hwindow hperm hts
  cases hm : opts.tofMss <;> cases hw : opts.tofScale <;> cases hp : opts.tofSackperm <;>
    cases ht : opts.tofTs <;> cases syn <;>
    simp [TcpOpt.received, TcpOpt.receivedData, doOption_maxseg _ _ hmss,
      doOption_window _ _ hscale, doOption_sackPermitted, doOption_timestamp, hm, hw, hp, ht]

/-- Options survive being written and read. -/
theorem tcpDooptions_tcpAddoptions (tcpDoSack syn : Bool) (opts : TcpOpt)
    (hmss : opts.toMss < 2 ^ 16) (hscale : opts.toWscale < 2 ^ 8) :
    tcpDooptions tcpDoSack syn (tcpAddoptions opts) =
      if syn then opts.received tcpDoSack else opts.receivedData := by
  have hwords := opts.words_le
  have hlen : (opts.toSacks.take opts.sackRoom).length ≤ 4 := by
    rw [List.length_take, TcpOpt.sackRoom]
    omega
  have hempty : (opts.toSacks.take opts.sackRoom).isEmpty = opts.toSacks.isEmpty := by
    obtain ⟨m, hm⟩ : ∃ m, opts.sackRoom = m + 1 :=
      ⟨opts.sackRoom - 1, by
        unfold TcpOpt.sackRoom
        omega⟩
    rw [hm]
    cases opts.toSacks <;> rfl
  obtain ⟨-, k, heq⟩ := tcpAddoptions_eq opts
  obtain ⟨f, hfixed, hf⟩ := reads_addFixed tcpDoSack syn hmss hscale
  rw [tcpDooptions, heq, hfixed, hf]
  cases hsack : opts.tofSack with
  | false =>
    rw [if_neg Bool.false_ne_true, doOptions_eol]
    simp [TcpOpt.receivedData, hsack]
  | true =>
    have hread := ((Reads.nop k).append (Reads.sackOption tcpDoSack syn hlen)) []
    rw [List.append_nil] at hread
    rw [if_pos rfl, hread, Function.comp_apply, hempty]
    cases syn <;> cases hnone : opts.toSacks.isEmpty <;>
      simp_all [TcpOpt.receivedData, TcpOpt.sackRoom, doOptions]

end

section

variable (tcpDoSack syn : Bool)

theorem doOption_toWscale_le (opt : OptByte) (body : List OptByte) {opts : TcpOpt}
    (h : opts.toWscale ≤ tcpMaxWinshift) :
    (doOption tcpDoSack syn opt body opts).toWscale ≤ tcpMaxWinshift := by
  unfold doOption
  split_ifs
  all_goals try split
  all_goals first
    | exact h
    | exact min_le_right _ _

/-- Whatever is read, the window scale is one that can be used. -/
theorem doOptions_toWscale_le (n : ℕ) (cp : List OptByte) (opts : TcpOpt)
    (h : opts.toWscale ≤ tcpMaxWinshift) :
    (doOptions tcpDoSack syn n cp opts).toWscale ≤ tcpMaxWinshift := by
  induction n, cp, opts using doOptions.induct tcpDoSack syn with
  | case1 n cp opts => simpa [doOptions] using h
  | case2 n cp opts hne ih => simpa [doOptions, hne] using ih h
  | case3 n opts opt hne hne' => simpa [doOptions, hne, hne'] using h
  | case4 n opts opt hne hne' optlen cp hbad =>
    rw [doOptions, if_neg hne, if_neg hne', if_pos hbad]
    exact h
  | case5 n opts opt hne hne' optlen cp hok ih =>
    rw [doOptions, if_neg hne, if_neg hne', if_neg hok]
    exact ih (doOption_toWscale_le tcpDoSack syn _ _ h)
  | case6 n cp opts hnot => simpa [doOptions] using h

theorem tcpDooptions_toWscale_le (cp : List OptByte) :
    (tcpDooptions tcpDoSack syn cp).toWscale ≤ tcpMaxWinshift :=
  doOptions_toWscale_le tcpDoSack syn cp.length cp {} (Nat.zero_le _)

end

/-- What is written fits a header, in words of 32 bits.  A SYN hands it on, and any other segment
its timestamps and as many blocks as there is room for. -/
theorem tcp_options_round_trip (tcpDoSack : Bool) (opts : TcpOpt) (hmss : opts.toMss < 2 ^ 16)
    (hscale : opts.toWscale < 2 ^ 8) :
    let cp := tcpAddoptions opts
    (cp.length ≤ tcpMaxolen ∧ cp.length % 4 = 0) ∧
      tcpDooptions tcpDoSack true cp = opts.received tcpDoSack ∧
      tcpDooptions tcpDoSack false cp = opts.receivedData := by
  refine ⟨(tcpAddoptions_eq opts).1, ?_, ?_⟩
  · exact tcpDooptions_tcpAddoptions tcpDoSack true opts hmss hscale
  · exact tcpDooptions_tcpAddoptions tcpDoSack false opts hmss hscale

/-- With timestamps there is room for three of four blocks. -/
theorem tcp_options_round_trip_sacks :
    let sacks : List Sackblk := [⟨8, 9⟩, ⟨6, 7⟩, ⟨4, 5⟩, ⟨2, 3⟩]
    tcpDooptions true false (tcpAddoptions
        { tofTs := true, toTsval := 1, tofSack := true, toSacks := sacks }) =
      { tofTs := true, toTsval := 1, tofSack := true, toSacks := sacks.take 3 } :=
  (tcp_options_round_trip true _ (by decide) (by decide)).2.2

end Libuinet
