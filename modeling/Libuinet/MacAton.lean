import Libuinet.CString

namespace Libuinet

open CString

def etherAddrLen : ℕ := 6

/-- The loop of `uinet_mac_aton`: `left` groups are to be read from `p`, and `macout` is what has
been stored.  The end of the string stands for the NUL. -/
def macAtonLoop : ℕ → List Char → List UInt8 → ℕ × List UInt8
  | 0, _, macout => (0, macout)
  | left + 1, p, macout =>
    let (value, endp) := strtoul p 16
    let macout := macout ++ [UInt8.ofNat value]
    if p.length ≠ endp.length + 2 ∨ (left ≠ 0 ∧ endp.head? ≠ some ':') ∨
        (left = 0 ∧ endp.head? ≠ none) then
      (1, macout)
    else macAtonLoop left endp.tail macout

/-- `uinet_mac_aton`: the result, and what is stored at `macout`. -/
def uinetMacAton (macstr : Option (List Char)) : ℕ × List UInt8 :=
  match macstr with
  | none | some [] => (0, List.replicate etherAddrLen 0)
  | some s => macAtonLoop etherAddrLen s []

def joinGroups : List (Char × Char) → List Char
  | [] => []
  | [g] => [g.1, g.2]
  | g :: gs => g.1 :: g.2 :: ':' :: joinGroups gs

abbrev IsHex (c : Char) : Prop := isDigit 16 c = true

def IsFiller (c : Char) : Prop := isSpace c ∨ c = '+' ∨ c = '-'

instance : DecidablePred IsFiller := fun c =>
  inferInstanceAs (Decidable (isSpace c ∨ c = '+' ∨ c = '-'))

def hexByte (g : Char × Char) : UInt8 := UInt8.ofNat (digitVal g.1 * 16 + digitVal g.2)

def groupByte (g : Char × Char) : UInt8 :=
  if IsHex g.1 then hexByte g
  else if g.1 = '-' then UInt8.ofNat (256 - digitVal g.2) else UInt8.ofNat (digitVal g.2)

/-- The string is what `uinet_mac_aton` is for: six groups of two hexadecimal digits. -/
def IsMac (s : List Char) (gs : List (Char × Char)) : Prop :=
  s = joinGroups gs ∧ gs.length = etherAddrLen ∧ ∀ g ∈ gs, IsHex g.1 ∧ IsHex g.2

/-- The call succeeds on such strings only, and stores the six values. -/
def ReadsMac (s : List Char) : Prop :=
  ∀ macout, uinetMacAton (some s) = (0, macout) ↔ ∃ gs, IsMac s gs ∧ macout = gs.map hexByte

/-- Six groups, each with a hexadecimal digit at its end; one of them starts with white space or a
sign, and the others with a hexadecimal digit. -/
def HasFiller (s : List Char) : Prop :=
  ∃ gs, s = joinGroups gs ∧ gs.length = etherAddrLen ∧
    (∀ g ∈ gs, (IsHex g.1 ∨ IsFiller g.1) ∧ IsHex g.2) ∧ ∃ g ∈ gs, IsFiller g.1

theorem IsFiller.not_isHex {c : Char} (h : IsFiller c) : ¬ IsHex c := by
  intro hc
  have hle := toNat_of_isDigit (by decide) hc
  rcases h with h | rfl | rfl
  · rw [isSpace_of_isDigit (by decide) hc] at h
    exact Bool.false_ne_true h
  · exact absurd hle (by decide)
  · exact absurd hle (by decide)

theorem joinGroups_inj {gs hs : List (Char × Char)} (hlen : gs.length = hs.length)
    (h : joinGroups gs = joinGroups hs) : gs = hs := by
  induction gs generalizing hs with
  | nil => exact (List.length_eq_zero_iff.mp hlen.symm).symm
  | cons g gs ih =>
    obtain ⟨g', hs, rfl⟩ := List.exists_cons_of_length_eq_add_one hlen.symm
    have hlen' : gs.length = hs.length := by simpa using hlen
    cases gs with
    | nil =>
      obtain rfl : hs = [] := List.length_eq_zero_iff.mp hlen'.symm
      simp only [joinGroups, List.cons.injEq, and_true] at h
      rw [Prod.ext h.1 h.2]
    | cons g₂ gs =>
      obtain ⟨g₂', hs, rfl⟩ := List.exists_cons_of_length_eq_add_one hlen'.symm
      simp only [joinGroups, List.cons.injEq, true_and] at h
      rw [Prod.ext h.1 h.2.1, ih hlen' h.2.2]

def EndsGroup (endp : List Char) : Prop := ∀ c ∈ endp.head?, c = ':'

variable {b : Char} {endp : List Char}

theorem endsGroup_of_head {last : Prop} [Decidable last]
    (h : endp.head? = if last then none else some ':') : EndsGroup endp := by
  intro c hc
  rw [h] at hc
  split_ifs at hc
  · cases hc
  · exact (Option.some.inj hc).symm

theorem EndsGroup.takeWhile (h : EndsGroup endp) : endp.takeWhile (isDigit 16) = [] := by
  cases endp with
  | nil => rfl
  | cons c endp =>
    obtain rfl : c = ':' := h c rfl
    rfl

theorem EndsGroup.dropWhile (h : EndsGroup endp) : endp.dropWhile (isDigit 16) = endp := by
  cases endp with
  | nil => rfl
  | cons c endp =>
    obtain rfl : c = ':' := h c rfl
    rfl

theorem EndsGroup.skipHexMark (h : EndsGroup endp) (c : Char) :
    skipHexMark 16 (c :: endp) = c :: endp := by
  apply skipHexMark_of_head
  intro x hx
  obtain rfl : x = ':' := h x hx
  decide

theorem skipHexMark_two {a : Char} (hb : IsHex b) (endp : List Char) :
    skipHexMark 16 (a :: b :: endp) = a :: b :: endp := by
  apply skipHexMark_of_head
  rintro x ⟨⟩
  constructor <;> rintro rfl <;> exact absurd hb (by decide)

theorem digitVal_lt {c : Char} (h : IsHex c) : digitVal c < 16 := by
  simpa [IsHex, isDigit] using h

/-- One digit, behind whatever there is of white space and a sign. -/
theorem strtoul_one_digit {s : List Char} {neg : Bool}
    (hs : takeSign (s.dropWhile isSpace) = (neg, b :: endp)) (hb : IsHex b) (hend : EndsGroup endp)
    :
    strtoul s 16 =
      (if neg then (ulongMax + 1 - digitVal b) % (ulongMax + 1) else digitVal b, endp) := by
  have hlt := digitVal_lt hb
  have hnumber : number 16 [b] = digitVal b := by simp [number]
  have hsmall : ¬ ulongMax < digitVal b := by
    unfold ulongMax
    omega
  simp only [strtoul, hs, hend.skipHexMark, List.takeWhile_cons, List.dropWhile_cons, hb,
    if_true, hend.takeWhile, hend.dropWhile, hnumber, hsmall, if_false]
  rw [if_neg (by simp)]

theorem strtoul_filler {a : Char} (ha : IsFiller a) (hb : IsHex b) (hend : EndsGroup endp) :
    ∃ v, strtoul (a :: b :: endp) 16 = (v, endp) ∧ UInt8.ofNat v = groupByte (a, b) := by
  have hlt := digitVal_lt hb
  rw [groupByte, if_neg ha.not_isHex]
  rcases ha with ha | rfl | rfl
  · have hspace : (a :: b :: endp).dropWhile isSpace = b :: endp := by
      rw [List.dropWhile_cons_of_pos ha,
        List.dropWhile_cons_of_neg (by simp [isSpace_of_isDigit (by decide) hb])]
    have hsign := takeSign_of_isDigit (by decide) hb endp
    have hminus : a ≠ '-' := by
      rintro rfl
      exact absurd ha (by decide)
    refine ⟨_, strtoul_one_digit (by rw [hspace, hsign]) hb hend, ?_⟩
    rw [if_neg Bool.false_ne_true, if_neg hminus]
  · exact ⟨_, strtoul_one_digit rfl hb hend, by simp⟩
  · refine ⟨_, strtoul_one_digit rfl hb hend, ?_⟩
    rw [if_pos rfl, if_pos rfl]
    apply UInt8.toNat.inj
    simp only [UInt8.toNat_ofNat', ulongMax]
    omega

theorem strtoul_two_digits {a : Char} (ha : IsHex a) (hb : IsHex b) (hend : EndsGroup endp) :
    strtoul (a :: b :: endp) 16 = (digitVal a * 16 + digitVal b, endp) := by
  have hltₐ := digitVal_lt ha
  have hlt := digitVal_lt hb
  have hspace : (a :: b :: endp).dropWhile isSpace = a :: b :: endp :=
    List.dropWhile_cons_of_neg (by simp [isSpace_of_isDigit (by decide) ha])
  have hnumber : number 16 [a, b] = digitVal a * 16 + digitVal b := by simp [number]
  have hsmall : ¬ ulongMax < digitVal a * 16 + digitVal b := by
    unfold ulongMax
    omega
  simp only [strtoul, hspace, takeSign_of_isDigit (by decide) ha, skipHexMark_two hb,
    List.takeWhile_cons, List.dropWhile_cons, ha, hb, if_true, hend.takeWhile, hend.dropWhile,
    hnumber, hsmall, if_false]
  simp

theorem strtoul_group {a : Char} (ha : IsHex a ∨ IsFiller a) (hb : IsHex b)
    (hend : EndsGroup endp) :
    ∃ v, strtoul (a :: b :: endp) 16 = (v, endp) ∧ UInt8.ofNat v = groupByte (a, b) := by
  rcases ha with ha | ha
  · refine ⟨_, strtoul_two_digits ha hb hend, ?_⟩
    rw [groupByte, if_pos ha, hexByte]
  · exact strtoul_filler ha hb hend

/-- When `strtoul` stops behind two characters, they are such a group. -/
theorem group_of_strtoul {p : List Char} (h : p.length = (strtoul p 16).2.length + 2) :
    ∃ a b, p = a :: b :: (strtoul p 16).2 ∧ (IsHex a ∨ IsFiller a) ∧ IsHex b := by
  obtain hnone | ⟨spaces, sign, mark, digits, hp, hspaces, hsign, hmark, hne, hdigits⟩ :=
    strtoul_split p 16
  · rw [hnone] at h
    omega
  have hpos := List.length_pos_of_ne_nil hne
  have hcount : spaces.length + sign.length + mark.length + digits.length = 2 := by
    have hlen := congrArg List.length hp
    simp only [List.length_append] at hlen
    omega
  obtain rfl : mark = [] := by
    rcases hmark with h | h
    · exact h
    · omega
  rcases hsign with rfl | ⟨c, rfl, hc⟩
  · by_cases hdigits' : digits.length = 1
    · -- a blank and a digit
      obtain ⟨b, rfl⟩ := List.length_eq_one_iff.mp hdigits'
      obtain ⟨a, rfl⟩ := List.length_eq_one_iff.mp (show spaces.length = 1 by simp at hcount; omega)
      exact ⟨a, b, hp, .inr (.inl (hspaces a (by simp))), hdigits b (by simp)⟩
    · obtain ⟨a, b, rfl⟩ := List.length_eq_two.mp
        (show digits.length = 2 by simp at hcount; omega)
      obtain rfl : spaces = [] := List.length_eq_zero_iff.mp (by simpa using hcount)
      exact ⟨a, b, hp, .inl (hdigits a (by simp)), hdigits b (by simp)⟩
  · -- a sign and a digit
    simp only [List.length_singleton, List.length_nil] at hcount
    obtain ⟨b, rfl⟩ := List.length_eq_one_iff.mp (show digits.length = 1 by omega)
    obtain rfl : spaces = [] := List.length_eq_zero_iff.mp (by simpa using hcount)
    exact ⟨c, b, hp, .inr (.inr hc), hdigits b (by simp)⟩

section

variable (left : ℕ) (p : List Char) (macout out : List UInt8)

/-- One round of the loop: a group, and the character that has to follow it. -/
theorem macAtonLoop_succ_iff :
    macAtonLoop (left + 1) p macout = (0, out) ↔ ∃ a b endp, p = a :: b :: endp ∧
      (IsHex a ∨ IsFiller a) ∧ IsHex b ∧ endp.head? = (if left = 0 then none else some ':') ∧
      macAtonLoop left endp.tail (macout ++ [groupByte (a, b)]) = (0, out) := by
  constructor
  · intro h
    simp only [macAtonLoop] at h
    split at h
    · simp at h
    · next hok =>
      simp only [not_or, not_not, not_and] at hok
      obtain ⟨htwo, hcolon, hnul⟩ := hok
      obtain ⟨a, b, hp, ha, hb⟩ := group_of_strtoul htwo
      have hhead : (strtoul p 16).2.head? = if left = 0 then none else some ':' := by
        split_ifs with hleft
        · exact hnul hleft
        · exact hcolon hleft
      obtain ⟨v, hv, hbyte⟩ := strtoul_group ha hb (endsGroup_of_head hhead)
      rw [← hp] at hv
      rw [hv] at h
      refine ⟨a, b, _, hp, ha, hb, hhead, ?_⟩
      rw [← hbyte, hv]
      exact h
  · rintro ⟨a, b, endp, rfl, ha, hb, hhead, hrest⟩
    obtain ⟨v, hv, hbyte⟩ := strtoul_group ha hb (endsGroup_of_head hhead)
    simp only [macAtonLoop, hv, hhead, hbyte]
    rw [if_neg, hrest]
    split_ifs with hleft <;> simp [hleft]

/-- The loop succeeds on as many groups as are left, and on nothing else. -/
theorem macAtonLoop_eq_zero_iff :
    macAtonLoop (left + 1) p macout = (0, out) ↔ ∃ gs, p = joinGroups gs ∧
      gs.length = left + 1 ∧ (∀ g ∈ gs, (IsHex g.1 ∨ IsFiller g.1) ∧ IsHex g.2) ∧
      out = macout ++ gs.map groupByte := by
  induction left generalizing p macout with
  | zero =>
    rw [macAtonLoop_succ_iff]
    constructor
    · rintro ⟨a, b, endp, rfl, ha, hb, hhead, hout⟩
      obtain rfl : endp = [] := List.head?_eq_none_iff.mp (by simpa using hhead)
      refine ⟨[(a, b)], rfl, rfl, by simpa using ⟨ha, hb⟩, ?_⟩
      exact (congrArg Prod.snd hout).symm
    · rintro ⟨gs, rfl, hlen, hgs, rfl⟩
      obtain ⟨g, rfl⟩ := List.length_eq_one_iff.mp hlen
      obtain ⟨ha, hb⟩ := hgs g (by simp)
      exact ⟨g.1, g.2, [], rfl, ha, hb, rfl, rfl⟩
  | succ left ih =>
    rw [macAtonLoop_succ_iff]
    constructor
    · rintro ⟨a, b, endp, rfl, ha, hb, hhead, hout⟩
      obtain ⟨gs, htail, hlen, hgs, rfl⟩ := (ih _ _).mp hout
      obtain ⟨g', gs, rfl⟩ := List.exists_cons_of_length_eq_add_one hlen
      have hendp : endp = ':' :: joinGroups (g' :: gs) := by
        rw [← htail]
        exact (List.cons_head?_tail (by simpa using hhead)).symm
      refine ⟨(a, b) :: g' :: gs, by rw [hendp]; rfl, by simpa using hlen, ?_, by simp⟩
      rintro g (_ | ⟨_, hg⟩)
      · exact ⟨ha, hb⟩
      · exact hgs g hg
    · rintro ⟨gs, rfl, hlen, hgs, rfl⟩
      obtain ⟨g, gs, rfl⟩ := List.exists_cons_of_length_eq_add_one hlen
      have hlen' : gs.length = left + 1 := by simpa using hlen
      obtain ⟨g', gs, rfl⟩ := List.exists_cons_of_length_eq_add_one hlen'
      obtain ⟨ha, hb⟩ := hgs g (by simp)
      refine ⟨g.1, g.2, ':' :: joinGroups (g' :: gs), rfl, ha, hb, by simp, ?_⟩
      exact (ih _ _).mpr ⟨g' :: gs, rfl, hlen', fun x hx => hgs x (by simp [hx]), by simp⟩

end

theorem uinetMacAton_eq_zero_iff {s : List Char} (hs : s ≠ []) (macout : List UInt8) :
    uinetMacAton (some s) = (0, macout) ↔ ∃ gs, s = joinGroups gs ∧ gs.length = etherAddrLen ∧
      (∀ g ∈ gs, (IsHex g.1 ∨ IsFiller g.1) ∧ IsHex g.2) ∧ macout = gs.map groupByte := by
  obtain ⟨c, s, rfl⟩ := List.exists_cons_of_ne_nil hs
  exact macAtonLoop_eq_zero_iff 5 (c :: s) [] macout

theorem HasFiller.not_readsMac {s : List Char} (hs : s ≠ []) (h : HasFiller s) : ¬ ReadsMac s := by
  rintro hreads
  obtain ⟨gs, hs', hlen, hgs, g, hg, hfiller⟩ := h
  have hok := (uinetMacAton_eq_zero_iff hs _).mpr ⟨gs, hs', hlen, hgs, rfl⟩
  obtain ⟨gs', hmac, -⟩ := (hreads _).mp hok
  have heq : gs = gs' := joinGroups_inj (hlen.trans hmac.2.1.symm) (hs'.symm.trans hmac.1)
  exact hfiller.not_isHex (hmac.2.2 g (heq ▸ hg)).1

/-- `uinet_mac_aton` reads MAC addresses and rejects everything else, except for strings with a
blank or a sign in place of a digit, which it takes as well. -/
theorem uinet_mac_aton_iff {s : List Char} (hs : s ≠ []) : ReadsMac s ↔ ¬ HasFiller s := by
  constructor
  · exact fun hreads hfiller => hfiller.not_readsMac hs hreads
  · intro hno macout
    rw [uinetMacAton_eq_zero_iff hs]
    constructor
    · rintro ⟨gs, hs', hlen, hgs, rfl⟩
      have hhex : ∀ g ∈ gs, IsHex g.1 ∧ IsHex g.2 := by
        intro g hg
        rcases (hgs g hg).1 with h | h
        · exact ⟨h, (hgs g hg).2⟩
        · exact absurd ⟨gs, hs', hlen, hgs, g, hg, h⟩ hno
      refine ⟨gs, ⟨hs', hlen, hhex⟩, List.map_congr_left fun g hg => ?_⟩
      rw [groupByte, if_pos (hhex g hg).1]
    · rintro ⟨gs, ⟨hs', hlen, hhex⟩, rfl⟩
      refine ⟨gs, hs', hlen, fun g hg => ⟨.inl (hhex g hg).1, (hhex g hg).2⟩, ?_⟩
      refine List.map_congr_left fun g hg => ?_
      rw [groupByte, if_pos (hhex g hg).1]

theorem uinet_mac_aton_plain : ReadsMac "00:1B:21:3a:4f:ff".toList := by
  refine (uinet_mac_aton_iff (by decide)).mpr ?_
  rintro ⟨gs, hs, hlen, -, g, hg, hfiller⟩
  have hgs : gs = [('0', '0'), ('1', 'B'), ('2', '1'), ('3', 'a'), ('4', 'f'), ('f', 'f')] :=
    joinGroups_inj hlen (hs.symm.trans (by decide))
  have hnone : ∀ g ∈ gs, ¬ IsFiller g.1 := by
    rw [hgs]
    decide
  exact hnone g hg hfiller

/-- A blank, a plus and a minus sign in place of a digit are taken, and the minus counts. -/
theorem uinet_mac_aton_filler : ¬ ReadsMac " 1:+2:-3:04:05:06".toList ∧
    uinetMacAton (some " 1:+2:-3:04:05:06".toList) =
      (0, [0x01, 0x02, 0xfd, 0x04, 0x05, 0x06]) := by
  refine ⟨HasFiller.not_readsMac (by decide) ?_, by decide⟩
  exact ⟨[(' ', '1'), ('+', '2'), ('-', '3'), ('0', '4'), ('0', '5'), ('0', '6')], by decide,
    by decide, by decide, (' ', '1'), by decide, by decide⟩

end Libuinet
