import Libuinet.CString
import Libuinet.Sockbuf
import Libuinet.Uio

namespace Libuinet

open CString

def enametoolong : Errno := .other 63

def hostIfnameSize : ℕ := 16

/-- The fields of `struct if_netmap_softc` that come from the configuration string. -/
structure NetmapConfig where
  isvale : Bool
  hostIfname : List Char
  queue : BitVec 16

def ifNetmapProcessConfigstr (sc : NetmapConfig) (configstr : List Char) :
    Option Errno × NetmapConfig :=
  if configstr.take 4 = ['v', 'a', 'l', 'e'] then
    let sc := { sc with isvale := true, queue := 0 }
    if hostIfnameSize - 1 < configstr.length then (some enametoolong, sc)
    else (none, { sc with hostIfname := configstr })
  else
    let sc := { sc with isvale := false }
    let name := configstr.takeWhile (· ≠ ':')
    match configstr.dropWhile (· ≠ ':') with
    | [] =>
      -- `strlcpy`
      (none, { sc with queue := 0, hostIfname := configstr.take (hostIfnameSize - 1) })
    | _ :: digits =>
      if name = [] then (some .einval, sc)
      else if digits = [] then (some .einval, sc)
      else if digits.dropWhile (isDigit 10) ≠ [] then (some .einval, sc)
      else
        let sc := { sc with queue := BitVec.ofNat 16 (strtoul digits 10).1 }
        -- an `int`, which is compared as a `size_t`
        let namelen := asInt name.length
        if (hostIfnameSize : ℤ) - 1 < namelen % 2 ^ 64 then (some enametoolong, sc)
        else (none, { sc with hostIfname := configstr.take namelen.toNat })

/-- The string asks for a queue of an interface: for queue 0 if it names none. -/
structure AsksFor (configstr name : List Char) (queue : ℕ) : Prop where
  named : name ≠ []
  short : name.length ≤ hostIfnameSize - 1
  small : queue < 2 ^ 16
  plain : ':' ∉ name
  text : configstr = name ∧ queue = 0 ∨ ∃ digits, configstr = name ++ ':' :: digits ∧
    digits ≠ [] ∧ (∀ c ∈ digits, isDigit 10 c) ∧ queue = number 10 digits

def HonoursConfig (configstr : List Char) : Prop :=
  ∀ sc sc', ifNetmapProcessConfigstr sc configstr = (none, sc') →
    AsksFor configstr sc'.hostIfname sc'.queue.toNat

/-- A string without a colon has a length that fits.  In one with a name, a colon and a number, the
number fits, and so does a name whose length comes out small as an `int`. -/
def ConfigFits (configstr : List Char) : Prop :=
  (':' ∉ configstr → configstr ≠ [] ∧ configstr.length ≤ hostIfnameSize - 1) ∧
  ∀ name digits, configstr = name ++ ':' :: digits → ':' ∉ name → name ≠ [] → digits ≠ [] →
    (∀ c ∈ digits, isDigit 10 c) → name.length % 2 ^ 32 ≤ hostIfnameSize - 1 →
    name.length ≤ hostIfnameSize - 1 ∧ number 10 digits < 2 ^ 16

variable {s : List Char}

theorem ne_colon (h : ':' ∉ s) : ∀ c ∈ s, decide (c ≠ ':') = true := by
  intro c hc
  rw [decide_eq_true_eq]
  rintro rfl
  exact h hc

theorem takeWhile_colon (h : ':' ∉ s) (t : List Char) :
    (s ++ ':' :: t).takeWhile (· ≠ ':') = s := by
  rw [List.takeWhile_append_of_pos (ne_colon h)]
  simp

theorem dropWhile_colon (h : ':' ∉ s) (t : List Char) :
    (s ++ ':' :: t).dropWhile (· ≠ ':') = ':' :: t := by
  rw [List.dropWhile_append_of_pos (ne_colon h)]
  simp

theorem dropWhile_of_no_colon (h : ':' ∉ s) : s.dropWhile (· ≠ ':') = [] := by
  rw [List.dropWhile_eq_nil_iff]
  exact ne_colon h

/-- There is one way to take a string apart at its first colon. -/
theorem colon_split_unique {s' t t' : List Char} (hs : ':' ∉ s) (hs' : ':' ∉ s')
    (h : s ++ ':' :: t = s' ++ ':' :: t') : s = s' ∧ t = t' := by
  have hname := congrArg (List.takeWhile (· ≠ ':')) h
  have htail := congrArg (List.dropWhile (· ≠ ':')) h
  rw [takeWhile_colon hs, takeWhile_colon hs'] at hname
  rw [dropWhile_colon hs, dropWhile_colon hs'] at htail
  exact ⟨hname, (List.cons.inj htail).2⟩

section Forms

variable {s name digits : List Char}

section

variable (hvale : s.take 4 ≠ ['v', 'a', 'l', 'e']) (hcolon : ':' ∉ s)
include hvale hcolon

theorem ifNetmapProcessConfigstr_no_colon (sc : NetmapConfig) :
    ifNetmapProcessConfigstr sc s =
      (none, { isvale := false, queue := 0, hostIfname := s.take (hostIfnameSize - 1) }) := by
  rw [ifNetmapProcessConfigstr, if_neg hvale, dropWhile_of_no_colon hcolon]

theorem honoursConfig_no_colon : HonoursConfig s ↔ s ≠ [] ∧ s.length ≤ hostIfnameSize - 1 := by
  simp only [HonoursConfig, ifNetmapProcessConfigstr_no_colon hvale hcolon]
  constructor
  · intro h
    have hasks := h ⟨false, [], 0⟩ _ rfl
    obtain ⟨hs, -⟩ | ⟨digits, hs, -⟩ := hasks.text
    · refine ⟨fun hnil => hasks.named (by simp [hnil]), ?_⟩
      rw [hs]
      exact hasks.short
    · exact absurd (by rw [hs]; simp) hcolon
  · rintro ⟨hne, hlen⟩ sc sc' h
    cases h
    have htake : s.take (hostIfnameSize - 1) = s := List.take_of_length_le hlen
    simp only [htake]
    exact ⟨hne, hlen, by decide, hcolon, .inl ⟨rfl, rfl⟩⟩

end

theorem asInt_length_le_iff (n : ℕ) :
    ¬ (hostIfnameSize : ℤ) - 1 < asInt n % 2 ^ 64 ↔ n % 2 ^ 32 ≤ hostIfnameSize - 1 := by
  rw [asInt, BitVec.toInt_ofInt, Int.bmod_def]
  unfold hostIfnameSize
  omega

theorem toNat_asInt_length {n : ℕ} (h : n % 2 ^ 32 ≤ hostIfnameSize - 1) :
    (asInt n).toNat = n % 2 ^ 32 := by
  rw [asInt, BitVec.toInt_ofInt, Int.bmod_def]
  unfold hostIfnameSize at h
  omega

section

variable (hvale : (name ++ ':' :: digits).take 4 ≠ ['v', 'a', 'l', 'e'])
include hvale

/-- A name, a colon and a number, with a length that comes out small. -/
theorem ifNetmapProcessConfigstr_colon (hplain : ':' ∉ name) (sc sc' : NetmapConfig) :
    ifNetmapProcessConfigstr sc (name ++ ':' :: digits) = (none, sc') ↔
      name ≠ [] ∧ digits ≠ [] ∧ (∀ c ∈ digits, isDigit 10 c) ∧
      name.length % 2 ^ 32 ≤ hostIfnameSize - 1 ∧
      sc' = { isvale := false, hostIfname := name.take (name.length % 2 ^ 32),
              queue := BitVec.ofNat 16 (min (number 10 digits) ulongMax) } := by
  simp only [ifNetmapProcessConfigstr, if_neg hvale, takeWhile_colon hplain,
    dropWhile_colon hplain]
  split_ifs with hname hdigits hnum hlen
  · simp [hname]
  · simp [hdigits]
  · rw [ne_eq, List.dropWhile_eq_nil_iff] at hnum
    simp [hnum]
  · have hlong : ¬ name.length % 2 ^ 32 ≤ hostIfnameSize - 1 :=
      fun h => (asInt_length_le_iff name.length).mpr h hlen
    exact iff_of_false (by simp) fun h => hlong h.2.2.2.1
  · rw [ne_eq, not_not, List.dropWhile_eq_nil_iff] at hnum
    have hshort := (asInt_length_le_iff name.length).mp hlen
    rw [strtoul_digits (by decide) (by decide) hdigits hnum, toNat_asInt_length hshort,
      List.take_append_of_le_length (Nat.mod_le _ _)]
    simp only [Prod.mk.injEq, true_and]
    constructor
    · rintro rfl
      exact ⟨hname, hdigits, hnum, hshort, rfl⟩
    · rintro ⟨-, -, -, -, rfl⟩
      rfl

theorem honoursConfig_colon (hplain : ':' ∉ name) :
    HonoursConfig (name ++ ':' :: digits) ↔ (name ≠ [] → digits ≠ [] →
      (∀ c ∈ digits, isDigit 10 c) → name.length % 2 ^ 32 ≤ hostIfnameSize - 1 →
      name.length ≤ hostIfnameSize - 1 ∧ number 10 digits < 2 ^ 16) := by
  simp only [HonoursConfig, ifNetmapProcessConfigstr_colon hvale hplain]
  constructor
  · intro h hname hdigits hnum hshort
    have hasks := h ⟨false, [], 0⟩ _ ⟨hname, hdigits, hnum, hshort, rfl⟩
    obtain ⟨hs, -⟩ | ⟨digits', hs, -, -, hqueue⟩ := hasks.text
    · exact absurd (by rw [← hs]; simp) hasks.plain
    · obtain ⟨hname', rfl⟩ := colon_split_unique hplain hasks.plain hs
      refine ⟨?_, ?_⟩
      · rw [hname']
        exact hasks.short
      · rw [← hqueue]
        exact hasks.small
  · rintro h sc sc' ⟨hname, hdigits, hnum, hshort, rfl⟩
    obtain ⟨hlen, hsmall⟩ := h hname hdigits hnum hshort
    have htake : name.take (name.length % 2 ^ 32) = name := by
      rw [Nat.mod_eq_of_lt (hlen.trans_lt (by decide)), List.take_length]
    have hqueue : (BitVec.ofNat 16 (min (number 10 digits) ulongMax)).toNat =
        number 10 digits := by
      rw [BitVec.toNat_ofNat]
      unfold ulongMax
      omega
    simp only [htake, hqueue]
    exact ⟨hname, hlen, hsmall, hplain, .inr ⟨digits, rfl, hdigits, hnum, rfl⟩⟩

end

end Forms

/-- A string that does not start with `vale` is honoured or rejected exactly if what is copied and
converted of it fits. -/
theorem netmap_configstr_iff {configstr : List Char}
    (hvale : configstr.take 4 ≠ ['v', 'a', 'l', 'e']) :
    HonoursConfig configstr ↔ ConfigFits configstr := by
  by_cases hcolon : ':' ∈ configstr
  · obtain ⟨name, digits, rfl, hplain⟩ := List.eq_append_cons_of_mem hcolon
    rw [honoursConfig_colon hvale hplain]
    constructor
    · intro h
      refine ⟨fun hno => absurd hcolon hno, ?_⟩
      intro name' digits' hs hplain'
      obtain ⟨rfl, rfl⟩ := colon_split_unique hplain hplain' hs
      exact h
    · exact fun h => h.2 name digits rfl hplain
  · rw [honoursConfig_no_colon hvale hcolon]
    constructor
    · intro h
      refine ⟨fun _ => h, ?_⟩
      rintro name digits rfl
      exact absurd (by simp) hcolon
    · exact fun h => h.1 hcolon

theorem netmap_configstr_em0 : HonoursConfig "em0:2".toList := by
  refine (netmap_configstr_iff (by decide)).mpr ⟨fun h => absurd (by decide) h, ?_⟩
  intro name digits hs hplain
  obtain ⟨rfl, rfl⟩ := colon_split_unique (s := "em0".toList) (t := "2".toList) (by decide) hplain
    ((show _ = _ by decide).trans hs)
  exact fun _ _ _ _ => by decide

/-- No name, a name of sixteen characters, and the queue 65536, which comes out as queue 0. -/
theorem netmap_configstr_unchecked : ¬ HonoursConfig [] ∧
    ¬ HonoursConfig "enp129s0f1np1vf3".toList ∧ ¬ HonoursConfig "em0:65536".toList := by
  refine ⟨?_, ?_, ?_⟩
  · rw [honoursConfig_no_colon (by decide) (by decide)]
    decide
  · rw [honoursConfig_no_colon (by decide) (by decide)]
    decide
  · change ¬ HonoursConfig ("em0".toList ++ ':' :: "65536".toList)
    rw [honoursConfig_colon (by decide) (by decide)]
    intro h
    have hdigits : ∀ c ∈ "65536".toList, isDigit 10 c := List.all_eq_true.mp (by decide)
    exact absurd (h (by decide) (by decide) hdigits (by decide)) (by decide)

end Libuinet
