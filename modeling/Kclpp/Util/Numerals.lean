import Kclpp.Util.SafeStrToUll

/-!
# Which texts are read as numbers

`safeStrToUll` takes what `strtoull` makes of a text: it looks at where the digits end
only to see that there are some, and at `errno` without clearing it. So blanks, a sign
and whatever follows the digits are let through, and the largest number is refused where
an earlier overflow has left `ERANGE`. `readsExactly_iff` says which texts are read as
they should be, with the sign, the digits and the value that `strtoull` finds in a text.
-/

namespace Kclpp

namespace Util

/-- The digits that `strtoull` converts: those after the blanks and the sign. -/
def digitsOf (text : List Char) : List Char :=
  (splitSign (text.dropWhile isSpace)).2.takeWhile Char.isDigit

def isNegative (text : List Char) : Bool := (splitSign (text.dropWhile isSpace)).1

def magnitude (text : List Char) : ℕ := Nat.ofDigitChars 10 (digitsOf text) 0

def signedValue (text : List Char) : UInt64 :=
  if isNegative text then -(UInt64.ofNat (magnitude text))
  else UInt64.ofNat (magnitude text)

/-- The texts that denote numbers: digits, and nothing else. -/
def IsDecimal (text : List Char) : Prop := text ≠ [] ∧ ∀ c ∈ text, c.isDigit

instance decidableIsDecimal (text : List Char) : Decidable (IsDecimal text) :=
  decidable_of_iff (text.isEmpty = false ∧ text.all Char.isDigit = true) (by
    rw [List.isEmpty_eq_false_iff, List.all_eq_true, IsDecimal])

theorem length_splitSign_le (text : List Char) :
    (splitSign text).2.length ≤ text.length := by
  unfold splitSign
  split
  · exact Nat.le_succ _
  · exact Nat.le_succ _
  · exact le_rfl

theorem endPtr_strtoull_eq_zero_iff (errno : Errno) (text : List Char) :
    (strtoull errno text).endPtr = 0 ↔ digitsOf text = [] := by
  have hdrop := (List.dropWhile_sublist isSpace (l := text)).length_le
  have hsign := length_splitSign_le (text.dropWhile isSpace)
  have htake := (List.takeWhile_sublist Char.isDigit
    (l := (splitSign (text.dropWhile isSpace)).2)).length_le
  unfold strtoull
  dsimp only
  change _ ↔ (splitSign (text.dropWhile isSpace)).2.takeWhile Char.isDigit = []
  split_ifs with hempty hlarge
  · exact iff_of_true rfl (List.isEmpty_iff.mp hempty)
  all_goals
    have hne : (splitSign (text.dropWhile isSpace)).2.takeWhile Char.isDigit ≠ [] :=
      fun h => hempty (List.isEmpty_iff.mpr h)
    have hpos := List.length_pos_iff.mpr hne
    refine iff_of_false ?_ hne
    dsimp only
    omega

theorem strtoull_of_digits {text : List Char} (h : digitsOf text ≠ []) (errno : Errno) :
    ((strtoull errno text).value, (strtoull errno text).errno) =
      if ULLONG_MAX.toNat < magnitude text then (ULLONG_MAX, ERANGE)
      else (signedValue text, errno) := by
  have hempty : ((splitSign (text.dropWhile isSpace)).2.takeWhile Char.isDigit).isEmpty ≠
      true := fun hnil => h (List.isEmpty_iff.mp hnil)
  unfold strtoull
  dsimp only
  rw [if_neg hempty]
  unfold magnitude digitsOf signedValue isNegative
  split_ifs <;> rfl

/-- An overflow that was left behind is taken for one of this text. -/
def TakenForOverflow (errno : Errno) (text : List Char) : Prop :=
  errno = ERANGE ∧ magnitude text = if isNegative text then 1 else 2 ^ 64 - 1

/-- Of the numbers that fit, the value is the largest one for that number, and for
minus one. -/
theorem signedValue_eq_max_iff {text : List Char} (hfits : magnitude text < 2 ^ 64) :
    signedValue text = ULLONG_MAX ↔
      magnitude text = if isNegative text then 1 else 2 ^ 64 - 1 := by
  have hmax : ULLONG_MAX.toNat = 2 ^ 64 - 1 := rfl
  have hvalue : (UInt64.ofNat (magnitude text)).toNat = magnitude text :=
    UInt64.toNat_ofNat_of_lt' hfits
  rw [← UInt64.toNat_inj, hmax]
  unfold signedValue
  split_ifs with hnegative
  · have hsize : UInt64.size = 2 ^ 64 := rfl
    rw [UInt64.toNat_neg, hvalue, hsize]
    omega
  · rw [hvalue]

theorem safeStrToUll_eq_ok_iff (errno : Errno) (numStr : String) (n : UInt64) :
    (safeStrToUll errno numStr).1 = .ok n ↔
      digitsOf numStr.toList ≠ [] ∧ magnitude numStr.toList < 2 ^ 64 ∧
        ¬ TakenForOverflow errno numStr.toList ∧ signedValue numStr.toList = n := by
  have hmax : ULLONG_MAX.toNat = 2 ^ 64 - 1 := rfl
  have hstart := endPtr_strtoull_eq_zero_iff errno numStr.toList
  unfold safeStrToUll
  dsimp only
  by_cases hdigits : digitsOf numStr.toList = []
  · rw [if_pos (hstart.mpr hdigits)]
    simp only [hdigits, ne_eq, not_true_eq_false, false_and, iff_false]
    split_ifs <;> exact fun h => nomatch h
  have hempty : ¬ numStr.isEmpty = true := by
    intro hnil
    rw [String.isEmpty_iff] at hnil
    exact hdigits (by rw [hnil]; rfl)
  rw [if_neg hempty, if_neg (fun h => hdigits (hstart.mp h))]
  have hresult := strtoull_of_digits hdigits errno
  rw [hmax] at hresult
  split_ifs at hresult with hlarge
  · obtain ⟨hvalue, herrno⟩ := Prod.mk.inj hresult
    rw [if_pos ⟨hvalue, herrno⟩]
    refine iff_of_false (fun h => nomatch h) fun h => ?_
    have hfits := h.2.1
    omega
  · obtain ⟨hvalue, herrno⟩ := Prod.mk.inj hresult
    have hfits : magnitude numStr.toList < 2 ^ 64 := by omega
    have hlost : TakenForOverflow errno numStr.toList ↔
        signedValue numStr.toList = ULLONG_MAX ∧ errno = ERANGE := by
      rw [TakenForOverflow, signedValue_eq_max_iff hfits, and_comm]
    rw [hvalue, herrno, hlost]
    split_ifs with hrefused
    · exact iff_of_false (fun h => nomatch h) fun h => h.2.2.1 hrefused
    · rw [and_iff_right hdigits, and_iff_right hfits, and_iff_right hrefused,
        Except.ok.injEq]

theorem digitsOf_of_isDecimal {text : List Char} (h : IsDecimal text) :
    digitsOf text = text ∧ isNegative text = false := by
  obtain ⟨hne, hdigits⟩ := h
  cases text with
  | nil => exact absurd rfl hne
  | cons c cs =>
      have hc : c.isDigit := hdigits c List.mem_cons_self
      have hblanks : (c :: cs).dropWhile isSpace = c :: cs :=
        List.dropWhile_cons_of_neg (by simp [not_isSpace_of_isDigit hc])
      rw [digitsOf, isNegative, hblanks, splitSign_of_isDigit hc]
      exact ⟨List.takeWhile_eq_self_iff.mpr hdigits, rfl⟩

/-- What `safeStrToUll` is for: it accepts the decimal texts of the numbers that fit,
and returns their numbers. -/
def ReadsExactly (errno : Errno) (numStr : String) : Prop :=
  ∀ n : UInt64, (safeStrToUll errno numStr).1 = .ok n ↔
    IsDecimal numStr.toList ∧ Nat.ofDigitChars 10 numStr.toList 0 = n.toNat

/-- A text is read as it should be exactly when it has no digits to convert, or they
denote a number that does not fit, or else it is a decimal one just if it is not taken
for an overflow. -/
theorem readsExactly_iff (errno : Errno) (numStr : String) :
    ReadsExactly errno numStr ↔
      digitsOf numStr.toList = [] ∨ 2 ^ 64 ≤ magnitude numStr.toList ∨
        (IsDecimal numStr.toList ↔ ¬ TakenForOverflow errno numStr.toList) := by
  have hexact : IsDecimal numStr.toList →
      digitsOf numStr.toList ≠ [] ∧
        magnitude numStr.toList = Nat.ofDigitChars 10 numStr.toList 0 ∧
          signedValue numStr.toList = UInt64.ofNat (magnitude numStr.toList) := by
    intro hdecimal
    obtain ⟨hdigits, hsign⟩ := digitsOf_of_isDecimal hdecimal
    refine ⟨by rw [hdigits]; exact hdecimal.1, by rw [magnitude, hdigits], ?_⟩
    rw [signedValue, if_neg (by rw [hsign]; exact Bool.false_ne_true)]
  unfold ReadsExactly
  simp only [safeStrToUll_eq_ok_iff]
  by_cases hnone : digitsOf numStr.toList = []
  · simp only [hnone, ne_eq, not_true_eq_false, false_and, false_iff, true_or, iff_true]
    exact fun n h => (hexact h.1).1 hnone
  by_cases hlarge : 2 ^ 64 ≤ magnitude numStr.toList
  · refine iff_of_true (fun n => ?_) (Or.inr (Or.inl hlarge))
    refine iff_of_false (fun h => absurd h.2.1 (Nat.not_lt.mpr hlarge)) fun h => ?_
    rw [← (hexact h.1).2.1] at h
    have hn := n.toNat_lt
    omega
  have hfits : magnitude numStr.toList < 2 ^ 64 := Nat.not_le.mp hlarge
  rw [or_iff_right hnone, or_iff_right hlarge]
  simp only [ne_eq, hnone, not_false_eq_true, hfits, true_and]
  constructor
  · intro h
    constructor
    · intro hdecimal hlost
      obtain ⟨-, hvalue, -⟩ := hexact hdecimal
      exact ((h (UInt64.ofNat (magnitude numStr.toList))).mpr ⟨hdecimal, by
        rw [UInt64.toNat_ofNat_of_lt' hfits, hvalue]⟩).1 hlost
    · exact fun hkept => ((h (signedValue numStr.toList)).mp ⟨hkept, rfl⟩).1
  · intro h n
    rw [← h]
    refine and_congr_right fun hdecimal => ?_
    obtain ⟨-, hvalue, hsigned⟩ := hexact hdecimal
    rw [hsigned, ← hvalue, ← UInt64.toNat_inj, UInt64.toNat_ofNat_of_lt' hfits]

/-- A text with something behind its digits is accepted, and the largest number is not
where an overflow has been left behind. -/
theorem not_readsExactly_sample :
    (safeStrToUll 0 "12 shards").1 = .ok 12 ∧ ¬ ReadsExactly 0 "12 shards" ∧
      (safeStrToUll ERANGE "18446744073709551615").1 =
        .error ⟨"strtoull of out range: 18446744073709551615"⟩ ∧
      ¬ ReadsExactly ERANGE "18446744073709551615" := by
  have hshards : (safeStrToUll 0 "12 shards").1 = .ok 12 := by decide +kernel
  have hlargest : (safeStrToUll ERANGE "18446744073709551615").1 =
      .error ⟨"strtoull of out range: 18446744073709551615"⟩ := by decide +kernel
  refine ⟨hshards, fun h => ?_, hlargest, fun h => ?_⟩
  · exact absurd ((h 12).mp hshards).1 (by decide +kernel)
  · have hread := (h ULLONG_MAX).mpr (by decide +kernel)
    rw [hlargest] at hread
    cases hread

/-- Of the printed numbers, only the largest one is not read back, where an overflow has
been left behind. -/
theorem readsExactly_printUll_iff (errno : Errno) (n : UInt64) :
    ReadsExactly errno (printUll n) ↔ ¬ (n = ULLONG_MAX ∧ errno = ERANGE) := by
  have hdecimal : IsDecimal (printUll n).toList :=
    ⟨fun h => printUll_ne_empty n (String.toList_eq_nil_iff.mp h),
      isDigit_of_mem_printUll n⟩
  have hvalue : Nat.ofDigitChars 10 (printUll n).toList 0 = n.toNat := by
    rw [printUll, Nat.toList_repr, Nat.ofDigitChars_ten_toDigits]
  unfold ReadsExactly
  simp only [safeStrToUll_printUll, hvalue, hdecimal, true_and, UInt64.toNat_inj]
  split_ifs with hlost
  · simp [hlost]
  · simp [hlost]

end Util

end Kclpp
