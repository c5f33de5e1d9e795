import Mathlib

/-!
# Reading and printing unsigned numbers

`util::safeStrToUll` is `strtoull` with its error cases turned into an outcome.
`strtoull` reports overflow through `errno`, which the C library never clears,
so the value left over from earlier calls is an argument here and the value
left behind is part of the result. `printUll` is what an `std::ostringstream`
writes for a `size_t`.
-/

namespace Kclpp

/-- The error a deserializer reports, with its text. -/
structure DeserializationError where
  what : String
  deriving DecidableEq, Repr

namespace Util

/-- The per-thread `errno`. -/
abbrev Errno := UInt32

def ERANGE : Errno := 34

def ULLONG_MAX : UInt64 := 18446744073709551615

/-- The blanks `strtoull` skips: space, `\t`, `\n`, `\v`, `\f` and `\r`. -/
def isSpace (c : Char) : Bool := c == ' ' || ('\t' ≤ c && c ≤ '\r')

/-- The optional sign in front of the digits: whether it is a minus, and what
follows it. -/
def splitSign : List Char → Bool × List Char
  | '-' :: cs => (true, cs)
  | '+' :: cs => (false, cs)
  | cs => (false, cs)

/-- What a call of `strtoull` leaves: its value, `endPtr` as an offset into the
text, and `errno`. -/
structure StrtoullResult where
  value : UInt64
  endPtr : ℕ
  errno : Errno
  deriving DecidableEq, Repr

/-- The C standard's `strtoull` in base ten. Text with no digits is not
converted and leaves `endPtr` at the start; a number that does not fit is
`ULLONG_MAX` with `ERANGE`; a minus sign negates the unsigned value. -/
def strtoull (errno : Errno) (text : List Char) : StrtoullResult :=
  let (negative, rest) := splitSign (text.dropWhile isSpace)
  let digits := rest.takeWhile Char.isDigit
  let n := Nat.ofDigitChars 10 digits 0
  if digits.isEmpty then ⟨0, 0, errno⟩
  else
    let endPtr := text.length - (rest.length - digits.length)
    if ULLONG_MAX.toNat < n then ⟨ULLONG_MAX, endPtr, ERANGE⟩
    else ⟨if negative then -(UInt64.ofNat n) else UInt64.ofNat n, endPtr, errno⟩

/-- `util::safeStrToUll`, with the `errno` it finds and the one it leaves. -/
def safeStrToUll (errno : Errno) (numStr : String) :
    Except DeserializationError UInt64 × Errno :=
  if numStr.isEmpty then
    (.error ⟨"strtoull on empty string"⟩, errno)
  else
    let result := strtoull errno numStr.toList
    if result.endPtr = 0 then
      (.error ⟨"couldn't read ull from string: " ++ numStr⟩, result.errno)
    else if result.value = ULLONG_MAX ∧ result.errno = ERANGE then
      (.error ⟨"strtoull of out range: " ++ numStr⟩, result.errno)
    else (.ok result.value, result.errno)

/-- The decimal text an output stream writes for a `size_t`. -/
def printUll (n : UInt64) : String := n.toNat.repr

theorem errno_strtoull (errno : Errno) (text : List Char) :
    (strtoull errno text).errno = errno ∨
      (strtoull errno text).value = ULLONG_MAX ∧
        (strtoull errno text).errno = ERANGE := by
  unfold strtoull
  dsimp only
  split_ifs
  · exact Or.inl rfl
  · exact Or.inr ⟨rfl, rfl⟩
  · exact Or.inl rfl
  · exact Or.inl rfl

/-- A number that is read leaves `errno` alone, since an overflow is an error. -/
theorem errno_of_safeStrToUll_eq_ok {errno errno' : Errno} {numStr : String}
    {n : UInt64} (h : safeStrToUll errno numStr = (.ok n, errno')) :
    errno' = errno := by
  unfold safeStrToUll at h
  dsimp only at h
  split_ifs at h with hempty hstart hlost <;> cases h
  exact (errno_strtoull errno numStr.toList).resolve_right hlost

theorem printUll_injective : Function.Injective printUll := fun _ _ h =>
  UInt64.toNat_inj.mp (Nat.repr_inj.mp h)

theorem printUll_ne_empty (n : UInt64) : printUll n ≠ "" := by
  intro h
  have hlist := congrArg String.toList h
  rw [printUll, Nat.toList_repr] at hlist
  exact Nat.toDigits_ne_nil hlist

theorem isDigit_of_mem_printUll (n : UInt64) :
    ∀ c ∈ (printUll n).toList, c.isDigit := by
  intro c hc
  rw [printUll, Nat.toList_repr] at hc
  exact Nat.isDigit_of_mem_toDigits (by decide) (by decide) hc

theorem not_isSpace_of_isDigit {c : Char} (h : c.isDigit) : isSpace c = false := by
  simp only [Char.isDigit, Bool.and_eq_true, decide_eq_true_eq, UInt32.le_iff_toNat_le,
    isSpace, Bool.or_eq_false_iff, beq_eq_false_iff_ne, ne_eq, Bool.and_eq_false_iff,
    decide_eq_false_iff_not, Char.le_def] at h ⊢
  obtain ⟨h₁, -⟩ := h
  have h₁' : 48 ≤ c.val.toNat := h₁
  refine ⟨fun hc => ?_, Or.inr fun hc => ?_⟩
  · subst hc
    exact absurd h₁' (by decide)
  · have hc' : c.val.toNat ≤ 13 := hc
    omega

theorem splitSign_of_isDigit {c : Char} {cs : List Char} (h : c.isDigit) :
    splitSign (c :: cs) = (false, c :: cs) := by
  unfold splitSign
  split
  · rename_i heq
    cases heq
    exact absurd h (by decide)
  · rename_i heq
    cases heq
    exact absurd h (by decide)
  · rfl

/-- Reading back what was printed. Only `ULLONG_MAX` is lost, and only where an
earlier overflow left `ERANGE` behind. -/
theorem safeStrToUll_printUll (errno : Errno) (n : UInt64) :
    safeStrToUll errno (printUll n) =
      if n = ULLONG_MAX ∧ errno = ERANGE then
        (.error ⟨"strtoull of out range: " ++ printUll n⟩, errno)
      else (.ok n, errno) := by
  have hdigits := isDigit_of_mem_printUll n
  have hvalue : Nat.ofDigitChars 10 (printUll n).toList 0 = n.toNat := by
    rw [printUll, Nat.toList_repr, Nat.ofDigitChars_ten_toDigits]
  have hempty : (printUll n).isEmpty = false := by
    simp [printUll_ne_empty n]
  cases hlist : (printUll n).toList with
  | nil =>
      exact absurd (String.toList_eq_nil_iff.mp hlist) (printUll_ne_empty n)
  | cons c cs =>
      rw [hlist] at hdigits hvalue
      have hc : c.isDigit := hdigits c List.mem_cons_self
      have htake : (c :: cs).takeWhile Char.isDigit = c :: cs :=
        List.takeWhile_eq_self_iff.mpr hdigits
      have hread : strtoull errno (c :: cs) = ⟨n, (c :: cs).length, errno⟩ := by
        have hfits : ¬ ULLONG_MAX.toNat < n.toNat := by
          have := n.toNat_lt
          have hmax : ULLONG_MAX.toNat = 18446744073709551615 := rfl
          omega
        rw [strtoull, List.dropWhile_cons_of_neg
          (by simp [not_isSpace_of_isDigit hc]), splitSign_of_isDigit hc]
        simp only [htake, hvalue, if_neg hfits, UInt64.ofNat_toNat]
        simp
      simp only [safeStrToUll, hempty, hlist, hread]
      simp

end Util

end Kclpp
