import Mathlib

/-!
# Event file descriptors

`EventFD` is a non-semaphore counter: a read returns the counter and zeroes it,
and reports `NotReady` at zero; a write adds to it, and fails where the sum would
pass the largest value the kernel keeps. The descriptor itself is valid.
-/

namespace Kclpp

namespace Async

/-- The errors of `EventFD`, with their texts. -/
inductive EventFDError where
  | readError (what : String)
  | notReady (what : String)
  | writeError (what : String)
  deriving DecidableEq, Repr

/-- `EventFD`, by the counter the kernel keeps for it. -/
structure EventFD where
  counter : ℕ := 0
  deriving DecidableEq, Repr

namespace EventFD

def maxCounter : ℕ := 18446744073709551614

/-- `EventFD::read`. The counter is read into an `int64_t`, and is negative there from
`2^63` on. -/
def read (efd : EventFD) : Except EventFDError Int64 × EventFD :=
  if efd.counter = 0 then (.error (.notReady "NotReady"), efd)
  else (.ok (Int64.ofNat efd.counter), { counter := 0 })

example : (read ⟨maxCounter⟩).1 = .ok (-2) := by decide

/-- `EventFD::write`. The kernel reads the eight bytes as an unsigned number. -/
def write (efd : EventFD) (num : Int64) : Except EventFDError Unit × EventFD :=
  let value := num.toUInt64.toNat
  if maxCounter < value then (.error (.writeError "Invalid argument"), efd)
  else if efd.counter + value ≤ maxCounter then
    (.ok (), { counter := efd.counter + value })
  else (.error (.writeError "Resource temporarily unavailable"), efd)

theorem write_one (efd : EventFD) :
    efd.write 1 =
      if efd.counter + 1 ≤ maxCounter then (.ok (), { counter := efd.counter + 1 })
      else (.error (.writeError "Resource temporarily unavailable"), efd) := by
  have hone : (1 : Int64).toUInt64.toNat = 1 := rfl
  rw [write, hone]
  exact if_neg (by decide)

end EventFD

end Async

end Kclpp
