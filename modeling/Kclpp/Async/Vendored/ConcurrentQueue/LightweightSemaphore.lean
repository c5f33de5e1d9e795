import Kclpp.Parties.Tally
import Kclpp.Transition.Run

/-!
# `LightweightSemaphore`

A counter in front of a semaphore of the kernel: a call takes from the counter as long
as it is positive, and below zero the counter says how many threads have gone to the
kernel. The threads run in any order, and each label is one atomic operation of one of
them.

`Laws` has the two equations that carry everything: the one counts tokens, the other
counts wake-ups. A timed wait whose deadline comes out at a full second of nanoseconds
is refused by the kernel, and the code takes the refusal for a token; `invalid` counts
these.

The counter is an integer for the `ssize_t` of the code, and the results are for signals
of less than `2^31` tokens each, of which the conversion to `int` cuts nothing off.
-/

namespace Kclpp

namespace Async

namespace Vendored

namespace Moodycamel

namespace MpmcSema

open Parties Transition

structure Request where
  max : ℕ
  blocking : Bool
  timeoutUsecs : ℤ
  deriving DecidableEq, Repr

def tryWaitMany (max : ℕ) : Request := { max := max, blocking := false, timeoutUsecs := 0 }

def tryWait : Request := tryWaitMany 1

def waitMany (max : ℕ) (timeoutUsecs : ℤ) : Request :=
  { max := max, blocking := true, timeoutUsecs := timeoutUsecs }

/-- `LightweightSemaphore::wait`; without a timeout this is `wait (-1)`. -/
def wait (timeoutUsecs : ℤ) : Request := waitMany 1 timeoutUsecs

/-- Where a thread is in `tryWaitMany`, `waitManyWithPartialSpinning` or `signal`, with
its local variables. -/
inductive Point where
  | idle
  | tryLoad (request : Request)
  | tryExchange (request : Request) (oldCount : ℤ)
  | spin (request : Request) (left : ℕ)
  | spinExchange (request : Request) (left : ℕ) (oldCount : ℤ)
  | fetchSub (request : Request)
  | semaWait (request : Request)
  | timedOut (request : Request)
  | timedOutTryWait (request : Request)
  | timedOutExchange (request : Request) (oldCount : ℤ)
  | restLoad (request : Request)
  | restExchange (request : Request) (oldCount : ℤ)
  | returned (acquired : ℕ)
  | signal (count : ℕ)
  | post (left : ℕ)
  deriving DecidableEq, Repr

namespace Point

/-- The thread has taken one off the counter and has neither a token nor given up. -/
def waiting : Point → ℕ
  | .semaWait _ | .timedOut _ | .timedOutTryWait _ | .timedOutExchange _ _ => 1
  | _ => 0

def holding : Point → ℕ
  | .restLoad _ | .restExchange _ _ => 1
  | _ => 0

def posting : Point → ℕ
  | .post left => left
  | _ => 0

def AtRest : Point → Prop
  | .idle | .returned _ => True
  | _ => False

instance : DecidablePred AtRest := fun p => by
  cases p <;> unfold AtRest <;> infer_instance

theorem AtRest.holding {p : Point} (h : p.AtRest) : p.holding = 0 := by
  cases p <;> first | rfl | exact h.elim

theorem AtRest.waiting {p : Point} (h : p.AtRest) : p.waiting = 0 := by
  cases p <;> first | rfl | exact h.elim

theorem AtRest.posting {p : Point} (h : p.AtRest) : p.posting = 0 := by
  cases p <;> first | rfl | exact h.elim

/-- What the local variables say. -/
def Sound : Point → Prop
  | .tryExchange _ oldCount | .spinExchange _ _ oldCount => 0 < oldCount
  | .restExchange request oldCount => 0 < oldCount ∧ 1 < request.max
  | .restLoad request => 1 < request.max
  | .timedOutExchange _ oldCount => oldCount < 0
  | .signal count => count < 2147483648
  | _ => True

end Point

/-- The semaphore and its threads, with the arguments of the signals and the answers of
the waits so far. -/
structure System (T : Type*) where
  count : ℤ
  kernel : ℕ := 0
  points : T → Point
  signals : List ℕ := []
  answers : List ℕ := []
  invalid : ℕ := 0

def createNew (T : Type*) (initialCount : ℕ) : System T where
  count := initialCount
  points := fun _ => .idle

inductive Label (T : Type*) where
  | call (t : T) (request : Request)
  | signal (t : T) (count : ℕ)
  | step (t : T)
  | weakFailure (t : T)
  | timeout (t : T)
  | invalid (t : T) (nanoseconds : ℕ)

/-- The conversion to `int` does not cut off what is signalled. -/
def Label.Small {T : Type*} : Label T → Prop
  | .signal _ count => count < 2147483648
  | _ => True

def Label.thread {T : Type*} : Label T → T
  | .call t _ | .signal t _ | .step t | .weakFailure t | .timeout t | .invalid t _ => t

/-- What is left of the counter when up to `max` are taken from it. -/
def newCount (oldCount : ℤ) (max : ℕ) : ℤ :=
  if oldCount > max then oldCount - max else 0

/-- The conversion to `int`. -/
def toInt (n : ℤ) : ℤ := (n + 2147483648) % 4294967296 - 2147483648

/-- How often `signal` posts to the kernel. -/
def posts (oldCount : ℤ) (count : ℕ) : ℕ :=
  let toRelease := if -oldCount < count then -oldCount else (count : ℤ)
  if toRelease > 0 then (toInt toRelease).toNat else 0

/-- `Semaphore::timed_wait` brings the nanoseconds of the deadline below a second,
unless they are exactly one. -/
def deadlineNanoseconds (nanoseconds : ℕ) (timeoutUsecs : ℤ) : ℕ :=
  let tvNsec := nanoseconds + (timeoutUsecs.toNat % 1000000) * 1000
  if tvNsec > 1000000000 then tvNsec - 1000000000 else tvNsec

example : deadlineNanoseconds 999000000 1000 = 1000000000 := rfl

namespace System

variable {T : Type*} [DecidableEq T]

def goTo (s : System T) (t : T) (p : Point) : System T :=
  { s with points := Function.update s.points t p }

def answer (s : System T) (t : T) (acquired : ℕ) : System T :=
  { s with
    points := Function.update s.points t (.returned acquired)
    answers := s.answers ++ [acquired] }

/-- The loop of the first `tryWaitMany`. -/
def tryLoop (s : System T) (t : T) (request : Request) (oldCount : ℤ) : System T :=
  if oldCount > 0 then s.goTo t (.tryExchange request oldCount)
  else if request.blocking ∧ request.max > 0 then s.goTo t (.spin request 10000)
  else s.answer t 0

/-- The loop of the `tryWaitMany` that comes after the first token. -/
def restLoop (s : System T) (t : T) (request : Request) (oldCount : ℤ) : System T :=
  if oldCount > 0 then s.goTo t (.restExchange request oldCount) else s.answer t 1

def acquiredOne (s : System T) (t : T) (request : Request) : System T :=
  if request.max > 1 then s.goTo t (.restLoad request) else s.answer t 1

def advance (s : System T) (t : T) : Option (System T) :=
  match s.points t with
  | .idle | .returned _ => none
  | .tryLoad request => some (s.tryLoop t request s.count)
  | .tryExchange request oldCount =>
      if s.count = oldCount then
        some ({ s with count := newCount oldCount request.max }.answer t
          (oldCount - newCount oldCount request.max).toNat)
      else some (s.tryLoop t request s.count)
  | .spin request 0 => some (s.goTo t (.fetchSub request))
  | .spin request (left + 1) =>
      some (s.goTo t
        (if s.count > 0 then .spinExchange request left s.count else .spin request left))
  | .spinExchange request left oldCount =>
      if s.count = oldCount then
        some ({ s with count := newCount oldCount request.max }.answer t
          (oldCount - newCount oldCount request.max).toNat)
      else some (s.goTo t (.spin request left))
  | .fetchSub request =>
      if s.count > 0 then some ({ s with count := s.count - 1 }.acquiredOne t request)
      else some ({ s with count := s.count - 1 }.goTo t (.semaWait request))
  | .semaWait request =>
      if s.kernel > 0 then some ({ s with kernel := s.kernel - 1 }.acquiredOne t request)
      else none
  | .timedOut request =>
      some (s.goTo t
        (if s.count ≥ 0 then .timedOutTryWait request
        else .timedOutExchange request s.count))
  | .timedOutTryWait request =>
      if s.kernel > 0 then some ({ s with kernel := s.kernel - 1 }.acquiredOne t request)
      else some (s.goTo t (.timedOut request))
  | .timedOutExchange request oldCount =>
      if s.count = oldCount then some ({ s with count := oldCount + 1 }.answer t 0)
      else some (s.goTo t (.timedOut request))
  | .restLoad request => some (s.restLoop t request s.count)
  | .restExchange request oldCount =>
      if s.count = oldCount then
        some ({ s with count := newCount oldCount (request.max - 1) }.answer t
          (1 + (oldCount - newCount oldCount (request.max - 1)).toNat))
      else some (s.restLoop t request s.count)
  | .signal count =>
      some ({ s with count := s.count + count, signals := s.signals ++ [count] }.goTo t
        (.post (posts s.count count)))
  | .post 0 => some (s.goTo t .idle)
  | .post (left + 1) => some ({ s with kernel := s.kernel + 1 }.goTo t (.post left))

def step (s : System T) : Label T → Option (System T)
  | .call t request =>
      if (s.points t).AtRest then some (s.goTo t (.tryLoad request)) else none
  | .signal t count =>
      if (s.points t).AtRest then some (s.goTo t (.signal count)) else none
  | .step t => s.advance t
  | .weakFailure t =>
      match s.points t with
      | .tryExchange request _ => some (s.tryLoop t request s.count)
      | .restExchange request _ => some (s.restLoop t request s.count)
      | _ => none
  | .timeout t =>
      match s.points t with
      | .semaWait request =>
          if request.timeoutUsecs < 0 then none else some (s.goTo t (.timedOut request))
      | _ => none
  | .invalid t nanoseconds =>
      match s.points t with
      | .semaWait request =>
          if request.timeoutUsecs < 0 ∨ nanoseconds ≥ 1000000000 ∨
              deadlineNanoseconds nanoseconds request.timeoutUsecs < 1000000000 then none
          else some ({ s with invalid := s.invalid + 1 }.acquiredOne t request)
      | _ => none

end System

/-! ### What a step does -/

theorem toInt_of_lt {n : ℤ} (hpos : 0 ≤ n) (hlt : n < 2147483648) : toInt n = n := by
  unfold toInt
  rw [Int.emod_eq_of_lt (by linarith) (by linarith), add_sub_cancel_right]

/-- A signal posts for those that wait, as far as its tokens go. -/
theorem posts_spec (oldCount : ℤ) {count : ℕ} (h : count < 2147483648) :
    posts oldCount count + (-(oldCount + count)).toNat = (-oldCount).toNat := by
  have hcount : (count : ℤ) < 2147483648 := by exact_mod_cast h
  unfold posts
  dsimp only
  split_ifs with hneg hpos hpos
  · rw [toInt_of_lt hpos.le (hneg.trans hcount)]
    omega
  · omega
  · rw [toInt_of_lt hpos.le hcount]
    omega
  · omega

namespace System

variable {T : Type*}

/-- A step of one thread. What it takes from the counter or from the kernel it has then
in hand, or it waits for it; what it puts in has been signalled. -/
structure Moves (t : T) (s s' : System T) : Prop where
  others : ∀ u, u ≠ t → s'.points u = s.points u
  sound : (s'.points t).Sound
  tokens : s'.count + s'.answers.sum + (s'.points t).holding + (s'.points t).waiting +
      s.signals.sum =
    s.count + s.answers.sum + (s.points t).holding + (s.points t).waiting +
      s'.signals.sum
  wakeUps : (s'.points t).waiting + s'.invalid + s.kernel + (s.points t).posting +
      (-s.count).toNat =
    (s.points t).waiting + s.invalid + s'.kernel + (s'.points t).posting +
      (-s'.count).toNat

section Laws

variable [Fintype T]

/-- The tokens that are in the counter, in the kernel or on their way to it. -/
def available (s : System T) : ℕ :=
  s.count.toNat + s.kernel + tally Point.posting s.points

structure Laws (initialCount : ℕ) (s : System T) : Prop where
  sound : ∀ t, (s.points t).Sound
  tokens : s.count + s.answers.sum + tally Point.holding s.points +
    tally Point.waiting s.points = initialCount + s.signals.sum
  wakeUps : tally Point.waiting s.points + s.invalid =
    s.kernel + tally Point.posting s.points + (-s.count).toNat

theorem createNew_laws (initialCount : ℕ) : (createNew T initialCount).Laws initialCount := by
  refine ⟨fun _ => trivial, ?_, ?_⟩
  · simp [createNew, tally_const, Point.holding, Point.waiting]
  · simp [createNew, tally_const, Point.posting, Point.waiting]

theorem Laws.of_moves {initialCount : ℕ} {s s' : System T} {t : T}
    (h : s.Laws initialCount) (hmoves : Moves t s s') : s'.Laws initialCount := by
  have hholding := tally_of_others Point.holding hmoves.others
  have hwaiting := tally_of_others Point.waiting hmoves.others
  have hposting := tally_of_others Point.posting hmoves.others
  have htokens := hmoves.tokens
  have hwakeUps := hmoves.wakeUps
  have htokens' := h.tokens
  have hwakeUps' := h.wakeUps
  refine ⟨fun u => ?_, ?_, ?_⟩
  · by_cases hu : u = t
    · rw [hu]
      exact hmoves.sound
    · rw [hmoves.others u hu]
      exact h.sound u
  · omega
  · omega

/-- The tokens of the calls and those that are available are those that were put in,
and one more for each deadline that the kernel has refused. -/
theorem Laws.available_eq {initialCount : ℕ} {s : System T} (h : s.Laws initialCount) :
    s.answers.sum + tally Point.holding s.points + s.available =
      initialCount + s.signals.sum + s.invalid := by
  have htokens := h.tokens
  have hwakeUps := h.wakeUps
  unfold available
  omega

/-- Where a thread waits and no wake-up is on its way, nothing is available. -/
theorem Laws.available_eq_zero {initialCount : ℕ} {s : System T} (h : s.Laws initialCount)
    {t : T} (hwaiting : 0 < (s.points t).waiting) (hkernel : s.kernel = 0)
    (hposting : ∀ u, (s.points u).posting = 0) : s.available = 0 := by
  have hwakeUps := h.wakeUps
  have hle := le_tally Point.waiting s.points t
  rw [← tally_eq_zero_iff] at hposting
  unfold available
  omega

/-- A thread that waits while the counter is not negative has its wake-up in the kernel
or on its way. -/
theorem Laws.wakeUp_pos {initialCount : ℕ} {s : System T} (h : s.Laws initialCount)
    {t : T} (hwaiting : 0 < (s.points t).waiting) (hcount : 0 ≤ s.count) :
    0 < s.kernel ∨ ∃ u, 0 < (s.points u).posting := by
  have hwakeUps := h.wakeUps
  have hle := le_tally Point.waiting s.points t
  rw [← tally_pos_iff]
  omega

/-- Once all threads are at rest, the counter has the tokens that are left. -/
theorem Laws.count_eq {initialCount : ℕ} {s : System T} (h : s.Laws initialCount)
    (hrest : ∀ t, (s.points t).AtRest) (hinvalid : s.invalid = 0) :
    s.kernel = 0 ∧ s.count + s.answers.sum = initialCount + s.signals.sum := by
  have htokens := h.tokens
  have hwakeUps := h.wakeUps
  have hholding := (tally_eq_zero_iff Point.holding s.points).mpr fun t => (hrest t).holding
  have hwaiting := (tally_eq_zero_iff Point.waiting s.points).mpr fun t => (hrest t).waiting
  omega

end Laws

variable [DecidableEq T]

theorem moves_goTo {t : T} {s s' : System T} {p : Point}
    (hpoints : s'.points = s.points) (hsound : p.Sound)
    (htokens : s'.count + s'.answers.sum + p.holding + p.waiting + s.signals.sum =
      s.count + s.answers.sum + (s.points t).holding + (s.points t).waiting +
        s'.signals.sum)
    (hwakeUps : p.waiting + s'.invalid + s.kernel + (s.points t).posting +
        (-s.count).toNat =
      (s.points t).waiting + s.invalid + s'.kernel + p.posting + (-s'.count).toNat) :
    Moves t s (s'.goTo t p) := by
  have hself : (s'.goTo t p).points t = p := Function.update_self _ _ _
  refine ⟨fun u hu => ?_, ?_, ?_, ?_⟩
  · rw [← hpoints]
    exact Function.update_of_ne hu _ _
  · rw [hself]
    exact hsound
  · rw [hself]
    exact htokens
  · rw [hself]
    exact hwakeUps

theorem moves_answer {t : T} {s s' : System T} {acquired : ℕ}
    (hpoints : s'.points = s.points)
    (htokens : s'.count + s'.answers.sum + acquired + s.signals.sum =
      s.count + s.answers.sum + (s.points t).holding + (s.points t).waiting +
        s'.signals.sum)
    (hwakeUps : s'.invalid + s.kernel + (s.points t).posting + (-s.count).toNat =
      (s.points t).waiting + s.invalid + s'.kernel + (-s'.count).toNat) :
    Moves t s (s'.answer t acquired) := by
  have hself : (s'.answer t acquired).points t = .returned acquired :=
    Function.update_self _ _ _
  have hsum : (s'.answer t acquired).answers.sum = s'.answers.sum + acquired := by
    rw [answer, List.sum_append, List.sum_singleton]
  refine ⟨fun u hu => ?_, ?_, ?_, ?_⟩
  · rw [← hpoints]
    exact Function.update_of_ne hu _ _
  · rw [hself]
    exact trivial
  · rw [hself, hsum, Nat.cast_add]
    change s'.count + _ + 0 + 0 + _ = _ + (s'.signals.sum : ℤ)
    linarith
  · rw [hself]
    change 0 + s'.invalid + _ + _ + _ = _ + _ + s'.kernel + 0 + (-s'.count).toNat
    linarith

theorem moves_tryLoop {t : T} {s : System T} {request : Request}
    (hholding : (s.points t).holding = 0) (hwaiting : (s.points t).waiting = 0)
    (hposting : (s.points t).posting = 0) :
    Moves t s (s.tryLoop t request s.count) := by
  unfold tryLoop
  split_ifs with hpos hwait
  · refine moves_goTo rfl hpos ?_ ?_
    · rw [hholding, hwaiting]
      rfl
    · rw [hwaiting, hposting]
      rfl
  · refine moves_goTo rfl trivial ?_ ?_
    · rw [hholding, hwaiting]
      rfl
    · rw [hwaiting, hposting]
      rfl
  · refine moves_answer rfl ?_ ?_
    · rw [hholding, hwaiting]
      push_cast
      ring
    · rw [hwaiting, hposting, Nat.zero_add]
      rfl

/-- Another token may come to the first one. -/
theorem moves_restLoop {t : T} {s : System T} {request : Request}
    (hmax : 1 < request.max) (hholding : (s.points t).holding = 1)
    (hwaiting : (s.points t).waiting = 0) (hposting : (s.points t).posting = 0) :
    Moves t s (s.restLoop t request s.count) := by
  unfold restLoop
  split_ifs with hpos
  · refine moves_goTo rfl ⟨hpos, hmax⟩ ?_ ?_
    · rw [hholding, hwaiting]
      rfl
    · rw [hwaiting, hposting]
      rfl
  · refine moves_answer rfl ?_ ?_
    · rw [hholding, hwaiting]
      push_cast
      ring
    · rw [hwaiting, hposting, Nat.zero_add]
      rfl

theorem moves_acquiredOne {t : T} {s s' : System T} {request : Request}
    (hpoints : s'.points = s.points)
    (htokens : s'.count + s'.answers.sum + 1 + s.signals.sum =
      s.count + s.answers.sum + (s.points t).holding + (s.points t).waiting +
        s'.signals.sum)
    (hwakeUps : s'.invalid + s.kernel + (s.points t).posting + (-s.count).toNat =
      (s.points t).waiting + s.invalid + s'.kernel + (-s'.count).toNat) :
    Moves t s (s'.acquiredOne t request) := by
  unfold acquiredOne
  split_ifs with hmax
  · refine moves_goTo hpoints hmax ?_ ?_
    · change s'.count + _ + 1 + 0 + _ = _
      linarith
    · change 0 + _ + _ + _ + _ = _ + _ + _ + 0 + _
      linarith
  · exact moves_answer hpoints htokens hwakeUps

/-- An exchange takes what there is, up to `max`. -/
theorem newCount_spec {oldCount : ℤ} (hpos : 0 < oldCount) (max : ℕ) :
    newCount oldCount max + (oldCount - newCount oldCount max).toNat = oldCount ∧
      (-newCount oldCount max).toNat = (-oldCount).toNat := by
  unfold newCount
  split_ifs <;> omega

/-- A thread that takes from the counter, which is positive, returns with that and with
what it has. -/
theorem moves_exchange {t : T} {s : System T} {max n acquired : ℕ} (hpos : 0 < s.count)
    (hholding : (s.points t).holding = n) (hwaiting : (s.points t).waiting = 0)
    (hposting : (s.points t).posting = 0)
    (hacquired : acquired = n + (s.count - newCount s.count max).toNat) :
    Moves t s ({ s with count := newCount s.count max }.answer t acquired) := by
  obtain ⟨hsum, hneg⟩ := newCount_spec hpos max
  refine moves_answer rfl ?_ ?_
  · dsimp only
    rw [hholding, hwaiting, hacquired]
    push_cast at hsum ⊢
    linarith
  · dsimp only
    rw [hwaiting, hposting, hneg, Nat.zero_add]
    rfl

theorem moves_of_advance {t : T} {s s' : System T} (hsound : (s.points t).Sound)
    (hstep : s.advance t = some s') : Moves t s s' := by
  unfold advance at hstep
  cases hpoint : s.points t with
  | idle =>
      rw [hpoint] at hstep
      cases hstep
  | returned acquired =>
      rw [hpoint] at hstep
      cases hstep
  | tryLoad request =>
      rw [hpoint] at hstep
      cases hstep
      apply moves_tryLoop <;> rw [hpoint] <;> rfl
  | tryExchange request oldCount =>
      rw [hpoint] at hstep hsound
      dsimp only at hstep
      split_ifs at hstep with heq
      · cases hstep
        subst heq
        apply moves_exchange hsound (n := 0) <;> try rw [hpoint]
        · rfl
        · rfl
        · rfl
        · exact (Nat.zero_add _).symm
      · cases hstep
        apply moves_tryLoop <;> rw [hpoint] <;> rfl
  | spin request left =>
      rw [hpoint] at hstep
      cases left with
      | zero =>
          cases hstep
          refine moves_goTo rfl trivial ?_ ?_ <;> rw [hpoint] <;> rfl
      | succ left =>
          cases hstep
          refine moves_goTo rfl ?_ ?_ ?_
          · split_ifs with hpos
            · exact hpos
            · trivial
          · rw [hpoint]
            split_ifs <;> rfl
          · rw [hpoint]
            split_ifs <;> rfl
  | spinExchange request left oldCount =>
      rw [hpoint] at hstep hsound
      dsimp only at hstep
      split_ifs at hstep with heq
      · cases hstep
        subst heq
        apply moves_exchange hsound (n := 0) <;> try rw [hpoint]
        · rfl
        · rfl
        · rfl
        · exact (Nat.zero_add _).symm
      · cases hstep
        refine moves_goTo rfl trivial ?_ ?_ <;> rw [hpoint] <;> rfl
  | fetchSub request =>
      rw [hpoint] at hstep
      dsimp only at hstep
      split_ifs at hstep with hpos
      · cases hstep
        refine moves_acquiredOne rfl ?_ ?_
        · rw [hpoint]
          dsimp only [Point.holding, Point.waiting]
          omega
        · rw [hpoint]
          dsimp only [Point.waiting, Point.posting]
          omega
      · cases hstep
        refine moves_goTo rfl trivial ?_ ?_
        · rw [hpoint]
          dsimp only [Point.holding, Point.waiting]
          omega
        · rw [hpoint]
          dsimp only [Point.waiting, Point.posting]
          omega
  | semaWait request =>
      rw [hpoint] at hstep
      dsimp only at hstep
      split_ifs at hstep with hpos
      cases hstep
      refine moves_acquiredOne rfl ?_ ?_
      · rw [hpoint]
        dsimp only [Point.holding, Point.waiting]
        omega
      · rw [hpoint]
        dsimp only [Point.waiting, Point.posting]
        omega
  | timedOut request =>
      rw [hpoint] at hstep
      cases hstep
      refine moves_goTo rfl ?_ ?_ ?_
      · split_ifs with hneg
        · trivial
        · exact not_le.mp hneg
      · rw [hpoint]
        split_ifs <;> rfl
      · rw [hpoint]
        split_ifs <;> rfl
  | timedOutTryWait request =>
      rw [hpoint] at hstep
      dsimp only at hstep
      split_ifs at hstep with hpos
      · cases hstep
        refine moves_acquiredOne rfl ?_ ?_
        · rw [hpoint]
          dsimp only [Point.holding, Point.waiting]
          omega
        · rw [hpoint]
          dsimp only [Point.waiting, Point.posting]
          omega
      · cases hstep
        refine moves_goTo rfl trivial ?_ ?_ <;> rw [hpoint] <;> rfl
  | timedOutExchange request oldCount =>
      rw [hpoint] at hstep hsound
      dsimp only at hstep
      split_ifs at hstep with heq
      · cases hstep
        subst heq
        have hneg : s.count < 0 := hsound
        refine moves_answer rfl ?_ ?_
        · rw [hpoint]
          dsimp only [Point.holding, Point.waiting]
          omega
        · rw [hpoint]
          dsimp only [Point.waiting, Point.posting]
          omega
      · cases hstep
        refine moves_goTo rfl trivial ?_ ?_ <;> rw [hpoint] <;> rfl
  | restLoad request =>
      rw [hpoint] at hstep hsound
      cases hstep
      apply moves_restLoop hsound <;> rw [hpoint] <;> rfl
  | restExchange request oldCount =>
      rw [hpoint] at hstep hsound
      dsimp only at hstep
      split_ifs at hstep with heq
      · cases hstep
        subst heq
        apply moves_exchange hsound.1 (n := 1) <;> try rw [hpoint]
        · rfl
        · rfl
        · rfl
        · rfl
      · cases hstep
        apply moves_restLoop hsound.2 <;> rw [hpoint] <;> rfl
  | signal count =>
      rw [hpoint] at hstep hsound
      cases hstep
      have hposts := posts_spec s.count hsound
      refine moves_goTo rfl trivial ?_ ?_
      · rw [hpoint]
        dsimp only [Point.holding, Point.waiting]
        rw [List.sum_append, List.sum_singleton]
        push_cast
        ring
      · rw [hpoint]
        dsimp only [Point.waiting, Point.posting]
        omega
  | post left =>
      rw [hpoint] at hstep
      cases left with
      | zero =>
          cases hstep
          refine moves_goTo rfl trivial ?_ ?_ <;> rw [hpoint] <;> rfl
      | succ left =>
          cases hstep
          refine moves_goTo rfl trivial ?_ ?_
          · rw [hpoint]
            rfl
          · rw [hpoint]
            dsimp only [Point.waiting, Point.posting]
            omega

theorem moves_begin {t : T} {s : System T} {p : Point} (hrest : (s.points t).AtRest)
    (hsound : p.Sound) (hholding : p.holding = 0) (hwaiting : p.waiting = 0)
    (hposting : p.posting = 0) : Moves t s (s.goTo t p) := by
  refine moves_goTo rfl hsound ?_ ?_
  · rw [hrest.holding, hrest.waiting, hholding, hwaiting]
  · rw [hrest.waiting, hrest.posting, hwaiting, hposting]

theorem moves_of_step {l : Label T} {s s' : System T}
    (hsound : ∀ t, (s.points t).Sound) (hsmall : l.Small) (hstep : s.step l = some s') :
    Moves l.thread s s' := by
  cases l with
  | call t request =>
      simp only [step] at hstep
      split_ifs at hstep with hrest
      cases hstep
      exact moves_begin hrest trivial rfl rfl rfl
  | signal t count =>
      simp only [step] at hstep
      split_ifs at hstep with hrest
      cases hstep
      exact moves_begin hrest hsmall rfl rfl rfl
  | step t => exact moves_of_advance (hsound t) hstep
  | weakFailure t =>
      have hsound := hsound t
      simp only [step] at hstep
      cases hpoint : s.points t with
      | tryExchange request oldCount =>
          rw [hpoint] at hstep
          cases hstep
          change Moves t s _
          apply moves_tryLoop <;> rw [hpoint] <;> rfl
      | restExchange request oldCount =>
          rw [hpoint] at hstep hsound
          cases hstep
          change Moves t s _
          apply moves_restLoop hsound.2 <;> rw [hpoint] <;> rfl
      | _ =>
          rw [hpoint] at hstep
          cases hstep
  | timeout t =>
      simp only [step] at hstep
      cases hpoint : s.points t with
      | semaWait request =>
          rw [hpoint] at hstep
          dsimp only at hstep
          split_ifs at hstep with htimed
          cases hstep
          change Moves t s _
          refine moves_goTo rfl trivial ?_ ?_ <;> rw [hpoint] <;> rfl
      | _ =>
          rw [hpoint] at hstep
          cases hstep
  | invalid t nanoseconds =>
      simp only [step] at hstep
      cases hpoint : s.points t with
      | semaWait request =>
          rw [hpoint] at hstep
          dsimp only at hstep
          split_ifs at hstep with htimed
          cases hstep
          change Moves t s _
          -- one wait less, and nothing has come from the kernel
          refine moves_acquiredOne rfl ?_ ?_
          · rw [hpoint]
            dsimp only [Point.holding, Point.waiting]
            omega
          · rw [hpoint]
            dsimp only [Point.waiting, Point.posting]
            omega
      | _ =>
          rw [hpoint] at hstep
          cases hstep

/-! ### What holds in every run -/

variable [Fintype T]

theorem laws_of_run {initialCount : ℕ} {ls : List (Label T)} {s : System T}
    (hsmall : ∀ l ∈ ls, l.Small)
    (hr : run step (createNew T initialCount) ls = some s) : s.Laws initialCount :=
  run_invariant_of_meets
    (fun _ _ _ h hl hstep => h.of_moves (moves_of_step h.sound hl hstep))
    (createNew_laws initialCount) (meets_of_labels step hsmall _) hr

/-- In every run: the tokens that the calls have got and those that are available are
those that were put in, and one more for each deadline that the kernel has refused. A
thread that waits while the counter is not negative has its wake-up in the kernel or on
its way. Once all threads are at rest and no deadline has been refused, the kernel has
nothing and the counter has what is left. -/
theorem tokens_of_run {initialCount : ℕ} {ls : List (Label T)} {s : System T}
    (hsmall : ∀ l ∈ ls, l.Small)
    (hr : run step (createNew T initialCount) ls = some s) :
    s.answers.sum + tally Point.holding s.points + s.available =
        initialCount + s.signals.sum + s.invalid ∧
      (∀ t, 0 < (s.points t).waiting → 0 ≤ s.count →
        0 < s.kernel ∨ ∃ u, 0 < (s.points u).posting) ∧
      ((∀ t, (s.points t).AtRest) → s.invalid = 0 →
        s.kernel = 0 ∧ s.count + s.answers.sum = initialCount + s.signals.sum) := by
  have h := laws_of_run hsmall hr
  exact ⟨h.available_eq, fun _ => h.wakeUp_pos, h.count_eq⟩

/-- Two threads, of which one signals three tokens and one takes two of them. -/
def twoOfThree : List (Label Bool) :=
  [.signal true 3, .step true, .call false (tryWaitMany 2), .step false, .step false,
    .step true]

theorem tokens_twoOfThree :
    ∃ s, run step (createNew Bool 0) twoOfThree = some s ∧ s.kernel = 0 ∧
      s.count + s.answers.sum = 3 := by
  obtain ⟨s, hs⟩ : ∃ s, run step (createNew Bool 0) twoOfThree = some s :=
    Option.isSome_iff_exists.mp rfl
  have hmap : (run step (createNew Bool 0) twoOfThree).map (fun s =>
      (s.points true, s.points false, s.signals.sum, s.invalid)) =
      some (.idle, .returned 2, 3, 0) := rfl
  rw [hs, Option.map_some, Option.some_inj] at hmap
  obtain ⟨htrue, hmap⟩ := Prod.mk.inj hmap
  obtain ⟨hfalse, hmap⟩ := Prod.mk.inj hmap
  obtain ⟨hsignals, hinvalid⟩ := Prod.mk.inj hmap
  have hsmall : ∀ l ∈ twoOfThree, l.Small := by
    simp [twoOfThree, Label.Small]
  have hrest : ∀ t, (s.points t).AtRest := by
    intro t
    cases t
    · rw [hfalse]
      trivial
    · rw [htrue]
      trivial
  obtain ⟨hkernel, hcount⟩ := (tokens_of_run hsmall hs).2.2 hrest hinvalid
  rw [hsignals] at hcount
  exact ⟨s, hs, hkernel, hcount⟩

end System

end MpmcSema

end Moodycamel

end Vendored

end Async

end Kclpp
