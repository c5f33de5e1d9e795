import Kclpp.Parties.Tally
import Kclpp.Transition.Run

/-!
# `ThreadBaton`

Some threads wait, and one posts. The threads run in any order, each label is one
operation on the flag, the mutex or the condition variable, and a thread that waits for
the condition may wake up for no reason. `notify_one` wakes one thread: where several
have gone to sleep, the others sleep on.
-/

namespace Kclpp

namespace Locks

open Parties Transition

namespace ThreadBaton

/-- Where a thread is in `wait` or `post`. -/
inductive Point where
  | idle
  | load
  | lockWait
  | recheck
  | predicate
  | waitCondition
  | blocked
  | relock
  | loop
  | unlockWait
  | passed
  | lockPost
  | doPostLoad
  | doPostExchange
  | unlockPost
  | notify
  | posted
  | unlockThrow
  | thrown
  deriving DecidableEq, Repr

namespace Point

def holds : Point → Bool
  | .recheck | .predicate | .waitCondition | .loop | .unlockWait | .doPostLoad
  | .doPostExchange | .unlockPost | .unlockThrow => true
  | _ => false

def atRest : Point → Bool
  | .idle | .passed | .posted | .thrown => true
  | _ => false

/-- What the thread knows of the flag. -/
def knows : Point → Option Bool
  | .waitCondition | .doPostExchange => some false
  | .loop | .unlockWait | .passed | .unlockPost | .notify | .posted | .unlockThrow
  | .thrown => some true
  | _ => none

/-- The thread has set the flag and is on its way out. -/
def winning : Point → ℕ
  | .unlockPost | .notify => 1
  | _ => 0

/-- How far the thread is from rest once the flag is set. -/
def rank : Point → ℕ
  | .load | .unlockWait | .unlockThrow => 1
  | .recheck | .loop | .doPostLoad => 2
  | .lockWait | .predicate | .lockPost => 3
  | .relock => 4
  | .notify => 6
  | .unlockPost => 7
  | _ => 0

theorem holds_of_knows_false {p : Point} (h : p.knows = some false) : p.holds = true := by
  cases p <;> first | rfl | cases h

end Point

end ThreadBaton

open ThreadBaton

/-- A `ThreadBaton` with its threads, and how many posts have returned. -/
structure ThreadBaton (T : Type*) where
  posted : Bool := false
  mutex : Option T := none
  points : T → Point := fun _ => .idle
  succeeded : ℕ := 0

namespace ThreadBaton

variable {T : Type*}

inductive Label (T : Type*) where
  | wait (t : T)
  | post (t : T)
  | step (t : T)
  | notify (t u : T)
  | spurious (t : T)
  deriving DecidableEq

variable [DecidableEq T]

def goTo (s : ThreadBaton T) (t : T) (p : Point) : ThreadBaton T :=
  { s with points := Function.update s.points t p }

def lock (s : ThreadBaton T) (t : T) (p : Point) : Option (ThreadBaton T) :=
  if s.mutex = none then some ({ s with mutex := some t }.goTo t p) else none

def unlock (s : ThreadBaton T) (t : T) (p : Point) : ThreadBaton T :=
  { s with mutex := none }.goTo t p

def advance (s : ThreadBaton T) (t : T) : Option (ThreadBaton T) :=
  match s.points t with
  | .load => some (s.goTo t (if s.posted then .passed else .lockWait))
  | .lockWait => s.lock t .recheck
  | .recheck => some (s.goTo t (if s.posted then .unlockWait else .predicate))
  | .predicate => some (s.goTo t (if s.posted then .loop else .waitCondition))
  | .waitCondition => some (s.unlock t .blocked)
  | .relock => s.lock t .predicate
  | .loop => some (s.goTo t (if s.posted then .unlockWait else .loop))
  | .unlockWait => some (s.unlock t .passed)
  | .lockPost => s.lock t .doPostLoad
  | .doPostLoad => some (s.goTo t (if s.posted then .unlockThrow else .doPostExchange))
  | .doPostExchange =>
      if s.posted then some (s.goTo t .unlockThrow)
      else some ({ s with posted := true }.goTo t .unlockPost)
  | .unlockPost => some (s.unlock t .notify)
  | .unlockThrow => some (s.unlock t .thrown)
  | _ => none

def step [Fintype T] (s : ThreadBaton T) : Label T → Option (ThreadBaton T)
  | .wait t => if (s.points t).atRest then some (s.goTo t .load) else none
  | .post t => if (s.points t).atRest then some (s.goTo t .lockPost) else none
  | .step t =>
      if s.points t = .notify then
        if ∃ u, s.points u = .blocked then none
        else some ({ s with succeeded := s.succeeded + 1 }.goTo t .posted)
      else s.advance t
  | .notify t u =>
      if s.points t = .notify ∧ s.points u = .blocked then
        some (({ s with succeeded := s.succeeded + 1 }.goTo t .posted).goTo u .relock)
      else none
  | .spurious t =>
      if s.points t = .blocked then some (s.goTo t .relock) else none

end ThreadBaton

/-! ### What a step does -/

/-- What a step does to the mutex, given whether the thread had it and has it then. -/
inductive LockStep {T : Type*} (t : T) : Bool → Option T → Bool → Option T → Prop
  | keep (held : Bool) (mutex : Option T) : LockStep t held mutex held mutex
  | lock : LockStep t false none true (some t)
  | unlock (mutex : Option T) : LockStep t true mutex false none

theorem holder_of_lockStep {T : Type*} {holds holds' : T → Bool} {mutex mutex' : Option T}
    {t : T} (hothers : ∀ u, u ≠ t → holds' u = holds u)
    (hlock : LockStep t (holds t) mutex (holds' t) mutex')
    (h : ∀ u, holds u = true ↔ mutex = some u) (u : T) :
    holds' u = true ↔ mutex' = some u := by
  have ht := h t
  have hu := h u
  have hsame := hothers u
  generalize hbefore : holds t = before at hlock ht
  generalize hafter : holds' t = after at hlock
  cases hlock with
  | keep =>
      by_cases heq : u = t
      · rw [heq, hafter]
        exact ht
      · rw [hsame heq]
        exact hu
  | lock =>
      by_cases heq : u = t
      · rw [heq, hafter]
        exact ⟨fun _ => rfl, fun _ => rfl⟩
      · rw [hsame heq, hu]
        exact ⟨nofun, fun hsome => absurd (Option.some_inj.mp hsome).symm heq⟩
  | unlock =>
      by_cases heq : u = t
      · rw [heq, hafter]
        exact ⟨nofun, nofun⟩
      · rw [hsame heq, hu, ht.mp rfl]
        exact ⟨fun hsome => absurd (Option.some_inj.mp hsome).symm heq, nofun⟩

namespace ThreadBaton

variable {T : Type*}

structure Moves (t : T) (s s' : ThreadBaton T) : Prop where
  others : ∀ u, u ≠ t → s'.points u = s.points u
  lock : LockStep t (s.points t).holds s.mutex (s'.points t).holds s'.mutex
  posted : s'.posted = s.posted ∨ s'.posted = true ∧ (s.points t).holds = true
  knows : ∀ b, (s'.points t).knows = some b → s'.posted = b
  once : (s'.points t).winning + s'.succeeded + s.posted.toNat =
    (s.points t).winning + s.succeeded + s'.posted.toNat
  succeeded : s.succeeded ≤ s'.succeeded
  asleep : s'.points t = .blocked → s.points t = .waitCondition

section Invariant

variable [Fintype T]

structure Inv (s : ThreadBaton T) : Prop where
  holder : ∀ t, (s.points t).holds = true ↔ s.mutex = some t
  knows : ∀ t b, (s.points t).knows = some b → s.posted = b
  once : tally Point.winning s.points + s.succeeded = s.posted.toNat

theorem Inv.of_moves {s s' : ThreadBaton T} {t : T} (h : s.Inv) (hmoves : Moves t s s') :
    s'.Inv := by
  have hwinning := tally_of_others Point.winning hmoves.others
  refine ⟨?_, fun u b hknows => ?_, ?_⟩
  · exact holder_of_lockStep (fun u hu => congrArg Point.holds (hmoves.others u hu))
      hmoves.lock h.holder
  · by_cases hu : u = t
    · subst hu
      exact hmoves.knows b hknows
    · rw [hmoves.others u hu] at hknows
      have hposted := h.knows u b hknows
      rcases hmoves.posted with hsame | ⟨htrue, hholds⟩
      · rw [hsame]
        exact hposted
      · -- the thread that sets the flag has the mutex, so the other one has not
        cases b with
        | true => exact htrue
        | false =>
            have hother := (h.holder u).mp (Point.holds_of_knows_false hknows)
            rw [(h.holder t).mp hholds] at hother
            exact absurd (Option.some_inj.mp hother).symm hu
  · have honce := hmoves.once
    have honce' := h.once
    omega

end Invariant

variable [DecidableEq T]

theorem moves_goTo {s s' : ThreadBaton T} {t : T} {p : Point}
    (hpoints : s'.points = s.points) (hmutex : s'.mutex = s.mutex)
    (hholds : p.holds = (s.points t).holds)
    (hposted : s'.posted = s.posted ∨ s'.posted = true ∧ (s.points t).holds = true)
    (hknows : ∀ b, p.knows = some b → s'.posted = b)
    (honce : p.winning + s'.succeeded + s.posted.toNat =
      (s.points t).winning + s.succeeded + s'.posted.toNat)
    (hsucceeded : s.succeeded ≤ s'.succeeded) (hasleep : p ≠ .blocked) :
    Moves t s (s'.goTo t p) := by
  have hself : (s'.goTo t p).points t = p := Function.update_self _ _ _
  refine ⟨fun u hu => ?_, ?_, hposted, ?_, ?_, hsucceeded, fun hblocked => ?_⟩
  · rw [← hpoints]
    exact Function.update_of_ne hu _ _
  · rw [hself, hholds]
    change LockStep t _ _ _ s'.mutex
    rw [hmutex]
    exact .keep _ _
  · rw [hself]
    exact hknows
  · rw [hself]
    exact honce
  · rw [hself] at hblocked
    exact absurd hblocked hasleep

theorem moves_lock {s s' : ThreadBaton T} {t : T} {p q : Point}
    (hpoint : s.points t = p) (hlock : s.lock t q = some s')
    (h : p.holds = false ∧ q.holds = true ∧ q.knows = none ∧ q.winning = p.winning ∧
      q ≠ .blocked) : Moves t s s' := by
  obtain ⟨hheld, hholds, hknows, hwinning, hasleep⟩ := h
  unfold lock at hlock
  split_ifs at hlock with hfree
  cases hlock
  have hself : ({ s with mutex := some t }.goTo t q).points t = q :=
    Function.update_self _ _ _
  refine ⟨fun u hu => Function.update_of_ne hu _ _, ?_, .inl rfl, fun b hb => ?_, ?_,
    le_rfl, fun hblocked => ?_⟩
  · rw [hself, hpoint, hheld, hholds, hfree]
    exact .lock
  · rw [hself, hknows] at hb
    cases hb
  · rw [hself, hpoint, hwinning]
    rfl
  · rw [hself] at hblocked
    exact absurd hblocked hasleep

theorem moves_unlock {s : ThreadBaton T} {t : T} {p q : Point} (hpoint : s.points t = p)
    (hknows : ∀ b, q.knows = some b → s.posted = b)
    (h : p.holds = true ∧ q.holds = false ∧ q.winning = p.winning ∧
      (q = .blocked → p = .waitCondition)) : Moves t s (s.unlock t q) := by
  obtain ⟨hheld, hholds, hwinning, hasleep⟩ := h
  have hself : (s.unlock t q).points t = q := Function.update_self _ _ _
  refine ⟨fun u hu => Function.update_of_ne hu _ _, ?_, .inl rfl, fun b hb => ?_, ?_,
    le_rfl, fun hblocked => ?_⟩
  · rw [hself, hpoint, hheld, hholds]
    exact .unlock _
  · rw [hself] at hb
    exact hknows b hb
  · rw [hself, hpoint, hwinning]
    rfl
  · rw [hself] at hblocked
    exact hpoint.trans (hasleep hblocked)

theorem moves_branch {s : ThreadBaton T} {t : T} {p q q' : Point}
    (hpoint : s.points t = p)
    (h : q.holds = p.holds ∧ q.knows ≠ some false ∧ q.winning = p.winning ∧ q ≠ .blocked)
    (h' : q'.holds = p.holds ∧ q'.knows ≠ some true ∧ q'.winning = p.winning ∧
      q' ≠ .blocked) : Moves t s (s.goTo t (if s.posted then q else q')) := by
  subst hpoint
  cases hposted : s.posted
  · refine moves_goTo rfl rfl h'.1 (.inl rfl) (fun b hb => ?_) ?_ le_rfl h'.2.2.2
    · cases b with
      | true => exact absurd hb h'.2.1
      | false => exact hposted
    · rw [if_neg Bool.false_ne_true, h'.2.2.1]
  · refine moves_goTo rfl rfl h.1 (.inl rfl) (fun b hb => ?_) ?_ le_rfl h.2.2.2
    · cases b with
      | true => exact hposted
      | false => exact absurd hb h.2.1
    · rw [if_pos rfl, h.2.2.1]

theorem moves_of_advance {s s' : ThreadBaton T} {t : T}
    (hknows : ∀ b, (s.points t).knows = some b → s.posted = b)
    (hstep : s.advance t = some s') : Moves t s s' := by
  unfold advance at hstep
  cases hpoint : s.points t with
  | load =>
      rw [hpoint] at hstep
      cases hstep
      exact moves_branch hpoint (by decide) (by decide)
  | lockWait =>
      rw [hpoint] at hstep
      exact moves_lock hpoint hstep (by decide)
  | recheck =>
      rw [hpoint] at hstep
      cases hstep
      exact moves_branch hpoint (by decide) (by decide)
  | predicate =>
      rw [hpoint] at hstep
      cases hstep
      exact moves_branch hpoint (by decide) (by decide)
  | waitCondition =>
      rw [hpoint] at hstep
      cases hstep
      exact moves_unlock hpoint nofun (by decide)
  | relock =>
      rw [hpoint] at hstep
      exact moves_lock hpoint hstep (by decide)
  | loop =>
      rw [hpoint] at hstep hknows
      cases hstep
      have hposted := hknows true rfl
      rw [if_pos hposted]
      refine moves_goTo rfl rfl (by rw [hpoint]; rfl) (.inl rfl) hknows ?_ le_rfl nofun
      rw [hpoint]
      rfl
  | unlockWait =>
      rw [hpoint] at hstep hknows
      cases hstep
      exact moves_unlock hpoint hknows (by decide)
  | lockPost =>
      rw [hpoint] at hstep
      exact moves_lock hpoint hstep (by decide)
  | doPostLoad =>
      rw [hpoint] at hstep
      cases hstep
      exact moves_branch hpoint (by decide) (by decide)
  | doPostExchange =>
      rw [hpoint] at hstep hknows
      have hposted := hknows false rfl
      rw [hposted] at hstep
      cases hstep
      refine moves_goTo rfl rfl (by rw [hpoint]; rfl) (.inr ⟨rfl, by rw [hpoint]; rfl⟩)
        (fun b hb => by cases hb; rfl) ?_ le_rfl nofun
      rw [hpoint, hposted]
      change 1 + s.succeeded + 0 = 0 + s.succeeded + 1
      omega
  | unlockPost =>
      rw [hpoint] at hstep hknows
      cases hstep
      exact moves_unlock hpoint hknows (by decide)
  | unlockThrow =>
      rw [hpoint] at hstep hknows
      cases hstep
      exact moves_unlock hpoint hknows (by decide)
  | _ =>
      rw [hpoint] at hstep
      cases hstep

theorem moves_begin {s : ThreadBaton T} {t : T} {p : Point}
    (hrest : (s.points t).atRest = true)
    (h : p.holds = false ∧ p.knows = none ∧ p.winning = 0 ∧ p ≠ .blocked) :
    Moves t s (s.goTo t p) := by
  obtain ⟨hholds, hknows, hwinning, hasleep⟩ := h
  have hold : (s.points t).holds = false ∧ (s.points t).winning = 0 := by
    cases hpoint : s.points t <;> rw [hpoint] at hrest <;>
      first | exact ⟨rfl, rfl⟩ | cases hrest
  refine moves_goTo rfl rfl (hholds.trans hold.1.symm) (.inl rfl) (fun b hb => ?_) ?_ le_rfl
    hasleep
  · rw [hknows] at hb
    cases hb
  · rw [hwinning, hold.2]

theorem moves_posted {s : ThreadBaton T} {t : T}
    (hknows : ∀ b, (s.points t).knows = some b → s.posted = b)
    (hpoint : s.points t = .notify) :
    Moves t s ({ s with succeeded := s.succeeded + 1 }.goTo t .posted) := by
  rw [hpoint] at hknows
  refine moves_goTo rfl rfl (by rw [hpoint]; rfl) (.inl rfl) hknows ?_ (Nat.le_succ _)
    nofun
  rw [hpoint]
  change 0 + (s.succeeded + 1) + s.posted.toNat = 1 + s.succeeded + s.posted.toNat
  omega

theorem moves_wake {s : ThreadBaton T} {t : T} (hpoint : s.points t = .blocked) :
    Moves t s (s.goTo t .relock) := by
  refine moves_goTo rfl rfl (by rw [hpoint]; rfl) (.inl rfl) nofun ?_ le_rfl nofun
  rw [hpoint]
  rfl

variable [Fintype T]

/-- What a step is: one thread goes on that neither sleeps nor notifies, or it returns
from a `post` that has found nobody asleep, or it wakes a thread up, or one wakes up for
no reason. -/
inductive Stepped (s : ThreadBaton T) : Label T → ThreadBaton T → Prop
  | moves {l : Label T} {t : T} {s' : ThreadBaton T} (hmoves : Moves t s s')
      (hawake : s.points t ≠ .blocked) : Stepped s l s'
  | notify (t u : T) (ht : s.points t = .notify) (hu : s.points u = .blocked) :
      Stepped s (.notify t u)
        (({ s with succeeded := s.succeeded + 1 }.goTo t .posted).goTo u .relock)
  | spurious (t : T) (ht : s.points t = .blocked) :
      Stepped s (.spurious t) (s.goTo t .relock)

theorem stepped_of_step {s s' : ThreadBaton T} (h : s.Inv) {l : Label T}
    (hstep : s.step l = some s') : Stepped s l s' := by
  have hawake : ∀ t, (s.points t).atRest = true → s.points t ≠ .blocked := by
    intro t hrest hblocked
    rw [hblocked] at hrest
    cases hrest
  cases l with
  | wait t =>
      simp only [step] at hstep
      split_ifs at hstep with hrest
      cases hstep
      exact .moves (moves_begin hrest (by decide)) (hawake t hrest)
  | post t =>
      simp only [step] at hstep
      split_ifs at hstep with hrest
      cases hstep
      exact .moves (moves_begin hrest (by decide)) (hawake t hrest)
  | step t =>
      simp only [step] at hstep
      split_ifs at hstep with hnotify hasleep
      · cases hstep
        refine .moves (moves_posted (h.knows t) hnotify) ?_
        rw [hnotify]
        exact Point.noConfusion
      · refine .moves (moves_of_advance (h.knows t) hstep) fun hblocked => ?_
        rw [advance, hblocked] at hstep
        cases hstep
  | notify t u =>
      simp only [step] at hstep
      split_ifs at hstep with hboth
      cases hstep
      exact .notify t u hboth.1 hboth.2
  | spurious t =>
      simp only [step] at hstep
      split_ifs at hstep with hblocked
      cases hstep
      exact .spurious t hblocked

theorem Inv.of_step {s s' : ThreadBaton T} (h : s.Inv) {l : Label T}
    (hstep : s.step l = some s') : s'.Inv := by
  cases stepped_of_step h hstep with
  | moves hmoves => exact h.of_moves hmoves
  | notify t u ht hu =>
      have hne : u ≠ t := fun heq => by
        rw [heq, ht] at hu
        cases hu
      refine (h.of_moves (moves_posted (h.knows t) ht)).of_moves (moves_wake ?_)
      exact (Function.update_of_ne hne _ _).trans hu
  | spurious t ht => exact h.of_moves (moves_wake ht)

omit [DecidableEq T] in
theorem new_inv : ({} : ThreadBaton T).Inv where
  holder _ := ⟨nofun, nofun⟩
  knows _ _ := nofun
  once := tally_const _ _

theorem inv_of_run {ls : List (Label T)} {s : ThreadBaton T}
    (hr : run step {} ls = some s) : s.Inv :=
  run_invariant (fun _ _ _ h hstep => h.of_step hstep) new_inv hr

/-- In every run: at most one thread has the mutex, a wait has returned only where the
flag is set, and a set flag means one post that has returned or is on its way out. -/
theorem posted_of_run {ls : List (Label T)} {s : ThreadBaton T}
    (hr : run step {} ls = some s) :
    (∀ t u, (s.points t).holds = true → (s.points u).holds = true → t = u) ∧
      (∀ t, s.points t = .passed ∨ s.points t = .thrown → s.posted = true) ∧
        tally Point.winning s.points + s.succeeded = s.posted.toNat := by
  have h := inv_of_run hr
  refine ⟨fun t u ht hu => ?_, fun t ht => ?_, h.once⟩
  · have hholder := (h.holder t).mp ht
    rw [(h.holder u).mp hu] at hholder
    exact (Option.some_inj.mp hholder).symm
  · refine h.knows t true ?_
    rcases ht with ht | ht <;> rw [ht] <;> rfl

/-- Two threads go to sleep, and the third one posts. -/
def twoAsleep : List (Label (Fin 3)) :=
  [.wait 0, .step 0, .step 0, .step 0, .step 0, .step 0, .wait 1, .step 1, .step 1,
    .step 1, .step 1, .step 1, .post 2, .step 2, .step 2, .step 2, .step 2]

theorem posted_twoAsleep :
    ∃ s, run step ({} : ThreadBaton (Fin 3)) twoAsleep = some s ∧
      tally Point.winning s.points + s.succeeded = s.posted.toNat := by
  obtain ⟨s, hs⟩ : ∃ s, run step ({} : ThreadBaton (Fin 3)) twoAsleep = some s :=
    Option.isSome_iff_exists.mp (by decide)
  exact ⟨s, hs, (posted_of_run hs).2.2⟩

/-- The threads that sleep after the notification. -/
structure Stranded (asleep : T → Prop) (s : ThreadBaton T) : Prop where
  inv : s.Inv
  posted : s.posted = true
  winning : tally Point.winning s.points = 0
  asleep : ∀ t, s.points t = .blocked ↔ asleep t

def Label.IsSpurious : Label T → Prop
  | .spurious _ => True
  | _ => False

/-- After the notification no thread falls asleep, and none is woken up. -/
theorem Stranded.of_step {asleep : T → Prop} {s s' : ThreadBaton T} {l : Label T}
    (h : s.Stranded asleep) (hl : ¬ l.IsSpurious) (hstep : s.step l = some s') :
    s'.Stranded asleep := by
  have hinv := h.inv.of_step hstep
  cases stepped_of_step h.inv hstep with
  | @moves _ t s' hmoves hawake =>
      have hposted : s'.posted = true := by
        rcases hmoves.posted with hsame | ⟨htrue, -⟩
        · rw [hsame]
          exact h.posted
        · exact htrue
      have hwinning : tally Point.winning s'.points = 0 := by
        have honce := h.inv.once
        have honce' := hinv.once
        have hle := hmoves.succeeded
        rw [h.winning, h.posted] at honce
        rw [hposted] at honce'
        omega
      refine ⟨hinv, hposted, hwinning, fun u => ?_⟩
      rw [← h.asleep u]
      by_cases hu : u = t
      · subst hu
        refine ⟨fun hblocked => ?_, fun hblocked => absurd hblocked hawake⟩
        -- one that goes to sleep has seen that the flag is not set
        have hknows := h.inv.knows u false (by rw [hmoves.asleep hblocked]; rfl)
        rw [h.posted] at hknows
        cases hknows
      · rw [hmoves.others u hu]
  | notify t u ht hu =>
      have hle := le_tally Point.winning s.points t
      rw [h.winning, ht] at hle
      exact absurd hle (Nat.not_succ_le_zero 0)
  | spurious t ht => exact absurd trivial hl

/-- `notify_one` wakes up one thread. As long as none wakes up for no reason, the others
that sleep then sleep on, whatever is called, and no thread falls asleep any more. -/
theorem stranded_of_run {before after : List (Label T)} {s s' s'' : ThreadBaton T}
    {t u : T} (hbefore : run step {} before = some s)
    (hnotify : s.step (.notify t u) = some s') (hafter : run step s' after = some s'')
    (hquiet : ∀ l ∈ after, ¬ l.IsSpurious) (v : T) :
    s''.points v = .blocked ↔ s.points v = .blocked ∧ v ≠ u := by
  have h := inv_of_run hbefore
  have h' := h.of_step hnotify
  simp only [step] at hnotify
  split_ifs at hnotify with hboth
  cases hnotify
  obtain ⟨ht, hu⟩ := hboth
  have hne : t ≠ u := fun heq => by
    rw [heq, hu] at ht
    cases ht
  have hposted : s.posted = true := h.knows t true (by rw [ht]; rfl)
  have hstranded : Stranded (fun v => s.points v = .blocked ∧ v ≠ u)
      (({ s with succeeded := s.succeeded + 1 }.goTo t .posted).goTo u .relock) := by
    refine ⟨h', hposted, ?_, fun v => ?_⟩
    · have honce := h'.once
      change _ + (s.succeeded + 1) = s.posted.toNat at honce
      have hone : s.posted.toNat = 1 := by rw [hposted]; rfl
      omega
    · change Function.update (Function.update s.points t .posted) u .relock v = _ ↔ _
      by_cases hvu : v = u
      · rw [hvu, Function.update_self]
        exact ⟨nofun, fun hv => absurd rfl hv.2⟩
      · rw [Function.update_of_ne hvu]
        by_cases hvt : v = t
        · rw [hvt, Function.update_self, ht]
          exact ⟨nofun, nofun⟩
        · rw [Function.update_of_ne hvt]
          exact ⟨fun hv => ⟨hv, hvu⟩, fun hv => hv.1⟩
  exact (run_invariant_of_meets (fun _ _ _ hs hl hstep => hs.of_step hl hstep) hstranded
    (meets_of_labels step hquiet _) hafter).asleep v

/-- The thread that is woken up returns. -/
def zeroReturns : List (Label (Fin 3)) := List.replicate 4 (.step 0)

theorem exists_run_zeroReturns : ∃ s s' s'', run step ({} : ThreadBaton (Fin 3)) twoAsleep =
    some s ∧ s.step (.notify 2 0) = some s' ∧ run step s' zeroReturns = some s'' := by
  obtain ⟨s'', h⟩ : ∃ s'', run step ({} : ThreadBaton (Fin 3))
      (twoAsleep ++ .notify 2 0 :: zeroReturns) = some s'' :=
    Option.isSome_iff_exists.mp (by decide)
  rw [run_append, Option.bind_eq_some_iff] at h
  obtain ⟨s, hs, h⟩ := h
  obtain ⟨s', hs', hs''⟩ := (run_cons_eq_some_iff _ _ _ _ _).mp h
  exact ⟨s, s', s'', hs, hs', hs''⟩

theorem stranded_zeroReturns :
    ∃ s s' s'', run step ({} : ThreadBaton (Fin 3)) twoAsleep = some s ∧
      s.step (.notify 2 0) = some s' ∧ run step s' zeroReturns = some s'' ∧
      (s''.points 1 = .blocked ↔ s.points 1 = .blocked ∧ (1 : Fin 3) ≠ 0) := by
  obtain ⟨s, s', s'', hs, hs', hs''⟩ := exists_run_zeroReturns
  refine ⟨s, s', s'', hs, hs', hs'', ?_⟩
  exact stranded_of_run hs hs' hs'' (by simp [zeroReturns, Label.IsSpurious]) 1

/-- A step that goes on with a call. -/
def Label.Own : Label T → Prop
  | .step _ | .notify _ _ => True
  | _ => False

omit [Fintype T] in
theorem rank_lt_of_advance {s s' : ThreadBaton T} {t : T} (hposted : s.posted = true)
    (hknows : ∀ b, (s.points t).knows = some b → s.posted = b)
    (hstep : s.advance t = some s') :
    (s'.points t).rank < (s.points t).rank := by
  have hself : ∀ (s : ThreadBaton T) (p : Point), (s.goTo t p).points t = p :=
    fun _ _ => Function.update_self _ _ _
  unfold advance lock at hstep
  cases hpoint : s.points t with
  | waitCondition =>
      have hfalse := hknows false (by rw [hpoint]; rfl)
      exact absurd (hposted.symm.trans hfalse) Bool.noConfusion
  | doPostExchange =>
      have hfalse := hknows false (by rw [hpoint]; rfl)
      exact absurd (hposted.symm.trans hfalse) Bool.noConfusion
  | lockWait | relock | lockPost =>
      rw [hpoint] at hstep
      dsimp only at hstep
      split_ifs at hstep
      cases hstep
      rw [hself]
      decide
  | load | recheck | predicate | loop | doPostLoad =>
      rw [hpoint] at hstep
      cases hstep
      rw [hself, if_pos hposted]
      decide
  | unlockWait | unlockPost | unlockThrow =>
      rw [hpoint] at hstep
      cases hstep
      rw [unlock, hself]
      decide
  | _ =>
      rw [hpoint] at hstep
      cases hstep

/-- The threads together come nearer to rest. -/
theorem rank_lt_of_step {s s' : ThreadBaton T} {l : Label T} (h : s.Inv)
    (hposted : s.posted = true) (hl : l.Own) (hstep : s.step l = some s') :
    s'.posted = true ∧ tally Point.rank s'.points < tally Point.rank s.points := by
  cases l with
  | wait t => exact hl.elim
  | post t => exact hl.elim
  | spurious t => exact hl.elim
  | step t =>
      simp only [step] at hstep
      split_ifs at hstep with hnotify hasleep
      · cases hstep
        refine ⟨hposted, ?_⟩
        have htally := tally_update Point.rank s.points t .posted
        rw [hnotify] at htally
        change tally Point.rank (Function.update s.points t .posted) < _
        change _ + 6 = _ + 0 at htally
        omega
      · have hmoves := moves_of_advance (h.knows t) hstep
        have hlt := rank_lt_of_advance hposted (h.knows t) hstep
        have htally := tally_of_others Point.rank hmoves.others
        refine ⟨?_, by omega⟩
        rcases hmoves.posted with hsame | ⟨htrue, -⟩
        · rw [hsame]
          exact hposted
        · exact htrue
  | notify t u =>
      simp only [step] at hstep
      split_ifs at hstep with hboth
      cases hstep
      obtain ⟨ht, hu⟩ := hboth
      have hne : u ≠ t := fun heq => by
        rw [heq, ht] at hu
        cases hu
      refine ⟨hposted, ?_⟩
      have htally := tally_update Point.rank s.points t .posted
      have htally' := tally_update Point.rank (Function.update s.points t .posted) u .relock
      rw [ht] at htally
      rw [Function.update_of_ne hne, hu] at htally'
      change tally Point.rank (Function.update (Function.update s.points t .posted) u .relock)
        < _
      change _ + 6 = _ + 0 at htally
      change _ + 0 = _ + 4 at htally'
      omega

omit [Fintype T] in
theorem exists_advance {s : ThreadBaton T} {t : T}
    (hcall : (s.points t).atRest = false) (hblocked : s.points t ≠ .blocked)
    (hnotify : s.points t ≠ .notify)
    (hlock : (s.points t).holds = true ∨ s.mutex = none) : ∃ s', s.advance t = some s' := by
  unfold advance lock
  cases hpoint : s.points t with
  | blocked => exact absurd hpoint hblocked
  | notify => exact absurd hpoint hnotify
  | idle | passed | posted | thrown =>
      rw [hpoint] at hcall
      cases hcall
  | lockWait | relock | lockPost =>
      rw [hpoint] at hlock
      dsimp only
      rw [if_pos (hlock.resolve_left Bool.noConfusion)]
      exact ⟨_, rfl⟩
  | doPostExchange =>
      dsimp only
      split_ifs <;> exact ⟨_, rfl⟩
  | _ => exact ⟨_, rfl⟩

theorem exists_step {s : ThreadBaton T} (h : s.Inv)
    (hfinal : ¬ ∀ t, (s.points t).atRest = true ∨ s.points t = .blocked) :
    ∃ l s', l.Own ∧ s.step l = some s' := by
  obtain ⟨t, ht⟩ := not_forall.mp hfinal
  rw [not_or, Bool.not_eq_true] at ht
  by_cases hnotify : s.points t = .notify
  · by_cases hasleep : ∃ u, s.points u = .blocked
    · obtain ⟨u, hu⟩ := hasleep
      exact ⟨.notify t u, _, trivial, by rw [step, if_pos ⟨hnotify, hu⟩]⟩
    · exact ⟨.step t, _, trivial, by rw [step, if_pos hnotify, if_neg hasleep]⟩
  · obtain ⟨u, hcall, hblocked, hnotify', hlock⟩ : ∃ u, (s.points u).atRest = false ∧
        s.points u ≠ .blocked ∧ s.points u ≠ .notify ∧
        ((s.points u).holds = true ∨ s.mutex = none) := by
      cases hmutex : s.mutex with
      | none => exact ⟨t, ht.1, ht.2, hnotify, .inr rfl⟩
      | some u =>
          have hholds := (h.holder u).mpr hmutex
          refine ⟨u, ?_, fun heq => ?_, fun heq => ?_, .inl hholds⟩
          · cases hpoint : s.points u <;> rw [hpoint] at hholds <;>
              first | rfl | cases hholds
          · rw [heq] at hholds
            cases hholds
          · rw [heq] at hholds
            cases hholds
    obtain ⟨s', hs'⟩ := exists_advance hcall hblocked hnotify' hlock
    refine ⟨.step u, s', trivial, ?_⟩
    rw [step, if_neg hnotify']
    exact hs'

/-- Once the flag is set, the threads come to rest whichever of them goes on, if no call
begins and none wakes up for no reason: there are not more steps than their ranks add up
to, and where there is no further step every thread has returned or sleeps. -/
theorem returns_of_run {before after : List (Label T)} {s s' : ThreadBaton T}
    (hbefore : run step {} before = some s) (hposted : s.posted = true)
    (hown : ∀ l ∈ after, l.Own) (hafter : run step s after = some s') :
    after.length ≤ tally Point.rank s.points ∧
      ((∃ l s'', l.Own ∧ s'.step l = some s'') ∨
        ∀ t, (s'.points t).atRest = true ∨ s'.points t = .blocked) := by
  have h := inv_of_run hbefore
  have hlength := run_length_le (I := fun s => s.Inv ∧ s.posted = true)
    (fun s l s' hs hl hstep =>
      have hlt := rank_lt_of_step hs.1 hs.2 hl hstep
      ⟨⟨hs.1.of_step hstep, hlt.1⟩, hlt.2⟩)
    ⟨h, hposted⟩ (meets_of_labels step hown s) hafter
  have h' : s'.Inv := run_invariant (fun _ _ _ h hstep => h.of_step hstep) h hafter
  refine ⟨(Nat.le_add_right _ _).trans hlength, ?_⟩
  by_cases hfinal : ∀ t, (s'.points t).atRest = true ∨ s'.points t = .blocked
  · exact .inr hfinal
  · exact .inl (exists_step h' hfinal)

theorem returns_zeroReturns :
    ∃ s s'', run step ({} : ThreadBaton (Fin 3)) twoAsleep = some s ∧
      run step s (.notify 2 0 :: zeroReturns) = some s'' ∧
      ((∃ l s₃, l.Own ∧ s''.step l = some s₃) ∨
        ∀ t, (s''.points t).atRest = true ∨ s''.points t = .blocked) := by
  obtain ⟨s, s', s'', hs, hs', hs''⟩ := exists_run_zeroReturns
  have hposted : (run step ({} : ThreadBaton (Fin 3)) twoAsleep).map (fun s => s.posted) =
      some true := by decide
  rw [hs, Option.map_some, Option.some_inj] at hposted
  have hafter := (run_cons_eq_some_iff _ _ _ _ _).mpr ⟨s', hs', hs''⟩
  exact ⟨s, s'', hs, hafter,
    (returns_of_run hs hposted (by simp [zeroReturns, Label.Own]) hafter).2⟩

end ThreadBaton

end Locks

end Kclpp
