import Kclpp.Async.Vendored.ConcurrentQueue.LightweightSemaphore

/-!
# The calls of a semaphore

What one that uses the semaphore sees of it: a wait ends with a number of tokens, a
signal ends, and in between a call changes neither the answers nor, but for its one
addition, the signals.
-/

namespace Kclpp

namespace Async

namespace Vendored

namespace Moodycamel

namespace MpmcSema

open Parties Transition

inductive Kind where
  | rest
  | wait
  | signal
  deriving DecidableEq, Repr

namespace Point

def kind : Point → Kind
  | .idle | .returned _ => .rest
  | .signal _ | .post _ => .signal
  | _ => .wait

def toSignal : Point → ℕ
  | .signal count => count
  | _ => 0

theorem AtRest.toSignal {p : Point} (h : p.AtRest) : p.toSignal = 0 := by
  cases p <;> first | rfl | exact h.elim

def result : Point → ℕ
  | .returned acquired => acquired
  | _ => 0

theorem atRest_iff (p : Point) : p.AtRest ↔ p.kind = .rest := by
  cases p <;> simp [AtRest, kind]

theorem toSignal_of_wait {p : Point} (h : p.kind = .wait) : p.toSignal = 0 := by
  cases p with
  | signal => cases h
  | _ => rfl

/-- Where a step of a call leads. -/
def Follows (p p' : Point) : Prop :=
  (p.kind = .wait ∧ (p'.kind = .wait ∨ ∃ n, p' = .returned n)) ∨
    p.kind = .signal ∧ (p'.kind = .signal ∨ p' = .idle)

end Point

def Label.Inside {T : Type*} : Label T → Prop
  | .call _ _ | .signal _ _ => False
  | _ => True

instance {T : Type*} : DecidablePred (Label.Inside (T := T)) := fun l => by
  cases l <;> unfold Label.Inside <;> infer_instance

namespace System

variable {T : Type*}

/-- A step of one thread inside its call. -/
structure Proceeds (t : T) (s s' : System T) : Prop where
  follows : (s.points t).Follows (s'.points t)
  signals : s'.signals.sum + (s'.points t).toSignal =
    s.signals.sum + (s.points t).toSignal
  answers : s'.answers.sum = s.answers.sum + (s'.points t).result

variable [DecidableEq T] {t : T} {s s' : System T}

theorem proceeds_goTo {p : Point} (hfollows : (s.points t).Follows p)
    (hsignals : s'.signals.sum + p.toSignal = s.signals.sum + (s.points t).toSignal)
    (hanswers : s'.answers = s.answers) (hresult : p.result = 0) :
    Proceeds t s (s'.goTo t p) := by
  have hself : (s'.goTo t p).points t = p := Function.update_self _ _ _
  refine ⟨?_, ?_, ?_⟩
  · rw [hself]
    exact hfollows
  · rw [hself]
    exact hsignals
  · rw [hself, hresult]
    exact congrArg List.sum hanswers

theorem proceeds_answer {acquired : ℕ} (hkind : (s.points t).kind = .wait)
    (hsignals : s'.signals = s.signals) (hanswers : s'.answers = s.answers) :
    Proceeds t s (s'.answer t acquired) := by
  have hself : (s'.answer t acquired).points t = .returned acquired :=
    Function.update_self _ _ _
  refine ⟨?_, ?_, ?_⟩
  · rw [hself]
    exact .inl ⟨hkind, .inr ⟨acquired, rfl⟩⟩
  · rw [hself, Point.toSignal_of_wait hkind]
    exact congrArg List.sum hsignals
  · rw [hself, answer, List.sum_append, List.sum_singleton, hanswers]
    rfl

theorem proceeds_wait {p : Point} (hkind : (s.points t).kind = .wait)
    (hkind' : p.kind = .wait) (hsignals : s'.signals = s.signals)
    (hanswers : s'.answers = s.answers) : Proceeds t s (s'.goTo t p) := by
  refine proceeds_goTo (.inl ⟨hkind, .inl hkind'⟩) ?_ hanswers ?_
  · rw [Point.toSignal_of_wait hkind, Point.toSignal_of_wait hkind', hsignals]
  · cases p with
    | returned => cases hkind'
    | _ => rfl

theorem proceeds_tryLoop (request : Request) (oldCount : ℤ)
    (hkind : (s.points t).kind = .wait) :
    Proceeds t s (s.tryLoop t request oldCount) := by
  unfold tryLoop
  split_ifs
  · exact proceeds_wait hkind rfl rfl rfl
  · exact proceeds_wait hkind rfl rfl rfl
  · exact proceeds_answer hkind rfl rfl

theorem proceeds_restLoop (request : Request) (oldCount : ℤ)
    (hkind : (s.points t).kind = .wait) :
    Proceeds t s (s.restLoop t request oldCount) := by
  unfold restLoop
  split_ifs
  · exact proceeds_wait hkind rfl rfl rfl
  · exact proceeds_answer hkind rfl rfl

theorem proceeds_acquiredOne (request : Request) (hkind : (s.points t).kind = .wait)
    (hsignals : s'.signals = s.signals) (hanswers : s'.answers = s.answers) :
    Proceeds t s (s'.acquiredOne t request) := by
  unfold acquiredOne
  split_ifs
  · exact proceeds_wait hkind rfl hsignals hanswers
  · exact proceeds_answer hkind hsignals hanswers

theorem proceeds_of_advance (hstep : s.advance t = some s') : Proceeds t s s' := by
  unfold advance at hstep
  cases hpoint : s.points t with
  | idle =>
      rw [hpoint] at hstep
      cases hstep
  | returned acquired =>
      rw [hpoint] at hstep
      cases hstep
  | signal count =>
      rw [hpoint] at hstep
      cases hstep
      refine proceeds_goTo ?_ ?_ rfl rfl
      · rw [hpoint]
        exact .inr ⟨rfl, .inl rfl⟩
      · rw [hpoint, List.sum_append, List.sum_singleton]
        rfl
  | post left =>
      rw [hpoint] at hstep
      cases left with
      | zero =>
          cases hstep
          refine proceeds_goTo ?_ ?_ rfl rfl
          · rw [hpoint]
            exact .inr ⟨rfl, .inr rfl⟩
          · rw [hpoint]
            rfl
      | succ left =>
          cases hstep
          refine proceeds_goTo ?_ ?_ rfl rfl
          · rw [hpoint]
            exact .inr ⟨rfl, .inl rfl⟩
          · rw [hpoint]
            rfl
  | tryLoad request =>
      have hkind : (s.points t).kind = .wait := hpoint ▸ rfl
      rw [hpoint] at hstep
      cases hstep
      exact proceeds_tryLoop request s.count hkind
  | spin request left =>
      have hkind : (s.points t).kind = .wait := hpoint ▸ rfl
      rw [hpoint] at hstep
      cases left with
      | zero =>
          cases hstep
          exact proceeds_wait hkind rfl rfl rfl
      | succ left =>
          cases hstep
          split_ifs <;> exact proceeds_wait hkind rfl rfl rfl
  | timedOut request =>
      have hkind : (s.points t).kind = .wait := hpoint ▸ rfl
      rw [hpoint] at hstep
      cases hstep
      split_ifs <;> exact proceeds_wait hkind rfl rfl rfl
  | restLoad request =>
      have hkind : (s.points t).kind = .wait := hpoint ▸ rfl
      rw [hpoint] at hstep
      cases hstep
      exact proceeds_restLoop request s.count hkind
  | tryExchange request oldCount =>
      have hkind : (s.points t).kind = .wait := hpoint ▸ rfl
      rw [hpoint] at hstep
      dsimp only at hstep
      split_ifs at hstep <;> cases hstep
      · exact proceeds_answer hkind rfl rfl
      · exact proceeds_tryLoop request s.count hkind
  | spinExchange request left oldCount =>
      have hkind : (s.points t).kind = .wait := hpoint ▸ rfl
      rw [hpoint] at hstep
      dsimp only at hstep
      split_ifs at hstep <;> cases hstep
      · exact proceeds_answer hkind rfl rfl
      · exact proceeds_wait hkind rfl rfl rfl
  | fetchSub request =>
      have hkind : (s.points t).kind = .wait := hpoint ▸ rfl
      rw [hpoint] at hstep
      dsimp only at hstep
      split_ifs at hstep <;> cases hstep
      · exact proceeds_acquiredOne request hkind rfl rfl
      · exact proceeds_wait hkind rfl rfl rfl
  | semaWait request =>
      have hkind : (s.points t).kind = .wait := hpoint ▸ rfl
      rw [hpoint] at hstep
      dsimp only at hstep
      split_ifs at hstep
      cases hstep
      exact proceeds_acquiredOne request hkind rfl rfl
  | timedOutTryWait request =>
      have hkind : (s.points t).kind = .wait := hpoint ▸ rfl
      rw [hpoint] at hstep
      dsimp only at hstep
      split_ifs at hstep <;> cases hstep
      · exact proceeds_acquiredOne request hkind rfl rfl
      · exact proceeds_wait hkind rfl rfl rfl
  | timedOutExchange request oldCount =>
      have hkind : (s.points t).kind = .wait := hpoint ▸ rfl
      rw [hpoint] at hstep
      dsimp only at hstep
      split_ifs at hstep <;> cases hstep
      · exact proceeds_answer hkind rfl rfl
      · exact proceeds_wait hkind rfl rfl rfl
  | restExchange request oldCount =>
      have hkind : (s.points t).kind = .wait := hpoint ▸ rfl
      rw [hpoint] at hstep
      dsimp only at hstep
      split_ifs at hstep <;> cases hstep
      · exact proceeds_answer hkind rfl rfl
      · exact proceeds_restLoop request s.count hkind

theorem proceeds_of_step {l : Label T} (hinside : l.Inside) (hstep : s.step l = some s') :
    Proceeds l.thread s s' := by
  cases l with
  | call t request => exact hinside.elim
  | signal t count => exact hinside.elim
  | step t => exact proceeds_of_advance hstep
  | weakFailure t =>
      simp only [step] at hstep
      cases hpoint : s.points t with
      | tryExchange request oldCount =>
          rw [hpoint] at hstep
          cases hstep
          exact proceeds_tryLoop request s.count (hpoint ▸ rfl)
      | restExchange request oldCount =>
          rw [hpoint] at hstep
          cases hstep
          exact proceeds_restLoop request s.count (hpoint ▸ rfl)
      | _ =>
          rw [hpoint] at hstep
          cases hstep
  | timeout t =>
      simp only [step] at hstep
      cases hpoint : s.points t with
      | semaWait request =>
          rw [hpoint] at hstep
          dsimp only at hstep
          split_ifs at hstep
          cases hstep
          exact proceeds_wait (hpoint ▸ rfl) rfl rfl rfl
      | _ =>
          rw [hpoint] at hstep
          cases hstep
  | invalid t nanoseconds =>
      simp only [step] at hstep
      cases hpoint : s.points t with
      | semaWait request =>
          rw [hpoint] at hstep
          dsimp only at hstep
          split_ifs at hstep
          cases hstep
          exact proceeds_acquiredOne request (hpoint ▸ rfl) rfl rfl
      | _ =>
          rw [hpoint] at hstep
          cases hstep

end System

end MpmcSema

end Moodycamel

end Vendored

end Async

end Kclpp
