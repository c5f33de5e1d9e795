import Kclpp.Transition.Run

/-!
# Moments of a run

`Sometime step P s ls` says that the run passes a state with `P`. An answer that was
right at some moment of a call need not be right any more when the call returns;
`sometime_of_run` finds the moment: a property that holds at the end of a run and not
at its start has come about in a step, and what that step needs has held.
`answers_lt_of_count` is about a party that gets on with every step of its own, whatever
the others do: after enough of them it has come back.
-/

namespace Transition

/-- The run passes a state with `P`. -/
def Sometime {σ ℓ : Type*} (step : σ → ℓ → Option σ) (P : σ → Prop) (s : σ)
    (ls : List ℓ) : Prop :=
  ∃ before after t, ls = before ++ after ∧ run step s before = some t ∧ P t

theorem sometime_of_start {σ ℓ : Type*} (step : σ → ℓ → Option σ) {P : σ → Prop}
    {s : σ} (h : P s) (ls : List ℓ) : Sometime step P s ls :=
  ⟨[], ls, s, rfl, rfl, h⟩

theorem sometime_cons {σ ℓ : Type*} {step : σ → ℓ → Option σ} {P : σ → Prop}
    {s t : σ} {l : ℓ} (h : step s l = some t) {ls : List ℓ}
    (hrest : Sometime step P t ls) : Sometime step P s (l :: ls) := by
  obtain ⟨before, after, u, rfl, hrun, hu⟩ := hrest
  refine ⟨l :: before, after, u, rfl, ?_, hu⟩
  rw [run_cons, h]
  exact hrun

theorem sometime_mono {σ ℓ : Type*} {step : σ → ℓ → Option σ} {P Q : σ → Prop}
    (h : ∀ s, P s → Q s) {s : σ} {ls : List ℓ} (hP : Sometime step P s ls) :
    Sometime step Q s ls := by
  obtain ⟨before, after, t, heq, hrun, ht⟩ := hP
  exact ⟨before, after, t, heq, hrun, h t ht⟩

/-- What holds at the end of a run, does not hold at its start and comes about only
in states with `P`, shows that the run passes such a state. -/
theorem sometime_of_run {σ ℓ : Type*} {step : σ → ℓ → Option σ} {I P Q : σ → Prop}
    (hinv : ∀ s l s', I s → step s l = some s' → I s')
    (hcause : ∀ s l s', I s → step s l = some s' → Q s' → Q s ∨ P s)
    {s s' : σ} {ls : List ℓ} (hs : I s) (hr : run step s ls = some s')
    (hstart : ¬ Q s) (hend : Q s') : Sometime step P s ls := by
  induction ls generalizing s with
  | nil =>
      cases hr
      exact absurd hend hstart
  | cons l ls ih =>
      obtain ⟨t, ht, htr⟩ := (run_cons_eq_some_iff step s s' l ls).mp hr
      by_cases hQ : Q t
      · rcases hcause s l t hs ht hQ with h | h
        · exact absurd h hstart
        · exact sometime_of_start step h (l :: ls)
      · exact sometime_cons ht (ih (hinv s l t hs ht) htr hQ)

/-- A party whose own steps lower a rank, which the steps of others do not raise, has
one answer more once it has taken more steps than its rank. -/
theorem answers_lt_of_count {σ ℓ : Type*} {step : σ → ℓ → Option σ}
    (I busy : σ → Prop) (answers rank : σ → ℕ) (own : ℓ → Bool)
    (hinv : ∀ s l s', I s → step s l = some s' → I s')
    (hmono : ∀ s l s', I s → step s l = some s' → answers s ≤ answers s')
    (hstep : ∀ s l s', I s → busy s → step s l = some s' →
      answers s < answers s' ∨
        busy s' ∧ rank s' + (if own l then 1 else 0) ≤ rank s)
    {s s' : σ} {ls : List ℓ} (hs : I s) (hbusy : busy s) (hr : run step s ls = some s')
    (hcount : rank s < ls.countP own) : answers s < answers s' := by
  induction ls generalizing s with
  | nil => exact absurd hcount (Nat.not_lt_zero _)
  | cons l ls ih =>
      obtain ⟨t, ht, htr⟩ := (run_cons_eq_some_iff step s s' l ls).mp hr
      have hIt := hinv s l t hs ht
      rcases hstep s l t hs hbusy ht with h | ⟨hbusy', hrank⟩
      · have hle : answers t ≤ answers s' :=
          (run_invariant (I := fun u => I u ∧ answers t ≤ answers u)
            (fun u l u' hu hstep => ⟨hinv u l u' hu.1 hstep,
              hu.2.trans (hmono u l u' hu.1 hstep)⟩) ⟨hIt, le_rfl⟩ htr).2
        exact h.trans_le hle
      · rw [List.countP_cons] at hcount
        exact (hmono s l t hs ht).trans_lt (ih hIt hbusy' htr (by omega))

end Transition
