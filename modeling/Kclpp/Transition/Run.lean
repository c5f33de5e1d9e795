import Mathlib

/-!
# Runs of a labelled transition function

`step s l` is the state after the label `l`, and `none` when `l` is not enabled
in `s`. All nondeterminism is in the labels, so a run is a list of labels and
`run step s ls` is the state it ends in. `Meets step ok s ls` says that every
step of the run starts in a state where `ok` admits its label; it is the form
in which a run is restricted to the steps that satisfy a side condition.

The induction over a run is made once, in `run_invariant_of_meets`, for a step
that preserves the invariant where the side condition holds; `run_invariant` is
for a step that preserves it outright. Nothing in this module names a particular
system.
-/

namespace Transition

/-- Follow a list of labels; `none` as soon as one of them is not enabled. -/
def run {σ ℓ : Type*} (step : σ → ℓ → Option σ) : σ → List ℓ → Option σ
  | s, [] => some s
  | s, l :: ls => (step s l).bind fun s' => run step s' ls

/-- Every step of the run starts in a state where `ok` admits its label. -/
def Meets {σ ℓ : Type*} (step : σ → ℓ → Option σ) (ok : σ → ℓ → Prop) :
    σ → List ℓ → Prop
  | _, [] => True
  | s, l :: ls => ok s l ∧ ∀ s', step s l = some s' → Meets step ok s' ls

@[simp] theorem run_nil {σ ℓ : Type*} (step : σ → ℓ → Option σ) (s : σ) :
    run step s [] = some s := rfl

theorem run_cons {σ ℓ : Type*} (step : σ → ℓ → Option σ) (s : σ) (l : ℓ)
    (ls : List ℓ) :
    run step s (l :: ls) = (step s l).bind fun s' => run step s' ls := rfl

theorem run_cons_eq_some_iff {σ ℓ : Type*} (step : σ → ℓ → Option σ)
    (s s' : σ) (l : ℓ) (ls : List ℓ) :
    run step s (l :: ls) = some s' ↔
      ∃ t, step s l = some t ∧ run step t ls = some s' := by
  rw [run_cons, Option.bind_eq_some_iff]

theorem run_append {σ ℓ : Type*} (step : σ → ℓ → Option σ) (s : σ)
    (ls ls' : List ℓ) :
    run step s (ls ++ ls') = (run step s ls).bind fun s' => run step s' ls' := by
  induction ls generalizing s with
  | nil => rfl
  | cons l ls ih =>
      rw [List.cons_append, run_cons, run_cons, Option.bind_assoc]
      exact congrArg _ (funext ih)

@[simp] theorem meets_nil {σ ℓ : Type*} (step : σ → ℓ → Option σ)
    (ok : σ → ℓ → Prop) (s : σ) : Meets step ok s [] := trivial

theorem meets_cons {σ ℓ : Type*} (step : σ → ℓ → Option σ)
    (ok : σ → ℓ → Prop) (s : σ) (l : ℓ) (ls : List ℓ) :
    Meets step ok s (l :: ls) ↔
      ok s l ∧ ∀ s', step s l = some s' → Meets step ok s' ls := Iff.rfl

theorem meets_append {σ ℓ : Type*} (step : σ → ℓ → Option σ)
    (ok : σ → ℓ → Prop) (s : σ) (ls ls' : List ℓ) :
    Meets step ok s (ls ++ ls') ↔
      Meets step ok s ls ∧ ∀ t, run step s ls = some t → Meets step ok t ls' := by
  induction ls generalizing s with
  | nil => simp
  | cons l ls ih =>
      rw [List.cons_append, meets_cons, meets_cons, and_assoc]
      refine and_congr_right fun _ => ?_
      constructor
      · intro h
        refine ⟨fun t ht => ((ih t).mp (h t ht)).1, fun u hu => ?_⟩
        obtain ⟨t, ht, htu⟩ := (run_cons_eq_some_iff step s u l ls).mp hu
        exact ((ih t).mp (h t ht)).2 u htu
      · rintro ⟨h₁, h₂⟩ t ht
        refine (ih t).mpr ⟨h₁ t ht, fun u hu => h₂ u ?_⟩
        exact (run_cons_eq_some_iff step s u l ls).mpr ⟨t, ht, hu⟩

theorem meets_and {σ ℓ : Type*} (step : σ → ℓ → Option σ)
    (ok ok' : σ → ℓ → Prop) (s : σ) (ls : List ℓ) :
    Meets step (fun s l => ok s l ∧ ok' s l) s ls ↔
      Meets step ok s ls ∧ Meets step ok' s ls := by
  induction ls generalizing s with
  | nil => simp
  | cons l ls ih =>
      simp only [meets_cons, ih]
      constructor
      · rintro ⟨⟨hok, hok'⟩, hrest⟩
        exact ⟨⟨hok, fun t ht => (hrest t ht).1⟩, hok', fun t ht => (hrest t ht).2⟩
      · rintro ⟨⟨hok, hrest⟩, hok', hrest'⟩
        exact ⟨⟨hok, hok'⟩, fun t ht => ⟨hrest t ht, hrest' t ht⟩⟩

theorem meets_mono {σ ℓ : Type*} {step : σ → ℓ → Option σ}
    {ok ok' : σ → ℓ → Prop} (h : ∀ s l, ok s l → ok' s l) {s : σ} {ls : List ℓ}
    (hm : Meets step ok s ls) : Meets step ok' s ls := by
  induction ls generalizing s with
  | nil => trivial
  | cons l ls ih => exact ⟨h s l hm.1, fun t ht => ih (hm.2 t ht)⟩

theorem meets_of_invariant {σ ℓ : Type*} {step : σ → ℓ → Option σ}
    {ok : σ → ℓ → Prop} {I : σ → Prop}
    (hstep : ∀ s l s', I s → step s l = some s' → I s') (hok : ∀ s l, I s → ok s l)
    {s : σ} (hs : I s) (ls : List ℓ) : Meets step ok s ls := by
  induction ls generalizing s with
  | nil => trivial
  | cons l ls ih => exact ⟨hok s l hs, fun s' hs' => ih (hstep s l s' hs hs')⟩

theorem meets_of_forall {σ ℓ : Type*} (step : σ → ℓ → Option σ)
    {ok : σ → ℓ → Prop} (h : ∀ s l, ok s l) (s : σ) (ls : List ℓ) :
    Meets step ok s ls :=
  meets_of_invariant (I := fun _ => True) (fun _ _ _ _ _ => trivial)
    (fun s l _ => h s l) trivial ls

theorem meets_of_labels {σ ℓ : Type*} (step : σ → ℓ → Option σ) {ok : ℓ → Prop}
    {ls : List ℓ} (h : ∀ l ∈ ls, ok l) (s : σ) : Meets step (fun _ l => ok l) s ls := by
  induction ls generalizing s with
  | nil => trivial
  | cons l ls ih =>
      exact ⟨h l List.mem_cons_self,
        fun t _ => ih (fun m hm => h m (List.mem_cons_of_mem l hm)) t⟩

/-- A decidable side condition is decidable along a run. -/
instance decidableMeets {σ ℓ : Type*} (step : σ → ℓ → Option σ)
    (ok : σ → ℓ → Prop) [∀ s l, Decidable (ok s l)] :
    ∀ (s : σ) (ls : List ℓ), Decidable (Meets step ok s ls)
  | _, [] => isTrue trivial
  | s, l :: ls =>
      match hstep : step s l with
      | none => decidable_of_iff (ok s l) (by
          rw [meets_cons, hstep]
          simp)
      | some s' =>
          have := decidableMeets step ok s' ls
          decidable_of_iff (ok s l ∧ Meets step ok s' ls) (by
            rw [meets_cons, hstep]
            simp)

/-- `s'` is the state after some run from `s`. -/
def Reachable {σ ℓ : Type*} (step : σ → ℓ → Option σ) (s s' : σ) : Prop :=
  ∃ ls, run step s ls = some s'

theorem Reachable.refl {σ ℓ : Type*} (step : σ → ℓ → Option σ) (s : σ) :
    Reachable step s s := ⟨[], rfl⟩

theorem Reachable.trans {σ ℓ : Type*} {step : σ → ℓ → Option σ} {s t u : σ}
    (hst : Reachable step s t) (htu : Reachable step t u) :
    Reachable step s u := by
  obtain ⟨ls, hls⟩ := hst
  obtain ⟨ls', hls'⟩ := htu
  refine ⟨ls ++ ls', ?_⟩
  rw [run_append, hls]
  exact hls'

theorem reachable_of_step {σ ℓ : Type*} {step : σ → ℓ → Option σ} {s s' : σ}
    (l : ℓ) (h : step s l = some s') : Reachable step s s' := by
  refine ⟨[l], ?_⟩
  rw [run_cons, h]
  rfl

/-- An invariant that every step preserves where the side condition holds is
preserved by every run that meets the side condition. -/
theorem run_invariant_of_meets {σ ℓ : Type*} {step : σ → ℓ → Option σ}
    {ok : σ → ℓ → Prop} {I : σ → Prop}
    (hstep : ∀ s l s', I s → ok s l → step s l = some s' → I s')
    {s s' : σ} {ls : List ℓ} (hs : I s) (hm : Meets step ok s ls)
    (hr : run step s ls = some s') : I s' := by
  induction ls generalizing s with
  | nil =>
      cases hr
      exact hs
  | cons l ls ih =>
      obtain ⟨t, ht, htr⟩ := (run_cons_eq_some_iff step s s' l ls).mp hr
      exact ih (hstep s l t hs hm.1 ht) (hm.2 t ht) htr

theorem run_invariant {σ ℓ : Type*} {step : σ → ℓ → Option σ} {I : σ → Prop}
    (hstep : ∀ s l s', I s → step s l = some s' → I s')
    {s s' : σ} {ls : List ℓ} (hs : I s) (hr : run step s ls = some s') :
    I s' :=
  @run_invariant_of_meets σ ℓ step (fun _ _ => True) I
    (fun s l s' hI _ => hstep s l s' hI) s s' ls hs
    (meets_of_forall step (fun _ _ => trivial) s ls) hr

/-- Two side conditions that agree on the steps from states with an invariant,
where the second one keeps the invariant, are met by the same runs. -/
theorem meets_iff_meets_of_kept {σ ℓ : Type*} {step : σ → ℓ → Option σ}
    {ok ok' : σ → ℓ → Prop} {I : σ → Prop}
    (hstep : ∀ s l s', I s → ok' s l → step s l = some s' → I s')
    (hiff : ∀ s l s', I s → step s l = some s' → (ok s l ↔ ok' s l))
    {s s' : σ} {ls : List ℓ} (hs : I s) (hr : run step s ls = some s') :
    Meets step ok s ls ↔ Meets step ok' s ls := by
  induction ls generalizing s with
  | nil => rfl
  | cons l ls ih =>
      obtain ⟨t, ht, htr⟩ := (run_cons_eq_some_iff step s s' l ls).mp hr
      rw [meets_cons, meets_cons, hiff s l t hs ht, ht]
      simp only [Option.some.injEq, forall_eq']
      refine and_congr_right fun hok => ?_
      exact ih (hstep s l t hs hok ht) htr

/-- Two side conditions that agree on the steps from states with an invariant are
met by the same runs. -/
theorem meets_iff_meets {σ ℓ : Type*} {step : σ → ℓ → Option σ}
    {ok ok' : σ → ℓ → Prop} {I : σ → Prop}
    (hstep : ∀ s l s', I s → step s l = some s' → I s')
    (hiff : ∀ s l s', I s → step s l = some s' → (ok s l ↔ ok' s l))
    {s s' : σ} {ls : List ℓ} (hs : I s) (hr : run step s ls = some s') :
    Meets step ok s ls ↔ Meets step ok' s ls :=
  meets_iff_meets_of_kept (fun s l s' hs _ => hstep s l s' hs) hiff hs hr

/-- `P` holds of every state that the run passes. -/
def Throughout {σ ℓ : Type*} (step : σ → ℓ → Option σ) (P : σ → Prop) (s : σ)
    (ls : List ℓ) : Prop :=
  ∀ before after t, ls = before ++ after → run step s before = some t → P t

theorem throughout_of_meets {σ ℓ : Type*} {step : σ → ℓ → Option σ}
    {ok : σ → ℓ → Prop} {I : σ → Prop}
    (hstep : ∀ s l s', I s → ok s l → step s l = some s' → I s')
    {s : σ} {ls : List ℓ} (hs : I s) (hm : Meets step ok s ls) :
    Throughout step I s ls := by
  rintro before after t rfl ht
  exact run_invariant_of_meets hstep hs ((meets_append _ _ _ _ _).mp hm).1 ht

/-- Where a step that the side condition admits keeps the invariant, and one that
it does not admit breaks the property, the property holds throughout a run
exactly when the run meets the side condition. The steps are those of a run that
meets a further side condition. -/
theorem meets_iff_throughout_of_meets {σ ℓ : Type*} {step : σ → ℓ → Option σ}
    {given ok : σ → ℓ → Prop} {I P : σ → Prop} (hP : ∀ s, I s → P s)
    (hstep : ∀ s l s', I s → given s l → ok s l → step s l = some s' → I s')
    (hbreaks : ∀ s l s', I s → given s l → step s l = some s' → P s' → ok s l)
    {s s' : σ} {ls : List ℓ} (hs : I s) (hgiven : Meets step given s ls)
    (hr : run step s ls = some s') :
    Meets step ok s ls ↔ Throughout step P s ls := by
  constructor
  · intro hm before after t heq ht
    have hboth := (meets_and step given ok s ls).mpr ⟨hgiven, hm⟩
    have hkept : ∀ s l s', I s → given s l ∧ ok s l → step s l = some s' → I s' :=
      fun s l s' hI hok h => hstep s l s' hI hok.1 hok.2 h
    exact hP t (throughout_of_meets hkept hs hboth before after t heq ht)
  · induction ls generalizing s with
    | nil => exact fun _ => trivial
    | cons l ls ih =>
        intro h
        obtain ⟨t, ht, htr⟩ := (run_cons_eq_some_iff step s s' l ls).mp hr
        have hok : ok s l := by
          refine hbreaks s l t hs hgiven.1 ht (h [l] ls t rfl ?_)
          rw [run_cons, ht]
          rfl
        refine ⟨hok, fun u hu => ?_⟩
        rw [ht] at hu
        cases hu
        refine ih (hstep s l t hs hgiven.1 hok ht) (hgiven.2 t ht) htr
          fun before after u heq hu => ?_
        refine h (l :: before) after u (by rw [heq]; rfl) ?_
        rw [run_cons, ht]
        exact hu

theorem meets_iff_throughout {σ ℓ : Type*} {step : σ → ℓ → Option σ}
    {ok : σ → ℓ → Prop} {I P : σ → Prop} (hP : ∀ s, I s → P s)
    (hstep : ∀ s l s', I s → ok s l → step s l = some s' → I s')
    (hbreaks : ∀ s l s', I s → step s l = some s' → P s' → ok s l)
    {s s' : σ} {ls : List ℓ} (hs : I s) (hr : run step s ls = some s') :
    Meets step ok s ls ↔ Throughout step P s ls :=
  meets_iff_throughout_of_meets hP (fun s l s' hI _ => hstep s l s' hI)
    (fun s l s' hI _ => hbreaks s l s' hI) hs
    (meets_of_forall step (fun _ _ => trivial) s ls) hr

/-- A relation that is reflexive, transitive and contains every step contains
every run. -/
theorem run_relation {σ ℓ : Type*} {step : σ → ℓ → Option σ}
    {R : σ → σ → Prop} (hrefl : ∀ s, R s s)
    (htrans : ∀ s t u, R s t → R t u → R s u)
    (hstep : ∀ s l s', step s l = some s' → R s s')
    {s s' : σ} {ls : List ℓ} (hr : run step s ls = some s') : R s s' := by
  refine run_invariant (I := fun t => R s t) ?_ (hrefl s) hr
  intro t l u hst htu
  exact htrans s t u hst (hstep t l u htu)

/-- Forward simulation: where every step that the side condition admits is
matched by a run of the abstract system, so is every run. -/
theorem run_simulation {σ ℓ τ μ : Type*} {step : σ → ℓ → Option σ}
    {step' : τ → μ → Option τ} {ok : σ → ℓ → Prop} {R : σ → τ → Prop}
    (hstep : ∀ s l s' a, R s a → ok s l → step s l = some s' →
      ∃ ms a', run step' a ms = some a' ∧ R s' a')
    {s s' : σ} {ls : List ℓ} {a : τ} (hR : R s a) (hm : Meets step ok s ls)
    (hr : run step s ls = some s') :
    ∃ ms a', run step' a ms = some a' ∧ R s' a' := by
  refine run_invariant_of_meets
    (I := fun t => ∃ ms b, run step' a ms = some b ∧ R t b)
    ?_ ⟨[], a, rfl, hR⟩ hm hr
  rintro t l u ⟨ms, b, hab, htb⟩ hok htu
  obtain ⟨ms', b', hbb', hub'⟩ := hstep t l u b htb hok htu
  refine ⟨ms ++ ms', b', ?_, hub'⟩
  rw [run_append, hab]
  exact hbb'

/-- A part of the state that every step takes to where the steps of another system
take it is taken there by every run. -/
theorem map_run {σ τ ℓ : Type*} {step : σ → ℓ → Option σ} {step' : τ → ℓ → Option τ}
    {f : σ → τ} (hstep : ∀ s l, (step s l).map f = step' (f s) l) (s : σ)
    (ls : List ℓ) : (run step s ls).map f = run step' (f s) ls := by
  induction ls generalizing s with
  | nil => rfl
  | cons l ls ih =>
      rw [run_cons, run_cons, ← hstep, Option.map_bind, Option.bind_map]
      exact congrArg _ (funext ih)

theorem run_length_le {σ ℓ : Type*} {step : σ → ℓ → Option σ}
    {ok : σ → ℓ → Prop} {I : σ → Prop} {measure : σ → ℕ}
    (hstep : ∀ s l s', I s → ok s l → step s l = some s' →
      I s' ∧ measure s' < measure s)
    {s s' : σ} {ls : List ℓ} (hs : I s) (hm : Meets step ok s ls)
    (hr : run step s ls = some s') : ls.length + measure s' ≤ measure s := by
  induction ls generalizing s with
  | nil =>
      cases hr
      simp
  | cons l ls ih =>
      obtain ⟨t, ht, htr⟩ := (run_cons_eq_some_iff step s s' l ls).mp hr
      obtain ⟨hIt, hlt⟩ := hstep s l t hs hm.1 ht
      have hle := ih hIt (hm.2 t ht) htr
      rw [List.length_cons]
      omega

theorem run_length_le_of_lt {σ ℓ : Type*} {step : σ → ℓ → Option σ}
    {measure : σ → ℕ}
    (hstep : ∀ s l s', step s l = some s' → measure s' < measure s)
    {s s' : σ} {ls : List ℓ} (hr : run step s ls = some s') :
    ls.length ≤ measure s := by
  have hle := @run_length_le σ ℓ step (fun _ _ => True) (fun _ => True) measure
    (fun s l s' _ _ hs => ⟨trivial, hstep s l s' hs⟩) s s' ls trivial
    (meets_of_forall step (fun _ _ => trivial) s ls) hr
  omega

/-- Where such a measure exists and some step is admitted in every state that is
not final, a final state can be reached. -/
theorem exists_run_to_final {σ ℓ : Type*} {step : σ → ℓ → Option σ}
    {ok : σ → ℓ → Prop} {I : σ → Prop} {measure : σ → ℕ} {final : σ → Prop}
    (hstep : ∀ s l s', I s → ok s l → step s l = some s' →
      I s' ∧ measure s' < measure s)
    (hprogress : ∀ s, I s → ¬ final s → ∃ l s', ok s l ∧ step s l = some s')
    {s : σ} (hs : I s) :
    ∃ ls s', Meets step ok s ls ∧ run step s ls = some s' ∧ final s' := by
  induction hn : measure s using Nat.strong_induction_on generalizing s with
  | h n ih =>
      by_cases hfinal : final s
      · exact ⟨[], s, trivial, rfl, hfinal⟩
      obtain ⟨l, t, hok, ht⟩ := hprogress s hs hfinal
      obtain ⟨hIt, hlt⟩ := hstep s l t hs hok ht
      obtain ⟨ls, s', hm, hr, hs'⟩ := ih (measure t) (hn ▸ hlt) hIt rfl
      refine ⟨l :: ls, s', ⟨hok, fun u hu => ?_⟩, ?_, hs'⟩
      · rw [ht] at hu
        cases hu
        exact hm
      · rw [run_cons, ht]
        exact hr

end Transition
