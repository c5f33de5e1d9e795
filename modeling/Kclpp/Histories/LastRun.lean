import Mathlib

/-!
# The last run of a history

A history is a list of events, latest last, and every event is observed. Its
last run is the longest part at its end in which all events are observed to be
the same. `LastRun observe before first rest` says that it starts at `first` in
`before ++ first :: rest`. Every history that is not empty has one, and what a
fold keeps while the observation stays the same holds at its end if it holds
when the run starts.
-/

namespace Histories

/-- The last run of the history `before ++ first :: rest` starts at `first`. -/
structure LastRun {α β : Type*} (observe : α → β) (before : List α) (first : α)
    (rest : List α) : Prop where
  same : ∀ e ∈ rest, observe e = observe first
  new : ∀ e, before.getLast? = some e → observe e ≠ observe first

theorem lastRun_of_new {α β : Type*} {observe : α → β} {before : List α}
    {first : α} (h : ∀ e, before.getLast? = some e → observe e ≠ observe first) :
    LastRun observe before first [] where
  same := by simp
  new := h

theorem LastRun.concat {α β : Type*} {observe : α → β} {before rest : List α}
    {first last : α} (h : LastRun observe before first rest)
    (hlast : observe last = observe first) :
    LastRun observe before first (rest ++ [last]) where
  same := by
    intro e he
    rcases List.mem_append.mp he with he | he
    · exact h.same e he
    · rw [List.mem_singleton.mp he, hlast]
  new := h.new

theorem LastRun.observe_last {α β : Type*} {observe : α → β}
    {before rest : List α} {first last : α}
    (h : LastRun observe before first rest) {history : List α}
    (heq : history ++ [last] = before ++ first :: rest) :
    observe last = observe first := by
  rcases List.eq_nil_or_concat rest with rfl | ⟨rest, e, rfl⟩
  · rw [(List.append_inj' heq rfl).2 |> List.singleton_inj.mp]
  · have hsplit : before ++ first :: (rest ++ [e]) =
        (before ++ first :: rest) ++ [e] := by simp
    rw [List.concat_eq_append, hsplit] at heq
    rw [(List.append_inj' heq rfl).2 |> List.singleton_inj.mp]
    exact h.same e (by simp)

theorem exists_lastRun {α β : Type*} (observe : α → β) (history : List α)
    (last : α) :
    ∃ before first rest, history ++ [last] = before ++ first :: rest ∧
      LastRun observe before first rest := by
  induction history using List.reverseRecOn generalizing last with
  | nil => exact ⟨[], last, [], rfl, lastRun_of_new (by simp)⟩
  | append_singleton history e ih =>
      by_cases h : observe e = observe last
      · obtain ⟨before, first, rest, heq, hrun⟩ := ih e
        refine ⟨before, first, rest ++ [last], by simp [heq], hrun.concat ?_⟩
        rw [← h]
        exact hrun.observe_last heq
      · refine ⟨history ++ [e], last, [], rfl, lastRun_of_new ?_⟩
        simpa using h

/-- What holds when the run starts and is kept while the observation stays the
same holds at the end of the history. -/
theorem LastRun.foldl {α β σ : Type*} {observe : α → β} {before rest : List α}
    {first : α} (h : LastRun observe before first rest) {f : σ → α → σ}
    {I : σ → Prop} {s : σ} (hfirst : I (f (before.foldl f s) first))
    (hstep : ∀ s e, I s → observe e = observe first → I (f s e)) :
    I ((before ++ first :: rest).foldl f s) := by
  rw [List.foldl_append, List.foldl_cons]
  exact List.foldlRecOn rest f hfirst fun s hs e he => hstep s e hs (h.same e he)

end Histories
