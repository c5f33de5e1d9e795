import Kclpp.Async.Vendored.ReaderWriterQueue.Exchange

/-!
# The answers of the reader's calls

A call that comes back with nothing need not find the queue empty when it returns: the
writer may have put something in since the call has looked. But at some moment of the
call it was empty. The other side of it is that once a `peek` has shown an element, the
next call comes back with that one, whatever the writer does in between.
-/

namespace Kclpp

namespace Async

namespace Vendored

namespace Moodycamel

open Transition

variable {α : Type*}

namespace System

theorem Inv.pushes_ends {s : System α} {used free : List Pointer} (h : s.Inv used free)
    {maxBlockSize : ℕ} {s' : System α} (hstep : s.produce maxBlockSize = some s') :
    s'.queue.frontBlock = s.queue.frontBlock ∧
      (s'.queue.tailBlock = s.queue.tailBlock ∨
        s'.queue.frontBlock ≠ s'.queue.tailBlock) := by
  unfold produce at hstep
  cases hpc : s.producer with
  | setTailBlock element b =>
      have hproducer := h.producer
      rw [hpc] at hstep hproducer
      cases hstep
      have hb := List.mem_of_head? hproducer.2.1
      exact ⟨rfl, .inr (h.laid.ne_of_mem h.laid.frontBlock_mem hb)⟩
  | checkNext mode element b =>
      rw [hpc] at hstep
      dsimp only at hstep
      split_ifs at hstep
      · cases hstep
        exact ⟨rfl, .inl rfl⟩
      · cases mode
        · cases hstep
          exact ⟨rfl, .inl rfl⟩
        · cases hstep
          exact ⟨rfl, .inl rfl⟩
  | idle =>
      rw [hpc] at hstep
      cases hstep
  | _ =>
      rw [hpc] at hstep
      cases hstep
      exact ⟨rfl, .inl rfl⟩

/-- The reader has found nothing in its block and the writer is in the same one. -/
def FindsNone (s : System α) : Prop :=
  (∃ call b, s.consumer = .checkTailBlock call b) ∧
    s.queue.frontBlock = s.queue.tailBlock

theorem not_findsNone_beginDequeue (s : System α) (call : Call) :
    ¬ (s.beginDequeue call).FindsNone := by
  rintro ⟨⟨call', b, hpc⟩, -⟩
  simp only [beginDequeue] at hpc
  split_ifs at hpc

theorem reloadTail_of_checkTailBlock {s s' : System α} {call : Call} {b : Pointer}
    (hstep : s.consume = some s') (hpc : s'.consumer = .checkTailBlock call b) :
    ∃ i, s.consumer = .reloadTail call b i ∧ i = (s.queue.heap b).tail ∧
      s'.queue.frontBlock = s.queue.frontBlock ∧
      s'.queue.tailBlock = s.queue.tailBlock := by
  unfold consume at hstep
  cases hold : s.consumer with
  | reloadTail call' b' i =>
      rw [hold] at hstep
      cases hstep
      dsimp only at hpc
      split_ifs at hpc with hne
      cases hpc
      exact ⟨i, rfl, not_not.mp hne, rfl, rfl⟩
  | idle =>
      rw [hold] at hstep
      cases hstep
  | checkTailBlock call' b' =>
      rw [hold] at hstep
      dsimp only at hstep
      split_ifs at hstep <;> cases hstep <;> cases hpc
  | recheck call' =>
      rw [hold] at hstep
      cases hstep
      dsimp only at hpc
      split_ifs at hpc
  | reloadNextTail call' b' i =>
      rw [hold] at hstep
      cases call' <;> cases hstep <;> cases hpc
  | take call' b' i =>
      rw [hold] at hstep
      obtain ⟨x, -, hstep⟩ := Option.map_eq_some_iff.mp hstep
      cases call' <;> cases hstep <;> cases hpc
  | _ =>
      rw [hold] at hstep
      cases hstep
      cases hpc

/-- Where the reader finds nothing and is in the tail block, the queue is empty. -/
theorem Inv.contents_eq_nil {s : System α} {used free : List Pointer}
    (h : s.Inv used free) {call : Call} {b : Pointer} {i : ℕ}
    (hpc : s.consumer = .reloadTail call b i) (hi : i = (s.queue.heap b).tail)
    (hsame : s.queue.frontBlock = s.queue.tailBlock) :
    s.consumer.inHand ++ s.queue.contents = [] := by
  have hconsumer := h.consumer
  rw [hpc] at hconsumer ⊢
  obtain ⟨rfl, rfl⟩ := hconsumer
  have hnil := (h.sound _ h.mem_ring_frontBlock).elements_eq_nil hi
  rw [h.laid.contents_eq, h.laid.frontBlock_eq_tailBlock_iff.mp hsame,
    List.flatMap_singleton, hnil]
  rfl

/-- The reader comes to find nothing only where the queue is empty. -/
theorem findsNone_cause {maxBlockSize : ℕ} (s : System α) (l : Label α) (s' : System α)
    (hs : s.Valid) (hstep : s.step maxBlockSize l = some s') (h : s'.FindsNone) :
    s.FindsNone ∨ s.consumer.inHand ++ s.queue.contents = [] := by
  obtain ⟨used, free, hinv⟩ := hs
  obtain ⟨⟨call, b, hpc⟩, hsame⟩ := h
  cases l with
  | enqueue mode element =>
      cases hidle : s.producer with
      | idle =>
          simp only [step, hidle, Option.some_inj] at hstep
          subst hstep
          exact .inl ⟨⟨call, b, hpc⟩, hsame⟩
      | _ =>
          simp only [step, hidle] at hstep
          cases hstep
  | producer =>
      obtain ⟨-, hconsumer, -⟩ := hinv.pushes_produce hstep
      obtain ⟨hfront, htail | hne⟩ := hinv.pushes_ends hstep
      · exact .inl ⟨⟨call, b, hconsumer ▸ hpc⟩, by rw [← hfront, ← htail, hsame]⟩
      · exact absurd hsame hne
  | outOfMemory =>
      simp only [step, failAllocation] at hstep
      split at hstep
      · cases hstep
        exact .inl ⟨⟨call, b, hpc⟩, hsame⟩
      · cases hstep
  | dequeue call' =>
      cases hidle : s.consumer with
      | idle =>
          simp only [step, hidle, Option.some_inj] at hstep
          subst hstep
          exact absurd ⟨⟨call, b, hpc⟩, hsame⟩ (not_findsNone_beginDequeue s call')
      | _ =>
          simp only [step, hidle] at hstep
          cases hstep
  | consumer =>
      obtain ⟨i, hold, hi, hfront, htail⟩ := reloadTail_of_checkTailBlock hstep hpc
      exact .inr (hinv.contents_eq_nil hold hi (by rw [← hfront, ← htail, hsame]))

/-- How a step of the reader leaves the answers. -/
inductive Returned (s s' : System α) : Prop where
  | notYet (hanswers : s'.answers = s.answers)
  | nothing (call : Call) (hfinds : s.FindsNone)
      (hanswers : s'.answers = s.answers ++ [(call, none)])
  | shows (x : α) (hhand : s.consumer.inHand = [])
      (hhead : s.queue.contents.head? = some x)
      (hstate : s' = s.answered .peek (some x))
  | takes (call : Call) (x : α) (hcall : call ≠ .peek)
      (hhand : s.consumer.inHand = [x])
      (hanswers : s'.answers = s.answers ++ [(call, some x)])

theorem Inv.returned {s : System α} {used free : List Pointer} (h : s.Inv used free)
    {s' : System α} (hstep : s.consume = some s') : s.Returned s' := by
  have hconsumer := h.consumer
  unfold consume at hstep
  cases hpc : s.consumer with
  | idle =>
      rw [hpc] at hstep
      cases hstep
  | checkTailBlock call b =>
      rw [hpc] at hstep hconsumer
      cases hconsumer
      dsimp only at hstep
      split_ifs at hstep with hb
      · cases hstep
        exact .notYet rfl
      · cases hstep
        exact .nothing call ⟨⟨call, _, hpc⟩, not_not.mp hb⟩ rfl
  | reloadNextTail call b i =>
      rw [hpc] at hstep
      cases call <;> cases hstep <;> exact .notYet rfl
  | take call b i =>
      obtain ⟨-, y, hy, hhead⟩ := h.take_spec hpc
      rw [hpc] at hstep
      obtain ⟨x, hx, hstep⟩ := Option.map_eq_some_iff.mp hstep
      rw [hy] at hx
      cases hx
      cases call
      · cases hstep
        exact .notYet rfl
      · cases hstep
        exact .notYet rfl
      · refine .shows y ?_ hhead hstep.symm
        rw [hpc]
        rfl
  | setFront call b i x =>
      rw [hpc] at hstep hconsumer
      cases hstep
      refine .takes call x hconsumer.1 ?_ rfl
      rw [hpc]
      rfl
  | _ =>
      rw [hpc] at hstep
      cases hstep
      exact .notYet rfl

/-- A call of the reader that comes back with nothing has seen the queue empty at some
moment between its beginning and its return, however the writer's steps fall. -/
theorem empty_of_answered_none {maxBlockSize maxSize : ℕ}
    (h : Sizes maxBlockSize maxSize) {before during : List (Label α)} {call : Call}
    {s t u v : System α}
    (hbefore : run (step maxBlockSize) (initial maxBlockSize maxSize) before = some s)
    (hcall : s.step maxBlockSize (.dequeue call) = some t)
    (hduring : run (step maxBlockSize) t during = some u)
    (hreturn : u.step maxBlockSize .consumer = some v)
    (hanswer : v.answers = u.answers ++ [(call, none)]) :
    Sometime (step maxBlockSize) (fun w => w.queue.contents = []) t during := by
  have hs := valid_of_run h hbefore
  have ht := step_valid s _ t hs hcall
  obtain ⟨used, free, hu⟩ := run_invariant step_valid ht hduring
  have hfinds : u.FindsNone := by
    cases hu.returned hreturn with
    | notYet hanswers =>
        rw [hanswers] at hanswer
        exact absurd (congrArg List.length hanswer) (by simp)
    | nothing call' hfinds hanswers => exact hfinds
    | shows x hhand hhead hstate =>
        rw [hstate] at hanswer
        have heq := List.append_cancel_left hanswer
        simp at heq
    | takes call' x hcall' hhand hanswers =>
        rw [hanswers] at hanswer
        have heq := List.append_cancel_left hanswer
        simp at heq
  refine sometime_mono (fun w hw => (List.append_eq_nil_iff.mp hw).2)
    (sometime_of_run step_valid findsNone_cause ht hduring ?_ hfinds)
  cases hidle : s.consumer with
  | idle =>
      simp only [step, hidle, Option.some_inj] at hcall
      subst hcall
      exact not_findsNone_beginDequeue s call
  | _ =>
      simp only [step, hidle] at hcall
      cases hcall

/-- The writer puts an element in after the reader has looked. -/
def lateWrite : List (Label ℕ) :=
  [.consumer, .enqueue .canAlloc 7, .producer, .producer]

theorem empty_of_answered_none_lateWrite :
    ∃ t, (initial 2 1 : System ℕ).step 2 (.dequeue .pop) = some t ∧
      Sometime (step 2) (fun w => w.queue.contents = []) t lateWrite :=
  ⟨_, rfl, empty_of_answered_none sizes_two_one (run_nil _ _) rfl rfl rfl rfl⟩

/-- What a `peek` that has just come back has shown. -/
def shown (s : System α) : Option α :=
  s.answers.getLast?.bind fun answer => if answer.1 = .peek then answer.2 else none

/-- What a `peek` has shown is the next element to be taken, and no call is about to
come back with nothing. -/
def KeepsShown (s : System α) : Prop :=
  ∀ x, s.shown = some x →
    (s.consumer.inHand ++ s.queue.contents).head? = some x ∧ ¬ s.FindsNone

/-- The answer after that of a successful `peek` has the same element. -/
def Consistent (answers : List (Call × Option α)) : Prop :=
  answers.IsChain fun a b => a.1 = .peek → ∀ x, a.2 = some x → b.2 = some x

theorem consistent_append {answers : List (Call × Option α)}
    (h : Consistent answers) {answer : Call × Option α}
    (hlast : ∀ x, (answers.getLast?.bind fun a => if a.1 = .peek then a.2 else none) =
      some x → answer.2 = some x) : Consistent (answers ++ [answer]) := by
  refine List.isChain_append.mpr ⟨h, List.IsChain.singleton _, ?_⟩
  intro a ha b hb hpeek x hx
  cases hb
  refine hlast x ?_
  rw [ha, Option.bind_some, if_pos hpeek]
  exact hx

theorem shown_of_append {s : System α} {answers : List (Call × Option α)}
    {call : Call} {x : Option α} (h : s.answers = answers ++ [(call, x)]) :
    s.shown = if call = .peek then x else none := by
  rw [shown, h, List.getLast?_concat, Option.bind_some]

/-- The elements that are in the queue or in hand, after a step that has returned
nothing. -/
theorem inHand_append_contents_eq {s s' : System α}
    (h : s'.pulled ++ s'.queue.contents = s.pulled ++ s.queue.contents)
    (hanswers : s'.answers = s.answers) :
    s'.consumer.inHand ++ s'.queue.contents =
      s.consumer.inHand ++ s.queue.contents := by
  rw [pulled, pulled, removed, removed, hanswers, List.append_assoc,
    List.append_assoc] at h
  exact List.append_cancel_left h

theorem keepsShown_of_notYet {maxBlockSize : ℕ} {s s' : System α} {l : Label α}
    (hs : s.Valid) (hk : s.KeepsShown) (hstep : s.step maxBlockSize l = some s')
    (hanswers : s'.answers = s.answers)
    (hhead : ∀ x, (s.consumer.inHand ++ s.queue.contents).head? = some x →
      (s'.consumer.inHand ++ s'.queue.contents).head? = some x) : s'.KeepsShown := by
  intro x hx
  rw [shown, hanswers] at hx
  obtain ⟨hfirst, hnot⟩ := hk x hx
  refine ⟨hhead x hfirst, fun hfinds => ?_⟩
  rcases findsNone_cause s l s' hs hstep hfinds with h | h
  · exact hnot h
  · rw [h] at hfirst
    cases hfirst

theorem step_keepsShown {maxBlockSize : ℕ} (s : System α) (l : Label α)
    (s' : System α) (hs : s.Valid ∧ s.KeepsShown ∧ Consistent s.answers)
    (hstep : s.step maxBlockSize l = some s') :
    s'.Valid ∧ s'.KeepsShown ∧ Consistent s'.answers := by
  obtain ⟨hvalid, hk, hc⟩ := hs
  refine ⟨step_valid s l s' hvalid hstep, ?_⟩
  rcases pulls_or_pushes hvalid hstep with
    ⟨-, -, -, hpulled⟩ | ⟨-, hconsumer, hanswers, m, -, hcontents⟩
  swap
  · -- the writer adds at the other end
    rw [hanswers]
    refine ⟨keepsShown_of_notYet hvalid hk hstep hanswers fun x hx => ?_, hc⟩
    rw [hconsumer, hcontents, ← List.append_assoc, List.head?_append, hx]
    rfl
  by_cases hanswers : s'.answers = s.answers
  · rw [hanswers]
    refine ⟨keepsShown_of_notYet hvalid hk hstep hanswers fun x hx => ?_, hc⟩
    rw [inHand_append_contents_eq hpulled hanswers]
    exact hx
  obtain ⟨used, free, hinv⟩ := hvalid
  have hreturned : s.Returned s' := by
    cases l with
    | consumer => exact hinv.returned hstep
    | dequeue call =>
        cases hidle : s.consumer with
        | idle =>
            simp only [step, hidle, Option.some_inj] at hstep
            exact absurd (hstep ▸ rfl) hanswers
        | _ =>
            simp only [step, hidle] at hstep
            cases hstep
    | enqueue mode element =>
        cases hidle : s.producer with
        | idle =>
            simp only [step, hidle, Option.some_inj] at hstep
            exact absurd (hstep ▸ rfl) hanswers
        | _ =>
            simp only [step, hidle] at hstep
            cases hstep
    | producer => exact absurd (hinv.pushes_produce hstep).2.2.1 hanswers
    | outOfMemory => exact absurd (hinv.pushes_failAllocation hstep).2.2.1 hanswers
  cases hreturned with
  | notYet h => exact absurd h hanswers
  | nothing call hfinds h =>
      rw [h]
      refine ⟨fun x hx => ?_, consistent_append hc fun x hx => ?_⟩
      · rw [shown_of_append h] at hx
        split_ifs at hx
      · exact absurd hfinds (hk x hx).2
  | shows y hhand hhead h =>
      subst h
      refine ⟨fun x hx => ?_, consistent_append hc fun x hx => ?_⟩
      · rw [shown_of_append rfl, if_pos rfl] at hx
        refine ⟨hhead.trans hx, ?_⟩
        rintro ⟨⟨call, b, hpc⟩, -⟩
        cases hpc
      · have hfirst := (hk x hx).1
        rw [hhand, List.nil_append, hhead] at hfirst
        exact hfirst
  | takes call y hcall hhand h =>
      rw [h]
      refine ⟨fun x hx => ?_, consistent_append hc fun x hx => ?_⟩
      · rw [shown_of_append h, if_neg hcall] at hx
        cases hx
      · have hfirst := (hk x hx).1
        rw [hhand] at hfirst
        exact hfirst

/-- In every run, the call after a `peek` that has shown an element comes back with that
element. -/
theorem answers_consistent_of_run {maxBlockSize maxSize : ℕ}
    (h : Sizes maxBlockSize maxSize) {ls : List (Label α)} {s : System α}
    (hr : run (step maxBlockSize) (initial maxBlockSize maxSize) ls = some s) :
    Consistent s.answers := by
  refine (run_invariant step_keepsShown ⟨initial_valid h, fun x hx => ?_, ?_⟩ hr).2.2
  · cases hx
  · exact List.IsChain.nil

/-- The reader looks at the first element and then takes it, while the writer puts in a
second one, for which it makes a block. -/
def peekThenPop : List (Label ℕ) :=
  [.enqueue .canAlloc 7, .producer, .producer, .dequeue .peek, .consumer,
    .enqueue .canAlloc 8, .producer, .consumer, .producer, .producer, .dequeue .pop,
    .producer, .consumer, .producer, .consumer]

theorem answers_consistent_peekThenPop :
    ∃ s, run (step 2) (initial 2 1) peekThenPop = some s ∧
      s.answers = [(.peek, some 7), (.pop, some 7)] ∧ Consistent s.answers := by
  have hanswers : (run (step 2) (initial 2 1) peekThenPop).map answers =
      some [(.peek, some 7), (.pop, some 7)] := rfl
  obtain ⟨s, hs, heq⟩ := Option.map_eq_some_iff.mp hanswers
  exact ⟨s, hs, heq, answers_consistent_of_run sizes_two_one hs⟩

end System

end Moodycamel

end Vendored

end Async

end Kclpp
