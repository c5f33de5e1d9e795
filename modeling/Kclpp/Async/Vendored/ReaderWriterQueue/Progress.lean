import Kclpp.Async.Vendored.ReaderWriterQueue.Exchange

/-!
# Neither thread waits for the other

A call of either side goes on with every step of its own: no step is ever refused, and
each one lowers the rank of where the call stands, which no step of the other thread
changes. So a call of the reader returns within eight of its steps and a call of the
writer within six, in any order of steps.
-/

namespace Kclpp

namespace Async

namespace Vendored

namespace Moodycamel

open Transition

variable {α : Type*}

namespace Consumer

/-- How many steps a call of the reader still has before it at most, after its next
one. -/
def rank : Consumer α → ℕ
  | .idle | .setFront .. => 0
  | .take .. => 1
  | .setFrontBlock .. => 2
  | .reloadNextTail .. => 3
  | .readNext .. => 4
  | .recheck .. => 5
  | .checkTailBlock .. => 6
  | .reloadTail .. => 7

end Consumer

namespace Producer

/-- How many steps a call of the writer still has before it at most, after its next
one. -/
def rank : Producer α → ℕ
  | .idle | .setTail .. | .setTailBlock .. => 0
  | .setNextTail .. | .linkBlock .. | .construct .. => 1
  | .constructNext .. | .newBlock .. => 2
  | .reloadNextFront .. => 3
  | .checkNext .. => 4
  | .reloadFront .. => 5

end Producer

namespace Label

def isConsumer : Label α → Bool
  | .consumer => true
  | _ => false

def isProducer : Label α → Bool
  | .producer | .outOfMemory => true
  | _ => false

end Label

namespace System

/-- A step of the reader's call returns or lowers the rank. -/
theorem consume_rank {s s' : System α} (hstep : s.consume = some s') :
    s.answers.length < s'.answers.length ∨
      s'.answers = s.answers ∧ s'.consumer ≠ .idle ∧
        s'.consumer.rank < s.consumer.rank := by
  unfold consume at hstep
  cases hpc : s.consumer with
  | idle =>
      rw [hpc] at hstep
      cases hstep
  | reloadTail call b i =>
      rw [hpc] at hstep
      cases hstep
      refine .inr ⟨rfl, ?_⟩
      dsimp only
      split_ifs <;> exact ⟨by simp, by simp [Consumer.rank]⟩
  | checkTailBlock call b =>
      rw [hpc] at hstep
      dsimp only at hstep
      split_ifs at hstep
      · cases hstep
        exact .inr ⟨rfl, by simp, by simp [Consumer.rank]⟩
      · cases hstep
        exact .inl (by simp [answered])
  | recheck call =>
      rw [hpc] at hstep
      cases hstep
      refine .inr ⟨rfl, ?_⟩
      dsimp only
      split_ifs <;> exact ⟨by simp, by simp [Consumer.rank]⟩
  | reloadNextTail call b i =>
      rw [hpc] at hstep
      cases call <;> cases hstep <;> exact .inr ⟨rfl, by simp, by simp [Consumer.rank]⟩
  | take call b i =>
      rw [hpc] at hstep
      obtain ⟨x, -, hstep⟩ := Option.map_eq_some_iff.mp hstep
      cases call <;> cases hstep
      · exact .inr ⟨rfl, by simp, by simp [Consumer.rank]⟩
      · exact .inr ⟨rfl, by simp, by simp [Consumer.rank]⟩
      · exact .inl (by simp [answered])
  | setFront call b i x =>
      rw [hpc] at hstep
      cases hstep
      exact .inl (by simp [answered])
  | _ =>
      rw [hpc] at hstep
      cases hstep
      exact .inr ⟨rfl, by simp, by simp [Consumer.rank]⟩

/-- A step of the writer's call returns or lowers the rank. -/
theorem produce_rank {maxBlockSize : ℕ} {s s' : System α}
    (hstep : s.produce maxBlockSize = some s') :
    s.offers.length < s'.offers.length ∨
      s'.offers = s.offers ∧ s'.producer ≠ .idle ∧
        s'.producer.rank < s.producer.rank := by
  unfold produce at hstep
  cases hpc : s.producer with
  | idle =>
      rw [hpc] at hstep
      cases hstep
  | reloadFront mode element b i j =>
      rw [hpc] at hstep
      cases hstep
      refine .inr ⟨rfl, ?_⟩
      dsimp only
      split_ifs <;> exact ⟨by simp, by simp [Producer.rank]⟩
  | checkNext mode element b =>
      rw [hpc] at hstep
      dsimp only at hstep
      split_ifs at hstep
      · cases hstep
        exact .inr ⟨rfl, by simp, by simp [Producer.rank]⟩
      · cases mode <;> cases hstep
        · exact .inr ⟨rfl, by simp, by simp [Producer.rank]⟩
        · exact .inl (by simp [offered])
  | setTail element b i j =>
      rw [hpc] at hstep
      cases hstep
      exact .inl (by simp [offered])
  | setTailBlock element b =>
      rw [hpc] at hstep
      cases hstep
      exact .inl (by simp [offered])
  | _ =>
      rw [hpc] at hstep
      cases hstep
      exact .inr ⟨rfl, by simp, by simp [Producer.rank]⟩

/-- No step of a call of the reader is refused. -/
theorem Inv.exists_consume {s : System α} {used free : List Pointer}
    (h : s.Inv used free) (hbusy : s.consumer ≠ .idle) :
    ∃ s', s.consume = some s' := by
  unfold consume
  cases hpc : s.consumer with
  | idle => exact absurd hpc hbusy
  | checkTailBlock call b =>
      dsimp only
      split_ifs
      · exact ⟨_, rfl⟩
      · exact ⟨_, rfl⟩
  | reloadNextTail call b i => cases call <;> exact ⟨_, rfl⟩
  | take call b i =>
      obtain ⟨-, x, hx, -⟩ := h.take_spec hpc
      dsimp only
      rw [hx]
      exact ⟨_, rfl⟩
  | _ => exact ⟨_, rfl⟩

/-- No step of a call of the writer is refused. -/
theorem exists_produce (maxBlockSize : ℕ) {s : System α} (hbusy : s.producer ≠ .idle) :
    ∃ s', s.produce maxBlockSize = some s' := by
  unfold produce
  cases hpc : s.producer with
  | idle => exact absurd hpc hbusy
  | checkNext mode element b =>
      dsimp only
      split_ifs
      · exact ⟨_, rfl⟩
      · cases mode <;> exact ⟨_, rfl⟩
  | _ => exact ⟨_, rfl⟩

/-- The other steps leave the answers as they are, and the reader where its call
stands. -/
theorem reader_of_other {maxBlockSize : ℕ} {s s' : System α} {l : Label α}
    (hs : s.Valid) (hl : l.isConsumer = false)
    (hstep : s.step maxBlockSize l = some s') :
    s'.answers = s.answers ∧ (s.consumer ≠ .idle → s'.consumer = s.consumer) := by
  obtain ⟨used, free, h⟩ := hs
  cases l with
  | consumer => cases hl
  | dequeue call =>
      simp only [step] at hstep
      split at hstep
      · rename_i hidle
        cases hstep
        exact ⟨rfl, fun hbusy => absurd hidle hbusy⟩
      · cases hstep
  | enqueue mode element =>
      simp only [step] at hstep
      split at hstep
      · cases hstep
        exact ⟨rfl, fun _ => rfl⟩
      · cases hstep
  | outOfMemory =>
      obtain ⟨-, hconsumer, hanswers, -⟩ := h.pushes_failAllocation hstep
      exact ⟨hanswers, fun _ => hconsumer⟩
  | producer =>
      obtain ⟨-, hconsumer, hanswers, -⟩ := h.pushes_produce hstep
      exact ⟨hanswers, fun _ => hconsumer⟩

/-- The other steps leave the offers as they are, and the writer where its call
stands. -/
theorem writer_of_other {maxBlockSize : ℕ} {s s' : System α} {l : Label α}
    (hs : s.Valid) (hl : l.isProducer = false)
    (hstep : s.step maxBlockSize l = some s') :
    s'.offers = s.offers ∧ (s.producer ≠ .idle → s'.producer = s.producer) := by
  obtain ⟨used, free, h⟩ := hs
  cases l with
  | producer => cases hl
  | outOfMemory => cases hl
  | enqueue mode element =>
      simp only [step] at hstep
      split at hstep
      · rename_i hidle
        cases hstep
        exact ⟨rfl, fun hbusy => absurd hidle hbusy⟩
      · cases hstep
  | dequeue call =>
      simp only [step] at hstep
      split at hstep
      · cases hstep
        exact ⟨rfl, fun _ => rfl⟩
      · cases hstep
  | consumer =>
      obtain ⟨-, hproducer, hoffers, -⟩ := h.pulls_consume hstep
      exact ⟨hoffers, fun _ => hproducer⟩

theorem failAllocation_rank {s s' : System α} (hstep : s.failAllocation = some s') :
    s.offers.length < s'.offers.length := by
  unfold failAllocation at hstep
  split at hstep
  · cases hstep
    simp [offered]
  · cases hstep

theorem step_reader {maxBlockSize : ℕ} (s : System α) (l : Label α) (s' : System α)
    (hs : s.Valid) (hbusy : s.consumer ≠ .idle)
    (hstep : s.step maxBlockSize l = some s') :
    s.answers.length < s'.answers.length ∨
      s'.consumer ≠ .idle ∧
        s'.consumer.rank + (if l.isConsumer then 1 else 0) ≤ s.consumer.rank := by
  cases hl : l.isConsumer with
  | false =>
      obtain ⟨-, hsame⟩ := reader_of_other hs hl hstep
      rw [hsame hbusy]
      exact .inr ⟨hbusy, le_rfl⟩
  | true =>
      cases l with
      | consumer =>
          rcases consume_rank hstep with h | ⟨-, hbusy', hrank⟩
          · exact .inl h
          · exact .inr ⟨hbusy', hrank⟩
      | _ => cases hl

theorem step_writer {maxBlockSize : ℕ} (s : System α) (l : Label α) (s' : System α)
    (hs : s.Valid) (hbusy : s.producer ≠ .idle)
    (hstep : s.step maxBlockSize l = some s') :
    s.offers.length < s'.offers.length ∨
      s'.producer ≠ .idle ∧
        s'.producer.rank + (if l.isProducer then 1 else 0) ≤ s.producer.rank := by
  cases hl : l.isProducer with
  | false =>
      obtain ⟨-, hsame⟩ := writer_of_other hs hl hstep
      rw [hsame hbusy]
      exact .inr ⟨hbusy, le_rfl⟩
  | true =>
      cases l with
      | producer =>
          rcases produce_rank hstep with h | ⟨-, hbusy', hrank⟩
          · exact .inl h
          · exact .inr ⟨hbusy', hrank⟩
      | outOfMemory => exact .inl (failAllocation_rank hstep)
      | _ => cases hl

theorem answers_length_le {maxBlockSize : ℕ} (s : System α) (l : Label α)
    (s' : System α) (hs : s.Valid) (hstep : s.step maxBlockSize l = some s') :
    s.answers.length ≤ s'.answers.length := by
  cases hl : l.isConsumer with
  | false => rw [(reader_of_other hs hl hstep).1]
  | true =>
      cases l with
      | consumer =>
          rcases consume_rank hstep with h | ⟨h, -⟩
          · exact h.le
          · rw [h]
      | _ => cases hl

theorem offers_length_le {maxBlockSize : ℕ} (s : System α) (l : Label α)
    (s' : System α) (hs : s.Valid) (hstep : s.step maxBlockSize l = some s') :
    s.offers.length ≤ s'.offers.length := by
  cases hl : l.isProducer with
  | false => rw [(writer_of_other hs hl hstep).1]
  | true =>
      cases l with
      | producer =>
          rcases produce_rank hstep with h | ⟨h, -⟩
          · exact h.le
          · rw [h]
      | outOfMemory => exact (failAllocation_rank hstep).le
      | _ => cases hl

/-- From every state of a run: the next step of a call of the reader is not refused, and
the call has returned after eight of its steps, whatever the writer does in between.
The next step of a call of the writer is not refused either, and six of its steps are
enough. -/
theorem calls_return {maxBlockSize maxSize : ℕ} (h : Sizes maxBlockSize maxSize)
    {before ls : List (Label α)} {s t : System α}
    (hbefore : run (step maxBlockSize) (initial maxBlockSize maxSize) before = some s)
    (hr : run (step maxBlockSize) s ls = some t) :
    (s.consumer ≠ .idle → (∃ u, s.step maxBlockSize .consumer = some u) ∧
      (8 ≤ ls.countP Label.isConsumer → s.answers.length < t.answers.length)) ∧
    (s.producer ≠ .idle → (∃ u, s.step maxBlockSize .producer = some u) ∧
      (6 ≤ ls.countP Label.isProducer → s.offers.length < t.offers.length)) := by
  have hs := valid_of_run h hbefore
  refine ⟨fun hbusy => ⟨?_, fun hcount => ?_⟩, fun hbusy => ⟨?_, fun hcount => ?_⟩⟩
  · obtain ⟨used, free, hinv⟩ := hs
    exact hinv.exists_consume hbusy
  · refine answers_lt_of_count Valid (fun u => u.consumer ≠ .idle)
      (fun u => u.answers.length) (fun u => u.consumer.rank) Label.isConsumer step_valid
      answers_length_le step_reader hs hbusy hr (lt_of_lt_of_le ?_ hcount)
    cases s.consumer <;> simp [Consumer.rank]
  · exact exists_produce maxBlockSize hbusy
  · refine answers_lt_of_count Valid (fun u => u.producer ≠ .idle)
      (fun u => u.offers.length) (fun u => u.producer.rank) Label.isProducer step_valid
      offers_length_le step_writer hs hbusy hr (lt_of_lt_of_le ?_ hcount)
    cases s.producer <;> simp [Producer.rank]

/-- Eight steps of a reader that finds nothing. -/
def idleReader : List (Label ℕ) :=
  [.consumer, .consumer, .dequeue .pop, .consumer, .consumer, .dequeue .pop, .consumer,
    .consumer, .dequeue .pop, .consumer, .consumer]

theorem calls_return_idleReader :
    ∃ s t, run (step 2) (initial 2 1) [.dequeue .pop] = some s ∧
      run (step 2) s idleReader = some t ∧ s.answers.length < t.answers.length := by
  have hbefore : run (step 2) (initial 2 1 : System ℕ) [.dequeue .pop] =
      some ((initial 2 1).beginDequeue .pop) := rfl
  obtain ⟨t, ht⟩ := Option.isSome_iff_exists.mp (show
    (run (step 2) ((initial 2 1).beginDequeue .pop) idleReader).isSome = true from rfl)
  have hbusy : (Consumer.reloadTail .pop 1 0 : Consumer ℕ) ≠ .idle := nofun
  refine ⟨_, t, hbefore, ht, ?_⟩
  exact ((calls_return sizes_two_one hbefore ht).1 hbusy).2 (by decide)

end System

end Moodycamel

end Vendored

end Async

end Kclpp
