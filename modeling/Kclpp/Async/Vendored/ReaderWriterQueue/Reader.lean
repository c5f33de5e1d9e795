import Kclpp.Async.Vendored.ReaderWriterQueue.Invariant

/-!
# The steps of the reader

Most steps of the reader only look, and renew its copy of a tail: `Inv.look` keeps the
invariant over all of them. The three that do more have a lemma each: the reader goes
to the next block, it takes the object out of a slot, it passes the slot with the
front.
-/

namespace Kclpp

namespace Async

namespace Vendored

namespace Moodycamel

open CircularBuffer

variable {α : Type*}

/-- The object that has left its slot in a call that has not returned. -/
def Consumer.inHand : Consumer α → List α
  | .setFront _ _ _ element => [element]
  | _ => []

namespace System

def removed (s : System α) : List α :=
  s.answers.filterMap fun answer => if answer.1 = .peek then none else answer.2

/-- The removed elements with the one in hand. -/
def pulled (s : System α) : List α := s.removed ++ s.consumer.inHand

def accepted (s : System α) : List α :=
  s.offers.filterMap fun offer => if offer.2 then some offer.1 else none

/-- A step of the reader keeps the invariant, and what it pulls comes from the front
of the queue. -/
def Pulls (s s' : System α) : Prop :=
  (∃ used free, s'.Inv used free) ∧ s'.producer = s.producer ∧ s'.offers = s.offers ∧
    s'.pulled ++ s'.queue.contents = s.pulled ++ s.queue.contents

end System

namespace ReaderStep

variable {queue : ReaderWriterQueue α} {used free : List Pointer}

theorem refl (queue : ReaderWriterQueue α) (used free : List Pointer) :
    ReaderStep queue queue used free used free where
  tailBlock := rfl
  allocated := rfl
  others _ _ := rfl
  tail := rfl
  localFront := rfl
  next := rfl
  sizeMask := rfl
  front _ := rfl
  data := rfl
  ring _ := Iff.rfl
  free := ⟨[], (List.append_nil free).symm⟩
  used := le_rfl

/-- The reader writes to the front, the local copy of the tail and the objects of the
front block only. -/
theorem of_modify {b : Pointer} (f : Block α → Block α) (hb : b ∈ used)
    (htail : ∀ block, (f block).tail = block.tail)
    (hlocalFront : ∀ block, (f block).localFront = block.localFront)
    (hnext : ∀ block, (f block).next = block.next)
    (hsizeMask : ∀ block, (f block).sizeMask = block.sizeMask)
    (hfront : b = queue.tailBlock → 2 ≤ used.length →
      (f (queue.heap b)).front = (queue.heap b).front)
    (hdata : b = queue.tailBlock → (f (queue.heap b)).data (queue.heap b).tail =
      (queue.heap b).data (queue.heap b).tail) :
    ReaderStep queue (queue.modify b f) used free used free where
  tailBlock := rfl
  allocated := rfl
  others c hc := ReaderWriterQueue.modify_heap_of_ne _ _ fun heq => hc (heq ▸ hb)
  tail := by
    rw [ReaderWriterQueue.modify_heap]
    split_ifs with h
    · rw [htail, h]
    · rfl
  localFront := by
    rw [ReaderWriterQueue.modify_heap]
    split_ifs with h
    · rw [hlocalFront, h]
    · rfl
  next := by
    rw [ReaderWriterQueue.modify_heap]
    split_ifs with h
    · rw [hnext, h]
    · rfl
  sizeMask := by
    rw [ReaderWriterQueue.modify_heap]
    split_ifs with h
    · rw [hsizeMask, h]
    · rfl
  front htwo := by
    rw [ReaderWriterQueue.modify_heap]
    split_ifs with h
    · rw [hfront h.symm htwo, h]
    · rfl
  data := by
    rw [ReaderWriterQueue.modify_heap]
    split_ifs with h
    · rw [h]
      exact hdata h.symm
    · rfl
  ring _ := Iff.rfl
  free := ⟨[], (List.append_nil free).symm⟩
  used := le_rfl

end ReaderStep

namespace System

variable {s : System α} {used free : List Pointer}

/-- The slot at the front of a block that is not empty holds an object, unless the
reader has just taken it. -/
theorem Inv.exists_data_front (h : s.Inv used free) {b : Pointer}
    (hb : b ∈ used ++ free) (hne : (s.queue.heap b).front ≠ (s.queue.heap b).tail)
    (htaken : ∀ i, ¬ s.consumer.Taken b i) :
    ∃ x, (s.queue.heap b).data (s.queue.heap b).front = some x := by
  have hsound := h.sound b hb
  rw [← Option.isSome_iff_exists, h.slots b hb _ hsound.front]
  refine .inl ⟨?_, htaken _⟩
  rw [slots_of_ne hsound.front hsound.tail hne]
  exact List.mem_cons_self

theorem Inv.look (h : s.Inv used free) {queue : ReaderWriterQueue α}
    {consumer : Consumer α} (answers : List (Call × Option α))
    (hstep : ReaderStep s.queue queue used free used free)
    (hfront : queue.frontBlock = s.queue.frontBlock)
    (hlargest : queue.largestBlockSize = s.queue.largestBlockSize)
    (halike : ∀ b, (s.queue.heap b).Alike (queue.heap b))
    (hsound : ∀ b ∈ used ++ free, (queue.heap b).Sound)
    (htaken : ∀ b i, ¬ s.consumer.Taken b i) (htaken' : ∀ b i, ¬ consumer.Taken b i)
    (hconsumer : consumer.Inv queue used) :
    ({ s with queue := queue, consumer := consumer, answers := answers } :
      System α).Inv used free := by
  refine h.of_sameEnds _ hfront hstep.tailBlock hstep.allocated.ge
    (fun b hb hle => h.covered b hb (hstep.allocated ▸ hle)) (hlargest ▸ h.largest) (fun b _ => (halike b).toSameEnds) hsound (fun _ => id) ?_
    (h.producer.of_readerStep h.laid hstep) hconsumer
  intro b hb i hi
  exact h.slots_of_alike { s with queue := queue, consumer := consumer } hb (halike b)
    (fun j => iff_of_false (htaken' b j) (htaken b j)) (fun _ => Iff.rfl) hi

theorem Inv.pulls_look (h : s.Inv used free) {queue : ReaderWriterQueue α}
    {consumer : Consumer α} {answers : List (Call × Option α)}
    (hstep : ReaderStep s.queue queue used free used free)
    (hfront : queue.frontBlock = s.queue.frontBlock)
    (hlargest : queue.largestBlockSize = s.queue.largestBlockSize)
    (halike : ∀ b, (s.queue.heap b).Alike (queue.heap b))
    (hsound : ∀ b ∈ used ++ free, (queue.heap b).Sound)
    (htaken : ∀ b i, ¬ s.consumer.Taken b i) (htaken' : ∀ b i, ¬ consumer.Taken b i)
    (hconsumer : consumer.Inv queue used)
    (hpulled : ({ s with queue := queue, consumer := consumer, answers := answers } :
      System α).pulled = s.pulled) :
    s.Pulls { s with queue := queue, consumer := consumer, answers := answers } := by
  have hinv := h.look answers hstep hfront hlargest halike hsound htaken
    htaken' hconsumer
  refine ⟨⟨used, free, hinv⟩, rfl, rfl, ?_⟩
  rw [hpulled, h.laid.contents_congr hinv.laid fun b _ => (halike b).elements]

theorem Inv.pulls_goto (h : s.Inv used free) {consumer : Consumer α}
    {answers : List (Call × Option α)}
    (htaken : ∀ b i, ¬ s.consumer.Taken b i) (htaken' : ∀ b i, ¬ consumer.Taken b i)
    (hconsumer : consumer.Inv s.queue used)
    (hpulled : ({ s with consumer := consumer, answers := answers } :
      System α).pulled = s.pulled) :
    s.Pulls { s with consumer := consumer, answers := answers } :=
  h.pulls_look (ReaderStep.refl _ _ _) rfl rfl (fun _ => Block.Alike.refl _) h.sound
    htaken htaken' hconsumer hpulled

theorem Inv.pulls_reload (h : s.Inv used free) {b : Pointer} (hb : b ∈ used)
    {consumer : Consumer α}
    (htaken : ∀ b i, ¬ s.consumer.Taken b i) (htaken' : ∀ b i, ¬ consumer.Taken b i)
    (hconsumer : consumer.Inv (s.queue.setLocalTail b (s.queue.heap b).tail) used)
    (hhand : consumer.inHand = s.consumer.inHand) :
    s.Pulls { s with
      queue := s.queue.setLocalTail b (s.queue.heap b).tail
      consumer := consumer } := by
  refine h.pulls_look ?_ rfl rfl ?_ ?_ htaken htaken' hconsumer ?_
  · refine ReaderStep.of_modify _ hb ?_ ?_ ?_ ?_ ?_ ?_
    all_goals intros; rfl
  · exact Block.alike_setLocalTail _ _ _
  · exact Block.sound_modify h.sound
      (h.sound b (List.mem_append_left _ hb)).reload_tail
  · rw [pulled, pulled, hhand]
    rfl

theorem Inv.pulls_setFrontBlock (h : s.Inv used free) {call : Call} {b : Pointer}
    {nextBlockFront : ℕ} (hpc : s.consumer = .setFrontBlock call b nextBlockFront) :
    s.Pulls { s with
      queue := { s.queue with frontBlock := b }
      consumer := .take call b nextBlockFront } := by
  have hconsumer := h.consumer
  rw [hpc] at hconsumer
  obtain ⟨hcall, hb, rfl, hlocal, hempty⟩ := hconsumer
  obtain ⟨rest, rfl⟩ := h.laid.used_eq_of_getElem?_one hb
  have htwo : 2 ≤ (s.queue.frontBlock :: b :: rest).length := by simp
  have hlaid := h.laid.set_frontBlock
  have hring : ∀ c, c ∈ b :: rest ++ (free ++ [s.queue.frontBlock]) ↔
      c ∈ s.queue.frontBlock :: b :: rest ++ free := by
    intro c
    rw [← List.append_assoc, List.mem_append, List.mem_singleton, List.cons_append,
      List.mem_cons, or_comm]
    simp only [List.cons_append, List.mem_cons]
  have hstep : ReaderStep s.queue { s.queue with frontBlock := b }
      (s.queue.frontBlock :: b :: rest) free (b :: rest)
      (free ++ [s.queue.frontBlock]) :=
    { ReaderStep.refl s.queue (s.queue.frontBlock :: b :: rest) free with
      ring := hring
      free := ⟨_, rfl⟩
      used := Nat.le_succ _ }
  refine ⟨⟨b :: rest, free ++ [s.queue.frontBlock], ?_⟩, rfl, rfl, ?_⟩
  · refine ⟨hlaid, fun c hc hle => (h.covered c hc hle).imp_left (hring c).mpr,
      h.largest, fun c hc => h.sound c ((hring c).mp hc), ?_, ?_, ?_, ?_,
      h.producer.of_readerStep h.laid hstep, ⟨rfl, .inl ⟨rfl, hlocal⟩⟩⟩
    · intro c hc _ hne
      refine h.between c (List.mem_cons_of_mem _ hc) (fun heq => ?_) hne
      have hnodup := (List.nodup_append.mp h.laid.nodup).1
      exact (List.nodup_cons.mp hnodup).1 (heq ▸ hc)
    · exact fun _ => h.filled htwo
    · intro c hc hadvancing
      rcases List.mem_append.mp hc with hc | hc
      · exact h.spare c hc hadvancing
      · rw [List.mem_singleton.mp hc]
        exact hempty
    · intro c hc i hi
      have hslots := h.slots c ((hring c).mp hc) i hi
      rw [Holds, hpc] at hslots
      exact hslots
  · have hnil := (h.sound _ h.mem_ring_frontBlock).elements_eq_nil hempty
    have hcontents : s.queue.contents =
        (b :: rest).flatMap fun c => (s.queue.heap c).elements := by
      rw [h.laid.contents_eq, List.flatMap_cons, hnil, List.nil_append]
    rw [hlaid.contents_eq, hcontents, pulled, pulled, hpc]
    rfl

theorem Inv.contents_eq_append (h : s.Inv used free) :
    ∃ rest, used = s.queue.frontBlock :: rest ∧ s.queue.frontBlock ∉ rest ∧
      s.queue.contents = (s.queue.heap s.queue.frontBlock).elements ++
        rest.flatMap fun c => (s.queue.heap c).elements := by
  obtain ⟨rest, hused⟩ := h.laid.exists_used_eq_cons
  have hnodup := (List.nodup_append.mp h.laid.nodup).1
  rw [hused] at hnodup
  refine ⟨rest, hused, (List.nodup_cons.mp hnodup).1, ?_⟩
  rw [h.laid.contents_eq, hused, List.flatMap_cons]

theorem Inv.contents_modify_frontBlock (h : s.Inv used free) (f : Block α → Block α)
    (hlaid : Laid (s.queue.modify s.queue.frontBlock f) used free) (l : List α)
    (helements : l ++ (f (s.queue.heap s.queue.frontBlock)).elements =
      (s.queue.heap s.queue.frontBlock).elements) :
    l ++ (s.queue.modify s.queue.frontBlock f).contents = s.queue.contents := by
  obtain ⟨rest, hused, hnotMem, hcontents⟩ := h.contents_eq_append
  have hrest : rest.flatMap (fun c =>
      ((s.queue.modify s.queue.frontBlock f).heap c).elements) =
        rest.flatMap fun c => (s.queue.heap c).elements := by
    refine List.flatMap_congr fun c hc => ?_
    rw [ReaderWriterQueue.modify_heap_of_ne _ _ (ne_of_mem_of_not_mem hc hnotMem)]
  rw [hlaid.contents_eq, hcontents, hused, List.flatMap_cons, hrest,
    ReaderWriterQueue.modify_heap_self, ← List.append_assoc, helements]

theorem Inv.pulls_take (h : s.Inv used free) {call : Call} {b : Pointer}
    {blockFront : ℕ} {element : α} (hpc : s.consumer = .take call b blockFront)
    (hcall : call ≠ .peek)
    (hdata : (s.queue.heap b).data blockFront = some element) :
    s.Pulls { s with
      queue := s.queue.destroy b blockFront
      consumer := .setFront call b blockFront element } := by
  have hconsumer := h.consumer
  rw [hpc] at hconsumer
  obtain ⟨rfl, ⟨rfl, hlocal⟩ | ⟨hpeek, -⟩⟩ := hconsumer
  swap
  · exact absurd hpeek hcall
  have hsound := h.sound _ h.mem_ring_frontBlock
  have hne := hsound.front_ne_tail hlocal
  have hsounds : ∀ c ∈ used ++ free, ((s.queue.destroy s.queue.frontBlock
      (s.queue.heap s.queue.frontBlock).front).heap c).Sound :=
    Block.sound_modify h.sound (hsound.set_data _)
  have hstep : ReaderStep s.queue (s.queue.destroy s.queue.frontBlock
      (s.queue.heap s.queue.frontBlock).front) used free used free := by
    refine ReaderStep.of_modify _ h.laid.frontBlock_mem ?_ ?_ ?_ ?_ ?_ fun _ => ?_
    rotate_right
    · exact Function.update_of_ne hne.symm _ _
    all_goals
      intros
      rfl
  have hinv : ({ s with
      queue := s.queue.destroy s.queue.frontBlock
        (s.queue.heap s.queue.frontBlock).front
      consumer := .setFront call s.queue.frontBlock
        (s.queue.heap s.queue.frontBlock).front element } : System α).Inv used free := by
    refine h.of_sameEnds _ rfl rfl le_rfl h.covered h.largest
      (fun c _ => Block.sameEnds_destroy _ _ _ c) hsounds (fun _ => id) ?_
      (h.producer.of_readerStep h.laid hstep) ?_
    · intro c hc i hi
      have hold := h.slots c hc i hi
      rw [Holds, hpc] at hold
      rw [Holds]
      dsimp only
      by_cases hcb : c = s.queue.frontBlock
      · subst hcb
        rw [ReaderWriterQueue.modify_heap_self]
        dsimp only
        by_cases hif : i = (s.queue.heap s.queue.frontBlock).front
        · -- the writer is not at this slot: it is at the tail
          subst hif
          rw [Function.update_self]
          have hnot : ¬ s.producer.Constructed s.queue.frontBlock
              (s.queue.heap s.queue.frontBlock).front :=
            fun hc => hne (h.eq_tail_of_constructed hc)
          simp [Consumer.Taken, hnot]
        · rw [Function.update_of_ne hif, hold]
          simp only [Consumer.Taken, hif, and_false]
          rfl
      · rw [ReaderWriterQueue.modify_heap_of_ne _ _ hcb, hold]
        simp only [Consumer.Taken, hcb, false_and]
    · refine ⟨hcall, rfl, ?_, ?_⟩
      · rw [ReaderWriterQueue.modify_heap_self]
      · rw [ReaderWriterQueue.modify_heap_self]
        exact hlocal
  have hlaid : Laid (s.queue.destroy s.queue.frontBlock
      (s.queue.heap s.queue.frontBlock).front) used free := hinv.laid
  have hcontents := h.contents_modify_frontBlock _ hlaid [element]
    (hsound.elements_destroy_front hne hdata)
  refine ⟨⟨used, free, hinv⟩, rfl, rfl, ?_⟩
  rw [pulled, pulled, hpc, ← hcontents]
  simp only [Consumer.inHand, List.append_assoc, List.nil_append]
  rfl

theorem Inv.pulls_setFront (h : s.Inv used free) {call : Call} {b : Pointer}
    {blockFront : ℕ} {element : α}
    (hpc : s.consumer = .setFront call b blockFront element) :
    s.Pulls ({ s with
      queue := s.queue.setFront b
        ((blockFront + 1) &&& (s.queue.heap b).sizeMask) }.answered call
          (some element)) := by
  have hconsumer := h.consumer
  rw [hpc] at hconsumer
  obtain ⟨hcall, rfl, rfl, hlocal⟩ := hconsumer
  have hsound := h.sound _ h.mem_ring_frontBlock
  have hne := hsound.front_ne_tail hlocal
  have hslots := slots_of_ne hsound.front hsound.tail hne
  have hnotMem := front_notMem_slots_succ hsound.front hsound.tail hne
  rw [hsound.and_sizeMask]
  have hother : ∀ c, c ≠ s.queue.frontBlock → (s.queue.setFront s.queue.frontBlock
      (succ (s.queue.heap s.queue.frontBlock).size
        (s.queue.heap s.queue.frontBlock).front)).heap c = s.queue.heap c :=
    fun c hc => ReaderWriterQueue.modify_heap_of_ne _ _ hc
  have hsounds : ∀ c ∈ used ++ free, ((s.queue.setFront s.queue.frontBlock
      (succ (s.queue.heap s.queue.frontBlock).size
        (s.queue.heap s.queue.frontBlock).front)).heap c).Sound :=
    Block.sound_modify h.sound (hsound.advance_front hlocal)
  have hlaid : Laid (s.queue.setFront s.queue.frontBlock
      (succ (s.queue.heap s.queue.frontBlock).size
        (s.queue.heap s.queue.frontBlock).front)) used free := by
    refine h.laid.congr (fun c _ => ?_) rfl rfl le_rfl
    rw [ReaderWriterQueue.modify_heap]
    split_ifs with hc
    · rw [hc]
    · rfl
  have hstep : ReaderStep s.queue (s.queue.setFront s.queue.frontBlock
      (succ (s.queue.heap s.queue.frontBlock).size
        (s.queue.heap s.queue.frontBlock).front)) used free used free := by
    refine ReaderStep.of_modify _ h.laid.frontBlock_mem ?_ ?_ ?_ ?_ ?_ ?_
    rotate_right 2
    · exact fun heq htwo => absurd heq (h.laid.two_le_length_iff.mp htwo)
    · exact fun _ => rfl
    all_goals
      intros
      rfl
  have hraw : (s.queue.heap s.queue.frontBlock).data
      (s.queue.heap s.queue.frontBlock).front = none := by
    have hold := h.slots _ h.mem_ring_frontBlock _ hsound.front
    have hnot : ¬ s.producer.Constructed s.queue.frontBlock
        (s.queue.heap s.queue.frontBlock).front :=
      fun hc => hne (h.eq_tail_of_constructed hc)
    rw [Holds, hpc] at hold
    simpa [Consumer.Taken, hnot] using hold
  have hcontents := h.contents_modify_frontBlock _ hlaid []
    (hsound.elements_advance_front hne hraw)
  refine ⟨⟨used, free, ⟨hlaid, h.covered, h.largest, ?_, ?_, ?_, ?_, ?_,
    h.producer.of_readerStep h.laid hstep, trivial⟩⟩, rfl, rfl, ?_⟩
  · exact hsounds
  · intro c hc hc' hc''
    dsimp only [answered]
    rw [hother c hc']
    exact h.between c hc hc' hc''
  · intro htwo
    dsimp only [answered]
    rw [ReaderWriterQueue.modify_tailBlock,
      hother _ (h.laid.two_le_length_iff.mp htwo).symm]
    exact h.filled htwo
  · intro c hc hadvancing
    dsimp only [answered]
    rw [hother c (h.laid.ne_of_mem h.laid.frontBlock_mem hc).symm]
    exact h.spare c hc hadvancing
  · intro c hc i hi
    rw [Holds]
    dsimp only [answered] at hi ⊢
    by_cases hcb : c = s.queue.frontBlock
    · subst hcb
      have hi' : i < (s.queue.heap s.queue.frontBlock).size := by
        rw [ReaderWriterQueue.modify_heap_self] at hi
        exact hi
      have hold := h.slots _ hc i hi'
      rw [Holds, hpc, hslots] at hold
      rw [ReaderWriterQueue.modify_heap_self]
      change ((s.queue.heap s.queue.frontBlock).data i).isSome ↔
        i ∈ CircularBuffer.slots (s.queue.heap s.queue.frontBlock).size _ _ ∧ ¬ False ∨ _
      rw [hold]
      refine or_congr_left ?_
      simp only [Consumer.Taken, List.mem_cons, true_and, not_false_eq_true, and_true]
      constructor
      · rintro ⟨rfl | hmem, hnot⟩
        · exact absurd rfl hnot
        · exact hmem
      · exact fun hmem => ⟨.inr hmem, ne_of_mem_of_not_mem hmem hnotMem⟩
    · rw [hother c hcb] at hi ⊢
      have hold := h.slots c hc i hi
      rw [Holds, hpc] at hold
      rw [hold]
      simp only [Consumer.Taken, hcb, false_and]
  · have hremoved : ({ s with
        queue := s.queue.setFront s.queue.frontBlock
          (succ (s.queue.heap s.queue.frontBlock).size
            (s.queue.heap s.queue.frontBlock).front) }.answered call
              (some element)).pulled = s.pulled := by
      simp [pulled, removed, answered, hpc, Consumer.inHand, hcall]
    rw [hremoved]
    exact congrArg _ hcontents

/-- Every step of the reader. -/
theorem Inv.pulls_consume (h : s.Inv used free) {s' : System α}
    (hstep : s.consume = some s') : s.Pulls s' := by
  have hconsumer := h.consumer
  unfold consume at hstep
  cases hpc : s.consumer with
  | idle =>
      rw [hpc] at hstep
      cases hstep
  | reloadTail call b blockFront =>
      rw [hpc] at hstep hconsumer
      obtain ⟨rfl, rfl⟩ := hconsumer
      cases hstep
      refine h.pulls_reload h.laid.frontBlock_mem ?_ ?_ ?_ ?_
      · rw [hpc]
        exact fun _ _ => id
      · intro c i
        split_ifs <;> exact id
      · split_ifs with hne
        · refine ⟨?_, .inl ⟨rfl, ?_⟩⟩
          · rw [ReaderWriterQueue.modify_heap_self]
          · rw [ReaderWriterQueue.modify_heap_self]
            exact hne
        · exact rfl
      · rw [hpc]
        split_ifs <;> rfl
  | checkTailBlock call b =>
      rw [hpc] at hstep hconsumer
      cases hconsumer
      dsimp only at hstep
      split_ifs at hstep with hne
      · cases hstep
        refine h.pulls_goto ?_ (fun _ _ => id) (h.laid.two_le_length_iff.mpr hne) ?_
        · rw [hpc]
          exact fun _ _ => id
        · rw [pulled, pulled, hpc]
          rfl
      · cases hstep
        refine h.pulls_goto ?_ (fun _ _ => id) trivial ?_
        · rw [hpc]
          exact fun _ _ => id
        · cases call <;> simp [pulled, removed, hpc, Consumer.inHand]
  | recheck call =>
      rw [hpc] at hstep hconsumer
      cases hstep
      refine h.pulls_reload h.laid.frontBlock_mem ?_ ?_ ?_ ?_
      · rw [hpc]
        exact fun _ _ => id
      · intro c i
        split_ifs <;> exact id
      · split_ifs with hne
        · refine ⟨?_, .inl ⟨rfl, ?_⟩⟩
          · rw [ReaderWriterQueue.modify_heap_self]
          · rw [ReaderWriterQueue.modify_heap_self]
            exact hne
        · refine ⟨rfl, hconsumer, ?_⟩
          rw [ReaderWriterQueue.modify_heap_self]
          exact not_not.mp hne
      · rw [hpc]
        split_ifs <;> rfl
  | readNext call b =>
      rw [hpc] at hstep hconsumer
      obtain ⟨rfl, htwo, hempty⟩ := hconsumer
      cases hstep
      have hnext := h.laid.getElem?_one (h.laid.two_le_length_iff.mp htwo)
      refine h.pulls_goto ?_ (fun _ _ => id) ⟨hnext, rfl, hempty⟩ ?_
      · rw [hpc]
        exact fun _ _ => id
      · rw [pulled, pulled, hpc]
        rfl
  | reloadNextTail call b nextBlockFront =>
      rw [hpc] at hstep hconsumer
      obtain ⟨hb, rfl, hempty⟩ := hconsumer
      have hne := h.laid.ne_of_getElem?_one hb
      have hmem := List.mem_of_getElem? hb
      have hfront : b ≠ s.queue.frontBlock := by
        obtain ⟨rest, hused⟩ := h.laid.used_eq_of_getElem?_one hb
        have hnodup := (List.nodup_append.mp h.laid.nodup).1
        rw [hused] at hnodup
        exact fun heq => (List.nodup_cons.mp hnodup).1 (heq ▸ List.mem_cons_self)
      by_cases hcall : call = .peek
      · subst hcall
        cases hstep
        refine h.pulls_goto ?_ (fun _ _ => id) ⟨rfl, .inr ⟨rfl, hb, hempty⟩⟩ ?_
        · rw [hpc]
          exact fun _ _ => id
        · rw [pulled, pulled, hpc]
          rfl
      · have hstep' : some { s with
            queue := s.queue.setLocalTail b (s.queue.heap b).tail
            consumer := .setFrontBlock call b (s.queue.heap b).front } = some s' := by
          cases call with
          | peek => exact absurd rfl hcall
          | tryDequeue => exact hstep
          | pop => exact hstep
        cases hstep'
        refine h.pulls_reload hmem ?_ (fun _ _ => id) ?_ ?_
        · rw [hpc]
          exact fun _ _ => id
        · refine ⟨hcall, hb, ?_, ?_, ?_⟩
          · rw [ReaderWriterQueue.modify_heap_self]
          · rw [ReaderWriterQueue.modify_heap_self]
            exact h.front_ne_tail hmem hfront
          · rw [ReaderWriterQueue.modify_frontBlock,
              ReaderWriterQueue.modify_heap_of_ne _ _ hfront.symm]
            exact hempty
        · rw [hpc]
          rfl
  | setFrontBlock call b nextBlockFront =>
      rw [hpc] at hstep
      cases hstep
      exact h.pulls_setFrontBlock hpc
  | take call b blockFront =>
      rw [hpc] at hstep hconsumer
      obtain ⟨element, hdata, hstep⟩ := Option.map_eq_some_iff.mp hstep
      by_cases hcall : call = .peek
      · subst hcall
        cases hstep
        refine h.pulls_goto ?_ (fun _ _ => id) trivial ?_
        · rw [hpc]
          exact fun _ _ => id
        · simp [pulled, removed, hpc, Consumer.inHand]
      · have hstep' : { s with
            queue := s.queue.destroy b blockFront
            consumer := .setFront call b blockFront element } = s' := by
          cases call with
          | peek => exact absurd rfl hcall
          | tryDequeue => exact hstep
          | pop => exact hstep
        rw [← hstep']
        exact h.pulls_take hpc hcall hdata
  | setFront call b blockFront element =>
      rw [hpc] at hstep
      cases hstep
      exact h.pulls_setFront hpc

theorem Inv.pulls_beginDequeue (h : s.Inv used free) (call : Call)
    (hpc : s.consumer = .idle) : s.Pulls (s.beginDequeue call) := by
  refine h.pulls_goto ?_ ?_ ?_ ?_
  · rw [hpc]
    exact fun _ _ => id
  · intro c i
    split_ifs <;> exact id
  · split_ifs with hne
    · exact ⟨rfl, .inl ⟨rfl, hne⟩⟩
    · exact ⟨rfl, rfl⟩
  · rw [pulled, pulled, hpc]
    dsimp only
    split_ifs <;> rfl

end System

end Moodycamel

end Vendored

end Async

end Kclpp
