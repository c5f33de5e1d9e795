import Kclpp.Async.Vendored.ReaderWriterQueue.Reader

/-!
# The steps of the writer

An object enters the queue in two steps that are apart: the writer constructs it in a
slot that is raw, and then moves the tail past it or, in another block, makes that
block the tail block. Only the second one is seen by the reader, and it is the one
that adds to the contents.
-/

namespace Kclpp

namespace Async

namespace Vendored

namespace Moodycamel

open CircularBuffer

variable {α : Type*}

namespace System

/-- A step of the writer keeps the invariant, and what it pushes comes to the end of
the queue. -/
def Pushes (s s' : System α) : Prop :=
  (∃ used free, s'.Inv used free) ∧ s'.consumer = s.consumer ∧
    s'.answers = s.answers ∧ ∃ l, s'.accepted = s.accepted ++ l ∧
      s'.queue.contents = s.queue.contents ++ l

end System

namespace WriterStep

variable {queue queue' : ReaderWriterQueue α} {used : List Pointer}

theorem of_sameEnds (hfront : queue'.frontBlock = queue.frontBlock)
    (hends : ∀ b ∈ used, (queue.heap b).SameEnds (queue'.heap b))
    (hlocal : ∀ b ∈ used, (queue'.heap b).localTail = (queue.heap b).localTail)
    (hmem : queue.frontBlock ∈ used) : WriterStep queue queue' used used where
  frontBlock := hfront
  front b hb := (hends b hb).front
  localTail := hlocal
  tail _ := (hends _ hmem).tail
  used := ⟨[], (List.append_nil used).symm⟩

theorem of_modify {b : Pointer} (f : Block α → Block α)
    (hfront : ∀ block, (f block).front = block.front)
    (hlocal : ∀ block, (f block).localTail = block.localTail)
    (htail : b = queue.frontBlock → 2 ≤ used.length →
      (f (queue.heap b)).tail = (queue.heap b).tail) :
    WriterStep queue (queue.modify b f) used used where
  frontBlock := rfl
  front c _ := by
    rw [ReaderWriterQueue.modify_heap]
    split_ifs with h
    · rw [hfront, h]
    · rfl
  localTail c _ := by
    rw [ReaderWriterQueue.modify_heap]
    split_ifs with h
    · rw [hlocal, h]
    · rfl
  tail htwo := by
    rw [ReaderWriterQueue.modify_heap]
    split_ifs with h
    · rw [htail h.symm htwo, h]
    · rfl
  used := ⟨[], (List.append_nil used).symm⟩

end WriterStep

namespace System

variable {s : System α} {used free : List Pointer}

theorem pushes_nil {s s' : System α} (hinv : s'.Inv used free)
    (hconsumer : s'.consumer = s.consumer) (hanswers : s'.answers = s.answers)
    (haccepted : s'.accepted = s.accepted)
    (hcontents : s'.queue.contents = s.queue.contents) : s.Pushes s' := by
  refine ⟨⟨used, free, hinv⟩, hconsumer, hanswers, [], ?_, ?_⟩
  · rw [List.append_nil, haccepted]
  · rw [List.append_nil, hcontents]

theorem Inv.prepare (h : s.Inv used free) {queue : ReaderWriterQueue α}
    {producer : Producer α} (offers : List (α × Bool))
    (hfront : queue.frontBlock = s.queue.frontBlock)
    (htail : queue.tailBlock = s.queue.tailBlock)
    (hallocated : s.queue.allocated ≤ queue.allocated)
    (hcovered : ∀ b, nullptr < b → b ≤ queue.allocated →
      b ∈ used ++ free ∨ producer.Linking b)
    (hlargest : ∃ k, queue.largestBlockSize = 2 ^ (k + 1))
    (halike : ∀ b ∈ used ++ free, (s.queue.heap b).Alike (queue.heap b))
    (hlocal : ∀ b ∈ used, (queue.heap b).localTail = (s.queue.heap b).localTail)
    (hsound : ∀ b ∈ used ++ free, (queue.heap b).Sound)
    (hplain : s.producer.Plain) (hconstructed : ∀ b i, ¬ producer.Constructed b i)
    (hproducer : producer.Inv queue used free) :
    ({ s with queue := queue, producer := producer, offers := offers } :
      System α).Inv used free := by
  refine h.of_sameEnds _ hfront htail hallocated hcovered hlargest
    (fun b hb => (halike b hb).toSameEnds) hsound
    (fun b hb => absurd hb (hplain.advancing b)) ?_ hproducer
    (h.consumer.of_writerStep h.laid (WriterStep.of_sameEnds hfront
      (fun b hb => (halike b (List.mem_append_left _ hb)).toSameEnds) hlocal
      h.laid.frontBlock_mem))
  intro b hb i hi
  exact h.slots_of_alike { s with queue := queue, producer := producer } hb
    (halike b hb) (fun _ => Iff.rfl)
    (fun j => iff_of_false (hconstructed b j) (hplain.constructed b j)) hi

theorem Inv.pushes_prepare (h : s.Inv used free) {queue : ReaderWriterQueue α}
    {producer : Producer α} (offers : List (α × Bool))
    (hfront : queue.frontBlock = s.queue.frontBlock)
    (htail : queue.tailBlock = s.queue.tailBlock)
    (hallocated : s.queue.allocated ≤ queue.allocated)
    (hcovered : ∀ b, nullptr < b → b ≤ queue.allocated →
      b ∈ used ++ free ∨ producer.Linking b)
    (hlargest : ∃ k, queue.largestBlockSize = 2 ^ (k + 1))
    (halike : ∀ b ∈ used ++ free, (s.queue.heap b).Alike (queue.heap b))
    (hlocal : ∀ b ∈ used, (queue.heap b).localTail = (s.queue.heap b).localTail)
    (hsound : ∀ b ∈ used ++ free, (queue.heap b).Sound)
    (hplain : s.producer.Plain) (hconstructed : ∀ b i, ¬ producer.Constructed b i)
    (hproducer : producer.Inv queue used free)
    (haccepted : ({ s with offers := offers } : System α).accepted = s.accepted) :
    s.Pushes { s with queue := queue, producer := producer, offers := offers } := by
  have hinv := h.prepare offers hfront htail hallocated hcovered hlargest halike hlocal hsound
    hplain hconstructed hproducer
  refine pushes_nil hinv rfl rfl haccepted ?_
  exact h.laid.contents_congr hinv.laid fun b hb =>
    (halike b (List.mem_append_left _ hb)).elements

theorem Inv.pushes_goto (h : s.Inv used free) {producer : Producer α}
    (offers : List (α × Bool)) (hplain : s.producer.Plain)
    (hconstructed : ∀ b i, ¬ producer.Constructed b i)
    (hproducer : producer.Inv s.queue used free)
    (haccepted : ({ s with offers := offers } : System α).accepted = s.accepted) :
    s.Pushes { s with producer := producer, offers := offers } :=
  h.pushes_prepare offers rfl rfl le_rfl (fun _ hb hle => .inl (h.mem_ring hplain hb hle))
    h.largest (fun _ _ => Block.Alike.refl _) (fun _ _ => rfl) h.sound hplain hconstructed
    hproducer haccepted

theorem Inv.pushes_reload (h : s.Inv used free) {b : Pointer} (hb : b ∈ used ++ free)
    {producer : Producer α} (hplain : s.producer.Plain)
    (hconstructed : ∀ b i, ¬ producer.Constructed b i)
    (hproducer : producer.Inv
      (s.queue.setLocalFront b (s.queue.heap b).front) used free) :
    s.Pushes { s with
      queue := s.queue.setLocalFront b (s.queue.heap b).front
      producer := producer } := by
  have hsounds : ∀ c ∈ used ++ free,
      ((s.queue.setLocalFront b (s.queue.heap b).front).heap c).Sound :=
    Block.sound_modify h.sound (h.sound b hb).reload_front
  refine h.pushes_prepare s.offers rfl rfl le_rfl
    (fun _ hc hle => .inl (h.mem_ring hplain hc hle)) h.largest
    (fun c _ => Block.alike_setLocalFront _ _ _ c) (fun c _ => ?_) hsounds hplain
    hconstructed hproducer rfl
  rw [ReaderWriterQueue.modify_heap]
  split_ifs with hc
  · rw [hc]
  · rfl

theorem Inv.construct (h : s.Inv used free) {b : Pointer} (hb : b ∈ used ++ free)
    {element : α} {producer : Producer α} (hplain : s.producer.Plain)
    (hconstructed : ∀ c i, producer.Constructed c i ↔
      c = b ∧ i = (s.queue.heap b).tail)
    (hproducer : producer.Inv
      (s.queue.construct b (s.queue.heap b).tail element) used free) :
    ({ s with
      queue := s.queue.construct b (s.queue.heap b).tail element
      producer := producer } : System α).Inv used free := by
  have hsounds : ∀ c ∈ used ++ free,
      ((s.queue.construct b (s.queue.heap b).tail element).heap c).Sound :=
    Block.sound_modify h.sound ((h.sound b hb).set_data _)
  have hstep : WriterStep s.queue
      (s.queue.construct b (s.queue.heap b).tail element) used used :=
    WriterStep.of_modify _ (fun _ => rfl) (fun _ => rfl) fun _ _ => rfl
  refine h.of_sameEnds _ rfl rfl le_rfl
    (fun _ hc hle => .inl (h.mem_ring hplain hc hle)) h.largest
    (fun c _ => Block.sameEnds_construct _ _ _ _ c) hsounds
    (fun c hc => absurd hc (hplain.advancing c)) ?_ hproducer
    (h.consumer.of_writerStep h.laid hstep)
  intro c hc i hi
  have hold := h.slots c hc i hi
  rw [Holds, or_iff_left (hplain.constructed c i)] at hold
  rw [Holds]
  dsimp only
  rw [hconstructed]
  by_cases hcb : c = b
  · subst hcb
    rw [ReaderWriterQueue.modify_heap_self]
    by_cases hit : i = (s.queue.heap c).tail
    · subst hit
      simp
    · dsimp only
      rw [Function.update_of_ne hit, hold]
      simp only [hit, and_false, or_false]
      rfl
  · rw [ReaderWriterQueue.modify_heap_of_ne _ _ hcb, hold]
    simp only [hcb, false_and, or_false]

theorem Inv.pushes_construct (h : s.Inv used free) {b : Pointer}
    (hb : b ∈ used ++ free) {element : α} {producer : Producer α}
    (hplain : s.producer.Plain)
    (hconstructed : ∀ c i, producer.Constructed c i ↔
      c = b ∧ i = (s.queue.heap b).tail)
    (hproducer : producer.Inv
      (s.queue.construct b (s.queue.heap b).tail element) used free) :
    s.Pushes { s with
      queue := s.queue.construct b (s.queue.heap b).tail element
      producer := producer } := by
  have hinv := h.construct hb hplain hconstructed hproducer
  refine pushes_nil hinv rfl rfl rfl ?_
  refine h.laid.contents_congr hinv.laid fun c _ => ?_
  dsimp only
  by_cases hcb : c = b
  · subst hcb
    rw [ReaderWriterQueue.modify_heap_self]
    exact (h.sound c hb).elements_construct_tail element
  · rw [ReaderWriterQueue.modify_heap_of_ne _ _ hcb]

theorem Inv.contents_modify_tailBlock (h : s.Inv used free) (f : Block α → Block α)
    (hlaid : Laid (s.queue.modify s.queue.tailBlock f) used free) (l : List α)
    (helements : (f (s.queue.heap s.queue.tailBlock)).elements =
      (s.queue.heap s.queue.tailBlock).elements ++ l) :
    (s.queue.modify s.queue.tailBlock f).contents = s.queue.contents ++ l := by
  obtain ⟨before, hused⟩ := h.laid.exists_used_eq_append
  have hnodup := (List.nodup_append.mp h.laid.nodup).1
  rw [hused] at hnodup
  have hbefore : before.flatMap (fun c =>
      ((s.queue.modify s.queue.tailBlock f).heap c).elements) =
        before.flatMap fun c => (s.queue.heap c).elements := by
    refine List.flatMap_congr fun c hc => ?_
    have hne := (List.nodup_append.mp hnodup).2.2 c hc _ (List.mem_singleton_self _)
    rw [ReaderWriterQueue.modify_heap_of_ne _ _ hne]
  rw [hlaid.contents_eq, h.laid.contents_eq, hused, List.flatMap_append,
    List.flatMap_append, hbefore, List.flatMap_singleton, List.flatMap_singleton,
    ReaderWriterQueue.modify_heap_self, helements, List.append_assoc]

theorem Inv.pushes_setTail (h : s.Inv used free) {element : α} {b : Pointer}
    {blockTail nextBlockTail : ℕ}
    (hpc : s.producer = .setTail element b blockTail nextBlockTail) :
    s.Pushes ({ s with queue := s.queue.setTail b nextBlockTail }.offered element
      true) := by
  have hproducer := h.producer
  rw [hpc] at hproducer
  obtain ⟨rfl, rfl, rfl, hlocal, hdata⟩ := hproducer
  have hsound := h.sound _ h.mem_ring_tailBlock
  have hroom := hsound.succ_tail_ne hlocal
  have hslots := slots_succ_tail hsound.front hsound.tail hroom
  have hother : ∀ c, c ≠ s.queue.tailBlock → (s.queue.setTail s.queue.tailBlock
      (succ (s.queue.heap s.queue.tailBlock).size
        (s.queue.heap s.queue.tailBlock).tail)).heap c = s.queue.heap c :=
    fun c hc => ReaderWriterQueue.modify_heap_of_ne _ _ hc
  have hsounds : ∀ c ∈ used ++ free, ((s.queue.setTail s.queue.tailBlock
      (succ (s.queue.heap s.queue.tailBlock).size
        (s.queue.heap s.queue.tailBlock).tail)).heap c).Sound :=
    Block.sound_modify h.sound (hsound.advance_tail hlocal)
  have hlaid : Laid (s.queue.setTail s.queue.tailBlock
      (succ (s.queue.heap s.queue.tailBlock).size
        (s.queue.heap s.queue.tailBlock).tail)) used free := by
    refine h.laid.congr (fun c _ => ?_) rfl rfl le_rfl
    rw [ReaderWriterQueue.modify_heap]
    split_ifs with hc
    · rw [hc]
    · rfl
  have hstep : WriterStep s.queue (s.queue.setTail s.queue.tailBlock
      (succ (s.queue.heap s.queue.tailBlock).size
        (s.queue.heap s.queue.tailBlock).tail)) used used := by
    refine WriterStep.of_modify _ (fun _ => rfl) (fun _ => rfl) fun heq htwo => ?_
    exact absurd heq.symm (h.laid.two_le_length_iff.mp htwo)
  have hcontents := h.contents_modify_tailBlock _ hlaid [element]
    (hsound.elements_advance_tail hroom hdata)
  have hlinking : ∀ c, ¬ s.producer.Linking c := by
    rw [hpc]
    exact fun _ => id
  refine ⟨⟨used, free, ⟨hlaid,
    fun c hc hle => .inl ((h.covered c hc hle).resolve_right (hlinking c)), h.largest,
    hsounds, ?_, ?_, ?_, ?_, trivial,
    h.consumer.of_writerStep h.laid hstep⟩⟩, rfl, rfl, [element], ?_, hcontents⟩
  · intro c hc hc' hc''
    dsimp only [offered]
    rw [hother c hc'']
    exact h.between c hc hc' hc''
  · intro _
    dsimp only [offered]
    rw [ReaderWriterQueue.modify_tailBlock, ReaderWriterQueue.modify_heap_self]
    exact hroom.symm
  · intro c hc _
    dsimp only [offered]
    rw [hother c (h.laid.ne_of_mem h.laid.tailBlock_mem hc).symm]
    refine h.spare c hc ?_
    rw [hpc]
    exact id
  · intro c hc i hi
    rw [Holds]
    dsimp only [offered] at hi ⊢
    by_cases hcb : c = s.queue.tailBlock
    · subst hcb
      have hi' : i < (s.queue.heap s.queue.tailBlock).size := by
        rw [ReaderWriterQueue.modify_heap_self] at hi
        exact hi
      have hold := h.slots _ hc i hi'
      rw [Holds, hpc] at hold
      rw [ReaderWriterQueue.modify_heap_self]
      change ((s.queue.heap s.queue.tailBlock).data i).isSome ↔
        i ∈ CircularBuffer.slots (s.queue.heap s.queue.tailBlock).size _
          (succ _ _) ∧ _ ∨ False
      rw [hold, hslots, or_false, List.mem_append, List.mem_singleton]
      simp only [Producer.Constructed, true_and]
      constructor
      · rintro (⟨hmem, hnot⟩ | rfl)
        · exact ⟨.inl hmem, hnot⟩
        · -- the reader is not at this slot: it is at the front
          exact ⟨.inr rfl, fun htaken => h.front_ne_tail_of_taken htaken rfl⟩
      · rintro ⟨hmem | heq, hnot⟩
        · exact .inl ⟨hmem, hnot⟩
        · exact .inr heq
    · rw [hother c hcb] at hi ⊢
      have hold := h.slots c hc i hi
      rw [Holds, hpc] at hold
      rw [hold]
      simp only [Producer.Constructed, hcb, false_and]
  · simp [accepted, offered]

/-- The writer moves the tail of the next block past the object. The block is not in
use yet. -/
theorem Inv.pushes_setNextTail (h : s.Inv used free) {element : α} {b : Pointer}
    {nextBlockTail : ℕ} (hpc : s.producer = .setNextTail element b nextBlockTail) :
    s.Pushes { s with
      queue := s.queue.setTail b
        ((nextBlockTail + 1) &&& (s.queue.heap b).sizeMask)
      producer := .setTailBlock element b } := by
  have hproducer := h.producer
  rw [hpc] at hproducer
  obtain ⟨hleaving, hb, rfl, hlocal, hdata⟩ := hproducer
  have hfree := List.mem_of_head? hb
  have hmem : b ∈ used ++ free := List.mem_append_right _ hfree
  have hsound := h.sound b hmem
  have hempty : (s.queue.heap b).front = (s.queue.heap b).tail := by
    refine h.spare b hfree ?_
    rw [hpc]
    exact id
  have hroom : succ (s.queue.heap b).size (s.queue.heap b).tail ≠
      (s.queue.heap b).localFront := by
    intro heq
    rw [hlocal] at heq
    exact hsound.front_ne_tail_of_full heq hempty
  rw [hsound.and_sizeMask]
  have hslots := slots_succ_tail hsound.front hsound.tail (hsound.succ_tail_ne hroom)
  have hother : ∀ c, c ≠ b → (s.queue.setTail b (succ (s.queue.heap b).size
      (s.queue.heap b).tail)).heap c = s.queue.heap c :=
    fun c hc => ReaderWriterQueue.modify_heap_of_ne _ _ hc
  have hused : ∀ c ∈ used, (s.queue.setTail b (succ (s.queue.heap b).size
      (s.queue.heap b).tail)).heap c = s.queue.heap c :=
    fun c hc => hother c (h.laid.ne_of_mem hc hfree)
  have hsounds : ∀ c ∈ used ++ free, ((s.queue.setTail b
      (succ (s.queue.heap b).size (s.queue.heap b).tail)).heap c).Sound :=
    Block.sound_modify h.sound (hsound.advance_tail hroom)
  have hlaid : Laid (s.queue.setTail b (succ (s.queue.heap b).size
      (s.queue.heap b).tail)) used free := by
    refine h.laid.congr (fun c _ => ?_) rfl rfl le_rfl
    rw [ReaderWriterQueue.modify_heap]
    split_ifs with hc
    · rw [hc]
    · rfl
  have hstep : WriterStep s.queue (s.queue.setTail b (succ (s.queue.heap b).size
      (s.queue.heap b).tail)) used used := by
    refine WriterStep.of_modify _ (fun _ => rfl) (fun _ => rfl) fun heq _ => ?_
    exact absurd heq.symm (h.laid.ne_of_mem h.laid.frontBlock_mem hfree)
  have helements := hsound.elements_advance_tail (hsound.succ_tail_ne hroom) hdata
  rw [hsound.elements_eq_nil hempty, List.nil_append] at helements
  have hlinking : ∀ c, ¬ s.producer.Linking c := by
    rw [hpc]
    exact fun _ => id
  refine pushes_nil ⟨hlaid,
    fun c hc hle => .inl ((h.covered c hc hle).resolve_right (hlinking c)), h.largest,
    hsounds, ?_, ?_, ?_, ?_, ?_,
    h.consumer.of_writerStep h.laid hstep⟩ rfl rfl rfl ?_
  · intro c hc hc' hc''
    dsimp only
    rw [hused c hc]
    exact h.between c hc hc' hc''
  · intro htwo
    dsimp only
    rw [ReaderWriterQueue.modify_tailBlock, hused _ h.laid.tailBlock_mem]
    exact h.filled htwo
  · intro c hc hadvancing
    dsimp only
    rw [hother c hadvancing]
    refine h.spare c hc ?_
    rw [hpc]
    exact id
  · intro c hc i hi
    rw [Holds]
    dsimp only at hi ⊢
    by_cases hcb : c = b
    · subst hcb
      have hi' : i < (s.queue.heap c).size := by
        rw [ReaderWriterQueue.modify_heap_self] at hi
        exact hi
      have hold := h.slots _ hc i hi'
      rw [Holds, hpc] at hold
      rw [ReaderWriterQueue.modify_heap_self]
      change ((s.queue.heap c).data i).isSome ↔
        i ∈ CircularBuffer.slots (s.queue.heap c).size _ (succ _ _) ∧ _ ∨ False
      rw [hold, hslots, or_false, List.mem_append, List.mem_singleton]
      simp only [Producer.Constructed, true_and]
      constructor
      · rintro (⟨hmem, hnot⟩ | rfl)
        · exact ⟨.inl hmem, hnot⟩
        · exact ⟨.inr rfl, fun htaken => h.front_ne_tail_of_taken htaken rfl⟩
      · rintro ⟨hmem | heq, hnot⟩
        · exact .inl ⟨hmem, hnot⟩
        · exact .inr heq
    · rw [hother c hcb] at hi ⊢
      have hold := h.slots c hc i hi
      rw [Holds, hpc] at hold
      rw [hold]
      simp only [Producer.Constructed, hcb, false_and]
  · refine ⟨?_, hb, ?_, ?_⟩
    · intro htwo
      rw [ReaderWriterQueue.modify_tailBlock, hused _ h.laid.tailBlock_mem]
      exact hleaving htwo
    · rw [ReaderWriterQueue.modify_heap_self]
      exact (hsound.succ_tail_ne hroom).symm
    · rw [ReaderWriterQueue.modify_heap_self]
      exact helements
  · exact h.laid.contents_congr hlaid fun c hc => by rw [hused c hc]

theorem Inv.pushes_newBlock (h : s.Inv used free) {maxBlockSize : ℕ} {element : α}
    {b : Pointer} (hpc : s.producer = .newBlock element b) {s' : System α}
    (hstep : s.produce maxBlockSize = some s') : s.Pushes s' := by
  have hproducer := h.producer
  rw [hpc] at hproducer
  obtain ⟨rfl, hleaving⟩ := hproducer
  unfold produce at hstep
  rw [hpc] at hstep
  cases hstep
  have hnotMem : s.queue.allocated + 1 ∉ used ++ free := fun hmem =>
    absurd (h.laid.allocated _ hmem).2 (Nat.not_succ_le_self _)
  have hplain : s.producer.Plain := by
    rw [hpc]
    exact ⟨fun _ _ => id, fun _ => id, fun _ => id⟩
  have hother : ∀ {block : Block α} {c : Pointer}, c ∈ used ++ free →
      Function.update s.queue.heap (s.queue.allocated + 1) block c = s.queue.heap c :=
    fun hc => Function.update_of_ne (ne_of_mem_of_not_mem hc hnotMem) _ _
  have hlargest : ∃ k, (if s.queue.largestBlockSize ≥ maxBlockSize then
      s.queue.largestBlockSize else s.queue.largestBlockSize * 2) = 2 ^ (k + 1) := by
    obtain ⟨k, hk⟩ := h.largest
    split_ifs
    · exact ⟨k, hk⟩
    · exact ⟨k + 1, by rw [hk, ← pow_succ]⟩
  refine h.pushes_prepare s.offers rfl rfl (Nat.le_succ _) (fun c hc hle => ?_) hlargest
    (fun c hc => ?_) (fun c hc => ?_) (fun c hc => ?_) hplain (fun _ _ => id) ?_ rfl
  · rcases Nat.le_succ_iff.mp hle with hle | heq
    · exact .inl (h.mem_ring hplain hc hle)
    · exact .inr heq
  · dsimp only
    rw [hother hc]
    exact Block.Alike.refl _
  · dsimp only
    rw [hother (List.mem_append_left _ hc)]
  · dsimp only
    rw [hother hc]
    exact h.sound c hc
  · obtain ⟨k, hk⟩ := hlargest
    dsimp only at hk ⊢
    refine ⟨rfl, ?_, hnotMem, ⟨Nat.succ_pos _, le_rfl⟩, ?_, ?_⟩
    · intro htwo
      dsimp only
      rw [hother h.mem_ring_tailBlock]
      exact hleaving htwo
    · dsimp only
      rw [hother h.mem_ring_tailBlock, Function.update_self]
    · dsimp only
      rw [Function.update_self, hk]
      have hpos : 1 < 2 ^ (k + 1) := Nat.one_lt_two_pow (Nat.succ_ne_zero k)
      have hsize : 2 ^ (k + 1) - 1 + 1 = 2 ^ (k + 1) := Nat.sub_add_cancel hpos.le
      refine ⟨⟨⟨k + 1, hsize⟩, Nat.le_sub_one_of_lt hpos, ?_, ?_, ?_, ?_, le_rfl, le_rfl⟩,
        rfl, rfl, ?_, fun i hi => ?_⟩
      rotate_right 2
      · dsimp only
        exact Function.update_self _ _ _
      · dsimp only
        exact Function.update_of_ne hi _ _
      all_goals
        change _ < 2 ^ (k + 1) - 1 + 1
        rw [hsize]
        first | exact hpos | exact Nat.zero_lt_of_lt hpos

theorem Inv.pushes_linkBlock (h : s.Inv used free) {element : α} {b n : Pointer}
    (hpc : s.producer = .linkBlock element b n) :
    s.Pushes { s with
      queue := s.queue.setNext b n
      producer := .setTailBlock element n } := by
  have hproducer := h.producer
  rw [hpc] at hproducer
  obtain ⟨rfl, hleaving, hnotMem, hallocated, hnext, hfresh⟩ := hproducer
  have hlaid := h.laid.link_block hnotMem hallocated hnext
  have hne : n ≠ s.queue.tailBlock := fun heq => hnotMem (heq ▸ h.mem_ring_tailBlock)
  have hself : (s.queue.setNext s.queue.tailBlock n).heap n = s.queue.heap n :=
    ReaderWriterQueue.modify_heap_of_ne _ _ hne
  have hends : ∀ c, ((s.queue.setNext s.queue.tailBlock n).heap c).front =
        (s.queue.heap c).front ∧
      ((s.queue.setNext s.queue.tailBlock n).heap c).tail = (s.queue.heap c).tail ∧
      ((s.queue.setNext s.queue.tailBlock n).heap c).size = (s.queue.heap c).size ∧
      ((s.queue.setNext s.queue.tailBlock n).heap c).data = (s.queue.heap c).data := by
    intro c
    rw [ReaderWriterQueue.modify_heap]
    split_ifs with hc
    · rw [hc]
      exact ⟨rfl, rfl, rfl, rfl⟩
    · exact ⟨rfl, rfl, rfl, rfl⟩
  have hring : ∀ c, c ∈ used ++ n :: free ↔ c = n ∨ c ∈ used ++ free := fun c => by
    rw [List.perm_middle.mem_iff, List.mem_cons]
  have hsounds : ∀ c ∈ used ++ free, ((s.queue.setNext s.queue.tailBlock n).heap
      c).Sound :=
    Block.sound_modify h.sound ((h.sound _ h.mem_ring_tailBlock).set_next n)
  have hfull : ∀ c, (s.queue.heap c).Full →
      ((s.queue.setNext s.queue.tailBlock n).heap c).Full := by
    intro c hc
    obtain ⟨hfront, htail, hsize, -⟩ := hends c
    rw [Block.Full, hfront, htail, hsize]
    exact hc
  have hstep : WriterStep s.queue (s.queue.setNext s.queue.tailBlock n) used used :=
    WriterStep.of_modify _ (fun _ => rfl) (fun _ => rfl) fun _ _ => rfl
  have hslots : CircularBuffer.slots (s.queue.heap n).size 0 1 = [0] := by
    have hsound := hfresh.sound
    have hsucc : succ (s.queue.heap n).size 0 = 1 := by
      rw [succ_eq (s.queue.heap n).size_pos, if_neg]
      have hmask := hsound.sizeMask
      have hsize : (s.queue.heap n).size = (s.queue.heap n).sizeMask + 1 := rfl
      omega
    have hpos := (s.queue.heap n).size_pos
    have happend := slots_succ_tail hpos hpos (hsucc ▸ Nat.one_ne_zero)
    rw [hsucc, slots_self hpos, List.nil_append] at happend
    exact happend
  have hinv : ({ s with
      queue := s.queue.setNext s.queue.tailBlock n
      producer := .setTailBlock element n } : System α).Inv used (n :: free) := by
    refine ⟨hlaid, ?_, h.largest, ?_, ?_, ?_, ?_, ?_, ?_,
      h.consumer.of_writerStep h.laid hstep⟩
    · intro c hc hle
      rw [hring]
      have hcovered := h.covered c hc hle
      rw [hpc] at hcovered
      exact .inl hcovered.symm
    · intro c hc
      rcases (hring c).mp hc with rfl | hc
      · dsimp only
        rw [hself]
        exact hfresh.sound
      · exact hsounds c hc
    · exact fun c hc hc' hc'' => hfull c (h.between c hc hc' hc'')
    · intro htwo
      obtain ⟨hfront, htail, -⟩ := hends s.queue.tailBlock
      dsimp only
      rw [ReaderWriterQueue.modify_tailBlock, hfront, htail]
      exact h.filled htwo
    · intro c hc hadvancing
      rcases List.mem_cons.mp hc with rfl | hc
      · exact absurd rfl hadvancing
      · obtain ⟨hfront, htail, -⟩ := hends c
        dsimp only
        rw [hfront, htail]
        refine h.spare c hc ?_
        rw [hpc]
        exact id
    · intro c hc i hi
      rw [Holds]
      dsimp only at hi ⊢
      obtain ⟨hfront, htail, hsize, hdata⟩ := hends c
      rw [hfront, htail, hsize, hdata]
      rw [hsize] at hi
      rcases (hring c).mp hc with rfl | hc
      · have hnot : ¬ s.consumer.Taken c i := fun htaken =>
          hnotMem (h.eq_frontBlock_of_taken htaken ▸ h.mem_ring_frontBlock)
        rw [hfresh.front, hfresh.tail, hslots, List.mem_singleton]
        simp only [Producer.Constructed, or_false, hnot, not_false_eq_true, and_true]
        by_cases hi0 : i = 0
        · rw [hi0, hfresh.first]
          exact iff_of_true rfl rfl
        · rw [hfresh.others i hi0]
          exact iff_of_false Bool.false_ne_true hi0
      · have hold := h.slots c hc i hi
        rw [Holds, hpc] at hold
        exact hold
    · refine ⟨fun htwo => hfull _ (hleaving htwo), rfl, ?_, ?_⟩
      · rw [hself, hfresh.front, hfresh.tail]
        exact Nat.zero_ne_one
      · rw [hself, Block.elements, hfresh.front, hfresh.tail, hslots]
        exact List.filterMap_cons_some hfresh.first
  refine pushes_nil hinv rfl rfl rfl ?_
  rw [h.laid.contents_eq, hinv.laid.contents_eq]
  refine List.flatMap_congr fun c _ => ?_
  obtain ⟨hfront, htail, hsize, hdata⟩ := hends c
  dsimp only
  rw [Block.elements, hfront, htail, hsize, hdata]
  rfl

/-- The writer makes the block with the object the tail block, and its call
returns. -/
theorem Inv.pushes_setTailBlock (h : s.Inv used free) {element : α} {b : Pointer}
    (hpc : s.producer = .setTailBlock element b) :
    s.Pushes ({ s with queue := { s.queue with tailBlock := b } }.offered element
      true) := by
  have hproducer := h.producer
  rw [hpc] at hproducer
  obtain ⟨hleaving, hb, hne, helements⟩ := hproducer
  obtain ⟨rest, rfl⟩ := List.head?_eq_some_iff.mp hb
  have hlaid := h.laid.set_tailBlock
  have hring : ∀ c, c ∈ used ++ [b] ++ rest ↔ c ∈ used ++ b :: rest := fun c => by
    rw [List.append_assoc, List.singleton_append]
  have hnodup : b ∉ rest :=
    (List.nodup_cons.mp (List.nodup_append.mp h.laid.nodup).2.1).1
  have hstep : WriterStep s.queue { s.queue with tailBlock := b } used (used ++ [b]) :=
    ⟨rfl, fun _ _ => rfl, fun _ _ => rfl, fun _ => rfl, [b], rfl⟩
  have hlinking : ∀ c, ¬ s.producer.Linking c := by
    rw [hpc]
    exact fun _ => id
  refine ⟨⟨used ++ [b], rest, ⟨hlaid, fun c hc hle => .inl ((hring c).mpr
    ((h.covered c hc hle).resolve_right (hlinking c))), h.largest,
    fun c hc => h.sound c ((hring c).mp hc), ?_, fun _ => hne, ?_, ?_, trivial, h.consumer.of_writerStep h.laid hstep⟩⟩, rfl,
    rfl, [element], ?_, ?_⟩
  · intro c hc hc' hc''
    have hused : c ∈ used := by
      rcases List.mem_append.mp hc with hc | hc
      · exact hc
      · exact absurd (List.mem_singleton.mp hc) hc''
    by_cases htail : c = s.queue.tailBlock
    · subst htail
      exact hleaving (h.laid.two_le_length_iff.mpr (Ne.symm hc'))
    · exact h.between c hused hc' htail
  · intro c hc _
    refine h.spare c (List.mem_cons_of_mem _ hc) ?_
    rw [hpc]
    exact fun heq => hnodup (heq ▸ hc)
  · intro c hc i hi
    have hold := h.slots c ((hring c).mp hc) i hi
    rw [Holds, hpc] at hold
    exact hold
  · simp [accepted, offered]
  · change ({ s.queue with tailBlock := b } : ReaderWriterQueue α).contents =
      s.queue.contents ++ [element]
    rw [hlaid.contents_eq, h.laid.contents_eq, List.flatMap_append,
      List.flatMap_singleton, helements]

/-- Every step of the writer. -/
theorem Inv.pushes_produce (h : s.Inv used free) {maxBlockSize : ℕ} {s' : System α}
    (hstep : s.produce maxBlockSize = some s') : s.Pushes s' := by
  have hproducer := h.producer
  cases hpc : s.producer with
  | idle =>
      unfold produce at hstep
      rw [hpc] at hstep
      cases hstep
  | reloadFront mode element b blockTail nextBlockTail =>
      unfold produce at hstep
      rw [hpc] at hstep hproducer
      obtain ⟨rfl, rfl, rfl⟩ := hproducer
      cases hstep
      refine h.pushes_reload h.mem_ring_tailBlock ?_ ?_ ?_
      · rw [hpc]
        exact ⟨fun _ _ => id, fun _ => id, fun _ => id⟩
      · intro c i
        split_ifs <;> exact id
      · split_ifs with hne
        · refine ⟨rfl, ?_, ?_, ?_⟩
          · rw [ReaderWriterQueue.modify_heap_self]
          · rw [ReaderWriterQueue.modify_heap_self]
            rfl
          · rw [ReaderWriterQueue.modify_heap_self]
            exact hne
        · refine ⟨rfl, fun _ => ?_⟩
          rw [ReaderWriterQueue.modify_tailBlock, ReaderWriterQueue.modify_heap_self]
          exact not_not.mp hne
  | construct element b blockTail nextBlockTail =>
      unfold produce at hstep
      rw [hpc] at hstep hproducer
      obtain ⟨rfl, rfl, rfl, hlocal⟩ := hproducer
      cases hstep
      refine h.pushes_construct h.mem_ring_tailBlock ?_ (fun _ _ => Iff.rfl) ?_
      · rw [hpc]
        exact ⟨fun _ _ => id, fun _ => id, fun _ => id⟩
      · refine ⟨rfl, ?_, ?_, ?_, ?_⟩
        all_goals rw [ReaderWriterQueue.modify_heap_self]
        · rfl
        · exact hlocal
        · exact Function.update_self _ _ _
  | setTail element b blockTail nextBlockTail =>
      unfold produce at hstep
      rw [hpc] at hstep
      cases hstep
      exact h.pushes_setTail hpc
  | checkNext mode element b =>
      unfold produce at hstep
      rw [hpc] at hstep hproducer
      obtain ⟨rfl, hleaving⟩ := hproducer
      have hplain : s.producer.Plain := by
        rw [hpc]
        exact ⟨fun _ _ => id, fun _ => id, fun _ => id⟩
      dsimp only at hstep
      split_ifs at hstep with hnext
      · cases hstep
        exact h.pushes_goto _ hplain (fun _ _ => id)
          ⟨rfl, hleaving, h.laid.head?_free hnext⟩ rfl
      · cases mode with
        | canAlloc =>
            cases hstep
            exact h.pushes_goto _ hplain (fun _ _ => id)
              ⟨rfl, hleaving⟩ rfl
        | cannotAlloc =>
            cases hstep
            refine h.pushes_goto _ hplain (fun _ _ => id) trivial ?_
            simp [accepted]
  | reloadNextFront element b =>
      unfold produce at hstep
      rw [hpc] at hstep hproducer
      obtain ⟨rfl, hleaving, hhead⟩ := hproducer
      cases hstep
      have hfree := List.mem_of_head? hhead
      have hne := h.laid.ne_of_mem h.laid.tailBlock_mem hfree
      refine h.pushes_reload (List.mem_append_right _ hfree) ?_ (fun _ _ => id) ?_
      · rw [hpc]
        exact ⟨fun _ _ => id, fun _ => id, fun _ => id⟩
      · refine ⟨fun htwo => ?_, hhead, ?_, ?_⟩
        · rw [ReaderWriterQueue.modify_tailBlock,
            ReaderWriterQueue.modify_heap_of_ne _ _ hne]
          exact hleaving htwo
        · rw [ReaderWriterQueue.modify_heap_self]
        · rw [ReaderWriterQueue.modify_heap_self]
  | constructNext element b nextBlockTail =>
      unfold produce at hstep
      rw [hpc] at hstep hproducer
      obtain ⟨hleaving, hhead, rfl, hlocal⟩ := hproducer
      cases hstep
      have hfree := List.mem_of_head? hhead
      have hne := h.laid.ne_of_mem h.laid.tailBlock_mem hfree
      refine h.pushes_construct (List.mem_append_right _ hfree) ?_
        (fun _ _ => Iff.rfl) ?_
      · rw [hpc]
        exact ⟨fun _ _ => id, fun _ => id, fun _ => id⟩
      · refine ⟨fun htwo => ?_, hhead, ?_, ?_, ?_⟩
        · rw [ReaderWriterQueue.modify_tailBlock,
            ReaderWriterQueue.modify_heap_of_ne _ _ hne]
          exact hleaving htwo
        all_goals rw [ReaderWriterQueue.modify_heap_self]
        · exact hlocal
        · exact Function.update_self _ _ _
  | setNextTail element b nextBlockTail =>
      unfold produce at hstep
      rw [hpc] at hstep
      cases hstep
      exact h.pushes_setNextTail hpc
  | newBlock element b => exact h.pushes_newBlock hpc hstep
  | linkBlock element b n =>
      unfold produce at hstep
      rw [hpc] at hstep
      cases hstep
      exact h.pushes_linkBlock hpc
  | setTailBlock element b =>
      unfold produce at hstep
      rw [hpc] at hstep
      cases hstep
      exact h.pushes_setTailBlock hpc

theorem Inv.pushes_failAllocation (h : s.Inv used free) {s' : System α}
    (hstep : s.failAllocation = some s') : s.Pushes s' := by
  unfold failAllocation at hstep
  cases hpc : s.producer with
  | newBlock element b =>
      rw [hpc] at hstep
      cases hstep
      refine h.pushes_goto _ ?_ (fun _ _ => id) trivial ?_
      · rw [hpc]
        exact ⟨fun _ _ => id, fun _ => id, fun _ => id⟩
      · simp [accepted]
  | _ =>
      rw [hpc] at hstep
      cases hstep

theorem Inv.pushes_beginEnqueue (h : s.Inv used free) (mode : AllocationMode)
    (element : α) (hpc : s.producer = .idle) :
    s.Pushes (s.beginEnqueue mode element) := by
  have hmask := (h.sound _ h.mem_ring_tailBlock).and_sizeMask
    (s.queue.heap s.queue.tailBlock).tail
  refine h.pushes_goto _ ?_ ?_ ?_ rfl
  · rw [hpc]
    exact ⟨fun _ _ => id, fun _ => id, fun _ => id⟩
  · intro c i
    split_ifs <;> exact id
  · rw [hmask]
    split_ifs with hne
    · exact ⟨rfl, rfl, rfl, hne⟩
    · exact ⟨rfl, rfl, rfl⟩

end System

end Moodycamel

end Vendored

end Async

end Kclpp
