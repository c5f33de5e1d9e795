import Kclpp.Containers.CircularBuffer
import Kclpp.Containers.LinkedRing
import Kclpp.Transition.Moments

/-!
# The queue of one reader and one writer

`ReaderWriterQueue`, on which the event channels are built, is a ring of blocks, and
each block is a circular buffer. The writer appends to the tail block and goes on to
the next one when it is full; the reader takes from the front block and goes on when
it is empty. Each of the two reads the other's variables but writes only its own.

The two calls are cut where the threads meet: one step reads or writes at most one
variable that the other thread also uses, and the steps of the two come in any order.
Memory is sequentially consistent here; the fences of the code are what it relies on
for that. `Sizes` has what the constructor asserts of its arguments, and a bound under
which its arithmetic does not wrap.
-/

namespace Kclpp

namespace Async

namespace Vendored

namespace Moodycamel

open CircularBuffer LinkedRing

abbrev Pointer := ℕ

def nullptr : Pointer := 0

/-- `ReaderWriterQueue::Block`. A slot of `data` holds an object or is raw memory. -/
structure Block (α : Type*) where
  front : ℕ := 0
  localTail : ℕ := 0
  tail : ℕ := 0
  localFront : ℕ := 0
  next : Pointer := nullptr
  data : ℕ → Option α := fun _ => none
  sizeMask : ℕ

namespace Block

variable {α : Type*}

def size (block : Block α) : ℕ := block.sizeMask + 1

def elements (block : Block α) : List α :=
  (slots block.size block.front block.tail).filterMap block.data

end Block

/-- `ReaderWriterQueue::make_block`. -/
def makeBlock {α : Type*} (capacity : ℕ) : Block α := { sizeMask := capacity - 1 }

/-- `ReaderWriterQueue`, with the memory that its blocks are in: the addresses up to
`allocated` are taken. -/
structure ReaderWriterQueue (α : Type*) where
  frontBlock : Pointer
  tailBlock : Pointer
  largestBlockSize : ℕ
  heap : Pointer → Block α
  allocated : ℕ

namespace ReaderWriterQueue

variable {α : Type*}

def modify (queue : ReaderWriterQueue α) (b : Pointer) (f : Block α → Block α) :
    ReaderWriterQueue α :=
  { queue with heap := Function.update queue.heap b (f (queue.heap b)) }

@[simp] theorem modify_frontBlock (queue : ReaderWriterQueue α) (b : Pointer)
    (f : Block α → Block α) : (queue.modify b f).frontBlock = queue.frontBlock := rfl

@[simp] theorem modify_tailBlock (queue : ReaderWriterQueue α) (b : Pointer)
    (f : Block α → Block α) : (queue.modify b f).tailBlock = queue.tailBlock := rfl

@[simp] theorem modify_allocated (queue : ReaderWriterQueue α) (b : Pointer)
    (f : Block α → Block α) : (queue.modify b f).allocated = queue.allocated := rfl

theorem modify_heap (queue : ReaderWriterQueue α) (b : Pointer)
    (f : Block α → Block α) (c : Pointer) :
    (queue.modify b f).heap c = if c = b then f (queue.heap b) else queue.heap c :=
  Function.update_apply _ _ _ _

@[simp] theorem modify_heap_self (queue : ReaderWriterQueue α) (b : Pointer)
    (f : Block α → Block α) : (queue.modify b f).heap b = f (queue.heap b) := by
  rw [modify_heap, if_pos rfl]

theorem modify_heap_of_ne (queue : ReaderWriterQueue α) {b c : Pointer}
    (f : Block α → Block α) (h : c ≠ b) : (queue.modify b f).heap c = queue.heap c := by
  rw [modify_heap, if_neg h]

abbrev setFront (queue : ReaderWriterQueue α) (b : Pointer) (front : ℕ) :
    ReaderWriterQueue α := queue.modify b fun block => { block with front := front }

abbrev setLocalTail (queue : ReaderWriterQueue α) (b : Pointer) (localTail : ℕ) :
    ReaderWriterQueue α :=
  queue.modify b fun block => { block with localTail := localTail }

abbrev setTail (queue : ReaderWriterQueue α) (b : Pointer) (tail : ℕ) :
    ReaderWriterQueue α := queue.modify b fun block => { block with tail := tail }

abbrev setLocalFront (queue : ReaderWriterQueue α) (b : Pointer) (localFront : ℕ) :
    ReaderWriterQueue α :=
  queue.modify b fun block => { block with localFront := localFront }

abbrev setNext (queue : ReaderWriterQueue α) (b next : Pointer) : ReaderWriterQueue α :=
  queue.modify b fun block => { block with next := next }

abbrev construct (queue : ReaderWriterQueue α) (b : Pointer) (i : ℕ) (element : α) :
    ReaderWriterQueue α :=
  queue.modify b fun block =>
    { block with data := Function.update block.data i (some element) }

abbrev destroy (queue : ReaderWriterQueue α) (b : Pointer) (i : ℕ) :
    ReaderWriterQueue α :=
  queue.modify b fun block => { block with data := Function.update block.data i none }

def usedBlocks (queue : ReaderWriterQueue α) : List Pointer :=
  path (fun b => (queue.heap b).next) queue.tailBlock queue.allocated queue.frontBlock

/-- What is in the queue, the next one to be taken first. -/
def contents (queue : ReaderWriterQueue α) : List α :=
  queue.usedBlocks.flatMap fun b => (queue.heap b).elements

end ReaderWriterQueue

/-- `AllocationMode`. -/
inductive AllocationMode where
  | canAlloc
  | cannotAlloc
  deriving DecidableEq, Repr

/-- Where a call of `inner_enqueue` stands, with its local variables. -/
inductive Producer (α : Type*) where
  | idle
  | reloadFront (mode : AllocationMode) (element : α) (tailBlock : Pointer)
      (blockTail nextBlockTail : ℕ)
  | construct (element : α) (tailBlock : Pointer) (blockTail nextBlockTail : ℕ)
  | setTail (element : α) (tailBlock : Pointer) (blockTail nextBlockTail : ℕ)
  | checkNext (mode : AllocationMode) (element : α) (tailBlock : Pointer)
  | reloadNextFront (element : α) (tailBlock : Pointer)
  | constructNext (element : α) (tailBlockNext : Pointer) (nextBlockTail : ℕ)
  | setNextTail (element : α) (tailBlockNext : Pointer) (nextBlockTail : ℕ)
  | newBlock (element : α) (tailBlock : Pointer)
  | linkBlock (element : α) (tailBlock newBlock : Pointer)
  | setTailBlock (element : α) (newTailBlock : Pointer)

/-- The calls of the reading side. -/
inductive Call where
  | tryDequeue
  | pop
  | peek
  deriving DecidableEq, Repr

/-- Where a call of the reading side stands, with its local variables. -/
inductive Consumer (α : Type*) where
  | idle
  | reloadTail (call : Call) (frontBlock : Pointer) (blockFront : ℕ)
  | checkTailBlock (call : Call) (frontBlock : Pointer)
  | recheck (call : Call)
  | readNext (call : Call) (frontBlock : Pointer)
  | reloadNextTail (call : Call) (nextBlock : Pointer) (nextBlockFront : ℕ)
  | setFrontBlock (call : Call) (nextBlock : Pointer) (nextBlockFront : ℕ)
  | take (call : Call) (block : Pointer) (blockFront : ℕ)
  | setFront (call : Call) (block : Pointer) (blockFront : ℕ) (element : α)

/-- The queue with its two threads. `offers` are the elements the writer has offered,
with what each call returned; `answers` are the returned calls of the reader, each
with the element it got (for a `pop`, the one it removed). -/
structure System (α : Type*) where
  queue : ReaderWriterQueue α
  producer : Producer α := .idle
  consumer : Consumer α := .idle
  offers : List (α × Bool) := []
  answers : List (Call × Option α) := []

inductive Label (α : Type*) where
  | enqueue (mode : AllocationMode) (element : α)
  | producer
  | outOfMemory
  | dequeue (call : Call)
  | consumer

namespace System

variable {α : Type*}

def offered (s : System α) (element : α) (accepted : Bool) : System α :=
  { s with producer := .idle, offers := s.offers ++ [(element, accepted)] }

def answered (s : System α) (call : Call) (element : Option α) : System α :=
  { s with consumer := .idle, answers := s.answers ++ [(call, element)] }

/-- The beginning of `inner_enqueue`. What it reads is the writer's own. -/
def beginEnqueue (s : System α) (mode : AllocationMode) (element : α) : System α :=
  let tailBlock := s.queue.tailBlock
  let block := s.queue.heap tailBlock
  let blockFront := block.localFront
  let blockTail := block.tail
  let nextBlockTail := (blockTail + 1) &&& block.sizeMask
  { s with producer :=
      if nextBlockTail ≠ blockFront then
        .construct element tailBlock blockTail nextBlockTail
      else .reloadFront mode element tailBlock blockTail nextBlockTail }

/-- The next step of `inner_enqueue`. -/
def produce (maxBlockSize : ℕ) (s : System α) : Option (System α) :=
  let queue := s.queue
  match s.producer with
  | .idle => none
  | .reloadFront mode element tailBlock blockTail nextBlockTail =>
      let blockFront := (queue.heap tailBlock).front
      some { s with
        queue := queue.setLocalFront tailBlock blockFront
        producer :=
          if nextBlockTail ≠ blockFront then
            .construct element tailBlock blockTail nextBlockTail
          else .checkNext mode element tailBlock }
  | .construct element tailBlock blockTail nextBlockTail =>
      some { s with
        queue := queue.construct tailBlock blockTail element
        producer := .setTail element tailBlock blockTail nextBlockTail }
  | .setTail element tailBlock _ nextBlockTail =>
      some ({ s with queue := queue.setTail tailBlock nextBlockTail }.offered element
        true)
  | .checkNext mode element tailBlock =>
      if (queue.heap tailBlock).next ≠ queue.frontBlock then
        some { s with producer := .reloadNextFront element tailBlock }
      else
        match mode with
        | .canAlloc => some { s with producer := .newBlock element tailBlock }
        | .cannotAlloc => some (s.offered element false)
  | .reloadNextFront element tailBlock =>
      let tailBlockNext := (queue.heap tailBlock).next
      let nextBlockFront := (queue.heap tailBlockNext).front
      let nextBlockTail := (queue.heap tailBlockNext).tail
      some { s with
        queue := queue.setLocalFront tailBlockNext nextBlockFront
        producer := .constructNext element tailBlockNext nextBlockTail }
  | .constructNext element tailBlockNext nextBlockTail =>
      some { s with
        queue := queue.construct tailBlockNext nextBlockTail element
        producer := .setNextTail element tailBlockNext nextBlockTail }
  | .setNextTail element tailBlockNext nextBlockTail =>
      some { s with
        queue := queue.setTail tailBlockNext
          ((nextBlockTail + 1) &&& (queue.heap tailBlockNext).sizeMask)
        producer := .setTailBlock element tailBlockNext }
  | .newBlock element tailBlock =>
      let newBlockSize :=
        if queue.largestBlockSize ≥ maxBlockSize then queue.largestBlockSize
        else queue.largestBlockSize * 2
      let newBlock := queue.allocated + 1
      some { s with
        queue := { queue with
          largestBlockSize := newBlockSize
          allocated := newBlock
          heap := Function.update queue.heap newBlock
            { (makeBlock newBlockSize : Block α) with
              data := Function.update (fun _ => none) 0 (some element)
              tail := 1
              localTail := 1
              next := (queue.heap tailBlock).next } }
        producer := .linkBlock element tailBlock newBlock }
  | .linkBlock element tailBlock newBlock =>
      some { s with
        queue := queue.setNext tailBlock newBlock
        producer := .setTailBlock element newBlock }
  | .setTailBlock element newTailBlock =>
      some ({ s with queue := { queue with tailBlock := newTailBlock } }.offered
        element true)

/-- `inner_enqueue` where the allocation fails. -/
def failAllocation (s : System α) : Option (System α) :=
  match s.producer with
  | .newBlock element _ => some (s.offered element false)
  | _ => none

/-- The beginning of `try_dequeue`, `pop` and `peek`. What it reads is the reader's
own. -/
def beginDequeue (s : System α) (call : Call) : System α :=
  let frontBlock := s.queue.frontBlock
  let block := s.queue.heap frontBlock
  let blockTail := block.localTail
  let blockFront := block.front
  { s with consumer :=
      if blockFront ≠ blockTail then .take call frontBlock blockFront
      else .reloadTail call frontBlock blockFront }

/-- The next step of `try_dequeue`, `pop` or `peek`. `peek` looks into the next block
without going there. -/
def consume (s : System α) : Option (System α) :=
  let queue := s.queue
  match s.consumer with
  | .idle => none
  | .reloadTail call frontBlock blockFront =>
      let blockTail := (queue.heap frontBlock).tail
      some { s with
        queue := queue.setLocalTail frontBlock blockTail
        consumer :=
          if blockFront ≠ blockTail then .take call frontBlock blockFront
          else .checkTailBlock call frontBlock }
  | .checkTailBlock call frontBlock =>
      if frontBlock ≠ queue.tailBlock then some { s with consumer := .recheck call }
      else some (s.answered call none)
  | .recheck call =>
      let frontBlock := queue.frontBlock
      let blockTail := (queue.heap frontBlock).tail
      let blockFront := (queue.heap frontBlock).front
      some { s with
        queue := queue.setLocalTail frontBlock blockTail
        consumer :=
          if blockFront ≠ blockTail then .take call frontBlock blockFront
          else .readNext call frontBlock }
  | .readNext call frontBlock =>
      let nextBlock := (queue.heap frontBlock).next
      let nextBlockFront := (queue.heap nextBlock).front
      some { s with consumer := .reloadNextTail call nextBlock nextBlockFront }
  | .reloadNextTail call nextBlock nextBlockFront =>
      match call with
      | .peek => some { s with consumer := .take .peek nextBlock nextBlockFront }
      | call =>
          let nextBlockTail := (queue.heap nextBlock).tail
          some { s with
            queue := queue.setLocalTail nextBlock nextBlockTail
            consumer := .setFrontBlock call nextBlock nextBlockFront }
  | .setFrontBlock call nextBlock nextBlockFront =>
      some { s with
        queue := { queue with frontBlock := nextBlock }
        consumer := .take call nextBlock nextBlockFront }
  | .take call block blockFront =>
      ((queue.heap block).data blockFront).map fun element =>
        match call with
        | .peek => s.answered .peek (some element)
        | call =>
            { s with
              queue := queue.destroy block blockFront
              consumer := .setFront call block blockFront element }
  | .setFront call block blockFront element =>
      let blockFront := (blockFront + 1) &&& (queue.heap block).sizeMask
      some ({ s with queue := queue.setFront block blockFront }.answered call
        (some element))

/-- One step of one of the threads. A call begins where the thread's last one has
returned. -/
def step (maxBlockSize : ℕ) (s : System α) : Label α → Option (System α)
  | .enqueue mode element =>
      match s.producer with
      | .idle => some (s.beginEnqueue mode element)
      | _ => none
  | .producer => s.produce maxBlockSize
  | .outOfMemory => s.failAllocation
  | .dequeue call =>
      match s.consumer with
      | .idle => some (s.beginDequeue call)
      | _ => none
  | .consumer => s.consume

end System

end Moodycamel

end Vendored

end Async

end Kclpp
