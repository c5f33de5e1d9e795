import Kclpp.Containers.LinkedStack
import Kclpp.Parties.Tally
import Kclpp.Transition.Run

/-!
# The block pool of `ConcurrentQueue`

The blocks of a queue come from an array that is made with it, from the free list, or
from the allocator, and go back to the free list. The threads run in any order, and each
label is one atomic operation of one of them.

A node of the free list has a reference count, so that its link stays as it is while some
thread reads it; the top bit of the count says that the node is to go on the list when
the last reader is done. `inUse` and `allocated` record what has been handed out and not
given back, and what the allocator has handed out; no operation reads them.

The counts wrap as in the code. The results are for less than `2^31 - 2` threads, so that
no count runs into its top bit, and for an array whose index does not wrap.
-/

namespace Kclpp

namespace Async

namespace Vendored

namespace Moodycamel

open LinkedStack Parties Transition

namespace BlockPool

def REFS_MASK : ℕ := 0x7FFFFFFF

def SHOULD_BE_ON_FREELIST : ℕ := 0x80000000

/-- A `std::uint32_t`. -/
def wrap32 (n : ℕ) : ℕ := n % 4294967296

/-- A `size_t`. -/
def wrap64 (n : ℕ) : ℕ := n % 18446744073709551616

/-- Where a thread is in `add_block_to_free_list` or `requisition_block`, with its local
variables. `add_knowing_refcount_is_zero` is called from `add`, and from the loop of
`try_get`, which goes on with the head in `k` afterwards. -/
inductive Point (N : Type*) where
  | idle
  | add (node : N)
  | addHead (node : N) (k : Option (Option N))
  | addNext (node : N) (head : Option N) (k : Option (Option N))
  | addRefs (node : N) (head : Option N) (k : Option (Option N))
  | addExchange (node : N) (head : Option N) (k : Option (Option N))
  | addAgain (node : N) (head : Option N) (k : Option (Option N))
  | poolLoad
  | poolFetch
  | tryHead
  | tryRefs (head : N)
  | tryIncrement (head : N) (refs : ℕ)
  | tryNext (head : N)
  | tryExchange (head : N) (next : Option N)
  | tryTake (head : N)
  | tryRelease (prevHead : N) (head : Option N)
  | create
  deriving DecidableEq

namespace Point

variable {N : Type*}

/-- The loop of `try_get` is entered again. -/
def loop : Option N → Point N
  | none => .create
  | some head => .tryRefs head

/-- Where `add_knowing_refcount_is_zero` returns to. -/
def after : Option (Option N) → Point N
  | none => .idle
  | some head => loop head

end Point

end BlockPool

open BlockPool

/-- The pool, with its threads. -/
structure BlockPool (T N : Type*) where
  freeListHead : Option N := none
  freeListNext : N → Option N := fun _ => none
  freeListRefs : N → ℕ := fun _ => 0
  initialBlockPoolIndex : ℕ := 0
  canAlloc : T → Bool := fun _ => false
  points : T → Point N := fun _ => .idle
  inUse : List N := []
  allocated : List N

namespace BlockPool

variable {T N : Type*}

/-- After `populate_initial_block_list`. -/
def init (initialBlockPool : List N) : BlockPool T N := { allocated := initialBlockPool }

inductive Label (T N : Type*) where
  | addBlock (t : T) (block : N)
  | requisitionBlock (t : T) (canAlloc : Bool)
  | step (t : T)
  | create (t : T) (block : Option N)
  deriving DecidableEq

variable [DecidableEq T] [DecidableEq N]

def goTo (s : BlockPool T N) (t : T) (p : Point N) : BlockPool T N :=
  { s with points := Function.update s.points t p }

def setRefs (s : BlockPool T N) (n : N) (refs : ℕ) : BlockPool T N :=
  { s with freeListRefs := Function.update s.freeListRefs n (wrap32 refs) }

def setNext (s : BlockPool T N) (n : N) (next : Option N) : BlockPool T N :=
  { s with freeListNext := Function.update s.freeListNext n next }

/-- A block is returned to the caller of `requisition_block`. -/
def handOut (s : BlockPool T N) (t : T) (n : N) : BlockPool T N :=
  { s with inUse := n :: s.inUse }.goTo t .idle

def advance (initialBlockPool : List N) (s : BlockPool T N) (t : T) :
    Option (BlockPool T N) :=
  match s.points t with
  | .idle => none
  | .add node =>
      let refs := s.freeListRefs node
      some ((s.setRefs node (refs + SHOULD_BE_ON_FREELIST)).goTo t
        (if refs = 0 then .addHead node none else .idle))
  | .addHead node k => some (s.goTo t (.addNext node s.freeListHead k))
  | .addNext node head k => some ((s.setNext node head).goTo t (.addRefs node head k))
  | .addRefs node head k => some ((s.setRefs node 1).goTo t (.addExchange node head k))
  | .addExchange node head k =>
      if s.freeListHead = head then
        some ({ s with freeListHead := some node }.goTo t (.after k))
      else some (s.goTo t (.addAgain node s.freeListHead k))
  | .addAgain node head k =>
      let refs := s.freeListRefs node
      some ((s.setRefs node (refs + (SHOULD_BE_ON_FREELIST - 1))).goTo t
        (if refs = 1 then .addNext node head k else .after k))
  | .poolLoad =>
      some (s.goTo t
        (if initialBlockPool.length ≤ s.initialBlockPoolIndex then .tryHead
         else .poolFetch))
  | .poolFetch =>
      let s' := { s with initialBlockPoolIndex := wrap64 (s.initialBlockPoolIndex + 1) }
      match initialBlockPool[s.initialBlockPoolIndex]? with
      | some block => some (s'.handOut t block)
      | none => some (s'.goTo t .tryHead)
  | .tryHead => some (s.goTo t (.loop s.freeListHead))
  | .tryRefs head => some (s.goTo t (.tryIncrement head (s.freeListRefs head)))
  | .tryIncrement head refs =>
      if refs &&& REFS_MASK = 0 ∨ s.freeListRefs head ≠ refs then some (s.goTo t .tryHead)
      else some ((s.setRefs head (refs + 1)).goTo t (.tryNext head))
  | .tryNext head => some (s.goTo t (.tryExchange head (s.freeListNext head)))
  | .tryExchange head next =>
      if s.freeListHead = some head then
        some ({ s with freeListHead := next }.goTo t (.tryTake head))
      else some (s.goTo t (.tryRelease head s.freeListHead))
  | .tryTake head =>
      -- `fetch_add(-2)` on an unsigned count
      some ((s.setRefs head (s.freeListRefs head + (4294967296 - 2))).handOut t head)
  | .tryRelease prevHead head =>
      let refs := s.freeListRefs prevHead
      some ((s.setRefs prevHead (refs + (4294967296 - 1))).goTo t
        (if refs = SHOULD_BE_ON_FREELIST + 1 then .addHead prevHead (some head)
         else .loop head))
  | .create => none

/-- One operation of one of the threads. A block is given back by one who has it, and the
allocator hands out memory that is not allocated, or none. -/
def step (initialBlockPool : List N) (s : BlockPool T N) :
    Label T N → Option (BlockPool T N)
  | .addBlock t block =>
      if s.points t = .idle ∧ block ∈ s.inUse then
        some ({ s with inUse := s.inUse.erase block }.goTo t (.add block))
      else none
  | .requisitionBlock t canAlloc =>
      if s.points t = .idle then
        some ({ s with canAlloc := Function.update s.canAlloc t canAlloc }.goTo t .poolLoad)
      else none
  | .step t => s.advance initialBlockPool t
  | .create t none => if s.points t = .create then some (s.goTo t .idle) else none
  | .create t (some block) =>
      if s.points t = .create ∧ s.canAlloc t = true ∧ block ∉ s.allocated then
        some ((({ s with allocated := block :: s.allocated }.setRefs block 0).setNext block
          none).handOut t block)
      else none

/-- The blocks on the free list, as `head_unsafe` and the links give them. -/
def freeBlocks (s : BlockPool T N) : List N :=
  walk s.freeListNext s.allocated.length s.freeListHead

/-- What `~ConcurrentQueue` frees: the blocks of the free list that are not in the array,
and the array. -/
def destruct (initialBlockPool : List N) (s : BlockPool T N) : List N :=
  s.freeBlocks.filter (fun block => block ∉ initialBlockPool) ++ initialBlockPool

end BlockPool

end Moodycamel

end Vendored

end Async

end Kclpp
