import Kclpp.Async.Vendored.ConcurrentQueue.BlockPool.Basic
import Kclpp.Parties.Roster

/-!
# The invariant of the block pool

Every block is at one place at a time. `Counts` ties the places to the threads: a
reference count is made up of what the place gives and of the threads that read the
block's link, and a block that a thread has for itself is had by that thread alone. The
other parts of `Inv` say that the free list, the blocks in use and the rest of the array
are the blocks at the places of these names.
-/

namespace Kclpp

namespace Async

namespace Vendored

namespace Moodycamel

open LinkedStack Parties Transition

namespace BlockPool

/-- What has become of a block. One that is `pending` waits for its last reader, and one
that is `offered` has its reference count back and is to be put on the list. -/
inductive Place where
  | unborn
  | initial
  | out
  | given
  | pending
  | adding
  | offered
  | listed
  | taken
  deriving DecidableEq, Repr

namespace Place

/-- The reference count of a block that no thread reads. -/
def base : Place → ℕ
  | .pending | .adding => SHOULD_BE_ON_FREELIST
  | .offered | .listed => 1
  | .taken => 2
  | _ => 0

def owners : Place → ℕ
  | .given | .adding | .offered | .taken => 1
  | _ => 0

/-- No thread reads the block. -/
def quiet : Place → Bool
  | .unborn | .initial | .adding => true
  | _ => false

/-- The block is on its way back to the list, or from it. -/
def transit : Place → Bool
  | .given | .pending | .adding | .offered | .taken => true
  | _ => false

theorem base_le (x : Place) : x.base ≤ SHOULD_BE_ON_FREELIST := by
  cases x <;> decide

end Place

namespace Point

variable {N : Type*}

/-- The block that the thread has for itself, and where it is. -/
def owned : Point N → Option (N × Place)
  | .add node => some (node, .given)
  | .addHead node _ | .addNext node _ _ | .addRefs node _ _ => some (node, .adding)
  | .addExchange node _ _ | .addAgain node _ _ => some (node, .offered)
  | .tryTake head => some (head, .taken)
  | _ => none

/-- The block whose reference count the thread has raised. -/
def reads : Point N → Option N
  | .tryNext head | .tryExchange head _ | .tryRelease head _ => some head
  | _ => none

/-- The link that the thread has written or read. -/
def link : Point N → Option (N × Option N)
  | .addRefs node head _ | .addExchange node head _ => some (node, head)
  | .tryExchange head next => some (head, next)
  | _ => none

@[simp] theorem owned_loop (head : Option N) : (loop head).owned = none := by
  cases head <;> rfl

@[simp] theorem owned_after (k : Option (Option N)) : (after k).owned = none := by
  cases k with
  | none => rfl
  | some head => exact owned_loop head

@[simp] theorem reads_loop (head : Option N) : (loop head).reads = none := by
  cases head <;> rfl

@[simp] theorem reads_after (k : Option (Option N)) : (after k).reads = none := by
  cases k with
  | none => rfl
  | some head => exact reads_loop head

@[simp] theorem link_loop (head : Option N) : (loop head).link = none := by
  cases head <;> rfl

@[simp] theorem link_after (k : Option (Option N)) : (after k).link = none := by
  cases k with
  | none => rfl
  | some head => exact link_loop head

/-- The thread has and reads no other block. -/
def About (n : N) (p : Point N) : Prop :=
  p.owned.elim True (fun x => x.1 = n) ∧ p.reads.elim True (fun m => m = n)

theorem about_of_none {p : Point N} (howned : p.owned = none) (hreads : p.reads = none)
    (n : N) : p.About n := by
  rw [About, howned, hreads]
  exact ⟨trivial, trivial⟩

theorem about_loop (head : Option N) (n : N) : (loop head).About n :=
  about_of_none (owned_loop head) (reads_loop head) n

theorem about_after (k : Option (Option N)) (n : N) : (after k).About n :=
  about_of_none (owned_after k) (reads_after k) n

theorem About.eq_of_owned {n m : N} {p : Point N} {x : Place} (h : p.About n)
    (hp : p.owned = some (m, x)) : m = n := by
  have howned := h.1
  rw [hp] at howned
  exact howned

theorem About.eq_of_reads {n m : N} {p : Point N} (h : p.About n)
    (hp : p.reads = some m) : m = n := by
  have hreads := h.2
  rw [hp] at hreads
  exact hreads

variable [DecidableEq N]

def owning (n : N) (p : Point N) : ℕ := if p.owned.map Prod.fst = some n then 1 else 0

def reading (n : N) (p : Point N) : ℕ := if p.reads = some n then 1 else 0

theorem owning_of_owned {p : Point N} {n : N} {x : Place} (h : p.owned = some (n, x)) :
    p.owning n = 1 := by
  rw [owning, h]
  exact if_pos rfl

theorem reading_of_reads {p : Point N} {n : N} (h : p.reads = some n) :
    p.reading n = 1 := if_pos h

theorem About.owning_eq {n : N} {p : Point N} (h : p.About n) :
    p.owning n = p.owned.isSome.toNat := by
  cases hp : p.owned with
  | none =>
      rw [owning, hp]
      exact if_neg nofun
  | some x => exact owning_of_owned (hp.trans (by rw [← h.eq_of_owned hp]))

theorem About.reading_eq {n : N} {p : Point N} (h : p.About n) :
    p.reading n = p.reads.isSome.toNat := by
  cases hp : p.reads with
  | none =>
      rw [reading, hp]
      exact if_neg nofun
  | some m => exact reading_of_reads (hp.trans (by rw [h.eq_of_reads hp]))

theorem About.owning_of_ne {n m : N} {p : Point N} (h : p.About n) (hm : m ≠ n) :
    p.owning m = 0 := by
  refine if_neg fun heq => hm ?_
  obtain ⟨⟨m', x⟩, hp, rfl⟩ := Option.map_eq_some_iff.mp heq
  exact h.eq_of_owned hp

theorem About.reading_of_ne {n m : N} {p : Point N} (h : p.About n) (hm : m ≠ n) :
    p.reading m = 0 := if_neg fun heq => hm (h.eq_of_reads heq)

theorem pos_of_link {p : Point N} {n : N} {next : Option N} (h : p.link = some (n, next)) :
    0 < p.owning n ∨ 0 < p.reading n := by
  cases p with
  | addRefs | addExchange =>
      cases h
      exact .inl (by rw [owning_of_owned rfl]; exact Nat.one_pos)
  | tryExchange =>
      cases h
      exact .inr (by rw [reading_of_reads rfl]; exact Nat.one_pos)
  | _ => cases h

end Point

variable {T N : Type*} [Fintype T] [DecidableEq T] [DecidableEq N]

def readers (s : BlockPool T N) (n : N) : ℕ := tally (Point.reading n) s.points

structure Counts (place : N → Place) (s : BlockPool T N) : Prop where
  refs : ∀ n, s.freeListRefs n = (place n).base + s.readers n
  owners : ∀ n, tally (Point.owning n) s.points = (place n).owners
  owned : ∀ t n x, (s.points t).owned = some (n, x) → place n = x
  quiet : ∀ n, (place n).quiet = true → s.readers n = 0
  pending : ∀ n, place n = .pending → 0 < s.readers n
  link : ∀ t n next, (s.points t).link = some (n, next) → s.freeListNext n = next

namespace Counts

variable {place : N → Place} {s s' : BlockPool T N} {t : T} {q : Point N}

theorem of_silent (h : Counts place s) (hpoints : s'.points = Function.update s.points t q)
    (hrefs : s'.freeListRefs = s.freeListRefs) (hnext : s'.freeListNext = s.freeListNext)
    (howned : q.owned = (s.points t).owned) (hreads : q.reads = (s.points t).reads)
    (hlink : ∀ n next, q.link = some (n, next) → s.freeListNext n = next) :
    Counts place s' := by
  have hreaders : ∀ n, s'.readers n = s.readers n := fun n => by
    have htally := tally_update (Point.reading n) s.points t q
    have hsame : q.reading n = (s.points t).reading n := by
      rw [Point.reading, Point.reading, hreads]
    rw [hsame] at htally
    rw [readers, hpoints]
    exact Nat.add_right_cancel htally
  have howners : ∀ n, tally (Point.owning n) s'.points =
      tally (Point.owning n) s.points := fun n => by
    have htally := tally_update (Point.owning n) s.points t q
    have hsame : q.owning n = (s.points t).owning n := by
      rw [Point.owning, Point.owning, howned]
    rw [hsame] at htally
    rw [hpoints]
    exact Nat.add_right_cancel htally
  refine ⟨fun n => ?_, fun n => ?_, fun u n x hu => ?_, fun n hn => ?_, fun n hn => ?_,
    fun u n next hu => ?_⟩
  · rw [hrefs, hreaders]
    exact h.refs n
  · rw [howners]
    exact h.owners n
  · rw [hpoints] at hu
    by_cases heq : u = t
    · rw [heq, Function.update_self, howned] at hu
      exact h.owned t n x hu
    · rw [Function.update_of_ne heq] at hu
      exact h.owned u n x hu
  · rw [hreaders]
    exact h.quiet n hn
  · rw [hreaders]
    exact h.pending n hn
  · rw [hpoints] at hu
    rw [hnext]
    by_cases heq : u = t
    · rw [heq, Function.update_self] at hu
      exact hlink n next hu
    · rw [Function.update_of_ne heq] at hu
      exact h.link u n next hu

/-- What a thread does to one block: it and its place have what they had together, no
other thread has the block for itself where its place changes, and no other thread knows
its link where that does. -/
structure Acts (place : N → Place) (s s' : BlockPool T N) (t : T) (n : N) (x : Place)
    (p q : Point N) : Prop where
  before : s.points t = p
  points : s'.points = Function.update s.points t q
  about : p.About n ∧ q.About n
  refs : ∃ v, s'.freeListRefs = Function.update s.freeListRefs n v ∧
    v + p.reads.isSome.toNat = x.base + s.readers n + q.reads.isSome.toNat
  next : s'.freeListNext = s.freeListNext ∨
    (∃ next, s'.freeListNext = Function.update s.freeListNext n next) ∧
      (place n).owners = p.owned.isSome.toNat ∧ s.readers n = p.reads.isSome.toNat
  owners : x.owners + p.owned.isSome.toNat = (place n).owners + q.owned.isSome.toNat
  owned : ∀ m y, q.owned = some (m, y) → y = x
  alone : x = place n ∨ (place n).owners = p.owned.isSome.toNat
  quiet : x.quiet = true → s.readers n + q.reads.isSome.toNat = p.reads.isSome.toNat
  pending : x = .pending → p.reads.isSome.toNat < s.readers n + q.reads.isSome.toNat
  link : ∀ m next, q.link = some (m, next) → s'.freeListNext m = next

variable {n : N} {x : Place} {p : Point N}

theorem Acts.readers (ha : Acts place s s' t n x p q) (m : N) :
    s'.readers m + p.reading m = s.readers m + q.reading m := by
  rw [BlockPool.readers, ha.points, ← ha.before]
  exact tally_update (Point.reading m) s.points t q

theorem Acts.owning (ha : Acts place s s' t n x p q) (m : N) :
    tally (Point.owning m) s'.points + p.owning m =
      tally (Point.owning m) s.points + q.owning m := by
  rw [ha.points, ← ha.before]
  exact tally_update (Point.owning m) s.points t q

theorem Acts.frame (ha : Acts place s s' t n x p q) {m : N} (hm : m ≠ n) :
    s'.freeListRefs m = s.freeListRefs m ∧ s'.readers m = s.readers m ∧
      tally (Point.owning m) s'.points = tally (Point.owning m) s.points := by
  obtain ⟨v, hrefs, -⟩ := ha.refs
  have hreaders := ha.readers m
  have howning := ha.owning m
  rw [ha.about.1.reading_of_ne hm, ha.about.2.reading_of_ne hm] at hreaders
  rw [ha.about.1.owning_of_ne hm, ha.about.2.owning_of_ne hm] at howning
  refine ⟨?_, hreaders, howning⟩
  rw [hrefs]
  exact Function.update_of_ne hm _ _

theorem of_acts (h : Counts place s) (ha : Acts place s s' t n x p q) :
    Counts (Function.update place n x) s' := by
  have hreaders := ha.readers n
  rw [ha.about.1.reading_eq, ha.about.2.reading_eq] at hreaders
  have howning := ha.owning n
  rw [ha.about.1.owning_eq, ha.about.2.owning_eq, h.owners n] at howning
  -- another thread has the block for itself only where its place stays what it was
  have hother : ∀ u, u ≠ t → 0 < (s.points u).owning n →
      (place n).owners ≠ p.owned.isSome.toNat := fun u hu hpos heq => by
    have hle := add_le_tally (Point.owning n) s.points hu
    rw [h.owners n, ha.before, ha.about.1.owning_eq] at hle
    omega
  refine ⟨fun m => ?_, fun m => ?_, fun u m y hu => ?_, fun m hm => ?_, fun m hm => ?_,
    fun u m next hu => ?_⟩
  · by_cases hmn : m = n
    · subst hmn
      obtain ⟨v, hrefs, hv⟩ := ha.refs
      rw [hrefs, Function.update_self, Function.update_self]
      omega
    · obtain ⟨hrefs, hsame, -⟩ := ha.frame hmn
      rw [Function.update_of_ne hmn, hrefs, hsame]
      exact h.refs m
  · by_cases hmn : m = n
    · subst hmn
      have howners := ha.owners
      rw [Function.update_self]
      omega
    · rw [Function.update_of_ne hmn, (ha.frame hmn).2.2]
      exact h.owners m
  · rw [ha.points] at hu
    by_cases heq : u = t
    · rw [heq, Function.update_self] at hu
      obtain rfl := ha.about.2.eq_of_owned hu
      rw [Function.update_self]
      exact (ha.owned m y hu).symm
    · rw [Function.update_of_ne heq] at hu
      by_cases hmn : m = n
      · subst hmn
        have hpos : 0 < (s.points u).owning m := by
          rw [Point.owning_of_owned hu]
          exact Nat.one_pos
        rw [Function.update_self, ha.alone.resolve_right (hother u heq hpos)]
        exact h.owned u m y hu
      · rw [Function.update_of_ne hmn]
        exact h.owned u m y hu
  · by_cases hmn : m = n
    · subst hmn
      rw [Function.update_self] at hm
      have hquiet := ha.quiet hm
      omega
    · rw [Function.update_of_ne hmn] at hm
      rw [(ha.frame hmn).2.1]
      exact h.quiet m hm
  · by_cases hmn : m = n
    · subst hmn
      rw [Function.update_self] at hm
      have hpending := ha.pending hm
      omega
    · rw [Function.update_of_ne hmn] at hm
      rw [(ha.frame hmn).2.1]
      exact h.pending m hm
  · rw [ha.points] at hu
    by_cases heq : u = t
    · rw [heq, Function.update_self] at hu
      exact ha.link m next hu
    · rw [Function.update_of_ne heq] at hu
      rcases ha.next with hsame | ⟨⟨next', hnext⟩, hown, hread⟩
      · rw [hsame]
        exact h.link u m next hu
      · by_cases hmn : m = n
        · -- nobody else knows the link
          subst hmn
          rcases Point.pos_of_link hu with hpos | hpos
          · exact absurd hown (hother u heq hpos)
          · have hle := add_le_tally (Point.reading m) s.points heq
            rw [ha.before, ha.about.1.reading_eq] at hle
            change _ ≤ s.readers m at hle
            omega
        · rw [hnext, Function.update_of_ne hmn]
          exact h.link u m next hu

end Counts

/-- The thread has read an index of the array that it is to raise. -/
def Point.fetching : Point N → ℕ
  | .poolFetch => 1
  | _ => 0

structure Inv (initialBlockPool : List N) (place : N → Place) (l : List N)
    (s : BlockPool T N) : Prop where
  counts : Counts place s
  threaded : Threaded s.freeListNext s.freeListHead l
  listed : Roster place (· = .listed) l
  inUse : Roster place (· = .out) s.inUse
  allocated : Roster place (· ≠ .unborn) s.allocated
  initial : Roster place (· = .initial) (initialBlockPool.drop s.initialBlockPoolIndex)
  index : s.initialBlockPoolIndex + tally Point.fetching s.points ≤
    initialBlockPool.length + Fintype.card T

end BlockPool

end Moodycamel

end Vendored

end Async

end Kclpp
