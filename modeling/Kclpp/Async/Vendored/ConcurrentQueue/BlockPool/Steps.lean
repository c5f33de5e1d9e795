import Kclpp.Async.Vendored.ConcurrentQueue.BlockPool.Invariant

/-!
# The steps of the block pool

The invariant holds in every state of every run, whatever threads there are and in
whatever order they run, as long as there are fewer of them than a reference count can
count (`valid_of_run`).
-/

namespace Kclpp

namespace Async

namespace Vendored

namespace Moodycamel

open LinkedStack Parties Transition

namespace BlockPool

/-! ### Counts and bits -/

theorem wrap32_of_lt {n : ℕ} (h : n < 4294967296) : wrap32 n = n := Nat.mod_eq_of_lt h

theorem wrap32_add {n : ℕ} (h : n < 4294967296) : wrap32 (n + 4294967296) = n := by
  rw [wrap32, Nat.add_mod_right, Nat.mod_eq_of_lt h]

theorem and_REFS_MASK (n : ℕ) : n &&& REFS_MASK = n % 2147483648 :=
  Nat.and_two_pow_sub_one_eq_mod n 31

theorem and_SHOULD_BE_ON_FREELIST {n : ℕ} (h : n < 2147483648) :
    n &&& SHOULD_BE_ON_FREELIST = 0 := by
  have hbit : n.testBit 31 = false := Nat.testBit_lt_two_pow h
  have hand := Nat.and_two_pow n 31
  rw [hbit] at hand
  exact hand

theorem SHOULD_BE_ON_FREELIST_eq : SHOULD_BE_ON_FREELIST = 2147483648 := rfl

theorem Place.ne_of_transit {x : Place} (h : x.transit = true) :
    x ≠ .listed ∧ x ≠ .out ∧ x ≠ .unborn ∧ x ≠ .initial := by
  cases x <;> first | decide | cases h

variable {T N : Type*} [Fintype T] [DecidableEq T] [DecidableEq N]
  {initialBlockPool : List N} {place : N → Place} {l : List N} {s s' : BlockPool T N} {t : T}

omit [DecidableEq T] in
theorem readers_le (s : BlockPool T N) (n : N) : s.readers n ≤ Fintype.card T := by
  refine tally_le_card fun u => ?_
  unfold Point.reading
  split_ifs
  · exact le_rfl
  · exact Nat.zero_le 1

omit [DecidableEq T] in
theorem readers_pos {n : N} (hreads : (s.points t).reads = some n) : 0 < s.readers n := by
  have hle := le_tally (Point.reading n) s.points t
  rw [Point.reading_of_reads hreads] at hle
  exact hle

/-! ### Frames -/

namespace Inv

theorem of_silent {q : Point N} (h : Inv initialBlockPool place l s)
    (hpoints : s'.points = Function.update s.points t q)
    (hrefs : s'.freeListRefs = s.freeListRefs) (hnext : s'.freeListNext = s.freeListNext)
    (hhead : s'.freeListHead = s.freeListHead)
    (hkeep : s'.inUse = s.inUse ∧ s'.allocated = s.allocated)
    (howned : q.owned = (s.points t).owned) (hreads : q.reads = (s.points t).reads)
    (hlink : ∀ n next, q.link = some (n, next) → s.freeListNext n = next)
    (hinitial : initialBlockPool.drop s'.initialBlockPoolIndex =
      initialBlockPool.drop s.initialBlockPoolIndex)
    (hindex : s'.initialBlockPoolIndex + tally Point.fetching s'.points ≤
      initialBlockPool.length + Fintype.card T) : Inv initialBlockPool place l s' where
  counts := h.counts.of_silent hpoints hrefs hnext howned hreads hlink
  threaded := by
    rw [hnext, hhead]
    exact h.threaded
  listed := h.listed
  inUse := by
    rw [hkeep.1]
    exact h.inUse
  allocated := by
    rw [hkeep.2]
    exact h.allocated
  initial := by
    rw [hinitial]
    exact h.initial
  index := hindex

/-- The bound on the index stands where no thread comes to raise it. -/
theorem index_of_goTo {q : Point N} (h : Inv initialBlockPool place l s)
    (hpoints : s'.points = Function.update s.points t q)
    (hsame : s'.initialBlockPoolIndex = s.initialBlockPoolIndex) (hq : q.fetching = 0) :
    s'.initialBlockPoolIndex + tally Point.fetching s'.points ≤
      initialBlockPool.length + Fintype.card T := by
  have htally := tally_update Point.fetching s.points t q
  have hindex := h.index
  rw [hpoints, hsame]
  omega

theorem of_goTo {q : Point N} (h : Inv initialBlockPool place l s) (hq : q.fetching = 0)
    (howned : q.owned = (s.points t).owned) (hreads : q.reads = (s.points t).reads)
    (hlink : ∀ n next, q.link = some (n, next) → s.freeListNext n = next) :
    Inv initialBlockPool place l (s.goTo t q) :=
  h.of_silent rfl rfl rfl rfl ⟨rfl, rfl⟩ howned hreads hlink rfl
    (h.index_of_goTo rfl rfl hq)

/-- A thread acts on a block that is on its way. -/
theorem of_transit {n : N} {x : Place} {p q : Point N}
    (h : Inv initialBlockPool place l s) (ha : Counts.Acts place s s' t n x p q)
    (hbefore : (place n).transit = true)
    (hx : x.transit = true)
    (hthreaded : Threaded s'.freeListNext s'.freeListHead l)
    (hkeep : s'.inUse = s.inUse ∧ s'.allocated = s.allocated ∧
      s'.initialBlockPoolIndex = s.initialBlockPoolIndex)
    (hq : q.fetching = 0) : Inv initialBlockPool (Function.update place n x) l s' := by
  obtain ⟨hlisted, hout, hunborn, hinitial⟩ := Place.ne_of_transit hbefore
  obtain ⟨hlisted', hout', hunborn', hinitial'⟩ := Place.ne_of_transit hx
  obtain ⟨hinUse, hallocated, hindex⟩ := hkeep
  refine ⟨h.counts.of_acts ha, hthreaded, h.listed.update (iff_of_false hlisted' hlisted),
    ?_, ?_, ?_, h.index_of_goTo ha.points hindex hq⟩
  · rw [hinUse]
    exact h.inUse.update (iff_of_false hout' hout)
  · rw [hallocated]
    exact h.allocated.update (iff_of_true hunborn' hunborn)
  · rw [hindex]
    exact h.initial.update (iff_of_false hinitial' hinitial)

end Inv

/-! ### What the operations do -/

section Acts

open Counts Point

variable {n : N} {x y : Place} {p q : Point N} {head next : Option N}
  {k : Option (Option N)} {v : ℕ}

theorem acts_setRefs (hp : s.points t = p) (hplace : place n = y)
    (hpoints : s'.points = Function.update s.points t q)
    (hrefs : s'.freeListRefs = Function.update s.freeListRefs n v)
    (hnext : s'.freeListNext = s.freeListNext) (habout : p.About n ∧ q.About n)
    (hv : v + p.reads.isSome.toNat = x.base + s.readers n + q.reads.isSome.toNat)
    (howners : x.owners + p.owned.isSome.toNat = y.owners + q.owned.isSome.toNat)
    (howned : ∀ m z, q.owned = some (m, z) → z = x)
    (halone : x = y ∨ y.owners = p.owned.isSome.toNat)
    (hquiet : x.quiet = true →
      s.readers n + q.reads.isSome.toNat = p.reads.isSome.toNat)
    (hpending : x = .pending →
      p.reads.isSome.toNat < s.readers n + q.reads.isSome.toNat)
    (hlink : ∀ m next, q.link = some (m, next) → s.freeListNext m = next) :
    Acts place s s' t n x p q := by
  subst hplace
  refine ⟨hp, hpoints, habout, ⟨v, hrefs, hv⟩, .inl hnext, howners, howned, halone,
    hquiet, hpending, fun m next hm => ?_⟩
  rw [hnext]
  exact hlink m next hm

/-- A block comes to another place, and its reference count counts something else. -/
theorem acts_keepRefs (h : Counts place s) (hp : s.points t = p) (hplace : place n = y)
    (hpoints : s'.points = Function.update s.points t q)
    (hrefs : s'.freeListRefs = s.freeListRefs)
    (hnext : s'.freeListNext = s.freeListNext) (habout : p.About n ∧ q.About n)
    (hbase : y.base + p.reads.isSome.toNat = x.base + q.reads.isSome.toNat)
    (howners : x.owners + p.owned.isSome.toNat = y.owners + q.owned.isSome.toNat)
    (howned : ∀ m z, q.owned = some (m, z) → z = x)
    (halone : y.owners = p.owned.isSome.toNat) (hquiet : x.quiet = false)
    (hpending : x ≠ .pending) (hlink : q.link = none) : Acts place s s' t n x p q := by
  refine acts_setRefs hp hplace hpoints (v := s.freeListRefs n) ?_ hnext habout ?_ howners
    howned (.inr halone) (fun hx => ?_) (fun hx => absurd hx hpending) (fun m next hm => ?_)
  · rw [hrefs, Function.update_eq_self]
  · rw [h.refs n, hplace]
    omega
  · rw [hquiet] at hx
    cases hx
  · rw [hlink] at hm
    cases hm

theorem acts_add (h : Counts place s) (hT : Fintype.card T < 2147483646)
    (hp : s.points t = .add n) (hq : q = if s.freeListRefs n = 0 then .addHead n none else .idle) :
    ∃ x : Place, x.transit = true ∧
      Acts place s ((s.setRefs n (s.freeListRefs n + SHOULD_BE_ON_FREELIST)).goTo t q) t n x
        (.add n) q := by
  have hplace : place n = .given := h.owned t n _ (by rw [hp]; rfl)
  have hrefs : s.freeListRefs n = s.readers n := by
    rw [h.refs n, hplace]
    exact Nat.zero_add _
  have hle := readers_le s n
  have hwrap : wrap32 (s.freeListRefs n + SHOULD_BE_ON_FREELIST) + 0 =
      SHOULD_BE_ON_FREELIST + s.readers n + 0 := by
    rw [hrefs, SHOULD_BE_ON_FREELIST_eq, Nat.add_comm (s.readers n)]
    exact congrArg (· + 0) (wrap32_of_lt (by omega))
  by_cases hzero : s.freeListRefs n = 0
  · rw [if_pos hzero] at hq
    subst hq
    refine ⟨.adding, rfl, acts_setRefs hp hplace rfl rfl rfl ⟨⟨rfl, trivial⟩, rfl, trivial⟩
      hwrap rfl ?_ (.inr rfl) (fun _ => hrefs.symm.trans hzero) nofun nofun⟩
    rintro m z ⟨⟩
    rfl
  · rw [if_neg hzero] at hq
    subst hq
    exact ⟨.pending, rfl, acts_setRefs hp hplace rfl rfl rfl
      ⟨⟨rfl, trivial⟩, trivial, trivial⟩ hwrap rfl nofun (.inr rfl) nofun
      (fun _ => Nat.pos_of_ne_zero (hrefs ▸ hzero)) nofun⟩

theorem acts_addNext (h : Counts place s) (hp : s.points t = .addNext n head k) :
    Acts place s ((s.setNext n head).goTo t (.addRefs n head k)) t n .adding
      (.addNext n head k) (.addRefs n head k) := by
  have hplace : place n = .adding := h.owned t n _ (by rw [hp]; rfl)
  have hreaders : s.readers n = 0 := h.quiet n (by rw [hplace]; rfl)
  refine ⟨hp, rfl, ⟨⟨rfl, trivial⟩, rfl, trivial⟩, ⟨s.freeListRefs n, ?_, ?_⟩,
    .inr ⟨⟨head, rfl⟩, ?_, hreaders⟩, ?_, ?_, .inl hplace.symm, fun _ => hreaders, nofun, ?_⟩
  · exact (Function.update_eq_self _ _).symm
  · rw [h.refs n, hplace]
    rfl
  · rw [hplace]
    rfl
  · rw [hplace]
    rfl
  · rintro m z ⟨⟩
    rfl
  · rintro m next ⟨⟩
    exact Function.update_self _ _ _

theorem acts_addRefs (h : Counts place s) (hp : s.points t = .addRefs n head k) :
    Acts place s ((s.setRefs n 1).goTo t (.addExchange n head k)) t n .offered
      (.addRefs n head k) (.addExchange n head k) := by
  have hplace : place n = .adding := h.owned t n _ (by rw [hp]; rfl)
  have hreaders : s.readers n = 0 := h.quiet n (by rw [hplace]; rfl)
  refine acts_setRefs hp hplace rfl rfl rfl ⟨⟨rfl, trivial⟩, rfl, trivial⟩ ?_ rfl ?_
    (.inr rfl) nofun nofun ?_
  · rw [hreaders]
    rfl
  · rintro m z ⟨⟩
    rfl
  · rintro m next ⟨⟩
    exact h.link t n head (by rw [hp]; rfl)

theorem acts_addExchange (h : Counts place s) (hp : s.points t = .addExchange n head k) :
    Acts place s ({ s with freeListHead := some n }.goTo t (.after k)) t n .listed
      (.addExchange n head k) (.after k) := by
  have hplace : place n = .offered := h.owned t n _ (by rw [hp]; rfl)
  refine acts_keepRefs h hp hplace rfl rfl rfl ⟨⟨rfl, trivial⟩, about_after k n⟩ ?_ ?_ ?_
    rfl rfl nofun (link_after k)
  · rw [reads_after]
    rfl
  · rw [owned_after]
    rfl
  · rw [owned_after]
    nofun

theorem acts_addAgain (h : Counts place s) (hT : Fintype.card T < 2147483646)
    (hp : s.points t = .addAgain n head k)
    (hq : q = if s.freeListRefs n = 1 then .addNext n head k else .after k) :
    ∃ x : Place, x.transit = true ∧
      Acts place s ((s.setRefs n
        (s.freeListRefs n + (SHOULD_BE_ON_FREELIST - 1))).goTo t q) t n x
        (.addAgain n head k) q := by
  have hplace : place n = .offered := h.owned t n _ (by rw [hp]; rfl)
  have hrefs : s.freeListRefs n = 1 + s.readers n := by
    rw [h.refs n, hplace]
    rfl
  have hle := readers_le s n
  have hwrap : wrap32 (s.freeListRefs n + (SHOULD_BE_ON_FREELIST - 1)) + 0 =
      SHOULD_BE_ON_FREELIST + s.readers n + 0 := by
    rw [hrefs, SHOULD_BE_ON_FREELIST_eq, wrap32_of_lt (by omega)]
    omega
  by_cases hone : s.freeListRefs n = 1
  · rw [if_pos hone] at hq
    subst hq
    have hreaders : s.readers n = 0 := by omega
    refine ⟨.adding, rfl, acts_setRefs hp hplace rfl rfl rfl ⟨⟨rfl, trivial⟩, rfl, trivial⟩
      hwrap rfl ?_ (.inr rfl) (fun _ => hreaders) nofun nofun⟩
    rintro m z ⟨⟩
    rfl
  · rw [if_neg hone] at hq
    subst hq
    refine ⟨.pending, rfl, acts_setRefs hp hplace rfl rfl rfl ⟨⟨rfl, trivial⟩, about_after k n⟩
      ?_ ?_ ?_ (.inr rfl) nofun (fun _ => ?_) ?_⟩
    · rw [reads_after]
      exact hwrap
    · rw [owned_after]
      rfl
    · rw [owned_after]
      nofun
    · rw [reads_after]
      change 0 < s.readers n + 0
      omega
    · rw [link_after]
      nofun

theorem acts_tryIncrement (h : Counts place s) (hT : Fintype.card T < 2147483646)
    (hp : s.points t = .tryIncrement n v) (hmask : v &&& REFS_MASK ≠ 0)
    (hrefs : s.freeListRefs n = v) :
    Acts place s ((s.setRefs n (v + 1)).goTo t (.tryNext n)) t n (place n)
      (.tryIncrement n v) (.tryNext n) := by
  have hv := h.refs n
  have hle := readers_le s n
  have hbase := (place n).base_le
  rw [hrefs] at hv
  rw [SHOULD_BE_ON_FREELIST_eq] at hbase
  refine acts_setRefs hp rfl rfl rfl rfl ⟨⟨trivial, trivial⟩, trivial, rfl⟩ ?_ rfl nofun
    (.inl rfl) (fun hquiet => ?_) (fun _ => Nat.succ_pos _) nofun
  · change wrap32 (v + 1) + 0 = _ + 1
    rw [wrap32_of_lt (by omega), hv]
  · -- the count of a block that nobody reads and nobody has listed is zero below the bit
    rw [and_REFS_MASK, hv, h.quiet n hquiet] at hmask
    exact absurd (by cases hplace : place n <;> rw [hplace] at hquiet <;>
      first | rfl | cases hquiet) hmask

theorem acts_tryExchange (h : Counts place s) (hp : s.points t = .tryExchange n next)
    (hplace : place n = .listed) :
    Acts place s ({ s with freeListHead := next }.goTo t (.tryTake n)) t n .taken
      (.tryExchange n next) (.tryTake n) := by
  refine acts_keepRefs h hp hplace rfl rfl rfl ⟨⟨trivial, rfl⟩, rfl, trivial⟩ rfl rfl ?_
    rfl rfl nofun rfl
  rintro m z ⟨⟩
  rfl

/-- The reference counts of the list and of the thread are taken back. -/
theorem acts_tryTake (h : Counts place s) (hT : Fintype.card T < 2147483646)
    (hp : s.points t = .tryTake n) :
    Acts place s ((s.setRefs n (s.freeListRefs n + (4294967296 - 2))).handOut t n) t n .out
      (.tryTake n) .idle := by
  have hplace : place n = .taken := h.owned t n _ (by rw [hp]; rfl)
  have hrefs : s.freeListRefs n = 2 + s.readers n := by
    rw [h.refs n, hplace]
    rfl
  have hle := readers_le s n
  have hwrap : wrap32 (s.freeListRefs n + (4294967296 - 2)) = s.readers n := by
    rw [hrefs, show 2 + s.readers n + (4294967296 - 2) = s.readers n + 4294967296 by omega]
    exact wrap32_add (by omega)
  refine acts_setRefs hp hplace rfl rfl rfl ⟨⟨rfl, trivial⟩, trivial, trivial⟩ ?_ rfl nofun
    (.inr rfl) nofun nofun nofun
  rw [hwrap]
  exact (Nat.zero_add _).symm

/-- A thread is done reading. If the block was waiting for that, it is the thread's. -/
theorem acts_tryRelease (h : Counts place s) (hT : Fintype.card T < 2147483646)
    (hp : s.points t = .tryRelease n head)
    (hq : q = if s.freeListRefs n = SHOULD_BE_ON_FREELIST + 1 then .addHead n (some head)
      else .loop head) :
    ∃ x : Place, (x = place n ∨ (place n).transit = true ∧ x.transit = true) ∧
      Acts place s ((s.setRefs n (s.freeListRefs n + (4294967296 - 1))).goTo t q) t n x
        (.tryRelease n head) q := by
  have hpos : 0 < s.readers n := readers_pos (t := t) (by rw [hp]; rfl)
  have hv := h.refs n
  have hle := readers_le s n
  have hbase := (place n).base_le
  rw [SHOULD_BE_ON_FREELIST_eq] at hbase
  have hwrap : wrap32 (s.freeListRefs n + (4294967296 - 1)) + 1 =
      (place n).base + s.readers n := by
    rw [hv, show (place n).base + s.readers n + (4294967296 - 1) =
      (place n).base + s.readers n - 1 + 4294967296 by omega, wrap32_add (by omega)]
    omega
  by_cases hlast : s.freeListRefs n = SHOULD_BE_ON_FREELIST + 1
  · rw [if_pos hlast] at hq
    subst hq
    rw [hlast, SHOULD_BE_ON_FREELIST_eq] at hv
    have hplace : place n = .pending := by
      cases hplace : place n <;> rw [hplace] at hv
      case adding => exact absurd (h.quiet n (by rw [hplace]; rfl)) hpos.ne'
      all_goals
        simp only [Place.base] at hv
        omega
    have hreaders : s.readers n = 1 := by
      rw [hplace] at hv
      change _ = 2147483648 + s.readers n at hv
      omega
    rw [hplace] at hwrap
    refine ⟨.adding, .inr ⟨by rw [hplace]; rfl, rfl⟩, acts_setRefs hp hplace rfl rfl rfl
      ⟨⟨trivial, rfl⟩, rfl, trivial⟩ hwrap rfl ?_ (.inr rfl) (fun _ => hreaders) nofun nofun⟩
    rintro m z ⟨⟩
    rfl
  · rw [if_neg hlast] at hq
    subst hq
    refine ⟨place n, .inl rfl, acts_setRefs hp rfl rfl rfl rfl
      ⟨⟨trivial, rfl⟩, about_loop head n⟩ ?_ ?_ ?_ (.inl rfl) (fun hquiet => ?_)
      (fun hpending => ?_) ?_⟩
    · rw [reads_loop]
      exact hwrap
    · rw [owned_loop]
      rfl
    · rw [owned_loop]
      nofun
    · exact absurd (h.quiet n hquiet) hpos.ne'
    · rw [hpending] at hv
      change _ = SHOULD_BE_ON_FREELIST + s.readers n at hv
      rw [reads_loop]
      change 1 < s.readers n + 0
      rw [hv] at hlast
      omega
    · rw [link_loop]
      nofun

end Acts

/-! ### Runs -/

namespace Inv

variable {n : N}

theorem of_push {p q : Point N} (h : Inv initialBlockPool place l s)
    (ha : Counts.Acts place s s' t n .listed p q) (hbefore : (place n).transit = true)
    (hhead : s'.freeListHead = some n) (hnext : s'.freeListNext = s.freeListNext)
    (hlink : s.freeListNext n = s.freeListHead)
    (hkeep : s'.inUse = s.inUse ∧ s'.allocated = s.allocated ∧
      s'.initialBlockPoolIndex = s.initialBlockPoolIndex) (hq : q.fetching = 0) :
    Inv initialBlockPool (Function.update place n .listed) (n :: l) s' := by
  obtain ⟨hlisted, hout, hunborn, hinitial⟩ := Place.ne_of_transit hbefore
  obtain ⟨hinUse, hallocated, hindex⟩ := hkeep
  refine ⟨h.counts.of_acts ha, ?_, h.listed.cons hlisted rfl, ?_, ?_, ?_,
    h.index_of_goTo ha.points hindex hq⟩
  · rw [hhead, hnext]
    exact threaded_push h.threaded hlink
  · rw [hinUse]
    exact h.inUse.update (iff_of_false nofun hout)
  · rw [hallocated]
    exact h.allocated.update (iff_of_true nofun hunborn)
  · rw [hindex]
    exact h.initial.update (iff_of_false nofun hinitial)

theorem of_pop {p q : Point N} (h : Inv initialBlockPool place (n :: l) s)
    (ha : Counts.Acts place s s' t n .taken p q)
    (hthreaded : Threaded s'.freeListNext s'.freeListHead l)
    (hkeep : s'.inUse = s.inUse ∧ s'.allocated = s.allocated ∧
      s'.initialBlockPoolIndex = s.initialBlockPoolIndex) (hq : q.fetching = 0) :
    Inv initialBlockPool (Function.update place n .taken) l s' := by
  have hplace : place n = .listed := (h.listed.mem_iff n).mp List.mem_cons_self
  obtain ⟨hinUse, hallocated, hindex⟩ := hkeep
  refine ⟨h.counts.of_acts ha, hthreaded, h.listed.tail nofun, ?_, ?_, ?_,
    h.index_of_goTo ha.points hindex hq⟩
  · rw [hinUse]
    exact h.inUse.update (iff_of_false nofun (by rw [hplace]; nofun))
  · rw [hallocated]
    exact h.allocated.update (iff_of_true nofun (by rw [hplace]; nofun))
  · rw [hindex]
    exact h.initial.update (iff_of_false nofun (by rw [hplace]; nofun))

theorem of_handOut {p : Point N} (h : Inv initialBlockPool place l s)
    (ha : Counts.Acts place s s' t n .out p .idle) (hlisted : place n ≠ .listed)
    (hout : place n ≠ .out)
    (hhead : Threaded s'.freeListNext s'.freeListHead l)
    (hinUse : s'.inUse = n :: s.inUse)
    (hallocated : Roster (Function.update place n .out) (· ≠ .unborn) s'.allocated)
    (hinitial : Roster (Function.update place n .out) (· = .initial)
      (initialBlockPool.drop s'.initialBlockPoolIndex))
    (hindex : s'.initialBlockPoolIndex + tally Point.fetching s'.points ≤
      initialBlockPool.length + Fintype.card T) :
    Inv initialBlockPool (Function.update place n .out) l s' := by
  refine ⟨h.counts.of_acts ha, hhead, h.listed.update (iff_of_false nofun hlisted), ?_,
    hallocated, hinitial, hindex⟩
  rw [hinUse]
  exact h.inUse.cons hout rfl

omit [DecidableEq T] in
theorem wrap64_index (h : Inv initialBlockPool place l s)
    (hsize : initialBlockPool.length + Fintype.card T < 18446744073709551616)
    (hp : s.points t = .poolFetch) :
    wrap64 (s.initialBlockPoolIndex + 1) = s.initialBlockPoolIndex + 1 := by
  have hle := le_tally Point.fetching s.points t
  have hindex := h.index
  rw [hp] at hle
  change 1 ≤ _ at hle
  exact Nat.mod_eq_of_lt (by omega)

theorem index_of_poolFetch {q : Point N} (h : Inv initialBlockPool place l s)
    (hsize : initialBlockPool.length + Fintype.card T < 18446744073709551616)
    (hp : s.points t = .poolFetch) (hq : q.fetching = 0)
    (hpoints : s'.points = Function.update s.points t q)
    (hindex : s'.initialBlockPoolIndex = wrap64 (s.initialBlockPoolIndex + 1)) :
    s'.initialBlockPoolIndex = s.initialBlockPoolIndex + 1 ∧
      s'.initialBlockPoolIndex + tally Point.fetching s'.points ≤
        initialBlockPool.length + Fintype.card T := by
  have htally := tally_update Point.fetching s.points t q
  rw [hp, ← hpoints, hq] at htally
  change _ + 1 = _ + 0 at htally
  have hle := h.index
  rw [h.wrap64_index hsize hp] at hindex
  exact ⟨hindex, by omega⟩

theorem of_poolFetch_some (h : Inv initialBlockPool place l s)
    (hsize : initialBlockPool.length + Fintype.card T < 18446744073709551616)
    (hp : s.points t = .poolFetch)
    (hblock : initialBlockPool[s.initialBlockPoolIndex]? = some n)
    (hs' : s' = { s with
      initialBlockPoolIndex := wrap64 (s.initialBlockPoolIndex + 1) }.handOut t n) :
    Inv initialBlockPool (Function.update place n .out) l s' := by
  obtain ⟨hlt, hget⟩ := List.getElem?_eq_some_iff.mp hblock
  have hcons := List.drop_eq_getElem_cons hlt
  rw [hget] at hcons
  have hinitial := h.initial
  rw [hcons] at hinitial
  have hplace : place n = .initial := (hinitial.mem_iff n).mp List.mem_cons_self
  have hpoints : s'.points = Function.update s.points t .idle := by rw [hs']; rfl
  obtain ⟨hindex, hle⟩ := h.index_of_poolFetch hsize hp rfl hpoints (by rw [hs']; rfl)
  subst hs'
  refine h.of_handOut (t := t) (p := .poolFetch) ?_ (by rw [hplace]; nofun) (by rw [hplace]; nofun)
    h.threaded rfl (h.allocated.update (iff_of_true nofun (by rw [hplace]; nofun))) ?_ hle
  · exact acts_keepRefs h.counts hp hplace rfl rfl rfl ⟨⟨trivial, trivial⟩, trivial, trivial⟩
      rfl rfl nofun rfl rfl nofun rfl
  · rw [hindex]
    exact hinitial.tail nofun

theorem of_poolFetch_none (h : Inv initialBlockPool place l s)
    (hsize : initialBlockPool.length + Fintype.card T < 18446744073709551616)
    (hp : s.points t = .poolFetch)
    (hblock : initialBlockPool[s.initialBlockPoolIndex]? = none)
    (hs' : s' = { s with
      initialBlockPoolIndex := wrap64 (s.initialBlockPoolIndex + 1) }.goTo t .tryHead) :
    Inv initialBlockPool place l s' := by
  have hpoints : s'.points = Function.update s.points t .tryHead := by rw [hs']; rfl
  obtain ⟨hindex, hle⟩ := h.index_of_poolFetch hsize hp rfl hpoints (by rw [hs']; rfl)
  subst hs'
  refine h.of_silent rfl rfl rfl rfl ⟨rfl, rfl⟩ (by rw [hp]; rfl) (by rw [hp]; rfl) nofun ?_
    hle
  have hlen := List.getElem?_eq_none_iff.mp hblock
  rw [hindex, List.drop_eq_nil_of_le hlen, List.drop_eq_nil_of_le (by omega)]

theorem of_advance (h : Inv initialBlockPool place l s)
    (hT : Fintype.card T < 2147483646)
    (hsize : initialBlockPool.length + Fintype.card T < 18446744073709551616)
    (hstep : s.advance initialBlockPool t = some s') :
    ∃ place' l', Inv initialBlockPool place' l' s' := by
  unfold advance at hstep
  cases hp : s.points t with
  | idle | create =>
      rw [hp] at hstep
      cases hstep
  | add n =>
      rw [hp] at hstep
      cases hstep
      obtain ⟨x, hx, ha⟩ := acts_add h.counts hT hp rfl
      have hplace : place n = .given := h.counts.owned t n _ (by rw [hp]; rfl)
      refine ⟨_, _, h.of_transit ha (by rw [hplace]; rfl) hx h.threaded ⟨rfl, rfl, rfl⟩ ?_⟩
      split_ifs <;> rfl
  | addHead n k =>
      rw [hp] at hstep
      cases hstep
      exact ⟨_, _, h.of_goTo rfl (by rw [hp]; rfl) (by rw [hp]; rfl) nofun⟩
  | addNext n head k =>
      rw [hp] at hstep
      cases hstep
      have hplace : place n = .adding := h.counts.owned t n _ (by rw [hp]; rfl)
      have hunlisted : n ∉ l := fun hmem => by
        have hlisted := (h.listed.mem_iff n).mp hmem
        rw [hplace] at hlisted
        cases hlisted
      exact ⟨_, _, h.of_transit (acts_addNext h.counts hp) (by rw [hplace]; rfl) rfl
        (threaded_update hunlisted head h.threaded) ⟨rfl, rfl, rfl⟩ rfl⟩
  | addRefs n head k =>
      rw [hp] at hstep
      cases hstep
      have hplace : place n = .adding := h.counts.owned t n _ (by rw [hp]; rfl)
      exact ⟨_, _, h.of_transit (acts_addRefs h.counts hp) (by rw [hplace]; rfl) rfl
        h.threaded ⟨rfl, rfl, rfl⟩ rfl⟩
  | addExchange n head k =>
      rw [hp] at hstep
      dsimp only at hstep
      have hplace : place n = .offered := h.counts.owned t n _ (by rw [hp]; rfl)
      split_ifs at hstep with hhead
      · cases hstep
        have hlink : s.freeListNext n = head := h.counts.link t n head (by rw [hp]; rfl)
        refine ⟨_, _, h.of_push (acts_addExchange h.counts hp) (by rw [hplace]; rfl) rfl rfl
          (hlink.trans hhead.symm) ⟨rfl, rfl, rfl⟩ ?_⟩
        rcases k with _ | _ | _ <;> rfl
      · cases hstep
        exact ⟨_, _, h.of_goTo rfl (by rw [hp]; rfl) (by rw [hp]; rfl) nofun⟩
  | addAgain n head k =>
      rw [hp] at hstep
      cases hstep
      obtain ⟨x, hx, ha⟩ := acts_addAgain h.counts hT hp rfl
      have hplace : place n = .offered := h.counts.owned t n _ (by rw [hp]; rfl)
      refine ⟨_, _, h.of_transit ha (by rw [hplace]; rfl) hx h.threaded ⟨rfl, rfl, rfl⟩ ?_⟩
      split_ifs
      · rfl
      · rcases k with _ | _ | _ <;> rfl
  | poolLoad =>
      rw [hp] at hstep
      dsimp only at hstep
      split_ifs at hstep with hfull
      · cases hstep
        exact ⟨_, _, h.of_goTo rfl (by rw [hp]; rfl) (by rw [hp]; rfl) nofun⟩
      · cases hstep
        refine ⟨_, _, h.of_silent rfl rfl rfl rfl ⟨rfl, rfl⟩ (by rw [hp]; rfl)
          (by rw [hp]; rfl) nofun rfl ?_⟩
        have hle : tally Point.fetching (s.goTo t .poolFetch).points ≤ Fintype.card T :=
          tally_le_card fun u => by
            unfold Point.fetching
            split
            · exact le_rfl
            · exact Nat.zero_le 1
        change s.initialBlockPoolIndex + _ ≤ _
        omega
  | poolFetch =>
      rw [hp] at hstep
      dsimp only at hstep
      split at hstep
      · cases hstep
        exact ⟨_, _, h.of_poolFetch_some hsize hp ‹_› rfl⟩
      · cases hstep
        exact ⟨_, _, h.of_poolFetch_none hsize hp ‹_› rfl⟩
  | tryHead =>
      rw [hp] at hstep
      cases hstep
      refine ⟨_, _, h.of_goTo ?_ (by rw [hp, Point.owned_loop]; rfl)
        (by rw [hp, Point.reads_loop]; rfl) (by rw [Point.link_loop]; nofun)⟩
      cases s.freeListHead <;> rfl
  | tryRefs n =>
      rw [hp] at hstep
      cases hstep
      exact ⟨_, _, h.of_goTo rfl (by rw [hp]; rfl) (by rw [hp]; rfl) nofun⟩
  | tryIncrement n v =>
      rw [hp] at hstep
      dsimp only at hstep
      split_ifs at hstep with hfail
      · cases hstep
        exact ⟨_, _, h.of_goTo rfl (by rw [hp]; rfl) (by rw [hp]; rfl) nofun⟩
      · cases hstep
        rw [not_or, not_not] at hfail
        have hcounts := h.counts.of_acts (acts_tryIncrement h.counts hT hp hfail.1 hfail.2)
        rw [Function.update_eq_self] at hcounts
        exact ⟨place, l, hcounts, h.threaded, h.listed, h.inUse, h.allocated, h.initial,
          h.index_of_goTo rfl rfl rfl⟩
  | tryNext n =>
      rw [hp] at hstep
      cases hstep
      refine ⟨_, _, h.of_goTo rfl (by rw [hp]; rfl) (by rw [hp]; rfl) ?_⟩
      rintro m next ⟨⟩
      rfl
  | tryExchange n next =>
      rw [hp] at hstep
      dsimp only at hstep
      split_ifs at hstep with hhead
      · cases hstep
        have hthreaded := h.threaded
        rw [hhead] at hthreaded
        obtain ⟨l', rfl, hrest⟩ := exists_cons_of_threaded hthreaded
        have hplace : place n = .listed := (h.listed.mem_iff n).mp List.mem_cons_self
        have hlink : s.freeListNext n = next := h.counts.link t n next (by rw [hp]; rfl)
        rw [hlink] at hrest
        exact ⟨_, _, h.of_pop (acts_tryExchange h.counts hp hplace) hrest ⟨rfl, rfl, rfl⟩ rfl⟩
      · cases hstep
        exact ⟨_, _, h.of_goTo rfl (by rw [hp]; rfl) (by rw [hp]; rfl) nofun⟩
  | tryTake n =>
      rw [hp] at hstep
      cases hstep
      have hplace : place n = .taken := h.counts.owned t n _ (by rw [hp]; rfl)
      exact ⟨_, _, h.of_handOut (acts_tryTake h.counts hT hp) (by rw [hplace]; nofun)
        (by rw [hplace]; nofun) h.threaded rfl
        (h.allocated.update (iff_of_true nofun (by rw [hplace]; nofun)))
        (h.initial.update (iff_of_false nofun (by rw [hplace]; nofun)))
        (h.index_of_goTo rfl rfl rfl)⟩
  | tryRelease n head =>
      rw [hp] at hstep
      cases hstep
      obtain ⟨x, hx, ha⟩ := acts_tryRelease h.counts hT hp rfl
      have hq : (if s.freeListRefs n = SHOULD_BE_ON_FREELIST + 1 then
          Point.addHead n (some head) else .loop head).fetching = 0 := by
        split_ifs
        · rfl
        · cases head <;> rfl
      rcases hx with rfl | ⟨hbefore, hx⟩
      · have hcounts := h.counts.of_acts ha
        rw [Function.update_eq_self] at hcounts
        exact ⟨place, l, hcounts, h.threaded, h.listed, h.inUse, h.allocated, h.initial,
          h.index_of_goTo rfl rfl hq⟩
      · exact ⟨_, _, h.of_transit ha hbefore hx h.threaded ⟨rfl, rfl, rfl⟩ hq⟩

theorem of_step {label : Label T N} (h : Inv initialBlockPool place l s)
    (hT : Fintype.card T < 2147483646)
    (hsize : initialBlockPool.length + Fintype.card T < 18446744073709551616)
    (hstep : s.step initialBlockPool label = some s') :
    ∃ place' l', Inv initialBlockPool place' l' s' := by
  match label with
  | .step t => exact h.of_advance hT hsize hstep
  | .requisitionBlock t canAlloc =>
      simp only [step] at hstep
      split_ifs at hstep with hp
      cases hstep
      exact ⟨_, _, h.of_silent rfl rfl rfl rfl ⟨rfl, rfl⟩ (by rw [hp]; rfl)
        (by rw [hp]; rfl) nofun rfl (h.index_of_goTo rfl rfl rfl)⟩
  | .addBlock t block =>
      simp only [step] at hstep
      split_ifs at hstep with hp
      cases hstep
      obtain ⟨hp, hmem⟩ := hp
      have hplace : place block = .out := (h.inUse.mem_iff block).mp hmem
      have ha : Counts.Acts place s
          ({ s with inUse := s.inUse.erase block }.goTo t (.add block)) t block .given .idle
          (.add block) := by
        refine acts_keepRefs h.counts hp hplace rfl rfl rfl
          ⟨⟨trivial, trivial⟩, rfl, trivial⟩ rfl rfl ?_ rfl rfl nofun rfl
        rintro m z ⟨⟩
        rfl
      exact ⟨_, l, h.counts.of_acts ha, h.threaded,
        h.listed.update (iff_of_false nofun (by rw [hplace]; nofun)), h.inUse.erase nofun,
        h.allocated.update (iff_of_true nofun (by rw [hplace]; nofun)),
        h.initial.update (iff_of_false nofun (by rw [hplace]; nofun)),
        h.index_of_goTo rfl rfl rfl⟩
  | .create t none =>
      simp only [step] at hstep
      split_ifs at hstep with hp
      cases hstep
      exact ⟨_, _, h.of_goTo rfl (by rw [hp]; rfl) (by rw [hp]; rfl) nofun⟩
  | .create t (some block) =>
      simp only [step] at hstep
      split_ifs at hstep with hp
      cases hstep
      obtain ⟨hp, -, hnew⟩ := hp
      have hplace : place block = .unborn :=
        not_not.mp fun hborn => hnew ((h.allocated.mem_iff block).mpr hborn)
      have hreaders : s.readers block = 0 := h.counts.quiet block (by rw [hplace]; rfl)
      have hunlisted : block ∉ l := fun hmem => by
        have hlisted := (h.listed.mem_iff block).mp hmem
        rw [hplace] at hlisted
        cases hlisted
      refine ⟨_, l, h.of_handOut (n := block) (t := t) (p := .create) ?_
        (by rw [hplace]; nofun) (by rw [hplace]; nofun)
        (threaded_update hunlisted none h.threaded) rfl
        (h.allocated.cons (fun hborn => hborn hplace) nofun)
        (h.initial.update (iff_of_false nofun (by rw [hplace]; nofun)))
        (h.index_of_goTo rfl rfl rfl)⟩
      refine ⟨hp, rfl, ⟨⟨trivial, trivial⟩, trivial, trivial⟩, ⟨0, rfl, ?_⟩,
        .inr ⟨⟨none, rfl⟩, ?_, hreaders⟩, ?_, nofun, .inr ?_, nofun, nofun, nofun⟩
      · rw [hreaders]
        rfl
      all_goals
        rw [hplace]
        rfl

end Inv

omit [DecidableEq T] in
/-- At first the blocks of the array are there, and no others. -/
theorem inv_init (h : initialBlockPool.Nodup) :
    Inv initialBlockPool (fun n => if n ∈ initialBlockPool then .initial else .unborn) []
      (init initialBlockPool : BlockPool T N) := by
  have hzero : ∀ w : Point N → ℕ, w .idle = 0 →
      tally w (init initialBlockPool : BlockPool T N).points = 0 := fun w hw => by
    rw [tally_eq_zero_iff]
    exact fun _ => hw
  refine ⟨⟨fun n => ?_, fun n => ?_, ?_, fun n _ => hzero _ rfl, fun n hn => ?_, ?_⟩,
    threaded_nil _, .nil fun n => ?_, .nil fun n => ?_, ⟨h, fun n => ?_⟩, ⟨h, fun n => ?_⟩, ?_⟩
  · rw [readers, hzero _ rfl]
    split_ifs <;> rfl
  · rw [hzero _ rfl]
    split_ifs <;> rfl
  · rintro t n x ⟨⟩
  · by_cases hmem : n ∈ initialBlockPool <;> simp [hmem] at hn
  · rintro t n next ⟨⟩
  · by_cases hn : n ∈ initialBlockPool <;> simp [hn]
  · by_cases hn : n ∈ initialBlockPool <;> simp [hn]
  · by_cases hn : n ∈ initialBlockPool <;> simp [hn, init]
  · by_cases hn : n ∈ initialBlockPool <;> simp [hn, init]
  · rw [hzero _ rfl]
    exact Nat.zero_le _

theorem valid_of_run {labels : List (Label T N)} (h : initialBlockPool.Nodup)
    (hT : Fintype.card T < 2147483646)
    (hsize : initialBlockPool.length + Fintype.card T < 18446744073709551616)
    (hrun : run (step initialBlockPool) (init initialBlockPool) labels = some s) :
    ∃ place l, Inv initialBlockPool place l s :=
  run_invariant (I := fun s => ∃ place l, Inv initialBlockPool place l s)
    (fun _ _ _ ⟨_, _, h⟩ hstep => h.of_step hT hsize hstep) ⟨_, _, inv_init h⟩ hrun

end BlockPool

end Moodycamel

end Vendored

end Async

end Kclpp
