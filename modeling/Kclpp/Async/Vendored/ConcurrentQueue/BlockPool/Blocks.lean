import Kclpp.Async.Vendored.ConcurrentQueue.BlockPool.Steps

/-!
# Where the blocks are

No block is lost, and none is handed out to two callers: what has been allocated is, block
for block, what is in use, what is on the free list, what is left of the array, and what is
on its way in some call (`blocks_of_run`). Since a call has at most one block on its way,
the pool does not grow beyond what is in use at a time (`allocated_length_le`).
-/

namespace Kclpp

namespace Async

namespace Vendored

namespace Moodycamel

open LinkedStack Parties Transition

namespace BlockPool

namespace Point

variable {N : Type*}

def touches (p : Point N) : Option N := (p.owned.map Prod.fst).or p.reads

def busy : Point N → ℕ
  | .idle => 0
  | _ => 1

/-- The thread has found nothing in the array. -/
def past : Point N → Bool
  | .idle | .add _ | .poolLoad | .poolFetch => false
  | .addHead _ k | .addNext _ _ k | .addRefs _ _ k | .addExchange _ _ k | .addAgain _ _ k =>
      k.isSome
  | _ => true

/-- The head that `try_get` goes on with is null. -/
def noHead : Option (Option N) → ℕ
  | some none => 1
  | _ => 0

/-- The thread has seen the free list empty. -/
def starved : Point N → ℕ
  | .create => 1
  | .tryRelease _ head => noHead (some head)
  | .addHead _ k | .addNext _ _ k | .addRefs _ _ k | .addExchange _ _ k | .addAgain _ _ k =>
      noHead k
  | _ => 0

theorem past_after (k : Option (Option N)) : (after k).past = k.isSome := by
  rcases k with _ | _ | _ <;> rfl

theorem starved_after (k : Option (Option N)) : (after k).starved = noHead k := by
  rcases k with _ | _ | _ <;> rfl

theorem starved_le_one (p : Point N) : p.starved ≤ 1 := by
  have hle : ∀ k : Option (Option N), noHead k ≤ 1 := fun k => by
    rcases k with _ | _ | _
    · exact Nat.zero_le 1
    · exact le_rfl
    · exact Nat.zero_le 1
  cases p <;> first | exact Nat.zero_le 1 | exact le_rfl | exact hle _

theorem isSome_touches_le (p : Point N) : p.touches.isSome.toNat ≤ p.busy := by
  cases p <;> first | exact Nat.zero_le _ | exact le_rfl

end Point

variable {T N : Type*} [Fintype T] [DecidableEq T] [DecidableEq N]
  {initialBlockPool : List N} {place : N → Place} {l : List N} {s s' : BlockPool T N} {t : T}

/-- The blocks that are on their way. -/
def inTransit (place : N → Place) (s : BlockPool T N) : List N :=
  s.allocated.filter fun n => (place n).transit = true

namespace Inv

omit [DecidableEq T] in
theorem freeBlocks_eq (h : Inv initialBlockPool place l s) : s.freeBlocks = l := by
  apply walk_eq h.threaded
  apply (h.listed.nodup.subperm fun n hn => ?_).length_le
  rw [h.allocated.mem_iff, (h.listed.mem_iff n).mp hn]
  nofun

omit [DecidableEq T] in
theorem inTransit_roster (h : Inv initialBlockPool place l s) :
    Roster place (fun x => x.transit = true) (inTransit place s) :=
  h.allocated.filter fun _ hx => (Place.ne_of_transit hx).2.2.1

omit [DecidableEq T] in
theorem allocated_perm (h : Inv initialBlockPool place l s) :
    s.allocated.Perm (s.inUse ++ (s.freeBlocks ++
      (initialBlockPool.drop s.initialBlockPoolIndex ++ inTransit place s))) := by
  rw [h.freeBlocks_eq, List.perm_iff_count]
  intro n
  rw [List.count_append, List.count_append, List.count_append, h.allocated.count_eq,
    h.inUse.count_eq, h.listed.count_eq, h.initial.count_eq, h.inTransit_roster.count_eq]
  cases place n <;> rfl

omit [DecidableEq T] in
/-- A block on its way is had or read by some thread. -/
theorem exists_touches (h : Inv initialBlockPool place l s) {n : N}
    (hn : (place n).transit = true) : ∃ t, (s.points t).touches = some n := by
  by_cases hpending : place n = .pending
  · obtain ⟨t, ht⟩ := (tally_pos_iff _ _).mp (h.counts.pending n hpending)
    have hreads : (s.points t).reads = some n := by
      by_contra hne
      rw [Point.reading, if_neg hne] at ht
      exact ht.ne rfl
    refine ⟨t, ?_⟩
    cases hp : s.points t <;> rw [hp] at hreads <;> first | exact hreads | cases hreads
  · have howners : (place n).owners = 1 := by
      cases hplace : place n <;> rw [hplace] at hn hpending <;>
        first | rfl | exact absurd rfl hpending | cases hn
    have hpos : 0 < tally (Point.owning n) s.points := by
      rw [h.counts.owners, howners]
      exact Nat.one_pos
    obtain ⟨t, ht⟩ := (tally_pos_iff _ _).mp hpos
    have howned : (s.points t).owned.map Prod.fst = some n := by
      by_contra hne
      rw [Point.owning, if_neg hne] at ht
      exact ht.ne rfl
    refine ⟨t, ?_⟩
    rw [Point.touches, howned]
    rfl

omit [DecidableEq T] in
theorem inTransit_length_le (h : Inv initialBlockPool place l s) :
    (inTransit place s).length ≤ tally (fun p => p.touches.isSome.toNat) s.points := by
  rw [← List.toFinset_card_of_nodup h.inTransit_roster.nodup]
  apply card_le_tally
  intro n hn
  exact h.exists_touches ((h.inTransit_roster.mem_iff n).mp (List.mem_toFinset.mp hn))

end Inv

/-- Every allocated block is in one place: with one user, on the free list, in the array,
or on its way in a call, which has at most one. The reference count of a block on the list
is one as soon as no call is under way, and the assertion of `try_get` holds. -/
theorem blocks_of_run {labels : List (Label T N)} (h : initialBlockPool.Nodup)
    (hT : Fintype.card T < 2147483646)
    (hsize : initialBlockPool.length + Fintype.card T < 18446744073709551616)
    (hrun : run (step initialBlockPool) (init initialBlockPool) labels = some s) :
    s.allocated.Nodup ∧
      (∃ transit, s.allocated.Perm (s.inUse ++ (s.freeBlocks ++
        (initialBlockPool.drop s.initialBlockPoolIndex ++ transit))) ∧
        transit.length ≤ tally Point.busy s.points) ∧
      (∀ t n, s.points t = .tryTake n → s.freeListRefs n &&& SHOULD_BE_ON_FREELIST = 0) ∧
      ((∀ t, s.points t = .idle) →
        ∀ n, s.freeListRefs n = if n ∈ s.freeBlocks then 1 else 0) := by
  obtain ⟨place, l, hinv⟩ := valid_of_run h hT hsize hrun
  refine ⟨hinv.allocated.nodup, ⟨inTransit place s, hinv.allocated_perm, ?_⟩,
    fun t n hp => ?_, fun hidle n => ?_⟩
  · exact hinv.inTransit_length_le.trans
      (Finset.sum_le_sum fun t _ => Point.isSome_touches_le (s.points t))
  · have hplace : place n = .taken := hinv.counts.owned t n _ (by rw [hp]; rfl)
    have hrefs := hinv.counts.refs n
    have hle := readers_le s n
    rw [hplace] at hrefs
    change _ = 2 + _ at hrefs
    apply and_SHOULD_BE_ON_FREELIST
    omega
  · have hquiet : ∀ m, ¬ (place m).transit = true := fun m hm => by
      obtain ⟨t, ht⟩ := hinv.exists_touches hm
      rw [hidle t] at ht
      cases ht
    have hreaders : s.readers n = 0 := by
      rw [readers, tally_eq_zero_iff]
      intro t
      rw [hidle t]
      rfl
    have htransit := hquiet n
    rw [hinv.counts.refs n, hreaders, hinv.freeBlocks_eq]
    by_cases hmem : n ∈ l
    · rw [if_pos hmem, (hinv.listed.mem_iff n).mp hmem]
      rfl
    · rw [if_neg hmem]
      have hlisted := mt (hinv.listed.mem_iff n).mpr hmem
      cases hplace : place n <;> rw [hplace] at htransit hlisted <;>
        first | rfl | exact absurd rfl htransit | exact absurd rfl hlisted

/-- A thread reads the link of a block while another one takes the block and gives it back.
The first one puts it on the list for the other, and then makes a new block for itself. -/
def readWhileTaken : List (Label Bool ℕ) :=
  [.requisitionBlock true true, .step true, .step true, .addBlock true 10, .step true,
    .step true, .step true, .step true, .step true, .requisitionBlock true true, .step true,
    .step true, .step true, .step true, .requisitionBlock false true, .step false, .step false,
    .step false, .step false, .step false, .step false, .step false, .addBlock false 10,
    .step false, .step true, .step true, .step true, .step true, .step true, .step true,
    .step true, .create true (some 11)]

theorem exists_run_readWhileTaken :
    ∃ s, run (step [10]) (init [10]) readWhileTaken = some s :=
  Option.isSome_iff_exists.mp (by decide +kernel)

theorem blocks_readWhileTaken :
    ∃ s, run (step [10]) (init [10]) readWhileTaken = some s ∧ s.allocated.Nodup ∧
      (∃ transit, s.allocated.Perm (s.inUse ++ (s.freeBlocks ++
        (List.drop s.initialBlockPoolIndex [10] ++ transit))) ∧
        transit.length ≤ tally Point.busy s.points) ∧
      (∀ t n, s.points t = .tryTake n → s.freeListRefs n &&& SHOULD_BE_ON_FREELIST = 0) ∧
      ((∀ t, s.points t = .idle) →
        ∀ n, s.freeListRefs n = if n ∈ s.freeBlocks then 1 else 0) := by
  obtain ⟨s, hs⟩ := exists_run_readWhileTaken
  exact ⟨s, hs, blocks_of_run (List.nodup_singleton 10) (by simp) (by simp) hs⟩

/-! ### How much is allocated -/

/-- What an operation does to what is allocated, and to the threads that have found
nothing. -/
structure Searches (initialBlockPool : List N) (s s' : BlockPool T N) (t : T) (q : Point N) :
    Prop where
  points : s'.points = Function.update s.points t q
  allocated : s'.allocated = s.allocated
  index : s.initialBlockPoolIndex ≤ s'.initialBlockPoolIndex
  past : q.past = true →
    (s.points t).past = true ∨ initialBlockPool.length ≤ s'.initialBlockPoolIndex
  starved : q.starved ≤ (s.points t).starved ∨
    s.freeListHead = none ∧ (s.points t).past = true

omit [Fintype T] [DecidableEq N] in
theorem searches_of_eq {p q : Point N} (hp : s.points t = p)
    (hpoints : s'.points = Function.update s.points t q)
    (hallocated : s'.allocated = s.allocated)
    (hindex : s'.initialBlockPoolIndex = s.initialBlockPoolIndex)
    (hpast : q.past = true → p.past = true ∨ initialBlockPool.length ≤ s.initialBlockPoolIndex)
    (hstarved : q.starved ≤ p.starved ∨ s.freeListHead = none ∧ p.past = true) :
    Searches initialBlockPool s s' t q := by
  subst hp
  refine ⟨hpoints, hallocated, hindex.ge, ?_, hstarved⟩
  rw [hindex]
  exact hpast

theorem searches_of_advance (h : Inv initialBlockPool place l s)
    (hsize : initialBlockPool.length + Fintype.card T < 18446744073709551616)
    (hstep : s.advance initialBlockPool t = some s') :
    ∃ q, Searches initialBlockPool s s' t q := by
  unfold advance at hstep
  cases hp : s.points t with
  | idle | create =>
      rw [hp] at hstep
      cases hstep
  | add n =>
      rw [hp] at hstep
      cases hstep
      refine ⟨_, searches_of_eq hp rfl rfl rfl (fun hpast => ?_) (.inl ?_)⟩
      · split_ifs at hpast <;> cases hpast
      · split_ifs <;> exact Nat.zero_le _
  | addHead n k | addNext n head k | addRefs n head k =>
      rw [hp] at hstep
      cases hstep
      exact ⟨_, searches_of_eq hp rfl rfl rfl .inl (.inl le_rfl)⟩
  | addExchange n head k =>
      rw [hp] at hstep
      dsimp only at hstep
      split_ifs at hstep
      · cases hstep
        refine ⟨_, searches_of_eq hp rfl rfl rfl ?_ (.inl ?_)⟩
        · rw [Point.past_after]
          exact .inl
        · rw [Point.starved_after]
          exact le_rfl
      · cases hstep
        exact ⟨_, searches_of_eq hp rfl rfl rfl .inl (.inl le_rfl)⟩
  | addAgain n head k =>
      rw [hp] at hstep
      cases hstep
      refine ⟨_, searches_of_eq hp rfl rfl rfl ?_ (.inl ?_)⟩
      · split_ifs
        · exact .inl
        · rw [Point.past_after]
          exact .inl
      · split_ifs
        · exact le_rfl
        · rw [Point.starved_after]
          exact le_rfl
  | poolLoad =>
      rw [hp] at hstep
      dsimp only at hstep
      split_ifs at hstep with hfull
      · cases hstep
        exact ⟨_, searches_of_eq hp rfl rfl rfl (fun _ => .inr hfull) (.inl le_rfl)⟩
      · cases hstep
        exact ⟨_, searches_of_eq hp rfl rfl rfl nofun (.inl le_rfl)⟩
  | poolFetch =>
      have hindex := (h.wrap64_index hsize hp).ge
      rw [hp] at hstep
      dsimp only at hstep
      split at hstep
      · cases hstep
        exact ⟨_, rfl, rfl, (Nat.le_succ _).trans hindex, nofun, .inl (Nat.zero_le _)⟩
      · cases hstep
        have hlen := List.getElem?_eq_none_iff.mp ‹_›
        exact ⟨_, rfl, rfl, (Nat.le_succ _).trans hindex,
          fun _ => .inr ((hlen.trans (Nat.le_succ _)).trans hindex), .inl (Nat.zero_le _)⟩
  | tryHead =>
      rw [hp] at hstep
      cases hstep
      refine ⟨_, searches_of_eq hp rfl rfl rfl (fun _ => .inl rfl) ?_⟩
      cases hhead : s.freeListHead with
      | none => exact .inr ⟨rfl, rfl⟩
      | some n => exact .inl (Nat.zero_le _)
  | tryRefs n | tryNext n =>
      rw [hp] at hstep
      cases hstep
      exact ⟨_, searches_of_eq hp rfl rfl rfl .inl (.inl le_rfl)⟩
  | tryIncrement n v =>
      rw [hp] at hstep
      dsimp only at hstep
      split_ifs at hstep <;> cases hstep <;>
        exact ⟨_, searches_of_eq hp rfl rfl rfl (fun _ => .inl rfl) (.inl (Nat.zero_le _))⟩
  | tryExchange n next =>
      rw [hp] at hstep
      dsimp only at hstep
      split_ifs at hstep
      · cases hstep
        exact ⟨_, searches_of_eq hp rfl rfl rfl (fun _ => .inl rfl) (.inl (Nat.zero_le _))⟩
      · cases hstep
        refine ⟨_, searches_of_eq hp rfl rfl rfl (fun _ => .inl rfl) ?_⟩
        cases hhead : s.freeListHead with
        | none => exact .inr ⟨rfl, rfl⟩
        | some m => exact .inl (Nat.zero_le _)
  | tryTake n =>
      rw [hp] at hstep
      cases hstep
      exact ⟨_, searches_of_eq hp rfl rfl rfl nofun (.inl (Nat.zero_le _))⟩
  | tryRelease n head =>
      rw [hp] at hstep
      cases hstep
      refine ⟨_, searches_of_eq hp rfl rfl rfl (fun _ => .inl rfl) (.inl ?_)⟩
      split_ifs <;> cases head <;> exact le_rfl

theorem searches_or_create {label : Label T N} (h : Inv initialBlockPool place l s)
    (hsize : initialBlockPool.length + Fintype.card T < 18446744073709551616)
    (hstep : s.step initialBlockPool label = some s') :
    (∃ t q, Searches initialBlockPool s s' t q) ∨
      ∃ t block, s.points t = .create ∧
        s'.points = Function.update s.points t .idle ∧
        s'.allocated = block :: s.allocated ∧
        s'.initialBlockPoolIndex = s.initialBlockPoolIndex := by
  have hidle : ∀ {P : Prop}, false = true → P := fun h => Bool.noConfusion h
  cases label with
  | step t => exact .inl ⟨t, searches_of_advance h hsize hstep⟩
  | requisitionBlock t canAlloc =>
      simp only [step] at hstep
      split_ifs at hstep
      cases hstep
      exact .inl ⟨t, _, searches_of_eq rfl rfl rfl rfl hidle (.inl (Nat.zero_le _))⟩
  | addBlock t block =>
      simp only [step] at hstep
      split_ifs at hstep
      cases hstep
      exact .inl ⟨t, _, searches_of_eq rfl rfl rfl rfl hidle (.inl (Nat.zero_le _))⟩
  | create t block =>
      cases block with
      | none =>
          simp only [step] at hstep
          split_ifs at hstep
          cases hstep
          exact .inl ⟨t, _, searches_of_eq rfl rfl rfl rfl hidle (.inl (Nat.zero_le _))⟩
      | some block =>
          simp only [step] at hstep
          split_ifs at hstep with hp
          cases hstep
          exact .inr ⟨t, block, hp.1, rfl, rfl, rfl⟩

omit [DecidableEq T] in
/-- A thread that sees the free list empty sees that everything is in use or on its way. -/
theorem Inv.allocated_length_le_of_none (h : Inv initialBlockPool place l s)
    (hhead : s.freeListHead = none)
    (hindex : initialBlockPool.length ≤ s.initialBlockPoolIndex) :
    s.allocated.length ≤ s.inUse.length + Fintype.card T := by
  have hthreaded := h.threaded
  rw [hhead] at hthreaded
  have hnil : s.freeBlocks = [] := h.freeBlocks_eq.trans (eq_nil_of_threaded hthreaded)
  have htransit : (inTransit place s).length ≤ Fintype.card T :=
    h.inTransit_length_le.trans (tally_le_card fun u => Bool.toNat_le _)
  rw [h.allocated_perm.length_eq, hnil, List.drop_eq_nil_of_le hindex, List.length_append]
  exact Nat.add_le_add_left htransit _

/-- What the threads that have seen the list empty will still allocate is within the
bound. -/
structure Bounded (initialBlockPool : List N) (bound : ℕ) (s : BlockPool T N) : Prop where
  past : ∀ t, (s.points t).past = true → initialBlockPool.length ≤ s.initialBlockPoolIndex
  allocated : s.allocated.length + tally Point.starved s.points ≤
    max initialBlockPool.length (bound + 2 * Fintype.card T)

variable {bound : ℕ}

theorem Bounded.of_searches {q : Point N} (hb : Bounded initialBlockPool bound s)
    (h : Inv initialBlockPool place l s) (hinUse : s.inUse.length ≤ bound)
    (hs : Searches initialBlockPool s s' t q) : Bounded initialBlockPool bound s' := by
  refine ⟨fun u hu => ?_, ?_⟩
  · rw [hs.points] at hu
    by_cases heq : u = t
    · rw [heq, Function.update_self] at hu
      exact (hs.past hu).elim (fun hp => (hb.past t hp).trans hs.index) id
    · rw [Function.update_of_ne heq] at hu
      exact (hb.past u hu).trans hs.index
  · rw [hs.allocated]
    rcases hs.starved with hle | ⟨hhead, hpast⟩
    · have htally := tally_update Point.starved s.points t q
      have hallocated := hb.allocated
      rw [hs.points]
      omega
    · have hallocated := h.allocated_length_le_of_none hhead (hb.past t hpast)
      have hstarved : tally Point.starved s'.points ≤ Fintype.card T :=
        tally_le_card fun u => Point.starved_le_one _
      exact le_max_of_le_right (by omega)

theorem Bounded.of_step {label : Label T N} (hb : Bounded initialBlockPool bound s)
    (h : Inv initialBlockPool place l s)
    (hsize : initialBlockPool.length + Fintype.card T < 18446744073709551616)
    (hinUse : s.inUse.length ≤ bound) (hstep : s.step initialBlockPool label = some s') :
    Bounded initialBlockPool bound s' := by
  rcases searches_or_create h hsize hstep with
    ⟨t, q, hs⟩ | ⟨t, block, hp, hpoints, hallocated, hindex⟩
  · exact hb.of_searches h hinUse hs
  · refine ⟨fun u hu => ?_, ?_⟩
    · rw [hindex]
      refine hb.past u ?_
      rw [hpoints] at hu
      by_cases heq : u = t
      · rw [heq, hp]
        rfl
      · rwa [Function.update_of_ne heq] at hu
    -- the thread's own share of the bound pays for the block
    · have htally := tally_update Point.starved s.points t .idle
      have hbound := hb.allocated
      rw [hp] at htally
      change _ + 1 = _ + 0 at htally
      rw [hallocated, hpoints, List.length_cons]
      omega

/-- Where at most `bound` blocks are in use at a time, the pool does not grow beyond that
by more than two blocks for each thread, unless it was larger from the start. -/
theorem allocated_length_le {labels : List (Label T N)} (h : initialBlockPool.Nodup)
    (hT : Fintype.card T < 2147483646)
    (hsize : initialBlockPool.length + Fintype.card T < 18446744073709551616)
    (hinUse : Meets (step initialBlockPool) (fun s _ => s.inUse.length ≤ bound)
      (init initialBlockPool : BlockPool T N) labels)
    (hrun : run (step initialBlockPool) (init initialBlockPool) labels = some s) :
    s.allocated.length ≤ max initialBlockPool.length (bound + 2 * Fintype.card T) := by
  have hinit : Bounded initialBlockPool bound (init initialBlockPool : BlockPool T N) := by
    refine ⟨nofun, ?_⟩
    have hzero : tally Point.starved (init initialBlockPool : BlockPool T N).points = 0 := by
      rw [tally_eq_zero_iff]
      exact fun _ => rfl
    rw [hzero]
    exact le_max_left _ _
  obtain ⟨-, hbounded⟩ := run_invariant_of_meets
    (I := fun s => (∃ place l, Inv initialBlockPool place l s) ∧
      Bounded initialBlockPool bound s)
    (fun _ _ _ ⟨⟨_, _, hinv⟩, hb⟩ hle hstep =>
      ⟨hinv.of_step hT hsize hstep, hb.of_step hinv hsize hle hstep⟩)
    ⟨⟨_, _, inv_init h⟩, hinit⟩ hinUse hrun
  exact (Nat.le_add_right _ _).trans hbounded.allocated

theorem allocated_length_readWhileTaken :
    ∃ s, run (step [10]) (init [10]) readWhileTaken = some s ∧ s.allocated.length ≤ 5 := by
  obtain ⟨s, hs⟩ := exists_run_readWhileTaken
  have hinUse : Meets (step [10]) (fun s _ => s.inUse.length ≤ 1)
      (init [10] : BlockPool Bool ℕ) readWhileTaken := by decide +kernel
  exact ⟨s, hs, allocated_length_le (List.nodup_singleton 10) (by simp) (by simp) hinUse hs⟩

/-! ### Teardown -/

theorem mem_allocated_of_step {label : Label T N} {n : N} (h : Inv initialBlockPool place l s)
    (hsize : initialBlockPool.length + Fintype.card T < 18446744073709551616)
    (hstep : s.step initialBlockPool label = some s') (hn : n ∈ s.allocated) :
    n ∈ s'.allocated := by
  rcases searches_or_create h hsize hstep with
    ⟨t, q, hs⟩ | ⟨t, block, -, -, hallocated, -⟩
  · rw [hs.allocated]
    exact hn
  · rw [hallocated]
    exact List.mem_cons_of_mem block hn

omit [DecidableEq T] in
theorem Inv.inTransit_eq_nil (h : Inv initialBlockPool place l s)
    (hidle : ∀ t, s.points t = .idle) : inTransit place s = [] := by
  have hle := h.inTransit_length_le
  have hzero : tally (fun p : Point N => p.touches.isSome.toNat) s.points = 0 := by
    rw [tally_eq_zero_iff]
    intro t
    rw [hidle t]
    rfl
  rw [hzero] at hle
  exact List.eq_nil_of_length_eq_zero (Nat.le_zero.mp hle)

/-- Once no call is under way and every block has been given back, the destructor frees
each block that was allocated, and frees it once. -/
theorem destruct_perm_of_run {labels : List (Label T N)} (h : initialBlockPool.Nodup)
    (hT : Fintype.card T < 2147483646)
    (hsize : initialBlockPool.length + Fintype.card T < 18446744073709551616)
    (hrun : run (step initialBlockPool) (init initialBlockPool) labels = some s)
    (hidle : ∀ t, s.points t = .idle) (hinUse : s.inUse = []) :
    (s.destruct initialBlockPool).Perm s.allocated := by
  obtain ⟨⟨place, l, hinv⟩, hpool⟩ := run_invariant
    (I := fun s => (∃ place l, Inv initialBlockPool place l s) ∧
      ∀ n ∈ initialBlockPool, n ∈ s.allocated)
    (fun _ _ _ hI hstep => hI.1.elim fun _ hI' => hI'.elim fun _ hinv =>
      ⟨hinv.of_step hT hsize hstep,
        fun n hn => mem_allocated_of_step hinv hsize hstep (hI.2 n hn)⟩)
    ⟨⟨_, _, inv_init h⟩, fun n hn => hn⟩ hrun
  have hperm := hinv.allocated_perm
  have hfree : s.freeBlocks.Nodup := hinv.freeBlocks_eq ▸ hinv.listed.nodup
  rw [hinUse, hinv.inTransit_eq_nil hidle, List.nil_append, List.append_nil] at hperm
  have hnodup : (s.destruct initialBlockPool).Nodup := by
    refine List.nodup_append.mpr ⟨hfree.filter _, h, fun n hn m hm heq => ?_⟩
    rw [List.mem_filter, decide_eq_true_iff] at hn
    exact hn.2 (heq ▸ hm)
  refine (List.perm_ext_iff_of_nodup hnodup hinv.allocated.nodup).mpr fun n => ?_
  rw [destruct, List.mem_append, List.mem_filter, decide_eq_true_iff]
  constructor
  · rintro (⟨hn, -⟩ | hn)
    · exact hperm.mem_iff.mpr (List.mem_append_left _ hn)
    · exact hpool n hn
  · intro hn
    by_cases hmem : n ∈ initialBlockPool
    · exact .inr hmem
    · rcases List.mem_append.mp (hperm.mem_iff.mp hn) with hn | hn
      · exact .inl ⟨hn, hmem⟩
      · exact absurd (List.mem_of_mem_drop hn) hmem

def givenBack : List (Label Bool ℕ) :=
  readWhileTaken ++ [.addBlock true 11, .step true, .step true, .step true, .step true,
    .step true]

theorem destruct_givenBack :
    ∃ s, run (step [10]) (init [10]) givenBack = some s ∧
      (s.destruct [10]).Perm s.allocated := by
  obtain ⟨s, hs⟩ : ∃ s, run (step [10]) (init [10]) givenBack = some s :=
    Option.isSome_iff_exists.mp (by decide +kernel)
  have hpoints : (run (step [10]) (init [10]) givenBack).map
      (fun s => (s.points true, s.points false, s.inUse)) = some (.idle, .idle, []) := by
    decide +kernel
  rw [hs, Option.map_some, Option.some_inj] at hpoints
  obtain ⟨htrue, hpoints⟩ := Prod.mk.inj hpoints
  obtain ⟨hfalse, hinUse⟩ := Prod.mk.inj hpoints
  refine ⟨s, hs, destruct_perm_of_run (List.nodup_singleton 10) (by simp) (by simp) hs
    (fun t => ?_) hinUse⟩
  cases t
  · exact hfalse
  · exact htrue

end BlockPool

end Moodycamel

end Vendored

end Async

end Kclpp
