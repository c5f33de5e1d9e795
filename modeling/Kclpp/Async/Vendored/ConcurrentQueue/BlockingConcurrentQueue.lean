import Kclpp.Async.Vendored.ConcurrentQueue.Calls

/-!
# `BlockingConcurrentQueue`

A queue for any number of threads, with a semaphore beside it: an `enqueue` puts its
items into the inner queue and then signals their number, and a `dequeue` first acquires
tokens from the semaphore and then looks into the inner queue until it has found as many
items. The inner queue is taken for a bag: a look into it may come back with less than
there is. An `enqueue` has less than `2^31` items, which is what the semaphore can signal
at once.

Each token stands for an item. So a thread that has a token finds its item, and the
threads do not sleep while there is one for them.
-/

namespace Kclpp

namespace Async

namespace Vendored

namespace Moodycamel

open Parties Transition MpmcSema

/-- What a thread does at the queue. -/
inductive Job where
  | idle
  | signalling
  | waiting
  | fetching (left : ℕ)
  deriving DecidableEq, Repr

namespace Job

/-- The items that the thread has tokens for and is still to find. -/
def left : Job → ℕ
  | .fetching left => left
  | _ => 0

def kind : Job → Kind
  | .idle | .fetching _ => .rest
  | .signalling => .signal
  | .waiting => .wait

end Job

/-- The queue with its threads, and what has been put in and what has been found. -/
structure BlockingConcurrentQueue (α T : Type*) where
  inner : Multiset α := 0
  sema : MpmcSema.System T
  jobs : T → Job
  enqueued : Multiset α := 0
  dequeued : Multiset α := 0

namespace BlockingConcurrentQueue

variable {α T : Type*}

def createNew (α T : Type*) : BlockingConcurrentQueue α T where
  sema := MpmcSema.createNew T 0
  jobs := fun _ => .idle

inductive Label (α T : Type*) where
  | enqueue (t : T) (items : Multiset α)
  | dequeue (t : T) (request : MpmcSema.Request)
  | sema (l : MpmcSema.Label T)
  | fetch (t : T) (items : Multiset α)

/-- The conversion to `int` does not cut off what is signalled. -/
def Label.Small : Label α T → Prop
  | .enqueue _ items => items.card < 2147483648
  | _ => True

def afterCall (job : Job) (p : Point) : Job :=
  match p with
  | .returned 0 | .idle => .idle
  | .returned acquired => .fetching acquired
  | _ => job

variable [DecidableEq T] [DecidableEq α]

def step (s : BlockingConcurrentQueue α T) :
    Label α T → Option (BlockingConcurrentQueue α T)
  | .enqueue t items =>
      if s.jobs t = .idle then
        (s.sema.step (.signal t items.card)).map fun sema =>
          { s with
            inner := s.inner + items
            enqueued := s.enqueued + items
            sema := sema
            jobs := Function.update s.jobs t .signalling }
      else none
  | .dequeue t request =>
      if s.jobs t = .idle then
        (s.sema.step (.call t request)).map fun sema =>
          { s with sema := sema, jobs := Function.update s.jobs t .waiting }
      else none
  | .sema l =>
      if l.Inside then
        (s.sema.step l).map fun sema =>
          { s with
            sema := sema
            jobs := Function.update s.jobs l.thread
              (afterCall (s.jobs l.thread) (sema.points l.thread)) }
      else none
  | .fetch t items =>
      match s.jobs t with
      | .fetching left =>
          if items ≤ s.inner ∧ items.card ≤ left then
            some { s with
              inner := s.inner - items
              dequeued := s.dequeued + items
              jobs := Function.update s.jobs t
                (if left = items.card then .idle else .fetching (left - items.card)) }
          else none
      | _ => none

end BlockingConcurrentQueue

theorem afterCall_of_kind (job : Job) {p : Point} (h : p.kind ≠ .rest) :
    BlockingConcurrentQueue.afterCall job p = job ∧ p.result = 0 := by
  cases p with
  | idle => exact absurd rfl h
  | returned acquired => exact absurd rfl h
  | _ => exact ⟨rfl, rfl⟩

theorem afterCall_spec {job : Job} {p p' : Point} (hkind : p.kind = job.kind)
    (hfollows : p.Follows p') :
    job.left = 0 ∧ p'.kind = (BlockingConcurrentQueue.afterCall job p').kind ∧
      (BlockingConcurrentQueue.afterCall job p').left = p'.result := by
  rcases hfollows with ⟨hwait, hwait' | ⟨acquired, rfl⟩⟩ | ⟨hsignal, hsignal' | rfl⟩
  · have hne : p'.kind ≠ .rest := by rw [hwait']; exact Kind.noConfusion
    obtain ⟨hafter, hresult⟩ := afterCall_of_kind job hne
    rw [hafter, hresult, hwait', ← hkind, hwait]
    cases job with
    | fetching => exact absurd (hwait.symm.trans hkind) Kind.noConfusion
    | _ => exact ⟨rfl, rfl, rfl⟩
  · cases job with
    | fetching => exact absurd (hwait.symm.trans hkind) Kind.noConfusion
    | _ => cases acquired <;> exact ⟨rfl, rfl, rfl⟩
  · have hne : p'.kind ≠ .rest := by rw [hsignal']; exact Kind.noConfusion
    obtain ⟨hafter, hresult⟩ := afterCall_of_kind job hne
    rw [hafter, hresult, hsignal', ← hkind, hsignal]
    cases job with
    | fetching => exact absurd (hsignal.symm.trans hkind) Kind.noConfusion
    | _ => exact ⟨rfl, rfl, rfl⟩
  · cases job with
    | fetching => exact absurd (hsignal.symm.trans hkind) Kind.noConfusion
    | _ => exact ⟨rfl, rfl, rfl⟩

namespace BlockingConcurrentQueue

variable {α T : Type*} [Fintype T]

structure Inv (s : BlockingConcurrentQueue α T) : Prop where
  laws : s.sema.Laws 0
  kind : ∀ t, (s.sema.points t).kind = (s.jobs t).kind
  items : s.enqueued = s.inner + s.dequeued
  put : s.enqueued.card = s.sema.signals.sum + tally Point.toSignal s.sema.points
  got : s.sema.answers.sum = s.dequeued.card + tally Job.left s.jobs

theorem createNew_inv : (createNew α T).Inv where
  laws := System.createNew_laws 0
  kind _ := rfl
  items := rfl
  put := by simp [createNew, MpmcSema.createNew, tally_const, Point.toSignal]
  got := by simp [createNew, MpmcSema.createNew, tally_const, Job.left]

/-- The items in the queue are those that are promised to threads that are looking for
them, those that tokens are there for, and those that are still to be signalled; a
deadline that the kernel has refused is a promise without an item. -/
theorem Inv.inner_card_eq {s : BlockingConcurrentQueue α T} (h : s.Inv) :
    s.inner.card + s.sema.invalid = tally Job.left s.jobs +
      tally Point.holding s.sema.points + s.sema.available +
        tally Point.toSignal s.sema.points := by
  have hitems := congrArg Multiset.card h.items
  rw [Multiset.card_add] at hitems
  have hput := h.put
  have hgot := h.got
  have havailable := h.laws.available_eq
  omega

variable [DecidableEq T]

theorem Inv.of_begin {s s' : BlockingConcurrentQueue α T} (h : s.Inv) {t : T} {p : Point}
    {job : Job} (hidle : s.jobs t = .idle) (hmoves : System.Moves t s.sema (s.sema.goTo t p))
    (hsema : s'.sema = s.sema.goTo t p) (hjobs : s'.jobs = Function.update s.jobs t job)
    (hkind : p.kind = job.kind) (hleft : job.left = 0)
    (hitems : s'.enqueued = s'.inner + s'.dequeued)
    (hput : s'.enqueued.card = s.enqueued.card + p.toSignal)
    (hdequeued : s'.dequeued = s.dequeued) : s'.Inv := by
  have hself : (s.sema.goTo t p).points t = p := Function.update_self _ _ _
  have hsignal := tally_of_others Point.toSignal hmoves.others
  have hjob := tally_update Job.left s.jobs t job
  have hrest : (s.sema.points t).toSignal = 0 := by
    have hkind := h.kind t
    rw [hidle] at hkind
    cases hpoint : s.sema.points t with
    | signal count =>
        rw [hpoint] at hkind
        exact absurd hkind Kind.noConfusion
    | _ => rfl
  rw [hself, hrest] at hsignal
  rw [hidle, hleft] at hjob
  change _ + 0 = _ at hjob
  refine ⟨?_, fun u => ?_, hitems, ?_, ?_⟩
  · rw [hsema]
    exact h.laws.of_moves hmoves
  · rw [hsema, hjobs]
    by_cases hu : u = t
    · rw [hu, hself, Function.update_self]
      exact hkind
    · rw [hmoves.others u hu, Function.update_of_ne hu]
      exact h.kind u
  · have hput' := h.put
    have hsame : (s.sema.goTo t p).signals = s.sema.signals := rfl
    rw [hsema, hput, hsame]
    omega
  · have hgot := h.got
    have hsame : (s.sema.goTo t p).answers = s.sema.answers := rfl
    rw [hsema, hsame, hdequeued, hjobs]
    omega

theorem Inv.of_sema {s : BlockingConcurrentQueue α T} (h : s.Inv) {l : MpmcSema.Label T}
    {sema : MpmcSema.System T} (hinside : l.Inside) (hstep : s.sema.step l = some sema) :
    ({ s with
      sema := sema
      jobs := Function.update s.jobs l.thread
        (afterCall (s.jobs l.thread) (sema.points l.thread)) } :
      BlockingConcurrentQueue α T).Inv := by
  have hsmall : l.Small := by
    cases l with
    | signal t count => exact hinside.elim
    | _ => trivial
  have hmoves := System.moves_of_step h.laws.sound hsmall hstep
  have hproceeds := System.proceeds_of_step hinside hstep
  obtain ⟨hleft, hkind, hresult⟩ :=
    afterCall_spec (h.kind l.thread) hproceeds.follows
  have hsignal := tally_of_others Point.toSignal hmoves.others
  have hjob := tally_update Job.left s.jobs l.thread
    (afterCall (s.jobs l.thread) (sema.points l.thread))
  rw [hleft, hresult] at hjob
  refine ⟨h.laws.of_moves hmoves, fun u => ?_, h.items, ?_, ?_⟩
  · dsimp only
    by_cases hu : u = l.thread
    · rw [hu, Function.update_self]
      exact hkind
    · rw [hmoves.others u hu, Function.update_of_ne hu]
      exact h.kind u
  · have hput := h.put
    have hsignals := hproceeds.signals
    dsimp only
    omega
  · have hgot := h.got
    have hanswers := hproceeds.answers
    dsimp only
    omega

variable [DecidableEq α]

theorem Inv.of_fetch {s : BlockingConcurrentQueue α T} (h : s.Inv) {t : T} {left : ℕ}
    {items : Multiset α} (hjob : s.jobs t = .fetching left) (hle : items ≤ s.inner)
    (hcard : items.card ≤ left) :
    ({ s with
      inner := s.inner - items
      dequeued := s.dequeued + items
      jobs := Function.update s.jobs t
        (if left = items.card then .idle else .fetching (left - items.card)) } :
      BlockingConcurrentQueue α T).Inv := by
  have htally := tally_update Job.left s.jobs t
    (if left = items.card then .idle else .fetching (left - items.card))
  refine ⟨h.laws, fun u => ?_, ?_, h.put, ?_⟩
  · dsimp only
    by_cases hu : u = t
    · have hkind := h.kind t
      rw [hjob] at hkind
      rw [hu, Function.update_self, hkind]
      split_ifs <;> rfl
    · rw [Function.update_of_ne hu]
      exact h.kind u
  · dsimp only
    rw [h.items, add_comm s.dequeued, ← add_assoc, tsub_add_cancel_of_le hle]
  · have hgot := h.got
    have hleft : (if left = items.card then Job.idle
        else .fetching (left - items.card)).left = left - items.card := by
      split_ifs with heq
      · rw [heq, Nat.sub_self]
        rfl
      · rfl
    rw [hleft, hjob, Job.left] at htally
    dsimp only
    rw [Multiset.card_add]
    omega

theorem Inv.of_step {s s' : BlockingConcurrentQueue α T} (h : s.Inv) {l : Label α T}
    (hsmall : l.Small) (hstep : s.step l = some s') : s'.Inv := by
  cases l with
  | enqueue t items =>
      simp only [step] at hstep
      split_ifs at hstep with hidle
      have hrest : (s.sema.points t).AtRest := by
        rw [Point.atRest_iff, h.kind, hidle]
        rfl
      rw [System.step, if_pos hrest] at hstep
      cases hstep
      refine h.of_begin (p := .signal items.card) hidle
        (System.moves_begin hrest hsmall rfl rfl rfl) rfl rfl rfl rfl ?_ ?_ rfl
      · dsimp only
        rw [h.items, add_right_comm]
      · exact Multiset.card_add _ _
  | dequeue t request =>
      simp only [step] at hstep
      split_ifs at hstep with hidle
      have hrest : (s.sema.points t).AtRest := by
        rw [Point.atRest_iff, h.kind, hidle]
        rfl
      rw [System.step, if_pos hrest] at hstep
      cases hstep
      exact h.of_begin (p := .tryLoad request) hidle
        (System.moves_begin hrest trivial rfl rfl rfl) rfl rfl rfl rfl h.items rfl rfl
  | sema l =>
      simp only [step] at hstep
      split_ifs at hstep with hinside
      obtain ⟨sema, hsema, rfl⟩ := Option.map_eq_some_iff.mp hstep
      exact h.of_sema hinside hsema
  | fetch t items =>
      simp only [step] at hstep
      cases hjob : s.jobs t with
      | fetching left =>
          rw [hjob] at hstep
          dsimp only at hstep
          by_cases hfound : items ≤ s.inner ∧ items.card ≤ left
          · rw [if_pos hfound] at hstep
            cases hstep
            exact h.of_fetch hjob hfound.1 hfound.2
          · rw [if_neg hfound] at hstep
            cases hstep
      | _ =>
          rw [hjob] at hstep
          cases hstep

theorem inv_of_run {ls : List (Label α T)} {s : BlockingConcurrentQueue α T}
    (hsmall : ∀ l ∈ ls, l.Small) (hr : run step (createNew α T) ls = some s) : s.Inv :=
  run_invariant_of_meets (fun _ _ _ h hl hstep => h.of_step hl hstep) createNew_inv
    (meets_of_labels step hsmall _) hr

/-- In every run: what is in the queue is what has been put in and not been found. There
are as many items as threads look for, and as many more as there are tokens in the
semaphore, at its calls and on their way to it. But for each deadline that the kernel
has refused, a thread looks for an item that has not been put in. -/
theorem inner_of_run {ls : List (Label α T)} {s : BlockingConcurrentQueue α T}
    (hsmall : ∀ l ∈ ls, l.Small) (hr : run step (createNew α T) ls = some s) :
    s.enqueued = s.inner + s.dequeued ∧
      s.inner.card + s.sema.invalid = tally Job.left s.jobs +
        tally Point.holding s.sema.points + s.sema.available +
          tally Point.toSignal s.sema.points :=
  ⟨(inv_of_run hsmall hr).items, (inv_of_run hsmall hr).inner_card_eq⟩

/-- An item is put in, and another thread has a token for it. -/
def handOver : List (Label ℕ Bool) :=
  [.enqueue true {7}, .sema (.step true), .dequeue false tryWait, .sema (.step false),
    .sema (.step false)]

theorem inner_handOver :
    ∃ s, run step (createNew ℕ Bool) handOver = some s ∧
      s.enqueued = s.inner + s.dequeued ∧
        s.inner.card + s.sema.invalid = tally Job.left s.jobs +
          tally Point.holding s.sema.points + s.sema.available +
            tally Point.toSignal s.sema.points := by
  obtain ⟨s, hs⟩ : ∃ s, run step (createNew ℕ Bool) handOver = some s :=
    Option.isSome_iff_exists.mp rfl
  refine ⟨s, hs, inner_of_run ?_ hs⟩
  simp [handOver, Label.Small]

def Asleep (s : BlockingConcurrentQueue α T) (t : T) : Prop :=
  s.jobs t = .waiting ∧ ∃ request, s.sema.points t = .semaWait request

/-- In every run: where all threads are idle or asleep, one of them is asleep and the
kernel has no wake-up for it, there is nothing in the queue. -/
theorem inner_eq_zero_of_run {ls : List (Label α T)} {s : BlockingConcurrentQueue α T}
    (hsmall : ∀ l ∈ ls, l.Small) (hr : run step (createNew α T) ls = some s)
    (hall : ∀ t, s.jobs t = .idle ∨ s.Asleep t) {t : T} (hasleep : s.Asleep t)
    (hkernel : s.sema.kernel = 0) : s.inner = 0 := by
  have h := inv_of_run hsmall hr
  have hpoint : ∀ u, (s.sema.points u).AtRest ∨
      ∃ request, s.sema.points u = .semaWait request := by
    intro u
    rcases hall u with hidle | ⟨-, hwait⟩
    · refine .inl ?_
      rw [Point.atRest_iff, h.kind, hidle]
      rfl
    · exact .inr hwait
  have hleft : tally Job.left s.jobs = 0 := by
    rw [tally_eq_zero_iff]
    intro u
    rcases hall u with hidle | ⟨hwaiting, -⟩
    · rw [hidle]
      rfl
    · rw [hwaiting]
      rfl
  have hholding : tally Point.holding s.sema.points = 0 := by
    rw [tally_eq_zero_iff]
    intro u
    rcases hpoint u with hrest | ⟨request, hwait⟩
    · exact hrest.holding
    · rw [hwait]
      rfl
  have hsignal : tally Point.toSignal s.sema.points = 0 := by
    rw [tally_eq_zero_iff]
    intro u
    rcases hpoint u with hrest | ⟨request, hwait⟩
    · exact hrest.toSignal
    · rw [hwait]
      rfl
  have havailable : s.sema.available = 0 := by
    obtain ⟨-, request, hwait⟩ := hasleep
    refine h.laws.available_eq_zero (t := t) ?_ hkernel fun u => ?_
    · rw [hwait]
      exact Nat.one_pos
    · rcases hpoint u with hrest | ⟨request', hwait'⟩
      · exact hrest.posting
      · rw [hwait']
        rfl
  have hcard := h.inner_card_eq
  rw [hleft, hholding, hsignal, havailable] at hcard
  exact Multiset.card_eq_zero.mp (Nat.eq_zero_of_add_eq_zero_right hcard)

omit [Fintype T] in
theorem step_of_advance {s : BlockingConcurrentQueue α T} {t : T}
    {sema : MpmcSema.System T} {p : Point} (hkind : p.kind ≠ .rest)
    (hadvance : s.sema.advance t = some (sema.goTo t p)) :
    s.step (.sema (.step t)) = some { s with sema := sema.goTo t p } := by
  have hinside : (MpmcSema.Label.step t).Inside := trivial
  have hself : (sema.goTo t p).points t = p := Function.update_self _ _ _
  rw [step, if_pos hinside, System.step, hadvance, Option.map_some]
  dsimp only [MpmcSema.Label.thread]
  rw [hself, (afterCall_of_kind _ hkind).1, Function.update_eq_self]

omit [Fintype T] in
theorem run_spin {s : BlockingConcurrentQueue α T} {t : T} {request : MpmcSema.Request} {left : ℕ}
    (hpoint : s.sema.points t = .spin request left) (hcount : s.sema.count ≤ 0) :
    run step s (List.replicate left (.sema (.step t))) =
      some { s with sema := s.sema.goTo t (.spin request 0) } := by
  induction left generalizing s with
  | zero =>
      rw [List.replicate_zero, run_nil, System.goTo, ← hpoint, Function.update_eq_self]
  | succ left ih =>
      have hadvance : s.sema.advance t = some (s.sema.goTo t (.spin request left)) := by
        rw [System.advance, hpoint]
        exact congrArg (fun p => some (s.sema.goTo t p)) (if_neg hcount.not_gt)
      have hself : (s.sema.goTo t (.spin request left)).points t = .spin request left :=
        Function.update_self _ _ _
      have hrest := ih (s := { s with sema := s.sema.goTo t (.spin request left) }) hself
        hcount
      rw [List.replicate_succ, run_cons, step_of_advance Kind.noConfusion hadvance,
        Option.bind_some, hrest]
      dsimp only [System.goTo]
      rw [Function.update_idem]

def fallsAsleep (t : T) : List (Label α T) :=
  List.replicate 10000 (.sema (.step t)) ++ [.sema (.step t), .sema (.step t)]

omit [Fintype T] in
theorem run_fallsAsleep {s : BlockingConcurrentQueue α T} {t : T} {request : MpmcSema.Request}
    (hpoint : s.sema.points t = .spin request 10000) (hjob : s.jobs t = .waiting)
    (hcount : s.sema.count ≤ 0) :
    ∃ s', run step s (fallsAsleep t) = some s' ∧ s'.Asleep t ∧
      s'.sema.kernel = s.sema.kernel ∧ s'.jobs = s.jobs ∧ s'.dequeued = s.dequeued := by
  let spun := s.sema.goTo t (.spin request 0)
  have hspun : spun.advance t = some (spun.goTo t (.fetchSub request)) := by
    have hself : spun.points t = .spin request 0 := Function.update_self _ _ _
    rw [System.advance, hself]
  let ready := spun.goTo t (.fetchSub request)
  have hready : ready.advance t =
      some ({ ready with count := ready.count - 1 }.goTo t (.semaWait request)) := by
    have hself : ready.points t = .fetchSub request := Function.update_self _ _ _
    rw [System.advance, hself]
    exact if_neg hcount.not_gt
  refine ⟨{ s with sema := { ready with count := ready.count - 1 }.goTo t (.semaWait request) },
    ?_, ⟨hjob, request, Function.update_self _ _ _⟩, rfl, rfl, rfl⟩
  rw [fallsAsleep, run_append, run_spin hpoint hcount, Option.bind_some, run_cons,
    step_of_advance (s := { s with sema := spun }) Kind.noConfusion hspun,
    Option.bind_some, run_cons,
    step_of_advance (s := { s with sema := ready }) Kind.noConfusion hready]
  rfl

/-- An item is put in and found, and the consumer comes back for another. -/
def comesBack : List (Label ℕ Bool) :=
  [.enqueue true {7}, .sema (.step true), .dequeue false (wait 1000), .sema (.step false),
    .sema (.step true), .sema (.step false), .fetch false {7},
    .dequeue false (wait 1000), .sema (.step false)]

def sleeper : List (Label ℕ Bool) := comesBack ++ fallsAsleep false

theorem small_of_mem_sleeper : ∀ l ∈ sleeper, l.Small := by
  intro l hl
  rcases List.mem_append.mp hl with hl | hl
  · have hall : ∀ l ∈ comesBack, l.Small := by simp [comesBack, Label.Small]
    exact hall l hl
  · rcases List.mem_append.mp hl with hl | hl
    · rw [List.eq_of_mem_replicate hl]
      trivial
    · rcases List.mem_pair.mp hl with rfl | rfl <;> trivial

theorem inner_eq_zero_sleeper :
    ∃ s, run step (createNew ℕ Bool) sleeper = some s ∧ s.dequeued = {7} ∧
      s.Asleep false ∧ s.inner = 0 := by
  have hmap : (run step (createNew ℕ Bool) comesBack).map (fun s =>
        (s.sema.points false, s.jobs false, s.jobs true, s.sema.count, s.sema.kernel,
          s.dequeued)) =
      some (.spin (wait 1000) 10000, .waiting, .idle, 0, 0, {7}) := rfl
  obtain ⟨s, hs, hmap⟩ := Option.map_eq_some_iff.mp hmap
  simp only [Prod.mk.injEq] at hmap
  obtain ⟨hpoint, hjob, hidle, hcount, hkernel, hdequeued⟩ := hmap
  obtain ⟨s', hs', hasleep, hkernel', hjobs, hdequeued'⟩ :=
    run_fallsAsleep hpoint hjob hcount.le
  have hr : run step (createNew ℕ Bool) sleeper = some s' := by
    rw [sleeper, run_append, hs, Option.bind_some, hs']
  have hall : ∀ t, s'.jobs t = .idle ∨ s'.Asleep t := by
    intro t
    cases t
    · exact .inr hasleep
    · exact .inl ((congrFun hjobs true).trans hidle)
  exact ⟨s', hr, hdequeued'.trans hdequeued, hasleep,
    inner_eq_zero_of_run small_of_mem_sleeper hr hall hasleep (hkernel'.trans hkernel)⟩

end BlockingConcurrentQueue

end Moodycamel

end Vendored

end Async

end Kclpp
