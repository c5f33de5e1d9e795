import Kclpp.AsyncGroup
import Kclpp.Containers.TakenOut
import Kclpp.Transition.Run

/-!
# The leader of a group

The participants of a group run in threads of their own. Each of them posts, then looks
whether the group is done, and if it is tries to become the leader. `becomeLeader` is a
loop of two atomic operations, a load and a compare-and-exchange, between which the
others may come. Whatever their order, the participant that posts last finds the group
done, and one of those that find it done becomes the leader: `electsOne_of_run`.
-/

open TakenOut

open Transition (run Meets run_invariant meets_of_invariant run_cons run_nil
  run_length_le_of_lt exists_run_to_final)

namespace Kclpp

namespace AsyncGroup

/-- `leaderChosen_.compare_exchange_strong`. -/
def compareExchange (group : AsyncGroup) (expected desired : Bool) : Bool × AsyncGroup :=
  if group.leaderChosen = expected then (true, { group with leaderChosen := desired })
  else (false, group)

/-- Where a participant is: it has not posted, it has, it has found the group done and
is about to load `leaderChosen_`, it has loaded `false` and is about to exchange it, it
has found the group not done, or `becomeLeader` has returned. -/
inductive Participant where
  | working
  | posted
  | foundDone
  | expecting
  | left
  | returned (leader : Bool)
  deriving DecidableEq, Repr

namespace Participant

def hasPosted (participant : Participant) : Bool := participant ≠ .working

/-- It has seen the group done. -/
def hasFoundDone : Participant → Bool
  | .foundDone | .expecting | .returned _ => true
  | _ => false

/-- It may still become the leader, if the group is done. -/
def isCandidate : Participant → Bool
  | .posted | .foundDone | .expecting => true
  | _ => false

def hasFinished : Participant → Bool
  | .left | .returned _ => true
  | _ => false

def isLeader (participant : Participant) : Bool := participant = .returned true

theorem hasPosted_of_hasFinished {p : Participant} (h : p.hasFinished = true) :
    p.hasPosted = true := by
  cases p with
  | left | returned => rfl
  | _ => cases h

theorem isCandidate_of_hasFinished {p : Participant} (h : p.hasFinished = true) :
    p.isCandidate = false := by
  cases p with
  | left | returned => rfl
  | _ => cases h

end Participant

open Participant

end AsyncGroup

open AsyncGroup Participant

/-- A group with its participants. -/
structure Election where
  group : AsyncGroup
  participants : List Participant
  deriving DecidableEq, Repr

namespace Election

/-- A new group of `n`, of whose participants none has posted. -/
def createNew (n : ℕ) : Election where
  group := { target := n }
  participants := List.replicate n .working

/-- The next atomic operation of a participant; `none` where it has finished. -/
def step (s : Election) (i : ℕ) : Option Election :=
  match s.participants[i]? with
  | some .working => some ⟨s.group.post, s.participants.set i .posted⟩
  | some .posted =>
      some { s with
        participants := s.participants.set i (if s.group.isDone then .foundDone else .left) }
  | some .foundDone =>
      some { s with
        participants := s.participants.set i
          (if s.group.leaderChosen then .returned false else .expecting) }
  | some .expecting =>
      let exchanged := s.group.compareExchange false true
      some ⟨exchanged.2,
        s.participants.set i (if exchanged.1 then .returned true else .foundDone)⟩
  | _ => none

def Finished (s : Election) : Prop := ∀ p ∈ s.participants, p.hasFinished = true

def AllPosted (s : Election) : Prop := ∀ p ∈ s.participants, p.hasPosted = true

/-- In this step `becomeLeader` returns `true`. -/
def Elects (s : Election) (i : ℕ) : Prop :=
  ∃ s', s.step i = some s' ∧ s'.participants[i]? = some (.returned true)

/-- What is so at any time. As long as nobody is the leader of a group that is done,
somebody may still become it. -/
structure Sound (n : ℕ) (s : Election) : Prop where
  length : s.participants.length = n
  target : s.group.target = n
  counter : s.group.counter = s.participants.countP hasPosted
  foundDone : ∀ p ∈ s.participants, p.hasFoundDone = true → s.group.counter = n
  leaders : s.participants.countP isLeader = if s.group.leaderChosen then 1 else 0
  candidate : s.group.counter = n → s.group.leaderChosen = false →
    ∃ p ∈ s.participants, p.isCandidate = true

theorem sound_createNew {n : ℕ} (hn : 1 ≤ n) : (createNew n).Sound n where
  length := List.length_replicate
  target := rfl
  counter := by
    rw [createNew, List.countP_replicate]
    rfl
  foundDone p hp := by
    rw [List.eq_of_mem_replicate hp]
    exact fun h => nomatch h
  leaders := by
    rw [createNew, List.countP_replicate]
    rfl
  candidate h := by
    have hzero : 0 = n := h
    omega

inductive Stepped (s : Election) (i : ℕ) : Election → Prop where
  | posts (hi : s.participants[i]? = some .working) :
      Stepped s i ⟨s.group.post, s.participants.set i .posted⟩
  | findsDone (hi : s.participants[i]? = some .posted)
      (hdone : s.group.counter = s.group.target) :
      Stepped s i { s with participants := s.participants.set i .foundDone }
  | leaves (hi : s.participants[i]? = some .posted)
      (hnot : s.group.counter ≠ s.group.target) :
      Stepped s i { s with participants := s.participants.set i .left }
  | findsChosen (hi : s.participants[i]? = some .foundDone)
      (hchosen : s.group.leaderChosen = true) :
      Stepped s i { s with participants := s.participants.set i (.returned false) }
  | expects (hi : s.participants[i]? = some .foundDone)
      (hnot : s.group.leaderChosen = false) :
      Stepped s i { s with participants := s.participants.set i .expecting }
  | comesLate (hi : s.participants[i]? = some .expecting)
      (hchosen : s.group.leaderChosen = true) :
      Stepped s i { s with participants := s.participants.set i .foundDone }
  | leads (hi : s.participants[i]? = some .expecting)
      (hnot : s.group.leaderChosen = false) :
      Stepped s i ⟨{ s.group with leaderChosen := true },
        s.participants.set i (.returned true)⟩

theorem stepped_of_step {s s' : Election} {i : ℕ} (h : s.step i = some s') :
    s.Stepped i s' := by
  unfold step at h
  split at h
  · rename_i hi
    cases h
    exact .posts hi
  · rename_i hi
    cases h
    by_cases hdone : s.group.counter = s.group.target
    · rw [if_pos (by simp [isDone, hdone])]
      exact .findsDone hi hdone
    · rw [if_neg (by simp [isDone, hdone])]
      exact .leaves hi hdone
  · rename_i hi
    cases h
    split_ifs with hchosen
    · exact .findsChosen hi hchosen
    · exact .expects hi (Bool.not_eq_true _ ▸ hchosen)
  · rename_i hi
    cases h
    by_cases hnot : s.group.leaderChosen = false
    · rw [compareExchange, if_pos hnot]
      exact .leads hi hnot
    · rw [compareExchange, if_neg hnot]
      exact .comesLate hi (Bool.not_eq_false _ ▸ hnot)
  · cases h

section Sound

variable {n i : ℕ} {s s' : Election}

/-- Without the participant that has not posted, the group is not done. -/
theorem Sound.counter_lt (h : s.Sound n) (hi : s.participants[i]? = some .working) :
    s.group.counter < n := by
  have hcount := countP_of_getElem? hi hasPosted
  have hrest := (List.countP_le_length (p := hasPosted)
    (l := s.participants.eraseIdx i))
  have hlt := (List.getElem?_eq_some_iff.mp hi).1
  rw [List.length_eraseIdx_of_lt hlt] at hrest
  rw [h.counter, hcount, ← h.length, if_neg (by decide)]
  omega

theorem Sound.set (h : s.Sound n) {a b : Participant}
    (hi : s.participants[i]? = some a) (hposted : b.hasPosted = a.hasPosted)
    (hleader : b.isLeader = a.isLeader)
    (hfound : b.hasFoundDone = true → s.group.counter = n)
    (hcandidate : s.group.counter = n → s.group.leaderChosen = false →
      b.isCandidate = true) :
    Sound n { s with participants := s.participants.set i b } where
  length := by rw [List.length_set, h.length]
  target := h.target
  counter := by
    have hcount := countP_set_of_getElem? hi b hasPosted
    rw [hposted] at hcount
    rw [h.counter, ← Nat.add_right_cancel hcount]
  foundDone p hp hdone := by
    rcases List.mem_or_eq_of_mem_set hp with hold | rfl
    · exact h.foundDone p hold hdone
    · exact hfound hdone
  leaders := by
    have hcount := countP_set_of_getElem? hi b isLeader
    rw [hleader] at hcount
    rw [← h.leaders, ← Nat.add_right_cancel hcount]
  candidate hcounter hnot :=
    ⟨b, List.mem_set (List.getElem?_eq_some_iff.mp hi).1 b, hcandidate hcounter hnot⟩

theorem Sound.step (h : s.Sound n) (hstep : s.step i = some s') : s'.Sound n := by
  cases stepped_of_step hstep with
  | posts hi =>
      have hlt := h.counter_lt hi
      refine ⟨by rw [List.length_set, h.length], h.target, ?_, fun p hp hdone => ?_, ?_, ?_⟩
      · have hcount := countP_set_of_getElem? hi .posted hasPosted
        rw [if_neg (by decide), if_pos (by decide), Nat.add_zero] at hcount
        rw [hcount, ← h.counter]
        rfl
      · rcases List.mem_or_eq_of_mem_set hp with hold | rfl
        · have hcounter := h.foundDone p hold hdone
          omega
        · cases hdone
      · have hcount := countP_set_of_getElem? hi .posted isLeader
        rw [if_neg (by decide), if_neg (by decide)] at hcount
        exact hcount.trans h.leaders
      · exact fun _ _ =>
          ⟨.posted, List.mem_set (List.getElem?_eq_some_iff.mp hi).1 _, rfl⟩
  | findsDone hi hdone =>
      exact h.set hi rfl rfl (fun _ => hdone.trans h.target) fun _ _ => rfl
  | leaves hi hnot =>
      refine h.set hi rfl rfl (fun hfound => nomatch hfound) fun hcounter => ?_
      exact absurd (hcounter.trans h.target.symm) hnot
  | findsChosen hi hchosen =>
      refine h.set hi rfl rfl (fun _ => h.foundDone _ (List.mem_of_getElem? hi) rfl) ?_
      intro _ hnot
      rw [hchosen] at hnot
      cases hnot
  | expects hi hnot =>
      exact h.set hi rfl rfl (fun _ => h.foundDone _ (List.mem_of_getElem? hi) rfl)
        fun _ _ => rfl
  | comesLate hi hchosen =>
      exact h.set hi rfl rfl (fun _ => h.foundDone _ (List.mem_of_getElem? hi) rfl)
        fun _ _ => rfl
  | leads hi hnot =>
      have hdone := h.foundDone _ (List.mem_of_getElem? hi) rfl
      refine ⟨by rw [List.length_set, h.length], h.target, ?_, fun _ _ _ => hdone, ?_,
        fun _ hchosen => nomatch hchosen⟩
      · have hcount := countP_set_of_getElem? hi (.returned true) hasPosted
        rw [if_pos (by decide), if_pos (by decide)] at hcount
        rw [Nat.add_right_cancel hcount]
        exact h.counter
      · have hcount := countP_set_of_getElem? hi (.returned true) isLeader
        rw [if_neg (by decide), if_pos (by decide), h.leaders, hnot] at hcount
        exact hcount

/-- The one that becomes the leader has found the group done. -/
theorem Sound.allPosted (h : s.Sound n) (helects : s.Elects i) : s.AllPosted := by
  obtain ⟨s', hstep, hleader⟩ := helects
  have hdone : s.group.counter = n := by
    cases stepped_of_step hstep with
    | findsChosen hi | expects hi | comesLate hi | leads hi =>
        exact h.foundDone _ (List.mem_of_getElem? hi) rfl
    | posts hi | findsDone hi | leaves hi =>
        have hlt := (List.getElem?_eq_some_iff.mp hi).1
        rw [List.getElem?_set_self hlt] at hleader
        cases hleader
  have hall : s.participants.countP hasPosted = s.participants.length := by
    rw [← h.counter, hdone, h.length]
  exact List.countP_eq_length.mp hall

theorem Sound.leader_of_finished (h : s.Sound n) (hfinished : s.Finished) :
    s.participants.countP isLeader = 1 := by
  have hposted : s.group.counter = n := by
    rw [h.counter, ← h.length, List.countP_eq_length]
    exact fun p hp => hasPosted_of_hasFinished (hfinished p hp)
  rw [h.leaders]
  refine if_pos ?_
  by_contra hnot
  obtain ⟨p, hp, hcandidate⟩ := h.candidate hposted (Bool.not_eq_true _ ▸ hnot)
  rw [isCandidate_of_hasFinished (hfinished p hp)] at hcandidate
  cases hcandidate

end Sound

/-- Whatever the order of the operations of any number of participants: when all of them
have finished, one call of `becomeLeader` has returned `true`, and everybody had posted
when it did. -/
theorem electsOne_of_run (n : ℕ) (hn : 1 ≤ n) (order : List ℕ) (s : Election)
    (hrun : run step (createNew n) order = some s) (hfinished : s.Finished) :
    s.participants.countP isLeader = 1 ∧
      Meets step (fun t i => t.Elects i → t.AllPosted) (createNew n) order := by
  have hkept : ∀ (t : Election) i t', t.Sound n → t.step i = some t' → t'.Sound n :=
    fun _ _ _ h hstep => h.step hstep
  have hnew := sound_createNew hn
  have hsound : s.Sound n := run_invariant hkept hnew hrun
  exact ⟨hsound.leader_of_finished hfinished,
    meets_of_invariant hkept (fun _ _ h => h.allPosted) hnew order⟩

def sampleOrder : List ℕ := [0, 0, 1, 2, 1, 2, 2, 1, 2, 1, 1]

theorem electsOne_of_run_sampleOrder :
    ∃ s, run step (createNew 3) sampleOrder = some s ∧
      s.participants.countP isLeader = 1 ∧
      Meets step (fun t i => t.Elects i → t.AllPosted) (createNew 3) sampleOrder :=
  ⟨_, rfl, electsOne_of_run 3 (by decide) sampleOrder _ rfl (by unfold Finished; decide)⟩

section Progress

variable {s s' : Election} {i : ℕ}

/-- How many operations are left to a participant, at most. -/
def rank (leaderChosen : Bool) : Participant → ℕ
  | .working => 6
  | .posted => 5
  | .foundDone => if leaderChosen then 2 else 4
  | .expecting => 3
  | .left | .returned _ => 0

def remaining (s : Election) : ℕ := (s.participants.map (rank s.group.leaderChosen)).sum

theorem rank_true_le (p : Participant) : rank true p ≤ rank false p := by
  cases p with
  | foundDone => exact Nat.le_of_ble_eq_true rfl
  | _ => exact le_rfl

theorem remaining_set_lt {a b : Participant} {group : AsyncGroup}
    (hi : s.participants[i]? = some a)
    (hgroup : group.leaderChosen = s.group.leaderChosen)
    (hrank : rank s.group.leaderChosen b < rank s.group.leaderChosen a) :
    remaining ⟨group, s.participants.set i b⟩ < s.remaining := by
  have hsum := sum_map_set_of_getElem? hi b (rank s.group.leaderChosen)
  rw [remaining, remaining, hgroup]
  dsimp only
  omega

/-- A failed exchange leads back to the load, but only once: then the leader has been
chosen. -/
theorem remaining_step (h : s.step i = some s') : s'.remaining < s.remaining := by
  cases stepped_of_step h with
  | posts hi => exact remaining_set_lt hi rfl (by simp [rank])
  | findsDone hi =>
      refine remaining_set_lt hi rfl ?_
      rw [rank, rank]
      split <;> omega
  | leaves hi => exact remaining_set_lt hi rfl (by simp [rank])
  | findsChosen hi hchosen => exact remaining_set_lt hi rfl (by simp [rank, hchosen])
  | expects hi hnot => exact remaining_set_lt hi rfl (by simp [rank, hnot])
  | comesLate hi hchosen => exact remaining_set_lt hi rfl (by simp [rank, hchosen])
  | leads hi hnot =>
      -- once the leader is chosen, nobody has more left to do than before
      have hlt : remaining ⟨s.group, s.participants.set i (.returned true)⟩ <
          s.remaining := remaining_set_lt hi rfl (by simp [rank])
      refine lt_of_le_of_lt ?_ hlt
      rw [remaining, remaining, hnot]
      exact List.sum_le_sum fun p _ => rank_true_le p

theorem exists_step_of_not_finished (hnot : ¬ s.Finished) :
    ∃ i s', s.step i = some s' := by
  unfold Finished at hnot
  push Not at hnot
  obtain ⟨p, hp, hgoes⟩ := hnot
  obtain ⟨i, hi⟩ := List.mem_iff_getElem?.mp hp
  refine ⟨i, ?_⟩
  unfold step
  rw [hi]
  cases p with
  | left | returned => exact absurd rfl hgoes
  | _ => exact ⟨_, rfl⟩

/-- Nobody waits for another one: the participants can always finish, and after so many
operations they have. -/
theorem exists_run_to_finished (s : Election) :
    (∃ order s', run step s order = some s' ∧ s'.Finished) ∧
      ∀ order s', run step s order = some s' → order.length ≤ s.remaining := by
  refine ⟨?_, fun order s' hrun => run_length_le_of_lt (fun _ _ _ => remaining_step) hrun⟩
  have hlowers : ∀ (t : Election) i t', True → True → t.step i = some t' →
      True ∧ t'.remaining < t.remaining :=
    fun _ _ _ _ _ h => ⟨trivial, remaining_step h⟩
  have hgoes : ∀ t : Election, True → ¬ t.Finished →
      ∃ i t', True ∧ t.step i = some t' := by
    intro t _ hnot
    obtain ⟨i, t', h⟩ := exists_step_of_not_finished hnot
    exact ⟨i, t', trivial, h⟩
  obtain ⟨order, s', -, hrun, hfinished⟩ := exists_run_to_final hlowers hgoes trivial
  exact ⟨order, s', hrun, hfinished⟩

theorem run_becomeLeader (hi : s.participants[i]? = some .foundDone) :
    ∃ order, run step s order = some ⟨s.group.becomeLeader.2,
      s.participants.set i (.returned s.group.becomeLeader.1)⟩ := by
  obtain ⟨⟨target, counter, leaderChosen⟩, participants⟩ := s
  dsimp only at hi
  have hlt := (List.getElem?_eq_some_iff.mp hi).1
  cases leaderChosen with
  | true =>
      refine ⟨[i], ?_⟩
      rw [run_cons, step, hi]
      rfl
  | false =>
      have hnext : (participants.set i .expecting)[i]? = some .expecting :=
        List.getElem?_set_self hlt
      refine ⟨[i, i], ?_⟩
      rw [run_cons, step, hi]
      change run step ⟨⟨target, counter, false⟩, participants.set i .expecting⟩ [i] = _
      rw [run_cons, step, hnext]
      change some (⟨⟨target, counter, true⟩, (participants.set i .expecting).set i
        (.returned true)⟩ : Election) = _
      rw [List.set_set]
      rfl

theorem run_finishOne (hi : s.participants[i]? = some .working) :
    ∃ order, run step s order = some ⟨s.group.finishOne.2, s.participants.set i
      (if s.group.post.isDone then .returned s.group.finishOne.1 else .left)⟩ := by
  have hlt := (List.getElem?_eq_some_iff.mp hi).1
  have hposted : (s.participants.set i .posted)[i]? = some .posted :=
    List.getElem?_set_self hlt
  have hposts : s.step i = some ⟨s.group.post, s.participants.set i .posted⟩ := by
    rw [step, hi]
  have htests : step ⟨s.group.post, s.participants.set i .posted⟩ i =
      some ⟨s.group.post, s.participants.set i
        (if s.group.post.isDone then .foundDone else .left)⟩ := by
    rw [step, hposted]
    dsimp only
    rw [List.set_set]
  unfold finishOne
  by_cases hdone : s.group.post.isDone = true
  · rw [if_pos hdone] at htests ⊢
    rw [if_pos hdone]
    have hfound : (s.participants.set i .foundDone)[i]? = some .foundDone :=
      List.getElem?_set_self hlt
    obtain ⟨order, horder⟩ :=
      @run_becomeLeader ⟨s.group.post, s.participants.set i .foundDone⟩ i hfound
    refine ⟨i :: i :: order, ?_⟩
    rw [run_cons, hposts, Option.bind_some, run_cons, htests, Option.bind_some, horder,
      List.set_set]
  · rw [if_neg hdone] at htests ⊢
    rw [if_neg hdone]
    refine ⟨[i, i], ?_⟩
    rw [run_cons, hposts, Option.bind_some, run_cons, htests, Option.bind_some, run_nil]

end Progress

end Election

end Kclpp
