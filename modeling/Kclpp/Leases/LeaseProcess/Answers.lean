import Kclpp.AsyncGroup.CallAccount
import Kclpp.Containers.TakenOut
import Kclpp.Leases.LeaseProcess.Basic
import Kclpp.Transition.Run

/-!
# Calls are answered once

Every task is outstanding for one call, as a step of the call itself or as one of
its operations. A handler takes its task out of the account of its call and puts
there what it posts, sends or answers; no other account changes. So the accounts
of all calls stay settled, unless `renewLeases` finds no lease to renew: then it
posts nothing and answers nothing.
-/

namespace Kclpp

namespace Leases

open Clock Dynamo Util

open Transition (run Meets Throughout)

namespace LeaseProcess

def Task.call : Task → ℕ
  | .postedInitialize call => call
  | .listForInitialize call => call
  | .listedForInitialize call _ => call
  | .postedRenewLeases call => call
  | .decideRenewal r _ => r.call
  | .renewal r => r.call
  | .renewed r _ => r.call
  | .update call _ => call
  | .updated call _ => call
  | .listForTaker call => call
  | .listedForTaker call _ => call
  | .take call _ => call
  | .taken call _ => call

/-- Whether a task is one of the operations of its call, and not a step of the
call itself. -/
def Task.isPart : Task → Bool
  | .decideRenewal r _ => r.caller ≠ .user
  | .renewal r => r.caller ≠ .user
  | .renewed r _ => r.caller ≠ .user
  | .take _ _ => true
  | .taken _ _ => true
  | _ => false

def account (p : LeaseProcess) (call : ℕ) : CallAccount where
  own := p.tasks.countP fun task => task.call = call ∧ task.isPart = false
  parts := p.tasks.countP fun task => task.call = call ∧ task.isPart = true
  answered := p.answers.countP fun answer => answer.1 = call
  group := (p.fanOuts call).group

@[simp] theorem account_withRenewer (p : LeaseProcess) (renewer : LeaseRenewer)
    (call : ℕ) : (p.withRenewer renewer).account call = p.account call := rfl

@[simp] theorem account_withTaker (p : LeaseProcess) (taker : LeaseTaker)
    (call : ℕ) : (p.withTaker taker).account call = p.account call := rfl

@[simp] theorem account_record (called : Bool) (before after : LeaseProcess)
    (call : ℕ) :
    (record called before after).account call = after.account call := rfl

@[simp] theorem account_acquire (p : LeaseProcess) (lease : Lease) (call : ℕ) :
    (p.acquire lease).account call = p.account call := by
  unfold acquire
  split <;> rfl

@[simp] theorem account_addLeasesToRenew (p : LeaseProcess)
    (leases : List Lease) (call : ℕ) :
    (p.addLeasesToRenew leases).account call = p.account call := by
  unfold addLeasesToRenew
  induction leases generalizing p with
  | nil => rfl
  | cons lease leases ih => rw [List.foldl_cons, ih, account_acquire]

@[simp] theorem account_insertRenewed (p : LeaseProcess)
    (outcome : RenewLeaseOutcome) (call : ℕ) :
    (p.insertRenewed outcome).account call = p.account call := by
  obtain ⟨renewer, hinsert⟩ := p.exists_insertRenewed_eq outcome
  rw [hinsert]
  rfl

@[simp] theorem account_withTakenLeases (p : LeaseProcess) (c : ℕ)
    (leases : List Lease) (call : ℕ) :
    (p.withTakenLeases c leases).account call = p.account call := by
  unfold account withTakenLeases
  by_cases h : call = c
  · subst h
    simp
  · simp [h]

theorem account_spawn (p : LeaseProcess) (tasks : List Task) (call : ℕ) :
    (p.spawn tasks).account call =
      { p.account call with
        own := (p.account call).own +
          tasks.countP fun task => task.call = call ∧ task.isPart = false
        parts := (p.account call).parts +
          tasks.countP fun task => task.call = call ∧ task.isPart = true } := by
  simp [account, spawn]

theorem account_answer (p : LeaseProcess) (c : ℕ) (answer : Answer)
    (call : ℕ) :
    (p.answer c answer).account call =
      { p.account call with
        answered := (p.account call).answered + if c = call then 1 else 0 } := by
  simp [account, LeaseProcess.answer, List.countP_cons]

theorem account_startFanOut (p : LeaseProcess) (c num call : ℕ) :
    (p.startFanOut c num).account call =
      { p.account call with
        group := if c = call then { target := num }
          else (p.account call).group } := by
  unfold account startFanOut
  by_cases h : c = call
  · subst h
    simp
  · have h' : call ≠ c := fun heq => h heq.symm
    simp [h, h']

theorem account_finishOne (p : LeaseProcess) (c call : ℕ) :
    (p.finishOne c).account call =
      { p.account call with
        group := if c = call then (p.account call).group.finishOne.2
          else (p.account call).group } := by
  unfold account finishOne
  by_cases h : c = call
  · subst h
    simp
  · have h' : call ≠ c := fun heq => h heq.symm
    simp [h, h']

theorem leads_eq (p : LeaseProcess) (call : ℕ) :
    p.leads call = (p.account call).group.finishOne.1 := rfl

def accountWith (p : LeaseProcess) (task : Task) (call : ℕ) : CallAccount :=
  { p.account call with
    own := (p.account call).own +
      if task.call = call ∧ task.isPart = false then 1 else 0
    parts := (p.account call).parts +
      if task.call = call ∧ task.isPart = true then 1 else 0 }

theorem account_spawn_singleton (p : LeaseProcess) (task : Task) (call : ℕ) :
    (p.spawn [task]).account call = p.accountWith task call := by
  rw [account_spawn]
  simp [accountWith, List.countP_cons]

theorem accountWith_without {p : LeaseProcess} {i : ℕ} {task : Task}
    (h : p.tasks[i]? = some task) (call : ℕ) :
    (p.without i).accountWith task call = p.account call := by
  unfold accountWith account without
  simp only
  rw [TakenOut.countP_of_getElem? h fun task =>
      task.call = call ∧ task.isPart = false,
    TakenOut.countP_of_getElem? h fun task =>
      task.call = call ∧ task.isPart = true]
  simp

theorem settled_answer (p : LeaseProcess) (task : Task)
    (h : (p.accountWith task task.call).Settled) (hpart : task.isPart = false)
    (answer : Answer) :
    ((p.answer task.call answer).account task.call).Settled := by
  rw [account_answer, if_pos rfl]
  simp only [accountWith, hpart, and_self, if_true, Bool.false_eq_true,
    and_false, if_false, Nat.add_zero] at h
  exact h.finish

theorem settled_fanOut (p : LeaseProcess) (task : Task)
    (h : (p.accountWith task task.call).Settled) (hpart : task.isPart = false)
    {leases : List Lease} (hne : leases ≠ []) {operation : Lease → Task}
    (hparts : ∀ lease, (operation lease).call = task.call ∧
      (operation lease).isPart = true) :
    (((p.startFanOut task.call leases.length).spawn
      (leases.map operation)).account task.call).Settled := by
  rw [account_spawn, account_startFanOut, if_pos rfl]
  simp only [List.countP_map, Function.comp_def, hparts, true_and,
    Bool.true_eq_false, decide_false, decide_true, List.countP_false,
    List.countP_true]
  simp only [accountWith, hpart, and_self, if_true, Bool.false_eq_true,
    and_false, if_false, Nat.add_zero] at h
  exact h.fanOut (List.length_pos_iff.mpr hne)

/-- The end of an operation answers the call where the operation leads. -/
theorem settled_finishOne (p : LeaseProcess) (task : Task) {c : ℕ}
    (hc : task.call = c) (h : (p.accountWith task c).Settled)
    (hpart : task.isPart = true) {p' : LeaseProcess}
    (hp' : p'.account c =
      { (p.finishOne c).account c with
        answered := (p.account c).answered + if p.leads c then 1 else 0 }) :
    (p'.account c).Settled := by
  rw [hp', account_finishOne, if_pos rfl, leads_eq]
  simp only [accountWith, hc, hpart, and_self, if_true, Bool.true_eq_false,
    and_false, if_false, Nat.add_zero] at h
  exact h.finishOne

theorem account_onInitializeRenewal (p : LeaseProcess) (c call : ℕ) :
    (p.onInitializeRenewal c).account call =
      { (p.finishOne c).account call with
        answered := (p.account call).answered +
          if c = call then (if p.leads c then 1 else 0) else 0 } := by
  unfold onInitializeRenewal
  by_cases h : p.leads c = true
  · simp [h, account_answer, account_finishOne]
  · simp [h, account_finishOne]

theorem account_finishOne_answer (p : LeaseProcess) (c : ℕ) (answer : Answer)
    (call : ℕ) :
    (if p.leads c then (p.finishOne c).answer c answer
      else p.finishOne c).account call =
      { (p.finishOne c).account call with
        answered := (p.account call).answered +
          if c = call then (if p.leads c then 1 else 0) else 0 } := by
  by_cases h : p.leads c = true
  · simp [h, account_answer, account_finishOne]
  · simp [h, account_finishOne]

theorem accountWith_congr (p : LeaseProcess) {task task' : Task}
    (hcall : task.call = task'.call) (hpart : task.isPart = task'.isPart)
    (call : ℕ) : p.accountWith task call = p.accountWith task' call := by
  rw [accountWith, accountWith, hcall, hpart]

theorem settled_onRenewalOver {p : LeaseProcess} {r : Renewal}
    (h : (p.accountWith (.renewal r) r.call).Settled)
    (outcome : RenewLeaseOutcome) :
    ((p.onRenewalOver r outcome).account r.call).Settled := by
  obtain ⟨lease, issued, caller⟩ := r
  cases caller with
  | user => exact settled_answer p (.renewal ⟨lease, issued, .user⟩) h rfl _
  | inInitialize call =>
      have hcall : (Task.renewal ⟨lease, issued, .inInitialize call⟩).call =
        call := rfl
      refine settled_finishOne (p.insertRenewed outcome) _ hcall ?_ rfl ?_
      · rw [accountWith, account_insertRenewed]
        exact h
      · simp [onRenewalOver, account_onInitializeRenewal]
  | inRenewLeases call =>
      have hcall : (Task.renewal ⟨lease, issued, .inRenewLeases call⟩).call =
        call := rfl
      refine settled_finishOne p _ hcall h rfl ?_
      simp [onRenewalOver, account_finishOne_answer]

theorem account_onRenewalOver_of_ne {p : LeaseProcess} {r : Renewal} {call : ℕ}
    (hne : r.call ≠ call) (outcome : RenewLeaseOutcome) :
    (p.onRenewalOver r outcome).account call = p.account call := by
  obtain ⟨lease, issued, caller⟩ := r
  cases caller with
  | user =>
      simp only [Renewal.call] at hne
      simp [onRenewalOver, account_answer, hne]
  | inInitialize c =>
      simp only [Renewal.call] at hne
      simp [onRenewalOver, account_onInitializeRenewal, account_finishOne, hne]
  | inRenewLeases c =>
      simp only [Renewal.call] at hne
      simp [onRenewalOver, account_finishOne_answer, account_finishOne, hne]

def FansOutNone (p : LeaseProcess) : Task → Prop
  | .postedRenewLeases _ => p.ownedLeases.toList = []
  | _ => False

instance (p : LeaseProcess) : DecidablePred p.FansOutNone
  | .postedRenewLeases _ => inferInstanceAs (Decidable (p.ownedLeases.toList = []))
  | .postedInitialize _ => isFalse not_false
  | .listForInitialize _ => isFalse not_false
  | .listedForInitialize _ _ => isFalse not_false
  | .decideRenewal _ _ => isFalse not_false
  | .renewal _ => isFalse not_false
  | .renewed _ _ => isFalse not_false
  | .update _ _ => isFalse not_false
  | .updated _ _ => isFalse not_false
  | .listForTaker _ => isFalse not_false
  | .listedForTaker _ _ => isFalse not_false
  | .take _ _ => isFalse not_false
  | .taken _ _ => isFalse not_false

theorem settled_handle {input : Input} {p p' : LeaseProcess} {task : Task}
    (h : (p.accountWith task task.call).Settled)
    (hsome : ¬ p.FansOutNone task) (hp' : p.handle input task = some p') :
    (p'.account task.call).Settled := by
  cases task with
  | postedInitialize call =>
      cases hp'
      rw [account_spawn_singleton]
      exact h
  | listedForInitialize call outcome =>
      cases hp'
      cases outcome with
      | error e => exact settled_answer p _ h rfl _
      | ok leases =>
          unfold onListedForInitialize
          dsimp only
          split_ifs with hempty
          · exact settled_answer p _ h rfl _
          · exact settled_fanOut p _ h rfl (by simpa using hempty)
              fun lease => ⟨rfl, rfl⟩
  | postedRenewLeases call =>
      cases hp'
      exact settled_fanOut p _ h rfl hsome fun lease => ⟨rfl, rfl⟩
  | decideRenewal r options =>
      cases hp'
      unfold onDecideRenewal
      split_ifs with hrenew
      · rw [account_spawn_singleton]
        exact h
      · exact settled_onRenewalOver
          (p := p.withRenewer (p.renewer.dropLease r.lease)) h _
  | renewed r outcome =>
      cases hp'
      exact settled_onRenewalOver
        (p := p.withRenewer (p.renewer.onRenewLease r.lease outcome)) h _
  | updated call outcome =>
      cases hp'
      exact settled_answer (p.withRenewer (p.renewer.onUpdateLease outcome)) _ h
        rfl _
  | listedForTaker call outcome =>
      cases hp'
      cases outcome with
      | error e => exact settled_answer p _ h rfl _
      | ok leases =>
          unfold onListedForTaker
          dsimp only
          split_ifs with hempty
          · exact settled_answer (p.withTaker _) _ h rfl _
          · exact settled_fanOut (p.withTaker _) _ h rfl (by simpa using hempty)
              fun lease => ⟨rfl, rfl⟩
  | taken call outcome =>
      cases hp'
      have hsettled : ((p.withTakenLeases call (LeaseTaker.onTakeLease
          (p.fanOuts call).takenLeases outcome)).accountWith
          (.taken call outcome) call).Settled := by
        rw [accountWith, account_withTakenLeases]
        exact h
      refine settled_finishOne (c := call) _ _ rfl hsettled rfl
        ((account_finishOne_answer _ _ _ _).trans ?_)
      simp
  | listForInitialize call => cases hp'
  | renewal r => cases hp'
  | update call lease => cases hp'
  | listForTaker call => cases hp'
  | take call lease => cases hp'

theorem account_handle_of_ne {input : Input} {p p' : LeaseProcess} {task : Task}
    {call : ℕ} (hne : task.call ≠ call) (hp' : p.handle input task = some p') :
    p'.account call = p.account call := by
  have hparts : ∀ (q : LeaseProcess) (leases : List Lease)
      (operation : Lease → Task),
      (∀ lease, (operation lease).call = task.call) →
      ((q.startFanOut task.call leases.length).spawn
        (leases.map operation)).account call = q.account call := by
    intro q leases operation hoperation
    rw [account_spawn, account_startFanOut, if_neg hne]
    simp [Function.comp_def, hoperation, hne]
  cases task with
  | postedInitialize c =>
      cases hp'
      rw [account_spawn_singleton]
      simp only [Task.call] at hne
      simp [accountWith, Task.call, hne]
  | listedForInitialize c outcome =>
      cases hp'
      cases outcome with
      | error e => exact (account_answer _ _ _ _).trans (by simp_all [Task.call])
      | ok leases =>
          unfold onListedForInitialize
          dsimp only
          split_ifs
          · exact (account_answer _ _ _ _).trans (by simp_all [Task.call])
          · exact hparts p leases _ fun lease => rfl
  | postedRenewLeases c =>
      cases hp'
      exact hparts p _ _ fun lease => rfl
  | decideRenewal r options =>
      cases hp'
      unfold onDecideRenewal
      split_ifs
      · rw [account_spawn_singleton]
        simp only [Task.call] at hne
        simp [accountWith, Task.call, hne]
      · exact account_onRenewalOver_of_ne
          (p := p.withRenewer (p.renewer.dropLease r.lease)) hne _
  | renewed r outcome =>
      cases hp'
      exact account_onRenewalOver_of_ne
        (p := p.withRenewer (p.renewer.onRenewLease r.lease outcome)) hne _
  | updated c outcome =>
      cases hp'
      exact (account_answer _ _ _ _).trans (by simp_all [Task.call])
  | listedForTaker c outcome =>
      cases hp'
      cases outcome with
      | error e => exact (account_answer _ _ _ _).trans (by simp_all [Task.call])
      | ok leases =>
          unfold onListedForTaker
          dsimp only
          split_ifs
          · exact (account_answer _ _ _ _).trans (by simp_all [Task.call])
          · exact hparts (p.withTaker _) _ _ fun lease => rfl
  | taken c outcome =>
      cases hp'
      refine (account_finishOne_answer _ _ _ _).trans ?_
      simp only [Task.call] at hne
      simp [account_finishOne, hne]
  | listForInitialize c => cases hp'
  | renewal r => cases hp'
  | update c lease => cases hp'
  | listForTaker c => cases hp'
  | take c lease => cases hp'

theorem serveRequest_eq_some {manager : LeaseManager} {dynamo : Service}
    {input : Input} {workerID : LeaseOwner} {tbl tbl' : Table}
    {task answer : Task}
    (h : serveRequest manager dynamo input workerID tbl task =
      some (answer, tbl')) :
    answer.call = task.call ∧ answer.isPart = task.isPart := by
  cases task <;> cases h <;> exact ⟨rfl, rfl⟩

/-- The accounts of all calls are settled, and nothing is known of a call that
has not been made. -/
structure Ledger (p : LeaseProcess) : Prop where
  settled : ∀ call ∈ p.history.calls, (p.account call).Settled
  blank : ∀ call, call ∉ p.history.calls → (p.account call).Blank
  past : ∀ call ∈ p.history.calls, call < p.time

theorem Ledger.call_mem {p : LeaseProcess} (h : p.Ledger) {i : ℕ} {task : Task}
    (htask : p.tasks[i]? = some task) : task.call ∈ p.history.calls := by
  by_contra hcall
  obtain ⟨hown, hparts, -⟩ := h.blank task.call hcall
  rw [← accountWith_without htask] at hown hparts
  cases hpart : task.isPart <;> simp [accountWith, hpart] at hown hparts

theorem Ledger.of_account_eq {p p' : LeaseProcess} (h : p.Ledger)
    (hcalls : p'.history.calls = p.history.calls) (htime : p.time ≤ p'.time)
    (haccount : ∀ call, p'.account call = p.account call) : p'.Ledger where
  settled := by
    intro call hcall
    rw [haccount]
    exact h.settled call (hcalls ▸ hcall)
  blank := by
    intro call hcall
    rw [haccount]
    exact h.blank call (hcalls ▸ hcall)
  past := by
    intro call hcall
    exact (h.past call (hcalls ▸ hcall)).trans_le htime

theorem Ledger.call {p p' : LeaseProcess} (h : p.Ledger) {called : Bool}
    (hcalled : called = true)
    (haccount : ∀ call, call ≠ p.time → p'.account call = p.account call)
    (hsettled : (p.account p.time).Blank → (p'.account p.time).Settled) :
    (record called p p').Ledger where
  settled := by
    subst hcalled
    intro call hcall
    rw [account_record]
    rcases List.mem_cons.mp hcall with rfl | hcall
    · exact hsettled (h.blank _ fun hmem => lt_irrefl _ (h.past _ hmem))
    · rw [haccount call (h.past call hcall).ne]
      exact h.settled call hcall
  blank := by
    subst hcalled
    intro call hcall
    rw [account_record]
    have hnew := not_or.mp (List.mem_cons.not.mp hcall)
    rw [haccount call hnew.1]
    exact h.blank call hnew.2
  past := by
    subst hcalled
    intro call hcall
    rcases List.mem_cons.mp hcall with rfl | hcall
    · exact Nat.lt_succ_self _
    · exact Nat.lt_succ_of_lt (h.past call hcall)

theorem Ledger.spawn {p : LeaseProcess} (h : p.Ledger) {called : Bool}
    (hcalled : called = true) {task : Task} (hcall : task.call = p.time)
    (hpart : task.isPart = false) :
    (record called p (p.spawn [task])).Ledger := by
  refine h.call hcalled (fun call hne => ?_) fun hblank => ?_
  · rw [account_spawn_singleton]
    simp [accountWith, hcall, hne.symm]
  · obtain ⟨hown, hparts, hanswered⟩ := hblank
    rw [account_spawn_singleton]
    simp only [accountWith, hcall, hpart, hown, hparts, hanswered]
    exact CallAccount.Settled.working _

theorem ledger_call {p : LeaseProcess} (h : p.Ledger) (dchecks : Bool)
    (call : Call) (halive : p.alive = true) :
    (record (call.hasCallback && (p.call dchecks call).alive) p
      (p.call dchecks call)).Ledger := by
  have hsame : ∀ p' : LeaseProcess, (∀ c, p'.account c = p.account c) →
      (record false p p').Ledger := by
    intro p' haccount
    exact h.of_account_eq rfl (Nat.le_succ _) haccount
  cases call with
  | addLeasesToRenew leases =>
      exact hsame _ fun c => account_addLeasesToRenew p leases c
  | clearHeldLeases => exact hsame _ fun c => rfl
  | dropLease lease => exact hsame _ fun c => rfl
  | renewLease lease options =>
      exact @Ledger.spawn p h _ halive
        (.decideRenewal ⟨lease, p.time, .user⟩ options) rfl rfl
  | renewLeases =>
      exact @Ledger.spawn p h _ halive (.postedRenewLeases p.time) rfl rfl
  | initializeRenewer =>
      exact @Ledger.spawn p h _ halive (.postedInitialize p.time) rfl rfl
  | updateLease lease token =>
      change (record (true && (p.updateLease dchecks lease token).alive) p
        (p.updateLease dchecks lease token)).Ledger
      unfold updateLease
      cases p.renewer.startUpdate dchecks lease token with
      | dies => exact hsame _ fun c => rfl
      | refused =>
          refine h.call halive (fun c hne => ?_) fun hblank => ?_
          · rw [account_answer, if_neg hne.symm]
            rfl
          · obtain ⟨hown, hparts, hanswered⟩ := hblank
            rw [account_answer, if_pos rfl]
            simp only [hown, hparts, hanswered]
            exact CallAccount.Settled.answered _
      | requests => exact @Ledger.spawn p h _ halive (.update p.time lease) rfl rfl
  | takeLeases =>
      exact @Ledger.spawn p h _ halive (.listForTaker p.time) rfl rfl

theorem ledger_advance {manager : LeaseManager} {dynamo : Service}
    {input : Input} {p p' : LeaseProcess} {i : ℕ} {task : Task}
    {tbl tbl' : Table} (h : p.Ledger) (htask : p.tasks[i]? = some task)
    (hsome : ¬ p.FansOutNone task)
    (hp' : p.advance manager dynamo input i task tbl = some (p', tbl')) :
    (record false p p').Ledger := by
  have hwithout := accountWith_without htask
  rcases advance_eq_some hp' with ⟨answer, tbl'', -, hanswer, heq⟩ |
    ⟨next, -, hnext, heq⟩
  · cases heq
    obtain ⟨hcall, hpart⟩ := serveRequest_eq_some hanswer
    refine h.of_account_eq rfl (Nat.le_succ _) fun call => ?_
    rw [account_record, account_spawn_singleton,
      accountWith_congr _ hcall hpart, hwithout]
  · cases heq
    have hmem := h.call_mem htask
    have hne : ∀ call, task.call ≠ call →
        p'.account call = p.account call := by
      intro call hne
      rw [account_handle_of_ne hne hnext, ← hwithout]
      simp [accountWith, hne]
    refine ⟨fun call hcall => ?_, fun call hcall => ?_, fun call hcall => ?_⟩
    · rw [account_record]
      by_cases heq : task.call = call
      · subst heq
        refine settled_handle ?_ ?_ hnext
        · rw [hwithout]
          exact h.settled _ hmem
        · exact hsome
      · rw [hne call heq]
        exact h.settled call hcall
    · rw [account_record, hne call]
      · exact h.blank call hcall
      · rintro rfl
        exact hcall hmem
    · exact (h.past call hcall).trans (Nat.lt_succ_self _)

/-- Every call has been answered exactly once when nothing is outstanding for it,
and not before. -/
def AnsweredOnce (p : LeaseProcess) : Prop :=
  ∀ call ∈ p.history.calls,
    (p.answers.countP fun answer => answer.1 = call) =
      if ∃ task ∈ p.tasks, task.call = call then 0 else 1

/-- The step does not run the message of `renewLeases` while no lease is held. -/
def LeasesToRenew (s : System) : Step → Prop
  | .advance i _ => ∀ task ∈ s.process.tasks[i]?, ¬ s.process.FansOutNone task
  | _ => True

instance (s : System) : DecidablePred (LeasesToRenew s)
  | .advance i _ => inferInstanceAs
      (Decidable (∀ task ∈ s.process.tasks[i]?, ¬ s.process.FansOutNone task))
  | .call _ => isTrue trivial
  | .elsewhere _ => isTrue trivial

theorem own_add_parts_eq_zero_iff (p : LeaseProcess) (call : ℕ) :
    (p.account call).own + (p.account call).parts = 0 ↔
      ¬ ∃ task ∈ p.tasks, task.call = call := by
  simp only [account, Nat.add_eq_zero_iff, List.countP_eq_zero, decide_eq_true_eq,
    not_and, Bool.not_eq_false, Bool.not_eq_true, not_exists]
  constructor
  · rintro ⟨hown, hparts⟩ task hmem hcall
    have htrue := hown task hmem hcall
    rw [hparts task hmem hcall] at htrue
    cases htrue
  · intro h
    exact ⟨fun task hmem hcall => absurd hcall (h task hmem),
      fun task hmem hcall => absurd hcall (h task hmem)⟩

theorem answeredOnce_iff (p : LeaseProcess) :
    p.AnsweredOnce ↔ ∀ call ∈ p.history.calls, (p.account call).answered =
      if (p.account call).own + (p.account call).parts = 0 then 1 else 0 := by
  refine forall₂_congr fun call _ => ?_
  simp only [own_add_parts_eq_zero_iff]
  rw [ite_not]
  rfl

theorem Ledger.answeredOnce {p : LeaseProcess} (h : p.Ledger) :
    p.AnsweredOnce :=
  (answeredOnce_iff p).mpr fun call hcall => (h.settled call hcall).answered_eq

theorem Fresh.ledger {p : LeaseProcess} (h : p.Fresh) : p.Ledger where
  settled := by simp [h.calls]
  blank := by simp [account, CallAccount.Blank, h.tasks, h.answers]
  past := by simp [h.calls]

theorem ledger_step {manager : LeaseManager} {dynamo : Service} {dchecks : Bool}
    {s s' : System} {step : Step} (h : s.process.Ledger)
    (hsome : LeasesToRenew s step)
    (hstep : s.step manager dynamo dchecks step = some s') :
    s'.process.Ledger := by
  rcases step_eq_some hstep with ⟨call, rfl, halive, -, hs'⟩ |
    ⟨i, input, task, next, rfl, htask, hnext, -, hs'⟩ | ⟨tbl, rfl, -, hs'⟩
  · rw [hs']
    exact ledger_call h dchecks call halive
  · rw [hs']
    exact ledger_advance h htask (hsome task htask) hnext
  · rw [hs']
    exact h.of_account_eq rfl (Nat.le_succ _) fun call => rfl

/-- A fan-out over no lease leaves its call unanswered. -/
theorem not_answeredOnce {manager : LeaseManager} {dynamo : Service}
    {dchecks : Bool} {s s' : System} {i : ℕ} {input : Input} {task : Task}
    (h : s.process.Ledger) (htask : s.process.tasks[i]? = some task)
    (hnone : s.process.FansOutNone task)
    (hstep : s.step manager dynamo dchecks (.advance i input) = some s') :
    ¬ s'.process.AnsweredOnce := by
  cases task with
  | postedRenewLeases call =>
      have hnil : s.process.ownedLeases.toList = [] := hnone
      have hmem := h.call_mem htask
      have hsettled := h.settled _ hmem
      rw [← accountWith_without htask] at hsettled
      have hs' : s'.process = record false s.process
          (((s.process.without i).startFanOut call 0).spawn []) := by
        simp only [System.step, htask, Option.bind_some, advance, Task.isRequest,
          Bool.false_eq_true, if_false, handle, onRenewLeases, postRenewals]
          at hstep
        rw [show (s.process.without i).ownedLeases.toList = [] from hnil] at hstep
        split_ifs at hstep
        · cases hstep
          rfl
        · cases hstep
      intro honce
      rw [hs', answeredOnce_iff] at honce
      have hcall := honce call hmem
      simp only [accountWith, Task.isPart, and_self, if_true,
        Bool.false_eq_true, and_false, if_false, Nat.add_zero] at hsettled
      obtain ⟨hown, hparts, hanswered⟩ := hsettled.eq_zero
      simp only [Task.call] at hown hparts hanswered
      simp [account_spawn, account_startFanOut, hown, hparts, hanswered] at hcall
  | _ => cases hnone

/-- In every state of a run of a process, every call has been answered exactly
once when nothing is outstanding for it, and not before, exactly when no message
of `renewLeases` runs while no lease is held. -/
theorem answeredOnce_throughout_iff (manager : LeaseManager) (dynamo : Service)
    (dchecks : Bool) {s s' : System} (hs : s.process.Fresh) {steps : List Step}
    (hr : run (System.step manager dynamo dchecks) s steps = some s') :
    Meets (System.step manager dynamo dchecks) LeasesToRenew s steps ↔
      Throughout (System.step manager dynamo dchecks)
        (fun s => s.process.AnsweredOnce) s steps := by
  refine Transition.meets_iff_throughout (I := fun s => s.process.Ledger)
    (fun _ hI => hI.answeredOnce) (fun _ _ _ hI hok hstep =>
      ledger_step hI hok hstep) ?_ hs.ledger hr
  intro s step s' hI hstep hP
  cases step with
  | call call => trivial
  | elsewhere tbl => trivial
  | advance i input =>
      intro task htask hnone
      exact not_answeredOnce hI htask hnone hstep hP

def sampleInitialize : List Step :=
  .call .initializeRenewer :: List.replicate 6 (.advance 0 sampleInput)

theorem answeredOnce_throughout_sampleInitialize :
    ∃ s, run (System.step sampleManager sampleDynamo true) sampleStart
        sampleInitialize = some s ∧
      Throughout (System.step sampleManager sampleDynamo true)
        (fun s => s.process.AnsweredOnce) sampleStart sampleInitialize :=
  ⟨_, rfl, (answeredOnce_throughout_iff sampleManager sampleDynamo true
    fresh_sampleStart rfl).mp (by decide +kernel)⟩

/-- A process that holds no lease is asked to renew its leases. When the message
has run, nothing is outstanding and nobody has been answered. -/
theorem renewLeases_unanswered :
    ∃ s, run (System.step sampleManager sampleDynamo true) sampleStart
        [.call .renewLeases, .advance 0 sampleInput] = some s ∧
      s.process.history.calls = [0] ∧ s.process.tasks = [] ∧
      s.process.answers = [] ∧ ¬ s.process.AnsweredOnce := by
  refine ⟨_, rfl, rfl, rfl, rfl, fun h => ?_⟩
  have hcall := h 0 List.mem_cons_self
  revert hcall
  decide +kernel

end LeaseProcess

end Leases

end Kclpp
