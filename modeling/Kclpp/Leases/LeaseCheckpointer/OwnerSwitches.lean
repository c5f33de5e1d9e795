import Kclpp.Leases.LeaseCheckpointer.Basic
import Kclpp.Leases.LeaseManager.Fencing

/-!
# Owner switches since the checkpoint

A take that changes the owner writes the number of owner switches that its lease
object carries, plus one, and no operation ever writes a zero: the update that
stores a checkpoint leaves the number as it is. `Tracked` is what holds of the
row and of the lease objects in circulation as long as no checkpoint finds
switches to forget, and `switchesCounted_iff` that the number is right exactly as
long.
-/

open Std OrderedMap

namespace Kclpp

namespace Leases

open Dynamo Util Lease

open Transition (run Meets Throughout)

namespace LeaseCall

def changesOwner : LeaseCall → Bool
  | takeLease lease newOwner => lease.leaseOwner ≠ some newOwner
  | _ => false

def isCheckpoint : LeaseCall → Bool
  | updateLease _ => true
  | _ => false

theorem changesOwner_of_isCheckpoint {call : LeaseCall}
    (h : call.isCheckpoint = true) : call.changesOwner = false := by
  cases call with
  | updateLease lease => rfl
  | _ => cases h

/-- A take that succeeds changes the owner of the row exactly if it takes the
lease for another owner. -/
theorem changesOwner_iff {manager : LeaseManager} {dynamo : Service}
    {lease : Lease} {newOwner : LeaseOwner} {tbl tbl' : Table}
    {result : CallResult}
    (h : (takeLease lease newOwner).perform manager dynamo tbl =
      (tbl', .ok result)) :
    (takeLease lease newOwner).changesOwner = true ↔
      attributeOf (tbl'.row lease.leaseKey.value) "leaseOwner" ≠
        attributeOf (tbl.row lease.leaseKey.value) "leaseOwner" := by
  obtain ⟨-, hmatch, -⟩ :=
    (perform_eq_ok_iff_of_isUpdate _ _ rfl _ _ _).mp h
  have hbefore := ((expectationHolds_makeCASExpectation _ _).mp hmatch).1
  have hafter := leaseOwner_of_perform rfl h
  have hkey : (takeLease lease newOwner).key = lease.leaseKey.value := rfl
  rw [hkey] at hbefore hafter
  rw [hbefore, hafter, Ne, stringAttribute_injective.eq_iff, changesOwner,
    decide_eq_true_eq]
  exact not_congr eq_comm

theorem ownerSwitches_of_perform {manager : LeaseManager} {dynamo : Service}
    {call : LeaseCall} (hupdate : call.isUpdate = true) {tbl tbl' : Table}
    {result : CallResult}
    (h : call.perform manager dynamo tbl = (tbl', .ok result)) :
    attributeOf (tbl'.row call.key) "ownerSwitchesSinceCheckpoint" =
      if call.changesOwner then some (.n (printUll (nextSwitches call.lease)))
      else attributeOf (tbl.row call.key) "ownerSwitchesSinceCheckpoint" := by
  rw [attributeOf_of_perform hupdate h (by decide),
    lookup_updates hupdate (by decide) (by decide), lookup_makeUpdateValues,
    if_neg (by decide), if_pos rfl]
  cases call with
  | createLeaseIfNotExists lease => cases hupdate
  | takeLease lease newOwner =>
      by_cases howner : lease.leaseOwner = some newOwner
      · simp [switchesUpdate, params, LeaseCall.lease, changesOwner, howner]
      · simp [switchesUpdate, params, LeaseCall.lease, changesOwner, howner,
          AttributeValueUpdate.result]
  | renewLease _ | evictLease _ | updateLease _ =>
      simp [switchesUpdate, params, changesOwner]

end LeaseCall

/-- The number of owner switches a lease object carries, zero where it carries
none. -/
def Lease.ownerSwitches (lease : Lease) : UInt64 :=
  lease.ownerSwitchesSinceCheckpoint.elim 0 fun switches => switches.value

/-- An update is built from a lease object in circulation, with the number of
owner switches that the object carries. -/
def carriesSwitches (pool : List Lease) (call : LeaseCall) : Bool :=
  !call.isUpdate || pool.any fun lease =>
    sameVersion lease call.lease &&
      lease.ownerSwitchesSinceCheckpoint =
        call.lease.ownerSwitchesSinceCheckpoint

/-- The takes of a lease that changed its owner since the last checkpoint, of the
updates accepted so far, newest first. -/
def switchesSinceCheckpoint (key : String) (accepted : List LeaseCall) : ℕ :=
  ((accepted.filter fun call => call.key = key).takeWhile
    fun call => !call.isCheckpoint).countP LeaseCall.changesOwner

theorem switchesSinceCheckpoint_cons_of_ne {key : String} {call : LeaseCall}
    (h : call.key ≠ key) (accepted : List LeaseCall) :
    switchesSinceCheckpoint key (call :: accepted) =
      switchesSinceCheckpoint key accepted := by
  rw [switchesSinceCheckpoint, List.filter_cons_of_neg (by simp [h])]
  rfl

theorem switchesSinceCheckpoint_cons (call : LeaseCall)
    (accepted : List LeaseCall) :
    switchesSinceCheckpoint call.key (call :: accepted) =
      if call.isCheckpoint then 0
      else switchesSinceCheckpoint call.key accepted +
        if call.changesOwner then 1 else 0 := by
  rw [switchesSinceCheckpoint, List.filter_cons_of_pos (by simp)]
  split_ifs with hcheckpoint hchanges
  · rw [List.takeWhile_cons_of_neg (by simp [hcheckpoint])]
    rfl
  · rw [List.takeWhile_cons_of_pos (by simp [hcheckpoint]),
      List.countP_cons_of_pos hchanges]
    rfl
  · rw [List.takeWhile_cons_of_pos (by simp [hcheckpoint]),
      List.countP_cons_of_neg hchanges]
    rfl

namespace Circulation

def SwitchesCounted (key : String) (s : Circulation) : Prop :=
  attributeOf (s.tbl.row key) "ownerSwitchesSinceCheckpoint" =
    some (.n (switchesSinceCheckpoint key s.accepted).repr)

/-- The step is no checkpoint of the lease that succeeds while the row has a
number of owner switches other than zero. -/
def ForgetsNothing (manager : LeaseManager) (dynamo : Service) (key : String)
    (s : Circulation) (action : WorkerAction) : Prop :=
  ∀ call : LeaseCall, action = .call call → call.key = key →
    call.isCheckpoint = true → Succeeds manager dynamo call s.tbl →
    attributeOf (s.tbl.row key) "ownerSwitchesSinceCheckpoint" = some (.n "0")

/-- What the row and the lease objects in circulation know of the owner switches
of a lease: an object with the row's counter has the row's number, which is that
of the switches that were made. -/
structure Tracked (key : String) (version : ℕ) (number : UInt64)
    (s : Circulation) : Prop where
  hasCounter : HasCounter s.tbl key version
  hasNumber : attributeOf (s.tbl.row key) "ownerSwitchesSinceCheckpoint" =
    some (.n (printUll number))
  fresh : ∀ lease ∈ s.pool, lease.leaseKey.value = key →
    ∀ counter, lease.leaseCounter = some counter →
      counter.value.toNat ≤ version ∧
        (counter.value.toNat = version → lease.ownerSwitches = number)
  bounded : number.toNat ≤ version
  counted : number.toNat = switchesSinceCheckpoint key s.accepted

theorem Tracked.switchesCounted {key : String} {version : ℕ} {number : UInt64}
    {s : Circulation} (h : Tracked key version number s) :
    SwitchesCounted key s := by
  rw [SwitchesCounted, h.hasNumber, ← h.counted]
  rfl

theorem ownerSwitches_of_mem_listLeases {manager : LeaseManager}
    {dynamo : Service} {order : List String} {errno : Errno} {tbl : Table}
    {leases : List Lease}
    (h : manager.listLeases dynamo order errno tbl = .ok leases) {lease : Lease}
    (hmem : lease ∈ leases) {number : UInt64}
    (hnumber : attributeOf (tbl.row lease.leaseKey.value)
      "ownerSwitchesSinceCheckpoint" = some (.n (printUll number))) :
    lease.ownerSwitches = number := by
  obtain ⟨item, hrow, e, e', hread⟩ := mem_listLeases h hmem
  rw [hrow, attributeOf_some] at hnumber
  obtain ⟨_, _, _, switches, _, _, e₂, -, -, -, -, hswitches, -, rfl⟩ :=
    (fromDynamoDict_eq_ok_iff _ _ _ _).mp hread
  rw [readNumber_of_lookup hnumber] at hswitches
  split_ifs at hswitches with hlost
  · cases hswitches
  · cases hswitches
    rfl

section Steps

variable {manager : LeaseManager} {dynamo : Service} {key : String}
  {version : ℕ} {number : UInt64} {s : Circulation}

theorem Tracked.listLeases (h : Tracked key version number s)
    {order : List String} {errno : Errno} {leases : List Lease}
    (hlist : manager.listLeases dynamo order errno s.tbl = .ok leases) :
    Tracked key version number { s with pool := leases ++ s.pool } := by
  refine ⟨h.hasCounter, h.hasNumber, ?_, h.bounded, h.counted⟩
  intro lease hmem hkey counter hcounter
  rcases List.mem_append.mp hmem with hmem | hmem
  · subst hkey
    obtain ⟨counter', hcounter', hval⟩ :=
      leaseCounter_of_mem_listLeases hlist hmem h.hasCounter
    rw [hcounter] at hcounter'
    cases hcounter'
    exact ⟨hval.le, fun _ =>
      ownerSwitches_of_mem_listLeases hlist hmem h.hasNumber⟩
  · exact h.fresh lease hmem hkey counter hcounter

theorem Tracked.of_key_ne (h : Tracked key version number s)
    {call : LeaseCall} {tbl' : Table} {result : CallResult}
    (hperform : call.perform manager dynamo s.tbl = (tbl', .ok result))
    (hkey : call.key ≠ key)
    (hlease : ∀ lease ∈ result.lease, lease.leaseKey = call.lease.leaseKey) :
    Tracked key version number
      { tbl := tbl'
        pool := result.lease.toList ++ s.pool
        accepted :=
          if call.isUpdate then call :: s.accepted else s.accepted } := by
  have hrow := LeaseCall.perform_row_of_ne manager dynamo call s.tbl hkey
  rw [hperform] at hrow
  refine ⟨?_, ?_, ?_, h.bounded, ?_⟩
  · unfold HasCounter
    rw [hrow]
    exact h.hasCounter
  · rw [hrow]
    exact h.hasNumber
  · intro lease hmem hlkey counter hcounter
    exact h.fresh lease (mem_pool_of_key_ne hkey hlease hmem hlkey) hlkey counter
      hcounter
  · rw [h.counted]
    split_ifs
    · rw [switchesSinceCheckpoint_cons_of_ne hkey]
    · rfl

theorem Tracked.ownerSwitches_eq {call : LeaseCall}
    (h : Tracked call.key version number s) (hupdate : call.isUpdate = true)
    (hcarries : carriesSwitches s.pool call = true)
    (hmatch : call.matchesRow s.tbl = true) :
    call.lease.ownerSwitches = number := by
  obtain ⟨counter, hcounter, hval⟩ := leaseCounter_of_matchesRow hmatch h.hasCounter
  rw [carriesSwitches, hupdate] at hcarries
  obtain ⟨lease, hlease, hsame⟩ := List.any_eq_true.mp hcarries
  obtain ⟨hversion, hswitches⟩ := Bool.and_eq_true_iff.mp hsame
  obtain ⟨hkey, -, hcounter'⟩ := of_decide_eq_true hversion
  have hfresh := h.fresh lease hlease (by rw [hkey]; rfl) counter
    (hcounter'.trans hcounter)
  rw [← hfresh.2 hval, Lease.ownerSwitches, Lease.ownerSwitches,
    of_decide_eq_true hswitches]

/-- The lease object an update hands back has the old counter, or it has the new
one, the number of owner switches that it had and an owner that has not
changed. -/
theorem returned_ownerSwitches {call : LeaseCall}
    (hupdate : call.isUpdate = true) {lease : Lease}
    (h : call.returned = some lease) :
    lease.leaseCounter = call.lease.leaseCounter ∨
      call.changesOwner = false ∧ lease.ownerSwitches = call.lease.ownerSwitches := by
  cases call with
  | createLeaseIfNotExists created => cases hupdate
  | renewLease held =>
      cases h
      refine Or.inr ⟨rfl, ?_⟩
      unfold Lease.ownerSwitches copySharedWithIncrementedCounter LeaseCall.lease
      cases held.leaseCounter <;> rfl
  | takeLease held newOwner =>
      cases h
      exact Or.inl rfl
  | evictLease held => cases h
  | updateLease held =>
      cases h
      exact Or.inl rfl

/-- An update that succeeds is counted as it should be, unless it is a checkpoint
that finds switches to forget. -/
theorem Tracked.update {call : LeaseCall}
    (h : Tracked call.key version number s) (hupdate : call.isUpdate = true)
    (hmax : CounterBelowMax call.key s)
    (hcarries : carriesSwitches s.pool call = true) {tbl' : Table}
    {result : CallResult}
    (hperform : call.perform manager dynamo s.tbl = (tbl', .ok result))
    (hforgets : call.isCheckpoint = true → number = 0) :
    Tracked call.key (version + 1)
      (if call.changesOwner then number + 1 else number)
      { tbl := tbl'
        pool := result.lease.toList ++ s.pool
        accepted := call :: s.accepted } := by
  obtain ⟨-, hmatch, -, hresult⟩ :=
    (LeaseCall.perform_eq_ok_iff_of_isUpdate _ _ hupdate _ _ _).mp hperform
  have hcarried := h.ownerSwitches_eq hupdate hcarries hmatch
  have hlast := hmax _ h.hasCounter
  have hbounded := h.bounded
  have hsucc : (number + 1).toNat = number.toNat + 1 := by
    rw [UInt64.toNat_add]
    exact Nat.mod_eq_of_lt (by
      have : (1 : UInt64).toNat = 1 := rfl
      omega)
  refine ⟨hasCounter_succ_of_perform hupdate hperform h.hasCounter hlast, ?_, ?_,
    ?_, ?_⟩
  · rw [LeaseCall.ownerSwitches_of_perform hupdate hperform]
    have hnext : nextSwitches call.lease = number + 1 := by
      rw [← hcarried]
      rfl
    split_ifs
    · rw [hnext]
    · exact h.hasNumber
  · intro lease hmem hlkey counter hcounter
    rcases List.mem_append.mp hmem with hnew | hold
    · rw [hresult] at hnew
      have hreturned := Option.mem_toList.mp hnew
      obtain ⟨held, hheld, hval⟩ :=
        leaseCounter_of_matchesRow hmatch h.hasCounter
      obtain ⟨stored, hstored, hval'⟩ :=
        hasCounter_succ_of_perform hupdate hperform h.hasCounter hlast
      rw [LeaseCall.leaseCounter_of_perform hupdate hperform] at hstored
      cases counterAttribute_injective hstored
      have hle : counter.value.toNat ≤ version + 1 := by
        obtain ⟨-, hc | hc⟩ := returned_cases hupdate hreturned
        · rw [hcounter, hheld] at hc
          cases hc
          omega
        · rw [hcounter] at hc
          cases hc
          exact hval'.le
      refine ⟨hle, fun heq => ?_⟩
      rcases returned_ownerSwitches hupdate hreturned with hc | ⟨hsame, hcarry⟩
      · rw [hcounter, hheld] at hc
        cases hc
        omega
      · rw [if_neg (by simp [hsame]), hcarry, hcarried]
    · have hle := (h.fresh lease hold hlkey counter hcounter).1
      exact ⟨by omega, fun heq => by omega⟩
  · split_ifs
    · rw [hsucc]
      omega
    · omega
  · rw [switchesSinceCheckpoint_cons, ← h.counted]
    by_cases hcheckpoint : call.isCheckpoint = true
    · rw [if_pos hcheckpoint,
        LeaseCall.changesOwner_of_isCheckpoint hcheckpoint, hforgets hcheckpoint]
      rfl
    · rw [if_neg hcheckpoint]
      split_ifs
      · exact hsucc
      · rfl

/-- An action of a worker keeps what is tracked, unless it is a checkpoint that
finds switches to forget. -/
theorem Tracked.step {s' : Circulation} {action : WorkerAction}
    (h : Tracked key version number s) (hmax : CounterBelowMax key s)
    (hcarries : ∀ call, action = .call call → carriesSwitches s.pool call = true)
    (hforgets : ForgetsNothing manager dynamo key s action)
    (hstep : Circulation.step manager dynamo s action = some s') :
    ∃ version' number', Tracked key version' number' s' := by
  cases action with
  | listLeases order errno =>
      simp only [Circulation.step] at hstep
      cases hlist : manager.listLeases dynamo order errno s.tbl with
      | error e =>
          rw [hlist] at hstep
          cases hstep
          exact ⟨version, number, h⟩
      | ok leases =>
          rw [hlist] at hstep
          cases hstep
          exact ⟨version, number, h.listLeases hlist⟩
  | call call =>
      obtain ⟨-, rfl | ⟨tbl', result, hperform, rfl⟩⟩ := step_call_cases hstep
      · exact ⟨version, number, h⟩
      cases hupdate : call.isUpdate with
      | false =>
          refine ⟨version, number, ?_⟩
          cases call with
          | createLeaseIfNotExists created =>
              obtain ⟨-, ⟨hrow, -, hresult⟩ | ⟨-, htbl, hresult⟩⟩ :=
                (LeaseCall.perform_createLeaseIfNotExists_eq_ok_iff
                  _ _ _ _ _ _).mp hperform
              · have hkey : created.leaseKey.value ≠ key := by
                  rintro rfl
                  exact h.hasCounter.row_ne_none hrow
                refine h.of_key_ne hperform hkey ?_
                rw [hresult]
                rintro lease ⟨⟩
                rfl
              · rw [htbl, hresult]
                exact h
          | _ => cases hupdate
      | true =>
          obtain ⟨-, -, -, hresult⟩ :=
            (LeaseCall.perform_eq_ok_iff_of_isUpdate _ _ hupdate _ _ _).mp
              hperform
          by_cases hkey : call.key = key
          · subst hkey
            refine ⟨_, _, h.update hupdate hmax (hcarries call rfl) hperform ?_⟩
            intro hcheckpoint
            have hzero := hforgets call rfl rfl hcheckpoint ⟨_, _, hperform⟩
            rw [h.hasNumber] at hzero
            exact printUll_injective
              (AttributeValue.n.inj (Option.some.inj hzero))
          · have hother := h.of_key_ne hperform hkey fun lease hlease => by
              rw [hresult] at hlease
              exact (returned_cases hupdate hlease).1
            rw [hupdate] at hother
            exact ⟨version, number, hother⟩

/-- A checkpoint that succeeds and finds switches to forget leaves a number that
is wrong. -/
theorem Tracked.forgetsNothing {s' : Circulation} {action : WorkerAction}
    (h : Tracked key version number s)
    (hstep : Circulation.step manager dynamo s action = some s')
    (hcounted : SwitchesCounted key s') :
    ForgetsNothing manager dynamo key s action := by
  rintro call rfl rfl hcheckpoint ⟨tbl', result, hperform⟩
  have hupdate : call.isUpdate = true := by
    cases call with
    | updateLease lease => rfl
    | _ => cases hcheckpoint
  have hsame := LeaseCall.ownerSwitches_of_perform hupdate hperform
  rw [if_neg (by simp [LeaseCall.changesOwner_of_isCheckpoint hcheckpoint])]
    at hsame
  simp only [Circulation.step, hperform, hupdate] at hstep
  split_ifs at hstep
  cases hstep
  rw [SwitchesCounted, switchesSinceCheckpoint_cons, if_pos hcheckpoint] at hcounted
  rw [← hsame, hcounted]
  rfl

end Steps

/-- Just after a creation with zero switches, where no other lease object of the
key exists. -/
theorem tracked_created {manager : LeaseManager} {dynamo : Service}
    {created : Lease} {tbl₀ tbl : Table} {pool : List Lease}
    (hcreate : (LeaseCall.createLeaseIfNotExists created).perform manager dynamo
      tbl₀ = (tbl, .ok ⟨true, some created⟩))
    (hzero : created.ownerSwitches = 0)
    (hpool : ∀ lease ∈ pool, lease.leaseKey ≠ created.leaseKey) :
    ∃ version number, Tracked created.leaseKey.value version number
      ⟨tbl, created :: pool, []⟩ := by
  obtain ⟨-, ⟨-, rfl, -⟩ | ⟨-, -, hresult⟩⟩ :=
    (LeaseCall.perform_createLeaseIfNotExists_eq_ok_iff _ _ _ _ _ _).mp hcreate
  · refine ⟨_, 0, hasCounter_put_toDynamoDict tbl₀ created, ?_, ?_, Nat.zero_le _,
      rfl⟩
    · have hprinted : printNumber created.ownerSwitchesSinceCheckpoint =
          printUll 0 := by
        rw [← hzero]
        exact printNumber_eq _
      rw [Table.row_put, if_pos rfl, attributeOf_some, lookup_insert,
        if_neg (by decide), lookup_toDynamoDict, if_neg (by decide), if_pos rfl,
        hprinted]
    · intro lease hmem hkey counter hcounter
      rcases List.mem_cons.mp hmem with rfl | hmem
      · rw [hcounter]
        exact ⟨le_rfl, fun _ => hzero⟩
      · exact absurd (StringProxy.ext hkey) (hpool lease hmem)
  · cases hresult

/-- In every run of the workers after the creation of a row with zero switches,
up to the last value of its counter and with lease objects that carry the number
they were read with, the row's number is that of the takes that changed the owner
since the last checkpoint, in every state, exactly if no checkpoint succeeds
while the number is not zero. -/
theorem switchesCounted_iff (manager : LeaseManager) (dynamo : Service)
    (created : Lease) (tbl₀ tbl : Table) (pool : List Lease)
    (hcreate : (LeaseCall.createLeaseIfNotExists created).perform manager dynamo
      tbl₀ = (tbl, .ok ⟨true, some created⟩))
    (hzero : created.ownerSwitches = 0)
    (hpool : ∀ lease ∈ pool, lease.leaseKey ≠ created.leaseKey)
    (actions : List WorkerAction) (s : Circulation)
    (hm : Meets (step manager dynamo)
      (fun s action => CounterBelowMax created.leaseKey.value s ∧
        ∀ call, action = .call call → carriesSwitches s.pool call = true)
      ⟨tbl, created :: pool, []⟩ actions)
    (hr : run (step manager dynamo) ⟨tbl, created :: pool, []⟩ actions = some s) :
    Meets (step manager dynamo)
        (ForgetsNothing manager dynamo created.leaseKey.value)
        ⟨tbl, created :: pool, []⟩ actions ↔
      Throughout (step manager dynamo) (SwitchesCounted created.leaseKey.value)
        ⟨tbl, created :: pool, []⟩ actions := by
  refine Transition.meets_iff_throughout_of_meets
    (I := fun s => ∃ version number,
      Tracked created.leaseKey.value version number s) ?_ ?_ ?_
    (tracked_created hcreate hzero hpool) hm hr
  · rintro s ⟨version, number, h⟩
    exact h.switchesCounted
  · rintro s action s' ⟨version, number, h⟩ ⟨hmax, hcarries⟩ hforgets hstep
    exact h.step hmax hcarries hforgets hstep
  · rintro s action s' ⟨version, number, h⟩ - hstep hcounted
    exact h.forgetsNothing hstep hcounted

def sampleTake : LeaseCall := .takeLease sampleLease ⟨"worker-b"⟩

theorem switchesCounted_sampleTake :
    Throughout (step sampleManager sampleDynamo)
      (SwitchesCounted sampleLease.leaseKey.value)
      ⟨sampleTable, [sampleLease], []⟩ [.call sampleTake] := by
  refine (switchesCounted_iff sampleManager sampleDynamo sampleLease Table.empty
    sampleTable [] ?_ rfl (by simp) [.call sampleTake] _ ?_ rfl).mp ?_
  · exact Prod.ext rfl (by decide +kernel)
  · refine ⟨⟨?_, ?_⟩, fun _ _ => trivial⟩
    · intro n hn
      rw [hn.unique (hasCounter_put_toDynamoDict Table.empty sampleLease)]
      decide
    · rintro call ⟨⟩
      decide
  · refine ⟨?_, fun _ _ => trivial⟩
    rintro call ⟨⟩ - hcheckpoint
    cases hcheckpoint

/-- The new owner lists the lease and checkpoints it. The number of owner
switches stays at one, where there was none since the checkpoint. -/
theorem checkpoint_keepsSwitches :
    let listed : Lease :=
      { sampleLease with
        leaseOwner := some ⟨"worker-b"⟩
        leaseCounter := some ⟨6⟩
        lastCounterIncrementNanoseconds := some ⟨0⟩
        ownerSwitchesSinceCheckpoint := some ⟨1⟩ }
    ∃ s, run (step sampleManager sampleDynamo) ⟨sampleTable, [sampleLease], []⟩
        [.call sampleTake, .listLeases ["shard-1"] 0,
          .call (.updateLease { listed with checkpointID := some ⟨"1234"⟩ })] =
        some s ∧
      listed ∈ s.pool ∧
      s.accepted.map LeaseCall.isCheckpoint = [true, false] ∧
      switchesSinceCheckpoint "shard-1" s.accepted = 0 ∧
      attributeOf (s.tbl.row "shard-1") "ownerSwitchesSinceCheckpoint" =
        some (.n "1") := by
  refine ⟨_, rfl, ?_⟩
  decide +kernel

end Circulation

end Leases

end Kclpp
