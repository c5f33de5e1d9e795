import Kclpp.Leases.LeaseManager.Calls
import Kclpp.Transition.Run

/-!
# Which stored rows can be read

`Lease::fromDynamoDict` insists on an owner attribute, even an empty one, while
the writers leave it out for a lease without an owner. `readable_iff` says what
the reader needs of a row whose numbers were printed by the writers, and
`allReadable_put_iff` what a call must leave behind. Starting from an empty
table all rows stay readable exactly as long as every call that writes meets
`KeepsReadable`.
-/

open OrderedMap

namespace Kclpp

namespace Leases

open Dynamo Util Lease

open Transition (run Meets run_cons_eq_some_iff)

/-- `Lease::fromDynamoDict` accepts the row. -/
def Readable (errno : Errno) (item : Item) : Prop :=
  ∃ lease errno', fromDynamoDict errno item = (.ok lease, errno')

def AllReadable (errno : Errno) (tbl : Table) : Prop :=
  ∀ key item, tbl.row key = some item → Readable errno item

/-- `listLeases` reports every row of the page it scans, in its order. -/
def ListsWholePage (manager : LeaseManager) (dynamo : Service) (errno : Errno)
    (tbl : Table) : Prop :=
  ∀ order leases, manager.listLeases dynamo order errno tbl = .ok leases →
    leases.map (fun lease => lease.leaseKey.value) =
      (order.filter fun key => (tbl.row key).isSome).take 100

def numberNames : List String :=
  ["leaseCounter", "ownerSwitchesSinceCheckpoint",
    "lastCounterIncrementNanoseconds"]

def NumbersPrinted (item : Item) : Prop :=
  ∀ name ∈ numberNames, ∃ field : Option UInt64,
    lookup item name = field.map fun n => .n (printUll n)

/-- No number of the row is one that a leftover `ERANGE` makes unreadable. -/
def NumbersKept (errno : Errno) (item : Item) : Prop :=
  ∀ name ∈ numberNames,
    lookup item name = some (.n (printUll ULLONG_MAX)) → errno ≠ ERANGE

/-- Reading a printed number, or the zero that stands for a missing one, leaves
`errno` alone and fails only on a lost one. -/
theorem readNumber_of_printed {name : String} {item : Item}
    {field : Option UInt64}
    (h : lookup item name = field.map fun n => .n (printUll n))
    (errno : Errno) :
    ((lookup item name = some (.n (printUll ULLONG_MAX)) → errno ≠ ERANGE) ∧
        readNumber name errno item = (.ok (some (field.getD 0)), errno)) ∨
      (lookup item name = some (.n (printUll ULLONG_MAX)) ∧ errno = ERANGE ∧
        ∃ e, readNumber name errno item = (.error e, errno)) := by
  cases field with
  | none =>
      left
      rw [Option.map_none] at h
      refine ⟨?_, ?_⟩
      · rw [h]
        simp
      · rw [readNumber, h]
        rfl
  | some n =>
      rw [Option.map_some] at h
      rw [readNumber_of_lookup h, h]
      by_cases hlost : n = ULLONG_MAX ∧ errno = ERANGE
      · right
        refine ⟨by rw [hlost.1], hlost.2, _, if_pos hlost⟩
      · left
        refine ⟨?_, if_neg hlost⟩
        intro hmax herrno
        refine hlost ⟨printUll_injective ?_, herrno⟩
        exact AttributeValue.n.inj (Option.some.inj hmax)

/-- What the reader needs of a row whose numbers were printed: a key, an owner
attribute, and no number that is lost. It then leaves `errno` alone. -/
theorem fromDynamoDict_of_printed (errno : Errno) {item : Item}
    (hprinted : NumbersPrinted item) :
    (((∃ key, lookup item "leaseKey" = some key ∧ key.getS ≠ "") ∧
          lookup item "leaseOwner" ≠ none ∧ NumbersKept errno item) →
        ∃ lease, fromDynamoDict errno item = (.ok lease, errno)) ∧
      (Readable errno item →
        (∃ key, lookup item "leaseKey" = some key ∧ key.getS ≠ "") ∧
          lookup item "leaseOwner" ≠ none ∧ NumbersKept errno item) := by
  obtain ⟨counter, hcounter⟩ := hprinted "leaseCounter" (by simp [numberNames])
  obtain ⟨switches, hswitches⟩ :=
    hprinted "ownerSwitchesSinceCheckpoint" (by simp [numberNames])
  obtain ⟨last, hlast⟩ :=
    hprinted "lastCounterIncrementNanoseconds" (by simp [numberNames])
  have h₁ := readNumber_of_printed hcounter errno
  have h₂ := readNumber_of_printed hswitches errno
  have h₃ := readNumber_of_printed hlast errno
  constructor
  · rintro ⟨⟨key, hkey, hne⟩, howner, hkept⟩
    obtain ⟨owner, howner⟩ := Option.ne_none_iff_exists'.mp howner
    rcases h₁ with ⟨-, h₁⟩ | ⟨hmax, herrno, -⟩
    case inr => exact absurd herrno (hkept _ (by simp [numberNames]) hmax)
    rcases h₂ with ⟨-, h₂⟩ | ⟨hmax, herrno, -⟩
    case inr => exact absurd herrno (hkept _ (by simp [numberNames]) hmax)
    rcases h₃ with ⟨-, h₃⟩ | ⟨hmax, herrno, -⟩
    case inr => exact absurd herrno (hkept _ (by simp [numberNames]) hmax)
    exact ⟨_, (fromDynamoDict_eq_ok_iff _ _ _ _).mpr
      ⟨key, owner, _, _, _, errno, errno, hkey, hne, howner, h₁, h₂, h₃, rfl⟩⟩
  · rintro ⟨lease, errno', h⟩
    obtain ⟨key, owner, c, w, l, e₁, e₂, hkey, hne, howner, hc, hw, hl, -⟩ :=
      (fromDynamoDict_eq_ok_iff _ _ _ _).mp h
    rcases h₁ with ⟨hk₁, h₁⟩ | ⟨-, -, e, h₁⟩
    case inr => rw [h₁] at hc; cases hc
    rw [h₁] at hc
    cases hc
    rcases h₂ with ⟨hk₂, h₂⟩ | ⟨-, -, e, h₂⟩
    case inr => rw [h₂] at hw; cases hw
    rw [h₂] at hw
    cases hw
    rcases h₃ with ⟨hk₃, h₃⟩ | ⟨-, -, e, h₃⟩
    case inr => rw [h₃] at hl; cases hl
    refine ⟨⟨key, hkey, hne⟩, by rw [howner]; simp, ?_⟩
    intro name hname
    simp only [numberNames, List.mem_cons, List.not_mem_nil, or_false] at hname
    rcases hname with rfl | rfl | rfl
    · exact hk₁
    · exact hk₂
    · exact hk₃

theorem readable_iff {errno : Errno} {item : Item}
    (hprinted : NumbersPrinted item) :
    Readable errno item ↔
      (∃ key, lookup item "leaseKey" = some key ∧ key.getS ≠ "") ∧
        lookup item "leaseOwner" ≠ none ∧ NumbersKept errno item := by
  have h := fromDynamoDict_of_printed errno hprinted
  constructor
  · exact h.2
  · intro hneeds
    obtain ⟨lease, hlease⟩ := h.1 hneeds
    exact ⟨lease, errno, hlease⟩

def TablePrinted (tbl : Table) : Prop :=
  ∀ key item, tbl.row key = some item → NumbersPrinted item

/-- What the reader makes of the row of a key, if anything. -/
def storedLease (errno : Errno) (tbl : Table) (key : String) : Option Lease :=
  (tbl.row key).bind fun item => (fromDynamoDict errno item).1.toOption

theorem leaseKey_of_storedLease {errno : Errno} {tbl : Table} {key : String}
    {lease : Lease} (h : storedLease errno tbl key = some lease) :
    lease.leaseKey.value = key := by
  obtain ⟨item, hrow, hread⟩ := Option.bind_eq_some_iff.mp h
  cases hdict : fromDynamoDict errno item with
  | mk outcome errno' =>
      rw [hdict] at hread
      cases outcome with
      | error e => cases hread
      | ok lease' =>
          cases hread
          obtain ⟨attr, -, -, -, -, -, -, hattr, -, -, -, -, -, rfl⟩ :=
            (fromDynamoDict_eq_ok_iff _ _ _ _).mp hdict
          have hstored := Table.keyAttribute_of_row hrow
          rw [keyAttribute, hattr] at hstored
          cases hstored
          rfl

theorem AllReadable.exists_storedLease {errno : Errno} {tbl : Table}
    (h : AllReadable errno tbl) {key : String} {item : Item}
    (hrow : tbl.row key = some item) :
    ∃ lease, storedLease errno tbl key = some lease ∧
      fromDynamoDict errno item = (.ok lease, errno) := by
  obtain ⟨lease, errno', hread⟩ := h key item hrow
  have herrno := errno_of_fromDynamoDict_eq_ok hread
  subst herrno
  exact ⟨lease, by rw [storedLease, hrow, Option.bind_some, hread]; rfl, hread⟩

/-- Rows that are all accepted are all reported, since reading one leaves
`errno` alone for the next. -/
theorem forall₂_readLeases {errno : Errno} {tbl : Table}
    (hreadable : AllReadable errno tbl) {keys : List String} {items : List Item}
    (h : List.Forall₂ (fun key item => tbl.row key = some item) keys items) :
    List.Forall₂ (fun key lease => storedLease errno tbl key = some lease) keys
      (LeaseManager.readLeases errno items).1 := by
  induction h with
  | nil => exact List.Forall₂.nil
  | @cons key item keys items hrow _ ih =>
      obtain ⟨lease, hstored, hread⟩ := hreadable.exists_storedLease hrow
      simp only [LeaseManager.readLeases, hread]
      exact List.Forall₂.cons hstored ih

theorem map_leaseKey_of_forall₂ {errno : Errno} {tbl : Table}
    {keys : List String} {leases : List Lease}
    (h : List.Forall₂ (fun key lease => storedLease errno tbl key = some lease)
      keys leases) : leases.map (fun lease => lease.leaseKey.value) = keys := by
  induction h with
  | nil => rfl
  | cons hstored _ ih => rw [List.map_cons, leaseKey_of_storedLease hstored, ih]

theorem storedLease_of_forall₂ {errno : Errno} {tbl : Table}
    {keys : List String} {leases : List Lease}
    (h : List.Forall₂ (fun key lease => storedLease errno tbl key = some lease)
      keys leases) :
    ∀ lease ∈ leases, storedLease errno tbl lease.leaseKey.value = some lease := by
  induction h with
  | nil => exact List.forall_mem_nil _
  | cons hstored _ ih =>
      refine List.forall_mem_cons.mpr ⟨?_, ih⟩
      rw [leaseKey_of_storedLease hstored]
      exact hstored

theorem forall₂_filterMap_row (tbl : Table) (order : List String) :
    List.Forall₂ (fun key item => tbl.row key = some item)
      (order.filter fun key => (tbl.row key).isSome)
      (order.filterMap tbl.row) := by
  induction order with
  | nil => exact List.Forall₂.nil
  | cons key order ih =>
      cases hrow : tbl.row key with
      | none =>
          rw [List.filterMap_cons_none hrow, List.filter_cons_of_neg (by simp [hrow])]
          exact ih
      | some item =>
          rw [List.filterMap_cons_some hrow, List.filter_cons_of_pos (by simp [hrow])]
          exact List.Forall₂.cons hrow ih

theorem AllReadable.listsWholePage {errno : Errno} {tbl : Table}
    (hreadable : AllReadable errno tbl) (manager : LeaseManager)
    (dynamo : Service) : ListsWholePage manager dynamo errno tbl := by
  intro order leases h
  unfold LeaseManager.listLeases Service.scan at h
  split_ifs at h with hreach
  · cases h
    exact map_leaseKey_of_forall₂ (forall₂_readLeases hreadable
      (List.forall₂_take 100 (forall₂_filterMap_row tbl order)))
  · cases h

namespace LeaseCall

def writtenNumber (call : LeaseCall) (name : String) : Option UInt64 :=
  match call with
  | createLeaseIfNotExists lease =>
      if name = "leaseCounter" then some (lease.leaseCounter.elim 0 (·.value))
      else if name = "ownerSwitchesSinceCheckpoint" then
        some (lease.ownerSwitchesSinceCheckpoint.elim 0 (·.value))
      else if name = "lastCounterIncrementNanoseconds" then
        some (lease.lastCounterIncrementNanoseconds.elim 0 (·.value))
      else none
  | call =>
      if name = "leaseCounter" then some (nextCounter call.lease)
      else if name = "ownerSwitchesSinceCheckpoint" ∧
          (switchesUpdate call.lease call.params).isSome = true then
        some (nextSwitches call.lease)
      else none

/-- What a call that writes must see to for its row to stay readable: the row
has a key and an owner, and no number is written that a leftover `ERANGE` makes
unreadable. -/
def KeepsReadable (manager : LeaseManager) (dynamo : Service) (errno : Errno)
    (tbl : Table) (call : LeaseCall) : Prop :=
  call.writes manager dynamo tbl = true →
    call.key ≠ "" ∧ call.ownerAfter ≠ none ∧
      ∀ name, call.writtenNumber name = some ULLONG_MAX → errno ≠ ERANGE

theorem switchesUpdate_cases (lease : Lease) (params : UpdateLeaseParams) :
    switchesUpdate lease params = none ∨
      switchesUpdate lease params =
        some (.withValue (.n (printUll (nextSwitches lease)))) := by
  unfold switchesUpdate
  split_ifs
  · exact Or.inl rfl
  · cases params.newOwner with
    | none => exact Or.inl rfl
    | some newOwner =>
        rw [Option.bind_some]
        split_ifs
        · exact Or.inl rfl
        · exact Or.inr rfl

theorem lookup_newRow (call : LeaseCall) (tbl : Table) {name : String}
    (hname : name ∈ numberNames) :
    lookup (call.newRow tbl) name =
      (call.writtenNumber name).elim (attributeOf (tbl.row call.key) name)
        fun n => some (.n (printUll n)) := by
  simp only [numberNames, List.mem_cons, List.not_mem_nil, or_false] at hname
  cases hupdate : call.isUpdate with
  | false =>
      cases call with
      | createLeaseIfNotExists lease =>
          rcases hname with rfl | rfl | rfl <;>
            simp [newRow, isUpdate, LeaseCall.lease, lookup_toDynamoDict,
              writtenNumber, printNumber_eq]
      | _ => cases hupdate
  | true =>
      have hold : ∀ name, lookup ((tbl.row call.key).getD ∅) name =
          attributeOf (tbl.row call.key) name := by
        intro name
        cases tbl.row call.key <;> simp
      have hwritten : ∀ name, call.writtenNumber name =
          if name = "leaseCounter" then some (nextCounter call.lease)
          else if name = "ownerSwitchesSinceCheckpoint" ∧
              (switchesUpdate call.lease call.params).isSome = true then
            some (nextSwitches call.lease)
          else none := by
        intro name
        cases call with
        | createLeaseIfNotExists lease => cases hupdate
        | _ => rfl
      rw [newRow, hupdate, if_pos rfl, updatedRow, lookup_applyUpdates, hold,
        hwritten]
      rcases hname with rfl | rfl | rfl
      · rw [lookup_updates hupdate (by decide) (by decide),
          lookup_makeUpdateValues]
        rfl
      · rw [lookup_updates hupdate (by decide) (by decide),
          lookup_makeUpdateValues]
        rcases switchesUpdate_cases call.lease call.params with h | h <;>
          simp [h, AttributeValueUpdate.result]
      · rw [lookup_updates hupdate (by decide) (by decide),
          lookup_makeUpdateValues]
        simp

theorem leaseOwner_newRow {manager : LeaseManager} {dynamo : Service}
    {call : LeaseCall} {tbl : Table}
    (hwrites : call.writes manager dynamo tbl = true) :
    lookup (call.newRow tbl) "leaseOwner" = stringAttribute call.ownerAfter := by
  cases hupdate : call.isUpdate with
  | false =>
      cases call with
      | createLeaseIfNotExists lease =>
          simp [newRow, isUpdate, LeaseCall.lease, lookup_toDynamoDict, ownerAfter]
      | _ => cases hupdate
  | true =>
      have hfst := perform_fst manager dynamo call tbl
      rw [if_pos hwrites] at hfst
      simp only [writes, hupdate, if_true, Bool.and_eq_true] at hwrites
      obtain ⟨tbl', hok⟩ := exists_perform_eq_ok hupdate hwrites.1 hwrites.2
      rw [hok] at hfst
      have howner := leaseOwner_of_perform hupdate hok
      rw [show tbl' = _ from hfst, Table.row_put, if_pos rfl, attributeOf_some,
        lookup_insert, if_neg (by decide)] at howner
      exact howner

theorem numbersPrinted_newRow {call : LeaseCall} {tbl : Table}
    (hprinted : ∀ item, tbl.row call.key = some item → NumbersPrinted item) :
    NumbersPrinted ((call.newRow tbl).insert keyAttribute (.s call.key)) := by
  intro name hname
  have hne : keyAttribute ≠ name := by
    rintro rfl
    exact absurd hname (by decide)
  rw [lookup_insert, if_neg hne, lookup_newRow call tbl hname]
  cases call.writtenNumber name with
  | some n => exact ⟨some n, rfl⟩
  | none =>
      cases hrow : tbl.row call.key with
      | none => exact ⟨none, rfl⟩
      | some item => exact hprinted item hrow name hname

theorem tablePrinted_perform {tbl : Table} (hprinted : TablePrinted tbl)
    (manager : LeaseManager) (dynamo : Service) (call : LeaseCall) :
    TablePrinted (call.perform manager dynamo tbl).1 := by
  rw [perform_fst]
  split_ifs with hwrites
  · intro key item hrow
    rw [Table.row_put] at hrow
    split_ifs at hrow with hkey
    · cases hrow
      exact numbersPrinted_newRow (hprinted call.key)
    · exact hprinted key item hrow
  · exact hprinted

/-- The numbers of the row a call writes are kept exactly when the numbers it
writes are, since the others were kept before. -/
theorem numbersKept_newRow_iff {errno : Errno} {tbl : Table}
    (hprinted : TablePrinted tbl) (hreadable : AllReadable errno tbl)
    (call : LeaseCall) :
    NumbersKept errno ((call.newRow tbl).insert keyAttribute (.s call.key)) ↔
      ∀ name, call.writtenNumber name = some ULLONG_MAX → errno ≠ ERANGE := by
  have hne : ∀ name ∈ numberNames, keyAttribute ≠ name := by decide
  constructor
  · intro hkept name hwritten
    have hname : name ∈ numberNames := by
      unfold writtenNumber at hwritten
      simp only [numberNames, List.mem_cons, List.not_mem_nil, or_false]
      split at hwritten <;> split_ifs at hwritten <;> simp_all
    refine hkept name hname ?_
    rw [lookup_insert, if_neg (hne name hname), lookup_newRow call tbl hname,
      hwritten]
    rfl
  · intro hwritten name hname hmax
    rw [lookup_insert, if_neg (hne name hname),
      lookup_newRow call tbl hname] at hmax
    cases hn : call.writtenNumber name with
    | some n =>
        rw [hn] at hmax
        refine hwritten name ?_
        rw [hn, printUll_injective (AttributeValue.n.inj (Option.some.inj hmax))]
    | none =>
        rw [hn, Option.elim_none] at hmax
        cases hrow : tbl.row call.key with
        | none =>
            rw [hrow] at hmax
            cases hmax
        | some item =>
            rw [hrow, attributeOf_some] at hmax
            exact ((readable_iff (hprinted _ item hrow)).mp
              (hreadable _ item hrow)).2.2 name hname hmax

theorem allReadable_perform_iff {errno : Errno} {tbl : Table}
    (hprinted : TablePrinted tbl) (hreadable : AllReadable errno tbl)
    (manager : LeaseManager) (dynamo : Service) (call : LeaseCall) :
    AllReadable errno (call.perform manager dynamo tbl).1 ↔
      call.KeepsReadable manager dynamo errno tbl := by
  unfold KeepsReadable
  rw [perform_fst]
  split_ifs with hwrites
  · have hrow : AllReadable errno (tbl.put call.key (call.newRow tbl)) ↔
        Readable errno
          ((call.newRow tbl).insert keyAttribute (.s call.key)) := by
      constructor
      · intro h
        exact h call.key _ (by simp)
      · intro h key item hitem
        rw [Table.row_put] at hitem
        split_ifs at hitem
        · cases hitem
          exact h
        · exact hreadable key item hitem
    have howner : lookup ((call.newRow tbl).insert keyAttribute (.s call.key))
        "leaseOwner" ≠ none ↔ call.ownerAfter ≠ none := by
      rw [lookup_insert, if_neg (by decide), leaseOwner_newRow hwrites]
      cases call.ownerAfter <;> simp [stringAttribute]
    rw [hrow, readable_iff (numbersPrinted_newRow (hprinted call.key)), howner,
      numbersKept_newRow_iff hprinted hreadable]
    simp [keyAttribute, AttributeValue.getS, hwrites]
  · simp [hreadable, hwrites]

def after (manager : LeaseManager) (dynamo : Service) (tbl : Table)
    (call : LeaseCall) : Option Table :=
  some (call.perform manager dynamo tbl).1

/-- Along a run from a readable table, all rows stay readable exactly when every
call meets the condition. -/
theorem allReadable_run_iff {errno : Errno} {tbl : Table}
    (hprinted : TablePrinted tbl) (hreadable : AllReadable errno tbl)
    (manager : LeaseManager) (dynamo : Service) (calls : List LeaseCall) :
    (∀ calls' tbl', calls' <+: calls →
        run (after manager dynamo) tbl calls' = some tbl' →
        AllReadable errno tbl') ↔
      Meets (after manager dynamo)
        (fun tbl call => call.KeepsReadable manager dynamo errno tbl) tbl
        calls := by
  induction calls generalizing tbl with
  | nil =>
      refine iff_of_true ?_ trivial
      intro calls' tbl' hprefix hrun
      rw [List.prefix_nil.mp hprefix] at hrun
      cases hrun
      exact hreadable
  | cons call calls ih =>
      have hstep := allReadable_perform_iff hprinted hreadable manager dynamo call
      have hprinted' := tablePrinted_perform hprinted manager dynamo call
      rw [Transition.meets_cons, ← hstep]
      constructor
      · intro h
        have hfirst : AllReadable errno (call.perform manager dynamo tbl).1 :=
          h [call] _ ⟨calls, rfl⟩ rfl
        refine ⟨hfirst, ?_⟩
        rintro tbl' ⟨⟩
        refine (ih hprinted' hfirst).mp fun calls' tbl' hprefix hrun => ?_
        exact h (call :: calls') tbl'
          (List.cons_prefix_cons.mpr ⟨rfl, hprefix⟩) hrun
      · rintro ⟨hfirst, hrest⟩ calls' tbl' hprefix hrun
        cases calls' with
        | nil =>
            cases hrun
            exact hreadable
        | cons c calls' =>
            obtain ⟨rfl, htail⟩ := List.cons_prefix_cons.mp hprefix
            exact (ih hprinted' hfirst).mpr (hrest _ rfl) calls' tbl' htail hrun

/-- Starting from an empty table, every stored row stays readable, and every
page is listed whole, exactly when each call that writes leaves its row a key,
an owner, and no number that a leftover `ERANGE` makes unreadable. -/
theorem allReadable_from_empty_iff (manager : LeaseManager) (dynamo : Service)
    (errno : Errno) (calls : List LeaseCall) :
    (∀ calls' tbl, calls' <+: calls →
        run (after manager dynamo) Table.empty calls' = some tbl →
        AllReadable errno tbl ∧ ListsWholePage manager dynamo errno tbl) ↔
      Meets (after manager dynamo)
        (fun tbl call => call.KeepsReadable manager dynamo errno tbl)
        Table.empty calls := by
  have hprinted : TablePrinted Table.empty := by
    intro key item hrow
    rw [Table.row_empty] at hrow
    cases hrow
  have hreadable : AllReadable errno Table.empty := by
    intro key item hrow
    rw [Table.row_empty] at hrow
    cases hrow
  rw [← allReadable_run_iff hprinted hreadable]
  constructor
  · intro h calls' tbl hprefix hrun
    exact (h calls' tbl hprefix hrun).1
  · intro h calls' tbl hprefix hrun
    have hread := h calls' tbl hprefix hrun
    exact ⟨hread, hread.listsWholePage manager dynamo⟩

/-- A worker's lease is created and then evicted. Both calls succeed, and the
row that is left is rejected by the reader and missing from the listing. -/
theorem evictLease_unreadable :
    let calls : List LeaseCall :=
      [createLeaseIfNotExists sampleLease, evictLease sampleLease]
    ∃ tbl item,
      run (after sampleManager sampleDynamo) Table.empty calls = some tbl ∧
      tbl.row "shard-1" = some item ∧
      (fromDynamoDict 0 item).1 = .error ⟨"missing 'leaseOwner'"⟩ ∧
      sampleManager.listLeases sampleDynamo ["shard-1"] 0 tbl = .ok [] := by
  exact ⟨_, _, rfl, rfl, by decide +kernel, by decide +kernel⟩

end LeaseCall

end Leases

end Kclpp
