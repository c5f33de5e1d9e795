import Kclpp.Leases.LeaseManager.Readability
import Kclpp.Leases.LeaseProcess.Basic
import Kclpp.Leases.LeaseTaker.Scans

/-!
# What a listing leaves out

`listLeases` asks for one page of at most a hundred rows and does not look at
the key the service gives to continue from. `listLeasesPage` is the operation
around a service whose pages may also end early. The listing, and with it the
scan of the taker and the renewals of `initialize`, is complete exactly for a
table that fits on one page: `listsEveryLease_iff`.
-/

open Std OrderedMap

namespace Kclpp

namespace Leases

open Clock Dynamo Util Lease

/-- `LeaseManager::listLeases` around a page with room for `pageRoom` rows. -/
def LeaseManager.listLeasesPage (manager : LeaseManager) (dynamo : Service)
    (order : List String) (pageRoom : ℕ) (errno : Errno) (tbl : Table) :
    Except DynamoDBErrors (List Lease) :=
  (dynamo.scanPage { tableName := some manager.tableName, limit := 100 } order
    pageRoom tbl).map fun result => (readLeases errno result.items).1

/-- A page with room for the hundred rows asked for is the one `listLeases`
reads. -/
theorem LeaseManager.listLeasesPage_of_le {pageRoom : ℕ} (h : 100 ≤ pageRoom)
    (manager : LeaseManager) (dynamo : Service) (order : List String)
    (errno : Errno) (tbl : Table) :
    manager.listLeasesPage dynamo order pageRoom errno tbl =
      manager.listLeases dynamo order errno tbl := by
  have hlimit : ({ tableName := some manager.tableName, limit := 100 } :
      ScanRequest).limit ≤ pageRoom := h
  have hscan := Service.map_items_scanPage hlimit dynamo order tbl
  rw [listLeases, ← hscan, listLeasesPage]
  cases dynamo.scanPage { tableName := some manager.tableName, limit := 100 }
    order pageRoom tbl with
  | error e => rfl
  | ok result => rfl

theorem LeaseManager.listLeasesPage_eq_ok_iff (manager : LeaseManager)
    (dynamo : Service) (order : List String) (pageRoom : ℕ) (errno : Errno)
    (tbl : Table) (leases : List Lease) :
    manager.listLeasesPage dynamo order pageRoom errno tbl = .ok leases ↔
      dynamo.reaches (some manager.tableName) = true ∧
        (readLeases errno
          ((order.filterMap tbl.row).take (min 100 pageRoom))).1 = leases := by
  unfold listLeasesPage Service.scanPage
  split_ifs with h
  · simp [h, Except.map]
  · simp [h, Except.map]

/-- The service walks every row of the table, and none twice. -/
structure Walks (tbl : Table) (order : List String) : Prop where
  nodup : order.Nodup
  covers : ∀ key, tbl.row key ≠ none → key ∈ order

namespace Walks

variable {tbl : Table} {order : List String}

theorem mem_filter_iff (h : Walks tbl order) (key : String) :
    key ∈ order.filter (fun key => (tbl.row key).isSome) ↔
      tbl.row key ≠ none := by
  rw [List.mem_filter, ← Option.isSome_iff_ne_none]
  exact and_iff_right_of_imp fun hrow =>
    h.covers key (Option.isSome_iff_ne_none.mp hrow)

theorem length_filter (h : Walks tbl order) :
    (order.filter fun key => (tbl.row key).isSome).length = tbl.rows.size := by
  have hkeys : ∀ key, key ∈ (order.filter fun key => (tbl.row key).isSome).toFinset ↔
      lookup tbl.rows key ≠ none := by
    intro key
    rw [List.mem_toFinset, h.mem_filter_iff]
    rfl
  rw [size_eq_card tbl.rows hkeys, List.toFinset_card_of_nodup (h.nodup.filter _)]

end Walks

/-- The listing has every stored lease once, and no other. -/
structure ListsEveryLease (errno : Errno) (tbl : Table) (leases : List Lease) :
    Prop where
  once : ∀ key lease, storedLease errno tbl key = some lease →
    leases.count lease = 1
  stored : ∀ lease ∈ leases,
    storedLease errno tbl lease.leaseKey.value = some lease

theorem ListsEveryLease.mem {errno : Errno} {tbl : Table} {leases : List Lease}
    (h : ListsEveryLease errno tbl leases) {key : String} {lease : Lease}
    (hlease : storedLease errno tbl key = some lease) : lease ∈ leases := by
  rw [← List.count_pos_iff, h.once key lease hlease]
  exact one_pos

/-- A taker that updates its leases from the listing holds exactly the keys of
the table afterwards. -/
def TakerSees (errno : Errno) (tbl : Table) (leases : List Lease) : Prop :=
  ∀ (taker : LeaseTaker) (now : NanosecondPoint) (key : LeaseKey),
    ((taker.updateAllLeases now leases).allLeases.get key).isSome =
      (storedLease errno tbl key.value).isSome

/-- `initialize` goes on to renew every stored lease when it gets the
listing. -/
def InitializeSees (errno : Errno) (tbl : Table) (leases : List Lease) : Prop :=
  ∀ (p : LeaseProcess) (call : ℕ) (key : String) (lease : Lease),
    storedLease errno tbl key = some lease →
    .decideRenewal ⟨lease, p.time, .inInitialize call⟩
        { renewEvenIfExpired := true } ∈
      (p.onListedForInitialize call (.ok leases)).tasks

section Page

variable {errno : Errno} {tbl : Table} {keys : List String}
  {leases : List Lease}

theorem nodup_of_forall₂ (hnodup : keys.Nodup)
    (h : List.Forall₂ (fun key lease => storedLease errno tbl key = some lease)
      keys leases) : leases.Nodup := by
  refine List.Nodup.of_map (fun lease => lease.leaseKey.value) ?_
  rw [map_leaseKey_of_forall₂ h]
  exact hnodup

theorem mem_iff_of_forall₂
    (h : List.Forall₂ (fun key lease => storedLease errno tbl key = some lease)
      keys leases) {key : String} {lease : Lease}
    (hlease : storedLease errno tbl key = some lease) :
    lease ∈ leases ↔ key ∈ keys := by
  rw [← map_leaseKey_of_forall₂ h, List.mem_map]
  constructor
  · intro hmem
    exact ⟨lease, hmem, leaseKey_of_storedLease hlease⟩
  · rintro ⟨lease', hmem, hkey⟩
    have hstored := storedLease_of_forall₂ h lease' hmem
    rw [hkey, hlease] at hstored
    cases hstored
    exact hmem

/-- The listing is complete exactly if every row of the table is read. -/
theorem listsEveryLease_iff_of_forall₂ (hreadable : AllReadable errno tbl)
    (hnodup : keys.Nodup)
    (h : List.Forall₂ (fun key lease => storedLease errno tbl key = some lease)
      keys leases) :
    ListsEveryLease errno tbl leases ↔ ∀ key, tbl.row key ≠ none → key ∈ keys := by
  constructor
  · intro hlists key hrow
    obtain ⟨item, hrow⟩ := Option.ne_none_iff_exists'.mp hrow
    obtain ⟨lease, hlease, -⟩ := hreadable.exists_storedLease hrow
    exact (mem_iff_of_forall₂ h hlease).mp (hlists.mem hlease)
  · intro hall
    refine ⟨fun key lease hlease => ?_, storedLease_of_forall₂ h⟩
    have hrow : tbl.row key ≠ none := by
      intro hnone
      rw [storedLease, hnone] at hlease
      cases hlease
    exact List.count_eq_one_of_mem (nodup_of_forall₂ hnodup h)
      ((mem_iff_of_forall₂ h hlease).mpr (hall key hrow))

theorem takerSees_of_listsEveryLease (hnodup : keys.Nodup)
    (h : List.Forall₂ (fun key lease => storedLease errno tbl key = some lease)
      keys leases) (hlists : ListsEveryLease errno tbl leases) :
    TakerSees errno tbl leases := by
  intro taker now key
  have hdistinct : LeaseTaker.DistinctKeys leases := by
    rw [← map_leaseKey_of_forall₂ h, List.Nodup, List.pairwise_map] at hnodup
    exact hnodup.imp fun hne heq => hne (congrArg _ heq)
  have hget := LeaseTaker.get_updateAllLeases taker ⟨now, leases, hdistinct⟩ key
  rw [hget, Option.isSome_map, Bool.eq_iff_iff]
  unfold Scan.listed
  rw [List.find?_isSome]
  constructor
  · rintro ⟨lease, hmem, hkey⟩
    rw [← of_decide_eq_true hkey, hlists.stored lease hmem]
    rfl
  · intro hsome
    obtain ⟨lease, hlease⟩ := Option.isSome_iff_exists.mp hsome
    exact ⟨lease, hlists.mem hlease, decide_eq_true
      (StringProxy.ext (leaseKey_of_storedLease hlease))⟩

theorem initializeSees_of_listsEveryLease
    (hlists : ListsEveryLease errno tbl leases) :
    InitializeSees errno tbl leases := by
  intro p call key lease hlease
  have hmem := hlists.mem hlease
  have hne : leases.isEmpty = false := by
    cases leases with
    | nil => cases hmem
    | cons l leases => rfl
  unfold LeaseProcess.onListedForInitialize
  dsimp only
  rw [hne]
  exact List.mem_append_right _ (List.mem_map.mpr ⟨lease, hmem, rfl⟩)

end Page

section Page

variable {manager : LeaseManager} {dynamo : Service} {order : List String}
  {pageRoom : ℕ} {errno : Errno} {tbl : Table} {leases : List Lease}

theorem forall₂_of_listed (hreadable : AllReadable errno tbl)
    (hlisted : manager.listLeasesPage dynamo order pageRoom errno tbl =
      .ok leases) :
    List.Forall₂ (fun key lease => storedLease errno tbl key = some lease)
      ((order.filter fun key => (tbl.row key).isSome).take (min 100 pageRoom))
      leases := by
  rw [← ((manager.listLeasesPage_eq_ok_iff _ _ _ _ _ _).mp hlisted).2]
  exact forall₂_readLeases hreadable
    (List.forall₂_take _ (forall₂_filterMap_row tbl order))

theorem Walks.nodup_page (h : Walks tbl order) (n : ℕ) :
    ((order.filter fun key => (tbl.row key).isSome).take n).Nodup :=
  (h.nodup.filter _).sublist (List.take_sublist n _)

theorem listsEveryLease_iff_size_le (hwalks : Walks tbl order)
    (hreadable : AllReadable errno tbl)
    (hlisted : manager.listLeasesPage dynamo order pageRoom errno tbl =
      .ok leases) :
    ListsEveryLease errno tbl leases ↔ tbl.rows.size ≤ min 100 pageRoom := by
  rw [listsEveryLease_iff_of_forall₂ hreadable (hwalks.nodup_page _)
    (forall₂_of_listed hreadable hlisted), ← hwalks.length_filter]
  constructor
  · intro hall
    have hsub : (order.filter fun key => (tbl.row key).isSome) ⊆
        (order.filter fun key => (tbl.row key).isSome).take (min 100 pageRoom) :=
      fun key hkey => hall key ((hwalks.mem_filter_iff key).mp hkey)
    exact ((hwalks.nodup.filter _).subperm hsub).length_le.trans
      (List.length_take_le _ _)
  · intro hfits key hrow
    rw [List.take_of_length_le hfits]
    exact (hwalks.mem_filter_iff key).mpr hrow

end Page

/-- A table of readable rows, however the service walks it, is listed whole and
seen whole by the taker and by `initialize` exactly if its rows fit on the one
page that is read. -/
theorem listsEveryLease_iff (manager : LeaseManager) (dynamo : Service)
    (order : List String) (pageRoom : ℕ) (errno : Errno) (tbl : Table)
    (leases : List Lease) (hwalks : Walks tbl order)
    (hreadable : AllReadable errno tbl)
    (hlisted : manager.listLeasesPage dynamo order pageRoom errno tbl =
      .ok leases) :
    (ListsEveryLease errno tbl leases ∧ TakerSees errno tbl leases ∧
        InitializeSees errno tbl leases) ↔
      tbl.rows.size ≤ min 100 pageRoom := by
  have htake := hwalks.nodup_page (min 100 pageRoom)
  have hread := forall₂_of_listed hreadable hlisted
  rw [← listsEveryLease_iff_size_le hwalks hreadable hlisted]
  exact and_iff_left_of_imp fun h =>
    ⟨takerSees_of_listsEveryLease htake hread h,
      initializeSees_of_listsEveryLease h⟩

/-- A table with so many leases, under the keys `0`, `1` and so on. -/
def numberedTable (size : ℕ) : Table :=
  (List.range size).foldl
    (fun tbl n =>
      let lease : Lease :=
        { leaseKey := ⟨n.repr⟩, leaseOwner := some ⟨"worker-a"⟩ }
      tbl.put n.repr lease.toDynamoDict)
    Table.empty

def numberedKeys (size : ℕ) : List String := (List.range size).map Nat.repr

theorem numberedTable_succ (size : ℕ) : numberedTable (size + 1) =
    (numberedTable size).put size.repr (toDynamoDict
      { leaseKey := ⟨size.repr⟩, leaseOwner := some ⟨"worker-a"⟩ }) := by
  unfold numberedTable
  rw [List.range_succ, List.foldl_append]
  rfl

theorem row_numberedTable_iff (size : ℕ) (key : String) :
    (numberedTable size).row key ≠ none ↔ key ∈ numberedKeys size := by
  induction size with
  | zero => simp [numberedTable, numberedKeys]
  | succ size ih =>
      rw [numberedTable_succ, Table.row_put, numberedKeys, List.range_succ,
        List.map_append, List.mem_append, List.map_singleton, List.mem_singleton,
        ← numberedKeys, ← ih]
      split_ifs with hkey
      · simp [hkey]
      · simp [Ne.symm hkey]

theorem walks_numberedTable (size : ℕ) :
    Walks (numberedTable size) (numberedKeys size) :=
  ⟨List.nodup_range.map fun _ _ => Nat.repr_inj.mp,
    fun key => (row_numberedTable_iff size key).mp⟩

theorem readable_numberedRow (n : ℕ) :
    Readable 0 ((toDynamoDict
      { leaseKey := ⟨n.repr⟩, leaseOwner := some ⟨"worker-a"⟩ }).insert keyAttribute
        (.s n.repr)) := by
  have hne : n.repr ≠ "" := by
    intro h
    have hlist := congrArg String.toList h
    rw [Nat.toList_repr] at hlist
    exact Nat.toDigits_ne_nil hlist
  refine (readable_iff fun name hname => ⟨some 0, ?_⟩).mpr
    ⟨⟨.s n.repr, by simp [keyAttribute], hne⟩, ?_, fun name hname hlost => by decide⟩
  · simp only [numberNames, List.mem_cons, List.not_mem_nil, or_false] at hname
    rcases hname with rfl | rfl | rfl <;>
      simp [keyAttribute, lookup_toDynamoDict, printNumber_eq]
  · simp [keyAttribute, lookup_toDynamoDict, stringAttribute]

theorem allReadable_numberedTable (size : ℕ) : AllReadable 0 (numberedTable size) := by
  induction size with
  | zero =>
      intro key item hrow
      simp [numberedTable] at hrow
  | succ size ih =>
      intro key item hrow
      rw [numberedTable_succ, Table.row_put] at hrow
      split_ifs at hrow with hkey
      · cases hrow
        exact readable_numberedRow size
      · exact ih key item hrow

/-- A page that has room for both rows of a table of two. -/
theorem listsEveryLease_numberedTable :
    ∃ leases, ListsEveryLease 0 (numberedTable 2) leases :=
  ⟨_, ((listsEveryLease_iff sampleManager sampleDynamo (numberedKeys 2) 2 0
    (numberedTable 2) _ (walks_numberedTable 2) (allReadable_numberedTable 2)
    rfl).mpr (by decide +kernel)).1⟩

/-- Of a hundred and one rows, one is left for the next page, and `listLeases`
does not report it. -/
theorem hundredFirst_unlisted :
    let tbl := numberedTable 101
    let order := numberedKeys 101
    Walks tbl order ∧ AllReadable 0 tbl ∧
      (∃ result, sampleDynamo.scanPage
          { tableName := some sampleManager.tableName, limit := 100 } order 100
          tbl = .ok result ∧ result.lastEvaluatedKey = some "99") ∧
      ∃ leases, sampleManager.listLeasesPage sampleDynamo order 100 0 tbl =
        .ok leases ∧ ¬ ListsEveryLease 0 tbl leases := by
  have hwalks := walks_numberedTable 101
  have hreadable := allReadable_numberedTable 101
  have hall : ((numberedKeys 101).filter fun key =>
      ((numberedTable 101).row key).isSome) = numberedKeys 101 :=
    List.filter_eq_self.mpr fun key hkey =>
      Option.isSome_iff_ne_none.mpr ((row_numberedTable_iff 101 key).mpr hkey)
  have hsize : (numberedTable 101).rows.size = 101 := by
    rw [← hwalks.length_filter, hall, numberedKeys, List.length_map,
      List.length_range]
  have hlisted := (LeaseManager.listLeasesPage_eq_ok_iff sampleManager sampleDynamo
    (numberedKeys 101) 100 0 (numberedTable 101) _).mpr ⟨by decide, rfl⟩
  refine ⟨hwalks, hreadable, ⟨_, rfl, ?_⟩, _, hlisted, fun hlists => ?_⟩
  · dsimp only
    rw [hall]
    decide +kernel
  · have hle := (listsEveryLease_iff_size_le hwalks hreadable hlisted).mp hlists
    rw [hsize] at hle
    exact absurd hle (by decide)

end Leases

end Kclpp
