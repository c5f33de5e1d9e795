import Kclpp.Dynamo.Item

/-!
# The lease table and the service that keeps it

`Table` is the lease table: its rows by the value of the key attribute, which
every row carries. The operations are what the service does with one request:
a conditional write is atomic, and is applied exactly when all its expectations
hold of the row it addresses. `Dynamo.reaches` says which requests arrive at the
lease table. A request names a table or names none; whether one that names none
arrives is a parameter, since the code sends such a request and the service
documents that it refuses it.
-/

open Std OrderedMap

namespace Kclpp

namespace Dynamo

/-- The error types of the service. Only the failed condition and the missing
table are told apart by the code. -/
inductive DynamoDBErrors where
  | conditionalCheckFailed
  | resourceNotFound
  | validation
  | throttling
  | networkConnection
  | unknown
  deriving DecidableEq, Repr

/-- The hash key that `createTableIfNotExists` declares. -/
def keyAttribute : String := "leaseKey"

/-- The rows of a lease table. Each row carries, as its key attribute, the key
it is stored under. -/
@[ext] structure Table where
  rows : TreeMap String Item
  keyed : ∀ key item, lookup rows key = some item →
    lookup item keyAttribute = some (.s key)

namespace Table

def row (tbl : Table) (key : String) : Option Item := lookup tbl.rows key

def empty : Table where
  rows := ∅
  keyed := by simp

def put (tbl : Table) (key : String) (item : Item) : Table where
  rows := tbl.rows.insert key (item.insert keyAttribute (.s key))
  keyed := by
    intro k it h
    rw [lookup_insert] at h
    split at h
    · rename_i hk
      cases h
      simp [hk]
    · exact tbl.keyed k it h

def erase (tbl : Table) (key : String) : Table where
  rows := tbl.rows.erase key
  keyed := by
    intro k it h
    rw [lookup_erase] at h
    split at h
    · cases h
    · exact tbl.keyed k it h

@[simp] theorem row_empty (key : String) : empty.row key = none := by
  simp [row, empty]

@[simp] theorem row_put (tbl : Table) (key k : String) (item : Item) :
    (tbl.put key item).row k =
      if key = k then some (item.insert keyAttribute (.s key))
      else tbl.row k := by
  simp [row, put]

@[simp] theorem row_erase (tbl : Table) (key k : String) :
    (tbl.erase key).row k = if key = k then none else tbl.row k := by
  simp [row, erase]

theorem keyAttribute_of_row {tbl : Table} {key : String} {item : Item}
    (h : tbl.row key = some item) : lookup item keyAttribute = some (.s key) :=
  tbl.keyed key item h

end Table

/-- The key value a request's key (or item) carries. -/
def primaryKey (key : Item) : Option String :=
  match lookup key keyAttribute with
  | some (.s value) => some value
  | _ => none

structure PutItemRequest where
  tableName : Option TableName := none
  item : Item
  expected : ExpectedMap

structure UpdateItemRequest where
  tableName : Option TableName := none
  key : Item
  expected : ExpectedMap
  attributeUpdates : UpdateMap

structure DeleteItemRequest where
  tableName : Option TableName := none
  key : Item
  expected : ExpectedMap := ∅

structure GetItemRequest where
  tableName : Option TableName := none
  key : Item
  consistentRead : Bool := false

structure ScanRequest where
  tableName : Option TableName := none
  limit : ℕ
  consistentRead : Bool := false

/-- `ScanResult`: the rows of a page, and the key to continue from where rows
remain. -/
structure ScanResult where
  items : List Item
  lastEvaluatedKey : Option String := none

/-- The service as it serves one lease table. -/
structure Service where
  /-- The name of the lease table. -/
  leaseTable : TableName
  /-- Whether a request that names no table arrives at the lease table. -/
  servesUnnamed : Bool

namespace Service

/-- Whether a request for this table name arrives at the lease table. -/
def reaches (dynamo : Service) : Option TableName → Bool
  | some name => name = dynamo.leaseTable
  | none => dynamo.servesUnnamed

/-- The row a request addresses, where it arrives at the lease table at all. -/
def addresses (dynamo : Service) (tableName : Option TableName) (key : Item) :
    Option String :=
  if dynamo.reaches tableName then primaryKey key else none

/-- A conditional write: where all expectations hold of the addressed row, the
table becomes `write`. -/
def conditionalWrite (dynamo : Service) (tableName : Option TableName)
    (key : Item) (expected : ExpectedMap) (write : String → Table)
    (tbl : Table) : Table × Except DynamoDBErrors Unit :=
  match dynamo.addresses tableName key with
  | none => (tbl, .error .validation)
  | some k =>
      if expectationHolds expected (tbl.row k) then (write k, .ok ())
      else (tbl, .error .conditionalCheckFailed)

/-- `PutItem`: replace the whole row. -/
def putItem (dynamo : Service) (request : PutItemRequest) (tbl : Table) :
    Table × Except DynamoDBErrors Unit :=
  dynamo.conditionalWrite request.tableName request.item request.expected
    (fun key => tbl.put key request.item) tbl

/-- `UpdateItem`: apply the updates to the row, or to an item that has nothing
but its key when there is no row. -/
def updateItem (dynamo : Service) (request : UpdateItemRequest) (tbl : Table) :
    Table × Except DynamoDBErrors Unit :=
  dynamo.conditionalWrite request.tableName request.key request.expected
    (fun key => tbl.put key
      (applyUpdates ((tbl.row key).getD ∅) request.attributeUpdates)) tbl

def deleteItem (dynamo : Service) (request : DeleteItemRequest) (tbl : Table) :
    Table × Except DynamoDBErrors Unit :=
  dynamo.conditionalWrite request.tableName request.key request.expected
    (fun key => tbl.erase key) tbl

/-- `GetItem`: the row, or an item without attributes when there is none. -/
def getItem (dynamo : Service) (request : GetItemRequest) (tbl : Table) :
    Except DynamoDBErrors Item :=
  match dynamo.addresses request.tableName request.key with
  | some key => .ok ((tbl.row key).getD ∅)
  | none => .error .validation

/-- `Scan`: one page of at most `limit` rows. `order` is the order in which the
service walks the table; it is not the order of the keys. -/
def scan (dynamo : Service) (request : ScanRequest) (order : List String)
    (tbl : Table) : Except DynamoDBErrors (List Item) :=
  if dynamo.reaches request.tableName then
    .ok ((order.filterMap tbl.row).take request.limit)
  else .error .validation

/-- `Scan` where a page has room for `pageRoom` rows only, whatever the limit of
the request. The service says where to continue when rows remain. -/
def scanPage (dynamo : Service) (request : ScanRequest) (order : List String)
    (pageRoom : ℕ) (tbl : Table) : Except DynamoDBErrors ScanResult :=
  if dynamo.reaches request.tableName then
    let keys := order.filter fun key => (tbl.row key).isSome
    let count := min request.limit pageRoom
    .ok
      { items := (order.filterMap tbl.row).take count
        lastEvaluatedKey :=
          if count < keys.length then (keys.take count).getLast? else none }
  else .error .validation

theorem map_items_scanPage {pageRoom : ℕ} {request : ScanRequest}
    (h : request.limit ≤ pageRoom) (dynamo : Service) (order : List String)
    (tbl : Table) :
    (dynamo.scanPage request order pageRoom tbl).map (fun result => result.items) =
      dynamo.scan request order tbl := by
  unfold scanPage scan
  split_ifs
  · simp only [Except.map, min_eq_left h]
  · rfl

/-- A conditional write is applied exactly when it arrives at the table and its
expectations hold of the row it addresses. -/
theorem conditionalWrite_eq_ok_iff (dynamo : Service)
    (tableName : Option TableName) (key : Item) (expected : ExpectedMap)
    (write : String → Table) (tbl tbl' : Table) :
    dynamo.conditionalWrite tableName key expected write tbl = (tbl', .ok ()) ↔
      ∃ k, dynamo.addresses tableName key = some k ∧
        expectationHolds expected (tbl.row k) = true ∧ tbl' = write k := by
  unfold conditionalWrite
  cases dynamo.addresses tableName key with
  | none => simp
  | some k =>
      by_cases he : expectationHolds expected (tbl.row k) = true
      · simp only [he, if_true, Prod.mk.injEq, and_true, Option.some.injEq,
          exists_eq_left', true_and]
        exact eq_comm
      · simp [he]

theorem conditionalWrite_fst_of_error {dynamo : Service}
    {tableName : Option TableName} {key : Item} {expected : ExpectedMap}
    {write : String → Table} {tbl tbl' : Table} {e : DynamoDBErrors}
    (h : dynamo.conditionalWrite tableName key expected write tbl =
      (tbl', .error e)) : tbl' = tbl := by
  unfold conditionalWrite at h
  cases ha : dynamo.addresses tableName key with
  | none =>
      rw [ha] at h
      exact (Prod.mk.inj h).1.symm
  | some k =>
      rw [ha] at h
      by_cases he : expectationHolds expected (tbl.row k) = true
      · simp [he] at h
      · simp only [he] at h
        exact (Prod.mk.inj h).1.symm

end Service

end Dynamo

end Kclpp
