import Kclpp.Async.KCLAsyncContext.Basic

/-!
# The DynamoDB client

Every operation of `KCLDynamoClient` is one request, whose blocking call is the
operation of the same name of the service's client. `doesTableExistAsync` describes
the table and reads its answer from the outcome.
-/

namespace Kclpp

namespace Dynamo

open Async

/-- The blocking calls, with the requests that they send. -/
inductive DynamoCall (α : Type*) where
  | getItem (request : α)
  | putItem (request : α)
  | updateItem (request : α)
  | deleteItem (request : α)
  | scan (request : α)
  | createTable (request : α)
  | listTables (request : α)
  | deleteTable (request : α)
  | describeTable (tableName : String)
  deriving DecidableEq, Repr

namespace KCLDynamoClient

variable {α ε ρ ι : Type*}

def getItemAsync (request : α) (callback : Except ε ρ → ι) :
    Request (DynamoCall α) ε ρ ι where
  call := .getItem request
  callback := callback

def putItemAsync (request : α) (callback : Except ε ρ → ι) :
    Request (DynamoCall α) ε ρ ι where
  call := .putItem request
  callback := callback

def updateItemAsync (request : α) (callback : Except ε ρ → ι) :
    Request (DynamoCall α) ε ρ ι where
  call := .updateItem request
  callback := callback

def deleteItemAsync (request : α) (callback : Except ε ρ → ι) :
    Request (DynamoCall α) ε ρ ι where
  call := .deleteItem request
  callback := callback

def scanAsync (request : α) (callback : Except ε ρ → ι) :
    Request (DynamoCall α) ε ρ ι where
  call := .scan request
  callback := callback

def createTableAsync (request : α) (callback : Except ε ρ → ι) :
    Request (DynamoCall α) ε ρ ι where
  call := .createTable request
  callback := callback

def listTablesAsync (request : α) (callback : Except ε ρ → ι) :
    Request (DynamoCall α) ε ρ ι where
  call := .listTables request
  callback := callback

def deleteTableAsync (request : α) (callback : Except ε ρ → ι) :
    Request (DynamoCall α) ε ρ ι where
  call := .deleteTable request
  callback := callback

def describeTableAsync (tableName : String) (callback : Except ε ρ → ι) :
    Request (DynamoCall α) ε ρ ι where
  call := .describeTable tableName
  callback := callback

/-- `KCLDynamoClient::doesTableExistAsync`, with the test for the error
`RESOURCE_NOT_FOUND`. -/
def doesTableExistAsync (isResourceNotFound : ε → Bool) (tableName : String)
    (callback : Except ε Bool → ι) : Request (DynamoCall α) ε ρ ι :=
  describeTableAsync tableName fun
    | .ok _ => callback (.ok true)
    | .error responseErr =>
        if isResourceNotFound responseErr then callback (.ok false)
        else callback (.error responseErr)

end KCLDynamoClient

end Dynamo

end Kclpp
