import LinearInterchange.Number.Word

/-! # Variables

A variable is known by its id; its domain is a pair of truth values or a range of integers. -/

namespace LinearInterchange

/-- Values that cannot be represented. -/
inductive ValueError where
  /-- A variable id above the highest one. -/
  | idTooHigh (id : UInt32)
  /-- A range whose least value is above its greatest. -/
  | emptyDomain (least greatest : Int64)
  /-- Coefficient arithmetic that leaves the range of coefficients. -/
  | overflow
  deriving DecidableEq

/-- The highest id of a variable. One more than it is still a 32-bit word. -/
def Var.maxId : UInt32 := 4294967294

/-- The wording of an unrepresentable value. -/
def ValueError.message : ValueError → String
  | .idTooHigh id =>
    "index " ++ toString id ++ " is too high (maximum " ++ toString Var.maxId ++ ")"
  | .emptyDomain lb ub => "empty domain " ++ toString lb ++ ".." ++ toString ub
  | .overflow => "coefficient arithmetic overflowed"

/-- The identity of a variable within an instance. -/
structure Var where
  id : UInt32
  id_le : id ≤ Var.maxId
  deriving DecidableEq

namespace Var

/-- The variable with a given id. -/
def ofId (id : UInt32) : Except ValueError Var :=
  if h : id ≤ maxId then .ok ⟨id, h⟩ else .error (.idTooHigh id)

/-- The text of a variable that has no other name. -/
def toText (v : Var) : String :=
  "v" ++ toString v.id

instance : ToString Var := ⟨toText⟩

end Var

/-- The values that a variable can take. -/
inductive Domain where
  /-- The values 0 and 1. -/
  | bool
  /-- The integers between two bounds, both included. -/
  | range (least greatest : Int64)
  deriving DecidableEq

namespace Domain

/-- The range between two bounds, which has to hold a value. -/
def ofBounds (least greatest : Int64) : Except ValueError Domain :=
  if greatest < least then .error (.emptyDomain least greatest) else .ok (.range least greatest)

/-- The least value. -/
def least : Domain → Int64
  | bool => 0
  | range lb _ => lb

/-- The greatest value. -/
def greatest : Domain → Int64
  | bool => 1
  | range _ ub => ub

/-- The value lies in the domain. -/
def contains (d : Domain) (x : Int64) : Bool :=
  d.least ≤ x && x ≤ d.greatest

/-- The text of a domain: its name, or its bounds with two points between them. -/
def toText : Domain → String
  | bool => "bool"
  | range lb ub => toString lb ++ ".." ++ toString ub

instance : ToString Domain := ⟨toText⟩

end Domain

/-- Where a variable comes from. -/
inductive Origin where
  /-- It was declared in the input. -/
  | user
  /-- It was introduced by a transformation. -/
  | auxiliary
  deriving DecidableEq

/-- A declared variable. -/
structure Variable where
  var : Var
  name : String
  domain : Domain
  origin : Origin
  deriving DecidableEq

end LinearInterchange
