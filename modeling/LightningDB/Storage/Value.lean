import Mathlib.Data.Nat.Notation

/-!
# Values and their types

What the layers of the storage have in common: the errors that operations return, the types of columns,
and the values as they are stored, where numbers go by the bits of their representation.
-/

namespace LightningDB

/-- `LightningError`, without the errors of input and output. -/
inductive LightningError where
  | internal (msg : String)
  | database (msg : String)
  | query (msg : String)
  | config (msg : String)
deriving DecidableEq

/-- `LogicalType`. -/
inductive LogicalType where
  | any | bool | int128 | int64 | int32 | int16 | int8 | uint128 | uint64 | uint32 | uint16 | uint8
  | float | double | string | blob | timestamp | date | interval | internalID | serial
  | list (child : LogicalType)
  | struct (fields : List (String × LogicalType))
  | map (key value : LogicalType)
  | union (fields : List (String × LogicalType))
  | node (fields : List (String × LogicalType))
  | rel (fields : List (String × LogicalType))
  | lambda (result : LogicalType)

/-- `Value`, as it is stored and indexed.  Numbers, dates and timestamps go by their bits, which is how they
are compared; the kinds that neither a column nor an index takes go by their printed form. -/
inductive StoredValue where
  | number (bits : UInt64)
  | string (s : String)
  | boolean (b : Bool)
  | node (id : UInt64)
  | relationship (id : UInt64)
  | date (bits : UInt32)
  | timestamp (bits : UInt64)
  | null
  | nested (printed : String)
deriving DecidableEq

/-- `as_bytes`. -/
def utf8 (s : String) : List UInt8 := s.toUTF8.data.toList

end LightningDB
