import Mathlib.Data.List.Basic

/-!
JSON documents as `serde_json::Value` holds them. A number keeps the form it was
read in: a nonnegative integer below 2^64, a negative one, or a finite float,
which is an exact rational. An object is the list of its fields.
-/

namespace LlamaServerManager.Lib.Json

inductive Number where
  | posInt (n : Nat)
  | negInt (n : Int)
  | float (x : Rat)
deriving DecidableEq, Repr

inductive Value where
  | null
  | bool (b : Bool)
  | number (n : Number)
  | string (s : String)
  | array (items : List Value)
  | object (fields : List (String × Value))
deriving Inhabited, Repr

namespace Value

/-- `get` with a name: a field of an object. -/
def get (name : String) : Value → Option Value
  | object fields => fields.lookup name
  | _ => none

/-- `pointer`, for a path of names. -/
def pointer : List String → Value → Option Value
  | [], v => some v
  | name :: path, v => (v.get name).bind (pointer path)

def asStr : Value → Option String
  | string s => some s
  | _ => none

/-- `as_u64`: no other form of a number is one, whatever its value. -/
def asU64 : Value → Option Nat
  | number (.posInt n) => some n
  | _ => none

def asArray : Value → Option (List Value)
  | array items => some items
  | _ => none

def isNull : Value → Bool
  | null => true
  | _ => false

def isObject : Value → Bool
  | object _ => true
  | _ => false

/-- `entry(name).or_insert(v)` on an object. -/
def orInsert (value : Value) (name : String) (v : Value) : Value :=
  match value with
  | object fields =>
    if (fields.lookup name).isSome then value else object (fields ++ [(name, v)])
  | _ => value

end Value

/-- The parsers of `serde_json`, from text and from bytes. -/
structure Serde where
  fromStr : String → Option Value
  fromSlice : List UInt8 → Option Value

end LlamaServerManager.Lib.Json
