import Omnigraph.Lib.Double

/-!
# JSON values

A number is kept as it was read: a non-negative integer of 64 bits, a negative one, or a double.
-/

namespace Omnigraph.SerdeJson

/-- A number, as the parser keeps it. -/
inductive JsonNumber
  | posInt (n : ℕ) (h : n < 2 ^ 64)
  | negInt (i : ℤ) (h : -2 ^ 63 ≤ i ∧ i < 0)
  | float (bits : UInt64)

inductive JsonValue
  | null
  | bool (b : Bool)
  | number (n : JsonNumber)
  | string (s : String)
  | array (items : List JsonValue)
  | object (fields : List (String × JsonValue))

/-! ### Numbers -/

namespace JsonNumber

def asI64 : JsonNumber → Option ℤ
  | posInt n _ => if n < 2 ^ 63 then some n else none
  | negInt i _ => some i
  | float _ => none

def asU64 : JsonNumber → Option ℕ
  | posInt n _ => some n
  | _ => none

def asF64 : JsonNumber → UInt64
  | posInt n _ => Double.ofNat n
  | negInt i _ => Double.neg (Double.ofNat i.natAbs)
  | float bits => bits

/-- The integer a number was read as. -/
def asInteger : JsonNumber → Option ℤ
  | posInt n _ => some n
  | negInt i _ => some i
  | float _ => none

end JsonNumber

/-! ### Values -/

namespace JsonValue

/-- The member of an object. -/
def get (v : JsonValue) (name : String) : Option JsonValue :=
  match v with
  | object fields => (fields.find? fun field => field.1 = name).map Prod.snd
  | _ => none

/-- The member of an object, null if there is none. -/
def getD (v : JsonValue) (name : String) : JsonValue := (v.get name).getD null

def isNull : JsonValue → Bool
  | null => true
  | _ => false

def asStr : JsonValue → Option String
  | string s => some s
  | _ => none

def asBool : JsonValue → Option Bool
  | bool b => some b
  | _ => none

def asArray : JsonValue → Option (List JsonValue)
  | array items => some items
  | _ => none

def asI64 : JsonValue → Option ℤ
  | number n => n.asI64
  | _ => none

def asU64 : JsonValue → Option ℕ
  | number n => n.asU64
  | _ => none

def asF64 : JsonValue → Option UInt64
  | number n => some n.asF64
  | _ => none

end JsonValue

end Omnigraph.SerdeJson
