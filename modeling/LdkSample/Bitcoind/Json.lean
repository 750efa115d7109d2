import LdkSample.Bitcoind.Doubles

/-!
# What bitcoind answers

`serde_json::Value` as far as it is read, with the accessors of that crate. A double is the rational
number it stands for.
-/

namespace LdkSample

namespace Bitcoind

/-- `serde_json::Number`. -/
inductive Number where
  | posInt (n : UInt64)
  | negInt (n : Int64)
  | float (q : ℚ)

inductive Json where
  | null
  | bool (b : Bool)
  | number (n : Number)
  | string (s : String)
  | array (values : List Json)
  | object (fields : List (String × Json))

namespace Json

/-- `value[key]`; what is not there is null. -/
def index (value : Json) (key : String) : Json :=
  match value with
  | .object fields => (fields.lookup key).getD .null
  | _ => .null

def isNull : Json → Bool
  | .null => true
  | _ => false

def asF64 : Json → Option ℚ
  | .number (.posInt n) => some (natAsF64 n.toNat)
  | .number (.negInt n) => some (intAsF64 n.toInt)
  | .number (.float q) => some q
  | _ => none

def asU64 : Json → Option UInt64
  | .number (.posInt n) => some n
  | _ => none

def asStr : Json → Option String
  | .string s => some s
  | _ => none

def asBool : Json → Option Bool
  | .bool b => some b
  | _ => none

def asArray : Json → Option (List Json)
  | .array values => some values
  | _ => none

end Json

end Bitcoind

end LdkSample
