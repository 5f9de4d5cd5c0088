import Gurted.Std.Str

/-!
# JSON values

`serde_json::Value` as far as the crates read it: all numbers are integers.
-/

namespace Gurted

inductive Json where
  | null
  | bool (b : Bool)
  | number (n : Int)
  | string (s : Str)
  | array (xs : List Json)
  | object (fields : List (Str × Json))

namespace Json

/-- `Value::get` with a key. -/
def get (key : Str) : Json → Option Json
  | object fields => (fields.find? (·.1 == key)).map Prod.snd
  | _ => none

/-- `Value::as_str`. -/
def asStr : Json → Option Str
  | string s => some s
  | _ => none

/-- `Value::as_array`. -/
def asArray : Json → Option (List Json)
  | array xs => some xs
  | _ => none

/-- `Value::as_i64`. -/
def asI64 : Json → Option Int
  | number n => some n
  | _ => none

end Json

end Gurted
