import Mathlib.Data.Rat.Init

/-!
# JSON values

`core::json::Value` is the variant the tokenizer of `roq-core` delivers.  A
number without fraction or exponent arrives as `int64_t`, any other number as
`double`; doubles are taken as the exact rationals they are.
-/

namespace RoqWhitebit.Protocol.Json

/-- `core::json::Value` -/
inductive Value where
  | null
  | bool (b : Bool)
  | int64 (n : Int)
  | double (x : ℚ)
  | string (text : String)
  | object (members : List (String × Value))
  | array (items : List Value)

/-- The number a value spells. -/
def Value.number : Value → Option ℚ
  | .int64 n => some n
  | .double x => some x
  | _ => none

end RoqWhitebit.Protocol.Json
