import LinearInterchange.Input.Position
import LinearInterchange.Number.Decimal

/-! # Refused numbers -/

namespace LinearInterchange

/-- How readers refuse the token of a number: one that is no number is malformed, one that is out
of range is not supported. -/
def NumberFault.refusal (token : List Char) : NumberFault → Refusal
  | .invalid => .malformed ("invalid number `" ++ String.ofList token ++ "`")
  | .outOfRange => .unsupported ("number `" ++ String.ofList token ++ "` out of range")

end LinearInterchange
