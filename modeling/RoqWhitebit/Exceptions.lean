import Mathlib.Logic.Basic

/-!
# Exceptions

What a call into the libraries can throw, as far as the gateway's `catch`
clauses tell it apart.
-/

namespace RoqWhitebit

/-- `roq::RequestStatus`: the values the gateway itself reports, and all others. -/
inductive RequestStatus where
  | rejected
  | error
  | other (code : Nat)
  deriving DecidableEq, Repr

/-- `roq::Error` -/
inductive ErrorCode where
  | unknown
  | other (code : Nat)
  deriving DecidableEq, Repr

/-- A `NetworkError`, a `BadState`, or any other `std::exception`. -/
inductive Exception where
  | networkError (requestStatus : RequestStatus) (error : ErrorCode) (what : String)
  | badState (what : String)
  | other (what : String)
  deriving DecidableEq, Repr

/-- Why a handler does not return. -/
inductive Fault where
  /-- `log::fatal` -/
  | fatal
  | threw (e : Exception)
  deriving DecidableEq, Repr

end RoqWhitebit
