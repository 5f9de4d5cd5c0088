import Gurted.Std.Str

/-!
# Status codes and message limits (`gurt-api/src/status.rs`, `limits.rs`)
-/

namespace Gurted.Api

inductive StatusCode where
  | ok
  | badRequest
  | tooManyRequests
  | requestEntityTooLarge
  | internalServerError
  deriving DecidableEq, Repr

def StatusCode.asU16 : StatusCode → Nat
  | .ok => 200
  | .badRequest => 400
  | .tooManyRequests => 429
  | .requestEntityTooLarge => 413
  | .internalServerError => 500

/-- `MAX_MESSAGE_BYTES`: 10 MB. -/
def maxMessageBytes : Nat := 10 * 1024 * 1024

/-- `LimitError::TooLarge`. -/
structure LimitError where
  max : Nat
  actual : Nat
  deriving DecidableEq, Repr

def enforceMaxMessageSize (len : Nat) : Except LimitError Unit :=
  if maxMessageBytes < len then .error ⟨maxMessageBytes, len⟩ else .ok ()

theorem enforceMaxMessageSize_ok {len : Nat} (h : len ≤ maxMessageBytes) :
    enforceMaxMessageSize len = .ok () := if_neg (Nat.not_lt.mpr h)

theorem enforceMaxMessageSize_error {len : Nat} (h : maxMessageBytes < len) :
    enforceMaxMessageSize len = .error ⟨maxMessageBytes, len⟩ := if_pos h

end Gurted.Api
