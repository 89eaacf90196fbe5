import Intercept.Wire.CodecError

/-!
# Intercept.Fault

Why the broker refused a request, and the code under which an extension
learns of it. The codes are fewer than the causes: an extension needs to know
what to do, the message says what went wrong.
-/

namespace Intercept

/-- Why a request of an extension or of a packet's sender failed. -/
inductive Fault where
  /-- Bytes that do not decode. -/
  | codec (cause : CodecError)
  /-- A request that breaks the protocol, with the reason. -/
  | badRequest (reason : String)
  /-- An extension that has not registered. -/
  | unknownExtension (name : String)
  /-- An answer for a packet that nobody waits for. -/
  | unknownChain (chain : Nat)
  /-- An answer from an extension that is not asked. -/
  | notChainHolder (ext : String) (chain : Nat)
  /-- An extension whose session is over, with whatever there is to say about it. -/
  | extensionGone (who : String)
  | unsupportedVersion
  | internal (reason : String)
deriving DecidableEq, Repr

/-- The stable code of a fault on the text lane. -/
inductive FaultCode where
  | badRequest
  | unknownExtension
  | notChainHolder
  | unsupportedVersion
  | internal
deriving DecidableEq, Repr

/-- The spelling of a code. -/
def FaultCode.name : FaultCode → String
  | .badRequest => "BAD_REQUEST"
  | .unknownExtension => "UNKNOWN_EXTENSION"
  | .notChainHolder => "NOT_CHAIN_HOLDER"
  | .unsupportedVersion => "UNSUPPORTED_VERSION"
  | .internal => "INTERNAL"

namespace Fault

/-- The code of a fault. -/
def code : Fault → FaultCode
  | codec (.unsupportedVersion _) => .unsupportedVersion
  | codec _ | badRequest _ => .badRequest
  | unknownExtension _ | extensionGone _ => .unknownExtension
  | unknownChain _ | notChainHolder .. => .notChainHolder
  | unsupportedVersion => .unsupportedVersion
  | internal _ => .internal

/-- The wording of a fault. -/
def message : Fault → String
  | codec cause => s!"codec ({cause.layer.name}): {cause.message}"
  | badRequest reason => s!"bad request: {reason}"
  | unknownExtension name => s!"unknown extension: {name}"
  | unknownChain chain => s!"unknown chain {chain}"
  | notChainHolder ext chain => s!"extension {ext} does not hold chain {chain}"
  | extensionGone who => s!"extension gone: {who}"
  | unsupportedVersion => "unsupported protocol version"
  | internal reason => s!"internal: {reason}"

end Fault

end Intercept
