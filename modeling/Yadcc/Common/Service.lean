/-
# What the RPC services share

Every service checks the token of a request, and the scheduler also looks at the address
the request came from. Endpoint strings are parsed and printed by the RPC library, so
that part is a parameter.
-/

import Mathlib.Tactic

namespace Yadcc

/-- The set of tokens that a service recognizes. -/
structure TokenVerifier where
  recognizedTokens : List String

def TokenVerifier.verify (verifier : TokenVerifier) (token : String) : Bool :=
  verifier.recognizedTokens.contains token

inductive AddressFamily
  | inet
  | inet6
  | other
  deriving DecidableEq

/-- The remote side of a connection: its address family, and its IP as the library
prints it. -/
structure RemotePeer where
  family : AddressFamily
  ip : String

/-- The endpoint functions of the RPC library. -/
structure EndpointLibrary where
  Endpoint : Type
  tryParse : String → Option Endpoint
  endpointGetPort : Endpoint → UInt16
  toString : Endpoint → String

end Yadcc
