import RustImap.Proto
import RustImap.Stream

/-!
The error type of the client.

Where the source keeps the error value of another crate (`io::Error`,
`base64::DecodeError`, `Utf8Error`, the handshake errors) only the part the client
looks at is kept. `Fault` adds what is not a returned error: a panic, and a call
that has not come to its end.
-/

namespace RustImap

inductive ParseError where
  | invalid (data : Bytes)
  | authentication (line : Str) (decodeFailed : Bool)
  | dataNotUtf8 (data : Bytes)
  deriving DecidableEq

structure ValidateError where
  commandSynopsis : Str
  argument : Str
  offendingChar : Char
  deriving DecidableEq

structure TagMismatch where
  expect : UInt32
  actual : UInt32 ⊕ Bytes
  deriving DecidableEq

inductive Error where
  | io (kind : ErrorKind)
  | handshake (message : Str)
  | bad (information : Str) (code : Option ResponseCode)
  | no (information : Str) (code : Option ResponseCode)
  | bye (information : Str) (code : Option ResponseCode)
  | connectionLost
  | parse (e : ParseError)
  | validate (e : ValidateError)
  | append
  | unexpected (response : Response)
  | missingStatusResponse
  | tagMismatch (e : TagMismatch)
  | startTlsNotAvailable
  | tlsNotConfigured
  deriving DecidableEq

/-- Why a call has produced no value. -/
inductive Fault where
  | err (e : Error)
  | panic
  | running
  deriving DecidableEq

end RustImap
