import RustImap.Session

/-!
`Client`: a connection before it has logged in.

It has no state of its own, so its operations are operations of the connection.
-/

namespace RustImap
namespace Client

variable {σ : Type}

def new (stream : Transport σ) : Connection σ where
  stream := .new stream
  tag := INITIAL_TAG
  debug := false
  greetingRead := false

variable (peer : Peer σ) (parse : ParseResponse)

/-- The client is given up: only the transport that is returned matters. -/
def intoInner : Exec (Connection σ) Fault (Transport σ) := fun conn =>
  ((conn.stream.flush peer).1.map (fun _ => (conn.stream.intoInner peer).2) |>.mapError
    fun k => .err (.io k), { conn with stream := (conn.stream.flush peer).2 })

/-- What `Capabilities::parse` finds besides capabilities is dropped: there is no queue
before login. -/
def capabilities : Exec (Connection σ) Fault (Finset Capability) := do
  let lines ← Connection.runCommandAndReadResponse peer parse "CAPABILITY".toList
  .lift (parseCapabilities parse lines []).1

def login (username password : Str) : Exec (Connection σ) Fault (Session σ) := do
  let _ ← Connection.command peer parse (.login username password)
  .of fun conn => (.ok (Session.new conn), conn)

end Client
end RustImap
