import Mathlib.Algebra.Group.Nat.Defs
import RustImap.Error
import RustImap.Exec

/-!
The primitives shared by `Client` and `Session`: sending a tagged command and
reading responses up to the tagged one.

Tags count modulo `2 ^ 32`, as in a release build. The loop of `readResponseOnto`
takes at least one byte in every turn, so the number of turns it is given here is
never used up; `ReadResponse` proves it.
-/

namespace RustImap

structure Connection (σ : Type) where
  stream : BufStream σ
  tag : UInt32
  debug : Bool
  greetingRead : Bool
  deriving DecidableEq

def INITIAL_TAG : UInt32 := 0

def TAG_PREFIX : Str := ['a']

/-- `format!("{}{}", TAG_PREFIX, tag)` -/
def matchTag (tag : UInt32) : Str := TAG_PREFIX ++ decimal tag.toNat

/-- `str::parse::<u32>` -/
def parseU32 (s : Str) : Option UInt32 :=
  let digits := match s with
    | '+' :: rest => rest
    | s => s
  if digits = [] ∨ digits.any (fun c => !c.isDigit) then none
  else if Nat.ofDigitChars 10 digits 0 < 2 ^ 32 then
    some (UInt32.ofNat (Nat.ofDigitChars 10 digits 0))
  else none

/-- What a mismatched tag is reported as: its number, or else its bytes. -/
def actualTag (tag : Str) : UInt32 ⊕ Bytes :=
  match parseU32 (tag.dropWhile (· = 'a')) with
  | some n => .inl n
  | none => .inr (utf8 tag)

/-- A status that ends the loop, with its text and code. -/
abbrev Reason := Status × Option Str × Option ResponseCode

/-- The first `match` of the loop: leave with a mismatch, or `break_with`. -/
def breakWith (tag : UInt32) :
    Verdict UInt8 Response → Except Error (Option (Except Reason Unit))
  | .ok _ (.done doneTag status code information) =>
      if doneTag ≠ matchTag tag then
        .error (.tagMismatch { expect := tag, actual := actualTag doneTag })
      else
        .ok <| some <| match status with
          | .bad => .error (status, information, code)
          | .no => .error (status, information, code)
          | .bye => .error (status, information, code)
          | .ok => .ok ()
          | .preAuth => .error (status, none, code)
  | .ok _ _ => .ok none
  | .incomplete => .ok none
  | .error => .ok (some (.error (.bye, none, none)))

def noExplanation : Str := "no explanation given".toList

/-- The second `match` of the loop: the error a status stands for. -/
def breakError (data : Bytes) : Reason → Error
  | (.bad, expl, code) => .bad (expl.getD noExplanation) code
  | (.no, expl, code) => .no (expl.getD noExplanation) code
  | (.bye, expl, code) => .bye (expl.getD noExplanation) code
  | (_, _, _) => .parse (.invalid data)

/-- How a turn leaves the loop, if it does: with the vector and `line_start`, or with
an error. -/
def leave (data : Bytes) (lineStart : Nat) :
    Except Error (Option (Except Reason Unit)) → Option (Except Fault (Bytes × Nat))
  | .error e => some (.error (.err e))
  | .ok (some (.ok ())) => some (.ok (data, lineStart))
  | .ok (some (.error reason)) => some (.error (.err (breakError data reason)))
  | .ok none => none

/-- `continue_from` after a turn that does not leave the loop. -/
def continueFrom (lineStart : Nat) : Verdict UInt8 Response → Option Nat
  | .incomplete => some lineStart
  | _ => none

namespace Connection

variable {σ α : Type} (peer : Peer σ) (parse : ParseResponse)

/-- An operation of the stream; its error becomes `Error::Io`. -/
def io (f : BufStream σ → Except ErrorKind α × BufStream σ) :
    Exec (Connection σ) Fault α := fun conn =>
  ((f conn.stream).1.mapError fun k => .err (.io k), { conn with stream := (f conn.stream).2 })

/-- Extend `into` by one line. A caller that gets an error never looks at the bytes
that were appended before it. -/
def readline (into : Bytes) : Exec (Connection σ) Fault Bytes := fun conn =>
  match conn.stream.readUntil LF with
  | ((_, some k), stream) => (.error (.err (.io k)), { conn with stream })
  | (([], none), stream) => (.error (.err .connectionLost), { conn with stream })
  | ((line, none), stream) =>
      -- the debug output takes the slice from `len - read` to `len - 2`
      if conn.debug && decide (line.length < 2) then (.error .panic, { conn with stream })
      else (.ok (into ++ line), { conn with stream })

def writeLine (buf : Bytes) : Exec (Connection σ) Fault Unit := do
  io (BufStream.writeAll peer buf)
  io (BufStream.writeAll peer [CR, LF])
  io (BufStream.flush peer)
  .of fun conn =>
    if conn.debug && !isUtf8 buf then (.error .panic, conn) else (.ok (), conn)

def createCommand (command : Str) : Exec (Connection σ) Fault Str := fun conn =>
  (.ok (matchTag (conn.tag + 1) ++ ' ' :: command), { conn with tag := conn.tag + 1 })

/-- A failed write takes the tag back. -/
def runCommand (untaggedCommand : Str) : Exec (Connection σ) Fault Unit := do
  let command ← createCommand untaggedCommand
  .of fun conn =>
    match writeLine peer (utf8 command) conn with
    | (.error (.err e), conn) => (.error (.err e), { conn with tag := conn.tag - 1 })
    | r => r

/-- The start of a turn: `data` with one more line, unless it is to be looked at first,
and `line_start`. -/
def turnStart (data : Bytes) (from_ : Option Nat) (tryFirst : Bool) :
    Exec (Connection σ) Fault (Bytes × Nat) := fun conn =>
  if tryFirst then (.ok (data, 0), conn)
  else
    match readline data conn with
    | (.ok line, conn) => (.ok (line, from_.getD data.length), conn)
    | (.error e, conn) => (.error e, conn)

/-- The loop of `read_response_onto`, with its three variables. -/
def readResponseLoop :
    Nat → Bytes → Option Nat → Bool → Exec (Connection σ) Fault (Bytes × Nat)
  | 0, _, _, _ => .fail .running
  | turns + 1, data, from_, tryFirst => fun conn =>
      match turnStart data from_ tryFirst conn with
      | (.error e, conn) => (.error e, conn)
      | (.ok (data, lineStart), conn) =>
          let verdict := parse.run (data.drop lineStart)
          match leave data lineStart (breakWith conn.tag verdict) with
          | some result => (result, conn)
          | none => readResponseLoop turns data (continueFrom lineStart verdict) false conn

def readResponseOnto (data : Bytes) : Exec (Connection σ) Fault (Bytes × Nat) := fun conn =>
  readResponseLoop parse (conn.stream.input.length + 2) data none (!data.isEmpty) conn

def readResponse : Exec (Connection σ) Fault (Bytes × Nat) := readResponseOnto parse []

def run (untaggedCommand : Str) : Exec (Connection σ) Fault (Bytes × Nat) := do
  runCommand peer untaggedCommand
  readResponse parse

def runCommandAndReadResponse (untaggedCommand : Str) : Exec (Connection σ) Fault Bytes := do
  let (data, ok) ← run peer parse untaggedCommand
  pure (data.take ok)

def runCommandAndCheckOk (untaggedCommand : Str) : Exec (Connection σ) Fault Unit := do
  let _ ← runCommandAndReadResponse peer parse untaggedCommand
  pure ()

def readGreeting : Exec (Connection σ) Fault Bytes := do
  let conn ← .of fun conn => (.ok conn, conn)
  if conn.greetingRead then .fail .panic
  else do
    let v ← readline []
    .of fun conn => (.ok v, { conn with greetingRead := true })

def skipTag : Exec (Connection σ) Fault Unit := fun conn =>
  (.ok (), { conn with tag := conn.tag + 1 })

end Connection
end RustImap
