import RustImap.Append
import RustImap.Watch

/-!
The client with `debug` set, operation by operation.

Printing what is sent never fails: every line the client writes is a string. Printing a line
that was received cuts off its last two bytes, so the client goes on after a line of one byte
without `debug` and stops with it.
-/

namespace RustImap

open Exec (Shadows Watch)

/-- A line of a single byte: an empty line without carriage return, or the last byte before
the end of the stream. -/
def Wire.isLone : Wire → Bool
  | .read [_] none => true
  | _ => false

/-- What the caller of `LOGOUT` gets: a server that ends the answer with `BYE` has done as it
was told. -/
def takeBye {S α : Type} (done : α) : Except Fault α → Exec S Fault α
  | .error (.err (.bye _ _)) => pure done
  | r => .lift r

namespace Connection

variable {σ α : Type}

def withDebug (debug : Bool) (conn : Connection σ) : Connection σ := { conn with debug }

/-- A connection without `debug` and the same connection with it. -/
def debugging : Watch (Connection σ) (Connection σ) Wire Fault where
  view := withDebug true
  plain conn := conn.debug = false
  trace conn := conn.stream.inner.wire
  bad w := w.isLone = true
  stop := .panic

theorem io_debugging {f : BufStream σ → Except ErrorKind α × BufStream σ}
    (h : ∀ s : BufStream σ, s.SentMore (f s).2) : Shadows debugging id (io f) (io f) := by
  intro conn hconn
  obtain ⟨chunks, hchunks⟩ := h conn.stream
  refine ⟨hconn, chunks.map .sent, hchunks, fun _ => ?_, ?_⟩
  · rw [Except.map_id]
    rfl
  · rintro ⟨w, hw, hlone⟩
    obtain ⟨chunk, -, rfl⟩ := List.mem_map.mp hw
    cases hlone

/-- Only a line of a single byte is lost on the debug output. -/
theorem lineResult_debugging {conn : Connection σ} (h : conn.debug = false) (into line : Bytes)
    (failed : Option ErrorKind) :
    lineResult (conn.withDebug true) into line failed =
      if (Wire.read line failed).isLone then .error .panic
      else lineResult conn into line failed := by
  cases failed with
  | some k => simp [Wire.isLone, lineResult]
  | none =>
      cases line with
      | nil => rfl
      | cons b line =>
          cases line with
          | nil => rfl
          | cons c line => simp [Wire.isLone, lineResult, printable, withDebug, h]

theorem readline_debugging (into : Bytes) :
    Shadows debugging id (readline (σ := σ) into) (readline into) := by
  intro conn hconn
  have hplain := (readline_eq (takeLine_input conn) into).1
  have hdebug := (readline_eq (takeLine_input (conn.withDebug true)) into).1
  rw [lineResult_debugging hconn] at hdebug
  change readline into (debugging.view conn) = _ at hdebug
  refine ⟨by rwa [hplain], [.read (conn.stream.readUntil LF).1.1 (conn.stream.readUntil LF).1.2],
    by rw [hplain]; rfl, fun hgood => ?_, fun ⟨w, hw, hbad⟩ => ?_⟩
  · have hlone := hgood _ (List.mem_singleton_self _)
    rw [hdebug, hplain, Except.map_id]
    exact Prod.ext (if_neg hlone) rfl
  · obtain rfl := List.mem_singleton.mp hw
    rw [hdebug]
    exact if_pos hbad

variable (peer : Peer σ)

theorem writeLine_debugging {buf : Bytes} (hbuf : isUtf8 buf = true) :
    Shadows debugging id (writeLine peer buf) (writeLine peer buf) := by
  refine (io_debugging (BufStream.writeAll_sentMore peer buf)).bind fun _ => ?_
  refine (io_debugging (BufStream.writeAll_sentMore peer [CR, LF])).bind fun _ => ?_
  refine (io_debugging (BufStream.flush_sentMore peer)).bind fun _ => .quiet fun conn hconn => ?_
  simp only [Exec.of_apply, hbuf, Bool.not_true, Bool.and_false, Bool.false_eq_true, if_false]
  exact ⟨hconn, trivial, rfl⟩

theorem createCommand_debugging (command : Str) :
    Shadows debugging id (createCommand (σ := σ) command) (createCommand command) :=
  .quiet fun _ hconn => ⟨hconn, rfl, rfl⟩

/-- The end of `run_command`. -/
def takeBack (r : Except Fault Unit) : Exec (Connection σ) Fault Unit := fun conn =>
  (r, match r with
    | .error (.err _) => { conn with tag := conn.tag - 1 }
    | _ => conn)

theorem runCommand_eq (text : Str) :
    runCommand peer text =
      createCommand text >>= fun command => Exec.next (writeLine peer (utf8 command)) takeBack := by
  refine congrArg (createCommand text >>= ·) (funext fun command => funext fun conn => ?_)
  rw [Exec.of_apply, Exec.next]
  cases writeLine peer (utf8 command) conn with
  | mk r conn =>
      cases r with
      | ok u => rfl
      | error e => cases e <;> rfl

theorem runCommand_debugging (text : Str) :
    Shadows debugging id (runCommand peer text) (runCommand peer text) := by
  rw [runCommand_eq]
  refine (createCommand_debugging text).bind fun command => ?_
  refine (writeLine_debugging peer (isUtf8_utf8 command)).next (fun r => ?_) fun _ => rfl
  refine .quiet fun conn hconn => ?_
  rw [Except.map_id]
  cases r with
  | ok u => exact ⟨hconn, rfl, rfl⟩
  | error e => cases e <;> exact ⟨hconn, rfl, rfl⟩

theorem turnStart_debugging (data : Bytes) (from_ : Option Nat) (tryFirst : Bool) :
    Shadows debugging id (turnStart (σ := σ) data from_ tryFirst)
      (turnStart data from_ tryFirst) := by
  cases tryFirst with
  | true => exact .pure (data, 0)
  | false =>
      have heq : turnStart (σ := σ) data from_ false =
          readline data >>= fun line => pure (line, from_.getD data.length) := by
        funext conn
        rw [Exec.bind_apply, turnStart, if_neg (by decide)]
        cases readline data conn with
        | mk r conn => cases r <;> rfl
      rw [heq]
      exact (readline_debugging data).bind fun line => .pure _

variable (parse : ParseResponse)

/-- A turn of the loop once `data` and `line_start` are known. -/
def turnEnd (turns : Nat) (start : Bytes × Nat) (tag : UInt32) :
    Exec (Connection σ) Fault (Bytes × Nat) :=
  match leave start.1 start.2 (breakWith tag (parse.run (start.1.drop start.2))) with
  | some result => .lift result
  | none => readResponseLoop parse turns start.1
      (continueFrom start.2 (parse.run (start.1.drop start.2))) false

theorem readResponseLoop_eq (turns : Nat) (data : Bytes) (from_ : Option Nat)
    (tryFirst : Bool) :
    readResponseLoop (σ := σ) parse (turns + 1) data from_ tryFirst =
      turnStart data from_ tryFirst >>= fun start =>
        .of fun conn => turnEnd parse turns start conn.tag conn := by
  funext conn
  rw [readResponseLoop_succ, Exec.bind_apply]
  cases turnStart data from_ tryFirst conn with
  | mk r conn =>
      cases r with
      | error e => rfl
      | ok start =>
          obtain ⟨data, lineStart⟩ := start
          simp only [Exec.of_apply, turnEnd]
          cases leave data lineStart (breakWith conn.tag (parse.run (data.drop lineStart))) <;> rfl

theorem readResponseLoop_debugging (turns : Nat) (data : Bytes) (from_ : Option Nat)
    (tryFirst : Bool) :
    Shadows debugging id (readResponseLoop (σ := σ) parse turns data from_ tryFirst)
      (readResponseLoop parse turns data from_ tryFirst) := by
  induction turns generalizing data from_ tryFirst with
  | zero => exact .fail _
  | succ turns ih =>
      rw [readResponseLoop_eq]
      refine (turnStart_debugging data from_ tryFirst).bind fun start => ?_
      refine .dependent (F := fun conn => turnEnd parse turns start conn.tag)
        (G := fun conn => turnEnd parse turns start conn.tag) fun conn => ?_
      change Shadows debugging id (turnEnd parse turns start conn.tag)
        (turnEnd parse turns start conn.tag)
      unfold turnEnd
      cases leave start.1 start.2 (breakWith conn.tag (parse.run (start.1.drop start.2))) with
      | some result => exact .result result
      | none => exact ih _ _ _

theorem readResponseOnto_debugging (data : Bytes) :
    Shadows debugging id (readResponseOnto (σ := σ) parse data) (readResponseOnto parse data) := by
  intro conn hconn
  exact readResponseLoop_debugging parse _ data none (!data.isEmpty) conn hconn

theorem readResponse_debugging :
    Shadows debugging id (readResponse (σ := σ) parse) (readResponse parse) :=
  readResponseOnto_debugging parse []

theorem run_debugging (text : Str) :
    Shadows debugging id (run peer parse text) (run peer parse text) :=
  (runCommand_debugging peer text).bind fun _ => readResponse_debugging parse

theorem send_debugging (c : Command) : Shadows debugging id (send peer c) (send peer c) := by
  refine (Shadows.result (c.text.mapError Fault.err)).bind fun text => ?_
  cases text with
  | none => exact .pure false
  | some text => exact (runCommand_debugging peer text).bind fun _ => .pure true

theorem command_debugging (c : Command) :
    Shadows debugging id (command peer parse c) (command peer parse c) := by
  refine (send_debugging peer c).bind fun sent => ?_
  cases sent with
  | true => exact readResponse_debugging parse
  | false => exact .pure _

theorem readGreeting_debugging :
    Shadows debugging id (readGreeting (σ := σ)) readGreeting := by
  refine Shadows.read.bind fun conn => ?_
  have hread : (debugging.view conn).greetingRead = conn.greetingRead := rfl
  rw [hread]
  split
  · exact .fail Fault.panic
  · exact (readline_debugging []).bind fun v => .quiet fun conn hconn => ⟨hconn, rfl, rfl⟩

theorem capabilities_debugging :
    Shadows debugging id (Client.capabilities peer parse) (Client.capabilities peer parse) := by
  refine Shadows.bind (f := id) ?_ fun lines => .result _
  exact (run_debugging peer parse _).bind fun r => Shadows.pure (f := id) (r.1.take r.2)

theorem intoInner_debugging :
    Shadows debugging id (Client.intoInner peer) (Client.intoInner peer) :=
  io_debugging (f := fun s =>
    ((s.flush peer).1.map fun _ => (s.intoInner peer).2, (s.flush peer).2))
    (BufStream.flush_sentMore peer)

theorem converse_debugging (cmd : AppendCmd) :
    Shadows debugging id (cmd.converse peer parse) (cmd.converse peer parse) := by
  refine (send_debugging peer cmd.command).bind fun _ => (readline_debugging []).bind fun v => ?_
  rw [id]
  split
  · exact .fail _
  · refine (io_debugging (BufStream.writeAll_sentMore peer cmd.content)).bind fun _ => ?_
    refine (io_debugging (BufStream.writeAll_sentMore peer [CR, LF])).bind fun _ => ?_
    refine (io_debugging (BufStream.flush_sentMore peer)).bind fun _ => ?_
    exact readResponse_debugging parse

end Connection

namespace Session

variable {σ α : Type}

def withDebug (debug : Bool) (s : Session σ) : Session σ :=
  { s with conn := s.conn.withDebug debug }

def debugging : Watch (Session σ) (Session σ) Wire Fault where
  view := withDebug true
  plain s := s.conn.debug = false
  trace s := s.conn.stream.inner.wire
  bad w := w.isLone = true
  stop := .panic

theorem onConn_debugging {x : Exec (Connection σ) Fault α}
    (h : Shadows Connection.debugging id x x) : Shadows debugging id (onConn x) (onConn x) :=
  h.on ⟨fun _ h => h, fun _ _ h => h, fun _ => rfl, fun _ _ => rfl, fun _ => rfl, fun _ _ => rfl,
    rfl, rfl⟩

theorem onQueue_debugging (x : Collect α) : Shadows debugging id (onQueue (σ := σ) x) (onQueue x) :=
  .quiet fun s hs => ⟨hs, rfl, by rw [Except.map_id]; rfl⟩

variable (peer : Peer σ) (parse : ParseResponse)

theorem operation_debugging (c : Command) (finish : Bytes → Nat → Collect α) :
    Shadows debugging id (operation peer parse c finish) (operation peer parse c finish) :=
  (onConn_debugging (Connection.command_debugging peer parse c)).bind fun _ => onQueue_debugging _

theorem finish_debugging (cmd : AppendCmd) :
    Shadows debugging id (cmd.finish peer parse) (cmd.finish peer parse) :=
  (onConn_debugging (Connection.converse_debugging peer parse cmd)).bind fun _ =>
    onQueue_debugging _

theorem logout_next : logout peer parse = Exec.next (checkOk peer parse .logout) (takeBye ()) := by
  funext s
  rw [logout, Exec.next]
  cases checkOk peer parse .logout s with
  | mk r s =>
      cases r with
      | ok u => rfl
      | error e =>
          cases e with
          | err e => cases e <;> rfl
          | panic | running => rfl

theorem logout_debugging :
    Shadows debugging id (logout peer parse) (logout peer parse) := by
  rw [logout_next]
  refine Shadows.next (operation_debugging peer parse _ _) (fun r => ?_) fun _ => rfl
  rw [Except.map_id]
  cases r with
  | ok u => exact .result _
  | error e =>
      cases e with
      | err e => cases e <;> first | exact .pure () | exact .result _
      | panic | running => exact .result _

end Session

end RustImap
