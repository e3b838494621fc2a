import RustImap.Authenticate
import RustImap.DebugIdle

/-!
Runs of a program with `debug` set.

A program is any sequence of operations of the client, chosen by the results of the
earlier ones. As long as it reads no line of a single byte it does the same with `debug` set;
where it does, it panics.
-/

namespace RustImap

open Exec (Shadows Watch Program)

/-- How a call ended, with what its closures have seen; a panic is not caught. -/
def outcome {S α β : Type} (seen : S → β) (x : Exec S Fault α) :
    Exec S Fault (Except Error α × β) :=
  Exec.next x fun
    | .ok a => .of fun s => (.ok (.ok a, seen s), s)
    | .error (.err e) => .of fun s => (.ok (.error e, seen s), s)
    | .error e => .fail e

theorem outcome_debugging {S α β : Type} {W : Watch S S Wire Fault} (hstop : W.stop = .panic)
    (seen : S → β) (hseen : ∀ s, seen (W.view s) = seen s) {f : α → α} {x : Exec S Fault α}
    (h : Shadows W f x x) :
    Shadows W (fun r => (r.1.map f, r.2)) (outcome seen x) (outcome seen x) := by
  refine h.next (fun r => ?_) fun t => by rw [hstop]; rfl
  have noted : ∀ r : Except Error α,
      Shadows W (fun r => (r.1.map f, r.2)) (.of fun s => (.ok (r, seen s), s))
        (.of fun s => (.ok (r.map f, seen s), s)) := fun r =>
    .quiet fun s hs => ⟨hs, rfl, by rw [Exec.of_apply, hseen]; rfl⟩
  cases r with
  | ok a => exact noted (.ok a)
  | error e =>
      cases e with
      | err e => exact noted (.error e)
      | panic | running => exact .fail _

namespace Handshake

variable {σ α : Type}

def withDebug (debug : Bool) (h : Handshake σ) : Handshake σ :=
  { h with conn := h.conn.withDebug debug }

def debugging : Watch (Handshake σ) (Handshake σ) Wire Fault where
  view := withDebug true
  plain h := h.conn.debug = false
  trace h := h.conn.stream.inner.wire
  bad w := w.isLone = true
  stop := .panic

theorem onConn_debugging {x : Exec (Connection σ) Fault α}
    (h : Shadows Connection.debugging id x x) : Shadows debugging id (onConn x) (onConn x) :=
  h.on ⟨fun _ h => h, fun _ _ h => h, fun _ => rfl, fun _ _ => rfl, fun _ => rfl, fun _ _ => rfl,
    rfl, rfl⟩

variable (peer : Peer σ) (parse : ParseResponse) (base64 : Base64) (authenticator : Authenticator)

theorem doAuthHandshake_debugging (turns : Nat) :
    Shadows debugging (Session.withDebug true)
      (doAuthHandshake peer parse base64 authenticator turns)
      (doAuthHandshake peer parse base64 authenticator turns) := by
  induction turns with
  | zero => exact .fail _
  | succ turns ih =>
      refine (onConn_debugging (Connection.readline_debugging [])).bind fun line => ?_
      rw [id]
      split
      · exact ih
      split
      · refine (Shadows.result _).bind fun challenge => ?_
        refine Shadows.bind (f := id) (.quiet fun h hh => ⟨hh, rfl, rfl⟩) fun raw => ?_
        exact (onConn_debugging (Connection.writeLine_debugging peer (isUtf8_utf8 _))).bind
          fun _ => ih
      · refine (onConn_debugging (Connection.readResponseOnto_debugging parse line)).bind
          fun _ => ?_
        exact .quiet fun h hh => ⟨hh, rfl, rfl⟩

theorem authenticate_debugging (authType : Str) (turns : Nat) :
    Shadows debugging (Session.withDebug true)
      (authenticate peer parse base64 authenticator authType turns)
      (authenticate peer parse base64 authenticator authType turns) :=
  (onConn_debugging (Connection.send_debugging peer _)).bind fun _ =>
    doAuthHandshake_debugging peer parse base64 authenticator turns

variable {peer parse base64 authenticator}

theorem doAuthHandshake_new {turns : Nat} {h h' : Handshake σ} {session : Session σ}
    (heq : doAuthHandshake peer parse base64 authenticator turns h = (.ok session, h')) :
    session = Session.new h'.conn := by
  induction turns generalizing h with
  | zero => cases heq
  | succ turns ih =>
      obtain ⟨line, h1, -, heq⟩ := Exec.bind_eq_ok.mp heq
      split at heq
      · exact ih heq
      split at heq
      · obtain ⟨challenge, h2, -, heq⟩ := Exec.bind_eq_ok.mp heq
        obtain ⟨raw, h3, -, heq⟩ := Exec.bind_eq_ok.mp heq
        obtain ⟨u, h4, -, heq⟩ := Exec.bind_eq_ok.mp heq
        exact ih heq
      · obtain ⟨r, h2, -, heq⟩ := Exec.bind_eq_ok.mp heq
        cases heq
        rfl

theorem authenticate_new {authType : Str} {turns : Nat} {h h' : Handshake σ} {session : Session σ}
    (heq : authenticate peer parse base64 authenticator authType turns h = (.ok session, h')) :
    session = Session.new h'.conn := by
  obtain ⟨sent, h1, -, heq⟩ := Exec.bind_eq_ok.mp heq
  exact doAuthHandshake_new heq

end Handshake

namespace Handle

variable {σ α : Type} (peer : Peer σ) (parse : ParseResponse)

/-- `wait_while`, with what the callback was given. -/
def waiting (callback : Callback) (turns : Nat) :
    Exec (Handle σ) Fault (Except Error WaitOutcome × List UnsolicitedResponse) :=
  Exec.on (fun h => ⟨h, []⟩) (fun w _ => w.handle)
    (outcome Waiting.heard (Waiting.waitWhile peer parse callback turns))

/-- What can be done with a handle. -/
inductive Call : {α : Type} → Exec (Handle σ) Fault α → Prop
  | timeout (timeout : Nat) : Call fun h => (.ok (), { h with timeout })
  | keepalive (keepalive : Bool) : Call fun h => (.ok (), { h with keepalive })
  | wait (callback : Callback) (turns : Nat) : Call (waiting peer parse callback turns)

/-- A handle that has been used is dropped, also by a panic; an error of its `terminate` is
not seen. -/
def dropped (r : Except Fault α) : Exec (Handle σ) Fault α :=
  match r with
  | .error .running => .fail .running
  | r => Exec.next (terminate peer parse) fun
      | .error .panic => .fail .panic
      | _ => .lift r

theorem waiting_debugging (callback : Callback) (turns : Nat) :
    Shadows debugging id (waiting peer parse callback turns)
      (waiting peer parse callback turns) := by
  have key := outcome_debugging rfl Waiting.heard (fun _ => rfl)
    (Waiting.waitWhile_debugging peer parse callback turns)
  rw [Except.map_id] at key
  exact Shadows.on ⟨fun _ h => h, fun _ _ h => h, fun _ => rfl, fun _ _ => rfl, fun _ => rfl,
    fun _ _ => rfl, rfl, rfl⟩ key

theorem Call.debugging {x : Exec (Handle σ) Fault α} (h : Call peer parse x) :
    Shadows debugging id x x := by
  cases h with
  | timeout timeout => exact .quiet fun _ hh => ⟨hh, rfl, rfl⟩
  | keepalive keepalive => exact .quiet fun _ hh => ⟨hh, rfl, rfl⟩
  | wait callback turns => exact waiting_debugging peer parse callback turns

theorem dropped_debugging (r : Except Fault α) :
    Shadows debugging id (dropped peer parse r) (dropped peer parse r) := by
  have terminated (r : Except Fault α) : Shadows debugging id
      (Exec.next (terminate peer parse) fun | .error .panic => .fail .panic | _ => .lift r)
      (Exec.next (terminate peer parse) fun | .error .panic => .fail .panic | _ => .lift r) := by
    refine (terminate_debugging peer parse).next (fun ended => ?_) fun _ => rfl
    rw [Except.map_id]
    cases ended with
    | ok u => exact .result r
    | error e => cases e <;> exact .result _
  cases r with
  | ok a => exact terminated _
  | error e =>
      cases e with
      | running => exact .fail _
      | err e => exact terminated _
      | panic => exact terminated _

theorem dropped_panic (h : Handle σ) :
    (dropped peer parse (.error .panic : Except Fault α) h).1 = .error .panic := by
  change (Exec.next (terminate peer parse) _ h).1 = _
  rw [Exec.next]
  cases (terminate peer parse h).1 with
  | ok u => rfl
  | error e => cases e <;> rfl

end Handle

namespace Session

variable {σ α β τ : Type}

/-- A call that returns a new session: the client goes on with it, or without it after an
error. -/
def entering (start : Connection σ → τ) (conn : τ → Connection σ) (seen : τ → β)
    (x : Exec τ Fault (Session σ)) : Exec (Session σ) Fault (Except Error Unit × β) := fun s =>
  match x (start s.conn) with
  | (.ok session, t) => (.ok (.ok (), seen t), session)
  | (.error (.err e), t) => (.ok (.error e, seen t), { s with conn := conn t })
  | (.error e, t) => (.error e, { s with conn := conn t })

/-- The new session is on the same connection. -/
theorem entering_eq {start : Connection σ → τ} {conn : τ → Connection σ} {seen : τ → β}
    {x : Exec τ Fault (Session σ)}
    (hnew : ∀ t session t', x t = (.ok session, t') → session = Session.new (conn t')) :
    entering start conn seen x =
      Exec.on (fun s => start s.conn) (fun t s => { s with conn := conn t }) (outcome seen x) >>=
        fun r => .of fun s =>
          match r with
          | (.ok _, b) => (.ok (.ok (), b), Session.new s.conn)
          | (.error e, b) => (.ok (.error e, b), s) := by
  funext s
  rw [entering, Exec.bind_apply, Exec.on, outcome, Exec.next]
  cases hx : x (start s.conn) with
  | mk r t =>
      cases r with
      | ok session =>
          obtain rfl := hnew _ _ _ hx
          rfl
      | error e => cases e <;> rfl

theorem entering_debugging {W : Watch τ τ Wire Fault} (hstop : W.stop = .panic)
    {start : Connection σ → τ} {conn : τ → Connection σ} (seen : τ → β)
    {x : Exec τ Fault (Session σ)} (hseen : ∀ s, seen (W.view s) = seen s)
    (part : W.Part debugging (fun s => start s.conn) (fun t s => { s with conn := conn t })
      (fun s => start s.conn) (fun t s => { s with conn := conn t }))
    (hnew : ∀ t session t', x t = (.ok session, t') → session = Session.new (conn t'))
    (h : Shadows W (withDebug true) x x) :
    Shadows debugging id (entering start conn seen x) (entering start conn seen x) := by
  rw [entering_eq hnew]
  refine (Shadows.on part (outcome_debugging hstop seen hseen h)).bind fun r => ?_
  obtain ⟨r, b⟩ := r
  cases r with
  | ok session => exact .quiet fun s hs => ⟨hs, rfl, rfl⟩
  | error e => exact .quiet fun s hs => ⟨hs, rfl, rfl⟩

variable (peer : Peer σ) (parse : ParseResponse) (base64 : Base64)

/-- A handle is made, used and dropped. -/
def idling (use : Exec (Handle σ) Fault α) : Exec (Session σ) Fault α :=
  Exec.on Handle.make (fun h _ => h.session) (Exec.next use (Handle.dropped peer parse))

/-- An error is a value that the program can look at. -/
def caught : Fault → Option Error
  | .err e => some e
  | _ => none

/-- The operations of a client and of a session. -/
inductive Operation : {α : Type} → Exec (Session σ) Fault α → Prop
  | readGreeting : Operation (onConn Connection.readGreeting)
  | clientCapabilities : Operation (onConn (Client.capabilities peer parse))
  | intoInner : Operation (onConn (Client.intoInner peer))
  | login (username password : Str) :
      Operation (entering id id (fun _ => ()) (Client.login peer parse username password))
  | authenticate (authType : Str) (authenticator : Authenticator) (turns : Nat) :
      Operation (entering (fun conn => ⟨conn, []⟩) Handshake.conn Handshake.challenges
        (Handshake.authenticate peer parse base64 authenticator authType turns))
  | operation {α : Type} (c : Command) (finish : Bytes → Nat → Collect α) :
      Operation (operation peer parse c finish)
  | logout : Operation (logout peer parse)
  | append (cmd : AppendCmd) : Operation (cmd.finish peer parse)
  | idle {α : Type} {use : Exec (Handle σ) Fault α} :
      Exec.Program (Handle.Call peer parse) caught use → Operation (idling peer parse use)
  | runCommand (text : Str) : Operation (onConn (Connection.runCommand peer text))
  | run (text : Str) : Operation (onConn (Connection.run peer parse text))
  | skipTag : Operation (onConn Connection.skipTag)
  | takeAllUnsolicited : Operation (onQueue fun queue => (.ok queue, []))

variable {peer parse base64}

theorem idling_debugging {use : Exec (Handle σ) Fault α}
    (h : Program (Handle.Call peer parse) caught use) :
    Shadows debugging id (idling peer parse use) (idling peer parse use) := by
  have called : Shadows Handle.debugging id use use :=
    h.shadows rfl fun hcall => hcall.debugging peer parse
  refine Shadows.on ⟨fun _ h => h, fun _ _ h => h, fun _ => rfl, fun _ _ => rfl, fun _ => rfl,
    fun _ _ => rfl, rfl, rfl⟩ (called.next (fun r => ?_) (Handle.dropped_panic peer parse))
  rw [Except.map_id]
  exact Handle.dropped_debugging peer parse r

theorem Operation.debugging {x : Exec (Session σ) Fault α} (h : Operation peer parse base64 x) :
    Shadows debugging id x x := by
  cases h with
  | readGreeting => exact onConn_debugging Connection.readGreeting_debugging
  | clientCapabilities =>
      exact onConn_debugging (Connection.capabilities_debugging peer parse)
  | intoInner => exact onConn_debugging (Connection.intoInner_debugging peer)
  | login username password =>
      refine entering_debugging (W := Connection.debugging) rfl _ (fun _ => rfl)
        ⟨fun _ h => h, fun _ _ h => h, fun _ => rfl, fun _ _ => rfl, fun _ => rfl, fun _ _ => rfl,
          rfl, rfl⟩ (fun conn session conn' heq => ?_) ?_
      · obtain ⟨r, conn1, -, heq⟩ := Exec.bind_eq_ok.mp heq
        cases heq
        rfl
      · refine (Connection.command_debugging peer parse _).bind fun _ => ?_
        exact .quiet fun conn hconn => ⟨hconn, rfl, rfl⟩
  | authenticate authType authenticator turns =>
      exact entering_debugging rfl _ (fun _ => rfl)
        ⟨fun _ h => h, fun _ _ h => h, fun _ => rfl, fun _ _ => rfl, fun _ => rfl, fun _ _ => rfl,
          rfl, rfl⟩ (fun _ _ _ heq => Handshake.authenticate_new heq)
        (Handshake.authenticate_debugging peer parse base64 authenticator authType turns)
  | operation c finish => exact operation_debugging peer parse c finish
  | logout => exact logout_debugging peer parse
  | append cmd => exact finish_debugging peer parse cmd
  | idle huse => exact idling_debugging huse
  | runCommand text => exact onConn_debugging (Connection.runCommand_debugging peer text)
  | run text => exact onConn_debugging (Connection.run_debugging peer parse text)
  | skipTag => exact onConn_debugging (.quiet fun _ hconn => ⟨hconn, rfl, rfl⟩)
  | takeAllUnsolicited => exact onQueue_debugging _

/-- The traffic of a run. -/
def traffic (x : Exec (Session σ) Fault α) (s : Session σ) : List Wire :=
  (x s).2.conn.stream.inner.wire.drop s.conn.stream.inner.wire.length

/-- `&into[(len - read)..(len - 2)]` -/
def SliceInRange (len read : Nat) : Prop := 2 ≤ len ∧ len - read ≤ len - 2

/-- `debug` changes nothing: the result is the same, and so is the state, which has the
record of what was sent; and every line that is read can be printed, whatever it is appended to. -/
structure Transparent (x : Exec (Session σ) Fault α) (s : Session σ) : Prop where
  same : x (s.withDebug true) =
    ((x (s.withDebug false)).1, (x (s.withDebug false)).2.withDebug true)
  printed : ∀ line, .read line none ∈ traffic x (s.withDebug true) → line ≠ [] →
    ∀ into : Bytes, SliceInRange (into ++ line).length line.length

theorem sliceInRange_iff (line : Bytes) :
    (line ≠ [] → ∀ into : Bytes, SliceInRange (into ++ line).length line.length) ↔
      (Wire.read line none).isLone = false := by
  match line with
  | [] => simp [Wire.isLone]
  | [b] =>
      refine iff_of_false (fun h => ?_) Bool.noConfusion
      have hlen := (h (by simp) []).1
      simp at hlen
  | b :: c :: line =>
      refine iff_of_true (fun _ into => ?_) rfl
      simp only [SliceInRange, List.length_append, List.length_cons]
      omega

/-- Until a line of a single byte is read `debug` changes nothing, and there it panics. -/
theorem program_debugging {x : Exec (Session σ) Fault α}
    (hx : Program (Operation peer parse base64) caught x) (s : Session σ) :
    ((∀ w ∈ traffic x (s.withDebug false), w.isLone = false) →
      x (s.withDebug true) =
        ((x (s.withDebug false)).1, (x (s.withDebug false)).2.withDebug true)) ∧
      ((∃ w ∈ traffic x (s.withDebug false), w.isLone = true) →
        (x (s.withDebug true)).1 = .error .panic) := by
  have shadows : Shadows debugging id x x := hx.shadows rfl fun hop => hop.debugging
  obtain ⟨-, met, htrace, hgood, hbad⟩ := shadows (s.withDebug false) rfl
  have hmet : traffic x (s.withDebug false) = met := by
    change List.drop _ (debugging.trace (x (s.withDebug false)).2) = met
    rw [htrace]
    exact List.drop_left
  rw [hmet]
  refine ⟨fun h => ?_, hbad⟩
  have key := hgood fun w hw => by simp [debugging, h w hw]
  rw [Except.map_id] at key
  exact key

theorem transparent_iff {x : Exec (Session σ) Fault α}
    (hx : Program (Operation peer parse base64) caught x) (s : Session σ) :
    Transparent x s ↔ ∀ w ∈ traffic x (s.withDebug false), w.isLone = false := by
  have straffic (h : x (s.withDebug true) =
      ((x (s.withDebug false)).1, (x (s.withDebug false)).2.withDebug true)) :
      traffic x (s.withDebug true) = traffic x (s.withDebug false) := by
    rw [traffic, h]
    rfl
  constructor
  · intro h w hw
    cases w with
    | sent bs => rfl
    | read line failed =>
        cases failed with
        | some k => simp [Wire.isLone]
        | none =>
            rw [← straffic h.same] at hw
            exact (sliceInRange_iff line).mp (h.printed line hw)
  · intro h
    have same := (program_debugging hx s).1 h
    refine ⟨same, fun line hline => (sliceInRange_iff line).mpr (h _ ?_)⟩
    rwa [straffic same] at hline

/-- A client that has not read its greeting yet, and the bytes the server has sent. -/
def greeted (bs : Bytes) : Session Unit :=
  new { Connection.reading bs false with greetingRead := false }

/-- The greeting is read and then a command is run. -/
def greetThenNoop : Exec (Session Unit) Fault Unit := do
  let _ ← onConn Connection.readGreeting
  noop Connection.silent Handshake.plainParse

theorem greetThenNoop_program :
    Program (Operation Connection.silent Handshake.plainParse Handshake.fooBar) caught
      greetThenNoop :=
  .bind (.op .readGreeting) fun _ => .op (.operation .noop fun lines ok =>
    parseNoop Handshake.plainParse (lines.take ok))

theorem transparent_greetThenNoop :
    Transparent greetThenNoop (greeted (utf8 "* OK hello\r\na1 OK\r\n".toList)) :=
  (transparent_iff greetThenNoop_program _).mpr (by decide)

/-- An empty line without carriage return is taken for a greeting, unless `debug` is set. -/
theorem transparent_fails :
    Program (Operation Connection.silent Handshake.plainParse Handshake.fooBar) caught
        (onConn Connection.readGreeting) ∧
      (onConn Connection.readGreeting ((greeted [LF]).withDebug false)).1 = .ok [LF] ∧
      (onConn Connection.readGreeting ((greeted [LF]).withDebug true)).1 = .error .panic ∧
      ¬Transparent (onConn Connection.readGreeting) (greeted [LF]) := by
  refine ⟨.op .readGreeting, by decide, by decide, fun h => ?_⟩
  have hsame := congrArg Prod.fst h.same
  revert hsame
  decide

end Session

end RustImap
