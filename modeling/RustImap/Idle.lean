import RustImap.Session

/-!
`IDLE`, and the handle that waits while it runs.

A handle is dropped in the end, and dropping it terminates the `IDLE` whose running is
recorded in `done`. The loop of `wait_while` reads a line at a time; a read that times
out ends it, and with keepalive the `IDLE` is terminated and issued again.
-/

namespace RustImap

inductive WaitOutcome where
  | timedOut
  | mailboxChanged
  deriving DecidableEq

/-- The callback of a wait can remember the responses it has been given: whether to go
on depends on all of them, the last one included. -/
abbrev Callback := List UnsolicitedResponse → Bool

def stopOnAny : Callback := fun _ => false

def asciiLower (b : UInt8) : UInt8 := if 0x41 ≤ b ∧ b ≤ 0x5a then b + 0x20 else b

/-- `eq_ignore_ascii_case` -/
def eqIgnoreAsciiCase (a b : Bytes) : Bool := a.map asciiLower = b.map asciiLower

/-- Dovecot's `imap_idle_notify_interval` message. -/
def stillHere : Bytes := utf8 "* OK Still here\r\n".toList

def BufStream.setReadTimeout {σ : Type} (timeout : Option Nat) (s : BufStream σ) :
    Except ErrorKind Unit × BufStream σ :=
  match s.inner.timeouts with
  | some k :: timeouts => (.error k, { s with inner := { s.inner with timeouts } })
  | outcomes =>
      (.ok (), { s with inner :=
        { s.inner with readTimeout := timeout, timeouts := outcomes.tail } })

@[simp] theorem BufStream.setReadTimeout_wire {σ : Type} (timeout : Option Nat)
    (s : BufStream σ) : (setReadTimeout timeout s).2.inner.wire = s.inner.wire := by
  unfold setReadTimeout
  split <;> rfl

@[simp] theorem BufStream.setReadTimeout_wbuf {σ : Type} (timeout : Option Nat)
    (s : BufStream σ) : (setReadTimeout timeout s).2.wbuf = s.wbuf := by
  unfold setReadTimeout
  split <;> rfl

structure Handle (σ : Type) where
  session : Session σ
  /-- In seconds. -/
  timeout : Nat
  keepalive : Bool
  done : Bool

namespace Handle

variable {σ α : Type} (peer : Peer σ) (parse : ParseResponse)

def make (session : Session σ) : Handle σ :=
  { session, timeout := 29 * 60, keepalive := true, done := false }

def conn (h : Handle σ) : Connection σ := h.session.conn

def withConn (conn : Connection σ) (h : Handle σ) : Handle σ :=
  { h with session := { h.session with conn } }

def onConn (x : Exec (Connection σ) Fault α) : Exec (Handle σ) Fault α := Exec.on conn withConn x

def setDone (done : Bool) : Exec (Handle σ) Fault Unit := fun h => (.ok (), { h with done })

def init : Exec (Handle σ) Fault Unit := do
  onConn (Connection.runCommand peer "IDLE".toList)
  let v ← onConn (Connection.readline [])
  if v.head? = some PLUS then setDone false
  else do
    let _ ← onConn (Connection.readResponseOnto parse v)
    -- there is no `OK` to an `IDLE` that has not been confirmed
    .fail .panic

def terminate : Exec (Handle σ) Fault Unit := do
  let h ← .of fun h => (.ok h, h)
  if !h.done then do
    setDone true
    onConn (Connection.writeLine peer (utf8 "DONE".toList))
    let _ ← onConn (Connection.readResponse parse)
    pure ()
  else pure ()

def setReadTimeout (timeout : Option Nat) : Exec (Handle σ) Fault Unit :=
  onConn (Connection.io (BufStream.setReadTimeout timeout))

theorem onConn_apply (x : Exec (Connection σ) Fault α) (h : Handle σ) :
    onConn x h = ((x h.conn).1, h.withConn (x h.conn).2) := rfl

/-- What an `IDLE` that is not confirmed ends with. -/
def unconfirmed {β : Type} : Except Fault β → Fault
  | .error e => e
  | .ok _ => .panic

/-- The ways an `IDLE` is issued: the command is not written, its answer is not read, it
is confirmed, or it is refused. -/
theorem init_cases (h : Handle σ) :
    (∃ e conn, Connection.runCommand peer "IDLE".toList h.conn = (.error e, conn) ∧
      init peer parse h = (.error e, h.withConn conn)) ∨
    ∃ conn1, Connection.runCommand peer "IDLE".toList h.conn = (.ok (), conn1) ∧
      ((∃ e conn2, Connection.readline [] conn1 = (.error e, conn2) ∧
          init peer parse h = (.error e, h.withConn conn2)) ∨
        ∃ v conn2, Connection.readline [] conn1 = (.ok v, conn2) ∧
          (v.head? = some PLUS ∧
              init peer parse h = (.ok (), { h.withConn conn2 with done := false }) ∨
            v.head? ≠ some PLUS ∧ init peer parse h =
              (.error (unconfirmed (Connection.readResponseOnto parse v conn2).1),
                h.withConn (Connection.readResponseOnto parse v conn2).2))) := by
  unfold init
  cases hrun : Connection.runCommand peer "IDLE".toList h.conn with
  | mk r1 conn1 =>
  cases r1 with
  | error e =>
      refine .inl ⟨e, conn1, rfl, Exec.bind_error ?_⟩
      rw [onConn_apply, hrun]
  | ok u =>
  have step1 : onConn (Connection.runCommand peer "IDLE".toList) h =
      (.ok (), h.withConn conn1) := by
    rw [onConn_apply, hrun]
  refine .inr ⟨conn1, rfl, ?_⟩
  rw [Exec.bind_ok step1]
  cases hread : Connection.readline [] conn1 with
  | mk r2 conn2 =>
  have step2 : onConn (Connection.readline []) (h.withConn conn1) = (r2, h.withConn conn2) := by
    rw [onConn_apply, show (h.withConn conn1).conn = conn1 from rfl, hread]
    rfl
  cases r2 with
  | error e => exact .inl ⟨e, conn2, rfl, Exec.bind_error step2⟩
  | ok v =>
  refine .inr ⟨v, conn2, rfl, ?_⟩
  rw [Exec.bind_ok step2]
  by_cases hplus : v.head? = some PLUS
  · rw [if_pos hplus]
    exact .inl ⟨hplus, rfl⟩
  · rw [if_neg hplus]
    refine .inr ⟨hplus, ?_⟩
    cases honto : Connection.readResponseOnto parse v conn2 with
    | mk r3 conn3 =>
    have step3 : onConn (Connection.readResponseOnto parse v) (h.withConn conn2) =
        (r3, h.withConn conn3) := by
      rw [onConn_apply, show (h.withConn conn2).conn = conn2 from rfl, honto]
      rfl
    cases r3 with
    | error e => exact Exec.bind_error step3
    | ok r => rw [Exec.bind_ok step3]; rfl

/-- The ways a handle terminates its `IDLE`. -/
theorem terminate_cases (h : Handle σ) :
    (h.done = true ∧ terminate peer parse h = (.ok (), h)) ∨
    (h.done = false ∧
      ((∃ e conn, Connection.writeLine peer (utf8 "DONE".toList) h.conn = (.error e, conn) ∧
          terminate peer parse h = (.error e, { h.withConn conn with done := true })) ∨
        ∃ conn1, Connection.writeLine peer (utf8 "DONE".toList) h.conn = (.ok (), conn1) ∧
          terminate peer parse h = ((Connection.readResponse parse conn1).1.map fun _ => (),
            { h.withConn (Connection.readResponse parse conn1).2 with done := true }))) := by
  unfold terminate
  cases hdone : h.done with
  | true => exact .inl ⟨rfl, by simp [Exec.bind_apply, hdone]⟩
  | false =>
  refine .inr ⟨rfl, ?_⟩
  have get : Exec.of (fun h => ((.ok h : Except Fault (Handle σ)), h)) h = (.ok h, h) := rfl
  have set : setDone true h = (.ok (), { h with done := true }) := rfl
  rw [Exec.bind_ok get, hdone, if_pos (by rfl), Exec.bind_ok set]
  cases hwrite : Connection.writeLine peer (utf8 "DONE".toList) h.conn with
  | mk r1 conn1 =>
  have step1 : onConn (Connection.writeLine peer (utf8 "DONE".toList)) { h with done := true } =
      (r1, { h.withConn conn1 with done := true }) := by
    rw [onConn_apply, show conn { h with done := true } = h.conn from rfl, hwrite]
    rfl
  cases r1 with
  | error e => exact .inl ⟨e, conn1, rfl, Exec.bind_error step1⟩
  | ok u =>
  refine .inr ⟨conn1, rfl, ?_⟩
  rw [Exec.bind_ok step1]
  cases hread : Connection.readResponse parse conn1 with
  | mk r2 conn2 =>
  have step2 : onConn (Connection.readResponse parse) { h.withConn conn1 with done := true } =
      (r2, { h.withConn conn2 with done := true }) := by
    rw [onConn_apply, show conn { h.withConn conn1 with done := true } = conn1 from rfl, hread]
    rfl
  cases r2 with
  | error e => exact Exec.bind_error step2
  | ok r => rw [Exec.bind_ok step2]; rfl

/-- `Drop::drop`; what is left of the handle is the session. -/
def drop (h : Handle σ) : Session σ := (terminate peer parse h).2.session

end Handle

/-- A handle during one call of `wait_while`, with what its callback has been given. -/
structure Waiting (σ : Type) where
  handle : Handle σ
  heard : List UnsolicitedResponse

namespace Waiting

variable {σ α : Type} (peer : Peer σ) (parse : ParseResponse) (callback : Callback)

def onHandle (x : Exec (Handle σ) Fault α) : Exec (Waiting σ) Fault α :=
  Exec.on handle (fun handle w => { w with handle }) x

/-- The loop of `wait_inner`, with its vector. A release build goes on after a response
that has left a part of the vector over. -/
def idleLoop : Nat → Bytes → Exec (Waiting σ) Fault WaitOutcome
  | 0, _ => .fail .running
  | turns + 1, v => fun w =>
      match onHandle (Handle.onConn (Connection.readline v)) w with
      | (.error (.err (.io .timedOut)), w) => (.ok .timedOut, w)
      | (.error (.err (.io .wouldBlock)), w) => (.ok .timedOut, w)
      | (.error e, w) => (.error e, w)
      | (.ok v, w) =>
          if eqIgnoreAsciiCase v stillHere then idleLoop turns [] w
          else
            match parseIdle parse v with
            | (_, some (.error e)) => (.error (.err e), w)
            | (rest, some (.ok response)) =>
                let w := { w with heard := w.heard ++ [response] }
                if !callback w.heard then (.ok .mailboxChanged, w)
                else idleLoop turns (v.drop (v.length - rest.length)) w
            | (_, none) => idleLoop turns v w

/-- Every refresh of the `IDLE` takes one of the `turns`: a server that keeps confirming
it can keep the client waiting for ever. -/
def waitInner (reconnect : Bool) : Nat → Exec (Waiting σ) Fault WaitOutcome
  | 0 => .fail .running
  | turns + 1 => fun w =>
      match reconnect, idleLoop parse callback (w.handle.conn.stream.input.length + 1) [] w with
      | true, (.ok .timedOut, w) =>
          (do
            onHandle (Handle.terminate peer parse)
            onHandle (Handle.init peer parse)
            waitInner reconnect turns) w
      | _, result => result

def waitWhile (turns : Nat) : Exec (Waiting σ) Fault WaitOutcome := do
  onHandle (Handle.init peer parse)
  let w ← .of fun w => (.ok w, w)
  onHandle (Handle.setReadTimeout (some w.handle.timeout))
  .of fun w =>
    let (res, w) := waitInner peer parse callback w.handle.keepalive turns w
    (res, (onHandle (Handle.setReadTimeout none) w).2)

end Waiting

/-- `Handle::wait_while`, with what the callback has been given. -/
def Handle.waitWhile {σ : Type} (peer : Peer σ) (parse : ParseResponse) (callback : Callback)
    (turns : Nat) (h : Handle σ) : Except Fault WaitOutcome × Waiting σ :=
  Waiting.waitWhile peer parse callback turns ⟨h, []⟩

end RustImap
