import RustImap.DebugMode
import RustImap.Idle

/-!
`IDLE` with `debug` set.

The loops of a wait are written here as sequences of calls, so that the rules for sequences
apply to them.
-/

namespace RustImap

open Exec (Shadows Watch)

namespace Handle

variable {σ α : Type}

def withDebug (debug : Bool) (h : Handle σ) : Handle σ :=
  { h with session := h.session.withDebug debug }

def debugging : Watch (Handle σ) (Handle σ) Wire Fault where
  view := withDebug true
  plain h := h.conn.debug = false
  trace h := h.conn.stream.inner.wire
  bad w := w.isLone = true
  stop := .panic

theorem onConn_debugging {x : Exec (Connection σ) Fault α}
    (h : Shadows Connection.debugging id x x) : Shadows debugging id (onConn x) (onConn x) :=
  h.on ⟨fun _ h => h, fun _ _ h => h, fun _ => rfl, fun _ _ => rfl, fun _ => rfl, fun _ _ => rfl,
    rfl, rfl⟩

theorem setDone_debugging (done : Bool) :
    Shadows debugging id (setDone (σ := σ) done) (setDone done) :=
  .quiet fun _ hh => ⟨hh, rfl, rfl⟩

theorem setReadTimeout_debugging (timeout : Option Nat) :
    Shadows debugging id (setReadTimeout (σ := σ) timeout) (setReadTimeout timeout) :=
  onConn_debugging <| Connection.io_debugging fun s =>
    ⟨[], by rw [BufStream.setReadTimeout_wire, List.map_nil, List.append_nil]⟩

variable (peer : Peer σ) (parse : ParseResponse)

theorem init_debugging : Shadows debugging id (init peer parse) (init peer parse) := by
  refine (onConn_debugging (Connection.runCommand_debugging peer _)).bind fun _ => ?_
  refine (onConn_debugging (Connection.readline_debugging [])).bind fun v => ?_
  rw [id]
  split
  · exact setDone_debugging false
  · refine (onConn_debugging (Connection.readResponseOnto_debugging parse v)).bind fun _ => ?_
    exact .fail _

theorem terminate_debugging :
    Shadows debugging id (terminate peer parse) (terminate peer parse) := by
  refine Shadows.read.bind fun h => ?_
  have hdone : (debugging.view h).done = h.done := rfl
  rw [hdone]
  split
  · refine (setDone_debugging true).bind fun _ => ?_
    refine (onConn_debugging (Connection.writeLine_debugging peer (isUtf8_utf8 _))).bind fun _ => ?_
    exact (onConn_debugging (Connection.readResponse_debugging parse)).bind fun _ => .pure ()
  · exact .pure ()

end Handle

namespace Waiting

variable {σ α : Type}

def withDebug (debug : Bool) (w : Waiting σ) : Waiting σ :=
  { w with handle := w.handle.withDebug debug }

def debugging : Watch (Waiting σ) (Waiting σ) Wire Fault where
  view := withDebug true
  plain w := w.handle.conn.debug = false
  trace w := w.handle.conn.stream.inner.wire
  bad w := w.isLone = true
  stop := .panic

theorem onHandle_debugging {x : Exec (Handle σ) Fault α}
    (h : Shadows Handle.debugging id x x) : Shadows debugging id (onHandle x) (onHandle x) :=
  h.on ⟨fun _ h => h, fun _ _ h => h, fun _ => rfl, fun _ _ => rfl, fun _ => rfl, fun _ _ => rfl,
    rfl, rfl⟩

variable (peer : Peer σ) (parse : ParseResponse) (callback : Callback)

/-- A response is given to the callback. -/
def hear (response : UnsolicitedResponse) : Exec (Waiting σ) Fault Bool := fun w =>
  (.ok (callback (w.heard ++ [response])), { w with heard := w.heard ++ [response] })

/-- A turn of the loop of `wait_inner` once the line has been read. -/
def afterLine (again : Bytes → Exec (Waiting σ) Fault WaitOutcome) :
    Except Fault Bytes → Exec (Waiting σ) Fault WaitOutcome
  | .error (.err (.io .timedOut)) => pure .timedOut
  | .error (.err (.io .wouldBlock)) => pure .timedOut
  | .error e => .fail e
  | .ok v =>
      if eqIgnoreAsciiCase v stillHere then again []
      else
        match parseIdle parse v with
        | (_, some (.error e)) => .fail (.err e)
        | (rest, some (.ok response)) => do
            if !(← hear callback response) then pure .mailboxChanged
            else again (v.drop (v.length - rest.length))
        | (_, none) => again v

theorem idleLoop_eq (turns : Nat) (v : Bytes) :
    idleLoop (σ := σ) parse callback (turns + 1) v =
      Exec.next (onHandle (Handle.onConn (Connection.readline v)))
        (afterLine parse callback (idleLoop parse callback turns)) := by
  funext w
  rw [idleLoop, Exec.next]
  beta_reduce
  cases onHandle (Handle.onConn (Connection.readline v)) w with
  | mk r w =>
      cases r with
      | error e =>
          cases e with
          | err e =>
              cases e with
              | io kind => cases kind <;> rfl
              | _ => rfl
          | panic | running => rfl
      | ok v =>
          simp only [afterLine]
          split
          · rfl
          · cases parseIdle parse v with
            | mk rest result =>
                cases result with
                | none => rfl
                | some result =>
                    cases result with
                    | error e => rfl
                    | ok response =>
                        simp only [hear, Exec.bind_apply]
                        split <;> rfl

theorem hear_debugging (response : UnsolicitedResponse) :
    Shadows debugging id (hear (σ := σ) callback response) (hear callback response) :=
  .quiet fun _ hw => ⟨hw, rfl, rfl⟩

theorem afterLine_debugging {again : Bytes → Exec (Waiting σ) Fault WaitOutcome}
    (h : ∀ v, Shadows debugging id (again v) (again v)) (r : Except Fault Bytes) :
    Shadows debugging id (afterLine parse callback again r) (afterLine parse callback again r) := by
  cases r with
  | error e =>
      cases e with
      | err e =>
          cases e with
          | io kind => cases kind <;> first | exact .pure _ | exact .fail _
          | _ => exact .fail _
      | panic | running => exact .fail _
  | ok v =>
      simp only [afterLine]
      split
      · exact h []
      · cases parseIdle parse v with
        | mk rest result =>
            cases result with
            | none => exact h v
            | some result =>
                cases result with
                | error e => exact .fail _
                | ok response =>
                    refine (hear_debugging callback response).bind fun goOn => ?_
                    rw [id]
                    split
                    · exact .pure _
                    · exact h _

theorem idleLoop_debugging (turns : Nat) (v : Bytes) :
    Shadows debugging id (idleLoop (σ := σ) parse callback turns v)
      (idleLoop parse callback turns v) := by
  induction turns generalizing v with
  | zero => exact .fail _
  | succ turns ih =>
      rw [idleLoop_eq]
      refine (onHandle_debugging (Handle.onConn_debugging
        (Connection.readline_debugging v))).next (fun r => ?_) fun _ => rfl
      rw [Except.map_id]
      exact afterLine_debugging parse callback ih r

theorem waitInner_eq (reconnect : Bool) (turns : Nat) :
    waitInner peer parse callback reconnect (turns + 1) =
      Exec.next (.of fun w => idleLoop parse callback (w.handle.conn.stream.input.length + 1) [] w)
        fun r =>
          match reconnect, r with
          | true, .ok .timedOut => do
              onHandle (Handle.terminate peer parse)
              onHandle (Handle.init peer parse)
              waitInner peer parse callback reconnect turns
          | _, r => .lift r := by
  funext w
  rw [waitInner, Exec.next, Exec.of_apply]
  beta_reduce
  cases idleLoop parse callback (w.handle.conn.stream.input.length + 1) [] w with
  | mk r w =>
      cases reconnect with
      | false => rfl
      | true =>
          cases r with
          | error e => rfl
          | ok outcome => cases outcome <;> rfl

theorem waitInner_debugging (reconnect : Bool) (turns : Nat) :
    Shadows debugging id (waitInner peer parse callback reconnect turns)
      (waitInner peer parse callback reconnect turns) := by
  induction turns with
  | zero => exact .fail _
  | succ turns ih =>
      rw [waitInner_eq]
      refine Shadows.next (f := id) (fun w hw => idleLoop_debugging parse callback _ [] w hw)
        (fun r => ?_) fun _ => ?_
      · rw [Except.map_id]
        cases reconnect with
        | false => exact .result r
        | true =>
            cases r with
            | error e => exact .result _
            | ok outcome =>
                cases outcome with
                | mailboxChanged => exact .result _
                | timedOut =>
                    refine (onHandle_debugging (Handle.terminate_debugging peer parse)).bind
                      fun _ => ?_
                    exact (onHandle_debugging (Handle.init_debugging peer parse)).bind fun _ => ih
      · cases reconnect <;> rfl

/-- The end of `wait_while`. -/
def resetTimeout (res : Except Fault WaitOutcome) : Exec (Waiting σ) Fault WaitOutcome :=
  .of fun w => (res, (onHandle (Handle.setReadTimeout none) w).2)

theorem resetTimeout_debugging (res : Except Fault WaitOutcome) :
    Shadows debugging id (resetTimeout (σ := σ) res) (resetTimeout res) := by
  refine .quiet fun w hw => ⟨hw, BufStream.setReadTimeout_wire none w.handle.conn.stream, ?_⟩
  rw [Except.map_id]
  rfl

theorem waitWhile_debugging (turns : Nat) :
    Shadows debugging id (waitWhile peer parse callback turns)
      (waitWhile peer parse callback turns) := by
  refine (onHandle_debugging (Handle.init_debugging peer parse)).bind fun _ => ?_
  refine Shadows.read.bind fun w => ?_
  refine (onHandle_debugging (Handle.setReadTimeout_debugging _)).bind fun _ => ?_
  let rest : Waiting σ → Exec (Waiting σ) Fault WaitOutcome := fun w =>
    Exec.next (waitInner peer parse callback w.handle.keepalive turns) resetTimeout
  refine .dependent (F := rest) (G := rest) fun w => ?_
  refine (waitInner_debugging peer parse callback w.handle.keepalive turns).next (fun r => ?_)
    fun _ => rfl
  rw [Except.map_id]
  exact resetTimeout_debugging r

end Waiting

end RustImap
