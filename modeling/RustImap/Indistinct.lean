import RustImap.DebugRuns
import RustImap.Programs

/-!
The client on two connections it cannot tell apart.

Whatever the client does is made of a few steps: it reads a line, writes a line or a literal,
sets the timeout of the reads, and counts tags. If these steps treat two connections alike
then so does every operation, of the connection, of a handle that waits, of a handshake and of
a session.
-/

namespace RustImap

open Exec (Simulates Agree Program)

variable {σ α : Type}

namespace Connection

/-- The bytes of a literal and the line end after it. -/
def writeLiteral (peer : Peer σ) (content : Bytes) : Exec (Connection σ) Fault Unit := do
  io (BufStream.writeAll peer content)
  io (BufStream.writeAll peer [CR, LF])
  io (BufStream.flush peer)

/-- A line is a literal that is printed when `debug` is set. -/
theorem writeLine_eq (peer : Peer σ) {buf : Bytes} (hbuf : isUtf8 buf = true) :
    writeLine peer buf = writeLiteral peer buf := by
  have printed : (fun _ : Unit => Exec.of fun conn : Connection σ =>
      if conn.debug && !isUtf8 buf then (.error .panic, conn) else (.ok (), conn)) =
        (pure : Unit → Exec (Connection σ) Fault Unit) := by
    funext u conn
    simp only [Exec.of_apply, hbuf, Bool.not_true, Bool.and_false, Bool.false_eq_true, if_false]
    rfl
  rw [writeLine, printed, bind_pure]
  rfl

/-- Nothing the client does with its stream tells connections apart that `I` relates. -/
structure Indistinct (peer : Peer σ) (I : Connection σ → Connection σ → Prop) : Prop where
  tag : ∀ c d, I c d → c.tag = d.tag
  greetingRead : ∀ c d, I c d → c.greetingRead = d.greetingRead
  input : ∀ c d, I c d → c.stream.input.length = d.stream.input.length
  withTag : ∀ c d tag, I c d → I { c with tag } { d with tag }
  withDebug : ∀ c d debug, I c d → I { c with debug } { d with debug }
  withGreeting : ∀ c d greetingRead, I c d → I { c with greetingRead } { d with greetingRead }
  readline : ∀ into, Simulates I Eq (readline into) (readline into)
  writeLiteral : ∀ content,
    Simulates I Eq (writeLiteral peer content) (writeLiteral peer content)
  setReadTimeout : ∀ timeout, Simulates I Eq (io (BufStream.setReadTimeout timeout))
    (io (BufStream.setReadTimeout timeout))

namespace Indistinct

/-- A connection cannot be told from itself. -/
theorem refl (peer : Peer σ) : Indistinct peer Eq where
  tag _ _ h := congrArg Connection.tag h
  greetingRead _ _ h := congrArg Connection.greetingRead h
  input _ _ h := congrArg (fun c => c.stream.input.length) h
  withTag _ _ tag h := congrArg (fun c => { c with tag }) h
  withDebug _ _ debug h := congrArg (fun c => { c with debug }) h
  withGreeting _ _ greetingRead h := congrArg (fun c => { c with greetingRead }) h
  readline _ := .same _
  writeLiteral _ := .same _
  setReadTimeout _ := .same _

variable {peer : Peer σ} {I : Connection σ → Connection σ → Prop}

theorem writeLine (h : Indistinct peer I) {buf : Bytes} (hbuf : isUtf8 buf = true) :
    Simulates I Eq (writeLine peer buf) (Connection.writeLine peer buf) := by
  rw [writeLine_eq peer hbuf]
  exact h.writeLiteral buf

theorem createCommand (h : Indistinct peer I) (command : Str) :
    Simulates I Eq (createCommand (σ := σ) command) (Connection.createCommand command) := by
  intro c d hcd
  rw [createCommand_apply, createCommand_apply, h.tag c d hcd]
  exact ⟨.ok rfl, h.withTag c d _ hcd⟩

theorem takeBack (h : Indistinct peer I) (r : Except Fault Unit) :
    Simulates I Eq (takeBack (σ := σ) r) (Connection.takeBack r) := by
  intro c d hcd
  refine ⟨.refl r, ?_⟩
  cases r with
  | ok u => exact hcd
  | error e =>
      cases e with
      | err e =>
          have next := h.withTag c d (c.tag - 1) hcd
          simpa only [Connection.takeBack, h.tag c d hcd] using next
      | panic | running => exact hcd

theorem runCommand (h : Indistinct peer I) (text : Str) :
    Simulates I Eq (runCommand peer text) (Connection.runCommand peer text) := by
  rw [runCommand_eq]
  refine (h.createCommand text).bind fun command command' heq => ?_
  rw [heq]
  refine (h.writeLine (isUtf8_utf8 command')).next fun r r' hr => ?_
  rw [hr.eq]
  exact h.takeBack r'

theorem turnStart (h : Indistinct peer I) (data : Bytes) (from_ : Option Nat) (tryFirst : Bool) :
    Simulates I Eq (turnStart (σ := σ) data from_ tryFirst)
      (Connection.turnStart data from_ tryFirst) := by
  cases tryFirst with
  | true => exact .pure rfl
  | false =>
      have heq : Connection.turnStart (σ := σ) data from_ false =
          Connection.readline data >>= fun line => pure (line, from_.getD data.length) := by
        funext conn
        rw [Exec.bind_apply, Connection.turnStart, if_neg (by decide)]
        cases Connection.readline data conn with
        | mk r conn => cases r <;> rfl
      rw [heq]
      refine (h.readline data).bind fun line line' hline => ?_
      rw [hline]
      exact .pure rfl

variable (parse : ParseResponse)

theorem readResponseLoop (h : Indistinct peer I) (turns : Nat) (data : Bytes)
    (from_ : Option Nat) (tryFirst : Bool) :
    Simulates I Eq (readResponseLoop (σ := σ) parse turns data from_ tryFirst)
      (Connection.readResponseLoop parse turns data from_ tryFirst) := by
  induction turns generalizing data from_ tryFirst with
  | zero => exact .fail _
  | succ turns ih =>
      rw [readResponseLoop_eq]
      refine (h.turnStart data from_ tryFirst).bind fun start start' hstart => ?_
      rw [hstart]
      refine .dependent (F := fun conn => turnEnd parse turns start' conn.tag)
        (G := fun conn => turnEnd parse turns start' conn.tag) fun c d hcd => ?_
      rw [h.tag c d hcd]
      unfold turnEnd
      cases leave start'.1 start'.2 (breakWith d.tag (parse.run (start'.1.drop start'.2))) with
      | some result => exact .result result
      | none => exact ih _ _ _

theorem readResponseOnto (h : Indistinct peer I) (data : Bytes) :
    Simulates I Eq (readResponseOnto (σ := σ) parse data)
      (Connection.readResponseOnto parse data) := by
  intro c d hcd
  rw [Connection.readResponseOnto, Connection.readResponseOnto, h.input c d hcd]
  exact h.readResponseLoop parse _ data none (!data.isEmpty) c d hcd

theorem readResponse (h : Indistinct peer I) :
    Simulates I Eq (readResponse (σ := σ) parse) (Connection.readResponse parse) :=
  h.readResponseOnto parse []

theorem run (h : Indistinct peer I) (text : Str) :
    Simulates I Eq (run peer parse text) (Connection.run peer parse text) :=
  (h.runCommand text).bind fun _ _ _ => h.readResponse parse

theorem send (h : Indistinct peer I) (c : Command) :
    Simulates I Eq (send peer c) (Connection.send peer c) := by
  refine (Simulates.result (c.text.mapError Fault.err)).bind fun text text' heq => ?_
  rw [heq]
  cases text' with
  | none => exact .pure rfl
  | some text => exact (h.runCommand text).bind fun _ _ _ => .pure rfl

theorem command (h : Indistinct peer I) (c : Command) :
    Simulates I Eq (command peer parse c) (Connection.command peer parse c) := by
  refine (h.send c).bind fun sent sent' heq => ?_
  rw [heq]
  cases sent' with
  | true => exact h.readResponse parse
  | false => exact .pure rfl

theorem readGreeting (h : Indistinct peer I) :
    Simulates I Eq (readGreeting (σ := σ)) Connection.readGreeting := by
  have state : Simulates I I (Exec.of fun conn => ((.ok conn : Except Fault (Connection σ)), conn))
      (Exec.of fun conn => (.ok conn, conn)) := fun c d hcd => ⟨.ok hcd, hcd⟩
  refine state.bind fun c d hcd => ?_
  rw [h.greetingRead c d hcd]
  split
  · exact .fail _
  · refine (h.readline []).bind fun v v' hv => ?_
    rw [hv]
    exact .update (fun c d => h.withGreeting c d true) (.ok v')

theorem skipTag (h : Indistinct peer I) :
    Simulates I Eq (skipTag (σ := σ)) Connection.skipTag := by
  intro c d hcd
  refine ⟨.ok rfl, ?_⟩
  rw [Connection.skipTag, Connection.skipTag, h.tag c d hcd]
  exact h.withTag c d _ hcd

theorem capabilities (h : Indistinct peer I) :
    Simulates I Eq (Client.capabilities peer parse) (Client.capabilities peer parse) := by
  refine Simulates.bind (R := Eq) ?_ fun lines lines' heq => ?_
  · refine (h.run parse _).bind fun r r' heq => ?_
    rw [heq]
    exact .pure rfl
  · rw [heq]
    exact .result _

theorem converse (h : Indistinct peer I) (cmd : AppendCmd) :
    Simulates I Eq (cmd.converse peer parse) (cmd.converse peer parse) := by
  refine (h.send cmd.command).bind fun _ _ _ => (h.readline []).bind fun v v' heq => ?_
  rw [heq]
  split
  · exact .fail _
  · have literal := (h.writeLiteral cmd.content).bind fun _ _ _ => h.readResponse parse
    simpa only [Connection.writeLiteral, Exec.bind_assoc] using literal

end Indistinct

end Connection

namespace Handshake

/-- The same handshake on two connections. -/
def Related (I : Connection σ → Connection σ → Prop) (h h' : Handshake σ) : Prop :=
  I h.conn h'.conn ∧ h.challenges = h'.challenges

end Handshake

namespace Session

/-- The same session on two connections, with queues that `K` relates. -/
def Related (I : Connection σ → Connection σ → Prop) (K : Queue → Queue → Prop)
    (s t : Session σ) : Prop :=
  I s.conn t.conn ∧ K s.unsolicitedResponses t.unsolicitedResponses

variable {I : Connection σ → Connection σ → Prop} {K : Queue → Queue → Prop}

theorem onConn_related {x : Exec (Connection σ) Fault α} (h : Simulates I Eq x x) :
    Simulates (Related I K) Eq (onConn x) (onConn x) :=
  h.on (fun _ _ hst => hst.1) fun _ _ _ _ hst hconn => ⟨hconn, hst.2⟩

theorem onQueue_related {x : Collect α} (h : Simulates K Eq x x) :
    Simulates (Related I K) Eq (onQueue (σ := σ) x) (onQueue x) :=
  h.on (fun _ _ hst => hst.2) fun _ _ _ _ hst hqueue => ⟨hst.1, hqueue⟩

variable {peer : Peer σ} (h : Connection.Indistinct peer I) (parse : ParseResponse)
include h

theorem operation_related (c : Command) {finish : Bytes → Nat → Collect α}
    (hfinish : ∀ lines ok, Simulates K Eq (finish lines ok) (finish lines ok)) :
    Simulates (Related I K) Eq (operation peer parse c finish) (operation peer parse c finish) := by
  refine (onConn_related (h.command parse c)).bind fun r r' heq => ?_
  rw [heq]
  exact onQueue_related (hfinish r'.1 r'.2)

theorem finish_related (cmd : AppendCmd)
    (hfinish : ∀ lines, Simulates K Eq (parseAppend parse lines) (parseAppend parse lines)) :
    Simulates (Related I K) Eq (cmd.finish peer parse) (cmd.finish peer parse) := by
  refine (onConn_related (h.converse parse cmd)).bind fun r r' heq => ?_
  rw [heq]
  exact onQueue_related (hfinish r'.1)

theorem logout_related :
    Simulates (Related I K) Eq (logout peer parse) (logout peer parse) := by
  intro s t hst
  have quiet : ∀ (_ : Bytes) (_ : Nat), Simulates K Eq (pure () : Collect Unit) (pure ()) :=
    fun _ _ => .pure rfl
  obtain ⟨hagree, hstate⟩ := operation_related (K := K) h parse .logout quiet s t hst
  change Agree Eq (checkOk peer parse .logout s).1 (checkOk peer parse .logout t).1 at hagree
  change Related I K (checkOk peer parse .logout s).2 (checkOk peer parse .logout t).2 at hstate
  unfold logout
  generalize checkOk peer parse .logout s = out at hagree hstate ⊢
  generalize checkOk peer parse .logout t = out' at hagree hstate ⊢
  obtain ⟨r, s'⟩ := out
  obtain ⟨r', t'⟩ := out'
  obtain rfl : r = r' := hagree.eq
  cases r with
  | ok u => exact ⟨.refl _, hstate⟩
  | error e =>
      cases e with
      | err e => cases e <;> exact ⟨.refl _, hstate⟩
      | panic | running => exact ⟨.refl _, hstate⟩

end Session

namespace Handle

/-- The same handle on two connections. -/
structure Related (I : Connection σ → Connection σ → Prop) (K : Queue → Queue → Prop)
    (h h' : Handle σ) : Prop where
  session : Session.Related I K h.session h'.session
  timeout : h.timeout = h'.timeout
  keepalive : h.keepalive = h'.keepalive
  done : h.done = h'.done

variable {I : Connection σ → Connection σ → Prop} {K : Queue → Queue → Prop}

theorem onConn_related {x : Exec (Connection σ) Fault α} (h : Simulates I Eq x x) :
    Simulates (Related I K) Eq (onConn x) (onConn x) :=
  h.on (fun _ _ hst => hst.session.1) fun _ _ _ _ hst hconn =>
    ⟨⟨hconn, hst.session.2⟩, hst.timeout, hst.keepalive, hst.done⟩

theorem setDone_related (done : Bool) :
    Simulates (Related I K) Eq (setDone (σ := σ) done) (setDone done) :=
  .update (fun _ _ hst => ⟨hst.session, hst.timeout, hst.keepalive, rfl⟩) _

variable {peer : Peer σ} (same : Connection.Indistinct peer I) (parse : ParseResponse)
include same

theorem init_related : Simulates (Related I K) Eq (init peer parse) (init peer parse) := by
  refine (onConn_related (same.runCommand _)).bind fun _ _ _ => ?_
  refine (onConn_related (same.readline [])).bind fun v v' heq => ?_
  rw [heq]
  split
  · exact setDone_related false
  · exact (onConn_related (same.readResponseOnto parse v')).bind fun _ _ _ => .fail _

theorem terminate_related :
    Simulates (Related I K) Eq (terminate peer parse) (terminate peer parse) := by
  have state : Simulates (Related I K) (Related I K)
      (Exec.of fun h => ((.ok h : Except Fault (Handle σ)), h)) (Exec.of fun h => (.ok h, h)) :=
    fun _ _ hst => ⟨.ok hst, hst⟩
  refine state.bind fun h h' hst => ?_
  rw [hst.done]
  split
  · refine (setDone_related true).bind fun _ _ _ => ?_
    refine (onConn_related (same.writeLine (isUtf8_utf8 _))).bind fun _ _ _ => ?_
    exact (onConn_related (same.readResponse parse)).bind fun _ _ _ => .pure rfl
  · exact .pure rfl

theorem setReadTimeout_related (timeout : Option Nat) :
    Simulates (Related I K) Eq (setReadTimeout (σ := σ) timeout) (setReadTimeout timeout) :=
  onConn_related (same.setReadTimeout timeout)

end Handle

namespace Waiting

/-- The same wait on two connections. -/
def Related (I : Connection σ → Connection σ → Prop) (K : Queue → Queue → Prop)
    (w w' : Waiting σ) : Prop :=
  Handle.Related I K w.handle w'.handle ∧ w.heard = w'.heard

variable {I : Connection σ → Connection σ → Prop} {K : Queue → Queue → Prop}

theorem onHandle_related {x : Exec (Handle σ) Fault α} (h : Simulates (Handle.Related I K) Eq x x) :
    Simulates (Related I K) Eq (onHandle x) (onHandle x) :=
  h.on (fun _ _ hst => hst.1) fun _ _ _ _ hst hhandle => ⟨hhandle, hst.2⟩

variable {peer : Peer σ} (parse : ParseResponse) (callback : Callback)

theorem hear_related (response : UnsolicitedResponse) :
    Simulates (Related I K) Eq (hear (σ := σ) callback response) (hear callback response) := by
  intro w w' hst
  simp only [hear, hst.2]
  exact ⟨.refl _, hst.1, rfl⟩

theorem afterLine_related {again : Bytes → Exec (Waiting σ) Fault WaitOutcome}
    (h : ∀ v, Simulates (Related I K) Eq (again v) (again v)) (r : Except Fault Bytes) :
    Simulates (Related I K) Eq (afterLine parse callback again r)
      (afterLine parse callback again r) := by
  cases r with
  | error e =>
      cases e with
      | err e =>
          cases e with
          | io kind => cases kind <;> first | exact .pure rfl | exact .fail _
          | _ => exact .fail _
      | panic | running => exact .fail _
  | ok v =>
      simp only [afterLine]
      split
      · exact h []
      · cases parseIdle parse v with
        | mk rest result =>
            cases result with
            | none => exact h v
            | some result =>
                cases result with
                | error e => exact .fail _
                | ok response =>
                    refine (hear_related callback response).bind fun goOn goOn' heq => ?_
                    rw [heq]
                    split
                    · exact .pure rfl
                    · exact h _

variable (same : Connection.Indistinct peer I)
include same

theorem idleLoop_related (turns : Nat) (v : Bytes) :
    Simulates (Related I K) Eq (idleLoop (σ := σ) parse callback turns v)
      (idleLoop parse callback turns v) := by
  induction turns generalizing v with
  | zero => exact .fail _
  | succ turns ih =>
      rw [idleLoop_eq]
      refine (onHandle_related (Handle.onConn_related (same.readline v))).next fun r r' hr => ?_
      rw [hr.eq]
      exact afterLine_related parse callback ih r'

theorem waitInner_related (reconnect : Bool) (turns : Nat) :
    Simulates (Related I K) Eq (waitInner peer parse callback reconnect turns)
      (waitInner peer parse callback reconnect turns) := by
  induction turns with
  | zero => exact .fail _
  | succ turns ih =>
      rw [waitInner_eq]
      refine Simulates.next (R := Eq) (fun w w' hst => ?_) fun r r' hr => ?_
      · have short := same.input w.handle.conn w'.handle.conn hst.1.session.1
        simp only [Exec.of_apply, short]
        exact idleLoop_related parse callback same _ [] w w' hst
      · rw [hr.eq]
        cases reconnect with
        | false => exact .result r'
        | true =>
            cases r' with
            | error e => exact .result _
            | ok outcome =>
                cases outcome with
                | mailboxChanged => exact .result _
                | timedOut =>
                    refine (onHandle_related (Handle.terminate_related same parse)).bind
                      fun _ _ _ => ?_
                    exact (onHandle_related (Handle.init_related same parse)).bind fun _ _ _ => ih

theorem resetTimeout_related (res : Except Fault WaitOutcome) :
    Simulates (Related I K) Eq (resetTimeout (σ := σ) res) (resetTimeout res) := by
  intro w w' hst
  exact ⟨.refl res, (onHandle_related (Handle.setReadTimeout_related same none) w w' hst).2⟩

theorem waitWhile_related (turns : Nat) :
    Simulates (Related I K) Eq (waitWhile peer parse callback turns)
      (waitWhile peer parse callback turns) := by
  have state : Simulates (Related I K) (Related I K)
      (Exec.of fun w => ((.ok w : Except Fault (Waiting σ)), w)) (Exec.of fun w => (.ok w, w)) :=
    fun _ _ hst => ⟨.ok hst, hst⟩
  refine (onHandle_related (Handle.init_related same parse)).bind fun _ _ _ => ?_
  refine state.bind fun w w' hst => ?_
  rw [hst.1.timeout]
  refine (onHandle_related (Handle.setReadTimeout_related same _)).bind fun _ _ _ => ?_
  let rest : Waiting σ → Exec (Waiting σ) Fault WaitOutcome := fun w =>
    Exec.next (waitInner peer parse callback w.handle.keepalive turns) resetTimeout
  refine .dependent (F := rest) (G := rest) fun w w' hst => ?_
  change Simulates (Related I K) Eq
    (Exec.next (waitInner peer parse callback w.handle.keepalive turns) resetTimeout)
    (Exec.next (waitInner peer parse callback w'.handle.keepalive turns) resetTimeout)
  rw [hst.1.keepalive]
  refine (waitInner_related parse callback same w'.handle.keepalive turns).next fun r r' hr => ?_
  rw [hr.eq]
  exact resetTimeout_related same r'

end Waiting

/-- How a call ended and what its closures have seen is the same when the calls are. -/
theorem outcome_related {S β : Type} {I : S → S → Prop} (seen : S → β)
    (hseen : ∀ s t, I s t → seen s = seen t) {x : Exec S Fault α} (h : Simulates I Eq x x) :
    Simulates I Eq (outcome seen x) (outcome seen x) := by
  have noted : ∀ r : Except Error α, Simulates I Eq
      (Exec.of fun s => ((.ok (r, seen s) : Except Fault (Except Error α × β)), s))
      (Exec.of fun s => (.ok (r, seen s), s)) := by
    intro r s t hst
    rw [Exec.of_apply, Exec.of_apply, hseen s t hst]
    exact ⟨.refl _, hst⟩
  refine h.next fun r r' hr => ?_
  rw [hr.eq]
  cases r' with
  | ok a => exact noted (.ok a)
  | error e =>
      cases e with
      | err e => exact noted (.error e)
      | panic | running => exact .fail _

namespace Handle

variable {I : Connection σ → Connection σ → Prop} {K : Queue → Queue → Prop} {peer : Peer σ}
variable (same : Connection.Indistinct peer I) (parse : ParseResponse)
include same

theorem waiting_related (callback : Callback) (turns : Nat) :
    Simulates (Related I K) Eq (waiting peer parse callback turns)
      (waiting peer parse callback turns) := by
  have heard := outcome_related (I := Waiting.Related I K) Waiting.heard (fun _ _ hst => hst.2)
    (Waiting.waitWhile_related parse callback same turns)
  exact heard.on (fun _ _ hst => ⟨hst, rfl⟩) fun _ _ _ _ _ hw => hw.1

theorem Call.related {x : Exec (Handle σ) Fault α} (h : Call peer parse x) :
    Simulates (Related I K) Eq x x := by
  cases h with
  | timeout timeout =>
      exact .update (fun _ _ hst => ⟨hst.session, rfl, hst.keepalive, hst.done⟩) (.ok ())
  | keepalive keepalive =>
      exact .update (fun _ _ hst => ⟨hst.session, hst.timeout, rfl, hst.done⟩) (.ok ())
  | wait callback turns => exact waiting_related same parse callback turns

theorem dropped_related (r : Except Fault α) :
    Simulates (Related I K) Eq (dropped peer parse r) (dropped peer parse r) := by
  unfold dropped
  split
  · exact .fail _
  · refine (terminate_related same parse).next fun ended ended' heq => ?_
    rw [heq.eq]
    cases ended' with
    | ok u => exact .result r
    | error e => cases e <;> first | exact .fail _ | exact .result r

end Handle

namespace Handshake

variable {I : Connection σ → Connection σ → Prop}

theorem onConn_related {x : Exec (Connection σ) Fault α} (h : Simulates I Eq x x) :
    Simulates (Related I) Eq (onConn x) (onConn x) :=
  h.on (fun _ _ hst => hst.1) fun _ _ _ _ hst hconn => ⟨hconn, hst.2⟩

theorem process_related (authenticator : Authenticator) (challenge : Bytes) :
    Simulates (Related I) Eq (process (σ := σ) authenticator challenge)
      (process authenticator challenge) := by
  intro h h' hst
  simp only [process, hst.2]
  exact ⟨.refl _, hst.1, rfl⟩

variable {peer : Peer σ} (same : Connection.Indistinct peer I) (parse : ParseResponse)
variable (base64 : Base64) (authenticator : Authenticator)
include same

theorem doAuthHandshake_related (turns : Nat) :
    Simulates (Related I) (Session.Related I Eq)
      (doAuthHandshake peer parse base64 authenticator turns)
      (doAuthHandshake peer parse base64 authenticator turns) := by
  induction turns with
  | zero => exact .fail _
  | succ turns ih =>
      refine (onConn_related (same.readline [])).bind fun line line' heq => ?_
      rw [heq]
      split
      · exact ih
      split
      · refine (Simulates.result _).bind fun challenge challenge' heq => ?_
        rw [heq]
        refine (process_related authenticator challenge').bind fun raw raw' heq => ?_
        rw [heq]
        exact (onConn_related (same.writeLine (isUtf8_utf8 _))).bind fun _ _ _ => ih
      · refine (onConn_related (same.readResponseOnto parse line')).bind fun _ _ _ => ?_
        exact fun h h' hst => ⟨.ok ⟨hst.1, rfl⟩, hst⟩

theorem authenticate_related (authType : Str) (turns : Nat) :
    Simulates (Related I) (Session.Related I Eq)
      (authenticate peer parse base64 authenticator authType turns)
      (authenticate peer parse base64 authenticator authType turns) :=
  (onConn_related (same.send _)).bind fun _ _ _ =>
    doAuthHandshake_related same parse base64 authenticator turns

end Handshake

namespace Session

variable {I : Connection σ → Connection σ → Prop} {K : Queue → Queue → Prop}

theorem entering_related {τ β : Type} {I' : τ → τ → Prop} {start : Connection σ → τ}
    {conn : τ → Connection σ} {seen : τ → β} {x : Exec τ Fault (Session σ)}
    (hstart : ∀ c d, I c d → I' (start c) (start d))
    (hconn : ∀ t t', I' t t' → I (conn t) (conn t'))
    (hseen : ∀ t t', I' t t' → seen t = seen t') (h : Simulates I' (Related I Eq) x x) :
    Simulates (Related I Eq) Eq (entering start conn seen x) (entering start conn seen x) := by
  intro s s' hst
  obtain ⟨hagree, hstate⟩ := h _ _ (hstart _ _ hst.1)
  unfold entering
  generalize x (start s.conn) = out at hagree hstate ⊢
  generalize x (start s'.conn) = out' at hagree hstate ⊢
  obtain ⟨r, t⟩ := out
  obtain ⟨r', t'⟩ := out'
  cases hagree with
  | ok hsession =>
      refine ⟨.ok ?_, hsession⟩
      rw [hseen t t' hstate]
  | error e =>
      cases e with
      | err e =>
          refine ⟨.ok ?_, hconn t t' hstate, hst.2⟩
          rw [hseen t t' hstate]
      | panic | running => exact ⟨.error _, hconn t t' hstate, hst.2⟩

/-- What a client can do that keeps its stream: everything but `into_inner`. Two fields of the
connection are public. -/
inductive Keeping (peer : Peer σ) (parse : ParseResponse) (base64 : Base64) :
    {α : Type} → Exec (Session σ) Fault α → Prop
  | debug (debug : Bool) :
      Keeping peer parse base64 (onConn fun conn => (.ok (), { conn with debug }))
  | greetingRead (greetingRead : Bool) :
      Keeping peer parse base64 (onConn fun conn => (.ok (), { conn with greetingRead }))
  | readGreeting : Keeping peer parse base64 (onConn Connection.readGreeting)
  | clientCapabilities : Keeping peer parse base64 (onConn (Client.capabilities peer parse))
  | login (username password : Str) : Keeping peer parse base64
      (entering id id (fun _ => ()) (Client.login peer parse username password))
  | authenticate (authType : Str) (authenticator : Authenticator) (turns : Nat) :
      Keeping peer parse base64
        (entering (fun conn => ⟨conn, []⟩) Handshake.conn Handshake.challenges
          (Handshake.authenticate peer parse base64 authenticator authType turns))
  | operation {α : Type} (c : Command) (finish : Bytes → Nat → Collect α) :
      Keeping peer parse base64 (operation peer parse c finish)
  | logout : Keeping peer parse base64 (logout peer parse)
  | append (cmd : AppendCmd) : Keeping peer parse base64 (cmd.finish peer parse)
  | idle {α : Type} {use : Exec (Handle σ) Fault α} :
      Program (Handle.Call peer parse) caught use →
      Keeping peer parse base64 (idling peer parse use)
  | runCommand (text : Str) :
      Keeping peer parse base64 (onConn (Connection.runCommand peer text))
  | run (text : Str) : Keeping peer parse base64 (onConn (Connection.run peer parse text))
  | skipTag : Keeping peer parse base64 (onConn Connection.skipTag)
  | takeAllUnsolicited : Keeping peer parse base64 (onQueue fun queue => (.ok queue, []))

variable {peer : Peer σ} {parse : ParseResponse} {base64 : Base64}

theorem idling_related (same : Connection.Indistinct peer I) {use : Exec (Handle σ) Fault α}
    (h : Program (Handle.Call peer parse) caught use) :
    Simulates (Related I K) Eq (idling peer parse use) (idling peer parse use) := by
  have called : Simulates (Handle.Related I K) Eq use use :=
    h.simulates fun hcall => hcall.related same parse
  have ended : Simulates (Handle.Related I K) Eq (Exec.next use (Handle.dropped peer parse))
      (Exec.next use (Handle.dropped peer parse)) := by
    refine called.next fun r r' hr => ?_
    rw [hr.eq]
    exact Handle.dropped_related same parse r'
  exact ended.on (fun _ _ hst => ⟨hst, rfl, rfl, rfl⟩) fun _ _ _ _ _ hhandle => hhandle.session

theorem Keeping.related (same : Connection.Indistinct peer I) {x : Exec (Session σ) Fault α}
    (h : Keeping peer parse base64 x) : Simulates (Related I Eq) Eq x x := by
  cases h with
  | debug debug => exact onConn_related (.update (fun c d => same.withDebug c d debug) _)
  | greetingRead greetingRead =>
      exact onConn_related (.update (fun c d => same.withGreeting c d greetingRead) _)
  | readGreeting => exact onConn_related same.readGreeting
  | clientCapabilities => exact onConn_related (same.capabilities parse)
  | login username password =>
      refine entering_related (fun _ _ hcd => hcd) (fun _ _ hcd => hcd) (fun _ _ _ => rfl) ?_
      refine (same.command parse _).bind fun _ _ _ => ?_
      exact fun c d hcd => ⟨.ok ⟨hcd, rfl⟩, hcd⟩
  | authenticate authType authenticator turns =>
      exact entering_related (fun _ _ hcd => ⟨hcd, rfl⟩) (fun _ _ hst => hst.1)
        (fun _ _ hst => hst.2)
        (Handshake.authenticate_related same parse base64 authenticator authType turns)
  | operation c finish => exact operation_related same parse c fun lines ok => .same _
  | logout => exact logout_related same parse
  | append cmd => exact finish_related same parse cmd fun lines => .same _
  | idle huse => exact idling_related same huse
  | runCommand text => exact onConn_related (same.runCommand text)
  | run text => exact onConn_related (same.run parse text)
  | skipTag => exact onConn_related same.skipTag
  | takeAllUnsolicited => exact onQueue_related (.same _)

/-- A program over a client that keeps its stream. -/
abbrev Conversation (peer : Peer σ) (parse : ParseResponse) (base64 : Base64) {α : Type}
    (x : Exec (Session σ) Fault α) : Prop :=
  Program (Keeping peer parse base64) caught x

theorem Conversation.related (same : Connection.Indistinct peer I) {x : Exec (Session σ) Fault α}
    (h : Conversation peer parse base64 x) : Simulates (Related I Eq) Eq x x :=
  h.simulates fun hop => hop.related same

end Session

end RustImap
