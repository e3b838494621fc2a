import RustImap.Lateness

/-!
A session as a remote object.

If a server answers each command once, with the tag of the command, then nothing of the protocol
is left to see: an operation is a call that changes the state of the server and comes to what its
outcome says. There are no tags, no lines and nothing that is still to be read.
-/

namespace RustImap

open Exec (Simulates Paired Program relabel)

variable {σ τ : Type}

/-- What a server has to say to a command. -/
structure Outcome where
  untagged : List Response
  status : Status
  code : Option ResponseCode
  information : Option Str

/-- A server that looks at the text of a command only. -/
abbrev Service (τ : Type) := τ → Str → τ × Outcome

namespace Outcome

def messages (tag : UInt32) (outcome : Outcome) : List Message :=
  outcome.untagged.map .response ++
    [.response (.done (matchTag tag) outcome.status outcome.code outcome.information)]

def verdict (outcome : Outcome) : Except Error Unit :=
  match outcome.status with
  | .ok => .ok ()
  | .no => .error (.no (outcome.information.getD noExplanation) outcome.code)
  | .bad => .error (.bad (outcome.information.getD noExplanation) outcome.code)
  | .bye => .error (.bye (outcome.information.getD noExplanation) outcome.code)
  | .preAuth => .error (.parse (.invalid []))

/-- No tagged response stands among the others. -/
def Untagged (outcome : Outcome) : Prop := ∀ r ∈ outcome.untagged, r.isDone = false

theorem answerOf_messages (tag : UInt32) {outcome : Outcome} (h : outcome.Untagged) :
    answerOf (outcome.messages tag) =
      (outcome.untagged,
        .done (matchTag tag) outcome.status outcome.code outcome.information, []) := by
  obtain ⟨rs, status, code, information⟩ := outcome
  unfold messages
  induction rs with
  | nil => rfl
  | cons r rs ih =>
      obtain ⟨hr, hrs⟩ := List.forall_mem_cons.mp h
      have later := ih hrs
      rw [List.map_cons, List.cons_append]
      cases r with
      | done => cases hr
      | _ => exact congrArg (fun p => (_ :: p.1, p.2)) later

theorem verdict_messages (tag : UInt32) (outcome : Outcome) :
    (Ending.done (matchTag tag) outcome.status outcome.code outcome.information).verdict tag =
      outcome.verdict.map fun _ =>
        .done (matchTag tag) outcome.status outcome.code outcome.information := by
  unfold Ending.verdict verdict
  cases hstatus : outcome.status <;> simp [Except.map]

end Outcome

/-- The server as it is seen through the protocol. -/
def Service.server (service : Service τ) : Server τ := fun t tag text =>
  ((service t text).1, (service t text).2.messages tag)

/-- A server, and what it has said unasked. -/
structure Remote (τ : Type) where
  server : τ
  unsolicitedResponses : Queue

namespace Remote

variable {α : Type}

def onQueue (x : Collect α) : Exec (Remote τ) Fault α :=
  Exec.on unsolicitedResponses (fun unsolicitedResponses o => { o with unsolicitedResponses }) x

def ask (service : Service τ) (text : Str) : Exec (Remote τ) Fault Outcome := fun o =>
  (.ok (service o.server text).2, { o with server := (service o.server text).1 })

def call (service : Service τ) (c : Command) : Exec (Remote τ) Fault Value := do
  match ← Exec.lift (c.text.mapError Fault.err) with
  | none => onQueue (c.conclude [] none)
  | some text => do
      let outcome ← ask service text
      Exec.lift (outcome.verdict.mapError Fault.err)
      onQueue (c.conclude outcome.untagged
        (some (.done [] outcome.status outcome.code outcome.information)))

def execute (service : Service τ) (c : Command) : Exec (Remote τ) Fault Value :=
  if c = .logout then Exec.next (relabel Fault.blank (call service c)) (takeBye .unit)
  else relabel Fault.blank (call service c)

def takeAllUnsolicited : Exec (Remote τ) Fault Queue := onQueue fun queue => (.ok queue, [])

theorem call_asked {service : Service τ} {c : Command} {text : Str}
    (htext : c.text = .ok (some text)) (o : Remote τ) :
    call service c o =
      (Exec.lift ((service o.server text).2.verdict.mapError Fault.err) >>= fun _ =>
        onQueue (c.conclude (service o.server text).2.untagged
          (some (.done [] (service o.server text).2.status (service o.server text).2.code
            (service o.server text).2.information))))
        { o with server := (service o.server text).1 } := by
  rw [call, htext]
  rfl

end Remote

/-- No result depends on the tag that was used. -/
theorem Command.conclude_tag (c : Command) (rs : List Response) (tag tag' : Str)
    (status : Status) (code : Option ResponseCode) (information : Option Str) :
    c.conclude rs (some (.done tag status code information)) =
      c.conclude rs (some (.done tag' status code information)) := by
  have loop {A : Type} (body : A → Response → Bytes → Collect A) (a : A)
      (hbody : ∀ a, body a (.done tag status code information) [] =
        body a (.done tag' status code information) []) :
      eachResponse body a (rs ++ [.done tag status code information]) =
        eachResponse body a (rs ++ [.done tag' status code information]) := by
    simp only [eachResponse, List.foldlM_append, List.foldlM_cons, List.foldlM_nil, hbody]
  cases c with
  | select | examine =>
      exact congrArg (Value.mailbox <$> ·) (loop mailboxStep .empty fun _ => rfl)
  | expunge | uidExpunge =>
      exact congrArg (_ <$> ·) (loop expungeStep ⟨[], [], none⟩ fun _ => rfl)
  | append => exact congrArg (Value.appended <$> ·) (loop appendStep ⟨none, none⟩ fun _ => rfl)
  | _ => rfl

/-- The dialogue is between two commands. -/
structure Dialogue.Rests (d : Dialogue τ) (o : Remote τ) : Prop where
  server : d.server = o.server
  inbox : d.inbox = []
  queue : d.unsolicitedResponses = o.unsolicitedResponses

/-- Listening after a command takes in the whole answer. -/
theorem Dialogue.listen_messages {outcome : Outcome} (h : outcome.Untagged) (server : τ)
    (tag : UInt32) (queue : Queue) :
    listen ⟨server, outcome.messages tag, tag, queue⟩ =
      ((outcome.verdict.map fun _ => (outcome.untagged,
          Response.done (matchTag tag) outcome.status outcome.code outcome.information)).mapError
        Fault.err, ⟨server, [], tag, queue⟩) := by
  simp only [listen, Outcome.answerOf_messages tag h, Outcome.verdict_messages]
  cases outcome.verdict <;> rfl

variable {service : Service τ}

theorem Dialogue.command_simulates (hservice : ∀ t text, (service t text).2.Untagged)
    (c : Command) :
    Simulates Rests Eq (Dialogue.command service.server c) (Remote.call service c) := by
  intro d o h
  obtain ⟨server, inbox, tag, queue⟩ := d
  obtain ⟨rfl, rfl, rfl⟩ := h
  cases htext : c.text with
  | error e =>
      rw [Dialogue.command, Remote.call, htext]
      exact ⟨.refl _, rfl, rfl, rfl⟩
  | ok sent =>
      cases sent with
      | none =>
          rw [Dialogue.command, Remote.call, htext]
          exact ⟨.refl _, rfl, rfl, rfl⟩
      | some text =>
          rw [Dialogue.command_said htext, Remote.call_asked htext]
          have said : (say service.server text
              ⟨o.server, [], tag, o.unsolicitedResponses⟩).2 =
              ⟨(service o.server text).1, (service o.server text).2.messages (tag + 1), tag + 1,
                o.unsolicitedResponses⟩ := rfl
          have heard := listen_messages (hservice o.server text) (service o.server text).1
            (tag + 1) o.unsolicitedResponses
          rw [said]
          cases hv : (service o.server text).2.verdict with
          | error e =>
              rw [hv] at heard
              rw [Exec.bind_error heard]
              exact ⟨.refl _, rfl, rfl, rfl⟩
          | ok u =>
              rw [hv] at heard
              rw [Exec.bind_ok heard]
              have same := c.conclude_tag (service o.server text).2.untagged (matchTag (tag + 1)) []
                (service o.server text).2.status (service o.server text).2.code
                (service o.server text).2.information
              dsimp only
              rw [same]
              exact ⟨.refl _, rfl, rfl, rfl⟩

theorem Dialogue.execute_simulates (hservice : ∀ t text, (service t text).2.Untagged)
    (c : Command) :
    Simulates Rests Eq (relabel Fault.blank (Dialogue.execute service.server c))
      (Remote.execute service c) := by
  have core : Simulates Rests Eq (relabel Fault.blank (Dialogue.command service.server c))
      (relabel Fault.blank (Remote.call service c)) :=
    (command_simulates hservice c).relabel Fault.blank
  unfold Dialogue.execute Remote.execute
  split
  · rename_i hlogout
    subst hlogout
    rw [Dialogue.logout_eq]
    refine core.next fun r r' hr => ?_
    rw [hr.eq]
    exact takeBye_simulates _ r'
  · exact core

namespace Session

variable {peer : Peer σ} {parse : ParseResponse} {understands : Str → Prop}
variable {B : σ → σ → Prop} {C : σ → τ → Prop} {s : Session σ} {o : Remote τ}

/-- The calls on a session, and what they are as calls on the remote object. -/
inductive Calls (peer : Peer σ) (parse : ParseResponse) (service : Service τ)
    (understands : Str → Prop) : {α : Type} → Exec (Session σ) Fault α →
    Exec (Remote τ) Fault α → Prop
  | execute {c : Command} {op : Exec (Session σ) Fault Value} :
      execute peer parse c = some op → (∀ text, c.text = .ok (some text) → understands text) →
      Calls peer parse service understands (relabel Fault.blank op) (Remote.execute service c)
  | skipTag : Calls peer parse service understands (onConn Connection.skipTag) (pure ())
  | takeAllUnsolicited :
      Calls peer parse service understands takeAllUnsolicited Remote.takeAllUnsolicited

/-- The session mirrors the object, and nothing is left to be read. -/
def Mirrors (parse : ParseResponse) (C : σ → τ → Prop) (s : Session σ) (o : Remote τ) : Prop :=
  s.Carries parse C ⟨o.server, [], s.conn.tag, o.unsolicitedResponses⟩

theorem Mirrors.of_rests {d : Dialogue τ} (h : s.Carries parse C d) (hd : d.Rests o) :
    s.Mirrors parse C o := by
  obtain ⟨server, inbox, tag, queue⟩ := d
  obtain ⟨rfl, rfl, rfl⟩ := hd
  have same : s.conn.tag = tag := h.tag
  rw [Mirrors, same]
  exact h

theorem Calls.simulates (hp : parse.Framed LF)
    (hservice : ∀ t text, (service t text).2.Untagged)
    (hpeer : peer.Speaks parse service.server understands B C) {α : Type}
    {x : Exec (Session σ) Fault α} {z : Exec (Remote τ) Fault α}
    (h : Calls peer parse service understands x z) : Simulates (Mirrors parse C) Eq x z := by
  intro s o hs
  have rests : Dialogue.Rests ⟨o.server, [], s.conn.tag, o.unsolicitedResponses⟩ o :=
    ⟨rfl, rfl, rfl⟩
  cases h with
  | @execute c op hop hc =>
      -- from the session to its dialogue, and from there to the object
      obtain ⟨hagree, hstate⟩ := (Conducts.execute hop hc).simulates hp hpeer s _ hs
      obtain ⟨hagree', hstate'⟩ := Dialogue.execute_simulates hservice c _ o rests
      refine ⟨?_, .of_rests hstate hstate'⟩
      rw [hagree.eq, hagree'.eq]
      exact .refl _
  | skipTag =>
      obtain ⟨-, hstate⟩ := Conducts.skipTag.simulates hp hpeer s _ hs
      exact ⟨.refl _, .of_rests hstate ⟨rfl, rfl, rfl⟩⟩
  | takeAllUnsolicited =>
      obtain ⟨hagree, hstate⟩ := Conducts.takeAllUnsolicited.simulates hp hpeer s _ hs
      exact ⟨hagree, .of_rests hstate ⟨rfl, rfl, rfl⟩⟩

/-- A session with a server that answers each command once is that server, called directly. -/
theorem remote (hp : parse.Framed LF) (hservice : ∀ t text, (service t text).2.Untagged)
    (hpeer : peer.Speaks parse service.server understands B C) {α : Type}
    {x : Exec (Session σ) Fault α}
    (h : Program (fun x => ∃ z, Calls peer parse service understands x z) caught x)
    (hs : s.Mirrors parse C o) :
    (∃ z, Paired (Calls peer parse service understands) caught x z) ∧
      ∀ z, Paired (Calls peer parse service understands) caught x z →
        (x s).1 = (z o).1 ∧ Mirrors parse C (x s).2 (z o).2 := by
  refine ⟨h.exists_paired fun hop => hop, fun z hz => ?_⟩
  obtain ⟨hagree, hstate⟩ := hz.simulates (fun hop => hop.simulates hp hservice hpeer) s o hs
  exact ⟨hagree.eq, hstate⟩

/-- A server that has nothing but `OK` to say. -/
def okService : Service Unit := fun _ _ => ((), ⟨[], .ok, none, none⟩)

open Connection (okAnswer okParse)

def noopThenTake : Exec (Session (LineServer Unit)) Fault Queue :=
  relabel Fault.blank noopOk >>= fun _ => takeAllUnsolicited

theorem noopThenTake_program : Program (fun x => ∃ z : Exec (Remote Unit) Fault _,
    Calls (feed (LineServer.step okAnswer)) okParse okService SingleLine x z) caught
      noopThenTake := by
  have understood : ∀ text, Command.text .noop = .ok (some text) → SingleLine text := by
    intro text htext
    cases htext
    decide
  exact .bind (.op ⟨_, .execute (c := .noop) rfl understood⟩) fun _ =>
    .op ⟨_, .takeAllUnsolicited⟩

theorem fresh_mirrors : Mirrors okParse (fun server (_ : Unit) => server.pending = [])
    ⟨Connection.fresh, []⟩ ⟨(), []⟩ :=
  ⟨rfl, .nil, rfl, rfl, rfl, Connection.fresh_inStep.reliable, rfl⟩

theorem remote_noopThenTake :
    (∃ z : Exec (Remote Unit) Fault Queue, Paired (Calls (feed (LineServer.step okAnswer)) okParse
        okService SingleLine) caught noopThenTake z) ∧
      ∀ z, Paired (Calls (feed (LineServer.step okAnswer)) okParse okService SingleLine) caught
        noopThenTake z →
        (noopThenTake ⟨Connection.fresh, []⟩).1 = (z ⟨(), []⟩).1 ∧
        Mirrors okParse (fun server (_ : Unit) => server.pending = [])
          (noopThenTake ⟨Connection.fresh, []⟩).2 (z ⟨(), []⟩).2 :=
  remote Connection.okParse_framed (fun _ _ _ hr => by cases hr) okAnswer_speaks
    noopThenTake_program fresh_mirrors

end Session

end RustImap
