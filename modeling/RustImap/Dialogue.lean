import RustImap.Conclusions
import RustImap.Handing

/-!
The client at the level of responses.

A `Dialogue` is what a session is for: a command goes out, and responses come in, up to the
tagged one. It knows no bytes, lines or buffers. A session does the same as a dialogue whenever
what it can read spells the messages of the dialogue, in any spelling; so its results depend on
the responses alone.
-/

namespace RustImap

open Exec (Simulates Paired relabel)

/-- What comes in: a whole response, or a read that fails between two of them. -/
inductive Message where
  | response (r : Response)
  | failure (kind : ErrorKind)

/-- A server that is given the tag and the text of a command. -/
abbrev Server (σ : Type) := σ → UInt32 → Str → σ × List Message

structure Dialogue (σ : Type) where
  server : σ
  inbox : List Message
  tag : UInt32
  unsolicitedResponses : Queue

/-- What ends the answer to a command. -/
inductive Ending where
  | done (tag : Str) (status : Status) (code : Option ResponseCode) (information : Option Str)
  | lost
  | failed (kind : ErrorKind)

/-- The untagged responses of an answer, how it ends, and what comes after it. -/
def answerOf : List Message → List Response × Ending × List Message
  | [] => ([], .lost, [])
  | .failure kind :: inbox => ([], .failed kind, inbox)
  | .response (.done tag status code information) :: inbox =>
      ([], .done tag status code information, inbox)
  | .response r :: inbox => (r :: (answerOf inbox).1, (answerOf inbox).2)

/-- The tagged response of a command that has succeeded. -/
def Ending.verdict (tag : UInt32) : Ending → Except Error Response
  | .lost => .error .connectionLost
  | .failed kind => .error (.io kind)
  | .done doneTag status code information =>
      if doneTag ≠ matchTag tag then
        .error (.tagMismatch { expect := tag, actual := actualTag doneTag })
      else
        match status with
        | .ok => .ok (.done doneTag status code information)
        | .no => .error (.no (information.getD noExplanation) code)
        | .bad => .error (.bad (information.getD noExplanation) code)
        | .bye => .error (.bye (information.getD noExplanation) code)
        | .preAuth => .error (.parse (.invalid []))

namespace Dialogue

variable {σ α : Type}

def onQueue (x : Collect α) : Exec (Dialogue σ) Fault α :=
  Exec.on unsolicitedResponses (fun unsolicitedResponses d => { d with unsolicitedResponses }) x

def say (serve : Server σ) (text : Str) : Exec (Dialogue σ) Fault Unit := fun d =>
  let (server, answer) := serve d.server (d.tag + 1) text
  (.ok (), { d with server, inbox := d.inbox ++ answer, tag := d.tag + 1 })

def listen : Exec (Dialogue σ) Fault (List Response × Response) := fun d =>
  let (rs, ending, inbox) := answerOf d.inbox
  ((ending.verdict d.tag).map (fun done => (rs, done)) |>.mapError .err, { d with inbox })

def command (serve : Server σ) (c : Command) : Exec (Dialogue σ) Fault Value := do
  match ← Exec.lift (c.text.mapError Fault.err) with
  | none => onQueue (c.conclude [] none)
  | some text => do
      say serve text
      let (rs, done) ← listen
      onQueue (c.conclude rs (some done))

/-- Some servers end the answer to `LOGOUT` with a tagged `BYE`. -/
def logout (serve : Server σ) : Exec (Dialogue σ) Fault Value := fun d =>
  match command serve .logout d with
  | (.error (.err (.bye _ _)), d) => (.ok .unit, d)
  | r => r

def execute (serve : Server σ) (c : Command) : Exec (Dialogue σ) Fault Value :=
  if c = .logout then logout serve else command serve c

def skipTag : Exec (Dialogue σ) Fault Unit := fun d => (.ok (), { d with tag := d.tag + 1 })

def takeAllUnsolicited : Exec (Dialogue σ) Fault Queue := onQueue fun queue => (.ok queue, [])

end Dialogue

section Spelling

variable (parse : ParseResponse)

/-- The messages on the wire, each response in any of its spellings. -/
inductive Spells : List InEvent → List Message → Prop
  | nil : Spells [] []
  | response {c : Bytes} {r : Response} {es : List InEvent} {ms : List Message} :
      parse.Accepts c r → Spells es ms → Spells (c.map .item ++ es) (.response r :: ms)
  | failure {kind : ErrorKind} {es : List InEvent} {ms : List Message} :
      Spells es ms → Spells (.fail kind :: es) (.failure kind :: ms)

/-- How the reading of an answer ends. -/
inductive Ends : UnitRead UInt8 ErrorKind Response → Ending → Prop
  | done {d : Bytes} {tag : Str} {status : Status} {code : Option ResponseCode}
      {information : Option Str} {rest : List InEvent} :
      parse.Accepts d (.done tag status code information) →
      Ends ⟨d, .unit (.done tag status code information), rest⟩
        (.done tag status code information)
  | lost {text : Bytes} {rest : List InEvent} : Ends ⟨text, .lost, rest⟩ .lost
  | failed {text : Bytes} {kind : ErrorKind} {rest : List InEvent} :
      Ends ⟨text, .failed kind, rest⟩ (.failed kind)

variable {parse} {es es' : List InEvent} {ms ms' : List Message}

theorem Spells.append (h : Spells parse es ms) (h' : Spells parse es' ms') :
    Spells parse (es ++ es') (ms ++ ms') := by
  induction h with
  | nil => exact h'
  | response hc _ ih =>
      rw [List.append_assoc]
      exact .response hc ih
  | failure _ ih => exact .failure ih

/-- Reading an answer off the bytes. -/
structure Reads (parse : ParseResponse) (es : List InEvent) (ms : List Message)
    (us : List (Bytes × Response)) (u : UnitRead UInt8 ErrorKind Response) : Prop where
  texts : List.Forall₂ parse.Accepts (us.map Prod.fst) (answerOf ms).1
  untagged : ∀ r ∈ (answerOf ms).1, r.isDone = false
  ends : Ends parse u (answerOf ms).2.1
  rest : Spells parse u.rest (answerOf ms).2.2

/-- What is read off the bytes is what the messages say. -/
theorem Spells.reads (hp : parse.Framed LF) {guard : Bytes → Bool}
    (hguard : ∀ line, guard line = true) (h : Spells parse es ms) :
    ∃ us u, AnswerRun parse LF guard Response.isDone [] es us u ∧ Reads parse es ms us u := by
  induction h with
  | nil =>
      have lost : UnitRun parse LF guard [] ([] : List InEvent) ⟨[], .lost, []⟩ := .lost rfl
      exact ⟨[], _, .last lost (by simp), ⟨.nil, by simp [answerOf], .lost, .nil⟩⟩
  | @failure kind es ms hes _ =>
      have failed : UnitRun parse LF guard [] (.fail kind :: es : List InEvent)
          ⟨[], .failed kind, es⟩ := .failed rfl
      exact ⟨[], _, .last failed (by simp), ⟨.nil, by simp [answerOf], .failed, hes⟩⟩
  | @response c r es ms hc hes ih =>
      have unit : UnitRun parse LF guard [] (c.map .item ++ es) ⟨c, .unit r, es⟩ :=
        .of_accepts hp hc (List.nil_append c).symm hc.ne_nil (fun l _ => hguard l) es
      cases hdone : r.isDone with
      | true =>
          obtain ⟨tag, status, code, information, rfl⟩ : ∃ tag status code information,
              r = .done tag status code information := by
            cases r <;> first | exact ⟨_, _, _, _, rfl⟩ | cases hdone
          refine ⟨[], _, .last unit (fun r hr => ?_), ⟨.nil, by simp [answerOf], .done hc, hes⟩⟩
          cases hr
          rfl
      | false =>
          obtain ⟨us, u, hrun, reads⟩ := ih
          have later : answerOf (.response r :: ms) = (r :: (answerOf ms).1, (answerOf ms).2) := by
            cases r <;> first | rfl | cases hdone
          refine ⟨(c, r) :: us, u, .more unit rfl hdone hrun, ?_⟩
          refine ⟨?_, ?_, ?_, ?_⟩
          · rw [later]
            exact .cons hc reads.texts
          · rw [later]
            exact List.forall_mem_cons.mpr ⟨hdone, reads.untagged⟩
          · rw [later]
            exact reads.ends
          · rw [later]
            exact reads.rest

end Spelling

end RustImap
