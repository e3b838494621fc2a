import RustImap.Framing
import RustImap.Send

/-!
What the errors of `read_response_onto` say about the server.

A response the parser rejects goes through the same intermediate value as a tagged
`BYE` and comes out as the same error. Everything else is told apart.
-/

namespace RustImap
namespace Connection

variable {σ : Type} {peer : Peer σ} {parse : ParseResponse}

/-- The answer ended with a tagged response that has this tag and status. -/
def EndedWith (u : UnitRead UInt8 ErrorKind Response) (tag : Str) (status : Status) : Prop :=
  ∃ code information, u.stop = .unit (.done tag status code information)

/-- The result of a read names the reason why it ended. -/
structure Classified (tag : UInt32) (u : UnitRead UInt8 ErrorKind Response)
    (result : Except Fault (Bytes × Nat)) : Prop where
  bye : ∀ information code, result = .error (.err (.bye information code)) →
    EndedWith u (matchTag tag) .bye
  no : ∀ information code, result = .error (.err (.no information code)) →
    EndedWith u (matchTag tag) .no
  bad : ∀ information code, result = .error (.err (.bad information code)) →
    EndedWith u (matchTag tag) .bad
  tagMismatch : (∃ e, result = .error (.err (.tagMismatch e))) ↔
    ∃ other status, other ≠ matchTag tag ∧ EndedWith u other status
  rejected : u.stop = .rejected → ∃ e, result = .error (.err (.parse e))

theorem answerResult_mismatch {tag : UInt32} {other : Str} {status : Status}
    {code : Option ResponseCode} {information : Option Str} {before : Bytes}
    {us : List (Bytes × Response)} {u : UnitRead UInt8 ErrorKind Response}
    (hstop : u.stop = .unit (.done other status code information))
    (hne : other ≠ matchTag tag) :
    answerResult tag before us u =
      .error (.err (.tagMismatch { expect := tag, actual := actualTag other })) := by
  simp [answerResult, hstop, breakWith, hne, leave]

/-- The result of an answer that ended with the right tag. -/
theorem answerResult_status {tag : UInt32} {status : Status} {code : Option ResponseCode}
    {information : Option Str} {before : Bytes} {us : List (Bytes × Response)}
    {u : UnitRead UInt8 ErrorKind Response}
    (hstop : u.stop = .unit (.done (matchTag tag) status code information)) :
    answerResult tag before us u =
      match status with
      | .ok => .ok (before ++ textOf us u, (before ++ (us.map Prod.fst).flatten).length)
      | .no => .error (.err (.no (information.getD noExplanation) code))
      | .bad => .error (.err (.bad (information.getD noExplanation) code))
      | .bye => .error (.err (.bye (information.getD noExplanation) code))
      | .preAuth => .error (.err (.parse (.invalid (before ++ textOf us u)))) := by
  cases status <;> simp [answerResult, hstop, breakWith, leave, breakError]

theorem classified_iff {tag : UInt32} {before : Bytes} {us : List (Bytes × Response)}
    {u : UnitRead UInt8 ErrorKind Response} (hdone : ∀ r, u.stop = .unit r → r.isDone = true) :
    Classified tag u (answerResult tag before us u) ↔ u.stop ≠ .rejected := by
  constructor
  · intro h hrej
    obtain ⟨e, he⟩ := h.rejected hrej
    simp [answerResult, hrej] at he
  · intro hne
    cases hstop : u.stop with
    | rejected => exact absurd hstop hne
    | failed k | lost | refused =>
        constructor <;> simp [answerResult, EndedWith, hstop]
    | unit r =>
        have hr := hdone r hstop
        cases r <;> try cases hr
        rename_i doneTag status code information
        by_cases htag : doneTag = matchTag tag
        · subst htag
          have ended : ∀ st, EndedWith u (matchTag tag) st ↔ st = status := by
            intro st
            simp only [EndedWith, hstop]
            constructor
            · rintro ⟨_, _, heq⟩
              cases heq
              rfl
            · rintro rfl
              exact ⟨code, information, rfl⟩
          have other : ∀ other, other ≠ matchTag tag → ∀ st, ¬ EndedWith u other st := by
            rintro other hother st ⟨_, _, heq⟩
            rw [hstop] at heq
            cases heq
            exact hother rfl
          rw [answerResult_status hstop]
          cases status <;> constructor <;> simp [ended, hstop] <;> exact other
        · rw [answerResult_mismatch hstop htag]
          constructor <;> simp [hstop]
          exact ⟨doneTag, htag, status, code, information, hstop⟩

theorem readResponseOnto_classified {data : Bytes} {conn : Connection σ}
    {us : List (Bytes × Response)} {u : UnitRead UInt8 ErrorKind Response}
    (h : AnswerFrom parse LF conn.printable Response.isDone data conn.input us u) :
    Classified conn.tag u (readResponseOnto parse data conn).1 ↔ u.stop ≠ .rejected := by
  obtain ⟨vs, v, conn', run, hres, -⟩ := readResponseOnto_answer parse data conn
  obtain ⟨rfl, rfl⟩ := h.unique run
  rw [hres]
  exact classified_iff h.final_of_unit

/-- The answer to `LOGOUT`: the connection after the command was sent, and what the
line reader makes of its input. -/
def LogoutAnswer (peer : Peer σ) (parse : ParseResponse) (s : Session σ)
    (tag : UInt32) (u : UnitRead UInt8 ErrorKind Response) : Prop :=
  ∃ conn us, send peer .logout s.conn = (.ok true, conn) ∧ tag = conn.tag ∧
    AnswerRun parse LF conn.printable Response.isDone [] conn.input us u

/-- `logout` succeeds only if the server said so. -/
def LogoutHonest (peer : Peer σ) (parse : ParseResponse) (s : Session σ) : Prop :=
  (Session.logout peer parse s).1 = .ok () →
    ∃ tag u, LogoutAnswer peer parse s tag u ∧
      (EndedWith u (matchTag tag) .ok ∨ EndedWith u (matchTag tag) .bye)

variable (peer) in
theorem send_logout (conn : Connection σ) :
    (∃ conn', send peer .logout conn = (.ok true, conn')) ∨
      ∃ k conn', send peer .logout conn = (.error (.err (.io k)), conn') := by
  have htext : Command.logout.text = .ok (some (words ["LOGOUT".toList])) := rfl
  obtain ⟨w, -, -, -, ⟨hok, -⟩ | ⟨k, herr, -⟩⟩ :=
    runCommand_total peer (words ["LOGOUT".toList]) conn
  · exact .inl ⟨_, by rw [send_some peer htext, hok]; rfl⟩
  · exact .inr ⟨k, _, by rw [send_some peer htext, herr]; rfl⟩

theorem logout_of_command {s : Session σ} {r : Except Fault (Bytes × Nat)}
    {conn : Connection σ} (h : command peer parse .logout s.conn = (r, conn)) :
    (Session.logout peer parse s).1 = .ok () ↔
      (∃ answer, r = .ok answer) ∨
        ∃ information code, r = .error (.err (.bye information code)) := by
  unfold Session.logout Session.checkOk Session.untagged
  cases r with
  | ok answer =>
      obtain ⟨lines, ok⟩ := answer
      rw [Session.operation_ok h]
      simp
  | error e =>
      rw [Session.operation_error h]
      cases e with
      | panic | running => simp
      | err e => cases e <;> simp

theorem logout_result {s : Session σ} {tag : UInt32}
    {u : UnitRead UInt8 ErrorKind Response} (h : LogoutAnswer peer parse s tag u) :
    (Session.logout peer parse s).1 = .ok () ↔
      (EndedWith u (matchTag tag) .ok ∨ EndedWith u (matchTag tag) .bye) ∨
        u.stop = .rejected := by
  obtain ⟨conn, us, hsend, rfl, run⟩ := h
  obtain ⟨vs, v, conn', run', hres, -⟩ := readResponse_answer parse conn
  obtain ⟨rfl, rfl⟩ := run.unique run'
  rw [← command_sent hsend] at hres
  rw [logout_of_command hres]
  cases hstop : u.stop with
  | failed k | lost | refused | rejected => simp [answerResult, EndedWith, hstop]
  | unit r =>
      have hr := run.final_of_unit r hstop
      cases r <;> try cases hr
      rename_i doneTag status code information
      by_cases htag : doneTag = matchTag conn.tag
      · subst htag
        rw [answerResult_status hstop]
        cases status <;> simp [EndedWith, hstop]
      · rw [answerResult_mismatch hstop htag]
        simp [EndedWith, hstop, htag]

/-- Every error names its cause, and `logout` believes only the server, exactly as long as
the parser rejects nothing the server sends. -/
theorem failures_classified (data : Bytes) (conn : Connection σ) (s : Session σ) :
    (∀ us u, AnswerFrom parse LF conn.printable Response.isDone data conn.input us u →
      (Classified conn.tag u (readResponseOnto parse data conn).1 ↔ u.stop ≠ .rejected)) ∧
    (LogoutHonest peer parse s ↔
      ∀ tag u, LogoutAnswer peer parse s tag u → u.stop ≠ .rejected) := by
  refine ⟨fun us u run => readResponseOnto_classified run, ?_, ?_⟩
  · intro honest tag u h hrej
    obtain ⟨tag', u', h', hended⟩ := honest ((logout_result h).mpr (.inr hrej))
    obtain ⟨conn, us, hsend, rfl, run⟩ := h
    obtain ⟨conn', us', hsend', rfl, run'⟩ := h'
    rw [hsend] at hsend'
    cases hsend'
    obtain ⟨rfl, rfl⟩ := run.unique run'
    rcases hended with ⟨_, _, hstop⟩ | ⟨_, _, hstop⟩
    · rw [hstop] at hrej
      cases hrej
    · rw [hstop] at hrej
      cases hrej
  · intro hnever hok
    obtain ⟨conn', hsend⟩ | ⟨k, conn', hsend⟩ := send_logout peer s.conn
    · obtain ⟨us, u, conn'', run, -⟩ := readResponse_answer parse conn'
      have h : LogoutAnswer peer parse s conn'.tag u := ⟨conn', us, hsend, rfl, run⟩
      rcases (logout_result h).mp hok with hended | hrej
      · exact ⟨conn'.tag, u, h, hended⟩
      · exact absurd hrej (hnever conn'.tag u h)
    · rw [logout_of_command (command_failed hsend)] at hok
      simp at hok

/-- A peer that never says anything. -/
def silent : Peer Unit := fun _ _ => ((), [])

def refusal : Bytes := utf8 "a0 NO gone\r\n".toList

def refused : Response := .done "a0".toList .no none (some "gone".toList)

def goodbye : Bytes := utf8 "a1 BYE later\r\n".toList

def leaving : Response := .done "a1".toList .bye none (some "later".toList)

def refusingParse : ParseResponse :=
  Parser.table [(refusal, refused), (goodbye, leaving)] (by decide)

theorem refusingParse_framed : refusingParse.Framed LF :=
  Parser.table_framed _ (by decide) (by decide)

/-- A tagged response on its own is read to its end. -/
theorem refusingParse_run {conn : Connection Unit} {d : Bytes} {r : Response}
    (hdebug : conn.debug = false) (hin : conn.input = d.map .item)
    (hd : refusingParse.Accepts d r) (hdone : r.isDone = true) :
    AnswerRun refusingParse LF conn.printable Response.isDone [] conn.input []
      ⟨d, .unit r, []⟩ := by
  have hin : conn.input = ([] ++ d).map .item ++ [] := by rw [hin, List.append_nil]; rfl
  rw [hin]
  exact .of_accepts refusingParse_framed .nil hd (by simp) hdone
    (fun line _ => by simp [printable, hdebug]) []

theorem failures_classified_refused :
    Classified INITIAL_TAG ⟨refusal, .unit refused, []⟩
        (readResponseOnto refusingParse [] (reading refusal false)).1 ∧
      LogoutHonest silent refusingParse (.new (reading goodbye false)) := by
  have accepts : refusingParse.Accepts refusal refused :=
    show refusingParse.run refusal = _ by decide
  have leaves : refusingParse.Accepts goodbye leaving :=
    show refusingParse.run goodbye = _ by decide
  constructor
  · have run := refusingParse_run rfl (show (reading refusal false).input = _ by decide)
      accepts rfl
    exact ((@failures_classified Unit silent refusingParse [] (reading refusal false)
      (.new (reading refusal false))).1 [] _ (.none run)).mpr (by simp)
  · refine ((@failures_classified Unit silent refusingParse [] (reading goodbye false)
      (.new (reading goodbye false))).2).mpr ?_
    rintro tag u ⟨conn, us, hsend, -, run⟩
    have hconn : (send silent .logout (reading goodbye false)).2 = conn := by
      change send silent .logout (reading goodbye false) = _ at hsend
      rw [hsend]
    have hdebug : conn.debug = false := by rw [← hconn]; decide
    have hin : conn.input = goodbye.map .item := by rw [← hconn]; decide
    obtain ⟨-, rfl⟩ := run.unique (refusingParse_run hdebug hin leaves rfl)
    simp

def junk : Bytes := utf8 "junk\r\n".toList

theorem junk_rejected (conn : Connection Unit) (hdebug : conn.debug = false)
    (hin : conn.input = junk.map .item) :
    AnswerRun literalParse LF conn.printable Response.isDone [] conn.input []
      ⟨junk, .rejected, []⟩ := by
  have hline : takeLine LF (junk.map Event.item : List InEvent) = (junk, none, []) := by
    decide
  have hreject : literalParse.run junk = .error := by decide
  rw [hin]
  refine .last (.rejected hline (by decide) ?_ hreject) (by simp)
  simp [printable, hdebug]

/-- A line that is no response at all comes out as a `BYE`, and ends a `LOGOUT` well. -/
theorem failures_classified_fails :
    (¬ ∀ (parse : ParseResponse) (data : Bytes) (conn : Connection Unit)
      (us : List (Bytes × Response)) (u : UnitRead UInt8 ErrorKind Response),
      AnswerFrom parse LF conn.printable Response.isDone data conn.input us u →
        Classified conn.tag u (readResponseOnto parse data conn).1) ∧
    ¬ ∀ (parse : ParseResponse) (s : Session Unit), LogoutHonest silent parse s := by
  constructor
  · intro h
    have run := junk_rejected (reading junk false) rfl (by decide)
    obtain ⟨e, he⟩ := (h literalParse [] _ _ _ (.none run)).rejected rfl
    have bye : (readResponseOnto literalParse [] (reading junk false)).1 =
        .error (.err (.bye noExplanation none)) := by decide
    rw [bye] at he
    cases he
  · intro h
    have hok : (Session.logout silent literalParse (.new (reading junk false))).1 = .ok () := by
      decide
    obtain ⟨tag, u, ⟨conn, us, hsend, -, run⟩, hended⟩ :=
      h literalParse (.new (reading junk false)) hok
    have hconn : (send silent .logout (reading junk false)).2 = conn := by
      change send silent .logout (reading junk false) = _ at hsend
      rw [hsend]
    have hdebug : conn.debug = false := by rw [← hconn]; decide
    have hin : conn.input = junk.map .item := by rw [← hconn]; decide
    obtain ⟨-, rfl⟩ := run.unique (junk_rejected conn hdebug hin)
    rcases hended with ⟨_, _, hstop⟩ | ⟨_, _, hstop⟩ <;> cases hstop

end Connection
end RustImap
