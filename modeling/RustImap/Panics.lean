import RustImap.Assertions
import RustImap.Draining
import RustImap.ExactlyOne

/-!
What a server can make the client do but fail.

Besides `SELECT`, `EXAMINE` and `IDLE`, which assert what a server has sent, no operation of a
session panics, whatever it is sent, and none goes on for ever. The printing of `debug` is left
out.
-/

namespace RustImap

open Exec (Within Program)

/-- An error that is returned. -/
def Fault.IsError (f : Fault) : Prop := ∃ e, f = .err e

theorem Fault.isError (e : Error) : (Fault.err e).IsError := ⟨e, rfl⟩

section Parsers

variable {parse : ParseResponse} {A : Type}

/-- The parser fails in no other way than with an error. -/
abbrev Collect.Errs (x : Collect A) : Prop := Within (fun _ => True) Fault.IsError x

open Collect (Errs)

theorem forResponses_errs {body : A → Response → Bytes → Collect A} {lines : Bytes}
    (hbody : ∀ r, parse.Meets lines r → ∀ a rest, Errs (body a r rest)) (a : A) :
    Errs (forResponses parse body a lines) := by
  unfold forResponses
  generalize lines.length = turns
  induction turns generalizing a lines with
  | zero => exact .pure a
  | succ turns ih =>
      unfold loopResponses
      split
      · exact .pure a
      · cases hrun : parse.run lines with
        | ok rest r =>
            exact (hbody r (.here hrun) a rest).bind fun a =>
              ih (fun r' hr' => hbody r' (.later hrun hr')) a
        | incomplete | error => exact .fail (Fault.isError _)

theorem tryHandleUnilateral_errs (r : Response) : Errs (tryHandleUnilateral r) := by
  intro q _
  unfold tryHandleUnilateral
  cases UnsolicitedResponse.tryFrom r <;> exact ⟨fun e he => (by cases he), trivial⟩

theorem handleUnilateral_errs (r : Response) : Errs (handleUnilateral r) := by
  refine (tryHandleUnilateral_errs r).bind fun o => ?_
  cases o with
  | none => exact .pure ()
  | some resp => exact .fail (Fault.isError _)

theorem handled_errs (a : A) (r : Response) : Errs (do handleUnilateral r; pure a : Collect A) :=
  (handleUnilateral_errs r).bind fun _ => .pure a

variable {tag : UInt32}

theorem expungeStep_errs {r : Response} (h : r.isDone = true → r.IsOkOf tag) (a : Expunging)
    (rest : Bytes) : Errs (expungeStep a r rest) := by
  cases r with
  | done doneTag status code information =>
      obtain ⟨_, _, hdone⟩ := h rfl
      cases hdone
      rcases code with - | code
      · exact .pure a
      · cases code <;> exact .pure _
  | expunge | vanished => exact .pure _
  | _ => exact handled_errs a _

theorem appendStep_errs {r : Response} (h : r.isDone = true → r.IsOkOf tag) (a : Appended)
    (rest : Bytes) : Errs (appendStep a r rest) := by
  cases r with
  | done doneTag status code information =>
      obtain ⟨_, _, hdone⟩ := h rfl
      cases hdone
      rcases code with - | code
      · exact .pure a
      · cases code <;> exact .pure _
  | _ => exact handled_errs a _

theorem statusStep_errs (mailboxName : Str) (a : Mailbox × Bool) (r : Response) (rest : Bytes) :
    Errs (statusStep mailboxName a r rest) := by
  cases r with
  | mailboxData m =>
      cases m with
      | status theirs status =>
          simp only [statusStep]
          split
          · exact .pure _
          · exact handled_errs a _
      | _ => exact handled_errs a _
  | _ => exact handled_errs a _

theorem idsStep_errs (ids : List UInt32) (r : Response) (rest : Bytes) :
    Errs (idsStep ids r rest) := by
  cases r with
  | mailboxData m =>
      cases m with
      | search | sort => exact .pure _
      | _ => exact handled_errs ids _
  | _ => exact handled_errs ids _

theorem metadataStep_errs (res : List Metadata) (r : Response) (rest : Bytes) :
    Errs (metadataStep res r rest) := by
  cases r with
  | mailboxData m =>
      cases m with
      | metadataSolicited => exact .pure _
      | _ => exact handled_errs res _
  | _ => exact handled_errs res _

theorem extendedNamesStep_errs (a : Extending) (r : Response) (rest : Bytes) :
    Errs (extendedNamesStep a r rest) := by
  cases r with
  | mailboxData m =>
      cases m with
      | list attributes delimiter name =>
          simp only [extendedNamesStep]
          cases a.currentName <;> exact .pure _
      | status => exact .pure _
      | _ => exact handled_errs a _
  | _ => exact handled_errs a _

section Collectors

variable {T U : Type}

theorem collect2_errs {map : Response → Except Error (MapOrNot2 T U)} (into : List T × List U)
    (r : Response) (rest : Bytes) : Errs (collect2 map into r rest) := by
  unfold collect2
  cases map r with
  | error e => exact .fail (Fault.isError e)
  | ok m =>
      cases m with
      | not resp =>
          refine (tryHandleUnilateral_errs resp).bind fun o => ?_
          cases o with
          | none => exact .pure _
          | some resp => cases resp <;> first | exact .pure _ | exact .fail (Fault.isError _)
      | _ => exact .pure _

theorem parseManyInto2_errs (map : Response → Except Error (MapOrNot2 T U)) (input : Bytes)
    (into1 : List T) (into2 : List U) : Errs (parseManyInto2 parse map input into1 into2) :=
  forResponses_errs (fun r _ a rest => collect2_errs a r rest) _

theorem parseManyInto_errs (map : Response → Except Error (MapOrNot T)) (input : Bytes)
    (into : List T) : Errs (parseManyInto parse map input into) := by
  intro q _
  refine ⟨fun fault hfault => ?_, trivial⟩
  rcases parseManyInto_result map parse input into q with ⟨ts, -, hok⟩ | ⟨-, e, he⟩
  · rw [hok] at hfault
    cases hfault
  · rw [he] at hfault
    exact ⟨e, (Except.error.inj hfault).symm⟩

theorem parseUntilDoneInternal_errs (input : Bytes) (optional : Bool)
    (map : Response → Except Error (MapOrNot T)) :
    Errs (parseUntilDoneInternal parse input optional map) := by
  intro q _
  refine ⟨fun fault hfault => ?_, trivial⟩
  rcases parseUntilDoneInternal_result input optional map q with ⟨ts, -, hcount⟩ | ⟨-, e, he⟩
  · exact ⟨_, counted_error (hcount.symm.trans hfault)⟩
  · rw [he] at hfault
    exact ⟨e, (Except.error.inj hfault).symm⟩

theorem parseUntilDone_errs (input : Bytes) (map : Response → Except Error (MapOrNot T)) :
    Errs (parseUntilDone parse input map) := by
  intro q _
  refine ⟨fun fault hfault => ?_, trivial⟩
  have internal : (parseUntilDoneInternal parse input false map q).1 =
      (parseUntilDone parse input map q).1.map some :=
    parseUntilDone_internal input q
  rw [hfault] at internal
  exact (parseUntilDoneInternal_errs input false map q trivial).1 fault internal

end Collectors

theorem missedEntries_errs {lines : Bytes} {ok : Nat} (h : AssertionsHold parse tag lines ok)
    (maxsize : Option Nat) : Errs (Session.missedEntries parse maxsize (lines.drop ok)) := by
  obtain ⟨rest, r, hrun, code, information, rfl⟩ := h.reachable
  unfold Session.missedEntries
  split
  · exact .pure _
  · rw [hrun]
    rcases code with - | code
    · exact .pure _
    · cases code <;> exact .pure _

/-- The commands whose parser asserts that no untagged status is a failure. -/
def Command.selects : Command → Bool
  | .select _ | .examine _ => true
  | _ => false

theorem Command.finish_errs {c : Command} (hselect : c.selects = false) {lines : Bytes} {ok : Nat}
    (h : c.asserts = true → AssertionsHold parse tag lines ok) :
    Errs (c.finish parse lines ok) := by
  have ids (input : Bytes) : Errs (parseIdsWith parse input) :=
    forResponses_errs (fun r _ a rest => idsStep_errs a r rest) _
  cases c with
  | select | examine => cases hselect
  | fetch | uidFetch | store | uidStore | list | lsub => exact (parseManyInto_errs _ _ []).map _
  | noop => exact (forResponses_errs (fun r _ _ _ => handleUnilateral_errs r) ()).map _
  | capability => exact ((parseManyInto_errs _ _ []).map _).map _
  | expunge | uidExpunge =>
      refine Within.map ?_ _
      refine (forResponses_errs (fun r hr a rest => ?_) _).bind fun a => ?_
      · exact expungeStep_errs ((h rfl).asserted r hr) a rest
      · split <;> exact .pure _
  | append =>
      refine Within.map ?_ _
      unfold parseAppend forResponses1
      split
      · exact .fail (Fault.isError _)
      · refine forResponses_errs (fun r hr a rest => ?_) _
        exact appendStep_errs ((h rfl).asserted r hr) a rest
  | status mailboxName dataItems =>
      refine Within.map ?_ _
      refine (forResponses_errs (fun r _ a rest => statusStep_errs mailboxName a r rest) _).bind
        fun a => ?_
      split
      split
      · exact .pure _
      · exact .fail (Fault.isError _)
  | search | uidSearch => exact ((ids _).map _).map _
  | sort | uidSort => exact (ids _).map _
  | getAcl | listRights | myRights => exact (parseUntilDone_errs _ _).map _
  | setQuota | getQuota => exact (parseUntilDoneInternal_errs _ true _).map _
  | getQuotaRoot =>
      refine Within.map ?_ _
      refine (parseManyInto2_errs _ _ [] []).bind fun r => ?_
      split
      split
      · exact .pure _
      · exact .fail (Fault.isError _)
  | listStatus =>
      refine Within.map ?_ _
      refine (forResponses_errs (fun r _ a rest => extendedNamesStep_errs a r rest) _).bind
        fun a => ?_
      split <;> exact .pure _
  | getMetadata mailbox entries depth maxsize =>
      refine Within.map (.bind ?_ fun metadata => ?_) _
      · exact forResponses_errs (fun r _ a rest => metadataStep_errs a r rest) _
      · exact (missedEntries_errs (h rfl) maxsize).bind fun missed => .pure _
  | _ => exact .pure _

end Parsers

variable {σ : Type} {peer : Peer σ} {parse : ParseResponse}

namespace Connection

/-- `debug` is off. -/
def Silent (conn : Connection σ) : Prop := conn.debug = false

theorem Silent.printable {conn : Connection σ} (h : conn.Silent) (line : Bytes) :
    conn.printable line = true := by
  rw [Connection.printable, h]
  rfl

theorem readline_errs (into : Bytes) :
    Within Silent Fault.IsError (readline (σ := σ) into) := by
  intro conn hconn
  rw [(readline_eq (takeLine_input conn) into).1]
  refine ⟨fun fault hfault => ?_, hconn⟩
  unfold lineResult at hfault
  split at hfault
  · exact ⟨_, (Except.error.inj hfault).symm⟩
  · split at hfault
    · exact ⟨_, (Except.error.inj hfault).symm⟩
    · rw [hconn.printable] at hfault
      cases hfault

theorem io_errs {α : Type} (f : BufStream σ → Except ErrorKind α × BufStream σ) :
    Within Silent Fault.IsError (io f) := by
  intro conn hconn
  rw [io_apply]
  refine ⟨fun fault hfault => ?_, hconn⟩
  cases hf : (f conn.stream).1 with
  | ok a =>
      rw [hf] at hfault
      cases hfault
  | error k =>
      rw [hf] at hfault
      exact ⟨_, (Except.error.inj hfault).symm⟩

theorem runCommand_errs (text : Str) :
    Within Silent Fault.IsError (runCommand peer text) := by
  intro conn hconn
  obtain ⟨w, -, hdebug, -, hout⟩ := runCommand_total peer text conn
  refine ⟨fun fault hfault => ?_, hdebug.trans hconn⟩
  rcases hout with ⟨hok, -⟩ | ⟨k, herr, -⟩
  · rw [hok] at hfault
    cases hfault
  · rw [herr] at hfault
    exact ⟨_, (Except.error.inj hfault).symm⟩

theorem unitRun_printed {guard : Bytes → Bool} (hguard : ∀ line, guard line = true) {cur : Bytes}
    {es : List InEvent} {u : UnitRead UInt8 ErrorKind Response}
    (h : UnitRun parse LF guard cur es u) : u.stop ≠ .refused := by
  induction h with
  | refused _ _ hno =>
      rw [hguard] at hno
      cases hno
  | more _ _ _ _ _ ih => exact ih
  | _ => simp

theorem answerRun_printed {guard : Bytes → Bool} (hguard : ∀ line, guard line = true) {cur : Bytes}
    {es : List InEvent} {us : List (Bytes × Response)} {u : UnitRead UInt8 ErrorKind Response}
    (h : AnswerRun parse LF guard Response.isDone cur es us u) : u.stop ≠ .refused := by
  induction h with
  | last hunit _ => exact unitRun_printed hguard hunit
  | more _ _ _ _ ih => exact ih

/-- The loop of `read_response` ends, and where nothing is printed it does not panic. -/
theorem readResponse_errs : Within Silent Fault.IsError (readResponse (σ := σ) parse) := by
  intro conn hconn
  obtain ⟨us, u, conn', hrun, hread, -, hon⟩ := readResponse_answer parse conn
  rw [hread]
  refine ⟨fun fault hfault => ?_, hon.debug.trans hconn⟩
  have hprinted := answerRun_printed hconn.printable hrun
  change answerResult conn.tag [] us u = .error fault at hfault
  unfold answerResult at hfault
  cases hstop : u.stop with
  | refused => exact absurd hstop hprinted
  | unit r =>
      rw [hstop] at hfault
      obtain ⟨tag, status, code, information, rfl⟩ : ∃ tag status code information,
          r = .done tag status code information := by
        have final := hrun.final_of_unit r hstop
        cases r <;> first | exact ⟨_, _, _, _, rfl⟩ | cases final
      by_cases htag : tag = matchTag conn.tag
      · cases status <;> simp [breakWith, breakError, leave, htag] at hfault <;>
          exact ⟨_, hfault.symm⟩
      · simp only [breakWith, leave, ne_eq, htag, not_false_eq_true, if_true,
          Option.getD_some] at hfault
        exact ⟨_, (Except.error.inj hfault).symm⟩
  | _ =>
      rw [hstop] at hfault
      exact ⟨_, (Except.error.inj hfault).symm⟩

theorem send_errs (c : Command) : Within Silent Fault.IsError (send peer c) := by
  refine Within.bind (.lift fun fault hfault => ?_) fun text => ?_
  · cases htext : c.text with
    | ok o =>
        rw [htext] at hfault
        cases hfault
    | error e =>
        rw [htext] at hfault
        exact ⟨_, (Except.error.inj hfault).symm⟩
  · cases text with
    | none => exact .pure false
    | some text => exact (runCommand_errs text).bind fun _ => .pure true

theorem command_errs (c : Command) : Within Silent Fault.IsError (command peer parse c) := by
  refine (send_errs c).bind fun sent => ?_
  cases sent with
  | true => exact readResponse_errs
  | false => exact .pure _

theorem converse_errs (cmd : AppendCmd) :
    Within Silent Fault.IsError (cmd.converse peer parse) := by
  refine (send_errs cmd.command).bind fun _ => (readline_errs []).bind fun v => ?_
  split
  · exact .fail (Fault.isError _)
  · refine (io_errs _).bind fun _ => (io_errs _).bind fun _ => (io_errs _).bind fun _ => ?_
    exact readResponse_errs

end Connection

namespace Session

/-- The operations that assert nothing a server could break: the commands but for `SELECT` and
`EXAMINE`, the raw ones, and what reads nothing. -/
inductive Unasserting (peer : Peer σ) (parse : ParseResponse) :
    {α : Type} → Exec (Session σ) Fault α → Prop
  | completes {op : Exec (Session σ) Fault Value} {c : Command}
      {read : Exec (Connection σ) Fault (Bytes × Nat)} :
      Completes peer parse op c read → c.selects = false → Unasserting peer parse op
  | runCommand (text : Str) : Unasserting peer parse (onConn (Connection.runCommand peer text))
  | run (text : Str) : Unasserting peer parse (onConn (Connection.run peer parse text))
  | skipTag : Unasserting peer parse (onConn Connection.skipTag)
  | takeAllUnsolicited : Unasserting peer parse takeAllUnsolicited

def Silent (s : Session σ) : Prop := s.conn.Silent

theorem onConn_errs {α : Type} {x : Exec (Connection σ) Fault α}
    (h : Within Connection.Silent Fault.IsError x) : Within Silent Fault.IsError (onConn x) := by
  intro s hs
  exact h s.conn hs

/-- A server that ends `LOGOUT` with `BYE` has not failed. -/
theorem logout_errs : Within Silent Fault.IsError (logout peer parse) := by
  intro s hs
  have asked : Within Silent Fault.IsError (checkOk peer parse .logout) :=
    (onConn_errs (Connection.command_errs .logout)).bind fun _ =>
      (Within.pure (I := fun _ => True) ()).on (fun _ _ => trivial) fun _ _ hs _ => hs
  obtain ⟨herror, hstate⟩ := asked s hs
  unfold logout
  generalize checkOk peer parse .logout s = out at herror hstate ⊢
  obtain ⟨r, s'⟩ := out
  cases r with
  | ok u => exact ⟨herror, hstate⟩
  | error fault =>
      cases fault with
      | err e =>
          cases e with
          | bye => exact ⟨fun _ he => (by cases he), hstate⟩
          | _ => exact ⟨herror, hstate⟩
      | panic | running => exact ⟨herror, hstate⟩

variable {op : Exec (Session σ) Fault Value} {c : Command}
variable {read : Exec (Connection σ) Fault (Bytes × Nat)}

theorem Completes.read_errs (h : Completes peer parse op c read) :
    Within Connection.Silent Fault.IsError read := by
  cases h with
  | command _ => exact Connection.command_errs c
  | append cmd => exact Connection.converse_errs cmd

theorem Completes.errs (hp : parse.Framed LF) (h : Completes peer parse op c read)
    (hselect : c.selects = false) : Within Silent Fault.IsError op := by
  by_cases hlogout : c = .logout
  · subst hlogout
    cases h with
    | command hop =>
        cases hop
        exact logout_errs.map _
  intro s hs
  obtain ⟨herror, hstate⟩ := h.read_errs s.conn hs
  cases hread : read s.conn with
  | mk r conn =>
      rw [hread] at herror hstate
      cases r with
      | error fault =>
          rw [h.apply_error hlogout hread]
          refine ⟨fun fault' hfault => ?_, hstate⟩
          cases hfault
          exact herror fault rfl
      | ok answer =>
          obtain ⟨lines, ok⟩ := answer
          rw [h.apply_ok hlogout hread]
          have expected : c.asserts = true → AssertionsHold parse (s.conn.tag + 1) lines ok := by
            intro hc
            obtain ⟨sent, htag, hanswer⟩ := h.reads hc hread
            rw [← htag]
            exact Connection.readResponse_asserted hp hanswer
          exact ⟨(c.finish_errs hselect expected s.unsolicitedResponses trivial).1, hstate⟩

theorem Unasserting.errs (hp : parse.Framed LF) {α : Type} {x : Exec (Session σ) Fault α}
    (h : Unasserting peer parse x) : Within Silent Fault.IsError x := by
  cases h with
  | completes hop hselect => exact hop.errs hp hselect
  | runCommand text => exact onConn_errs (Connection.runCommand_errs text)
  | run text =>
      exact onConn_errs ((Connection.runCommand_errs text).bind fun _ =>
        Connection.readResponse_errs)
  | skipTag => exact onConn_errs fun conn hconn => ⟨fun _ he => (by cases he), hconn⟩
  | takeAllUnsolicited => exact fun s hs => ⟨fun _ he => (by cases he), hs⟩

/-- Whatever a server sends and whenever reads and writes fail, a program ends, and if it fails
it fails with an error. -/
theorem program_errs (hp : parse.Framed LF) {α : Type} {x : Exec (Session σ) Fault α}
    (h : Program (Unasserting peer parse) caught x) {s : Session σ} (hs : s.conn.debug = false) :
    (x s).1 ≠ .error .panic ∧ (x s).1 ≠ .error .running ∧ (x s).2.conn.debug = false := by
  obtain ⟨herror, hstate⟩ := h.within (fun hop => hop.errs hp) s hs
  refine ⟨fun hpanic => ?_, fun hrunning => ?_, hstate⟩
  · obtain ⟨e, he⟩ := herror _ hpanic
    cases he
  · obtain ⟨e, he⟩ := herror _ hrunning
    cases he

def expungeThenLogout : Exec (Session Unit) Fault Value :=
  (Value.deleted <$> expunge expunging expungeParse) >>= fun _ =>
    (fun _ => .unit) <$> logout expunging expungeParse

theorem expungeThenLogout_program :
    Program (Unasserting expunging expungeParse) caught expungeThenLogout :=
  .bind (.op (.completes (.command (c := .expunge) rfl) rfl)) fun _ =>
    .op (.completes (.command (c := .logout) rfl) rfl)

theorem program_errs_expunge :
    (expungeThenLogout opened).1 ≠ .error .panic ∧
      (expungeThenLogout opened).1 ≠ .error .running ∧
      (expungeThenLogout opened).2.conn.debug = false :=
  program_errs expungeParse_framed expungeThenLogout_program rfl

end Session

end RustImap
