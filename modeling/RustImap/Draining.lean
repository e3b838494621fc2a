import RustImap.Assertions
import RustImap.Indistinct

/-!
Taking the unsolicited responses.

An operation of a session appends to the queue and never looks at what is in it. The queue is
therefore a log of which the responses that were taken have been cut off: the log grows as if
nothing were ever taken, and every response is taken at most once, in the order of its arrival.
-/

namespace RustImap

open Exec (Simulates Program Paired)

section Parsers

/-- Queues that stay related when the same response is pushed to both. -/
def Pushes (K : Queue → Queue → Prop) : Prop := ∀ u q q', K q q' → K (q ++ [u]) (q' ++ [u])

variable {K : Queue → Queue → Prop} (hK : Pushes K) {A : Type}

theorem forResponses_related {parse : ParseResponse} {body : A → Response → Bytes → Collect A}
    (hbody : ∀ a r rest, Simulates K Eq (body a r rest) (body a r rest)) (a : A) (lines : Bytes) :
    Simulates K Eq (forResponses parse body a lines) (forResponses parse body a lines) := by
  unfold forResponses
  generalize lines.length = turns
  induction turns generalizing a lines with
  | zero => exact .pure rfl
  | succ turns ih =>
      unfold loopResponses
      split
      · exact .pure rfl
      · cases parse.run lines with
        | ok rest r =>
            refine (hbody a r rest).bind fun a a' heq => ?_
            rw [heq]
            exact ih a' rest
        | incomplete | error => exact .fail _

include hK

theorem tryHandleUnilateral_related (r : Response) :
    Simulates K Eq (tryHandleUnilateral r) (tryHandleUnilateral r) := by
  intro q q' hq
  unfold tryHandleUnilateral
  cases UnsolicitedResponse.tryFrom r with
  | none => exact ⟨.refl _, hq⟩
  | some u => exact ⟨.refl _, hK u q q' hq⟩

theorem handleUnilateral_related (r : Response) :
    Simulates K Eq (handleUnilateral r) (handleUnilateral r) := by
  refine (tryHandleUnilateral_related hK r).bind fun o o' heq => ?_
  rw [heq]
  cases o' with
  | none => exact .pure rfl
  | some resp => exact .fail _

theorem pushBack_related (u : UnsolicitedResponse) :
    Simulates K Eq (pushBack u) (pushBack u) :=
  fun q q' hq => ⟨.refl _, hK u q q' hq⟩

theorem handled_related (a : A) (r : Response) :
    Simulates K Eq (do handleUnilateral r; pure a : Collect A)
      (do handleUnilateral r; pure a : Collect A) :=
  (handleUnilateral_related hK r).bind fun _ _ _ => .pure rfl

theorem expungeStep_related (a : Expunging) (r : Response) (rest : Bytes) :
    Simulates K Eq (expungeStep a r rest) (expungeStep a r rest) := by
  cases r with
  | done tag status code information =>
      simp only [expungeStep]
      split
      · exact .fail _
      · rcases code with - | code
        · exact .pure rfl
        · cases code <;> exact .pure rfl
  | expunge | vanished => exact .pure rfl
  | _ => exact handled_related hK a _

theorem appendStep_related (a : Appended) (r : Response) (rest : Bytes) :
    Simulates K Eq (appendStep a r rest) (appendStep a r rest) := by
  cases r with
  | done tag status code information =>
      simp only [appendStep]
      split
      · exact .fail _
      · rcases code with - | code
        · exact .pure rfl
        · cases code <;> exact .pure rfl
  | _ => exact handled_related hK a _

theorem mailboxStep_related (mailbox : Mailbox) (r : Response) (rest : Bytes) :
    Simulates K Eq (mailboxStep mailbox r rest) (mailboxStep mailbox r rest) := by
  cases r with
  | done tag status code information =>
      simp only [mailboxStep]
      split
      · exact .fail _
      split
      · exact .fail _
      · rcases code with - | code
        · exact .pure rfl
        · cases code <;> exact .pure rfl
  | data status code information =>
      cases status with
      | ok => exact .pure rfl
      | _ => exact .fail _
  | mailboxData m =>
      cases m with
      | status name status => exact (pushBack_related hK _).bind fun _ _ _ => .pure rfl
      | _ => exact .pure rfl
  | expunge n => exact (pushBack_related hK _).bind fun _ _ _ => .pure rfl
  | _ => exact .fail _

theorem statusStep_related (mailboxName : Str) (a : Mailbox × Bool) (r : Response)
    (rest : Bytes) :
    Simulates K Eq (statusStep mailboxName a r rest) (statusStep mailboxName a r rest) := by
  cases r with
  | mailboxData m =>
      cases m with
      | status theirs status =>
          simp only [statusStep]
          split
          · exact .pure rfl
          · exact handled_related hK a _
      | _ => exact handled_related hK a _
  | _ => exact handled_related hK a _

theorem idsStep_related (ids : List UInt32) (r : Response) (rest : Bytes) :
    Simulates K Eq (idsStep ids r rest) (idsStep ids r rest) := by
  cases r with
  | mailboxData m =>
      cases m with
      | search | sort => exact .pure rfl
      | _ => exact handled_related hK ids _
  | _ => exact handled_related hK ids _

theorem metadataStep_related (res : List Metadata) (r : Response) (rest : Bytes) :
    Simulates K Eq (metadataStep res r rest) (metadataStep res r rest) := by
  cases r with
  | mailboxData m =>
      cases m with
      | metadataSolicited => exact .pure rfl
      | _ => exact handled_related hK res _
  | _ => exact handled_related hK res _

theorem extendedNamesStep_related (a : Extending) (r : Response) (rest : Bytes) :
    Simulates K Eq (extendedNamesStep a r rest) (extendedNamesStep a r rest) := by
  cases r with
  | mailboxData m =>
      cases m with
      | list attributes delimiter name =>
          simp only [extendedNamesStep]
          cases a.currentName <;> exact .pure rfl
      | status => exact .pure rfl
      | _ => exact handled_related hK a _
  | _ => exact handled_related hK a _

variable {T U : Type} (parse : ParseResponse)

theorem collect2_related (map : Response → Except Error (MapOrNot2 T U)) (into : List T × List U)
    (r : Response) (rest : Bytes) :
    Simulates K Eq (collect2 map into r rest) (collect2 map into r rest) := by
  unfold collect2
  cases map r with
  | error e => exact .fail _
  | ok m =>
      cases m with
      | not resp =>
          refine (tryHandleUnilateral_related hK resp).bind fun o o' heq => ?_
          rw [heq]
          cases o' with
          | none => exact .pure rfl
          | some resp => cases resp <;> first | exact .pure rfl | exact .fail _
      | _ => exact .pure rfl

theorem parseManyInto2_related (map : Response → Except Error (MapOrNot2 T U)) (input : Bytes)
    (into1 : List T) (into2 : List U) :
    Simulates K Eq (parseManyInto2 parse map input into1 into2)
      (parseManyInto2 parse map input into1 into2) :=
  forResponses_related (fun a r rest => collect2_related hK map a r rest) _ input

theorem parseManyInto_related (map : Response → Except Error (MapOrNot T)) (input : Bytes)
    (into : List T) :
    Simulates K Eq (parseManyInto parse map input into) (parseManyInto parse map input into) := by
  refine (parseManyInto2_related hK parse _ input into []).bind fun r r' heq => ?_
  rw [heq]
  split
  split
  · exact .pure rfl
  · exact .fail _

theorem parseUntilDoneInternal_related (input : Bytes) (optional : Bool)
    (map : Response → Except Error (MapOrNot T)) :
    Simulates K Eq (parseUntilDoneInternal parse input optional map)
      (parseUntilDoneInternal parse input optional map) := by
  refine (parseManyInto_related hK parse map input []).bind fun output output' heq => ?_
  rw [heq]
  cases output' with
  | nil =>
      cases optional with
      | true => exact .pure rfl
      | false => exact .fail _
  | cons t ts =>
      cases ts with
      | nil => exact .pure rfl
      | cons t' ts => exact .fail _

theorem parseUntilDone_related (input : Bytes) (map : Response → Except Error (MapOrNot T)) :
    Simulates K Eq (parseUntilDone parse input map) (parseUntilDone parse input map) := by
  refine (parseUntilDoneInternal_related hK parse input false map).bind fun o o' heq => ?_
  rw [heq]
  cases o' with
  | none => exact .fail _
  | some t => exact .pure rfl

/-- No parser looks at the queue it pushes to. -/
theorem Command.finish_related (c : Command) (lines : Bytes) (ok : Nat) :
    Simulates K Eq (c.finish parse lines ok) (c.finish parse lines ok) := by
  have ids (input : Bytes) :
      Simulates K Eq (parseIdsWith parse input) (parseIdsWith parse input) :=
    forResponses_related (idsStep_related hK) _ input
  have unit : Simulates K Eq (pure Value.unit : Collect Value) (pure Value.unit) := .pure rfl
  cases c with
  | select | examine =>
      refine Simulates.map ?_ _
      unfold parseMailbox forResponses1
      split
      · exact .fail _
      · exact forResponses_related (mailboxStep_related hK) _ lines
  | fetch | uidFetch | store | uidStore | list | lsub =>
      exact (parseManyInto_related hK parse _ _ []).map _
  | noop =>
      exact (forResponses_related (fun _ r _ => handleUnilateral_related hK r) _ _).map _
  | capability =>
      exact ((parseManyInto_related hK parse _ _ []).map _).map _
  | expunge | uidExpunge =>
      refine Simulates.map ?_ _
      refine (forResponses_related (expungeStep_related hK) _ lines).bind fun a a' heq => ?_
      rw [heq]
      split <;> exact .pure rfl
  | append =>
      refine Simulates.map ?_ _
      unfold parseAppend forResponses1
      split
      · exact .fail _
      · exact forResponses_related (appendStep_related hK) _ lines
  | status mailboxName dataItems =>
      refine Simulates.map ?_ _
      refine (forResponses_related (statusStep_related hK mailboxName) _ _).bind fun a a' heq => ?_
      rw [heq]
      split
      split
      · exact .pure rfl
      · exact .fail _
  | search | uidSearch => exact ((ids _).map _).map _
  | sort | uidSort => exact (ids _).map _
  | getAcl | listRights | myRights =>
      exact (parseUntilDone_related hK parse _ _).map _
  | setQuota | getQuota =>
      exact (parseUntilDoneInternal_related hK parse _ true _).map _
  | getQuotaRoot =>
      refine Simulates.map ?_ _
      refine (parseManyInto2_related hK parse _ _ [] []).bind fun r r' heq => ?_
      rw [heq]
      split
      split
      · exact .pure rfl
      · exact .fail _
  | listStatus =>
      refine Simulates.map ?_ _
      refine (forResponses_related (extendedNamesStep_related hK) _ _).bind fun a a' heq => ?_
      rw [heq]
      cases a'.currentName <;> exact .pure rfl
  | getMetadata mailbox entries depth maxsize =>
      refine Simulates.map ?_ _
      refine (forResponses_related (metadataStep_related hK) _ _).bind
        fun metadata metadata' heq => ?_
      rw [heq]
      refine Simulates.bind (R := Eq) ?_ fun missed missed' heq => ?_
      · unfold Session.missedEntries
        split
        · exact .pure rfl
        · split
          · split <;> exact .pure rfl
          · exact .fail _
      · rw [heq]
        exact .pure rfl
  | _ => exact unit

end Parsers

namespace Session

variable {σ : Type} {peer : Peer σ} {parse : ParseResponse}

/-- The calls on a session, besides that which takes the unsolicited responses. -/
inductive Call (peer : Peer σ) (parse : ParseResponse) :
    {α : Type} → Exec (Session σ) Fault α → Prop
  | completes {op : Exec (Session σ) Fault Value} {c : Command}
      {read : Exec (Connection σ) Fault (Bytes × Nat)} :
      Completes peer parse op c read → Call peer parse op
  | idle {α : Type} {use : Exec (Handle σ) Fault α} :
      Program (Handle.Call peer parse) caught use → Call peer parse (idling peer parse use)
  | runCommand (text : Str) : Call peer parse (onConn (Connection.runCommand peer text))
  | run (text : Str) : Call peer parse (onConn (Connection.run peer parse text))
  | skipTag : Call peer parse (onConn Connection.skipTag)
  | debug (debug : Bool) : Call peer parse (onConn fun conn => (.ok (), { conn with debug }))
  | greetingRead (greetingRead : Bool) :
      Call peer parse (onConn fun conn => (.ok (), { conn with greetingRead }))

section Related

variable {I : Connection σ → Connection σ → Prop} {K : Queue → Queue → Prop}

theorem Completes.related (same : Connection.Indistinct peer I) (hK : Pushes K)
    {op : Exec (Session σ) Fault Value} {c : Command}
    {read : Exec (Connection σ) Fault (Bytes × Nat)} (h : Completes peer parse op c read) :
    Simulates (Related I K) Eq op op := by
  cases h with
  | command hop =>
      by_cases hlogout : c = .logout
      · subst hlogout
        cases hop
        exact (logout_related same parse).map _
      · rw [execute_eq peer parse hop hlogout]
        exact operation_related same parse c (c.finish_related hK parse)
  | append cmd =>
      refine (finish_related same parse cmd fun lines => ?_).map _
      unfold parseAppend forResponses1
      split
      · exact .fail _
      · exact forResponses_related (appendStep_related hK) _ lines

theorem Call.related (same : Connection.Indistinct peer I) (hK : Pushes K) {α : Type}
    {x : Exec (Session σ) Fault α} (h : Call peer parse x) :
    Simulates (Related I K) Eq x x := by
  cases h with
  | completes hop => exact hop.related same hK
  | idle huse => exact idling_related same huse
  | runCommand text => exact onConn_related (same.runCommand text)
  | run text => exact onConn_related (same.run parse text)
  | skipTag => exact onConn_related same.skipTag
  | debug debug => exact onConn_related (.update (fun c d => same.withDebug c d debug) _)
  | greetingRead greetingRead =>
      exact onConn_related (.update (fun c d => same.withGreeting c d greetingRead) _)

end Related

section Completing

variable {op : Exec (Session σ) Fault Value} {c : Command}
variable {read : Exec (Connection σ) Fault (Bytes × Nat)}

/-- The parser of an answer does not touch the connection. -/
theorem Completes.conn (h : Completes peer parse op c read) (s : Session σ) :
    (op s).2.conn = (read s.conn).2 := by
  by_cases hlogout : c = .logout
  · subst hlogout
    cases h with
    | command hop =>
        cases hop
        rw [Exec.map_apply, logout]
        cases hread : Connection.command peer parse .logout s.conn with
        | mk r conn =>
            cases r with
            | ok answer =>
                rw [checkOk, untagged, operation_ok hread]
                rfl
            | error fault =>
                rw [checkOk_error hread]
                cases fault with
                | err e => cases e <;> rfl
                | panic | running => rfl
  · cases hread : read s.conn with
    | mk r conn =>
        cases r with
        | ok answer => rw [h.apply_ok hlogout hread]
        | error fault => rw [h.apply_error hlogout hread]

/-- An operation fails as the reading of its answer does, but for the `BYE` of a `LOGOUT`. -/
theorem Completes.error (h : Completes peer parse op c read) {s : Session σ} {fault : Fault}
    (hfault : (read s.conn).1 = .error fault)
    (hbye : ∀ information code, fault ≠ .err (.bye information code)) :
    (op s).1 = .error fault := by
  have hread : read s.conn = (.error fault, (read s.conn).2) := Prod.ext hfault rfl
  by_cases hlogout : c = .logout
  · subst hlogout
    cases h with
    | command hop =>
        cases hop
        rw [Exec.map_apply, logout, checkOk_error hread]
        cases fault with
        | err e => cases e <;> first | rfl | exact absurd rfl (hbye _ _)
        | panic | running => rfl
  · rw [h.apply_error hlogout hread]

end Completing

/-- `take_all_unsolicited` -/
def takeAllUnsolicited : Exec (Session σ) Fault Queue := onQueue fun queue => (.ok queue, [])

/-- A session whose queue is a log: it only grows, and what has been taken is recorded, one
call after the other. -/
structure Logged (σ : Type) where
  session : Session σ
  taken : List Queue

namespace Logged

/-- The log. -/
def log (l : Logged σ) : Queue := l.session.unsolicitedResponses

/-- Everything that was logged since the last call. -/
def take : Exec (Logged σ) Fault Queue := fun l =>
  let fresh := l.log.drop l.taken.flatten.length
  (.ok fresh, { l with taken := l.taken ++ [fresh] })

def onSession {α : Type} (x : Exec (Session σ) Fault α) : Exec (Logged σ) Fault α :=
  Exec.on session (fun session l => { l with session }) x

/-- The operations of a session and those of a session with a log. -/
inductive Counterpart (peer : Peer σ) (parse : ParseResponse) :
    {α : Type} → Exec (Session σ) Fault α → Exec (Logged σ) Fault α → Prop
  | call {α : Type} {x : Exec (Session σ) Fault α} :
      Call peer parse x → Counterpart peer parse x (onSession x)
  | take : Counterpart peer parse takeAllUnsolicited take

/-- The session has the part of the log that was not taken. -/
def Holds (s : Session σ) (l : Logged σ) : Prop :=
  s.conn = l.session.conn ∧ l.log = l.taken.flatten ++ s.unsolicitedResponses

theorem Counterpart.simulates {α : Type} {x : Exec (Session σ) Fault α}
    {y : Exec (Logged σ) Fault α} (h : Counterpart peer parse x y) : Simulates Holds Eq x y := by
  intro s l hsl
  cases h with
  | call hcall =>
      have pushes : Pushes fun q q' => q' = l.taken.flatten ++ q := by
        intro u q q' hq
        rw [hq, List.append_assoc]
      exact hcall.related (.refl peer) pushes s l.session hsl
  | take =>
      refine ⟨.ok ?_, hsl.1, ?_⟩
      · rw [hsl.2, List.drop_left]
      · change l.log = (l.taken ++ [l.log.drop l.taken.flatten.length]).flatten ++ []
        rw [hsl.2, List.drop_left]
        simp

/-- What is taken is what is new in the log, whatever else is done in between; and together
with what is left in the queue it is the whole log, each response once and in order. -/
theorem refines {α : Type} {x : Exec (Session σ) Fault α} {y : Exec (Logged σ) Fault α}
    (h : Paired (Counterpart peer parse) caught x y) (s : Session σ) :
    (x s).1 = (y ⟨s, []⟩).1 ∧ (x s).2.conn = (y ⟨s, []⟩).2.session.conn ∧
      (y ⟨s, []⟩).2.log = (y ⟨s, []⟩).2.taken.flatten ++ (x s).2.unsolicitedResponses := by
  have start : Holds s ⟨s, []⟩ := ⟨rfl, rfl⟩
  obtain ⟨hagree, hconn, hlog⟩ := h.simulates Counterpart.simulates s ⟨s, []⟩ start
  exact ⟨hagree.eq, hconn, hlog⟩

/-- Every program has a counterpart with a log, and they come to the same. -/
theorem exactly_once {α : Type} {x : Exec (Session σ) Fault α}
    (h : Program (fun x => ∃ y, Counterpart peer parse x y) caught x) :
    (∃ y, Paired (Counterpart peer parse) caught x y) ∧
      ∀ y, Paired (Counterpart peer parse) caught x y → ∀ s : Session σ,
        (x s).1 = (y ⟨s, []⟩).1 ∧ (x s).2.conn = (y ⟨s, []⟩).2.session.conn ∧
        (y ⟨s, []⟩).2.log = (y ⟨s, []⟩).2.taken.flatten ++ (x s).2.unsolicitedResponses :=
  ⟨h.exists_paired fun hop => hop, fun _ hy s => refines hy s⟩

/-- A command whose answer reports an expunged message, and then the responses are taken. -/
def noopAndTake : Exec (Session Unit) Fault Queue :=
  ((fun _ => Value.unit) <$> noop expunging expungeParse) >>= fun _ => takeAllUnsolicited

def takeTwice : Exec (Session Unit) Fault Queue := noopAndTake >>= fun _ => noopAndTake

theorem takeTwice_program :
    Program (fun x => ∃ y, Counterpart expunging expungeParse x y) caught takeTwice := by
  have once : Program (fun x => ∃ y, Counterpart expunging expungeParse x y) caught noopAndTake :=
    .bind (.op ⟨_, .call (.completes (.command (c := .noop) rfl))⟩) fun _ => .op ⟨_, .take⟩
  exact .bind once fun _ => once

theorem exactly_once_takeTwice :
    (∃ y, Paired (Counterpart expunging expungeParse) caught takeTwice y) ∧
      ∀ y, Paired (Counterpart expunging expungeParse) caught takeTwice y →
        ∀ s : Session Unit, (takeTwice s).1 = (y ⟨s, []⟩).1 ∧
          (takeTwice s).2.conn = (y ⟨s, []⟩).2.session.conn ∧
          (y ⟨s, []⟩).2.log =
            (y ⟨s, []⟩).2.taken.flatten ++ (takeTwice s).2.unsolicitedResponses :=
  exactly_once takeTwice_program

end Logged

end Session

end RustImap
