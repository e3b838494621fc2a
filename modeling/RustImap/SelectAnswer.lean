import RustImap.Framing
import RustImap.MailboxSorting

/-!
What `parse_mailbox` makes of the answer to a `SELECT`.

It gives up at the first response that is not one of its own, and for an untagged status
other than `OK` it does not give up but panics. What it goes through it queues, or enters in
the mailbox if the mailbox has a place for it.
-/

namespace RustImap

open UnsolicitedResponse (tryFrom)

section Fold

variable {A : Type} {step : A → Response → Collect A}

/-- A fold that fails has a first response at which it does. -/
theorem foldlM_error {rs : List Response} {a : A} {q q' : Queue} {e : Fault}
    (h : rs.foldlM step a q = (.error e, q')) :
    ∃ pre bad post a1 q1, rs = pre ++ bad :: post ∧ pre.foldlM step a q = (.ok a1, q1) ∧
      step a1 bad q1 = (.error e, q') := by
  induction rs generalizing a q with
  | nil => cases h
  | cons r rs ih =>
      rw [List.foldlM_cons] at h
      cases hstep : step a r q with
      | mk result q1 =>
          cases result with
          | error e' =>
              rw [Exec.bind_error hstep] at h
              cases h
              exact ⟨[], r, rs, a, q, rfl, rfl, hstep⟩
          | ok a1 =>
              rw [Exec.bind_ok hstep] at h
              obtain ⟨pre, bad, post, a2, q2, rfl, hpre, hbad⟩ := ih h
              refine ⟨r :: pre, bad, post, a2, q2, rfl, ?_, hbad⟩
              rw [List.foldlM_cons, Exec.bind_ok hstep, hpre]

variable {intake : Intake A}

/-- A response at which a fold fails is one the parser gives up on, the first of them. -/
theorem Intake.Follows.foldlM_error (h : intake.Follows step) {rs : List Response} {a : A}
    {q q' : Queue} {e : Fault} (hfold : rs.foldlM step a q = (.error e, q')) :
    ∃ pre bad post a1 q1, GivesUp intake.action rs pre bad post ∧
      step a1 bad q1 = (.error e, q') := by
  obtain ⟨pre, bad, post, a1, q1, rfl, hpre, hbad⟩ := RustImap.foldlM_error hfold
  refine ⟨pre, bad, post, a1, q1, ⟨rfl, fun r hr hfail => ?_, ?_⟩, hbad⟩
  · obtain ⟨pre', bad', post', hup⟩ := exists_givesUp ⟨r, hr, hfail⟩
    obtain ⟨e', he'⟩ := (h.sorts a pre).stops pre' bad' post' hup q
    cases he'.symm.trans hpre
  · cases haction : intake.action bad with
    | fail => rfl
    | take => cases (h.take a1 bad q1 haction).symm.trans hbad
    | queue =>
        obtain ⟨u, hu⟩ := Option.ne_none_iff_exists'.mp (intake.accepts bad haction)
        cases (h.queue a1 bad q1 u haction hu).symm.trans hbad

end Fold

variable {parse : ParseResponse} {lines : Bytes} {rs : List Response} {tag : Str}
variable {code : Option ResponseCode} {information : Option Str}

/-- On whole responses the loop of `parse_mailbox` is a fold. -/
theorem parseMailbox_fold (hrs : ∀ r ∈ rs, r.isDone = false)
    (h : parse.Splits lines (rs ++ [Response.done tag .ok code information])) :
    parseMailbox parse lines =
      (rs ++ [Response.done tag .ok code information]).foldlM (fun m r => mailboxStep m r [])
        .empty := by
  rw [parseMailbox, forResponses1, if_neg (lines_ne_nil h)]
  exact Intake.forResponses_last mailboxStep_rest h hrs .empty

def isStatus : Response → Bool
  | .data _ _ _ => true
  | _ => false

/-- The result is a value or an error: the program has not aborted. -/
def Orderly {α : Type} (result : Except Fault α) : Prop :=
  ∀ fault, result = .error fault → ∃ e, fault = .err e

/-- How `parse_mailbox` gives up. -/
theorem mailboxStep_fail {r : Response} (hr : mailboxAction r = .fail) (hdone : r.isDone = false)
    (m : Mailbox) (q : Queue) :
    mailboxStep m r [] q =
      (.error (if isStatus r then .panic else .err (.unexpected r)), q) := by
  cases r with
  | data status code information => cases status <;> first | (cases hr; done) | rfl
  | done tag status code information => cases hdone
  | mailboxData datum => cases datum <;> cases hr
  | expunge n => cases hr
  | _ => rfl

theorem parseMailbox_orderly (hrs : ∀ r ∈ rs, r.isDone = false)
    (h : parse.Splits lines (rs ++ [Response.done tag .ok code information])) (q : Queue) :
    Orderly (parseMailbox parse lines q).1 ↔
      ∀ pre bad post, GivesUp mailboxAction rs pre bad post → isStatus bad = false := by
  rw [parseMailbox_fold hrs h]
  constructor
  · rintro orderly pre bad post ⟨rfl, hpre, hbad⟩
    have notDone := hrs bad (by simp)
    have passed := (Intake.follows_mailbox.sorts .empty pre).passes hpre q
    rw [List.append_assoc, List.foldlM_append, Exec.bind_ok passed, List.cons_append,
      List.foldlM_cons, Exec.bind_error (mailboxStep_fail hbad notDone _ _)] at orderly
    cases hstatus : isStatus bad with
    | false => rfl
    | true =>
        rw [hstatus, if_pos rfl] at orderly
        obtain ⟨e, he⟩ := orderly .panic rfl
        cases he
  · intro hfirst fault hfault
    obtain ⟨pre, bad, post, m, q1, ⟨heq, hpre, hbad⟩, hstep⟩ :=
      Intake.follows_mailbox.foldlM_error (Prod.ext hfault rfl)
    rcases List.eq_nil_or_concat post with rfl | ⟨post, last, rfl⟩
    · obtain ⟨-, hlast⟩ := List.append_inj' heq rfl
      rw [← List.singleton_injective hlast] at hbad
      cases hbad
    · rw [List.concat_eq_append, ← List.cons_append, ← List.append_assoc] at heq
      obtain ⟨rfl, -⟩ := List.append_inj' heq rfl
      rw [mailboxStep_fail hbad (hrs bad (by simp)), hfirst pre bad post ⟨rfl, hpre, hbad⟩] at hstep
      cases hstep
      exact ⟨_, rfl⟩

variable {σ : Type} {peer : Peer σ}

/-- The answer that `run` returns makes `parse_mailbox` panic exactly if the first response
it gives up on is an untagged status. -/
theorem select_orderly (hp : parse.Framed LF) {text : Str} {ok : Nat}
    {conn conn' : Connection σ}
    (hrun : Connection.run peer parse text conn = (.ok (lines, ok), conn')) :
    ∃ rs, parse.Splits (lines.take ok) rs ∧ ∀ q,
      (Orderly (parseMailbox parse lines q).1 ↔
        ∀ pre bad post, GivesUp mailboxAction rs pre bad post → isStatus bad = false) := by
  obtain ⟨_, sent, -, hread⟩ := Exec.bind_eq_ok.mp hrun
  obtain ⟨-, ⟨rs, hsplits, hrs⟩, code, information, hd⟩ :=
    Connection.readResponse_reparses hp sent lines ok conn' hread
  have whole := hp.splits_snoc hsplits hd
  rw [List.take_append_drop] at whole
  exact ⟨rs, hsplits, parseMailbox_orderly hrs whole⟩

def selectMessages : List (Bytes × Response) :=
  [(utf8 "* 1 EXISTS\r\n".toList, .mailboxData (.exists_ 1)),
    (utf8 "* NO slow\r\n".toList, .data .no none (some "slow".toList)),
    (utf8 "* VANISHED (EARLIER) 7\r\n".toList, .vanished true [(7, 7)]),
    (utf8 "a1 OK\r\n".toList, .done "a1".toList .ok none none)]

def selectParse : ParseResponse := Parser.table selectMessages (by decide)

theorem selectParse_framed : selectParse.Framed LF :=
  Parser.table_framed _ (by decide) (by decide)

/-- A server that says something before it agrees. -/
def selected (untagged : Str) : Peer Unit := fun _ _ =>
  ((), ReadEvent.chunk (utf8 (untagged ++ "a1 OK\r\n".toList)))

/-- The answer to a `SELECT` of the inbox. -/
def selectAnswer (untagged : Str) : Except Fault (Bytes × Nat) × Connection Unit :=
  Connection.run (selected untagged) selectParse "SELECT \"INBOX\"".toList
    (Connection.reading [] false)

theorem selectAnswer_eq {untagged : Str} {result : Except Fault (Bytes × Nat)}
    (h : (selectAnswer untagged).1 = result) :
    Connection.run (selected untagged) selectParse "SELECT \"INBOX\"".toList
      (Connection.reading [] false) = (result, (selectAnswer untagged).2) :=
  Prod.ext h rfl

theorem select_orderly_exists :
    ∃ rs, selectParse.Splits ((utf8 "* 1 EXISTS\r\na1 OK\r\n".toList).take 12) rs ∧ ∀ q,
      (Orderly (parseMailbox selectParse (utf8 "* 1 EXISTS\r\na1 OK\r\n".toList) q).1 ↔
        ∀ pre bad post, GivesUp mailboxAction rs pre bad post → isStatus bad = false) := by
  have hrun : (selectAnswer "* 1 EXISTS\r\n".toList).1 =
      .ok (utf8 "* 1 EXISTS\r\na1 OK\r\n".toList, 12) := by decide +kernel
  exact select_orderly selectParse_framed (selectAnswer_eq hrun)

/-- A warning before the `OK` makes the program abort. -/
theorem select_orderly_fails :
    ¬ ∀ (peer : Peer Unit) (parse : ParseResponse) (text : Str) (lines : Bytes) (ok : Nat)
      (conn conn' : Connection Unit), parse.Framed LF →
      Connection.run peer parse text conn = (.ok (lines, ok), conn') →
      ∀ q, Orderly (parseMailbox parse lines q).1 := by
  intro holds
  have hrun : (selectAnswer "* NO slow\r\n".toList).1 =
      .ok (utf8 "* NO slow\r\na1 OK\r\n".toList, 11) := by decide +kernel
  have orderly := holds _ _ _ _ _ _ _ selectParse_framed (selectAnswer_eq hrun) []
  have panics : (parseMailbox selectParse (utf8 "* NO slow\r\na1 OK\r\n".toList) []).1 =
      .error .panic := by decide
  obtain ⟨e, he⟩ := orderly _ panics
  cases he

/-- `parse_mailbox` has gone through the responses and lost none of them: the mailbox holds
what a response says, or the response is on the queue. -/
def KeepsAll (parse : ParseResponse) (lines : Bytes) (rs : List Response) (q : Queue) : Prop :=
  ∃ m q', parseMailbox parse lines q = (.ok m, q') ∧ Kept (Value.mailbox m).Shows rs q q'

theorem parseMailbox_sorts (hrs : ∀ r ∈ rs, r.isDone = false)
    (h : parse.Splits lines (rs ++ [Response.done tag .ok code information])) :
    Intake.mailbox.Sorts .empty (fun m => .ok (m.withResponse (.done tag .ok code information))) rs
      (parseMailbox parse lines) := by
  rw [parseMailbox, forResponses1, if_neg (lines_ne_nil h)]
  exact (Intake.follows_mailbox.loop_last mailboxStep_rest h hrs .empty).last rfl

/-- Of accepted responses none is lost exactly if none makes `parse_mailbox` give up, the
mailbox has a place for each, and no two of them say different things about one item. -/
theorem select_keepsAll
    (h : parse.Splits lines (rs ++ [Response.done tag .ok code information]))
    (hrs : ∀ r ∈ rs, tryFrom r ≠ none) (q : Queue) :
    KeepsAll parse lines rs q ↔
      (∀ r ∈ rs, mailboxAction r ≠ .fail ∧ hasPlace r = true) ∧
        Consistent (rs.flatMap selectItems) := by
  have notDone : ∀ r ∈ rs, r.isDone = false := by
    intro r hr
    obtain ⟨u, hu⟩ := Option.ne_none_iff_exists'.mp (hrs r hr)
    exact UnsolicitedResponse.notDone_tryFrom hu
  have sorts := parseMailbox_sorts notDone h
  have taken := Intake.mailbox_taken rs .empty
  have shown := Value.mailbox_shows_all rs tag code information
  constructor
  · rintro ⟨m, q', hparse, hkept⟩
    obtain ⟨hpass, hm, rfl⟩ := sorts.of_ok hparse
    rw [taken] at hm
    cases hm
    have showing := (Intake.mailbox.kept_passes _ rs q).mp hkept
    obtain ⟨hitems, hplace⟩ := shown.mp fun r hr haccepted htake =>
      showing r hr haccepted (by simp [Intake.mailbox, htake])
    exact ⟨fun r hr => ⟨hpass r hr, hplace r hr⟩, hitems⟩
  · rintro ⟨hall, hitems⟩
    have value := sorts.passes (fun r hr => (hall r hr).1) q
    rw [taken] at value
    have showing := shown.mpr ⟨hitems, fun r hr => (hall r hr).2⟩
    refine ⟨_, _, value, (Intake.mailbox.kept_passes _ rs q).mpr fun r hr haccepted hqueue => ?_⟩
    cases haction : mailboxAction r with
    | fail => exact absurd haction (hall r hr).1
    | queue => exact absurd haction hqueue
    | take => exact showing r hr haccepted haction

theorem selectParse_splits {c : Bytes} {r : Response} (h : selectParse.Accepts c r) :
    selectParse.Splits (c ++ utf8 "a1 OK\r\n".toList) [r, .done "a1".toList .ok none none] := by
  have agreed : selectParse.run (utf8 "a1 OK\r\n".toList) =
      .ok [] (.done "a1".toList .ok none none) := by decide
  exact selectParse_framed.splits_append h (.cons agreed .nil)

theorem select_keepsAll_exists :
    KeepsAll selectParse (utf8 "* 1 EXISTS\r\na1 OK\r\n".toList)
      [.mailboxData (.exists_ 1)] [] := by
  have accepts : selectParse.Accepts (utf8 "* 1 EXISTS\r\n".toList) (.mailboxData (.exists_ 1)) :=
    show selectParse.run (utf8 "* 1 EXISTS\r\n".toList) = _ by decide
  have splits : selectParse.Splits (utf8 "* 1 EXISTS\r\na1 OK\r\n".toList)
      ([.mailboxData (.exists_ 1)] ++ [.done "a1".toList .ok none none]) :=
    selectParse_splits accepts
  refine (select_keepsAll splits (by decide) []).mpr ⟨by decide, ?_⟩
  simp [selectItems, Consistent, StatusAttribute.sameItem]

/-- An update that a server sends under `QRESYNC` turns a `SELECT` that went well into an
error. -/
theorem select_keepsAll_fails :
    ¬ ∀ (parse : ParseResponse) (lines : Bytes) (rs : List Response) (tag : Str)
      (code : Option ResponseCode) (information : Option Str),
      parse.Splits lines (rs ++ [.done tag .ok code information]) →
      (∀ r ∈ rs, tryFrom r ≠ none) → ∀ q, KeepsAll parse lines rs q := by
  intro holds
  have accepts : selectParse.Accepts (utf8 "* VANISHED (EARLIER) 7\r\n".toList)
      (.vanished true [(7, 7)]) :=
    show selectParse.run (utf8 "* VANISHED (EARLIER) 7\r\n".toList) = _ by decide
  obtain ⟨m, q', hparse, -⟩ := holds selectParse _ [.vanished true [(7, 7)]] _ _ _
    (selectParse_splits accepts) (by decide) []
  have refused : (parseMailbox selectParse
      (utf8 "* VANISHED (EARLIER) 7\r\n".toList ++ utf8 "a1 OK\r\n".toList) []).1.isOk = false := by
    decide
  rw [hparse] at refused
  cases refused

end RustImap
