import RustImap.MailboxSorting

/-!
When an operation loses no response the server sends with its answer.

An answer that is not an `OK` is dropped as a whole, and so is the answer to a command
that only wants an `OK`. Otherwise it is the parser that decides.
-/

namespace RustImap

open UnsolicitedResponse (tryFrom)

section Finish

variable {parse : ParseResponse}

/-- The parser of every command does what is said about the command. -/
theorem Command.finish_sorts (hp : parse.Framed LF) (c : Command) {cs : List Bytes}
    {rs : List Response} {d : Bytes} {tag : Str} {code : Option ResponseCode}
    {information : Option Str} (hcs : List.Forall₂ parse.Accepts cs rs)
    (hrs : ∀ r ∈ rs, r.isDone = false)
    (hd : parse.Accepts d (.done tag .ok code information)) :
    c.SortsLike rs (c.finish parse (cs.flatten ++ d) cs.flatten.length) := by
  have untagged : parse.Splits ((cs.flatten ++ d).take cs.flatten.length) rs := by
    rw [List.take_left]
    exact hp.splits_flatten hcs
  have whole : parse.Splits (cs.flatten ++ d) (rs ++ [.done tag .ok code information]) := by
    have all := hp.splits_flatten (List.rel_append hcs (.cons hd .nil))
    simpa only [List.flatten_append, List.flatten_cons, List.flatten_nil, List.append_nil] using all
  cases c with
  | select | examine => exact select_sorts rfl Iff.rfl hrs whole
  | fetch | uidFetch | store | uidStore => exact fetches_sorts rfl trivial untagged
  | noop => exact noop_sorts untagged
  | capability => exact capabilities_sorts untagged
  | expunge | uidExpunge => exact expunge_sorts rfl Iff.rfl whole
  | append mailbox flags date length => exact append_sorts mailbox flags date length whole
  | list | lsub => exact names_sorts rfl trivial untagged
  | status mailboxName dataItems => exact status_sorts mailboxName dataItems untagged
  | search query =>
      rw [finish, parseIdSet, Exec.map_eq_bind, Exec.map_eq_bind, Exec.bind_assoc]
      exact ids_sorts (c := .search query) (f := fun ids => .idSet ids.toFinset) rfl trivial
        untagged
  | uidSearch query =>
      rw [finish, parseIdSet, Exec.map_eq_bind, Exec.map_eq_bind, Exec.bind_assoc]
      exact ids_sorts (c := .uidSearch query) (f := fun ids => .idSet ids.toFinset) rfl trivial
        untagged
  | sort criteria charset query =>
      exact ids_sorts (c := .sort criteria charset query) (f := .idSeq) rfl trivial untagged
  | uidSort criteria charset query =>
      exact ids_sorts (c := .uidSort criteria charset query) (f := .idSeq) rfl trivial untagged
  | getAcl m => exact acl_sorts m untagged
  | listRights m i => exact listRights_sorts m i untagged
  | myRights m => exact myRights_sorts m untagged
  | setQuota | getQuota => exact quota_sorts rfl trivial untagged
  | getQuotaRoot m => exact quotaRoot_sorts m untagged
  | listStatus referenceName mailboxPattern dataItems =>
      exact listStatus_sorts referenceName mailboxPattern dataItems untagged
  | getMetadata mailbox entries depth maxsize =>
      exact metadata_sorts mailbox entries depth maxsize _ untagged
  | _ => exact discard_sorts (fun _ => rfl) Iff.rfl

end Finish

variable {σ : Type} {peer : Peer σ} {parse : ParseResponse}

namespace Connection

/-- The server has sent the untagged responses `rs` as `cs`, then `d`, which ends the answer
to the current command with `status`. -/
structure Answered (parse : ParseResponse) (conn : Connection σ) (cs : List Bytes)
    (rs : List Response) (d : Bytes) (status : Status) : Prop where
  untagged : List.Forall₂ parse.Accepts cs rs
  notDone : ∀ r ∈ rs, r.isDone = false
  tagged : ∃ code information,
    parse.Accepts d (.done (matchTag conn.tag) status code information)
  input : ∃ more, conn.input = (cs.flatten ++ d).map .item ++ more

variable {conn : Connection σ} {cs : List Bytes} {rs : List Response} {d : Bytes}
variable {status : Status}

theorem Answered.read_ok (h : Answered parse conn cs rs d .ok) (hp : parse.Framed LF)
    (hlines : ∀ line ∈ linesOf LF (cs.flatten ++ d), conn.printable line = true) :
    ∃ conn', readResponse parse conn = (.ok (cs.flatten ++ d, cs.flatten.length), conn') := by
  obtain ⟨more, hin⟩ := h.input
  have answer : OkAnswer parse conn.tag cs d := by
    exact ⟨Parser.accepts_each.mpr ⟨rs, h.untagged, h.notDone⟩, h.tagged⟩
  obtain ⟨conn', hread, -⟩ := readResponse_recognises hp answer hin hlines
  exact ⟨conn', hread⟩

theorem Answered.read_error (h : Answered parse conn cs rs d status) (hp : parse.Framed LF)
    (hno : ¬(status = .ok ∧ ∀ line ∈ linesOf LF (cs.flatten ++ d), conn.printable line = true)) :
    ∃ e conn', readResponse parse conn = (.error e, conn') := by
  obtain ⟨more, hin⟩ := h.input
  obtain ⟨code, information, hd⟩ := h.tagged
  obtain ⟨us, u, conn', hrun, hread, -⟩ := readResponse_answer parse conn
  cases hresult : answerResult conn.tag [] us u with
  | error e => exact ⟨e, conn', by rw [hread, hresult]⟩
  | ok r =>
      obtain ⟨data, ok⟩ := r
      obtain ⟨code', information', hstop, -, -⟩ := answerResult_ok hresult
      rcases hrun.takes hp h.untagged hd h.notDone rfl hin with hrefused | ⟨rfl, rfl⟩
      · rw [hstop] at hrefused
        cases hrefused
      · cases hstop
        refine absurd ⟨rfl, ?_⟩ hno
        refine hrun.guarded hp (.inl rfl) rfl _ ?_
        rw [List.nil_append, textOf, List.map_fst_zip (Nat.le_of_eq h.untagged.length_eq)]

end Connection

namespace Session

/-- The answer `lines` is an `OK`, the debug output gets through it, and the parser of the
command loses none of the responses. -/
structure Handled (conn : Connection σ) (c : Command) (rs : List Response) (lines : Bytes)
    (status : Status) : Prop where
  ok : status = .ok
  printable : ∀ line ∈ linesOf LF lines, conn.printable line = true
  late : GivesUpLate c.action rs
  shown : (∀ r ∈ rs, c.action r ≠ .fail) → c.Shown rs

/-- Of the responses `rs` that came with its answer, the operation has lost none. -/
def NothingLost (op : Exec (Session σ) Fault Value) (s : Session σ) (rs : List Response) : Prop :=
  Kept (fun r => ∃ v, (op s).1 = .ok v ∧ v.Shows r) rs s.unsolicitedResponses
    (op s).2.unsolicitedResponses

variable {op : Exec (Session σ) Fault Value} {c : Command}
variable {read : Exec (Connection σ) Fault (Bytes × Nat)} {s : Session σ} {conn : Connection σ}

theorem Completes.apply_ok (h : Completes peer parse op c read) (hlogout : c ≠ .logout)
    {lines : Bytes} {ok : Nat} (hread : read s.conn = (.ok (lines, ok), conn)) :
    op s = ((c.finish parse lines ok s.unsolicitedResponses).1,
      ⟨conn, (c.finish parse lines ok s.unsolicitedResponses).2⟩) := by
  cases h with
  | command hop => rw [execute_eq peer parse hop hlogout, operation_ok hread]
  | append cmd =>
      have step : onConn (cmd.converse peer parse) s = (.ok (lines, ok), { s with conn }) := by
        simp only [onConn, Exec.on, hread]
      have parser : cmd.command.finish parse lines ok =
          Value.appended <$> parseAppend parse lines :=
        rfl
      rw [parser, Exec.map_apply, Exec.map_apply, AppendCmd.finish, Exec.bind_ok step]
      rfl

theorem Completes.apply_error (h : Completes peer parse op c read) (hlogout : c ≠ .logout)
    {e : Fault} (hread : read s.conn = (.error e, conn)) :
    op s = (.error e, { s with conn }) := by
  cases h with
  | command hop => rw [execute_eq peer parse hop hlogout, operation_error hread]
  | append cmd =>
      have step : onConn (cmd.converse peer parse) s = (.error e, { s with conn }) := by
        simp only [onConn, Exec.on, hread]
      rw [Exec.map_apply, AppendCmd.finish, Exec.bind_error step]
      rfl

/-- `LOGOUT` queues nothing and returns nothing. -/
theorem Completes.apply_logout (h : Completes peer parse op .logout read) (s : Session σ) :
    (op s).2.unsolicitedResponses = s.unsolicitedResponses ∧
      ∀ v, (op s).1 = .ok v → v = .unit := by
  generalize hc : Command.logout = c at h
  cases h with
  | append cmd => cases hc
  | command hop =>
      subst hc
      cases hop
      simp only [Exec.map_apply, logout, checkOk, untagged]
      cases hread : Connection.command peer parse .logout s.conn with
      | mk r conn =>
          cases r with
          | ok r =>
              rw [operation_ok hread]
              simp [Except.map, eq_comm]
          | error e =>
              rw [operation_error hread]
              cases e with
              | panic | running => simp [Except.map]
              | err e => cases e <;> simp [Except.map, eq_comm]

/-- Nothing is lost exactly if there is nothing to lose, or the answer is handled. -/
theorem Completes.nothing_lost (hp : parse.Framed LF) (hop : Completes peer parse op c read)
    (hread : read s.conn = Connection.readResponse parse conn) {cs : List Bytes}
    {rs : List Response} {d : Bytes} {status : Status}
    (h : Connection.Answered parse conn cs rs d status) :
    NothingLost op s rs ↔
      (∀ r ∈ rs, tryFrom r = none) ∨ Handled conn c rs (cs.flatten ++ d) status := by
  unfold NothingLost
  by_cases hlogout : c = .logout
  · subst hlogout
    obtain ⟨hqueue, hvalue⟩ := hop.apply_logout s
    have hunseen : ∀ r, ¬∃ v, (op s).1 = .ok v ∧ v.Shows r := by
      rintro r ⟨v, hv, hshows⟩
      rw [hvalue v hv] at hshows
      exact hshows
    rw [hqueue, kept_nothing hunseen]
    refine ⟨.inl, ?_⟩
    rintro (hnone | handled)
    · exact hnone
    · exact handled.shown fun _ _ => by simp [Command.action, Action.of, Command.takes]
  by_cases hok : status = .ok ∧ ∀ line ∈ linesOf LF (cs.flatten ++ d), conn.printable line = true
  · obtain ⟨rfl, hlines⟩ := hok
    obtain ⟨conn', hanswer⟩ := h.read_ok hp hlines
    obtain ⟨code, information, hd⟩ := h.tagged
    obtain ⟨A, intake, a, result, haction, sorts, hshown⟩ :=
      c.finish_sorts hp h.untagged h.notDone hd
    rw [hop.apply_ok hlogout (hread.trans hanswer), sorts.kept Value.Shows, haction]
    constructor
    · rintro ⟨late, shows⟩
      exact .inr ⟨rfl, hlines, late, fun hpass => (hshown hpass).mp (shows hpass)⟩
    · rintro (hnone | handled)
      · refine ⟨?_, fun _ r hr haccepted => absurd (hnone r hr) haccepted⟩
        rintro pre bad post ⟨rfl, -, -⟩
        exact ⟨fun r hr haccepted => absurd (hnone r (List.mem_append_left _ hr)) haccepted,
          fun r hr => hnone r (List.mem_append_right _ hr)⟩
      · exact ⟨handled.late, fun hpass => (hshown hpass).mpr (handled.shown hpass)⟩
  · obtain ⟨e, conn', hanswer⟩ := h.read_error hp hok
    rw [hop.apply_error hlogout (hread.trans hanswer), kept_nothing (by simp)]
    refine ⟨.inl, ?_⟩
    rintro (hnone | handled)
    · exact hnone
    · exact absurd ⟨handled.ok, handled.printable⟩ hok

theorem NothingLost.of_unit {x : Exec (Session σ) Fault Unit} {s : Session σ} {rs : List Response}
    (h : NothingLost ((fun _ => .unit) <$> x) s rs)
    (hqueue : (x s).2.unsolicitedResponses = s.unsolicitedResponses) :
    ∀ r ∈ rs, tryFrom r = none := by
  rw [NothingLost, Exec.map_apply, hqueue] at h
  refine (kept_nothing ?_ _ _).mp h
  rintro r ⟨v, hv, hshows⟩
  cases hresult : (x s).1 with
  | ok u =>
      rw [hresult] at hv
      cases hv
      exact hshows
  | error e =>
      rw [hresult] at hv
      cases hv

def expungeLine : Bytes := utf8 "* 1 EXPUNGE\r\n".toList

def firstDone : Bytes := utf8 "a1 OK done\r\n".toList

def expungeMessages : List (Bytes × Response) :=
  [(expungeLine, .expunge 1), (firstDone, .done "a1".toList .ok none (some "done".toList))]

def expungeParse : ParseResponse := Parser.table expungeMessages (by decide)

theorem expungeParse_framed : expungeParse.Framed LF :=
  Parser.table_framed _ (by decide) (by decide)

/-- A server that reports an expunged message before it says `OK`. -/
def expunging : Peer Unit := fun _ _ => ((), ReadEvent.chunk (expungeLine ++ firstDone))

def opened : Session Unit := .new (Connection.reading [] false)

/-- The connection of the session when the command has been sent. -/
def afterSending (c : Command) : Connection Unit := (Connection.send expunging c opened.conn).2

theorem expunging_answers (hc : c = .noop ∨ c = .check) :
    Connection.command expunging expungeParse c opened.conn =
      Connection.readResponse expungeParse (afterSending c) ∧
    Connection.Answered expungeParse (afterSending c) [expungeLine] [.expunge 1] firstDone .ok := by
  have sent : (Connection.send expunging c opened.conn).1 = .ok true := by
    rcases hc with rfl | rfl <;> decide
  have input : (afterSending c).input = (expungeLine ++ firstDone).map .item := by
    rcases hc with rfl | rfl <;> decide
  have tag : matchTag (afterSending c).tag = "a1".toList := by
    rcases hc with rfl | rfl <;> decide
  refine ⟨?_, .cons ?_ .nil, by simp [Response.isDone], ⟨none, some "done".toList, ?_⟩, [], ?_⟩
  · exact Exec.bind_ok (Prod.ext sent rfl)
  · exact show expungeParse.run expungeLine = _ by decide
  · rw [tag]
    exact show expungeParse.run firstDone = _ by decide
  · simpa using input

theorem Completes.nothing_lost_noop :
    NothingLost ((fun _ => .unit) <$> noop expunging expungeParse) opened [.expunge 1] := by
  obtain ⟨hread, answered⟩ := expunging_answers (c := .noop) (.inl rfl)
  refine (nothing_lost expungeParse_framed (.command rfl) hread answered).mpr
    (.inr ⟨rfl, fun line _ => rfl, ?_, fun _ => trivial⟩)
  rintro pre bad post ⟨hrs, -, hbad⟩
  have hmem : bad ∈ [Response.expunge 1] := hrs ▸ by simp
  rw [List.mem_singleton.mp hmem] at hbad
  cases hbad

/-- A `CHECK` drops what its answer brings besides the `OK`. -/
theorem Completes.nothing_lost_fails :
    ¬ ∀ (peer : Peer Unit) (parse : ParseResponse) (op : Exec (Session Unit) Fault Value)
      (c : Command) (read : Exec (Connection Unit) Fault (Bytes × Nat)) (s : Session Unit)
      (conn : Connection Unit) (cs : List Bytes) (rs : List Response) (d : Bytes)
      (status : Status), parse.Framed LF → Completes peer parse op c read →
      read s.conn = Connection.readResponse parse conn →
      Connection.Answered parse conn cs rs d status → NothingLost op s rs := by
  intro h
  obtain ⟨hread, answered⟩ := expunging_answers (c := .check) (.inr rfl)
  have kept := h _ _ _ _ _ _ _ _ _ _ _ expungeParse_framed (.command rfl) hread answered
  have nothing : tryFrom (.expunge 1) = none :=
    kept.of_unit (by decide +kernel) _ List.mem_cons_self
  cases nothing

end Session

end RustImap
