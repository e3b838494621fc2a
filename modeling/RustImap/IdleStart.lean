import RustImap.Append
import RustImap.IdleDiscipline

/-!
When the start of an `IDLE` understands the server.

The client looks for the confirmation in the first line only. After another line it reads
an answer up to a tagged response, to which a confirmation means nothing; and it takes for
granted that this response is not an `OK`.
-/

namespace RustImap

variable {σ : Type} {peer : Peer σ} {parse : ParseResponse}

open AppendServer (Untagged Tagged Continuation)

/-- What a server ends its answer to `IDLE` with. -/
inductive IdleReply where
  | confirmed (plus : Bytes)
  | refused (done : Bytes) (status : Status)

namespace IdleReply

def text : IdleReply → Bytes
  | .confirmed plus => plus
  | .refused done _ => done

def WellFormed (parse : ParseResponse) (tag : UInt32) : IdleReply → Prop
  | .confirmed plus => Continuation plus
  | .refused done status => Tagged parse tag done status

/-- The client has understood the reply when this is what `init` comes to. -/
def Understood (more : List InEvent) : IdleReply → Except Fault Unit × Handle σ → Prop
  | .confirmed _, (result, h) => result = .ok () ∧ h.conn.input = more
  | .refused _ _, (result, _) => ∃ e, result = .error (.err e)

/-- The confirmation comes first, or a tagged response that is not an `OK`. -/
def Expected (untagged : List Bytes) : IdleReply → Prop
  | .confirmed _ => untagged = []
  | .refused _ status => status ≠ .ok

end IdleReply

variable (parse) in
theorem UnitRun.of_result {conn : Connection σ} {line : Bytes} {failed : Option ErrorKind}
    {rest : List InEvent} (h : takeLine LF conn.input = (line, failed, rest)) {e : Fault}
    (hresult : conn.lineResult [] line failed = .error e) :
    ∃ u, UnitRun parse LF conn.printable [] conn.input u ∧ (∀ r, u.stop ≠ .unit r) ∧
      u.rest = rest ∧ Connection.answerResult conn.tag [] [] u = .error e := by
  cases failed with
  | some k =>
      cases hresult
      exact ⟨_, .failed h, by simp, rfl, rfl⟩
  | none =>
      simp only [Connection.lineResult] at hresult
      split at hresult
      · rename_i hline
        cases hresult
        rw [hline] at h
        exact ⟨_, .lost h, by simp, rfl, rfl⟩
      · rename_i hline
        split at hresult <;> cases hresult
        rename_i hprint
        exact ⟨_, .refused h hline (by simpa using hprint), by simp, rfl, rfl⟩

namespace Handle

variable (peer parse) in
/-- An `IDLE` that is not confirmed at once: the client reads an answer. -/
theorem init_answer {h : Handle σ} {conn : Connection σ}
    (hsend : Connection.runCommand peer "IDLE".toList h.conn = (.ok (), conn))
    {line : Bytes} {failed : Option ErrorKind} {rest : List InEvent}
    (htake : takeLine LF conn.input = (line, failed, rest)) (hplus : line.head? ≠ some PLUS) :
    ∃ us u conn', AnswerRun parse LF conn.printable Response.isDone [] conn.input us u ∧
      conn'.input = u.rest ∧ init peer parse h =
        (.error (unconfirmed (Connection.answerResult conn.tag [] us u)), h.withConn conn') := by
  have hrest := (Connection.readline_eq htake []).2
  rcases init_line parse hsend htake with
    ⟨e, hresult, hinit⟩ | ⟨rfl, hline, hprint, ⟨h1, -⟩ | ⟨-, hinit⟩⟩
  · obtain ⟨u, hunit, hstop, hu, hanswer⟩ := UnitRun.of_result parse htake hresult
    refine ⟨[], u, conn.nextLine, .last hunit fun r hr => absurd hr (hstop r), ?_, ?_⟩
    · rw [hrest, hu]
    · rw [hinit, hanswer, unconfirmed]
  · exact absurd h1 hplus
  obtain ⟨us, u, conn', hrun, hanswer, hin, -⟩ :=
    Connection.readResponseOnto_answer parse line conn.nextLine
  rw [hrest] at hrun
  refine ⟨us, u, conn', .of_line htake hline hprint hrun, hin, ?_⟩
  rw [hinit, hanswer]
  rfl

variable (peer parse) in
theorem init_confirmed {h : Handle σ} {conn : Connection σ}
    (hsend : Connection.runCommand peer "IDLE".toList h.conn = (.ok (), conn))
    {line : Bytes} {rest : List InEvent} (htake : takeLine LF conn.input = (line, none, rest))
    (hplus : line.head? = some PLUS) :
    (∃ h', init peer parse h = (.ok (), h') ∧ h'.conn.input = rest) ∧
        conn.printable line = true ∨
      (∃ e, (init peer parse h).1 = .error e) ∧ conn.printable line = false := by
  have hrest := (Connection.readline_eq htake []).2
  have hline : line ≠ [] := by
    rintro rfl
    cases hplus
  rcases init_line parse hsend htake with
    ⟨e, hresult, hinit⟩ | ⟨-, -, hprint, ⟨-, hinit⟩ | ⟨h1, -⟩⟩
  · refine .inr ⟨⟨e, by rw [hinit]⟩, ?_⟩
    cases hprint : conn.printable line with
    | false => rfl
    | true => simp [Connection.lineResult, hline, hprint] at hresult
  · exact .inl ⟨⟨_, hinit, hrest⟩, hprint⟩
  · exact absurd hplus h1

/-- The text of an answer ends a line, and begins like its first part. -/
theorem answer_text (hp : parse.Framed LF) {untagged : List Bytes}
    (huntagged : ∀ c ∈ untagged, Untagged parse c) {reply : IdleReply} {tag : UInt32}
    (hreply : reply.WellFormed parse tag) :
    (untagged.flatten ++ reply.text).getLast? = some LF ∧
      ((untagged.flatten ++ reply.text).head? = some PLUS ↔
        untagged = [] ∧ ∃ plus, reply = .confirmed plus) := by
  have hlast : reply.text ≠ [] ∧ reply.text.getLast? = some LF := by
    cases reply with
    | confirmed plus =>
        refine ⟨?_, hreply.2.1⟩
        rintro rfl
        cases hreply.1
    | refused done status =>
        obtain ⟨-, code, information, hd⟩ := hreply
        exact ⟨hd.ne_nil, hp.getLast? hd⟩
  refine ⟨by rw [List.getLast?_append_of_ne_nil _ hlast.1, hlast.2], ?_⟩
  cases untagged with
  | nil =>
      cases reply with
      | confirmed plus => exact ⟨fun _ => ⟨rfl, plus, rfl⟩, fun _ => hreply.1⟩
      | refused done status =>
          obtain ⟨⟨rest, rfl⟩, -⟩ := hreply
          refine ⟨nofun, ?_⟩
          rintro ⟨-, plus, h⟩
          cases h
  | cons c cs =>
      obtain ⟨hstar, r, hc, -⟩ := huntagged c List.mem_cons_self
      have hhead : ((c :: cs).flatten ++ reply.text).head? = some STAR := by
        rw [List.flatten_cons, List.append_assoc, List.head?_append_of_ne_nil _ hc.ne_nil, hstar]
      rw [hhead]
      exact ⟨nofun, fun h => nomatch h.1⟩

theorem refused_result {tag : UInt32} {us : List (Bytes × Response)} {done : Bytes}
    {status : Status} {code : Option ResponseCode} {information : Option Str}
    {more : List InEvent} :
    (∃ e, unconfirmed (Connection.answerResult tag [] us
        ⟨done, .unit (.done (matchTag tag) status code information), more⟩) = .err e) ↔
      status ≠ .ok := by
  cases status <;> simp [Connection.answerResult, breakWith, leave, unconfirmed]

/-- The start of an `IDLE` understands the server exactly if the confirmation is the first
thing that comes, or a tagged response comes that is not an `OK`. -/
theorem init_understood_iff (hp : parse.Framed LF) {h : Handle σ} {conn : Connection σ}
    (hsend : Connection.runCommand peer "IDLE".toList h.conn = (.ok (), conn))
    {untagged : List Bytes} (huntagged : ∀ c ∈ untagged, Untagged parse c) {reply : IdleReply}
    (hreply : reply.WellFormed parse conn.tag) {more : List InEvent}
    (hin : conn.input = (untagged.flatten ++ reply.text).map .item ++ more) :
    reply.Understood more (init peer parse h) ↔
      reply.Expected untagged ∧
        ∀ line ∈ linesOf LF (untagged.flatten ++ reply.text), conn.printable line = true := by
  obtain ⟨hlast, hhead⟩ := answer_text hp huntagged hreply
  have hne : untagged.flatten ++ reply.text ≠ [] := by
    intro h
    rw [h] at hlast
    cases hlast
  obtain ⟨line, rest, hline, htext, -, hlines, htake⟩ := takeLine_append hne hlast more
  rw [← hin] at htake
  have same_head : line.head? = (untagged.flatten ++ reply.text).head? := by
    rw [htext, List.head?_append_of_ne_nil _ hline]
  rw [← same_head] at hhead
  by_cases hplus : line.head? = some PLUS
  · obtain ⟨rfl, plus, rfl⟩ := hhead.mp hplus
    obtain ⟨-, -, hone⟩ := hreply
    change linesOf LF plus = _ at hlines
    obtain ⟨rfl, hnone⟩ := List.cons_eq_cons.mp (hone.symm.trans hlines)
    obtain rfl : rest = [] := List.self_eq_append_right.mp htext
    change _ ↔ _ ∧ ∀ l ∈ linesOf LF plus, conn.printable l = true
    rw [hone, List.forall_mem_singleton]
    rcases init_confirmed peer parse hsend htake hplus with
      ⟨⟨h', hinit, hrest⟩, hprint⟩ | ⟨⟨e, hinit⟩, hprint⟩
    · rw [hinit]
      exact iff_of_true ⟨rfl, hrest⟩ ⟨rfl, hprint⟩
    · refine iff_of_false (fun honest => ?_) (fun h => ?_)
      · cases honest.1.symm.trans hinit
      · cases h.2.symm.trans hprint
  obtain ⟨us, u, conn', hrun, -, hinit⟩ := init_answer peer parse hsend htake hplus
  rw [hinit]
  cases reply with
  | confirmed plus =>
      refine iff_of_false (fun honest => nomatch honest.1) fun h => hplus (hhead.mpr ?_)
      exact ⟨h.1, plus, rfl⟩
  | refused done status =>
      obtain ⟨-, code, information, hd⟩ := hreply
      obtain ⟨rs, hrs, hnot⟩ := Parser.accepts_each.mp fun c hc => (huntagged c hc).2
      change (∃ e, _ = _) ↔ status ≠ .ok ∧ ∀ line ∈ linesOf LF (untagged.flatten ++ done), _
      rcases hrun.takes hp hrs hd hnot rfl hin with hrefused | ⟨rfl, rfl⟩
      · refine iff_of_false ?_ ?_
        · rintro ⟨e, he⟩
          rw [Connection.answerResult, hrefused] at he
          cases he
        · rintro ⟨-, hprint⟩
          have read := AnswerRun.of_accepts hp hrs hd hnot rfl hprint more
          rw [show conn.input = _ from hin] at hrun
          obtain ⟨-, rfl⟩ := hrun.unique read
          cases hrefused
      · have hprint : ∀ line ∈ linesOf LF (untagged.flatten ++ done),
            conn.printable line = true := by
          refine hrun.guarded hp (.inl rfl) rfl _ ?_
          rw [List.nil_append, textOf, List.map_fst_zip (Nat.le_of_eq hrs.length_eq)]
        simp only [Except.error.injEq, refused_result]
        exact ⟨fun h => ⟨h, hprint⟩, fun h => h.1⟩

/-- A server that answers every command with `OK`. -/
def agreeing : Peer Unit := fun _ _ => ((), ReadEvent.chunk (utf8 "a1 OK\r\n".toList))

/-- The connection when the server has been sent an `IDLE`. -/
def idleSent (peer : Peer Unit) : Connection Unit :=
  (Connection.runCommand peer "IDLE".toList Session.idleSession.conn).2

theorem idleSent_eq {peer : Peer Unit}
    (h : (Connection.runCommand peer "IDLE".toList Session.idleSession.conn).1 = .ok ()) :
    Connection.runCommand peer "IDLE".toList (make Session.idleSession).conn =
      (.ok (), idleSent peer) :=
  Prod.ext h rfl

theorem init_understood_reporting :
    (IdleReply.confirmed (utf8 "+ idling\r\n".toList)).Understood
      ((utf8 "* 1 EXISTS\r\n".toList).map .item)
      (init Session.reporting Session.idleParse (make Session.idleSession)) := by
  have hnone : ∀ c ∈ ([] : List Bytes), Untagged Session.idleParse c := by simp
  have hreply : (IdleReply.confirmed (utf8 "+ idling\r\n".toList)).WellFormed Session.idleParse
      (idleSent Session.reporting).tag :=
    ⟨by decide, by decide, by decide⟩
  have hin : (idleSent Session.reporting).input =
      ([].flatten ++ (IdleReply.confirmed (utf8 "+ idling\r\n".toList)).text).map .item ++
        (utf8 "* 1 EXISTS\r\n".toList).map .item := by decide
  exact (init_understood_iff Session.idleParse_framed (idleSent_eq (by decide)) hnone hreply
    hin).mpr
    ⟨rfl, by decide⟩

/-- An `OK` to the `IDLE` itself is taken for impossible. -/
theorem init_understood_fails :
    ¬ ∀ (peer : Peer Unit) (parse : ParseResponse) (h : Handle Unit) (conn : Connection Unit)
      (untagged : List Bytes) (reply : IdleReply) (more : List InEvent), parse.Framed LF →
      Connection.runCommand peer "IDLE".toList h.conn = (.ok (), conn) →
      (∀ c ∈ untagged, Untagged parse c) → reply.WellFormed parse conn.tag →
      conn.input = (untagged.flatten ++ reply.text).map .item ++ more →
      reply.Understood more (init peer parse h) := by
  intro holds
  have hreply : (IdleReply.refused (utf8 "a1 OK\r\n".toList) .ok).WellFormed Session.idleParse
      (idleSent agreeing).tag :=
    ⟨⟨utf8 " OK\r\n".toList, by decide⟩, none, none,
      show Session.idleParse.run (utf8 "a1 OK\r\n".toList) = _ by decide⟩
  have hin : (idleSent agreeing).input =
      ([].flatten ++ (IdleReply.refused (utf8 "a1 OK\r\n".toList) .ok).text).map .item ++ [] := by
    decide
  obtain ⟨e, he⟩ := holds agreeing Session.idleParse _ _ [] _ [] Session.idleParse_framed
    (idleSent_eq (by decide)) (by simp) hreply hin
  have panics : (init agreeing Session.idleParse (make Session.idleSession)).1 =
      .error .panic := by decide
  cases panics.symm.trans he

end Handle

end RustImap
