import RustImap.Classification
import RustImap.Dialogue
import RustImap.Panics

/-!
A session carries out its dialogue.

The bytes a session can read spell what is in the inbox of a dialogue, and its peer answers a
command with a spelling of what the server answers. Both stay so whatever commands are run, and
every command comes to the same in both, but for the bytes an error quotes.
-/

namespace RustImap

open Exec (Simulates Paired Program relabel)

variable {σ τ : Type}

/-- The peer takes its bytes as a stream, and answers the line of a command the server
understands with a spelling of what the server answers. -/
structure Peer.Speaks (peer : Peer σ) (parse : ParseResponse) (serve : Server τ)
    (understands : Str → Prop) (B : σ → σ → Prop) (C : σ → τ → Prop) : Prop where
  streams : peer.Streams B
  same : ∀ p q t, B p q → C q t → C p t
  next : ∀ p t tag text, understands text → C p t →
    C (peer p (utf8 (matchTag tag ++ ' ' :: text) ++ [CR, LF])).1 (serve t tag text).1
  answer : ∀ p t tag text, understands text → C p t →
    Spells parse ((peer p (utf8 (matchTag tag ++ ' ' :: text) ++ [CR, LF])).2.flatMap
      ReadEvent.events) (serve t tag text).2

namespace Connection

variable {peer : Peer σ} {B : σ → σ → Prop} {c : Connection σ}

/-- A literal is handed on as a whole, in whatever pieces. -/
theorem writeLiteral_gives (hpeer : peer.Streams B) (hrel : c.stream.Reliable)
    (hwbuf : c.stream.wbuf = []) (content : Bytes) :
    ∃ stream, writeLiteral peer content c = (.ok (), { c with stream }) ∧
      stream.Reliable ∧ stream.wbuf = [] ∧
      stream.Level B (c.stream.give peer (content ++ [CR, LF])) := by
  obtain ⟨ok1, rel1⟩ := BufStream.writeAll_reliable peer hrel content
  have level1 := BufStream.handedOn_writeAll hpeer hrel content
  generalize hs1 : (BufStream.writeAll peer content c.stream).2 = s1 at rel1 level1
  obtain ⟨ok2, rel2⟩ := BufStream.writeAll_reliable peer rel1 [CR, LF]
  have level2 := BufStream.handedOn_writeAll hpeer rel1 [CR, LF]
  generalize hs2 : (BufStream.writeAll peer [CR, LF] s1).2 = s2 at rel2 level2
  obtain ⟨ok3, rel3⟩ := BufStream.flush_reliable peer rel2
  obtain ⟨level3, empty⟩ := BufStream.flush_handsOn hpeer rel2
  refine ⟨_, ?_, rel3, empty, ?_⟩
  · have write1 : io (BufStream.writeAll peer content) c = (.ok (), { c with stream := s1 }) := by
      rw [io_ok ok1, hs1]
    have write2 : io (BufStream.writeAll peer [CR, LF]) { c with stream := s1 } =
        (.ok (), { c with stream := s2 }) := by
      rw [io_ok ok2, hs2]
    have write3 : io (BufStream.flush peer) { c with stream := s2 } =
        (.ok (), { c with stream := (s2.flush peer).2 }) :=
      io_ok ok3
    rw [writeLiteral, Exec.bind_ok write1, Exec.bind_ok write2, write3]
  · have trans {s t u : BufStream σ} (h : s.Level B t) (h' : t.Level B u) : s.Level B u :=
      h.trans hpeer.equivalence h'
    have start : c.stream.handedOn peer = c.stream := by
      rw [BufStream.handedOn, hwbuf, BufStream.give_nil]
    rw [start] at level1
    have both := level1.give hpeer.recuts [CR, LF]
    exact trans level3 (trans level2 (trans both (BufStream.give_append hpeer _ _ _)))

/-- A command goes out as one line. -/
theorem runCommand_gives (hpeer : peer.Streams B) (hrel : c.stream.Reliable)
    (hwbuf : c.stream.wbuf = []) (text : Str) :
    ∃ stream, runCommand peer text c = (.ok (), { c with stream, tag := c.tag + 1 }) ∧
      stream.Reliable ∧ stream.wbuf = [] ∧
      stream.Level B (c.stream.give peer (c.commandLine text)) := by
  obtain ⟨stream, hwrite, rest⟩ := writeLiteral_gives (c := { c with tag := c.tag + 1 }) hpeer
    hrel hwbuf (utf8 (matchTag (c.tag + 1) ++ ' ' :: text))
  refine ⟨stream, ?_, rest⟩
  rw [runCommand, Exec.bind_ok (createCommand_apply text c), Exec.of_apply,
    writeLine_eq peer (isUtf8_utf8 _), hwrite]

end Connection

variable {peer : Peer σ} {parse : ParseResponse} {serve : Server τ} {understands : Str → Prop}
variable {B : σ → σ → Prop} {C : σ → τ → Prop}

/-- The session is where the dialogue is. Nothing is printed, no write fails and none is under
way. -/
structure Session.Carries (parse : ParseResponse) (C : σ → τ → Prop) (s : Session σ)
    (d : Dialogue τ) : Prop where
  server : C s.conn.stream.inner.peer d.server
  inbox : Spells parse s.conn.input d.inbox
  tag : s.conn.tag = d.tag
  queue : s.unsolicitedResponses = d.unsolicitedResponses
  silent : s.conn.Silent
  reliable : s.conn.stream.Reliable
  flushed : s.conn.stream.wbuf = []

namespace Session.Carries

variable {s : Session σ} {d : Dialogue τ}

/-- The answer to a command joins the inbox. -/
theorem say (hpeer : peer.Speaks parse serve understands B C) (h : s.Carries parse C d)
    {text : Str} (htext : understands text) :
    ∃ conn, Connection.runCommand peer text s.conn = (.ok (), conn) ∧
      Session.Carries parse C ⟨conn, s.unsolicitedResponses⟩ (Dialogue.say serve text d).2 := by
  obtain ⟨stream, hrun, hrel, hempty, level⟩ :=
    Connection.runCommand_gives hpeer.streams h.reliable h.flushed text
  refine ⟨_, hrun, ?_⟩
  have hne : s.conn.commandLine text ≠ [] := by simp [Connection.commandLine]
  have hline : s.conn.commandLine text =
      utf8 (matchTag (d.tag + 1) ++ ' ' :: text) ++ [CR, LF] := by
    rw [← h.tag]
    rfl
  have hpeer' := level.peer
  have hinput := level.input
  rw [BufStream.give_ne hne] at hpeer'
  rw [BufStream.give_input hne] at hinput
  rw [hline] at hpeer' hinput
  refine ⟨?_, ?_, congrArg (· + 1) h.tag, h.queue, h.silent, hrel, hempty⟩
  · exact hpeer.same _ _ _ hpeer' (hpeer.next _ _ _ _ htext h.server)
  · change Spells parse stream.input _
    rw [hinput]
    exact h.inbox.append (hpeer.answer _ _ _ _ htext h.server)

/-- What is read is the answer in the inbox. -/
theorem listen (hp : parse.Framed LF) (h : s.Carries parse C d) :
    ∃ us u conn, Reads parse s.conn.input d.inbox us u ∧
      Connection.readResponse parse s.conn =
        (Connection.answerResult s.conn.tag [] us u, conn) ∧
      Session.Carries parse C ⟨conn, s.unsolicitedResponses⟩
        { d with inbox := (answerOf d.inbox).2.2 } := by
  obtain ⟨us, u, hrun, reads⟩ := h.inbox.reads hp h.silent.printable
  obtain ⟨us', u', conn, hrun', hread, hrest, hon⟩ := Connection.readResponse_answer parse s.conn
  obtain ⟨rfl, rfl⟩ := hrun.unique hrun'
  refine ⟨us, u, conn, reads, hread, ?_⟩
  refine ⟨?_, ?_, hon.tag.trans h.tag, h.queue, hon.debug.trans h.silent, ?_,
    hon.wbuf.trans h.flushed⟩
  · rw [hon.peer]
    exact h.server
  · rw [hrest]
    exact reads.rest
  · intro e he
    rw [hon.writes] at he
    exact h.reliable e he

end Session.Carries

/-- An answer that is no success fails as the verdict says. -/
theorem Ends.error {u : UnitRead UInt8 ErrorKind Response} {ending : Ending} {tag : UInt32}
    {e : Error} (h : Ends parse u ending) (hv : ending.verdict tag = .error e)
    (us : List (Bytes × Response)) :
    (Connection.answerResult tag [] us u).mapError Fault.blank = .error (.err e) := by
  cases h with
  | lost | failed =>
      cases hv
      rfl
  | @done c doneTag status code information rest hc =>
      by_cases htag : doneTag = matchTag tag
      · cases status with
        | ok => simp [Ending.verdict, htag] at hv
        | _ =>
            simp only [Ending.verdict, htag, ne_eq, not_true_eq_false, if_false] at hv
            cases hv
            rw [htag, Connection.answerResult_status rfl]
            rfl
      · simp only [Ending.verdict, ne_eq, htag, not_false_eq_true, if_true] at hv
        cases hv
        rw [Connection.answerResult_mismatch rfl htag]
        rfl

theorem Ends.ok {u : UnitRead UInt8 ErrorKind Response} {ending : Ending} {tag : UInt32}
    {done : Response} (h : Ends parse u ending) (hv : ending.verdict tag = .ok done)
    (us : List (Bytes × Response)) :
    Connection.answerResult tag [] us u = .ok (textOf us u, (us.map Prod.fst).flatten.length) ∧
      ∃ code information, done = .done (matchTag tag) .ok code information ∧
        parse.Accepts u.text done := by
  cases h with
  | lost | failed => cases hv
  | @done c doneTag status code information rest hc =>
      by_cases htag : doneTag = matchTag tag
      · subst htag
        cases status with
        | ok =>
            simp only [Ending.verdict, ne_eq, not_true_eq_false, if_false] at hv
            cases hv
            refine ⟨?_, code, information, rfl, hc⟩
            rw [Connection.answerResult_status rfl]
            rfl
        | _ => simp [Ending.verdict] at hv
      · simp [Ending.verdict, htag] at hv

section Commands

variable {s : Session σ} {d : Dialogue τ}

theorem Dialogue.command_said {c : Command} {text : Str} (htext : c.text = .ok (some text))
    (d : Dialogue τ) :
    command serve c d =
      (listen >>= fun r => onQueue (c.conclude r.1 (some r.2))) (say serve text d).2 := by
  rw [command, htext]
  rfl

theorem Dialogue.listen_error {e : Error}
    (hv : (answerOf d.inbox).2.1.verdict d.tag = .error e) :
    listen d = (.error (.err e), { d with inbox := (answerOf d.inbox).2.2 }) := by
  simp only [listen, hv]
  rfl

theorem Dialogue.listen_ok {done : Response}
    (hv : (answerOf d.inbox).2.1.verdict d.tag = .ok done) :
    listen d =
      (.ok ((answerOf d.inbox).1, done), { d with inbox := (answerOf d.inbox).2.2 }) := by
  simp only [listen, hv]
  rfl

/-- A command that is not sent still has a result. -/
theorem Command.finish_unsent (c : Command) (h : c.text = .ok none) :
    c.finish parse [] 0 = c.conclude [] none := by
  have line_ne : ∀ cmd args, line cmd args ≠ .ok none := by
    intro cmd args hline
    obtain ⟨vs, -, hvs⟩ := bind_ok hline
    cases hvs
  cases c with
  | select | examine => exact absurd h (line_ne _ _)
  | append | getMetadata => exact absurd h (asserts_text rfl)
  | _ => rfl

theorem Fault.blank_blank (fault : Fault) : fault.blank.blank = fault.blank := by
  cases fault with
  | err e =>
      cases e with
      | parse e => cases e <;> rfl
      | _ => rfl
  | panic | running => rfl

/-- What a parser does with the queue it does with the queue of the dialogue. -/
theorem Session.Carries.parsed (h : s.Carries parse C d) {x y : Collect Value}
    (hxy : relabel Fault.blank x = relabel Fault.blank y) :
    ((x s.unsolicitedResponses).1.mapError Fault.blank =
        (y d.unsolicitedResponses).1.mapError Fault.blank) ∧
      Session.Carries parse C ⟨s.conn, (x s.unsolicitedResponses).2⟩
        { d with unsolicitedResponses := (y d.unsolicitedResponses).2 } := by
  have both : relabel Fault.blank x s.unsolicitedResponses =
      relabel Fault.blank y d.unsolicitedResponses := by
    rw [hxy, h.queue]
  have hresult := congrArg Prod.fst both
  have hqueue := congrArg Prod.snd both
  exact ⟨hresult, h.server, h.inbox, h.tag, hqueue, h.silent, h.reliable, h.flushed⟩

/-- A command comes to the same, whatever its answer is. -/
theorem Session.operation_carries (hp : parse.Framed LF)
    (hpeer : peer.Speaks parse serve understands B C) {c : Command}
    (hc : ∀ text, c.text = .ok (some text) → understands text) :
    Simulates (Session.Carries parse C) Eq
      (relabel Fault.blank (operation peer parse c (c.finish parse)))
      (relabel Fault.blank (Dialogue.command serve c)) := by
  intro s d h
  have same {r r' : Except Fault Value} (heq : r = r') : Exec.Agree Eq r r' := by
    rw [heq]
    exact .refl r'
  unfold relabel
  cases htext : c.text with
  | error e =>
      have rejected : Connection.command peer parse c s.conn = (.error (.err e), s.conn) := by
        exact Connection.command_failed (Connection.send_rejected htext s.conn)
      have refused : Dialogue.command serve c d = (.error (.err e), d) := by
        rw [Dialogue.command, htext]
        rfl
      rw [operation_error rejected, refused]
      exact ⟨same rfl, h⟩
  | ok sent =>
      cases sent with
      | none =>
          have unsent : Connection.command peer parse c s.conn = (.ok ([], 0), s.conn) := by
            rw [Connection.command, Exec.bind_ok (Connection.send_none htext s.conn)]
            rfl
          have empty : Dialogue.command serve c d =
              Dialogue.onQueue (c.conclude [] none) d := by
            rw [Dialogue.command, htext]
            rfl
          have unread : relabel Fault.blank (c.finish parse [] 0) =
              relabel Fault.blank (c.conclude [] none) :=
            congrArg _ (c.finish_unsent htext)
          obtain ⟨hresult, hstate⟩ := h.parsed unread
          rw [operation_ok unsent, empty]
          exact ⟨same hresult, hstate⟩
      | some text =>
          obtain ⟨conn1, hrun, h1⟩ := h.say hpeer (hc text htext)
          obtain ⟨us, u, conn2, reads, hread, h2⟩ := h1.listen hp
          have answered : Connection.command peer parse c s.conn =
              (Connection.answerResult conn1.tag [] us u, conn2) := by
            rw [Connection.command_run htext, Connection.run, Exec.bind_ok hrun, hread]
          rw [Dialogue.command_said htext]
          generalize hsaid : (Dialogue.say serve text d).2 = said at *
          have htag : conn1.tag = said.tag := h1.tag
          cases hv : (answerOf said.inbox).2.1.verdict said.tag with
          | error e =>
              have failed := reads.ends.error hv us
              rw [← htag] at failed
              rw [Exec.bind_error (Dialogue.listen_error hv)]
              cases hresult : Connection.answerResult conn1.tag [] us u with
              | ok answer =>
                  rw [hresult] at failed
                  cases failed
              | error fault =>
                  rw [hresult] at answered failed
                  rw [operation_error answered]
                  have blank := Except.error.inj failed
                  refine ⟨same ?_, h2⟩
                  change Except.error fault.blank = Except.error (Fault.err e).blank
                  rw [← blank, Fault.blank_blank]
          | ok done =>
              obtain ⟨hresult, code, information, rfl, hd⟩ := reads.ends.ok hv us
              rw [← htag] at hresult
              rw [hresult] at answered
              rw [operation_ok answered, Exec.bind_ok (Dialogue.listen_ok hv)]
              have concluded := c.finish_concludes hp reads.texts reads.untagged hd
              obtain ⟨hvalue, hstate⟩ := h2.parsed concluded
              exact ⟨same hvalue, hstate⟩

theorem takeBye_simulates {α S T : Type} {I : S → T → Prop} (v : α) (r : Except Fault α) :
    Exec.Simulates I Eq (takeBye v r : Exec S Fault α) (takeBye v r : Exec T Fault α) := by
  cases r with
  | ok v => exact .result _
  | error fault =>
      cases fault with
      | err e => cases e <;> exact .result _
      | panic | running => exact .result _

theorem Session.logout_eq : relabel Fault.blank ((fun _ => .unit) <$> logout peer parse) =
    Exec.next (relabel Fault.blank (operation peer parse .logout (Command.finish parse .logout)))
      (takeBye .unit) := by
  have asked : operation peer parse .logout (Command.finish parse .logout) =
      (fun _ => .unit) <$> checkOk peer parse .logout := by
    rw [checkOk, untagged, map_operation]
    rfl
  funext s
  rw [asked]
  simp only [relabel, Exec.next, Exec.map_apply, logout]
  cases checkOk peer parse .logout s with
  | mk r s' =>
      cases r with
      | ok u => rfl
      | error fault =>
          cases fault with
          | err e =>
              cases e with
              | parse e => cases e <;> rfl
              | _ => rfl
          | panic | running => rfl

theorem Dialogue.logout_eq : relabel Fault.blank (logout serve) =
    Exec.next (relabel Fault.blank (command serve .logout)) (takeBye .unit) := by
  funext d
  simp only [relabel, Exec.next, logout]
  cases command serve .logout d with
  | mk r d' =>
      cases r with
      | ok v => rfl
      | error fault =>
          cases fault with
          | err e =>
              cases e with
              | parse e => cases e <;> rfl
              | _ => rfl
          | panic | running => rfl

/-- The calls on a session, and what they are in its dialogue. A caller does not see which bytes
an error quotes. -/
inductive Session.Conducts (peer : Peer σ) (parse : ParseResponse) (serve : Server τ)
    (understands : Str → Prop) : {α : Type} → Exec (Session σ) Fault α →
    Exec (Dialogue τ) Fault α → Prop
  | execute {c : Command} {op : Exec (Session σ) Fault Value} :
      execute peer parse c = some op → (∀ text, c.text = .ok (some text) → understands text) →
      Conducts peer parse serve understands (relabel Fault.blank op)
        (relabel Fault.blank (Dialogue.execute serve c))
  | runCommand {text : Str} : understands text →
      Conducts peer parse serve understands (onConn (Connection.runCommand peer text))
        (Dialogue.say serve text)
  | skipTag : Conducts peer parse serve understands (onConn Connection.skipTag) Dialogue.skipTag
  | takeAllUnsolicited :
      Conducts peer parse serve understands takeAllUnsolicited Dialogue.takeAllUnsolicited

theorem Session.Conducts.simulates (hp : parse.Framed LF)
    (hpeer : peer.Speaks parse serve understands B C) {α : Type} {x : Exec (Session σ) Fault α}
    {y : Exec (Dialogue τ) Fault α} (h : Conducts peer parse serve understands x y) :
    Simulates (Carries parse C) Eq x y := by
  cases h with
  | @execute c op hop hc =>
      have core := operation_carries hp hpeer hc
      by_cases hlogout : c = .logout
      · subst hlogout
        cases hop
        rw [Dialogue.execute, if_pos rfl, logout_eq, Dialogue.logout_eq]
        refine core.next fun r r' hr => ?_
        rw [hr.eq]
        exact takeBye_simulates _ r'
      · rw [execute_eq peer parse hop hlogout, Dialogue.execute, if_neg hlogout]
        exact core
  | runCommand htext =>
      intro s d hs
      obtain ⟨conn, hrun, hconn⟩ := hs.say hpeer htext
      simp only [onConn, Exec.on, hrun]
      exact ⟨.refl _, hconn⟩
  | skipTag =>
      exact fun s d hs => ⟨.refl _, hs.server, hs.inbox, congrArg (· + 1) hs.tag, hs.queue,
        hs.silent, hs.reliable, hs.flushed⟩
  | takeAllUnsolicited =>
      intro s d hs
      refine ⟨?_, hs.server, hs.inbox, hs.tag, rfl, hs.silent, hs.reliable, hs.flushed⟩
      change Exec.Agree Eq (Except.ok s.unsolicitedResponses) (Except.ok d.unsolicitedResponses)
      rw [hs.queue]
      exact .ok rfl

/-- A session comes to what its dialogue comes to, whatever bytes the responses are spelled in. -/
theorem Session.dialogue (hp : parse.Framed LF)
    (hpeer : peer.Speaks parse serve understands B C) {α : Type} {x : Exec (Session σ) Fault α}
    (h : Program (fun x => ∃ y, Conducts peer parse serve understands x y) caught x)
    (hs : Carries parse C s d) :
    (∃ y, Paired (Conducts peer parse serve understands) caught x y) ∧
      ∀ y, Paired (Conducts peer parse serve understands) caught x y →
        (x s).1 = (y d).1 ∧ Carries parse C (x s).2 (y d).2 := by
  refine ⟨h.exists_paired fun hop => hop, fun y hy => ?_⟩
  obtain ⟨hagree, hstate⟩ := hy.simulates (fun hop => hop.simulates hp hpeer) s d hs
  exact ⟨hagree.eq, hstate⟩

end Commands

namespace Session

/-- A server that reports an expunged message, and then that the first command is done. -/
def expungeServer : Server Unit := fun _ _ _ =>
  ((), [.response (.expunge 1), .response (.done "a1".toList .ok none (some "done".toList))])

theorem feed_answering {bs : Bytes} (h : LF ∉ bs) :
    feed answering () (bs ++ [LF]) = ((), ReadEvent.chunk (expungeLine ++ firstDone)) := by
  induction bs with
  | nil => rfl
  | cons b bs ih =>
      have hb : b ≠ LF := fun heq => h (heq ▸ List.mem_cons_self)
      have later := ih fun hmem => h (List.mem_cons_of_mem b hmem)
      simp only [List.cons_append, feed, answering, if_neg hb, List.nil_append]
      exact Prod.ext rfl (congrArg Prod.snd later)

theorem answering_speaks : Peer.Speaks (feed answering) expungeParse expungeServer
    (fun text => '\n' ∉ text) Eq (fun _ _ => True) where
  streams := feed_streams answering
  same _ _ _ _ h := h
  next _ _ _ _ _ _ := trivial
  answer p t tag text htext _ := by
    have whole : LF ∉ utf8 (matchTag tag ++ ' ' :: text) ++ [CR] := by
      have hline : '\n' ∉ matchTag tag ++ ' ' :: text := by
        have htag := Connection.not_mem_matchTag (c := '\n') (by decide) (by decide) tag
        rw [List.mem_append, List.mem_cons]
        rintro (hmem | heq | hmem)
        · exact htag hmem
        · cases heq
        · exact htext hmem
      have hbytes : LF ∉ utf8 (matchTag tag ++ ' ' :: text) := by
        rw [mem_utf8_ascii (b := LF) (by decide) (a := '\n') (by decide)]
        exact hline
      rw [List.mem_append, List.mem_singleton]
      rintro (hmem | heq)
      · exact hbytes hmem
      · cases heq
    have answer := feed_answering whole
    rw [List.append_assoc] at answer
    change Spells expungeParse ((feed answering () (_ ++ [CR, LF])).2.flatMap _) _
    rw [show [CR, LF] = [CR] ++ [LF] from rfl, answer, ReadEvent.events_chunk, List.map_append,
      ← List.append_nil (firstDone.map Event.item)]
    have expunged : expungeParse.Accepts expungeLine (.expunge 1) :=
      show expungeParse.run expungeLine = _ by decide
    have done : expungeParse.Accepts firstDone
        (.done "a1".toList .ok none (some "done".toList)) :=
      show expungeParse.run firstDone = _ by decide
    exact .response expunged (.response done .nil)

def expungeAndTake : Exec (Session Unit) Fault Queue :=
  relabel Fault.blank ((fun _ => Value.unit) <$> noop (feed answering) expungeParse) >>=
    fun _ => takeAllUnsolicited

theorem expungeAndTake_program : Program
    (fun x => ∃ y, Conducts (feed answering) expungeParse expungeServer (fun text => '\n' ∉ text)
      x y) caught expungeAndTake := by
  have understood : ∀ text, Command.text .noop = .ok (some text) → '\n' ∉ text := by
    intro text htext
    cases htext
    decide
  exact .bind (.op ⟨_, .execute (c := .noop) rfl understood⟩) fun _ =>
    .op ⟨_, .takeAllUnsolicited⟩

theorem handingSession_carries :
    Carries expungeParse (fun _ _ => True) (handingSession [3, 0, 1])
      (⟨(), [], INITIAL_TAG, []⟩ : Dialogue Unit) :=
  ⟨trivial, .nil, rfl, rfl, rfl, handingSession_reliable [3, 0, 1], rfl⟩

theorem dialogue_expungeAndTake :
    (∃ y, Paired (Conducts (feed answering) expungeParse expungeServer fun text => '\n' ∉ text)
        caught expungeAndTake y) ∧
      ∀ y, Paired (Conducts (feed answering) expungeParse expungeServer fun text => '\n' ∉ text)
        caught expungeAndTake y →
        (expungeAndTake (handingSession [3, 0, 1])).1 = (y ⟨(), [], INITIAL_TAG, []⟩).1 ∧
          Carries expungeParse (fun _ _ => True) (expungeAndTake (handingSession [3, 0, 1])).2
            (y ⟨(), [], INITIAL_TAG, []⟩).2 :=
  dialogue expungeParse_framed answering_speaks expungeAndTake_program handingSession_carries

end Session

end RustImap
