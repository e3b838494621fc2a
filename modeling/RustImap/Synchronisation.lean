import RustImap.ByteServer
import RustImap.Client
import RustImap.Injection

/-!
Commands and answers over whole runs.

The server answers every line it receives: untagged responses first, then one response
with the tag of the line. Between commands it may send untagged responses of its own.
A run is indexed by the untagged responses the client has not read yet; as long as every
command is one line, they are all that is under way when an operation starts.
-/

namespace RustImap

/-- A server and the line it has begun to receive. -/
structure LineServer (τ : Type) where
  state : τ
  pending : Bytes
  deriving DecidableEq

namespace LineServer

variable {τ : Type} (answer : τ → Bytes → τ × List ReadEvent)

def step (server : LineServer τ) (b : UInt8) : LineServer τ × List ReadEvent :=
  let line := server.pending ++ [b]
  if b = LF then ({ state := (answer server.state line).1, pending := [] },
    (answer server.state line).2)
  else ({ server with pending := line }, [])

theorem feed_line (t : τ) (pending : Bytes) {bs : Bytes} (h : LF ∉ bs) :
    feed (step answer) ⟨t, pending⟩ (bs ++ [LF]) =
      (⟨(answer t (pending ++ bs ++ [LF])).1, []⟩, (answer t (pending ++ bs ++ [LF])).2) := by
  induction bs generalizing pending with
  | nil => simp [feed, step]
  | cons b bs ih =>
      simp only [List.mem_cons, not_or] at h
      rw [List.cons_append, feed, step, if_neg (Ne.symm h.1)]
      simp only [ih (pending ++ [b]) h.2, List.append_assoc, List.singleton_append,
        List.nil_append]

end LineServer

variable {τ : Type}

/-- What a server sends for one command: untagged responses and the tagged one. -/
structure TaggedAnswer (parse : ParseResponse) (debug : Bool) (tag : UInt32)
    (us : List Bytes) (d : Bytes) (status : Status) (code : Option ResponseCode)
    (information : Option Str) : Prop where
  untagged : ∀ c ∈ us, ∃ r, parse.Accepts c r ∧ r.isDone = false
  tagged : parse.Accepts d (.done (matchTag tag) status code information)
  status : status ≠ .preAuth
  printable : debug = true → ∀ line ∈ linesOf LF (us.flatten ++ d), 2 ≤ line.length

/-- Complete untagged responses. -/
structure Emission (parse : ParseResponse) (debug : Bool) (us : List Bytes)
    (events : List ReadEvent) : Prop where
  untagged : ∀ c ∈ us, ∃ r, parse.Accepts c r ∧ r.isDone = false
  printable : debug = true → ∀ line ∈ linesOf LF us.flatten, 2 ≤ line.length
  sent : events.flatMap ReadEvent.events = us.flatten.map .item

/-- Every command line is answered, whatever the server has seen before. -/
def Answers (parse : ParseResponse) (debug : Bool)
    (answer : τ → Bytes → τ × List ReadEvent) : Prop :=
  ∀ t tag text, '\n' ∉ text → ∃ us d status code information,
    TaggedAnswer parse debug tag us d status code information ∧
    (answer t (utf8 (matchTag tag ++ ' ' :: text) ++ [CR, LF])).2.flatMap ReadEvent.events =
      (us.flatten ++ d).map .item

/-- The command is refused or is one line. -/
def Command.KeepsLine (c : Command) : Prop :=
  (∃ a ∈ c.checked, a.1.any a.2 = true) ∨ ∀ s ∈ c.raw, SingleLine s

theorem Command.KeepsLine.singleLine {c : Command} {text : Str} (h : c.KeepsLine)
    (htext : c.text = .ok (some text)) : SingleLine text := by
  refine (singleLine_text htext).mpr (h.resolve_left fun hbad => ?_)
  obtain ⟨e, herr⟩ := (fails_text c).mpr hbad
  rw [htext] at herr
  cases herr

namespace Connection

variable (parse : ParseResponse) (answer : τ → Bytes → τ × List ReadEvent)

/-- The operations that send a command and read its answer, and the connections they
leave. -/
inductive Operates (c : Command) : Connection (LineServer τ) → Connection (LineServer τ) → Prop
  | operation {α : Type} (finish : Bytes → Nat → Collect α) (queue : Queue)
      (conn : Connection (LineServer τ)) :
      Operates c conn
        (Session.operation (feed (LineServer.step answer)) parse c finish ⟨conn, queue⟩).2.conn
  | login {username password : Str} (conn : Connection (LineServer τ)) :
      c = .login username password →
      Operates c conn
        (Client.login (feed (LineServer.step answer)) parse username password conn).2
  | capabilities (conn : Connection (LineServer τ)) : c = .capability →
      Operates c conn (Client.capabilities (feed (LineServer.step answer)) parse conn).2

/-- The server goes over to `state` and sends something of its own. -/
def emitted (state : τ) (events : List ReadEvent) (conn : Connection (LineServer τ)) :
    Connection (LineServer τ) :=
  { conn with
    stream := { conn.stream with
      inner := { conn.stream.inner with
        peer := { conn.stream.inner.peer with state }
        incoming := conn.stream.inner.incoming ++ events } } }

/-- Nothing is under way but the untagged responses `pend`. -/
structure InStep (debug : Bool) (pend : List Bytes) (conn : Connection (LineServer τ)) :
    Prop where
  reliable : conn.stream.Reliable
  empty : conn.stream.wbuf = []
  received : conn.stream.inner.peer.pending = []
  greetingRead : conn.greetingRead = true
  untagged : ∀ c ∈ pend, ∃ r, parse.Accepts c r ∧ r.isDone = false
  printable : debug = true → ∀ line ∈ linesOf LF pend.flatten, 2 ≤ line.length
  input : conn.input = pend.flatten.map .item
  debug : conn.debug = debug

/-- Any sequence of operations whose commands satisfy `ok`, and of things the server
sends in between. The index counts what it has sent since its last tagged response. -/
inductive Run (debug : Bool) (ok : Command → Prop) :
    List Bytes → Connection (LineServer τ) → Prop
  | start {conn : Connection (LineServer τ)} : InStep parse debug [] conn → Run debug ok [] conn
  | emit {pend us : List Bytes} {conn : Connection (LineServer τ)} {events : List ReadEvent}
      (state : τ) : Run debug ok pend conn → Emission parse debug us events →
      Run debug ok (pend ++ us) (conn.emitted state events)
  | sending {pend : List Bytes} {conn conn' : Connection (LineServer τ)} {c : Command}
      {text : Str} : Run debug ok pend conn → ok c → c.text = .ok (some text) →
      Operates parse answer c conn conn' → Run debug ok [] conn'
  | idle {pend : List Bytes} {conn conn' : Connection (LineServer τ)} {c : Command} :
      Run debug ok pend conn → ok c → (∀ text, c.text ≠ .ok (some text)) →
      Operates parse answer c conn conn' → Run debug ok pend conn'

/-- What reading an answer returns, by its status. -/
def outcome (before d : Bytes) (code : Option ResponseCode) (information : Option Str) :
    Status → Except Fault (Bytes × Nat)
  | .ok => .ok (before ++ d, before.length)
  | .no => .error (.err (.no (information.getD noExplanation) code))
  | .bad => .error (.err (.bad (information.getD noExplanation) code))
  | .bye => .error (.err (.bye (information.getD noExplanation) code))
  | .preAuth => .error (.err (.parse (.invalid (before ++ d))))

/-- The operation has read the answer to its own command, after what was under way, and
nothing else: the server got its line, and nothing of the answer is left. -/
structure ReadsOwnAnswer (debug : Bool) (pend : List Bytes) (text : Str)
    (conn : Connection (LineServer τ)) (result : Except Fault (Bytes × Nat))
    (conn' : Connection (LineServer τ)) : Prop where
  tag : conn'.tag = conn.tag + 1
  sent : conn'.stream.inner.sent = conn.stream.inner.sent ++ conn.commandLine text
  answered : ∃ us d status code information,
    TaggedAnswer parse debug (conn.tag + 1) us d status code information ∧
    (answer conn.stream.inner.peer.state (conn.commandLine text)).2.flatMap ReadEvent.events =
      (us.flatten ++ d).map .item ∧
    result = outcome (pend ++ us).flatten d code information status
  consumed : conn'.input = []

/-- How an operation that keeps the ends in step ends. -/
def Synchronised (debug : Bool) (pend : List Bytes) (conn : Connection (LineServer τ))
    (c : Command) : Prop :=
  match c.text with
  | .error e => command (feed (LineServer.step answer)) parse c conn = (.error (.err e), conn)
  | .ok none => command (feed (LineServer.step answer)) parse c conn = (.ok ([], 0), conn)
  | .ok (some text) =>
      ReadsOwnAnswer parse answer debug pend text conn
        (command (feed (LineServer.step answer)) parse c conn).1
        (command (feed (LineServer.step answer)) parse c conn).2

variable {parse answer} {debug : Bool} {pend : List Bytes} {conn conn' : Connection (LineServer τ)}
variable {c : Command} {text : Str}

/-- What an operation makes of the answer does not touch the connection. -/
theorem Operates.eq (h : Operates parse answer c conn conn') :
    conn' = (command (feed (LineServer.step answer)) parse c conn).2 := by
  cases h with
  | @operation α finish queue conn =>
      cases hcommand : command (feed (LineServer.step answer)) parse c conn with
      | mk r conn' =>
          cases r with
          | ok r => rw [Session.operation_ok (s := ⟨conn, queue⟩) hcommand]
          | error e => rw [Session.operation_error (s := ⟨conn, queue⟩) hcommand]
  | login conn hc =>
      subst hc
      rw [Client.login, Exec.bind_apply]
      cases command (feed (LineServer.step answer)) parse (.login _ _) conn with
      | mk r conn' => cases r <;> rfl
  | capabilities conn hc =>
      have htext : c.text = .ok (some "CAPABILITY".toList) := by
        rw [hc]
        decide
      rw [command_run htext, Client.capabilities, Exec.bind_apply, runCommandAndReadResponse,
        Exec.bind_apply]
      cases run (feed (LineServer.step answer)) parse "CAPABILITY".toList conn with
      | mk r conn' => cases r <;> rfl

theorem answerResult_outcome {tag : UInt32} {cs : List Bytes} {rs : List Response}
    (hlength : cs.length = rs.length) {d : Bytes} {status : Status}
    {code : Option ResponseCode} {information : Option Str} (more : List InEvent) :
    answerResult tag [] (cs.zip rs)
        ⟨d, .unit (.done (matchTag tag) status code information), more⟩ =
      outcome cs.flatten d code information status := by
  have htext : ((cs.zip rs).map Prod.fst).flatten = cs.flatten := by
    rw [List.map_fst_zip (Nat.le_of_eq hlength)]
  cases status <;> simp [answerResult, breakWith, leave, breakError, textOf, outcome, htext]

theorem flatten_last (hp : parse.Framed LF) {cs : List Bytes}
    (h : ∀ c ∈ cs, ∃ r, parse.Accepts c r ∧ r.isDone = false) :
    cs.flatten = [] ∨ cs.flatten.getLast? = some LF := by
  induction cs with
  | nil => exact .inl rfl
  | cons c cs ih =>
      obtain ⟨r, hr, -⟩ := h c List.mem_cons_self
      right
      rw [List.flatten_cons]
      rcases ih fun c' hc' => h c' (List.mem_cons_of_mem c hc') with hnil | hlast
      · rw [hnil, List.append_nil, hp.getLast? hr]
      · have hne : cs.flatten ≠ [] := by
          intro hnil
          rw [hnil] at hlast
          cases hlast
        rw [List.getLast?_append_of_ne_nil _ hne, hlast]

theorem LF_not_mem_command {text : Str} (h : SingleLine text) (tag : UInt32) :
    LF ∉ utf8 (matchTag tag ++ ' ' :: text) ++ [CR] := by
  have hline : SingleLine (matchTag tag ++ ' ' :: text) := by
    simpa [singleLine_matchTag] using h
  intro hmem
  rcases List.mem_append.mp hmem with hmem | hmem
  · exact hline.2 ((LF_mem_utf8 _).mp hmem)
  · exact absurd hmem (by decide)

/-- A command of one line takes the client to the end of its answer. -/
theorem InStep.sending (hp : parse.Framed LF) (hanswers : Answers parse debug answer)
    (h : InStep parse debug pend conn) (htext : c.text = .ok (some text))
    (hline : SingleLine text) :
    InStep parse debug [] (command (feed (LineServer.step answer)) parse c conn).2 ∧
      ReadsOwnAnswer parse answer debug pend text conn
        (command (feed (LineServer.step answer)) parse c conn).1
        (command (feed (LineServer.step answer)) parse c conn).2 := by
  obtain ⟨us, d, status, code, information, hanswer, hsent⟩ := hanswers
    conn.stream.inner.peer.state (conn.tag + 1) text hline.2
  obtain ⟨conn1, hrun, htag, hdebug, hgreeting, delivered⟩ := runCommand_delivered
    (LineServer.step answer) h.reliable h.empty text
  -- the line reaches the server, which sends its answer behind what is under way
  have hpeer : conn.stream.inner.peer = ⟨conn.stream.inner.peer.state, []⟩ := by
    rw [← h.received]
  have hfed := LineServer.feed_line answer conn.stream.inner.peer.state []
    (LF_not_mem_command hline (conn.tag + 1))
  have hbytes : utf8 (matchTag (conn.tag + 1) ++ ' ' :: text) ++ [CR] ++ [LF] =
      conn.commandLine text := by
    rw [List.append_assoc]
    rfl
  rw [List.nil_append, hbytes, ← hpeer] at hfed
  have arrived := delivered.arrived
  rw [BufStream.after, hfed] at arrived
  obtain ⟨hpeer1, hinput1⟩ := Prod.mk.inj arrived
  have hinput : conn1.input = ((pend ++ us).flatten ++ d).map .item ++ [] := by
    rw [hinput1, h.input, List.append_nil, List.flatten_append, List.append_assoc,
      List.map_append]
    exact congrArg _ hsent
  have huntagged : ∀ c ∈ pend ++ us, ∃ r, parse.Accepts c r ∧ r.isDone = false := by
    intro c hc
    rcases List.mem_append.mp hc with hc | hc
    · exact h.untagged c hc
    · exact hanswer.untagged c hc
  obtain ⟨rs, hrs, hnot⟩ := Parser.accepts_each.mp huntagged
  have hlines : ∀ line ∈ linesOf LF ((pend ++ us).flatten ++ d), conn1.printable line = true := by
    intro line hl
    rw [printable_eq_true, hdebug, h.debug]
    intro hd
    rw [List.flatten_append, List.append_assoc, linesOf_append (flatten_last hp h.untagged)] at hl
    rcases List.mem_append.mp hl with hl | hl
    · exact h.printable hd line hl
    · exact hanswer.printable hd line hl
  obtain ⟨us', u, conn2, hread, hres, hin, hon⟩ := readResponse_answer parse conn1
  have exact_run := AnswerRun.of_accepts hp hrs hanswer.tagged hnot rfl hlines ([] : List InEvent)
  rw [← hinput] at exact_run
  obtain ⟨rfl, rfl⟩ := hread.unique exact_run
  have hsend := send_some (feed (LineServer.step answer)) htext conn
  rw [hrun] at hsend
  rw [command_sent hsend, hres, htag, answerResult_outcome hrs.length_eq]
  constructor
  · refine ⟨?_, hon.wbuf.trans delivered.empty, ?_, ?_, by simp, by simp [linesOf], hin, ?_⟩
    · unfold BufStream.Reliable
      rw [hon.writes]
      exact delivered.reliable
    · rw [hon.peer, hpeer1]
    · rw [hon.greetingRead, hgreeting, h.greetingRead]
    · rw [hon.debug, hdebug, h.debug]
  · exact ⟨hon.tag.trans htag, hon.sent.trans delivered.sent,
      ⟨us, d, status, code, information, hanswer, hsent, rfl⟩, hin⟩

theorem InStep.emitted (hp : parse.Framed LF) (h : InStep parse debug pend conn)
    {us : List Bytes} {events : List ReadEvent} (hus : Emission parse debug us events)
    (state : τ) : InStep parse debug (pend ++ us) (conn.emitted state events) where
  reliable := h.reliable
  empty := h.empty
  received := h.received
  greetingRead := h.greetingRead
  untagged c hc := (List.mem_append.mp hc).elim (h.untagged c) (hus.untagged c)
  printable hd line hl := by
    rw [List.flatten_append, linesOf_append (flatten_last hp h.untagged)] at hl
    exact (List.mem_append.mp hl).elim (h.printable hd line) (hus.printable hd line)
  input := by
    have unread : (conn.emitted state events).input =
        conn.input ++ events.flatMap ReadEvent.events := by
      simp [Connection.input, BufStream.input, Connection.emitted]
    rw [unread, h.input, hus.sent, List.flatten_append, List.map_append]
  debug := h.debug

/-- An operation that sends nothing leaves the connection alone. -/
theorem command_idle {peer : Peer (LineServer τ)} (h : ∀ text, c.text ≠ .ok (some text))
    (conn : Connection (LineServer τ)) : (command peer parse c conn).2 = conn := by
  cases htext : c.text with
  | error e => rw [command_failed (send_rejected htext conn)]
  | ok o =>
      cases o with
      | none => rw [command, Exec.bind_ok (send_none htext conn)]; rfl
      | some text => exact absurd htext (h text)

theorem InStep.synchronised (hp : parse.Framed LF) (hanswers : Answers parse debug answer)
    (h : InStep parse debug pend conn) (hc : c.KeepsLine) :
    Synchronised parse answer debug pend conn c := by
  unfold Synchronised
  split
  · rename_i e htext
    exact command_failed (send_rejected htext conn)
  · rename_i htext
    rw [command, Exec.bind_ok (send_none htext conn)]
    rfl
  · rename_i text htext
    exact (h.sending hp hanswers htext (hc.singleLine htext)).2

/-- In every run whose commands keep to one line the two ends are in step before every
operation, and every such operation reads its own answer. -/
theorem run_synchronised (hp : parse.Framed LF) (hanswers : Answers parse debug answer)
    (h : Run parse answer debug Command.KeepsLine pend conn) :
    InStep parse debug pend conn ∧
      ∀ c : Command, c.KeepsLine → Synchronised parse answer debug pend conn c := by
  have inStep : InStep parse debug pend conn := by
    induction h with
    | start h => exact h
    | emit state _ hus ih => exact ih.emitted hp hus state
    | sending _ hc htext hop ih =>
        rw [hop.eq]
        exact (ih.sending hp hanswers htext (hc.singleLine htext)).1
    | idle _ _ hidle hop ih => rwa [hop.eq, command_idle hidle]
  exact ⟨inStep, fun c hc => inStep.synchronised hp hanswers hc⟩

def okSuffix : Bytes := utf8 " OK\r\n".toList

/-- A server that answers every line with `OK`. -/
def okAnswer (_ : Unit) (line : Bytes) : Unit × List ReadEvent :=
  ((), ReadEvent.chunk (line.takeWhile (· ≠ 0x20) ++ okSuffix))

/-- The parser that knows its answers. -/
def okParse : ParseResponse := Parser.line LF fun line =>
  if okSuffix <:+ line then
    let tag := line.take (line.length - okSuffix.length)
    some (.done (tag.map fun b => Char.ofNat b.toNat) .ok none none)
  else none

theorem okParse_framed : okParse.Framed LF := Parser.line_framed _

theorem ascii_matchTag {tag : UInt32} {c : Char} (h : c ∈ matchTag tag) : c.toNat < 128 := by
  rcases List.mem_append.mp h with h | h
  · rw [List.mem_singleton.mp h]
    decide
  · exact ascii_of_isDigit (isDigit_of_mem_decimal h)

theorem chars_utf8_matchTag (tag : UInt32) :
    (utf8 (matchTag tag)).map (fun b => Char.ofNat b.toNat) = matchTag tag :=
  latin1_utf8 fun _ => ascii_matchTag

theorem okAnswer_line (tag : UInt32) :
    cut LF (utf8 (matchTag tag) ++ okSuffix) = some (utf8 (matchTag tag) ++ okSuffix, []) := by
  have hfree : LF ∉ utf8 (matchTag tag) ++ utf8 " OK\r".toList := by
    intro hmem
    rcases List.mem_append.mp hmem with hmem | hmem
    · exact (singleLine_matchTag tag).2 ((LF_mem_utf8 _).mp hmem)
    · exact absurd hmem (by decide)
  have hsuffix : okSuffix = utf8 " OK\r".toList ++ [LF] := by decide
  have hcut := Parser.cut_line hfree []
  rwa [List.append_assoc, ← hsuffix] at hcut

theorem okParse_accepts (tag : UInt32) :
    okParse.Accepts (utf8 (matchTag tag) ++ okSuffix) (.done (matchTag tag) .ok none none) := by
  refine Parser.line_run.mpr ⟨_, okAnswer_line tag, ?_⟩
  rw [if_pos (List.suffix_append _ _), List.length_append, Nat.add_sub_cancel, List.take_left]
  simp only [chars_utf8_matchTag]

theorem okAnswer_answers (debug : Bool) : Answers okParse debug okAnswer := by
  intro t tag text _
  have tagEnd : (utf8 (matchTag tag ++ ' ' :: text) ++ [CR, LF]).takeWhile (· ≠ 0x20) =
      utf8 (matchTag tag) := by
    have stop : (utf8 (' ' :: text) ++ [CR, LF]).takeWhile (· ≠ 0x20) = [] := rfl
    rw [utf8_append, List.append_assoc, List.takeWhile_append_of_pos, stop, List.append_nil]
    · intro b hb
      rw [decide_eq_true_eq]
      rintro rfl
      exact space_not_mem_matchTag tag hb
  have single : linesOf LF (utf8 (matchTag tag) ++ okSuffix) =
      [utf8 (matchTag tag) ++ okSuffix] :=
    (takeLine_line (BufStream.cut_some (okAnswer_line tag) []) (okParse_accepts tag).ne_nil).1
  refine ⟨[], utf8 (matchTag tag) ++ okSuffix, .ok, none, none,
    ⟨by simp, okParse_accepts tag, by simp, fun _ line hl => ?_⟩, ?_⟩
  · rw [List.flatten_nil, List.nil_append, single] at hl
    have suffix : okSuffix.length = 5 := by decide
    rw [List.mem_singleton.mp hl, List.length_append]
    omega
  · rw [okAnswer, tagEnd, ReadEvent.events_chunk]
    rfl

/-- A connection that is idle. -/
def fresh : Connection (LineServer Unit) :=
  { Client.new
      { peer := ⟨(), []⟩, incoming := [], writes := [], timeouts := [], readTimeout := none,
        wire := [] } with
    greetingRead := true }

theorem fresh_inStep : InStep okParse false [] fresh where
  reliable := by simp [BufStream.Reliable, fresh, Client.new, BufStream.new]
  empty := rfl
  received := rfl
  greetingRead := rfl
  untagged := by simp
  printable := by simp
  input := rfl
  debug := rfl

/-- The connection after an operation that runs `c` and looks at nothing in the answer. -/
def afterOperation (c : Command) : Connection (LineServer Unit) :=
  (Session.operation (feed (LineServer.step okAnswer)) okParse c (fun _ _ => pure ())
    ⟨fresh, []⟩).2.conn

theorem run_synchronised_noop :
    InStep okParse false [] (afterOperation .noop) ∧
      Synchronised okParse okAnswer false [] (afterOperation .noop) .check := by
  have keeps : ∀ c : Command, c.raw = [] → c.KeepsLine := fun c hc => .inr (by simp [hc])
  have run : Run okParse okAnswer false Command.KeepsLine [] (afterOperation .noop) :=
    .sending (.start fresh_inStep) (keeps .noop rfl)
      (show Command.noop.text = .ok (some "NOOP".toList) by decide)
      (.operation _ _ _)
  obtain ⟨inStep, synchronised⟩ := run_synchronised okParse_framed (okAnswer_answers false) run
  exact ⟨inStep, synchronised .check (keeps .check rfl)⟩

/-- `rename` with a line break sends two lines and reads one answer. -/
theorem run_synchronised_fails :
    ¬ ∀ (parse : ParseResponse) (answer : Unit → Bytes → Unit × List ReadEvent)
      (pend : List Bytes) (conn : Connection (LineServer Unit)), parse.Framed LF →
      Answers parse false answer → Run parse answer false (fun _ => True) pend conn →
      InStep parse false pend conn ∧
        ∀ c : Command, Synchronised parse answer false pend conn c := by
  intro h
  have htext : smuggled.text = .ok (some "RENAME \"a\" \"b\r\na2 LOGOUT\"".toList) := by
    decide
  have run : Run okParse okAnswer false (fun _ => True) [] (afterOperation smuggled) :=
    .sending (.start fresh_inStep) trivial htext (.operation _ _ _)
  obtain ⟨inStep, -⟩ := h _ _ _ _ okParse_framed (okAnswer_answers false) run
  have unread : (afterOperation smuggled).input = (utf8 "a2 OK\r\n".toList).map .item := by
    decide
  have nothing := inStep.input
  rw [unread] at nothing
  exact absurd nothing (by decide)

end Connection

end RustImap
