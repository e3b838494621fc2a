import RustImap.ByteServer
import RustImap.Classification
import RustImap.Framing
import RustImap.IdleDiscipline

/-!
One `IDLE` that times out.

The server here answers every line it gets with the next entry of a script, and a round of
the script is what it says to one `IDLE`, cut in two where the read times out. What the
client has read of a response by then is lost: the rest of it is read by `terminate`, into
another vector.
-/

namespace RustImap

/-- The next line is answered with the next entry. -/
def scripted : List (List ReadEvent) → UInt8 → List (List ReadEvent) × List ReadEvent
  | [], _ => ([], [])
  | answer :: script, b => if b = LF then (script, answer) else (answer :: script, [])

theorem feed_scripted (answer : List ReadEvent) (script : List (List ReadEvent)) {l : Bytes}
    (hl : LF ∉ l) : feed scripted (answer :: script) (l ++ [LF]) = (script, answer) := by
  induction l with
  | nil => simp [feed, scripted]
  | cons b l ih =>
      simp only [List.mem_cons, not_or] at hl
      simp [feed, scripted, Ne.symm hl.1, ih hl.2]

/-- What a server says to an `IDLE` and to its `DONE`: what comes before the read times out,
the confirmation first, what comes after, and what it sends of its own accord then. -/
structure IdleRound where
  plus : Bytes
  before : Bytes
  kind : ErrorKind
  left : Bytes
  extra : Bytes
  first : List ReadEvent
  second : List ReadEvent

namespace IdleRound

/-- The client can have read some of what comes after the timeout before it writes `DONE`. -/
structure Plays (r : IdleRound) : Prop where
  plus : ∃ l, LF ∉ l ∧ r.plus = PLUS :: l ++ [LF]
  events : ∃ mid late : Bytes,
    r.first.flatMap ReadEvent.events =
      (r.plus ++ r.before).map .item ++ .fail r.kind :: mid.map .item ∧
    r.second.flatMap ReadEvent.events = late.map .item ∧ r.left ++ r.extra = mid ++ late
  extra : r.extra.head? ≠ some PLUS

/-- The answers to all lines, if the rounds come first. -/
def script (rounds : List IdleRound) (more : List (List ReadEvent)) : List (List ReadEvent) :=
  rounds.flatMap (fun r => [r.first, r.second]) ++ more

/-- What is left when the read times out is the end of an answer: whole responses and the
tagged one, with lines that the debug output can print. -/
structure Resumes (parse : ParseResponse) (debug : Bool) (tag : UInt32) (r : IdleRound) :
    Prop where
  answer : ∃ (cs : List Bytes) (d : Bytes) (status : Status) (code : Option ResponseCode)
    (information : Option Str), r.left = cs.flatten ++ d ∧
      (∀ c ∈ cs, ∃ r, parse.Accepts c r ∧ r.isDone = false) ∧
      parse.Accepts d (.done (matchTag tag) status code information)
  printed : debug = true → ∀ line ∈ linesOf LF r.left, 2 ≤ line.length

/-- The round is an answer to an `IDLE`, wherever the read times out. -/
structure Speaks (parse : ParseResponse) (tag : UInt32) (cs : List Bytes) (d : Bytes)
    (r : IdleRound) : Prop where
  plays : r.Plays
  answer : r.before ++ r.left = cs.flatten ++ d
  untagged : ∀ c ∈ cs, ∃ r, parse.Accepts c r ∧ r.isDone = false
  tagged : ∃ status code information, parse.Accepts d (.done (matchTag tag) status code information)

/-- It can be resumed when the read times out between two responses. -/
theorem Speaks.resumes {parse : ParseResponse} {debug : Bool} {tag : UInt32} {cs cs' : List Bytes}
    {d : Bytes} {r : IdleRound} (h : r.Speaks parse tag (cs ++ cs') d)
    (hbefore : r.before = cs.flatten)
    (hlines : debug = true → ∀ line ∈ linesOf LF (cs'.flatten ++ d), 2 ≤ line.length) :
    r.Resumes parse debug tag := by
  have hleft : r.left = cs'.flatten ++ d := by
    have hanswer := h.answer
    rw [hbefore, List.flatten_append, List.append_assoc] at hanswer
    exact List.append_cancel_left hanswer
  obtain ⟨status, code, information, hd⟩ := h.tagged
  refine ⟨⟨cs', d, status, code, information, hleft, fun c hc => ?_, hd⟩, ?_⟩
  · exact h.untagged c (List.mem_append_right cs hc)
  · rwa [hleft]

end IdleRound

variable {σ : Type} (peer : Peer σ) (parse : ParseResponse)

namespace Handle

/-- The `DONE` is written. -/
def SendsDone (h : Handle σ) : Prop :=
  (Connection.writeLine peer (utf8 "DONE".toList) h.conn).1 = .ok ()

/-- Terminating the `IDLE` reads an answer that ends with the tagged response to the
`IDLE`, and the next read starts with what the server has sent after it. -/
def KeepsFraming (extra : Bytes) (h : Handle σ) : Prop :=
  ∃ us u status,
    AnswerRun parse LF h.conn.printable Response.isDone []
      (Connection.writeLine peer (utf8 "DONE".toList) h.conn).2.input us u ∧
    Connection.EndedWith u (matchTag h.conn.tag) status ∧
    (terminate peer parse h).2.conn.input = extra.map .item

end Handle

variable {peer parse} {callback : Callback}

/-- Reading before a failing read: a line, or the failure. -/
theorem takeLine_before (before : Bytes) (k : ErrorKind) (rest : List InEvent) :
    (∃ l before' : Bytes, takeLine LF (before.map .item ++ .fail k :: rest) =
        (l, none, before'.map .item ++ .fail k :: rest)) ∨
      takeLine LF (before.map .item ++ .fail k :: rest) = (before, some k, rest) := by
  cases hcut : cut LF before with
  | some r =>
      obtain ⟨l, before'⟩ := r
      exact .inl ⟨l, before', BufStream.cut_some hcut _⟩
  | none =>
      right
      rw [BufStream.cut_none hcut]
      simp [takeLine]

/-- A loop that times out has read up to the failing read. -/
theorem Waiting.idleLoop_timedOut {turns : Nat} {v before : Bytes} {k : ErrorKind}
    {rest : List InEvent} {w w1 : Waiting σ}
    (hin : w.handle.conn.input = before.map .item ++ .fail k :: rest)
    (h : idleLoop parse callback turns v w = (.ok .timedOut, w1)) :
    ∃ conn, w1.handle = w.handle.withConn conn ∧ conn.input = rest ∧
      Connection.ReadOn w.handle.conn conn := by
  induction turns generalizing v before w with
  | zero => cases h
  | succ turns ih =>
      have hnext := Connection.readOn_nextLine w.handle.conn
      have line_or_fail := takeLine_before before k rest
      rw [← hin] at line_or_fail
      obtain ⟨line, failed, left, htake⟩ : ∃ line failed left,
        takeLine LF w.handle.conn.input = (line, failed, left) := ⟨_, _, _, rfl⟩
      have hleft := (Connection.readline_eq htake []).2
      have turn := idleLoop_turn parse callback turns v htake
      rw [h] at turn
      rcases turn.goes_on_or_ends with ⟨rfl, -, v', w', hw', hloop⟩ | ⟨hend, htimeout, -⟩
      · -- a turn that goes on has read a line before the failing read
        rcases line_or_fail with ⟨l, before', heq⟩ | heq
        · have hin' : w'.handle.conn.input = before'.map .item ++ .fail k :: rest := by
            rw [hw']
            change w.handle.conn.nextLine.input = _
            rw [hleft]
            exact (Prod.mk.inj (Prod.mk.inj (htake.symm.trans heq)).2).2
          obtain ⟨conn, hconn, hrest, hon⟩ := ih hin' hloop.symm
          rw [hw'] at hconn hon
          exact ⟨conn, hconn, hrest, hnext.trans hon⟩
        · cases htake.symm.trans heq
      · rcases line_or_fail with ⟨l, before', heq⟩ | heq
        · cases htake.symm.trans heq
          exact absurd rfl (htimeout rfl)
        · cases htake.symm.trans heq
          exact ⟨w.handle.conn.nextLine, hend, hleft, hnext⟩

namespace Handle

variable {script : List (List ReadEvent)} {tag : UInt32} {debug : Bool} {r : IdleRound}
variable {h h' : Handle (List (List ReadEvent))}

/-- The client can read only what the server has sent of its own accord. -/
structure Rests (extra : Bytes) (script : List (List ReadEvent)) (tag : UInt32) (debug : Bool)
    (h : Handle (List (List ReadEvent))) : Prop where
  wbuf : h.conn.stream.wbuf = []
  input : h.conn.input = extra.map .item
  peer : h.conn.stream.inner.peer = script
  tag : h.conn.tag = tag
  debug : h.conn.debug = debug

/-- The server plays a round and waits for the `DONE`; `unread` comes before the part that
is left over by the timeout. -/
structure Playing (r : IdleRound) (script : List (List ReadEvent)) (tag : UInt32) (debug : Bool)
    (unread : List InEvent) (h : Handle (List (List ReadEvent))) : Prop where
  wbuf : h.conn.stream.wbuf = []
  events : ∃ mid late : Bytes, h.conn.input = unread ++ mid.map .item ∧
    r.second.flatMap ReadEvent.events = late.map .item ∧ r.left ++ r.extra = mid ++ late
  peer : h.conn.stream.inner.peer = r.second :: script
  tag : h.conn.tag = tag
  debug : h.conn.debug = debug
  done : h.done = false

/-- An `IDLE` is confirmed only if its confirmation comes first. -/
theorem Rests.init {extra : Bytes} (hextra : extra.head? ≠ some PLUS)
    (hrests : Rests extra (r.first :: r.second :: script) tag debug h) (hr : r.Plays)
    (hinit : Handle.init (feed scripted) parse h = (.ok (), h')) :
    Playing r script (tag + 1) debug (r.before.map .item ++ [.fail r.kind]) h' := by
  obtain ⟨l, hl, hplus⟩ := hr.plus
  obtain ⟨mid, late, hfirst, hsecond, hleft⟩ := hr.events
  rcases init_cases (feed scripted) parse h with ⟨e, conn, -, heq⟩ | ⟨conn1, hrun, -⟩
  · cases hinit.symm.trans heq
  obtain ⟨htag, hdebug, hempty, harrived⟩ := Connection.runCommand_arrived scripted hrests.wbuf hrun
  obtain ⟨line, hline, hcommand, -⟩ := Connection.idle_line h.conn
  rw [BufStream.after, hcommand, hrests.peer, feed_scripted _ _ hline, hrests.input,
    hfirst] at harrived
  obtain ⟨hpeer, hin⟩ := Prod.mk.inj harrived
  -- a line that the server has sent of its own accord is no confirmation
  obtain rfl : extra = [] := by
    cases extra with
    | nil => rfl
    | cons b bs =>
        obtain ⟨line, failed, rest, htake⟩ : ∃ line failed rest,
          takeLine LF conn1.input = (line, failed, rest) := ⟨_, _, _, rfl⟩
        rcases init_line parse hrun htake with
          ⟨e, -, heq⟩ | ⟨-, -, -, ⟨hhead, -⟩ | ⟨-, heq⟩⟩
        · cases hinit.symm.trans heq
        · have hstart : line.head? = some b := by
            rw [← show (takeLine LF conn1.input).1 = line by rw [htake], hin]
            exact takeLine_head b _
          rw [hstart] at hhead
          exact absurd hhead hextra
        · cases hinit.symm.trans heq
  have htake : takeLine LF conn1.input =
      (r.plus, none, r.before.map .item ++ .fail r.kind :: mid.map .item) := by
    rw [hin, List.map_nil, List.nil_append, hplus, List.map_append, List.append_assoc,
      takeLine_whole (List.not_mem_cons_of_ne_of_not_mem (by decide) hl)]
  have hrest := (Connection.readline_eq htake []).2
  rcases init_line parse hrun htake with
    ⟨e, -, heq⟩ | ⟨-, -, -, ⟨-, heq⟩ | ⟨-, heq⟩⟩
  · cases hinit.symm.trans heq
  · obtain rfl : h' = _ := (Prod.mk.inj (hinit.symm.trans heq)).2
    refine ⟨hempty, ⟨mid, late, ?_, hsecond, hleft⟩, hpeer, ?_, ?_, rfl⟩
    · change conn1.nextLine.input = _
      rw [hrest, List.append_assoc]
      rfl
    · change conn1.tag = _
      rw [htag, hrests.tag]
    · change conn1.debug = _
      rw [hdebug, hrests.debug]
  · cases hinit.symm.trans heq

/-- Reading on to the timeout. -/
theorem Playing.readOn {conn : Connection (List (List ReadEvent))} {unread : List InEvent}
    (hplay : Playing r script tag debug unread h) (hon : Connection.ReadOn h.conn conn)
    {mid late : Bytes} (hin : conn.input = mid.map .item)
    (hsecond : r.second.flatMap ReadEvent.events = late.map .item)
    (hleft : r.left ++ r.extra = mid ++ late) :
    Playing r script tag debug [] (h.withConn conn) :=
  ⟨hon.wbuf.trans hplay.wbuf, ⟨mid, late, hin, hsecond, hleft⟩, hon.peer.trans hplay.peer,
    hon.tag.trans hplay.tag, hon.debug.trans hplay.debug, hplay.done⟩

theorem Playing.idleLoop {w w1 : Waiting (List (List ReadEvent))} {turns : Nat} {v : Bytes}
    (hplay : Playing r script tag debug (r.before.map .item ++ [.fail r.kind]) w.handle)
    (hloop : Waiting.idleLoop parse callback turns v w = (.ok .timedOut, w1)) :
    Playing r script tag debug [] w1.handle := by
  obtain ⟨mid, late, hin, hsecond, hleft⟩ := hplay.events
  rw [List.append_assoc] at hin
  obtain ⟨conn, hconn, hrest, hon⟩ := Waiting.idleLoop_timedOut hin hloop
  rw [hconn]
  exact hplay.readOn hon hrest hsecond hleft

/-- `DONE` brings the rest of the round. -/
theorem Playing.sendsDone (hplay : Playing r script tag debug [] h)
    {conn : Connection (List (List ReadEvent))}
    (hwrite : Connection.writeLine (feed scripted) (utf8 "DONE".toList) h.conn = (.ok (), conn)) :
    conn.stream.wbuf = [] ∧ conn.input = (r.left ++ r.extra).map .item ∧
      conn.stream.inner.peer = script ∧
      conn.tag = tag ∧ conn.debug = debug := by
  obtain ⟨mid, late, hin, hsecond, hleft⟩ := hplay.events
  obtain ⟨same, hempty, harrived⟩ := Connection.writeLine_arrived scripted hplay.wbuf hwrite
  obtain ⟨line, hline, hdone, -⟩ := Connection.done_line
  have hbytes : utf8 "DONE".toList ++ [CR, LF] = line ++ [LF] := hdone
  rw [BufStream.after, hbytes, hplay.peer, feed_scripted _ _ hline, hin, List.nil_append, hsecond,
    ← List.map_append, ← hleft] at harrived
  obtain ⟨hpeer, hin'⟩ := Prod.mk.inj harrived
  exact ⟨hempty, hin', hpeer, same.tag.trans hplay.tag, same.debug.trans hplay.debug⟩

/-- Terminating keeps the framing exactly if what is left resumes the answer. -/
theorem Playing.keepsFraming_iff (hp : parse.Framed LF) (hplay : Playing r script tag debug [] h)
    (hsends : SendsDone (feed scripted) h) :
    KeepsFraming (feed scripted) parse r.extra h ↔ r.Resumes parse debug tag := by
  obtain ⟨conn, hwrite⟩ : ∃ conn, Connection.writeLine (feed scripted) (utf8 "DONE".toList) h.conn =
    (.ok (), conn) := ⟨_, Prod.ext hsends rfl⟩
  obtain ⟨hempty, hin, hpeer, htag, hdebug⟩ := hplay.sendsDone hwrite
  have hterm : terminate (feed scripted) parse h =
      ((Connection.readResponse parse conn).1.map fun _ => (),
        { h.withConn (Connection.readResponse parse conn).2 with done := true }) := by
    rcases terminate_cases (feed scripted) parse h with
      ⟨h1, -⟩ | ⟨-, ⟨e, c, heq, -⟩ | ⟨c, heq, hterm⟩⟩
    · cases hplay.done.symm.trans h1
    · cases hwrite.symm.trans heq
    · cases hwrite.symm.trans heq
      exact hterm
  have hprint : conn.printable = h.conn.printable :=
    Connection.printable_of_debug (hdebug.trans hplay.debug.symm)
  obtain ⟨vs, v, conn', hread, hresult, hrest, -⟩ := Connection.readResponse_answer parse conn
  have hinput : (terminate (feed scripted) parse h).2.conn.input = v.rest := by
    rw [hterm, hresult]
    exact hrest
  rw [hprint] at hread
  rw [KeepsFraming, hwrite, hinput]
  constructor
  · rintro ⟨us, u, status, hrun, ⟨code, information, hstop⟩, hnil⟩
    obtain ⟨rfl, rfl⟩ := hread.unique hrun
    obtain ⟨got, htext, hevents⟩ := hrun.reads
    rw [hin, hstop, hnil, Stop.event_unit, List.append_nil, ← List.map_append] at hevents
    have hleft : r.left = got := List.append_cancel_right
      (List.map_injective_iff.mpr (fun a b h => by cases h; rfl) hevents)
    obtain ⟨hus, hu⟩ := hrun.accepts hp (.inl rfl)
    rw [List.nil_append] at htext
    refine ⟨⟨vs.map Prod.fst, v.text, status, code, information, ?_, ?_, ?_⟩, ?_⟩
    · rw [hleft, ← htext, textOf]
    · intro c hc
      obtain ⟨m, hm, rfl⟩ := List.mem_map.mp hc
      exact ⟨m.2, hus m hm⟩
    · rw [← hplay.tag]
      exact (hu _ hstop).1
    · intro hd line hline
      rw [hleft] at hline
      have hguard := hrun.guarded hp (.inl rfl) hstop got (by rw [htext, List.nil_append]) line
        hline
      exact Connection.printable_eq_true.mp hguard (hplay.debug.trans hd)
  · rintro ⟨⟨cs, d, status, code, information, hleft, hcs, hd⟩, hlines⟩
    obtain ⟨rs, hrs, hnot⟩ := Parser.accepts_each.mp hcs
    have hguard : ∀ line ∈ linesOf LF (cs.flatten ++ d), h.conn.printable line = true := by
      intro line hline
      rw [← hleft] at hline
      exact Connection.printable_eq_true.mpr fun hd => hlines (hplay.debug.symm.trans hd) line hline
    have hrun := AnswerRun.of_accepts hp hrs hd hnot rfl hguard (r.extra.map .item : List InEvent)
    rw [← hleft, ← List.map_append, ← hin] at hrun
    obtain ⟨rfl, rfl⟩ := hread.unique hrun
    refine ⟨_, _, status, hread, ⟨code, information, ?_⟩, rfl⟩
    rw [hplay.tag]

/-- An `IDLE` that was terminated in this way leaves the two ends at rest. -/
theorem Playing.rests (hplay : Playing r script tag debug [] h)
    (hterm : terminate (feed scripted) parse h = (.ok (), h'))
    (hkeeps : KeepsFraming (feed scripted) parse r.extra h) :
    Rests r.extra script tag debug h' := by
  obtain ⟨-, -, -, -, -, hnil⟩ := hkeeps
  rw [hterm] at hnil
  rcases terminate_cases (feed scripted) parse h with
    ⟨h1, -⟩ | ⟨-, ⟨e, c, -, heq⟩ | ⟨conn, hwrite, heq⟩⟩
  · cases hplay.done.symm.trans h1
  · cases hterm.symm.trans heq
  obtain ⟨hempty, -, hpeer, htag, hdebug⟩ := hplay.sendsDone hwrite
  obtain ⟨_, _, conn', -, hresult, -, hon⟩ := Connection.readResponse_answer parse conn
  obtain rfl := (Prod.mk.inj (hterm.symm.trans heq)).2
  rw [hresult] at hnil ⊢
  exact ⟨hon.wbuf.trans hempty, hnil, hon.peer.trans hpeer, hon.tag.trans htag,
    hon.debug.trans hdebug⟩

theorem Playing.sends_of_terminate (hplay : Playing r script tag debug [] h)
    (hterm : terminate (feed scripted) parse h = (.ok (), h')) : SendsDone (feed scripted) h := by
  rcases terminate_cases (feed scripted) parse h with
    ⟨h1, -⟩ | ⟨-, ⟨e, c, -, heq⟩ | ⟨conn, hwrite, -⟩⟩
  · cases hplay.done.symm.trans h1
  · cases hterm.symm.trans heq
  · rw [SendsDone, hwrite]

theorem Playing.setReadTimeout {unread : List InEvent}
    (hplay : Playing r script tag debug unread h) (timeout : Option Nat) :
    Playing r script tag debug unread (Handle.setReadTimeout timeout h).2 := by
  have hstream : (BufStream.setReadTimeout timeout h.conn.stream).2.wbuf = h.conn.stream.wbuf ∧
      (BufStream.setReadTimeout timeout h.conn.stream).2.input = h.conn.stream.input ∧
      (BufStream.setReadTimeout timeout h.conn.stream).2.inner.peer = h.conn.stream.inner.peer := by
    unfold BufStream.setReadTimeout
    split <;> exact ⟨rfl, rfl, rfl⟩
  obtain ⟨mid, late, hin, hsecond, hleft⟩ := hplay.events
  exact ⟨hstream.1.trans hplay.wbuf, ⟨mid, late, hstream.2.1.trans hin, hsecond, hleft⟩,
    hstream.2.2.trans hplay.peer, hplay.tag, hplay.debug, hplay.done⟩

end Handle

end RustImap
