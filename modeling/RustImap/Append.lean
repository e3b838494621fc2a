import RustImap.ByteServer
import RustImap.Client
import RustImap.Framing

/-!
`APPEND` and the literal it sends.

`AppendCmd::finish` reads one line after the command and goes on only if it starts with
`+`. The server here reads lines. A line may end with the length of a literal; a server that
asks for it takes that many bytes and the rest of their line as the message. What it sends
comes in any chunks.
-/

namespace RustImap

structure AppendCmd where
  content : Bytes
  mailbox : Str
  flags : List Flag
  date : Option DateTime

def STAR : UInt8 := 0x2a

namespace AppendCmd

variable {σ : Type} (peer : Peer σ) (parse : ParseResponse) (cmd : AppendCmd)

def command : Command := .append cmd.mailbox cmd.flags cmd.date cmd.content.length

/-- `finish` up to the answer to the literal. -/
def converse : Exec (Connection σ) Fault (Bytes × Nat) := do
  let _ ← Connection.send peer cmd.command
  let v ← Connection.readline []
  if v.head? ≠ some PLUS then .fail (.err .append)
  else do
    Connection.io (BufStream.writeAll peer cmd.content)
    Connection.io (BufStream.writeAll peer [CR, LF])
    Connection.io (BufStream.flush peer)
    Connection.readResponse parse

def finish : Exec (Session σ) Fault Appended := do
  let (lines, _) ← Session.onConn (cmd.converse peer parse)
  Session.onQueue (parseAppend parse lines)

/-- The text of the command, which has no argument that is checked. -/
def text : Str :=
  match cmd.command.text with
  | .ok (some text) => text
  | _ => []

theorem text_command : cmd.command.text = .ok (some cmd.text) := rfl

/-- Nothing that is put on the line ends it. -/
def OneLine : Prop := '\n' ∉ cmd.mailbox ∧ ∀ f ∈ cmd.flags, '\n' ∉ f.text

/-- The announcement of the literal ends the text. -/
def announcement : Str := '\x7b' :: decimal cmd.content.length ++ ['\x7d']

theorem text_words : cmd.text = words ["APPEND".toList, '"' :: cmd.mailbox ++ ['"'],
    parens (iterJoin ((cmd.flags.filter (· ≠ .recent)).map Flag.text) [' ']) ++
      (cmd.date.toList.map fun date => ' ' :: '"' :: date.text ++ ['"']).flatten,
    cmd.announcement] := rfl

theorem text_announcement : ∃ pre, cmd.text = pre ++ cmd.announcement := by
  rw [text_words]
  generalize "APPEND".toList = verb
  simp only [words, iterJoin, List.intercalate_cons_cons, List.intercalate_singleton,
    ← List.append_assoc]
  exact ⟨_, rfl⟩

theorem not_LF_mem_text : '\n' ∉ cmd.text ↔ cmd.OneLine := by
  have digits : '\n' ∉ decimal cmd.content.length := by
    intro hmem
    exact absurd (isDigit_of_mem_decimal hmem) (by decide)
  have verb : '\n' ∉ "APPEND".toList := by decide
  have dates : ∀ date : DateTime, '\n' ∉ date.text := fun date => date.singleLine.2
  have flags : (∀ f ∈ cmd.flags, ¬f = .recent → '\n' ∉ f.text) ↔
      ∀ f ∈ cmd.flags, '\n' ∉ f.text := by
    have recent : '\n' ∉ Flag.recent.text := by decide
    refine forall₂_congr fun f _ => ⟨fun h => ?_, fun h _ => h⟩
    by_cases hf : f = .recent
    · exact hf ▸ recent
    · exact h hf
  rw [text_words, OneLine, words, mem_iterJoin (by decide)]
  generalize "APPEND".toList = name at verb
  simp [verb, parens, mem_iterJoin, announcement, digits, dates, flags]

end AppendCmd

/-- The length of the literal that a line announces at its end. -/
def announced (line : Bytes) : Option Nat :=
  match (latin1 line).reverse with
  | '\n' :: '\r' :: '\x7d' :: before =>
      let digits := before.takeWhile Char.isDigit
      if digits ≠ [] ∧ (before.drop digits.length).head? = some '\x7b' then
        some (Nat.ofDigitChars 10 digits.reverse 0)
      else none
  | _ => none

theorem announced_announcement (pre : Bytes) (cmd : AppendCmd) :
    announced (pre ++ utf8 cmd.announcement ++ [CR, LF]) = some cmd.content.length := by
  have digits : ∀ c ∈ (decimal cmd.content.length).reverse, c.isDigit = true := fun c hc =>
    isDigit_of_mem_decimal (List.mem_reverse.mp hc)
  have ascii : latin1 (utf8 cmd.announcement) = cmd.announcement := by
    refine latin1_utf8 fun c hc => ?_
    simp only [AppendCmd.announcement, List.mem_append, List.mem_cons, List.not_mem_nil,
      or_false] at hc
    obtain (rfl | hc) | rfl := hc
    · decide
    · exact ascii_of_isDigit (isDigit_of_mem_decimal hc)
    · decide
  have ends : (latin1 (pre ++ utf8 cmd.announcement ++ [CR, LF])).reverse =
      '\n' :: '\r' :: '\x7d' ::
        ((decimal cmd.content.length).reverse ++ '\x7b' :: (latin1 pre).reverse) := by
    have split : latin1 (pre ++ utf8 cmd.announcement ++ [CR, LF]) =
        latin1 pre ++ latin1 (utf8 cmd.announcement) ++ ['\r', '\n'] := by
      simp only [latin1, List.map_append]
      rfl
    rw [split, ascii]
    simp [AppendCmd.announcement]
  have first : ((decimal cmd.content.length).reverse ++ '\x7b' :: (latin1 pre).reverse).takeWhile
      Char.isDigit = (decimal cmd.content.length).reverse := by
    rw [List.takeWhile_append_of_pos digits]
    simp
  have nonempty : (decimal cmd.content.length).reverse ≠ [] :=
    List.reverse_ne_nil_iff.mpr Nat.toDigits_ne_nil
  rw [announced, ends]
  simp only [first, List.drop_left]
  rw [if_pos ⟨nonempty, rfl⟩, List.reverse_reverse]
  exact congrArg some Nat.ofDigitChars_ten_toDigits

/-- The first of some lines. -/
def firstLine (bs : Bytes) : Bytes :=
  match cut LF bs with
  | some (line, _) => line
  | none => bs

theorem firstLine_of_mem {bs : Bytes} (h : LF ∈ bs) :
    ∃ line rest, bs = line ++ LF :: rest ∧ LF ∉ line ∧ firstLine bs = line ++ [LF] := by
  obtain ⟨line, rest, rfl, hline⟩ := List.eq_append_cons_of_mem h
  refine ⟨line, rest, rfl, hline, ?_⟩
  rw [firstLine, Parser.cut_line hline]

/-- A single line is the first of its lines. -/
theorem firstLine_eq_iff {bs : Bytes} : firstLine (bs ++ [LF]) = bs ++ [LF] ↔ LF ∉ bs := by
  constructor
  · intro h hmem
    obtain ⟨line, rest, rfl, hline⟩ := List.eq_append_cons_of_mem hmem
    rw [List.append_assoc, List.cons_append, firstLine, Parser.cut_line hline] at h
    simp at h
  · intro h
    rw [firstLine, Parser.cut_line h]

/-- What a server says to an `APPEND`, after its untagged responses. -/
inductive Reply where
  | refuse (done : Bytes)
  | goOn (plus : Bytes) (untagged : List Bytes) (done : Bytes)

/-- The part of a reply that follows the command at once. -/
def Reply.opening : Reply → Bytes
  | .refuse done => done
  | .goOn plus _ _ => plus

/-- What a server is reading: a command line, or a literal and the rest of its line. -/
inductive Stage where
  | line (pending : Bytes)
  | literal (left : Nat) (pending : Bytes)
  deriving DecidableEq

structure Serving (τ : Type) where
  state : τ
  stage : Stage
  deriving DecidableEq

structure AppendServer (τ : Type) where
  /-- What is done when a command line has arrived, and whether its literal is asked for. -/
  command : τ → Bytes → τ × Bool × List ReadEvent
  /-- What is done when a literal has arrived with the rest of its line. -/
  message : τ → Bytes → τ × List ReadEvent

namespace AppendServer

variable {τ : Type} (server : AppendServer τ)

/-- Without an announcement there is no literal to wait for. -/
def awaits (asks : Bool) (line : Bytes) : Stage :=
  match asks, announced line with
  | true, some length => .literal length []
  | _, _ => .line []

def receive (t : τ) (line : Bytes) : Serving τ × List ReadEvent :=
  let (state, asks, events) := server.command t line
  ({ state, stage := awaits asks line }, events)

def deliver (t : τ) (message : Bytes) : Serving τ × List ReadEvent :=
  let (state, events) := server.message t message
  ({ state, stage := .line [] }, events)

def step (serving : Serving τ) (b : UInt8) : Serving τ × List ReadEvent :=
  match serving.stage with
  | .line pending =>
      if b = LF then server.receive serving.state (pending ++ [b])
      else ({ serving with stage := .line (pending ++ [b]) }, [])
  | .literal (left + 1) pending =>
      ({ serving with stage := .literal left (pending ++ [b]) }, [])
  | .literal 0 pending =>
      if b = LF then server.deliver serving.state (pending ++ [b])
      else ({ serving with stage := .literal 0 (pending ++ [b]) }, [])

theorem feed_line (t : τ) (pending : Bytes) {bs : Bytes} (h : LF ∉ bs) :
    feed server.step ⟨t, .line pending⟩ (bs ++ [LF]) =
      server.receive t (pending ++ bs ++ [LF]) := by
  induction bs generalizing pending with
  | nil => simp [feed, step]
  | cons b bs ih =>
      simp only [List.mem_cons, not_or] at h
      simp only [List.cons_append, feed, step, if_neg (Ne.symm h.1), ih (pending ++ [b]) h.2]
      simp

theorem feed_ending (t : τ) (pending : Bytes) {bs : Bytes} (h : LF ∉ bs) :
    feed server.step ⟨t, .literal 0 pending⟩ (bs ++ [LF]) =
      server.deliver t (pending ++ bs ++ [LF]) := by
  induction bs generalizing pending with
  | nil => simp [feed, step]
  | cons b bs ih =>
      simp only [List.mem_cons, not_or] at h
      simp only [List.cons_append, feed, step, if_neg (Ne.symm h.1), ih (pending ++ [b]) h.2]
      simp

theorem feed_literal (t : τ) (pending bs : Bytes) :
    feed server.step ⟨t, .literal bs.length pending⟩ bs =
      (⟨t, .literal 0 (pending ++ bs)⟩, []) := by
  induction bs generalizing pending with
  | nil => simp [feed]
  | cons b bs ih => simp [feed, step, ih]

/-- The literal and the end of its line. -/
theorem feed_message (t : τ) (content : Bytes) :
    feed server.step ⟨t, .literal content.length []⟩ (content ++ [CR, LF]) =
      server.deliver t (content ++ [CR, LF]) := by
  have ending := server.feed_ending t content (show LF ∉ [CR] by decide)
  rw [feed_append, feed_literal, List.nil_append]
  simpa using ending

/-- The first of the lines that arrive is answered; there may be more of them. -/
theorem feed_first (t : τ) {bs : Bytes} (h : LF ∈ bs) :
    ∃ later, (feed server.step ⟨t, .line []⟩ bs).2 =
      (server.receive t (firstLine bs)).2 ++ later := by
  obtain ⟨line, rest, rfl, hline, hfirst⟩ := firstLine_of_mem h
  rw [hfirst, List.append_cons, feed_append, server.feed_line t [] hline, List.nil_append]
  exact ⟨_, rfl⟩

/-- An untagged response on the wire. -/
def Untagged (parse : ParseResponse) (c : Bytes) : Prop :=
  c.head? = some STAR ∧ ∃ r, parse.Accepts c r ∧ r.isDone = false

def Tagged (parse : ParseResponse) (tag : UInt32) (d : Bytes) (status : Status) : Prop :=
  utf8 (matchTag tag) <+: d ∧
    ∃ code information, parse.Accepts d (.done (matchTag tag) status code information)

def Continuation (plus : Bytes) : Prop :=
  plus.head? = some PLUS ∧ plus.getLast? = some LF ∧ linesOf LF plus = [plus]

/-- The replies that the protocol allows to the command line with this tag. -/
def Allows (parse : ParseResponse) (tag : UInt32) (t : τ) (line message : Bytes) : Reply → Prop
  | .refuse done => (server.command t line).2.1 = false ∧
      (Tagged parse tag done .no ∨ Tagged parse tag done .bad)
  | .goOn plus more done => (server.command t line).2.1 = true ∧
      Continuation plus ∧ (∀ c ∈ more, Untagged parse c) ∧
      (∃ status, Tagged parse tag done status) ∧
      (server.message (server.command t line).1 message).2.flatMap ReadEvent.events =
        (more.flatten ++ done).map .item

/-- The server keeps to the protocol in its answer to the command line with this tag, and to
the message that it asks for: the responses `us` come before its reply. -/
structure Speaks (parse : ParseResponse) (tag : UInt32) (t : τ) (line message : Bytes)
    (us : List Bytes) (reply : Reply) : Prop where
  untagged : ∀ c ∈ us, Untagged parse c
  first : (server.command t line).2.2.flatMap ReadEvent.events =
    (us.flatten ++ reply.opening).map .item
  reply : server.Allows parse tag t line message reply

end AppendServer

namespace AppendCmd

variable {τ : Type} (parse : ParseResponse) (server : AppendServer τ) (cmd : AppendCmd)

/-- The two ends before the command: nothing is under way between them. -/
structure Ready (s : Session (Serving τ)) : Prop where
  reliable : s.conn.stream.Reliable
  empty : s.conn.stream.wbuf = []
  input : s.conn.input = []
  stage : s.conn.stream.inner.peer.stage = .line []

/-- The server keeps to the protocol when `finish` is called in the state `s`. -/
def Answers (s : Session (Serving τ)) (us : List Bytes) (reply : Reply) : Prop :=
  server.Speaks parse (s.conn.tag + 1) s.conn.stream.inner.peer.state
    (firstLine (s.conn.commandLine cmd.text)) (cmd.content ++ [CR, LF]) us reply

/-- After the line that the server replies to it gets the literal exactly if it has asked for
it, and the two ends agree in the end: how `finish` ended, called in the state `s`, and the
connection it left. -/
structure InStep (s : Session (Serving τ)) (reply : Reply) (result : Except Fault Appended)
    (conn : Connection (Serving τ)) : Prop where
  literal : conn.stream.inner.sent =
    s.conn.stream.inner.sent ++ firstLine (s.conn.commandLine cmd.text) ++
      match reply with
      | .refuse _ => []
      | .goOn _ _ _ => cmd.content ++ [CR, LF]
  refused : ∀ done, reply = .refuse done → ∃ e, result = .error (.err e)
  returned : result ≠ .error .panic →
    conn.stream.inner.peer.stage = .line [] ∧ conn.input = []

/-- `finish`, called in the state `s`, keeps the two ends in step. -/
def FinishesInStep (s : Session (Serving τ)) (reply : Reply) : Prop :=
  InStep cmd s reply (cmd.finish (feed server.step) parse s).1
    (cmd.finish (feed server.step) parse s).2.conn

/-- The server answers the command with one line: it refuses, or it goes on. -/
def AnswersAtOnce (us : List Bytes) (reply : Reply) : Prop :=
  us = [] ∧ ∀ done, reply = .refuse done → linesOf LF done = [done]

/-- The command has been written and its first line answered. What came after that line is
answered by `later`; if nothing did, the server waits for what it has asked for. -/
structure Arrived (s : Session (Serving τ)) (conn : Connection (Serving τ))
    (later : List InEvent) : Prop where
  reliable : conn.stream.Reliable
  empty : conn.stream.wbuf = []
  sent : conn.stream.inner.sent = s.conn.stream.inner.sent ++ s.conn.commandLine cmd.text
  input : conn.input =
    (server.command s.conn.stream.inner.peer.state
      (firstLine (s.conn.commandLine cmd.text))).2.2.flatMap ReadEvent.events ++ later
  whole : cmd.OneLine → later = [] ∧ conn.stream.inner.peer =
    (server.receive s.conn.stream.inner.peer.state (s.conn.commandLine cmd.text)).1

variable {parse server cmd}

variable (parse) in
theorem converse_refused {σ : Type} {peer : Peer σ} {conn conn1 conn2 : Connection σ}
    {sent : Bool} {v : Bytes} (hsend : Connection.send peer cmd.command conn = (.ok sent, conn1))
    (hread : Connection.readline [] conn1 = (.ok v, conn2)) (hv : v.head? ≠ some PLUS) :
    cmd.converse peer parse conn = (.error (.err .append), conn2) := by
  rw [converse, Exec.bind_ok hsend, Exec.bind_ok hread, if_pos hv]
  rfl

variable (parse) in
theorem converse_goOn {σ : Type} {peer : Peer σ} {conn conn1 conn2 : Connection σ}
    {sent : Bool} {v : Bytes} {s1 s2 s3 : BufStream σ}
    (hsend : Connection.send peer cmd.command conn = (.ok sent, conn1))
    (hread : Connection.readline [] conn1 = (.ok v, conn2)) (hv : v.head? = some PLUS)
    (h1 : BufStream.writeAll peer cmd.content conn2.stream = (.ok (), s1))
    (h2 : BufStream.writeAll peer [CR, LF] s1 = (.ok (), s2))
    (h3 : BufStream.flush peer s2 = (.ok (), s3)) :
    cmd.converse peer parse conn =
      Connection.readResponse parse { conn2 with stream := s3 } := by
  rw [converse, Exec.bind_ok hsend, Exec.bind_ok hread, if_neg (not_not_intro hv)]
  simp only [Exec.bind_apply, Connection.io_apply, h1, h2, h3, Except.mapError]

/-- Parsing the answer does not touch the connection. -/
theorem finish_converse {σ : Type} {peer : Peer σ} {s : Session σ} {conn : Connection σ}
    {r : Except Fault (Bytes × Nat)} (h : cmd.converse peer parse s.conn = (r, conn)) :
    (cmd.finish peer parse s).2.conn = conn ∧
      ∀ e, r = .error e → (cmd.finish peer parse s).1 = .error e := by
  have hconn : Session.onConn (cmd.converse peer parse) s = (r, { s with conn }) := by
    simp only [Session.onConn, Exec.on, h]
  cases r with
  | error e =>
      rw [finish, Exec.bind_error hconn]
      exact ⟨rfl, fun e' he => by cases he; rfl⟩
  | ok lines =>
      rw [finish, Exec.bind_ok hconn]
      exact ⟨rfl, fun e he => by cases he⟩

theorem firstLine_commandLine {σ : Type} (conn : Connection σ) :
    firstLine (conn.commandLine cmd.text) = conn.commandLine cmd.text ↔ cmd.OneLine := by
  have free : LF ∉ utf8 (matchTag (conn.tag + 1) ++ ' ' :: cmd.text) ++ [CR] ↔ cmd.OneLine := by
    have tag : '\n' ∉ matchTag (conn.tag + 1) :=
      Connection.not_mem_matchTag (by decide) (by decide) _
    have hne : LF ≠ CR := by decide
    rw [← not_LF_mem_text, List.mem_append, LF_mem_utf8]
    simp [tag, hne]
  rw [← free, ← firstLine_eq_iff, List.append_assoc]
  rfl

theorem announced_commandLine {σ : Type} (conn : Connection σ) :
    announced (conn.commandLine cmd.text) = some cmd.content.length := by
  obtain ⟨pre, htext⟩ := cmd.text_announcement
  have hline : conn.commandLine cmd.text =
      utf8 (matchTag (conn.tag + 1) ++ ' ' :: pre) ++ utf8 cmd.announcement ++ [CR, LF] := by
    rw [Connection.commandLine, htext, ← utf8_append, List.append_assoc, List.cons_append]
  rw [hline, announced_announcement]

variable (server cmd) in
/-- The command reaches the server, which answers its first line. -/
theorem Ready.sends {s : Session (Serving τ)} (h : Ready s) :
    ∃ conn later, Connection.send (feed server.step) cmd.command s.conn = (.ok true, conn) ∧
      Arrived server cmd s conn later := by
  obtain ⟨conn, hrun, -, -, -, delivered⟩ := Connection.runCommand_delivered server.step
    h.reliable h.empty cmd.text
  have hsend := Connection.send_some (feed server.step) cmd.text_command s.conn
  rw [hrun] at hsend
  have hpeer : s.conn.stream.inner.peer = ⟨s.conn.stream.inner.peer.state, .line []⟩ := by
    rw [← h.stage]
  have arrived := delivered.arrived
  rw [hpeer, h.input, BufStream.after] at arrived
  obtain ⟨hpeer1, hinput1⟩ := Prod.mk.inj arrived
  obtain ⟨later, hlater⟩ := server.feed_first s.conn.stream.inner.peer.state
    (show LF ∈ s.conn.commandLine cmd.text by simp [Connection.commandLine])
  refine ⟨conn, later.flatMap ReadEvent.events, hsend, delivered.reliable, delivered.empty,
    delivered.sent, ?_, fun hone => ?_⟩
  · rw [hinput1, hlater, List.nil_append, List.flatMap_append]
    rfl
  · have hfed : feed server.step ⟨s.conn.stream.inner.peer.state, .line []⟩
        (s.conn.commandLine cmd.text) =
        server.receive s.conn.stream.inner.peer.state (s.conn.commandLine cmd.text) := by
      obtain ⟨line, rest, hline, hfree, hfirst⟩ :=
        firstLine_of_mem (show LF ∈ s.conn.commandLine cmd.text by simp [Connection.commandLine])
      rw [(firstLine_commandLine s.conn).mpr hone] at hfirst
      rw [hfirst, server.feed_line _ [] hfree, List.nil_append]
    rw [hfed] at hpeer1 hlater
    rw [(firstLine_commandLine s.conn).mpr hone] at hlater
    obtain rfl : later = [] := by simpa using hlater
    exact ⟨rfl, hpeer1⟩

/-- Reading the first line of a text that does not begin with an empty line. -/
theorem readline_first {σ : Type} {conn : Connection σ} {text : Bytes} {more : List InEvent}
    {b : UInt8} (hinput : conn.input = text.map .item ++ more) (hhead : text.head? = some b)
    (hb : b ≠ LF) (hlast : text.getLast? = some LF) :
    ∃ line rest, text = line ++ rest ∧ line.head? = some b ∧
      (rest = [] ↔ linesOf LF text = [text]) ∧
      Connection.readline [] conn = (.ok line, conn.nextLine) ∧
      conn.nextLine.input = rest.map .item ++ more := by
  have hne : text ≠ [] := by
    rintro rfl
    cases hhead
  obtain ⟨line, rest, hline, rfl, hrest, hlines, htake⟩ := takeLine_append hne hlast more
  have hfirst : line.head? = some b := by
    rwa [List.head?_append_of_ne_nil _ hline] at hhead
  have single : rest = [] ↔ linesOf LF (line ++ rest) = [line ++ rest] := by
    rw [hlines, List.cons.injEq]
    constructor
    · rintro rfl
      exact ⟨(List.append_nil line).symm, rfl⟩
    · rintro ⟨heq, -⟩
      exact List.append_cancel_left (by rw [List.append_nil]; exact heq.symm)
  have hend : line.getLast? = some LF := by
    rcases (takeLine_line htake hline).2 with hend | hnil
    · exact hend
    · have hrest : rest = [] := List.map_eq_nil_iff.mp (List.append_eq_nil_iff.mp hnil).1
      rwa [hrest, List.append_nil] at hlast
  have hlong : 2 ≤ line.length := by
    match line, hfirst, hend with
    | [c], hfirst, hend =>
        cases hfirst
        cases hend
        exact absurd rfl hb
    | _ :: _ :: _, _, _ => simp
  rw [← hinput] at htake
  obtain ⟨hread, hin⟩ := Connection.readline_eq htake []
  refine ⟨line, rest, rfl, hfirst, single, ?_, hin⟩
  rw [hread, Connection.lineResult, if_neg hline,
    if_pos (Connection.printable_eq_true.mpr fun _ => hlong), List.nil_append]

variable (parse) in
/-- A first line that is no continuation ends the call. -/
theorem Arrived.gives_up {s : Session (Serving τ)} {conn1 : Connection (Serving τ)}
    {later : List InEvent} (h : Arrived server cmd s conn1 later)
    (hsend : Connection.send (feed server.step) cmd.command s.conn = (.ok true, conn1))
    {text : Bytes} (hinput : conn1.input = text.map .item ++ later) {b : UInt8}
    (hhead : text.head? = some b) (hb : b ≠ LF) (hplus : b ≠ PLUS)
    (hlast : text.getLast? = some LF) :
    ∃ rest, (cmd.finish (feed server.step) parse s).1 = .error (.err .append) ∧
      (cmd.finish (feed server.step) parse s).2.conn = conn1.nextLine ∧
      conn1.nextLine.stream.inner.sent =
        s.conn.stream.inner.sent ++ s.conn.commandLine cmd.text ∧
      conn1.nextLine.stream.inner.peer = conn1.stream.inner.peer ∧
      conn1.nextLine.input = rest.map .item ++ later ∧
      (rest = [] ↔ linesOf LF text = [text]) := by
  obtain ⟨line, rest, rfl, hline, hrest, hread, hin⟩ := readline_first hinput hhead hb hlast
  have hrefused : line.head? ≠ some PLUS := by
    rw [hline]
    exact fun heq => hplus (Option.some.inj heq)
  obtain ⟨hconn, herr⟩ := finish_converse (converse_refused parse hsend hread hrefused)
  have hon := Connection.readOn_nextLine conn1
  exact ⟨rest, herr _ rfl, hconn, hon.sent.trans h.sent, hon.peer, hin, hrest⟩

/-- After a continuation the literal is sent and its answer read. -/
theorem Arrived.goes_on (hp : parse.Framed LF) {s : Session (Serving τ)}
    {conn1 : Connection (Serving τ)} {later : List InEvent}
    (h : Arrived server cmd s conn1 later)
    (hsend : Connection.send (feed server.step) cmd.command s.conn = (.ok true, conn1))
    {plus done : Bytes} {more : List Bytes}
    (hs : Answers parse server cmd s [] (.goOn plus more done)) :
    ∃ conn, (cmd.finish (feed server.step) parse s).2.conn = conn ∧
      conn.stream.inner.sent = s.conn.stream.inner.sent ++ s.conn.commandLine cmd.text ++
        (cmd.content ++ [CR, LF]) ∧
      (cmd.OneLine → (cmd.finish (feed server.step) parse s).1 ≠ .error .panic →
        conn.stream.inner.peer.stage = .line [] ∧ conn.input = []) := by
  obtain ⟨hasks, ⟨hhead, hlast, hone⟩, hmore, ⟨status, htagged⟩, hsecond⟩ := hs.reply
  have hinput := h.input
  rw [hs.first] at hinput
  obtain ⟨line, rest, rfl, hline, hrest, hread, hin⟩ :=
    readline_first hinput hhead (by decide) hlast
  obtain rfl : rest = [] := hrest.mpr hone
  have hon := Connection.readOn_nextLine conn1
  have hrel2 : conn1.nextLine.stream.Reliable := by
    unfold BufStream.Reliable
    rw [hon.writes]
    exact h.reliable
  obtain ⟨s1, s2, s3, h1, h2, h3, delivered⟩ := Connection.write_delivered server.step hrel2
    (hon.wbuf.trans h.empty) cmd.content
  obtain ⟨us, u, conn4, hrun, hres, hrest4, hon4⟩ := Connection.readResponse_answer parse
    { conn1.nextLine with stream := s3 }
  have hconverse := converse_goOn parse hsend hread hline h1 h2 h3
  rw [hres] at hconverse
  obtain ⟨hconn, herr⟩ := finish_converse hconverse
  refine ⟨conn4, hconn, ?_, fun hwhole hreturned => ?_⟩
  · rw [hon4.sent, delivered.sent, hon.sent, h.sent]
  · obtain ⟨rfl, hpeer⟩ := h.whole hwhole
    -- the literal is what the server has been waiting for
    have hstage : conn1.nextLine.stream.inner.peer =
        ⟨(server.command s.conn.stream.inner.peer.state (s.conn.commandLine cmd.text)).1,
          .literal cmd.content.length []⟩ := by
      rw [(firstLine_commandLine s.conn).mpr hwhole] at hasks
      rw [hon.peer, hpeer, AppendServer.receive]
      simp only [AppendServer.awaits, hasks, announced_commandLine]
    have arrived := delivered.arrived
    rw [hstage, hin, BufStream.after, server.feed_message] at arrived
    obtain ⟨hpeer3, hinput3⟩ := Prod.mk.inj arrived
    refine ⟨by rw [hon4.peer.trans hpeer3]; rfl, ?_⟩
    obtain ⟨code, information, hdone⟩ := htagged.2
    obtain ⟨rs, hrs, hnot⟩ := Parser.accepts_each.mp fun c hc => (hmore c hc).2
    have answer : Connection.input { conn1.nextLine with stream := s3 } =
        (more.flatten ++ done).map .item ++ [] := by
      rw [(firstLine_commandLine s.conn).mpr hwhole] at hsecond
      rw [hinput3]
      exact (List.nil_append _).trans (hsecond.trans (List.append_nil _).symm)
    obtain hrefused | ⟨-, rfl⟩ := hrun.takes hp hrs hdone hnot rfl answer
    · exact absurd (herr .panic (by rw [Connection.answerResult, hrefused])) hreturned
    · exact hrest4

theorem linesOf_two {c t : Bytes} (hc : c ≠ []) (hclast : c.getLast? = some LF) (ht : t ≠ [])
    (htlast : t.getLast? = some LF) : linesOf LF (c ++ t) ≠ [c ++ t] := by
  obtain ⟨_, _, -, -, -, hclines, -⟩ := takeLine_append (κ := ErrorKind) hc hclast []
  obtain ⟨_, _, -, -, -, htlines, -⟩ := takeLine_append (κ := ErrorKind) ht htlast []
  intro h
  rw [linesOf_append (.inr hclast), hclines, htlines] at h
  have := congrArg List.length h
  simp only [List.cons_append, List.length_cons, List.length_append, List.length_nil] at this
  omega

/-- A refusal begins with its tag. -/
theorem tagged_text (hp : parse.Framed LF) {tag : UInt32} {d : Bytes}
    (h : AppendServer.Tagged parse tag d .no ∨ AppendServer.Tagged parse tag d .bad) :
    d.head? = some 0x61 ∧ d.getLast? = some LF := by
  obtain ⟨⟨⟨rest, rfl⟩, _, _, hd⟩⟩ | ⟨⟨⟨rest, rfl⟩, _, _, hd⟩⟩ := h <;>
    exact ⟨rfl, hp.getLast? hd⟩

theorem opening_text (hp : parse.Framed LF) {s : Session (Serving τ)} {us : List Bytes}
    {reply : Reply} (hs : Answers parse server cmd s us reply) :
    reply.opening ≠ [] ∧ reply.opening.getLast? = some LF := by
  have hreply := hs.reply
  cases reply with
  | refuse done =>
      obtain ⟨hhead, hlast⟩ := tagged_text hp hreply.2
      refine ⟨?_, hlast⟩
      rintro rfl
      cases hhead
  | goOn plus more done =>
      obtain ⟨-, ⟨hhead, hlast, -⟩, -⟩ := hreply
      refine ⟨?_, hlast⟩
      rintro rfl
      cases hhead

theorem Ready.inStep (hp : parse.Framed LF) {s : Session (Serving τ)} (h : Ready s)
    {us : List Bytes} {reply : Reply} (hs : Answers parse server cmd s us reply)
    (hone : cmd.OneLine) (honce : AnswersAtOnce us reply) :
    FinishesInStep parse server cmd s reply := by
  obtain ⟨rfl, hsingle⟩ := honce
  obtain ⟨conn, later, hsend, arrived⟩ := h.sends server cmd
  obtain ⟨rfl, hpeer⟩ := arrived.whole hone
  have hline := (firstLine_commandLine s.conn).mpr hone
  cases reply with
  | refuse done =>
      obtain ⟨hasks, hrefusal⟩ := hs.reply
      obtain ⟨hhead, hlast⟩ := tagged_text hp hrefusal
      have hinput := arrived.input
      rw [hs.first] at hinput
      obtain ⟨rest, herr, hconn, hsent, hpeer1, hin, hrest⟩ := arrived.gives_up parse hsend hinput
        hhead (by decide) (by decide) hlast
      rw [hrest.mpr (hsingle done rfl)] at hin
      rw [FinishesInStep, hconn, herr]
      refine ⟨?_, fun _ _ => ⟨_, rfl⟩, fun _ => ⟨?_, hin⟩⟩
      · rw [hsent, hline, List.append_nil]
      · rw [hline] at hasks
        rw [hpeer1, hpeer, AppendServer.receive]
        simp only [AppendServer.awaits, hasks]
  | goOn plus more done =>
      obtain ⟨conn', hconn, hsent, hend⟩ := arrived.goes_on hp hsend hs
      rw [FinishesInStep, hconn]
      refine ⟨by rw [hsent, hline], fun _ hrefuse => ?_, hend hone⟩
      cases hrefuse

theorem Ready.answersAtOnce (hp : parse.Framed LF) {s : Session (Serving τ)} (h : Ready s)
    {us : List Bytes} {reply : Reply} (hs : Answers parse server cmd s us reply)
    (hin : FinishesInStep parse server cmd s reply) : AnswersAtOnce us reply := by
  obtain ⟨conn, later, hsend, arrived⟩ := h.sends server cmd
  have hinput := arrived.input
  rw [hs.first] at hinput
  -- whatever follows the first line is still there when the call returns
  have one_line : ∀ (b : UInt8) (text : Bytes), conn.input = text.map .item ++ later →
      text.head? = some b → b ≠ LF → b ≠ PLUS → text.getLast? = some LF →
      linesOf LF text = [text] := by
    intro b text htext hhead hb hplus hlast
    obtain ⟨rest, herr, hconn, -, -, hrest, hsingle⟩ :=
      arrived.gives_up parse hsend htext hhead hb hplus hlast
    have hend := hin.returned
    rw [herr, hconn, hrest] at hend
    have hnil := (List.append_eq_nil_iff.mp (hend (by simp)).2).1
    exact hsingle.mp (List.map_eq_nil_iff.mp hnil)
  obtain ⟨hne, hlast⟩ := opening_text hp hs
  cases us with
  | nil =>
      refine ⟨rfl, ?_⟩
      rintro done rfl
      obtain ⟨hhead, -⟩ := tagged_text hp hs.reply.2
      exact one_line 0x61 done hinput hhead (by decide) (by decide) hlast
  | cons c cs =>
      obtain ⟨hhead, r, hc, -⟩ := hs.untagged c List.mem_cons_self
      rw [List.flatten_cons, List.append_assoc] at hinput
      have htail : cs.flatten ++ reply.opening ≠ [] := by simp [hne]
      have htaillast : (cs.flatten ++ reply.opening).getLast? = some LF := by
        rw [List.getLast?_append_of_ne_nil _ hne, hlast]
      have single := one_line STAR _ hinput
        (by rw [List.head?_append_of_ne_nil _ hc.ne_nil, hhead]) (by decide) (by decide)
        (by rw [List.getLast?_append_of_ne_nil _ htail, htaillast])
      exact absurd single (linesOf_two hc.ne_nil (hp.getLast? hc) htail htaillast)

/-- What is left of a command of several lines reaches the server after its reply, where it
waits for a literal or for nothing. -/
theorem Ready.oneLine (hp : parse.Framed LF) {s : Session (Serving τ)} (h : Ready s)
    {us : List Bytes} {reply : Reply} (hs : Answers parse server cmd s us reply)
    (hin : FinishesInStep parse server cmd s reply) : cmd.OneLine := by
  obtain ⟨rfl, -⟩ := h.answersAtOnce hp hs hin
  obtain ⟨conn, later, hsend, arrived⟩ := h.sends server cmd
  have hliteral := hin.literal
  rw [← firstLine_commandLine s.conn]
  cases reply with
  | refuse done =>
      obtain ⟨hhead, hlast⟩ := tagged_text hp hs.reply.2
      have hinput := arrived.input
      rw [hs.first] at hinput
      obtain ⟨rest, -, hconn, hsent, -⟩ := arrived.gives_up parse hsend hinput hhead
        (by decide) (by decide) hlast
      rw [hconn, hsent, List.append_nil] at hliteral
      exact (List.append_cancel_left hliteral).symm
  | goOn plus more done =>
      obtain ⟨conn', hconn, hsent, -⟩ := arrived.goes_on hp hsend hs
      rw [hconn, hsent] at hliteral
      exact (List.append_cancel_left (List.append_cancel_right hliteral)).symm

/-- `finish` keeps the two ends in step exactly when the command is one line and the server
answers it at once, in one line. -/
theorem finish_inStep (hp : parse.Framed LF) {s : Session (Serving τ)} (h : Ready s)
    {us : List Bytes} {reply : Reply} (hs : Answers parse server cmd s us reply) :
    FinishesInStep parse server cmd s reply ↔ cmd.OneLine ∧ AnswersAtOnce us reply :=
  ⟨fun hin => ⟨h.oneLine hp hs hin, h.answersAtOnce hp hs hin⟩,
    fun hcond => h.inStep hp hs hcond.1 hcond.2⟩

def appendMessages : List (Bytes × Response) :=
  [(utf8 "* 1 EXISTS\r\n".toList, .mailboxData (.exists_ 1)),
    (utf8 "a1 OK\r\n".toList, .done "a1".toList .ok none none)]

def appendParse : ParseResponse := Parser.table appendMessages (by decide)

theorem appendParse_framed : appendParse.Framed LF :=
  Parser.table_framed _ (by decide) (by decide)

/-- A server that asks for the literal that a line announces, after some untagged responses. -/
def asking (us : List Bytes) : AppendServer Unit where
  command _ line :=
    if announced line = none then ((), false, ReadEvent.chunk (utf8 "a1 BAD\r\n".toList))
    else ((), true, ReadEvent.chunk (us.flatten ++ utf8 "+ go\r\n".toList))
  message _ _ := ((), ReadEvent.chunk (utf8 "a1 OK\r\n".toList))

def goesOn : Reply := .goOn (utf8 "+ go\r\n".toList) [] (utf8 "a1 OK\r\n".toList)

def greetings : AppendCmd :=
  { content := utf8 "hi\nyou".toList, mailbox := "INBOX".toList, flags := [.seen], date := none }

/-- A session before its first command. -/
def beforehand : Session (Serving Unit) :=
  .new <| Client.new
    { peer := ⟨(), .line []⟩, incoming := [], writes := [], timeouts := [], readTimeout := none,
      wire := [] }

theorem beforehand_ready : Ready beforehand where
  reliable := by simp [BufStream.Reliable, beforehand, Session.new, Client.new, BufStream.new]
  empty := rfl
  input := rfl
  stage := rfl

theorem asking_answers {us : List Bytes} (h : ∀ c ∈ us, AppendServer.Untagged appendParse c) :
    Answers appendParse (asking us) greetings beforehand us goesOn := by
  have asked : (asking us).command () (firstLine (beforehand.conn.commandLine greetings.text)) =
      ((), true, ReadEvent.chunk (us.flatten ++ utf8 "+ go\r\n".toList)) := by
    simp only [asking]
    exact if_neg (by decide)
  refine ⟨h, ?_, congrArg (fun c => c.2.1) asked, ⟨by decide, by decide,
    by decide⟩, by simp, ⟨.ok, ?_⟩, ReadEvent.events_chunk (utf8 "a1 OK\r\n".toList)⟩
  · exact (congrArg (fun c => c.2.2.flatMap ReadEvent.events) asked).trans
      (ReadEvent.events_chunk _)
  · exact ⟨⟨utf8 " OK\r\n".toList, by decide⟩, none, none,
      show appendParse.run (utf8 "a1 OK\r\n".toList) = _ by decide⟩

theorem finish_inStep_asking :
    FinishesInStep appendParse (asking []) greetings beforehand goesOn :=
  (finish_inStep appendParse_framed beforehand_ready (asking_answers (by simp))).mpr
    ⟨⟨by decide, by decide⟩, rfl, fun _ h => by cases h⟩

/-- The mailbox ends the line. The server refuses what it takes for the command, and asks for
the literal that the rest announces. -/
example : (({ greetings with mailbox := "IN\r\nBOX".toList } : AppendCmd).finish
    (feed (asking []).step) appendParse beforehand).2.conn.stream.inner.peer.stage =
      .literal greetings.content.length [] := by decide

/-- The message count comes first: the client gives up, and the server still waits for the
literal. -/
theorem finish_inStep_fails :
    ¬ ∀ (parse : ParseResponse) (server : AppendServer Unit) (cmd : AppendCmd)
      (s : Session (Serving Unit)) (us : List Bytes) (reply : Reply), parse.Framed LF →
      Ready s → Answers parse server cmd s us reply →
      FinishesInStep parse server cmd s reply := by
  intro h
  let us := [utf8 "* 1 EXISTS\r\n".toList]
  have hs : Answers appendParse (asking us) greetings beforehand us goesOn := by
    refine asking_answers fun c hc => ?_
    rw [List.mem_singleton.mp hc]
    exact ⟨by decide, .mailboxData (.exists_ 1),
      show appendParse.run (utf8 "* 1 EXISTS\r\n".toList) = _ by decide, rfl⟩
  obtain ⟨hnone, -⟩ := beforehand_ready.answersAtOnce appendParse_framed hs
    (h _ _ _ _ _ _ appendParse_framed beforehand_ready hs)
  exact List.cons_ne_nil _ _ hnone

end AppendCmd

end RustImap
