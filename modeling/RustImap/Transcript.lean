import RustImap.Draining
import RustImap.Synchronisation

/-!
What a server gets to read.

Where writes do not fail, the bytes a session sends are the lines of the commands that were
accepted, numbered one after the other and nothing in between, whatever the server answers. If
every command is one line, the bytes say which commands they were.
-/

namespace RustImap

open Exec (Simulates Program Paired)

variable {σ : Type}

/-- The line of the command that is given this tag. -/
def commandBytes (tag : UInt32) (text : Str) : Bytes :=
  utf8 (matchTag tag ++ ' ' :: text) ++ [CR, LF]

theorem commandBytes_line (tag : UInt32) (text : Str) :
    commandBytes tag text = utf8 (matchTag tag ++ ' ' :: text) ++ [CR] ++ [LF] := by
  rw [commandBytes, List.append_assoc]
  rfl

/-- The lines of commands that are numbered from the tag on. -/
def commandLines : UInt32 → List Str → List Bytes
  | _, [] => []
  | tag, text :: texts => commandBytes (tag + 1) text :: commandLines (tag + 1) texts

theorem commandLines_append (tag : UInt32) (texts texts' : List Str) :
    commandLines tag (texts ++ texts') =
      commandLines tag texts ++ commandLines (tag + UInt32.ofNat texts.length) texts' := by
  induction texts generalizing tag with
  | nil =>
      have same : tag + UInt32.ofNat 0 = tag := UInt32.add_zero tag
      rw [List.length_nil, same]
      rfl
  | cons text texts ih =>
      have count : tag + 1 + UInt32.ofNat texts.length =
          tag + UInt32.ofNat (texts.length + 1) := by
        rw [UInt32.ofNat_add, UInt32.add_assoc, UInt32.add_comm 1]
        rfl
      rw [List.cons_append, commandLines, ih, List.length_cons, count]
      rfl

theorem utf8_inj {s t : Str} (h : utf8 s = utf8 t) : s = t := by
  have back := congrArg fromUtf8 h
  rw [fromUtf8_utf8, fromUtf8_utf8] at back
  exact Option.some.inj back

/-- The first line says what the first command was. -/
theorem commandBytes_inj {tag : UInt32} {text text' : Str} (h : SingleLine text)
    (h' : SingleLine text') {rest rest' : Bytes}
    (heq : commandBytes tag text ++ rest = commandBytes tag text' ++ rest') :
    text = text' ∧ rest = rest' := by
  have first (text : Str) (rest : Bytes) (h : SingleLine text) :
      cut LF (commandBytes tag text ++ rest) = some (commandBytes tag text, rest) := by
    have line := Parser.cut_line (Connection.LF_not_mem_command h tag) rest
    rw [commandBytes_line, List.append_assoc]
    exact line
  have both := (first text rest h).symm.trans ((congrArg (cut LF) heq).trans (first text' rest' h'))
  obtain ⟨hline, hrest⟩ := Prod.mk.inj (Option.some.inj both)
  refine ⟨?_, hrest⟩
  have hbody := utf8_inj (List.append_cancel_right hline)
  exact List.cons.inj (List.append_cancel_left hbody) |>.2

/-- Lines of commands are read back in one way only. -/
theorem commandLines_inj {tag : UInt32} {texts texts' : List Str}
    (h : ∀ text ∈ texts, SingleLine text) (h' : ∀ text ∈ texts', SingleLine text)
    (heq : (commandLines tag texts).flatten = (commandLines tag texts').flatten) :
    texts = texts' := by
  induction texts generalizing tag texts' with
  | nil =>
      cases texts' with
      | nil => rfl
      | cons text texts' =>
          rw [commandLines, commandLines, List.flatten_cons, List.flatten_nil] at heq
          exact absurd heq.symm (by simp [commandBytes])
  | cons text texts ih =>
      cases texts' with
      | nil =>
          rw [commandLines, commandLines, List.flatten_cons, List.flatten_nil] at heq
          exact absurd heq (by simp [commandBytes])
      | cons text' texts' =>
          rw [commandLines, commandLines, List.flatten_cons, List.flatten_cons] at heq
          obtain ⟨rfl, hrest⟩ := commandBytes_inj (h _ List.mem_cons_self)
            (h' _ List.mem_cons_self) heq
          have later := ih (fun t ht => h t (List.mem_cons_of_mem _ ht))
            (fun t ht => h' t (List.mem_cons_of_mem _ ht)) hrest
          rw [later]

namespace Connection

/-- No write fails, and none is under way. -/
structure Ready (conn : Connection σ) : Prop where
  reliable : conn.stream.Reliable
  flushed : conn.stream.wbuf = []

/-- Between the two, these commands have been sent and nothing else. -/
structure Sends (conn conn' : Connection σ) (texts : List Str) : Prop where
  ready : conn'.Ready
  tag : conn'.tag = conn.tag + UInt32.ofNat texts.length
  sent : conn'.stream.inner.sent =
    conn.stream.inner.sent ++ (commandLines conn.tag texts).flatten

variable {peer : Peer σ} {parse : ParseResponse} {a b c : Connection σ} {texts texts' : List Str}

theorem Sends.refl (h : a.Ready) : Sends a a [] :=
  ⟨h, (UInt32.add_zero a.tag).symm, (List.append_nil _).symm⟩

theorem Sends.trans (h : Sends a b texts) (h' : Sends b c texts') :
    Sends a c (texts ++ texts') := by
  refine ⟨h'.ready, ?_, ?_⟩
  · rw [h'.tag, h.tag, List.length_append, UInt32.ofNat_add, UInt32.add_assoc]
  · rw [h'.sent, h.sent, h.tag, commandLines_append, List.flatten_append, List.append_assoc]

/-- Reading sends nothing. -/
theorem Sends.reading (h : a.Ready) (hon : ReadOn a b) : Sends a b [] := by
  refine ⟨⟨?_, hon.wbuf.trans h.flushed⟩, ?_, ?_⟩
  · intro e he
    rw [hon.writes] at he
    exact h.reliable e he
  · rw [hon.tag]
    exact (UInt32.add_zero a.tag).symm
  · rw [hon.sent]
    exact (List.append_nil _).symm

variable (peer) in
theorem runCommand_sends (h : a.Ready) (text : Str) :
    ∃ b, runCommand peer text a = (.ok (), b) ∧ Sends a b [text] := by
  obtain ⟨hok, hreliable⟩ := runCommand_reliable peer h.reliable text
  obtain ⟨w, htotal, -, -, ⟨-, rfl, htag, hempty⟩ | ⟨k, herr, -⟩⟩ := runCommand_total peer text a
  · refine ⟨_, Prod.ext hok rfl, ⟨hreliable, hempty⟩, htag, ?_⟩
    simp only [Connection.total, BufStream.total, hempty, h.flushed, List.append_nil] at htotal
    rw [htotal, commandLines, commandLines, List.flatten_cons, List.flatten_nil, List.append_nil]
    rfl
  · rw [hok] at herr
    cases herr

theorem run_sends (h : a.Ready) (text : Str) : Sends a (run peer parse text a).2 [text] := by
  obtain ⟨b, hrun, hsends⟩ := runCommand_sends peer h text
  obtain ⟨us, u, c, -, hread, -, hon⟩ := readResponse_answer parse b
  rw [run, Exec.bind_ok hrun, hread]
  exact hsends.trans (.reading hsends.ready hon)

end Connection

/-- What the command has to send: nothing, if an argument is refused. -/
def Command.sent (c : Command) : List Str :=
  match c.text with
  | .ok (some text) => [text]
  | _ => []

theorem Connection.command_sends {peer : Peer σ} {parse : ParseResponse} {conn : Connection σ}
    (h : conn.Ready) (c : Command) :
    Sends conn (Connection.command peer parse c conn).2 c.sent := by
  unfold Command.sent
  cases htext : c.text with
  | error e =>
      rw [command_failed (send_rejected htext conn)]
      exact .refl h
  | ok sent =>
      cases sent with
      | none =>
          rw [Connection.command, Exec.bind_ok (send_none htext conn)]
          exact .refl h
      | some text =>
          rw [command_run htext]
          exact run_sends h text

namespace Session

variable {peer : Peer σ} {parse : ParseResponse}

/-- A session and the commands it has sent. -/
structure Journaled (σ : Type) where
  session : Session σ
  journal : List Str

namespace Journaled

/-- Run a computation and note these commands, whatever it comes to. -/
def noting {α : Type} (texts : List Str) (x : Exec (Session σ) Fault α) :
    Exec (Journaled σ) Fault α := fun j =>
  ((x j.session).1, ⟨(x j.session).2, j.journal ++ texts⟩)

/-- The operations of a session, and what they note. -/
inductive Counterpart (peer : Peer σ) (parse : ParseResponse) :
    {α : Type} → Exec (Session σ) Fault α → Exec (Journaled σ) Fault α → Prop
  | execute {c : Command} {op : Exec (Session σ) Fault Value} :
      execute peer parse c = some op → Counterpart peer parse op (noting c.sent op)
  | runCommand (text : Str) :
      Counterpart peer parse (onConn (Connection.runCommand peer text))
        (noting [text] (onConn (Connection.runCommand peer text)))
  | run (text : Str) :
      Counterpart peer parse (onConn (Connection.run peer parse text))
        (noting [text] (onConn (Connection.run peer parse text)))
  | takeAllUnsolicited :
      Counterpart peer parse takeAllUnsolicited (noting [] takeAllUnsolicited)

/-- The session has sent what the journal says. -/
def Holds (start : Connection σ) (s : Session σ) (j : Journaled σ) : Prop :=
  s = j.session ∧ start.Sends s.conn j.journal

theorem Counterpart.simulates {start : Connection σ} {α : Type} {x : Exec (Session σ) Fault α}
    {y : Exec (Journaled σ) Fault α} (h : Counterpart peer parse x y) :
    Simulates (Holds start) Eq x y := by
  rintro s j ⟨rfl, hsends⟩
  have noted {texts : List Str} {z : Exec (Session σ) Fault α}
      (hz : Connection.Sends j.session.conn (z j.session).2.conn texts) :
      Exec.Agree Eq (z j.session).1 (noting texts z j).1 ∧
        Holds start (z j.session).2 (noting texts z j).2 :=
    ⟨.refl _, rfl, hsends.trans hz⟩
  cases h with
  | @execute c op hop =>
      apply noted
      rw [Completes.conn (.command hop)]
      exact Connection.command_sends hsends.ready c
  | runCommand text =>
      apply noted
      obtain ⟨conn, hrun, hconn⟩ := Connection.runCommand_sends peer hsends.ready text
      simp only [onConn, Exec.on, hrun]
      exact hconn
  | run text => exact noted (Connection.run_sends hsends.ready text)
  | takeAllUnsolicited => exact noted (.refl hsends.ready)

/-- Every program sends the numbered lines of the commands it runs, in order and nothing else;
if they are single lines, the bytes sent say which commands they were. -/
theorem transcript {α : Type} {x : Exec (Session σ) Fault α}
    (h : Program (fun x => ∃ y, Counterpart peer parse x y) caught x) {s : Session σ}
    (hs : s.conn.Ready) :
    (∃ y, Paired (Counterpart peer parse) caught x y) ∧
      ∀ y, Paired (Counterpart peer parse) caught x y →
        (x s).1 = (y ⟨s, []⟩).1 ∧ (x s).2 = (y ⟨s, []⟩).2.session ∧
        s.conn.Sends (x s).2.conn (y ⟨s, []⟩).2.journal ∧
        ((∀ text ∈ (y ⟨s, []⟩).2.journal, SingleLine text) →
          ∀ texts : List Str, (∀ text ∈ texts, SingleLine text) →
            (x s).2.conn.stream.inner.sent =
              s.conn.stream.inner.sent ++ (commandLines s.conn.tag texts).flatten →
            texts = (y ⟨s, []⟩).2.journal) := by
  refine ⟨h.exists_paired fun hop => hop, fun y hy => ?_⟩
  obtain ⟨hagree, hsession, hsends⟩ :=
    hy.simulates Counterpart.simulates s ⟨s, []⟩ ⟨rfl, .refl hs⟩
  refine ⟨hagree.eq, hsession, hsends, fun hsingle texts htexts hbytes => ?_⟩
  exact commandLines_inj htexts hsingle (List.append_cancel_left (hbytes.symm.trans hsends.sent))

theorem takeTwice_journaled :
    Program (fun x => ∃ y, Counterpart expunging expungeParse x y) caught Logged.takeTwice := by
  have once : Program (fun x => ∃ y, Counterpart expunging expungeParse x y) caught
      Logged.noopAndTake :=
    .bind (.op ⟨_, .execute (c := .noop) rfl⟩) fun _ => .op ⟨_, .takeAllUnsolicited⟩
  exact .bind once fun _ => once

theorem opened_ready : opened.conn.Ready :=
  ⟨fun _ he => (by cases he), rfl⟩

theorem transcript_takeTwice :
    (∃ y, Paired (Counterpart expunging expungeParse) caught Logged.takeTwice y) ∧
      ∀ y, Paired (Counterpart expunging expungeParse) caught Logged.takeTwice y →
        (Logged.takeTwice opened).1 = (y ⟨opened, []⟩).1 ∧
        (Logged.takeTwice opened).2 = (y ⟨opened, []⟩).2.session ∧
        opened.conn.Sends (Logged.takeTwice opened).2.conn (y ⟨opened, []⟩).2.journal ∧
        ((∀ text ∈ (y ⟨opened, []⟩).2.journal, SingleLine text) →
          ∀ texts : List Str, (∀ text ∈ texts, SingleLine text) →
            (Logged.takeTwice opened).2.conn.stream.inner.sent =
              opened.conn.stream.inner.sent ++ (commandLines opened.conn.tag texts).flatten →
            texts = (y ⟨opened, []⟩).2.journal) :=
  transcript takeTwice_journaled opened_ready

end Journaled

end Session

end RustImap
