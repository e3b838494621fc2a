import RustImap.Scanner
import RustImap.Speaking

/-!
Where the unsolicited responses come from.

The record of the reads says which responses have come in, whatever was done with them. Every
response a session hands out or keeps is one of these, none is there twice, and they are in the
order in which they were read, whatever the server sends and whatever fails.
-/

namespace RustImap

open Exec (Simulates Paired Program)
open UnsolicitedResponse (tryFrom)

variable {σ : Type}

namespace Scan

variable (parse : ParseResponse) (debug : Bool)

/-- What a read adds. After one that fails, or comes to the end, or cannot be printed, the next
answer begins. -/
def hear (s : Scan UInt8 Response) : Wire → Scan UInt8 Response
  | .sent _ => s
  | .read _ (some _) => { s with v := [] }
  | .read line none =>
      if line = [] ∨ (debug && decide (line.length < 2)) = true then { s with v := [] }
      else s.line parse (fun _ => false) line

def hears (s : Scan UInt8 Response) (traffic : List Wire) : Scan UInt8 Response :=
  traffic.foldl (hear parse debug) s

end Scan

/-- The responses that have come in. -/
def responsesOn (parse : ParseResponse) (debug : Bool) (traffic : List Wire) : List Response :=
  (Scan.start.hears parse debug traffic).messages

namespace Scan

variable {parse : ParseResponse} {debug : Bool}

theorem hears_append (s : Scan UInt8 Response) (w w' : List Wire) :
    s.hears parse debug (w ++ w') = (s.hears parse debug w).hears parse debug w' :=
  List.foldl_append

theorem hears_singleton (s : Scan UInt8 Response) (read : Wire) :
    s.hears parse debug [read] = s.hear parse debug read := rfl

theorem hears_sent (s : Scan UInt8 Response) (chunks : List Bytes) :
    s.hears parse debug (chunks.map .sent) = s := by
  induction chunks with
  | nil => rfl
  | cons chunk chunks ih => exact ih

end Scan

/-- The message that ended a read. -/
def Stop.units {κ ρ : Type} : Stop κ ρ → List ρ
  | .unit r => [r]
  | _ => []

namespace Connection

variable {parse : ParseResponse}

theorem nextLine_wire {conn : Connection σ} {line : Bytes} {failed : Option ErrorKind}
    (h : (conn.stream.readUntil LF).1 = (line, failed)) :
    conn.nextLine.stream.inner.wire = conn.stream.inner.wire ++ [.read line failed] := by
  obtain ⟨rfl, rfl⟩ := Prod.mk.inj h
  rfl

/-- The debug output gets through the line. -/
theorem hear_printable {conn : Connection σ} {line : Bytes} (hl : line ≠ [])
    (hp : conn.printable line = true) (s : Scan UInt8 Response) :
    s.hear parse conn.debug (.read line none) = s.line parse (fun _ => false) line := by
  refine if_neg ?_
  rintro (hnil | hrefused)
  · exact hl hnil
  · rw [printable, hrefused] at hp
    cases hp

theorem hear_refused {conn : Connection σ} {line : Bytes}
    (h : line = [] ∨ conn.printable line = false) (s : Scan UInt8 Response) :
    s.hear parse conn.debug (.read line none) = { s with v := [] } := by
  refine if_pos (h.imp_right fun hp => ?_)
  rwa [printable, Bool.not_eq_false'] at hp

theorem hear_lastRead (hp : parse.Framed LF) {conn : Connection σ} {cur line : Bytes}
    (hcur : cur = [] ∨ parse.run cur = .incomplete) {failed : Option ErrorKind}
    {stop : Stop ErrorKind Response} (hread : (conn.stream.readUntil LF).1 = (line, failed))
    (h : LastRead parse conn.printable cur line failed stop) (messages : List Response) :
    Scan.hear parse conn.debug ⟨cur, messages⟩ (.read line failed) =
      ⟨[], messages ++ stop.units⟩ := by
  have hunit := UnitRun.of_lastRead (takeLine_read hread) h
  cases h with
  | failed => simp [Scan.hear, Stop.units]
  | lost => simp [Scan.hear, Stop.units]
  | refused hl hprint => simp [hear_refused (.inr hprint), Stop.units]
  | rejected hl hprint hv =>
      rw [hear_printable hl hprint, Scan.line_error rfl hv]
      simp [Stop.units]
  | @unit _ _ r hl hprint _ =>
      have haccepts : parse.run (cur ++ line) = .ok [] r := hunit.accepts hp hcur rfl
      rw [hear_printable hl hprint, Scan.line_ok rfl haccepts]
      simp [Stop.units]

/-- What the loop reads is on the record, cut in the same way. -/
theorem Turns.hears (hp : parse.Framed LF) {cur : Bytes} {conn conn' : Connection σ}
    {us : List (Bytes × Response)} {u : UnitRead UInt8 ErrorKind Response}
    (h : Turns parse cur conn us u conn') (hcur : cur = [] ∨ parse.run cur = .incomplete)
    (messages : List Response) :
    ∃ w, conn'.stream.inner.wire = conn.stream.inner.wire ++ w ∧
      Scan.hears parse conn.debug ⟨cur, messages⟩ w =
        ⟨[], messages ++ us.map Prod.snd ++ u.stop.units⟩ := by
  induction h generalizing messages with
  | last hread hlast _ =>
      refine ⟨_, nextLine_wire hread, ?_⟩
      rw [Scan.hears_singleton, hear_lastRead hp hcur hread hlast, List.map_nil, List.append_nil]
  | line hread hl hprint hr _ ih =>
      obtain ⟨w, hwire, hscan⟩ := ih (.inr hr) messages
      refine ⟨_, by rw [hwire, nextLine_wire hread, List.append_assoc], ?_⟩
      rw [Scan.hears_append, Scan.hears_singleton, hear_printable hl hprint,
        Scan.line_incomplete rfl hr]
      exact hscan
  | @more cur line failed r conn conn' us u hread hlast _ _ ih =>
      obtain ⟨w, hwire, hscan⟩ := ih (.inl rfl) (messages ++ [r])
      refine ⟨_, by rw [hwire, nextLine_wire hread, List.append_assoc], ?_⟩
      rw [Scan.hears_append, Scan.hears_singleton, hear_lastRead hp hcur hread hlast]
      refine hscan.trans ?_
      simp

variable {peer : Peer σ} {debug : Bool} {conn : Connection σ} {w₀ : List Wire}
variable {rs : List Response}

/-- The bytes are these responses, and an `OK` after them. -/
def OkLines (parse : ParseResponse) (rs : List Response) (lines : Bytes) (ok : Nat) : Prop :=
  ∃ cs d tag code information, List.Forall₂ parse.Accepts cs rs ∧ (∀ r ∈ rs, r.isDone = false) ∧
    parse.Accepts d (.done tag .ok code information) ∧ lines = cs.flatten ++ d ∧
    ok = cs.flatten.length

/-- These responses have come in since `w₀`, and the next answer can begin. -/
structure Heard (parse : ParseResponse) (debug : Bool) (w₀ : List Wire) (rs : List Response)
    (conn : Connection σ) : Prop where
  wire : ∃ w, conn.stream.inner.wire = w₀ ++ w ∧ Scan.start.hears parse debug w = ⟨[], rs⟩
  debug : conn.debug = debug

variable (peer) in
theorem Heard.runCommand (h : Heard parse debug w₀ rs conn) (text : Str) :
    Heard parse debug w₀ rs (Connection.runCommand peer text conn).2 := by
  obtain ⟨w, hwire, hscan⟩ := h.wire
  obtain ⟨chunks, hchunks⟩ := runCommand_sentMore peer text conn
  obtain ⟨-, -, hdebug, -⟩ := runCommand_total peer text conn
  refine ⟨⟨w ++ chunks.map .sent, ?_, ?_⟩, hdebug.trans h.debug⟩
  · rw [hchunks, hwire, List.append_assoc]
  · rw [Scan.hears_append, Scan.hears_sent, hscan]

/-- What is read as an answer is heard, and parsed if it is an `OK`. -/
theorem Heard.readResponse (h : Heard parse debug w₀ rs conn) (hp : parse.Framed LF) :
    ∃ heard, Heard parse debug w₀ (rs ++ heard) (Connection.readResponse parse conn).2 ∧
      ∀ lines ok, (Connection.readResponse parse conn).1 = .ok (lines, ok) →
        ∃ rs', rs'.Sublist heard ∧ OkLines parse rs' lines ok := by
  obtain ⟨w, hwire, hscan⟩ := h.wire
  obtain ⟨us, u, conn', hreads, hread⟩ := readResponse_turns parse conn
  obtain ⟨hrun, -, hon⟩ := hreads.answer
  obtain ⟨hus, hu⟩ := hrun.accepts hp (.inl rfl)
  obtain ⟨w', hwire', hscan'⟩ := hreads.hears hp (.inl rfl) rs
  refine ⟨us.map Prod.snd ++ u.stop.units, ⟨⟨w ++ w', ?_, ?_⟩, ?_⟩, fun lines ok hok => ?_⟩
  · rw [hread, ← List.append_assoc, ← hwire]
    exact hwire'
  · rw [Scan.hears_append, hscan, ← h.debug, ← List.append_assoc]
    exact hscan'
  · rw [hread]
    exact hon.debug.trans h.debug
  · rw [hread] at hok
    obtain ⟨code, information, hstop, rfl, rfl⟩ := answerResult_ok hok
    refine ⟨us.map Prod.snd, List.sublist_append_left _ _, us.map Prod.fst, u.text, _, code,
      information, ?_, fun r hr => ?_, (hu _ hstop).1, rfl, rfl⟩
    · rw [List.forall₂_map_left_iff, List.forall₂_map_right_iff, List.forall₂_same]
      exact fun m hm => (hus m hm).1
    · obtain ⟨m, hm, rfl⟩ := List.mem_map.mp hr
      exact (hus m hm).2

variable (peer) in
theorem Heard.run (h : Heard parse debug w₀ rs conn) (hp : parse.Framed LF) (text : Str) :
    ∃ heard, Heard parse debug w₀ (rs ++ heard) (Connection.run peer parse text conn).2 ∧
      ∀ lines ok, (Connection.run peer parse text conn).1 = .ok (lines, ok) →
        ∃ rs', rs'.Sublist heard ∧ OkLines parse rs' lines ok := by
  have sending := h.runCommand peer text
  rw [Connection.run]
  cases hrun : Connection.runCommand peer text conn with
  | mk r conn' =>
      rw [hrun] at sending
      cases r with
      | error e =>
          rw [Exec.bind_error hrun]
          refine ⟨[], ?_, fun lines ok hok => by cases hok⟩
          rwa [List.append_nil]
      | ok u =>
          rw [Exec.bind_ok hrun]
          exact sending.readResponse hp

variable (peer) in
/-- A command that is not sent hears nothing. -/
theorem Heard.command (h : Heard parse debug w₀ rs conn) (hp : parse.Framed LF) (c : Command) :
    ∃ heard, Heard parse debug w₀ (rs ++ heard) (Connection.command peer parse c conn).2 ∧
      ∀ lines ok, (Connection.command peer parse c conn).1 = .ok (lines, ok) →
        (c.text = .ok none ∧ lines = [] ∧ ok = 0) ∨
          ∃ rs', rs'.Sublist heard ∧ OkLines parse rs' lines ok := by
  cases htext : c.text with
  | error e =>
      rw [command_failed (send_rejected htext conn)]
      refine ⟨[], ?_, fun lines ok hok => by cases hok⟩
      rwa [List.append_nil]
  | ok sent =>
      cases sent with
      | none =>
          rw [Connection.command, Exec.bind_ok (send_none htext conn)]
          refine ⟨[], ?_, fun lines ok hok => .inl ?_⟩
          · rwa [List.append_nil]
          · cases hok
            exact ⟨rfl, rfl, rfl⟩
      | some text =>
          rw [command_run htext]
          obtain ⟨heard, hheard, hok⟩ := h.run peer hp text
          exact ⟨heard, hheard, fun lines ok hread => .inr (hok lines ok hread)⟩

end Connection

/-- What a parser queues are responses of the answer, in their order. -/
theorem Command.SortsLike.queued {c : Command} {rs : List Response} {x : Collect Value}
    (h : c.SortsLike rs x) (q : Queue) :
    ∃ new, (x q).2 = q ++ new ∧ new.Sublist (rs.filterMap tryFrom) := by
  obtain ⟨A, intake, a, result, -, hsorts, -⟩ := h
  by_cases hfail : ∃ r ∈ rs, intake.action r = .fail
  · obtain ⟨pre, bad, post, hup⟩ := exists_givesUp hfail
    obtain ⟨e, he⟩ := hsorts.stops pre bad post hup q
    refine ⟨intake.queued pre, by rw [he], ?_⟩
    rw [hup.1]
    exact (List.filter_sublist.trans (List.sublist_append_left _ _)).filterMap tryFrom
  · have hpass : ∀ r ∈ rs, intake.action r ≠ .fail := fun r hr heq => hfail ⟨r, hr, heq⟩
    exact ⟨intake.queued rs, by rw [hsorts.passes hpass q], List.filter_sublist.filterMap tryFrom⟩

/-- Nothing is made of no answer. -/
theorem Command.conclude_nothing (c : Command) (q : Queue) : (c.conclude [] none q).2 = q := by
  cases c with
  | getMetadata mailbox entries depth maxsize => cases maxsize <;> rfl
  | _ => rfl

namespace Session

variable {peer : Peer σ} {parse : ParseResponse} {debug : Bool} {w₀ : List Wire} {q : Queue}

/-- What is on the queue besides `q` has come in since `w₀`, one after the other. -/
def Sourced (parse : ParseResponse) (debug : Bool) (w₀ : List Wire) (q : Queue)
    (s : Session σ) : Prop :=
  ∃ rs new, s.conn.Heard parse debug w₀ rs ∧ s.unsolicitedResponses = q ++ new ∧
    new.Sublist (rs.filterMap tryFrom)

theorem Sourced.append {s s' : Session σ} {rs heard : List Response} {new new' : Queue}
    (hq : s.unsolicitedResponses = q ++ new) (hnew : new.Sublist (rs.filterMap tryFrom))
    (hheard : s'.conn.Heard parse debug w₀ (rs ++ heard))
    (hq' : s'.unsolicitedResponses = s.unsolicitedResponses ++ new')
    (hnew' : new'.Sublist (heard.filterMap tryFrom)) : s'.Sourced parse debug w₀ q := by
  refine ⟨rs ++ heard, new ++ new', hheard, ?_, ?_⟩
  · rw [hq', hq, List.append_assoc]
  · rw [List.filterMap_append]
    exact hnew.append hnew'

/-- The queue may stay as it is. -/
theorem Sourced.keep {s s' : Session σ} {rs heard : List Response} {new : Queue}
    (hq : s.unsolicitedResponses = q ++ new) (hnew : new.Sublist (rs.filterMap tryFrom))
    (hheard : s'.conn.Heard parse debug w₀ (rs ++ heard))
    (hsame : s'.unsolicitedResponses = s.unsolicitedResponses) :
    s'.Sourced parse debug w₀ q := by
  refine .append hq hnew hheard ?_ (List.nil_sublist _)
  rw [hsame, List.append_nil]

theorem execute_sourced (hp : parse.Framed LF) {c : Command} {op : Exec (Session σ) Fault Value}
    (hop : execute peer parse c = some op) : Exec.Keeps (Sourced parse debug w₀ q) op := by
  intro s hs
  obtain ⟨rs, new, hheard, hq, hnew⟩ := hs
  have completes : Completes peer parse op c (Connection.command peer parse c) := .command hop
  obtain ⟨heard, hheard', hok⟩ := hheard.command peer hp c
  rw [← completes.conn s] at hheard'
  by_cases hlogout : c = .logout
  · subst hlogout
    exact .keep hq hnew hheard' (completes.apply_logout s).1
  cases hread : Connection.command peer parse c s.conn with
  | mk r conn =>
      cases r with
      | error e =>
          refine .keep hq hnew hheard' ?_
          rw [completes.apply_error hlogout hread]
      | ok answer =>
          obtain ⟨lines, ok⟩ := answer
          rw [hread] at hok
          have after := completes.apply_ok hlogout hread
          obtain ⟨htext, rfl, rfl⟩ | ⟨rs', hrs', cs, d, tag, code, information, hcs, hdone, hd,
            rfl, rfl⟩ := hok lines ok rfl
          · refine .keep hq hnew hheard' ?_
            rw [after, c.finish_unsent htext]
            exact c.conclude_nothing _
          · obtain ⟨new', hq', hnew'⟩ :=
              (c.finish_sorts hp hcs hdone hd).queued s.unsolicitedResponses
            refine .append hq hnew hheard' ?_ (hnew'.trans (hrs'.filterMap tryFrom))
            rw [after]
            exact hq'

theorem onConn_sourced {α : Type} {x : Exec (Connection σ) Fault α}
    (hx : ∀ conn rs, Connection.Heard parse debug w₀ rs conn →
      ∃ heard, Connection.Heard parse debug w₀ (rs ++ heard) (x conn).2) :
    Exec.Keeps (Sourced parse debug w₀ q) (onConn x) := by
  intro s hs
  obtain ⟨rs, new, hheard, hq, hnew⟩ := hs
  obtain ⟨heard, hheard'⟩ := hx s.conn rs hheard
  exact .keep hq hnew hheard' rfl

namespace Logged

/-- The calls that read whole answers or nothing, and those of the session with a log. -/
inductive Listening (peer : Peer σ) (parse : ParseResponse) :
    {α : Type} → Exec (Session σ) Fault α → Exec (Logged σ) Fault α → Prop
  | execute {c : Command} {op : Exec (Session σ) Fault Value} : execute peer parse c = some op →
      Listening peer parse op (onSession op)
  | run (text : Str) : Listening peer parse (onConn (Connection.run peer parse text))
      (onSession (onConn (Connection.run peer parse text)))
  | runCommand (text : Str) : Listening peer parse (onConn (Connection.runCommand peer text))
      (onSession (onConn (Connection.runCommand peer text)))
  | skipTag : Listening peer parse (onConn Connection.skipTag)
      (onSession (onConn Connection.skipTag))
  | take : Listening peer parse takeAllUnsolicited take

theorem Listening.counterpart {α : Type} {x : Exec (Session σ) Fault α}
    {y : Exec (Logged σ) Fault α} (h : Listening peer parse x y) : Counterpart peer parse x y := by
  cases h with
  | execute hop => exact .call (.completes (.command hop))
  | run text => exact .call (.run text)
  | runCommand text => exact .call (.runCommand text)
  | skipTag => exact .call .skipTag
  | take => exact .take

theorem Listening.keeps (hp : parse.Framed LF) {α : Type} {x : Exec (Session σ) Fault α}
    {y : Exec (Logged σ) Fault α} (h : Listening peer parse x y) :
    Exec.Keeps (fun l => l.session.Sourced parse debug w₀ q) y := by
  have inner {x : Exec (Session σ) Fault α} (hx : Exec.Keeps (Sourced parse debug w₀ q) x) :
      Exec.Keeps (fun l : Logged σ => l.session.Sourced parse debug w₀ q) (onSession x) :=
    fun l hl => hx l.session hl
  cases h with
  | execute hop => exact inner (execute_sourced hp hop)
  | run text =>
      refine inner (onConn_sourced fun conn rs hheard => ?_)
      obtain ⟨heard, hheard', -⟩ := hheard.run peer hp text
      exact ⟨heard, hheard'⟩
  | runCommand text =>
      refine inner (onConn_sourced fun conn rs hheard => ⟨[], ?_⟩)
      rw [List.append_nil]
      exact hheard.runCommand peer text
  | skipTag =>
      refine inner (onConn_sourced fun conn rs hheard => ⟨[], ?_⟩)
      rw [List.append_nil]
      exact ⟨hheard.wire, hheard.debug⟩
  | take => exact fun _ hl => hl

/-- What is handed out and what is left on the queue has come in, each response once and in
order. -/
theorem from_wire (hp : parse.Framed LF) {α : Type} {x : Exec (Session σ) Fault α}
    (h : Program (fun x => ∃ y, Listening peer parse x y) caught x) (s : Session σ) :
    (∃ y, Paired (Listening peer parse) caught x y) ∧
      ∀ y, Paired (Listening peer parse) caught x y → (x s).1 = (y ⟨s, []⟩).1 ∧
        ∃ traffic new,
          (x s).2.conn.stream.inner.wire = s.conn.stream.inner.wire ++ traffic ∧
          (y ⟨s, []⟩).2.taken.flatten ++ (x s).2.unsolicitedResponses =
            s.unsolicitedResponses ++ new ∧
          new.Sublist ((responsesOn parse s.conn.debug traffic).filterMap tryFrom) := by
  refine ⟨h.exists_paired fun hop => hop, fun y hy => ?_⟩
  have start : s.Sourced parse s.conn.debug s.conn.stream.inner.wire s.unsolicitedResponses :=
    ⟨[], [], ⟨⟨[], (List.append_nil _).symm, rfl⟩, rfl⟩, (List.append_nil _).symm, .slnil⟩
  have both : Simulates (fun s' l => Holds s' l ∧ l.session.Sourced parse s.conn.debug
      s.conn.stream.inner.wire s.unsolicitedResponses) Eq x y := by
    refine hy.simulates fun hop s' l hI => ?_
    obtain ⟨hagree, hholds⟩ := hop.counterpart.simulates s' l hI.1
    exact ⟨hagree, hholds, hop.keeps hp l hI.2⟩
  obtain ⟨hagree, ⟨hconn, hlog⟩, rs, new, ⟨⟨traffic, hwire, hscan⟩, -⟩, hq, hnew⟩ :=
    both s ⟨s, []⟩ ⟨⟨rfl, rfl⟩, start⟩
  refine ⟨hagree.eq, traffic, new, ?_, ?_, ?_⟩
  · rw [hconn]
    exact hwire
  · rw [← hlog]
    exact hq
  · rw [responsesOn, hscan]
    exact hnew

theorem takeTwice_listening :
    Program (fun x => ∃ y, Listening expunging expungeParse x y) caught takeTwice := by
  have once : Program (fun x => ∃ y, Listening expunging expungeParse x y) caught noopAndTake :=
    .bind (.op ⟨_, .execute (c := .noop) rfl⟩) fun _ => .op ⟨_, .take⟩
  exact .bind once fun _ => once

theorem from_wire_takeTwice :
    (∃ y, Paired (Listening expunging expungeParse) caught takeTwice y) ∧
      ∀ y, Paired (Listening expunging expungeParse) caught takeTwice y →
        (takeTwice opened).1 = (y ⟨opened, []⟩).1 ∧
        ∃ traffic new,
          (takeTwice opened).2.conn.stream.inner.wire = opened.conn.stream.inner.wire ++ traffic ∧
          (y ⟨opened, []⟩).2.taken.flatten ++ (takeTwice opened).2.unsolicitedResponses =
            opened.unsolicitedResponses ++ new ∧
          new.Sublist ((responsesOn expungeParse opened.conn.debug traffic).filterMap tryFrom) :=
  from_wire expungeParse_framed takeTwice_listening opened

end Logged

end Session

end RustImap
