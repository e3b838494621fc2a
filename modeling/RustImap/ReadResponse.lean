import RustImap.Connection

/-!
What `read_response_onto` does.

One turn of the loop takes one line. The offset kept in `continue_from` is the start
of the response that is not complete yet. `readResponseLoop_turns` says so once, with the
reads in their order; from it the loop is the line reader run over what the stream still
holds: `readResponseOnto_answer` states it for every parser, `readResponse_answer` for the
empty vector of `read_response`.
-/

namespace RustImap
namespace Connection

variable {σ : Type} {parse : ParseResponse}

def input (conn : Connection σ) : List InEvent := conn.stream.input

/-- The lines the debug output can print. -/
def printable (conn : Connection σ) (line : Bytes) : Bool :=
  !(conn.debug && decide (line.length < 2))

/-- The connection after one more call of `read_until`. -/
def nextLine (conn : Connection σ) : Connection σ :=
  { conn with stream := (conn.stream.readUntil LF).2 }

/-- What one read took from the input. -/
def taken (read : Bytes × Option ErrorKind) : List InEvent :=
  read.1.map .item ++ read.2.toList.map .fail

/-- Reading has changed nothing but the unread input and the record of reads. -/
structure ReadOn (conn conn' : Connection σ) : Prop where
  tag : conn'.tag = conn.tag
  debug : conn'.debug = conn.debug
  greetingRead : conn'.greetingRead = conn.greetingRead
  wbuf : conn'.stream.wbuf = conn.stream.wbuf
  peer : conn'.stream.inner.peer = conn.stream.inner.peer
  writes : conn'.stream.inner.writes = conn.stream.inner.writes
  timeouts : conn'.stream.inner.timeouts = conn.stream.inner.timeouts
  readTimeout : conn'.stream.inner.readTimeout = conn.stream.inner.readTimeout
  wire : ∃ reads : List (Bytes × Option ErrorKind),
    conn'.stream.inner.wire = conn.stream.inner.wire ++ reads.map (fun r => .read r.1 r.2) ∧
    conn.input = reads.flatMap taken ++ conn'.input

theorem ReadOn.refl (conn : Connection σ) : ReadOn conn conn :=
  ⟨rfl, rfl, rfl, rfl, rfl, rfl, rfl, rfl, [], by simp, rfl⟩

theorem ReadOn.trans {a b c : Connection σ} (h : ReadOn a b) (h' : ReadOn b c) :
    ReadOn a c := by
  obtain ⟨reads, hreads, hin⟩ := h.wire
  obtain ⟨reads', hreads', hin'⟩ := h'.wire
  exact ⟨h'.tag.trans h.tag, h'.debug.trans h.debug, h'.greetingRead.trans h.greetingRead,
    h'.wbuf.trans h.wbuf, h'.peer.trans h.peer, h'.writes.trans h.writes,
    h'.timeouts.trans h.timeouts, h'.readTimeout.trans h.readTimeout, reads ++ reads', by
      rw [hreads', hreads, List.map_append, List.append_assoc], by
      rw [hin, hin', List.flatMap_append, List.append_assoc]⟩

theorem ReadOn.sent {a b : Connection σ} (h : ReadOn a b) :
    b.stream.inner.sent = a.stream.inner.sent := by
  obtain ⟨reads, hreads, -⟩ := h.wire
  have none_sent : (reads.map fun r => Wire.read r.1 r.2).flatMap Wire.sentBytes = [] := by
    rw [List.flatMap_eq_nil_iff]
    intro w hw
    obtain ⟨r, -, rfl⟩ := List.mem_map.mp hw
    rfl
  rw [Transport.sent, hreads, List.flatMap_append, none_sent, List.append_nil]
  rfl

theorem printable_of_debug {τ : Type} {a : Connection σ} {b : Connection τ}
    (h : b.debug = a.debug) : b.printable = a.printable := by
  funext line
  simp only [printable, h]

theorem takeLine_input (conn : Connection σ) :
    takeLine LF conn.input =
      ((conn.stream.readUntil LF).1.1, (conn.stream.readUntil LF).1.2, conn.nextLine.input) :=
  BufStream.readUntil_takeLine LF conn.stream

theorem takeLine_read {conn : Connection σ} {line : Bytes} {failed : Option ErrorKind}
    (h : (conn.stream.readUntil LF).1 = (line, failed)) :
    takeLine LF conn.input = (line, failed, conn.nextLine.input) := by
  rw [takeLine_input, h]

theorem readOn_nextLine (conn : Connection σ) : ReadOn conn conn.nextLine := by
  refine ⟨rfl, rfl, rfl, rfl, rfl, rfl, rfl, rfl, [(conn.stream.readUntil LF).1], rfl, ?_⟩
  have hline := takeLine_input conn
  cases hread : (conn.stream.readUntil LF).1 with
  | mk line failed =>
      rw [hread] at hline
      cases failed with
      | none => simpa [taken] using takeLine_none hline
      | some k => simpa [taken] using takeLine_some hline

/-- The four ways a line is read. -/
def lineResult (conn : Connection σ) (into line : Bytes) : Option ErrorKind → Except Fault Bytes
  | some k => .error (.err (.io k))
  | none =>
      if line = [] then .error (.err .connectionLost)
      else if conn.printable line then .ok (into ++ line)
      else .error .panic

theorem readline_eq {conn : Connection σ} {line : Bytes} {failed : Option ErrorKind}
    {rest : List InEvent} (h : takeLine LF conn.input = (line, failed, rest)) (into : Bytes) :
    readline into conn = (lineResult conn into line failed, conn.nextLine) ∧
      conn.nextLine.input = rest := by
  rw [takeLine_input] at h
  cases h
  refine ⟨?_, rfl⟩
  unfold readline nextLine
  cases hread : conn.stream.readUntil LF with
  | mk got stream =>
      obtain ⟨bs, failed⟩ := got
      cases failed with
      | some k => rfl
      | none =>
          cases bs with
          | nil => rfl
          | cons b bs =>
              simp only [lineResult, printable, reduceCtorEq, if_false, Bool.not_eq_true']
              by_cases hp : (conn.debug && decide ((b :: bs).length < 2)) = true
              · simp only [hp, if_true, Bool.true_eq_false, if_false]
              · simp only [hp, if_true, Bool.false_eq_true, if_false]

theorem lineResult_ok {conn : Connection σ} {into line v : Bytes} {failed : Option ErrorKind}
    (h : conn.lineResult into line failed = .ok v) :
    failed = none ∧ line ≠ [] ∧ conn.printable line = true ∧ v = into ++ line := by
  cases failed with
  | some k => cases h
  | none =>
      simp only [lineResult] at h
      split at h
      · cases h
      · rename_i hne
        split at h
        · rename_i hprint
          cases h
          exact ⟨rfl, hne, hprint, rfl⟩
        · cases h

theorem readOn_readline (into : Bytes) (conn : Connection σ) :
    ReadOn conn (readline into conn).2 := by
  rw [(readline_eq (takeLine_input conn) into).1]
  exact readOn_nextLine conn

/-- The result a run of the line reader stands for. `before` is the text of the
responses that were complete when it started. -/
def answerResult (tag : UInt32) (before : Bytes) (us : List (Bytes × Response))
    (u : UnitRead UInt8 ErrorKind Response) : Except Fault (Bytes × Nat) :=
  match u.stop with
  | .failed k => .error (.err (.io k))
  | .lost => .error (.err .connectionLost)
  | .refused => .error .panic
  | .rejected => .error (.err (.bye noExplanation none))
  | .unit r =>
      (leave (before ++ textOf us u) (before ++ (us.map Prod.fst).flatten).length
        (breakWith tag (.ok [] r))).getD (.error .running)

theorem answerResult_cons (tag : UInt32) (before text : Bytes) (r : Response)
    (us : List (Bytes × Response)) (u : UnitRead UInt8 ErrorKind Response) :
    answerResult tag before ((text, r) :: us) u = answerResult tag (before ++ text) us u := by
  simp only [answerResult, textOf, List.map_cons, List.flatten_cons, List.append_assoc]

theorem breakWith_notDone {tag : UInt32} {r : Response} (h : r.isDone = false)
    (rest : Bytes) : breakWith tag (.ok rest r) = .ok none := by
  cases r <;> first | rfl | cases h

/-- A tagged response leaves the loop, whatever its tag and status. -/
theorem leave_done {tag : UInt32} {r : Response} (h : r.isDone = true) (rest data : Bytes)
    (lineStart : Nat) :
    leave data lineStart (breakWith tag (.ok rest r)) =
      some ((leave data lineStart (breakWith tag (.ok [] r))).getD (.error .running)) := by
  cases r <;> try cases h
  rename_i doneTag status code information
  by_cases htag : doneTag = matchTag tag
  · cases status <;> simp [breakWith, htag, leave]
  · simp [breakWith, htag, leave]

theorem readResponseLoop_succ (turns : Nat) (data : Bytes) (from_ : Option Nat)
    (tryFirst : Bool) (conn : Connection σ) :
    readResponseLoop parse (turns + 1) data from_ tryFirst conn =
      match turnStart data from_ tryFirst conn with
      | (.error e, conn) => (.error e, conn)
      | (.ok (data, lineStart), conn) =>
          match leave data lineStart (breakWith conn.tag (parse.run (data.drop lineStart))) with
          | some result => (result, conn)
          | none => readResponseLoop parse turns data
              (continueFrom lineStart (parse.run (data.drop lineStart))) false conn := rfl

/-- The reads of the loop. `cur` is the part of the current response that has been read. -/
inductive Turns (parse : ParseResponse) : Bytes → Connection σ → List (Bytes × Response) →
    UnitRead UInt8 ErrorKind Response → Connection σ → Prop
  | last {cur line : Bytes} {failed : Option ErrorKind} {stop : Stop ErrorKind Response}
      {conn : Connection σ} :
      (conn.stream.readUntil LF).1 = (line, failed) →
      LastRead parse conn.printable cur line failed stop →
      (∀ r, stop = .unit r → r.isDone = true) →
      Turns parse cur conn [] ⟨cur ++ line, stop, conn.nextLine.input⟩ conn.nextLine
  | line {cur line : Bytes} {conn conn' : Connection σ} {us : List (Bytes × Response)}
      {u : UnitRead UInt8 ErrorKind Response} :
      (conn.stream.readUntil LF).1 = (line, none) → line ≠ [] → conn.printable line = true →
      parse.run (cur ++ line) = .incomplete → Turns parse (cur ++ line) conn.nextLine us u conn' →
      Turns parse cur conn us u conn'
  | more {cur line : Bytes} {failed : Option ErrorKind} {r : Response} {conn conn' : Connection σ}
      {us : List (Bytes × Response)} {u : UnitRead UInt8 ErrorKind Response} :
      (conn.stream.readUntil LF).1 = (line, failed) →
      LastRead parse conn.printable cur line failed (.unit r) → r.isDone = false →
      Turns parse [] conn.nextLine us u conn' →
      Turns parse cur conn ((cur ++ line, r) :: us) u conn'

/-- The reads of the loop are the line reader's. -/
theorem Turns.answer {cur : Bytes} {conn conn' : Connection σ} {us : List (Bytes × Response)}
    {u : UnitRead UInt8 ErrorKind Response} (h : Turns parse cur conn us u conn') :
    AnswerRun parse LF conn.printable Response.isDone cur conn.input us u ∧
      conn'.input = u.rest ∧ ReadOn conn conn' := by
  induction h with
  | last hread hlast hdone =>
      exact ⟨.last (.of_lastRead (takeLine_read hread) hlast) hdone, rfl, readOn_nextLine _⟩
  | line hread hl hp hr _ ih =>
      obtain ⟨hrun, hin, hon⟩ := ih
      exact ⟨hrun.line (takeLine_read hread) hl hp hr, hin, (readOn_nextLine _).trans hon⟩
  | more hread hlast hdone _ ih =>
      obtain ⟨hrun, hin, hon⟩ := ih
      have hunit := UnitRun.of_lastRead (takeLine_read hread) hlast
      exact ⟨.more hunit rfl hdone hrun, hin, (readOn_nextLine _).trans hon⟩

variable (parse)

/-- `before` is the text of the responses before the current one. -/
theorem readResponseLoop_turns (turns : Nat) (before cur : Bytes) (from_ : Option Nat)
    (hfrom : from_ = some before.length ∨ from_ = none ∧ cur = []) (conn : Connection σ)
    (hturns : conn.input.length < turns) :
    ∃ us u conn', Turns parse cur conn us u conn' ∧
      readResponseLoop parse turns (before ++ cur) from_ false conn =
        (answerResult conn.tag before us u, conn') := by
  induction turns generalizing before cur from_ conn with
  | zero => omega
  | succ turns ih =>
      obtain ⟨line, failed, hline⟩ : ∃ line failed,
        (conn.stream.readUntil LF).1 = (line, failed) := ⟨_, _, rfl⟩
      have hread := (readline_eq (takeLine_read hline) (before ++ cur)).1
      cases failed with
      | some k =>
          refine ⟨[], _, _, .last hline .failed (by simp), ?_⟩
          simp [readResponseLoop_succ, turnStart, hread, lineResult, answerResult]
      | none =>
          by_cases hl : line = []
          · subst hl
            refine ⟨[], _, _, .last hline .lost (by simp), ?_⟩
            simp [readResponseLoop_succ, turnStart, hread, lineResult, answerResult]
          by_cases hp : conn.printable line = true
          swap
          · have hp : conn.printable line = false := by simpa using hp
            refine ⟨[], _, _, .last hline (.refused hl hp) (by simp), ?_⟩
            simp [readResponseLoop_succ, turnStart, hread, lineResult, answerResult, hl, hp]
          have htag : conn.nextLine.tag = conn.tag := rfl
          have hstart : turnStart (before ++ cur) from_ false conn =
              (.ok (before ++ (cur ++ line), before.length), conn.nextLine) := by
            simp only [turnStart, hread, lineResult, hl, hp]
            obtain rfl | ⟨rfl, rfl⟩ := hfrom <;> simp
          have hturns' : conn.nextLine.input.length < turns := by
            have shorter := takeLine_shrinks_of (takeLine_read hline) hl
            omega
          simp only [readResponseLoop_succ, hstart, List.drop_left]
          cases hv : parse.run (cur ++ line) with
          | error =>
              refine ⟨[], _, _, .last hline (.rejected hl hp hv) (by simp), ?_⟩
              simp [breakWith, breakError, leave, answerResult]
          | incomplete =>
              obtain ⟨us, u, conn', hrest, hres⟩ := ih before (cur ++ line)
                (some before.length) (.inl rfl) conn.nextLine hturns'
              refine ⟨us, u, conn', .line hline hl hp hv hrest, ?_⟩
              simpa only [breakWith, leave, continueFrom, htag] using hres
          | ok t r =>
              cases hdone : r.isDone with
              | true =>
                  refine ⟨[], _, _, .last hline (.unit hl hp hv) (by simp [hdone]), ?_⟩
                  simp only [htag, leave_done hdone t, answerResult, textOf, List.map_nil,
                    List.flatten_nil, List.nil_append, List.append_nil]
              | false =>
                  obtain ⟨us, u, conn', hrest, hres⟩ := ih (before ++ (cur ++ line)) [] none
                    (.inr ⟨rfl, rfl⟩) conn.nextLine hturns'
                  refine ⟨_, u, conn', .more hline (.unit hl hp hv) hdone hrest, ?_⟩
                  rw [List.append_nil] at hres
                  simp only [breakWith_notDone hdone, leave, continueFrom, hres, htag,
                    answerResult_cons]

theorem readResponseLoop_answer (turns : Nat) (before cur : Bytes) (from_ : Option Nat)
    (hfrom : from_ = some before.length ∨ from_ = none ∧ cur = []) (conn : Connection σ)
    (hturns : conn.input.length < turns) :
    ∃ us u conn', AnswerRun parse LF conn.printable Response.isDone cur conn.input us u ∧
      readResponseLoop parse turns (before ++ cur) from_ false conn =
        (answerResult conn.tag before us u, conn') ∧
      conn'.input = u.rest ∧ ReadOn conn conn' := by
  obtain ⟨us, u, conn', hreads, hres⟩ :=
    readResponseLoop_turns parse turns before cur from_ hfrom conn hturns
  obtain ⟨hrun, hin, hon⟩ := hreads.answer
  exact ⟨us, u, conn', hrun, hres, hin, hon⟩

/-- Every call of `read_response_onto` reads one answer, which may begin with what the
vector already holds. -/
theorem readResponseOnto_answer (data : Bytes) (conn : Connection σ) :
    ∃ us u conn', AnswerFrom parse LF conn.printable Response.isDone data conn.input us u ∧
      readResponseOnto parse data conn = (answerResult conn.tag [] us u, conn') ∧
      conn'.input = u.rest ∧ ReadOn conn conn' := by
  have enough : conn.input.length < conn.stream.input.length + 1 := by
    change conn.stream.input.length < _
    omega
  by_cases hd : data = []
  · subst hd
    obtain ⟨us, u, conn', hrun, hres, hin, hon⟩ := readResponseLoop_answer parse
      (conn.stream.input.length + 2) [] [] none (.inr ⟨rfl, rfl⟩) conn (by omega)
    exact ⟨us, u, conn', .none hrun, hres, hin, hon⟩
  have hfirst : data.isEmpty = false := by simpa using hd
  have hstart : turnStart data none true conn = (.ok (data, 0), conn) := rfl
  rw [readResponseOnto, hfirst, Bool.not_false, readResponseLoop_succ, hstart]
  simp only [List.drop_zero]
  cases hv : parse.run data with
  | error =>
      refine ⟨[], _, conn, .rejected hd hv, ?_, rfl, .refl conn⟩
      simp [breakWith, breakError, leave, answerResult]
  | incomplete =>
      obtain ⟨us, u, conn', hrun, hres, hin, hon⟩ := readResponseLoop_answer parse _ []
        data (some 0) (.inl rfl) conn enough
      refine ⟨us, u, conn', .incomplete hd hv hrun, ?_, hin, hon⟩
      simpa only [breakWith, leave, continueFrom, List.nil_append] using hres
  | ok t r =>
      cases hdone : r.isDone with
      | true =>
          refine ⟨[], _, conn, .final hd hv hdone, ?_, rfl, .refl conn⟩
          simp only [leave_done hdone t, answerResult, textOf, List.map_nil,
            List.flatten_nil, List.nil_append, List.length_nil]
      | false =>
          obtain ⟨us, u, conn', hrun, hres, hin, hon⟩ := readResponseLoop_answer
            parse _ data [] none (.inr ⟨rfl, rfl⟩) conn enough
          refine ⟨_, u, conn', .other hd hv hdone hrun, ?_, hin, hon⟩
          rw [List.append_nil] at hres
          simp only [breakWith_notDone hdone, leave, continueFrom, hres, answerResult_cons,
            List.nil_append]

/-- The vector of `read_response` is empty. -/
theorem readResponse_turns (conn : Connection σ) :
    ∃ us u conn', Turns parse [] conn us u conn' ∧
      readResponse parse conn = (answerResult conn.tag [] us u, conn') :=
  readResponseLoop_turns parse _ [] [] none (.inr ⟨rfl, rfl⟩) conn
    (Nat.lt_add_of_pos_right (by decide))

theorem readResponse_answer (conn : Connection σ) :
    ∃ us u conn', AnswerRun parse LF conn.printable Response.isDone [] conn.input us u ∧
      readResponse parse conn = (answerResult conn.tag [] us u, conn') ∧
      conn'.input = u.rest ∧ ReadOn conn conn' := by
  obtain ⟨us, u, conn', hreads, hres⟩ := readResponse_turns parse conn
  obtain ⟨hrun, hin, hon⟩ := hreads.answer
  exact ⟨us, u, conn', hrun, hres, hin, hon⟩

end Connection
end RustImap
