import RustImap.Idle
import RustImap.ReadResponse
import RustImap.Send

/-!
The traffic of a client that idles.

`Talk` follows the record of the traffic: the bytes sent, cut into lines, and the lines
read. An `IDLE` is legal while none is running, a `DONE` while one is. The text read
between two confirmations is a round: a part that came while the `IDLE` was running and a
part that came after. What is still in the write buffer counts as sent, since it goes out
before anything else.
-/

namespace RustImap

inductive Phase where
  /-- No `IDLE` is running. -/
  | quiet
  /-- One has been sent and not been confirmed. It is prompt if nothing has come since; the
  bytes are what has come of an unfinished response. -/
  | requested (prompt : Bool) (v : Bytes)
  /-- One is running; the confirmation was prompt if it came first. -/
  | running (prompt : Bool) (v : Bytes)
  deriving DecidableEq

namespace Phase

def isRunning : Phase → Bool
  | .running _ _ => true
  | _ => false

def isPrompt : Phase → Bool
  | .quiet => false
  | .requested prompt _ => prompt
  | .running prompt _ => prompt

variable (parse : ParseResponse)

/-- The phase when a line has been read, or a read has failed, while an `IDLE` was
requested or running: a tagged response ends it. -/
def next (again : Bytes → Phase) (v line : Bytes) (failed : Option ErrorKind) : Phase :=
  if failed ≠ none ∨ line = [] then again (v ++ line)
  else if eqIgnoreAsciiCase (v ++ line) stillHere then again []
  else
    match parse.run (v ++ line) with
    | .ok rest r =>
        if r.isDone then .quiet else again ((v ++ line).drop ((v ++ line).length - rest.length))
    | _ => again (v ++ line)

variable {parse} in
theorem next_of_failed {again : Bytes → Phase} {failed : Option ErrorKind} (h : failed ≠ none)
    (v line : Bytes) : next parse again v line failed = again (v ++ line) := by
  rw [next, if_pos (.inl h)]

variable {parse} in
theorem next_of_still {again : Bytes → Phase} {v line : Bytes} (hline : line ≠ [])
    (h : eqIgnoreAsciiCase (v ++ line) stillHere = true) :
    next parse again v line none = again [] := by
  simp [next, hline, h]

variable {parse} in
theorem next_of_incomplete {again : Bytes → Phase} {v line : Bytes} (hline : line ≠ [])
    (hstill : eqIgnoreAsciiCase (v ++ line) stillHere = false)
    (h : parse.run (v ++ line) = .incomplete) :
    next parse again v line none = again (v ++ line) := by
  simp [next, hline, hstill, h]

variable {parse} in
theorem next_of_ok {again : Bytes → Phase} {v line rest : Bytes} {r : Response} (hline : line ≠ [])
    (hstill : eqIgnoreAsciiCase (v ++ line) stillHere = false)
    (h : parse.run (v ++ line) = .ok rest r) (hdone : r.isDone = false) :
    next parse again v line none = again ((v ++ line).drop ((v ++ line).length - rest.length)) := by
  simp [next, hline, hstill, h, hdone]

theorem next_prompt {again : Bytes → Phase} (h : ∀ v, (again v).isPrompt = false)
    (v line : Bytes) (failed : Option ErrorKind) :
    (next parse again v line failed).isPrompt = false := by
  unfold next
  repeat' split
  all_goals first | exact h _ | rfl

end Phase

structure Round where
  during : Bytes
  after : Bytes
  deriving DecidableEq

structure Talk where
  phase : Phase
  /-- What has been sent of an unfinished line. -/
  line : Bytes
  legal : Bool
  /-- The rounds that a confirmation has ended. -/
  rounds : List Round
  round : Round
  deriving DecidableEq

def doneLine : Bytes := utf8 "DONE".toList ++ [CR, LF]

/-- A tag and `IDLE`. -/
def isIdleLine (l : Bytes) : Bool := l.dropWhile (· ≠ SPACE) = utf8 " IDLE".toList ++ [CR, LF]

namespace Talk

/-- Nothing has passed yet. -/
def start (phase : Phase) : Talk := ⟨phase, [], true, [], ⟨[], []⟩⟩

/-- A line has been sent. -/
def ends (t : Talk) (l : Bytes) : Talk :=
  if l = doneLine then
    { t with phase := .quiet, line := [], legal := t.legal && t.phase.isRunning }
  else if isIdleLine l then
    { t with phase := .requested true [], line := [], legal := t.legal && !t.phase.isRunning }
  else { t with line := [] }

def send (t : Talk) (b : UInt8) : Talk :=
  if b = LF then t.ends (t.line ++ [b]) else { t with line := t.line ++ [b] }

def readDuring (t : Talk) (bs : Bytes) : Talk :=
  { t with round := { t.round with during := t.round.during ++ bs } }

def readAfter (t : Talk) (bs : Bytes) : Talk :=
  { t with round := { t.round with after := t.round.after ++ bs } }

def confirm (t : Talk) : Talk :=
  { t with phase := .running true [], rounds := t.rounds ++ [t.round], round := ⟨[], []⟩ }

variable (parse : ParseResponse)

/-- A line has been read, or a read has failed. What a client reads that still waits for
the answer to its `IDLE` belongs to the round before. -/
def hear (t : Talk) (line : Bytes) (failed : Option ErrorKind) : Talk :=
  match t.phase with
  | .quiet => t.readAfter line
  | .requested prompt v =>
      if failed = none ∧ v = [] ∧ line.head? = some PLUS then
        if prompt then t.confirm else { t.readAfter line with phase := .running false [] }
      else { t.readAfter line with phase := Phase.next parse (.requested false) v line failed }
  | .running true v =>
      { t.readDuring line with phase := Phase.next parse (.running true) v line failed }
  | .running false v =>
      { t.readAfter line with phase := Phase.next parse (.running false) v line failed }

def step (t : Talk) : Wire → Talk
  | .sent bs => bs.foldl send t
  | .read line failed => t.hear parse line failed

theorem hear_line (t : Talk) (line : Bytes) (failed : Option ErrorKind) :
    (t.hear parse line failed).line = t.line ∧ (t.hear parse line failed).legal = t.legal := by
  unfold hear
  repeat' split
  all_goals exact ⟨rfl, rfl⟩

/-- What is read while no `IDLE` is running and none has just been requested. -/
theorem hear_after {t : Talk} (h : t.phase.isPrompt = false) (line : Bytes)
    (failed : Option ErrorKind) :
    ∃ phase, phase.isPrompt = false ∧ (t.phase = .quiet → phase = .quiet) ∧
      t.hear parse line failed = { t.readAfter line with phase } := by
  unfold hear
  cases hphase : t.phase with
  | quiet => exact ⟨t.phase, h, fun _ => hphase, rfl⟩
  | requested prompt v =>
      rw [hphase] at h
      obtain rfl : prompt = false := h
      simp only [Bool.false_eq_true, if_false, reduceCtorEq, false_imp_iff, true_and]
      split
      · exact ⟨.running false [], rfl, rfl⟩
      · exact ⟨_, Phase.next_prompt parse (fun _ => rfl) v line failed, rfl⟩
  | running prompt v =>
      rw [hphase] at h
      obtain rfl : prompt = false := h
      simp only [reduceCtorEq, false_imp_iff, true_and]
      exact ⟨_, Phase.next_prompt parse (fun _ => rfl) v line failed, rfl⟩

theorem send_unended {l : Bytes} (h : LF ∉ l) (t : Talk) :
    l.foldl send t = { t with line := t.line ++ l } := by
  induction l generalizing t with
  | nil => simp
  | cons b l ih =>
      simp only [List.mem_cons, not_or] at h
      rw [List.foldl_cons, ih h.2, send, if_neg (Ne.symm h.1)]
      simp

theorem send_line {l : Bytes} (h : LF ∉ l) (t : Talk) :
    (l ++ [LF]).foldl send t = t.ends (t.line ++ (l ++ [LF])) := by
  rw [List.foldl_append, send_unended h]
  simp [send, ends]

/-- Nothing that is sent makes an `IDLE` run. -/
theorem send_notRunning {t : Talk} (h : t.phase.isRunning = false) (bs : Bytes) :
    (bs.foldl send t).phase.isRunning = false := by
  induction bs generalizing t with
  | nil => exact h
  | cons b bs ih =>
      refine ih ?_
      unfold send ends
      repeat' split
      all_goals first | exact h | rfl

/-- A line that is written in part is not a line. -/
theorem send_prefix {l w : Bytes} (h : LF ∉ l) (hw : w <+: l ++ [LF]) (t : Talk) :
    w.foldl send t = t.ends (t.line ++ (l ++ [LF])) ∨
      w.foldl send t = { t with line := t.line ++ w } := by
  rcases List.prefix_concat_iff.mp hw with rfl | hw
  · exact .inl (send_line h t)
  · exact .inr (send_unended (fun hmem => h (hw.subset hmem)) t)

end Talk

variable {σ : Type}

/-- From `t0` on, what has passed since the record was `before` comes to `t`. -/
def Connection.TalkIs (parse : ParseResponse) (t0 : Talk) (before : List Wire)
    (conn : Connection σ) (t : Talk) : Prop :=
  ∃ new, conn.stream.inner.wire = before ++ new ∧
    (new ++ [Wire.sent conn.stream.wbuf]).foldl (Talk.step parse) t0 = t

namespace Connection

variable {parse : ParseResponse} {t0 : Talk} {before : List Wire}
variable {conn conn' : Connection σ} {t t' : Talk}

theorem TalkIs.unique (h : TalkIs parse t0 before conn t) (h' : TalkIs parse t0 before conn t') :
    t = t' := by
  obtain ⟨new, hnew, rfl⟩ := h
  obtain ⟨new', hnew', rfl⟩ := h'
  rw [List.append_cancel_left (hnew.symm.trans hnew')]

theorem TalkIs.sent (h : TalkIs parse t0 before conn t) (hsent : conn.stream.SentMore conn'.stream)
    {w : Bytes} (htotal : conn'.total = conn.total ++ w) :
    TalkIs parse t0 before conn' (w.foldl Talk.send t) := by
  obtain ⟨new, hnew, rfl⟩ := h
  obtain ⟨chunks, hchunks⟩ := hsent
  refine ⟨new ++ chunks.map Wire.sent, by rw [hchunks, hnew, List.append_assoc], ?_⟩
  have hbytes := BufStream.total_chunks hchunks htotal
  have hchunk : ∀ t, (chunks.map Wire.sent).foldl (Talk.step parse) t =
      chunks.flatten.foldl Talk.send t := by
    intro t
    rw [List.foldl_map, List.foldl_flatten]
    rfl
  simp only [List.foldl_append, List.foldl_cons, List.foldl_nil, hchunk, Talk.step]
  rw [← List.foldl_append, hbytes, List.foldl_append]

theorem TalkIs.reads (h : TalkIs parse t0 before conn t) (hempty : conn.stream.wbuf = [])
    (hempty' : conn'.stream.wbuf = []) {reads : List (Bytes × Option ErrorKind)}
    (hwire : conn'.stream.inner.wire =
      conn.stream.inner.wire ++ reads.map fun r => .read r.1 r.2) :
    TalkIs parse t0 before conn' (reads.foldl (fun t r => t.hear parse r.1 r.2) t) := by
  obtain ⟨new, hnew, rfl⟩ := h
  refine ⟨new ++ reads.map fun r => .read r.1 r.2, by rw [hwire, hnew, List.append_assoc], ?_⟩
  simp only [hempty, hempty', List.foldl_append, List.foldl_cons, List.foldl_nil, Talk.step,
    List.foldl_map]

theorem TalkIs.nextLine (h : TalkIs parse t0 before conn t) (hempty : conn.stream.wbuf = [])
    {line : Bytes} {failed : Option ErrorKind} {rest : List InEvent}
    (hline : takeLine LF conn.input = (line, failed, rest)) :
    TalkIs parse t0 before conn.nextLine (t.hear parse line failed) := by
  rw [takeLine_input] at hline
  cases hline
  have hwire : conn.nextLine.stream.inner.wire = conn.stream.inner.wire ++
      [(conn.stream.readUntil LF).1].map fun r => .read r.1 r.2 := rfl
  exact h.reads hempty (show conn.nextLine.stream.wbuf = [] from hempty) hwire

/-- What is read by a client that waits for the end of an answer. -/
theorem TalkIs.heard (h : TalkIs parse t0 before conn t) (hempty : conn.stream.wbuf = [])
    (hon : ReadOn conn conn') (hlate : t.phase.isPrompt = false) :
    ∃ (reads : List (Bytes × Option ErrorKind)) (phase : Phase),
      conn.input = reads.flatMap taken ++ conn'.input ∧ (t.phase = .quiet → phase = .quiet) ∧
        TalkIs parse t0 before conn' { t.readAfter (reads.flatMap Prod.fst) with phase } := by
  obtain ⟨reads, hreads, hin⟩ := hon.wire
  have heard := h.reads hempty (hon.wbuf.trans hempty) hreads
  have later : ∀ reads : List (Bytes × Option ErrorKind), ∀ t : Talk, t.phase.isPrompt = false →
      ∃ phase, (t.phase = .quiet → phase = .quiet) ∧
        reads.foldl (fun t r => t.hear parse r.1 r.2) t =
          { t.readAfter (reads.flatMap Prod.fst) with phase } := by
    intro reads
    induction reads with
    | nil => exact fun t _ => ⟨t.phase, fun h => h, by simp [Talk.readAfter]⟩
    | cons r reads ih =>
        intro t ht
        obtain ⟨phase1, hprompt, hquiet1, hhear⟩ := Talk.hear_after parse ht r.1 r.2
        obtain ⟨phase, hquiet, hrest⟩ := ih { t.readAfter r.1 with phase := phase1 } hprompt
        refine ⟨phase, fun h => hquiet (hquiet1 h), ?_⟩
        rw [List.foldl_cons, hhear, hrest]
        simp [Talk.readAfter]
  obtain ⟨phase, hquiet, hfold⟩ := later reads t hlate
  exact ⟨reads, phase, hin, hquiet, by rwa [hfold] at heard⟩

/-- The `IDLE` command is a line, and an `IDLE` line, whatever has been left of a line
before it. -/
theorem idle_line (conn : Connection σ) :
    ∃ l, LF ∉ l ∧ conn.commandLine "IDLE".toList = l ++ [LF] ∧
      ∀ t : Talk, SPACE ∉ t.line → t.ends (t.line ++ conn.commandLine "IDLE".toList) =
        { t with phase := .requested true [], line := [],
                 legal := t.legal && !t.phase.isRunning } := by
  refine ⟨utf8 (matchTag (conn.tag + 1) ++ ' ' :: "IDLE".toList) ++ [CR], ?_, ?_, ?_⟩
  · intro h
    rcases List.mem_append.mp h with h | h
    · rcases List.mem_append.mp ((LF_mem_utf8 _).mp h) with h | h
      · exact not_mem_matchTag (by decide) (by decide) _ h
      · exact absurd h (by decide)
    · exact absurd h (by decide)
  · rw [List.append_assoc]
    rfl
  intro t hline
  have tagEnd : isIdleLine (t.line ++ conn.commandLine "IDLE".toList) = true := by
    have rest : (utf8 (' ' :: "IDLE".toList) ++ [CR, LF]).dropWhile (· ≠ SPACE) =
        utf8 " IDLE".toList ++ [CR, LF] := by decide
    rw [isIdleLine, decide_eq_true_eq, commandLine, utf8_append, List.append_assoc,
      ← List.append_assoc, List.dropWhile_append_of_pos, rest]
    intro b hb
    rw [decide_eq_true_eq]
    rintro rfl
    rcases List.mem_append.mp hb with hb | hb
    · exact hline hb
    · exact space_not_mem_matchTag _ hb
  have notDone : t.line ++ conn.commandLine "IDLE".toList ≠ doneLine := by
    intro h
    rw [h] at tagEnd
    exact absurd tagEnd (by decide)
  rw [Talk.ends, if_neg notDone, if_pos tagEnd]

theorem done_line : ∃ l, LF ∉ l ∧ doneLine = l ++ [LF] ∧
    ∀ t : Talk, t.ends doneLine =
      { t with phase := .quiet, line := [], legal := t.legal && t.phase.isRunning } :=
  ⟨utf8 "DONE".toList ++ [CR], by decide, by decide, fun t => if_pos rfl⟩

end Connection

end RustImap
