import RustImap.Lateness
import RustImap.Transcript

/-!
Tags that are skipped.

A command whose write has failed can still reach the server: what the buffer has taken of it
goes out with what is written next. If the client skips the tag of such a command, no line that
the server gets later has it; and then, however writes fail, no command takes the answer to
another line for its own.
-/

namespace RustImap

variable {σ τ : Type}

namespace BufStream

variable (step : σ → UInt8 → σ × List ReadEvent)

/-- Between the two, these bytes have been accepted for sending and nothing has been read. -/
structure Takes (w : Bytes) (s s' : BufStream σ) : Prop where
  total : s'.total = s.total ++ w
  settle : s'.settle step = after step w (s.settle step)

variable {step} {s s' s'' : BufStream σ} {w w' : Bytes}

theorem Takes.refl (s : BufStream σ) : Takes step [] s s :=
  ⟨(List.append_nil _).symm, by simp [after, feed]⟩

theorem Takes.trans (h : Takes step w s s') (h' : Takes step w' s' s'') :
    Takes step (w ++ w') s s'' := by
  refine ⟨?_, ?_⟩
  · rw [h'.total, h.total, List.append_assoc]
  · rw [h'.settle, h.settle, after_append]

/-- Bytes that join the buffer, and of which some are handed on. -/
theorem push_takes (n : Nat) (w : Bytes) (s : BufStream σ) :
    Takes step w s (push (feed step) n { s.nextWrite with wbuf := s.wbuf ++ w }) := by
  refine ⟨?_, ?_⟩
  · rw [push_total]
    simp [BufStream.total, nextWrite, Transport.sent]
  · rw [settle_push]
    simp only [BufStream.settle, ← after_append]
    rfl

theorem writeAll_takes (buf : Bytes) (s : BufStream σ) :
    ∃ w, Takes step w s (writeAll (feed step) buf s).2 := by
  unfold writeAll
  cases s.inner.writes with
  | nil =>
      refine ⟨buf, by simp [BufStream.total], ?_⟩
      simp only [BufStream.settle, ← after_append]
      rfl
  | cons e es =>
      cases e with
      | done handed => exact ⟨buf, push_takes handed buf s⟩
      | err k accepted handed => exact ⟨_, push_takes handed _ s⟩

theorem flush_takes (s : BufStream σ) : Takes step [] s (flush (feed step) s).2 := by
  obtain ⟨htotal, -⟩ := flush_total (feed step) s
  refine ⟨htotal.trans (List.append_nil _).symm, ?_⟩
  rw [(Takes.refl s).settle.symm]
  unfold flush
  cases s.inner.writes with
  | nil => exact settle_push ..
  | cons e es => cases e <;> exact settle_push ..

end BufStream

namespace Connection

variable {step : σ → UInt8 → σ × List ReadEvent}

variable (step) in
theorem writeLine_takes (buf : Bytes) (conn : Connection σ) :
    ∃ w, BufStream.Takes step w conn.stream (writeLine (feed step) buf conn).2.stream := by
  have io_keeps : ∀ f : BufStream σ → Except ErrorKind Unit × BufStream σ,
      (∀ s : BufStream σ, ∃ w, BufStream.Takes step w s (f s).2) →
      Exec.Keeps (fun c : Connection σ => ∃ w, BufStream.Takes step w conn.stream c.stream)
        (io f) := by
    rintro f hf c ⟨w, hc⟩
    obtain ⟨w', hw'⟩ := hf c.stream
    exact ⟨w ++ w', hc.trans hw'⟩
  refine Exec.Keeps.bind (io_keeps _ (BufStream.writeAll_takes buf)) (fun _ => ?_)
    conn ⟨[], .refl _⟩
  refine Exec.Keeps.bind (io_keeps _ (BufStream.writeAll_takes _)) fun _ => ?_
  refine Exec.Keeps.bind (io_keeps _ fun s => ⟨[], BufStream.flush_takes s⟩) fun _ => ?_
  intro c hc
  simp only [Exec.of_apply]
  split <;> exact hc

variable (step) in
/-- The whole line is taken and the tag counted, or a part of it, after a failed write. -/
theorem runCommand_takes (text : Str) (conn : Connection σ) :
    ∃ w, BufStream.Takes step w conn.stream (runCommand (feed step) text conn).2.stream ∧
      (runCommand (feed step) text conn).2.debug = conn.debug ∧
      ((runCommand (feed step) text conn).1 = .ok () ∧ w = commandBytes (conn.tag + 1) text ∧
          (runCommand (feed step) text conn).2.tag = conn.tag + 1 ∧
          (runCommand (feed step) text conn).2.stream.wbuf = [] ∨
        ∃ k, (runCommand (feed step) text conn).1 = .error (.err (.io k)) ∧
          w <+: commandBytes (conn.tag + 1) text ∧
          (runCommand (feed step) text conn).2.tag = conn.tag) := by
  obtain ⟨w, htotal, hdebug, -, hout⟩ := runCommand_total (feed step) text conn
  have takes : ∃ w, BufStream.Takes step w conn.stream
      (runCommand (feed step) text conn).2.stream := by
    have line := writeLine_takes step (utf8 (matchTag (conn.tag + 1) ++ ' ' :: text))
      { conn with tag := conn.tag + 1 }
    simp only [runCommand, Exec.bind_apply, createCommand_apply, Exec.of_apply]
    split
    · rename_i heq
      rwa [heq] at line
    · exact line
  obtain ⟨w', hw'⟩ := takes
  obtain rfl : w = w' := List.append_cancel_left (htotal.symm.trans hw'.total)
  exact ⟨w, hw', hdebug, hout⟩

end Connection

def firstWord (line : Bytes) : Bytes := line.takeWhile (· ≠ SPACE)

/-- A tag that one of the next `left` commands can be given. -/
def Upcoming (tag : UInt32) (left : Nat) (s : Str) : Prop :=
  ∃ n < left, s = matchTag (tag + 1 + UInt32.ofNat n)

theorem Upcoming.mono {tag : UInt32} {left left' : Nat} {s : Str} (h : Upcoming tag left s)
    (hle : left ≤ left') : Upcoming tag left' s := by
  obtain ⟨n, hn, hs⟩ := h
  exact ⟨n, Nat.lt_of_lt_of_le hn hle, hs⟩

theorem Upcoming.succ {tag : UInt32} {left : Nat} {s : Str} (h : Upcoming (tag + 1) left s) :
    Upcoming tag (left + 1) s := by
  obtain ⟨n, hn, rfl⟩ := h
  refine ⟨n + 1, Nat.succ_lt_succ hn, ?_⟩
  rw [UInt32.ofNat_add, UInt32.add_assoc (tag + 1), UInt32.add_comm 1]
  rfl

theorem upcoming_next (tag : UInt32) (left : Nat) :
    Upcoming tag (left + 1) (matchTag (tag + 1)) := by
  refine ⟨0, Nat.succ_pos left, ?_⟩
  have zero : tag + 1 + UInt32.ofNat 0 = tag + 1 := UInt32.add_zero _
  rw [zero]

/-- A tag is not given twice in a row of fewer than `2 ^ 32` commands. -/
theorem not_upcoming {tag : UInt32} {left : Nat} (h : left < 2 ^ 32) :
    ¬Upcoming tag left (matchTag tag) := by
  rintro ⟨n, hn, heq⟩
  have next := Connection.tag_add_ne tag (n := n + 1) (Nat.succ_pos n) (by omega)
  rw [UInt32.ofNat_add, UInt32.add_comm (UInt32.ofNat n), ← UInt32.add_assoc] at next
  exact next (Connection.matchTag_inj heq).symm

/-- What has been begun, together with more, can be taken for a line with this tag. -/
def Spoils (pending : Bytes) (s : Str) : Prop :=
  pending ≠ [] ∧ ∃ more, more.head? = some 0x61 ∧ firstWord (pending ++ more) = utf8 s

theorem matchTag_head (tag : UInt32) : utf8 (matchTag tag) = 0x61 :: utf8 (decimal tag.toNat) :=
  rfl

theorem a_not_mem_decimal (n : Nat) : (0x61 : UInt8) ∉ utf8 (decimal n) := by
  rw [mem_utf8_ascii (by decide) (a := 'a') (by decide)]
  intro h
  have digit := isDigit_of_mem_decimal h
  exact absurd digit (by decide)

variable {pending w : Bytes} {s : Str}

theorem Spoils.append (h : Spoils (pending ++ w) s) (hpending : pending ≠ [])
    (hw : w ≠ [] → w.head? = some 0x61) : Spoils pending s := by
  obtain ⟨-, more, hmore, hword⟩ := h
  refine ⟨hpending, w ++ more, ?_, ?_⟩
  · cases w with
    | nil => exact hmore
    | cons b w => exact hw (List.cons_ne_nil b w)
  · rwa [← List.append_assoc]

theorem firstWord_append (h : SPACE ∈ w) (more : Bytes) :
    firstWord (w ++ more) = firstWord w := by
  have stops : (w.takeWhile (· ≠ SPACE)).length ≠ w.length := by
    intro hlen
    have whole := (List.takeWhile_prefix (p := (· ≠ SPACE)) (l := w)).eq_of_length hlen
    have free := List.takeWhile_eq_self_iff.mp whole SPACE h
    exact absurd rfl (of_decide_eq_true free)
  rw [firstWord, List.takeWhile_append, if_neg stops]
  rfl

theorem firstWord_command (tag : UInt32) (text : Str) :
    firstWord (commandBytes tag text) = utf8 (matchTag tag) := by
  rw [commandBytes_line]
  exact Session.takeWhile_command tag text

/-- The beginning of a command spoils its own tag only. -/
theorem Spoils.own {tag n : UInt32} {text : Str} (h : Spoils w (matchTag n))
    (hw : w <+: commandBytes tag text) : n = tag := by
  obtain ⟨hne, more, hmore, hword⟩ := h
  by_cases hspace : SPACE ∈ w
  · -- the tag has been written whole
    obtain ⟨rest, hrest⟩ := hw
    have own := firstWord_command tag text
    rw [← hrest, firstWord_append hspace] at own
    rw [firstWord_append hspace, own] at hword
    exact (Connection.matchTag_inj (utf8_inj hword)).symm
  · -- what follows begins with an `a`, and there is only one in a tag
    exfalso
    cases w with
    | nil => exact hne rfl
    | cons b w =>
    cases more with
    | nil => cases hmore
    | cons a more =>
    obtain rfl := Option.some.inj hmore
    have taken : firstWord (b :: w ++ 0x61 :: more) = b :: (w ++ 0x61 :: firstWord more) := by
      rw [firstWord, List.takeWhile_append_of_pos]
      · rfl
      · intro c hc
        rw [decide_eq_true_eq]
        rintro rfl
        exact hspace hc
    rw [taken, matchTag_head] at hword
    apply a_not_mem_decimal n.toNat
    rw [← (List.cons.inj hword).2]
    simp

theorem command_head {tag : UInt32} {text : Str} (hw : w <+: commandBytes tag text)
    (hne : w ≠ []) : w.head? = some 0x61 := by
  obtain ⟨rest, hrest⟩ := hw
  cases w with
  | nil => exact absurd rfl hne
  | cons b w =>
      rw [commandBytes, utf8_append, matchTag_head] at hrest
      rw [(List.cons.inj hrest).1]
      rfl

theorem LineServer.feed_part (answer : τ → Bytes → τ × List ReadEvent) (t : τ) (pending : Bytes)
    {bs : Bytes} (h : LF ∉ bs) :
    feed (step answer) ⟨t, pending⟩ bs = (⟨t, pending ++ bs⟩, []) := by
  induction bs generalizing pending with
  | nil => simp [feed]
  | cons b bs ih =>
      rw [List.mem_cons, not_or] at h
      rw [feed, step, if_neg (Ne.symm h.1)]
      simp only [ih (pending ++ [b]) h.2, List.append_assoc, List.singleton_append,
        List.nil_append]

/-- Neither an answer that is under way nor a line that has been begun has an upcoming tag. -/
def Clear (parse : ParseResponse) (tag : UInt32) (left : Nat)
    (p : LineServer τ × List InEvent) : Prop :=
  ∃ ms, Spells parse p.2 ms ∧ (∀ s ∈ doneTags ms, ¬Upcoming tag left s) ∧
    ∀ s, Spoils p.1.pending s → ¬Upcoming tag left s

/-- Every tagged response has the tag of the line it answers, and is meant for that line. -/
def Labels (parse : ParseResponse) (answer : τ → Bytes → τ × List ReadEvent)
    (Meant : Bytes → Response → Prop) : Prop :=
  ∀ t line, ∃ ms, Spells parse ((answer t line).2.flatMap ReadEvent.events) ms ∧
    ∀ tag status code information, .response (.done tag status code information) ∈ ms →
      utf8 tag = firstWord line ∧ Meant line (.done tag status code information)

variable {parse : ParseResponse} {answer : τ → Bytes → τ × List ReadEvent}
variable {Meant : Bytes → Response → Prop} {tag : UInt32} {left : Nat}
variable {p : LineServer τ × List InEvent} {text : Str}

theorem Clear.mono {left' : Nat} (h : Clear parse tag left' p) (hle : left ≤ left') :
    Clear parse tag left p := by
  obtain ⟨ms, hms, hdone, hpending⟩ := h
  exact ⟨ms, hms, fun s hs hup => hdone s hs (hup.mono hle),
    fun s hs hup => hpending s hs (hup.mono hle)⟩

theorem Clear.succ (h : Clear parse tag (left + 1) p) : Clear parse (tag + 1) left p := by
  obtain ⟨ms, hms, hdone, hpending⟩ := h
  exact ⟨ms, hms, fun s hs hup => hdone s hs hup.succ, fun s hs hup => hpending s hs hup.succ⟩

theorem mem_doneTags {ms : List Message} :
    s ∈ doneTags ms ↔ ∃ status code information,
      .response (.done s status code information) ∈ ms := by
  rw [doneTags, List.mem_filterMap]
  constructor
  · rintro ⟨m, hm, hs⟩
    cases m with
    | failure kind => cases hs
    | response r =>
        cases r <;> cases hs
        exact ⟨_, _, _, hm⟩
  · rintro ⟨status, code, information, hm⟩
    exact ⟨_, hm, rfl⟩

/-- A part of a command arrives, whose tag is not given again. -/
theorem Clear.part (h : Clear parse tag (left + 1) p) (hleft : left < 2 ^ 32)
    (hline : SingleLine text) (hw : w <+: utf8 (matchTag (tag + 1) ++ ' ' :: text) ++ [CR]) :
    Clear parse (tag + 1) left (BufStream.after (LineServer.step answer) w p) := by
  obtain ⟨ms, hms, hdone, hpending⟩ := h
  have whole : w <+: commandBytes (tag + 1) text :=
    hw.trans ⟨[LF], (commandBytes_line _ _).symm⟩
  have free : LF ∉ w := fun hmem => Connection.LF_not_mem_command hline (tag + 1) (hw.subset hmem)
  have arrived : BufStream.after (LineServer.step answer) w p =
      (⟨p.1.state, p.1.pending ++ w⟩, p.2) := by
    rw [BufStream.after, LineServer.feed_part answer p.1.state p.1.pending free]
    simp
  rw [arrived]
  refine ⟨ms, hms, fun s hs hup => hdone s hs hup.succ, fun s hs hup => ?_⟩
  by_cases hnil : p.1.pending = []
  · obtain ⟨n, -, rfl⟩ := id hup
    rw [hnil] at hs
    rw [hs.own whole] at hup
    exact not_upcoming hleft hup
  · exact hpending s (hs.append hnil (command_head whole)) hup.succ

/-- A whole command arrives, behind what has been begun. -/
theorem Clear.line (hanswer : Labels parse answer Meant) (h : Clear parse tag (left + 1) p)
    (hleft : left < 2 ^ 32) (hline : SingleLine text) :
    ∃ ms, Spells parse
        (BufStream.after (LineServer.step answer) (commandBytes (tag + 1) text) p).2 ms ∧
      (∀ status code information,
        .response (.done (matchTag (tag + 1)) status code information) ∈ ms →
          Meant (commandBytes (tag + 1) text)
            (.done (matchTag (tag + 1)) status code information)) ∧
      Clear parse (tag + 1) left
        (BufStream.after (LineServer.step answer) (commandBytes (tag + 1) text) p) := by
  obtain ⟨ms, hms, hdone, hpending⟩ := h
  obtain ⟨ms', hms', hlabel⟩ := hanswer p.1.state (p.1.pending ++ commandBytes (tag + 1) text)
  have arrived : BufStream.after (LineServer.step answer) (commandBytes (tag + 1) text) p =
      (⟨(answer p.1.state (p.1.pending ++ commandBytes (tag + 1) text)).1, []⟩,
        p.2 ++ (answer p.1.state (p.1.pending ++ commandBytes (tag + 1) text)).2.flatMap
          ReadEvent.events) := by
    have fed := LineServer.feed_line answer p.1.state p.1.pending
      (Connection.LF_not_mem_command hline (tag + 1))
    rw [List.append_assoc p.1.pending, ← commandBytes_line] at fed
    rw [BufStream.after, fed]
  have hspells := hms.append hms'
  rw [arrived]
  -- a line that has been begun before is not one of an upcoming command
  have begun {s : Str} (hs : utf8 s = firstWord (p.1.pending ++ commandBytes (tag + 1) text)) :
      p.1.pending = [] ∨ ¬Upcoming tag (left + 1) s := by
    by_cases hnil : p.1.pending = []
    · exact .inl hnil
    · exact .inr (hpending s ⟨hnil, _, command_head List.prefix_rfl (by simp [commandBytes]),
        hs.symm⟩)
  refine ⟨ms ++ ms', hspells, fun status code information hmem => ?_, ms ++ ms', hspells,
    fun s hs hup => ?_, fun s hs => absurd rfl hs.1⟩
  · rcases List.mem_append.mp hmem with hmem | hmem
    · exact absurd (upcoming_next tag left)
        (hdone _ (mem_doneTags.mpr ⟨status, code, information, hmem⟩))
    · obtain ⟨hword, hmeant⟩ := hlabel _ _ _ _ hmem
      rcases begun hword with hnil | hlate
      · rwa [hnil, List.nil_append] at hmeant
      · exact absurd (upcoming_next tag left) hlate
  · rw [doneTags, List.filterMap_append] at hs
    rcases List.mem_append.mp hs with hs | hs
    · exact hdone s hs hup.succ
    · obtain ⟨status, code, information, hmem⟩ := mem_doneTags.mp hs
      obtain ⟨hword, -⟩ := hlabel _ _ _ _ hmem
      rcases begun hword with hnil | hlate
      · rw [hnil, List.nil_append, firstWord_command] at hword
        rw [utf8_inj hword] at hup
        exact not_upcoming hleft hup
      · exact hlate hup.succ

theorem answerOf_done_mem {ms : List Message} {tag : Str} {status : Status}
    {code : Option ResponseCode} {information : Option Str}
    (h : (answerOf ms).2.1 = .done tag status code information) :
    .response (.done tag status code information) ∈ ms := by
  fun_induction answerOf ms with
  | case1 => cases h
  | case2 => cases h
  | case3 =>
      cases h
      exact List.mem_cons_self
  | case4 r inbox hr ih => exact List.mem_cons_of_mem _ (ih h)

theorem answerOf_rest (ms : List Message) : (answerOf ms).2.2.Sublist ms := by
  fun_induction answerOf ms with
  | case1 => exact .slnil
  | case2 => exact List.sublist_cons_self _ _
  | case3 => exact List.sublist_cons_self _ _
  | case4 r inbox hr ih => exact ih.cons _

namespace Connection

/-- What a command has come to that was given this tag and sent as this line: it has failed,
or a tagged response meant for this line has decided. -/
inductive OwnAnswer (parse : ParseResponse) (Meant : Bytes → Response → Prop) (tag : UInt32)
    (line : Bytes) : Except Fault (Bytes × Nat) → Prop
  | io {kind : ErrorKind} : OwnAnswer parse Meant tag line (.error (.err (.io kind)))
  | lost : OwnAnswer parse Meant tag line (.error (.err .connectionLost))
  | mismatch {other : Str} : other ≠ matchTag tag → OwnAnswer parse Meant tag line
      (.error (.err (.tagMismatch { expect := tag, actual := actualTag other })))
  | answered {untagged : List Bytes} {rs : List Response} {d : Bytes} {status : Status}
      {code : Option ResponseCode} {information : Option Str} :
      List.Forall₂ parse.Accepts untagged rs →
      parse.Accepts d (.done (matchTag tag) status code information) →
      Meant line (.done (matchTag tag) status code information) →
      OwnAnswer parse Meant tag line (outcome untagged.flatten d code information status)

/-- A command has succeeded only if it was told so itself. -/
theorem OwnAnswer.ok {line : Bytes} {answer : Bytes × Nat}
    (h : OwnAnswer parse Meant tag line (.ok answer)) :
    ∃ code information, Meant line (.done (matchTag tag) .ok code information) := by
  generalize hr : (.ok answer : Except Fault (Bytes × Nat)) = r at h
  cases h with
  | io | lost | mismatch => cases hr
  | @answered _ _ _ status code information _ _ hmeant =>
      cases status with
      | ok => exact ⟨code, information, hmeant⟩
      | _ => cases hr

/-- Nothing is printed, and nothing that is under way has an upcoming tag. -/
structure ClearOf (parse : ParseResponse) (answer : τ → Bytes → τ × List ReadEvent)
    (tag : UInt32) (left : Nat) (conn : Connection (LineServer τ)) : Prop where
  silent : conn.Silent
  underWay : Clear parse tag left (conn.stream.settle (LineServer.step answer))

variable {conn : Connection (LineServer τ)}

/-- A line that is written arrives as a whole, or its tag is gone. -/
theorem ClearOf.runCommand (hanswer : Labels parse answer Meant)
    (h : conn.ClearOf parse answer conn.tag (left + 1)) (hleft : left < 2 ^ 32)
    (hline : SingleLine text) :
    (∃ conn' ms, Connection.runCommand (feed (LineServer.step answer)) text conn =
          (.ok (), conn') ∧ conn'.tag = conn.tag + 1 ∧ conn'.stream.wbuf = [] ∧
        conn'.ClearOf parse answer conn'.tag left ∧ Spells parse conn'.input ms ∧
        ∀ status code information,
          .response (.done (matchTag conn'.tag) status code information) ∈ ms →
            Meant (conn.commandLine text) (.done (matchTag conn'.tag) status code information)) ∨
      ∃ kind conn', Connection.runCommand (feed (LineServer.step answer)) text conn =
          (.error (.err (.io kind)), conn') ∧ conn'.tag = conn.tag ∧
        conn'.ClearOf parse answer (conn'.tag + 1) left := by
  obtain ⟨w, htakes, hdebug, ⟨hok, rfl, htag, hempty⟩ | ⟨kind, herr, hw, htag⟩⟩ :=
    runCommand_takes (LineServer.step answer) text conn
  · left
    obtain ⟨ms, hms, hown, hclear⟩ := h.underWay.line hanswer hleft hline
    rw [← htakes.settle] at hms hclear
    refine ⟨_, ms, Prod.ext hok rfl, htag, hempty, ⟨hdebug.trans h.silent, ?_⟩, ?_, ?_⟩
    · rw [htag]
      exact hclear
    · rwa [BufStream.settle_empty _ hempty] at hms
    · rw [htag]
      exact hown
  · right
    refine ⟨kind, _, Prod.ext herr rfl, htag, hdebug.trans h.silent, ?_⟩
    rw [htag, htakes.settle]
    rw [commandBytes_line] at hw
    rcases List.prefix_concat_iff.mp hw with rfl | hpart
    · obtain ⟨-, -, -, hclear⟩ := h.underWay.line hanswer hleft hline
      rwa [commandBytes_line] at hclear
    · exact h.underWay.part hleft hline hpart

/-- What is read of what is under way ends with a failure or a tagged response of it. -/
theorem ClearOf.readResponse (hp : parse.Framed LF) (h : conn.ClearOf parse answer conn.tag left)
    (hempty : conn.stream.wbuf = []) {ms : List Message} (hms : Spells parse conn.input ms)
    {line : Bytes} (hown : ∀ status code information,
      .response (.done (matchTag conn.tag) status code information) ∈ ms →
        Meant line (.done (matchTag conn.tag) status code information)) :
    OwnAnswer parse Meant conn.tag line (Connection.readResponse parse conn).1 ∧
      (Connection.readResponse parse conn).2.ClearOf parse answer
        (Connection.readResponse parse conn).2.tag left := by
  obtain ⟨ms', hms', hdone, hpending⟩ := h.underWay
  rw [BufStream.settle_empty _ hempty] at hms' hpending
  obtain ⟨us, u, hrun, reads⟩ := hms.reads hp h.silent.printable
  obtain ⟨us', u', hrun', reads'⟩ := Spells.reads hp h.silent.printable hms'
  obtain ⟨rfl, rfl⟩ := hrun.unique hrun'
  obtain ⟨us', u', conn', hrun', hread, hrest, hon⟩ := readResponse_answer parse conn
  obtain ⟨rfl, rfl⟩ := hrun.unique hrun'
  rw [hread]
  refine ⟨?_, hon.debug.trans h.silent, ?_⟩
  · have ends := reads.ends
    cases hending : (answerOf ms).2.1 with
    | lost =>
        rw [hending] at ends
        cases ends
        exact .lost
    | failed kind =>
        rw [hending] at ends
        cases ends
        exact .io
    | done tag status code information =>
        rw [hending] at ends
        cases ends with
        | done hd =>
        by_cases htag : tag = matchTag conn.tag
        · subst htag
          have meant := hown _ _ _ (answerOf_done_mem hending)
          have result := OwnAnswer.answered reads.texts hd meant
          rw [answerResult_status rfl]
          cases status <;> exact result
        · rw [answerResult_mismatch rfl htag]
          exact .mismatch htag
  · rw [hon.tag, BufStream.settle_empty _ (hon.wbuf.trans hempty)]
    refine ⟨_, ?_, fun s hs => hdone s (((answerOf_rest ms').filterMap _).subset hs), ?_⟩
    · change Spells parse conn'.input _
      rw [hrest]
      exact reads'.rest
    · rw [hon.peer]
      exact hpending

/-- Nothing is printed, and nothing is under way but untagged responses. -/
structure Unasked (parse : ParseResponse) (conn : Connection (LineServer τ)) : Prop where
  silent : conn.Silent
  flushed : conn.stream.wbuf = []
  received : conn.stream.inner.peer.pending = []
  untagged : ∃ ms, Spells parse conn.input ms ∧ doneTags ms = []

theorem Unasked.clear (h : conn.Unasked parse) (answer : τ → Bytes → τ × List ReadEvent)
    (tag : UInt32) (left : Nat) : conn.ClearOf parse answer tag left := by
  obtain ⟨ms, hms, hnone⟩ := h.untagged
  refine ⟨h.silent, ?_⟩
  rw [BufStream.settle_empty _ h.flushed]
  refine ⟨ms, hms, fun s hs => ?_, fun s hs => absurd h.received hs.1⟩
  rw [hnone] at hs
  cases hs

/-- The tag of a command that could not be written may not be given again. -/
def unsent {α : Type} : Except Fault α → Bool
  | .error (.err (.io _)) => true
  | _ => false

theorem unsent_map {α β : Type} (f : α → β) (r : Except Fault α) : unsent (r.map f) = unsent r := by
  cases r with
  | ok a => rfl
  | error fault =>
      cases fault with
      | err e => cases e <;> rfl
      | panic | running => rfl

/-- The tag after which nothing that is under way has a tag. -/
def settledTag (conn : Connection (LineServer τ)) (owed : Bool) : UInt32 :=
  if owed then conn.tag + 1 else conn.tag

theorem ClearOf.any (h : conn.ClearOf parse answer conn.tag (left + 1)) (owed : Bool) :
    conn.ClearOf parse answer (conn.settledTag owed) left := by
  refine ⟨h.silent, ?_⟩
  cases owed with
  | false => exact h.underWay.mono (Nat.le_succ left)
  | true => exact h.underWay.succ

theorem ClearOf.sending (hanswer : Labels parse answer Meant)
    (h : conn.ClearOf parse answer conn.tag (left + 1)) (hleft : left < 2 ^ 32)
    (hline : SingleLine text) :
    ClearOf parse answer
      (settledTag (Connection.runCommand (feed (LineServer.step answer)) text conn).2
        (unsent (Connection.runCommand (feed (LineServer.step answer)) text conn).1)) left
      (Connection.runCommand (feed (LineServer.step answer)) text conn).2 := by
  obtain ⟨conn', ms, hrun, -, -, hclear, -⟩ | ⟨kind, conn', hrun, -, hclear⟩ :=
    h.runCommand hanswer hleft hline
  · rw [hrun]
    exact hclear
  · rw [hrun]
    exact hclear

/-- A command reads an answer of its own, and leaves nothing with an upcoming tag. -/
theorem ClearOf.run (hp : parse.Framed LF) (hanswer : Labels parse answer Meant)
    (h : conn.ClearOf parse answer conn.tag (left + 1)) (hleft : left < 2 ^ 32)
    (hline : SingleLine text) :
    OwnAnswer parse Meant (conn.tag + 1) (conn.commandLine text)
        (Connection.run (feed (LineServer.step answer)) parse text conn).1 ∧
      ClearOf parse answer
        (settledTag (Connection.run (feed (LineServer.step answer)) parse text conn).2
          (unsent (Connection.runCommand (feed (LineServer.step answer)) text conn).1)) left
        (Connection.run (feed (LineServer.step answer)) parse text conn).2 := by
  obtain ⟨conn', ms, hrun, htag, hempty, hclear, hms, hown⟩ | ⟨kind, conn', hrun, -, hclear⟩ :=
    h.runCommand hanswer hleft hline
  · obtain ⟨hresult, hrest⟩ := hclear.readResponse hp hempty hms hown
    rw [Connection.run, Exec.bind_ok hrun, hrun, ← htag]
    exact ⟨hresult, hrest⟩
  · rw [Connection.run, Exec.bind_error hrun, hrun]
    exact ⟨.io, hclear⟩

end Connection

namespace Session

open Connection (unsent settledTag OwnAnswer)

/-- `n` steps from `s`. After a failed write no command is sent before its tag is skipped; the
flag says that it has not been skipped yet. -/
inductive Skipping (peer : Peer σ) (parse : ParseResponse) (s : Session σ) :
    Nat → Bool → Session σ → Prop
  | start : Skipping peer parse s 0 false s
  | execute {n : Nat} {s' : Session σ} {c : Command} {op : Exec (Session σ) Fault Value} :
      Skipping peer parse s n false s' → execute peer parse c = some op →
      (∀ text, c.text = .ok (some text) → SingleLine text) →
      Skipping peer parse s (n + 1) (unsent (Connection.send peer c s'.conn).1) (op s').2
  | run {n : Nat} {s' : Session σ} {text : Str} : Skipping peer parse s n false s' →
      SingleLine text → Skipping peer parse s (n + 1)
        (unsent (Connection.runCommand peer text s'.conn).1)
        (onConn (Connection.run peer parse text) s').2
  | runCommand {n : Nat} {s' : Session σ} {text : Str} : Skipping peer parse s n false s' →
      SingleLine text → Skipping peer parse s (n + 1)
        (unsent (Connection.runCommand peer text s'.conn).1)
        (onConn (Connection.runCommand peer text) s').2
  | skipTag {n : Nat} {owed : Bool} {s' : Session σ} : Skipping peer parse s n owed s' →
      Skipping peer parse s (n + 1) false (onConn Connection.skipTag s').2
  | takeAllUnsolicited {n : Nat} {owed : Bool} {s' : Session σ} :
      Skipping peer parse s n owed s' →
      Skipping peer parse s n owed (takeAllUnsolicited s').2

variable {s s' : Session (LineServer τ)} {n : Nat} {owed : Bool}

theorem Skipping.clear (hp : parse.Framed LF) (hanswer : Labels parse answer Meant)
    (h : Skipping (feed (LineServer.step answer)) parse s n owed s')
    (hs : s.conn.Unasked parse) (hn : n + left < 2 ^ 32) :
    s'.conn.ClearOf parse answer (s'.conn.settledTag owed) left := by
  induction h generalizing left with
  | start => exact hs.clear answer _ left
  | takeAllUnsolicited _ ih => exact ih hn
  | @execute n s' c op _ hop hline ih =>
      have before : s'.conn.ClearOf parse answer s'.conn.tag (left + 1) := ih (by omega)
      rw [Completes.conn (.command hop)]
      cases htext : c.text with
      | error e =>
          rw [Connection.command_failed (Connection.send_rejected htext s'.conn)]
          exact before.any _
      | ok sent =>
          cases sent with
          | none =>
              rw [Connection.command, Exec.bind_ok (Connection.send_none htext s'.conn)]
              exact before.any _
          | some text =>
              have after := (before.run hp hanswer (by omega) (hline text htext)).2
              rw [Connection.command_run htext, Connection.send_some _ htext,
                Connection.unsent_map]
              exact after
  | @run n s' text _ hline ih =>
      have before : s'.conn.ClearOf parse answer s'.conn.tag (left + 1) := ih (by omega)
      exact (before.run hp hanswer (by omega) hline).2
  | @runCommand n s' text _ hline ih =>
      have before : s'.conn.ClearOf parse answer s'.conn.tag (left + 1) := ih (by omega)
      exact before.sending hanswer (by omega) hline
  | @skipTag n owed s' _ ih =>
      have before : s'.conn.ClearOf parse answer (s'.conn.settledTag owed) (left + 1) :=
        ih (by omega)
      refine ⟨before.silent, ?_⟩
      cases owed with
      | false => exact before.underWay.succ
      | true => exact before.underWay.mono (Nat.le_succ left)

/-- If the tag of every command that could not be written is skipped, no command takes the
answer to another line for its own. -/
theorem own_answer (hp : parse.Framed LF) (hanswer : Labels parse answer Meant)
    (hs : s.conn.Unasked parse) (hn : n + 1 < 2 ^ 32)
    (h : Skipping (feed (LineServer.step answer)) parse s n false s') :
    (∀ text, SingleLine text →
      OwnAnswer parse Meant (s'.conn.tag + 1) (s'.conn.commandLine text)
        (Connection.run (feed (LineServer.step answer)) parse text s'.conn).1) ∧
      ∀ c text, c.text = .ok (some text) → SingleLine text →
        OwnAnswer parse Meant (s'.conn.tag + 1) (s'.conn.commandLine text)
          (Connection.command (feed (LineServer.step answer)) parse c s'.conn).1 := by
  have key (text : Str) (hline : SingleLine text) :=
    ((h.clear hp hanswer hs hn).run hp hanswer (by decide) hline).1
  refine ⟨key, fun c text htext hline => ?_⟩
  rw [Connection.command_run htext]
  exact key text hline

open Connection (okParse okSuffix fresh)

/-- A server that answers one line only. -/
def knowing (tag : UInt32) (text : Str) (_ : Unit) (line : Bytes) : Unit × List ReadEvent :=
  ((), ReadEvent.chunk
    (if line = commandBytes tag text then utf8 (matchTag tag) ++ okSuffix else []))

theorem knowing_labels (tag : UInt32) (text : Str) :
    Labels okParse (knowing tag text) fun line _ => line = commandBytes tag text := by
  intro t line
  rw [knowing]
  dsimp only
  split
  · rename_i hline
    refine ⟨[.response (.done (matchTag tag) .ok none none)], ?_, fun _ _ _ _ hmem => ?_⟩
    · rw [ReadEvent.events_chunk, ← List.append_nil (List.map _ _)]
      exact .response (Connection.okParse_accepts tag) .nil
    · cases List.mem_singleton.mp hmem
      rw [hline, firstWord_command]
      exact ⟨rfl, rfl⟩
  · exact ⟨[], .nil, fun _ _ _ _ hmem => by cases hmem⟩

/-- The first command is buffered, and its flush fails. -/
def stalled : Session (LineServer Unit) :=
  .new { fresh with
    stream := { fresh.stream with
      inner := { fresh.stream.inner with writes := [.done 0, .done 0, .err .other 0 0] } } }

def noopStalled (answer : Unit → Bytes → Unit × List ReadEvent) : Session (LineServer Unit) :=
  (((fun _ => .unit) <$> noop (feed (LineServer.step answer)) okParse :
    Exec (Session (LineServer Unit)) Fault Value) stalled).2

/-- If its tag is not skipped, the next command takes the answer to it. -/
example : ¬OwnAnswer okParse (fun line _ => line = commandBytes 1 "NOOP".toList) 1
    (commandBytes 1 "CHECK".toList)
    (Connection.command (feed (LineServer.step (knowing 1 "NOOP".toList))) okParse .check
      (noopStalled (knowing 1 "NOOP".toList)).conn).1 := by
  intro h
  have result : (Connection.command (feed (LineServer.step (knowing 1 "NOOP".toList))) okParse
      .check (noopStalled (knowing 1 "NOOP".toList)).conn).1 =
        .ok (utf8 "a1 OK\r\n".toList, 0) := by
    decide
  rw [result] at h
  obtain ⟨code, information, hmeant⟩ := h.ok
  exact absurd hmeant (by decide)

/-- The next command goes out together with the first, under a tag of its own. -/
def noopSkipped : Session (LineServer Unit) :=
  (onConn Connection.skipTag (noopStalled (knowing 2 "CHECK".toList))).2

theorem own_answer_check :
    (∀ text, SingleLine text →
      OwnAnswer okParse (fun line _ => line = commandBytes 2 "CHECK".toList)
        (noopSkipped.conn.tag + 1) (noopSkipped.conn.commandLine text)
        (Connection.run (feed (LineServer.step (knowing 2 "CHECK".toList))) okParse text
          noopSkipped.conn).1) ∧
      ∀ c text, c.text = .ok (some text) → SingleLine text →
        OwnAnswer okParse (fun line _ => line = commandBytes 2 "CHECK".toList)
          (noopSkipped.conn.tag + 1) (noopSkipped.conn.commandLine text)
          (Connection.command (feed (LineServer.step (knowing 2 "CHECK".toList))) okParse c
            noopSkipped.conn).1 := by
  have single : ∀ text, Command.noop.text = .ok (some text) → SingleLine text := by
    intro text htext
    cases htext
    decide
  refine own_answer Connection.okParse_framed (knowing_labels 2 "CHECK".toList) (s := stalled)
    (n := 2) ?_ (by decide) ?_
  · exact ⟨rfl, rfl, rfl, [], .nil, rfl⟩
  · exact .skipTag (.execute .start (c := .noop) rfl single)

end Session

end RustImap
