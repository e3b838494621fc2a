import RustImap.ReadResponse
import RustImap.Send

/-!
Peers that look at one byte after the other.

How the buffer cuts what is written into chunks makes no difference to such a peer. Its
state and what it has sent are determined by all bytes written, as soon as nothing is
left in the buffer: `settle` is where things stand then.
-/

namespace RustImap

section Feed

variable {σ : Type} (step : σ → UInt8 → σ × List ReadEvent)

def feed : Peer σ
  | s, [] => (s, [])
  | s, b :: bs => ((feed (step s b).1 bs).1, (step s b).2 ++ (feed (step s b).1 bs).2)

theorem feed_append (s : σ) (bs bs' : Bytes) :
    feed step s (bs ++ bs') =
      ((feed step (feed step s bs).1 bs').1,
        (feed step s bs).2 ++ (feed step (feed step s bs).1 bs').2) := by
  induction bs generalizing s with
  | nil => simp [feed]
  | cons b bs ih => simp [feed, ih]

end Feed

namespace BufStream

variable {σ : Type} (step : σ → UInt8 → σ × List ReadEvent)

/-- The peer and the unread input once the bytes `bs` have been handed on. -/
def after (bs : Bytes) (from_ : σ × List InEvent) : σ × List InEvent :=
  ((feed step from_.1 bs).1, from_.2 ++ (feed step from_.1 bs).2.flatMap ReadEvent.events)

theorem after_append (bs bs' : Bytes) (from_ : σ × List InEvent) :
    after step (bs ++ bs') from_ = after step bs' (after step bs from_) := by
  simp [after, feed_append]

/-- The peer and the unread input once the buffer is empty. -/
def settle (s : BufStream σ) : σ × List InEvent := after step s.wbuf (s.inner.peer, s.input)

theorem settle_empty {s : BufStream σ} (h : s.wbuf = []) :
    settle step s = (s.inner.peer, s.input) := by
  simp [settle, after, h, feed]

theorem settle_handed (s : BufStream σ) (bs bs' : Bytes) :
    settle step { s with inner := hand (feed step) s.inner bs, wbuf := bs' } =
      after step (bs ++ bs') (s.inner.peer, s.input) := by
  unfold hand
  split
  · subst bs
    rfl
  · rw [after_append]
    simp [settle, after, input]

theorem settle_push (n : Nat) (s : BufStream σ) :
    settle step (push (feed step) n s) = settle step s := by
  rw [push, settle_handed, List.take_append_drop]
  rfl

theorem settle_writeAll {s : BufStream σ} {buf : Bytes} {s' : BufStream σ}
    (h : writeAll (feed step) buf s = (.ok (), s')) :
    settle step s' = after step buf (settle step s) := by
  have buffered : settle step { s with wbuf := s.wbuf ++ buf } =
      after step buf (settle step s) := by
    simp only [settle, ← after_append]
    rfl
  unfold writeAll at h
  split at h
  · cases h
    exact buffered
  · cases h
    rw [settle_push]
    exact buffered
  · cases h

theorem settle_flush {s s' : BufStream σ} (h : flush (feed step) s = (.ok (), s')) :
    settle step s' = settle step s := by
  unfold flush at h
  split at h <;> cases h <;> rw [settle_push]
  rfl

/-- A line that has been written and flushed has arrived. -/
theorem line_arrived {s s1 s2 s3 : BufStream σ} {buf : Bytes} (hempty : s.wbuf = [])
    (h1 : writeAll (feed step) buf s = (.ok (), s1))
    (h2 : writeAll (feed step) [CR, LF] s1 = (.ok (), s2))
    (h3 : flush (feed step) s2 = (.ok (), s3)) :
    s3.wbuf = [] ∧
      (s3.inner.peer, s3.input) = after step (buf ++ [CR, LF]) (s.inner.peer, s.input) := by
  obtain ⟨-, hflushed⟩ := flush_total (feed step) s2
  rw [h3] at hflushed
  have empty : s3.wbuf = [] := hflushed rfl
  have settled := settle_empty step empty
  rw [settle_flush step h3, settle_writeAll step h2, settle_writeAll step h1,
    settle_empty step hempty, ← after_append] at settled
  exact ⟨empty, settled.symm⟩

end BufStream

namespace Connection

variable {σ : Type} (step : σ → UInt8 → σ × List ReadEvent)

/-- A call that has brought `bytes` to the peer, with nothing left in the buffer. -/
structure Delivered (bytes : Bytes) (conn conn' : Connection σ) : Prop where
  reliable : conn'.stream.Reliable
  empty : conn'.stream.wbuf = []
  sent : conn'.stream.inner.sent = conn.stream.inner.sent ++ bytes
  arrived : (conn'.stream.inner.peer, conn'.input) =
    BufStream.after step bytes (conn.stream.inner.peer, conn.input)

/-- Two writes and a flush, none of which fails, bring a line to the peer. -/
theorem write_delivered {conn : Connection σ} (hrel : conn.stream.Reliable)
    (hempty : conn.stream.wbuf = []) (buf : Bytes) :
    ∃ s1 s2 s3, BufStream.writeAll (feed step) buf conn.stream = (.ok (), s1) ∧
      BufStream.writeAll (feed step) [CR, LF] s1 = (.ok (), s2) ∧
      BufStream.flush (feed step) s2 = (.ok (), s3) ∧
      Delivered step (buf ++ [CR, LF]) conn { conn with stream := s3 } := by
  obtain ⟨ok1, rel1⟩ := BufStream.writeAll_reliable (feed step) hrel buf
  obtain ⟨w1, total1, hw1⟩ := BufStream.writeAll_total (feed step) buf conn.stream
  cases h1 : BufStream.writeAll (feed step) buf conn.stream with
  | mk r1 s1 =>
  rw [h1] at ok1 rel1 total1 hw1
  obtain rfl : r1 = .ok () := ok1
  obtain ⟨ok2, rel2⟩ := BufStream.writeAll_reliable (feed step) rel1 [CR, LF]
  obtain ⟨w2, total2, hw2⟩ := BufStream.writeAll_total (feed step) [CR, LF] s1
  cases h2 : BufStream.writeAll (feed step) [CR, LF] s1 with
  | mk r2 s2 =>
  rw [h2] at ok2 rel2 total2 hw2
  obtain rfl : r2 = .ok () := ok2
  obtain ⟨ok3, rel3⟩ := BufStream.flush_reliable (feed step) rel2
  obtain ⟨total3, -⟩ := BufStream.flush_total (feed step) s2
  cases h3 : BufStream.flush (feed step) s2 with
  | mk r3 s3 =>
  rw [h3] at ok3 rel3 total3
  obtain rfl : r3 = .ok () := ok3
  obtain ⟨empty, arrived⟩ := BufStream.line_arrived step hempty h1 h2 h3
  refine ⟨s1, s2, s3, rfl, h2, h3, rel3, empty, ?_, arrived⟩
  · replace total1 : s1.total = conn.stream.total ++ buf := by rw [← hw1]; exact total1
    replace total2 : s2.total = s1.total ++ [CR, LF] := by rw [← hw2]; exact total2
    replace total3 : s3.total = s2.total := total3
    rw [total2, total1] at total3
    simpa only [BufStream.total, empty, hempty, List.append_nil, List.append_assoc] using total3

/-- Writes that do not fail bring the whole line to the peer. -/
theorem writeLine_delivered {conn : Connection σ} (hrel : conn.stream.Reliable)
    (hempty : conn.stream.wbuf = []) {buf : Bytes} (hbuf : isUtf8 buf = true) :
    ∃ conn', writeLine (feed step) buf conn = (.ok (), conn') ∧ SameState conn conn' ∧
      Delivered step (buf ++ [CR, LF]) conn conn' := by
  obtain ⟨s1, s2, s3, h1, h2, h3, delivered⟩ := write_delivered step hrel hempty buf
  refine ⟨{ conn with stream := s3 }, ?_, ⟨rfl, rfl, rfl⟩, delivered⟩
  simp only [writeLine, Exec.bind_apply, io_apply, Exec.of_apply, h1, h2, h3, Except.mapError,
    hbuf, Bool.not_true, Bool.and_false, Bool.false_eq_true, if_false]

theorem runCommand_delivered {conn : Connection σ} (hrel : conn.stream.Reliable)
    (hempty : conn.stream.wbuf = []) (text : Str) :
    ∃ conn', runCommand (feed step) text conn = (.ok (), conn') ∧
      conn'.tag = conn.tag + 1 ∧ conn'.debug = conn.debug ∧
      conn'.greetingRead = conn.greetingRead ∧
      Delivered step (conn.commandLine text) conn conn' := by
  have hrel' : ({ conn with tag := conn.tag + 1 } : Connection σ).stream.Reliable := hrel
  obtain ⟨conn', hline, same, delivered⟩ := writeLine_delivered step hrel' hempty
    (isUtf8_utf8 (matchTag (conn.tag + 1) ++ ' ' :: text))
  refine ⟨conn', ?_, same.tag, same.debug, same.greetingRead, delivered.1, delivered.2,
    delivered.3, delivered.4⟩
  simp only [runCommand, Exec.bind_apply, createCommand_apply, Exec.of_apply, hline]

/-- A line that has been written has arrived, whatever the writes were like. -/
theorem writeLine_arrived {conn conn' : Connection σ} (hempty : conn.stream.wbuf = [])
    {buf : Bytes} (h : writeLine (feed step) buf conn = (.ok (), conn')) :
    SameState conn conn' ∧ conn'.stream.wbuf = [] ∧
      (conn'.stream.inner.peer, conn'.input) =
        BufStream.after step (buf ++ [CR, LF]) (conn.stream.inner.peer, conn.input) := by
  have written : ∀ {f : BufStream σ → Except ErrorKind Unit × BufStream σ}
      {c c' : Connection σ}, io f c = (.ok (), c') →
      f c.stream = (.ok (), c'.stream) ∧ SameState c c' := by
    intro f c c' h
    rw [io_apply] at h
    obtain ⟨hok, rfl⟩ := Prod.mk.inj h
    refine ⟨Prod.ext ?_ rfl, rfl, rfl, rfl⟩
    cases hf : (f c.stream).1 with
    | ok u => rfl
    | error k => simp [hf, Except.mapError] at hok
  obtain ⟨u1, c1, h1, h⟩ := Exec.bind_eq_ok.mp h
  obtain ⟨u2, c2, h2, h⟩ := Exec.bind_eq_ok.mp h
  obtain ⟨u3, c3, h3, h⟩ := Exec.bind_eq_ok.mp h
  obtain ⟨write1, same1⟩ := written h1
  obtain ⟨write2, same2⟩ := written h2
  obtain ⟨flush3, same3⟩ := written h3
  obtain rfl : c3 = conn' := by
    rw [Exec.of_apply] at h
    split at h <;> cases h
    rfl
  obtain ⟨empty, arrived⟩ := BufStream.line_arrived step hempty write1 write2 flush3
  exact ⟨⟨same3.1.trans (same2.1.trans same1.1), same3.2.trans (same2.2.trans same1.2),
    same3.3.trans (same2.3.trans same1.3)⟩, empty, arrived⟩

theorem runCommand_arrived {conn conn' : Connection σ} (hempty : conn.stream.wbuf = [])
    {text : Str} (h : runCommand (feed step) text conn = (.ok (), conn')) :
    conn'.tag = conn.tag + 1 ∧ conn'.debug = conn.debug ∧ conn'.stream.wbuf = [] ∧
      (conn'.stream.inner.peer, conn'.input) =
        BufStream.after step (conn.commandLine text) (conn.stream.inner.peer, conn.input) := by
  have hempty' : ({ conn with tag := conn.tag + 1 } : Connection σ).stream.wbuf = [] := hempty
  obtain ⟨command, c1, hcreate, h⟩ := Exec.bind_eq_ok.mp h
  cases hcreate
  rw [Exec.of_apply] at h
  split at h
  · cases h
  · obtain ⟨same, empty, arrived⟩ := writeLine_arrived step hempty' h
    exact ⟨same.tag, same.debug, empty, arrived⟩

end Connection
end RustImap
