import RustImap.Session

/-!
What sending does to a connection.

`BufStream.total` is every byte ever accepted for sending, on the wire or still in the
buffer. Writing a line extends it by a prefix of the line, and by the whole line when
the write succeeds; the tag goes up by one when a command was written and stays when it
was not.
-/

namespace RustImap

namespace BufStream

variable {σ : Type} {peer : Peer σ}

def total (s : BufStream σ) : Bytes := s.inner.sent ++ s.wbuf

@[simp] theorem hand_sent (t : Transport σ) (bs : Bytes) :
    (hand peer t bs).sent = t.sent ++ bs := by
  unfold hand
  split
  · simp [*]
  · simp [Transport.sent, Wire.sentBytes]

@[simp] theorem push_total (n : Nat) (s : BufStream σ) : (push peer n s).total = s.total := by
  simp [push, total]

@[simp] theorem nextWrite_total (s : BufStream σ) : s.nextWrite.total = s.total := rfl

variable (peer) in
/-- A write takes all of its bytes, or all but some of the last. -/
theorem writeAll_total (buf : Bytes) (s : BufStream σ) :
    ∃ w, (writeAll peer buf s).2.total = s.total ++ w ∧
      match (writeAll peer buf s).1 with
      | .ok () => w = buf
      | .error _ => w <+: buf.dropLast := by
  unfold writeAll
  cases s.inner.writes with
  | nil => exact ⟨buf, by simp [total], rfl⟩
  | cons e es =>
      cases e with
      | done handed => exact ⟨buf, by rw [push_total]; simp [total, nextWrite, Transport.sent], rfl⟩
      | err k accepted handed =>
          refine ⟨buf.dropLast.take accepted, ?_, List.take_prefix _ _⟩
          rw [push_total]
          simp [total, nextWrite, Transport.sent]

variable (peer) in
theorem flush_total (s : BufStream σ) :
    (flush peer s).2.total = s.total ∧
      ((flush peer s).1 = .ok () → (flush peer s).2.wbuf = []) := by
  unfold flush
  cases s.inner.writes with
  | nil => exact ⟨push_total _ _, fun _ => by simp [push]⟩
  | cons e es =>
      cases e with
      | done handed =>
          exact ⟨by rw [push_total, nextWrite_total], fun _ => by simp [push, nextWrite]⟩
      | err k accepted handed =>
          exact ⟨by rw [push_total, nextWrite_total], fun h => by cases h⟩

@[simp] theorem hand_writes (t : Transport σ) (bs : Bytes) :
    (hand peer t bs).writes = t.writes := by
  unfold hand
  split <;> rfl

@[simp] theorem push_writes (n : Nat) (s : BufStream σ) :
    (push peer n s).inner.writes = s.inner.writes :=
  hand_writes _ _

/-- Nothing has been read in between. -/
def SentMore (s s' : BufStream σ) : Prop :=
  ∃ chunks : List Bytes, s'.inner.wire = s.inner.wire ++ chunks.map .sent

theorem SentMore.refl (s : BufStream σ) : SentMore s s := ⟨[], by simp⟩

theorem SentMore.trans {a b c : BufStream σ} (h : SentMore a b) (h' : SentMore b c) :
    SentMore a c := by
  obtain ⟨chunks, hchunks⟩ := h
  obtain ⟨chunks', hchunks'⟩ := h'
  exact ⟨chunks ++ chunks', by rw [hchunks', hchunks, List.map_append, List.append_assoc]⟩

/-- What has gone out and what has been buffered since, when nothing was read. -/
theorem total_chunks {s s' : BufStream σ} {chunks : List Bytes}
    (hchunks : s'.inner.wire = s.inner.wire ++ chunks.map .sent) {w : Bytes}
    (htotal : s'.total = s.total ++ w) : chunks.flatten ++ s'.wbuf = s.wbuf ++ w := by
  have hflat : (chunks.map Wire.sent).flatMap Wire.sentBytes = chunks.flatten := by
    simp [List.flatMap_map, Wire.sentBytes, List.flatMap_id']
  simp only [total, Transport.sent, hchunks, List.flatMap_append, hflat,
    List.append_assoc] at htotal
  exact List.append_cancel_left htotal

theorem push_sentMore (n : Nat) {s s' : BufStream σ} (h : s'.inner.wire = s.inner.wire) :
    SentMore s (push peer n s') := by
  unfold push hand
  split
  · exact ⟨[], by simpa using h⟩
  · exact ⟨[s'.wbuf.take n], by simp [h]⟩

variable (peer) in
theorem writeAll_sentMore (buf : Bytes) (s : BufStream σ) :
    SentMore s (writeAll peer buf s).2 := by
  unfold writeAll
  cases s.inner.writes with
  | nil => exact .refl _
  | cons e es => cases e <;> exact push_sentMore _ rfl

variable (peer) in
theorem flush_sentMore (s : BufStream σ) : SentMore s (flush peer s).2 := by
  unfold flush
  cases s.inner.writes with
  | nil => exact push_sentMore _ rfl
  | cons e es => cases e <;> exact push_sentMore _ rfl

/-- No write or flush fails from here on. -/
def Reliable (s : BufStream σ) : Prop := ∀ e ∈ s.inner.writes, ∃ n, e = .done n

variable (peer) in
theorem writeAll_reliable {s : BufStream σ} (h : s.Reliable) (buf : Bytes) :
    (writeAll peer buf s).1 = .ok () ∧ (writeAll peer buf s).2.Reliable := by
  unfold writeAll
  cases hw : s.inner.writes with
  | nil => exact ⟨rfl, by simpa [Reliable] using h⟩
  | cons e es =>
      obtain ⟨n, rfl⟩ := h e (by simp [hw])
      refine ⟨rfl, ?_⟩
      intro e' he'
      simp only [push_writes, nextWrite, hw, List.tail_cons] at he'
      exact h e' (by simp [hw, he'])

variable (peer) in
theorem flush_reliable {s : BufStream σ} (h : s.Reliable) :
    (flush peer s).1 = .ok () ∧ (flush peer s).2.Reliable := by
  unfold flush
  cases hw : s.inner.writes with
  | nil => exact ⟨rfl, by simpa [Reliable] using h⟩
  | cons e es =>
      obtain ⟨n, rfl⟩ := h e (by simp [hw])
      refine ⟨rfl, ?_⟩
      intro e' he'
      simp only [push_writes, nextWrite, hw, List.tail_cons] at he'
      exact h e' (by simp [hw, he'])

end BufStream

namespace Connection

variable {σ : Type} {peer : Peer σ}

def total (conn : Connection σ) : Bytes := conn.stream.total

/-- Sending has changed nothing but the stream. -/
structure SameState (conn conn' : Connection σ) : Prop where
  tag : conn'.tag = conn.tag
  debug : conn'.debug = conn.debug
  greetingRead : conn'.greetingRead = conn.greetingRead

@[simp] theorem createCommand_apply (text : Str) (conn : Connection σ) :
    createCommand text conn =
      (.ok (matchTag (conn.tag + 1) ++ ' ' :: text), { conn with tag := conn.tag + 1 }) := rfl

theorem io_apply {α : Type} (f : BufStream σ → Except ErrorKind α × BufStream σ)
    (conn : Connection σ) :
    io f conn = ((f conn.stream).1.mapError fun k => .err (.io k),
      { conn with stream := (f conn.stream).2 }) := rfl

variable (peer) in
/-- The ways a line is written: all of it, or a proper part of it and an I/O error, or
all of it into the buffer and an error of the flush. -/
theorem writeLine_total {buf : Bytes} (hbuf : isUtf8 buf = true) (conn : Connection σ) :
    ∃ w, (writeLine peer buf conn).2.total = conn.total ++ w ∧
      SameState conn (writeLine peer buf conn).2 ∧
      ((writeLine peer buf conn).1 = .ok () ∧ w = buf ++ [CR, LF] ∧
          (writeLine peer buf conn).2.stream.wbuf = [] ∨
        ∃ k, (writeLine peer buf conn).1 = .error (.err (.io k)) ∧ w <+: buf ++ [CR, LF]) := by
  obtain ⟨w1, htotal1, hw1⟩ := BufStream.writeAll_total peer buf conn.stream
  simp only [writeLine, Exec.bind_apply, io_apply, Exec.of_apply]
  cases h1 : BufStream.writeAll peer buf conn.stream with
  | mk r1 s1 =>
  rw [h1] at htotal1 hw1
  cases r1 with
  | error k =>
      refine ⟨w1, htotal1, ⟨rfl, rfl, rfl⟩, .inr ⟨k, rfl, ?_⟩⟩
      exact (hw1.trans (List.dropLast_prefix buf)).trans (List.prefix_append _ _)
  | ok u1 =>
  obtain ⟨w2, htotal2, hw2⟩ := BufStream.writeAll_total peer [CR, LF] s1
  cases h2 : BufStream.writeAll peer [CR, LF] s1 with
  | mk r2 s2 =>
  rw [h2] at htotal2 hw2
  have htotal : s2.total = conn.total ++ (buf ++ w2) := by
    change s1.total = conn.total ++ w1 at htotal1
    change s2.total = s1.total ++ w2 at htotal2
    rw [htotal2, htotal1, hw1, List.append_assoc]
  simp only [Except.mapError, h2]
  cases r2 with
  | error k =>
      refine ⟨buf ++ w2, htotal, ⟨rfl, rfl, rfl⟩, .inr ⟨k, rfl, ?_⟩⟩
      exact (List.prefix_append_right_inj buf).mpr (hw2.trans (List.dropLast_prefix _))
  | ok u2 =>
  obtain ⟨hflush, hempty⟩ := BufStream.flush_total peer s2
  obtain rfl : w2 = [CR, LF] := hw2
  cases h3 : BufStream.flush peer s2 with
  | mk r3 s3 =>
  rw [h3] at hflush hempty
  simp only [h3]
  cases r3 with
  | error k =>
      exact ⟨buf ++ [CR, LF], hflush.trans htotal, ⟨rfl, rfl, rfl⟩, .inr ⟨k, rfl, List.prefix_rfl⟩⟩
  | ok u3 =>
      simp only [hbuf, Bool.not_true, Bool.and_false, Bool.false_eq_true, if_false]
      exact ⟨buf ++ [CR, LF], hflush.trans htotal, ⟨rfl, rfl, rfl⟩, .inl ⟨trivial, rfl, hempty rfl⟩⟩

variable (peer) in
theorem writeLine_reliable {conn : Connection σ} (h : conn.stream.Reliable) {buf : Bytes}
    (hbuf : isUtf8 buf = true) :
    (writeLine peer buf conn).1 = .ok () ∧ (writeLine peer buf conn).2.stream.Reliable := by
  obtain ⟨ok1, rel1⟩ := BufStream.writeAll_reliable peer h buf
  obtain ⟨ok2, rel2⟩ := BufStream.writeAll_reliable peer rel1 [CR, LF]
  obtain ⟨ok3, rel3⟩ := BufStream.flush_reliable peer rel2
  simp only [writeLine, Exec.bind_apply, io_apply, Exec.of_apply, ok1, ok2, ok3,
    Except.mapError, hbuf, Bool.not_true, Bool.and_false, Bool.false_eq_true, if_false]
  exact ⟨trivial, rel3⟩

variable (peer) in
theorem writeLine_sentMore (buf : Bytes) (conn : Connection σ) :
    conn.stream.SentMore (writeLine peer buf conn).2.stream := by
  have io_keeps : ∀ f : BufStream σ → Except ErrorKind Unit × BufStream σ,
      (∀ s : BufStream σ, s.SentMore (f s).2) →
      Exec.Keeps (fun c : Connection σ => conn.stream.SentMore c.stream) (io f) :=
    fun f hf c hc => hc.trans (hf c.stream)
  refine Exec.Keeps.bind (io_keeps _ (BufStream.writeAll_sentMore peer buf)) (fun _ => ?_)
    conn (.refl _)
  refine Exec.Keeps.bind (io_keeps _ (BufStream.writeAll_sentMore peer _)) fun _ => ?_
  refine Exec.Keeps.bind (io_keeps _ (BufStream.flush_sentMore peer)) fun _ => ?_
  intro c hc
  simp only [Exec.of_apply]
  split <;> exact hc

variable (peer) in
/-- A line that does not stay in the buffer in part. -/
theorem writeLine_sends {conn : Connection σ} (hrel : conn.stream.Reliable)
    (hempty : conn.stream.wbuf = []) {buf : Bytes} (hbuf : isUtf8 buf = true) :
    ∃ conn', ∃ chunks : List Bytes, writeLine peer buf conn = (.ok (), conn') ∧
      SameState conn conn' ∧
      conn'.stream.Reliable ∧ conn'.stream.wbuf = [] ∧
      conn'.stream.inner.wire = conn.stream.inner.wire ++ chunks.map .sent ∧
      chunks.flatten = buf ++ [CR, LF] := by
  obtain ⟨hok, hrel'⟩ := writeLine_reliable peer hrel hbuf
  obtain ⟨chunks, hchunks⟩ := writeLine_sentMore peer buf conn
  obtain ⟨w, htotal, same, ⟨-, rfl, hempty'⟩ | ⟨k, herr, -⟩⟩ := writeLine_total peer hbuf conn
  · refine ⟨_, chunks, Prod.ext hok rfl, same, hrel', hempty', hchunks, ?_⟩
    have hbytes := BufStream.total_chunks hchunks htotal
    rwa [hempty, hempty', List.append_nil, List.nil_append] at hbytes
  · rw [hok] at herr
    cases herr

variable (peer) in
theorem runCommand_sentMore (text : Str) (conn : Connection σ) :
    conn.stream.SentMore (runCommand peer text conn).2.stream := by
  have line := writeLine_sentMore peer (utf8 (matchTag (conn.tag + 1) ++ ' ' :: text))
    { conn with tag := conn.tag + 1 }
  simp only [runCommand, Exec.bind_apply, createCommand_apply, Exec.of_apply]
  split
  · rename_i heq
    rwa [heq] at line
  · exact line

theorem not_mem_matchTag {c : Char} (ha : c ≠ 'a') (hdigit : c.isDigit = false)
    (tag : UInt32) : c ∉ matchTag tag := by
  intro h
  rcases List.mem_append.mp h with h | h
  · exact ha (List.mem_singleton.mp h)
  · rw [isDigit_of_mem_decimal h] at hdigit
    cases hdigit

theorem space_not_mem_matchTag (tag : UInt32) : SPACE ∉ utf8 (matchTag tag) := by
  rw [mem_utf8_ascii (by decide) (a := ' ') (by decide)]
  exact not_mem_matchTag (by decide) (by decide) tag

/-- The bytes of the next command with this text. -/
def commandLine (conn : Connection σ) (text : Str) : Bytes :=
  utf8 (matchTag (conn.tag + 1) ++ ' ' :: text) ++ [CR, LF]

variable (peer) in
theorem runCommand_total (text : Str) (conn : Connection σ) :
    ∃ w, (runCommand peer text conn).2.total = conn.total ++ w ∧
      (runCommand peer text conn).2.debug = conn.debug ∧
      (runCommand peer text conn).2.greetingRead = conn.greetingRead ∧
      ((runCommand peer text conn).1 = .ok () ∧ w = conn.commandLine text ∧
          (runCommand peer text conn).2.tag = conn.tag + 1 ∧
          (runCommand peer text conn).2.stream.wbuf = [] ∨
        ∃ k, (runCommand peer text conn).1 = .error (.err (.io k)) ∧
          w <+: conn.commandLine text ∧ (runCommand peer text conn).2.tag = conn.tag) := by
  obtain ⟨w, htotal, same, hout⟩ := writeLine_total peer
    (isUtf8_utf8 (matchTag (conn.tag + 1) ++ ' ' :: text)) { conn with tag := conn.tag + 1 }
  simp only [runCommand, Exec.bind_apply, createCommand_apply, Exec.of_apply]
  cases hline : writeLine peer (utf8 (matchTag (conn.tag + 1) ++ ' ' :: text))
      { conn with tag := conn.tag + 1 } with
  | mk r conn' =>
  rw [hline] at htotal same hout
  obtain ⟨hok, hw, hempty⟩ | ⟨k, herr, hw⟩ := hout
  · obtain rfl : r = .ok () := hok
    exact ⟨w, htotal, same.debug, same.greetingRead, .inl ⟨rfl, hw, same.tag, hempty⟩⟩
  · obtain rfl : r = .error (.err (.io k)) := herr
    refine ⟨w, htotal, same.debug, same.greetingRead, .inr ⟨k, rfl, hw, ?_⟩⟩
    have htag : conn'.tag = conn.tag + 1 := same.tag
    simp only [htag, UInt32.add_sub_cancel]

variable (peer) in
theorem runCommand_reliable {conn : Connection σ} (h : conn.stream.Reliable) (text : Str) :
    (runCommand peer text conn).1 = .ok () ∧
      (runCommand peer text conn).2.stream.Reliable := by
  have hconn : BufStream.Reliable ({ conn with tag := conn.tag + 1 } : Connection σ).stream := h
  obtain ⟨ok, rel⟩ := writeLine_reliable peer hconn
    (isUtf8_utf8 (matchTag (conn.tag + 1) ++ ' ' :: text))
  simp only [runCommand, Exec.bind_apply, createCommand_apply, Exec.of_apply]
  cases hline : writeLine peer (utf8 (matchTag (conn.tag + 1) ++ ' ' :: text))
      { conn with tag := conn.tag + 1 } with
  | mk r conn' =>
  rw [hline] at ok rel
  obtain rfl : r = .ok () := ok
  exact ⟨rfl, rel⟩

/-- An operation that writes no command leaves the connection alone. -/
theorem send_rejected {c : Command} {e : Error} (h : c.text = .error e) (conn : Connection σ) :
    send peer c conn = (.error (.err e), conn) := by
  simp [send, h, Exec.bind_apply, Except.mapError]

theorem send_none {c : Command} (h : c.text = .ok none) (conn : Connection σ) :
    send peer c conn = (.ok false, conn) := by
  simp [send, h, Exec.bind_apply, Except.mapError]

theorem send_some (peer : Peer σ) {c : Command} {text : Str} (h : c.text = .ok (some text))
    (conn : Connection σ) :
    send peer c conn =
      ((runCommand peer text conn).1.map fun _ => true, (runCommand peer text conn).2) := by
  simp only [send, h, Exec.bind_apply, Except.mapError, Exec.lift_apply]
  cases runCommand peer text conn with
  | mk r conn' => cases r <;> rfl

theorem command_sent {parse : ParseResponse} {c : Command} {conn conn' : Connection σ}
    (h : send peer c conn = (.ok true, conn')) :
    command peer parse c conn = readResponse parse conn' := by
  rw [command, Exec.bind_ok h, if_pos rfl]

theorem command_failed {parse : ParseResponse} {c : Command} {conn conn' : Connection σ}
    {e : Fault} (h : send peer c conn = (.error e, conn')) :
    command peer parse c conn = (.error e, conn') :=
  Exec.bind_error h

theorem command_run {parse : ParseResponse} {c : Command} {text : Str}
    (h : c.text = .ok (some text)) (conn : Connection σ) :
    command peer parse c conn = run peer parse text conn := by
  have hsend := send_some peer h conn
  cases hrun : runCommand peer text conn with
  | mk r conn' =>
      rw [hrun] at hsend
      rw [run]
      cases r with
      | ok _ => rw [command_sent hsend, Exec.bind_ok hrun]
      | error e => rw [command_failed hsend, Exec.bind_error hrun]

end Connection

namespace Session

variable {σ α : Type} {peer : Peer σ} {parse : ParseResponse}

theorem operation_ok {c : Command} {finish : Bytes → Nat → Collect α} {s : Session σ}
    {lines : Bytes} {ok : Nat} {conn : Connection σ}
    (h : Connection.command peer parse c s.conn = (.ok (lines, ok), conn)) :
    operation peer parse c finish s =
      ((finish lines ok s.unsolicitedResponses).1,
        ⟨conn, (finish lines ok s.unsolicitedResponses).2⟩) := by
  have step : onConn (Connection.command peer parse c) s =
      (.ok (lines, ok), { s with conn }) := by
    simp only [onConn, Exec.on, h]
  rw [operation, Exec.bind_ok step]
  rfl

theorem operation_error {c : Command} {finish : Bytes → Nat → Collect α} {s : Session σ}
    {e : Fault} {conn : Connection σ}
    (h : Connection.command peer parse c s.conn = (.error e, conn)) :
    operation peer parse c finish s = (.error e, { s with conn }) := by
  have step : onConn (Connection.command peer parse c) s = (.error e, { s with conn }) := by
    simp only [onConn, Exec.on, h]
  exact Exec.bind_error step

theorem checkOk_error {c : Command} {s : Session σ} {e : Fault} {conn : Connection σ}
    (h : Connection.command peer parse c s.conn = (.error e, conn)) :
    checkOk peer parse c s = (.error e, { s with conn }) := by
  rw [checkOk, untagged]
  exact operation_error h

end Session
end RustImap
