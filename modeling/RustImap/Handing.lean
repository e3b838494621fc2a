import RustImap.Segmentation
import RustImap.Send

/-!
How the bytes of the client are handed on.

The buffer may hand on what is written in any pieces and keep some of it until a flush. To a
peer that takes its bytes as a stream the pieces are all one, and the client flushes before it
reads. So the pieces change nothing as long as no write fails, and neither do the chunks the
peer answers in.
-/

namespace RustImap

open Exec (Simulates Program)

variable {σ α : Type}

/-- The peer does not see in which pieces its bytes arrive, up to the states that `B` relates. -/
structure Peer.Streams (peer : Peer σ) (B : σ → σ → Prop) : Prop where
  recuts : peer.Recuts B
  equivalence : Equivalence B
  join : ∀ p a b, a ≠ [] → b ≠ [] → B (peer (peer p a).1 b).1 (peer p (a ++ b)).1
  joined : ∀ p a b, a ≠ [] → b ≠ [] →
    (peer p a).2.flatMap ReadEvent.events ++ (peer (peer p a).1 b).2.flatMap ReadEvent.events =
      (peer p (a ++ b)).2.flatMap ReadEvent.events

/-- Traffic without its cuts: the bytes sent, one by one, and the outcomes of the reads. -/
def Wire.uncut : Wire → List (UInt8 ⊕ (Bytes × Option ErrorKind))
  | .sent bs => bs.map .inl
  | .read bs failed => [.inr (bs, failed)]

/-- A peer that takes one byte at a time does not see the pieces. -/
theorem feed_streams (step : σ → UInt8 → σ × List ReadEvent) : Peer.Streams (feed step) Eq where
  recuts := ⟨fun p q bs h => by rw [h], fun p q bs h => by rw [h]⟩
  equivalence := eq_equivalence
  join p a b _ _ := by rw [feed_append]
  joined p a b _ _ := by rw [feed_append, List.flatMap_append]

namespace BufStream

/-- The same streams, when what is buffered for writing is left aside. -/
structure Level (B : σ → σ → Prop) (s t : BufStream σ) : Prop where
  input : s.input = t.input
  peer : B s.inner.peer t.inner.peer
  timeouts : s.inner.timeouts = t.inner.timeouts
  readTimeout : s.inner.readTimeout = t.inner.readTimeout
  wire : s.inner.wire.flatMap Wire.uncut = t.inner.wire.flatMap Wire.uncut

/-- Hand on bytes past the buffer. -/
def give (peer : Peer σ) (s : BufStream σ) (bs : Bytes) : BufStream σ :=
  { s with inner := hand peer s.inner bs }

/-- The stream as it is once the buffer has been handed on. -/
def handedOn (peer : Peer σ) (s : BufStream σ) : BufStream σ := give peer s s.wbuf

variable {peer : Peer σ} {B : σ → σ → Prop} {s t u : BufStream σ}

theorem Level.refl (hB : Equivalence B) (s : BufStream σ) : Level B s s :=
  ⟨rfl, hB.refl _, rfl, rfl, rfl⟩

theorem Level.symm (hB : Equivalence B) (h : Level B s t) : Level B t s :=
  ⟨h.input.symm, hB.symm h.peer, h.timeouts.symm, h.readTimeout.symm, h.wire.symm⟩

theorem Level.trans (hB : Equivalence B) (h : Level B s t) (h' : Level B t u) : Level B s u :=
  ⟨h.input.trans h'.input, hB.trans h.peer h'.peer, h.timeouts.trans h'.timeouts,
    h.readTimeout.trans h'.readTimeout, h.wire.trans h'.wire⟩

theorem give_nil (s : BufStream σ) : give peer s [] = s := rfl

theorem give_ne {bs : Bytes} (h : bs ≠ []) (s : BufStream σ) :
    give peer s bs = { s with inner :=
      { s.inner with
        peer := (peer s.inner.peer bs).1
        incoming := s.inner.incoming ++ (peer s.inner.peer bs).2
        wire := s.inner.wire ++ [.sent bs] } } := by
  rw [give, hand, if_neg h]

theorem give_input {bs : Bytes} (h : bs ≠ []) (s : BufStream σ) :
    (give peer s bs).input = s.input ++ (peer s.inner.peer bs).2.flatMap ReadEvent.events := by
  rw [give_ne h]
  simp only [input, List.flatMap_append, List.append_assoc]

theorem Level.give (hpeer : peer.Recuts B) (h : Level B s t) (bs : Bytes) :
    Level B (give peer s bs) (give peer t bs) := by
  by_cases hbs : bs = []
  · rw [hbs, give_nil, give_nil]
    exact h
  · refine ⟨?_, ?_, ?_, ?_, ?_⟩
    · rw [give_input hbs, give_input hbs, h.input, hpeer.bytes _ _ bs h.peer]
    · rw [give_ne hbs, give_ne hbs]
      exact hpeer.next _ _ bs h.peer
    · rw [give_ne hbs, give_ne hbs]
      exact h.timeouts
    · rw [give_ne hbs, give_ne hbs]
      exact h.readTimeout
    · rw [give_ne hbs, give_ne hbs]
      simp only [List.flatMap_append, h.wire]

/-- Two pieces are as good as one. -/
theorem give_append (hpeer : peer.Streams B) (s : BufStream σ) (a b : Bytes) :
    Level B (give peer (give peer s a) b) (give peer s (a ++ b)) := by
  by_cases ha : a = []
  · rw [ha, give_nil, List.nil_append]
    exact .refl hpeer.equivalence _
  by_cases hb : b = []
  · rw [hb, give_nil, List.append_nil]
    exact .refl hpeer.equivalence _
  have hab : a ++ b ≠ [] := by
    intro hnil
    exact ha (List.append_eq_nil_iff.mp hnil).1
  have next : (give peer s a).inner.peer = (peer s.inner.peer a).1 := by rw [give_ne ha]
  refine ⟨?_, ?_, ?_, ?_, ?_⟩
  · rw [give_input hb, give_input ha, give_input hab, next, List.append_assoc,
      hpeer.joined _ a b ha hb]
  · rw [give_ne hb, give_ne hab, next]
    exact hpeer.join _ a b ha hb
  · rw [give_ne hb, give_ne ha, give_ne hab]
  · rw [give_ne hb, give_ne ha, give_ne hab]
  · rw [give_ne hb, give_ne ha, give_ne hab]
    simp [Wire.uncut]

/-- What a push hands on is handed on sooner, and nothing else. -/
theorem handedOn_push (hpeer : peer.Streams B) (n : Nat) (s : BufStream σ) :
    Level B (handedOn peer (push peer n s)) (handedOn peer s) := by
  have pieces := give_append hpeer s (s.wbuf.take n) (s.wbuf.drop n)
  rw [List.take_append_drop] at pieces
  exact ⟨pieces.input, pieces.peer, pieces.timeouts, pieces.readTimeout, pieces.wire⟩

theorem handedOn_level (hpeer : peer.Recuts B) (h : Level B s t) (hwbuf : s.wbuf = t.wbuf) :
    Level B (handedOn peer s) (handedOn peer t) := by
  rw [handedOn, handedOn, hwbuf]
  exact h.give hpeer _

/-- Whether it is handed on at once or not, `buf` comes after what is buffered. -/
theorem handedOn_writeAll (hpeer : peer.Streams B) (hrel : s.Reliable) (buf : Bytes) :
    Level B (handedOn peer (writeAll peer buf s).2) (give peer (handedOn peer s) buf) := by
  have later : ∀ s' : BufStream σ, Level B s' s → s'.wbuf = s.wbuf ++ buf →
      Level B (handedOn peer s') (give peer (handedOn peer s) buf) := by
    intro s' hlevel hwbuf
    have all := hlevel.give hpeer.recuts (s.wbuf ++ buf)
    rw [handedOn, hwbuf]
    exact all.trans hpeer.equivalence
      ((give_append hpeer s s.wbuf buf).symm hpeer.equivalence)
  unfold writeAll
  cases hwrites : s.inner.writes with
  | nil => exact later _ ⟨rfl, hpeer.equivalence.refl _, rfl, rfl, rfl⟩ rfl
  | cons e es =>
      obtain ⟨handed, rfl⟩ := hrel e (by rw [hwrites]; exact List.mem_cons_self)
      refine (handedOn_push hpeer handed _).trans hpeer.equivalence ?_
      exact later _ ⟨rfl, hpeer.equivalence.refl _, rfl, rfl, rfl⟩ rfl

theorem flush_handsOn (hpeer : peer.Streams B) (hrel : s.Reliable) :
    Level B (flush peer s).2 (handedOn peer s) ∧ (flush peer s).2.wbuf = [] := by
  have pushed : ∀ s' : BufStream σ, Level B s' s → s'.wbuf = s.wbuf →
      Level B (push peer s.wbuf.length s') (handedOn peer s) ∧
        (push peer s.wbuf.length s').wbuf = [] := by
    intro s' hlevel hwbuf
    have all := hlevel.give hpeer.recuts s.wbuf
    refine ⟨?_, by rw [push, hwbuf, List.drop_length]⟩
    rw [push, hwbuf, List.take_length]
    exact ⟨all.input, all.peer, all.timeouts, all.readTimeout, all.wire⟩
  unfold flush
  cases hwrites : s.inner.writes with
  | nil => exact pushed s (.refl hpeer.equivalence s) rfl
  | cons e es =>
      obtain ⟨handed, rfl⟩ := hrel e (by rw [hwrites]; exact List.mem_cons_self)
      exact pushed _ ⟨rfl, hpeer.equivalence.refl _, rfl, rfl, rfl⟩ rfl

end BufStream

namespace Connection

/-- No write fails on either connection and nothing is buffered for writing. The connections
are the same, but for the chunks of what is read and the pieces of what is written. -/
structure Level (B : σ → σ → Prop) (c d : Connection σ) : Prop where
  stream : c.stream.Level B d.stream
  tag : c.tag = d.tag
  debug : c.debug = d.debug
  greetingRead : c.greetingRead = d.greetingRead
  reliable : c.stream.Reliable ∧ d.stream.Reliable
  flushed : c.stream.wbuf = [] ∧ d.stream.wbuf = []

/-- The same while something is written. -/
structure Writing (peer : Peer σ) (B : σ → σ → Prop) (c d : Connection σ) : Prop where
  stream : (c.stream.handedOn peer).Level B (d.stream.handedOn peer)
  tag : c.tag = d.tag
  debug : c.debug = d.debug
  greetingRead : c.greetingRead = d.greetingRead
  reliable : c.stream.Reliable ∧ d.stream.Reliable

variable {peer : Peer σ} {B : σ → σ → Prop} {c d : Connection σ}

theorem Level.writing (hpeer : peer.Streams B) (h : Level B c d) : Writing peer B c d :=
  ⟨BufStream.handedOn_level hpeer.recuts h.stream (h.flushed.1.trans h.flushed.2.symm), h.tag,
    h.debug, h.greetingRead, h.reliable⟩

theorem io_ok {f : BufStream σ → Except ErrorKind α × BufStream σ} {a : α}
    {conn : Connection σ} (h : (f conn.stream).1 = .ok a) :
    io f conn = (.ok a, { conn with stream := (f conn.stream).2 }) := by
  rw [io_apply, h]
  rfl

theorem Writing.writeAll (hpeer : peer.Streams B) (h : Writing peer B c d) (buf : Bytes) :
    ∃ c' d', io (BufStream.writeAll peer buf) c = (.ok (), c') ∧
      io (BufStream.writeAll peer buf) d = (.ok (), d') ∧ Writing peer B c' d' := by
  obtain ⟨okc, relc⟩ := BufStream.writeAll_reliable peer h.reliable.1 buf
  obtain ⟨okd, reld⟩ := BufStream.writeAll_reliable peer h.reliable.2 buf
  refine ⟨_, _, io_ok okc, io_ok okd, ?_, h.tag, h.debug, h.greetingRead, relc, reld⟩
  have writtenc := BufStream.handedOn_writeAll hpeer h.reliable.1 buf
  have writtend := BufStream.handedOn_writeAll hpeer h.reliable.2 buf
  have both := h.stream.give hpeer.recuts buf
  exact writtenc.trans hpeer.equivalence
    (both.trans hpeer.equivalence (writtend.symm hpeer.equivalence))

theorem Writing.flush (hpeer : peer.Streams B) (h : Writing peer B c d) :
    ∃ c' d', io (BufStream.flush peer) c = (.ok (), c') ∧
      io (BufStream.flush peer) d = (.ok (), d') ∧ Level B c' d' := by
  obtain ⟨okc, relc⟩ := BufStream.flush_reliable peer h.reliable.1
  obtain ⟨okd, reld⟩ := BufStream.flush_reliable peer h.reliable.2
  obtain ⟨levelc, emptyc⟩ := BufStream.flush_handsOn hpeer h.reliable.1
  obtain ⟨leveld, emptyd⟩ := BufStream.flush_handsOn hpeer h.reliable.2
  refine ⟨_, _, io_ok okc, io_ok okd, ?_, h.tag, h.debug, h.greetingRead, ⟨relc, reld⟩,
    ⟨emptyc, emptyd⟩⟩
  exact levelc.trans hpeer.equivalence
    (h.stream.trans hpeer.equivalence (leveld.symm hpeer.equivalence))

theorem writeLiteral_level (hpeer : peer.Streams B) (content : Bytes) :
    Simulates (Level B) Eq (writeLiteral peer content) (writeLiteral peer content) := by
  intro c d hcd
  obtain ⟨c1, d1, hc1, hd1, h1⟩ := (hcd.writing hpeer).writeAll hpeer content
  obtain ⟨c2, d2, hc2, hd2, h2⟩ := h1.writeAll hpeer [CR, LF]
  obtain ⟨c3, d3, hc3, hd3, h3⟩ := h2.flush hpeer
  have hc : writeLiteral peer content c = (.ok (), c3) := by
    rw [writeLiteral, Exec.bind_ok hc1, Exec.bind_ok hc2, hc3]
  have hd : writeLiteral peer content d = (.ok (), d3) := by
    rw [writeLiteral, Exec.bind_ok hd1, Exec.bind_ok hd2, hd3]
  rw [hc, hd]
  exact ⟨.ok rfl, h3⟩

theorem readline_level (into : Bytes) :
    Simulates (Level B) Eq (readline (σ := σ) into) (readline into) := by
  intro c d hcd
  obtain ⟨hgot, hrest⟩ := BufStream.readUntil_congr hcd.stream.input LF
  rw [readline_congr hcd.stream.input hcd.debug, readline_nextLine, readline_nextLine]
  refine ⟨.refl _, ⟨hrest, hcd.stream.peer, hcd.stream.timeouts, hcd.stream.readTimeout, ?_⟩,
    hcd.tag, hcd.debug, hcd.greetingRead, hcd.reliable, hcd.flushed⟩
  change (c.stream.inner.wire ++ [Wire.read (c.stream.readUntil LF).1.1
      (c.stream.readUntil LF).1.2]).flatMap Wire.uncut =
    (d.stream.inner.wire ++ [Wire.read (d.stream.readUntil LF).1.1
      (d.stream.readUntil LF).1.2]).flatMap Wire.uncut
  rw [List.flatMap_append, List.flatMap_append, hcd.stream.wire, hgot]

theorem setReadTimeout_level (timeout : Option Nat) :
    Simulates (Level B) Eq (io (σ := σ) (BufStream.setReadTimeout timeout))
      (io (BufStream.setReadTimeout timeout)) := by
  intro c d hcd
  have hstream := hcd.stream
  rw [io_apply, io_apply]
  unfold BufStream.setReadTimeout
  rw [hstream.timeouts]
  cases d.stream.inner.timeouts with
  | nil =>
      exact ⟨.refl _, ⟨hstream.input, hstream.peer, rfl, rfl, hstream.wire⟩, hcd.tag, hcd.debug,
        hcd.greetingRead, hcd.reliable, hcd.flushed⟩
  | cons o os =>
      cases o with
      | none =>
          exact ⟨.refl _, ⟨hstream.input, hstream.peer, rfl, rfl, hstream.wire⟩, hcd.tag,
            hcd.debug, hcd.greetingRead, hcd.reliable, hcd.flushed⟩
      | some k =>
          exact ⟨.refl _, ⟨hstream.input, hstream.peer, rfl, hstream.readTimeout, hstream.wire⟩,
            hcd.tag, hcd.debug, hcd.greetingRead, hcd.reliable, hcd.flushed⟩

/-- The client cannot tell how the bytes it writes are handed on. -/
theorem indistinct_level (hpeer : peer.Streams B) : Indistinct peer (Level B) where
  tag _ _ h := h.tag
  greetingRead _ _ h := h.greetingRead
  input _ _ h := congrArg List.length h.stream.input
  withTag _ _ _ h := ⟨h.stream, rfl, h.debug, h.greetingRead, h.reliable, h.flushed⟩
  withDebug _ _ _ h := ⟨h.stream, h.tag, rfl, h.greetingRead, h.reliable, h.flushed⟩
  withGreeting _ _ _ h := ⟨h.stream, h.tag, h.debug, rfl, h.reliable, h.flushed⟩
  readline := readline_level
  writeLiteral := writeLiteral_level hpeer
  setReadTimeout := setReadTimeout_level

end Connection

namespace Session

variable {peer : Peer σ} {parse : ParseResponse} {base64 : Base64} {B : σ → σ → Prop}

/-- In whatever pieces the two ends get each other's bytes, a program returns the same, and
the same bytes are sent and read in the same order. -/
theorem Conversation.level (hpeer : peer.Streams B) {x : Exec (Session σ) Fault α}
    (h : Conversation peer parse base64 x) {s t : Session σ} (hconn : s.conn.Level B t.conn)
    (hqueue : s.unsolicitedResponses = t.unsolicitedResponses) :
    (x s).1 = (x t).1 ∧ (x s).2.conn.Level B (x t).2.conn ∧
      (x s).2.unsolicitedResponses = (x t).2.unsolicitedResponses := by
  obtain ⟨hagree, hstate⟩ := h.related (Connection.indistinct_level hpeer) s t ⟨hconn, hqueue⟩
  exact ⟨hagree.eq, hstate.1, hstate.2⟩

/-- A server that answers every line. -/
def answering (_ : Unit) (b : UInt8) : Unit × List ReadEvent :=
  ((), if b = LF then ReadEvent.chunk (expungeLine ++ firstDone) else [])

/-- A session whose first writes are handed on in these pieces. -/
def handingSession (pieces : List Nat) : Session Unit :=
  .new
    { stream := .new
        { peer := (), incoming := [], writes := pieces.map .done, timeouts := [],
          readTimeout := none, wire := [] }
      tag := INITIAL_TAG
      debug := false
      greetingRead := true }

theorem handingSession_reliable (pieces : List Nat) :
    (handingSession pieces).conn.stream.Reliable := by
  intro e he
  obtain ⟨n, -, rfl⟩ := List.mem_map.mp he
  exact ⟨n, rfl⟩

theorem handingSession_level (pieces pieces' : List Nat) :
    (handingSession pieces).conn.Level Eq (handingSession pieces').conn :=
  ⟨⟨rfl, rfl, rfl, rfl, rfl⟩, rfl, rfl, rfl,
    ⟨handingSession_reliable pieces, handingSession_reliable pieces'⟩, ⟨rfl, rfl⟩⟩

theorem Conversation.level_expunge :
    (expunge (feed answering) expungeParse (handingSession [])).1 =
        (expunge (feed answering) expungeParse (handingSession [3, 0, 1])).1 ∧
      (expunge (feed answering) expungeParse (handingSession [])).2.conn.Level Eq
        (expunge (feed answering) expungeParse (handingSession [3, 0, 1])).2.conn ∧
      (expunge (feed answering) expungeParse (handingSession [])).2.unsolicitedResponses =
        (expunge (feed answering) expungeParse
          (handingSession [3, 0, 1])).2.unsolicitedResponses :=
  (expunge_conversation (feed answering) expungeParse).level (feed_streams answering)
    (s := handingSession []) (t := handingSession [3, 0, 1]) (handingSession_level [] [3, 0, 1])
    rfl

end Session

end RustImap
