import RustImap.Indistinct
import RustImap.NothingLost

/-!
How the bytes of a server are cut into chunks.

The client reads lines from a buffer that it fills chunk by chunk. What it does, returns and
sends does not depend on the chunks, in any program that keeps its stream: `into_inner`
alone drops what happens to be in the buffer.
-/

namespace RustImap

open Exec (Simulates Program)

variable {σ α : Type}

/-- `B` relates states of the peer that differ in how what they send is cut into chunks. -/
structure Peer.Recuts (peer : Peer σ) (B : σ → σ → Prop) : Prop where
  next : ∀ p q bs, B p q → B (peer p bs).1 (peer q bs).1
  bytes : ∀ p q bs, B p q →
    (peer p bs).2.flatMap ReadEvent.events = (peer q bs).2.flatMap ReadEvent.events

namespace BufStream

/-- The same stream, but for the chunks of what is still to be read. -/
structure Recut (B : σ → σ → Prop) (s t : BufStream σ) : Prop where
  input : s.input = t.input
  peer : B s.inner.peer t.inner.peer
  wbuf : s.wbuf = t.wbuf
  writes : s.inner.writes = t.inner.writes
  timeouts : s.inner.timeouts = t.inner.timeouts
  readTimeout : s.inner.readTimeout = t.inner.readTimeout
  wire : s.inner.wire = t.inner.wire

variable {peer : Peer σ} {B : σ → σ → Prop} {s t : BufStream σ}

theorem Recut.push (hpeer : peer.Recuts B) (h : Recut B s t) (n : Nat) :
    Recut B (push peer n s) (push peer n t) := by
  unfold BufStream.push hand
  rw [h.wbuf]
  by_cases hempty : t.wbuf.take n = []
  · rw [if_pos hempty, if_pos hempty]
    exact ⟨h.input, h.peer, rfl, h.writes, h.timeouts, h.readTimeout, h.wire⟩
  · rw [if_neg hempty, if_neg hempty]
    refine ⟨?_, hpeer.next _ _ _ h.peer, rfl, h.writes, h.timeouts, h.readTimeout, ?_⟩
    · have before := h.input
      have answer := hpeer.bytes _ _ (t.wbuf.take n) h.peer
      simp only [BufStream.input, List.flatMap_append] at before ⊢
      rw [answer, ← List.append_assoc, ← List.append_assoc, before]
    · simp only [h.wire]

theorem Recut.nextWrite (h : Recut B s t) (wbuf : Bytes) :
    Recut B { s.nextWrite with wbuf } { t.nextWrite with wbuf } :=
  ⟨h.input, h.peer, rfl, congrArg List.tail h.writes, h.timeouts, h.readTimeout, h.wire⟩

theorem Recut.writeAll (hpeer : peer.Recuts B) (h : Recut B s t) (buf : Bytes) :
    (writeAll peer buf s).1 = (writeAll peer buf t).1 ∧
      Recut B (writeAll peer buf s).2 (writeAll peer buf t).2 := by
  unfold BufStream.writeAll
  rw [h.writes, h.wbuf]
  cases t.inner.writes with
  | nil => exact ⟨rfl, h.input, h.peer, rfl, h.writes, h.timeouts, h.readTimeout, h.wire⟩
  | cons e es =>
      cases e with
      | done handed => exact ⟨rfl, (h.nextWrite _).push hpeer handed⟩
      | err k accepted handed => exact ⟨rfl, (h.nextWrite _).push hpeer handed⟩

theorem Recut.flush (hpeer : peer.Recuts B) (h : Recut B s t) :
    (flush peer s).1 = (flush peer t).1 ∧ Recut B (flush peer s).2 (flush peer t).2 := by
  have later : Recut B s.nextWrite t.nextWrite := by
    have next := h.nextWrite s.wbuf
    rwa [show ({ t.nextWrite with wbuf := s.wbuf } : BufStream σ) = t.nextWrite by
      rw [h.wbuf]; rfl] at next
  unfold BufStream.flush
  rw [h.writes, h.wbuf]
  cases t.inner.writes with
  | nil => exact ⟨rfl, h.push hpeer _⟩
  | cons e es =>
      cases e with
      | done handed => exact ⟨rfl, later.push hpeer _⟩
      | err k accepted handed => exact ⟨rfl, later.push hpeer _⟩

theorem Recut.setReadTimeout (h : Recut B s t) (timeout : Option Nat) :
    (setReadTimeout timeout s).1 = (setReadTimeout timeout t).1 ∧
      Recut B (setReadTimeout timeout s).2 (setReadTimeout timeout t).2 := by
  unfold BufStream.setReadTimeout
  rw [h.timeouts]
  cases t.inner.timeouts with
  | nil => exact ⟨rfl, h.input, h.peer, h.wbuf, h.writes, rfl, rfl, h.wire⟩
  | cons o os =>
      cases o with
      | none => exact ⟨rfl, h.input, h.peer, h.wbuf, h.writes, rfl, rfl, h.wire⟩
      | some k => exact ⟨rfl, h.input, h.peer, h.wbuf, h.writes, rfl, h.readTimeout, h.wire⟩

/-- A line is read alike, whatever the chunks. -/
theorem readUntil_congr {s t : BufStream σ} (h : s.input = t.input) (delim : UInt8) :
    (s.readUntil delim).1 = (t.readUntil delim).1 ∧
      (s.readUntil delim).2.input = (t.readUntil delim).2.input := by
  have hs := readUntil_takeLine delim s
  rw [h, readUntil_takeLine delim t] at hs
  obtain ⟨hline, hfailed, hrest⟩ : (t.readUntil delim).1.1 = (s.readUntil delim).1.1 ∧
      (t.readUntil delim).1.2 = (s.readUntil delim).1.2 ∧
      (t.readUntil delim).2.input = (s.readUntil delim).2.input := by
    simpa only [Prod.mk.injEq] using hs
  exact ⟨Prod.ext hline.symm hfailed.symm, hrest.symm⟩

theorem Recut.readUntil (h : Recut B s t) (delim : UInt8) :
    Recut B (s.readUntil delim).2 (t.readUntil delim).2 := by
  obtain ⟨hgot, hrest⟩ := readUntil_congr h.input delim
  refine ⟨hrest, h.peer, h.wbuf, h.writes, h.timeouts, h.readTimeout, ?_⟩
  change s.inner.wire ++ [.read (s.readUntil delim).1.1 (s.readUntil delim).1.2] =
    t.inner.wire ++ [.read (t.readUntil delim).1.1 (t.readUntil delim).1.2]
  rw [hgot, h.wire]

end BufStream

namespace Connection

/-- The same connection, but for the chunks of what is still to be read. -/
structure Recut (B : σ → σ → Prop) (c d : Connection σ) : Prop where
  stream : c.stream.Recut B d.stream
  tag : c.tag = d.tag
  debug : c.debug = d.debug
  greetingRead : c.greetingRead = d.greetingRead

variable {peer : Peer σ} {B : σ → σ → Prop}

theorem io_recut {f : BufStream σ → Except ErrorKind Unit × BufStream σ}
    (h : ∀ s t : BufStream σ, s.Recut B t → (f s).1 = (f t).1 ∧ (f s).2.Recut B (f t).2) :
    Simulates (Recut B) Eq (io f) (io f) := by
  intro c d hcd
  obtain ⟨hresult, hstream⟩ := h c.stream d.stream hcd.stream
  rw [io_apply, io_apply, hresult]
  exact ⟨.refl _, hstream, hcd.tag, hcd.debug, hcd.greetingRead⟩

/-- What a line comes to is in the input. -/
theorem readline_congr {c d : Connection σ} (hinput : c.stream.input = d.stream.input)
    (hdebug : c.debug = d.debug) (into : Bytes) :
    (readline into c).1 = (readline into d).1 := by
  obtain ⟨hgot, -⟩ := BufStream.readUntil_congr hinput LF
  have printed : c.printable = d.printable := printable_of_debug hdebug
  have same : lineResult c into = lineResult d into := by
    funext line failed
    simp only [lineResult, printed]
  rw [(readline_eq (takeLine_input c) into).1, (readline_eq (takeLine_input d) into).1, same, hgot]

theorem readline_nextLine (into : Bytes) (c : Connection σ) : (readline into c).2 = c.nextLine := by
  rw [(readline_eq (takeLine_input c) into).1]

theorem readline_recut (into : Bytes) :
    Simulates (Recut B) Eq (readline (σ := σ) into) (readline into) := by
  intro c d hcd
  rw [readline_congr hcd.stream.input hcd.debug, readline_nextLine, readline_nextLine]
  exact ⟨.refl _, hcd.stream.readUntil LF, hcd.tag, hcd.debug, hcd.greetingRead⟩

/-- The client cannot tell how the bytes it reads are cut. -/
theorem indistinct_recut (hpeer : peer.Recuts B) : Indistinct peer (Recut B) := by
  have writing (buf : Bytes) :
      Simulates (Recut B) Eq (io (BufStream.writeAll peer buf))
        (io (BufStream.writeAll peer buf)) :=
    io_recut fun _ _ h => h.writeAll hpeer buf
  have flushing : Simulates (Recut B) Eq (io (BufStream.flush peer)) (io (BufStream.flush peer)) :=
    io_recut fun _ _ h => h.flush hpeer
  exact
    { tag := fun _ _ h => h.tag
      greetingRead := fun _ _ h => h.greetingRead
      input := fun _ _ h => congrArg List.length h.stream.input
      withTag := fun _ _ _ h => ⟨h.stream, rfl, h.debug, h.greetingRead⟩
      withDebug := fun _ _ _ h => ⟨h.stream, h.tag, rfl, h.greetingRead⟩
      withGreeting := fun _ _ _ h => ⟨h.stream, h.tag, h.debug, rfl⟩
      readline := readline_recut
      writeLiteral := fun content =>
        (writing content).bind fun _ _ _ => (writing [CR, LF]).bind fun _ _ _ => flushing
      setReadTimeout := fun timeout => io_recut fun _ _ h => h.setReadTimeout timeout }

end Connection

namespace Session

variable {peer : Peer σ} {parse : ParseResponse} {base64 : Base64} {B : σ → σ → Prop}

/-- However the bytes of the server are cut, a program returns the same, sends the same, and
leaves the same unread and in the queue. -/
theorem Conversation.recut (hpeer : peer.Recuts B) {x : Exec (Session σ) Fault α}
    (h : Conversation peer parse base64 x) {s t : Session σ} (hconn : s.conn.Recut B t.conn)
    (hqueue : s.unsolicitedResponses = t.unsolicitedResponses) :
    (x s).1 = (x t).1 ∧ (x s).2.conn.Recut B (x t).2.conn ∧
      (x s).2.unsolicitedResponses = (x t).2.unsolicitedResponses := by
  obtain ⟨hagree, hstate⟩ := h.related (Connection.indistinct_recut hpeer) s t ⟨hconn, hqueue⟩
  exact ⟨hagree.eq, hstate.1, hstate.2⟩

/-- A server that sends its answer in one chunk or in two. -/
def cutting (a b : Bytes) : Peer Bool := fun whole _ =>
  (whole, if whole then ReadEvent.chunk (a ++ b) else ReadEvent.chunk a ++ ReadEvent.chunk b)

theorem cutting_recuts (a b : Bytes) : (cutting a b).Recuts fun _ _ => True := by
  have bytes (whole : Bool) (bs : Bytes) :
      (cutting a b whole bs).2.flatMap ReadEvent.events = (a ++ b).map .item := by
    cases whole with
    | true => exact ReadEvent.events_chunk (a ++ b)
    | false =>
        change (ReadEvent.chunk a ++ ReadEvent.chunk b).flatMap _ = _
        rw [List.flatMap_append, ReadEvent.events_chunk, ReadEvent.events_chunk, List.map_append]
  exact ⟨fun _ _ _ _ => trivial, fun p q bs _ => (bytes p bs).trans (bytes q bs).symm⟩

/-- The server reports an expunged message before it says `OK`. -/
def expungeCut : Peer Bool := cutting expungeLine firstDone

def cutSession (whole : Bool) : Session Bool :=
  .new
    { stream := .new
        { peer := whole, incoming := [], writes := [], timeouts := [], readTimeout := none,
          wire := [] }
      tag := INITIAL_TAG
      debug := false
      greetingRead := true }

theorem expunge_conversation (peer : Peer σ) (parse : ParseResponse) :
    Conversation peer parse Handshake.fooBar (expunge peer parse) :=
  .op (.operation .expunge fun lines _ => parseExpunge parse lines)

theorem cutSession_recut (whole whole' : Bool) :
    (cutSession whole).conn.Recut (fun _ _ => True) (cutSession whole').conn :=
  ⟨⟨rfl, trivial, rfl, rfl, rfl, rfl, rfl⟩, rfl, rfl, rfl⟩

theorem Conversation.recut_expunge :
    (expunge expungeCut expungeParse (cutSession true)).1 =
        (expunge expungeCut expungeParse (cutSession false)).1 ∧
      (expunge expungeCut expungeParse (cutSession true)).2.conn.Recut (fun _ _ => True)
        (expunge expungeCut expungeParse (cutSession false)).2.conn ∧
      (expunge expungeCut expungeParse (cutSession true)).2.unsolicitedResponses =
        (expunge expungeCut expungeParse (cutSession false)).2.unsolicitedResponses :=
  (expunge_conversation expungeCut expungeParse).recut (cutting_recuts expungeLine firstDone)
    (s := cutSession true) (t := cutSession false) (cutSession_recut true false) rfl

end Session

end RustImap
