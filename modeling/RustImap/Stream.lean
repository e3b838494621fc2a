import RustImap.LineReader
import RustImap.Text

/-!
The buffered stream between the client and its transport.

A transport delivers chunks of bytes or errors and hands what it is given to the
peer, which may answer. The buffer in front of it (`bufstream::BufStream`) keeps
bytes read ahead and bytes not yet handed on. What the client can still read is
`BufStream.input`: the chunk boundaries never show in it.
-/

namespace RustImap

/-- The I/O errors the client tells apart. -/
inductive ErrorKind where
  | timedOut
  | wouldBlock
  | other
  deriving DecidableEq

/-- What one `read` of the transport yields. A chunk is never empty: an empty read is
the end of the stream, and `Interrupted` is retried by the standard library. -/
inductive ReadEvent where
  | data (b : UInt8) (bs : Bytes)
  | err (kind : ErrorKind)
  deriving DecidableEq

/-- How one `write_all` or `flush` of the buffer ends. Either way the first `handed`
of the buffered bytes reach the transport; a failing `write_all` has taken only
`accepted` of its bytes into the buffer. -/
inductive WriteEvent where
  | done (handed : Nat)
  | err (kind : ErrorKind) (accepted handed : Nat)
  deriving DecidableEq

/-- The other end of the connection: bytes that arrive change its state and make it
send. Whatever it sends of its own accord counts as part of an earlier answer. -/
abbrev Peer (σ : Type) := σ → Bytes → σ × List ReadEvent

/-- What has passed between the two ends, in the client's order: bytes handed on, and
the outcomes of its reads. -/
inductive Wire where
  | sent (bs : Bytes)
  | read (bs : Bytes) (failed : Option ErrorKind)
  deriving DecidableEq

structure Transport (σ : Type) where
  peer : σ
  incoming : List ReadEvent
  /-- How the coming writes and flushes end; past the end of the list they succeed. -/
  writes : List WriteEvent
  /-- How the coming `set_read_timeout` calls end. -/
  timeouts : List (Option ErrorKind)
  readTimeout : Option Nat
  /-- A record of the traffic, for stating properties of it. -/
  wire : List Wire
  deriving DecidableEq

structure BufStream (σ : Type) where
  inner : Transport σ
  rbuf : Bytes
  wbuf : Bytes
  deriving DecidableEq

abbrev InEvent := Event UInt8 ErrorKind

def ReadEvent.events : ReadEvent → List InEvent
  | .data b bs => .item b :: bs.map .item
  | .err k => [.fail k]

/-- These bytes in one chunk. -/
def ReadEvent.chunk : Bytes → List ReadEvent
  | [] => []
  | b :: bs => [.data b bs]

theorem ReadEvent.events_chunk (bs : Bytes) :
    (chunk bs).flatMap ReadEvent.events = bs.map .item := by
  cases bs <;> simp [chunk, events]

def Wire.sentBytes : Wire → Bytes
  | .sent bs => bs
  | .read _ _ => []

/-- Everything handed on so far. -/
def Transport.sent {σ : Type} (t : Transport σ) : Bytes := t.wire.flatMap Wire.sentBytes

namespace BufStream

variable {σ : Type}

def new (inner : Transport σ) : BufStream σ := { inner, rbuf := [], wbuf := [] }

/-- Everything that can still be read, in order. -/
def input (s : BufStream σ) : List InEvent :=
  s.rbuf.map .item ++ s.inner.incoming.flatMap ReadEvent.events

/-- `BufRead::read_until`: the bytes appended to the caller's vector, the error that
stopped it, and the buffer and chunks left. An error keeps the bytes appended before. -/
def fill (delim : UInt8) (rbuf : Bytes) :
    List ReadEvent → (Bytes × Option ErrorKind) × Bytes × List ReadEvent
  | [] =>
      match cut delim rbuf with
      | some (l, rest) => ((l, none), rest, [])
      | none => ((rbuf, none), [], [])
  | e :: es =>
      match cut delim rbuf with
      | some (l, rest) => ((l, none), rest, e :: es)
      | none =>
          match e with
          | .err k => ((rbuf, some k), [], es)
          | .data b bs =>
              let (got, left) := fill delim (b :: bs) es
              ((rbuf ++ got.1, got.2), left)

theorem cut_some {delim : UInt8} {bs l rest : Bytes} (h : cut delim bs = some (l, rest))
    (more : List InEvent) :
    takeLine delim (bs.map .item ++ more) = (l, none, rest.map .item ++ more) := by
  induction bs generalizing l with
  | nil => cases h
  | cons b bs ih =>
      simp only [cut] at h
      split at h
      · cases h
        simp [takeLine, *]
      · rename_i hb
        obtain ⟨⟨l', rest'⟩, hcut, heq⟩ := Option.map_eq_some_iff.mp h
        cases heq
        rw [List.map_cons, List.cons_append, takeLine, if_neg hb, ih hcut]

theorem cut_none {delim : UInt8} {bs : Bytes} (h : cut delim bs = none)
    (more : List InEvent) :
    takeLine delim (bs.map .item ++ more) =
      (bs ++ (takeLine delim more).1, (takeLine delim more).2) := by
  induction bs with
  | nil => rfl
  | cons b bs ih =>
      simp only [cut] at h
      split at h
      · cases h
      · rename_i hb
        rw [List.map_cons, List.cons_append, takeLine, if_neg hb,
          ih (Option.map_eq_none_iff.mp h)]
        rfl

/-- Chunk boundaries do not matter to a line. -/
theorem fill_takeLine (delim : UInt8) (rbuf : Bytes) (es : List ReadEvent) :
    takeLine delim (rbuf.map .item ++ es.flatMap ReadEvent.events) =
      ((fill delim rbuf es).1.1, (fill delim rbuf es).1.2,
        (fill delim rbuf es).2.1.map .item ++
          (fill delim rbuf es).2.2.flatMap ReadEvent.events) := by
  induction es generalizing rbuf with
  | nil =>
      cases hcut : cut delim rbuf with
      | none => simpa [fill, hcut, takeLine] using cut_none hcut []
      | some r => simpa [fill, hcut] using cut_some hcut []
  | cons e es ih =>
      cases hcut : cut delim rbuf with
      | some r => simp [fill, hcut, cut_some hcut]
      | none =>
          rw [cut_none hcut]
          cases e with
          | err k => simp [fill, hcut, ReadEvent.events, takeLine]
          | data b bs =>
              have later := ih (b :: bs)
              simp only [List.map_cons, List.cons_append] at later
              simp [fill, hcut, ReadEvent.events, later]

def readUntil (delim : UInt8) (s : BufStream σ) : (Bytes × Option ErrorKind) × BufStream σ :=
  let (got, rbuf, incoming) := fill delim s.rbuf s.inner.incoming
  let wire := s.inner.wire ++ [.read got.1 got.2]
  (got, { s with rbuf, inner := { s.inner with incoming, wire } })

theorem readUntil_takeLine (delim : UInt8) (s : BufStream σ) :
    takeLine delim s.input =
      ((s.readUntil delim).1.1, (s.readUntil delim).1.2, (s.readUntil delim).2.input) :=
  fill_takeLine delim s.rbuf s.inner.incoming

/-- Give bytes to the transport; the peer sees them at once. -/
def hand (P : Peer σ) (t : Transport σ) (bs : Bytes) : Transport σ :=
  if bs = [] then t
  else
    let (peer, answer) := P t.peer bs
    { t with peer, incoming := t.incoming ++ answer, wire := t.wire ++ [.sent bs] }

/-- Hand on the first `n` buffered bytes. -/
def push (P : Peer σ) (n : Nat) (s : BufStream σ) : BufStream σ :=
  { s with inner := hand P s.inner (s.wbuf.take n), wbuf := s.wbuf.drop n }

def nextWrite (s : BufStream σ) : BufStream σ :=
  { s with inner := { s.inner with writes := s.inner.writes.tail } }

def writeAll (P : Peer σ) (buf : Bytes) (s : BufStream σ) :
    Except ErrorKind Unit × BufStream σ :=
  match s.inner.writes with
  | [] => (.ok (), { s with wbuf := s.wbuf ++ buf })
  | .done handed :: _ =>
      (.ok (), push P handed { s.nextWrite with wbuf := s.wbuf ++ buf })
  | .err k accepted handed :: _ =>
      -- a failing `write_all` never takes its last byte
      (.error k, push P handed
        { s.nextWrite with wbuf := s.wbuf ++ buf.dropLast.take accepted })

def flush (P : Peer σ) (s : BufStream σ) : Except ErrorKind Unit × BufStream σ :=
  match s.inner.writes with
  | [] => (.ok (), push P s.wbuf.length s)
  | .done _ :: _ => (.ok (), push P s.wbuf.length s.nextWrite)
  | .err k _ handed :: _ => (.error k, push P handed s.nextWrite)

/-- `into_inner` flushes and gives up the buffer: bytes read ahead are dropped. -/
def intoInner (P : Peer σ) (s : BufStream σ) : Except ErrorKind Unit × Transport σ :=
  ((s.flush P).1, (s.flush P).2.inner)

end BufStream
end RustImap
