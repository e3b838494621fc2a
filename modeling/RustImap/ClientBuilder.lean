import RustImap.Client
import RustImap.Framing
import RustImap.Send

/-!
Connecting, with a TLS feature enabled.

`connect_with` puts a client on the stream a TLS handshake has returned, unless the mode
allows plaintext. With STARTTLS a first client talks to the server in plaintext; nothing
of it but the transport reaches the handshake, and nothing but the result of the handshake
reaches the client that is returned.
-/

namespace RustImap

inductive ConnectionMode where
  | autoTls
  | auto
  | plaintext
  | tls
  | startTls
  deriving DecidableEq

structure ClientBuilder where
  domain : Str
  port : UInt16
  mode : ConnectionMode

/-- Who answers a `TcpStream::connect`, and how. -/
structure Network (σ : Type) where
  connect : Str → UInt16 → Except ErrorKind (Transport σ)
  server : Peer σ

/-- `Box<dyn ImapConnection>`, over a plain or over an encrypted stream. -/
abbrev Boxed (σ τ : Type) := Transport (σ ⊕ τ)

def Transport.box {σ ρ : Type} (f : σ → ρ) (t : Transport σ) : Transport ρ :=
  { t with peer := f t.peer }

namespace Connection

variable {σ : Type} {peer : Peer σ} {parse : ParseResponse}

theorem readGreeting_ok {conn conn' : Connection σ} {v : Bytes}
    (h : readGreeting conn = (.ok v, conn')) :
    (conn.stream.readUntil LF).1 = (v, none) ∧ v ≠ [] ∧ linesOf LF v = [v] ∧
      conn' = { conn.nextLine with greetingRead := true } := by
  obtain ⟨c, start, hget, h⟩ := Exec.bind_eq_ok.mp h
  cases hget
  split at h
  · cases h
  · obtain ⟨line, mid, hread, hset⟩ := Exec.bind_eq_ok.mp h
    cases hset
    have hline := takeLine_input conn
    rw [(readline_eq hline []).1] at hread
    obtain ⟨hresult, rfl⟩ := Prod.mk.inj hread
    cases hgot : (conn.stream.readUntil LF).1 with
    | mk line failed =>
    rw [hgot] at hline hresult
    cases failed with
    | some k => cases hresult
    | none =>
        simp only [lineResult] at hresult
        split at hresult
        · cases hresult
        · rename_i hne
          split at hresult
          · cases hresult
            exact ⟨rfl, hne, (takeLine_line hline hne).1, rfl⟩
          · cases hresult

/-- The traffic of a command that was answered: the command in some pieces, then reads,
none of which failed. -/
def Exchange (tag : UInt32) (text : Str) (traffic : List Wire) : Prop :=
  ∃ chunks lines : List Bytes,
    traffic = chunks.map .sent ++ lines.map (fun line => .read line none) ∧
    chunks.flatten = utf8 (matchTag tag ++ ' ' :: text) ++ [CR, LF]

/-- Reads that took nothing but bytes did not fail. -/
theorem taken_items {reads : List (Bytes × Option ErrorKind)} {data : Bytes}
    (h : reads.flatMap taken = data.map .item) :
    ∃ lines : List Bytes, reads = lines.map fun line => (line, none) := by
  induction reads generalizing data with
  | nil => exact ⟨[], rfl⟩
  | cons read reads ih =>
      rw [List.flatMap_cons] at h
      obtain ⟨here, later, -, hhere, hlater⟩ := List.map_eq_append_iff.mp h.symm
      obtain ⟨lines, rfl⟩ := ih hlater.symm
      obtain ⟨line, failed⟩ := read
      cases failed with
      | none => exact ⟨line :: lines, rfl⟩
      | some k =>
          have hfail : (.fail k : InEvent) ∈ here.map .item := by
            rw [hhere]
            simp [taken]
          simp at hfail

theorem run_exchange {text : Str} {conn conn' : Connection σ} {data : Bytes} {ok : Nat}
    (hempty : conn.stream.wbuf = [])
    (h : run peer parse text conn = (.ok (data, ok), conn')) :
    conn'.tag = conn.tag + 1 ∧ conn'.stream.wbuf = [] ∧
      ∃ traffic, Exchange (conn.tag + 1) text traffic ∧
        conn'.stream.inner.wire = conn.stream.inner.wire ++ traffic := by
  obtain ⟨⟨⟩, mid, hsend, hread⟩ := Exec.bind_eq_ok.mp h
  obtain ⟨w, htotal, -, -, hout⟩ := runCommand_total peer text conn
  obtain ⟨chunks, hchunks⟩ := runCommand_sentMore peer text conn
  rw [hsend] at htotal hout
  replace hchunks : mid.stream.inner.wire = conn.stream.inner.wire ++ chunks.map .sent := by
    rw [← hchunks, hsend]
  obtain ⟨-, rfl, htag, hmid⟩ | ⟨k, herr, -⟩ := hout
  swap
  · cases herr
  replace hmid : mid.stream.wbuf = [] := hmid
  obtain ⟨us, u, conn'', hrun, hres, hin, hon⟩ := readResponse_answer parse mid
  rw [hread] at hres
  obtain ⟨hresult, rfl⟩ := Prod.mk.inj hres
  obtain ⟨code, information, hstop, -, -⟩ := answerResult_ok hresult.symm
  obtain ⟨got, -, hevents⟩ := hrun.reads
  obtain ⟨reads, hwire, htaken⟩ := hon.wire
  rw [hstop, Stop.event_unit, List.append_nil, ← hin, htaken] at hevents
  obtain ⟨lines, rfl⟩ := taken_items (List.append_cancel_right hevents)
  refine ⟨hon.tag.trans htag, hon.wbuf.trans hmid, _, ⟨chunks, lines, rfl, ?_⟩, ?_⟩
  · -- everything the command put into the empty buffer has been handed on
    have hsent : mid.stream.inner.sent = conn.stream.inner.sent ++ chunks.flatten := by
      simp only [Transport.sent, hchunks, List.flatMap_append, List.flatMap_map,
        Wire.sentBytes, List.flatMap_id']
    simp only [total, BufStream.total, hempty, hmid, List.append_nil, hsent] at htotal
    exact List.append_cancel_left htotal
  · rw [hwire, hchunks, List.append_assoc, List.map_map]
    rfl

theorem runCommandAndReadResponse_exchange {text : Str} {conn conn' : Connection σ}
    {data : Bytes} (hempty : conn.stream.wbuf = [])
    (h : runCommandAndReadResponse peer parse text conn = (.ok data, conn')) :
    conn'.tag = conn.tag + 1 ∧ conn'.stream.wbuf = [] ∧
      ∃ traffic, Exchange (conn.tag + 1) text traffic ∧
        conn'.stream.inner.wire = conn.stream.inner.wire ++ traffic := by
  obtain ⟨⟨lines, ok⟩, last, hrun, hpure⟩ := Exec.bind_eq_ok.mp h
  cases hpure
  exact run_exchange hempty hrun

end Connection

namespace ClientBuilder

variable {σ τ : Type} (parse : ParseResponse)
variable (handshake : Str → Transport σ → Except Error (Transport τ))

/-- The stream to go on with, and whether it is encrypted. -/
def upgradeTls (builder : ClientBuilder) (server : Peer σ) :
    Exec (Connection σ) Fault (Boxed σ τ × Bool) := do
  let _ ← Connection.readGreeting
  let capabilities ← Client.capabilities server parse
  if .atom "STARTTLS".toList ∈ capabilities then do
    Connection.runCommandAndCheckOk server parse "STARTTLS".toList
    let tcp ← Client.intoInner server
    let tls ← Exec.lift ((handshake builder.domain tcp).mapError .err)
    pure (tls.box .inr, true)
  else do
    let tcp ← Client.intoInner server
    pure (tcp.box .inl, false)

/-- The stream of the client, and whether the greeting has been read from it. -/
def openStream (builder : ClientBuilder) (server : Peer σ) (tcp : Transport σ) :
    Except Fault (Boxed σ τ × Bool) :=
  let tls := (handshake builder.domain tcp).mapError Fault.err
  let upgraded := (upgradeTls parse handshake builder server (Client.new tcp)).1
  match builder.mode with
  | .autoTls =>
      if builder.port = 993 then do
        let stream ← tls
        pure (stream.box .inr, false)
      else do
        let (stream, upgraded) ← upgraded
        if !upgraded then .error (.err .startTlsNotAvailable)
        else pure (stream, true)
  | .auto =>
      if builder.port = 993 then do
        let stream ← tls
        pure (stream.box .inr, false)
      else do
        let (stream, _) ← upgraded
        pure (stream, true)
  | .plaintext => pure (tcp.box .inl, false)
  | .startTls => do
      let (stream, upgraded) ← upgraded
      if !upgraded then .error (.err .startTlsNotAvailable)
      else pure (stream, true)
  | .tls => do
      let stream ← tls
      pure (stream.box .inr, false)

def connectWith (builder : ClientBuilder) (net : Network σ) :
    Except Fault (Connection (σ ⊕ τ)) := do
  let tcp ← (net.connect builder.domain builder.port).mapError fun k => Fault.err (.io k)
  let (stream, greetingRead) ← openStream parse handshake builder net.server tcp
  let client := Client.new stream
  if !greetingRead then
    match Connection.readGreeting client with
    | (.ok _, client) => .ok client
    | (.error e, _) => .error e
  else
    pure { client with greetingRead := true }

/-- The plaintext traffic of an upgrade: one greeting line, then two commands and their
answers. -/
def UpgradeTraffic (greeting : Bytes) (traffic : List Wire) : Prop :=
  ∃ capability starttls, traffic = .read greeting none :: (capability ++ starttls) ∧
    Connection.Exchange 1 "CAPABILITY".toList capability ∧
    Connection.Exchange 2 "STARTTLS".toList starttls

/-- A line with something in it. -/
def GreetingLine (greeting : Bytes) : Prop := greeting ≠ [] ∧ linesOf LF greeting = [greeting]

/-- A client over a stream that a handshake has returned. Its greeting is the first line
of that stream, or the first line that came before the handshake. -/
inductive OverTls (builder : ClientBuilder) (net : Network σ) : Connection (σ ⊕ τ) → Prop
  | direct {tcp : Transport σ} {tls : Transport τ} {greeting : Bytes}
      {stream : BufStream (σ ⊕ τ)} :
      net.connect builder.domain builder.port = .ok tcp →
      handshake builder.domain tcp = .ok tls →
      (BufStream.new (tls.box .inr)).readUntil LF = ((greeting, none), stream) →
      GreetingLine greeting →
      OverTls builder net
        { stream, tag := INITIAL_TAG, debug := false, greetingRead := true }
  | upgraded {tcp tcp' : Transport σ} {tls : Transport τ} {greeting : Bytes}
      {traffic : List Wire} :
      net.connect builder.domain builder.port = .ok tcp →
      tcp'.wire = tcp.wire ++ traffic → UpgradeTraffic greeting traffic →
      GreetingLine greeting →
      handshake builder.domain tcp' = .ok tls →
      OverTls builder net
        { stream := .new (tls.box .inr), tag := INITIAL_TAG, debug := false,
          greetingRead := true }

/-- STARTTLS is the only way to a client. -/
def NeedsUpgrade (builder : ClientBuilder) : Prop :=
  builder.mode = .startTls ∨ builder.mode = .autoTls ∧ builder.port ≠ 993

/-- The connection goes over to the stream `tls` by STARTTLS. -/
def UpgradedTo (builder : ClientBuilder) (net : Network σ) (tls : Transport τ) : Prop :=
  builder.NeedsUpgrade ∧ ∃ tcp, net.connect builder.domain builder.port = .ok tcp ∧
    (upgradeTls parse handshake builder net.server (Client.new tcp)).1 =
      .ok (tls.box .inr, true)

variable {parse handshake} {builder : ClientBuilder} {net : Network σ}

theorem intoInner_ok {peer : Peer σ} {conn conn' : Connection σ} {tcp : Transport σ}
    (hempty : conn.stream.wbuf = []) (h : Client.intoInner peer conn = (.ok tcp, conn')) :
    tcp.wire = conn.stream.inner.wire := by
  obtain ⟨hresult, -⟩ := Prod.mk.inj h
  cases hflush : (conn.stream.flush peer).1 with
  | error k => simp [hflush, Except.map, Except.mapError] at hresult
  | ok _ =>
      simp only [hflush, Except.map, Except.mapError, Except.ok.injEq] at hresult
      rw [← hresult, BufStream.intoInner, BufStream.flush]
      cases hw : conn.stream.inner.writes with
      | nil => simp [BufStream.push, BufStream.hand, hempty]
      | cons e es => cases e <;> simp [BufStream.push, BufStream.hand, BufStream.nextWrite, hempty]

variable (net) in
/-- An upgrade reads one line and exchanges two commands before the handshake. -/
theorem upgradeTls_ok {tcp : Transport σ} {conn : Connection σ} {stream : Boxed σ τ}
    (h : upgradeTls parse handshake builder net.server (Client.new tcp) =
      (.ok (stream, true), conn)) :
    ∃ tcp' tls greeting traffic, stream = tls.box .inr ∧
      tcp'.wire = tcp.wire ++ traffic ∧ UpgradeTraffic greeting traffic ∧
      GreetingLine greeting ∧ handshake builder.domain tcp' = .ok tls := by
  obtain ⟨greeting, c1, hgreet, h⟩ := Exec.bind_eq_ok.mp h
  obtain ⟨capabilities, c2, hcap, h⟩ := Exec.bind_eq_ok.mp h
  split at h
  swap
  · obtain ⟨_, _, _, h⟩ := Exec.bind_eq_ok.mp h
    cases h
  obtain ⟨⟨⟩, c3, hstart, h⟩ := Exec.bind_eq_ok.mp h
  obtain ⟨tcp', c4, hinner, h⟩ := Exec.bind_eq_ok.mp h
  obtain ⟨tls, c5, htls, h⟩ := Exec.bind_eq_ok.mp h
  cases h
  obtain ⟨hread, hne, hone, rfl⟩ := Connection.readGreeting_ok hgreet
  obtain ⟨lines, d, hcapRun, hparse⟩ := Exec.bind_eq_ok.mp hcap
  obtain rfl : d = c2 := congrArg Prod.snd hparse
  obtain ⟨lines', d', hstartRun, hpure⟩ := Exec.bind_eq_ok.mp hstart
  obtain rfl : d' = c3 := congrArg Prod.snd hpure
  obtain ⟨htag1, hempty1, capability, hex1, hwire1⟩ :=
    Connection.runCommandAndReadResponse_exchange rfl hcapRun
  obtain ⟨-, hempty2, starttls, hex2, hwire2⟩ :=
    Connection.runCommandAndReadResponse_exchange hempty1 hstartRun
  rw [htag1] at hex2
  refine ⟨tcp', tls, greeting, _, rfl, ?_, ⟨capability, starttls, rfl, hex1, hex2⟩,
    ⟨hne, hone⟩, ?_⟩
  · have hfirst : (Client.new tcp).nextLine.stream.inner.wire =
        tcp.wire ++ [.read greeting none] := by
      rw [← congrArg (fun r : Bytes × Option ErrorKind => Wire.read r.1 r.2) hread]
      rfl
    replace hwire1 : d.stream.inner.wire =
        (Client.new tcp).nextLine.stream.inner.wire ++ capability := hwire1
    rw [intoInner_ok hempty2 hinner, hwire2, hwire1, hfirst]
    simp only [List.append_assoc, List.cons_append, List.nil_append]
  · cases hshake : handshake builder.domain tcp' with
    | error e => simp [hshake, Except.mapError] at htls
    | ok tls' =>
        simp only [hshake, Except.mapError, Exec.lift_apply, Prod.mk.injEq,
          Except.ok.injEq] at htls
        rw [htls.1]

theorem direct_ok {tcp : Transport σ} {stream : Boxed σ τ} {greetingRead : Bool}
    (h : (do
      let tls ← (handshake builder.domain tcp).mapError Fault.err
      pure (tls.box .inr, false) : Except Fault (Boxed σ τ × Bool)) =
        .ok (stream, greetingRead)) :
    greetingRead = false ∧ ∃ tls, handshake builder.domain tcp = .ok tls ∧
      stream = tls.box .inr := by
  cases hshake : handshake builder.domain tcp with
  | error e =>
      rw [hshake] at h
      cases h
  | ok tls =>
      rw [hshake] at h
      cases h
      exact ⟨rfl, tls, rfl, rfl⟩

theorem upgraded_ok {r : Except Fault (Boxed σ τ × Bool)} {stream : Boxed σ τ}
    {greetingRead : Bool}
    (h : (do
      let (stream, upgraded) ← r
      if !upgraded then .error (.err .startTlsNotAvailable)
      else pure (stream, true) : Except Fault (Boxed σ τ × Bool)) =
        .ok (stream, greetingRead)) :
    greetingRead = true ∧ r = .ok (stream, true) := by
  cases r with
  | error e => cases h
  | ok r =>
      obtain ⟨stream', upgraded⟩ := r
      cases upgraded with
      | false => cases h
      | true =>
          cases h
          exact ⟨rfl, rfl⟩

/-- The two ways to a stream in the modes that do not allow plaintext. -/
theorem openStream_tls
    (hmode : builder.mode = .autoTls ∨ builder.mode = .startTls ∨ builder.mode = .tls)
    {server : Peer σ} {tcp : Transport σ} {stream : Boxed σ τ} {greetingRead : Bool}
    (h : openStream parse handshake builder server tcp = .ok (stream, greetingRead)) :
    ¬builder.NeedsUpgrade ∧ greetingRead = false ∧
        (∃ tls, handshake builder.domain tcp = .ok tls ∧ stream = tls.box .inr) ∨
      builder.NeedsUpgrade ∧ greetingRead = true ∧
        (upgradeTls parse handshake builder server (Client.new tcp)).1 =
          .ok (stream, true) := by
  rw [openStream] at h
  rcases hmode with hauto | hstart | htls
  · rw [hauto] at h
    by_cases hport : builder.port = 993
    · simp only [if_pos hport] at h
      exact .inl ⟨by simp [NeedsUpgrade, hauto, hport], direct_ok h⟩
    · simp only [if_neg hport] at h
      exact .inr ⟨.inr ⟨hauto, hport⟩, upgraded_ok h⟩
  · rw [hstart] at h
    exact .inr ⟨.inl hstart, upgraded_ok h⟩
  · rw [htls] at h
    exact .inl ⟨by simp [NeedsUpgrade, htls], direct_ok h⟩

theorem connectWith_ok {client : Connection (σ ⊕ τ)}
    (h : connectWith parse handshake builder net = .ok client) :
    ∃ tcp stream greetingRead, net.connect builder.domain builder.port = .ok tcp ∧
      openStream parse handshake builder net.server tcp = .ok (stream, greetingRead) ∧
      (greetingRead = true ∧ client = { Client.new stream with greetingRead := true } ∨
        greetingRead = false ∧
          ∃ greeting, Connection.readGreeting (Client.new stream) = (.ok greeting, client)) := by
  unfold connectWith at h
  cases hconnect : net.connect builder.domain builder.port with
  | error k =>
      rw [hconnect] at h
      cases h
  | ok tcp =>
      rw [hconnect] at h
      change (openStream parse handshake builder net.server tcp >>= _) = _ at h
      cases hopen : openStream parse handshake builder net.server tcp with
      | error e =>
          rw [hopen] at h
          cases h
      | ok r =>
          obtain ⟨stream, greetingRead⟩ := r
          rw [hopen] at h
          refine ⟨tcp, stream, greetingRead, rfl, hopen, ?_⟩
          cases greetingRead with
          | true =>
              cases h
              exact .inl ⟨rfl, rfl⟩
          | false =>
              change (match Connection.readGreeting (Client.new stream) with
                | (.ok _, client) => .ok client
                | (.error e, _) => .error e) = Except.ok client at h
              split at h
              · rename_i greeting client' heq
                cases h
                exact .inr ⟨rfl, greeting, heq⟩
              · cases h

/-- After an upgrade the client is new. -/
theorem connectWith_upgraded {tls : Transport τ}
    (hmode : builder.mode = .autoTls ∨ builder.mode = .startTls ∨ builder.mode = .tls)
    {client : Connection (σ ⊕ τ)}
    (h : connectWith parse handshake builder net = .ok client)
    (hup : UpgradedTo parse handshake builder net tls) :
    client = { Client.new (tls.box .inr) with greetingRead := true } := by
  obtain ⟨hneeds, tcp', hconnect', hupgrade⟩ := hup
  obtain ⟨tcp, stream, greetingRead, hconnect, hopen, hclient⟩ := connectWith_ok h
  rw [hconnect] at hconnect'
  cases hconnect'
  obtain ⟨hnot, -⟩ | ⟨-, rfl, hstream⟩ := openStream_tls hmode hopen
  · exact absurd hneeds hnot
  · rw [hupgrade] at hstream
    cases hstream
    obtain ⟨-, rfl⟩ | ⟨hfalse, -⟩ := hclient
    · rfl
    · cases hfalse

theorem connectWith_overTls
    (hmode : builder.mode = .autoTls ∨ builder.mode = .startTls ∨ builder.mode = .tls)
    {client : Connection (σ ⊕ τ)}
    (h : connectWith parse handshake builder net = .ok client) :
    OverTls handshake builder net client := by
  obtain ⟨tcp, stream, greetingRead, hconnect, hopen, hclient⟩ := connectWith_ok h
  obtain ⟨-, rfl, tls, hshake, rfl⟩ | ⟨-, rfl, hupgrade⟩ := openStream_tls hmode hopen
  · obtain ⟨hfalse, -⟩ | ⟨-, greeting, hread⟩ := hclient
    · cases hfalse
    · obtain ⟨hgot, hne, hone, rfl⟩ := Connection.readGreeting_ok hread
      exact .direct hconnect hshake (Prod.ext hgot rfl) ⟨hne, hone⟩
  · obtain ⟨-, rfl⟩ | ⟨hfalse, -⟩ := hclient
    · obtain ⟨tcp', tls, greeting, traffic, rfl, hwire, htraffic, hline, hshake⟩ :=
        upgradeTls_ok net (Prod.ext hupgrade rfl)
      exact .upgraded hconnect hwire htraffic hline hshake
    · cases hfalse

/-- A client that is returned sits on the stream of a handshake. After an upgrade it is
the same whatever the plaintext was. -/
theorem connectWith_tls
    (hmode : builder.mode = .autoTls ∨ builder.mode = .startTls ∨ builder.mode = .tls)
    {client : Connection (σ ⊕ τ)}
    (h : connectWith parse handshake builder net = .ok client) :
    client.greetingRead = true ∧ OverTls handshake builder net client ∧
      ∀ tls, UpgradedTo parse handshake builder net tls →
        client.tag = INITIAL_TAG ∧ client.stream.rbuf = [] ∧
        ∀ (net' : Network σ) (client' : Connection (σ ⊕ τ)),
          connectWith parse handshake builder net' = .ok client' →
          UpgradedTo parse handshake builder net' tls → client' = client := by
  have overTls := connectWith_overTls hmode h
  refine ⟨by cases overTls <;> rfl, overTls, fun tls hup => ?_⟩
  have fresh := connectWith_upgraded hmode h hup
  refine ⟨by rw [fresh]; rfl, by rw [fresh]; rfl, fun net' client' h' hup' => ?_⟩
  exact (connectWith_upgraded hmode h' hup').trans fresh.symm

def startTlsMessages : List (Bytes × Response) :=
  [(utf8 "* CAPABILITY IMAP4rev1 STARTTLS\r\n".toList,
      .capabilities [.imap4rev1, .atom "STARTTLS".toList]),
    (utf8 "a1 OK\r\n".toList, .done "a1".toList .ok none none),
    (utf8 "a2 OK\r\n".toList, .done "a2".toList .ok none none)]

/-- A transport that brings all of these bytes at once. -/
def holding (bytes : Bytes) : Transport Unit where
  peer := ()
  incoming := ReadEvent.chunk bytes
  writes := []
  timeouts := []
  readTimeout := none
  wire := []

/-- A server that offers STARTTLS; what it injects comes after its last answer. -/
def offering (greeting injected : Str) : Network Unit where
  connect _ _ := .ok <| holding <| utf8 greeting ++
    (startTlsMessages.map Prod.fst).flatten ++ utf8 injected
  server s _ := (s, [])

theorem connectWith_tls_offering :
    let parse : ParseResponse := Parser.table startTlsMessages (by decide)
    let tls := holding (utf8 "* OK\r\n".toList)
    let builder : ClientBuilder := { domain := [], port := 143, mode := .autoTls }
    let connect greeting injected := connectWith parse (fun _ _ => .ok tls) builder
      (offering greeting injected)
    connect "* hello\r\n".toList [] = connect "* x\r\n".toList "a3 OK\r\n".toList := by
  intro parse tls builder connect
  let client : Connection (Unit ⊕ Unit) :=
    { Client.new (tls.box .inr) with greetingRead := true }
  have returned : connect "* hello\r\n".toList [] = .ok client := by decide +kernel
  have returned' : connect "* x\r\n".toList "a3 OK\r\n".toList = .ok client := by
    decide +kernel
  obtain ⟨-, -, same⟩ := connectWith_tls (.inl rfl) returned
  have upgraded (greeting injected : Str) (h : (upgradeTls parse (fun _ _ => .ok tls) builder
      (offering greeting injected).server (Client.new (holding <| utf8 greeting ++
        (startTlsMessages.map Prod.fst).flatten ++ utf8 injected))).1 =
      .ok (tls.box .inr, true)) :
      UpgradedTo parse (fun _ _ => .ok tls) builder (offering greeting injected) tls :=
    ⟨.inr ⟨rfl, by decide⟩, _, rfl, h⟩
  obtain ⟨-, -, equal⟩ := same tls (upgraded _ _ (by decide +kernel))
  rw [returned, returned', equal _ _ returned' (upgraded _ _ (by decide +kernel))]

end ClientBuilder
end RustImap
