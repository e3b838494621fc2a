import RustImap.ClientBuilder
import RustImap.Collectors
import RustImap.Conclusions
import RustImap.IdleUpdates
import RustImap.Transcript

/-!
What a client is put on, in every mode.

Only two ways lead to a client in plaintext: the builder asks for it, or the mode is `Auto` and
no response to `CAPABILITY` has listed STARTTLS. In any case the client that talks in plaintext
before a handshake sends a prefix of the same two lines.
-/

namespace RustImap

variable {σ τ : Type}

namespace Connection

variable {peer : Peer σ} {parse : ParseResponse}

/-- What was read is the answer to the command with this tag: these responses, then an `OK`. -/
def AnswerRead (parse : ParseResponse) (tag : UInt32) (rs : List Response)
    (traffic : List Wire) : Prop :=
  ∃ untagged tagged : Bytes, traffic.flatMap Wire.readBytes = untagged ++ tagged ∧
    parse.Splits untagged rs ∧ (∀ r ∈ rs, r.isDone = false) ∧
    ∃ code information, parse.Accepts tagged (.done (matchTag tag) .ok code information)

/-- The bytes taken from the input are the ones on the wire. -/
theorem taken_readBytes (reads : List (Bytes × Option ErrorKind)) {data : Bytes}
    (h : reads.flatMap taken = data.map .item) :
    (reads.map fun r => Wire.read r.1 r.2).flatMap Wire.readBytes = data := by
  obtain ⟨lines, rfl⟩ := taken_items h
  have each (line : Bytes) : taken (line, none) = line.map .item := List.append_nil _
  have items : (lines.flatten.map .item : List InEvent) = data.map .item := by
    rw [← h, List.flatMap_map, List.map_flatten, ← List.flatMap_def]
    simp only [each]
  have bytes := List.map_injective_iff.mpr (fun a b h => by cases h; rfl) items
  rw [← bytes, List.map_map, List.flatMap_map]
  exact List.flatMap_id

theorem run_answerRead (hp : parse.Framed LF) {text : Str} {conn conn' : Connection σ}
    {data : Bytes} {ok : Nat} (h : run peer parse text conn = (.ok (data, ok), conn'))
    {traffic : List Wire}
    (hwire : conn'.stream.inner.wire = conn.stream.inner.wire ++ traffic) :
    ∃ rs, parse.Splits (data.take ok) rs ∧ AnswerRead parse (conn.tag + 1) rs traffic := by
  obtain ⟨⟨⟩, mid, hsend, hread⟩ := Exec.bind_eq_ok.mp h
  obtain ⟨hin, ⟨rs, hrs, hnot⟩, tagged⟩ := readResponse_reparses hp mid data ok conn' hread
  obtain ⟨w, -, -, -, hout⟩ := runCommand_total peer text conn
  obtain ⟨chunks, hchunks⟩ := runCommand_sentMore peer text conn
  obtain ⟨us, u, last, -, hres, -, hon⟩ := readResponse_answer parse mid
  obtain rfl : last = conn' := congrArg Prod.snd (hres.symm.trans hread)
  rw [hsend] at hout hchunks
  obtain ⟨-, -, htag, -⟩ | ⟨k, herr, -⟩ := hout
  swap
  · cases herr
  obtain ⟨reads, hreads, htaken⟩ := hon.wire
  have events : reads.flatMap taken = data.map .item :=
    List.append_cancel_right (htaken.symm.trans hin)
  have parts : traffic = chunks.map .sent ++ reads.map fun r => .read r.1 r.2 := by
    rw [hreads, hchunks, List.append_assoc] at hwire
    exact (List.append_cancel_left hwire).symm
  refine ⟨rs, hrs, data.take ok, data.drop ok, ?_, hrs, hnot, ?_⟩
  · have sent : (chunks.map Wire.sent).flatMap Wire.readBytes = [] := by
      simp [List.flatMap_map, Wire.readBytes]
    rw [parts, List.flatMap_append, sent, taken_readBytes reads events, List.nil_append,
      List.take_append_drop]
  · obtain ⟨code, information, hdone⟩ := tagged
    refine ⟨code, information, ?_⟩
    rw [← htag]
    exact hdone

/-- The computation sends these commands, or a part of their lines if it fails. -/
def Says {α : Type} (texts : List Str) (x : Exec (Connection σ) Fault α) : Prop := ∀ conn,
  ∃ w, (x conn).2.total = conn.total ++ w ∧ w <+: (commandLines conn.tag texts).flatten ∧
    ∀ a, (x conn).1 = .ok a → w = (commandLines conn.tag texts).flatten ∧
      (x conn).2.tag = conn.tag + UInt32.ofNat texts.length

/-- The computation sends no more than these commands. -/
def SaysAtMost {α : Type} (texts : List Str) (x : Exec (Connection σ) Fault α) : Prop := ∀ conn,
  ∃ w, (x conn).2.total = conn.total ++ w ∧ w <+: (commandLines conn.tag texts).flatten

section Saying

variable {α β : Type} {x : Exec (Connection σ) Fault α} {f : α → Exec (Connection σ) Fault β}
variable {texts texts' : List Str}

theorem Says.silent (htotal : ∀ conn, (x conn).2.total = conn.total)
    (htag : ∀ conn, (x conn).2.tag = conn.tag) : Says [] x := by
  intro conn
  refine ⟨[], ?_, List.nil_prefix, fun _ _ => ⟨rfl, ?_⟩⟩
  · rw [htotal, List.append_nil]
  · exact (htag conn).trans (UInt32.add_zero conn.tag).symm

theorem Says.lift (r : Except Fault α) :
    Says [] (Exec.lift r : Exec (Connection σ) Fault α) :=
  .silent (fun _ => rfl) fun _ => rfl

theorem Says.atMost (h : Says texts x) : SaysAtMost texts x := by
  intro conn
  obtain ⟨w, htotal, hw, -⟩ := h conn
  exact ⟨w, htotal, hw⟩

theorem SaysAtMost.fewer (h : SaysAtMost texts x) (texts' : List Str) :
    SaysAtMost (texts ++ texts') x := by
  intro conn
  obtain ⟨w, htotal, hw⟩ := h conn
  refine ⟨w, htotal, hw.trans ?_⟩
  rw [commandLines_append, List.flatten_append]
  exact List.prefix_append _ _

theorem SaysAtMost.bind (h : Says texts x) (hf : ∀ a, SaysAtMost texts' (f a)) :
    SaysAtMost (texts ++ texts') (x >>= f) := by
  intro conn
  obtain ⟨w, htotal, hw, hok⟩ := h conn
  rw [commandLines_append, List.flatten_append]
  cases hx : x conn with
  | mk r conn' =>
      rw [hx] at htotal hok
      cases r with
      | error e =>
          rw [Exec.bind_error hx]
          exact ⟨w, htotal, hw.trans (List.prefix_append _ _)⟩
      | ok a =>
          obtain ⟨rfl, htag⟩ := hok a rfl
          obtain ⟨w', htotal', hw'⟩ := hf a conn'
          rw [htag] at hw'
          rw [Exec.bind_ok hx]
          refine ⟨_ ++ w', ?_, (List.prefix_append_right_inj _).mpr hw'⟩
          rw [htotal', htotal, List.append_assoc]

theorem Says.bind (h : Says texts x) (hf : ∀ a, Says texts' (f a)) :
    Says (texts ++ texts') (x >>= f) := by
  intro conn
  obtain ⟨w, htotal, hw, hok⟩ := h conn
  rw [commandLines_append, List.flatten_append, List.length_append, UInt32.ofNat_add]
  cases hx : x conn with
  | mk r conn' =>
      rw [hx] at htotal hok
      cases r with
      | error e =>
          rw [Exec.bind_error hx]
          exact ⟨w, htotal, hw.trans (List.prefix_append _ _), fun _ h => by cases h⟩
      | ok a =>
          obtain ⟨rfl, htag⟩ := hok a rfl
          obtain ⟨w', htotal', hw', hok'⟩ := hf a conn'
          rw [htag] at hw' hok'
          rw [Exec.bind_ok hx]
          refine ⟨_ ++ w', ?_, (List.prefix_append_right_inj _).mpr hw', fun b hb => ?_⟩
          · rw [htotal', htotal, List.append_assoc]
          · obtain ⟨rfl, htag'⟩ := hok' b hb
            exact ⟨rfl, by rw [htag', UInt32.add_assoc]⟩

end Saying

theorem total_readOn {a b : Connection σ} (h : ReadOn a b) : b.total = a.total := by
  rw [total, total, BufStream.total, BufStream.total, h.sent, h.wbuf]

theorem readGreeting_silent (conn : Connection σ) :
    (readGreeting conn).2.total = conn.total ∧ (readGreeting conn).2.tag = conn.tag := by
  have hon := readOn_readline [] conn
  rw [readGreeting, Exec.bind_apply, Exec.of_apply]
  dsimp only
  split
  · exact ⟨rfl, rfl⟩
  · cases hread : readline [] conn with
    | mk r conn' =>
        rw [hread] at hon
        cases r with
        | error e =>
            rw [Exec.bind_error hread]
            exact ⟨total_readOn hon, hon.tag⟩
        | ok v =>
            rw [Exec.bind_ok hread]
            exact ⟨show conn'.total = conn.total from total_readOn hon, hon.tag⟩

theorem says_readGreeting : Says [] (readGreeting : Exec (Connection σ) Fault Bytes) :=
  .silent (fun conn => (readGreeting_silent conn).1) fun conn => (readGreeting_silent conn).2

theorem says_runCommand (text : Str) : Says [text] (runCommand peer text) := by
  intro conn
  obtain ⟨w, htotal, -, -, hout⟩ := runCommand_total peer text conn
  have line : (commandLines conn.tag [text]).flatten = conn.commandLine text := by
    rw [commandLines, commandLines, List.flatten_cons, List.flatten_nil, List.append_nil]
    rfl
  rw [line]
  refine ⟨w, htotal, ?_, fun _ h => ?_⟩
  · obtain ⟨-, rfl, -⟩ | ⟨k, -, hw, -⟩ := hout
    · exact List.prefix_rfl
    · exact hw
  · obtain ⟨-, rfl, htag, -⟩ | ⟨k, herr, -⟩ := hout
    · exact ⟨rfl, htag⟩
    · cases herr.symm.trans h

theorem says_readResponse :
    Says [] (readResponse parse : Exec (Connection σ) Fault (Bytes × Nat)) := by
  have reading (conn : Connection σ) : ReadOn conn (readResponse parse conn).2 := by
    obtain ⟨us, u, last, -, hres, -, hon⟩ := readResponse_answer parse conn
    rw [hres]
    exact hon
  exact .silent (fun conn => total_readOn (reading conn)) fun conn => (reading conn).tag

theorem says_runCommandAndReadResponse (text : Str) :
    Says [text] (runCommandAndReadResponse peer parse text) :=
  .bind (.bind (says_runCommand text) fun _ => says_readResponse) fun _ => .lift _

theorem says_intoInner : Says [] (Client.intoInner peer) :=
  .silent (fun conn => (BufStream.flush_total peer conn.stream).1) fun _ => rfl

end Connection

namespace ClientBuilder

variable {parse : ParseResponse} {handshake : Str → Transport σ → Except Error (Transport τ)}
variable {builder : ClientBuilder} {net : Network σ}

/-- A response to `CAPABILITY` has listed STARTTLS. -/
def Offered (rs : List Response) : Prop :=
  ∃ cs, .capabilities cs ∈ rs ∧ .atom "STARTTLS".toList ∈ cs

theorem collect1_keeps {T : Type} {map : Response → Except Error (MapOrNot T)} {into out : List T}
    {r : Response} {rest : Bytes} {q q' : Queue}
    (h : collect1 map into r rest q = (.ok out, q')) :
    into ⊆ out ∧ ∀ ts, map r = .ok (.mapVec ts) → ts ⊆ out := by
  cases hmap : map r with
  | error e =>
      simp only [collect1, hmap] at h
      cases h
  | ok m =>
      simp only [collect1, hmap] at h
      cases m with
      | mapVec ts =>
          cases h
          refine ⟨List.subset_append_left _ _, fun ts' hts => ?_⟩
          cases hts
          exact List.subset_append_right _ _
      | map t =>
          cases h
          exact ⟨List.subset_append_left _ _, fun ts hts => by cases hts⟩
      | not resp =>
          obtain ⟨_, _, _, hpure⟩ := Exec.bind_eq_ok.mp h
          cases hpure
          exact ⟨List.Subset.refl _, fun ts hts => by cases hts⟩
      | ignore =>
          cases h
          exact ⟨List.Subset.refl _, fun ts hts => by cases hts⟩

theorem foldlM_collect1_keeps {T : Type} {map : Response → Except Error (MapOrNot T)}
    {rs : List Response} {into out : List T} {q q' : Queue}
    (h : rs.foldlM (fun into r => collect1 map into r []) into q = (.ok out, q')) :
    into ⊆ out ∧ ∀ r ∈ rs, ∀ ts, map r = .ok (.mapVec ts) → ts ⊆ out := by
  induction rs generalizing into q with
  | nil =>
      cases h
      exact ⟨List.Subset.refl _, fun r hr => by cases hr⟩
  | cons r rs ih =>
      rw [List.foldlM_cons] at h
      obtain ⟨mid, q1, hhead, htail⟩ := Exec.bind_eq_ok.mp h
      obtain ⟨hinto, htaken⟩ := collect1_keeps hhead
      obtain ⟨hmid, hlater⟩ := ih htail
      refine ⟨List.Subset.trans hinto hmid, fun r' hr' ts hts => ?_⟩
      rcases List.mem_cons.mp hr' with rfl | hr'
      · exact List.Subset.trans (htaken ts hts) hmid
      · exact hlater r' hr' ts hts

/-- No capability that the server has listed is missed. -/
theorem parseCapabilities_lists {lines : Bytes} {rs : List Response}
    (hrs : parse.Splits lines rs) {q q' : Queue} {capabilities : Finset Capability}
    (h : parseCapabilities parse lines q = (.ok capabilities, q')) {cs : List Capability}
    (hcs : .capabilities cs ∈ rs) {c : Capability} (hc : c ∈ cs) : c ∈ capabilities := by
  have loop : parseManyInto parse capabilityItems lines [] =
      rs.foldlM (fun into r => collect1 capabilityItems into r []) [] := by
    rw [parseManyInto_eq]
    exact forResponses_splits parse (fun into r => collect1 capabilityItems into r []) hrs []
  change (List.toFinset <$> parseManyInto parse capabilityItems lines []) q = _ at h
  rw [loop, Exec.map_eq_bind] at h
  obtain ⟨out, q1, hmany, hpure⟩ := Exec.bind_eq_ok.mp h
  cases hpure
  exact List.mem_toFinset.mpr ((foldlM_collect1_keeps hmany).2 _ hcs cs rfl hc)

/-- A server that does not offer STARTTLS is left over plaintext. -/
theorem upgradeTls_plain (hp : parse.Framed LF) {server : Peer σ} {tcp : Transport σ}
    {conn : Connection σ} {stream : Boxed σ τ}
    (h : upgradeTls parse handshake builder server (Client.new tcp) =
      (.ok (stream, false), conn)) :
    ∃ (tcp' : Transport σ) (greeting : Bytes) (capability : List Wire) (rs : List Response),
      stream = tcp'.box .inl ∧
      tcp'.wire = tcp.wire ++ .read greeting none :: capability ∧ GreetingLine greeting ∧
      Connection.Exchange 1 "CAPABILITY".toList capability ∧
      Connection.AnswerRead parse 1 rs capability ∧ ¬Offered rs := by
  obtain ⟨greeting, c1, hgreet, h⟩ := Exec.bind_eq_ok.mp h
  obtain ⟨capabilities, c2, hcap, h⟩ := Exec.bind_eq_ok.mp h
  split at h
  · obtain ⟨_, _, _, h⟩ := Exec.bind_eq_ok.mp h
    obtain ⟨_, _, _, h⟩ := Exec.bind_eq_ok.mp h
    obtain ⟨_, _, _, h⟩ := Exec.bind_eq_ok.mp h
    cases h
  · rename_i hmissing
    obtain ⟨tcp', c3, hinner, h⟩ := Exec.bind_eq_ok.mp h
    cases h
    obtain ⟨hread, hne, hone, rfl⟩ := Connection.readGreeting_ok hgreet
    obtain ⟨lines, d, hcapRun, hparse⟩ := Exec.bind_eq_ok.mp hcap
    obtain rfl : d = c2 := congrArg Prod.snd hparse
    obtain ⟨-, hempty, capability, hexchange, hwire⟩ :=
      Connection.runCommandAndReadResponse_exchange rfl hcapRun
    obtain ⟨⟨data, ok⟩, e, hrun, htake⟩ := Exec.bind_eq_ok.mp hcapRun
    obtain ⟨hlines, rfl⟩ := Prod.mk.inj htake
    cases hlines
    obtain ⟨rs, hrs, hanswer⟩ := Connection.run_answerRead hp hrun hwire
    refine ⟨tcp', greeting, capability, rs, rfl, ?_, ⟨hne, hone⟩, hexchange, hanswer, ?_⟩
    · have hfirst : (Client.new tcp).nextLine.stream.inner.wire =
          tcp.wire ++ [.read greeting none] := by
        rw [← congrArg (fun r : Bytes × Option ErrorKind => Wire.read r.1 r.2) hread]
        rfl
      replace hwire : e.stream.inner.wire =
          (Client.new tcp).nextLine.stream.inner.wire ++ capability := hwire
      rw [intoInner_ok hempty hinner, hwire, hfirst, List.append_assoc]
      rfl
    · have hvalue : (parseCapabilities parse (data.take ok) []).1 = .ok capabilities :=
        congrArg Prod.fst hparse
      intro hoffered
      obtain ⟨cs, hcs, hc⟩ := hoffered
      exact hmissing (parseCapabilities_lists hrs (Prod.ext hvalue rfl) hcs hc)

/-- Where a client that is returned can be. -/
inductive Reached (parse : ParseResponse)
    (handshake : Str → Transport σ → Except Error (Transport τ)) (builder : ClientBuilder)
    (net : Network σ) : Connection (σ ⊕ τ) → Prop
  | encrypted {client : Connection (σ ⊕ τ)} : builder.mode ≠ .plaintext →
      OverTls handshake builder net client → Reached parse handshake builder net client
  | asked {tcp : Transport σ} {greeting : Bytes} {stream : BufStream (σ ⊕ τ)} :
      builder.mode = .plaintext → net.connect builder.domain builder.port = .ok tcp →
      (BufStream.new (tcp.box .inl)).readUntil LF = ((greeting, none), stream) →
      GreetingLine greeting →
      Reached parse handshake builder net
        { stream, tag := INITIAL_TAG, debug := false, greetingRead := true }
  | fellBack {tcp tcp' : Transport σ} {greeting : Bytes} {capability : List Wire}
      {rs : List Response} :
      builder.mode = .auto → builder.port ≠ 993 →
      net.connect builder.domain builder.port = .ok tcp →
      tcp'.wire = tcp.wire ++ .read greeting none :: capability → GreetingLine greeting →
      Connection.Exchange 1 "CAPABILITY".toList capability →
      Connection.AnswerRead parse 1 rs capability → ¬Offered rs →
      Reached parse handshake builder net
        { stream := .new (tcp'.box .inl), tag := INITIAL_TAG, debug := false,
          greetingRead := true }

/-- The stream is the one a handshake has returned. -/
def Shaken (parse : ParseResponse) (handshake : Str → Transport σ → Except Error (Transport τ))
    (builder : ClientBuilder) (server : Peer σ) (tcp : Transport σ) (stream : Boxed σ τ)
    (greetingRead : Bool) : Prop :=
  greetingRead = false ∧ (∃ tls, handshake builder.domain tcp = .ok tls ∧
      stream = tls.box .inr) ∨
    greetingRead = true ∧
      (upgradeTls parse handshake builder server (Client.new tcp)).1 = .ok (stream, true)

/-- The ways to a stream, in every mode. -/
theorem openStream_ways {server : Peer σ} {tcp : Transport σ} {stream : Boxed σ τ}
    {greetingRead : Bool}
    (h : openStream parse handshake builder server tcp = .ok (stream, greetingRead)) :
    builder.mode ≠ .plaintext ∧ Shaken parse handshake builder server tcp stream greetingRead ∨
      greetingRead = false ∧ builder.mode = .plaintext ∧ stream = tcp.box .inl ∨
      greetingRead = true ∧ builder.mode = .auto ∧ builder.port ≠ 993 ∧
        (upgradeTls parse handshake builder server (Client.new tcp)).1 = .ok (stream, false) := by
  have shaken (hmode : builder.mode = .autoTls ∨ builder.mode = .startTls ∨ builder.mode = .tls) :
      Shaken parse handshake builder server tcp stream greetingRead := by
    obtain ⟨-, hdirect⟩ | ⟨-, hupgrade⟩ := openStream_tls hmode h
    · exact .inl hdirect
    · exact .inr hupgrade
  cases hmode : builder.mode with
  | autoTls => exact .inl ⟨by decide, shaken (.inl hmode)⟩
  | startTls => exact .inl ⟨by decide, shaken (.inr (.inl hmode))⟩
  | tls => exact .inl ⟨by decide, shaken (.inr (.inr hmode))⟩
  | plaintext =>
      rw [openStream, hmode] at h
      cases h
      exact .inr (.inl ⟨rfl, rfl, rfl⟩)
  | auto =>
      rw [openStream, hmode] at h
      by_cases hport : builder.port = 993
      · simp only [if_pos hport] at h
        exact .inl ⟨by decide, .inl (direct_ok h)⟩
      · simp only [if_neg hport] at h
        cases hup : (upgradeTls parse handshake builder server (Client.new tcp)).1 with
        | error e =>
            rw [hup] at h
            cases h
        | ok r =>
            obtain ⟨stream', upgraded⟩ := r
            rw [hup] at h
            cases h
            cases upgraded with
            | true => exact .inl ⟨by decide, .inr ⟨rfl, hup⟩⟩
            | false => exact .inr (.inr ⟨rfl, rfl, hport, rfl⟩)

theorem connectWith_reached (hp : parse.Framed LF) {client : Connection (σ ⊕ τ)}
    (h : connectWith parse handshake builder net = .ok client) :
    Reached parse handshake builder net client := by
  obtain ⟨tcp, stream, greetingRead, hconnect, hopen, hclient⟩ := connectWith_ok h
  -- a client whose greeting has been read is new, any other one has just read it
  obtain ⟨hmode, ⟨rfl, tls, hshake, rfl⟩ | ⟨rfl, hupgrade⟩⟩ | ⟨rfl, hmode, rfl⟩ |
    ⟨rfl, hmode, hport, hplain⟩ := openStream_ways hopen
  · obtain ⟨hfalse, -⟩ | ⟨-, greeting, hread⟩ := hclient
    · cases hfalse
    · obtain ⟨hgot, hne, hone, rfl⟩ := Connection.readGreeting_ok hread
      exact .encrypted hmode (.direct hconnect hshake (Prod.ext hgot rfl) ⟨hne, hone⟩)
  · obtain ⟨-, rfl⟩ | ⟨hfalse, -⟩ := hclient
    · obtain ⟨tcp', tls, greeting, traffic, rfl, hwire, htraffic, hline, hshake⟩ :=
        upgradeTls_ok net (Prod.ext hupgrade rfl)
      exact .encrypted hmode (.upgraded hconnect hwire htraffic hline hshake)
    · cases hfalse
  · obtain ⟨hfalse, -⟩ | ⟨-, greeting, hread⟩ := hclient
    · cases hfalse
    · obtain ⟨hgot, hne, hone, rfl⟩ := Connection.readGreeting_ok hread
      exact .asked hmode hconnect (Prod.ext hgot rfl) ⟨hne, hone⟩
  · obtain ⟨-, rfl⟩ | ⟨hfalse, -⟩ := hclient
    · obtain ⟨tcp', greeting, capability, rs, rfl, hwire, hline, hexchange, hanswer, hnot⟩ :=
        upgradeTls_plain hp (Prod.ext hplain rfl)
      exact .fellBack hmode hport hconnect hwire hline hexchange hanswer hnot
    · cases hfalse

/-- Before a handshake, no more than two commands are sent. -/
theorem upgradeTls_says (server : Peer σ) :
    Connection.SaysAtMost ["CAPABILITY".toList, "STARTTLS".toList]
      (upgradeTls parse handshake builder server) := by
  have starttls (capabilities : Finset Capability) :
      Connection.SaysAtMost (σ := σ) ["STARTTLS".toList]
        (if .atom "STARTTLS".toList ∈ capabilities then do
          Connection.runCommandAndCheckOk server parse "STARTTLS".toList
          let tcp ← Client.intoInner server
          let tls ← Exec.lift ((handshake builder.domain tcp).mapError .err)
          pure (tls.box .inr, true)
        else do
          let tcp ← Client.intoInner server
          pure (tcp.box .inl, false) : Exec (Connection σ) Fault (Boxed σ τ × Bool)) := by
    split
    · apply Connection.Says.atMost
      exact .bind (.bind (Connection.says_runCommandAndReadResponse _) fun _ => .lift (.ok ()))
        fun _ => .bind Connection.says_intoInner fun _ => .bind (.lift _) fun _ => .lift (.ok _)
    · have fallback : Connection.Says (σ := σ) [] (do
          let tcp ← Client.intoInner server
          pure (tcp.box .inl, false) : Exec (Connection σ) Fault (Boxed σ τ × Bool)) :=
        .bind Connection.says_intoInner fun _ => .lift (.ok _)
      exact fallback.atMost.fewer ["STARTTLS".toList]
  exact .bind Connection.says_readGreeting fun _ =>
    .bind (.bind (Connection.says_runCommandAndReadResponse _) fun _ => .lift _) starttls

/-- A client is in plaintext only where the builder asks for it or no response has listed
STARTTLS; whatever comes of it, the plaintext is a part of two command lines. -/
theorem connectWith_downgrade (hp : parse.Framed LF) (builder : ClientBuilder) (net : Network σ) :
    (∀ client, connectWith parse handshake builder net = .ok client →
      Reached parse handshake builder net client) ∧
    ∀ tcp : Transport σ, ∃ w,
      (upgradeTls parse handshake builder net.server (Client.new tcp)).2.total = tcp.sent ++ w ∧
      w <+: (commandLines INITIAL_TAG ["CAPABILITY".toList, "STARTTLS".toList]).flatten := by
  refine ⟨fun client h => connectWith_reached hp h, fun tcp => ?_⟩
  obtain ⟨w, htotal, hw⟩ := upgradeTls_says net.server (Client.new tcp)
  refine ⟨w, htotal.trans ?_, hw⟩
  exact congrArg (· ++ w) (List.append_nil tcp.sent)

/-- A server that does not offer STARTTLS. -/
def plainMessages : List (Bytes × Response) :=
  [(utf8 "* CAPABILITY IMAP4rev1 IDLE\r\n".toList, .capabilities [.imap4rev1, .atom "IDLE".toList]),
    (utf8 "a1 OK\r\n".toList, .done "a1".toList .ok none none)]

def plainParse : ParseResponse := Parser.table plainMessages (by decide)

def plainNetwork : Network Unit where
  connect _ _ := .ok (holding (utf8 "* hello\r\n".toList ++ (plainMessages.map Prod.fst).flatten))
  server s _ := (s, [])

theorem plainParse_framed : plainParse.Framed LF :=
  Parser.table_framed _ (by decide) (by decide)

theorem connectWith_downgrade_plain :
    let builder : ClientBuilder := { domain := [], port := 143, mode := .auto }
    let handshake : Str → Transport Unit → Except Error (Transport Unit) := fun _ tcp => .ok tcp
    (∃ client, connectWith plainParse handshake builder plainNetwork = .ok client ∧
      Reached plainParse handshake builder plainNetwork client) ∧
    ∀ tcp : Transport Unit, ∃ w,
      (upgradeTls plainParse handshake builder plainNetwork.server (Client.new tcp)).2.total =
        tcp.sent ++ w ∧
      w <+: (commandLines INITIAL_TAG ["CAPABILITY".toList, "STARTTLS".toList]).flatten := by
  intro builder handshake
  obtain ⟨reached, said⟩ :=
    @connectWith_downgrade _ _ plainParse handshake plainParse_framed builder plainNetwork
  refine ⟨?_, said⟩
  have returned : (connectWith plainParse handshake builder plainNetwork).isOk = true := by
    decide +kernel
  cases hclient : connectWith plainParse handshake builder plainNetwork with
  | ok client => exact ⟨client, rfl, reached client hclient⟩
  | error e =>
      rw [hclient] at returned
      cases returned

end ClientBuilder

end RustImap
