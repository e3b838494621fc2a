import RustImap.Classification

/-!
`AUTHENTICATE`.

After the command the client answers challenges until the server sends anything else. It
tells lines apart by how they begin: a comment is skipped, the text of a challenge is cut out
and decoded, and any other line is the beginning of an answer that is read to its end.
-/

namespace RustImap

/-- An authenticator; it may remember the challenges it has been given, of which the last is
the one to respond to. -/
abbrev Authenticator := List Bytes → Bytes

/-- The engine `general_purpose::STANDARD`. -/
structure Base64 where
  encode : Bytes → Str
  decode : Str → Option Bytes

/-- The group of the first match of `^\+ (.*)\r\n`; a dot is anything but a line feed. -/
def authRespCapture : Str → Option Str
  | '+' :: ' ' :: rest =>
      let body := rest.takeWhile (· ≠ '\n')
      if rest.dropWhile (· ≠ '\n') ≠ [] ∧ body.getLast? = some '\r' then some body.dropLast
      else none
  | _ => none

def parseAuthenticateResponse (line : Str) : Except Error Str :=
  match authRespCapture line with
  | some data => .ok data
  | none => .error (.parse (.authentication line false))

def isComment (line : Bytes) : Bool := (utf8 "* ".toList).isPrefixOf line

def isChallenge (line : Bytes) : Bool :=
  (utf8 "+ ".toList).isPrefixOf line || decide (line = utf8 "+\r\n".toList)

/-- A connection during the handshake, with the challenges the authenticator has been given. -/
structure Handshake (σ : Type) where
  conn : Connection σ
  challenges : List Bytes

namespace Handshake

variable {σ α : Type} (peer : Peer σ) (parse : ParseResponse) (base64 : Base64)
variable (authenticator : Authenticator)

def onConn (x : Exec (Connection σ) Fault α) : Exec (Handshake σ) Fault α :=
  Exec.on Handshake.conn (fun conn h => { h with conn }) x

/-- What a challenge line asks. -/
def challengeOf (line : Bytes) : Except Error Bytes :=
  if line = utf8 "+\r\n".toList then .ok []
  else
    match fromUtf8 line with
    | none => .error (.parse (.dataNotUtf8 line))
    | some lineStr => do
        let data ← parseAuthenticateResponse lineStr
        match base64.decode data with
        | some challenge => .ok challenge
        | none => .error (.parse (.authentication data true))

/-- `authenticator.process(&challenge)` -/
def process (challenge : Bytes) : Exec (Handshake σ) Fault Bytes := fun h =>
  (.ok (authenticator (h.challenges ++ [challenge])),
    { h with challenges := h.challenges ++ [challenge] })

/-- Every line takes one of the `turns`: a server can keep sending challenges for ever. -/
def doAuthHandshake : Nat → Exec (Handshake σ) Fault (Session σ)
  | 0 => .fail .running
  | turns + 1 => do
      let line ← onConn (Connection.readline [])
      if isComment line then doAuthHandshake turns
      else if isChallenge line then do
        let challenge ← Exec.lift ((challengeOf base64 line).mapError Fault.err)
        let rawResponse ← process authenticator challenge
        onConn (Connection.writeLine peer (utf8 (base64.encode rawResponse)))
        doAuthHandshake turns
      else do
        let _ ← onConn (Connection.readResponseOnto parse line)
        .of fun h => (.ok (Session.new h.conn), h)

def authenticate (authType : Str) (turns : Nat) : Exec (Handshake σ) Fault (Session σ) := do
  let _ ← onConn (Connection.send peer (.authenticate authType))
  doAuthHandshake peer parse base64 authenticator turns

end Handshake

/-- The lines of a server that authenticates, up to the tagged response. -/
inductive AuthLine where
  | comment (text : Bytes)
  | challenge (data : Str)
  | bare

namespace AuthLine

variable (base64 : Base64)

def text : AuthLine → Bytes
  | .comment text => utf8 "* ".toList ++ text ++ [LF]
  | .challenge data => utf8 ("+ ".toList ++ data ++ "\r\n".toList)
  | .bare => utf8 "+\r\n".toList

/-- What the authenticator is to be asked. -/
def challenge? : AuthLine → Option Bytes
  | .comment _ => none
  | .challenge data => base64.decode data
  | .bare => some []

def WellFormed : AuthLine → Prop
  | .comment text => LF ∉ text
  | .challenge data => '\n' ∉ data ∧ (base64.decode data).isSome = true
  | .bare => True

variable {base64}

@[simp] theorem utf8_star (s : Str) : utf8 ('*' :: s) = 0x2a :: utf8 s := rfl

@[simp] theorem utf8_plus (s : Str) : utf8 ('+' :: s) = PLUS :: utf8 s := rfl

@[simp] theorem utf8_space (s : Str) : utf8 (' ' :: s) = SPACE :: utf8 s := rfl

@[simp] theorem utf8_return (s : Str) : utf8 ('\r' :: s) = CR :: utf8 s := rfl

theorem text_eq {l : AuthLine} (h : l.WellFormed base64) :
    ∃ xs, l.text = xs ++ [LF] ∧ LF ∉ xs ∧ xs ≠ [] := by
  cases l with
  | comment text =>
      refine ⟨utf8 "* ".toList ++ text, rfl, ?_, by simp⟩
      rw [List.mem_append, not_or]
      exact ⟨by decide, h⟩
  | challenge data =>
      refine ⟨utf8 ("+ ".toList ++ data ++ ['\r']), ?_, ?_, by simp⟩
      · rw [text, show "\r\n".toList = ['\r'] ++ ['\n'] from rfl, ← List.append_assoc, utf8_append]
        rfl
      · rw [LF_mem_utf8]
        simpa using h.1
  | bare => exact ⟨utf8 "+\r".toList, by decide, by decide, by decide⟩

theorem isComment_text (l : AuthLine) :
    isComment l.text = true ↔ ∃ text, l = .comment text := by
  cases l with
  | comment text => simp [isComment, AuthLine.text]
  | challenge data =>
      simp [isComment, AuthLine.text, PLUS]
  | bare => simp [isComment, AuthLine.text, PLUS]

theorem isChallenge_text {l : AuthLine} (h : isComment l.text = false) :
    isChallenge l.text = true := by
  cases l with
  | comment text => simp [(isComment_text (.comment text)).mpr ⟨text, rfl⟩] at h
  | challenge data => simp [isChallenge, text]
  | bare => simp [isChallenge, text]

theorem challengeOf_text {l : AuthLine} (h : l.WellFormed base64) {c : Bytes}
    (hc : l.challenge? base64 = some c) : Handshake.challengeOf base64 l.text = .ok c := by
  cases l with
  | comment text => cases hc
  | bare =>
      cases hc
      rfl
  | challenge data =>
      have hbare : utf8 ("+ ".toList ++ data ++ "\r\n".toList) ≠ utf8 "+\r\n".toList := by
        simp [SPACE, CR]
      have inLine : ∀ c ∈ data, decide (c ≠ '\n') = true := by
        intro c hc
        exact decide_eq_true fun heq => h.1 (heq ▸ hc)
      have hbody : (data ++ ['\r', '\n']).takeWhile (· ≠ '\n') = data ++ ['\r'] := by
        rw [List.takeWhile_append_of_pos inLine]
        rfl
      have hrest : (data ++ ['\r', '\n']).dropWhile (· ≠ '\n') = ['\n'] := by
        rw [List.dropWhile_append_of_pos inLine]
        rfl
      have hcapture : authRespCapture ("+ ".toList ++ data ++ "\r\n".toList) = some data := by
        change authRespCapture ('+' :: ' ' :: (data ++ ['\r', '\n'])) = _
        simp only [authRespCapture, hbody, hrest]
        simp
      rw [Handshake.challengeOf, text, if_neg hbare, fromUtf8_utf8]
      have hdecode : base64.decode data = some c := hc
      simp only [parseAuthenticateResponse, hcapture, bind, Except.bind, hdecode]

end AuthLine

/-- A line that ends the handshake. -/
structure LastLine (d : Bytes) : Prop where
  notComment : isComment d = false
  notChallenge : isChallenge d = false
  line : ∃ xs, d = xs ++ [CR, LF] ∧ LF ∉ xs

namespace Handshake

variable {σ : Type} (peer : Peer σ) (base64 : Base64) (authenticator : Authenticator)

/-- What is written in response to the last of the challenges. -/
def response (challenges : List Bytes) : Bytes :=
  utf8 (base64.encode (authenticator challenges))

/-- The handshake after one more line. -/
def after (h : Handshake σ) (l : AuthLine) : Handshake σ :=
  match l.challenge? base64 with
  | none => { h with conn := h.conn.nextLine }
  | some c =>
      { conn := (Connection.writeLine peer (response base64 authenticator (h.challenges ++ [c]))
          h.conn.nextLine).2
        challenges := h.challenges ++ [c] }

/-- The client finds these lines, one each time it reads, and then `d`. The server may send
a line early or wait for the response to the one before. -/
def Finds (d : Bytes) : List AuthLine → Handshake σ → Prop
  | [], h => ∃ more, h.conn.input = d.map .item ++ more
  | l :: ls, h => (∃ more, h.conn.input = l.text.map .item ++ more) ∧
      Finds d ls (h.after peer base64 authenticator l)

/-- The traffic while the lines are dealt with: each is read, and what is sent before the next
is read is the response to it, if it is a challenge. -/
inductive Exchange : List Bytes → List AuthLine → List Wire → Prop
  | nil {cs : List Bytes} : Exchange cs [] []
  | comment {cs : List Bytes} {l : AuthLine} {ls : List AuthLine} {w : List Wire} :
      l.challenge? base64 = none → Exchange cs ls w →
      Exchange cs (l :: ls) (.read l.text none :: w)
  | challenge {cs : List Bytes} {l : AuthLine} {c : Bytes} {chunks : List Bytes}
      {ls : List AuthLine} {w : List Wire} :
      l.challenge? base64 = some c →
      chunks.flatten = response base64 authenticator (cs ++ [c]) ++ [CR, LF] →
      Exchange (cs ++ [c]) ls w →
      Exchange cs (l :: ls) (.read l.text none :: (chunks.map .sent ++ w))

/-- Between two lines: nothing is left to send and no write will fail. -/
structure Between (conn : Connection σ) (h : Handshake σ) : Prop where
  reliable : h.conn.stream.Reliable
  empty : h.conn.stream.wbuf = []
  tag : h.conn.tag = conn.tag

variable {peer base64 authenticator} {parse : ParseResponse} {h : Handshake σ}

theorem readline_whole {conn : Connection σ} {d xs : Bytes} (hd : d = xs ++ [LF]) (hxs : LF ∉ xs)
    (hne : xs ≠ []) {more : List InEvent} (hin : conn.input = d.map .item ++ more) :
    Connection.readline [] conn = (.ok d, conn.nextLine) ∧ conn.nextLine.input = more ∧
      conn.nextLine.stream.inner.wire = conn.stream.inner.wire ++ [.read d none] := by
  have htake : takeLine LF conn.input = (d, none, more) := by
    rw [hin, hd, takeLine_whole hxs]
  obtain ⟨hread, hrest⟩ := Connection.readline_eq htake []
  have hprint : conn.printable d = true := by
    have := List.length_pos_iff.mpr hne
    have hlength : ¬d.length < 2 := by
      rw [hd, List.length_append, List.length_singleton]
      omega
    simp [Connection.printable, hlength]
  have hd' : d ≠ [] := by simp [hd]
  refine ⟨?_, hrest, ?_⟩
  · rw [hread, Connection.lineResult, if_neg hd', if_pos hprint, List.nil_append]
  · have hinput := Connection.takeLine_input conn
    rw [htake] at hinput
    simp only [Prod.mk.injEq] at hinput
    obtain ⟨hgot, hfailed, -⟩ := hinput
    rw [hgot, hfailed]
    rfl

variable (parse) in
theorem doAuthHandshake_turn {conn : Connection σ} (hbetween : h.Between conn) {l : AuthLine}
    (hl : l.WellFormed base64) {more : List InEvent} (hin : h.conn.input = l.text.map .item ++ more)
    (turns : Nat) :
    doAuthHandshake peer parse base64 authenticator (turns + 1) h =
        doAuthHandshake peer parse base64 authenticator turns
          (h.after peer base64 authenticator l) ∧
      (h.after peer base64 authenticator l).Between conn ∧
      (h.after peer base64 authenticator l).challenges =
        h.challenges ++ (l.challenge? base64).toList ∧
      ∀ {ls : List AuthLine} {w : List Wire},
        Exchange base64 authenticator (h.after peer base64 authenticator l).challenges ls w →
        ∃ w', Exchange base64 authenticator h.challenges (l :: ls) w' ∧
          h.conn.stream.inner.wire ++ w' =
            (h.after peer base64 authenticator l).conn.stream.inner.wire ++ w := by
  obtain ⟨xs, htext, hxs, hne⟩ := AuthLine.text_eq hl
  obtain ⟨hread, hrest, hwire⟩ := readline_whole htext hxs hne hin
  have hline : onConn (Connection.readline []) h =
      (.ok l.text, { h with conn := h.conn.nextLine }) := by
    change ((Connection.readline [] h.conn).1, _) = _
    rw [hread]
  have hbetween' : ({ h with conn := h.conn.nextLine } : Handshake σ).Between conn :=
    ⟨hbetween.reliable, hbetween.empty, hbetween.tag⟩
  rw [doAuthHandshake, Exec.bind_ok hline]
  cases hcomment : isComment l.text with
  | true =>
      obtain ⟨text, rfl⟩ := (AuthLine.isComment_text l).mp hcomment
      rw [if_pos rfl]
      refine ⟨rfl, hbetween', (List.append_nil _).symm, fun {ls w} hw => ?_⟩
      refine ⟨_, .comment rfl hw, ?_⟩
      change _ = h.conn.nextLine.stream.inner.wire ++ w
      rw [hwire, List.append_assoc]
      rfl
  | false =>
      obtain ⟨c, hc⟩ : ∃ c, l.challenge? base64 = some c := by
        cases l with
        | comment text =>
            rw [(AuthLine.isComment_text _).mpr ⟨text, rfl⟩] at hcomment
            cases hcomment
        | challenge data => exact Option.isSome_iff_exists.mp hl.2
        | bare => exact ⟨[], rfl⟩
      obtain ⟨conn', chunks, hwrite, hsame, hrel, hempty, hsent, hchunks⟩ :=
        Connection.writeLine_sends peer hbetween'.reliable hbetween'.empty
          (isUtf8_utf8 (base64.encode (authenticator (h.challenges ++ [c]))))
      have hafter : h.after peer base64 authenticator l = ⟨conn', h.challenges ++ [c]⟩ := by
        rw [after, hc]
        exact congrArg (fun r => (⟨r.2, h.challenges ++ [c]⟩ : Handshake σ)) hwrite
      have hchallenge : Exec.lift ((challengeOf base64 l.text).mapError Fault.err)
          { h with conn := h.conn.nextLine } = (.ok c, { h with conn := h.conn.nextLine }) := by
        rw [AuthLine.challengeOf_text hl hc]
        rfl
      have hprocess : process authenticator c { h with conn := h.conn.nextLine } =
          (.ok (authenticator (h.challenges ++ [c])), ⟨h.conn.nextLine, h.challenges ++ [c]⟩) := rfl
      have hresponse : onConn (Connection.writeLine peer
          (utf8 (base64.encode (authenticator (h.challenges ++ [c])))))
          ⟨h.conn.nextLine, h.challenges ++ [c]⟩ = (.ok (), ⟨conn', h.challenges ++ [c]⟩) :=
        congrArg (fun r => (r.1, (⟨r.2, h.challenges ++ [c]⟩ : Handshake σ))) hwrite
      rw [if_neg (by simp), if_pos (AuthLine.isChallenge_text hcomment), Exec.bind_ok hchallenge,
        Exec.bind_ok hprocess, Exec.bind_ok hresponse, hafter, hc]
      refine ⟨rfl, ⟨hrel, hempty, hsame.tag.trans hbetween.tag⟩, rfl, fun {ls w} hw => ?_⟩
      refine ⟨_, .challenge hc hchunks hw, ?_⟩
      change _ = conn'.stream.inner.wire ++ w
      rw [hsent]
      change _ = h.conn.nextLine.stream.inner.wire ++ _ ++ w
      rw [hwire]
      simp

variable (parse) in
/-- All lines that do not end the handshake. -/
theorem doAuthHandshake_lines {conn : Connection σ} {d : Bytes} {lines : List AuthLine}
    (hlines : ∀ l ∈ lines, l.WellFormed base64) (hbetween : h.Between conn)
    (hfinds : Finds peer base64 authenticator d lines h) (turns : Nat) :
    ∃ h' w, doAuthHandshake peer parse base64 authenticator (lines.length + turns) h =
        doAuthHandshake peer parse base64 authenticator turns h' ∧ h'.Between conn ∧
      (∃ more, h'.conn.input = d.map .item ++ more) ∧
      h'.challenges = h.challenges ++ lines.filterMap (AuthLine.challenge? base64) ∧
      Exchange base64 authenticator h.challenges lines w ∧
      h'.conn.stream.inner.wire = h.conn.stream.inner.wire ++ w := by
  induction lines generalizing h with
  | nil => exact ⟨h, [], by simp, hbetween, hfinds, by simp, .nil, by simp⟩
  | cons l ls ih =>
      obtain ⟨⟨more, hin⟩, hrest⟩ := hfinds
      obtain ⟨hturn, hbetween', hchallenges, hexchange⟩ := doAuthHandshake_turn parse
        hbetween (hlines l List.mem_cons_self) hin (ls.length + turns)
      obtain ⟨h', w, hloop, hb, hmore, hcs, hw, hwire⟩ :=
        ih (fun l' hl' => hlines l' (List.mem_cons_of_mem l hl')) hbetween' hrest
      obtain ⟨w', hw', hwire'⟩ := hexchange hw
      refine ⟨h', w', ?_, hb, hmore, ?_, hw', by rw [hwire, hwire']⟩
      · rw [List.length_cons, Nat.add_right_comm, hturn, hloop]
      · rw [hcs, hchallenges, List.append_assoc]
        cases hc : l.challenge? base64 <;> simp [hc]

variable (peer base64 authenticator) in
/-- A line that ends the handshake is taken for the tagged response. -/
theorem doAuthHandshake_last {d : Bytes} (hd : LastLine d) {more : List InEvent}
    (hin : h.conn.input = d.map .item ++ more) {tag : Str} {status : Status}
    {code : Option ResponseCode} {information : Option Str}
    (hdone : parse.Accepts d (.done tag status code information)) (turns : Nat) :
    ∃ r h', doAuthHandshake peer parse base64 authenticator (turns + 1) h = (r, h') ∧
      h'.conn = h.conn.nextLine ∧ h'.challenges = h.challenges ∧
      h'.conn.stream.inner.wire = h.conn.stream.inner.wire ++ [.read d none] ∧
      if status = .ok ∧ tag = matchTag h.conn.tag then r = .ok (Session.new h'.conn)
      else ∃ e, r = .error (.err e) := by
  obtain ⟨xs, hxs, hlf⟩ := hd.line
  have hbody : d = (xs ++ [CR]) ++ [LF] := by rw [hxs, List.append_assoc]; rfl
  have hnot : LF ∉ xs ++ [CR] := by
    rw [List.mem_append, not_or]
    exact ⟨hlf, by decide⟩
  obtain ⟨hread, hrest, hwire⟩ := readline_whole hbody hnot (by simp) hin
  have hline : onConn (Connection.readline []) h = (.ok d, { h with conn := h.conn.nextLine }) := by
    change ((Connection.readline [] h.conn).1, _) = _
    rw [hread]
  have hfirst : d.isEmpty = false := by simp [hxs]
  have hstart : Connection.turnStart d none true h.conn.nextLine = (.ok (d, 0), h.conn.nextLine) :=
    rfl
  have hrun : parse.run d = .ok [] (.done tag status code information) := hdone
  have hanswer : (Connection.readResponseOnto parse d h.conn.nextLine).2 = h.conn.nextLine ∧
      if status = .ok ∧ tag = matchTag h.conn.tag then
        ∃ v, (Connection.readResponseOnto parse d h.conn.nextLine).1 = .ok v
      else ∃ e, (Connection.readResponseOnto parse d h.conn.nextLine).1 = .error (.err e) := by
    rw [Connection.readResponseOnto, hfirst, Bool.not_false, Connection.readResponseLoop_succ,
      hstart]
    simp only [List.drop_zero, hrun, show h.conn.nextLine.tag = h.conn.tag from rfl]
    by_cases htag : tag = matchTag h.conn.tag
    · cases status <;> simp [breakWith, leave, htag]
    · simp [breakWith, leave, htag]
  obtain ⟨hconn, hresult⟩ := hanswer
  have hstep : onConn (Connection.readResponseOnto parse d) { h with conn := h.conn.nextLine } =
      ((Connection.readResponseOnto parse d h.conn.nextLine).1,
        { h with conn := h.conn.nextLine }) :=
    congrArg (fun conn => (_, ({ h with conn } : Handshake σ))) hconn
  rw [doAuthHandshake, Exec.bind_ok hline, hd.notComment, hd.notChallenge, if_neg (by simp),
    if_neg (by simp)]
  generalize (Connection.readResponseOnto parse d h.conn.nextLine).1 = result at hresult hstep
  by_cases hok : status = .ok ∧ tag = matchTag h.conn.tag
  · rw [if_pos hok] at hresult
    obtain ⟨v, rfl⟩ := hresult
    rw [Exec.bind_ok hstep]
    refine ⟨_, _, rfl, rfl, rfl, hwire, ?_⟩
    rw [if_pos hok]
  · rw [if_neg hok] at hresult
    obtain ⟨e, rfl⟩ := hresult
    rw [Exec.bind_error hstep]
    refine ⟨_, _, rfl, rfl, rfl, hwire, ?_⟩
    rw [if_neg hok]
    exact ⟨e, rfl⟩

/-- The handshake deals with the challenges one by one, and there is a session in the end
exactly if the server agrees. -/
theorem authenticate_handshake {authType : Str} {conn0 conn : Connection σ}
    (hreliable : conn0.stream.Reliable)
    (hsend : Connection.send peer (.authenticate authType) conn0 = (.ok true, conn))
    {lines : List AuthLine} (hlines : ∀ l ∈ lines, l.WellFormed base64) {d : Bytes}
    (hd : LastLine d) {tag : Str} {status : Status} {code : Option ResponseCode}
    {information : Option Str} (hdone : parse.Accepts d (.done tag status code information))
    (hfinds : Finds peer base64 authenticator d lines ⟨conn, []⟩) {turns : Nat}
    (hturns : lines.length < turns) :
    ∃ r h', authenticate peer parse base64 authenticator authType turns ⟨conn0, []⟩ = (r, h') ∧
      h'.challenges = lines.filterMap (AuthLine.challenge? base64) ∧
      (∃ w, Exchange base64 authenticator [] lines w ∧
        h'.conn.stream.inner.wire = conn.stream.inner.wire ++ w ++ [.read d none]) ∧
      conn.tag = conn0.tag + 1 ∧ h'.conn.tag = conn.tag ∧
      (r = .ok (Session.new h'.conn) ∨ ∃ e, r = .error (.err e)) ∧
      (r = .ok (Session.new h'.conn) ↔ status = .ok ∧ tag = matchTag conn.tag) := by
  have htext : (Command.authenticate authType).text =
      .ok (some (words ["AUTHENTICATE".toList, authType])) := rfl
  have hcommand : onConn (Connection.send peer (.authenticate authType)) ⟨conn0, []⟩ =
      (.ok true, ⟨conn, []⟩) :=
    congrArg (fun r => (r.1, (⟨r.2, []⟩ : Handshake σ))) hsend
  rw [Connection.send_some peer htext] at hsend
  obtain ⟨hok, hrel⟩ := Connection.runCommand_reliable peer hreliable
    (words ["AUTHENTICATE".toList, authType])
  obtain ⟨-, -, -, -, ⟨-, -, htag, hempty⟩ | ⟨k, herr, -⟩⟩ := Connection.runCommand_total peer
    (words ["AUTHENTICATE".toList, authType]) conn0
  swap
  · rw [hok] at herr
    cases herr
  obtain rfl := (Prod.mk.inj hsend).2
  obtain ⟨n, rfl⟩ : ∃ n, turns = lines.length + (n + 1) := ⟨turns - lines.length - 1, by omega⟩
  have hstart : (⟨(Connection.runCommand peer (words ["AUTHENTICATE".toList, authType]) conn0).2,
      []⟩ : Handshake σ).Between
        (Connection.runCommand peer (words ["AUTHENTICATE".toList, authType]) conn0).2 :=
    ⟨hrel, hempty, rfl⟩
  obtain ⟨h', w, hloop, hbetween, ⟨more, hin⟩, hchallenges, hw, hwire⟩ :=
    doAuthHandshake_lines parse hlines hstart hfinds (n + 1)
  obtain ⟨r, h'', hlast, hconn, hchallenges', hwire', hr⟩ :=
    doAuthHandshake_last peer base64 authenticator hd hin hdone n
  refine ⟨r, h'', ?_, ?_, ⟨w, hw, ?_⟩, htag, ?_, ?_⟩
  · rw [authenticate, Exec.bind_ok hcommand, hloop, hlast]
  · rw [hchallenges', hchallenges, List.nil_append]
  · rw [hwire', hwire]
  · rw [hconn]
    exact hbetween.tag
  rw [hbetween.tag] at hr
  split at hr
  · rename_i hagreed
    exact ⟨.inl hr, fun _ => hagreed, fun _ => hr⟩
  · rename_i hagreed
    obtain ⟨e, rfl⟩ := hr
    exact ⟨.inr ⟨e, rfl⟩, nofun, fun h => absurd h hagreed⟩

/-- The engine on the texts that occur here. -/
def fooBar : Base64 where
  encode bs :=
    if bs = utf8 "foo".toList then "Zm9v".toList
    else if bs = utf8 "qux".toList then "cXV4".toList
    else []
  decode s :=
    if s = "YmFy".toList then some (utf8 "bar".toList)
    else if s = "YmF6".toList then some (utf8 "baz".toList)
    else none

/-- An authenticator that responds to the first challenge with one word and to the others with
another. -/
def fooQux (challenges : List Bytes) : Bytes :=
  if challenges.length = 1 then utf8 "foo".toList else utf8 "qux".toList

def agreement : Bytes := utf8 "a1 OK\r\n".toList

def plainMessages : List (Bytes × Response) :=
  [(agreement, .done "a1".toList .ok none none)]

def plainParse : ParseResponse := Parser.table plainMessages (by decide)

def plainLines : List AuthLine :=
  [.challenge "YmFy".toList, .comment (utf8 "wait\r".toList), .challenge "YmF6".toList]

/-- What a server has sent that has got so far in its lines. -/
def unread (lines : List AuthLine) : Bytes := (lines.map AuthLine.text).flatten ++ agreement

def plainClient : Connection Unit := Connection.reading (unread plainLines) false

def plainSent : Connection Unit :=
  (Connection.send Connection.silent (.authenticate "PLAIN".toList) plainClient).2

theorem plainSent_eq {result : Except Fault Bool}
    (h : (Connection.send Connection.silent (.authenticate "PLAIN".toList) plainClient).1 =
      result) :
    Connection.send Connection.silent (.authenticate "PLAIN".toList) plainClient =
      (result, plainSent) :=
  Prod.ext h rfl

theorem authenticate_handshake_plain :
    ∃ r h', authenticate Connection.silent plainParse fooBar fooQux "PLAIN".toList 4
        ⟨plainClient, []⟩ = (r, h') ∧
      h'.challenges = [utf8 "bar".toList, utf8 "baz".toList] ∧ r = .ok (Session.new h'.conn) := by
  have reliable : plainClient.stream.Reliable := by
    simp [BufStream.Reliable, plainClient, Connection.reading]
  have hsent : (Connection.send Connection.silent (.authenticate "PLAIN".toList) plainClient).1 =
      .ok true := by decide
  have hlines : ∀ l ∈ plainLines, l.WellFormed fooBar := by
    simp only [plainLines, List.forall_mem_cons, AuthLine.WellFormed]
    exact ⟨by decide, by decide, by decide, by simp⟩
  have hlast : LastLine agreement :=
    ⟨by decide, by decide, utf8 "a1 OK".toList, by decide,
      by decide⟩
  have hdone : plainParse.Accepts agreement (.done "a1".toList .ok none none) :=
    show plainParse.run agreement = _ by decide
  have hfinds : Finds Connection.silent fooBar fooQux agreement plainLines ⟨plainSent, []⟩ :=
    ⟨⟨(unread (plainLines.drop 1)).map .item, by decide⟩,
      ⟨(unread (plainLines.drop 2)).map .item, by decide⟩,
      ⟨(unread []).map .item, by decide⟩, [], by decide⟩
  obtain ⟨r, h', hrun, hchallenges, -, -, -, -, hr⟩ := authenticate_handshake reliable
    (plainSent_eq hsent) hlines hlast hdone hfinds (show plainLines.length < 4 by decide)
  refine ⟨r, h', hrun, ?_, hr.mpr ⟨rfl, by decide⟩⟩
  rw [hchallenges]
  rfl

end Handshake

end RustImap
