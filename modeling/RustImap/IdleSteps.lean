import RustImap.IdleTalk

/-!
What a handle's own steps do to the talk.

Issuing an `IDLE` that is confirmed starts a round; one that fails leaves what was read to
the round before. Terminating an `IDLE` ends the first part of its round. Neither writes
out of turn when it starts from the right phase.
-/

namespace RustImap

variable {σ : Type} {peer : Peer σ} {parse : ParseResponse}
variable {t0 : Talk} {before : List Wire}

namespace Talk

/-- The line of an `IDLE` has gone out. -/
def asked (t : Talk) : Talk := { t with phase := .requested true [], line := [] }

/-- What stays the same when nothing is read while an `IDLE` is running. -/
structure Kept (t t' : Talk) : Prop where
  legal : t'.legal = t.legal
  rounds : t'.rounds = t.rounds
  during : t'.round.during = t.round.during

theorem asked_confirmed (t : Talk) {line : Bytes} (h : line.head? = some PLUS) :
    t.asked.hear parse line none = t.asked.confirm := by
  simp [hear, asked, h]

variable (parse) in
theorem asked_unconfirmed (t : Talk) {line : Bytes} {failed : Option ErrorKind}
    (h : ¬(failed = none ∧ line.head? = some PLUS)) :
    Kept t (t.asked.hear parse line failed) ∧
      (t.asked.hear parse line failed).phase.isPrompt = false := by
  have late := Phase.next_prompt parse (fun v => (rfl : (Phase.requested false v).isPrompt = false))
    [] line failed
  simp only [hear, asked, true_and, if_neg h]
  exact ⟨⟨rfl, rfl, rfl⟩, late⟩

theorem asked_line (t : Talk) (line : Bytes) (failed : Option ErrorKind) :
    (t.asked.hear parse line failed).line = [] :=
  (hear_line parse t.asked line failed).1

end Talk

namespace Handle

/-- An `IDLE` is running, and the handle knows. -/
structure Idling (parse : ParseResponse) (t0 : Talk) (before : List Wire) (h : Handle σ)
    (t : Talk) (v : Bytes) : Prop where
  talk : h.conn.TalkIs parse t0 before t
  phase : t.phase = .running true v
  line : t.line = []
  wbuf : h.conn.stream.wbuf = []
  done : h.done = false

variable (peer) in
theorem runCommand_idle {conn : Connection σ} {t : Talk} (ht : conn.TalkIs parse t0 before t)
    (hquiet : t.phase.isRunning = false) (hline : SPACE ∉ t.line) :
    let r := Connection.runCommand peer "IDLE".toList conn
    (r.1 = .ok () ∧ r.2.stream.wbuf = [] ∧ r.2.TalkIs parse t0 before t.asked) ∨
    ∃ e t', r.1 = .error e ∧ r.2.TalkIs parse t0 before t' ∧ Talk.Kept t t' ∧
      t'.phase.isRunning = false ∧ (t.phase = .quiet → t'.phase ≠ .quiet → t'.line = []) := by
  intro r
  obtain ⟨w, htotal, -, -, hout⟩ := Connection.runCommand_total peer "IDLE".toList conn
  have sent := ht.sent (Connection.runCommand_sentMore peer "IDLE".toList conn) htotal
  obtain ⟨l, hl, hcommand, hends⟩ := Connection.idle_line conn
  have whole : t.ends (t.line ++ (l ++ [LF])) = t.asked := by
    rw [← hcommand, hends t hline, hquiet, Bool.not_false, Bool.and_true]
    rfl
  rw [hcommand] at hout
  obtain ⟨hok, rfl, -, hempty⟩ | ⟨k, herr, hw, -⟩ := hout
  · rw [Talk.send_line hl, whole] at sent
    exact .inl ⟨hok, hempty, sent⟩
  · refine .inr ⟨_, _, herr, sent, ?_⟩
    rcases Talk.send_prefix hl hw t with heq | heq
    · rw [heq, whole]
      exact ⟨⟨rfl, rfl, rfl⟩, rfl, fun _ _ => rfl⟩
    · rw [heq]
      exact ⟨⟨rfl, rfl, rfl⟩, hquiet, fun hphase hne => absurd hphase hne⟩

variable (parse) in
/-- The ways an `IDLE` that has been written is answered, by the first line of the answer. -/
theorem init_line {h : Handle σ} {conn : Connection σ}
    (hrun : Connection.runCommand peer "IDLE".toList h.conn = (.ok (), conn)) {line : Bytes}
    {failed : Option ErrorKind} {rest : List InEvent}
    (htake : takeLine LF conn.input = (line, failed, rest)) :
    (∃ e, conn.lineResult [] line failed = .error e ∧
      init peer parse h = (.error e, h.withConn conn.nextLine)) ∨
    failed = none ∧ line ≠ [] ∧ conn.printable line = true ∧
      (line.head? = some PLUS ∧
          init peer parse h = (.ok (), { h.withConn conn.nextLine with done := false }) ∨
        line.head? ≠ some PLUS ∧ init peer parse h =
          (.error (unconfirmed (Connection.readResponseOnto parse line conn.nextLine).1),
            h.withConn (Connection.readResponseOnto parse line conn.nextLine).2)) := by
  rcases init_cases peer parse h with ⟨e, conn1, heq, -⟩ | ⟨conn1, heq, hread⟩
  · cases hrun.symm.trans heq
  obtain rfl := (Prod.mk.inj (hrun.symm.trans heq)).2
  rw [(Connection.readline_eq htake []).1] at hread
  rcases hread with ⟨e, conn2, hread, hinit⟩ | ⟨v, conn2, hread, hcase⟩
  · obtain ⟨hresult, rfl⟩ := Prod.mk.inj hread
    exact .inl ⟨e, hresult, hinit⟩
  · obtain ⟨hresult, rfl⟩ := Prod.mk.inj hread
    obtain ⟨rfl, hne, hprint, hv⟩ := Connection.lineResult_ok hresult
    rw [List.nil_append] at hv
    subst hv
    exact .inr ⟨rfl, hne, hprint, hcase⟩

/-- What such an `IDLE` does to the talk. The debug output can fail on the line that confirms
it. -/
theorem init_asked {h : Handle σ} {t : Talk} {conn1 : Connection σ}
    (hrun : Connection.runCommand peer "IDLE".toList h.conn = (.ok (), conn1))
    (hasked : conn1.TalkIs parse t0 before t.asked) (hempty : conn1.stream.wbuf = []) :
    ((init peer parse h).1 = .ok () ∧
      Idling parse t0 before (init peer parse h).2 t.asked.confirm []) ∨
    ∃ e t', (init peer parse h).1 = .error e ∧ (init peer parse h).2.done = h.done ∧
      (init peer parse h).2.conn.TalkIs parse t0 before t' ∧
      (t' = t.asked.confirm ∨ Talk.Kept t t') ∧ t'.line = [] := by
  obtain ⟨line, failed, rest, htake⟩ : ∃ line failed rest,
    takeLine LF conn1.input = (line, failed, rest) := ⟨_, _, _, rfl⟩
  have heard : conn1.nextLine.TalkIs parse t0 before (t.asked.hear parse line failed) :=
    hasked.nextLine hempty htake
  have outcome : t.asked.hear parse line failed = t.asked.confirm ∨
      Talk.Kept t (t.asked.hear parse line failed) := by
    by_cases hplus : failed = none ∧ line.head? = some PLUS
    · obtain ⟨rfl, hplus⟩ := hplus
      exact .inl (Talk.asked_confirmed t hplus)
    · exact .inr (Talk.asked_unconfirmed parse t hplus).1
  rcases init_line parse hrun htake with
    ⟨e, -, hinit⟩ | ⟨rfl, -, -, ⟨hplus, hinit⟩ | ⟨hplus, hinit⟩⟩
  · rw [hinit]
    exact .inr ⟨e, _, rfl, rfl, heard, outcome, Talk.asked_line t line failed⟩
  · rw [Talk.asked_confirmed t hplus] at heard
    rw [hinit]
    exact .inl ⟨rfl, heard, rfl, rfl, hempty, rfl⟩
  · have hnot : ¬((none : Option ErrorKind) = none ∧ line.head? = some PLUS) :=
      fun h => hplus h.2
    obtain ⟨hkept, hlate⟩ := Talk.asked_unconfirmed parse t hnot
    obtain ⟨us, u, conn', -, hresult, -, hon⟩ :=
      Connection.readResponseOnto_answer parse line conn1.nextLine
    obtain ⟨reads, phase, -, -, hrest⟩ := heard.heard hempty hon hlate
    rw [hinit, hresult]
    exact .inr ⟨_, _, rfl, rfl, hrest, .inr ⟨hkept.legal, hkept.rounds, hkept.during⟩,
      Talk.asked_line t line none⟩

variable (peer) in
/-- The ways an `IDLE` is issued. -/
theorem init_talk {h : Handle σ} {t : Talk} (ht : h.conn.TalkIs parse t0 before t)
    (hquiet : t.phase.isRunning = false) (hline : SPACE ∉ t.line) :
    ((init peer parse h).1 = .ok () ∧
      Idling parse t0 before (init peer parse h).2 t.asked.confirm []) ∨
    ∃ e t', (init peer parse h).1 = .error e ∧ (init peer parse h).2.done = h.done ∧
      (init peer parse h).2.conn.TalkIs parse t0 before t' ∧
      (t' = t.asked.confirm ∨ Talk.Kept t t') ∧ (t'.phase.isRunning = true → t'.line = []) ∧
      (t.phase = .quiet → t'.phase ≠ .quiet → t'.line = []) := by
  have command := runCommand_idle peer ht hquiet hline
  rcases init_cases peer parse h with ⟨e, conn, hrun, hinit⟩ | ⟨conn1, hrun, -⟩
  · rw [hrun] at command
    obtain ⟨hok, -⟩ | ⟨_, t', -, ht', hkept, hstill, hline'⟩ := command
    · cases hok
    · rw [hinit]
      exact .inr ⟨e, t', rfl, rfl, ht', .inr hkept, by simp [hstill], hline'⟩
  rw [hrun] at command
  obtain ⟨-, hempty, hasked⟩ | ⟨_, _, herr, -⟩ := command
  swap
  · cases herr
  obtain confirmed | ⟨e, t', herr, hdone, ht', hsame, hline'⟩ := init_asked hrun hasked hempty
  · exact .inl confirmed
  · exact .inr ⟨e, t', herr, hdone, ht', hsame, fun _ => hline', fun _ _ => hline'⟩

variable (peer) in
/-- A handle that terminates its `IDLE` writes the line `DONE`, or a part of it, and reads an
answer when the line has gone out. -/
theorem terminate_sent {h : Handle σ} {t : Talk} (ht : h.conn.TalkIs parse t0 before t)
    (hdone : h.done = false) :
    (terminate peer parse h).2.done = true ∧
    ((∃ e t', (terminate peer parse h).1 = .error e ∧
        (terminate peer parse h).2.conn.TalkIs parse t0 before t' ∧
        (t' = t.ends (t.line ++ doneLine) ∨ ∃ w, t' = { t with line := w })) ∨
      ∃ conn us u conn', conn.TalkIs parse t0 before (t.ends (t.line ++ doneLine)) ∧
        conn.stream.wbuf = [] ∧ Connection.ReadOn conn conn' ∧
        terminate peer parse h =
          ((Connection.answerResult conn.tag [] us u).map fun _ => (),
            { h.withConn conn' with done := true })) := by
  obtain ⟨w, htotal, -, hout⟩ := Connection.writeLine_total peer (isUtf8_utf8 "DONE".toList) h.conn
  have sent := ht.sent (Connection.writeLine_sentMore peer (utf8 "DONE".toList) h.conn) htotal
  obtain ⟨l, hl, hdoneLine, -⟩ := Connection.done_line
  change _ ∧ w = doneLine ∧ _ ∨ ∃ k, _ ∧ w <+: doneLine at hout
  rw [hdoneLine] at hout ⊢
  rcases terminate_cases peer parse h with ⟨h1, -⟩ | ⟨-, hcase⟩
  · cases hdone.symm.trans h1
  rcases hcase with ⟨e, conn, hwrite, hterm⟩ | ⟨conn1, hwrite, hterm⟩
  · rw [hwrite] at hout sent
    rw [hterm]
    obtain ⟨hok, -⟩ | ⟨k, -, hw⟩ := hout
    · cases hok
    refine ⟨rfl, .inl ⟨e, _, rfl, sent, ?_⟩⟩
    rcases Talk.send_prefix hl hw t with heq | heq
    · exact .inl heq
    · exact .inr ⟨_, heq⟩
  · rw [hwrite] at hout sent
    obtain ⟨-, rfl, hempty⟩ | ⟨k, herr, -⟩ := hout
    swap
    · cases herr
    rw [Talk.send_line hl] at sent
    obtain ⟨us, u, conn', -, hresult, -, hon⟩ := Connection.readResponse_answer parse conn1
    rw [hterm]
    refine ⟨rfl, .inr ⟨conn1, us, u, conn', sent, hempty, hon, ?_⟩⟩
    rw [hresult]

variable (peer) in
/-- The ways an `IDLE` is terminated. -/
theorem terminate_talk {h : Handle σ} {t : Talk} (ht : h.conn.TalkIs parse t0 before t)
    (hrunning : t.phase.isRunning = true) (hline : t.line = []) (hdone : h.done = false) :
    (terminate peer parse h).2.done = true ∧
    ∃ t', (terminate peer parse h).2.conn.TalkIs parse t0 before t' ∧ Talk.Kept t t' ∧
      ((terminate peer parse h).1 = .ok () → t'.phase = .quiet ∧ t'.line = []) := by
  obtain ⟨-, -, -, hends⟩ := Connection.done_line
  have whole : t.ends (t.line ++ doneLine) = { t with phase := .quiet, line := [] } := by
    rw [hline, List.nil_append, hends, hrunning, Bool.and_true]
  obtain ⟨hdone', ⟨e, t', herr, ht', hsame⟩ | ⟨conn, us, u, conn', ht', hempty, hon, hterm⟩⟩ :=
    terminate_sent peer ht hdone
  · refine ⟨hdone', t', ht', ?_, fun hok => by cases herr.symm.trans hok⟩
    rcases hsame with rfl | ⟨w, rfl⟩
    · rw [whole]
      exact ⟨rfl, rfl, rfl⟩
    · exact ⟨rfl, rfl, rfl⟩
  · rw [whole] at ht'
    obtain ⟨reads, phase, -, hquiet, hrest⟩ := ht'.heard hempty hon rfl
    rw [hterm]
    exact ⟨rfl, _, hrest, ⟨rfl, rfl, rfl⟩, fun _ => ⟨hquiet rfl, rfl⟩⟩

theorem terminate_done {h : Handle σ} (hdone : h.done = true) :
    terminate peer parse h = (.ok (), h) := by
  rcases terminate_cases peer parse h with ⟨-, hterm⟩ | ⟨h1, -⟩
  · exact hterm
  · cases hdone.symm.trans h1

theorem setReadTimeout_talk (timeout : Option Nat) (h : Handle σ) (t : Talk) :
    (setReadTimeout timeout h).2.conn.TalkIs parse t0 before t ↔
      h.conn.TalkIs parse t0 before t := by
  change (∃ new, (BufStream.setReadTimeout timeout h.conn.stream).2.inner.wire = _ ∧
    (new ++ [Wire.sent (BufStream.setReadTimeout timeout h.conn.stream).2.wbuf]).foldl _ _ = _) ↔ _
  rw [BufStream.setReadTimeout_wire, BufStream.setReadTimeout_wbuf]
  rfl

theorem Idling.setReadTimeout {h : Handle σ} {t : Talk} {v : Bytes}
    (hidle : h.Idling parse t0 before t v) (timeout : Option Nat) :
    (Handle.setReadTimeout timeout h).2.Idling parse t0 before t v := by
  refine ⟨(setReadTimeout_talk timeout h t).mpr hidle.talk, hidle.phase, hidle.line, ?_, hidle.done⟩
  rw [← hidle.wbuf]
  exact BufStream.setReadTimeout_wbuf _ _

end Handle

namespace Waiting

variable {callback : Callback}

def nextLine (w : Waiting σ) : Waiting σ :=
  { w with handle := w.handle.withConn w.handle.conn.nextLine }

/-- The callback has been given one more response. -/
def give (u : UnsolicitedResponse) (w : Waiting σ) : Waiting σ := { w with heard := w.heard ++ [u] }

/-- The line has been taken to the vector, and it is not the keepalive message. -/
structure Taken (w : Waiting σ) (v line : Bytes) (failed : Option ErrorKind) : Prop where
  result : w.handle.conn.lineResult v line failed = .ok (v ++ line)
  notStill : eqIgnoreAsciiCase (v ++ line) stillHere = false

/-- How a turn of the loop goes when it reads this line, and what the loop comes to. -/
inductive Turn (parse : ParseResponse) (callback : Callback) (turns : Nat) (v line : Bytes)
    (failed : Option ErrorKind) (w : Waiting σ) : Except Fault WaitOutcome × Waiting σ → Prop
  | timedOut : failed ≠ none → Turn parse callback turns v line failed w (.ok .timedOut, w.nextLine)
  | failed {e : Fault} : w.handle.conn.lineResult v line failed = .error e →
      Turn parse callback turns v line failed w (.error e, w.nextLine)
  | still : w.handle.conn.lineResult v line failed = .ok (v ++ line) →
      eqIgnoreAsciiCase (v ++ line) stillHere = true →
      Turn parse callback turns v line failed w (idleLoop parse callback turns [] w.nextLine)
  | incomplete : Taken w v line failed → parse.run (v ++ line) = .incomplete →
      Turn parse callback turns v line failed w
        (idleLoop parse callback turns (v ++ line) w.nextLine)
  | refused {e : Fault} : Taken w v line failed → parse.run (v ++ line) ≠ .incomplete →
      (∀ rest r, parse.run (v ++ line) = .ok rest r → UnsolicitedResponse.tryFrom r = none) →
      Turn parse callback turns v line failed w (.error e, w.nextLine)
  | stopped {rest : Bytes} {r : Response} {u : UnsolicitedResponse} : Taken w v line failed →
      parse.run (v ++ line) = .ok rest r → UnsolicitedResponse.tryFrom r = some u →
      Turn parse callback turns v line failed w (.ok .mailboxChanged, w.nextLine.give u)
  | given {rest : Bytes} {r : Response} {u : UnsolicitedResponse} : Taken w v line failed →
      parse.run (v ++ line) = .ok rest r → UnsolicitedResponse.tryFrom r = some u →
      Turn parse callback turns v line failed w (idleLoop parse callback turns
        ((v ++ line).drop ((v ++ line).length - rest.length)) (w.nextLine.give u))

/-- A turn takes a line and goes on, or the loop ends with it. -/
theorem Turn.goes_on_or_ends {turns : Nat} {v line : Bytes} {failed : Option ErrorKind}
    {w : Waiting σ} {r : Except Fault WaitOutcome × Waiting σ}
    (h : Turn parse callback turns v line failed w r) :
    (failed = none ∧ line ≠ [] ∧ ∃ v' w', w'.handle = w.nextLine.handle ∧
      r = idleLoop parse callback turns v' w') ∨
    (r.2.handle = w.nextLine.handle ∧ (r.1 = .ok .timedOut → failed ≠ none) ∧
      (r.1 = .error .panic → line ≠ [])) := by
  cases h with
  | timedOut hfailed =>
      refine .inr ⟨rfl, fun _ => hfailed, fun hpanic => ?_⟩
      cases hpanic
  | failed hresult =>
      refine .inr ⟨rfl, fun htimeout => ?_, fun hpanic => ?_⟩
      · cases htimeout
      · rintro rfl
        cases hpanic
        cases failed <;> simp [Connection.lineResult] at hresult
  | still hresult _ =>
      obtain ⟨hfailed, hline, -⟩ := Connection.lineResult_ok hresult
      exact .inl ⟨hfailed, hline, [], w.nextLine, rfl, rfl⟩
  | incomplete htaken _ =>
      obtain ⟨hfailed, hline, -⟩ := Connection.lineResult_ok htaken.result
      exact .inl ⟨hfailed, hline, _, w.nextLine, rfl, rfl⟩
  | refused htaken _ _ =>
      refine .inr ⟨rfl, fun htimeout => ?_, fun _ => (Connection.lineResult_ok htaken.result).2.1⟩
      cases htimeout
  | stopped _ _ _ =>
      refine .inr ⟨rfl, fun htimeout => ?_, fun hpanic => ?_⟩
      · cases htimeout
      · cases hpanic
  | given htaken _ _ =>
      obtain ⟨hfailed, hline, -⟩ := Connection.lineResult_ok htaken.result
      exact .inl ⟨hfailed, hline, _, w.nextLine.give _, rfl, rfl⟩

theorem onHandle_readline {w : Waiting σ} {line : Bytes} {failed : Option ErrorKind}
    {rest : List InEvent} (htake : takeLine LF w.handle.conn.input = (line, failed, rest))
    (v : Bytes) :
    onHandle (Handle.onConn (Connection.readline v)) w =
      (w.handle.conn.lineResult v line failed, w.nextLine) := by
  have hline := (Connection.readline_eq htake v).1
  simp only [onHandle, Exec.on, Handle.onConn_apply, hline]
  rfl

variable (parse callback) in
theorem idleLoop_turn (turns : Nat) (v : Bytes) {w : Waiting σ} {line : Bytes}
    {failed : Option ErrorKind} {rest : List InEvent}
    (htake : takeLine LF w.handle.conn.input = (line, failed, rest)) :
    Turn parse callback turns v line failed w (idleLoop parse callback (turns + 1) v w) := by
  rw [idleLoop]
  beta_reduce
  rw [onHandle_readline htake v]
  cases hresult : w.handle.conn.lineResult v line failed with
  | error e =>
      have isTimeout : ∀ k, e = .err (.io k) → failed ≠ none := by
        rintro k rfl rfl
        simp only [Connection.lineResult] at hresult
        split at hresult
        · cases hresult
        · split at hresult <;> cases hresult
      split
      · rename_i heq
        cases heq
        exact .timedOut (isTimeout _ rfl)
      · rename_i heq
        cases heq
        exact .timedOut (isTimeout _ rfl)
      · rename_i heq
        cases heq
        exact .failed hresult
      · rename_i heq
        cases heq
  | ok v' =>
      obtain ⟨rfl, -, -, rfl⟩ := Connection.lineResult_ok hresult
      simp only []
      split
      · rename_i hstill
        exact .still hresult hstill
      rename_i hstill
      have taken : Taken w v line none := ⟨hresult, by simpa using hstill⟩
      cases hrun : parse.run (v ++ line) with
      | incomplete =>
          simp only [parseIdle, hrun]
          exact .incomplete taken hrun
      | error =>
          simp only [parseIdle, hrun]
          exact .refused taken (by simp [hrun]) (by simp [hrun])
      | ok rest r =>
          cases htry : UnsolicitedResponse.tryFrom r with
          | none =>
              simp only [parseIdle, hrun, htry]
              refine .refused taken (by simp [hrun]) fun rest' r' h => ?_
              rw [hrun] at h
              cases h
              exact htry
          | some u =>
              simp only [parseIdle, hrun, htry]
              split
              · exact .stopped taken hrun htry
              · exact .given taken hrun htry

variable (peer) in
/-- The ways a wait goes on after its loop has ended. -/
theorem waitInner_cases (reconnect : Bool) (turns : Nat) {w w1 : Waiting σ}
    {r : Except Fault WaitOutcome}
    (hloop : idleLoop parse callback (w.handle.conn.stream.input.length + 1) [] w = (r, w1)) :
    waitInner peer parse callback reconnect (turns + 1) w = (r, w1) ∨
    r = .ok .timedOut ∧
      ((∃ e h2, Handle.terminate peer parse w1.handle = (.error e, h2) ∧
          waitInner peer parse callback reconnect (turns + 1) w =
            (.error e, { w1 with handle := h2 })) ∨
        ∃ h2, Handle.terminate peer parse w1.handle = (.ok (), h2) ∧
          ((∃ e h3, Handle.init peer parse h2 = (.error e, h3) ∧
              waitInner peer parse callback reconnect (turns + 1) w =
                (.error e, { w1 with handle := h3 })) ∨
            ∃ h3, Handle.init peer parse h2 = (.ok (), h3) ∧
              waitInner peer parse callback reconnect (turns + 1) w =
                waitInner peer parse callback reconnect turns { w1 with handle := h3 })) := by
  rw [waitInner]
  beta_reduce
  rw [hloop]
  split
  swap
  · exact .inl rfl
  rename_i heq
  cases heq
  refine .inr ⟨rfl, ?_⟩
  cases hterm : Handle.terminate peer parse w1.handle with
  | mk r2 h2 =>
  have step2 : onHandle (Handle.terminate peer parse) w1 = (r2, { w1 with handle := h2 }) := by
    simp only [onHandle, Exec.on, hterm]
  cases r2 with
  | error e => exact .inl ⟨e, h2, rfl, Exec.bind_error step2⟩
  | ok _ =>
  refine .inr ⟨h2, rfl, ?_⟩
  rw [Exec.bind_ok step2]
  cases hinit : Handle.init peer parse h2 with
  | mk r3 h3 =>
  have step3 : onHandle (Handle.init peer parse) { w1 with handle := h2 } =
      (r3, { w1 with handle := h3 }) := by
    simp only [onHandle, Exec.on, hinit]
  cases r3 with
  | error e => exact .inl ⟨e, h3, rfl, Exec.bind_error step3⟩
  | ok _ => exact .inr ⟨h3, rfl, Exec.bind_ok step3⟩

end Waiting

variable (peer parse) in
/-- The ways a wait goes: its `IDLE` is not confirmed, the timeout cannot be set, or it
waits and then removes the timeout. -/
theorem Handle.waitWhile_cases (callback : Callback) (turns : Nat) (h : Handle σ) :
    (∃ e h1, init peer parse h = (.error e, h1) ∧
      waitWhile peer parse callback turns h = (.error e, ⟨h1, []⟩)) ∨
    ∃ h1, init peer parse h = (.ok (), h1) ∧
      ((∃ e, waitWhile peer parse callback turns h =
          (.error e, ⟨(setReadTimeout (some h1.timeout) h1).2, []⟩)) ∨
        ∃ r w, Waiting.waitInner peer parse callback h1.keepalive turns
            ⟨(setReadTimeout (some h1.timeout) h1).2, []⟩ = (r, w) ∧
          waitWhile peer parse callback turns h =
            (r, { w with handle := (setReadTimeout none w.handle).2 })) := by
  unfold waitWhile Waiting.waitWhile
  cases hinit : init peer parse h with
  | mk r1 h1 =>
  have step1 : Waiting.onHandle (init peer parse) ⟨h, []⟩ = (r1, ⟨h1, []⟩) := by
    simp only [Waiting.onHandle, Exec.on, hinit]
  cases r1 with
  | error e => exact .inl ⟨e, h1, rfl, Exec.bind_error step1⟩
  | ok _ =>
  refine .inr ⟨h1, rfl, ?_⟩
  have get : Exec.of (fun w => ((.ok w : Except Fault (Waiting σ)), w)) ⟨h1, []⟩ =
    (.ok ⟨h1, []⟩, ⟨h1, []⟩) := rfl
  rw [Exec.bind_ok step1, Exec.bind_ok get]
  cases hset : setReadTimeout (some h1.timeout) h1 with
  | mk r2 h2 =>
  have step2 : Waiting.onHandle (setReadTimeout (some h1.timeout)) ⟨h1, []⟩ = (r2, ⟨h2, []⟩) := by
    simp only [Waiting.onHandle, Exec.on, hset]
  cases r2 with
  | error e => exact .inl ⟨e, Exec.bind_error step2⟩
  | ok _ =>
  rw [Exec.bind_ok step2]
  have keep : h2.keepalive = h1.keepalive := by
    rw [show h2 = (setReadTimeout (some h1.timeout) h1).2 by rw [hset]]
    rfl
  refine .inr ⟨_, _, rfl, ?_⟩
  simp only [Exec.of_apply, keep]
  rfl

end RustImap
