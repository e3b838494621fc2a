import RustImap.Client
import RustImap.IdleSteps
import RustImap.Intake

/-!
When a handle writes `IDLE` and `DONE`.

The handle writes `DONE` unless it has terminated an `IDLE` before and none has been
confirmed since. This is out of turn when no `IDLE` is running: after `make`, after a
server has refused the `IDLE` and after it has ended it. A second wait writes `IDLE` while
the first one is still running.
-/

namespace RustImap

variable {σ : Type} {peer : Peer σ} {parse : ParseResponse}
variable {t0 : Talk} {before : List Wire}

open UnsolicitedResponse (tryFrom)

namespace Handle

/-- No line has gone out of turn since, and if an `IDLE` is running and the handle would
terminate it, then nothing is left of a line. -/
structure InTurn (parse : ParseResponse) (t0 : Talk) (before : List Wire) (h : Handle σ)
    (t t' : Talk) : Prop where
  talk : h.conn.TalkIs parse t0 before t'
  legal : t'.legal = t.legal
  line : t'.phase.isRunning = true → h.done = false → t'.line = []

end Handle

namespace Waiting

variable {callback : Callback}

/-- What the loop hears. -/
theorem hear_line {w : Waiting σ} {t : Talk} {v line : Bytes} {failed : Option ErrorKind}
    {rest : List InEvent} (hidle : w.handle.Idling parse t0 before t v)
    (htake : takeLine LF w.handle.conn.input = (line, failed, rest)) :
    w.nextLine.handle.conn.TalkIs parse t0 before
      { t.readDuring line with phase := Phase.next parse (.running true) v line failed } := by
  have heard := hidle.talk.nextLine hidle.wbuf htake
  rwa [Talk.hear, hidle.phase] at heard

variable (callback) in
/-- The loop stays in turn, and ends with the `IDLE` running unless it fails. -/
theorem idleLoop_talk (turns : Nat) {v : Bytes} {w : Waiting σ} {t : Talk}
    (hidle : w.handle.Idling parse t0 before t v) :
    let r := idleLoop parse callback turns v w
    ∃ t', r.2.handle.conn.TalkIs parse t0 before t' ∧ t'.legal = t.legal ∧ t'.line = [] ∧
      ∀ o, r.1 = .ok o → ∃ v', r.2.handle.Idling parse t0 before t' v' := by
  induction turns generalizing v w t with
  | zero => exact ⟨t, hidle.talk, rfl, hidle.line, fun o h => by cases h⟩
  | succ turns ih =>
      obtain ⟨line, failed, rest, htake⟩ : ∃ line failed rest,
        takeLine LF w.handle.conn.input = (line, failed, rest) := ⟨_, _, _, rfl⟩
      have heard := hear_line hidle htake
      have on : ∀ v', Phase.next parse (.running true) v line failed = .running true v' →
          w.nextLine.handle.Idling parse t0 before
            { t.readDuring line with phase := .running true v' } v' := by
        intro v' hnext
        rw [hnext] at heard
        exact ⟨heard, rfl, hidle.line, hidle.wbuf, hidle.done⟩
      have turn := idleLoop_turn parse callback turns v htake
      generalize idleLoop parse callback (turns + 1) v w = r at turn ⊢
      cases turn with
      | timedOut hfailed =>
          have running := on _ (Phase.next_of_failed hfailed v line)
          exact ⟨_, running.talk, rfl, hidle.line, fun o _ => ⟨_, running⟩⟩
      | failed hresult => exact ⟨_, heard, rfl, hidle.line, fun o h => by cases h⟩
      | still hresult hstill =>
          obtain ⟨rfl, hline, -⟩ := Connection.lineResult_ok hresult
          have later := ih (on _ (Phase.next_of_still hline hstill))
          exact later
      | incomplete htaken hrun =>
          obtain ⟨rfl, hline, -⟩ := Connection.lineResult_ok htaken.result
          have later := ih (on _ (Phase.next_of_incomplete hline htaken.notStill hrun))
          exact later
      | refused htaken hrun hnone => exact ⟨_, heard, rfl, hidle.line, fun o h => by cases h⟩
      | stopped htaken hrun htry =>
          obtain ⟨rfl, hline, -⟩ := Connection.lineResult_ok htaken.result
          have running := on _
            (Phase.next_of_ok hline htaken.notStill hrun (UnsolicitedResponse.notDone_tryFrom htry))
          exact ⟨_, running.talk, rfl, hidle.line, fun o _ => ⟨_, running⟩⟩
      | @given rest r u htaken hrun htry =>
          obtain ⟨rfl, hline, -⟩ := Connection.lineResult_ok htaken.result
          have running := on _
            (Phase.next_of_ok hline htaken.notStill hrun (UnsolicitedResponse.notDone_tryFrom htry))
          have later := ih (w := w.nextLine.give u) running
          exact later

variable (peer callback) in
/-- A wait that starts with the `IDLE` running stays in turn, however often it refreshes
the `IDLE`. -/
theorem waitInner_talk (reconnect : Bool) (turns : Nat) {w : Waiting σ} {t : Talk}
    (hidle : w.handle.Idling parse t0 before t []) :
    ∃ t', (waitInner peer parse callback reconnect turns w).2.handle.InTurn
      parse t0 before t t' := by
  induction turns generalizing w t with
  | zero => exact ⟨t, hidle.talk, rfl, fun _ _ => hidle.line⟩
  | succ turns ih =>
      obtain ⟨r, w1, hloop⟩ : ∃ r w1,
        idleLoop parse callback (w.handle.conn.stream.input.length + 1) [] w = (r, w1) :=
        ⟨_, _, rfl⟩
      obtain ⟨t1, ht1, hlegal1, hline1, hrunning⟩ := idleLoop_talk callback
        (w.handle.conn.stream.input.length + 1) hidle
      rw [hloop] at ht1 hrunning
      rcases waitInner_cases peer reconnect turns hloop with hres | ⟨rfl, hcase⟩
      · rw [hres]
        exact ⟨t1, ht1, hlegal1, fun _ _ => hline1⟩
      obtain ⟨v1, hidle1⟩ := hrunning _ rfl
      obtain ⟨hdone2, t2, ht2, hkept2, hquiet2⟩ := Handle.terminate_talk peer
        (t := t1) ht1 (by rw [hidle1.phase]; rfl) hline1 hidle1.done
      rcases hcase with ⟨e, h2, hterm, hres⟩ | ⟨h2, hterm, hcase⟩
      · rw [hterm] at ht2 hdone2
        rw [hres]
        exact ⟨t2, ht2, hkept2.legal.trans hlegal1, fun _ h => by cases hdone2.symm.trans h⟩
      rw [hterm] at ht2 hdone2 hquiet2
      obtain ⟨hphase2, hline2⟩ := hquiet2 rfl
      have issued := Handle.init_talk peer ht2 (by rw [hphase2]; rfl)
        (by rw [hline2]; exact List.not_mem_nil)
      rcases hcase with ⟨e, h3, hinit, hres⟩ | ⟨h3, hinit, hres⟩
      · rw [hinit] at issued
        obtain ⟨hok, -⟩ | ⟨e', t3, -, hdone3, ht3, hsame, hline3, -⟩ := issued
        · cases hok
        rw [hres]
        have hlegal3 : t3.legal = t2.legal := by
          rcases hsame with rfl | hkept
          · rfl
          · exact hkept.legal
        exact ⟨t3, ht3, hlegal3.trans (hkept2.legal.trans hlegal1), fun h _ => hline3 h⟩
      · rw [hinit] at issued
        obtain ⟨-, hidle3⟩ | ⟨e', t3, herr, -⟩ := issued
        swap
        · cases herr
        rw [hres]
        obtain ⟨t4, hturn⟩ := ih (w := { w1 with handle := h3 }) hidle3
        exact ⟨t4, hturn.talk, hturn.legal.trans (hkept2.legal.trans hlegal1), hturn.line⟩

end Waiting

namespace Handle

theorem setReadTimeout_inTurn {h : Handle σ} {t t' : Talk} (hturn : h.InTurn parse t0 before t t')
    (timeout : Option Nat) : (setReadTimeout timeout h).2.InTurn parse t0 before t t' :=
  ⟨(setReadTimeout_talk timeout h t').mpr hturn.talk, hturn.legal, hturn.line⟩

variable (peer) in
theorem waitWhile_talk (callback : Callback) (turns : Nat) {h : Handle σ} {t : Talk}
    (ht : h.conn.TalkIs parse t0 before t) (hquiet : t.phase.isRunning = false)
    (hline : SPACE ∉ t.line) :
    ∃ t', (waitWhile peer parse callback turns h).2.handle.InTurn parse t0 before t t' := by
  have issued := init_talk peer ht hquiet hline
  rcases waitWhile_cases peer parse callback turns h with
    ⟨e, h1, hinit, hres⟩ | ⟨h1, hinit, hcase⟩
  · rw [hinit] at issued
    obtain ⟨hok, -⟩ | ⟨e', t1, -, -, ht1, hsame, hline1, -⟩ := issued
    · cases hok
    rw [hres]
    refine ⟨t1, ht1, ?_, fun h _ => hline1 h⟩
    rcases hsame with rfl | hkept
    · rfl
    · exact hkept.legal
  rw [hinit] at issued
  obtain ⟨-, hidle⟩ | ⟨e', t1, herr, -⟩ := issued
  swap
  · cases herr
  have timed := hidle.setReadTimeout (some h1.timeout)
  rcases hcase with ⟨e, hres⟩ | ⟨r, w, hwait, hres⟩
  · rw [hres]
    exact ⟨t.asked.confirm, timed.talk, rfl, fun _ _ => rfl⟩
  · obtain ⟨t', hturn⟩ := Waiting.waitInner_talk peer callback
      h1.keepalive turns (w := ⟨_, []⟩) timed
    rw [hwait] at hturn
    rw [hres]
    have turn : w.handle.InTurn parse t0 before t t' := ⟨hturn.talk, hturn.legal, hturn.line⟩
    exact ⟨t', setReadTimeout_inTurn turn none⟩

end Handle

namespace Session

/-- What has passed since the handle was made comes to `t`. What an earlier write has left in
the buffer goes out with it. -/
def Talks (parse : ParseResponse) (s : Session σ) (conn : Connection σ) (t : Talk) : Prop :=
  conn.TalkIs parse (.start .quiet) s.conn.stream.inner.wire t

/-- No `IDLE` has gone out while one was running, and no `DONE` while none was. -/
def Legal (parse : ParseResponse) (s : Session σ) (conn : Connection σ) : Prop :=
  ∃ t, s.Talks parse conn t ∧ t.legal = true

/-- An `IDLE` is running. -/
def Running (parse : ParseResponse) (s : Session σ) (conn : Connection σ) : Prop :=
  ∃ t, s.Talks parse conn t ∧ t.phase.isRunning = true

/-- No `IDLE` is running, and nothing is left of a line with a space in it. -/
def MayWait (parse : ParseResponse) (s : Session σ) (h : Handle σ) : Prop :=
  ∃ t, s.Talks parse h.conn t ∧ t.phase.isRunning = false ∧ SPACE ∉ t.line

/-- The handle has terminated its last `IDLE`, or one is running. -/
def MayDrop (parse : ParseResponse) (s : Session σ) (h : Handle σ) : Prop :=
  h.done = true ∨ s.Running parse h.conn

/-- The calls on a handle of the session; each wait starts when it may. -/
inductive Idles (peer : Peer σ) (parse : ParseResponse) (s : Session σ)
    (mayWait : Handle σ → Prop) : Handle σ → Prop
  | make : Idles peer parse s mayWait (Handle.make s)
  | timeout {h : Handle σ} (interval : Nat) : Idles peer parse s mayWait h →
      Idles peer parse s mayWait { h with timeout := interval }
  | keepalive {h : Handle σ} (keepalive : Bool) : Idles peer parse s mayWait h →
      Idles peer parse s mayWait { h with keepalive }
  | waitWhile {h : Handle σ} (callback : Callback) (turns : Nat) : Idles peer parse s mayWait h →
      mayWait h → Idles peer parse s mayWait (h.waitWhile peer parse callback turns).2.handle

/-- The discipline for a handle and for dropping it. -/
structure Disciplined (peer : Peer σ) (parse : ParseResponse) (s : Session σ) (h : Handle σ) :
    Prop where
  soFar : s.Legal parse h.conn
  dropped : s.Legal parse (h.drop peer parse).conn
  quiet : ¬s.Running parse h.conn → h.drop peer parse = h.session

theorem Idles.inTurn {s : Session σ} {h : Handle σ} (hmake : s.Legal parse s.conn)
    (run : s.Idles peer parse (s.MayWait parse) h) :
    ∃ t, s.Talks parse h.conn t ∧ t.legal = true ∧
      (t.phase.isRunning = true → h.done = false → t.line = []) := by
  induction run with
  | make =>
      obtain ⟨t, ht, hlegal⟩ := hmake
      refine ⟨t, ht, hlegal, fun hrunning _ => ?_⟩
      obtain ⟨new, hnew, rfl⟩ := ht
      obtain rfl : new = [] := List.self_eq_append_right.mp hnew
      have quiet := Talk.send_notRunning (t := .start .quiet) rfl s.conn.stream.wbuf
      cases quiet.symm.trans hrunning
  | timeout interval run ih => exact ih
  | keepalive keepalive run ih => exact ih
  | waitWhile callback turns run may ih =>
      obtain ⟨t, ht, hlegal, -⟩ := ih
      obtain ⟨t1, ht1, hquiet, hline⟩ := may
      obtain rfl := ht.unique ht1
      obtain ⟨t', hturn⟩ := Handle.waitWhile_talk peer callback turns ht hquiet hline
      exact ⟨t', hturn.talk, hturn.legal.trans hlegal, hturn.line⟩

/-- Every handle that waits only when it may is in turn, and stays so when it is dropped
when it may be. -/
theorem Idles.disciplined {s : Session σ} {h : Handle σ} (hmake : s.Legal parse s.conn)
    (run : s.Idles peer parse (s.MayWait parse) h) :
    s.Legal parse h.conn ∧ (s.MayDrop parse h → s.Disciplined peer parse h) := by
  obtain ⟨t, ht, hlegal, hline⟩ := run.inTurn hmake
  refine ⟨⟨t, ht, hlegal⟩, fun may => ?_⟩
  cases hdone : h.done with
  | true =>
      have same : h.drop peer parse = h.session := by rw [Handle.drop, Handle.terminate_done hdone]
      exact ⟨⟨t, ht, hlegal⟩, by rw [same]; exact ⟨t, ht, hlegal⟩, fun _ => same⟩
  | false =>
      obtain hdone' | ⟨t1, ht1, hrunning⟩ := may
      · cases hdone.symm.trans hdone'
      obtain rfl := ht.unique ht1
      obtain ⟨-, t', ht', hkept, -⟩ := Handle.terminate_talk peer ht hrunning
        (hline hrunning hdone) hdone
      exact ⟨⟨t, ht, hlegal⟩, ⟨t', ht', hkept.legal.trans hlegal⟩,
        fun hquiet => absurd ⟨t, ht, hrunning⟩ hquiet⟩

/-- The talk since the handle was made. -/
def talk (parse : ParseResponse) (s : Session σ) (conn : Connection σ) : Talk :=
  (conn.stream.inner.wire.drop s.conn.stream.inner.wire.length ++
    [Wire.sent conn.stream.wbuf]).foldl (Talk.step parse) (.start .quiet)

theorem Talks.talk {s : Session σ} {conn : Connection σ}
    (h : s.conn.stream.inner.wire <+: conn.stream.inner.wire) :
    s.Talks parse conn (s.talk parse conn) := by
  obtain ⟨new, hnew⟩ := h
  refine ⟨new, hnew.symm, ?_⟩
  rw [Session.talk, ← hnew, List.drop_left]

def idleMessages : List (Bytes × Response) :=
  [(utf8 "* 1 EXISTS\r\n".toList, .mailboxData (.exists_ 1)),
    (utf8 "a1 OK\r\n".toList, .done "a1".toList .ok none none)]

def idleParse : ParseResponse := Parser.table idleMessages (by decide)

theorem idleParse_framed : idleParse.Framed LF :=
  Parser.table_framed _ (by decide) (by decide)

/-- A server that confirms an `IDLE`, reports a message and lets the `IDLE` be ended. -/
def reporting : Peer Unit := fun _ bs =>
  ((), ReadEvent.chunk <| utf8 <| if bs = doneLine then "a1 OK\r\n".toList
    else "+ idling\r\n* 1 EXISTS\r\n".toList)

def idleSession : Session Unit :=
  .new <| Client.new
    { peer := (), incoming := [], writes := [], timeouts := [], readTimeout := none, wire := [] }

def waited : Handle Unit :=
  ((Handle.make idleSession).waitWhile reporting idleParse stopOnAny 1).2.handle

theorem idleSession_legal : idleSession.Legal idleParse idleSession.conn :=
  ⟨_, .talk List.prefix_rfl, by decide⟩

/-- The callback has ended the wait, and the `IDLE` that is running is terminated by the drop. -/
theorem Idles.disciplined_reporting : idleSession.Disciplined reporting idleParse waited := by
  have run : idleSession.Idles reporting idleParse (idleSession.MayWait idleParse) waited :=
    .waitWhile stopOnAny 1 .make ⟨_, .talk List.prefix_rfl, by decide, by decide⟩
  have running : idleSession.Running idleParse waited.conn :=
    ⟨_, .talk List.nil_prefix, by decide⟩
  exact (disciplined idleSession_legal run).2 (.inr running)

/-- A handle that is dropped before it has waited writes `DONE`. -/
theorem Idles.disciplined_fails :
    ¬ ∀ (peer : Peer Unit) (parse : ParseResponse) (s : Session Unit) (h : Handle Unit),
      s.Legal parse s.conn → s.Idles peer parse (fun _ => True) h → s.Disciplined peer parse h := by
  intro holds
  obtain ⟨-, ⟨t, ht, hlegal⟩, -⟩ := holds reporting idleParse idleSession _ idleSession_legal .make
  have same := ht.unique (Talks.talk (s := idleSession) (List.nil_prefix))
  have illegal : (idleSession.talk idleParse
      ((Handle.make idleSession).drop reporting idleParse).conn).legal = false := by
    decide
  rw [← same, hlegal] at illegal
  cases illegal

end Session

end RustImap
