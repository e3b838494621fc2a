import RustImap.IdleRounds
import RustImap.IdleUpdates

/-!
Which updates are lost.

A wait and the drop after it never touch the queue, and what they read outside of the loop
they read after a `DONE`. So the callback has been given what came in time, and no update is
lost exactly if all of them did.
-/

namespace RustImap

variable {parse : ParseResponse} {printable : Bytes → Bool}

namespace Handle

variable {σ α : Type} {peer : Peer σ} {t0 : Talk} {before : List Wire}
variable {queue : Queue} {debug : Bool}

/-- The queue of the session and the debug flag are these. -/
def Steady (queue : Queue) (debug : Bool) (h : Handle σ) : Prop :=
  h.session.unsolicitedResponses = queue ∧ h.conn.debug = debug

theorem onConn_steady {x : Exec (Connection σ) Fault α}
    (hx : ∀ conn, (x conn).2.debug = conn.debug) :
    Exec.Keeps (Steady queue debug) (onConn x) :=
  fun h hsteady => ⟨hsteady.1, (hx h.conn).trans hsteady.2⟩

theorem get_steady : Exec.Keeps (Steady queue debug)
    (Exec.of fun h : Handle σ => ((.ok h : Except Fault (Handle σ)), h)) :=
  fun _ hsteady => hsteady

theorem setDone_steady (done : Bool) :
    Exec.Keeps (Steady queue debug) (setDone done : Exec (Handle σ) Fault Unit) :=
  fun _ hsteady => hsteady

theorem readResponseOnto_steady (v : Bytes) :
    Exec.Keeps (Steady (σ := σ) queue debug) (onConn (Connection.readResponseOnto parse v)) := by
  refine onConn_steady fun conn => ?_
  obtain ⟨_, _, conn', -, hresult, -, hon⟩ := Connection.readResponseOnto_answer parse v conn
  rw [hresult]
  exact hon.debug

variable (parse peer) in
theorem init_steady : Exec.Keeps (Steady queue debug) (init peer parse) := by
  refine .bind (onConn_steady fun conn => ?_) fun _ => ?_
  · obtain ⟨_, -, hdebug, -⟩ := Connection.runCommand_total peer "IDLE".toList conn
    exact hdebug
  refine .bind (onConn_steady fun conn => (Connection.readOn_readline [] conn).debug) fun v => ?_
  split
  · exact setDone_steady false
  · exact .bind (readResponseOnto_steady v) fun _ => .fail _ _

variable (parse peer) in
theorem terminate_steady : Exec.Keeps (Steady queue debug) (terminate peer parse) := by
  refine .bind get_steady fun h => ?_
  split
  · refine .bind (setDone_steady true) fun _ => .bind (onConn_steady fun conn => ?_) fun _ =>
      .bind (readResponseOnto_steady []) fun _ => .pure _ _
    obtain ⟨_, -, same, -⟩ := Connection.writeLine_total peer (isUtf8_utf8 "DONE".toList) conn
    exact same.debug
  · exact .pure _ _

theorem setReadTimeout_steady (timeout : Option Nat) :
    Exec.Keeps (Steady (σ := σ) queue debug) (setReadTimeout timeout) :=
  onConn_steady fun _ => rfl

/-- A line that ends like `DONE` is not `IDLE`. -/
theorem isIdleLine_done (l : Bytes) : isIdleLine (l ++ doneLine) = false := by
  rw [isIdleLine, decide_eq_false_iff_not]
  intro heq
  have hidle : utf8 " IDLE".toList ++ [CR, LF] <:+ l ++ doneLine := by
    rw [← heq]
    exact List.dropWhile_suffix _
  have hdone := List.suffix_of_suffix_length_le (List.suffix_append l doneLine) hidle
    (by decide)
  exact absurd hdone (by decide)

theorem ends_done {t : Talk} (hline : t.phase ≠ .quiet → t.line = []) :
    (t.ends (t.line ++ doneLine)).phase = .quiet ∧
      (t.ends (t.line ++ doneLine)).rounds = t.rounds ∧
      (t.ends (t.line ++ doneLine)).round = t.round := by
  by_cases hquiet : t.phase = .quiet
  · simp only [Talk.ends, isIdleLine_done]
    split
    · exact ⟨rfl, rfl, rfl⟩
    · exact ⟨hquiet, rfl, rfl⟩
  · rw [hline hquiet, Talk.ends, if_pos (List.nil_append _)]
    exact ⟨rfl, rfl, rfl⟩

variable (peer) in
/-- Whatever a handle reads when it terminates its `IDLE`, it reads after the `DONE`. -/
theorem terminate_late {h : Handle σ} {t : Talk} (ht : h.conn.TalkIs parse t0 before t)
    (hline : h.done = false → t.phase ≠ .quiet → t.line = []) :
    ∃ t', (terminate peer parse h).2.conn.TalkIs parse t0 before t' ∧ t'.rounds = t.rounds ∧
      t'.round.during = t.round.during := by
  cases hdone : h.done with
  | true =>
      rw [terminate_done hdone]
      exact ⟨t, ht, rfl, rfl⟩
  | false =>
  obtain ⟨hphase, hrounds, hround⟩ := ends_done (hline hdone)
  obtain ⟨-, ⟨e, t', -, ht', hsame⟩ | ⟨conn, us, u, conn', ht', hempty, hon, hterm⟩⟩ :=
    terminate_sent peer ht hdone
  · refine ⟨t', ht', ?_⟩
    rcases hsame with rfl | ⟨w, rfl⟩
    · exact ⟨hrounds, congrArg Round.during hround⟩
    · exact ⟨rfl, rfl⟩
  · obtain ⟨reads, phase, -, -, hrest⟩ := ht'.heard hempty hon (by rw [hphase]; rfl)
    rw [hterm]
    have hduring := congrArg Round.during hround
    exact ⟨_, hrest, hrounds, hduring⟩

end Handle

namespace Waiting

variable {σ : Type} {peer : Peer σ} {callback : Callback} {t0 : Talk} {before : List Wire}
variable {queue : Queue} {debug : Bool}

def Steady (queue : Queue) (debug : Bool) (w : Waiting σ) : Prop := w.handle.Steady queue debug

variable (parse callback) in
theorem idleLoop_steady (turns : Nat) (v : Bytes) :
    Exec.Keeps (Steady (σ := σ) queue debug) (idleLoop parse callback turns v) := by
  intro w hsteady
  induction turns generalizing v w with
  | zero => exact hsteady
  | succ turns ih =>
      have turn := idleLoop_turn parse callback turns v
        (Connection.takeLine_input w.handle.conn)
      have next : w.nextLine.handle.Steady queue debug := hsteady
      rcases turn.goes_on_or_ends with ⟨-, -, v', w', hw', hloop⟩ | ⟨hend, -⟩
      · rw [hloop]
        apply ih v' w'
        rw [Steady, hw']
        exact next
      · rw [Steady, hend]
        exact next

variable (parse peer callback) in
theorem waitInner_steady (reconnect : Bool) (turns : Nat) :
    Exec.Keeps (Steady (σ := σ) queue debug) (waitInner peer parse callback reconnect turns) := by
  induction turns with
  | zero => exact fun _ hsteady => hsteady
  | succ turns ih =>
      intro w hsteady
      have looped := idleLoop_steady parse callback
        (w.handle.conn.stream.input.length + 1) [] w hsteady
      cases hloop : idleLoop parse callback (w.handle.conn.stream.input.length + 1) [] w with
      | mk r w1 =>
      rw [hloop] at looped
      rcases waitInner_cases peer reconnect turns hloop with hres | ⟨-, hcase⟩
      · rw [hres]
        exact looped
      have terminated := Handle.terminate_steady parse peer w1.handle looped
      rcases hcase with ⟨e, h2, hterm, hres⟩ | ⟨h2, hterm, hcase⟩
      · rw [hterm] at terminated
        rw [hres]
        exact terminated
      rw [hterm] at terminated
      have issued := Handle.init_steady parse peer h2 terminated
      rcases hcase with ⟨e, h3, hinit, hres⟩ | ⟨h3, hinit, hres⟩
      · rw [hinit] at issued
        rw [hres]
        exact issued
      · rw [hinit] at issued
        rw [hres]
        exact ih { w1 with handle := h3 } issued

/-- The callback has been given what came in time, and the `DONE` of a drop is a line. -/
structure Given (parse : ParseResponse) (printable : Bytes → Bool) (t0 : Talk)
    (before : List Wire) (w : Waiting σ) (t : Talk) : Prop where
  talk : w.handle.conn.TalkIs parse t0 before t
  heard : w.heard = t.given parse printable
  line : w.handle.done = false → t.phase ≠ .quiet → t.line = []

theorem given_issued {t t' : Talk} (h : t' = t.asked.confirm ∨ Talk.Kept t t') :
    t'.given parse printable = t.given parse printable := by
  rcases h with rfl | hkept
  · rw [Talk.given_confirm]
    exact Talk.given_of_same rfl rfl
  · exact Talk.given_of_same hkept.rounds hkept.during

variable (callback) in
/-- The loop of a wait, from the confirmation of its `IDLE` on. -/
theorem idleLoop_confirmed (hp : parse.Framed LF) {w : Waiting σ} {t : Talk}
    (hidle : w.handle.Idling parse t0 before t []) (hrounds : t.rounds ≠ [])
    (hduring : t.round.during = []) (hheard : w.heard = t.given parse w.handle.conn.printable)
    (turns : Nat) :
    let r := idleLoop parse callback turns [] w
    ∃ t', Given parse w.handle.conn.printable t0 before r.2 t' ∧ t'.line = [] ∧
      ∀ o, r.1 = .ok o → ∃ v', r.2.handle.Idling parse t0 before t' v' := by
  have start : w.Listening parse t0 before (t.given parse w.handle.conn.printable) t [] := by
    refine ⟨hidle, ?_, ?_, .inl (.inl hduring), ?_⟩
    · rw [hduring]
      rfl
    · rw [hduring]
      exact nofun
    · rw [hduring, hheard]
      exact (List.append_nil _).symm
  obtain ⟨t', ht', hsame, hgiven⟩ := idleLoop_given callback hp turns start
  obtain ⟨t1, ht1, -, hline, hrunning⟩ := idleLoop_talk callback turns hidle
  obtain rfl := ht'.unique ht1
  refine ⟨t', ⟨ht', ?_, fun _ _ => hline⟩, hline, hrunning⟩
  rw [hgiven]
  cases hcons : t.rounds with
  | nil => exact absurd hcons hrounds
  | cons first rounds =>
      have fresh : t.round.given parse w.handle.conn.printable = [] := by
        rw [Round.given, hduring]
        rfl
      rw [Talk.given_of_cons hcons, Talk.given_of_cons (hsame.trans hcons), fresh, List.append_nil]

variable (peer callback) in
theorem waitInner_given (hp : parse.Framed LF) (reconnect : Bool) (turns : Nat) {w : Waiting σ}
    {t : Talk} (hidle : w.handle.Idling parse t0 before t []) (hrounds : t.rounds ≠ [])
    (hduring : t.round.during = []) (hheard : w.heard = t.given parse w.handle.conn.printable) :
    ∃ t', Given parse w.handle.conn.printable t0 before
      (waitInner peer parse callback reconnect turns w).2 t' := by
  induction turns generalizing w t with
  | zero => exact ⟨t, hidle.talk, hheard, fun _ _ => hidle.line⟩
  | succ turns ih =>
      obtain ⟨r, w1, hloop⟩ : ∃ r w1,
        idleLoop parse callback (w.handle.conn.stream.input.length + 1) [] w = (r, w1) :=
        ⟨_, _, rfl⟩
      obtain ⟨t1, hgiven1, hline1, hrunning⟩ := idleLoop_confirmed callback hp hidle
        hrounds hduring hheard (w.handle.conn.stream.input.length + 1)
      have steady1 := idleLoop_steady parse callback
        (w.handle.conn.stream.input.length + 1) [] w ⟨rfl, rfl⟩
      rw [hloop] at hgiven1 hrunning steady1
      rcases waitInner_cases peer reconnect turns hloop with hres | ⟨rfl, hcase⟩
      · rw [hres]
        exact ⟨t1, hgiven1⟩
      obtain ⟨v1, hidle1⟩ := hrunning _ rfl
      obtain ⟨hdone2, t2, ht2, hkept2, hquiet2⟩ := Handle.terminate_talk peer
        hidle1.talk (by rw [hidle1.phase]; rfl) hline1 hidle1.done
      have steady2 := Handle.terminate_steady parse peer w1.handle steady1
      have heard2 : w1.heard = t2.given parse w.handle.conn.printable := by
        rw [hgiven1.heard, Talk.given_of_same hkept2.rounds hkept2.during]
      rcases hcase with ⟨e, h2, hterm, hres⟩ | ⟨h2, hterm, hcase⟩
      · rw [hterm] at ht2 hdone2
        rw [hres]
        exact ⟨t2, ht2, heard2, fun h => by cases hdone2.symm.trans h⟩
      rw [hterm] at ht2 hdone2 hquiet2 steady2
      obtain ⟨hphase2, hline2⟩ := hquiet2 rfl
      have issued := Handle.init_talk peer ht2 (by rw [hphase2]; rfl)
        (by rw [hline2]; exact List.not_mem_nil)
      have steady3 := Handle.init_steady parse peer h2 steady2
      rcases hcase with ⟨e, h3, hinit, hres⟩ | ⟨h3, hinit, hres⟩
      · rw [hinit] at issued
        obtain ⟨hok, -⟩ | ⟨e', t3, -, hdone3, ht3, hsame, -⟩ := issued
        · cases hok
        rw [hres]
        exact ⟨t3, ht3, heard2.trans (given_issued hsame).symm,
          fun h => by cases (hdone3.trans hdone2).symm.trans h⟩
      · rw [hinit] at issued steady3
        obtain ⟨-, hidle3⟩ | ⟨e', t3, herr, -⟩ := issued
        swap
        · cases herr
        have hprint : h3.conn.printable = w.handle.conn.printable :=
          Connection.printable_of_debug steady3.2
        have later := ih (w := { w1 with handle := h3 }) hidle3 (by simp [Talk.confirm]) rfl
          (by rw [hprint, heard2, given_issued (.inl rfl)])
        rw [hres]
        rwa [hprint] at later

end Waiting

namespace Handle

variable {σ : Type} {peer : Peer σ}

/-- A wait whose `IDLE` has been written. -/
theorem waitWhile_given (hp : parse.Framed LF) (callback : Callback) (turns : Nat) {h : Handle σ}
    {asked : Connection σ}
    (hrun : Connection.runCommand peer "IDLE".toList h.conn = (.ok (), asked)) :
    ∃ t, (waitWhile peer parse callback turns h).2.Given parse h.conn.printable
      (Talk.start (.requested true [])) asked.stream.inner.wire t := by
  have hempty : asked.stream.wbuf = [] := by
    obtain ⟨_, -, -, -, ⟨-, -, -, hempty⟩ | ⟨k, herr, -⟩⟩ :=
      Connection.runCommand_total peer "IDLE".toList h.conn
    · rwa [hrun] at hempty
    · rw [hrun] at herr
      cases herr
  have hasked : asked.TalkIs parse (.start (.requested true [])) asked.stream.inner.wire
      (Talk.start .quiet).asked := by
    refine ⟨[], (List.append_nil _).symm, ?_⟩
    rw [hempty]
    rfl
  have issued := init_asked hrun hasked hempty
  rcases waitWhile_cases peer parse callback turns h with
    ⟨e, h1, hinit, hres⟩ | ⟨h1, hinit, hcase⟩
  · rw [hinit] at issued
    obtain ⟨hok, -⟩ | ⟨e', t1, -, -, ht1, hsame, hline1⟩ := issued
    · cases hok
    rw [hres]
    refine ⟨t1, ht1, ?_, fun _ _ => hline1⟩
    rw [Waiting.given_issued hsame]
    rfl
  have steady1 := init_steady parse peer h ⟨rfl, rfl⟩
  rw [hinit] at issued steady1
  obtain ⟨-, hidle⟩ | ⟨e', t1, herr, -⟩ := issued
  swap
  · cases herr
  have timed := hidle.setReadTimeout (some h1.timeout)
  have hnone : (Talk.start .quiet).asked.confirm.given parse h.conn.printable = [] :=
    Waiting.given_issued (t := .start .quiet) (.inl rfl)
  rcases hcase with ⟨e, hres⟩ | ⟨r, w, hwait, hres⟩
  · rw [hres]
    exact ⟨_, timed.talk, hnone.symm, fun _ _ => rfl⟩
  · have hprint : (setReadTimeout (some h1.timeout) h1).2.conn.printable = h.conn.printable :=
      Connection.printable_of_debug steady1.2
    obtain ⟨t', hgiven⟩ := Waiting.waitInner_given peer callback hp
      h1.keepalive turns (w := ⟨_, []⟩) timed (by simp [Talk.confirm]) rfl
      (by rw [hprint, hnone])
    rw [hprint, hwait] at hgiven
    rw [hres]
    exact ⟨t', (setReadTimeout_talk none w.handle t').mpr hgiven.talk, hgiven.heard, hgiven.line⟩

variable (parse peer) in
/-- Neither a wait nor the drop after it touches the queue. -/
theorem waitWhile_queue (callback : Callback) (turns : Nat) (h : Handle σ) :
    ((waitWhile peer parse callback turns h).2.handle.drop peer parse).unsolicitedResponses =
      h.session.unsolicitedResponses := by
  have waited : Handle.Steady h.session.unsolicitedResponses h.conn.debug
      (waitWhile peer parse callback turns h).2.handle := by
    have steady1 := init_steady parse peer h ⟨rfl, rfl⟩
    rcases waitWhile_cases peer parse callback turns h with
      ⟨e, h1, hinit, hres⟩ | ⟨h1, hinit, ⟨e, hres⟩ | ⟨r, w, hwait, hres⟩⟩
    · rw [hres]
      rwa [hinit] at steady1
    · rw [hres]
      rw [hinit] at steady1
      exact setReadTimeout_steady (some h1.timeout) h1 steady1
    · rw [hinit] at steady1
      have steady2 := setReadTimeout_steady (some h1.timeout) h1 steady1
      have steady3 := Waiting.waitInner_steady parse peer callback h1.keepalive turns ⟨_, []⟩
        steady2
      rw [hwait] at steady3
      rw [hres]
      exact setReadTimeout_steady none w.handle steady3
  exact (terminate_steady parse peer _ waited).1

theorem roundsTo_talk {h : Handle σ} {asked conn : Connection σ} {t : Talk}
    (hrun : Connection.runCommand peer "IDLE".toList h.conn = (.ok (), asked))
    (ht : conn.TalkIs parse (.start (.requested true [])) asked.stream.inner.wire t) :
    h.roundsTo peer parse conn = t.sincePlus := by
  obtain ⟨new, hwire, rfl⟩ := ht
  simp only [roundsTo, hrun, hwire, List.drop_left]

variable (peer) in
theorem waitWhile_heard (hp : parse.Framed LF) (callback : Callback) (turns : Nat) (h : Handle σ) :
    let w := (waitWhile peer parse callback turns h).2
    w.heard = (h.roundsTo peer parse (w.handle.drop peer parse).conn).flatMap
      (Round.given parse h.conn.printable) := by
  intro w
  cases hrun : Connection.runCommand peer "IDLE".toList h.conn with
  | mk r asked =>
  cases r with
  | ok _ =>
      obtain ⟨t, hgiven⟩ := waitWhile_given hp callback turns hrun
      obtain ⟨t', ht', hrounds, hduring⟩ := terminate_late peer hgiven.talk hgiven.line
      have rounds : h.roundsTo peer parse (w.handle.drop peer parse).conn = t'.sincePlus :=
        roundsTo_talk hrun ht'
      rw [rounds, hgiven.heard]
      exact (Talk.given_of_same hrounds hduring).symm
  | error e =>
      have none_heard : w.heard = [] := by
        rcases init_cases peer parse h with ⟨e', conn, -, hinit⟩ | ⟨conn1, hok, -⟩
        · rcases waitWhile_cases peer parse callback turns h with
            ⟨_, _, -, hres⟩ | ⟨h1, hok, -⟩
          · change (waitWhile peer parse callback turns h).2.heard = []
            rw [hres]
          · cases hinit.symm.trans hok
        · cases hrun.symm.trans hok
      rw [none_heard, roundsTo, hrun]
      rfl

/-- No update is lost exactly if every accepted response that is read from the first
confirmation on is complete before the `DONE` of its round. -/
theorem losesNothing_iff (hp : parse.Framed LF) (callback : Callback) (turns : Nat)
    (h : Handle σ) :
    h.LosesNothing peer parse callback turns ↔
      ∀ r ∈ h.roundsTo peer parse
        ((h.waitWhile peer parse callback turns).2.handle.drop peer parse).conn,
        r.InTime parse h.conn.printable := by
  rw [← divided_iff_inTime hp]
  have heard := waitWhile_heard peer hp callback turns h
  have same_queue := waitWhile_queue parse peer callback turns h
  constructor
  · rintro ⟨shown, queued, hdivided, hshown, hqueue⟩
    rw [same_queue, List.self_eq_append_right] at hqueue
    subst hqueue
    exact ⟨shown, hdivided, heard.symm.trans hshown⟩
  · rintro ⟨shown, hdivided, hshown⟩
    exact ⟨shown, [], hdivided, heard.trans hshown, same_queue.trans (List.append_nil _).symm⟩

def updateMessages : List (Bytes × Response) :=
  [(utf8 "* 1 EXISTS\r\n".toList, .mailboxData (.exists_ 1)),
    (utf8 "* 2 EXISTS\r\n".toList, .mailboxData (.exists_ 2)),
    (utf8 "a1 OK\r\n".toList, .done "a1".toList .ok none none),
    (utf8 "a2 OK\r\n".toList, .done "a2".toList .ok none none)]

def updateParse : ParseResponse := Parser.table updateMessages (by decide)

theorem updateParse_framed : updateParse.Framed LF :=
  Parser.table_framed _ (by decide) (by decide)

/-- A handle with keepalive and a server whose first `IDLE` times out between two lines. It
sends the update before the timeout, or between the `DONE` and the tagged response. -/
def refreshing (before after : String) : Handle (List (List ReadEvent)) :=
  .make <| .new <| Client.new
    { peer :=
        [ReadEvent.chunk (utf8 ("+ idling\r\n" ++ before).toList) ++ [.err .timedOut],
          ReadEvent.chunk (utf8 (after ++ "a1 OK\r\n").toList),
          ReadEvent.chunk (utf8 "+ idling\r\n* 2 EXISTS\r\n".toList),
          ReadEvent.chunk (utf8 "a2 OK\r\n".toList)],
      incoming := [], writes := [], timeouts := [], readTimeout := none, wire := [] }

/-- Wait for the second update. -/
def untilSecond : Callback := fun heard => !heard.contains (.exists_ 2)

theorem losesNothing_refreshing :
    (refreshing "* 1 EXISTS\r\n" "").LosesNothing (feed scripted) updateParse untilSecond 2 :=
  (losesNothing_iff updateParse_framed untilSecond 2 _).mpr (by decide +kernel)

/-- `terminate` reads the update that the server sends when it has got `DONE`, and drops it. -/
theorem losesNothing_fails :
    ((refreshing "" "* 1 EXISTS\r\n").waitWhile (feed scripted) updateParse untilSecond 2).1 =
        .ok .mailboxChanged ∧
      ¬(refreshing "" "* 1 EXISTS\r\n").LosesNothing (feed scripted) updateParse untilSecond 2 := by
  refine ⟨by decide +kernel, ?_⟩
  rintro ⟨shown, queued, hdivided, hheard, hqueue⟩
  obtain rfl : queued = [] := by
    rw [waitWhile_queue, List.self_eq_append_right] at hqueue
    exact hqueue
  rw [hdivided.shown_all rfl] at hheard
  exact absurd hheard (by decide +kernel)

end Handle

end RustImap
