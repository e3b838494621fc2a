import RustImap.Classification
import RustImap.DebugIdle
import RustImap.Framing
import RustImap.IdleUpdates

/-!
What a wait makes of the responses it reads.

`wait_inner` looks at its vector after every line and clears it after every response. With
framed responses it gives each of them to the callback once, whatever lines they have, until
one of them ends the wait.
-/

namespace RustImap

open UnsolicitedResponse (tryFrom)

/-- What a wait makes of some responses: what its callback has been given then, how the wait
ends if one of them ends it, and the texts it has read and those it has left unread. -/
structure Dispatch where
  heard : List UnsolicitedResponse
  outcome : Option (Except Fault WaitOutcome)
  read : List Bytes
  left : List Bytes

namespace Dispatch

def after (c : Bytes) (d : Dispatch) : Dispatch := { d with read := c :: d.read }

/-- The rest of the wait. -/
def resume {S : Type} (d : Dispatch) (again : Exec S Fault WaitOutcome) :
    Exec S Fault WaitOutcome :=
  match d.outcome with
  | some result => .lift result
  | none => again

theorem resume_congr {S : Type} (d : Dispatch) {again again' : Exec S Fault WaitOutcome} {s : S}
    (h : again s = again' s) : d.resume again s = d.resume again' s := by
  unfold resume
  cases d.outcome with
  | none => exact h
  | some result => rfl

end Dispatch

/-- Every response is given to the callback, but for the keepalive message. -/
def dispatch (callback : Callback) (heard : List UnsolicitedResponse) :
    List (Bytes × Response) → Dispatch
  | [] => { heard, outcome := none, read := [], left := [] }
  | (c, r) :: responses =>
      let left := responses.map Prod.fst
      if isStillHere c then (dispatch callback heard responses).after c
      else
        match tryFrom r with
        | none => { heard, outcome := some (.error (.err (.unexpected r))), read := [c], left }
        | some u =>
            if callback (heard ++ [u]) then
              (dispatch callback (heard ++ [u]) responses).after c
            else { heard := heard ++ [u], outcome := some (.ok .mailboxChanged), read := [c], left }

section

variable {callback : Callback} {heard : List UnsolicitedResponse} {c : Bytes} {r : Response}
variable {u : UnsolicitedResponse} (responses : List (Bytes × Response))

theorem dispatch_still (hstill : isStillHere c = true) :
    dispatch callback heard ((c, r) :: responses) =
      (dispatch callback heard responses).after c := by
  simp [dispatch, hstill]

theorem dispatch_unexpected (hstill : isStillHere c = false) (htry : tryFrom r = none) :
    dispatch callback heard ((c, r) :: responses) =
      ⟨heard, some (.error (.err (.unexpected r))), [c], responses.map Prod.fst⟩ := by
  simp [dispatch, hstill, htry]

theorem dispatch_given (hstill : isStillHere c = false) (htry : tryFrom r = some u)
    (hgo : callback (heard ++ [u]) = true) :
    dispatch callback heard ((c, r) :: responses) =
      (dispatch callback (heard ++ [u]) responses).after c := by
  simp [dispatch, hstill, htry, hgo]

theorem dispatch_stopped (hstill : isStillHere c = false) (htry : tryFrom r = some u)
    (hgo : callback (heard ++ [u]) = false) :
    dispatch callback heard ((c, r) :: responses) =
      ⟨heard ++ [u], some (.ok .mailboxChanged), [c], responses.map Prod.fst⟩ := by
  simp [dispatch, hstill, htry, hgo]

variable (callback heard)

/-- The first response ends the wait, or the wait goes on to the next one. -/
theorem dispatch_cons (m : Bytes × Response) (responses : List (Bytes × Response)) :
    let first := dispatch callback heard [m]
    (first.outcome = none ∧ dispatch callback heard (m :: responses) =
      (dispatch callback first.heard responses).after m.1) ∨
    ∃ result, first.outcome = some result ∧ dispatch callback heard (m :: responses) =
      ⟨first.heard, some result, [m.1], responses.map Prod.fst⟩ := by
  intro first
  obtain ⟨c, r⟩ := m
  cases hstill : isStillHere c with
  | true =>
      simp only [first, dispatch_still _ hstill]
      exact .inl ⟨rfl, rfl⟩
  | false =>
      cases htry : tryFrom r with
      | none =>
          simp only [first, dispatch_unexpected _ hstill htry]
          exact .inr ⟨_, rfl, rfl⟩
      | some u =>
          cases hgo : callback (heard ++ [u]) with
          | true =>
              simp only [first, dispatch_given _ hstill htry hgo]
              exact .inl ⟨rfl, rfl⟩
          | false =>
              simp only [first, dispatch_stopped _ hstill htry hgo]
              exact .inr ⟨_, rfl, rfl⟩

/-- A wait that goes on has read all responses; only the callback or a response that is not
accepted ends it. -/
theorem dispatch_outcome (responses : List (Bytes × Response)) :
    let d := dispatch callback heard responses
    (d.outcome = none ∧ d.left = []) ∨ d.outcome = some (.ok .mailboxChanged) ∨
      ∃ r, d.outcome = some (.error (.err (.unexpected r))) := by
  fun_induction dispatch callback heard responses with
  | case1 heard => exact .inl ⟨rfl, rfl⟩
  | case2 heard c r responses hstill ih => exact ih
  | case3 heard c r responses left hstill htry => exact .inr (.inr ⟨r, rfl⟩)
  | case4 heard c r responses hstill u htry hgo ih => exact ih
  | case5 heard c r responses left hstill u htry hgo => exact .inr (.inl rfl)

end

/-- The keepalive message is not the beginning of a longer response. -/
def StillHereWhole (parse : ParseResponse) : Prop :=
  ∀ v, isStillHere v = true → parse.run v ≠ .incomplete

namespace Waiting

variable {σ : Type} (peer : Peer σ) (parse : ParseResponse) (callback : Callback)

/-- The loop of `wait_inner` in a debug build, which asserts that nothing is left over. -/
def assertingLoop : Nat → Bytes → Exec (Waiting σ) Fault WaitOutcome
  | 0, _ => .fail .running
  | turns + 1, v => fun w =>
      match onHandle (Handle.onConn (Connection.readline v)) w with
      | (.error (.err (.io .timedOut)), w) => (.ok .timedOut, w)
      | (.error (.err (.io .wouldBlock)), w) => (.ok .timedOut, w)
      | (.error e, w) => (.error e, w)
      | (.ok v, w) =>
          if eqIgnoreAsciiCase v stillHere then assertingLoop turns [] w
          else
            match parseIdle parse v with
            | (_, some (.error e)) => (.error (.err e), w)
            | (rest, some (.ok response)) =>
                let w := { w with heard := w.heard ++ [response] }
                if !callback w.heard then (.ok .mailboxChanged, w)
                else if rest ≠ [] then (.error .panic, w)
                else assertingLoop turns [] w
            | (_, none) => assertingLoop turns v w

/-- The wait with this connection, when the callback has been given these responses. -/
def onward (conn : Connection σ) (heard : List UnsolicitedResponse) (w : Waiting σ) : Waiting σ :=
  ⟨w.handle.withConn conn, heard⟩

/-- Of a wait that is sent these responses: it gives them to its callback and ends, or goes
on, as `dispatch` says, it has read nothing that follows, and the assertion holds. -/
def Dispatches (w : Waiting σ) (responses : List (Bytes × Response)) (more : List InEvent) :
    Prop :=
  let d := dispatch callback w.heard responses
  ∃ conn, Connection.ReadOn w.handle.conn conn ∧
    conn.input = d.left.flatten.map .item ++ more ∧
    (∀ reconnect turns, waitInner peer parse callback reconnect (turns + 1) w =
      d.resume (waitInner peer parse callback reconnect (turns + 1)) (w.onward conn d.heard)) ∧
    ∀ turns, assertingLoop parse callback turns [] w = idleLoop parse callback turns [] w

/-- What reading a response comes to. -/
def lineRead (u : UnitRead UInt8 ErrorKind Response) : Except Fault Bytes :=
  match u.stop with
  | .failed k => .error (.err (.io k))
  | .lost => .error (.err .connectionLost)
  | .refused => .error .panic
  | .rejected | .unit _ => .ok u.text

variable {parse callback} {w : Waiting σ}

theorem idleLoop_line (turns : Nat) (v : Bytes) {line : Bytes} {failed : Option ErrorKind}
    {rest : List InEvent} (htake : takeLine LF w.handle.conn.input = (line, failed, rest)) :
    idleLoop parse callback (turns + 1) v w =
      afterLine parse callback (idleLoop parse callback turns)
        (w.handle.conn.lineResult v line failed) w.nextLine := by
  rw [idleLoop_eq, Exec.next, onHandle_readline htake]

theorem afterLine_incomplete (again : Bytes → Exec (Waiting σ) Fault WaitOutcome) {v : Bytes}
    (hwhole : StillHereWhole parse) (h : parse.run v = .incomplete) :
    afterLine parse callback again (.ok v) = again v := by
  have hstill : ¬eqIgnoreAsciiCase v stillHere = true := fun hstill => hwhole v hstill h
  simp only [afterLine, if_neg hstill, parseIdle, h]

variable (callback) in
/-- The loop is the line reader. -/
theorem idleLoop_reads (hwhole : StillHereWhole parse) {guard : Bytes → Bool}
    (hguard : w.handle.conn.printable = guard) {cur : Bytes} {es : List InEvent}
    (hes : w.handle.conn.input = es) {u : UnitRead UInt8 ErrorKind Response}
    (h : UnitRun parse LF guard cur es u) :
    ∃ lines conn, Connection.ReadOn w.handle.conn conn ∧ conn.input = u.rest ∧
      ∀ turns, idleLoop parse callback (turns + lines) cur w =
        afterLine parse callback (idleLoop parse callback turns) (lineRead u)
          (w.onward conn w.heard) := by
  -- the last line is the only one after which the loop does not just read on
  have last : ∀ {cur line : Bytes} {failed : Option ErrorKind} {rest : List InEvent}
      {w : Waiting σ} {u : UnitRead UInt8 ErrorKind Response},
      takeLine LF w.handle.conn.input = (line, failed, rest) → u.rest = rest →
      w.handle.conn.lineResult cur line failed = lineRead u →
      ∃ lines conn, Connection.ReadOn w.handle.conn conn ∧ conn.input = u.rest ∧
        ∀ turns, idleLoop parse callback (turns + lines) cur w =
          afterLine parse callback (idleLoop parse callback turns) (lineRead u)
            (w.onward conn w.heard) := by
    intro cur line failed rest w u htake hrest hresult
    refine ⟨1, w.handle.conn.nextLine, Connection.readOn_nextLine _, ?_, fun turns => ?_⟩
    · rw [hrest, (Connection.readline_eq htake []).2]
    · rw [idleLoop_line turns cur htake, hresult]
      rfl
  induction h generalizing w with
  | failed htake => exact last (hes ▸ htake) rfl rfl
  | lost htake => exact last (hes ▸ htake) rfl rfl
  | refused htake hl hg =>
      refine last (hes ▸ htake) rfl ?_
      simp [Connection.lineResult, hl, hguard, hg, lineRead]
  | rejected htake hl hg _ =>
      refine last (hes ▸ htake) rfl ?_
      simp [Connection.lineResult, hl, hguard, hg, lineRead]
  | unit htake hl hg _ =>
      refine last (hes ▸ htake) rfl ?_
      simp [Connection.lineResult, hl, hguard, hg, lineRead]
  | @more cur l es rest u htake hl hg hrun _ ih =>
      subst hes
      have hprint : w.nextLine.handle.conn.printable = guard := hguard
      obtain ⟨lines, conn, hon, hin, hloop⟩ := ih hprint (Connection.readline_eq htake []).2
      refine ⟨lines + 1, conn, (Connection.readOn_nextLine _).trans hon, hin, fun turns => ?_⟩
      have hresult : w.handle.conn.lineResult cur l none = .ok (cur ++ l) := by
        simp [Connection.lineResult, hl, hguard, hg]
      rw [← Nat.add_assoc, idleLoop_line (turns + lines) cur htake, hresult,
        afterLine_incomplete _ hwhole hrun, hloop]
      rfl

/-- What the loop does with a response that is complete. -/
theorem afterLine_response {again : Bytes → Exec (Waiting σ) Fault WaitOutcome} {c : Bytes}
    {r : Response} (h : parse.Accepts c r) :
    let d := dispatch callback w.heard [(c, r)]
    afterLine parse callback again (.ok c) w =
      d.resume (again []) (w.onward w.handle.conn d.heard) := by
  have hrun : parse.run c = .ok [] r := h
  intro d
  cases hstill : isStillHere c with
  | true =>
      have heq : eqIgnoreAsciiCase c stillHere = true := hstill
      simp only [d, dispatch_still [] hstill, afterLine, if_pos heq]
      rfl
  | false =>
      have hne : ¬eqIgnoreAsciiCase c stillHere = true := Bool.eq_false_iff.mp hstill
      simp only [afterLine, if_neg hne]
      cases htry : tryFrom r with
      | none =>
          simp only [d, dispatch_unexpected [] hstill htry, parseIdle, hrun, htry]
          rfl
      | some u =>
          simp only [parseIdle, hrun, htry, Exec.bind_apply, hear]
          cases hgo : callback (w.heard ++ [u]) with
          | true =>
              simp only [d, dispatch_given [] hstill htry hgo, Bool.not_true, Bool.false_eq_true,
                if_false, List.length_nil, Nat.sub_zero, List.drop_length]
              rfl
          | false =>
              simp only [d, dispatch_stopped [] hstill htry hgo]
              rfl

variable {more : List InEvent}

variable (callback) in
/-- The loop reads a response and does with it what it has to. -/
theorem idleLoop_first (hp : parse.Framed LF) (hwhole : StillHereWhole parse) {c : Bytes}
    {r : Response} (hacc : parse.Accepts c r)
    (hin : w.handle.conn.input = c.map .item ++ more)
    (hprint : ∀ l ∈ linesOf LF c, w.handle.conn.printable l = true) :
    let d := dispatch callback w.heard [(c, r)]
    ∃ lines conn, Connection.ReadOn w.handle.conn conn ∧ conn.input = more ∧
      ∀ turns, idleLoop parse callback (turns + lines) [] w =
        d.resume (idleLoop parse callback turns []) (w.onward conn d.heard) := by
  have run := UnitRun.of_accepts hp hacc (List.nil_append c).symm hacc.ne_nil hprint more
  obtain ⟨lines, conn, hon, hrest, hloop⟩ :=
    idleLoop_reads callback hwhole rfl hin run
  refine ⟨lines, conn, hon, hrest, fun turns => ?_⟩
  rw [hloop turns]
  exact afterLine_response (w := w.onward conn w.heard) hacc

variable {responses : List (Bytes × Response)}

theorem lines_after (hp : parse.Framed LF) {c : Bytes} {r : Response} (hacc : parse.Accepts c r)
    (d : Dispatch) :
    linesOf LF (d.after c).read.flatten = linesOf LF c ++ linesOf LF d.read.flatten := by
  rw [Dispatch.after, List.flatten_cons, linesOf_append (.inr (hp.getLast? hacc))]

/-- The loop gets through the responses if the debug output does. -/
theorem idleLoop_dispatch (hp : parse.Framed LF) (hwhole : StillHereWhole parse)
    (hacc : ∀ m ∈ responses, parse.Accepts m.1 m.2)
    (hin : w.handle.conn.input = (responses.map Prod.fst).flatten.map .item ++ more)
    (hprint : ∀ l ∈ linesOf LF (dispatch callback w.heard responses).read.flatten,
      w.handle.conn.printable l = true) :
    let d := dispatch callback w.heard responses
    ∃ lines conn, Connection.ReadOn w.handle.conn conn ∧
      conn.input = d.left.flatten.map .item ++ more ∧
      ∀ turns, idleLoop parse callback (turns + lines) [] w =
        d.resume (idleLoop parse callback turns []) (w.onward conn d.heard) := by
  induction responses generalizing w with
  | nil => exact ⟨0, w.handle.conn, .refl _, hin, fun _ => rfl⟩
  | cons m responses ih =>
      obtain ⟨hm, hacc⟩ := List.forall_mem_cons.mp hacc
      rw [List.map_cons, List.flatten_cons, List.map_append, List.append_assoc] at hin
      rcases dispatch_cons callback w.heard m responses with ⟨hgo, heq⟩ | ⟨result, hend, heq⟩
      · rw [heq, lines_after hp hm] at hprint
        obtain ⟨hfirst, hlater⟩ := List.forall_mem_append.mp hprint
        obtain ⟨lines, conn, hon, hrest, hloop⟩ :=
          idleLoop_first callback hp hwhole hm hin hfirst
        have hsame := Connection.printable_of_debug hon.debug
        obtain ⟨lines', conn', hon', hrest', hloop'⟩ :=
          ih (w := w.onward conn (dispatch callback w.heard [m]).heard) hacc hrest
            (hsame ▸ hlater)
        refine ⟨lines' + lines, conn', hon.trans hon', ?_, fun turns => ?_⟩
        · rw [heq]
          exact hrest'
        · rw [heq, ← Nat.add_assoc, hloop, Dispatch.resume, hgo]
          exact hloop' turns
      · rw [heq] at hprint
        simp only [List.flatten_cons, List.flatten_nil, List.append_nil] at hprint
        obtain ⟨lines, conn, hon, hrest, hloop⟩ :=
          idleLoop_first callback hp hwhole hm hin hprint
        refine ⟨lines, conn, hon, ?_, fun turns => ?_⟩
        · rw [heq]
          exact hrest
        · rw [heq, hloop, Dispatch.resume, hend]
          rfl

/-- A line that the debug output cannot print stops the loop there. -/
theorem idleLoop_refused (hp : parse.Framed LF) (hwhole : StillHereWhole parse)
    (hacc : ∀ m ∈ responses, parse.Accepts m.1 m.2)
    (hin : w.handle.conn.input = (responses.map Prod.fst).flatten.map .item ++ more)
    (hrefused : ∃ l ∈ linesOf LF (dispatch callback w.heard responses).read.flatten,
      w.handle.conn.printable l = false) :
    ∃ lines w1, ∃ unread : Bytes, w1.handle.conn.input = unread.map .item ++ more ∧
      ∀ turns, idleLoop parse callback (turns + lines) [] w = (.error .panic, w1) := by
  induction responses generalizing w with
  | nil =>
      obtain ⟨l, hl, -⟩ := hrefused
      cases hl
  | cons m responses ih =>
      obtain ⟨hm, hacc⟩ := List.forall_mem_cons.mp hacc
      rw [List.map_cons, List.flatten_cons, List.map_append, List.append_assoc] at hin
      by_cases hfirst : ∃ l ∈ linesOf LF m.1, w.handle.conn.printable l = false
      · obtain ⟨text, left, run⟩ :=
          UnitRun.of_refused hp hm (List.nil_append m.1).symm hm.ne_nil hfirst
            ((responses.map Prod.fst).flatten.map .item ++ more)
        obtain ⟨lines, conn, -, hrest, hloop⟩ :=
          idleLoop_reads callback hwhole rfl hin run
        refine ⟨lines, w.onward conn w.heard, left ++ (responses.map Prod.fst).flatten, ?_, hloop⟩
        rw [List.map_append, List.append_assoc]
        exact hrest
      · have hprint : ∀ l ∈ linesOf LF m.1, w.handle.conn.printable l = true := by
          intro l hl
          by_contra hnot
          exact hfirst ⟨l, hl, Bool.eq_false_iff.mpr hnot⟩
        obtain ⟨lines, conn, hon, hrest, hloop⟩ :=
          idleLoop_first callback hp hwhole hm hin hprint
        have hsame := Connection.printable_of_debug hon.debug
        obtain ⟨l, hl, hno⟩ := hrefused
        rcases dispatch_cons callback w.heard m responses with ⟨hgo, heq⟩ | ⟨result, -, heq⟩
        · rw [heq, lines_after hp hm, List.mem_append] at hl
          have hlater := hl.resolve_left fun hl => hfirst ⟨l, hl, hno⟩
          obtain ⟨lines', w1, unread, hunread, hloop'⟩ :=
            ih (w := w.onward conn (dispatch callback w.heard [m]).heard) hacc hrest
              ⟨l, hlater, hsame ▸ hno⟩
          refine ⟨lines' + lines, w1, unread, hunread, fun turns => ?_⟩
          rw [← Nat.add_assoc, hloop, Dispatch.resume, hgo]
          exact hloop' turns
        · rw [heq] at hl
          simp only [List.flatten_cons, List.flatten_nil, List.append_nil] at hl
          exact absurd ⟨l, hl, hno⟩ hfirst

theorem afterLine_congr {again again' : Bytes → Exec (Waiting σ) Fault WaitOutcome}
    (h : ∀ v heard, again v (w.onward w.handle.conn heard) = again' v (w.onward w.handle.conn heard))
    (r : Except Fault Bytes) :
    afterLine parse callback again r w = afterLine parse callback again' r w := by
  cases r with
  | error e =>
      cases e with
      | err e =>
          cases e with
          | io k => cases k <;> rfl
          | _ => rfl
      | panic | running => rfl
  | ok v =>
      simp only [afterLine]
      split
      · exact h [] w.heard
      · cases parseIdle parse v with
        | mk rest result =>
            cases result with
            | none => exact h v w.heard
            | some result =>
                cases result with
                | error e => rfl
                | ok response =>
                    simp only [Exec.bind_apply, hear]
                    split
                    · rfl
                    · exact h _ _

theorem nextLine_shorter {line : Bytes} {failed : Option ErrorKind} {rest : List InEvent}
    (htake : takeLine LF w.handle.conn.input = (line, failed, rest)) (hline : line ≠ []) :
    w.nextLine.handle.conn.input.length < w.handle.conn.input.length := by
  have hrest : w.nextLine.handle.conn.input = rest := (Connection.readline_eq htake []).2
  rw [hrest]
  exact takeLine_shrinks_of htake hline

/-- A loop that panics has taken a line. -/
theorem idleLoop_panic {turns : Nat} {v : Bytes} {w1 : Waiting σ}
    (h : idleLoop parse callback turns v w = (.error .panic, w1)) :
    w1.handle.conn.input.length < w.handle.conn.input.length := by
  induction turns generalizing v w with
  | zero => cases h
  | succ turns ih =>
      obtain ⟨line, failed, rest, htake⟩ : ∃ line failed rest,
        takeLine LF w.handle.conn.input = (line, failed, rest) := ⟨_, _, _, rfl⟩
      have turn := idleLoop_turn parse callback turns v htake
      rw [h] at turn
      rcases turn.goes_on_or_ends with ⟨-, hline, v', w', hw', hloop⟩ | ⟨hend, -, hline⟩
      · have later := ih hloop.symm
        rw [hw'] at later
        exact later.trans (nextLine_shorter htake hline)
      · rw [hend]
        exact nextLine_shorter htake (hline rfl)

/-- Turns that the loop cannot use up make no difference. -/
theorem idleLoop_enough {turns turns' : Nat} (v : Bytes)
    (h : w.handle.conn.input.length < turns) (h' : w.handle.conn.input.length < turns') :
    idleLoop parse callback turns v w = idleLoop parse callback turns' v w := by
  induction turns generalizing turns' v w with
  | zero => omega
  | succ turns ih =>
      cases turns' with
      | zero => omega
      | succ turns' =>
          obtain ⟨line, failed, rest, htake⟩ : ∃ line failed rest,
            takeLine LF w.handle.conn.input = (line, failed, rest) := ⟨_, _, _, rfl⟩
          rw [idleLoop_line turns v htake, idleLoop_line turns' v htake]
          by_cases hline : line = []
          · cases failed with
            | some k => cases k <;> rfl
            | none => simp [Connection.lineResult, hline, afterLine]
          · have hshorter := nextLine_shorter htake hline
            refine afterLine_congr (fun v heard => ih v ?_ ?_) _
            · exact Nat.lt_of_lt_of_le hshorter (Nat.le_of_lt_succ h)
            · exact Nat.lt_of_lt_of_le hshorter (Nat.le_of_lt_succ h')

/-- A wait goes on as its first loop does. -/
theorem waitInner_resume {d : Dispatch} (houtcome : d.outcome ≠ some (.ok .timedOut))
    {w' : Waiting σ}
    (hloop : idleLoop parse callback (w.handle.conn.stream.input.length + 1) [] w =
      d.resume (idleLoop parse callback (w'.handle.conn.stream.input.length + 1) []) w')
    (reconnect : Bool) (turns : Nat) :
    waitInner peer parse callback reconnect (turns + 1) w =
      d.resume (waitInner peer parse callback reconnect (turns + 1)) w' := by
  rw [waitInner_eq, Exec.next, Exec.of_apply, hloop]
  cases hd : d.outcome with
  | none =>
      simp only [Dispatch.resume, hd]
      rw [Exec.next, Exec.of_apply]
  | some result =>
      simp only [Dispatch.resume, hd, Exec.lift_apply]
      cases reconnect with
      | false => rfl
      | true =>
          cases result with
          | error e => rfl
          | ok outcome =>
              cases outcome with
              | mailboxChanged => rfl
              | timedOut => exact absurd hd houtcome

/-- A debug build does not stop at its assertion. -/
theorem assertingLoop_eq (hp : parse.Framed LF) (turns : Nat) {v : Bytes}
    (hv : v = [] ∨ parse.run v = .incomplete) (w : Waiting σ) :
    assertingLoop parse callback turns v w = idleLoop parse callback turns v w := by
  induction turns generalizing v w with
  | zero => rfl
  | succ turns ih =>
      obtain ⟨line, failed, rest, htake⟩ : ∃ line failed rest,
        takeLine LF w.handle.conn.input = (line, failed, rest) := ⟨_, _, _, rfl⟩
      rw [assertingLoop, idleLoop]
      beta_reduce
      rw [onHandle_readline htake v]
      cases hresult : w.handle.conn.lineResult v line failed with
      | error e =>
          cases e with
          | err e =>
              cases e with
              | io k => cases k <;> rfl
              | _ => rfl
          | panic | running => rfl
      | ok v' =>
          obtain ⟨rfl, hne, -, rfl⟩ := Connection.lineResult_ok hresult
          by_cases hstill : eqIgnoreAsciiCase (v ++ line) stillHere = true
          · simp only [if_pos hstill]
            exact ih (.inl rfl) _
          · simp only [if_neg hstill]
            cases hrun : parse.run (v ++ line) with
            | incomplete =>
                simp only [parseIdle, hrun]
                exact ih (.inr hrun) _
            | error => simp only [parseIdle, hrun]
            | ok rest' r =>
                -- the vector held no response before this line, so the line ends it
                have hacc : parse.Accepts (v ++ line) r :=
                  Scan.Ready.accepts (s := ⟨v, []⟩) hp hv (takeLine_line htake hne).1 hrun
                rw [Parser.Accepts, hrun] at hacc
                cases hacc
                cases htry : tryFrom r with
                | none => simp only [parseIdle, hrun, htry]
                | some u =>
                    simp only [parseIdle, hrun, htry]
                    split
                    · rfl
                    · simp only [ne_eq, not_true_eq_false, if_false, List.length_nil,
                        Nat.sub_zero, List.drop_length]
                      exact ih (.inl rfl) _

theorem dispatches_of_printable (hp : parse.Framed LF) (hwhole : StillHereWhole parse)
    (hacc : ∀ m ∈ responses, parse.Accepts m.1 m.2)
    (hin : w.handle.conn.input = (responses.map Prod.fst).flatten.map .item ++ more)
    (hprint : ∀ l ∈ linesOf LF (dispatch callback w.heard responses).read.flatten,
      w.handle.conn.printable l = true) :
    Dispatches peer parse callback w responses more := by
  obtain ⟨lines, conn, hon, hrest, hloop⟩ := idleLoop_dispatch hp hwhole hacc hin hprint
  refine ⟨conn, hon, hrest, ?_, fun turns => assertingLoop_eq hp turns (.inl rfl) w⟩
  have hless : conn.input.length ≤ w.handle.conn.input.length := by
    obtain ⟨reads, -, hreads⟩ := hon.wire
    rw [hreads, List.length_append]
    exact Nat.le_add_left _ _
  have houtcome : (dispatch callback w.heard responses).outcome ≠ some (.ok .timedOut) := by
    rcases dispatch_outcome callback w.heard responses with ⟨h, -⟩ | h | ⟨r, h⟩ <;> simp [h]
  apply waitInner_resume peer houtcome
  calc idleLoop parse callback (w.handle.conn.input.length + 1) [] w
      = idleLoop parse callback (w.handle.conn.input.length + 1 + lines) [] w :=
        idleLoop_enough [] (by omega) (by omega)
    _ = _ := hloop (w.handle.conn.input.length + 1)
    _ = _ := Dispatch.resume_congr _
        (idleLoop_enough [] (Nat.lt_succ_of_le hless) (Nat.lt_succ_self _))

theorem printable_of_dispatches (hp : parse.Framed LF) (hwhole : StillHereWhole parse)
    (hacc : ∀ m ∈ responses, parse.Accepts m.1 m.2)
    (hin : w.handle.conn.input = (responses.map Prod.fst).flatten.map .item ++ more)
    (h : Dispatches peer parse callback w responses more) :
    ∀ l ∈ linesOf LF (dispatch callback w.heard responses).read.flatten,
      w.handle.conn.printable l = true := by
  intro l hl
  by_contra hnot
  obtain ⟨lines, w1, unread, hunread, hpanic⟩ :=
    idleLoop_refused hp hwhole hacc hin ⟨l, hl, Bool.eq_false_iff.mpr hnot⟩
  obtain ⟨conn, hon, hrest, hwait, -⟩ := h
  have panics : waitInner peer parse callback false 1 w = (.error .panic, w1) := by
    rw [← hpanic (w.handle.conn.input.length + 1)]
    exact idleLoop_enough [] (Nat.lt_succ_self _) (by omega)
  rw [hwait false 0] at panics
  rcases dispatch_outcome callback w.heard responses with ⟨hgo, hleft⟩ | hend | ⟨r, hend⟩
  · -- the wait would have to take another line to panic
    rw [Dispatch.resume, hgo] at panics
    have shorter := idleLoop_panic panics
    change w1.handle.conn.input.length < conn.input.length at shorter
    rw [hunread, hrest, hleft] at shorter
    simp only [List.length_append, List.flatten_nil, List.map_nil, List.length_nil] at shorter
    omega
  · rw [Dispatch.resume, hend] at panics
    cases panics
  · rw [Dispatch.resume, hend] at panics
    cases panics

/-- The dispatch is exact when no response up to the one that ends the wait has a line that
the debug output cannot print. Without debug output it always is. -/
theorem dispatches_iff (hp : parse.Framed LF) (hwhole : StillHereWhole parse)
    (hacc : ∀ m ∈ responses, parse.Accepts m.1 m.2)
    (hin : w.handle.conn.input = (responses.map Prod.fst).flatten.map .item ++ more) :
    Dispatches peer parse callback w responses more ↔
      (w.handle.conn.debug = true →
        ∀ l ∈ linesOf LF (dispatch callback w.heard responses).read.flatten, 2 ≤ l.length) := by
  constructor
  · intro h hdebug l hl
    have hprint := printable_of_dispatches peer hp hwhole hacc hin h l hl
    exact Connection.printable_eq_true.mp hprint hdebug
  · intro h
    apply dispatches_of_printable peer hp hwhole hacc hin
    intro l hl
    exact Connection.printable_eq_true.mpr fun hdebug => h hdebug l hl

def sentResponses : List (Bytes × Response) :=
  [(stillHere, .data .ok none (some "Still here".toList)),
    (Connection.literalFetch, .fetch 1 [.other "BODY[]".toList [LF]]),
    (utf8 "* 1 EXISTS\r\n".toList, .mailboxData (.exists_ 1))]

def sentParse : ParseResponse := Parser.table sentResponses (by decide)

theorem sentParse_framed : sentParse.Framed LF :=
  Parser.table_framed _ (by decide) (by decide)

theorem sentParse_whole : StillHereWhole sentParse := by
  intro v hstill hrun
  obtain ⟨m, hm, hpre⟩ := Parser.table_incomplete (by decide) hrun
  have hlength : v.length = stillHere.length := by
    have same : v.map asciiLower = stillHere.map asciiLower := of_decide_eq_true hstill
    simpa using congrArg List.length same
  obtain rfl : v = m.1.take stillHere.length := by
    rw [← hlength]
    exact List.prefix_iff_eq_take.mp hpre
  have each : ∀ m ∈ sentResponses, isStillHere (m.1.take stillHere.length) = true →
      sentParse.run (m.1.take stillHere.length) ≠ .incomplete := by
    decide
  exact each m hm hstill hrun

theorem sentParse_accepts : ∀ m ∈ sentResponses, sentParse.Accepts m.1 m.2 := by
  have each : ∀ m ∈ sentResponses, sentParse.run m.1 = .ok [] m.2 := by decide
  exact each

/-- A wait that has been sent these responses. -/
def sentWaiting (debug : Bool) : Waiting Unit where
  handle := .make
    { conn := Connection.reading (sentResponses.map Prod.fst).flatten debug
      unsolicitedResponses := [] }
  heard := []

def stopOnSecond : Callback := fun heard => heard.length < 2

theorem dispatches_iff_sent :
    Dispatches Connection.silent sentParse stopOnSecond (sentWaiting false) sentResponses [] :=
  (dispatches_iff Connection.silent sentParse_framed sentParse_whole sentParse_accepts
    (by decide)).mpr fun hdebug => by cases hdebug

/-- The literal in the second response has a line of one byte. -/
theorem dispatches_fails :
    ¬ ∀ (peer : Peer Unit) (parse : ParseResponse) (callback : Callback) (w : Waiting Unit)
      (responses : List (Bytes × Response)) (more : List InEvent),
      parse.Framed LF → StillHereWhole parse →
      (∀ m ∈ responses, parse.Accepts m.1 m.2 ∧ m.2.isDone = false) →
      w.handle.conn.input = (responses.map Prod.fst).flatten.map .item ++ more →
      Dispatches peer parse callback w responses more := by
  intro h
  have untagged : ∀ m ∈ sentResponses, m.2.isDone = false := by decide
  have hin : (sentWaiting true).handle.conn.input =
      (sentResponses.map Prod.fst).flatten.map .item ++ [] := by
    decide
  have dispatched := h Connection.silent sentParse stopOnSecond (sentWaiting true) sentResponses []
    sentParse_framed sentParse_whole
    (fun m hm => ⟨sentParse_accepts m hm, untagged m hm⟩) hin
  have printed := printable_of_dispatches Connection.silent sentParse_framed sentParse_whole
    sentParse_accepts hin dispatched [LF] (by decide)
  cases printed

end Waiting

end RustImap
