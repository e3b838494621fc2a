import RustImap.IdleRounds

/-!
Where the client stands in the stream after a wait.

A wait with keepalive goes through a round for every refresh, and the drop terminates the
last `IDLE`. All of them leave the client in step with the server as long as every read that
times out does so where the rest of the answer can be read as an answer.
-/

namespace RustImap

open IdleRound (script)

variable {σ : Type} (peer : Peer σ) (parse : ParseResponse) (callback : Callback)

/-- The loop of a wait that starts in `w` times out, after `n` refreshes, with this handle. -/
inductive Waiting.TimesOut : Nat → Waiting σ → Handle σ → Prop
  | now {w w1 : Waiting σ} :
      idleLoop parse callback (w.handle.conn.stream.input.length + 1) [] w = (.ok .timedOut, w1) →
      TimesOut 0 w w1.handle
  | later {n : Nat} {w w1 : Waiting σ} {h2 h3 h : Handle σ} :
      idleLoop parse callback (w.handle.conn.stream.input.length + 1) [] w = (.ok .timedOut, w1) →
      Handle.terminate peer parse w1.handle = (.ok (), h2) →
      Handle.init peer parse h2 = (.ok (), h3) →
      TimesOut n { w1 with handle := h3 } h → TimesOut (n + 1) w h

namespace Handle

/-- A wait on `h0` and the drop after it terminate the `IDLE` number `n`, which has timed
out, with the handle `h`: a refresh does, or the drop. -/
inductive Terminates (h0 : Handle σ) : Nat → Handle σ → Prop
  | refresh {n : Nat} {h1 h2 h : Handle σ} : init peer parse h0 = (.ok (), h1) →
      setReadTimeout (some h1.timeout) h1 = (.ok (), h2) → h2.keepalive = true →
      Waiting.TimesOut peer parse callback n ⟨h2, []⟩ h → Terminates h0 n h
  | drop {h1 h2 h : Handle σ} : init peer parse h0 = (.ok (), h1) →
      setReadTimeout (some h1.timeout) h1 = (.ok (), h2) → h2.keepalive = false →
      Waiting.TimesOut peer parse callback 0 ⟨h2, []⟩ h →
      Terminates h0 0 (setReadTimeout none h).2

end Handle

variable {peer parse callback}

/-- After `n` refreshes that kept the framing the server plays the round number `n`. -/
theorem Waiting.TimesOut.playing {parse : ParseResponse} (hp : parse.Framed LF) {n : Nat}
    {more : List (List ReadEvent)} {w : Waiting (List (List ReadEvent))}
    {h : Handle (List (List ReadEvent))}
    (htimes : TimesOut (feed scripted) parse callback n w h) {r : IdleRound}
    {rounds : List IdleRound} {tag : UInt32} {debug : Bool}
    (hplay : w.handle.Playing r (script rounds more) tag debug
      (r.before.map .item ++ [.fail r.kind]))
    (hr : r.Plays) (hrounds : ∀ x ∈ rounds, x.Plays)
    (hresumes : ∀ m x, m < n → (r :: rounds)[m]? = some x →
      x.Resumes parse debug (tag + UInt32.ofNat m))
    {x : IdleRound} (hx : (r :: rounds)[n]? = some x) :
    h.Playing x (script ((r :: rounds).drop (n + 1)) more) (tag + UInt32.ofNat n) debug [] := by
  induction htimes generalizing r rounds tag with
  | @now w w1 hloop =>
      obtain rfl : r = x := by simpa using hx
      simpa using hplay.idleLoop hloop
  | @later n w w1 h2 h3 h hloop hterm hinit _ ih =>
      have hplay1 := hplay.idleLoop hloop
      have hkeeps := (hplay1.keepsFraming_iff hp (hplay1.sends_of_terminate hterm)).mpr
        (by simpa using hresumes 0 r (Nat.succ_pos n) rfl)
      have hrests := hplay1.rests hterm hkeeps
      rw [List.getElem?_cons_succ] at hx
      cases rounds with
      | nil => cases hx
      | cons r' rounds =>
          have hrounds' := List.forall_mem_cons.mp hrounds
          have hplay2 : h3.Playing r' (script rounds more) (tag + 1) debug
              (r'.before.map .item ++ [.fail r'.kind]) := hrests.init hr.extra hrounds'.1 hinit
          have tag_succ : ∀ m : Nat, tag + 1 + UInt32.ofNat m = tag + UInt32.ofNat (m + 1) := by
            intro m
            rw [UInt32.ofNat_add, UInt32.add_comm (UInt32.ofNat m), ← UInt32.add_assoc]
            rfl
          have later := ih (r := r') hplay2 hrounds'.1 hrounds'.2 (fun m x hm hmx => by
            rw [tag_succ]
            exact hresumes (m + 1) x (Nat.succ_lt_succ hm) hmx) hx
          rwa [tag_succ] at later

/-- The `IDLE`s before the last one were terminated without an error. -/
theorem Waiting.TimesOut.earlier {n m : Nat} {w : Waiting σ} {h : Handle σ}
    (htimes : TimesOut peer parse callback n w h) (hm : m < n) :
    ∃ hm h2, TimesOut peer parse callback m w hm ∧
      Handle.terminate peer parse hm = (.ok (), h2) := by
  induction htimes generalizing m with
  | now hloop => cases hm
  | later hloop hterm hinit htimes ih =>
      cases m with
      | zero => exact ⟨_, _, .now hloop, hterm⟩
      | succ m =>
          obtain ⟨hm', h2, htimes', hterm'⟩ := ih (Nat.lt_of_succ_lt_succ hm)
          exact ⟨hm', h2, .later hloop hterm hinit htimes', hterm'⟩

namespace Handle

theorem Terminates.earlier {n m : Nat} {h0 h : Handle σ}
    (hends : Terminates peer parse callback h0 n h) (hm : m < n) :
    ∃ hm h2, Terminates peer parse callback h0 m hm ∧ terminate peer parse hm = (.ok (), h2) := by
  cases hends with
  | drop => cases hm
  | refresh hinit hset hkeep htimes =>
      obtain ⟨hm', h2, htimes', hterm⟩ := htimes.earlier hm
      exact ⟨hm', h2, .refresh hinit hset hkeep htimes', hterm⟩

theorem Terminates.playing (hp : parse.Framed LF) {n : Nat} {rounds : List IdleRound}
    {more : List (List ReadEvent)} {h0 h : Handle (List (List ReadEvent))} {tag : UInt32}
    {debug : Bool} (hends : Terminates (feed scripted) parse callback h0 n h)
    (hrests : Rests [] (script rounds more) tag debug h0) (hrounds : ∀ x ∈ rounds, x.Plays)
    (hresumes : ∀ m x, m < n → rounds[m]? = some x →
      x.Resumes parse debug (tag + 1 + UInt32.ofNat m))
    {x : IdleRound} (hx : rounds[n]? = some x) :
    h.Playing x (script (rounds.drop (n + 1)) more) (tag + 1 + UInt32.ofNat n) debug [] := by
  cases rounds with
  | nil => cases hx
  | cons r rounds =>
      have hrounds' := List.forall_mem_cons.mp hrounds
      have started {h1 h2 : Handle (List (List ReadEvent))}
          (hinit : init (feed scripted) parse h0 = (.ok (), h1))
          (hset : Handle.setReadTimeout (some h1.timeout) h1 = (.ok (), h2)) :
          h2.Playing r (script rounds more) (tag + 1) debug
            (r.before.map .item ++ [.fail r.kind]) := by
        have hplay : h1.Playing r (script rounds more) (tag + 1) debug
            (r.before.map .item ++ [.fail r.kind]) := hrests.init (by simp) hrounds'.1 hinit
        have later := hplay.setReadTimeout (some h1.timeout)
        rwa [hset] at later
      cases hends with
      | refresh hinit hset _ htimes =>
          exact htimes.playing hp (started hinit hset) hrounds'.1 hrounds'.2 hresumes hx
      | drop hinit hset _ htimes =>
          have playing := htimes.playing hp (started hinit hset) hrounds'.1 hrounds'.2 hresumes hx
          exact playing.setReadTimeout none

/-- Every `IDLE` that times out is terminated in step with the server exactly if the answer
can be resumed wherever an `IDLE` times out. -/
theorem wait_framing (hp : parse.Framed LF) {rounds : List IdleRound}
    {more : List (List ReadEvent)} {h0 : Handle (List (List ReadEvent))}
    (hempty : h0.conn.stream.wbuf = []) (hinput : h0.conn.input = [])
    (hpeer : h0.conn.stream.inner.peer = script rounds more) (hrounds : ∀ x ∈ rounds, x.Plays) :
    (∀ n x h, rounds[n]? = some x → Terminates (feed scripted) parse callback h0 n h →
      SendsDone (feed scripted) h → KeepsFraming (feed scripted) parse x.extra h) ↔
    ∀ n x h, rounds[n]? = some x → Terminates (feed scripted) parse callback h0 n h →
      SendsDone (feed scripted) h →
      x.Resumes parse h0.conn.debug (h0.conn.tag + 1 + UInt32.ofNat n) := by
  have hrests : Rests [] (script rounds more) h0.conn.tag h0.conn.debug h0 :=
    ⟨hempty, hinput, hpeer, rfl, rfl⟩
  -- by induction on the number of the round: the rounds before it were resumed
  have playing : ∀ n, (∀ m x h, m < n → rounds[m]? = some x →
      Terminates (feed scripted) parse callback h0 m h → SendsDone (feed scripted) h →
      x.Resumes parse h0.conn.debug (h0.conn.tag + 1 + UInt32.ofNat m)) →
      ∀ x h, rounds[n]? = some x → Terminates (feed scripted) parse callback h0 n h →
        h.Playing x (script (rounds.drop (n + 1)) more) (h0.conn.tag + 1 + UInt32.ofNat n)
          h0.conn.debug [] := by
    intro n
    induction n using Nat.strong_induction_on with
    | _ n ih =>
        intro hbefore x h hx hends
        refine hends.playing hp hrests hrounds (fun m y hm hy => ?_) hx
        obtain ⟨hm', h2, hends', hterm⟩ := hends.earlier hm
        have hplay := ih m hm (fun k z g hk => hbefore k z g (hk.trans hm)) y hm' hy hends'
        exact hbefore m y hm' hm hy hends' (hplay.sends_of_terminate hterm)
  constructor
  · intro hkeeps n
    induction n using Nat.strong_induction_on with
    | _ n ih =>
        intro x h hx hends hsends
        have hplay := playing n (fun m y g hm => ih m hm y g) x h hx hends
        exact (hplay.keepsFraming_iff hp hsends).mp (hkeeps n x h hx hends hsends)
  · intro hresumes n x h hx hends hsends
    have hplay := playing n (fun m y g _ => hresumes m y g) x h hx hends
    exact (hplay.keepsFraming_iff hp hsends).mpr (hresumes n x h hx hends hsends)

end Handle

/-- A loop that times out ends a wait without keepalive. -/
theorem Waiting.waitInner_false (turns : Nat) (w : Waiting σ) :
    waitInner peer parse callback false (turns + 1) w =
      idleLoop parse callback (w.handle.conn.stream.input.length + 1) [] w := by
  rw [waitInner]

/-- With keepalive it refreshes the `IDLE`. -/
theorem Waiting.waitInner_timedOut (turns : Nat) {w w1 : Waiting σ}
    (hloop : idleLoop parse callback (w.handle.conn.stream.input.length + 1) [] w =
      (.ok .timedOut, w1)) :
    waitInner peer parse callback true (turns + 1) w =
      (do
        onHandle (Handle.terminate peer parse)
        onHandle (Handle.init peer parse)
        waitInner peer parse callback true turns) w1 := by
  rw [waitInner]
  beta_reduce
  rw [hloop]

theorem Waiting.waitInner_true_ne (turns : Nat) (w : Waiting σ) :
    (waitInner peer parse callback true turns w).1 ≠ .ok .timedOut := by
  induction turns generalizing w with
  | zero => exact nofun
  | succ turns ih =>
      cases hloop : idleLoop parse callback (w.handle.conn.stream.input.length + 1) [] w with
      | mk r w1 =>
      by_cases hr : r = .ok .timedOut
      · subst hr
        rw [waitInner_timedOut turns hloop]
        cases hterm : onHandle (Handle.terminate peer parse) w1 with
        | mk r2 w2 =>
        cases r2 with
        | error e => rw [Exec.bind_error hterm]; exact nofun
        | ok u =>
        cases hinit : onHandle (Handle.init peer parse) w2 with
        | mk r3 w3 =>
        cases r3 with
        | error e => rw [Exec.bind_ok hterm, Exec.bind_error hinit]; exact nofun
        | ok u =>
            rw [Exec.bind_ok hterm, Exec.bind_ok hinit]
            exact ih w3
      · rw [waitInner]
        beta_reduce
        rw [hloop]
        split
        · rename_i heq
          cases heq
          exact absurd rfl hr
        · exact hr

/-- The wait comes to the refreshes that time out. -/
theorem Waiting.TimesOut.reached {n : Nat} {w : Waiting σ} {h : Handle σ}
    (htimes : TimesOut peer parse callback n w h) :
    ∃ heard, ∀ turns, waitInner peer parse callback true (n + 1 + turns) w =
      (do
        onHandle (Handle.terminate peer parse)
        onHandle (Handle.init peer parse)
        waitInner peer parse callback true turns) ⟨h, heard⟩ := by
  induction htimes with
  | @now w w1 hloop =>
      refine ⟨w1.heard, fun turns => ?_⟩
      rw [show 0 + 1 + turns = turns + 1 by omega, waitInner_timedOut turns hloop]
  | @later n w w1 h2 h3 h hloop hterm hinit _ ih =>
      obtain ⟨heard, ih⟩ := ih
      refine ⟨heard, fun turns => ?_⟩
      rw [show n + 1 + 1 + turns = n + 1 + turns + 1 by omega, waitInner_timedOut _ hloop,
        ← ih turns]
      have step2 : onHandle (Handle.terminate peer parse) w1 =
          (.ok (), { w1 with handle := h2 }) := by
        simp only [onHandle, Exec.on, hterm]
      have step3 : onHandle (Handle.init peer parse) { w1 with handle := h2 } =
          (.ok (), { w1 with handle := h3 }) := by
        simp only [onHandle, Exec.on, hinit]
      rw [Exec.bind_ok step2, Exec.bind_ok step3]

/-- A wait that has returned with a timeout is terminated by the drop. -/
theorem Handle.Terminates.of_returned {turns : Nat} {h0 : Handle σ}
    (h : (waitWhile peer parse callback turns h0).1 = .ok .timedOut) :
    Terminates peer parse callback h0 0 (waitWhile peer parse callback turns h0).2.handle := by
  have on_handle : ∀ {x : Exec (Handle σ) Fault Unit} {w w' : Waiting σ},
      Waiting.onHandle x w = (.ok (), w') →
      ∃ h', x w.handle = (.ok (), h') ∧ w' = { w with handle := h' } := by
    intro x w w' hx
    obtain ⟨hok, rfl⟩ := Prod.mk.inj hx
    exact ⟨_, Prod.ext hok rfl, rfl⟩
  obtain ⟨w, hwait⟩ : ∃ w, waitWhile peer parse callback turns h0 = (.ok .timedOut, w) :=
    ⟨_, Prod.ext h rfl⟩
  rw [hwait]
  obtain ⟨_, w1, hinit, hwait⟩ := Exec.bind_eq_ok.mp hwait
  obtain ⟨w1', w1'', hget, hwait⟩ := Exec.bind_eq_ok.mp hwait
  cases hget
  obtain ⟨_, w2, hset, hwait⟩ := Exec.bind_eq_ok.mp hwait
  obtain ⟨h1, issued, rfl⟩ := on_handle hinit
  obtain ⟨h2, timed, rfl⟩ := on_handle hset
  rw [Exec.of_apply] at hwait
  cases hinner : Waiting.waitInner peer parse callback h2.keepalive turns ⟨h2, []⟩ with
  | mk r w3 =>
  rw [hinner] at hwait
  cases hwait
  cases hkeep : h2.keepalive with
  | true =>
      rw [hkeep] at hinner
      exact absurd (congrArg Prod.fst hinner) (Waiting.waitInner_true_ne turns _)
  | false =>
      rw [hkeep] at hinner
      cases turns with
      | zero => cases hinner
      | succ turns =>
          rw [Waiting.waitInner_false] at hinner
          exact .drop issued timed hkeep (.now hinner)

namespace IdleRound

def idlingLine : Bytes := utf8 "+ idling\r\n".toList

/-- The read times out after `before`. -/
def cutAfter (before left : Bytes) : IdleRound where
  plus := idlingLine
  before
  kind := .timedOut
  left
  extra := []
  first := ReadEvent.chunk (idlingLine ++ before) ++ [.err .timedOut]
  second := ReadEvent.chunk left

theorem cutAfter_plays (before left : Bytes) : (cutAfter before left).Plays := by
  have hplus : idlingLine = PLUS :: utf8 " idling\r".toList ++ [LF] := by decide
  refine ⟨⟨_, by decide, hplus⟩, ⟨[], left, ?_, ReadEvent.events_chunk _,
    List.append_nil left⟩, nofun⟩
  rw [show (cutAfter before left).first = ReadEvent.chunk (idlingLine ++ before) ++ [.err .timedOut]
    from rfl, List.flatMap_append, ReadEvent.events_chunk]
  rfl

end IdleRound

open IdleRound (cutAfter)
open Session (idleParse idleParse_framed)

def existsLine : Bytes := utf8 "* 1 EXISTS\r\n".toList

def tagged : Bytes := utf8 "a1 OK\r\n".toList

/-- A handle without keepalive and a server that plays this round. -/
def oneRound (r : IdleRound) : Handle (List (List ReadEvent)) :=
  { Handle.make (.new (Client.new
      { peer := script [r] [], incoming := [], writes := [], timeouts := [], readTimeout := none,
        wire := [] })) with keepalive := false }

def onlyReport : Callback := fun _ => true

/-- The read times out between two responses. -/
def between : IdleRound := cutAfter existsLine tagged

theorem existsLine_accepted :
    ∀ c ∈ [existsLine], ∃ r, idleParse.Accepts c r ∧ r.isDone = false := by
  intro c hc
  obtain rfl := List.mem_singleton.mp hc
  refine ⟨.mailboxData (.exists_ 1), ?_, rfl⟩
  change idleParse.run existsLine = _
  decide

theorem tagged_accepted : idleParse.Accepts tagged (.done (matchTag 1) .ok none none) := by
  change idleParse.run tagged = _
  decide

theorem between_speaks : between.Speaks idleParse 1 ([existsLine] ++ []) tagged :=
  ⟨IdleRound.cutAfter_plays _ _, by decide, existsLine_accepted, _, _, _, tagged_accepted⟩

/-- The handle that a wait returns with a timeout. -/
def returned (r : IdleRound) : Handle (List (List ReadEvent)) :=
  ((oneRound r).waitWhile (feed scripted) idleParse onlyReport 1).2.handle

theorem Handle.wait_framing_between :
    Handle.KeepsFraming (feed scripted) idleParse [] (returned between) := by
  have hpeer : (oneRound between).conn.stream.inner.peer = script [between] [] := rfl
  have plays : ∀ x ∈ [between], x.Plays := by
    intro x hx
    obtain rfl := List.mem_singleton.mp hx
    exact IdleRound.cutAfter_plays _ _
  have resumes : ∀ n x h, [between][n]? = some x →
      Terminates (feed scripted) idleParse onlyReport (oneRound between) n h →
      SendsDone (feed scripted) h → x.Resumes idleParse false (0 + 1 + UInt32.ofNat n) := by
    intro n x h hx _ _
    cases n with
    | succ n => cases hx
    | zero =>
        cases hx
        exact between_speaks.resumes (List.append_nil _).symm nofun
  have terminates : Terminates (feed scripted) idleParse onlyReport (oneRound between) 0
      (returned between) := .of_returned (by decide)
  have sends : (Connection.writeLine (feed scripted) (utf8 "DONE".toList)
      (returned between).conn).1 =
    .ok () := by decide
  have keeps := (wait_framing idleParse_framed rfl rfl hpeer plays).mpr resumes
  exact keeps 0 between _ rfl terminates sends

/-- The read times out in the middle of a line. -/
def midLine : IdleRound := cutAfter (utf8 "* 1 EXI".toList) (utf8 "STS\r\n".toList ++ tagged)

theorem midLine_speaks : midLine.Speaks idleParse 1 [existsLine] tagged :=
  ⟨IdleRound.cutAfter_plays _ _, by decide, existsLine_accepted, _, _, _, tagged_accepted⟩

/-- The rest of the line is taken for the answer to the `IDLE`, and the answer to the `IDLE`
for that to the next command. -/
theorem Handle.wait_framing_fails :
    midLine.Speaks idleParse 1 [existsLine] tagged ∧
      Handle.Terminates (feed scripted) idleParse onlyReport (oneRound midLine) 0
        (returned midLine) ∧
      Handle.SendsDone (feed scripted) (returned midLine) ∧
      ¬Handle.KeepsFraming (feed scripted) idleParse [] (returned midLine) ∧
      (Session.noop (feed scripted) idleParse
          ((returned midLine).drop (feed scripted) idleParse)).1 =
        .error (.err (.tagMismatch { expect := 2, actual := .inl 1 })) := by
  have unread : (terminate (feed scripted) idleParse (returned midLine)).2.conn.input ≠ [] := by
    decide
  have sends : (Connection.writeLine (feed scripted) (utf8 "DONE".toList)
      (returned midLine).conn).1 =
    .ok () := by decide
  refine ⟨midLine_speaks, .of_returned (by decide), sends, ?_, by decide⟩
  rintro ⟨_, _, _, _, _, hnil⟩
  exact unread hnil

end RustImap
