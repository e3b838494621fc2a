import Mathlib.Data.List.TakeWhile
import RustImap.IdleDiscipline
import RustImap.Scanner

/-!
What becomes of the updates a client reads while it idles.

The loop gives them to the callback; `terminate` reads the answer to the `IDLE` like any
other and drops what it holds. An update is lost if it is not complete before the `DONE`.
-/

namespace RustImap

open UnsolicitedResponse (tryFrom)

def Wire.readBytes : Wire → Bytes
  | .sent _ => []
  | .read bs _ => bs

def isStillHere (v : Bytes) : Bool := eqIgnoreAsciiCase v stillHere

/-- The responses in a text, the keepalive message left out. -/
def responsesIn (parse : ParseResponse) (text : Bytes) : List Response :=
  messagesIn parse isStillHere LF text

/-- The responses before the first line that cannot be printed. -/
def responsesBefore (parse : ParseResponse) (printable : Bytes → Bool) (text : Bytes) :
    List Response :=
  messagesBefore parse isStillHere LF printable text

def accepted (rs : List Response) : List UnsolicitedResponse := rs.filterMap tryFrom

/-- What follows the first line that begins with a `+`. -/
def afterPlus (text : Bytes) : Bytes :=
  ((linesOf LF text).dropWhile fun l => l.head? ≠ some PLUS).tail.flatten

/-- What has been read since the first confirmation, in rounds. A `+` that does not come at
once does not start a round: the client does not wait for updates after it. -/
def Talk.sincePlus (t : Talk) : List Round :=
  match t.rounds ++ [t.round] with
  | [] => []
  | first :: rounds => ⟨[], afterPlus first.after⟩ :: rounds

namespace Round

variable (parse : ParseResponse) (printable : Bytes → Bool)

/-- Every accepted response of the round is complete before the `DONE`, and no line that
cannot be printed comes before it. -/
def InTime (r : Round) : Prop :=
  accepted (responsesIn parse (r.during ++ r.after)) =
    accepted (responsesBefore parse printable r.during)

instance (r : Round) : Decidable (r.InTime parse printable) :=
  inferInstanceAs (Decidable (_ = _))

end Round

namespace Handle

variable {σ : Type} (peer : Peer σ) (parse : ParseResponse)

/-- What a handle that has begun to wait has read since the first confirmation. An `IDLE`
that could not be written is not confirmed. -/
def roundsTo (h : Handle σ) (conn : Connection σ) : List Round :=
  let (issued, asked) := Connection.runCommand peer "IDLE".toList h.conn
  let passed := conn.stream.inner.wire.drop asked.stream.inner.wire.length
  match issued with
  | .ok () =>
      ((passed ++ [Wire.sent conn.stream.wbuf]).foldl (Talk.step parse)
        (.start (.requested true []))).sincePlus
  | .error _ => [⟨[], afterPlus (passed.flatMap Wire.readBytes)⟩]

/-- Of a wait and the drop after it: each accepted response that is read from the first
confirmation on is given to the callback, once and in order, or appended to the queue. -/
def LosesNothing (callback : Callback) (turns : Nat) (h : Handle σ) : Prop :=
  let w := (h.waitWhile peer parse callback turns).2
  let s := w.handle.drop peer parse
  ∃ shown queued,
    Divided
      ((h.roundsTo peer parse s.conn).flatMap fun r => responsesIn parse (r.during ++ r.after))
      shown queued ∧
    w.heard = accepted shown ∧ s.unsolicitedResponses = h.session.unsolicitedResponses ++ queued

end Handle

variable {parse : ParseResponse} {printable : Bytes → Bool}

section Rounds

theorem Divided.shown_all {rs shown : List Response} {queued : Queue}
    (h : Divided rs shown queued) (hqueued : queued = []) : accepted shown = accepted rs := by
  induction h with
  | nil => rfl
  | shown hfirst _ ih =>
      have later := ih hqueued
      rw [accepted, accepted, List.filterMap_cons_some hfirst, List.filterMap_cons_some hfirst]
      exact congrArg _ later
  | queued => cases hqueued
  | other hfirst _ ih =>
      rw [ih hqueued, accepted, accepted, List.filterMap_cons_none hfirst]

/-- All accepted responses can be shown. -/
theorem Divided.all (rs : List Response) : ∃ shown, Divided rs shown [] := by
  induction rs with
  | nil => exact ⟨[], .nil⟩
  | cons r rs ih =>
      obtain ⟨shown, hshown⟩ := ih
      cases hr : tryFrom r with
      | none => exact ⟨shown, .other hr hshown⟩
      | some u => exact ⟨r :: shown, .shown hr hshown⟩

/-- Lists that begin with the pieces of a text make up the text only if they are the
pieces. -/
theorem flatMap_eq_iff_of_prefix {A B : Type} {f g : A → List B} {as : List A}
    (h : ∀ a ∈ as, f a <+: g a) : as.flatMap f = as.flatMap g ↔ ∀ a ∈ as, g a = f a := by
  have shorter : ∀ as : List A, (∀ a ∈ as, f a <+: g a) →
      (as.flatMap f).length ≤ (as.flatMap g).length := by
    intro as h
    induction as with
    | nil => exact Nat.le_refl _
    | cons a as ih =>
        obtain ⟨ha, has⟩ := List.forall_mem_cons.mp h
        have first := ha.length_le
        have later := ih has
        simp only [List.flatMap_cons, List.length_append]
        omega
  induction as with
  | nil => simp
  | cons a as ih =>
      obtain ⟨ha, has⟩ := List.forall_mem_cons.mp h
      have tail := ih has
      rw [List.forall_mem_cons, List.flatMap_cons, List.flatMap_cons]
      constructor
      · intro heq
        have first := ha.length_le
        have later := shorter as has
        have total := congrArg List.length heq
        simp only [List.length_append] at total
        obtain ⟨h1, h2⟩ := List.append_inj heq (by omega)
        exact ⟨h1.symm, tail.mp h2⟩
      · rintro ⟨h1, h2⟩
        rw [h1, tail.mpr h2]

/-- What the callback has been given of a round. -/
def Round.given (parse : ParseResponse) (printable : Bytes → Bool) (r : Round) :
    List UnsolicitedResponse :=
  accepted (responsesBefore parse printable r.during)

theorem Round.given_nil (after : Bytes) : (Round.mk [] after).given parse printable = [] := rfl

variable (printable) in
theorem Round.given_prefix (hp : parse.Framed LF) (r : Round) :
    r.given parse printable <+: accepted (responsesIn parse (r.during ++ r.after)) := by
  obtain ⟨more, hmore⟩ := messagesIn_append isStillHere hp
    r.during r.after
  obtain ⟨more', hmore'⟩ := messagesBefore_prefix parse
    isStillHere LF printable r.during
  rw [Round.given, responsesIn, hmore, hmore', responsesBefore, List.append_assoc]
  exact ⟨_, List.filterMap_append.symm⟩

/-- What it has been given in all. -/
def Talk.given (parse : ParseResponse) (printable : Bytes → Bool) (t : Talk) :
    List UnsolicitedResponse :=
  t.sincePlus.flatMap (Round.given parse printable)

/-- If the callback has been given what came in time and nothing was queued, then nothing is
lost exactly if everything came in time. -/
theorem divided_iff_inTime (hp : parse.Framed LF) (rounds : List Round) :
    (∃ shown, Divided (rounds.flatMap fun r => responsesIn parse (r.during ++ r.after)) shown [] ∧
      rounds.flatMap (Round.given parse printable) = accepted shown) ↔
    ∀ r ∈ rounds, r.InTime parse printable := by
  have pieces := flatMap_eq_iff_of_prefix fun r (_ : r ∈ rounds) => r.given_prefix printable hp
  rw [show (∀ r ∈ rounds, r.InTime parse printable) ↔ _ from pieces.symm]
  have whole : accepted (rounds.flatMap fun r => responsesIn parse (r.during ++ r.after)) =
      rounds.flatMap fun r => accepted (responsesIn parse (r.during ++ r.after)) :=
    List.filterMap_flatMap
  rw [← whole]
  constructor
  · rintro ⟨shown, hdivided, heq⟩
    rw [heq, hdivided.shown_all rfl]
  · intro heq
    obtain ⟨shown, hdivided⟩ := Divided.all
      (rounds.flatMap fun r => responsesIn parse (r.during ++ r.after))
    exact ⟨shown, hdivided, by rw [heq, hdivided.shown_all rfl]⟩

end Rounds

/-! What the loop has read of its round. -/

section Listening

variable {σ : Type} {peer : Peer σ} {callback : Callback} {t0 : Talk} {before : List Wire}

/-- The scan of what has been read of a round. -/
def scan (parse : ParseResponse) (text : Bytes) : Scan UInt8 Response :=
  Scan.start.lines parse isStillHere (linesOf LF text)

theorem scan_ready (hp : parse.Framed LF) (text : Bytes) : (scan parse text).Ready parse :=
  Scan.Ready.lines hp (.inl rfl) fun _ hl => linesOf_of_mem hl

theorem responsesBefore_printed {text : Bytes} (h : ∀ l ∈ linesOf LF text, printable l = true) :
    responsesBefore parse printable text = responsesIn parse text := by
  rw [responsesBefore, messagesBefore, List.takeWhile_eq_self_iff.mpr h]
  rfl

/-- The loop has given what is complete in its round to the callback, and holds the rest. -/
structure Waiting.Listening (parse : ParseResponse) (t0 : Talk) (before : List Wire)
    (earlier : List UnsolicitedResponse) (w : Waiting σ) (t : Talk) (v : Bytes) : Prop where
  idle : w.handle.Idling parse t0 before t v
  held : (scan parse t.round.during).v = v
  printed : ∀ l ∈ linesOf LF t.round.during, w.handle.conn.printable l = true
  whole : (t.round.during = [] ∨ t.round.during.getLast? = some LF) ∨ w.handle.conn.input = []
  heard : w.heard = earlier ++ accepted (responsesIn parse t.round.during)

namespace Waiting

variable {earlier : List UnsolicitedResponse} {w : Waiting σ} {t : Talk} {v line : Bytes}
variable {failed : Option ErrorKind} {rest : List InEvent}

/-- A line is read at the beginning of one. -/
theorem Listening.begins (h : w.Listening parse t0 before earlier t v)
    (htake : takeLine LF w.handle.conn.input = (line, failed, rest)) (hne : line ≠ []) :
    t.round.during = [] ∨ t.round.during.getLast? = some LF := by
  refine h.whole.resolve_right fun hnil => hne ?_
  rw [hnil] at htake
  cases htake
  rfl

/-- A line that has been taken to the vector is one more line of the round. -/
theorem Listening.taken (h : w.Listening parse t0 before earlier t v)
    (htake : takeLine LF w.handle.conn.input = (line, failed, rest))
    (hresult : w.handle.conn.lineResult v line failed = .ok (v ++ line)) :
    linesOf LF (t.round.during ++ line) = linesOf LF t.round.during ++ [line] ∧
    (∀ l ∈ linesOf LF (t.round.during ++ line), w.handle.conn.printable l = true) ∧
    ((t.round.during ++ line = [] ∨ (t.round.during ++ line).getLast? = some LF) ∨
      w.nextLine.handle.conn.input = []) := by
  obtain ⟨rfl, hne, hprint, -⟩ := Connection.lineResult_ok hresult
  obtain ⟨hone, hend⟩ := takeLine_line htake hne
  have hbefore := h.begins htake hne
  have hlines : linesOf LF (t.round.during ++ line) = linesOf LF t.round.during ++ [line] := by
    rw [linesOf_append hbefore, hone]
  refine ⟨hlines, fun l hl => ?_, ?_⟩
  · rw [hlines] at hl
    rcases List.mem_append.mp hl with hl | hl
    · exact h.printed l hl
    · obtain rfl := List.mem_singleton.mp hl
      exact hprint
  · rcases hend with hend | rfl
    · rw [List.getLast?_append_of_ne_nil _ hne]
      exact .inl (.inr hend)
    · exact .inr (Connection.readline_eq htake []).2

/-- How such a line is scanned. -/
theorem Listening.scan_line (h : w.Listening parse t0 before earlier t v)
    (htake : takeLine LF w.handle.conn.input = (line, failed, rest))
    (hresult : w.handle.conn.lineResult v line failed = .ok (v ++ line)) :
    scan parse (t.round.during ++ line) =
      (⟨v, responsesIn parse t.round.during⟩ : Scan UInt8 Response).line parse
        isStillHere line := by
  rw [scan, (h.taken htake hresult).1, Scan.lines_append, ← h.held]
  rfl

/-- A line that completes nothing. -/
theorem Listening.passes (h : w.Listening parse t0 before earlier t v)
    (htake : takeLine LF w.handle.conn.input = (line, failed, rest))
    (hresult : w.handle.conn.lineResult v line failed = .ok (v ++ line)) {v' : Bytes}
    (hline : (⟨v, responsesIn parse t.round.during⟩ : Scan UInt8 Response).line parse isStillHere
      line = ⟨v', responsesIn parse t.round.during⟩) :
    (scan parse (t.round.during ++ line)).v = v' ∧
      w.heard = earlier ++ accepted (responsesIn parse (t.round.during ++ line)) := by
  have step := (h.scan_line htake hresult).trans hline
  refine ⟨by rw [step], ?_⟩
  change w.heard = earlier ++ accepted (scan parse (t.round.during ++ line)).messages
  rw [step, h.heard]

/-- A line that completes an accepted response. -/
theorem Listening.completes (h : w.Listening parse t0 before earlier t v)
    (htake : takeLine LF w.handle.conn.input = (line, failed, rest))
    (htaken : Taken w v line failed) {left : Bytes} {r : Response} {u : UnsolicitedResponse}
    (hrun : parse.run (v ++ line) = .ok left r) (htry : tryFrom r = some u) :
    (scan parse (t.round.during ++ line)).v = (v ++ line).drop ((v ++ line).length - left.length) ∧
      w.heard ++ [u] = earlier ++ accepted (responsesIn parse (t.round.during ++ line)) := by
  have step := h.scan_line htake htaken.result
  rw [Scan.line_ok htaken.notStill hrun] at step
  refine ⟨by rw [step], ?_⟩
  change w.heard ++ [u] = earlier ++ accepted (scan parse (t.round.during ++ line)).messages
  rw [step, h.heard, accepted, accepted, List.filterMap_append, List.filterMap_cons_some htry,
    List.filterMap_nil, List.append_assoc]

/-- The loop goes on with the next line. -/
theorem Listening.next (h : w.Listening parse t0 before earlier t v)
    (htake : takeLine LF w.handle.conn.input = (line, failed, rest))
    (hresult : w.handle.conn.lineResult v line failed = .ok (v ++ line)) {v' : Bytes}
    (hphase : Phase.next parse (.running true) v line failed = .running true v')
    (hheld : (scan parse (t.round.during ++ line)).v = v') {w' : Waiting σ}
    (hw : w'.handle = w.nextLine.handle)
    (hheard : w'.heard = earlier ++ accepted (responsesIn parse (t.round.during ++ line))) :
    w'.Listening parse t0 before earlier
      { t.readDuring line with phase := .running true v' } v' := by
  obtain ⟨-, hprinted, hwhole⟩ := h.taken htake hresult
  have read := hear_line h.idle htake
  rw [hphase] at read
  have hprint : w'.handle.conn.printable = w.handle.conn.printable := by rw [hw]; rfl
  rw [← hprint] at hprinted
  rw [← hw] at hwhole read
  have hwbuf : w'.handle.conn.stream.wbuf = [] := by rw [hw]; exact h.idle.wbuf
  have hdone : w'.handle.done = false := by rw [hw]; exact h.idle.done
  exact ⟨⟨read, rfl, h.idle.line, hwbuf, hdone⟩, hheld, hprinted, hwhole, hheard⟩

/-- What ends the loop without being taken to the vector completes no response that could
have been given. -/
theorem Listening.ends (hp : parse.Framed LF) (h : w.Listening parse t0 before earlier t v)
    (htake : takeLine LF w.handle.conn.input = (line, failed, rest))
    {e : Fault} (hresult : w.handle.conn.lineResult v line failed = .error e) :
    responsesBefore parse w.handle.conn.printable (t.round.during ++ line) =
      responsesIn parse t.round.during := by
  by_cases hne : line = []
  · rw [hne, List.append_nil]
    exact responsesBefore_printed h.printed
  have hbefore := h.begins htake hne
  -- the line is not whole, or the debug output stops at it
  have hmore : ((linesOf LF line).takeWhile w.handle.conn.printable = [] ∨
      (linesOf LF line).takeWhile w.handle.conn.printable = [line] ∧ LF ∉ line ∧
        linesOf LF line = [line]) := by
    cases failed with
    | some k =>
        have hnot : LF ∉ line := takeLine_failed htake
        rcases linesOf_unended hnot with hl | hl
        · rw [hl]
          exact .inl rfl
        · rw [hl, List.takeWhile_cons]
          split
          · exact .inr ⟨rfl, hnot, rfl⟩
          · exact .inl rfl
    | none =>
        rw [(takeLine_line htake hne).1, List.takeWhile_cons]
        split
        · rename_i hprint
          rw [Connection.lineResult, if_neg hne, if_pos hprint] at hresult
          cases hresult
        · exact .inl rfl
  rw [responsesBefore, messagesBefore, linesOf_append hbefore,
    List.takeWhile_append_of_pos h.printed, Scan.lines_append]
  rcases hmore with hmore | ⟨hmore, hnot, hone⟩
  · rw [hmore]
    rfl
  · rw [hmore]
    have same := (scan_ready hp t.round.during).line_unended
      isStillHere hp hnot hone
    exact same

variable (callback) in
/-- The loop gives every accepted response that it reads while it goes on. -/
theorem idleLoop_given (hp : parse.Framed LF) (turns : Nat)
    (h : w.Listening parse t0 before earlier t v) :
    let r := idleLoop parse callback turns v w
    ∃ t', r.2.handle.conn.TalkIs parse t0 before t' ∧ t'.rounds = t.rounds ∧
      r.2.heard = earlier ++ t'.round.given parse w.handle.conn.printable := by
  induction turns generalizing v w t with
  | zero =>
      refine ⟨t, h.idle.talk, rfl, ?_⟩
      change w.heard = _
      rw [h.heard, Round.given, responsesBefore_printed h.printed]
  | succ turns ih =>
      obtain ⟨line, failed, rest, htake⟩ : ∃ line failed rest,
        takeLine LF w.handle.conn.input = (line, failed, rest) := ⟨_, _, _, rfl⟩
      have read := hear_line h.idle htake
      -- what has been read when the loop ends is in the record
      have not_taken : ∀ {e : Fault}, w.handle.conn.lineResult v line failed = .error e →
          w.heard = earlier ++
            accepted (responsesBefore parse w.handle.conn.printable (t.round.during ++ line)) := by
        intro e hresult
        rw [h.ends hp htake hresult, h.heard]
      have taken : w.handle.conn.lineResult v line failed = .ok (v ++ line) →
          responsesBefore parse w.handle.conn.printable (t.round.during ++ line) =
            (scan parse (t.round.during ++ line)).messages := fun hresult =>
        responsesBefore_printed (h.taken htake hresult).2.1
      have turn := idleLoop_turn parse callback turns v htake
      generalize idleLoop parse callback (turns + 1) v w = r at turn ⊢
      cases turn with
      | timedOut hfailed =>
          obtain ⟨k, rfl⟩ := Option.ne_none_iff_exists'.mp hfailed
          exact ⟨_, read, rfl, not_taken rfl⟩
      | failed hresult => exact ⟨_, read, rfl, not_taken hresult⟩
      | still hresult hstill =>
          obtain ⟨rfl, hline, -⟩ := Connection.lineResult_ok hresult
          obtain ⟨hheld, hheard⟩ := h.passes htake hresult (Scan.line_skip hstill)
          have later := ih (w := w.nextLine) (h.next htake hresult
            (Phase.next_of_still hline hstill) hheld rfl hheard)
          exact later
      | incomplete htaken hrun =>
          obtain ⟨rfl, hline, -⟩ := Connection.lineResult_ok htaken.result
          obtain ⟨hheld, hheard⟩ := h.passes htake htaken.result
            (Scan.line_incomplete htaken.notStill hrun)
          have later := ih (w := w.nextLine) (h.next htake htaken.result
            (Phase.next_of_incomplete hline htaken.notStill hrun) hheld rfl hheard)
          exact later
      | refused htaken hrun hnone =>
          have step := h.scan_line htake htaken.result
          refine ⟨_, read, rfl, ?_⟩
          change w.heard = earlier ++
            accepted (responsesBefore parse w.handle.conn.printable (t.round.during ++ line))
          rw [taken htaken.result, step, h.heard]
          cases hres : parse.run (v ++ line) with
          | incomplete => exact absurd hres hrun
          | error => rw [Scan.line_error htaken.notStill hres]
          | ok rest r =>
              rw [Scan.line_ok htaken.notStill hres, accepted, accepted, List.filterMap_append,
                List.filterMap_cons_none (hnone rest r hres), List.filterMap_nil, List.append_nil]
      | @stopped rest r u htaken hrun htry =>
          refine ⟨_, read, rfl, ?_⟩
          change w.heard ++ [u] = earlier ++
            accepted (responsesBefore parse w.handle.conn.printable (t.round.during ++ line))
          rw [taken htaken.result]
          exact (h.completes htake htaken hrun htry).2
      | @given rest r u htaken hrun htry =>
          obtain ⟨rfl, hline, -⟩ := Connection.lineResult_ok htaken.result
          obtain ⟨hheld, hheard⟩ := h.completes htake htaken hrun htry
          have later := ih (w := w.nextLine.give u) (h.next htake htaken.result
            (Phase.next_of_ok hline htaken.notStill hrun (UnsolicitedResponse.notDone_tryFrom htry))
            hheld rfl hheard)
          exact later

end Waiting

end Listening

namespace Talk

theorem given_of_cons {t : Talk} {first : Round} {rounds : List Round}
    (h : t.rounds = first :: rounds) :
    t.given parse printable =
      rounds.flatMap (Round.given parse printable) ++ t.round.given parse printable := by
  rw [given, sincePlus, h, List.cons_append, List.flatMap_cons, Round.given_nil,
    List.flatMap_append, List.flatMap_singleton, List.nil_append]

theorem given_of_nil {t : Talk} (h : t.rounds = []) : t.given parse printable = [] := by
  rw [given, sincePlus, h, List.nil_append, List.flatMap_singleton, Round.given_nil]

/-- Nothing is given of what is read while no `IDLE` is running. -/
theorem given_of_same {t t' : Talk} (hrounds : t'.rounds = t.rounds)
    (hduring : t'.round.during = t.round.during) :
    t'.given parse printable = t.given parse printable := by
  have same : t'.round.given parse printable = t.round.given parse printable := by
    rw [Round.given, hduring]
    rfl
  cases h : t.rounds with
  | nil => rw [given_of_nil h, given_of_nil (hrounds.trans h)]
  | cons first rounds => rw [given_of_cons h, given_of_cons (hrounds.trans h), same]

theorem given_confirm (t : Talk) : t.confirm.given parse printable = t.given parse printable := by
  have fresh : t.confirm.round.given parse printable = [] := Round.given_nil []
  cases h : t.rounds with
  | nil =>
      have hrounds : t.confirm.rounds = t.round :: [] := by rw [confirm, h]; rfl
      rw [given_of_nil h, given_of_cons hrounds, fresh, List.flatMap_nil, List.append_nil]
  | cons first rounds =>
      have hrounds : t.confirm.rounds = first :: (rounds ++ [t.round]) := by rw [confirm, h]; rfl
      rw [given_of_cons h, given_of_cons hrounds, fresh, List.append_nil, List.flatMap_append,
        List.flatMap_singleton]

end Talk

end RustImap
