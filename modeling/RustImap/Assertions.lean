import RustImap.Injection
import RustImap.NothingLost

/-!
The assertions about the tagged response.

The parsers of `EXPUNGE`, `APPEND` and `GETMETADATA` assert that the tagged response they
come to is the one `read_response` has stopped at. They parse the same bytes a second
time, and both segmentations agree because responses are framed.
-/

namespace RustImap

namespace Exec

variable {S ε α β : Type} {bad : ε}

/-- The computation never fails in this way. -/
def Avoids (bad : ε) (x : Exec S ε α) : Prop := ∀ s, (x s).1 ≠ .error bad

namespace Avoids

theorem pure (a : α) : Avoids bad (Pure.pure a : Exec S ε α) := fun _ h => by cases h

theorem fail {e : ε} (h : e ≠ bad) : Avoids bad (Exec.fail e : Exec S ε α) :=
  fun _ he => h (Except.error.inj he)

theorem bind {x : Exec S ε α} {f : α → Exec S ε β} (hx : Avoids bad x)
    (hf : ∀ a, Avoids bad (f a)) : Avoids bad (x >>= f) := by
  intro s
  have first := hx s
  rw [bind_apply]
  cases hr : x s with
  | mk r s' =>
      rw [hr] at first
      cases r with
      | ok a => exact hf a s'
      | error e => exact fun he => first (congrArg Except.error (Except.error.inj he))

theorem map {x : Exec S ε α} (hx : Avoids bad x) (g : α → β) : Avoids bad (g <$> x) :=
  hx.bind fun a => pure (g a)

end Avoids

end Exec

namespace Parser

variable {α ρ : Type} {p : Parser α ρ} {delim : α}

/-- Repeated parsing of `i` comes to `r`, whatever it comes to afterwards. -/
inductive Meets (p : Parser α ρ) : List α → ρ → Prop
  | here {i rest : List α} {r : ρ} : p.run i = .ok rest r → Meets p i r
  | later {i rest : List α} {r r' : ρ} : p.run i = .ok rest r' → Meets p rest r → Meets p i r

/-- Parsing meets nothing but the messages the text splits into. -/
theorem Meets.mem {i : List α} {rs : List ρ} {r : ρ} (h : p.Meets i r) (hs : p.Splits i rs) :
    r ∈ rs := by
  induction hs with
  | nil =>
      cases h with
      | here run => exact absurd run (p.run_nil _ _)
      | later run _ => exact absurd run (p.run_nil _ _)
  | cons run _ ih =>
      cases h with
      | here run' =>
          rw [run] at run'
          cases run'
          exact List.mem_cons_self
      | later run' hrest =>
          rw [run] at run'
          cases run'
          exact List.mem_cons_of_mem _ (ih hrest)

end Parser

open Exec (Avoids)

section Parsers

variable {parse : ParseResponse}

theorem invalid_ne_panic (e : Error) : Fault.err e ≠ .panic := by simp

/-- A loop runs its body on the responses it meets only. -/
theorem forResponses_avoids {A : Type} {body : A → Response → Bytes → Collect A} {lines : Bytes}
    (hbody : ∀ r, parse.Meets lines r → ∀ a rest, Avoids .panic (body a r rest)) (a : A) :
    Avoids .panic (forResponses parse body a lines) := by
  unfold forResponses
  generalize lines.length = turns
  induction turns generalizing a lines with
  | zero => exact .pure a
  | succ turns ih =>
      unfold loopResponses
      split
      · exact .pure a
      · cases hrun : parse.run lines with
        | ok rest r =>
            exact (hbody r (.here hrun) a rest).bind fun a =>
              ih (fun r' hr' => hbody r' (.later hrun hr')) a
        | incomplete | error => exact .fail (invalid_ne_panic _)

theorem handleUnilateral_avoids (r : Response) : Avoids .panic (handleUnilateral r) := by
  intro q
  rw [handleUnilateral, Exec.bind_apply, tryHandleUnilateral]
  cases UnsolicitedResponse.tryFrom r <;> simp

variable {tag : UInt32} {lines : Bytes} {ok : Nat}

/-- The tagged response of a command that succeeded. -/
def Response.IsOkOf (tag : UInt32) (r : Response) : Prop :=
  ∃ code information, r = .done (matchTag tag) .ok code information

/-- What the assertions say about an answer: its two parts are there, a tagged response met
in the answer is the `OK` of the command, and the second part begins with it. -/
structure AssertionsHold (parse : ParseResponse) (tag : UInt32) (lines : Bytes) (ok : Nat) :
    Prop where
  inRange : ok ≤ lines.length
  asserted : ∀ r, parse.Meets lines r → r.isDone = true → r.IsOkOf tag
  reachable : ∃ rest r, parse.run (lines.drop ok) = .ok rest r ∧ r.IsOkOf tag

theorem handled_avoids {A : Type} (a : A) (r : Response) :
    Avoids .panic (do handleUnilateral r; pure a : Collect A) :=
  (handleUnilateral_avoids r).bind fun _ => .pure a

theorem expungeStep_avoids {r : Response} (h : r.isDone = true → r.IsOkOf tag) (a : Expunging)
    (rest : Bytes) : Avoids .panic (expungeStep a r rest) := by
  cases r with
  | done doneTag status code information =>
      obtain ⟨_, _, hdone⟩ := h rfl
      cases hdone
      rcases code with - | code
      · exact .pure a
      · cases code <;> exact .pure _
  | expunge | vanished => exact .pure _
  | _ => exact handled_avoids a _

theorem appendStep_avoids {r : Response} (h : r.isDone = true → r.IsOkOf tag) (a : Appended)
    (rest : Bytes) : Avoids .panic (appendStep a r rest) := by
  cases r with
  | done doneTag status code information =>
      obtain ⟨_, _, hdone⟩ := h rfl
      cases hdone
      rcases code with - | code
      · exact .pure a
      · cases code <;> exact .pure _
  | _ => exact handled_avoids a _

theorem metadataStep_avoids (a : List Metadata) (r : Response) (rest : Bytes) :
    Avoids .panic (metadataStep a r rest) := by
  cases r with
  | mailboxData m =>
      cases m with
      | metadataSolicited => exact .pure _
      | _ => exact handled_avoids a _
  | _ => exact handled_avoids a _

theorem parseExpunge_avoids (h : AssertionsHold parse tag lines ok) :
    Avoids .panic (parseExpunge parse lines) := by
  refine (forResponses_avoids (fun r hr a rest => ?_) _).bind fun a => ?_
  · exact expungeStep_avoids (h.asserted r hr) a rest
  · split <;> exact .pure _

theorem parseAppend_avoids (h : AssertionsHold parse tag lines ok) :
    Avoids .panic (parseAppend parse lines) := by
  unfold parseAppend forResponses1
  split
  · exact .fail (invalid_ne_panic _)
  · exact forResponses_avoids (fun r hr a rest => appendStep_avoids (h.asserted r hr) a rest) _

theorem missedEntries_avoids (h : AssertionsHold parse tag lines ok) (maxsize : Option Nat) :
    Avoids .panic (Session.missedEntries parse maxsize (lines.drop ok)) := by
  obtain ⟨rest, r, hrun, code, information, rfl⟩ := h.reachable
  unfold Session.missedEntries
  split
  · exact .pure _
  · rw [hrun]
    rcases code with - | code
    · exact .pure _
    · cases code <;> exact .pure _

/-- The commands whose parsers assert something about the tagged response. -/
def Command.asserts : Command → Bool
  | .expunge | .uidExpunge _ | .append _ _ _ _ | .getMetadata _ _ _ _ => true
  | _ => false

theorem Command.asserts_text {c : Command} (hc : c.asserts = true) : c.text ≠ .ok none := by
  have line_ne : ∀ cmd args, line cmd args ≠ .ok none := by
    intro cmd args hline
    obtain ⟨vs, -, hvs⟩ := bind_ok hline
    cases hvs
  cases c with
  | expunge | uidExpunge | append => exact line_ne _ _
  | getMetadata =>
      intro h
      obtain ⟨vs, -, h⟩ := bind_ok h
      exact line_ne _ _ h
  | _ => cases hc

theorem Command.finish_avoids {c : Command} (hc : c.asserts = true)
    (h : AssertionsHold parse tag lines ok) : Avoids .panic (c.finish parse lines ok) := by
  cases c with
  | expunge | uidExpunge => exact (parseExpunge_avoids h).map _
  | append => exact (parseAppend_avoids h).map _
  | getMetadata mailbox entries depth maxsize =>
      refine Avoids.map (.bind ?_ fun metadata => ?_) _
      · exact forResponses_avoids (fun r _ a rest => metadataStep_avoids a r rest) _
      · exact (missedEntries_avoids h maxsize).bind fun missed => .pure _
  | _ => cases hc

end Parsers

variable {σ : Type} {peer : Peer σ} {parse : ParseResponse}

namespace Connection

/-- What `read_response` returns satisfies the assertions. -/
theorem readResponse_asserted (hp : parse.Framed LF) {conn conn' : Connection σ} {lines : Bytes}
    {ok : Nat} (h : readResponse parse conn = (.ok (lines, ok), conn')) :
    AssertionsHold parse conn.tag lines ok := by
  obtain ⟨-, ⟨rs, hsplits, hrs⟩, code, information, hd⟩ :=
    readResponse_reparses hp conn lines ok conn' h
  have whole := hp.splits_snoc hsplits hd
  rw [List.take_append_drop] at whole
  refine ⟨?_, ?_, [], _, hd, code, information, rfl⟩
  · have := List.length_pos_iff.mpr hd.ne_nil
    rw [List.length_drop] at this
    omega
  · intro r hr hdone
    rcases List.mem_append.mp (hr.mem whole) with hmem | hmem
    · rw [hrs r hmem] at hdone
      cases hdone
    · exact ⟨code, information, List.mem_singleton.mp hmem⟩

theorem send_tag {c : Command} {conn conn' : Connection σ}
    (h : send peer c conn = (.ok true, conn')) : conn'.tag = conn.tag + 1 := by
  cases htext : c.text with
  | error e =>
      rw [send_rejected htext] at h
      cases h
  | ok o =>
      cases o with
      | none =>
          rw [send_none htext] at h
          cases h
      | some text =>
          rw [send_some peer htext] at h
          obtain ⟨hresult, rfl⟩ := Prod.mk.inj h
          obtain ⟨w, -, -, -, ⟨-, -, htag, -⟩ | ⟨k, herr, -⟩⟩ := runCommand_total peer text conn
          · exact htag
          · rw [herr] at hresult
            cases hresult

theorem send_ok {c : Command} (hc : c.text ≠ .ok none) {conn conn' : Connection σ} {b : Bool}
    (h : send peer c conn = (.ok b, conn')) : b = true := by
  cases htext : c.text with
  | error e =>
      rw [send_rejected htext] at h
      cases h
  | ok o =>
      cases o with
      | none => exact absurd htext hc
      | some text =>
          rw [send_some peer htext] at h
          obtain ⟨hresult, -⟩ := Prod.mk.inj h
          cases hrun : (runCommand peer text conn).1 with
          | ok u =>
              rw [hrun] at hresult
              exact (Except.ok.inj hresult).symm
          | error e =>
              rw [hrun] at hresult
              cases hresult

theorem io_tag {α : Type} {f : BufStream σ → Except ErrorKind α × BufStream σ} {a : α}
    {conn conn' : Connection σ} (h : io f conn = (.ok a, conn')) : conn'.tag = conn.tag := by
  rw [io_apply] at h
  rw [← (Prod.mk.inj h).2]

end Connection

namespace Session

variable {op : Exec (Session σ) Fault Value} {c : Command}
variable {read : Exec (Connection σ) Fault (Bytes × Nat)}

/-- What is read is the answer to the command that was sent. -/
theorem Completes.reads (hop : Completes peer parse op c read) (hc : c.asserts = true)
    {conn conn' : Connection σ} {lines : Bytes} {ok : Nat}
    (h : read conn = (.ok (lines, ok), conn')) :
    ∃ sent, sent.tag = conn.tag + 1 ∧
      Connection.readResponse parse sent = (.ok (lines, ok), conn') := by
  cases hop with
  | command _ =>
      obtain ⟨b, sent, hsend, hread⟩ := Exec.bind_eq_ok.mp h
      obtain rfl := Connection.send_ok (c.asserts_text hc) hsend
      exact ⟨sent, Connection.send_tag hsend, hread⟩
  | append cmd =>
      obtain ⟨b, conn1, hsend, h⟩ := Exec.bind_eq_ok.mp h
      obtain rfl := Connection.send_ok (Command.asserts_text rfl) hsend
      obtain ⟨v, conn2, hline, h⟩ := Exec.bind_eq_ok.mp h
      have tag2 : conn2.tag = conn1.tag := by
        have on := Connection.readOn_readline [] conn1
        rw [hline] at on
        exact on.tag
      split at h
      · cases h
      · obtain ⟨_, conn3, h3, h⟩ := Exec.bind_eq_ok.mp h
        obtain ⟨_, conn4, h4, h⟩ := Exec.bind_eq_ok.mp h
        obtain ⟨_, conn5, h5, h⟩ := Exec.bind_eq_ok.mp h
        refine ⟨conn5, ?_, h⟩
        rw [Connection.io_tag h5, Connection.io_tag h4, Connection.io_tag h3, tag2,
          Connection.send_tag hsend]

/-- The assertions hold of every answer these operations get, and none of the operations
panics once it has its answer. -/
theorem Completes.assertions_hold (hp : parse.Framed LF) (hop : Completes peer parse op c read)
    (hc : c.asserts = true) (s : Session σ) :
    (∀ lines ok conn, read s.conn = (.ok (lines, ok), conn) →
      AssertionsHold parse (s.conn.tag + 1) lines ok ∧ (op s).1 ≠ .error .panic) ∧
    ∀ e conn, read s.conn = (.error e, conn) → (op s).1 = .error e := by
  have hlogout : c ≠ .logout := by
    rintro rfl
    cases hc
  constructor
  · intro lines ok conn hread
    obtain ⟨sent, htag, hanswer⟩ := hop.reads hc hread
    have asserted := Connection.readResponse_asserted hp hanswer
    rw [htag] at asserted
    refine ⟨asserted, ?_⟩
    rw [hop.apply_ok hlogout hread]
    exact c.finish_avoids hc asserted _
  · intro e conn hread
    rw [hop.apply_error hlogout hread]

theorem Completes.assertions_hold_expunge :
    AssertionsHold expungeParse (opened.conn.tag + 1) (expungeLine ++ firstDone)
        expungeLine.length ∧
      ((Value.deleted <$> expunge expunging expungeParse) opened).1 ≠ .error .panic := by
  have hread : (Connection.command expunging expungeParse .expunge opened.conn).1 =
      .ok (expungeLine ++ firstDone, expungeLine.length) := by decide +kernel
  have hop : Completes expunging expungeParse (Value.deleted <$> expunge expunging expungeParse)
      .expunge (Connection.command expunging expungeParse .expunge) := .command rfl
  apply (hop.assertions_hold expungeParse_framed rfl opened).1
  rw [← hread]

end Session

end RustImap
