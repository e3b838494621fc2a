import RustImap.SelfDelimiting
import RustImap.Simulation
import RustImap.Unilateral

/-!
Commands that differ in their verb only.

Two runs are compared, from one session and with servers that send the same: the commands
check and write their arguments alike, writing ends the same way whatever is written, and
what is read depends on the tag and the input alone.
-/

namespace RustImap

open Exec (Simulates Agree)

/-- The sibling operations with their verbs, given equal arguments. -/
inductive Sibling : String → Command → String → Command → Prop
  | fetch (set query : Str) : Sibling "FETCH" (.fetch set query) "UID FETCH" (.uidFetch set query)
  | store (set query : Str) : Sibling "STORE" (.store set query) "UID STORE" (.uidStore set query)
  | copy (set mailboxName : Str) :
      Sibling "COPY" (.copy set mailboxName) "UID COPY" (.uidCopy set mailboxName)
  | mv (set mailboxName : Str) :
      Sibling "MOVE" (.mv set mailboxName) "UID MOVE" (.uidMv set mailboxName)
  | search (query : Str) : Sibling "SEARCH" (.search query) "UID SEARCH" (.uidSearch query)
  | sort (criteria : List SortCriterion) (charset : SortCharset) (query : Str) :
      Sibling "SORT" (.sort criteria charset query) "UID SORT" (.uidSort criteria charset query)
  | select (mailboxName : Str) :
      Sibling "SELECT" (.select mailboxName) "EXAMINE" (.examine mailboxName)
  | list (referenceName mailboxPattern : Option Str) :
      Sibling "LIST" (.list referenceName mailboxPattern)
        "LSUB" (.lsub referenceName mailboxPattern)

/-- Errors that name the same argument and the same character. -/
def SameRejection (e e' : Error) : Prop :=
  ∃ v v', e = .validate v ∧ e' = .validate v' ∧ v.argument = v'.argument ∧
    v.offendingChar = v'.offendingChar

/-- The texts of two commands: the same after the verb, or nothing, or the same rejection. -/
inductive SameText (verb verb' : String) :
    Except Error (Option Str) → Except Error (Option Str) → Prop
  | none : SameText verb verb' (.ok none) (.ok none)
  | some (args : Str) :
      SameText verb verb' (.ok (some (verb.toList ++ args))) (.ok (some (verb'.toList ++ args)))
  | rejected {e e' : Error} : SameRejection e e' → SameText verb verb' (.error e) (.error e')

/-- The same value, or the same kind of error. -/
inductive SameResult {α : Type} : Except Fault α → Except Fault α → Prop
  | same (r : Except Fault α) : SameResult r r
  | rejected {e e' : Error} : SameRejection e e' → SameResult (.error (.err e)) (.error (.err e'))

structure SameOutcome {σ : Type} (out out' : Except Fault Value × Session σ) : Prop where
  result : SameResult out.1 out'.1
  tag : out.2.conn.tag = out'.2.conn.tag
  input : out.2.conn.input = out'.2.conn.input
  unsolicited : out.2.unsolicitedResponses = out'.2.unsolicitedResponses

/-- Two commands write the same but for the verb, and, where the servers have sent the same
when the commands have been written, end the same way. -/
structure Alike (verb : String) (c : Command) (verb' : String) (c' : Command) : Prop where
  text : SameText verb verb' c.text c'.text
  outcome : ∀ {σ : Type} (peer peer' : Peer σ) (parse : ParseResponse) (s : Session σ)
    (op op' : Exec (Session σ) Fault Value),
    Session.execute peer parse c = some op → Session.execute peer' parse c' = some op' →
    (Connection.send peer c s.conn).2.input = (Connection.send peer' c' s.conn).2.input →
    SameOutcome (op s) (op' s)

section Text

/-- One argument of two commands. -/
inductive SameArg : Except Error Str → Except Error Str → Prop
  | ok (v : Str) : SameArg (.ok v) (.ok v)
  | rejected {e e' : Error} : SameRejection e e' → SameArg (.error e) (.error e')

theorem rejectChar_same (bad : Char → Bool) (synopsis synopsis' argName value : Str) :
    SameArg (rejectChar bad synopsis argName value) (rejectChar bad synopsis' argName value) := by
  unfold rejectChar
  cases value.find? bad with
  | none => exact .ok value
  | some c => exact .rejected ⟨_, _, rfl, rfl, rfl, rfl⟩

theorem SameArg.map {a a' : Except Error Str} (h : SameArg a a') (f : Str → Str) :
    SameArg (f <$> a) (f <$> a') := by
  cases h with
  | ok v => exact .ok (f v)
  | rejected h => exact .rejected h

theorem arg_same (cmd cmd' argName : String) (value : Str) :
    SameArg (arg cmd argName value) (arg cmd' argName value) :=
  (rejectChar_same isLineBreak cmd.toList cmd'.toList argName.toList value).map quote

theorem mapM_same {args args' : List (Except Error Str)} (h : List.Forall₂ SameArg args args') :
    (∃ vs, args.mapM id = .ok vs ∧ args'.mapM id = .ok vs) ∨
      ∃ e e', args.mapM id = .error e ∧ args'.mapM id = .error e' ∧ SameRejection e e' := by
  induction h with
  | nil => exact .inl ⟨[], rfl, rfl⟩
  | cons hfirst _ ih =>
      simp only [List.mapM_cons, id_eq]
      cases hfirst with
      | rejected h => exact .inr ⟨_, _, rfl, rfl, h⟩
      | ok v =>
          rcases ih with ⟨vs, hvs, hvs'⟩ | ⟨e, e', he, he', h⟩
          · rw [hvs, hvs']
            exact .inl ⟨v :: vs, rfl, rfl⟩
          · rw [he, he']
            exact .inr ⟨e, e', rfl, rfl, h⟩

theorem line_same (cmd cmd' : String) {args args' : List (Except Error Str)}
    (h : List.Forall₂ SameArg args args') : SameText cmd cmd' (line cmd args) (line cmd' args') := by
  unfold line
  rcases mapM_same h with ⟨vs, hvs, hvs'⟩ | ⟨e, e', he, he', h⟩
  · rw [hvs, hvs']
    have rest : ∀ cmd : Str, words (cmd :: vs) = cmd ++ vs.flatMap (' ' :: ·) :=
      fun cmd => SelfDelimiting.intercalate_cons ' ' cmd vs
    simp only [pure, Except.pure, bind, Except.bind, rest]
    exact .some _
  · rw [he, he']
    exact .rejected h

theorem Sibling.text {verb verb' : String} {c c' : Command} (h : Sibling verb c verb' c')
    (hpattern : ∀ referenceName, c ≠ .list referenceName none) :
    SameText verb verb' c.text c'.text := by
  cases h with
  | fetch set query =>
      simp only [Command.text]
      by_cases hset : set = []
      · rw [if_pos hset, if_pos hset]
        exact .none
      · rw [if_neg hset, if_neg hset]
        exact line_same _ _ (.cons (rejectChar_same ..) (.cons (rejectChar_same ..) .nil))
  | store | copy => exact line_same _ _ (.cons (.ok _) (.cons (.ok _) .nil))
  | mv => exact line_same _ _ (.cons (.ok _) (.cons (arg_same ..) .nil))
  | search => exact line_same _ _ (.cons (.ok _) .nil)
  | sort => exact line_same _ _ (.cons (.ok _) (.cons (.ok _) (.cons (.ok _) .nil)))
  | select => exact line_same _ _ (.cons (arg_same ..) .nil)
  | list referenceName mailboxPattern =>
      cases mailboxPattern with
      | none => exact absurd rfl (hpattern referenceName)
      | some pattern => exact line_same _ _ (.cons (.ok _) (.cons (.ok _) .nil))

end Text

section Writing

namespace BufStream

variable {σ : Type} {s s' : BufStream σ}

/-- How a write ends does not depend on what is written. -/
theorem writeAll_lockstep (peer peer' : Peer σ) (buf buf' : Bytes)
    (h : s.inner.writes = s'.inner.writes) :
    (writeAll peer buf s).1 = (writeAll peer' buf' s').1 ∧
      (writeAll peer buf s).2.inner.writes = (writeAll peer' buf' s').2.inner.writes := by
  unfold writeAll
  rw [← h]
  cases hwrites : s.inner.writes with
  | nil => exact ⟨rfl, h⟩
  | cons e es => cases e <;> simp [nextWrite, h]

theorem flush_lockstep (peer peer' : Peer σ) (h : s.inner.writes = s'.inner.writes) :
    (flush peer s).1 = (flush peer' s').1 ∧
      (flush peer s).2.inner.writes = (flush peer' s').2.inner.writes := by
  unfold flush
  rw [← h]
  cases hwrites : s.inner.writes with
  | nil => simp [h]
  | cons e es => cases e <;> simp [nextWrite, h]

end BufStream

namespace Connection

variable {σ : Type} {conn conn' : Connection σ}

/-- Two connections on which the coming writes and flushes end the same way. -/
structure InLockstep (conn conn' : Connection σ) : Prop where
  writes : conn.stream.inner.writes = conn'.stream.inner.writes
  tag : conn.tag = conn'.tag
  debug : conn.debug = conn'.debug

theorem InLockstep.refl (conn : Connection σ) : InLockstep conn conn := ⟨rfl, rfl, rfl⟩

theorem io_lockstep {f g : BufStream σ → Except ErrorKind Unit × BufStream σ}
    (h : ∀ s s', s.inner.writes = s'.inner.writes →
      (f s).1 = (g s').1 ∧ (f s).2.inner.writes = (g s').2.inner.writes) :
    Simulates InLockstep Eq (io f) (io g) := by
  intro conn conn' hconn
  obtain ⟨hresult, hwrites⟩ := h conn.stream conn'.stream hconn.writes
  rw [io_apply, io_apply, hresult]
  refine ⟨?_, hwrites, hconn.tag, hconn.debug⟩
  cases (g conn'.stream).1 with
  | ok u => exact .ok rfl
  | error k => exact .error _

theorem writeLine_lockstep (peer peer' : Peer σ) {buf buf' : Bytes} (hbuf : isUtf8 buf = true)
    (hbuf' : isUtf8 buf' = true) :
    Simulates InLockstep Eq (writeLine peer buf) (writeLine peer' buf') := by
  refine (io_lockstep fun _ _ => BufStream.writeAll_lockstep peer peer' _ _).bind fun _ _ _ => ?_
  refine (io_lockstep fun _ _ => BufStream.writeAll_lockstep peer peer' _ _).bind fun _ _ _ => ?_
  refine (io_lockstep fun _ _ => BufStream.flush_lockstep peer peer').bind fun _ _ _ => ?_
  intro conn conn' hconn
  simp only [Exec.of_apply, hbuf, hbuf', Bool.not_true, Bool.and_false, Bool.false_eq_true,
    if_false]
  exact ⟨.ok rfl, hconn⟩

theorem runCommand_lockstep (peer peer' : Peer σ) (text text' : Str) :
    Simulates InLockstep Eq (runCommand peer text) (runCommand peer' text') := by
  intro conn conn' hconn
  have next : InLockstep { conn with tag := conn.tag + 1 } { conn' with tag := conn'.tag + 1 } :=
    ⟨hconn.writes, congrArg (· + 1) hconn.tag, hconn.debug⟩
  obtain ⟨hresult, hstate⟩ := writeLine_lockstep peer peer' (isUtf8_utf8 _) (isUtf8_utf8 _) _ _ next
  simp only [runCommand, Exec.bind_apply, createCommand_apply, Exec.of_apply]
  generalize writeLine peer _ _ = out at hresult hstate ⊢
  generalize writeLine peer' _ _ = out' at hresult hstate ⊢
  obtain ⟨r, conn1⟩ := out
  obtain ⟨r', conn1'⟩ := out'
  cases hresult with
  | ok h => exact ⟨.ok h, hstate⟩
  | error e =>
      cases e with
      | err e => exact ⟨.error _, hstate.writes, congrArg (· - 1) hstate.tag, hstate.debug⟩
      | panic | running => exact ⟨.error _, hstate⟩

/-- What reading an answer comes to depends on the tag and the input alone. -/
theorem readResponse_congr (parse : ParseResponse) (htag : conn.tag = conn'.tag)
    (hdebug : conn.debug = conn'.debug) (hinput : conn.input = conn'.input) :
    (readResponse parse conn).1 = (readResponse parse conn').1 ∧
      (readResponse parse conn).2.tag = (readResponse parse conn').2.tag ∧
      (readResponse parse conn).2.input = (readResponse parse conn').2.input := by
  obtain ⟨us, u, conn1, hrun, hres, hin, hon⟩ := readResponse_answer parse conn
  obtain ⟨us', u', conn1', hrun', hres', hin', hon'⟩ := readResponse_answer parse conn'
  rw [printable_of_debug hdebug, hinput] at hrun
  obtain ⟨rfl, rfl⟩ := hrun.unique hrun'
  rw [hres, hres', htag]
  exact ⟨rfl, by rw [hon.tag, hon'.tag, htag], by rw [hin, hin']⟩

/-- The answers to two commands that are alike. -/
theorem command_alike {verb verb' : String} {c c' : Command} (peer peer' : Peer σ)
    (parse : ParseResponse) (htext : SameText verb verb' c.text c'.text)
    (hinput : (send peer c conn).2.input = (send peer' c' conn).2.input) :
    SameResult (command peer parse c conn).1 (command peer' parse c' conn).1 ∧
      (command peer parse c conn).2.tag = (command peer' parse c' conn).2.tag ∧
      (command peer parse c conn).2.input = (command peer' parse c' conn).2.input := by
  generalize ht : c.text = t at htext
  generalize ht' : c'.text = t' at htext
  cases htext with
  | none =>
      rw [command, Exec.bind_ok (send_none ht conn), command, Exec.bind_ok (send_none ht' conn)]
      exact ⟨.same _, rfl, rfl⟩
  | rejected h =>
      rw [command_failed (send_rejected ht conn), command_failed (send_rejected ht' conn)]
      exact ⟨.rejected h, rfl, rfl⟩
  | some args =>
      obtain ⟨hresult, hstate⟩ :=
        runCommand_lockstep peer peer' (verb.toList ++ args) (verb'.toList ++ args) conn conn (.refl _)
      have hsend := send_some peer ht conn
      have hsend' := send_some peer' ht' conn
      rw [hsend, hsend'] at hinput
      generalize runCommand peer _ conn = out at hresult hstate hinput hsend
      generalize runCommand peer' _ conn = out' at hresult hstate hinput hsend'
      obtain ⟨r, conn1⟩ := out
      obtain ⟨r', conn1'⟩ := out'
      cases hresult with
      | error e =>
          rw [command_failed hsend, command_failed hsend']
          exact ⟨.same _, hstate.tag, hinput⟩
      | ok h =>
          rw [command_sent hsend, command_sent hsend']
          obtain ⟨hread, htag, hrest⟩ := readResponse_congr parse hstate.tag hstate.debug hinput
          exact ⟨hread ▸ .same _, htag, hrest⟩

end Connection

end Writing

theorem Sibling.finish {verb verb' : String} {c c' : Command} (h : Sibling verb c verb' c')
    (parse : ParseResponse) : c.finish parse = c'.finish parse := by
  cases h <;> rfl

theorem Sibling.not_logout {verb verb' : String} {c c' : Command} (h : Sibling verb c verb' c') :
    c ≠ .logout ∧ c' ≠ .logout := by
  cases h <;> exact ⟨by simp, by simp⟩

/-- Operations with alike commands and one parser. -/
theorem operation_alike {σ : Type} {verb verb' : String} {c c' : Command} (peer peer' : Peer σ)
    (parse : ParseResponse) (s : Session σ) (finish : Bytes → Nat → Collect Value)
    (htext : SameText verb verb' c.text c'.text)
    (hinput : (Connection.send peer c s.conn).2.input =
      (Connection.send peer' c' s.conn).2.input) :
    SameOutcome (Session.operation peer parse c finish s)
      (Session.operation peer' parse c' finish s) := by
  obtain ⟨hresult, htag, hrest⟩ := Connection.command_alike peer peer' parse htext hinput
  cases hrun : Connection.command peer parse c s.conn with
  | mk r conn =>
  cases hrun' : Connection.command peer' parse c' s.conn with
  | mk r' conn' =>
  rw [hrun, hrun'] at hresult htag hrest
  cases hresult with
  | rejected h =>
      rw [Session.operation_error hrun, Session.operation_error hrun']
      exact ⟨.rejected h, htag, hrest, rfl⟩
  | same =>
      cases r with
      | error e =>
          rw [Session.operation_error hrun, Session.operation_error hrun']
          exact ⟨.same _, htag, hrest, rfl⟩
      | ok answer =>
          rw [Session.operation_ok hrun, Session.operation_ok hrun']
          exact ⟨.same _, htag, hrest, rfl⟩

/-- Without a pattern `LIST` asks for `""`, and `LSUB` for nothing at all. -/
theorem list_text_differs (referenceName : Option Str) :
    ¬SameText "LIST" "LSUB" (Command.list referenceName none).text
      (Command.lsub referenceName none).text := by
  intro h
  generalize ht : (Command.list referenceName none).text = t at h
  generalize ht' : (Command.lsub referenceName none).text = t' at h
  cases h with
  | none => cases ht
  | rejected => cases ht
  | some args =>
      have length : ∀ verb last : String,
          words [verb.toList, quote (referenceName.getD []), last.toList] = verb.toList ++ args →
            (quote (referenceName.getD [])).length + last.toList.length + 2 = args.length := by
        intro verb last h
        rw [words, iterJoin, SelfDelimiting.intercalate_cons] at h
        have rest := congrArg List.length (List.append_cancel_left h)
        simp only [List.flatMap_cons, List.flatMap_nil, List.length_append, List.length_cons,
          List.length_nil] at rest
        omega
      have longer := length "LIST" "\"\"" (Option.some.inj (Except.ok.inj ht))
      have shorter := length "LSUB" "" (Option.some.inj (Except.ok.inj ht'))
      simp only [String.toList_empty, List.length_nil] at shorter
      have two : "\"\"".toList.length = 2 := rfl
      omega

/-- Sibling commands are alike except for `list` and `lsub` without a pattern. -/
theorem siblings_alike {verb verb' : String} {c c' : Command} (h : Sibling verb c verb' c') :
    Alike verb c verb' c' ↔ ∀ referenceName, c ≠ .list referenceName none := by
  constructor
  · rintro halike referenceName rfl
    cases h
    exact list_text_differs referenceName halike.text
  · intro hpattern
    refine ⟨h.text hpattern, ?_⟩
    intro σ peer peer' parse s op op' hop hop' hinput
    rw [Session.execute_eq peer parse hop h.not_logout.1,
      Session.execute_eq peer' parse hop' h.not_logout.2, ← h.finish parse]
    exact operation_alike peer peer' parse s _ (h.text hpattern) hinput

/-- `LIST` and `LSUB` of nothing. -/
theorem siblings_alike_fails :
    ¬ ∀ verb c verb' c', Sibling verb c verb' c' → Alike verb c verb' c' := by
  intro h
  exact list_text_differs none (h _ _ _ _ (.list none none)).text

theorem siblings_alike_search :
    Alike "SEARCH" (.search "ALL".toList) "UID SEARCH" (.uidSearch "ALL".toList) :=
  (siblings_alike (.search "ALL".toList)).mpr (by simp)

end RustImap
