import Mathlib.Data.List.TakeWhile
import RustImap.FailedSend
import RustImap.Speaking
import RustImap.Synchronisation

/-!
Answers that come late.

A read that fails leaves its answer to the next command, which then leaves its own to the one
after it. Nothing in the client makes up for that: the answers stay late by as many commands as
reads have failed, and every command that is sent fails.
-/

namespace RustImap

variable {σ τ : Type}

theorem parseU32_decimal (n : UInt32) : parseU32 (decimal n.toNat) = some n := by
  have value : Nat.ofDigitChars 10 (decimal n.toNat) 0 = n.toNat := Nat.ofDigitChars_ten_toDigits
  have digits : ∀ c ∈ decimal n.toNat, c.isDigit = true := fun c => isDigit_of_mem_decimal
  have nonempty : decimal n.toNat ≠ [] := Nat.toDigits_ne_nil
  unfold parseU32
  generalize decimal n.toNat = s at value digits nonempty
  cases s with
  | nil => exact absurd rfl nonempty
  | cons c s =>
      have all : (c :: s).any (fun c => !c.isDigit) = false := by
        simpa using digits
      dsimp only
      split
      · rename_i heq
        cases heq
        exact absurd (digits '+' List.mem_cons_self) (by decide)
      · rw [if_neg (by simp [all]), value, if_pos n.toNat_lt, UInt32.ofNat_toNat]

/-- A tag of the client is reported as its number. -/
theorem actualTag_matchTag (n : UInt32) : actualTag (matchTag n) = .inl n := by
  have trimmed : (matchTag n).dropWhile (· = 'a') = decimal n.toNat := by
    change (decimal n.toNat).dropWhile (· = 'a') = _
    refine List.dropWhile_eq_self_iff.mpr fun hl => ?_
    have digit := isDigit_of_mem_decimal (List.getElem_mem hl)
    intro heq
    rw [of_decide_eq_true heq] at digit
    cases digit
  rw [actualTag, trimmed, parseU32_decimal]

def Message.doneTag : Message → Option Str
  | .response (.done tag _ _ _) => some tag
  | _ => none

/-- The tags of the tagged responses, in order. -/
def doneTags (ms : List Message) : List Str := ms.filterMap Message.doneTag

/-- The tags of the last `k` commands, in order. -/
def owed : Nat → UInt32 → List Str
  | 0, _ => []
  | k + 1, tag => owed k (tag - 1) ++ [matchTag tag]

theorem owed_succ (k : Nat) (tag : UInt32) :
    owed (k + 1) tag = matchTag (tag - UInt32.ofNat k) :: owed k tag := by
  induction k generalizing tag with
  | zero => simp [owed]
  | succ k ih =>
      have shift : tag - 1 - UInt32.ofNat k = tag - UInt32.ofNat (k + 1) := by
        rw [UInt32.ofNat_add]
        grind
      rw [owed, ih, List.cons_append, shift]
      rfl

/-- Every command is answered once, whatever is sent around the answer and however often reads
fail. -/
def Server.AnswersOnce (serve : Server τ) (understands : Str → Prop) : Prop :=
  ∀ t tag text, understands text → doneTags (serve t tag text).2 = [matchTag tag]

/-- The answers to the last `k` commands are still to be read. -/
def Dialogue.Late (d : Dialogue τ) (k : Nat) : Prop := doneTags d.inbox = owed k d.tag

/-- What ends an answer, and which tagged responses are left. -/
theorem answerOf_doneTags (ms : List Message) :
    ((answerOf ms).2.1 = .lost ∧ doneTags ms = []) ∨
      (∃ kind, (answerOf ms).2.1 = .failed kind ∧ doneTags (answerOf ms).2.2 = doneTags ms) ∨
      ∃ tag status code information,
        (answerOf ms).2.1 = .done tag status code information ∧
          doneTags ms = tag :: doneTags (answerOf ms).2.2 := by
  fun_induction answerOf ms with
  | case1 => exact .inl ⟨rfl, rfl⟩
  | case2 kind inbox => exact .inr (.inl ⟨kind, rfl, rfl⟩)
  | case3 tag status code information inbox =>
      exact .inr (.inr ⟨tag, status, code, information, rfl, rfl⟩)
  | case4 r inbox hr ih =>
      have skipped : doneTags (.response r :: inbox) = doneTags inbox := by
        cases r <;> first | rfl | exact absurd rfl (hr _ _ _ _)
      rw [skipped]
      exact ih

variable {peer : Peer σ} {parse : ParseResponse} {serve : Server τ} {understands : Str → Prop}
variable {B : σ → σ → Prop} {C : σ → τ → Prop}

theorem Dialogue.Late.say (hserve : serve.AnswersOnce understands) {d : Dialogue τ} {k : Nat}
    (h : d.Late k) {text : Str} (htext : understands text) :
    (Dialogue.say serve text d).2.Late (k + 1) := by
  change doneTags (d.inbox ++ _) = owed k (d.tag + 1 - 1) ++ [matchTag (d.tag + 1)]
  rw [UInt32.add_sub_cancel, ← h, ← hserve d.server (d.tag + 1) text htext]
  exact List.filterMap_append

namespace Connection

/-- The connection carries a dialogue whose last `k` answers are still to be read. -/
def Lagging (parse : ParseResponse) (C : σ → τ → Prop) (conn : Connection σ) (k : Nat) : Prop :=
  ∃ d, Session.Carries parse C ⟨conn, []⟩ d ∧ d.Late k

/-- A read that has failed. -/
def IsIo {α : Type} (r : Except Fault α) : Prop := ∃ kind, r = .error (.err (.io kind))

/-- A tagged response has been read, that of the command `k` commands before. -/
structure ReadsBefore {α : Type} (tag : UInt32) (k : Nat) (r : Except Fault α) : Prop where
  finished : ¬IsIo r
  other : 0 < k → r = .error (.err (.tagMismatch
    { expect := tag, actual := .inl (tag - UInt32.ofNat k) }))
  own : k = 0 → ∀ e, r ≠ .error (.err (.tagMismatch e))

variable {conn : Connection σ} {k : Nat}

/-- With `k` answers before its own, a command reads the oldest of them. -/
theorem Lagging.read (hp : parse.Framed LF) (h : conn.Lagging parse C (k + 1)) (hk : k < 2 ^ 32) :
    ∃ r conn', readResponse parse conn = (r, conn') ∧ conn'.tag = conn.tag ∧
      (IsIo r ∧ conn'.Lagging parse C (k + 1) ∨
        ReadsBefore conn.tag k r ∧ conn'.Lagging parse C k) := by
  obtain ⟨d, hd, late⟩ := h
  obtain ⟨us, u, conn', reads, hread, hd'⟩ := hd.listen hp
  have htag : conn.tag = d.tag := hd.tag
  refine ⟨_, conn', hread, hd'.tag.trans htag.symm, ?_⟩
  have ends := reads.ends
  unfold Dialogue.Late at late
  rw [owed_succ] at late
  rcases answerOf_doneTags d.inbox with ⟨-, hnone⟩ | ⟨kind, hend, hrest⟩ |
    ⟨tag, status, code, information, hend, hrest⟩
  · rw [hnone] at late
    cases late
  · rw [hend] at ends
    cases ends
    refine .inl ⟨⟨kind, rfl⟩, _, hd', ?_⟩
    change doneTags (answerOf d.inbox).2.2 = owed (k + 1) d.tag
    rw [hrest, late, owed_succ]
  · rw [hend] at ends
    cases ends
    rw [hrest] at late
    obtain ⟨rfl, hlater⟩ := List.cons.inj late
    change doneTags (answerOf d.inbox).2.2 = owed k d.tag at hlater
    rw [← htag]
    by_cases hzero : k = 0
    · subst hzero
      have own : conn.tag - UInt32.ofNat 0 = conn.tag := UInt32.sub_zero _
      rw [own, answerResult_status rfl]
      refine .inr ⟨⟨?_, fun hpos => absurd hpos (Nat.lt_irrefl 0), fun _ e he => ?_⟩,
        _, hd', hlater⟩
      · rintro ⟨kind, hkind⟩
        cases status <;> cases hkind
      · cases status <;> cases he
    · have other : matchTag (conn.tag - UInt32.ofNat k) ≠ matchTag conn.tag := by
        intro heq
        have next := tag_add_ne (conn.tag - UInt32.ofNat k) (Nat.pos_of_ne_zero hzero) hk
        rw [UInt32.sub_add_cancel] at next
        exact next (matchTag_inj heq).symm
      rw [answerResult_mismatch rfl other, actualTag_matchTag]
      refine .inr ⟨⟨?_, fun _ => rfl, fun h => absurd h hzero⟩, _, hd', hlater⟩
      rintro ⟨kind, hkind⟩
      cases hkind

/-- A command is sent behind the answers that are owed. -/
theorem Lagging.command (hp : parse.Framed LF) (hpeer : peer.Speaks parse serve understands B C)
    (hserve : serve.AnswersOnce understands) (h : conn.Lagging parse C k) (hk : k < 2 ^ 32)
    {c : Command} {text : Str} (htext : c.text = .ok (some text)) (hunderstood : understands text) :
    ∃ r conn', Connection.command peer parse c conn = (r, conn') ∧
      (IsIo r ∧ conn'.Lagging parse C (k + 1) ∨
        ReadsBefore (conn.tag + 1) k r ∧ conn'.Lagging parse C k) := by
  obtain ⟨d, hd, late⟩ := h
  obtain ⟨conn1, hrun, hd1⟩ := hd.say hpeer hunderstood
  have owing : conn1.Lagging parse C (k + 1) := ⟨_, hd1, late.say hserve hunderstood⟩
  have htag : conn1.tag = conn.tag + 1 := hd1.tag.trans (congrArg (· + 1) hd.tag.symm)
  obtain ⟨r, conn', hread, -, hr⟩ := owing.read hp hk
  rw [htag] at hr
  refine ⟨r, conn', ?_, hr⟩
  rw [Connection.command_run htext, Connection.run, Exec.bind_ok hrun, hread]

/-- A command that is not sent changes nothing. -/
theorem command_unsent {c : Command} (h : ∀ text, c.text ≠ .ok (some text)) :
    (Connection.command peer parse c conn).2 = conn := by
  cases htext : c.text with
  | error e => rw [command_failed (send_rejected htext conn)]
  | ok sent =>
      cases sent with
      | none =>
          rw [Connection.command, Exec.bind_ok (send_none htext conn)]
          rfl
      | some text => exact absurd htext (h text)

end Connection

namespace Session

open Connection (Lagging IsIo)

variable {op : Exec (Session σ) Fault Value} {c : Command} {s s' : Session σ}

/-- `n` operations have been run from `s`, of which `k` have ended with a failed read. -/
inductive Ran (peer : Peer σ) (parse : ParseResponse) (understands : Str → Prop)
    (s : Session σ) : Nat → Nat → Session σ → Prop
  | start : Ran peer parse understands s 0 0 s
  | finished {n k : Nat} {s' : Session σ} {c : Command} {op : Exec (Session σ) Fault Value} :
      Ran peer parse understands s n k s' → execute peer parse c = some op →
      (∀ text, c.text = .ok (some text) → understands text) →
      ¬IsIo (Connection.command peer parse c s'.conn).1 →
      Ran peer parse understands s (n + 1) k (op s').2
  | failed {n k : Nat} {s' : Session σ} {c : Command} {op : Exec (Session σ) Fault Value}
      {text : Str} : Ran peer parse understands s n k s' → execute peer parse c = some op →
      c.text = .ok (some text) → understands text →
      IsIo (Connection.command peer parse c s'.conn).1 →
      Ran peer parse understands s (n + 1) (k + 1) (op s').2
  | takeAllUnsolicited {n k : Nat} {s' : Session σ} : Ran peer parse understands s n k s' →
      Ran peer parse understands s n k (takeAllUnsolicited s').2

/-- The answers are late by as many commands as reads have failed. -/
theorem Ran.lagging (hp : parse.Framed LF) (hpeer : peer.Speaks parse serve understands B C)
    (hserve : serve.AnswersOnce understands) {n k : Nat} (hn : n < 2 ^ 32)
    (h : Ran peer parse understands s n k s') (hs : Lagging parse C s.conn 0) :
    k ≤ n ∧ Lagging parse C s'.conn k := by
  induction h with
  | start => exact ⟨Nat.le_refl 0, hs⟩
  | takeAllUnsolicited _ ih => exact ih hn
  | @finished n k s' c op _ hop hunderstood hfinished ih =>
      obtain ⟨hkn, hlag⟩ := ih (by omega)
      rw [Completes.conn (.command hop)]
      refine ⟨by omega, ?_⟩
      by_cases hsent : ∃ text, c.text = .ok (some text)
      · obtain ⟨text, htext⟩ := hsent
        obtain ⟨r, conn', hread, ⟨hio, -⟩ | ⟨-, hnext⟩⟩ :=
          hlag.command hp hpeer hserve (by omega) htext (hunderstood text htext)
        · rw [hread] at hfinished
          exact absurd hio hfinished
        · rw [hread]
          exact hnext
      · rw [Connection.command_unsent fun text htext => hsent ⟨text, htext⟩]
        exact hlag
  | @failed n k s' c op text _ hop htext hunderstood hfailed ih =>
      obtain ⟨hkn, hlag⟩ := ih (by omega)
      refine ⟨by omega, ?_⟩
      obtain ⟨r, conn', hread, ⟨-, hnext⟩ | ⟨hbefore, -⟩⟩ :=
        hlag.command hp hpeer hserve (by omega) htext hunderstood
      · rw [Completes.conn (.command hop), hread]
        exact hnext
      · rw [hread] at hfailed
        exact absurd hfailed hbefore.finished

/-- After `k` failed reads a command that is sent meets another one or fails with the tag of the
command `k` commands before it; only where no read has failed it gets its own answer. -/
theorem late_by (hp : parse.Framed LF) (hpeer : peer.Speaks parse serve understands B C)
    (hserve : serve.AnswersOnce understands) {n k : Nat} (hn : n < 2 ^ 32)
    (hs : Lagging parse C s.conn 0) (h : Ran peer parse understands s n k s')
    (hop : execute peer parse c = some op) {text : Str} (htext : c.text = .ok (some text))
    (hunderstood : understands text) :
    IsIo (op s').1 ∨ (0 < k → (op s').1 = .error (.err (.tagMismatch
        { expect := s'.conn.tag + 1, actual := .inl (s'.conn.tag + 1 - UInt32.ofNat k) }))) ∧
      (k = 0 → ∀ e, (Connection.command peer parse c s'.conn).1 ≠
        .error (.err (.tagMismatch e))) := by
  obtain ⟨hkn, hlag⟩ := h.lagging hp hpeer hserve hn hs
  obtain ⟨r, conn', hread, ⟨⟨kind, hio⟩, -⟩ | ⟨hbefore, -⟩⟩ :=
    hlag.command hp hpeer hserve (by omega) htext hunderstood
  · refine .inl ⟨kind, Completes.error (.command hop) ?_ (by simp)⟩
    rw [hread, hio]
  · refine .inr ⟨fun hpos => Completes.error (.command hop) ?_ (by simp), fun hzero e => ?_⟩
    · rw [hread, hbefore.other hpos]
    · rw [hread]
      exact hbefore.own hzero e

/-- A server that answers every command with `OK`. -/
def okServer : Server Unit := fun _ tag _ => ((), [.response (.done (matchTag tag) .ok none none)])

theorem okServer_answersOnce : okServer.AnswersOnce SingleLine :=
  fun _ _ _ _ => rfl

open Connection (okAnswer okParse okSuffix)

/-- A command line begins with its tag. -/
theorem takeWhile_command (tag : UInt32) (text : Str) :
    (utf8 (matchTag tag ++ ' ' :: text) ++ [CR] ++ [LF]).takeWhile (· ≠ 0x20) =
      utf8 (matchTag tag) := by
  have stop : (utf8 (' ' :: text) ++ [CR] ++ [LF]).takeWhile (· ≠ 0x20) = [] := rfl
  rw [utf8_append, List.append_assoc, List.append_assoc, List.takeWhile_append_of_pos,
    ← List.append_assoc, stop, List.append_nil]
  intro b hb
  rw [decide_eq_true_eq]
  rintro rfl
  exact Connection.space_not_mem_matchTag tag hb

/-- The server answers a command with its tag. -/
theorem feed_okAnswer {p : LineServer Unit} (h : p.pending = []) {text : Str}
    (htext : SingleLine text) (tag : UInt32) :
    feed (LineServer.step okAnswer) p (utf8 (matchTag tag ++ ' ' :: text) ++ [CR, LF]) =
      (⟨(), []⟩, ReadEvent.chunk (utf8 (matchTag tag) ++ okSuffix)) := by
  have fed := LineServer.feed_line okAnswer p.state []
    (Connection.LF_not_mem_command htext tag)
  have start : p = ⟨p.state, []⟩ := by rw [← h]
  rw [List.nil_append, okAnswer, takeWhile_command, List.append_assoc] at fed
  rw [start]
  exact fed

theorem okAnswer_speaks : Peer.Speaks (feed (LineServer.step okAnswer)) okParse okServer
    SingleLine Eq (fun server _ => server.pending = []) where
  streams := feed_streams _
  same p q t heq h := by
    rw [heq]
    exact h
  next p t tag text htext h := by rw [feed_okAnswer h htext]
  answer p t tag text htext h := by
    rw [feed_okAnswer h htext, ReadEvent.events_chunk, ← List.append_nil (List.map _ _)]
    exact .response (Connection.okParse_accepts tag) .nil

/-- A session whose first read times out. -/
def interrupted : Session (LineServer Unit) :=
  .new { Connection.fresh with
    stream := .new
      { peer := ⟨(), []⟩, incoming := [.err .timedOut], writes := [], timeouts := [],
        readTimeout := none, wire := [] } }

def noopOk : Exec (Session (LineServer Unit)) Fault Value :=
  (fun _ => .unit) <$> noop (feed (LineServer.step okAnswer)) okParse

theorem interrupted_lagging :
    Lagging okParse (fun server (_ : Unit) => server.pending = []) interrupted.conn 0 := by
  have reliable : interrupted.conn.stream.Reliable := fun e he => (by cases he)
  exact ⟨⟨(), [.failure .timedOut], 0, []⟩,
    ⟨rfl, .failure .nil, rfl, rfl, rfl, reliable, rfl⟩, rfl⟩

theorem late_by_interrupted :
    Connection.IsIo (noopOk (noopOk interrupted).2).1 ∨
      (0 < 1 → (noopOk (noopOk interrupted).2).1 = .error (.err (.tagMismatch
        { expect := (noopOk interrupted).2.conn.tag + 1,
          actual := .inl ((noopOk interrupted).2.conn.tag + 1 - UInt32.ofNat 1) }))) ∧
      (1 = 0 → ∀ e, (Connection.command (feed (LineServer.step okAnswer)) okParse .noop
        (noopOk interrupted).2.conn).1 ≠ .error (.err (.tagMismatch e))) := by
  have sent : Command.noop.text = .ok (some "NOOP".toList) := by decide
  have line : SingleLine "NOOP".toList := by decide
  have first : Connection.IsIo (Connection.command (feed (LineServer.step okAnswer)) okParse .noop
      interrupted.conn).1 :=
    ⟨.timedOut, by decide⟩
  exact late_by Connection.okParse_framed okAnswer_speaks okServer_answersOnce (n := 1) (by decide)
    interrupted_lagging (.failed .start (c := .noop) rfl sent line first) (c := .noop) rfl sent line

end Session

end RustImap
