import RustImap.Classification

/-!
Commands whose sending fails.

`run_command` takes the tag back when the write fails, on the assumption that the
command did not reach the server. What the stream has buffered it does not take back.
A byte is followed here by its position among all bytes ever accepted for sending.
-/

namespace RustImap
namespace Connection

variable {σ : Type} (peer : Peer σ)

/-- The connection after a sequence of calls of `run_command`, whatever they returned. -/
def afterCalls (conn : Connection σ) (texts : List Str) : Connection σ :=
  texts.foldl (fun conn text => (runCommand peer text conn).2) conn

/-- How much has reached the transport. -/
def sentLength (conn : Connection σ) : Nat := conn.stream.inner.sent.length

/-- The calls before a call of the sequence, the call, and the calls after it. -/
structure CallIn (texts : List Str) where
  before : List Str
  text : Str
  after : List Str
  split : texts = before ++ text :: after

namespace CallIn

variable {texts : List Str} (call : CallIn texts) (conn : Connection σ)

def start : Connection σ := afterCalls peer conn call.before

def finish : Connection σ := (runCommand peer call.text (call.start peer conn)).2

/-- The line this call has to send. -/
def line : Bytes := (call.start peer conn).commandLine call.text

def failed : Prop := (runCommand peer call.text (call.start peer conn)).1 ≠ .ok ()

/-- The bytes this call gave to the stream are at these positions. -/
def Owns (position : Nat) : Prop :=
  (call.start peer conn).total.length ≤ position ∧ position < (call.finish peer conn).total.length

/-- The whole line of this call has reached the transport at the end of the sequence. -/
def Arrived : Prop :=
  (call.finish peer conn).total = (call.start peer conn).total ++ call.line peer conn ∧
    (call.finish peer conn).total.length ≤ (afterCalls peer conn texts).sentLength

def tag : Str := matchTag ((call.start peer conn).tag + 1)

end CallIn

/-- A call that failed sends nothing after it has returned. -/
def NothingBehind (conn : Connection σ) (texts : List Str) : Prop :=
  ∀ call : CallIn texts, call.failed peer conn → ∀ position, call.Owns peer conn position →
    position < (afterCalls peer conn texts).sentLength →
    position < (call.finish peer conn).sentLength

/-- Command lines that have arrived carry different tags. -/
def DistinctTags (conn : Connection σ) (texts : List Str) : Prop :=
  ∀ call call' : CallIn texts, call.before.length < call'.before.length →
    call.Arrived peer conn → call'.Arrived peer conn → call.tag peer conn ≠ call'.tag peer conn

/-- What a write of `buf` meets: a `write_all` that fails leaves nothing in the buffer, and
no flush fails. -/
def FailsClean (s : BufStream σ) (buf : Bytes) : Prop :=
  match BufStream.writeAll peer buf s with
  | (.error _, s) => s.wbuf = []
  | (.ok _, s) =>
      match BufStream.writeAll peer [CR, LF] s with
      | (.error _, s) => s.wbuf = []
      | (.ok _, s) => (BufStream.flush peer s).1 = .ok ()

/-- The stream a call writes to, and what the call writes first. -/
def CallIn.FailsClean {texts : List Str} (call : CallIn texts) (conn : Connection σ) : Prop :=
  Connection.FailsClean peer (call.start peer conn).stream
    (utf8 (matchTag ((call.start peer conn).tag + 1) ++ ' ' :: call.text))

variable {peer}

theorem writeLine_clean {conn : Connection σ} {buf : Bytes} (hutf8 : isUtf8 buf = true)
    (h : FailsClean peer conn.stream buf) :
    (writeLine peer buf conn).2.stream.wbuf = [] ∧
      ((writeLine peer buf conn).1 = .ok () ∨
        (∃ k, (writeLine peer buf conn).1 = .error (.err (.io k))) ∧
          (writeLine peer buf conn).2.total ≠ conn.total ++ (buf ++ [CR, LF])) := by
  obtain ⟨w1, htotal1, hw1⟩ := BufStream.writeAll_total peer buf conn.stream
  simp only [writeLine, Exec.bind_apply, io_apply, Exec.of_apply]
  unfold FailsClean at h
  cases h1 : BufStream.writeAll peer buf conn.stream with
  | mk r1 s1 =>
  rw [h1] at h htotal1 hw1
  cases r1 with
  | error k =>
      refine ⟨h, .inr ⟨⟨k, rfl⟩, fun heq => ?_⟩⟩
      have short := (hw1.trans (List.dropLast_prefix buf)).length_le
      have long := congrArg List.length (List.append_cancel_left (htotal1.symm.trans heq))
      simp only [List.length_append, List.length_cons, List.length_nil] at long
      omega
  | ok u1 =>
  obtain ⟨w2, htotal2, hw2⟩ := BufStream.writeAll_total peer [CR, LF] s1
  cases h2 : BufStream.writeAll peer [CR, LF] s1 with
  | mk r2 s2 =>
  simp only [h2] at h htotal2 hw2
  simp only [Except.mapError, h2]
  cases r2 with
  | error k =>
      refine ⟨h, .inr ⟨⟨k, rfl⟩, fun heq => ?_⟩⟩
      obtain rfl : w1 = buf := hw1
      have htotal : s2.total = conn.total ++ (w1 ++ w2) := by
        rw [htotal2, htotal1, List.append_assoc]
        rfl
      have hw := List.append_cancel_left (htotal.symm.trans heq)
      have short := hw2.length_le
      rw [List.append_cancel_left hw] at short
      simp at short
  | ok u2 =>
  obtain ⟨-, hempty⟩ := BufStream.flush_total peer s2
  simp only [h, hutf8, Bool.not_true, Bool.and_false, Bool.false_eq_true, if_false]
  exact ⟨hempty h, .inl trivial⟩

/-- A clean call leaves nothing buffered, and counts the tag exactly if all of its line was
taken. -/
theorem runCommand_clean {conn : Connection σ} {text : Str}
    (h : FailsClean peer conn.stream (utf8 (matchTag (conn.tag + 1) ++ ' ' :: text))) :
    (runCommand peer text conn).2.stream.wbuf = [] ∧
      ((runCommand peer text conn).2.tag = conn.tag + 1 ∨
        (runCommand peer text conn).2.tag = conn.tag ∧
          (runCommand peer text conn).2.total ≠ conn.total ++ conn.commandLine text) := by
  have hline := writeLine_clean (isUtf8_utf8 (matchTag (conn.tag + 1) ++ ' ' :: text))
    (show FailsClean peer ({ conn with tag := conn.tag + 1 } : Connection σ).stream _ from h)
  obtain ⟨w, -, same, -⟩ := writeLine_total peer
    (isUtf8_utf8 (matchTag (conn.tag + 1) ++ ' ' :: text)) { conn with tag := conn.tag + 1 }
  simp only [runCommand, Exec.bind_apply, createCommand_apply, Exec.of_apply]
  cases hwrite : writeLine peer (utf8 (matchTag (conn.tag + 1) ++ ' ' :: text))
      { conn with tag := conn.tag + 1 } with
  | mk r conn' =>
  rw [hwrite] at hline same
  obtain ⟨hempty, hok | ⟨⟨k, herr⟩, hpart⟩⟩ := hline
  · obtain rfl : r = .ok () := hok
    exact ⟨hempty, .inl same.tag⟩
  · obtain rfl : r = .error (.err (.io k)) := herr
    have htag : conn'.tag = conn.tag + 1 := same.tag
    exact ⟨hempty, .inr ⟨by simp only [htag, UInt32.add_sub_cancel], hpart⟩⟩

theorem afterCalls_append (conn : Connection σ) (texts texts' : List Str) :
    afterCalls peer conn (texts ++ texts') = afterCalls peer (afterCalls peer conn texts) texts' :=
  List.foldl_append

/-- Every call of the sequence meets a transport that fails clean. -/
def AllFailClean (peer : Peer σ) (conn : Connection σ) (texts : List Str) : Prop :=
  ∀ call : CallIn texts, call.FailsClean peer conn

theorem AllFailClean.of_nil {conn : Connection σ} : AllFailClean peer conn [] := by
  rintro ⟨before, text, after, split⟩
  simp at split

theorem AllFailClean.of_cons {conn : Connection σ} {text : Str} {texts : List Str}
    (head : FailsClean peer conn.stream (utf8 (matchTag (conn.tag + 1) ++ ' ' :: text)))
    (tail : AllFailClean peer (runCommand peer text conn).2 texts) :
    AllFailClean peer conn (text :: texts) := by
  rintro ⟨before, text', after, split⟩
  cases before with
  | nil =>
      obtain ⟨rfl, -⟩ := List.cons.inj split
      exact head
  | cons first before =>
      obtain ⟨rfl, rest⟩ := List.cons.inj split
      exact tail ⟨before, text', after, rest⟩

theorem AllFailClean.cons {conn : Connection σ} {text : Str} {texts : List Str}
    (h : AllFailClean peer conn (text :: texts)) :
    FailsClean peer conn.stream (utf8 (matchTag (conn.tag + 1) ++ ' ' :: text)) ∧
      AllFailClean peer (runCommand peer text conn).2 texts := by
  refine ⟨h ⟨[], text, texts, rfl⟩, fun call => ?_⟩
  exact h ⟨text :: call.before, call.text, call.after, congrArg (text :: ·) call.split⟩

/-- After clean calls nothing is buffered, and the tag has gone up by at most one for each
of them. -/
theorem afterCalls_clean {conn : Connection σ} {texts : List Str}
    (hempty : conn.stream.wbuf = []) (h : AllFailClean peer conn texts) :
    (afterCalls peer conn texts).stream.wbuf = [] ∧
      ∃ n, n ≤ texts.length ∧ (afterCalls peer conn texts).tag = conn.tag + UInt32.ofNat n := by
  induction texts generalizing conn with
  | nil => exact ⟨hempty, 0, Nat.le_refl 0, by simp [afterCalls]⟩
  | cons text texts ih =>
      obtain ⟨head, tail⟩ := h.cons
      obtain ⟨hempty', htag⟩ := runCommand_clean head
      obtain ⟨last, n, hn, hlast⟩ := ih hempty' tail
      refine ⟨last, ?_⟩
      rcases htag with htag | ⟨htag, -⟩
      · refine ⟨n + 1, Nat.succ_le_succ hn, ?_⟩
        change (afterCalls peer (runCommand peer text conn).2 texts).tag = _
        rw [hlast, htag, UInt32.ofNat_add, UInt32.add_assoc, UInt32.add_comm 1]
        rfl
      · refine ⟨n, Nat.le_succ_of_le hn, ?_⟩
        change (afterCalls peer (runCommand peer text conn).2 texts).tag = _
        rw [hlast, htag]

theorem AllFailClean.after {conn : Connection σ} {texts texts' : List Str}
    (h : AllFailClean peer conn (texts ++ texts')) :
    AllFailClean peer (afterCalls peer conn texts) texts' := by
  induction texts generalizing conn with
  | nil => exact h
  | cons text texts ih => exact ih h.cons.2

theorem AllFailClean.before {conn : Connection σ} {texts texts' : List Str}
    (h : AllFailClean peer conn (texts ++ texts')) : AllFailClean peer conn texts := by
  intro call
  refine h ⟨call.before, call.text, call.after ++ texts', ?_⟩
  have split := congrArg (· ++ texts') call.split
  simpa only [List.append_assoc, List.cons_append] using split

theorem CallIn.before_of_lt {texts : List Str} {call call' : CallIn texts}
    (h : call.before.length < call'.before.length) :
    ∃ between, call'.before = call.before ++ call.text :: between := by
  have split := call.split.symm.trans call'.split
  rcases List.append_eq_append_iff.mp split with ⟨between, hbefore, hafter⟩ | ⟨more, hbefore, -⟩
  · cases between with
    | nil =>
        rw [hbefore, List.append_nil] at h
        omega
    | cons text between =>
        obtain ⟨rfl, -⟩ := List.cons.inj hafter
        exact ⟨between, hbefore⟩
  · rw [hbefore, List.length_append] at h
    omega

theorem matchTag_inj {a b : UInt32} (h : matchTag a = matchTag b) : a = b :=
  UInt32.toNat_inj.mp (decimal_inj (List.append_cancel_left h))

/-- Counting on from a tag, fewer than `2 ^ 32` times, does not come back to it. -/
theorem tag_add_ne (tag : UInt32) {n : Nat} (hpos : 0 < n) (hn : n < 2 ^ 32) :
    tag + UInt32.ofNat n ≠ tag := by
  intro h
  have nat := congrArg UInt32.toNat h
  rw [UInt32.toNat_add, UInt32.toNat_ofNat_of_lt' hn] at nat
  have := tag.toNat_lt
  omega

/-- A failed send leaves nothing behind, in every run whose calls meet a transport that
fails clean. -/
theorem failedSend (peer : Peer σ) {conn : Connection σ} {texts : List Str}
    (hlength : texts.length < 2 ^ 32) (h : AllFailClean peer conn texts) :
    NothingBehind peer conn texts ∧ DistinctTags peer conn texts := by
  constructor
  · intro call _ position howns _
    have hclean : (call.finish peer conn).stream.wbuf = [] := (runCommand_clean (h call)).1
    have hall : (call.finish peer conn).total = (call.finish peer conn).stream.inner.sent := by
      rw [total, BufStream.total, hclean, List.append_nil]
    rw [sentLength, ← hall]
    exact howns.2
  · intro call call' hlt harrived _ htags
    obtain ⟨between, hbefore⟩ := CallIn.before_of_lt hlt
    obtain ⟨hclean, htag | ⟨-, hpart⟩⟩ := runCommand_clean (h call)
    · have hstart : call'.start peer conn = afterCalls peer (call.finish peer conn) between := by
        rw [CallIn.start, hbefore, afterCalls_append]
        rfl
      have hfinish : afterCalls peer conn (call.before ++ [call.text]) = call.finish peer conn := by
        rw [afterCalls_append]
        rfl
      have hbetween : AllFailClean peer (call.finish peer conn) between := by
        have hsplit : texts =
            (call.before ++ [call.text]) ++ (between ++ call'.text :: call'.after) := by
          conv => lhs; rw [call'.split, hbefore]
          simp
        rw [hsplit] at h
        rw [← hfinish]
        exact h.after.before
      obtain ⟨-, n, hn, hlast⟩ := afterCalls_clean hclean hbetween
      have htag' : (call'.start peer conn).tag =
          (call.start peer conn).tag + 1 + UInt32.ofNat n := by
        rw [hstart, ← htag]
        exact hlast
      have heq := matchTag_inj htags
      rw [htag', UInt32.add_assoc _ (UInt32.ofNat n)] at heq
      have hshort : n + 1 < 2 ^ 32 := by
        have hcount := congrArg List.length call'.split
        simp only [hbefore, List.length_append, List.length_cons] at hcount
        omega
      refine tag_add_ne ((call.start peer conn).tag + 1) (Nat.succ_pos n) hshort ?_
      have hsucc : UInt32.ofNat (n + 1) = UInt32.ofNat n + 1 := UInt32.ofNat_add n 1
      rw [hsucc]
      exact heq.symm
    · exact hpart harrived.1

/-- A transport that will end the coming writes in these ways. -/
def writing (writes : List WriteEvent) : Connection Unit :=
  let conn := reading [] false
  { conn with stream := { conn.stream with inner := { conn.stream.inner with writes } } }

/-- The first write is refused outright; the next command goes out and nothing else. -/
theorem failedSend_refused :
    NothingBehind silent (writing [.err .other 0 0]) ["NOOP".toList, "CHECK".toList] ∧
      DistinctTags silent (writing [.err .other 0 0]) ["NOOP".toList, "CHECK".toList] := by
  refine failedSend silent (by decide) ?_
  exact .of_cons rfl (.of_cons rfl .of_nil)

/-- The flush fails with everything still buffered: the next command takes the same tag,
and both lines go out. -/
theorem failedSend_fails :
    ¬ ∀ (conn : Connection Unit) (texts : List Str), texts.length < 2 ^ 32 →
      NothingBehind silent conn texts ∧ DistinctTags silent conn texts := by
  intro h
  obtain ⟨-, distinct⟩ := h (writing [.done 0, .done 0, .err .other 0 0])
    ["NOOP".toList, "CHECK".toList] (by decide)
  refine distinct ⟨[], _, _, rfl⟩ ⟨["NOOP".toList], _, [], rfl⟩ (by decide) ?_ ?_ ?_
  · exact ⟨by decide, by decide⟩
  · exact ⟨by decide, by decide⟩
  · decide

end Connection
end RustImap
