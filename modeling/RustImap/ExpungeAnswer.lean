import RustImap.Deleted
import RustImap.Sorting

/-!
The answer to `EXPUNGE`.

It reports deleted messages by sequence number or by uid, and `Deleted` has room for one
kind only. `parse_expunge` returns the uids if there are any, so sequence numbers get
lost exactly if both kinds are reported.
-/

namespace RustImap

open UnsolicitedResponse (tryFrom)

/-- The ranges of uids a value holds. -/
def Deleted.ranges (d : Deleted) : List (UInt32 × UInt32) :=
  match d.messages with
  | .expunged _ => []
  | .vanished v => v

/-- `EXPUNGE` and `VANISHED` -/
def Response.isDeletion : Response → Bool
  | .expunge _ | .vanished _ _ => true
  | _ => false

def highestModSeq : Option ResponseCode → Option UInt64
  | some (.highestModSeq ms) => some ms
  | _ => none

/-- The other responses of an answer, as they are queued. -/
def notDeletions (rs : List Response) : Queue :=
  (rs.filter fun r => !r.isDeletion).filterMap tryFrom

/-- What some responses report, in their order and as often as they do, is in the value. -/
def Deleted.Holds (d : Deleted) (rs : List Response) : Prop :=
  (∀ r ∈ rs, r.isDeletion = true) ∧ d.seqs = rs.flatMap expungedSeqs ∧
    d.ranges = rs.flatMap vanishedUids

/-- Every response of the answer is in the value or has been appended to the queue. -/
def Deleted.Keeps (d : Deleted) (rs : List Response) (before after : Queue) : Prop :=
  ∃ shown queued, Divided rs shown queued ∧ after = before ++ queued ∧ d.Holds shown

section Answer

variable {rs : List Response}

theorem flatMap_deletions {α : Type} {f : Response → List α}
    (hf : ∀ r, r.isDeletion = false → f r = []) (rs : List Response) :
    (rs.filter Response.isDeletion).flatMap f = rs.flatMap f := by
  induction rs with
  | nil => rfl
  | cons r rs ih =>
      cases h : r.isDeletion with
      | true => rw [List.filter_cons_of_pos h, List.flatMap_cons, List.flatMap_cons, ih]
      | false => rw [List.filter_cons_of_neg (by simp [h]), List.flatMap_cons, hf r h, ih]; rfl

theorem expungedSeqs_of_not_deletion (r : Response) (h : r.isDeletion = false) :
    expungedSeqs r = [] := by
  cases r <;> first | rfl | cases h

theorem vanishedUids_of_not_deletion (r : Response) (h : r.isDeletion = false) :
    vanishedUids r = [] := by
  cases r <;> first | rfl | cases h

theorem divided_deletions (hrs : ∀ r ∈ rs, tryFrom r ≠ none) :
    Divided rs (rs.filter Response.isDeletion) (notDeletions rs) := by
  induction rs with
  | nil => exact .nil
  | cons r rs ih =>
      have rest := ih fun r' hr' => hrs r' (List.mem_cons_of_mem r hr')
      obtain ⟨u, hu⟩ := Option.ne_none_iff_exists'.mp (hrs r List.mem_cons_self)
      cases h : r.isDeletion with
      | true =>
          rw [List.filter_cons_of_pos h]
          have same : notDeletions (r :: rs) = notDeletions rs := by simp [notDeletions, h]
          rw [same]
          exact .shown hu rest
      | false =>
          rw [List.filter_cons_of_neg (by simp [h])]
          have next : notDeletions (r :: rs) = u :: notDeletions rs := by
            simp [notDeletions, h, hu]
          rw [next]
          exact .queued hu rest

/-- A deletion is not among what has been queued, so it is shown. -/
theorem Divided.deletion_shown {shown : List Response} {r : Response}
    (h : Divided rs shown (notDeletions rs)) (hr : r ∈ rs) (haccepted : tryFrom r ≠ none)
    (hdeletion : r.isDeletion = true) : r ∈ shown := by
  obtain ⟨u, hu⟩ := Option.ne_none_iff_exists'.mp haccepted
  refine h.mem_shown hr hu fun hmem => ?_
  obtain ⟨r', hr', hu'⟩ := List.mem_filterMap.mp hmem
  have same : r' = r := by
    rw [← UnsolicitedResponse.response_tryFrom hu, UnsolicitedResponse.response_tryFrom hu']
  rw [same] at hr'
  simpa [hdeletion] using (List.mem_filter.mp hr').2

theorem takes_expunge {r : Response} (h : tryFrom r ≠ none) :
    Command.takes .expunge r = r.isDeletion := by
  cases r with
  | done => exact absurd rfl h
  | _ => rfl

theorem queued_expunge (hrs : ∀ r ∈ rs, tryFrom r ≠ none) :
    Intake.expunge.queued rs = notDeletions rs := by
  apply (Intake.queued_own rs).trans
  refine congrArg (List.filterMap tryFrom) (List.filter_congr fun r hr => ?_)
  rw [takes_expunge (hrs r hr)]

/-- `Deleted` has room for one kind. -/
theorem Deleted.seqs_or_ranges (d : Deleted) : d.seqs = [] ∨ d.ranges = [] := by
  obtain ⟨messages, modSeq⟩ := d
  cases messages with
  | expunged => exact .inr rfl
  | vanished => exact .inl rfl

theorem flatMap_expungedSeqs_eq_nil_iff :
    rs.flatMap expungedSeqs = [] ↔ ∀ n, .expunge n ∉ rs := by
  rw [List.flatMap_eq_nil_iff]
  constructor
  · exact fun h n hn => absurd (h _ hn) (List.cons_ne_nil _ _)
  · intro h r hr
    cases r with
    | expunge n => exact absurd hr (h n)
    | _ => rfl

theorem flatMap_vanishedUids_eq_nil_iff :
    rs.flatMap vanishedUids = [] ↔ ∀ earlier uids, .vanished earlier uids ∈ rs → uids = [] := by
  rw [List.flatMap_eq_nil_iff]
  constructor
  · exact fun h earlier uids hr => h _ hr
  · intro h r hr
    cases r with
    | vanished earlier uids => exact h earlier uids hr
    | _ => rfl

theorem Deleted.keeps_iff {d : Deleted}
    (hd : d.messages = if rs.flatMap vanishedUids ≠ [] then .vanished (rs.flatMap vanishedUids)
      else .expunged (rs.flatMap expungedSeqs))
    (hrs : ∀ r ∈ rs, tryFrom r ≠ none) (q : Queue) :
    d.Keeps rs q (q ++ notDeletions rs) ↔
      rs.flatMap expungedSeqs = [] ∨ rs.flatMap vanishedUids = [] := by
  constructor
  · rintro ⟨shown, queued, hdivided, hqueue, -, hseqs, hranges⟩
    obtain rfl := List.append_cancel_left hqueue
    have deletion : ∀ r ∈ rs, r.isDeletion = true → r ∈ shown :=
      fun r hr => hdivided.deletion_shown hr (hrs r hr)
    rw [flatMap_expungedSeqs_eq_nil_iff, flatMap_vanishedUids_eq_nil_iff]
    refine d.seqs_or_ranges.imp (fun hnone n hn => ?_) fun hnone earlier uids hr => ?_
    · rw [hnone] at hseqs
      exact flatMap_expungedSeqs_eq_nil_iff.mp hseqs.symm n (deletion _ hn rfl)
    · rw [hnone] at hranges
      exact flatMap_vanishedUids_eq_nil_iff.mp hranges.symm earlier uids (deletion _ hr rfl)
  · intro h
    refine ⟨_, _, divided_deletions hrs, rfl, fun r hr => (List.mem_filter.mp hr).2, ?_⟩
    rw [flatMap_deletions expungedSeqs_of_not_deletion,
      flatMap_deletions vanishedUids_of_not_deletion, seqs, ranges, hd]
    by_cases hnone : rs.flatMap vanishedUids = []
    · rw [if_neg (by simpa using hnone)]
      exact ⟨rfl, hnone.symm⟩
    · rw [if_pos hnone]
      exact ⟨(h.resolve_right hnone).symm, rfl⟩

end Answer

section Parser

variable {parse : ParseResponse} {lines : Bytes} {rs : List Response} {tag : Str}
  {code : Option ResponseCode} {information : Option Str}

theorem Expunging.with_modSeq (a : Expunging) (h : a.modSeq = none) :
    (a.with (.done tag .ok code information)).modSeq = highestModSeq code := by
  rcases code with - | code
  · exact h
  · cases code <;> first | exact h | rfl

theorem Expunging.modSeq_foldl (hrs : ∀ r ∈ rs, tryFrom r ≠ none) (a : Expunging) :
    (rs.foldl Expunging.with a).modSeq = a.modSeq := by
  refine List.foldlRecOn (motive := fun b => b.modSeq = a.modSeq) rs Expunging.with rfl
    fun b hb r hr => ?_
  have accepted := hrs r hr
  cases r with
  | done => exact absurd rfl accepted
  | _ => exact hb

/-- `parse_expunge` returns the uids of an answer, queues what is not about deleted messages
and keeps everything exactly if there are not both sequence numbers and uids. -/
theorem parseExpunge_keeps
    (h : parse.Splits lines (rs ++ [Response.done tag .ok code information]))
    (hrs : ∀ r ∈ rs, tryFrom r ≠ none) (q : Queue) :
    ∃ d, parseExpunge parse lines q = (.ok d, q ++ notDeletions rs) ∧
      d.modSeq = highestModSeq code ∧ d.ranges = rs.flatMap vanishedUids ∧
      (d.Keeps rs q (q ++ notDeletions rs) ↔
        (∀ n, .expunge n ∉ rs) ∨ ∀ earlier uids, .vanished earlier uids ∈ rs → uids = []) := by
  have pass : ∀ r ∈ rs, Intake.expunge.action r ≠ .fail :=
    fun r hr hfail => hrs r hr (Action.of_fail.mp hfail).2
  have value := (parseExpunge_sorts h).passes pass q
  rw [Intake.expunge_taken, queued_expunge hrs] at value
  have messages := Expunging.messages_foldl rs
  refine ⟨_, value, ?_, ?_, ?_⟩
  · exact Expunging.with_modSeq _ (Expunging.modSeq_foldl hrs _)
  · rw [Deleted.ranges, messages]
    by_cases hnone : rs.flatMap vanishedUids = []
    · rw [if_neg (by simpa using hnone), hnone]
    · rw [if_pos hnone]
  · rw [Deleted.keeps_iff messages hrs, flatMap_expungedSeqs_eq_nil_iff,
      flatMap_vanishedUids_eq_nil_iff]

def vanishingMessages : List (Bytes × Response) :=
  [(utf8 "* 1 EXPUNGE\r\n".toList, .expunge 1),
    (utf8 "* VANISHED 7\r\n".toList, .vanished false [(7, 7)]),
    (utf8 "* 2 EXISTS\r\n".toList, .mailboxData (.exists_ 2)),
    (utf8 "a1 OK [HIGHESTMODSEQ 9]\r\n".toList,
      .done "a1".toList .ok (some (.highestModSeq 9)) none)]

def vanishingParse : ParseResponse := Parser.table vanishingMessages (by decide)

/-- Two messages and the tagged response that the parser knows. -/
theorem vanishingParse_splits {c c' : Bytes} {r r' : Response}
    (h : (c, r) ∈ vanishingMessages) (h' : (c', r') ∈ vanishingMessages) :
    vanishingParse.Splits (c ++ (c' ++ utf8 "a1 OK [HIGHESTMODSEQ 9]\r\n".toList))
      ([r, r'] ++ [.done "a1".toList .ok (some (.highestModSeq 9)) none]) := by
  have framed : vanishingParse.Framed LF :=
    Parser.table_framed _ (by decide) (by decide)
  have accepts : ∀ m ∈ vanishingMessages, vanishingParse.Accepts m.1 m.2 := by
    simp only [Parser.Accepts]
    decide
  have done := accepts _ (List.mem_cons_of_mem _ (List.mem_cons_of_mem _
    (List.mem_cons_of_mem _ List.mem_cons_self)))
  exact framed.splits_append (accepts _ h) (framed.splits_append (accepts _ h')
    (.cons done .nil))

theorem parseExpunge_keeps_exists :
    ∃ d, parseExpunge vanishingParse
        (utf8 "* VANISHED 7\r\n* 2 EXISTS\r\na1 OK [HIGHESTMODSEQ 9]\r\n".toList) [] =
        (.ok d, [.exists_ 2]) ∧
      d.modSeq = some 9 ∧ d.ranges = [(7, 7)] ∧
      (d.Keeps [.vanished false [(7, 7)], .mailboxData (.exists_ 2)] [] [.exists_ 2] ↔
        (∀ n, .expunge n ∉ [Response.vanished false [(7, 7)], .mailboxData (.exists_ 2)]) ∨
        ∀ earlier uids, .vanished earlier uids ∈
          [Response.vanished false [(7, 7)], .mailboxData (.exists_ 2)] → uids = []) := by
  have first : (utf8 "* VANISHED 7\r\n".toList, Response.vanished false [(7, 7)]) ∈
    vanishingMessages := by simp [vanishingMessages]
  have second : (utf8 "* 2 EXISTS\r\n".toList, Response.mailboxData (.exists_ 2)) ∈
    vanishingMessages := by simp [vanishingMessages]
  exact parseExpunge_keeps (vanishingParse_splits first second) (by decide) []

/-- With a sequence number and a uid in one answer, the number is lost. -/
theorem parseExpunge_keeps_fails :
    ¬ ∀ (parse : ParseResponse) (lines : Bytes) (rs : List Response) (tag : Str)
      (code : Option ResponseCode) (information : Option Str),
      parse.Splits lines (rs ++ [.done tag .ok code information]) →
      (∀ r ∈ rs, tryFrom r ≠ none) → ∀ q, ∃ d q', parseExpunge parse lines q = (.ok d, q') ∧
        d.modSeq = highestModSeq code ∧ d.Keeps rs q q' := by
  intro holds
  let rs : List Response := [.expunge 1, .vanished false [(7, 7)]]
  let lines := utf8 "* 1 EXPUNGE\r\n* VANISHED 7\r\na1 OK [HIGHESTMODSEQ 9]\r\n".toList
  have first : (utf8 "* 1 EXPUNGE\r\n".toList, Response.expunge 1) ∈ vanishingMessages := by
    simp [vanishingMessages]
  have second : (utf8 "* VANISHED 7\r\n".toList, Response.vanished false [(7, 7)]) ∈
    vanishingMessages := by simp [vanishingMessages]
  have value : parseExpunge vanishingParse lines [] = (.ok ⟨.vanished [(7, 7)], some 9⟩, []) := by
    decide
  obtain ⟨d, q', hparse, -, hkeeps⟩ :=
    holds _ lines rs _ _ _ (vanishingParse_splits first second) (by decide) []
  cases value.symm.trans hparse
  have lost : ¬(rs.flatMap expungedSeqs = [] ∨ rs.flatMap vanishedUids = []) := by decide
  exact lost ((Deleted.keeps_iff (q := []) rfl (by decide)).mp hkeeps)

end Parser

end RustImap
