import RustImap.ExtendedNames
import RustImap.LetterCase

/-!
The answer to `STATUS`.

`INBOX` is one mailbox however it is spelled. The parser of responses has a canonical
spelling for it, and `parse_status` compares that with the name it was given letter by
letter, so it misses what the server says about `inbox`.
-/

namespace RustImap

open UnsolicitedResponse (tryFrom)

def inbox : Str := "INBOX".toList

/-- A spelling of `INBOX`. -/
def IsInbox (name : Str) : Prop := Str.EqIgnoreAsciiCase name inbox

instance (name : Str) : Decidable (IsInbox name) := inferInstanceAs (Decidable (_ = _))

/-- Two names of one mailbox. -/
def SameMailbox (name name' : Str) : Prop := name = name' ∨ IsInbox name ∧ IsInbox name'

instance (name name' : Str) : Decidable (SameMailbox name name') :=
  inferInstanceAs (Decidable (_ ∨ _))

/-- The parser reports every spelling of `INBOX` as `INBOX`. -/
def ParseResponse.InboxCanonical (parse : ParseResponse) : Prop :=
  ∀ i rest theirs attributes,
    parse.run i = .ok rest (.mailboxData (.status theirs attributes)) →
      IsInbox theirs → theirs = inbox

/-- A `STATUS` of the mailbox, under any of its names. -/
def Response.isStatusOf (name : Str) : Response → Bool
  | .mailboxData (.status theirs _) => decide (SameMailbox theirs name)
  | _ => false

/-- What a response says about the mailbox. -/
def statusAttributes (name : Str) : Response → List StatusAttribute
  | .mailboxData (.status theirs attributes) =>
      if SameMailbox theirs name then attributes else []
  | _ => []

/-- What `STATUS` ought to make of the responses of an answer. -/
structure StatusExtracted (name : Str) (rs : List Response) (before : Queue)
    (out : Except Fault Mailbox × Queue) : Prop where
  found : (∃ mailbox, out.1 = .ok mailbox) ↔ ∃ r ∈ rs, r.isStatusOf name = true
  missing : ∀ e, out.1 = .error e → e = .err .missingStatusResponse
  fields : ∀ mailbox, out.1 = .ok mailbox →
    (∀ a, mailbox.Reports a ↔ Tells (rs.flatMap (statusAttributes name)) a) ∧
      mailbox.flags = [] ∧ mailbox.permanentFlags = [] ∧ mailbox.isReadOnly = false
  queued : out.2 = before ++ (rs.filter fun r => !r.isStatusOf name).filterMap tryFrom

section Names

variable {parse : ParseResponse} {lines : Bytes} {rs : List Response} {name : Str}

theorem sameMailbox_iff_eq {theirs : Str} (htheirs : IsInbox theirs → theirs = inbox)
    (hname : IsInbox name → name = inbox) : SameMailbox theirs name ↔ theirs = name := by
  constructor
  · intro h
    rcases h with heq | ⟨h, h'⟩
    · exact heq
    · rw [htheirs h, hname h']
  · exact .inl

theorem ParseResponse.InboxCanonical.splits (hcanonical : ParseResponse.InboxCanonical parse)
    (h : parse.Splits lines rs) {theirs : Str} {attributes : List StatusAttribute}
    (hr : .mailboxData (.status theirs attributes) ∈ rs) (htheirs : IsInbox theirs) :
    theirs = inbox := by
  induction h with
  | nil => cases hr
  | cons run _ ih =>
      rcases List.mem_cons.mp hr with rfl | hr
      · exact hcanonical _ _ _ _ run htheirs
      · exact ih hr

/-- The test in the match guard is right for every name but an unusual spelling of `INBOX`. -/
theorem takes_status_iff
    (h : ∀ theirs attributes, .mailboxData (.status theirs attributes) ∈ rs →
      IsInbox theirs → theirs = inbox)
    (hname : (IsInbox name → name = inbox) ∨ ∀ r ∈ rs, r.isStatusOf name = false)
    {r : Response} (hr : r ∈ rs) :
    Command.takes (.status name []) r = r.isStatusOf name := by
  cases r with
  | mailboxData m =>
      cases m with
      | status theirs attributes =>
          apply decide_eq_decide.mpr
          rcases hname with hname | hnone
          · exact (sameMailbox_iff_eq (h theirs attributes hr) hname).symm
          · have other := of_decide_eq_false (hnone _ hr)
            exact iff_of_false (fun heq => other (.inl heq)) other
      | _ => rfl
  | _ => rfl

end Names

section Parser

variable {parse : ParseResponse} {lines : Bytes} {rs : List Response} {name : Str}

theorem status_queued
    (htakes : ∀ r ∈ rs, Command.takes (.status name []) r = r.isStatusOf name) :
    (Intake.status name).queued rs =
      (rs.filter fun r => !r.isStatusOf name).filterMap tryFrom := by
  apply (Intake.queued_own rs).trans
  refine congrArg (List.filterMap tryFrom) (List.filter_congr fun r hr => ?_)
  rw [htakes r hr]

theorem statusItems_eq {r : Response}
    (h : Command.takes (.status name []) r = r.isStatusOf name) :
    statusItems name r = statusAttributes name r := by
  cases r with
  | mailboxData m =>
      cases m with
      | status theirs attributes =>
          have same : theirs = name ↔ SameMailbox theirs name := decide_eq_decide.mp h
          simp only [statusItems, statusAttributes, same]
      | _ => rfl
  | _ => rfl

theorem foldl_withStatus
    (htakes : ∀ r ∈ rs, Command.takes (.status name []) r = r.isStatusOf name) (m : Mailbox) :
    rs.foldl (Mailbox.withStatus name) m =
      (rs.flatMap (statusAttributes name)).foldl Mailbox.withAttribute m := by
  rw [List.foldl_flatMap]
  refine List.foldl_ext _ _ _ fun m r hr => ?_
  rw [Mailbox.withStatus, statusItems_eq (htakes r hr)]

/-- What `parse_status` returns when it recognises the name. -/
theorem parseStatus_eq (h : parse.Splits lines rs) (hrs : ∀ r ∈ rs, tryFrom r ≠ none)
    (q : Queue) :
    parseStatus parse name lines q =
      (statusResult (rs.foldl (Mailbox.withStatus name) .empty,
        rs.any (Command.takes (.status name []))), q ++ (Intake.status name).queued rs) := by
  have pass : ∀ r ∈ rs, (Intake.status name).action r ≠ .fail :=
    fun r hr hfail => hrs r hr (Action.of_fail.mp hfail).2
  rw [(parseStatus_sorts name h).passes pass q, Intake.status_taken]

theorem statusExtracted_of_takes (h : parse.Splits lines rs)
    (hrs : ∀ r ∈ rs, tryFrom r ≠ none)
    (htakes : ∀ r ∈ rs, Command.takes (.status name []) r = r.isStatusOf name) (q : Queue) :
    StatusExtracted name rs q (parseStatus parse name lines q) := by
  have any : rs.any (Command.takes (.status name [])) = true ↔
      ∃ r ∈ rs, r.isStatusOf name = true := by
    rw [List.any_eq_true]
    exact exists_congr fun r => and_congr_right fun hr => by rw [htakes r hr]
  rw [parseStatus_eq h hrs q, status_queued htakes, foldl_withStatus htakes]
  by_cases hany : rs.any (Command.takes (.status name [])) = true
  · rw [statusResult, if_pos hany]
    refine ⟨iff_of_true ⟨_, rfl⟩ (any.mp hany), ?_, ?_, rfl⟩
    · intro e he
      cases he
    · intro mailbox hmailbox
      obtain rfl := Except.ok.inj hmailbox
      exact ⟨reports_iff_tells _, Mailbox.withAttribute_flags _ .empty⟩
  · rw [statusResult, if_neg hany]
    refine ⟨iff_of_false ?_ (mt any.mpr hany), ?_, ?_, rfl⟩
    · rintro ⟨mailbox, hmailbox⟩
      cases hmailbox
    · exact fun e he => (Except.error.inj he).symm
    · intro mailbox hmailbox
      cases hmailbox

/-- `parse_status` does what it ought to exactly if the name is not an unusual spelling of
`INBOX`, or the answer has no `STATUS` of that mailbox. -/
theorem parseStatus_extracted (hcanonical : ParseResponse.InboxCanonical parse)
    (h : parse.Splits lines rs) (hrs : ∀ r ∈ rs, tryFrom r ≠ none) (q : Queue) :
    StatusExtracted name rs q (parseStatus parse name lines q) ↔
      (IsInbox name → name = inbox) ∨ ∀ r ∈ rs, r.isStatusOf name = false := by
  constructor
  · intro hextracted
    by_contra hneither
    simp only [not_or, Classical.not_imp, not_forall, Bool.not_eq_false] at hneither
    obtain ⟨⟨hinbox, hne⟩, r, hr, hstatus⟩ := hneither
    have nothing : rs.any (Command.takes (.status name [])) = false := by
      rw [List.any_eq_false]
      intro r' hr' htakes
      obtain ⟨attributes, rfl, -⟩ := statusItems_of_takes name htakes
      exact hne (hcanonical.splits h hr' hinbox)
    obtain ⟨mailbox, hmailbox⟩ := hextracted.found.mpr ⟨r, hr, hstatus⟩
    rw [parseStatus_eq h hrs q, nothing] at hmailbox
    cases hmailbox
  · intro hname
    exact statusExtracted_of_takes h hrs
      (fun r hr => takes_status_iff (fun _ _ => hcanonical.splits h) hname hr) q

end Parser

def inboxMessages : List (Bytes × Response) :=
  [(utf8 "* STATUS INBOX (MESSAGES 1)\r\n".toList, .mailboxData (.status inbox [.messages 1]))]

def inboxParse : ParseResponse := Parser.table inboxMessages (by decide)

theorem inboxParse_canonical : ParseResponse.InboxCanonical inboxParse := by
  intro i rest theirs attributes hrun _
  obtain ⟨c, hmem, -⟩ := Parser.table_run _ hrun
  simp only [inboxMessages, List.mem_singleton, Prod.mk.injEq, Response.mailboxData.injEq,
    MailboxDatum.status.injEq] at hmem
  exact hmem.2.1

theorem inboxParse_splits :
    inboxParse.Splits (utf8 "* STATUS INBOX (MESSAGES 1)\r\n".toList)
      [.mailboxData (.status inbox [.messages 1])] := by
  have run : inboxParse.run (utf8 "* STATUS INBOX (MESSAGES 1)\r\n".toList) =
      .ok [] (.mailboxData (.status inbox [.messages 1])) := by decide
  exact .cons run .nil

theorem parseStatus_extracted_capitals :
    StatusExtracted inbox [.mailboxData (.status inbox [.messages 1])] []
      (parseStatus inboxParse inbox (utf8 "* STATUS INBOX (MESSAGES 1)\r\n".toList) []) :=
  (parseStatus_extracted inboxParse_canonical inboxParse_splits (by decide) []).mpr
    (.inl fun _ => rfl)

/-- `STATUS inbox` is answered, and the answer not found. -/
theorem parseStatus_extracted_fails :
    ¬ ∀ (parse : ParseResponse) (lines : Bytes) (rs : List Response) (name : Str),
      ParseResponse.InboxCanonical parse → parse.Splits lines rs →
      (∀ r ∈ rs, tryFrom r ≠ none) →
      ∀ q, StatusExtracted name rs q (parseStatus parse name lines q) := by
  intro holds
  have extracted := holds _ _ _ "inbox".toList inboxParse_canonical inboxParse_splits (by decide) []
  obtain ⟨mailbox, hmailbox⟩ := extracted.found.mpr ⟨_, List.mem_singleton.mpr rfl, by decide⟩
  have value : (parseStatus inboxParse "inbox".toList
      (utf8 "* STATUS INBOX (MESSAGES 1)\r\n".toList) []).1.isOk = false := by decide
  rw [hmailbox] at value
  cases value

end RustImap
