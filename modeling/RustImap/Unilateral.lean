import RustImap.Append
import RustImap.Intake

/-!
What becomes of the responses a server sends of its own accord.

Each operation is a command, the reading of its answer and a parser. `Command.action` and
`Command.takes` say what that parser does with a response, `Value.Shows` what a returned
value says about one.
-/

namespace RustImap

open UnsolicitedResponse (tryFrom)

/-- The values the operations return. The mailbox of a `STATUS` comes with the name that
was asked for. -/
inductive Value where
  | unit
  | mailbox (mailbox : Mailbox)
  | status (mailboxName : Str) (mailbox : Mailbox)
  | fetches (fetches : List Fetch)
  | deleted (deleted : Deleted)
  | appended (appended : Appended)
  | names (names : List Name)
  | extendedNames (names : List (Name × Option Mailbox))
  | capabilities (capabilities : Finset Capability)
  | idSet (ids : Finset UInt32)
  | idSeq (ids : List UInt32)
  | acl (acl : Acl)
  | listRights (rights : ListRights)
  | myRights (rights : MyRights)
  | quota (quota : Option Quota)
  | quotaRoot (response : QuotaRootResponse)
  | metadata (metadata : List Metadata) (missed : Option UInt64)

/-- The mailbox has the value of a status item. -/
def Mailbox.Reports (mailbox : Mailbox) : StatusAttribute → Prop
  | .highestModSeq v => mailbox.highestModSeq = some v
  | .messages v => mailbox.exists_ = v
  | .recent v => mailbox.recent = v
  | .uidNext v => mailbox.uidNext = some v
  | .uidValidity v => mailbox.uidValidity = some v
  | .unseen v => mailbox.unseen = some v
  | .other _ => False

/-- The value represents the response. -/
def Value.Shows : Value → Response → Prop
  | .fetches fs, .fetch id attributes => Fetch.ofResponse id attributes ∈ fs
  | .deleted d, .expunge n => ∃ seqs, d.messages = .expunged seqs ∧ n ∈ seqs
  | .deleted d, .vanished _ uids => ∀ u ∈ uids, ∃ all, d.messages = .vanished all ∧ u ∈ all
  | .status mailboxName m, .mailboxData (.status theirs attributes) =>
      theirs = mailboxName ∧ ∀ a ∈ attributes, m.Reports a
  | .extendedNames entries, .mailboxData (.status theirs attributes) =>
      ∃ name m, (name, some m) ∈ entries ∧ name.name = theirs ∧ ∀ a ∈ attributes, m.Reports a
  | .mailbox m, .mailboxData (.exists_ n) => m.Reports (.messages n)
  | .mailbox m, .mailboxData (.recent n) => m.Reports (.recent n)
  | .mailbox m, .mailboxData (.flags fs) => ∀ f ∈ Flag.fromStrs fs, f ∈ m.flags
  | .mailbox m, .data .ok (some (.highestModSeq v)) _ => m.Reports (.highestModSeq v)
  | .mailbox m, .data .ok (some (.uidValidity v)) _ => m.Reports (.uidValidity v)
  | .mailbox m, .data .ok (some (.uidNext v)) _ => m.Reports (.uidNext v)
  | .mailbox m, .data .ok (some (.unseen v)) _ => m.Reports (.unseen v)
  | .mailbox m, .data .ok (some (.permanentFlags fs)) _ =>
      ∀ f ∈ Flag.fromStrs fs, f ∈ m.permanentFlags
  | _, _ => False

section Operations

variable {σ : Type} (peer : Peer σ) (parse : ParseResponse)

/-- The parser of an operation, given the answer and the index of the tagged response. -/
def Command.finish (c : Command) (lines : Bytes) (ok : Nat) : Collect Value :=
  match c with
  | .select _ | .examine _ => .mailbox <$> parseMailbox parse lines
  | .fetch _ _ | .uidFetch _ _ | .store _ _ | .uidStore _ _ =>
      .fetches <$> parseFetches parse (lines.take ok)
  | .noop => (fun _ => .unit) <$> parseNoop parse (lines.take ok)
  | .capability => .capabilities <$> parseCapabilities parse (lines.take ok)
  | .expunge | .uidExpunge _ => .deleted <$> parseExpunge parse lines
  | .append _ _ _ _ => .appended <$> parseAppend parse lines
  | .list _ _ | .lsub _ _ => .names <$> parseNames parse (lines.take ok)
  | .status mailboxName _ =>
      .status mailboxName <$> parseStatus parse mailboxName (lines.take ok)
  | .search _ | .uidSearch _ => .idSet <$> parseIdSet parse (lines.take ok)
  | .sort _ _ _ | .uidSort _ _ _ => .idSeq <$> parseIdSeq parse (lines.take ok)
  | .getAcl _ => .acl <$> parseAcl parse (lines.take ok)
  | .listRights _ _ => .listRights <$> parseListRights parse (lines.take ok)
  | .myRights _ => .myRights <$> parseMyRights parse (lines.take ok)
  | .setQuota _ _ | .getQuota _ => .quota <$> parseQuota parse (lines.take ok)
  | .getQuotaRoot _ => .quotaRoot <$> parseQuotaRoot parse (lines.take ok)
  | .listStatus _ _ _ => .extendedNames <$> parseExtendedNames parse (lines.take ok)
  | .getMetadata _ _ _ maxsize =>
      (fun r => .metadata r.1 r.2) <$> (do
        let metadata ← parseMetadata parse (lines.take ok)
        let missed ← Session.missedEntries parse maxsize (lines.drop ok)
        pure (metadata, missed))
  | _ => pure .unit

/-- The operation of a session that runs a command, if there is one. `APPEND` and `IDLE`
have conversations of their own, and the others run before there is a session. -/
def Session.execute : Command → Option (Exec (Session σ) Fault Value)
  | .login _ _ | .authenticate _ | .starttls | .idle | .append _ _ _ _ => none
  | .capability => some (.capabilities <$> capabilities peer parse)
  | .select mailboxName => some (.mailbox <$> select peer parse mailboxName)
  | .examine mailboxName => some (.mailbox <$> examine peer parse mailboxName)
  | .fetch sequenceSet query => some (.fetches <$> fetch peer parse sequenceSet query)
  | .uidFetch uidSet query => some (.fetches <$> uidFetch peer parse uidSet query)
  | .noop => some ((fun _ => .unit) <$> noop peer parse)
  | .logout => some ((fun _ => .unit) <$> logout peer parse)
  | .create mailboxName => some ((fun _ => .unit) <$> create peer parse mailboxName)
  | .delete mailboxName => some ((fun _ => .unit) <$> delete peer parse mailboxName)
  | .rename old new => some ((fun _ => .unit) <$> rename peer parse old new)
  | .subscribe mailbox => some ((fun _ => .unit) <$> subscribe peer parse mailbox)
  | .unsubscribe mailbox => some ((fun _ => .unit) <$> unsubscribe peer parse mailbox)
  | .expunge => some (.deleted <$> expunge peer parse)
  | .uidExpunge uidSet => some (.deleted <$> uidExpunge peer parse uidSet)
  | .check => some ((fun _ => .unit) <$> check peer parse)
  | .close => some ((fun _ => .unit) <$> close peer parse)
  | .store sequenceSet query => some (.fetches <$> store peer parse sequenceSet query)
  | .uidStore uidSet query => some (.fetches <$> uidStore peer parse uidSet query)
  | .copy sequenceSet mailboxName =>
      some ((fun _ => .unit) <$> copy peer parse sequenceSet mailboxName)
  | .uidCopy uidSet mailboxName =>
      some ((fun _ => .unit) <$> uidCopy peer parse uidSet mailboxName)
  | .mv sequenceSet mailboxName =>
      some ((fun _ => .unit) <$> mv peer parse sequenceSet mailboxName)
  | .uidMv uidSet mailboxName => some ((fun _ => .unit) <$> uidMv peer parse uidSet mailboxName)
  | .list referenceName mailboxPattern =>
      some (.names <$> list peer parse referenceName mailboxPattern)
  | .lsub referenceName mailboxPattern =>
      some (.names <$> lsub peer parse referenceName mailboxPattern)
  | .status mailboxName dataItems =>
      some (.status mailboxName <$> status peer parse mailboxName dataItems)
  | .search query => some (.idSet <$> search peer parse query)
  | .uidSearch query => some (.idSet <$> uidSearch peer parse query)
  | .sort criteria charset query => some (.idSeq <$> sort peer parse criteria charset query)
  | .uidSort criteria charset query =>
      some (.idSeq <$> uidSort peer parse criteria charset query)
  | .setAcl mailboxName identifier rights modification =>
      some ((fun _ => .unit) <$> setAcl peer parse mailboxName identifier rights modification)
  | .deleteAcl mailboxName identifier =>
      some ((fun _ => .unit) <$> deleteAcl peer parse mailboxName identifier)
  | .getAcl mailboxName => some (.acl <$> getAcl peer parse mailboxName)
  | .listRights mailboxName identifier =>
      some (.listRights <$> listRights peer parse mailboxName identifier)
  | .myRights mailboxName => some (.myRights <$> myRights peer parse mailboxName)
  | .setQuota quotaRoot limits => some (.quota <$> setQuota peer parse quotaRoot limits)
  | .getQuota quotaRoot => some (.quota <$> getQuota peer parse quotaRoot)
  | .getQuotaRoot mailboxName => some (.quotaRoot <$> getQuotaRoot peer parse mailboxName)
  | .listStatus referenceName mailboxPattern dataItems =>
      some (.extendedNames <$> listStatus peer parse referenceName mailboxPattern dataItems)
  | .getMetadata mailbox entries depth maxsize =>
      some ((fun r => .metadata r.1 r.2) <$> getMetadata peer parse mailbox entries depth maxsize)
  | .setMetadata mbox annotations =>
      some ((fun _ => .unit) <$> setMetadata peer parse mbox annotations)

/-- The operations that complete a command: the operation, its command, and how the answer
to the command is read. -/
inductive Session.Completes : Exec (Session σ) Fault Value → Command →
    Exec (Connection σ) Fault (Bytes × Nat) → Prop
  | command {c : Command} {op : Exec (Session σ) Fault Value} :
      execute peer parse c = some op → Completes op c (Connection.command peer parse c)
  | append (cmd : AppendCmd) :
      Completes (.appended <$> cmd.finish peer parse) cmd.command (cmd.converse peer parse)

theorem Session.map_operation {α β : Type} (c : Command) (f : Bytes → Nat → Collect α)
    (g : α → β) :
    g <$> operation peer parse c f = operation peer parse c fun lines ok => g <$> f lines ok := by
  funext s
  rw [Exec.map_apply]
  cases hcommand : Connection.command peer parse c s.conn with
  | mk r conn =>
      cases r with
      | ok r => rw [operation_ok hcommand, operation_ok hcommand, Exec.map_apply]
      | error e => rw [operation_error hcommand, operation_error hcommand]; rfl

/-- Every operation is the reading of an answer and a parser; `LOGOUT` takes a `BYE` for
success. -/
theorem Session.execute_eq {c : Command} {op : Exec (Session σ) Fault Value}
    (h : execute peer parse c = some op) (hlogout : c ≠ .logout) :
    op = operation peer parse c (c.finish parse) := by
  cases c with
  | logout => exact absurd rfl hlogout
  | login _ _ | authenticate _ | starttls | idle | append _ _ _ _ => cases h
  | _ =>
      cases h
      simp only [capabilities, select, examine, fetch, uidFetch, noop, create, delete, rename,
        subscribe, unsubscribe, expunge, uidExpunge, check, close, store, uidStore, copy,
        uidCopy, mv, uidMv, list, lsub, status, search, uidSearch, sort, uidSort, setAcl,
        deleteAcl, getAcl, listRights, myRights, setQuota, getQuota, getQuotaRoot, listStatus,
        getMetadata, setMetadata, checkOk, untagged, map_operation]
      rfl

end Operations

/-- What most parsers do with a response they do not take. -/
def Action.of (takes : Response → Bool) (r : Response) : Action :=
  if takes r then .take else if (tryFrom r).isSome then .queue else .fail

/-- `parse_mailbox` queues two kinds of responses itself and never looks for others. -/
def mailboxAction : Response → Action
  | .done _ .ok _ _ => .take
  | .data .ok _ _ => .take
  | .data _ _ _ => .fail
  | .mailboxData (.status _ _) => .queue
  | .mailboxData _ => .take
  | .expunge _ => .queue
  | _ => .fail

/-- The responses the parser of a command uses up, into its value or not. -/
def Command.takes : Command → Response → Bool
  | .fetch _ _ | .uidFetch _ _ | .store _ _ | .uidStore _ _ => fun
      | .fetch _ _ => true
      | _ => false
  | .noop => fun _ => false
  | .capability => fun
      | .capabilities _ => true
      | _ => false
  | .expunge | .uidExpunge _ => fun
      | .expunge _ | .vanished _ _ | .done _ .ok _ _ => true
      | _ => false
  | .append _ _ _ _ => fun
      | .done _ .ok _ _ => true
      | _ => false
  | .list _ _ | .lsub _ _ => fun
      | .mailboxData (.list _ _ _) => true
      | _ => false
  | .status mailboxName _ => fun
      | .mailboxData (.status theirs _) => decide (theirs = mailboxName)
      | _ => false
  | .search _ | .uidSearch _ | .sort _ _ _ | .uidSort _ _ _ => fun
      | .mailboxData (.search _) | .mailboxData (.sort _) => true
      | _ => false
  | .getAcl _ => fun
      | .acl _ => true
      | _ => false
  | .listRights _ _ => fun
      | .listRights _ => true
      | _ => false
  | .myRights _ => fun
      | .myRights _ => true
      | _ => false
  | .setQuota _ _ | .getQuota _ => fun
      | .quota _ => true
      | _ => false
  | .getQuotaRoot _ => fun
      | .quotaRoot _ | .quota _ => true
      | _ => false
  | .listStatus _ _ _ => fun
      | .mailboxData (.list _ _ _) | .mailboxData (.status _ _) => true
      | _ => false
  | .getMetadata _ _ _ _ => fun
      | .mailboxData (.metadataSolicited _ _) => true
      | _ => false
  -- the answer is dropped unseen
  | _ => fun _ => true

def Command.action : Command → Response → Action
  | .select _ | .examine _ => mailboxAction
  | c => .of c.takes

def StatusAttribute.sameItem : StatusAttribute → StatusAttribute → Bool
  | .highestModSeq _, .highestModSeq _ => true
  | .messages _, .messages _ => true
  | .recent _, .recent _ => true
  | .uidNext _, .uidNext _ => true
  | .uidValidity _, .uidValidity _ => true
  | .unseen _, .unseen _ => true
  | _, _ => false

/-- Every item is one a mailbox has, and no two give different values for it. -/
def Consistent (items : List StatusAttribute) : Prop :=
  ∀ a ∈ items, a.sameItem a = true ∧ ∀ b ∈ items, a.sameItem b = true → a = b

/-- What a `STATUS` of the mailbox gives. -/
def statusItems (mailboxName : Str) : Response → List StatusAttribute
  | .mailboxData (.status theirs attributes) => if theirs = mailboxName then attributes else []
  | _ => []

/-- What a response gives `parse_mailbox`, besides flags. -/
def selectItems : Response → List StatusAttribute
  | .mailboxData (.exists_ n) => [.messages n]
  | .mailboxData (.recent n) => [.recent n]
  | .data .ok (some (.highestModSeq v)) _ => [.highestModSeq v]
  | .data .ok (some (.uidValidity v)) _ => [.uidValidity v]
  | .data .ok (some (.uidNext v)) _ => [.uidNext v]
  | .data .ok (some (.unseen v)) _ => [.unseen v]
  | _ => []

/-- The mailbox has a place for what the response says. -/
def hasPlace : Response → Bool
  | .data .ok (some (.permanentFlags _)) _ => true
  | .data .ok code information => !(selectItems (.data .ok code information)).isEmpty
  | .mailboxData (.metadataUnsolicited _ _) => false
  | _ => true

def isList : Response → Bool
  | .mailboxData (.list _ _ _) => true
  | _ => false

/-- The names that are listed, each with the responses up to the next one. -/
def laterSections : List Response → List (Str × List Response)
  | [] => []
  | .mailboxData (.list _ _ name) :: rs =>
      (name, rs.takeWhile fun r => !isList r) :: laterSections rs
  | _ :: rs => laterSections rs

/-- The same; what comes before the first name belongs to it. -/
def listSections (before : List Response) : List Response → List (Str × List Response)
  | [] => []
  | .mailboxData (.list _ _ name) :: rs =>
      (name, before ++ rs.takeWhile fun r => !isList r) :: laterSections rs
  | r :: rs => listSections (before ++ [r]) rs

def lastStatus (rs : List Response) : Option (List StatusAttribute) :=
  (rs.filterMap fun
    | .mailboxData (.status _ attributes) => some attributes
    | _ => none).getLast?

/-- The value shows what the parser has taken, when the parser does not give up. -/
def Command.Shown : Command → List Response → Prop
  | .expunge, rs | .uidExpunge _, rs =>
      (∀ n, .expunge n ∉ rs) ∨ ∀ earlier uids, .vanished earlier uids ∈ rs → uids = []
  | .status mailboxName _, rs => Consistent (rs.flatMap (statusItems mailboxName))
  | .select _, rs | .examine _, rs =>
      Consistent (rs.flatMap selectItems) ∧ ∀ r ∈ rs, hasPlace r = true
  | .listStatus _ _ _, rs => ∀ theirs attributes, .mailboxData (.status theirs attributes) ∈ rs →
      ∃ s ∈ listSections [] rs, s.1 = theirs ∧ ∃ last, lastStatus s.2 = some last ∧
        ∀ a ∈ attributes, (last.foldl Mailbox.withAttribute .empty).Reports a
  | .fetch _ _, _ | .uidFetch _ _, _ | .store _ _, _ | .uidStore _ _, _ | .noop, _
  | .capability, _ | .append _ _ _ _, _ | .list _ _, _ | .lsub _ _, _ | .search _, _
  | .uidSearch _, _ | .sort _ _ _, _ | .uidSort _ _ _, _ | .getAcl _, _ | .listRights _ _, _
  | .myRights _, _ | .setQuota _ _, _ | .getQuota _, _ | .getQuotaRoot _, _
  | .getMetadata _ _ _ _, _ => True
  | _, rs => ∀ r ∈ rs, tryFrom r = none

end RustImap
