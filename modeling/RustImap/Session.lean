import RustImap.Command
import RustImap.Connection
import RustImap.Parse

/-!
`Session` and its operations.

Every operation sends one command, reads its answer and hands the answer to a parser
that fills the queue of unsolicited responses; `operation` is this sequence, and each
operation names its command and its parser. What `run_command_and_read_response`
returns is the answer up to the tagged response.
-/

namespace RustImap

namespace Connection

variable {σ : Type} (peer : Peer σ) (parse : ParseResponse)

/-- Check the arguments and write the command. `false` if there is nothing to send. -/
def send (c : Command) : Exec (Connection σ) Fault Bool := do
  match ← Exec.lift (c.text.mapError Fault.err) with
  | none => pure false
  | some text => do
      runCommand peer text
      pure true

def command (c : Command) : Exec (Connection σ) Fault (Bytes × Nat) := do
  if ← send peer c then readResponse parse else pure ([], 0)

end Connection

structure Session (σ : Type) where
  conn : Connection σ
  unsolicitedResponses : Queue
  deriving DecidableEq

namespace Session

variable {σ α : Type}

def new (conn : Connection σ) : Session σ := { conn, unsolicitedResponses := [] }

def onConn (x : Exec (Connection σ) Fault α) : Exec (Session σ) Fault α :=
  Exec.on Session.conn (fun conn s => { s with conn }) x

def onQueue (x : Collect α) : Exec (Session σ) Fault α :=
  Exec.on Session.unsolicitedResponses
    (fun unsolicitedResponses s => { s with unsolicitedResponses }) x

variable (peer : Peer σ) (parse : ParseResponse)

/-- Run a command and parse its answer, given the index of the tagged response. -/
def operation (c : Command) (finish : Bytes → Nat → Collect α) :
    Exec (Session σ) Fault α := do
  let (lines, ok) ← onConn (Connection.command peer parse c)
  onQueue (finish lines ok)

/-- An operation that parses the answer up to the tagged response. -/
def untagged (c : Command) (finish : Bytes → Collect α) : Exec (Session σ) Fault α :=
  operation peer parse c fun lines ok => finish (lines.take ok)

/-- `run_command_and_check_ok` -/
def checkOk (c : Command) : Exec (Session σ) Fault Unit :=
  untagged peer parse c fun _ => pure ()

def select (mailboxName : Str) : Exec (Session σ) Fault Mailbox :=
  operation peer parse (.select mailboxName) fun lines _ => parseMailbox parse lines

def examine (mailboxName : Str) : Exec (Session σ) Fault Mailbox :=
  operation peer parse (.examine mailboxName) fun lines _ => parseMailbox parse lines

def fetch (sequenceSet query : Str) : Exec (Session σ) Fault (List Fetch) :=
  untagged peer parse (.fetch sequenceSet query) (parseFetches parse)

def uidFetch (uidSet query : Str) : Exec (Session σ) Fault (List Fetch) :=
  untagged peer parse (.uidFetch uidSet query) (parseFetches parse)

def noop : Exec (Session σ) Fault Unit := untagged peer parse .noop (parseNoop parse)

/-- Some servers end the answer to `LOGOUT` with a tagged `BYE`. -/
def logout : Exec (Session σ) Fault Unit := fun s =>
  match checkOk peer parse .logout s with
  | (.error (.err (.bye _ _)), s) => (.ok (), s)
  | r => r

def create (mailboxName : Str) : Exec (Session σ) Fault Unit :=
  checkOk peer parse (.create mailboxName)

def delete (mailboxName : Str) : Exec (Session σ) Fault Unit :=
  checkOk peer parse (.delete mailboxName)

def rename (old new : Str) : Exec (Session σ) Fault Unit :=
  checkOk peer parse (.rename old new)

def subscribe (mailbox : Str) : Exec (Session σ) Fault Unit :=
  checkOk peer parse (.subscribe mailbox)

def unsubscribe (mailbox : Str) : Exec (Session σ) Fault Unit :=
  checkOk peer parse (.unsubscribe mailbox)

def capabilities : Exec (Session σ) Fault (Finset Capability) :=
  untagged peer parse .capability (parseCapabilities parse)

def expunge : Exec (Session σ) Fault Deleted :=
  operation peer parse .expunge fun lines _ => parseExpunge parse lines

def uidExpunge (uidSet : Str) : Exec (Session σ) Fault Deleted :=
  operation peer parse (.uidExpunge uidSet) fun lines _ => parseExpunge parse lines

def check : Exec (Session σ) Fault Unit := checkOk peer parse .check

def close : Exec (Session σ) Fault Unit := checkOk peer parse .close

def store (sequenceSet query : Str) : Exec (Session σ) Fault (List Fetch) :=
  untagged peer parse (.store sequenceSet query) (parseFetches parse)

def uidStore (uidSet query : Str) : Exec (Session σ) Fault (List Fetch) :=
  untagged peer parse (.uidStore uidSet query) (parseFetches parse)

def copy (sequenceSet mailboxName : Str) : Exec (Session σ) Fault Unit :=
  checkOk peer parse (.copy sequenceSet mailboxName)

def uidCopy (uidSet mailboxName : Str) : Exec (Session σ) Fault Unit :=
  checkOk peer parse (.uidCopy uidSet mailboxName)

def mv (sequenceSet mailboxName : Str) : Exec (Session σ) Fault Unit :=
  checkOk peer parse (.mv sequenceSet mailboxName)

def uidMv (uidSet mailboxName : Str) : Exec (Session σ) Fault Unit :=
  checkOk peer parse (.uidMv uidSet mailboxName)

def list (referenceName mailboxPattern : Option Str) : Exec (Session σ) Fault (List Name) :=
  untagged peer parse (.list referenceName mailboxPattern) (parseNames parse)

def lsub (referenceName mailboxPattern : Option Str) : Exec (Session σ) Fault (List Name) :=
  untagged peer parse (.lsub referenceName mailboxPattern) (parseNames parse)

def status (mailboxName dataItems : Str) : Exec (Session σ) Fault Mailbox :=
  untagged peer parse (.status mailboxName dataItems) (parseStatus parse mailboxName)

def search (query : Str) : Exec (Session σ) Fault (Finset UInt32) :=
  untagged peer parse (.search query) (parseIdSet parse)

def uidSearch (query : Str) : Exec (Session σ) Fault (Finset UInt32) :=
  untagged peer parse (.uidSearch query) (parseIdSet parse)

def sort (criteria : List SortCriterion) (charset : SortCharset) (query : Str) :
    Exec (Session σ) Fault (List UInt32) :=
  untagged peer parse (.sort criteria charset query) (parseIdSeq parse)

def uidSort (criteria : List SortCriterion) (charset : SortCharset) (query : Str) :
    Exec (Session σ) Fault (List UInt32) :=
  untagged peer parse (.uidSort criteria charset query) (parseIdSeq parse)

def setAcl (mailboxName identifier : Str) (rights : AclRights)
    (modification : AclModifyMode) : Exec (Session σ) Fault Unit :=
  checkOk peer parse (.setAcl mailboxName identifier rights modification)

def deleteAcl (mailboxName identifier : Str) : Exec (Session σ) Fault Unit :=
  checkOk peer parse (.deleteAcl mailboxName identifier)

def getAcl (mailboxName : Str) : Exec (Session σ) Fault Acl :=
  untagged peer parse (.getAcl mailboxName) (parseAcl parse)

def listRights (mailboxName identifier : Str) : Exec (Session σ) Fault ListRights :=
  untagged peer parse (.listRights mailboxName identifier) (parseListRights parse)

def myRights (mailboxName : Str) : Exec (Session σ) Fault MyRights :=
  untagged peer parse (.myRights mailboxName) (parseMyRights parse)

def setQuota (quotaRoot : Str) (limits : List QuotaResourceLimit) :
    Exec (Session σ) Fault (Option Quota) :=
  untagged peer parse (.setQuota quotaRoot limits) (parseQuota parse)

def getQuota (quotaRoot : Str) : Exec (Session σ) Fault (Option Quota) :=
  untagged peer parse (.getQuota quotaRoot) (parseQuota parse)

def getQuotaRoot (mailboxName : Str) : Exec (Session σ) Fault QuotaRootResponse :=
  untagged peer parse (.getQuotaRoot mailboxName) (parseQuotaRoot parse)

def listStatus (referenceName mailboxPattern : Option Str) (dataItems : Str) :
    Exec (Session σ) Fault (List (Name × Option Mailbox)) :=
  untagged peer parse (.listStatus referenceName mailboxPattern dataItems)
    (parseExtendedNames parse)

/-- The size of the longest entry left out, as the tagged response reports it. -/
def missedEntries (maxsize : Option Nat) (tagged : Bytes) : Collect (Option UInt64) :=
  if maxsize = none then pure none
  else
    match parse.run tagged with
    | .ok _ (.done _ _ code _) =>
        match code with
        | some (.metadataLongEntries v) => pure (some v)
        | _ => pure none
    | _ => .fail .panic

def getMetadata (mailbox : Option Str) (entries : List Str) (depth : MetadataDepth)
    (maxsize : Option Nat) : Exec (Session σ) Fault (List Metadata × Option UInt64) :=
  operation peer parse (.getMetadata mailbox entries depth maxsize) fun lines ok => do
    let metadata ← parseMetadata parse (lines.take ok)
    let missed ← missedEntries parse maxsize (lines.drop ok)
    pure (metadata, missed)

def setMetadata (mbox : Str) (annotations : List Metadata) : Exec (Session σ) Fault Unit :=
  checkOk peer parse (.setMetadata mbox annotations)

end Session
end RustImap
