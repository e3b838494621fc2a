import RustImap.Proto
import Mathlib.Data.Finset.Basic

/-!
The values the client returns.

Rust's `HashSet` is a `Finset`; a type that copies one of `imap_proto` field by field
is that type. Accessors of the returned values are not modelled here.
-/

namespace RustImap

inductive Flag where
  | seen
  | answered
  | flagged
  | deleted
  | draft
  | recent
  | mayCreate
  | custom (name : Str)
  deriving DecidableEq

namespace Flag

def system (s : Str) : Option Flag :=
  if s = "\\Seen".toList then some .seen
  else if s = "\\Answered".toList then some .answered
  else if s = "\\Flagged".toList then some .flagged
  else if s = "\\Deleted".toList then some .deleted
  else if s = "\\Draft".toList then some .draft
  else if s = "\\Recent".toList then some .recent
  else if s = "\\*".toList then some .mayCreate
  else none

/-- `Flag::from` -/
def ofStr (s : Str) : Flag := (system s).getD (.custom s)

def fromStrs (v : List Str) : List Flag := v.map ofStr

/-- `Display` -/
def text : Flag → Str
  | .seen => "\\Seen".toList
  | .answered => "\\Answered".toList
  | .flagged => "\\Flagged".toList
  | .deleted => "\\Deleted".toList
  | .draft => "\\Draft".toList
  | .recent => "\\Recent".toList
  | .mayCreate => "\\*".toList
  | .custom name => name

end Flag

inductive UnsolicitedResponse where
  | bye (code : Option ResponseCode) (information : Option Str)
  | exists_ (count : UInt32)
  | expunge (seq : UInt32)
  | fetch (id : UInt32) (attributes : List AttributeValue)
  | flags (flags : List Flag)
  | metadata (mailbox : Str) (metadataEntries : List Str)
  | ok (code : Option ResponseCode) (information : Option Str)
  | recent (count : UInt32)
  | status (mailbox : Str) (attributes : List StatusAttribute)
  | vanished (earlier : Bool) (uids : List (UInt32 × UInt32))
  deriving DecidableEq

/-- `UnsolicitedResponse::try_from`; `none` hands the response back. -/
def UnsolicitedResponse.tryFrom : Response → Option UnsolicitedResponse
  | .data .bye code information => some (.bye code information)
  | .data .ok code information => some (.ok code information)
  | .expunge n => some (.expunge n)
  | .fetch id attributes => some (.fetch id attributes)
  | .mailboxData (.exists_ n) => some (.exists_ n)
  | .mailboxData (.flags fs) => some (.flags (Flag.fromStrs fs))
  | .mailboxData (.metadataUnsolicited mailbox values) => some (.metadata mailbox values)
  | .mailboxData (.recent n) => some (.recent n)
  | .mailboxData (.status mailbox attributes) => some (.status mailbox attributes)
  | .vanished earlier uids => some (.vanished earlier uids)
  | _ => none

/-- `Session::unsolicited_responses`, oldest first. -/
abbrev Queue := List UnsolicitedResponse

structure Mailbox where
  flags : List Flag
  exists_ : UInt32
  recent : UInt32
  unseen : Option UInt32
  permanentFlags : List Flag
  uidNext : Option UInt32
  uidValidity : Option UInt32
  highestModSeq : Option UInt64
  isReadOnly : Bool
  deriving DecidableEq

/-- `Mailbox::default` -/
def Mailbox.empty : Mailbox where
  flags := []
  exists_ := 0
  recent := 0
  unseen := none
  permanentFlags := []
  uidNext := none
  uidValidity := none
  highestModSeq := none
  isReadOnly := false

structure Name where
  attributes : List NameAttribute
  delimiter : Option Str
  name : Str
  deriving DecidableEq

structure Fetch where
  message : UInt32
  uid : Option UInt32
  size : Option UInt32
  fetch : List AttributeValue
  flags : List Flag
  deriving DecidableEq

inductive DeletedMessages where
  | expunged (seqs : List UInt32)
  | vanished (uids : List (UInt32 × UInt32))
  deriving DecidableEq

structure Deleted where
  messages : DeletedMessages
  modSeq : Option UInt64
  deriving DecidableEq

structure Appended where
  uidValidity : Option UInt32
  uids : Option (List UidSetMember)
  deriving DecidableEq

/-- `AclRights`, a set of rights. -/
abbrev AclRights := Finset AclRight

structure AclEntry where
  identifier : Str
  rights : AclRights
  deriving DecidableEq

structure Acl where
  mailbox : Str
  acls : List AclEntry
  deriving DecidableEq

structure ListRights where
  mailbox : Str
  identifier : Str
  required : AclRights
  optional : AclRights
  deriving DecidableEq

structure MyRights where
  mailbox : Str
  rights : AclRights
  deriving DecidableEq

/-- `InnerQuotaRootResponse` -/
structure QuotaRootResponse where
  quotaRoot : QuotaRoot
  quotas : List Quota
  deriving DecidableEq

end RustImap
