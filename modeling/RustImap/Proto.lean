import RustImap.PrefixParser
import RustImap.Text

/-!
The responses of `imap_proto`, as far as the client looks into them.

The parser is a third-party crate. Its enums are open (`#[non_exhaustive]`), so each
of them has an `other` constructor for the variants the client never names; what
such a variant carries is kept as an opaque payload.
-/

namespace RustImap

inductive Status where
  | ok
  | no
  | bad
  | preAuth
  | bye
  deriving DecidableEq

inductive Capability where
  | imap4rev1
  | auth (mechanism : Str)
  | atom (name : Str)
  deriving DecidableEq

inductive UidSetMember where
  | uidRange (start stop : UInt32)
  | uid (uid : UInt32)
  deriving DecidableEq

inductive ResponseCode where
  | highestModSeq (seq : UInt64)
  | permanentFlags (flags : List Str)
  | readOnly
  | uidNext (uid : UInt32)
  | uidValidity (validity : UInt32)
  | unseen (seq : UInt32)
  | appendUid (validity : UInt32) (uids : List UidSetMember)
  | metadataLongEntries (size : UInt64)
  | metadataMaxSize (size : UInt64)
  | metadataTooMany
  | metadataNoPrivate
  | other (name : Str)
  deriving DecidableEq

inductive StatusAttribute where
  | highestModSeq (seq : UInt64)
  | messages (count : UInt32)
  | recent (count : UInt32)
  | uidNext (uid : UInt32)
  | uidValidity (validity : UInt32)
  | unseen (count : UInt32)
  | other (name : Str)
  deriving DecidableEq

inductive AttributeValue where
  | flags (flags : List Str)
  | uid (uid : UInt32)
  | rfc822Size (size : UInt32)
  | other (name : Str) (data : Bytes)
  deriving DecidableEq

structure Metadata where
  entry : Str
  value : Option Str
  deriving DecidableEq

/-- A name attribute, kept as its text. -/
abbrev NameAttribute := Str

inductive MailboxDatum where
  | exists_ (count : UInt32)
  | flags (flags : List Str)
  | list (nameAttributes : List NameAttribute) (delimiter : Option Str) (name : Str)
  | search (ids : List UInt32)
  | sort (ids : List UInt32)
  | status (mailbox : Str) (status : List StatusAttribute)
  | recent (count : UInt32)
  | metadataSolicited (mailbox : Str) (values : List Metadata)
  | metadataUnsolicited (mailbox : Str) (values : List Str)
  | other (name : Str)
  deriving DecidableEq

/-- A right of RFC 4314: the variant, by its name, and the character that `char::from` makes
of it. -/
structure AclRight where
  variant : Str
  letter : Char
  deriving DecidableEq

structure ProtoAclEntry where
  identifier : Str
  rights : List AclRight
  deriving DecidableEq

structure ProtoAcl where
  mailbox : Str
  acls : List ProtoAclEntry
  deriving DecidableEq

structure ProtoListRights where
  mailbox : Str
  identifier : Str
  required : List AclRight
  optional : List AclRight
  deriving DecidableEq

structure ProtoMyRights where
  mailbox : Str
  rights : List AclRight
  deriving DecidableEq

inductive QuotaResourceName where
  | storage
  | message
  | atom (name : Str)
  deriving DecidableEq

structure QuotaResource where
  name : QuotaResourceName
  usage : UInt64
  limit : UInt64
  deriving DecidableEq

/-- `imap_proto::Quota`, and the client's `Quota`, which copies it field by field. -/
structure Quota where
  rootName : Str
  resources : List QuotaResource
  deriving DecidableEq

structure QuotaRoot where
  mailboxName : Str
  quotaRootNames : List Str
  deriving DecidableEq

inductive Response where
  | capabilities (caps : List Capability)
  | continue_ (code : Option ResponseCode) (information : Option Str)
  | done (tag : Str) (status : Status) (code : Option ResponseCode)
      (information : Option Str)
  | data (status : Status) (code : Option ResponseCode) (information : Option Str)
  | expunge (seq : UInt32)
  | vanished (earlier : Bool) (uids : List (UInt32 × UInt32))
  | fetch (id : UInt32) (attributes : List AttributeValue)
  | mailboxData (datum : MailboxDatum)
  | quota (quota : Quota)
  | quotaRoot (root : QuotaRoot)
  | acl (acl : ProtoAcl)
  | listRights (rights : ProtoListRights)
  | myRights (rights : ProtoMyRights)
  | other (name : Str)
  deriving DecidableEq

/-- The response that ends the answer to a command. -/
def Response.isDone : Response → Bool
  | .done .. => true
  | _ => false

/-- `imap_proto::parser::parse_response`. -/
abbrev ParseResponse := Parser UInt8 Response

end RustImap
