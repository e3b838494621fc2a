import RustImap.Error
import RustImap.Types
import Mathlib.Data.Char
import Mathlib.Data.Multiset.Sort

/-!
The command lines.

A command is an operation together with its arguments. `Command.text` is the line each
operation builds, without tag and line end: the constructors are the operations, and
each clause is the `format!` of one of them, with the checks made on its arguments in
the order in which the source makes them.
-/

namespace RustImap

/-- `iter_join` -/
def iterJoin (items : List Str) (delim : Str) : Str := delim.intercalate items

theorem mem_iterJoin {c : Char} {delim : Str} (hdelim : c ∉ delim) (items : List Str) :
    c ∈ iterJoin items delim ↔ ∃ s ∈ items, c ∈ s := by
  unfold iterJoin
  induction items with
  | nil => simp
  | cons s items ih =>
      cases items with
      | nil => simp
      | cons t items =>
          rw [List.intercalate_cons_cons, List.mem_append, List.mem_append, ih]
          simp [hdelim]

/-- `format!("{} {} …")` -/
def words (items : List Str) : Str := iterJoin items [' ']

def parens (s : Str) : Str := '(' :: s ++ [')']

/-- The macro `quote!`. -/
def quote (x : Str) : Str :=
  let escaped := x.flatMap fun c => if c = '\\' then ['\\', '\\'] else [c]
  '"' :: escaped.flatMap (fun c => if c = '"' then ['\\', '"'] else [c]) ++ ['"']

/-- Fail with the first character of `value` that satisfies `bad`. -/
def rejectChar (bad : Char → Bool) (synopsis argName value : Str) : Except Error Str :=
  match value.find? bad with
  | some c => .error (.validate
      { commandSynopsis := synopsis, argument := argName, offendingChar := c })
  | none => .ok value

def isLineBreak (c : Char) : Bool := c = '\n' || c = '\r'

def isAsciiWhitespace (c : Char) : Bool :=
  c = ' ' || c = '\t' || c = '\n' || c = '\x0c' || c = '\r'

def validateStrNoquote (synopsis argName value : Str) : Except Error Str :=
  rejectChar isLineBreak synopsis argName value

def validateStr (synopsis argName value : Str) : Except Error Str :=
  quote <$> validateStrNoquote synopsis argName value

def validateSequenceSet (synopsis argName value : Str) : Except Error Str :=
  rejectChar isAsciiWhitespace synopsis argName value

inductive SortCriterion where
  | arrival
  | cc
  | date
  | from_
  | reverse (criterion : SortCriterion)
  | size
  | subject
  | to_
  deriving DecidableEq

def SortCriterion.text : SortCriterion → Str
  | .arrival => "ARRIVAL".toList
  | .cc => "CC".toList
  | .date => "DATE".toList
  | .from_ => "FROM".toList
  | .reverse c => "REVERSE ".toList ++ c.text
  | .size => "SIZE".toList
  | .subject => "SUBJECT".toList
  | .to_ => "TO".toList

/-- `SortCriteria` -/
def sortCriteria (criteria : List SortCriterion) : Str :=
  if criteria = [] then [] else parens (words (criteria.map SortCriterion.text))

inductive SortCharset where
  | utf8
  | usAscii
  | custom (name : Str)
  deriving DecidableEq

def SortCharset.text : SortCharset → Str
  | .utf8 => "UTF-8".toList
  | .usAscii => "US-ASCII".toList
  | .custom name => name

inductive AclModifyMode where
  | replace
  | add
  | remove
  deriving DecidableEq

def AclModifyMode.text : AclModifyMode → Str
  | .replace => []
  | .add => ['+']
  | .remove => ['-']

/-- `Display` for `AclRights`: the letters in order. -/
def AclRights.text (rights : AclRights) : Str :=
  (rights.val.map AclRight.letter).sort (· ≤ ·)

structure QuotaResourceLimit where
  name : QuotaResourceName
  amount : UInt64
  deriving DecidableEq

def QuotaResourceName.text : QuotaResourceName → Str
  | .storage => "STORAGE".toList
  | .message => "MESSAGE".toList
  | .atom name => name

def QuotaResourceLimit.text (limit : QuotaResourceLimit) : Str :=
  words [limit.name.text, decimal limit.amount.toNat]

inductive MetadataDepth where
  | zero
  | one
  | infinity
  deriving DecidableEq

def MetadataDepth.text : MetadataDepth → Str
  | .zero => "0".toList
  | .one => "1".toList
  | .infinity => "infinity".toList

/-- `DateTime<FixedOffset>`, by the line `date.format("%d-%h-%Y %T %z")` gives for it. -/
structure DateTime where
  text : Str
  singleLine : SingleLine text
  deriving DecidableEq

/-- `format!("entry#{}", item_index + 1)` -/
def numbered (what : String) (index : Nat) : Str := what.toList ++ decimal (index + 1)

/-- An optional argument: checked when it is there, a fixed text when it is not. -/
def optional (value : Option Str) (check : Str → Except Error Str) (absent : String) :
    Except Error Str :=
  match value with
  | some v => check v
  | none => .ok absent.toList

/-- `Metadata::format_as_cmd_list_item` -/
def Metadata.formatAsCmdListItem (metadata : Metadata) (itemIndex : Nat) :
    Except Error Str := do
  let synopsis := "SETMETADATA".toList
  let entry ← validateStr synopsis (numbered "entry#" itemIndex) metadata.entry
  let value ← optional metadata.value (validateStr synopsis (numbered "value#" itemIndex)) "NIL"
  pure (words [entry, value])

/-- `iter().enumerate().map(f).collect::<Result<_>>()` from index `i` on. -/
def collectFrom {α : Type} (f : α → Nat → Except Error Str) :
    Nat → List α → Except Error (List Str)
  | _, [] => pure []
  | i, a :: as => do
      let s ← f a i
      let rest ← collectFrom f (i + 1) as
      pure (s :: rest)

inductive Command where
  | login (username password : Str)
  | authenticate (authType : Str)
  | starttls
  | capability
  | select (mailboxName : Str)
  | examine (mailboxName : Str)
  | fetch (sequenceSet query : Str)
  | uidFetch (uidSet query : Str)
  | noop
  | logout
  | create (mailboxName : Str)
  | delete (mailboxName : Str)
  | rename (old new : Str)
  | subscribe (mailbox : Str)
  | unsubscribe (mailbox : Str)
  | expunge
  | uidExpunge (uidSet : Str)
  | check
  | close
  | store (sequenceSet query : Str)
  | uidStore (uidSet query : Str)
  | copy (sequenceSet mailboxName : Str)
  | uidCopy (uidSet mailboxName : Str)
  | mv (sequenceSet mailboxName : Str)
  | uidMv (uidSet mailboxName : Str)
  | list (referenceName mailboxPattern : Option Str)
  | lsub (referenceName mailboxPattern : Option Str)
  | status (mailboxName dataItems : Str)
  | idle
  | append (mailbox : Str) (flags : List Flag) (date : Option DateTime) (length : Nat)
  | search (query : Str)
  | uidSearch (query : Str)
  | sort (criteria : List SortCriterion) (charset : SortCharset) (query : Str)
  | uidSort (criteria : List SortCriterion) (charset : SortCharset) (query : Str)
  | setAcl (mailboxName identifier : Str) (rights : AclRights) (modification : AclModifyMode)
  | deleteAcl (mailboxName identifier : Str)
  | getAcl (mailboxName : Str)
  | listRights (mailboxName identifier : Str)
  | myRights (mailboxName : Str)
  | setQuota (quotaRoot : Str) (limits : List QuotaResourceLimit)
  | getQuota (quotaRoot : Str)
  | getQuotaRoot (mailboxName : Str)
  | listStatus (referenceName mailboxPattern : Option Str) (dataItems : Str)
  | getMetadata (mailbox : Option Str) (entries : List Str) (depth : MetadataDepth)
      (maxsize : Option Nat)
  | setMetadata (mbox : Str) (annotations : List Metadata)
  deriving DecidableEq

/-- `format!("CMD {} {} …", …)`; the first argument that is rejected decides. -/
def line (cmd : String) (args : List (Except Error Str)) : Except Error (Option Str) := do
  let args ← args.mapM id
  pure (some (words (cmd.toList :: args)))

/-- `validate_str(cmd, arg_name, value)` -/
def arg (cmd argName : String) (value : Str) : Except Error Str :=
  validateStr cmd.toList argName.toList value

/-- The text of the command; `none` when the operation sends nothing. -/
def Command.text : Command → Except Error (Option Str)
  | .login username password =>
      line "LOGIN" [arg "LOGIN" "username" username, arg "LOGIN" "password" password]
  | .authenticate authType => line "AUTHENTICATE" [.ok authType]
  | .starttls => line "STARTTLS" []
  | .capability => line "CAPABILITY" []
  | .select mailboxName => line "SELECT" [arg "SELECT" "mailbox" mailboxName]
  | .examine mailboxName => line "EXAMINE" [arg "EXAMINE" "mailbox" mailboxName]
  | .fetch sequenceSet query =>
      if sequenceSet = [] then .ok none
      else line "FETCH" [validateSequenceSet "FETCH".toList "seq".toList sequenceSet,
        validateStrNoquote "FETCH".toList "query".toList query]
  | .uidFetch uidSet query =>
      if uidSet = [] then .ok none
      else line "UID FETCH" [validateSequenceSet "UID FETCH".toList "seq".toList uidSet,
        validateStrNoquote "UID FETCH".toList "query".toList query]
  | .noop => line "NOOP" []
  | .logout => line "LOGOUT" []
  | .create mailboxName => line "CREATE" [arg "CREATE" "mailbox" mailboxName]
  | .delete mailboxName => line "DELETE" [arg "DELETE" "mailbox" mailboxName]
  | .rename old new => line "RENAME" [.ok (quote old), .ok (quote new)]
  | .subscribe mailbox => line "SUBSCRIBE" [.ok (quote mailbox)]
  | .unsubscribe mailbox => line "UNSUBSCRIBE" [.ok (quote mailbox)]
  | .expunge => line "EXPUNGE" []
  | .uidExpunge uidSet => line "UID EXPUNGE" [.ok uidSet]
  | .check => line "CHECK" []
  | .close => line "CLOSE" []
  | .store sequenceSet query => line "STORE" [.ok sequenceSet, .ok query]
  | .uidStore uidSet query => line "UID STORE" [.ok uidSet, .ok query]
  | .copy sequenceSet mailboxName => line "COPY" [.ok sequenceSet, .ok mailboxName]
  | .uidCopy uidSet mailboxName => line "UID COPY" [.ok uidSet, .ok mailboxName]
  | .mv sequenceSet mailboxName =>
      line "MOVE" [.ok sequenceSet, arg "MOVE" "mailbox" mailboxName]
  | .uidMv uidSet mailboxName =>
      line "UID MOVE" [.ok uidSet, arg "UID MOVE" "mailbox" mailboxName]
  | .list referenceName mailboxPattern =>
      line "LIST" [.ok (quote (referenceName.getD [])),
        .ok (mailboxPattern.getD "\"\"".toList)]
  | .lsub referenceName mailboxPattern =>
      line "LSUB" [.ok (quote (referenceName.getD [])), .ok (mailboxPattern.getD [])]
  | .status mailboxName dataItems =>
      line "STATUS" [arg "STATUS" "mailbox" mailboxName, .ok dataItems]
  | .idle => line "IDLE" []
  | .append mailbox flags date length =>
      let flagstr := iterJoin ((flags.filter (· ≠ .recent)).map Flag.text) [' ']
      let datestr := (date.toList.map fun date => ' ' :: '"' :: date.text ++ ['"']).flatten
      line "APPEND" [.ok ('"' :: mailbox ++ ['"']), .ok (parens flagstr ++ datestr),
        .ok ('\x7b' :: decimal length ++ ['\x7d'])]
  | .search query => line "SEARCH" [.ok query]
  | .uidSearch query => line "UID SEARCH" [.ok query]
  | .sort criteria charset query =>
      line "SORT" [.ok (sortCriteria criteria), .ok charset.text, .ok query]
  | .uidSort criteria charset query =>
      line "UID SORT" [.ok (sortCriteria criteria), .ok charset.text, .ok query]
  | .setAcl mailboxName identifier rights modification =>
      line "SETACL" [arg "SETACL" "mailbox" mailboxName,
        arg "SETACL" "identifier" identifier, .ok (modification.text ++ rights.text)]
  | .deleteAcl mailboxName identifier =>
      line "DELETEACL" [arg "DELETEACL" "mailbox" mailboxName,
        arg "DELETEACL" "identifier" identifier]
  | .getAcl mailboxName => line "GETACL" [arg "GETACL" "mailbox" mailboxName]
  | .listRights mailboxName identifier =>
      line "LISTRIGHTS" [arg "LISTRIGHTS" "mailbox" mailboxName,
        arg "LISTRIGHTS" "identifier" identifier]
  | .myRights mailboxName => line "MYRIGHTS" [arg "MYRIGHTS" "mailbox" mailboxName]
  | .setQuota quotaRoot limits =>
      line "SETQUOTA" [arg "SETQUOTA" "quota_root" quotaRoot,
        .ok (parens (iterJoin (limits.map QuotaResourceLimit.text) [' ']))]
  | .getQuota quotaRoot => line "GETQUOTA" [arg "GETQUOTA" "quota_root" quotaRoot]
  | .getQuotaRoot mailboxName =>
      line "GETQUOTAROOT" [arg "GETQUOTAROOT" "mailbox" mailboxName]
  | .listStatus referenceName mailboxPattern dataItems =>
      line "LIST" [arg "LIST-STATUS" "reference" (referenceName.getD []),
        .ok (mailboxPattern.getD "\"\"".toList), .ok "RETURN".toList,
        .ok (parens (words ["STATUS".toList, dataItems]))]
  | .getMetadata mailbox entries depth maxsize => do
      let synopsis := "GETMETADATA".toList
      let entries ← collectFrom
        (fun entry i => validateStr synopsis (numbered "entry#" i) entry) 0 entries
      let maxsize := (maxsize.toList.map fun size => ["MAXSIZE".toList, decimal size]).flatten
      line "GETMETADATA" [.ok (parens (words ("DEPTH".toList :: depth.text :: maxsize))),
        optional mailbox (validateStr synopsis "mailbox".toList) "\"\"",
        .ok (parens (words entries))]
  | .setMetadata mbox annotations => do
      let items ← collectFrom Metadata.formatAsCmdListItem 0 annotations
      line "SETMETADATA" [arg "SETMETADATA" "mailbox" mbox, .ok (parens (words items))]

end RustImap
