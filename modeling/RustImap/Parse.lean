import RustImap.Error
import RustImap.Exec
import RustImap.Types
import Mathlib.Data.Finset.Dedup

/-!
The parsers of command responses.

Each of them goes through the responses of a buffer, puts what belongs to the command
into its result and what does not on the queue of unsolicited responses, and gives up
at the first response that is neither. What has been queued stays queued.
-/

namespace RustImap

abbrev Collect (α : Type) := Exec Queue Fault α

section Loop

variable {A : Type} (parse : ParseResponse) (body : A → Response → Bytes → Collect A)

/-- The loop the parsers share: `body` gets the value built so far, a response and the
input after it. The first argument bounds the number of responses. -/
def loopResponses : Nat → A → Bytes → Collect A
  | 0, a, _ => pure a
  | turns + 1, a, lines =>
      if lines = [] then pure a
      else
        match parse.run lines with
        | .ok rest r => do
            let a ← body a r rest
            loopResponses turns a rest
        | _ => .fail (.err (.parse (.invalid lines)))

def forResponses (a : A) (lines : Bytes) : Collect A :=
  loopResponses parse body lines.length a lines

/-- The same loop with the test for the end of the input after a response. -/
def forResponses1 (a : A) (lines : Bytes) : Collect A :=
  if lines = [] then .fail (.err (.parse (.invalid [])))
  else forResponses parse body a lines

theorem loopResponses_enough {m n : Nat} {lines : Bytes} (hm : lines.length ≤ m)
    (hn : lines.length ≤ n) (a : A) :
    loopResponses parse body m a lines = loopResponses parse body n a lines := by
  induction m generalizing n lines a with
  | zero =>
      obtain rfl := List.eq_nil_of_length_eq_zero (Nat.le_zero.mp hm)
      cases n <;> rfl
  | succ m ih =>
      cases n with
      | zero =>
          obtain rfl := List.eq_nil_of_length_eq_zero (Nat.le_zero.mp hn)
          rfl
      | succ n =>
          simp only [loopResponses]
          split
          · rfl
          · cases hr : parse.run lines with
            | incomplete | error => rfl
            | ok rest r =>
                have short := parse.shrinks hr
                have tail : ∀ a, loopResponses parse body m a rest =
                    loopResponses parse body n a rest := fun a => ih (by omega) (by omega) a
                simp only [tail]

/-- One turn, when the input begins with a response. -/
theorem forResponses_ok {lines rest : Bytes} {r : Response}
    (h : parse.run lines = .ok rest r) (a : A) :
    forResponses parse body a lines =
      (do let a ← body a r rest; forResponses parse body a rest) := by
  have short := parse.shrinks h
  have hne : lines ≠ [] := by
    rintro rfl
    exact parse.run_nil rest r h
  obtain ⟨n, hn⟩ : ∃ n, lines.length = n + 1 := ⟨lines.length - 1, by omega⟩
  have tail : ∀ a, loopResponses parse body n a rest = forResponses parse body a rest :=
    fun a => loopResponses_enough parse body (by omega) (Nat.le_refl _) a
  rw [forResponses, hn, loopResponses, if_neg hne, h]
  simp only [tail]

/-- The loop over a buffer of whole responses is a loop over these responses. -/
theorem forResponses_splits (step : A → Response → Collect A) {lines : Bytes}
    {rs : List Response} (h : parse.Splits lines rs) (a : A) :
    forResponses parse (fun a r _ => step a r) a lines = rs.foldlM step a := by
  induction h generalizing a with
  | nil => rfl
  | cons run _ ih =>
      rw [forResponses_ok parse _ run, List.foldlM_cons]
      simp only [ih]

end Loop

/-- Check if this is simply a unilateral server response. `none` if it was handled. -/
def tryHandleUnilateral (res : Response) : Collect (Option Response) := fun unsolicited =>
  match UnsolicitedResponse.tryFrom res with
  | some response => (.ok none, unsolicited ++ [response])
  | none => (.ok (some res), unsolicited)

/-- What most parsers do with a response they have no use for. -/
def handleUnilateral (res : Response) : Collect Unit := do
  match ← tryHandleUnilateral res with
  | some resp => .fail (.err (.unexpected resp))
  | none => pure ()

def pushBack (response : UnsolicitedResponse) : Collect Unit := fun unsolicited =>
  (.ok (), unsolicited ++ [response])

inductive MapOrNot (T : Type) where
  | map (t : T)
  | mapVec (ts : List T)
  | not (r : Response)
  | ignore

inductive MapOrNot2 (T U : Type) where
  | map1 (t : T)
  | map2 (u : U)
  | mapVec1 (ts : List T)
  | mapVec2 (us : List U)
  | not (r : Response)
  | ignore

section Collectors

variable {T U : Type} (parse : ParseResponse)

def collect2 (map : Response → Except Error (MapOrNot2 T U)) (into : List T × List U)
    (r : Response) (_ : Bytes) : Collect (List T × List U) :=
  match map r with
  | .error e => .fail (.err e)
  | .ok (.map1 t) => pure (into.1 ++ [t], into.2)
  | .ok (.map2 u) => pure (into.1, into.2 ++ [u])
  | .ok (.mapVec1 ts) => pure (into.1 ++ ts, into.2)
  | .ok (.mapVec2 us) => pure (into.1, into.2 ++ us)
  | .ok (.not resp) => do
      match ← tryHandleUnilateral resp with
      | some (.fetch _ _) => pure into
      | some resp => .fail (.err (.unexpected resp))
      | none => pure into
  | .ok .ignore => pure into

def parseManyInto2 (map : Response → Except Error (MapOrNot2 T U)) (input : Bytes)
    (into1 : List T) (into2 : List U) : Collect (List T × List U) :=
  forResponses parse (collect2 map) (into1, into2) input

/-- `MapOrNot` as the two-sided choice that never uses the other side. -/
def MapOrNot.toMapOrNot2 : MapOrNot T → MapOrNot2 T Unit
  | .map t => .map1 t
  | .mapVec ts => .mapVec1 ts
  | .not r => .not r
  | .ignore => .ignore

def parseManyInto (map : Response → Except Error (MapOrNot T)) (input : Bytes)
    (into : List T) : Collect (List T) := do
  let (into, other) ←
    parseManyInto2 parse (fun r => (map r).map MapOrNot.toMapOrNot2) input into []
  if other.length = 0 then pure into else .fail .panic

def parseUntilDoneInternal (input : Bytes) (optional : Bool)
    (map : Response → Except Error (MapOrNot T)) : Collect (Option T) := do
  let output ← parseManyInto parse map input []
  match output with
  | [t] => pure (some t)
  | [] => if optional then pure none else .fail (.err (.parse (.invalid input)))
  | _ => .fail (.err (.parse (.invalid input)))

def parseUntilDoneOptional (input : Bytes) (map : Response → Except Error (MapOrNot T)) :
    Collect (Option T) :=
  parseUntilDoneInternal parse input true map

def parseUntilDone (input : Bytes) (map : Response → Except Error (MapOrNot T)) :
    Collect T := do
  match ← parseUntilDoneInternal parse input false map with
  | some t => pure t
  | none => .fail .panic

end Collectors

section Parsers

variable (parse : ParseResponse)

/-- `vanished`, `expunged` and `mod_seq` of `parse_expunge`. -/
structure Expunging where
  expunged : List UInt32
  vanished : List (UInt32 × UInt32)
  modSeq : Option UInt64

def expungeStep (a : Expunging) (r : Response) (_ : Bytes) : Collect Expunging :=
  match r with
  | .done _ status code _ =>
      if status ≠ .ok then .fail .panic
      else
        match code with
        | some (.highestModSeq ms) => pure { a with modSeq := some ms }
        | _ => pure a
  | .expunge seq => pure { a with expunged := a.expunged ++ [seq] }
  | .vanished _ uids => pure { a with vanished := a.vanished ++ uids }
  | data => do
      handleUnilateral data
      pure a

def parseExpunge (lines : Bytes) : Collect Deleted := do
  let a ← forResponses parse expungeStep ⟨[], [], none⟩ lines
  if a.vanished ≠ [] then pure ⟨.vanished a.vanished, a.modSeq⟩
  else pure ⟨.expunged a.expunged, a.modSeq⟩

def appendStep (appended : Appended) (r : Response) (_ : Bytes) : Collect Appended :=
  match r with
  | .done _ status code _ =>
      if status ≠ .ok then .fail .panic
      else
        match code with
        | some (.appendUid validity uids) => pure ⟨some validity, some uids⟩
        | _ => pure appended
  | data => do
      handleUnilateral data
      pure appended

def parseAppend (lines : Bytes) : Collect Appended :=
  forResponses1 parse appendStep ⟨none, none⟩ lines

def parseNoop (lines : Bytes) : Collect Unit :=
  forResponses parse (fun _ r _ => handleUnilateral r) () lines

/-- An untagged `OK` with a response code, seen by `parse_mailbox`. -/
def Mailbox.withCode (mailbox : Mailbox) : Option ResponseCode → Mailbox
  | some (.highestModSeq seq) => { mailbox with highestModSeq := some seq }
  | some (.uidValidity uid) => { mailbox with uidValidity := some uid }
  | some (.uidNext unext) => { mailbox with uidNext := some unext }
  | some (.unseen n) => { mailbox with unseen := some n }
  | some (.permanentFlags flags) =>
      { mailbox with permanentFlags := mailbox.permanentFlags ++ Flag.fromStrs flags }
  | _ => mailbox

def mailboxStep (mailbox : Mailbox) (r : Response) (rest : Bytes) : Collect Mailbox :=
  match r with
  | .done _ status code _ =>
      if rest ≠ [] then .fail .panic
      else if status ≠ .ok then .fail .panic
      else
        match code with
        | some .readOnly => pure { mailbox with isReadOnly := true }
        | _ => pure mailbox
  | .data status code _ =>
      match status with
      | .ok => pure (mailbox.withCode code)
      | _ => .fail .panic
  | .mailboxData m =>
      match m with
      | .status name status => do
          pushBack (.status name status)
          pure mailbox
      | .exists_ e => pure { mailbox with exists_ := e }
      | .recent n => pure { mailbox with recent := n }
      | .flags flags => pure { mailbox with flags := mailbox.flags ++ Flag.fromStrs flags }
      | _ => pure mailbox
  | .expunge n => do
      pushBack (.expunge n)
      pure mailbox
  | resp => .fail (.err (.unexpected resp))

def parseMailbox (lines : Bytes) : Collect Mailbox :=
  forResponses1 parse mailboxStep .empty lines

def Mailbox.withAttribute (mailbox : Mailbox) : StatusAttribute → Mailbox
  | .highestModSeq v => { mailbox with highestModSeq := some v }
  | .messages v => { mailbox with exists_ := v }
  | .recent v => { mailbox with recent := v }
  | .uidNext v => { mailbox with uidNext := some v }
  | .uidValidity v => { mailbox with uidValidity := some v }
  | .unseen v => { mailbox with unseen := some v }
  | .other _ => mailbox

/-- The accumulator is the mailbox and `got_anything`. -/
def statusStep (mailboxName : Str) (a : Mailbox × Bool) (r : Response) (_ : Bytes) :
    Collect (Mailbox × Bool) :=
  match r with
  | .mailboxData (.status theirs status) =>
      if theirs = mailboxName then pure (status.foldl Mailbox.withAttribute a.1, true)
      else do
        handleUnilateral (.mailboxData (.status theirs status))
        pure a
  | data => do
      handleUnilateral data
      pure a

def parseStatus (mailboxName : Str) (lines : Bytes) : Collect Mailbox := do
  let (mailbox, gotAnything) ←
    forResponses parse (statusStep mailboxName) (.empty, false) lines
  if gotAnything then pure mailbox else .fail (.err .missingStatusResponse)

def idsStep (collection : List UInt32) (r : Response) (_ : Bytes) : Collect (List UInt32) :=
  match r with
  | .mailboxData (.search c) => pure (collection ++ c)
  | .mailboxData (.sort c) => pure (collection ++ c)
  | data => do
      handleUnilateral data
      pure collection

def parseIdsWith (lines : Bytes) : Collect (List UInt32) :=
  forResponses parse idsStep [] lines

def parseIdSet (lines : Bytes) : Collect (Finset UInt32) :=
  List.toFinset <$> parseIdsWith parse lines

def parseIdSeq (lines : Bytes) : Collect (List UInt32) := parseIdsWith parse lines

def metadataStep (res : List Metadata) (r : Response) (_ : Bytes) : Collect (List Metadata) :=
  match r with
  | .mailboxData (.metadataSolicited _ values) => pure (res ++ values)
  | data => do
      handleUnilateral data
      pure res

def parseMetadata (lines : Bytes) : Collect (List Metadata) :=
  forResponses parse metadataStep [] lines

/-- The common fields of a `Fetch`, set eagerly. -/
def Fetch.withAttribute (fetch : Fetch) : AttributeValue → Fetch
  | .flags flags => { fetch with flags := fetch.flags ++ Flag.fromStrs flags }
  | .uid uid => { fetch with uid := some uid }
  | .rfc822Size sz => { fetch with size := some sz }
  | .other _ _ => fetch

def Fetch.ofResponse (num : UInt32) (attrs : List AttributeValue) : Fetch :=
  attrs.foldl Fetch.withAttribute
    { message := num, uid := none, size := none, fetch := attrs, flags := [] }

def fetchItem : Response → Except Error (MapOrNot Fetch)
  | .fetch num attrs => .ok (.map (.ofResponse num attrs))
  | resp => .ok (.not resp)

/-- `Fetches::parse` -/
def parseFetches (owned : Bytes) : Collect (List Fetch) :=
  parseManyInto parse fetchItem owned []

def nameItem : Response → Except Error (MapOrNot Name)
  | .mailboxData (.list attributes delimiter name) => .ok (.map { attributes, delimiter, name })
  | resp => .ok (.not resp)

/-- `Names::parse` -/
def parseNames (owned : Bytes) : Collect (List Name) :=
  parseManyInto parse nameItem owned []

def capabilityItems : Response → Except Error (MapOrNot Capability)
  | .capabilities c => .ok (.mapVec c)
  | resp => .ok (.not resp)

/-- `Capabilities::parse` -/
def parseCapabilities (owned : Bytes) : Collect (Finset Capability) :=
  List.toFinset <$> parseManyInto parse capabilityItems owned []

def aclItem : Response → Except Error (MapOrNot Acl)
  | .acl a => .ok (.map
      { mailbox := a.mailbox
        acls := a.acls.map fun e => { identifier := e.identifier, rights := e.rights.toFinset } })
  | resp => .ok (.not resp)

/-- `AclResponse::parse` -/
def parseAcl (owned : Bytes) : Collect Acl := parseUntilDone parse owned aclItem

def listRightsItem : Response → Except Error (MapOrNot ListRights)
  | .listRights a => .ok (.map
      { mailbox := a.mailbox
        identifier := a.identifier
        required := a.required.toFinset
        optional := a.optional.toFinset })
  | resp => .ok (.not resp)

/-- `ListRightsResponse::parse` -/
def parseListRights (owned : Bytes) : Collect ListRights :=
  parseUntilDone parse owned listRightsItem

def myRightsItem : Response → Except Error (MapOrNot MyRights)
  | .myRights a => .ok (.map { mailbox := a.mailbox, rights := a.rights.toFinset })
  | resp => .ok (.not resp)

/-- `MyRightsResponse::parse` -/
def parseMyRights (owned : Bytes) : Collect MyRights := parseUntilDone parse owned myRightsItem

def quotaItem : Response → Except Error (MapOrNot Quota)
  | .quota q => .ok (.map q)
  | resp => .ok (.not resp)

/-- `QuotaResponse::parse` -/
def parseQuota (owned : Bytes) : Collect (Option Quota) :=
  parseUntilDoneOptional parse owned quotaItem

def quotaRootItem : Response → Except Error (MapOrNot2 QuotaRoot Quota)
  | .quotaRoot q => .ok (.map1 q)
  | .quota q => .ok (.map2 q)
  | resp => .ok (.not resp)

/-- `QuotaRootResponse::parse` -/
def parseQuotaRoot (owned : Bytes) : Collect QuotaRootResponse := do
  let (quotaRoots, quotas) ← parseManyInto2 parse quotaRootItem owned [] []
  match quotaRoots with
  | [quotaRoot] => pure { quotaRoot, quotas }
  | _ => .fail (.err (.parse (.invalid owned)))

/-- `names`, `current_name` and `current_mailbox` of `ExtendedNames::parse`. -/
structure Extending where
  names : List (Name × Option Mailbox)
  currentName : Option Name
  currentMailbox : Option Mailbox

def extendedNamesStep (a : Extending) (r : Response) (_ : Bytes) : Collect Extending :=
  match r with
  | .mailboxData (.list attributes delimiter name) =>
      let name : Name := { attributes, delimiter, name }
      match a.currentName with
      | some current => pure ⟨a.names ++ [(current, a.currentMailbox)], some name, none⟩
      | none => pure { a with currentName := some name }
  | .mailboxData (.status _ status) =>
      pure { a with currentMailbox := some (status.foldl Mailbox.withAttribute .empty) }
  | resp => do
      handleUnilateral resp
      pure a

/-- `ExtendedNames::parse` -/
def parseExtendedNames (owned : Bytes) : Collect (List (Name × Option Mailbox)) := do
  let a ← forResponses parse extendedNamesStep ⟨[], none, none⟩ owned
  match a.currentName with
  | some current => pure (a.names ++ [(current, a.currentMailbox)])
  | none => pure a.names

/-- Parse a single unsolicited response from IDLE responses. -/
def parseIdle (lines : Bytes) : Bytes × Option (Except Error UnsolicitedResponse) :=
  match parse.run lines with
  | .ok rest response =>
      match UnsolicitedResponse.tryFrom response with
      | some unsolicited => (rest, some (.ok unsolicited))
      | none => (rest, some (.error (.unexpected response)))
  | .incomplete => (lines, none)
  | .error => (lines, some (.error (.parse (.invalid lines))))

end Parsers

end RustImap
