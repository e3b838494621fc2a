import RustImap.Draining

/-!
What an answer comes to, by its responses.

The parsers go through bytes. Here each command has a parser that goes through responses
instead, and both come to the same whenever the bytes split into the responses; only an error
that quotes the bytes tells them apart.
-/

namespace RustImap

namespace Exec

variable {S ε α β : Type}

/-- The same computation, with its failures renamed. -/
def relabel (g : ε → ε) (x : Exec S ε α) : Exec S ε α := fun s => ((x s).1.mapError g, (x s).2)

variable (g : ε → ε)

theorem relabel_bind (x : Exec S ε α) (f : α → Exec S ε β) :
    relabel g (x >>= f) = relabel g x >>= fun a => relabel g (f a) := by
  funext s
  rw [relabel, bind_apply, bind_apply, relabel]
  cases x s with
  | mk r s' => cases r <;> rfl

theorem relabel_map (x : Exec S ε α) (f : α → β) :
    relabel g (f <$> x) = f <$> relabel g x := by
  rw [map_eq_bind, map_eq_bind, relabel_bind]
  rfl

theorem Simulates.relabel {T : Type} {I : S → T → Prop} {x : Exec S ε α} {y : Exec T ε α}
    (h : Simulates I Eq x y) : Simulates I Eq (relabel g x) (relabel g y) := by
  intro s t hI
  obtain ⟨hagree, hstate⟩ := h s t hI
  refine ⟨?_, hstate⟩
  rw [Exec.relabel, Exec.relabel, hagree.eq]
  exact .refl _

end Exec

open Exec (relabel)

/-- The error without the bytes it quotes. -/
def Fault.blank : Fault → Fault
  | .err (.parse (.invalid _)) => .err (.parse (.invalid []))
  | f => f

section Answers

variable {A T U : Type}

/-- The loop of the parsers over responses instead of bytes. -/
def eachResponse (body : A → Response → Bytes → Collect A) (a : A) (rs : List Response) :
    Collect A :=
  rs.foldlM (fun a r => body a r []) a

def collectInto (map : Response → Except Error (MapOrNot T)) (rs : List Response) :
    Collect (List T) := do
  let (into, other) ←
    eachResponse (collect2 fun r => (map r).map MapOrNot.toMapOrNot2) ([], ([] : List Unit)) rs
  if other.length = 0 then pure into else .fail .panic

def collectOptional (optional : Bool) (map : Response → Except Error (MapOrNot T))
    (rs : List Response) : Collect (Option T) := do
  let output ← collectInto map rs
  match output with
  | [t] => pure (some t)
  | [] => if optional then pure none else .fail (.err (.parse (.invalid [])))
  | _ => .fail (.err (.parse (.invalid [])))

def collectOne (map : Response → Except Error (MapOrNot T)) (rs : List Response) :
    Collect T := do
  match ← collectOptional false map rs with
  | some t => pure t
  | none => .fail .panic

/-- `NumberOfEntriesMissed`, as the tagged response reports it. -/
def missedBy (maxsize : Option Nat) : Option Response → Collect (Option UInt64)
  | some (.done _ _ code _) =>
      if maxsize = none then pure none
      else
        match code with
        | some (.metadataLongEntries n) => pure (some n)
        | _ => pure none
  | _ => if maxsize = none then pure none else .fail .panic

/-- What the operation makes of the untagged responses and the tagged one, if a command was
sent at all. -/
def Command.conclude (c : Command) (rs : List Response) (done : Option Response) :
    Collect Value :=
  match c with
  | .select _ | .examine _ => .mailbox <$> eachResponse mailboxStep .empty (rs ++ done.toList)
  | .fetch _ _ | .uidFetch _ _ | .store _ _ | .uidStore _ _ => .fetches <$> collectInto fetchItem rs
  | .noop => (fun _ => .unit) <$> eachResponse (fun _ r _ => handleUnilateral r) () rs
  | .capability => (fun cs => .capabilities cs.toFinset) <$> collectInto capabilityItems rs
  | .expunge | .uidExpunge _ =>
      (fun a => .deleted (if a.vanished ≠ [] then ⟨.vanished a.vanished, a.modSeq⟩
        else ⟨.expunged a.expunged, a.modSeq⟩)) <$>
        eachResponse expungeStep ⟨[], [], none⟩ (rs ++ done.toList)
  | .append _ _ _ _ => .appended <$> eachResponse appendStep ⟨none, none⟩ (rs ++ done.toList)
  | .list _ _ | .lsub _ _ => .names <$> collectInto nameItem rs
  | .status mailboxName _ => do
      let a ← eachResponse (statusStep mailboxName) (.empty, false) rs
      if a.2 then pure (.status mailboxName a.1) else .fail (.err .missingStatusResponse)
  | .search _ | .uidSearch _ => (fun ids => .idSet ids.toFinset) <$> eachResponse idsStep [] rs
  | .sort _ _ _ | .uidSort _ _ _ => .idSeq <$> eachResponse idsStep [] rs
  | .getAcl _ => .acl <$> collectOne aclItem rs
  | .listRights _ _ => .listRights <$> collectOne listRightsItem rs
  | .myRights _ => .myRights <$> collectOne myRightsItem rs
  | .setQuota _ _ | .getQuota _ => .quota <$> collectOptional true quotaItem rs
  | .getQuotaRoot _ => do
      let (quotaRoots, quotas) ← eachResponse (collect2 quotaRootItem) ([], []) rs
      match quotaRoots with
      | [quotaRoot] => pure (.quotaRoot { quotaRoot, quotas })
      | _ => .fail (.err (.parse (.invalid [])))
  | .listStatus _ _ _ => do
      let a ← eachResponse extendedNamesStep ⟨[], none, none⟩ rs
      match a.currentName with
      | some current => pure (.extendedNames (a.names ++ [(current, a.currentMailbox)]))
      | none => pure (.extendedNames a.names)
  | .getMetadata _ _ _ maxsize => do
      let metadata ← eachResponse metadataStep [] rs
      let missed ← missedBy maxsize done
      pure (.metadata metadata missed)
  | _ => pure .unit

end Answers

section Bytes

variable {A T U : Type} {parse : ParseResponse} {lines : Bytes} {rs : List Response}

/-- A loop whose body does not look at what follows a response. -/
theorem forResponses_each {body : A → Response → Bytes → Collect A}
    (hbody : ∀ a r rest, body a r rest = body a r []) (h : parse.Splits lines rs) (a : A) :
    forResponses parse body a lines = eachResponse body a rs := by
  have plain : body = fun a r _ => body a r [] := by
    funext a r rest
    exact hbody a r rest
  rw [eachResponse, ← forResponses_splits parse (fun a r => body a r []) h a, ← plain]

theorem parseManyInto2_each (map : Response → Except Error (MapOrNot2 T U))
    (h : parse.Splits lines rs) (into1 : List T) (into2 : List U) :
    parseManyInto2 parse map lines into1 into2 = eachResponse (collect2 map) (into1, into2) rs :=
  forResponses_each (fun _ _ _ => rfl) h (into1, into2)

theorem parseManyInto_each (map : Response → Except Error (MapOrNot T))
    (h : parse.Splits lines rs) : parseManyInto parse map lines [] = collectInto map rs := by
  rw [parseManyInto, parseManyInto2_each _ h]
  rfl

theorem parseUntilDoneInternal_each (optional : Bool)
    (map : Response → Except Error (MapOrNot T)) (h : parse.Splits lines rs) :
    relabel Fault.blank (parseUntilDoneInternal parse lines optional map) =
      relabel Fault.blank (collectOptional optional map rs) := by
  rw [parseUntilDoneInternal, collectOptional, parseManyInto_each map h, Exec.relabel_bind,
    Exec.relabel_bind]
  refine congrArg (relabel Fault.blank (collectInto map rs) >>= ·) ?_
  funext output
  cases output with
  | nil => cases optional <;> rfl
  | cons t ts => cases ts <;> rfl

theorem parseUntilDone_each (map : Response → Except Error (MapOrNot T))
    (h : parse.Splits lines rs) :
    relabel Fault.blank (parseUntilDone parse lines map) =
      relabel Fault.blank (collectOne map rs) := by
  rw [parseUntilDone, collectOne, Exec.relabel_bind, Exec.relabel_bind]
  exact congrArg (· >>= _) (parseUntilDoneInternal_each false map h)

/-- A loop, and what is made of its value. -/
theorem relabel_bind_congr {x y : Collect A} (h : x = y) {f g : A → Collect T}
    (hfg : ∀ a, relabel Fault.blank (f a) = relabel Fault.blank (g a)) :
    relabel Fault.blank (x >>= f) = relabel Fault.blank (y >>= g) := by
  rw [h, Exec.relabel_bind, Exec.relabel_bind]
  refine congrArg (relabel Fault.blank y >>= ·) ?_
  funext a
  exact hfg a

theorem relabel_congr {x y : Collect A} (h : x = y) :
    relabel Fault.blank x = relabel Fault.blank y :=
  congrArg _ h

theorem relabel_map_congr {x y : Collect A} (h : relabel Fault.blank x = relabel Fault.blank y)
    (f : A → T) : relabel Fault.blank (f <$> x) = relabel Fault.blank (f <$> y) := by
  rw [Exec.relabel_map, Exec.relabel_map, h]

/-- The two parsers of a command come to the same, whatever bytes the responses came in. -/
theorem Command.finish_concludes (hp : parse.Framed LF) (c : Command) {cs : List Bytes}
    (hcs : List.Forall₂ parse.Accepts cs rs) (hrs : ∀ r ∈ rs, r.isDone = false) {d : Bytes}
    {tag : Str} {status : Status} {code : Option ResponseCode} {information : Option Str}
    (hd : parse.Accepts d (.done tag status code information)) :
    relabel Fault.blank (c.finish parse (cs.flatten ++ d) cs.flatten.length) =
      relabel Fault.blank (c.conclude rs (some (.done tag status code information))) := by
  have untagged : parse.Splits ((cs.flatten ++ d).take cs.flatten.length) rs := by
    rw [List.take_left]
    exact hp.splits_flatten hcs
  have whole : parse.Splits (cs.flatten ++ d) (rs ++ [.done tag status code information]) :=
    hp.splits_snoc (hp.splits_flatten hcs) hd
  have nonempty : cs.flatten ++ d ≠ [] := by
    intro hnil
    exact hd.ne_nil (List.append_eq_nil_iff.mp hnil).2
  cases c with
  | select | examine =>
      refine relabel_map_congr (relabel_congr ?_) _
      rw [parseMailbox, forResponses1, if_neg nonempty]
      refine Intake.forResponses_last (fun a r rest h => ?_) whole hrs _
      rcases h with hdone | rfl
      · cases r <;> first | rfl | cases hdone
      · rfl
  | fetch | uidFetch | store | uidStore =>
      exact relabel_map_congr (relabel_congr (parseManyInto_each fetchItem untagged)) _
  | noop =>
      exact relabel_map_congr (relabel_congr (forResponses_each (fun _ _ _ => rfl) untagged ())) _
  | capability =>
      refine relabel_congr ?_
      have all := parseManyInto_each capabilityItems untagged
      change Value.capabilities <$> (List.toFinset <$> parseManyInto parse capabilityItems _ []) = _
      rw [all, ← comp_map]
      rfl
  | expunge | uidExpunge =>
      change relabel _ (Value.deleted <$> parseExpunge parse (cs.flatten ++ d)) = _
      rw [parseExpunge, map_bind, Command.conclude, Exec.map_eq_bind]
      refine relabel_bind_congr (forResponses_each (fun _ _ _ => rfl) whole _) fun a => ?_
      split <;> rfl
  | append =>
      refine relabel_map_congr (relabel_congr ?_) _
      rw [parseAppend, forResponses1, if_neg nonempty]
      exact forResponses_each (fun _ _ _ => rfl) whole _
  | list | lsub => exact relabel_map_congr (relabel_congr (parseManyInto_each nameItem untagged)) _
  | status mailboxName dataItems =>
      change relabel _ (Value.status mailboxName <$> parseStatus parse mailboxName _) = _
      rw [parseStatus, map_bind, Command.conclude]
      refine relabel_bind_congr (forResponses_each (fun _ _ _ => rfl) untagged _) fun a => ?_
      obtain ⟨mailbox, gotAnything⟩ := a
      cases gotAnything <;> rfl
  | search | uidSearch =>
      refine relabel_congr ?_
      change Value.idSet <$> (List.toFinset <$> parseIdsWith parse _) = _
      rw [← comp_map, parseIdsWith, forResponses_each (fun _ _ _ => rfl) untagged]
      rfl
  | sort | uidSort =>
      exact relabel_map_congr (relabel_congr (forResponses_each (fun _ _ _ => rfl) untagged [])) _
  | getAcl => exact relabel_map_congr (parseUntilDone_each aclItem untagged) _
  | listRights => exact relabel_map_congr (parseUntilDone_each listRightsItem untagged) _
  | myRights => exact relabel_map_congr (parseUntilDone_each myRightsItem untagged) _
  | setQuota | getQuota =>
      exact relabel_map_congr (parseUntilDoneInternal_each true quotaItem untagged) _
  | getQuotaRoot =>
      change relabel _ (Value.quotaRoot <$> parseQuotaRoot parse _) = _
      rw [parseQuotaRoot, map_bind, Command.conclude]
      refine relabel_bind_congr (parseManyInto2_each quotaRootItem untagged [] []) fun a => ?_
      obtain ⟨quotaRoots, quotas⟩ := a
      cases quotaRoots with
      | nil => rfl
      | cons quotaRoot more => cases more <;> rfl
  | listStatus =>
      change relabel _ (Value.extendedNames <$> parseExtendedNames parse _) = _
      rw [parseExtendedNames, map_bind, Command.conclude]
      refine relabel_bind_congr (forResponses_each (fun _ _ _ => rfl) untagged _) fun a => ?_
      cases a.currentName <;> rfl
  | getMetadata mailbox entries depth maxsize =>
      rw [Command.finish, map_bind, Command.conclude]
      refine relabel_bind_congr (forResponses_each (fun _ _ _ => rfl) untagged [])
        fun metadata => ?_
      rw [map_bind]
      refine relabel_bind_congr ?_ fun missed => rfl
      rw [Session.missedEntries, List.drop_left, hd]
      rfl
  | _ => rfl

end Bytes

end RustImap
