import RustImap.Remote

/-!
Where the unsolicited responses stand in an answer.

A parser uses up the responses its command has asked for, and deals with the others one by one.
Neither disturbs the other, so an answer can be cut into the two and put together again in any
way. Servers whose answers differ in this only cannot be told apart by any program.
-/

namespace RustImap

open Exec (Simulates Paired Program relabel)

section Loops

variable {A T U : Type}

/-- The same responses, those that are used up and the others each in their order. -/
structure Interleaved (uses : Response → Bool) (rs rs' : List Response) : Prop where
  used : rs.filter uses = rs'.filter uses
  rest : rs.filter (fun r => !uses r) = rs'.filter fun r => !uses r

theorem Interleaved.append {uses : Response → Bool} {rs rs' : List Response}
    (h : Interleaved uses rs rs') (last : List Response) :
    Interleaved uses (rs ++ last) (rs' ++ last) := by
  constructor
  · rw [List.filter_append, List.filter_append, h.used]
  · rw [List.filter_append, List.filter_append, h.rest]

/-- The loop body uses up its responses, whatever is on the queue, and deals with the others
whatever it has used up. -/
structure Apart (uses : Response → Bool) (body : A → Response → Bytes → Collect A) : Prop where
  used : ∀ r, uses r = true → ∃ f : A → A, ∀ a, body a r [] = pure (f a)
  rest : ∀ r, uses r = false → ∃ x : Collect Unit, ∀ a, body a r [] = (do x; pure a)

variable {uses : Response → Bool} {body : A → Response → Bytes → Collect A}

/-- The loop deals with the rest first, and then uses up what it uses. -/
theorem Apart.each (h : Apart uses body) :
    ∃ (f : Response → A → A) (x : Response → Collect Unit), ∀ (a : A) (rs : List Response),
      eachResponse body a rs = (do
        forM (rs.filter fun r => !uses r) x
        pure ((rs.filter uses).foldl (fun a r => f r a) a)) := by
  have hused : ∀ r, ∃ f : A → A, uses r = true → ∀ a, body a r [] = pure (f a) := by
    intro r
    by_cases hr : uses r = true
    · obtain ⟨f, hf⟩ := h.used r hr
      exact ⟨f, fun _ => hf⟩
    · exact ⟨id, fun hr' => absurd hr' hr⟩
  have hrest : ∀ r, ∃ x : Collect Unit, uses r = false → ∀ a, body a r [] = (do x; pure a) := by
    intro r
    by_cases hr : uses r = false
    · obtain ⟨x, hx⟩ := h.rest r hr
      exact ⟨x, fun _ => hx⟩
    · exact ⟨pure (), fun hr' => absurd hr' hr⟩
  choose f hf using hused
  choose x hx using hrest
  refine ⟨f, x, fun a rs => ?_⟩
  induction rs generalizing a with
  | nil => rfl
  | cons r rs ih =>
      have step : eachResponse body a (r :: rs) =
          body a r [] >>= fun a => eachResponse body a rs := List.foldlM_cons ..
      rw [step]
      cases hr : uses r with
      | true =>
          -- what is used up goes behind the rest of the others
          rw [hf r hr, pure_bind, ih, List.filter_cons_of_neg (by simp [hr]),
            List.filter_cons_of_pos hr, List.foldl_cons]
      | false =>
          rw [hx r hr, bind_assoc, List.filter_cons_of_pos (by simp [hr]),
            List.filter_cons_of_neg (by simp [hr]), List.forM_cons, bind_assoc]
          simp only [pure_bind, ih]

theorem Apart.congr (h : Apart uses body) {rs rs' : List Response}
    (hrs : Interleaved uses rs rs') (a : A) : eachResponse body a rs = eachResponse body a rs' := by
  obtain ⟨f, x, heach⟩ := h.each
  rw [heach, heach, hrs.used, hrs.rest]

theorem collect2_apart {map : Response → Except Error (MapOrNot2 T U)}
    (hused : ∀ r, uses r = true → ∃ m, map r = .ok m ∧ ∀ r', m ≠ .not r')
    (hrest : ∀ r, uses r = false → map r = .ok (.not r)) : Apart uses (collect2 map) where
  used r hr := by
    obtain ⟨m, hm, hnot⟩ := hused r hr
    refine ⟨fun into => collected map into r, fun into => ?_⟩
    cases m <;> simp only [collect2, collected, hm]
    exact absurd rfl (hnot _)
  rest r hr := ⟨handleUnilateral r, collect2_rest map (hrest r hr)⟩

/-- The responses that are used up are those that are mapped to something. -/
structure Picks (uses : Response → Bool) (map : Response → Except Error (MapOrNot T)) : Prop where
  used : ∀ r, uses r = true → ∃ m, map r = .ok m ∧ ∀ r', m ≠ .not r'
  rest : ∀ r, uses r = false → map r = .ok (.not r)

theorem Picks.collectInto {map : Response → Except Error (MapOrNot T)} (h : Picks uses map)
    {rs rs' : List Response} (hrs : Interleaved uses rs rs') :
    collectInto map rs = collectInto map rs' := by
  have apart : Apart uses (collect2 fun r => (map r).map MapOrNot.toMapOrNot2) := by
    refine collect2_apart (fun r hr => ?_) fun r hr => ?_
    · obtain ⟨m, hm, hnot⟩ := h.used r hr
      refine ⟨m.toMapOrNot2, by simp [hm, Except.map], fun r' h => ?_⟩
      cases m <;> cases h
      exact absurd rfl (hnot _)
    · simp [h.rest r hr, Except.map, MapOrNot.toMapOrNot2]
  rw [RustImap.collectInto, apart.congr hrs, RustImap.collectInto]

theorem Picks.collectOne {map : Response → Except Error (MapOrNot T)} (h : Picks uses map)
    {rs rs' : List Response} (hrs : Interleaved uses rs rs') :
    collectOne map rs = collectOne map rs' := by
  rw [RustImap.collectOne, RustImap.collectOne, collectOptional, collectOptional,
    h.collectInto hrs]

end Loops

/-- The parser of the command uses the response up. -/
def Command.uses (c : Command) (r : Response) : Bool := decide (c.action r = .take)

theorem Command.uses_own {c : Command} {takes : Response → Bool} (h : c.action = .of takes) :
    c.uses = takes := by
  funext r
  rw [Command.uses, h]
  cases hr : takes r with
  | true => exact decide_eq_true (Action.of_take.mpr hr)
  | false =>
      refine decide_eq_false fun htake => ?_
      rw [Action.of_take.mp htake] at hr
      cases hr

section Answers

theorem mailboxStep_apart : Apart (fun r => decide (mailboxAction r = .take)) mailboxStep where
  used r hr := by
    cases r with
    | done tag status code information =>
        cases status with
        | ok =>
            cases code with
            | none => exact ⟨_, fun _ => rfl⟩
            | some code => cases code <;> exact ⟨_, fun _ => rfl⟩
        | _ => cases hr
    | data status code information =>
        cases status with
        | ok => exact ⟨_, fun _ => rfl⟩
        | _ => cases hr
    | mailboxData m =>
        cases m with
        | status name attributes => cases hr
        | _ => exact ⟨_, fun _ => rfl⟩
    | _ => cases hr
  rest r hr := by
    cases r with
    | done tag status code information =>
        cases status with
        | ok => cases hr
        | _ => exact ⟨.fail .panic, fun _ => rfl⟩
    | data status code information =>
        cases status with
        | ok => cases hr
        | _ => exact ⟨.fail .panic, fun _ => rfl⟩
    | mailboxData m =>
        cases m with
        | status name attributes => exact ⟨pushBack (.status name attributes), fun _ => rfl⟩
        | _ => cases hr
    | expunge n => exact ⟨pushBack (.expunge n), fun _ => rfl⟩
    | _ => exact ⟨.fail (.err (.unexpected _)), fun _ => rfl⟩

theorem expungeStep_apart : Apart (Command.takes .expunge) expungeStep where
  used r hr := by
    cases r with
    | done tag status code information =>
        cases status with
        | ok =>
            cases code with
            | none => exact ⟨_, fun _ => rfl⟩
            | some code => cases code <;> exact ⟨_, fun _ => rfl⟩
        | _ => cases hr
    | expunge | vanished => exact ⟨_, fun _ => rfl⟩
    | _ => cases hr
  rest r hr := by
    cases r with
    | done tag status code information =>
        cases status with
        | ok => cases hr
        | _ => exact ⟨.fail .panic, fun _ => rfl⟩
    | expunge | vanished => cases hr
    | _ => exact ⟨handleUnilateral _, fun _ => rfl⟩

theorem appendStep_apart : Apart (Command.takes (.append [] [] none 0)) appendStep where
  used r hr := by
    cases r with
    | done tag status code information =>
        cases status with
        | ok =>
            cases code with
            | none => exact ⟨_, fun _ => rfl⟩
            | some code => cases code <;> exact ⟨_, fun _ => rfl⟩
        | _ => cases hr
    | _ => cases hr
  rest r hr := by
    cases r with
    | done tag status code information =>
        cases status with
        | ok => cases hr
        | _ => exact ⟨.fail .panic, fun _ => rfl⟩
    | _ => exact ⟨handleUnilateral _, fun _ => rfl⟩

theorem statusStep_apart (mailboxName : Str) :
    Apart (Command.takes (.status mailboxName [])) (statusStep mailboxName) where
  used r hr := by
    cases r with
    | mailboxData m =>
        cases m with
        | status theirs status =>
            have same : theirs = mailboxName := of_decide_eq_true hr
            exact ⟨fun a => (status.foldl Mailbox.withAttribute a.1, true), fun _ => if_pos same⟩
        | _ => cases hr
    | _ => cases hr
  rest r hr := by
    cases r with
    | mailboxData m =>
        cases m with
        | status theirs status =>
            have other : theirs ≠ mailboxName := of_decide_eq_false hr
            exact ⟨handleUnilateral _, fun _ => if_neg other⟩
        | _ => exact ⟨handleUnilateral _, fun _ => rfl⟩
    | _ => exact ⟨handleUnilateral _, fun _ => rfl⟩

theorem idsStep_apart : Apart (Command.takes (.search [])) idsStep where
  used r hr := by
    cases r with
    | mailboxData m => cases m <;> first | exact ⟨_, fun _ => rfl⟩ | cases hr
    | _ => cases hr
  rest r hr := by
    cases r with
    | mailboxData m => cases m <;> first | cases hr; done | exact ⟨handleUnilateral _, fun _ => rfl⟩
    | _ => exact ⟨handleUnilateral _, fun _ => rfl⟩

theorem metadataStep_apart :
    Apart (Command.takes (.getMetadata none [] .zero none)) metadataStep where
  used r hr := by
    cases r with
    | mailboxData m => cases m <;> first | exact ⟨_, fun _ => rfl⟩ | cases hr
    | _ => cases hr
  rest r hr := by
    cases r with
    | mailboxData m =>
        cases m with
        | metadataSolicited => cases hr
        | _ => exact ⟨handleUnilateral _, fun _ => rfl⟩
    | _ => exact ⟨handleUnilateral _, fun _ => rfl⟩

theorem extendedNamesStep_apart :
    Apart (Command.takes (.listStatus none none [])) extendedNamesStep where
  used r hr := by
    cases r with
    | mailboxData m =>
        cases m with
        | list attributes delimiter name =>
            refine ⟨fun a => Extending.with a (.mailboxData (.list attributes delimiter name)),
              fun a => ?_⟩
            obtain ⟨names, currentName, currentMailbox⟩ := a
            cases currentName <;> rfl
        | status => exact ⟨_, fun _ => rfl⟩
        | _ => cases hr
    | _ => cases hr
  rest r hr := by
    cases r with
    | mailboxData m =>
        cases m with
        | list | status => cases hr
        | _ => exact ⟨handleUnilateral _, fun _ => rfl⟩
    | _ => exact ⟨handleUnilateral _, fun _ => rfl⟩

theorem quotaRootItem_apart :
    Apart (Command.takes (.getQuotaRoot [])) (collect2 quotaRootItem) := by
  refine collect2_apart (fun r hr => ?_) fun r hr => ?_
  all_goals
    cases r <;> first | (cases hr; done) | rfl | exact ⟨_, rfl, fun _ h => by cases h⟩

theorem fetchItem_picks : Picks (Command.takes (.fetch [] [])) fetchItem := by
  constructor <;> intro r hr
  all_goals
    cases r <;> first | (cases hr; done) | rfl | exact ⟨_, rfl, fun _ h => by cases h⟩

theorem nameItem_picks : Picks (Command.takes (.list none none)) nameItem := by
  constructor <;> intro r hr
  all_goals
    cases r with
    | mailboxData m =>
        cases m <;> first | (cases hr; done) | rfl | exact ⟨_, rfl, fun _ h => by cases h⟩
    | _ => first | (cases hr; done) | rfl

theorem capabilityItems_picks : Picks (Command.takes .capability) capabilityItems := by
  constructor <;> intro r hr
  all_goals
    cases r <;> first | (cases hr; done) | rfl | exact ⟨_, rfl, fun _ h => by cases h⟩

theorem aclItem_picks : Picks (Command.takes (.getAcl [])) aclItem := by
  constructor <;> intro r hr
  all_goals
    cases r <;> first | (cases hr; done) | rfl | exact ⟨_, rfl, fun _ h => by cases h⟩

theorem listRightsItem_picks : Picks (Command.takes (.listRights [] [])) listRightsItem := by
  constructor <;> intro r hr
  all_goals
    cases r <;> first | (cases hr; done) | rfl | exact ⟨_, rfl, fun _ h => by cases h⟩

theorem myRightsItem_picks : Picks (Command.takes (.myRights [])) myRightsItem := by
  constructor <;> intro r hr
  all_goals
    cases r <;> first | (cases hr; done) | rfl | exact ⟨_, rfl, fun _ h => by cases h⟩

theorem quotaItem_picks : Picks (Command.takes (.getQuota [])) quotaItem := by
  constructor <;> intro r hr
  all_goals
    cases r <;> first | (cases hr; done) | rfl | exact ⟨_, rfl, fun _ h => by cases h⟩

/-- `NOOP` uses nothing up. -/
theorem handleUnilateral_apart :
    Apart (Command.takes .noop) fun (_ : Unit) r _ => handleUnilateral r where
  used r hr := by cases hr
  rest r _ := ⟨handleUnilateral r, fun _ => (bind_pure _).symm⟩

theorem Command.uses_select {c : Command} (h : c.action = mailboxAction) :
    c.uses = fun r => decide (mailboxAction r = .take) := by
  funext r
  rw [uses, h]

/-- What an answer comes to does not depend on where the unsolicited responses stand. -/
theorem Command.conclude_interleaved {c : Command} {rs rs' : List Response}
    (h : Interleaved c.uses rs rs') (done : Option Response) :
    c.conclude rs done = c.conclude rs' done := by
  have whole := h.append done.toList
  cases c with
  | select | examine =>
      rw [uses_select rfl] at whole
      exact congrArg (Value.mailbox <$> ·) (mailboxStep_apart.congr whole .empty)
  | fetch | uidFetch | store | uidStore =>
      rw [uses_own rfl] at h
      exact congrArg (Value.fetches <$> ·) (fetchItem_picks.collectInto h)
  | noop =>
      rw [uses_own rfl] at h
      exact congrArg (_ <$> ·) (handleUnilateral_apart.congr h ())
  | capability =>
      rw [uses_own rfl] at h
      exact congrArg (_ <$> ·) (capabilityItems_picks.collectInto h)
  | expunge | uidExpunge =>
      rw [uses_own rfl] at whole
      exact congrArg (_ <$> ·) (expungeStep_apart.congr whole ⟨[], [], none⟩)
  | append =>
      rw [uses_own rfl] at whole
      exact congrArg (Value.appended <$> ·) (appendStep_apart.congr whole ⟨none, none⟩)
  | list | lsub =>
      rw [uses_own rfl] at h
      exact congrArg (Value.names <$> ·) (nameItem_picks.collectInto h)
  | status mailboxName dataItems =>
      rw [uses_own rfl] at h
      exact congrArg (· >>= _) ((statusStep_apart mailboxName).congr h (.empty, false))
  | search | uidSearch =>
      rw [uses_own rfl] at h
      exact congrArg (_ <$> ·) (idsStep_apart.congr h [])
  | sort | uidSort =>
      rw [uses_own rfl] at h
      exact congrArg (Value.idSeq <$> ·) (idsStep_apart.congr h [])
  | getAcl =>
      rw [uses_own rfl] at h
      exact congrArg (Value.acl <$> ·) (aclItem_picks.collectOne h)
  | listRights =>
      rw [uses_own rfl] at h
      exact congrArg (Value.listRights <$> ·) (listRightsItem_picks.collectOne h)
  | myRights =>
      rw [uses_own rfl] at h
      exact congrArg (Value.myRights <$> ·) (myRightsItem_picks.collectOne h)
  | setQuota | getQuota =>
      rw [uses_own rfl] at h
      exact congrArg (fun x => Value.quota <$> (x >>= _)) (quotaItem_picks.collectInto h)
  | getQuotaRoot =>
      rw [uses_own rfl] at h
      exact congrArg (· >>= _) (quotaRootItem_apart.congr h ([], []))
  | listStatus =>
      rw [uses_own rfl] at h
      exact congrArg (· >>= _) (extendedNamesStep_apart.congr h ⟨[], none, none⟩)
  | getMetadata =>
      rw [uses_own rfl] at h
      exact congrArg (· >>= _) (metadataStep_apart.congr h [])
  | _ => rfl

end Answers

section Remotes

variable {τ τ' : Type}

/-- The outcomes are the same, but for where unsolicited responses stand. -/
structure Outcome.Rearranged (c : Command) (out out' : Outcome) : Prop where
  untagged : Interleaved c.uses out.untagged out'.untagged
  status : out.status = out'.status
  code : out.code = out'.code
  information : out.information = out'.information

/-- From related states the services give such outcomes to these commands, and come to related
states. -/
structure Service.Rearranged (service : Service τ) (service' : Service τ')
    (sent : Command → Prop) (R : τ → τ' → Prop) : Prop where
  next : ∀ t t' text, R t t' → R (service t text).1 (service' t' text).1
  outcome : ∀ t t' c text, sent c → R t t' → c.text = .ok (some text) →
    Outcome.Rearranged c (service t text).2 (service' t' text).2

/-- Related servers that have left the same on the queue. -/
structure Remote.SameQueue (R : τ → τ' → Prop) (o : Remote τ) (o' : Remote τ') : Prop where
  server : R o.server o'.server
  queue : o.unsolicitedResponses = o'.unsolicitedResponses

namespace Remote

variable {service : Service τ} {service' : Service τ'} {sent : Command → Prop}
variable {R : τ → τ' → Prop} {c : Command}

theorem onQueue_same {α : Type} (x : Collect α) :
    Simulates (SameQueue R) Eq (onQueue x : Exec (Remote τ) Fault α)
      (onQueue x : Exec (Remote τ') Fault α) :=
  Simulates.on (fun _ _ h => h.queue) (fun _ _ _ _ h hq => ⟨h.server, hq⟩) (.same x)

theorem call_rearranged (h : service.Rearranged service' sent R) (hc : sent c) :
    Simulates (SameQueue R) Eq (call service c) (call service' c) := by
  cases htext : c.text with
  | error e =>
      rw [call, call, htext]
      exact .fail _
  | ok sent =>
      cases sent with
      | none =>
          rw [call, call, htext]
          exact onQueue_same _
      | some text =>
          intro o o' ho
          obtain ⟨huntagged, hstatus, hcode, hinformation⟩ :=
            h.outcome _ _ c text hc ho.server htext
          rw [call_asked htext, call_asked htext, Outcome.verdict, Outcome.verdict, hstatus, hcode,
            hinformation, Command.conclude_interleaved huntagged]
          refine (Simulates.result _).bind (fun _ _ _ => onQueue_same _) _ _ ?_
          exact ⟨h.next _ _ text ho.server, ho.queue⟩

theorem execute_rearranged (h : service.Rearranged service' sent R) (hc : sent c) :
    Simulates (SameQueue R) Eq (execute service c) (execute service' c) := by
  unfold execute
  split
  · refine ((call_rearranged h hc).relabel Fault.blank).next fun r r' hr => ?_
    rw [hr.eq]
    exact takeBye_simulates _ r'
  · exact (call_rearranged h hc).relabel Fault.blank

end Remote

namespace Session

variable {σ σ' : Type} {peer : Peer σ} {peer' : Peer σ'} {parse : ParseResponse}
variable {service : Service τ} {service' : Service τ'} {understands : Str → Prop}
variable {sent : Command → Prop} {B : σ → σ → Prop} {B' : σ' → σ' → Prop} {C : σ → τ → Prop}
variable {C' : σ' → τ' → Prop} {R : τ → τ' → Prop} {s : Session σ} {s' : Session σ'}

/-- The same calls on two sessions. -/
inductive Twins (peer : Peer σ) (peer' : Peer σ') (parse : ParseResponse)
    (sent : Command → Prop) : {α : Type} → Exec (Session σ) Fault α →
    Exec (Session σ') Fault α → Prop
  | execute {c : Command} {op : Exec (Session σ) Fault Value}
      {op' : Exec (Session σ') Fault Value} : sent c → execute peer parse c = some op →
      execute peer' parse c = some op' →
      Twins peer peer' parse sent (relabel Fault.blank op) (relabel Fault.blank op')
  | skipTag : Twins peer peer' parse sent (onConn Connection.skipTag) (onConn Connection.skipTag)
  | takeAllUnsolicited : Twins peer peer' parse sent takeAllUnsolicited takeAllUnsolicited

/-- The sessions mirror related servers, and their queues are the same. -/
def Mirrored (parse : ParseResponse) (C : σ → τ → Prop) (C' : σ' → τ' → Prop)
    (R : τ → τ' → Prop) (s : Session σ) (s' : Session σ') : Prop :=
  ∃ o o', s.Mirrors parse C o ∧ s'.Mirrors parse C' o' ∧ Remote.SameQueue R o o'

theorem Mirrored.queue (h : Mirrored parse C C' R s s') :
    s.unsolicitedResponses = s'.unsolicitedResponses := by
  obtain ⟨o, o', hs, hs', ho⟩ := h
  calc s.unsolicitedResponses = o.unsolicitedResponses := hs.queue
    _ = o'.unsolicitedResponses := ho.queue
    _ = s'.unsolicitedResponses := hs'.queue.symm

theorem Twins.simulates (hp : parse.Framed LF)
    (hservice : ∀ t text, (service t text).2.Untagged)
    (hservice' : ∀ t text, (service' t text).2.Untagged)
    (hpeer : peer.Speaks parse service.server understands B C)
    (hpeer' : peer'.Speaks parse service'.server understands B' C')
    (hsent : ∀ c text, sent c → c.text = .ok (some text) → understands text)
    (hrearranged : service.Rearranged service' sent R) {α : Type}
    {x : Exec (Session σ) Fault α} {x' : Exec (Session σ') Fault α}
    (h : Twins peer peer' parse sent x x') : Simulates (Mirrored parse C C' R) Eq x x' := by
  -- each session does what its remote object does, and the objects do the same
  have both {z : Exec (Remote τ) Fault α} {z' : Exec (Remote τ') Fault α}
      (hz : Calls peer parse service understands x z)
      (hz' : Calls peer' parse service' understands x' z')
      (hsame : Simulates (Remote.SameQueue R) Eq z z') :
      Simulates (Mirrored parse C C' R) Eq x x' := by
    intro s s' hs
    obtain ⟨o, o', hso, hso', ho⟩ := hs
    obtain ⟨hagree, hmirrors⟩ := hz.simulates hp hservice hpeer s o hso
    obtain ⟨hagree', hmirrors'⟩ := hz'.simulates hp hservice' hpeer' s' o' hso'
    obtain ⟨hresult, hqueue⟩ := hsame o o' ho
    refine ⟨?_, _, _, hmirrors, hmirrors', hqueue⟩
    rw [hagree.eq, hagree'.eq]
    exact hresult
  cases h with
  | @execute c op op' hc hop hop' =>
      have understood := fun text => hsent c text hc
      exact both (.execute hop understood) (.execute hop' understood)
        (Remote.execute_rearranged hrearranged hc)
  | skipTag => exact both .skipTag .skipTag (.pure rfl)
  | takeAllUnsolicited =>
      exact both .takeAllUnsolicited .takeAllUnsolicited (Remote.onQueue_same _)

/-- No program can tell apart servers whose answers differ only in where the unsolicited
responses stand. -/
theorem rearranged (hp : parse.Framed LF)
    (hservice : ∀ t text, (service t text).2.Untagged)
    (hservice' : ∀ t text, (service' t text).2.Untagged)
    (hpeer : peer.Speaks parse service.server understands B C)
    (hpeer' : peer'.Speaks parse service'.server understands B' C')
    (hsent : ∀ c text, sent c → c.text = .ok (some text) → understands text)
    (hrearranged : service.Rearranged service' sent R) {α : Type}
    {x : Exec (Session σ) Fault α}
    (h : Program (fun x => ∃ x', Twins peer peer' parse sent x x') caught x)
    (hs : Mirrored parse C C' R s s') :
    (∃ x', Paired (Twins peer peer' parse sent) caught x x') ∧
      ∀ x', Paired (Twins peer peer' parse sent) caught x x' →
        (x s).1 = (x' s').1 ∧
          (x s).2.unsolicitedResponses = (x' s').2.unsolicitedResponses ∧
          Mirrored parse C C' R (x s).2 (x' s').2 := by
  refine ⟨h.exists_paired fun hop => hop, fun x' hx' => ?_⟩
  obtain ⟨hagree, hstate⟩ := hx'.simulates
    (fun hop => hop.simulates hp hservice hservice' hpeer hpeer' hsent hrearranged) s s' hs
  exact ⟨hagree.eq, hstate.queue, hstate⟩

end Session

end Remotes

namespace Session

open Connection (okSuffix fresh)

def foundLine : Bytes := utf8 "* SEARCH 7\r\n".toList

/-- A parser that knows two untagged lines. -/
def foundParse : ParseResponse := Parser.line LF fun line =>
  if okSuffix <:+ line then
    let tag := line.take (line.length - okSuffix.length)
    some (.done (tag.map fun b => Char.ofNat b.toNat) .ok none none)
  else if line = expungeLine then some (.expunge 1)
  else if line = foundLine then some (.mailboxData (.search [7]))
  else none

theorem foundParse_tagged (tag : UInt32) :
    foundParse.Accepts (utf8 (matchTag tag) ++ okSuffix) (.done (matchTag tag) .ok none none) := by
  refine Parser.line_run.mpr ⟨_, Connection.okAnswer_line tag, ?_⟩
  rw [if_pos (List.suffix_append _ _), List.length_append, Nat.add_sub_cancel, List.take_left]
  simp only [Connection.chars_utf8_matchTag]

theorem foundParse_expunge : foundParse.Accepts expungeLine (.expunge 1) := by
  refine Parser.line_run.mpr ⟨expungeLine, by decide, ?_⟩
  rw [if_neg (by decide), if_pos rfl]

theorem foundParse_found : foundParse.Accepts foundLine (.mailboxData (.search [7])) := by
  refine Parser.line_run.mpr ⟨foundLine, by decide, ?_⟩
  rw [if_neg (by decide), if_neg (by decide), if_pos rfl]

def found : List Response := [.expunge 1, .mailboxData (.search [7])]

theorem found_untagged : ∀ r ∈ found, r.isDone = false := by decide

/-- A server that says the same to every line, and `OK`. -/
def sayingAnswer (untagged : Bytes) (_ : Unit) (line : Bytes) : Unit × List ReadEvent :=
  ((), ReadEvent.chunk (untagged ++ (line.takeWhile (· ≠ 0x20) ++ okSuffix)))

def sayingService (rs : List Response) : Service Unit := fun _ _ => ((), ⟨rs, .ok, none, none⟩)

def saying (untagged : Bytes) : Peer (LineServer Unit) :=
  feed (LineServer.step (sayingAnswer untagged))

theorem saying_line (untagged : Bytes) {p : LineServer Unit} (h : p.pending = []) {text : Str}
    (htext : SingleLine text) (tag : UInt32) :
    saying untagged p (utf8 (matchTag tag ++ ' ' :: text) ++ [CR, LF]) =
      (⟨(), []⟩, ReadEvent.chunk (untagged ++ (utf8 (matchTag tag) ++ okSuffix))) := by
  have fed := LineServer.feed_line (sayingAnswer untagged) p.state []
    (Connection.LF_not_mem_command htext tag)
  have start : p = ⟨p.state, []⟩ := by rw [← h]
  rw [List.nil_append, sayingAnswer, takeWhile_command, List.append_assoc] at fed
  rw [start]
  exact fed

theorem saying_speaks {untagged : Bytes} {rs : List Response}
    (h : Spells foundParse (untagged.map .item) (rs.map .response)) :
    Peer.Speaks (saying untagged) foundParse (sayingService rs).server SingleLine Eq
      (fun server _ => server.pending = []) where
  streams := feed_streams _
  same p q t heq hq := by
    rw [heq]
    exact hq
  next p t tag text htext hp := by rw [saying_line untagged hp htext]
  answer p t tag text htext hp := by
    rw [saying_line untagged hp htext, ReadEvent.events_chunk, List.map_append]
    refine h.append ?_
    rw [← List.append_nil (List.map _ _)]
    exact .response (foundParse_tagged tag) .nil

/-- The message is expunged before the search ends, or after it has begun. -/
theorem searching_rearranged :
    Service.Rearranged (sayingService found) (sayingService found.reverse) (· = .search []) Eq where
  next _ _ _ _ := rfl
  outcome t t' c text hc _ _ := by
    rw [hc]
    exact ⟨⟨rfl, rfl⟩, rfl, rfl, rfl⟩

def searchAll (untagged : Bytes) : Exec (Session (LineServer Unit)) Fault Value :=
  .idSet <$> search (saying untagged) foundParse []

def searchThenTake (untagged : Bytes) : Exec (Session (LineServer Unit)) Fault Queue :=
  relabel Fault.blank (searchAll untagged) >>= fun _ => takeAllUnsolicited

theorem searchAll_twins (untagged untagged' : Bytes) :
    Twins (saying untagged) (saying untagged') foundParse (· = .search [])
      (relabel Fault.blank (searchAll untagged)) (relabel Fault.blank (searchAll untagged')) :=
  .execute (c := .search []) rfl rfl rfl

theorem searchThenTake_program (untagged untagged' : Bytes) :
    Program (fun x => ∃ x', Twins (saying untagged) (saying untagged') foundParse
      (· = .search []) x x') caught (searchThenTake untagged) :=
  .bind (.op ⟨_, searchAll_twins untagged untagged'⟩) fun _ => .op ⟨_, .takeAllUnsolicited⟩

theorem fresh_mirrored : Mirrored foundParse (fun server (_ : Unit) => server.pending = [])
    (fun server (_ : Unit) => server.pending = []) Eq ⟨fresh, []⟩ ⟨fresh, []⟩ := by
  have mirrors : Mirrors foundParse (fun server (_ : Unit) => server.pending = []) ⟨fresh, []⟩
      ⟨(), []⟩ :=
    ⟨rfl, .nil, rfl, rfl, rfl, Connection.fresh_inStep.reliable, rfl⟩
  exact ⟨_, _, mirrors, mirrors, rfl, rfl⟩

theorem rearranged_searchThenTake :
    (∃ x', Paired (Twins (saying (expungeLine ++ foundLine)) (saying (foundLine ++ expungeLine))
        foundParse (· = .search [])) caught (searchThenTake (expungeLine ++ foundLine)) x') ∧
      ∀ x', Paired (Twins (saying (expungeLine ++ foundLine)) (saying (foundLine ++ expungeLine))
        foundParse (· = .search [])) caught (searchThenTake (expungeLine ++ foundLine)) x' →
        (searchThenTake (expungeLine ++ foundLine) ⟨fresh, []⟩).1 = (x' ⟨fresh, []⟩).1 ∧
          (searchThenTake (expungeLine ++ foundLine) ⟨fresh, []⟩).2.unsolicitedResponses =
            (x' ⟨fresh, []⟩).2.unsolicitedResponses ∧
          Mirrored foundParse (fun server (_ : Unit) => server.pending = [])
            (fun server (_ : Unit) => server.pending = []) Eq
            (searchThenTake (expungeLine ++ foundLine) ⟨fresh, []⟩).2 (x' ⟨fresh, []⟩).2 := by
  have before : Spells foundParse ((expungeLine ++ foundLine).map .item)
      (found.map .response) := by
    rw [List.map_append, ← List.append_nil (foundLine.map _)]
    exact .response foundParse_expunge (.response foundParse_found .nil)
  have after : Spells foundParse ((foundLine ++ expungeLine).map .item)
      (found.reverse.map .response) := by
    rw [List.map_append, ← List.append_nil (expungeLine.map _)]
    exact .response foundParse_found (.response foundParse_expunge .nil)
  have untagged : ∀ t text, (sayingService found t text).2.Untagged := fun _ _ => found_untagged
  have untagged' : ∀ t text, (sayingService found.reverse t text).2.Untagged :=
    fun _ _ r hr => found_untagged r (List.mem_reverse.mp hr)
  refine rearranged (Parser.line_framed _) untagged untagged' (saying_speaks before)
    (saying_speaks after) (fun c text hc htext => ?_) searching_rearranged
    (searchThenTake_program _ _) fresh_mirrored
  subst hc
  cases htext
  decide

end Session

end RustImap
