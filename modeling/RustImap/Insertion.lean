import RustImap.Sorting

/-!
Unilateral responses and the values of the parsers.

A parser that gathers responses of its own kind, and then makes a value of what it has
gathered, puts the responses a server sends of its own accord on the queue and goes on. One
more of them changes nothing but the queue, wherever it comes.
-/

namespace RustImap

open UnsolicitedResponse (tryFrom)

variable {parse : ParseResponse} {V W A : Type}

/-- What is done with the gathered value fails in the same cases for every buffer; only the
error names the buffer. -/
def Finishes (f : Bytes → A → Collect V) : Prop :=
  ∃ result : Bytes → A → Except Fault V, (∀ lines a q, f lines a q = (result lines a, q)) ∧
    ∀ lines lines' a v, result lines a = .ok v → result lines' a = .ok v

namespace Finishes

theorem of_settled {f : A → Collect V} (h : ∀ a, Settled (f a)) : Finishes fun _ => f := by
  choose result hresult using h
  exact ⟨fun _ => result, fun _ => hresult, fun _ _ _ _ h => h⟩

theorem bind {f : Bytes → A → Collect V} {g : Bytes → V → Collect W} (hf : Finishes f)
    (hg : Finishes g) : Finishes fun lines a => f lines a >>= g lines := by
  obtain ⟨result, hresult, same⟩ := hf
  obtain ⟨result', hresult', same'⟩ := hg
  refine ⟨fun lines a => (result lines a).bind (result' lines), fun lines a q => ?_, ?_⟩
  · change (f lines a >>= g lines) q = _
    rw [Exec.bind_apply, hresult]
    cases hv : result lines a with
    | ok v => simp only [Except.bind, hv, hresult']
    | error e => simp only [Except.bind, hv]
  · intro lines lines' a v h
    beta_reduce at h ⊢
    cases hv : result lines a with
    | error e =>
        rw [hv] at h
        cases h
    | ok b =>
        rw [hv] at h
        rw [same lines lines' a b hv]
        exact same' lines lines' b v h

/-- The test of `parse_until_done_internal`. -/
theorem untilDone (optional : Bool) : Finishes fun lines (ts : List V) =>
    (match ts with
      | [t] => pure (some t)
      | [] => if optional then pure none else .fail (.err (.parse (.invalid lines)))
      | _ => .fail (.err (.parse (.invalid lines))) : Collect (Option V)) := by
  refine ⟨fun lines ts => match ts with
    | [t] => .ok (some t)
    | [] => if optional then .ok none else .error (.err (.parse (.invalid lines)))
    | _ => .error (.err (.parse (.invalid lines))), ?_, ?_⟩
  · intro lines ts q
    rcases ts with - | ⟨t, - | ⟨t', ts⟩⟩
    · cases optional <;> rfl
    · rfl
    · rfl
  · intro lines lines' ts v h
    rcases ts with - | ⟨t, - | ⟨t', ts⟩⟩
    · cases optional <;> first | exact h | cases h
    · exact h
    · cases h

/-- The test of `QuotaRootResponse::parse`. -/
theorem quotaRoot : Finishes fun lines (a : List QuotaRoot × List Quota) =>
    ((match a.1 with
      | [quotaRoot] => pure ⟨quotaRoot, a.2⟩
      | _ => .fail (.err (.parse (.invalid lines))) : Collect QuotaRootResponse) >>=
    fun v => pure (.quotaRoot v) : Collect Value) := by
  refine .bind ?_ (.of_settled fun _ => .pure _)
  refine ⟨fun lines a => match a.1 with
    | [quotaRoot] => .ok ⟨quotaRoot, a.2⟩
    | _ => .error (.err (.parse (.invalid lines))), ?_, ?_⟩
  · rintro lines ⟨- | ⟨root, - | ⟨root', roots⟩⟩, quotas⟩ q <;> rfl
  · rintro lines lines' ⟨- | ⟨root, - | ⟨root', roots⟩⟩, quotas⟩ v h
    · cases h
    · exact h
    · cases h

end Finishes

/-- The parser `x` takes the responses that `takes` says, queues the others that are accepted
as unsolicited ones and gives up at any other. -/
def Gathers (parse : ParseResponse) (takes : Response → Bool) (x : Bytes → Collect V) : Prop :=
  ∃ (A : Type) (take : A → Response → A) (a : A) (result : Bytes → A → Except Fault V),
    (∀ lines rs, parse.Splits lines rs →
      (Intake.own takes take).Sorts a (result lines) rs (x lines)) ∧
    ∀ lines lines' b v, result lines b = .ok v → result lines' b = .ok v

section Gathers

variable {takes : Response → Bool}

theorem Gathers.of_loop {take : A → Response → A} {body : A → Response → Bytes → Collect A}
    (follows : (Intake.own takes take).Follows fun a r => body a r [])
    (hbody : ∀ a r rest, body a r rest = body a r []) (a : A) {f : Bytes → A → Collect V}
    (hf : Finishes f) :
    Gathers parse takes fun lines => forResponses parse body a lines >>= f lines := by
  obtain ⟨result, hresult, same⟩ := hf
  exact ⟨A, take, a, result,
    fun lines rs h => (follows.loop hbody h a).bind (hresult lines), same⟩

/-- What one more response that the parser does not take changes. -/
theorem Gathers.spliced {x : Bytes → Collect V} (hx : Gathers parse takes x)
    {lines inserted : Bytes} {before after : List Response} {r : Response}
    {u : UnsolicitedResponse} (hlines : parse.Splits lines (before ++ after))
    (hinserted : parse.Splits inserted (before ++ r :: after)) (hu : tryFrom r = some u)
    (hr : takes r = false) {q q' : Queue} {v : V} (hv : x lines q = (.ok v, q')) :
    let queued (rs : List Response) := (rs.filter fun r => !takes r).filterMap tryFrom
    q' = q ++ queued before ++ queued after ∧
      x inserted q = (.ok v, q ++ queued before ++ u :: queued after) := by
  intro queued
  obtain ⟨A, take, a, result, hsorts, same⟩ := hx
  obtain ⟨hpass, hvalue, rfl⟩ := (hsorts _ _ hlines).of_ok hv
  have haction : Action.of takes r = .queue := Action.of_queue.mpr ⟨hr, by simp [hu]⟩
  have hpass' : ∀ r' ∈ before ++ r :: after, Action.of takes r' ≠ .fail := by
    intro r' hr'
    rcases List.mem_append.mp hr' with hr' | hr'
    · exact hpass r' (List.mem_append_left _ hr')
    · rcases List.mem_cons.mp hr' with rfl | hr'
      · rw [haction]
        decide
      · exact hpass r' (List.mem_append_right _ hr')
  have result2 := (hsorts _ _ hinserted).passes hpass' q
  have sameTaken : (Intake.own takes take).taken a (before ++ r :: after) =
      (Intake.own takes take).taken a (before ++ after) := by
    simp [Intake.taken, List.foldl_append, Intake.own, haction]
  have hqueued : ∀ rs, (Intake.own takes take).queued rs = queued rs := Intake.queued_own
  rw [sameTaken, hqueued, same _ inserted _ _ hvalue] at result2
  refine ⟨?_, ?_⟩
  · rw [hqueued]
    simp only [queued, List.filter_append, List.filterMap_append, List.append_assoc]
  · rw [result2]
    simp only [queued, List.filter_append, List.filterMap_append, List.append_assoc,
      List.filter_cons, hr, Bool.not_false, if_true, List.filterMap_cons, hu]

section Many

variable {T : Type} {map : Response → Except Error (MapOrNot T)}

theorem Gathers.of_many (htake : ∀ r, takes r = true → ∃ m, map r = .ok m ∧ ∀ r', m ≠ .not r')
    (hrest : ∀ r, takes r = false → map r = .ok (.not r)) {f : Bytes → List T → Collect V}
    (hf : Finishes f) :
    Gathers parse takes fun lines => parseManyInto parse map lines [] >>= f lines := by
  simp only [parseManyInto, Exec.bind_assoc]
  refine .of_loop (toMapOrNot2_follows htake hrest) (fun _ _ _ => rfl) ([], []) ?_
  exact .bind (.of_settled fun _ => .ite (.pure _) (.fail _)) hf

theorem Gathers.of_untilDone
    (htake : ∀ r, takes r = true → ∃ m, map r = .ok m ∧ ∀ r', m ≠ .not r')
    (hrest : ∀ r, takes r = false → map r = .ok (.not r)) (g : T → V) :
    Gathers parse takes fun lines => g <$> parseUntilDone parse lines map := by
  simp only [parseUntilDone, parseUntilDoneInternal, Exec.map_eq_bind, Exec.bind_assoc]
  refine .of_many htake hrest (.bind (.untilDone false) (.of_settled fun o => ?_))
  split
  · exact .bind (.pure _) fun _ => .pure _
  · exact .bind (.fail _) fun _ => .pure _

end Many

end Gathers

/-- The parsers that gather. -/
inductive Gathering where
  | capabilities
  | fetches
  | names
  | acl
  | listRights
  | myRights
  | quota
  | quotaRoot
  | idSet
  | idSeq
  | metadata

namespace Gathering

def run (parse : ParseResponse) (lines : Bytes) : Gathering → Collect Value
  | .capabilities => .capabilities <$> parseCapabilities parse lines
  | .fetches => .fetches <$> parseFetches parse lines
  | .names => .names <$> parseNames parse lines
  | .acl => .acl <$> parseAcl parse lines
  | .listRights => .listRights <$> parseListRights parse lines
  | .myRights => .myRights <$> parseMyRights parse lines
  | .quota => .quota <$> parseQuota parse lines
  | .quotaRoot => .quotaRoot <$> parseQuotaRoot parse lines
  | .idSet => .idSet <$> parseIdSet parse lines
  | .idSeq => .idSeq <$> parseIdSeq parse lines
  | .metadata => (fun m => .metadata m none) <$> parseMetadata parse lines

/-- The responses the parser collects itself. -/
def takes : Gathering → Response → Bool
  | .capabilities => Command.takes .capability
  | .fetches => Command.takes (.fetch [] [])
  | .names => Command.takes (.list none none)
  | .acl => Command.takes (.getAcl [])
  | .listRights => Command.takes (.listRights [] [])
  | .myRights => Command.takes (.myRights [])
  | .quota => Command.takes (.getQuota [])
  | .quotaRoot => Command.takes (.getQuotaRoot [])
  | .idSet | .idSeq => Command.takes (.search [])
  | .metadata => Command.takes (.getMetadata none [] .zero none)

/-- Each of the parsers sorts by what it takes. -/
theorem gathers (p : Gathering) : Gathers parse p.takes fun lines => p.run parse lines := by
  cases p with
  | capabilities =>
      simp only [run, parseCapabilities, Exec.map_eq_bind, Exec.bind_assoc]
      refine .of_many (fun r hr => ?_) (fun r hr => ?_)
        (.of_settled fun _ => .bind (.pure _) fun _ => .pure _)
      all_goals
        cases r <;> first | (cases hr; done) | rfl | exact ⟨_, rfl, fun _ h => by cases h⟩
  | fetches =>
      refine .of_many (fun r hr => ?_) (fun r hr => ?_) (.of_settled fun _ => .pure _)
      all_goals
        cases r <;> first | (cases hr; done) | rfl | exact ⟨_, rfl, fun _ h => by cases h⟩
  | names =>
      refine .of_many (fun r hr => ?_) (fun r hr => ?_) (.of_settled fun _ => .pure _)
      all_goals
        cases r with
        | mailboxData m =>
            cases m <;> first | (cases hr; done) | rfl | exact ⟨_, rfl, fun _ h => by cases h⟩
        | _ => first | (cases hr; done) | rfl
  | quota =>
      simp only [run, parseQuota, parseUntilDoneOptional, parseUntilDoneInternal,
        Exec.map_eq_bind, Exec.bind_assoc]
      refine .of_many (fun r hr => ?_) (fun r hr => ?_)
        (.bind (.untilDone true) (.of_settled fun _ => .pure _))
      all_goals
        cases r <;> first | (cases hr; done) | rfl | exact ⟨_, rfl, fun _ h => by cases h⟩
  | quotaRoot =>
      simp only [run, parseQuotaRoot, Exec.map_eq_bind, Exec.bind_assoc]
      refine .of_loop (collect2_follows _ (fun r hr => ?_) fun r hr => ?_) (fun _ _ _ => rfl)
        ([], []) .quotaRoot
      all_goals
        cases r <;> first | (cases hr; done) | rfl | exact ⟨_, rfl, fun _ h => by cases h⟩
  | idSet =>
      simp only [run, parseIdSet, Exec.map_eq_bind, Exec.bind_assoc]
      exact .of_loop ids_follows (fun _ _ _ => rfl) []
        (.of_settled fun _ => .bind (.pure _) fun _ => .pure _)
  | idSeq => exact .of_loop ids_follows (fun _ _ _ => rfl) [] (.of_settled fun _ => .pure _)
  | metadata =>
      exact .of_loop (metadata_follows none [] .zero none) (fun _ _ _ => rfl) []
        (.of_settled fun _ => .pure _)
  | acl | listRights | myRights =>
      refine .of_untilDone (fun r hr => ?_) (fun r hr => ?_) _
      all_goals
        cases r <;> first | (cases hr; done) | rfl | exact ⟨_, rfl, fun _ h => by cases h⟩

/-- A parser that returns a value returns it with one more unilateral response among those it
is given, and that response is on the queue behind those that came before it. -/
theorem insert (p : Gathering) {lines inserted : Bytes} {before after : List Response}
    {r : Response} {u : UnsolicitedResponse} {q q' : Queue} {v : Value}
    (hlines : parse.Splits lines (before ++ after))
    (hinserted : parse.Splits inserted (before ++ r :: after)) (hu : tryFrom r = some u)
    (hr : p.takes r = false) (hv : p.run parse lines q = (.ok v, q')) :
    ∃ pre post, q' = q ++ pre ++ post ∧
      pre = (before.filter fun r => !p.takes r).filterMap tryFrom ∧
      post = (after.filter fun r => !p.takes r).filterMap tryFrom ∧
      p.run parse inserted q = (.ok v, q ++ pre ++ u :: post) := by
  obtain ⟨hqueue, hrun⟩ := p.gathers.spliced hlines hinserted hu hr hv
  exact ⟨_, _, hqueue, rfl, rfl, hrun⟩

def listMessages : List (Bytes × Response) :=
  [(utf8 "* LIST () NIL INBOX\r\n".toList, .mailboxData (.list [] none "INBOX".toList)),
    (utf8 "* 1 EXPUNGE\r\n".toList, .expunge 1)]

def listParse : ParseResponse := Parser.table listMessages (by decide)

theorem insert_expunge :
    run listParse (utf8 "* 1 EXPUNGE\r\n* LIST () NIL INBOX\r\n".toList) .names [] =
      (.ok (.names [⟨[], none, "INBOX".toList⟩]), [.expunge 1]) := by
  have list : listParse.run (utf8 "* LIST () NIL INBOX\r\n".toList) =
      .ok [] (.mailboxData (.list [] none "INBOX".toList)) := by decide
  have expunge : listParse.run (utf8 "* 1 EXPUNGE\r\n* LIST () NIL INBOX\r\n".toList) =
      .ok (utf8 "* LIST () NIL INBOX\r\n".toList) (.expunge 1) := by decide
  have parsed : parseNames listParse (utf8 "* LIST () NIL INBOX\r\n".toList) [] =
      (.ok [⟨[], none, "INBOX".toList⟩], []) := by decide
  have names : run listParse (utf8 "* LIST () NIL INBOX\r\n".toList) .names [] =
      (.ok (.names [⟨[], none, "INBOX".toList⟩]), []) := by
    rw [run, Exec.map_eq_bind, Exec.bind_ok parsed]
    rfl
  have splits : listParse.Splits (utf8 "* LIST () NIL INBOX\r\n".toList)
      ([] ++ [.mailboxData (.list [] none "INBOX".toList)]) := .cons list .nil
  obtain ⟨pre, post, -, rfl, rfl, hrun⟩ := insert .names splits
    (.cons expunge (.cons list .nil)) (u := .expunge 1) rfl rfl names
  exact hrun

end Gathering

end RustImap
