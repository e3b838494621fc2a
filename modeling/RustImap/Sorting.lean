import RustImap.Collectors
import RustImap.Unilateral

/-!
How the parser of each operation sorts responses.

`SortsLike` ties the parser of a command to `Command.action` and `Command.Shown`. Most
parsers take only responses that are not accepted as unsolicited ones, so there is
nothing for their values to show.
-/

namespace RustImap

open UnsolicitedResponse (tryFrom)

namespace Action

variable {takes : Response → Bool} {r : Response}

theorem of_take : of takes r = .take ↔ takes r = true := by
  cases h : takes r <;> cases hu : tryFrom r <;> simp [of, h, hu]

theorem of_queue : of takes r = .queue ↔ takes r = false ∧ tryFrom r ≠ none := by
  cases h : takes r <;> cases hu : tryFrom r <;> simp [of, h, hu]

theorem of_fail : of takes r = .fail ↔ takes r = false ∧ tryFrom r = none := by
  cases h : takes r <;> cases hu : tryFrom r <;> simp [of, h, hu]

end Action

namespace Intake

variable {A : Type}

/-- A parser that queues what it does not take. -/
def own (takes : Response → Bool) (take : A → Response → A) : Intake A where
  action := .of takes
  take
  accepts _ h := (Action.of_queue.mp h).2

theorem queued_own {takes : Response → Bool} {take : A → Response → A} (rs : List Response) :
    (own takes take).queued rs = (rs.filter fun r => !takes r).filterMap tryFrom := by
  rw [queued, List.filterMap_filter, List.filterMap_filter]
  refine congrArg (fun f => List.filterMap f rs) ?_
  funext r
  cases htakes : takes r <;> cases hu : tryFrom r <;> simp [own, Action.of, htakes, hu]

/-- A tagged response of another status than `OK` may make it panic. -/
theorem follows_own {takes : Response → Bool} {take : A → Response → A}
    {step : A → Response → Collect A}
    (htake : ∀ a r, takes r = true → step a r = pure (take a r))
    (hrest : ∀ a r, takes r = false → step a r = (do handleUnilateral r; pure a) ∨
      r.isDone = true ∧ step a r = .fail .panic) :
    (own takes take).Follows step where
  take a r q h := by
    rw [htake a r (Action.of_take.mp h)]
    rfl
  queue a r q u h hu := by
    rcases hrest a r (Action.of_queue.mp h).1 with hstep | ⟨hdone, -⟩
    · rw [hstep]
      simp [handleUnilateral, tryHandleUnilateral, Exec.bind_apply, hu]
    · cases r <;> first | (cases hdone; done) | cases hu
  fail a r q h := by
    obtain ⟨hr, hu⟩ := Action.of_fail.mp h
    rcases hrest a r hr with hstep | ⟨-, hstep⟩
    · refine ⟨.err (.unexpected r), ?_⟩
      rw [hstep]
      simp [handleUnilateral, tryHandleUnilateral, Exec.bind_apply, hu]
    · exact ⟨.panic, by rw [hstep]; rfl⟩

end Intake

/-- The parser `x`, run on the responses `rs` of an answer, does what is said about the
command. -/
def Command.SortsLike (c : Command) (rs : List Response) (x : Collect Value) : Prop :=
  ∃ (A : Type) (intake : Intake A) (a : A) (result : A → Except Fault Value),
    intake.action = c.action ∧ intake.Sorts a result rs x ∧
    ((∀ r ∈ rs, c.action r ≠ .fail) →
      ((∀ r ∈ rs, tryFrom r ≠ none → c.action r = .take →
        ∃ v, result (intake.taken a rs) = .ok v ∧ v.Shows r) ↔ c.Shown rs))

/-- What a parser does with the value once its loop is over. -/
def Settled {V : Type} (x : Collect V) : Prop := ∃ result, ∀ q, x q = (result, q)

namespace Settled

variable {V W : Type}

theorem pure (v : V) : Settled (Pure.pure v : Collect V) := ⟨.ok v, fun _ => rfl⟩

theorem fail (e : Fault) : Settled (Exec.fail e : Collect V) := ⟨.error e, fun _ => rfl⟩

theorem bind {x : Collect V} {f : V → Collect W} (hx : Settled x) (hf : ∀ v, Settled (f v)) :
    Settled (x >>= f) := by
  obtain ⟨result, hresult⟩ := hx
  cases result with
  | error e => exact ⟨.error e, fun q => Exec.bind_error (hresult q)⟩
  | ok v =>
      obtain ⟨result', hresult'⟩ := hf v
      exact ⟨result', fun q => (Exec.bind_ok (hresult q)).trans (hresult' q)⟩

theorem ite {p : Prop} [Decidable p] {x y : Collect V} (hx : Settled x) (hy : Settled y) :
    Settled (if p then x else y) := by
  split
  · exact hx
  · exact hy

end Settled

variable {A : Type} {c : Command} {rs : List Response}

/-- A command whose parser takes nothing that is accepted. -/
theorem Command.sortsLike_none {takes : Response → Bool} {take : A → Response → A} {a : A}
    {result : A → Except Fault Value} {x : Collect Value} (haction : c.action = .of takes)
    (hx : (Intake.own takes take).Sorts a result rs x)
    (hnone : ∀ r, takes r = true → tryFrom r = none) (hshown : c.Shown rs) :
    c.SortsLike rs x := by
  refine ⟨A, .own takes take, a, result, haction.symm, hx, fun _ => ?_⟩
  refine iff_of_true (fun r _ haccepted htake => ?_) hshown
  rw [haction, Action.of_take] at htake
  exact absurd (hnone r htake) haccepted

theorem Command.sortsLike_rest {takes : Response → Bool} {take : A → Response → A} {a : A}
    {x : Collect A} {f : A → Collect Value} (haction : c.action = .of takes)
    (hx : (Intake.own takes take).Sorts a .ok rs x) (hf : ∀ a, Settled (f a))
    (hnone : ∀ r, takes r = true → tryFrom r = none) (hshown : c.Shown rs) :
    c.SortsLike rs (x >>= f) := by
  choose result hresult using hf
  exact sortsLike_none haction (hx.bind hresult) hnone hshown

section Rest

variable {parse : ParseResponse} {untagged : Bytes}

theorem noop_sorts (h : parse.Splits untagged rs) :
    Command.SortsLike .noop rs ((fun _ => .unit) <$> parseNoop parse untagged) := by
  have follows : (Intake.own (fun _ => false) fun (_ : Unit) _ => ()).Follows
      fun _ r => handleUnilateral r := by
    refine Intake.follows_own (fun _ _ h => by cases h) fun a r _ => .inl ?_
    funext q
    rw [Exec.bind_apply]
    cases handleUnilateral r q with
    | mk r q => cases r <;> rfl
  exact Command.sortsLike_rest rfl (follows.loop (fun _ _ _ => rfl) h ()) (fun _ => .pure _)
    (fun _ h => by cases h) trivial

/-- What `parse_ids_with` makes of a response it collects. -/
def idsTaken (ids : List UInt32) : Response → List UInt32
  | .mailboxData (.search c) => ids ++ c
  | .mailboxData (.sort c) => ids ++ c
  | _ => ids

theorem ids_follows :
    (Intake.own (Command.takes (.search [])) idsTaken).Follows fun a r => idsStep a r [] := by
  refine Intake.follows_own (fun a r hr => ?_) fun a r hr => .inl ?_
  all_goals
    cases r with
    | mailboxData m => cases m <;> first | rfl | cases hr
    | _ => first | rfl | cases hr

theorem ids_sorts (hc : c.action = .of (Command.takes (.search []))) (hshown : c.Shown rs)
    {f : List UInt32 → Value} (h : parse.Splits untagged rs) :
    c.SortsLike rs (f <$> parseIdsWith parse untagged) := by
  refine Command.sortsLike_rest hc (ids_follows.loop (fun _ _ _ => rfl) h []) (fun _ => .pure _)
    (fun r hr => ?_) hshown
  cases r with
  | mailboxData m => cases m <;> first | rfl | cases hr
  | _ => first | rfl | cases hr

theorem missedEntries_settled (maxsize : Option Nat) (tagged : Bytes) :
    Settled (Session.missedEntries parse maxsize tagged) := by
  unfold Session.missedEntries
  refine .ite (.pure _) ?_
  split
  · split <;> exact .pure _
  · exact .fail _

/-- What `parse_metadata` makes of a response it collects. -/
def metadataTaken (res : List Metadata) : Response → List Metadata
  | .mailboxData (.metadataSolicited _ values) => res ++ values
  | _ => res

theorem metadata_follows (mailbox : Option Str) (entries : List Str) (depth : MetadataDepth)
    (maxsize : Option Nat) :
    (Intake.own (Command.takes (.getMetadata mailbox entries depth maxsize))
      metadataTaken).Follows fun a r => metadataStep a r [] := by
  refine Intake.follows_own (fun a r hr => ?_) fun a r hr => .inl ?_
  all_goals
    cases r with
    | mailboxData m => cases m <;> first | rfl | cases hr
    | _ => first | rfl | cases hr

theorem metadata_sorts (mailbox : Option Str) (entries : List Str) (depth : MetadataDepth)
    (maxsize : Option Nat) (tagged : Bytes) (h : parse.Splits untagged rs) :
    Command.SortsLike (.getMetadata mailbox entries depth maxsize) rs
      ((fun r => .metadata r.1 r.2) <$> (do
        let metadata ← parseMetadata parse untagged
        let missed ← Session.missedEntries parse maxsize tagged
        pure (metadata, missed))) := by
  rw [Exec.map_eq_bind, Exec.bind_assoc]
  refine Command.sortsLike_rest rfl
    ((metadata_follows mailbox entries depth maxsize).loop (fun _ _ _ => rfl) h [])
    (fun _ => .bind (.bind (missedEntries_settled _ _) fun _ => .pure _) fun _ => .pure _)
    (fun r hr => ?_) trivial
  cases r with
  | mailboxData m => cases m <;> first | rfl | cases hr
  | _ => first | rfl | cases hr

section Collect

variable {T U : Type} (map : Response → Except Error (MapOrNot2 T U))

/-- What `collect2` makes of a response that is mapped to something. -/
def collected (into : List T × List U) (r : Response) : List T × List U :=
  match map r with
  | .ok (.map1 t) => (into.1 ++ [t], into.2)
  | .ok (.map2 u) => (into.1, into.2 ++ [u])
  | .ok (.mapVec1 ts) => (into.1 ++ ts, into.2)
  | .ok (.mapVec2 us) => (into.1, into.2 ++ us)
  | _ => into

theorem collect2_rest {r : Response} (h : map r = .ok (.not r)) (into : List T × List U) :
    collect2 map into r [] = (do handleUnilateral r; pure into) := by
  simp only [collect2, h]
  exact tryHandleUnilateral_pass r into

theorem collect2_follows {takes : Response → Bool}
    (htake : ∀ r, takes r = true → ∃ m, map r = .ok m ∧ ∀ r', m ≠ .not r')
    (hrest : ∀ r, takes r = false → map r = .ok (.not r)) :
    (Intake.own takes (collected map)).Follows fun a r => collect2 map a r [] := by
  refine Intake.follows_own (fun a r hr => ?_) fun a r hr => .inl (collect2_rest map (hrest r hr) a)
  obtain ⟨m, hm, hnot⟩ := htake r hr
  cases m <;> simp only [collect2, collected, hm]
  exact absurd rfl (hnot _)

/-- `Except.map` by the embedding of `MapOrNot` keeps which responses are taken. -/
theorem toMapOrNot2_follows {map : Response → Except Error (MapOrNot T)} {takes : Response → Bool}
    (htake : ∀ r, takes r = true → ∃ m, map r = .ok m ∧ ∀ r', m ≠ .not r')
    (hrest : ∀ r, takes r = false → map r = .ok (.not r)) :
    (Intake.own takes (collected fun r => (map r).map MapOrNot.toMapOrNot2)).Follows
      fun a r => collect2 (fun r => (map r).map MapOrNot.toMapOrNot2) a r [] := by
  refine collect2_follows _ (fun r hr => ?_) fun r hr => ?_
  · obtain ⟨m, hm, hnot⟩ := htake r hr
    refine ⟨m.toMapOrNot2, by simp [hm, Except.map], fun r' h => ?_⟩
    cases m <;> cases h
    exact absurd rfl (hnot _)
  · simp [hrest r hr, Except.map, MapOrNot.toMapOrNot2]

theorem many_sorts {map : Response → Except Error (MapOrNot T)} (takes : Response → Bool)
    (htake : ∀ r, takes r = true → ∃ m, map r = .ok m ∧ ∀ r', m ≠ .not r')
    (hrest : ∀ r, takes r = false → map r = .ok (.not r))
    (hc : c.action = .of takes) (hnone : ∀ r, takes r = true → tryFrom r = none)
    (hshown : c.Shown rs) (h : parse.Splits untagged rs) {f : List T → Collect Value}
    (hf : ∀ ts, Settled (f ts)) :
    c.SortsLike rs (parseManyInto parse map untagged [] >>= f) := by
  rw [parseManyInto, Exec.bind_assoc]
  refine Command.sortsLike_rest hc
    ((toMapOrNot2_follows htake hrest).loop (fun _ _ _ => rfl) h ([], [])) (fun a => ?_) hnone
    hshown
  exact .bind (.ite (.pure _) (.fail _)) hf

theorem untilDone_settled (input : Bytes) (optional : Bool) (ts : List T) :
    Settled (match ts with
      | [t] => pure (some t)
      | [] => if optional then pure none else .fail (.err (.parse (.invalid input)))
      | _ => .fail (.err (.parse (.invalid input))) : Collect (Option T)) := by
  split
  · exact .pure _
  · exact .ite (.pure _) (.fail _)
  · exact .fail _

end Collect

theorem names_sorts (hc : c.action = .of (Command.takes (.list none none))) (hshown : c.Shown rs)
    (h : parse.Splits untagged rs) : c.SortsLike rs (.names <$> parseNames parse untagged) := by
  refine many_sorts (Command.takes (.list none none)) (fun r hr => ?_) (fun r hr => ?_) hc
    (fun r hr => ?_) hshown h
    fun _ => .pure _
  all_goals
    cases r with
    | mailboxData m =>
        cases m <;> first | (cases hr; done) | rfl | exact ⟨_, rfl, fun _ h => by cases h⟩
    | _ => first | (cases hr; done) | rfl

theorem capabilities_sorts (h : parse.Splits untagged rs) :
    Command.SortsLike .capability rs (.capabilities <$> parseCapabilities parse untagged) := by
  simp only [parseCapabilities, Exec.map_eq_bind, Exec.bind_assoc]
  refine many_sorts (Command.takes .capability) (fun r hr => ?_) (fun r hr => ?_) rfl
    (fun r hr => ?_) (show Command.Shown .capability rs from trivial) h fun _ => .pure _
  all_goals
    cases r <;> first | (cases hr; done) | rfl | exact ⟨_, rfl, fun _ h => by cases h⟩

theorem untilDone_sorts {T : Type} {map : Response → Except Error (MapOrNot T)}
    (takes : Response → Bool)
    (htake : ∀ r, takes r = true → ∃ m, map r = .ok m ∧ ∀ r', m ≠ .not r')
    (hrest : ∀ r, takes r = false → map r = .ok (.not r))
    (hc : c.action = .of takes) (hnone : ∀ r, takes r = true → tryFrom r = none)
    (hshown : c.Shown rs) (h : parse.Splits untagged rs) (g : T → Value) :
    c.SortsLike rs (g <$> parseUntilDone parse untagged map) := by
  simp only [parseUntilDone, parseUntilDoneInternal, Exec.map_eq_bind, Exec.bind_assoc]
  refine many_sorts takes htake hrest hc hnone hshown h fun ts => ?_
  refine .bind (untilDone_settled untagged false ts) fun o => ?_
  split
  · exact .pure _
  · exact .bind (.fail _) fun _ => .pure _

theorem acl_sorts (m : Str) (h : parse.Splits untagged rs) :
    Command.SortsLike (.getAcl m) rs (.acl <$> parseAcl parse untagged) := by
  refine untilDone_sorts (Command.takes (.getAcl m)) (fun r hr => ?_) (fun r hr => ?_) rfl
    (fun r hr => ?_) (show Command.Shown (.getAcl m) rs from trivial) h _
  all_goals
    cases r <;> first | (cases hr; done) | rfl | exact ⟨_, rfl, fun _ h => by cases h⟩

theorem listRights_sorts (m i : Str) (h : parse.Splits untagged rs) :
    Command.SortsLike (.listRights m i) rs (.listRights <$> parseListRights parse untagged) := by
  refine untilDone_sorts (Command.takes (.listRights m i)) (fun r hr => ?_) (fun r hr => ?_) rfl
    (fun r hr => ?_) (show Command.Shown (.listRights m i) rs from trivial) h _
  all_goals
    cases r <;> first | (cases hr; done) | rfl | exact ⟨_, rfl, fun _ h => by cases h⟩

theorem myRights_sorts (m : Str) (h : parse.Splits untagged rs) :
    Command.SortsLike (.myRights m) rs (.myRights <$> parseMyRights parse untagged) := by
  refine untilDone_sorts (Command.takes (.myRights m)) (fun r hr => ?_) (fun r hr => ?_) rfl
    (fun r hr => ?_) (show Command.Shown (.myRights m) rs from trivial) h _
  all_goals
    cases r <;> first | (cases hr; done) | rfl | exact ⟨_, rfl, fun _ h => by cases h⟩

theorem quota_sorts (hc : c.action = .of (Command.takes (.getQuota []))) (hshown : c.Shown rs)
    (h : parse.Splits untagged rs) : c.SortsLike rs (.quota <$> parseQuota parse untagged) := by
  simp only [parseQuota, parseUntilDoneOptional, parseUntilDoneInternal, Exec.map_eq_bind,
    Exec.bind_assoc]
  refine many_sorts (Command.takes (.getQuota [])) (fun r hr => ?_) (fun r hr => ?_) hc
    (fun r hr => ?_) hshown h fun ts => .bind (untilDone_settled untagged true ts) fun _ => .pure _
  all_goals
    cases r <;> first | (cases hr; done) | rfl | exact ⟨_, rfl, fun _ h => by cases h⟩

theorem quotaRoot_sorts (m : Str) (h : parse.Splits untagged rs) :
    Command.SortsLike (.getQuotaRoot m) rs (.quotaRoot <$> parseQuotaRoot parse untagged) := by
  simp only [parseQuotaRoot, Exec.map_eq_bind, Exec.bind_assoc]
  refine Command.sortsLike_rest rfl ((collect2_follows _ (fun r hr => ?_) fun r hr => ?_).loop
    (fun _ _ _ => rfl) h ([], [])) (fun a => ?_) (fun r hr => ?_) trivial
  rotate_left 2
  · split
    · exact .bind (.pure _) fun _ => .pure _
    · exact .bind (.fail _) fun _ => .pure _
  all_goals
    cases r <;> first | (cases hr; done) | rfl | exact ⟨_, rfl, fun _ h => by cases h⟩

end Rest

section Parsers

variable {parse : ParseResponse}

/-- The answer of an operation that only wants an `OK`. -/
theorem discard_sorts (haction : ∀ r, c.action r = .take)
    (hshown : c.Shown rs ↔ ∀ r ∈ rs, tryFrom r = none) :
    c.SortsLike rs (pure .unit) := by
  let intake : Intake Unit := ⟨c.action, fun _ _ => (), fun r h => by simp [haction] at h⟩
  refine ⟨Unit, intake, (), fun _ => .ok .unit, rfl, ⟨fun _ q => ?_, ?_⟩, fun _ => ?_⟩
  · simp [Intake.queued, intake, haction]
  · rintro pre bad post ⟨-, -, hbad⟩
    exact absurd ((haction bad).symm.trans hbad) (by simp)
  · rw [hshown]
    refine forall₂_congr fun r _ => ?_
    simp [Value.Shows, haction]

/-- What `FETCH` makes of a response. -/
def mapFetch : Response → Except Error (MapOrNot Fetch)
  | .fetch num attrs => .ok (.map (.ofResponse num attrs))
  | resp => .ok (.not resp)

theorem fetches_sorts {untagged : Bytes} (hc : c.action = .of (Command.takes (.fetch [] [])))
    (hshown : c.Shown rs) (h : parse.Splits untagged rs) :
    c.SortsLike rs (.fetches <$> parseFetches parse untagged) := by
  let take := collected fun r => (mapFetch r).map MapOrNot.toMapOrNot2
  let intake := Intake.own (Command.takes (.fetch [] [])) take
  let result (a : List Fetch × List Unit) : Except Fault Value :=
    if a.2.length = 0 then .ok (.fetches a.1) else .error .panic
  have follows : intake.Follows fun a r =>
      collect2 (fun r => (mapFetch r).map MapOrNot.toMapOrNot2) a r [] := toMapOrNot2_follows
    (fun r hr => by cases r <;> first | (cases hr; done) | exact ⟨_, rfl, fun _ h => by cases h⟩)
    fun r hr => by cases r <;> first | (cases hr; done) | rfl
  have sorts : intake.Sorts ([], []) result rs (.fetches <$> parseFetches parse untagged) := by
    have hparse : parseFetches parse untagged = parseManyInto parse mapFetch untagged [] := rfl
    rw [hparse, parseManyInto, Exec.map_eq_bind, Exec.bind_assoc]
    refine (follows.loop (fun _ _ _ => rfl) h _).bind fun a q => ?_
    by_cases ha : a.2 = [] <;> simp [result, ha, Exec.bind_apply]
  have taken : intake.taken ([], []) rs = rs.foldl take ([], []) := by
    refine intake.taken_eq (fun a r hr => ?_) _ rs
    cases r <;> first | rfl | exact absurd rfl hr
  have nothing : ∀ (rs : List Response) (a : List Fetch × List Unit), a.2 = [] →
      (rs.foldl take a).2 = [] := by
    intro rs
    induction rs with
    | nil => exact fun _ h => h
    | cons r rs ih => exact fun a h => ih _ (by cases r <;> exact h)
  have value : result (intake.taken ([], []) rs) =
      .ok (.fetches (rs.foldl take ([], [])).1) := by
    simp only [result, taken, nothing rs ([], []) rfl, List.length_nil, if_true]
  refine ⟨_, intake, ([], []), result, hc.symm, sorts, fun _ => ?_⟩
  refine iff_of_true (fun r hr haccepted htake => ⟨_, value, ?_⟩) hshown
  rw [hc, Action.of_take] at htake
  cases r with
  | fetch num attrs =>
      let P (a : List Fetch × List Unit) : Prop := Fetch.ofResponse num attrs ∈ a.1
      refine (foldl_of_mem hr (fun a => ?_) (fun a r _ ha => ?_) _ : P (rs.foldl take ([], [])))
      · exact List.mem_append_right _ List.mem_cons_self
      · cases r <;> first | exact ha | exact List.mem_append_left _ ha
  | _ => cases htake

section Whole

variable {lines : Bytes} {tag : Str} {code : Option ResponseCode} {information : Option Str}

theorem lines_ne_nil {r : Response} (h : parse.Splits lines (rs ++ [r])) : lines ≠ [] := by
  rintro rfl
  simpa using h.unique .nil

/-- What `APPEND` takes of the tagged response. -/
def Appended.with (a : Appended) : Response → Appended
  | .done _ _ (some (.appendUid validity uids)) _ => ⟨some validity, some uids⟩
  | _ => a

theorem append_sorts (mailbox : Str) (flags : List Flag) (date : Option DateTime) (length : Nat)
    (h : parse.Splits lines (rs ++ [.done tag .ok code information])) :
    Command.SortsLike (.append mailbox flags date length) rs
      (.appended <$> parseAppend parse lines) := by
  let takes := Command.takes (.append mailbox flags date length)
  have follows : (Intake.own takes Appended.with).Follows fun a r => appendStep a r [] := by
    refine Intake.follows_own (fun a r hr => ?_) fun a r hr => ?_
    · cases r with
      | done tag status code information =>
          cases status <;> cases hr
          rcases code with - | code
          · rfl
          · cases code <;> rfl
      | _ => cases hr
    · cases r with
      | done tag status code information =>
          cases status <;> first | (cases hr; done) | exact .inr ⟨rfl, rfl⟩
      | _ => exact .inl rfl
  have loop := follows.loop (show ∀ a r rest, appendStep a r rest = appendStep a r [] from
    fun _ _ _ => rfl) h ⟨none, none⟩
  rw [parseAppend, forResponses1, if_neg (lines_ne_nil h), Exec.map_eq_bind]
  refine Command.sortsLike_none rfl
    ((loop.bind (f := fun a => pure (Value.appended a)) fun _ _ => rfl).last rfl)
    (fun r hr => ?_) trivial
  cases r <;> first | rfl | cases hr

/-- The sequence numbers and the uids of a response to `EXPUNGE`. -/
def expungedSeqs : Response → List UInt32
  | .expunge n => [n]
  | _ => []

def vanishedUids : Response → List (UInt32 × UInt32)
  | .vanished _ uids => uids
  | _ => []

def Expunging.with (a : Expunging) : Response → Expunging
  | .done _ .ok (some (.highestModSeq ms)) _ => { a with modSeq := some ms }
  | .expunge n => { a with expunged := a.expunged ++ [n] }
  | .vanished _ uids => { a with vanished := a.vanished ++ uids }
  | _ => a

def Expunging.messages (a : Expunging) : DeletedMessages :=
  if a.vanished ≠ [] then .vanished a.vanished else .expunged a.expunged

theorem Expunging.with_done (a : Expunging) :
    (a.with (.done tag .ok code information)).messages = a.messages := by
  rcases code with - | code
  · rfl
  · cases code <;> rfl

theorem Expunging.foldl_with (rs : List Response) (a : Expunging) :
    (rs.foldl Expunging.with a).expunged = a.expunged ++ rs.flatMap expungedSeqs ∧
    (rs.foldl Expunging.with a).vanished = a.vanished ++ rs.flatMap vanishedUids := by
  induction rs generalizing a with
  | nil => simp
  | cons r rs ih =>
      obtain ⟨hexpunged, hvanished⟩ := ih (a.with r)
      rw [List.foldl_cons, hexpunged, hvanished]
      cases r with
      | done tag status code information =>
          rcases code with - | code
          · cases status <;> simp [Expunging.with, expungedSeqs, vanishedUids]
          · cases status <;> cases code <;> simp [Expunging.with, expungedSeqs, vanishedUids]
      | _ => simp [Expunging.with, expungedSeqs, vanishedUids]

theorem deleted_shows {d : Deleted}
    (hd : d.messages = if rs.flatMap vanishedUids ≠ [] then .vanished (rs.flatMap vanishedUids)
      else .expunged (rs.flatMap expungedSeqs)) :
    (∀ r ∈ rs, tryFrom r ≠ none → Action.of (Command.takes .expunge) r = .take →
      (Value.deleted d).Shows r) ↔ Command.Shown .expunge rs := by
  have expunged : ∀ n, .expunge n ∈ rs → n ∈ rs.flatMap expungedSeqs := fun n hn =>
    List.mem_flatMap.mpr ⟨_, hn, List.mem_singleton.mpr rfl⟩
  have vanished : ∀ earlier uids, .vanished earlier uids ∈ rs →
      ∀ u ∈ uids, u ∈ rs.flatMap vanishedUids := fun _ _ hr u hu =>
    List.mem_flatMap.mpr ⟨_, hr, hu⟩
  by_cases hnone : rs.flatMap vanishedUids = []
  · rw [if_neg (by simpa using hnone)] at hd
    have empty : ∀ earlier uids, .vanished earlier uids ∈ rs → uids = [] := by
      intro earlier uids hr
      refine List.eq_nil_iff_forall_not_mem.mpr fun u hu => ?_
      simpa [hnone] using vanished _ _ hr u hu
    refine iff_of_true (fun r hr haccepted htake => ?_) (.inr empty)
    rw [Action.of_take] at htake
    cases r with
    | expunge n => exact ⟨_, hd, expunged n hr⟩
    | vanished earlier uids =>
        obtain rfl := empty _ _ hr
        exact fun _ hu => absurd hu (by simp)
    | done tag status code information => cases haccepted rfl
    | _ => cases htake
  · rw [if_pos hnone] at hd
    have some_vanished : ¬∀ earlier uids, .vanished earlier uids ∈ rs → uids = [] := by
      intro empty
      refine hnone (List.flatMap_eq_nil_iff.mpr fun r hr => ?_)
      cases r <;> first | exact empty _ _ hr | rfl
    simp only [Command.Shown, some_vanished, or_false]
    constructor
    · intro h n hn
      obtain ⟨seqs, hseqs, -⟩ := h _ hn (by simp [tryFrom]) rfl
      rw [hd] at hseqs
      cases hseqs
    · intro h r hr haccepted htake
      rw [Action.of_take] at htake
      cases r with
      | expunge n => exact absurd hr (h n)
      | vanished earlier uids => exact fun u hu => ⟨_, hd, vanished _ _ hr u hu⟩
      | done tag status code information => cases haccepted rfl
      | _ => cases htake

def Intake.expunge : Intake Expunging := .own (Command.takes .expunge) Expunging.with

theorem Intake.follows_expunge : Intake.expunge.Follows fun a r => expungeStep a r [] := by
  refine Intake.follows_own (fun a r hr => ?_) fun a r hr => ?_
  · cases r with
    | done tag status code information =>
        cases status <;> cases hr
        rcases code with - | code
        · rfl
        · cases code <;> rfl
    | expunge | vanished => rfl
    | _ => cases hr
  · cases r with
    | done tag status code information =>
        cases status <;> first | (cases hr; done) | exact .inr ⟨rfl, rfl⟩
    | expunge | vanished => cases hr
    | _ => exact .inl rfl

theorem Intake.expunge_taken (rs : List Response) (a : Expunging) :
    Intake.expunge.taken a rs = rs.foldl Expunging.with a := by
  refine Intake.expunge.taken_eq (fun a r hr => ?_) a rs
  cases r with
  | done tag status code information =>
      cases status <;> first | rfl | exact absurd rfl hr
  | expunge | vanished => exact absurd rfl hr
  | _ => rfl

theorem parseExpunge_sorts (h : parse.Splits lines (rs ++ [.done tag .ok code information])) :
    Intake.expunge.Sorts ⟨[], [], none⟩
      (fun a => .ok ⟨a.messages, (a.with (.done tag .ok code information)).modSeq⟩) rs
      (parseExpunge parse lines) := by
  have loop := Intake.follows_expunge.loop (show ∀ a r rest, expungeStep a r rest =
    expungeStep a r [] from fun _ _ _ => rfl) h ⟨[], [], none⟩
  have sorts := (loop.bind (f := fun a => pure (⟨a.messages, a.modSeq⟩ : Deleted))
    fun _ _ => rfl).last rfl
  have parser : parseExpunge parse lines = (do
      let a ← forResponses parse expungeStep ⟨[], [], none⟩ lines
      pure ⟨a.messages, a.modSeq⟩) := by
    refine congrArg (forResponses parse expungeStep ⟨[], [], none⟩ lines >>= ·) ?_
    funext a
    unfold Expunging.messages
    split <;> rfl
  have value : ∀ a : Expunging, (Intake.expunge.take a (.done tag .ok code information)).messages =
      a.messages := fun a => a.with_done
  simp only [value] at sorts
  rw [parser]
  exact sorts

theorem Expunging.messages_foldl (rs : List Response) :
    (rs.foldl Expunging.with ⟨[], [], none⟩).messages =
      if rs.flatMap vanishedUids ≠ [] then .vanished (rs.flatMap vanishedUids)
      else .expunged (rs.flatMap expungedSeqs) := by
  obtain ⟨hexpunged, hvanished⟩ := Expunging.foldl_with rs ⟨[], [], none⟩
  rw [Expunging.messages, hexpunged, hvanished]
  rfl

theorem expunge_sorts (hc : c.action = .of (Command.takes .expunge))
    (hshown : c.Shown rs ↔ Command.Shown .expunge rs)
    (h : parse.Splits lines (rs ++ [.done tag .ok code information])) :
    c.SortsLike rs (.deleted <$> parseExpunge parse lines) := by
  refine ⟨_, Intake.expunge, _, _, hc.symm, (parseExpunge_sorts h).map Value.deleted, fun _ => ?_⟩
  let all := rs.foldl Expunging.with ⟨[], [], none⟩
  have shown : _ ↔ Command.Shown .expunge rs := deleted_shows
    (d := ⟨all.messages, (all.with (.done tag .ok code information)).modSeq⟩)
    (Expunging.messages_foldl rs)
  rw [hshown, ← shown, Intake.expunge_taken, hc]
  simp only [Except.map, Except.ok.injEq, exists_eq_left']
  rfl

end Whole

end Parsers

end RustImap
