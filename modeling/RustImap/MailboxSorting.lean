import RustImap.Sorting

/-!
How the parsers that fill in a mailbox sort responses.

A later item of a kind replaces an earlier one, so a mailbox shows all the items it was
given exactly if there are no two different ones of a kind.
-/

namespace RustImap

open UnsolicitedResponse (tryFrom)

namespace Mailbox

theorem reports_withAttribute (m : Mailbox) (a b : StatusAttribute) :
    (m.withAttribute b).Reports a ↔ if a.sameItem b then a = b else m.Reports a := by
  cases a <;> cases b <;> simp [withAttribute, Reports, StatusAttribute.sameItem, eq_comm]

theorem Reports.unique {m : Mailbox} {a b : StatusAttribute} (ha : m.Reports a) (hb : m.Reports b)
    (hab : a.sameItem b = true) : a = b := by
  cases a <;> cases b <;> first | (cases hab; done) | simp_all [Reports]

theorem Reports.sameItem {m : Mailbox} {a : StatusAttribute} (h : m.Reports a) :
    a.sameItem a = true := by
  cases a <;> first | rfl | exact h.elim

variable {a : StatusAttribute} {bs : List StatusAttribute}

theorem Reports.foldl {m : Mailbox} (hbs : ∀ b ∈ bs, a.sameItem b = true → a = b)
    (h : m.Reports a) : (bs.foldl withAttribute m).Reports a := by
  refine List.foldlRecOn (motive := fun m => Reports m a) bs withAttribute h fun m hm b hb => ?_
  rw [reports_withAttribute]
  split
  · exact hbs b hb ‹_›
  · exact hm

theorem reports_foldl (hbs : ∀ b ∈ bs, a.sameItem b = true → a = b) (ha : a ∈ bs)
    (hsame : a.sameItem a = true) (m : Mailbox) : (bs.foldl withAttribute m).Reports a := by
  refine foldl_of_mem (P := fun m : Mailbox => m.Reports a) ha (fun m => ?_) (fun m b hb hm => ?_) m
  · simp [reports_withAttribute, hsame]
  · have one : ∀ b' ∈ [b], a.sameItem b' = true → a = b' := by simpa using hbs b hb
    exact hm.foldl one

/-- A mailbox that has gone through some responses reports every item they gave exactly if
these are consistent. -/
theorem reports_all {take : Mailbox → Response → Mailbox}
    {items : Response → List StatusAttribute}
    (htake : ∀ m r a, (take m r).Reports a ↔ ((items r).foldl withAttribute m).Reports a)
    (rs : List Response) (m : Mailbox) :
    (∀ r ∈ rs, ∀ a ∈ items r, (rs.foldl take m).Reports a) ↔ Consistent (rs.flatMap items) := by
  constructor
  · intro h a ha
    have reported : ∀ a ∈ rs.flatMap items, (rs.foldl take m).Reports a := by
      intro a ha
      obtain ⟨r, hr, ha⟩ := List.mem_flatMap.mp ha
      exact h r hr a ha
    exact ⟨(reported a ha).sameItem, fun b hb => (reported a ha).unique (reported b hb)⟩
  · intro h r hr a ha
    have hmem : a ∈ rs.flatMap items := List.mem_flatMap.mpr ⟨r, hr, ha⟩
    obtain ⟨hsame, hunique⟩ := h a hmem
    have hitems : ∀ r ∈ rs, ∀ b ∈ items r, a.sameItem b = true → a = b :=
      fun r hr b hb => hunique b (List.mem_flatMap.mpr ⟨r, hr, hb⟩)
    refine foldl_of_mem (P := fun m : Mailbox => m.Reports a) hr (fun m => ?_)
      (fun m r hr hm => ?_) m
    · exact (htake m r a).mpr (reports_foldl (hitems r hr) ha hsame m)
    · exact (htake m r a).mpr (hm.foldl (hitems r hr))

/-- The last value a list gives for the item. -/
def lastItem (as : List StatusAttribute) (a : StatusAttribute) : Option StatusAttribute :=
  (as.filter a.sameItem).getLast?

theorem lastItem_cons (c : StatusAttribute) (as : List StatusAttribute) (a : StatusAttribute) :
    lastItem (c :: as) a = (lastItem as a).or (if a.sameItem c then some c else none) := by
  cases h : a.sameItem c with
  | true =>
      cases hlast : (as.filter a.sameItem).getLast? <;>
        simp [lastItem, h, hlast, List.getLast?_cons]
  | false => simp [lastItem, h]

/-- What a mailbox reports that has been given some items. -/
theorem reports_foldl_iff (as : List StatusAttribute) (m : Mailbox) (a : StatusAttribute) :
    (as.foldl withAttribute m).Reports a ↔
      match lastItem as a with
      | some b => a = b
      | none => m.Reports a := by
  induction as generalizing m with
  | nil => rfl
  | cons c as ih =>
      rw [List.foldl_cons, ih, lastItem_cons]
      cases lastItem as a with
      | some b => rfl
      | none => rw [reports_withAttribute]; cases a.sameItem c <;> rfl

end Mailbox

variable {parse : ParseResponse} {c : Command} {rs : List Response}

section Status

variable (mailboxName : Str)

def Mailbox.withStatus (m : Mailbox) (r : Response) : Mailbox :=
  (statusItems mailboxName r).foldl withAttribute m

theorem statusItems_of_takes {r : Response}
    (h : Command.takes (.status mailboxName []) r = true) :
    ∃ attributes, r = .mailboxData (.status mailboxName attributes) ∧
      statusItems mailboxName r = attributes := by
  cases r with
  | mailboxData m =>
      cases m with
      | status theirs attributes =>
          obtain rfl : theirs = mailboxName := of_decide_eq_true h
          exact ⟨attributes, rfl, if_pos rfl⟩
      | _ => cases h
  | _ => cases h

theorem statusItems_of_not_takes {r : Response}
    (h : Command.takes (.status mailboxName []) r = false) : statusItems mailboxName r = [] := by
  cases r with
  | mailboxData m =>
      cases m with
      | status theirs attributes => exact if_neg (of_decide_eq_false h)
      | _ => rfl
  | _ => rfl

/-- What the loop of `parse_status` makes of a response that it takes. -/
def statusTaken (a : Mailbox × Bool) (r : Response) : Mailbox × Bool :=
  (a.1.withStatus mailboxName r, a.2 || Command.takes (.status mailboxName []) r)

def Intake.status : Intake (Mailbox × Bool) :=
  .own (Command.takes (.status mailboxName [])) (statusTaken mailboxName)

/-- What `parse_status` returns. -/
def statusResult (a : Mailbox × Bool) : Except Fault Mailbox :=
  if a.2 then .ok a.1 else .error (.err .missingStatusResponse)

theorem Intake.follows_status :
    (status mailboxName).Follows fun a r => statusStep mailboxName a r [] := by
  refine Intake.follows_own (fun a r hr => ?_) fun a r hr => .inl ?_
  · obtain ⟨attributes, rfl, hitems⟩ := statusItems_of_takes mailboxName hr
    simp [statusStep, statusTaken, Mailbox.withStatus, statusItems, hr]
  · cases r with
    | mailboxData m =>
        cases m with
        | status theirs attributes => exact if_neg (of_decide_eq_false hr)
        | _ => rfl
    | _ => rfl

theorem Intake.status_taken (rs : List Response) :
    (status mailboxName).taken (.empty, false) rs =
      (rs.foldl (Mailbox.withStatus mailboxName) .empty,
        rs.any (Command.takes (.status mailboxName []))) := by
  have split : ∀ a : Mailbox × Bool, rs.foldl (statusTaken mailboxName) a =
      (rs.foldl (Mailbox.withStatus mailboxName) a.1,
        a.2 || rs.any (Command.takes (.status mailboxName []))) := by
    intro a
    induction rs generalizing a with
    | nil => simp
    | cons r rs ih => simp [ih, statusTaken, Bool.or_assoc]
  rw [(status mailboxName).taken_eq fun a r hr => ?_]
  · exact (split (.empty, false)).trans (by rw [Bool.false_or])
  · have hr : Command.takes (.status mailboxName []) r = false := by
      cases htakes : Command.takes (.status mailboxName []) r with
      | false => rfl
      | true => exact absurd (Action.of_take.mpr htakes) hr
    change statusTaken mailboxName a r = a
    simp [statusTaken, Mailbox.withStatus, statusItems_of_not_takes mailboxName hr, hr]

theorem parseStatus_sorts {untagged : Bytes} (h : parse.Splits untagged rs) :
    (Intake.status mailboxName).Sorts (.empty, false) statusResult rs
      (parseStatus parse mailboxName untagged) := by
  refine ((Intake.follows_status mailboxName).loop (fun _ _ _ => rfl) h _).bind fun a q => ?_
  by_cases ha : a.2 = true <;> simp [statusResult, ha]

theorem status_sorts (dataItems : Str) {untagged : Bytes} (h : parse.Splits untagged rs) :
    Command.SortsLike (.status mailboxName dataItems) rs
      (.status mailboxName <$> parseStatus parse mailboxName untagged) := by
  refine ⟨_, Intake.status mailboxName, (.empty, false), _, rfl,
    (parseStatus_sorts mailboxName h).map _, fun _ => ?_⟩
  have take_items : ∀ (m : Mailbox) r a, (m.withStatus mailboxName r).Reports a ↔
      ((statusItems mailboxName r).foldl Mailbox.withAttribute m).Reports a :=
    fun _ _ _ => Iff.rfl
  have all := Mailbox.reports_all take_items rs .empty
  rw [Intake.status_taken, Command.Shown, ← all]
  constructor
  · intro h r hr a ha
    cases htakes : Command.takes (.status mailboxName []) r with
    | false =>
        rw [statusItems_of_not_takes mailboxName htakes] at ha
        cases ha
    | true =>
        obtain ⟨attributes, rfl, hitems⟩ := statusItems_of_takes mailboxName htakes
        obtain ⟨v, hv, hshows⟩ := h _ hr (by simp [tryFrom]) (Action.of_take.mpr htakes)
        rw [statusResult] at hv
        split at hv
        · cases hv
          exact hshows.2 a (hitems ▸ ha)
        · cases hv
  · intro h r hr _ htake
    have htakes : Command.takes (.status mailboxName []) r = true := Action.of_take.mp htake
    obtain ⟨attributes, rfl, hitems⟩ := statusItems_of_takes mailboxName htakes
    have any : rs.any (Command.takes (.status mailboxName [])) = true :=
      List.any_eq_true.mpr ⟨_, hr, htakes⟩
    have value : statusResult (rs.foldl (Mailbox.withStatus mailboxName) .empty,
        rs.any (Command.takes (.status mailboxName []))) = .ok _ := if_pos any
    exact ⟨_, congrArg (Except.map _) value, rfl, fun a ha => h _ hr a (hitems.symm ▸ ha)⟩

end Status

section Select

variable {lines : Bytes} {tag : Str} {code : Option ResponseCode} {information : Option Str}

/-- What `parse_mailbox` makes of a response that it takes. -/
def Mailbox.withResponse (m : Mailbox) : Response → Mailbox
  | .done _ .ok (some .readOnly) _ => { m with isReadOnly := true }
  | .data .ok code _ => m.withCode code
  | .mailboxData (.exists_ e) => { m with exists_ := e }
  | .mailboxData (.recent n) => { m with recent := n }
  | .mailboxData (.flags flags) => { m with flags := m.flags ++ Flag.fromStrs flags }
  | _ => m

theorem Mailbox.reports_withResponse (m : Mailbox) (r : Response) (a : StatusAttribute) :
    (m.withResponse r).Reports a ↔ ((selectItems r).foldl withAttribute m).Reports a := by
  cases r with
  | done tag status code information =>
      rcases code with - | code
      · cases status <;> exact Iff.rfl
      · cases status <;> first | exact Iff.rfl | (cases code <;> exact Iff.rfl)
  | data status code information =>
      rcases code with - | code
      · cases status <;> exact Iff.rfl
      · cases status <;> first | exact Iff.rfl | (cases code <;> exact Iff.rfl)
  | mailboxData m => cases m <;> exact Iff.rfl
  | _ => exact Iff.rfl

/-- Flags are added, never taken away. -/
theorem Mailbox.withResponse_flags (m : Mailbox) (r : Response) :
    m.flags ⊆ (m.withResponse r).flags ∧
      m.permanentFlags ⊆ (m.withResponse r).permanentFlags := by
  cases r with
  | done tag status code information =>
      rcases code with - | code
      · cases status <;> simp [withResponse]
      · cases status <;> cases code <;> simp [withResponse]
  | data status code information =>
      rcases code with - | code
      · cases status <;> simp [withResponse, withCode]
      · cases status <;> cases code <;> simp [withResponse, withCode]
  | mailboxData datum => cases datum <;> simp [withResponse]
  | _ => simp [withResponse]

theorem Mailbox.mem_flags {fs : List Str} (hr : .mailboxData (.flags fs) ∈ rs) {f : Flag}
    (hf : f ∈ Flag.fromStrs fs) (m : Mailbox) : f ∈ (rs.foldl withResponse m).flags := by
  refine foldl_of_mem (P := fun m : Mailbox => f ∈ m.flags) hr (fun m => ?_) (fun m r _ hm => ?_) m
  · exact List.mem_append_right _ hf
  · exact (m.withResponse_flags r).1 hm

theorem Mailbox.mem_permanentFlags {fs : List Str} {information : Option Str}
    (hr : .data .ok (some (.permanentFlags fs)) information ∈ rs) {f : Flag}
    (hf : f ∈ Flag.fromStrs fs) (m : Mailbox) : f ∈ (rs.foldl withResponse m).permanentFlags := by
  refine foldl_of_mem (P := fun m : Mailbox => f ∈ m.permanentFlags) hr (fun m => ?_)
    (fun m r _ hm => ?_) m
  · exact List.mem_append_right _ hf
  · exact (m.withResponse_flags r).2 hm

def Intake.mailbox : Intake Mailbox where
  action := mailboxAction
  take := Mailbox.withResponse
  accepts r h := by
    cases r with
    | data status code information => cases status <;> cases h
    | done tag status code information => cases status <;> cases h
    | mailboxData m => cases m <;> first | (cases h; done) | simp [tryFrom]
    | expunge n => simp [tryFrom]
    | _ => cases h

theorem Intake.follows_mailbox : mailbox.Follows fun a r => mailboxStep a r [] where
  take a r q h := by
    cases r with
    | data status code information => cases status <;> cases h; rfl
    | done tag status code information =>
        cases status <;> cases h
        rcases code with - | code
        · rfl
        · cases code <;> rfl
    | mailboxData m => cases m <;> first | (cases h; done) | rfl
    | _ => cases h
  queue a r q u h hu := by
    cases r with
    | data status code information => cases status <;> cases h
    | done tag status code information => cases status <;> cases h
    | mailboxData m => cases m <;> cases h; cases hu; rfl
    | expunge n => cases hu; rfl
    | _ => cases h
  fail a r q h := by
    cases r with
    | data status code information => cases status <;> first | (cases h; done) | exact ⟨_, rfl⟩
    | done tag status code information =>
        cases status <;> first | (cases h; done) | exact ⟨_, rfl⟩
    | mailboxData m => cases m <;> cases h
    | expunge n => cases h
    | _ => exact ⟨_, rfl⟩

theorem Intake.mailbox_taken (rs : List Response) (m : Mailbox) :
    mailbox.taken m rs = rs.foldl Mailbox.withResponse m := by
  refine mailbox.taken_eq (fun a r hr => ?_) m rs
  cases r with
  | data status code information => cases status <;> first | rfl | exact absurd rfl hr
  | done tag status code information => cases status <;> first | rfl | exact absurd rfl hr
  | mailboxData m => cases m <;> first | rfl | exact absurd rfl hr
  | _ => rfl

/-- A response that is not one of those to show fills nothing in. -/
theorem selectItems_of_not_taken {r : Response}
    (h : ¬(tryFrom r ≠ none ∧ mailboxAction r = .take)) :
    hasPlace r = true ∧ selectItems r = [] := by
  cases r with
  | data status code information =>
      cases status <;> first | exact ⟨rfl, rfl⟩ | exact absurd ⟨by simp [tryFrom], rfl⟩ h
  | mailboxData m =>
      cases m <;> first | exact ⟨rfl, rfl⟩ | exact absurd ⟨by simp [tryFrom], rfl⟩ h
  | _ => exact ⟨rfl, rfl⟩

theorem Value.mailbox_shows {m : Mailbox} {r : Response}
    (hflags : ∀ fs, r = .mailboxData (.flags fs) → ∀ f ∈ Flag.fromStrs fs, f ∈ m.flags)
    (hpermanent : ∀ fs information, r = .data .ok (some (.permanentFlags fs)) information →
      ∀ f ∈ Flag.fromStrs fs, f ∈ m.permanentFlags) :
    (tryFrom r ≠ none → mailboxAction r = .take → (Value.mailbox m).Shows r) ↔
      hasPlace r = true ∧ ∀ a ∈ selectItems r, m.Reports a := by
  by_cases htaken : tryFrom r ≠ none ∧ mailboxAction r = .take
  · simp only [htaken.1, htaken.2, ne_eq, not_false_eq_true, true_implies]
    obtain ⟨haccepted, htake⟩ := htaken
    cases r with
    | data status code information =>
        cases status <;> cases htake
        rcases code with - | code
        · simp [Shows, hasPlace, selectItems]
        · cases code <;> simp [Shows, hasPlace, selectItems]
          exact hpermanent _ _ rfl
    | mailboxData m =>
        cases m <;> first | (cases htake; done) | cases haccepted rfl |
          simp [Shows, hasPlace, selectItems]
        exact hflags _ rfl
    | _ => first | cases htake | cases haccepted rfl
  · obtain ⟨hplace, hitems⟩ := selectItems_of_not_taken htaken
    refine iff_of_true (fun haccepted htake => absurd ⟨haccepted, htake⟩ htaken) ⟨hplace, ?_⟩
    simp [hitems]

theorem mailboxStep_rest (m : Mailbox) (r : Response) (rest : Bytes)
    (h : r.isDone = false ∨ rest = []) : mailboxStep m r rest = mailboxStep m r [] := by
  rcases h with hr | rfl
  · cases r <;> first | rfl | cases hr
  · rfl

/-- What `parse_mailbox` returns shows all it took exactly if it was given no two different
values of an item and has a place for everything. -/
theorem Value.mailbox_shows_all (rs : List Response) (tag : Str) (code : Option ResponseCode)
    (information : Option Str) :
    (∀ r ∈ rs, tryFrom r ≠ none → mailboxAction r = .take →
      (Value.mailbox ((rs.foldl Mailbox.withResponse .empty).withResponse
        (.done tag .ok code information))).Shows r) ↔
      Consistent (rs.flatMap selectItems) ∧ ∀ r ∈ rs, hasPlace r = true := by
  let all := (rs.foldl Mailbox.withResponse .empty).withResponse (.done tag .ok code information)
  have last : all.flags = (rs.foldl Mailbox.withResponse .empty).flags ∧
      all.permanentFlags = (rs.foldl Mailbox.withResponse .empty).permanentFlags := by
    rcases code with - | code
    · exact ⟨rfl, rfl⟩
    · cases code <;> exact ⟨rfl, rfl⟩
  have flags : ∀ r ∈ rs, ∀ fs, r = .mailboxData (.flags fs) →
      ∀ f ∈ Flag.fromStrs fs, f ∈ all.flags := by
    rintro _ hr fs rfl f hf
    rw [last.1]
    exact Mailbox.mem_flags hr hf .empty
  have permanent : ∀ r ∈ rs, ∀ fs information,
      r = .data .ok (some (.permanentFlags fs)) information →
      ∀ f ∈ Flag.fromStrs fs, f ∈ all.permanentFlags := by
    rintro _ hr fs information rfl f hf
    rw [last.2]
    exact Mailbox.mem_permanentFlags hr hf .empty
  have items := Mailbox.reports_all Mailbox.reports_withResponse rs .empty
  have each : ∀ r ∈ rs, ((tryFrom r ≠ none → mailboxAction r = .take →
      (Value.mailbox all).Shows r) ↔
      hasPlace r = true ∧ ∀ a ∈ selectItems r, all.Reports a) := fun r hr =>
    Value.mailbox_shows (flags r hr) (permanent r hr)
  have reports : ∀ a, all.Reports a ↔ (rs.foldl Mailbox.withResponse .empty).Reports a := by
    intro a
    exact Mailbox.reports_withResponse _ _ a
  rw [← items]
  refine (forall₂_congr each).trans ?_
  simp only [reports]
  exact ⟨fun h => ⟨fun r hr => (h r hr).2, fun r hr => (h r hr).1⟩,
    fun h r hr => ⟨h.2 r hr, h.1 r hr⟩⟩

theorem select_sorts (hc : c.action = mailboxAction)
    (hshown : c.Shown rs ↔ Command.Shown (.select []) rs)
    (hrs : ∀ r ∈ rs, r.isDone = false)
    (h : parse.Splits lines (rs ++ [.done tag .ok code information])) :
    c.SortsLike rs (.mailbox <$> parseMailbox parse lines) := by
  have loop := Intake.follows_mailbox.loop_last mailboxStep_rest h hrs .empty
  have sorts := (loop.bind (f := fun a => pure (Value.mailbox a)) fun _ _ => rfl).last rfl
  rw [parseMailbox, forResponses1, if_neg (lines_ne_nil h), Exec.map_eq_bind]
  refine ⟨_, .mailbox, .empty, _, hc.symm, sorts, fun _ => ?_⟩
  rw [hshown, Intake.mailbox_taken, hc, Command.Shown]
  simp only [Except.ok.injEq, exists_eq_left']
  exact Value.mailbox_shows_all rs tag code information

end Select

section Extended

/-- The mailbox made of the last status there is, if there is one. -/
def statusMailbox (m : Option Mailbox) (rs : List Response) : Option Mailbox :=
  match lastStatus rs with
  | some attributes => some (attributes.foldl Mailbox.withAttribute .empty)
  | none => m

theorem statusMailbox_append (m : Option Mailbox) (rs rs' : List Response) :
    statusMailbox m (rs ++ rs') = statusMailbox (statusMailbox m rs) rs' := by
  simp only [statusMailbox, lastStatus, List.filterMap_append, List.getLast?_append]
  split <;> split <;> simp_all

theorem statusMailbox_none {rs : List Response} {m : Mailbox} :
    statusMailbox none rs = some m ↔
      ∃ last, lastStatus rs = some last ∧ last.foldl Mailbox.withAttribute .empty = m := by
  unfold statusMailbox
  split <;> simp_all

def Extending.with (a : Extending) : Response → Extending
  | .mailboxData (.list attributes delimiter name) =>
      match a.currentName with
      | some current =>
          ⟨a.names ++ [(current, a.currentMailbox)], some ⟨attributes, delimiter, name⟩, none⟩
      | none => { a with currentName := some ⟨attributes, delimiter, name⟩ }
  | .mailboxData (.status _ status) =>
      { a with currentMailbox := some (status.foldl Mailbox.withAttribute .empty) }
  | _ => a

def Extending.finish (a : Extending) : List (Name × Option Mailbox) :=
  match a.currentName with
  | some current => a.names ++ [(current, a.currentMailbox)]
  | none => a.names

/-- An entry by the text of its name. -/
def entryOf (e : Name × Option Mailbox) : Str × Option Mailbox := (e.1.name, e.2)

def sectionOf (s : Str × List Response) : Str × Option Mailbox := (s.1, statusMailbox none s.2)

theorem exists_of_isList {r : Response} (h : isList r = true) :
    ∃ attributes delimiter name, r = .mailboxData (.list attributes delimiter name) := by
  cases r with
  | mailboxData m => cases m <;> first | exact ⟨_, _, _, rfl⟩ | cases h
  | _ => cases h

section NotList

variable {r : Response} (h : isList r = false)

include h

theorem laterSections_skip (rs : List Response) : laterSections (r :: rs) = laterSections rs := by
  cases r with
  | mailboxData m => cases m <;> first | rfl | cases h
  | _ => rfl

theorem listSections_skip (before rs : List Response) :
    listSections before (r :: rs) = listSections (before ++ [r]) rs := by
  cases r with
  | mailboxData m => cases m <;> first | rfl | cases h
  | _ => rfl

theorem Extending.with_skip (a : Extending) :
    a.with r = { a with currentMailbox := statusMailbox a.currentMailbox [r] } := by
  cases r with
  | mailboxData m => cases m <;> first | rfl | cases h
  | _ => rfl

end NotList

theorem Extending.finish_some (names : List (Name × Option Mailbox)) (n : Name)
    (m : Option Mailbox) (rs : List Response) :
    (rs.foldl Extending.with ⟨names, some n, m⟩).finish.map entryOf =
      names.map entryOf ++ (n.name, statusMailbox m (rs.takeWhile fun r => !isList r)) ::
        (laterSections rs).map sectionOf := by
  induction rs generalizing names n m with
  | nil => simp [finish, entryOf, statusMailbox, lastStatus, laterSections]
  | cons r rs ih =>
      cases h : isList r with
      | true =>
          obtain ⟨attributes, delimiter, name, rfl⟩ := exists_of_isList h
          rw [List.foldl_cons, Extending.with, ih]
          simp [List.takeWhile, isList, laterSections, entryOf, sectionOf, statusMailbox,
            lastStatus]
      | false =>
          rw [List.foldl_cons, with_skip h, ih, laterSections_skip h, ← statusMailbox_append]
          simp [List.takeWhile, h]

theorem Extending.finish_none {m : Option Mailbox} {before : List Response}
    (hm : m = statusMailbox none before) (rs : List Response) :
    (rs.foldl Extending.with ⟨[], none, m⟩).finish.map entryOf =
      (listSections before rs).map sectionOf := by
  induction rs generalizing m before with
  | nil => rfl
  | cons r rs ih =>
      cases h : isList r with
      | true =>
          obtain ⟨attributes, delimiter, name, rfl⟩ := exists_of_isList h
          rw [List.foldl_cons, Extending.with, finish_some, hm]
          simp [listSections, sectionOf, statusMailbox_append]
      | false =>
          rw [List.foldl_cons, with_skip h, listSections_skip h]
          exact ih (by rw [hm, statusMailbox_append])

/-- A parser that takes the statuses of all mailboxes. -/
def Intake.extended : Intake Extending :=
  .own (Command.takes (.listStatus none none [])) Extending.with

theorem Intake.follows_extended : extended.Follows fun a r => extendedNamesStep a r [] := by
  refine Intake.follows_own (fun a r hr => ?_) fun a r hr => .inl ?_
  all_goals
    cases r with
    | mailboxData m =>
        cases m <;> first | (cases hr; done) | rfl |
          (rcases a with ⟨names, - | current, m⟩ <;> rfl)
    | _ => first | rfl | cases hr

theorem Intake.extended_taken (a : Extending) (rs : List Response) :
    extended.taken a rs = rs.foldl Extending.with a := by
  refine extended.taken_eq (fun a r hr => ?_) a rs
  cases r with
  | mailboxData m => cases m <;> first | rfl | exact absurd rfl hr
  | _ => rfl

theorem parseExtendedNames_sorts {untagged : Bytes} (h : parse.Splits untagged rs) :
    Intake.extended.Sorts ⟨[], none, none⟩ (fun a => .ok a.finish) rs
      (parseExtendedNames parse untagged) := by
  refine (Intake.follows_extended.loop (fun _ _ _ => rfl) h _).bind fun a q => ?_
  rcases a with ⟨names, - | current, m⟩ <;> rfl

theorem listStatus_sorts (referenceName mailboxPattern : Option Str) (dataItems : Str)
    {untagged : Bytes} (h : parse.Splits untagged rs) :
    Command.SortsLike (.listStatus referenceName mailboxPattern dataItems) rs
      (.extendedNames <$> parseExtendedNames parse untagged) := by
  refine ⟨_, Intake.extended, _, _, rfl, (parseExtendedNames_sorts h).map _, fun _ => ?_⟩
  have entries := Extending.finish_none (show none = statusMailbox none [] from rfl) rs
  have mem : ∀ theirs m, (theirs, some m) ∈ (listSections [] rs).map sectionOf ↔
      ∃ s ∈ listSections [] rs, s.1 = theirs ∧
        ∃ last, lastStatus s.2 = some last ∧ last.foldl Mailbox.withAttribute .empty = m := by
    simp [sectionOf, statusMailbox_none]
  rw [Intake.extended_taken]
  simp only [Except.map, Except.ok.injEq, exists_eq_left']
  constructor
  · intro h theirs attributes hr
    obtain ⟨name, m, hentry, hname, hreports⟩ := h _ hr (by simp [tryFrom]) rfl
    have hmem : (theirs, some m) ∈ (listSections [] rs).map sectionOf := by
      rw [← entries]
      exact List.mem_map.mpr ⟨_, hentry, by simp [entryOf, hname]⟩
    obtain ⟨s, hs, htheirs, last, hlast, rfl⟩ := (mem _ _).mp hmem
    exact ⟨s, hs, htheirs, last, hlast, hreports⟩
  · intro h r hr haccepted htake
    have shows : ∀ theirs attributes, .mailboxData (.status theirs attributes) ∈ rs →
        (Value.extendedNames (rs.foldl Extending.with ⟨[], none, none⟩).finish).Shows
          (.mailboxData (.status theirs attributes)) := by
      intro theirs attributes hr
      obtain ⟨s, hs, htheirs, last, hlast, hreports⟩ := h theirs attributes hr
      have hmem := (mem theirs _).mpr ⟨s, hs, htheirs, last, hlast, rfl⟩
      rw [← entries] at hmem
      obtain ⟨⟨name, m⟩, hentry, heq⟩ := List.mem_map.mp hmem
      cases heq
      exact ⟨name, _, hentry, rfl, hreports⟩
    have htake := Action.of_take.mp htake
    cases r with
    | mailboxData m =>
        cases m with
        | status theirs attributes => exact shows theirs attributes hr
        | list => exact absurd rfl haccepted
        | _ => cases htake
    | _ => cases htake

end Extended

end RustImap
