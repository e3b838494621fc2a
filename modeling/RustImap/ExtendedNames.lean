import RustImap.MailboxSorting
import RustImap.Simulation

/-!
`LIST` with statuses beside plain `LIST` and `STATUS`.

The parser of the one keeps a name back until it has seen what belongs to it, the parser of
the other adds a name at once. The names are the same at every moment if the one kept back
is counted, and of what is queued only the statuses differ.
-/

namespace RustImap

open UnsolicitedResponse (tryFrom)

/-- An entry of the queue that is not the status of a mailbox. -/
def UnsolicitedResponse.notStatus : UnsolicitedResponse → Bool
  | .status _ _ => false
  | _ => true

/-- What two parsers have appended to their queues differs in the statuses only. -/
def SameButStatuses (q q' q1 q2 : Queue) : Prop :=
  ∃ added, q1 = q ++ added ∧ q2 = q' ++ added.filter UnsolicitedResponse.notStatus

/-- The names found so far, with the one kept back. -/
def Extending.found (a : Extending) : List Name := a.names.map Prod.fst ++ a.currentName.toList

/-- What the parser of `LIST` has collected while that of `LIST-STATUS` is at `a`. -/
def SameNames (into : List Name × List Unit) (a : Extending) : Prop :=
  into = (a.found, [])

section Refines

variable {parse : ParseResponse} {q q' : Queue}

theorem handleUnilateral_simulates {r : Response} (hr : ∀ m as, r ≠ .mailboxData (.status m as)) :
    Exec.Simulates (SameButStatuses q q') Eq (handleUnilateral r) (handleUnilateral r) := by
  rintro q1 q2 ⟨added, rfl, rfl⟩
  simp only [handleUnilateral, tryHandleUnilateral, Exec.bind_apply]
  cases hu : tryFrom r with
  | none => exact ⟨.error _, added, rfl, rfl⟩
  | some u =>
      refine ⟨.ok rfl, added ++ [u], by simp, ?_⟩
      have keep : u.notStatus = true := by
        cases u <;> first
          | rfl
          | exact absurd (UnsolicitedResponse.response_tryFrom hu).symm (hr _ _)
      simp [keep]

theorem loopResponses_simulates {A B : Type} {R : A → B → Prop}
    {body : A → Response → Bytes → Collect A} {body' : B → Response → Bytes → Collect B}
    {I : Queue → Queue → Prop}
    (h : ∀ a b r rest, R a b → Exec.Simulates I R (body a r rest) (body' b r rest))
    (turns : Nat) {a : A} {b : B} (hab : R a b) (lines : Bytes) :
    Exec.Simulates I R (loopResponses parse body turns a lines)
      (loopResponses parse body' turns b lines) := by
  induction turns generalizing a b lines with
  | zero => exact .pure hab
  | succ turns ih =>
      rw [loopResponses, loopResponses]
      split
      · exact .pure hab
      · cases parse.run lines with
        | ok rest r => exact (h a b r rest hab).bind fun a b hab => ih hab rest
        | incomplete | error => exact .fail _

/-- One response, seen by both parsers. -/
theorem extendedNamesStep_simulates {into : List Name × List Unit} {a : Extending}
    (h : SameNames into a) (r : Response) (rest : Bytes) :
    Exec.Simulates (SameButStatuses q q') SameNames
      (collect2 (fun r => (nameItem r).map MapOrNot.toMapOrNot2) into r rest)
      (extendedNamesStep a r rest) := by
  subst h
  have other : ∀ r, (∀ m as, r ≠ .mailboxData (.status m as)) → nameItem r = .ok (.not r) →
      (extendedNamesStep a r rest = do handleUnilateral r; pure a) →
      Exec.Simulates (SameButStatuses q q') SameNames
        (collect2 (fun r => (nameItem r).map MapOrNot.toMapOrNot2) (a.found, []) r rest)
        (extendedNamesStep a r rest) := by
    intro r hr hmap hstep
    have hnot : (nameItem r).map MapOrNot.toMapOrNot2 = .ok (.not r) := by rw [hmap]; rfl
    have hnames : collect2 (fun r => (nameItem r).map MapOrNot.toMapOrNot2) (a.found, []) r rest =
        (do handleUnilateral r; pure (a.found, [])) :=
      collect2_rest (fun r => (nameItem r).map MapOrNot.toMapOrNot2) hnot (a.found, [])
    rw [hstep, hnames]
    exact (handleUnilateral_simulates hr).bind fun _ _ _ => .pure rfl
  cases r with
  | mailboxData m =>
      cases m with
      | list attributes delimiter name =>
          rcases a with ⟨names, - | current, m⟩
          · exact .pure (by simp [SameNames, Extending.found])
          · exact .pure (by simp [SameNames, Extending.found])
      | status mailbox attributes =>
          rintro q1 q2 ⟨added, rfl, rfl⟩
          refine ⟨.ok rfl, added ++ [.status mailbox attributes], ?_, ?_⟩
          · exact List.append_assoc q added _
          · simp [UnsolicitedResponse.notStatus, extendedNamesStep]
      | _ => exact other _ nofun rfl rfl
  | _ => exact other _ nofun rfl rfl

/-- `LIST-STATUS` finds the names that `LIST` finds, fails as it fails and queues what it
queues, apart from the statuses. -/
theorem parseExtendedNames_refines (parse : ParseResponse) (lines : Bytes) (q : Queue) :
    (parseExtendedNames parse lines q).1.map (List.map Prod.fst) = (parseNames parse lines q).1 ∧
      ∃ added, (parseNames parse lines q).2 = q ++ added ∧
        (parseExtendedNames parse lines q).2 =
          q ++ added.filter UnsolicitedResponse.notStatus := by
  have loop : Exec.Simulates (SameButStatuses q q) SameNames
      (parseManyInto2 parse (fun r => (nameItem r).map MapOrNot.toMapOrNot2) lines [] [])
      (forResponses parse extendedNamesStep ⟨[], none, none⟩ lines) :=
    loopResponses_simulates (fun _ _ r rest h => extendedNamesStep_simulates h r rest)
      lines.length (show SameNames ([], []) ⟨[], none, none⟩ from rfl) lines
  have whole : Exec.Simulates (SameButStatuses q q)
      (fun names entries => entries.map Prod.fst = names)
      (parseNames parse lines) (parseExtendedNames parse lines) := by
    refine loop.bind fun into a h => ?_
    subst h
    rcases a with ⟨names, - | current, m⟩
    · exact .pure (by simp [Extending.found])
    · exact .pure (by simp [Extending.found])
  obtain ⟨hagree, hqueue⟩ := whole q q ⟨[], by simp, by simp⟩
  refine ⟨?_, hqueue⟩
  generalize (parseNames parse lines q).1 = found at hagree ⊢
  generalize (parseExtendedNames parse lines q).1 = entries at hagree ⊢
  cases hagree with
  | ok h => exact congrArg Except.ok h
  | error e => rfl

end Refines

section Attribution

/-- The response lists the mailbox. -/
def lists (n : Str) : Response → Bool
  | .mailboxData (.list _ _ name) => name = n
  | _ => false

def isStatusDatum : Response → Bool
  | .mailboxData (.status _ _) => true
  | _ => false

/-- What goes with a name that stands between the responses `pre` and `post`: what comes up
to the next name, and for the first name what comes before it. -/
def sectionAround (pre post : List Response) : List Response :=
  (if pre.any isList then [] else pre) ++ post.takeWhile fun r => !isList r

/-- What the entries pair with the name. -/
def pairedWith (n : Str) (entries : List (Name × Option Mailbox)) : List (Option Mailbox) :=
  (entries.filter fun e => e.1.name = n).map Prod.snd

/-- What status items say about an item: the last of its values. A count that is not given is
zero. -/
def Tells (as : List StatusAttribute) (a : StatusAttribute) : Prop :=
  match Mailbox.lastItem as a with
  | some b => a = b
  | none => a = .messages 0 ∨ a = .recent 0

section Sections

variable {n : Str} {pre post : List Response} {attributes : List NameAttribute}
  {delimiter : Option Str}

theorem laterSections_none (h : ∀ r ∈ post, lists n r = false) :
    (laterSections post).filter (fun s => s.1 = n) = [] := by
  induction post with
  | nil => rfl
  | cons r post ih =>
      have later := ih fun r' hr' => h r' (List.mem_cons_of_mem r hr')
      cases hr : isList r with
      | true =>
          obtain ⟨attributes, delimiter, name, rfl⟩ := exists_of_isList hr
          have other : ¬name = n := of_decide_eq_false (h _ List.mem_cons_self)
          simpa [laterSections, other] using later
      | false => rw [laterSections_skip hr, later]

theorem laterSections_one (h : ∀ r ∈ pre ++ post, lists n r = false) :
    (laterSections (pre ++ .mailboxData (.list attributes delimiter n) :: post)).filter
      (fun s => s.1 = n) = [(n, post.takeWhile fun r => !isList r)] := by
  induction pre with
  | nil => simpa [laterSections] using laterSections_none h
  | cons r pre ih =>
      have later := ih fun r' hr' => h r' (List.mem_cons_of_mem r hr')
      cases hr : isList r with
      | true =>
          obtain ⟨attributes, delimiter, name, rfl⟩ := exists_of_isList hr
          have other : ¬name = n := of_decide_eq_false (h _ List.mem_cons_self)
          simpa [laterSections, other] using later
      | false => rw [List.cons_append, laterSections_skip hr, later]

variable (attributes delimiter) in
theorem listSections_one (h : ∀ r ∈ pre ++ post, lists n r = false) (before : List Response) :
    (listSections before (pre ++ .mailboxData (.list attributes delimiter n) :: post)).filter
      (fun s => s.1 = n) =
        [(n, (if pre.any isList then [] else before ++ pre) ++
          post.takeWhile fun r => !isList r)] := by
  induction pre generalizing before with
  | nil => simpa [listSections] using laterSections_none h
  | cons r pre ih =>
      have rest := fun r' hr' => h r' (List.mem_cons_of_mem r hr')
      cases hr : isList r with
      | true =>
          obtain ⟨attributes, delimiter, name, rfl⟩ := exists_of_isList hr
          have other : ¬name = n := of_decide_eq_false (h _ List.mem_cons_self)
          simpa [listSections, other, isList] using laterSections_one rest
      | false =>
          rw [List.cons_append, listSections_skip hr, ih rest]
          simp [hr]

end Sections

theorem pairedWith_eq (n : Str) (entries : List (Name × Option Mailbox)) :
    pairedWith n entries = ((entries.map entryOf).filter fun e => e.1 = n).map Prod.snd := by
  rw [List.filter_map, List.map_map]
  rfl

/-- The code goes by the place of a status, not by its name. -/
theorem pairedWith_finish {n : Str} {pre post : List Response} (attributes : List NameAttribute)
    (delimiter : Option Str) (h : ∀ r ∈ pre ++ post, lists n r = false) :
    pairedWith n ((pre ++ .mailboxData (.list attributes delimiter n) :: post).foldl Extending.with
      ⟨[], none, none⟩).finish = [statusMailbox none (sectionAround pre post)] := by
  have entries := Extending.finish_none (show none = statusMailbox none [] from rfl)
    (pre ++ .mailboxData (.list attributes delimiter n) :: post)
  have one := listSections_one attributes delimiter h []
  rw [pairedWith_eq, entries, List.filter_map]
  have same : ((fun e : Str × Option Mailbox => decide (e.1 = n)) ∘ sectionOf) =
      fun s => decide (s.1 = n) := rfl
  rw [same, one]
  simp [sectionOf, sectionAround]

section Statuses

variable {n : Str} {rs : List Response}

theorem Mailbox.foldl_withStatus (n : Str) (rs : List Response) (m : Mailbox) :
    rs.foldl (Mailbox.withStatus n) m =
      (rs.flatMap (statusItems n)).foldl Mailbox.withAttribute m := by
  rw [List.foldl_flatMap]
  rfl

theorem flatMap_statusItems (n : Str) (rs : List Response) :
    (rs.filter isStatusDatum).flatMap (statusItems n) = rs.flatMap (statusItems n) := by
  induction rs with
  | nil => rfl
  | cons r rs ih =>
      cases hr : isStatusDatum r with
      | true => simp [hr, ih]
      | false =>
          have nothing : statusItems n r = [] := by
            cases r with
            | mailboxData m => cases m <;> first | rfl | cases hr
            | _ => rfl
          simp [hr, ih, nothing]

theorem any_takes_status :
    (rs.filter isStatusDatum).any (Command.takes (.status n [])) = true ↔
      ∃ attributes, .mailboxData (.status n attributes) ∈ rs := by
  rw [List.any_eq_true]
  constructor
  · rintro ⟨r, hr, htakes⟩
    obtain ⟨attributes, rfl, -⟩ := statusItems_of_takes n htakes
    exact ⟨attributes, (List.mem_filter.mp hr).1⟩
  · rintro ⟨attributes, hr⟩
    exact ⟨_, List.mem_filter.mpr ⟨hr, rfl⟩, decide_eq_true rfl⟩

/-- `parse_status` on the statuses among the responses. -/
theorem parseStatus_statuses {parse : ParseResponse} {statuses : Bytes}
    (h : parse.Splits statuses (rs.filter isStatusDatum))
    (hn : ∃ attributes, .mailboxData (.status n attributes) ∈ rs) (q : Queue) :
    (parseStatus parse n statuses q).1 =
      .ok ((rs.flatMap (statusItems n)).foldl Mailbox.withAttribute .empty) := by
  have hpass : ∀ r ∈ rs.filter isStatusDatum, (Intake.status n).action r ≠ .fail := by
    intro r hr hfail
    have haccepted := (Action.of_fail.mp hfail).2
    have hstatus := (List.mem_filter.mp hr).2
    cases r with
    | mailboxData m => cases m <;> first | (cases haccepted; done) | cases hstatus
    | _ => cases hstatus
  rw [(parseStatus_sorts n h).passes hpass q, Intake.status_taken, Mailbox.foldl_withStatus,
    flatMap_statusItems]
  exact if_pos (any_takes_status.mpr hn)

end Statuses

theorem Mailbox.ext_reports {m m' : Mailbox} (h : ∀ a, m.Reports a ↔ m'.Reports a)
    (hflags : m.flags = m'.flags) (hpermanent : m.permanentFlags = m'.permanentFlags)
    (hreadOnly : m.isReadOnly = m'.isReadOnly) : m = m' := by
  obtain ⟨flags, exists_, recent, unseen, permanentFlags, uidNext, uidValidity, highestModSeq,
    isReadOnly⟩ := m
  obtain rfl : exists_ = m'.exists_ := ((h (.messages exists_)).mp rfl).symm
  obtain rfl : recent = m'.recent := ((h (.recent recent)).mp rfl).symm
  obtain rfl : unseen = m'.unseen := Option.ext fun v => h (.unseen v)
  obtain rfl : uidNext = m'.uidNext := Option.ext fun v => h (.uidNext v)
  obtain rfl : uidValidity = m'.uidValidity := Option.ext fun v => h (.uidValidity v)
  obtain rfl : highestModSeq = m'.highestModSeq := Option.ext fun v => h (.highestModSeq v)
  obtain rfl := hflags
  obtain rfl := hpermanent
  obtain rfl := hreadOnly
  rfl

theorem Mailbox.withAttribute_flags (as : List StatusAttribute) (m : Mailbox) :
    (as.foldl withAttribute m).flags = m.flags ∧
      (as.foldl withAttribute m).permanentFlags = m.permanentFlags ∧
      (as.foldl withAttribute m).isReadOnly = m.isReadOnly := by
  induction as generalizing m with
  | nil => exact ⟨rfl, rfl, rfl⟩
  | cons a as ih =>
      obtain ⟨hflags, hpermanent, hreadOnly⟩ := ih (m.withAttribute a)
      rw [List.foldl_cons, hflags, hpermanent, hreadOnly]
      cases a <;> exact ⟨rfl, rfl, rfl⟩

theorem reports_iff_tells (as : List StatusAttribute) (a : StatusAttribute) :
    (as.foldl Mailbox.withAttribute .empty).Reports a ↔ Tells as a := by
  rw [Mailbox.reports_foldl_iff, Tells]
  cases Mailbox.lastItem as a with
  | some b => rfl
  | none => cases a <;> simp [Mailbox.Reports, Mailbox.empty, eq_comm]

theorem foldl_eq_iff_tells (as bs : List StatusAttribute) :
    as.foldl Mailbox.withAttribute .empty = bs.foldl Mailbox.withAttribute .empty ↔
      ∀ a, Tells as a ↔ Tells bs a := by
  constructor
  · intro h a
    rw [← reports_iff_tells, h, reports_iff_tells]
  · intro h
    obtain ⟨hflags, hpermanent, hreadOnly⟩ := Mailbox.withAttribute_flags as .empty
    obtain ⟨hflags', hpermanent', hreadOnly'⟩ := Mailbox.withAttribute_flags bs .empty
    refine Mailbox.ext_reports (fun a => ?_) (hflags.trans hflags'.symm)
      (hpermanent.trans hpermanent'.symm) (hreadOnly.trans hreadOnly'.symm)
    rw [reports_iff_tells, reports_iff_tells, h a]

/-- The name has one entry. It has a mailbox exactly if the buffer has a status of that name,
and then the one that `parse_status` makes of the statuses. -/
def Attributed (parse : ParseResponse) (n : Str) (rs : List Response) (statuses : Bytes)
    (entries : List (Name × Option Mailbox)) : Prop :=
  ∃ m, pairedWith n entries = [m] ∧
    (m.isSome = true ↔ ∃ attributes, .mailboxData (.status n attributes) ∈ rs) ∧
    ∀ mailbox, m = some mailbox → ∀ q, (parseStatus parse n statuses q).1 = .ok mailbox

/-- The last status in the section of a name tells what all statuses of the name tell, and
there is none where the name has none. -/
def SectionTells (n : Str) (rs part : List Response) : Prop :=
  match lastStatus part with
  | some last => (∃ attributes, .mailboxData (.status n attributes) ∈ rs) ∧
      ∀ a, Tells last a ↔ Tells (rs.flatMap (statusItems n)) a
  | none => ∀ attributes, .mailboxData (.status n attributes) ∉ rs

theorem splits_of_ok {parse : ParseResponse} {A : Type} {body : A → Response → Bytes → Collect A}
    {lines : Bytes} {a b : A} {q q' : Queue}
    (h : forResponses parse body a lines q = (.ok b, q')) : ∃ rs, parse.Splits lines rs := by
  suffices ∀ turns lines a q, lines.length ≤ turns →
      loopResponses parse body turns a lines q = (.ok b, q') → ∃ rs, parse.Splits lines rs from
    this lines.length lines a q (Nat.le_refl _) h
  intro turns
  induction turns with
  | zero =>
      intro lines a q hlen _
      obtain rfl := List.eq_nil_of_length_eq_zero (Nat.le_zero.mp hlen)
      exact ⟨[], .nil⟩
  | succ turns ih =>
      intro lines a q hlen hloop
      rw [loopResponses] at hloop
      split at hloop
      · subst lines
        exact ⟨[], .nil⟩
      · cases hrun : parse.run lines with
        | ok rest r =>
            rw [hrun] at hloop
            obtain ⟨a', q1, -, hrest⟩ := Exec.bind_eq_ok.mp hloop
            have short := parse.shrinks hrun
            obtain ⟨rs, hrs⟩ := ih rest a' q1 (by omega) hrest
            exact ⟨r :: rs, .cons hrun hrs⟩
        | incomplete | error =>
            rw [hrun] at hloop
            cases hloop

/-- A name that is listed once gets the mailbox of its own statuses exactly if its section
tells so. -/
theorem parseExtendedNames_attributes {parse : ParseResponse} {lines : Bytes} {q q' : Queue}
    {entries : List (Name × Option Mailbox)}
    (hrun : parseExtendedNames parse lines q = (.ok entries, q')) :
    ∃ rs, parse.Splits lines rs ∧ ∀ n attributes delimiter pre post,
      rs = pre ++ .mailboxData (.list attributes delimiter n) :: post →
      (∀ r ∈ pre ++ post, lists n r = false) →
      ∀ statuses, parse.Splits statuses (rs.filter isStatusDatum) →
        (Attributed parse n rs statuses entries ↔ SectionTells n rs (sectionAround pre post)) := by
  obtain ⟨a, q1, hloop, -⟩ := Exec.bind_eq_ok.mp hrun
  obtain ⟨rs, hrs⟩ := splits_of_ok hloop
  refine ⟨rs, hrs, ?_⟩
  rintro n attributes delimiter pre post rfl hone statuses hstatuses
  obtain ⟨-, hfinish, -⟩ := (parseExtendedNames_sorts hrs).of_ok hrun
  rw [Intake.extended_taken] at hfinish
  cases hfinish
  have hpaired := pairedWith_finish attributes delimiter hone
  generalize pre ++ .mailboxData (.list attributes delimiter n) :: post = rs at *
  rw [Attributed, hpaired, statusMailbox, SectionTells]
  cases lastStatus (sectionAround pre post) with
  | none =>
      constructor
      · rintro ⟨_, ⟨⟩, hsome, -⟩ attributes hn
        cases hsome.mpr ⟨attributes, hn⟩
      · intro hnone
        refine ⟨none, rfl, iff_of_false (by simp) ?_, fun m hm => by cases hm⟩
        rintro ⟨attributes, hn⟩
        exact hnone attributes hn
  | some last =>
      constructor
      · rintro ⟨_, ⟨⟩, hsome, hvalue⟩
        have hn := hsome.mp rfl
        have same := (hvalue _ rfl []).symm.trans (parseStatus_statuses hstatuses hn [])
        exact ⟨hn, (foldl_eq_iff_tells last _).mp (Except.ok.inj same)⟩
      · rintro ⟨hn, htells⟩
        refine ⟨_, rfl, iff_of_true rfl hn, ?_⟩
        rintro _ ⟨⟩ q
        rw [parseStatus_statuses hstatuses hn q, (foldl_eq_iff_tells last _).mpr htells]

def statusListMessages : List (Bytes × Response) :=
  [(utf8 "* LIST () NIL A\r\n".toList, .mailboxData (.list [] none "A".toList)),
    (utf8 "* STATUS A (MESSAGES 1)\r\n".toList, .mailboxData (.status "A".toList [.messages 1])),
    (utf8 "* STATUS B (MESSAGES 2)\r\n".toList, .mailboxData (.status "B".toList [.messages 2]))]

def statusListParse : ParseResponse := Parser.table statusListMessages (by decide)

theorem parseExtendedNames_attributes_own :
    Attributed statusListParse "A".toList
      [.mailboxData (.list [] none "A".toList), .mailboxData (.status "A".toList [.messages 1])]
      (utf8 "* STATUS A (MESSAGES 1)\r\n".toList)
      [(⟨[], none, "A".toList⟩, some { Mailbox.empty with exists_ := 1 })] := by
  have list : statusListParse.run (utf8 "* LIST () NIL A\r\n* STATUS A (MESSAGES 1)\r\n".toList) =
      .ok (utf8 "* STATUS A (MESSAGES 1)\r\n".toList)
        (.mailboxData (.list [] none "A".toList)) := by
    decide
  have status : statusListParse.run (utf8 "* STATUS A (MESSAGES 1)\r\n".toList) =
      .ok [] (.mailboxData (.status "A".toList [.messages 1])) := by
    decide
  have hrun : parseExtendedNames statusListParse
      (utf8 "* LIST () NIL A\r\n* STATUS A (MESSAGES 1)\r\n".toList) [] =
      (.ok [(⟨[], none, "A".toList⟩, some { Mailbox.empty with exists_ := 1 })], []) := by
    decide
  obtain ⟨rs, hrs, hattributes⟩ := parseExtendedNames_attributes hrun
  obtain rfl := hrs.unique (.cons list (.cons status .nil))
  have hone : ∀ r ∈ [] ++ [Response.mailboxData (.status "A".toList [.messages 1])],
      lists "A".toList r = false := by decide
  refine (hattributes "A".toList [] none [] _ rfl hone _ (.cons status .nil)).mpr ?_
  refine ⟨⟨[.messages 1], by decide⟩, fun a => ?_⟩
  rfl

/-- A status of another mailbox. -/
theorem parseExtendedNames_attributes_fails :
    ¬ ∀ (parse : ParseResponse) (lines : Bytes) (q q' : Queue)
      (entries : List (Name × Option Mailbox)) (rs : List Response) (n : Str)
      (attributes : List NameAttribute) (delimiter : Option Str) (pre post : List Response)
      (statuses : Bytes), parseExtendedNames parse lines q = (.ok entries, q') →
      parse.Splits lines rs → rs = pre ++ .mailboxData (.list attributes delimiter n) :: post →
      (∀ r ∈ pre ++ post, lists n r = false) →
      parse.Splits statuses (rs.filter isStatusDatum) → Attributed parse n rs statuses entries := by
  intro holds
  have list : statusListParse.run (utf8 "* LIST () NIL A\r\n* STATUS B (MESSAGES 2)\r\n".toList) =
      .ok (utf8 "* STATUS B (MESSAGES 2)\r\n".toList)
        (.mailboxData (.list [] none "A".toList)) := by
    decide
  have status : statusListParse.run (utf8 "* STATUS B (MESSAGES 2)\r\n".toList) =
      .ok [] (.mailboxData (.status "B".toList [.messages 2])) := by
    decide
  have hrun : parseExtendedNames statusListParse
      (utf8 "* LIST () NIL A\r\n* STATUS B (MESSAGES 2)\r\n".toList) [] =
      (.ok [(⟨[], none, "A".toList⟩, some { Mailbox.empty with exists_ := 2 })], []) := by
    decide
  have hone : ∀ r ∈ [] ++ [Response.mailboxData (.status "B".toList [.messages 2])],
      lists "A".toList r = false := by decide
  obtain ⟨m, hpaired, hsome, -⟩ := holds _ _ _ _ _ _ _ _ _ _ _ _ hrun
    (.cons list (.cons status .nil)) rfl hone (.cons status .nil)
  cases hpaired
  obtain ⟨attributes, hmem⟩ := hsome.mp rfl
  simp at hmem

end Attribution

end RustImap
