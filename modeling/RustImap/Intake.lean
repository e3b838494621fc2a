import RustImap.Parse

/-!
What the parsers do with the responses of an answer.

A parser takes a response into its result, queues it, or gives up on it, and which of
these it does depends on the response alone. What an answer comes to then follows from
the list of its responses. Nothing is lost exactly if the parser does not give up before
the last response that matters and the result shows every one that was not queued.
-/

namespace RustImap

/-- The response an entry of the queue was made from. -/
def UnsolicitedResponse.response : UnsolicitedResponse → Response
  | .bye code information => .data .bye code information
  | .ok code information => .data .ok code information
  | .expunge n => .expunge n
  | .fetch id attributes => .fetch id attributes
  | .exists_ n => .mailboxData (.exists_ n)
  | .flags fs => .mailboxData (.flags (fs.map Flag.text))
  | .metadata mailbox values => .mailboxData (.metadataUnsolicited mailbox values)
  | .recent n => .mailboxData (.recent n)
  | .status mailbox attributes => .mailboxData (.status mailbox attributes)
  | .vanished earlier uids => .vanished earlier uids

theorem Flag.text_ofStr (s : Str) : (ofStr s).text = s := by
  unfold ofStr system
  repeat' split
  all_goals first | (rename_i h; exact h.symm) | rfl

theorem UnsolicitedResponse.response_tryFrom {r : Response} {u : UnsolicitedResponse}
    (h : tryFrom r = some u) : u.response = r := by
  cases r with
  | data status code information => cases status <;> cases h <;> rfl
  | mailboxData datum =>
      cases datum <;> cases h <;> try rfl
      rename_i flags
      have back : (Flag.fromStrs flags).map Flag.text = flags := by
        simp [Flag.fromStrs, Function.comp_def, Flag.text_ofStr]
      rw [response, back]
  | _ => cases h <;> rfl

theorem UnsolicitedResponse.notDone_tryFrom {r : Response} {u : UnsolicitedResponse}
    (h : tryFrom r = some u) : r.isDone = false := by
  cases r <;> first | rfl | cases h

open UnsolicitedResponse (tryFrom)

/-- Every accepted response of a list is either in the second list or, converted, in the
queue; both keep the order. -/
inductive Divided : List Response → List Response → Queue → Prop
  | nil : Divided [] [] []
  | shown {r : Response} {u : UnsolicitedResponse} {rs shown : List Response} {queued : Queue} :
      tryFrom r = some u → Divided rs shown queued → Divided (r :: rs) (r :: shown) queued
  | queued {r : Response} {u : UnsolicitedResponse} {rs shown : List Response} {queued : Queue} :
      tryFrom r = some u → Divided rs shown queued → Divided (r :: rs) shown (u :: queued)
  | other {r : Response} {rs shown : List Response} {queued : Queue} :
      tryFrom r = none → Divided rs shown queued → Divided (r :: rs) shown queued

/-- No accepted response is lost: each is shown or has been appended to the queue. -/
def Kept (shows : Response → Prop) (rs : List Response) (before after : Queue) : Prop :=
  ∃ shown queued, Divided rs shown queued ∧ after = before ++ queued ∧ ∀ r ∈ shown, shows r

theorem Divided.mem_shown {rs shown : List Response} {queued : Queue}
    (h : Divided rs shown queued) {r : Response} {u : UnsolicitedResponse} (hr : r ∈ rs)
    (hu : tryFrom r = some u) (hout : u ∉ queued) : r ∈ shown := by
  induction h with
  | nil => cases hr
  | shown _ _ ih =>
      rcases List.mem_cons.mp hr with rfl | hr
      · exact List.mem_cons_self
      · exact List.mem_cons_of_mem _ (ih hr hout)
  | queued hfirst _ ih =>
      simp only [List.mem_cons, not_or] at hout
      rcases List.mem_cons.mp hr with rfl | hr
      · rw [hfirst] at hu
        cases hu
        exact absurd rfl hout.1
      · exact ih hr hout.2
  | other hfirst _ ih =>
      rcases List.mem_cons.mp hr with rfl | hr
      · rw [hfirst] at hu
        cases hu
      · exact ih hr hout

/-- With nothing shown, everything accepted is in the queue. -/
theorem Divided.queued_all {rs : List Response} {queued : Queue}
    (h : Divided rs [] queued) : queued = rs.filterMap tryFrom := by
  generalize hs : ([] : List Response) = shown at h
  induction h with
  | nil => rfl
  | shown _ _ _ => cases hs
  | queued hfirst _ ih => rw [List.filterMap_cons_some hfirst, ih hs]
  | other hfirst _ ih => rw [List.filterMap_cons_none hfirst, ih hs]

/-- What every step keeps and the step for one element establishes holds in the end. -/
theorem foldl_of_mem {A B : Type} {P : A → Prop} {f : A → B → A} {b : B} {bs : List B}
    (hb : b ∈ bs) (establishes : ∀ a, P (f a b)) (keeps : ∀ a, ∀ b ∈ bs, P a → P (f a b)) (a : A) :
    P (bs.foldl f a) := by
  induction bs generalizing a with
  | nil => cases hb
  | cons b' bs ih =>
      have keeps' := fun a b hb => keeps a b (List.mem_cons_of_mem b' hb)
      rcases List.mem_cons.mp hb with rfl | hb
      · exact List.foldlRecOn (motive := P) bs f (establishes a) fun a ha b hb => keeps' a b hb ha
      · exact ih hb keeps' _

inductive Action where
  | take
  | queue
  | fail
  deriving DecidableEq

/-- The first response the parser gives up on, with what comes before and after it. -/
def GivesUp (action : Response → Action) (rs pre : List Response) (bad : Response)
    (post : List Response) : Prop :=
  rs = pre ++ bad :: post ∧ (∀ r ∈ pre, action r ≠ .fail) ∧ action bad = .fail

/-- Giving up has cost nothing: of what was accepted before, all was queued, and nothing
that is accepted was left. -/
def GivesUpLate (action : Response → Action) (rs : List Response) : Prop :=
  ∀ pre bad post, GivesUp action rs pre bad post →
    (∀ r ∈ pre, tryFrom r ≠ none → action r = .queue) ∧ ∀ r ∈ bad :: post, tryFrom r = none

theorem exists_givesUp {action : Response → Action} {rs : List Response}
    (h : ∃ r ∈ rs, action r = .fail) : ∃ pre bad post, GivesUp action rs pre bad post := by
  have hnot : ¬ ∀ r ∈ rs, action r ≠ .fail := by
    intro hpass
    obtain ⟨r, hr, hfail⟩ := h
    exact hpass r hr hfail
  obtain ⟨pre, bad, post, heq, hpre, hbad⟩ := exists_first hnot
  exact ⟨pre, bad, post, heq, hpre, not_not.mp hbad⟩

/-- A parser by what it does with a response, and how a response it takes changes the
value it builds. -/
structure Intake (A : Type) where
  action : Response → Action
  take : A → Response → A
  accepts : ∀ r, action r = .queue → tryFrom r ≠ none

namespace Intake

variable {A : Type} (intake : Intake A)

def taken (a : A) (rs : List Response) : A :=
  rs.foldl (fun a r => if intake.action r = .take then intake.take a r else a) a

theorem taken_eq (h : ∀ a r, intake.action r ≠ .take → intake.take a r = a) (a : A)
    (rs : List Response) : intake.taken a rs = rs.foldl intake.take a := by
  refine congrArg (fun f => List.foldl f a rs) ?_
  funext a r
  split
  · rfl
  · rename_i hr
    exact (h a r hr).symm

def queued (rs : List Response) : Queue :=
  (rs.filter fun r => intake.action r = .queue).filterMap tryFrom

/-- The loop body `step` does what `intake` says. -/
structure Follows (step : A → Response → Collect A) : Prop where
  take : ∀ a r q, intake.action r = .take → step a r q = (.ok (intake.take a r), q)
  queue : ∀ a r q u, intake.action r = .queue → tryFrom r = some u →
    step a r q = (.ok a, q ++ [u])
  fail : ∀ a r q, intake.action r = .fail → ∃ e, step a r q = (.error e, q)

/-- The parser `x`, run on the responses `rs`, does what `intake` says and then makes its
result with `result`. -/
structure Sorts {V : Type} (a : A) (result : A → Except Fault V) (rs : List Response)
    (x : Collect V) : Prop where
  passes : (∀ r ∈ rs, intake.action r ≠ .fail) →
    ∀ q, x q = (result (intake.taken a rs), q ++ intake.queued rs)
  stops : ∀ pre bad post, GivesUp intake.action rs pre bad post →
    ∀ q, ∃ e, x q = (.error e, q ++ intake.queued pre)

variable {intake}

theorem queued_cons (r : Response) (rs : List Response) :
    intake.queued (r :: rs) =
      (if intake.action r = .queue then (tryFrom r).toList else []) ++ intake.queued rs := by
  by_cases h : intake.action r = .queue
  · cases hu : tryFrom r with
    | none => exact absurd hu (intake.accepts r h)
    | some u => simp [queued, h, hu]
  · simp [queued, h]

theorem Follows.sorts {step : A → Response → Collect A} (h : intake.Follows step) (a : A)
    (rs : List Response) : intake.Sorts a .ok rs (rs.foldlM step a) where
  passes hpass q := by
    induction rs generalizing a q with
    | nil => simp [taken, queued]
    | cons r rs ih =>
        have hrest := fun r' hr' => hpass r' (List.mem_cons_of_mem r hr')
        rw [List.foldlM_cons, queued_cons]
        cases haction : intake.action r with
        | fail => exact absurd haction (hpass r List.mem_cons_self)
        | take =>
            rw [Exec.bind_ok (h.take a r q haction), ih _ hrest]
            simp [taken, haction]
        | queue =>
            cases hu : tryFrom r with
            | none => exact absurd hu (intake.accepts r haction)
            | some u =>
                rw [Exec.bind_ok (h.queue a r q u haction hu), ih _ hrest]
                simp [taken, haction]
  stops pre bad post := by
    rintro ⟨rfl, hpre, hbad⟩ q
    induction pre generalizing a q with
    | nil =>
        obtain ⟨e, he⟩ := h.fail a bad q hbad
        exact ⟨e, by rw [List.nil_append, List.foldlM_cons, Exec.bind_error he]; simp [queued]⟩
    | cons r pre ih =>
        have hrest := fun r' hr' => hpre r' (List.mem_cons_of_mem r hr')
        rw [List.cons_append, List.foldlM_cons, queued_cons]
        cases haction : intake.action r with
        | fail => exact absurd haction (hpre r List.mem_cons_self)
        | take =>
            rw [Exec.bind_ok (h.take a r q haction)]
            simpa using ih _ hrest q
        | queue =>
            cases hu : tryFrom r with
            | none => exact absurd hu (intake.accepts r haction)
            | some u =>
                rw [Exec.bind_ok (h.queue a r q u haction hu)]
                simpa using ih _ hrest (q ++ [u])

section Loop

variable {parse : ParseResponse} {body : A → Response → Bytes → Collect A}
variable {step : A → Response → Collect A}

theorem Follows.loop (h : intake.Follows step) (hbody : ∀ a r rest, body a r rest = step a r)
    {lines : Bytes} {rs : List Response} (hlines : parse.Splits lines rs) (a : A) :
    intake.Sorts a .ok rs (forResponses parse body a lines) := by
  obtain rfl : body = fun a r _ => step a r := by
    funext a r rest
    exact hbody a r rest
  rw [forResponses_splits parse step hlines]
  exact h.sorts a rs

/-- The loop over a buffer that ends with a tagged response, for a body that looks at what
follows that one. -/
theorem forResponses_last
    (hbody : ∀ a r rest, r.isDone = false ∨ rest = [] → body a r rest = step a r)
    {lines : Bytes} {rs : List Response} {last : Response}
    (hlines : parse.Splits lines (rs ++ [last])) (hrs : ∀ r ∈ rs, r.isDone = false) (a : A) :
    forResponses parse body a lines = (rs ++ [last]).foldlM step a := by
  generalize hall : rs ++ [last] = all at hlines
  induction hlines generalizing rs a with
  | nil => simp at hall
  | @cons i rest r tail hrun hrest ih =>
      rw [forResponses_ok parse _ hrun, List.foldlM_cons]
      cases rs with
      | nil =>
          cases hall
          cases hrest
          rw [hbody a last [] (.inr rfl)]
          rfl
      | cons r' rs =>
          cases hall
          rw [hbody a r rest (.inl (hrs r List.mem_cons_self))]
          simp only [fun a => ih (fun r' hr' => hrs r' (List.mem_cons_of_mem r hr')) a rfl]

theorem Follows.loop_last (h : intake.Follows step)
    (hbody : ∀ a r rest, r.isDone = false ∨ rest = [] → body a r rest = step a r)
    {lines : Bytes} {rs : List Response} {last : Response}
    (hlines : parse.Splits lines (rs ++ [last])) (hrs : ∀ r ∈ rs, r.isDone = false) (a : A) :
    intake.Sorts a .ok (rs ++ [last]) (forResponses parse body a lines) := by
  rw [forResponses_last hbody hlines hrs]
  exact h.sorts a _

end Loop

/-- What a parser does after its loop concerns the value only. -/
theorem Sorts.bind {V : Type} {a : A} {rs : List Response} {x : Collect A}
    (h : intake.Sorts a .ok rs x) {f : A → Collect V} {result : A → Except Fault V}
    (hf : ∀ a q, f a q = (result a, q)) : intake.Sorts a result rs (x >>= f) where
  passes hpass q := by rw [Exec.bind_ok (h.passes hpass q), hf]
  stops pre bad post hup q := by
    obtain ⟨e, he⟩ := h.stops pre bad post hup q
    exact ⟨e, Exec.bind_error he⟩

theorem Sorts.map {V W : Type} {a : A} {result : A → Except Fault V} {rs : List Response}
    {x : Collect V} (h : intake.Sorts a result rs x) (g : V → W) :
    intake.Sorts a (fun a => (result a).map g) rs (g <$> x) where
  passes hpass q := by rw [Exec.map_apply, h.passes hpass q]
  stops pre bad post hup q := by
    obtain ⟨e, he⟩ := h.stops pre bad post hup q
    exact ⟨e, by rw [Exec.map_apply, he]; rfl⟩

/-- A parser that returns a value has not given up. -/
theorem Sorts.of_ok {V : Type} {a : A} {result : A → Except Fault V} {rs : List Response}
    {x : Collect V} (h : intake.Sorts a result rs x) {q q' : Queue} {v : V}
    (hx : x q = (.ok v, q')) :
    (∀ r ∈ rs, intake.action r ≠ .fail) ∧ result (intake.taken a rs) = .ok v ∧
      q' = q ++ intake.queued rs := by
  have hpass : ∀ r ∈ rs, intake.action r ≠ .fail := by
    intro r hr hfail
    obtain ⟨pre, bad, post, hup⟩ := exists_givesUp ⟨r, hr, hfail⟩
    obtain ⟨e, he⟩ := h.stops pre bad post hup q
    cases he.symm.trans hx
  obtain ⟨hvalue, hqueue⟩ := Prod.mk.inj ((h.passes hpass q).symm.trans hx)
  exact ⟨hpass, hvalue, hqueue.symm⟩

/-- A last response that the parser takes is part of the result. -/
theorem Sorts.last {V : Type} {a : A} {result : A → Except Fault V} {rs : List Response}
    {r : Response} {x : Collect V} (h : intake.Sorts a result (rs ++ [r]) x)
    (hr : intake.action r = .take) :
    intake.Sorts a (fun a => result (intake.take a r)) rs x where
  passes hpass q := by
    have hall : ∀ r' ∈ rs ++ [r], intake.action r' ≠ .fail := by
      intro r' hr'
      rcases List.mem_append.mp hr' with hr' | hr'
      · exact hpass r' hr'
      · rw [List.mem_singleton.mp hr', hr]
        simp
    rw [h.passes hall q]
    simp [taken, queued, hr]
  stops pre bad post := by
    rintro ⟨rfl, hpre, hbad⟩ q
    exact h.stops pre bad (post ++ [r]) ⟨by simp, hpre, hbad⟩ q

theorem mem_queued {r : Response} {rs : List Response} {u : UnsolicitedResponse}
    (hu : tryFrom r = some u) (h : u ∈ intake.queued rs) : r ∈ rs ∧ intake.action r = .queue := by
  obtain ⟨r', hr', hu'⟩ := List.mem_filterMap.mp h
  obtain ⟨hmem, haction⟩ := List.mem_filter.mp hr'
  have same : r' = r := by
    rw [← UnsolicitedResponse.response_tryFrom hu, UnsolicitedResponse.response_tryFrom hu']
  subst same
  exact ⟨hmem, by simpa using haction⟩

variable (intake) in
/-- A parser that does not give up keeps everything if its result shows what it took. -/
theorem kept_passes (shows : Response → Prop) (rs : List Response) (q : Queue) :
    Kept shows rs q (q ++ intake.queued rs) ↔
      ∀ r ∈ rs, tryFrom r ≠ none → intake.action r ≠ .queue → shows r := by
  constructor
  · rintro ⟨shown, queue, hdivided, hqueue, hshown⟩ r hr haccepted haction
    obtain rfl := List.append_cancel_left hqueue
    obtain ⟨u, hu⟩ := Option.ne_none_iff_exists'.mp haccepted
    exact hshown r (hdivided.mem_shown hr hu fun hmem => haction (mem_queued hu hmem).2)
  · intro h
    suffices ∃ shown, Divided rs shown (intake.queued rs) ∧ ∀ r ∈ shown, shows r by
      obtain ⟨shown, hdivided, hshown⟩ := this
      exact ⟨shown, _, hdivided, rfl, hshown⟩
    induction rs with
    | nil => exact ⟨[], .nil, by simp⟩
    | cons r rs ih =>
        obtain ⟨shown, hdivided, hshown⟩ := ih fun r' hr' => h r' (List.mem_cons_of_mem r hr')
        rw [queued_cons]
        by_cases haction : intake.action r = .queue
        · obtain ⟨u, hu⟩ := Option.ne_none_iff_exists'.mp (intake.accepts r haction)
          rw [if_pos haction, hu]
          exact ⟨shown, .queued hu hdivided, hshown⟩
        · rw [if_neg haction]
          cases hu : tryFrom r with
          | none => exact ⟨shown, .other hu hdivided, hshown⟩
          | some u =>
              refine ⟨r :: shown, .shown hu hdivided, ?_⟩
              intro r' hr'
              rcases List.mem_cons.mp hr' with rfl | hr'
              · exact h r' List.mem_cons_self (by simp [hu]) haction
              · exact hshown r' hr'

/-- A parser that gives up has no result: it has kept everything if what it took before
does not matter, nor what comes after. -/
theorem kept_stops {rs pre : List Response} {bad : Response} {post : List Response}
    (hup : GivesUp intake.action rs pre bad post) (q : Queue) :
    Kept (fun _ => False) rs q (q ++ intake.queued pre) ↔
      (∀ r ∈ pre, tryFrom r ≠ none → intake.action r = .queue) ∧
        ∀ r ∈ bad :: post, tryFrom r = none := by
  obtain ⟨rfl, -, -⟩ := hup
  constructor
  · rintro ⟨shown, queue, hdivided, hqueue, hshown⟩
    obtain rfl : shown = [] := List.eq_nil_iff_forall_not_mem.mpr hshown
    obtain rfl := List.append_cancel_left hqueue
    have all := hdivided.queued_all
    have less : (intake.queued pre).length ≤ (pre.filterMap tryFrom).length :=
      (List.filter_sublist.filterMap _).length_le
    have nothing : (bad :: post).filterMap tryFrom = [] := by
      rw [all, List.filterMap_append, List.length_append] at less
      exact List.eq_nil_of_length_eq_zero (by omega)
    rw [List.filterMap_append, nothing, List.append_nil] at all
    refine ⟨fun r hr haccepted => ?_, List.filterMap_eq_nil_iff.mp nothing⟩
    obtain ⟨u, hu⟩ := Option.ne_none_iff_exists'.mp haccepted
    have hmem : u ∈ intake.queued pre := by
      rw [all]
      exact List.mem_filterMap.mpr ⟨r, hr, hu⟩
    exact (mem_queued hu hmem).2
  · rintro ⟨hpre, hrest⟩
    have kept := (kept_passes intake (fun _ => False) pre q).mpr
      fun r hr haccepted haction => absurd (hpre r hr haccepted) haction
    obtain ⟨shown, queue, hdivided, hqueue, hshown⟩ := kept
    refine ⟨shown, queue, ?_, hqueue, hshown⟩
    clear hqueue hshown hpre
    induction hdivided with
    | shown hu _ ih => exact .shown hu ih
    | queued hu _ ih => exact .queued hu ih
    | other hu _ ih => exact .other hu ih
    | nil =>
        generalize bad :: post = rest at hrest
        induction rest with
        | nil => exact .nil
        | cons r rest ih =>
            exact .other (hrest r List.mem_cons_self)
              (ih fun r' hr' => hrest r' (List.mem_cons_of_mem r hr'))

/-- Nothing is lost exactly if giving up has cost nothing and the result of a parser that
does not give up shows what it took. -/
theorem Sorts.kept {V : Type} {a : A} {result : A → Except Fault V} {rs : List Response}
    {x : Collect V} (h : intake.Sorts a result rs x) (shows : V → Response → Prop) (q : Queue) :
    Kept (fun r => ∃ v, (x q).1 = .ok v ∧ shows v r) rs q (x q).2 ↔
      GivesUpLate intake.action rs ∧
      ((∀ r ∈ rs, intake.action r ≠ .fail) → ∀ r ∈ rs, tryFrom r ≠ none →
        intake.action r = .take → ∃ v, result (intake.taken a rs) = .ok v ∧ shows v r) := by
  by_cases hpass : ∀ r ∈ rs, intake.action r ≠ .fail
  · have late : GivesUpLate intake.action rs := by
      rintro pre bad post ⟨rfl, -, hbad⟩
      exact absurd hbad (hpass bad (by simp))
    rw [h.passes hpass q, kept_passes]
    constructor
    · exact fun hshown => ⟨late, fun _ r hr haccepted htake =>
        hshown r hr haccepted (by simp [htake])⟩
    · rintro ⟨-, hshown⟩ r hr haccepted hqueue
      refine hshown hpass r hr haccepted ?_
      cases haction : intake.action r with
      | take => rfl
      | queue => exact absurd haction hqueue
      | fail => exact absurd haction (hpass r hr)
  · have hfail : ∃ r ∈ rs, intake.action r = .fail := by simpa using hpass
    have nothing_shown : ∀ e : Fault,
        (fun r : Response => ∃ v, (Except.error e : Except Fault V) = .ok v ∧ shows v r) =
          fun _ => False := by
      intro e
      funext r
      simp
    constructor
    · intro hkept
      refine ⟨?_, fun h => absurd h hpass⟩
      intro pre bad post hup
      obtain ⟨e, he⟩ := h.stops pre bad post hup q
      rw [he, nothing_shown] at hkept
      exact (kept_stops hup q).mp hkept
    · rintro ⟨hlate, -⟩
      obtain ⟨pre, bad, post, hup⟩ := exists_givesUp hfail
      obtain ⟨e, he⟩ := h.stops pre bad post hup q
      rw [he, nothing_shown]
      exact (kept_stops hup q).mpr (hlate pre bad post hup)

end Intake

/-- Nothing is queued and no value returned: all is kept if there was nothing to keep. -/
theorem kept_nothing {shows : Response → Prop} (hshows : ∀ r, ¬shows r) (rs : List Response)
    (q : Queue) : Kept shows rs q q ↔ ∀ r ∈ rs, tryFrom r = none := by
  have nothing : shows = fun _ => False := funext fun r => eq_false (hshows r)
  rw [nothing]
  let takeAll : Intake Unit := ⟨fun _ => .take, fun _ _ => (), by simp⟩
  have kept := takeAll.kept_passes (fun _ => False) rs q
  have none_queued : takeAll.queued rs = [] := by simp [Intake.queued, takeAll]
  rw [none_queued, List.append_nil] at kept
  rw [kept]
  exact forall₂_congr fun r _ => by simp [takeAll]

end RustImap
