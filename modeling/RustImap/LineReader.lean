import RustImap.PrefixParser

/-!
Reading messages from a stream one line at a time.

The reader appends a line to what it has, asks the parser, and goes on while the
parser says the input is incomplete. `readUnit` reads one message and
`readAnswer` reads messages up to a final one. Against a framed parser both are
exact: they take the lines of the messages and not one symbol more, whatever the
lines inside a message look like. A guard may refuse single lines.
-/

namespace RustImap

/-- What a stream still holds: symbols, and reads that will fail. -/
inductive Event (α κ : Type) where
  | item (a : α)
  | fail (k : κ)
  deriving DecidableEq

section Lines

variable {α κ : Type} [DecidableEq α] (delim : α)

/-- Take symbols up to and including the delimiter, up to a failing read, or up to
the end of the stream. -/
def takeLine : List (Event α κ) → List α × Option κ × List (Event α κ)
  | [] => ([], none, [])
  | .item a :: es =>
      if a = delim then ([a], none, es)
      else (a :: (takeLine es).1, (takeLine es).2)
  | .fail k :: es => ([], some k, es)

/-- Cut a text after each delimiter. -/
def linesOf : List α → List (List α)
  | [] => []
  | a :: as =>
      if a = delim then [a] :: linesOf as
      else
        match linesOf as with
        | [] => [[a]]
        | l :: ls => (a :: l) :: ls

variable {delim}

variable (delim) in
theorem takeLine_shrinks (es : List (Event α κ)) :
    es = [] ∨ (takeLine delim es).2.2.length < es.length := by
  induction es with
  | nil => exact .inl rfl
  | cons e es ih =>
      right
      cases e with
      | fail k => simp [takeLine]
      | item a =>
          simp only [takeLine]
          split
          · simp
          · rcases ih with rfl | ih
            · simp [takeLine]
            · simp only [List.length_cons]
              omega

theorem takeLine_shrinks_of {es rest : List (Event α κ)} {l : List α} {k : Option κ}
    (h : takeLine delim es = (l, k, rest)) (hl : l ≠ []) : rest.length < es.length := by
  obtain rfl | shorter := takeLine_shrinks delim es
  · cases h
    exact absurd rfl hl
  · rwa [h] at shorter

theorem takeLine_none {es rest : List (Event α κ)} {l : List α}
    (h : takeLine delim es = (l, none, rest)) : es = l.map .item ++ rest := by
  induction es generalizing l with
  | nil => cases h; rfl
  | cons e es ih =>
      cases e with
      | fail k => simp [takeLine] at h
      | item a =>
          simp only [takeLine] at h
          split at h
          · cases h; rfl
          · obtain ⟨rfl, tail⟩ := Prod.mk.inj h
            rw [List.map_cons, List.cons_append, ← ih (Prod.ext rfl tail)]

theorem takeLine_some {es rest : List (Event α κ)} {l : List α} {k : κ}
    (h : takeLine delim es = (l, some k, rest)) : es = l.map .item ++ .fail k :: rest := by
  induction es generalizing l with
  | nil => cases h
  | cons e es ih =>
      cases e with
      | fail k' => cases h; rfl
      | item a =>
          simp only [takeLine] at h
          split at h
          · cases h
          · obtain ⟨rfl, tail⟩ := Prod.mk.inj h
            rw [List.map_cons, List.cons_append, ← ih (Prod.ext rfl tail)]

/-- A read that fails has not come to the end of a line. -/
theorem takeLine_failed {es rest : List (Event α κ)} {l : List α} {k : κ}
    (h : takeLine delim es = (l, some k, rest)) : delim ∉ l := by
  induction es generalizing l with
  | nil => cases h
  | cons e es ih =>
      cases e with
      | fail k' =>
          cases h
          exact List.not_mem_nil
      | item a =>
          simp only [takeLine] at h
          split at h
          · cases h
          · rename_i ha
            obtain ⟨rfl, tail⟩ := Prod.mk.inj h
            exact List.not_mem_cons_of_ne_of_not_mem (Ne.symm ha) (ih (Prod.ext rfl tail))

theorem takeLine_nil {es rest : List (Event α κ)}
    (h : takeLine delim es = ([], none, rest)) : es = [] := by
  cases es with
  | nil => rfl
  | cons e es =>
      cases e with
      | fail k => simp [takeLine] at h
      | item a =>
          simp only [takeLine] at h
          split at h <;> simp at h

/-- The delimiter occurs in a line at its end only. -/
theorem takeLine_delim_last {es rest : List (Event α κ)} {l : List α} {k : Option κ}
    (h : takeLine delim es = (l, k, rest)) {u v : List α} (hl : l = u ++ v)
    (hu : u.getLast? = some delim) : v = [] := by
  induction es generalizing l k u with
  | nil =>
      cases h
      exact (List.append_eq_nil_iff.mp hl.symm).2
  | cons e es ih =>
      cases e with
      | fail k' =>
          cases h
          exact (List.append_eq_nil_iff.mp hl.symm).2
      | item a =>
          simp only [takeLine] at h
          cases u with
          | nil => simp at hu
          | cons b u =>
              split at h
              · cases h
                simp only [List.cons_append, List.cons.injEq] at hl
                exact (List.append_eq_nil_iff.mp hl.2.symm).2
              · rename_i hne
                obtain ⟨rfl, tail⟩ := Prod.mk.inj h
                simp only [List.cons_append, List.cons.injEq] at hl
                cases u with
                | nil =>
                    simp only [List.getLast?_singleton, Option.some.injEq] at hu
                    exact absurd (hl.1.trans hu) hne
                | cons c u =>
                    rw [List.getLast?_cons_cons] at hu
                    exact ih (Prod.ext rfl tail) hl.2 hu

/-- The first line of a text that ends in the delimiter. -/
theorem takeLine_append {xs : List α} (hne : xs ≠ []) (hlast : xs.getLast? = some delim)
    (more : List (Event α κ)) :
    ∃ l xs', l ≠ [] ∧ xs = l ++ xs' ∧ (xs' ≠ [] → xs'.getLast? = some delim) ∧
      linesOf delim xs = l :: linesOf delim xs' ∧
      takeLine delim (xs.map .item ++ more) = (l, none, xs'.map .item ++ more) := by
  induction xs with
  | nil => exact absurd rfl hne
  | cons a xs ih =>
      by_cases ha : a = delim
      · refine ⟨[a], xs, by simp, rfl, ?_, by simp [linesOf, ha], by simp [takeLine, ha]⟩
        intro hxs
        cases xs with
        | nil => exact absurd rfl hxs
        | cons b xs => rwa [List.getLast?_cons_cons] at hlast
      · cases xs with
        | nil => simp_all
        | cons b xs =>
            rw [List.getLast?_cons_cons] at hlast
            obtain ⟨l, xs', -, heq, htail, hlines, htake⟩ := ih (by simp) hlast
            refine ⟨a :: l, xs', by simp, by simp [heq], htail, ?_, ?_⟩
            · rw [linesOf, if_neg ha, hlines]
            · rw [List.map_cons, List.cons_append, takeLine, if_neg ha, htake]

theorem takeLine_head (a : α) (es : List (Event α κ)) :
    (takeLine delim (.item a :: es)).1.head? = some a := by
  rw [takeLine]
  split <;> rfl

/-- What a successful read takes is one line; only the end of the stream leaves a
line without its delimiter. -/
theorem takeLine_whole {xs : List α} (h : delim ∉ xs) (more : List (Event α κ)) :
    takeLine delim ((xs ++ [delim]).map .item ++ more) = (xs ++ [delim], none, more) := by
  induction xs with
  | nil => simp [takeLine]
  | cons a xs ih =>
      simp only [List.mem_cons, not_or] at h
      rw [List.cons_append, List.map_cons, List.cons_append, takeLine, if_neg (Ne.symm h.1), ih h.2]

theorem takeLine_line {es rest : List (Event α κ)} {l : List α}
    (h : takeLine delim es = (l, none, rest)) (hl : l ≠ []) :
    linesOf delim l = [l] ∧ (l.getLast? = some delim ∨ rest = []) := by
  induction es generalizing l with
  | nil => cases h; exact absurd rfl hl
  | cons e es ih =>
      cases e with
      | fail k => simp [takeLine] at h
      | item a =>
          simp only [takeLine] at h
          split at h
          · rename_i ha
            cases h
            exact ⟨by simp [linesOf, ha], .inl (by simp [ha])⟩
          · rename_i ha
            obtain ⟨rfl, tail⟩ := Prod.mk.inj h
            have htake : takeLine delim es = ((takeLine delim es).1, none, rest) :=
              Prod.ext rfl tail
            cases hxs : (takeLine delim es).1 with
            | nil =>
                rw [hxs] at htake
                have hrest : rest = [] := by
                  have hes := takeLine_nil htake
                  subst hes
                  cases htake
                  rfl
                exact ⟨by simp [linesOf, ha], .inr hrest⟩
            | cons b xs =>
                rw [hxs] at htake
                obtain ⟨hlines, hend⟩ := ih htake (by simp)
                refine ⟨by rw [linesOf, if_neg ha, hlines], ?_⟩
                rwa [List.getLast?_cons_cons]

theorem linesOf_append {xs : List α} (hxs : xs = [] ∨ xs.getLast? = some delim)
    (ys : List α) : linesOf delim (xs ++ ys) = linesOf delim xs ++ linesOf delim ys := by
  induction xs with
  | nil => rfl
  | cons a xs ih =>
      have tail : xs = [] ∨ xs.getLast? = some delim := by
        cases xs with
        | nil => exact .inl rfl
        | cons b xs => right; simpa [List.getLast?_cons_cons] using hxs
      by_cases ha : a = delim
      · simp [linesOf, ha, ih tail]
      · cases xs with
        | nil => simp_all
        | cons b xs =>
            have ih := ih tail
            simp only [List.cons_append] at ih ⊢
            rw [linesOf, if_neg ha, ih, linesOf.eq_2 (a := a), if_neg ha]
            cases hl : linesOf delim (b :: xs) with
            | nil =>
                exfalso
                rw [linesOf] at hl
                split at hl
                · simp at hl
                · split at hl <;> simp at hl
            | cons l ls => rfl

end Lines

/-- Why the reader of one message stopped. -/
inductive Stop (κ ρ : Type) where
  | unit (r : ρ)
  | rejected
  | refused
  | lost
  | failed (k : κ)

/-- The text a reader holds when it stops, and what it left in the stream. -/
structure UnitRead (α κ ρ : Type) where
  text : List α
  stop : Stop κ ρ
  rest : List (Event α κ)

/-- The failing read a stop has used up. -/
def Stop.event {α κ ρ : Type} : Stop κ ρ → List (Event α κ)
  | .failed k => [.fail k]
  | _ => []

@[simp] theorem Stop.event_unit {α κ ρ : Type} (r : ρ) :
    (Stop.unit r : Stop κ ρ).event = ([] : List (Event α κ)) := rfl

section Reader

variable {α κ ρ : Type} [DecidableEq α]
variable (p : Parser α ρ) (delim : α) (guard : List α → Bool)

/-- One run of the reader, line by line. -/
inductive UnitRun :
    List α → List (Event α κ) → UnitRead α κ ρ → Prop
  | failed {cur l : List α} {es rest : List (Event α κ)} {k : κ} :
      takeLine delim es = (l, some k, rest) →
      UnitRun cur es ⟨cur ++ l, .failed k, rest⟩
  | lost {cur : List α} {es rest : List (Event α κ)} :
      takeLine delim es = ([], none, rest) →
      UnitRun cur es ⟨cur, .lost, rest⟩
  | refused {cur l : List α} {es rest : List (Event α κ)} :
      takeLine delim es = (l, none, rest) → l ≠ [] → guard l = false →
      UnitRun cur es ⟨cur ++ l, .refused, rest⟩
  | rejected {cur l : List α} {es rest : List (Event α κ)} :
      takeLine delim es = (l, none, rest) → l ≠ [] → guard l = true →
      p.run (cur ++ l) = .error →
      UnitRun cur es ⟨cur ++ l, .rejected, rest⟩
  | unit {cur l t : List α} {es rest : List (Event α κ)} {r : ρ} :
      takeLine delim es = (l, none, rest) → l ≠ [] → guard l = true →
      p.run (cur ++ l) = .ok t r →
      UnitRun cur es ⟨cur ++ l, .unit r, rest⟩
  | more {cur l : List α} {es rest : List (Event α κ)} {u : UnitRead α κ ρ} :
      takeLine delim es = (l, none, rest) → l ≠ [] → guard l = true →
      p.run (cur ++ l) = .incomplete → UnitRun (cur ++ l) rest u →
      UnitRun cur es u

/-- What has been read before, and the read that ends the run. -/
inductive LastRead : List α → List α → Option κ → Stop κ ρ → Prop
  | failed {cur l : List α} {k : κ} : LastRead cur l (some k) (.failed k)
  | lost {cur : List α} : LastRead cur [] none .lost
  | refused {cur l : List α} : l ≠ [] → guard l = false → LastRead cur l none .refused
  | rejected {cur l : List α} : l ≠ [] → guard l = true → p.run (cur ++ l) = .error →
      LastRead cur l none .rejected
  | unit {cur l t : List α} {r : ρ} : l ≠ [] → guard l = true → p.run (cur ++ l) = .ok t r →
      LastRead cur l none (.unit r)

variable {p delim guard}

theorem UnitRun.of_lastRead {cur l : List α} {failed : Option κ} {stop : Stop κ ρ}
    {es rest : List (Event α κ)} (h : takeLine delim es = (l, failed, rest))
    (hlast : LastRead p guard cur l failed stop) :
    UnitRun p delim guard cur es ⟨cur ++ l, stop, rest⟩ := by
  cases hlast with
  | failed => exact .failed h
  | lost =>
      rw [List.append_nil]
      exact .lost h
  | refused hl hg => exact .refused h hl hg
  | rejected hl hg hr => exact .rejected h hl hg hr
  | unit hl hg hr => exact .unit h hl hg hr

theorem UnitRun.unique {cur : List α} {es : List (Event α κ)} {u v : UnitRead α κ ρ}
    (hu : UnitRun p delim guard cur es u) (hv : UnitRun p delim guard cur es v) : u = v := by
  induction hu with
  | failed h | lost h => cases hv <;> simp_all
  | refused h hl hg | rejected h hl hg hr | unit h hl hg hr => cases hv <;> simp_all
  | more h hl hg hr _ ih => cases hv <;> simp_all

/-- A run takes a prefix of the stream, plus the failing read that stopped it. -/
theorem UnitRun.reads {cur : List α} {es : List (Event α κ)} {u : UnitRead α κ ρ}
    (h : UnitRun p delim guard cur es u) :
    ∃ got, u.text = cur ++ got ∧ es = got.map .item ++ u.stop.event ++ u.rest := by
  induction h with
  | failed h => exact ⟨_, rfl, by simpa [Stop.event] using takeLine_some h⟩
  | lost h => exact ⟨[], by simp, by simpa [Stop.event] using takeLine_none h⟩
  | refused h _ _ | rejected h _ _ _ | unit h _ _ _ =>
      exact ⟨_, rfl, by simpa [Stop.event] using takeLine_none h⟩
  | @more cur l es rest u h _ _ _ _ ih =>
      obtain ⟨got, htext, hes⟩ := ih
      refine ⟨l ++ got, by rw [htext, List.append_assoc], ?_⟩
      rw [takeLine_none h, List.map_append, List.append_assoc, List.append_assoc,
        ← List.append_assoc (got.map _), ← hes]

/-- With a framed parser the text read is the message and nothing else: an earlier
line would have completed it, and the delimiter ends the last one. -/
theorem UnitRun.accepts (hp : p.Framed delim) {cur : List α} {es : List (Event α κ)}
    {u : UnitRead α κ ρ} (h : UnitRun p delim guard cur es u)
    (hcur : cur = [] ∨ p.run cur = .incomplete) {r : ρ} (hstop : u.stop = .unit r) :
    p.Accepts u.text r := by
  induction h with
  | failed _ | lost _ | refused _ _ _ | rejected _ _ _ _ => cases hstop
  | more _ _ _ hr _ ih => exact ih (.inr hr) hstop
  | @unit cur l t es rest r' h _ _ hr =>
      cases hstop
      obtain ⟨c, hc, last, heq⟩ := hp.accepts_of_run hr
      suffices t = [] by
        subst this
        exact hr
      have fresh : ∀ b, cur ≠ c ++ b := by
        rintro b rfl
        rcases hcur with hnil | hinc
        · exact hc.ne_nil (List.append_eq_nil_iff.mp hnil).1
        · rw [hp.run_append hc b] at hinc
          cases hinc
      obtain ⟨a, rfl, hl⟩ | ⟨b, hb, -⟩ := List.append_eq_append_iff.mp heq
      · have ha : a ≠ [] := by
          rintro rfl
          exact fresh [] (by simp)
        rw [List.getLast?_append_of_ne_nil _ ha] at last
        exact takeLine_delim_last h hl last
      · exact absurd hb (fresh b)

/-- Every line of a message that was read has passed the guard. -/
theorem UnitRun.guarded {cur : List α} {es : List (Event α κ)} {u : UnitRead α κ ρ}
    (h : UnitRun p delim guard cur es u) {r : ρ} (hstop : u.stop = .unit r) :
    ∀ got, u.text = cur ++ got → ∀ l ∈ linesOf delim got, guard l = true := by
  induction h with
  | failed _ | lost _ | refused _ _ _ | rejected _ _ _ _ => cases hstop
  | unit h hl hg _ =>
      intro got htext
      obtain rfl := List.append_cancel_left htext
      simpa [(takeLine_line h hl).1] using hg
  | @more cur l es rest u h hl hg _ hrun ih =>
      intro got htext
      obtain ⟨got', htext', -⟩ := hrun.reads
      have hgot : got = l ++ got' := by
        rw [htext', List.append_assoc] at htext
        exact (List.append_cancel_left htext).symm
      obtain ⟨hlines, hend | hrest⟩ := takeLine_line h hl
      · rw [hgot, linesOf_append (.inr hend), hlines]
        simpa [hg] using ih hstop got' htext'
      · subst hrest
        cases hrun <;> simp_all [takeLine]

/-- On a stream that brings the rest of a message the reader stops right after it. -/
theorem UnitRun.of_accepts (hp : p.Framed delim) {c cur tail : List α} {r : ρ}
    (hc : p.Accepts c r) (hcut : c = cur ++ tail) (htail : tail ≠ [])
    (hguard : ∀ l ∈ linesOf delim tail, guard l = true) (more : List (Event α κ)) :
    UnitRun p delim guard cur (tail.map .item ++ more) ⟨c, .unit r, more⟩ := by
  induction h : tail.length using Nat.strongRecOn generalizing cur tail with
  | ind n ih =>
      have last : tail.getLast? = some delim := by
        rw [← hp.getLast? hc, hcut, List.getLast?_append_of_ne_nil _ htail]
      obtain ⟨l, xs, hl, rfl, -, hlines, htake⟩ := takeLine_append htail last more
      have hg : guard l = true := hguard l (by simp [hlines])
      by_cases hxs : xs = []
      · subst hxs
        rw [List.append_nil] at hcut
        subst hcut
        exact .unit htake hl hg hc
      · have inc : p.run (cur ++ l) = .incomplete := by
          refine hp.incomplete_before hc ⟨xs, by rw [hcut, List.append_assoc]⟩ ?_
          rw [hcut]
          simpa using hxs
        have later := ih xs.length (by
            have := List.length_pos_iff.mpr hl
            simp only [List.length_append] at h
            omega) (by rw [hcut, List.append_assoc]) hxs
            (fun l' hl' => hguard l' (by simp [hlines, hl'])) rfl
        exact .more htake hl hg inc later

/-- A reader that refuses a line of the message stops before the message is over. -/
theorem UnitRun.of_refused (hp : p.Framed delim) {c cur tail : List α} {r : ρ}
    (hc : p.Accepts c r) (hcut : c = cur ++ tail) (htail : tail ≠ [])
    (hguard : ∃ l ∈ linesOf delim tail, guard l = false) (more : List (Event α κ)) :
    ∃ text left : List α,
      UnitRun p delim guard cur (tail.map .item ++ more) ⟨text, .refused, left.map .item ++ more⟩ := by
  induction h : tail.length using Nat.strongRecOn generalizing cur tail with
  | ind n ih =>
      have last : tail.getLast? = some delim := by
        rw [← hp.getLast? hc, hcut, List.getLast?_append_of_ne_nil _ htail]
      obtain ⟨l, xs, hl, rfl, -, hlines, htake⟩ := takeLine_append htail last more
      by_cases hg : guard l = false
      · exact ⟨cur ++ l, xs, .refused htake hl hg⟩
      · have later : ∃ l' ∈ linesOf delim xs, guard l' = false := by
          obtain ⟨l', hl', hg'⟩ := hguard
          rw [hlines] at hl'
          rcases List.mem_cons.mp hl' with rfl | hl'
          · exact absurd hg' hg
          · exact ⟨l', hl', hg'⟩
        have hxs : xs ≠ [] := by
          rintro rfl
          obtain ⟨l', hl', -⟩ := later
          cases hl'
        have inc : p.run (cur ++ l) = .incomplete := by
          refine hp.incomplete_before hc ⟨xs, by rw [hcut, List.append_assoc]⟩ ?_
          rw [hcut]
          simpa using hxs
        have shorter : xs.length < n := by
          have := List.length_pos_iff.mpr hl
          simp only [List.length_append] at h
          omega
        obtain ⟨text, left, run⟩ := ih xs.length shorter
          (by rw [hcut, List.append_assoc]) hxs later rfl
        exact ⟨text, left, .more htake hl (by simpa using hg) inc run⟩

/-- Read messages up to a final one, or up to whatever stops the reader earlier. The
indices are the messages before the last one and the way the last one was read. -/
inductive AnswerRun (p : Parser α ρ) (delim : α) (guard : List α → Bool) (final : ρ → Bool) :
    List α → List (Event α κ) → List (List α × ρ) → UnitRead α κ ρ → Prop
  | last {cur : List α} {es : List (Event α κ)} {u : UnitRead α κ ρ} :
      UnitRun p delim guard cur es u → (∀ r, u.stop = .unit r → final r = true) →
      AnswerRun p delim guard final cur es [] u
  | more {cur : List α} {es : List (Event α κ)} {u v : UnitRead α κ ρ} {r : ρ}
      {us : List (List α × ρ)} :
      UnitRun p delim guard cur es u → u.stop = .unit r → final r = false →
      AnswerRun p delim guard final [] u.rest us v →
      AnswerRun p delim guard final cur es ((u.text, r) :: us) v

variable {final : ρ → Bool}

/-- One more line does not change what an answer is. -/
theorem AnswerRun.line {cur l : List α} {es rest : List (Event α κ)}
    {us : List (List α × ρ)} {u : UnitRead α κ ρ}
    (h : takeLine delim es = (l, none, rest)) (hl : l ≠ []) (hg : guard l = true)
    (hr : p.run (cur ++ l) = .incomplete)
    (run : AnswerRun p delim guard final (cur ++ l) rest us u) :
    AnswerRun p delim guard final cur es us u := by
  cases run with
  | last hu hfinal => exact .last (.more h hl hg hr hu) hfinal
  | more hu hstop hnot hrest => exact .more (.more h hl hg hr hu) hstop hnot hrest

/-- An answer to a reader that already holds some text and looks at it before it
reads on. -/
inductive AnswerFrom (p : Parser α ρ) (delim : α) (guard : List α → Bool)
    (final : ρ → Bool) :
    List α → List (Event α κ) → List (List α × ρ) → UnitRead α κ ρ → Prop
  | none {es : List (Event α κ)} {us : List (List α × ρ)} {u : UnitRead α κ ρ} :
      AnswerRun p delim guard final [] es us u → AnswerFrom p delim guard final [] es us u
  | incomplete {d : List α} {es : List (Event α κ)} {us : List (List α × ρ)}
      {u : UnitRead α κ ρ} :
      d ≠ [] → p.run d = .incomplete → AnswerRun p delim guard final d es us u →
      AnswerFrom p delim guard final d es us u
  | other {d t : List α} {es : List (Event α κ)} {us : List (List α × ρ)}
      {u : UnitRead α κ ρ} {r : ρ} :
      d ≠ [] → p.run d = .ok t r → final r = false →
      AnswerRun p delim guard final [] es us u →
      AnswerFrom p delim guard final d es ((d, r) :: us) u
  | final {d t : List α} {es : List (Event α κ)} {r : ρ} :
      d ≠ [] → p.run d = .ok t r → final r = true →
      AnswerFrom p delim guard final d es [] ⟨d, .unit r, es⟩
  | rejected {d : List α} {es : List (Event α κ)} :
      d ≠ [] → p.run d = .error →
      AnswerFrom p delim guard final d es [] ⟨d, .rejected, es⟩

/-- A reader that is given the first line of an answer reads the answer. -/
theorem AnswerRun.of_line {l : List α} {es rest : List (Event α κ)} {us : List (List α × ρ)}
    {u : UnitRead α κ ρ} (h : takeLine delim es = (l, none, rest)) (hl : l ≠ [])
    (hg : guard l = true) (run : AnswerFrom p delim guard final l rest us u) :
    AnswerRun p delim guard final [] es us u := by
  cases run with
  | none _ => exact absurd rfl hl
  | incomplete _ hr run => exact .line h hl hg hr run
  | other _ hr hnot run =>
      have hunit : UnitRun p delim guard [] es ⟨l, .unit _, rest⟩ := .unit h hl hg hr
      exact .more hunit rfl hnot run
  | final _ hr hfinal =>
      have hunit : UnitRun p delim guard [] es ⟨l, .unit _, rest⟩ := .unit h hl hg hr
      exact .last hunit fun r hstop => by cases hstop; exact hfinal
  | rejected _ hr =>
      have hunit : UnitRun p delim guard [] es ⟨l, .rejected, rest⟩ := .rejected h hl hg hr
      exact .last hunit fun r hstop => by cases hstop

theorem AnswerRun.final_of_unit {cur : List α} {es : List (Event α κ)}
    {us : List (List α × ρ)} {u : UnitRead α κ ρ}
    (h : AnswerRun p delim guard final cur es us u) (r : ρ) (hstop : u.stop = .unit r) :
    final r = true := by
  induction h with
  | last _ hfinal => exact hfinal r hstop
  | more _ _ _ _ ih => exact ih hstop

theorem AnswerFrom.final_of_unit {d : List α} {es : List (Event α κ)}
    {us : List (List α × ρ)} {u : UnitRead α κ ρ}
    (h : AnswerFrom p delim guard final d es us u) (r : ρ) (hstop : u.stop = .unit r) :
    final r = true := by
  cases h with
  | none run | incomplete _ _ run | other _ _ _ run => exact run.final_of_unit r hstop
  | final _ _ hfinal =>
      cases hstop
      exact hfinal
  | rejected _ _ => cases hstop

theorem AnswerRun.unique {cur : List α} {es : List (Event α κ)} {us vs : List (List α × ρ)}
    {u v : UnitRead α κ ρ} (hu : AnswerRun p delim guard final cur es us u)
    (hv : AnswerRun p delim guard final cur es vs v) : us = vs ∧ u = v := by
  induction hu generalizing vs with
  | last hu hfinal =>
      cases hv with
      | last hv _ => exact ⟨rfl, hu.unique hv⟩
      | more hv hstop hnot _ =>
          rw [← hu.unique hv] at hstop
          exact absurd (hfinal _ hstop) (by simp [hnot])
  | more hu hstop hnot _ ih =>
      cases hv with
      | last hv hfinal =>
          rw [hu.unique hv] at hstop
          exact absurd (hfinal _ hstop) (by simp [hnot])
      | more hv hstop' _ hrest =>
          obtain rfl := hu.unique hv
          obtain ⟨rfl, rfl⟩ := ih hrest
          rw [hstop] at hstop'
          cases hstop'
          exact ⟨rfl, rfl⟩

theorem AnswerFrom.unique {d : List α} {es : List (Event α κ)} {us vs : List (List α × ρ)}
    {u v : UnitRead α κ ρ} (hu : AnswerFrom p delim guard final d es us u)
    (hv : AnswerFrom p delim guard final d es vs v) : us = vs ∧ u = v := by
  cases hu with
  | none hu =>
      cases hv with
      | none hv => exact hu.unique hv
      | incomplete hne _ _ | other hne _ _ _ | final hne _ _ | rejected hne _ =>
          exact absurd rfl hne
  | incomplete _ hr hu =>
      cases hv with
      | incomplete _ _ hv => exact hu.unique hv
      | none _ => contradiction
      | other _ hr' _ _ | final _ hr' _ | rejected _ hr' =>
          rw [hr] at hr'
          cases hr'
  | other _ hr hnot hu =>
      cases hv with
      | none _ => contradiction
      | incomplete _ hr' _ | rejected _ hr' =>
          rw [hr] at hr'
          cases hr'
      | other _ hr' _ hv =>
          rw [hr] at hr'
          cases hr'
          obtain ⟨rfl, rfl⟩ := hu.unique hv
          exact ⟨rfl, rfl⟩
      | final _ hr' hfinal =>
          rw [hr] at hr'
          cases hr'
          simp [hnot] at hfinal
  | final _ hr hfinal =>
      cases hv with
      | none _ => contradiction
      | incomplete _ hr' _ | rejected _ hr' =>
          rw [hr] at hr'
          cases hr'
      | other _ hr' hnot _ =>
          rw [hr] at hr'
          cases hr'
          simp [hnot] at hfinal
      | final _ hr' _ =>
          rw [hr] at hr'
          cases hr'
          exact ⟨rfl, rfl⟩
  | rejected _ hr =>
      cases hv with
      | none _ => contradiction
      | incomplete _ hr' _ | other _ hr' _ _ | final _ hr' _ =>
          rw [hr] at hr'
          cases hr'
      | rejected _ _ => exact ⟨rfl, rfl⟩

/-- The text an answer is made of. -/
def textOf (us : List (List α × ρ)) (u : UnitRead α κ ρ) : List α :=
  (us.map Prod.fst).flatten ++ u.text

theorem AnswerRun.reads {cur : List α} {es : List (Event α κ)} {us : List (List α × ρ)}
    {u : UnitRead α κ ρ} (h : AnswerRun p delim guard final cur es us u) :
    ∃ got, textOf us u = cur ++ got ∧ es = got.map .item ++ u.stop.event ++ u.rest := by
  induction h with
  | last h _ => simpa [textOf] using h.reads
  | @more cur es u v r us h hstop _ _ ih =>
      obtain ⟨got, htext, hes⟩ := h.reads
      obtain ⟨got', htext', hes'⟩ := ih
      simp only [hstop, Stop.event, List.append_nil] at hes
      refine ⟨got ++ got', ?_, ?_⟩
      · simp only [textOf, List.nil_append, List.map_cons, List.flatten_cons,
          List.append_assoc] at htext' ⊢
        rw [htext', htext, List.append_assoc]
      · rw [hes, hes', List.map_append]
        simp only [List.append_assoc]

/-- Before the final message of an answer come messages that are not final. -/
theorem AnswerRun.accepts (hp : p.Framed delim) {cur : List α} {es : List (Event α κ)}
    {us : List (List α × ρ)} {u : UnitRead α κ ρ}
    (h : AnswerRun p delim guard final cur es us u)
    (hcur : cur = [] ∨ p.run cur = .incomplete) :
    (∀ m ∈ us, p.Accepts m.1 m.2 ∧ final m.2 = false) ∧
      ∀ r, u.stop = .unit r → p.Accepts u.text r ∧ final r = true := by
  induction h with
  | last h hfinal => exact ⟨by simp, fun r hr => ⟨h.accepts hp hcur hr, hfinal r hr⟩⟩
  | more h hstop hnot _ ih =>
      obtain ⟨hus, hu⟩ := ih (.inl rfl)
      refine ⟨?_, hu⟩
      intro m hm
      rcases List.mem_cons.mp hm with rfl | hm
      · exact ⟨h.accepts hp hcur hstop, hnot⟩
      · exact hus m hm

/-- Every line of an answer that was read to its final message has passed the guard. -/
theorem AnswerRun.guarded (hp : p.Framed delim) {cur : List α} {es : List (Event α κ)}
    {us : List (List α × ρ)} {u : UnitRead α κ ρ}
    (h : AnswerRun p delim guard final cur es us u)
    (hcur : cur = [] ∨ p.run cur = .incomplete) {r : ρ} (hstop : u.stop = .unit r) :
    ∀ got, textOf us u = cur ++ got → ∀ l ∈ linesOf delim got, guard l = true := by
  induction h with
  | last h _ =>
      intro got htext
      exact h.guarded hstop got (by simpa [textOf] using htext)
  | @more cur es u v r' us h hstop' _ _ ih =>
      intro got htext
      obtain ⟨got', htext', -⟩ := h.reads
      have hgot : got = got' ++ textOf us v := by
        simp only [textOf, List.map_cons, List.flatten_cons, List.append_assoc] at htext
        rw [htext', List.append_assoc] at htext
        exact (List.append_cancel_left htext).symm
      have hlast : got' = [] ∨ got'.getLast? = some delim := by
        by_cases hnil : got' = []
        · exact .inl hnil
        · have last := hp.getLast? (h.accepts hp hcur hstop')
          rw [htext', List.getLast?_append_of_ne_nil _ hnil] at last
          exact .inr last
      intro l hl
      rw [hgot, linesOf_append hlast] at hl
      rcases List.mem_append.mp hl with hl | hl
      · exact h.guarded hstop' got' htext' l hl
      · exact ih (.inl rfl) hstop _ rfl l hl

/-- On a stream that brings messages and then a final one, an answer is exactly these. -/
theorem AnswerRun.of_accepts (hp : p.Framed delim) {cs : List (List α)} {rs : List ρ}
    {d : List α} {f : ρ} (hcs : List.Forall₂ p.Accepts cs rs) (hd : p.Accepts d f)
    (hrs : ∀ r ∈ rs, final r = false) (hf : final f = true)
    (hguard : ∀ l ∈ linesOf delim (cs.flatten ++ d), guard l = true)
    (more : List (Event α κ)) :
    AnswerRun p delim guard final [] ((cs.flatten ++ d).map .item ++ more) (cs.zip rs)
      ⟨d, .unit f, more⟩ := by
  induction hcs with
  | nil =>
      refine .last (UnitRun.of_accepts hp hd rfl hd.ne_nil hguard more) ?_
      intro r hr
      cases hr
      exact hf
  | @cons c r cs rs hc _ ih =>
      have hlast := hp.getLast? hc
      rw [List.flatten_cons, List.append_assoc, linesOf_append (.inr hlast)] at hguard
      have head : UnitRun p delim guard []
          (c.map .item ++ ((cs.flatten ++ d).map .item ++ more)) ⟨c, .unit r, _⟩ :=
        .of_accepts hp hc rfl hc.ne_nil (fun l hl => hguard l (List.mem_append_left _ hl)) _
      have tail := ih (fun r' hr' => hrs r' (List.mem_cons_of_mem r hr'))
        (fun l hl => hguard l (List.mem_append_right _ hl))
      have run := AnswerRun.more head rfl (hrs r List.mem_cons_self) tail
      simpa only [List.flatten_cons, List.map_append, List.append_assoc, List.zip_cons_cons]
        using run

/-- A run that no line has refused is a run of the reader that refuses no line. -/
theorem UnitRun.unguarded {cur : List α} {es : List (Event α κ)} {u : UnitRead α κ ρ}
    (h : UnitRun p delim guard cur es u) (hstop : u.stop ≠ .refused) :
    UnitRun p delim (fun _ => true) cur es u := by
  induction h with
  | failed h => exact .failed h
  | lost h => exact .lost h
  | refused _ _ _ => exact absurd rfl hstop
  | rejected h hl _ hr => exact .rejected h hl rfl hr
  | unit h hl _ hr => exact .unit h hl rfl hr
  | more h hl _ hr _ ih => exact .more h hl rfl hr (ih hstop)

theorem AnswerRun.unguarded {cur : List α} {es : List (Event α κ)} {us : List (List α × ρ)}
    {u : UnitRead α κ ρ} (h : AnswerRun p delim guard final cur es us u)
    (hstop : u.stop ≠ .refused) :
    AnswerRun p delim (fun _ => true) final cur es us u := by
  induction h with
  | last h hfinal => exact .last (h.unguarded hstop) hfinal
  | more h hunit hnot _ ih => exact .more (h.unguarded (by simp [hunit])) hunit hnot (ih hstop)

/-- The reader takes an answer at the front of the stream, unless it refuses a line of it. -/
theorem AnswerRun.takes (hp : p.Framed delim) {cs : List (List α)} {rs : List ρ}
    {d : List α} {f : ρ} (hcs : List.Forall₂ p.Accepts cs rs) (hd : p.Accepts d f)
    (hrs : ∀ r ∈ rs, final r = false) (hf : final f = true)
    {more es : List (Event α κ)} (hes : es = (cs.flatten ++ d).map .item ++ more)
    {us : List (List α × ρ)} {u : UnitRead α κ ρ}
    (h : AnswerRun p delim guard final [] es us u) :
    u.stop = .refused ∨ us = cs.zip rs ∧ u = ⟨d, .unit f, more⟩ := by
  by_cases hstop : u.stop = .refused
  · exact .inl hstop
  · subst hes
    exact .inr ((h.unguarded hstop).unique
      (AnswerRun.of_accepts hp hcs hd hrs hf (fun _ _ => rfl) more))

end Reader

end RustImap
