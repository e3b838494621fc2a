import Mathlib.Data.List.Forall2

/-!
Parsers of self-delimiting messages.

A parser looks at the front of its input and reports a message and what follows
it, that the input ends too early, or that no message starts there. `Framed` is
what makes such a parser usable on a stream: a message ends in the delimiter, is
recognised whatever follows it, and is incomplete until its last symbol has
arrived. Alphabet, delimiter and message type are arbitrary.
-/

namespace RustImap

inductive Verdict (α ρ : Type) where
  | ok (rest : List α) (r : ρ)
  | incomplete
  | error
  deriving DecidableEq

/-- A parser that consumes something whenever it succeeds. -/
structure Parser (α ρ : Type) where
  run : List α → Verdict α ρ
  shrinks : ∀ {i rest : List α} {r : ρ}, run i = .ok rest r → rest.length < i.length

/-- The first occurrence of the delimiter splits a text. -/
def cut {α : Type} [DecidableEq α] (delim : α) : List α → Option (List α × List α)
  | [] => none
  | a :: as =>
      if a = delim then some ([a], as)
      else (cut delim as).map fun r => (a :: r.1, r.2)

/-- A list with an element that lacks a property, cut at the first such element. -/
theorem exists_first {α : Type} {P : α → Prop} {as : List α} (h : ¬ ∀ a ∈ as, P a) :
    ∃ pre a post, as = pre ++ a :: post ∧ (∀ a' ∈ pre, P a') ∧ ¬ P a := by
  induction as with
  | nil => simp at h
  | cons a as ih =>
      by_cases ha : P a
      · have has : ¬ ∀ a' ∈ as, P a' := by
          intro has
          exact h (List.forall_mem_cons.mpr ⟨ha, has⟩)
        obtain ⟨pre, a', post, rfl, hpre, ha'⟩ := ih has
        exact ⟨a :: pre, a', post, rfl, List.forall_mem_cons.mpr ⟨ha, hpre⟩, ha'⟩
      · exact ⟨[], a, as, rfl, by simp, ha⟩

namespace Parser

variable {α ρ : Type} {p : Parser α ρ} {delim : α}

/-- `c` is the text of exactly one message. -/
def Accepts (p : Parser α ρ) (c : List α) (r : ρ) : Prop := p.run c = .ok [] r

structure Framed (p : Parser α ρ) (delim : α) : Prop where
  consumes : ∀ {i rest : List α} {r : ρ}, p.run i = .ok rest r →
    ∃ c, c ≠ [] ∧ c.getLast? = some delim ∧ i = c ++ rest
  extends_ : ∀ {c rest : List α} {r : ρ}, p.run (c ++ rest) = .ok rest r →
    ∀ t, p.run (c ++ t) = .ok t r
  incomplete : ∀ {c rest : List α} {r : ρ}, p.run (c ++ rest) = .ok rest r →
    ∀ pre, pre <+: c → pre ≠ c → p.run pre = .incomplete

/-- Repeated parsing of `i` yields `rs` and uses `i` up. -/
inductive Splits (p : Parser α ρ) : List α → List ρ → Prop
  | nil : Splits p [] []
  | cons {i rest : List α} {r : ρ} {rs : List ρ} :
      p.run i = .ok rest r → Splits p rest rs → Splits p i (r :: rs)

/-- Repeated parsing of `i` yields `rs` and comes to `tail`, where no message begins. -/
inductive SplitsUpTo (p : Parser α ρ) : List α → List ρ → List α → Prop
  | stop {i : List α} : (∀ rest r, p.run i ≠ .ok rest r) → SplitsUpTo p i [] i
  | cons {i rest tail : List α} {r : ρ} {rs : List ρ} :
      p.run i = .ok rest r → SplitsUpTo p rest rs tail → SplitsUpTo p i (r :: rs) tail

theorem run_nil (p : Parser α ρ) (rest : List α) (r : ρ) : p.run [] ≠ .ok rest r := by
  intro h
  exact absurd (p.shrinks h) (by simp)

theorem Accepts.ne_nil {c : List α} {r : ρ} (h : p.Accepts c r) : c ≠ [] := by
  rintro rfl
  exact p.run_nil [] r h

theorem Accepts.run_append_nil {c : List α} {r : ρ} (h : p.Accepts c r) :
    p.run (c ++ []) = .ok [] r := by
  rwa [List.append_nil]

/-- Messages with a property, one by one and as a list. -/
theorem accepts_each {P : ρ → Prop} {cs : List (List α)} :
    (∀ c ∈ cs, ∃ r, p.Accepts c r ∧ P r) ↔
      ∃ rs, List.Forall₂ p.Accepts cs rs ∧ ∀ r ∈ rs, P r := by
  induction cs with
  | nil => exact iff_of_true (by simp) ⟨[], .nil, by simp⟩
  | cons c cs ih =>
      rw [List.forall_mem_cons, ih]
      constructor
      · rintro ⟨⟨r, hr, hP⟩, rs, hrs, hPs⟩
        exact ⟨r :: rs, .cons hr hrs, List.forall_mem_cons.mpr ⟨hP, hPs⟩⟩
      · rintro ⟨_, hall, hPs⟩
        cases hall with
        | cons hr hrs =>
            obtain ⟨hP, hPs⟩ := List.forall_mem_cons.mp hPs
            exact ⟨⟨_, hr, hP⟩, _, hrs, hPs⟩

namespace Framed

theorem accepts_of_run (hp : p.Framed delim) {i rest : List α} {r : ρ}
    (h : p.run i = .ok rest r) :
    ∃ c, p.Accepts c r ∧ c.getLast? = some delim ∧ i = c ++ rest := by
  obtain ⟨c, -, last, rfl⟩ := hp.consumes h
  have alone := hp.extends_ h []
  rw [List.append_nil] at alone
  exact ⟨c, alone, last, rfl⟩

theorem run_append (hp : p.Framed delim) {c : List α} {r : ρ} (h : p.Accepts c r)
    (t : List α) : p.run (c ++ t) = .ok t r :=
  hp.extends_ h.run_append_nil t

theorem getLast? (hp : p.Framed delim) {c : List α} {r : ρ} (h : p.Accepts c r) :
    c.getLast? = some delim := by
  obtain ⟨c', -, last, heq⟩ := hp.consumes h
  rw [List.append_nil] at heq
  rw [heq, last]

theorem incomplete_before (hp : p.Framed delim) {pre c : List α} {r : ρ}
    (h : p.Accepts c r) (hpre : pre <+: c) (hne : pre ≠ c) : p.run pre = .incomplete :=
  hp.incomplete h.run_append_nil pre hpre hne

theorem splits_append (hp : p.Framed delim) {c i : List α} {r : ρ} {rs : List ρ}
    (h : p.Accepts c r) (hs : p.Splits i rs) : p.Splits (c ++ i) (r :: rs) :=
  .cons (hp.run_append h i) hs

theorem splits_flatten (hp : p.Framed delim) {cs : List (List α)} {rs : List ρ}
    (h : List.Forall₂ p.Accepts cs rs) : p.Splits cs.flatten rs := by
  induction h with
  | nil => exact .nil
  | cons head _ ih => exact hp.splits_append head ih

theorem splits_snoc (hp : p.Framed delim) {i c : List α} {r : ρ} {rs : List ρ}
    (hs : p.Splits i rs) (h : p.Accepts c r) : p.Splits (i ++ c) (rs ++ [r]) := by
  induction hs with
  | nil => exact .cons h .nil
  | @cons i rest r' rs run _ ih =>
      obtain ⟨c', hc', -, rfl⟩ := hp.accepts_of_run run
      rw [List.append_assoc]
      exact hp.splits_append hc' ih

end Framed

theorem Splits.unique {i : List α} {rs rs' : List ρ} (h : p.Splits i rs)
    (h' : p.Splits i rs') : rs = rs' := by
  induction h generalizing rs' with
  | nil =>
      cases h' with
      | nil => rfl
      | cons run _ => exact absurd run (p.run_nil _ _)
  | cons run _ ih =>
      cases h' with
      | nil => exact absurd run (p.run_nil _ _)
      | cons run' hs' =>
          rw [run] at run'
          cases run'
          rw [ih hs']

theorem exists_splitsUpTo (p : Parser α ρ) (i : List α) : ∃ rs tail, p.SplitsUpTo i rs tail := by
  induction h : i.length using Nat.strongRecOn generalizing i with
  | ind n ih =>
      by_cases hrun : ∃ rest r, p.run i = .ok rest r
      · obtain ⟨rest, r, hrun⟩ := hrun
        obtain ⟨rs, tail, hrest⟩ := ih rest.length (h ▸ p.shrinks hrun) rest rfl
        exact ⟨r :: rs, tail, .cons hrun hrest⟩
      · refine ⟨[], i, .stop fun rest r heq => ?_⟩
        exact hrun ⟨rest, r, heq⟩

theorem splitsUpTo_nil {i : List α} {rs : List ρ} : p.SplitsUpTo i rs [] ↔ p.Splits i rs := by
  constructor
  · intro h
    generalize htail : ([] : List α) = tail at h
    induction h with
    | stop _ =>
        rw [← htail]
        exact .nil
    | cons run _ ih => exact .cons run (ih htail)
  · intro h
    induction h with
    | nil => exact .stop (p.run_nil)
    | cons run _ ih => exact .cons run ih

theorem SplitsUpTo.unique {i tail tail' : List α} {rs rs' : List ρ} (h : p.SplitsUpTo i rs tail)
    (h' : p.SplitsUpTo i rs' tail') : rs = rs' ∧ tail = tail' := by
  induction h generalizing rs' with
  | stop hnone =>
      cases h' with
      | stop _ => exact ⟨rfl, rfl⟩
      | cons run _ => exact absurd run (hnone _ _)
  | cons run _ ih =>
      cases h' with
      | stop hnone => exact absurd run (hnone _ _)
      | cons run' hrest' =>
          rw [run] at run'
          cases run'
          obtain ⟨rfl, rfl⟩ := ih hrest'
          exact ⟨rfl, rfl⟩

section Table

variable [DecidableEq α] (messages : List (List α × ρ))

def find (i : List α) : Option (List α × ρ) := messages.find? fun m => m.1.isPrefixOf i

theorem find_some {i : List α} {m : List α × ρ} (h : find messages i = some m) :
    m ∈ messages ∧ ∃ rest, i = m.1 ++ rest := by
  have hpre : m.1 <+: i := by
    simpa using @List.find?_some _ (fun m : List α × ρ => m.1.isPrefixOf i) _ _ h
  obtain ⟨rest, rfl⟩ := hpre
  exact ⟨List.mem_of_find?_eq_some h, rest, rfl⟩

/-- The parser that knows finitely many messages. -/
def table (hne : ∀ m ∈ messages, m.1 ≠ []) : Parser α ρ where
  run i :=
    match find messages i with
    | some m => .ok (i.drop m.1.length) m.2
    | none => if messages.any fun m => i.isPrefixOf m.1 then .incomplete else .error
  shrinks := by
    intro i rest r h
    split at h
    · rename_i m hm
      cases h
      obtain ⟨hmem, rest, rfl⟩ := find_some messages hm
      have := List.length_pos_iff.mpr (hne m hmem)
      simp only [List.drop_left, List.length_append]
      omega
    · split at h <;> cases h

variable {messages} (hne : ∀ m ∈ messages, m.1 ≠ [])

theorem table_run {i rest : List α} {r : ρ} (h : (table messages hne).run i = .ok rest r) :
    ∃ c, (c, r) ∈ messages ∧ i = c ++ rest := by
  simp only [table] at h
  split at h
  · rename_i m hm
    cases h
    obtain ⟨hmem, rest, rfl⟩ := find_some messages hm
    exact ⟨m.1, hmem, by simp⟩
  · split at h <;> cases h

theorem table_incomplete {i : List α} (h : (table messages hne).run i = .incomplete) :
    ∃ m ∈ messages, i <+: m.1 := by
  simp only [table] at h
  split at h
  · cases h
  · split at h
    · rename_i hany
      obtain ⟨m, hmem, hpre⟩ := List.any_eq_true.mp hany
      exact ⟨m, hmem, List.isPrefixOf_iff_prefix.mp hpre⟩
    · cases h

/-- It is framed if no message begins another one and each ends in the delimiter. -/
theorem table_framed (hlast : ∀ m ∈ messages, m.1.getLast? = some delim)
    (hfree : ∀ m ∈ messages, ∀ m' ∈ messages, m.1 <+: m'.1 → m = m') :
    (table messages hne).Framed delim where
  consumes h := by
    obtain ⟨c, hmem, rfl⟩ := table_run hne h
    exact ⟨c, hne _ hmem, hlast _ hmem, rfl⟩
  extends_ {c rest r} h t := by
    obtain ⟨c', hmem, heq⟩ := table_run hne h
    obtain rfl := List.append_cancel_right heq
    have hit : find messages (c ++ t) = some (c, r) := by
      cases hf : find messages (c ++ t) with
      | none =>
          have hnone := List.find?_eq_none.mp hf (c, r) hmem
          exact absurd (List.isPrefixOf_iff_prefix.mpr ⟨t, rfl⟩) hnone
      | some m =>
          obtain ⟨hm, rest', heq'⟩ := find_some messages hf
          rcases List.prefix_or_prefix_of_prefix ⟨rest', heq'.symm⟩ ⟨t, rfl⟩ with hp | hp
          · rw [hfree m hm (c, r) hmem hp]
          · rw [hfree (c, r) hmem m hm hp]
    simp only [table, hit, List.drop_left]
  incomplete {c rest r} h pre hpre hneq := by
    obtain ⟨c', hmem, heq⟩ := table_run hne h
    obtain rfl := List.append_cancel_right heq
    have miss : find messages pre = none := by
      cases hf : find messages pre with
      | none => rfl
      | some m =>
          obtain ⟨hm, rest', heq'⟩ := find_some messages hf
          have hmc : m.1 <+: c := List.IsPrefix.trans ⟨rest', heq'.symm⟩ hpre
          have hm_eq := hfree m hm (c, r) hmem hmc
          rw [hm_eq] at heq'
          change pre = c ++ rest' at heq'
          have hlen := List.IsPrefix.length_le hpre
          have hrest : rest' = [] := by
            rw [heq', List.length_append] at hlen
            exact List.eq_nil_of_length_eq_zero (by omega)
          rw [hrest, List.append_nil] at heq'
          exact absurd heq' hneq
    have hany : messages.any (fun m => pre.isPrefixOf m.1) = true :=
      List.any_eq_true.mpr ⟨(c, r), hmem, List.isPrefixOf_iff_prefix.mpr hpre⟩
    simp only [table, miss, hany, if_true]

end Table

section Line

variable [DecidableEq α]

theorem cut_text {i l rest : List α} (h : cut delim i = some (l, rest)) :
    i = l ++ rest ∧ l ≠ [] ∧ l.getLast? = some delim := by
  induction i generalizing l with
  | nil => cases h
  | cons a as ih =>
      simp only [cut] at h
      split at h
      · rename_i ha
        cases h
        exact ⟨rfl, by simp, by simp [ha]⟩
      · obtain ⟨⟨l', rest'⟩, hcut, heq⟩ := Option.map_eq_some_iff.mp h
        cases heq
        obtain ⟨htext, hne, hlast⟩ := ih hcut
        refine ⟨by rw [htext, List.cons_append], by simp, ?_⟩
        rw [← List.singleton_append, List.getLast?_append_of_ne_nil _ hne, hlast]

theorem cut_line {l : List α} (h : delim ∉ l) (rest : List α) :
    cut delim (l ++ delim :: rest) = some (l ++ [delim], rest) := by
  induction l with
  | nil => simp [cut]
  | cons a as ih =>
      simp only [List.mem_cons, not_or] at h
      rw [List.cons_append, cut, if_neg (Ne.symm h.1), ih h.2]
      rfl

/-- A cut depends on nothing behind it. -/
theorem cut_extends {c rest : List α} (h : cut delim (c ++ rest) = some (c, rest))
    (t : List α) : cut delim (c ++ t) = some (c, t) := by
  induction c with
  | nil => exact absurd rfl (cut_text h).2.1
  | cons a as ih =>
      simp only [List.cons_append, cut] at h ⊢
      split at h
      · rename_i ha
        cases h
        rw [if_pos ha]
        rfl
      · rename_i ha
        obtain ⟨⟨l', rest'⟩, hcut, heq⟩ := Option.map_eq_some_iff.mp h
        cases heq
        rw [if_neg ha, ih hcut]
        rfl

theorem cut_before {c rest : List α} (h : cut delim (c ++ rest) = some (c, rest))
    {pre : List α} (hpre : pre <+: c) (hne : pre ≠ c) : cut delim pre = none := by
  obtain ⟨more, rfl⟩ := hpre
  cases hcut : cut delim pre with
  | none => rfl
  | some r =>
      obtain ⟨l, rest'⟩ := r
      obtain ⟨rfl, -, -⟩ := cut_text hcut
      rw [List.append_assoc, List.append_assoc, cut_extends hcut] at h
      obtain ⟨hl, -⟩ := Prod.mk.inj (Option.some.inj h)
      rw [List.append_assoc, List.self_eq_append_right, List.append_eq_nil_iff] at hl
      obtain ⟨rfl, rfl⟩ := hl
      simp at hne

variable (delim)

/-- The parser of messages of one line. -/
def line (f : List α → Option ρ) : Parser α ρ where
  run i :=
    match cut delim i with
    | none => .incomplete
    | some (l, rest) =>
        match f l with
        | some r => .ok rest r
        | none => .error
  shrinks := by
    intro i rest r h
    split at h
    · cases h
    · rename_i l rest' hcut
      split at h <;> cases h
      obtain ⟨rfl, hne, -⟩ := cut_text hcut
      have := List.length_pos_iff.mpr hne
      simp only [List.length_append]
      omega

variable {delim}

theorem line_run {f : List α → Option ρ} {i rest : List α} {r : ρ} :
    (line delim f).run i = .ok rest r ↔ ∃ l, cut delim i = some (l, rest) ∧ f l = some r := by
  simp only [line]
  constructor
  · intro h
    split at h
    · cases h
    · rename_i l rest' hcut
      split at h <;> cases h
      exact ⟨l, hcut, by assumption⟩
  · rintro ⟨l, hcut, hf⟩
    simp only [hcut, hf]

theorem line_framed (f : List α → Option ρ) : (line delim f).Framed delim where
  consumes h := by
    obtain ⟨l, hcut, -⟩ := line_run.mp h
    obtain ⟨htext, hne, hlast⟩ := cut_text hcut
    exact ⟨l, hne, hlast, htext⟩
  extends_ h t := by
    obtain ⟨l, hcut, hf⟩ := line_run.mp h
    obtain rfl := List.append_cancel_right (cut_text hcut).1
    exact line_run.mpr ⟨_, cut_extends hcut t, hf⟩
  incomplete h pre hpre hne := by
    obtain ⟨l, hcut, -⟩ := line_run.mp h
    obtain rfl := List.append_cancel_right (cut_text hcut).1
    simp only [line, cut_before hcut hpre hne]

end Line

end Parser
end RustImap
