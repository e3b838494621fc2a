import RustImap.LineReader

/-!
The messages in a text.

A text is read line by line. A line that completes a message ends it, one that can be
skipped is dropped, and after a line at which no message can go on the reading starts afresh.
More text never changes which messages are in the text before it. Alphabet, delimiter and
message type are arbitrary.
-/

namespace RustImap

variable {α ρ κ : Type}

section Lines

variable [DecidableEq α] {delim : α}

/-- The lines of a text have one line each. -/
theorem linesOf_of_mem {xs l : List α} (h : l ∈ linesOf delim xs) : linesOf delim l = [l] := by
  induction xs generalizing l with
  | nil => cases h
  | cons a xs ih =>
      rw [linesOf] at h
      split at h
      · rename_i ha
        rcases List.mem_cons.mp h with rfl | h
        · simp [linesOf, ha]
        · exact ih h
      · rename_i ha
        split at h
        · obtain rfl := List.mem_singleton.mp h
          simp [linesOf, ha]
        · rename_i l' ls hls
          rcases List.mem_cons.mp h with rfl | h
          · rw [linesOf, if_neg ha, ih (hls ▸ List.mem_cons_self)]
          · exact ih (hls ▸ List.mem_cons_of_mem l' h)

theorem linesOf_eq_nil {xs : List α} (h : linesOf delim xs = []) : xs = [] := by
  cases xs with
  | nil => rfl
  | cons a xs =>
      rw [linesOf] at h
      split at h
      · cases h
      · split at h <;> cases h

/-- Reading a line that is the whole text. -/
theorem takeLine_line_map {l : List α} (h : linesOf delim l = [l]) :
    takeLine delim (l.map .item : List (Event α κ)) = (l, none, []) := by
  induction l with
  | nil => cases h
  | cons a l ih =>
      rw [linesOf] at h
      split at h
      · rename_i ha
        obtain ⟨heq, -⟩ := List.cons.inj h
        obtain rfl : l = [] := by simpa using heq.symm
        simp [takeLine, ha]
      · rename_i ha
        cases hl : linesOf delim l with
        | nil =>
            obtain rfl := linesOf_eq_nil hl
            simp [takeLine, ha]
        | cons l' ls =>
            rw [hl] at h
            obtain ⟨heq, rfl⟩ := List.cons.inj h
            obtain rfl := (List.cons.inj heq).2
            simp [takeLine, ha, ih hl]

/-- Whole lines and then a part of one. -/
theorem exists_unended (delim : α) (xs : List α) :
    ∃ ys x, xs = ys ++ x ∧ (ys = [] ∨ ys.getLast? = some delim) ∧ delim ∉ x := by
  induction xs with
  | nil => exact ⟨[], [], rfl, .inl rfl, List.not_mem_nil⟩
  | cons a xs ih =>
      obtain ⟨ys, x, rfl, hys, hx⟩ := ih
      by_cases hnil : ys = []
      · subst hnil
        by_cases ha : a = delim
        · exact ⟨[a], x, rfl, .inr (by rw [ha]; rfl), hx⟩
        · exact ⟨[], a :: x, rfl, .inl rfl, List.not_mem_cons_of_ne_of_not_mem (Ne.symm ha) hx⟩
      · refine ⟨a :: ys, x, rfl, .inr ?_, hx⟩
        rw [List.getLast?_cons_of_ne_nil hnil]
        exact hys.resolve_left hnil

theorem linesOf_unended {x : List α} (hx : delim ∉ x) :
    linesOf delim x = [] ∨ linesOf delim x = [x] := by
  induction x with
  | nil => exact .inl rfl
  | cons a x ih =>
      simp only [List.mem_cons, not_or] at hx
      right
      rw [linesOf, if_neg (Ne.symm hx.1)]
      rcases ih hx.2 with h | h
      · obtain rfl := linesOf_eq_nil h
        rfl
      · rw [h]

end Lines

/-- What has been read of an unfinished message, and the messages before it. -/
structure Scan (α ρ : Type) where
  v : List α
  messages : List ρ

namespace Scan

variable (p : Parser α ρ) (skip : List α → Bool)

def line (s : Scan α ρ) (l : List α) : Scan α ρ :=
  if skip (s.v ++ l) then { s with v := [] }
  else
    match p.run (s.v ++ l) with
    | .ok rest r =>
        ⟨(s.v ++ l).drop ((s.v ++ l).length - rest.length), s.messages ++ [r]⟩
    | .incomplete => { s with v := s.v ++ l }
    | .error => { s with v := [] }

def lines (s : Scan α ρ) (ls : List (List α)) : Scan α ρ := ls.foldl (line p skip) s

def start : Scan α ρ := ⟨[], []⟩

/-- A message can begin or go on. -/
def Ready (s : Scan α ρ) : Prop := s.v = [] ∨ p.run s.v = .incomplete

variable {p skip}

theorem lines_append (s : Scan α ρ) (ls ls' : List (List α)) :
    s.lines p skip (ls ++ ls') = (s.lines p skip ls).lines p skip ls' :=
  List.foldl_append

theorem line_skip {s : Scan α ρ} {l : List α} (h : skip (s.v ++ l) = true) :
    s.line p skip l = { s with v := [] } := by
  rw [line, if_pos h]

theorem line_ok {s : Scan α ρ} {l rest : List α} {r : ρ} (hskip : skip (s.v ++ l) = false)
    (h : p.run (s.v ++ l) = .ok rest r) :
    s.line p skip l =
      ⟨(s.v ++ l).drop ((s.v ++ l).length - rest.length), s.messages ++ [r]⟩ := by
  simp [line, hskip, h]

theorem line_incomplete {s : Scan α ρ} {l : List α} (hskip : skip (s.v ++ l) = false)
    (h : p.run (s.v ++ l) = .incomplete) : s.line p skip l = { s with v := s.v ++ l } := by
  simp [line, hskip, h]

theorem line_error {s : Scan α ρ} {l : List α} (hskip : skip (s.v ++ l) = false)
    (h : p.run (s.v ++ l) = .error) : s.line p skip l = { s with v := [] } := by
  simp [line, hskip, h]

variable (p skip) in
theorem line_messages (s : Scan α ρ) (l : List α) :
    ∃ more, (s.line p skip l).messages = s.messages ++ more := by
  unfold line
  split
  · exact ⟨[], (List.append_nil _).symm⟩
  · split
    · exact ⟨_, rfl⟩
    · exact ⟨[], (List.append_nil _).symm⟩
    · exact ⟨[], (List.append_nil _).symm⟩

theorem lines_messages (s : Scan α ρ) (ls : List (List α)) :
    ∃ more, (s.lines p skip ls).messages = s.messages ++ more := by
  induction ls generalizing s with
  | nil => exact ⟨[], (List.append_nil _).symm⟩
  | cons l ls ih =>
      obtain ⟨more, hmore⟩ := s.line_messages p skip l
      obtain ⟨more', hmore'⟩ := ih (s.line p skip l)
      refine ⟨more ++ more', ?_⟩
      change ((s.line p skip l).lines p skip ls).messages = _
      rw [hmore', hmore, List.append_assoc]

variable [DecidableEq α] {delim : α}

/-- A line that completes a message is used up by it. -/
theorem Ready.accepts (hp : p.Framed delim) {s : Scan α ρ} (h : s.Ready p) {l : List α}
    (hl : linesOf delim l = [l]) {rest : List α} {r : ρ} (hrun : p.run (s.v ++ l) = .ok rest r) :
    p.Accepts (s.v ++ l) r := by
  have hne : l ≠ [] := by
    rintro rfl
    cases hl
  have run : UnitRun p delim (fun _ => true) s.v (l.map .item : List (Event α Empty))
      ⟨s.v ++ l, .unit r, []⟩ := .unit (takeLine_line_map hl) hne rfl hrun
  exact run.accepts hp h rfl

theorem Ready.line (hp : p.Framed delim) {s : Scan α ρ} (h : s.Ready p) {l : List α}
    (hl : linesOf delim l = [l]) : (s.line p skip l).Ready p := by
  unfold Scan.line
  split
  · exact .inl rfl
  · split
    · rename_i rest r hrun
      have hacc := h.accepts hp hl hrun
      rw [Parser.Accepts, hrun] at hacc
      cases hacc
      exact .inl (by simp)
    · rename_i hrun
      exact .inr hrun
    · exact .inl rfl

theorem Ready.lines (hp : p.Framed delim) {s : Scan α ρ} (h : s.Ready p) {ls : List (List α)}
    (hls : ∀ l ∈ ls, linesOf delim l = [l]) : (s.lines p skip ls).Ready p := by
  induction ls generalizing s with
  | nil => exact h
  | cons l ls ih =>
      obtain ⟨hl, hls⟩ := List.forall_mem_cons.mp hls
      exact ih (h.line hp hl) hls

variable (skip) in
/-- A part of a line completes no message. -/
theorem Ready.line_unended (hp : p.Framed delim) {s : Scan α ρ} (h : s.Ready p) {x : List α}
    (hx : delim ∉ x) (hline : linesOf delim x = [x]) :
    (s.line p skip x).messages = s.messages := by
  unfold Scan.line
  split
  · rfl
  · split
    · rename_i rest r hrun
      have hlast := hp.getLast? (h.accepts hp hline hrun)
      have hne : x ≠ [] := by
        rintro rfl
        cases hline
      rw [List.getLast?_append_of_ne_nil _ hne] at hlast
      exact absurd (List.mem_of_getLast? hlast) hx
    · rfl
    · rfl

end Scan

open Scan (start)

variable [DecidableEq α] (p : Parser α ρ) (skip : List α → Bool) (delim : α)

/-- The messages in a text. -/
def messagesIn (text : List α) : List ρ := (start.lines p skip (linesOf delim text)).messages

/-- The messages before the first line that does not pass the guard. -/
def messagesBefore (guard : List α → Bool) (text : List α) : List ρ :=
  (start.lines p skip ((linesOf delim text).takeWhile guard)).messages

variable {p skip delim}

variable (skip) in
/-- More text keeps the messages of the text before it. -/
theorem messagesIn_append (hp : p.Framed delim) (a b : List α) :
    ∃ more, messagesIn p skip delim (a ++ b) = messagesIn p skip delim a ++ more := by
  obtain ⟨ys, x, rfl, hys, hx⟩ := exists_unended delim a
  have same : messagesIn p skip delim (ys ++ x) = messagesIn p skip delim ys := by
    rw [messagesIn, linesOf_append hys, Scan.lines_append]
    rcases linesOf_unended hx with h | h
    · rw [h]
      rfl
    · have ready : (start.lines p skip (linesOf delim ys)).Ready p :=
        Scan.Ready.lines hp (.inl rfl) fun l hl => linesOf_of_mem hl
      rw [h]
      exact ready.line_unended skip hp hx h
  rw [same, List.append_assoc, messagesIn, linesOf_append hys, Scan.lines_append]
  exact Scan.lines_messages _ _

variable (p skip delim) in
theorem messagesBefore_prefix (guard : List α → Bool) (text : List α) :
    ∃ more, messagesIn p skip delim text = messagesBefore p skip delim guard text ++ more := by
  rw [messagesIn, ← List.takeWhile_append_dropWhile (p := guard) (l := linesOf delim text),
    Scan.lines_append]
  exact Scan.lines_messages _ _

end RustImap
