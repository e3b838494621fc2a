import RustImap.Command

/-!
Words with a space between each two of them.

They are joined one by one, and a reader that splits at the spaces gets them back.
-/

namespace RustImap

/-- `iter_join_onto`. The delimiter is written if another item follows. -/
def iterJoinOnto (w : Str) : List Str → Str → Str
  | [], _ => w
  | n :: it, delim => iterJoinOnto (if it = [] then w ++ n else w ++ n ++ delim) it delim

theorem iterJoinOnto_eq (w : Str) (items : List Str) (delim : Str) :
    iterJoinOnto w items delim = w ++ iterJoin items delim := by
  induction items generalizing w with
  | nil => simp [iterJoinOnto, iterJoin]
  | cons n it ih =>
      rw [iterJoinOnto, ih]
      cases it with
      | nil => simp [iterJoin]
      | cons n' it =>
          rw [if_neg (List.cons_ne_nil n' it), iterJoin, iterJoin, List.intercalate_cons_cons]
          simp only [List.append_assoc]

/-- The parts of a text between its spaces. The empty text has none. -/
def atSpaces (s : Str) : List Str :=
  if s = [] then [] else s.splitOn ' '

def IsWord (w : Str) : Prop := w ≠ [] ∧ ' ' ∉ w

theorem words_cons (w : Str) {ws : List Str} (h : ws ≠ []) :
    words (w :: ws) = w ++ ' ' :: words ws := by
  cases ws with
  | nil => exact absurd rfl h
  | cons v ws =>
      rw [words, words, iterJoin, iterJoin, List.intercalate_cons_cons, List.append_assoc]
      rfl

theorem words_singleton (w : Str) : words [w] = w := by
  rw [words, iterJoin, List.intercalate_singleton]

theorem words_append {ws vs : List Str} (hws : ws ≠ []) (hvs : vs ≠ []) :
    words (ws ++ vs) = words ws ++ ' ' :: words vs := by
  induction ws with
  | nil => exact absurd rfl hws
  | cons w ws ih =>
      by_cases h : ws = []
      · rw [h, List.singleton_append, words_cons w hvs, words_singleton]
      · rw [List.cons_append, words_cons w (by simp [h]), words_cons w h, ih h, List.append_assoc,
          List.cons_append]

theorem not_mem_words {c : Char} (hc : c ≠ ' ') {ws : List Str} (h : ∀ w ∈ ws, c ∉ w) :
    c ∉ words ws := by
  intro hmem
  obtain ⟨w, hw, hcw⟩ := (mem_iterJoin (by simpa using hc) ws).mp hmem
  exact h w hw hcw

/-- Words that are joined twice. -/
theorem words_map_words {wss : List (List Str)} (h : ∀ ws ∈ wss, ws ≠ []) :
    words (wss.map words) = words wss.flatten := by
  induction wss with
  | nil => rfl
  | cons ws wss ih =>
      obtain ⟨hws, hwss⟩ := List.forall_mem_cons.mp h
      cases wss with
      | nil => simp [words_singleton]
      | cons vs wss =>
          have hne : (vs :: wss).flatten ≠ [] := by
            simp [(List.forall_mem_cons.mp hwss).1]
          have joined : words (ws :: vs :: wss).flatten =
              words ws ++ ' ' :: words (vs :: wss).flatten := words_append hws hne
          rw [List.map_cons, words_cons _ (by simp), ih hwss, joined]

theorem words_eq_nil_iff {ws : List Str} (h : ∀ w ∈ ws, w ≠ []) : words ws = [] ↔ ws = [] := by
  cases ws with
  | nil => exact iff_of_true rfl rfl
  | cons w ws =>
      have hw := (List.forall_mem_cons.mp h).1
      cases ws with
      | nil => simp [words_singleton, hw]
      | cons v ws => simp [words_cons w (List.cons_ne_nil v ws)]

theorem atSpaces_words {ws : List Str} (h : ∀ w ∈ ws, IsWord w) : atSpaces (words ws) = ws := by
  by_cases hws : ws = []
  · rw [hws]
    rfl
  · have hne := (words_eq_nil_iff fun w hw => (h w hw).1).not.mpr hws
    rw [atSpaces, if_neg hne]
    exact List.splitOn_intercalate ' ' (fun w hw => (h w hw).2) hws

end RustImap
