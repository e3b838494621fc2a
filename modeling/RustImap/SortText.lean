import RustImap.Words

/-!
The sort criteria on the wire.

A criterion is a key behind a number of `REVERSE`, with spaces between them, and so are the
criteria of a list. No key is `REVERSE`, so what is written determines the list: the reader
counts each run of `REVERSE` and wraps the key after it that often.
-/

namespace RustImap

namespace SortCriterion

/-- The words of a criterion. -/
def tokens : SortCriterion → List Str
  | .reverse c => "REVERSE".toList :: c.tokens
  | key => [key.text]

/-- `n` times `Reverse`. -/
def reversed (c : SortCriterion) : Nat → SortCriterion
  | 0 => c
  | n + 1 => .reverse (c.reversed n)

def ofKey (token : Str) : Option SortCriterion :=
  if token = "ARRIVAL".toList then some .arrival
  else if token = "CC".toList then some .cc
  else if token = "DATE".toList then some .date
  else if token = "FROM".toList then some .from_
  else if token = "SIZE".toList then some .size
  else if token = "SUBJECT".toList then some .subject
  else if token = "TO".toList then some .to_
  else none

/-- Attach each run of `REVERSE` to the key after it. `n` counts the run that has begun. -/
def attach (n : Nat) : List Str → Option (List SortCriterion)
  | [] => if n = 0 then some [] else none
  | token :: rest =>
      if token = "REVERSE".toList then attach (n + 1) rest
      else do
        let key ← ofKey token
        let criteria ← attach 0 rest
        some (key.reversed n :: criteria)

/-- Read the text of some criteria. -/
def read (text : Str) : Option (List SortCriterion) :=
  if text = [] then some []
  else if text = parens text.tail.dropLast then attach 0 (atSpaces text.tail.dropLast)
  else none

theorem reversed_reverse (c : SortCriterion) (n : Nat) :
    (reverse c).reversed n = c.reversed (n + 1) := by
  induction n with
  | zero => rfl
  | succ n ih =>
      rw [reversed, ih]
      rfl

theorem tokens_ne_nil (c : SortCriterion) : c.tokens ≠ [] := by
  cases c <;> simp [tokens]

theorem words_tokens (c : SortCriterion) : words c.tokens = c.text := by
  induction c with
  | reverse c ih =>
      rw [tokens, words_cons _ (tokens_ne_nil c), ih]
      rfl
  | _ => exact words_singleton _

theorem isWord_tokens (c : SortCriterion) : ∀ w ∈ c.tokens, IsWord w := by
  induction c with
  | reverse c ih =>
      intro w hw
      rcases List.mem_cons.mp hw with rfl | hw
      · exact ⟨by decide, by decide⟩
      · exact ih w hw
  | _ =>
      intro w hw
      rw [List.mem_singleton.mp hw]
      exact ⟨by decide, by decide⟩

/-- The run before a criterion adds to its own. -/
theorem attach_tokens (c : SortCriterion) (n : Nat) (rest : List Str) :
    attach n (c.tokens ++ rest) = (attach 0 rest).map (c.reversed n :: ·) := by
  induction c generalizing n with
  | reverse c ih =>
      rw [tokens, List.cons_append, attach, if_pos rfl, ih, reversed_reverse]
  | _ =>
      rw [tokens, List.singleton_append, attach, if_neg (by decide)]
      · cases attach 0 rest <;> rfl
      · intro _ h
        cases h

theorem attach_flatMap (criteria : List SortCriterion) :
    attach 0 (criteria.flatMap tokens) = some criteria := by
  induction criteria with
  | nil => rfl
  | cons c criteria ih =>
      rw [List.flatMap_cons, attach_tokens, ih]
      rfl

theorem words_texts (criteria : List SortCriterion) :
    words (criteria.map text) = words (criteria.flatMap tokens) := by
  have each : criteria.map text = (criteria.map tokens).map words := by
    rw [List.map_map]
    exact List.map_congr_left fun c _ => (words_tokens c).symm
  rw [each, words_map_words, List.flatMap_def]
  intro ws hws
  obtain ⟨c, -, rfl⟩ := List.mem_map.mp hws
  exact tokens_ne_nil c

/-- Reading undoes writing. -/
theorem read_sortCriteria (criteria : List SortCriterion) :
    read (sortCriteria criteria) = some criteria := by
  by_cases h : criteria = []
  · subst h
    rfl
  · have isWords : ∀ w ∈ criteria.flatMap tokens, IsWord w := by
      intro w hw
      obtain ⟨c, -, hwc⟩ := List.mem_flatMap.mp hw
      exact isWord_tokens c w hwc
    have inside : (parens (words (criteria.flatMap tokens))).tail.dropLast =
        words (criteria.flatMap tokens) := by simp [parens]
    rw [sortCriteria, if_neg h, words_texts, read, if_neg (by simp [parens]), inside, if_pos rfl,
      atSpaces_words isWords, attach_flatMap]

/-- The text determines the criteria, and the reader finds them. -/
theorem sortCriteria_injective :
    (∀ criteria, read (sortCriteria criteria) = some criteria) ∧
      ∀ criteria criteria', sortCriteria criteria = sortCriteria criteria' →
        criteria = criteria' := by
  refine ⟨read_sortCriteria, fun criteria criteria' h => ?_⟩
  have same := read_sortCriteria criteria
  rw [h, read_sortCriteria] at same
  exact (Option.some.inj same).symm

end SortCriterion

end RustImap
