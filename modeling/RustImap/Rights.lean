import RustImap.Command

/-!
The letters of a set of rights.

`AclRights` is read from a string of letters and written as one. What is written has the
letters of what was read, each once and in order, so it is the normal form of the string.
-/

namespace RustImap

inductive AclRightError where
  | invalidRight
  deriving DecidableEq

/-- The letters and digits that stand for a right. -/
def isRight (c : Char) : Bool := c.isLower || c.isDigit

namespace AclRights

section

variable (ofChar : Char → AclRight)

/-- `AclRights::try_from`. `ofChar` is `AclRight::from`. -/
def tryFrom (input : Str) : Except AclRightError AclRights :=
  if !input.all isRight then .error .invalidRight
  else .ok (input.map ofChar).toFinset

def contains (rights : AclRights) (right : AclRight) : Bool := decide (right ∈ rights)

/-- What `try_from` ought to make of a string that it accepts. -/
structure Normalises (s : Str) (rights : AclRights) : Prop where
  increasing : (text rights).Pairwise (· < ·)
  letters : ∀ c, c ∈ text rights ↔ c ∈ s
  again : tryFrom ofChar (text rights) = .ok rights
  contained : ∀ c, isRight c = true → (contains rights (ofChar c) = true ↔ c ∈ s)
  same : ∀ t, tryFrom ofChar s = tryFrom ofChar t ↔ ∀ c, c ∈ s ↔ c ∈ t

end

section

variable {ofChar : Char → AclRight} {s : Str} {rights : AclRights}

theorem tryFrom_eq_ok_iff :
    tryFrom ofChar s = .ok rights ↔
      (∀ c ∈ s, isRight c = true) ∧ (s.map ofChar).toFinset = rights := by
  unfold tryFrom
  by_cases h : ∀ c ∈ s, isRight c = true
  · rw [List.all_eq_true.mpr h, and_iff_right h, Bool.not_true, if_neg Bool.false_ne_true,
      Except.ok.injEq]
  · have hall : s.all isRight = false := by
      rw [← Bool.not_eq_true, List.all_eq_true]
      exact h
    rw [hall, Bool.not_false, if_pos rfl]
    exact iff_of_false (by simp) fun hs => h hs.1

theorem mem_text {c : Char} : c ∈ text rights ↔ ∃ r ∈ rights, r.letter = c := by
  rw [text, Multiset.mem_sort, Multiset.mem_map]
  rfl

/-- Rights of different letters are written in strictly increasing order. -/
theorem text_increasing (h : ∀ r ∈ rights, ∀ r' ∈ rights, r.letter = r'.letter → r = r') :
    (text rights).Pairwise (· < ·) := by
  have ordered : (text rights).Pairwise (· ≤ ·) := Multiset.pairwise_sort _ _
  have distinct : (text rights).Nodup := by
    rw [← Multiset.coe_nodup, text, Multiset.sort_eq]
    exact Multiset.Nodup.map_on h rights.nodup
  apply (ordered.and distinct).imp
  intro c d hcd
  exact lt_of_le_of_ne hcd.1 hcd.2

variable (hletter : ∀ c, isRight c = true → (ofChar c).letter = c)

include hletter

theorem ofChar_mem (hs : ∀ c ∈ s, isRight c = true) {c : Char} (hc : isRight c = true) :
    ofChar c ∈ (s.map ofChar).toFinset ↔ c ∈ s := by
  rw [List.mem_toFinset, List.mem_map]
  constructor
  · rintro ⟨d, hd, heq⟩
    rwa [← hletter c hc, ← heq, hletter d (hs d hd)]
  · intro hmem
    exact ⟨c, hmem, rfl⟩

theorem mem_text_toFinset (hs : ∀ c ∈ s, isRight c = true) (c : Char) :
    c ∈ text (s.map ofChar).toFinset ↔ c ∈ s := by
  simp only [mem_text, List.mem_toFinset, List.mem_map]
  constructor
  · rintro ⟨_, ⟨d, hd, rfl⟩, rfl⟩
    rwa [hletter d (hs d hd)]
  · intro hc
    exact ⟨ofChar c, ⟨c, hc, rfl⟩, hletter c (hs c hc)⟩

theorem letter_injOn (hs : ∀ c ∈ s, isRight c = true) :
    ∀ r ∈ (s.map ofChar).toFinset, ∀ r' ∈ (s.map ofChar).toFinset,
      r.letter = r'.letter → r = r' := by
  simp only [List.mem_toFinset, List.mem_map]
  rintro _ ⟨c, hc, rfl⟩ _ ⟨d, hd, rfl⟩ heq
  rw [hletter c (hs c hc), hletter d (hs d hd)] at heq
  rw [heq]

/-- Strings are accepted as the same rights exactly if they have the same letters. -/
theorem tryFrom_same (hs : ∀ c ∈ s, isRight c = true) (t : Str) :
    tryFrom ofChar s = tryFrom ofChar t ↔ ∀ c, c ∈ s ↔ c ∈ t := by
  have accepted : tryFrom ofChar s = .ok (s.map ofChar).toFinset :=
    tryFrom_eq_ok_iff.mpr ⟨hs, rfl⟩
  rw [accepted, eq_comm, tryFrom_eq_ok_iff]
  constructor
  · rintro ⟨ht, heq⟩ c
    rw [← mem_text_toFinset hletter hs, ← heq, mem_text_toFinset hletter ht]
  · intro h
    refine ⟨fun c hc => hs c ((h c).mpr hc), ?_⟩
    ext r
    simp only [List.mem_toFinset, List.mem_map, h]

/-- What is accepted, and that it is normalised. -/
theorem tryFrom_normalises (s : Str) :
    ((∃ rights, tryFrom ofChar s = .ok rights) ↔ ∀ c ∈ s, isRight c = true) ∧
      ∀ rights, tryFrom ofChar s = .ok rights → Normalises ofChar s rights := by
  constructor
  · simp only [tryFrom_eq_ok_iff, exists_and_left, exists_eq', and_true]
  · intro rights hrights
    obtain ⟨hs, rfl⟩ := tryFrom_eq_ok_iff.mp hrights
    have letters := mem_text_toFinset hletter hs
    constructor
    · exact text_increasing (letter_injOn hletter hs)
    · exact letters
    · rw [← hrights, eq_comm]
      exact (tryFrom_same hletter hs _).mpr fun c => (letters c).symm
    · intro c hc
      rw [contains, decide_eq_true_iff, ofChar_mem hletter hs hc]
    · exact tryFrom_same hletter hs

end

/-- The variants that have a name of their own. -/
def rightName : Char → String
  | 'l' => "Lookup"
  | 'r' => "Read"
  | 's' => "Seen"
  | 'w' => "Write"
  | 'i' => "Insert"
  | 'p' => "Post"
  | 'k' => "CreateMailbox"
  | 'x' => "DeleteMailbox"
  | 't' => "DeleteMessage"
  | 'e' => "Expunge"
  | 'a' => "Administer"
  | 'n' => "Annotation"
  | 'c' => "OldCreate"
  | 'd' => "OldDelete"
  | _ => "Custom"

/-- `AclRight::from` -/
def rightOf (letter : Char) : AclRight := { variant := (rightName letter).toList, letter }

theorem tryFrom_normalises_lookup :
    ((∃ rights, tryFrom rightOf "sl0l".toList = .ok rights) ↔
        ∀ c ∈ "sl0l".toList, isRight c = true) ∧
      ∀ rights, tryFrom rightOf "sl0l".toList = .ok rights →
        Normalises rightOf "sl0l".toList rights :=
  tryFrom_normalises (fun _ _ => rfl) "sl0l".toList

end AclRights

end RustImap
