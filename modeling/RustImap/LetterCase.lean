import Mathlib
import RustImap.Text

/-!
Strings up to the case of ASCII letters, and strings cut at a byte.

A change of case keeps the length of every character in bytes, so it moves no character
boundary. A string without letters has no other case.
-/

namespace RustImap.Str

/-- `str::to_ascii_lowercase` -/
def toAsciiLowercase (s : Str) : Str := s.map Char.toLower

def toAsciiUppercase (s : Str) : Str := s.map Char.toUpper

/-- `str::eq_ignore_ascii_case` -/
def EqIgnoreAsciiCase (a b : Str) : Prop := toAsciiLowercase a = toAsciiLowercase b

instance (a b : Str) : Decidable (EqIgnoreAsciiCase a b) := inferInstanceAs (Decidable (_ = _))

/-- `str::len`, the number of bytes. -/
def len (s : Str) : Nat := (s.map Char.utf8Size).sum

/-- `str::split_at`; `none` where it panics. -/
def splitAt : Nat → Str → Option (Str × Str)
  | 0, s => some ([], s)
  | _ + 1, [] => none
  | mid + 1, c :: s =>
      if c.utf8Size ≤ mid + 1 then
        (splitAt (mid + 1 - c.utf8Size) s).map fun p => (c :: p.1, p.2)
      else none

/-- `str::is_char_boundary` -/
def isCharBoundary (s : Str) (index : Nat) : Bool := s.inits.any fun pre => len pre = index

def hasLetter (s : Str) : Bool := s.any Char.isAlpha

namespace EqIgnoreAsciiCase

variable {a b c : Str}

theorem refl (a : Str) : EqIgnoreAsciiCase a a := rfl

theorem symm (h : EqIgnoreAsciiCase a b) : EqIgnoreAsciiCase b a := Eq.symm h

theorem trans (h : EqIgnoreAsciiCase a b) (h' : EqIgnoreAsciiCase b c) : EqIgnoreAsciiCase a c :=
  Eq.trans h h'

theorem lowercase (a : Str) : EqIgnoreAsciiCase (toAsciiLowercase a) a := by
  simp [EqIgnoreAsciiCase, toAsciiLowercase]

theorem uppercase (a : Str) : EqIgnoreAsciiCase (toAsciiUppercase a) a := by
  simp [EqIgnoreAsciiCase, toAsciiLowercase, toAsciiUppercase]

theorem length (h : EqIgnoreAsciiCase a b) : a.length = b.length := by
  have same := congrArg List.length h
  simpa only [toAsciiLowercase, List.length_map] using same

theorem toAsciiUppercase_eq (h : EqIgnoreAsciiCase a b) :
    toAsciiUppercase a = toAsciiUppercase b := by
  have same := congrArg (List.map Char.toUpper) h
  have upper : Char.toUpper ∘ Char.toLower = Char.toUpper := by
    funext c
    exact Char.toUpper_toLower_eq_toUpper c
  rwa [toAsciiLowercase, toAsciiLowercase, List.map_map, List.map_map, upper] at same

theorem append (h : EqIgnoreAsciiCase a b) {a' b' : Str} (h' : EqIgnoreAsciiCase a' b') :
    EqIgnoreAsciiCase (a ++ a') (b ++ b') := by
  simp only [EqIgnoreAsciiCase, toAsciiLowercase, List.map_append] at h h' ⊢
  rw [h, h']

/-- A change of case in a text changes the case in its parts. -/
theorem of_append {pre post : Str} (h : EqIgnoreAsciiCase (pre ++ post) a) :
    ∃ pre' post', a = pre' ++ post' ∧ EqIgnoreAsciiCase pre pre' ∧
      EqIgnoreAsciiCase post post' := by
  rw [EqIgnoreAsciiCase, toAsciiLowercase, toAsciiLowercase, List.map_append] at h
  obtain ⟨pre', post', heq, hpre, hpost⟩ := List.map_eq_append_iff.mp h.symm
  exact ⟨pre', post', heq, hpre.symm, hpost.symm⟩

theorem hasLetter_eq (h : EqIgnoreAsciiCase a b) : hasLetter a = hasLetter b := by
  have lower : ∀ s, hasLetter s = (toAsciiLowercase s).any Char.isAlpha := by
    intro s
    rw [toAsciiLowercase, List.any_map, hasLetter]
    congr 1
    funext c
    exact (Char.isAlpha_toLower_eq_isAlpha c).symm
  rw [lower, lower, h]

theorem toAsciiLowercase_self (h : hasLetter a = false) : toAsciiLowercase a = a := by
  induction a with
  | nil => rfl
  | cons c a ih =>
      rw [hasLetter, List.any_cons, Bool.or_eq_false_iff] at h
      have hupper : ¬ c.isUpper := by
        intro hc
        rw [Char.isAlpha, hc] at h
        exact absurd h.1 (by simp)
      rw [toAsciiLowercase, List.map_cons, Char.toLower_eq_of_not_isUpper hupper]
      exact congrArg (c :: ·) (ih h.2)

/-- A string without letters is written in one way only. -/
theorem eq_of_not_hasLetter (h : EqIgnoreAsciiCase a b) (ha : hasLetter a = false) : b = a := by
  have hb : hasLetter b = false := h.hasLetter_eq.symm.trans ha
  rw [← toAsciiLowercase_self ha, h, toAsciiLowercase_self hb]

/-- A string with a letter is not written in capitals and in small letters alike. -/
theorem uppercase_ne (ha : hasLetter a = true) (b : Str) :
    toAsciiUppercase b ≠ toAsciiLowercase a := by
  intro h
  obtain ⟨c, hc, halpha⟩ := List.any_eq_true.mp ha
  have hmem : c.toLower ∈ toAsciiUppercase b := by
    rw [h]
    exact List.mem_map_of_mem hc
  obtain ⟨d, -, hd⟩ := List.mem_map.mp hmem
  have lower : c.toLower.isLower = true := by
    rw [Char.isLower_toLower_eq_isAlpha, halpha]
  rw [← hd, Char.isLower_toUpper_eq_false] at lower
  cases lower

end EqIgnoreAsciiCase

theorem utf8Size_toLower (c : Char) : c.toLower.utf8Size = c.utf8Size := by
  have ascii : ∀ d : Char, d.isAlpha = true → d.utf8Size = 1 := by
    intro d hd
    rw [Char.utf8Size_eq_one_iff]
    simp only [Char.isAlpha, Char.isUpper, Char.isLower, Bool.or_eq_true, Bool.decide_and,
      Bool.and_eq_true, decide_eq_true_eq, UInt32.le_iff_toNat_le] at hd
    have upper : 'Z'.val.toNat = 90 := rfl
    have lower : 'z'.val.toNat = 122 := rfl
    rw [UInt32.le_iff_toNat_le]
    change d.val.toNat ≤ 127
    omega
  by_cases h : c.isAlpha = true
  · rw [ascii c h, ascii c.toLower (by rw [Char.isAlpha_toLower_eq_isAlpha, h])]
  · have hupper : ¬ c.isUpper := by
      intro hc
      exact h (by rw [Char.isAlpha, hc, Bool.true_or])
    rw [Char.toLower_eq_of_not_isUpper hupper]

@[simp] theorem len_append (s t : Str) : len (s ++ t) = len s + len t := by
  simp [len]

theorem EqIgnoreAsciiCase.len {a b : Str} (h : EqIgnoreAsciiCase a b) : len a = len b := by
  have lower : ∀ s, Str.len s = Str.len (toAsciiLowercase s) := by
    intro s
    simp only [Str.len, toAsciiLowercase, List.map_map]
    congr 2
    funext c
    exact (utf8Size_toLower c).symm
  rw [lower a, lower b, h]

theorem len_eq_zero {s : Str} (h : len s = 0) : s = [] := by
  cases s with
  | nil => rfl
  | cons c s =>
      have positive := c.utf8Size_pos
      simp only [len, List.map_cons, List.sum_cons] at h
      omega

theorem len_cons (c : Char) (s : Str) : len (c :: s) = c.utf8Size + len s := by
  simp [len]

theorem splitAt_zero {s pre post : Str} :
    splitAt 0 s = some (pre, post) ↔ s = pre ++ post ∧ len pre = 0 := by
  have hzero : splitAt 0 s = some ([], s) := by cases s <;> rfl
  rw [hzero, Option.some.injEq, Prod.mk.injEq]
  constructor
  · intro h
    rw [← h.1, ← h.2]
    exact ⟨rfl, rfl⟩
  · intro h
    have hpre := len_eq_zero h.2
    exact ⟨hpre.symm, by rw [h.1, hpre, List.nil_append]⟩

/-- A string is split where a prefix of it has the right number of bytes. -/
theorem splitAt_eq_some {mid : Nat} {s pre post : Str} :
    splitAt mid s = some (pre, post) ↔ s = pre ++ post ∧ len pre = mid := by
  induction s generalizing mid pre with
  | nil =>
      cases mid with
      | zero => exact splitAt_zero
      | succ mid =>
          apply iff_of_false (by simp [splitAt])
          intro h
          have hpre := (List.append_eq_nil_iff.mp h.1.symm).1
          rw [hpre] at h
          cases h.2
  | cons c s ih =>
      cases mid with
      | zero => exact splitAt_zero
      | succ mid =>
          rw [splitAt]
          constructor
          · intro h
            split at h
            · obtain ⟨p, hp, heq⟩ := Option.map_eq_some_iff.mp h
              cases heq
              have hrest := ih.mp hp
              rw [List.cons_append, ← hrest.1, len_cons, hrest.2]
              exact ⟨rfl, by omega⟩
            · cases h
          · intro h
            cases pre with
            | nil => cases h.2
            | cons d pre =>
                have hlen := h.2
                have hcons := List.cons.inj h.1
                rw [len_cons, ← hcons.1] at hlen
                rw [if_pos (by omega), ih.mpr ⟨hcons.2, by omega⟩, ← hcons.1]
                rfl

theorem isCharBoundary_iff {index : Nat} {s : Str} :
    isCharBoundary s index = true ↔ ∃ pre post, s = pre ++ post ∧ len pre = index := by
  simp only [isCharBoundary, List.any_eq_true, List.mem_inits, decide_eq_true_iff]
  constructor
  · intro h
    obtain ⟨pre, ⟨post, heq⟩, hlen⟩ := h
    exact ⟨pre, post, heq.symm, hlen⟩
  · intro h
    obtain ⟨pre, post, heq, hlen⟩ := h
    exact ⟨pre, ⟨post, heq.symm⟩, hlen⟩

/-- Splitting panics exactly where there is no boundary between characters. -/
theorem splitAt_eq_none {mid : Nat} {s : Str} :
    splitAt mid s = none ↔ ¬ isCharBoundary s mid = true := by
  rw [isCharBoundary_iff]
  constructor
  · intro h hboundary
    obtain ⟨pre, post, hsplit⟩ := hboundary
    rw [splitAt_eq_some.mpr hsplit] at h
    cases h
  · intro h
    cases hsplit : splitAt mid s with
    | none => rfl
    | some p => exact absurd ⟨p.1, p.2, splitAt_eq_some.mp hsplit⟩ h

end RustImap.Str
