import Mathlib.Data.List.Basic

/-!
Reading an argument of a command line.

An argument is an atom or a quoted string, in which a backslash stands before a quote or a
backslash. `known` says which characters the reader takes at all: those of ASCII if it keeps
to the letter of the grammar, any if it is told to accept UTF-8. Nothing here names the
client.
-/

namespace RustImap.Astring

/-- `quoted-specials` -/
def isQuotedSpecial (c : Char) : Bool := c = '"' || c = '\\'

def isControl (c : Char) : Bool := c.toNat < 32 || c.toNat = 127

section Reader

variable (known : Char → Bool)

/-- `TEXT-CHAR` without the `quoted-specials` -/
def isQuotedChar (c : Char) : Bool :=
  known c && !(c = '\r' || c = '\n') && !isQuotedSpecial c

/-- `ASTRING-CHAR` -/
def isAstringChar (c : Char) : Bool :=
  known c && !isControl c && !isQuotedSpecial c && c ∉ ['(', ')', '\x7b', ' ', '%', '*']

def push (c : Char) (read : Option (List Char × List Char)) : Option (List Char × List Char) :=
  read.map fun p => (c :: p.1, p.2)

/-- The text up to the closing quote, and what stands behind it. -/
def readQuoted : List Char → Option (List Char × List Char)
  | [] => none
  | '"' :: rest => some ([], rest)
  | '\\' :: c :: rest => if isQuotedSpecial c then push c (readQuoted rest) else none
  | c :: rest => if isQuotedChar known c then push c (readQuoted rest) else none

def readAtom (s : List Char) : Option (List Char × List Char) :=
  if s.takeWhile (isAstringChar known) = [] then none
  else some (s.takeWhile (isAstringChar known), s.dropWhile (isAstringChar known))

def read : List Char → Option (List Char × List Char)
  | '"' :: rest => readQuoted known rest
  | s => readAtom known s

end Reader

/-- How a character is written between quotes. -/
def escape (c : Char) : List Char := if isQuotedSpecial c then ['\\', c] else [c]

variable {known : Char → Bool}

@[simp] theorem push_eq_some {c d : Char} {o : Option (List Char × List Char)}
    {v rest : List Char} : push c o = some (d :: v, rest) ↔ c = d ∧ o = some (v, rest) := by
  cases o <;> simp [push, Prod.ext_iff]
  tauto

theorem readQuoted_cons {c : Char} (h : isQuotedSpecial c = false) (rest : List Char) :
    readQuoted known (c :: rest) =
      if isQuotedChar known c then push c (readQuoted known rest) else none := by
  have hquote : c ≠ '"' := by rintro rfl; cases h
  have hbackslash : c ≠ '\\' := by rintro rfl; cases h
  rw [readQuoted.eq_def]
  split
  · simp_all
  · simp_all
  · simp_all
  · rename_i heq
    cases heq
    rfl

theorem special_of_char {c : Char} (h : isQuotedChar known c = true) :
    isQuotedSpecial c = false := by
  rw [isQuotedChar, Bool.and_eq_true, Bool.not_eq_true'] at h
  exact h.2

/-- Reading takes up the quote, and a backslash for each quote or backslash. -/
theorem readQuoted_length {s v rest : List Char} (h : readQuoted known s = some (v, rest)) :
    v.length + rest.length < s.length := by
  induction s using readQuoted.induct known generalizing v with
  | case1 => cases h
  | case2 tail =>
      cases h
      simp
  | case3 c tail hspecial ih =>
      rw [readQuoted, if_pos hspecial] at h
      obtain ⟨⟨v', rest'⟩, htail, heq⟩ := Option.map_eq_some_iff.mp h
      cases heq
      have shorter := ih htail
      simp only [List.length_cons] at shorter ⊢
      omega
  | case4 c tail hspecial =>
      rw [readQuoted, if_neg hspecial] at h
      cases h
  | case5 c tail _ _ hchar ih =>
      rw [readQuoted_cons (special_of_char hchar), if_pos hchar] at h
      obtain ⟨⟨v', rest'⟩, htail, heq⟩ := Option.map_eq_some_iff.mp h
      cases heq
      have shorter := ih htail
      simp only [List.length_cons] at shorter ⊢
      omega
  | case6 c tail hquote hbackslash hchar =>
      rw [readQuoted.eq_4 _ _ _ hquote hbackslash, if_neg hchar] at h
      cases h

/-- A text that has been escaped is read back whole if the reader knows its characters. -/
theorem readQuoted_escape (s rest : List Char) :
    readQuoted known (s.flatMap escape ++ '"' :: rest) = some (s, rest) ↔
      ∀ c ∈ s, isQuotedSpecial c = true ∨ isQuotedChar known c = true := by
  induction s with
  | nil => simp [readQuoted]
  | cons c s ih =>
      rw [List.forall_mem_cons, List.flatMap_cons, List.append_assoc]
      cases hc : isQuotedSpecial c with
      | true =>
          simp only [escape, hc, if_true, List.cons_append, List.nil_append, readQuoted,
            push_eq_some, true_and, true_or, ih]
      | false =>
          simp only [escape, hc, Bool.false_eq_true, if_false, List.cons_append, List.nil_append,
            readQuoted_cons hc, false_or]
          split
          · simp_all
          · simp_all

/-- A text that is put between quotes as it is. -/
theorem readQuoted_bare (s rest : List Char) :
    readQuoted known (s ++ '"' :: rest) = some (s, rest) ↔
      ∀ c ∈ s, isQuotedChar known c = true := by
  induction s with
  | nil => simp [readQuoted]
  | cons c s ih =>
      rw [List.forall_mem_cons, List.cons_append]
      cases hc : isQuotedSpecial c with
      | false =>
          rw [readQuoted_cons hc]
          split
          · simp_all
          · simp_all
      | true =>
          have hchar : isQuotedChar known c = false := by simp [isQuotedChar, hc]
          refine iff_of_false (fun h => ?_) (by simp [hchar])
          rw [isQuotedSpecial, Bool.or_eq_true, decide_eq_true_iff, decide_eq_true_iff] at hc
          rcases hc with rfl | rfl
          · cases h
          · -- the backslash is gone, so too little is left to make up for it
            cases s with
            | nil => simp [readQuoted, isQuotedSpecial, push] at h
            | cons d s =>
                rw [List.cons_append, readQuoted] at h
                split at h
                · obtain ⟨-, htail⟩ := push_eq_some.mp h
                  have shorter := readQuoted_length htail
                  simp only [List.length_cons, List.length_append] at shorter
                  omega
                · cases h

/-- A text that is written as it is, at the end of the line. -/
theorem read_raw (s : List Char) {d : Char} (rest : List Char)
    (hd : isAstringChar known d = false) (hquote : d ≠ '"') :
    read known (s ++ d :: rest) = some (s, d :: rest) ↔
      s ≠ [] ∧ ∀ c ∈ s, isAstringChar known c = true := by
  have atom : readAtom known (s ++ d :: rest) = some (s, d :: rest) ↔
      s ≠ [] ∧ ∀ c ∈ s, isAstringChar known c = true := by
    constructor
    · intro h
      rw [readAtom] at h
      split at h
      · cases h
      · rename_i hne
        obtain ⟨hs, -⟩ := Prod.mk.inj (Option.some.inj h)
        rw [hs] at hne
        refine ⟨hne, fun c hc => ?_⟩
        rw [← hs] at hc
        exact List.all_eq_true.mp List.all_takeWhile c hc
    · rintro ⟨hne, hall⟩
      have htake : (s ++ d :: rest).takeWhile (isAstringChar known) = s := by
        rw [List.takeWhile_append_of_pos hall]
        simp [hd]
      have hdrop : (s ++ d :: rest).dropWhile (isAstringChar known) = d :: rest := by
        rw [List.dropWhile_append_of_pos hall]
        simp [hd]
      rw [readAtom, htake, hdrop, if_neg hne]
  rw [← atom]
  cases s with
  | nil => rw [List.nil_append, read.eq_2 _ _ fun rest' h => hquote (List.cons.inj h).1]
  | cons c s =>
      by_cases hc : c = '"'
      · subst hc
        refine iff_of_false (fun h => ?_) fun h => ?_
        · have shorter := readQuoted_length (show readQuoted known (s ++ d :: rest) = _ from h)
          simp only [List.length_cons, List.length_append] at shorter
          omega
        · have := (atom.mp h).2 '"' List.mem_cons_self
          simp [isAstringChar, isQuotedSpecial] at this
      · rw [List.cons_append, read.eq_2 _ _ fun rest' h => hc (List.cons.inj h).1]

end RustImap.Astring
