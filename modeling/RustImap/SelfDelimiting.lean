import Mathlib.Data.List.Basic

/-!
Texts that tell where they end.

If the text of a value can be told from everything that may follow it, then a sequence of
such texts can be taken apart again. The rules say which ways of putting texts together keep
this. Alphabet and values are arbitrary.
-/

namespace RustImap

/-- What begins with the text of a value tells the value and what follows its text. -/
def SelfDelimiting {α β : Type} (code : β → List α) : Prop :=
  ∀ a b s t, code a ++ s = code b ++ t → a = b ∧ s = t

namespace SelfDelimiting

variable {α β γ : Type} {f : β → List α} {g : γ → List α}

theorem injective (h : SelfDelimiting f) : Function.Injective f := by
  intro a b hab
  apply (h a b [] [] _).1
  rw [hab]

theorem pair (hf : SelfDelimiting f) (hg : SelfDelimiting g) :
    SelfDelimiting fun p : β × γ => f p.1 ++ g p.2 := by
  intro p q s t h
  simp only [List.append_assoc] at h
  have first := hf _ _ _ _ h
  have second := hg _ _ _ _ first.2
  exact ⟨Prod.ext first.1 second.1, second.2⟩

theorem before (pre : List α) (hf : SelfDelimiting f) :
    SelfDelimiting fun a => pre ++ f a := by
  intro a b s t h
  simp only [List.append_assoc] at h
  exact hf a b s t (List.append_cancel_left h)

/-- A value that may be missing; a text of its own says so. -/
theorem option {absent : List α} (hf : SelfDelimiting f)
    (habsent : ∀ a s t, absent ++ s ≠ f a ++ t) :
    SelfDelimiting fun o : Option β => (o.map f).getD absent := by
  intro o o' s t h
  cases o with
  | none =>
      cases o' with
      | none => exact ⟨rfl, List.append_cancel_left h⟩
      | some b => exact absurd h (habsent b s t)
  | some a =>
      cases o' with
      | none => exact absurd h.symm (habsent a t s)
      | some b =>
          have same := hf a b s t h
          exact ⟨by rw [same.1], same.2⟩

/-- The rest of a list: a separator before each item, and the end. -/
theorem items (hf : SelfDelimiting f) {sep close : α} (hsep : sep ≠ close) :
    SelfDelimiting fun as : List β => as.flatMap (fun a => sep :: f a) ++ [close] := by
  intro as
  induction as with
  | nil =>
      intro bs s t h
      cases bs with
      | nil => exact ⟨rfl, (List.cons.inj h).2⟩
      | cons b bs => exact absurd (List.cons.inj h).1 hsep.symm
  | cons a as ih =>
      intro bs s t h
      cases bs with
      | nil => exact absurd (List.cons.inj h).1 hsep
      | cons b bs =>
          simp only [List.flatMap_cons, List.cons_append, List.append_assoc, List.nil_append] at h
          have first := hf a b _ _ (List.cons.inj h).2
          have rest := ih bs s t (by
            simpa only [List.append_assoc, List.cons_append, List.nil_append] using first.2)
          exact ⟨by rw [first.1, rest.1], rest.2⟩

theorem intercalate_cons (sep : α) (x : List α) (xs : List (List α)) :
    [sep].intercalate (x :: xs) = x ++ xs.flatMap (sep :: ·) := by
  induction xs generalizing x with
  | nil => simp
  | cons y ys ih =>
      rw [List.intercalate_cons_cons, ih y, List.flatMap_cons, List.append_assoc]
      rfl

/-- A list with separators between the items, if no item begins like the end. -/
theorem list (hf : SelfDelimiting f) {sep close : α} (hsep : sep ≠ close)
    (hclose : ∀ a s t, f a ++ s ≠ close :: t) :
    SelfDelimiting fun as : List β => [sep].intercalate (as.map f) ++ [close] := by
  have joined : ∀ (a : β) (as : List β) (s : List α),
      [sep].intercalate ((a :: as).map f) ++ [close] ++ s =
        f a ++ (as.flatMap (fun a => sep :: f a) ++ [close] ++ s) := by
    intro a as s
    rw [List.map_cons, intercalate_cons, List.flatMap_map]
    simp only [List.append_assoc]
  intro as bs s t h
  cases as with
  | nil =>
      cases bs with
      | nil => exact ⟨rfl, (List.cons.inj h).2⟩
      | cons b bs => exact absurd ((joined b bs t).symm.trans h.symm) (hclose b _ _)
  | cons a as =>
      cases bs with
      | nil => exact absurd ((joined a as s).symm.trans h) (hclose a _ _)
      | cons b bs =>
          have first := hf a b _ _ ((joined a as s).symm.trans (h.trans (joined b bs t)))
          have rest := hf.items hsep as bs s t first.2
          exact ⟨by rw [first.1, rest.1], rest.2⟩

end SelfDelimiting
end RustImap
