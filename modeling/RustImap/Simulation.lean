import RustImap.Exec

/-!
Two computations run side by side.

They may work on states of different types, tied together by a relation. Related
computations end the same way, and leave related states whatever way it is. Nothing here
names the client.
-/

namespace RustImap.Exec

variable {S T ε α β γ δ : Type}

/-- The same failure, or values that are related. -/
inductive Agree (R : α → β → Prop) : Except ε α → Except ε β → Prop
  | ok {a : α} {b : β} : R a b → Agree R (.ok a) (.ok b)
  | error (e : ε) : Agree R (.error e) (.error e)

def Simulates (I : S → T → Prop) (R : α → β → Prop) (x : Exec S ε α) (y : Exec T ε β) : Prop :=
  ∀ s t, I s t → Agree R (x s).1 (y t).1 ∧ I (x s).2 (y t).2

variable {I : S → T → Prop} {R : α → β → Prop} {R' : γ → δ → Prop}

namespace Simulates

theorem pure {a : α} {b : β} (h : R a b) :
    Simulates I R (Pure.pure a : Exec S ε α) (Pure.pure b : Exec T ε β) :=
  fun _ _ hI => ⟨.ok h, hI⟩

theorem fail (e : ε) : Simulates I R (Exec.fail e : Exec S ε α) (Exec.fail e : Exec T ε β) :=
  fun _ _ hI => ⟨.error e, hI⟩

theorem bind {x : Exec S ε α} {y : Exec T ε β} {f : α → Exec S ε γ} {g : β → Exec T ε δ}
    (h : Simulates I R x y) (hf : ∀ a b, R a b → Simulates I R' (f a) (g b)) :
    Simulates I R' (x >>= f) (y >>= g) := by
  intro s t hI
  obtain ⟨hagree, hstate⟩ := h s t hI
  rw [bind_apply, bind_apply]
  generalize x s = rx at hagree hstate ⊢
  generalize y t = ry at hagree hstate ⊢
  obtain ⟨ra, s'⟩ := rx
  obtain ⟨rb, t'⟩ := ry
  cases hagree with
  | ok hab => exact hf _ _ hab s' t' hstate
  | error e => exact ⟨.error e, hstate⟩

end Simulates

end RustImap.Exec
