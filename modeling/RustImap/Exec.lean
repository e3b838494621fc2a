import Mathlib.Data.List.Basic

/-!
State-passing computations that can fail.

A computation that fails keeps the state it had reached: an early return does not
undo what was done before it. The rules say how computations compose, how a
computation acts on one component of a larger state, and how an invariant of the
state survives them. Nothing here names the client.
-/

namespace RustImap

/-- From a state to a value or a fault, and the state reached. -/
def Exec (S ε α : Type) : Type := S → Except ε α × S

namespace Exec

variable {S T ε α β : Type}

/-- A step given by what it does to the state. -/
def of (f : S → Except ε α × S) : Exec S ε α := f

def pass (a : α) : Exec S ε α := fun s => (.ok a, s)

def fail (e : ε) : Exec S ε α := fun s => (.error e, s)

def seq (x : Exec S ε α) (f : α → Exec S ε β) : Exec S ε β := fun s =>
  match x s with
  | (.ok a, s') => f a s'
  | (.error e, s') => (.error e, s')

instance : Monad (Exec S ε) where
  pure := pass
  bind := seq

/-- A value or a fault that was decided without touching the state. -/
def lift (r : Except ε α) : Exec S ε α := fun s => (r, s)

/-- Run a computation on one component of the state. -/
def on (get : S → T) (set : T → S → S) (x : Exec T ε α) : Exec S ε α := fun s =>
  ((x (get s)).1, set (x (get s)).2 s)

@[simp] theorem of_apply (f : S → Except ε α × S) (s : S) : of f s = f s := rfl

@[simp] theorem pure_apply (a : α) (s : S) : (pure a : Exec S ε α) s = (.ok a, s) := rfl

@[simp] theorem fail_apply (e : ε) (s : S) : (fail e : Exec S ε α) s = (.error e, s) := rfl

@[simp] theorem lift_apply (r : Except ε α) (s : S) : (lift r : Exec S ε α) s = (r, s) := rfl

theorem bind_apply (x : Exec S ε α) (f : α → Exec S ε β) (s : S) :
    (x >>= f) s =
      match x s with
      | (.ok a, s') => f a s'
      | (.error e, s') => (.error e, s') := rfl

theorem bind_ok {x : Exec S ε α} {f : α → Exec S ε β} {s s' : S} {a : α}
    (h : x s = (.ok a, s')) : (x >>= f) s = f a s' := by
  rw [bind_apply, h]

theorem bind_error {x : Exec S ε α} {f : α → Exec S ε β} {s s' : S} {e : ε}
    (h : x s = (.error e, s')) : (x >>= f) s = (.error e, s') := by
  rw [bind_apply, h]

/-- A composed computation succeeds exactly when both parts do. -/
theorem bind_eq_ok {x : Exec S ε α} {f : α → Exec S ε β} {s t : S} {b : β} :
    (x >>= f) s = (.ok b, t) ↔ ∃ a s', x s = (.ok a, s') ∧ f a s' = (.ok b, t) := by
  rw [bind_apply]
  constructor
  · intro h
    cases hx : x s with
    | mk r s' =>
        cases r with
        | ok a => exact ⟨a, s', rfl, by simpa only [hx] using h⟩
        | error e => simp [hx] at h
  · rintro ⟨a, s', hx, hf⟩
    rw [hx]
    exact hf

@[simp] theorem map_apply (g : α → β) (x : Exec S ε α) (s : S) :
    (g <$> x) s = ((x s).1.map g, (x s).2) := by
  change (x >>= fun a => pure (g a)) s = _
  rw [bind_apply]
  cases x s with
  | mk r s' => cases r <;> rfl

theorem map_eq_bind (g : α → β) (x : Exec S ε α) : g <$> x = x >>= fun a => pure (g a) := rfl

theorem bind_assoc {γ : Type} (x : Exec S ε α) (f : α → Exec S ε β) (g : β → Exec S ε γ) :
    x >>= f >>= g = x >>= fun a => f a >>= g := by
  funext s
  simp only [bind_apply]
  cases x s with
  | mk r s' => cases r <;> rfl

instance : LawfulMonad (Exec S ε) := by
  refine LawfulMonad.mk' (Exec S ε) (fun x => ?_) (fun _ _ => rfl) (fun x f g => bind_assoc x f g)
  funext s
  rw [map_apply]
  cases x s with
  | mk r s' => cases r <;> rfl

/-- `x` keeps `I`: whatever way it ends, the state it leaves satisfies `I` if the
state it started from does. -/
def Keeps (I : S → Prop) (x : Exec S ε α) : Prop := ∀ s, I s → I (x s).2

theorem Keeps.pure (I : S → Prop) (a : α) : Keeps I (Pure.pure a : Exec S ε α) :=
  fun _ h => h

theorem Keeps.fail (I : S → Prop) (e : ε) : Keeps I (Exec.fail e : Exec S ε α) :=
  fun _ h => h

theorem Keeps.bind {I : S → Prop} {x : Exec S ε α} {f : α → Exec S ε β}
    (hx : Keeps I x) (hf : ∀ a, Keeps I (f a)) : Keeps I (x >>= f) := by
  intro s hs
  have step := hx s hs
  rw [bind_apply]
  cases hr : x s with
  | mk r s' =>
      rw [hr] at step
      cases r with
      | ok a => exact hf a s' step
      | error e => exact step

end Exec
end RustImap
