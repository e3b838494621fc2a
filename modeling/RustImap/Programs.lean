import RustImap.Simulation
import RustImap.Watch

/-!
Programs run side by side.

Two computations stay together when they go on from what they came to, catch a failure,
or work on a part of the state. A program therefore does the same from two states that are
related if each of its operations does. Nothing here names the client.
-/

namespace RustImap.Exec

variable {S T ε α β γ δ : Type}

theorem Agree.eq {r r' : Except ε α} (h : Agree Eq r r') : r = r' := by
  cases h with
  | ok h => rw [h]
  | error e => rfl

theorem Agree.refl (r : Except ε α) : Agree Eq r r := by
  cases r with
  | ok a => exact .ok rfl
  | error e => exact .error e

namespace Simulates

variable {I : S → T → Prop} {R : α → β → Prop} {R' : γ → δ → Prop}

theorem result (r : Except ε α) :
    Simulates I Eq (Exec.lift r : Exec S ε α) (Exec.lift r : Exec T ε α) :=
  fun _ _ hI => ⟨.refl r, hI⟩

/-- From the same state a computation does the same. -/
theorem same (x : Exec S ε α) : Simulates Eq Eq x x := by
  intro s t hst
  rw [hst]
  exact ⟨.refl _, rfl⟩

/-- A change of the state that keeps the relation. -/
theorem update {f : S → S} {g : T → T} (h : ∀ s t, I s t → I (f s) (g t))
    (r : Except ε α) :
    Simulates I Eq (fun s => (r, f s)) (fun t => (r, g t)) :=
  fun s t hI => ⟨.refl r, h s t hI⟩

theorem map {x : Exec S ε α} {y : Exec T ε α} (h : Simulates I Eq x y) (g : α → γ) :
    Simulates I Eq (g <$> x) (g <$> y) := by
  rw [map_eq_bind, map_eq_bind]
  refine h.bind fun a a' heq => ?_
  rw [heq]
  exact pure rfl

theorem next {x : Exec S ε α} {y : Exec T ε β} {F : Except ε α → Exec S ε γ}
    {G : Except ε β → Exec T ε δ} (h : Simulates I R x y)
    (hF : ∀ r r', Agree R r r' → Simulates I R' (F r) (G r')) :
    Simulates I R' (Exec.next x F) (Exec.next y G) := by
  intro s t hI
  obtain ⟨hagree, hstate⟩ := h s t hI
  exact hF _ _ hagree _ _ hstate

theorem attempt {caught : ε → Option δ} {x : Exec S ε α} {y : Exec T ε α}
    (h : Simulates I Eq x y) :
    Simulates I Eq (Exec.attempt caught x) (Exec.attempt caught y) := by
  refine h.next fun r r' hr => ?_
  rw [hr.eq]
  cases r' with
  | ok a => exact pure rfl
  | error e =>
      dsimp only
      cases caught e with
      | some c => exact pure rfl
      | none => exact fail e

/-- What is done may depend on the state it is done from. -/
theorem dependent {F : S → Exec S ε α} {G : T → Exec T ε β}
    (h : ∀ s t, I s t → Simulates I R (F s) (G t)) :
    Simulates I R (Exec.of fun s => F s s) (Exec.of fun t => G t t) :=
  fun s t hI => h s t hI s t hI

/-- A computation on a part of the state stays together when the parts are related. -/
theorem on {S' T' : Type} {I' : S' → T' → Prop} {get : S' → S} {set : S → S' → S'}
    {get' : T' → T} {set' : T → T' → T'} (hget : ∀ s t, I' s t → I (get s) (get' t))
    (hset : ∀ s t c d, I' s t → I c d → I' (set c s) (set' d t)) {x : Exec S ε α}
    {y : Exec T ε β} (h : Simulates I R x y) :
    Simulates I' R (Exec.on get set x) (Exec.on get' set' y) := by
  intro s t hI
  obtain ⟨hagree, hstate⟩ := h _ _ (hget s t hI)
  exact ⟨hagree, hset s t _ _ hI hstate⟩

end Simulates

/-- A program stays together with itself when its operations do. -/
theorem Program.simulates {I : S → S → Prop} {op : {α : Type} → Exec S ε α → Prop}
    {caught : ε → Option γ} (hop : ∀ {α : Type} {x : Exec S ε α}, op x → Simulates I Eq x x)
    {x : Exec S ε α} (h : Program op caught x) : Simulates I Eq x x := by
  induction h with
  | op h => exact hop h
  | pure a => exact .pure rfl
  | bind _ _ ih ihF =>
      refine ih.bind fun a b hab => ?_
      rw [hab]
      exact ihF b
  | attempt _ ih => exact ih.attempt

/-- Programs of one shape, in which each operation stands for one of the other program. -/
inductive Paired (op : {α : Type} → Exec S ε α → Exec T ε α → Prop) (caught : ε → Option γ) :
    {α : Type} → Exec S ε α → Exec T ε α → Prop
  | op {α : Type} {x : Exec S ε α} {y : Exec T ε α} : op x y → Paired op caught x y
  | pure {α : Type} (a : α) :
      Paired op caught (Pure.pure a : Exec S ε α) (Pure.pure a : Exec T ε α)
  | bind {α β : Type} {x : Exec S ε α} {y : Exec T ε α} {F : α → Exec S ε β}
      {G : α → Exec T ε β} : Paired op caught x y → (∀ a, Paired op caught (F a) (G a)) →
      Paired op caught (x >>= F) (y >>= G)
  | attempt {α : Type} {x : Exec S ε α} {y : Exec T ε α} : Paired op caught x y →
      Paired op caught (Exec.attempt caught x) (Exec.attempt caught y)

variable {op : {α : Type} → Exec S ε α → Prop} {caught : ε → Option γ}
variable {op' : {α : Type} → Exec S ε α → Exec T ε α → Prop}

theorem Paired.simulates {I : S → T → Prop}
    (hop : ∀ {α : Type} {x : Exec S ε α} {y : Exec T ε α}, op' x y → Simulates I Eq x y)
    {x : Exec S ε α} {y : Exec T ε α} (h : Paired op' caught x y) : Simulates I Eq x y := by
  induction h with
  | op h => exact hop h
  | pure a => exact .pure rfl
  | bind _ _ ih ihF =>
      refine ih.bind fun a b hab => ?_
      rw [hab]
      exact ihF b
  | attempt _ ih => exact ih.attempt

/-- Every program has a counterpart when every operation has one. -/
theorem Program.exists_paired
    (hop : ∀ {α : Type} {x : Exec S ε α}, op x → ∃ y : Exec T ε α, op' x y)
    {x : Exec S ε α} (h : Program op caught x) : ∃ y : Exec T ε α, Paired op' caught x y := by
  induction h with
  | op h =>
      obtain ⟨y, hy⟩ := hop h
      exact ⟨y, .op hy⟩
  | pure a => exact ⟨Pure.pure a, .pure a⟩
  | bind _ _ ih ihF =>
      obtain ⟨y, hy⟩ := ih
      choose G hG using ihF
      exact ⟨y >>= G, .bind hy hG⟩
  | attempt _ ih =>
      obtain ⟨y, hy⟩ := ih
      exact ⟨Exec.attempt caught y, .attempt hy⟩

/-- From a state that satisfies `I` the computation reaches one that does, and fails only in
ways that are allowed. -/
def Within (I : S → Prop) (allowed : ε → Prop) (x : Exec S ε α) : Prop :=
  ∀ s, I s → (∀ e, (x s).1 = .error e → allowed e) ∧ I (x s).2

namespace Within

variable {I : S → Prop} {allowed : ε → Prop}

theorem lift {r : Except ε α} (h : ∀ e, r = .error e → allowed e) :
    Within I allowed (Exec.lift r : Exec S ε α) :=
  fun _ hs => ⟨h, hs⟩

theorem pure (a : α) : Within I allowed (Pure.pure a : Exec S ε α) :=
  fun _ hs => ⟨fun _ he => (by cases he), hs⟩

theorem fail {e : ε} (h : allowed e) : Within I allowed (Exec.fail e : Exec S ε α) :=
  fun _ hs => ⟨fun _ he => Except.error.inj he ▸ h, hs⟩

theorem bind {x : Exec S ε α} {f : α → Exec S ε β} (hx : Within I allowed x)
    (hf : ∀ a, Within I allowed (f a)) : Within I allowed (x >>= f) := by
  intro s hs
  obtain ⟨herror, hstate⟩ := hx s hs
  rw [bind_apply]
  generalize x s = out at herror hstate ⊢
  obtain ⟨r, s'⟩ := out
  cases r with
  | ok a => exact hf a s' hstate
  | error e =>
      refine ⟨fun e' he' => ?_, hstate⟩
      cases he'
      exact herror e rfl

theorem map {x : Exec S ε α} (hx : Within I allowed x) (g : α → β) :
    Within I allowed (g <$> x) := by
  rw [map_eq_bind]
  exact hx.bind fun a => pure (g a)

theorem attempt {caught : ε → Option γ} {x : Exec S ε α} (hx : Within I allowed x) :
    Within I allowed (Exec.attempt caught x) := by
  intro s hs
  obtain ⟨herror, hstate⟩ := hx s hs
  unfold Exec.attempt Exec.next
  generalize x s = out at herror hstate ⊢
  obtain ⟨r, s'⟩ := out
  cases r with
  | ok a => exact pure _ s' hstate
  | error e =>
      dsimp only
      cases caught e with
      | some c => exact pure _ s' hstate
      | none => exact fail (herror e rfl) s' hstate

theorem on {S' : Type} {I' : S' → Prop} {get : S' → S} {set : S → S' → S'}
    (hget : ∀ s, I' s → I (get s)) (hset : ∀ c s, I' s → I c → I' (set c s)) {x : Exec S ε α}
    (h : Within I allowed x) : Within I' allowed (Exec.on get set x) :=
  fun s hs => ⟨(h _ (hget s hs)).1, hset _ s hs (h _ (hget s hs)).2⟩

end Within

/-- A program stays within bounds when its operations do. -/
theorem Program.within {I : S → Prop} {allowed : ε → Prop}
    (hop : ∀ {α : Type} {x : Exec S ε α}, op x → Within I allowed x) {x : Exec S ε α}
    (h : Program op caught x) : Within I allowed x := by
  induction h with
  | op h => exact hop h
  | pure a => exact .pure a
  | bind _ _ ih ihF => exact ih.bind ihF
  | attempt _ ih => exact ih.attempt

end RustImap.Exec
