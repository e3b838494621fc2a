import RustImap.Exec

/-!
A computation that is watched.

The watched computation does what the plain one does until something bad is met; there it
stops, where the plain one may go on. The plain state keeps a record of what was met. A
program is anything composed of given operations: if each of them is shadowed, the program is.
Nothing here names the client.
-/

namespace RustImap.Exec

variable {S T ε α β γ δ : Type}

/-- Go on from a value or a failure. -/
def next (x : Exec S ε α) (F : Except ε α → Exec S ε β) : Exec S ε β := fun s => F (x s).1 (x s).2

/-- A failure that is caught becomes a value. -/
def attempt (caught : ε → Option γ) (x : Exec S ε α) : Exec S ε (Except γ α) :=
  next x fun
    | .ok a => pure (.ok a)
    | .error e =>
        match caught e with
        | some c => pure (.error c)
        | none => fail e

theorem bind_eq_next (x : Exec S ε α) (F : α → Exec S ε β) :
    x >>= F = next x fun
      | .ok a => F a
      | .error e => fail e := by
  funext s
  rw [bind_apply, next]
  cases x s with
  | mk r s' => cases r <;> rfl

/-- What is composed of the operations `op`; it may look at a failure that is caught. -/
inductive Program (op : {α : Type} → Exec S ε α → Prop) (caught : ε → Option γ) :
    {α : Type} → Exec S ε α → Prop
  | op {α : Type} {x : Exec S ε α} : op x → Program op caught x
  | pure {α : Type} (a : α) : Program op caught (Pure.pure a : Exec S ε α)
  | bind {α β : Type} {x : Exec S ε α} {F : α → Exec S ε β} :
      Program op caught x → (∀ a, Program op caught (F a)) → Program op caught (x >>= F)
  | attempt {α : Type} {x : Exec S ε α} :
      Program op caught x → Program op caught (Exec.attempt caught x)

/-- How a plain state is watched: the state of the watched computation, what holds of plain
states, the record of what was met, and how the watched computation stops. -/
structure Watch (S T ω ε : Type) where
  view : S → T
  plain : S → Prop
  trace : S → List ω
  bad : ω → Prop
  stop : ε

/-- `W` watches the part of the states of `W'` that is got with `get` and put back with
`set`. -/
structure Watch.Part {S' T' ω : Type} (W : Watch S T ω ε) (W' : Watch S' T' ω ε)
    (get : S' → S) (set : S → S' → S') (get' : T' → T) (set' : T → T' → T') : Prop where
  get_plain : ∀ s, W'.plain s → W.plain (get s)
  set_plain : ∀ c s, W.plain c → W'.plain (set c s)
  get_trace : ∀ s, W.trace (get s) = W'.trace s
  set_trace : ∀ c s, W'.trace (set c s) = W.trace c
  get_view : ∀ s, get' (W'.view s) = W.view (get s)
  set_view : ∀ c s, set' (W.view c) (W'.view s) = W'.view (set c s)
  bad : W'.bad = W.bad
  stop : W'.stop = W.stop

/-- `y` is `x` watched; a value `a` of `x` is `f a` for `y`. -/
def Shadows {ω : Type} (W : Watch S T ω ε) (f : α → β) (x : Exec S ε α) (y : Exec T ε β) : Prop :=
  ∀ s, W.plain s → W.plain (x s).2 ∧ ∃ met, W.trace (x s).2 = W.trace s ++ met ∧
    ((∀ e ∈ met, ¬W.bad e) → y (W.view s) = ((x s).1.map f, W.view (x s).2)) ∧
    ((∃ e ∈ met, W.bad e) → (y (W.view s)).1 = .error W.stop)

namespace Shadows

variable {ω : Type} {W : Watch S T ω ε} {f : α → β} {g : γ → δ}

/-- A computation that meets nothing. -/
theorem quiet {x : Exec S ε α} {y : Exec T ε β}
    (h : ∀ s, W.plain s → W.plain (x s).2 ∧ W.trace (x s).2 = W.trace s ∧
      y (W.view s) = ((x s).1.map f, W.view (x s).2)) : Shadows W f x y := by
  intro s hs
  obtain ⟨hplain, htrace, hy⟩ := h s hs
  exact ⟨hplain, [], by rw [htrace, List.append_nil], fun _ => hy, by simp⟩

theorem lift (r : Except ε α) : Shadows W f (Exec.lift r) (Exec.lift (r.map f)) :=
  quiet fun _ hs => ⟨hs, rfl, rfl⟩

theorem result (r : Except ε α) : Shadows W id (Exec.lift r) (Exec.lift r) := by
  have h := lift (W := W) (f := id) r
  rwa [Except.map_id] at h

theorem pure (a : α) : Shadows W f (Pure.pure a : Exec S ε α) (Pure.pure (f a) : Exec T ε β) :=
  lift (.ok a)

theorem fail (e : ε) : Shadows W f (Exec.fail e : Exec S ε α) (Exec.fail e : Exec T ε β) :=
  lift (.error e)

theorem read : Shadows W W.view (Exec.of fun s => (.ok s, s)) (Exec.of fun t => (.ok t, t)) :=
  quiet fun _ hs => ⟨hs, rfl, rfl⟩

/-- What is done may depend on the state it is done from. -/
theorem dependent {F : S → Exec S ε α} {G : T → Exec T ε β}
    (h : ∀ s, Shadows W f (F s) (G (W.view s))) :
    Shadows W f (Exec.of fun s => F s s) (Exec.of fun t => G t t) := fun s hs => h s s hs

theorem next {x : Exec S ε α} {y : Exec T ε β} {F : Except ε α → Exec S ε γ}
    {G : Except ε β → Exec T ε δ} (h : Shadows W f x y)
    (hF : ∀ r, Shadows W g (F r) (G (r.map f)))
    (hstop : ∀ t, (G (.error W.stop) t).1 = .error W.stop) :
    Shadows W g (Exec.next x F) (Exec.next y G) := by
  intro s hs
  obtain ⟨hplain, met, htrace, hgood, hbad⟩ := h s hs
  obtain ⟨hplain', met', htrace', hgood', hbad'⟩ := hF (x s).1 (x s).2 hplain
  refine ⟨hplain', met ++ met', ?_, ?_, ?_⟩
  · change W.trace (F (x s).1 (x s).2).2 = _
    rw [htrace', htrace, List.append_assoc]
  · intro hnone
    change G (y (W.view s)).1 (y (W.view s)).2 = _
    rw [hgood fun e he => hnone e (List.mem_append_left _ he)]
    exact hgood' fun e he => hnone e (List.mem_append_right _ he)
  · rintro ⟨e, he, hbade⟩
    change (G (y (W.view s)).1 (y (W.view s)).2).1 = _
    by_cases hmet : ∃ e ∈ met, W.bad e
    · rw [hbad hmet]
      exact hstop _
    · rw [hgood fun e he hb => hmet ⟨e, he, hb⟩]
      obtain hleft | hright := List.mem_append.mp he
      · exact absurd ⟨e, hleft, hbade⟩ hmet
      · exact hbad' ⟨e, hright, hbade⟩

theorem bind {x : Exec S ε α} {y : Exec T ε β} {F : α → Exec S ε γ} {G : β → Exec T ε δ}
    (h : Shadows W f x y) (hF : ∀ a, Shadows W g (F a) (G (f a))) :
    Shadows W g (x >>= F) (y >>= G) := by
  rw [bind_eq_next, bind_eq_next]
  refine next h (fun r => ?_) fun _ => rfl
  cases r with
  | ok a => exact hF a
  | error e => exact fail e

theorem attempt {η : Type} {caught : ε → Option η} {x : Exec S ε α} {y : Exec T ε β}
    (hcaught : caught W.stop = none) (h : Shadows W f x y) :
    Shadows W (Except.map f) (Exec.attempt caught x) (Exec.attempt caught y) := by
  refine next h (fun r => ?_) fun t => by simp only [hcaught, fail_apply]
  cases r with
  | ok a => exact pure (f := Except.map f) (.ok a)
  | error e =>
      change Shadows W _ (match caught e with | some c => _ | none => _)
        (match caught e with | some c => _ | none => _)
      cases caught e with
      | some c => exact pure (f := Except.map f) (.error c)
      | none => exact fail e

/-- A computation on a part of the state is watched when the part is. -/
theorem on {S' T' : Type} {W' : Watch S' T' ω ε} {get : S' → S} {set : S → S' → S'}
    {get' : T' → T} {set' : T → T' → T'} {x : Exec S ε α} {y : Exec T ε β}
    (part : W.Part W' get set get' set') (h : Shadows W f x y) :
    Shadows W' f (Exec.on get set x) (Exec.on get' set' y) := by
  intro s hs
  obtain ⟨hplain, met, htrace, hgood, hbad⟩ := h (get s) (part.get_plain s hs)
  refine ⟨part.set_plain _ s hplain, met, ?_, ?_, ?_⟩
  · rw [Exec.on, part.set_trace, htrace, part.get_trace]
  · intro hnone
    rw [part.bad] at hnone
    rw [Exec.on, part.get_view, hgood hnone, part.set_view]
    rfl
  · intro hsome
    rw [part.bad] at hsome
    rw [Exec.on, part.get_view, hbad hsome, part.stop]

end Shadows

/-- A program is watched when its operations are. -/
theorem Program.shadows {ω : Type} {W : Watch S S ω ε} {op : {α : Type} → Exec S ε α → Prop}
    {caught : ε → Option γ} (hcaught : caught W.stop = none)
    (hop : ∀ {α : Type} {x : Exec S ε α}, op x → Shadows W id x x) {x : Exec S ε α}
    (h : Program op caught x) : Shadows W id x x := by
  induction h with
  | op h => exact hop h
  | pure a => exact .pure a
  | bind _ _ ih ihF => exact ih.bind ihF
  | attempt _ ih =>
      have key := ih.attempt hcaught
      rwa [show Except.map id = id from funext fun r => by cases r <;> rfl] at key

end RustImap.Exec
