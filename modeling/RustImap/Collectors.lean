import RustImap.Parse

/-!
The parsers with a loop of their own.

`parse_noop`, `parse_ids_with` and `parse_metadata` repeat the loop of `parse_many_into` by
hand. They do what it does with a map that returns every response they do not collect. Its
branch for a `FETCH` that is not accepted makes no difference, because each one is.
-/

namespace RustImap

open UnsolicitedResponse (tryFrom)

section Related

variable {A B : Type} {parse : ParseResponse}
variable {body : A → Response → Bytes → Collect A} {body' : B → Response → Bytes → Collect B}

/-- A loop whose turns compute the image of what the turns of another one compute ends with
the image of what that one ends with. -/
theorem loopResponses_map {f : A → B}
    (hbody : ∀ a r rest, body' (f a) r rest = f <$> body a r rest) (turns : Nat) (a : A)
    (lines : Bytes) :
    loopResponses parse body' turns (f a) lines = f <$> loopResponses parse body turns a lines := by
  induction turns generalizing a lines with
  | zero => rfl
  | succ turns ih =>
      rw [loopResponses, loopResponses]
      split
      · rfl
      · cases parse.run lines with
        | incomplete | error => rfl
        | ok rest r => simp only [hbody, map_eq_pure_bind, bind_assoc, pure_bind, ih]

theorem forResponses_map {f : A → B}
    (hbody : ∀ a r rest, body' (f a) r rest = f <$> body a r rest) (a : A) (lines : Bytes) :
    forResponses parse body' (f a) lines = f <$> forResponses parse body a lines :=
  loopResponses_map hbody _ a lines

end Related

section One

variable {T : Type} (map : Response → Except Error (MapOrNot T))

/-- The map that `parse_many_into` passes on. -/
def widen (r : Response) : Except Error (MapOrNot2 T Unit) :=
  (map r).map MapOrNot.toMapOrNot2

/-- One turn of the loop, when there is one collection and no branch for `FETCH`. -/
def collect1 (into : List T) (r : Response) (_ : Bytes) : Collect (List T) :=
  match map r with
  | .error e => .fail (.err e)
  | .ok (.map t) => pure (into ++ [t])
  | .ok (.mapVec ts) => pure (into ++ ts)
  | .ok (.not resp) => do
      handleUnilateral resp
      pure into
  | .ok .ignore => pure into

variable {map}

/-- Every `FETCH` is accepted. -/
theorem tryHandleUnilateral_pass (resp : Response) {A : Type} (a : A) :
    (do
      match ← tryHandleUnilateral resp with
      | some (.fetch _ _) => pure a
      | some resp => .fail (.err (.unexpected resp))
      | none => pure a : Collect A) = (do handleUnilateral resp; pure a) := by
  funext q
  simp only [handleUnilateral, tryHandleUnilateral, Exec.bind_apply]
  cases hu : tryFrom resp with
  | some u => rfl
  | none =>
      cases resp with
      | fetch id attributes => cases hu
      | _ => rfl

theorem collect2_widen (into : List T) (r : Response) (rest : Bytes) :
    collect2 (widen map) (into, []) r rest = (·, []) <$> collect1 map into r rest := by
  cases hmap : map r with
  | error e =>
      simp only [collect2, collect1, widen, hmap, Except.map]
      rfl
  | ok m =>
      cases m with
      | not resp =>
          simp only [collect2, collect1, widen, hmap, Except.map, MapOrNot.toMapOrNot2,
            map_eq_pure_bind, bind_assoc, pure_bind]
          exact tryHandleUnilateral_pass resp _
      | _ =>
          simp only [collect2, collect1, widen, hmap, Except.map, MapOrNot.toMapOrNot2]
          rfl

variable (parse : ParseResponse)

/-- The second collection stays empty, so the assertion at the end holds. -/
theorem parseManyInto_eq (input : Bytes) (into : List T) :
    parseManyInto parse map input into = forResponses parse (collect1 map) into input := by
  have loop : parseManyInto2 parse (widen map) input into [] =
      (·, []) <$> forResponses parse (collect1 map) into input :=
    forResponses_map collect2_widen into input
  change (parseManyInto2 parse (widen map) input into [] >>= _) = _
  rw [loop]
  simp only [map_eq_pure_bind, bind_assoc, pure_bind, List.length_nil, if_true, bind_pure]

end One

/-- The ids of `SEARCH` and `SORT`. -/
def idsOrNot : Response → Except Error (MapOrNot UInt32)
  | .mailboxData (.search c) => .ok (.mapVec c)
  | .mailboxData (.sort c) => .ok (.mapVec c)
  | resp => .ok (.not resp)

/-- The values of a solicited `METADATA`. -/
def valuesOrNot : Response → Except Error (MapOrNot Metadata)
  | .mailboxData (.metadataSolicited _ values) => .ok (.mapVec values)
  | resp => .ok (.not resp)

def notMapped (resp : Response) : Except Error (MapOrNot Unit) := .ok (.not resp)

theorem idsStep_eq : idsStep = collect1 idsOrNot := by
  funext collection r rest
  cases r with
  | mailboxData datum => cases datum <;> rfl
  | _ => rfl

theorem metadataStep_eq : metadataStep = collect1 valuesOrNot := by
  funext res r rest
  cases r with
  | mailboxData datum => cases datum <;> rfl
  | _ => rfl

theorem parseNoop_eq (parse : ParseResponse) (lines : Bytes) :
    parseNoop parse lines = (fun _ => ()) <$> parseManyInto parse notMapped lines [] := by
  have step : ∀ (into : List Unit) (r : Response) (rest : Bytes),
      handleUnilateral r = (fun _ => ()) <$> collect1 notMapped into r rest := by
    intro into r rest
    simp only [collect1, notMapped, map_eq_pure_bind, bind_assoc, pure_bind]
    exact (bind_pure _).symm
  rw [parseManyInto_eq]
  apply forResponses_map (f := fun _ : List Unit => ())
  exact step

/-- The collectors return what the generic one returns and leave the queue it leaves. -/
theorem collectors_refine (parse : ParseResponse) (lines : Bytes) (q : Queue) :
    parseNoop parse lines q =
        ((fun _ => ()) <$> parseManyInto parse notMapped lines []) q ∧
      (∀ collection, forResponses parse idsStep collection lines q =
        parseManyInto parse idsOrNot lines collection q) ∧
      parseIdsWith parse lines q = parseManyInto parse idsOrNot lines [] q ∧
      parseMetadata parse lines q = parseManyInto parse valuesOrNot lines [] q := by
  refine ⟨?_, fun collection => ?_, ?_, ?_⟩
  · rw [parseNoop_eq]
  · rw [parseManyInto_eq, idsStep_eq]
  · rw [parseManyInto_eq, parseIdsWith, idsStep_eq]
  · rw [parseManyInto_eq, parseMetadata, metadataStep_eq]

end RustImap
