import RustImap.Intake

/-!
The loop most typed responses are collected with.

`parse_many_into2` appends to two collections and a queue of its caller and keeps them when it
fails. `RustImap.parseManyInto2` is what a caller sees of it that drops the collections then.
-/

namespace RustImap

open UnsolicitedResponse (tryFrom)

/-- What `parse_many_into2` extends. -/
structure Into (T U : Type) where
  into1 : List T
  into2 : List U
  unsolicited : Queue

namespace Into

variable {T U : Type}

def extend1 (ts : List T) : Exec (Into T U) Fault Unit := fun s =>
  (.ok (), { s with into1 := s.into1 ++ ts })

def extend2 (us : List U) : Exec (Into T U) Fault Unit := fun s =>
  (.ok (), { s with into2 := s.into2 ++ us })

def onUnsolicited {α : Type} (x : Collect α) : Exec (Into T U) Fault α :=
  Exec.on unsolicited (fun unsolicited s => { s with unsolicited }) x

variable (parse : ParseResponse) (map : Response → Except Error (MapOrNot2 T U))

/-- One response of the loop. -/
def extendWith (resp : Response) : Exec (Into T U) Fault Unit :=
  match map resp with
  | .error e => .fail (.err e)
  | .ok (.map1 t) => extend1 [t]
  | .ok (.map2 u) => extend2 [u]
  | .ok (.mapVec1 ts) => extend1 ts
  | .ok (.mapVec2 us) => extend2 us
  | .ok (.not resp) => do
      match ← onUnsolicited (tryHandleUnilateral resp) with
      | some (.fetch _ _) => pure ()
      | some resp => .fail (.err (.unexpected resp))
      | none => pure ()
  | .ok .ignore => pure ()

def loopMany : Nat → Bytes → Exec (Into T U) Fault Unit
  | 0, _ => pure ()
  | turns + 1, lines =>
      if lines = [] then pure ()
      else
        match parse.run lines with
        | .ok rest resp => do
            extendWith map resp
            loopMany turns rest
        | _ => .fail (.err (.parse (.invalid lines)))

/-- `parse_many_into2` -/
def parseManyInto2 (input : Bytes) : Exec (Into T U) Fault Unit :=
  loopMany parse map input.length input

/-- What a caller sees that drops the collections when the loop fails. -/
def seen (out : Except Fault Unit × Into T U) : Except Fault (List T × List U) × Queue :=
  (out.1.map fun _ => (out.2.into1, out.2.into2), out.2.unsolicited)

end Into

section Effects

variable {T U : Type} (map : Response → Except Error (MapOrNot2 T U))

/-- The items of the first kind that a response is mapped to. -/
def mapped1 (r : Response) : List T :=
  match map r with
  | .ok (.map1 t) => [t]
  | .ok (.mapVec1 ts) => ts
  | _ => []

def mapped2 (r : Response) : List U :=
  match map r with
  | .ok (.map2 u) => [u]
  | .ok (.mapVec2 us) => us
  | _ => []

/-- The response that is returned as another one is converted. -/
def converted (r : Response) : Queue :=
  match map r with
  | .ok (.not resp) => (tryFrom resp).toList
  | _ => []

/-- Why a response ends the loop. -/
def failure (r : Response) : Option Error :=
  match map r with
  | .error e => some e
  | .ok (.not resp) => if tryFrom resp = none then some (.unexpected resp) else none
  | _ => none

/-- The effects of some responses. -/
def Into.after (rs : List Response) (s : Into T U) : Into T U where
  into1 := s.into1 ++ rs.flatMap (mapped1 map)
  into2 := s.into2 ++ rs.flatMap (mapped2 map)
  unsolicited := s.unsolicited ++ rs.flatMap (converted map)

end Effects

namespace Into

variable {T U : Type} {parse : ParseResponse} {map : Response → Except Error (MapOrNot2 T U)}

theorem after_nil (s : Into T U) : s.after map [] = s := by
  simp [after]

theorem after_append (rs rs' : List Response) (s : Into T U) :
    s.after map (rs ++ rs') = (s.after map rs).after map rs' := by
  simp [after]

/-- A response fails, or has its effects. -/
theorem extendWith_eq (r : Response) (s : Into T U) :
    extendWith map r s =
      match failure map r with
      | some e => (.error (.err e), s)
      | none => (.ok (), s.after map [r]) := by
  cases hmap : map r with
  | error e => simp [extendWith, failure, hmap]
  | ok m =>
      cases m with
      | not resp =>
          cases hu : tryFrom resp with
          | some u =>
              simp [extendWith, failure, after, mapped1, mapped2, converted, hmap, hu,
                onUnsolicited, tryHandleUnilateral, Exec.on, Exec.bind_apply]
          | none =>
              cases resp with
              | fetch => cases hu
              | _ =>
                simp [extendWith, failure, hmap, hu, onUnsolicited,
                  tryHandleUnilateral, Exec.on, Exec.bind_apply]
      | _ =>
        simp [extendWith, failure, after, mapped1, mapped2, converted, hmap, extend1, extend2]

theorem extendWith_passes {r : Response} (h : failure map r = none) (s : Into T U) :
    extendWith map r s = (.ok (), s.after map [r]) := by
  rw [extendWith_eq, h]

theorem extendWith_fails {r : Response} {e : Error} (h : failure map r = some e) (s : Into T U) :
    extendWith map r s = (.error (.err e), s) := by
  rw [extendWith_eq, h]

variable (map) in
/-- All responses of a list, one after the other. -/
def extendAll (rs : List Response) : Exec (Into T U) Fault Unit :=
  forM rs (extendWith map)

theorem extendAll_nil : extendAll map ([] : List Response) = pure () := rfl

theorem extendAll_cons (r : Response) (rs : List Response) :
    extendAll map (r :: rs) = (do extendWith map r; extendAll map rs) := by
  rw [extendAll, List.forM_cons]
  rfl

theorem extendAll_append (pre post : List Response) :
    extendAll map (pre ++ post) = (do extendAll map pre; extendAll map post) := by
  rw [extendAll, List.forM_append]
  rfl

theorem extendAll_passes {rs : List Response} (h : ∀ r ∈ rs, failure map r = none)
    (s : Into T U) : extendAll map rs s = (.ok (), s.after map rs) := by
  induction rs generalizing s with
  | nil =>
      rw [after_nil]
      rfl
  | cons r rs ih =>
      obtain ⟨hr, hrs⟩ := List.forall_mem_cons.mp h
      have head := extendWith_passes hr s
      rw [extendAll_cons, Exec.bind_ok head, ih hrs, ← after_append]
      rfl

theorem extendAll_fails {pre post : List Response} {r : Response} {e : Error}
    (hpre : ∀ r ∈ pre, failure map r = none) (hr : failure map r = some e) (s : Into T U) :
    extendAll map (pre ++ r :: post) s = (.error (.err e), s.after map pre) := by
  rw [extendAll_append, Exec.bind_ok (extendAll_passes hpre s), extendAll_cons,
    Exec.bind_error (extendWith_fails hr _)]

variable (map) in
/-- Nothing is ever taken from the queue. -/
theorem extendAll_queue (rs : List Response) (s : Into T U) :
    s.unsolicited <+: (extendAll map rs s).2.unsolicited := by
  induction rs generalizing s with
  | nil => exact List.prefix_rfl
  | cons r rs ih =>
      rw [extendAll_cons]
      cases hr : failure map r with
      | some e =>
          rw [Exec.bind_error (extendWith_fails hr s)]
      | none =>
          rw [Exec.bind_ok (extendWith_passes hr s)]
          apply List.IsPrefix.trans _ (ih _)
          exact List.prefix_append _ _

/-- The loop goes through the responses and then fails if something is left. -/
theorem loopMany_splits {lines tail : Bytes} {rs : List Response}
    (h : parse.SplitsUpTo lines rs tail) {turns : Nat} (hturns : lines.length ≤ turns) :
    loopMany parse map turns lines = (do
      extendAll map rs
      if tail = [] then pure () else .fail (.err (.parse (.invalid tail)))) := by
  induction h generalizing turns with
  | @stop lines hnone =>
      rw [extendAll_nil, pure_bind]
      cases turns with
      | zero =>
          obtain rfl := List.eq_nil_of_length_eq_zero (Nat.le_zero.mp hturns)
          rfl
      | succ turns =>
          rw [loopMany]
          congr 1
          cases hrun : parse.run lines with
          | ok rest r => exact absurd hrun (hnone rest r)
          | incomplete | error => rfl
  | @cons lines rest tail r rs hrun _ ih =>
      have short := parse.shrinks hrun
      obtain ⟨n, rfl⟩ : ∃ n, turns = n + 1 := ⟨turns - 1, by omega⟩
      have hne : lines ≠ [] := by
        rintro rfl
        exact parse.run_nil rest r hrun
      rw [loopMany, if_neg hne, extendAll_cons, bind_assoc]
      simp only [hrun, ih (show rest.length ≤ n by omega)]

theorem parseManyInto2_splits {input tail : Bytes} {rs : List Response}
    (h : parse.SplitsUpTo input rs tail) :
    parseManyInto2 parse map input = (do
      extendAll map rs
      if tail = [] then pure () else .fail (.err (.parse (.invalid tail)))) :=
  loopMany_splits h (Nat.le_refl _)

variable (parse map) in
/-- What the loop ought to do with an input that splits into these responses and a tail: it
has the effects of all responses before the first failure, and returns that one. -/
structure Partitions (input : Bytes) (rs : List Response) (tail : Bytes) (s : Into T U) : Prop where
  passes : (∀ r ∈ rs, failure map r = none) → tail = [] →
    parseManyInto2 parse map input s = (.ok (), s.after map rs)
  fails : ∀ pre r post e, rs = pre ++ r :: post → (∀ r' ∈ pre, failure map r' = none) →
    failure map r = some e → parseManyInto2 parse map input s = (.error (.err e), s.after map pre)
  unparsed : (∀ r ∈ rs, failure map r = none) → tail ≠ [] →
    parseManyInto2 parse map input s = (.error (.err (.parse (.invalid tail))), s.after map rs)
  notDropped : ∀ pre r post resp, rs = pre ++ r :: post → (∀ r' ∈ pre, failure map r' = none) →
    map r = .ok (.not resp) →
      parseManyInto2 parse map input s = (.error (.err (.unexpected resp)), s.after map pre) ∨
      ∃ u, u.response = resp ∧ (s.after map pre).unsolicited ++ [u] <+:
        (parseManyInto2 parse map input s).2.unsolicited

theorem parseManyInto2_passes {input : Bytes} {rs : List Response}
    (h : parse.SplitsUpTo input rs []) (hrs : ∀ r ∈ rs, failure map r = none) (s : Into T U) :
    parseManyInto2 parse map input s = (.ok (), s.after map rs) := by
  rw [parseManyInto2_splits h, Exec.bind_ok (extendAll_passes hrs s), if_pos rfl]
  rfl

theorem parseManyInto2_fails {input tail : Bytes} {pre post : List Response} {r : Response}
    {e : Error} (h : parse.SplitsUpTo input (pre ++ r :: post) tail)
    (hpre : ∀ r' ∈ pre, failure map r' = none) (hr : failure map r = some e) (s : Into T U) :
    parseManyInto2 parse map input s = (.error (.err e), s.after map pre) := by
  rw [parseManyInto2_splits h, Exec.bind_error (extendAll_fails hpre hr s)]

theorem parseManyInto2_unparsed {input tail : Bytes} {rs : List Response}
    (h : parse.SplitsUpTo input rs tail) (hrs : ∀ r ∈ rs, failure map r = none)
    (htail : tail ≠ []) (s : Into T U) :
    parseManyInto2 parse map input s =
      (.error (.err (.parse (.invalid tail))), s.after map rs) := by
  rw [parseManyInto2_splits h, Exec.bind_ok (extendAll_passes hrs s), if_neg htail]
  rfl

theorem parseManyInto2_queue {input tail : Bytes} {pre post : List Response}
    (h : parse.SplitsUpTo input (pre ++ post) tail) (hpre : ∀ r ∈ pre, failure map r = none)
    (s : Into T U) :
    (s.after map pre).unsolicited <+: (parseManyInto2 parse map input s).2.unsolicited := by
  have kept := extendAll_queue map post (s.after map pre)
  rw [parseManyInto2_splits h, extendAll_append, bind_assoc,
    Exec.bind_ok (extendAll_passes hpre s)]
  cases hrun : extendAll map post (s.after map pre) with
  | mk out s' =>
      rw [hrun] at kept
      cases out with
      | error e => rwa [Exec.bind_error hrun]
      | ok _ =>
          rw [Exec.bind_ok hrun]
          split <;> exact kept

theorem after_not {r resp : Response} {u : UnsolicitedResponse} (h : map r = .ok (.not resp))
    (hu : tryFrom resp = some u) (s : Into T U) :
    (s.after map [r]).unsolicited = s.unsolicited ++ [u] := by
  simp [after, converted, h, hu]

theorem failure_not {r resp : Response} (h : map r = .ok (.not resp)) :
    failure map r = if tryFrom resp = none then some (.unexpected resp) else none := by
  simp only [failure, h]

variable (map) in
theorem collect2_seen (r : Response) (rest : Bytes) (s : Into T U) :
    collect2 map (s.into1, s.into2) r rest s.unsolicited = seen (extendWith map r s) := by
  cases hmap : map r with
  | error e => simp [collect2, extendWith, hmap, seen, Except.map]
  | ok m =>
      cases m with
      | not resp =>
          simp only [collect2, extendWith, hmap, onUnsolicited, Exec.on, Exec.bind_apply,
            tryHandleUnilateral]
          cases hu : tryFrom resp with
          | some u => rfl
          | none => cases resp <;> rfl
      | _ => simp [collect2, extendWith, hmap, seen, Except.map, extend1, extend2]

theorem loopMany_seen (turns : Nat) (lines : Bytes) (s : Into T U) :
    loopResponses parse (collect2 map) turns (s.into1, s.into2) lines s.unsolicited =
      seen (loopMany parse map turns lines s) := by
  induction turns generalizing lines s with
  | zero => rfl
  | succ turns ih =>
      rw [loopResponses, loopMany]
      split
      · rfl
      · cases hrun : parse.run lines with
        | incomplete | error => rfl
        | ok rest r =>
            have step := collect2_seen map r rest s
            simp only
            cases hr : extendWith map r s with
            | mk out s' =>
                rw [hr] at step
                cases out with
                | error e =>
                    rw [Exec.bind_error hr, Exec.bind_error step]
                    rfl
                | ok _ =>
                    rw [Exec.bind_ok hr, Exec.bind_ok step]
                    exact ih rest s'

variable (parse map) in
/-- The collections a caller gets are the ones the loop has extended. -/
theorem parseManyInto2_seen (input : Bytes) (s : Into T U) :
    RustImap.parseManyInto2 parse map input s.into1 s.into2 s.unsolicited =
      seen (parseManyInto2 parse map input s) :=
  loopMany_seen _ _ s

/-- Collecting is exact. -/
theorem parseManyInto2_partitions {input tail : Bytes} {rs : List Response}
    (h : parse.SplitsUpTo input rs tail) (s : Into T U) :
    Partitions parse map input rs tail s where
  passes hrs htail := parseManyInto2_passes (htail ▸ h) hrs s
  fails pre r post e hsplit hpre hr := parseManyInto2_fails (hsplit ▸ h) hpre hr s
  unparsed hrs htail := parseManyInto2_unparsed h hrs htail s
  notDropped pre r post resp hsplit hpre hmap := by
    subst hsplit
    have hfailure := failure_not hmap
    cases hu : tryFrom resp with
    | none =>
        rw [if_pos hu] at hfailure
        exact .inl (parseManyInto2_fails h hpre hfailure s)
    | some u =>
        rw [if_neg (by simp [hu])] at hfailure
        refine .inr ⟨u, UnsolicitedResponse.response_tryFrom hu, ?_⟩
        have hall : ∀ r' ∈ pre ++ [r], failure map r' = none := by
          intro r' hr'
          rcases List.mem_append.mp hr' with hr' | hr'
          · exact hpre r' hr'
          · rw [List.mem_singleton.mp hr', hfailure]
        have hsplits : parse.SplitsUpTo input ((pre ++ [r]) ++ post) tail := by
          simpa using h
        have kept := parseManyInto2_queue hsplits hall s
        rwa [after_append, after_not hmap hu] at kept

def searchMessages : List (Bytes × Response) :=
  [(utf8 "* SEARCH 3 5\r\n".toList, .mailboxData (.search [3, 5])),
    (utf8 "* 1 FETCH (UID 7)\r\n".toList, .fetch 1 [.uid 7]),
    (utf8 "* 2 EXISTS\r\n".toList, .mailboxData (.exists_ 2))]

def searchParse : ParseResponse := Parser.table searchMessages (by decide)

/-- The ids of a search, and the sizes of the mailbox. -/
def idsOrSize : Response → Except Error (MapOrNot2 UInt32 UInt32)
  | .mailboxData (.search ids) => .ok (.mapVec1 ids)
  | .mailboxData (.exists_ n) => .ok (.map2 n)
  | r => .ok (.not r)

theorem searchParse_splitsUpTo :
    searchParse.SplitsUpTo (utf8 "* SEARCH 3 5\r\n* 1 FETCH (UID 7)\r\n?".toList)
      [.mailboxData (.search [3, 5]), .fetch 1 [.uid 7]] (utf8 "?".toList) := by
  have search : searchParse.run (utf8 "* SEARCH 3 5\r\n* 1 FETCH (UID 7)\r\n?".toList) =
      .ok (utf8 "* 1 FETCH (UID 7)\r\n?".toList) (.mailboxData (.search [3, 5])) := by
    decide
  have fetch : searchParse.run (utf8 "* 1 FETCH (UID 7)\r\n?".toList) =
      .ok (utf8 "?".toList) (.fetch 1 [.uid 7]) := by decide
  have nothing : searchParse.run (utf8 "?".toList) = .error := by decide
  refine .cons search (.cons fetch (.stop fun rest r h => ?_))
  rw [nothing] at h
  cases h

/-- A fetched message among the ids of a search is queued, what follows it is reported. -/
theorem parseManyInto2_partitions_search :
    Partitions searchParse idsOrSize (utf8 "* SEARCH 3 5\r\n* 1 FETCH (UID 7)\r\n?".toList)
      [.mailboxData (.search [3, 5]), .fetch 1 [.uid 7]] (utf8 "?".toList) ⟨[1], [], []⟩ :=
  parseManyInto2_partitions searchParse_splitsUpTo ⟨[1], [], []⟩

end Into

end RustImap
