import RustImap.Collectors
import RustImap.ManyInto

/-!
The answers of which there is to be exactly one.

`parse_until_done` collects and then counts. Of an input that is gone through to its end the
result depends on the number of mapped items alone, and every other input gives an error.
The assertion after the loop and the `expect` at the end never fail.
-/

namespace RustImap

open UnsolicitedResponse (tryFrom)

variable {T : Type} (map : Response → Except Error (MapOrNot T))

/-- The items that a response is mapped to. -/
def mapped (r : Response) : List T :=
  match map r with
  | .ok (.map t) => [t]
  | .ok (.mapVec ts) => ts
  | _ => []

/-- The map does not fail on a response, and what it returns is accepted. -/
def Passes (r : Response) : Prop :=
  ∃ m, map r = .ok m ∧ ∀ resp, m = .not resp → tryFrom resp ≠ none

/-- All of the input is gone through, and `ts` is what it has been mapped to. -/
def Maps (parse : ParseResponse) (input : Bytes) (ts : List T) : Prop :=
  ∃ rs, parse.Splits input rs ∧ (∀ r ∈ rs, Passes map r) ∧ rs.flatMap (mapped map) = ts

variable {map} {parse : ParseResponse}

theorem mapped1_widen : mapped1 (widen map) = mapped map := by
  funext r
  unfold mapped1 mapped widen
  cases map r with
  | error e => rfl
  | ok m => cases m <;> rfl

theorem mapped2_widen (r : Response) : mapped2 (widen map) r = [] := by
  unfold mapped2 widen
  cases map r with
  | error e => rfl
  | ok m => cases m <;> rfl

theorem failure_widen (r : Response) : failure (widen map) r = none ↔ Passes map r := by
  unfold failure widen Passes
  cases map r with
  | error e => simp [Except.map]
  | ok m => cases m <;> simp [Except.map, MapOrNot.toMapOrNot2]

variable (parse) in
/-- The loop goes through the whole input, or it fails with an error. -/
theorem Into.parseManyInto2_result {U : Type} (map : Response → Except Error (MapOrNot2 T U))
    (input : Bytes) (s : Into T U) :
    (∃ rs, parse.Splits input rs ∧ (∀ r ∈ rs, failure map r = none) ∧
      parseManyInto2 parse map input s = (.ok (), s.after map rs)) ∨
    (¬ ∃ rs, parse.Splits input rs ∧ ∀ r ∈ rs, failure map r = none) ∧
      ∃ e, (parseManyInto2 parse map input s).1 = .error (.err e) := by
  obtain ⟨rs, tail, h⟩ := parse.exists_splitsUpTo input
  have only : ∀ rs', parse.Splits input rs' → rs' = rs ∧ tail = [] := by
    intro rs' hrs'
    obtain ⟨hrs, htail⟩ := (Parser.splitsUpTo_nil.mpr hrs').unique h
    exact ⟨hrs, htail.symm⟩
  by_cases hall : ∀ r ∈ rs, failure map r = none
  · by_cases htail : tail = []
    · subst htail
      exact .inl ⟨rs, Parser.splitsUpTo_nil.mp h, hall, parseManyInto2_passes h hall s⟩
    · refine .inr ⟨?_, _, congrArg Prod.fst (parseManyInto2_unparsed h hall htail s)⟩
      rintro ⟨rs', hrs', -⟩
      exact htail (only rs' hrs').2
  · obtain ⟨pre, r, post, hrs, hpre, hr⟩ := exists_first hall
    obtain ⟨e, he⟩ := Option.ne_none_iff_exists'.mp hr
    refine .inr ⟨?_, e, congrArg Prod.fst (parseManyInto2_fails (hrs ▸ h) hpre he s)⟩
    rintro ⟨rs', hrs', hall'⟩
    rw [(only rs' hrs').1] at hall'
    exact hall hall'

variable (parse map) in
/-- Collecting items of one kind returns all of them, or fails with an error. -/
theorem parseManyInto_result (input : Bytes) (into : List T) (q : Queue) :
    (∃ ts, Maps map parse input ts ∧ (parseManyInto parse map input into q).1 = .ok (into ++ ts)) ∨
    (¬ ∃ ts, Maps map parse input ts) ∧
      ∃ e, (parseManyInto parse map input into q).1 = .error (.err e) := by
  have seen : parseManyInto2 parse (fun r => (map r).map MapOrNot.toMapOrNot2) input into [] q =
      Into.seen (Into.parseManyInto2 parse (widen map) input ⟨into, [], q⟩) :=
    Into.parseManyInto2_seen parse (widen map) input ⟨into, [], q⟩
  rw [parseManyInto, Exec.bind_apply, seen]
  rcases Into.parseManyInto2_result parse (widen map) input ⟨into, [], q⟩ with
    ⟨rs, hsplits, hall, heq⟩ | ⟨hnone, e, he⟩
  · refine .inl ⟨rs.flatMap (mapped map), ⟨rs, hsplits, ?_, rfl⟩, ?_⟩
    · intro r hr
      exact (failure_widen r).mp (hall r hr)
    · rw [heq]
      simp [Into.seen, Into.after, Except.map, mapped1_widen, mapped2_widen]
  · refine .inr ⟨?_, e, ?_⟩
    · rintro ⟨_, rs, hsplits, hall, -⟩
      exact hnone ⟨rs, hsplits, fun r hr => (failure_widen r).mpr (hall r hr)⟩
    · rw [Into.seen, he]
      rfl

/-- The result for a number of items. -/
def counted (optional : Bool) (input : Bytes) : List T → Except Fault (Option T)
  | [t] => .ok (some t)
  | [] => if optional then .ok none else .error (.err (.parse (.invalid input)))
  | _ => .error (.err (.parse (.invalid input)))

theorem counted_eq_some {optional : Bool} {input : Bytes} {ts : List T} {t : T} :
    counted optional input ts = .ok (some t) ↔ ts = [t] := by
  cases ts with
  | nil => cases optional <;> simp [counted]
  | cons t' ts => cases ts <;> simp [counted]

theorem counted_eq_none {optional : Bool} {input : Bytes} {ts : List T} :
    counted optional input ts = .ok none ↔ ts = [] ∧ optional = true := by
  cases ts with
  | nil => cases optional <;> simp [counted]
  | cons t' ts => cases ts <;> simp [counted]

theorem counted_many {optional : Bool} {input : Bytes} {ts : List T} (h : 2 ≤ ts.length) :
    counted optional input ts = .error (.err (.parse (.invalid input))) := by
  cases ts with
  | nil => simp at h
  | cons t ts =>
      cases ts with
      | nil => simp at h
      | cons t' ts => rfl

theorem counted_error {optional : Bool} {input : Bytes} {ts : List T} {fault : Fault}
    (h : counted optional input ts = .error fault) :
    fault = .err (.parse (.invalid input)) := by
  cases ts with
  | nil => cases optional <;> cases h; rfl
  | cons t ts =>
      cases ts with
      | nil => cases h
      | cons t' ts =>
          cases h
          rfl

theorem parseUntilDoneInternal_result (input : Bytes) (optional : Bool)
    (map : Response → Except Error (MapOrNot T)) (q : Queue) :
    (∃ ts, Maps map parse input ts ∧
      (parseUntilDoneInternal parse input optional map q).1 = counted optional input ts) ∨
    (¬ ∃ ts, Maps map parse input ts) ∧
      ∃ e, (parseUntilDoneInternal parse input optional map q).1 = .error (.err e) := by
  rw [parseUntilDoneInternal, Exec.bind_apply]
  rcases parseManyInto_result map parse input [] q with ⟨ts, hts, heq⟩ | ⟨hnone, e, he⟩
  · refine .inl ⟨ts, hts, ?_⟩
    generalize parseManyInto parse map input [] q = out at heq
    obtain ⟨result, q'⟩ := out
    cases heq
    rw [List.nil_append]
    cases ts with
    | nil => cases optional <;> rfl
    | cons t ts => cases ts <;> rfl
  · refine .inr ⟨hnone, e, ?_⟩
    generalize parseManyInto parse map input [] q = out at he
    obtain ⟨result, q'⟩ := out
    cases he
    rfl

theorem Maps.unique {input : Bytes} {ts ts' : List T} (h : Maps map parse input ts)
    (h' : Maps map parse input ts') : ts = ts' := by
  obtain ⟨rs, hrs, -, rfl⟩ := h
  obtain ⟨rs', hrs', -, rfl⟩ := h'
  rw [hrs.unique hrs']

theorem parseUntilDoneInternal_of_maps {input : Bytes} {ts : List T}
    (h : Maps map parse input ts) (optional : Bool) (q : Queue) :
    (parseUntilDoneInternal parse input optional map q).1 = counted optional input ts := by
  rcases parseUntilDoneInternal_result input optional map q with ⟨ts', hts', heq⟩ | ⟨hnone, -⟩
  · rw [heq, h.unique hts']
  · exact absurd ⟨ts, h⟩ hnone

theorem parseUntilDoneInternal_ok_iff {input : Bytes} {optional : Bool} {q : Queue}
    {v : Option T} :
    (parseUntilDoneInternal parse input optional map q).1 = .ok v ↔
      ∃ ts, Maps map parse input ts ∧ counted optional input ts = .ok v := by
  constructor
  · intro h
    rcases parseUntilDoneInternal_result input optional map q with ⟨ts, hts, heq⟩ | ⟨-, e, he⟩
    · exact ⟨ts, hts, heq.symm.trans h⟩
    · rw [he] at h
      cases h
  · rintro ⟨ts, hts, heq⟩
    rw [parseUntilDoneInternal_of_maps hts, heq]

theorem parseUntilDoneInternal_some_iff {input : Bytes} {optional : Bool} {q : Queue} {t : T} :
    (parseUntilDoneInternal parse input optional map q).1 = .ok (some t) ↔
      Maps map parse input [t] := by
  simp only [parseUntilDoneInternal_ok_iff, counted_eq_some, exists_eq_right]

theorem parseUntilDoneInternal_none_iff {input : Bytes} {optional : Bool} {q : Queue} :
    (parseUntilDoneInternal parse input optional map q).1 = .ok none ↔
      Maps map parse input [] ∧ optional = true := by
  simp only [parseUntilDoneInternal_ok_iff, counted_eq_none]
  constructor
  · rintro ⟨_, hts, rfl, hopt⟩
    exact ⟨hts, hopt⟩
  · rintro ⟨hts, hopt⟩
    exact ⟨[], hts, rfl, hopt⟩

variable (parse map) in
theorem parseUntilDoneInternal_panic (input : Bytes) (optional : Bool) (q : Queue) :
    (parseUntilDoneInternal parse input optional map q).1 ≠ .error .panic := by
  intro h
  rcases parseUntilDoneInternal_result input optional map q with ⟨ts, -, heq⟩ | ⟨-, e, he⟩
  · cases counted_error (heq.symm.trans h)
  · rw [he] at h
    cases h

/-- `expect` finds what it expects. -/
theorem parseUntilDone_internal (input : Bytes) (q : Queue) :
    (parseUntilDoneInternal parse input false map q).1 =
      (parseUntilDone parse input map q).1.map some := by
  have expected : (parseUntilDoneInternal parse input false map q).1 ≠ .ok none := by
    rw [Ne, parseUntilDoneInternal_none_iff]
    simp
  rw [parseUntilDone, Exec.bind_apply]
  generalize parseUntilDoneInternal parse input false map q = out at expected
  obtain ⟨result, q'⟩ := out
  cases result with
  | error e => rfl
  | ok v =>
      cases v with
      | none => exact absurd rfl expected
      | some t => rfl

variable (map parse) in
/-- What the parsers of a single answer ought to do with an input. -/
structure ExactlyOne (input : Bytes) (q : Queue) : Prop where
  one : ∀ t, (parseUntilDone parse input map q).1 = .ok t ↔ Maps map parse input [t]
  optionalOne : ∀ t, (parseUntilDoneOptional parse input map q).1 = .ok (some t) ↔
    Maps map parse input [t]
  optionalNone : (parseUntilDoneOptional parse input map q).1 = .ok none ↔
    Maps map parse input []
  more : ∀ ts, Maps map parse input ts → 2 ≤ ts.length →
    (parseUntilDone parse input map q).1 = .error (.err (.parse (.invalid input))) ∧
    (parseUntilDoneOptional parse input map q).1 = .error (.err (.parse (.invalid input)))
  expects : (parseUntilDone parse input map q).1 ≠ .error .panic
  optionalExpects : (parseUntilDoneOptional parse input map q).1 ≠ .error .panic
  asserts : ∀ into, (parseManyInto parse map input into q).1 ≠ .error .panic

theorem parseUntilDone_exactlyOne (parse : ParseResponse) (input : Bytes)
    (map : Response → Except Error (MapOrNot T)) (q : Queue) :
    ExactlyOne map parse input q where
  one t := by
    rw [← parseUntilDoneInternal_some_iff, parseUntilDone_internal]
    cases (parseUntilDone parse input map q).1 <;> simp [Except.map]
  optionalOne t := parseUntilDoneInternal_some_iff
  optionalNone := by
    rw [parseUntilDoneOptional, parseUntilDoneInternal_none_iff]
    simp
  more ts hts hlength := by
    have internal := fun optional =>
      (parseUntilDoneInternal_of_maps hts optional q).trans (counted_many hlength)
    refine ⟨?_, internal true⟩
    have plain := internal false
    rw [parseUntilDone_internal] at plain
    generalize (parseUntilDone parse input map q).1 = result at plain
    cases result with
    | ok t => cases plain
    | error fault =>
        cases plain
        rfl
  expects h := by
    apply parseUntilDoneInternal_panic map parse input false q
    rw [parseUntilDone_internal, h]
    rfl
  optionalExpects := parseUntilDoneInternal_panic map parse input true q
  asserts into h := by
    rcases parseManyInto_result map parse input into q with ⟨ts, -, heq⟩ | ⟨-, e, he⟩
    · rw [heq] at h
      cases h
    · rw [he] at h
      cases h

end RustImap
