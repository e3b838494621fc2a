import RustImap.ReadResponse

/-!
The framing of responses.

`read_response` splits what it read at the tagged response. Every later parser takes
the part before the split and expects to find whole responses there.
-/

namespace RustImap
namespace Connection

variable {σ : Type} {parse : ParseResponse}

/-- The answer to the command with tag `tag`, when the command succeeded: the texts
`cs` of other responses, then the text `d` of the tagged one. -/
structure OkAnswer (parse : ParseResponse) (tag : UInt32) (cs : List Bytes) (d : Bytes) :
    Prop where
  untagged : ∀ c ∈ cs, ∃ r, parse.Accepts c r ∧ r.isDone = false
  tagged : ∃ code information, parse.Accepts d (.done (matchTag tag) .ok code information)

/-- What `read_response` returns is what it took from the stream, and parsing it again
finds the same responses. -/
def Reparses (parse : ParseResponse) (conn : Connection σ) : Prop :=
  ∀ data ok conn', readResponse parse conn = (.ok (data, ok), conn') →
    conn.input = data.map .item ++ conn'.input ∧
    (∃ rs, parse.Splits (data.take ok) rs ∧ ∀ r ∈ rs, r.isDone = false) ∧
    ∃ code information,
      parse.Accepts (data.drop ok) (.done (matchTag conn.tag) .ok code information)

/-- An answer at the front of the stream is what `read_response` returns. -/
def Recognises (parse : ParseResponse) (conn : Connection σ) : Prop :=
  ∀ cs d more, OkAnswer parse conn.tag cs d →
    conn.input = (cs.flatten ++ d).map .item ++ more →
    ∃ conn', readResponse parse conn = (.ok (cs.flatten ++ d, cs.flatten.length), conn') ∧
      conn'.input = more

/-- The debug output gets through every line of an answer at the front of the stream. -/
def AnswerPrintable (parse : ParseResponse) (conn : Connection σ) : Prop :=
  conn.debug = true → ∀ cs d more, OkAnswer parse conn.tag cs d →
    conn.input = (cs.flatten ++ d).map .item ++ more →
    ∀ line ∈ linesOf LF (cs.flatten ++ d), 2 ≤ line.length

theorem printable_eq_true {conn : Connection σ} {line : Bytes} :
    conn.printable line = true ↔ (conn.debug = true → 2 ≤ line.length) := by
  cases hd : conn.debug with
  | false => simp [printable, hd]
  | true =>
      rw [printable, hd, Bool.true_and, Bool.not_eq_true', decide_eq_false_iff_not, Nat.not_lt]
      exact ⟨fun h _ => h, fun h => h rfl⟩

/-- A successful result comes from a tagged `OK` with the current tag. -/
theorem answerResult_ok {tag : UInt32} {us : List (Bytes × Response)}
    {u : UnitRead UInt8 ErrorKind Response} {data : Bytes} {ok : Nat}
    (h : answerResult tag [] us u = .ok (data, ok)) :
    ∃ code information, u.stop = .unit (.done (matchTag tag) .ok code information) ∧
      data = textOf us u ∧ ok = ((us.map Prod.fst).flatten).length := by
  unfold answerResult at h
  split at h <;> try cases h
  rename_i r hstop
  cases r <;> try cases h
  rename_i doneTag status code information
  by_cases htag : doneTag = matchTag tag
  · cases status <;> simp [breakWith, htag, leave, -List.length_flatten] at h
    exact ⟨code, information, by rw [hstop, htag], h.1.symm, h.2.symm⟩
  · simp [breakWith, htag, leave] at h

theorem answerResult_done {tag : UInt32} {before : Bytes} {us : List (Bytes × Response)}
    {u : UnitRead UInt8 ErrorKind Response} {code : Option ResponseCode}
    {information : Option Str}
    (h : u.stop = .unit (.done (matchTag tag) .ok code information)) :
    answerResult tag before us u =
      .ok (before ++ textOf us u, (before ++ (us.map Prod.fst).flatten).length) := by
  simp [answerResult, h, breakWith, leave]

theorem readResponse_reparses (hp : parse.Framed LF) (conn : Connection σ) :
    Reparses parse conn := by
  intro data ok conn' h
  obtain ⟨us, u, conn'', hrun, hres, hin, -⟩ := readResponse_answer parse conn
  rw [hres] at h
  obtain ⟨hresult, rfl⟩ := Prod.mk.inj h
  obtain ⟨code, information, hstop, rfl, rfl⟩ := answerResult_ok hresult
  obtain ⟨got, htext, hevents⟩ := hrun.reads
  obtain ⟨hus, hu⟩ := hrun.accepts hp (.inl rfl)
  rw [List.nil_append] at htext
  refine ⟨?_, ?_, code, information, ?_⟩
  · rw [hevents, hstop, htext, hin, Stop.event_unit, List.append_nil]
  · refine ⟨us.map Prod.snd, ?_, ?_⟩
    · rw [textOf, List.take_left]
      refine hp.splits_flatten ?_
      rw [List.forall₂_map_left_iff, List.forall₂_map_right_iff, List.forall₂_same]
      exact fun m hm => (hus m hm).1
    · intro r hr
      obtain ⟨m, hm, rfl⟩ := List.mem_map.mp hr
      exact (hus m hm).2
  · rw [textOf, List.drop_left]
    exact (hu _ hstop).1

theorem readResponse_recognises (hp : parse.Framed LF) {conn : Connection σ}
    {cs : List Bytes} {d : Bytes} {more : List InEvent} (h : OkAnswer parse conn.tag cs d)
    (hin : conn.input = (cs.flatten ++ d).map .item ++ more)
    (hlines : ∀ line ∈ linesOf LF (cs.flatten ++ d), conn.printable line = true) :
    ∃ conn', readResponse parse conn = (.ok (cs.flatten ++ d, cs.flatten.length), conn') ∧
      conn'.input = more ∧ ReadOn conn conn' := by
  obtain ⟨rs, hrs, hnot⟩ := Parser.accepts_each.mp h.untagged
  obtain ⟨code, information, hd⟩ := h.tagged
  obtain ⟨us, u, conn', hrun, hres, hrest, hon⟩ := readResponse_answer parse conn
  have exact_run := AnswerRun.of_accepts hp hrs hd hnot rfl hlines more
  rw [← hin] at exact_run
  obtain ⟨rfl, rfl⟩ := hrun.unique exact_run
  refine ⟨conn', ?_, hrest, hon⟩
  rw [hres, answerResult_done rfl, textOf, List.map_fst_zip (Nat.le_of_eq hrs.length_eq)]
  rfl

/-- Both directions hold for a connection exactly when the debug output does not stumble
over its answer. Without debug output they always hold. -/
theorem readResponse_framing (hp : parse.Framed LF) (conn : Connection σ) :
    Reparses parse conn ∧ Recognises parse conn ↔ AnswerPrintable parse conn := by
  constructor
  · rintro ⟨-, recognises⟩ hdebug cs d more h hin
    obtain ⟨conn', hres, -⟩ := recognises cs d more h hin
    obtain ⟨us, u, conn'', hrun, hres', -⟩ := readResponse_answer parse conn
    rw [hres] at hres'
    obtain ⟨hresult, -⟩ := Prod.mk.inj hres'
    obtain ⟨code, information, hstop, htext, -⟩ := answerResult_ok hresult.symm
    have hlines := hrun.guarded hp (.inl rfl) hstop (cs.flatten ++ d) htext.symm
    exact fun line hl => printable_eq_true.mp (hlines line hl) hdebug
  · intro printable
    refine ⟨readResponse_reparses hp conn, ?_⟩
    intro cs d more h hin
    have hlines : ∀ line ∈ linesOf LF (cs.flatten ++ d), conn.printable line = true :=
      fun line hl => printable_eq_true.mpr fun hd => printable hd cs d more h hin line hl
    obtain ⟨conn', hres, hrest, -⟩ := readResponse_recognises hp h hin hlines
    exact ⟨conn', hres, hrest⟩

/-- A message body of one line feed, as a literal. -/
def literalFetch : Bytes := utf8 "* 1 FETCH (BODY[] {1}\r\n\n)\r\n".toList

def okDone : Bytes := utf8 "a0 OK done\r\n".toList

def okResponse : Response := .done "a0".toList .ok none (some "done".toList)

def literalMessages : List (Bytes × Response) :=
  [(literalFetch, .fetch 1 [.other "BODY[]".toList [LF]]), (okDone, okResponse)]

def literalParse : ParseResponse := Parser.table literalMessages (by decide)

theorem literalParse_framed : literalParse.Framed LF :=
  Parser.table_framed _ (by decide) (by decide)

/-- A connection over a transport that holds these bytes and is never written to. -/
def reading (bytes : Bytes) (debug : Bool) : Connection Unit where
  stream :=
    { inner :=
        { peer := (), incoming := [], writes := [], timeouts := [], readTimeout := none,
          wire := [] }
      rbuf := bytes
      wbuf := [] }
  tag := INITIAL_TAG
  debug
  greetingRead := true

theorem readResponse_framing_literal :
    Reparses literalParse (reading (literalFetch ++ okDone) false) ∧
      Recognises literalParse (reading (literalFetch ++ okDone) false) :=
  (readResponse_framing literalParse_framed _).mpr (fun h => by cases h)

/-- The line feed of the body is a line of its own, and the debug output slices it from
index 0 to index -1. -/
theorem readResponse_framing_fails :
    ¬ ∀ (parse : ParseResponse) (conn : Connection Unit), parse.Framed LF →
      Reparses parse conn ∧ Recognises parse conn := by
  intro h
  obtain ⟨-, recognises⟩ :=
    h literalParse (reading (literalFetch ++ okDone) true) literalParse_framed
  have answer : OkAnswer literalParse INITIAL_TAG [literalFetch] okDone :=
    { untagged := by
        intro c hc
        rw [List.mem_singleton.mp hc]
        exact ⟨.fetch 1 [.other "BODY[]".toList [LF]],
          show literalParse.run literalFetch = _ by decide, rfl⟩
      tagged := ⟨none, some "done".toList, show literalParse.run okDone = _ by decide⟩ }
  have hin : (reading (literalFetch ++ okDone) true).input =
      ([literalFetch].flatten ++ okDone).map .item ++ [] := by decide
  obtain ⟨conn', hres, -⟩ := recognises [literalFetch] okDone [] answer hin
  have panics : (readResponse literalParse (reading (literalFetch ++ okDone) true)).1 =
      .error .panic := by decide +kernel
  rw [hres] at panics
  cases panics

end Connection
end RustImap
