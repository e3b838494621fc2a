import RustImap.MailboxName
import RustImap.SelfDelimiting

/-!
What a quoted argument tells.

`quote!` puts a backslash before each backslash, then one before each quote. Whatever stands
behind the closing quote, the text and its end can be found again, so a line built from
quoted arguments determines them: `SETMETADATA` determines its annotations.
-/

namespace RustImap

open Astring (escape isQuotedSpecial isQuotedChar)

namespace Astring

/-- An escaped character tells itself. -/
theorem escape_selfDelimiting : SelfDelimiting escape := by
  intro c d s t h
  unfold escape at h
  split at h
  · split at h
    · simp only [List.cons_append, List.nil_append, List.cons.injEq, true_and] at h
      exact h
    · rename_i hd
      have head : '\\' = d := (List.cons.inj h).1
      rw [← head] at hd
      exact absurd rfl hd
  · split at h
    · rename_i hc _
      have head : c = '\\' := (List.cons.inj h).1
      rw [head] at hc
      exact absurd rfl hc
    · exact List.cons.inj h

theorem escape_ne_quote (c : Char) (s t : List Char) : escape c ++ s ≠ '"' :: t := by
  intro h
  unfold escape at h
  split at h
  · exact absurd (List.cons.inj h).1 (by decide)
  · rename_i hc
    have head : c = '"' := (List.cons.inj h).1
    rw [head] at hc
    exact absurd rfl hc

theorem escaped_selfDelimiting :
    SelfDelimiting fun s : List Char => s.flatMap escape ++ ['"'] := by
  intro s
  induction s with
  | nil =>
      intro s' t t' h
      cases s' with
      | nil => exact ⟨rfl, (List.cons.inj h).2⟩
      | cons d s' =>
          simp only [List.flatMap_cons, List.append_assoc] at h
          exact absurd h.symm (escape_ne_quote d _ t)
  | cons c s ih =>
      intro s' t t' h
      cases s' with
      | nil =>
          simp only [List.flatMap_cons, List.append_assoc] at h
          exact absurd h (escape_ne_quote c _ t')
      | cons d s' =>
          simp only [List.flatMap_cons, List.append_assoc] at h
          have first := escape_selfDelimiting c d _ _ h
          have rest := ih s' t t' (by simpa only [List.append_assoc] using first.2)
          exact ⟨by rw [first.1, rest.1], rest.2⟩

end Astring

theorem quote_selfDelimiting : SelfDelimiting quote := by
  have quoted := Astring.escaped_selfDelimiting.before ['"']
  have same : quote = fun s => ['"'] ++ (s.flatMap escape ++ ['"']) := funext quote_eq
  rw [same]
  exact quoted

theorem singleLine_iff_not_any {s : Str} : SingleLine s ↔ s.any isLineBreak = false := by
  constructor
  · intro h
    rw [List.any_eq_false]
    intro c hc hbreak
    rw [isLineBreak, Bool.or_eq_true, decide_eq_true_iff, decide_eq_true_iff] at hbreak
    cases hbreak with
    | inl hlf => exact h.2 (hlf ▸ hc)
    | inr hcr => exact h.1 (hcr ▸ hc)
  · intro h
    apply singleLine_of_not_any
    intro c hc
    simpa using List.any_eq_false.mp h c hc

theorem validateStr_singleLine {s : Str} (h : SingleLine s) (synopsis argName : Str) :
    validateStr synopsis argName s = .ok (quote s) := by
  have none : s.find? isLineBreak = none := by
    rw [List.find?_eq_none]
    intro c hc
    simpa using List.any_eq_false.mp (singleLine_iff_not_any.mp h) c hc
  simp only [validateStr, validateStrNoquote, rejectChar, none]
  rfl

/-- The character that is reported is the first line break. -/
theorem validateStr_lineBreak {pre : Str} {c : Char} (hpre : SingleLine pre)
    (hc : isLineBreak c = true) (post synopsis argName : Str) :
    validateStr synopsis argName (pre ++ c :: post) =
      .error (.validate { commandSynopsis := synopsis, argument := argName, offendingChar := c }) := by
  have first : (pre ++ c :: post).find? isLineBreak = some c := by
    rw [List.find?_append, List.find?_cons_of_pos hc, Option.or_eq_right_of_none]
    rw [List.find?_eq_none]
    intro d hd
    simpa using List.any_eq_false.mp (singleLine_iff_not_any.mp hpre) d hd
  simp only [validateStr, validateStrNoquote, rejectChar, first]
  rfl

/-- A text that is not a single line, cut at its first line break. -/
theorem exists_lineBreak {s : Str} (h : ¬ SingleLine s) :
    ∃ pre c post, s = pre ++ c :: post ∧ SingleLine pre ∧ isLineBreak c = true := by
  rw [singleLine_iff_not_any, List.any_eq_false] at h
  obtain ⟨pre, c, post, heq, hpre, hc⟩ := exists_first h
  have single : SingleLine pre := singleLine_iff_not_any.mpr (List.any_eq_false.mpr hpre)
  exact ⟨pre, c, post, heq, single, not_not.mp hc⟩

theorem validateStr_ok {synopsis argName s q : Str} (h : validateStr synopsis argName s = .ok q) :
    SingleLine s ∧ q = quote s := by
  by_cases hs : SingleLine s
  · rw [validateStr_singleLine hs] at h
    exact ⟨hs, (Except.ok.inj h).symm⟩
  · obtain ⟨pre, c, post, rfl, hpre, hc⟩ := exists_lineBreak hs
    rw [validateStr_lineBreak hpre hc] at h
    cases h

/-- A quoted single line is read back by a reader of quoted strings that takes any
character, and the reader stops behind the closing quote. -/
theorem read_quote {s : Str} (h : SingleLine s) (t : Str) :
    Astring.read (fun _ => true) (quote s ++ t) = some (s, t) := by
  rw [quote_eq, List.append_assoc]
  apply (Astring.readQuoted_escape s t).mpr
  intro c hc
  by_cases hspecial : isQuotedSpecial c = true
  · exact .inl hspecial
  · have notBreak : isLineBreak c = false := by
      simpa using List.any_eq_false.mp (singleLine_iff_not_any.mp h) c hc
    rw [isLineBreak, Bool.or_comm] at notBreak
    exact .inr (by simp [isQuotedChar, notBreak, hspecial])

/-- `validate_str` accepts single lines only and reports the first line break of any other
text. What it makes of a text tells the text and its end, whatever follows. -/
theorem validateStr_determines (synopsis argName : Str) :
    (∀ s, (∃ q, validateStr synopsis argName s = .ok q) ↔ SingleLine s) ∧
    (∀ s, ¬ SingleLine s → ∃ pre c post, s = pre ++ c :: post ∧ SingleLine pre ∧
      isLineBreak c = true ∧ validateStr synopsis argName s = .error (.validate
        { commandSynopsis := synopsis, argument := argName, offendingChar := c })) ∧
    (∀ s q t, validateStr synopsis argName s = .ok q →
      Astring.read (fun _ => true) (q ++ t) = some (s, t)) ∧
    ∀ s1 s2 q1 q2 t1 t2 synopsis' argName', validateStr synopsis argName s1 = .ok q1 →
      validateStr synopsis' argName' s2 = .ok q2 → q1 ++ t1 = q2 ++ t2 → s1 = s2 ∧ t1 = t2 := by
  refine ⟨fun s => ?_, fun s hs => ?_, fun s q t hq => ?_, ?_⟩
  · constructor
    · intro h
      obtain ⟨q, hq⟩ := h
      exact (validateStr_ok hq).1
    · exact fun hs => ⟨_, validateStr_singleLine hs synopsis argName⟩
  · obtain ⟨pre, c, post, rfl, hpre, hc⟩ := exists_lineBreak hs
    exact ⟨pre, c, post, rfl, hpre, hc, validateStr_lineBreak hpre hc post synopsis argName⟩
  · obtain ⟨hs, rfl⟩ := validateStr_ok hq
    exact read_quote hs t
  · intro s1 s2 q1 q2 t1 t2 synopsis' argName' h1 h2 h
    rw [(validateStr_ok h1).2, (validateStr_ok h2).2] at h
    exact quote_selfDelimiting s1 s2 t1 t2 h

section Annotations

/-- A value is quoted, and `NIL` is not. -/
theorem value_selfDelimiting :
    SelfDelimiting fun value : Option Str => (value.map quote).getD "NIL".toList := by
  apply quote_selfDelimiting.option
  intro v s t h
  rw [quote_eq] at h
  exact absurd (List.cons.inj h).1 (by decide)

theorem words_pair (v w : Str) : words [v, w] = v ++ ' ' :: w := by
  rw [words_cons v (by simp), words_singleton]

theorem item_selfDelimiting : SelfDelimiting Metadata.item := by
  have both := quote_selfDelimiting.pair (value_selfDelimiting.before [' '])
  intro m m' s t h
  rw [Metadata.item, Metadata.item, words_pair, words_pair] at h
  have same := both (m.entry, m.value) (m'.entry, m'.value) s t h
  have parts := Prod.mk.inj same.1
  cases m
  cases m'
  exact ⟨by rw [Metadata.mk.injEq]; exact parts, same.2⟩

/-- The arguments of `SETMETADATA` as they stand on the line. -/
def setMetadataArgs (mbox : Str) (annotations : List Metadata) : Str :=
  quote mbox ++ ' ' :: parens (words (annotations.map Metadata.item))

theorem setMetadataArgs_selfDelimiting :
    SelfDelimiting fun p : Str × List Metadata => setMetadataArgs p.1 p.2 := by
  have items : SelfDelimiting fun annotations : List Metadata =>
      [' '].intercalate (annotations.map Metadata.item) ++ [')'] := by
    apply item_selfDelimiting.list (by decide)
    intro m s t h
    rw [Metadata.item, words_pair, quote_eq] at h
    exact absurd (List.cons.inj h).1 (by decide)
  exact quote_selfDelimiting.pair (items.before [' ', '('])

theorem setMetadata_text {mbox : Str} {annotations : List Metadata} {text : Str}
    (h : (Command.setMetadata mbox annotations).text = .ok (some text)) :
    text = "SETMETADATA ".toList ++ setMetadataArgs mbox annotations := by
  obtain ⟨items, hitems, hline⟩ := bind_ok h
  obtain rfl := writes_collectFrom writes_item hitems
  have hwords := writes_line hline (.cons (writes_arg _ _ _) (.cons (writes_ok _) .nil))
  rw [hwords, words_cons _ (by simp), words_pair]
  rfl

/-- Nothing of the annotation has to be refused. -/
def Metadata.Sendable (m : Metadata) : Prop := SingleLine m.entry ∧ ∀ v ∈ m.value, SingleLine v

/-- The first text among the annotations that is refused, and the name it has in the report:
its kind and the position of its annotation, counted from one. -/
def FirstRefused (annotations : List Metadata) (name refused : Str) : Prop :=
  ∃ pre m post, annotations = pre ++ m :: post ∧ (∀ m' ∈ pre, m'.Sendable) ∧
    ¬ SingleLine refused ∧
    (name = "entry#".toList ++ decimal (pre.length + 1) ∧ m.entry = refused ∨
      name = "value#".toList ++ decimal (pre.length + 1) ∧ SingleLine m.entry ∧
        m.value = some refused)

theorem exists_firstRefused {annotations : List Metadata} (h : ¬ ∀ m ∈ annotations, m.Sendable) :
    ∃ name refused, FirstRefused annotations name refused := by
  obtain ⟨pre, m, post, heq, hpre, hm⟩ := exists_first h
  by_cases hentry : SingleLine m.entry
  · have hvalue : ∃ v, m.value = some v ∧ ¬ SingleLine v := by
      cases hv : m.value with
      | none => exact absurd ⟨hentry, by simp [hv]⟩ hm
      | some v =>
          refine ⟨v, rfl, fun hsingle => hm ⟨hentry, ?_⟩⟩
          intro v' hv'
          rw [hv] at hv'
          cases hv'
          exact hsingle
    obtain ⟨v, hv, hbreak⟩ := hvalue
    exact ⟨_, v, pre, m, post, heq, hpre, hbreak, .inr ⟨rfl, hentry, hv⟩⟩
  · exact ⟨_, m.entry, pre, m, post, heq, hpre, hentry, .inl ⟨rfl, rfl⟩⟩

theorem item_sendable {m : Metadata} (h : m.Sendable) (i : Nat) :
    m.formatAsCmdListItem i = .ok m.item := by
  cases hv : m.value with
  | none =>
      simp only [Metadata.formatAsCmdListItem, Metadata.item, validateStr_singleLine h.1, hv]
      rfl
  | some v =>
      have hsingle := h.2 v hv
      simp only [Metadata.formatAsCmdListItem, Metadata.item, validateStr_singleLine h.1, hv,
        optional, validateStr_singleLine hsingle]
      rfl

/-- The report of a refused text. -/
def lineBreakIn (name : Str) (c : Char) : Error :=
  .validate { commandSynopsis := "SETMETADATA".toList, argument := name, offendingChar := c }

theorem collectFrom_item {pre : List Metadata} (hpre : ∀ m ∈ pre, m.Sendable) {m : Metadata}
    (post : List Metadata) {e : Error} (i : Nat)
    (hm : m.formatAsCmdListItem (i + pre.length) = .error e) :
    collectFrom Metadata.formatAsCmdListItem i (pre ++ m :: post) = .error e := by
  induction pre generalizing i with
  | nil =>
      rw [List.length_nil, Nat.add_zero] at hm
      rw [List.nil_append, collectFrom, hm]
      rfl
  | cons m' pre ih =>
      have hpre' := List.forall_mem_cons.mp hpre
      have later := ih hpre'.2 (i + 1) (by
        rw [← hm, List.length_cons]
        congr 1
        omega)
      rw [List.cons_append, collectFrom, item_sendable hpre'.1, later]
      rfl

/-- What is reported is the first line break of the first text with one. -/
theorem setMetadata_refused {annotations : List Metadata} {name refused : Str}
    (h : FirstRefused annotations name refused) (mbox : Str) :
    ∃ pre c post, refused = pre ++ c :: post ∧ SingleLine pre ∧ isLineBreak c = true ∧
      (Command.setMetadata mbox annotations).text = .error (lineBreakIn name c) := by
  obtain ⟨before, m, after, heq, hbefore, hbreak, hplace⟩ := h
  obtain ⟨pre, c, post, hrefused, hpre, hc⟩ := exists_lineBreak hbreak
  refine ⟨pre, c, post, hrefused, hpre, hc, ?_⟩
  have hitem : m.formatAsCmdListItem (0 + before.length) = .error (lineBreakIn name c) := by
    rw [Nat.zero_add]
    cases hplace with
    | inl hplace =>
        rw [Metadata.formatAsCmdListItem, hplace.2, hrefused, validateStr_lineBreak hpre hc,
          hplace.1]
        rfl
    | inr hplace =>
        rw [Metadata.formatAsCmdListItem, validateStr_singleLine hplace.2.1, hplace.2.2, optional,
          hrefused, validateStr_lineBreak hpre hc, hplace.1]
        rfl
  have hall := collectFrom_item hbefore after 0 hitem
  rw [← heq] at hall
  rw [Command.text, hall]
  rfl

/-- The line of a `SETMETADATA` that is accepted tells the mailbox and the annotations. When
an entry or a value has a line break, nothing is sent and the first such text is reported. -/
theorem setMetadata_determines :
    (∀ m1 m2 A1 A2 text, (Command.setMetadata m1 A1).text = .ok (some text) →
      (Command.setMetadata m2 A2).text = .ok (some text) → m1 = m2 ∧ A1 = A2) ∧
    ∀ mbox annotations, (¬ ∀ m ∈ annotations, m.Sendable) →
      ∃ name refused pre c post, FirstRefused annotations name refused ∧
        refused = pre ++ c :: post ∧ SingleLine pre ∧ isLineBreak c = true ∧
        ∀ (σ : Type) (peer : Peer σ) (parse : ParseResponse) (s : Session σ),
          Session.setMetadata peer parse mbox annotations s =
            (.error (.err (lineBreakIn name c)), s) := by
  refine ⟨fun m1 m2 A1 A2 text h1 h2 => ?_, fun mbox annotations h => ?_⟩
  · have same := List.append_cancel_left ((setMetadata_text h1).symm.trans (setMetadata_text h2))
    have pairs : (m1, A1) = (m2, A2) := setMetadataArgs_selfDelimiting.injective same
    exact Prod.mk.inj pairs
  · obtain ⟨name, refused, hfirst⟩ := exists_firstRefused h
    obtain ⟨pre, c, post, hrefused, hpre, hc, htext⟩ := setMetadata_refused hfirst mbox
    refine ⟨name, refused, pre, c, post, hfirst, hrefused, hpre, hc, fun σ peer parse s => ?_⟩
    have hsend : Connection.send peer (.setMetadata mbox annotations) s.conn =
        (.error (.err (lineBreakIn name c)), s.conn) := Connection.send_rejected htext s.conn
    exact Session.checkOk_error (Connection.command_failed hsend)

end Annotations

end RustImap
