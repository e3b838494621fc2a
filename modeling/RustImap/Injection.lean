import RustImap.Classification

/-!
Which arguments can put a line break on the wire.

The arguments an operation checks are kept apart from those it puts on the line as they
are, quoted or not: `Command.checked` and `Command.raw` list them. A command line is a
single line whenever the second kind brings no line break of its own.
-/

namespace RustImap

namespace SingleLine

@[simp] theorem nil : SingleLine [] := by simp [SingleLine]

@[simp] theorem cons (c : Char) (s : Str) :
    SingleLine (c :: s) ↔ (c ≠ '\r' ∧ c ≠ '\n') ∧ SingleLine s := by
  simp only [SingleLine, List.mem_cons, not_or, ne_comm (a := c), ne_eq]
  tauto

@[simp] theorem append (s t : Str) : SingleLine (s ++ t) ↔ SingleLine s ∧ SingleLine t := by
  simp only [SingleLine, List.mem_append, not_or]
  tauto

theorem iterJoin {delim : Str} (hdelim : SingleLine delim) (items : List Str) :
    SingleLine (iterJoin items delim) ↔ ∀ s ∈ items, SingleLine s := by
  simp only [SingleLine, mem_iterJoin hdelim.1, mem_iterJoin hdelim.2, not_exists, not_and]
  exact forall₂_and.symm

@[simp] theorem words (items : List Str) :
    SingleLine (words items) ↔ ∀ s ∈ items, SingleLine s :=
  iterJoin (by decide) items

@[simp] theorem parens (s : Str) : SingleLine (parens s) ↔ SingleLine s := by
  simp [RustImap.parens]

/-- Quoting adds backslashes and quotes only. -/
@[simp] theorem quote (x : Str) : SingleLine (quote x) ↔ SingleLine x := by
  have escape : ∀ (a : Char) (e s : Str), SingleLine [a] → SingleLine e →
      (SingleLine (s.flatMap fun c => if c = a then e else [c]) ↔ SingleLine s) := by
    intro a e s ha he
    induction s with
    | nil => simp
    | cons c s ih =>
        by_cases hc : c = a
        · subst hc
          simpa [he, ih] using fun _ => ha
        · simp [hc, ih]
  simp [RustImap.quote, escape]

@[simp] theorem decimal (n : Nat) : SingleLine (decimal n) := by
  constructor
  · intro h
    exact absurd (isDigit_of_mem_decimal h) (by decide)
  · intro h
    exact absurd (isDigit_of_mem_decimal h) (by decide)

@[simp] theorem sortCriterion (c : SortCriterion) : SingleLine c.text := by
  induction c with
  | reverse c ih =>
      have verb : SingleLine "REVERSE ".toList := by decide
      exact (append _ _).mpr ⟨verb, ih⟩
  | arrival | cc | date | from_ | size | subject | to_ => decide

@[simp] theorem sortCriteria (criteria : List SortCriterion) :
    SingleLine (sortCriteria criteria) := by
  unfold RustImap.sortCriteria
  split <;> simp

@[simp] theorem aclModifyMode (mode : AclModifyMode) : SingleLine mode.text := by
  cases mode <;> decide

@[simp] theorem metadataDepth (depth : MetadataDepth) : SingleLine depth.text := by
  cases depth <;> decide

@[simp] theorem quotaResourceLimit (limit : QuotaResourceLimit) :
    SingleLine limit.text ↔ SingleLine limit.name.text := by
  simp [QuotaResourceLimit.text]

theorem getD {o : Option Str} {absent : Str} (h : SingleLine absent) :
    SingleLine (o.getD absent) ↔ ∀ s ∈ o, SingleLine s := by
  cases o <;> simp [h]

end SingleLine

/-- The arguments an operation checks, each with the characters it does not allow. -/
def Command.checked : Command → List (Str × (Char → Bool))
  | .login username password => [(username, isLineBreak), (password, isLineBreak)]
  | .select mailboxName | .examine mailboxName | .create mailboxName
  | .delete mailboxName | .mv _ mailboxName | .uidMv _ mailboxName | .status mailboxName _
  | .getAcl mailboxName | .myRights mailboxName | .getQuotaRoot mailboxName =>
      [(mailboxName, isLineBreak)]
  | .fetch set query | .uidFetch set query =>
      if set = [] then [] else [(set, isAsciiWhitespace), (query, isLineBreak)]
  | .setAcl mailboxName identifier _ _ | .deleteAcl mailboxName identifier
  | .listRights mailboxName identifier =>
      [(mailboxName, isLineBreak), (identifier, isLineBreak)]
  | .setQuota quotaRoot _ | .getQuota quotaRoot => [(quotaRoot, isLineBreak)]
  | .listStatus referenceName _ _ => [(referenceName.getD [], isLineBreak)]
  | .getMetadata mailbox entries _ _ => (entries ++ mailbox.toList).map (·, isLineBreak)
  | .setMetadata mbox annotations =>
      (annotations.flatMap (fun m => m.entry :: m.value.toList) ++ [mbox]).map
        (·, isLineBreak)
  | _ => []

/-- The texts an operation puts on the line without a look at them. -/
def Command.raw : Command → List Str
  | .authenticate authType => [authType]
  | .rename old new => [old, new]
  | .subscribe mailbox | .unsubscribe mailbox => [mailbox]
  | .uidExpunge uidSet => [uidSet]
  | .store set query | .uidStore set query => [set, query]
  | .copy set mailboxName | .uidCopy set mailboxName => [set, mailboxName]
  | .mv set _ | .uidMv set _ => [set]
  | .list referenceName mailboxPattern | .lsub referenceName mailboxPattern =>
      referenceName.toList ++ mailboxPattern.toList
  | .status _ dataItems => [dataItems]
  | .append mailbox flags _ _ => mailbox :: (flags.filter (· ≠ .recent)).map Flag.text
  | .search query | .uidSearch query => [query]
  | .sort _ charset query | .uidSort _ charset query => [charset.text, query]
  | .setAcl _ _ rights _ => [rights.text]
  | .setQuota _ limits => limits.map fun limit => limit.name.text
  | .listStatus _ mailboxPattern dataItems => mailboxPattern.toList ++ [dataItems]
  | _ => []

def Fails {α : Type} (a : Except Error α) : Prop := ∃ e, a = .error e

/-- The check fails in one way only. -/
def Validates {α : Type} (a : Except Error α) : Prop :=
  ∀ e, a = .error e → ∃ v, e = .validate v

/-- What the check lets through is a single line. -/
def Clean (a : Except Error Str) : Prop := ∀ v, a = .ok v → SingleLine v

section Checks

variable {α β : Type}

@[simp] theorem fails_ok (a : α) : Fails (.ok a : Except Error α) ↔ False := by
  simp [Fails]

@[simp] theorem validates_ok (a : α) : Validates (.ok a : Except Error α) := by
  simp [Validates]

@[simp] theorem clean_ok (v : Str) : Clean (.ok v) ↔ SingleLine v := by
  simp [Clean]

theorem not_fails {a : Except Error α} : ¬ Fails a ↔ ∃ v, a = .ok v := by
  cases a <;> simp [Fails]

@[simp] theorem fails_map (f : α → β) (a : Except Error α) : Fails (f <$> a) ↔ Fails a := by
  cases a <;> simp [Fails]

@[simp] theorem validates_map (f : α → β) (a : Except Error α) :
    Validates (f <$> a) ↔ Validates a := by
  cases a <;> simp [Validates]

/-- A sequence of checks fails if one of them does, the later ones seeing what the
earlier ones let through. -/
theorem fails_bind (a : Except Error α) (f : α → Except Error β) :
    Fails (a >>= f) ↔ Fails a ∨ ∃ v, a = .ok v ∧ Fails (f v) := by
  cases a <;> simp [Fails, bind, Except.bind]

theorem bind_ok {a : Except Error α} {f : α → Except Error β} {w : β}
    (h : a >>= f = .ok w) : ∃ v, a = .ok v ∧ f v = .ok w := by
  cases a with
  | error e => cases h
  | ok v => exact ⟨v, rfl, h⟩

theorem validates_bind {a : Except Error α} {f : α → Except Error β} (ha : Validates a)
    (hf : ∀ v, a = .ok v → Validates (f v)) : Validates (a >>= f) := by
  cases a with
  | error e => exact fun e' he => ha e' (by cases he; rfl)
  | ok v => exact hf v rfl

@[simp] theorem fails_rejectChar (bad : Char → Bool) (synopsis argName value : Str) :
    Fails (rejectChar bad synopsis argName value) ↔ value.any bad = true := by
  unfold rejectChar
  split
  · rename_i c hc
    simpa [Fails] using ⟨c, List.mem_of_find?_eq_some hc, List.find?_some hc⟩
  · rename_i hc
    simpa [Fails] using List.find?_eq_none.mp hc

@[simp] theorem validates_rejectChar (bad : Char → Bool) (synopsis argName value : Str) :
    Validates (rejectChar bad synopsis argName value) := by
  unfold rejectChar
  split
  · exact fun e he => by cases he; exact ⟨_, rfl⟩
  · simp

theorem rejectChar_ok {bad : Char → Bool} {synopsis argName value v : Str}
    (h : rejectChar bad synopsis argName value = .ok v) :
    v = value ∧ ∀ c ∈ value, bad c = false := by
  unfold rejectChar at h
  split at h
  · cases h
  · rename_i hc
    cases h
    exact ⟨rfl, fun c hmem => by simpa using List.find?_eq_none.mp hc c hmem⟩

theorem singleLine_of_not_any {s : Str} (h : ∀ c ∈ s, isLineBreak c = false) :
    SingleLine s := by
  constructor
  · exact fun hmem => absurd (h _ hmem) (by decide)
  · exact fun hmem => absurd (h _ hmem) (by decide)

@[simp] theorem clean_noquote (synopsis argName value : Str) :
    Clean (validateStrNoquote synopsis argName value) := by
  intro v hv
  obtain ⟨rfl, h⟩ := rejectChar_ok hv
  exact singleLine_of_not_any h

@[simp] theorem clean_sequenceSet (synopsis argName value : Str) :
    Clean (validateSequenceSet synopsis argName value) := by
  intro v hv
  obtain ⟨rfl, h⟩ := rejectChar_ok hv
  refine singleLine_of_not_any fun c hc => ?_
  have := h c hc
  simp only [isAsciiWhitespace, isLineBreak, Bool.or_eq_false_iff] at this ⊢
  exact ⟨this.1.1.2, this.2⟩

@[simp] theorem clean_validateStr (synopsis argName value : Str) :
    Clean (validateStr synopsis argName value) := by
  intro v hv
  unfold validateStr at hv
  cases hn : validateStrNoquote synopsis argName value with
  | error e => simp [hn] at hv
  | ok w =>
      rw [hn] at hv
      cases hv
      exact (SingleLine.quote w).mpr (clean_noquote _ _ _ w hn)

theorem mapM_id_ok {as : List (Except Error α)} {vs : List α} (h : as.mapM id = .ok vs) :
    as = vs.map .ok := by
  induction as generalizing vs with
  | nil => cases h; rfl
  | cons a as ih =>
      cases a with
      | error e => simp [bind, Except.bind] at h
      | ok v =>
          cases has : as.mapM id with
          | error e => simp [has, bind, Except.bind] at h
          | ok ws =>
              rw [ih has]
              simp only [List.mapM_cons, has, id, bind, Except.bind, pure, Except.pure,
                Except.ok.injEq] at h
              rw [← h, List.map_cons]

theorem mapM_id_error {as : List (Except Error α)} {e : Error} (h : as.mapM id = .error e) :
    .error e ∈ as := by
  induction as with
  | nil => cases h
  | cons a as ih =>
      cases a with
      | error e' =>
          simp only [List.mapM_cons, id, bind, Except.bind, Except.error.injEq] at h
          simp [h]
      | ok v =>
          cases has : as.mapM id with
          | error e' =>
              simp only [List.mapM_cons, has, id, bind, Except.bind, Except.error.injEq] at h
              exact List.mem_cons_of_mem _ (ih (by rw [has, h]))
          | ok ws => simp [has, bind, Except.bind, pure, Except.pure] at h

@[simp] theorem fails_line (cmd : String) (args : List (Except Error Str)) :
    Fails (line cmd args) ↔ ∃ a ∈ args, Fails a := by
  unfold line
  cases h : args.mapM id with
  | error e =>
      have hmem := mapM_id_error h
      simpa [Fails, bind, Except.bind] using ⟨e, hmem⟩
  | ok vs =>
      rw [mapM_id_ok h]
      simp [Fails, bind, Except.bind, pure, Except.pure]

theorem validates_line {cmd : String} {args : List (Except Error Str)}
    (h : ∀ a ∈ args, Validates a) : Validates (line cmd args) := by
  unfold line
  cases hargs : args.mapM id with
  | error e =>
      intro e' he'
      simp only [bind, Except.bind, Except.error.injEq] at he'
      exact h _ (mapM_id_error hargs) e' (by rw [he'])
  | ok vs => simp [bind, Except.bind, pure, Except.pure, Validates]

/-- The line is as clean as its parts. -/
theorem singleLine_line {cmd : String} {args : List (Except Error Str)} {text : Str}
    (hcmd : SingleLine cmd.toList) (h : line cmd args = .ok (some text)) :
    SingleLine text ↔ ∀ a ∈ args, Clean a := by
  unfold line at h
  cases hargs : args.mapM id with
  | error e => simp [hargs, bind, Except.bind] at h
  | ok vs =>
      simp only [hargs, bind, Except.bind, pure, Except.pure, Except.ok.injEq,
        Option.some.injEq] at h
      rw [← h, mapM_id_ok hargs]
      simp [hcmd]

@[simp] theorem fails_arg (cmd argName : String) (value : Str) :
    Fails (arg cmd argName value) ↔ value.any isLineBreak = true := by
  simp [arg, validateStr, validateStrNoquote]

@[simp] theorem validates_arg (cmd argName : String) (value : Str) :
    Validates (arg cmd argName value) := by
  simp [arg, validateStr, validateStrNoquote]

@[simp] theorem clean_arg (cmd argName : String) (value : Str) :
    Clean (arg cmd argName value) :=
  clean_validateStr _ _ _

@[simp] theorem fails_pure (a : α) : Fails (pure a : Except Error α) ↔ False := fails_ok a

/-- A later check that does not depend on an earlier one. -/
theorem fails_seq (a : Except Error α) {f : α → Except Error β} {bad : Prop}
    (hf : ∀ v, Fails (f v) ↔ bad) : Fails (a >>= f) ↔ Fails a ∨ bad := by
  rw [fails_bind]
  simp only [hf]
  by_cases ha : Fails a
  · simp [ha]
  · obtain ⟨v, rfl⟩ := not_fails.mp ha
    simp

theorem fails_collectFrom {f : α → Nat → Except Error Str} {bad : α → Prop}
    (h : ∀ a i, Fails (f a i) ↔ bad a) (i : Nat) (as : List α) :
    Fails (collectFrom f i as) ↔ ∃ a ∈ as, bad a := by
  induction as generalizing i with
  | nil => simp [collectFrom]
  | cons a as ih =>
      rw [collectFrom, fails_seq _ fun v => fails_seq _ fun w => fails_pure (v :: w), h, ih]
      simp

theorem validates_collectFrom {f : α → Nat → Except Error Str}
    (h : ∀ a i, Validates (f a i)) (i : Nat) (as : List α) : Validates (collectFrom f i as) := by
  induction as generalizing i with
  | nil => exact validates_ok _
  | cons a as ih =>
      exact validates_bind (h a i) fun v _ => validates_bind (ih (i + 1)) fun w _ => validates_ok _

theorem clean_collectFrom {f : α → Nat → Except Error Str} (h : ∀ a i, Clean (f a i))
    {i : Nat} {as : List α} {vs : List Str} (hvs : collectFrom f i as = .ok vs) :
    ∀ v ∈ vs, SingleLine v := by
  induction as generalizing i vs with
  | nil => cases hvs; simp
  | cons a as ih =>
      obtain ⟨v, hv, hvs⟩ := bind_ok hvs
      obtain ⟨ws, hws, hvs⟩ := bind_ok hvs
      cases hvs
      intro w hw
      rcases List.mem_cons.mp hw with rfl | hw
      · exact h a i w hv
      · exact ih hws w hw

@[simp] theorem fails_optional (value : Option Str) (check : Str → Except Error Str)
    (absent : String) :
    Fails (optional value check absent) ↔ ∃ v ∈ value, Fails (check v) := by
  cases value <;> simp [optional]

theorem validates_optional {value : Option Str} {check : Str → Except Error Str}
    {absent : String} (h : ∀ v, Validates (check v)) :
    Validates (optional value check absent) := by
  cases value with
  | none => exact validates_ok _
  | some v => exact h v

theorem clean_optional {value : Option Str} {check : Str → Except Error Str}
    {absent : String} (h : ∀ v, Clean (check v)) (habsent : SingleLine absent.toList) :
    Clean (optional value check absent) := by
  cases value with
  | none => exact (clean_ok _).mpr habsent
  | some v => exact h v

@[simp] theorem fails_validateStr (synopsis argName value : Str) :
    Fails (validateStr synopsis argName value) ↔ value.any isLineBreak = true := by
  simp [validateStr, validateStrNoquote]

@[simp] theorem validates_validateStr (synopsis argName value : Str) :
    Validates (validateStr synopsis argName value) := by
  simp [validateStr, validateStrNoquote]

theorem fails_item (metadata : Metadata) (i : Nat) :
    Fails (metadata.formatAsCmdListItem i) ↔
      metadata.entry.any isLineBreak = true ∨
        ∃ v ∈ metadata.value, v.any isLineBreak = true := by
  rw [Metadata.formatAsCmdListItem,
    fails_seq _ fun v => fails_seq _ fun w => fails_pure (words [v, w])]
  simp

theorem validates_item (metadata : Metadata) (i : Nat) :
    Validates (metadata.formatAsCmdListItem i) :=
  validates_bind (validates_validateStr _ _ _) fun _ _ =>
    validates_bind (validates_optional fun _ => validates_validateStr _ _ _) fun _ _ =>
      validates_ok _

theorem clean_item (metadata : Metadata) (i : Nat) :
    Clean (metadata.formatAsCmdListItem i) := by
  intro text h
  obtain ⟨entry, hentry, h⟩ := bind_ok h
  obtain ⟨value, hvalue, h⟩ := bind_ok h
  cases h
  have nil : SingleLine "NIL".toList := by decide
  have both : SingleLine entry ∧ SingleLine value :=
    ⟨clean_validateStr _ _ _ entry hentry,
      clean_optional (fun v => clean_validateStr _ _ v) nil value hvalue⟩
  simpa using both

end Checks

theorem fails_text (c : Command) :
    Fails c.text ↔ ∃ a ∈ c.checked, a.1.any a.2 = true := by
  cases c with
  | fetch set query | uidFetch set query =>
      simp only [Command.text, Command.checked]
      split <;> simp [validateSequenceSet, validateStrNoquote]
  | getMetadata mailbox entries depth maxsize =>
      have fails := fails_collectFrom (fun entry i => fails_validateStr "GETMETADATA".toList
        (numbered "entry#" i) entry) 0 entries
      rw [Command.text, fails_seq _ fun vs => (fails_line _ _).trans (by simp; rfl), fails]
      simp [Command.checked, or_and_right, exists_or]
  | setMetadata mbox annotations =>
      have fails := fails_collectFrom fails_item 0 annotations
      have parts (bad : Str → Prop) :
          (∃ s ∈ annotations.flatMap fun m => m.entry :: m.value.toList, bad s) ↔
            ∃ m ∈ annotations, bad m.entry ∨ ∃ v ∈ m.value, bad v := by
        simp only [List.mem_flatMap, List.mem_cons, Option.mem_toList]
        constructor
        · rintro ⟨s, ⟨m, hm, rfl | hs⟩, hbad⟩
          · exact ⟨m, hm, .inl hbad⟩
          · exact ⟨m, hm, .inr ⟨s, hs, hbad⟩⟩
        · rintro ⟨m, hm, hbad | ⟨v, hv, hbad⟩⟩
          · exact ⟨m.entry, ⟨m, hm, .inl rfl⟩, hbad⟩
          · exact ⟨v, ⟨m, hm, .inr hv⟩, hbad⟩
      rw [Command.text, fails_seq _ fun vs => (fails_line _ _).trans (by simp; rfl), fails,
        ← parts fun s => s.any isLineBreak = true]
      simp [Command.checked, or_and_right, exists_or]
  | _ => simp [Command.text, Command.checked]

theorem validates_text (c : Command) : Validates c.text := by
  cases c with
  | fetch set query | uidFetch set query =>
      simp only [Command.text]
      split
      · simp
      · exact validates_line (by simp [validateSequenceSet, validateStrNoquote])
  | getMetadata mailbox entries depth maxsize =>
      refine validates_bind (validates_collectFrom (fun _ _ => by simp) 0 entries) fun _ _ => ?_
      exact validates_line (by simp [validates_optional])
  | setMetadata mbox annotations =>
      refine validates_bind (validates_collectFrom validates_item 0 annotations) fun _ _ => ?_
      exact validates_line (by simp)
  | _ => exact validates_line (by simp)

theorem singleLine_text {c : Command} {text : Str} (h : c.text = .ok (some text)) :
    SingleLine text ↔ ∀ s ∈ c.raw, SingleLine s := by
  have space : SingleLine [' '] := by decide
  have empty : SingleLine ['"', '"'] := by decide
  cases c with
  | fetch set query | uidFetch set query =>
      simp only [Command.text] at h
      split at h
      · cases h
      · rw [singleLine_line (by decide) h]
        simp [Command.raw]
  | append mailbox flags date length =>
      rw [singleLine_line (by decide) h]
      cases date with
      | none => simp [Command.raw, SingleLine.iterJoin space]
      | some date => simp [Command.raw, SingleLine.iterJoin space, date.singleLine]
  | getMetadata mailbox entries depth maxsize =>
      obtain ⟨vs, hvs, h⟩ := bind_ok h
      have hclean := clean_collectFrom (fun _ _ => clean_validateStr _ _ _) hvs
      have hmailbox (synopsis argName : Str) :
          Clean (optional mailbox (validateStr synopsis argName) "\"\"") :=
        clean_optional (fun _ => clean_validateStr _ _ _) empty
      rw [singleLine_line (by decide) h]
      cases maxsize <;> simpa [Command.raw, hmailbox] using hclean
  | setMetadata mbox annotations =>
      obtain ⟨vs, hvs, h⟩ := bind_ok h
      have hclean := clean_collectFrom clean_item hvs
      rw [singleLine_line (by decide) h]
      simpa [Command.raw] using hclean
  | list reference pattern =>
      rw [singleLine_line (by decide) h]
      simp [Command.raw, SingleLine.getD empty, SingleLine.getD SingleLine.nil, or_imp,
        forall_and]
  | lsub reference pattern =>
      rw [singleLine_line (by decide) h]
      simp [Command.raw, SingleLine.getD SingleLine.nil, or_imp, forall_and]
  | listStatus reference pattern items =>
      rw [singleLine_line (by decide) h]
      simp [Command.raw, SingleLine.getD empty, or_imp, forall_and]
  | setQuota root limits =>
      rw [singleLine_line (by decide) h]
      simp [Command.raw, SingleLine.iterJoin space]
  | _ =>
      rw [singleLine_line (by decide) h]
      simp [Command.raw]

theorem raw_of_none {c : Command} (h : c.text = .ok none) : c.raw = [] := by
  have line_ne : ∀ cmd args, line cmd args ≠ .ok none := by
    intro cmd args hline
    obtain ⟨vs, -, hvs⟩ := bind_ok hline
    cases hvs
  cases c <;> first | exact absurd h (line_ne _ _) | rfl

/-- The operation is refused before anything is written, or what it writes is a line,
whose only line break is the `CRLF` that ends it, or the beginning of such a line. -/
def WritesOneLine (c : Command) : Prop :=
  ∀ (σ : Type) (peer : Peer σ) (conn : Connection σ),
    (∃ e, Connection.send peer c conn = (.error (.err (.validate e)), conn)) ∨
      ∃ line w : Bytes, CR ∉ line ∧ LF ∉ line ∧ w <+: line ++ [CR, LF] ∧
        (Connection.send peer c conn).2.total = conn.total ++ w

/-- A text with a line break takes more of these bytes than one line can hold. -/
theorem not_prefix_line {b : UInt8} (hb : b = CR ∨ b = LF) {text line : Bytes}
    (htext : b ∈ text) (hcr : CR ∉ line) (hlf : LF ∉ line) :
    ¬ text ++ [CR, LF] <+: line ++ [CR, LF] := by
  intro h
  have count := h.sublist.count_le b
  have one : 0 < text.count b := List.count_pos_iff.mpr htext
  have none : line.count b = 0 := by
    rcases hb with rfl | rfl
    · exact List.count_eq_zero_of_not_mem hcr
    · exact List.count_eq_zero_of_not_mem hlf
  simp only [List.count_append, none] at count
  omega

theorem not_singleLine {s : Str} (h : ¬ SingleLine s) :
    ∃ b, (b = CR ∨ b = LF) ∧ b ∈ utf8 s := by
  by_cases hcr : '\r' ∈ s
  · exact ⟨CR, .inl rfl, (CR_mem_utf8 s).mpr hcr⟩
  · have hlf : '\n' ∈ s := by simpa [SingleLine, hcr] using h
    exact ⟨LF, .inr rfl, (LF_mem_utf8 s).mpr hlf⟩

theorem singleLine_matchTag (tag : UInt32) : SingleLine (matchTag tag) := by
  simp [matchTag, TAG_PREFIX]

/-- A text with a line break goes out as it is. -/
theorem not_writesOneLine {c : Command} {text : Str} (htext : c.text = .ok (some text))
    (broken : ¬ SingleLine text) : ¬ WritesOneLine c := by
  intro h
  obtain ⟨b, hb, hmem⟩ := not_singleLine broken
  have reliable : (Connection.reading [] false).stream.Reliable := by
    simp [BufStream.Reliable, Connection.reading]
  obtain ⟨ok, -⟩ := Connection.runCommand_reliable Connection.silent reliable text
  obtain ⟨w, htotal, -, -, ⟨-, rfl, -⟩ | ⟨k, herr, -⟩⟩ :=
    Connection.runCommand_total Connection.silent text (Connection.reading [] false)
  · rcases h Unit Connection.silent (Connection.reading [] false) with
      ⟨e, he⟩ | ⟨line, w, hcr, hlf, hpre, htotal'⟩
    · rw [Connection.send_some _ htext, ok] at he
      cases he
    · rw [Connection.send_some _ htext, htotal] at htotal'
      rw [← List.append_cancel_left htotal', Connection.commandLine] at hpre
      refine not_prefix_line hb ?_ hcr hlf hpre
      rw [List.append_cons, utf8_append]
      exact List.mem_append_right _ hmem
  · rw [ok] at herr
    cases herr

/-- An operation keeps to one line exactly if one of the arguments it checks is bad or none
of those it does not check is. -/
theorem writesOneLine_iff (c : Command) :
    WritesOneLine c ↔
      (∃ a ∈ c.checked, a.1.any a.2 = true) ∨ ∀ s ∈ c.raw, SingleLine s := by
  rw [← fails_text]
  constructor
  · intro h
    by_contra hbad
    obtain ⟨hok, hraw⟩ := not_or.mp hbad
    obtain ⟨o, htext⟩ := not_fails.mp hok
    cases o with
    | none => exact hraw (by simp [raw_of_none htext])
    | some text =>
        exact not_writesOneLine htext (fun hs => hraw ((singleLine_text htext).mp hs)) h
  · intro h σ peer conn
    cases htext : c.text with
    | error e =>
        obtain ⟨v, rfl⟩ := validates_text c e htext
        exact .inl ⟨v, Connection.send_rejected htext conn⟩
    | ok o =>
        right
        cases o with
        | none =>
            refine ⟨[], [], by simp, by simp, List.nil_prefix, ?_⟩
            rw [Connection.send_none htext, List.append_nil]
        | some text =>
            have hraw : ∀ s ∈ c.raw, SingleLine s :=
              h.resolve_left (not_fails.mpr ⟨_, htext⟩)
            have hline : SingleLine (matchTag (conn.tag + 1) ++ ' ' :: text) := by
              simpa [singleLine_matchTag] using (singleLine_text htext).mpr hraw
            have hcr := mt (CR_mem_utf8 _).mp hline.1
            have hlf := mt (LF_mem_utf8 _).mp hline.2
            rw [Connection.send_some _ htext]
            obtain ⟨w, htotal, -, -, ⟨-, rfl, -⟩ | ⟨k, -, hpre, -⟩⟩ :=
              Connection.runCommand_total peer text conn
            · exact ⟨_, _, hcr, hlf, List.prefix_rfl, htotal⟩
            · exact ⟨_, w, hcr, hlf, hpre, htotal⟩

def smuggled : Command := .rename "a".toList "b\r\na2 LOGOUT".toList

/-- `rename` quotes its arguments but does not look for line breaks. -/
theorem writesOneLine_rename_fails : ¬ ∀ c, WritesOneLine c := by
  intro h
  have htext : smuggled.text = .ok (some "RENAME \"a\" \"b\r\na2 LOGOUT\"".toList) := by
    decide
  exact not_writesOneLine htext (by decide) (h smuggled)

end RustImap
