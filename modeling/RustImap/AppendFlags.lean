import RustImap.Append
import RustImap.MailboxName

/-!
The flags that `APPEND` sends.

`finish` leaves out `Flag::Recent`, for a server does not allow `\Recent` there. But a custom
flag may have the same text, and that one is sent.
-/

namespace RustImap

namespace AppendCmd

/-- `Session::append` -/
def new (mailbox : Str) (content : Bytes) : AppendCmd :=
  { content, mailbox, flags := [], date := none }

/-- What is called before `finish`. -/
inductive Call where
  | flag (flag : Flag)
  | flags (flags : List Flag)
  | internalDate (date : DateTime)

def call (cmd : AppendCmd) : Call → AppendCmd
  | .flag flag => { cmd with flags := cmd.flags ++ [flag] }
  | .flags flags => { cmd with flags := cmd.flags ++ flags }
  | .internalDate date => { cmd with date := some date }

/-- The flags that are given by a call. -/
def Call.given : Call → List Flag
  | .flag f => [f]
  | .flags fs => fs
  | .internalDate _ => []

def built (mailbox : Str) (content : Bytes) (calls : List Call) : AppendCmd :=
  calls.foldl call (new mailbox content)

theorem call_flags (cmd : AppendCmd) (c : Call) : (cmd.call c).flags = cmd.flags ++ c.given := by
  cases c with
  | flag f => rfl
  | flags fs => rfl
  | internalDate date => exact (List.append_nil _).symm

theorem foldl_call_flags (cmd : AppendCmd) (calls : List Call) :
    (calls.foldl call cmd).flags = cmd.flags ++ calls.flatMap Call.given := by
  induction calls generalizing cmd with
  | nil => simp
  | cons c calls ih => rw [List.foldl_cons, ih, call_flags, List.flatMap_cons, List.append_assoc]

theorem built_flags (mailbox : Str) (content : Bytes) (calls : List Call) :
    (built mailbox content calls).flags = calls.flatMap Call.given :=
  foldl_call_flags _ calls

variable (cmd : AppendCmd)

/-- The text of the command up to the list of flags. -/
def opening : Str := "APPEND".toList ++ [' ', '"'] ++ cmd.mailbox ++ ['"', ' ', '(']

/-- The list of flags as it is written, between its parentheses. -/
def list : Str := (cmd.text.drop cmd.opening.length).takeWhile (· ≠ ')')

/-- The texts that are joined. -/
def sent : List Str := (cmd.flags.filter (· ≠ .recent)).map Flag.text

theorem text_eq : cmd.text = cmd.opening ++ iterJoinOnto [] cmd.sent [' '] ++ ')' ::
    ((cmd.date.toList.map fun date => ' ' :: '"' :: date.text ++ ['"']).flatten ++
      [' ', '\x7b'] ++ decimal cmd.content.length ++ ['\x7d']) := by
  rw [text_words, iterJoinOnto_eq]
  unfold opening sent announcement
  generalize "APPEND".toList = verb
  rw [words_cons _ (List.cons_ne_nil _ _), words_cons _ (List.cons_ne_nil _ _),
    words_cons _ (List.cons_ne_nil _ _), words_singleton]
  simp only [parens, List.append_assoc, List.cons_append, List.nil_append]

variable {cmd}

theorem list_eq (h : ')' ∉ words cmd.sent) : cmd.list = words cmd.sent := by
  have joined : iterJoinOnto [] cmd.sent [' '] = words cmd.sent := by
    rw [iterJoinOnto_eq]
    rfl
  rw [list, text_eq, joined, List.append_assoc, List.drop_left, List.takeWhile_append_of_pos]
  · simp
  · intro c hc
    apply decide_eq_true
    rintro rfl
    exact h hc

/-- Neither a space nor a parenthesis nor a control character. -/
def isPlain (c : Char) : Bool := c ∉ [' ', '(', ')'] && !Astring.isControl c

/-- The text is not empty, and its characters are plain. -/
def Plain (f : Flag) : Prop := f.text ≠ [] ∧ f.text.all isPlain = true

instance (f : Flag) : Decidable (Plain f) := inferInstanceAs (Decidable (_ ∧ _))

theorem Plain.not_mem {f : Flag} (h : Plain f) {c : Char} (hc : isPlain c = false) :
    c ∉ f.text := by
  intro hmem
  rw [List.all_eq_true.mp h.2 c hmem] at hc
  cases hc

theorem Plain.isWord {f : Flag} (h : Plain f) : IsWord f.text :=
  ⟨h.1, h.not_mem (by decide)⟩

/-- A server that splits the list at its spaces finds the texts that were joined. -/
theorem atSpaces_list (h : ∀ f ∈ cmd.flags, Plain f) : atSpaces cmd.list = cmd.sent := by
  have sent_plain : ∀ w ∈ cmd.sent, IsWord w ∧ ')' ∉ w := by
    intro w hw
    obtain ⟨f, hf, rfl⟩ := List.mem_map.mp hw
    have plain := h f (List.mem_of_mem_filter hf)
    exact ⟨plain.isWord, plain.not_mem (by decide)⟩
  rw [list_eq (not_mem_words (by decide) fun w hw => (sent_plain w hw).2),
    atSpaces_words fun w hw => (sent_plain w hw).1]

def RECENT : Str := "\\Recent".toList

theorem text_eq_recent_iff (f : Flag) :
    f.text = RECENT ↔ f = .recent ∨ f = .custom RECENT := by
  cases f with
  | recent => exact iff_of_true (by rfl) (.inl rfl)
  | custom name =>
      constructor
      · intro h
        exact .inr (congrArg Flag.custom h)
      · intro h
        rcases h with h | h
        · cases h
        · exact Flag.custom.inj h
  | _ => exact iff_of_false (by decide) (by simp)

variable (cmd) in
/-- The list that is written has the texts of the flags that were given, without `\Recent`. -/
structure SendsPermitted (given : List Flag) : Prop where
  texts : atSpaces cmd.list = (given.map Flag.text).filter (· ≠ RECENT)
  recent : RECENT ∉ atSpaces cmd.list

theorem sent_eq_iff :
    cmd.sent = (cmd.flags.map Flag.text).filter (· ≠ RECENT) ↔ .custom RECENT ∉ cmd.flags := by
  constructor
  · intro heq hmem
    have among : RECENT ∈ cmd.sent :=
      List.mem_map.mpr ⟨.custom RECENT, List.mem_filter.mpr ⟨hmem, by decide⟩, rfl⟩
    rw [heq] at among
    simpa using (List.mem_filter.mp among).2
  · intro hnone
    rw [sent, List.filter_map]
    apply congrArg (List.map Flag.text)
    apply List.filter_congr
    intro f hf
    have same : f = .recent ↔ f.text = RECENT := by
      rw [text_eq_recent_iff]
      refine ⟨.inl, fun h => h.resolve_right ?_⟩
      rintro rfl
      exact hnone hf
    simp [same]

/-- Only what is permitted is sent exactly if no custom flag is `\Recent`. -/
theorem built_sendsPermitted_iff (mailbox : Str) (content : Bytes) {calls : List Call}
    (h : ∀ f ∈ calls.flatMap Call.given, Plain f) :
    (built mailbox content calls).SendsPermitted (calls.flatMap Call.given) ↔
      .custom RECENT ∉ calls.flatMap Call.given := by
  rw [← built_flags mailbox content] at h ⊢
  have split := atSpaces_list h
  constructor
  · intro permitted
    exact sent_eq_iff.mp (split.symm.trans permitted.texts)
  · intro hnone
    have texts := split.trans (sent_eq_iff.mpr hnone)
    refine ⟨texts, ?_⟩
    rw [texts]
    simp

/-- `\Seen` and `\Recent`, as the flags they are. -/
theorem built_sendsPermitted_seen :
    (built "INBOX".toList [] [.flag .seen, .flags [.recent]]).SendsPermitted
        ([.flag .seen, .flags [.recent]].flatMap Call.given) ↔
      .custom RECENT ∉ [.flag .seen, .flags [.recent]].flatMap Call.given := by
  apply built_sendsPermitted_iff
  decide

/-- A custom flag makes `APPEND` send `\Recent`. -/
theorem built_sendsPermitted_fails :
    ¬ ∀ (mailbox : Str) (content : Bytes) (calls : List Call),
      (∀ f ∈ calls.flatMap Call.given, Plain f) →
      (built mailbox content calls).SendsPermitted (calls.flatMap Call.given) := by
  intro holds
  have permitted := holds "INBOX".toList [] [.flag (.custom RECENT)] (by decide)
  exact permitted.recent (by decide)

end AppendCmd

end RustImap
