import RustImap.Astring
import RustImap.Injection
import RustImap.Words

/-!
What becomes of a mailbox name on the way to the server.

Most operations put the name between quotes and escape it, `append` puts it between quotes
as it is, and `copy` and `uid_copy` write it bare. A server that reads the argument back
gets the name exactly if its characters suit the way it was written.
-/

namespace RustImap

open Astring (isQuotedSpecial isQuotedChar isAstringChar escape)

/-- A mailbox name among the arguments of an operation: the words of the line before it and
those after it. -/
structure MailboxArg where
  before : List Str
  name : Str
  after : List Str

/-- How an operation writes a mailbox name. -/
inductive Spelling where
  | quoted
  | unescaped
  | bare

def Spelling.write : Spelling → Str → Str
  | .quoted, m => quote m
  | .unescaped, m => '"' :: m ++ ['"']
  | .bare, m => m

/-- An item of `SETMETADATA`. -/
def Metadata.item (metadata : Metadata) : Str :=
  words [quote metadata.entry, (metadata.value.map quote).getD "NIL".toList]

def Command.spelling : Command → Spelling
  | .append _ _ _ _ => .unescaped
  | .copy _ _ | .uidCopy _ _ => .bare
  | _ => .quoted

/-- The mailbox names on the line of a command. -/
def Command.mailboxes : Command → List MailboxArg
  | .select m => [⟨["SELECT".toList], m, []⟩]
  | .examine m => [⟨["EXAMINE".toList], m, []⟩]
  | .create m => [⟨["CREATE".toList], m, []⟩]
  | .delete m => [⟨["DELETE".toList], m, []⟩]
  | .rename old new =>
      [⟨["RENAME".toList], old, [quote new]⟩, ⟨["RENAME".toList, quote old], new, []⟩]
  | .subscribe m => [⟨["SUBSCRIBE".toList], m, []⟩]
  | .unsubscribe m => [⟨["UNSUBSCRIBE".toList], m, []⟩]
  | .status m dataItems => [⟨["STATUS".toList], m, [dataItems]⟩]
  | .copy set m => [⟨["COPY".toList, set], m, []⟩]
  | .uidCopy set m => [⟨["UID COPY".toList, set], m, []⟩]
  | .mv set m => [⟨["MOVE".toList, set], m, []⟩]
  | .uidMv set m => [⟨["UID MOVE".toList, set], m, []⟩]
  | .append m flags date length =>
      let flagstr := iterJoin ((flags.filter (· ≠ .recent)).map Flag.text) [' ']
      let datestr := (date.toList.map fun date => ' ' :: '"' :: date.text ++ ['"']).flatten
      [⟨["APPEND".toList], m,
        [parens flagstr ++ datestr, '\x7b' :: decimal length ++ ['\x7d']]⟩]
  | .setAcl m identifier rights modification =>
      [⟨["SETACL".toList], m, [quote identifier, modification.text ++ rights.text]⟩]
  | .deleteAcl m identifier => [⟨["DELETEACL".toList], m, [quote identifier]⟩]
  | .getAcl m => [⟨["GETACL".toList], m, []⟩]
  | .listRights m identifier => [⟨["LISTRIGHTS".toList], m, [quote identifier]⟩]
  | .myRights m => [⟨["MYRIGHTS".toList], m, []⟩]
  | .getQuotaRoot m => [⟨["GETQUOTAROOT".toList], m, []⟩]
  | .getMetadata (some m) entries depth maxsize =>
      let maxsize := (maxsize.toList.map fun size => ["MAXSIZE".toList, decimal size]).flatten
      [⟨["GETMETADATA".toList, parens (words ("DEPTH".toList :: depth.text :: maxsize))], m,
        [parens (words (entries.map quote))]⟩]
  | .setMetadata m annotations =>
      [⟨["SETMETADATA".toList], m, [parens (words (annotations.map Metadata.item))]⟩]
  | _ => []

namespace MailboxArg

/-- The line behind the argument. -/
def rest (a : MailboxArg) : Str := (a.after.flatMap fun word => ' ' :: word) ++ ['\r', '\n']

/-- The argument of the line is read back as the name, and reading it ends where the next
argument or the end of the line begins. -/
def Survives (known : Char → Bool) (a : MailboxArg) (text : Str) : Prop :=
  ∃ argument, text = words (a.before ++ argument :: a.after) ∧
    Astring.read known (argument ++ a.rest) = some (a.name, a.rest)

end MailboxArg

/-- The characters suit the way they are written. -/
def Spelling.Suits (known : Char → Bool) : Spelling → Str → Prop
  | .quoted, m => ∀ c ∈ m, isQuotedSpecial c = true ∨ isQuotedChar known c = true
  | .unescaped, m => ∀ c ∈ m, isQuotedChar known c = true
  | .bare, m => m ≠ [] ∧ ∀ c ∈ m, isAstringChar known c = true

section Line

/-- If there is an argument, it is this one. -/
def Writes (a : Except Error Str) (v : Str) : Prop := ∀ w, a = .ok w → w = v

theorem writes_ok (v : Str) : Writes (.ok v) v := by
  rintro w ⟨⟩
  rfl

theorem writes_validateStr (synopsis argName value : Str) :
    Writes (validateStr synopsis argName value) (quote value) := by
  intro w hw
  unfold validateStr validateStrNoquote at hw
  cases hn : rejectChar isLineBreak synopsis argName value with
  | error e => simp [hn] at hw
  | ok v =>
      obtain ⟨rfl, -⟩ := rejectChar_ok hn
      rw [hn] at hw
      cases hw
      rfl

theorem writes_arg (cmd argName : String) (value : Str) :
    Writes (arg cmd argName value) (quote value) :=
  writes_validateStr _ _ _

theorem writes_line {cmd : String} {args : List (Except Error Str)} {text : Str} {vs : List Str}
    (h : line cmd args = .ok (some text)) (hvs : List.Forall₂ Writes args vs) :
    text = words (cmd.toList :: vs) := by
  unfold line at h
  cases hargs : args.mapM id with
  | error e => simp [hargs, bind, Except.bind] at h
  | ok ws =>
      simp only [hargs, bind, Except.bind, pure, Except.pure, Except.ok.injEq,
        Option.some.injEq] at h
      rw [mapM_id_ok hargs, List.forall₂_map_left_iff] at hvs
      have same : ws = vs := List.forall₂_eq_eq_eq ▸ hvs.imp fun w v h => h w rfl
      rw [← h, same]

theorem writes_collectFrom {α : Type} {f : α → Nat → Except Error Str} {g : α → Str}
    (h : ∀ a i, Writes (f a i) (g a)) {i : Nat} {as : List α} {vs : List Str}
    (hvs : collectFrom f i as = .ok vs) : vs = as.map g := by
  induction as generalizing i vs with
  | nil =>
      cases hvs
      rfl
  | cons a as ih =>
      obtain ⟨v, hv, hvs⟩ := bind_ok hvs
      obtain ⟨ws, hws, hvs⟩ := bind_ok hvs
      cases hvs
      rw [h a i v hv, ih hws, List.map_cons]

theorem writes_item (metadata : Metadata) (i : Nat) :
    Writes (metadata.formatAsCmdListItem i) metadata.item := by
  intro w hw
  obtain ⟨entry, hentry, hw⟩ := bind_ok hw
  obtain ⟨value, hvalue, hw⟩ := bind_ok hw
  cases hw
  rw [writes_validateStr _ _ _ _ hentry, Metadata.item]
  cases hm : metadata.value with
  | none =>
      rw [hm] at hvalue
      cases hvalue
      rfl
  | some v =>
      rw [hm] at hvalue
      rw [writes_validateStr _ _ _ _ hvalue]
      rfl

/-- Where the name stands on the line, and how. -/
theorem Command.text_mailbox {c : Command} {text : Str} (h : c.text = .ok (some text))
    {a : MailboxArg} (ha : a ∈ c.mailboxes) :
    text = words (a.before ++ c.spelling.write a.name :: a.after) := by
  cases c with
  | select | examine | create | delete | getAcl | myRights | getQuotaRoot =>
      obtain rfl := List.mem_singleton.mp ha
      exact writes_line h (.cons (writes_arg _ _ _) .nil)
  | subscribe | unsubscribe =>
      obtain rfl := List.mem_singleton.mp ha
      exact writes_line h (.cons (writes_ok _) .nil)
  | rename old new =>
      have hline := writes_line h (.cons (writes_ok _) (.cons (writes_ok _) .nil))
      rcases List.mem_cons.mp ha with rfl | ha
      · exact hline
      · obtain rfl := List.mem_singleton.mp ha
        exact hline
  | status =>
      obtain rfl := List.mem_singleton.mp ha
      exact writes_line h (.cons (writes_arg _ _ _) (.cons (writes_ok _) .nil))
  | copy | uidCopy =>
      obtain rfl := List.mem_singleton.mp ha
      exact writes_line h (.cons (writes_ok _) (.cons (writes_ok _) .nil))
  | mv | uidMv =>
      obtain rfl := List.mem_singleton.mp ha
      exact writes_line h (.cons (writes_ok _) (.cons (writes_arg _ _ _) .nil))
  | append =>
      obtain rfl := List.mem_singleton.mp ha
      exact writes_line h (.cons (writes_ok _) (.cons (writes_ok _) (.cons (writes_ok _) .nil)))
  | setAcl =>
      obtain rfl := List.mem_singleton.mp ha
      exact writes_line h (.cons (writes_arg _ _ _) (.cons (writes_arg _ _ _)
        (.cons (writes_ok _) .nil)))
  | deleteAcl | listRights =>
      obtain rfl := List.mem_singleton.mp ha
      exact writes_line h (.cons (writes_arg _ _ _) (.cons (writes_arg _ _ _) .nil))
  | getMetadata mailbox entries depth maxsize =>
      cases mailbox with
      | none => cases ha
      | some m =>
          obtain rfl := List.mem_singleton.mp ha
          obtain ⟨vs, hvs, h⟩ := bind_ok h
          obtain rfl := writes_collectFrom (g := quote)
            (fun entry i => writes_validateStr _ (numbered "entry#" i) entry) hvs
          exact writes_line h (.cons (writes_ok _) (.cons (writes_validateStr _ _ _)
            (.cons (writes_ok _) .nil)))
  | setMetadata m annotations =>
      obtain rfl := List.mem_singleton.mp ha
      obtain ⟨vs, hvs, h⟩ := bind_ok h
      obtain rfl := writes_collectFrom writes_item hvs
      exact writes_line h (.cons (writes_arg _ _ _) (.cons (writes_ok _) .nil))
  | _ => cases ha

end Line

theorem quote_eq (x : Str) : quote x = '"' :: x.flatMap escape ++ ['"'] := by
  have same : (x.flatMap fun c => if c = '\\' then ['\\', '\\'] else [c]).flatMap
      (fun c => if c = '"' then ['\\', '"'] else [c]) = x.flatMap escape := by
    rw [List.flatMap_assoc]
    refine congrArg (fun f => List.flatMap f x) ?_
    funext c
    by_cases hbackslash : c = '\\'
    · subst hbackslash
      rfl
    · by_cases hquote : c = '"'
      · subst hquote
        rfl
      · simp [escape, isQuotedSpecial, hbackslash, hquote]
  rw [quote, same]

/-- One argument among the words of a line. -/
theorem words_inj {before after : List Str} {x y : Str}
    (h : words (before ++ x :: after) = words (before ++ y :: after)) : x = y := by
  induction before with
  | nil =>
      cases after with
      | nil => simpa [words, iterJoin] using h
      | cons w after => simpa [words, iterJoin] using h
  | cons w before ih =>
      rw [List.cons_append, List.cons_append, words_cons _ (by simp), words_cons _ (by simp)] at h
      exact ih (List.cons.inj (List.append_cancel_left h)).2

/-- A name is read back exactly if it suits the way it is written. -/
theorem Spelling.read_write {known : Char → Bool} (spelling : Spelling) (a : MailboxArg)
    (hend : spelling = .bare → a.after = []) :
    Astring.read known (spelling.write a.name ++ a.rest) = some (a.name, a.rest) ↔
      spelling.Suits known a.name := by
  cases spelling with
  | quoted =>
      rw [Spelling.write, quote_eq, List.append_assoc]
      exact Astring.readQuoted_escape a.name a.rest
  | unescaped =>
      rw [Spelling.write, List.cons_append, List.cons_append, List.append_assoc]
      exact Astring.readQuoted_bare a.name a.rest
  | bare =>
      have hrest : a.rest = '\r' :: ['\n'] := by rw [MailboxArg.rest, hend rfl]; rfl
      rw [hrest]
      exact Astring.read_raw a.name ['\n'] (by simp [isAstringChar, Astring.isControl]) (by decide)

theorem Command.after_bare {c : Command} (h : c.spelling = .bare) {a : MailboxArg}
    (ha : a ∈ c.mailboxes) : a.after = [] := by
  cases c with
  | copy | uidCopy =>
      obtain rfl := List.mem_singleton.mp ha
      rfl
  | _ => cases h

theorem Command.survives_iff (known : Char → Bool) {c : Command} {text : Str}
    (h : c.text = .ok (some text)) {a : MailboxArg} (ha : a ∈ c.mailboxes) :
    a.Survives known text ↔ c.spelling.Suits known a.name := by
  have htext := c.text_mailbox h ha
  rw [← c.spelling.read_write a fun hbare => c.after_bare hbare ha]
  constructor
  · rintro ⟨argument, hline, hread⟩
    obtain rfl := words_inj (htext.symm.trans hline)
    exact hread
  · exact fun hread => ⟨_, htext, hread⟩

/-- The line an operation has written gives the mailbox name back exactly if its characters
suit the way it is written: a server that takes any character gets every name that is
escaped, a name in bare quotes if it has neither quotes nor backslashes, and a name without
quotes if it is an atom. -/
theorem mailbox_survives {σ : Type} {peer : Peer σ} (known : Char → Bool) {c : Command}
    {conn conn' : Connection σ} (hsend : Connection.send peer c conn = (.ok true, conn'))
    {a : MailboxArg} (ha : a ∈ c.mailboxes) :
    ∃ text, conn'.total = conn.total ++ conn.commandLine text ∧
      (a.Survives known text ↔ c.spelling.Suits known a.name) := by
  cases htext : c.text with
  | error e =>
      rw [Connection.send_rejected htext] at hsend
      cases hsend
  | ok o =>
      cases o with
      | none =>
          rw [Connection.send_none htext] at hsend
          cases hsend
      | some text =>
          rw [Connection.send_some _ htext] at hsend
          obtain ⟨hok, rfl⟩ := Prod.mk.inj hsend
          obtain ⟨w, htotal, -, -, ⟨-, rfl, -⟩ | ⟨k, herr, -⟩⟩ :=
            Connection.runCommand_total peer text conn
          · exact ⟨text, htotal, c.survives_iff known htext ha⟩
          · rw [herr] at hok
            cases hok

theorem mailbox_survives_create :
    ∃ text, (Connection.send Connection.silent (.create "a \"b\"".toList)
        (Connection.reading [] false)).2.total =
          (Connection.reading [] false).total ++ (Connection.reading [] false).commandLine text ∧
      MailboxArg.Survives (fun _ => true) ⟨["CREATE".toList], "a \"b\"".toList, []⟩ text := by
  have reliable : (Connection.reading [] false).stream.Reliable := by
    simp [BufStream.Reliable, Connection.reading]
  have htext : (Command.create "a \"b\"".toList).text =
      .ok (some "CREATE \"a \\\"b\\\"\"".toList) := by decide
  have hok : (Connection.send Connection.silent (.create "a \"b\"".toList)
      (Connection.reading [] false)).1 = .ok true := by
    rw [Connection.send_some _ htext, (Connection.runCommand_reliable _ reliable _).1]
    rfl
  obtain ⟨text, htotal, hsurvives⟩ :=
    mailbox_survives (fun _ => true) (Prod.ext hok rfl) List.mem_cons_self
  have suits : ("a \"b\"".toList.all fun c =>
      decide (isQuotedSpecial c = true ∨ isQuotedChar (fun _ => true) c = true)) = true := by
    decide
  exact ⟨text, htotal,
    hsurvives.mpr fun c hc => of_decide_eq_true (List.all_eq_true.mp suits c hc)⟩

/-- A name with a space is no argument of `copy`, whatever characters the server takes. -/
theorem mailbox_survives_fails :
    ¬ ∃ known : Char → Bool, ∀ (c : Command) (text : Str) (a : MailboxArg),
      c.text = .ok (some text) → a ∈ c.mailboxes → SingleLine a.name → a.Survives known text := by
  rintro ⟨known, holds⟩
  have htext : (Command.copy "2:4".toList "my box".toList).text =
      .ok (some "COPY 2:4 my box".toList) := by decide
  have survives := holds _ _ _ htext List.mem_cons_self (by decide)
  obtain ⟨-, hall⟩ := (Command.survives_iff known htext List.mem_cons_self).mp survives
  have space := hall ' ' (by decide)
  simp [isAstringChar] at space

end RustImap
