import RustImap.Quoting
import RustImap.Transcript

/-!
What a command line says.

A reader that knows the verbs and how their arguments are written gets the call back from its
line, if no bare argument holds a space. So the bytes of a session say which operations were
called, and with which arguments. `append` does not escape what it quotes, and some operations
write bare arguments in the middle of a line; these are left out.
-/

namespace RustImap

namespace Arguments

variable {γ : Type}

/-- The end of the line. -/
def ended (c : γ) (s : Str) : Option γ := if s = [] then some c else none

def spaced (next : Str → Option γ) : Str → Option γ
  | ' ' :: s => next s
  | _ => none

/-- A quoted argument. -/
def quoted (next : Str → Str → Option γ) (s : Str) : Option γ :=
  (Astring.read (fun _ => true) s).bind fun p => next p.1 p.2

/-- A bare argument, up to the next space. -/
def bare (next : Str → Str → Option γ) (s : Str) : Option γ :=
  next (s.takeWhile (· ≠ ' ')) (s.dropWhile (· ≠ ' '))

/-- A bare argument, up to the end of the line. -/
def last (f : Str → γ) (s : Str) : Option γ := some (f s)

theorem quoted_quote {m : Str} (h : SingleLine m) (next : Str → Str → Option γ) (t : Str) :
    quoted next (quote m ++ t) = next m t := by
  rw [quoted, read_quote h]
  rfl

theorem bare_append {w : Str} (h : ' ' ∉ w) (next : Str → Str → Option γ) (t : Str) :
    bare next (w ++ ' ' :: t) = next w (' ' :: t) := by
  have word : ∀ c ∈ w, decide (c ≠ ' ') = true := by
    intro c hc
    rw [decide_eq_true_iff]
    rintro rfl
    exact h hc
  rw [bare, List.takeWhile_append_of_pos word, List.dropWhile_append_of_pos word,
    List.takeWhile_cons_of_neg (by decide), List.dropWhile_cons_of_neg (by decide),
    List.append_nil]

theorem quoted_ended {m : Str} (h : SingleLine m) (f : Str → γ) :
    quoted (fun m => ended (f m)) (quote m) = some (f m) := by
  have whole := quoted_quote h (fun m => ended (f m)) []
  rw [List.append_nil] at whole
  exact whole

end Arguments

open Arguments

inductive Verb where
  | login
  | authenticate
  | starttls
  | capability
  | select
  | examine
  | fetch
  | uidFetch
  | noop
  | logout
  | create
  | delete
  | rename
  | subscribe
  | unsubscribe
  | expunge
  | uidExpunge
  | check
  | close
  | store
  | uidStore
  | copy
  | uidCopy
  | mv
  | uidMv
  | list
  | lsub
  | status
  | idle
  | search
  | uidSearch
  | deleteAcl
  | getAcl
  | listRights
  | myRights
  | getQuota
  | getQuotaRoot
  deriving DecidableEq

namespace Verb

/-- The verb, and the space behind it if there are arguments. -/
def key : Verb → Str
  | login => "LOGIN ".toList
  | authenticate => "AUTHENTICATE ".toList
  | starttls => "STARTTLS".toList
  | capability => "CAPABILITY".toList
  | select => "SELECT ".toList
  | examine => "EXAMINE ".toList
  | fetch => "FETCH ".toList
  | uidFetch => "UID FETCH ".toList
  | noop => "NOOP".toList
  | logout => "LOGOUT".toList
  | create => "CREATE ".toList
  | delete => "DELETE ".toList
  | rename => "RENAME ".toList
  | subscribe => "SUBSCRIBE ".toList
  | unsubscribe => "UNSUBSCRIBE ".toList
  | expunge => "EXPUNGE".toList
  | uidExpunge => "UID EXPUNGE ".toList
  | check => "CHECK".toList
  | close => "CLOSE".toList
  | store => "STORE ".toList
  | uidStore => "UID STORE ".toList
  | copy => "COPY ".toList
  | uidCopy => "UID COPY ".toList
  | mv => "MOVE ".toList
  | uidMv => "UID MOVE ".toList
  | list => "LIST ".toList
  | lsub => "LSUB ".toList
  | status => "STATUS ".toList
  | idle => "IDLE".toList
  | search => "SEARCH ".toList
  | uidSearch => "UID SEARCH ".toList
  | deleteAcl => "DELETEACL ".toList
  | getAcl => "GETACL ".toList
  | listRights => "LISTRIGHTS ".toList
  | myRights => "MYRIGHTS ".toList
  | getQuota => "GETQUOTA ".toList
  | getQuotaRoot => "GETQUOTAROOT ".toList

/-- How the arguments of the verb are read. -/
def read : Verb → Str → Option Command
  | login => quoted fun username => spaced (quoted fun password => ended (.login username password))
  | authenticate => last .authenticate
  | starttls => ended .starttls
  | capability => ended .capability
  | select => quoted fun m => ended (.select m)
  | examine => quoted fun m => ended (.examine m)
  | fetch => bare fun set => spaced (last (.fetch set))
  | uidFetch => bare fun set => spaced (last (.uidFetch set))
  | noop => ended .noop
  | logout => ended .logout
  | create => quoted fun m => ended (.create m)
  | delete => quoted fun m => ended (.delete m)
  | rename => quoted fun old => spaced (quoted fun new => ended (.rename old new))
  | subscribe => quoted fun m => ended (.subscribe m)
  | unsubscribe => quoted fun m => ended (.unsubscribe m)
  | expunge => ended .expunge
  | uidExpunge => last .uidExpunge
  | check => ended .check
  | close => ended .close
  | store => bare fun set => spaced (last (.store set))
  | uidStore => bare fun set => spaced (last (.uidStore set))
  | copy => bare fun set => spaced (last (.copy set))
  | uidCopy => bare fun set => spaced (last (.uidCopy set))
  | mv => bare fun set => spaced (quoted fun m => ended (.mv set m))
  | uidMv => bare fun set => spaced (quoted fun m => ended (.uidMv set m))
  | list => quoted fun ref => spaced (last fun pattern => .list (some ref) (some pattern))
  | lsub => quoted fun ref => spaced (last fun pattern => .lsub (some ref) (some pattern))
  | status => quoted fun m => spaced (last (.status m))
  | idle => ended .idle
  | search => last .search
  | uidSearch => last .uidSearch
  | deleteAcl => quoted fun m => spaced (quoted fun identifier => ended (.deleteAcl m identifier))
  | getAcl => quoted fun m => ended (.getAcl m)
  | listRights =>
      quoted fun m => spaced (quoted fun identifier => ended (.listRights m identifier))
  | myRights => quoted fun m => ended (.myRights m)
  | getQuota => quoted fun root => ended (.getQuota root)
  | getQuotaRoot => quoted fun m => ended (.getQuotaRoot m)

def all : List Verb :=
  [login, authenticate, starttls, capability, select, examine, fetch, uidFetch, noop, logout,
    create, delete, rename, subscribe, unsubscribe, expunge, uidExpunge, check, close, store,
    uidStore, copy, uidCopy, mv, uidMv, list, lsub, status, idle, search, uidSearch, deleteAcl,
    getAcl, listRights, myRights, getQuota, getQuotaRoot]

theorem mem_all (v : Verb) : v ∈ all := by
  cases v <;> decide

/-- No verb begins like another one. -/
theorem key_prefixFree : ∀ v ∈ all, ∀ w ∈ all, v.key <+: w.key → v = w := by
  decide +kernel

end Verb

/-- Find the verb, and read its arguments. -/
def readLine (s : Str) : Option Command :=
  (Verb.all.find? fun v => v.key.isPrefixOf s).bind fun v => v.read (s.drop v.key.length)

theorem readLine_key (v : Verb) (rest : Str) : readLine (v.key ++ rest) = v.read rest := by
  have found : (Verb.all.find? fun w => w.key.isPrefixOf (v.key ++ rest)) = some v := by
    cases hfind : Verb.all.find? fun w => w.key.isPrefixOf (v.key ++ rest) with
    | none =>
        have missed := List.find?_eq_none.mp hfind v v.mem_all
        exact absurd (List.isPrefixOf_iff_prefix.mpr (List.prefix_append v.key rest)) missed
    | some w =>
        have passed := List.find?_some hfind
        have hw : w.key <+: v.key ++ rest := List.isPrefixOf_iff_prefix.mp passed
        rcases List.prefix_or_prefix_of_prefix hw (List.prefix_append v.key rest) with h | h
        · rw [Verb.key_prefixFree w w.mem_all v v.mem_all h]
        · rw [Verb.key_prefixFree v v.mem_all w w.mem_all h]
  rw [readLine, found, Option.bind_some, List.drop_left]

/-- The line of a verb with arguments. -/
theorem readLine_words (v : Verb) {name : String} (hkey : v.key = name.toList ++ [' '])
    (w : Str) (ws : List Str) :
    readLine (words (name.toList :: w :: ws)) = v.read (words (w :: ws)) := by
  have line : words (name.toList :: w :: ws) = v.key ++ words (w :: ws) := by
    rw [words_cons _ (List.cons_ne_nil w ws), hkey, List.append_assoc]
    rfl
  rw [line, readLine_key]

section Lines

variable {name : String} {a b : Except Error Str} {m n w t text : Str}

/-- The quoted words of a single line are single lines. -/
theorem singleLine_quoted {ws : List Str} (h : SingleLine (words ws)) (hm : quote m ∈ ws) :
    SingleLine m :=
  (SingleLine.quote m).mp ((SingleLine.words ws).mp h _ hm)

theorem readLine_none (v : Verb) {c : Command} (hkey : v.key = name.toList)
    (hread : v.read = ended c) (h : line name [] = .ok (some text)) : readLine text = some c := by
  have plain := readLine_key v []
  rw [List.append_nil, hkey, hread] at plain
  rw [writes_line h .nil, words_singleton, plain]
  rfl

theorem readLine_last (v : Verb) {f : Str → Command} (hkey : v.key = name.toList ++ [' '])
    (hread : v.read = last f) (h : line name [.ok t] = .ok (some text)) :
    readLine text = some (f t) := by
  rw [writes_line h (.cons (writes_ok t) .nil), readLine_words v hkey, hread, words_singleton]
  rfl

theorem readLine_one (v : Verb) {f : Str → Command} (hkey : v.key = name.toList ++ [' '])
    (hread : v.read = quoted fun m => ended (f m)) (ha : Writes a (quote m))
    (h : line name [a] = .ok (some text)) (hline : SingleLine text) :
    readLine text = some (f m) := by
  obtain rfl := writes_line h (.cons ha .nil)
  have hm : SingleLine m := singleLine_quoted hline (by simp)
  rw [readLine_words v hkey, hread, words_singleton, quoted_ended hm]

theorem readLine_two (v : Verb) {f : Str → Str → Command}
    (hkey : v.key = name.toList ++ [' '])
    (hread : v.read = quoted fun m => spaced (quoted fun n => ended (f m n)))
    (ha : Writes a (quote m)) (hb : Writes b (quote n))
    (h : line name [a, b] = .ok (some text)) (hline : SingleLine text) :
    readLine text = some (f m n) := by
  obtain rfl := writes_line h (.cons ha (.cons hb .nil))
  have hm : SingleLine m := singleLine_quoted hline (by simp)
  have hn : SingleLine n := singleLine_quoted hline (by simp)
  rw [readLine_words v hkey, hread, words_pair, quoted_quote hm, spaced, quoted_ended hn]

theorem readLine_quotedLast (v : Verb) {f : Str → Str → Command}
    (hkey : v.key = name.toList ++ [' '])
    (hread : v.read = quoted fun m => spaced (last (f m))) (ha : Writes a (quote m))
    (h : line name [a, .ok t] = .ok (some text)) (hline : SingleLine text) :
    readLine text = some (f m t) := by
  obtain rfl := writes_line h (.cons ha (.cons (writes_ok t) .nil))
  have hm : SingleLine m := singleLine_quoted hline (by simp)
  rw [readLine_words v hkey, hread, words_pair, quoted_quote hm]
  rfl

theorem readLine_bareLast (v : Verb) {f : Str → Str → Command}
    (hkey : v.key = name.toList ++ [' '])
    (hread : v.read = bare fun w => spaced (last (f w))) (ha : Writes a w) (hb : Writes b t)
    (hw : ' ' ∉ w) (h : line name [a, b] = .ok (some text)) :
    readLine text = some (f w t) := by
  rw [writes_line h (.cons ha (.cons hb .nil)), readLine_words v hkey, hread, words_pair,
    bare_append hw]
  rfl

theorem readLine_bareQuoted (v : Verb) {f : Str → Str → Command}
    (hkey : v.key = name.toList ++ [' '])
    (hread : v.read = bare fun w => spaced (quoted fun m => ended (f w m)))
    (hb : Writes b (quote m)) (hw : ' ' ∉ w)
    (h : line name [.ok w, b] = .ok (some text)) (hline : SingleLine text) :
    readLine text = some (f w m) := by
  obtain rfl := writes_line h (.cons (writes_ok w) (.cons hb .nil))
  have hm : SingleLine m := singleLine_quoted hline (by simp)
  rw [readLine_words v hkey, hread, words_pair, bare_append hw, spaced, quoted_ended hm]

/-- A set that is accepted holds no space. -/
theorem line_noSpace {synopsis argName : Str}
    (h : line name [validateSequenceSet synopsis argName w, b] = .ok (some text)) : ' ' ∉ w := by
  intro hspace
  cases hset : validateSequenceSet synopsis argName w with
  | error e =>
      rw [hset] at h
      cases h
  | ok set =>
      have blank := (rejectChar_ok hset).2 _ hspace
      cases blank

theorem writes_validateSequenceSet (synopsis argName value : Str) :
    Writes (validateSequenceSet synopsis argName value) value :=
  fun _ h => (rejectChar_ok h).1

theorem writes_validateStrNoquote (synopsis argName value : Str) :
    Writes (validateStrNoquote synopsis argName value) value :=
  fun _ h => (rejectChar_ok h).1

end Lines

namespace Command

/-- No bare argument before the last holds a space. -/
def Separable : Command → Prop
  | .store set _ | .uidStore set _ | .copy set _ | .uidCopy set _ | .mv set _ | .uidMv set _ =>
      ' ' ∉ set
  | .append _ _ _ _ | .sort _ _ _ | .uidSort _ _ _ | .setAcl _ _ _ _ | .setQuota _ _
  | .listStatus _ _ _ | .getMetadata _ _ _ _ | .setMetadata _ _ => False
  | _ => True

/-- The call with its defaults filled in. -/
def filled : Command → Command
  | .list referenceName mailboxPattern =>
      .list (some (referenceName.getD [])) (some (mailboxPattern.getD "\"\"".toList))
  | .lsub referenceName mailboxPattern =>
      .lsub (some (referenceName.getD [])) (some (mailboxPattern.getD []))
  | c => c

/-- The line of a call gives the call back. -/
theorem readLine_text {c : Command} (hc : c.Separable) {text : Str}
    (h : c.text = .ok (some text)) (hline : SingleLine text) : readLine text = some c.filled := by
  cases c with
  | login => exact readLine_two .login rfl rfl (writes_arg _ _ _) (writes_arg _ _ _) h hline
  | authenticate => exact readLine_last .authenticate rfl rfl h
  | starttls => exact readLine_none .starttls rfl rfl h
  | capability => exact readLine_none .capability rfl rfl h
  | select => exact readLine_one .select rfl rfl (writes_arg _ _ _) h hline
  | examine => exact readLine_one .examine rfl rfl (writes_arg _ _ _) h hline
  | fetch sequenceSet query =>
      rw [Command.text] at h
      split at h
      · cases h
      · exact readLine_bareLast .fetch rfl rfl (writes_validateSequenceSet _ _ _)
          (writes_validateStrNoquote _ _ _) (line_noSpace h) h
  | uidFetch uidSet query =>
      rw [Command.text] at h
      split at h
      · cases h
      · exact readLine_bareLast .uidFetch rfl rfl (writes_validateSequenceSet _ _ _)
          (writes_validateStrNoquote _ _ _) (line_noSpace h) h
  | noop => exact readLine_none .noop rfl rfl h
  | logout => exact readLine_none .logout rfl rfl h
  | create => exact readLine_one .create rfl rfl (writes_arg _ _ _) h hline
  | delete => exact readLine_one .delete rfl rfl (writes_arg _ _ _) h hline
  | rename => exact readLine_two .rename rfl rfl (writes_ok _) (writes_ok _) h hline
  | subscribe => exact readLine_one .subscribe rfl rfl (writes_ok _) h hline
  | unsubscribe => exact readLine_one .unsubscribe rfl rfl (writes_ok _) h hline
  | expunge => exact readLine_none .expunge rfl rfl h
  | uidExpunge => exact readLine_last .uidExpunge rfl rfl h
  | check => exact readLine_none .check rfl rfl h
  | close => exact readLine_none .close rfl rfl h
  | store => exact readLine_bareLast .store rfl rfl (writes_ok _) (writes_ok _) hc h
  | uidStore => exact readLine_bareLast .uidStore rfl rfl (writes_ok _) (writes_ok _) hc h
  | copy => exact readLine_bareLast .copy rfl rfl (writes_ok _) (writes_ok _) hc h
  | uidCopy => exact readLine_bareLast .uidCopy rfl rfl (writes_ok _) (writes_ok _) hc h
  | mv => exact readLine_bareQuoted .mv rfl rfl (writes_arg _ _ _) hc h hline
  | uidMv => exact readLine_bareQuoted .uidMv rfl rfl (writes_arg _ _ _) hc h hline
  | list referenceName mailboxPattern =>
      exact readLine_quotedLast .list (f := fun ref pattern => .list (some ref) (some pattern)) rfl
        rfl (writes_ok _) h hline
  | lsub referenceName mailboxPattern =>
      exact readLine_quotedLast .lsub (f := fun ref pattern => .lsub (some ref) (some pattern)) rfl
        rfl (writes_ok _) h hline
  | status => exact readLine_quotedLast .status rfl rfl (writes_arg _ _ _) h hline
  | idle => exact readLine_none .idle rfl rfl h
  | search => exact readLine_last .search rfl rfl h
  | uidSearch => exact readLine_last .uidSearch rfl rfl h
  | deleteAcl => exact readLine_two .deleteAcl rfl rfl (writes_arg _ _ _) (writes_arg _ _ _) h hline
  | getAcl => exact readLine_one .getAcl rfl rfl (writes_arg _ _ _) h hline
  | listRights =>
      exact readLine_two .listRights rfl rfl (writes_arg _ _ _) (writes_arg _ _ _) h hline
  | myRights => exact readLine_one .myRights rfl rfl (writes_arg _ _ _) h hline
  | getQuota => exact readLine_one .getQuota rfl rfl (writes_arg _ _ _) h hline
  | getQuotaRoot => exact readLine_one .getQuotaRoot rfl rfl (writes_arg _ _ _) h hline
  | append | sort | uidSort | setAcl | setQuota | listStatus | getMetadata | setMetadata =>
      exact absurd hc id

/-- The line of the call can be read back. -/
def Legible (c : Command) : Prop := c.Separable ∧ ∀ text ∈ c.sent, SingleLine text

theorem mem_sent {c : Command} {text : Str} (h : text ∈ c.sent) : c.text = .ok (some text) := by
  unfold sent at h
  split at h
  · rename_i htext
    rw [htext, List.mem_singleton.mp h]
  · cases h

theorem readLine_sent {c : Command} (hc : c.Legible) {text : Str} (h : text ∈ c.sent) :
    readLine text = some c.filled :=
  readLine_text hc.1 (mem_sent h) (hc.2 text h)

/-- The calls that have come to a line. -/
def sentCalls (cs : List Command) : List Command :=
  cs.flatMap fun c => c.sent.map fun _ => c.filled

/-- Lines that can be read back are read back as the calls. -/
theorem map_readLine {cs : List Command} (hcs : ∀ c ∈ cs, c.Legible) :
    (cs.flatMap sent).map readLine = (sentCalls cs).map some := by
  induction cs with
  | nil => rfl
  | cons c cs ih =>
      obtain ⟨hc, hcs⟩ := List.forall_mem_cons.mp hcs
      have head : c.sent.map readLine = (c.sent.map fun _ => c.filled).map some := by
        rw [List.map_map]
        exact List.map_congr_left fun text h => readLine_sent hc h
      have split : sentCalls (c :: cs) = (c.sent.map fun _ => c.filled) ++ sentCalls cs := rfl
      rw [split, List.flatMap_cons, List.map_append, List.map_append, head, ih hcs]

/-- What has been sent says which calls were made. -/
theorem sentCalls_eq {cs ds : List Command} (hcs : ∀ c ∈ cs, c.Legible)
    (hds : ∀ d ∈ ds, d.Legible) {tag : UInt32}
    (h : (commandLines tag (cs.flatMap sent)).flatten =
      (commandLines tag (ds.flatMap sent)).flatten) : sentCalls cs = sentCalls ds := by
  have single {es : List Command} (hes : ∀ e ∈ es, e.Legible) :
      ∀ text ∈ es.flatMap sent, SingleLine text := by
    intro text htext
    obtain ⟨e, he, hsent⟩ := List.mem_flatMap.mp htext
    exact (hes e he).2 text hsent
  have texts := commandLines_inj (single hcs) (single hds) h
  have calls := congrArg (List.map readLine) texts
  rw [map_readLine hcs, map_readLine hds] at calls
  exact List.map_injective_iff.mpr (fun _ _ h => Option.some.inj h) calls

end Command

namespace Session

variable {σ ρ : Type} {peer : Peer σ} {parse : ParseResponse}

/-- A session and the calls made on it. -/
structure Recorded (σ : Type) where
  session : Session σ
  calls : List Command

namespace Recorded

/-- Run a computation and record these calls, whatever it comes to. -/
def recording {α : Type} (cs : List Command) (x : Exec (Session σ) Fault α) :
    Exec (Recorded σ) Fault α := fun r =>
  ((x r.session).1, ⟨(x r.session).2, r.calls ++ cs⟩)

/-- The calls that are recorded. -/
inductive Counterpart (peer : Peer σ) (parse : ParseResponse) :
    {α : Type} → Exec (Session σ) Fault α → Exec (Recorded σ) Fault α → Prop
  | execute {c : Command} {op : Exec (Session σ) Fault Value} :
      execute peer parse c = some op → c.Legible → Counterpart peer parse op (recording [c] op)
  | takeAllUnsolicited :
      Counterpart peer parse takeAllUnsolicited (recording [] takeAllUnsolicited)

/-- The session has sent the lines of the calls, and they can be read back. -/
structure Holds (start : Connection σ) (s : Session σ) (r : Recorded σ) : Prop where
  same : s = r.session
  sends : start.Sends s.conn (r.calls.flatMap Command.sent)
  legible : ∀ c ∈ r.calls, c.Legible

theorem Counterpart.simulates {start : Connection σ} {α : Type} {x : Exec (Session σ) Fault α}
    {y : Exec (Recorded σ) Fault α} (h : Counterpart peer parse x y) :
    Exec.Simulates (Holds start) Eq x y := by
  intro s r hr
  obtain ⟨rfl, hsends, hlegible⟩ := hr
  cases h with
  | @execute c op hop hc =>
      refine ⟨.refl _, rfl, ?_, ?_⟩
      · have conn := Completes.conn (.command hop) r.session
        rw [recording, conn, List.flatMap_append, List.flatMap_singleton]
        exact hsends.trans (Connection.command_sends hsends.ready c)
      · intro d hd
        rcases List.mem_append.mp hd with hd | hd
        · exact hlegible d hd
        · rw [List.mem_singleton.mp hd]
          exact hc
  | takeAllUnsolicited =>
      refine ⟨.refl _, rfl, ?_, ?_⟩
      · rw [recording, List.append_nil]
        exact hsends
      · rw [recording, List.append_nil]
        exact hlegible

/-- What a program has sent, with the lines read back. -/
theorem reads_back {α : Type} {x : Exec (Session σ) Fault α} {y : Exec (Recorded σ) Fault α}
    (h : Exec.Paired (Counterpart peer parse) caught x y) {s : Session σ} (hs : s.conn.Ready) :
    Holds s.conn (x s).2 (y ⟨s, []⟩).2 :=
  (h.simulates Counterpart.simulates s ⟨s, []⟩ ⟨rfl, .refl hs, nofun⟩).2

/-- The lines a program sends are read back as its calls, in order. Two programs that send the
same bytes have made the same calls, whatever servers they talk to. -/
theorem legible {peer' : Peer ρ} {parse' : ParseResponse} {α β : Type}
    {x : Exec (Session σ) Fault α} {x' : Exec (Session ρ) Fault β}
    (h : Exec.Program (fun x => ∃ y, Counterpart peer parse x y) caught x)
    (h' : Exec.Program (fun x => ∃ y, Counterpart peer' parse' x y) caught x') {s : Session σ}
    {s' : Session ρ} (hs : s.conn.Ready) (hs' : s'.conn.Ready)
    (htag : s.conn.tag = s'.conn.tag) :
    (∃ y, Exec.Paired (Counterpart peer parse) caught x y) ∧
    (∃ y', Exec.Paired (Counterpart peer' parse') caught x' y') ∧
    ∀ y y', Exec.Paired (Counterpart peer parse) caught x y →
      Exec.Paired (Counterpart peer' parse') caught x' y' →
      (∃ texts, (x s).2.conn.stream.inner.sent =
          s.conn.stream.inner.sent ++ (commandLines s.conn.tag texts).flatten ∧
        texts.map readLine = (Command.sentCalls (y ⟨s, []⟩).2.calls).map some) ∧
      ∀ w, (x s).2.conn.stream.inner.sent = s.conn.stream.inner.sent ++ w →
        (x' s').2.conn.stream.inner.sent = s'.conn.stream.inner.sent ++ w →
        Command.sentCalls (y ⟨s, []⟩).2.calls = Command.sentCalls (y' ⟨s', []⟩).2.calls := by
  refine ⟨h.exists_paired fun hop => hop, h'.exists_paired fun hop => hop, ?_⟩
  intro y y' hy hy'
  have mine := reads_back hy hs
  have theirs := reads_back hy' hs'
  refine ⟨⟨_, mine.sends.sent, Command.map_readLine mine.legible⟩, fun w hw hw' => ?_⟩
  have mineSent := List.append_cancel_left (hw.symm.trans mine.sends.sent)
  have theirsSent := List.append_cancel_left (hw'.symm.trans theirs.sends.sent)
  rw [← htag] at theirsSent
  exact Command.sentCalls_eq mine.legible theirs.legible (mineSent.symm.trans theirsSent)

def copying : Exec (Session Unit) Fault Value :=
  (fun _ => .unit) <$> copy expunging expungeParse "2:4".toList "Sent".toList

theorem copying_program :
    Exec.Program (fun x => ∃ y, Counterpart expunging expungeParse x y) caught copying := by
  refine .op ⟨_, .execute (c := .copy "2:4".toList "Sent".toList) rfl ⟨?_, ?_⟩⟩
  · exact show ' ' ∉ "2:4".toList by decide
  · decide

theorem takeTwice_recorded :
    Exec.Program (fun x => ∃ y, Counterpart expunging expungeParse x y) caught
      Logged.takeTwice := by
  have once : Exec.Program (fun x => ∃ y, Counterpart expunging expungeParse x y) caught
      Logged.noopAndTake :=
    .bind (.op ⟨_, .execute (c := .noop) rfl ⟨trivial, by decide⟩⟩)
      fun _ => .op ⟨_, .takeAllUnsolicited⟩
  exact .bind once fun _ => once

theorem legible_copying :
    (∃ y, Exec.Paired (Counterpart expunging expungeParse) caught copying y) ∧
    (∃ y', Exec.Paired (Counterpart expunging expungeParse) caught Logged.takeTwice y') ∧
    ∀ y y', Exec.Paired (Counterpart expunging expungeParse) caught copying y →
      Exec.Paired (Counterpart expunging expungeParse) caught Logged.takeTwice y' →
      (∃ texts, (copying opened).2.conn.stream.inner.sent =
          opened.conn.stream.inner.sent ++ (commandLines opened.conn.tag texts).flatten ∧
        texts.map readLine = (Command.sentCalls (y ⟨opened, []⟩).2.calls).map some) ∧
      ∀ w, (copying opened).2.conn.stream.inner.sent = opened.conn.stream.inner.sent ++ w →
        (Logged.takeTwice opened).2.conn.stream.inner.sent =
          opened.conn.stream.inner.sent ++ w →
        Command.sentCalls (y ⟨opened, []⟩).2.calls =
          Command.sentCalls (y' ⟨opened, []⟩).2.calls :=
  legible copying_program takeTwice_recorded Journaled.opened_ready Journaled.opened_ready rfl

end Recorded

end Session

end RustImap
