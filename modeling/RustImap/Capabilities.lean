import RustImap.ClientBuilder
import RustImap.LetterCase

/-!
Asking for a capability by its name.

The parser and `has_str` each sort names into three kinds. The letters that `IMAP4rev1` and
the prefix `AUTH=` are written with do not matter to either; the rest of a name is kept as it
was sent and compared letter by letter.
-/

namespace RustImap

open Str (EqIgnoreAsciiCase)

def IMAP4REV1_CAPABILITY : Str := "IMAP4rev1".toList

def AUTH_CAPABILITY_PREFIX : Str := "AUTH=".toList

namespace Capabilities

def has (capabilities : Finset Capability) (cap : Capability) : Bool :=
  decide (cap ∈ capabilities)

def hasStr (capabilities : Finset Capability) (s : Str) : Except Fault Bool :=
  if EqIgnoreAsciiCase s IMAP4REV1_CAPABILITY then .ok (has capabilities .imap4rev1)
  else if Str.len s > Str.len AUTH_CAPABILITY_PREFIX then
    match Str.splitAt (Str.len AUTH_CAPABILITY_PREFIX) s with
    | none => .error .panic
    | some (pre, val) =>
        if EqIgnoreAsciiCase pre AUTH_CAPABILITY_PREFIX then .ok (has capabilities (.auth val))
        else .ok (has capabilities (.atom s))
  else .ok (has capabilities (.atom s))

/-- `has_str` can cut the string behind the prefix if it has to. -/
def Splittable (s : Str) : Prop :=
  Str.len s ≤ Str.len AUTH_CAPABILITY_PREFIX ∨
    Str.isCharBoundary s (Str.len AUTH_CAPABILITY_PREFIX) = true

instance (s : Str) : Decidable (Splittable s) := inferInstanceAs (Decidable (_ ∨ _))

/-- `IMAP4rev1` is cut behind its fifth letter, however it is written. -/
theorem splittable_imap4rev1 {s : Str} (h : EqIgnoreAsciiCase s IMAP4REV1_CAPABILITY) :
    Splittable s := by
  have parts : EqIgnoreAsciiCase ("IMAP4".toList ++ "rev1".toList) s := h.symm
  obtain ⟨pre, post, heq, hpre, -⟩ := parts.of_append
  have hlen : Str.len pre = Str.len AUTH_CAPABILITY_PREFIX := hpre.len.symm.trans (by decide)
  exact .inr (Str.isCharBoundary_iff.mpr ⟨pre, post, heq, hlen⟩)

theorem hasStr_panics {s : Str} (h : ¬ Splittable s) (capabilities : Finset Capability) :
    hasStr capabilities s = .error .panic := by
  rw [Splittable, not_or, Nat.not_le] at h
  have hname : ¬ EqIgnoreAsciiCase s IMAP4REV1_CAPABILITY := fun hname =>
    (splittable_imap4rev1 hname).elim (Nat.not_le_of_lt h.1) h.2
  rw [hasStr, if_neg hname, if_pos h.1, Str.splitAt_eq_none.mpr h.2]

/-- The kinds of names: what a capability of this name is. -/
inductive Names : Str → Capability → Prop
  | imap4rev1 {s : Str} : EqIgnoreAsciiCase s IMAP4REV1_CAPABILITY → Names s .imap4rev1
  | auth {pre mechanism : Str} : EqIgnoreAsciiCase pre AUTH_CAPABILITY_PREFIX → mechanism ≠ [] →
      Names (pre ++ mechanism) (.auth mechanism)
  | atom {s : Str} : ¬ EqIgnoreAsciiCase s IMAP4REV1_CAPABILITY →
      (∀ pre mechanism, EqIgnoreAsciiCase pre AUTH_CAPABILITY_PREFIX → s = pre ++ mechanism →
        mechanism = []) → Names s (.atom s)

theorem exists_names (s : Str) : ∃ c, Names s c := by
  by_cases hname : EqIgnoreAsciiCase s IMAP4REV1_CAPABILITY
  · exact ⟨_, .imap4rev1 hname⟩
  by_cases hfree : ∃ pre mechanism, EqIgnoreAsciiCase pre AUTH_CAPABILITY_PREFIX ∧
      s = pre ++ mechanism ∧ mechanism ≠ []
  · obtain ⟨pre, mechanism, hpre, rfl, hne⟩ := hfree
    exact ⟨_, .auth hpre hne⟩
  · refine ⟨_, .atom hname fun pre mechanism hpre heq => ?_⟩
    by_contra hne
    exact hfree ⟨pre, mechanism, hpre, heq, hne⟩

/-- No spelling of the prefix begins a spelling of this name. -/
theorem auth_not_begins {pre mechanism name : Str}
    (hpre : EqIgnoreAsciiCase pre AUTH_CAPABILITY_PREFIX)
    (hname : ¬ EqIgnoreAsciiCase AUTH_CAPABILITY_PREFIX (name.take AUTH_CAPABILITY_PREFIX.length)) :
    ¬ EqIgnoreAsciiCase (pre ++ mechanism) name := by
  intro h
  obtain ⟨pre', mechanism', heq, hpre', -⟩ := h.of_append
  have hlen : pre'.length = AUTH_CAPABILITY_PREFIX.length :=
    hpre'.length.symm.trans hpre.length
  rw [heq, ← hlen, List.take_left] at hname
  exact hname (hpre.symm.trans hpre')

theorem auth_ne_imap4rev1 {pre : Str} (hpre : EqIgnoreAsciiCase pre AUTH_CAPABILITY_PREFIX)
    (mechanism : Str) : ¬ EqIgnoreAsciiCase (pre ++ mechanism) IMAP4REV1_CAPABILITY :=
  auth_not_begins hpre (by decide)

/-- `has_str` looks for the capability that the string names. -/
theorem hasStr_names {s : Str} {c : Capability} (h : Names s c) (hs : Splittable s)
    (capabilities : Finset Capability) : hasStr capabilities s = .ok (has capabilities c) := by
  cases h with
  | imap4rev1 hname => rw [hasStr, if_pos hname]
  | @auth pre mechanism hpre hne =>
      have hlong : Str.len (pre ++ mechanism) > Str.len AUTH_CAPABILITY_PREFIX := by
        have hpos : Str.len mechanism ≠ 0 := fun hzero => hne (Str.len_eq_zero hzero)
        rw [Str.len_append, hpre.len]
        omega
      have hsplit : Str.splitAt (Str.len AUTH_CAPABILITY_PREFIX) (pre ++ mechanism) =
          some (pre, mechanism) := Str.splitAt_eq_some.mpr ⟨rfl, hpre.len⟩
      rw [hasStr, if_neg (auth_ne_imap4rev1 hpre mechanism), if_pos hlong, hsplit]
      exact if_pos hpre
  | atom hname hfree =>
      rw [hasStr, if_neg hname]
      split
      · rename_i hlong
        have hboundary := hs.resolve_left (Nat.not_le_of_lt hlong)
        cases hsplit : Str.splitAt (Str.len AUTH_CAPABILITY_PREFIX) s with
        | none => exact absurd hboundary (Str.splitAt_eq_none.mp hsplit)
        | some parts =>
            obtain ⟨pre, val⟩ := parts
            have hparts := Str.splitAt_eq_some.mp hsplit
            have hpre : ¬ EqIgnoreAsciiCase pre AUTH_CAPABILITY_PREFIX := by
              intro hpre
              have hval := hfree pre val hpre hparts.1
              rw [hparts.1, hval, List.append_nil, hparts.2] at hlong
              exact Nat.lt_irrefl _ hlong
            exact if_neg hpre
      · rfl

/-- `has_str` returns, and cuts the string between two characters, exactly if the string is
short or has a boundary behind the length of the prefix. -/
theorem hasStr_returns (capabilities : Finset Capability) (s : Str) :
    (∃ b, hasStr capabilities s = .ok b) ↔
      Str.len s ≤ Str.len AUTH_CAPABILITY_PREFIX ∨
        Str.isCharBoundary s (Str.len AUTH_CAPABILITY_PREFIX) = true := by
  constructor
  · intro h
    obtain ⟨b, hb⟩ := h
    by_contra hs
    rw [hasStr_panics hs] at hb
    cases hb
  · intro hs
    obtain ⟨c, hc⟩ := exists_names s
    exact ⟨_, hasStr_names hc hs capabilities⟩

/-- The fifth byte of this string lies within its last character. -/
theorem hasStr_returns_fails :
    ¬ ∀ (capabilities : Finset Capability) (s : Str), ∃ b, hasStr capabilities s = .ok b := by
  intro h
  obtain ⟨b, hb⟩ := h ∅ "AUTHé".toList
  rw [hasStr_panics (by decide)] at hb
  cases hb

section LetterCase

/-- The part of a name that is kept as it was sent. -/
def kept : Capability → Str
  | .imap4rev1 => []
  | .auth mechanism => mechanism
  | .atom name => name

/-- The same capability but for the case of letters. -/
inductive Alike : Capability → Capability → Prop
  | imap4rev1 : Alike .imap4rev1 .imap4rev1
  | auth {a b : Str} : EqIgnoreAsciiCase a b → Alike (.auth a) (.auth b)
  | atom {a b : Str} : EqIgnoreAsciiCase a b → Alike (.atom a) (.atom b)

theorem Alike.kept {c d : Capability} (h : Alike c d) :
    EqIgnoreAsciiCase (kept c) (Capabilities.kept d) := by
  cases h with
  | imap4rev1 => exact .refl []
  | auth h | atom h => exact h

theorem Alike.eq {c d : Capability} (h : Alike c d) (hletter : Str.hasLetter (Capabilities.kept c) = false) :
    d = c := by
  cases h with
  | imap4rev1 => rfl
  | auth h => rw [h.eq_of_not_hasLetter hletter]
  | atom h => rw [h.eq_of_not_hasLetter hletter]

namespace Names

variable {s s' : Str} {c c' : Capability}

theorem of_imap4rev1 (h : Names s c) (hs : EqIgnoreAsciiCase s IMAP4REV1_CAPABILITY) :
    c = .imap4rev1 := by
  cases h with
  | imap4rev1 _ => rfl
  | auth hpre _ => exact absurd hs (auth_ne_imap4rev1 hpre _)
  | atom hname _ => exact absurd hs hname

theorem of_auth {pre mechanism : Str} (h : Names s c) (hs : s = pre ++ mechanism)
    (hpre : EqIgnoreAsciiCase pre AUTH_CAPABILITY_PREFIX) (hne : mechanism ≠ []) :
    c = .auth mechanism := by
  cases h with
  | imap4rev1 hname =>
      rw [hs] at hname
      exact absurd hname (auth_ne_imap4rev1 hpre mechanism)
  | auth hpre' _ =>
      have hlen := hpre'.length.trans hpre.length.symm
      rw [(List.append_inj hs hlen).2]
  | atom _ hfree => exact absurd (hfree pre mechanism hpre hs) hne

theorem unique (h : Names s c) (h' : Names s c') : c = c' := by
  cases h with
  | imap4rev1 hname => exact (h'.of_imap4rev1 hname).symm
  | auth hpre hne => exact (h'.of_auth rfl hpre hne).symm
  | atom hname hfree =>
      cases h' with
      | imap4rev1 hname' => exact absurd hname' hname
      | auth hpre hne => exact absurd (hfree _ _ hpre rfl) hne
      | atom _ _ => rfl

/-- A change of case changes nothing but the case of what is named. -/
theorem alike (h : Names s c) (h' : Names s' c') (hs : EqIgnoreAsciiCase s s') : Alike c c' := by
  cases h with
  | imap4rev1 hname =>
      rw [h'.of_imap4rev1 (hs.symm.trans hname)]
      exact .imap4rev1
  | auth hpre hne =>
      obtain ⟨pre', mechanism', hs', hpre', hmechanism⟩ := hs.of_append
      have hne' : mechanism' ≠ [] := by
        intro hnil
        have hlen := hmechanism.length
        rw [hnil] at hlen
        exact hne (List.eq_nil_of_length_eq_zero hlen)
      rw [h'.of_auth hs' (hpre'.symm.trans hpre) hne']
      exact .auth hmechanism
  | atom hname hfree =>
      cases h' with
      | imap4rev1 hname' => exact absurd (hs.trans hname') hname
      | auth hpre' hne' =>
          obtain ⟨pre, mechanism, hsplit, hpre, hmechanism⟩ := hs.symm.of_append
          have hnil := hfree pre mechanism (hpre.symm.trans hpre') hsplit
          have hlen := hmechanism.length
          rw [hnil] at hlen
          exact absurd (List.eq_nil_of_length_eq_zero hlen) hne'
      | atom _ _ => exact .atom hs

/-- Names of one capability differ in the case of letters only. -/
theorem same (h : Names s c) (h' : Names s' c) : EqIgnoreAsciiCase s s' := by
  cases h with
  | imap4rev1 hname =>
      cases h' with
      | imap4rev1 hname' => exact hname.trans hname'.symm
  | auth hpre hne =>
      cases h' with
      | auth hpre' hne' => exact (hpre.trans hpre'.symm).append (.refl _)
  | atom hname hfree =>
      cases h' with
      | atom hname' hfree' => exact .refl _

end Names

variable (recognise : Str → Capability)

/-- The capabilities of a response with these names. -/
def offered (names : List Str) : Finset Capability := (names.map recognise).toFinset

/-- The same names, perhaps in other letters. -/
def Respelled (names names' : List Str) : Prop := List.Forall₂ EqIgnoreAsciiCase names names'

theorem respelled_map (f : Char → Char) (hf : ∀ s : Str, EqIgnoreAsciiCase s (s.map f))
    (names : List Str) : Respelled names (names.map (List.map f)) := by
  induction names with
  | nil => exact .nil
  | cons n names ih => exact .cons (hf n) ih

theorem Respelled.exists_same {names names' : List Str} (h : Respelled names names') {s s' : Str}
    (hs : EqIgnoreAsciiCase s s') :
    (∃ n ∈ names', EqIgnoreAsciiCase n s') ↔ ∃ n ∈ names, EqIgnoreAsciiCase n s := by
  induction h with
  | nil => simp
  | @cons n n' names names' hn _ ih =>
      have first : EqIgnoreAsciiCase n' s' ↔ EqIgnoreAsciiCase n s :=
        ⟨fun h => hn.trans (h.trans hs.symm), fun h => hn.symm.trans (h.trans hs)⟩
      simp only [List.mem_cons, exists_eq_or_imp, ih, first]

variable {recognise}

theorem has_offered (h : ∀ s, Names s (recognise s)) {names : List Str} {c : Capability} :
    has (offered recognise names) c = true ↔ ∃ n ∈ names, Names n c := by
  simp only [has, offered, decide_eq_true_iff, List.mem_toFinset, List.mem_map]
  constructor
  · intro hmem
    obtain ⟨n, hn, heq⟩ := hmem
    exact ⟨n, hn, heq ▸ h n⟩
  · intro hmem
    obtain ⟨n, hn, hnames⟩ := hmem
    exact ⟨n, hn, (h n).unique hnames⟩

/-- The response of a server is parsed to the capabilities it offers. -/
theorem parseCapabilities_offered {parse : ParseResponse} {names : List Str} {lines : Bytes}
    (h : parse.Accepts lines (.capabilities (names.map recognise))) (q : Queue) :
    parseCapabilities parse lines q = (.ok (offered recognise names), q) := by
  rw [parseCapabilities, parseManyInto, parseManyInto2, forResponses_ok parse _ h]
  rfl

/-- What `upgrade_tls` does when it knows the capabilities. -/
def upgradeKnowing {σ τ : Type} (parse : ParseResponse)
    (handshake : Str → Transport σ → Except Error (Transport τ)) (builder : ClientBuilder)
    (server : Peer σ) (capabilities : Finset Capability) :
    Exec (Connection σ) Fault (Boxed σ τ × Bool) :=
  if has capabilities (.atom "STARTTLS".toList) then do
    Connection.runCommandAndCheckOk server parse "STARTTLS".toList
    let tcp ← Client.intoInner server
    let tls ← Exec.lift ((handshake builder.domain tcp).mapError .err)
    pure (tls.box .inr, true)
  else do
    let tcp ← Client.intoInner server
    pure (tcp.box .inl, false)

theorem upgradeTls_eq {σ τ : Type} (parse : ParseResponse)
    (handshake : Str → Transport σ → Except Error (Transport τ)) (builder : ClientBuilder)
    (server : Peer σ) :
    ClientBuilder.upgradeTls parse handshake builder server = (do
      let _ ← Connection.readGreeting
      let capabilities ← Client.capabilities server parse
      upgradeKnowing parse handshake builder server capabilities) := by
  simp only [ClientBuilder.upgradeTls, upgradeKnowing, has, decide_eq_true_iff]

/-- Neither the answer of `has_str` nor what `upgrade_tls` does depends on the case of the
letters in the query and in the names of the response. -/
structure IgnoresCase (recognise : Str → Capability) (names : List Str) (s : Str) : Prop where
  hasStr : ∀ names' s', Respelled names names' → EqIgnoreAsciiCase s s' →
    hasStr (offered recognise names') s' = Capabilities.hasStr (offered recognise names) s
  upgrade : ∀ names', Respelled names names' →
    ∀ (σ τ : Type) (parse : ParseResponse)
      (handshake : Str → Transport σ → Except Error (Transport τ)) (builder : ClientBuilder)
      (server : Peer σ),
      upgradeKnowing parse handshake builder server (offered recognise names') =
        upgradeKnowing parse handshake builder server (offered recognise names)

/-- The upgrade leaves a trace of its decision: a command takes a tag. -/
theorem upgradeKnowing_tag (capabilities : Finset Capability) :
    ((upgradeKnowing Connection.literalParse (fun _ _ => .error .tlsNotConfigured)
      ⟨[], 143, .startTls⟩ (fun _ _ => ((), [])) capabilities :
        Exec (Connection Unit) Fault (Boxed Unit Unit × Bool)) (Connection.reading [] false)).2.tag =
      if has capabilities (.atom "STARTTLS".toList) then 1 else 0 := by
  rw [upgradeKnowing]
  split
  · decide
  · decide

theorem IgnoresCase.has_startTls {names names' : List Str} {s : Str}
    (h : IgnoresCase recognise names s) (hnames : Respelled names names') :
    has (offered recognise names') (.atom "STARTTLS".toList) =
      has (offered recognise names) (.atom "STARTTLS".toList) := by
  have tag := upgradeKnowing_tag (offered recognise names')
  rw [h.upgrade names' hnames, upgradeKnowing_tag] at tag
  generalize has (offered recognise names) (.atom "STARTTLS".toList) = before at tag ⊢
  generalize has (offered recognise names') (.atom "STARTTLS".toList) = after at tag ⊢
  revert tag
  cases before <;> cases after <;> decide

theorem Splittable.respelled {s s' : Str} (h : Splittable s) (hs : EqIgnoreAsciiCase s s') :
    Splittable s' := by
  cases h with
  | inl hshort => exact .inl (hs.len ▸ hshort)
  | inr hboundary =>
      obtain ⟨pre, post, rfl, hlen⟩ := Str.isCharBoundary_iff.mp hboundary
      obtain ⟨pre', post', hs', hpre, -⟩ := hs.of_append
      exact .inr (Str.isCharBoundary_iff.mpr ⟨pre', post', hs', hpre.len.symm.trans hlen⟩)

/-- What a name in one kind of letters names is written in these letters. -/
theorem Names.kept_map {s : Str} {f : Char → Char} {c : Capability} (h : Names (s.map f) c) :
    ∃ k : Str, kept c = k.map f := by
  generalize hs : s.map f = s' at h
  cases h with
  | imap4rev1 _ => exact ⟨[], rfl⟩
  | auth _ _ =>
      obtain ⟨pre, k, -, -, hk⟩ := List.map_eq_append_iff.mp hs
      exact ⟨k, hk.symm⟩
  | atom _ _ => exact ⟨s, hs.symm⟩

/-- Capitals in the response do not match small letters in the query. -/
theorem Names.capitals_ne {s n : Str} {c d e : Capability} (hs : Names s c)
    (hletter : Str.hasLetter (kept c) = true) (hn : Names (Str.toAsciiUppercase n) d)
    (hlow : Names (Str.toAsciiLowercase s) e) : d ≠ e := by
  intro heq
  obtain ⟨k, hk⟩ := hn.kept_map
  obtain ⟨k', hk'⟩ := hlow.kept_map
  have hsame : EqIgnoreAsciiCase (kept c) k' := by
    have hkept := (hs.alike hlow (EqIgnoreAsciiCase.lowercase s).symm).kept
    rw [hk'] at hkept
    exact hkept.trans (.lowercase k')
  apply EqIgnoreAsciiCase.uppercase_ne (hsame.hasLetter_eq.symm.trans hletter) k
  rw [heq, hk'] at hk
  exact hk.symm

theorem names_startTls {n : Str} :
    Names n (.atom "STARTTLS".toList) ↔ n = "STARTTLS".toList := by
  constructor
  · intro h
    cases h
    rfl
  · intro h
    rw [h]
    refine .atom (by decide) fun pre mechanism hpre heq => ?_
    have hself : EqIgnoreAsciiCase (pre ++ mechanism) "STARTTLS".toList := heq ▸ .refl _
    exact absurd hself (auth_not_begins hpre (by decide))

/-- The query is cut within a character, or no name of the response is the query in other
letters, or the part of the query that is compared letter by letter has no letters. -/
def OneSpelling (names : List Str) (s : Str) : Prop :=
  ¬ Splittable s ∨ (∀ n ∈ names, ¬ EqIgnoreAsciiCase n s) ∨
    ∀ c, Names s c → Str.hasLetter (kept c) = false

/-- Without letters to compare, a name of the response is found whatever its case. -/
theorem exists_names_iff (h : ∀ s, Names s (recognise s)) {s : Str}
    (hletter : Str.hasLetter (kept (recognise s)) = false) (names : List Str) :
    (∃ n ∈ names, Names n (recognise s)) ↔ ∃ n ∈ names, EqIgnoreAsciiCase n s := by
  constructor
  · intro hex
    obtain ⟨n, hn, hnames⟩ := hex
    exact ⟨n, hn, hnames.same (h s)⟩
  · intro hex
    obtain ⟨n, hn, hsame⟩ := hex
    have heq := ((h s).alike (h n) hsame.symm).eq hletter
    exact ⟨n, hn, heq ▸ h n⟩

theorem OneSpelling.hasStr_eq (h : ∀ s, Names s (recognise s)) {names names' : List Str}
    {s s' : Str} (hone : OneSpelling names s) (hnames : Respelled names names')
    (hs : EqIgnoreAsciiCase s s') :
    hasStr (offered recognise names') s' = hasStr (offered recognise names) s := by
  by_cases hsplit : Splittable s
  · rw [hasStr_names (h s') (hsplit.respelled hs), hasStr_names (h s) hsplit]
    congr 1
    rw [Bool.eq_iff_iff, has_offered h, has_offered h]
    cases hone.resolve_left (not_not_intro hsplit) with
    | inl hnone =>
        have nothing : ¬ ∃ n ∈ names, EqIgnoreAsciiCase n s := by
          intro hex
          obtain ⟨n, hn, hsame⟩ := hex
          exact hnone n hn hsame
        refine iff_of_false (fun hex => nothing ?_) (fun hex => nothing ?_)
        · obtain ⟨n, hn, hname⟩ := hex
          exact (hnames.exists_same hs).mp ⟨n, hn, hname.same (h s')⟩
        · obtain ⟨n, hn, hname⟩ := hex
          exact ⟨n, hn, hname.same (h s)⟩
    | inr hletter =>
        have hkept := hletter _ (h s)
        have heq : recognise s' = recognise s := ((h s).alike (h s') hs).eq hkept
        have hkept' : Str.hasLetter (kept (recognise s')) = false := by rw [heq, hkept]
        rw [exists_names_iff h hkept, exists_names_iff h hkept', hnames.exists_same hs]
  · have hsplit' : ¬ Splittable s' := fun hsplit' => hsplit (hsplit'.respelled hs.symm)
    rw [hasStr_panics hsplit, hasStr_panics hsplit']

theorem respelled_uppercase (names : List Str) :
    Respelled names (names.map Str.toAsciiUppercase) :=
  respelled_map Char.toUpper (fun s => (EqIgnoreAsciiCase.uppercase s).symm) names

theorem respelled_lowercase (names : List Str) :
    Respelled names (names.map Str.toAsciiLowercase) :=
  respelled_map Char.toLower (fun s => (EqIgnoreAsciiCase.lowercase s).symm) names

theorem IgnoresCase.oneSpelling (h : ∀ s, Names s (recognise s)) {names : List Str} {s : Str}
    (hcase : IgnoresCase recognise names s) : OneSpelling names s := by
  by_contra hone
  simp only [OneSpelling, not_or, not_not, not_forall] at hone
  obtain ⟨hsplit, ⟨n, hn, hsame⟩, c, hc, hletter⟩ := hone
  have hupper : EqIgnoreAsciiCase s (Str.toAsciiUppercase s) := (EqIgnoreAsciiCase.uppercase s).symm
  have hlower : EqIgnoreAsciiCase s (Str.toAsciiLowercase s) := (EqIgnoreAsciiCase.lowercase s).symm
  -- with the names in capitals, the query in capitals is found and the one in small letters is not
  have answers := (hcase.hasStr _ _ (respelled_uppercase names) hupper).trans
    (hcase.hasStr _ _ (respelled_uppercase names) hlower).symm
  rw [hasStr_names (h _) (hsplit.respelled hupper), hasStr_names (h _) (hsplit.respelled hlower)]
    at answers
  have found : has (offered recognise (names.map Str.toAsciiUppercase))
      (recognise (Str.toAsciiUppercase s)) = true := by
    refine (has_offered h).mpr ⟨_, List.mem_map_of_mem hn, ?_⟩
    rw [hsame.toAsciiUppercase_eq]
    exact h _
  rw [Except.ok.inj answers, has_offered h] at found
  obtain ⟨n', hn', hname⟩ := found
  obtain ⟨n'', -, rfl⟩ := List.mem_map.mp hn'
  exact Names.capitals_ne hc (by simpa using hletter) hname (h _) rfl

theorem IgnoresCase.not_startTls (h : ∀ s, Names s (recognise s)) {names : List Str} {s : Str}
    (hcase : IgnoresCase recognise names s) :
    ∀ n ∈ names, ¬ EqIgnoreAsciiCase n "STARTTLS".toList := by
  intro n hn hsame
  have same := (hcase.has_startTls (respelled_uppercase names)).trans
    (hcase.has_startTls (respelled_lowercase names)).symm
  have found : has (offered recognise (names.map Str.toAsciiUppercase))
      (.atom "STARTTLS".toList) = true := by
    refine (has_offered h).mpr ⟨_, List.mem_map_of_mem hn, names_startTls.mpr ?_⟩
    rw [hsame.toAsciiUppercase_eq]
    decide
  rw [same, has_offered h] at found
  obtain ⟨n', hn', hname⟩ := found
  obtain ⟨n'', -, rfl⟩ := List.mem_map.mp hn'
  have heq := names_startTls.mp hname
  have hletter : Str.hasLetter n'' = true := by
    rw [← (EqIgnoreAsciiCase.lowercase n'').hasLetter_eq, heq]
    decide
  apply EqIgnoreAsciiCase.uppercase_ne hletter "STARTTLS".toList
  rw [heq]
  decide

/-- Letter case does not matter to a query and a response exactly if the query has one
spelling only among the names of the response, or none, and `STARTTLS` has none. -/
theorem ignoresCase_iff (h : ∀ s, Names s (recognise s)) (names : List Str) (s : Str) :
    IgnoresCase recognise names s ↔
      OneSpelling names s ∧ ∀ n ∈ names, ¬ EqIgnoreAsciiCase n "STARTTLS".toList := by
  constructor
  · exact fun hcase => ⟨hcase.oneSpelling h, hcase.not_startTls h⟩
  · intro hcond
    refine ⟨fun names' s' hnames hs => hcond.1.hasStr_eq h hnames hs, ?_⟩
    intro names' hnames σ τ parse handshake builder server
    have none_of : ∀ names'', Respelled names names'' →
        has (offered recognise names'') (.atom "STARTTLS".toList) = false := by
      intro names'' hnames''
      rw [Bool.eq_false_iff]
      intro found
      obtain ⟨n, hn, hname⟩ := (has_offered h).mp found
      have hex : ∃ n ∈ names'', EqIgnoreAsciiCase n "STARTTLS".toList :=
        ⟨n, hn, names_startTls.mp hname ▸ .refl _⟩
      obtain ⟨n', hn', hsame⟩ := (hnames''.exists_same (.refl _)).mp hex
      exact hcond.2 n' hn' hsame
    have hself : Respelled names names := List.forall₂_same.mpr fun n _ => .refl n
    rw [upgradeKnowing, upgradeKnowing, none_of names' hnames, none_of names hself]

/-- How a parser recognises a name. -/
def recognised (s : Str) : Capability :=
  if EqIgnoreAsciiCase s IMAP4REV1_CAPABILITY then .imap4rev1
  else
    match Str.splitAt (Str.len AUTH_CAPABILITY_PREFIX) s with
    | some (pre, val) =>
        if EqIgnoreAsciiCase pre AUTH_CAPABILITY_PREFIX ∧ val ≠ [] then .auth val else .atom s
    | none => .atom s

theorem names_recognised (s : Str) : Names s (recognised s) := by
  obtain ⟨c, hc⟩ := exists_names s
  have same : recognised s = c := by
    cases hc with
    | imap4rev1 hname => rw [recognised, if_pos hname]
    | @auth pre mechanism hpre hne =>
        have hsplit : Str.splitAt (Str.len AUTH_CAPABILITY_PREFIX) (pre ++ mechanism) =
            some (pre, mechanism) := Str.splitAt_eq_some.mpr ⟨rfl, hpre.len⟩
        rw [recognised, if_neg (auth_ne_imap4rev1 hpre mechanism), hsplit]
        exact if_pos ⟨hpre, hne⟩
    | atom hname hfree =>
        rw [recognised, if_neg hname]
        cases hsplit : Str.splitAt (Str.len AUTH_CAPABILITY_PREFIX) s with
        | none => rfl
        | some parts =>
            refine if_neg fun hauth => hauth.2 ?_
            exact hfree _ _ hauth.1 (Str.splitAt_eq_some.mp hsplit).1
  exact same ▸ hc

theorem ignoresCase_imap4rev1 :
    IgnoresCase recognised ["IMAP4REV1".toList, "IDLE".toList] "imap4rev1".toList := by
  refine (ignoresCase_iff names_recognised _ _).mpr ⟨.inr (.inr fun c hc => ?_), ?_⟩
  · rw [hc.of_imap4rev1 (by decide)]
    rfl
  · decide

/-- A server that offers `STARTTLS` is not found to offer `starttls`. -/
theorem ignoresCase_fails :
    ¬ ∀ (recognise : Str → Capability) (names : List Str) (s : Str),
      (∀ s, Names s (recognise s)) → IgnoresCase recognise names s := by
  intro h
  let names := ["IMAP4rev1".toList, "STARTTLS".toList]
  have hcase := h recognised names "STARTTLS".toList names_recognised
  have hself : Respelled names names := .cons (.refl _) (.cons (.refl _) .nil)
  have answers := hcase.hasStr _ "starttls".toList hself (by decide)
  have found : hasStr (offered recognised names) "STARTTLS".toList = .ok true := by decide
  have missed : hasStr (offered recognised names) "starttls".toList = .ok false := by decide
  rw [found, missed] at answers
  cases answers

end LetterCase

end Capabilities

end RustImap
