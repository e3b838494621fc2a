import RustImap.SelectAnswer

/-!
The answer to a `SELECT` in any order.

Each response of such an answer concerns at most one field of the mailbox. If no field is
reported twice the mailbox holds the reported values, wherever they are reported.
-/

namespace RustImap

section Kinds

/-- The value a `FLAGS` response gives to the flags of the mailbox. -/
def flagsIn : Response → Option (List Flag)
  | .mailboxData (.flags flags) => some (Flag.fromStrs flags)
  | _ => none

def existsIn : Response → Option UInt32
  | .mailboxData (.exists_ e) => some e
  | _ => none

def recentIn : Response → Option UInt32
  | .mailboxData (.recent n) => some n
  | _ => none

def unseenIn : Response → Option (Option UInt32)
  | .data .ok (some (.unseen n)) _ => some (some n)
  | _ => none

def permanentFlagsIn : Response → Option (List Flag)
  | .data .ok (some (.permanentFlags flags)) _ => some (Flag.fromStrs flags)
  | _ => none

def uidNextIn : Response → Option (Option UInt32)
  | .data .ok (some (.uidNext unext)) _ => some (some unext)
  | _ => none

def uidValidityIn : Response → Option (Option UInt32)
  | .data .ok (some (.uidValidity uid)) _ => some (some uid)
  | _ => none

def highestModSeqIn : Response → Option (Option UInt64)
  | .data .ok (some (.highestModSeq seq)) _ => some (some seq)
  | _ => none

end Kinds

section Field

variable {γ : Type}

def AtMostOnce (get : Response → Option γ) (rs : List Response) : Prop :=
  (rs.filterMap get).length ≤ 1

instance (get : Response → Option γ) (rs : List Response) : Decidable (AtMostOnce get rs) :=
  inferInstanceAs (Decidable (_ ≤ 1))

/-- A field holds what is reported, and its default if nothing is. -/
def Reported (get : Response → Option γ) (rs : List Response) (default value : γ) : Prop :=
  (∀ r ∈ rs, ∀ v, get r = some v → value = v) ∧ ((∀ r ∈ rs, get r = none) → value = default)

variable {get : Response → Option γ} {rs rs' : List Response}

/-- The value is the same for every order. -/
theorem Reported.perm {default value value' : γ} (h : Reported get rs default value)
    (h' : Reported get rs' default value') (hperm : rs.Perm rs') : value = value' := by
  by_cases hnone : ∀ r ∈ rs, get r = none
  · have hnone' : ∀ r ∈ rs', get r = none := fun r hr => hnone r (hperm.mem_iff.mpr hr)
    rw [h.2 hnone, h'.2 hnone']
  · push Not at hnone
    obtain ⟨r, hr, hsome⟩ := hnone
    obtain ⟨v, hv⟩ := Option.ne_none_iff_exists'.mp hsome
    rw [h.1 r hr v hv, h'.1 r (hperm.mem_iff.mp hr) v hv]

theorem AtMostOnce.perm (h : AtMostOnce get rs) (hperm : rs.Perm rs') : AtMostOnce get rs' := by
  have same := (hperm.filterMap get).length_eq
  unfold AtMostOnce at h ⊢
  omega

variable (field : Mailbox → γ) (add : γ → γ → γ)

theorem field_foldl
    (hstep : ∀ m r, field (m.withResponse r) = (get r).elim (field m) (add (field m)))
    (m : Mailbox) :
    field (rs.foldl Mailbox.withResponse m) = (rs.filterMap get).foldl add (field m) := by
  induction rs generalizing m with
  | nil => rfl
  | cons r rs ih =>
      rw [List.foldl_cons, ih, hstep]
      cases hr : get r with
      | none =>
          rw [List.filterMap_cons_none hr]
          rfl
      | some v =>
          rw [List.filterMap_cons_some hr]
          rfl

theorem reported_foldl
    (hstep : ∀ m r, field (m.withResponse r) = (get r).elim (field m) (add (field m)))
    (hfirst : ∀ v, add (field .empty) v = v) (honce : AtMostOnce get rs) :
    Reported get rs (field .empty) (field (rs.foldl Mailbox.withResponse .empty)) := by
  rw [field_foldl field add hstep]
  unfold AtMostOnce at honce
  cases hall : rs.filterMap get with
  | nil =>
      refine ⟨?_, fun _ => rfl⟩
      intro r hr v hv
      rw [List.filterMap_eq_nil_iff.mp hall r hr] at hv
      cases hv
  | cons v vs =>
      rw [hall, List.length_cons] at honce
      obtain rfl := List.eq_nil_of_length_eq_zero (by omega : vs.length = 0)
      rw [List.foldl_cons, List.foldl_nil, hfirst]
      constructor
      · intro r hr v' hv'
        have hmem : v' ∈ rs.filterMap get := List.mem_filterMap.mpr ⟨r, hr, hv'⟩
        rw [hall, List.mem_singleton] at hmem
        exact hmem.symm
      · intro hnone
        rw [List.filterMap_eq_nil_iff.mpr hnone] at hall
        cases hall

theorem reported_overwritten
    (hstep : ∀ m r, field (m.withResponse r) = (get r).elim (field m) fun v => v)
    (honce : AtMostOnce get rs) :
    Reported get rs (field .empty) (field (rs.foldl Mailbox.withResponse .empty)) :=
  reported_foldl field (fun _ v => v) hstep (fun _ => rfl) honce

end Field

/-- Every field as it is changed by a response. -/
theorem Mailbox.withResponse_eq (m : Mailbox) (r : Response) :
    m.withResponse r =
      { flags := (flagsIn r).elim m.flags (m.flags ++ ·)
        exists_ := (existsIn r).elim m.exists_ fun e => e
        recent := (recentIn r).elim m.recent fun n => n
        unseen := (unseenIn r).elim m.unseen fun n => n
        permanentFlags := (permanentFlagsIn r).elim m.permanentFlags (m.permanentFlags ++ ·)
        uidNext := (uidNextIn r).elim m.uidNext fun unext => unext
        uidValidity := (uidValidityIn r).elim m.uidValidity fun uid => uid
        highestModSeq := (highestModSeqIn r).elim m.highestModSeq fun seq => seq
        isReadOnly := (m.withResponse r).isReadOnly } := by
  cases r with
  | done tag status code information =>
      rcases code with - | code
      · cases status <;> rfl
      · cases status <;> first | rfl | (cases code <;> rfl)
  | data status code information =>
      rcases code with - | code
      · cases status <;> rfl
      · cases status <;> first | rfl | (cases code <;> rfl)
  | mailboxData datum => cases datum <;> rfl
  | _ => rfl

/-- Only the tagged response makes a mailbox read-only. -/
theorem Mailbox.isReadOnly_foldl {rs : List Response} (hrs : ∀ r ∈ rs, r.isDone = false)
    (m : Mailbox) : (rs.foldl withResponse m).isReadOnly = m.isReadOnly := by
  induction rs generalizing m with
  | nil => rfl
  | cons r rs ih =>
      obtain ⟨hr, hrs⟩ := List.forall_mem_cons.mp hrs
      rw [List.foldl_cons, ih hrs]
      cases r with
      | done => cases hr
      | data status code information =>
          rcases code with - | code
          · cases status <;> rfl
          · cases status <;> first | rfl | (cases code <;> rfl)
      | mailboxData datum => cases datum <;> rfl
      | _ => rfl

/-- Nothing is reported twice. -/
structure SelectedOnce (rs : List Response) : Prop where
  flags : AtMostOnce flagsIn rs
  exists_ : AtMostOnce existsIn rs
  recent : AtMostOnce recentIn rs
  unseen : AtMostOnce unseenIn rs
  permanentFlags : AtMostOnce permanentFlagsIn rs
  uidNext : AtMostOnce uidNextIn rs
  uidValidity : AtMostOnce uidValidityIn rs
  highestModSeq : AtMostOnce highestModSeqIn rs

/-- Each field is what the responses and the code of the tagged one say. -/
structure Mailbox.Selected (m : Mailbox) (rs : List Response) (code : Option ResponseCode) :
    Prop where
  flags : Reported flagsIn rs Mailbox.empty.flags m.flags
  exists_ : Reported existsIn rs Mailbox.empty.exists_ m.exists_
  recent : Reported recentIn rs Mailbox.empty.recent m.recent
  unseen : Reported unseenIn rs Mailbox.empty.unseen m.unseen
  permanentFlags : Reported permanentFlagsIn rs Mailbox.empty.permanentFlags m.permanentFlags
  uidNext : Reported uidNextIn rs Mailbox.empty.uidNext m.uidNext
  uidValidity : Reported uidValidityIn rs Mailbox.empty.uidValidity m.uidValidity
  highestModSeq : Reported highestModSeqIn rs Mailbox.empty.highestModSeq m.highestModSeq
  isReadOnly : m.isReadOnly = decide (code = some .readOnly)

variable {parse : ParseResponse} {lines lines' : Bytes} {rs rs' : List Response} {tag : Str}
variable {code : Option ResponseCode} {information : Option Str}

theorem SelectedOnce.perm (h : SelectedOnce rs) (hperm : rs.Perm rs') : SelectedOnce rs' where
  flags := h.flags.perm hperm
  exists_ := h.exists_.perm hperm
  recent := h.recent.perm hperm
  unseen := h.unseen.perm hperm
  permanentFlags := h.permanentFlags.perm hperm
  uidNext := h.uidNext.perm hperm
  uidValidity := h.uidValidity.perm hperm
  highestModSeq := h.highestModSeq.perm hperm

/-- There is one such mailbox, whatever the order. -/
theorem Mailbox.Selected.perm {m m' : Mailbox} (h : m.Selected rs code)
    (h' : m'.Selected rs' code) (hperm : rs.Perm rs') : m = m' := by
  cases m with
  | mk flags exists_ recent unseen permanentFlags uidNext uidValidity highestModSeq isReadOnly =>
      cases m'
      obtain rfl := h.flags.perm h'.flags hperm
      obtain rfl := h.exists_.perm h'.exists_ hperm
      obtain rfl := h.recent.perm h'.recent hperm
      obtain rfl := h.unseen.perm h'.unseen hperm
      obtain rfl := h.permanentFlags.perm h'.permanentFlags hperm
      obtain rfl := h.uidNext.perm h'.uidNext hperm
      obtain rfl := h.uidValidity.perm h'.uidValidity hperm
      obtain rfl := h.highestModSeq.perm h'.highestModSeq hperm
      obtain rfl := h.isReadOnly.trans h'.isReadOnly.symm
      rfl

theorem Mailbox.selected_foldl (hrs : ∀ r ∈ rs, r.isDone = false) (honce : SelectedOnce rs)
    (tag : Str) (code : Option ResponseCode) (information : Option Str) :
    ((rs.foldl withResponse .empty).withResponse (.done tag .ok code information)).Selected
      rs code := by
  have readOnly : ((rs.foldl withResponse .empty).withResponse
      (.done tag .ok code information)).isReadOnly = decide (code = some .readOnly) := by
    have before := isReadOnly_foldl hrs .empty
    rcases code with - | code
    · exact before
    · cases code <;> first | exact before | rfl
  rw [withResponse_eq]
  constructor
  case isReadOnly => exact readOnly
  case flags =>
    apply reported_foldl Mailbox.flags (fun flags more => flags ++ more)
    · exact fun m r => congrArg Mailbox.flags (m.withResponse_eq r)
    · exact fun _ => rfl
    · exact honce.flags
  case permanentFlags =>
    apply reported_foldl Mailbox.permanentFlags (fun flags more => flags ++ more)
    · exact fun m r => congrArg Mailbox.permanentFlags (m.withResponse_eq r)
    · exact fun _ => rfl
    · exact honce.permanentFlags
  case exists_ =>
    apply reported_overwritten Mailbox.exists_ _ honce.exists_
    exact fun m r => congrArg Mailbox.exists_ (m.withResponse_eq r)
  case recent =>
    apply reported_overwritten Mailbox.recent _ honce.recent
    exact fun m r => congrArg Mailbox.recent (m.withResponse_eq r)
  case unseen =>
    apply reported_overwritten Mailbox.unseen _ honce.unseen
    exact fun m r => congrArg Mailbox.unseen (m.withResponse_eq r)
  case uidNext =>
    apply reported_overwritten Mailbox.uidNext _ honce.uidNext
    exact fun m r => congrArg Mailbox.uidNext (m.withResponse_eq r)
  case uidValidity =>
    apply reported_overwritten Mailbox.uidValidity _ honce.uidValidity
    exact fun m r => congrArg Mailbox.uidValidity (m.withResponse_eq r)
  case highestModSeq =>
    apply reported_overwritten Mailbox.highestModSeq _ honce.highestModSeq
    exact fun m r => congrArg Mailbox.highestModSeq (m.withResponse_eq r)

theorem parseMailbox_selected
    (h : parse.Splits lines (rs ++ [Response.done tag .ok code information]))
    (haccepted : ∀ r ∈ rs, r.isDone = false ∧ mailboxAction r ≠ .fail) (honce : SelectedOnce rs)
    (q : Queue) :
    ∃ m, (parseMailbox parse lines q).1 = .ok m ∧ m.Selected rs code := by
  have hrs : ∀ r ∈ rs, r.isDone = false := fun r hr => (haccepted r hr).1
  have hparse := (parseMailbox_sorts hrs h).passes (fun r hr => (haccepted r hr).2) q
  rw [Intake.mailbox_taken] at hparse
  exact ⟨_, congrArg Prod.fst hparse, Mailbox.selected_foldl hrs honce tag code information⟩

/-- The order of the responses before the tagged one makes no difference to the mailbox. -/
theorem parseMailbox_perm
    (h : parse.Splits lines (rs ++ [Response.done tag .ok code information]))
    (h' : parse.Splits lines' (rs' ++ [Response.done tag .ok code information]))
    (hperm : rs.Perm rs') (haccepted : ∀ r ∈ rs, r.isDone = false ∧ mailboxAction r ≠ .fail)
    (honce : SelectedOnce rs) (q q' : Queue) :
    ∃ m, (parseMailbox parse lines q).1 = .ok m ∧ (parseMailbox parse lines' q').1 = .ok m ∧
      m.Selected rs code := by
  have haccepted' : ∀ r ∈ rs', r.isDone = false ∧ mailboxAction r ≠ .fail :=
    fun r hr => haccepted r (hperm.mem_iff.mpr hr)
  obtain ⟨m, hm, hselected⟩ := parseMailbox_selected h haccepted honce q
  obtain ⟨m', hm', hselected'⟩ := parseMailbox_selected h' haccepted' (honce.perm hperm) q'
  obtain rfl := hselected.perm hselected' hperm
  exact ⟨m, hm, hm', hselected⟩

def examineSize : Bytes := utf8 "* 3 EXISTS\r\n".toList

def examineNext : Bytes := utf8 "* OK [UIDNEXT 9]\r\n".toList

def examineGone : Bytes := utf8 "* 4 EXPUNGE\r\n".toList

def examineDone : Bytes := utf8 "a1 OK [READ-ONLY]\r\n".toList

def examineMessages : List (Bytes × Response) :=
  [(examineSize, .mailboxData (.exists_ 3)),
    (examineNext, .data .ok (some (.uidNext 9)) none),
    (examineGone, .expunge 4),
    (examineDone, .done "a1".toList .ok (some .readOnly) none)]

def examineParse : ParseResponse := Parser.table examineMessages (by decide)

theorem examineParse_framed : examineParse.Framed LF :=
  Parser.table_framed _ (by decide) (by decide)

theorem examineParse_splits {cs : List Bytes} {rs : List Response}
    (h : List.Forall₂ examineParse.Accepts cs rs) :
    examineParse.Splits (cs.flatten ++ examineDone)
      (rs ++ [.done "a1".toList .ok (some .readOnly) none]) :=
  examineParse_framed.splits_snoc (examineParse_framed.splits_flatten h) <|
    show examineParse.run _ = _ by decide

/-- The size of the mailbox and the next uid either way round, with an update between them. -/
theorem parseMailbox_perm_examine :
    ∃ m, (parseMailbox examineParse
        ([examineSize, examineGone, examineNext].flatten ++ examineDone) []).1 = .ok m ∧
      (parseMailbox examineParse
        ([examineNext, examineGone, examineSize].flatten ++ examineDone) []).1 = .ok m ∧
      m.Selected [.mailboxData (.exists_ 3), .expunge 4, .data .ok (some (.uidNext 9)) none]
        (some .readOnly) := by
  have size : examineParse.Accepts examineSize (.mailboxData (.exists_ 3)) :=
    show examineParse.run _ = _ by decide
  have gone : examineParse.Accepts examineGone (.expunge 4) :=
    show examineParse.run _ = _ by decide
  have next : examineParse.Accepts examineNext (.data .ok (some (.uidNext 9)) none) :=
    show examineParse.run _ = _ by decide
  have once : SelectedOnce
      [.mailboxData (.exists_ 3), .expunge 4, .data .ok (some (.uidNext 9)) none] := by
    constructor <;> decide
  have forth := examineParse_splits (.cons size (.cons gone (.cons next .nil)))
  have back := examineParse_splits (.cons next (.cons gone (.cons size .nil)))
  exact parseMailbox_perm forth back (by decide) (by decide) once [] []

end RustImap
