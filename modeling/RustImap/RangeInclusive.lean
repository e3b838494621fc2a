import Mathlib.Data.List.Perm.Subperm
import Mathlib.Data.List.Flatten

/-!
Inclusive ranges of 32-bit numbers as iterators.

The last number cannot be passed by going one further, so a range that has yielded it is
marked as exhausted. `items` runs the iterator to its end.
-/

namespace RustImap

/-- `RangeInclusive<u32>` -/
structure RangeInclusive where
  start : UInt32
  stop : UInt32
  exhausted : Bool
  deriving DecidableEq

namespace RangeInclusive

/-- `start..=stop` -/
def new (r : UInt32 × UInt32) : RangeInclusive := ⟨r.1, r.2, false⟩

def isEmpty (r : RangeInclusive) : Bool := r.exhausted || !decide (r.start ≤ r.stop)

/-- `Iterator::next`, with the range that is left. -/
def next (r : RangeInclusive) : Option (UInt32 × RangeInclusive) :=
  if r.isEmpty then none
  else if r.start < r.stop then some (r.start, { r with start := r.start + 1 })
  else some (r.start, { r with exhausted := true })

/-- How many numbers are left. -/
def size (r : RangeInclusive) : Nat :=
  if r.isEmpty then 0 else r.stop.toNat - r.start.toNat + 1

/-- What the first calls of `next` yield. -/
def itemsIn : Nat → RangeInclusive → List UInt32
  | 0, _ => []
  | turns + 1, r =>
      match r.next with
      | some (u, r) => u :: itemsIn turns r
      | none => []

def items (r : RangeInclusive) : List UInt32 := itemsIn r.size r

variable {r r' : RangeInclusive} {u : UInt32}

theorem isEmpty_eq_false_iff : r.isEmpty = false ↔ r.exhausted = false ∧ r.start ≤ r.stop := by
  simp [isEmpty]

theorem toNat_succ (h : r.start < r.stop) : (r.start + 1).toNat = r.start.toNat + 1 := by
  rw [UInt32.lt_iff_toNat_lt] at h
  have bound := r.stop.toNat_lt
  rw [UInt32.toNat_add, UInt32.toNat_one, Nat.mod_eq_of_lt (by omega)]

/-- What a call of `next` can do. -/
theorem next_cases (h : r.next = some (u, r')) :
    u = r.start ∧ r.exhausted = false ∧
      (r.start < r.stop ∧ r' = { r with start := r.start + 1 } ∨
        r.start = r.stop ∧ r' = { r with exhausted := true }) := by
  unfold next at h
  split at h
  · cases h
  · rename_i hempty
    obtain ⟨hexhausted, hle⟩ := isEmpty_eq_false_iff.mp (Bool.eq_false_iff.mpr hempty)
    split at h
    · cases h
      exact ⟨rfl, hexhausted, .inl ⟨‹_›, rfl⟩⟩
    · rename_i hlt
      cases h
      exact ⟨rfl, hexhausted, .inr ⟨UInt32.le_antisymm hle (UInt32.not_lt.mp hlt), rfl⟩⟩

theorem next_eq_none_iff : r.next = none ↔ r.isEmpty = true := by
  unfold next
  split
  · simp [*]
  · split <;> simp [*]

theorem size_next (h : r.next = some (u, r')) : r.size = r'.size + 1 := by
  obtain ⟨-, hexhausted, ⟨hlt, rfl⟩ | ⟨heq, rfl⟩⟩ := next_cases h
  · have hle := UInt32.le_of_lt hlt
    have succ := toNat_succ hlt
    rw [UInt32.lt_iff_toNat_lt] at hlt
    have more : r.start + 1 ≤ r.stop := by
      rw [UInt32.le_iff_toNat_le, succ]
      omega
    simp only [size, isEmpty, hexhausted, hle, more, succ]
    simp only [decide_true, Bool.not_true, Bool.or_false, Bool.false_eq_true, if_false]
    omega
  · simp [size, isEmpty, hexhausted, heq]

theorem items_of_some (h : r.next = some (u, r')) : r.items = u :: r'.items := by
  rw [items, size_next h, itemsIn, h]
  rfl

theorem items_of_none (h : r.next = none) : r.items = [] := by
  unfold items
  cases r.size with
  | zero => rfl
  | succ turns => rw [itemsIn, h]

/-- The induction over the calls of `next`. -/
theorem next_induction {P : RangeInclusive → Prop} (none : ∀ r, r.next = none → P r)
    (some : ∀ r u r', r.next = some (u, r') → P r' → P r) (r : RangeInclusive) : P r := by
  generalize hn : r.size = n
  induction n generalizing r with
  | zero =>
      cases hnext : r.next with
      | none => exact none r hnext
      | some out =>
          have := size_next hnext
          omega
  | succ n ih =>
      cases hnext : r.next with
      | none => exact none r hnext
      | some out =>
          have := size_next hnext
          exact some r out.1 out.2 hnext (ih out.2 (by omega))

theorem mem_items_iff (r : RangeInclusive) :
    u ∈ r.items ↔ r.exhausted = false ∧ r.start ≤ u ∧ u ≤ r.stop := by
  induction r using next_induction with
  | none r h =>
      rw [items_of_none h]
      rw [next_eq_none_iff] at h
      refine iff_of_false (List.not_mem_nil) ?_
      rintro ⟨hexhausted, hle, hge⟩
      rw [isEmpty_eq_false_iff.mpr ⟨hexhausted, UInt32.le_trans hle hge⟩] at h
      cases h
  | some r v r' h ih =>
      rw [items_of_some h, List.mem_cons, ih]
      obtain ⟨rfl, hexhausted, ⟨hlt, rfl⟩ | ⟨heq, rfl⟩⟩ := next_cases h
      · have succ := toNat_succ hlt
        simp only [hexhausted, true_and, UInt32.le_iff_toNat_le, succ, ← UInt32.toNat_inj]
        rw [UInt32.lt_iff_toNat_lt] at hlt
        omega
      · simp only [hexhausted, heq, true_and, Bool.true_eq_false, false_and, or_false]
        constructor
        · rintro rfl
          exact ⟨UInt32.le_refl _, UInt32.le_refl _⟩
        · rintro ⟨hge, hle⟩
          exact UInt32.le_antisymm hle hge

theorem nodup_items (r : RangeInclusive) : r.items.Nodup := by
  induction r using next_induction with
  | none r h =>
      rw [items_of_none h]
      exact List.nodup_nil
  | some r v r' h ih =>
      rw [items_of_some h, List.nodup_cons, mem_items_iff]
      refine ⟨?_, ih⟩
      obtain ⟨rfl, hexhausted, ⟨hlt, rfl⟩ | ⟨heq, rfl⟩⟩ := next_cases h
      · have succ := toNat_succ hlt
        simp only [UInt32.le_iff_toNat_le, succ]
        omega
      · simp

end RangeInclusive

section Parts

variable {α β : Type} {P : β → List α → Prop} {f : β → List α} {bs : List β}
  {parts : List (List α)}

theorem length_flatMap_le (hle : ∀ b part, P b part → (f b).length ≤ part.length)
    (h : List.Forall₂ P bs parts) : (bs.flatMap f).length ≤ parts.flatten.length := by
  induction h with
  | nil => exact Nat.le_refl _
  | cons hb _ ih =>
      have := hle _ _ hb
      simp only [List.flatMap_cons, List.flatten_cons, List.length_append]
      omega

/-- Parts that are at least as long as the lists they are compared with, and no longer all
together, are as long one by one. -/
theorem length_parts_eq (hle : ∀ b part, P b part → (f b).length ≤ part.length)
    (h : List.Forall₂ P bs parts) (hall : parts.flatten.length ≤ (bs.flatMap f).length) :
    ∀ b ∈ bs, ∃ part, P b part ∧ part.length = (f b).length := by
  induction h with
  | nil => simp
  | @cons b part bs parts hb hrest ih =>
      have first := hle _ _ hb
      have rest := length_flatMap_le hle hrest
      simp only [List.flatMap_cons, List.flatten_cons, List.length_append] at hall
      intro b' hb'
      rcases List.mem_cons.mp hb' with rfl | hb'
      · exact ⟨part, hb, by omega⟩
      · exact ih (by omega) b' hb'

end Parts

end RustImap
