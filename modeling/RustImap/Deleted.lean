import RustImap.RangeInclusive
import RustImap.Types

/-!
The accessors of `Deleted`.

A range of uids is iterated from its first endpoint upwards, so it yields what it denotes
exactly if that is not the larger one.
-/

namespace RustImap

namespace Deleted

def fromExpunged (v : List UInt32) (modSeq : Option UInt64) : Deleted := ⟨.expunged v, modSeq⟩

def fromVanished (v : List (UInt32 × UInt32)) (modSeq : Option UInt64) : Deleted :=
  ⟨.vanished v, modSeq⟩

def seqs (d : Deleted) : List UInt32 :=
  match d.messages with
  | .expunged s => s
  | .vanished _ => []

def uids (d : Deleted) : List UInt32 :=
  match d.messages with
  | .expunged _ => []
  | .vanished s => s.flatMap fun range => (RangeInclusive.new range).items

def isEmpty (d : Deleted) : Bool :=
  match d.messages with
  | .expunged v => v.isEmpty
  | .vanished v => v.isEmpty

def intoIter (d : Deleted) : List UInt32 :=
  match d.messages with
  | .expunged _ => d.seqs
  | .vanished _ => d.uids

end Deleted

/-- The numbers of a range; `a:b` and `b:a` denote the same ones. -/
def Between (range : UInt32 × UInt32) (u : UInt32) : Prop :=
  range.1 ≤ u ∧ u ≤ range.2 ∨ range.2 ≤ u ∧ u ≤ range.1

def Lists (range : UInt32 × UInt32) (part : List UInt32) : Prop :=
  part.Nodup ∧ ∀ u, u ∈ part ↔ Between range u

/-- The list yields the numbers of the ranges, one range after the other. -/
def Denotes (ranges : List (UInt32 × UInt32)) (ids : List UInt32) : Prop :=
  ∃ parts, List.Forall₂ Lists ranges parts ∧ ids = parts.flatten

section Ranges

variable {range : UInt32 × UInt32} {ranges : List (UInt32 × UInt32)} {u : UInt32}

theorem mem_items_new : u ∈ (RangeInclusive.new range).items ↔ range.1 ≤ u ∧ u ≤ range.2 := by
  rw [RangeInclusive.mem_items_iff]
  exact and_iff_right rfl

theorem between_iff_mem (h : range.1 ≤ range.2) :
    u ∈ (RangeInclusive.new range).items ↔ Between range u := by
  rw [mem_items_new, Between]
  refine ⟨.inl, fun hu => hu.elim id ?_⟩
  rintro ⟨hge, hle⟩
  obtain rfl := UInt32.le_antisymm hle (UInt32.le_trans h hge)
  exact ⟨hle, h⟩

theorem items_new_eq_nil_iff : (RangeInclusive.new range).items = [] ↔ ¬range.1 ≤ range.2 := by
  rw [List.eq_nil_iff_forall_not_mem]
  simp only [mem_items_new, not_and]
  constructor
  · exact fun h hle => h range.1 (UInt32.le_refl _) hle
  · exact fun h u hge hle => h (UInt32.le_trans hge hle)

/-- Whatever lists the numbers of a range is as long as the iteration of it. -/
theorem Lists.length_le {part : List UInt32} (h : Lists range part) :
    (RangeInclusive.new range).items.length ≤ part.length := by
  apply List.Subperm.length_le
  apply List.subperm_of_subset (RangeInclusive.nodup_items _)
  intro u hu
  exact (h.2 u).mpr (.inl (mem_items_new.mp hu))

theorem denotes_items (h : ∀ range ∈ ranges, range.1 ≤ range.2) :
    Denotes ranges (ranges.flatMap fun range => (RangeInclusive.new range).items) := by
  refine ⟨ranges.map fun range => (RangeInclusive.new range).items, ?_, List.flatMap_def ..⟩
  rw [List.forall₂_map_right_iff, List.forall₂_same]
  exact fun range hrange => ⟨RangeInclusive.nodup_items _, fun u => between_iff_mem (h range hrange)⟩

theorem Denotes.forward
    (h : Denotes ranges (ranges.flatMap fun range => (RangeInclusive.new range).items)) :
    ∀ range ∈ ranges, range.1 ≤ range.2 := by
  obtain ⟨parts, hparts, hids⟩ := h
  intro range hrange
  have hall : parts.flatten.length ≤
      (ranges.flatMap fun range => (RangeInclusive.new range).items).length := by rw [hids]
  have hle : ∀ range part, Lists range part →
      (RangeInclusive.new range).items.length ≤ part.length := fun _ _ h => h.length_le
  obtain ⟨part, hpart, hlength⟩ := length_parts_eq hle hparts hall range hrange
  by_contra hreversed
  rw [items_new_eq_nil_iff.mpr hreversed, List.length_nil, List.length_eq_zero_iff] at hlength
  have first : range.1 ∈ part :=
    (hpart.2 range.1).mpr (.inr ⟨UInt32.le_of_lt (UInt32.not_le.mp hreversed), UInt32.le_refl _⟩)
  rw [hlength] at first
  cases first

theorem flatMap_items_eq_nil_iff :
    (ranges.flatMap fun range => (RangeInclusive.new range).items) = [] ↔
      ∀ range ∈ ranges, ¬range.1 ≤ range.2 := by
  simp only [List.flatMap_eq_nil_iff, items_new_eq_nil_iff]

end Ranges

namespace Deleted

theorem isEmpty_iff (d : Deleted) (h : ∀ ranges, d.messages = .vanished ranges →
    ranges ≠ [] → ∃ range ∈ ranges, range.1 ≤ range.2) :
    d.isEmpty = true ↔ d.intoIter = [] := by
  obtain ⟨messages, modSeq⟩ := d
  cases messages with
  | expunged v => exact List.isEmpty_iff
  | vanished v =>
      refine List.isEmpty_iff.trans (Iff.trans ?_ flatMap_items_eq_nil_iff.symm)
      constructor
      · rintro rfl
        exact fun range hrange => absurd hrange (List.not_mem_nil)
      · intro hreversed
        by_contra hv
        obtain ⟨range, hrange, hle⟩ := h v rfl hv
        exact hreversed range hrange hle

/-- A value made from ranges of uids yields what they denote exactly if every one of them
begins with its smaller endpoint. An empty iteration means an empty value except when
there are ranges and all of them are reversed. -/
theorem denotes_iff (ranges : List (UInt32 × UInt32)) (modSeq : Option UInt64) (d : Deleted) :
    ((Denotes ranges (fromVanished ranges modSeq).uids ∧
      Denotes ranges (fromVanished ranges modSeq).intoIter ∧
      (fromVanished ranges modSeq).seqs = []) ↔ ∀ range ∈ ranges, range.1 ≤ range.2) ∧
    ((d.isEmpty = true ↔ d.intoIter = []) ↔ ∀ ranges, d.messages = .vanished ranges →
      ranges ≠ [] → ∃ range ∈ ranges, range.1 ≤ range.2) := by
  constructor
  · constructor
    · exact fun h => h.1.forward
    · exact fun h => ⟨denotes_items h, denotes_items h, rfl⟩
  · refine ⟨?_, isEmpty_iff d⟩
    intro h v hv hne
    obtain ⟨messages, modSeq⟩ := d
    obtain rfl : messages = .vanished v := hv
    by_contra hreversed
    have all : ∀ range ∈ v, ¬range.1 ≤ range.2 :=
      fun range hrange hle => hreversed ⟨range, hrange, hle⟩
    exact hne (List.isEmpty_iff.mp (h.mpr (flatMap_items_eq_nil_iff.mpr all)))

/-- `VANISHED 5:3` yields nothing. -/
theorem denotes_fails :
    ¬((∀ ranges modSeq, Denotes ranges (fromVanished ranges modSeq).uids ∧
        Denotes ranges (fromVanished ranges modSeq).intoIter ∧
        (fromVanished ranges modSeq).seqs = []) ∧
      ∀ d : Deleted, d.isEmpty = true ↔ d.intoIter = []) := by
  intro h
  have forward := (h.1 [(5, 3)] none).1.forward (5, 3) (List.mem_singleton.mpr rfl)
  exact absurd forward (by decide)

example : (fromVanished [(3, 5), (4294967295, 4294967295), (0, 1)] none).intoIter =
    [3, 4, 5, 4294967295, 0, 1] := by decide

end Deleted

end RustImap
