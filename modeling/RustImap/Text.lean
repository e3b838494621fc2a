import Mathlib.Data.List.Basic

/-!
Strings and bytes.

A Rust string is a sequence of Unicode scalar values, here a list of `Char`; what
goes over the wire is its UTF-8 encoding. The two line characters are ASCII, so
they occur in the encoding exactly where they occur in the string.
-/

namespace RustImap

abbrev Str := List Char

abbrev Bytes := List UInt8

def CR : UInt8 := 0x0d

def LF : UInt8 := 0x0a

def PLUS : UInt8 := 0x2b

def SPACE : UInt8 := 0x20

def utf8 (s : Str) : Bytes := s.flatMap String.utf8EncodeChar

/-- `String::from_utf8` accepts these bytes. -/
def isUtf8 (bs : Bytes) : Bool := decide bs.toByteArray.IsValidUTF8

/-- `str::from_utf8` -/
def fromUtf8 (bs : Bytes) : Option Str := bs.toByteArray.utf8Decode?.map Array.toList

def decimal (n : Nat) : Str := Nat.toDigits 10 n

def SingleLine (s : Str) : Prop := '\r' ∉ s ∧ '\n' ∉ s

instance (s : Str) : Decidable (SingleLine s) := inferInstanceAs (Decidable (_ ∧ _))

@[simp] theorem utf8_nil : utf8 [] = [] := rfl

@[simp] theorem utf8_append (s t : Str) : utf8 (s ++ t) = utf8 s ++ utf8 t := by
  simp [utf8]

theorem isUtf8_utf8 (s : Str) : isUtf8 (utf8 s) = true := by
  rw [isUtf8, decide_eq_true_iff]
  exact ⟨s, rfl⟩

@[simp] theorem fromUtf8_utf8 (s : Str) : fromUtf8 (utf8 s) = some s := by
  change s.utf8Encode.utf8Decode?.map Array.toList = some s
  rw [List.utf8Decode?_utf8Encode]
  rfl

theorem utf8EncodeChar_ascii {b : UInt8} (hb : b.toNat < 128) (c : Char) :
    b ∈ String.utf8EncodeChar c ↔ c.toNat = b.toNat := by
  have hv : c.val.toNat = c.toNat := rfl
  simp only [String.utf8EncodeChar, hv]
  have high : ∀ n : Nat, 128 ≤ n → n < 256 → b ≠ UInt8.ofNat n := by
    rintro n h1 h2 rfl
    rw [UInt8.toNat_ofNat', Nat.mod_eq_of_lt h2] at hb
    omega
  split
  · rename_i h
    constructor
    · intro hmem
      rw [List.mem_singleton.mp hmem, UInt8.toNat_ofNat', Nat.mod_eq_of_lt (by omega)]
    · intro heq
      rw [heq]
      simp
  · have hne : c.toNat ≠ b.toNat := by omega
    -- every byte of a longer encoding carries the high bit
    split
    · simp only [List.mem_cons, List.not_mem_nil, or_false, hne, iff_false, not_or]
      exact ⟨high _ (by omega) (by omega), high _ (by omega) (by omega)⟩
    · split
      · simp only [List.mem_cons, List.not_mem_nil, or_false, hne, iff_false, not_or]
        exact ⟨high _ (by omega) (by omega), high _ (by omega) (by omega),
          high _ (by omega) (by omega)⟩
      · simp only [List.mem_cons, List.not_mem_nil, or_false, hne, iff_false, not_or]
        exact ⟨high _ (by omega) (by omega), high _ (by omega) (by omega),
          high _ (by omega) (by omega), high _ (by omega) (by omega)⟩

theorem mem_utf8_ascii {b : UInt8} (hb : b.toNat < 128) {a : Char} (ha : a.toNat = b.toNat)
    (s : Str) : b ∈ utf8 s ↔ a ∈ s := by
  simp only [utf8, List.mem_flatMap, utf8EncodeChar_ascii hb]
  constructor
  · rintro ⟨c, hc, heq⟩
    rwa [← Char.toNat_inj.mp (heq.trans ha.symm)]
  · exact fun h => ⟨a, h, ha⟩

theorem LF_mem_utf8 (s : Str) : LF ∈ utf8 s ↔ '\n' ∈ s :=
  mem_utf8_ascii (by decide) (by decide) s

theorem CR_mem_utf8 (s : Str) : CR ∈ utf8 s ↔ '\r' ∈ s :=
  mem_utf8_ascii (by decide) (by decide) s

theorem utf8_ascii {s : Str} (h : ∀ c ∈ s, c.toNat < 128) :
    utf8 s = s.map fun c => UInt8.ofNat c.toNat := by
  induction s with
  | nil => rfl
  | cons c s ih =>
      have hc : c.val.toNat ≤ 127 := Nat.le_of_lt_succ (h c List.mem_cons_self)
      rw [List.map_cons, ← ih fun d hd => h d (List.mem_cons_of_mem c hd)]
      simp only [utf8, List.flatMap_cons, String.utf8EncodeChar, if_pos hc]
      rfl

/-- Bytes read as the characters with the same numbers. -/
def latin1 (bs : Bytes) : Str := bs.map fun b => Char.ofNat b.toNat

theorem latin1_utf8 {s : Str} (h : ∀ c ∈ s, c.toNat < 128) : latin1 (utf8 s) = s := by
  rw [utf8_ascii h, latin1, List.map_map]
  refine (List.map_congr_left fun c hc => ?_).trans (List.map_id _)
  have hsmall := h c hc
  simp only [Function.comp_apply, UInt8.toNat_ofNat', id_eq]
  rw [Nat.mod_eq_of_lt (by omega), Char.ofNat_toNat]

theorem ascii_of_isDigit {c : Char} (h : c.isDigit = true) : c.toNat < 128 := by
  simp only [Char.isDigit, Bool.and_eq_true, decide_eq_true_eq] at h
  exact Nat.lt_of_le_of_lt (UInt32.le_iff_toNat_le.mp h.2) (by decide)

theorem decimal_inj {m n : Nat} (h : decimal m = decimal n) : m = n := by
  have back := congrArg (fun s => Nat.ofDigitChars 10 s 0) h
  simpa only [decimal, Nat.ofDigitChars_ten_toDigits] using back

theorem isDigit_of_mem_decimal {n : Nat} {c : Char} (h : c ∈ decimal n) : c.isDigit = true :=
  Nat.isDigit_of_mem_toDigits (by decide) (by decide) h

end RustImap
