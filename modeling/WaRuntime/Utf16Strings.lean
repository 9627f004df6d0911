import Mathlib.Data.List.Basic
import Mathlib.Data.Nat.Notation

/-! Strings of UTF-16 code units, which need not be well formed.
Where such a string is encoded as UTF-8, or stored as Unicode text, each surrogate that has no
partner becomes U+FFFD. -/
namespace Utf16Strings

/-- A string of JavaScript. -/
abbrev Utf16String := List UInt16

def high (u : UInt16) : Bool := 0xD800 ≤ u.toNat && u.toNat < 0xDC00

def low (u : UInt16) : Bool := 0xDC00 ≤ u.toNat && u.toNat < 0xE000

/-- A unit that has no partner. -/
def scalar (u : UInt16) : Char := if high u || low u then '\uFFFD' else Char.ofNat u.toNat

def pair (u v : UInt16) : Char :=
  Char.ofNat (0x10000 + (u.toNat - 0xD800) * 0x400 + (v.toNat - 0xDC00))

/-- The characters of the string, with U+FFFD for each surrogate that has no partner. -/
def scalars : Utf16String → List Char
  | [] => []
  | [u] => [scalar u]
  | u :: v :: us => if high u && low v then pair u v :: scalars us else scalar u :: scalars (v :: us)

def wellFormed (us : Utf16String) : String := String.ofList (scalars us)

def charUnits (c : Char) : Utf16String :=
  if 0x10000 ≤ c.toNat then
    [UInt16.ofNat (0xD800 + (c.toNat - 0x10000) / 0x400),
      UInt16.ofNat (0xDC00 + (c.toNat - 0x10000) % 0x400)]
  else [UInt16.ofNat c.toNat]

/-- The code units of a text. -/
def units (s : String) : Utf16String := s.toList.flatMap charUnits

variable {u v sep : UInt16} {us vs : Utf16String}

theorem toNat_range (c : Char) :
    c.toNat < 0xD800 ∨ (0xDFFF < c.toNat ∧ c.toNat < 0x110000) := by
  have h := c.valid
  simp only [UInt32.isValidChar, Nat.isValidChar] at h
  exact h

/-- A string is read in two parts where the second one does not begin with a low surrogate. -/
theorem scalars_append (h : ∀ v ∈ vs.head?, low v = false) :
    scalars (us ++ vs) = scalars us ++ scalars vs := by
  induction us using scalars.induct with
  | case1 => rfl
  | case2 u =>
    cases vs with
    | nil => rfl
    | cons v vs =>
      have hv : low v = false := h v rfl
      simp [scalars, hv]
  | case3 u v us hpair ih =>
    rw [List.cons_append, List.cons_append, scalars, if_pos hpair, ih, scalars, if_pos hpair]
    rfl
  | case4 u v us hpair ih =>
    rw [List.cons_append, List.cons_append, scalars, if_neg hpair, scalars, if_neg hpair,
      ← List.cons_append, ih]
    rfl

/-- A unit that is no surrogate parts a string. -/
theorem scalars_break (hh : high sep = false) (hl : low sep = false) :
    scalars (us ++ sep :: vs) = scalars us ++ scalar sep :: scalars vs := by
  have hsep : scalars (sep :: vs) = scalar sep :: scalars vs := by
    cases vs with
    | nil => rfl
    | cons v vs => simp [scalars, hh]
  rw [scalars_append, hsep]
  rintro _ ⟨⟩
  exact hl

theorem scalars_char (c : Char) (us : Utf16String) :
    scalars (charUnits c ++ us) = c :: scalars us := by
  have hrange := toNat_range c
  unfold charUnits
  split
  · rename_i hlarge
    have hu : (UInt16.ofNat (0xD800 + (c.toNat - 0x10000) / 0x400)).toNat =
        0xD800 + (c.toNat - 0x10000) / 0x400 := by
      rw [UInt16.toNat_ofNat']
      omega
    have hv : (UInt16.ofNat (0xDC00 + (c.toNat - 0x10000) % 0x400)).toNat =
        0xDC00 + (c.toNat - 0x10000) % 0x400 := by
      rw [UInt16.toNat_ofNat']
      omega
    have hpair : (high (UInt16.ofNat (0xD800 + (c.toNat - 0x10000) / 0x400)) &&
        low (UInt16.ofNat (0xDC00 + (c.toNat - 0x10000) % 0x400))) = true := by
      simp only [high, low, hu, hv, Bool.and_eq_true, decide_eq_true_eq]
      omega
    rw [List.cons_append, List.cons_append, List.nil_append, scalars, if_pos hpair]
    have hchar : pair (UInt16.ofNat (0xD800 + (c.toNat - 0x10000) / 0x400))
        (UInt16.ofNat (0xDC00 + (c.toNat - 0x10000) % 0x400)) = c := by
      unfold pair
      rw [hu, hv]
      have hsum : 0x10000 + (0xD800 + (c.toNat - 0x10000) / 0x400 - 0xD800) * 0x400 +
          (0xDC00 + (c.toNat - 0x10000) % 0x400 - 0xDC00) = c.toNat := by omega
      rw [hsum, Char.ofNat_toNat]
    rw [hchar]
  · have hu : (UInt16.ofNat c.toNat).toNat = c.toNat := by
      rw [UInt16.toNat_ofNat']
      omega
    have hh : high (UInt16.ofNat c.toNat) = false := by
      simp only [high, hu, Bool.and_eq_false_iff, decide_eq_false_iff_not]
      omega
    have hl : low (UInt16.ofNat c.toNat) = false := by
      simp only [low, hu, Bool.and_eq_false_iff, decide_eq_false_iff_not]
      omega
    have hbreak := @scalars_break _ [] us hh hl
    rw [List.nil_append] at hbreak
    rw [List.singleton_append, hbreak, scalar, hh, hl, hu, Char.ofNat_toNat]
    rfl

theorem scalars_units (s : String) : scalars (units s) = s.toList := by
  have hchars : ∀ cs : List Char, scalars (cs.flatMap charUnits) = cs := by
    intro cs
    induction cs with
    | nil => rfl
    | cons c cs ih => rw [List.flatMap_cons, scalars_char, ih]
  exact hchars s.toList

/-- The units of a text do not begin with a low surrogate. -/
theorem units_head (s : String) {v : UInt16} (h : v ∈ (units s).head?) : low v = false := by
  unfold units at h
  cases hs : s.toList with
  | nil => simp [hs] at h
  | cons c cs =>
    have hrange := toNat_range c
    rw [hs, List.flatMap_cons] at h
    unfold charUnits at h
    split at h
    · obtain rfl : UInt16.ofNat (0xD800 + (c.toNat - 0x10000) / 0x400) = v := by simpa using h
      simp only [low, UInt16.toNat_ofNat', Bool.and_eq_false_iff, decide_eq_false_iff_not]
      omega
    · obtain rfl : UInt16.ofNat c.toNat = v := by simpa using h
      simp only [low, UInt16.toNat_ofNat', Bool.and_eq_false_iff, decide_eq_false_iff_not]
      omega

/-- A text ends in another one where its units do. -/
theorem units_suffix {s t : String} : units s <:+ units t ↔ s.toList <:+ t.toList := by
  constructor
  · rintro ⟨front, hfront⟩
    refine ⟨scalars front, ?_⟩
    rw [← scalars_units s, ← scalars_units t, ← hfront, scalars_append fun _ => units_head s]
  · rintro ⟨front, hfront⟩
    refine ⟨front.flatMap charUnits, ?_⟩
    rw [units, units, ← hfront, List.flatMap_append]

/-- A text is well formed. -/
@[simp] theorem wellFormed_units (s : String) : wellFormed (units s) = s := by
  rw [wellFormed, scalars_units, String.ofList_toList]

theorem units_injective : Function.Injective units := fun a b h => by
  rw [← wellFormed_units a, h, wellFormed_units]

end Utf16Strings
