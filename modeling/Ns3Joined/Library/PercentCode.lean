import Mathlib.Data.List.Basic

/-!
# Octets as text

Ways to write octets as characters that a reader undoes.

* `percentEncode keep` copies the octets whose character `keep` lets through and writes the
  others as `%XX`; `percentDecode` reads both back (`percentDecode_append`).
* `hexEncode` writes two lower-case digits for each octet (`hexDecode_hexEncode`).
* `segments` splits at a separator (`segments_append_cons`, `segments_eq_singleton`).
-/

namespace PercentCode

open List

/-! ### Characters and digits -/

/-- The character with the code of the octet. -/
def toChar (octet : UInt8) : Char := Char.ofNat octet.toNat

def ofChar (c : Char) : UInt8 := UInt8.ofNat c.toNat

@[simp] theorem toNat_toChar (octet : UInt8) : (toChar octet).toNat = octet.toNat := by
  have hlt : octet.toNat < 256 := octet.toNat_lt
  have hvalid : octet.toNat.isValidChar := Or.inl (by omega)
  unfold toChar Char.ofNat
  rw [dif_pos hvalid]
  rfl

@[simp] theorem ofChar_toChar (octet : UInt8) : ofChar (toChar octet) = octet := by
  rw [ofChar, toNat_toChar, UInt8.ofNat_toNat]

/-- The digits, upper case. -/
def upperDigit (n : ℕ) : Char := if n < 10 then Char.ofNat (48 + n) else Char.ofNat (55 + n)

/-- The digits, lower case. -/
def lowerDigit (n : ℕ) : Char := if n < 10 then Char.ofNat (48 + n) else Char.ofNat (87 + n)

/-- The value of a hexadecimal digit in either case. -/
def hexValue (c : Char) : Option ℕ :=
  if '0' ≤ c ∧ c ≤ '9' then some (c.toNat - 48)
  else if 'A' ≤ c ∧ c ≤ 'F' then some (c.toNat - 55)
  else if 'a' ≤ c ∧ c ≤ 'f' then some (c.toNat - 87)
  else none

theorem hexValue_upperDigit : ∀ n < 16, hexValue (upperDigit n) = some n := by decide

theorem hexValue_lowerDigit : ∀ n < 16, hexValue (lowerDigit n) = some n := by decide

/-- An octet is recovered from its two digits. -/
theorem ofNat_digits (octet : UInt8) :
    UInt8.ofNat (octet.toNat / 16 * 16 + octet.toNat % 16) = octet := by
  rw [Nat.div_add_mod', UInt8.ofNat_toNat]

/-- The high digit of an octet. -/
theorem high_lt (octet : UInt8) : octet.toNat / 16 < 16 := by
  have h : octet.toNat < 256 := octet.toNat_lt
  omega

theorem low_lt (octet : UInt8) : octet.toNat % 16 < 16 := Nat.mod_lt _ (by omega)

/-! ### Percent encoding -/

variable {P : Char → Prop}

section Percent

variable (keep : Char → Bool)

def percentEncodeOctet (octet : UInt8) : List Char :=
  if keep (toChar octet) then [toChar octet]
  else ['%', upperDigit (octet.toNat / 16), upperDigit (octet.toNat % 16)]

def percentEncode (octets : List UInt8) : List Char := octets.flatMap (percentEncodeOctet keep)

/-- A `%` with two characters behind it is an octet if they are digits, and text if not. -/
def percentDecode : List Char → List UInt8
  | [] => []
  | '%' :: a :: b :: text =>
    match hexValue a, hexValue b with
    | some high, some low => UInt8.ofNat (high * 16 + low) :: percentDecode text
    | _, _ => ofChar '%' :: ofChar a :: ofChar b :: percentDecode text
  | c :: text => ofChar c :: percentDecode text

/-- A character that is not escaped reads as itself. -/
theorem percentDecode_cons {c : Char} (hc : c ≠ '%') (text : List Char) :
    percentDecode (c :: text) = ofChar c :: percentDecode text := by
  rw [percentDecode]
  intro a b text' h
  exact absurd h hc

variable {keep}

/-- An encoded octet reads back. -/
theorem percentDecode_octet (hkeep : keep '%' = false) (octet : UInt8) (text : List Char) :
    percentDecode (percentEncodeOctet keep octet ++ text) = octet :: percentDecode text := by
  unfold percentEncodeOctet
  by_cases h : keep (toChar octet) = true
  · -- copied: the character is not `%`
    have hne : toChar octet ≠ '%' := by
      intro heq
      rw [heq, hkeep] at h
      cases h
    rw [if_pos h, singleton_append, percentDecode_cons hne, ofChar_toChar]
  · rw [if_neg h]
    show percentDecode ('%' :: _ :: _ :: text) = _
    rw [percentDecode, hexValue_upperDigit _ (high_lt octet), hexValue_upperDigit _ (low_lt octet)]
    dsimp only
    rw [ofNat_digits]

/-- What was encoded is read back, whatever text follows. -/
theorem percentDecode_append (hkeep : keep '%' = false) (octets : List UInt8)
    (text : List Char) :
    percentDecode (percentEncode keep octets ++ text) = octets ++ percentDecode text := by
  induction octets with
  | nil => rfl
  | cons octet octets ih =>
    show percentDecode ((percentEncodeOctet keep octet ++ percentEncode keep octets) ++ text) = _
    rw [append_assoc, percentDecode_octet hkeep, ih]
    rfl

/-- Encoded octets read back where the escape character is always escaped. -/
theorem percentDecode_percentEncode (hkeep : keep '%' = false) (octets : List UInt8) :
    percentDecode (percentEncode keep octets) = octets := by
  have h := percentDecode_append hkeep octets []
  rwa [append_nil, percentDecode, append_nil] at h

/-- A percent-encoded text consists of kept characters, percent signs and digits. -/
theorem forall_mem_percentEncode (hkeep : ∀ c, keep c = true → P c) (hpercent : P '%')
    (hdigit : ∀ n < 16, P (upperDigit n)) (octets : List UInt8) :
    ∀ c ∈ percentEncode keep octets, P c := by
  intro c hc
  obtain ⟨octet, -, hc⟩ := mem_flatMap.mp hc
  unfold percentEncodeOctet at hc
  split_ifs at hc with h
  · rw [mem_singleton.mp hc]
    exact hkeep _ h
  · simp only [mem_cons, not_mem_nil, or_false] at hc
    rcases hc with rfl | rfl | rfl
    · exact hpercent
    · exact hdigit _ (high_lt octet)
    · exact hdigit _ (low_lt octet)

end Percent

/-! ### Hexadecimal text -/

def hexEncode (octets : List UInt8) : List Char :=
  octets.flatMap fun octet => [lowerDigit (octet.toNat / 16), lowerDigit (octet.toNat % 16)]

/-- Pairs of digits, and nothing else. -/
def hexDecode : List Char → Option (List UInt8)
  | [] => some []
  | [_] => none
  | a :: b :: text => do
    let high ← hexValue a
    let low ← hexValue b
    let octets ← hexDecode text
    return UInt8.ofNat (high * 16 + low) :: octets

/-- Octets in hexadecimal read back. -/
theorem hexDecode_hexEncode (octets : List UInt8) :
    hexDecode (hexEncode octets) = some octets := by
  induction octets with
  | nil => rfl
  | cons octet octets ih =>
    show hexDecode (lowerDigit _ :: lowerDigit _ :: hexEncode octets) = _
    rw [hexDecode, hexValue_lowerDigit _ (high_lt octet), hexValue_lowerDigit _ (low_lt octet), ih]
    show some (UInt8.ofNat _ :: octets) = _
    rw [ofNat_digits]

/-- The text of octets in hexadecimal has digits only. -/
theorem forall_mem_hexEncode (hdigit : ∀ n < 16, P (lowerDigit n)) (octets : List UInt8) :
    ∀ c ∈ hexEncode octets, P c := by
  intro c hc
  obtain ⟨octet, -, hc⟩ := mem_flatMap.mp hc
  simp only [mem_cons, not_mem_nil, or_false] at hc
  rcases hc with rfl | rfl
  · exact hdigit _ (high_lt octet)
  · exact hdigit _ (low_lt octet)

/-! ### Splitting at a separator -/

section Segments

variable {α : Type*} [DecidableEq α] {separator : α}

variable (separator) in
/-- The parts between separators. A separator at the end closes the last part and opens no
new one. -/
def segments : List α → List (List α)
  | [] => []
  | c :: text =>
    if c = separator then [] :: segments text
    else
      match segments text with
      | [] => [[c]]
      | part :: parts => (c :: part) :: parts

/-- The segments of a text behind a separator. -/
theorem segments_append_cons {part : List α} (h : separator ∉ part) (text : List α) :
    segments separator (part ++ separator :: text) = part :: segments separator text := by
  induction part with
  | nil => exact if_pos rfl
  | cons c part ih =>
    obtain ⟨hc, hpart⟩ := not_or.mp (fun h' => h (mem_cons.mpr h'))
    rw [cons_append, segments, if_neg (fun h' => hc h'.symm), ih hpart]

/-- A text without a separator is one segment. -/
theorem segments_eq_singleton {part : List α} (h : separator ∉ part) (hne : part ≠ []) :
    segments separator part = [part] := by
  induction part with
  | nil => exact absurd rfl hne
  | cons c part ih =>
    obtain ⟨hc, hpart⟩ := not_or.mp (fun h' => h (mem_cons.mpr h'))
    rw [segments, if_neg (fun h' => hc h'.symm)]
    match part with
    | [] => rfl
    | c' :: part => rw [ih hpart (cons_ne_nil _ _)]

end Segments

end PercentCode
