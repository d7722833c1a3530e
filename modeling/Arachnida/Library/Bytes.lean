import Mathlib.Tactic

/-!
Byte strings and the decimal numerals in them.

* `Byte`, `Bytes`: a `char` and a `std::string` or `std::vector< char >`; `bytes` is a literal.
* `decimal`: a natural number printed in decimal, without leading zeros; `signedDecimal` is an
  integer.
* `lexicalCast`: a byte string read back as an unsigned integer of a given width, the way
  `boost::lexical_cast` does it: an optional sign, then digits only, and a value that fits.
* `lexicalCast_digits`: a string of digits is read as its value exactly when that value fits;
  `lexicalCast_decimal`: the round trip.
-/

namespace Library

/-- A byte. -/
abbrev Byte := UInt8

/-- A byte string. -/
abbrev Bytes := List Byte

/-- A property of the bytes of a string is decided byte by byte, not on all the 256 bytes. -/
instance decidableForallByte (P : Byte → Prop) [DecidablePred P] (l : Bytes) :
    Decidable (∀ c ∈ l, P c) := List.decidableBAll P l

/-- The bytes of a literal. -/
def bytes (s : String) : Bytes := s.toList.map fun c => UInt8.ofNat c.toNat

/-! ### Decimal numerals -/

/-- The characters `0` to `9`. -/
def isDigit (c : Byte) : Bool := 48 ≤ c && c ≤ 57

/-- The value of a string of digits. -/
def decimalValue (ds : Bytes) : ℕ := ds.foldl (fun v c => v * 10 + (c.toNat - 48)) 0

/-- A number in decimal. -/
def decimal (n : ℕ) : Bytes := (Nat.toDigits 10 n).map fun c => UInt8.ofNat c.toNat

/-- An integer in decimal, with a minus sign if it is negative. -/
def signedDecimal (z : ℤ) : Bytes :=
  if z < 0 then 45 :: decimal z.natAbs else decimal z.natAbs

/-- A non-empty string of digits. -/
def IsNumeral (ds : Bytes) : Prop := ds ≠ [] ∧ ∀ c ∈ ds, isDigit c = true

instance (ds : Bytes) : Decidable (IsNumeral ds) := inferInstanceAs (Decidable (_ ∧ _))

/-- Digits read as an unsigned integer of the given width. -/
def unsignedDigits (bits : ℕ) (ds : Bytes) : Option ℕ :=
  if IsNumeral ds ∧ decimalValue ds < 2 ^ bits then some (decimalValue ds) else none

/-- `boost::lexical_cast` to an unsigned integer of the given width; `none` is
`bad_lexical_cast`.  A minus sign is accepted and the value wraps. -/
def lexicalCast (bits : ℕ) : Bytes → Option ℕ
  | 43 :: ds => unsignedDigits bits ds
  | 45 :: ds => (unsignedDigits bits ds).map fun v => (2 ^ bits - v) % 2 ^ bits
  | ds => unsignedDigits bits ds

lemma decimalValue_append_singleton (ds : Bytes) (c : Byte) :
    decimalValue (ds ++ [c]) = decimalValue ds * 10 + (c.toNat - 48) := by
  simp [decimalValue]

/-- The last digit of a number, printed and read. -/
lemma digitChar_toByte : ∀ d < 10, isDigit (UInt8.ofNat d.digitChar.toNat) = true ∧
    (UInt8.ofNat d.digitChar.toNat).toNat - 48 = d := by decide

/-- A numeral for `n` is a string of digits with value `n`. -/
lemma decimal_spec (n : ℕ) : IsNumeral (decimal n) ∧ decimalValue (decimal n) = n := by
  induction n using Nat.strong_induction_on with
  | _ n ih =>
      by_cases h : n < 10
      · obtain ⟨hd, hv⟩ := digitChar_toByte n h
        have hone : decimal n = [UInt8.ofNat n.digitChar.toNat] := by
          rw [decimal, Nat.toDigits_of_lt_base h]; rfl
        rw [hone]
        exact ⟨⟨by simp, fun c hc => by rwa [List.mem_singleton.mp hc]⟩,
          (Nat.zero_add _).trans hv⟩
      · obtain ⟨⟨_, hd⟩, hv⟩ := ih (n / 10) (by omega)
        obtain ⟨hd', hv'⟩ := digitChar_toByte (n % 10) (by omega)
        have hsplit : decimal n
            = decimal (n / 10) ++ [UInt8.ofNat (Nat.digitChar (n % 10)).toNat] := by
          rw [decimal, Nat.toDigits_of_base_le (by omega) (by omega), List.map_append]
          rfl
        rw [hsplit, decimalValue_append_singleton, hv, hv']
        refine ⟨⟨by simp, fun c hc => ?_⟩, by omega⟩
        rcases List.mem_append.mp hc with hc | hc
        · exact hd c hc
        · rwa [List.mem_singleton.mp hc]

lemma isNumeral_decimal (n : ℕ) : IsNumeral (decimal n) := (decimal_spec n).1

@[simp] lemma decimalValue_decimal (n : ℕ) : decimalValue (decimal n) = n := (decimal_spec n).2

/-- A string of digits is read as its value if the value fits, and rejected otherwise. -/
lemma lexicalCast_digits {bits : ℕ} {ds : Bytes} (h : IsNumeral ds) :
    lexicalCast bits ds = if decimalValue ds < 2 ^ bits then some (decimalValue ds) else none := by
  have hu : unsignedDigits bits ds
      = if decimalValue ds < 2 ^ bits then some (decimalValue ds) else none := by
    simp [unsignedDigits, h]
  rw [← hu, lexicalCast.eq_def]
  split
  · exact absurd (h.2 43 (by simp)) (by decide)
  · exact absurd (h.2 45 (by simp)) (by decide)
  · rfl

/-- What is printed is read back. -/
theorem lexicalCast_decimal {bits n : ℕ} (h : n < 2 ^ bits) :
    lexicalCast bits (decimal n) = some n := by
  rw [lexicalCast_digits (isNumeral_decimal n), decimalValue_decimal, if_pos h]

example : lexicalCast 32 (bytes "-1") = some 4294967295 := by decide

end Library
