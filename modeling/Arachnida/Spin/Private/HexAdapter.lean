import Arachnida.Acari.NameCase
import Arachnida.Acari.UrlEncode

/-!
Reading chunk sizes: `HexAdapter`, in `lib/Spin/Private/Grammar.h`.

* `dehex`: digits are looked up in a table of 22 characters, and the capitals at its end are moved
  back by six.
* `numeral`: the value of a string of digits; `misread`: the value that `dehex` has for it.
* `dehex_iff`: **a size is read as its value exactly if there is no `A` in it**: the table is not
  corrected where the capitals begin.
-/

namespace Arachnida.Spin.Private

open Library Acari

/-! ### The code -/

/-- `charset`. -/
def charset : Bytes := bytes "0123456789abcdefABCDEF"

/-- The text of the `std::runtime_error` that `dehex` throws. -/
def invalidHex : Bytes := bytes "Invalid hex character"

/-- The digit that a character stands for. -/
def dehexDigit (curr : Byte) : Except Bytes ℕ :=
  let where_ := charset.idxOf curr
  if where_ = charset.length then .error invalidHex
  else if 16 < where_ then .ok (where_ - 6)
  else .ok where_

/-- One turn of the loop of `dehex`, in a `std::size_t` of 64 bits. -/
def dehexPass (retval : ℕ) (curr : Byte) : Except Bytes ℕ := do
  let digit ← dehexDigit curr
  return (retval * 16 % 2 ^ 64 + digit) % 2 ^ 64

/-- `HexAdapter::dehex`. -/
def dehex (s : Bytes) : Except Bytes ℕ := s.foldlM dehexPass 0

/-- A `HexAdapter`: the size that `p_` points to, if it points to one, and `s_`. -/
structure HexAdapter where
  p_ : Option ℕ
  s_ : Bytes
  deriving DecidableEq, Repr

namespace HexAdapter

/-- Constructed from a size. -/
def ofSize (s : ℕ) : HexAdapter := ⟨some s, []⟩

/-- Constructed from what was read. -/
def ofRange (s : Bytes) : HexAdapter := ⟨none, s⟩

/-- `operator=`, for another object: what is on the left afterwards. -/
def assign (lhs rhs : HexAdapter) : Except Bytes HexAdapter :=
  match lhs.p_, rhs.p_ with
  | some _, none => (dehex rhs.s_).map fun size => { lhs with p_ := some size }
  | _, _ => .ok rhs

end HexAdapter

/-! ### Numerals -/

/-- A string of hexadecimal digits. -/
def IsHex (s : Bytes) : Prop := ∀ c ∈ s, isxdigit c = true

instance (s : Bytes) : Decidable (IsHex s) := inferInstanceAs (Decidable (∀ c ∈ s, _))

/-- The value of a string of hexadecimal digits. -/
def numeral (s : Bytes) : ℕ := s.foldl (fun v c => v * 16 + hexValue c) 0

/-- The value that the table has for a digit. -/
def tableValue (c : Byte) : ℕ := if c = 65 then 16 else hexValue c

/-- The value of a string of digits by the table. -/
def misread (s : Bytes) : ℕ := s.foldl (fun v c => v * 16 + tableValue c) 0

@[simp] lemma numeral_append_singleton (s : Bytes) (c : Byte) :
    numeral (s ++ [c]) = numeral s * 16 + hexValue c := by
  simp [numeral]

@[simp] lemma misread_append_singleton (s : Bytes) (c : Byte) :
    misread (s ++ [c]) = misread s * 16 + tableValue c := by
  simp [misread]

/-- What the table makes of each character. -/
lemma dehexDigit_eq (c : Byte) :
    dehexDigit c = if isxdigit c = true then .ok (tableValue c) else .error invalidHex := by
  have hall : ∀ n < 256, dehexDigit (UInt8.ofNat n)
      = if isxdigit (UInt8.ofNat n) = true then .ok (tableValue (UInt8.ofNat n))
        else .error invalidHex := by decide +kernel
  have hc := hall c.toNat c.toNat_lt
  rwa [UInt8.ofNat_toNat] at hc

/-- A digit is at most as far off as the number of the digit itself. -/
lemma hexValue_le_tableValue (c : Byte) :
    hexValue c ≤ tableValue c ∧ tableValue c ≤ 2 * hexValue c ∧
      (tableValue c = hexValue c ↔ c ≠ 65) := by
  by_cases hc : c = 65
  · subst hc
    decide
  · rw [tableValue, if_neg hc]
    exact ⟨le_rfl, by omega, by simp [hc]⟩

/-- The value by the table is the value exactly if there is no `A`. -/
lemma misread_eq_iff (s : Bytes) :
    numeral s ≤ misread s ∧ misread s ≤ 2 * numeral s ∧ (misread s = numeral s ↔ 65 ∉ s) := by
  induction s using List.reverseRecOn with
  | nil => simp [numeral, misread]
  | append_singleton s c ih =>
      obtain ⟨hle, hdouble, heq⟩ := ih
      obtain ⟨hc, hc2, hceq⟩ := hexValue_le_tableValue c
      have hmem : 65 ∉ s ++ [c] ↔ misread s = numeral s ∧ tableValue c = hexValue c := by
        rw [heq, hceq, List.mem_append, List.mem_singleton, not_or, ne_comm]
      rw [hmem, misread_append_singleton, numeral_append_singleton]
      exact ⟨by omega, by omega, by omega⟩

/-! ### Reading -/

/-- The loop from a value on. -/
lemma foldlM_dehexPass {s : Bytes} (hs : IsHex s) (v : ℕ) : s.foldlM dehexPass (v % 2 ^ 64)
    = .ok (s.foldl (fun v c => v * 16 + tableValue c) v % 2 ^ 64) := by
  induction s generalizing v with
  | nil => rfl
  | cons c s ih =>
      have hpass : dehexPass (v % 2 ^ 64) c = .ok ((v * 16 + tableValue c) % 2 ^ 64) := by
        rw [dehexPass, dehexDigit_eq, if_pos (hs c (by simp))]
        change Except.ok _ = _
        rw [Nat.mod_add_mod, Nat.add_mod, Nat.mul_mod, Nat.mod_mod, ← Nat.mul_mod, ← Nat.add_mod]
      rw [List.foldlM_cons, hpass, List.foldl_cons]
      exact ih (fun d hd => hs d (by simp [hd])) _

/-- **Digits are read by the table.** -/
theorem dehex_eq {s : Bytes} (hs : IsHex s) : dehex s = .ok (misread s % 2 ^ 64) :=
  foldlM_dehexPass hs 0

/-- **Other characters are not read.** -/
theorem dehex_error {s : Bytes} (hs : ¬ IsHex s) : dehex s = .error invalidHex := by
  suffices key : ∀ v, s.foldlM dehexPass v = .error invalidHex from key 0
  induction s with
  | nil => exact absurd (by simp [IsHex]) hs
  | cons c s ih =>
      intro v
      rw [List.foldlM_cons, dehexPass, dehexDigit_eq]
      by_cases hc : isxdigit c = true
      · rw [if_pos hc]
        refine ih (fun hall => hs fun d hd => ?_) _
        rcases List.mem_cons.mp hd with rfl | hd
        · exact hc
        · exact hall d hd
      · rw [if_neg hc]
        rfl

/-- A size without an `A` is read as its value. -/
theorem dehex_of_not_mem {s : Bytes} (hs : IsHex s) (hA : 65 ∉ s) (hfits : numeral s < 2 ^ 64) :
    dehex s = .ok (numeral s) := by
  rw [dehex_eq hs, (misread_eq_iff s).2.2.mpr hA, Nat.mod_eq_of_lt hfits]

/-! ### The letter case -/

/-- The letter case of a digit is lost to its value. -/
lemma hexValue_eq_of_toLower {c c' : Byte} (hc : isxdigit c = true) (hc' : isxdigit c' = true)
    (h : toLower c = toLower c') : hexValue c = hexValue c' := by
  have hall : ∀ n < 256, isxdigit (UInt8.ofNat n) = true →
      hexValue (toLower (UInt8.ofNat n)) = hexValue (UInt8.ofNat n) := by decide +kernel
  have hlower : ∀ d : Byte, isxdigit d = true → hexValue (toLower d) = hexValue d := by
    intro d hd
    have hbyte := hall d.toNat d.toNat_lt
    rw [UInt8.ofNat_toNat] at hbyte
    exact hbyte hd
  rw [← hlower c hc, h, hlower c' hc']

/-- It is not lost to the table in an `A`. -/
lemma tableValue_eq_iff {c c' : Byte} (h : hexValue c = hexValue c') :
    (tableValue c = tableValue c' ↔ (c = 65 ↔ c' = 65)) ∧
      (tableValue c % 16 = tableValue c' % 16 → tableValue c = tableValue c') := by
  have hA : hexValue 65 = 10 := by decide
  by_cases hc : c = 65 <;> by_cases hc' : c' = 65
  · subst hc hc'
    simp
  · subst hc
    rw [hA] at h
    simp [tableValue, hc', ← h]
  · subst hc'
    rw [hA] at h
    simp [tableValue, hc, h]
  · simp [tableValue, hc, hc', h]

/-- Two spellings have the same value, and are the same for the table exactly if they have `A` at
the same places. -/
lemma misread_spellings {s s' : Bytes} (hs : IsHex s) (hs' : IsHex s') (h : SameLetters s s') :
    numeral s = numeral s' ∧
      (misread s = misread s' ↔ List.Forall₂ (fun c c' => c = 65 ↔ c' = 65) s s') := by
  induction s using List.reverseRecOn generalizing s' with
  | nil =>
      obtain rfl := h.eq_nil_iff.mp rfl
      simp
  | append_singleton s c ih =>
      obtain ⟨s', c', rfl⟩ : ∃ t d, s' = t ++ [d] := by
        refine ⟨s'.dropLast, s'.getLast ?_, (List.dropLast_append_getLast _).symm⟩
        exact fun hnil => by simpa using h.eq_nil_iff.mpr hnil
      have hmap := h
      rw [SameLetters, List.map_append, List.map_append] at hmap
      obtain ⟨hfront, hlast⟩ := List.append_inj' hmap rfl
      have hc := hexValue_eq_of_toLower (hs c (by simp)) (hs' c' (by simp)) (List.cons.inj hlast).1
      obtain ⟨hnumeral, hmisread⟩ := ih (fun d hd => hs d (by simp [hd]))
        (fun d hd => hs' d (by simp [hd])) hfront
      obtain ⟨htable, hmod⟩ := tableValue_eq_iff hc
      have hall : List.Forall₂ (fun c c' => c = 65 ↔ c' = 65) (s ++ [c]) (s' ++ [c'])
          ↔ misread s = misread s' ∧ tableValue c = tableValue c' := by
        rw [hmisread, htable, ← List.forall₂_reverse_iff, List.reverse_concat, List.reverse_concat,
          List.forall₂_cons, List.forall₂_reverse_iff, and_comm]
      rw [hall, misread_append_singleton, misread_append_singleton, numeral_append_singleton,
        numeral_append_singleton, hnumeral, hc]
      refine ⟨rfl, fun heq => ?_, fun heq => by rw [heq.1, heq.2]⟩
      have hdigit := hmod (by omega)
      exact ⟨by omega, hdigit⟩

/-- **A size is read as its value exactly if there is no `A` in it**, and two spellings of a size
are read as the same exactly if they have `A` at the same places; whatever is no digit is rejected
wherever it stands. -/
theorem dehex_iff (s s' : Bytes) :
    (IsHex s → numeral s < 2 ^ 64 → (dehex s = .ok (numeral s) ↔ 65 ∉ s)) ∧
    (IsHex s → IsHex s' → SameLetters s s' → numeral s < 2 ^ 64 →
      (dehex s = dehex s' ↔ List.Forall₂ (fun c c' => c = 65 ↔ c' = 65) s s')) ∧
    (¬ IsHex s → dehex s = .error invalidHex) := by
  refine ⟨fun hs hfits => ?_, fun hs hs' hcase hfits => ?_, fun hs => dehex_error hs⟩
  · obtain ⟨hle, hdouble, heq⟩ := misread_eq_iff s
    rw [dehex_eq hs, ← heq, Except.ok.injEq]
    -- what the table adds is too little to come round to the value again
    omega
  · obtain ⟨hle, hdouble, -⟩ := misread_eq_iff s
    obtain ⟨hle', hdouble', -⟩ := misread_eq_iff s'
    obtain ⟨hnumeral, hmisread⟩ := misread_spellings hs hs' hcase
    rw [dehex_eq hs, dehex_eq hs', ← hmisread, Except.ok.injEq]
    omega

/-- **`A` is read as sixteen.** -/
theorem dehex_misreads : dehex (bytes "A") = .ok 16 ∧ numeral (bytes "A") = 10 ∧
    dehex (bytes "a") = .ok 10 ∧
    ¬ ∀ s, s ≠ [] → IsHex s → numeral s < 2 ^ 64 → dehex s = .ok (numeral s) := by
  refine ⟨by decide, by decide, by decide, fun h => ?_⟩
  have hA := h (bytes "A") (by decide) (by decide) (by decide)
  revert hA
  decide

end Arachnida.Spin.Private
