import Arachnida.Acari.ParsingHelpers

/-!
`Acari::base64encode`, on three bytes at a time.

The buffer that the code fills from the left is here built from the left, and the `=` signs that
it is initialised with are appended where they are not overwritten.
-/

namespace Arachnida.Acari

open Library

/-- `base64_characters__`. -/
def base64Characters : Bytes :=
  bytes "ABCDEFGHIJKLMNOPQRSTUVWXYZabcdefghijklmnopqrstuvwxyz0123456789+/"

/-- The character for one of the four groups of six bits. -/
def base64Character (curr shift : ℕ) : Byte :=
  base64Characters.getD ((curr &&& (0x3F <<< shift)) >>> shift) 0

/-- `Acari::base64encode`. -/
def base64encode : Bytes → Bytes
  | a :: b :: c :: data =>
      let curr := a.toNat <<< 16 ||| b.toNat <<< 8 ||| c.toNat
      base64Character curr 18 :: base64Character curr 12 :: base64Character curr 6 ::
        base64Character curr 0 :: base64encode data
  | [a, b] =>
      let curr := a.toNat <<< 16 ||| b.toNat <<< 8
      [base64Character curr 18, base64Character curr 12, base64Character curr 6, 61]
  | [a] =>
      let curr := a.toNat <<< 16
      [base64Character curr 18, base64Character curr 12, 61, 61]
  | [] => []

example : base64encode (bytes "any carnal pleas") = bytes "YW55IGNhcm5hbCBwbGVhcw==" := by decide

/-- No character of the encoding is white space. -/
lemma base64Character_not_space (curr shift : ℕ) :
    isIgnorableWhiteSpace (base64Character curr shift) = false := by
  have hall : ∀ c ∈ base64Characters, isIgnorableWhiteSpace c = false := by decide
  rw [base64Character, List.getD_eq_getElem?_getD]
  cases h : base64Characters[(curr &&& (0x3F <<< shift)) >>> shift]? with
  | none => rfl
  | some c => exact hall c (List.mem_of_getElem? h)

lemma base64encode_not_space (data : Bytes) :
    ∀ c ∈ base64encode data, isIgnorableWhiteSpace c = false := by
  induction data using base64encode.induct with
  | case1 a b c data ih =>
      intro x hx
      simp only [base64encode, List.mem_cons] at hx
      rcases hx with rfl | rfl | rfl | rfl | hx
      iterate 4 exact base64Character_not_space _ _
      exact ih x hx
  | case2 a b =>
      intro x hx
      simp only [base64encode, List.mem_cons, List.not_mem_nil, or_false] at hx
      rcases hx with rfl | rfl | rfl | rfl
      iterate 3 exact base64Character_not_space _ _
      rfl
  | case3 a =>
      intro x hx
      simp only [base64encode, List.mem_cons, List.not_mem_nil, or_false] at hx
      rcases hx with rfl | rfl | rfl | rfl
      iterate 2 exact base64Character_not_space _ _
      all_goals rfl
  | case4 => simp [base64encode]

lemma base64encode_ne_nil {data : Bytes} (h : data ≠ []) : base64encode data ≠ [] := by
  match data with
  | a :: b :: c :: data => simp [base64encode]
  | [a, b] => simp [base64encode]
  | [a] => simp [base64encode]
  | [] => exact absurd rfl h

end Arachnida.Acari
