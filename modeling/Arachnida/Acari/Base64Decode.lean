import Arachnida.Acari.Base64
import Arachnida.Library.Scan

/-!
`Acari::base64decode`, on four characters at a time, and how it goes with `base64encode`.

* `decodeGroups`: the loop and its two tails; `base64decode`: what is left without the `=` signs.
* `value4_accepted`: one character that is not of the alphabet is enough to make the `int` negative.
* `decodeGroups_isSome_iff`: **which strings are accepted**, and `length_decodeGroups`.
* `decodeGroups_base64digits`: **what is encoded is decoded again.**
* `base64digits_decodeGroups`: **what is decoded is encoded again**, but for unused bits.
-/

namespace Arachnida.Acari

open Library

/-- `decode_characters__`; a `char` is signed. -/
def decodeCharacters : List ℤ := [
  -1, -1, -1, -1, -1, -1, -1, -1, -1, -1, -1, -1, -1, -1, -1, -1,
  -1, -1, -1, -1, -1, -1, -1, -1, -1, -1, -1, -1, -1, -1, -1, -1,
  -1, -1, -1, -1, -1, -1, -1, -1, -1, -1, -1, 62, -1, -1, -1, 63,
  52, 53, 54, 55, 56, 57, 58, 59, 60, 61, -1, -1, -1, -1, -1, -1,
  -1,  0,  1,  2,  3,  4,  5,  6,  7,  8,  9, 10, 11, 12, 13, 14,
  15, 16, 17, 18, 19, 20, 21, 22, 23, 24, 25, -1, -1, -1, -1, -1,
  -1, 26, 27, 28, 29, 30, 31, 32, 33, 34, 35, 36, 37, 38, 39, 40,
  41, 42, 43, 44, 45, 46, 47, 48, 49, 50, 51, -1, -1, -1, -1, -1,
  -1, -1, -1, -1, -1, -1, -1, -1, -1, -1, -1, -1, -1, -1, -1, -1,
  -1, -1, -1, -1, -1, -1, -1, -1, -1, -1, -1, -1, -1, -1, -1, -1,
  -1, -1, -1, -1, -1, -1, -1, -1, -1, -1, -1, -1, -1, -1, -1, -1,
  -1, -1, -1, -1, -1, -1, -1, -1, -1, -1, -1, -1, -1, -1, -1, -1,
  -1, -1, -1, -1, -1, -1, -1, -1, -1, -1, -1, -1, -1, -1, -1, -1,
  -1, -1, -1, -1, -1, -1, -1, -1, -1, -1, -1, -1, -1, -1, -1, -1,
  -1, -1, -1, -1, -1, -1, -1, -1, -1, -1, -1, -1, -1, -1, -1, -1,
  -1, -1, -1, -1, -1, -1, -1, -1, -1, -1, -1, -1, -1, -1, -1, -1]

/-- The entry for a character, as an `int`. -/
def decodeCharacter (c : Byte) : BitVec 32 := .ofInt 32 (decodeCharacters.getD c.toNat 0)

/-- `value` for two characters. -/
def value2 (a b : Byte) : BitVec 32 := decodeCharacter a <<< 18 ||| decodeCharacter b <<< 12

/-- `value` for three characters. -/
def value3 (a b c : Byte) : BitVec 32 := value2 a b ||| decodeCharacter c <<< 6

/-- `value` for four characters. -/
def value4 (a b c d : Byte) : BitVec 32 := value3 a b c ||| decodeCharacter d

/-- One of the three bytes of a value. -/
def valueByte (value : BitVec 32) (shift : ℕ) : Byte :=
  UInt8.ofNat ((value &&& ((0xFF : BitVec 32) <<< shift)) >>> shift).toNat

/-- The groups of four characters and the characters that remain; nothing where a value is negative
or one character remains. -/
def decodeGroups : Bytes → Option Bytes
  | a :: b :: c :: d :: data =>
      let value := value4 a b c d
      if value.slt 0#32 then none
      else (decodeGroups data).map ([valueByte value 16, valueByte value 8, valueByte value 0] ++ ·)
  | [a, b, c] =>
      let value := value3 a b c
      if value.slt 0#32 then none else some [valueByte value 16, valueByte value 8]
  | [a, b] =>
      let value := value2 a b
      if value.slt 0#32 then none else some [valueByte value 16]
  | [_] => none
  | [] => some []

/-- What is left without the trailing `=` signs. -/
def stripped (base64_data : Bytes) : Bytes := base64_data.rdropWhile (· == 61)

/-- `Acari::base64decode`. -/
def base64decode (base64_data : Bytes) : Bytes := (decodeGroups (stripped base64_data)).getD []

example : base64decode (bytes "YW55IGNhcm5hbCBwbGVhcw==") = bytes "any carnal pleas" := by
  decide +kernel

/-! ### The two tables -/

/-- The character for a number below 64. -/
def alphabet (n : ℕ) : Byte := base64Characters.getD n 0

lemma base64Character_eq (curr shift : ℕ) :
    base64Character curr shift = alphabet (curr / 2 ^ shift % 64) := by
  have hmask : (0x3F <<< shift) >>> shift = 2 ^ 6 - 1 := Nat.shiftLeft_shiftRight _ _
  rw [base64Character, alphabet, Nat.shiftRight_and_distrib, hmask,
    Nat.and_two_pow_sub_one_eq_mod, Nat.shiftRight_eq_div_pow]

lemma length_base64Characters : base64Characters.length = 64 := by decide +kernel

lemma alphabet_eq {n : ℕ} (hn : n < base64Characters.length) :
    alphabet n = base64Characters[n] := by
  rw [alphabet, List.getD_eq_getElem?_getD, List.getElem?_eq_getElem hn, Option.getD_some]

lemma alphabet_mem {n : ℕ} (hn : n < 64) : alphabet n ∈ base64Characters := by
  rw [← length_base64Characters] at hn
  rw [alphabet_eq hn]
  exact List.getElem_mem hn

lemma exists_alphabet {c : Byte} (h : c ∈ base64Characters) : ∃ n < 64, c = alphabet n := by
  obtain ⟨n, hn, rfl⟩ := List.getElem_of_mem h
  rw [← length_base64Characters]
  exact ⟨n, hn, (alphabet_eq hn).symm⟩

/-- **The tables are inverse to each other.** -/
lemma decodeCharacter_alphabet : ∀ n < 64, decodeCharacter (alphabet n) = BitVec.ofNat 32 n := by
  decide +kernel

lemma ofNat_shiftLeft (n k : ℕ) : BitVec.ofNat 32 n <<< k = BitVec.ofNat 32 (n * 2 ^ k) := by
  apply BitVec.eq_of_toNat_eq
  rw [BitVec.toNat_shiftLeft, BitVec.toNat_ofNat, BitVec.toNat_ofNat, Nat.shiftLeft_eq,
    Nat.mod_mul_mod]

lemma ofNat_not_negative {v : ℕ} (hv : v < 2 ^ 31) : (BitVec.ofNat 32 v).slt 0#32 = false := by
  rw [BitVec.slt_zero_eq_msb, BitVec.msb_eq_false_iff_two_mul_lt, BitVec.toNat_ofNat,
    Nat.mod_eq_of_lt (by omega)]
  omega

/-- The other characters have no entry. -/
lemma decodeCharacter_of_not_mem {c : Byte} (h : c ∉ base64Characters) :
    decodeCharacter c = -1#32 := by
  have hall : ∀ n < 256, decodeCharacter (UInt8.ofNat n) = -1#32 ∨
      (decodeCharacter (UInt8.ofNat n)).toNat < 64 ∧
        alphabet (decodeCharacter (UInt8.ofNat n)).toNat = UInt8.ofNat n := by decide +kernel
  have hc := hall c.toNat c.toNat_lt
  rw [UInt8.ofNat_toNat] at hc
  rcases hc with hnone | ⟨hlt, hentry⟩
  · exact hnone
  · exact absurd (hentry ▸ alphabet_mem hlt) h

/-- An entry, shifted to any place, is negative outside the alphabet. -/
lemma msb_eq_false {c : Byte} {k : ℕ} (hk : k ∈ [0, 6, 12, 18]) :
    (decodeCharacter c <<< k).msb = false ↔ c ∈ base64Characters := by
  by_cases hc : c ∈ base64Characters
  · refine iff_of_true ?_ hc
    obtain ⟨n, hn, rfl⟩ := exists_alphabet hc
    have hle : 2 ^ k ≤ 2 ^ 18 := by
      refine Nat.pow_le_pow_right (by norm_num) ?_
      simp only [List.mem_cons, List.not_mem_nil, or_false] at hk
      omega
    have hlt : n * 2 ^ k < 2 ^ 31 := by
      calc n * 2 ^ k ≤ n * 2 ^ 18 := Nat.mul_le_mul_left n hle
        _ < 2 ^ 31 := by omega
    rw [decodeCharacter_alphabet n hn, ofNat_shiftLeft, ← BitVec.slt_zero_eq_msb]
    exact ofNat_not_negative hlt
  · refine iff_of_false ?_ hc
    have hsign : ∀ k ∈ [0, 6, 12, 18], ((-1#32) <<< k).msb = true := by decide
    rw [decodeCharacter_of_not_mem hc, hsign k hk]
    exact Bool.noConfusion

lemma value2_accepted (a b : Byte) : (value2 a b).slt 0#32 = false ↔
    a ∈ base64Characters ∧ b ∈ base64Characters := by
  rw [BitVec.slt_zero_eq_msb, value2, BitVec.msb_or, Bool.or_eq_false_iff,
    msb_eq_false (by simp), msb_eq_false (by simp)]

lemma value3_accepted (a b c : Byte) : (value3 a b c).slt 0#32 = false ↔
    (a ∈ base64Characters ∧ b ∈ base64Characters) ∧ c ∈ base64Characters := by
  rw [BitVec.slt_zero_eq_msb, value3, BitVec.msb_or, Bool.or_eq_false_iff,
    ← BitVec.slt_zero_eq_msb, value2_accepted, msb_eq_false (by simp)]

/-- **One character that is not of the alphabet makes the value negative**, and nothing else. -/
lemma value4_accepted (a b c d : Byte) : (value4 a b c d).slt 0#32 = false ↔
    ((a ∈ base64Characters ∧ b ∈ base64Characters) ∧ c ∈ base64Characters)
      ∧ d ∈ base64Characters := by
  have hd := msb_eq_false (c := d) (k := 0) (by simp)
  rw [BitVec.shiftLeft_zero] at hd
  rw [BitVec.slt_zero_eq_msb, value4, BitVec.msb_or, Bool.or_eq_false_iff,
    ← BitVec.slt_zero_eq_msb, value3_accepted, hd]

/-! ### The values of characters of the alphabet -/

/-- Bits put below others. -/
lemma ofNat_or {m n i : ℕ} (hn : n < 2 ^ i) (hlt : m * 2 ^ i + n < 2 ^ 32) :
    BitVec.ofNat 32 (m * 2 ^ i) ||| BitVec.ofNat 32 n = BitVec.ofNat 32 (m * 2 ^ i + n) := by
  apply BitVec.eq_of_toNat_eq
  rw [BitVec.toNat_or, BitVec.toNat_ofNat, BitVec.toNat_ofNat, BitVec.toNat_ofNat,
    Nat.mod_eq_of_lt hlt, Nat.mod_eq_of_lt (by omega), Nat.mod_eq_of_lt (by omega),
    ← Nat.shiftLeft_eq, Nat.shiftLeft_add_eq_or_of_lt hn]

section Values

variable {w x y z : ℕ} (hw : w < 64) (hx : x < 64) (hy : y < 64) (hz : z < 64)

include hw hx

lemma value2_alphabet : value2 (alphabet w) (alphabet x)
    = BitVec.ofNat 32 (w * 2 ^ 18 + x * 2 ^ 12) := by
  rw [value2, decodeCharacter_alphabet w hw, decodeCharacter_alphabet x hx, ofNat_shiftLeft,
    ofNat_shiftLeft, ofNat_or (by omega) (by omega)]

include hy

lemma value3_alphabet : value3 (alphabet w) (alphabet x) (alphabet y)
    = BitVec.ofNat 32 (w * 2 ^ 18 + x * 2 ^ 12 + y * 2 ^ 6) := by
  have hsum : w * 2 ^ 18 + x * 2 ^ 12 = (w * 2 ^ 6 + x) * 2 ^ 12 := by omega
  rw [value3, value2_alphabet hw hx, decodeCharacter_alphabet y hy, ofNat_shiftLeft, hsum,
    ofNat_or (by omega) (by omega)]

include hz

lemma value4_alphabet : value4 (alphabet w) (alphabet x) (alphabet y) (alphabet z)
    = BitVec.ofNat 32 (w * 2 ^ 18 + x * 2 ^ 12 + y * 2 ^ 6 + z) := by
  have hsum : w * 2 ^ 18 + x * 2 ^ 12 + y * 2 ^ 6 = (w * 2 ^ 12 + x * 2 ^ 6 + y) * 2 ^ 6 := by omega
  rw [value4, value3_alphabet hw hx hy, decodeCharacter_alphabet z hz, hsum,
    ofNat_or (by omega) (by omega)]

end Values

lemma valueByte_ofNat {v : ℕ} (hv : v < 2 ^ 32) {shift : ℕ} (hs : shift ≤ 16) :
    valueByte (BitVec.ofNat 32 v) shift = UInt8.ofNat (v / 2 ^ shift % 256) := by
  have hmask : ((0xFF : BitVec 32) <<< shift) >>> shift = BitVec.ofNat 32 (2 ^ 8 - 1) := by
    interval_cases shift <;> decide
  rw [valueByte, BitVec.ushiftRight_and_distrib, hmask, BitVec.toNat_and, BitVec.toNat_ushiftRight,
    BitVec.toNat_ofNat, BitVec.toNat_ofNat, Nat.mod_eq_of_lt hv,
    Nat.mod_eq_of_lt (by norm_num : 2 ^ 8 - 1 < 2 ^ 32), Nat.and_two_pow_sub_one_eq_mod,
    Nat.shiftRight_eq_div_pow]

/-! ### Groups as numbers -/

/-- What is encoded, without the `=` signs. -/
def base64digits : Bytes → Bytes
  | a :: b :: c :: data =>
      let curr := a.toNat * 2 ^ 16 + b.toNat * 2 ^ 8 + c.toNat
      alphabet (curr / 2 ^ 18 % 64) :: alphabet (curr / 2 ^ 12 % 64) ::
        alphabet (curr / 2 ^ 6 % 64) :: alphabet (curr % 64) :: base64digits data
  | [a, b] =>
      let curr := a.toNat * 2 ^ 16 + b.toNat * 2 ^ 8
      [alphabet (curr / 2 ^ 18 % 64), alphabet (curr / 2 ^ 12 % 64), alphabet (curr / 2 ^ 6 % 64)]
  | [a] =>
      let curr := a.toNat * 2 ^ 16
      [alphabet (curr / 2 ^ 18 % 64), alphabet (curr / 2 ^ 12 % 64)]
  | [] => []

/-- The `=` signs behind the encoding of so many bytes. -/
def padding (length : ℕ) : Bytes := List.replicate ((3 - length % 3) % 3) 61

lemma curr_two (a b : Byte) :
    a.toNat <<< 16 ||| b.toNat <<< 8 = a.toNat * 2 ^ 16 + b.toNat * 2 ^ 8 := by
  have hb := b.toNat_lt
  rw [← Nat.shiftLeft_add_eq_or_of_lt (by rw [Nat.shiftLeft_eq]; omega), Nat.shiftLeft_eq,
    Nat.shiftLeft_eq]

lemma curr_three (a b c : Byte) : a.toNat <<< 16 ||| b.toNat <<< 8 ||| c.toNat
    = a.toNat * 2 ^ 16 + b.toNat * 2 ^ 8 + c.toNat := by
  have hsum : a.toNat * 2 ^ 16 + b.toNat * 2 ^ 8 = (a.toNat * 2 ^ 8 + b.toNat) <<< 8 := by
    rw [Nat.shiftLeft_eq]
    omega
  rw [curr_two, hsum, ← Nat.shiftLeft_add_eq_or_of_lt c.toNat_lt]

/-- **The encoding is characters of the alphabet and `=` signs behind them.** -/
lemma base64encode_eq (data : Bytes) :
    base64encode data = base64digits data ++ padding data.length := by
  induction data using base64encode.induct with
  | case1 a b c data ih =>
      have hmod : (a :: b :: c :: data).length % 3 = data.length % 3 := by
        rw [List.length_cons, List.length_cons, List.length_cons]
        omega
      rw [base64encode, base64digits, ih, padding, padding, hmod]
      simp only [base64Character_eq, curr_three, pow_zero, Nat.div_one, List.cons_append]
  | case2 a b =>
      rw [base64encode, base64digits]
      simp only [base64Character_eq, curr_two]
      rfl
  | case3 a =>
      rw [base64encode, base64digits]
      simp only [base64Character_eq, Nat.shiftLeft_eq]
      rfl
  | case4 => rfl

lemma base64digits_mem (data : Bytes) : ∀ c ∈ base64digits data, c ∈ base64Characters := by
  have hmem : ∀ n, alphabet (n % 64) ∈ base64Characters :=
    fun n => alphabet_mem (Nat.mod_lt _ (by norm_num))
  induction data using base64digits.induct with
  | case1 a b c data ih =>
      intro x hx
      simp only [base64digits, List.mem_cons] at hx
      rcases hx with rfl | rfl | rfl | rfl | hx
      iterate 4 exact hmem _
      exact ih x hx
  | case2 a b =>
      intro x hx
      simp only [base64digits, List.mem_cons, List.not_mem_nil, or_false] at hx
      rcases hx with rfl | rfl | rfl <;> exact hmem _
  | case3 a =>
      intro x hx
      simp only [base64digits, List.mem_cons, List.not_mem_nil, or_false] at hx
      rcases hx with rfl | rfl <;> exact hmem _
  | case4 => simp [base64digits]

lemma length_base64digits (data : Bytes) :
    (base64digits data).length = (4 * data.length + 2) / 3 := by
  induction data using base64digits.induct with
  | case1 a b c data ih =>
      simp only [base64digits, List.length_cons, ih]
      omega
  | case2 a b => simp [base64digits]
  | case3 a => simp [base64digits]
  | case4 => simp [base64digits]

lemma length_base64encode (data : Bytes) :
    (base64encode data).length = 4 * ((data.length + 2) / 3) := by
  rw [base64encode_eq, List.length_append, length_base64digits, padding, List.length_replicate]
  omega

/-- Characters of the alphabet with `=` signs behind them lose these. -/
lemma stripped_append {b : Bytes} (hb : ∀ c ∈ b, c ∈ base64Characters) (n : ℕ) :
    stripped (b ++ List.replicate n 61) = b := by
  have hne : ∀ c ∈ base64Characters, (c == 61) = false := by decide
  exact rdropWhile_append_stops (by simp) (stops_of_all fun c hc =>
    hne c (hb c (List.mem_reverse.mp hc)))

lemma stripped_base64encode (data : Bytes) : stripped (base64encode data) = base64digits data := by
  rw [base64encode_eq, padding, stripped_append (base64digits_mem data)]

/-! ### What is accepted -/

/-- Induction by groups of four characters. -/
@[elab_as_elim]
lemma fourByFour {P : Bytes → Prop} (four : ∀ a b c d data, P data → P (a :: b :: c :: d :: data))
    (three : ∀ a b c, P [a, b, c]) (two : ∀ a b, P [a, b]) (one : ∀ a, P [a]) (nil : P []) :
    ∀ b, P b
  | [] => nil
  | [a] => one a
  | [a, b] => two a b
  | [a, b, c] => three a b c
  | a :: b :: c :: d :: data => four a b c d data (fourByFour four three two one nil data)

/-- A value that is not negative. -/
lemma isSome_unless {negative : Bool} {d : Option Bytes} :
    (if negative = true then none else d).isSome = true ↔ negative = false ∧ d.isSome = true := by
  cases negative <;> simp

/-- **The strings that are accepted.** -/
theorem decodeGroups_isSome_iff (b : Bytes) : (decodeGroups b).isSome = true ↔
    b.length % 4 ≠ 1 ∧ ∀ c ∈ b, c ∈ base64Characters := by
  induction b using fourByFour with
  | four a b c d data ih =>
      have hlength : (a :: b :: c :: d :: data).length % 4 = data.length % 4 := by
        simp only [List.length_cons]
        omega
      rw [decodeGroups, isSome_unless, value4_accepted, Option.isSome_map, ih, hlength]
      simp only [List.forall_mem_cons]
      tauto
  | three a b c =>
      rw [decodeGroups, isSome_unless, value3_accepted]
      simp [and_assoc]
  | two a b =>
      rw [decodeGroups, isSome_unless, value2_accepted]
      simp
  | one a => simp [decodeGroups]
  | nil => simp [decodeGroups]

/-- How much is decoded. -/
lemma length_decodeGroups {b d : Bytes} (h : decodeGroups b = some d) :
    d.length = 6 * b.length / 8 := by
  induction b using fourByFour generalizing d with
  | four a b c e data ih =>
      rw [decodeGroups] at h
      split at h
      · cases h
      · obtain ⟨rest, hrest, rfl⟩ := Option.map_eq_some_iff.mp h
        simp only [List.length_append, List.length_cons, List.length_nil, ih hrest]
        omega
  | three a b c =>
      rw [decodeGroups] at h
      split at h <;> cases h
      simp
  | two a b =>
      rw [decodeGroups] at h
      split at h <;> cases h
      simp
  | one a => cases h
  | nil =>
      cases h
      simp

/-! ### The round trips -/

section Groups

variable {w x y z : ℕ} (hw : w < 64) (hx : x < 64) (hy : y < 64) (hz : z < 64)

include hw hx

lemma decodeGroups_two : decodeGroups [alphabet w, alphabet x]
    = some [UInt8.ofNat (w * 4 + x / 16)] := by
  have hbyte : (w * 2 ^ 18 + x * 2 ^ 12) / 2 ^ 16 % 256 = w * 4 + x / 16 := by omega
  rw [decodeGroups]
  simp only [value2_alphabet hw hx, ofNat_not_negative (v := w * 2 ^ 18 + x * 2 ^ 12) (by omega),
    valueByte_ofNat (v := w * 2 ^ 18 + x * 2 ^ 12) (by omega) le_rfl, hbyte]
  rfl

include hy

lemma decodeGroups_three : decodeGroups [alphabet w, alphabet x, alphabet y]
    = some [UInt8.ofNat (w * 4 + x / 16), UInt8.ofNat (x % 16 * 16 + y / 4)] := by
  obtain ⟨v, hv⟩ : ∃ v, v = w * 2 ^ 18 + x * 2 ^ 12 + y * 2 ^ 6 := ⟨_, rfl⟩
  have hlt : v < 2 ^ 31 := by omega
  have hfirst : v / 2 ^ 16 % 256 = w * 4 + x / 16 := by omega
  have hsecond : v / 2 ^ 8 % 256 = x % 16 * 16 + y / 4 := by omega
  rw [decodeGroups]
  simp only [value3_alphabet hw hx hy, ← hv, ofNat_not_negative hlt,
    valueByte_ofNat (v := v) (by omega) (by norm_num : 16 ≤ 16),
    valueByte_ofNat (v := v) (by omega) (by norm_num : 8 ≤ 16), hfirst, hsecond]
  rfl

include hz

lemma decodeGroups_four (data : Bytes) :
    decodeGroups (alphabet w :: alphabet x :: alphabet y :: alphabet z :: data)
      = (decodeGroups data).map ([UInt8.ofNat (w * 4 + x / 16), UInt8.ofNat (x % 16 * 16 + y / 4),
        UInt8.ofNat (y % 4 * 64 + z)] ++ ·) := by
  obtain ⟨v, hv⟩ : ∃ v, v = w * 2 ^ 18 + x * 2 ^ 12 + y * 2 ^ 6 + z := ⟨_, rfl⟩
  have hlt : v < 2 ^ 31 := by omega
  have hfirst : v / 2 ^ 16 % 256 = w * 4 + x / 16 := by omega
  have hsecond : v / 2 ^ 8 % 256 = x % 16 * 16 + y / 4 := by omega
  have hthird : v / 2 ^ 0 % 256 = y % 4 * 64 + z := by omega
  rw [decodeGroups]
  simp only [value4_alphabet hw hx hy hz, ← hv, ofNat_not_negative hlt,
    valueByte_ofNat (v := v) (by omega) (by norm_num : 16 ≤ 16),
    valueByte_ofNat (v := v) (by omega) (by norm_num : 8 ≤ 16),
    valueByte_ofNat (v := v) (by omega) (by norm_num : 0 ≤ 16), hfirst, hsecond, hthird]
  rfl

end Groups

/-- A byte from its value. -/
lemma ofNat_eq {a : Byte} {n : ℕ} (h : n = a.toNat) : UInt8.ofNat n = a := by
  rw [h, UInt8.ofNat_toNat]

/-- **What is encoded is decoded again.** -/
theorem decodeGroups_base64digits (data : Bytes) :
    decodeGroups (base64digits data) = some data := by
  have hmod : ∀ n, n % 64 < 64 := fun n => Nat.mod_lt _ (by norm_num)
  induction data using base64digits.induct with
  | case1 a b c data ih =>
      have ha := a.toNat_lt
      have hb := b.toNat_lt
      have hc := c.toNat_lt
      rw [base64digits]
      simp only [decodeGroups_four (hmod _) (hmod _) (hmod _) (hmod _), ih, Option.map_some,
        List.cons_append, List.nil_append]
      rw [ofNat_eq (a := a) (by omega), ofNat_eq (a := b) (by omega), ofNat_eq (a := c) (by omega)]
  | case2 a b =>
      have ha := a.toNat_lt
      have hb := b.toNat_lt
      rw [base64digits]
      simp only [decodeGroups_three (hmod _) (hmod _) (hmod _)]
      rw [ofNat_eq (a := a) (by omega), ofNat_eq (a := b) (by omega)]
  | case3 a =>
      have ha := a.toNat_lt
      rw [base64digits]
      simp only [decodeGroups_two (hmod _) (hmod _)]
      rw [ofNat_eq (a := a) (by omega)]
  | case4 => rfl

/-- A character with its low bits cleared. -/
def clearLow (bits : ℕ) (c : Byte) : Byte :=
  alphabet (base64Characters.idxOf c / 2 ^ bits * 2 ^ bits)

/-- A string with the bits of its last character cleared that no byte takes: four if two characters
remain behind the groups of four, two if three remain. -/
def clearUnused : Bytes → Bytes
  | a :: b :: c :: d :: data => a :: b :: c :: d :: clearUnused data
  | [a, b, c] => [a, b, clearLow 2 c]
  | [a, b] => [a, clearLow 4 b]
  | b => b

/-- No character is twice in the alphabet, since each has one entry in the other table. -/
lemma nodup_base64Characters : base64Characters.Nodup := by
  rw [List.nodup_iff_injective_getElem]
  intro i j h
  have hi := i.2.trans_eq length_base64Characters
  have hj := j.2.trans_eq length_base64Characters
  have hentry : BitVec.ofNat 32 i = BitVec.ofNat 32 j := by
    rw [← decodeCharacter_alphabet i hi, ← decodeCharacter_alphabet j hj, alphabet_eq i.2,
      alphabet_eq j.2]
    exact congrArg decodeCharacter h
  have hvalue := congrArg BitVec.toNat hentry
  rw [BitVec.toNat_ofNat, BitVec.toNat_ofNat, Nat.mod_eq_of_lt (by omega),
    Nat.mod_eq_of_lt (by omega)] at hvalue
  exact Fin.ext hvalue

lemma idxOf_alphabet (n : ℕ) (hn : n < 64) : base64Characters.idxOf (alphabet n) = n := by
  rw [← length_base64Characters] at hn
  rw [alphabet_eq hn]
  exact nodup_base64Characters.idxOf_getElem n hn

/-- **What is decoded is encoded again**, but for the bits that no byte takes. -/
theorem base64digits_decodeGroups {b d : Bytes} (h : decodeGroups b = some d) :
    base64digits d = clearUnused b := by
  obtain ⟨-, hb⟩ := (decodeGroups_isSome_iff b).mp (by rw [h]; rfl)
  induction b using fourByFour generalizing d with
  | four a b c e data ih =>
      simp only [List.forall_mem_cons] at hb
      obtain ⟨ha, hb, hc, he, hdata⟩ := hb
      obtain ⟨w, hw, rfl⟩ := exists_alphabet ha
      obtain ⟨x, hx, rfl⟩ := exists_alphabet hb
      obtain ⟨y, hy, rfl⟩ := exists_alphabet hc
      obtain ⟨z, hz, rfl⟩ := exists_alphabet he
      rw [decodeGroups_four hw hx hy hz, Option.map_eq_some_iff] at h
      obtain ⟨rest, hrest, rfl⟩ := h
      rw [clearUnused, List.cons_append, List.cons_append, List.cons_append, List.nil_append,
        base64digits, ih hrest hdata]
      simp only [UInt8.toNat_ofNat']
      congr <;> omega
  | three a b c =>
      simp only [List.forall_mem_cons] at hb
      obtain ⟨ha, hb, hc, -⟩ := hb
      obtain ⟨w, hw, rfl⟩ := exists_alphabet ha
      obtain ⟨x, hx, rfl⟩ := exists_alphabet hb
      obtain ⟨y, hy, rfl⟩ := exists_alphabet hc
      obtain rfl := Option.some.inj ((decodeGroups_three hw hx hy).symm.trans h)
      rw [clearUnused, base64digits, clearLow, idxOf_alphabet y hy]
      simp only [UInt8.toNat_ofNat']
      congr <;> omega
  | two a b =>
      simp only [List.forall_mem_cons] at hb
      obtain ⟨ha, hb, -⟩ := hb
      obtain ⟨w, hw, rfl⟩ := exists_alphabet ha
      obtain ⟨x, hx, rfl⟩ := exists_alphabet hb
      obtain rfl := Option.some.inj ((decodeGroups_two hw hx).symm.trans h)
      rw [clearUnused, base64digits, clearLow, idxOf_alphabet x hx]
      simp only [UInt8.toNat_ofNat']
      congr <;> omega
  | one a => cases h
  | nil =>
      cases h
      rfl

end Arachnida.Acari
