import Arachnida.Acari.Base64Decode
import Arachnida.Library.Cursor
import Arachnida.Library.Loop

/-!
The loops of `base64encode` and `base64decode` (`lib/Acari/base64encode.cpp`) as the code has them:
positions are `unsigned int`, lengths are `size_t`, and the output is a buffer made up front.

* `encodePass`, `decodePass`: one turn of either loop, with its condition, or what comes behind it;
  an access outside a buffer leaves no result.
* `encodes`, `decodes`: **the loops do what is done in groups**, as long as no position wraps.
* `Decodes.length_le`: how much can be decoded at all.
* `base64_round_trip`: **what is encoded is decoded again**; `base64decode_language`: **what is
  decoded at all, and what it is encoded to.**
-/

namespace Arachnida.Acari

open Library Cursor

/-! ### The loops -/

/-- The variables of `base64encode`: `pos`, and `base64_buffer` with `dest_pos`. -/
structure EncodeState where
  pos : UInt32
  dest : Cursor Byte

/-- `base64_length`. -/
def base64Length (length : ℕ) : ℕ :=
  (length / 3 * 4 + if length % 3 = 0 then 0 else 4) % 2 ^ 64

/-- A group of three bytes. -/
def encodeGroup (data : Bytes) (s : EncodeState) : Option EncodeState := do
  let a ← data[s.pos.toNat]?
  let b ← data[(s.pos + 1).toNat]?
  let c ← data[(s.pos + 2).toNat]?
  let curr := a.toNat <<< 16 ||| b.toNat <<< 8 ||| c.toNat
  let dest ← s.dest.putAll [base64Character curr 18, base64Character curr 12,
    base64Character curr 6, base64Character curr 0]
  pure ⟨s.pos + 3, dest⟩

/-- The remaining bytes. -/
def encodeRest (data : Bytes) (s : EncodeState) : Option Bytes :=
  if s.pos.toNat = data.length then some s.dest.buffer
  else if s.pos.toNat + 2 = data.length then do
    let a ← data[s.pos.toNat]?
    let b ← data[(s.pos + 1).toNat]?
    let curr := a.toNat <<< 16 ||| b.toNat <<< 8
    let dest ← s.dest.putAll [base64Character curr 18, base64Character curr 12,
      base64Character curr 6]
    pure dest.buffer
  else do
    let a ← data[s.pos.toNat]?
    let curr := a.toNat <<< 16
    let dest ← s.dest.putAll [base64Character curr 18, base64Character curr 12]
    pure dest.buffer

/-- A turn of the loop of `base64encode`; `pos + 3` is an `unsigned int` before it is compared. -/
def encodePass (data : Bytes) (s : EncodeState) : EncodeState ⊕ Option Bytes :=
  if (s.pos + 3).toNat ≤ data.length then
    match encodeGroup data s with
    | some s' => .inl s'
    | none => .inr none
  else .inr (encodeRest data s)

/-- `base64encode` returns `t`. -/
def Encodes (data t : Bytes) : Prop :=
  Returns (encodePass data) ⟨0, ⟨List.replicate (base64Length data.length) 61, 0⟩⟩ (some t)

/-- The variables of `base64decode`: `index`, and `decoded_data` with `destination_index`. -/
structure DecodeState where
  index : UInt32
  dest : Cursor Byte

/-- `decode_length`. -/
def decodeLength (length : ℕ) : ℕ :=
  length / 4 * 3 + if length % 4 = 2 then 1 else if length % 4 = 3 then 2 else 0

/-- What a value leads to: `""` if it is negative, and otherwise its bytes in the buffer. -/
def decodeValue {ρ : Type} (value : BitVec 32) (shifts : List ℕ) (dest : Cursor Byte)
    (next : Cursor Byte → ρ ⊕ Option Bytes) : ρ ⊕ Option Bytes :=
  if value.slt 0#32 then .inr (some [])
  else match dest.putAll (shifts.map (valueByte value)) with
    | some dest => next dest
    | none => .inr none

/-- `value` at a position, for a number of characters. -/
def valueAt (base64_data : Bytes) (index : UInt32) (count : ℕ) : Option (BitVec 32) := do
  let a ← base64_data[index.toNat]?
  let b ← base64_data[(index + 1).toNat]?
  if count = 2 then pure (value2 a b) else
    let c ← base64_data[(index + 2).toNat]?
    if count = 3 then pure (value3 a b c) else
      let d ← base64_data[(index + 3).toNat]?
      pure (value4 a b c d)

/-- The remaining characters. -/
def decodeRest (base64_data : Bytes) (length : ℕ) (s : DecodeState) : DecodeState ⊕ Option Bytes :=
  if length % 4 = 2 then
    match valueAt base64_data s.index 2 with
    | some value => decodeValue value [16] s.dest fun dest => .inr (some dest.buffer)
    | none => .inr none
  else if length % 4 = 3 then
    match valueAt base64_data s.index 3 with
    | some value => decodeValue value [16, 8] s.dest fun dest => .inr (some dest.buffer)
    | none => .inr none
  else .inr (some s.dest.buffer)

/-- A turn of the loop of `base64decode`, for a length without the `=` signs. -/
def decodePass (base64_data : Bytes) (length : ℕ) (s : DecodeState) : DecodeState ⊕ Option Bytes :=
  if (s.index + 4).toNat ≤ length then
    match valueAt base64_data s.index 4 with
    | some value => decodeValue value [16, 8, 0] s.dest fun dest => .inl ⟨s.index + 4, dest⟩
    | none => .inr none
  else decodeRest base64_data length s

/-- `base64decode` returns `data`. -/
def Decodes (base64_data data : Bytes) : Prop :=
  let length := (stripped base64_data).length
  if length % 4 = 1 then data = []
  else Returns (decodePass base64_data length) ⟨0, ⟨List.replicate (decodeLength length) 45, 0⟩⟩
    (some data)

/-! ### Encoding -/

/-- The element so far behind the position that a prefix ends at. -/
lemma getElem?_behind {pre : Bytes} {n : ℕ} (hn : pre.length + n < 2 ^ 32) (rest : Bytes) :
    (pre ++ rest)[(UInt32.ofNat pre.length + UInt32.ofNat n).toNat]? = rest[n]? := by
  rw [toNat_ofNat_add_lt hn, List.getElem?_append_right (by omega),
    Nat.add_sub_cancel_left]

/-- The element at the position. -/
lemma getElem?_position {pre : Bytes} (hpre : pre.length < 2 ^ 32) (rest : Bytes) :
    (pre ++ rest)[(UInt32.ofNat pre.length).toNat]? = rest[0]? := by
  rw [toNat_ofNat_lt hpre, List.getElem?_append_right le_rfl, Nat.sub_self]

/-- Elements go over as many that fill the buffer. -/
lemma putAll_filled {done l : Bytes} {n : ℕ} (hl : l.length = n)
    (hdone : done.length + n ≤ 2 ^ 32) (fill : Byte) (left : ℕ) :
    (behind done (List.replicate (n + left) fill)).putAll l
      = some (behind (done ++ l) (List.replicate left fill)) := by
  subst hl
  rw [List.replicate_add]
  exact putAll_behind (List.length_replicate ..) hdone

section Encode

variable {pre done : Bytes} (hpre : pre.length + 3 < 2 ^ 32)

/-- The state of the loop behind some bytes, with so many `=` signs left. -/
def encodeAt (pre done : Bytes) (left : ℕ) : EncodeState :=
  ⟨UInt32.ofNat pre.length, behind done (List.replicate left 61)⟩

include hpre

/-- A turn for three bytes. -/
lemma encodePass_three (hdone : done.length + 4 ≤ 2 ^ 32) (a b c : Byte) (data : Bytes)
    (left : ℕ) : ∃ group, base64encode (a :: b :: c :: data) = group ++ base64encode data ∧
      group.length = 4 ∧ encodePass (pre ++ a :: b :: c :: data) (encodeAt pre done (4 + left))
        = .inl (encodeAt (pre ++ [a, b, c]) (done ++ group) left) := by
  let curr := a.toNat <<< 16 ||| b.toNat <<< 8 ||| c.toNat
  let group := [base64Character curr 18, base64Character curr 12, base64Character curr 6,
    base64Character curr 0]
  refine ⟨group, rfl, rfl, ?_⟩
  have hbehind : (UInt32.ofNat pre.length + 3).toNat = pre.length + 3 :=
    toNat_ofNat_add_lt (k := 3) hpre
  have hcond : (UInt32.ofNat pre.length + 3).toNat ≤ (pre ++ a :: b :: c :: data).length := by
    rw [hbehind]
    simp
  have ha : (pre ++ a :: b :: c :: data)[(UInt32.ofNat pre.length).toNat]? = some a :=
    getElem?_position (by omega) _
  have hb : (pre ++ a :: b :: c :: data)[(UInt32.ofNat pre.length + 1).toNat]? = some b :=
    getElem?_behind (n := 1) (by omega) _
  have hc : (pre ++ a :: b :: c :: data)[(UInt32.ofNat pre.length + 2).toNat]? = some c :=
    getElem?_behind (n := 2) (by omega) _
  have hpos : UInt32.ofNat (pre ++ [a, b, c]).length = UInt32.ofNat pre.length + 3 := by
    rw [List.length_append, UInt32.ofNat_add]
    rfl
  have hgroup : encodeGroup (pre ++ a :: b :: c :: data) (encodeAt pre done (4 + left))
      = some (encodeAt (pre ++ [a, b, c]) (done ++ group) left) := by
    simp only [encodeGroup, encodeAt, ha, hb, hc, Option.bind_eq_bind, Option.bind_some, hpos]
    rw [putAll_filled (n := 4) rfl hdone]
    rfl
  rw [encodePass, encodeAt, if_pos hcond, ← encodeAt, hgroup]

/-- Behind the loop fewer than three bytes are left. -/
lemma encodePass_rest {data : Bytes} (hdata : data.length < 3) (left : ℕ) :
    encodePass (pre ++ data) (encodeAt pre done left)
      = .inr (encodeRest (pre ++ data) (encodeAt pre done left)) := by
  have hcond : ¬ (UInt32.ofNat pre.length + 3).toNat ≤ (pre ++ data).length := by
    have hpos : (UInt32.ofNat pre.length + 3).toNat = pre.length + 3 :=
      toNat_ofNat_add_lt (k := 3) hpre
    rw [hpos, List.length_append]
    omega
  rw [encodePass, encodeAt, if_neg hcond]

/-- What is done with the bytes behind the loop. -/
lemma encodeRest_eq {data : Bytes} (hdata : data.length < 3)
    (hdone : data ≠ [] → done.length + 4 ≤ 2 ^ 32) :
    encodeRest (pre ++ data) (encodeAt pre done (base64encode data).length)
      = some (done ++ base64encode data) := by
  have hpos : (UInt32.ofNat pre.length).toNat = pre.length := toNat_ofNat_lt (by omega)
  match data, hdata with
  | [], _ =>
      rw [encodeRest, if_pos (by simp [encodeAt, hpos])]
      rfl
  | [a], _ =>
      have hroom := hdone (by simp)
      have ha : (pre ++ [a])[(UInt32.ofNat pre.length).toNat]? = some a :=
        getElem?_position (by omega) _
      have hsize : (base64encode [a]).length = 2 + 2 := rfl
      rw [encodeRest, if_neg (by simp [encodeAt, hpos]), if_neg (by simp [encodeAt, hpos]), hsize]
      simp only [encodeAt, ha, Option.bind_eq_bind, Option.bind_some]
      rw [putAll_filled (n := 2) rfl (by omega)]
      simp [behind, base64encode]
  | [a, b], _ =>
      have hroom := hdone (by simp)
      have ha : (pre ++ [a, b])[(UInt32.ofNat pre.length).toNat]? = some a :=
        getElem?_position (by omega) _
      have hb : (pre ++ [a, b])[(UInt32.ofNat pre.length + 1).toNat]? = some b :=
        getElem?_behind (n := 1) (by omega) _
      have hsize : (base64encode [a, b]).length = 3 + 1 := rfl
      rw [encodeRest, if_neg (by simp [encodeAt, hpos]), if_pos (by simp [encodeAt, hpos]), hsize]
      simp only [encodeAt, ha, hb, Option.bind_eq_bind, Option.bind_some]
      rw [putAll_filled (n := 3) rfl (by omega)]
      simp [behind, base64encode]

end Encode

/-- The loop from a position on: what is behind the position is encoded behind what is done. -/
lemma encode_from (data : Bytes) : ∀ pre done : Bytes,
    pre.length + data.length ≤ 3 * 2 ^ 30 → 4 * pre.length = 3 * done.length →
    Returns (encodePass (pre ++ data)) (encodeAt pre done (base64encode data).length)
      (some (done ++ base64encode data)) := by
  have hrest : ∀ data pre done : Bytes, data.length < 3 →
      pre.length + data.length ≤ 3 * 2 ^ 30 → 4 * pre.length = 3 * done.length →
      Returns (encodePass (pre ++ data)) (encodeAt pre done (base64encode data).length)
        (some (done ++ base64encode data)) := by
    intro data pre done hdata hlength hpos
    apply returns_of_inr
    rw [encodePass_rest (by omega) hdata, encodeRest_eq (by omega) hdata fun hne => ?_]
    have hsize := List.length_pos_iff.mpr hne
    omega
  induction data using base64encode.induct with
  | case1 a b c data ih =>
      intro pre done hlength hpos
      simp only [List.length_cons] at hlength
      obtain ⟨group, hcode, hsize, hpass⟩ := @encodePass_three pre done
        (by omega) (by omega) a b c data (base64encode data).length
      rw [hcode, List.length_append, hsize]
      have hnext := ih (pre ++ [a, b, c]) (done ++ group)
        (by simp only [List.length_append, List.length_cons, List.length_nil]; omega)
        (by simp only [List.length_append, List.length_cons, List.length_nil]; omega)
      rw [List.append_assoc, List.append_assoc] at hnext
      exact returns_of_inl hpass hnext
  | case2 a b => exact fun pre done => hrest [a, b] pre done (by simp)
  | case3 a => exact fun pre done => hrest [a] pre done (by simp)
  | case4 => exact fun pre done => hrest [] pre done (by simp)

/-- **The loop of `base64encode` encodes in groups**, as long as no position wraps. -/
theorem encodes {data : Bytes} (h : data.length ≤ 3 * 2 ^ 30) :
    Encodes data (base64encode data) := by
  have hloop := encode_from data [] [] (by simpa using h) rfl
  have hlength : base64Length data.length = (base64encode data).length := by
    rw [base64Length, length_base64encode]
    split <;> omega
  rw [Encodes, hlength]
  exact hloop

/-- `base64encode` returns one thing at most. -/
lemma Encodes.unique {data t t' : Bytes} (h : Encodes data t) (h' : Encodes data t') : t = t' :=
  Option.some.inj (h.deterministic h')

/-! ### Decoding -/

section Decode

variable {pre done : Bytes}

/-- The state of the loop behind some characters, with so much of the buffer left. -/
def decodeAt (pre done : Bytes) (left : ℕ) : DecodeState :=
  ⟨UInt32.ofNat pre.length, behind done (List.replicate left 45)⟩

/-- The characters behind a prefix. -/
lemma valueAt_behind (hpre : pre.length + 4 ≤ 2 ^ 32) (data : Bytes) (count : ℕ) :
    valueAt (pre ++ data) (UInt32.ofNat pre.length) count = valueAt data 0 count := by
  have hb : (pre ++ data)[(UInt32.ofNat pre.length + 1).toNat]? = data[1]? :=
    getElem?_behind (n := 1) (by omega) _
  have hc : (pre ++ data)[(UInt32.ofNat pre.length + 2).toNat]? = data[2]? :=
    getElem?_behind (n := 2) (by omega) _
  have hd : (pre ++ data)[(UInt32.ofNat pre.length + 3).toNat]? = data[3]? :=
    getElem?_behind (n := 3) (by omega) _
  rw [valueAt, getElem?_position (by omega), hb, hc, hd]
  rfl

/-- What a value leads to where there is room for its bytes. -/
lemma decodeValue_behind {ρ : Type} (value : BitVec 32) {shifts : List ℕ} {n : ℕ}
    (hshifts : shifts.length = n) (hdone : done.length + n ≤ 2 ^ 32) (left : ℕ)
    (next : Cursor Byte → ρ ⊕ Option Bytes) :
    decodeValue value shifts (behind done (List.replicate (n + left) 45)) next
      = if value.slt 0#32 = true then .inr (some [])
        else next (behind (done ++ shifts.map (valueByte value)) (List.replicate left 45)) := by
  rw [decodeValue, putAll_filled (by rw [List.length_map, hshifts]) hdone]

/-- What the loop makes of the characters that are left. -/
def decoded (done data : Bytes) : Bytes :=
  match decodeGroups data with
  | some rest => done ++ rest
  | none => []

lemma decodeLength_eq (length : ℕ) : decodeLength length = 6 * length / 8 := by
  rw [decodeLength]
  split_ifs <;> omega

/-- A turn for four characters. -/
lemma decodePass_four (hdone : done.length + 3 ≤ 2 ^ 32) (a b c d : Byte) {data pads : Bytes}
    (hpre : pre.length + (a :: b :: c :: d :: data).length + 4 < 2 ^ 32) (left : ℕ) :
    decodePass (pre ++ (a :: b :: c :: d :: data ++ pads))
        (pre.length + (a :: b :: c :: d :: data).length) (decodeAt pre done (3 + left))
      = if (value4 a b c d).slt 0#32 = true then .inr (some [])
        else .inl (decodeAt (pre ++ [a, b, c, d])
          (done ++ [16, 8, 0].map (valueByte (value4 a b c d))) left) := by
  simp only [List.length_cons] at hpre
  have hcond : (UInt32.ofNat pre.length + 4).toNat
      ≤ pre.length + (a :: b :: c :: d :: data).length := by
    have hpos : (UInt32.ofNat pre.length + 4).toNat = pre.length + 4 :=
      toNat_ofNat_add_lt (k := 4) (by omega)
    rw [hpos]
    simp only [List.length_cons]
    omega
  have hvalue : valueAt (a :: b :: c :: d :: data ++ pads) 0 4 = some (value4 a b c d) := rfl
  have hindex : UInt32.ofNat (pre ++ [a, b, c, d]).length = UInt32.ofNat pre.length + 4 := by
    rw [List.length_append, UInt32.ofNat_add]
    rfl
  rw [decodePass, decodeAt, if_pos hcond]
  have hbehind : ∀ data count, valueAt (pre ++ data) (UInt32.ofNat pre.length) count
      = valueAt data 0 count := valueAt_behind (by omega)
  simp only [hbehind, hvalue]
  rw [decodeValue_behind _ (n := 3) rfl (by omega), decodeAt, hindex]

/-- Behind the loop fewer than four characters are left, and what is done with them. -/
lemma decodePass_rest (hdone : done.length + 2 ≤ 2 ^ 32) {data : Bytes} (pads : Bytes)
    (hpre : pre.length + data.length + 4 < 2 ^ 32) (hmod : pre.length % 4 = 0)
    (hdata : data.length < 4) (hone : data.length % 4 ≠ 1) :
    decodePass (pre ++ (data ++ pads)) (pre.length + data.length)
      (decodeAt pre done (decodeLength data.length)) = .inr (some (decoded done data)) := by
  have hcond : ¬ (UInt32.ofNat pre.length + 4).toNat ≤ pre.length + data.length := by
    have hpos : (UInt32.ofNat pre.length + 4).toNat = pre.length + 4 :=
      toNat_ofNat_add_lt (k := 4) (by omega)
    rw [hpos]
    omega
  have hlength : (pre.length + data.length) % 4 = data.length := by omega
  have hbehind : ∀ data count, valueAt (pre ++ data) (UInt32.ofNat pre.length) count
      = valueAt data 0 count := valueAt_behind (by omega)
  rw [decodePass, decodeAt, if_neg hcond, decodeRest, hlength, decoded]
  match data, hdata with
  | [], _ => simp [behind, decodeLength, decodeGroups]
  | [a], _ => exact absurd rfl hone
  | [a, b], _ =>
      have hvalue : valueAt ([a, b] ++ pads) 0 2 = some (value2 a b) := rfl
      have hleft : decodeLength (0 + 1 + 1) = 1 + 0 := by simp [decodeLength]
      simp only [List.length_cons, List.length_nil, if_true, hleft, hbehind, hvalue]
      rw [decodeValue_behind _ (n := 1) rfl (by omega), decodeGroups]
      cases (value2 a b).slt 0#32 <;> simp [behind]
  | [a, b, c], _ =>
      have hvalue : valueAt ([a, b, c] ++ pads) 0 3 = some (value3 a b c) := rfl
      have hleft : decodeLength (0 + 1 + 1 + 1) = 2 + 0 := by simp [decodeLength]
      simp only [List.length_cons, List.length_nil, if_true, hleft, hbehind, hvalue]
      rw [decodeValue_behind _ (n := 2) rfl (by omega), decodeGroups]
      cases (value3 a b c).slt 0#32 <;> simp [behind]

end Decode

/-- The loop from a position on. -/
lemma decode_from (pads data : Bytes) : ∀ pre done : Bytes,
    pre.length + data.length + 4 < 2 ^ 32 → data.length % 4 ≠ 1 →
    3 * pre.length = 4 * done.length →
    Returns (decodePass (pre ++ (data ++ pads)) (pre.length + data.length))
      (decodeAt pre done (decodeLength data.length)) (some (decoded done data)) := by
  have hrest : ∀ data : Bytes, data.length < 4 → ∀ pre done : Bytes,
      pre.length + data.length + 4 < 2 ^ 32 → data.length % 4 ≠ 1 →
      3 * pre.length = 4 * done.length →
      Returns (decodePass (pre ++ (data ++ pads)) (pre.length + data.length))
        (decodeAt pre done (decodeLength data.length)) (some (decoded done data)) :=
    fun data hdata pre done hlength hone hpos =>
      returns_of_inr (decodePass_rest (by omega) pads hlength (by omega) hdata hone)
  induction data using fourByFour with
  | four a b c d data ih =>
      intro pre done hlength hone hpos
      have hsize : (a :: b :: c :: d :: data).length = data.length + 4 := rfl
      have hleft : decodeLength (a :: b :: c :: d :: data).length
          = 3 + decodeLength data.length := by
        rw [decodeLength_eq, decodeLength_eq, hsize]
        omega
      have hpass := @decodePass_four pre done (by omega) a b c d data pads hlength
        (decodeLength data.length)
      rw [hsize] at hlength hone
      rw [← hleft] at hpass
      by_cases hneg : (value4 a b c d).slt 0#32 = true
      · have hnone : decodeGroups (a :: b :: c :: d :: data) = none := by
          rw [decodeGroups, if_pos hneg]
        rw [if_pos hneg] at hpass
        rw [decoded, hnone]
        exact returns_of_inr hpass
      · have hmap : decoded done (a :: b :: c :: d :: data)
            = decoded (done ++ [16, 8, 0].map (valueByte (value4 a b c d))) data := by
          rw [decoded, decodeGroups, if_neg hneg, decoded]
          cases decodeGroups data <;> simp
        rw [if_neg hneg] at hpass
        have hdone : (done ++ [16, 8, 0].map (valueByte (value4 a b c d))).length
            = done.length + 3 := by simp
        have hpre : (pre ++ [a, b, c, d]).length = pre.length + 4 := by simp
        have hnext := ih (pre ++ [a, b, c, d])
          (done ++ [16, 8, 0].map (valueByte (value4 a b c d))) (by omega) (by omega) (by omega)
        rw [List.append_assoc, hpre, Nat.add_right_comm] at hnext
        rw [hmap]
        exact returns_of_inl hpass hnext
  | three a b c => exact hrest [a, b, c] (by simp)
  | two a b => exact hrest [a, b] (by simp)
  | one a => exact hrest [a] (by simp)
  | nil => exact hrest [] (by simp)

/-- **The loop of `base64decode` decodes in groups**, as long as no position wraps. -/
theorem decodes {base64_data : Bytes} (h : (stripped base64_data).length + 4 < 2 ^ 32) :
    Decodes base64_data (base64decode base64_data) := by
  have hsplit : stripped base64_data ++ base64_data.rtakeWhile (· == 61) = base64_data :=
    List.rdropWhile_append_rtakeWhile
  have hvalue : base64decode base64_data = decoded [] (stripped base64_data) := by
    rw [base64decode, decoded]
    cases decodeGroups (stripped base64_data) <;> rfl
  rw [Decodes]
  split
  · next hone =>
      cases hd : decodeGroups (stripped base64_data) with
      | none => rw [base64decode, hd]; rfl
      | some d =>
          have hsome := (decodeGroups_isSome_iff (stripped base64_data)).mp (by rw [hd]; rfl)
          exact absurd hone hsome.1
  · next hone =>
      have hloop := decode_from (base64_data.rtakeWhile (· == 61)) (stripped base64_data) [] []
        (by simpa using h) hone rfl
      rw [List.nil_append, hsplit, List.length_nil, Nat.zero_add, ← hvalue] at hloop
      exact hloop

/-- `base64decode` returns one thing at most. -/
lemma Decodes.unique {base64_data d d' : Bytes} (h : Decodes base64_data d)
    (h' : Decodes base64_data d') : d = d' := by
  rw [Decodes] at h h'
  split at h
  · next hone =>
      rw [if_pos hone] at h'
      rw [h, h']
  · next hone =>
      rw [if_neg hone] at h'
      exact Option.some.inj (h.deterministic h')

/-- A counter that goes up by four and is compared before it wraps never gets past the end. -/
lemma index_le {index : UInt32} (h : index.toNat % 4 = 0) : (index + 4).toNat ≤ 2 ^ 32 - 4 := by
  have hmod : (index + 4).toNat % 4 = 0 := by
    rw [UInt32.toNat_add]
    change (index.toNat + 4) % 2 ^ 32 % 4 = 0
    omega
  have hlt := (index + 4).toNat_lt
  omega

/-- Where the loop cannot end, only a negative value ends it. -/
lemma decode_long {base64_data d : Bytes} {length : ℕ} (h : 2 ^ 32 ≤ length + 4)
    {dest : Cursor Byte} (hd : Returns (decodePass base64_data length) ⟨0, dest⟩ (some d)) :
    d = [] := by
  have hpass : ∀ s : DecodeState, s.index.toNat % 4 = 0 →
      decodePass base64_data length s = .inr none ∨
      decodePass base64_data length s = .inr (some []) ∨
      ∃ s', decodePass base64_data length s = .inl s' ∧ s'.index.toNat % 4 = 0 := by
    intro s hs
    have hle := index_le hs
    rw [decodePass, if_pos (by omega)]
    cases valueAt base64_data s.index 4 with
    | none => exact .inl rfl
    | some value =>
        simp only [decodeValue]
        by_cases hneg : value.slt 0#32 = true
        · rw [if_pos hneg]
          exact .inr (.inl rfl)
        · rw [if_neg hneg]
          cases s.dest.putAll ([16, 8, 0].map (valueByte value)) with
          | none => exact .inl rfl
          | some dest =>
              refine .inr (.inr ⟨_, rfl, ?_⟩)
              change (s.index + 4).toNat % 4 = 0
              rw [UInt32.toNat_add]
              change (s.index.toNat + 4) % 2 ^ 32 % 4 = 0
              omega
  have hresult := hd.invariant (I := fun s => s.index.toNat % 4 = 0)
    (Q := fun r => r = none ∨ r = some []) ?_ ?_ rfl
  · simpa using hresult
  · intro s s' hs hnext
    obtain hp | hp | ⟨t, hp, ht⟩ := hpass s hs <;> rw [hp] at hnext <;> cases hnext
    exact ht
  · intro s r hs hend
    obtain hp | hp | ⟨t, hp, ht⟩ := hpass s hs <;> rw [hp] at hend <;> cases hend
    · exact .inl rfl
    · exact .inr rfl

/-- **More than this is never decoded.** -/
theorem Decodes.length_le {base64_data d : Bytes} (h : Decodes base64_data d) :
    d.length ≤ 3 * 2 ^ 30 - 4 := by
  by_cases hlong : 2 ^ 32 ≤ (stripped base64_data).length + 4
  · have hnil : d = [] := by
      rw [Decodes] at h
      split at h
      · exact h
      · exact decode_long hlong h
    simp [hnil]
  · rw [h.unique (decodes (by omega)), base64decode]
    cases hd : decodeGroups (stripped base64_data) with
    | none => simp
    | some rest =>
        rw [Option.getD_some, length_decodeGroups hd]
        omega

/-! ### The codec -/

/-- **The round trip**: an encoding of at most `2 ^ 31` bytes is made of characters of the alphabet
and `=` signs behind them, and is decoded to what was encoded. -/
theorem base64_round_trip (s : Bytes) (h : 4 * ((s.length + 2) / 3) ≤ 2 ^ 31) :
    ∃ t, Encodes s t ∧ (∀ t', Encodes s t' → t' = t) ∧
      t.length = 4 * ((s.length + 2) / 3) ∧
      (∃ b, (∀ c ∈ b, c ∈ base64Characters) ∧
        t = b ++ List.replicate ((3 - s.length % 3) % 3) 61) ∧
      Decodes t s ∧ ∀ s', Decodes t s' → s' = s := by
  have hencodes : Encodes s (base64encode s) := encodes (by omega)
  have hcode : base64decode (base64encode s) = s := by
    rw [base64decode, stripped_base64encode, decodeGroups_base64digits, Option.getD_some]
  have hdecodes : Decodes (base64encode s) s := by
    have hlength : (stripped (base64encode s)).length + 4 < 2 ^ 32 := by
      rw [stripped_base64encode, length_base64digits]
      omega
    have hd := decodes hlength
    rwa [hcode] at hd
  exact ⟨base64encode s, hencodes, fun t' ht' => ht'.unique hencodes, length_base64encode s,
    ⟨base64digits s, base64digits_mem s, base64encode_eq s⟩, hdecodes,
    fun s' hs' => hs'.unique hdecodes⟩

/-- The round trip of five bytes. -/
theorem base64_round_trip_five : ∃ t, Encodes [0, 255, 61, 10, 128] t ∧
    Decodes t [0, 255, 61, 10, 128] := by
  obtain ⟨t, ht, -, -, -, hd, -⟩ := base64_round_trip [0, 255, 61, 10, 128] (by decide)
  exact ⟨t, ht, hd⟩

/-- **The language of `base64decode`**: a string of at most `2 ^ 31` characters is decoded to
something if and only if, without its `=` signs, it is made of two or more characters of the
alphabet and does not leave one of them over; that something has six bits for each character, and is
encoded to the same characters with the unused bits cleared. -/
theorem base64decode_language (t : Bytes) (h : t.length ≤ 2 ^ 31) :
    ∃ d, Decodes t d ∧ (∀ d', Decodes t d' → d' = d) ∧
      (d ≠ [] ↔ 2 ≤ (stripped t).length ∧ (stripped t).length % 4 ≠ 1 ∧
        ∀ c ∈ stripped t, c ∈ base64Characters) ∧
      (d ≠ [] → d.length = 6 * (stripped t).length / 8 ∧
        ∃ t', Encodes d t' ∧ stripped t' = clearUnused (stripped t)) := by
  have hshort : (stripped t).length ≤ t.length := (List.rdropWhile_prefix _ _).length_le
  have hdecodes : Decodes t (base64decode t) := decodes (by omega)
  have haccepted := decodeGroups_isSome_iff (stripped t)
  refine ⟨base64decode t, hdecodes, fun d' hd' => hd'.unique hdecodes, ?_⟩
  cases hd : decodeGroups (stripped t) with
  | none =>
      have hcode : base64decode t = [] := by rw [base64decode, hd, Option.getD_none]
      rw [hd] at haccepted
      rw [hcode]
      refine ⟨⟨fun hne => absurd rfl hne, fun hall => ?_⟩, fun hne => absurd rfl hne⟩
      exact absurd (haccepted.mpr hall.2) (by simp)
  | some d =>
      have hcode : base64decode t = d := by rw [base64decode, hd, Option.getD_some]
      have hlength := length_decodeGroups hd
      have hsome := haccepted.mp (by rw [hd]; rfl)
      rw [hcode]
      refine ⟨⟨fun hne => ⟨?_, hsome⟩, fun hall => ?_⟩, fun _ => ⟨hlength, base64encode d,
        encodes (by omega), ?_⟩⟩
      · have hpos := List.length_pos_iff.mpr hne
        omega
      · apply List.ne_nil_of_length_pos
        omega
      · rw [stripped_base64encode, base64digits_decodeGroups hd]

/-- A string whose last character has unused bits. -/
theorem base64decode_language_unused : ∃ d, Decodes (bytes "QUF=") d ∧ d.length = 2 ∧
    ∃ t', Encodes d t' ∧ stripped t' = bytes "QUE" := by
  have hb : stripped (bytes "QUF=") = bytes "QUF" := by decide
  obtain ⟨d, hd, -, hne, hrest⟩ := base64decode_language (bytes "QUF=") (by decide)
  obtain ⟨hlength, t', ht', hcode⟩ := hrest (hne.mpr (by rw [hb]; decide))
  rw [hb] at hlength hcode
  exact ⟨d, hd, hlength, t', ht', hcode.trans (by decide +kernel)⟩

end Arachnida.Acari
