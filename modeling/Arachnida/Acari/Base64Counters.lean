import Arachnida.Acari.Base64Loop
import Arachnida.Library.Accesses

/-!
What the counters of `base64encode` and `base64decode` are good for: they are `unsigned int`, and
the lengths are `size_t`.

* `encodeAccesses`, `decodeAccesses`: what a turn of either loop reads and writes.
* `EncodesOnce`, `DecodesOnce`: a loop ends, reads and writes nothing twice, and stays inside its
  buffers.
* `encodesOnce_iff`, `decodesOnce_iff`: **either loop does so exactly if no counter wraps**, which
  the loop that decodes may also be kept from by a character that is not in the alphabet.
-/

namespace Arachnida.Acari

open Library Cursor

/-! ### Encoding -/

/-- What a turn of the loop of `base64encode`, or what comes behind it, reads and writes. -/
def encodeAccesses (length : ℕ) (s : EncodeState) : Accesses :=
  if (s.pos + 3).toNat ≤ length then ⟨positions s.pos 3, positions s.dest.pos 4⟩
  else if s.pos.toNat = length then ⟨[], []⟩
  else if s.pos.toNat + 2 = length then ⟨positions s.pos 2, positions s.dest.pos 3⟩
  else ⟨positions s.pos 1, positions s.dest.pos 2⟩

/-- The loop of `base64encode` ends, and reads and writes nothing twice or outside its buffers. -/
def EncodesOnce (data : Bytes) : Prop :=
  ∃ t a, Returns (logged (encodePass data) (encodeAccesses data.length))
    (⟨0, ⟨List.replicate (base64Length data.length) 61, 0⟩⟩, ⟨[], []⟩) (some t, a) ∧
    a.Once data.length (base64Length data.length)

section Encode

variable {pre done : Bytes} (hpre : pre.length + 3 < 2 ^ 32)
include hpre

/-- The accesses of a turn for three bytes. -/
lemma encodeAccesses_three (hdone : done.length + 4 ≤ 2 ^ 32) {length : ℕ}
    (hlength : pre.length + 3 ≤ length) (left : ℕ) :
    encodeAccesses length (encodeAt pre done left)
      = ⟨List.range' pre.length 3, List.range' done.length 4⟩ := by
  have hpos : (UInt32.ofNat pre.length + 3).toNat = pre.length + 3 :=
    toNat_ofNat_add_lt (k := 3) hpre
  rw [encodeAccesses, encodeAt, if_pos (by rw [hpos]; exact hlength), behind,
    positions_ofNat (by omega), positions_ofNat hdone]

/-- The accesses behind the loop. -/
lemma encodeAccesses_rest {data : Bytes} (hdata : data.length < 3)
    (hdone : data ≠ [] → done.length + 4 ≤ 2 ^ 32) (left : ℕ) :
    ∃ writes ≤ (base64encode data).length, encodeAccesses (pre.length + data.length)
      (encodeAt pre done left)
        = ⟨List.range' pre.length data.length, List.range' done.length writes⟩ := by
  have hpos : (UInt32.ofNat pre.length).toNat = pre.length := toNat_ofNat_lt (by omega)
  have hnext : (UInt32.ofNat pre.length + 3).toNat = pre.length + 3 :=
    toNat_ofNat_add_lt (k := 3) hpre
  rw [encodeAccesses, encodeAt, if_neg (by rw [hnext]; omega)]
  simp only [hpos, behind]
  rcases data with _ | ⟨a, _ | ⟨b, _ | ⟨c, data⟩⟩⟩
  · refine ⟨0, Nat.zero_le _, ?_⟩
    rw [if_pos (by simp)]
    rfl
  · have hroom := hdone (by simp)
    refine ⟨2, by simp [base64encode], ?_⟩
    rw [if_neg (by simp), if_neg (by simp), positions_ofNat (by omega),
      positions_ofNat (by omega)]
    rfl
  · have hroom := hdone (by simp)
    refine ⟨3, by simp [base64encode], ?_⟩
    rw [if_neg (by simp), if_pos (by simp), positions_ofNat (by omega),
      positions_ofNat (by omega)]
    rfl
  · simp only [List.length_cons] at hdata
    omega

end Encode

/-- The loop from a position on: everything is read up to the end, and written up to somewhere. -/
def EncodesFrom (data pre done : Bytes) : Prop :=
  ∃ writes ≤ (base64encode data).length,
    Returns (logged (encodePass (pre ++ data)) (encodeAccesses (pre.length + data.length)))
      (encodeAt pre done (base64encode data).length, .upTo pre.length done.length)
      (some (done ++ base64encode data),
        .upTo (pre.length + data.length) (done.length + writes))

/-- Behind the last group of three. -/
lemma encodesFrom_rest {data pre done : Bytes} (hdata : data.length < 3)
    (hlength : pre.length + data.length ≤ 3 * 2 ^ 30) (hpos : 4 * pre.length = 3 * done.length) :
    EncodesFrom data pre done := by
  have hroom : data ≠ [] → done.length + 4 ≤ 2 ^ 32 := by
    intro hne
    have hsize := List.length_pos_iff.mpr hne
    omega
  obtain ⟨writes, hwrites, haccesses⟩ := @encodeAccesses_rest pre done (by omega) data hdata
    hroom (base64encode data).length
  refine ⟨writes, hwrites, returns_of_inr ?_⟩
  rw [logged_of_inr (encodePass_rest (by omega) hdata _),
    encodeRest_eq (by omega) hdata hroom, haccesses, Accesses.upTo_append]

/-- Wherever the counters do not wrap. -/
lemma encodesFrom (data : Bytes) : ∀ pre done : Bytes,
    pre.length + data.length ≤ 3 * 2 ^ 30 → 4 * pre.length = 3 * done.length →
    EncodesFrom data pre done := by
  induction data using base64encode.induct with
  | case1 a b c data ih =>
      intro pre done hlength hpos
      simp only [List.length_cons] at hlength
      obtain ⟨group, hcode, hsize, hpass⟩ := @encodePass_three pre done
        (by omega) (by omega) a b c data (base64encode data).length
      have haccesses := @encodeAccesses_three pre done (by omega) (by omega)
        (pre.length + (a :: b :: c :: data).length) (by simp only [List.length_cons]; omega)
        (4 + (base64encode data).length)
      have hthree : (pre ++ [a, b, c]).length = pre.length + 3 := by simp
      have hfour : (done ++ group).length = done.length + 4 := by rw [List.length_append, hsize]
      obtain ⟨writes, hwrites, hnext⟩ := ih (pre ++ [a, b, c]) (done ++ group)
        (by omega) (by omega)
      refine ⟨4 + writes, by rw [hcode, List.length_append, hsize]; omega, ?_⟩
      rw [hcode, List.length_append, hsize]
      refine returns_of_inl (logged_of_inl hpass) ?_
      rw [haccesses, Accesses.upTo_append, ← hthree, ← hfour]
      have hend : pre.length + (a :: b :: c :: data).length
          = (pre ++ [a, b, c]).length + data.length := by
        rw [hthree]
        simp only [List.length_cons]
        omega
      rw [List.append_assoc, List.append_assoc] at hnext
      rw [hfour, Nat.add_assoc] at hnext
      rw [hend, hfour]
      exact hnext
  | case2 a b => exact fun pre done => encodesFrom_rest (by simp)
  | case3 a => exact fun pre done => encodesFrom_rest (by simp)
  | case4 => exact fun pre done => encodesFrom_rest (by simp)

/-- A loop whose counters do not wrap. -/
lemma encodesOnce_of_le {data : Bytes} (h : data.length ≤ 3 * 2 ^ 30) : EncodesOnce data := by
  obtain ⟨writes, hwrites, hloop⟩ := encodesFrom data [] [] (by simpa using h) rfl
  have hlength : base64Length data.length = (base64encode data).length := by
    rw [base64Length, length_base64encode]
    split <;> omega
  rw [List.nil_append, List.length_nil, Nat.zero_add, Nat.zero_add] at hloop
  rw [EncodesOnce, hlength]
  exact ⟨_, _, hloop, Accesses.upTo_once le_rfl hwrites⟩

/-- It encodes. -/
lemma EncodesOnce.encodes {data : Bytes} (h : EncodesOnce data) : ∃ t, Encodes data t := by
  obtain ⟨t, a, hloop, -⟩ := h
  exact ⟨t, hloop.of_logged⟩

/-- The state of the loop behind so many groups, with everything written up to there. -/
structure EncodedUpTo (k : ℕ) (s : EncodeState × Accesses) : Prop where
  pos : s.1.pos = UInt32.ofNat (3 * k)
  dest : s.1.dest.pos = UInt32.ofNat (4 * k)
  written : ∀ i < 4 * k, i ∈ s.2.writes

/-- Where the counters are behind a group. -/
lemma encodeGroup_pos {data : Bytes} {s s' : EncodeState} (h : encodeGroup data s = some s') :
    s'.pos = s.pos + 3 ∧ s'.dest.pos = s.dest.pos + 4 := by
  simp only [encodeGroup, Option.bind_eq_bind, Option.bind_eq_some_iff] at h
  obtain ⟨a, -, b, -, c, -, dest, hdest, hs'⟩ := h
  obtain rfl := Option.some.inj hs'
  exact ⟨rfl, (putAll_pos hdest).1⟩

/-- Wherever there are bytes left, something is written. -/
lemma dest_mem_encodeAccesses {length : ℕ} {s : EncodeState} (h : s.pos.toNat ≠ length) :
    s.dest.pos.toNat ∈ (encodeAccesses length s).writes := by
  rw [encodeAccesses, if_neg h]
  split_ifs <;> exact mem_positions _ (by norm_num)

/-- Before the counters wrap, a group is encoded. -/
lemma EncodedUpTo.next {data : Bytes} (h : 3 * 2 ^ 30 < data.length) {s : EncodeState × Accesses}
    {k : ℕ} (hs : EncodedUpTo k s) (hk : k < 2 ^ 30) :
    encodePass data s.1 = .inr none ∨ ∃ s', encodePass data s.1 = .inl s' ∧
      EncodedUpTo (k + 1) (s', s.2.append (encodeAccesses data.length s.1)) := by
  have hcond : (s.1.pos + 3).toNat ≤ data.length := by
    have hpos : (UInt32.ofNat (3 * k) + 3).toNat = 3 * k + 3 :=
      toNat_ofNat_add_lt (k := 3) (by omega)
    rw [hs.pos, hpos]
    omega
  rw [encodePass, if_pos hcond]
  cases hgroup : encodeGroup data s.1 with
  | none => exact .inl rfl
  | some s' =>
      obtain ⟨hpos, hdest⟩ := encodeGroup_pos hgroup
      refine .inr ⟨s', rfl, ?_, ?_, fun i hi => ?_⟩
      · rw [hpos, hs.pos, Nat.mul_add, UInt32.ofNat_add]
        rfl
      · rw [hdest, hs.dest, Nat.mul_add, UInt32.ofNat_add]
        rfl
      · rw [encodeAccesses, if_pos hcond, hs.dest, positions_ofNat (by omega)]
        refine List.mem_append.mpr ?_
        by_cases hold : i < 4 * k
        · exact .inl (hs.written i hold)
        · exact .inr (List.mem_range'_1.mpr ⟨by omega, by omega⟩)

/-- Behind `2 ^ 30` groups the first character is written over. -/
lemma EncodedUpTo.wraps {data : Bytes} (h : 3 * 2 ^ 30 < data.length)
    {s : EncodeState × Accesses} (hs : EncodedUpTo (2 ^ 30) s) :
    ¬ (s.2.append (encodeAccesses data.length s.1)).writes.Nodup := by
  have hpos : s.1.pos.toNat ≠ data.length := by
    rw [hs.pos, toNat_ofNat_lt (by norm_num)]
    omega
  have hzero : s.1.dest.pos.toNat = 0 := by
    rw [hs.dest]
    rfl
  have hagain := dest_mem_encodeAccesses hpos
  rw [hzero] at hagain
  exact Accesses.not_nodup_append (hs.written 0 (by norm_num)) hagain

/-- **A loop whose counter of characters wraps** writes something twice, if it ends at all. -/
lemma not_encodesOnce {data : Bytes} (h : 3 * 2 ^ 30 < data.length) : ¬ EncodesOnce data := by
  rintro ⟨t, a, hloop, honce⟩
  rcases hloop.repeats (I := EncodedUpTo) (f := Accesses.writes) (fun _ _ => rfl)
    (fun k s hk hs => hs.next h hk) (fun s hs => hs.wraps h)
    ⟨rfl, rfl, fun i hi => absurd hi (by omega)⟩ with hnone | htwice
  · cases hnone
  · exact htwice honce.writes_once

/-- **The loop of `base64encode`** does everything once exactly if its counter of characters does
not wrap. -/
lemma encodesOnce_iff (data : Bytes) : EncodesOnce data ↔ data.length ≤ 3 * 2 ^ 30 :=
  ⟨fun h => not_lt.mp fun hlong => not_encodesOnce hlong h, encodesOnce_of_le⟩

/-! ### Decoding -/

/-- What is read for a value, and what is written for it unless it is negative. -/
def valueAccesses (base64_data : Bytes) (s : DecodeState) (count n : ℕ) : Accesses :=
  ⟨positions s.index count,
    match valueAt base64_data s.index count with
    | some value => if value.slt 0#32 then [] else positions s.dest.pos n
    | none => []⟩

/-- What a turn of the loop of `base64decode`, or what comes behind it, reads and writes. -/
def decodeAccesses (base64_data : Bytes) (length : ℕ) (s : DecodeState) : Accesses :=
  if (s.index + 4).toNat ≤ length then valueAccesses base64_data s 4 3
  else if length % 4 = 2 then valueAccesses base64_data s 2 1
  else if length % 4 = 3 then valueAccesses base64_data s 3 2
  else ⟨[], []⟩

/-- The loop of `base64decode` is not entered, or it ends, and reads and writes nothing twice or
outside its buffers. -/
def DecodesOnce (base64_data : Bytes) : Prop :=
  let length := (stripped base64_data).length
  length % 4 = 1 ∨ ∃ d a,
    Returns (logged (decodePass base64_data length) (decodeAccesses base64_data length))
      (⟨0, ⟨List.replicate (decodeLength length) 45, 0⟩⟩, ⟨[], []⟩) (some d, a) ∧
    a.Once base64_data.length (decodeLength length)

/-- A character that is not in the alphabet. -/
def Foreign (base64_data : Bytes) (p : ℕ) : Prop :=
  ∃ c, base64_data[p]? = some c ∧ c ∉ base64Characters

/-- The state of the loop behind so many groups. -/
structure AtGroup (length k : ℕ) (s : DecodeState) : Prop where
  index : s.index = UInt32.ofNat (4 * k)
  dest : s.dest.pos = UInt32.ofNat (3 * k)
  room : s.dest.buffer.length = decodeLength length

section Decode

variable {base64_data : Bytes} {length k : ℕ} {s : DecodeState}

/-- The characters of a group. -/
lemma getElem?_group {i : ℕ} (h : 4 * k + i < 2 ^ 32) :
    base64_data[(UInt32.ofNat (4 * k) + UInt32.ofNat i).toNat]? = base64_data[4 * k + i]? := by
  rw [toNat_ofNat_add_lt h]

/-- The first of them. -/
lemma getElem?_first (hk : k < 2 ^ 30) :
    base64_data[(UInt32.ofNat (4 * k)).toNat]? = base64_data[4 * k + 0]? := by
  rw [toNat_ofNat_lt (by omega), Nat.add_zero]

/-- A character is foreign unless it is in the alphabet. -/
lemma foreign_iff {p : ℕ} {c : Byte} (h : base64_data[p]? = some c) :
    Foreign base64_data p ↔ c ∉ base64Characters := by
  rw [Foreign, h]
  simp

/-- A group has a value, which is negative if one of its characters is foreign. -/
lemma valueAt_four (hk : k < 2 ^ 30) (h : 4 * k + 4 ≤ base64_data.length) :
    ∃ value, valueAt base64_data (UInt32.ofNat (4 * k)) 4 = some value ∧
      (value.slt 0#32 = true ↔ ∃ p, 4 * k ≤ p ∧ p < 4 * k + 4 ∧ Foreign base64_data p) := by
  have hget : ∀ i < 4, ∃ c, base64_data[4 * k + i]? = some c := fun i hi =>
    ⟨_, List.getElem?_eq_getElem (by omega)⟩
  obtain ⟨a, ha⟩ := hget 0 (by norm_num)
  obtain ⟨b, hb⟩ := hget 1 (by norm_num)
  obtain ⟨c, hc⟩ := hget 2 (by norm_num)
  obtain ⟨d, hd⟩ := hget 3 (by norm_num)
  have ha' := (@getElem?_first base64_data k hk).trans ha
  have hb' : base64_data[(UInt32.ofNat (4 * k) + 1).toNat]? = some b :=
    (@getElem?_group base64_data k 1 (by omega)).trans hb
  have hc' : base64_data[(UInt32.ofNat (4 * k) + 2).toNat]? = some c :=
    (@getElem?_group base64_data k 2 (by omega)).trans hc
  have hd' : base64_data[(UInt32.ofNat (4 * k) + 3).toNat]? = some d :=
    (@getElem?_group base64_data k 3 (by omega)).trans hd
  refine ⟨value4 a b c d, ?_, ?_⟩
  · simp only [valueAt, ha', hb', hc', hd', Option.bind_eq_bind, Option.bind_some]
    rfl
  · rw [← Bool.not_eq_false, value4_accepted]
    constructor
    · intro hneg
      by_contra hnone
      push Not at hnone
      refine hneg ⟨⟨⟨?_, ?_⟩, ?_⟩, ?_⟩
      · exact not_not.mp ((foreign_iff ha).not.mp (hnone (4 * k + 0) (by omega) (by omega)))
      · exact not_not.mp ((foreign_iff hb).not.mp (hnone (4 * k + 1) (by omega) (by omega)))
      · exact not_not.mp ((foreign_iff hc).not.mp (hnone (4 * k + 2) (by omega) (by omega)))
      · exact not_not.mp ((foreign_iff hd).not.mp (hnone (4 * k + 3) (by omega) (by omega)))
    · rintro ⟨p, hlo, hhi, hforeign⟩ ⟨⟨⟨ha4, hb4⟩, hc4⟩, hd4⟩
      obtain ⟨i, rfl⟩ := Nat.exists_eq_add_of_le hlo
      have hi : i < 4 := by omega
      interval_cases i
      · exact (foreign_iff ha).mp hforeign ha4
      · exact (foreign_iff hb).mp hforeign hb4
      · exact (foreign_iff hc).mp hforeign hc4
      · exact (foreign_iff hd).mp hforeign hd4

/-- Two or three characters have a value as well. -/
lemma exists_valueAt {count : ℕ} (hcount : count = 2 ∨ count = 3) (hk : k < 2 ^ 30)
    (h : 4 * k + count ≤ base64_data.length) :
    ∃ value, valueAt base64_data (UInt32.ofNat (4 * k)) count = some value := by
  have hget : ∀ i < count, ∃ c, base64_data[4 * k + i]? = some c := fun i hi =>
    ⟨_, List.getElem?_eq_getElem (by omega)⟩
  obtain ⟨a, ha⟩ := hget 0 (by omega)
  obtain ⟨b, hb⟩ := hget 1 (by omega)
  have ha' := (@getElem?_first base64_data k hk).trans ha
  have hb' : base64_data[(UInt32.ofNat (4 * k) + 1).toNat]? = some b :=
    (@getElem?_group base64_data k 1 (by omega)).trans hb
  rcases hcount with rfl | rfl
  · refine ⟨value2 a b, ?_⟩
    simp only [valueAt, ha', hb', Option.bind_eq_bind, Option.bind_some]
    rfl
  · obtain ⟨c, hc⟩ := hget 2 (by omega)
    have hc' : base64_data[(UInt32.ofNat (4 * k) + 2).toNat]? = some c :=
      (@getElem?_group base64_data k 2 (by omega)).trans hc
    refine ⟨value3 a b c, ?_⟩
    simp only [valueAt, ha', hb', hc', Option.bind_eq_bind, Option.bind_some]
    rfl

/-- What a value leads to where there is room for its bytes, and what is written for it. -/
lemma decodeValue_room {ρ : Type} (value : BitVec 32) {shifts : List ℕ} {dest : Cursor Byte}
    (hroom : dest.pos.toNat + shifts.length ≤ dest.buffer.length)
    (h : dest.pos.toNat + shifts.length < 2 ^ 32) (next : Cursor Byte → ρ ⊕ Option Bytes) :
    (value.slt 0#32 = true ∧ decodeValue value shifts dest next = .inr (some [])) ∨
    (value.slt 0#32 = false ∧ ∃ dest', dest'.pos = dest.pos + UInt32.ofNat shifts.length ∧
      dest'.buffer.length = dest.buffer.length ∧
      decodeValue value shifts dest next = next dest') := by
  cases hneg : value.slt 0#32 with
  | true => exact .inl ⟨rfl, by rw [decodeValue, if_pos hneg]⟩
  | false =>
      obtain ⟨dest', hput⟩ := exists_putAll (c := dest) (l := shifts.map (valueByte value))
        (by rwa [List.length_map]) (by rwa [List.length_map])
      obtain ⟨hpos, hlength⟩ := putAll_pos hput
      rw [List.length_map] at hpos
      refine .inr ⟨rfl, dest', hpos, hlength, ?_⟩
      rw [decodeValue, hneg, if_neg Bool.false_ne_true, hput]

/-- What is accessed for a value. -/
lemma AtGroup.accesses (hs : AtGroup length k s) {count n : ℕ}
    (hcount : 4 * k + count ≤ 2 ^ 32) (hn : 3 * k + n ≤ 2 ^ 32) {value : BitVec 32}
    (hvalue : valueAt base64_data (UInt32.ofNat (4 * k)) count = some value) :
    valueAccesses base64_data s count n = ⟨List.range' (4 * k) count,
      List.range' (3 * k) (if value.slt 0#32 = true then 0 else n)⟩ := by
  rw [valueAccesses, hs.index, hvalue, hs.dest, positions_ofNat hcount, positions_ofNat hn]
  by_cases hneg : value.slt 0#32 = true
  · simp only [if_pos hneg]
    rfl
  · simp only [if_neg hneg]

/-- **A turn of the loop**: a negative value ends it, and with any other one it goes on. -/
lemma AtGroup.turn (hs : AtGroup length k s) (hk : k < 2 ^ 30)
    (hcond : (s.index + 4).toNat ≤ length) (hdata : 4 * k + 4 ≤ base64_data.length)
    (hforeign : (∃ p, 4 * k ≤ p ∧ p < 4 * k + 4 ∧ Foreign base64_data p) ∨ 4 * k + 4 ≤ length) :
    ((∃ p, 4 * k ≤ p ∧ p < 4 * k + 4 ∧ Foreign base64_data p) ∧
      decodePass base64_data length s = .inr (some []) ∧
      decodeAccesses base64_data length s = ⟨List.range' (4 * k) 4, List.range' (3 * k) 0⟩) ∨
    ((¬ ∃ p, 4 * k ≤ p ∧ p < 4 * k + 4 ∧ Foreign base64_data p) ∧
      ∃ s', decodePass base64_data length s = .inl s' ∧ AtGroup length (k + 1) s' ∧
        decodeAccesses base64_data length s = ⟨List.range' (4 * k) 4, List.range' (3 * k) 3⟩) := by
  obtain ⟨value, hvalue, hiff⟩ := valueAt_four hk hdata
  have hfour : 4 * k + 4 ≤ 2 ^ 32 := by omega
  have haccesses := hs.accesses (n := 3) hfour (by omega) hvalue
  rw [← hiff] at hforeign ⊢
  have hpass : decodePass base64_data length s
      = decodeValue value [16, 8, 0] s.dest fun dest => .inl ⟨s.index + 4, dest⟩ := by
    rw [decodePass, if_pos hcond, hs.index, hvalue]
  rw [decodeAccesses, if_pos hcond, haccesses, hpass]
  cases hneg : value.slt 0#32 with
  | true => exact .inl ⟨rfl, by rw [decodeValue, if_pos hneg], rfl⟩
  | false =>
      refine .inr ⟨Bool.false_ne_true, ?_⟩
      have hlength := hforeign.resolve_left (by rw [hneg]; exact Bool.false_ne_true)
      have hdest : s.dest.pos.toNat = 3 * k := by rw [hs.dest, toNat_ofNat_lt (by omega)]
      have hroom : s.dest.pos.toNat + [16, 8, 0].length ≤ s.dest.buffer.length := by
        rw [hdest, hs.room, decodeLength_eq]
        simp only [List.length_cons, List.length_nil]
        omega
      rcases decodeValue_room value hroom
        (by rw [hdest]; simp only [List.length_cons, List.length_nil]; omega)
        (fun dest => .inl (⟨s.index + 4, dest⟩ : DecodeState)) with
        ⟨htrue, -⟩ | ⟨-, dest, hpos, hsize, heq⟩
      · rw [hneg] at htrue
        cases htrue
      · refine ⟨_, heq, ⟨?_, ?_, ?_⟩, rfl⟩
        · change s.index + 4 = _
          rw [hs.index, Nat.mul_add, UInt32.ofNat_add]
          rfl
        · rw [hpos, hs.dest, Nat.mul_add, UInt32.ofNat_add]
          rfl
        · rw [hsize, hs.room]

/-- What the remaining characters lead to, if there are any. -/
lemma AtGroup.rest (hs : AtGroup length k s) (hk : 4 * k + 4 < 2 ^ 32) (hle : 4 * k ≤ length)
    (hlt : length < 4 * k + 4) (hone : length % 4 ≠ 1) (hdata : length ≤ base64_data.length) :
    ∃ d, ∃ writes, 3 * k + writes ≤ decodeLength length ∧
      decodePass base64_data length s = .inr (some d) ∧
      decodeAccesses base64_data length s
        = ⟨List.range' (4 * k) (length - 4 * k), List.range' (3 * k) writes⟩ := by
  have hcond : ¬ (s.index + 4).toNat ≤ length := by
    have hindex : (UInt32.ofNat (4 * k) + 4).toNat = 4 * k + 4 :=
      toNat_ofNat_add_lt (k := 4) hk
    rw [hs.index, hindex]
    omega
  have hdest : s.dest.pos.toNat = 3 * k := by rw [hs.dest, toNat_ofNat_lt (by omega)]
  -- so many characters have a value, for so many bytes
  have hvalue : ∀ count (shifts : List ℕ), count = 2 ∨ count = 3 → length = 4 * k + count →
      shifts.length + 1 = count → ∃ value, valueAt base64_data s.index count = some value ∧
        ∃ d, ∃ writes ≤ shifts.length,
          decodeValue value shifts s.dest
              (fun dest => (.inr (some dest.buffer) : DecodeState ⊕ Option Bytes))
            = .inr (some d) ∧
          valueAccesses base64_data s count shifts.length
            = ⟨List.range' (4 * k) count, List.range' (3 * k) writes⟩ := by
    intro count shifts hcount hlength hshifts
    have hk' : k < 2 ^ 30 := by omega
    have hdata' : 4 * k + count ≤ base64_data.length := by omega
    obtain ⟨value, hvalue⟩ := exists_valueAt hcount hk' hdata'
    have haccesses := hs.accesses (n := shifts.length) (by omega) (by omega) hvalue
    rw [hs.index]
    refine ⟨value, hvalue, ?_⟩
    have hroom : s.dest.pos.toNat + shifts.length ≤ s.dest.buffer.length := by
      rw [hdest, hs.room, decodeLength_eq]
      omega
    rcases decodeValue_room value hroom (by rw [hdest]; omega)
      (fun dest => (.inr (some dest.buffer) : DecodeState ⊕ Option Bytes)) with
      ⟨htrue, heq⟩ | ⟨hfalse, dest, -, -, heq⟩
    · rw [htrue] at haccesses
      exact ⟨_, 0, Nat.zero_le _, heq, haccesses⟩
    · rw [hfalse] at haccesses
      exact ⟨_, shifts.length, le_rfl, heq, haccesses⟩
  rw [decodePass, if_neg hcond, decodeRest, decodeAccesses, if_neg hcond]
  obtain h0 | h2 | h3 : length = 4 * k ∨ length = 4 * k + 2 ∨ length = 4 * k + 3 := by omega
  · rw [if_neg (by omega), if_neg (by omega), if_neg (by omega), if_neg (by omega)]
    refine ⟨_, 0, by rw [decodeLength_eq]; omega, rfl, ?_⟩
    rw [h0, Nat.sub_self]
    rfl
  · obtain ⟨value, hv, d, writes, hwrites, hpass, haccesses⟩ :=
      hvalue 2 [16] (.inl rfl) h2 rfl
    rw [if_pos (by omega), if_pos (by omega), hv]
    have hcount : length - 4 * k = 2 := by omega
    rw [hcount]
    have hbytes : writes ≤ 1 := hwrites
    exact ⟨d, writes, by rw [decodeLength_eq]; omega, hpass, haccesses⟩
  · obtain ⟨value, hv, d, writes, hwrites, hpass, haccesses⟩ :=
      hvalue 3 [16, 8] (.inr rfl) h3 rfl
    rw [if_neg (by omega), if_pos (by omega), if_neg (by omega), if_pos (by omega), hv]
    have hcount : length - 4 * k = 3 := by omega
    rw [hcount]
    have hbytes : writes ≤ 2 := hwrites
    exact ⟨d, writes, by rw [decodeLength_eq]; omega, hpass, haccesses⟩

/-- What is compared with the length. -/
lemma AtGroup.index_next (hs : AtGroup length k s) :
    (s.index + 4).toNat = (4 * k + 4) % 2 ^ 32 := by
  have hnext : UInt32.ofNat (4 * k) + 4 = UInt32.ofNat (4 * k + 4) := by
    rw [UInt32.ofNat_add]
    rfl
  rw [hs.index, hnext, UInt32.toNat_ofNat']

/-- A string that is short enough, or a foreign character from a group on that the loop gets to
before its counter wraps. -/
def StopsFrom (base64_data : Bytes) (length k : ℕ) : Prop :=
  (length + 4 < 2 ^ 32 ∧ 4 * k ≤ length) ∨
    (2 ^ 32 ≤ length + 4 ∧ ∃ p, 4 * k ≤ p ∧ p < 2 ^ 32 ∧ p / 4 * 4 + 4 ≤ base64_data.length ∧
      Foreign base64_data p)

/-- The loop from a group on. -/
lemma decode_once_from (hdata : length ≤ base64_data.length) (hone : length % 4 ≠ 1) (m : ℕ) :
    ∀ k s, k + m = 2 ^ 30 → k < 2 ^ 30 → AtGroup length k s → StopsFrom base64_data length k →
      ∃ d a, Returns (logged (decodePass base64_data length) (decodeAccesses base64_data length))
          (s, .upTo (4 * k) (3 * k)) (some d, a) ∧
        a.Once base64_data.length (decodeLength length) := by
  induction m with
  | zero => exact fun k s hm hk => absurd hm (by omega)
  | succ m ih =>
      intro k s hm hk hs hstops
      have hnext := hs.index_next
      have hroom : 3 * k ≤ decodeLength length := by
        rw [decodeLength_eq]
        rcases hstops with ⟨-, hle⟩ | ⟨hlong, -⟩ <;> omega
      by_cases hcond : (s.index + 4).toNat ≤ length
      · have hgroup : 4 * k + 4 ≤ base64_data.length := by
          rcases hstops with ⟨hshort, hle⟩ | ⟨-, p, hp, -, hwhole, -⟩ <;> omega
        have hforeign : (∃ p, 4 * k ≤ p ∧ p < 4 * k + 4 ∧ Foreign base64_data p) ∨
            4 * k + 4 ≤ length := by
          rcases hstops with ⟨hshort, hle⟩ | ⟨hlong, p, hp, hwidth, hwhole, hf⟩
          · exact .inr (by omega)
          · by_cases hin : p < 4 * k + 4
            · exact .inl ⟨p, hp, hin, hf⟩
            · exact .inr (by omega)
        rcases hs.turn hk hcond hgroup hforeign with
          ⟨-, hpass, haccesses⟩ | ⟨hnone, s', hpass, hs', haccesses⟩
        · refine ⟨[], _, returns_of_inr (logged_of_inr hpass), ?_⟩
          rw [haccesses, Accesses.upTo_append]
          exact Accesses.upTo_once hgroup hroom
        · have hlater : k + 1 < 2 ^ 30 ∧ StopsFrom base64_data length (k + 1) := by
            rcases hstops with ⟨hshort, hle⟩ | ⟨hlong, p, hp, hwidth, hwhole, hf⟩
            · exact ⟨by omega, .inl ⟨hshort, by omega⟩⟩
            · have hbehind : 4 * k + 4 ≤ p := not_lt.mp fun hin => hnone ⟨p, hp, hin, hf⟩
              exact ⟨by omega, .inr ⟨hlong, p, by omega, hwidth, hwhole, hf⟩⟩
          obtain ⟨d, a, hreturns, honce⟩ := ih (k + 1) s' (by omega) hlater.1 hs' hlater.2
          refine ⟨d, a, returns_of_inl (logged_of_inl hpass) ?_, honce⟩
          rw [haccesses, Accesses.upTo_append]
          exact hreturns
      · rcases hstops with ⟨hshort, hle⟩ | ⟨hlong, -⟩
        · obtain ⟨d, writes, hwrites, hpass, haccesses⟩ :=
            hs.rest (by omega) hle (by omega) hone hdata
          refine ⟨d, _, returns_of_inr (logged_of_inr hpass), ?_⟩
          rw [haccesses, Accesses.upTo_append]
          exact Accesses.upTo_once (by omega) hwrites
        · omega

/-- The loop does not get to where its counter wraps. -/
lemma decodesOnce_of_stops (h : StopsFrom base64_data (stripped base64_data).length 0) :
    DecodesOnce base64_data := by
  rw [DecodesOnce]
  by_cases hone : (stripped base64_data).length % 4 = 1
  · exact .inl hone
  · have hdata : (stripped base64_data).length ≤ base64_data.length :=
      (List.rdropWhile_prefix _ _).length_le
    exact .inr (decode_once_from hdata hone (2 ^ 30) 0 _ rfl (by norm_num)
      ⟨rfl, rfl, List.length_replicate⟩ h)

/-- The state of a loop without a foreign character in its way: behind so many groups, or back at
the beginning. -/
structure ReadUpTo (k : ℕ) (s : DecodeState × Accesses) : Prop where
  index : s.1.index = UInt32.ofNat (4 * k)
  read : ∀ i < 4 * k, i ∈ s.2.reads

/-- A value is one of four characters. -/
lemma length_of_valueAt (hk : k < 2 ^ 30) {value : BitVec 32}
    (h : valueAt base64_data (UInt32.ofNat (4 * k)) 4 = some value) :
    4 * k + 4 ≤ base64_data.length := by
  simp only [valueAt, Option.bind_eq_bind, Option.bind_eq_some_iff, Nat.reduceEqDiff,
    if_false] at h
  obtain ⟨-, -, -, -, -, -, d, hd, -⟩ := h
  have hlast : (UInt32.ofNat (4 * k) + 3).toNat = 4 * k + 3 :=
    toNat_ofNat_add_lt (k := 3) (by omega)
  obtain ⟨hlt, -⟩ := List.getElem?_eq_some_iff.mp hd
  omega

/-- A turn that is not the last reads its four characters. -/
lemma reads_turn (hcond : (s.index + 4).toNat ≤ length) :
    (decodeAccesses base64_data length s).reads = positions s.index 4 := by
  rw [decodeAccesses, if_pos hcond, valueAccesses]

/-- Before the counter wraps, a group is decoded. -/
lemma ReadUpTo.next {s : DecodeState × Accesses} (hs : ReadUpTo k s) (hk : k < 2 ^ 30)
    (hlong : 2 ^ 32 ≤ length + 4)
    (hnone : ¬ ∃ p < 2 ^ 32, p / 4 * 4 + 4 ≤ base64_data.length ∧ Foreign base64_data p) :
    decodePass base64_data length s.1 = .inr none ∨
    ∃ s', decodePass base64_data length s.1 = .inl s' ∧
      ReadUpTo (k + 1) (s', s.2.append (decodeAccesses base64_data length s.1)) := by
  have hcond : (s.1.index + 4).toNat ≤ length := by
    have hnext : UInt32.ofNat (4 * k) + 4 = UInt32.ofNat (4 * k + 4) := by
      rw [UInt32.ofNat_add]
      rfl
    rw [hs.index, hnext, UInt32.toNat_ofNat']
    omega
  have hreads : ∀ i < 4 * (k + 1),
      i ∈ s.2.reads ++ (decodeAccesses base64_data length s.1).reads := by
    intro i hi
    rw [reads_turn hcond, hs.index, positions_ofNat (by omega)]
    refine List.mem_append.mpr ?_
    by_cases hold : i < 4 * k
    · exact .inl (hs.read i hold)
    · exact .inr (List.mem_range'_1.mpr ⟨by omega, by omega⟩)
  rw [decodePass, if_pos hcond, hs.index]
  cases hvalue : valueAt base64_data (UInt32.ofNat (4 * k)) 4 with
  | none => exact .inl rfl
  | some value =>
      have hdata := length_of_valueAt hk hvalue
      obtain ⟨value', hvalue', hiff⟩ := valueAt_four hk hdata
      obtain rfl : value = value' := Option.some.inj (hvalue.symm.trans hvalue')
      have hpositive : ¬ value.slt 0#32 = true := by
        rw [hiff]
        rintro ⟨p, hlo, hhi, hforeign⟩
        exact hnone ⟨p, by omega, by omega, hforeign⟩
      simp only [decodeValue, if_neg hpositive]
      cases s.1.dest.putAll ([16, 8, 0].map (valueByte value)) with
      | none => exact .inl rfl
      | some dest =>
          refine .inr ⟨_, rfl, ?_, hreads⟩
          change UInt32.ofNat (4 * k) + 4 = _
          rw [Nat.mul_add, UInt32.ofNat_add]
          rfl

/-- Behind `2 ^ 30` groups the first character is read again. -/
lemma ReadUpTo.wraps {s : DecodeState × Accesses} (hs : ReadUpTo (2 ^ 30) s)
    (hlong : 2 ^ 32 ≤ length + 4) :
    ¬ (s.2.append (decodeAccesses base64_data length s.1)).reads.Nodup := by
  have hzero : s.1.index = 0 := by
    rw [hs.index]
    rfl
  have hcond : (s.1.index + 4).toNat ≤ length := by
    rw [hzero]
    change 4 ≤ length
    omega
  refine Accesses.not_nodup_append (hs.read 0 (by norm_num)) ?_
  rw [reads_turn hcond, hzero]
  exact mem_positions 0 (by norm_num)

/-- **A loop whose counter of characters wraps** reads something twice, if it ends at all. -/
lemma not_decodesOnce (hone : (stripped base64_data).length % 4 ≠ 1)
    (hlong : 2 ^ 32 ≤ (stripped base64_data).length + 4)
    (hnone : ¬ ∃ p < 2 ^ 32, p / 4 * 4 + 4 ≤ base64_data.length ∧ Foreign base64_data p) :
    ¬ DecodesOnce base64_data := by
  rintro (h | ⟨d, a, hloop, honce⟩)
  · exact hone h
  rcases hloop.repeats (I := ReadUpTo) (f := Accesses.reads) (fun _ _ => rfl)
    (fun k s hk hs => hs.next hk hlong hnone) (fun s hs => hs.wraps hlong)
    ⟨rfl, fun i hi => absurd hi (by omega)⟩ with hnothing | htwice
  · cases hnothing
  · exact htwice honce.reads_once

end Decode

/-- **The loop of `base64decode`** does everything once exactly if it is not entered, its counter of
characters does not wrap, or it finds a foreign character before it does. -/
lemma decodesOnce_iff (base64_data : Bytes) : DecodesOnce base64_data ↔
    (stripped base64_data).length % 4 = 1 ∨ (stripped base64_data).length + 4 < 2 ^ 32 ∨
      ∃ p < 2 ^ 32, p / 4 * 4 + 4 ≤ base64_data.length ∧ Foreign base64_data p := by
  constructor
  · intro h
    by_contra hwraps
    push Not at hwraps
    obtain ⟨hone, hlong, hnone⟩ := hwraps
    exact not_decodesOnce hone hlong (fun ⟨p, hp, hwhole, hforeign⟩ => hnone p hp hwhole hforeign) h
  · rintro (hone | hshort | ⟨p, hp, hwhole, hforeign⟩)
    · exact .inl hone
    · exact decodesOnce_of_stops (.inl ⟨hshort, by omega⟩)
    · by_cases hshort : (stripped base64_data).length + 4 < 2 ^ 32
      · exact decodesOnce_of_stops (.inl ⟨hshort, by omega⟩)
      · exact decodesOnce_of_stops (.inr ⟨by omega, p, by omega, hp, hwhole, hforeign⟩)

/-- **The counters do not wrap**, and everything is read and written once, exactly if at most
`3 * 2 ^ 30` bytes are encoded, and if at most `2 ^ 32 - 5` characters are decoded, or there is a
foreign one among the whole groups of the first `2 ^ 32`. -/
theorem counters_iff (data base64_data : Bytes) :
    (EncodesOnce data ↔ data.length ≤ 3 * 2 ^ 30) ∧
    (DecodesOnce base64_data ↔
      (stripped base64_data).length % 4 = 1 ∨ (stripped base64_data).length + 4 < 2 ^ 32 ∨
        ∃ p < 2 ^ 32, p / 4 * 4 + 4 ≤ base64_data.length ∧ Foreign base64_data p) :=
  ⟨encodesOnce_iff data, decodesOnce_iff base64_data⟩

/-- **A string of `3 * 2 ^ 30 + 1` bytes** is not encoded once, and one of `2 ^ 32` characters is
not decoded once. -/
theorem counters_wrap : ¬ EncodesOnce (List.replicate (3 * 2 ^ 30 + 1) 97) ∧
    ¬ DecodesOnce (List.replicate (2 ^ 32) 97) := by
  have ha : (97 : Byte) ∈ base64Characters := by decide
  have hstripped : stripped (List.replicate (2 ^ 32) (97 : Byte)) = List.replicate (2 ^ 32) 97 := by
    have happend := stripped_append (b := List.replicate (2 ^ 32) 97)
      (fun c hc => (List.eq_of_mem_replicate hc).symm ▸ ha) 0
    rwa [List.replicate_zero, List.append_nil] at happend
  refine ⟨not_encodesOnce ?_, not_decodesOnce ?_ ?_ ?_⟩
  · rw [List.length_replicate]
    norm_num
  · rw [hstripped, List.length_replicate]
    norm_num
  · rw [hstripped, List.length_replicate]
    norm_num
  · rintro ⟨p, -, -, c, hc, hforeign⟩
    rw [List.eq_of_mem_replicate (List.mem_of_getElem? hc)] at hforeign
    exact hforeign ha

end Arachnida.Acari
