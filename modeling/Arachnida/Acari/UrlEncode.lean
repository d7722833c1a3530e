import Arachnida.Acari.ParsingHelpers

/-!
`Acari::urlencode` and `Acari::urldecode` (`lib/Acari/urlencode.cpp`).

* `urldecode_urlencode`: what is encoded is decoded again; `urlencode_round_trip`: **what is encoded
  has one piece for each byte, and is decoded again.**
* `urldecode_append_cons`: decoding on both sides of a character that is in no `%xx`.
-/

namespace Arachnida.Acari

open Library

/-- `isxdigit`. -/
def isxdigit (c : Byte) : Bool :=
  (48 ≤ c && c ≤ 57) || (65 ≤ c && c ≤ 70) || (97 ≤ c && c ≤ 102)

/-- The value of a hexadecimal digit. -/
def hexValue (c : Byte) : ℕ :=
  if c ≤ 57 then c.toNat - 48 else if c ≤ 70 then c.toNat - 55 else c.toNat - 87

/-- A hexadecimal digit, as `%x` writes it. -/
def hexDigit (n : ℕ) : Byte := UInt8.ofNat (if n < 10 then 48 + n else 87 + n)

/-- The characters that `urlencode` keeps. -/
def isKept (keep_slash : Bool) (c : Byte) : Bool :=
  (48 ≤ c && c ≤ 57) || (65 ≤ c && c ≤ 90) || (97 ≤ c && c ≤ 122)
    || (bytes "$-_.+!*'(),").contains c || (keep_slash && c == 47)

/-- `Acari::urlencode`. -/
def urlencode (keep_slash : Bool) (target : Bytes) : Bytes :=
  target.flatMap fun c =>
    if !isKept keep_slash c then [37, hexDigit (c.toNat / 16), hexDigit (c.toNat % 16)] else [c]

/-- `Acari::urldecode`. A `%` that is not in front of two digits stays. -/
def urldecode : Bytes → Bytes
  | [] => []
  | 37 :: a :: b :: target =>
      if isxdigit a && isxdigit b then
        UInt8.ofNat (hexValue a * 16 + hexValue b) :: urldecode target
      else 37 :: urldecode (a :: b :: target)
  | c :: target => c :: urldecode target

example : urldecode (bytes "/with%20space%2") = bytes "/with space%2" := by decide

lemma urldecode_cons {c : Byte} (hc : c ≠ 37) (l : Bytes) :
    urldecode (c :: l) = c :: urldecode l := by
  rw [urldecode]
  rintro a b t rfl
  exact absurd rfl hc

/-- A `%` that is not in front of two digits. -/
lemma urldecode_percent {l : Bytes}
    (hl : ∀ a b t, l = a :: b :: t → (isxdigit a && isxdigit b) = false) :
    urldecode (37 :: l) = 37 :: urldecode l := by
  match l, hl with
  | [], _ => rfl
  | [a], _ => rfl
  | a :: b :: t, hl => rw [urldecode, hl a b t rfl, if_neg (by decide)]

/-- **Decoding goes through each part** on both sides of a character that is no digit and no `%`. -/
lemma urldecode_append_cons {c : Byte} (hx : isxdigit c = false) (hc : c ≠ 37) (l r : Bytes) :
    urldecode (l ++ c :: r) = urldecode l ++ c :: urldecode r := by
  induction l using urldecode.induct with
  | case1 => exact urldecode_cons hc r
  | case2 a b t hab ih =>
      rw [List.cons_append, List.cons_append, List.cons_append, urldecode, urldecode, if_pos hab,
        if_pos hab, ih]
      rfl
  | case3 a b t hab ih =>
      have hl := ih
      rw [List.cons_append, List.cons_append] at hl
      rw [List.cons_append, List.cons_append, List.cons_append, urldecode, urldecode, if_neg hab,
        if_neg hab, hl]
      rfl
  | case4 d t hd ih =>
      by_cases hpercent : d = 37
      · subst hpercent
        have ht : urldecode (37 :: t) = 37 :: urldecode t :=
          urldecode_percent fun a b t' ht => absurd ht (hd a b t' rfl)
        have ht' : urldecode (37 :: (t ++ c :: r)) = 37 :: urldecode (t ++ c :: r) := by
          refine urldecode_percent fun a b t' ht' => ?_
          match t, hd with
          | [], _ =>
              obtain ⟨rfl, -⟩ := List.cons.inj ht'
              rw [hx, Bool.false_and]
          | [e], _ =>
              obtain ⟨rfl, hb⟩ := List.cons.inj ht'
              obtain ⟨rfl, -⟩ := List.cons.inj hb
              rw [hx, Bool.and_false]
          | e :: e' :: t, hd => exact absurd rfl (hd e e' t rfl)
        rw [List.cons_append, ht', ht, ih]
        rfl
      · rw [List.cons_append, urldecode_cons hpercent, urldecode_cons hpercent, ih]
        rfl

/-- White space is in no `%xx`. -/
lemma not_isxdigit_of_space {c : Byte} (h : isIgnorableWhiteSpace c = true) :
    isxdigit c = false ∧ c ≠ 37 := by
  simp only [isIgnorableWhiteSpace, Bool.or_eq_true, beq_iff_eq] at h
  rcases h with ((rfl | rfl) | rfl) | rfl <;> decide

lemma urldecode_space {s : Bytes} (hs : ∀ c ∈ s, isIgnorableWhiteSpace c = true) (l : Bytes) :
    urldecode (s ++ l) = s ++ urldecode l := by
  induction s with
  | nil => rfl
  | cons c s ih =>
      rw [List.cons_append, urldecode_cons (not_isxdigit_of_space (hs c (by simp))).2,
        ih fun d hd => hs d (by simp [hd])]
      rfl

/-- **A word is not decoded to the same as the word with white space around it.** -/
lemma eq_nil_of_urldecode_eq {s w t : Bytes} (hs : ∀ c ∈ s, isIgnorableWhiteSpace c = true)
    (ht : Stops (fun c => !isIgnorableWhiteSpace c) t)
    (h : urldecode w = urldecode (s ++ (w ++ t))) : s = [] ∧ t = [] := by
  have hlength := congrArg List.length h
  rw [urldecode_space hs, List.length_append] at hlength
  cases t with
  | nil =>
      rw [List.append_nil] at hlength
      exact ⟨List.length_eq_zero_iff.mp (by omega), rfl⟩
  | cons c t =>
      obtain ⟨hx, hc⟩ := not_isxdigit_of_space (c := c) (by simpa using ht)
      rw [urldecode_append_cons hx hc, List.length_append, List.length_cons] at hlength
      omega

/-! ### The round trip -/

/-- A digit that is written is read. -/
lemma hexDigit_spec : ∀ n < 16, isxdigit (hexDigit n) = true ∧ hexValue (hexDigit n) = n := by
  decide

/-- A byte that is written as `%xx`, in front of other bytes. -/
lemma urldecode_hex (c : Byte) (l : Bytes) :
    urldecode (37 :: hexDigit (c.toNat / 16) :: hexDigit (c.toNat % 16) :: l)
      = c :: urldecode l := by
  have hlt : c.toNat < 256 := c.toNat_lt
  obtain ⟨hx, hv⟩ := hexDigit_spec (c.toNat / 16) (by omega)
  obtain ⟨hx', hv'⟩ := hexDigit_spec (c.toNat % 16) (by omega)
  have hsum : c.toNat / 16 * 16 + c.toNat % 16 = c.toNat := by omega
  rw [urldecode, hx, hx', hv, hv', hsum, UInt8.ofNat_toNat]
  rfl

/-- **What is encoded is decoded again.** -/
theorem urldecode_urlencode (keep_slash : Bool) (target : Bytes) :
    urldecode (urlencode keep_slash target) = target := by
  induction target with
  | nil => rfl
  | cons c target ih =>
      rw [urlencode, List.flatMap_cons, ← urlencode]
      by_cases hc : isKept keep_slash c = true
      · have hne : c ≠ 37 := by
          rintro rfl
          revert hc
          cases keep_slash <;> decide
        rw [hc, if_neg (by decide), List.singleton_append, urldecode_cons hne, ih]
      · rw [if_pos (by simpa using hc)]
        change urldecode (37 :: _ :: _ :: urlencode keep_slash target) = _
        rw [urldecode_hex, ih]

/-- A digit that `%x` writes. -/
def isLowerHexDigit (c : Byte) : Bool := (48 ≤ c && c ≤ 57) || (97 ≤ c && c ≤ 102)

/-- What a byte may be encoded to: an unreserved character, among them the slash only if it is kept,
or a `%` with two lower-case digits. -/
def IsPiece (keep_slash : Bool) (piece : Bytes) : Prop :=
  (∃ c, piece = [c] ∧ c ≠ 37 ∧ (isKept false c = true ∨ keep_slash = true ∧ c = 47)) ∨
    ∃ a b, piece = [37, a, b] ∧ isLowerHexDigit a = true ∧ isLowerHexDigit b = true

lemma isPiece_kept {keep_slash : Bool} {c : Byte} (h : isKept keep_slash c = true) :
    IsPiece keep_slash [c] := by
  refine .inl ⟨c, rfl, ?_, ?_⟩
  · rintro rfl
    revert h
    cases keep_slash <;> decide
  · cases keep_slash with
    | false => exact .inl h
    | true =>
        simp only [isKept, Bool.true_and, Bool.or_eq_true, beq_iff_eq] at h
        rcases h with h | rfl
        · exact .inl (by simpa [isKept] using h)
        · exact .inr ⟨rfl, rfl⟩

lemma isPiece_hex (keep_slash : Bool) (c : Byte) :
    IsPiece keep_slash [37, hexDigit (c.toNat / 16), hexDigit (c.toNat % 16)] := by
  have hall : ∀ n < 16, isLowerHexDigit (hexDigit n) = true := by decide
  have hlt := c.toNat_lt
  exact .inr ⟨_, _, rfl, hall _ (by omega), hall _ (by omega)⟩

/-- **The round trip of percent-encoding**: the encoding is one piece for each byte, and it is
decoded to these bytes. -/
theorem urlencode_round_trip (keep_slash : Bool) (s : Bytes) :
    urldecode (urlencode keep_slash s) = s ∧
      ∃ pieces : List Bytes, pieces.length = s.length ∧ urlencode keep_slash s = pieces.flatten ∧
        ∀ piece ∈ pieces, IsPiece keep_slash piece := by
  refine ⟨urldecode_urlencode keep_slash s, s.map fun c => if !isKept keep_slash c then
    [37, hexDigit (c.toNat / 16), hexDigit (c.toNat % 16)] else [c], List.length_map _, ?_, ?_⟩
  · rw [urlencode, List.flatMap_def]
  · intro piece hpiece
    obtain ⟨c, -, rfl⟩ := List.mem_map.mp hpiece
    split
    · exact isPiece_hex keep_slash c
    · next hkept => exact isPiece_kept (by simpa using hkept)

end Arachnida.Acari
