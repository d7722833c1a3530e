import Arachnida.Acari.HeaderEnd

/-!
The first line of a message, on longer buffers and as it is written.

* `extractRequestHeader_append`, `extractResponseHeader_append`: what the two functions answer on a
  buffer, an incomplete line apart, they answer on every longer buffer; and a message is only
  found behind bytes that are consumed.
* `extractRequestHeader_lineFound`, `extractResponseHeader_lineFound`: a first line that is found
  is found in front of other bytes, too.
* `extractRequestHeader_line`, `extractResponseHeader_line`: a first line that is written with one
  space between its parts is read back.
* `extractRequestHeader_ne_nullPointer`, `extractResponseHeader_ne_nullPointer`: what they throw.
-/

namespace Arachnida.Acari

open Library

variable {Request Response Method : Type*}

/-! ### Longer buffers -/

/-- An answer about `b` that stands for every longer buffer, unless it is "incomplete". -/
def Stable {A : Type*} (extract : Iterator → Except Failure (Option A × Iterator)) (b : Bytes) :
    Prop :=
  match extract b with
  | .error f => ∀ c, extract (b ++ c) = .error f
  | .ok (some a, k) => k.length < b.length ∧ ∀ c, extract (b ++ c) = .ok (some a, k ++ c)
  | .ok (none, k) => k = b

/-- A token that ends inside the buffer, in every longer buffer. -/
lemma word_append {l : Bytes}
    (h : advanceUntilIgnorableWhiteSpace (advanceThroughIgnorableWhiteSpace l) ≠ []) (c : Bytes) :
    advanceThroughIgnorableWhiteSpace (l ++ c) = advanceThroughIgnorableWhiteSpace l ++ c ∧
      advanceUntilIgnorableWhiteSpace (advanceThroughIgnorableWhiteSpace l ++ c)
        = advanceUntilIgnorableWhiteSpace (advanceThroughIgnorableWhiteSpace l) ++ c ∧
      range (advanceThroughIgnorableWhiteSpace l ++ c)
          (advanceUntilIgnorableWhiteSpace (advanceThroughIgnorableWhiteSpace l) ++ c)
        = range (advanceThroughIgnorableWhiteSpace l)
          (advanceUntilIgnorableWhiteSpace (advanceThroughIgnorableWhiteSpace l)) :=
  token_append _ _ h c

/-- The rest of a line that ends inside the buffer, in every longer buffer. -/
lemma phrase_append {l : Bytes}
    (h : advanceUntilEndOfLine (advanceThroughIgnorableWhiteSpace l) ≠ []) (c : Bytes) :
    advanceThroughIgnorableWhiteSpace (l ++ c) = advanceThroughIgnorableWhiteSpace l ++ c ∧
      advanceUntilEndOfLine (advanceThroughIgnorableWhiteSpace l ++ c)
        = advanceUntilEndOfLine (advanceThroughIgnorableWhiteSpace l) ++ c ∧
      range (advanceThroughIgnorableWhiteSpace l ++ c)
          (advanceUntilEndOfLine (advanceThroughIgnorableWhiteSpace l) ++ c)
        = range (advanceThroughIgnorableWhiteSpace l)
          (advanceUntilEndOfLine (advanceThroughIgnorableWhiteSpace l)) :=
  token_append _ _ h c

/-- A token is not empty. -/
lemma length_word_lt {l : Bytes}
    (h : advanceUntilIgnorableWhiteSpace (advanceThroughIgnorableWhiteSpace l) ≠ []) :
    (advanceUntilIgnorableWhiteSpace (advanceThroughIgnorableWhiteSpace l)).length < l.length := by
  have h1 : (advanceThroughIgnorableWhiteSpace l).length ≤ l.length :=
    List.length_dropWhile_le _ l
  have hstop : Stops isIgnorableWhiteSpace (advanceThroughIgnorableWhiteSpace l) :=
    dropWhile_stops _ l
  cases hl : advanceThroughIgnorableWhiteSpace l with
  | nil => exact absurd (by rw [hl]; rfl) h
  | cons c t =>
      rw [hl, stops_cons] at hstop
      have h2 : (advanceUntilIgnorableWhiteSpace t).length ≤ t.length :=
        List.length_dropWhile_le _ t
      have h3 : advanceUntilIgnorableWhiteSpace (c :: t) = advanceUntilIgnorableWhiteSpace t :=
        List.dropWhile_cons_of_pos (by simpa using hstop)
      rw [hl, List.length_cons] at h1
      rw [h3]
      omega

/-- Nor is the rest of a line negative. -/
lemma length_phrase_le (l : Bytes) :
    (advanceUntilEndOfLine (advanceThroughIgnorableWhiteSpace l)).length ≤ l.length :=
  (List.length_dropWhile_le _ _).trans (List.length_dropWhile_le _ l)

/-- **The request line on longer buffers.** -/
theorem extractRequestHeader_append (newRequest : Bytes → Bytes → Bytes → Request)
    (supported_methods : List (Bytes × Method)) (b : Bytes) :
    Stable (extractRequestHeader newRequest supported_methods) b := by
  by_cases h1 : advanceUntilIgnorableWhiteSpace (advanceThroughIgnorableWhiteSpace b) = []
  · simp [Stable, extractRequestHeader, h1]
  have hw1 := word_append h1
  have hl1 := length_word_lt h1
  generalize hb1 : advanceUntilIgnorableWhiteSpace (advanceThroughIgnorableWhiteSpace b) = b1
    at h1 hw1 hl1
  cases hm : (supported_methods.lookup (range (advanceThroughIgnorableWhiteSpace b) b1)).isNone with
  | true => simp [Stable, extractRequestHeader, hb1, h1, hm, hw1]
  | false =>
      by_cases h2 : advanceUntilIgnorableWhiteSpace (advanceThroughIgnorableWhiteSpace b1) = []
      · simp [Stable, extractRequestHeader, hb1, h1, hm, h2]
      have hw2 := word_append h2
      have hl2 := length_word_lt h2
      generalize hb2 : advanceUntilIgnorableWhiteSpace (advanceThroughIgnorableWhiteSpace b1) = b2
        at h2 hw2 hl2
      by_cases h3 : advanceUntilIgnorableWhiteSpace (advanceThroughIgnorableWhiteSpace b2) = []
      · simp [Stable, extractRequestHeader, hb1, h1, hm, hb2, h2, h3]
      have hw3 := word_append h3
      have hl3 := length_word_lt h3
      generalize hb3 : advanceUntilIgnorableWhiteSpace (advanceThroughIgnorableWhiteSpace b2) = b3
        at h3 hw3 hl3
      by_cases hp : range (advanceThroughIgnorableWhiteSpace b2) b3 ≠ bytes "HTTP/1.0" ∧
          range (advanceThroughIgnorableWhiteSpace b2) b3 ≠ bytes "HTTP/1.1"
      · simp [Stable, extractRequestHeader, hb1, h1, hm, hb2, h2, hb3, h3, hp, hw1, hw2, hw3]
      · simp only [Stable, extractRequestHeader, hb1, h1, hm, hb2, h2, hb3, h3, hp, hw1, hw2, hw3,
          List.append_eq_nil_iff, false_and, if_false, Bool.false_eq_true]
        exact ⟨by omega, fun _ => trivial⟩

/-- Behind a token is a later position. -/
lemma word_suffix {l b : Bytes} (h : l <:+ b) :
    advanceUntilIgnorableWhiteSpace (advanceThroughIgnorableWhiteSpace l) <:+ b :=
  ((List.dropWhile_suffix _).trans (List.dropWhile_suffix _)).trans h

/-- A request line only moves forward. -/
lemma extractRequestHeader_suffix {newRequest : Bytes → Bytes → Bytes → Request}
    {supported_methods : List (Bytes × Method)} {b w : Bytes} {request : Option Request}
    (h : extractRequestHeader newRequest supported_methods b = .ok (request, w)) : w <:+ b := by
  have hb := List.suffix_refl b
  have h1 := word_suffix hb
  have h2 := word_suffix h1
  have h3 := word_suffix h2
  simp only [extractRequestHeader] at h
  grind

/-- White space in front of a request line only shows where an incomplete line starts. -/
lemma extractRequestHeader_dropWhile (newRequest : Bytes → Bytes → Bytes → Request)
    (supported_methods : List (Bytes × Method)) (b : Bytes) :
    extractRequestHeader newRequest supported_methods (b.dropWhile isIgnorableWhiteSpace)
      = match extractRequestHeader newRequest supported_methods b with
        | .ok (none, _) => .ok (none, b.dropWhile isIgnorableWhiteSpace)
        | r => r := by
  have hskip : advanceThroughIgnorableWhiteSpace (b.dropWhile isIgnorableWhiteSpace)
      = advanceThroughIgnorableWhiteSpace b := List.dropWhile_idempotent _ _
  simp only [extractRequestHeader, hskip]
  split_ifs <;> rfl

/-- **The status line on longer buffers.** -/
theorem extractResponseHeader_append (newResponse : Bytes → ℕ → Bytes → Response) (b : Bytes) :
    Stable (extractResponseHeader newResponse) b := by
  by_cases h1 : advanceUntilIgnorableWhiteSpace (advanceThroughIgnorableWhiteSpace b) = []
  · simp [Stable, extractResponseHeader, h1]
  have hw1 := word_append h1
  have hl1 := length_word_lt h1
  generalize hb1 : advanceUntilIgnorableWhiteSpace (advanceThroughIgnorableWhiteSpace b) = b1
    at h1 hw1 hl1
  by_cases hp : range (advanceThroughIgnorableWhiteSpace b) b1 ≠ bytes "HTTP/1.0" ∧
      range (advanceThroughIgnorableWhiteSpace b) b1 ≠ bytes "HTTP/1.1"
  · simp [Stable, extractResponseHeader, hb1, h1, hp, hw1]
  by_cases h2 : advanceUntilIgnorableWhiteSpace (advanceThroughIgnorableWhiteSpace b1) = []
  · simp only [Stable, extractResponseHeader, hb1, h1, hp, h2, if_false, if_true]
  have hw2 := word_append h2
  have hl2 := length_word_lt h2
  generalize hb2 : advanceUntilIgnorableWhiteSpace (advanceThroughIgnorableWhiteSpace b1) = b2
    at h2 hw2 hl2
  by_cases h3 : advanceUntilEndOfLine (advanceThroughIgnorableWhiteSpace b2) = []
  · simp only [Stable, extractResponseHeader, hb1, h1, hp, hb2, h2, h3, if_false, if_true]
  have hw3 := phrase_append h3
  have hl3 := length_phrase_le b2
  generalize hb3 : advanceUntilEndOfLine (advanceThroughIgnorableWhiteSpace b2) = b3 at h3 hw3 hl3
  cases hc : lexicalCast 32 (range (advanceThroughIgnorableWhiteSpace b1) b2) with
  | none =>
      simp only [Stable, extractResponseHeader, hb1, h1, hp, hb2, h2, hb3, h3, hc, hw1, hw2, hw3,
        List.append_eq_nil_iff, false_and, if_false, implies_true]
  | some code =>
      simp only [Stable, extractResponseHeader, hb1, h1, hp, hb2, h2, hb3, h3, hc, hw1, hw2, hw3,
        List.append_eq_nil_iff, false_and, if_false, implies_true, and_true]
      omega

/-! ### Other bytes behind the line -/

/-- A line is found up to a white space character, whatever follows that character. -/
def LineFound {A : Type*} (extract : Iterator → Except Failure (Option A × Iterator)) : Prop :=
  ∀ l w a, extract (l ++ w) = .ok (some a, w) → ∃ c x, w = c :: x ∧
    isIgnorableWhiteSpace c = true ∧ ∀ y, extract (l ++ c :: y) = .ok (some a, c :: y)

/-- The character at which a scan has stopped. -/
lemma exists_cons_of_dropWhile {p : Byte → Bool} {b w : Bytes}
    (h : b.dropWhile (fun c => !p c) = w) (hne : w ≠ []) : ∃ c x, w = c :: x ∧ p c = true := by
  have hstop := dropWhile_stops (fun c => !p c) b
  rw [h] at hstop
  cases w with
  | nil => exact absurd rfl hne
  | cons c x => exact ⟨c, x, rfl, by simpa using hstop⟩

/-- A token in front of a place in the buffer, whatever is there. -/
lemma word_cons {l x k : Bytes} {c : Byte}
    (h : advanceUntilIgnorableWhiteSpace (advanceThroughIgnorableWhiteSpace (l ++ c :: x))
      = k ++ c :: x) :
    ∃ t, ∀ y, advanceThroughIgnorableWhiteSpace (l ++ c :: y) = t ++ (k ++ c :: y) ∧
      advanceUntilIgnorableWhiteSpace (t ++ (k ++ c :: y)) = k ++ c :: y :=
  token_append_cons _ _ h

/-- The rest of a line in front of a place in the buffer, whatever is there. -/
lemma phrase_cons {l x k : Bytes} {c : Byte}
    (h : advanceUntilEndOfLine (advanceThroughIgnorableWhiteSpace (l ++ c :: x)) = k ++ c :: x) :
    ∃ t, ∀ y, advanceThroughIgnorableWhiteSpace (l ++ c :: y) = t ++ (k ++ c :: y) ∧
      advanceUntilEndOfLine (t ++ (k ++ c :: y)) = k ++ c :: y :=
  token_append_cons _ _ h

/-- Where a token ends in front of a place in the buffer, it begins in front of that place. -/
lemma exists_append_of_word {b u x : Bytes} {c : Byte}
    (hw : advanceUntilIgnorableWhiteSpace (advanceThroughIgnorableWhiteSpace b) = u)
    (h : c :: x <:+ u) : ∃ k, b = k ++ c :: x := by
  obtain ⟨k, hk⟩ := (hw ▸ h).trans (word_suffix (List.suffix_refl b))
  exact ⟨k, hk.symm⟩

/-- **The request line in front of other bytes.** -/
theorem extractRequestHeader_lineFound (newRequest : Bytes → Bytes → Bytes → Request)
    (supported_methods : List (Bytes × Method)) :
    LineFound (extractRequestHeader newRequest supported_methods) := by
  intro l w a h
  have hend := h
  simp only [extractRequestHeader] at hend
  split_ifs at hend with h1 hm h2 h3 hp <;>
    simp only [Except.ok.injEq, Prod.mk.injEq, reduceCtorEq, false_and] at hend
  obtain ⟨-, hw3⟩ := hend
  obtain ⟨c, x, rfl, hc⟩ := exists_cons_of_dropWhile hw3 (hw3 ▸ h3)
  refine ⟨c, x, rfl, hc, fun y => ?_⟩
  clear h1 hm h2 h3 hp
  -- each of the three tokens ends in front of that character
  generalize hw1 : advanceUntilIgnorableWhiteSpace (advanceThroughIgnorableWhiteSpace (l ++ c :: x))
    = b1 at hw3
  generalize hw2 : advanceUntilIgnorableWhiteSpace (advanceThroughIgnorableWhiteSpace b1)
      = b2 at hw3
  obtain ⟨k₂, rfl⟩ := exists_append_of_word hw3 (List.suffix_refl _)
  obtain ⟨k₁, rfl⟩ := exists_append_of_word hw2 (List.suffix_append k₂ _)
  obtain ⟨t₁, ht₁⟩ := word_cons hw1
  obtain ⟨t₂, ht₂⟩ := word_cons hw2
  obtain ⟨t₃, ht₃⟩ := @word_cons k₂ x [] c hw3
  simp only [List.nil_append] at ht₃
  simp only [extractRequestHeader, ht₁, ht₂, ht₃, range_append, List.append_eq_nil_iff,
    reduceCtorEq, and_false, if_false] at h ⊢
  cases hm : (supported_methods.lookup t₁).isNone with
  | true => simp only [hm, if_true, reduceCtorEq] at h
  | false =>
      simp only [hm, Bool.false_eq_true, if_false] at h ⊢
      by_cases hp : t₃ ≠ bytes "HTTP/1.0" ∧ t₃ ≠ bytes "HTTP/1.1"
      · rw [if_pos hp] at h
        cases h
      · rw [if_neg hp] at h ⊢
        exact congrArg _ (Prod.ext (Prod.mk.inj (Except.ok.inj h)).1 rfl)

/-- **The status line in front of other bytes.** -/
theorem extractResponseHeader_lineFound (newResponse : Bytes → ℕ → Bytes → Response) :
    LineFound (extractResponseHeader newResponse) := by
  intro l w a h
  have hend := h
  simp only [extractResponseHeader] at hend
  split_ifs at hend with h1 hp h2 h3 <;>
    try simp only [Except.ok.injEq, Prod.mk.injEq, reduceCtorEq, false_and] at hend
  have hw3 : advanceUntilEndOfLine (advanceThroughIgnorableWhiteSpace
      (advanceUntilIgnorableWhiteSpace (advanceThroughIgnorableWhiteSpace
        (advanceUntilIgnorableWhiteSpace (advanceThroughIgnorableWhiteSpace (l ++ w)))))) = w := by
    split at hend
    · cases hend
    · exact (Prod.mk.inj (Except.ok.inj hend)).2
  obtain ⟨c, x, rfl, hc⟩ := exists_cons_of_dropWhile hw3 (hw3 ▸ h3)
  refine ⟨c, x, rfl, isIgnorableWhiteSpace_of_isNewLine hc, fun y => ?_⟩
  clear h1 h2 h3 hp hend
  -- each of the three tokens ends in front of that character
  generalize hw1 : advanceUntilIgnorableWhiteSpace (advanceThroughIgnorableWhiteSpace (l ++ c :: x))
    = b1 at hw3
  generalize hw2 : advanceUntilIgnorableWhiteSpace (advanceThroughIgnorableWhiteSpace b1)
      = b2 at hw3
  obtain ⟨k₂, rfl⟩ : ∃ k, b2 = k ++ c :: x := by
    have hsuffix : advanceUntilEndOfLine (advanceThroughIgnorableWhiteSpace b2) <:+ b2 :=
      (List.dropWhile_suffix _).trans (List.dropWhile_suffix _)
    obtain ⟨k, hk⟩ := hw3 ▸ hsuffix
    exact ⟨k, hk.symm⟩
  obtain ⟨k₁, rfl⟩ := exists_append_of_word hw2 (List.suffix_append k₂ _)
  obtain ⟨t₁, ht₁⟩ := word_cons hw1
  obtain ⟨t₂, ht₂⟩ := word_cons hw2
  obtain ⟨t₃, ht₃⟩ := @phrase_cons k₂ x [] c hw3
  simp only [List.nil_append] at ht₃
  simp only [extractResponseHeader, ht₁, ht₂, ht₃, range_append, List.append_eq_nil_iff,
    reduceCtorEq, and_false, if_false] at h ⊢
  split_ifs at h ⊢ with hp
  cases hcode : lexicalCast 32 t₂ with
  | none => simp only [hcode] at h; cases h
  | some code =>
      simp only [hcode] at h ⊢
      exact congrArg _ (Prod.ext (Prod.mk.inj (Except.ok.inj h)).1 rfl)

/-! ### First lines as they are written -/

/-- A part of a first line: not empty and without white space. -/
def IsWord (w : Bytes) : Prop := w ≠ [] ∧ ∀ c ∈ w, isIgnorableWhiteSpace c = false

instance (w : Bytes) : Decidable (IsWord w) := inferInstanceAs (Decidable (_ ∧ _))

/-- A word, scanned. -/
lemma IsWord.scanned {w : Bytes} (h : IsWord w) {c : Byte} (hc : isIgnorableWhiteSpace c = true)
    (r : Bytes) : advanceThroughIgnorableWhiteSpace (w ++ c :: r) = w ++ c :: r ∧
      advanceUntilIgnorableWhiteSpace (w ++ c :: r) = c :: r := by
  constructor
  · refine dropWhile_of_stops (Stops.append ?_ h.1 _)
    cases w with
    | nil => trivial
    | cons c w => exact h.2 c (by simp)
  · exact dropWhile_append_stops (fun c hc => by simp [h.2 c hc]) (by simp [hc])

lemma advanceThroughIgnorableWhiteSpace_space (r : Bytes) :
    advanceThroughIgnorableWhiteSpace (32 :: r) = advanceThroughIgnorableWhiteSpace r :=
  List.dropWhile_cons_of_pos (by decide)

/-- What a request line is read as: its version may not be supported. -/
lemma extractRequestHeader_version (newRequest : Bytes → Bytes → Bytes → Request)
    {supported_methods : List (Bytes × Method)} {method url protocol : Bytes}
    (hm : IsWord method) (hs : (supported_methods.lookup method).isSome) (hu : IsWord url)
    (hp : IsWord protocol) (r : Bytes) :
    extractRequestHeader newRequest supported_methods
        (method ++ 32 :: (url ++ 32 :: (protocol ++ 13 :: r)))
      = if protocol ≠ bytes "HTTP/1.0" ∧ protocol ≠ bytes "HTTP/1.1" then
          .error (.unsupportedProtocol protocol)
        else .ok (some (newRequest method url protocol), 13 :: r) := by
  obtain ⟨hm1, hm2⟩ := hm.scanned (c := 32) (by decide) (url ++ 32 :: (protocol ++ 13 :: r))
  obtain ⟨hu1, hu2⟩ := hu.scanned (c := 32) (by decide) (protocol ++ 13 :: r)
  obtain ⟨hp1, hp2⟩ := hp.scanned (c := 13) (by decide) r
  have hs' : (supported_methods.lookup method).isNone = false := by
    cases h : supported_methods.lookup method with
    | none => simp [h] at hs
    | some m => rfl
  simp only [extractRequestHeader, hm1, hm2, hu1, hu2, hp1, hp2, range_append, hs',
    advanceThroughIgnorableWhiteSpace_space, reduceCtorEq, if_false, Bool.false_eq_true]

/-- A supported version is a word. -/
lemma isWord_of_version {protocol : Bytes}
    (hp : protocol = bytes "HTTP/1.0" ∨ protocol = bytes "HTTP/1.1") : IsWord protocol := by
  rcases hp with rfl | rfl <;> decide

/-- **A request line is read back**, in front of the carriage return. -/
theorem extractRequestHeader_line (newRequest : Bytes → Bytes → Bytes → Request)
    {supported_methods : List (Bytes × Method)} {method url protocol : Bytes}
    (hm : IsWord method) (hs : (supported_methods.lookup method).isSome) (hu : IsWord url)
    (hp : protocol = bytes "HTTP/1.0" ∨ protocol = bytes "HTTP/1.1") (r : Bytes) :
    extractRequestHeader newRequest supported_methods
        (method ++ 32 :: (url ++ 32 :: (protocol ++ 13 :: r)))
      = .ok (some (newRequest method url protocol), 13 :: r) := by
  rw [extractRequestHeader_version newRequest hm hs hu (isWord_of_version hp),
    if_neg fun h => hp.elim h.1 h.2]

/-- A status line of a version that is not supported is refused. -/
lemma extractResponseHeader_unsupported (newResponse : Bytes → ℕ → Bytes → Response)
    {protocol : Bytes} (hp : IsWord protocol)
    (hversion : protocol ≠ bytes "HTTP/1.0" ∧ protocol ≠ bytes "HTTP/1.1") (r : Bytes) :
    extractResponseHeader newResponse (protocol ++ 32 :: r)
      = .error (.unsupportedProtocol protocol) := by
  obtain ⟨hp1, hp2⟩ := hp.scanned (c := 32) (by decide) r
  simp only [extractResponseHeader, hp1, hp2, range_append, reduceCtorEq, if_false]
  rw [if_pos hversion]

/-- What a status line is read as: its code may be too large. -/
lemma extractResponseHeader_code (newResponse : Bytes → ℕ → Bytes → Response)
    {protocol code space reason : Bytes}
    (hp : protocol = bytes "HTTP/1.0" ∨ protocol = bytes "HTTP/1.1") (hc : IsWord code)
    (hs : ∀ c ∈ space, isIgnorableWhiteSpace c = true) (hr : reason ≠ [])
    (hstart : Stops isIgnorableWhiteSpace reason) (hline : ∀ c ∈ reason, isNewLine c = false)
    (r : Bytes) :
    extractResponseHeader newResponse
        (protocol ++ 32 :: (code ++ 32 :: (space ++ (reason ++ 13 :: r))))
      = (lexicalCast 32 code).elim (.error .badLexicalCast)
          fun n => .ok (some (newResponse protocol n reason), 13 :: r) := by
  obtain ⟨hp1, hp2⟩ := (isWord_of_version hp).scanned (c := 32) (by decide)
    (code ++ 32 :: (space ++ (reason ++ 13 :: r)))
  obtain ⟨hc1, hc2⟩ := hc.scanned (c := 32) (by decide) (space ++ (reason ++ 13 :: r))
  have hr1 : advanceThroughIgnorableWhiteSpace (space ++ (reason ++ 13 :: r)) = reason ++ 13 :: r :=
    dropWhile_append_stops hs (hstart.append hr _)
  have hr2 : advanceUntilEndOfLine (reason ++ 13 :: r) = 13 :: r :=
    advanceUntilEndOfLine_append hline (by simp [isNewLine])
  have hp' : ¬ (protocol ≠ bytes "HTTP/1.0" ∧ protocol ≠ bytes "HTTP/1.1") :=
    fun h => hp.elim h.1 h.2
  simp only [extractResponseHeader, hp1, hp2, hc1, hc2, hr1, hr2, range_append,
    advanceThroughIgnorableWhiteSpace_space, reduceCtorEq, if_false, hp']
  cases lexicalCast 32 code <;> rfl

/-- **A status line is read back**, in front of the carriage return and without the white space
in front of its reason. -/
theorem extractResponseHeader_line (newResponse : Bytes → ℕ → Bytes → Response)
    {protocol code space reason : Bytes} {n : ℕ}
    (hp : protocol = bytes "HTTP/1.0" ∨ protocol = bytes "HTTP/1.1") (hc : IsWord code)
    (hn : lexicalCast 32 code = some n) (hs : ∀ c ∈ space, isIgnorableWhiteSpace c = true)
    (hr : reason ≠ []) (hstart : Stops isIgnorableWhiteSpace reason)
    (hline : ∀ c ∈ reason, isNewLine c = false) (r : Bytes) :
    extractResponseHeader newResponse
        (protocol ++ 32 :: (code ++ 32 :: (space ++ (reason ++ 13 :: r))))
      = .ok (some (newResponse protocol n reason), 13 :: r) := by
  rw [extractResponseHeader_code newResponse hp hc hs hr hstart hline, hn, Option.elim_some]

/-! ### Exceptions -/

/-- No null pointer is dereferenced on the way to a request. -/
lemma extractRequestHeader_ne_nullPointer (newRequest : Bytes → Bytes → Bytes → Request)
    (supported_methods : List (Bytes × Method)) (b : Bytes) :
    extractRequestHeader newRequest supported_methods b ≠ .error .nullPointer := by
  simp only [extractRequestHeader]
  split_ifs <;> simp

/-- Nor on the way to a response. -/
lemma extractResponseHeader_ne_nullPointer (newResponse : Bytes → ℕ → Bytes → Response)
    (b : Bytes) : extractResponseHeader newResponse b ≠ .error .nullPointer := by
  simp only [extractResponseHeader]
  split_ifs <;> try split
  all_goals simp

end Arachnida.Acari
