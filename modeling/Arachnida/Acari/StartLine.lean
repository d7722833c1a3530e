import Arachnida.Acari.Framing

/-!
Where the first line of a message ends.

* `firstLine_stable`: neither parser answers about a first line before it has seen its end.
* `statusLine_iff`: a status line is read as it is written, and up to its own end, exactly when its
  reason is not empty and its code fits.  An empty reason is taken from the first header
  (`statusLine_empty_reason`).
* `words`, `firstLine`: the words on the first line of a buffer.
* `exists_requestLine`: what a request is read from.
* `requestLine_iff`: it is one line exactly when three words are on it; the words that are missing
  are taken from the lines that follow (`requestLine_two_lines`).
-/

namespace Arachnida.Acari

open Library

variable {Request Response Method : Type*}

/-! ### Longer buffers -/

/-- The answer about a buffer is the answer about every longer one: the message and the bytes it
is read from, or the exception. An incomplete line is given back as a whole. -/
def AnswersOnce {A : Type*} (extract : Iterator → Except Failure (Option A × Iterator))
    (b : Bytes) : Prop :=
  match extract b with
  | .ok (some a, k) =>
      ∀ c, extract (b ++ c) = .ok (some a, k ++ c) ∧ range (b ++ c) (k ++ c) = range b k
  | .ok (none, k) => k = b
  | .error e => ∀ c, extract (b ++ c) = .error e

lemma Stable.answersOnce {A : Type*} {extract : Iterator → Except Failure (Option A × Iterator)}
    {b : Bytes} (h : Stable extract b)
    (hsuffix : ∀ a k, extract b = .ok (a, k) → k <:+ b) : AnswersOnce extract b := by
  rw [Stable] at h
  rw [AnswersOnce]
  cases hb : extract b with
  | error e =>
      rw [hb] at h
      exact h
  | ok answer =>
      obtain ⟨_ | a, k⟩ := answer
      · rw [hb] at h
        exact h
      · rw [hb] at h
        exact fun c => ⟨h.2 c, range_append_right (hsuffix (some a) k hb) c⟩

/-- A status line only moves forward. -/
lemma extractResponseHeader_suffix {newResponse : Bytes → ℕ → Bytes → Response} {b w : Bytes}
    {response : Option Response} (h : extractResponseHeader newResponse b = .ok (response, w)) :
    w <:+ b := by
  have hb := List.suffix_refl b
  have h1 := word_suffix hb
  have h2 := word_suffix h1
  have h3 : advanceUntilEndOfLine (advanceThroughIgnorableWhiteSpace
      (advanceUntilIgnorableWhiteSpace (advanceThroughIgnorableWhiteSpace
        (advanceUntilIgnorableWhiteSpace (advanceThroughIgnorableWhiteSpace b))))) <:+ b :=
    ((List.dropWhile_suffix _).trans (List.dropWhile_suffix _)).trans h2
  simp only [extractResponseHeader] at h
  grind

/-- **The first line on longer buffers**, for a request and for a response: a message is the same
and ends at the same place, an exception is the same, and only an incomplete line, of which
nothing is consumed, may have a different outcome. -/
theorem firstLine_stable (newRequest : Bytes → Bytes → Bytes → Request)
    (supported_methods : List (Bytes × Method)) (newResponse : Bytes → ℕ → Bytes → Response)
    (b : Bytes) : AnswersOnce (extractRequestHeader newRequest supported_methods) b ∧
      AnswersOnce (extractResponseHeader newResponse) b :=
  ⟨(extractRequestHeader_append newRequest supported_methods b).answersOnce
      fun _ _ h => extractRequestHeader_suffix h,
    (extractResponseHeader_append newResponse b).answersOnce
      fun _ _ h => extractResponseHeader_suffix h⟩

/-! ### Status lines -/

/-- A status line, with the line end and what follows. -/
def statusLine (protocol code reason rest : Bytes) : Bytes :=
  protocol ++ 32 :: (code ++ 32 :: (reason ++ 13 :: 10 :: rest))

/-- **A status line is read up to its own end** exactly when its reason is not empty and its code
fits: white space is skipped in front of the reason, line ends included. -/
theorem statusLine_iff (newResponse : Bytes → ℕ → Bytes → Response) {protocol code reason : Bytes}
    (hp : protocol = bytes "HTTP/1.0" ∨ protocol = bytes "HTTP/1.1") (hc : IsNumeral code)
    (hstart : Stops isIgnorableWhiteSpace reason) (hline : ∀ c ∈ reason, c ≠ 13 ∧ c ≠ 10)
    (rest : Bytes) :
    extractResponseHeader newResponse (statusLine protocol code reason rest)
        = .ok (some (newResponse protocol (decimalValue code) reason), 13 :: 10 :: rest)
      ↔ reason ≠ [] ∧ decimalValue code < 2 ^ 32 := by
  have hcast : lexicalCast 32 code
      = if decimalValue code < 2 ^ 32 then some (decimalValue code) else none :=
    lexicalCast_digits hc
  constructor
  · intro h
    obtain ⟨hc1, hc2⟩ := (isWord_of_isNumeral hc).scanned (c := 32) (by decide)
      (reason ++ 13 :: 10 :: rest)
    have hpw : IsWord protocol := by rcases hp with rfl | rfl <;> decide
    obtain ⟨hp1, hp2⟩ := hpw.scanned (c := 32) (by decide)
      (code ++ 32 :: (reason ++ 13 :: 10 :: rest))
    have hp' : ¬ (protocol ≠ bytes "HTTP/1.0" ∧ protocol ≠ bytes "HTTP/1.1") :=
      fun h => hp.elim h.1 h.2
    simp only [statusLine, extractResponseHeader, hp1, hp2, hc1, hc2, range_append, hp', hcast,
      advanceThroughIgnorableWhiteSpace_space, reduceCtorEq, if_false] at h
    split_ifs at h with h1 h2
    · cases h
    · refine ⟨?_, h2⟩
      rintro rfl
      -- the line end would have been skipped
      have hend : advanceUntilEndOfLine (advanceThroughIgnorableWhiteSpace rest)
          = 13 :: 10 :: rest := (Prod.mk.inj (Except.ok.inj h)).2
      have hle := length_phrase_le rest
      rw [hend, List.length_cons, List.length_cons] at hle
      omega
  · rintro ⟨hne, hfits⟩
    rw [if_pos hfits] at hcast
    have hline' : ∀ c ∈ reason, isNewLine c = false :=
      fun c hcr => by simpa [isNewLine, and_comm] using hline c hcr
    exact extractResponseHeader_line newResponse hp (isWord_of_isNumeral hc) hcast
      (List.forall_mem_nil _) hne hstart hline' _

theorem statusLine_iff_ok :
    extractResponseHeader (fun protocol code reason => (protocol, code, reason))
        (statusLine (bytes "HTTP/1.1") (bytes "404") (bytes "Not Found") (bytes "a: b"))
      = .ok (some (bytes "HTTP/1.1", 404, bytes "Not Found"), 13 :: 10 :: bytes "a: b") :=
  (statusLine_iff (fun protocol code reason => (protocol, code, reason)) (.inr rfl)
    (by decide : IsNumeral (bytes "404")) (by decide : Stops isIgnorableWhiteSpace _) (by decide)
    (bytes "a: b")).mpr ⟨by decide, by decide⟩

/-- **An empty reason is taken from the first header.** -/
theorem statusLine_empty_reason :
    extractResponseHeader (fun protocol code reason => (protocol, code, reason))
        (statusLine (bytes "HTTP/1.1") (bytes "200") [] (bytes "Content-Length: 5\r\n\r\n"))
      = .ok (some (bytes "HTTP/1.1", 200, bytes "Content-Length: 5"), bytes "\r\n\r\n") ∧
    ¬ extractResponseHeader (fun protocol code reason => (protocol, code, reason))
        (statusLine (bytes "HTTP/1.1") (bytes "200") [] (bytes "Content-Length: 5\r\n\r\n"))
      = .ok (some (bytes "HTTP/1.1", 200, []),
          13 :: 10 :: bytes "Content-Length: 5\r\n\r\n") := by
  refine ⟨rfl, fun h => ?_⟩
  have hreason := Option.some_inj.mp (Prod.mk.inj (Except.ok.inj h)).1
  exact absurd (congrArg (fun m => m.2.2) hreason) (by decide)

/-! ### The words of a line -/

/-- The words of a text, between its white space. -/
def words (l : Bytes) : List Bytes :=
  (l.splitOnP isIgnorableWhiteSpace).filter fun w => !w.isEmpty

/-- The first line of a buffer: behind white space, and up to a line end. -/
def firstLine (b : Bytes) : Bytes :=
  (advanceThroughIgnorableWhiteSpace b).takeWhile fun c => !isNewLine c

lemma words_cons_space {c : Byte} (hc : isIgnorableWhiteSpace c = true) (l : Bytes) :
    words (c :: l) = words l := by
  have hsplit := List.splitOnP_append_cons_of_forall_mem
    (List.forall_mem_nil fun c => isIgnorableWhiteSpace c = false) c hc l
  rw [List.nil_append] at hsplit
  rw [words, hsplit]
  rfl

/-- White space in front of words. -/
lemma words_space {s : Bytes} (hs : ∀ c ∈ s, isIgnorableWhiteSpace c = true) (l : Bytes) :
    words (s ++ l) = words l := by
  induction s with
  | nil => rfl
  | cons c s ih =>
      rw [List.cons_append, words_cons_space (hs c (by simp)), ih fun d hd => hs d (by simp [hd])]

lemma words_all_space {s : Bytes} (hs : ∀ c ∈ s, isIgnorableWhiteSpace c = true) :
    words s = [] := by
  rw [← List.append_nil s, words_space hs]
  rfl

/-- A word ends at the white space behind it, or at the end. -/
lemma words_word {w l : Bytes} (hw : IsWord w) (hl : Stops (fun c => !isIgnorableWhiteSpace c) l) :
    words (w ++ l) = w :: words l := by
  have hne : (!w.isEmpty) = true := by simpa using hw.1
  cases l with
  | nil =>
      rw [List.append_nil, words, List.splitOnP_eq_singleton hw.2, List.filter_cons, if_pos hne]
      rfl
  | cons c l =>
      have hc : isIgnorableWhiteSpace c = true := by simpa using hl
      rw [words_cons_space hc, words, List.splitOnP_append_cons_of_forall_mem hw.2 c hc,
        List.filter_cons, if_pos hne]
      rfl

/-- White space between two words: not empty. -/
def IsSpace (s : Bytes) : Prop := s ≠ [] ∧ ∀ c ∈ s, isIgnorableWhiteSpace c = true

lemma IsSpace.stops {s : Bytes} (h : IsSpace s) (l : Bytes) :
    Stops (fun c => !isIgnorableWhiteSpace c) (s ++ l) := by
  cases s with
  | nil => exact absurd rfl h.1
  | cons c s => simpa using h.2 c (by simp)

lemma words_word_space {w s : Bytes} (hw : IsWord w) (hs : IsSpace s) (l : Bytes) :
    words (w ++ (s ++ l)) = w :: words l := by
  rw [words_word hw (hs.stops l), words_space hs.2]

/-- A line is in one piece. -/
def OneLine (l : Bytes) : Prop := ∀ c ∈ l, c ≠ 13 ∧ c ≠ 10

lemma oneLine_iff {l : Bytes} : OneLine l ↔ ∀ c ∈ l, (!isNewLine c) = true := by
  refine forall₂_congr fun c _ => ?_
  simp [isNewLine, and_comm]

lemma IsWord.oneLine {w : Bytes} (hw : IsWord w) : OneLine w :=
  oneLine_iff.mpr fun c hc => by
    simpa using not_isNewLine_of_not_isIgnorableWhiteSpace (hw.2 c hc)

/-- The words on a line, up to the first space that ends it. -/
lemma words_takeWhile {w s : Bytes} (hw : IsWord w) (hs : IsSpace s) (l : Bytes) :
    (OneLine s → words ((w ++ (s ++ l)).takeWhile fun c => !isNewLine c)
        = w :: words (l.takeWhile fun c => !isNewLine c)) ∧
      (¬ OneLine s → words ((w ++ (s ++ l)).takeWhile fun c => !isNewLine c) = [w]) := by
  rw [List.takeWhile_append_of_pos (oneLine_iff.mp hw.oneLine)]
  constructor
  · intro hone
    rw [List.takeWhile_append_of_pos (oneLine_iff.mp hone), words_word_space hw hs]
  · intro hone
    obtain ⟨a, n, rfl, ha, hn⟩ := exists_run (fun c => !isNewLine c) s
    have hne : n ≠ [] := by
      rintro rfl
      exact hone (oneLine_iff.mpr (by simpa using ha))
    rw [List.append_assoc, takeWhile_append_stops ha (hn.append hne l)]
    have hspace : ∀ c ∈ a, isIgnorableWhiteSpace c = true := fun c hc => hs.2 c (by simp [hc])
    rw [words_word hw, words_all_space hspace]
    cases a with
    | nil => trivial
    | cons c a => simpa using hspace c (by simp)

/-! ### Request lines -/

/-- A token that ends inside the buffer is a word, behind white space. -/
lemma exists_word {l k : Bytes}
    (hk : advanceUntilIgnorableWhiteSpace (advanceThroughIgnorableWhiteSpace l) = k)
    (hne : k ≠ []) :
    ∃ s w, l = s ++ (w ++ k) ∧ (∀ c ∈ s, isIgnorableWhiteSpace c = true) ∧ IsWord w ∧
      advanceThroughIgnorableWhiteSpace l = w ++ k := by
  obtain ⟨s, l', rfl, hs, hstop⟩ := exists_run isIgnorableWhiteSpace l
  obtain ⟨w, k', rfl, hw, hstop'⟩ := exists_run (fun c => !isIgnorableWhiteSpace c) l'
  have hskip : advanceThroughIgnorableWhiteSpace (s ++ (w ++ k')) = w ++ k' :=
    dropWhile_append_stops hs hstop
  have hend : advanceUntilIgnorableWhiteSpace (w ++ k') = k' := dropWhile_append_stops hw hstop'
  obtain rfl : k' = k := by rw [← hend, ← hskip, hk]
  refine ⟨s, w, rfl, hs, ⟨?_, fun c hc => by simpa using hw c hc⟩, hskip⟩
  rintro rfl
  exact hne (eq_nil_of_stops_not hstop hstop')

/-- Behind a token is white space. -/
lemma stops_word {l k : Bytes}
    (hk : advanceUntilIgnorableWhiteSpace (advanceThroughIgnorableWhiteSpace l) = k) :
    Stops (fun c => !isIgnorableWhiteSpace c) k :=
  hk ▸ dropWhile_stops _ _

/-- The white space between two tokens is not empty. -/
lemma isSpace_of_stops {s w k : Bytes} (hs : ∀ c ∈ s, isIgnorableWhiteSpace c = true)
    (hw : IsWord w) (hstop : Stops (fun c => !isIgnorableWhiteSpace c) (s ++ (w ++ k))) :
    IsSpace s := by
  refine ⟨?_, hs⟩
  rintro rfl
  rw [List.nil_append] at hstop
  exact hw.1 (eq_nil_of_stops_not (stops_of_all hw.2) hstop.of_append)

/-- **What a request is read from**: three words with white space between them, behind white
space, the first of which is a method and the third a protocol that is supported. -/
lemma exists_requestLine {newRequest : Bytes → Bytes → Bytes → Request}
    {supported_methods : List (Bytes × Method)} {b k : Bytes} {request : Request}
    (h : extractRequestHeader newRequest supported_methods b = .ok (some request, k)) :
    ∃ method space url space' protocol,
      advanceThroughIgnorableWhiteSpace b
        = method ++ (space ++ (url ++ (space' ++ (protocol ++ k)))) ∧
      IsWord method ∧ IsSpace space ∧ IsWord url ∧ IsSpace space' ∧ IsWord protocol ∧
      Stops (fun c => !isIgnorableWhiteSpace c) k ∧ (supported_methods.lookup method).isSome ∧
      (protocol = bytes "HTTP/1.0" ∨ protocol = bytes "HTTP/1.1") ∧
      request = newRequest method url protocol := by
  simp only [extractRequestHeader] at h
  split_ifs at h with h1 hm h2 h3 hp <;>
    simp only [Except.ok.injEq, Prod.mk.injEq, reduceCtorEq, false_and] at h
  obtain ⟨hrequest, hk⟩ := h
  generalize hb1 : advanceUntilIgnorableWhiteSpace (advanceThroughIgnorableWhiteSpace b) = b1 at *
  generalize hb2 : advanceUntilIgnorableWhiteSpace (advanceThroughIgnorableWhiteSpace b1) = b2 at *
  obtain ⟨_, method, -, -, hmethod, hskip⟩ := exists_word hb1 h1
  obtain ⟨space, url, hl1, hs1, hurl, hskip1⟩ := exists_word hb2 h2
  obtain ⟨space', protocol, hl2, hs2, hprotocol, hskip2⟩ := exists_word hk (hk ▸ h3)
  have hspace : IsSpace space := isSpace_of_stops hs1 hurl (hl1 ▸ stops_word hb1)
  have hspace' : IsSpace space' := isSpace_of_stops hs2 hprotocol (hl2 ▸ stops_word hb2)
  have htext : advanceThroughIgnorableWhiteSpace b
      = method ++ (space ++ (url ++ (space' ++ (protocol ++ k)))) := by
    rw [hskip, hl1, hl2]
  have hm' : range (advanceThroughIgnorableWhiteSpace b) b1 = method := by
    rw [hskip, range_append]
  have hu' : range (advanceThroughIgnorableWhiteSpace b1) b2 = url := by rw [hskip1, range_append]
  have hp' : range (advanceThroughIgnorableWhiteSpace b2) k = protocol := by
    rw [hskip2, range_append]
  rw [hm', hu', hk, hp'] at hrequest
  rw [hm'] at hm
  rw [hk, hp', not_and_or, not_not, not_not] at hp
  refine ⟨method, space, url, space', protocol, htext, hmethod, hspace, hurl, hspace', hprotocol,
    stops_word hk, ?_, hp, (Option.some_inj.mp hrequest).symm⟩
  cases hlook : supported_methods.lookup method with
  | none => exact absurd (by rw [hlook]; rfl) hm
  | some m => rfl

/-- A request line: a method that is supported, a URL and one of the two protocols, with white
space between them, and all on one line. -/
def IsRequestLine (supported_methods : List (Bytes × Method))
    (line method url protocol : Bytes) : Prop :=
  ∃ space space', line = method ++ (space ++ (url ++ (space' ++ protocol))) ∧
    IsWord method ∧ IsSpace space ∧ IsWord url ∧ IsSpace space' ∧
    (supported_methods.lookup method).isSome ∧
    (protocol = bytes "HTTP/1.0" ∨ protocol = bytes "HTTP/1.1") ∧ OneLine line

/-- **A request line is one line** exactly when three words are on the first line of the buffer. -/
theorem requestLine_iff {newRequest : Bytes → Bytes → Bytes → Request}
    {supported_methods : List (Bytes × Method)} {b k : Bytes} {request : Request}
    (h : extractRequestHeader newRequest supported_methods b = .ok (some request, k)) :
    (∃ method url protocol, request = newRequest method url protocol ∧
        IsRequestLine supported_methods (range (advanceThroughIgnorableWhiteSpace b) k)
          method url protocol)
      ↔ 3 ≤ (words (firstLine b)).length := by
  obtain ⟨method, space, url, space', protocol, htext, hm, hs, hu, hs', hp, hk, hsupported,
    hversion, rfl⟩ := exists_requestLine h
  have hline : range (advanceThroughIgnorableWhiteSpace b) k
      = method ++ (space ++ (url ++ (space' ++ protocol))) := by
    rw [htext]
    simpa only [List.append_assoc] using
      range_append (method ++ (space ++ (url ++ (space' ++ protocol)))) k
  have hwords : 3 ≤ (words (firstLine b)).length ↔ OneLine space ∧ OneLine space' := by
    rw [firstLine, htext]
    by_cases h1 : OneLine space
    · rw [(words_takeWhile hm hs _).1 h1]
      by_cases h2 : OneLine space'
      · rw [(words_takeWhile hu hs' _).1 h2,
          List.takeWhile_append_of_pos (oneLine_iff.mp hp.oneLine),
          words_word hp (Stops.takeWhile hk _)]
        simp [h1, h2]
      · rw [(words_takeWhile hu hs' _).2 h2]
        simp [h2]
    · rw [(words_takeWhile hm hs _).2 h1]
      simp [h1]
  have hone : OneLine (method ++ (space ++ (url ++ (space' ++ protocol))))
      ↔ OneLine space ∧ OneLine space' := by
    have hm' := hm.oneLine
    have hu' := hu.oneLine
    have hp' := hp.oneLine
    simp only [OneLine, List.mem_append] at *
    grind
  rw [hline, hwords, ← hone]
  constructor
  · rintro ⟨_, _, _, -, _, _, -, -, -, -, -, -, -, h⟩
    exact h
  · intro h
    exact ⟨method, url, protocol, rfl, space, space', rfl, hm, hs, hu, hs', hsupported, hversion, h⟩

theorem requestLine_iff_spaces : ∃ method url protocol,
    (bytes "GET", bytes "/a", bytes "HTTP/1.0") = (method, url, protocol) ∧
      IsRequestLine [(bytes "GET", ())]
        (range (advanceThroughIgnorableWhiteSpace (bytes "\r\nGET\t /a  HTTP/1.0\r\n\r\n"))
          (bytes "\r\n\r\n")) method url protocol :=
  (requestLine_iff (rfl : extractRequestHeader (fun method url protocol => (method, url, protocol))
    [(bytes "GET", ())] (bytes "\r\nGET\t /a  HTTP/1.0\r\n\r\n")
      = .ok (some (bytes "GET", bytes "/a", bytes "HTTP/1.0"), bytes "\r\n\r\n"))).mpr (by decide)

/-- **A request line in two lines**: the protocol is taken from the line that follows. -/
theorem requestLine_two_lines :
    extractRequestHeader (fun method url protocol => (method, url, protocol)) [(bytes "GET", ())]
        (bytes "GET /\r\nHTTP/1.1 : x\r\n\r\n")
      = .ok (some (bytes "GET", bytes "/", bytes "HTTP/1.1"), bytes " : x\r\n\r\n") ∧
    ¬ ∃ method url protocol, IsRequestLine [(bytes "GET", ())]
      (range (bytes "GET /\r\nHTTP/1.1 : x\r\n\r\n") (bytes " : x\r\n\r\n"))
      method url protocol := by
  refine ⟨rfl, ?_⟩
  rintro ⟨_, _, _, _, _, -, -, -, -, -, -, -, hone⟩
  exact (hone 13 (by decide)).1 rfl

end Arachnida.Acari
