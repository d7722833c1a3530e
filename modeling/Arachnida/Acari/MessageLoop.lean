import Arachnida.Acari.HeaderEnd

/-!
The part that `HTTPDataHandler::onDataReady` and `Damon::getResponse` have in common line by
line: the loop over the header lines of a message and the search for its body.  Both are stated
for any type of message, given how a header is appended to it.

* `headerLoop`: the `do … while` over the header lines, from the position behind the first line
  (or behind the saved part of the message) on.
* `findBody`: the bytes of the body and the position behind it, if the buffer holds all of them.
* `headerLoop_stops`: where the headers are found to end, no white space follows.
* `headerLoop_append`: what the loop does on a longer buffer, given what it did on this one.
* `headerLoop_lines`: header lines written one per line are read back, trimmed.
-/

namespace Arachnida.Acari

open Library

/-- An HTTP header: a name-value pair (`Details::Header`). -/
structure Header where
  name_ : Bytes
  value_ : Bytes
  deriving DecidableEq, Repr

variable {M : Type*} (push : M → Header → M)

/-- The state of the header loop. -/
@[ext]
structure HeaderState (M : Type*) where
  message : M
  where_ : Iterator
  end_of_headers_found : Bool
  deriving DecidableEq, Repr

namespace HeaderState

variable {M : Type*}

/-- The condition of the `do … while`: another pass, or the state the loop is left with. -/
def next (s : HeaderState M) (end_of_buffer_found : Bool) :
    HeaderState M ⊕ Except Failure (HeaderState M × Bool) :=
  if !s.end_of_headers_found && s.where_ ≠ [] && !end_of_buffer_found then .inl s
  else .inr (.ok (s, end_of_buffer_found))

end HeaderState

/-- One pass of the header loop. -/
def headerPass (s : HeaderState M) : HeaderState M ⊕ Except Failure (HeaderState M × Bool) :=
  let whence := advanceThroughIgnorableWhiteSpace s.where_
  if moreHeaders s.where_ whence then
    let where_ := whence
    let whence := findHeaderEnd where_
    if where_ ≠ whence then
      match splitHeader (range where_ whence) with
      | .error e => .inr (.error e)
      | .ok (name, value) =>
          HeaderState.next ⟨push s.message ⟨name, value⟩, whence, s.end_of_headers_found⟩ false
    else
      -- at the end of the buffer, with more headers to come
      HeaderState.next ⟨s.message, where_, s.end_of_headers_found⟩ true
  else HeaderState.next ⟨s.message, whence, true⟩ false

lemma headerPass_decreasing {s s' : HeaderState M} (h : headerPass push s = .inl s') :
    s'.where_.length < s.where_.length := by
  have hle : (advanceThroughIgnorableWhiteSpace s.where_).length ≤ s.where_.length :=
    List.length_dropWhile_le _ _
  simp only [headerPass] at h
  split at h
  · split at h
    · next hne =>
        have hsuf := findHeaderEnd_suffix (advanceThroughIgnorableWhiteSpace s.where_)
        have hlt : (findHeaderEnd (advanceThroughIgnorableWhiteSpace s.where_)).length
            < (advanceThroughIgnorableWhiteSpace s.where_).length :=
          lt_of_le_of_ne hsuf.length_le fun hl => hne (hsuf.eq_of_length hl).symm
        split at h
        · cases h
        · rw [HeaderState.next] at h
          split at h
          · obtain rfl := Sum.inl.inj h
            exact lt_of_lt_of_le hlt hle
          · cases h
    · simp [HeaderState.next] at h
  · simp [HeaderState.next] at h

/-- The header loop; it leaves with its state and `end_of_buffer_found`. -/
def headerLoop : MeasuredLoop (HeaderState M) (Except Failure (HeaderState M × Bool)) where
  pass := headerPass push
  measure := fun s => s.where_.length
  decreasing := headerPass_decreasing push

/-- The size of the body: the value of the first `Content-Length` header, if there is one. -/
def contentLength (header_fields : List Header) : Except Failure (Option ℕ) :=
  match header_fields.find? fun h => h.name_ == bytes "Content-Length" with
  | none => .ok none
  | some h =>
      match lexicalCast 64 h.value_ with
      | none => .error .badLexicalCast
      | some body_size => .ok (some body_size)

/-- The body and the position behind it, if the buffer holds all of it. -/
def findBody (header_fields : List Header) (where_ : Iterator) :
    Except Failure (Option (Bytes × Iterator)) :=
  match contentLength header_fields with
  | .error e => .error e
  | .ok none => .ok (some ([], where_))
  | .ok (some body_size) =>
      if where_.length < body_size then .ok none
      else .ok (some (where_.take body_size, where_.drop body_size))

lemma findBody_suffix {hs : List Header} {w body rest : Bytes}
    (h : findBody hs w = .ok (some (body, rest))) : w = body ++ rest := by
  rw [findBody] at h
  split at h
  · cases h
  · cases h; rfl
  · split at h
    · cases h
    · cases h; exact (List.take_append_drop _ _).symm

/-- A body that is not there yet is longer than what is. -/
lemma findBody_waiting {hs : List Header} {w : Bytes} (h : findBody hs w = .ok none) :
    ∃ n, contentLength hs = .ok (some n) ∧ w.length < n := by
  rw [findBody] at h
  split at h
  · cases h
  · cases h
  · next n hlen =>
      split at h
      · exact ⟨n, hlen, ‹_›⟩
      · cases h

/-- Whether the headers announce a body does not depend on the bytes behind them. -/
lemma findBody_error {hs : List Header} {w : Bytes} {f : Failure} (h : findBody hs w = .error f)
    (w' : Bytes) : findBody hs w' = .error f := by
  rw [findBody] at h ⊢
  cases hlen : contentLength hs with
  | error f' => simpa only [hlen] using h
  | ok size =>
      cases size with
      | none => simp only [hlen] at h; cases h
      | some n => simp only [hlen] at h; split at h <;> cases h

/-- A body that is there is the body in a longer buffer. -/
lemma findBody_append {hs : List Header} {w body rest : Bytes}
    (h : findBody hs w = .ok (some (body, rest))) (r : Bytes) :
    findBody hs (w ++ r) = .ok (some (body, rest ++ r)) := by
  rw [findBody] at h ⊢
  cases hlen : contentLength hs with
  | error f' => simp only [hlen] at h; cases h
  | ok size =>
      cases size with
      | none => simp only [hlen] at h ⊢; cases h; rfl
      | some n =>
          simp only [hlen] at h ⊢
          split at h
          · cases h
          · next hn =>
              cases h
              rw [if_neg (by simp; omega), List.take_append_of_le_length (by omega),
                List.drop_append_of_le_length (by omega)]

lemma findBody_ne_nullPointer (hs : List Header) (w : Bytes) :
    findBody hs w ≠ .error .nullPointer := by
  rw [findBody, contentLength]
  grind

/-- The first `Content-Length` counts. -/
lemma contentLength_append {hs : List Header} {n : ℕ} (h : contentLength hs = .ok (some n))
    (hs' : List Header) : contentLength (hs ++ hs') = .ok (some n) := by
  rw [contentLength] at h ⊢
  cases hfind : hs.find? fun h => h.name_ == bytes "Content-Length" with
  | none => simp [hfind] at h
  | some header => simpa [List.find?_append, hfind] using h

/-! ### One pass -/

section Pass

variable {push} {m : M} {a u : Bytes} (ha : ∀ c ∈ a, isIgnorableWhiteSpace c = true)
  (hu : Stops isIgnorableWhiteSpace u) (found : Bool)

include ha hu in
/-- White space with the newlines of a blank line in it ends the headers. -/
lemma headerPass_closed (he : endsHeaders a = true) :
    headerPass push ⟨m, a ++ u, found⟩ = .inr (.ok (⟨m, u, true⟩, false)) := by
  have hadv : advanceThroughIgnorableWhiteSpace (a ++ u) = u := dropWhile_append_stops ha hu
  simp [headerPass, hadv, moreHeaders_append, he, HeaderState.next]

include ha hu in
/-- Other white space in front of a header is skipped. -/
lemma headerPass_space (he : endsHeaders a = false) :
    headerPass push ⟨m, a ++ u, found⟩ = headerPass push ⟨m, u, found⟩ := by
  have hadv : advanceThroughIgnorableWhiteSpace (a ++ u) = u := dropWhile_append_stops ha hu
  have hadv' : advanceThroughIgnorableWhiteSpace u = u := dropWhile_of_stops hu
  have hself : moreHeaders u u = true := moreHeaders_append [] u
  simp [headerPass, hadv, hadv', moreHeaders_append, he, hself]

include hu in
lemma headerPass_unknown (he : findHeaderEnd u = u) :
    headerPass push ⟨m, u, found⟩ = .inr (.ok (⟨m, u, found⟩, true)) := by
  have hadv : advanceThroughIgnorableWhiteSpace u = u := dropWhile_of_stops hu
  have hself : moreHeaders u u = true := moreHeaders_append [] u
  simp [headerPass, hadv, hself, he, HeaderState.next]

section Found

variable {h e : Bytes} (hs : Stops isIgnorableWhiteSpace (h ++ e)) (hne : h ≠ [])
  (he : findHeaderEnd (h ++ e) = e)
include hs hne he

/-- A header that ends in front of `e` is split. -/
lemma headerPass_split : headerPass push ⟨m, h ++ e, found⟩ =
    match splitHeader h with
    | .error f => .inr (.error f)
    | .ok (name, value) => HeaderState.next ⟨push m ⟨name, value⟩, e, found⟩ false := by
  have hadv : advanceThroughIgnorableWhiteSpace (h ++ e) = h ++ e := dropWhile_of_stops hs
  have hself : moreHeaders (h ++ e) (h ++ e) = true := moreHeaders_append [] _
  have hdiff : h ++ e ≠ e := by simpa using hne
  simp only [headerPass, hadv, hself, he, if_true, if_pos hdiff, range_append]

/-- A header that ends in front of `e` and has no colon. -/
lemma headerPass_invalid {f : Failure} (hsplit : splitHeader h = .error f) :
    headerPass push ⟨m, h ++ e, found⟩ = .inr (.error f) := by
  rw [headerPass_split _ hs hne he, hsplit]

/-- A header that ends in front of `e` and is appended to the message. -/
lemma headerPass_header {name value : Bytes} (hsplit : splitHeader h = .ok (name, value))
    (hen : e ≠ []) :
    headerPass push ⟨m, h ++ e, false⟩ = .inl ⟨push m ⟨name, value⟩, e, false⟩ := by
  rw [headerPass_split _ hs hne he, hsplit]
  simp [HeaderState.next, hen]

end Found

end Pass

/-! ### The whole loop -/

/-- The loop only moves forward. -/
lemma headerLoop_suffix {s s' : HeaderState M} {eob : Bool}
    (h : (headerLoop push).run s = .ok (s', eob)) : s'.where_ <:+ s.where_ := by
  have key : ∀ s₀ : HeaderState M, ∀ r, headerPass push s₀ = r →
      (∀ s₁, r = .inl s₁ → s₁.where_ <:+ s₀.where_) ∧
      ∀ s₁, r = .inr (.ok s₁) → s₁.1.where_ <:+ s₀.where_ := by
    intro s₀ r hr
    have hadv : advanceThroughIgnorableWhiteSpace s₀.where_ <:+ s₀.where_ :=
      List.dropWhile_suffix _
    have hend := (findHeaderEnd_suffix (advanceThroughIgnorableWhiteSpace s₀.where_)).trans hadv
    simp only [headerPass, HeaderState.next] at hr
    grind
  suffices hall : ∀ t, (headerLoop push).run s = .ok t → t.1.where_ <:+ s.where_ from
    hall (s', eob) h
  refine (headerLoop push).run_invariant (I := fun t => t.where_ <:+ s.where_)
    (Q := fun r => ∀ t, r = .ok t → t.1.where_ <:+ s.where_) ?keeps ?done (List.suffix_refl _)
  case keeps => exact fun t t' ht hp => ((key t _ rfl).1 t' hp).trans ht
  case done => exact fun t r ht hp u hu => ((key t _ rfl).2 u (hu ▸ hp)).trans ht

/-- The loop only pushes headers onto the message. -/
lemma headerLoop_message {s s' : HeaderState M} {eob : Bool}
    (h : (headerLoop push).run s = .ok (s', eob)) :
    ∃ hs : List Header, s'.message = hs.foldl push s.message := by
  have key : ∀ s₀ : HeaderState M, ∀ r, headerPass push s₀ = r → ∀ s₁ : HeaderState M,
      (r = .inl s₁ ∨ ∃ b, r = .inr (.ok (s₁, b))) →
      s₁.message = s₀.message ∨ ∃ header, s₁.message = push s₀.message header := by
    intro s₀ r hr s₁ hs₁
    simp only [headerPass, HeaderState.next] at hr
    grind
  have step : ∀ s₀ s₁ : HeaderState M,
      (s₁.message = s₀.message ∨ ∃ header, s₁.message = push s₀.message header) →
      (∃ hs : List Header, s₀.message = hs.foldl push s.message) →
      ∃ hs : List Header, s₁.message = hs.foldl push s.message := by
    rintro s₀ s₁ (h | ⟨header, h⟩) ⟨hs, hhs⟩
    · exact ⟨hs, h.trans hhs⟩
    · exact ⟨hs ++ [header], by rw [h, hhs, List.foldl_append]; rfl⟩
  suffices hall : ∀ t, (headerLoop push).run s = .ok t →
      ∃ hs : List Header, t.1.message = hs.foldl push s.message from hall (s', eob) h
  refine (headerLoop push).run_invariant
    (I := fun t => ∃ hs : List Header, t.message = hs.foldl push s.message)
    (Q := fun r => ∀ t, r = .ok t → ∃ hs : List Header, t.1.message = hs.foldl push s.message)
    ?keeps ?done ⟨[], rfl⟩
  case keeps => exact fun t t' ht hp => step t t' (key t _ hp t' (.inl rfl)) ht
  case done =>
    rintro t r ht hp ⟨u, b⟩ rfl
    exact step t u (key t _ hp u (.inr ⟨b, rfl⟩)) ht

/-- To find the end of the headers the loop moves over it. -/
lemma headerLoop_shorter {s s' : HeaderState M} {eob : Bool} (hs : s.end_of_headers_found = false)
    (h : (headerLoop push).run s = .ok (s', eob)) (hs' : s'.end_of_headers_found = true) :
    s'.where_.length < s.where_.length := by
  suffices key : ∀ t, (headerLoop push).run s = .ok t → t.1.end_of_headers_found = true →
      t.1.where_.length < s.where_.length from key (s', eob) h hs'
  refine (headerLoop push).run_invariant
    (I := fun t => t.end_of_headers_found = false ∧ t.where_.length ≤ s.where_.length)
    (Q := fun r => ∀ t, r = .ok t → t.1.end_of_headers_found = true →
      t.1.where_.length < s.where_.length) ?keeps ?done ⟨hs, le_rfl⟩
  case keeps =>
    rintro t t' ⟨ht, hle⟩ hp
    change headerPass push t = .inl t' at hp
    have hlt := headerPass_decreasing push hp
    refine ⟨?_, by omega⟩
    simp only [headerPass, HeaderState.next] at hp
    grind
  case done =>
    rintro t r ⟨ht, hle⟩ hp t' rfl hfound
    -- without white space in front there would be more headers
    have hlt : ¬ moreHeaders t.where_ (advanceThroughIgnorableWhiteSpace t.where_) = true →
        (advanceThroughIgnorableWhiteSpace t.where_).length < t.where_.length := by
      intro hmore
      refine lt_of_le_of_ne (List.length_dropWhile_le _ _) fun hlen => hmore ?_
      have hsame : advanceThroughIgnorableWhiteSpace t.where_ = t.where_ :=
        (List.dropWhile_suffix _).eq_of_length hlen
      rw [hsame]
      exact moreHeaders_append [] _
    change headerPass push t = .inr (.ok t') at hp
    simp only [headerPass, HeaderState.next] at hp
    grind

/-- No null pointer is dereferenced in the loop. -/
lemma headerLoop_ne_nullPointer (s : HeaderState M) :
    (headerLoop push).run s ≠ .error .nullPointer := by
  refine (headerLoop push).run_invariant (I := fun _ => True)
    (Q := fun r => r ≠ .error .nullPointer) (fun _ _ _ _ => trivial) ?_ trivial
  rintro s r - hp rfl
  change headerPass push s = _ at hp
  simp only [headerPass, HeaderState.next, splitHeader] at hp
  grind

/-- Behind the end of the headers no white space follows. -/
lemma headerLoop_stops {s : HeaderState M} (hs : s.end_of_headers_found = false)
    {s' : HeaderState M} {eob : Bool} (h : (headerLoop push).run s = .ok (s', eob))
    (hs' : s'.end_of_headers_found = true) : Stops isIgnorableWhiteSpace s'.where_ := by
  suffices key : ∀ s', (headerLoop push).run s = .ok s' → s'.1.end_of_headers_found = true →
      Stops isIgnorableWhiteSpace s'.1.where_ from key (s', eob) h hs'
  refine (headerLoop push).run_invariant (I := fun s => s.end_of_headers_found = false)
    (Q := fun r => ∀ s', r = .ok s' → s'.1.end_of_headers_found = true →
      Stops isIgnorableWhiteSpace s'.1.where_) ?keeps ?done hs
  case keeps =>
    intro s s' _ hp
    change headerPass push s = .inl s' at hp
    simp only [headerPass, HeaderState.next] at hp
    grind
  case done =>
    rintro s r hI hp s' rfl hfound
    obtain ⟨a, u, hw, ha, hu⟩ := exists_run isIgnorableWhiteSpace s.where_
    have hadv : advanceThroughIgnorableWhiteSpace s.where_ = u := by
      rw [hw]; exact dropWhile_append_stops ha hu
    change headerPass push s = .inr (.ok s') at hp
    simp only [headerPass, HeaderState.next, hadv, hI] at hp
    grind

/-- The loop comes to a header whose end is found because the buffer ends in the blank line
behind it, rather than by the first character of the next line. -/
inductive EndsInBlankLine : Bytes → Prop
  | last {h n : Bytes} (hs : Stops isIgnorableWhiteSpace (h ++ n)) (hne : h ≠ [])
      (hn : ∀ c ∈ n, isNewLine c = true) (hends : endsHeaders n = true)
      (he : findHeaderEnd (h ++ n) = n) : EndsInBlankLine (h ++ n)
  | header {h e : Bytes} (hs : Stops isIgnorableWhiteSpace (h ++ e)) (hne : h ≠ [])
      (he : findHeaderEnd (h ++ e) = e) {nv : Bytes × Bytes} (hsplit : splitHeader h = .ok nv) :
      EndsInBlankLine e → EndsInBlankLine (h ++ e)
  | space {a u : Bytes} (ha : ∀ c ∈ a, isIgnorableWhiteSpace c = true)
      (he : endsHeaders a = false) : EndsInBlankLine u → EndsInBlankLine (a ++ u)

/-- The ways the header loop ends on `w`, each with what the loop does on longer buffers. -/
inductive HeaderOutcome (m : M) (w : Bytes) : Except Failure (HeaderState M × Bool) → Prop
  | failed (f : Failure)
      (stable : ∀ r, (EndsInBlankLine w → ¬ ContinuesLine r) →
        (headerLoop push).run ⟨m, w ++ r, false⟩ = .error f) :
      HeaderOutcome m w (.error f)
  | body (m' : M) (v : Bytes) (hne : v ≠ [])
      (stable : ∀ r, (headerLoop push).run ⟨m, w ++ r, false⟩
        = .ok (⟨m', v ++ r, true⟩, false)) :
      HeaderOutcome m w (.ok (⟨m', v, true⟩, false))
  | blank (stable : ∀ r, (headerLoop push).run ⟨m, w ++ r, false⟩
        = .ok (⟨m, r.dropWhile isIgnorableWhiteSpace, true⟩, false)) :
      HeaderOutcome m w (.ok (⟨m, [], true⟩, false))
  | closed (m' : M)
      (stable : ∀ r, (EndsInBlankLine w → ¬ ContinuesLine r) →
        (headerLoop push).run ⟨m, w ++ r, false⟩
          = .ok (⟨m', r.dropWhile isIgnorableWhiteSpace, true⟩, false)) :
      HeaderOutcome m w (.ok (⟨m', [], true⟩, false))
  | space (hw : ∀ c ∈ w, isIgnorableWhiteSpace c = true) (he : endsHeaders w = false) :
      HeaderOutcome m w (.ok (⟨m, [], false⟩, true))
  | line (m' : M) (v : Bytes) (hne : v ≠ []) (hv : Stops isIgnorableWhiteSpace v)
      (stable : ∀ r, (headerLoop push).run ⟨m, w ++ r, false⟩
        = (headerLoop push).run ⟨m', v ++ r, false⟩) :
      HeaderOutcome m w (.ok (⟨m', v, false⟩, true))

/-- A run of white space that has ended the headers goes on in what is appended. -/
lemma headerLoop_blank (m : M) {a : Bytes} (ha : ∀ c ∈ a, isIgnorableWhiteSpace c = true)
    (he : endsHeaders a = true) (r : Bytes) : (headerLoop push).run ⟨m, a ++ r, false⟩
      = .ok (⟨m, r.dropWhile isIgnorableWhiteSpace, true⟩, false) := by
  obtain ⟨b, v, rfl, hb, hv⟩ := exists_run isIgnorableWhiteSpace r
  have hab : ∀ c ∈ a ++ b, isIgnorableWhiteSpace c = true := by
    intro c hc
    exact (List.mem_append.mp hc).elim (ha c) (hb c)
  rw [← List.append_assoc, (headerLoop push).run_of_inr
    (headerPass_closed hab hv false (endsHeaders_append _ _ (.inl he))),
    dropWhile_append_stops hb hv]

section Found

variable {m : M} {h e : Bytes} (hs : Stops isIgnorableWhiteSpace (h ++ e)) (hne : h ≠ [])
include hs hne

lemma headerLoop_invalid (he : findHeaderEnd (h ++ e) = e) {f : Failure}
    (hsplit : splitHeader h = .error f) : (headerLoop push).run ⟨m, h ++ e, false⟩ = .error f :=
  (headerLoop push).run_of_inr (headerPass_invalid false hs hne he hsplit)

lemma headerLoop_header (he : findHeaderEnd (h ++ e) = e) (hen : e ≠ []) {name value : Bytes}
    (hsplit : splitHeader h = .ok (name, value)) : (headerLoop push).run ⟨m, h ++ e, false⟩
      = (headerLoop push).run ⟨push m ⟨name, value⟩, e, false⟩ :=
  (headerLoop push).run_of_inl (headerPass_header hs hne he hsplit hen)

lemma stops_longer (r : Bytes) : Stops isIgnorableWhiteSpace (h ++ (e ++ r)) := by
  rw [← List.append_assoc]
  exact hs.append (by simp [hne]) r

/-- A header behind which the next line begins. -/
lemma headerOutcome_inside (hen : ¬ ∀ c ∈ e, isIgnorableWhiteSpace c = true)
    (stable : ∀ r, findHeaderEnd (h ++ (e ++ r)) = e ++ r)
    (ih : ∀ m' : M, HeaderOutcome push m' e ((headerLoop push).run ⟨m', e, false⟩)) :
    HeaderOutcome push m (h ++ e) ((headerLoop push).run ⟨m, h ++ e, false⟩) := by
  have hene : e ≠ [] := by rintro rfl; simp at hen
  have he : findHeaderEnd (h ++ e) = e := by simpa using stable []
  cases hsplit : splitHeader h with
  | error f =>
      rw [headerLoop_invalid push hs hne he hsplit]
      refine .failed f fun r _ => ?_
      rw [List.append_assoc]
      exact headerLoop_invalid push (stops_longer hs hne r) hne (stable r) hsplit
  | ok nv =>
      obtain ⟨name, value⟩ := nv
      have hread : ∀ r, (headerLoop push).run ⟨m, h ++ e ++ r, false⟩
          = (headerLoop push).run ⟨push m ⟨name, value⟩, e ++ r, false⟩ := by
        intro r
        rw [List.append_assoc]
        exact headerLoop_header push (stops_longer hs hne r) hne (stable r) (by simp [hene]) hsplit
      rw [headerLoop_header push hs hne he hene hsplit]
      have hih := ih (push m ⟨name, value⟩)
      generalize (headerLoop push).run ⟨push m ⟨name, value⟩, e, false⟩ = res at hih ⊢
      have hline : EndsInBlankLine e → EndsInBlankLine (h ++ e) := .header hs hne he hsplit
      cases hih with
      | failed f stable =>
          exact .failed f fun r hr => (hread r).trans (stable r fun h => hr (hline h))
      | body m' v hv stable => exact .body m' v hv fun r => (hread r).trans (stable r)
      | blank stable => exact .closed _ fun r _ => (hread r).trans (stable r)
      | closed m' stable =>
          exact .closed m' fun r hr => (hread r).trans (stable r fun h => hr (hline h))
      | space hw _ => exact absurd hw hen
      | line m' v hv hvs stable => exact .line m' v hv hvs fun r => (hread r).trans (stable r)

end Found

/-- A header behind which the blank line reaches the end of the buffer. -/
lemma headerOutcome_atEnd {m : M} {h n : Bytes} (hs : Stops isIgnorableWhiteSpace (h ++ n))
    (hne : h ≠ []) (hn : ∀ c ∈ n, isNewLine c = true) (hends : endsHeaders n = true)
    (stable : ∀ r, ¬ ContinuesLine r → findHeaderEnd (h ++ (n ++ r)) = n ++ r) :
    HeaderOutcome push m (h ++ n) ((headerLoop push).run ⟨m, h ++ n, false⟩) := by
  have hnn : n ≠ [] := by rintro rfl; simp at hends
  have hn' : ∀ c ∈ n, isIgnorableWhiteSpace c = true :=
    fun c hc => isIgnorableWhiteSpace_of_isNewLine (hn c hc)
  have he : findHeaderEnd (h ++ n) = n := by
    simpa using stable [] (by simp [ContinuesLine])
  have hline : EndsInBlankLine (h ++ n) := .last hs hne hn hends he
  cases hsplit : splitHeader h with
  | error f =>
      rw [headerLoop_invalid push hs hne he hsplit]
      refine .failed f fun r hr => ?_
      rw [List.append_assoc]
      exact headerLoop_invalid push (stops_longer hs hne r) hne (stable r (hr hline)) hsplit
  | ok nv =>
      obtain ⟨name, value⟩ := nv
      have hblank := headerLoop_blank push (push m ⟨name, value⟩) hn' hends
      rw [headerLoop_header push hs hne he hnn hsplit, show n = n ++ [] by simp, hblank []]
      refine .closed _ fun r hr => ?_
      rw [List.append_nil] at hr
      rw [List.append_assoc, List.append_nil, headerLoop_header push (stops_longer hs hne r) hne
        (stable r (hr hline)) (by simp [hnn]) hsplit, hblank r]

/-- A header whose end is not known yet. -/
lemma headerLoop_unknown (m : M) {u : Bytes} (hu : Stops isIgnorableWhiteSpace u)
    (he : findHeaderEnd u = u) :
    (headerLoop push).run ⟨m, u, false⟩ = .ok (⟨m, u, false⟩, true) :=
  (headerLoop push).run_of_inr (headerPass_unknown hu false he)

/-- White space in front of a header, with fewer newlines than a blank line, is skipped. -/
lemma headerLoop_skip (m : M) {a u : Bytes} (ha : ∀ c ∈ a, isIgnorableWhiteSpace c = true)
    (hu : Stops isIgnorableWhiteSpace u) (he : endsHeaders a = false) :
    (headerLoop push).run ⟨m, a ++ u, false⟩ = (headerLoop push).run ⟨m, u, false⟩ := by
  rw [(headerLoop push).run_eq, (headerLoop push).run_eq]
  exact congrArg _ (headerPass_space ha hu false he)

lemma HeaderOutcome.skip {m : M} {a u : Bytes} (ha : ∀ c ∈ a, isIgnorableWhiteSpace c = true)
    (hu : Stops isIgnorableWhiteSpace u) (hne : u ≠ []) (he : endsHeaders a = false)
    {res : Except Failure (HeaderState M × Bool)} (hres : HeaderOutcome push m u res) :
    HeaderOutcome push m (a ++ u) res := by
  have hskip : ∀ r, (headerLoop push).run ⟨m, a ++ u ++ r, false⟩
      = (headerLoop push).run ⟨m, u ++ r, false⟩ := by
    intro r
    rw [List.append_assoc]
    exact headerLoop_skip push m ha (hu.append hne r) he
  have hline : EndsInBlankLine u → EndsInBlankLine (a ++ u) := .space ha he
  cases hres with
  | failed f stable => exact .failed f fun r hr => (hskip r).trans (stable r fun h => hr (hline h))
  | body m' v hv stable => exact .body m' v hv fun r => (hskip r).trans (stable r)
  | blank stable => exact .blank fun r => (hskip r).trans (stable r)
  | closed m' stable =>
      exact .closed m' fun r hr => (hskip r).trans (stable r fun h => hr (hline h))
  | space hw _ =>
      cases u with
      | nil => exact absurd rfl hne
      | cons c u => exact absurd (hw c (by simp)) (by simpa using hu)
  | line m' v hv hvs stable => exact .line m' v hv hvs fun r => (hskip r).trans (stable r)

/-- **The header loop on longer buffers**: whatever the buffer, the loop ends in one of the ways
of `HeaderOutcome`. -/
theorem headerLoop_append (m : M) (w : Bytes) :
    HeaderOutcome push m w ((headerLoop push).run ⟨m, w, false⟩) := by
  induction hlen : w.length using Nat.strong_induction_on generalizing m w with
  | _ len ih =>
      obtain ⟨a, u, rfl, ha, hu⟩ := exists_run isIgnorableWhiteSpace w
      cases he : endsHeaders a with
      | true =>
          rw [(headerLoop push).run_of_inr (headerPass_closed ha hu false he)]
          by_cases hune : u = []
          · subst hune
            exact .blank fun r => by simpa using headerLoop_blank push m ha he r
          · refine .body m u hune fun r => ?_
            rw [List.append_assoc]
            exact (headerLoop push).run_of_inr
              (headerPass_closed ha (hu.append hune r) false he)
      | false =>
          rw [headerLoop_skip push m ha hu he]
          by_cases hune : u = []
          · subst hune
            rw [headerLoop_unknown push m stops_nil findHeaderEnd_nil]
            exact .space (by simpa using ha) (by simpa using he)
          refine HeaderOutcome.skip push ha hu hune he ?_
          have hfound := findHeaderEnd_cases hune (stops_isNewLine hu)
          generalize hend : findHeaderEnd u = e at hfound
          cases hfound with
          | unknown =>
              rw [headerLoop_unknown push m hu hend]
              exact .line m u hune hu fun _ => rfl
          | inside h n v x hb hne hn hnn hx stable =>
              subst hb
              refine headerOutcome_inside push hu hne (fun h => by simp [h x (by simp)] at hx)
                (fun r => ?_) (fun m' => ih _ ?_ m' _ rfl)
              · rw [← List.append_assoc]
                exact stable r
              · have := List.length_pos_of_ne_nil hne
                simp only [List.length_append] at hlen ⊢
                omega
          | atEnd h n hb hne hn hends stable =>
              subst hb
              refine headerOutcome_atEnd push hu hne hn hends fun r hr => ?_
              rw [← List.append_assoc]
              exact stable r hr

/-- Where the loop waits for more, it waits without more. -/
lemma headerLoop_settled {m : M} {w : Bytes} {s : HeaderState M} {eob : Bool}
    (h : (headerLoop push).run ⟨m, w, false⟩ = .ok (s, eob))
    (hs : s.end_of_headers_found = false) :
    eob = true ∧ (headerLoop push).run s = .ok (s, true) := by
  have hout := headerLoop_append push m w
  rw [h] at hout
  cases hout with
  | body => cases hs
  | blank => cases hs
  | closed => cases hs
  | space => exact ⟨rfl, headerLoop_unknown push m stops_nil findHeaderEnd_nil⟩
  | line m' v hne hv stable =>
      have hsame := stable []
      rw [List.append_nil, List.append_nil, h] at hsame
      exact ⟨rfl, hsame.symm⟩

/-! ### Header lines as they are written -/

/-- A header as both serialisers write it: `"%1%: %2%\r\n"`. -/
def headerLine (header : Header) : Bytes :=
  header.name_ ++ bytes ": " ++ header.value_ ++ bytes "\r\n"

/-- A header that is written on one line of its own. -/
structure IsHeaderLine (header : Header) : Prop where
  name_ne : header.name_ ≠ []
  name_colon : 58 ∉ header.name_
  name_start : Stops isIgnorableWhiteSpace header.name_
  name_line : ∀ c ∈ header.name_, isNewLine c = false
  value_line : ∀ c ∈ header.value_, isNewLine c = false

/-- A header without the white space around its name and its value. -/
def Header.trimmed (header : Header) : Header := ⟨chomp header.name_, chomp header.value_⟩

lemma bytes_crlf : bytes "\r\n" = [13, 10] := by decide

lemma bytes_colon_space : bytes ": " = [58, 32] := by decide

/-- Name and value of a header that was written. -/
lemma splitHeader_line {header : Header} (h : IsHeaderLine header) :
    splitHeader (header.name_ ++ (58 :: 32 :: header.value_))
      = .ok (header.trimmed.name_, header.trimmed.value_) := by
  have hvalue : chomp (32 :: header.value_) = chomp header.value_ := by
    rw [chomp, List.dropWhile_cons_of_pos (by decide), chomp]
  rw [splitHeader_name h.name_colon, hvalue, Header.trimmed]

/-- One header line is read, with the next line or the body behind it. -/
lemma headerLoop_headerLine {header : Header} (h : IsHeaderLine header) (m : M) {n v : Bytes}
    (hn : ∀ c ∈ n, isNewLine c = true) (hnn : n ≠ []) (hv : Stops isIgnorableWhiteSpace v)
    (hend : v = [] → endsHeaders n = true) :
    (headerLoop push).run ⟨m, header.name_ ++ (58 :: 32 :: header.value_) ++ (n ++ v), false⟩
      = (headerLoop push).run ⟨push m header.trimmed, n ++ v, false⟩ := by
  have hline : ∀ c ∈ header.name_ ++ (58 :: 32 :: header.value_), isNewLine c = false := by
    intro c hc
    rcases List.mem_append.mp hc with hc | hc
    · exact h.name_line c hc
    · rcases List.mem_cons.mp hc with rfl | hc
      · decide
      · rcases List.mem_cons.mp hc with rfl | hc
        · decide
        · exact h.value_line c hc
  have hne : header.name_ ++ (58 :: 32 :: header.value_) ≠ [] := by simp
  have hs : Stops isIgnorableWhiteSpace
      (header.name_ ++ (58 :: 32 :: header.value_) ++ (n ++ v)) := by
    rw [List.append_assoc]
    exact h.name_start.append h.name_ne _
  refine headerLoop_header push hs hne ?_ (by simp [hnn]) (splitHeader_line h)
  cases v with
  | nil =>
      rw [List.append_nil, findHeaderEnd_last hne hline hn, if_pos (hend rfl)]
  | cons x v => exact findHeaderEnd_line hne hline hn hnn hv

/-- Behind a header line there is a run of newlines, and then the next line or the body. -/
lemma headerLines_run (hs : List Header) (hall : ∀ h ∈ hs, IsHeaderLine h) {R : Bytes}
    (hR : Stops isIgnorableWhiteSpace R) : ∃ n v,
      bytes "\r\n" ++ (hs.flatMap headerLine ++ (bytes "\r\n" ++ R)) = n ++ v ∧
      (∀ c ∈ n, isNewLine c = true) ∧ n ≠ [] ∧ Stops isIgnorableWhiteSpace v ∧
      (v = [] → endsHeaders n = true) := by
  cases hs with
  | nil => exact ⟨bytes "\r\n" ++ bytes "\r\n", R, by simp, by decide, by decide, hR,
      fun _ => by decide⟩
  | cons h hs =>
      have hh := hall h (by simp)
      refine ⟨bytes "\r\n", _, rfl, by decide, by decide, ?_, fun hv => ?_⟩
      · simp only [List.flatMap_cons, headerLine, List.append_assoc]
        exact hh.name_start.append hh.name_ne _
      · simp [headerLine, hh.name_ne] at hv

/-- **Header lines are read back**: from the end of the first line on, header lines and an empty
line leave the loop with these headers, trimmed, in front of what follows. -/
theorem headerLoop_lines (hs : List Header) (hall : ∀ h ∈ hs, IsHeaderLine h) {R : Bytes}
    (hR : Stops isIgnorableWhiteSpace R) (m : M) :
    (headerLoop push).run ⟨m, bytes "\r\n" ++ (hs.flatMap headerLine ++ (bytes "\r\n" ++ R)), false⟩
      = .ok (⟨(hs.map Header.trimmed).foldl push m, R, true⟩, false) := by
  induction hs generalizing m with
  | nil =>
      rw [List.flatMap_nil, List.nil_append, ← List.append_assoc]
      exact (headerLoop push).run_of_inr (headerPass_closed (by decide) hR false (by decide))
  | cons h hs ih =>
      have hh := hall h (by simp)
      obtain ⟨n, v, hnv, hn, hnn, hv, hend⟩ :=
        headerLines_run hs (fun x hx => hall x (by simp [hx])) hR
      have hsplit : (h :: hs).flatMap headerLine ++ (bytes "\r\n" ++ R)
          = h.name_ ++ (58 :: 32 :: h.value_) ++ (n ++ v) := by
        rw [← hnv]
        simp [headerLine, bytes_colon_space]
      have hstop : Stops isIgnorableWhiteSpace (h.name_ ++ (58 :: 32 :: h.value_) ++ (n ++ v)) := by
        rw [List.append_assoc]
        exact hh.name_start.append hh.name_ne _
      rw [hsplit, headerLoop_skip push m (by decide) hstop (by decide),
        headerLoop_headerLine push hh m hn hnn hv hend, ← hnv]
      exact ih (fun x hx => hall x (by simp [hx])) _

end Arachnida.Acari
