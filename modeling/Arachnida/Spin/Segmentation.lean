import Arachnida.Spin.RequestReader

/-!
How the requests that the server's data handler hands over depend on the way the data is cut
into pieces.

* `SafeCall`: the condition on one call: no blank line lies across the cut in front of it without
  being seen, no part of a body is taken for headers, and no header goes on behind a blank line.
* `SafeRun`: the condition on the calls of a run, each with the attribute that it finds.
* `Between`: the invariant of the attribute from call to call.
* `feed_safe`: along a safe run the pieces are read as the whole is.
* `feed_cut`: any two safe ways to cut the same data hand over the same requests.
* `feed_cut_blank_line`: cut inside the blank line, a request is not handed over.

The three clauses of `SafeCall` are what can go wrong, and each does: behind a first line the
newlines of an earlier piece are not counted, a line of a body that arrives in two pieces is
taken for a header, and a header that seems to end with the piece is continued by the next.
-/

namespace Arachnida.Spin

open Library Acari

/-! ### Safe calls -/

/-- What a call needs to know of the bytes delivered before it, of the attribute it finds, of its
data and of the data of the later calls. -/
structure SafeCall (delivered : Bytes) (connection_attribute : Option Saved) (data rest : Bytes) :
    Prop where
  /-- Behind a first line, the newlines delivered earlier are not counted again. -/
  blank_line : ∀ request, connection_attribute = some ⟨some request, [], false⟩ →
    endsHeaders (delivered.rtakeWhile isIgnorableWhiteSpace ++ data.takeWhile isIgnorableWhiteSpace)
      = endsHeaders (data.takeWhile isIgnorableWhiteSpace)
  /-- The header loop runs once more over the part of a body that is there. -/
  body : ∀ request b, connection_attribute = some ⟨some request, b, true⟩ → BodyIntact (b ++ data)
  /-- A blank line at the end of the data ends the headers, one inside it may be folded. -/
  folding : HeadersEndHere ((connection_attribute.getD .empty).append data) → ¬ ContinuesLine rest

-- A body that arrives in two pieces is taken for a header.
example : (feed none [bytes "PUT / HTTP/1.1\r\nContent-Length: 5\r\n\r\na", bytes "\r\nb\n"]).thrown
    = some (.invalidHeader (bytes "a")) := by decide +kernel

-- A header ends with the piece although the next one continues it.
example :
    (feed none [bytes "GET / HTTP/1.1\r\nA: b\r\n\r\n", bytes " c\r\n\r\n"]).handled.length = 1 ∧
    (feed none [bytes "GET / HTTP/1.1\r\nA: b\r\n\r\n c\r\n\r\n"]).handled
      ≠ (feed none [bytes "GET / HTTP/1.1\r\nA: b\r\n\r\n", bytes " c\r\n\r\n"]).handled := by
  decide +kernel

/-- Every call of the run is safe. -/
def SafeRun : Bytes → Option Saved → List Bytes → Prop
  | _, _, [] => True
  | delivered, connection_attribute, data :: rest =>
      SafeCall delivered connection_attribute data rest.flatten ∧
        ((onDataReady connection_attribute data).thrown = none →
          SafeRun (delivered ++ data)
            (onDataReady connection_attribute data).connection_attribute rest)

/-- Data that arrives at once is always safe. -/
lemma safeRun_single (data : Bytes) : SafeRun [] none [data] :=
  ⟨⟨by simp, by simp, fun _ => by simp [ContinuesLine]⟩, fun _ => trivial⟩

/-! ### The attribute between two calls -/

/-- A step that waits leaves a part of the bytes, and no flag without a request. -/
lemma readBody_waiting {request : Request} {b : Bytes} {s : Saved}
    (h : readBody request b = .waiting s) : s = ⟨some request, b, true⟩ := by
  rw [readBody] at h
  split at h <;> cases h
  rfl

lemma readHead_waiting {request : Request} {b : Bytes} {s : Saved}
    (h : readHead request b = .waiting s) : s.buffer <:+ b ∧ s.request ≠ none := by
  rw [readHead] at h
  split at h
  · cases h
  · next t eob hrun =>
      have hsuf := headerLoop_suffix Request.push hrun
      split at h
      · obtain rfl := readBody_waiting h
        exact ⟨hsuf, by simp⟩
      · cases h
        exact ⟨hsuf, by simp⟩

lemma requestStep_waiting {s s' : Saved} (h : requestStep s = .waiting s') :
    s'.buffer <:+ s.buffer ∧ (s'.request = none → s'.end_of_headers_found = false) := by
  obtain ⟨request, b, found⟩ := s
  cases request with
  | none =>
      rw [requestStep, readLine] at h
      split at h
      · cases h
      · next w he =>
          cases h
          exact ⟨extractRequestHeader_suffix he, fun _ => rfl⟩
      · next request w he =>
          obtain ⟨h1, h2⟩ := readHead_waiting h
          exact ⟨h1.trans (extractRequestHeader_suffix he), fun h0 => absurd h0 h2⟩
  | some request =>
      cases found with
      | false =>
          obtain ⟨h1, h2⟩ := readHead_waiting h
          exact ⟨h1, fun h0 => absurd h0 h2⟩
      | true =>
          obtain rfl := readBody_waiting h
          exact ⟨List.dropWhile_suffix _, by simp⟩

lemma requestStep_complete_suffix {s s' : Saved} {request : Request}
    (h : requestStep s = .complete request s') : s'.buffer <:+ s.buffer := by
  obtain ⟨r, b, found⟩ := s
  cases r with
  | none =>
      rw [requestStep, readLine] at h
      split at h
      · cases h
      · cases h
      · next r w he => exact (readHead_complete h).2.trans (extractRequestHeader_suffix he)
  | some r =>
      cases found with
      | false => exact (readHead_complete h).2
      | true => exact (readBody_complete h).2.trans (List.dropWhile_suffix _)

lemma noBlankLineAcross_nil (b : Bytes) : NoBlankLineAcross b [] := by
  intro w _ _ he
  simpa using he

/-- Where the reader waits, it waits without more bytes. -/
lemma requestStep_settled {s s' : Saved} (h : requestStep s = .waiting s') :
    requestStep s' = .waiting s' := by
  have hstands := requestStep_stands (y := []) (s := s) (fun _ => by simp [ContinuesLine])
    fun _ _ => noBlankLineAcross_nil _
  rw [h] at hstands
  have happend : ∀ t : Saved, t.append [] = t := fun t => by simp [Saved.append]
  have hsame : requestStep (s.append []) = requestStep (s'.append []) := hstands
  rw [happend, happend, h] at hsame
  exact hsame.symm

/-- The state in which a read waits. -/
lemma read_waiting_spec (s : Saved) : ∀ s', (requests.read s).2 = .ok s' →
    s'.buffer <:+ s.buffer ∧ requestStep s' = .waiting s' ∧
      (s'.request = none → s'.end_of_headers_found = false) := by
  refine requests.read_rec (P := fun s r => ∀ s', r.2 = .ok s' → s'.buffer <:+ s.buffer ∧
    requestStep s' = .waiting s' ∧ (s'.request = none → s'.end_of_headers_found = false))
    ?failed ?waiting ?complete s
  case failed => intro s f _ s' h; cases h
  case waiting =>
    intro s t hstep s' h
    cases h
    obtain ⟨h1, h2⟩ := requestStep_waiting hstep
    exact ⟨h1, requestStep_settled hstep, h2⟩
  case complete =>
    intro s request t hstep ih s' h
    obtain ⟨h1, h2⟩ := ih s' h
    exact ⟨h1.trans (requestStep_complete_suffix hstep), h2⟩

/-- What holds of the attribute between two calls: it saves the last of the bytes delivered, the
reader waits there, and there is no flag without a request. -/
structure Between (delivered : Bytes) (connection_attribute : Option Saved) : Prop where
  suffix : (connection_attribute.getD .empty).buffer <:+ delivered
  waits : requestStep (connection_attribute.getD .empty)
    = .waiting (connection_attribute.getD .empty)
  flag : (connection_attribute.getD .empty).request = none →
    (connection_attribute.getD .empty).end_of_headers_found = false

lemma between_start : Between [] none := ⟨List.suffix_refl _, rfl, fun _ => rfl⟩

section Call

variable {delivered data rest : Bytes} {a : Option Saved}

lemma SafeCall.sound (h : SafeCall delivered a data rest) (ha : Between delivered a) :
    (HandlerState.mk a data false []).Sound where
  flag := fun _ => rfl
  request := by
    intro b hb
    obtain rfl : a = some ⟨none, b, true⟩ := hb
    exact absurd (ha.flag rfl) (by simp)
  body := fun request b hb => h.body request b hb

/-- A safe call reads what the reader reads. -/
lemma SafeCall.reads (h : SafeCall delivered a data rest) (ha : Between delivered a) :
    Reads [] (onDataReady a data) (requests.read ((a.getD .empty).append data)) :=
  onDataReady_read (h.sound ha)

/-- A safe call keeps the invariant. -/
lemma Between.next (ha : Between delivered a) (h : SafeCall delivered a data rest)
    (hok : (onDataReady a data).thrown = none) :
    Between (delivered ++ data) (onDataReady a data).connection_attribute := by
  obtain ⟨_, hread⟩ := h.reads ha
  cases hres : (requests.read ((a.getD .empty).append data)).2 with
  | error f => simp [hres, hok] at hread
  | ok s' =>
      rw [hres] at hread
      obtain ⟨h1, h2, h3⟩ := read_waiting_spec _ s' hres
      rw [← hread.2] at h1 h2 h3
      refine ⟨h1.trans ?_, h2, h3⟩
      obtain ⟨t, ht⟩ := ha.suffix
      exact ⟨t, by rw [Saved.append_buffer, ← List.append_assoc, ht]⟩

end Call

/-! ### Blank lines across cuts -/

lemma endsHeaders_of_suffix {w t l : Bytes} (hw : w <:+ t) (h : endsHeaders (w ++ l) = true) :
    endsHeaders (t ++ l) = true := by
  obtain ⟨u, rfl⟩ := hw
  rw [List.append_assoc]
  exact endsHeaders_append _ _ (.inr h)

/-- White space at the end of a buffer is part of the last run of white space. -/
lemma suffix_rtakeWhile {w b : Bytes} (hw : ∀ c ∈ w, isIgnorableWhiteSpace c = true)
    (h : w <:+ b) : w <:+ b.rtakeWhile isIgnorableWhiteSpace := by
  obtain ⟨t, rfl⟩ := h
  obtain ⟨a, v, rfl, hv, ha⟩ := exists_last_run isIgnorableWhiteSpace t
  rw [List.append_assoc, rtakeWhile_append_stops ?_ ha]
  · exact List.suffix_append v w
  · intro c hc
    exact (List.mem_append.mp hc).elim (hv c) (hw c)

/-- White space that arrives behind the first line, with too few newlines, is dropped. -/
lemma onDataReady_space {request : Request} {data : Bytes}
    (hdata : ∀ c ∈ data, isIgnorableWhiteSpace c = true) (he : endsHeaders data = false) :
    (onDataReady (some ⟨some request, [], false⟩) data).thrown = none ∧
      (onDataReady (some ⟨some request, [], false⟩) data).connection_attribute
        = some ⟨some request, [], false⟩ := by
  have hsound : (HandlerState.mk (some ⟨some request, [], false⟩) data false []).Sound :=
    ⟨by simp, by simp, by simp⟩
  obtain ⟨_, hread⟩ := onDataReady_read hsound
  have hstep : requests.step (Saved.append ⟨some request, [], false⟩ data)
      = .waiting ⟨some request, [], false⟩ := readHead_space request hdata he
  rw [Option.getD_some, requests.read_waiting hstep] at hread
  obtain ⟨hthrown, hattr⟩ := hread
  refine ⟨hthrown, ?_⟩
  cases ha : (onDataReady (some ⟨some request, [], false⟩) data).connection_attribute with
  | none => rw [ha] at hattr; cases congrArg Saved.request hattr
  | some s => rw [ha] at hattr; exact congrArg some hattr

/-- Along a safe run no blank line lies across the cuts, however many they are. -/
lemma SafeRun.noBlankLineAcross {request : Request} {pieces : List Bytes} {delivered : Bytes}
    (h : SafeRun delivered (some ⟨some request, [], false⟩) pieces) :
    NoBlankLineAcross delivered pieces.flatten := by
  induction pieces generalizing delivered with
  | nil => exact noBlankLineAcross_nil delivered
  | cons data rest ih =>
      intro w hsuf hw he
      obtain ⟨hcall, hrest⟩ := h
      have hblank := hcall.blank_line request rfl
      have hsuf' := suffix_rtakeWhile hw hsuf
      rw [List.flatten_cons]
      by_cases hdata : data.dropWhile isIgnorableWhiteSpace = []
      · -- the whole piece is white space, and so may be what follows
        have hall := List.dropWhile_eq_nil_iff.mp hdata
        have htake : data.takeWhile isIgnorableWhiteSpace = data :=
          List.takeWhile_eq_self_iff.mpr hall
        rw [htake] at hblank
        rw [List.takeWhile_append_of_pos hall]
        cases hends : endsHeaders data with
        | true =>
            have htrue := endsHeaders_append data (rest.flatten.takeWhile isIgnorableWhiteSpace)
              (.inl hends)
            rw [htrue]
            exact endsHeaders_append _ _ (.inr htrue)
        | false =>
            obtain ⟨hthrown, hattr⟩ := @onDataReady_space request data hall hends
            have hlater := hrest hthrown
            rw [hattr] at hlater
            have hwd : endsHeaders (w ++ data) = false := by
              rw [← Bool.not_eq_true]
              intro htrue
              rw [endsHeaders_of_suffix hsuf' htrue, hends] at hblank
              cases hblank
            have hih := ih hlater (w ++ data) (by
              obtain ⟨t, rfl⟩ := hsuf
              exact ⟨t, by simp⟩) (fun c hc => (List.mem_append.mp hc).elim (hw c) (hall c)) hwd
            rw [List.append_assoc] at hih
            cases hl : endsHeaders (rest.flatten.takeWhile isIgnorableWhiteSpace) with
            | true =>
                rw [endsHeaders_append data _ (.inr hl)]
                exact endsHeaders_append _ _ (.inr (endsHeaders_append data _ (.inr hl)))
            | false =>
                rw [hl] at hih
                rw [hih]
                symm
                rw [← Bool.not_eq_true] at hih ⊢
                exact fun htrue => hih (endsHeaders_append w _ (.inr htrue))
      · have htake : (data ++ rest.flatten).takeWhile isIgnorableWhiteSpace
            = data.takeWhile isIgnorableWhiteSpace := by
          rw [List.takeWhile_append, if_neg]
          intro hlen
          exact hdata (List.dropWhile_eq_nil_iff.mpr
            (List.takeWhile_eq_self_iff.mp ((List.takeWhile_prefix _).eq_of_length hlen)))
        rw [htake]
        cases hl : endsHeaders (data.takeWhile isIgnorableWhiteSpace) with
        | true => exact endsHeaders_append _ _ (.inr hl)
        | false =>
            rw [← Bool.not_eq_true]
            intro htrue
            rw [endsHeaders_of_suffix hsuf' htrue, hl] at hblank
            cases hblank

/-! ### Safe runs -/

/-- A read of the data of one call may be suspended and resumed with that of the later calls. -/
lemma outcome_append {s : Saved} {y : Bytes} (hline : HeadersEndHere s → ¬ ContinuesLine y)
    (hspace : ∀ request, (requests.read s).2 = .ok ⟨some request, [], false⟩ →
      NoBlankLineAcross s.buffer y) :
    requests.outcome (s.append y)
      = Reader.andThen (requests.read s) fun s' => requests.outcome (s'.append y) := by
  refine requests.outcome_extend Saved.append
      (P := fun s => (HeadersEndHere s → ¬ ContinuesLine y) ∧
    ∀ request, (requests.read s).2 = .ok ⟨some request, [], false⟩ → NoBlankLineAcross s.buffer y)
    ?_ ?_ ⟨hline, hspace⟩
  · intro s hs
    refine requestStep_stands hs.1 fun request hstep => hs.2 request ?_
    rw [requests.read_waiting hstep]
  · intro s request s' hs hstep
    refine ⟨fun h => hs.1 (.later hstep h), fun r hr w hw => ?_⟩
    have hread : (requests.read s).2 = .ok ⟨some r, [], false⟩ := by
      rw [requests.read_complete hstep]; exact hr
    exact hs.2 r hread w (hw.trans (requestStep_complete_suffix hstep))

/-- The states of the reader from which the remaining pieces make a safe run. -/
def Fit (s : Saved) (pieces : List Bytes) : Prop :=
  ∃ delivered a, a.getD .empty = s ∧ Between delivered a ∧ SafeRun delivered a pieces

lemma fit_next {s s' : Saved} {data : Bytes} {rest : List Bytes} {as : List Request}
    (h : Fit s (data :: rest)) (hread : requests.read (s.append data) = (as, .ok s')) :
    Fit s' rest := by
  obtain ⟨delivered, a, rfl, ha, hcall, hrest⟩ := h
  obtain ⟨_, hreads⟩ := hcall.reads ha
  rw [hread] at hreads
  exact ⟨delivered ++ data, _, hreads.2, ha.next hcall hreads.1, hrest hreads.1⟩

lemma fit_suspend {s : Saved} {data : Bytes} {rest : List Bytes} (h : Fit s (data :: rest)) :
    requests.outcome (s.append (data ++ rest.flatten))
      = Reader.andThen (requests.read (s.append data))
          fun s' => requests.outcome (s'.append rest.flatten) := by
  have happend : s.append (data ++ rest.flatten) = (s.append data).append rest.flatten := by
    simp [Saved.append]
  rw [happend]
  have hfit := h
  obtain ⟨delivered, a, rfl, ha, hcall, hrest⟩ := h
  refine outcome_append hcall.folding fun request hread => ?_
  obtain ⟨_, hreads⟩ := hcall.reads ha
  rw [hread] at hreads
  obtain ⟨hthrown, hattr⟩ := hreads
  have hlater := hrest hthrown
  have hsome : (onDataReady a data).connection_attribute = some ⟨some request, [], false⟩ := by
    cases hc : (onDataReady a data).connection_attribute with
    | none => rw [hc] at hattr; cases congrArg Saved.request hattr
    | some t => rw [hc] at hattr; exact congrArg some hattr
  rw [hsome] at hlater
  intro w hw
  refine hlater.noBlankLineAcross w (hw.trans ?_)
  obtain ⟨t, ht⟩ := ha.suffix
  exact ⟨t, by rw [Saved.append_buffer, ← List.append_assoc, ht]⟩

/-- The code's run and the reader's. -/
lemma feed_read {delivered : Bytes} {a : Option Saved} {pieces : List Bytes}
    (ha : Between delivered a) (h : SafeRun delivered a pieces) :
    ((feed a pieces).handled, (feed a pieces).thrown)
      = Reader.outcomeOf (requests.feed Saved.append (a.getD .empty) pieces) := by
  induction pieces generalizing delivered a with
  | nil => rfl
  | cons data rest ih =>
      obtain ⟨hcall, hrest⟩ := h
      obtain ⟨hhandled, hreads⟩ := hcall.reads ha
      rw [requests.outcomeOf_feed_cons]
      cases hread : requests.read ((a.getD .empty).append data) with
      | mk as r =>
          rw [hread] at hhandled hreads
          cases r with
          | error f =>
              simp only [feed, hreads.1, hhandled, Reader.andThen, List.nil_append]
          | ok s' =>
              obtain ⟨hthrown, hattr⟩ := hreads
              have hih := ih (ha.next hcall hthrown) (hrest hthrown)
              rw [hattr] at hih
              simp only [feed, hthrown, Reader.andThen, ← hih, hhandled, List.nil_append]

/-- **Along a safe run the pieces are read as the whole is.** -/
theorem feed_safe {pieces : List Bytes} (h : SafeRun [] none pieces) :
    ((feed none pieces).handled, (feed none pieces).thrown)
      = requests.outcome (.append .empty pieces.flatten) := by
  rw [feed_read between_start h]
  have hfit : Fit ((none : Option Saved).getD .empty) pieces := ⟨[], none, rfl, between_start, h⟩
  refine requests.feed_flatten Saved.append ?_ (fun s x xs => fit_suspend)
    (fun s x xs as s' => fit_next) hfit
  intro s hs
  obtain ⟨delivered, a, rfl, ha, _⟩ := hs
  have happend : (a.getD .empty).append [] = a.getD .empty := by simp [Saved.append]
  rw [happend, Reader.outcome, requests.read_waiting ha.waits]
  rfl

lemma feed_single (a : Option Saved) (data : Bytes) :
    (feed a [data]).handled = (onDataReady a data).handled ∧
      (feed a [data]).thrown = (onDataReady a data).thrown := by
  rw [feed]
  split <;> next h => simp [feed, h]

/-- Two safe runs over the same data end alike. -/
lemma feed_eq {pieces pieces' : List Bytes} (hsame : pieces.flatten = pieces'.flatten)
    (h : SafeRun [] none pieces) (h' : SafeRun [] none pieces') :
    (feed none pieces).handled = (feed none pieces').handled ∧
      (feed none pieces).thrown = (feed none pieces').thrown := by
  have hread := feed_safe h
  rw [hsame, ← feed_safe h'] at hread
  exact ⟨congrArg Prod.fst hread, congrArg Prod.snd hread⟩

/-- A safe run ends as a single call does. -/
lemma feed_whole {pieces : List Bytes} (h : SafeRun [] none pieces) :
    (feed none pieces).handled = (onDataReady none pieces.flatten).handled ∧
      (feed none pieces).thrown = (onDataReady none pieces.flatten).thrown := by
  obtain ⟨hhandled, hthrown⟩ := feed_eq (by simp) h (safeRun_single pieces.flatten)
  obtain ⟨hhandled', hthrown'⟩ := feed_single none pieces.flatten
  exact ⟨hhandled.trans hhandled', hthrown.trans hthrown'⟩

/-- **Cuts do not matter**: two safe runs over the same data hand over the same requests as each
other and as a single call, and either all of them end in an exception or none does. -/
theorem feed_cut {pieces pieces' : List Bytes} (hsame : pieces.flatten = pieces'.flatten)
    (h : SafeRun [] none pieces) (h' : SafeRun [] none pieces') :
    ((feed none pieces).handled = (feed none pieces').handled ∧
      ((feed none pieces).thrown.isSome ↔ (feed none pieces').thrown.isSome)) ∧
    (feed none pieces).handled = (onDataReady none pieces.flatten).handled ∧
      ((feed none pieces).thrown.isSome ↔ (onDataReady none pieces.flatten).thrown.isSome) := by
  obtain ⟨hhandled, hthrown⟩ := feed_eq hsame h h'
  obtain ⟨hwhole, hwhole'⟩ := feed_whole h
  exact ⟨⟨hhandled, by rw [hthrown]⟩, hwhole, by rw [hwhole']⟩

/-- Cut inside a method name, a request is handed over as it is when it arrives at once. -/
theorem feed_cut_in_method :
    (feed none [bytes "GE", bytes "T / HTTP/1.1\r\nA: b\r\n\r\n"]).handled
      = (feed none [bytes "GET / HTTP/1.1\r\nA: b\r\n\r\n"]).handled := by
  have hattr : (onDataReady none (bytes "GE")).connection_attribute
      = some ⟨none, bytes "GE", false⟩ := by decide +kernel
  have hsafe : SafeRun [] none [bytes "GE", bytes "T / HTTP/1.1\r\nA: b\r\n\r\n"] := by
    refine ⟨⟨by simp, by simp, fun _ => by decide⟩, fun _ => ?_⟩
    rw [hattr]
    exact ⟨⟨by simp, by simp, fun _ => by simp [ContinuesLine]⟩, fun _ => trivial⟩
  exact (feed_cut (by decide) hsafe (safeRun_single _)).1.1

/-- **Cut inside the blank line** behind the first line, the request is not handed over: the
newlines that came with the first line are forgotten. -/
theorem feed_cut_blank_line : ¬ ∀ pieces pieces' : List Bytes, (∀ c ∈ pieces, c ≠ []) →
    (∀ c ∈ pieces', c ≠ []) → pieces.flatten = pieces'.flatten →
      (feed none pieces).handled = (feed none pieces').handled ∧
        ((feed none pieces).thrown.isSome ↔ (feed none pieces').thrown.isSome) := by
  intro h
  have hcut := h [bytes "GET / HTTP/1.1\r\n", bytes "\r\n"] [bytes "GET / HTTP/1.1\r\n\r\n"]
    (by decide) (by decide) (by decide)
  revert hcut
  decide +kernel

end Arachnida.Spin
