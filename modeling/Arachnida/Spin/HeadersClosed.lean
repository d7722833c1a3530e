import Arachnida.Spin.RequestReader

/-!
A request whose headers are complete while its body is not, and the call that resumes it.

The call makes one more pass of its header loop, before it looks at the flag.

* `StaysClosed`: that pass pushes no header, throws nothing and passes over none of the bytes.
* `staysClosed_iff`: this is so exactly if the bytes do not begin with white space and no end of a
  header is found in them.
* `headers_stay_closed_iff`: **the headers stay closed throughout a run exactly if this holds of the
  bytes of every call that resumes an incomplete body.**
* `onDataReadyPass_closed`: the call then takes the body from all the bytes.
* `not_closed`: a line of the body becomes a header, or white space of the body is lost.
-/

namespace Arachnida.Spin

open Library Acari

/-- What the resumed call has behind its header loop: the request as it was, and all the bytes that
were saved and have arrived. -/
def StaysClosed (saved : Saved) (data : Bytes) : Prop :=
  ∃ got read, HandlerState.getRequest ⟨some saved, data, false, []⟩ = .ok got ∧
    readHeaders got = .ok read ∧ read.request = saved.request ∧ read.buffer = saved.buffer ++ data

variable {request : Request} {w : Bytes}

lemma push_ne (request : Request) (header : Header) : request.push header ≠ request := by
  intro h
  have hlength := congrArg (fun r => r.header_fields_.length) h
  simp [Request.push] at hlength

/-- The pass over bytes that do not begin with white space and in which no end of a header is found
changes nothing. -/
lemma headerLoop_closed (hstart : Stops isIgnorableWhiteSpace w) (hend : findHeaderEnd w = w) :
    (headerLoop Request.push).run ⟨request, w, true⟩ = .ok (⟨request, w, true⟩, true) :=
  (headerLoop Request.push).run_of_inr (headerPass_unknown hstart true hend)

/-- The pass over other bytes goes past some of them, or takes a header from them. -/
lemma headerLoop_not_closed (h : ¬ (Stops isIgnorableWhiteSpace w ∧ findHeaderEnd w = w))
    {s : HeaderState Request} {eob : Bool}
    (hrun : (headerLoop Request.push).run ⟨request, w, true⟩ = .ok (s, eob)) :
    s.message ≠ request ∨ s.where_ ≠ w := by
  obtain ⟨a, u, rfl, ha, hu⟩ := exists_run isIgnorableWhiteSpace w
  have hpass := hrun
  -- the flag is set, so that there is one pass
  have honce : ∀ t, headerPass Request.push ⟨request, a ++ u, true⟩ = .inl t → False := by
    intro t ht
    simp only [headerPass, HeaderState.next] at ht
    grind
  cases hp : headerPass Request.push ⟨request, a ++ u, true⟩ with
  | inl t => exact (honce t hp).elim
  | inr r =>
      rw [(headerLoop Request.push).run_of_inr hp] at hrun
      subst hrun
      have hadv : advanceThroughIgnorableWhiteSpace (a ++ u) = u := dropWhile_append_stops ha hu
      have hsuffix := findHeaderEnd_suffix u
      simp only [headerPass, hadv, HeaderState.next] at hp
      by_cases hmore : moreHeaders (a ++ u) u = true
      · rw [if_pos hmore] at hp
        by_cases hend : findHeaderEnd u = u
        · have hne : a ≠ [] := by
            rintro rfl
            exact h ⟨hu, hend⟩
          rw [if_neg (by simpa using hend.symm)] at hp
          simp only [Bool.not_true, Bool.false_and, Bool.false_eq_true, if_false, Sum.inr.injEq,
            Except.ok.injEq, Prod.mk.injEq] at hp
          right
          rw [← hp.1]
          simpa using hne
        · rw [if_pos (fun heq => hend heq.symm)] at hp
          split at hp
          · cases hp
          · next name value _ =>
              simp only [Bool.not_true, Bool.false_and, Bool.false_eq_true, if_false, Sum.inr.injEq,
                Except.ok.injEq, Prod.mk.injEq] at hp
              left
              rw [← hp.1]
              exact push_ne request _
      · rw [if_neg hmore] at hp
        simp only [Bool.not_true, Bool.false_and, Bool.false_eq_true, if_false, Sum.inr.injEq,
          Except.ok.injEq, Prod.mk.injEq] at hp
        have hne : a ≠ [] := by
          rintro rfl
          exact hmore (moreHeaders_append [] u)
        right
        rw [← hp.1]
        simpa using hne

lemma getRequest_resumed (request : Request) (b data : Bytes) :
    HandlerState.getRequest ⟨some ⟨some request, b, true⟩, data, false, []⟩
      = .ok ⟨some request, b ++ data, true⟩ := by
  simp [HandlerState.getRequest]

lemma StaysClosed.intact {b data : Bytes} (h : StaysClosed ⟨some request, b, true⟩ data) :
    Stops isIgnorableWhiteSpace (b ++ data) ∧ findHeaderEnd (b ++ data) = b ++ data := by
  obtain ⟨got, read, hgot, hread, hrequest, hbuffer⟩ := h
  obtain rfl := Except.ok.inj ((getRequest_resumed request b data).symm.trans hgot)
  by_contra hne
  rw [readHeaders] at hread
  split at hread
  · next hnone => cases hnone
  · next request' hsome =>
      obtain rfl := Option.some.inj hsome
      split at hread
      · cases hread
      · next s eob hrun =>
          obtain rfl := Except.ok.inj hread
          rcases headerLoop_not_closed hne hrun with hmessage | hwhere
          · exact hmessage (Option.some.inj hrequest)
          · exact hwhere hbuffer

lemma staysClosed_of_intact {b data : Bytes} (hstart : Stops isIgnorableWhiteSpace (b ++ data))
    (hend : findHeaderEnd (b ++ data) = b ++ data) : StaysClosed ⟨some request, b, true⟩ data :=
  ⟨_, ⟨some request, b ++ data, true⟩, getRequest_resumed request b data,
    by simp only [readHeaders, headerLoop_closed hstart hend], rfl, rfl⟩

/-- The headers stay closed if and only if the bytes that were saved and have arrived do not begin
with white space and no end of a header is found in them. -/
theorem staysClosed_iff (request : Request) (b data : Bytes) :
    StaysClosed ⟨some request, b, true⟩ data ↔
      Stops isIgnorableWhiteSpace (b ++ data) ∧ findHeaderEnd (b ++ data) = b ++ data :=
  ⟨StaysClosed.intact, fun ⟨hstart, hend⟩ => staysClosed_of_intact hstart hend⟩

/-- What holds of every call of a run that resumes a request with complete headers: of the request,
the bytes that were saved and those that arrive. -/
def AtResumed (P : Request → Bytes → Bytes → Prop) (pieces : List Bytes) : Prop :=
  ∀ earlier data later request b, pieces = earlier ++ data :: later →
    (feed none earlier).connection_attribute = some ⟨some request, b, true⟩ → P request b data

/-- **In a run the headers stay closed** if and only if no call that resumes an incomplete body
finds white space first or an end of a header. -/
theorem headers_stay_closed_iff (pieces : List Bytes) :
    AtResumed (fun request b data => StaysClosed ⟨some request, b, true⟩ data) pieces ↔
      AtResumed (fun _ b data => Stops isIgnorableWhiteSpace (b ++ data) ∧
        findHeaderEnd (b ++ data) = b ++ data) pieces := by
  constructor
  · intro h earlier data later request b hpieces hsaved
    exact (staysClosed_iff request b data).mp (h earlier data later request b hpieces hsaved)
  · intro h earlier data later request b hpieces hsaved
    exact (staysClosed_iff request b data).mpr (h earlier data later request b hpieces hsaved)

/-- The call then takes the body from all the bytes, with the request as it was. -/
theorem onDataReadyPass_closed {b data : Bytes} (h : StaysClosed ⟨some request, b, true⟩ data) :
    onDataReadyPass ⟨some ⟨some request, b, true⟩, data, false, []⟩ =
      HandlerState.continue ⟨some ⟨some request, b, true⟩, data, false, []⟩
        (readBody request (b ++ data)) := by
  obtain ⟨hstart, hend⟩ := h.intact
  refine onDataReadyPass_body (getRequest_resumed request b data) ?_
  simp only [readHeaders, headerLoop_closed hstart hend]

/-- **A body that arrives behind its headers** is taken for a header, or for the white space behind
one: the request is left with another header, without the bytes of the line, or without the white
space. -/
theorem not_closed : (¬ ∀ (pieces : List Bytes) (request : Request) (b data : Bytes),
      (feed none pieces).connection_attribute = some ⟨some request, b, true⟩ →
        StaysClosed ⟨some request, b, true⟩ data) ∧
    (feed none [bytes "PUT / HTTP/1.1\r\nContent-Length: 8\r\n\r\n"]).connection_attribute =
      some ⟨some ⟨bytes "PUT", bytes "/", bytes "HTTP/1.1",
        [⟨bytes "Content-Length", bytes "8"⟩], []⟩, [], true⟩ ∧
    (onDataReady (some ⟨some ⟨bytes "PUT", bytes "/", bytes "HTTP/1.1",
        [⟨bytes "Content-Length", bytes "8"⟩], []⟩, [], true⟩)
          (bytes "a:b\r\ncde")).connection_attribute =
      some ⟨some ⟨bytes "PUT", bytes "/", bytes "HTTP/1.1",
        [⟨bytes "Content-Length", bytes "8"⟩, ⟨bytes "a", bytes "b"⟩], []⟩, bytes "\r\ncde",
        true⟩ := by
  have hsaved :
      (feed none [bytes "PUT / HTTP/1.1\r\nContent-Length: 8\r\n\r\n"]).connection_attribute =
      some ⟨some ⟨bytes "PUT", bytes "/", bytes "HTTP/1.1",
        [⟨bytes "Content-Length", bytes "8"⟩], []⟩, [], true⟩ := by decide +kernel
  refine ⟨fun h => ?_, hsaved, by decide +kernel⟩
  exact absurd (h _ _ _ (bytes "a:b\r\ncde") hsaved).intact.2 (by decide +kernel)

end Arachnida.Spin
