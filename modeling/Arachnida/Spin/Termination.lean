import Arachnida.Spin.AttributeSlot

/-!
How much `HTTPDataHandler::onDataReady` does with the bytes that it has.

* `buffered`, `HandlerState.bytes`: the bytes in a slot, and those a pass begins with.
* `Hands.shorter`: a request that is handed over has taken a byte at least, also where it was saved
  with all of its headers.
* `handled_length_le`: a call hands over at most as many requests as it has bytes.
* `onDataReady_terminates`: **every loop of a call ends, and so does the call.**
-/

namespace Arachnida.Spin

open Library Acari

/-! ### Bytes -/

/-- The bytes in an element. -/
def Element.size : Element → ℕ
  | .request _ => 0
  | .buffer b => b.length
  | .flag _ => 0

/-- The bytes that a slot holds back. -/
def buffered (slot : Slot) : ℕ := ((slot.getD []).map Element.size).sum

/-- The bytes that a pass begins with. -/
def HandlerState.bytes (s : HandlerState) : ℕ :=
  match s.connection_attribute with
  | none => s.buffer.length
  | some saved => saved.buffer.length + s.buffer.length

lemma bytes_eq_buffered (a : Option Saved) (b : Bytes) (found : Bool) (handled : List Request) :
    HandlerState.bytes ⟨a, b, found, handled⟩
      = buffered (a.map Saved.elements) + b.length := by
  cases a with
  | none => simp [HandlerState.bytes, buffered]
  | some saved => simp [HandlerState.bytes, buffered, Saved.elements, Element.size]

lemma pending_le_bytes (s : HandlerState) : s.pending ≤ 2 * s.bytes + 1 := by
  obtain ⟨_ | saved, b, found, handled⟩ := s
  · simp only [HandlerState.pending, HandlerState.bytes]
    omega
  · simp only [HandlerState.pending, HandlerState.bytes]
    split <;> omega

/-! ### A request takes a byte -/

/-- A request comes from the first line, behind which there are fewer bytes, or from the
attribute. -/
lemma getRequest_some {s : HandlerState} {got : Saved} (h : s.getRequest = .ok got)
    (hr : got.request.isSome) : got.buffer.length < s.bytes ∨
      ∃ saved, s.connection_attribute = some saved ∧
        got = ⟨saved.request, saved.buffer ++ s.buffer, saved.end_of_headers_found⟩ := by
  obtain ⟨_ | saved, b, found, handled⟩ := s
  · exact .inl (newRequest_length h hr)
  · rw [HandlerState.getRequest] at h
    dsimp only at h
    split at h
    · have hlt := newRequest_length h hr
      rw [List.length_append] at hlt
      exact .inl hlt
    · exact .inr ⟨saved, rfl, (Except.ok.inj h).symm⟩

section ReadHeaders

variable {got read : Saved} (h : readHeaders got = .ok read)
include h

/-- To find the end of the headers takes a byte. -/
lemma readHeaders_shorter (hgot : got.end_of_headers_found = false)
    (hread : read.end_of_headers_found = true) : read.buffer.length < got.buffer.length := by
  rw [readHeaders] at h
  split at h
  · obtain rfl := Except.ok.inj h
    cases hgot.symm.trans hread
  · split at h
    · cases h
    · next t eob hrun =>
        obtain rfl := Except.ok.inj h
        exact headerLoop_shorter Request.push hgot hrun hread

/-- The body stays as long as it was announced. -/
lemma readHeaders_contentLength {request request' : Request} {n : ℕ}
    (hgot : got.request = some request) (hlen : contentLength request.header_fields_ = .ok (some n))
    (hread : read.request = some request') :
    contentLength request'.header_fields_ = .ok (some n) := by
  rw [readHeaders, hgot] at h
  dsimp only at h
  split at h
  · cases h
  · next t eob hrun =>
      obtain rfl := Except.ok.inj h
      obtain ⟨hs, hmessage⟩ := headerLoop_message Request.push hrun
      obtain rfl := Option.some.inj hread
      rw [hmessage, Request.foldl_push]
      exact contentLength_append hlen hs

end ReadHeaders

/-- A body that is found is as long as it was announced. -/
lemma findBody_length {hs : List Header} {w body rest : Bytes} {n : ℕ}
    (hlen : contentLength hs = .ok (some n)) (h : findBody hs w = .ok (some (body, rest))) :
    body.length = n := by
  rw [findBody, hlen] at h
  dsimp only at h
  split at h
  · cases h
  · cases h
    rw [List.length_take]
    omega

/-- **A request that is handed over has taken a byte.** -/
theorem HandlerState.Hands.shorter {s : HandlerState} (hs : s.Kept) {request : Request}
    {where_ : Bytes} (h : s.Hands request where_) : where_.length < s.bytes := by
  cases h with
  | @mk got read request body where_ hget hread hfound hrequest hbody =>
      obtain ⟨hsuf, hsome⟩ := readHeaders_suffix hread
      have hle := hsuf.length_le
      have hsplit := congrArg List.length (findBody_suffix hbody)
      rw [List.length_append] at hsplit
      obtain hlt | ⟨saved, ha, rfl⟩ := getRequest_some hget (hsome (by simp [hrequest]))
      · omega
      · have hbytes : s.bytes = (saved.buffer ++ s.buffer).length := by
          rw [HandlerState.bytes, ha, List.length_append]
        cases hflag : saved.end_of_headers_found with
        | false =>
            -- the end of the headers is found in this pass
            have hlt := readHeaders_shorter hread hflag hfound
            dsimp only at hlt
            omega
        | true =>
            -- the body is longer than what was saved of it
            obtain ⟨request', n, hrequest', hlen, hshort⟩ := hs.waits saved ha hflag
            have hn := findBody_length (readHeaders_contentLength hread hrequest' hlen hrequest)
              hbody
            dsimp only at hle
            omega

/-! ### A call -/

variable (refuses : List Request → Bool) (data : Bytes)

/-- **A call hands over at most as many requests as it has bytes.** -/
theorem KeptSlot.handled_length_le {slot : Slot} (h : KeptSlot slot) :
    (Spin.onDataReadySlot refuses slot data).handled.length ≤ buffered slot + data.length := by
  obtain ⟨a, rfl, ha⟩ := h
  have hstart := bytes_eq_buffered a data false []
  refine (slotLoop refuses).run_invariant
    (I := fun t => ∃ s : HandlerState, t = s.slotState ∧ s.Kept ∧
      s.handled.length + s.bytes ≤ buffered (a.map Saved.elements) + data.length)
    (Q := fun o => o.handled.length ≤ buffered (a.map Saved.elements) + data.length) ?keeps ?done
    ⟨⟨a, data, false, []⟩, rfl, ⟨ha, fun _ => rfl⟩, by simp [hstart]⟩
  case keeps =>
    rintro t t' ⟨s, rfl, hs, hle⟩ hpass
    change slotPass refuses s.slotState = .inl t' at hpass
    have hpassed := hs.slotPass_passed refuses
    rw [hpass] at hpassed
    cases hpassed with
    | @next request where_ h hne =>
        have hlt := h.shorter hs
        refine ⟨_, rfl, kept_next _ _, ?_⟩
        simp only [HandlerState.bytes, List.length_append, List.length_singleton, List.length_nil]
        omega
  case done =>
    rintro t o ⟨s, rfl, hs, hle⟩ hpass
    change slotPass refuses s.slotState = .inr o at hpass
    have hpassed := hs.slotPass_passed refuses
    rw [hpass] at hpassed
    cases hpassed with
    | ended => dsimp only; omega
    | refused h =>
        have hlt := h.shorter hs
        simp only [List.length_append, List.length_singleton]
        omega
    | last h =>
        have hlt := h.shorter hs
        simp only [List.length_append, List.length_singleton]
        omega

/-- The `goto` is executed a bounded number of times. -/
lemma KeptSlot.iterate_slotPass {slot : Slot} (h : KeptSlot slot) :
    iterate (slotPass refuses) (2 * (buffered slot + data.length) + 2) ⟨slot, data, false, []⟩
      = .inr (Spin.onDataReadySlot refuses slot data) := by
  obtain ⟨a, rfl, -⟩ := h
  refine (slotLoop refuses).iterate_run ?_
  have hbytes := bytes_eq_buffered a data false []
  calc (slotLoop refuses).measure ⟨a.map Saved.elements, data, false, []⟩
      = HandlerState.pending ⟨a, data, false, []⟩ := slotState_pending ⟨a, data, false, []⟩
    _ ≤ 2 * HandlerState.bytes ⟨a, data, false, []⟩ + 1 := pending_le_bytes _
    _ < 2 * (buffered (a.map Saved.elements) + data.length) + 2 := by omega

/-- **A call of `onDataReady` ends**, whatever calls there were before it, whatever is read and
whatever the request handler does: the recursion of `findHeaderEnd`, the header loop, the two
passes that get the request and the `goto` each end within a number of passes that is known
beforehand, and no more requests are handed over than there are bytes. -/
theorem onDataReady_terminates (calls : List DataReady) :
    (∀ from_where where_, iterate (findHeaderEndPass from_where) (where_.length + 1) where_
      = .inr ((findHeaderEndLoop from_where).run where_)) ∧
    (∀ s, iterate (headerPass Request.push) (s.where_.length + 1) s
      = .inr ((headerLoop Request.push).run s)) ∧
    (∀ s, iterate extractPass 2 s = .inr (extractLoop.run s)) ∧
    iterate (slotPass refuses) (2 * (buffered (storedSlot calls) + data.length) + 2)
      ⟨storedSlot calls, data, false, []⟩
        = .inr (onDataReadySlot refuses (storedSlot calls) data) ∧
    (onDataReadySlot refuses (storedSlot calls) data).handled.length
      ≤ buffered (storedSlot calls) + data.length := by
  have hkept := keptSlot_storedSlot calls
  refine ⟨fun from_where where_ => ?recursion, fun s => ?headers, fun s => ?extract,
    hkept.iterate_slotPass refuses data, hkept.handled_length_le refuses data⟩
  case recursion => exact (findHeaderEndLoop from_where).iterate_run (Nat.lt_succ_self _)
  case headers => exact (headerLoop Request.push).iterate_run (Nat.lt_succ_self _)
  case extract =>
    refine extractLoop.iterate_run ?_
    show (if s.connection_attribute.isSome then 1 else 0) < 2
    split <;> omega

end Arachnida.Spin
