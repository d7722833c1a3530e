import Arachnida.Acari.FirstLine
import Arachnida.Acari.MessageLoop

/-!
The server's data handler, `Spin::Handlers::HTTPDataHandler`, as the code computes it.

* `HandlerState.Hands`, `HandlerState.Passed`: **what a pass from the label to the `goto` can do.**
* `onDataReady`: one call, from the connection attribute and the bytes that `connection->read`
  returns to the requests handed to the request handler, the attribute that is left and the
  exception, if there is one.
* `feed`: one call for each piece of data that arrives, until one ends in an exception.

The connection that a request keeps for its response is left out; nothing here looks at it.
-/

namespace Arachnida.Spin

open Library Acari

/-- An HTTP request (`Details::Request`). -/
@[ext]
structure Request where
  method_ : Bytes
  url_ : Bytes
  protocol_and_version_ : Bytes
  header_fields_ : List Header
  body_ : Bytes
  deriving DecidableEq, Repr

namespace Request

/-- The constructor: no headers and no body yet. -/
def new (method url protocol_and_version : Bytes) : Request :=
  ⟨method, url, protocol_and_version, [], []⟩

/-- `header_fields_.push_back`. -/
def push (request : Request) (header : Header) : Request :=
  { request with header_fields_ := request.header_fields_ ++ [header] }

/-- Headers pushed one after the other. -/
lemma foldl_push (request : Request) (headers : List Header) : headers.foldl push request
    = { request with header_fields_ := request.header_fields_ ++ headers } := by
  induction headers generalizing request with
  | nil => simp
  | cons h hs ih => rw [List.foldl_cons, ih]; simp [push]

end Request

/-- `HTTPDataHandler::Method`. -/
inductive Method where
  | options__ | get__ | head__ | post__ | put__ | delete__ | trace__ | connect__
  deriving DecidableEq, Repr

/-- The methods the handler knows (`initStaticMembers`). -/
def supportedMethods : List (Bytes × Method) :=
  [(bytes "OPTIONS", .options__), (bytes "GET", .get__), (bytes "HEAD", .head__),
    (bytes "POST", .post__), (bytes "PUT", .put__), (bytes "DELETE", .delete__),
    (bytes "TRACE", .trace__), (bytes "CONNECT", .connect__)]

/-- `extractRequestHeader` with the handler's request type and methods. -/
def extractRequest : Iterator → Except Failure (Option Request × Iterator) :=
  extractRequestHeader Request.new supportedMethods

/-- What the connection attribute holds between two calls: a request without its end, the bytes
behind what has been read of it, and whether all its headers have been. -/
@[ext]
structure Saved where
  request : Option Request
  buffer : Bytes
  end_of_headers_found : Bool
  deriving DecidableEq, Repr

/-- The variables of `onDataReady` at the label `after_connection_attributes_are_got`, and the
requests handed over so far. -/
structure HandlerState where
  connection_attribute : Option Saved
  buffer : Bytes
  end_of_headers_found : Bool
  handled : List Request
  deriving DecidableEq, Repr

/-- How a call ends: the requests handed to `HTTPRequestHandler::handle`, the attribute that is
left and the exception. -/
structure Outcome where
  handled : List Request
  connection_attribute : Option Saved
  thrown : Option Failure
  deriving DecidableEq, Repr

namespace HandlerState

/-- The call ends in an exception; the attribute has been cleared before anything can fail. -/
def throws (s : HandlerState) (f : Failure) : HandlerState ⊕ Outcome :=
  .inr ⟨s.handled, none, some f⟩

/-- The first line, read from a buffer while the attribute is empty. -/
def newRequest (s : HandlerState) : Except Failure Saved :=
  match extractRequest s.buffer with
  | .error f => .error f
  | .ok (request, where_) => .ok ⟨request, where_, s.end_of_headers_found⟩

/-- The `do … while` that gets the request, the position to go on from and the flag: from the
first line, or from the attribute, or from the bytes that the attribute holds without a
request. -/
def getRequest (s : HandlerState) : Except Failure Saved :=
  match s.connection_attribute with
  | none => s.newRequest
  | some saved =>
      let buffer := saved.buffer ++ s.buffer
      -- the attribute is cleared here: another pass of the `do` parses the first line
      if saved.request.isNone && buffer ≠ [] then
        newRequest ⟨none, buffer, saved.end_of_headers_found, s.handled⟩
      else .ok ⟨saved.request, buffer, saved.end_of_headers_found⟩

end HandlerState

/-- The header loop, if there is a request. -/
def readHeaders (got : Saved) : Except Failure Saved :=
  match got.request with
  | none => .ok got
  | some request =>
      match (headerLoop Request.push).run ⟨request, got.buffer, got.end_of_headers_found⟩ with
      | .error f => .error f
      | .ok (s, _) => .ok ⟨some s.message, s.where_, s.end_of_headers_found⟩

/-- From the label to the `goto` or to the end of the call. -/
def onDataReadyPass (s : HandlerState) : HandlerState ⊕ Outcome :=
  match s.getRequest with
  | .error f => s.throws f
  | .ok got =>
      match readHeaders got with
      | .error f => s.throws f
      | .ok read =>
          if read.end_of_headers_found then
            match read.request with
            | none => s.throws .nullPointer
            | some request =>
                match findBody request.header_fields_ read.buffer with
                | .error f => s.throws f
                | .ok none => .inr ⟨s.handled, some read, none⟩
                | .ok (some (body, where_)) =>
                    let handled := s.handled ++ [{ request with body_ := request.body_ ++ body }]
                    if where_ ≠ [] then .inl ⟨some ⟨none, where_, false⟩, [], true, handled⟩
                    else .inr ⟨handled, none, none⟩
          else .inr ⟨s.handled, some read, none⟩

/-! ### What a pass can do -/

/-- A pass finds this request, its body included, in front of these bytes. -/
inductive HandlerState.Hands (s : HandlerState) : Request → Iterator → Prop
  | mk {got read : Saved} {request : Request} {body where_ : Bytes}
      (hget : s.getRequest = .ok got) (hread : readHeaders got = .ok read)
      (hfound : read.end_of_headers_found = true) (hrequest : read.request = some request)
      (hbody : findBody request.header_fields_ read.buffer = .ok (some (body, where_))) :
      s.Hands { request with body_ := request.body_ ++ body } where_

/-- What is saved with all of its headers waits for its body. -/
def Saved.Waits (saved : Saved) : Prop :=
  saved.end_of_headers_found = true → ∃ request n, saved.request = some request ∧
    contentLength request.header_fields_ = .ok (some n) ∧ saved.buffer.length < n

/-- The ways a pass of `onDataReady` can go. -/
inductive HandlerState.Passed (s : HandlerState) : HandlerState ⊕ Outcome → Prop
  | failed {f : Failure} (hf : f ≠ .nullPointer) : s.Passed (s.throws f)
  | noRequest {got : Saved} (hget : s.getRequest = .ok got) (hrequest : got.request = none)
      (hfound : got.end_of_headers_found = true) : s.Passed (s.throws .nullPointer)
  | saved {read : Saved} (h : read.Waits) : s.Passed (.inr ⟨s.handled, some read, none⟩)
  | last {request : Request} (h : s.Hands request []) :
      s.Passed (.inr ⟨s.handled ++ [request], none, none⟩)
  | next {request : Request} {where_ : Bytes} (h : s.Hands request where_) (hne : where_ ≠ []) :
      s.Passed (.inl ⟨some ⟨none, where_, false⟩, [], true, s.handled ++ [request]⟩)

lemma newRequest_ne_nullPointer (s : HandlerState) : s.newRequest ≠ .error .nullPointer := by
  have hfirst := extractRequestHeader_ne_nullPointer Request.new supportedMethods s.buffer
  rw [HandlerState.newRequest, extractRequest]
  grind

lemma getRequest_ne_nullPointer (s : HandlerState) : s.getRequest ≠ .error .nullPointer := by
  rw [HandlerState.getRequest]
  split
  · exact newRequest_ne_nullPointer s
  · dsimp only
    split
    · exact newRequest_ne_nullPointer _
    · simp

lemma readHeaders_ne_nullPointer (got : Saved) : readHeaders got ≠ .error .nullPointer := by
  rw [readHeaders]
  split
  · simp
  · next request _ =>
      have hloop := headerLoop_ne_nullPointer Request.push
        ⟨request, got.buffer, got.end_of_headers_found⟩
      grind

/-- Without a request there is nothing to read. -/
lemma readHeaders_none {got read : Saved} (h : readHeaders got = .ok read)
    (hrequest : read.request = none) : got = read := by
  rw [readHeaders] at h
  split at h
  · exact Except.ok.inj h
  · split at h
    · cases h
    · obtain rfl := Except.ok.inj h
      cases hrequest

/-- **One pass.** -/
theorem onDataReadyPass_passed (s : HandlerState) : s.Passed (onDataReadyPass s) := by
  rw [onDataReadyPass]
  cases hget : s.getRequest with
  | error f => exact .failed fun hf => getRequest_ne_nullPointer s (hf ▸ hget)
  | ok got =>
      dsimp only
      cases hread : readHeaders got with
      | error f => exact .failed fun hf => readHeaders_ne_nullPointer got (hf ▸ hread)
      | ok read =>
          obtain ⟨request, b, found⟩ := read
          cases found with
          | false => exact .saved (by simp [Saved.Waits])
          | true =>
              cases request with
              | none =>
                  obtain rfl := readHeaders_none hread rfl
                  exact .noRequest hget rfl rfl
              | some request =>
                  simp only [if_true]
                  cases hbody : findBody request.header_fields_ b with
                  | error f => exact .failed fun hf => findBody_ne_nullPointer _ _ (hf ▸ hbody)
                  | ok found =>
                      cases found with
                      | none =>
                          obtain ⟨n, hlen, hshort⟩ := findBody_waiting hbody
                          exact .saved fun _ => ⟨request, n, rfl, hlen, hshort⟩
                      | some found =>
                          obtain ⟨body, where_⟩ := found
                          have hands := HandlerState.Hands.mk hget hread rfl rfl hbody
                          by_cases hne : where_ = []
                          · subst hne
                            exact .last hands
                          · simp only [hne, ne_eq, not_false_eq_true, if_true]
                            exact .next hands hne

/-! ### The call -/

/-- The bytes that a call still has before it, counted twice, and one more for a request that is
in the attribute already. -/
def HandlerState.pending (s : HandlerState) : ℕ :=
  match s.connection_attribute with
  | none => 2 * s.buffer.length
  | some saved =>
      2 * (saved.buffer.length + s.buffer.length) + if saved.request.isSome then 1 else 0

/-- A request read from the first line has left bytes behind. -/
lemma newRequest_length {s : HandlerState} {got : Saved} (h : s.newRequest = .ok got)
    (hr : got.request.isSome) : got.buffer.length < s.buffer.length := by
  have hstable := extractRequestHeader_append Request.new supportedMethods s.buffer
  rw [HandlerState.newRequest, extractRequest] at h
  rw [Stable] at hstable
  split at h
  · cases h
  · next request where_ he =>
      obtain rfl := Except.ok.inj h
      rw [he] at hstable
      cases request with
      | none => cases hr
      | some request => exact hstable.1

lemma getRequest_pending {s : HandlerState} {got : Saved} (h : s.getRequest = .ok got)
    (hr : got.request.isSome) : 2 * got.buffer.length < s.pending := by
  rw [HandlerState.getRequest] at h
  rw [HandlerState.pending]
  split at h
  · have := newRequest_length h hr
    omega
  · simp only at h ⊢
    split at h
    · have := newRequest_length h hr
      simp only [List.length_append] at this
      omega
    · obtain rfl := Except.ok.inj h
      simp only [hr, if_true, List.length_append]
      omega

lemma readHeaders_suffix {got read : Saved} (h : readHeaders got = .ok read) :
    read.buffer <:+ got.buffer ∧ (read.request.isSome → got.request.isSome) := by
  rw [readHeaders] at h
  split at h
  · obtain rfl := Except.ok.inj h
    exact ⟨List.suffix_refl _, id⟩
  · next request hreq =>
      split at h
      · cases h
      · next s eob hrun =>
          obtain rfl := Except.ok.inj h
          exact ⟨headerLoop_suffix Request.push hrun, by simp [hreq]⟩

/-- A request that is handed over leaves less to be done. -/
lemma HandlerState.Hands.pending {s : HandlerState} {request : Request} {where_ : Bytes}
    (h : s.Hands request where_) : 2 * where_.length < s.pending := by
  cases h with
  | @mk got read request body where_ hget hread hfound hrequest hbody =>
      obtain ⟨hsuf, hsome⟩ := readHeaders_suffix hread
      have hle := hsuf.length_le
      have hsplit := congrArg List.length (findBody_suffix hbody)
      rw [List.length_append] at hsplit
      have hlt := getRequest_pending hget (hsome (by simp [hrequest]))
      omega

lemma onDataReadyPass_decreasing {s s' : HandlerState} (h : onDataReadyPass s = .inl s') :
    s'.pending < s.pending := by
  have hpassed := onDataReadyPass_passed s
  rw [h] at hpassed
  cases hpassed with
  | next hands hne => simpa [HandlerState.pending] using hands.pending

/-- The loop that the `goto` makes. -/
def onDataReadyLoop : MeasuredLoop HandlerState Outcome where
  pass := onDataReadyPass
  measure := HandlerState.pending
  decreasing := onDataReadyPass_decreasing

/-- One call of `onDataReady`, in which `connection->read` returns `data`. -/
def onDataReady (connection_attribute : Option Saved) (data : Bytes) : Outcome :=
  onDataReadyLoop.run ⟨connection_attribute, data, false, []⟩

/-- Data that arrives in pieces, with one call for each until a call ends in an exception. -/
def feed : Option Saved → List Bytes → Outcome
  | connection_attribute, [] => ⟨[], connection_attribute, none⟩
  | connection_attribute, data :: rest =>
      let called := onDataReady connection_attribute data
      match called.thrown with
      | some _ => called
      | none =>
          let later := feed called.connection_attribute rest
          { later with handled := called.handled ++ later.handled }

example : (onDataReady none (bytes "GET / HTTP/1.1\r\n\r\n")).handled.length = 1 := by
  decide +kernel

end Arachnida.Spin
