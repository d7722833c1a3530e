import Arachnida.BodyFraming
import Arachnida.Damon.Request

/-!
The client's requests, written one after the other and read by the server.

* `Writable`: the requests that the server can read back.
* `Arrives`: what the server makes of such a request.
* `requestStep_written`: one request, in front of the bytes of the next ones.
* `onDataReady_pipeline`: **one call hands over one request for each that was written**, in order,
  and leaves the attribute empty.
-/

namespace Arachnida

open Library Acari Spin

/-- A request that can be read back: its URL is accepted and has no white space in it, its headers
fit on their lines, and its body does not begin with white space and has a size in the range of
`std::size_t`. -/
structure Writable (request : Damon.Request) : Prop where
  accepted : ∃ u, Damon.parseURL request.url_ = .ok u
  url : ∀ c ∈ request.url_, isIgnorableWhiteSpace c = false
  headers : ∀ h ∈ request.header_fields_, PlainHeader h
  body : Stops isIgnorableWhiteSpace request.body_
  size : request.body_.length < 2 ^ 64

/-- The `Host` header, where the request has none. -/
def hostHeaders (request : Damon.Request) : List Header :=
  if Damon.lacks request.header_fields_ (bytes "Host") then
    [⟨bytes "Host", Damon.extractHost request.url_⟩] else []

/-- The authorization, where it is asked for and the URL names a user. -/
def authorizationHeaders (request : Damon.Request) (u : Damon.ParsedURL) : List Header :=
  if request.auth_method_ = .basic__ ∧ u.username ≠ [] then
    [Damon.createBasicAuthorizationHeader u.username u.password] else []

/-- The request that the server hands over: the same method word, the resource of the URL, the
user's headers and those the client adds, and the same body. -/
def Arrives (request : Damon.Request) (r : Spin.Request) : Prop :=
  ∃ u, Damon.parseURL request.url_ = .ok u ∧
    r = ⟨request.method_.word, u.resource, bytes "HTTP/1.1",
      request.header_fields_ ++ hostHeaders request
        ++ ⟨bytes "Content-Length", decimal request.body_.length⟩ :: authorizationHeaders request u,
      request.body_⟩

section Message

variable {request : Damon.Request} {u : Damon.ParsedURL}

lemma plain_host (h : Writable request) : ∀ x ∈ hostHeaders request, PlainHeader x := by
  intro x hx
  rw [hostHeaders] at hx
  split at hx
  · obtain rfl := List.mem_singleton.mp hx
    have hvalue : ∀ c ∈ Damon.extractHost request.url_, isIgnorableWhiteSpace c = false :=
      fun c hc => h.url c (Damon.extractHost_subset _ hc)
    exact (by decide : PlainName (bytes "Host")).header
      (fun c hc => not_isNewLine_of_not_isIgnorableWhiteSpace (hvalue c hc))
      (stops_of_all hvalue) (stops_of_all (by simpa using hvalue))
  · cases hx

lemma plain_createBasicAuthorizationHeader (username password : Bytes) :
    PlainHeader (Damon.createBasicAuthorizationHeader username password) := by
  have hcode := base64encode_not_space (username ++ bytes ":" ++ password)
  have hne : base64encode (username ++ bytes ":" ++ password) ≠ [] :=
    base64encode_ne_nil (by simp [show bytes ":" = [58] by decide])
  refine (by decide : PlainName (bytes "Authorization")).header (fun c hc => ?_) rfl ?_
  · rcases List.mem_append.mp hc with hc | hc
    · exact (by decide : ∀ c ∈ bytes "Basic ", isNewLine c = false) c hc
    · exact not_isNewLine_of_not_isIgnorableWhiteSpace (hcode c hc)
  · rw [List.reverse_append]
    exact (stops_of_all (by simpa using hcode)).append (by simpa using hne) _

lemma plain_authorization (u : Damon.ParsedURL) :
    ∀ x ∈ authorizationHeaders request u, PlainHeader x := by
  intro x hx
  rw [authorizationHeaders] at hx
  split at hx
  · obtain rfl := List.mem_singleton.mp hx
    exact plain_createBasicAuthorizationHeader u.username u.password
  · cases hx

lemma lacks_of_plain {headers : List Header} (h : ∀ x ∈ headers, PlainHeader x) :
    Damon.lacks headers (bytes "Content-Length") = true := by
  rw [Damon.lacks, List.find?_eq_none.mpr]
  · rfl
  · intro x hx
    simpa using (h x hx).name_ne_content_length

lemma plain_before (h : Writable request) :
    ∀ x ∈ request.header_fields_ ++ hostHeaders request, PlainHeader x := by
  intro x hx
  exact (List.mem_append.mp hx).elim (h.headers x) (plain_host h x)

/-- The headers that are written are the request's own and, behind them, the client's. -/
lemma writtenHeaders_append (request : Damon.Request) (u : Damon.ParsedURL) :
    request.writtenHeaders u = request.header_fields_ ++ hostHeaders request
      ++ ((if Damon.lacks (request.header_fields_ ++ hostHeaders request) (bytes "Content-Length")
          then [contentLengthHeader request.body_] else []) ++ authorizationHeaders request u) := by
  have hhost : (if Damon.lacks request.header_fields_ (bytes "Host") then
      request.header_fields_ ++ [⟨bytes "Host", Damon.extractHost request.url_⟩]
      else request.header_fields_) = request.header_fields_ ++ hostHeaders request := by
    rw [hostHeaders]
    split <;> simp
  simp only [Damon.Request.writtenHeaders, hhost, authorizationHeaders]
  split <;> split <;> simp [contentLengthHeader]

lemma Writable.writtenHeaders (h : Writable request) (u : Damon.ParsedURL) :
    request.writtenHeaders u = request.header_fields_ ++ hostHeaders request
      ++ contentLengthHeader request.body_ :: authorizationHeaders request u := by
  rw [writtenHeaders_append, if_pos (lacks_of_plain (plain_before h))]
  rfl

lemma supported_word (m : Damon.Method) : (supportedMethods.lookup m.word).isSome := by
  cases m <;> decide

/-- The bytes of a request, in front of others, as a framed message. -/
lemma Writable.serialize (h : Writable request) (hu : Damon.parseURL request.url_ = .ok u) :
    ∃ b, request.serialize = .ok b ∧ ∀ rest, b ++ rest
      = requestBytes request.method_.word u.resource (bytes "HTTP/1.1")
        (request.header_fields_ ++ hostHeaders request
          ++ contentLengthHeader request.body_ :: authorizationHeaders request u)
            request.body_ rest := by
  have hspace : bytes " " = [32] := by decide
  have hproto : bytes " HTTP/1.1\r\n" = 32 :: (bytes "HTTP/1.1" ++ bytes "\r\n") := by decide
  refine ⟨_, by rw [Damon.Request.serialize, hu], fun rest => ?_⟩
  rw [h.writtenHeaders, hspace, hproto]
  simp [requestBytes, tailBytes]

lemma Writable.resource (h : Writable request) (hu : Damon.parseURL request.url_ = .ok u) :
    IsWord u.resource := by
  obtain ⟨hne, hres⟩ := Damon.parseURL_resource hu
  refine ⟨hne, fun c hc => ?_⟩
  rcases hres with hres | hres
  · rw [hres] at hc
    exact (by decide : ∀ c ∈ bytes "/", isIgnorableWhiteSpace c = false) c hc
  · exact h.url c (hres hc)

/-- **One request**, in front of the bytes of the next ones. -/
lemma requestStep_written (h : Writable request) {b rest : Bytes} (hb : request.serialize = .ok b)
    (hrest : Stops isIgnorableWhiteSpace rest) (found : Bool) :
    ∃ r, Arrives request r ∧
      requestStep ⟨none, b ++ rest, found⟩ = .complete r ⟨none, rest, false⟩ := by
  obtain ⟨u, hu⟩ := h.accepted
  obtain ⟨b', hb', hbytes⟩ := h.serialize hu
  obtain rfl : b' = b := Except.ok.inj (hb'.symm.trans hb)
  obtain ⟨hframed, hmap⟩ := framed_of_plain (plain_before h) (plain_authorization u) request.body_
  refine ⟨_, ⟨u, hu, rfl⟩, ?_⟩
  rw [hbytes rest, requestStep, readLine_requestLine (supported_word _) (h.resource hu) (.inr rfl),
    readHead_framed hframed h.body hrest, if_pos h.size, hmap]
  rfl

end Message

/-! ### The pipeline -/

lemma serialize_stops {request : Damon.Request} (h : Writable request) {b : Bytes}
    (hb : request.serialize = .ok b) (rest : Bytes) :
    b ++ rest ≠ [] ∧ Stops isIgnorableWhiteSpace (b ++ rest) := by
  obtain ⟨u, hu⟩ := h.accepted
  obtain ⟨b', hb', hbytes⟩ := h.serialize hu
  obtain rfl : b' = b := Except.ok.inj (hb'.symm.trans hb)
  rw [hbytes rest, requestBytes]
  cases request.method_ <;> exact ⟨by simp, rfl⟩

lemma stops_pieces {requests : List Damon.Request} {pieces : List Bytes}
    (hb : List.Forall₂ (fun request b => request.serialize = .ok b) requests pieces)
    (h : ∀ request ∈ requests, Writable request) : Stops isIgnorableWhiteSpace pieces.flatten := by
  cases hb with
  | nil => trivial
  | cons hr hrs =>
      rw [List.flatten_cons]
      exact (serialize_stops (h _ (by simp)) hr _).2

/-- The passes of a call over the requests that are in its buffer. -/
lemma onDataReadyLoop_written {requests : List Damon.Request} {pieces : List Bytes}
    (hb : List.Forall₂ (fun request b => request.serialize = .ok b) requests pieces)
    (h : ∀ request ∈ requests, Writable request) (hne : requests ≠ []) {s : HandlerState}
    (hs : s.Sound) {found : Bool} (hsaved : s.saved = ⟨none, pieces.flatten, found⟩) :
    ∃ handled, List.Forall₂ Arrives requests handled ∧
      onDataReadyLoop.run s = ⟨s.handled ++ handled, none, none⟩ := by
  induction hb generalizing s found with
  | nil => exact absurd rfl hne
  | @cons request b requests pieces hr hrs ih =>
      have hreq := h request (by simp)
      have hall : ∀ x ∈ requests, Writable x := fun x hx => h x (by simp [hx])
      have hstops := stops_pieces hrs hall
      obtain ⟨r, harrives, hstep⟩ := requestStep_written hreq hr hstops found
      have hpass : onDataReadyLoop.pass s
          = s.continue (.complete r ⟨none, pieces.flatten, false⟩) := by
        rw [← hstep, ← List.flatten_cons, ← hsaved]
        exact onDataReadyPass_eq hs
      by_cases hlast : pieces.flatten = []
      · have hnil : requests = [] := by
          cases hrs with
          | nil => rfl
          | cons hr' _ => exact absurd hlast (serialize_stops (hall _ (by simp)) hr' _).1
        subst hnil
        refine ⟨[r], .cons harrives .nil, onDataReadyLoop.run_of_inr ?_⟩
        rw [hpass]
        simp [HandlerState.continue, hlast]
      · have hnext : onDataReadyLoop.pass s
            = .inl ⟨some ⟨none, pieces.flatten, false⟩, [], true, s.handled ++ [r]⟩ := by
          rw [hpass]
          simp [HandlerState.continue, hlast]
        have hmore : requests ≠ [] := by
          intro hnil
          subst hnil
          cases hrs
          exact hlast rfl
        have hsaved' : HandlerState.saved
            ⟨some ⟨none, pieces.flatten, false⟩, [], true, s.handled ++ [r]⟩
            = ⟨none, pieces.flatten, false⟩ := by simp [HandlerState.saved]
        obtain ⟨handled, hhandled, hrun⟩ := ih hall hmore ⟨by simp, by simp, by simp⟩ hsaved'
        refine ⟨r :: handled, .cons harrives hhandled, ?_⟩
        rw [onDataReadyLoop.run_of_inl hnext, hrun]
        simp

/-- **One call hands over one request for each that was written**, in order, and leaves the
attribute empty. -/
theorem onDataReady_pipeline {requests : List Damon.Request} {pieces : List Bytes}
    (hne : requests ≠ []) (h : ∀ request ∈ requests, Writable request)
    (hb : List.Forall₂ (fun request b => request.serialize = .ok b) requests pieces) :
    ∃ handled, List.Forall₂ Arrives requests handled ∧
      onDataReady none pieces.flatten = ⟨handled, none, none⟩ := by
  obtain ⟨handled, hhandled, hrun⟩ := onDataReadyLoop_written hb h hne
    (s := ⟨none, pieces.flatten, false, []⟩) ⟨fun _ => rfl, by simp, by simp⟩ rfl
  exact ⟨handled, hhandled, by rw [onDataReady, hrun, List.nil_append]⟩

/-- Two requests, the first with a user name and a body, the second without a resource. -/
def twoRequests : List Damon.Request :=
  [⟨bytes "http://me:pw@localhost:81/a?b", .put__, .basic__,
    [⟨bytes "X", bytes "y z"⟩], bytes "1\r\n"⟩,
    ⟨bytes "localhost", .head__, .basic__, [⟨bytes "Host", bytes "h"⟩], []⟩]

/-- These requests as they are written. -/
def twoPieces : List Bytes :=
  [bytes "PUT /a?b HTTP/1.1\r\nX: y z\r\nHost: localhost:81\r\nContent-Length: 3\r\n"
      ++ bytes "Authorization: Basic bWU6cHc=\r\n\r\n1\r\n",
    bytes "HEAD / HTTP/1.1\r\nHost: h\r\nContent-Length: 0\r\n\r\n"]

/-- The pipeline of these two requests. -/
theorem onDataReady_pipeline_two : ∃ handled, List.Forall₂ Arrives twoRequests handled ∧
    onDataReady none twoPieces.flatten = ⟨handled, none, none⟩ := by
  have hx : PlainHeader ⟨bytes "X", bytes "y z"⟩ :=
    (by decide : PlainName (bytes "X")).header (by decide) (by decide) (by decide)
  have hhost : PlainHeader ⟨bytes "Host", bytes "h"⟩ :=
    (by decide : PlainName (bytes "Host")).header (by decide) (by decide) (by decide)
  have hfirst : Damon.parseURL (bytes "http://me:pw@localhost:81/a?b") = .ok
      ⟨bytes "http", bytes "localhost", 81, bytes "/a?b", bytes "me", bytes "pw"⟩ := by
    decide +kernel
  have hsecond : Damon.parseURL (bytes "localhost")
      = .ok ⟨bytes "http", bytes "localhost", 80, bytes "/", [], []⟩ := by
    decide +kernel
  refine onDataReady_pipeline (by simp [twoRequests]) (fun r hr => ?_)
    (.cons (by decide +kernel) (.cons (by decide +kernel) .nil))
  rcases List.mem_cons.mp hr with rfl | hr
  · exact ⟨⟨_, hfirst⟩, by decide, by simpa using hx, by decide, by decide⟩
  · obtain rfl := List.mem_singleton.mp hr
    exact ⟨⟨_, hsecond⟩, by decide, by simpa using hhost, by decide, by decide⟩

end Arachnida
