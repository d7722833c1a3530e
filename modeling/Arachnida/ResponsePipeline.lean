import Arachnida.BodyFraming
import Arachnida.Spin.Response

/-!
The server's responses, written one after the other and read by the client.

* `Sendable`: the responses that the client can read back.
* `serialize_append`: such a response as it is written is a framed message.
* `getResponse_read`, `getResponse_saved`: one call, which reads or finds the response among the
  bytes that an earlier call has left.
* `getResponse_pipeline`: **as many calls as there are responses return them in order**, with one
  read altogether.
-/

namespace Arachnida

open Library Acari Damon

/-- A response that can be read back: its parts fit on their lines, and its body does not begin
with white space and has a size in the range of `std::size_t`. -/
structure Sendable (response : Spin.Response) : Prop where
  protocol : response.protocol_and_version_ = bytes "HTTP/1.0" ∨
    response.protocol_and_version_ = bytes "HTTP/1.1"
  code : 0 ≤ response.status_code_.toInt
  reason_ne : response.reason_string_ ≠ []
  reason_start : Stops isIgnorableWhiteSpace response.reason_string_
  reason_line : ∀ c ∈ response.reason_string_, isNewLine c = false
  headers : ∀ h ∈ response.header_fields_, PlainHeader h
  body : Stops isIgnorableWhiteSpace response.body_
  size : response.body_.length < 2 ^ 64

/-- What the client makes of it: the same protocol, code and reason, its headers and the
`Content-Length`, and the same body. -/
def received (response : Spin.Response) : Damon.Response where
  protocol_and_version_ := response.protocol_and_version_
  status_code_ := response.status_code_.toInt.toNat
  reason_string_ := response.reason_string_
  header_fields_ := response.header_fields_ ++
    [⟨bytes "Content-Length", decimal response.body_.length⟩]
  body_ := response.body_

section Message

variable {response : Spin.Response}

lemma Sendable.writtenHeaders (h : Sendable response) : response.writtenHeaders
    = response.header_fields_ ++ contentLengthHeader response.body_ :: [] := by
  rw [Spin.Response.writtenHeaders, if_pos]
  · rfl
  · rw [List.find?_eq_none.mpr]
    · rfl
    · intro x hx
      simpa using (h.headers x hx).name_ne_content_length

/-- A response as it is written, in front of other bytes. -/
lemma Sendable.serialize_append (h : Sendable response) (rest : Bytes) :
    response.serialize ++ rest = response.protocol_and_version_ ++
      32 :: (decimal response.status_code_.toInt.toNat ++ 32 :: ([] ++ (response.reason_string_ ++
        tailBytes (response.header_fields_ ++ contentLengthHeader response.body_ :: [])
          response.body_ rest))) := by
  have hcode : signedDecimal response.status_code_.toInt
      = decimal response.status_code_.toInt.toNat := by
    rw [signedDecimal, if_neg (not_lt.mpr h.code)]
    congr 1
    have := h.code
    omega
  have hspace : bytes " " = [32] := by decide
  rw [Spin.Response.serialize, hcode, h.writtenHeaders, hspace]
  simp [tailBytes]

/-- What the parser finds behind the status line. -/
lemma Sendable.extract (h : Sendable response) (rest : Bytes) :
    extractResponse (response.serialize ++ rest)
      = .ok (some (.new response.protocol_and_version_ response.status_code_.toInt.toNat
          response.reason_string_),
          tailBytes (response.header_fields_ ++ contentLengthHeader response.body_ :: [])
            response.body_ rest) := by
  have hlt := response.status_code_.toInt_lt
  have hcast : lexicalCast 32 (decimal response.status_code_.toInt.toNat)
      = some response.status_code_.toInt.toNat := by
    refine lexicalCast_decimal ?_
    have := h.code
    omega
  rw [h.serialize_append]
  exact extractResponse_statusLine h.protocol (isNumeral_decimal _) hcast (by simp) h.reason_ne
    h.reason_start h.reason_line _ _ _

lemma Sendable.serialize_stops (h : Sendable response) (rest : Bytes) :
    response.serialize ++ rest ≠ [] ∧ Stops isIgnorableWhiteSpace (response.serialize ++ rest) := by
  rw [h.serialize_append]
  rcases h.protocol with hp | hp <;> rw [hp] <;> exact ⟨by simp, rfl⟩

variable {E : Type*} (P : Peer E) {rest : Bytes}

/-- The pass over a response that is in the buffer. -/
lemma Sendable.pass (h : Sendable response) (hrest : Stops isIgnorableWhiteSpace rest)
    {s : CallState E} {peer : E}
    (hfirst : ∀ w, extractResponse (response.serialize ++ rest) = .ok w →
      getFirst P s = (.ok ⟨w.1, w.2, false⟩, peer)) :
    getResponsePass P s
      = .inr ⟨.ok (received response), if rest = [] then .empty else .four none rest false false,
          peer⟩ := by
  obtain ⟨hframed, hmap⟩ := framed_of_plain h.headers (by simp : ∀ x ∈ [], PlainHeader x)
    response.body_
  have hrun := hframed.read Response.push h.body hrest
    (.new response.protocol_and_version_ response.status_code_.toInt.toNat response.reason_string_)
  have hfind := @Framed.findBody _ _ rest hframed
  rw [hmap, Response.foldl_push] at hrun
  rw [hmap, if_pos h.size] at hfind
  simp only [getResponsePass, hfirst _ (h.extract rest), readHeaders, hrun, if_true]
  simp only [finish, Response.new, List.nil_append, hfind]
  by_cases hr : rest = [] <;> simp [hr, received, contentLengthHeader]

/-- The call that reads. -/
lemma Sendable.getResponse_read (h : Sendable response) (hrest : Stops isIgnorableWhiteSpace rest)
    {peer peer' : E} {n : ℕ} (hread : P.read peer = (.ok (response.serialize ++ rest, n), peer'))
    (hn : Expected n) :
    GetResponse P .empty peer ⟨.ok (received response),
      if rest = [] then .empty else .four none rest false false, peer'⟩ := by
  refine returns_of_inr (h.pass P hrest fun w hw => ?_)
  simp [getFirst, newResponse, fillBuffer, readInto, hread, hn, hw]

/-- A call that finds the response among the bytes that were left. -/
lemma Sendable.getResponse_saved (h : Sendable response) (hrest : Stops isIgnorableWhiteSpace rest)
    {peer : E} (hpoll : (P.poll peer).1 = false) :
    GetResponse P (.four none (response.serialize ++ rest) false false) peer
      ⟨.ok (received response), if rest = [] then .empty else .four none rest false false,
        (P.poll peer).2⟩ := by
  refine returns_of_inr (h.pass P hrest fun w hw => ?_)
  have hne := (h.serialize_stops rest).1
  simp only [getFirst, newResponse, fillBuffer, Option.isNone_none, Bool.true_and, hpoll, hw,
    decide_eq_true_eq, ne_eq, hne, not_false_eq_true, if_true, Bool.or_self, Bool.false_or,
    Bool.false_eq_true, if_false]

end Message

/-! ### The pipeline -/

section Pipeline

variable {E : Type*} (P : Peer E)

/-- Successive calls of `getResponse` on one connection, which return these responses. -/
def Calls : Attribute → E → List Damon.Response → Attribute → E → Prop
  | a, peer, [], a', peer' => a = a' ∧ peer = peer'
  | a, peer, r :: rs, a', peer' => ∃ a₁ peer₁, GetResponse P a peer ⟨.ok r, a₁, peer₁⟩ ∧
      Calls a₁ peer₁ rs a' peer'

/-- The peer after `k` polls. -/
def polled (k : ℕ) (peer : E) : E := (fun e => (P.poll e).2)^[k] peer

lemma stops_pipeline {responses : List Spin.Response} (h : ∀ r ∈ responses, Sendable r) :
    Stops isIgnorableWhiteSpace (responses.flatMap Spin.Response.serialize) := by
  cases responses with
  | nil => trivial
  | cons r rs => exact ((h r (by simp)).serialize_stops _).2

/-- The calls behind the first one, which has left these responses in the attribute. -/
lemma calls_saved {responses : List Spin.Response} (h : ∀ r ∈ responses, Sendable r) {peer : E}
    (hpoll : ∀ k, (P.poll (polled P k peer)).1 = false) :
    Calls P (if responses.flatMap Spin.Response.serialize = [] then .empty
        else .four none (responses.flatMap Spin.Response.serialize) false false) peer
      (responses.map received) .empty (polled P responses.length peer) := by
  induction responses generalizing peer with
  | nil => exact ⟨rfl, rfl⟩
  | cons r rs ih =>
      have hr := h r (by simp)
      have hrs : ∀ x ∈ rs, Sendable x := fun x hx => h x (by simp [hx])
      rw [List.flatMap_cons, if_neg (hr.serialize_stops _).1]
      refine ⟨_, _, hr.getResponse_saved P (stops_pipeline hrs) (hpoll 0), ?_⟩
      exact ih hrs fun k => hpoll (k + 1)

/-- **As many calls as there are responses return them in order.**  The first call reads, the later
ones only poll, and the attribute is empty at the end. -/
theorem getResponse_pipeline {responses : List Spin.Response} (hne : responses ≠ [])
    (h : ∀ r ∈ responses, Sendable r) {peer peer' : E} {n : ℕ}
    (hread : P.read peer = (.ok (responses.flatMap Spin.Response.serialize, n), peer'))
    (hn : Expected n) (hpoll : ∀ k, (P.poll (polled P k peer')).1 = false) :
    Calls P .empty peer (responses.map received) .empty
      (polled P (responses.length - 1) peer') := by
  cases responses with
  | nil => exact absurd rfl hne
  | cons r rs =>
      have hrs : ∀ x ∈ rs, Sendable x := fun x hx => h x (by simp [hx])
      exact ⟨_, _, (h r (by simp)).getResponse_read P (stops_pipeline hrs) hread hn,
        calls_saved P hrs hpoll⟩

/-- Two responses, one without a body, are read by two calls. -/
theorem getResponse_pipeline_two :
    Calls (scripted false) .empty
      [(([⟨bytes "HTTP/1.1", 200, bytes "OK", [⟨bytes "Server", bytes "a b"⟩], bytes "x\r\n\r\n"⟩,
        ⟨bytes "HTTP/1.0", 404, bytes "Not Found", [], []⟩] : List Spin.Response).flatMap
          Spin.Response.serialize, 1)]
      [⟨bytes "HTTP/1.1", 200, bytes "OK",
        [⟨bytes "Server", bytes "a b"⟩, ⟨bytes "Content-Length", bytes "5"⟩], bytes "x\r\n\r\n"⟩,
        ⟨bytes "HTTP/1.0", 404, bytes "Not Found", [⟨bytes "Content-Length", bytes "0"⟩], []⟩]
      .empty [] := by
  have hserver : PlainHeader ⟨bytes "Server", bytes "a b"⟩ :=
    ⟨⟨by decide, by decide, by decide, by decide, by decide⟩, by decide, by decide, by decide,
      by decide⟩
  have hall : ∀ r ∈ ([⟨bytes "HTTP/1.1", 200, bytes "OK", [⟨bytes "Server", bytes "a b"⟩],
      bytes "x\r\n\r\n"⟩, ⟨bytes "HTTP/1.0", 404, bytes "Not Found", [], []⟩]
        : List Spin.Response), Sendable r := by
    intro r hr
    rcases List.mem_cons.mp hr with rfl | hr
    · exact ⟨.inr rfl, by decide, by decide, by decide, by decide, by simpa using hserver,
        by decide, by decide⟩
    · obtain rfl := List.mem_singleton.mp hr
      exact ⟨.inl rfl, by decide, by decide, by decide, by decide, by simp, by decide, by decide⟩
  exact @getResponse_pipeline _ (scripted false) _ (by simp) hall [(_, 1)] [] 1 rfl (by decide)
    (fun k => by cases k <;> rfl)

end Pipeline

end Arachnida
