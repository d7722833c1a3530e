import Arachnida.Spin.Response

/-!
The standard status codes, and the constructor of `Spin::Details::Response` that takes its reason
from their table.

* `StatusCode`, `reasonStrings`: the enumeration and the table.
* `Response.ofStatus`: the constructor, which has no value where the table holds a null pointer.
* `reason_eq_none_iff`: **there is one such code**: the table has the reason of
  `temporary_redirect__` one place too early.
* `reason_line`: every other reason fits on a status line.
-/

namespace Arachnida.Spin

open Library Acari

/-- `Response::StatusCode`. -/
inductive StatusCode where
  | continue__ | switching_protocols__
  | ok__ | created__ | accepted__ | non_authoritive_information__ | no_content__ | reset_content__
  | partial_content__
  | multiple_choices__ | moved_permanently__ | found__ | see_other__ | not_modified__ | use_proxy__
  | temporary_redirect__
  | bad_request__ | unauthorized__ | payment_required__ | forbidden__ | not_found__
  | method_not_allowed__ | not_acceptable__ | proxy_authentication_required__ | request_time_out__
  | conflict__ | gone__ | length_required__ | precondition_failed__ | request_entity_too_large__
  | request_uri_too_large__ | unsupported_media_type__ | requested_change_not_satisfiable__
  | expectation_failed__
  | internal_server_error__ | not_implemented__ | bad_gateway__ | service_unavailable__
  | gateway_time_out__ | http_version_not_supported__
  deriving DecidableEq, Repr

/-- The codes as numbers. -/
def StatusCode.value : StatusCode → ℕ
  | .continue__ => 100 | .switching_protocols__ => 101
  | .ok__ => 200 | .created__ => 201 | .accepted__ => 202 | .non_authoritive_information__ => 203
  | .no_content__ => 204 | .reset_content__ => 205 | .partial_content__ => 206
  | .multiple_choices__ => 300 | .moved_permanently__ => 301 | .found__ => 302 | .see_other__ => 303
  | .not_modified__ => 304 | .use_proxy__ => 305 | .temporary_redirect__ => 307
  | .bad_request__ => 400 | .unauthorized__ => 401 | .payment_required__ => 402
  | .forbidden__ => 403 | .not_found__ => 404 | .method_not_allowed__ => 405
  | .not_acceptable__ => 406 | .proxy_authentication_required__ => 407 | .request_time_out__ => 408
  | .conflict__ => 409 | .gone__ => 410 | .length_required__ => 411 | .precondition_failed__ => 412
  | .request_entity_too_large__ => 413 | .request_uri_too_large__ => 414
  | .unsupported_media_type__ => 415 | .requested_change_not_satisfiable__ => 416
  | .expectation_failed__ => 417
  | .internal_server_error__ => 500 | .not_implemented__ => 501 | .bad_gateway__ => 502
  | .service_unavailable__ => 503 | .gateway_time_out__ => 504
  | .http_version_not_supported__ => 505

/-- The places of `reason_strings__` that hold a string; the others are null pointers. -/
def reasonStrings : List (ℕ × Bytes) := [
  (100, bytes "Continue"), (101, bytes "Switching Protocols"),
  (200, bytes "OK"), (201, bytes "Created"), (202, bytes "Accepted"),
  (203, bytes "Non-Authoritative Information"), (204, bytes "No Content"),
  (205, bytes "Reset Content"), (206, bytes "Partial Content"),
  (300, bytes "Multiple Choices"), (301, bytes "Moved Permanently"), (302, bytes "Found"),
  (303, bytes "See Other"), (304, bytes "Not Modified"), (305, bytes "Use Proxy"),
  (306, bytes "Temporary Redirect"),
  (400, bytes "Bad Request"), (401, bytes "Unauthorized"), (402, bytes "Payment Required"),
  (403, bytes "Forbidden"), (404, bytes "Not Found"), (405, bytes "Method Not Allowed"),
  (406, bytes "Not Acceptable"), (407, bytes "Proxy Authentication Required"),
  (408, bytes "Request Time-out"), (409, bytes "Conflict"), (410, bytes "Gone"),
  (411, bytes "Length Required"), (412, bytes "Precondition Failed"),
  (413, bytes "Request Entity Too Large"), (414, bytes "Request-URI Too Large"),
  (415, bytes "Unsupported Media Type"), (416, bytes "Requested range not satisfiable"),
  (417, bytes "Expectation Failed"),
  (500, bytes "Internal Server Error"), (501, bytes "Not Implemented"), (502, bytes "Bad Gateway"),
  (503, bytes "Service Unavailable"), (504, bytes "Gateway Time-out"),
  (505, bytes "HTTP Version not supported")]

/-- The reason of a code. -/
def StatusCode.reason (status_code : StatusCode) : Option Bytes :=
  reasonStrings.lookup status_code.value

namespace Response

/-- The constructor from a code; from a null pointer no string can be made. -/
def ofStatus (protocol_and_version : Bytes) (status_code : StatusCode) : Option Response :=
  status_code.reason.map fun reason =>
    ⟨protocol_and_version, .ofNat status_code.value, reason, [], []⟩

/-- `addHeader`. -/
def addHeader (response : Response) (name value : Bytes) : Response :=
  { response with header_fields_ := response.header_fields_ ++ [⟨name, value⟩] }

/-- `setBody`. -/
def setBody (response : Response) (body : Bytes) : Response := { response with body_ := body }

end Response

/-- **One code has no reason.** -/
theorem reason_eq_none_iff (status_code : StatusCode) :
    status_code.reason = none ↔ status_code = .temporary_redirect__ := by
  cases status_code <;> decide

/-- A reason is not empty, has no newline in it and does not begin with white space. -/
lemma reason_line {status_code : StatusCode} {reason : Bytes}
    (h : status_code.reason = some reason) :
    reason ≠ [] ∧ Stops isIgnorableWhiteSpace reason ∧ ∀ c ∈ reason, isNewLine c = false := by
  obtain ⟨before, after, hsplit, -⟩ := List.lookup_eq_some_iff.mp h
  have hmem : (status_code.value, reason) ∈ reasonStrings := by
    rw [hsplit]
    simp
  have hall : ∀ p ∈ reasonStrings,
      p.2 ≠ [] ∧ Stops isIgnorableWhiteSpace p.2 ∧ ∀ c ∈ p.2, isNewLine c = false := by
    decide +kernel
  exact hall _ hmem

end Arachnida.Spin
