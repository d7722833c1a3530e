import Arachnida.Acari.MessageLoop

/-!
The server's responses, `Spin::Details::Response`, and how they are written.

The constructor that takes its reason from the table of the standard ones is beside the table.
-/

namespace Arachnida.Spin

open Library Acari

/-- An HTTP response (`Details::Response`); the status code is an `int`. -/
structure Response where
  protocol_and_version_ : Bytes
  status_code_ : Int32
  reason_string_ : Bytes
  header_fields_ : List Header
  body_ : Bytes
  deriving DecidableEq

/-- The headers that are written: the response's own, and a `Content-Length` if there is none. -/
def Response.writtenHeaders (response : Response) : List Header :=
  if (response.header_fields_.find? fun h => h.name_ == bytes "Content-Length").isNone then
    response.header_fields_ ++ [⟨bytes "Content-Length", decimal response.body_.length⟩]
  else response.header_fields_

/-- `Details::serialize`. -/
def Response.serialize (response : Response) : Bytes :=
  response.protocol_and_version_ ++ bytes " " ++ signedDecimal response.status_code_.toInt
    ++ bytes " " ++ response.reason_string_ ++ bytes "\r\n"
    ++ response.writtenHeaders.flatMap headerLine ++ bytes "\r\n" ++ response.body_

end Arachnida.Spin
