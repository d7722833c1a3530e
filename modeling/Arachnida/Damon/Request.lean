import Arachnida.Acari.Base64
import Arachnida.Acari.MessageLoop
import Arachnida.Damon.ParseURL

/-!
The client's requests, `Damon::Request`, and how they are written.
-/

namespace Arachnida.Damon

open Library Acari

/-- `Request::Method`. -/
inductive Method where
  | options__ | get__ | head__ | post__ | put__ | delete__ | trace__ | connect__
  deriving DecidableEq, Repr

/-- `Request::AuthorizationMethod`. -/
inductive AuthorizationMethod where
  | none__ | basic__
  deriving DecidableEq, Repr

/-- A request to be sent to a server (`Damon::Request`). -/
structure Request where
  url_ : Bytes
  method_ : Method
  auth_method_ : AuthorizationMethod
  header_fields_ : List Header
  body_ : Bytes
  deriving DecidableEq, Repr

/-- The constructor, with its default arguments. -/
def Request.new (url : Bytes) : Request := ⟨url, .get__, .none__, [], []⟩

/-- The word for a method, in the `switch` of `serialize`. -/
def Method.word : Method → Bytes
  | .options__ => bytes "OPTIONS"
  | .get__ => bytes "GET"
  | .head__ => bytes "HEAD"
  | .post__ => bytes "POST"
  | .put__ => bytes "PUT"
  | .delete__ => bytes "DELETE"
  | .trace__ => bytes "TRACE"
  | .connect__ => bytes "CONNECT"

/-- `createBasicAuthorizationHeader`, with the encoding in groups: the loop of `base64encode`, whose
positions have 32 bits, comes to the same up to `3 * 2 ^ 30` bytes (`Acari.encodes`). -/
def createBasicAuthorizationHeader (username password : Bytes) : Header :=
  ⟨bytes "Authorization", bytes "Basic " ++ base64encode (username ++ bytes ":" ++ password)⟩

/-- Whether no header has this name. -/
def lacks (header_fields : List Header) (name : Bytes) : Bool :=
  (header_fields.find? fun h => h.name_ == name).isNone

/-- The headers that are written: the request's own, a `Host`, a `Content-Length`, and the
authorization that the URL asks for. -/
def Request.writtenHeaders (request : Request) (u : ParsedURL) : List Header :=
  let header_fields :=
    if lacks request.header_fields_ (bytes "Host") then
      request.header_fields_ ++ [⟨bytes "Host", extractHost request.url_⟩]
    else request.header_fields_
  let header_fields :=
    if lacks header_fields (bytes "Content-Length") then
      header_fields ++ [⟨bytes "Content-Length", decimal request.body_.length⟩]
    else header_fields
  if request.auth_method_ = .basic__ ∧ u.username ≠ [] then
    header_fields ++ [createBasicAuthorizationHeader u.username u.password]
  else header_fields

/-- `Damon::serialize`. -/
def Request.serialize (request : Request) : Except URLError Bytes :=
  match parseURL request.url_ with
  | .error e => .error e
  | .ok u =>
      .ok (request.method_.word ++ bytes " " ++ u.resource ++ bytes " HTTP/1.1\r\n"
        ++ (request.writtenHeaders u).flatMap headerLine ++ bytes "\r\n" ++ request.body_)

end Arachnida.Damon
