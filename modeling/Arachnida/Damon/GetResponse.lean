import Arachnida.Acari.FirstLine
import Arachnida.Acari.MessageLoop

/-!
The client's reader of responses, `Damon::getResponse`, as the code computes it.

* `Peer`: what is on the other end of the connection, as far as `read` and `poll` tell.
* `getResponsePass`: from the label `retry` to the `goto` or to the end of the call.
* `GetResponse`: how a call ends, if it does; the `goto` is a loop that need not terminate.
* `GetResponse.deterministic`: a call ends in one way at most.
* `getResponsePass_stuck`: a response whose headers are not complete when they are saved is
  never completed, the call repeats itself without reading.
-/

namespace Arachnida.Damon

open Library Acari

/-- A response (`Damon::Response`). -/
@[ext]
structure Response where
  protocol_and_version_ : Bytes
  status_code_ : ℕ
  reason_string_ : Bytes
  header_fields_ : List Header
  body_ : Bytes
  deriving DecidableEq, Repr

namespace Response

/-- The constructor: no headers and no body yet. -/
def new (protocol_and_version : Bytes) (status_code : ℕ) (reason_string : Bytes) : Response :=
  ⟨protocol_and_version, status_code, reason_string, [], []⟩

/-- `header_fields_.push_back`. -/
def push (response : Response) (header : Header) : Response :=
  { response with header_fields_ := response.header_fields_ ++ [header] }

/-- Headers pushed one after the other. -/
lemma foldl_push (response : Response) (headers : List Header) : headers.foldl push response
    = { response with header_fields_ := response.header_fields_ ++ headers } := by
  induction headers generalizing response with
  | nil => simp
  | cons h hs ih => rw [List.foldl_cons, ih]; simp [push]

end Response

/-- `extractResponseHeader` with the client's response type. -/
def extractResponse : Iterator → Except Failure (Option Response × Iterator) :=
  extractResponseHeader Response.new

/-- The exceptions that end a call: one of the parser's, the unexpected reason of a read, the
attribute not being the tuple that is asked for, or what `Connection::read` throws. -/
inductive Exception where
  | parsing (failure : Failure)
  | unexpectedConnectionState
  | badAnyCast
  | connectionClosed
  deriving DecidableEq, Repr

/-- The connection attribute: nothing, the tuple of four that `getResponse` stores at its end and
reads at its beginning, or the tuple of three that it stores with an incomplete body. -/
inductive Attribute where
  | empty
  | four (response : Option Response) (buffer : Bytes)
      (end_of_headers_found end_of_buffer_found : Bool)
  | three (response : Response) (buffer : Bytes) (end_of_headers_found : Bool)
  deriving DecidableEq, Repr

/-- A peer with states in `E`: what a read returns, bytes and a reason or an exception, and
whether there is data waiting. -/
structure Peer (E : Type*) where
  read : E → Except Exception (Bytes × ℕ) × E
  poll : E → Bool × E

/-- A peer whose reads are given in advance, and for which every poll has the same answer. -/
def scripted (waiting : Bool) : Peer (List (Bytes × ℕ)) where
  read := fun e =>
    match e with
    | [] => (.error .connectionClosed, [])
    | r :: rs => (.ok r, rs)
  poll := fun e => (waiting, e)

/-- `Spin::Connection::Reason`. -/
inductive Reason where
  | no_error__ | should_retry__ | should_read__ | should_write__
  deriving DecidableEq, Repr

/-- The value of a reason; a read returns the sum of several. -/
def Reason.value : Reason → ℕ
  | .no_error__ => 0
  | .should_retry__ => 1
  | .should_read__ => 2
  | .should_write__ => 4

/-- The cases of the `switch` on the reason of a read. -/
def Expected (reason : ℕ) : Prop :=
  reason = Reason.no_error__.value ∨ reason = Reason.should_retry__.value ∨
    reason = Reason.should_read__.value

instance (reason : ℕ) : Decidable (Expected reason) := inferInstanceAs (Decidable (_ ∨ _ ∨ _))

variable {E : Type*} (P : Peer E)

/-- The variables of `getResponse` at the label `retry`, and the peer. -/
structure CallState (E : Type*) where
  connection_attribute : Attribute
  retrying : Bool
  peer : E
  deriving DecidableEq

/-- How a call ends: the response or the exception, the attribute that is left and the peer. -/
structure CallResult (E : Type*) where
  result : Except Exception Response
  connection_attribute : Attribute
  peer : E
  deriving DecidableEq

/-- What the `do … while` at the beginning gets: the response, if there is one, the position to go
on from and the flag. -/
structure Got where
  response : Option Response
  where_ : Iterator
  end_of_headers_found : Bool
  deriving DecidableEq, Repr

/-- A read on the connection, appended to the buffer. -/
def readInto (buffer : Bytes) (peer : E) : Except Exception Bytes × E :=
  match P.read peer with
  | (.error x, peer) => (.error x, peer)
  | (.ok (data, reason), peer) =>
      if Expected reason then (.ok (buffer ++ data), peer)
      else (.error .unexpectedConnectionState, peer)

/-- The bytes to look for a first line in: with another read, or those that are there. -/
def fillBuffer (retrying end_of_buffer_found : Bool) (buffer : Bytes) (peer : E) :
    Except Exception Bytes × E :=
  if retrying || end_of_buffer_found || buffer = [] then readInto P buffer peer
  else if (P.poll peer).1 then readInto P buffer (P.poll peer).2
  else (.ok buffer, (P.poll peer).2)

/-- The status line, read from a buffer while the attribute is empty. -/
def newResponse (retrying end_of_headers_found end_of_buffer_found : Bool) (buffer : Bytes)
    (peer : E) : Except (Attribute × Exception) Got × E :=
  match fillBuffer P retrying end_of_buffer_found buffer peer with
  | (.error x, peer) => (.error (.empty, x), peer)
  | (.ok buffer, peer) =>
      match extractResponse buffer with
      | .error f => (.error (.empty, .parsing f), peer)
      | .ok (response, where_) => (.ok ⟨response, where_, end_of_headers_found⟩, peer)

/-- The `do … while` that gets the response, the position and the flag. -/
def getFirst (s : CallState E) : Except (Attribute × Exception) Got × E :=
  match s.connection_attribute with
  | .empty => newResponse P s.retrying false false [] s.peer
  | .three response buffer end_of_headers_found =>
      -- the attribute is cleared only after the cast
      (.error (.three response buffer end_of_headers_found, .badAnyCast), s.peer)
  | .four response buffer end_of_headers_found end_of_buffer_found =>
      if response.isNone && buffer ≠ [] then
        newResponse P s.retrying end_of_headers_found end_of_buffer_found buffer s.peer
      else (.ok ⟨response, buffer, end_of_headers_found⟩, s.peer)

/-- The header loop, if there is a response, and `end_of_buffer_found`. -/
def readHeaders (got : Got) : Except Failure (Got × Bool) :=
  match got.response with
  | none => .ok (got, false)
  | some response =>
      match (headerLoop Response.push).run ⟨response, got.where_, got.end_of_headers_found⟩ with
      | .error f => .error f
      | .ok (s, end_of_buffer_found) =>
          .ok (⟨some s.message, s.where_, s.end_of_headers_found⟩, end_of_buffer_found)

/-- The part behind the headers. -/
def finish (read : Got) (end_of_buffer_found : Bool) (peer : E) : CallResult E :=
  match read.response with
  | none => ⟨.error (.parsing .nullPointer), .empty, peer⟩
  | some response =>
      match findBody response.header_fields_ read.where_ with
      | .error f => ⟨.error (.parsing f), .empty, peer⟩
      | .ok none =>
          -- the response is returned all the same
          ⟨.ok response, .three response read.where_ read.end_of_headers_found, peer⟩
      | .ok (some (body, where_)) =>
          ⟨.ok { response with body_ := response.body_ ++ body },
            if where_ ≠ [] then .four none where_ false end_of_buffer_found else .empty, peer⟩

/-- From the label `retry` to the `goto` or to the end of the call. -/
def getResponsePass (s : CallState E) : CallState E ⊕ CallResult E :=
  match getFirst P s with
  | (.error (left, x), peer) => .inr ⟨.error x, left, peer⟩
  | (.ok got, peer) =>
      match readHeaders got with
      | .error f => .inr ⟨.error (.parsing f), .empty, peer⟩
      | .ok (read, end_of_buffer_found) =>
          if read.end_of_headers_found then .inr (finish read end_of_buffer_found peer)
          else .inl ⟨.four read.response read.where_ read.end_of_headers_found end_of_buffer_found,
            true, peer⟩

/-- A call of `getResponse` ends with this result. -/
def GetResponse (connection_attribute : Attribute) (peer : E) (result : CallResult E) : Prop :=
  Returns (getResponsePass P) ⟨connection_attribute, false, peer⟩ result

/-- A call ends in one way at most. -/
theorem GetResponse.deterministic {a : Attribute} {peer : E} {r r' : CallResult E}
    (h : GetResponse P a peer r) (h' : GetResponse P a peer r') : r = r' :=
  Returns.deterministic h h'

/-- With a response whose headers are not complete the call repeats itself and never ends: the
forced read is made only where there is no response yet. -/
theorem getResponsePass_stuck {response : Response} {w : Bytes} {s : HeaderState Response}
    {eob : Bool}
    (hrun : (headerLoop Response.push).run ⟨response, w, false⟩ = .ok (s, eob))
    (hs : s.end_of_headers_found = false) (peer : E) (r : CallResult E) :
    ¬ Returns (getResponsePass P) ⟨.four (some s.message) s.where_ false true, true, peer⟩ r := by
  obtain ⟨_, hagain⟩ := headerLoop_settled Response.push hrun hs
  obtain ⟨m, v, found⟩ := s
  obtain rfl : found = false := hs
  refine not_returns_of_stuck ?_
  simp [getResponsePass, getFirst, readHeaders, hagain]

end Arachnida.Damon
