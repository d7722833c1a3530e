import Arachnida.Damon.GetResponse
import Arachnida.Damon.Request
import Arachnida.Scorpion.Context

/-!
Sessions of the client: `Damon::send` with its cache of connections.

* `Network`: the other ends of connections, as far as `usable`, `write`, `read` and `poll` tell.
* `Session`, `cacheKey`: the cache, by server and port.
* `findConnection`: the `do … while` that finds a usable connection or opens one.
* `writeAll`: requests written one after the other, up to the first that fails.
* `Send`, `SendAll`: how a call of either overload ends, with the requests that it has written.
* `Traffic`, `Call`, `Step`: a session over its whole life.

Assertions are taken as not compiled in: those of `send` on the context and on the cache hold, and
where the one on the servers of pipelined requests fails, the code behind it is as well defined as
elsewhere.
-/

namespace Arachnida.Damon

open Library Scorpion

/-! ### Sessions -/

/-- The other ends of connections: besides `read` and `poll`, whether the connection is usable, and
whether a write returns. -/
structure Network (E : Type*) extends Peer E where
  usable : E → Bool
  write : E → Bytes → Bool × E

/-- A connection: the server and the port it was opened to, the security context it was opened
with, its attribute and its other end. -/
structure Connection (E : Type*) where
  server : Bytes
  port : ℕ
  context : Option Settings
  connection_attribute : Attribute
  peer : E

/-- `Session`. -/
structure Session (E : Type*) where
  context_ : Option Settings
  connection_cache_ : Bytes → Option (Connection E)

variable {E : Type*}

namespace Session

/-- A new session. -/
def new : Session E := ⟨none, fun _ => none⟩

/-- `Session::setContext`. -/
def setContext (session : Session E) (context : Settings) : Session E :=
  { session with context_ := some context }

/-- `connection_cache_.insert`, or an assignment through the iterator. -/
def insert (session : Session E) (key : Bytes) (connection : Connection E) : Session E :=
  { session with
    connection_cache_ := Function.update session.connection_cache_ key (some connection) }

/-- `connection_cache_.erase`. -/
def erase (session : Session E) (key : Bytes) : Session E :=
  { session with connection_cache_ := Function.update session.connection_cache_ key none }

/-- `default_options__`. -/
def defaultOptions : BitVec 32 := 0x20000036

/-- The security context of the session, made where a secured connection may need one. -/
def secure (session : Session E) (secured : Bool) : Session E :=
  if secured && session.context_.isNone then
    { session with context_ := some (.new defaultOptions 0) }
  else session

end Session

/-- The key of the cache, `%1%:%2%`. -/
def cacheKey (server : Bytes) (port : ℕ) : Bytes := server ++ bytes ":" ++ decimal port

/-- Whether the protocol of a URL asks for a secured connection. -/
def ParsedURL.secured (u : ParsedURL) : Bool := u.protocol = bytes "https"

/-- A connection that was just opened for a URL. -/
def Session.opened (session : Session E) (u : ParsedURL) (peer : E) : Connection E :=
  ⟨u.server, u.port, if u.secured then session.context_ else none, .empty, peer⟩

/-! ### Sending -/

variable (N : Network E)

/-- What a call can end with instead of responses. -/
inductive SendError where
  | url (e : URLError)
  | connect
  | write
  | response (x : Exception)
  deriving DecidableEq, Repr

/-- The passes of the `do … while` that find no connection in the cache.  Each call of
`Connector::connect` throws or has another end to show for it; where none is left, the call does
not return. -/
def openConnection (session : Session E) (u : ParsedURL) :
    List (Option E) → Option (Option (Connection E) × Session E)
  | [] => none
  | none :: _ => some (none, session)
  | some peer :: attempts =>
      let key := cacheKey u.server u.port
      let connection := session.opened u peer
      if N.usable peer then some (some connection, session.insert key connection)
      else openConnection ((session.insert key connection).erase key) u attempts

/-- The `do … while` of both overloads. -/
def findConnection (session : Session E) (u : ParsedURL) (attempts : List (Option E)) :
    Option (Option (Connection E) × Session E) :=
  match session.connection_cache_ (cacheKey u.server u.port) with
  | some connection =>
      if N.usable connection.peer then some (some connection, session)
      else openConnection N (session.erase (cacheKey u.server u.port)) u attempts
  | none => openConnection N session u attempts

/-- A request that was handed to the connection: as bytes, and with the other end as it was. -/
structure Written (E : Type*) where
  request : Request
  data : Bytes
  connection : Connection E

/-- `Connection::write< Request >`, for one request after the other: what was written, the error
that ended it, and the connection. -/
def writeAll (connection : Connection E) :
    List Request → List (Written E) × Option SendError × Connection E
  | [] => ([], none, connection)
  | request :: requests =>
      match request.serialize with
      | .error e => ([], some (.url e), connection)
      | .ok data =>
          let written : Written E := ⟨request, data, connection⟩
          let after := { connection with peer := (N.write connection.peer data).2 }
          if (N.write connection.peer data).1 then
            (written :: (writeAll after requests).1, (writeAll after requests).2)
          else ([written], some .write, after)

/-- Calls of `getResponse` on a connection, a number of them or up to the first exception. -/
inductive GetResponses : Connection E → ℕ → Except Exception (List Response) → Connection E → Prop
  | done (c : Connection E) : GetResponses c 0 (.ok []) c
  | thrown {c : Connection E} {n : ℕ} {x : Exception} {a : Attribute} {peer : E}
      (h : GetResponse N.toPeer c.connection_attribute c.peer ⟨.error x, a, peer⟩) :
      GetResponses c (n + 1) (.error x) { c with connection_attribute := a, peer := peer }
  | next {c c' : Connection E} {n : ℕ} {r : Response} {rest : Except Exception (List Response)}
      {a : Attribute} {peer : E}
      (h : GetResponse N.toPeer c.connection_attribute c.peer ⟨.ok r, a, peer⟩)
      (hrest : GetResponses { c with connection_attribute := a, peer := peer } n rest c') :
      GetResponses c (n + 1) (rest.map (r :: ·)) c'

/-- How a call ends: its responses or the exception, the requests it has written, and the session
that it leaves. -/
structure SendResult (E : Type*) where
  result : Except SendError (List Response)
  written : List (Written E)
  session : Session E

/-- The part of both overloads up to the connection: the URL, the context, and the connection with
the session that has it in its cache. -/
def prepare (session : Session E) (request : Request) (attempts : List (Option E)) :
    Option (Except SendError (Connection E × ParsedURL) × Session E) :=
  match parseURL request.url_ with
  | .error e => some (.error (.url e), session)
  | .ok u =>
      match findConnection N (session.secure u.secured) u attempts with
      | none => none
      | some (none, session) => some (.error .connect, session)
      | some (some connection, session) => some (.ok (connection, u), session)

/-- A call of `send` with one request ends like this. -/
inductive Send (session : Session E) (request : Request) (attempts : List (Option E)) :
    SendResult E → Prop
  | unprepared {e : SendError} {session' : Session E}
      (h : prepare N session request attempts = some (.error e, session')) :
      Send session request attempts ⟨.error e, [], session'⟩
  | unwritten {c c' : Connection E} {u : ParsedURL} {session' : Session E} {e : SendError}
      {written : List (Written E)}
      (h : prepare N session request attempts = some (.ok (c, u), session'))
      (hwrite : writeAll N c [request] = (written, some e, c')) :
      Send session request attempts
        ⟨.error e, written, session'.insert (cacheKey u.server u.port) c'⟩
  | answered {c c' c'' : Connection E} {u : ParsedURL} {session' : Session E}
      {written : List (Written E)} {result : Except Exception Response} {a : Attribute} {peer : E}
      (h : prepare N session request attempts = some (.ok (c, u), session'))
      (hwrite : writeAll N c [request] = (written, none, c'))
      (hget : GetResponse N.toPeer c'.connection_attribute c'.peer ⟨result, a, peer⟩)
      (hc'' : c'' = { c' with connection_attribute := a, peer := peer }) :
      Send session request attempts ⟨(result.map fun r => [r]).mapError .response, written,
        session'.insert (cacheKey u.server u.port) c''⟩

/-- A call of `send` with a list of requests ends like this. -/
inductive SendAll (session : Session E) (attempts : List (Option E)) :
    List Request → SendResult E → Prop
  | empty : SendAll session attempts [] ⟨.ok [], [], session⟩
  | unprepared {request : Request} {requests : List Request} {e : SendError} {session' : Session E}
      (h : prepare N session request attempts = some (.error e, session')) :
      SendAll session attempts (request :: requests) ⟨.error e, [], session'⟩
  | unwritten {request : Request} {requests : List Request} {c c' : Connection E} {u : ParsedURL}
      {session' : Session E} {e : SendError} {written : List (Written E)}
      (h : prepare N session request attempts = some (.ok (c, u), session'))
      (hwrite : writeAll N c (request :: requests) = (written, some e, c')) :
      SendAll session attempts (request :: requests)
        ⟨.error e, written, session'.insert (cacheKey u.server u.port) c'⟩
  | answered {request : Request} {requests : List Request} {c c' c'' : Connection E} {u : ParsedURL}
      {session' : Session E} {written : List (Written E)}
      {result : Except Exception (List Response)}
      (h : prepare N session request attempts = some (.ok (c, u), session'))
      (hwrite : writeAll N c (request :: requests) = (written, none, c'))
      (hget : GetResponses N c' (requests.length + 1) result c'') :
      SendAll session attempts (request :: requests) ⟨result.mapError .response, written,
        session'.insert (cacheKey u.server u.port) c''⟩

variable {N}

/-- A call with one request is a call with the list of it. -/
theorem Send.sendAll {session : Session E} {request : Request} {attempts : List (Option E)}
    {result : SendResult E} (h : Send N session request attempts result) :
    SendAll N session attempts [request] result := by
  cases h with
  | unprepared h => exact .unprepared h
  | unwritten h hwrite => exact .unwritten h hwrite
  | @answered c c' c'' u session' written result a peer h hwrite hget hc'' =>
      cases result with
      | error x =>
          have hall : GetResponses N c' 1 (.error x) c'' := hc'' ▸ .thrown hget
          exact .answered h hwrite hall
      | ok r =>
          have hall : GetResponses N c' 1 (.ok [r]) c'' := hc'' ▸ .next hget (.done _)
          exact .answered h hwrite hall

/-! ### Runs of a session -/

/-- A session, and how the calls on it have ended. -/
structure Traffic (E : Type*) where
  session : Session E
  history : List (SendResult E)

/-- A new session. -/
def Traffic.init : Traffic E := ⟨.new, []⟩

/-- The calls on a session; those of `send` with what opening connections comes to. -/
inductive Call (E : Type*) where
  | setContext (context : Settings)
  | send (request : Request) (attempts : List (Option E))
  | sendAll (requests : List Request) (attempts : List (Option E))

variable (N) in
/-- A call that ends. -/
def Step (s : Traffic E) : Call E → Traffic E → Prop
  | .setContext context, s' => s' = { s with session := s.session.setContext context }
  | .send request attempts, s' => ∃ r, Send N s.session request attempts r ∧
      s' = ⟨r.session, s.history ++ [r]⟩
  | .sendAll requests attempts, s' => ∃ r, SendAll N s.session attempts requests r ∧
      s' = ⟨r.session, s.history ++ [r]⟩

/-- The requests of a call. -/
def Call.requests : Call E → List Request
  | .setContext _ => []
  | .send request _ => [request]
  | .sendAll requests _ => requests

/-- What opening connections comes to. -/
def Call.attempts : Call E → List (Option E)
  | .setContext _ => []
  | .send _ attempts => attempts
  | .sendAll _ attempts => attempts

end Arachnida.Damon
