import Arachnida.Spin.HTTPDataHandler
import Arachnida.Spin.HTTPRequestHandler
import Arachnida.Spin.ConnectionWrite
import Arachnida.Spin.StatusCode

/-!
The server `Mesothelae`: the connections of `Spin::Handlers::HTTPConnectionHandler`, whose data the
worker reads, the queue, and the loop in `main` that answers the requests.

* `respond`: the body of the loop.
* `Server`, `Step`: any number of connections, the worker in its callbacks and `main`, one step for
  everything that is done under a lock. The registry is left to `Spin.Private`: here an attached
  connection can have data or fail at any time, and one that has failed can be dropped.
* `requests_traced`: **on every connection the requests that `main` has got, those in the queue and
  those that the worker is handing over are, in this order, the ones that its data hold.**

Nothing but `connections_`, `main` itself and the callback of the worker keeps a connection alive,
so that `request->connection_.lock()` finds it as long as it is in `connections_`.
-/

namespace Arachnida.Mesothelae

open Library Acari Spin

/-- What `main` does with a connection. -/
inductive Deed where
  | write (data : Bytes)
  | close
  deriving DecidableEq, Repr

/-- `connection->write` of a response. -/
def writeResponse (response : Option Spin.Response) : List Deed :=
  response.toList.map fun r => .write r.serialize

/-- What is done for a request whose connection is there. -/
def respond (request : Spin.Request) : List Deed :=
  let protocol := request.protocol_and_version_
  if request.method_ = bytes "GET" then
    if request.url_ = bytes "/" then
      writeResponse ((Response.ofStatus protocol .found__).map fun r =>
        r.addHeader (bytes "Location") (bytes "/index.html"))
    else if request.url_ = bytes "/index.html" then
      writeResponse ((Response.ofStatus protocol .ok__).map fun r =>
        (r.addHeader (bytes "Content-Type") (bytes "text/html")).setBody
          (bytes "<html><body><p>Hello, world!</p></body></html>"))
    else if request.url_ = bytes "/with%20space" then
      writeResponse ((Response.ofStatus protocol .ok__).map fun r =>
        (r.addHeader (bytes "Content-Type") (bytes "text/html")).setBody
          (bytes "<html><body><p>Hello, space!</p></body></html>"))
    else if request.url_ = bytes "/send_leading_whitespace" then
      .write (bytes "    \r\n\n\n\n\n\r          \t\t\t    ") ::
        writeResponse ((Response.ofStatus protocol .found__).map fun r =>
          r.addHeader (bytes "Location") (bytes "/index.html"))
    else if request.url_ = bytes "/close_connection" then [.close]
    else writeResponse (Response.ofStatus protocol .not_found__)
  else writeResponse (Response.ofStatus protocol .not_implemented__)

/-! ### The server -/

/-- A connection: the attribute of the data handler, whether it has its BIO, and whether it is
attached and has not failed. The observer keeps the data of its reads, the requests for which
`main` has found it, and the bytes that its BIO has accepted. -/
structure ConnectionState where
  connection_attribute : Option Saved
  usable : Bool
  attached : Bool
  read : List Bytes
  answered : List Spin.Request
  written : Bytes

/-- Before it is accepted. -/
def ConnectionState.init : ConnectionState := ⟨none, true, false, [], [], []⟩

/-- The worker: between two callbacks, or in `onDataReady` behind the parser, with the requests that
it has still to hand over, and with the exception behind them if there is one. -/
inductive Worker (γ : Type*) where
  | free
  | handing (connection : γ) (requests : List Spin.Request) (thrown : Bool)

/-- The loop in `main`: before `getNextRequest`, behind it, or with a connection and what it has
still to do. -/
inductive Main (γ : Type*) where
  | waiting
  | got (connection : γ) (request : Spin.Request)
  | answering (connection : γ) (deeds : List Deed)

/-- All of it; `accepted` are the connections there have been, and `taken` is the observer's, what
`main` has got from the queue. -/
structure Server (γ : Type*) where
  connections_ : List γ
  accepted : γ → Bool
  connection : γ → ConnectionState
  requests_ : List (γ × Spin.Request)
  worker : Worker γ
  main : Main γ
  taken : List (γ × Spin.Request)

variable {γ : Type*}

namespace Server

/-- The server before its first connection. -/
def init : Server γ := ⟨[], fun _ => false, fun _ => .init, [], .free, .waiting, []⟩

variable [DecidableEq γ]

/-- A connection changes. -/
def set (s : Server γ) (c : γ) (x : ConnectionState) : Server γ :=
  { s with connection := Function.update s.connection c x }

end Server

/-- What can happen next. -/
inductive Action (γ : Type*) where
  | accept (c : γ)
  | dataReady (c : γ) (data : Bytes)
  | fail (c : γ)
  | hand
  | finish
  | drop (c : γ)
  | take
  | lock
  | write (data : Bytes) (result : WriteResult data.length)
  | refuse
  | close
  | done

open Mesothelae.Server in
/-- The steps. A failing assertion of `write` ends the run. -/
inductive Step [DecidableEq γ] : Server γ → Action γ → Server γ → Prop where
  -- `Listener::onNewConnection_` and `HTTPConnectionHandler::handleNewConnection`
  | accept {s c} : s.worker = .free → s.accepted c = false →
      Step s (.accept c)
        { s.set c { s.connection c with attached := true } with
          connections_ := s.connections_ ++ [c]
          accepted := Function.update s.accepted c true }
  -- `HTTPDataHandler::onDataReady`, in which `connection->read` returns the data
  | dataReady {s c data} : s.worker = .free → (s.connection c).attached = true →
      (s.connection c).usable = true →
      Step s (.dataReady c data)
        { s.set c { s.connection c with
            connection_attribute :=
              (onDataReady (s.connection c).connection_attribute data).connection_attribute
            read := (s.connection c).read ++ [data] } with
          worker := .handing c (onDataReady (s.connection c).connection_attribute data).handled
            (onDataReady (s.connection c).connection_attribute data).thrown.isSome }
  -- `connection->read` throws, or the descriptor is found to be broken
  | fail {s c} : s.worker = .free → (s.connection c).attached = true →
      Step s (.fail c) (s.set c { s.connection c with attached := false })
  | hand {s c r rs thrown q} : s.worker = .handing c (r :: rs) thrown →
      requestHandler.run (.handle (c, r)) s.requests_ = some (none, q) →
      Step s .hand { s with requests_ := q, worker := .handing c rs thrown }
  | finish {s c thrown} : s.worker = .handing c [] thrown →
      Step s .finish
        { s.set c { s.connection c with
            attached := (s.connection c).attached && !thrown } with
          worker := .free }
  -- the error callback, `ErrorHandler::operator()`
  | drop {s c} : s.worker = .free → (s.connection c).attached = false →
      Step s (.drop c) { s with connections_ := s.connections_.erase c }
  | take {s c r q} : s.main = .waiting →
      requestHandler.run .getNextRequest s.requests_ = some (some (c, r), q) →
      Step s .take { s with requests_ := q, main := .got c r, taken := s.taken ++ [(c, r)] }
  | lock {s c r} : s.main = .got c r → c ∈ s.connections_ →
      Step s .lock
        { s.set c { s.connection c with answered := (s.connection c).answered ++ [r] } with
          main := .answering c (respond r) }
  | lockGone {s c r} : s.main = .got c r → c ∉ s.connections_ →
      Step s .lock { s with main := .waiting }
  | write {s c data deeds result} : s.main = .answering c (.write data :: deeds) →
      (s.connection c).usable = true → Spin.write data result ≠ .threw .assertion →
      Step s (.write data result)
        { s.set c { s.connection c with
            written := (s.connection c).written ++ data.take result.accepted } with
          main := match Spin.write data result with
            | .threw _ => .waiting
            | .returned _ _ => .answering c deeds }
  -- `UnusableConnection`
  | refuse {s c data deeds} : s.main = .answering c (.write data :: deeds) →
      (s.connection c).usable = false → Step s .refuse { s with main := .waiting }
  | close {s c deeds} : s.main = .answering c (.close :: deeds) →
      Step s .close
        { s.set c { s.connection c with usable := false } with main := .answering c deeds }
  | done {s c} : s.main = .answering c [] → Step s .done { s with main := .waiting }

/-! ### One connection -/

section Trace

variable [DecidableEq γ]

/-- The requests of one connection. -/
def ofConnection (c : γ) (requests : List (γ × Spin.Request)) : List Spin.Request :=
  requests.filterMap fun p => if p.1 = c then some p.2 else none

/-- Those that the worker is handing over. -/
def Worker.inHand (w : Worker γ) (c : γ) : List Spin.Request :=
  match w with
  | .free => []
  | .handing c' requests _ => if c' = c then requests else []

@[simp]
lemma ofConnection_append (c : γ) (l l' : List (γ × Spin.Request)) :
    ofConnection c (l ++ l') = ofConnection c l ++ ofConnection c l' :=
  List.filterMap_append

@[simp]
lemma ofConnection_singleton (c c' : γ) (r : Spin.Request) :
    ofConnection c [(c', r)] = if c' = c then [r] else [] := by
  rw [ofConnection, List.filterMap_cons]
  split_ifs <;> rfl

end Trace

/-- Data that arrive behind others that were read without an exception. -/
lemma feed_append_one {a : Option Saved} {pieces : List Bytes} (h : (feed a pieces).thrown = none)
    (data : Bytes) :
    (feed a (pieces ++ [data])).handled = (feed a pieces).handled
        ++ (onDataReady (feed a pieces).connection_attribute data).handled ∧
      (feed a (pieces ++ [data])).connection_attribute
        = (onDataReady (feed a pieces).connection_attribute data).connection_attribute ∧
      (feed a (pieces ++ [data])).thrown
        = (onDataReady (feed a pieces).connection_attribute data).thrown := by
  induction pieces generalizing a with
  | nil =>
      rw [List.nil_append, feed]
      cases ho : (onDataReady a data).thrown with
      | none => simp [feed, ho]
      | some f => simp [feed, ho]
  | cons piece pieces ih =>
      rw [feed] at h ⊢
      cases ho : (onDataReady a piece).thrown with
      | some f => simp [ho] at h
      | none =>
          simp only [ho] at h ⊢
          obtain ⟨hhandled, hattribute, hthrown⟩ := ih h
          rw [List.cons_append, feed]
          simp only [ho]
          exact ⟨by rw [hhandled, List.append_assoc], hattribute, hthrown⟩

/-! ### What the server keeps -/

variable [DecidableEq γ] {s s' : Server γ} {a : Action γ} {as : List (Action γ)}

/-- What has been read of a connection. -/
def ConnectionState.SameRead (x x' : ConnectionState) : Prop :=
  x'.connection_attribute = x.connection_attribute ∧ x'.read = x.read

@[simp]
lemma set_connection_self (c : γ) (x : ConnectionState) : (s.set c x).connection c = x :=
  Function.update_self ..

@[simp]
lemma set_accepted (c : γ) (x : ConnectionState) : (s.set c x).accepted = s.accepted := rfl

@[simp]
lemma set_taken (c : γ) (x : ConnectionState) : (s.set c x).taken = s.taken := rfl

@[simp]
lemma set_main (c : γ) (x : ConnectionState) : (s.set c x).main = s.main := rfl

lemma set_connection_of_ne {c c' : γ} (h : c' ≠ c) (x : ConnectionState) :
    (s.set c x).connection c' = s.connection c' :=
  Function.update_of_ne h ..

/-- A connection that changes without being read. -/
lemma sameRead_set {c : γ} {x : ConnectionState} (h : (s.connection c).SameRead x) (c' : γ) :
    (s.connection c').SameRead ((s.set c x).connection c') := by
  rcases eq_or_ne c' c with rfl | hne
  · simpa using h
  · rw [set_connection_of_ne hne]
    exact ⟨rfl, rfl⟩

/-- The connections keep what they have been attached to. -/
lemma attached_set {c : γ} {x : ConnectionState} (h : x.attached = (s.connection c).attached)
    (c' : γ) : ((s.set c x).connection c').attached = (s.connection c').attached := by
  rcases eq_or_ne c' c with rfl | hne
  · simpa using h
  · rw [set_connection_of_ne hne]

/-- The requests of every connection are those that its data hold. -/
structure Traced (s : Server γ) : Prop where
  unaccepted : ∀ c, s.accepted c = false →
    (s.connection c).read = [] ∧ (s.connection c).attached = false
  requests : ∀ c, ofConnection c s.taken ++ ofConnection c s.requests_ ++ s.worker.inHand c
    = (feed none (s.connection c).read).handled
  resumes : ∀ c, (s.connection c).connection_attribute
    = (feed none (s.connection c).read).connection_attribute
  /-- Behind an exception a connection is not read again. -/
  thrown : ∀ c, (feed none (s.connection c).read).thrown.isSome →
    (s.connection c).attached = false ∨ ∃ rs, s.worker = .handing c rs true

lemma traced_init : Traced (Server.init : Server γ) where
  unaccepted := fun _ _ => ⟨rfl, rfl⟩
  requests := fun _ => rfl
  resumes := fun _ => rfl
  thrown := fun _ h => by cases h

/-- A step that reads nothing. -/
lemma Traced.frame (h : Traced s)
    (hread : ∀ c, (s.connection c).SameRead (s'.connection c))
    (hrequests : ∀ c, ofConnection c s'.taken ++ ofConnection c s'.requests_ ++ s'.worker.inHand c
      = ofConnection c s.taken ++ ofConnection c s.requests_ ++ s.worker.inHand c)
    (haccepted : ∀ c, s'.accepted c = false → s.accepted c = false ∧
      ((s.connection c).attached = false → (s'.connection c).attached = false))
    (hthrown : ∀ c, (feed none (s.connection c).read).thrown.isSome →
      (s'.connection c).attached = false ∨ ∃ rs, s'.worker = .handing c rs true) : Traced s' where
  unaccepted := fun c hc => by
    obtain ⟨hbefore, hattached⟩ := haccepted c hc
    rw [(hread c).2]
    exact ⟨(h.unaccepted c hbefore).1, hattached (h.unaccepted c hbefore).2⟩
  requests := fun c => by rw [hrequests, (hread c).2, h.requests]
  resumes := fun c => by rw [(hread c).1, (hread c).2, h.resumes]
  thrown := fun c hc => hthrown c ((hread c).2 ▸ hc)

/-- A step of `main`. -/
lemma Traced.main (h : Traced s) (hread : ∀ c, (s.connection c).SameRead (s'.connection c))
    (hattached : ∀ c, (s'.connection c).attached = (s.connection c).attached)
    (hrequests : ∀ c, ofConnection c s'.taken ++ ofConnection c s'.requests_
      = ofConnection c s.taken ++ ofConnection c s.requests_)
    (haccepted : s'.accepted = s.accepted) (hworker : s'.worker = s.worker) : Traced s' :=
  h.frame hread (fun c => by rw [hrequests, hworker])
    (fun c hc => ⟨haccepted ▸ hc, fun hbefore => (hattached c).trans hbefore⟩)
    fun c hc => by
      rw [hattached, hworker]
      exact h.thrown c hc

/-- A connection that the worker is free to read has not had an exception. -/
lemma Traced.not_thrown (h : Traced s) {c : γ} (hworker : s.worker = .free)
    (hattached : (s.connection c).attached = true) :
    (feed none (s.connection c).read).thrown = none := by
  cases hthrown : (feed none (s.connection c).read).thrown with
  | none => rfl
  | some f =>
      rcases h.thrown c (by simp [hthrown]) with hc | ⟨rs, hc⟩
      · simp [hattached] at hc
      · simp [hworker] at hc

/-- The callback of a connection, as far as the parser goes. -/
lemma Traced.dataReady (h : Traced s) {c : γ} {data : Bytes} (hworker : s.worker = .free)
    (hattached : (s.connection c).attached = true) (hstep : Step s (.dataReady c data) s') :
    Traced s' := by
  have hnone := h.not_thrown hworker hattached
  obtain ⟨hhandled, hattribute, hthrown⟩ := feed_append_one hnone data
  rw [← h.resumes c] at hhandled hattribute hthrown
  cases hstep with
  | dataReady =>
      constructor
      · intro c' hc'
        have hne : c' ≠ c := by
          rintro rfl
          have := (h.unaccepted c' hc').2
          simp [hattached] at this
        simpa [set_connection_of_ne hne] using h.unaccepted c' hc'
      · intro c'
        have hbefore := h.requests c'
        rw [hworker] at hbefore
        rcases eq_or_ne c' c with rfl | hne
        · simp only [Worker.inHand, List.append_nil] at hbefore
          simp [Worker.inHand, hhandled, Server.set, ← hbefore]
        · simpa [Worker.inHand, Server.set, hne, hne.symm] using hbefore
      · intro c'
        rcases eq_or_ne c' c with rfl | hne
        · simpa [Server.set] using hattribute.symm
        · simpa [Server.set, hne] using h.resumes c'
      · intro c' hc'
        rcases eq_or_ne c' c with rfl | hne
        · refine .inr ⟨(onDataReady (s.connection c').connection_attribute data).handled, ?_⟩
          have hsome : (onDataReady (s.connection c').connection_attribute data).thrown.isSome := by
            simpa [Server.set, hthrown] using hc'
          rw [hsome]
        · have hold := h.thrown c' (by simpa [Server.set, hne] using hc')
          rw [hworker] at hold
          exact .inl (by simpa [Server.set, hne] using hold)

/-- **One step.** -/
lemma Traced.step (h : Traced s) (hstep : Step s a s') : Traced s' := by
  cases hstep with
  | @accept c hworker hnew =>
      refine h.frame (sameRead_set ⟨rfl, rfl⟩) (fun _ => rfl) (fun c' hc' => ?_) fun c' hc' => ?_
      · have hne : c' ≠ c := by
          rintro rfl
          simp at hc'
        exact ⟨by simpa [hne] using hc', by simp [Server.set, hne]⟩
      · have hne : c' ≠ c := by
          rintro rfl
          simp [(h.unaccepted c' hnew).1, feed] at hc'
        simpa [Server.set, hne] using h.thrown c' hc'
  | dataReady hworker hattached husable =>
      exact h.dataReady hworker hattached (.dataReady hworker hattached husable)
  | @fail c hworker hattached =>
      refine h.frame (sameRead_set ⟨rfl, rfl⟩) (fun _ => rfl) (fun c' hc' => ⟨hc', ?_⟩)
        fun c' hc' => ?_
      · rcases eq_or_ne c' c with rfl | hne
        · simp
        · simp [set_connection_of_ne hne]
      · rcases eq_or_ne c' c with rfl | hne
        · simp
        · simpa [Server.set, hne] using h.thrown c' hc'
  | @hand c r rs thrown q hworker hrun =>
      obtain ⟨-, rfl⟩ := Prod.mk.inj (Option.some.inj hrun)
      refine h.frame (fun _ => ⟨rfl, rfl⟩) (fun c' => ?_) (fun c' hc' => ⟨hc', id⟩) fun c' hc' => ?_
      · rcases eq_or_ne c c' with rfl | hne
        · simp [hworker, Worker.inHand]
        · simp [hworker, Worker.inHand, hne]
      · rcases h.thrown c' hc' with hold | ⟨rs', hold⟩
        · exact .inl hold
        · obtain ⟨rfl, -, rfl⟩ := Worker.handing.inj (hworker.symm.trans hold)
          exact .inr ⟨rs, rfl⟩
  | @finish c thrown hworker =>
      refine h.frame (sameRead_set ⟨rfl, rfl⟩) (fun c' => ?_) (fun c' hc' => ⟨hc', ?_⟩)
        fun c' hc' => ?_
      · simp [hworker, Worker.inHand, Server.set]
      · rcases eq_or_ne c' c with rfl | hne
        · intro hbefore
          simp [Server.set, hbefore]
        · simp [Server.set, hne]
      · rcases eq_or_ne c' c with rfl | hne
        · rcases h.thrown c' hc' with hold | ⟨rs, hold⟩
          · simp [Server.set, hold]
          · obtain ⟨-, -, rfl⟩ := Worker.handing.inj (hworker.symm.trans hold)
            simp [Server.set]
        · rcases h.thrown c' hc' with hold | ⟨rs, hold⟩
          · exact .inl (by simpa [Server.set, hne] using hold)
          · obtain ⟨rfl, -, -⟩ := Worker.handing.inj (hworker.symm.trans hold)
            exact absurd rfl hne
  | drop => exact h.main (fun _ => ⟨rfl, rfl⟩) (fun _ => rfl) (fun _ => rfl) rfl rfl
  | @take c r q _ hrun =>
      refine h.main (fun _ => ⟨rfl, rfl⟩) (fun _ => rfl) (fun c' => ?_) rfl rfl
      cases hq : s.requests_ with
      | nil => simp [hq, requestHandler] at hrun
      | cons first rest =>
          rw [hq] at hrun
          obtain ⟨hfirst, rfl⟩ := Prod.mk.inj (Option.some.inj hrun)
          obtain rfl := Option.some.inj hfirst
          have hsplit : ofConnection c' ((c, r) :: rest)
              = ofConnection c' [(c, r)] ++ ofConnection c' rest :=
            ofConnection_append c' [(c, r)] rest
          rw [hsplit, ofConnection_append, List.append_assoc]
  | lock =>
      exact h.main (sameRead_set ⟨rfl, rfl⟩) (attached_set rfl) (fun _ => rfl) rfl rfl
  | lockGone => exact h.main (fun _ => ⟨rfl, rfl⟩) (fun _ => rfl) (fun _ => rfl) rfl rfl
  | write =>
      exact h.main (sameRead_set ⟨rfl, rfl⟩) (attached_set rfl) (fun _ => rfl) rfl rfl
  | refuse => exact h.main (fun _ => ⟨rfl, rfl⟩) (fun _ => rfl) (fun _ => rfl) rfl rfl
  | close =>
      exact h.main (sameRead_set ⟨rfl, rfl⟩) (attached_set rfl) (fun _ => rfl) rfl rfl
  | done => exact h.main (fun _ => ⟨rfl, rfl⟩) (fun _ => rfl) (fun _ => rfl) rfl rfl

/-- In every state of a run. -/
lemma traced (h : RunTo Step (Server.init : Server γ) as s) : Traced s :=
  h.invariant (fun _ _ _ hs hstep => hs.step hstep) traced_init

/-- **No request is lost, doubled, overtaken or taken for another connection's**: in every run of
the server, with any connections, data and failures in any order, the requests of a connection that
`main` has got, those in the queue and those that the worker is handing over are those that the data
of the connection hold, in their order. -/
theorem requests_traced (h : RunTo Step (Server.init : Server γ) as s) (c : γ) :
    ofConnection c s.taken ++ ofConnection c s.requests_ ++ s.worker.inHand c
      = (feed none (s.connection c).read).handled :=
  (traced h).requests c

/-! ### A run -/

lemma length_le_length (data : Bytes) : (data.length : ℤ) ≤ data.length := Int.le_refl _

lemma le_length (data : Bytes) : -2 ^ 31 ≤ (data.length : ℤ) := by omega

/-- A BIO that takes everything. -/
def wholeWrite (data : Bytes) : WriteResult data.length :=
  ⟨data.length, false, false, false, length_le_length data, le_length data⟩

/-- A request is read, answered and written. -/
def answering (data w : Bytes) : List (Action Unit) :=
  [.accept (), .dataReady () data, .hand, .finish, .take, .lock, .write w (wholeWrite w), .done]

/-- The server with its one connection. -/
def single (x : ConnectionState) (requests_ : List (Unit × Spin.Request)) (worker : Worker Unit)
    (main : Main Unit) (taken : List (Unit × Spin.Request)) : Server Unit :=
  ⟨[()], fun _ => true, fun _ => x, requests_, worker, main, taken⟩

lemma set_single (s : Server Unit) (x : ConnectionState) :
    s.set () x = { s with connection := fun _ => x } := by
  have hconnection : Function.update s.connection () x = fun _ => x :=
    funext fun _ => Function.update_self ..
  rw [Server.set, hconnection]

lemma answering_run {data w : Bytes} {r : Spin.Request}
    (h : onDataReady none data = ⟨[r], none, none⟩) (hr : respond r = [.write w])
    (hsize : w.length < intMax) (hne : w ≠ []) :
    RunTo Step Server.init (answering data w)
      (single ⟨none, true, true, [data], [r], w⟩ [] .free .waiting [((), r)]) := by
  have hreturned := @write_of_full w (wholeWrite w) hne hsize rfl
  have hwhole : w.take (wholeWrite w).accepted = w := by simp [wholeWrite, WriteResult.accepted]
  have haccept : Step Server.init (.accept ())
      (single ⟨none, true, true, [], [], []⟩ [] .free .waiting []) := by
    have hstep := @Step.accept Unit _ Server.init () rfl rfl
    rw [set_single] at hstep
    convert hstep using 1
    simp [single, Server.init, ConnectionState.init, funext_iff]
  have hready : Step (single ⟨none, true, true, [], [], []⟩ [] .free .waiting [])
      (.dataReady () data)
      (single ⟨none, true, true, [data], [], []⟩ [] (.handing () [r] false) .waiting []) := by
    have hstep := @Step.dataReady Unit _
      (single ⟨none, true, true, [], [], []⟩ [] .free .waiting []) () data rfl rfl rfl
    rw [set_single] at hstep
    convert hstep using 1
    simp [single, h]
  have hhand : Step (single ⟨none, true, true, [data], [], []⟩ [] (.handing () [r] false)
        .waiting []) .hand
      (single ⟨none, true, true, [data], [], []⟩ [((), r)] (.handing () [] false) .waiting []) :=
    .hand rfl rfl
  have hfinish : Step (single ⟨none, true, true, [data], [], []⟩ [((), r)] (.handing () [] false)
        .waiting []) .finish
      (single ⟨none, true, true, [data], [], []⟩ [((), r)] .free .waiting []) := by
    have hstep := @Step.finish Unit _
      (single ⟨none, true, true, [data], [], []⟩ [((), r)] (.handing () [] false) .waiting [])
      () false rfl
    rwa [set_single] at hstep
  have htake : Step (single ⟨none, true, true, [data], [], []⟩ [((), r)] .free .waiting []) .take
      (single ⟨none, true, true, [data], [], []⟩ [] .free (.got () r) [((), r)]) :=
    .take rfl rfl
  have hlock : Step (single ⟨none, true, true, [data], [], []⟩ [] .free (.got () r) [((), r)]) .lock
      (single ⟨none, true, true, [data], [r], []⟩ [] .free (.answering () [.write w])
        [((), r)]) := by
    have hstep := @Step.lock Unit _
      (single ⟨none, true, true, [data], [], []⟩ [] .free (.got () r) [((), r)]) () r rfl
      (List.mem_singleton_self _)
    rw [set_single, hr] at hstep
    exact hstep
  have hwrite : Step (single ⟨none, true, true, [data], [r], []⟩ [] .free
        (.answering () [.write w]) [((), r)]) (.write w (wholeWrite w))
      (single ⟨none, true, true, [data], [r], w⟩ [] .free (.answering () []) [((), r)]) := by
    have hstep := @Step.write Unit _
      (single ⟨none, true, true, [data], [r], []⟩ [] .free (.answering () [.write w]) [((), r)])
      () w [] (wholeWrite w) rfl rfl (by simp [hreturned])
    rw [set_single] at hstep
    convert hstep using 1
    simp [single, hreturned, hwhole]
  exact ⟨_, haccept, _, hready, _, hhand, _, hfinish, _, htake, _, hlock, _, hwrite, _, .done rfl,
    rfl⟩

/-- The request line of the root, and what the server writes. -/
def rootLine : Bytes := bytes "GET / HTTP/1.0\r\n\r\n"

/-- The redirection. -/
def redirection : Bytes :=
  bytes "HTTP/1.0 302 Found\r\nLocation: /index.html\r\nContent-Length: 0\r\n\r\n"

lemma rootLine_run : RunTo Step Server.init (answering rootLine redirection)
    (single ⟨none, true, true, [rootLine],
      [⟨bytes "GET", bytes "/", bytes "HTTP/1.0", [], []⟩], redirection⟩ [] .free .waiting
      [((), ⟨bytes "GET", bytes "/", bytes "HTTP/1.0", [], []⟩)]) :=
  answering_run (by decide +kernel) (by decide +kernel) (by decide +kernel) (by decide)

/-- The request is on its way no more. -/
theorem requests_traced_root :
    [(⟨bytes "GET", bytes "/", bytes "HTTP/1.0", [], []⟩ : Spin.Request)] ++ [] ++ []
      = (feed none [rootLine]).handled :=
  requests_traced rootLine_run ()

end Arachnida.Mesothelae
