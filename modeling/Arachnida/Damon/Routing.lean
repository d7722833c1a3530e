import Arachnida.Damon.ConnectionCache
import Arachnida.Library.Run

/-!
Which connection a request is written on, over the whole life of a session.

* `Routed`: a request was written on a connection to its own server and port, and on one with a
  security context if its protocol is `https`.
* `RightRoute`: what the requests of a call have to have in common with the first of them.
* `routed_always_iff`: **the requests of a run are all routed exactly when every call meets the
  condition.**
* `routed_fails`: a secret sent without security, behind a request to the same port.
-/

namespace Arachnida.Damon

open Library Scorpion

variable {E : Type*} (N : Network E)

/-- A request was written on a connection of its own server and port, secured if need be. -/
def Routed (w : Written E) : Prop :=
  ∀ u, parseURL w.request.url_ = .ok u →
    w.connection.server = u.server ∧ w.connection.port = u.port ∧
      (u.secured → w.connection.context.isSome)

/-- All that was written is routed. -/
def AllRouted (s : Traffic E) : Prop := ∀ r ∈ s.history, ∀ w ∈ r.written, Routed w

/-! ### The requests of a call -/

/-- The requests that are handed to a connection with this other end: up to the first whose URL is
not accepted or whose write throws. -/
def handed (peer : E) : List Request → List Request
  | [] => []
  | request :: requests =>
      match request.serialize with
      | .error _ => []
      | .ok data =>
          request :: if (N.write peer data).1 then handed (N.write peer data).2 requests else []

/-- The written requests are those that were handed over, on the connection of the call. -/
lemma writeAll_written (c : Connection E) (requests : List Request) :
    ((∀ w ∈ (writeAll N c requests).1, Routed w) ↔
      ∀ r ∈ handed N c.peer requests, ∀ v, parseURL r.url_ = .ok v →
        c.server = v.server ∧ c.port = v.port ∧ (v.secured → c.context.isSome)) := by
  induction requests generalizing c with
  | nil => simp [writeAll, handed]
  | cons request requests ih =>
      rw [writeAll, handed]
      cases hdata : request.serialize with
      | error e => simp
      | ok data =>
          by_cases hw : (N.write c.peer data).1 = true
          · have hih := ih { c with peer := (N.write c.peer data).2 }
            simp only [if_pos hw, List.forall_mem_cons, hih]
            rfl
          · simp only [if_neg hw, List.forall_mem_cons]
            simp [Routed]

/-- The requests of a call that are written have the server and the port of the first, and where one
of them asks for security, the connection of the call is secured. -/
def RightRoute (s : Traffic E) (call : Call E) : Prop :=
  ∀ request u peer, call.requests.head? = some request → parseURL request.url_ = .ok u →
    target N s.session u call.attempts = some peer →
      ∀ r ∈ handed N peer call.requests, ∀ v, parseURL r.url_ = .ok v →
        u.server = v.server ∧ u.port = v.port ∧ (v.secured → securedTarget N s.session u)

section Steps

variable {N} {s s' : Traffic E}

/-- One call of `send`. -/
lemma sendAll_routed_iff (hk : Keyed s.session) {requests : List Request}
    {attempts : List (Option E)} {r : SendResult E}
    (h : SendAll N s.session attempts requests r) :
    Keyed r.session ∧
      ((∀ w ∈ r.written, Routed w) ↔ RightRoute N s (.sendAll requests attempts)) := by
  -- what was written and the session, once the connection is there
  have key : ∀ (requests : List Request) (c' : Connection E) {request c u session'},
      prepare N s.session request attempts = some (.ok (c, u), session') → SameConnection c c' →
      Keyed (session'.insert (cacheKey u.server u.port) c') ∧
        ((∀ w ∈ (writeAll N c (request :: requests)).1, Routed w) ↔
          RightRoute N s (.sendAll (request :: requests) attempts)) := by
    intro requests c' request c u session' hprep hsame
    obtain ⟨⟨e, he⟩, -⟩ | ⟨c₁, u₁, heq, hu, hext, ht, hserver, hport, hsec, -⟩ :=
      prepare_cases hk hprep
    · cases he
    cases heq
    have hkey : cacheKey u.server u.port = cacheKey c'.server c'.port := by
      rw [hsame.server, hsame.port, hserver, hport]
    refine ⟨(extends_insert session' hkey).keyed (hext.keyed hk), ?_⟩
    rw [writeAll_written N c (request :: requests)]
    constructor
    · intro hall request' u' peer hhead hu' ht' x hx v hv
      obtain rfl := Option.some.inj hhead
      obtain rfl : u = u' := Except.ok.inj (hu ▸ hu')
      obtain rfl : c.peer = peer := Option.some.inj (ht ▸ ht')
      rw [← hserver, ← hport, ← hsec]
      exact hall x hx v hv
    · intro hright x hx v hv
      rw [hserver, hport, hsec]
      exact hright request u c.peer rfl hu ht x hx v hv
  cases h with
  | empty => exact ⟨hk, iff_of_true (by simp) fun _ _ _ h => nomatch h⟩
  | unprepared hprep =>
      obtain ⟨-, hext, hnone⟩ | ⟨c, u, heq, -⟩ := prepare_cases hk hprep
      · refine ⟨hext.keyed hk, iff_of_true (by simp) fun request' u' peer hhead hu' ht' => ?_⟩
        obtain rfl := Option.some.inj hhead
        exact absurd ((hnone u' hu').symm.trans ht') (by simp)
      · cases heq
  | @unwritten request requests c c' u session' e written hprep hwrite =>
      have hsame := (writeAll_same N c (request :: requests)).1
      rw [hwrite] at hsame
      have hkey := key requests c' hprep hsame
      rw [hwrite] at hkey
      exact hkey
  | @answered request requests c c' c'' u session' written result hprep hwrite hget =>
      have hsame := (writeAll_same N c (request :: requests)).1
      rw [hwrite] at hsame
      have hkey := key requests c'' hprep (hsame.trans hget.same)
      rw [hwrite] at hkey
      exact hkey

/-- One call keeps the cache in order, and where all that was written so far is routed, it is so
behind the call exactly if the call meets the condition. -/
lemma routed_step_iff (hk : Keyed s.session) {call : Call E} (h : Step N s call s') :
    Keyed s'.session ∧ (AllRouted s → (AllRouted s' ↔ RightRoute N s call)) := by
  have key : ∀ {requests attempts r}, SendAll N s.session attempts requests r →
      Keyed r.session ∧ (AllRouted s → (AllRouted ⟨r.session, s.history ++ [r]⟩ ↔
        RightRoute N s (.sendAll requests attempts))) := by
    intro requests attempts r hr
    obtain ⟨hkr, hiff⟩ := sendAll_routed_iff hk hr
    refine ⟨hkr, fun hs => ?_⟩
    rw [AllRouted, List.forall_mem_append, List.forall_mem_singleton, hiff]
    exact and_iff_right hs
  cases call with
  | setContext context =>
      obtain rfl := h
      exact ⟨hk, fun hs => iff_of_true hs fun _ _ _ h => nomatch h⟩
  | send request attempts =>
      obtain ⟨r, hr, rfl⟩ := h
      exact key hr.sendAll
  | sendAll requests attempts =>
      obtain ⟨r, hr, rfl⟩ := h
      exact key hr

end Steps

lemma keyed_init : Keyed (Traffic.init : Traffic E).session := fun _ _ h => nomatch h

lemma keyed_always (calls : List (Call E)) :
    Always (Step N) (fun s => Keyed s.session) .init calls :=
  always_of_everyStep (Q := fun _ _ => True) (fun _ _ _ hk _ h => (routed_step_iff hk h).1)
    keyed_init (everyStep_of_forall fun _ _ _ => trivial)

/-- **Routing.** In every run of a session, whatever its other ends do, every request is written on
a connection of its own server and port, and secured if its protocol is `https`, exactly when
every call meets the condition. -/
theorem routed_always_iff (calls : List (Call E)) :
    Always (Step N) AllRouted .init calls ↔
      EveryStep (Step N) (RightRoute N) .init calls := by
  have keeps : ∀ s call s', (Keyed s.session ∧ AllRouted s) → True →
      Step N s call s' → ((Keyed s'.session ∧ AllRouted s') ↔ RightRoute N s call) := by
    rintro s call s' ⟨hk, hr⟩ - hs
    obtain ⟨hk', hiff⟩ := routed_step_iff hk hs
    rw [← hiff hr]
    exact and_iff_right hk'
  have hempty : AllRouted (Traffic.init : Traffic E) := fun _ h => nomatch h
  rw [← always_iff_everyStep keeps ⟨keyed_init, hempty⟩ (everyStep_of_forall fun _ _ _ => trivial)]
  constructor
  · exact fun h => (keyed_always N calls).and h
  · exact fun h => h.mono fun s hs => hs.2

/-- Connections that take what is written and are closed by the server. -/
def closing : Network Unit where
  read := fun e => (.error .connectionClosed, e)
  poll := fun e => (false, e)
  usable := fun _ => true
  write := fun e _ => (true, e)

/-- A request to the port of `https`, without security, and one that asks for it. -/
def plainFirst : List (Call Unit) :=
  [.send (Request.new (bytes "http://localhost:443/")) [some ()],
    .send (Request.new (bytes "https://localhost:443/secret")) []]

/-- Such a connection gets the request, and the call ends in an exception. -/
lemma send_closing {session session' : Session Unit} {request : Request}
    {attempts : List (Option Unit)} {c : Connection Unit} {u : ParsedURL} {data : Bytes}
    (hprep : prepare closing session request attempts = some (.ok (c, u), session'))
    (hempty : c.connection_attribute = .empty) (hdata : request.serialize = .ok data) :
    Send closing session request attempts ⟨.error (.response .connectionClosed),
      [⟨request, data, c⟩], session'.insert (cacheKey u.server u.port) c⟩ := by
  have hwrite : writeAll closing c [request] = ([⟨request, data, c⟩], none, c) := by
    simp only [writeAll, hdata]
    rfl
  have hget : GetResponse closing.toPeer c.connection_attribute c.peer
      ⟨.error .connectionClosed, .empty, ()⟩ := by
    rw [hempty]
    exact returns_of_inr rfl
  have hsame : c = { c with connection_attribute := .empty, peer := () } := by rw [← hempty]
  exact .answered hprep hwrite hget hsame

/-- The connection that the first request opens. -/
def plainConnection : Connection Unit := ⟨bytes "localhost", 443, none, .empty, ()⟩

/-- The second request is written on the connection of the first. -/
theorem routed_fails :
    ¬ Always (Step closing) AllRouted .init plainFirst ∧
      ∃ s r data, RunTo (Step closing) .init plainFirst s ∧ r ∈ s.history ∧
        ⟨Request.new (bytes "https://localhost:443/secret"), data, plainConnection⟩ ∈ r.written ∧
        plainConnection.context = none := by
  have hfirst : parseURL (Request.new (bytes "http://localhost:443/")).url_ = .ok
      ⟨bytes "http", bytes "localhost", 443, bytes "/", [], []⟩ := by decide +kernel
  have hsecond : parseURL (Request.new (bytes "https://localhost:443/secret")).url_ = .ok
      ⟨bytes "https", bytes "localhost", 443, bytes "/secret", [], []⟩ := by decide +kernel
  obtain ⟨s, r, data, hrun, hr, hw⟩ : ∃ s r data, RunTo (Step closing) .init plainFirst s ∧
      r ∈ s.history ∧
        ⟨Request.new (bytes "https://localhost:443/secret"), data, plainConnection⟩
          ∈ r.written := by
    obtain ⟨data, hdata⟩ : ∃ data, (Request.new (bytes "http://localhost:443/")).serialize
        = .ok data := by rw [Request.serialize, hfirst]; exact ⟨_, rfl⟩
    obtain ⟨data', hdata'⟩ : ∃ data, (Request.new (bytes "https://localhost:443/secret")).serialize
        = .ok data := by rw [Request.serialize, hsecond]; exact ⟨_, rfl⟩
    let session : Session Unit := Session.new.insert (cacheKey (bytes "localhost") 443)
      plainConnection
    have hprep : prepare closing .new (Request.new (bytes "http://localhost:443/")) [some ()]
        = some (.ok (plainConnection, ⟨bytes "http", bytes "localhost", 443, bytes "/", [], []⟩),
          session) := by
      rw [prepare, hfirst]
      rfl
    have hprep' :
        prepare closing (session.insert (cacheKey (bytes "localhost") 443) plainConnection)
        (Request.new (bytes "https://localhost:443/secret")) []
        = some (.ok (plainConnection, ⟨bytes "https", bytes "localhost", 443, bytes "/secret", [],
          []⟩),
          (session.insert (cacheKey (bytes "localhost") 443) plainConnection).secure true) := by
      rw [prepare, hsecond]
      simp [findConnection, Session.insert, closing, ParsedURL.secured]
    exact ⟨_, _, data', ⟨_, ⟨_, send_closing hprep rfl hdata, rfl⟩,
      ⟨_, ⟨_, send_closing hprep' rfl hdata', rfl⟩, rfl⟩⟩,
      List.mem_append_right _ (List.mem_singleton_self _), List.mem_singleton_self _⟩
  refine ⟨fun h => ?_, s, r, data, hrun, hr, hw, rfl⟩
  have hsecured := ((h.last hrun) r hr _ hw _ hsecond).2.2 (by decide)
  cases hsecured

end Arachnida.Damon
