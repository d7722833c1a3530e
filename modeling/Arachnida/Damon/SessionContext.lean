import Arachnida.Damon.Routing

/-!
Which security context a request is written with, over the whole life of a session:
`Session::setContext` leaves the connections in the cache as they are.

* `Current`: a connection that has a security context has that of the session.
* `cached`: the connection in the cache, if a call uses it; `Renewed`: that one is current.
* `connection_of_prepare`: what a call uses is `cached`, or is opened with the session's context.
* `current_always_iff`: **the requests of a run are all written with the session's context exactly
  if the calls find none in the cache that has another one.**
* `current_of_early`: **that is so where contexts are set in front of the first request only.**
-/

namespace Arachnida.Damon

open Library Scorpion

variable {E : Type*} (N : Network E)

/-- A connection that has a security context has that of the session. -/
def Current (session : Session E) (c : Connection E) : Prop :=
  c.context.isSome → c.context = session.context_

/-- All requests were written with the context that the session had. -/
def AllCurrent (s : Traffic E) : Prop :=
  ∀ r ∈ s.history, ∀ w ∈ r.written, Current r.session w.connection

/-- The connection in the cache that a call uses. -/
def cached (session : Session E) (u : ParsedURL) : Option (Connection E) :=
  (session.connection_cache_ (cacheKey u.server u.port)).filter fun c => N.usable c.peer

/-- The connection of a call is opened by it or current. -/
def Renewed (s : Traffic E) (call : Call E) : Prop :=
  ∀ request u c, call.requests.head? = some request → parseURL request.url_ = .ok u →
    cached N s.session u = some c → Current (s.session.secure u.secured) c

variable {N} {session session' : Session E} {u : ParsedURL} {attempts : List (Option E)}
  {c c' : Connection E} {s s' : Traffic E} {call : Call E} {request : Request}

lemma SameConnection.current_iff (h : SameConnection c c') (session : Session E) :
    Current session c' ↔ Current session c := by
  rw [Current, Current, h.context]

lemma current_secure (h : Current session c) (secured : Bool) :
    Current (session.secure secured) c := by
  intro hc
  have hcontext := h hc
  rw [hcontext] at hc
  rw [Session.secure, if_neg, hcontext]
  rw [Option.isNone_eq_false_iff.mpr hc, Bool.and_false]
  decide

/-! ### The connection of a call -/

lemma openConnection_context {found : Option (Connection E)}
    (h : openConnection N session u attempts = some (found, session')) :
    session'.context_ = session.context_ ∧ ∀ c, found = some c → Current session' c := by
  induction attempts generalizing session with
  | nil => cases h
  | cons attempt attempts ih =>
      cases attempt with
      | none =>
          cases h
          exact ⟨rfl, fun c hc => by cases hc⟩
      | some peer =>
          simp only [openConnection] at h
          split at h
          · cases h
            refine ⟨rfl, fun c hc hsome => ?_⟩
            obtain rfl := Option.some.inj hc
            cases hu : u.secured with
            | true => simp [Session.opened, Session.insert, hu]
            | false => simp [Session.opened, hu] at hsome
          · have hrest := ih h
            exact hrest

/-- What a call uses is in the cache, or has the context of the session. -/
lemma findConnection_context {found : Option (Connection E)}
    (h : findConnection N session u attempts = some (found, session')) :
    session'.context_ = session.context_ ∧
      (cached N session u = none ∧ (∀ c, found = some c → Current session' c) ∨
        ∃ c, found = some c ∧ cached N session u = some c) := by
  rw [findConnection] at h
  rw [cached]
  cases hcache : session.connection_cache_ (cacheKey u.server u.port) with
  | none =>
      simp only [hcache] at h
      obtain ⟨hcontext, hcurrent⟩ := openConnection_context h
      exact ⟨hcontext, .inl ⟨rfl, hcurrent⟩⟩
  | some c =>
      simp only [hcache] at h
      by_cases husable : N.usable c.peer = true
      · rw [if_pos husable] at h
        cases h
        exact ⟨rfl, .inr ⟨c, rfl, by simp [husable]⟩⟩
      · rw [if_neg husable] at h
        obtain ⟨hcontext, hcurrent⟩ := openConnection_context h
        exact ⟨hcontext, .inl ⟨by simp [husable], hcurrent⟩⟩

/-- **The connection of a call** that gets one has the context of the session if and only if the one
in the cache has it, where there is one. -/
lemma connection_of_prepare (h : prepare N session request attempts = some (.ok (c, u), session')) :
    parseURL request.url_ = .ok u ∧
      (Current session' c ↔ ∀ c', cached N session u = some c' →
        Current (session.secure u.secured) c') := by
  rw [prepare] at h
  split at h
  · cases h
  · next v hv =>
      have hcached : cached N (session.secure v.secured) v = cached N session v := by
        rw [cached, cached, secure_cache]
      split at h
      · cases h
      · cases h
      · next found session'' hfound =>
          cases h
          obtain ⟨hcontext, hcases⟩ := findConnection_context hfound
          rw [hcached] at hcases
          refine ⟨hv, ?_⟩
          rcases hcases with ⟨hnone, hcurrent⟩ | ⟨c', hc', hsome⟩
          · refine iff_of_true (hcurrent c rfl) fun c' hc' => ?_
            rw [hnone] at hc'
            cases hc'
          · obtain rfl := Option.some.inj hc'
            simp only [hsome, Option.some.injEq, forall_eq', Current, hcontext]

/-- A call that gets no connection has not found one in the cache. -/
lemma cached_of_error {e : SendError} (hu : parseURL request.url_ = .ok u)
    (h : prepare N session request attempts = some (.error e, session')) :
    cached N session u = none := by
  rw [prepare, hu] at h
  have hcached : cached N (session.secure u.secured) u = cached N session u := by
    rw [cached, cached, secure_cache]
  simp only at h
  split at h
  · cases h
  · next session'' hfound =>
      obtain ⟨-, ⟨hnone, -⟩ | ⟨c, hc, -⟩⟩ := findConnection_context hfound
      · rwa [hcached] at hnone
      · cases hc
  · cases h

/-! ### Runs -/

/-- What is written first is written on the connection of the call. -/
lemma written_current_iff {requests : List Request} (hu : parseURL request.url_ = .ok u)
    (session : Session E) :
    (∀ w ∈ (writeAll N c (request :: requests)).1, Current session w.connection) ↔
      Current session c := by
  obtain ⟨data, hdata⟩ : ∃ data, request.serialize = .ok data := by
    rw [Request.serialize, hu]
    exact ⟨_, rfl⟩
  have hsame := (writeAll_same N c (request :: requests)).2
  constructor
  · intro hall
    have hfirst : ∃ w ∈ (writeAll N c (request :: requests)).1, w.connection = c := by
      rw [writeAll, hdata]
      dsimp only
      split
      · exact ⟨_, List.mem_cons_self, rfl⟩
      · exact ⟨_, List.mem_cons_self, rfl⟩
    obtain ⟨w, hw, rfl⟩ := hfirst
    exact hall w hw
  · exact fun hc w hw => ((hsame w hw).current_iff session).mpr hc

/-- What was written by a call has the context of the session exactly if the call was `Renewed`. -/
lemma sendAll_current_iff {requests : List Request} {r : SendResult E}
    (h : SendAll N s.session attempts requests r) :
    (∀ w ∈ r.written, Current r.session w.connection) ↔
      Renewed N s (.sendAll requests attempts) := by
  -- behind `prepare`
  have key : ∀ {request requests c u session'} (c' : Connection E),
      prepare N s.session request attempts = some (.ok (c, u), session') →
      ((∀ w ∈ (writeAll N c (request :: requests)).1,
        Current (session'.insert (cacheKey u.server u.port) c') w.connection) ↔
          Renewed N s (.sendAll (request :: requests) attempts)) := by
    intro request requests c u session' c' hprepare
    obtain ⟨hu, hiff⟩ := connection_of_prepare hprepare
    rw [written_current_iff hu, show Current (session'.insert (cacheKey u.server u.port) c') c
      ↔ Current session' c from Iff.rfl, hiff]
    constructor
    · intro hcurrent request' u' c'' hhead hu' hc''
      obtain rfl := Option.some.inj hhead
      obtain rfl : u = u' := Except.ok.inj (hu ▸ hu')
      exact hcurrent c'' hc''
    · exact fun hrenewed c'' hc'' => hrenewed request u c'' rfl hu hc''
  cases h with
  | empty => exact iff_of_true (by simp) fun _ _ _ h => nomatch h
  | unprepared hprepare =>
      refine iff_of_true (by simp) fun request' u' c' hhead hu' hc' => ?_
      obtain rfl := Option.some.inj hhead
      rw [cached_of_error hu' hprepare] at hc'
      cases hc'
  | @unwritten request requests c c' u session' e written hprepare hwrite =>
      have hiff := @key request requests c u session' c' hprepare
      rwa [hwrite] at hiff
  | @answered request requests c c' c'' u session' written result hprepare hwrite hget =>
      have hiff := @key request requests c u session' c'' hprepare
      rwa [hwrite] at hiff

/-- **A call** keeps the contexts of what is written exactly if it is `Renewed`. -/
lemma current_step_iff (hs : AllCurrent s) (h : Step N s call s') :
    AllCurrent s' ↔ Renewed N s call := by
  have key : ∀ {requests attempts r}, SendAll N s.session attempts requests r →
      (AllCurrent ⟨r.session, s.history ++ [r]⟩ ↔ Renewed N s (.sendAll requests attempts)) := by
    intro requests attempts r hr
    rw [AllCurrent, List.forall_mem_append, List.forall_mem_singleton, sendAll_current_iff hr]
    exact and_iff_right hs
  cases call with
  | setContext context =>
      obtain rfl := h
      exact iff_of_true hs fun _ _ _ h => nomatch h
  | send request attempts =>
      obtain ⟨r, hr, rfl⟩ := h
      exact key hr.sendAll
  | sendAll requests attempts =>
      obtain ⟨r, hr, rfl⟩ := h
      exact key hr

variable (N) in
/-- **The context of the session counts** in every run, whatever the other ends do, for the requests
of all calls exactly if no call finds a usable connection in the cache that was opened with another
one. -/
theorem current_always_iff (calls : List (Call E)) :
    Always (Step N) AllCurrent .init calls ↔ EveryStep (Step N) (Renewed N) .init calls := by
  have hinit : AllCurrent (Traffic.init : Traffic E) := fun _ h => nomatch h
  exact always_iff_everyStep (N := fun _ _ => True)
    (fun _ _ _ hs _ hstep => current_step_iff hs hstep) hinit
    (everyStep_of_forall fun _ _ _ => trivial)

/-! ### Contexts that are set early -/

/-- A context is set in front of the first request. -/
def Early (s : Traffic E) (call : Call E) : Prop :=
  ∀ context, call = .setContext context → s.history = []

/-- The connections in the cache are where their keys say, and have the context of the session. -/
structure Renewable (s : Traffic E) : Prop where
  keyed : Keyed s.session
  empty : s.history = [] → ∀ key, s.session.connection_cache_ key = none
  current : ∀ key c, s.session.connection_cache_ key = some c → Current s.session c

lemma Renewable.renewed (hs : Renewable s) (call : Call E) : Renewed N s call := by
  intro request u c _ _ hc
  obtain ⟨hcache, -⟩ := Option.filter_eq_some_iff.mp hc
  exact current_secure (hs.current _ c hcache) u.secured

lemma prepare_context {result : Except SendError (Connection E × ParsedURL)}
    (h : prepare N session request attempts = some (result, session')) :
    ∃ secured, session'.context_ = (session.secure secured).context_ := by
  rw [prepare] at h
  split at h
  · cases h
    exact ⟨false, rfl⟩
  · next u hu =>
      refine ⟨u.secured, ?_⟩
      split at h
      · cases h
      · next session'' hfound =>
          cases h
          exact (findConnection_context hfound).1
      · next found session'' hfound =>
          cases h
          exact (findConnection_context hfound).1

/-- **A call of `send`** leaves a cache with the context of the session. -/
lemma Renewable.sendAll (hs : Renewable s) {requests : List Request} {r : SendResult E}
    (h : SendAll N s.session attempts requests r) (key : Bytes) (x : Connection E)
    (hx : r.session.connection_cache_ key = some x) : Current r.session x := by
  -- a connection that was in the cache, for the session that `prepare` leaves
  have hold : ∀ {request result session'} {k : Bytes},
      prepare N s.session request attempts = some (result, session') →
      s.session.connection_cache_ k = some x → Current session' x := by
    intro request result session' k hprepare hk
    obtain ⟨secured, hcontext⟩ := prepare_context hprepare
    have hcurrent := current_secure (hs.current k x hk) secured
    rwa [Current, ← hcontext] at hcurrent
  -- behind `prepare`
  have hput : ∀ {request c c' u session'},
      prepare N s.session request attempts = some (.ok (c, u), session') → SameConnection c c' →
      (session'.insert (cacheKey u.server u.port) c').connection_cache_ key = some x →
      Current (session'.insert (cacheKey u.server u.port) c') x := by
    intro request c c' u session' hprepare hsame hinsert
    have hc : Current session' c := (connection_of_prepare hprepare).2.mpr fun c'' hc'' => by
      obtain ⟨hcache, -⟩ := Option.filter_eq_some_iff.mp hc''
      exact current_secure (hs.current _ c'' hcache) u.secured
    obtain ⟨⟨e, he⟩, -⟩ | ⟨c₁, u₁, heq, -, hextends, -⟩ := prepare_cases hs.keyed hprepare
    · cases he
    cases heq
    by_cases hkey : key = cacheKey u.server u.port
    · subst hkey
      obtain rfl : c' = x := by simpa [Session.insert] using hinsert
      exact (hsame.current_iff session').mpr hc
    · rw [Session.insert] at hinsert
      dsimp only at hinsert
      rw [Function.update_of_ne hkey] at hinsert
      obtain hbefore | ⟨hadded, -⟩ := hextends key x hinsert
      · have hcurrent := hold hprepare hbefore
        exact hcurrent
      · obtain rfl := Option.some.inj hadded
        exact hc
  cases h with
  | empty => exact hs.current key x hx
  | unprepared hprepare =>
      obtain ⟨-, hextends, -⟩ | ⟨c, u, heq, -⟩ := prepare_cases hs.keyed hprepare
      · obtain hbefore | ⟨hadded, -⟩ := hextends key x hx
        · exact hold hprepare hbefore
        · cases hadded
      · cases heq
  | @unwritten request requests c c' u session' e written hprepare hwrite =>
      have hsame := (writeAll_same N c (request :: requests)).1
      rw [hwrite] at hsame
      exact hput hprepare hsame hx
  | @answered request requests c c' c'' u session' written result hprepare hwrite hget =>
      have hsame := (writeAll_same N c (request :: requests)).1
      rw [hwrite] at hsame
      exact hput hprepare (hsame.trans hget.same) hx

lemma Renewable.step (hs : Renewable s) (hearly : Early s call) (h : Step N s call s') :
    Renewable s' := by
  have key : ∀ {requests attempts r}, SendAll N s.session attempts requests r →
      Renewable ⟨r.session, s.history ++ [r]⟩ := by
    intro requests attempts r hr
    exact ⟨(sendAll_routed_iff hs.keyed hr).1, fun hempty => by simp at hempty, hs.sendAll hr⟩
  cases call with
  | setContext context =>
      obtain rfl := h
      have hempty := hs.empty (hearly context rfl)
      refine ⟨hs.keyed, fun _ => hempty, fun k c hc => ?_⟩
      have hnone : s.session.connection_cache_ k = none := hempty k
      rw [show (s.session.setContext context).connection_cache_ k = s.session.connection_cache_ k
        from rfl, hnone] at hc
      cases hc
  | send request attempts =>
      obtain ⟨r, hr, rfl⟩ := h
      exact key hr.sendAll
  | sendAll requests attempts =>
      obtain ⟨r, hr, rfl⟩ := h
      exact key hr

variable (N) in
/-- **Where contexts are set in front of the first request only**, every request is written with the
context of the session. -/
theorem current_of_early (calls : List (Call E)) (h : EveryStep (Step N) Early .init calls) :
    Always (Step N) AllCurrent .init calls := by
  have hinit : Renewable (Traffic.init : Traffic E) ∧ AllCurrent (Traffic.init : Traffic E) :=
    ⟨⟨keyed_init, fun _ _ => rfl, fun _ _ hc => nomatch hc⟩, fun _ h => nomatch h⟩
  have hboth : Always (Step N) (fun s => Renewable s ∧ AllCurrent s) .init calls :=
    always_of_everyStep (fun _ call _ hs hearly hstep =>
      ⟨hs.1.step hearly hstep, (current_step_iff hs.2 hstep).mpr (hs.1.renewed call)⟩) hinit h
  exact hboth.mono fun s hs => hs.2

/-- A context is set, and a request is sent. -/
theorem current_of_early_one : Always (Step closing) AllCurrent .init
    [.setContext (.new Session.defaultOptions 0),
      .send (Request.new (bytes "https://localhost:443/secret")) [some ()]] := by
  refine current_of_early closing _ fun s' _ => ⟨fun _ _ => rfl, fun s'' _ => ⟨?_, trivial⟩⟩
  exact fun _ h => nomatch h

end Arachnida.Damon
