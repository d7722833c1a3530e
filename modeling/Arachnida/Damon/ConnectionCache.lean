import Arachnida.Damon.Session

/-!
The cache of connections, and the connection that a call of `send` uses.

* `cacheKey_injective`: no two pairs of server and port have the same key.
* `Keyed`: the connections in the cache were opened to the server and port of their key.
* `target`, `securedTarget`: the other end of the connection of a call, and whether it is secured.
* `prepare_cases`: **the connection of a call** is one of the cache or a new one, and the other
  connections stay where they are.
* `SameConnection`: what neither writing nor reading changes.
-/

namespace Arachnida.Damon

open Library Scorpion

variable {E : Type*} (N : Network E)

/-! ### The cache -/

lemma not_mem_decimal (n : ℕ) : 58 ∉ decimal n := by
  intro h
  have hdigit := (isNumeral_decimal n).2 _ h
  exact absurd hdigit (by decide)

/-- No two pairs of server and port have the same key: the port is behind the last colon. -/
lemma cacheKey_injective {server server' : Bytes} {port port' : ℕ}
    (h : cacheKey server port = cacheKey server' port') : server = server' ∧ port = port' := by
  have hcolon : bytes ":" = [58] := by decide
  have hsplit : ∀ (s : Bytes) (n : ℕ), (cacheKey s n).rtakeWhile (· ≠ 58) = decimal n ∧
      (cacheKey s n).rdropWhile (· ≠ 58) = s ++ [58] := by
    intro s n
    have hall : ∀ c ∈ decimal n, (decide (c ≠ 58)) = true := by
      intro c hc
      simpa using fun h : c = 58 => not_mem_decimal n (h ▸ hc)
    have hstop : Stops (fun c : Byte => decide (c ≠ 58)) (s ++ [58]).reverse := by simp
    rw [cacheKey, hcolon]
    exact ⟨rtakeWhile_append_stops hall hstop, rdropWhile_append_stops hall hstop⟩
  obtain ⟨hport, hserver⟩ := hsplit server port
  obtain ⟨hport', hserver'⟩ := hsplit server' port'
  rw [h] at hport hserver
  refine ⟨List.append_cancel_right (hserver.symm.trans hserver'), ?_⟩
  have hdec := congrArg decimalValue (hport.symm.trans hport')
  simpa using hdec

/-- The connections in the cache are where their keys say. -/
def Keyed (session : Session E) : Prop :=
  ∀ key c, session.connection_cache_ key = some c → key = cacheKey c.server c.port

@[simp] lemma secure_cache (session : Session E) (secured : Bool) :
    (session.secure secured).connection_cache_ = session.connection_cache_ := by
  rw [Session.secure]
  split <;> rfl

lemma secure_context {session : Session E} {secured : Bool} (h : secured = true) :
    (session.secure secured).context_.isSome := by
  rw [Session.secure]
  split
  · rfl
  · next hc => simpa [h, Option.isSome_iff_ne_none] using hc

/-- A connection is opened with a context exactly if the protocol asks for it. -/
lemma opened_context {session : Session E} {u : ParsedURL}
    (h : u.secured = true → session.context_.isSome) (peer : E) :
    (session.opened u peer).context.isSome = u.secured := by
  rw [Session.opened]
  cases hu : u.secured with
  | true => simpa using h hu
  | false => rfl

/-! ### The connection of a call -/

/-- The first usable one, in front of an exception. -/
def firstUsable : List (Option E) → Option E
  | [] => none
  | none :: _ => none
  | some peer :: attempts => if N.usable peer then some peer else firstUsable attempts

/-- The other end of the connection that a call will use: that of the connection in the cache, if it
is usable, or of one that is opened. -/
def target (session : Session E) (u : ParsedURL) (attempts : List (Option E)) : Option E :=
  match session.connection_cache_ (cacheKey u.server u.port) with
  | some c => if N.usable c.peer then some c.peer else firstUsable N attempts
  | none => firstUsable N attempts

/-- Whether that connection has a security context: one in the cache has what it was opened with,
one that is opened has it if the URL asks for it. -/
def securedTarget (session : Session E) (u : ParsedURL) : Bool :=
  match session.connection_cache_ (cacheKey u.server u.port) with
  | some c => if N.usable c.peer then c.context.isSome else u.secured
  | none => u.secured

section Connection

variable {N} {session session' : Session E} {u : ParsedURL} {attempts : List (Option E)}

/-- The connections of a cache that came from another, or one that was added under its own key. -/
def Extends (session session' : Session E) (added : Option (Connection E)) : Prop :=
  ∀ k x, session'.connection_cache_ k = some x →
    session.connection_cache_ k = some x ∨ (added = some x ∧ k = cacheKey x.server x.port)

lemma Extends.keyed {added : Option (Connection E)} (h : Extends session session' added)
    (hk : Keyed session) : Keyed session' := by
  intro k x hx
  obtain hold | ⟨-, hkey⟩ := h k x hx
  · exact hk k x hold
  · exact hkey

lemma extends_erase (session : Session E) (key : Bytes) :
    Extends session (session.erase key) none := by
  intro k x hx
  by_cases hkk : k = key
  · subst hkk
    simp [Session.erase] at hx
  · exact .inl (by simpa [Session.erase, hkk] using hx)

lemma extends_insert (session : Session E) {key : Bytes} {c : Connection E}
    (hkey : key = cacheKey c.server c.port) : Extends session (session.insert key c) (some c) := by
  intro k x hx
  by_cases hkk : k = key
  · subst hkk
    obtain rfl : c = x := by simpa [Session.insert] using hx
    exact .inr ⟨rfl, hkey⟩
  · exact .inl (by simpa [Session.insert, hkk] using hx)

/-- An entry that is erased again leaves nothing behind. -/
lemma extends_insert_erase (session : Session E) (key : Bytes) (c : Connection E) :
    Extends session ((session.insert key c).erase key) none := by
  intro k x hx
  by_cases hkk : k = key
  · subst hkk
    simp [Session.erase] at hx
  · exact .inl (by simpa [Session.erase, Session.insert, hkk] using hx)

lemma Extends.trans {s₁ s₂ s₃ : Session E} {added : Option (Connection E)}
    (h : Extends s₁ s₂ none) (h' : Extends s₂ s₃ added) : Extends s₁ s₃ added := by
  intro k x hx
  obtain hold | hnew := h' k x hx
  · obtain hold | ⟨hnone, -⟩ := h k x hold
    · exact .inl hold
    · cases hnone
  · exact .inr hnew

/-- What the passes without a connection in the cache come to. -/
lemma openConnection_cases {c : Option (Connection E)}
    (h : openConnection N session u attempts = some (c, session')) :
    Extends session session' c ∧ firstUsable N attempts = c.map Connection.peer ∧
      ∀ c', c = some c' → c' = session.opened u c'.peer ∧ some c'.peer ∈ attempts := by
  induction attempts generalizing session with
  | nil => cases h
  | cons attempt attempts ih =>
      cases attempt with
      | none => cases h; exact ⟨fun k x hx => .inl hx, rfl, by simp⟩
      | some peer =>
          simp only [openConnection] at h
          split at h
          · next husable =>
              cases h
              exact ⟨extends_insert session rfl, by simp [firstUsable, husable, Session.opened],
                by simp [Session.opened]⟩
          · next husable =>
              obtain ⟨hext, ht, hopen⟩ := ih h
              refine ⟨(extends_insert_erase _ _ _).trans hext,
                by rw [firstUsable, if_neg husable, ht],
                fun c' hc' => ?_⟩
              obtain ⟨heq, hmem⟩ := hopen c' hc'
              exact ⟨heq, List.mem_cons_of_mem _ hmem⟩

/-- What the `do … while` comes to: the connection in the cache, if it is usable, or a new one. -/
lemma findConnection_cases {c : Option (Connection E)} (hk : Keyed session)
    (hcontext : u.secured = true → session.context_.isSome)
    (h : findConnection N session u attempts = some (c, session')) :
    Extends session session' c ∧ target N session u attempts = c.map Connection.peer ∧
      ∀ c', c = some c' → c'.server = u.server ∧ c'.port = u.port ∧
        c'.context.isSome = securedTarget N session u ∧
        ((session.connection_cache_ (cacheKey u.server u.port) = some c' ∧
            N.usable c'.peer = true) ∨
          (some c'.peer ∈ attempts ∧ c'.connection_attribute = .empty)) := by
  have hsec := opened_context hcontext
  rw [findConnection] at h
  rw [target, securedTarget]
  cases hc : session.connection_cache_ (cacheKey u.server u.port) with
  | none =>
      simp only [hc] at h
      obtain ⟨hext, ht, hopen⟩ := openConnection_cases h
      refine ⟨hext, ht, fun c' hc' => ?_⟩
      obtain ⟨heq, hmem⟩ := hopen c' hc'
      rw [heq]
      exact ⟨rfl, rfl, hsec _, .inr ⟨hmem, rfl⟩⟩
  | some cached =>
      simp only [hc] at h
      by_cases husable : N.usable cached.peer = true
      · rw [if_pos husable] at h
        cases h
        obtain ⟨hserver, hport⟩ := cacheKey_injective (hk _ _ hc)
        refine ⟨fun k x hx => .inl hx, by simp [husable], fun c' hc' => ?_⟩
        obtain rfl := Option.some.inj hc'
        exact ⟨hserver.symm, hport.symm, by simp [husable], .inl ⟨rfl, husable⟩⟩
      · rw [if_neg husable] at h
        obtain ⟨hext, ht, hopen⟩ := openConnection_cases h
        dsimp only
        rw [if_neg husable, if_neg husable]
        refine ⟨(extends_erase _ _).trans hext, ht, fun c' hc' => ?_⟩
        obtain ⟨heq, hmem⟩ := hopen c' hc'
        rw [heq]
        exact ⟨rfl, rfl, hsec _, .inr ⟨hmem, rfl⟩⟩

/-- **The connection of a call**: to the server and port of its first URL, secured or not as the
cache and the URL have it, and found in the cache or new. -/
lemma prepare_cases {request : Request} (hk : Keyed session)
    {r : Except SendError (Connection E × ParsedURL)}
    (h : prepare N session request attempts = some (r, session')) :
    ((∃ e, r = .error e) ∧ Extends session session' none ∧
        ∀ u, parseURL request.url_ = .ok u → target N session u attempts = none) ∨
      ∃ c u, r = .ok (c, u) ∧ parseURL request.url_ = .ok u ∧ Extends session session' (some c) ∧
        target N session u attempts = some c.peer ∧ c.server = u.server ∧ c.port = u.port ∧
        c.context.isSome = securedTarget N session u ∧
        ((session.connection_cache_ (cacheKey u.server u.port) = some c ∧ N.usable c.peer = true) ∨
          (some c.peer ∈ attempts ∧ c.connection_attribute = .empty)) := by
  rw [prepare] at h
  split at h
  · next e he =>
      cases h
      refine .inl ⟨⟨_, rfl⟩, fun k x hx => .inl hx, fun u hu => ?_⟩
      rw [he] at hu
      cases hu
  · next u hu =>
      -- the session with its context has the same cache
      have hcache := secure_cache session u.secured
      have hkeyed : Keyed (session.secure u.secured) := by rw [Keyed, hcache]; exact hk
      have htarget : target N (session.secure u.secured) u attempts
          = target N session u attempts := by
        rw [target, target, hcache]
      have hsecured : securedTarget N (session.secure u.secured) u = securedTarget N session u := by
        rw [securedTarget, securedTarget, hcache]
      have hext : ∀ {c s}, Extends (session.secure u.secured) s c → Extends session s c := by
        intro c s hs
        rw [Extends, hcache] at hs
        exact hs
      split at h
      · cases h
      · next s hs =>
          cases h
          obtain ⟨he, ht, -⟩ := findConnection_cases hkeyed secure_context hs
          refine .inl ⟨⟨_, rfl⟩, hext he, fun v hv => ?_⟩
          obtain rfl : u = v := Except.ok.inj (hu ▸ hv)
          rw [← htarget]
          exact ht
      · next c s hs =>
          cases h
          obtain ⟨he, ht, hopen⟩ := findConnection_cases hkeyed secure_context hs
          obtain ⟨hserver, hport, hsec, hsource⟩ := hopen c rfl
          rw [htarget] at ht
          rw [hsecured] at hsec
          rw [hcache] at hsource
          exact .inr ⟨c, u, rfl, hu, hext he, ht, hserver, hport, hsec, hsource⟩

end Connection

/-! ### What stays with a connection -/

/-- Where a connection was opened to, and with which context. -/
structure SameConnection (c c' : Connection E) : Prop where
  server : c'.server = c.server
  port : c'.port = c.port
  context : c'.context = c.context

lemma SameConnection.trans {c c' c'' : Connection E} (h : SameConnection c c')
    (h' : SameConnection c' c'') : SameConnection c c'' :=
  ⟨h'.server.trans h.server, h'.port.trans h.port, h'.context.trans h.context⟩

/-- Requests are written on the connection of the call, and it stays where it was. -/
lemma writeAll_same (c : Connection E) (requests : List Request) :
    SameConnection c (writeAll N c requests).2.2 ∧
      ∀ w ∈ (writeAll N c requests).1, SameConnection c w.connection := by
  induction requests generalizing c with
  | nil => exact ⟨⟨rfl, rfl, rfl⟩, by simp [writeAll]⟩
  | cons request requests ih =>
      rw [writeAll]
      cases request.serialize with
      | error e => exact ⟨⟨rfl, rfl, rfl⟩, by simp⟩
      | ok data =>
          have hstep : SameConnection c { c with peer := (N.write c.peer data).2 } :=
            ⟨rfl, rfl, rfl⟩
          obtain ⟨hlast, hall⟩ := ih { c with peer := (N.write c.peer data).2 }
          by_cases hw : (N.write c.peer data).1 = true
          · simp only [if_pos hw, List.forall_mem_cons]
            exact ⟨hstep.trans hlast, ⟨rfl, rfl, rfl⟩, fun w hw => hstep.trans (hall w hw)⟩
          · simp only [if_neg hw, List.forall_mem_singleton]
            exact ⟨hstep, rfl, rfl, rfl⟩

variable {N} in
lemma GetResponses.same {c c' : Connection E} {n : ℕ} {r : Except Exception (List Response)}
    (h : GetResponses N c n r c') : SameConnection c c' := by
  induction h with
  | done c => exact ⟨rfl, rfl, rfl⟩
  | thrown h => exact ⟨rfl, rfl, rfl⟩
  | next h hrest ih => exact ⟨ih.server, ih.port, ih.context⟩

end Arachnida.Damon
