import Arachnida.Library.Ownership
import Arachnida.Scorpion.Configured

/-!
`Scorpion::BIO`: the `::BIO`s of OpenSSL that listeners and connections are made of, and the
security that they have got.

* `BIO`: an `AcceptBio` or a `ConnectionBIO`, with the `::BIO`s that `BIO_free_all` frees for it.
* `createAcceptBIO`, `createSSLAcceptBIO`, `accept`, `connect`, `connectSSL`: with any of the calls
  that they make failing.
* `Connections`: security contexts and any number of `BIO`s, with what is done to them.
* `bios_exact`: **every `::BIO` belongs to one object, or was freed once**, whatever has failed.
* `Secured`: the secured ones are configured as their contexts were when they were made.
* `secured_always`: **they stay so, whatever becomes of the contexts**, if no call of `getContext`
  fails and no setter writes to a context that shares its cell while that is empty.
* `unverified`: what a listener has got that was made behind a failed call.
-/

namespace Arachnida.Scorpion

open Library Function

/-! ### The objects -/

/-- `Scorpion::BIO`. -/
structure BIO where
  /-- An `AcceptBio`, not a `ConnectionBIO`. -/
  accepts : Bool
  /-- `openssl_bio_`, with all that `BIO_free_all` frees behind it. -/
  openssl_bio_ : List ℕ
  /-- The `SSL_CTX` of the SSL BIO among them. -/
  ssl_context : Option SSLContext

/-- The calls that may fail: those of OpenSSL, `new` and `shared_ptr::reset`. -/
inductive Call where
  | BIO_new_accept | BIO_new_ssl | BIO_new_connect | BIO_new_ssl_connect | BIO_get_ssl
  | BIO_do_accept | BIO_do_connect | BIO_do_handshake | new_ | reset
  deriving DecidableEq

/-- What is thrown. -/
inductive BIOError where
  | acceptSocketAllocationError | acceptSetupError | serverSocketAllocationError
  | sslPointerLocationError | connectionSocketCreationFailure | connectionError | acceptError
  | handshakeError
  | context (e : ContextError)
  | bad_alloc
  deriving DecidableEq

/-- What a function returns or throws, and the `::BIO`s behind it. -/
abbrev Made := Except BIOError BIO × Resources

/-- `createAcceptBIO`. -/
def createAcceptBIO (fails : Call → Bool) (r : Resources) : Made :=
  if fails .BIO_new_accept then (.error .acceptSocketAllocationError, r)
  else
    let bio := r.issued
    let r := r.issue
    -- `accept_bio_guard` frees the BIO where one of these throws
    if fails .BIO_do_accept then (.error .acceptSetupError, r.release [bio])
    else if fails .new_ then (.error .bad_alloc, r.release [bio])
    -- it is dismissed, and `reset` frees what it cannot count
    else if fails .reset then (.error .bad_alloc, r.release [bio])
    else (.ok ⟨true, [bio], none⟩, r)

/-- `createSSLAcceptBIO`, behind `getContext`. -/
def createSSLAcceptBIO (ssl_context : SSLContext) (fails : Call → Bool) (r : Resources) : Made :=
  if fails .BIO_new_ssl then (.error .serverSocketAllocationError, r)
  else
    let ssl_bio := r.issued
    let r := r.issue
    -- `ssl_bio_guard`
    if fails .BIO_get_ssl then (.error .sslPointerLocationError, r.release [ssl_bio])
    else if fails .BIO_new_accept then
      (.error .acceptSocketAllocationError, r.release [ssl_bio])
    else
      let accept_bio := r.issued
      let r := r.issue
      -- `BIO_set_accept_bios`: from here the SSL BIO is freed with the other
      if fails .BIO_do_accept then (.error .acceptSetupError, r.release [accept_bio, ssl_bio])
      else if fails .new_ then (.error .bad_alloc, r.release [accept_bio, ssl_bio])
      else if fails .reset then (.error .bad_alloc, r.release [accept_bio, ssl_bio])
      else (.ok ⟨true, [accept_bio, ssl_bio], some ssl_context⟩, r)

/-- `AcceptBio::accept`.  What is popped off is a BIO for the connection, behind a copy of the SSL
BIO if there is one. -/
def BIO.accept (bio : BIO) (fails : Call → Bool) (r : Resources) : Made :=
  if fails .new_ then (.error .bad_alloc, r)
  else if fails .BIO_do_accept then (.error .acceptError, r)
  else
    match bio.ssl_context with
    | none =>
        let cbio := r.issued
        let r := r.issue
        if fails .reset then (.error .bad_alloc, r.release [cbio])
        else (.ok ⟨false, [cbio], none⟩, r)
    | some ssl_context =>
        let connection := r.issued
        let r := r.issue
        let cbio := r.issued
        let r := r.issue
        if fails .reset then (.error .bad_alloc, r.release [cbio, connection])
        -- `retval` frees what it has got
        else if fails .BIO_do_handshake then (.error .handshakeError, r.release [cbio, connection])
        else (.ok ⟨false, [cbio, connection], some ssl_context⟩, r)

/-- `connect` without a context. -/
def connect (fails : Call → Bool) (r : Resources) : Made :=
  if fails .new_ then (.error .bad_alloc, r)
  else if fails .BIO_new_connect then (.error .connectionSocketCreationFailure, r)
  else
    let bio := r.issued
    let r := r.issue
    if fails .reset then (.error .bad_alloc, r.release [bio])
    else if fails .BIO_do_connect then (.error .connectionError, r.release [bio])
    else (.ok ⟨false, [bio], none⟩, r)

/-- `connect` with a context, behind `getContext`. -/
def connectSSL (ssl_context : SSLContext) (fails : Call → Bool) (r : Resources) : Made :=
  if fails .BIO_new_ssl_connect then (.error .connectionSocketCreationFailure, r)
  else
    let connection := r.issued
    let r := r.issue
    let bio := r.issued
    let r := r.issue
    if fails .reset then (.error .bad_alloc, r.release [bio, connection])
    else if fails .BIO_get_ssl then (.error .sslPointerLocationError, r.release [bio, connection])
    else if fails .BIO_do_connect then (.error .connectionError, r.release [bio, connection])
    else if fails .BIO_do_handshake then (.error .handshakeError, r.release [bio, connection])
    else (.ok ⟨false, [bio, connection], some ssl_context⟩, r)

/-! ### Any number of them -/

/-- Security contexts, the `BIO`s there are, and the `::BIO`s. -/
structure Connections where
  contexts : State
  bios : ℕ → Option BIO
  resources : Resources
  /-- The settings of the context that a `BIO`, or its listener, was made with. -/
  settings : ℕ → Option Settings

/-- Nothing. -/
def Connections.init : Connections := ⟨.init, fun _ => none, .init, fun _ => none⟩

/-- What can be done. -/
inductive ConnectionsOp where
  | context (op : Op)
  | listen (x : ℕ) (fails : Call → Bool)
  | listenSSL (x c : ℕ) (outcomes : Outcomes) (fails : Call → Bool)
  | accept (x listener : ℕ) (fails : Call → Bool)
  | connect (x : ℕ) (fails : Call → Bool)
  | connectSSL (x c : ℕ) (outcomes : Outcomes) (fails : Call → Bool)
  | destroy (x : ℕ)

namespace Connections

/-- What a function has made, as the object `x`. -/
def put (w : Connections) (x : ℕ) (made : Made) (settings : Option Settings) : Connections :=
  match made with
  | (.error _, r) => { w with resources := r }
  | (.ok bio, r) =>
      { w with
        bios := update w.bios x (some bio)
        resources := r
        settings := update w.settings x settings }

/-- With other cells. -/
def withCells (w : Connections) (cells : Cells) : Connections :=
  { w with contexts := { w.contexts with cells } }

/-- A function that asks a context for its `SSL_CTX` first. -/
def withContext (w : Connections) (x : ℕ) (a : Context) (outcomes : Outcomes)
    (make : SSLContext → Resources → Made) : Connections :=
  let got := getContext w.contexts.cells a outcomes
  match got.1 with
  | .error _ => w.withCells got.2
  | .ok ssl_context =>
      (w.withCells got.2).put x (make ssl_context w.resources) (some a.settings)

/-- The state behind an operation, if the objects that it needs exist and the one it makes does
not. -/
def step (w : Connections) : ConnectionsOp → Option Connections
  | .context op => (Scorpion.step w.contexts op).map fun contexts => { w with contexts }
  | .listen x fails =>
      if (w.bios x).isNone then some (w.put x ( createAcceptBIO fails w.resources) none) else none
  | .listenSSL x c outcomes fails =>
      (w.contexts.objects c).bind fun a =>
        if (w.bios x).isNone then
          some (w.withContext x a outcomes fun ssl => createSSLAcceptBIO ssl fails)
        else none
  | .accept x listener fails =>
      (w.bios listener).bind fun bio =>
        if bio.accepts ∧ (w.bios x).isNone then
          some (w.put x (bio.accept fails w.resources) (w.settings listener))
        else none
  | .connect x fails =>
      if (w.bios x).isNone then some (w.put x (Scorpion.connect fails w.resources) none) else none
  | .connectSSL x c outcomes fails =>
      (w.contexts.objects c).bind fun a =>
        if (w.bios x).isNone then
          -- the object is made before the context is asked
          if fails .new_ then some w
          else some (w.withContext x a outcomes fun ssl => Scorpion.connectSSL ssl fails)
        else none
  | .destroy x =>
      (w.bios x).map fun bio =>
        { w with
          bios := update w.bios x none
          resources := w.resources.release bio.openssl_bio_
          settings := update w.settings x none }

end Connections

/-! ### Owners -/

section Owners

variable {held : ℕ → List ℕ} {x : ℕ} {r : Resources} {l : List ℕ} {fails : Call → Bool}

lemma createAcceptBIO_delivers (h : Building held x r []) :
    Delivers BIO.openssl_bio_ held x ( createAcceptBIO fails r) := by
  have hbio := h.issue
  unfold createAcceptBIO
  split_ifs
  · exact h
  · exact hbio.release
  · exact hbio.release
  · exact hbio.release
  · exact hbio

lemma createSSLAcceptBIO_delivers (h : Building held x r []) (ssl_context : SSLContext) :
    Delivers BIO.openssl_bio_ held x ( createSSLAcceptBIO ssl_context fails r) := by
  have hssl := h.issue
  have hboth := hssl.issue
  unfold createSSLAcceptBIO
  split_ifs
  · exact h
  · exact hssl.release
  · exact hssl.release
  · exact hboth.release
  · exact hboth.release
  · exact hboth.release
  · exact hboth

lemma accept_delivers (h : Building held x r []) (bio : BIO) :
    Delivers BIO.openssl_bio_ held x (bio.accept fails r) := by
  have hcbio := h.issue
  have hboth := hcbio.issue
  unfold BIO.accept
  cases bio.ssl_context with
  | none =>
      dsimp only
      split_ifs
      · exact h
      · exact h
      · exact hcbio.release
      · exact hcbio
  | some ssl_context =>
      dsimp only
      split_ifs
      · exact h
      · exact h
      · exact hboth.release
      · exact hboth.release
      · exact hboth

lemma connect_delivers (h : Building held x r []) :
    Delivers BIO.openssl_bio_ held x (connect fails r) := by
  have hbio := h.issue
  rw [connect]
  split_ifs
  · exact h
  · exact h
  · exact hbio.release
  · exact hbio.release
  · exact hbio

lemma connectSSL_delivers (h : Building held x r []) (ssl_context : SSLContext) :
    Delivers BIO.openssl_bio_ held x (connectSSL ssl_context fails r) := by
  have hboth := h.issue.issue
  rw [connectSSL]
  split_ifs
  · exact h
  · exact hboth.release
  · exact hboth.release
  · exact hboth.release
  · exact hboth.release
  · exact hboth

end Owners

namespace Connections

variable {w w' : Connections} {x : ℕ} {op : ConnectionsOp} {ops : List ConnectionsOp}

/-- Every `::BIO` belongs to one object, or was freed once. -/
def Exact (w : Connections) : Prop := w.resources.Exact (heldBy BIO.openssl_bio_ w.bios)

lemma Exact.put {made : Made}
    (hmade : Delivers BIO.openssl_bio_ (heldBy BIO.openssl_bio_ w.bios) x made)
    (hx : w.bios x = none) (settings : Option Settings) : (w.put x made settings).Exact := by
  obtain ⟨result, r⟩ := made
  cases result with
  | error e => exact (building_iff hx).mp hmade
  | ok bio => exact building_update.mp hmade

lemma Exact.withContext (h : w.Exact) (hx : w.bios x = none) (a : Context) (outcomes : Outcomes)
    {make : SSLContext → Resources → Made}
    (hmake : ∀ ssl_context,
      Delivers BIO.openssl_bio_ (heldBy BIO.openssl_bio_ w.bios) x (make ssl_context w.resources)) :
    (w.withContext x a outcomes make).Exact := by
  rw [Connections.withContext]
  cases (getContext w.contexts.cells a outcomes).1 with
  | error e => exact h
  | ok ssl_context =>
      have hput : ((w.withCells (getContext w.contexts.cells a outcomes).2).put x
          (make ssl_context w.resources) (some a.settings)).Exact :=
        Exact.put (w := w.withCells (getContext w.contexts.cells a outcomes).2)
          (hmake ssl_context) hx (some a.settings)
      exact hput

/-- **Every operation** leaves no `::BIO` behind. -/
lemma Exact.step (h : w.Exact) (hs : w.step op = some w') : w'.Exact := by
  cases op with
  | context op =>
      obtain ⟨contexts, -, rfl⟩ := Option.map_eq_some_iff.mp hs
      exact h
  | listen x fails =>
      simp only [Connections.step, Option.ite_none_right_eq_some, Option.isNone_iff_eq_none] at hs
      obtain ⟨hx, hw⟩ := hs
      obtain rfl := Option.some.inj hw
      exact Exact.put (createAcceptBIO_delivers ((building_iff hx).mpr h)) hx none
  | listenSSL x c outcomes fails =>
      simp only [Connections.step, Option.bind_eq_some_iff, Option.ite_none_right_eq_some,
        Option.isNone_iff_eq_none] at hs
      obtain ⟨a, -, hx, hw⟩ := hs
      obtain rfl := Option.some.inj hw
      exact h.withContext hx a outcomes (createSSLAcceptBIO_delivers ((building_iff hx).mpr h))
  | accept x listener fails =>
      simp only [Connections.step, Option.bind_eq_some_iff, Option.ite_none_right_eq_some,
        Option.isNone_iff_eq_none] at hs
      obtain ⟨bio, -, ⟨-, hx⟩, hw⟩ := hs
      obtain rfl := Option.some.inj hw
      exact Exact.put (accept_delivers ((building_iff hx).mpr h) bio) hx _
  | connect x fails =>
      simp only [Connections.step, Option.ite_none_right_eq_some, Option.isNone_iff_eq_none] at hs
      obtain ⟨hx, hw⟩ := hs
      obtain rfl := Option.some.inj hw
      exact Exact.put (connect_delivers ((building_iff hx).mpr h)) hx none
  | connectSSL x c outcomes fails =>
      simp only [Connections.step, Option.bind_eq_some_iff, Option.ite_none_right_eq_some,
        Option.isNone_iff_eq_none] at hs
      obtain ⟨a, -, hx, hw⟩ := hs
      split_ifs at hw
      · obtain rfl := Option.some.inj hw
        exact h
      · obtain rfl := Option.some.inj hw
        exact h.withContext hx a outcomes (connectSSL_delivers ((building_iff hx).mpr h))
  | destroy x =>
      obtain ⟨bio, hx, rfl⟩ := Option.map_eq_some_iff.mp hs
      exact exact_of_released h hx rfl

/-- **Nothing is leaked, and nothing is freed twice**: in every run, whatever calls fail, every
`::BIO` that was made belongs to one object or was freed once. -/
theorem bios_exact (ops : List ConnectionsOp) (w : Connections)
    (hrun : RunTo (stepOf step) init ops w) : w.Exact :=
  hrun.invariant (fun _ _ _ h hs => h.step hs) Resources.Exact.init

/-- A secured listener, and a client that fails the handshake. -/
def failedHandshake : List ConnectionsOp :=
  [.context (.construct 0 0x10 9), .listenSSL 0 0 .good fun _ => false,
    .accept 1 0 (· = .BIO_do_handshake)]

theorem bios_exact_handshake : ∃ w, RunTo (stepOf step) init failedHandshake w ∧
    w.resources.issued = 4 ∧ w.resources.released = [3, 2] ∧ w.Exact := by
  obtain ⟨w, hrun, hissued, hreleased⟩ : ∃ w, RunTo (stepOf step) init failedHandshake w ∧
      w.resources.issued = 4 ∧ w.resources.released = [3, 2] :=
    ⟨_, ⟨_, rfl, _, rfl, _, rfl, rfl⟩, by decide +kernel, by decide +kernel⟩
  exact ⟨w, hrun, hissued, hreleased, bios_exact failedHandshake w hrun⟩

end Connections

/-! ### What they are secured with -/

section Secured

variable {r : Resources} {fails : Call → Bool} {bio : BIO} {ssl_context : SSLContext}

lemma createAcceptBIO_plain (h : ( createAcceptBIO fails r).1 = .ok bio) :
    bio.ssl_context = none := by
  unfold createAcceptBIO at h
  split_ifs at h
  cases h
  rfl

lemma createSSLAcceptBIO_secured (h : ( createSSLAcceptBIO ssl_context fails r).1 = .ok bio) :
    bio.ssl_context = some ssl_context := by
  unfold createSSLAcceptBIO at h
  split_ifs at h
  cases h
  rfl

/-- A connection is secured as its listener is. -/
lemma accept_secured {listener : BIO} (h : (listener.accept fails r).1 = .ok bio) :
    bio.ssl_context = listener.ssl_context := by
  unfold BIO.accept at h
  cases hssl : listener.ssl_context with
  | none =>
      rw [hssl] at h
      dsimp only at h
      split_ifs at h
      cases h
      rfl
  | some ssl_context =>
      rw [hssl] at h
      dsimp only at h
      split_ifs at h
      cases h
      rfl

lemma connect_plain (h : (connect fails r).1 = .ok bio) : bio.ssl_context = none := by
  rw [connect] at h
  split_ifs at h
  cases h
  rfl

lemma connectSSL_secured (h : (connectSSL ssl_context fails r).1 = .ok bio) :
    bio.ssl_context = some ssl_context := by
  rw [connectSSL] at h
  split_ifs at h
  cases h
  rfl

end Secured

namespace Connections

variable {w w' : Connections} {x : ℕ} {op : ConnectionsOp} {ops : List ConnectionsOp}

/-- What was made without a context is plain, and what was made with one is fully configured for
the settings that the context had then. -/
def Secured (w : Connections) : Prop :=
  ∀ x bio, w.bios x = some bio → bio.ssl_context = (w.settings x).map .configured

/-- No call of `getContext` fails, and setters write safely. -/
def Careful (w : Connections) : ConnectionsOp → Prop
  | .context op => Succeeds w.contexts op ∧ SafeWrite w.contexts op
  | .listenSSL _ c outcomes _ | .connectSSL _ c outcomes _ =>
      Succeeds w.contexts (.getContext c outcomes)
  | _ => True

/-- The contexts are coherent, and the objects secured. -/
structure Safe (w : Connections) : Prop where
  wellFormed : WellFormed w.contexts
  coherent : Coherent w.contexts
  secured : w.Secured

lemma Safe.put (h : w.Safe) {made : Made} {settings : Option Settings}
    (hmade : ∀ bio, made.1 = .ok bio → bio.ssl_context = settings.map .configured) (x : ℕ) :
    (w.put x made settings).Safe := by
  obtain ⟨result, r⟩ := made
  cases result with
  | error e => exact ⟨h.wellFormed, h.coherent, h.secured⟩
  | ok bio =>
      refine ⟨h.wellFormed, h.coherent, fun y b hy => ?_⟩
      simp only [Connections.put] at hy ⊢
      by_cases hyx : y = x
      · subst hyx
        rw [update_self] at hy ⊢
        obtain rfl := Option.some.inj hy
        exact hmade bio rfl
      · rw [update_of_ne hyx] at hy ⊢
        exact h.secured y b hy

/-- What `getContext` returns is configured for the settings of the context. -/
lemma Safe.withContext (h : w.Safe) {c : ℕ} {a : Context} (ha : w.contexts.objects c = some a)
    {outcomes : Outcomes} (hok : Succeeds w.contexts (.getContext c outcomes))
    {make : SSLContext → Resources → Made}
    (hmake : ∀ ssl_context bio, (make ssl_context w.resources).1 = .ok bio →
      bio.ssl_context = some ssl_context) (x : ℕ) : (w.withContext x a outcomes make).Safe := by
  have hstep : Scorpion.step w.contexts (.getContext c outcomes)
      = some { w.contexts with cells := (getContext w.contexts.cells a outcomes).2 } := by
    simp only [Scorpion.step, ha]
  obtain ⟨ssl_context, hssl⟩ := hok a ha
  have hsettings : ssl_context = .configured a.settings := by
    rcases getContext_ok hssl with ⟨hcell, -⟩ | ⟨-, hnew, -⟩
    · exact h.coherent.filled c a ssl_context ha hcell
    · exact hnew
  have hsafe : (w.withCells (getContext w.contexts.cells a outcomes).2).Safe :=
    ⟨h.wellFormed.step hstep, h.coherent.getContext hok hstep, h.secured⟩
  rw [Connections.withContext, hssl]
  refine hsafe.put (fun bio hbio => ?_) x
  rw [hmake ssl_context bio hbio, hsettings, Option.map_some]

/-- **Every operation** keeps what is secured as it is. -/
lemma Safe.step (h : w.Safe) (hcareful : w.Careful op) (hs : w.step op = some w') : w'.Safe := by
  cases op with
  | context op =>
      obtain ⟨contexts, hcontexts, rfl⟩ := Option.map_eq_some_iff.mp hs
      exact ⟨h.wellFormed.step hcontexts,
        (coherent_step_iff h.wellFormed h.coherent hcareful.1 hcontexts).mpr hcareful.2, h.secured⟩
  | listen x fails =>
      simp only [Connections.step, Option.ite_none_right_eq_some] at hs
      obtain rfl := Option.some.inj hs.2
      exact @Safe.put w h _ none (fun bio hbio => createAcceptBIO_plain hbio) x
  | listenSSL x c outcomes fails =>
      simp only [Connections.step, Option.bind_eq_some_iff, Option.ite_none_right_eq_some] at hs
      obtain ⟨a, ha, -, hw⟩ := hs
      obtain rfl := Option.some.inj hw
      exact h.withContext ha hcareful (fun _ _ hbio => createSSLAcceptBIO_secured hbio) x
  | accept x listener fails =>
      simp only [Connections.step, Option.bind_eq_some_iff, Option.ite_none_right_eq_some] at hs
      obtain ⟨bio, hlistener, -, hw⟩ := hs
      obtain rfl := Option.some.inj hw
      refine h.put (fun cbio hcbio => ?_) x
      rw [accept_secured hcbio]
      exact h.secured listener bio hlistener
  | connect x fails =>
      simp only [Connections.step, Option.ite_none_right_eq_some] at hs
      obtain rfl := Option.some.inj hs.2
      exact @Safe.put w h _ none (fun bio hbio => connect_plain hbio) x
  | connectSSL x c outcomes fails =>
      simp only [Connections.step, Option.bind_eq_some_iff, Option.ite_none_right_eq_some] at hs
      obtain ⟨a, ha, -, hw⟩ := hs
      split_ifs at hw
      · obtain rfl := Option.some.inj hw
        exact h
      · obtain rfl := Option.some.inj hw
        exact h.withContext ha hcareful (fun _ _ hbio => connectSSL_secured hbio) x
  | destroy x =>
      obtain ⟨bio, -, rfl⟩ := Option.map_eq_some_iff.mp hs
      refine ⟨h.wellFormed, h.coherent, fun y b hy => ?_⟩
      change update w.bios x none y = some b at hy
      change _ = Option.map SSLContext.configured (update w.settings x none y)
      by_cases hyx : y = x
      · subst hyx
        rw [update_self] at hy
        cases hy
      · rw [update_of_ne hyx] at hy ⊢
        exact h.secured y b hy

/-- **Listeners and connections stay secured** as they were made, whatever is done to the contexts
later: in every run in which no call of `getContext` fails and setters write safely, what was made
with a context is fully configured for the settings that the context had then. -/
theorem secured_always (ops : List ConnectionsOp)
    (hcareful : EveryStep (stepOf step) Careful init ops) :
    Always (stepOf step) Secured init ops := by
  have hsafe : Always (stepOf step) Safe init ops :=
    always_of_everyStep (fun _ _ _ h hc hs => h.step hc hs)
      ⟨wellFormed_init, coherent_init, fun _ _ h => nomatch h⟩ hcareful
  exact hsafe.mono fun _ h => h.secured

/-- A listener is made with a copy of a context, the context is changed, and a client comes. -/
def changedLater : List ConnectionsOp :=
  [.context (.construct 0 0x10 9), .context (.copy 1 0),
    .listenSSL 0 1 .good fun _ => false, .context (.set 0 (.flags 0)),
    .accept 1 0 fun _ => false]

theorem secured_changedLater : ∃ w bio, RunTo (stepOf step) init changedLater w ∧
    w.bios 1 = some bio ∧ bio.ssl_context = some (.configured (.new 0x10 9)) := by
  have hsecured : Always (stepOf step) Secured init changedLater := by
    refine secured_always changedLater ?_
    intro w₁ h₁
    obtain rfl := Option.some.inj h₁
    refine ⟨⟨trivial, trivial⟩, fun w₂ h₂ => ?_⟩
    obtain rfl := Option.some.inj h₂
    refine ⟨⟨trivial, trivial⟩, fun w₃ h₃ => ?_⟩
    obtain rfl := Option.some.inj h₃
    refine ⟨succeeds_good, fun w₄ h₄ => ?_⟩
    obtain rfl := Option.some.inj h₄
    -- the cell of the listener's copy is filled
    refine ⟨⟨trivial, fun a ha => .inl ?_⟩, fun w₅ _ => ⟨trivial, trivial⟩⟩
    obtain rfl := Option.some.inj ha
    exact Option.some_ne_none _
  obtain ⟨w, bio, hrun, hbio, hsettings⟩ : ∃ w bio, RunTo (stepOf step) init changedLater w ∧
      w.bios 1 = some bio ∧ w.settings 1 = some (.new 0x10 9) :=
    ⟨_, _, ⟨_, rfl, _, rfl, _, rfl, _, rfl, _, rfl, rfl⟩, rfl, rfl⟩
  refine ⟨w, bio, hrun, hbio, ?_⟩
  rw [hsecured.last hrun 1 bio hbio, hsettings]
  rfl

/-- A listener that is to verify its clients, a second one with the same context behind the failure
of the first, and a client of it. -/
def triedAgain : List ConnectionsOp :=
  [.context (.construct 0 0x10 9),
    .context (.set 0 (.trustedCACertificatesFilename (bytes "ca.pem"))),
    .listenSSL 0 0 unreadable fun _ => false,
    .listenSSL 0 0 .good fun _ => false, .accept 1 0 fun _ => false]

/-- **Behind a failed call** the second listener accepts without having set up anything, the
verification of its clients included. -/
theorem unverified : ∃ w bio ssl_context, RunTo (stepOf step) init triedAgain w ∧
    w.bios 1 = some bio ∧ bio.ssl_context = some ssl_context ∧ ssl_context.applied = [] ∧
    .set_verify [.peer] ∈ configuration ssl_context.settings := by
  refine ⟨_, _, _, ⟨_, rfl, _, rfl, _, rfl, _, rfl, _, rfl, rfl⟩, rfl, rfl, ?_, ?_⟩
  · decide +kernel
  · decide +kernel

end Connections

end Arachnida.Scorpion
