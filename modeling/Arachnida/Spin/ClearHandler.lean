import Arachnida.Spin.Private.ConnectionHandler

/-!
The lock of a connection, `Spin::Connection::bio_lock_`, and the connection handler together.

* `Position`: where an actor is in a method of a connection.
* `Connections`: the handler, whose callbacks are those of the connections, with the locks and the
  data handlers of the connections.
* `Connections.Step`: the methods as guarded steps; the worker calls them from its callbacks.
* `Clash`: a thread waits in `detach` with the lock of a connection, and the worker waits for that
  lock in the data callback of the same connection.
* `Apart`: no thread begins to wait for the end of a handler while its callback runs, and no
  callback starts while a thread waits so.
* `no_clash`: **runs whose steps are apart reach no clash**; `clash_of_call` and `clash_of_clear`:
  behind any other step it is one call of a method away.
-/

namespace Arachnida.Spin

open Library Private

/-- The methods of `Connection` that take `bio_lock_`. -/
inductive LockedMethod where
  | read | write | poll | close | usesSSL | getPeerAddress | setReadTimeout
  | setNewDataHandler | clearNewDataHandler
  deriving DecidableEq, Repr

/-- The methods that use the BIO and nothing else. -/
def LockedMethod.Plain : LockedMethod → Prop
  | .setNewDataHandler | .clearNewDataHandler => False
  | _ => True

/-- Outside, waiting for the lock at the beginning of a method, behind it, or in the `detach` of
`clearNewDataHandler`.  The methods do not call each other, so that nobody is in two. -/
inductive Position (γ : Type*) where
  | outside
  | entering (method : LockedMethod) (connection : γ)
  | inside (method : LockedMethod) (connection : γ)
  | detaching (connection : γ)
  deriving DecidableEq, Repr

/-- The handler and the connections. -/
structure Connections (τ γ : Type*) where
  handler : State τ γ
  bio_lock_ : γ → Option (Actor τ)
  data_handler_ : γ → Bool
  position : Actor τ → Position γ

variable {τ γ : Type*} [DecidableEq τ] [DecidableEq γ]

namespace Connections

omit [DecidableEq τ] [DecidableEq γ] in
/-- Nothing registered, no lock taken. -/
def init : Connections τ γ := ⟨State.init, fun _ => none, fun _ => false, fun _ => .outside⟩

/-- The actor moves on. -/
def move (s : Connections τ γ) (who : Actor τ) (position : Position γ) : Connections τ γ :=
  { s with position := Function.update s.position who position }

/-- The end of a method: the lock is released. -/
def leave (s : Connections τ γ) (who : Actor τ) (c : γ) : Connections τ γ :=
  { s.move who .outside with bio_lock_ := Function.update s.bio_lock_ c none }

/-- `data_handler_` is assigned. -/
def assign (s : Connections τ γ) (c : γ) (set : Bool) : Connections τ γ :=
  { s with data_handler_ := Function.update s.data_handler_ c set }

end Connections

/-- The actions of the worker's loop. -/
def OfLoop : Private.Action τ γ → Prop
  | .attach _ _ _ _ | .detach _ _ | .wake _ | .destroy => False
  | _ => True

/-- A step of the worker's loop, or of an actor in a method. -/
inductive Connections.Action (τ γ : Type*) where
  | loop (a : Private.Action τ γ)
  | enter (who : Actor τ) (method : LockedMethod) (connection : γ)
  | lock (who : Actor τ)
  | leave (who : Actor τ)
  | register (who : Actor τ)
  | clear (who : Actor τ)
  | wake (t : τ)

open Connections in
/-- The steps.  `fd_` are the descriptors of the connections.  The worker calls methods from its
callbacks only, and it leaves a callback outside of every method. -/
inductive Connections.Step (pipe : ℤ) (fd_ : γ → ℤ) :
    Connections τ γ → Connections.Action τ γ → Connections τ γ → Prop where
  | loop {s a handler} : OfLoop a → s.position .worker = .outside →
      Private.Step pipe s.handler a handler →
      Step pipe fd_ s (.loop a) { s with handler := handler }
  | enter {s who m c} : s.position who = .outside → (who = .worker → s.handler.worker.InCallback) →
      Step pipe fd_ s (.enter who m c) (s.move who (.entering m c))
  | lock {s who m c} : s.position who = .entering m c → s.bio_lock_ c = none →
      Step pipe fd_ s (.lock who)
        { s.move who (.inside m c) with bio_lock_ := Function.update s.bio_lock_ c (some who) }
  | leave {s who m c} : s.position who = .inside m c → m.Plain →
      Step pipe fd_ s (.leave who) (s.leave who c)
  -- `setNewDataHandler`, without a descriptor and with one
  | setThrows {s who c} : s.position who = .inside .setNewDataHandler c → fd_ c = -1 →
      Step pipe fd_ s (.register who) ((s.assign c true).leave who c)
  | set {s who c} : s.position who = .inside .setNewDataHandler c → fd_ c ≠ -1 →
      s.handler.MayCall who → fd_ c ≠ pipe →
      Step pipe fd_ s (.register who)
        { (s.assign c true).leave who c with handler := s.handler.attach (fd_ c) c (some c) }
  -- `clearNewDataHandler`, with nothing to clear, without a descriptor, on the worker's thread or
  -- without an entry, and with a wait
  | clearNone {s who c} : s.position who = .inside .clearNewDataHandler c →
      s.data_handler_ c = false ∨ fd_ c = -1 → Step pipe fd_ s (.clear who) (s.leave who c)
  | clearAtOnce {s who c} : s.position who = .inside .clearNewDataHandler c →
      s.data_handler_ c = true → fd_ c ≠ -1 → s.handler.MayCall who →
      (who = .worker ∨ findFD (fd_ c) s.handler.callbacks_ = none) →
      Step pipe fd_ s (.clear who)
        { (s.assign c false).leave who c with handler := s.handler.detach who (fd_ c) }
  | clear {s t c e} : s.position (.thread t) = .inside .clearNewDataHandler c →
      s.data_handler_ c = true → fd_ c ≠ -1 → s.handler.MayCall (.thread t) →
      findFD (fd_ c) s.handler.callbacks_ = some e →
      Step pipe fd_ s (.clear (.thread t))
        { s.move (.thread t) (.detaching c) with handler := s.handler.detach (.thread t) (fd_ c) }
  | wait {s t c e} : s.position (.thread t) = .detaching c →
      s.handler.threads t = .waiting e.node → e ∈ s.handler.callbacks_ →
      ¬ s.handler.worker.HoldsLock → e.state ≠ .detached__ →
      Step pipe fd_ s (.wake t) { s with handler := s.handler.wake t e }
  | wake {s t c e} : s.position (.thread t) = .detaching c →
      s.handler.threads t = .waiting e.node → e ∈ s.handler.callbacks_ →
      ¬ s.handler.worker.HoldsLock → e.state = .detached__ →
      Step pipe fd_ s (.wake t)
        { (s.assign c false).leave (.thread t) c with handler := s.handler.wake t e }

/-! ### The clash -/

/-- The worker is in the data callback of the connection. -/
def InDataCallback (w : Worker γ) (c : γ) : Prop :=
  ∃ fds curr calls removals, w = .running fds curr calls removals ∧ curr.callback = c

/-- A thread waits in `detach` with the lock of the connection, and the worker waits for the lock in
the data callback of the connection. -/
def Clash (s : Connections τ γ) : Prop :=
  ∃ t c m, s.position (.thread t) = .detaching c ∧ s.bio_lock_ c = some (.thread t) ∧
    InDataCallback s.handler.worker c ∧ s.position .worker = .entering m c

/-- Where another thread clears the handler of the connection, it waits: there is a handler, with a
descriptor and an entry. -/
def Waits (fd_ : γ → ℤ) (s : Connections τ γ) (c : γ) : Prop :=
  s.data_handler_ c = true ∧ fd_ c ≠ -1 ∧ fd_ c ∈ descriptors s.handler.callbacks_

/-- A callback is started while no thread is clearing the handler, and a thread begins to wait in
`clearNewDataHandler` while the callback of the connection is not running. -/
def Apart (fd_ : γ → ℤ) (s : Connections τ γ) : Connections.Action τ γ → Prop
  | .loop .call => ∀ fds curr calls removals,
      s.handler.worker = .calling fds curr calls removals →
        ∀ t, s.position (.thread t) ≠ .detaching curr.callback
  | .clear (.thread t) => ∀ c, s.position (.thread t) = .inside .clearNewDataHandler c →
      Waits fd_ s c → ¬ InDataCallback s.handler.worker c
  | _ => True

/-- A connection whose callback is running is not being cleared. -/
def Separate (s : Connections τ γ) : Prop :=
  ∀ t c, s.position (.thread t) = .detaching c → ¬ InDataCallback s.handler.worker c

/-- Whoever is inside a method holds its lock. -/
def Held (s : Connections τ γ) : Prop :=
  ∀ who c, (∃ m, s.position who = .inside m c) ∨ s.position who = .detaching c →
    s.bio_lock_ c = some who

/-! ### The steps -/

variable {pipe : ℤ} {fd_ : γ → ℤ} {s s' : Connections τ γ}

omit [DecidableEq γ] in
@[simp]
lemma worker_detach (h : State τ γ) (who : Actor τ) (fd : ℤ) :
    (h.detach who fd).worker = h.worker := by
  obtain hd | ⟨e, -, ⟨-, hd⟩ | ⟨t, -, hd⟩⟩ := h.detach_cases who fd <;> rw [hd] <;> rfl

omit [DecidableEq γ] in
@[simp]
lemma worker_wake (h : State τ γ) (t : τ) (e : Callback_ γ) : (h.wake t e).worker = h.worker := by
  rw [State.wake]
  split_ifs <;> rfl

omit [DecidableEq γ] in
/-- The worker gets into a data callback by calling it. -/
lemma calling_of_running {h h' : State τ γ} {a : Private.Action τ γ} {c : γ} (ha : OfLoop a)
    (hstep : Private.Step pipe h a h') (hc : InDataCallback h'.worker c) :
    a = .call ∧ ∃ fds curr calls removals,
      h.worker = .calling fds curr calls removals ∧ curr.callback = c := by
  obtain ⟨fds, curr, calls, removals, hw, rfl⟩ := hc
  have hdispatch : ∀ fds' calls' removals', Worker.dispatch pipe fds' calls' removals'
      ≠ .running fds curr calls removals := by
    intro fds' calls' removals'
    cases calls' with
    | nil => rw [Worker.dispatch, Worker.leave]; split_ifs <;> simp
    | cons c cs => simp [Worker.dispatch]
  cases hstep with
  | call hcalling =>
      obtain ⟨-, rfl, -, -⟩ := Worker.running.inj hw
      exact ⟨rfl, _, _, _, _, hcalling, rfl⟩
  | attach | detach | wake | destroy => exact absurd ha not_false
  | test => exact absurd hw (hdispatch _ [] _)
  | collect | callReturns | callThrows => exact absurd hw (hdispatch _ _ _)
  | @remove fd removals _ =>
      obtain hr | ⟨e, -, hr | ⟨g, hr⟩⟩ := h.remove_cases fd removals <;> simp [hr] at hw
  | _ => cases hw

omit [DecidableEq γ] in
/-- A thread that is in `detach` after an actor has moved elsewhere was there before. -/
lemma detaching_of_move {who : Actor τ} {p : Position γ} {t : τ} {c : γ} (hp : p ≠ .detaching c)
    (h : (s.move who p).position (.thread t) = .detaching c) :
    s.position (.thread t) = .detaching c := by
  rcases eq_or_ne (.thread t) who with rfl | hne
  · exact absurd ((Function.update_self ..).symm.trans h) hp
  · exact (Function.update_of_ne hne ..).symm.trans h

/-- One step that is apart keeps the callbacks and the clears apart. -/
lemma Separate.step {a : Connections.Action τ γ} (h : Separate s) (ha : Apart fd_ s a)
    (hstep : Connections.Step pipe fd_ s a s') : Separate s' := by
  intro t c ht hc
  cases hstep with
  | loop hloop _ hstep =>
      obtain ⟨rfl, fds, curr, calls, removals, hw, rfl⟩ := calling_of_running hloop hstep hc
      exact ha fds curr calls removals hw t ht
  | enter => exact h t c (detaching_of_move (by simp) ht) hc
  | lock => exact h t c (detaching_of_move (by simp) ht) hc
  | leave => exact h t c (detaching_of_move (by simp) ht) hc
  | setThrows => exact h t c (detaching_of_move (by simp) ht) hc
  | set => exact h t c (detaching_of_move (by simp) ht) hc
  | clearNone => exact h t c (detaching_of_move (by simp) ht) hc
  | clearAtOnce =>
      refine h t c (detaching_of_move (by simp) ht) ?_
      simpa using hc
  | @clear t' c' e hinside hset hopen _ hfind =>
      have hc' : InDataCallback s.handler.worker c := by simpa using hc
      rcases eq_or_ne t t' with rfl | hne
      · obtain rfl : c' = c := by simpa [Connections.move] using ht
        obtain ⟨he, hfd⟩ := mem_of_findFD hfind
        have hthere : fd_ c' ∈ descriptors s.handler.callbacks_ := hfd ▸ List.mem_map_of_mem he
        exact ha c' hinside ⟨hset, hopen, hthere⟩ hc'
      · have hother : s.position (.thread t) = .detaching c :=
          (Function.update_of_ne (by simpa using hne) ..).symm.trans ht
        exact h t c hother hc'
  | wait => exact h t c ht (by simpa using hc)
  | wake =>
      refine h t c (detaching_of_move (by simp) ht) ?_
      simpa using hc

/-- **No clash** is reached by a run whose steps are apart. -/
theorem no_clash {as : List (Connections.Action τ γ)}
    (h : EveryStep (Connections.Step pipe fd_) (Apart fd_) (Connections.init : Connections τ γ)
      as) :
    Always (Connections.Step pipe fd_) (fun s => ¬ Clash s)
      (Connections.init : Connections τ γ) as :=
  (always_of_everyStep (fun _ _ _ hs ha hstep => hs.step ha hstep)
    (show Separate Connections.init by simp [Separate, Connections.init]) h).mono
    fun _ hs ⟨t, c, _, ht, _, hc, _⟩ => hs t c ht hc

/-! ### The condition is needed -/

/-- The end of a method. -/
lemma Held.leave (h : Held s) {who : Actor τ} {c : γ} (hc : s.bio_lock_ c = some who) :
    Held (s.leave who c) := by
  intro who' c' h'
  have hne : who' ≠ who := by
    rintro rfl
    simp [Connections.leave, Connections.move] at h'
  have hlock : s.bio_lock_ c' = some who' :=
    h who' c' (by simpa [Connections.leave, Connections.move, hne] using h')
  have hcc : c' ≠ c := by
    rintro rfl
    exact hne (Option.some.inj (hlock.symm.trans hc))
  simpa [Connections.leave, Connections.move, hcc] using hlock

/-- Every step keeps the locks with those who are inside. -/
lemma Held.step {a : Connections.Action τ γ} (h : Held s)
    (hstep : Connections.Step pipe fd_ s a s') : Held s' := by
  cases hstep with
  | loop => exact h
  | @enter who m c _ _ =>
      intro who' c' h'
      rcases eq_or_ne who' who with rfl | hne
      · simp [Connections.move] at h'
      · exact h who' c' (by simpa [Connections.move, hne] using h')
  | @lock who m c hpos hfree =>
      intro who' c' h'
      rcases eq_or_ne who' who with rfl | hne
      · have hcc : c = c' := by simpa [Connections.move] using h'
        simp [hcc]
      · have hlock := h who' c' (by simpa [Connections.move, hne] using h')
        have hcc : c' ≠ c := by
          rintro rfl
          exact absurd (hfree.symm.trans hlock) (by simp)
        simpa [hcc] using hlock
  | leave hpos => exact h.leave (h _ _ (.inl ⟨_, hpos⟩))
  | setThrows hpos => exact h.leave (h _ _ (.inl ⟨_, hpos⟩))
  | set hpos => exact h.leave (h _ _ (.inl ⟨_, hpos⟩))
  | clearNone hpos => exact h.leave (h _ _ (.inl ⟨_, hpos⟩))
  | clearAtOnce hpos => exact h.leave (h _ _ (.inl ⟨_, hpos⟩))
  | @clear t c e hpos _ _ _ _ =>
      intro who' c' h'
      rcases eq_or_ne who' (.thread t) with rfl | hne
      · obtain rfl : c = c' := by simpa [Connections.move] using h'
        exact h _ _ (.inl ⟨_, hpos⟩)
      · exact h who' c' (by simpa [Connections.move, hne] using h')
  | wait => exact h
  | wake hpos => exact h.leave (h _ _ (.inr hpos))

/-- In every state of every run. -/
lemma held {as : List (Connections.Action τ γ)}
    (h : RunTo (Connections.Step pipe fd_) (Connections.init : Connections τ γ) as s) : Held s :=
  h.invariant (fun _ _ _ hs hstep => hs.step hstep) (by simp [Held, Connections.init])

/-- A data callback that enters a method of its connection, while a thread waits in `detach` for
it. -/
lemma exists_clash (hs : Held s) {t : τ} {c : γ} (ht : s.position (.thread t) = .detaching c)
    (hc : InDataCallback s.handler.worker c) (hout : s.position .worker = .outside)
    (m : LockedMethod) :
    ∃ s', Connections.Step pipe fd_ s (.enter .worker m c) s' ∧ Clash s' := by
  refine ⟨_, .enter hout fun _ => ?_, t, c, m, ?_, hs _ _ (.inr ht), hc, ?_⟩
  · obtain ⟨fds, curr, calls, removals, hw, -⟩ := hc
    simp [hw, Worker.InCallback]
  · simpa [Connections.move] using ht
  · simp [Connections.move]

/-- **A callback that is started while its handler is being cleared** clashes as soon as it enters a
method of its connection. -/
theorem clash_of_call {as : List (Connections.Action τ γ)}
    (hrun : RunTo (Connections.Step pipe fd_) (Connections.init : Connections τ γ) as s) {t : τ}
    {fds : Finset ℤ} {curr : CallbackToCall γ} {calls : List (CallbackToCall γ)}
    {removals : List ℤ}
    (hw : s.handler.worker = .calling fds curr calls removals)
    (ht : s.position (.thread t) = .detaching curr.callback)
    (hstep : Connections.Step pipe fd_ s (.loop .call) s') (m : LockedMethod) :
    ∃ s'', Connections.Step pipe fd_ s' (.enter .worker m curr.callback) s'' ∧ Clash s'' := by
  have hs' := (held hrun).step hstep
  cases hstep with
  | loop _ hout hstep =>
      cases hstep with
      | call hw' =>
          obtain ⟨-, rfl, -, -⟩ := Worker.calling.inj (hw.symm.trans hw')
          exact exists_clash hs' ht ⟨_, _, _, _, rfl, rfl⟩ hout m

/-- **A handler that is cleared while its callback runs** clashes as soon as the callback enters a
method of its connection. -/
theorem clash_of_clear {as : List (Connections.Action τ γ)}
    (hrun : RunTo (Connections.Step pipe fd_) (Connections.init : Connections τ γ) as s) {t : τ}
    {c : γ} (hc : InDataCallback s.handler.worker c) (hout : s.position .worker = .outside)
    (hstep : Connections.Step pipe fd_ s (.clear (.thread t)) s')
    (ht : s'.position (.thread t) = .detaching c) (m : LockedMethod) :
    ∃ s'', Connections.Step pipe fd_ s' (.enter .worker m c) s'' ∧ Clash s'' := by
  have hs' := (held hrun).step hstep
  have hcalls : InDataCallback s'.handler.worker c ∧ s'.position .worker = .outside := by
    cases hstep with
    | clearNone => simp [Connections.leave, Connections.move] at ht
    | clearAtOnce => simp [Connections.leave, Connections.move] at ht
    | clear => exact ⟨by simpa using hc, by simpa [Connections.move] using hout⟩
  exact exists_clash hs' ht hcalls.1 hcalls.2 m

/-- A handler is set, data are delivered to it, and it is cleared when its callback has returned. -/
def deliveredAndCleared : List (Connections.Action Unit Unit) :=
  [.enter (.thread ()) .setNewDataHandler (), .lock (.thread ()), .register (.thread ()),
    .loop .compute, .loop (.select {3, 5}), .loop .collect, .loop .call, .enter .worker .read (),
    .lock .worker, .leave .worker, .loop .callReturns, .loop (.drain 1),
    .enter (.thread ()) .clearNewDataHandler (), .lock (.thread ()), .clear (.thread ()),
    .loop .compute, .wake ()]

theorem no_clash_delivered :
    Always (Connections.Step 3 fun _ => 5) (fun s => ¬ Clash s)
      (Connections.init : Connections Unit Unit) deliveredAndCleared ∧
    ∃ s, RunTo (Connections.Step 3 fun _ => 5) Connections.init deliveredAndCleared s ∧
      s.handler.log = [.called 0, .detached (.thread ()) 0] ∧ s.handler.callbacks_ = [] := by
  refine ⟨?_, _, ⟨_, .enter rfl (by simp), _, .lock rfl rfl, _,
    .set rfl (by decide) ⟨rfl, not_false⟩ (by decide), _, .loop trivial rfl (.compute rfl rfl), _,
    .loop trivial rfl (.select rfl (by decide) (by decide) (by decide)), _,
    .loop trivial rfl (.collect rfl), _, .loop trivial rfl (.call rfl), _,
    .enter rfl (fun _ => trivial), _, .lock rfl rfl, _, .leave rfl trivial, _,
    .loop trivial rfl (.callReturns rfl), _,
    .loop trivial rfl (.drain rfl one_pos (by decide) (by decide)), _, .enter rfl (by simp), _,
    .lock rfl rfl, _, .clear rfl rfl (by decide) ⟨rfl, not_false⟩ rfl, _,
    .loop trivial rfl (.compute rfl rfl), _,
    .wake (e := ⟨0, 5, (), some (), .detached__⟩) rfl rfl (by decide) not_false rfl, rfl⟩, rfl, rfl⟩
  refine no_clash fun _ _ => ⟨trivial, fun _ _ => ⟨trivial, fun s hregister => ⟨trivial,
    fun s₁ hcompute => ⟨trivial, fun s₂ hselect => ⟨trivial, fun s₃ hcollect => ⟨trivial,
    fun _ _ => ⟨?_, fun _ _ => ⟨trivial, fun _ _ => ⟨trivial, fun _ _ => ⟨trivial,
    fun _ _ => ⟨trivial, fun s₄ hdrain => ⟨trivial, fun s₅ henter => ⟨trivial,
    fun s₆ hlock => ⟨trivial, fun _ _ => ⟨?_, fun _ _ => ⟨trivial,
    fun _ _ => ⟨trivial, trivial⟩⟩⟩⟩⟩⟩⟩⟩⟩⟩⟩⟩⟩⟩⟩⟩⟩
  -- the thread is outside behind `setNewDataHandler`, and the loop leaves it there
  · have hout : s.position (.thread ()) = .outside := by
      cases hregister <;> simp [Connections.leave, Connections.move]
    have hloop : s₃.position = s.position := by
      cases hcompute
      cases hselect
      cases hcollect
      rfl
    intro _ _ _ _ _ _ ht
    rw [hloop, hout] at ht
    cases ht
  -- the worker is at the head of its loop behind the callback
  · have htop : s₄.handler.worker = .top := by
      cases hdrain with
      | loop _ _ hstep => cases hstep; rfl
    have hsame : s₆.handler = s₄.handler := by
      cases henter
      cases hlock
      rfl
    rintro c - - ⟨fds, curr, calls, removals, hw, -⟩
    rw [hsame, htop] at hw
    cases hw

/-- **Data that arrives while the handler is cleared**: a thread waits in `detach` with the lock,
the worker finds the descriptor ready, calls the data callback and waits for the lock. -/
theorem clash_reached :
    ¬ Always (Connections.Step 3 fun _ => 5) (fun s => ¬ Clash s)
      (Connections.init : Connections Unit Unit)
      [.enter (.thread ()) .setNewDataHandler (), .lock (.thread ()), .register (.thread ()),
        .loop .compute, .enter (.thread ()) .clearNewDataHandler (), .lock (.thread ()),
        .clear (.thread ()), .loop (.select {3, 5}), .loop .collect, .loop .call,
        .enter .worker .read ()] := by
  intro h
  obtain ⟨s, hrun, hs⟩ : ∃ s, RunTo (Connections.Step 3 fun _ => 5)
      (Connections.init : Connections Unit Unit)
      [.enter (.thread ()) .setNewDataHandler (), .lock (.thread ()), .register (.thread ()),
        .loop .compute, .enter (.thread ()) .clearNewDataHandler (), .lock (.thread ()),
        .clear (.thread ()), .loop (.select {3, 5}), .loop .collect, .loop .call,
        .enter .worker .read ()] s ∧ Clash s := by
    refine ⟨_, ⟨_, .enter rfl (by simp), _, .lock rfl rfl, _,
      .set rfl (by decide) ⟨rfl, not_false⟩ (by decide), _, .loop trivial rfl (.compute rfl rfl), _,
      .enter rfl (by simp), _, .lock rfl rfl, _, .clear rfl rfl (by decide) ⟨rfl, not_false⟩ rfl, _,
      .loop trivial rfl (.select rfl (by decide) (by decide) (by decide)), _,
      .loop trivial rfl (.collect rfl), _, .loop trivial rfl (.call rfl), _,
      .enter rfl (fun _ => trivial), rfl⟩, ?_⟩
    exact ⟨(), (), .read, rfl, rfl, ⟨_, _, _, _, rfl, rfl⟩, rfl⟩
  exact h.last hrun hs

end Arachnida.Spin
