import Arachnida.Spin.Listener
import Arachnida.Spin.Private.Barrier

/-!
Who keeps a connection of the server alive, and who calls it: the registry, whose callbacks hold a
plain pointer to their connection, and the shared pointers in `connections_`, in `main` and in
`Connection::onDataReady_`.

* `Lifetimes`: the handler, whose callbacks are those of the connections and of the listeners, and
  the connections with their owners.
* `Step`: the callbacks, the error callback `ErrorHandler::operator()` and the loop in `main`.  The
  last owner destroys the connection, and the destructor detaches its descriptor.
* `Fresh`: a connection is accepted with a descriptor that no entry has.
* `Sound`: the invariant.
* `connections_outlive_callbacks`: **no callback is called on a connection that is destroyed**, and
  a connection is destroyed when it has no owner, in every run that is fresh.
* `fresh_of_not_closed`: runs without `Connection::close` are fresh.
* `dangling_behind_close`: behind a `close` the worker can call a connection that is destroyed.

The kernel gives a new socket a number that no open one has.  Connections are told apart although
the memory of one may be used for another later.
-/

namespace Arachnida.Mesothelae

open Library Spin Private

/-- The life of a connection; a destructor that waits in `detach` is not at its end. -/
inductive Stage where
  | unborn | alive | destroying | destroyed
  deriving DecidableEq, Repr

/-- The loop in `main`: without a connection, with `connection`, or in the destructor of it. -/
inductive Lifetimes.Main (γ : Type*) where
  | idle
  | holding (c : γ)
  | destroying (c : γ)
  deriving DecidableEq, Repr

/-- The server.  A callback is that of a connection, or of a listener.  `listening` are the
descriptors of the listeners, `shared` is the pointer that a running `onDataReady_` holds, and
`begun` is whether the body of the callback that is running has begun. -/
structure Lifetimes (γ : Type*) where
  handler : State Unit (Option γ)
  listening : List ℤ
  stage : γ → Stage
  bio_ : γ → Bool
  connections_ : List γ
  main : Lifetimes.Main γ
  shared : Option γ
  begun : Bool

variable {γ : Type*}

namespace Lifetimes

/-- Nothing is listening. -/
def init : Lifetimes γ :=
  ⟨State.init, [], fun _ => .unborn, fun _ => false, [], .idle, none, false⟩

/-- The connection has an owner. -/
def Held (s : Lifetimes γ) (c : γ) : Prop :=
  c ∈ s.connections_ ∨ s.main = .holding c ∨ s.shared = some c

/-- The connection is there, if only for its destructor. -/
def Exists (s : Lifetimes γ) (c : γ) : Prop := s.stage c = .alive ∨ s.stage c = .destroying

variable [DecidableEq γ]

/-- The end of the destructor; it lets go of the BIO. -/
def destroy (s : Lifetimes γ) (c : γ) (handler : State Unit (Option γ)) : Lifetimes γ :=
  { s with
    handler := handler
    stage := Function.update s.stage c .destroyed
    bio_ := Function.update s.bio_ c false }

end Lifetimes

/-- The steps of the loop that are not in a callback; a callback returns behind its body, and when
it has let go of its connection. -/
def Quiet (s : Lifetimes γ) : Private.Action Unit (Option γ) → Prop
  | .attach _ _ _ _ | .detach _ _ | .wake _ | .destroy => False
  | .callReturns | .callThrows => s.begun = true ∧ s.shared = none
  | .errorReturns => s.begun = true
  | _ => True

/-- Whether the body of a callback has begun behind a step of the loop. -/
def begunBehind (begun : Bool) : Private.Action Unit (Option γ) → Bool
  | .call | .remove => false
  | _ => begun

/-- What can happen next. -/
inductive Lifetimes.Action (γ : Type*) where
  | loop (a : Private.Action Unit (Option γ))
  | listen (fd : ℤ)
  | accept (c : γ)
  | ignore
  | data
  | release
  | error
  | lock (c : γ)
  | close
  | letGo
  | wake

variable [DecidableEq γ]

open Lifetimes in
/-- The steps. -/
inductive Lifetimes.Step (pipe : ℤ) (fd_ : γ → ℤ) :
    Lifetimes γ → Lifetimes.Action γ → Lifetimes γ → Prop where
  | loop {s a handler} : Quiet s a → Private.Step pipe s.handler a handler →
      Step pipe fd_ s (.loop a) { s with handler := handler, begun := begunBehind s.begun a }
  -- `Listener::setNewConnectionHandler`
  | listen {s fd handler} : s.main = .idle → (∀ c, s.bio_ c = true → fd_ c ≠ fd) →
      Private.Step pipe s.handler (.attach (.thread ()) fd none none) handler →
      Step pipe fd_ s (.listen fd) { s with handler := handler, listening := fd :: s.listening }
  -- `Listener::onNewConnection_` with `HTTPConnectionHandler::handleNewConnection`, or without
  | accept {s c handler} : s.handler.worker.Calls none → s.begun = false →
      s.stage c = .unborn → (∀ c', s.bio_ c' = true → fd_ c' ≠ fd_ c) → fd_ c ∉ s.listening →
      Private.Step pipe s.handler (.attach .worker (fd_ c) (some c) (some (some c))) handler →
      Step pipe fd_ s (.accept c)
        { s with
          handler := handler
          stage := Function.update s.stage c .alive
          bio_ := Function.update s.bio_ c true
          connections_ := s.connections_ ++ [c]
          begun := true }
  | ignore {s} : s.handler.worker.Calls none → s.begun = false →
      Step pipe fd_ s .ignore { s with begun := true }
  -- `Connection::onDataReady_`: `shared_from_this` throws if the connection has no owner
  | data {s c} : s.handler.worker.Calls (some c) → s.begun = false → s.Held c →
      Step pipe fd_ s .data { s with begun := true, shared := some c }
  | dataThrows {s c} : s.handler.worker.Calls (some c) → s.begun = false → ¬ s.Held c →
      Step pipe fd_ s .data { s with begun := true }
  | release {s c} : s.shared = some c → Held { s with shared := none } c →
      Step pipe fd_ s .release { s with shared := none }
  | releaseLast {s c handler} : s.shared = some c → ¬ Held { s with shared := none } c →
      Private.Step pipe s.handler (.detach .worker (fd_ c)) handler →
      Step pipe fd_ s .release (destroy { s with shared := none } c handler)
  -- `ErrorHandler::operator()`: the connection is not found, it has another owner, or it has none
  | errorGone {s n c removals} : s.handler.worker = .reporting n (some c) removals →
      s.begun = false → c ∉ s.connections_ → Step pipe fd_ s .error { s with begun := true }
  | error {s n c removals} : s.handler.worker = .reporting n (some c) removals → s.begun = false →
      c ∈ s.connections_ → Held { s with connections_ := s.connections_.erase c } c →
      Step pipe fd_ s .error { s with connections_ := s.connections_.erase c, begun := true }
  | errorLast {s n c removals handler} : s.handler.worker = .reporting n (some c) removals →
      s.begun = false → c ∈ s.connections_ →
      ¬ Held { s with connections_ := s.connections_.erase c } c →
      Private.Step pipe s.handler (.detach .worker (fd_ c)) handler →
      Step pipe fd_ s .error
        (destroy { s with connections_ := s.connections_.erase c, begun := true } c handler)
  -- `main`: `request->connection_.lock()`, `connection->close()`, and the end of `connection`
  | lock {s c} : s.main = .idle → s.Held c →
      Step pipe fd_ s (.lock c) { s with main := .holding c }
  | close {s c} : s.main = .holding c →
      Step pipe fd_ s .close { s with bio_ := Function.update s.bio_ c false }
  | letGo {s c} : s.main = .holding c → Held { s with main := .idle } c →
      Step pipe fd_ s .letGo { s with main := .idle }
  | letGoAtOnce {s c handler} : s.main = .holding c → ¬ Held { s with main := .idle } c →
      findFD (fd_ c) s.handler.callbacks_ = none →
      Private.Step pipe s.handler (.detach (.thread ()) (fd_ c)) handler →
      Step pipe fd_ s .letGo (destroy { s with main := .idle } c handler)
  | letGoLast {s c e handler} : s.main = .holding c → ¬ Held { s with main := .idle } c →
      findFD (fd_ c) s.handler.callbacks_ = some e →
      Private.Step pipe s.handler (.detach (.thread ()) (fd_ c)) handler →
      Step pipe fd_ s .letGo
        { s with
          handler := handler
          stage := Function.update s.stage c .destroying
          main := .destroying c }
  -- the wait of the destructor
  | wait {s c handler} : s.main = .destroying c → Private.Step pipe s.handler (.wake ()) handler →
      handler.threads () ≠ .free → Step pipe fd_ s .wake { s with handler := handler }
  | wake {s c handler} : s.main = .destroying c → Private.Step pipe s.handler (.wake ()) handler →
      handler.threads () = .free →
      Step pipe fd_ s .wake (destroy { s with main := .idle } c handler)

/-- A connection is accepted with a descriptor that is not registered, and a listener begins with
one that no connection is registered with. -/
def Fresh (fd_ : γ → ℤ) (s : Lifetimes γ) : Lifetimes.Action γ → Prop
  | .accept c => fd_ c ∉ descriptors s.handler.callbacks_
  | .listen fd =>
      ∀ e ∈ s.handler.callbacks_, e.file_descriptor = fd → e.on_select_callback = none
  | _ => True

/-! ### The registry and the round of the worker -/

omit [DecidableEq γ]

/-- The entry that a callback was copied from is there, and is not detached. -/
def Callable (l : List (Callback_ (Option γ))) (k : CallbackToCall (Option γ)) : Prop :=
  ∃ e ∈ l, e.node = k.node ∧ e.on_select_callback = k.callback ∧ e.state ≠ .detached__

/-- The callbacks that the worker has still to call behind the one it is in. -/
def pendingCalls : Worker (Option γ) → List (CallbackToCall (Option γ))
  | .calling _ curr calls _ => curr :: calls
  | .running _ _ calls _ => calls
  | _ => []

/-- The entries of connections, in the round of the worker: those it selects on are not detached,
and those it is going to call are there.  `fresh` says that the running callback has its connection
still to use. -/
structure Due (fresh : Prop) (l : List (Callback_ (Option γ))) (w : Worker (Option γ)) : Prop where
  watched : ∀ e ∈ l, e.on_select_callback ≠ none → e.file_descriptor ∈ w.watched →
    e.state ≠ .detached__
  nodup : w.due.Nodup
  pending : ∀ k ∈ pendingCalls w, k.callback ≠ none → Callable l k
  current : fresh → ∀ fds curr calls removals, w = .running fds curr calls removals →
    curr.callback ≠ none → Callable l curr

variable {fresh fresh' : Prop} {l l' : List (Callback_ (Option γ))} {w w' : Worker (Option γ)}

@[simp]
lemma pendingCalls_leave {pipe : ℤ} (fds : Finset ℤ) (removals : List ℤ) :
    pendingCalls (Worker.leave pipe fds removals : Worker (Option γ)) = [] := by
  rw [Worker.leave]
  split_ifs <;> rfl

@[simp]
lemma pendingCalls_dispatch {pipe : ℤ} (fds : Finset ℤ) (calls : List (CallbackToCall (Option γ)))
    (removals : List ℤ) : pendingCalls (Worker.dispatch pipe fds calls removals) = calls := by
  cases calls with
  | nil => exact pendingCalls_leave fds removals
  | cons c cs => rfl

lemma dispatch_ne_running {pipe : ℤ} (fds fds' : Finset ℤ) (curr : CallbackToCall (Option γ))
    (calls calls' : List (CallbackToCall (Option γ))) (removals removals' : List ℤ) :
    Worker.dispatch pipe fds calls removals ≠ .running fds' curr calls' removals' := by
  cases calls with
  | nil =>
      rw [Worker.dispatch, Worker.leave]
      split_ifs <;> simp
  | cons c cs => simp [Worker.dispatch]

/-- The worker is at a point with nothing to call and nothing selected. -/
lemma Due.idle (hwatched : w.watched = ∅) (hdue : w.due.Nodup) (hpending : pendingCalls w = [])
    (hrunning : ∀ fds curr calls removals, w ≠ .running fds curr calls removals) :
    Due fresh l w where
  watched := fun _ _ _ hmem => absurd (hwatched ▸ hmem) (Finset.notMem_empty _)
  nodup := hdue
  pending := fun _ hk => absurd (hpending ▸ hk) (List.not_mem_nil)
  current := fun _ _ _ _ _ hw => absurd hw (hrunning _ _ _ _)

/-- The list changes, and no entry is detached that was not, unless it was one of a listener. -/
lemma Due.of_list (h : Due fresh l w) (hfresh : fresh' → fresh)
    (hnew : ∀ e ∈ l', e.on_select_callback ≠ none → e.state = .detached__ → e ∈ l)
    (hold : ∀ k, (k ∈ pendingCalls w ∨
      fresh' ∧ ∃ fds calls removals, w = .running fds k calls removals) →
        k.callback ≠ none → Callable l k → Callable l' k) : Due fresh' l' w where
  watched := fun e he hf hfd hstate => h.watched e (hnew e he hf hstate) hf hfd hstate
  nodup := h.nodup
  pending := fun k hk hf => hold k (.inl hk) hf (h.pending k hk hf)
  current := fun hfr fds curr calls removals hw hf =>
    hold curr (.inr ⟨hfr, fds, calls, removals, hw⟩) hf
      (h.current (hfresh hfr) fds curr calls removals hw hf)

lemma Callable.setState {k : CallbackToCall (Option γ)} (h : Callable l k) (n : ℕ) :
    Callable (Private.setState n .pending_detachment__ l) k := by
  obtain ⟨e, he, hn, hf, hstate⟩ := h
  refine ⟨_, List.mem_map_of_mem he, ?_⟩
  split_ifs
  · exact ⟨hn, hf, by simp⟩
  · exact ⟨hn, hf, hstate⟩

lemma Due.mono (h : Due fresh l w) (hfresh : fresh' → fresh) : Due fresh' l w :=
  h.of_list hfresh (fun _ he _ _ => he) fun _ _ _ hk => hk

/-- An entry is marked. -/
lemma Due.setState (h : Due fresh l w) (n : ℕ) :
    Due fresh (Private.setState n .pending_detachment__ l) w := by
  refine h.of_list id (fun e' he' _ hstate => ?_) fun k _ _ hk => hk.setState n
  obtain ⟨e, he, rfl⟩ := List.mem_map.mp he'
  split_ifs at hstate ⊢ with hn
  exact he

/-- A new entry. -/
lemma Due.append (h : Due fresh l w) {e : Callback_ (Option γ)} (he : e.state ≠ .detached__) :
    Due fresh (l ++ [e]) w := by
  refine h.of_list id (fun e' he' _ hstate => ?_) fun k _ _ hk => ?_
  · rcases List.mem_append.mp he' with he' | he'
    · exact he'
    · exact absurd ((List.mem_singleton.mp he') ▸ hstate) he
  · obtain ⟨e₀, he₀, hk⟩ := hk
    exact ⟨e₀, List.mem_append_left _ he₀, hk⟩

/-- An entry goes whose callback is not going to be called. -/
lemma Due.eraseNode (h : Due fresh l w) (hfresh : fresh' → fresh) {n : ℕ}
    (hn : ∀ k, (k ∈ pendingCalls w ∨
      fresh' ∧ ∃ fds calls removals, w = .running fds k calls removals) →
        k.callback ≠ none → k.node ≠ n) : Due fresh' (eraseNode n l) w := by
  refine h.of_list hfresh (fun e he _ _ => (mem_eraseNode.mp he).1) fun k hk hf hcallable => ?_
  obtain ⟨e, he, hnode, hrest⟩ := hcallable
  exact ⟨e, mem_eraseNode.mpr ⟨he, fun h' => hn k hk hf (hnode.symm.trans h')⟩, hnode, hrest⟩

/-- The next callback, or the end of the round. -/
lemma Due.next {pipe : ℤ} {fds : Finset ℤ} {curr : CallbackToCall (Option γ)}
    {calls : List (CallbackToCall (Option γ))} {removals removals' : List ℤ}
    (h : Due fresh l (.running fds curr calls removals)) :
    Due fresh' l (Worker.dispatch pipe fds calls removals') where
  watched := fun _ _ _ hmem => by simp at hmem
  nodup := by
    rw [Worker.due_dispatch]
    exact (List.nodup_cons.mp h.nodup).2
  pending := by
    rw [pendingCalls_dispatch]
    exact h.pending
  current := fun _ _ _ _ _ hw => absurd hw (dispatch_ne_running _ _ _ _ _ _ _)

/-- The copies that the worker makes. -/
lemma Due.collect {pipe : ℤ} {fds : Finset ℤ} (hnodes : (nodes l).Nodup)
    (h : Due fresh l (.reported fds)) :
    Due fresh' l (Worker.dispatch pipe fds (callbacksToCall fds l) []) where
  watched := fun _ _ _ hmem => by simp at hmem
  nodup := by
    rw [Worker.due_dispatch, callbacksToCall, List.map_map]
    exact hnodes.sublist (List.filter_sublist.map _)
  pending := by
    rw [pendingCalls_dispatch]
    intro k hk hf
    obtain ⟨e, he, hfd, rfl⟩ := mem_callbacksToCall hk
    exact ⟨e, he, rfl, rfl, h.watched e he hf hfd⟩
  current := fun _ _ _ _ _ hw => absurd hw (dispatch_ne_running _ _ _ _ _ _ _)

/-- Every entry of the one list was in the other one, but for its state. -/
def Came (l' l : List (Callback_ (Option γ))) : Prop :=
  ∀ e' ∈ l', ∃ e ∈ l, e.node = e'.node ∧ e.file_descriptor = e'.file_descriptor ∧
    e.on_select_callback = e'.on_select_callback

/-- A step that does not attach adds no entry. -/
lemma came_of_step {pipe : ℤ} {h h' : State Unit (Option γ)} {a : Private.Action Unit (Option γ)}
    (hstep : Private.Step pipe h a h') (ha : ∀ who fd f g, a ≠ .attach who fd f g) :
    Came h'.callbacks_ h.callbacks_ := by
  obtain ⟨-, hl | hl | ⟨n, hl⟩ | ⟨n, hl⟩⟩ | ⟨who, fd, f, g, hattach, -⟩ := hstep.list_cases
  · rw [hl]
    exact fun e he => ⟨e, he, rfl, rfl, rfl⟩
  · rw [hl]
    intro e' he'
    obtain ⟨e, he, rfl⟩ := List.mem_map.mp he'
    refine ⟨e, he, (computed_node e).symm, (computed_file_descriptor e).symm, ?_⟩
    rw [Callback_.computed]
    split_ifs <;> rfl
  · rw [hl]
    intro e' he'
    obtain ⟨e, he, rfl⟩ := List.mem_map.mp he'
    refine ⟨e, he, ?_⟩
    split_ifs <;> exact ⟨rfl, rfl, rfl⟩
  · rw [hl]
    exact fun e he => ⟨e, (mem_eraseNode.mp he).1, rfl, rfl, rfl⟩
  · exact absurd hattach (ha who fd f g)

/-- The entries of the connections: each belongs to one that is there, and has its descriptor for
itself. -/
structure Entries (pipe : ℤ) (fd_ : γ → ℤ) (there : γ → Prop) (h : State Unit (Option γ)) : Prop
    where
  numbered : Numbered h
  entry : ∀ e ∈ h.callbacks_, ∀ c, e.on_select_callback = some c →
    e.file_descriptor = fd_ c ∧ e.file_descriptor ≠ pipe ∧ there c
  alone : ∀ e ∈ h.callbacks_, ∀ e' ∈ h.callbacks_, e.on_select_callback ≠ none →
    e'.file_descriptor = e.file_descriptor → e' = e

section Entries

variable {pipe : ℤ} {fd_ : γ → ℤ} {there there' : γ → Prop} {h h' : State Unit (Option γ)}

lemma Entries.of_came (hs : Entries pipe fd_ there h) (hnumbered : Numbered h')
    (hcame : Came h'.callbacks_ h.callbacks_)
    (hthere : ∀ e ∈ h'.callbacks_, ∀ c, e.on_select_callback = some c → there c → there' c) :
    Entries pipe fd_ there' h' where
  numbered := hnumbered
  entry := by
    intro e' he' c hc
    obtain ⟨e, he, -, hfd, hf⟩ := hcame e' he'
    obtain ⟨hown, hpipe, hexists⟩ := hs.entry e he c (hf.trans hc)
    exact ⟨hfd ▸ hown, hfd ▸ hpipe, hthere e' he' c hc hexists⟩
  alone := by
    intro e₁' he₁' e₂' he₂' hf hfd
    obtain ⟨e₁, he₁, hn₁, hfd₁, hf₁⟩ := hcame e₁' he₁'
    obtain ⟨e₂, he₂, hn₂, hfd₂, -⟩ := hcame e₂' he₂'
    have heq : e₂ = e₁ :=
      hs.alone e₁ he₁ e₂ he₂ (hf₁ ▸ hf) (hfd₂.trans (hfd.trans hfd₁.symm))
    refine hnumbered.eq_of_node he₂' he₁' ?_
    rw [← hn₂, ← hn₁, heq]

/-- A step that does not attach. -/
lemma Entries.step (hs : Entries pipe fd_ there h) {a : Private.Action Unit (Option γ)}
    (hstep : Private.Step pipe h a h') (ha : ∀ who fd f g, a ≠ .attach who fd f g) :
    Entries pipe fd_ there h' :=
  hs.of_came (hs.numbered.step hstep) (came_of_step hstep ha) fun _ _ _ _ => id

/-- A connection is attached. -/
lemma Entries.attach_connection (hs : Entries pipe fd_ there h) {c : γ} {g : Option (Option γ)}
    (hnew : fd_ c ∉ descriptors h.callbacks_) (hpipe : fd_ c ≠ pipe)
    (hthere : ∀ c, there c → there' c) (hc : there' c) :
    Entries pipe fd_ there' (h.attach (fd_ c) (some c) g) := by
  have hlist : (h.attach (fd_ c) (some c) g).callbacks_
      = h.callbacks_ ++ [⟨h.next_node, fd_ c, some c, g, .pending_attachment__⟩] := rfl
  have hother : ∀ e ∈ h.callbacks_, e.file_descriptor ≠ fd_ c :=
    fun e he hfd => hnew (hfd ▸ List.mem_map_of_mem he)
  refine ⟨hs.numbered.attach _ _ _, fun e he c' hf => ?_, fun e he e' he' hf hfd => ?_⟩
  · rcases List.mem_append.mp (hlist ▸ he) with he | he
    · obtain ⟨hown, hp, hexists⟩ := hs.entry e he c' hf
      exact ⟨hown, hp, hthere c' hexists⟩
    · obtain rfl := List.mem_singleton.mp he
      obtain rfl := Option.some.inj hf
      exact ⟨rfl, hpipe, hc⟩
  · rcases List.mem_append.mp (hlist ▸ he) with he | he <;>
      rcases List.mem_append.mp (hlist ▸ he') with he' | he'
    · exact hs.alone e he e' he' hf hfd
    · rw [List.mem_singleton.mp he'] at hfd
      exact absurd hfd.symm (hother e he)
    · rw [List.mem_singleton.mp he] at hfd
      exact absurd hfd (hother e' he')
    · rw [List.mem_singleton.mp he, List.mem_singleton.mp he']

/-- A listener is attached. -/
lemma Entries.attach_listener (hs : Entries pipe fd_ there h) {fd : ℤ}
    (hfd : ∀ e ∈ h.callbacks_, e.file_descriptor = fd → e.on_select_callback = none) :
    Entries pipe fd_ there (h.attach fd none none) := by
  have hlist : (h.attach fd none none).callbacks_
      = h.callbacks_ ++ [⟨h.next_node, fd, none, none, .pending_attachment__⟩] := rfl
  refine ⟨hs.numbered.attach _ _ _, fun e he c hf => ?_, fun e he e' he' hf hfd' => ?_⟩
  · rcases List.mem_append.mp (hlist ▸ he) with he | he
    · exact hs.entry e he c hf
    · rw [List.mem_singleton.mp he] at hf
      cases hf
  · rcases List.mem_append.mp (hlist ▸ he) with he | he
    · rcases List.mem_append.mp (hlist ▸ he') with he' | he'
      · exact hs.alone e he e' he' hf hfd'
      · rw [List.mem_singleton.mp he'] at hfd'
        exact absurd (hfd e he hfd'.symm) hf
    · rw [List.mem_singleton.mp he] at hf
      exact absurd rfl hf

/-- The entry of a connection is what its descriptor finds. -/
lemma Entries.node_of_find (hs : Entries pipe fd_ there h) {c : γ} {e e' : Callback_ (Option γ)}
    (hfind : findFD (fd_ c) h.callbacks_ = some e) (he' : e' ∈ h.callbacks_)
    (hf : e'.on_select_callback = some c) : e = e' := by
  obtain ⟨he, hfd⟩ := mem_of_findFD hfind
  exact hs.alone e' he' e he (by simp [hf]) (hfd.trans (hs.entry e' he' c hf).1.symm)

lemma Entries.find_of_mem (hs : Entries pipe fd_ there h) {c : γ} {e' : Callback_ (Option γ)}
    (he' : e' ∈ h.callbacks_) (hf : e'.on_select_callback = some c) :
    findFD (fd_ c) h.callbacks_ ≠ none := by
  intro hnone
  simpa [(hs.entry e' he' c hf).1] using List.find?_eq_none.mp hnone e' he'

/-- A `detach` by the worker. -/
lemma detach_worker_cases {fd : ℤ} (hstep : Private.Step pipe h (.detach .worker fd) h') :
    h'.worker = h.worker ∧ h'.threads = h.threads ∧
      ((findFD fd h.callbacks_ = none ∧ h'.callbacks_ = h.callbacks_) ∨
        ∃ e, findFD fd h.callbacks_ = some e ∧ h'.callbacks_ = eraseNode e.node h.callbacks_) := by
  cases hstep with
  | detach hmay =>
      rw [State.detach]
      cases hfind : findFD fd h.callbacks_ with
      | none => exact ⟨rfl, rfl, .inl ⟨rfl, rfl⟩⟩
      | some e => exact ⟨rfl, rfl, .inr ⟨e, rfl, eraseNode_setState _ _ _⟩⟩

/-- Behind it the connection has no entry. -/
lemma Entries.not_registered (hs : Entries pipe fd_ there h) {c : γ}
    (hstep : Private.Step pipe h (.detach .worker (fd_ c)) h') :
    ∀ e ∈ h'.callbacks_, e.on_select_callback ≠ some c := by
  intro e he hf
  obtain ⟨-, -, ⟨hnone, hl⟩ | ⟨e₀, hfind, hl⟩⟩ := detach_worker_cases hstep
  · exact hs.find_of_mem (hl ▸ he) hf hnone
  · obtain ⟨he, hne⟩ := mem_eraseNode.mp (hl ▸ he)
    exact hne (congrArg Callback_.node (hs.node_of_find hfind he hf)).symm

/-- The wait of a `detach` by `main`. -/
lemma wake_cases (hstep : Private.Step pipe h (.wake ()) h') :
    h'.worker = h.worker ∧ ∃ e ∈ h.callbacks_, h.threads () = .waiting e.node ∧
      ((e.state = .detached__ ∧ h'.threads () = .free ∧
          h'.callbacks_ = eraseNode e.node h.callbacks_) ∨
        (h'.threads () ≠ .free ∧ h' = h)) := by
  cases hstep with
  | @wake _ e hwaits he _ =>
      rw [State.wake]
      split_ifs with hstate
      · have hfree : Function.update h.threads () .free () = .free := Function.update_self ..
        exact ⟨rfl, e, he, hwaits, .inl ⟨hstate, hfree, rfl⟩⟩
      · exact ⟨rfl, e, he, hwaits, .inr ⟨by simp [hwaits], rfl⟩⟩

end Entries

/-! ### The invariant -/

/-- The callback that is running still uses its connection. -/
def Lifetimes.InUse (s : Lifetimes γ) : Prop := s.begun = false ∨ s.shared ≠ none

lemma Lifetimes.Exists.of_stage {s s' : Lifetimes γ} {c : γ} (h : s.Exists c)
    (hstage : s'.stage c = s.stage c) : s'.Exists c := by
  rw [Lifetimes.Exists, hstage]
  exact h

/-- The registry, the round of the worker and the owners. -/
structure Sound (pipe : ℤ) (fd_ : γ → ℤ) (s : Lifetimes γ) : Prop where
  entries : Entries pipe fd_ s.Exists s.handler
  due : Due s.InUse s.handler.callbacks_ s.handler.worker
  held : ∀ c, s.stage c = .alive ↔ s.Held c
  destroying : ∀ c, s.stage c = .destroying ↔ s.main = .destroying c
  thread : (∀ c, s.main ≠ .destroying c) → s.handler.threads () = .free
  waits : ∀ c, s.main = .destroying c → ∃ n, s.handler.threads () = .waiting n ∧
    ∀ e ∈ s.handler.callbacks_, e.on_select_callback = some c → e.node = n
  shared : ∀ c, s.shared = some c → s.handler.worker.Calls (some c)
  begun : s.shared ≠ none → s.begun = true

variable {pipe : ℤ} {fd_ : γ → ℤ} {s s' : Lifetimes γ}

lemma sound_init : Sound pipe fd_ (Lifetimes.init : Lifetimes γ) where
  entries := ⟨Numbered.init, by simp [Lifetimes.init, State.init],
    by simp [Lifetimes.init, State.init]⟩
  due := .idle rfl List.nodup_nil rfl (by simp [Lifetimes.init, State.init])
  held := by simp [Lifetimes.init, Lifetimes.Held]
  destroying := by simp [Lifetimes.init]
  thread := fun _ => rfl
  waits := by simp [Lifetimes.init]
  shared := by simp [Lifetimes.init]
  begun := by simp [Lifetimes.init]

/-- Only the handler changes, and it attaches nothing. -/
lemma Sound.of_handler (h : Sound pipe fd_ s) {a : Private.Action Unit (Option γ)}
    {handler : State Unit (Option γ)} (hstep : Private.Step pipe s.handler a handler)
    (ha : ∀ who fd f g, a ≠ .attach who fd f g) (hthreads : handler.threads = s.handler.threads)
    {begun : Bool} (hshared : s.shared = none)
    (hdue : Due (begun = false ∨ s.shared ≠ none) handler.callbacks_ handler.worker) :
    Sound pipe fd_ { s with handler := handler, begun := begun } where
  entries := h.entries.step hstep ha
  due := hdue
  held := h.held
  destroying := h.destroying
  thread := fun hmain => hthreads ▸ h.thread hmain
  waits := by
    intro c hmain
    obtain ⟨n, hwaits, hnode⟩ := h.waits c hmain
    refine ⟨n, hthreads ▸ hwaits, fun e' he' hf => ?_⟩
    obtain ⟨e, he, hn, -, hf'⟩ := came_of_step hstep ha e' he'
    exact hn.symm.trans (hnode e he (hf'.trans hf))
  shared := fun c hc => absurd (hshared.symm.trans hc) (by simp)
  begun := fun hne => absurd hshared hne

/-- While a callback holds its connection the loop does not go on. -/
lemma Sound.not_shared (h : Sound pipe fd_ s) {a : Private.Action Unit (Option γ)}
    {handler : State Unit (Option γ)} (ha : Quiet s a)
    (hstep : Private.Step pipe s.handler a handler) : s.shared = none := by
  by_contra hne
  obtain ⟨c, hc⟩ := Option.ne_none_iff_exists'.mp hne
  obtain ⟨fds, curr, calls, removals, hw, -⟩ := h.shared c hc
  cases hstep with
  | attach | detach | wake | destroy => exact ha
  | callReturns => exact hne ha.2
  | callThrows => exact hne ha.2
  | exit hw' | compute hw' | select hw' | selectFails hw' | test hw' | collect hw' | call hw'
    | lock hw' | remove hw' | errorReturns hw' | unlock hw' | drain hw' =>
      exact absurd (hw.symm.trans hw') (by simp)

/-- The set of a new round. -/
lemma Sound.compute (h : Sound pipe fd_ s) :
    Due fresh (s.handler.callbacks_.map Callback_.computed)
      (.selecting (insert pipe (selectSet s.handler.callbacks_))) where
  watched := by
    intro e' he' hf hfd
    obtain ⟨e, he, rfl⟩ := List.mem_map.mp he'
    have hf' : e.on_select_callback ≠ none := by
      rw [Callback_.computed] at hf
      split_ifs at hf <;> exact hf
    obtain ⟨c, hc⟩ := Option.ne_none_iff_exists'.mp hf'
    rw [computed_file_descriptor] at hfd
    rcases Finset.mem_insert.mp hfd with hpipe | hset
    · exact absurd hpipe (h.entries.entry e he c hc).2.1
    · obtain ⟨e₁, he₁, hsel, hfd₁⟩ := mem_selectSet.mp hset
      obtain rfl := h.entries.alone e he e₁ he₁ hf' hfd₁
      simp [Callback_.computed, hsel]
  nodup := List.nodup_nil
  pending := by simp [pendingCalls]
  current := by simp

/-- A step of the loop. -/
lemma Sound.loop (h : Sound pipe fd_ s) {a : Private.Action Unit (Option γ)}
    {handler : State Unit (Option γ)} (ha : Quiet s a)
    (hstep : Private.Step pipe s.handler a handler) :
    Sound pipe fd_ { s with handler := handler, begun := begunBehind s.begun a } := by
  have hshared := h.not_shared ha hstep
  have hdue := h.due
  have hstep' := hstep
  cases hstep with
  | attach | detach | wake | destroy => exact absurd ha not_false
  | exit =>
      exact h.of_handler hstep' (by simp) rfl hshared (.idle rfl List.nodup_nil rfl (by simp))
  | compute => exact h.of_handler hstep' (by simp) rfl hshared h.compute
  | @select fds read_fds hw hsub =>
      rw [hw] at hdue
      refine h.of_handler hstep' (by simp) rfl hshared ⟨fun e he hf hfd => ?_, List.nodup_nil,
        by simp [pendingCalls], by simp⟩
      exact hdue.watched e he hf (hsub hfd)
  | selectFails hw =>
      rw [hw] at hdue
      exact h.of_handler hstep' (by simp) rfl hshared ⟨hdue.watched, List.nodup_nil,
        by simp [pendingCalls], by simp⟩
  | test =>
      refine h.of_handler hstep' (by simp) rfl hshared (.idle ?_ ?_ ?_ ?_)
      · exact Worker.watched_leave _ _
      · rw [Worker.due_leave]
        exact List.nodup_nil
      · exact pendingCalls_leave _ _
      · exact fun fds curr calls removals => dispatch_ne_running _ fds curr [] calls _ removals
  | collect hw =>
      rw [hw] at hdue
      exact h.of_handler hstep' (by simp) rfl hshared (hdue.collect h.entries.numbered.nodup)
  | call hw =>
      rw [hw] at hdue
      refine h.of_handler hstep' (by simp) rfl hshared ⟨fun _ _ _ hmem => ?_, hdue.nodup,
        fun k hk => hdue.pending k (List.mem_cons_of_mem _ hk),
        fun _ _ _ _ _ hw' hf => ?_⟩
      · exact absurd hmem (Finset.notMem_empty _)
      · obtain ⟨-, rfl, -, -⟩ := Worker.running.inj hw'
        exact hdue.pending _ List.mem_cons_self hf
  | callReturns hw =>
      rw [hw] at hdue
      exact h.of_handler hstep' (by simp) rfl hshared hdue.next
  | callThrows hw =>
      rw [hw] at hdue
      exact h.of_handler hstep' (by simp) rfl hshared hdue.next
  | @remove fd removals hw =>
      obtain hr | ⟨e, -, hr | ⟨g, hr⟩⟩ := s.handler.remove_cases fd removals <;>
        rw [hr] at hstep' ⊢
      · exact h.of_handler hstep' (by simp) rfl hshared (.idle rfl List.nodup_nil rfl (by simp))
      · exact h.of_handler hstep' (by simp) rfl hshared (.idle rfl List.nodup_nil rfl (by simp))
      · exact h.of_handler hstep' (by simp) rfl hshared
          (.idle rfl (List.nodup_singleton _) rfl (by simp))
  | lock | errorReturns | unlock | drain =>
      exact h.of_handler hstep' (by simp) rfl hshared (.idle rfl List.nodup_nil rfl (by simp))

/-! ### The steps of the callbacks and of `main` -/

/-- In a callback of a listener no connection is held. -/
lemma Sound.not_shared_of_calls (h : Sound pipe fd_ s) (hw : s.handler.worker.Calls none) :
    s.shared = none := by
  by_contra hne
  obtain ⟨c, hc⟩ := Option.ne_none_iff_exists'.mp hne
  obtain ⟨_, _, _, _, hw₁, hf₁⟩ := h.shared c hc
  obtain ⟨_, _, _, _, hw₂, hf₂⟩ := hw
  obtain ⟨-, rfl, -, -⟩ := Worker.running.inj (hw₁.symm.trans hw₂)
  exact absurd (hf₁.symm.trans hf₂) (by simp)

/-- In an error callback no connection is held. -/
lemma Sound.not_shared_of_reporting (h : Sound pipe fd_ s) {n : ℕ} {g : Option γ}
    {removals : List ℤ} (hw : s.handler.worker = .reporting n g removals) : s.shared = none := by
  by_contra hne
  obtain ⟨c, hc⟩ := Option.ne_none_iff_exists'.mp hne
  obtain ⟨_, _, _, _, hw', -⟩ := h.shared c hc
  exact absurd (hw.symm.trans hw') (by simp)

/-- The owners change, and no connection loses its last one. -/
lemma Sound.of_owners (h : Sound pipe fd_ s) {connections_ : List γ} {main : Lifetimes.Main γ}
    {shared : Option γ} {begun : Bool} (hbegun : shared ≠ none → begun = true)
    (hheld : ∀ c, Lifetimes.Held { s with
      connections_ := connections_, main := main, shared := shared, begun := begun } c ↔ s.Held c)
    (hmain : ∀ c, main = .destroying c ↔ s.main = .destroying c)
    (hshared : ∀ c, shared = some c → s.handler.worker.Calls (some c))
    (huse : begun = false ∨ shared ≠ none → s.InUse) :
    Sound pipe fd_ { s with
      connections_ := connections_, main := main, shared := shared, begun := begun } where
  entries := h.entries
  due := h.due.mono huse
  held := fun c => (h.held c).trans (hheld c).symm
  destroying := fun c => (h.destroying c).trans (hmain c).symm
  thread := fun hno => h.thread fun c hc => hno c ((hmain c).mpr hc)
  waits := fun c hc => h.waits c ((hmain c).mp hc)
  shared := hshared
  begun := hbegun

variable [DecidableEq γ]

/-- A connection is destroyed that has no owner and no entry. -/
lemma Sound.destroy {c : γ} {handler : State Unit (Option γ)}
    (hentries : Entries pipe fd_ s.Exists handler)
    (hgone : ∀ e ∈ handler.callbacks_, e.on_select_callback ≠ some c)
    (hdue : Due s.InUse handler.callbacks_ handler.worker)
    (hheld : ∀ c', c' ≠ c → (s.stage c' = .alive ↔ s.Held c')) (hlast : ¬ s.Held c)
    (hdestroying : ∀ c', c' ≠ c → (s.stage c' = .destroying ↔ s.main = .destroying c'))
    (hmain : s.main ≠ .destroying c)
    (hthread : (∀ c, s.main ≠ .destroying c) → handler.threads () = .free)
    (hwaits : ∀ c, s.main = .destroying c → ∃ n, handler.threads () = .waiting n ∧
      ∀ e ∈ handler.callbacks_, e.on_select_callback = some c → e.node = n)
    (hshared : ∀ c, s.shared = some c → handler.worker.Calls (some c))
    (hbegun : s.shared ≠ none → s.begun = true) : Sound pipe fd_ (s.destroy c handler) where
  entries := by
    refine hentries.of_came hentries.numbered (fun e he => ⟨e, he, rfl, rfl, rfl⟩) ?_
    intro e he c' hf hexists
    have hne : c' ≠ c := by
      rintro rfl
      exact hgone e he hf
    simpa [Lifetimes.Exists, Lifetimes.destroy, hne] using hexists
  due := hdue
  held := by
    intro c'
    show Function.update s.stage c .destroyed c' = .alive ↔ s.Held c'
    rcases eq_or_ne c' c with rfl | hne
    · exact iff_of_false (by simp) hlast
    · rw [Function.update_of_ne hne]
      exact hheld c' hne
  destroying := by
    intro c'
    show Function.update s.stage c .destroyed c' = .destroying ↔ s.main = .destroying c'
    rcases eq_or_ne c' c with rfl | hne
    · exact iff_of_false (by simp) hmain
    · rw [Function.update_of_ne hne]
      exact hdestroying c' hne
  thread := hthread
  waits := hwaits
  shared := hshared
  begun := hbegun

/-- The worker lets go of a connection that nobody else has. -/
lemma Sound.releaseLast (h : Sound pipe fd_ s) {c : γ} {handler : State Unit (Option γ)}
    (hc : s.shared = some c) (hlast : ¬ Lifetimes.Held { s with shared := none } c)
    (hstep : Private.Step pipe s.handler (.detach .worker (fd_ c)) handler) :
    Sound pipe fd_ (Lifetimes.destroy { s with shared := none } c handler) := by
  obtain ⟨hworker, hthreads, hlist⟩ := detach_worker_cases hstep
  obtain ⟨fds, curr, calls, removals, hw, hf⟩ := h.shared c hc
  have hbegun := h.begun (by simp [hc])
  -- what is erased is the entry of the callback that is running
  obtain ⟨e, he, hnode, hcallback, -⟩ :=
    h.due.current (.inr (by simp [hc])) fds curr calls removals hw (by simp [hf])
  have herased : handler.callbacks_ = eraseNode curr.node s.handler.callbacks_ := by
    rcases hlist with ⟨hnone, -⟩ | ⟨e₀, hfind, hl⟩
    · exact absurd hnone (h.entries.find_of_mem he (hcallback.trans hf))
    · rw [hl, h.entries.node_of_find hfind he (hcallback.trans hf), hnode]
  have hdue : Due (Lifetimes.InUse { s with shared := none }) handler.callbacks_
      handler.worker := by
    rw [hworker, herased]
    refine h.due.eraseNode (fun huse => .inl ?_) fun k hk _ => ?_
    · simpa [Lifetimes.InUse] using huse
    · have hnodup := h.due.nodup
      rw [hw] at hk hnodup
      rcases hk with hk | ⟨huse, -⟩
      · intro heq
        exact (List.nodup_cons.mp hnodup).1 (heq ▸ List.mem_map_of_mem hk)
      · simp [Lifetimes.InUse, hbegun] at huse
  have hheld : ∀ c', c' ≠ c →
      (s.stage c' = .alive ↔ Lifetimes.Held { s with shared := none } c') := by
    intro c' hne
    rw [h.held c']
    simp [Lifetimes.Held, hc, hne.symm]
  have hmain : s.main ≠ .destroying c := by
    intro hm
    have halive := (h.held c).mpr (.inr (.inr hc))
    exact absurd (halive.symm.trans ((h.destroying c).mpr hm)) (by simp)
  refine Sound.destroy (h.entries.step hstep (by simp)) (h.entries.not_registered hstep) hdue hheld
    hlast (fun c' _ => h.destroying c') hmain (hthreads ▸ h.thread) (fun c' hm => ?_) (by simp)
    (by simp)
  obtain ⟨n, hwaits, hn⟩ := h.waits c' hm
  refine ⟨n, hthreads ▸ hwaits, fun e' he' hf' => hn e' ?_ hf'⟩
  exact (mem_eraseNode.mp (herased ▸ he')).1

/-- The error callback erases a connection that nobody else has. -/
lemma Sound.errorLast (h : Sound pipe fd_ s) {n : ℕ} {c : γ} {removals : List ℤ}
    {handler : State Unit (Option γ)} (hw : s.handler.worker = .reporting n (some c) removals)
    (hc : c ∈ s.connections_)
    (hlast : ¬ Lifetimes.Held { s with connections_ := s.connections_.erase c } c)
    (hstep : Private.Step pipe s.handler (.detach .worker (fd_ c)) handler) :
    Sound pipe fd_ (Lifetimes.destroy
      { s with connections_ := s.connections_.erase c, begun := true } c handler) := by
  obtain ⟨hworker, hthreads, -⟩ := detach_worker_cases hstep
  have hshared := h.not_shared_of_reporting hw
  have hheld : ∀ c', c' ≠ c → (s.stage c' = .alive ↔
      Lifetimes.Held { s with connections_ := s.connections_.erase c, begun := true } c') := by
    intro c' hne
    rw [h.held c']
    simp [Lifetimes.Held, List.mem_erase_of_ne hne]
  have hmain : s.main ≠ .destroying c := by
    intro hm
    have halive := (h.held c).mpr (.inl hc)
    exact absurd (halive.symm.trans ((h.destroying c).mpr hm)) (by simp)
  refine Sound.destroy (h.entries.step hstep (by simp)) (h.entries.not_registered hstep) ?_ hheld
    hlast (fun c' _ => h.destroying c') hmain (hthreads ▸ h.thread) (fun c' hm => ?_)
    (fun c' hc' => absurd (hshared.symm.trans hc') (by simp)) (fun hne => absurd hshared hne)
  · rw [hworker, hw]
    exact .idle rfl (List.nodup_singleton _) rfl (by simp)
  · obtain ⟨m, hwaits, hm⟩ := h.waits c' hm
    refine ⟨m, hthreads ▸ hwaits, fun e' he' hf' => ?_⟩
    obtain ⟨e, he, hnode, -, hf⟩ := came_of_step hstep (by simp) e' he'
    exact hnode.symm.trans (hm e he (hf.trans hf'))

/-- A connection is accepted. -/
lemma Sound.accept (h : Sound pipe fd_ s) {c : γ} {handler : State Unit (Option γ)}
    (hw : s.handler.worker.Calls none) (hunborn : s.stage c = .unborn)
    (hnew : fd_ c ∉ descriptors s.handler.callbacks_)
    (hstep : Private.Step pipe s.handler
      (.attach .worker (fd_ c) (some c) (some (some c))) handler) :
    Sound pipe fd_
      { s with
        handler := handler
        stage := Function.update s.stage c .alive
        bio_ := Function.update s.bio_ c true
        connections_ := s.connections_ ++ [c]
        begun := true } := by
  have hshared := h.not_shared_of_calls hw
  have hmain : ∀ c', s.main = .destroying c' → c' ≠ c := by
    rintro c' hm rfl
    exact absurd (hunborn.symm.trans ((h.destroying c').mpr hm)) (by simp)
  have hstage : ∀ c', c' ≠ c → Function.update s.stage c .alive c' = s.stage c' :=
    fun c' hne => Function.update_of_ne hne ..
  cases hstep with
  | attach hmay hpipe =>
      refine ⟨?_, ?_, fun c' => ?_, fun c' => ?_, h.thread, fun c' hm => ?_, ?_, ?_⟩
      · refine h.entries.attach_connection hnew hpipe (fun c' hexists => ?_) ?_
        · rcases eq_or_ne c' c with rfl | hne
          · exact .inl (Function.update_self ..)
          · exact hexists.of_stage (hstage c' hne)
        · exact .inl (Function.update_self ..)
      · refine (h.due.append (by simp)).mono fun huse => ?_
        simp [Lifetimes.InUse, hshared] at huse
      · show Function.update s.stage c .alive c' = .alive ↔ _
        rcases eq_or_ne c' c with rfl | hne
        · simp [Lifetimes.Held]
        · rw [hstage c' hne, h.held c']
          simp [Lifetimes.Held, hne]
      · show Function.update s.stage c .alive c' = .destroying ↔ s.main = .destroying c'
        rcases eq_or_ne c' c with rfl | hne
        · exact iff_of_false (by simp) fun hm => hmain c' hm rfl
        · rw [hstage c' hne, h.destroying c']
      · obtain ⟨n, hwaits, hn⟩ := h.waits c' hm
        refine ⟨n, hwaits, fun e he hf => ?_⟩
        rcases List.mem_append.mp he with he | he
        · exact hn e he hf
        · rw [List.mem_singleton.mp he] at hf
          exact absurd (Option.some.inj hf).symm (hmain c' hm)
      · exact fun c' hc' => absurd (hshared.symm.trans hc') (by simp)
      · exact fun _ => rfl

omit [DecidableEq γ] in
/-- A listener is attached. -/
lemma Sound.listen (h : Sound pipe fd_ s) {fd : ℤ} {handler : State Unit (Option γ)}
    (hfd : ∀ e ∈ s.handler.callbacks_, e.file_descriptor = fd → e.on_select_callback = none)
    (hstep : Private.Step pipe s.handler (.attach (.thread ()) fd none none) handler) :
    Sound pipe fd_ { s with handler := handler, listening := fd :: s.listening } := by
  cases hstep with
  | attach hmay hpipe =>
      refine ⟨h.entries.attach_listener hfd, h.due.append (by simp), h.held, h.destroying, h.thread,
        fun c hm => ?_, h.shared, h.begun⟩
      obtain ⟨n, hwaits, hn⟩ := h.waits c hm
      refine ⟨n, hwaits, fun e he hf => ?_⟩
      rcases List.mem_append.mp he with he | he
      · exact hn e he hf
      · rw [List.mem_singleton.mp he] at hf
        cases hf

/-- `main` lets go of a connection that nobody else has and that has no entry. -/
lemma Sound.letGoAtOnce (h : Sound pipe fd_ s) {c : γ} {handler : State Unit (Option γ)}
    (hm : s.main = .holding c) (hlast : ¬ Lifetimes.Held { s with main := .idle } c)
    (hfind : findFD (fd_ c) s.handler.callbacks_ = none)
    (hstep : Private.Step pipe s.handler (.detach (.thread ()) (fd_ c)) handler) :
    Sound pipe fd_ (Lifetimes.destroy { s with main := .idle } c handler) := by
  obtain rfl : handler = s.handler := by
    cases hstep with
    | detach => rw [State.detach, hfind]
  have hheld : ∀ c', c' ≠ c →
      (s.stage c' = .alive ↔ Lifetimes.Held { s with main := .idle } c') := by
    intro c' hne
    rw [h.held c']
    simp [Lifetimes.Held, hm, hne.symm]
  have hdestroying : ∀ c', c' ≠ c →
      (s.stage c' = .destroying ↔ (Lifetimes.Main.idle : Lifetimes.Main γ) = .destroying c') := by
    intro c' _
    rw [h.destroying c', hm]
    simp
  refine Sound.destroy h.entries (fun e he hf => h.entries.find_of_mem he hf hfind) h.due hheld
    hlast hdestroying (by simp) (fun _ => h.thread (by simp [hm])) (by simp) h.shared h.begun

/-- `main` lets go of a connection that nobody else has, and waits in its destructor. -/
lemma Sound.letGoLast (h : Sound pipe fd_ s) {c : γ} {e : Callback_ (Option γ)}
    {handler : State Unit (Option γ)} (hm : s.main = .holding c)
    (hlast : ¬ Lifetimes.Held { s with main := .idle } c)
    (hfind : findFD (fd_ c) s.handler.callbacks_ = some e)
    (hstep : Private.Step pipe s.handler (.detach (.thread ()) (fd_ c)) handler) :
    Sound pipe fd_
      { s with
        handler := handler
        stage := Function.update s.stage c .destroying
        main := .destroying c } := by
  have hentries := h.entries.step hstep (by simp)
  have hcame := came_of_step hstep (by simp)
  have hstage : ∀ c', c' ≠ c → Function.update s.stage c .destroying c' = s.stage c' :=
    fun c' hne => Function.update_of_ne hne ..
  obtain rfl : handler = { s.handler.mark e.node with
      threads := Function.update s.handler.threads () (.waiting e.node) } := by
    cases hstep with
    | detach => rw [State.detach, hfind]
  refine ⟨?_, h.due.setState e.node, fun c' => ?_, fun c' => ?_, fun hno => absurd rfl (hno c),
    fun c' hc' => ?_, h.shared, h.begun⟩
  · refine hentries.of_came hentries.numbered (fun e he => ⟨e, he, rfl, rfl, rfl⟩) ?_
    intro _ _ c' _ hexists
    rcases eq_or_ne c' c with rfl | hne
    · exact .inr (Function.update_self ..)
    · exact hexists.of_stage (hstage c' hne)
  · show Function.update s.stage c .destroying c' = .alive ↔ _
    rcases eq_or_ne c' c with rfl | hne
    · refine iff_of_false (by simp) fun hheld => hlast ?_
      simpa [Lifetimes.Held] using hheld
    · rw [hstage c' hne, h.held c']
      simp [Lifetimes.Held, hm, hne.symm]
  · show Function.update s.stage c .destroying c' = .destroying ↔ _
    rcases eq_or_ne c' c with rfl | hne
    · exact iff_of_true (Function.update_self ..) rfl
    · rw [hstage c' hne, h.destroying c', hm]
      simp [hne.symm]
  · obtain rfl := Lifetimes.Main.destroying.inj hc'
    have hwaits : Function.update s.handler.threads () (.waiting e.node) () = .waiting e.node :=
      Function.update_self ..
    refine ⟨e.node, hwaits, fun e' he' hf => ?_⟩
    obtain ⟨e₀, he₀, hnode, -, hf₀⟩ := hcame e' he'
    rw [← hnode, h.entries.node_of_find hfind he₀ (hf₀.trans hf)]

/-- The destructor in `main` is at its end. -/
lemma Sound.wake (h : Sound pipe fd_ s) {c : γ} {handler : State Unit (Option γ)}
    (hm : s.main = .destroying c) (hstep : Private.Step pipe s.handler (.wake ()) handler)
    (hfree : handler.threads () = .free) :
    Sound pipe fd_ (Lifetimes.destroy { s with main := .idle } c handler) := by
  obtain ⟨hworker, e, he, hwaits, ⟨hstate, -, hl⟩ | ⟨hbusy, -⟩⟩ := wake_cases hstep
  · obtain ⟨n, hwaits', hn⟩ := h.waits c hm
    obtain rfl : e.node = n := Thread.waiting.inj (hwaits.symm.trans hwaits')
    have hdying : s.stage c = .destroying := (h.destroying c).mpr hm
    have hunowned : ¬ s.Held c :=
      fun hheld => absurd (hdying.symm.trans ((h.held c).mpr hheld)) (by simp)
    have hheld : ∀ c', s.Held c' ↔ Lifetimes.Held { s with main := .idle } c' := by
      intro c'
      simp [Lifetimes.Held, hm]
    have hgone : ∀ e' ∈ handler.callbacks_, e'.on_select_callback ≠ some c := by
      intro e' he' hf
      obtain ⟨he', hne⟩ := mem_eraseNode.mp (hl ▸ he')
      exact hne (hn e' he' hf)
    -- a detached entry is not one that the worker is going to call
    have hdue : Due s.InUse handler.callbacks_ handler.worker := by
      rw [hworker, hl]
      refine h.due.eraseNode id fun k hk hf heq => ?_
      have hcallable : Callable s.handler.callbacks_ k := by
        rcases hk with hk | ⟨huse, fds, calls, removals, hw⟩
        · exact h.due.pending k hk hf
        · exact h.due.current huse fds k calls removals hw hf
      obtain ⟨e', he', hnode, -, hstate'⟩ := hcallable
      obtain rfl := h.entries.numbered.eq_of_node he' he (hnode.trans heq)
      exact hstate' hstate
    have hdestroying : ∀ c', c' ≠ c →
        (s.stage c' = .destroying ↔ (Lifetimes.Main.idle : Lifetimes.Main γ) = .destroying c') := by
      intro c' hne
      rw [h.destroying c', hm]
      simp [hne.symm]
    exact Sound.destroy (h.entries.step hstep (by simp)) hgone hdue
      (fun c' _ => (h.held c').trans (hheld c')) (fun hheld' => hunowned ((hheld c).mpr hheld'))
      hdestroying (by simp) (fun _ => hfree) (by simp) (hworker ▸ h.shared) h.begun
  · exact absurd hfree hbusy

/-- **Every step that is fresh keeps the invariant.** -/
lemma Sound.step {a : Lifetimes.Action γ} (h : Sound pipe fd_ s) (ha : Fresh fd_ s a)
    (hstep : Lifetimes.Step pipe fd_ s a s') : Sound pipe fd_ s' := by
  have hkept : ∀ {begun : Bool} {shared : Option γ}, begun = true → shared = none →
      begun = false ∨ shared ≠ none → s.InUse :=
    fun hb hs huse => huse.elim (fun hb' => absurd (hb.symm.trans hb') (by simp))
      fun hs' => absurd hs hs'
  cases hstep with
  | loop hquiet hstep => exact h.loop hquiet hstep
  | listen _ _ hstep => exact h.listen ha hstep
  | accept hw _ hunborn _ _ hstep => exact h.accept hw hunborn ha hstep
  | ignore hw _ =>
      exact h.of_owners (fun _ => rfl) (fun _ => Iff.rfl) (fun _ => Iff.rfl) h.shared
        (hkept rfl (h.not_shared_of_calls hw))
  | @data c hw hbegun hheld =>
      have hnone : s.shared = none := by
        by_contra hne
        exact absurd (hbegun.symm.trans (h.begun hne)) (by simp)
      refine h.of_owners (fun _ => rfl) (fun c' => ?_) (fun _ => Iff.rfl) (fun c' hc' => ?_)
        fun _ => .inl hbegun
      · rcases eq_or_ne c' c with rfl | hne
        · exact iff_of_true (.inr (.inr rfl)) hheld
        · simp [Lifetimes.Held, hnone, hne.symm]
      · obtain rfl := Option.some.inj hc'
        exact hw
  | dataThrows hw hbegun _ =>
      exact h.of_owners (fun _ => rfl) (fun _ => Iff.rfl) (fun _ => Iff.rfl) h.shared
        fun _ => .inl hbegun
  | @release c hc hheld =>
      refine h.of_owners (fun hne => absurd rfl hne) (fun c' => ?_) (fun _ => Iff.rfl) (by simp)
        fun _ => .inr (by simp [hc])
      rcases eq_or_ne c' c with rfl | hne
      · exact iff_of_true hheld (.inr (.inr hc))
      · simp [Lifetimes.Held, hc, hne.symm]
  | releaseLast hc hlast hstep => exact h.releaseLast hc hlast hstep
  | errorGone hw _ _ =>
      exact h.of_owners (fun _ => rfl) (fun _ => Iff.rfl) (fun _ => Iff.rfl) h.shared
        (hkept rfl (h.not_shared_of_reporting hw))
  | @error n c removals hw _ hc hheld =>
      refine h.of_owners (fun _ => rfl) (fun c' => ?_) (fun _ => Iff.rfl) h.shared
        (hkept rfl (h.not_shared_of_reporting hw))
      rcases eq_or_ne c' c with rfl | hne
      · exact iff_of_true hheld (.inl hc)
      · simp [Lifetimes.Held, List.mem_erase_of_ne hne]
  | errorLast hw _ hc hlast hstep => exact h.errorLast hw hc hlast hstep
  | @lock c hm hheld =>
      refine h.of_owners h.begun (fun c' => ?_) (by simp [hm]) h.shared id
      rcases eq_or_ne c' c with rfl | hne
      · exact iff_of_true (.inr (.inl rfl)) hheld
      · simp [Lifetimes.Held, hm, hne.symm]
  | close => exact ⟨h.entries, h.due, h.held, h.destroying, h.thread, h.waits, h.shared, h.begun⟩
  | @letGo c hm hheld =>
      refine h.of_owners h.begun (fun c' => ?_) (by simp [hm]) h.shared id
      rcases eq_or_ne c' c with rfl | hne
      · exact iff_of_true hheld (.inr (.inl hm))
      · simp [Lifetimes.Held, hm, hne.symm]
  | letGoAtOnce hm hlast hfind hstep => exact h.letGoAtOnce hm hlast hfind hstep
  | letGoLast hm hlast hfind hstep => exact h.letGoLast hm hlast hfind hstep
  | wait hm hstep hbusy =>
      obtain ⟨-, e, -, -, ⟨-, hfree, -⟩ | ⟨-, rfl⟩⟩ := wake_cases hstep
      · exact absurd hfree hbusy
      · exact h
  | wake hm hstep hfree => exact h.wake hm hstep hfree

omit [DecidableEq γ] in
/-- What is registered, what the worker is going to call, and what it is in, belongs to a connection
that is there; and a connection is alive as long as it has an owner. -/
structure Safe (s : Lifetimes γ) : Prop where
  registered : ∀ e ∈ s.handler.callbacks_, ∀ c, e.on_select_callback = some c → s.Exists c
  pending : ∀ k ∈ pendingCalls s.handler.worker, ∀ c, k.callback = some c → s.Exists c
  running : s.InUse → ∀ c, s.handler.worker.Calls (some c) → s.Exists c
  owned : ∀ c, s.stage c = .alive ↔ s.Held c

omit [DecidableEq γ] in
lemma Sound.safe (h : Sound pipe fd_ s) : Safe s where
  registered := fun e he c hf => (h.entries.entry e he c hf).2.2
  pending := by
    intro k hk c hf
    obtain ⟨e, he, -, hcallback, -⟩ := h.due.pending k hk (by simp [hf])
    exact (h.entries.entry e he c (hcallback.trans hf)).2.2
  running := by
    rintro huse c ⟨fds, curr, calls, removals, hw, hf⟩
    obtain ⟨e, he, -, hcallback, -⟩ :=
      h.due.current huse fds curr calls removals hw (by simp [hf])
    exact (h.entries.entry e he c (hcallback.trans hf)).2.2
  owned := h.held

/-- **No callback is called on a connection that is destroyed**, and a connection is destroyed when
the last of its owners has gone: in every run in which no connection is accepted with a descriptor
that is still registered. -/
theorem connections_outlive_callbacks {as : List (Lifetimes.Action γ)}
    (h : EveryStep (Lifetimes.Step pipe fd_) (Fresh fd_) (Lifetimes.init : Lifetimes γ) as) :
    Always (Lifetimes.Step pipe fd_) Safe (Lifetimes.init : Lifetimes γ) as :=
  (always_of_everyStep (fun _ _ _ hs ha hstep => hs.step ha hstep) sound_init h).mono
    fun _ hs => hs.safe

/-- A listener is ready, and a connection is accepted. -/
theorem connections_outlive_callbacks_accept :
    Always (Lifetimes.Step 3 fun _ => 7) Safe (Lifetimes.init : Lifetimes Bool)
      [.listen 5, .loop .compute, .loop (.select {3, 5}), .loop .collect, .loop .call,
        .accept true] := by
  refine connections_outlive_callbacks fun s₁ h₁ => ⟨by simp [Fresh, Lifetimes.init, State.init],
    fun s₂ h₂ => ⟨trivial, fun s₃ h₃ => ⟨trivial, fun s₄ h₄ => ⟨trivial, fun s₅ h₅ => ⟨trivial,
      fun s₆ _ => ⟨?_, trivial⟩⟩⟩⟩⟩⟩
  show (7 : ℤ) ∉ descriptors s₅.handler.callbacks_
  cases h₁ with
  | listen _ _ h₁ =>
      cases h₁
      cases h₂ with
      | loop _ h₂ =>
          cases h₂
          cases h₃ with
          | loop _ h₃ =>
              cases h₃
              cases h₄ with
              | loop _ h₄ =>
                  cases h₄
                  cases h₅ with
                  | loop _ h₅ =>
                      cases h₅
                      show (7 : ℤ) ∉ descriptors (List.map Callback_.computed
                        [⟨0, 5, none, (none : Option (Option Bool)), .pending_attachment__⟩])
                      rw [descriptors_computed]
                      simp [descriptors]

/-! ### Without `close` -/

omit [DecidableEq γ] in
/-- The descriptors of what is registered are open. -/
structure Open (s : Lifetimes γ) : Prop where
  connections : ∀ c, s.Exists c → s.bio_ c = true
  listeners : ∀ e ∈ s.handler.callbacks_, e.on_select_callback = none →
    e.file_descriptor ∈ s.listening

omit [DecidableEq γ] in
/-- Only the handler changes, and it attaches nothing. -/
lemma Open.of_handler (h : Open s) {a : Private.Action Unit (Option γ)}
    {handler : State Unit (Option γ)} (hstep : Private.Step pipe s.handler a handler)
    (ha : ∀ who fd f g, a ≠ .attach who fd f g) :
    ∀ e ∈ handler.callbacks_, e.on_select_callback = none → e.file_descriptor ∈ s.listening := by
  intro e' he' hf
  obtain ⟨e, he, -, hfd, hf'⟩ := came_of_step hstep ha e' he'
  exact hfd ▸ h.listeners e he (hf'.trans hf)

lemma Open.destroy (h : Open s) {c : γ} {handler : State Unit (Option γ)}
    (hlisteners : ∀ e ∈ handler.callbacks_, e.on_select_callback = none →
      e.file_descriptor ∈ s.listening) : Open (s.destroy c handler) where
  connections := by
    intro c' hexists
    have hne : c' ≠ c := by
      rintro rfl
      simp [Lifetimes.Exists, Lifetimes.destroy] at hexists
    have hbefore : s.Exists c' := hexists.of_stage (Function.update_of_ne hne ..).symm
    show Function.update s.bio_ c false c' = true
    rw [Function.update_of_ne hne]
    exact h.connections c' hbefore
  listeners := hlisteners

/-- The kernel does not give a number that is registered. -/
lemma Open.accepts_fresh (h : Open s) (hs : Sound pipe fd_ s) {a : Lifetimes.Action γ}
    (hstep : Lifetimes.Step pipe fd_ s a s') : Fresh fd_ s a := by
  cases hstep with
  | accept _ _ _ hopen hlistening _ =>
      intro hmem
      obtain ⟨e, he, hfd⟩ := List.mem_map.mp hmem
      cases hf : e.on_select_callback with
      | none => exact hlistening (hfd ▸ h.listeners e he hf)
      | some c' =>
          obtain ⟨hown, -, hexists⟩ := hs.entries.entry e he c' hf
          exact hopen c' (h.connections c' hexists) (hown.symm.trans hfd)
  | listen _ hopen _ =>
      intro e he hfd
      by_contra hf
      obtain ⟨c', hf⟩ := Option.ne_none_iff_exists'.mp hf
      obtain ⟨hown, -, hexists⟩ := hs.entries.entry e he c' hf
      exact hopen c' (h.connections c' hexists) (hown.symm.trans hfd)
  | _ => trivial

lemma Open.step {a : Lifetimes.Action γ} (h : Open s) (hs : Sound pipe fd_ s) (ha : a ≠ .close)
    (hstep : Lifetimes.Step pipe fd_ s a s') : Open s' := by
  cases hstep with
  | @loop a handler hquiet hstep =>
      refine ⟨h.connections, h.of_handler hstep ?_⟩
      rintro who fd f g rfl
      exact hquiet
  | listen _ _ hstep =>
      refine ⟨h.connections, fun e he hf => ?_⟩
      cases hstep with
      | attach =>
          rcases List.mem_append.mp he with he | he
          · exact List.mem_cons_of_mem _ (h.listeners e he hf)
          · rw [List.mem_singleton.mp he]
            exact List.mem_cons_self
  | @accept c handler _ _ _ _ _ hstep =>
      refine ⟨fun c' hexists => ?_, fun e he hf => ?_⟩
      · show Function.update s.bio_ c true c' = true
        rcases eq_or_ne c' c with rfl | hne
        · exact Function.update_self ..
        · rw [Function.update_of_ne hne]
          exact h.connections c' (hexists.of_stage (Function.update_of_ne hne ..).symm)
      · cases hstep with
        | attach =>
            rcases List.mem_append.mp he with he | he
            · exact h.listeners e he hf
            · rw [List.mem_singleton.mp he] at hf
              cases hf
  | releaseLast _ _ hstep =>
      have hbefore : Open { s with shared := none } := ⟨h.connections, h.listeners⟩
      exact hbefore.destroy (h.of_handler hstep (by simp))
  | @errorLast _ c _ _ _ _ _ _ hstep =>
      have hbefore : Open { s with connections_ := s.connections_.erase c, begun := true } :=
        ⟨h.connections, h.listeners⟩
      exact hbefore.destroy (h.of_handler hstep (by simp))
  | close => exact absurd rfl ha
  | letGoAtOnce _ _ _ hstep =>
      have hbefore : Open { s with main := .idle } := ⟨h.connections, h.listeners⟩
      exact hbefore.destroy (h.of_handler hstep (by simp))
  | @letGoLast c e handler hm _ _ hstep =>
      refine ⟨fun c' hexists => ?_, h.of_handler hstep (by simp)⟩
      rcases eq_or_ne c' c with rfl | hne
      · exact h.connections c' (.inl ((hs.held c').mpr (.inr (.inl hm))))
      · exact h.connections c' (hexists.of_stage (Function.update_of_ne hne ..).symm)
  | wait _ hstep _ => exact ⟨h.connections, h.of_handler hstep (by simp)⟩
  | wake _ hstep _ =>
      have hbefore : Open { s with main := .idle } := ⟨h.connections, h.listeners⟩
      exact hbefore.destroy (h.of_handler hstep (by simp))
  | _ => exact ⟨h.connections, h.listeners⟩

/-- **Without `close` every run is fresh**: the descriptor of an entry stays open as long as the
entry is there, so that no other connection is accepted with it. -/
theorem fresh_of_not_closed {as : List (Lifetimes.Action γ)} (hclose : ∀ a ∈ as, a ≠ .close) :
    EveryStep (Lifetimes.Step pipe fd_) (Fresh fd_) (Lifetimes.init : Lifetimes γ) as := by
  have hinit : Open (Lifetimes.init : Lifetimes γ) :=
    ⟨by simp [Lifetimes.init, Lifetimes.Exists], by simp [Lifetimes.init, State.init]⟩
  refine everyStep_of_invariant
    (fun s a s' (hs : Sound pipe fd_ s ∧ Open s) (ha : a ≠ .close) hstep => ?_)
    ⟨sound_init, hinit⟩ (everyStep_of_forall fun a ha _ => hclose a ha)
  have hfresh := hs.2.accepts_fresh hs.1 hstep
  exact ⟨hfresh, hs.1.step hfresh hstep, hs.2.step hs.1 ha hstep⟩

/-- The error callback drops a connection whose descriptor is used again. -/
theorem fresh_of_not_closed_again :
    EveryStep (Lifetimes.Step 3 fun _ => 7) (Fresh fun _ => 7) (Lifetimes.init : Lifetimes Bool)
      [.listen 5, .loop .compute, .loop (.select {3, 5}), .loop .collect, .loop .call,
        .accept true, .loop .callReturns, .loop (.drain 2), .loop .compute, .loop (.select {7}),
        .loop .collect, .loop .call, .data, .release, .loop .callThrows, .loop .lock,
        .loop .remove, .error, .loop .errorReturns, .loop .unlock, .loop .compute,
        .loop (.select {3, 5}), .loop .collect, .loop .call, .accept false] :=
  fresh_of_not_closed (by simp)

/-- **Behind a `close`** the descriptor of the first connection is given to the second one while
`main` still holds the first; its destructor is through when the worker, that has copied the entries
of the descriptor, calls it. -/
theorem dangling_behind_close :
    ∃ s : Lifetimes Bool,
      RunTo (Lifetimes.Step 3 fun _ => 7) Lifetimes.init
        [.listen 5, .loop .compute, .loop (.select {3, 5}), .loop .collect, .loop .call,
          .accept true, .loop .callReturns, .loop (.drain 2), .loop .compute, .lock true, .close,
          .loop .selectFails, .loop (.test fun fd => fd ≠ 7), .loop .lock, .loop .remove, .error,
          .loop .errorReturns, .loop .unlock, .loop .compute, .loop (.select {5}), .loop .collect,
          .loop .call, .accept false, .loop .callReturns, .letGo, .loop .compute,
          .loop (.select {3, 7}), .loop .collect, .wake, .loop .call] s ∧
        s.handler.worker.Calls (some true) ∧ s.begun = false ∧ s.stage true = .destroyed := by
  refine ⟨_, ⟨_, .listen rfl (by simp [Lifetimes.init]) (.attach ⟨rfl, not_false⟩ (by decide)), _,
    .loop trivial (.compute rfl rfl), _,
    .loop trivial (.select rfl (by decide) (by decide) (by decide)), _,
    .loop trivial (.collect rfl), _, .loop trivial (.call rfl), _,
    .accept ⟨_, _, _, _, rfl, rfl⟩ rfl rfl (by decide) (by decide) (.attach trivial (by decide)), _,
    .loop ⟨rfl, rfl⟩ (.callReturns rfl), _,
    .loop trivial (.drain rfl (by decide) (by decide) (by decide)), _,
    .loop trivial (.compute rfl rfl), _, .lock rfl (.inl (by decide)), _, .close rfl, _,
    -- the closed descriptor is found to be broken, and `main` is the last owner
    .loop trivial (.selectFails rfl), _, .loop trivial (.test rfl), _, .loop trivial (.lock rfl), _,
    .loop trivial (.remove rfl), _, .error rfl rfl (by decide) (.inr (.inl rfl)), _,
    .loop rfl (.errorReturns rfl), _, .loop trivial (.unlock rfl), _,
    .loop trivial (.compute rfl rfl), _,
    -- the second connection
    .loop trivial (.select rfl (by decide) (by decide) (by decide)), _,
    .loop trivial (.collect rfl), _, .loop trivial (.call rfl), _,
    .accept ⟨_, _, _, _, rfl, rfl⟩ rfl rfl (by decide) (by decide) (.attach trivial (by decide)), _,
    .loop ⟨rfl, rfl⟩ (.callReturns rfl), _,
    -- the destructor of the first one
    .letGoLast rfl (by simp [Lifetimes.Held, Lifetimes.init]) rfl (.detach ⟨rfl, not_false⟩), _,
    .loop trivial (.compute rfl rfl), _,
    .loop trivial (.select rfl (by decide) (by decide) (by decide)), _,
    .loop trivial (.collect rfl), _, .wake rfl (.wake rfl (by decide) not_false) rfl, _,
    .loop trivial (.call rfl), rfl⟩, ⟨_, _, _, _, rfl, rfl⟩, rfl, rfl⟩

end Arachnida.Mesothelae
