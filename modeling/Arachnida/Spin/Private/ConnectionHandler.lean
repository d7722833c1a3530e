import Arachnida.Library.Run
import Mathlib.Data.Finset.Image

/-!
The registry of descriptors with its worker thread, `Spin::Private::ConnectionHandler`, as a step
relation over the worker and any number of other threads.

* `Callback_`: an entry of `callbacks_`; the list node that holds it stands for the iterator
  `where` that a waiting `detach` keeps.
* `Worker`: where the worker thread is in `workerThreadFunc_`, with its local variables.
* `State.attach`, `State.detach`, `State.wake`: the two functions, `detach` cut at its wait.
* `Step`: what can happen next; everything done under `callbacks_lock_` is one step, except that
  the worker keeps the lock over the error callbacks.

A wait may return at any time, as the waits of a condition do.  An error callback that throws and
a `where` whose entry is gone both end the run: the first ends the process, the second is
undefined.  The worker's look at `done_` and the computation of the set are one step: a destructor
that sets `done_` between them stands behind the computation.
-/

namespace Arachnida.Spin.Private

/-- The states of an entry (`AttachmentState_`). -/
inductive AttachmentState_ where
  | pending_attachment__ | attached__ | pending_detachment__ | detached__
  deriving DecidableEq, Repr

/-- An entry (`Callback_`), with the list node that holds it. -/
structure Callback_ (κ : Type*) where
  node : ℕ
  file_descriptor : ℤ
  on_select_callback : κ
  on_error_callback : Option κ
  state : AttachmentState_
  deriving DecidableEq, Repr

/-- An element of `callbacks_to_call`, with the node it was copied from. -/
structure CallbackToCall (κ : Type*) where
  node : ℕ
  file_descriptor : ℤ
  callback : κ
  deriving DecidableEq, Repr

/-- Where the worker thread is: at the head of the loop, in `select` or behind it, between two
callbacks or in one, about to remove, removing under the lock or in an error callback, about to
read the pipe, or at its end. -/
inductive Worker (κ : Type*) where
  | top
  | selecting (read_fds : Finset ℤ)
  | failed (read_fds : Finset ℤ)
  | reported (read_fds : Finset ℤ)
  | calling (read_fds : Finset ℤ) (curr : CallbackToCall κ)
      (callbacks_to_call : List (CallbackToCall κ)) (callbacks_to_remove : List ℤ)
  | running (read_fds : Finset ℤ) (curr : CallbackToCall κ)
      (callbacks_to_call : List (CallbackToCall κ)) (callbacks_to_remove : List ℤ)
  | removing (callbacks_to_remove : List ℤ)
  | locked (callbacks_to_remove : List ℤ)
  | reporting (node : ℕ) (on_error_callback : κ) (callbacks_to_remove : List ℤ)
  | draining
  | exited

/-- Another thread: outside the handler, or in the wait of `detach` with its iterator. -/
inductive Thread where
  | free
  | waiting (where_ : ℕ)
  deriving DecidableEq, Repr

/-- Who calls. -/
inductive Actor (τ : Type*) where
  | worker
  | thread (t : τ)
  deriving DecidableEq, Repr

/-- What an observer sees: a data callback or an error callback is called, or a `detach` that found
this entry returns. -/
inductive Event (τ : Type*) where
  | called (node : ℕ)
  | errorCalled (node : ℕ)
  | detached (who : Actor τ) (node : ℕ)
  deriving DecidableEq, Repr

/-- The handler and its threads.  `next_node` is the node of the next entry; `changed` and `log`
are the observer's: whether the list was changed, and the change written to the pipe, since the
select set was computed, and what happened so far. -/
structure State (τ κ : Type*) where
  callbacks_ : List (Callback_ κ)
  done_ : Bool
  sync_pipe_ : ℕ
  worker : Worker κ
  threads : τ → Thread
  next_node : ℕ
  changed : Bool
  log : List (Event τ)

variable {τ κ : Type*}

/-- No entries, the worker at its start and the other threads outside. -/
def State.init : State τ κ := ⟨[], false, 0, .top, fun _ => .free, 0, false, []⟩

/-! ### The list -/

/-- `std::find_if` for the descriptor. -/
def findFD (file_descriptor : ℤ) (callbacks : List (Callback_ κ)) : Option (Callback_ κ) :=
  callbacks.find? fun e => e.file_descriptor = file_descriptor

/-- The state of the entry of a node is set. -/
def setState (node : ℕ) (state : AttachmentState_) (callbacks : List (Callback_ κ)) :
    List (Callback_ κ) :=
  callbacks.map fun e => if e.node = node then { e with state := state } else e

/-- `callbacks_.erase(where)`. -/
def eraseNode (node : ℕ) (callbacks : List (Callback_ κ)) : List (Callback_ κ) :=
  callbacks.filter fun e => e.node ≠ node

/-- The entry is one to select on. -/
def Callback_.Selected (e : Callback_ κ) : Prop :=
  e.state = .pending_attachment__ ∨ e.state = .attached__

instance (e : Callback_ κ) : Decidable e.Selected := inferInstanceAs (Decidable (_ ∨ _))

/-- What the computation of the select set does to an entry. -/
def Callback_.computed (e : Callback_ κ) : Callback_ κ :=
  if e.Selected then { e with state := .attached__ }
  else if e.state = .pending_detachment__ then { e with state := .detached__ }
  else e

/-- The descriptors of the entries to select on. -/
def selectSet (callbacks : List (Callback_ κ)) : Finset ℤ :=
  ((callbacks.filter fun e => e.Selected).map Callback_.file_descriptor).toFinset

/-- The copies of the entries whose descriptor is set. -/
def callbacksToCall (read_fds : Finset ℤ) (callbacks : List (Callback_ κ)) :
    List (CallbackToCall κ) :=
  (callbacks.filter fun e => e.file_descriptor ∈ read_fds).map fun e =>
    ⟨e.node, e.file_descriptor, e.on_select_callback⟩

/-- The descriptors that are scheduled for removal after a failed `select`: those of the attached
entries for which `testFD_` says no. -/
def brokenFDs (testFD_ : ℤ → Bool) (callbacks : List (Callback_ κ)) : List ℤ :=
  (callbacks.filter fun e => e.state = .attached__ ∧ testFD_ e.file_descriptor = false).map
    Callback_.file_descriptor

/-! ### The worker -/

/-- Behind the callbacks: the removals if there are any, otherwise the pipe if it is set. -/
def Worker.leave (sync_pipe_read_descriptor : ℤ) (read_fds : Finset ℤ)
    (callbacks_to_remove : List ℤ) : Worker κ :=
  if callbacks_to_remove ≠ [] then .removing callbacks_to_remove
  else if sync_pipe_read_descriptor ∈ read_fds then .draining
  else .top

/-- The next callback to call, or behind them. -/
def Worker.dispatch (sync_pipe_read_descriptor : ℤ) (read_fds : Finset ℤ) :
    List (CallbackToCall κ) → List ℤ → Worker κ
  | [], callbacks_to_remove => .leave sync_pipe_read_descriptor read_fds callbacks_to_remove
  | curr :: callbacks_to_call, callbacks_to_remove =>
      .calling read_fds curr callbacks_to_call callbacks_to_remove

/-- The worker holds `callbacks_lock_` from one step to the next. -/
def Worker.HoldsLock : Worker κ → Prop
  | .locked _ | .reporting _ _ _ => True
  | _ => False

/-- The worker is in a callback. -/
def Worker.InCallback : Worker κ → Prop
  | .running _ _ _ _ | .reporting _ _ _ => True
  | _ => False

namespace State

/-- The actor can call `attach` and `detach`: the worker from a callback, another thread when it
is not waiting and the lock is free. -/
def MayCall (s : State τ κ) : Actor τ → Prop
  | .worker => s.worker.InCallback
  | .thread t => s.threads t = .free ∧ ¬ s.worker.HoldsLock

/-- `ConnectionHandler::attach`. -/
def attach (s : State τ κ) (file_descriptor : ℤ) (on_select_callback : κ)
    (on_error_callback : Option κ) : State τ κ :=
  { s with
    callbacks_ := s.callbacks_ ++ [⟨s.next_node, file_descriptor, on_select_callback,
      on_error_callback, .pending_attachment__⟩]
    sync_pipe_ := s.sync_pipe_ + 1
    next_node := s.next_node + 1
    changed := true }

/-- The end of a `detach`. -/
def erase (s : State τ κ) (who : Actor τ) (node : ℕ) : State τ κ :=
  { s with
    callbacks_ := eraseNode node s.callbacks_
    log := s.log ++ [.detached who node] }

/-- The beginning of a `detach` that has found its entry. -/
def mark (s : State τ κ) (node : ℕ) : State τ κ :=
  { s with
    callbacks_ := setState node .pending_detachment__ s.callbacks_
    sync_pipe_ := s.sync_pipe_ + 1
    changed := true }

variable [DecidableEq τ] in
/-- `ConnectionHandler::detach`, as far as its wait; the worker does not wait. -/
def detach (s : State τ κ) (who : Actor τ) (file_descriptor : ℤ) : State τ κ :=
  match findFD file_descriptor s.callbacks_ with
  | none => s
  | some e =>
      match who with
      | .worker => (s.mark e.node).erase .worker e.node
      | .thread t => { s.mark e.node with threads := Function.update s.threads t (.waiting e.node) }

variable [DecidableEq τ] in
/-- The wait of `detach` returns: it goes on if the entry is detached, or waits again. -/
def wake (s : State τ κ) (t : τ) (e : Callback_ κ) : State τ κ :=
  if e.state = .detached__ then
    { s.erase (.thread t) e.node with threads := Function.update s.threads t .free }
  else s

/-- One element of `callbacks_to_remove`. -/
def remove (s : State τ κ) (file_descriptor : ℤ) (callbacks_to_remove : List ℤ) : State τ κ :=
  match findFD file_descriptor s.callbacks_ with
  | none => { s with worker := .locked callbacks_to_remove }
  | some e =>
      let callbacks := setState e.node .pending_detachment__ s.callbacks_
      match e.on_error_callback with
      | none => { s with callbacks_ := callbacks, worker := .locked callbacks_to_remove }
      | some on_error_callback =>
          { s with
            callbacks_ := callbacks
            worker := .reporting e.node on_error_callback callbacks_to_remove
            log := s.log ++ [.errorCalled e.node] }

end State

/-- What can happen: a call of `attach` or `detach`, the return of a wait, the destructor, or a
step of the worker, with what its environment answers. -/
inductive Action (τ κ : Type*) where
  | attach (who : Actor τ) (file_descriptor : ℤ) (on_select_callback : κ)
      (on_error_callback : Option κ)
  | detach (who : Actor τ) (file_descriptor : ℤ)
  | wake (t : τ)
  | destroy
  | exit
  | compute
  | select (read_fds : Finset ℤ)
  | selectFails
  | test (testFD_ : ℤ → Bool)
  | collect
  | call
  | callReturns
  | callThrows
  | lock
  | remove
  | errorReturns
  | unlock
  | drain (bytes_read : ℕ)

open State in
variable [DecidableEq τ] in
/-- The steps.  `pipe` is the descriptor that `sync_pipe_` is read from; it is open all along, so
that nobody else has its number.  `select` reports what is readable, among it the pipe if and only
if it holds a byte, and leaves the sets as they are where it fails. -/
inductive Step (pipe : ℤ) : State τ κ → Action τ κ → State τ κ → Prop where
  | attach {s who fd f g} : s.MayCall who → fd ≠ pipe →
      Step pipe s (.attach who fd f g) (s.attach fd f g)
  | detach {s who fd} : s.MayCall who → Step pipe s (.detach who fd) (s.detach who fd)
  | wake {s t e} : s.threads t = .waiting e.node → e ∈ s.callbacks_ → ¬ s.worker.HoldsLock →
      Step pipe s (.wake t) (s.wake t e)
  | destroy {s} : Step pipe s .destroy { s with done_ := true, sync_pipe_ := s.sync_pipe_ + 1 }
  | exit {s} : s.worker = .top → s.done_ = true → Step pipe s .exit { s with worker := .exited }
  | compute {s} : s.worker = .top → s.done_ = false →
      Step pipe s .compute
        { s with
          callbacks_ := s.callbacks_.map Callback_.computed
          worker := .selecting (insert pipe (selectSet s.callbacks_))
          changed := false }
  | select {s fds read_fds} : s.worker = .selecting fds → read_fds ⊆ fds → read_fds.Nonempty →
      (pipe ∈ read_fds ↔ 0 < s.sync_pipe_) →
      Step pipe s (.select read_fds) { s with worker := .reported read_fds }
  | selectFails {s fds} : s.worker = .selecting fds →
      Step pipe s .selectFails { s with worker := .failed fds }
  | test {s fds testFD_} : s.worker = .failed fds →
      Step pipe s (.test testFD_)
        { s with worker := .leave pipe fds (brokenFDs testFD_ s.callbacks_) }
  | collect {s fds} : s.worker = .reported fds →
      Step pipe s .collect
        { s with worker := .dispatch pipe fds (callbacksToCall fds s.callbacks_) [] }
  | call {s fds curr calls removals} : s.worker = .calling fds curr calls removals →
      Step pipe s .call
        { s with worker := .running fds curr calls removals, log := s.log ++ [.called curr.node] }
  | callReturns {s fds curr calls removals} : s.worker = .running fds curr calls removals →
      Step pipe s .callReturns { s with worker := .dispatch pipe fds calls removals }
  | callThrows {s fds curr calls removals} : s.worker = .running fds curr calls removals →
      Step pipe s .callThrows
        { s with worker := .dispatch pipe fds calls (removals ++ [curr.file_descriptor]) }
  | lock {s removals} : s.worker = .removing removals →
      Step pipe s .lock { s with worker := .locked removals }
  | remove {s fd removals} : s.worker = .locked (fd :: removals) →
      Step pipe s .remove (s.remove fd removals)
  | errorReturns {s node f removals} : s.worker = .reporting node f removals →
      Step pipe s .errorReturns { s with worker := .locked removals }
  | unlock {s} : s.worker = .locked [] → Step pipe s .unlock { s with worker := .top }
  | drain {s n} : s.worker = .draining → 0 < n → n ≤ 64 → n ≤ s.sync_pipe_ →
      Step pipe s (.drain n) { s with worker := .top, sync_pipe_ := s.sync_pipe_ - n }

/-! ### The list, lemmas -/

/-- The nodes of the entries. -/
def nodes (callbacks : List (Callback_ κ)) : List ℕ := callbacks.map Callback_.node

/-- The descriptors of the entries. -/
def descriptors (callbacks : List (Callback_ κ)) : List ℤ := callbacks.map Callback_.file_descriptor

lemma mem_nodes {e : Callback_ κ} {l : List (Callback_ κ)} (h : e ∈ l) : e.node ∈ nodes l :=
  List.mem_map_of_mem h

@[simp]
lemma computed_node (e : Callback_ κ) : e.computed.node = e.node := by
  rw [Callback_.computed]
  split_ifs <;> rfl

@[simp]
lemma computed_file_descriptor (e : Callback_ κ) :
    e.computed.file_descriptor = e.file_descriptor := by
  rw [Callback_.computed]
  split_ifs <;> rfl

@[simp]
lemma nodes_computed (l : List (Callback_ κ)) : nodes (l.map Callback_.computed) = nodes l := by
  simp [nodes, Function.comp_def]

@[simp]
lemma descriptors_computed (l : List (Callback_ κ)) :
    descriptors (l.map Callback_.computed) = descriptors l := by
  simp [descriptors, Function.comp_def]

@[simp]
lemma nodes_setState (n : ℕ) (state : AttachmentState_) (l : List (Callback_ κ)) :
    nodes (setState n state l) = nodes l := by
  rw [nodes, nodes, setState, List.map_map]
  exact List.map_congr_left fun e _ => by dsimp only [Function.comp]; split_ifs <;> rfl

@[simp]
lemma descriptors_setState (n : ℕ) (state : AttachmentState_) (l : List (Callback_ κ)) :
    descriptors (setState n state l) = descriptors l := by
  rw [descriptors, descriptors, setState, List.map_map]
  exact List.map_congr_left fun e _ => by dsimp only [Function.comp]; split_ifs <;> rfl

@[simp]
lemma nodes_append (l l' : List (Callback_ κ)) : nodes (l ++ l') = nodes l ++ nodes l' :=
  List.map_append

@[simp]
lemma descriptors_append (l l' : List (Callback_ κ)) :
    descriptors (l ++ l') = descriptors l ++ descriptors l' :=
  List.map_append

/-- A new node behind older ones. -/
lemma nodes_append_new {l : List (Callback_ κ)} {next : ℕ} (hnodup : (nodes l).Nodup)
    (hfresh : ∀ n ∈ nodes l, n < next) (e : Callback_ κ) (he : e.node = next) :
    (nodes (l ++ [e])).Nodup ∧ ∀ n ∈ nodes (l ++ [e]), n < next + 1 := by
  have hlast : nodes (l ++ [e]) = nodes l ++ [next] := by rw [nodes_append, ← he]; rfl
  have hnew : next ∉ nodes l := fun hn => (hfresh _ hn).false
  rw [hlast]
  refine ⟨hnodup.append (List.nodup_singleton _) (by simpa using hnew), fun n hn => ?_⟩
  rcases List.mem_append.mp hn with hn | hn
  · exact (hfresh n hn).trans (Nat.lt_succ_self _)
  · exact (List.mem_singleton.mp hn) ▸ Nat.lt_succ_self _

lemma eraseNode_sublist (n : ℕ) (l : List (Callback_ κ)) : (eraseNode n l).Sublist l :=
  List.filter_sublist

lemma mem_eraseNode {n : ℕ} {l : List (Callback_ κ)} {e : Callback_ κ} :
    e ∈ eraseNode n l ↔ e ∈ l ∧ e.node ≠ n := by
  simp [eraseNode]

/-- What is set of an erased node does not matter. -/
lemma eraseNode_setState (n : ℕ) (state : AttachmentState_) (l : List (Callback_ κ)) :
    eraseNode n (setState n state l) = eraseNode n l := by
  induction l with
  | nil => rfl
  | cons e l ih =>
      rw [eraseNode, setState] at ih ⊢
      by_cases hn : e.node = n <;> simpa [eraseNode, hn] using ih

/-- The erased node is gone, the others stay. -/
@[simp]
lemma mem_nodes_eraseNode {m n : ℕ} {l : List (Callback_ κ)} :
    m ∈ nodes (eraseNode n l) ↔ m ∈ nodes l ∧ m ≠ n := by
  simp only [nodes, List.mem_map, mem_eraseNode]
  constructor
  · rintro ⟨e, ⟨he, hne⟩, rfl⟩
    exact ⟨⟨e, he, rfl⟩, hne⟩
  · rintro ⟨⟨e, he, rfl⟩, hne⟩
    exact ⟨e, ⟨he, hne⟩, rfl⟩

lemma mem_of_findFD {fd : ℤ} {l : List (Callback_ κ)} {e : Callback_ κ} (h : findFD fd l = some e) :
    e ∈ l ∧ e.file_descriptor = fd :=
  ⟨List.mem_of_find?_eq_some h, by simpa using List.find?_some h⟩

/-- Every copied callback comes from an entry whose descriptor is set. -/
lemma mem_callbacksToCall {fds : Finset ℤ} {l : List (Callback_ κ)} {c : CallbackToCall κ}
    (h : c ∈ callbacksToCall fds l) :
    ∃ e ∈ l, e.file_descriptor ∈ fds ∧ c = ⟨e.node, e.file_descriptor, e.on_select_callback⟩ := by
  obtain ⟨e, he, rfl⟩ := List.mem_map.mp h
  obtain ⟨hmem, hfd⟩ := List.mem_filter.mp he
  exact ⟨e, hmem, of_decide_eq_true hfd, rfl⟩

lemma mem_selectSet {fd : ℤ} {l : List (Callback_ κ)} :
    fd ∈ selectSet l ↔ ∃ e ∈ l, e.Selected ∧ e.file_descriptor = fd := by
  simp [selectSet, and_assoc]

/-! ### What the functions do -/

section Cases

variable (s : State τ κ)

lemma nodes_attach (fd : ℤ) (f : κ) (g : Option κ) :
    nodes (s.attach fd f g).callbacks_ = nodes s.callbacks_ ++ [s.next_node] :=
  nodes_append _ _

lemma descriptors_attach (fd : ℤ) (f : κ) (g : Option κ) :
    descriptors (s.attach fd f g).callbacks_ = descriptors s.callbacks_ ++ [fd] :=
  descriptors_append _ _

/-- An entry that is gone does not come back. -/
lemma gone_attach {n : ℕ} (hlt : n < s.next_node) (hgone : n ∉ nodes s.callbacks_) (fd : ℤ) (f : κ)
    (g : Option κ) : n < (s.attach fd f g).next_node ∧ n ∉ nodes (s.attach fd f g).callbacks_ := by
  refine ⟨hlt.trans (Nat.lt_succ_self _), fun hmem => ?_⟩
  rw [nodes_attach] at hmem
  rcases List.mem_append.mp hmem with hmem | hmem
  · exact hgone hmem
  · exact hlt.ne (List.mem_singleton.mp hmem)

variable [DecidableEq τ] in
/-- A `detach` finds no entry, or it marks one, which the worker erases and another thread waits
for. -/
lemma State.detach_cases (who : Actor τ) (fd : ℤ) : s.detach who fd = s ∨
    ∃ e, findFD fd s.callbacks_ = some e ∧
      ((who = .worker ∧ s.detach who fd = (s.mark e.node).erase .worker e.node) ∨
        ∃ t, who = .thread t ∧ s.detach who fd =
          { s.mark e.node with threads := Function.update s.threads t (.waiting e.node) }) := by
  rw [detach]
  cases findFD fd s.callbacks_ with
  | none => exact .inl rfl
  | some e =>
      cases who with
      | worker => exact .inr ⟨e, rfl, .inl ⟨rfl, rfl⟩⟩
      | thread t => exact .inr ⟨e, rfl, .inr ⟨t, rfl, rfl⟩⟩

/-- A removal finds no entry, or it marks one, and calls its error callback if there is one. -/
lemma State.remove_cases (fd : ℤ) (removals : List ℤ) :
    s.remove fd removals = { s with worker := .locked removals } ∨
    ∃ e, findFD fd s.callbacks_ = some e ∧
      (s.remove fd removals =
          { s with
            callbacks_ := setState e.node .pending_detachment__ s.callbacks_
            worker := .locked removals } ∨
        ∃ g, s.remove fd removals =
          { s with
            callbacks_ := setState e.node .pending_detachment__ s.callbacks_
            worker := .reporting e.node g removals
            log := s.log ++ [.errorCalled e.node] }) := by
  rw [remove]
  cases findFD fd s.callbacks_ with
  | none => exact .inl rfl
  | some e =>
      dsimp only
      cases e.on_error_callback with
      | none => exact .inr ⟨e, rfl, .inl rfl⟩
      | some g => exact .inr ⟨e, rfl, .inr ⟨g, rfl⟩⟩

end Cases

/-! ### The events -/

/-- After a `detach` by `who` the entry's callbacks are not called. -/
def Final (who : Actor τ) (log : List (Event τ)) : Prop :=
  log.Pairwise fun earlier later =>
    ∀ n, earlier = .detached who n → later ≠ .called n ∧ later ≠ .errorCalled n

/-- Another event, that is no call of an entry detached before. -/
lemma Final.append {who : Actor τ} {log : List (Event τ)} (h : Final who log) {event : Event τ}
    (hgone : ∀ n, .detached who n ∈ log → event ≠ .called n ∧ event ≠ .errorCalled n) :
    Final who (log ++ [event]) :=
  List.pairwise_append.mpr ⟨h, List.pairwise_singleton _ _, fun _ he later hl n hn => by
    rw [List.mem_singleton.mp hl]
    exact hgone n (hn ▸ he)⟩

lemma Final.detached {who : Actor τ} {log : List (Event τ)} (h : Final who log) (who' : Actor τ)
    (n : ℕ) : Final who (log ++ [.detached who' n]) :=
  h.append fun _ _ => ⟨by simp, by simp⟩

/-- Behind the `detach` there is no call. -/
lemma Final.not_called {who : Actor τ} {log before after : List (Event τ)} {n : ℕ}
    (h : Final who log) (hlog : log = before ++ .detached who n :: after) :
    .called n ∉ after ∧ .errorCalled n ∉ after := by
  have hafter := (List.pairwise_cons.mp (List.pairwise_append.mp (hlog ▸ h)).2.1).1
  exact ⟨fun hmem => (hafter _ hmem n rfl).1 rfl, fun hmem => (hafter _ hmem n rfl).2 rfl⟩

/-! ### The nodes -/

/-- Every entry has a node of its own, older than the next one. -/
structure Numbered (s : State τ κ) : Prop where
  nodup : (nodes s.callbacks_).Nodup
  fresh : ∀ n ∈ nodes s.callbacks_, n < s.next_node

variable {pipe : ℤ} {s s' : State τ κ}

lemma Numbered.init : Numbered (State.init : State τ κ) :=
  ⟨List.nodup_nil, by simp [State.init, nodes]⟩

/-- Two entries of one node are the same. -/
lemma Numbered.eq_of_node (h : Numbered s) {e e' : Callback_ κ} (he : e ∈ s.callbacks_)
    (he' : e' ∈ s.callbacks_) (hn : e.node = e'.node) : e = e' :=
  List.inj_on_of_nodup_map h.nodup he he' hn

/-- Nodes only go away. -/
lemma Numbered.of_sublist (h : Numbered s)
    (hsub : (nodes s'.callbacks_).Sublist (nodes s.callbacks_))
    (hnext : s'.next_node = s.next_node) : Numbered s' :=
  ⟨h.nodup.sublist hsub, fun n hn => hnext ▸ h.fresh n (hsub.subset hn)⟩

lemma Numbered.congr (h : Numbered s) (hnodes : nodes s'.callbacks_ = nodes s.callbacks_)
    (hnext : s'.next_node = s.next_node) : Numbered s' :=
  h.of_sublist (hnodes ▸ List.Sublist.refl _) hnext

lemma Numbered.attach (h : Numbered s) (fd : ℤ) (f : κ) (g : Option κ) :
    Numbered (s.attach fd f g) := by
  obtain ⟨hnodup, hfresh⟩ := nodes_append_new h.nodup h.fresh
    ⟨s.next_node, fd, f, g, .pending_attachment__⟩ rfl
  exact ⟨hnodup, hfresh⟩

lemma Numbered.erase (h : Numbered s) (who : Actor τ) (n : ℕ) : Numbered (s.erase who n) :=
  h.of_sublist ((eraseNode_sublist n s.callbacks_).map _) rfl

lemma Numbered.mark (h : Numbered s) (n : ℕ) : Numbered (s.mark n) :=
  h.congr (nodes_setState _ _ _) rfl

variable [DecidableEq τ]

/-- **What a step does to the list**: nothing, the computation of the set, a mark, the end of a
`detach`, or `attach`. -/
lemma Step.list_cases {a : Action τ κ} (hstep : Step pipe s a s') :
    (s'.next_node = s.next_node ∧
      (s'.callbacks_ = s.callbacks_ ∨ s'.callbacks_ = s.callbacks_.map Callback_.computed ∨
        (∃ n, s'.callbacks_ = setState n .pending_detachment__ s.callbacks_) ∨
          ∃ n, s'.callbacks_ = eraseNode n s.callbacks_)) ∨
    ∃ who fd f g, a = .attach who fd f g ∧ s' = s.attach fd f g := by
  cases hstep with
  | attach => exact .inr ⟨_, _, _, _, rfl, rfl⟩
  | @detach who fd _ =>
      obtain hd | ⟨e, -, ⟨rfl, hd⟩ | ⟨t, rfl, hd⟩⟩ := s.detach_cases who fd <;> rw [hd]
      · exact .inl ⟨rfl, .inl rfl⟩
      · exact .inl ⟨rfl, .inr (.inr (.inr ⟨e.node, eraseNode_setState _ _ _⟩))⟩
      · exact .inl ⟨rfl, .inr (.inr (.inl ⟨e.node, rfl⟩))⟩
  | @wake t e =>
      rw [State.wake]
      split_ifs
      · exact .inl ⟨rfl, .inr (.inr (.inr ⟨e.node, rfl⟩))⟩
      · exact .inl ⟨rfl, .inl rfl⟩
  | compute => exact .inl ⟨rfl, .inr (.inl rfl)⟩
  | @remove fd removals _ =>
      obtain hr | ⟨e, -, hr | ⟨g, hr⟩⟩ := s.remove_cases fd removals <;> rw [hr]
      · exact .inl ⟨rfl, .inl rfl⟩
      · exact .inl ⟨rfl, .inr (.inr (.inl ⟨e.node, rfl⟩))⟩
      · exact .inl ⟨rfl, .inr (.inr (.inl ⟨e.node, rfl⟩))⟩
  | _ => exact .inl ⟨rfl, .inl rfl⟩

/-- Every step keeps the nodes apart. -/
lemma Numbered.step {a : Action τ κ} (h : Numbered s) (hstep : Step pipe s a s') : Numbered s' := by
  obtain ⟨hnext, hl | hl | ⟨n, hl⟩ | ⟨n, hl⟩⟩ | ⟨who, fd, f, g, -, rfl⟩ := hstep.list_cases
  · exact h.congr (by rw [hl]) hnext
  · exact h.congr (by rw [hl, nodes_computed]) hnext
  · exact h.congr (by rw [hl, nodes_setState]) hnext
  · exact h.of_sublist (hl ▸ (eraseNode_sublist n s.callbacks_).map _) hnext
  · exact h.attach fd f g

end Arachnida.Spin.Private
