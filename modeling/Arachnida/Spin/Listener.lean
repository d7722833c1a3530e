import Arachnida.Spin.Private.ConnectionHandler
import Mathlib.Data.List.Count

/-!
A listener and the connection handler, `Spin::Listener`, with the clients that wait to be accepted.

* `Listening`: the handler, the pointer `new_connection_handler_`, the thread that uses the listener
  and the clients.
* `Listening.Step`: `setNewConnectionHandler`, which attaches the descriptor,
  `clearNewConnectionHandler`, which detaches it once, and the callback `onNewConnection_`.
* `Registered`: the bookkeeping of the entries.
* `entries_of_sets`: **every call of `setNewConnectionHandler` adds an entry and
  `clearNewConnectionHandler` takes one out**, and forgets the handler: a listener that was set
  twice stays registered behind the clear, with nothing to call.
* `accepted_in_rounds`: **clients are accepted in rounds**, one for each entry: a worker that has
  accepted a client for a listener that was set twice goes on only when it has accepted another one.

One thread at a time uses the listener, and not from a callback.  The constructors set `bio_`, so
that nothing is thrown for want of one, and its descriptor stays the same until `abort`, which is
left out.  `accept` waits for a client.  A handler that is null when `accept` has returned ends the
run.
-/

namespace Arachnida.Spin

open Library Private

variable {τ κ : Type*}

/-- Nobody uses the listener, or a thread waits in `detach`. -/
inductive Listening.User (τ : Type*) where
  | nobody
  | detaching (t : τ)
  deriving DecidableEq, Repr

/-- The listener in its surroundings: `seen` is what a running `onNewConnection_` has read of the
pointer, `backlog` are the clients that wait.  `sets` and `clears` are the observer's, the calls of
`setNewConnectionHandler` that have returned and those of `clearNewConnectionHandler` that have
detached an entry. -/
structure Listening (τ κ : Type*) where
  handler : State τ κ
  new_connection_handler_ : Bool
  user : Listening.User τ
  seen : Option Bool
  backlog : ℕ
  accepted : ℕ
  sets : ℕ
  clears : ℕ

/-- Nothing registered and nobody there. -/
def Listening.init : Listening τ κ := ⟨State.init, false, .nobody, none, 0, 0, 0, 0⟩

/-- The worker is in this callback. -/
def Private.Worker.Calls (w : Worker κ) (f : κ) : Prop :=
  ∃ fds curr calls removals, w = .running fds curr calls removals ∧ curr.callback = f

/-- What others do: their descriptors and callbacks are not the listener's, and its wait is not
theirs. -/
def Elsewhere (fd : ℤ) (f : κ) (s : Listening τ κ) : Private.Action τ κ → Prop
  | .attach _ fd' g _ => fd' ≠ fd ∧ g ≠ f
  | .detach _ fd' => fd' ≠ fd
  | .wake t => s.user ≠ .detaching t
  | .callReturns | .callThrows => ¬ s.handler.worker.Calls f
  | _ => True

/-- A step of the handler elsewhere, a step of a method of the listener or of its callback, or a
client. -/
inductive Listening.Action (τ κ : Type*) where
  | elsewhere (a : Private.Action τ κ)
  | set (t : τ)
  | clear (t : τ)
  | wake (t : τ)
  | arrive
  | read
  | ignore
  | accept
  | acceptFails
  | handlerThrows

open Listening in
variable [DecidableEq τ] in
/-- The steps, of a listener with the descriptor `fd` whose callback is `f`. -/
inductive Listening.Step (pipe fd : ℤ) (f : κ) :
    Listening τ κ → Listening.Action τ κ → Listening τ κ → Prop where
  | elsewhere {s a handler} : Elsewhere fd f s a → Private.Step pipe s.handler a handler →
      Step pipe fd f s (.elsewhere a) { s with handler := handler }
  -- `setNewConnectionHandler`
  | set {s t} : s.user = .nobody → s.handler.MayCall (.thread t) → fd ≠ pipe →
      Step pipe fd f s (.set t)
        { s with
          handler := s.handler.attach fd f none
          new_connection_handler_ := true
          sets := s.sets + 1 }
  -- `clearNewConnectionHandler`, with nothing to clear, without an entry and with a wait
  | clearNone {s t} : s.user = .nobody → s.new_connection_handler_ = false →
      Step pipe fd f s (.clear t) s
  | clearGone {s t} : s.user = .nobody → s.new_connection_handler_ = true →
      s.handler.MayCall (.thread t) → findFD fd s.handler.callbacks_ = none →
      Step pipe fd f s (.clear t) { s with new_connection_handler_ := false }
  | clear {s t e} : s.user = .nobody → s.new_connection_handler_ = true →
      s.handler.MayCall (.thread t) → findFD fd s.handler.callbacks_ = some e →
      Step pipe fd f s (.clear t)
        { s with handler := s.handler.detach (.thread t) fd, user := .detaching t }
  | wait {s t e} : s.user = .detaching t → s.handler.threads t = .waiting e.node →
      e ∈ s.handler.callbacks_ → ¬ s.handler.worker.HoldsLock → e.state ≠ .detached__ →
      Step pipe fd f s (.wake t) { s with handler := s.handler.wake t e }
  | wake {s t e} : s.user = .detaching t → s.handler.threads t = .waiting e.node →
      e ∈ s.handler.callbacks_ → ¬ s.handler.worker.HoldsLock → e.state = .detached__ →
      Step pipe fd f s (.wake t)
        { s with
          handler := s.handler.wake t e
          new_connection_handler_ := false
          user := .nobody
          clears := s.clears + 1 }
  | arrive {s} : Step pipe fd f s .arrive { s with backlog := s.backlog + 1 }
  -- `onNewConnection_`: it reads the pointer, and accepts if there is a handler
  | read {s} : s.handler.worker.Calls f → s.seen = none →
      Step pipe fd f s .read { s with seen := some s.new_connection_handler_ }
  | ignore {s handler} : s.handler.worker.Calls f → s.seen = some false →
      Private.Step pipe s.handler .callReturns handler →
      Step pipe fd f s .ignore { s with handler := handler, seen := none }
  | accept {s handler} : s.handler.worker.Calls f → s.seen = some true →
      s.new_connection_handler_ = true → 0 < s.backlog →
      Private.Step pipe s.handler .callReturns handler →
      Step pipe fd f s .accept
        { s with
          handler := handler
          seen := none
          backlog := s.backlog - 1
          accepted := s.accepted + 1 }
  | acceptFails {s handler} : s.handler.worker.Calls f → s.seen = some true →
      Private.Step pipe s.handler .callThrows handler →
      Step pipe fd f s .acceptFails { s with handler := handler, seen := none }
  | handlerThrows {s handler} : s.handler.worker.Calls f → s.seen = some true →
      s.new_connection_handler_ = true → 0 < s.backlog →
      Private.Step pipe s.handler .callThrows handler →
      Step pipe fd f s .handlerThrows
        { s with
          handler := handler
          seen := none
          backlog := s.backlog - 1
          accepted := s.accepted + 1 }

/-! ### The entries of a descriptor -/

/-- How often the descriptor is in the list. -/
def entries (fd : ℤ) (callbacks : List (Callback_ κ)) : ℕ := (descriptors callbacks).count fd

lemma entries_attach (h : State τ κ) (fd fd' : ℤ) (f : κ) (g : Option κ) :
    entries fd (h.attach fd' f g).callbacks_
      = entries fd h.callbacks_ + if fd' = fd then 1 else 0 := by
  rw [entries, descriptors_attach, List.count_append, List.count_singleton]
  simp [entries]

/-- The entry of a node is erased. -/
lemma entries_eraseNode {l : List (Callback_ κ)} (hnodup : (nodes l).Nodup) {e : Callback_ κ}
    (he : e ∈ l) (fd : ℤ) :
    entries fd (eraseNode e.node l) + (if e.file_descriptor = fd then 1 else 0) = entries fd l := by
  induction l with
  | nil => simp at he
  | cons e₀ l ih =>
      obtain ⟨hfresh, hrest⟩ := List.nodup_cons.mp hnodup
      rcases List.mem_cons.mp he with rfl | he
      · have hkeep : eraseNode e.node (e :: l) = l := by
          have hothers : ∀ e' ∈ l, e'.node ≠ e.node := fun e' he' hn => hfresh (hn ▸ mem_nodes he')
          simpa [eraseNode, List.filter_eq_self] using hothers
        rw [hkeep, entries, entries, descriptors, descriptors, List.map_cons, List.count_cons]
        simp
      · have hne : e₀.node ≠ e.node := fun hn => hfresh (hn ▸ mem_nodes he)
        have hstep : eraseNode e.node (e₀ :: l) = e₀ :: eraseNode e.node l := by
          simp [eraseNode, hne]
        have hlater := ih hrest he
        simp only [entries, descriptors, hstep, List.map_cons, List.count_cons] at hlater ⊢
        omega

/-! ### The bookkeeping -/

/-- The entries of the listener are those with its callback, and the thread in its `detach` is the
one that waits for one of them. -/
structure Owned (fd : ℤ) (f : κ) (user : Listening.User τ) (h : State τ κ) : Prop where
  numbered : Numbered h
  owner : ∀ e ∈ h.callbacks_, e.on_select_callback = f ↔ e.file_descriptor = fd
  old : ∀ t n, h.threads t = .waiting n → n < h.next_node
  waits : ∀ t n, h.threads t = .waiting n →
    ∀ e ∈ h.callbacks_, e.node = n → (e.file_descriptor = fd ↔ user = .detaching t)

section Owned

variable {fd : ℤ} {f : κ} {user user' : Listening.User τ} {h h' : State τ κ}

/-- A change of the states of the entries. -/
lemma Owned.of_map (hs : Owned fd f user h) {change : Callback_ κ → Callback_ κ}
    (hchange : ∀ e, (change e).node = e.node ∧ (change e).file_descriptor = e.file_descriptor ∧
      (change e).on_select_callback = e.on_select_callback)
    (hlist : h'.callbacks_ = h.callbacks_.map change) (hnext : h'.next_node = h.next_node)
    (hthreads : h'.threads = h.threads) :
    Owned fd f user h' ∧ entries fd h'.callbacks_ = entries fd h.callbacks_ := by
  have hnodes : nodes h'.callbacks_ = nodes h.callbacks_ := by
    rw [hlist, nodes, nodes, List.map_map]
    exact List.map_congr_left fun e _ => (hchange e).1
  have hdescriptors : descriptors h'.callbacks_ = descriptors h.callbacks_ := by
    rw [hlist, descriptors, descriptors, List.map_map]
    exact List.map_congr_left fun e _ => (hchange e).2.1
  refine ⟨⟨hs.numbered.congr hnodes hnext, ?_, ?_, ?_⟩, by rw [entries, entries, hdescriptors]⟩
  · intro e' he'
    rw [hlist] at he'
    obtain ⟨e, he, rfl⟩ := List.mem_map.mp he'
    rw [(hchange e).2.1, (hchange e).2.2]
    exact hs.owner e he
  · rw [hthreads, hnext]
    exact hs.old
  · rw [hthreads]
    intro t n ht e' he' hn
    rw [hlist] at he'
    obtain ⟨e, he, rfl⟩ := List.mem_map.mp he'
    rw [(hchange e).2.1]
    exact hs.waits t n ht e he ((hchange e).1.symm.trans hn)

/-- Neither the list nor the threads change. -/
lemma Owned.of_list (hs : Owned fd f user h) (hlist : h'.callbacks_ = h.callbacks_)
    (hnext : h'.next_node = h.next_node) (hthreads : h'.threads = h.threads) :
    Owned fd f user h' ∧ entries fd h'.callbacks_ = entries fd h.callbacks_ :=
  hs.of_map (fun _ => ⟨rfl, rfl, rfl⟩) (hlist.trans (List.map_id _).symm) hnext hthreads

lemma Owned.setState (hs : Owned fd f user h) {n : ℕ} {state : AttachmentState_}
    (hlist : h'.callbacks_ = Private.setState n state h.callbacks_)
    (hnext : h'.next_node = h.next_node) (hthreads : h'.threads = h.threads) :
    Owned fd f user h' ∧ entries fd h'.callbacks_ = entries fd h.callbacks_ :=
  hs.of_map (fun e => by split_ifs <;> exact ⟨rfl, rfl, rfl⟩) hlist hnext hthreads

lemma Owned.mark (hs : Owned fd f user h) (n : ℕ) :
    Owned fd f user (h.mark n) ∧ entries fd (h.mark n).callbacks_ = entries fd h.callbacks_ :=
  hs.setState rfl rfl rfl

lemma Owned.attach (hs : Owned fd f user h) {fd' : ℤ} {f' : κ} (hf : f' = f ↔ fd' = fd)
    (g : Option κ) : Owned fd f user (h.attach fd' f' g) := by
  have hlist : (h.attach fd' f' g).callbacks_
      = h.callbacks_ ++ [⟨h.next_node, fd', f', g, .pending_attachment__⟩] := rfl
  refine ⟨hs.numbered.attach fd' f' g, fun e he => ?_, fun t n ht => ?_, fun t n ht e he hn => ?_⟩
  · rw [hlist] at he
    rcases List.mem_append.mp he with he | he
    · exact hs.owner e he
    · rw [List.mem_singleton.mp he]
      exact hf
  · exact (hs.old t n ht).trans (Nat.lt_succ_self _)
  · rw [hlist] at he
    rcases List.mem_append.mp he with he | he
    · exact hs.waits t n ht e he hn
    · rw [List.mem_singleton.mp he] at hn
      exact absurd hn (hs.old t n ht).ne'

lemma Owned.erase (hs : Owned fd f user h) (who : Actor τ) (n : ℕ) :
    Owned fd f user (h.erase who n) where
  numbered := hs.numbered.erase who n
  owner := fun e he => hs.owner e (mem_eraseNode.mp he).1
  old := hs.old
  waits := fun t m ht e he => hs.waits t m ht e (mem_eraseNode.mp he).1

variable [DecidableEq τ]

/-- A thread begins to wait for an entry. -/
lemma Owned.wait (hs : Owned fd f user h) {t : τ} {e : Callback_ κ} (he : e ∈ h.callbacks_)
    (hother : ∀ t', t' ≠ t → (user' = .detaching t' ↔ user = .detaching t'))
    (hself : e.file_descriptor = fd ↔ user' = .detaching t) :
    Owned fd f user' { h with threads := Function.update h.threads t (.waiting e.node) } := by
  refine ⟨hs.numbered.congr rfl rfl, hs.owner, fun t' n ht' => ?_, fun t' n ht' e' he' hn => ?_⟩
  · rcases eq_or_ne t' t with rfl | hne
    · have hn : e.node = n := Thread.waiting.inj ((Function.update_self ..).symm.trans ht')
      exact hn ▸ hs.numbered.fresh _ (mem_nodes he)
    · exact hs.old t' n ((Function.update_of_ne hne ..).symm.trans ht')
  · rcases eq_or_ne t' t with rfl | hne
    · have hnode : e.node = n := Thread.waiting.inj ((Function.update_self ..).symm.trans ht')
      obtain rfl := hs.numbered.eq_of_node he' he (hn.trans hnode.symm)
      exact hself
    · rw [hother t' hne]
      exact hs.waits t' n ((Function.update_of_ne hne ..).symm.trans ht') e' he' hn

/-- A thread has waited. -/
lemma Owned.free (hs : Owned fd f user h) {t : τ}
    (hother : ∀ t', t' ≠ t → (user' = .detaching t' ↔ user = .detaching t')) :
    Owned fd f user' { h with threads := Function.update h.threads t .free } := by
  have hthread : ∀ t' n, Function.update h.threads t .free t' = .waiting n →
      t' ≠ t ∧ h.threads t' = .waiting n := by
    intro t' n ht'
    rcases eq_or_ne t' t with rfl | hne
    · rw [Function.update_self] at ht'
      cases ht'
    · exact ⟨hne, (Function.update_of_ne hne ..).symm.trans ht'⟩
  refine ⟨hs.numbered.congr rfl rfl, hs.owner, fun t' n ht' => ?_, fun t' n ht' e he hn => ?_⟩
  · exact hs.old t' n (hthread t' n ht').2
  · obtain ⟨hne, ht'⟩ := hthread t' n ht'
    rw [hother t' hne]
    exact hs.waits t' n ht' e he hn

end Owned

variable [DecidableEq τ] {pipe fd : ℤ} {f : κ} {s s' : Listening τ κ}

/-- A step elsewhere leaves the entries of the listener and the thread that waits for one. -/
lemma Owned.elsewhere {a : Private.Action τ κ} {handler : State τ κ}
    (hs : Owned fd f s.user s.handler) (ha : Elsewhere fd f s a)
    (hbusy : ∀ t, s.user = .detaching t → s.handler.threads t ≠ .free)
    (hstep : Private.Step pipe s.handler a handler) :
    (Owned fd f s.user handler ∧ entries fd handler.callbacks_ = entries fd s.handler.callbacks_) ∧
      ∀ t, s.user = .detaching t → handler.threads t ≠ .free := by
  have hnumbered := hs.numbered
  cases hstep with
  | @attach who fd' g g' =>
      obtain ⟨hfd, hg⟩ := ha
      refine ⟨⟨hs.attach (iff_of_false hg hfd) g', ?_⟩, hbusy⟩
      rw [entries_attach, if_neg hfd, Nat.add_zero]
  | @detach who fd' hmay =>
      obtain hd | ⟨e, hfind, ⟨rfl, hd⟩ | ⟨t, rfl, hd⟩⟩ := s.handler.detach_cases who fd' <;> rw [hd]
      · exact ⟨⟨hs, rfl⟩, hbusy⟩
      · obtain ⟨he, hfd⟩ := mem_of_findFD hfind
        have hmark := (hs.mark e.node).1
        refine ⟨⟨hmark.erase .worker e.node, ?_⟩, hbusy⟩
        have herase := entries_eraseNode hnumbered.nodup he fd
        rw [if_neg (hfd ▸ ha), Nat.add_zero] at herase
        show entries fd (eraseNode e.node (Private.setState e.node _ _)) = _
        rw [eraseNode_setState, herase]
      · obtain ⟨he, hfd⟩ := mem_of_findFD hfind
        have hidle : s.user ≠ .detaching t := fun huser => hbusy t huser hmay.1
        obtain ⟨hmark, hentries⟩ := hs.mark e.node
        refine ⟨⟨?_, hentries⟩, fun t' huser => ?_⟩
        · refine hmark.wait (e := { e with state := .pending_detachment__ }) ?_
            (fun _ _ => Iff.rfl) (iff_of_false (hfd ▸ ha) hidle)
          exact List.mem_map.mpr ⟨e, he, if_pos rfl⟩
        · have hne : t' ≠ t := fun h => hidle (h ▸ huser)
          show Function.update s.handler.threads t (.waiting e.node) t' ≠ .free
          rw [Function.update_of_ne hne]
          exact hbusy t' huser
  | @wake t e ht he _ =>
      have hfd : e.file_descriptor ≠ fd := fun hfd => ha ((hs.waits t e.node ht e he rfl).mp hfd)
      rw [State.wake]
      split_ifs with hstate
      · refine ⟨⟨(hs.erase (.thread t) e.node).free fun _ _ => Iff.rfl, ?_⟩, fun t' huser => ?_⟩
        · have herase := entries_eraseNode hnumbered.nodup he fd
          rwa [if_neg hfd, Nat.add_zero] at herase
        · have hne : t' ≠ t := fun h => ha (h ▸ huser)
          show Function.update s.handler.threads t .free t' ≠ .free
          rw [Function.update_of_ne hne]
          exact hbusy t' huser
      · exact ⟨⟨hs, rfl⟩, hbusy⟩
  | compute =>
      refine ⟨hs.of_map (fun e => ⟨computed_node e, computed_file_descriptor e, ?_⟩) rfl rfl rfl,
        hbusy⟩
      rw [Callback_.computed]
      split_ifs <;> rfl
  | @remove fd' removals _ =>
      obtain hr | ⟨e, -, hr | ⟨g, hr⟩⟩ := s.handler.remove_cases fd' removals <;> rw [hr]
      · exact ⟨hs.of_list rfl rfl rfl, hbusy⟩
      · exact ⟨hs.setState rfl rfl rfl, hbusy⟩
      · exact ⟨hs.setState rfl rfl rfl, hbusy⟩
  | _ => exact ⟨hs.of_list rfl rfl rfl, hbusy⟩

/-- The worker stays in the callback until it returns or throws. -/
lemma Private.Worker.Calls.step {a : Private.Action τ κ} {h h' : State τ κ} (hc : h.worker.Calls f)
    (ha : a ≠ .callReturns ∧ a ≠ .callThrows) (hstep : Private.Step pipe h a h') :
    h'.worker.Calls f := by
  obtain ⟨fds, curr, calls, removals, hw, hf⟩ := hc
  cases hstep with
  | attach => exact ⟨_, _, _, _, hw, hf⟩
  | @detach who fd' _ =>
      obtain hd | ⟨e, -, ⟨rfl, hd⟩ | ⟨t, rfl, hd⟩⟩ := h.detach_cases who fd' <;> rw [hd] <;>
        exact ⟨_, _, _, _, hw, hf⟩
  | wake =>
      rw [State.wake]
      split_ifs <;> exact ⟨_, _, _, _, hw, hf⟩
  | destroy => exact ⟨_, _, _, _, hw, hf⟩
  | callReturns => exact absurd rfl ha.1
  | callThrows => exact absurd rfl ha.2
  | exit hw' | compute hw' | select hw' | selectFails hw' | test hw' | collect hw' | call hw'
    | lock hw' | remove hw' | errorReturns hw' | unlock hw' | drain hw' =>
      exact absurd (hw.symm.trans hw') (by simp)

/-- The return of a callback leaves the list and the threads. -/
lemma Owned.returns {a : Private.Action τ κ} {h h' : State τ κ} {user : Listening.User τ}
    (hs : Owned fd f user h) (ha : a = .callReturns ∨ a = .callThrows)
    (hstep : Private.Step pipe h a h') :
    (Owned fd f user h' ∧ entries fd h'.callbacks_ = entries fd h.callbacks_) ∧
      h'.threads = h.threads := by
  rcases ha with rfl | rfl <;> cases hstep <;> exact ⟨hs.of_list rfl rfl rfl, rfl⟩

/-- The bookkeeping of the listener. -/
structure Registered (fd : ℤ) (f : κ) (s : Listening τ κ) : Prop where
  owned : Owned fd f s.user s.handler
  busy : ∀ t, s.user = .detaching t → s.handler.threads t ≠ .free
  detaching : ∀ t, s.user = .detaching t → s.new_connection_handler_ = true
  seen : s.seen ≠ none → s.handler.worker.Calls f
  count : entries fd s.handler.callbacks_ + s.clears = s.sets
  pointer : s.clears + s.new_connection_handler_.toNat ≤ s.sets

omit [DecidableEq τ] in
lemma registered_init : Registered fd f (Listening.init : Listening τ κ) where
  owned := ⟨Numbered.init, by simp [Listening.init, State.init],
    by simp [Listening.init, State.init], by simp [Listening.init, State.init]⟩
  busy := by simp [Listening.init]
  detaching := by simp [Listening.init]
  seen := by simp [Listening.init]
  count := rfl
  pointer := le_rfl

omit [DecidableEq τ] in
/-- Only the clients and what the callback has seen change, and the list does not. -/
lemma Registered.of_handler (h : Registered fd f s) {handler : State τ κ}
    (howned : Owned fd f s.user handler ∧
      entries fd handler.callbacks_ = entries fd s.handler.callbacks_)
    (hthreads : ∀ t, s.user = .detaching t → handler.threads t ≠ .free) {seen : Option Bool}
    (hseen : seen ≠ none → handler.worker.Calls f) (backlog accepted : ℕ) :
    Registered fd f
      { s with handler := handler, seen := seen, backlog := backlog, accepted := accepted } :=
  ⟨howned.1, hthreads, h.detaching, hseen, howned.2 ▸ h.count, h.pointer⟩

/-- The callback returns or throws. -/
lemma Registered.returns (h : Registered fd f s) {a : Private.Action τ κ} {handler : State τ κ}
    (ha : a = .callReturns ∨ a = .callThrows) (hstep : Private.Step pipe s.handler a handler)
    (backlog accepted : ℕ) :
    Registered fd f
      { s with handler := handler, seen := none, backlog := backlog, accepted := accepted } := by
  obtain ⟨howned, hthreads⟩ := h.owned.returns ha hstep
  exact h.of_handler howned (hthreads ▸ h.busy) (fun hn => absurd rfl hn) backlog accepted

/-- Every step keeps the bookkeeping. -/
lemma Registered.step {a : Listening.Action τ κ} (h : Registered fd f s)
    (hstep : Listening.Step pipe fd f s a s') : Registered fd f s' := by
  have hcount := h.count
  have hpointer := h.pointer
  cases hstep with
  | @elsewhere a handler ha hstep =>
      obtain ⟨howned, hbusy⟩ := h.owned.elsewhere ha h.busy hstep
      refine h.of_handler howned hbusy (fun hseen => ?_) s.backlog s.accepted
      have hcalls := h.seen hseen
      refine hcalls.step ⟨?_, ?_⟩ hstep
      · rintro rfl
        exact ha hcalls
      · rintro rfl
        exact ha hcalls
  | @set t huser hmay _ =>
      have hentries := entries_attach s.handler fd fd f none
      have howned := h.owned.attach (iff_of_true rfl rfl) none
      refine ⟨howned, h.busy, fun _ _ => rfl, h.seen, ?_, ?_⟩
      · simp only [hentries, if_true]
        omega
      · simp only [Bool.toNat_true]
        omega
  | clearNone => exact h
  | clearGone huser hset _ _ =>
      refine ⟨h.owned, h.busy, by simp [huser], h.seen, hcount, ?_⟩
      exact (Nat.le_add_right _ _).trans hpointer
  | @clear t e huser hset hmay hfind =>
      obtain ⟨he, hfd⟩ := mem_of_findFD hfind
      obtain ⟨hmark, hentries⟩ := h.owned.mark e.node
      have hd : s.handler.detach (.thread t) fd =
          { s.handler.mark e.node with
            threads := Function.update s.handler.threads t (.waiting e.node) } := by
        rw [State.detach, hfind]
      rw [hd]
      refine ⟨?_, fun t' ht' => ?_, fun _ _ => hset, h.seen, ?_, ?_⟩
      · refine hmark.wait (e := { e with state := .pending_detachment__ })
          (List.mem_map.mpr ⟨e, he, if_pos rfl⟩) (fun t' hne => ?_) (iff_of_true hfd rfl)
        simp [huser, hne.symm]
      · obtain rfl := Listening.User.detaching.inj ht'
        show Function.update s.handler.threads t (.waiting e.node) t ≠ .free
        simp
      · exact hentries ▸ hcount
      · exact hpointer
  | wait _ _ _ _ hstate =>
      rw [State.wake, if_neg hstate]
      exact h
  | @wake t e huser ht he _ hstate =>
      have hfd : e.file_descriptor = fd := (h.owned.waits t e.node ht e he rfl).mpr huser
      have hset := h.detaching t huser
      have herase := entries_eraseNode h.owned.numbered.nodup he fd
      rw [if_pos hfd] at herase
      rw [State.wake, if_pos hstate]
      refine ⟨?_, by simp, by simp, h.seen, ?_, ?_⟩
      · refine (h.owned.erase (.thread t) e.node).free fun t' hne => ?_
        simp [huser, hne.symm]
      · show entries fd (eraseNode e.node s.handler.callbacks_) + (s.clears + 1) = s.sets
        omega
      · simp only [hset, Bool.toNat_true] at hpointer
        exact hpointer
  | arrive => exact h.of_handler ⟨h.owned, rfl⟩ h.busy h.seen _ _
  | read hcalls _ => exact h.of_handler ⟨h.owned, rfl⟩ h.busy (fun _ => hcalls) _ _
  | ignore _ _ hstep => exact h.returns (.inl rfl) hstep _ _
  | accept _ _ _ _ hstep => exact h.returns (.inl rfl) hstep _ _
  | acceptFails _ _ hstep => exact h.returns (.inr rfl) hstep _ _
  | handlerThrows _ _ _ _ hstep => exact h.returns (.inr rfl) hstep _ _

/-- In every state of every run. -/
lemma registered {before : List (Listening.Action τ κ)}
    (h : RunTo (Listening.Step pipe fd f) (Listening.init : Listening τ κ) before s) :
    Registered fd f s :=
  h.invariant (fun _ _ _ hs hstep => hs.step hstep) registered_init

section Rounds

variable [DecidableEq κ]

/-- The calls of the callback that have not returned in the round of the worker. -/
def Private.Worker.promised (f : κ) : Worker κ → ℕ
  | .calling _ curr calls _ | .running _ curr calls _ =>
      ((curr :: calls).map CallbackToCall.callback).count f
  | _ => 0

omit [DecidableEq τ] in
lemma promised_leave (fds : Finset ℤ) (removals : List ℤ) :
    (Worker.leave pipe fds removals : Worker κ).promised f = 0 := by
  rw [Worker.leave]
  split_ifs <;> rfl

omit [DecidableEq τ] in
lemma promised_dispatch (fds : Finset ℤ) (calls : List (CallbackToCall κ)) (removals : List ℤ) :
    (Worker.dispatch pipe fds calls removals).promised f
      = (calls.map CallbackToCall.callback).count f := by
  cases calls with
  | nil => exact promised_leave fds removals
  | cons c cs => rfl

/-- The worker copies the callback once for each entry. -/
lemma count_callbacksToCall {l : List (Callback_ κ)}
    (howner : ∀ e ∈ l, e.on_select_callback = f ↔ e.file_descriptor = fd) (fds : Finset ℤ) :
    ((callbacksToCall fds l).map CallbackToCall.callback).count f
      = if fd ∈ fds then entries fd l else 0 := by
  induction l with
  | nil => simp [callbacksToCall, entries, descriptors]
  | cons e l ih =>
      have hhead := howner e (by simp)
      have htail := ih fun e' he' => howner e' (by simp [he'])
      rw [callbacksToCall, List.filter_cons]
      by_cases hmem : e.file_descriptor ∈ fds
      · rw [if_pos (by simpa using hmem), List.map_cons, List.map_cons, List.count_cons]
        rw [callbacksToCall] at htail
        rw [htail]
        by_cases hfd : e.file_descriptor = fd
        · have hfds : fd ∈ fds := hfd ▸ hmem
          simp [hfds, hfd, hhead.mpr hfd, entries, descriptors]
        · have hf : e.on_select_callback ≠ f := fun hf => hfd (hhead.mp hf)
          simp [hfd, hf, entries, descriptors]
      · rw [if_neg (by simpa using hmem)]
        rw [callbacksToCall] at htail
        rw [htail]
        by_cases hfd : e.file_descriptor = fd
        · simp [hfd ▸ hmem]
        · simp [entries, descriptors, hfd]

/-- A step elsewhere begins a round, with a call for each entry if the descriptor is ready, or it
leaves the calls as they are. -/
lemma promised_elsewhere {a : Private.Action τ κ} {handler : State τ κ}
    (hs : Owned fd f s.user s.handler) (ha : Elsewhere fd f s a)
    (hstep : Private.Step pipe s.handler a handler) :
    ∃ k, handler.worker.promised f
      = s.handler.worker.promised f + entries fd s.handler.callbacks_ * k := by
  have hsame : handler.worker.promised f = s.handler.worker.promised f →
      ∃ k, handler.worker.promised f
        = s.handler.worker.promised f + entries fd s.handler.callbacks_ * k := fun h => ⟨0, h⟩
  -- a callback that returns or throws is not the listener's
  have hother : ∀ fds curr calls removals removals',
      s.handler.worker = .running fds curr calls removals → ¬ s.handler.worker.Calls f →
        (Worker.dispatch pipe fds calls removals').promised f = s.handler.worker.promised f := by
    intro fds curr calls removals removals' hw hcalls
    have hne : curr.callback ≠ f := fun hf => hcalls ⟨_, _, _, _, hw, hf⟩
    rw [promised_dispatch, hw, Worker.promised, List.map_cons, List.count_cons_of_ne hne]
  cases hstep with
  | attach => exact hsame rfl
  | @detach who fd' _ =>
      obtain hd | ⟨e, -, ⟨rfl, hd⟩ | ⟨t, rfl, hd⟩⟩ := s.handler.detach_cases who fd' <;>
        exact hsame (congrArg (fun h => h.worker.promised f) hd)
  | wake =>
      refine hsame ?_
      rw [State.wake]
      split_ifs <;> rfl
  | destroy => exact hsame rfl
  | @test fds testFD_ hw => exact hsame (by rw [hw]; exact promised_leave fds _)
  | @collect fds hw =>
      have hcount :
          (Worker.dispatch pipe fds (callbacksToCall fds s.handler.callbacks_) []).promised f
            = if fd ∈ fds then entries fd s.handler.callbacks_ else 0 :=
        (promised_dispatch _ _ _).trans (count_callbacksToCall hs.owner fds)
      refine ⟨if fd ∈ fds then 1 else 0, ?_⟩
      show (Worker.dispatch pipe fds (callbacksToCall fds s.handler.callbacks_) []).promised f = _
      rw [hcount, hw]
      split_ifs <;> simp [Worker.promised]
  | call hw => exact hsame (by rw [hw]; rfl)
  | callReturns hw => exact hsame (hother _ _ _ _ _ hw ha)
  | callThrows hw => exact hsame (hother _ _ _ _ _ hw ha)
  | @remove fd' removals hw =>
      obtain hr | ⟨e, -, hr | ⟨g, hr⟩⟩ := s.handler.remove_cases fd' removals <;>
        exact hsame (by rw [hr, hw]; rfl)
  | exit hw | compute hw | select hw | selectFails hw | lock hw | errorReturns hw | unlock hw
    | drain hw => exact hsame (by rw [hw]; rfl)

/-- One call less. -/
lemma promised_returns {a : Private.Action τ κ} {h h' : State τ κ} (hc : h.worker.Calls f)
    (ha : a = .callReturns ∨ a = .callThrows) (hstep : Private.Step pipe h a h') :
    h'.worker.promised f + 1 = h.worker.promised f := by
  obtain ⟨fds, curr, calls, removals, hw, hf⟩ := hc
  have hbefore : h.worker.promised f = (calls.map CallbackToCall.callback).count f + 1 := by
    rw [hw, Worker.promised, List.map_cons, hf, List.count_cons_self]
  rw [hbefore]
  rcases ha with rfl | rfl
  · cases hstep with
    | callReturns hw' =>
        obtain ⟨-, -, rfl, -⟩ := Worker.running.inj (hw.symm.trans hw')
        exact congrArg (· + 1) (promised_dispatch _ _ _)
  · cases hstep with
    | callThrows hw' =>
        obtain ⟨-, -, rfl, -⟩ := Worker.running.inj (hw.symm.trans hw')
        exact congrArg (· + 1) (promised_dispatch _ _ _)

omit [DecidableEq κ] in
/-- The listener is neither set nor cleared, and `accept` does not fail. -/
def Listening.Action.Steady : Listening.Action τ κ → Prop
  | .set _ | .clear _ | .acceptFails => False
  | _ => True

/-- With so many entries, so many clients were accepted at first. -/
structure InRounds (fd : ℤ) (f : κ) (n first : ℕ) (s : Listening τ κ) : Prop where
  registered : Registered fd f s
  user : s.user = .nobody
  set : s.new_connection_handler_ = true
  seen : s.seen ≠ some false
  entries : entries fd s.handler.callbacks_ = n
  rounds : ∃ k, s.accepted + s.handler.worker.promised f = first + n * k

/-- A client is accepted for one of the calls. -/
lemma InRounds.accept {n first : ℕ} (h : InRounds fd f n first s) {a : Private.Action τ κ}
    {handler : State τ κ} (ha : a = .callReturns ∨ a = .callThrows)
    (hcalls : s.handler.worker.Calls f) (hstep : Private.Step pipe s.handler a handler)
    (backlog : ℕ) :
    InRounds fd f n first
      { s with
        handler := handler
        seen := none
        backlog := backlog
        accepted := s.accepted + 1 } := by
  obtain ⟨k, hk⟩ := h.rounds
  have hone := promised_returns hcalls ha hstep
  have hentries := (h.registered.owned.returns ha hstep).1.2
  refine ⟨h.registered.returns ha hstep _ _, h.user, h.set, by simp, hentries.trans h.entries, k,
    ?_⟩
  show s.accepted + 1 + handler.worker.promised f = first + n * k
  omega

lemma InRounds.step {n first : ℕ} {a : Listening.Action τ κ} (h : InRounds fd f n first s)
    (ha : a.Steady) (hstep : Listening.Step pipe fd f s a s') : InRounds fd f n first s' := by
  have hregistered := h.registered.step hstep
  cases hstep with
  | @elsewhere a handler hother hstep =>
      obtain ⟨k, hk⟩ := h.rounds
      obtain ⟨k', hk'⟩ := promised_elsewhere h.registered.owned hother hstep
      have hentries := (h.registered.owned.elsewhere hother h.registered.busy hstep).1.2
      refine ⟨hregistered, h.user, h.set, h.seen, hentries.trans h.entries, k + k', ?_⟩
      show s.accepted + handler.worker.promised f = first + n * (k + k')
      rw [hk', h.entries, Nat.mul_add, ← Nat.add_assoc, hk, Nat.add_assoc]
  | set | clearNone | clearGone | clear | acceptFails => exact absurd ha not_false
  | wait huser => exact absurd (h.user.symm.trans huser) (by simp)
  | wake huser => exact absurd (h.user.symm.trans huser) (by simp)
  | arrive => exact ⟨hregistered, h.user, h.set, h.seen, h.entries, h.rounds⟩
  | read => exact ⟨hregistered, h.user, h.set, by simp [h.set], h.entries, h.rounds⟩
  | ignore _ hseen _ => exact absurd hseen h.seen
  | accept hcalls _ _ _ hstep => exact h.accept (.inl rfl) hcalls hstep _
  | handlerThrows hcalls _ _ _ hstep => exact h.accept (.inr rfl) hcalls hstep _

/-- **Clients are accepted in rounds**: from any time on at which the worker is at the head of its
loop and nobody uses the listener, as long as it is neither set nor cleared and `accept` does not
fail, the clients accepted and the calls of the round that have not returned are a multiple of the
entries, which are two behind a second `setNewConnectionHandler`. -/
theorem accepted_in_rounds {before after : List (Listening.Action τ κ)}
    (hs : RunTo (Listening.Step pipe fd f) (Listening.init : Listening τ κ) before s)
    (hset : s.new_connection_handler_ = true) (huser : s.user = .nobody)
    (htop : s.handler.worker = .top) (h : RunTo (Listening.Step pipe fd f) s after s')
    (hafter : ∀ a ∈ after, a.Steady) :
    ∃ rounds, s'.accepted + s'.handler.worker.promised f
      = s.accepted + (s.sets - s.clears) * rounds := by
  have hregistered := registered hs
  have hseen : s.seen = none := by
    by_contra hne
    obtain ⟨_, _, _, _, hw, -⟩ := hregistered.seen hne
    exact absurd (htop.symm.trans hw) (by simp)
  have hentries : entries fd s.handler.callbacks_ = s.sets - s.clears := by
    have hcount := hregistered.count
    omega
  have hfirst : InRounds fd f (s.sets - s.clears) s.accepted s :=
    ⟨hregistered, huser, hset, by simp [hseen], hentries, 0, by simp [htop, Worker.promised]⟩
  have halways : Always (Listening.Step pipe fd f)
      (InRounds fd f (s.sets - s.clears) s.accepted) s after :=
    always_of_everyStep (fun _ _ _ hr ha hstep => hr.step ha hstep) hfirst
      (everyStep_of_forall fun a ha _ => hafter a ha)
  exact (halways.last h).rounds

/-- There is one client, which is accepted, and the worker is not at the end of its round. -/
theorem accepted_in_rounds_one :
    let s : Listening Unit Bool :=
      ⟨⟨[⟨0, 5, true, none, .pending_attachment__⟩, ⟨1, 5, true, none, .pending_attachment__⟩],
        false, 2, .top, fun _ => .free, 2, true, []⟩, true, .nobody, none, 0, 0, 2, 0⟩
    let s' : Listening Unit Bool :=
      ⟨⟨[⟨0, 5, true, none, .attached__⟩, ⟨1, 5, true, none, .attached__⟩], false, 2,
        .calling {3, 5} ⟨1, 5, true⟩ [] [], fun _ => .free, 2, false, [.called 0]⟩, true, .nobody,
        none, 0, 1, 2, 0⟩
    ∃ rounds, s'.accepted + s'.handler.worker.promised true
      = s.accepted + (s.sets - s.clears) * rounds := by
  intro s s'
  have hs : RunTo (Listening.Step 3 5 true) Listening.init [.set (), .set ()] s :=
    ⟨_, .set rfl ⟨rfl, not_false⟩ (by decide), _, .set rfl ⟨rfl, not_false⟩ (by decide), rfl⟩
  have h : RunTo (Listening.Step 3 5 true) s
      [.elsewhere .compute, .arrive, .elsewhere (.select {3, 5}), .elsewhere .collect,
        .elsewhere .call, .read, .accept] s' := by
    refine ⟨_, .elsewhere trivial (.compute rfl rfl), _, .arrive, _,
      .elsewhere trivial (.select rfl (by decide) (by simp) (by decide)), _,
      .elsewhere trivial (.collect rfl), _, .elsewhere trivial (.call rfl), _,
      .read ⟨_, _, _, _, rfl, rfl⟩ rfl, _,
      .accept ⟨_, _, _, _, rfl, rfl⟩ rfl rfl one_pos (.callReturns rfl), rfl⟩
  exact accepted_in_rounds hs rfl rfl rfl h (by simp [Listening.Action.Steady])

end Rounds

end Arachnida.Spin
