import Arachnida.Spin.Private.ConnectionHandler

/-!
What a `detach` guarantees that a callback calls, on the worker's own thread.

It erases the entry at once, but a round works on copies of the callbacks.

* `Worker.owed`: the entries whose copies are still to be called.
* `SelfFinal`: behind such a `detach` the entry's callbacks are not called.
* `self_detach_final`: **it is final as long as no callback detaches an entry that is owed a call.**
* `not_final_of_owed`: an entry that is owed a call gets it, as soon as the callbacks before it
  return.
-/

namespace Arachnida.Spin.Private

open Library

variable {τ κ : Type*} {pipe : ℤ} {s s' : State τ κ}

/-- The entries whose callbacks were copied in this round and have not been called yet. -/
def Worker.owed : Worker κ → List ℕ
  | .calling _ curr calls _ => curr.node :: calls.map CallbackToCall.node
  | .running _ _ calls _ => calls.map CallbackToCall.node
  | _ => []

@[simp]
lemma Worker.owed_leave (fds : Finset ℤ) (removals : List ℤ) :
    (Worker.leave pipe fds removals : Worker κ).owed = [] := by
  rw [leave]
  split_ifs <;> rfl

@[simp]
lemma Worker.owed_dispatch (fds : Finset ℤ) (calls : List (CallbackToCall κ))
    (removals : List ℤ) :
    (Worker.dispatch pipe fds calls removals).owed = calls.map CallbackToCall.node := by
  cases calls with
  | nil => exact owed_leave fds removals
  | cons c cs => rfl

/-- Behind a `detach` that a callback has called the entry's callbacks are not called. -/
def SelfFinal (s : State τ κ) : Prop :=
  ∀ n before after, s.log = before ++ .detached .worker n :: after →
    .called n ∉ after ∧ .errorCalled n ∉ after

/-- A callback detaches no entry that is owed a call. -/
def NotOwed (s : State τ κ) : Action τ κ → Prop
  | .detach .worker fd => ∀ e, findFD fd s.callbacks_ = some e → e.node ∉ s.worker.owed
  | _ => True

/-- An entry that a callback has detached is out of the list and owed nothing. -/
structure Settled (s : State τ κ) : Prop where
  numbered : Numbered s
  gone : ∀ n, .detached .worker n ∈ s.log →
    n < s.next_node ∧ n ∉ nodes s.callbacks_ ∧ n ∉ s.worker.owed
  final : Final .worker s.log

lemma Settled.init : Settled (State.init : State τ κ) :=
  ⟨Numbered.init, by simp [State.init], List.Pairwise.nil⟩

/-- A step after which there is less in the list and less owed, and no call. -/
lemma Settled.of_less (h : Settled s) (hs' : Numbered s') (hnext : s'.next_node = s.next_node)
    (hnodes : ∀ n ∈ nodes s'.callbacks_, n ∈ nodes s.callbacks_)
    (howed : ∀ n ∈ s'.worker.owed, n ∈ s.worker.owed ∨ n ∈ nodes s.callbacks_)
    (hlog : s'.log = s.log) : Settled s' := by
  refine ⟨hs', fun n hn => ?_, hlog ▸ h.final⟩
  obtain ⟨hlt, hgone, hnot⟩ := h.gone n (hlog ▸ hn)
  exact ⟨hnext ▸ hlt, fun hmem => hgone (hnodes n hmem), fun hmem => (howed n hmem).elim hnot hgone⟩

/-- An event that is no `detach` of the worker, and no call of an entry it has detached. -/
lemma Settled.append (h : Settled s) {w : Worker κ} {event : Event τ}
    (howed : ∀ n ∈ w.owed, n ∈ s.worker.owed) (hevent : ∀ n, event ≠ .detached .worker n)
    (hcall : ∀ n, .detached .worker n ∈ s.log → event ≠ .called n ∧ event ≠ .errorCalled n) :
    Settled { s with worker := w, log := s.log ++ [event] } := by
  refine ⟨h.numbered.congr rfl rfl, fun n hn => ?_, h.final.append hcall⟩
  rcases List.mem_append.mp hn with hn | hn
  · obtain ⟨hlt, hgone, hnot⟩ := h.gone n hn
    exact ⟨hlt, hgone, fun hmem => hnot (howed n hmem)⟩
  · exact absurd (List.mem_singleton.mp hn).symm (hevent n)

lemma Settled.attach (h : Settled s) (fd : ℤ) (f : κ) (g : Option κ) :
    Settled (s.attach fd f g) := by
  refine ⟨h.numbered.attach fd f g, fun n hn => ?_, h.final⟩
  obtain ⟨hlt, hgone, hnot⟩ := h.gone n hn
  obtain ⟨hlt', hgone'⟩ := gone_attach s hlt hgone fd f g
  exact ⟨hlt', hgone', hnot⟩

lemma Settled.mark (h : Settled s) (n : ℕ) : Settled (s.mark n) :=
  h.of_less (h.numbered.mark n) rfl (fun _ hm => (nodes_setState _ _ _) ▸ hm) (fun _ => .inl) rfl

/-- The end of a `detach`, of an entry that is owed nothing where the worker has called it. -/
lemma Settled.erase (h : Settled s) (who : Actor τ) {n : ℕ} (hn : n ∈ nodes s.callbacks_)
    (howed : who = .worker → n ∉ s.worker.owed) : Settled (s.erase who n) := by
  refine ⟨h.numbered.erase who n, fun m hm => ?_, h.final.detached who n⟩
  show m < s.next_node ∧ m ∉ nodes (eraseNode n s.callbacks_) ∧ m ∉ s.worker.owed
  rcases List.mem_append.mp hm with hm | hm
  · obtain ⟨hlt, hgone, hnot⟩ := h.gone m hm
    exact ⟨hlt, fun hmem => hgone (mem_nodes_eraseNode.mp hmem).1, hnot⟩
  · obtain ⟨rfl, rfl⟩ : who = .worker ∧ m = n := by simpa [eq_comm] using hm
    exact ⟨h.numbered.fresh m hn, fun hmem => (mem_nodes_eraseNode.mp hmem).2 rfl, howed rfl⟩

/-- One removal, with its error callback. -/
lemma Settled.remove (h : Settled s) (fd : ℤ) (removals : List ℤ) :
    Settled (s.remove fd removals) := by
  have hset : ∀ n, Settled { s with callbacks_ := setState n .pending_detachment__ s.callbacks_ } :=
    fun n => h.of_less (h.numbered.congr (nodes_setState _ _ _) rfl) rfl
      (fun _ hm => (nodes_setState _ _ _) ▸ hm) (fun _ => .inl) rfl
  obtain hr | ⟨e, hfind, hr | ⟨g, hr⟩⟩ := s.remove_cases fd removals <;> rw [hr]
  · exact h.of_less (h.numbered.congr rfl rfl) rfl (fun _ => id) (by simp [Worker.owed]) rfl
  · exact (hset e.node).of_less ((hset e.node).numbered.congr rfl rfl) rfl (fun _ => id)
      (by simp [Worker.owed]) rfl
  · refine (hset e.node).append (by simp [Worker.owed]) (by simp)
      fun n hn => ⟨by simp, fun heq => ?_⟩
    obtain rfl := Event.errorCalled.inj heq
    exact (h.gone _ hn).2.1 (mem_nodes (mem_of_findFD hfind).1)

variable [DecidableEq τ]

/-- One step keeps the invariant. -/
lemma Settled.step (a : Action τ κ) (h : Settled s) (ha : NotOwed s a) (hstep : Step pipe s a s') :
    Settled s' := by
  have hnumbered := h.numbered.step hstep
  cases hstep with
  | attach => exact h.attach _ _ _
  | @detach who fd _ =>
      obtain hd | ⟨e, hfind, ⟨rfl, hd⟩ | ⟨t, rfl, hd⟩⟩ := s.detach_cases who fd <;> rw [hd]
      · exact h
      · have hmem : e.node ∈ nodes (s.mark e.node).callbacks_ :=
          (nodes_setState _ _ _).symm ▸ mem_nodes (mem_of_findFD hfind).1
        exact (h.mark e.node).erase .worker hmem fun _ => ha e hfind
      · have hmark := h.mark e.node
        exact ⟨hmark.numbered.congr rfl rfl, hmark.gone, hmark.final⟩
  | @wake t e _ he _ =>
      rw [State.wake]
      split_ifs
      · have herase := h.erase (.thread t) (mem_nodes he) (by simp)
        exact ⟨herase.numbered.congr rfl rfl, herase.gone, herase.final⟩
      · exact h
  | destroy => exact ⟨hnumbered, h.gone, h.final⟩
  | compute =>
      exact h.of_less hnumbered rfl (fun _ hm => (nodes_computed _) ▸ hm)
        (by simp [Worker.owed]) rfl
  | test => exact h.of_less hnumbered rfl (fun _ => id) (by simp) rfl
  | @collect fds _ =>
      refine h.of_less hnumbered rfl (fun _ => id) (fun n hn => ?_) rfl
      rw [Worker.owed_dispatch] at hn
      obtain ⟨c, hc, rfl⟩ := List.mem_map.mp hn
      obtain ⟨e, he, -, rfl⟩ := mem_callbacksToCall hc
      exact .inr (mem_nodes he)
  | @call fds curr calls removals hw =>
      refine h.append (fun n hn => ?_) (by simp) fun n hn => ⟨fun heq => ?_, by simp⟩
      · rw [hw]
        exact List.mem_cons_of_mem _ hn
      · obtain rfl := Event.called.inj heq
        refine (h.gone _ hn).2.2 ?_
        rw [hw]
        exact List.mem_cons_self
  | callReturns hw =>
      exact h.of_less hnumbered rfl (fun _ => id)
        (fun n hn => .inl (by rw [hw]; rwa [Worker.owed_dispatch] at hn)) rfl
  | callThrows hw =>
      exact h.of_less hnumbered rfl (fun _ => id)
        (fun n hn => .inl (by rw [hw]; rwa [Worker.owed_dispatch] at hn)) rfl
  | remove => exact h.remove _ _
  | _ => exact h.of_less hnumbered rfl (fun _ => id) (by simp [Worker.owed]) rfl

/-- **A `detach` from a callback is final** in every run in which no callback detaches an entry that
is owed a call. -/
theorem self_detach_final {as : List (Action τ κ)}
    (h : EveryStep (Step pipe) NotOwed (State.init : State τ κ) as) :
    Always (Step pipe) SelfFinal (State.init : State τ κ) as :=
  (always_of_everyStep (fun _ a _ hs ha hstep => hs.step a ha hstep) Settled.init h).mono
    fun _ hs _ _ _ hlog => hs.final.not_called hlog

/-- One thread attaches two descriptors, and a callback that detaches its own runs alone. -/
theorem self_detach_own :
    Always (Step 3) SelfFinal (State.init : State Unit Unit)
      [.attach (.thread ()) 5 () none, .compute, .select {3, 5}, .collect, .call, .detach .worker 5,
        .callReturns, .drain 1, .compute] := by
  refine self_detach_final fun _ hattach => ⟨trivial, fun _ hcompute => ⟨trivial, fun _ hselect =>
    ⟨trivial, fun _ hcollect => ⟨trivial, fun _ hcall => ⟨trivial, fun _ _ => ⟨?_, ?_⟩⟩⟩⟩⟩⟩
  · cases hattach
    cases hcompute
    cases hselect
    cases hcollect with
    | collect hw =>
        obtain rfl := Worker.reported.inj hw
        cases hcall with
        | call hw =>
            rintro e - hmem
            obtain ⟨-, -, hcalls, -⟩ := Worker.calling.inj hw
            exact absurd (hcalls ▸ hmem) (List.not_mem_nil)
  · exact everyStep_of_forall (by simp [NotOwed])

/-- The callbacks that are due are called one after the other. -/
lemma exists_run_called {n : ℕ} : ∀ (calls : List (CallbackToCall κ)) (s : State τ κ)
    (fds : Finset ℤ) (curr : CallbackToCall κ) (removals : List ℤ),
    s.worker = .calling fds curr calls removals → n ∈ s.worker.owed →
      ∃ as s' more, RunTo (Step pipe) s as s' ∧ s'.log = s.log ++ more ∧ .called n ∈ more := by
  intro calls
  induction calls with
  | nil =>
      intro s fds curr removals hw hn
      obtain rfl : n = curr.node := by simpa [hw, Worker.owed] using hn
      exact ⟨[.call], _, [.called curr.node], ⟨_, .call hw, rfl⟩, rfl, List.mem_singleton_self _⟩
  | cons c cs ih =>
      intro s fds curr removals hw hn
      rw [hw] at hn
      rcases List.mem_cons.mp hn with rfl | hn
      · exact ⟨[.call], _, [.called curr.node], ⟨_, .call hw, rfl⟩, rfl, List.mem_singleton_self _⟩
      · let called : State τ κ :=
          { s with
            worker := .running fds curr (c :: cs) removals
            log := s.log ++ [.called curr.node] }
        let next : State τ κ := { called with worker := .calling fds c cs removals }
        have hreturns : Step pipe called .callReturns next :=
          .callReturns (show called.worker = .running fds curr (c :: cs) removals from rfl)
        obtain ⟨as, s', more, hrun, hlog, hmem⟩ := ih next fds c removals rfl hn
        refine ⟨.call :: .callReturns :: as, s', .called curr.node :: more,
          ⟨called, .call hw, next, hreturns, hrun⟩, ?_, List.mem_cons_of_mem _ hmem⟩
        rw [hlog, List.append_cons]

/-- **An entry that is detached while it is owed a call is called**, once the callbacks before it
return. -/
theorem not_final_of_owed {fd : ℤ} {e : Callback_ κ} (hfind : findFD fd s.callbacks_ = some e)
    (howed : e.node ∈ s.worker.owed) (hstep : Step pipe s (.detach .worker fd) s') :
    ∃ as s'', RunTo (Step pipe) s' as s'' ∧ ¬ SelfFinal s'' := by
  cases hstep with
  | detach hcall =>
      cases hw : s.worker with
      | running fds curr calls removals =>
          rw [hw] at howed
          have hdetach : s.detach .worker fd = (s.mark e.node).erase .worker e.node := by
            rw [State.detach, hfind]
          obtain ⟨c, cs, rfl⟩ : ∃ c cs, calls = c :: cs := by
            cases calls with
            | nil => cases howed
            | cons c cs => exact ⟨c, cs, rfl⟩
          let next : State τ κ :=
            { s.detach .worker fd with worker := .calling fds c cs removals }
          obtain ⟨as, s'', more, hrun, hlog, hmem⟩ : ∃ as s'' more, RunTo (Step pipe) next as s'' ∧
              s''.log = next.log ++ more ∧ .called e.node ∈ more :=
            exists_run_called cs next fds c removals rfl howed
          have hworker : (s.detach .worker fd).worker = .running fds curr (c :: cs) removals := by
            rw [hdetach]
            exact hw
          refine ⟨.callReturns :: as, s'', ⟨next, .callReturns hworker, hrun⟩, fun hfinal => ?_⟩
          refine (hfinal e.node s.log more ?_).1 hmem
          rw [hlog]
          show (s.detach .worker fd).log ++ more = _
          rw [hdetach, List.append_cons]
          rfl
      | _ => simp [hw, Worker.owed, State.MayCall, Worker.InCallback] at howed hcall

/-- **A callback that was detached is called all the same**: two descriptors are ready, and the
first callback detaches the second one. -/
theorem self_detach_fails : ¬ Always (Step 3) SelfFinal (State.init : State Unit Unit)
    [.attach (.thread ()) 5 () none, .attach (.thread ()) 6 () none, .compute, .select {3, 5, 6},
      .collect, .call, .detach .worker 6, .callReturns, .call] := by
  intro h
  obtain ⟨s, hrun, hlog⟩ : ∃ s : State Unit Unit, RunTo (Step 3) .init
      [.attach (.thread ()) 5 () none, .attach (.thread ()) 6 () none, .compute, .select {3, 5, 6},
        .collect, .call, .detach .worker 6, .callReturns, .call] s ∧
      s.log = [.called 0, .detached .worker 1, .called 1] := by
    refine ⟨_, ⟨_, .attach ⟨rfl, not_false⟩ (by decide), _, .attach ⟨rfl, not_false⟩ (by decide), _,
      .compute rfl rfl, _, .select rfl (by decide) (by decide) (by decide), _, .collect rfl, _,
      .call rfl, _, .detach trivial, _, .callReturns rfl, _, .call rfl, rfl⟩, rfl⟩
  exact (h.last hrun 1 [.called 0] [.called 1] hlog).1 (List.mem_singleton_self _)

end Arachnida.Spin.Private
