import Arachnida.Spin.Private.ConnectionHandler

/-!
What a `detach` guarantees that another thread than the worker has called.

* `Listed`: the entries have descriptors of their own, a waiting thread's entry is there and nobody
  else waits for it, and an entry whose `detach` has returned is gone.
* `Round`: until the next select set is computed no entry is detached that the worker selects on,
  and the entries whose callbacks it is going to call stay in the list.
* `Disciplined`: descriptors are attached once at a time, an entry is detached by one thread, and
  the callbacks do not detach.
* `detach_barrier`: **behind a `detach` the entry's callbacks neither run nor are started.**
-/

namespace Arachnida.Spin.Private

open Library

variable {τ κ : Type*} {pipe : ℤ} {s s' : State τ κ}

/-- The entry whose data or error callback is running. -/
def Worker.current : Worker κ → Option ℕ
  | .running _ curr _ _ => some curr.node
  | .reporting node _ _ => some node
  | _ => none

/-- The set the worker looks for entries with, before it has copied their callbacks. -/
def Worker.watched : Worker κ → Finset ℤ
  | .selecting fds | .failed fds | .reported fds => fds
  | _ => ∅

/-- The entries whose callbacks are running or still to be called. -/
def Worker.due : Worker κ → List ℕ
  | .calling _ curr calls _ | .running _ curr calls _ => curr.node :: calls.map CallbackToCall.node
  | .reporting node _ _ => [node]
  | _ => []

lemma Worker.current_mem_due {w : Worker κ} {n : ℕ} (h : w.current = some n) : n ∈ w.due := by
  cases w <;> simp_all [current, due]

@[simp]
lemma Worker.watched_leave (fds : Finset ℤ) (removals : List ℤ) :
    (Worker.leave pipe fds removals : Worker κ).watched = ∅ := by
  rw [leave]
  split_ifs <;> rfl

@[simp]
lemma Worker.due_leave (fds : Finset ℤ) (removals : List ℤ) :
    (Worker.leave pipe fds removals : Worker κ).due = [] := by
  rw [leave]
  split_ifs <;> rfl

@[simp]
lemma Worker.watched_dispatch (fds : Finset ℤ) (calls : List (CallbackToCall κ))
    (removals : List ℤ) : (Worker.dispatch pipe fds calls removals).watched = ∅ := by
  cases calls with
  | nil => exact watched_leave fds removals
  | cons c cs => rfl

@[simp]
lemma Worker.due_dispatch (fds : Finset ℤ) (calls : List (CallbackToCall κ)) (removals : List ℤ) :
    (Worker.dispatch pipe fds calls removals).due = calls.map CallbackToCall.node := by
  cases calls with
  | nil => exact due_leave fds removals
  | cons c cs => rfl

/-! ### The list and the threads -/

/-- The bookkeeping of the list. -/
structure Listed (pipe : ℤ) (s : State τ κ) : Prop where
  distinct : (descriptors s.callbacks_).Nodup
  foreign : pipe ∉ descriptors s.callbacks_
  waits : ∀ t n, s.threads t = .waiting n → n ∈ nodes s.callbacks_
  alone : ∀ t t' n, s.threads t = .waiting n → s.threads t' = .waiting n → t = t'
  gone : ∀ who n, .detached who n ∈ s.log → n < s.next_node ∧ n ∉ nodes s.callbacks_

lemma Listed.init : Listed pipe (State.init : State τ κ) where
  distinct := List.nodup_nil
  foreign := by simp [State.init, descriptors]
  waits := by simp [State.init]
  alone := by simp [State.init]
  gone := by simp [State.init]

/-- Two entries of one descriptor are the same. -/
lemma Listed.eq_of_fd (h : Listed pipe s) {e e' : Callback_ κ} (he : e ∈ s.callbacks_)
    (he' : e' ∈ s.callbacks_) (hfd : e.file_descriptor = e'.file_descriptor) : e = e' :=
  List.inj_on_of_nodup_map h.distinct he he' hfd

/-- The bookkeeping only sees the nodes and descriptors, the threads, and what has been detached. -/
lemma Listed.congr (h : Listed pipe s) (hnodes : nodes s'.callbacks_ = nodes s.callbacks_)
    (hfds : descriptors s'.callbacks_ = descriptors s.callbacks_)
    (hthreads : s'.threads = s.threads) (hnext : s'.next_node = s.next_node)
    (hlog : ∀ who n, .detached who n ∈ s'.log → .detached who n ∈ s.log) : Listed pipe s' where
  distinct := hfds ▸ h.distinct
  foreign := hfds ▸ h.foreign
  waits := by rw [hthreads, hnodes]; exact h.waits
  alone := by rw [hthreads]; exact h.alone
  gone := by
    rw [hnodes, hnext]
    exact fun who n hn => h.gone who n (hlog who n hn)

lemma Listed.attach (h : Listed pipe s) {fd : ℤ} (hfd : fd ∉ descriptors s.callbacks_)
    (hpipe : fd ≠ pipe) (f : κ) (g : Option κ) : Listed pipe (s.attach fd f g) := by
  refine ⟨?_, ?_, ?_, h.alone, fun who n hn => ?_⟩
  · rw [descriptors_attach]
    exact h.distinct.append (List.nodup_singleton _) (by simpa using hfd)
  · rw [descriptors_attach]
    exact fun hp => (List.mem_append.mp hp).elim h.foreign fun hp =>
      hpipe (List.mem_singleton.mp hp).symm
  · rw [nodes_attach]
    exact fun t n ht => List.mem_append_left _ (h.waits t n ht)
  · obtain ⟨hlt, hgone⟩ := h.gone who n hn
    exact gone_attach s hlt hgone fd f g

variable [DecidableEq τ] in
/-- A thread begins to wait for an entry that nobody waits for. -/
lemma Listed.wait (h : Listed pipe s) {e : Callback_ κ} (he : e ∈ s.callbacks_)
    (hfree : ∀ t, s.threads t ≠ .waiting e.node) (t : τ) :
    Listed pipe
      { s.mark e.node with threads := Function.update s.threads t (.waiting e.node) } := by
  have hmark : Listed pipe (s.mark e.node) :=
    h.congr (nodes_setState _ _ _) (descriptors_setState _ _ _) rfl rfl fun _ _ => id
  have hwait : ∀ t₁ n, Function.update s.threads t (.waiting e.node) t₁ = .waiting n →
      (t₁ = t ∧ n = e.node) ∨ (t₁ ≠ t ∧ s.threads t₁ = .waiting n) := by
    intro t₁ n h₁
    rcases eq_or_ne t₁ t with rfl | hne
    · rw [Function.update_self] at h₁
      exact .inl ⟨rfl, (Thread.waiting.inj h₁).symm⟩
    · exact .inr ⟨hne, by rwa [Function.update_of_ne hne] at h₁⟩
  refine ⟨hmark.distinct, hmark.foreign, ?_, ?_, hmark.gone⟩
  · intro t₁ n h₁
    rcases hwait t₁ n h₁ with ⟨-, rfl⟩ | ⟨-, h₁⟩
    · exact (nodes_setState _ _ _).symm ▸ mem_nodes he
    · exact hmark.waits t₁ n h₁
  · intro t₁ t₂ n h₁ h₂
    rcases hwait t₁ n h₁ with ⟨rfl, rfl⟩ | ⟨-, h₁'⟩ <;>
      rcases hwait t₂ _ h₂ with ⟨rfl, hn⟩ | ⟨-, h₂'⟩
    · rfl
    · exact absurd h₂' (hfree t₂)
    · exact absurd (hn ▸ h₁') (hfree t₁)
    · exact h.alone t₁ t₂ n h₁' h₂'

variable [DecidableEq τ] in
/-- The thread that waits for an entry erases it and leaves. -/
lemma Listed.leave (hs : Numbered s) (h : Listed pipe s) {t : τ} {e : Callback_ κ}
    (he : e ∈ s.callbacks_)
    (ht : s.threads t = .waiting e.node) :
    Listed pipe
      { s.erase (.thread t) e.node with threads := Function.update s.threads t .free } := by
  have hsub := eraseNode_sublist e.node s.callbacks_
  have hothers : ∀ t₁ n, Function.update s.threads t .free t₁ = .waiting n →
      t₁ ≠ t ∧ s.threads t₁ = .waiting n := by
    intro t₁ n h₁
    rcases eq_or_ne t₁ t with rfl | hne
    · rw [Function.update_self] at h₁
      cases h₁
    · exact ⟨hne, by rwa [Function.update_of_ne hne] at h₁⟩
  refine ⟨h.distinct.sublist (hsub.map _), fun hp => h.foreign ((hsub.map _).subset hp), ?_, ?_, ?_⟩
  · intro t₁ n h₁
    obtain ⟨hne, h₁⟩ := hothers t₁ n h₁
    refine mem_nodes_eraseNode.mpr ⟨h.waits t₁ n h₁, ?_⟩
    rintro rfl
    exact hne (h.alone t₁ t _ h₁ ht)
  · exact fun t₁ t₂ n h₁ h₂ => h.alone t₁ t₂ n (hothers t₁ n h₁).2 (hothers t₂ n h₂).2
  · intro who n hn
    show n < s.next_node ∧ n ∉ nodes (eraseNode e.node s.callbacks_)
    rcases List.mem_append.mp hn with hn | hn
    · obtain ⟨hlt, hgone⟩ := h.gone who n hn
      exact ⟨hlt, fun hmem => hgone (mem_nodes_eraseNode.mp hmem).1⟩
    · obtain ⟨-, rfl⟩ : who = .thread t ∧ n = e.node := by simpa using hn
      exact ⟨hs.fresh _ (mem_nodes he), fun hmem => (mem_nodes_eraseNode.mp hmem).2 rfl⟩

/-! ### The round of the worker -/

/-- What holds between the computation of a select set and the next one. -/
structure Round (w : Worker κ) (callbacks : List (Callback_ κ)) : Prop where
  watched : ∀ e ∈ callbacks, e.file_descriptor ∈ w.watched → e.state ≠ .detached__
  due : ∀ n ∈ w.due, ∃ e ∈ callbacks, e.node = n ∧ e.state ≠ .detached__

/-- A change of the list that detaches no entry and leaves those alone that are not detached. -/
lemma Round.of_list {w : Worker κ} {l l' : List (Callback_ κ)} (h : Round w l)
    (hnew : ∀ e ∈ l', e.state = .detached__ → e ∈ l)
    (hold : ∀ e ∈ l, e.state ≠ .detached__ → ∃ e' ∈ l', e'.node = e.node ∧ e'.state ≠ .detached__) :
    Round w l' where
  watched := fun e he hfd hstate => h.watched e (hnew e he hstate) hfd hstate
  due := by
    intro n hn
    obtain ⟨e, he, rfl, hstate⟩ := h.due n hn
    exact hold e he hstate

lemma Round.append {w : Worker κ} {l : List (Callback_ κ)} (h : Round w l) {e : Callback_ κ}
    (he : e.state ≠ .detached__) : Round w (l ++ [e]) := by
  refine h.of_list (fun e' he' hstate => ?_) fun e' he' hstate =>
    ⟨e', List.mem_append_left _ he', rfl, hstate⟩
  rcases List.mem_append.mp he' with he' | he'
  · exact he'
  · exact absurd ((List.mem_singleton.mp he') ▸ hstate) he

lemma Round.setState {w : Worker κ} {l : List (Callback_ κ)} (h : Round w l) (n : ℕ) :
    Round w (setState n .pending_detachment__ l) := by
  refine h.of_list (fun e' he' hstate => ?_) fun e he hstate => ?_
  · obtain ⟨e, he, rfl⟩ := List.mem_map.mp he'
    split_ifs at hstate ⊢ with hn
    exact he
  · refine ⟨_, List.mem_map_of_mem he, ?_⟩
    split_ifs
    · exact ⟨rfl, by simp⟩
    · exact ⟨rfl, hstate⟩

/-- A detached entry can be erased. -/
lemma Round.eraseNode {w : Worker κ} (hs : Numbered s) (h : Round w s.callbacks_)
    {e : Callback_ κ} (he : e ∈ s.callbacks_) (hstate : e.state = .detached__) :
    Round w (eraseNode e.node s.callbacks_) := by
  refine h.of_list (fun e' he' _ => (mem_eraseNode.mp he').1) fun e' he' hstate' => ?_
  refine ⟨e', mem_eraseNode.mpr ⟨he', fun hn => ?_⟩, rfl, hstate'⟩
  exact hstate' (hs.eq_of_node he' he hn ▸ hstate)

/-- The entries of a new select set are attached. -/
lemma Round.compute (hs : Listed pipe s) :
    Round (.selecting (insert pipe (selectSet s.callbacks_)) : Worker κ)
      (s.callbacks_.map Callback_.computed) where
  watched := by
    intro e' he' hfd
    obtain ⟨e, he, rfl⟩ := List.mem_map.mp he'
    rw [computed_file_descriptor] at hfd
    rcases Finset.mem_insert.mp hfd with hfd | hfd
    · exact absurd (hfd ▸ List.mem_map_of_mem he) hs.foreign
    · obtain ⟨e₁, he₁, hsel, hfd₁⟩ := mem_selectSet.mp hfd
      obtain rfl := hs.eq_of_fd he₁ he hfd₁
      simp [Callback_.computed, hsel]
  due := by simp [Worker.due]

/-- The callbacks that are copied belong to entries that are not detached. -/
lemma Round.collect {fds : Finset ℤ} (h : Round (.reported fds) s.callbacks_) :
    Round (Worker.dispatch pipe fds (callbacksToCall fds s.callbacks_) []) s.callbacks_ where
  watched := by simp
  due := by
    intro n hn
    rw [Worker.due_dispatch] at hn
    obtain ⟨c, hc, rfl⟩ := List.mem_map.mp hn
    obtain ⟨e, he, hfd, rfl⟩ := mem_callbacksToCall hc
    exact ⟨e, he, rfl, h.watched e he hfd⟩

/-- One callback less to call. -/
lemma Round.next {fds : Finset ℤ} {curr : CallbackToCall κ} {calls : List (CallbackToCall κ)}
    {removals removals' : List ℤ} {l : List (Callback_ κ)}
    (h : Round (.running fds curr calls removals) l) :
    Round (Worker.dispatch pipe fds calls removals') l where
  watched := by simp
  due := fun n hn => h.due n (List.mem_cons_of_mem _ (by rwa [Worker.due_dispatch] at hn))

/-- The worker goes on to a point with less to watch and less to call. -/
lemma Round.of_worker {w w' : Worker κ} {l : List (Callback_ κ)} (h : Round w l)
    (hwatched : w'.watched ⊆ w.watched) (hdue : ∀ n ∈ w'.due, n ∈ w.due) : Round w' l where
  watched := fun e he hfd => h.watched e he (hwatched hfd)
  due := fun n hn => h.due n (hdue n hn)

/-! ### The steps -/

/-- The discipline of the callers: one entry for a descriptor at a time, one thread that detaches
an entry, and no `detach` from a callback. -/
def Disciplined (s : State τ κ) : Action τ κ → Prop
  | .attach _ fd _ _ => fd ∉ descriptors s.callbacks_
  | .detach .worker _ => False
  | .detach (.thread _) fd =>
      ∀ e, findFD fd s.callbacks_ = some e → ∀ t, s.threads t ≠ .waiting e.node
  | _ => True

/-- The invariant of a disciplined run. -/
structure Barred (pipe : ℤ) (s : State τ κ) : Prop where
  numbered : Numbered s
  listed : Listed pipe s
  round : Round s.worker s.callbacks_
  final : ∀ t, Final (.thread t) s.log

lemma Barred.init : Barred pipe (State.init : State τ κ) :=
  ⟨Numbered.init, Listed.init, ⟨by simp [State.init], by simp [State.init, Worker.due]⟩,
    fun _ => List.Pairwise.nil⟩

/-- A step of the worker that leaves the list and the events as they are. -/
lemma Barred.of_worker (h : Barred pipe s) {w : Worker κ} (hw : Round w s.callbacks_) :
    Barred pipe { s with worker := w } :=
  ⟨h.numbered.congr rfl rfl, h.listed.congr rfl rfl rfl rfl fun _ _ => id, hw, h.final⟩

/-- An entry that is in the list may be called. -/
lemma Barred.of_call (h : Barred pipe s) {w : Worker κ} {event : Event τ} {n : ℕ}
    (hn : n ∈ nodes s.callbacks_) (hw : Round w s.callbacks_)
    (hevent : event = .called n ∨ event = .errorCalled n) :
    Barred pipe { s with worker := w, log := s.log ++ [event] } := by
  refine ⟨h.numbered.congr rfl rfl, h.listed.congr rfl rfl rfl rfl fun who m hm => ?_, hw,
    fun t => (h.final t).append fun m hm => ?_⟩
  · rcases List.mem_append.mp hm with hm | hm
    · exact hm
    · rcases hevent with rfl | rfl <;> cases List.mem_singleton.mp hm
  · have hne : n ≠ m := fun e => (h.listed.gone _ _ hm).2 (e ▸ hn)
    rcases hevent with rfl | rfl <;> simp [hne]

lemma Barred.setState (h : Barred pipe s) (n : ℕ) :
    Barred pipe { s with callbacks_ := setState n .pending_detachment__ s.callbacks_ } :=
  ⟨h.numbered.congr (nodes_setState _ _ _) rfl,
    h.listed.congr (nodes_setState _ _ _) (descriptors_setState _ _ _) rfl rfl fun _ _ => id,
    h.round.setState n, h.final⟩

/-- One removal, with its error callback. -/
lemma Barred.remove (h : Barred pipe s) (fd : ℤ) (removals : List ℤ) :
    Barred pipe (s.remove fd removals) := by
  have hlocked : ∀ l, Round (.locked removals : Worker κ) l :=
    fun l => ⟨by simp [Worker.watched], by simp [Worker.due]⟩
  obtain hr | ⟨e, hfind, hr | ⟨g, hr⟩⟩ := s.remove_cases fd removals <;> rw [hr]
  · exact h.of_worker (hlocked _)
  · exact (h.setState e.node).of_worker (hlocked _)
  · have he := (mem_of_findFD hfind).1
    have hmem : e.node ∈ nodes (Private.setState e.node .pending_detachment__ s.callbacks_) :=
      (nodes_setState _ _ _).symm ▸ mem_nodes he
    refine (h.setState e.node).of_call hmem ⟨by simp [Worker.watched], fun n hn => ?_⟩ (.inr rfl)
    obtain rfl := List.mem_singleton.mp hn
    exact ⟨_, List.mem_map_of_mem he, by simp, by simp⟩

variable [DecidableEq τ] in
/-- One step keeps the invariant. -/
lemma Barred.step (a : Action τ κ) (h : Barred pipe s) (ha : Disciplined s a)
    (hstep : Step pipe s a s') : Barred pipe s' := by
  have hround := h.round
  have hnumbered := h.numbered.step hstep
  cases hstep with
  | attach _ hpipe =>
      exact ⟨hnumbered, h.listed.attach ha hpipe _ _, h.round.append (by simp), h.final⟩
  | @detach who fd _ =>
      obtain hd | ⟨e, hfind, ⟨rfl, hd⟩ | ⟨t, rfl, hd⟩⟩ := s.detach_cases who fd <;>
        rw [hd] at hnumbered ⊢
      · exact h
      · exact absurd ha not_false
      · exact ⟨hnumbered, h.listed.wait (mem_of_findFD hfind).1 (ha e hfind) t,
          h.round.setState _, h.final⟩
  | @wake t e ht he _ =>
      rw [State.wake] at hnumbered ⊢
      split_ifs at hnumbered ⊢ with hstate
      · exact ⟨hnumbered, h.listed.leave h.numbered he ht,
          h.round.eraseNode h.numbered he hstate, fun t' => (h.final t').detached _ _⟩
      · exact h
  | destroy => exact ⟨hnumbered, h.listed.congr rfl rfl rfl rfl fun _ _ => id, h.round, h.final⟩
  | exit => exact h.of_worker ⟨by simp [Worker.watched], by simp [Worker.due]⟩
  | compute =>
      exact ⟨hnumbered,
        h.listed.congr (nodes_computed _) (descriptors_computed _) rfl rfl fun _ _ => id,
        Round.compute h.listed, h.final⟩
  | select hw hsub =>
      exact h.of_worker (hround.of_worker (hw ▸ hsub) (by simp [Worker.due]))
  | selectFails hw =>
      exact h.of_worker (hround.of_worker (hw ▸ Finset.Subset.refl _) (by simp [Worker.due]))
  | test => exact h.of_worker ⟨by simp, by simp⟩
  | collect hw => exact h.of_worker (Round.collect (hw ▸ hround))
  | @call fds curr calls removals hw =>
      obtain ⟨e, he, hn, -⟩ := hround.due curr.node (by simp [hw, Worker.due])
      exact h.of_call (hn ▸ mem_nodes he)
        (hround.of_worker (by simp [Worker.watched]) (by simp [hw, Worker.due])) (.inl rfl)
  | callReturns hw => exact h.of_worker (Round.next (hw ▸ hround))
  | callThrows hw => exact h.of_worker (Round.next (hw ▸ hround))
  | lock => exact h.of_worker ⟨by simp [Worker.watched], by simp [Worker.due]⟩
  | remove => exact h.remove _ _
  | errorReturns => exact h.of_worker ⟨by simp [Worker.watched], by simp [Worker.due]⟩
  | unlock => exact h.of_worker ⟨by simp [Worker.watched], by simp [Worker.due]⟩
  | drain =>
      exact ⟨hnumbered, h.listed.congr rfl rfl rfl rfl fun _ _ => id,
        ⟨by simp [Worker.watched], by simp [Worker.due]⟩, h.final⟩

/-- The callbacks of an entry whose `detach` by another thread has returned: none is running, and
none was started since. -/
def DetachFinal (s : State τ κ) : Prop :=
  ∀ t n before after, s.log = before ++ .detached (.thread t) n :: after →
    s.worker.current ≠ some n ∧ .called n ∉ after ∧ .errorCalled n ∉ after

lemma Barred.detachFinal (h : Barred pipe s) : DetachFinal s := by
  intro t n before after hlog
  have hgone := (h.listed.gone (.thread t) n (by simp [hlog])).2
  refine ⟨fun hcurrent => ?_, (h.final t).not_called hlog⟩
  obtain ⟨e, he, hn, -⟩ := h.round.due n (Worker.current_mem_due hcurrent)
  exact hgone (hn ▸ mem_nodes he)

variable [DecidableEq τ] in
/-- **A `detach` by another thread is a barrier**: in every run of the worker with any number of
threads that are disciplined, the callbacks of an entry neither run nor are started once a `detach`
that found the entry has returned. -/
theorem detach_barrier {as : List (Action τ κ)}
    (h : EveryStep (Step pipe) Disciplined (State.init : State τ κ) as) :
    Always (Step pipe) DetachFinal (State.init : State τ κ) as :=
  (always_of_everyStep (fun _ a _ hs ha hstep => hs.step a ha hstep) Barred.init h).mono
    fun _ hs => hs.detachFinal

/-- One thread attaches a descriptor, another one detaches it while the callback is due. -/
theorem detach_barrier_due :
    Always (Step 3) DetachFinal (State.init : State Bool Unit)
      [.attach (.thread true) 5 () none, .compute, .select {3, 5}, .detach (.thread false) 5,
        .collect,
        .call, .callReturns, .drain 2, .compute, .wake false] := by
  refine detach_barrier fun _ hattach => ⟨by simp [Disciplined, State.init, descriptors], ?_⟩
  cases hattach
  refine fun _ hcompute => ⟨trivial, fun _ hselect => ⟨trivial, fun _ _ => ⟨?_, ?_⟩⟩⟩
  · cases hcompute
    cases hselect
    exact fun e _ t => by simp [State.attach, State.init]
  · exact everyStep_of_forall (by simp [Disciplined])

end Arachnida.Spin.Private
