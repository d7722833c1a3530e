import Arachnida.Spin.Private.Barrier
import Arachnida.Spin.Private.DescriptorSet
import Arachnida.Spin.Private.Notification

/-!
One round of the worker: from the computation of the select set to the head of the loop, or to the
read of the pipe.

* `Answer`: what `select` answers in the round, and `testFD_` where it fails.
* `Answer.called`, `Answer.failing`: the entries whose data callback is to be called, and those that
  are to be removed, as the list and the answer tell.
* `RoundStep`: a step of the round, in which nobody attaches or detaches.
* `Phase`: what is done so far, for each place the worker can be in.
* `Excluded`: an entry out of the worker's sight.
* `round_dispatches`: **a round calls and removes these, in order, each once**, and what is removed
  is never selected or called again.

An entry that waits to be attached is attached by the computation of the set, so that a round in
which nothing throws does change states (`round_attaches`).
-/

namespace Arachnida.Spin.Private

open Library

variable {τ κ : Type*} {pipe : ℤ} {s s' m : State τ κ}

/-! ### What a round is to do -/

/-- What `select` answers, with `testFD_` where it fails. -/
inductive Answer where
  | reports (read_fds : Finset ℤ)
  | fails (testFD_ : ℤ → Bool)

/-- The attached entries that are ready: none where `select` fails. -/
def Answer.called (callbacks : List (Callback_ κ)) : Answer → List (Callback_ κ)
  | .reports read_fds =>
      callbacks.filter fun e => e.state = .attached__ ∧ e.file_descriptor ∈ read_fds
  | .fails _ => []

/-- The ready entries whose data callback throws; where `select` fails, the attached ones that fail
`testFD_`. -/
def Answer.failing (throws : ℕ → Bool) (callbacks : List (Callback_ κ)) :
    Answer → List (Callback_ κ)
  | .reports read_fds => ((reports read_fds).called callbacks).filter fun e => throws e.node
  | .fails testFD_ =>
      callbacks.filter fun e => e.state = .attached__ ∧ testFD_ e.file_descriptor = false

/-- The answers that can be given: a set that is not empty, of descriptors selected on, with the
pipe if and only if it holds a byte, or a failure. -/
def Answer.Possible (pipe : ℤ) (s : State τ κ) : Answer → Prop
  | .reports read_fds => read_fds ⊆ insert pipe (selectSet s.callbacks_) ∧ read_fds.Nonempty ∧
      (pipe ∈ read_fds ↔ 0 < s.sync_pipe_)
  | .fails _ => True

/-- The call of an error callback, if there is one. -/
def Callback_.errorEvents (e : Callback_ κ) : List (Event τ) :=
  match e.on_error_callback with
  | none => []
  | some _ => [.errorCalled e.node]

/-- The entries of these nodes are pending detachment. -/
def pend (nodes : List ℕ) (callbacks : List (Callback_ κ)) : List (Callback_ κ) :=
  callbacks.map fun e =>
    if e.node ∈ nodes then { e with state := .pending_detachment__ } else e

/-- The actions of a round with this answer, where the callbacks of these nodes throw: nobody
attaches or detaches.  A wait that returns in vain changes nothing, and is left out. -/
def InRound (answer : Answer) (throws : ℕ → Bool) (s : State τ κ) : Action τ κ → Prop
  | .attach _ _ _ _ | .detach _ _ | .wake _ | .compute => False
  | .select read_fds => answer = .reports read_fds
  | .selectFails => ∃ testFD_, answer = .fails testFD_
  | .test testFD_ => answer = .fails testFD_
  | .callReturns => ∀ fds curr calls removals, s.worker = .running fds curr calls removals →
      throws curr.node = false
  | .callThrows => ∀ fds curr calls removals, s.worker = .running fds curr calls removals →
      throws curr.node = true
  | _ => True

variable [DecidableEq τ] in
/-- A step of the round. -/
def RoundStep (pipe : ℤ) (answer : Answer) (throws : ℕ → Bool) (s : State τ κ) (a : Action τ κ)
    (s' : State τ κ) : Prop := Step pipe s a s' ∧ InRound answer throws s a

/-- The round is over: the worker is at the head of the loop, or about to read the pipe. -/
def RoundOver (s : State τ κ) : Prop := s.worker = .top ∨ s.worker = .draining

/-- **What a round does**, from the state `s` in which the set is computed: it calls the ready
entries in the order of the list, each once, then the error callbacks of the failing ones, which
are pending detachment from then on; the other entries are as the computation has left them. -/
structure Dispatched (answer : Answer) (throws : ℕ → Bool) (s s' : State τ κ) : Prop where
  once : ((answer.called (s.callbacks_.map Callback_.computed)).map Callback_.node).Nodup
  log : s'.log = s.log ++
    ((answer.called (s.callbacks_.map Callback_.computed)).map fun e => .called e.node) ++
      (answer.failing throws (s.callbacks_.map Callback_.computed)).flatMap Callback_.errorEvents
  callbacks_ : s'.callbacks_ =
    pend (nodes (answer.failing throws (s.callbacks_.map Callback_.computed)))
      (s.callbacks_.map Callback_.computed)

variable [DecidableEq τ] in
/-- **What becomes of a failing entry** from the round between `s` and `s'` to a later state: its
error callback has been called once if it has one, its data callback not again, and it is not
selected on. -/
structure Dismissed (e : Callback_ κ) (s s' later : State τ κ) : Prop where
  errorCalls : (later.log.drop s.log.length).count (.errorCalled e.node) =
    if e.on_error_callback.isSome then 1 else 0
  calls : .called e.node ∉ later.log.drop s'.log.length
  unselected : ∀ e' ∈ later.callbacks_, e'.node = e.node → ¬ e'.Selected
  unwatched : e.file_descriptor ∉ later.worker.watched

/-! ### The list -/

@[simp]
lemma pend_nil (l : List (Callback_ κ)) : pend [] l = l := by simp [pend]

/-- One node after the others. -/
lemma setState_pend (n : ℕ) (ns : List ℕ) (l : List (Callback_ κ)) :
    setState n .pending_detachment__ (pend ns l) = pend (ns ++ [n]) l := by
  rw [setState, pend, List.map_map, pend]
  refine List.map_congr_left fun e _ => ?_
  by_cases hn : e.node = n <;> by_cases hmem : e.node ∈ ns <;> simp [hn, hmem] <;> simp_all

@[simp]
lemma nodes_pend (ns : List ℕ) (l : List (Callback_ κ)) : nodes (pend ns l) = nodes l := by
  rw [nodes, nodes, pend, List.map_map]
  exact List.map_congr_left fun e _ => by dsimp only [Function.comp]; split_ifs <;> rfl

/-- Entries keep their nodes and descriptors, and these nodes are pending detachment. -/
lemma mem_pend {ns : List ℕ} {l : List (Callback_ κ)} {e' : Callback_ κ} (h : e' ∈ pend ns l) :
    ∃ e ∈ l, e'.node = e.node ∧ e'.file_descriptor = e.file_descriptor ∧
      (e.node ∈ ns → e'.state = .pending_detachment__) := by
  obtain ⟨e, he, rfl⟩ := List.mem_map.mp h
  refine ⟨e, he, ?_, ?_, fun hn => ?_⟩
  · split_ifs <;> rfl
  · split_ifs <;> rfl
  · rw [if_pos hn]

/-- The entry of a descriptor is found among the pending ones too. -/
lemma findFD_pend (ns : List ℕ) {l : List (Callback_ κ)} (hdistinct : (descriptors l).Nodup)
    {e : Callback_ κ} (he : e ∈ l) : ∃ e', findFD e.file_descriptor (pend ns l) = some e' ∧
      e'.node = e.node ∧ e'.on_error_callback = e.on_error_callback := by
  obtain ⟨e', hfind⟩ : ∃ e', findFD e.file_descriptor l = some e' :=
    Option.isSome_iff_exists.mp (List.find?_isSome.mpr ⟨e, he, by simp⟩)
  obtain ⟨hmem, hfd⟩ := mem_of_findFD hfind
  obtain rfl : e' = e := List.inj_on_of_nodup_map hdistinct hmem he hfd
  refine ⟨if e'.node ∈ ns then { e' with state := .pending_detachment__ } else e', ?_, ?_, ?_⟩
  · rw [findFD, pend, List.find?_map]
    refine Option.map_eq_some_iff.mpr ⟨e', ?_, rfl⟩
    rw [← hfind, findFD]
    congr 1
    funext x
    dsimp only [Function.comp]
    split_ifs <;> rfl
  · split_ifs <;> rfl
  · split_ifs <;> rfl

/-- After the computation of the set, what is selected on is attached. -/
lemma computed_selected_iff (e : Callback_ κ) :
    e.computed.Selected ↔ e.computed.state = .attached__ := by
  rw [Callback_.computed, Callback_.Selected]
  split_ifs <;> simp_all [Callback_.Selected]

/-- **Every copied callback is one of an attached entry**: the descriptors that are set are those of
attached entries, which share them with nobody. -/
lemma callbacksToCall_eq {callbacks : List (Callback_ κ)} {fds : Finset ℤ}
    (hdistinct : (pipe :: descriptors callbacks).Nodup)
    (hfds : fds ⊆ insert pipe (selectSet callbacks)) :
    callbacksToCall fds (callbacks.map Callback_.computed) =
      ((Answer.reports fds).called (callbacks.map Callback_.computed)).map fun e =>
        ⟨e.node, e.file_descriptor, e.on_select_callback⟩ := by
  rw [callbacksToCall, Answer.called]
  refine congrArg _ (List.filter_congr fun e he => ?_)
  obtain ⟨e₀, he₀, rfl⟩ := List.mem_map.mp he
  rw [decide_eq_decide, iff_and_self]
  intro hfd
  rw [computed_file_descriptor] at hfd
  obtain ⟨hforeign, hnodup⟩ := List.nodup_cons.mp hdistinct
  rcases Finset.mem_insert.mp (hfds hfd) with heq | hmem
  · exact absurd (heq ▸ List.mem_map_of_mem he₀) hforeign
  · obtain ⟨e₁, he₁, hselected, hsame⟩ := mem_selectSet.mp hmem
    obtain rfl : e₁ = e₀ := List.inj_on_of_nodup_map hnodup he₁ he₀ hsame
    rw [← computed_selected_iff, Callback_.computed, if_pos hselected]
    exact .inr rfl

/-! ### What is done so far -/

section Round

variable (pipe) (answer : Answer) (throws : ℕ → Bool) (L : List (Callback_ κ))
  (log₀ : List (Event τ))

/-- The data callbacks of these entries have been called, and nothing else happened. -/
def Calls (done : List (Callback_ κ)) (s : State τ κ) : Prop :=
  s.callbacks_ = L ∧ s.log = log₀ ++ done.map fun e => .called e.node

/-- All data callbacks have been called, and these entries removed. -/
def Removes (done : List (Callback_ κ)) (s : State τ κ) : Prop :=
  s.callbacks_ = pend (nodes done) L ∧
    s.log = log₀ ++ ((answer.called L).map fun e => .called e.node) ++
      done.flatMap Callback_.errorEvents

/-- The removals left are those of the rest of the failing entries. -/
def RemovesRest (callbacks_to_remove : List ℤ) (s : State τ κ) : Prop :=
  ∃ done rest, answer.failing throws L = done ++ rest ∧ callbacks_to_remove = descriptors rest ∧
    Removes answer L log₀ done s

/-- The copies left to call are those of the rest of the ready entries, and the removals so far
those of the ones before that threw. -/
structure CallsRest (done rest : List (Callback_ κ)) (callbacks_to_call : List (CallbackToCall κ))
    (callbacks_to_remove : List ℤ) : Prop where
  called : answer.called L = done ++ rest
  calls : callbacks_to_call = rest.map fun e => ⟨e.node, e.file_descriptor, e.on_select_callback⟩
  removals : callbacks_to_remove = descriptors (done.filter fun e => throws e.node)
  failing : answer.failing throws L = (answer.called L).filter fun e => throws e.node

/-- What is done, for each place the worker can be in. -/
def Phase (s : State τ κ) : Prop :=
  match s.worker with
  | .selecting fds => fds = insert pipe (selectSet L) ∧ Calls L log₀ [] s
  | .failed _ => (∃ testFD_, answer = .fails testFD_) ∧ Calls L log₀ [] s
  | .reported fds => answer = .reports fds ∧ fds ⊆ insert pipe (selectSet L) ∧ Calls L log₀ [] s
  | .calling _ curr calls removals => ∃ done rest,
      CallsRest answer throws L done rest (curr :: calls) removals ∧ Calls L log₀ done s
  | .running _ curr calls removals => ∃ done e rest,
      CallsRest answer throws L done (e :: rest) (curr :: calls) removals ∧
        Calls L log₀ (done ++ [e]) s
  | .removing removals => removals = descriptors (answer.failing throws L) ∧
      Removes answer L log₀ [] s
  | .locked removals | .reporting _ _ removals => RemovesRest answer throws L log₀ removals s
  | .top | .draining | .exited => Removes answer L log₀ (answer.failing throws L) s

end Round

variable {answer : Answer} {throws : ℕ → Bool} {L : List (Callback_ κ)} {log₀ : List (Event τ)}

/-- Behind the callbacks all is called, and the removals are those of the failing entries. -/
lemma Phase.leave {fds : Finset ℤ} {removals : List ℤ} {w : Worker κ}
    (hw : w = .leave pipe fds removals)
    (hremovals : removals = descriptors (answer.failing throws L))
    (hcalls : Calls L log₀ (answer.called L) s) :
    Phase pipe answer throws L log₀ { s with worker := w } := by
  have hnone : Removes answer L log₀ [] { s with worker := w } :=
    ⟨by rw [nodes, List.map_nil, pend_nil]; exact hcalls.1, by simpa using hcalls.2⟩
  by_cases hnil : removals = []
  · have hfailing : answer.failing throws L = [] :=
      List.map_eq_nil_iff.mp (hremovals.symm.trans hnil)
    rw [hw, Worker.leave, if_neg (not_not_intro hnil)] at hnone ⊢
    split_ifs at hnone ⊢ <;> (rw [Phase, hfailing]; exact hnone)
  · rw [hw, Worker.leave, if_pos hnil] at hnone ⊢
    exact ⟨hremovals, hnone⟩

/-- The next copy, or behind the callbacks. -/
lemma Phase.dispatch {fds : Finset ℤ} {done rest : List (Callback_ κ)}
    {calls : List (CallbackToCall κ)} {removals : List ℤ} {w : Worker κ}
    (hw : w = .dispatch pipe fds calls removals)
    (hrest : CallsRest answer throws L done rest calls removals) (hcalls : Calls L log₀ done s) :
    Phase pipe answer throws L log₀ { s with worker := w } := by
  cases rest with
  | nil =>
      have hdone : answer.called L = done := by rw [hrest.called, List.append_nil]
      rw [hrest.calls, List.map_nil, Worker.dispatch] at hw
      refine Phase.leave hw ?_ (hdone ▸ hcalls)
      rw [hrest.removals, hrest.failing, hdone]
  | cons e rest =>
      rw [hrest.calls, List.map_cons, Worker.dispatch] at hw
      rw [hw]
      exact ⟨done, e :: rest, ⟨hrest.called, rfl, hrest.removals, hrest.failing⟩, hcalls⟩

/-- A call that has returned or thrown. -/
lemma CallsRest.next {done rest : List (Callback_ κ)} {e : Callback_ κ} {curr : CallbackToCall κ}
    {calls : List (CallbackToCall κ)} {removals removals' : List ℤ}
    (h : CallsRest answer throws L done (e :: rest) (curr :: calls) removals)
    (hremovals : removals' = removals ++ if throws e.node then [e.file_descriptor] else []) :
    CallsRest answer throws L (done ++ [e]) rest calls removals' where
  called := by rw [h.called, List.append_cons]
  calls := (List.cons.inj h.calls).2
  removals := by
    rw [hremovals, h.removals, List.filter_append, descriptors_append]
    congr 1
    by_cases hthrows : throws e.node <;> simp [hthrows, descriptors]
  failing := h.failing

/-- **One removal**: the entry is pending detachment, and its error callback is called. -/
lemma RemovesRest.remove {fd : ℤ} {removals : List ℤ} (hdistinct : (descriptors L).Nodup)
    (h : RemovesRest answer throws L log₀ (fd :: removals) s) :
    ∃ done rest, answer.failing throws L = done ++ rest ∧ removals = descriptors rest ∧
      Removes answer L log₀ done (s.remove fd removals) := by
  obtain ⟨done, rest, hfailing, hremovals, hcallbacks, hlog⟩ := h
  cases rest with
  | nil => cases hremovals
  | cons e rest =>
      obtain ⟨rfl, hrest⟩ := List.cons.inj hremovals
      have he : e ∈ L := by
        have hmem : e ∈ answer.failing throws L := hfailing ▸ by simp
        cases answer with
        | reports fds => exact (List.mem_filter.mp (List.mem_filter.mp hmem).1).1
        | fails testFD_ => exact (List.mem_filter.mp hmem).1
      obtain ⟨e', hfind, hnode, herror⟩ := findFD_pend (nodes done) hdistinct he
      have hpend : setState e'.node .pending_detachment__ s.callbacks_ =
          pend (nodes (done ++ [e])) L := by
        rw [hcallbacks, hnode, setState_pend, nodes_append]
        rfl
      refine ⟨done ++ [e], rest, by rw [hfailing, List.append_cons], hrest, ?_⟩
      rw [← hcallbacks] at hfind
      rw [State.remove, hfind]
      dsimp only
      rw [herror, hpend]
      cases hnone : e.on_error_callback with
      | none => exact ⟨rfl, by simp [hlog, Callback_.errorEvents, hnone]⟩
      | some g => exact ⟨rfl, by simp [hlog, Callback_.errorEvents, hnone, hnode]⟩

/-- Where the round is over, all is done. -/
lemma Phase.over (h : Phase pipe answer throws L log₀ s) (hover : RoundOver s) :
    Removes answer L log₀ (answer.failing throws L) s := by
  rcases hover with hw | hw <;> (rw [Phase, hw] at h; exact h)

section Steps

variable [DecidableEq τ]

/-- **One step of the round.** -/
lemma Phase.step {a : Action τ κ} {callbacks : List (Callback_ κ)}
    (hdistinct : (pipe :: descriptors callbacks).Nodup)
    (h : Phase pipe answer throws (callbacks.map Callback_.computed) log₀ s)
    (hstep : RoundStep pipe answer throws s a s') :
    Phase pipe answer throws (callbacks.map Callback_.computed) log₀ s' := by
  have hnodup : (descriptors (callbacks.map Callback_.computed)).Nodup := by
    rw [descriptors_computed]
    exact (List.nodup_cons.mp hdistinct).2
  obtain ⟨hstep, ha⟩ := hstep
  cases hstep with
  | attach | detach | wake | compute => exact ha.elim
  | destroy => exact h
  | exit hw =>
      rw [Phase, hw] at h
      exact h
  | select hw hfds =>
      rw [Phase, hw] at h
      exact ⟨ha, h.1 ▸ hfds, h.2⟩
  | selectFails hw =>
      rw [Phase, hw] at h
      exact ⟨ha, h.2⟩
  | @test fds testFD_ hw =>
      rw [Phase, hw] at h
      obtain ⟨-, hcallbacks, hlog⟩ := h
      obtain rfl : answer = .fails testFD_ := ha
      exact Phase.leave rfl (by rw [hcallbacks]; rfl) ⟨hcallbacks, hlog⟩
  | @collect fds hw =>
      rw [Phase, hw] at h
      obtain ⟨rfl, hfds, hcalls⟩ := h
      rw [selectSet_computed] at hfds
      refine Phase.dispatch rfl ⟨rfl, ?_, rfl, rfl⟩ hcalls
      rw [hcalls.1]
      exact callbacksToCall_eq hdistinct hfds
  | @call fds curr calls removals hw =>
      rw [Phase, hw] at h
      obtain ⟨done, rest, hrest, hcallbacks, hlog⟩ := h
      cases rest with
      | nil => cases hrest.calls
      | cons e rest =>
          refine ⟨done, e, rest, hrest, hcallbacks, ?_⟩
          have hnode : curr.node = e.node :=
            congrArg CallbackToCall.node (List.cons.inj hrest.calls).1
          simp [hlog, hnode]
  | @callReturns fds curr calls removals hw =>
      rw [Phase, hw] at h
      obtain ⟨done, e, rest, hrest, hcalls⟩ := h
      obtain rfl := (List.cons.inj hrest.calls).1
      have hthrows : throws e.node = false := ha _ _ _ _ hw
      exact Phase.dispatch rfl (hrest.next (by simp [hthrows])) hcalls
  | @callThrows fds curr calls removals hw =>
      rw [Phase, hw] at h
      obtain ⟨done, e, rest, hrest, hcalls⟩ := h
      obtain rfl := (List.cons.inj hrest.calls).1
      have hthrows : throws e.node = true := ha _ _ _ _ hw
      exact Phase.dispatch rfl (hrest.next (by simp [hthrows])) hcalls
  | lock hw =>
      rw [Phase, hw] at h
      exact ⟨[], _, rfl, h⟩
  | @remove fd removals hw =>
      rw [Phase, hw] at h
      have hremove := RemovesRest.remove hnodup h
      obtain hr | ⟨e, -, hr | ⟨g, hr⟩⟩ := s.remove_cases fd removals <;> rw [hr] at hremove ⊢ <;>
        exact hremove
  | errorReturns hw =>
      rw [Phase, hw] at h
      exact h
  | unlock hw =>
      rw [Phase, hw] at h
      obtain ⟨done, rest, hfailing, hnil, hremoves⟩ := h
      obtain rfl : rest = [] := List.map_eq_nil_iff.mp hnil.symm
      rw [List.append_nil] at hfailing
      rw [Phase, hfailing]
      exact hremoves
  | drain hw =>
      rw [Phase, hw] at h
      exact h

/-- **The whole round**, from the computation of the set. -/
lemma Phase.round {as : List (Action τ κ)} (hdistinct : (pipe :: descriptors s.callbacks_).Nodup)
    (hcompute : Step pipe s .compute m) (hround : RunTo (RoundStep pipe answer throws) m as s') :
    Phase pipe answer throws (s.callbacks_.map Callback_.computed) s.log s' := by
  have hm : Phase pipe answer throws (s.callbacks_.map Callback_.computed) s.log m := by
    cases hcompute
    exact ⟨by rw [selectSet_computed], rfl, (List.append_nil _).symm⟩
  have halways : Always (RoundStep pipe answer throws)
      (Phase pipe answer throws (s.callbacks_.map Callback_.computed) s.log) m as :=
    always_of_everyStep (fun _ _ _ hs _ hstep => hs.step hdistinct hstep) hm
      (everyStep_of_forall fun _ _ _ => trivial)
  exact halways.last hround

end Steps

/-! ### An entry out of sight -/

/-- The copies the worker has still to deal with, the running one among them. -/
def Worker.copies : Worker κ → List (CallbackToCall κ)
  | .calling _ curr calls _ | .running _ curr calls _ => curr :: calls
  | _ => []

/-- The descriptors to remove. -/
def Worker.removals : Worker κ → List ℤ
  | .calling _ _ _ removals | .running _ _ _ removals | .removing removals | .locked removals
  | .reporting _ _ removals => removals
  | _ => []

@[simp]
lemma Worker.copies_leave (fds : Finset ℤ) (removals : List ℤ) :
    (Worker.leave pipe fds removals : Worker κ).copies = [] := by
  rw [leave]
  split_ifs <;> rfl

@[simp]
lemma Worker.copies_dispatch (fds : Finset ℤ) (calls : List (CallbackToCall κ))
    (removals : List ℤ) : (Worker.dispatch pipe fds calls removals).copies = calls := by
  cases calls with
  | nil => exact copies_leave fds removals
  | cons c cs => rfl

lemma Worker.removals_leave_subset (fds : Finset ℤ) (removals : List ℤ) :
    (Worker.leave pipe fds removals : Worker κ).removals ⊆ removals := by
  rw [leave]
  split_ifs
  · exact List.Subset.refl _
  · exact List.nil_subset _
  · exact List.nil_subset _

lemma Worker.removals_dispatch_subset (fds : Finset ℤ) (calls : List (CallbackToCall κ))
    (removals : List ℤ) : (Worker.dispatch pipe fds calls removals).removals ⊆ removals := by
  cases calls with
  | nil => exact removals_leave_subset fds removals
  | cons c cs => exact List.Subset.refl _

/-- An entry of the node or the descriptor is not selected on. -/
structure Hidden (n : ℕ) (fd : ℤ) (callbacks : List (Callback_ κ)) : Prop where
  unselected : ∀ e ∈ callbacks, e.file_descriptor = fd → ¬ e.Selected
  own : ∀ e ∈ callbacks, e.node = n → e.file_descriptor = fd

/-- The worker has neither the node nor the descriptor in its variables. -/
structure Worker.Unaware (n : ℕ) (fd : ℤ) (w : Worker κ) : Prop where
  watched : fd ∉ w.watched
  copies : ∀ c ∈ w.copies, c.file_descriptor ≠ fd ∧ c.node ≠ n
  removals : fd ∉ w.removals

/-- Since then neither callback of the node has been called. -/
def Silent (n : ℕ) (log₀ log : List (Event τ)) : Prop :=
  ∃ more, log = log₀ ++ more ∧ .called n ∉ more ∧ .errorCalled n ∉ more

/-- The entry is out of the worker's sight, and nothing has been heard of it. -/
structure Excluded (n : ℕ) (fd : ℤ) (log₀ : List (Event τ)) (s : State τ κ) : Prop where
  hidden : Hidden n fd s.callbacks_
  old : n < s.next_node
  unaware : s.worker.Unaware n fd
  silent : Silent n log₀ s.log

section Excluded

variable {n : ℕ} {fd : ℤ} {l : List (Callback_ κ)}

lemma Hidden.of_sublist {l' : List (Callback_ κ)} (h : Hidden n fd l) (hsub : l'.Sublist l) :
    Hidden n fd l' :=
  ⟨fun e he => h.unselected e (hsub.subset he), fun e he => h.own e (hsub.subset he)⟩

/-- Entries keep their nodes and descriptors, and none is selected on that was not. -/
lemma Hidden.map {f : Callback_ κ → Callback_ κ} (h : Hidden n fd l)
    (hnode : ∀ e, (f e).node = e.node) (hfd : ∀ e, (f e).file_descriptor = e.file_descriptor)
    (hselected : ∀ e, (f e).Selected → e.Selected) : Hidden n fd (l.map f) := by
  constructor
  · rintro _ hmem hsame
    obtain ⟨e, he, rfl⟩ := List.mem_map.mp hmem
    exact fun hs => h.unselected e he (hfd e ▸ hsame) (hselected e hs)
  · rintro _ hmem hsame
    obtain ⟨e, he, rfl⟩ := List.mem_map.mp hmem
    exact (hfd e).trans (h.own e he (hnode e ▸ hsame))

lemma Hidden.setState (h : Hidden n fd l) (m : ℕ) :
    Hidden n fd (setState m .pending_detachment__ l) := by
  refine h.map (fun e => ?_) (fun e => ?_) fun e => ?_
  · split_ifs <;> rfl
  · split_ifs <;> rfl
  · split_ifs
    · simp [Callback_.Selected]
    · exact id

lemma Hidden.append (h : Hidden n fd l) {e : Callback_ κ} (hnode : e.node ≠ n)
    (hfd : e.file_descriptor ≠ fd) : Hidden n fd (l ++ [e]) := by
  constructor
  · intro e' he' hsame
    rcases List.mem_append.mp he' with he' | he'
    · exact h.unselected e' he' hsame
    · exact absurd (List.mem_singleton.mp he' ▸ hsame) hfd
  · intro e' he' hsame
    rcases List.mem_append.mp he' with he' | he'
    · exact h.own e' he' hsame
    · exact absurd (List.mem_singleton.mp he' ▸ hsame) hnode

/-- The set does not have the descriptor. -/
lemma Hidden.not_mem_selectSet (h : Hidden n fd l) (hpipe : fd ≠ pipe) :
    fd ∉ insert pipe (selectSet l) := by
  intro hmem
  rcases Finset.mem_insert.mp hmem with heq | hmem
  · exact hpipe heq
  · obtain ⟨e, he, hselected, hsame⟩ := mem_selectSet.mp hmem
    exact h.unselected e he hsame hselected

lemma Hidden.not_mem_brokenFDs (h : Hidden n fd l) (testFD_ : ℤ → Bool) :
    fd ∉ brokenFDs testFD_ l := by
  intro hmem
  obtain ⟨e, he, hsame⟩ := List.mem_map.mp hmem
  obtain ⟨hmem, hattached⟩ := List.mem_filter.mp he
  exact h.unselected e hmem hsame (.inr (of_decide_eq_true hattached).1)

/-- With nothing to call or to remove, only the set counts. -/
lemma Worker.Unaware.idle {w : Worker κ} (hwatched : fd ∉ w.watched) (hcopies : w.copies = [])
    (hremovals : w.removals = []) : w.Unaware n fd :=
  ⟨hwatched, by simp [hcopies], by simp [hremovals]⟩

lemma Worker.Unaware.leave {fds : Finset ℤ} {removals : List ℤ} (h : fd ∉ removals) :
    (Worker.leave pipe fds removals : Worker κ).Unaware n fd :=
  ⟨by simp, by simp, fun hmem => h (removals_leave_subset fds removals hmem)⟩

lemma Worker.Unaware.dispatch {fds : Finset ℤ} {calls : List (CallbackToCall κ)}
    {removals : List ℤ} (hcalls : ∀ c ∈ calls, c.file_descriptor ≠ fd ∧ c.node ≠ n)
    (h : fd ∉ removals) : (Worker.dispatch pipe fds calls removals).Unaware n fd :=
  ⟨by simp, by simpa using hcalls, fun hmem => h (removals_dispatch_subset fds calls removals hmem)⟩

/-- The copies are those of other entries. -/
lemma Hidden.collect (h : Hidden n fd l) {fds : Finset ℤ} (hfds : fd ∉ fds) :
    ∀ c ∈ callbacksToCall fds l, c.file_descriptor ≠ fd ∧ c.node ≠ n := by
  intro c hc
  obtain ⟨e, he, hfd, rfl⟩ := mem_callbacksToCall hc
  have hne : e.file_descriptor ≠ fd := fun heq => hfds (heq ▸ hfd)
  exact ⟨hne, fun hnode => hne (h.own e he hnode)⟩

lemma Silent.append {log₀ log : List (Event τ)} (h : Silent n log₀ log) {event : Event τ}
    (hcalled : event ≠ .called n) (herror : event ≠ .errorCalled n) :
    Silent n log₀ (log ++ [event]) := by
  obtain ⟨more, rfl, hnot, hnot'⟩ := h
  refine ⟨more ++ [event], by rw [List.append_assoc], ?_, ?_⟩
  · simpa [hnot] using hcalled.symm
  · simpa [hnot'] using herror.symm

/-- The worker has moved on, and the rest is as it was. -/
lemma Excluded.of_worker {w : Worker κ} (h : Excluded n fd log₀ s) (hw : w.Unaware n fd) :
    Excluded n fd log₀ { s with worker := w } :=
  ⟨h.hidden, h.old, hw, h.silent⟩

/-- A removal is that of another entry. -/
lemma Excluded.remove {fd' : ℤ} {removals : List ℤ} (h : Excluded n fd log₀ s)
    (hw : s.worker = .locked (fd' :: removals)) : Excluded n fd log₀ (s.remove fd' removals) := by
  have hremovals : fd ∉ fd' :: removals := by
    have hmem := h.unaware.removals
    rwa [hw] at hmem
  obtain ⟨hne, hrest⟩ := not_or.mp (mt List.mem_cons.mpr hremovals)
  have hlocked : (Worker.locked removals : Worker κ).Unaware n fd :=
    ⟨Finset.notMem_empty _, by simp [Worker.copies], hrest⟩
  obtain hr | ⟨e, hfind, hr | ⟨g, hr⟩⟩ := s.remove_cases fd' removals <;> rw [hr]
  · exact h.of_worker hlocked
  · exact ⟨h.hidden.setState e.node, h.old, hlocked, h.silent⟩
  · obtain ⟨he, hfd⟩ := mem_of_findFD hfind
    have hnode : e.node ≠ n := fun hn => hne ((h.hidden.own e he hn).symm.trans hfd)
    exact ⟨h.hidden.setState e.node, h.old, ⟨Finset.notMem_empty _, by simp [Worker.copies], hrest⟩,
      h.silent.append (by simp) (by simpa using hnode)⟩

variable [DecidableEq τ]

/-- What a step does to the list hides the entry as before. -/
lemma Excluded.hidden_step {a : Action τ κ} (h : Excluded n fd log₀ s) (ha : Registers {fd}ᶜ a)
    (hstep : Step pipe s a s') : Hidden n fd s'.callbacks_ ∧ n < s'.next_node := by
  obtain ⟨hnext, hl | hl | ⟨m, hl⟩ | ⟨m, hl⟩⟩ | ⟨who, fd', f, g, rfl, rfl⟩ := hstep.list_cases
  · exact ⟨hl ▸ h.hidden, hnext ▸ h.old⟩
  · refine ⟨hl ▸ h.hidden.map computed_node computed_file_descriptor fun e => ?_, hnext ▸ h.old⟩
    exact (computed_selected e).mp
  · exact ⟨hl ▸ h.hidden.setState m, hnext ▸ h.old⟩
  · exact ⟨hl ▸ h.hidden.of_sublist (eraseNode_sublist m s.callbacks_), hnext ▸ h.old⟩
  · exact ⟨h.hidden.append h.old.ne' ha, h.old.trans (Nat.lt_succ_self _)⟩

/-- **Out of sight stays out of sight**, as long as nobody attaches the descriptor again. -/
lemma Excluded.step {a : Action τ κ} (hpipe : fd ≠ pipe) (h : Excluded n fd log₀ s)
    (ha : Registers {fd}ᶜ a) (hstep : Step pipe s a s') : Excluded n fd log₀ s' := by
  have hunaware := h.unaware
  obtain ⟨hhidden, hold⟩ := h.hidden_step ha hstep
  cases hstep with
  | @detach who fd' _ =>
      obtain hd | ⟨e, -, ⟨rfl, hd⟩ | ⟨t, rfl, hd⟩⟩ := s.detach_cases who fd' <;>
        rw [hd] at hhidden hold ⊢
      · exact h
      · exact ⟨hhidden, hold, hunaware, h.silent.append (by simp) (by simp)⟩
      · exact ⟨hhidden, hold, hunaware, h.silent⟩
  | wake =>
      rw [State.wake] at hhidden hold ⊢
      split_ifs at hhidden hold ⊢
      · exact ⟨hhidden, hold, hunaware, h.silent.append (by simp) (by simp)⟩
      · exact h
  | attach => exact ⟨hhidden, hold, hunaware, h.silent⟩
  | destroy => exact ⟨hhidden, hold, hunaware, h.silent⟩
  | compute =>
      exact ⟨hhidden, hold, .idle (h.hidden.not_mem_selectSet hpipe) rfl rfl, h.silent⟩
  | select hw hfds =>
      rw [hw] at hunaware
      exact h.of_worker (.idle (fun hmem => hunaware.watched (hfds hmem)) rfl rfl)
  | selectFails hw =>
      rw [hw] at hunaware
      exact h.of_worker ⟨hunaware.watched, hunaware.copies, hunaware.removals⟩
  | test => exact h.of_worker (.leave (h.hidden.not_mem_brokenFDs _))
  | collect hw =>
      rw [hw] at hunaware
      exact h.of_worker (.dispatch (h.hidden.collect hunaware.watched) List.not_mem_nil)
  | call hw =>
      rw [hw] at hunaware
      have hne := (hunaware.copies _ List.mem_cons_self).2
      exact ⟨hhidden, hold, ⟨hunaware.watched, hunaware.copies, hunaware.removals⟩,
        h.silent.append (by simpa using hne) (by simp)⟩
  | callReturns hw =>
      rw [hw] at hunaware
      exact h.of_worker (.dispatch (fun c hc => hunaware.copies c (List.mem_cons_of_mem _ hc))
        hunaware.removals)
  | callThrows hw =>
      rw [hw] at hunaware
      have hne := (hunaware.copies _ List.mem_cons_self).1
      refine h.of_worker (.dispatch (fun c hc => hunaware.copies c (List.mem_cons_of_mem _ hc)) ?_)
      intro hmem
      rcases List.mem_append.mp hmem with hmem | hmem
      · exact hunaware.removals hmem
      · exact hne (List.mem_singleton.mp hmem).symm
  | lock hw =>
      rw [hw] at hunaware
      exact h.of_worker ⟨hunaware.watched, hunaware.copies, hunaware.removals⟩
  | remove hw => exact h.remove hw
  | errorReturns hw =>
      rw [hw] at hunaware
      exact h.of_worker ⟨hunaware.watched, hunaware.copies, hunaware.removals⟩
  | _ => exact ⟨hhidden, hold, .idle (Finset.notMem_empty _) rfl rfl, h.silent⟩

/-- Over any run. -/
lemma Excluded.run {as : List (Action τ κ)} (hpipe : fd ≠ pipe) (h : Excluded n fd log₀ s)
    (has : ∀ a ∈ as, Registers {fd}ᶜ a) (hrun : RunTo (Step pipe) s as s') :
    Excluded n fd log₀ s' :=
  (always_of_everyStep (fun _ _ _ hs ha hstep => hs.step hpipe ha hstep) h
    (everyStep_of_forall (Q := fun _ a => Registers {fd}ᶜ a) fun a ha _ => has a ha)).last hrun

end Excluded

/-! ### The round ends -/

section Ends

variable [DecidableEq τ]

variable (pipe answer throws) in
/-- The round can be brought to its end. -/
def Completes (s : State τ κ) : Prop :=
  ∃ as s', RunTo (RoundStep pipe answer throws) s as s' ∧ RoundOver s'

lemma Completes.of_step {a : Action τ κ} (hstep : Step pipe s a s') (ha : InRound answer throws s a)
    (h : Completes pipe answer throws s') : Completes pipe answer throws s := by
  obtain ⟨as, s'', hrun, hover⟩ := h
  exact ⟨a :: as, s'', ⟨s', ⟨hstep, ha⟩, hrun⟩, hover⟩

/-- The removals are made one after the other. -/
lemma Completes.locked {removals : List ℤ} (hw : s.worker = .locked removals) :
    Completes pipe answer throws s := by
  induction removals generalizing s with
  | nil => exact ⟨[.unlock], _, ⟨_, ⟨.unlock hw, trivial⟩, rfl⟩, .inl rfl⟩
  | cons fd removals ih =>
      have hremove : Step pipe s .remove (s.remove fd removals) := .remove hw
      refine .of_step hremove trivial ?_
      obtain hr | ⟨e, -, hr | ⟨g, hr⟩⟩ := s.remove_cases fd removals <;> rw [hr]
      · exact ih rfl
      · exact ih rfl
      · exact .of_step (.errorReturns rfl) trivial (ih rfl)

lemma Completes.leave {fds : Finset ℤ} {removals : List ℤ}
    (hw : s.worker = .leave pipe fds removals) : Completes pipe answer throws s := by
  rw [Worker.leave] at hw
  split_ifs at hw
  · exact .of_step (.lock hw) trivial (.locked rfl)
  · exact ⟨[], s, rfl, .inr hw⟩
  · exact ⟨[], s, rfl, .inl hw⟩

/-- The copies are called one after the other. -/
lemma Completes.dispatch {fds : Finset ℤ} {calls : List (CallbackToCall κ)} {removals : List ℤ}
    (hw : s.worker = .dispatch pipe fds calls removals) : Completes pipe answer throws s := by
  induction calls generalizing s removals with
  | nil => exact .leave hw
  | cons curr calls ih =>
      refine .of_step (.call hw) trivial ?_
      cases hthrows : throws curr.node with
      | false =>
          refine .of_step (.callReturns rfl) (fun _ _ _ _ heq => ?_) (ih rfl)
          obtain ⟨-, rfl, -, -⟩ := Worker.running.inj heq
          exact hthrows
      | true =>
          refine .of_step (.callThrows rfl) (fun _ _ _ _ heq => ?_) (ih rfl)
          obtain ⟨-, rfl, -, -⟩ := Worker.running.inj heq
          exact hthrows

/-- **Every answer that can be given leads to the end of the round.** -/
lemma Completes.compute (hcompute : Step pipe s .compute m) (hanswer : answer.Possible pipe s) :
    Completes pipe answer throws m := by
  cases hcompute with
  | compute =>
      cases answer with
      | reports read_fds =>
          obtain ⟨hsub, hnonempty, hpipe⟩ := hanswer
          exact .of_step (.select rfl hsub hnonempty hpipe) rfl
            (.of_step (.collect rfl) trivial (.dispatch rfl))
      | fails testFD_ =>
          exact .of_step (.selectFails rfl) ⟨testFD_, rfl⟩ (.of_step (.test rfl) rfl (.leave rfl))

end Ends

/-! ### The round -/

lemma Answer.called_sublist (l : List (Callback_ κ)) : (answer.called l).Sublist l := by
  cases answer with
  | reports => exact List.filter_sublist
  | fails => exact List.nil_sublist l

lemma Answer.failing_sublist (l : List (Callback_ κ)) : (answer.failing throws l).Sublist l := by
  cases answer with
  | reports fds => exact List.filter_sublist.trans (called_sublist l)
  | fails => exact List.filter_sublist

/-- A failing entry is pending detachment, and out of the worker's sight. -/
lemma hidden_pend {l : List (Callback_ κ)} (hdistinct : (descriptors l).Nodup)
    (hnodup : (nodes l).Nodup) {ns : List ℕ} {e : Callback_ κ} (he : e ∈ l) (hn : e.node ∈ ns) :
    Hidden e.node e.file_descriptor (pend ns l) := by
  constructor
  · intro e' he' hsame
    obtain ⟨e₀, he₀, -, hfd, hstate⟩ := mem_pend he'
    obtain rfl : e₀ = e := List.inj_on_of_nodup_map hdistinct he₀ he (hfd.symm.trans hsame)
    simp [Callback_.Selected, hstate hn]
  · intro e' he' hsame
    obtain ⟨e₀, he₀, hnode, hfd, -⟩ := mem_pend he'
    obtain rfl : e₀ = e := List.inj_on_of_nodup_map hnodup he₀ he (hnode.symm.trans hsame)
    exact hfd

section Count

variable [DecidableEq τ]

/-- An entry that is none of these is not reported. -/
lemma count_errorEvents_of_not_mem {n : ℕ} {l : List (Callback_ κ)} (h : n ∉ nodes l) :
    (l.flatMap Callback_.errorEvents).count (.errorCalled n : Event τ) = 0 := by
  refine List.count_eq_zero.mpr fun hmem => ?_
  obtain ⟨e, he, hevent⟩ := List.mem_flatMap.mp hmem
  rw [Callback_.errorEvents] at hevent
  split at hevent
  · cases hevent
  · cases List.mem_singleton.mp hevent
    exact h (mem_nodes he)

/-- Each entry is reported once, if it has an error callback. -/
lemma count_errorEvents {l : List (Callback_ κ)} (hnodup : (nodes l).Nodup) {e : Callback_ κ}
    (he : e ∈ l) : (l.flatMap Callback_.errorEvents).count (.errorCalled e.node : Event τ) =
      if e.on_error_callback.isSome then 1 else 0 := by
  induction l with
  | nil => cases he
  | cons c l ih =>
      obtain ⟨hc, hl⟩ := List.nodup_cons.mp hnodup
      rw [List.flatMap_cons, List.count_append]
      rcases List.mem_cons.mp he with rfl | he
      · rw [count_errorEvents_of_not_mem hc, Callback_.errorEvents]
        cases e.on_error_callback <;> simp
      · have hne : c.node ≠ e.node := fun heq => hc (heq ▸ mem_nodes he)
        rw [ih hl he, Callback_.errorEvents]
        cases c.on_error_callback <;> simp [hne]

end Count

section Theorem

variable [DecidableEq τ]

/-- The nodes stay apart over the round. -/
lemma Numbered.round {as : List (Action τ κ)} (h : Numbered m)
    (hround : RunTo (RoundStep pipe answer throws) m as s') : Numbered s' :=
  (always_of_everyStep (fun _ _ _ hs _ hstep => hs.step hstep.1) h
    (everyStep_of_forall (Q := fun _ _ => True) fun _ _ _ => trivial)).last hround

lemma Dispatched.round {as : List (Action τ κ)} (hnumbered : Numbered s)
    (hdistinct : (pipe :: descriptors s.callbacks_).Nodup) (hcompute : Step pipe s .compute m)
    (hround : RunTo (RoundStep pipe answer throws) m as s') (hover : RoundOver s') :
    Dispatched answer throws s s' := by
  obtain ⟨hcallbacks, hlog⟩ := (Phase.round hdistinct hcompute hround).over hover
  refine ⟨hnumbered.nodup.sublist ?_, hlog, hcallbacks⟩
  rw [← nodes_computed]
  exact (Answer.called_sublist _).map _

/-- **The failing entries are out of sight** at the end of the round. -/
lemma Dispatched.excluded {as : List (Action τ κ)} (hnumbered : Numbered s)
    (hdistinct : (pipe :: descriptors s.callbacks_).Nodup) (hcompute : Step pipe s .compute m)
    (hround : RunTo (RoundStep pipe answer throws) m as s') (hover : RoundOver s')
    {e : Callback_ κ} (he : e ∈ answer.failing throws (s.callbacks_.map Callback_.computed)) :
    Excluded e.node e.file_descriptor s'.log s' := by
  have hdispatched := Dispatched.round hnumbered hdistinct hcompute hround hover
  have hmem := (Answer.failing_sublist _).subset he
  have hhidden : Hidden e.node e.file_descriptor s'.callbacks_ := by
    rw [hdispatched.callbacks_]
    refine hidden_pend ?_ ?_ hmem (mem_nodes he)
    · rw [descriptors_computed]
      exact (List.nodup_cons.mp hdistinct).2
    · rw [nodes_computed]
      exact hnumbered.nodup
  have hnode : e.node ∈ nodes s'.callbacks_ := by
    rw [hdispatched.callbacks_, nodes_pend]
    exact mem_nodes hmem
  have hold : e.node < s'.next_node := ((hnumbered.step hcompute).round hround).fresh _ hnode
  have hunaware : s'.worker.Unaware e.node e.file_descriptor := by
    rcases hover with hw | hw <;> (rw [hw]; exact .idle (Finset.notMem_empty _) rfl rfl)
  exact ⟨hhidden, hold, hunaware, [], (List.append_nil _).symm, List.not_mem_nil, List.not_mem_nil⟩

/-- What has been out of sight since a round is dismissed. -/
lemma Excluded.dismissed {later : State τ κ} (hnumbered : Numbered s)
    (h : Dispatched answer throws s s') {e : Callback_ κ}
    (he : e ∈ answer.failing throws (s.callbacks_.map Callback_.computed))
    (hlater : Excluded e.node e.file_descriptor s'.log later) : Dismissed e s s' later := by
  obtain ⟨more, hlog, hcalled, herror⟩ := hlater.silent
  have hnodup : (nodes (answer.failing throws (s.callbacks_.map Callback_.computed))).Nodup := by
    refine hnumbered.nodup.sublist ?_
    rw [← nodes_computed s.callbacks_]
    exact (Answer.failing_sublist _).map _
  refine ⟨?_, ?_, fun e' he' hn => hlater.hidden.unselected e' he' (hlater.hidden.own e' he' hn),
    hlater.unaware.watched⟩
  · rw [hlog, h.log, List.append_assoc, List.append_assoc, List.drop_left, List.count_append,
      List.count_append, count_errorEvents hnodup he, List.count_eq_zero.mpr herror]
    simp [List.count_eq_zero]
  · rw [hlog, List.drop_left]
    exact hcalled

/-- **A round calls the ready entries and removes the failing ones.**  From a worker at the head of
its loop, with descriptors that are distinct and not the pipe's: whatever `select` can answer and
whichever callbacks throw, the round comes to its end, and however it does, in whatever follows, as
long as nobody attaches the descriptor again, the failing entries are dismissed. -/
theorem round_dispatches (hnumbered : Numbered s)
    (hdistinct : (pipe :: descriptors s.callbacks_).Nodup) (hcompute : Step pipe s .compute m) :
    (∀ (answer : Answer) (throws : ℕ → Bool), answer.Possible pipe s →
      ∃ as s', RunTo (RoundStep pipe answer throws) m as s' ∧ RoundOver s') ∧
    ∀ (answer : Answer) (throws : ℕ → Bool) (as : List (Action τ κ)) (s' : State τ κ),
      RunTo (RoundStep pipe answer throws) m as s' → RoundOver s' →
        Dispatched answer throws s s' ∧
        ∀ e ∈ answer.failing throws (s.callbacks_.map Callback_.computed),
          ∀ (bs : List (Action τ κ)) (later : State τ κ),
            (∀ b ∈ bs, Registers {e.file_descriptor}ᶜ b) → RunTo (Step pipe) s' bs later →
              Dismissed e s s' later := by
  refine ⟨fun answer throws hanswer => Completes.compute hcompute hanswer, ?_⟩
  intro answer throws as s' hround hover
  have hdispatched := Dispatched.round hnumbered hdistinct hcompute hround hover
  refine ⟨hdispatched, fun e he bs later hbs hrun => ?_⟩
  have hpipe : e.file_descriptor ≠ pipe := by
    intro heq
    have hmem := List.mem_map_of_mem (f := Callback_.file_descriptor)
      ((Answer.failing_sublist _).subset he)
    rw [← descriptors, descriptors_computed, heq] at hmem
    exact (List.nodup_cons.mp hdistinct).1 hmem
  have hexcluded := Dispatched.excluded hnumbered hdistinct hcompute hround hover he
  exact (hexcluded.run hpipe hbs hrun).dismissed hnumbered hdispatched he

end Theorem

/-- Three entries, the one in the middle with an error callback. -/
def threeEntries : State Unit Unit :=
  ((State.init.attach 5 () none).attach 6 () (some ())).attach 7 () none

/-- Three descriptors are ready, and the callback of the second throws: the third is called all the
same, and the second is dismissed. -/
theorem round_dispatches_three : ∃ m, Step 3 threeEntries .compute m ∧
    (∃ as s', RunTo (RoundStep 3 (.reports {3, 5, 6, 7}) fun n => n == 1) m as s' ∧
      RoundOver s') ∧
    ∀ as s', RunTo (RoundStep 3 (.reports {3, 5, 6, 7}) fun n => n == 1) m as s' → RoundOver s' →
      s'.log = [.called 0, .called 1, .called 2, .errorCalled 1] ∧
      s'.callbacks_.map Callback_.state = [.attached__, .pending_detachment__, .attached__] ∧
      ∀ bs later, (∀ b ∈ bs, Registers {6}ᶜ b) → RunTo (Step 3) s' bs later →
        6 ∉ later.worker.watched := by
  have hnumbered : Numbered threeEntries :=
    ((Numbered.init.attach 5 () none).attach 6 () (some ())).attach 7 () none
  have hcompute : Step 3 threeEntries .compute _ := .compute rfl rfl
  obtain ⟨hends, hall⟩ := round_dispatches hnumbered (by decide) hcompute
  refine ⟨_, hcompute, hends (.reports {3, 5, 6, 7}) (fun n => n == 1)
    ⟨by decide, by decide, by decide⟩, ?_⟩
  intro as s' hround hover
  obtain ⟨hdispatched, hdismissed⟩ := hall _ _ as s' hround hover
  refine ⟨hdispatched.log, ?_, fun bs later hbs hrun => ?_⟩
  · rw [hdispatched.callbacks_]
    rfl
  · exact (hdismissed ⟨1, 6, (), some (), .attached__⟩ (by decide) bs later hbs hrun).unwatched

/-- **A round in which nothing throws changes a state**: an entry waits to be attached, and is
attached. -/
theorem round_attaches : ∃ (s m s' : State Unit Unit) (as : List (Action Unit Unit)),
    RunTo (Step 3) State.init [.attach (.thread ()) 5 () none] s ∧ Step 3 s .compute m ∧
      RunTo (RoundStep 3 (.reports {3}) fun _ => false) m as s' ∧ RoundOver s' ∧
      s.callbacks_.map Callback_.state = [.pending_attachment__] ∧
      s'.callbacks_.map Callback_.state = [.attached__] := by
  refine ⟨_, _, _, [.select {3}, .collect], ⟨_, .attach ⟨rfl, id⟩ (by decide), rfl⟩,
    .compute rfl rfl, ⟨_, ⟨.select rfl (by decide) (by decide) (by decide), rfl⟩, _,
      ⟨.collect rfl, trivial⟩, rfl⟩, .inr rfl, rfl, rfl⟩

end Arachnida.Spin.Private
