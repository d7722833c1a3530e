import Arachnida.Spin.Private.ConnectionHandler

/-!
The pipe that wakes the worker from `select`.

* `Awake`: in `select`, either nothing was changed since the set was computed, and the set is the
  one that would be computed now, or the pipe holds a byte.
* `registration_noticed`: **no change of the registry is slept over.**
* `Audible`: a failed `select` that finds no broken descriptor leaves a byte in the pipe.
* `drain_always_iff`: **the worker reads the pipe with a byte in it if and only if every failed
  `select` is audible**, since a failed `select` leaves the pipe in the set.
-/

namespace Arachnida.Spin.Private

open Library

variable {τ κ : Type*} {pipe : ℤ} {s s' : State τ κ}

/-! ### Changes of the registry -/

lemma computed_selected (e : Callback_ κ) : e.computed.Selected ↔ e.Selected := by
  obtain ⟨_, _, _, _, state⟩ := e
  cases state <;> simp [Callback_.computed, Callback_.Selected]

/-- Computing the set again gives the same set. -/
lemma selectSet_computed (l : List (Callback_ κ)) :
    selectSet (l.map Callback_.computed) = selectSet l := by
  ext fd
  simp [mem_selectSet, computed_selected]

/-- A detached entry is not in the set. -/
lemma selectSet_eraseNode (hs : Numbered s) {e : Callback_ κ} (he : e ∈ s.callbacks_)
    (hstate : e.state = .detached__) :
    selectSet (eraseNode e.node s.callbacks_) = selectSet s.callbacks_ := by
  ext fd
  simp only [mem_selectSet, mem_eraseNode]
  constructor
  · rintro ⟨e', ⟨he', -⟩, hsel⟩
    exact ⟨e', he', hsel⟩
  · rintro ⟨e', he', hsel, hfd⟩
    refine ⟨e', ⟨he', fun hn => ?_⟩, hsel, hfd⟩
    obtain rfl := hs.eq_of_node he' he hn
    simp [Callback_.Selected, hstate] at hsel

/-- What the worker's set has to do with the registry while it is in `select`. -/
structure Awake (pipe : ℤ) (s : State τ κ) : Prop where
  numbered : Numbered s
  set : ∀ fds, s.worker = .selecting fds → s.changed = false →
    fds = insert pipe (selectSet s.callbacks_)
  mem : ∀ fds, s.worker = .selecting fds → pipe ∈ fds
  byte : ∀ fds, s.worker = .selecting fds → s.changed = true → 0 < s.sync_pipe_

lemma Awake.init : Awake pipe (State.init : State τ κ) :=
  ⟨Numbered.init, by simp [State.init], by simp [State.init], by simp [State.init]⟩

/-- A change that is written to the pipe. -/
lemma Awake.of_changed (h : Awake pipe s) (hs' : Numbered s') (hworker : s'.worker = s.worker)
    (hchanged : s'.changed = true) (hpipe : s'.sync_pipe_ = s.sync_pipe_ + 1) : Awake pipe s' where
  numbered := hs'
  set := fun _ _ hc => by simp [hchanged] at hc
  mem := hworker ▸ h.mem
  byte := fun _ _ _ => hpipe ▸ Nat.succ_pos _

/-- The worker is not in `select`. -/
lemma Awake.of_worker (hs' : Numbered s') (hworker : ∀ fds, s'.worker ≠ .selecting fds) :
    Awake pipe s' :=
  ⟨hs', fun fds h => absurd h (hworker fds), fun fds h => absurd h (hworker fds),
    fun fds h => absurd h (hworker fds)⟩

@[simp]
lemma Worker.leave_ne_selecting (fds fds' : Finset ℤ) (removals : List ℤ) :
    (Worker.leave pipe fds removals : Worker κ) ≠ .selecting fds' := by
  rw [leave]
  split_ifs <;> simp

@[simp]
lemma Worker.dispatch_ne_selecting (fds fds' : Finset ℤ) (calls : List (CallbackToCall κ))
    (removals : List ℤ) : Worker.dispatch pipe fds calls removals ≠ .selecting fds' := by
  cases calls with
  | nil => exact leave_ne_selecting fds fds' removals
  | cons c cs => simp [dispatch]

lemma remove_ne_selecting (s : State τ κ) (fd : ℤ) (removals : List ℤ) (fds : Finset ℤ) :
    (s.remove fd removals).worker ≠ .selecting fds := by
  obtain hr | ⟨e, -, hr | ⟨g, hr⟩⟩ := s.remove_cases fd removals <;> simp [hr]

variable [DecidableEq τ] in
/-- One step keeps the worker awake. -/
lemma Awake.step (a : Action τ κ) (h : Awake pipe s) (hstep : Step pipe s a s') :
    Awake pipe s' := by
  have hnumbered := h.numbered.step hstep
  cases hstep with
  | attach => exact h.of_changed hnumbered rfl rfl rfl
  | @detach who fd _ =>
      obtain hd | ⟨e, -, ⟨rfl, hd⟩ | ⟨t, rfl, hd⟩⟩ := s.detach_cases who fd <;>
        rw [hd] at hnumbered ⊢
      · exact h
      · exact h.of_changed hnumbered rfl rfl rfl
      · exact h.of_changed hnumbered rfl rfl rfl
  | @wake t e _ he _ =>
      rw [State.wake] at hnumbered ⊢
      split_ifs at hnumbered ⊢ with hstate
      · refine ⟨hnumbered, fun fds hw hc => ?_, h.mem, h.byte⟩
        show fds = insert pipe (selectSet (eraseNode e.node s.callbacks_))
        rw [selectSet_eraseNode h.numbered he hstate, h.set fds hw hc]
      · exact h
  | destroy => exact ⟨hnumbered, h.set, h.mem, fun _ _ _ => Nat.succ_pos _⟩
  | compute =>
      refine ⟨hnumbered, fun fds hw _ => ?_, fun fds hw => ?_, by simp⟩
      · show fds = insert pipe (selectSet (s.callbacks_.map Callback_.computed))
        rw [selectSet_computed, Worker.selecting.inj hw]
      · exact Worker.selecting.inj hw ▸ Finset.mem_insert_self pipe _
  | test => exact .of_worker hnumbered (Worker.leave_ne_selecting _ · _)
  | collect => exact .of_worker hnumbered (Worker.dispatch_ne_selecting _ · _ _)
  | callReturns => exact .of_worker hnumbered (Worker.dispatch_ne_selecting _ · _ _)
  | callThrows => exact .of_worker hnumbered (Worker.dispatch_ne_selecting _ · _ _)
  | remove => exact .of_worker hnumbered (remove_ne_selecting s _ _)
  | _ => exact .of_worker hnumbered (by simp)

variable [DecidableEq τ] in
/-- While the worker is in `select`: if the registry was changed since the set was computed then the
pipe holds a byte and `select` can return, and as long as the pipe is empty the set is what would
be computed now. -/
def Noticed (pipe : ℤ) (s : State τ κ) : Prop :=
  ∀ fds, s.worker = .selecting fds →
    (s.changed = true → 0 < s.sync_pipe_ ∧ ∃ s', Step pipe s (.select {pipe}) s') ∧
      (s.sync_pipe_ = 0 → fds = insert pipe (selectSet s.callbacks_))

variable [DecidableEq τ] in
lemma Awake.noticed (h : Awake pipe s) : Noticed pipe s := by
  refine fun fds hw => ⟨fun hc => ⟨h.byte fds hw hc, _, .select hw ?_ ?_ ?_⟩, fun hempty => ?_⟩
  · exact Finset.singleton_subset_iff.mpr (h.mem fds hw)
  · exact Finset.singleton_nonempty pipe
  · simp [h.byte fds hw hc]
  · cases hc : s.changed with
    | false => exact h.set fds hw hc
    | true => exact absurd (h.byte fds hw hc) (by omega)

variable [DecidableEq τ] in
/-- **No registration change is lost**: in every state of every run. -/
theorem registration_noticed (as : List (Action τ κ)) :
    Always (Step pipe) (Noticed pipe) (State.init : State τ κ) as :=
  (always_of_everyStep (Q := fun _ _ => True) (fun _ a _ hs _ hstep => hs.step a hstep) Awake.init
    (everyStep_of_forall fun _ _ _ => trivial)).mono fun _ hs => hs.noticed

/-! ### The pipe is read -/

/-- The set as `select` has left it. -/
def Worker.result : Worker κ → Finset ℤ
  | .reported fds | .calling fds _ _ _ | .running fds _ _ _ => fds
  | _ => ∅

/-- The set as it was given to `select`. -/
def Worker.Given (pipe : ℤ) : Worker κ → Prop
  | .selecting fds | .failed fds => pipe ∈ fds
  | _ => True

/-- The pipe is in the set that `select` is given, and when `select` reports it then it holds a
byte, until the worker reads it. -/
structure Reporting (pipe : ℤ) (s : State τ κ) : Prop where
  given : s.worker.Given pipe
  byte : pipe ∈ s.worker.result → 0 < s.sync_pipe_

/-- The pipe holds a byte where the worker reads it. -/
def DrainsByte (s : State τ κ) : Prop := s.worker = .draining → 0 < s.sync_pipe_

lemma Worker.result_dispatch_subset (fds : Finset ℤ) (calls : List (CallbackToCall κ))
    (removals : List ℤ) : (Worker.dispatch pipe fds calls removals).result ⊆ fds := by
  cases calls with
  | nil =>
      rw [dispatch, leave]
      split_ifs <;> exact Finset.empty_subset _
  | cons c cs => exact Finset.Subset.refl _

lemma Worker.given_dispatch (fds : Finset ℤ) (calls : List (CallbackToCall κ))
    (removals : List ℤ) : (Worker.dispatch pipe fds calls removals).Given pipe := by
  cases calls with
  | nil =>
      rw [dispatch, leave]
      split_ifs <;> trivial
  | cons c cs => trivial

/-- The pipe is read only if it is in the set. -/
lemma Worker.mem_of_dispatch_draining {fds : Finset ℤ} {calls : List (CallbackToCall κ)}
    {removals : List ℤ} (h : Worker.dispatch pipe fds calls removals = .draining) : pipe ∈ fds := by
  cases calls with
  | nil =>
      rw [dispatch, leave] at h
      split_ifs at h with _ hmem
      exact hmem
  | cons c cs => cases h

/-- The worker stays where it is, and the pipe is not read. -/
lemma Reporting.of_pipe (h : Reporting pipe s) (hworker : s'.worker = s.worker)
    (hpipe : s.sync_pipe_ ≤ s'.sync_pipe_) : Reporting pipe s' :=
  ⟨hworker ▸ h.given, fun hmem => (h.byte (hworker ▸ hmem)).trans_le hpipe⟩

lemma DrainsByte.of_pipe (h : DrainsByte s) (hworker : s'.worker = s.worker)
    (hpipe : s.sync_pipe_ ≤ s'.sync_pipe_) : DrainsByte s' :=
  fun hw => (h (hworker ▸ hw)).trans_le hpipe

/-- The next callback, or the end of the round. -/
lemma Reporting.dispatch {fds : Finset ℤ} (hbyte : pipe ∈ fds → 0 < s.sync_pipe_)
    (calls : List (CallbackToCall κ)) (removals : List ℤ) :
    Reporting pipe { s with worker := .dispatch pipe fds calls removals } ∧
      DrainsByte { s with worker := .dispatch pipe fds calls removals } :=
  ⟨⟨Worker.given_dispatch _ _ _, fun h => hbyte (Worker.result_dispatch_subset _ _ _ h)⟩,
    fun hw => hbyte (Worker.mem_of_dispatch_draining hw)⟩

/-- Where a failed `select` finds no broken descriptor, the pipe holds a byte. -/
def Audible (s : State τ κ) : Action τ κ → Prop
  | .test testFD_ =>
      (∀ e ∈ s.callbacks_, e.state = .attached__ → testFD_ e.file_descriptor = true) →
        0 < s.sync_pipe_
  | _ => True

lemma brokenFDs_eq_nil {testFD_ : ℤ → Bool} {l : List (Callback_ κ)} : brokenFDs testFD_ l = [] ↔
    ∀ e ∈ l, e.state = .attached__ → testFD_ e.file_descriptor = true := by
  simp [brokenFDs, List.filter_eq_nil_iff]

/-- Behind a failed `select` the pipe is read if no descriptor is broken. -/
lemma leave_eq_draining {fds : Finset ℤ} (h : pipe ∈ fds) (removals : List ℤ) :
    (Worker.leave pipe fds removals : Worker κ) = .draining ↔ removals = [] := by
  rw [Worker.leave]
  split_ifs with hr <;> simp_all

/-- The worker at a point where no set of `select` is looked at. -/
lemma Reporting.of_worker {w : Worker κ} (hgiven : w.Given pipe) (hresult : w.result = ∅)
    (hw : w ≠ .draining) :
    Reporting pipe { s with worker := w } ∧ DrainsByte { s with worker := w } :=
  ⟨⟨hgiven, fun h => absurd (hresult ▸ h) (Finset.notMem_empty _)⟩, fun h => absurd h hw⟩

variable [DecidableEq τ]

/-- One step keeps what `select` reports, and the byte for the read if and only if it is audible. -/
lemma Reporting.step (a : Action τ κ) (h : Reporting pipe s) (hd : DrainsByte s)
    (hstep : Step pipe s a s') : Reporting pipe s' ∧ (DrainsByte s' ↔ Audible s a) := by
  have hkeep : s'.worker = s.worker → s.sync_pipe_ ≤ s'.sync_pipe_ →
      Reporting pipe s' ∧ DrainsByte s' :=
    fun hw hp => ⟨h.of_pipe hw hp, hd.of_pipe hw hp⟩
  have hother : Reporting pipe s' ∧ DrainsByte s' → Audible s a →
      Reporting pipe s' ∧ (DrainsByte s' ↔ Audible s a) :=
    fun hs' ha => ⟨hs'.1, iff_of_true hs'.2 ha⟩
  have hbyte := h.byte
  cases hstep with
  | attach => exact hother (hkeep rfl (Nat.le_succ _)) trivial
  | @detach who fd _ =>
      refine hother ?_ trivial
      obtain hd | ⟨e, -, ⟨rfl, hd⟩ | ⟨t, rfl, hd⟩⟩ := s.detach_cases who fd <;>
        rw [hd] at hkeep ⊢
      · exact hkeep rfl le_rfl
      · exact hkeep rfl (Nat.le_succ _)
      · exact hkeep rfl (Nat.le_succ _)
  | wake =>
      refine hother (hkeep ?_ ?_) trivial
      all_goals rw [State.wake]; split_ifs <;> rfl
  | destroy => exact hother (hkeep rfl (Nat.le_succ _)) trivial
  | compute =>
      exact hother ⟨⟨Finset.mem_insert_self pipe _,
          fun hmem => absurd hmem (Finset.notMem_empty _)⟩,
        by simp [DrainsByte]⟩ trivial
  | select _ _ _ hpipe => exact hother ⟨⟨trivial, hpipe.mp⟩, by simp [DrainsByte]⟩ trivial
  | selectFails hw =>
      have hgiven := h.given
      rw [hw] at hgiven
      exact hother (Reporting.of_worker hgiven rfl (by simp)) trivial
  | @test fds testFD_ hw =>
      have hgiven : pipe ∈ fds := by simpa [hw, Worker.Given] using h.given
      refine ⟨⟨?_, fun hmem => ?_⟩, ?_⟩
      · exact Worker.given_dispatch fds [] _
      · rw [Worker.leave] at hmem
        split_ifs at hmem <;> exact absurd hmem (Finset.notMem_empty _)
      · rw [DrainsByte, leave_eq_draining hgiven, brokenFDs_eq_nil]
        rfl
  | collect hw =>
      exact hother (Reporting.dispatch (by simpa [hw, Worker.result] using hbyte) _ _) trivial
  | call hw =>
      rw [hw] at hbyte
      exact hother ⟨⟨trivial, hbyte⟩, by simp [DrainsByte]⟩ trivial
  | callReturns hw =>
      exact hother (Reporting.dispatch (by simpa [hw, Worker.result] using hbyte) _ _) trivial
  | callThrows hw =>
      exact hother (Reporting.dispatch (by simpa [hw, Worker.result] using hbyte) _ _) trivial
  | @remove fd removals _ =>
      refine hother ?_ trivial
      obtain hr | ⟨e, -, hr | ⟨g, hr⟩⟩ := s.remove_cases fd removals <;> rw [hr]
      all_goals
        exact ⟨⟨trivial, fun hmem => absurd hmem (Finset.notMem_empty _)⟩, by simp [DrainsByte]⟩
  | drain =>
      exact hother ⟨⟨trivial, fun hmem => absurd hmem (Finset.notMem_empty _)⟩,
        by simp [DrainsByte]⟩ trivial
  | _ => exact hother (Reporting.of_worker trivial rfl (by simp)) trivial

/-- **The worker never blocks outside `select`** if and only if every failed `select` is audible. -/
theorem drain_always_iff (as : List (Action τ κ)) :
    Always (Step pipe) DrainsByte (State.init : State τ κ) as ↔
      EveryStep (Step pipe) Audible (State.init : State τ κ) as := by
  refine always_iff_everyStep_of_invariant
    (fun s a s' (hs : Reporting pipe s) hd hstep => hs.step a hd hstep) ⟨trivial, fun h => ?_⟩
    (by simp [DrainsByte, State.init])
  exact absurd h (Finset.notMem_empty _)

/-- **A signal makes the worker read an empty pipe**, where it stays: nothing is registered,
`select` is interrupted and no descriptor is broken. -/
theorem drain_fails : ¬ Always (Step 3) DrainsByte (State.init : State Unit Unit)
      [.compute, .selectFails, .test fun _ => true] ∧
    ∃ s : State Unit Unit, RunTo (Step 3) .init [.compute, .selectFails, .test fun _ => true] s ∧
      s.worker = .draining ∧ s.sync_pipe_ = 0 ∧ ∀ n s', ¬ Step 3 s (.drain n) s' := by
  obtain ⟨s, hrun, hworker, hpipe⟩ : ∃ s : State Unit Unit,
      RunTo (Step 3) .init [.compute, .selectFails, .test fun _ => true] s ∧
        s.worker = .draining ∧ s.sync_pipe_ = 0 := by
    refine ⟨_, ⟨_, .compute rfl rfl, _, .selectFails rfl, _, .test rfl, rfl⟩, ?_, rfl⟩
    dsimp only
    exact (leave_eq_draining (Finset.mem_insert_self 3 _) _).mpr rfl
  refine ⟨fun h => absurd (h.last hrun hworker) (by omega), s, hrun, hworker, hpipe, ?_⟩
  intro n s' hstep
  cases hstep
  omega

end Arachnida.Spin.Private
