import Arachnida.Spin.Private.ConnectionHandler

/-!
The descriptors that the worker puts into its descriptor sets, and the bound that `FD_SET` and
`FD_ISSET` have for them.

* `passed`: what a step passes to either.
* `Fits`: a descriptor that they can take; `FD_SETSIZE` is a parameter.
* `fits_everyStep`: **nothing else is passed in a run that registers nothing else.**
* `fits_iff`: **the sets are never overrun if and only if no descriptor can be registered that does
  not fit**: on the way to `FD_SET` nobody looks.
-/

namespace Arachnida.Spin.Private

open Library

variable {τ κ : Type*} {pipe : ℤ} {s s' : State τ κ}

/-- The look at the pipe behind the callbacks, unless there are removals. -/
def passedLeaving (pipe : ℤ) (callbacks_to_remove : List ℤ) : List ℤ :=
  if callbacks_to_remove.isEmpty then [pipe] else []

/-- The descriptors that a step passes to `FD_SET` or to `FD_ISSET`: those selected on and the pipe,
those tested, and those of all entries where the ready ones are collected. -/
def passed (pipe : ℤ) (s : State τ κ) : Action τ κ → List ℤ
  | .compute => descriptors (s.callbacks_.filter fun e => e.Selected) ++ [pipe]
  | .test testFD_ =>
      descriptors (s.callbacks_.filter fun e => e.state = .attached__)
        ++ passedLeaving pipe (brokenFDs testFD_ s.callbacks_)
  | .collect =>
      descriptors s.callbacks_ ++ match s.worker with
        | .reported fds => if (callbacksToCall fds s.callbacks_).isEmpty then [pipe] else []
        | _ => []
  | .callReturns =>
      match s.worker with
      | .running _ _ [] callbacks_to_remove => passedLeaving pipe callbacks_to_remove
      | _ => []
  | _ => []

/-- A descriptor that `FD_SET` and `FD_ISSET` can take. -/
def Fits (FD_SETSIZE fd : ℤ) : Prop := 0 ≤ fd ∧ fd < FD_SETSIZE

/-- All descriptors that an action registers are among these. -/
def Registers (D : Set ℤ) : Action τ κ → Prop
  | .attach _ fd _ _ => fd ∈ D
  | _ => True

/-- Every descriptor that a step passes fits. -/
def PassesFitting (FD_SETSIZE pipe : ℤ) (s : State τ κ) (a : Action τ κ) : Prop :=
  ∀ fd ∈ passed pipe s a, Fits FD_SETSIZE fd

/-! ### What is registered -/

lemma descriptors_of_sublist {l l' : List (Callback_ κ)} (h : l.Sublist l') :
    ∀ fd ∈ descriptors l, fd ∈ descriptors l' := fun _ hfd => (h.map _).subset hfd

lemma mem_passedLeaving {fd : ℤ} {removals : List ℤ} (h : fd ∈ passedLeaving pipe removals) :
    fd = pipe := by
  rw [passedLeaving] at h
  split at h
  · exact List.mem_singleton.mp h
  · cases h

/-- **Only registered descriptors and the pipe's are passed.** -/
lemma mem_passed {a : Action τ κ} {fd : ℤ} (h : fd ∈ passed pipe s a) :
    fd ∈ descriptors s.callbacks_ ∨ fd = pipe := by
  cases a with
  | compute =>
      rcases List.mem_append.mp h with h | h
      · exact .inl (descriptors_of_sublist List.filter_sublist fd h)
      · exact .inr (List.mem_singleton.mp h)
  | test testFD_ =>
      rcases List.mem_append.mp h with h | h
      · exact .inl (descriptors_of_sublist List.filter_sublist fd h)
      · exact .inr (mem_passedLeaving h)
  | collect =>
      rcases List.mem_append.mp h with h | h
      · exact .inl h
      · refine .inr ?_
        split at h
        · split at h
          · exact List.mem_singleton.mp h
          · cases h
        · cases h
  | callReturns =>
      rw [passed] at h
      split at h
      · exact .inr (mem_passedLeaving h)
      · cases h
  | _ => cases h

variable [DecidableEq τ] {D : Set ℤ}

/-- One step adds no descriptor but the one it registers. -/
lemma descriptors_step {a : Action τ κ} (hs : ∀ fd ∈ descriptors s.callbacks_, fd ∈ D)
    (ha : Registers D a) (hstep : Step pipe s a s') :
    ∀ fd ∈ descriptors s'.callbacks_, fd ∈ D := by
  obtain ⟨-, hl | hl | ⟨n, hl⟩ | ⟨n, hl⟩⟩ | ⟨who, fd, f, g, rfl, rfl⟩ := hstep.list_cases
  · rw [hl]
    exact hs
  · rw [hl, descriptors_computed]
    exact hs
  · rw [hl, descriptors_setState]
    exact hs
  · rw [hl]
    exact fun x hx => hs x (descriptors_of_sublist (eraseNode_sublist n s.callbacks_) x hx)
  · rw [descriptors_attach]
    intro x hx
    rcases List.mem_append.mp hx with hx | hx
    · exact hs x hx
    · exact List.mem_singleton.mp hx ▸ ha

/-- **Runs that register only what fits** pass only what fits. -/
lemma fits_everyStep {FD_SETSIZE : ℤ} (hpipe : Fits FD_SETSIZE pipe)
    (hD : ∀ fd ∈ D, Fits FD_SETSIZE fd) {as : List (Action τ κ)} (has : ∀ a ∈ as, Registers D a)
    (hs : ∀ fd ∈ descriptors s.callbacks_, fd ∈ D) :
    EveryStep (Step pipe) (PassesFitting FD_SETSIZE pipe) s as := by
  induction as generalizing s with
  | nil => trivial
  | cons a as ih =>
      intro s' hstep
      refine ⟨fun fd hfd => ?_, ih (fun b hb => has b (by simp [hb]))
        (descriptors_step hs (has a (by simp)) hstep)⟩
      rcases mem_passed hfd with hmem | rfl
      · exact hD fd (hs fd hmem)
      · exact hpipe

/-! ### A descriptor that does not fit -/

/-- A thread registers a descriptor, and the worker computes its set. -/
def registered (t : τ) (f : κ) (fd : ℤ) : List (Action τ κ) :=
  [.attach (.thread t) fd f none, .compute]

/-- **A registered descriptor is passed** when the set is computed next. -/
lemma fits_of_registered {FD_SETSIZE fd : ℤ} (t : τ) (f : κ) (hfd : fd ≠ pipe)
    (h : EveryStep (Step pipe) (PassesFitting FD_SETSIZE pipe) State.init (registered t f fd)) :
    Fits FD_SETSIZE fd := by
  have hattach : Step pipe (State.init : State τ κ) (.attach (.thread t) fd f none)
      (State.init.attach fd f none) := .attach ⟨rfl, id⟩ hfd
  have hcompute := (h _ hattach).2 _ (.compute rfl rfl)
  refine hcompute.1 fd ?_
  simp [passed, State.attach, State.init, descriptors, Callback_.Selected]

/-- **The descriptor sets are never overrun** if and only if the pipe's descriptor and all those
that may be registered are below `FD_SETSIZE`: for descriptors that the operating system gives out,
which are not negative and not the pipe's. -/
theorem fits_iff [Nonempty τ] [Nonempty κ] (FD_SETSIZE : ℤ) (hpipe : 0 ≤ pipe)
    (hD : ∀ fd ∈ D, 0 ≤ fd ∧ fd ≠ pipe) :
    (∀ as : List (Action τ κ), (∀ a ∈ as, Registers D a) →
      EveryStep (Step pipe) (PassesFitting FD_SETSIZE pipe) State.init as) ↔
    pipe < FD_SETSIZE ∧ ∀ fd ∈ D, fd < FD_SETSIZE := by
  obtain ⟨t⟩ := ‹Nonempty τ›
  obtain ⟨f⟩ := ‹Nonempty κ›
  constructor
  · intro h
    constructor
    · have hrun := h [.compute] (by simp [Registers]) _ (.compute rfl rfl)
      exact (hrun.1 pipe (by simp [passed])).2
    · intro fd hfd
      exact (fits_of_registered t f (hD fd hfd).2 (h _ (by simpa [registered, Registers]))).2
  · rintro ⟨hlimit, hall⟩ as has
    exact fits_everyStep ⟨hpipe, hlimit⟩ (fun fd hfd => ⟨(hD fd hfd).1, hall fd hfd⟩) has
      (by simp [State.init, descriptors])

/-- With room for 1024 descriptors, where those from 4 to 1023 may be registered, 5 is. -/
theorem fits_iff_small : EveryStep (Step 3) (PassesFitting 1024 3) (State.init : State Unit Unit)
    [.attach (.thread ()) 5 () none, .compute] := by
  have hall := (@fits_iff Unit Unit 3 _ (Set.Icc 4 1023) _ _ 1024 (by decide) fun fd hfd => ?_).mpr
    ⟨by decide, fun fd hfd => ?_⟩
  · exact hall _ (by simp [Registers])
  · exact ⟨by have := hfd.1; omega, by have := hfd.1; omega⟩
  · have := hfd.2
    omega

/-- **The descriptor 1024 overruns a set of 1024**: it is registered, and passed to `FD_SET`. -/
theorem set_overrun : ∃ s s' : State Unit Unit,
    RunTo (Step 3) State.init [.attach (.thread ()) 1024 () none] s ∧
      Step 3 s .compute s' ∧ 1024 ∈ passed 3 s .compute ∧ ¬ Fits 1024 1024 := by
  refine ⟨State.init.attach 1024 () none, _, ⟨_, .attach ⟨rfl, id⟩ (by decide), rfl⟩,
    .compute rfl rfl, ?_, fun h => absurd h.2 (by decide)⟩
  simp [passed, State.attach, State.init, descriptors, Callback_.Selected]

end Arachnida.Spin.Private
