import Arachnida.Library.Run
import Arachnida.Scorpion.CopyOnWrite

/-!
Set-up errors: whether `getContext` can return an `SSL_CTX` that an earlier call gave up on.

* `Complete`: whatever OpenSSL does, what `getContext` returns on a live context has gone through
  every set-up call for the settings it was created with; `complete_iff` reads it off the cells.
* `setUp_short`: the set-up calls made before one that fails are not all of them.
* `FailsEarly`: a `getContext` that finds its cell empty fails with the allocation, or not at all.
* `complete_always_iff`: **only complete contexts come out of a run exactly when every failure is
  early.**
* `complete_fails`: the certificate of the authority that cannot be read, and a second call.
-/

namespace Arachnida.Scorpion

open Library

variable {s s' : State}

/-- Only contexts that went through their whole configuration are returned. -/
def Complete (s : State) : Prop :=
  ∀ x a outcomes ssl, s.objects x = some a → (getContext s.cells a outcomes).1 = .ok ssl →
    ssl = .configured ssl.settings

/-- The cells of live contexts are empty or hold contexts that went through their whole
configuration. -/
def Settled (s : State) : Prop :=
  ∀ x a ssl, s.objects x = some a → s.cells a.ssl_context_ = some ssl →
    ssl = .configured ssl.settings

/-- What is returned is in the cell, or was configured by the call. -/
lemma complete_iff : Complete s ↔ Settled s := by
  constructor
  · intro h x a ssl ha hc
    exact h x a .good ssl ha (congrArg Prod.fst (getContext_filled hc))
  · intro h x a outcomes ssl ha hok
    obtain ⟨hc, -⟩ | ⟨-, rfl, -⟩ := getContext_ok hok
    · exact h x a ssl ha hc
    · rfl

/-! ### The set-up calls of a call that fails -/

lemma setUp_made {fails : SetupCall → Bool} {calls : List SetupCall} :
    (setUp fails calls).2 = true ↔ ∀ call ∈ calls, call.checked → fails call = false := by
  induction calls with
  | nil => simp [setUp]
  | cons call calls ih =>
      rw [setUp]
      split
      · next hf =>
          rw [Bool.and_eq_true] at hf
          refine iff_of_false (by simp) fun h => ?_
          exact absurd (h call (by simp) hf.1) (by simp [hf.2])
      · next hf =>
          simp only [List.forall_mem_cons, ih]
          refine (and_iff_right fun hchecked => ?_).symm
          simpa [hchecked] using hf

/-- A call that fails leaves the later ones out. -/
lemma setUp_short {fails : SetupCall → Bool} {calls : List SetupCall}
    (h : (setUp fails calls).2 = false) : (setUp fails calls).1.length < calls.length := by
  induction calls with
  | nil => simp [setUp] at h
  | cons call calls ih =>
      rw [setUp] at h ⊢
      split
      · simp
      · next hf =>
          rw [if_neg hf] at h
          simpa using ih h

/-- A call of `getContext` on a context: where the cell is empty, the allocation of the `SSL_CTX`
fails, or else no set-up call that is checked does. -/
def FailsEarly (s : State) : Op → Prop
  | .getContext x outcomes => ∀ a, s.objects x = some a → s.cells a.ssl_context_ = none →
      outcomes.allocation = true ∨
        ∀ call ∈ configuration a.settings, call.checked → outcomes.setup call = false
  | _ => True

/-- What a call leaves in an empty cell. -/
lemma getContext_empty {cells : Cells} {a : Context} {outcomes : Outcomes}
    (h : cells a.ssl_context_ = none) :
    (getContext cells a outcomes).2 a.ssl_context_ =
      if outcomes.allocation then none
      else some ⟨a.settings, sslMethod a.settings,
        (setUp outcomes.setup (configuration a.settings)).1⟩ := by
  simp only [getContext, h]
  split
  · exact h
  · exact Function.update_self _ _ _

/-- **A failed call.** The cell of a live context is settled behind `getContext` exactly if the
call fails early or not at all. -/
lemma settled_getContext_iff (h : Settled s) {x : ℕ} {outcomes : Outcomes}
    (hs : step s (.getContext x outcomes) = some s') :
    Settled s' ↔ FailsEarly s (.getContext x outcomes) := by
  obtain ⟨a, ha, hobjects, -, hcells⟩ := step_getContext hs
  constructor
  · intro h' a' ha' hempty
    obtain rfl : a = a' := Option.some.inj (ha ▸ ha')
    refine or_iff_not_imp_left.mpr fun halloc => ?_
    have hcell : s'.cells a.ssl_context_ = some ⟨a.settings, sslMethod a.settings,
        (setUp outcomes.setup (configuration a.settings)).1⟩ := by
      rw [hcells, getContext_empty hempty, if_neg halloc]
    have happlied : (setUp outcomes.setup (configuration a.settings)).1 =
        configuration a.settings :=
      congrArg SSLContext.applied (h' x a _ (hobjects ▸ ha) hcell)
    rw [← setUp_made]
    by_contra hmade
    have hshort := setUp_short (Bool.not_eq_true _ ▸ hmade)
    exact absurd (congrArg List.length happlied) hshort.ne
  · intro hearly z b ssl hb hc
    rw [hobjects] at hb
    rw [hcells] at hc
    by_cases hz : b.ssl_context_ = a.ssl_context_
    · rw [hz] at hc
      cases hfull : s.cells a.ssl_context_ with
      | some ssl' =>
          rw [getContext_filled hfull] at hc
          exact h x a ssl ha hc
      | none =>
          rw [getContext_empty hfull] at hc
          split at hc
          · cases hc
          · next halloc =>
              obtain rfl := Option.some.inj hc
              have hmade := setUp_made.mpr ((hearly a ha hfull).resolve_left halloc)
              rw [setUp_complete hmade]
              rfl
    · rw [getContext_cells hz] at hc
      exact h z b ssl hb hc

lemma Moves.settled (h : Moves s s') (hs : Settled s) : Settled s' := by
  intro x a ssl ha hc
  obtain ⟨y, hy⟩ := h.objects x a ha
  exact hs y a ssl hy (h.cells ▸ hc)

/-- One operation: the cells stay settled exactly if it fails early or not at all. -/
lemma settled_step_iff (hw : WellFormed s) (h : Settled s) {op : Op} (hs : step s op = some s') :
    Settled s' ↔ FailsEarly s op := by
  cases op with
  | construct x flags depth =>
      refine iff_of_true (fun z a ssl ha hc => ?_) trivial
      obtain ⟨hcells, -, hobjects⟩ := step_construct hs
      rw [hobjects] at ha
      rw [hcells] at hc
      obtain ⟨-, rfl⟩ | ⟨-, ha⟩ := update_cases ha
      · rw [hw.cells _ le_rfl] at hc
        cases hc
      · exact h z a ssl ha hc
  | copy x y => exact iff_of_true ((moves_copy hs).settled h) trivial
  | assign x y => exact iff_of_true ((moves_assign hs).settled h) trivial
  | swap x y => exact iff_of_true ((moves_swap hs).settled h) trivial
  | set x v =>
      refine iff_of_true (fun z b ssl hb hc => ?_) trivial
      obtain ⟨hb, hc⟩ := filled_set hw hs hb hc
      exact h z b ssl hb hc
  | getContext x outcomes => exact settled_getContext_iff h hs
  | destroy x => exact iff_of_true ((moves_destroy hs).settled h) trivial

/-! ### Runs -/

lemma settled_init : Settled .init := fun _ _ _ h => nomatch h

/-- **Set-up errors.** In every run, whatever calls of OpenSSL fail, only contexts that went
through their whole configuration are returned, in all states, exactly when every `getContext`
that fails does so at the allocation. -/
theorem complete_always_iff (ops : List Op) :
    Always (stepOf step) Complete .init ops ↔ EveryStep (stepOf step) FailsEarly .init ops := by
  have keeps : ∀ s op s', (WellFormed s ∧ Settled s) → True → stepOf step s op s' →
      ((WellFormed s' ∧ Settled s') ↔ FailsEarly s op) := by
    rintro s op s' ⟨hw, hc⟩ - hs
    rw [← settled_step_iff hw hc hs]
    exact and_iff_right (hw.step hs)
  rw [← always_iff_everyStep keeps ⟨wellFormed_init, settled_init⟩
    (everyStep_of_forall fun _ _ _ => trivial)]
  constructor
  · intro h
    exact wellFormed_always.and (h.mono fun s hs => complete_iff.mp hs)
  · exact fun h => h.mono fun s hs => complete_iff.mpr hs.2

/-- The file of authorities cannot be read. -/
def unreadable : Outcomes :=
  ⟨false, fun call => decide (call = .load_verify_locations (bytes "ca.pem") [])⟩

/-- A context that verifies its peer, with a file of authorities. -/
def withAuthorities : List Op :=
  [.construct 0 0x10 9, .set 0 (.trustedCACertificatesFilename (bytes "ca.pem"))]

/-- The first call throws; the second returns the `SSL_CTX` that the first gave up on, with
nothing set up on it. -/
theorem complete_fails :
    ¬ Always (stepOf step) Complete .init (withAuthorities ++ [.getContext 0 unreadable]) ∧
      ∃ s s' a, withAuthorities.foldlM step .init = some s ∧ s.objects 0 = some a ∧
        (getContext s.cells a unreadable).1 = .error .sslContextSetupError ∧
        step s (.getContext 0 unreadable) = some s' ∧ s'.objects 0 = some a ∧
        .load_verify_locations (bytes "ca.pem") [] ∈ configuration a.settings ∧
        (getContext s'.cells a .good).1 = .ok ⟨a.settings, .sslv23, []⟩ := by
  obtain ⟨s, s', a, hs, ha, hthrown, hs', ha', hcall, hgot⟩ : ∃ s s' a,
      withAuthorities.foldlM step .init = some s ∧ s.objects 0 = some a ∧
        (getContext s.cells a unreadable).1 = .error .sslContextSetupError ∧
        step s (.getContext 0 unreadable) = some s' ∧ s'.objects 0 = some a ∧
        .load_verify_locations (bytes "ca.pem") [] ∈ configuration a.settings ∧
        (getContext s'.cells a .good).1 = .ok ⟨a.settings, .sslv23, []⟩ :=
    ⟨_, _, _, rfl, rfl, by decide +kernel, rfl, rfl, by decide +kernel, by decide +kernel⟩
  refine ⟨fun h => ?_, s, s', a, hs, ha, hthrown, hs', ha', hcall, hgot⟩
  have hrun : (withAuthorities ++ [Op.getContext 0 unreadable]).foldlM step .init = some s' := by
    rw [List.foldlM_append, hs]
    simpa using hs'
  have hcomplete := (h.last (runTo_stepOf hrun)) 0 a .good _ ha' hgot
  have hnone : [] = configuration a.settings := congrArg SSLContext.applied hcomplete
  rw [← hnone] at hcall
  cases hcall

end Arachnida.Scorpion
