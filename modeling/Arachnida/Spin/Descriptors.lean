import Arachnida.Library.Bytes
import Arachnida.Library.Ownership
import Arachnida.Library.Run

/-!
The descriptors that `Pipe::Pipe` and `UDPSocket::UDPSocket` get from the operating system, with any
of the calls that they make failing.

* `pipe`, `udpSocket`: the constructors; what is closed behind an exception is what a guard has.
* `Descriptors`: any number of pipes and sockets, which are made, closed and destroyed.
* `Exact`: every descriptor belongs to one object, or was closed once.
* `Guarded`: no call fails that nothing is guarded against.
* `descriptors_exact_iff`: **these are the runs that keep the descriptors.**
-/

namespace Arachnida.Spin

open Library Function

/-! ### The constructors -/

/-- A `Pipe` with its `fds_`, or a `UDPSocket` with its `fd_`, which is `-1` behind `close`. -/
inductive DescriptorOwner where
  | pipe (fds_ : ℕ × ℕ)
  | udpSocket (fd_ : Option ℕ)
  deriving DecidableEq, Repr

/-- The descriptors that its destructor closes, the last one first. -/
def DescriptorOwner.fds : DescriptorOwner → List ℕ
  | .pipe fds_ => [fds_.1, fds_.2]
  | .udpSocket fd_ => fd_.toList

/-- What the constructors throw; `SocketError` with its message, function and code. -/
inductive SetupError where
  | bad_alloc
  | bindFailure (error_code : ℤ)
  | listenFailure (error_code : ℤ)
  | socketError (message function : Bytes) (error_code : ℤ)
  deriving DecidableEq, Repr

/-- What a constructor makes or throws, and the descriptors behind it. -/
abbrev Constructed := Except SetupError DescriptorOwner × Resources

/-- The options that a pipe sets. -/
inductive PipeOption where
  | SO_RCVBUF | SO_SNDBUF | SO_KEEPALIVE
  deriving DecidableEq, Repr

/-- The calls of `Pipe::Pipe`, with the index in `fds_` where there are several. -/
inductive PipeCall where
  | socket (i : Fin 2) | bind | listen | getsockname | connect | accept
  | setsockopt (i : Fin 2) (option : PipeOption)
  deriving DecidableEq, Repr

/-- What connects the two ends, and what is thrown where it fails. -/
def connecting : List (PipeCall × (ℤ → SetupError)) :=
  [(.bind, .bindFailure), (.listen, .listenFailure),
    (.getsockname,
      .socketError (bytes "Failed to obtain address to connect to") (bytes "getsockname")),
    (.connect, .socketError (bytes "Failed to connect to listening socket") (bytes "connect")),
    (.accept, .socketError (bytes "Failed to accept connection") (bytes "accept"))]

/-- What is set for the two ends, with the value. -/
def pipeOptions : List (Fin 2 × PipeOption × ℤ) :=
  [(0, .SO_RCVBUF, 0), (0, .SO_SNDBUF, 0), (1, .SO_RCVBUF, 0), (1, .SO_SNDBUF, 0),
    (0, .SO_KEEPALIVE, 1), (1, .SO_KEEPALIVE, 1)]

/-- `Pipe::Pipe`, with the code of each call that fails. -/
def pipe (fails : PipeCall → Option ℤ) (r : Resources) : Constructed :=
  if (fails (.socket 0)).isSome then (.error .bad_alloc, r)
  else
    let listening := r.issued
    let r := r.issue
    -- `fd0_guard`
    if (fails (.socket 1)).isSome then (.error .bad_alloc, r.release [listening])
    else
      let writer := r.issued
      let r := r.issue
      -- `fd1_guard`, which is destroyed first
      match connecting.findSome? fun c => (fails c.1).map c.2 with
      | some e => (.error e, r.release [listening, writer])
      | none =>
          let reader := r.issued
          -- `fds_[0]` is closed and gets the reader, but `fd0_guard` keeps what it has
          let r := r.issue.release [listening]
          match pipeOptions.findSome? fun o => fails (.setsockopt o.1 o.2.1) with
          | some e =>
              (.error (.socketError (bytes "Failed to set socket option") (bytes "setsockopt") e),
                r.release [listening, writer])
          | none => (.ok (.pipe (reader, writer)), r)

/-- The calls of `UDPSocket::UDPSocket`. -/
inductive UDPCall where
  | socket | setsockopt | bind
  deriving DecidableEq, Repr

/-- `UDPSocket::UDPSocket`.  There is no guard, and no destructor of an object that has not been
constructed. -/
def udpSocket (port : UInt16) (fails : UDPCall → Option ℤ) (r : Resources) : Constructed :=
  let failed (message : String) (e : ℤ) : SetupError :=
    .socketError (bytes message) (bytes "UDPSocket constructor") e
  match fails .socket with
  | some e => (.error (failed "socket allocation failed" e), r)
  | none =>
      let fd_ := r.issued
      let r := r.issue
      if port ≠ 0 then
        match fails .setsockopt, fails .bind with
        | some e, _ => (.error (failed "setsockopt failed" e), r)
        | none, some e => (.error (failed "bind failed" e), r)
        | none, none => (.ok (.udpSocket fd_), r)
      else (.ok (.udpSocket fd_), r)

/-! ### Any number of objects -/

/-- The objects there are, and what became of the descriptors. -/
structure Descriptors where
  objects : ℕ → Option DescriptorOwner
  resources : Resources

namespace Descriptors

/-- Nothing. -/
def init : Descriptors := ⟨fun _ => none, .init⟩

/-- What can be done. -/
inductive Op where
  | pipe (x : ℕ) (fails : PipeCall → Option ℤ)
  | udpSocket (x : ℕ) (port : UInt16) (fails : UDPCall → Option ℤ)
  | close (x : ℕ)
  | destroy (x : ℕ)

/-- What a constructor has made, as the object `x`. -/
def put (w : Descriptors) (x : ℕ) : Constructed → Descriptors
  | (.error _, r) => { w with resources := r }
  | (.ok object, r) => ⟨update w.objects x (some object), r⟩

/-- The state behind an operation, if the object that it needs exists and the one it makes does
not. -/
def step (w : Descriptors) : Op → Option Descriptors
  | .pipe x fails =>
      if (w.objects x).isNone then some (w.put x (Spin.pipe fails w.resources)) else none
  | .udpSocket x port fails =>
      if (w.objects x).isNone then some (w.put x (Spin.udpSocket port fails w.resources)) else none
  | .close x =>
      match w.objects x with
      | some (.udpSocket fd_) =>
          some ⟨update w.objects x (some (.udpSocket none)), w.resources.release fd_.toList⟩
      | _ => none
  | .destroy x =>
      (w.objects x).map fun object =>
        ⟨update w.objects x none, w.resources.release object.fds⟩

/-- Every descriptor belongs to one object, or was closed once. -/
def Exact (w : Descriptors) : Prop := w.resources.Exact (heldBy DescriptorOwner.fds w.objects)

end Descriptors

/-- No option of a pipe fails that gets so far. -/
def PipeGuarded (fails : PipeCall → Option ℤ) : Prop :=
  (fails (.socket 0)).isSome ∨ (fails (.socket 1)).isSome ∨
    (∃ c ∈ connecting, (fails c.1).isSome) ∨ ∀ o ∈ pipeOptions, fails (.setsockopt o.1 o.2.1) = none

/-- Neither of the calls fails that a port takes. -/
def UDPGuarded (port : UInt16) (fails : UDPCall → Option ℤ) : Prop :=
  (fails .socket).isSome ∨ port = 0 ∨ (fails .setsockopt = none ∧ fails .bind = none)

/-- Nothing fails that no guard is there for. -/
def Guarded (_ : Descriptors) : Descriptors.Op → Prop
  | .pipe _ fails => PipeGuarded fails
  | .udpSocket _ port fails => UDPGuarded port fails
  | .close _ | .destroy _ => True

/-! ### What a constructor leaves -/

section Constructors

variable {held : ℕ → List ℕ} {x : ℕ} {r : Resources}

section Pipe

variable {fails : PipeCall → Option ℤ}

lemma pipe_delivers (h : Building held x r []) (hguarded : PipeGuarded fails) :
    Delivers DescriptorOwner.fds held x (pipe fails r) := by
  unfold pipe
  split_ifs with hlistening hwriter
  · exact h
  · exact h.issue.release
  · have hboth := h.issue.issue
    cases hconnecting : connecting.findSome? fun c => (fails c.1).map c.2 with
    | some e => exact hboth.releaseSome (List.Perm.swap _ _ _)
    | none =>
        -- of the three descriptors the listening one is closed
        have hends := hboth.issue.releaseSome (m := [r.issued]) (k := [r.issued + 2, r.issued + 1])
          (List.perm_append_singleton r.issued [r.issued + 2, r.issued + 1])
        have hconnected : ¬ ∃ c ∈ connecting, (fails c.1).isSome := by
          rintro ⟨c, hc, hfails⟩
          have hnone := List.findSome?_eq_none_iff.mp hconnecting c hc
          rw [Option.map_eq_none_iff.mp hnone] at hfails
          cases hfails
        have hset := (hguarded.resolve_left hlistening).resolve_left hwriter
        have hoptions : pipeOptions.findSome? (fun o => fails (.setsockopt o.1 o.2.1)) = none :=
          List.findSome?_eq_none_iff.mpr (hset.resolve_left hconnected)
        simp only [hoptions]
        exact hends

/-- **Without a guard** for it the listening descriptor is closed twice. -/
lemma pipe_repeats (hguarded : ¬ PipeGuarded fails) (r : Resources) : ∃ e,
    pipe fails r = (.error e, (r.issue.issue.issue.release [r.issued]).release
      [r.issued, r.issued + 1]) := by
  simp only [PipeGuarded, not_or, not_exists, not_and, not_forall] at hguarded
  obtain ⟨hlistening, hwriter, hconnected, o, ho, hfails⟩ := hguarded
  have hconnecting : connecting.findSome? (fun c => (fails c.1).map c.2) = none := by
    refine List.findSome?_eq_none_iff.mpr fun c hc => ?_
    rw [Option.not_isSome_iff_eq_none.mp (hconnected c hc), Option.map_none]
  have hoptions : (pipeOptions.findSome? fun o => fails (.setsockopt o.1 o.2.1)).isSome :=
    List.findSome?_isSome_iff.mpr ⟨o, ho, Option.isSome_iff_ne_none.mpr hfails⟩
  obtain ⟨e, he⟩ := Option.isSome_iff_exists.mp hoptions
  unfold pipe
  rw [if_neg hlistening, if_neg hwriter]
  simp only [hconnecting, he]
  exact ⟨_, rfl⟩

end Pipe

section UDPSocket

variable {port : UInt16} {fails : UDPCall → Option ℤ}

lemma udpSocket_delivers (h : Building held x r []) (hguarded : UDPGuarded port fails) :
    Delivers DescriptorOwner.fds held x (udpSocket port fails r) := by
  unfold udpSocket
  cases hsocket : fails .socket with
  | some e => exact h
  | none =>
      have hfd := h.issue
      rcases hguarded with hfails | rfl | ⟨hsetsockopt, hbind⟩
      · rw [hsocket] at hfails
        cases hfails
      · exact hfd
      · simp only [hsetsockopt, hbind]
        split <;> exact hfd

/-- **Without a guard** the descriptor of the socket is lost. -/
lemma udpSocket_loses (hguarded : ¬ UDPGuarded port fails) (r : Resources) : ∃ e,
    udpSocket port fails r = (.error e, r.issue) := by
  simp only [UDPGuarded, not_or, not_and] at hguarded
  obtain ⟨hsocket, hport, hcalls⟩ := hguarded
  unfold udpSocket
  simp only [Option.not_isSome_iff_eq_none.mp hsocket, ne_eq, hport, not_false_eq_true, if_true]
  cases hsetsockopt : fails .setsockopt with
  | some e => exact ⟨_, rfl⟩
  | none =>
      obtain ⟨e, he⟩ := Option.ne_none_iff_exists'.mp (hcalls hsetsockopt)
      rw [he]
      exact ⟨_, rfl⟩

end UDPSocket

end Constructors

/-! ### Runs -/

namespace Descriptors

variable {w w' : Descriptors} {x : ℕ} {op : Op}

/-- What a constructor leaves is kept. -/
lemma exact_put {made : Constructed} (hx : w.objects x = none)
    (hmade : Delivers DescriptorOwner.fds (heldBy DescriptorOwner.fds w.objects) x made) :
    (w.put x made).Exact := by
  obtain ⟨result, r⟩ := made
  cases result with
  | error e => exact (building_iff hx).mp hmade
  | ok object => exact building_update.mp hmade

/-- **An operation keeps the descriptors** if and only if it is guarded. -/
lemma exact_step_iff (h : w.Exact) (hs : w.step op = some w') : w'.Exact ↔ Guarded w op := by
  cases op with
  | pipe x fails =>
      simp only [step, Option.ite_none_right_eq_some, Option.isNone_iff_eq_none] at hs
      obtain ⟨hx, hw⟩ := hs
      obtain rfl := Option.some.inj hw
      refine ⟨fun hexact => ?_, fun hguarded =>
        exact_put hx (pipe_delivers ((building_iff hx).mpr h) hguarded)⟩
      by_contra hguarded
      obtain ⟨e, he⟩ := pipe_repeats hguarded w.resources
      rw [he] at hexact
      have honce := hexact.once
      simp [put, Resources.release] at honce
  | udpSocket x port fails =>
      simp only [step, Option.ite_none_right_eq_some, Option.isNone_iff_eq_none] at hs
      obtain ⟨hx, hw⟩ := hs
      obtain rfl := Option.some.inj hw
      refine ⟨fun hexact => ?_, fun hguarded =>
        exact_put hx (udpSocket_delivers ((building_iff hx).mpr h) hguarded)⟩
      by_contra hguarded
      obtain ⟨e, he⟩ := udpSocket_loses hguarded w.resources
      rw [he] at hexact
      exact h.not_issue hexact
  | close x =>
      refine iff_of_true ?_ trivial
      simp only [step] at hs
      split at hs
      · next fd_ hx =>
          obtain rfl := Option.some.inj hs
          exact exact_of_released (f := DescriptorOwner.fds) h hx rfl
      · cases hs
  | destroy x =>
      refine iff_of_true ?_ trivial
      obtain ⟨object, hx, rfl⟩ := Option.map_eq_some_iff.mp hs
      exact exact_of_released h hx rfl

/-- **The descriptors are kept**, each of them by one object or closed once, in every state of a run
if and only if no call fails in it that no guard is there for: no `setsockopt` of a pipe, and no
`setsockopt` or `bind` of a socket. -/
theorem descriptors_exact_iff (ops : List Op) :
    Always (stepOf step) Exact init ops ↔ EveryStep (stepOf step) Guarded init ops :=
  always_iff_everyStep (N := fun _ _ => True) (fun _ _ _ h _ hs => exact_step_iff h hs)
    Resources.Exact.init (everyStep_of_forall fun _ _ _ => trivial)

end Descriptors

end Arachnida.Spin
