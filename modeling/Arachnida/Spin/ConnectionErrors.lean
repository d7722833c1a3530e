import Arachnida.Library.Bytes
import Arachnida.Library.CachedBuffer

/-!
`BindFailure` and `ListenFailure` (`lib/Spin/Exceptions/Connection`): exceptions with the code of an
error, of which `what` makes a text.

* `Errno`, `Failure`: the codes that the two know, with their texts.
* `Failure.error_text`: the `switch`, whose cases have no `break`.
* `Failure.rendered`: the text in the memory that `new` returns, as the two `std::copy` and the NUL
  leave it.
* `Failure.memory`: such exceptions as objects with a buffer each.
* `code_never_told`: **what is read does not depend on the code**, in every program, and the
  assertion in `what` never holds.
-/

namespace Arachnida.Spin.Exceptions

open Library

/-- The codes of `errno.h` that have texts. -/
inductive Errno where
  | EADDRINUSE | EADDRNOTAVAIL | EAFNOSUPPORT | EBADF | EINVAL | ENOTSOCK | EOPNOTSUPP | EACCES
  | EISCONN | ELOOP | ENAMETOOLONG | ENOBUFS | EDESTADDRREQ
  deriving DecidableEq, Repr

/-- What the two classes differ in: the text that `std::runtime_error` gets, `error_text__`, and the
cases of the `switch`. -/
structure Failure where
  message : Bytes
  error_text__ : Bytes
  cases : List (Errno × Bytes)
  deriving DecidableEq, Repr

/-- `BindFailure`. -/
def BindFailure : Failure where
  message := bytes "Bind failure."
  error_text__ := bytes "Bind failure: "
  cases := [
    (.EADDRINUSE, bytes "The specified address is already in use."),
    (.EADDRNOTAVAIL, bytes "The specified address is not available from the local machine."),
    (.EAFNOSUPPORT, bytes ("The specified address is not a valid address for the address family " ++
      "of the specified socket.")),
    (.EBADF, bytes "The socket argument is not a valid file descriptor."),
    (.EINVAL, bytes ("The socket is already bound to an address, and the protocol does not " ++
      "support binding to a new address; or the socket has been shut down.")),
    (.ENOTSOCK, bytes "The socket argument does not refer to a socket."),
    (.EOPNOTSUPP,
      bytes "The socket type of the specified socket does not support binding to an address."),
    (.EACCES, bytes ("The specified address is protected and the current user does not have " ++
      "permission to bind to it.")),
    (.EISCONN, bytes "The socket is already connected."),
    (.ELOOP, bytes ("More than \x7bSYMLOOP_MAX\x7d symbolic links were encountered during " ++
      "resolution of the pathname in address.")),
    (.ENAMETOOLONG, bytes ("Pathname resolution of a symbolic link produced an intermediate " ++
      "result whose length exceeds \x7bPATH_MAX\x7d.")),
    (.ENOBUFS, bytes "Insufficient resources were available to complete the call.")]

/-- `ListenFailure`. -/
def ListenFailure : Failure where
  message := bytes "Listen failure."
  error_text__ := bytes "Listen failure: "
  cases := [
    (.EBADF, bytes "The socket argument is not a valid file descriptor."),
    (.EDESTADDRREQ, bytes ("The socket is not bound to a local address, and the protocol does " ++
      "not support listening on an unbound socket.")),
    (.EINVAL, bytes "The socket is either already connected or has been shut down."),
    (.ENOTSOCK, bytes "The socket argument does not refer to a socket."),
    (.EOPNOTSUPP, bytes "The socket protocol does not support listen()."),
    (.EACCES, bytes "The calling process does not have the appropriate privileges."),
    (.ENOBUFS, bytes "Insufficient resources are available in the system to complete the call.")]

namespace Failure

variable (k : Failure) (value : Errno → ℤ)

/-- The `switch`, with the values of the codes: from the case of the code, if there is one, through
all that are behind it to the default. -/
def error_text (code : ℤ) : Bytes :=
  let texts := (k.cases.dropWhile fun c => value c.1 ≠ code).map Prod.snd
  (texts ++ [bytes "Unknown error."]).foldl (fun _ text => text) []

/-- What `what` leaves in the memory: both texts, the last byte as it was, and a NUL where the first
`std::copy` has stopped. -/
def rendered (code : ℤ) (raw : ℕ → Byte) : Bytes :=
  let error_text := k.error_text value code
  let size := k.error_text__.length + error_text.length
  (k.error_text__ ++ error_text ++ [raw size]).set k.error_text__.length 0

/-- The assertion in `what`, for what the first `std::copy` has returned. -/
def Asserted (code : ℤ) : Prop :=
  k.error_text__.length = k.error_text__.length + (k.error_text value code).length

/-- Exceptions with their codes, the buffers that `what` makes of them, and the memory that these
begin with. -/
def memory : BufferKind ℤ Bytes Unit (ℕ → Byte) where
  copied _ error_code_ := (error_code_, error_code_)
  swapped error_code_ error_code_' := (error_code_', error_code_)
  rendered := k.rendered value

end Failure

/-- A C string. -/
def cString (buffer : Bytes) : Bytes := buffer.takeWhile (· ≠ 0)

/-- What `what` returns for an exception on the heap, with the memory that `new` returns, if it does
not throw, as a C string. -/
def told (k : Failure) (value : Errno → ℤ) (h : Heap ℤ Bytes) (raw : Option (ℕ → Byte))
    (e : ℤ × Option ℕ) : Option Bytes :=
  match e.2, raw with
  | some what_, _ => (h.buffers what_).map cString
  | none, none => some k.message
  | none, some raw => some (cString (k.rendered value e.1 raw))

variable {k : Failure} {value : Errno → ℤ} {ops : List (BufferOp ℤ Unit (ℕ → Byte))}
  {h : Heap ℤ Bytes}

/-- **Every code is run down to the default.** -/
lemma error_text_eq (k : Failure) (value : Errno → ℤ) (code : ℤ) :
    k.error_text value code = bytes "Unknown error." := by
  rw [Failure.error_text, List.foldl_append]
  rfl

/-- The NUL is where the second text begins. -/
lemma cString_rendered (hk : 0 ∉ k.error_text__) (code : ℤ) (raw : ℕ → Byte) :
    cString (k.rendered value code raw) = k.error_text__ := by
  have hset : k.rendered value code raw = k.error_text__ ++
      (bytes "Unknown error." ++ [raw (k.error_text__.length + 14)]).set 0 0 := by
    rw [Failure.rendered, error_text_eq, List.append_assoc,
      List.set_append_right _ _ (le_refl _), Nat.sub_self]
    rfl
  have hbefore : ∀ c ∈ k.error_text__, (decide (c ≠ 0)) = true := by
    intro c hc
    exact decide_eq_true fun hzero => hk (hzero ▸ hc)
  rw [cString, hset, List.takeWhile_append_of_pos hbefore]
  exact List.append_nil _

/-- **No code is told**: in every program with the exceptions of one of the two classes, `what`
returns the same text for all of them, that of `std::runtime_error` where there is no memory and
else what stands in front of the text for the code; and it never meets its assertion. -/
theorem code_never_told (hk : k ∈ [BindFailure, ListenFailure])
    (hrun : RunTo (stepOf (heapStep (k.memory value))) .init ops h) :
    (∀ code, ¬ k.Asserted value code) ∧ ∀ x e raw, h.objects x = some e →
      told k value h raw e
        = some (if e.2 = none ∧ raw = none then k.message else k.error_text__) := by
  have hzero : 0 ∉ k.error_text__ := by
    simp only [List.mem_cons, List.not_mem_nil, or_false] at hk
    rcases hk with rfl | rfl
    · decide
    · decide
  refine ⟨fun code hasserted => ?_, fun x e raw hx => ?_⟩
  · rw [Failure.Asserted, error_text_eq] at hasserted
    exact absurd (Nat.left_eq_add.mp hasserted) (by decide)
  · obtain ⟨code, _ | what_⟩ := e
    · cases raw with
      | none => rfl
      | some raw => simp [told, cString_rendered hzero]
    · obtain ⟨b, hb, htext⟩ := buffer_of_run (P := fun b => cString b = k.error_text__)
        (fun code raw => cString_rendered hzero code raw) hrun hx
      simp [told, hb, htext]

/-- The values of Linux. -/
def linux : Errno → ℤ
  | .EADDRINUSE => 98
  | .EADDRNOTAVAIL => 99
  | .EAFNOSUPPORT => 97
  | .EBADF => 9
  | .EINVAL => 22
  | .ENOTSOCK => 88
  | .EOPNOTSUPP => 95
  | .EACCES => 13
  | .EISCONN => 106
  | .ELOOP => 40
  | .ENAMETOOLONG => 36
  | .ENOBUFS => 105
  | .EDESTADDRREQ => 89

/-- A port that is taken: the exception is asked for its text, and copied. -/
def portTaken : List (BufferOp ℤ Unit (ℕ → Byte)) :=
  [.construct 0 98, .what 0 (some fun _ => 7), .copy 1 () 0]

theorem code_never_told_bind : ∃ h : Heap ℤ Bytes,
    RunTo (stepOf (heapStep (BindFailure.memory linux))) .init portTaken h ∧
    told BindFailure linux h none (98, some 0) = some (bytes "Bind failure: ") := by
  have hrun : ∃ h : Heap ℤ Bytes,
      RunTo (stepOf (heapStep (BindFailure.memory linux))) .init portTaken h ∧
      h.objects 1 = some (98, some 0) := ⟨_, ⟨_, rfl, _, rfl, _, rfl, rfl⟩, rfl⟩
  obtain ⟨h, hrun, hx⟩ := hrun
  exact ⟨h, hrun, (code_never_told List.mem_cons_self hrun).2 1 _ none hx⟩

end Arachnida.Spin.Exceptions
