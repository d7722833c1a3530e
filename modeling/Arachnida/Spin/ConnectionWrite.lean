import Arachnida.Spin.ConnectionRead

/-!
Writing to a connection, `Spin::Connection::write`, as the code computes it from the result of its
BIO.

* `WriteResult`: what one write of the BIO returns.
* `write`: a call.
* `write_returned`: how a call returns.
* `size_eq_accepted_iff`: **a call that returns reports what the BIO has accepted if and only if the
  result is not negative**: `write` takes a negative one for a number of bytes.
-/

namespace Arachnida.Spin

open Library Damon

/-- What `BIO::write` of `n` bytes comes to: its result and the flags. -/
structure WriteResult (n : ℕ) where
  value : ℤ
  shouldRetry : Bool
  shouldRead : Bool
  shouldWrite : Bool
  value_le : value ≤ n
  le_value : -2 ^ 31 ≤ value

/-- The exceptions: what the code throws, and the failing assertion. -/
inductive WriteException where
  | methodNotImplemented
  | connectionClosed
  | assertion
  deriving DecidableEq, Repr

/-- How a call ends: with an exception, or with the number of bytes and the reason. -/
inductive WriteOutcome where
  | threw (x : WriteException)
  | returned (written reason : ℕ)
  deriving DecidableEq, Repr

variable {n : ℕ}

/-- The number of bytes that the BIO has accepted: none where the result is negative. -/
def WriteResult.accepted (r : WriteResult n) : ℕ := r.value.toNat

/-- The reason of a write that is short. -/
def WriteResult.reason (r : WriteResult n) : ℕ :=
  Reason.no_error__.value ||| Reason.should_retry__.value |||
    (if r.shouldRead then Reason.should_read__.value else 0) |||
    (if r.shouldWrite then Reason.should_write__.value else 0)

/-- `Connection::write` on a connection that has its BIO, with the result of the BIO, which is not
asked where there are no data. -/
def write (data : Bytes) (r : WriteResult data.length) : WriteOutcome :=
  if intMax ≤ data.length then .threw .assertion
  else if data ≠ [] then
    if r.value = -2 then .threw .methodNotImplemented
    else if r.value < data.length then
      if r.shouldRetry = false then .threw .connectionClosed
      else .returned (addInt 0 r.value) r.reason
    else .returned (addInt 0 r.value) Reason.no_error__.value
  else .returned 0 Reason.no_error__.value

/-- The BIO has been asked and has not taken all, and says that the write should be tried again. -/
def WriteResult.Unfinished (r : WriteResult n) : Prop :=
  0 < n ∧ n < intMax ∧ r.value ≠ -2 ∧ r.value < n ∧ r.shouldRetry = true

instance (r : WriteResult n) : Decidable r.Unfinished :=
  inferInstanceAs (Decidable (_ ∧ _ ∧ _ ∧ _ ∧ _))

/-! ### How a call returns -/

/-- A count as a `std::size_t` is itself. -/
lemma addInt_zero_of_nonneg {value : ℤ} (h : 0 ≤ value) (hle : value < 2 ^ 64) :
    addInt 0 value = value.toNat := by
  rw [addInt, Int.natCast_zero, zero_add, Int.emod_eq_of_lt h hle]

/-- A negative `int` is not nothing as a `std::size_t`. -/
lemma addInt_zero_ne_of_neg {value : ℤ} (h : value < 0) (hle : -2 ^ 31 ≤ value) :
    addInt 0 value ≠ value.toNat := by
  rw [addInt, Int.natCast_zero, zero_add, Int.toNat_of_nonpos h.le]
  omega

/-- **How a call returns**: there were no data, the BIO has taken all, or it asks for the rest. -/
lemma write_returned {data : Bytes} {r : WriteResult data.length} {size reason : ℕ}
    (h : write data r = .returned size reason) :
    (data = [] ∧ size = 0) ∨ (data.length < intMax ∧ size = addInt 0 r.value ∧
      (r.value = data.length ∨ r.Unfinished)) := by
  rw [write] at h
  split_ifs at h with hassert hdata hmissing hshort hclosed
  · obtain ⟨rfl, -⟩ := WriteOutcome.returned.inj h
    have hretry : r.shouldRetry = true := by simpa using hclosed
    exact .inr ⟨not_le.mp hassert, rfl, .inr ⟨List.length_pos_of_ne_nil hdata,
      not_le.mp hassert, hmissing, hshort, hretry⟩⟩
  · obtain ⟨rfl, -⟩ := WriteOutcome.returned.inj h
    exact .inr ⟨not_le.mp hassert, rfl, .inl (le_antisymm r.value_le (not_lt.mp hshort))⟩
  · obtain ⟨rfl, -⟩ := WriteOutcome.returned.inj h
    exact .inl ⟨not_not.mp hdata, rfl⟩

/-- A call whose BIO asks for the rest returns. -/
lemma write_of_unfinished {data : Bytes} {r : WriteResult data.length} (h : r.Unfinished) :
    write data r = .returned (addInt 0 r.value) r.reason := by
  obtain ⟨hpos, hassert, hmissing, hshort, hretry⟩ := h
  rw [write, if_neg (not_le.mpr hassert), if_pos (List.ne_nil_of_length_pos hpos), if_neg hmissing,
    if_pos hshort, if_neg (by simp [hretry])]

/-- A call whose BIO takes everything returns. -/
lemma write_of_full {data : Bytes} {r : WriteResult data.length} (hdata : data ≠ [])
    (hsize : data.length < intMax) (h : r.value = data.length) :
    write data r = .returned (addInt 0 data.length) Reason.no_error__.value := by
  rw [write, if_neg (not_le.mpr hsize), if_pos hdata, if_neg (by omega), if_neg h.not_lt, h]

/-- **What a call reports is what the BIO has accepted if and only if the BIO does not ask for
another try with a negative result.** -/
lemma size_eq_accepted_iff (data : Bytes) (r : WriteResult data.length) :
    (∀ size reason, write data r = .returned size reason → size = r.accepted) ↔
      ¬ (r.Unfinished ∧ r.value < 0) := by
  constructor
  · rintro h ⟨hunfinished, hneg⟩
    exact addInt_zero_ne_of_neg hneg r.le_value (h _ _ (write_of_unfinished hunfinished))
  · intro h size reason hreturned
    have hle := r.value_le
    obtain ⟨rfl, rfl⟩ | ⟨hsize, rfl, hcases⟩ := write_returned hreturned
    · have hnone : r.value ≤ 0 := by simpa using hle
      exact (Int.toNat_of_nonpos hnone).symm
    · have hnonneg : 0 ≤ r.value := by
        rcases hcases with hfull | hunfinished
        · omega
        · exact not_lt.mp fun hneg => h ⟨hunfinished, hneg⟩
      rw [intMax] at hsize
      exact addInt_zero_of_nonneg hnonneg (by omega)

end Arachnida.Spin
