import Arachnida.Spin.HTTPDataHandler

/-!
`Details::Request::getHeaderValue`, which looks up a header field by its name.

* `headerValues`: the values that a name has in a list of headers.
* `Combined`: what the values of a repeated header are for: one list, with commas between them,
  which can be taken apart again.
* `getHeaderValue_eq`: the values are put one behind the other.
* `combined_iff`: **a header is combined exactly if it is not repeated.**
-/

namespace Arachnida.Spin

open Library Acari

/-! ### Lists with separators -/

section Separators

variable {α : Type*}

/-- The length of a list with separators. -/
lemma length_intercalate (sep : List α) (l : List (List α)) :
    (sep.intercalate l).length = l.flatten.length + (l.length - 1) * sep.length := by
  induction l with
  | nil => simp [List.intercalate_nil]
  | cons a l ih =>
      cases l with
      | nil => simp [List.intercalate_singleton]
      | cons b l =>
          rw [List.intercalate_cons_cons, List.length_append, List.length_append, ih]
          simp only [List.flatten_cons, List.length_append, List.length_cons,
            Nat.add_sub_cancel]
          ring

/-- Separators are missed as soon as there are two parts. -/
lemma flatten_eq_intercalate_iff {sep : List α} (hsep : sep ≠ []) (l : List (List α)) :
    l.flatten = sep.intercalate l ↔ l.length ≤ 1 := by
  constructor
  · intro h
    have hlength := congrArg List.length h
    have hpos := List.length_pos_iff.mpr hsep
    rw [length_intercalate] at hlength
    have hzero : (l.length - 1) * sep.length = 0 := by omega
    rcases Nat.mul_eq_zero.mp hzero with hl | hs
    · omega
    · omega
  · intro h
    match l, h with
    | [], _ => rfl
    | [a], _ => simp [List.intercalate_singleton]

end Separators

/-! ### The look-up -/

/-- The variables of the loop of `getHeaderValue`. -/
structure LookupState where
  retval : Bytes
  found_one : Bool

/-- One header. -/
def lookupPass (header_name : Bytes) (s : LookupState) (curr : Header) : LookupState :=
  if curr.name_ = header_name then
    { s with retval := s.retval ++ ((if s.found_one then bytes "," else []) ++ curr.value_) }
  else s

/-- `Request::getHeaderValue`. -/
def Request.getHeaderValue (request : Request) (header_name : Bytes) : Bytes :=
  (request.header_fields_.foldl (lookupPass header_name) ⟨[], false⟩).retval

/-- The values of all headers with a name. -/
def headerValues (headers : List Header) (header_name : Bytes) : List Bytes :=
  (headers.filter (·.name_ = header_name)).map (·.value_)

/-- The values of a name are one list with commas between them, and are found in it again. -/
structure Combined (request : Request) (header_name : Bytes) : Prop where
  joined : request.getHeaderValue header_name
    = (bytes ",").intercalate (headerValues request.header_fields_ header_name)
  recovered : headerValues request.header_fields_ header_name ≠ [] →
    (∀ value ∈ headerValues request.header_fields_ header_name, 44 ∉ value) →
    (request.getHeaderValue header_name).splitOn 44
      = headerValues request.header_fields_ header_name

/-- The loop: `found_one` stays what it is, and no comma is ever put in. -/
lemma lookupPass_foldl (header_name retval : Bytes) (headers : List Header) :
    headers.foldl (lookupPass header_name) ⟨retval, false⟩
      = ⟨retval ++ (headerValues headers header_name).flatten, false⟩ := by
  induction headers generalizing retval with
  | nil => simp [headerValues]
  | cons header headers ih =>
      rw [List.foldl_cons, lookupPass, headerValues, List.filter_cons]
      by_cases hname : header.name_ = header_name
      · have hmem : decide (header.name_ = header_name) = true := decide_eq_true hname
        rw [if_pos hname, if_pos hmem, List.map_cons, List.flatten_cons, ih]
        simp [headerValues]
      · have hmem : ¬ decide (header.name_ = header_name) = true := by simp [hname]
        rw [if_neg hname, if_neg hmem, ih]
        rfl

/-- The values are put one behind the other. -/
theorem getHeaderValue_eq (request : Request) (header_name : Bytes) :
    request.getHeaderValue header_name
      = (headerValues request.header_fields_ header_name).flatten := by
  rw [Request.getHeaderValue, lookupPass_foldl, List.nil_append]

/-- **A header is combined exactly if it is not repeated**: the values of a name are looked up as
one list with commas if and only if at most one header has the name. -/
theorem combined_iff (request : Request) (header_name : Bytes) :
    Combined request header_name ↔
      (request.header_fields_.filter (·.name_ = header_name)).length ≤ 1 := by
  have hcomma : bytes "," = [44] := by decide
  have hlength : (headerValues request.header_fields_ header_name).length
      = (request.header_fields_.filter (·.name_ = header_name)).length := List.length_map ..
  have hsep : bytes "," ≠ [] := by decide
  have hjoined := flatten_eq_intercalate_iff hsep
    (headerValues request.header_fields_ header_name)
  rw [← getHeaderValue_eq, hlength] at hjoined
  constructor
  · exact fun h => hjoined.mp h.joined
  · intro h
    refine ⟨hjoined.mpr h, fun hne hcommas => ?_⟩
    rw [hjoined.mpr h, hcomma]
    exact List.splitOn_intercalate 44 hcommas hne

/-- A request with the same header twice. -/
def acceptsTwice : Request :=
  ⟨bytes "GET", bytes "/", bytes "HTTP/1.1", [⟨bytes "Accept", bytes "text/html"⟩,
    ⟨bytes "Accept", bytes "image/png"⟩], []⟩

/-- **Two values are stuck together**: a request that the data handler hands over, in which
`Accept` is looked up as `text/htmlimage/png`. -/
theorem values_stuck :
    (onDataReady none (bytes
        "GET / HTTP/1.1\r\nAccept: text/html\r\nAccept: image/png\r\n\r\n")).handled
      = [acceptsTwice] ∧
    acceptsTwice.getHeaderValue (bytes "Accept") = bytes "text/htmlimage/png" ∧
    ¬ Combined acceptsTwice (bytes "Accept") := by
  refine ⟨by decide +kernel, by decide +kernel, fun h => ?_⟩
  have hjoined := h.joined
  revert hjoined
  decide +kernel

end Arachnida.Spin
