import Arachnida.Spin.HTTPDataHandler

/-!
`HTTPDataHandler::onDataReady` with the connection attribute that the code has: a `boost::any`,
which knows the type of what it holds only when it is asked.

* `Element`, `Slot`: a tuple by the types of its elements, as each of the three `make_tuple` writes
  it; `anyCast`: what the `any_cast` reads.
* `extractPass`, `slotPass`: the two loops of the function that read and write the attribute, with
  an exception of the request handler where there is one.
* `slotPass_slotState`, `onDataReadySlot_eq`: **with a handler that does not throw, a call does what
  `onDataReady` does.**
* `HandlerState.Passed`, `HandlerState.SlotPassed`: all that a pass can do.
* `KeptSlot`: the slots that calls leave; `keptSlot_storedSlot`: **every call resumes what the
  others have left.**
-/

namespace Arachnida.Spin

open Library Acari

/-- An element of a tuple: a `boost::shared_ptr< Details::Request >`, a `std::vector< char >` or a
`bool`. -/
inductive Element where
  | request (request : Option Request)
  | buffer (buffer : Bytes)
  | flag (flag : Bool)
  deriving DecidableEq, Repr

/-- A `boost::any`: nothing, or a tuple of such elements. -/
abbrev Slot := Option (List Element)

/-- `boost::any_cast` to the type of tuple that the function names. -/
def anyCast : List Element → Option Saved
  | [.request request, .buffer buffer, .flag flag] => some ⟨request, buffer, flag⟩
  | _ => none

/-- What ends a call: an exception of the parser, `bad_any_cast`, or what the request handler
throws. -/
inductive Fault where
  | parsing (failure : Failure)
  | badAnyCast
  | handler
  deriving DecidableEq, Repr

/-! ### Getting the request -/

/-- The variables of the first `do … while`. -/
structure ExtractState where
  connection_attribute : Slot
  buffer : Bytes
  end_of_headers_found : Bool
  deriving DecidableEq, Repr

/-- One pass of it: the request, the position and the flag that it is left with, or the fault and
what the attribute holds then. -/
def extractPass (s : ExtractState) : ExtractState ⊕ Except (Slot × Fault) Saved :=
  match s.connection_attribute with
  | none =>
      match extractRequest s.buffer with
      | .error f => .inr (.error (none, .parsing f))
      | .ok (request, where_) =>
          -- the `break`
          if request.isNone && where_ = s.buffer then
            .inr (.ok ⟨request, where_, s.end_of_headers_found⟩)
          else if request.isSome || where_ = [] then
            .inr (.ok ⟨request, where_, s.end_of_headers_found⟩)
          else .inl s
  | some any =>
      match anyCast any with
      | none => .inr (.error (some any, .badAnyCast))
      | some saved =>
          let buffer := saved.buffer ++ s.buffer
          -- the attribute is cleared
          if saved.request.isSome || buffer = [] then
            .inr (.ok ⟨saved.request, buffer, saved.end_of_headers_found⟩)
          else .inl ⟨none, buffer, saved.end_of_headers_found⟩

/-- A pass that parses the first line is the last. -/
lemma extractPass_none (buffer : Bytes) (found : Bool) : extractPass ⟨none, buffer, found⟩
    = .inr (match extractRequest buffer with
      | .error f => .error (none, .parsing f)
      | .ok (request, where_) => .ok ⟨request, where_, found⟩) := by
  have hstable := extractRequestHeader_append Request.new supportedMethods buffer
  rw [Stable, ← extractRequest] at hstable
  rw [extractPass]
  cases h : extractRequest buffer with
  | error f => rfl
  | ok answer =>
      obtain ⟨_ | request, where_⟩ := answer
      · rw [h] at hstable
        obtain rfl : where_ = buffer := hstable
        simp
      · simp

/-- A pass that goes on has emptied the attribute. -/
lemma extractPass_decreasing {s s' : ExtractState} (h : extractPass s = .inl s') :
    (if s'.connection_attribute.isSome then 1 else 0)
      < if s.connection_attribute.isSome then 1 else 0 := by
  obtain ⟨_ | any, buffer, found⟩ := s
  · rw [extractPass_none] at h
    cases h
  · simp only [extractPass] at h
    split at h
    · cases h
    · split at h
      · cases h
      · obtain rfl := Sum.inl.inj h
        exact Nat.zero_lt_one

/-- The first `do … while`. -/
def extractLoop : MeasuredLoop ExtractState (Except (Slot × Fault) Saved) where
  pass := extractPass
  measure := fun s => if s.connection_attribute.isSome then 1 else 0
  decreasing := extractPass_decreasing

/-! ### The call -/

/-- The variables at the label `after_connection_attributes_are_got`. -/
structure SlotState where
  connection_attribute : Slot
  buffer : Bytes
  end_of_headers_found : Bool
  handled : List Request
  deriving DecidableEq, Repr

/-- How a call ends. -/
structure SlotOutcome where
  handled : List Request
  connection_attribute : Slot
  thrown : Option Fault
  deriving DecidableEq, Repr

/-- From the label to the `goto` or to the end of the call. Whether the handler throws may depend
on all the requests that were handed over; the attribute is empty while it is called. -/
def slotPass (refuses : List Request → Bool) (s : SlotState) : SlotState ⊕ SlotOutcome :=
  match extractLoop.run ⟨s.connection_attribute, s.buffer, s.end_of_headers_found⟩ with
  | .error (left, fault) => .inr ⟨s.handled, left, some fault⟩
  | .ok got =>
      match readHeaders got with
      | .error f => .inr ⟨s.handled, none, some (.parsing f)⟩
      | .ok read =>
          if read.end_of_headers_found then
            match read.request with
            | none => .inr ⟨s.handled, none, some (.parsing .nullPointer)⟩
            | some request =>
                match findBody request.header_fields_ read.buffer with
                | .error f => .inr ⟨s.handled, none, some (.parsing f)⟩
                | .ok none =>
                    .inr ⟨s.handled, some [.request (some request), .buffer read.buffer,
                      .flag read.end_of_headers_found], none⟩
                | .ok (some (body, where_)) =>
                    let handled := s.handled ++ [{ request with body_ := request.body_ ++ body }]
                    if refuses handled then .inr ⟨handled, none, some .handler⟩
                    else if where_ ≠ [] then
                      .inl ⟨some [.request none, .buffer where_, .flag false], [], true, handled⟩
                    else .inr ⟨handled, none, none⟩
          else
            .inr ⟨s.handled, some [.request read.request, .buffer read.buffer,
              .flag read.end_of_headers_found], none⟩

/-! ### Tuples of the right type -/

/-- The tuple as it is stored. -/
def Saved.elements (saved : Saved) : List Element :=
  [.request saved.request, .buffer saved.buffer, .flag saved.end_of_headers_found]

/-- The cast succeeds exactly for such tuples. -/
lemma anyCast_eq_some {any : List Element} {saved : Saved} :
    anyCast any = some saved ↔ any = saved.elements := by
  constructor
  · intro h
    unfold anyCast at h
    split at h
    · obtain rfl := Option.some.inj h
      rfl
    · cases h
  · rintro rfl
    rfl

/-- The variables of `onDataReady`, with the attribute as a slot. -/
def HandlerState.slotState (s : HandlerState) : SlotState :=
  ⟨s.connection_attribute.map Saved.elements, s.buffer, s.end_of_headers_found, s.handled⟩

/-- The end of a call of `onDataReady`, with the attribute as a slot. -/
def Outcome.slotOutcome (o : Outcome) : SlotOutcome :=
  ⟨o.handled, o.connection_attribute.map Saved.elements, o.thrown.map .parsing⟩

/-- **Getting the request**, in the one pass or the two that it takes. -/
lemma extractLoop_slotState (s : HandlerState) :
    extractLoop.run ⟨s.slotState.connection_attribute, s.slotState.buffer,
      s.slotState.end_of_headers_found⟩ = s.getRequest.mapError fun f => (none, .parsing f) := by
  have hnew : ∀ (b : Bytes) (found : Bool) (handled : List Request),
      extractLoop.run ⟨none, b, found⟩
        = (HandlerState.newRequest ⟨none, b, found, handled⟩).mapError
            fun f => (none, .parsing f) := by
    intro b found handled
    have hpass : extractLoop.pass ⟨none, b, found⟩ = _ := extractPass_none b found
    rw [extractLoop.run_of_inr hpass, HandlerState.newRequest]
    cases extractRequest b with
    | error f => rfl
    | ok answer => rfl
  obtain ⟨_ | ⟨request, b', found'⟩, b, found, handled⟩ := s
  · exact hnew b found handled
  · have hpass : extractLoop.pass ⟨some (Saved.elements ⟨request, b', found'⟩), b, found⟩
        = if request.isSome || b' ++ b = [] then .inr (.ok ⟨request, b' ++ b, found'⟩)
          else .inl ⟨none, b' ++ b, found'⟩ := rfl
    rw [HandlerState.slotState, Option.map_some, extractLoop.run_eq, hpass,
      HandlerState.getRequest]
    cases request with
    | some request => rfl
    | none =>
        by_cases hb : b' ++ b = []
        · simp [hb, Except.mapError]
        · simp [hb, hnew _ _ handled]

/-! ### The loop of the call -/

variable (refuses : List Request → Bool)

/-- A pass of `onDataReady`, and a handler that may throw where a request is handed over. -/
def orRefused (s : HandlerState) : HandlerState ⊕ Outcome → SlotState ⊕ SlotOutcome
  | .inl s' =>
      if refuses s'.handled then .inr ⟨s'.handled, none, some .handler⟩ else .inl s'.slotState
  | .inr o =>
      if o.handled ≠ s.handled ∧ refuses o.handled then .inr ⟨o.handled, none, some .handler⟩
      else .inr o.slotOutcome

/-- **A pass with the slot is a pass without it**, the exceptions of the handler apart. -/
theorem slotPass_slotState (s : HandlerState) :
    slotPass refuses s.slotState = orRefused refuses s (onDataReadyPass s) := by
  -- without a request handed over, the ends of the two calls correspond
  have hsame : ∀ (a : Option Saved) (x : Option Failure),
      orRefused refuses s (.inr ⟨s.handled, a, x⟩)
        = .inr ⟨s.handled, a.map Saved.elements, x.map .parsing⟩ :=
    fun a x => if_neg fun h => h.1 rfl
  have hhandled : s.slotState.handled = s.handled := rfl
  rw [slotPass, extractLoop_slotState, onDataReadyPass, hhandled]
  cases s.getRequest with
  | error f => exact (hsame none (some f)).symm
  | ok got =>
      simp only [Except.mapError]
      cases readHeaders got with
      | error f => exact (hsame none (some f)).symm
      | ok read =>
          obtain ⟨request, b, found⟩ := read
          cases found with
          | false => exact (hsame (some ⟨request, b, false⟩) none).symm
          | true =>
              cases request with
              | none => exact (hsame none (some .nullPointer)).symm
              | some request =>
                  simp only [if_true]
                  cases findBody request.header_fields_ b with
                  | error f => exact (hsame none (some f)).symm
                  | ok found =>
                      cases found with
                      | none => exact (hsame (some ⟨some request, b, true⟩) none).symm
                      | some found =>
                          obtain ⟨body, where_⟩ := found
                          by_cases hne : where_ = []
                          · simp [hne, orRefused, Outcome.slotOutcome]
                          · simp [hne, orRefused, HandlerState.slotState, Saved.elements]

/-- Only with a tuple of the right type, or with none, does a call go on. -/
lemma slotPass_next {t t' : SlotState} (h : slotPass refuses t = .inl t') :
    ∃ s : HandlerState, t = s.slotState := by
  obtain ⟨_ | any, b, found, handled⟩ := t
  · exact ⟨⟨none, b, found, handled⟩, rfl⟩
  · cases hcast : anyCast any with
    | none =>
        have hpass : extractLoop.pass ⟨some any, b, found⟩
            = .inr (.error (some any, .badAnyCast)) := by
          simp only [extractLoop, extractPass, hcast]
        rw [slotPass, extractLoop.run_of_inr hpass] at h
        cases h
    | some saved =>
        obtain rfl := anyCast_eq_some.mp hcast
        exact ⟨⟨some saved, b, found, handled⟩, rfl⟩

/-- What a call still has before it, as `HandlerState.pending`. -/
def SlotState.pending (t : SlotState) : ℕ :=
  match t.connection_attribute with
  | none => 2 * t.buffer.length
  | some any =>
      match anyCast any with
      | none => 0
      | some saved =>
          2 * (saved.buffer.length + t.buffer.length) + if saved.request.isSome then 1 else 0

lemma slotState_pending (s : HandlerState) : s.slotState.pending = s.pending := by
  obtain ⟨_ | saved, b, found, handled⟩ := s <;> rfl

lemma slotPass_decreasing {t t' : SlotState} (h : slotPass refuses t = .inl t') :
    t'.pending < t.pending := by
  obtain ⟨s, rfl⟩ := slotPass_next refuses h
  rw [slotPass_slotState] at h
  cases hpass : onDataReadyPass s with
  | inl s' =>
      rw [hpass, orRefused] at h
      split at h
      · cases h
      · obtain rfl := Sum.inl.inj h
        rw [slotState_pending, slotState_pending]
        exact onDataReadyPass_decreasing hpass
  | inr o =>
      rw [hpass, orRefused] at h
      split at h <;> cases h

/-- The loop that the `goto` makes. -/
def slotLoop : MeasuredLoop SlotState SlotOutcome where
  pass := slotPass refuses
  measure := SlotState.pending
  decreasing := slotPass_decreasing refuses

/-- One call of `onDataReady`, in which `connection->read` returns `data`. -/
def onDataReadySlot (slot : Slot) (data : Bytes) : SlotOutcome :=
  (slotLoop refuses).run ⟨slot, data, false, []⟩

/-- **A call with a handler that does not throw** is `onDataReady`. -/
theorem onDataReadySlot_eq (a : Option Saved) (data : Bytes) :
    onDataReadySlot (fun _ => false) (a.map Saved.elements) data
      = (onDataReady a data).slotOutcome := by
  refine onDataReadyLoop.run_map (slotLoop fun _ => false) (f := HandlerState.slotState)
    (g := Outcome.slotOutcome) (fun s => ?_) ⟨a, data, false, []⟩
  change slotPass (fun _ => false) s.slotState
    = (onDataReadyPass s).map HandlerState.slotState Outcome.slotOutcome
  rw [slotPass_slotState]
  cases onDataReadyPass s with
  | inl s' => rfl
  | inr o => simp [orRefused]

/-! ### What calls leave -/

/-- A pass that finds an empty attribute has not found the headers of a request before, and what
it finds in the attribute waits for its body. -/
structure HandlerState.Kept (s : HandlerState) : Prop where
  waits : ∀ saved ∈ s.connection_attribute, saved.Waits
  flag : s.connection_attribute = none → s.end_of_headers_found = false

/-- Without a request the headers have not been found. -/
lemma Saved.Waits.flag {saved : Saved} (h : saved.Waits) (hrequest : saved.request = none) :
    saved.end_of_headers_found = false := by
  by_contra hfound
  obtain ⟨request, -, hsome, -⟩ := h (by simpa using hfound)
  cases hrequest.symm.trans hsome

/-- From the first line comes the flag that was there. -/
lemma newRequest_flag {s : HandlerState} {got : Saved} (h : s.newRequest = .ok got) :
    got.end_of_headers_found = s.end_of_headers_found := by
  rw [HandlerState.newRequest] at h
  split at h
  · cases h
  · obtain rfl := Except.ok.inj h
    rfl

/-- Where there is no request to go on with, the headers have not been found. -/
lemma HandlerState.Kept.getRequest_flag {s : HandlerState} (hs : s.Kept) {got : Saved}
    (h : s.getRequest = .ok got) (hrequest : got.request = none) :
    got.end_of_headers_found = false := by
  rw [HandlerState.getRequest] at h
  split at h
  · next ha => exact (newRequest_flag h).trans (hs.flag ha)
  · next saved ha =>
      have hwaits := hs.waits saved ha
      dsimp only at h
      split at h
      · next hnone =>
          simp only [Bool.and_eq_true, Option.isNone_iff_eq_none] at hnone
          exact (newRequest_flag h).trans (hwaits.flag hnone.1)
      · obtain rfl := Except.ok.inj h
        exact hwaits.flag hrequest

/-- The ways a pass with the slot can go: it ends with what is left and the exception, or hands a
request over, at which the handler may throw. -/
inductive HandlerState.SlotPassed (s : HandlerState) : SlotState ⊕ SlotOutcome → Prop
  | ended {a : Option Saved} {x : Option Failure} (ha : ∀ saved ∈ a, saved.Waits)
      (hx : x ≠ some .nullPointer) :
      s.SlotPassed (.inr ⟨s.handled, a.map Saved.elements, x.map .parsing⟩)
  | refused {request : Request} {where_ : Bytes} (h : s.Hands request where_) :
      s.SlotPassed (.inr ⟨s.handled ++ [request], none, some .handler⟩)
  | last {request : Request} (h : s.Hands request []) :
      s.SlotPassed (.inr ⟨s.handled ++ [request], none, none⟩)
  | next {request : Request} {where_ : Bytes} (h : s.Hands request where_) (hne : where_ ≠ []) :
      s.SlotPassed
        (.inl (slotState ⟨some ⟨none, where_, false⟩, [], true, s.handled ++ [request]⟩))

/-- **One pass of a call.** -/
theorem HandlerState.Kept.slotPass_passed {s : HandlerState} (hs : s.Kept) :
    s.SlotPassed (slotPass refuses s.slotState) := by
  have hpassed := onDataReadyPass_passed s
  rw [slotPass_slotState]
  generalize onDataReadyPass s = next at hpassed ⊢
  cases hpassed with
  | @failed f hf =>
      rw [HandlerState.throws, orRefused, if_neg (by simp)]
      exact .ended (a := none) (x := some f) (by simp) (by simpa using hf)
  | noRequest hget hrequest hfound =>
      have hflag := hs.getRequest_flag hget hrequest
      cases hfound.symm.trans hflag
  | @saved read h =>
      rw [orRefused, if_neg (by simp)]
      exact .ended (a := some read) (x := none) (by simpa using h) (by simp)
  | @last request h =>
      rw [orRefused]
      split
      · exact .refused h
      · exact .last h
  | @next request where_ h hne =>
      rw [orRefused]
      split
      · exact .refused h
      · exact .next h hne

/-- A pass that comes back is as good as the one before. -/
lemma kept_next (where_ : Bytes) (handled : List Request) :
    HandlerState.Kept ⟨some ⟨none, where_, false⟩, [], true, handled⟩ where
  waits := by simp [Saved.Waits]
  flag := by simp

/-- A slot as calls leave it: nothing, or a tuple of the right type that waits for its body if all
of its headers are there. -/
def KeptSlot (slot : Slot) : Prop :=
  ∃ a : Option Saved, slot = a.map Saved.elements ∧ ∀ saved ∈ a, saved.Waits

lemma keptSlot_none : KeptSlot none := ⟨none, rfl, by simp⟩

/-- **A call resumes what another has left**: it leaves such a slot, and ends neither at the cast
nor at a null pointer. -/
theorem KeptSlot.onDataReadySlot {slot : Slot} (h : KeptSlot slot) (data : Bytes) :
    KeptSlot (onDataReadySlot refuses slot data).connection_attribute ∧
      (onDataReadySlot refuses slot data).thrown ≠ some .badAnyCast ∧
      (onDataReadySlot refuses slot data).thrown ≠ some (.parsing .nullPointer) := by
  obtain ⟨a, rfl, ha⟩ := h
  refine (slotLoop refuses).run_invariant
    (I := fun t => ∃ s : HandlerState, t = s.slotState ∧ s.Kept)
    (Q := fun o => KeptSlot o.connection_attribute ∧ o.thrown ≠ some .badAnyCast ∧
      o.thrown ≠ some (.parsing .nullPointer)) ?keeps ?done
    ⟨⟨a, data, false, []⟩, rfl, ⟨ha, fun _ => rfl⟩⟩
  case keeps =>
    rintro t t' ⟨s, rfl, hs⟩ hpass
    change slotPass refuses s.slotState = .inl t' at hpass
    have hpassed := hs.slotPass_passed refuses
    rw [hpass] at hpassed
    cases hpassed with
    | next h hne => exact ⟨_, rfl, kept_next _ _⟩
  case done =>
    rintro t o ⟨s, rfl, hs⟩ hpass
    change slotPass refuses s.slotState = .inr o at hpass
    have hpassed := hs.slotPass_passed refuses
    rw [hpass] at hpassed
    cases hpassed with
    | @ended a x ha hx => exact ⟨⟨a, rfl, ha⟩, by cases x <;> simp, by cases x <;> simp_all⟩
    | refused => exact ⟨keptSlot_none, by simp, by simp⟩
    | last => exact ⟨keptSlot_none, by simp, by simp⟩

/-! ### Calls on a connection -/

/-- A call on a connection: what `connection->read` returns, if it does not throw, and the request
handler. -/
structure DataReady where
  read : Option Bytes
  refuses : List Request → Bool

/-- The slot behind a call. -/
def slotBehind (slot : Slot) (call : DataReady) : Slot :=
  match call.read with
  | none => slot
  | some data => (onDataReadySlot call.refuses slot data).connection_attribute

/-- The slot of a connection behind all the calls on it so far. -/
def storedSlot (calls : List DataReady) : Slot := calls.foldl slotBehind none

lemma KeptSlot.slotBehind {slot : Slot} (h : KeptSlot slot) (call : DataReady) :
    KeptSlot (slotBehind slot call) := by
  rw [Spin.slotBehind]
  split
  · exact h
  · exact (h.onDataReadySlot _ _).1

/-- **Every call resumes what the others have left.** -/
theorem keptSlot_storedSlot (calls : List DataReady) : KeptSlot (storedSlot calls) :=
  List.foldlRecOn calls slotBehind keptSlot_none fun _ h call _ => h.slotBehind call

end Arachnida.Spin
