import Arachnida.Library.Reader
import Arachnida.Spin.HTTPDataHandler

/-!
What the server's data handler is for: a reader of requests.

A request is read in three phases, its first line, its headers and its body, and in every phase
reading can be suspended.

* `requests`: the reader.  It differs from the code in one place: once the headers of a request are
  complete, the bytes that arrive are its body, whereas `onDataReady` goes through its header
  loop once more.
* `BodyIntact`: the bytes of a body through which that pass goes without harm.
* `onDataReady_read`: apart from that, a call of `onDataReady` reads what the reader reads.
* `requestStep_stands`: what the reader finds in the bytes that are there, it finds in more bytes.
-/

namespace Arachnida.Spin

open Library Acari

namespace Saved

/-- Nothing saved: no request, no bytes. -/
def empty : Saved := ⟨none, [], false⟩

/-- More bytes behind those that have been saved. -/
def append (s : Saved) (data : Bytes) : Saved := { s with buffer := s.buffer ++ data }

@[simp] lemma append_buffer (s : Saved) (data : Bytes) :
    (s.append data).buffer = s.buffer ++ data := rfl

@[simp] lemma append_mk (request : Option Request) (b data : Bytes) (found : Bool) :
    append ⟨request, b, found⟩ data = ⟨request, b ++ data, found⟩ := rfl

end Saved

/-! ### The reader -/

/-- The body phase. -/
def readBody (request : Request) (b : Bytes) : Progress Saved Request Failure :=
  match findBody request.header_fields_ b with
  | .error f => .failed f
  | .ok none => .waiting ⟨some request, b, true⟩
  | .ok (some (body, rest)) =>
      .complete { request with body_ := request.body_ ++ body } ⟨none, rest, false⟩

/-- The header phase, and the body phase behind it. -/
def readHead (request : Request) (b : Bytes) : Progress Saved Request Failure :=
  match (headerLoop Request.push).run ⟨request, b, false⟩ with
  | .error f => .failed f
  | .ok (s, _) =>
      if s.end_of_headers_found then readBody s.message s.where_
      else .waiting ⟨some s.message, s.where_, false⟩

/-- The first line, and the other phases behind it. -/
def readLine (b : Bytes) : Progress Saved Request Failure :=
  match extractRequest b with
  | .error f => .failed f
  | .ok (none, where_) => .waiting ⟨none, where_, false⟩
  | .ok (some request, where_) => readHead request where_

/-- The next request in what has been saved. -/
def requestStep : Saved → Progress Saved Request Failure
  | ⟨none, b, _⟩ => readLine b
  | ⟨some request, b, false⟩ => readHead request b
  | ⟨some request, b, true⟩ => readBody request (b.dropWhile isIgnorableWhiteSpace)

lemma readBody_complete {request r : Request} {b : Bytes} {s : Saved}
    (h : readBody request b = .complete r s) : s.request = none ∧ s.buffer <:+ b := by
  rw [readBody] at h
  split at h
  · cases h
  · cases h
  · next body rest hfind =>
      cases h
      exact ⟨rfl, body, (findBody_suffix hfind).symm⟩

lemma readHead_complete {request r : Request} {b : Bytes} {s : Saved}
    (h : readHead request b = .complete r s) : s.request = none ∧ s.buffer <:+ b := by
  rw [readHead] at h
  split at h
  · cases h
  · next t eob hrun =>
      split at h
      · obtain ⟨h1, h2⟩ := readBody_complete h
        exact ⟨h1, h2.trans (headerLoop_suffix Request.push hrun)⟩
      · cases h

/-- The position behind a first line. -/
lemma extractRequest_suffix_length {b w : Bytes} {request : Request}
    (h : extractRequest b = .ok (some request, w)) :
    w.length < b.length ∧ ∀ c, extractRequest (b ++ c) = .ok (some request, w ++ c) := by
  have hs := extractRequestHeader_append Request.new supportedMethods b
  rw [extractRequest] at h
  rw [Stable, h] at hs
  exact hs

lemma requestStep_complete {s s' : Saved} {r : Request} (h : requestStep s = .complete r s') :
    s'.request = none ∧ 2 * s'.buffer.length
      < 2 * s.buffer.length + if s.request.isSome then 1 else 0 := by
  obtain ⟨request, b, found⟩ := s
  cases request with
  | none =>
      rw [requestStep, readLine] at h
      split at h
      · cases h
      · cases h
      · next request where_ hextract =>
          obtain ⟨h1, h2⟩ := readHead_complete h
          have := h2.length_le
          have := (extractRequest_suffix_length hextract).1
          exact ⟨h1, by simp only [Option.isSome_none, Bool.false_eq_true, if_false]; omega⟩
  | some request =>
      have hdrop := (List.dropWhile_suffix (l := b) isIgnorableWhiteSpace).length_le
      cases found with
      | false =>
          obtain ⟨h1, h2⟩ := readHead_complete h
          have := h2.length_le
          exact ⟨h1, by simp only [Option.isSome_some, if_true]; omega⟩
      | true =>
          obtain ⟨h1, h2⟩ := readBody_complete h
          have := h2.length_le
          exact ⟨h1, by simp only [Option.isSome_some, if_true]; omega⟩

/-- The reader of requests. -/
def requests : Reader Saved Request Failure where
  step := requestStep
  size := fun s => 2 * s.buffer.length + if s.request.isSome then 1 else 0
  size_lt := by
    intro s s' r h
    obtain ⟨h1, h2⟩ := requestStep_complete h
    simpa only [h1, Option.isSome_none, Bool.false_eq_true, if_false, Nat.add_zero] using h2

/-! ### The code reads what the reader reads -/

/-- The header pass that the code makes over bytes of the body does not take any of them: they
end the headers again, or no end of a header is found in them. -/
def BodyIntact (b : Bytes) : Prop :=
  endsHeaders (b.takeWhile isIgnorableWhiteSpace) = true ∨
    findHeaderEnd (b.dropWhile isIgnorableWhiteSpace) = b.dropWhile isIgnorableWhiteSpace

instance (b : Bytes) : Decidable (BodyIntact b) := inferInstanceAs (Decidable (_ ∨ _))

lemma headerLoop_intact (request : Request) {b : Bytes} (hb : BodyIntact b) :
    ∃ eob, (headerLoop Request.push).run ⟨request, b, true⟩
      = .ok (⟨request, b.dropWhile isIgnorableWhiteSpace, true⟩, eob) := by
  have hall : ∀ c ∈ b.takeWhile isIgnorableWhiteSpace, isIgnorableWhiteSpace c = true :=
    fun c hc => List.mem_takeWhile_imp hc
  have hstop := dropWhile_stops isIgnorableWhiteSpace b
  conv =>
    enter [1, eob, 1, 2, 2]
    rw [← List.takeWhile_append_dropWhile (p := isIgnorableWhiteSpace) (l := b)]
  cases he : endsHeaders (b.takeWhile isIgnorableWhiteSpace) with
  | true =>
      exact ⟨false, (headerLoop Request.push).run_of_inr (headerPass_closed hall hstop true he)⟩
  | false =>
      have hend := hb.resolve_left (by simp [he])
      refine ⟨true, (headerLoop Request.push).run_of_inr ?_⟩
      exact (headerPass_space hall hstop true he).trans (headerPass_unknown hstop true hend)

/-- What a call works on: what the attribute holds, if anything, and the new data behind it. -/
def HandlerState.saved (s : HandlerState) : Saved :=
  (s.connection_attribute.getD .empty).append s.buffer

/-- The attribute holds no flag without a request, and the body that it may hold a part of is
not harmed by what arrives. -/
structure HandlerState.Sound (s : HandlerState) : Prop where
  flag : s.connection_attribute = none → s.end_of_headers_found = false
  request : ∀ b, s.connection_attribute ≠ some ⟨none, b, true⟩
  body : ∀ request b, s.connection_attribute = some ⟨some request, b, true⟩ →
    BodyIntact (b ++ s.buffer)

/-- What the code does with the progress that the reader makes. -/
def HandlerState.continue (s : HandlerState) : Progress Saved Request Failure →
    HandlerState ⊕ Outcome
  | .failed f => .inr ⟨s.handled, none, some f⟩
  | .waiting s' => .inr ⟨s.handled, some s', none⟩
  | .complete r s' =>
      if s'.buffer ≠ [] then .inl ⟨some ⟨none, s'.buffer, false⟩, [], true, s.handled ++ [r]⟩
      else .inr ⟨s.handled ++ [r], none, none⟩

/-- From the end of the headers on, the pass is the body phase. -/
lemma onDataReadyPass_body {s : HandlerState} {got : Saved} {request : Request} {w : Bytes}
    (hget : s.getRequest = .ok got) (hread : readHeaders got = .ok ⟨some request, w, true⟩) :
    onDataReadyPass s = s.continue (readBody request w) := by
  simp only [onDataReadyPass, hget, hread, readBody, HandlerState.throws, if_true]
  split <;> simp [HandlerState.continue, *]

/-- From a new request on, the pass is the header phase. -/
lemma onDataReadyPass_head {s : HandlerState} {request : Request} {w : Bytes}
    (hget : s.getRequest = .ok ⟨some request, w, false⟩) :
    onDataReadyPass s = s.continue (readHead request w) := by
  rw [readHead]
  cases hrun : (headerLoop Request.push).run ⟨request, w, false⟩ with
  | error f =>
      simp [onDataReadyPass, hget, readHeaders, hrun, HandlerState.throws, HandlerState.continue]
  | ok r =>
      obtain ⟨⟨m, v, found⟩, eob⟩ := r
      have hread : readHeaders ⟨some request, w, false⟩ = .ok ⟨some m, v, found⟩ := by
        simp only [readHeaders, hrun]
      cases found with
      | true => simpa using onDataReadyPass_body hget hread
      | false => simp [onDataReadyPass, hget, hread, HandlerState.continue]

/-- Where the first line is read, the pass is the reader's step. -/
lemma onDataReadyPass_line {s : HandlerState} {b : Bytes} {handled : List Request}
    (a : Option Saved)
    (hget : s.getRequest = HandlerState.newRequest ⟨a, b, false, handled⟩) :
    onDataReadyPass s = s.continue (readLine b) := by
  rw [readLine]
  rw [HandlerState.newRequest] at hget
  cases he : extractRequest b with
  | error f =>
      rw [he] at hget
      simp [onDataReadyPass, hget, HandlerState.throws, HandlerState.continue]
  | ok r =>
      obtain ⟨request, w⟩ := r
      rw [he] at hget
      cases request with
      | none => simp [onDataReadyPass, hget, readHeaders, HandlerState.continue]
      | some request => exact onDataReadyPass_head hget

/-- **One pass of the code is one step of the reader.** -/
theorem onDataReadyPass_eq {s : HandlerState} (hs : s.Sound) :
    onDataReadyPass s = s.continue (requestStep s.saved) := by
  obtain ⟨a, b, found, handled⟩ := s
  cases a with
  | none =>
      obtain rfl : found = false := hs.flag rfl
      exact onDataReadyPass_line none rfl
  | some saved =>
      obtain ⟨request, c, found'⟩ := saved
      cases request with
      | none =>
          cases found' with
          | true => exact absurd rfl (hs.request c)
          | false =>
              by_cases hbuf : c ++ b = []
              · have hline : readLine [] = .waiting ⟨none, [], false⟩ := rfl
                simp [onDataReadyPass, HandlerState.getRequest, readHeaders, HandlerState.saved,
                  requestStep, hbuf, hline, HandlerState.continue]
              · refine @onDataReadyPass_line _ (c ++ b) handled none ?_
                simp only [HandlerState.getRequest, Option.isNone_none, Bool.true_and, hbuf,
                  ne_eq, not_false_eq_true, decide_true, if_true]
      | some request =>
          have hget : HandlerState.getRequest ⟨some ⟨some request, c, found'⟩, b, found, handled⟩
              = .ok ⟨some request, c ++ b, found'⟩ := by simp [HandlerState.getRequest]
          cases found' with
          | false => exact onDataReadyPass_head hget
          | true =>
              obtain ⟨eob, hrun⟩ := headerLoop_intact request (b := c ++ b) (hs.body request c rfl)
              have hread : readHeaders ⟨some request, c ++ b, true⟩
                  = .ok ⟨some request, (c ++ b).dropWhile isIgnorableWhiteSpace, true⟩ := by
                simp only [readHeaders, hrun]
              exact onDataReadyPass_body hget hread

/-- The outcome of a call that reads `r` of what was saved. -/
def Reads (handled : List Request) (o : Outcome) (r : List Request × Except Failure Saved) : Prop :=
  o.handled = handled ++ r.1 ∧
    match r.2 with
    | .error f => o.thrown = some f ∧ o.connection_attribute = none
    | .ok s => o.thrown = none ∧ o.connection_attribute.getD .empty = s

/-- A whole call reads what the reader reads. -/
lemma onDataReadyLoop_read {s : HandlerState} (hs : s.Sound) :
    Reads s.handled (onDataReadyLoop.run s) (requests.read s.saved) := by
  refine onDataReadyLoop.run_rec
    (P := fun s o => s.Sound → Reads s.handled o (requests.read s.saved)) ?last ?next s hs
  case last =>
    intro s o hp hs
    change onDataReadyPass s = .inr o at hp
    rw [onDataReadyPass_eq hs] at hp
    cases hstep : requestStep s.saved with
    | failed f =>
        rw [hstep] at hp
        obtain rfl := Sum.inr.inj hp
        rw [requests.read_failed hstep]
        exact ⟨by simp, rfl, rfl⟩
    | waiting s' =>
        rw [hstep] at hp
        obtain rfl := Sum.inr.inj hp
        rw [requests.read_waiting hstep]
        exact ⟨by simp, rfl, rfl⟩
    | complete r s' =>
        simp only [hstep, HandlerState.continue] at hp
        split at hp
        · cases hp
        · next hbuf =>
            obtain rfl := Sum.inr.inj hp
            -- no bytes are left, and the reader waits for a first line
            have hnil : requestStep s' = .waiting .empty := by
              obtain ⟨request, b, found⟩ := s'
              obtain rfl : request = none := (requestStep_complete hstep).1
              obtain rfl : b = [] := not_not.mp hbuf
              rfl
            rw [requests.read_complete hstep, requests.read_waiting hnil]
            exact ⟨rfl, rfl, rfl⟩
  case next =>
    intro s t hp ih hs
    change onDataReadyPass s = .inl t at hp
    rw [onDataReadyPass_eq hs] at hp
    cases hstep : requestStep s.saved with
    | failed f => rw [hstep] at hp; cases hp
    | waiting s' => rw [hstep] at hp; cases hp
    | complete r s' =>
        simp only [hstep, HandlerState.continue] at hp
        split at hp
        · obtain rfl := Sum.inl.inj hp
          have hnext : requests.read ⟨none, s'.buffer, false⟩ = requests.read s' := by
            refine requests.read_congr ?_
            obtain ⟨request, b, found⟩ := s'
            obtain rfl : request = none := (requestStep_complete hstep).1
            rfl
          have hread := ih ⟨by simp, by simp, by simp⟩
          simp only [HandlerState.saved, Option.getD_some, Saved.append_mk, List.append_nil,
            hnext] at hread
          rw [requests.read_complete hstep]
          exact ⟨by simpa using hread.1, hread.2⟩
        · cases hp

/-- **A call of `onDataReady` reads what the reader reads.** -/
theorem onDataReady_read {a : Option Saved} {data : Bytes}
    (hs : (HandlerState.mk a data false []).Sound) :
    Reads [] (onDataReady a data) (requests.read ((a.getD .empty).append data)) :=
  onDataReadyLoop_read hs

/-! ### More bytes -/

/-- White space in front of a request does not matter. -/
lemma outcome_dropWhile (b : Bytes) (found found' : Bool) :
    requests.outcome ⟨none, b.dropWhile isIgnorableWhiteSpace, found⟩
      = requests.outcome ⟨none, b, found'⟩ := by
  have hskip := extractRequestHeader_dropWhile Request.new supportedMethods b
  cases he : extractRequest b with
  | error f =>
      refine congrArg Reader.outcomeOf (requests.read_congr ?_)
      rw [extractRequest] at he
      rw [he] at hskip
      simp only [requests, requestStep, readLine, extractRequest, hskip, he]
  | ok r =>
      obtain ⟨request, w⟩ := r
      rw [extractRequest] at he
      rw [he] at hskip
      cases request with
      | none =>
          have h1 : requests.step ⟨none, b.dropWhile isIgnorableWhiteSpace, found⟩
              = .waiting ⟨none, b.dropWhile isIgnorableWhiteSpace, false⟩ := by
            simp only [requests, requestStep, readLine, extractRequest, hskip]
          have h2 : requests.step ⟨none, b, found'⟩ = .waiting ⟨none, w, false⟩ := by
            simp only [requests, requestStep, readLine, extractRequest, he]
          rw [Reader.outcome, Reader.outcome, requests.read_waiting h1, requests.read_waiting h2]
          rfl
      | some request =>
          refine congrArg Reader.outcomeOf (requests.read_congr ?_)
          simp only [requests, requestStep, readLine, extractRequest, hskip, he]

section Stands

variable (y : Bytes)

/-- Where white space has been skipped, more bytes are skipped further. -/
lemma dropWhile_append_dropWhile (b : Bytes) :
    (b.dropWhile isIgnorableWhiteSpace ++ y).dropWhile isIgnorableWhiteSpace
      = (b ++ y).dropWhile isIgnorableWhiteSpace := by
  by_cases hb : b.dropWhile isIgnorableWhiteSpace = []
  · rw [hb, dropWhile_append_of_eq_nil hb, List.nil_append]
  · rw [dropWhile_append_of_ne_nil hb,
      dropWhile_of_stops ((dropWhile_stops _ b).append hb y)]

/-- The body phase, from bytes in front of which no white space is left. -/
lemma readBody_stands (request : Request) {b : Bytes} (hb : Stops isIgnorableWhiteSpace b) :
    requests.Stands Saved.append y (readBody request b)
      (readBody request ((b ++ y).dropWhile isIgnorableWhiteSpace)) := by
  have hdrop : b ≠ [] → (b ++ y).dropWhile isIgnorableWhiteSpace = b ++ y :=
    fun h => dropWhile_of_stops (hb.append h y)
  rw [readBody]
  cases hfind : findBody request.header_fields_ b with
  | error f => simp only [readBody, findBody_error hfind]; rfl
  | ok found =>
      cases found with
      | none => rfl
      | some found =>
          obtain ⟨body, rest⟩ := found
          by_cases hne : b = []
          · subst hne
            obtain ⟨rfl, rfl⟩ := List.append_eq_nil_iff.mp (findBody_suffix hfind).symm
            have hfind' := findBody_append hfind (y.dropWhile isIgnorableWhiteSpace)
            simp only [List.nil_append] at hfind' ⊢
            simp only [readBody, hfind']
            exact ⟨_, rfl, outcome_dropWhile y false false⟩
          · simp only [readBody, hdrop hne, findBody_append hfind y]
            exact ⟨_, rfl, rfl⟩

/-- The header phase.  Where it stops in the white space behind the first line, with too few
newlines to end the headers, what arrives must not complete a blank line. -/
lemma readHead_stands (request : Request) {w : Bytes}
    (hline : EndsInBlankLine w → ¬ ContinuesLine y)
    (hspace : (∀ c ∈ w, isIgnorableWhiteSpace c = true) → endsHeaders w = false →
      endsHeaders (w ++ y.takeWhile isIgnorableWhiteSpace)
        = endsHeaders (y.takeWhile isIgnorableWhiteSpace)) :
    requests.Stands Saved.append y (readHead request w) (readHead request (w ++ y)) := by
  have hout := headerLoop_append Request.push request w
  have hstops := @headerLoop_stops _ Request.push ⟨request, w, false⟩ rfl
  rw [readHead, readHead]
  generalize (headerLoop Request.push).run ⟨request, w, false⟩ = res at hout hstops
  cases hout with
  | failed f stable => rw [stable y hline]; rfl
  | body m v hne stable =>
      have hv : Stops isIgnorableWhiteSpace v := hstops rfl rfl
      have hbody := readBody_stands y m hv
      rw [dropWhile_of_stops (hv.append hne y)] at hbody
      simpa only [stable y, if_true] using hbody
  | blank stable =>
      have hbody := readBody_stands y request (b := []) trivial
      rw [List.nil_append] at hbody
      simpa only [stable y, if_true] using hbody
  | closed m stable =>
      have hbody := readBody_stands y m (b := []) trivial
      rw [List.nil_append] at hbody
      simpa only [stable y hline, if_true] using hbody
  | line m v hne hv stable =>
      simp only [stable y, Bool.false_eq_true, if_false]
      rfl
  | space hw he =>
      have hjoin : (headerLoop Request.push).run ⟨request, w ++ y, false⟩
          = (headerLoop Request.push).run ⟨request, y, false⟩ := by
        obtain ⟨a, u, rfl, ha, hu⟩ := exists_run isIgnorableWhiteSpace y
        have hsame := hspace hw he
        rw [takeWhile_append_stops ha hu] at hsame
        have hwa : ∀ c ∈ w ++ a, isIgnorableWhiteSpace c = true := by
          intro c hc
          exact (List.mem_append.mp hc).elim (hw c) (ha c)
        rw [← List.append_assoc]
        cases hends : endsHeaders a with
        | true =>
            rw [(headerLoop Request.push).run_of_inr (headerPass_closed ha hu false hends),
              (headerLoop Request.push).run_of_inr
                (headerPass_closed hwa hu false (hsame.trans hends))]
        | false =>
            rw [headerLoop_skip Request.push request ha hu hends,
              headerLoop_skip Request.push request hwa hu (hsame.trans hends)]
      simp only [hjoin, Bool.false_eq_true, if_false]
      rfl

/-- In what has been saved, the headers of the last request end because the bytes do. -/
inductive HeadersEndHere : Saved → Prop
  | headers {request : Request} {w : Bytes} :
      EndsInBlankLine w → HeadersEndHere ⟨some request, w, false⟩
  | line {b w : Bytes} {request : Request} {found : Bool}
      (h : extractRequest b = .ok (some request, w)) :
      EndsInBlankLine w → HeadersEndHere ⟨none, b, found⟩
  | later {s s' : Saved} {request : Request} (h : requestStep s = .complete request s') :
      HeadersEndHere s' → HeadersEndHere s

/-- White space at the end of `b` and the white space with which `y` begins contain the newlines
of a blank line only if those of `y` suffice. -/
def NoBlankLineAcross (b y : Bytes) : Prop :=
  ∀ w, w <:+ b → (∀ c ∈ w, isIgnorableWhiteSpace c = true) → endsHeaders w = false →
    endsHeaders (w ++ y.takeWhile isIgnorableWhiteSpace)
      = endsHeaders (y.takeWhile isIgnorableWhiteSpace)

variable {y}

/-- White space behind the first line, with too few newlines, is dropped. -/
lemma readHead_space (request : Request) {w : Bytes}
    (hw : ∀ c ∈ w, isIgnorableWhiteSpace c = true) (he : endsHeaders w = false) :
    readHead request w = .waiting ⟨some request, [], false⟩ := by
  have hskip := headerLoop_skip Request.push request hw stops_nil he
  rw [List.append_nil, headerLoop_unknown Request.push request stops_nil findHeaderEnd_nil] at hskip
  rw [readHead, hskip]
  rfl

/-- **What the reader finds in the bytes that are there, it finds in more bytes.** -/
theorem requestStep_stands {s : Saved} (hline : HeadersEndHere s → ¬ ContinuesLine y)
    (hspace : ∀ request, requestStep s = .waiting ⟨some request, [], false⟩ →
      NoBlankLineAcross s.buffer y) :
    requests.Stands Saved.append y (requestStep s) (requestStep (s.append y)) := by
  obtain ⟨request, b, found⟩ := s
  cases request with
  | none =>
      rw [Saved.append_mk, requestStep, requestStep, readLine, readLine]
      have hstable := extractRequestHeader_append Request.new supportedMethods b
      rw [Stable, ← extractRequest] at hstable
      cases he : extractRequest b with
      | error f =>
          rw [he] at hstable
          rw [hstable y]
          rfl
      | ok r =>
          obtain ⟨request, w⟩ := r
          rw [he] at hstable
          cases request with
          | none => obtain rfl : w = b := hstable; rfl
          | some request =>
              obtain ⟨hlt, hmore⟩ := hstable
              have hw : w <:+ b := extractRequestHeader_suffix he
              rw [hmore y]
              refine readHead_stands y request (fun h => hline (.line he h)) fun hall hends => ?_
              refine hspace request ?_ w hw hall hends
              simp only [requestStep, readLine, he, readHead_space request hall hends]
  | some request =>
      cases found with
      | false =>
          refine readHead_stands y request (fun h => hline (.headers h)) fun hall hends => ?_
          exact hspace request (readHead_space request hall hends) b (List.suffix_refl b) hall hends
      | true =>
          have hbody := readBody_stands y request (dropWhile_stops isIgnorableWhiteSpace b)
          rw [dropWhile_append_dropWhile] at hbody
          exact hbody

end Stands

end Arachnida.Spin
