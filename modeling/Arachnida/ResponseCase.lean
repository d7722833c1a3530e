import Arachnida.Acari.NameCase
import Arachnida.Damon.Reading
import Arachnida.ResponsePipeline

/-!
The responses in two spellings of a stream that arrives in one read.

* `SplitInto`: the responses that calls of `getResponse` return until nothing of a stream is left.
* `splitInto_message`: the responses behind a status line and its headers.
* `sameResponses_iff`: **two spellings are split into the same responses exactly if their headers
  announce the same sizes**, or there is nothing behind the headers.
-/

namespace Arachnida

open Library Acari Damon

/-- Nothing is left that another call could return. -/
def Spent : Attribute → Prop
  | .empty | .three _ _ _ => True
  | .four _ _ _ _ => False

/-- The attribute of a connection on which a stream is still to be read, or has been read. -/
def heldAttribute (unread : Bool) (b : Bytes) : Attribute :=
  if unread then .empty else .four none b false false

/-- The read that is to come. -/
def heldReads (unread : Bool) (b : Bytes) : List (Bytes × ℕ) :=
  if unread then [(b, Reason.should_retry__.value)] else []

/-- Calls of `getResponse` return these responses, until nothing is left of the stream `b`, which
arrives in one read or has arrived before. -/
def SplitInto (unread : Bool) (b : Bytes) (responses : List Damon.Response) : Prop :=
  ∃ a', Calls (scripted false) (heldAttribute unread b) (heldReads unread b) responses a' [] ∧
    Spent a'

/-- A response with these headers and this body. -/
def filled (m : Damon.Response) (hs : List Header) (body : Bytes) : Damon.Response :=
  { m with header_fields_ := hs, body_ := body }

variable {unread : Bool} {b w v : Bytes} {rs : List Damon.Response}

/-- The first call finds the stream in its buffer. -/
lemma exists_begins (hb : unread = false → b ≠ []) :
    ∃ b₀ eob, Begins (heldAttribute unread b) b₀ eob ∧
    fillBuffer (scripted false) false eob b₀ (heldReads unread b) = (.ok b, []) := by
  cases unread with
  | true =>
      refine ⟨[], false, .empty, ?_⟩
      simp [fillBuffer, readInto, heldReads, scripted, Expected]
  | false =>
      refine ⟨b, false, .four (hb rfl) false, ?_⟩
      simp [fillBuffer, heldReads, scripted, hb rfl]

lemma lineFound : LineFound extractResponse := extractResponseHeader_lineFound _

/-- There is at least one response. -/
lemma SplitInto.ne_nil (h : SplitInto unread b rs) : rs ≠ [] := by
  rintro rfl
  obtain ⟨a', ⟨rfl, hpeer⟩, hspent⟩ := h
  cases unread with
  | true => simp [heldReads] at hpeer
  | false => exact hspent

/-- Behind the last response there is none. -/
lemma calls_spent {a : Attribute} (ha : Spent a) :
    (∃ a', Calls (scripted false) a [] rs a' [] ∧ Spent a') ↔ rs = [] := by
  have hnone : ∀ r a₁ e₁, ¬ GetResponse (scripted false) a [] ⟨.ok r, a₁, e₁⟩ := by
    intro r a₁ e₁ h
    cases a with
    | empty =>
        have hpass : getResponsePass (scripted false) ⟨.empty, false, []⟩
            = .inr ⟨.error .connectionClosed, .empty, []⟩ := rfl
        cases GetResponse.deterministic _ h (returns_of_inr hpass)
    | three m b found =>
        have hpass : getResponsePass (scripted false) ⟨.three m b found, false, []⟩
            = .inr ⟨.error .badAnyCast, .three m b found, []⟩ := rfl
        cases GetResponse.deterministic _ h (returns_of_inr hpass)
    | four => exact ha
  constructor
  · rintro ⟨a', hcalls, -⟩
    cases rs with
    | nil => rfl
    | cons r rs =>
        obtain ⟨a₁, e₁, hcall, -⟩ := hcalls
        exact absurd hcall (hnone r a₁ e₁)
  · rintro rfl
    exact ⟨a, ⟨rfl, rfl⟩, ha⟩

section Message

variable {m : Damon.Response} {hs : List Header}
  (hb : unread = false → b ≠ []) (hline : extractResponse b = .ok (some m, w))
include hb hline

/-- The headers are not complete, and the call does not end. -/
lemma not_splitInto_headers {eob : Bool} (hrun : (headerLoop Response.push).run ⟨m, w, false⟩
    = .ok (⟨hs.foldl Response.push m, v, false⟩, eob)) : ¬ SplitInto unread b rs := by
  intro h
  obtain ⟨b₀, eob₀, hbegins, hfill⟩ := exists_begins hb
  cases rs with
  | nil => exact h.ne_nil rfl
  | cons r rs =>
      obtain ⟨a', ⟨a₁, e₁, hcall, -⟩, -⟩ := h
      obtain ⟨rfl, -⟩ := headerLoop_settled Response.push hrun rfl
      obtain hdone | ⟨s, hs, hlater⟩ := Returns.elim hcall
      · cases (hbegins.pass_line hfill hline hrun).symm.trans hdone
      · obtain rfl := Sum.inl.inj ((hbegins.pass_line hfill hline hrun).symm.trans hs)
        exact not_returns_of_stuck (getResponsePass_inHeaders hrun []) hlater

section Complete

variable (hrun : (headerLoop Response.push).run ⟨m, w, false⟩
    = .ok (⟨hs.foldl Response.push m, v, true⟩, false))
include hrun

/-- The first call ends behind the headers. -/
lemma splitInto_call : SplitInto unread b rs ↔ ∃ r rest a₁ e₁, rs = r :: rest ∧
    finish ⟨some (hs.foldl Response.push m), v, true⟩ false ([] : List (Bytes × ℕ))
      = ⟨.ok r, a₁, e₁⟩ ∧
    ∃ a', Calls (scripted false) a₁ e₁ rest a' [] ∧ Spent a' := by
  obtain ⟨b₀, eob₀, hbegins, hfill⟩ := exists_begins hb
  have hcall : GetResponse (scripted false) (heldAttribute unread b) (heldReads unread b)
      (finish ⟨some (hs.foldl Response.push m), v, true⟩ false []) :=
    returns_of_inr (hbegins.pass_line hfill hline hrun)
  constructor
  · intro h
    cases rs with
    | nil => exact absurd rfl h.ne_nil
    | cons r rest =>
        obtain ⟨a', ⟨a₁, e₁, hfirst, hrest⟩, hspent⟩ := h
        exact ⟨r, rest, a₁, e₁, rfl, GetResponse.deterministic _ hcall hfirst, a', hrest, hspent⟩
  · rintro ⟨r, rest, a₁, e₁, rfl, hfinish, a', hrest, hspent⟩
    exact ⟨a', ⟨a₁, e₁, hfinish ▸ hcall, hrest⟩, hspent⟩

/-- The headers announce no size. -/
lemma not_splitInto_error {f : Failure} (hbody : findBody hs v = .error f) :
    ¬ SplitInto unread b rs := by
  have hheaders := (extractResponse_new hline).1
  rw [splitInto_call hb hline hrun]
  rintro ⟨r, rest, a₁, e₁, -, hfinish, -⟩
  simp only [finish, Response.foldl_push, hheaders, List.nil_append, hbody] at hfinish
  cases hfinish

/-- The headers announce a size: the response is returned with its body, or without it and the
last. -/
lemma splitInto_message {n : ℕ} (hn : Announces hs n) : SplitInto unread b rs ↔
    ∃ rest, rs = filled m hs (if v.length < n then [] else v.take n) :: rest ∧
      if v.length < n ∨ v.drop n = [] then rest = [] else SplitInto false (v.drop n) rest := by
  obtain ⟨hheaders, hbody⟩ := extractResponse_new hline
  rw [splitInto_call hb hline hrun]
  have hfinish : finish ⟨some (hs.foldl Response.push m), v, true⟩ false ([] : List (Bytes × ℕ))
      = ⟨.ok (filled m hs (if v.length < n then [] else v.take n)),
        if v.length < n then .three { m with header_fields_ := hs } v true
        else if v.drop n = [] then .empty else .four none (v.drop n) false false, []⟩ := by
    simp only [finish, Response.foldl_push, hheaders, List.nil_append, hn.findBody, hbody, filled]
    by_cases hlt : v.length < n
    · simp only [if_pos hlt, ← hbody]
    · simp only [if_neg hlt]
      by_cases hrest : v.drop n = [] <;> simp [hrest]
  -- what is left is split by the calls behind this one
  have hleft : ∀ rest, (∃ a', Calls (scripted false) (if v.length < n then
        .three { m with header_fields_ := hs } v true
      else if v.drop n = [] then .empty else .four none (v.drop n) false false) [] rest a' [] ∧
      Spent a') ↔
      if v.length < n ∨ v.drop n = [] then rest = [] else SplitInto false (v.drop n) rest := by
    intro rest
    by_cases hlt : v.length < n
    · rw [if_pos hlt, if_pos (.inl hlt)]
      exact calls_spent trivial
    · rw [if_neg hlt]
      by_cases hdrop : v.drop n = []
      · rw [if_pos hdrop, if_pos (.inr hdrop)]
        exact calls_spent trivial
      · rw [if_neg hdrop, if_neg (not_or.mpr ⟨hlt, hdrop⟩)]
        exact Iff.rfl
  rw [hfinish]
  constructor
  · rintro ⟨r, rest, a₁, e₁, rfl, heq, hlater⟩
    simp only [CallResult.mk.injEq, Except.ok.injEq] at heq
    obtain ⟨rfl, rfl, rfl⟩ := heq
    exact ⟨rest, rfl, (hleft rest).mp hlater⟩
  · rintro ⟨rest, rfl, hlater⟩
    exact ⟨_, rest, _, _, rfl, rfl, (hleft rest).mpr hlater⟩

end Complete

end Message

/-! ### Two spellings -/

/-- The same response up to the names of its headers. -/
structure SameResponse (r r' : Damon.Response) : Prop where
  protocol : r.protocol_and_version_ = r'.protocol_and_version_
  code : r.status_code_ = r'.status_code_
  reason : r.reason_string_ = r'.reason_string_
  values : r.header_fields_.map Header.value_ = r'.header_fields_.map Header.value_
  body : r.body_ = r'.body_

/-- The headers announce the same size, or more than is there, or nothing is there. -/
def SameBody (hs hs' : List Header) (available : ℕ) : Prop :=
  ∃ n n', Announces hs n ∧ Announces hs' n' ∧
    (n = n' ∨ (available < n ∧ available < n') ∨ available = 0)

lemma sameResponse_filled {m : Damon.Response} {hs hs' : List Header}
    (h : hs.map Header.value_ = hs'.map Header.value_) (body : Bytes) :
    SameResponse (filled m hs body) (filled m hs' body) :=
  ⟨rfl, rfl, rfl, h, rfl⟩

/-- The second stream is split into the same responses. -/
def SameResponses (unread : Bool) (b' : Bytes) (rs : List Damon.Response) : Prop :=
  ∃ rs', SplitInto unread b' rs' ∧ List.Forall₂ SameResponse rs rs'

section Spellings

variable {b' : Bytes}

/-- The stream is not empty in either spelling. -/
lemma ne_nil_of_sameLetters (h : SameLetters b b') (hb : unread = false → b ≠ []) :
    unread = false → b' ≠ [] :=
  fun hunread hb' => hb hunread (h.eq_nil_iff.mpr hb')

/-- A response with its body, and what is behind it. -/
lemma splitInto_whole {body rest : Bytes} {m : Damon.Response} {hs : List Header}
    (hb : unread = false → b ≠ []) (hline : extractResponse b = .ok (some m, w))
    (hrun : (headerLoop Response.push).run ⟨m, w, false⟩
      = .ok (⟨hs.foldl Response.push m, body ++ rest, true⟩, false))
    (hn : Announces hs body.length) : SplitInto unread b rs ↔
      ∃ later, rs = filled m hs body :: later ∧
        if rest = [] then later = [] else SplitInto false rest later := by
  have hlt : ¬ (body ++ rest).length < body.length := by simp
  rw [splitInto_message hb hline hrun hn, if_neg hlt, List.take_left, List.drop_left]
  simp only [hlt, false_or]

/-- Headers with nothing behind them, whatever they announce. -/
lemma splitInto_nothing {m : Damon.Response} {hs : List Header} {n : ℕ}
    (hb : unread = false → b ≠ []) (hline : extractResponse b = .ok (some m, w))
    (hrun : (headerLoop Response.push).run ⟨m, w, false⟩
      = .ok (⟨hs.foldl Response.push m, [], true⟩, false)) (hn : Announces hs n) :
    SplitInto unread b rs ↔ rs = [filled m hs []] := by
  rw [splitInto_message hb hline hrun hn]
  simp

/-- Headers that announce more than is there. -/
lemma splitInto_short {m : Damon.Response} {hs : List Header} {n : ℕ}
    (hb : unread = false → b ≠ []) (hline : extractResponse b = .ok (some m, w))
    (hrun : (headerLoop Response.push).run ⟨m, w, false⟩
      = .ok (⟨hs.foldl Response.push m, v, true⟩, false)) (hn : Announces hs n)
        (hlt : v.length < n) :
    SplitInto unread b rs ↔ rs = [filled m hs []] := by
  rw [splitInto_message hb hline hrun hn]
  simp [hlt]

/-- Where the same sizes are announced, the responses are the same. -/
lemma sameResponses_of_recased (h : Recased extractResponse SameBody b b') :
    ∀ {unread : Bool} {rs : List Damon.Response}, (unread = false → b ≠ []) →
      SplitInto unread b rs → SameResponses unread b' rs := by
  induction h with
  | same =>
      exact fun _ hsplit => ⟨_, hsplit, List.forall₂_same.mpr fun _ _ => ⟨rfl, rfl, rfl, rfl, rfl⟩⟩
  | @headers l w w' v v' m hs hs' hline hhead hv =>
      intro unread rs hb hsplit
      exact absurd hsplit (not_splitInto_headers hb hline (hhead.run Response.push hv m m).1)
  | @body l w w' v m hs hs' hline hhead hbody hK =>
      intro unread rs hb hsplit
      have hb' := ne_nil_of_sameLetters
        ((SameLetters.refl l).append (hhead.sameLetters (.refl _))) hb
      obtain ⟨hline', hrun, hrun'⟩ := hhead.both lineFound Response.push (.refl _) hline
      obtain ⟨k, hk, hlt⟩ := announces_of_waiting hbody
      obtain ⟨n, n', hn, hn', hsize⟩ := hK
      obtain rfl := hk.unique hn
      obtain rfl := (splitInto_short hb hline hrun hn hlt).mp hsplit
      refine ⟨[filled m hs' []], ?_, .cons (sameResponse_filled hhead.values []) .nil⟩
      by_cases hlt' : v.length < n'
      · exact (splitInto_short hb' hline' hrun' hn' hlt').mpr rfl
      · obtain rfl : v = [] := by
          rw [← List.length_eq_zero_iff]
          omega
        exact (splitInto_nothing hb' hline' hrun' hn').mpr rfl
  | @message l w w' body rest rest' m hs hs' hline hhead hbody hK hrest ih =>
      intro unread rs hb hsplit
      have hletters := hrest.sameLetters
      have hv : SameLetters (body ++ rest) (body ++ rest') := (SameLetters.refl _).append hletters
      have hb' := ne_nil_of_sameLetters ((SameLetters.refl l).append (hhead.sameLetters hv)) hb
      obtain ⟨hline', hrun, hrun'⟩ := hhead.both lineFound Response.push hv hline
      have hk := announces_of_findBody hbody
      obtain ⟨n, n', hn, hn', hsize⟩ := hK
      obtain rfl := hk.unique hn
      obtain ⟨later, rfl, hlater⟩ := (splitInto_whole hb hline hrun hk).mp hsplit
      have hnil : rest = [] ↔ rest' = [] := hletters.eq_nil_iff
      by_cases hsame : body.length = n'
      · subst hsame
        by_cases hrest : rest = []
        · rw [if_pos hrest] at hlater
          subst hlater
          refine ⟨[filled m hs' body], ?_, .cons (sameResponse_filled hhead.values body) .nil⟩
          refine (splitInto_whole hb' hline' hrun' hn').mpr ⟨[], rfl, ?_⟩
          rw [if_pos (hnil.mp hrest)]
        · rw [if_neg hrest] at hlater
          obtain ⟨later', hlater', hall⟩ := ih (fun _ => hrest) hlater
          refine ⟨filled m hs' body :: later', ?_,
            .cons (sameResponse_filled hhead.values body) hall⟩
          refine (splitInto_whole hb' hline' hrun' hn').mpr ⟨later', rfl, ?_⟩
          rw [if_neg fun h => hrest (hnil.mpr h)]
          exact hlater'
      · -- other sizes for a body that is empty, with nothing behind it
        obtain ⟨rfl, rfl⟩ : body = [] ∧ rest = [] := by
          rw [← List.append_eq_nil_iff, ← List.length_eq_zero_iff]
          rw [List.length_append] at hsize ⊢
          omega
        obtain rfl := hnil.mp rfl
        rw [if_pos rfl] at hlater
        subst hlater
        refine ⟨[filled m hs' []], ?_, .cons (sameResponse_filled hhead.values []) .nil⟩
        exact (splitInto_nothing hb' hline' hrun' hn').mpr rfl

/-- Where the responses are the same, the same sizes are announced. -/
lemma recased_of_sameResponses (h : Recased extractResponse (fun _ _ _ => True) b b') :
    ∀ {unread : Bool} {rs : List Damon.Response}, (unread = false → b ≠ []) →
      SplitInto unread b rs → SameResponses unread b' rs →
        Recased extractResponse SameBody b b' := by
  induction h with
  | same b => exact fun _ _ _ => .same b
  | headers hline hhead hv => exact fun _ _ _ => .headers hline hhead hv
  | @body l w w' v m hs hs' hline hhead hbody _ =>
      rintro unread rs hb hsplit ⟨rs', hsplit', hsame⟩
      have hb' := ne_nil_of_sameLetters
        ((SameLetters.refl l).append (hhead.sameLetters (.refl _))) hb
      obtain ⟨hline', hrun, hrun'⟩ := hhead.both lineFound Response.push (.refl _) hline
      obtain ⟨n, hn, hlt⟩ := announces_of_waiting hbody
      obtain rfl := (splitInto_short hb hline hrun hn hlt).mp hsplit
      refine .body hline hhead hbody ?_
      cases hbody' : findBody hs' v with
      | error f => exact absurd hsplit' (not_splitInto_error hb' hline' hrun' hbody')
      | ok found =>
          obtain ⟨n', hn'⟩ := exists_announces hbody'
          refine ⟨n, n', hn, hn', ?_⟩
          by_cases hlt' : v.length < n'
          · exact .inr (.inl ⟨hlt, hlt'⟩)
          -- the second body is empty, too, and nothing is left behind it
          obtain ⟨later, rfl, hlater⟩ := (splitInto_message hb' hline' hrun' hn').mp hsplit'
          obtain ⟨hfirst, htail⟩ := List.forall₂_cons.mp hsame
          obtain rfl := List.forall₂_nil_left_iff.mp htail
          have htake : v.take n' = [] := by
            have := hfirst.body
            simpa only [filled, if_neg hlt', eq_comm] using this
          have hdrop : v.drop n' = [] := by
            by_contra hne
            rw [if_neg (not_or.mpr ⟨hlt', hne⟩)] at hlater
            exact hlater.ne_nil rfl
          have hnil : v = [] := by
            rw [← List.take_append_drop n' v, htake, hdrop, List.append_nil]
          exact .inr (.inr (by rw [hnil, List.length_nil]))
  | @message l w w' body rest rest' m hs hs' hline hhead hbody _ hrest ih =>
      rintro unread rs hb hsplit ⟨rs', hsplit', hsame⟩
      have hletters := hrest.sameLetters
      have hv : SameLetters (body ++ rest) (body ++ rest') := (SameLetters.refl _).append hletters
      have hb' := ne_nil_of_sameLetters ((SameLetters.refl l).append (hhead.sameLetters hv)) hb
      obtain ⟨hline', hrun, hrun'⟩ := hhead.both lineFound Response.push hv hline
      have hn := announces_of_findBody hbody
      have hnil : rest = [] ↔ rest' = [] := hletters.eq_nil_iff
      obtain ⟨later, rfl, hlater⟩ := (splitInto_whole hb hline hrun hn).mp hsplit
      cases hbody' : findBody hs' (body ++ rest') with
      | error f => exact absurd hsplit' (not_splitInto_error hb' hline' hrun' hbody')
      | ok found =>
          obtain ⟨n', hn'⟩ := exists_announces hbody'
          by_cases hsize : n' = body.length
          · subst hsize
            obtain ⟨later', rfl, hlater'⟩ := (splitInto_whole hb' hline' hrun' hn').mp hsplit'
            refine .message hline hhead hbody ⟨_, _, hn, hn', .inl rfl⟩ ?_
            by_cases hrest : rest = []
            · rw [hrest, hnil.mp hrest]
              exact .same []
            · rw [if_neg hrest] at hlater
              rw [if_neg fun h => hrest (hnil.mpr h)] at hlater'
              exact ih (fun _ => hrest) hlater ⟨later', hlater', (List.forall₂_cons.mp hsame).2⟩
          · -- the same body in spite of another size: it is missing, and empty
            obtain ⟨later', rfl, hlater'⟩ := (splitInto_message hb' hline' hrun' hn').mp hsplit'
            obtain ⟨hfirst, htail⟩ := List.forall₂_cons.mp hsame
            have hshort : (body ++ rest').length < n' := by
              by_contra hge
              have hlength := congrArg List.length hfirst.body
              simp only [filled, if_neg hge, List.length_take] at hlength
              omega
            obtain rfl : body = [] := by
              have := hfirst.body
              simpa only [filled, if_pos hshort] using this
            rw [if_pos (.inl hshort)] at hlater'
            subst hlater'
            obtain rfl := List.forall₂_nil_right_iff.mp htail
            have hrest : rest = [] := by
              by_contra hne
              rw [if_neg hne] at hlater
              exact hlater.ne_nil rfl
            subst hrest
            obtain rfl := hnil.mp rfl
            exact .message hline hhead hbody ⟨_, _, hn, hn', .inr (.inr rfl)⟩ (.same [])

/-- **Two spellings are split into the same responses** if and only if the headers of every response
announce the same size in both, or there is nothing behind the headers. -/
theorem sameResponses_iff (h : Recased extractResponse (fun _ _ _ => True) b b')
    (hsplit : SplitInto true b rs) :
    SameResponses true b' rs ↔ Recased extractResponse SameBody b b' :=
  ⟨recased_of_sameResponses h (by simp) hsplit,
    fun hsame => sameResponses_of_recased hsame (by simp) hsplit⟩

end Spellings

end Arachnida
