import Arachnida.Acari.NameCase
import Arachnida.Spin.RequestReader

/-!
The requests in two spellings of a stream that arrives in one read.

* `split`: the requests in a stream and the exception, if there is one; `onDataReady_split`: that is
  what `onDataReady` makes of it.
* `split_message`: the requests behind a first line and its headers.
* `sameSplit_iff`: **two spellings are split into the same requests exactly if their headers
  announce the same sizes.**
-/

namespace Arachnida.Spin

open Library Acari

/-- The requests in a stream, and the exception. -/
def split (b : Bytes) : List Request × Option Failure := requests.outcome ⟨none, b, false⟩

/-- A call of `onDataReady` with nothing saved. -/
lemma onDataReady_split (b : Bytes) :
    ((onDataReady none b).handled, (onDataReady none b).thrown) = split b := by
  have hsound : (HandlerState.mk none b false []).Sound := ⟨by simp, by simp, by simp⟩
  have hread := onDataReady_read hsound
  have hempty : (none : Option Saved).getD .empty = Saved.empty := rfl
  rw [Reads, hempty, Saved.empty, Saved.append_mk, List.nil_append, List.nil_append] at hread
  obtain ⟨hhandled, hrest⟩ := hread
  rw [split, Reader.outcome, Reader.outcomeOf, hhandled]
  cases hr : (requests.read ⟨none, b, false⟩).2 with
  | error f => rw [hr] at hrest; rw [hrest.1]
  | ok s => rw [hr] at hrest; rw [hrest.1]

/-- A first line makes a request without headers and without a body. -/
lemma extractRequest_new {b w : Bytes} {request : Request}
    (h : extractRequest b = .ok (some request, w)) :
    request.header_fields_ = [] ∧ request.body_ = [] := by
  have hnew : ∃ m u p, request = .new m u p := by
    simp only [extractRequest, extractRequestHeader] at h
    grind
  obtain ⟨m, u, p, rfl⟩ := hnew
  exact ⟨rfl, rfl⟩

lemma lineFound : LineFound extractRequest := extractRequestHeader_lineFound _ _

section Line

variable {b w v : Bytes} {m : Request} {hs : List Header} {eob : Bool}
  (hline : extractRequest b = .ok (some m, w))
include hline

/-- The headers are not complete. -/
lemma split_headers (hrun : (headerLoop Request.push).run ⟨m, w, false⟩
    = .ok (⟨hs.foldl Request.push m, v, false⟩, eob)) : split b = ([], none) := by
  have hstep : requests.step ⟨none, b, false⟩
      = .waiting ⟨some (hs.foldl Request.push m), v, false⟩ := by
    simp only [requests, requestStep, readLine, hline, readHead, hrun, Bool.false_eq_true, if_false]
  rw [split, Reader.outcome, requests.read_waiting hstep]
  rfl

section Complete

variable (hrun : (headerLoop Request.push).run ⟨m, w, false⟩
    = .ok (⟨hs.foldl Request.push m, v, true⟩, eob))
include hrun

/-- The headers announce no size. -/
lemma split_error {f : Failure} (hbody : findBody hs v = .error f) : split b = ([], some f) := by
  have hheaders := (extractRequest_new hline).1
  have hstep : requests.step ⟨none, b, false⟩ = .failed f := by
    simp only [requests, requestStep, readLine, hline, readHead, hrun, if_true, readBody,
      Request.foldl_push, hheaders, List.nil_append, hbody]
  rw [split, Reader.outcome, requests.read_failed hstep]
  rfl

/-- The headers announce a size, and the body is there or is not. -/
lemma split_message {n : ℕ} (hn : Announces hs n) : split b = if v.length < n then ([], none) else
    ({ m with header_fields_ := hs, body_ := v.take n } :: (split (v.drop n)).1,
      (split (v.drop n)).2) := by
  obtain ⟨hheaders, hbody⟩ := extractRequest_new hline
  have hstep : requests.step ⟨none, b, false⟩
      = if v.length < n then .waiting ⟨some (hs.foldl Request.push m), v, true⟩ else
        .complete { m with header_fields_ := hs, body_ := v.take n } ⟨none, v.drop n, false⟩ := by
    simp only [requests, requestStep, readLine, hline, readHead, hrun, if_true, readBody,
      Request.foldl_push, hheaders, List.nil_append, hn.findBody, hbody]
    split_ifs <;> rfl
  split_ifs at hstep ⊢ with hlt
  · rw [split, Reader.outcome, requests.read_waiting hstep]
    rfl
  · rw [split, Reader.outcome, requests.read_complete hstep]
    rfl

end Complete

end Line

/-! ### Two spellings -/

/-- The same request up to the names of its headers. -/
structure SameRequest (r r' : Request) : Prop where
  method : r.method_ = r'.method_
  url : r.url_ = r'.url_
  values : r.header_fields_.map Header.value_ = r'.header_fields_.map Header.value_
  body : r.body_ = r'.body_

/-- The same requests, and no exception in the second spelling. -/
def SameSplit (p p' : List Request × Option Failure) : Prop :=
  List.Forall₂ SameRequest p.1 p'.1 ∧ p'.2 = none

/-- The headers announce the same size, or more than is there. -/
def SameSize (hs hs' : List Header) (available : ℕ) : Prop :=
  ∃ n n', Announces hs n ∧ Announces hs' n' ∧ (n = n' ∨ available < n ∧ available < n')

lemma SameSplit.refl {p : List Request × Option Failure} (h : p.2 = none) : SameSplit p p :=
  ⟨List.forall₂_same.mpr fun _ _ => ⟨rfl, rfl, rfl, rfl⟩, h⟩

/-- A message with its body, and what is behind it. -/
lemma split_whole {b w body rest : Bytes} {m : Request} {hs : List Header} {eob : Bool}
    (hline : extractRequest b = .ok (some m, w))
    (hrun : (headerLoop Request.push).run ⟨m, w, false⟩
      = .ok (⟨hs.foldl Request.push m, body ++ rest, true⟩, eob))
    (hn : Announces hs body.length) :
    split b
      = ({ m with header_fields_ := hs, body_ := body } :: (split rest).1, (split rest).2) := by
  rw [split_message hline hrun hn, if_neg (by simp), List.take_left, List.drop_left]

section Spellings

variable {b b' : Bytes}

/-- Where the same sizes are announced, the requests are the same. -/
lemma sameSplit_of_recased (h : Recased extractRequest SameSize b b') (hb : (split b).2 = none) :
    SameSplit (split b) (split b') := by
  induction h with
  | same => exact .refl hb
  | headers hline hhead hv =>
      obtain ⟨hline', hrun, hrun'⟩ := hhead.both lineFound Request.push hv hline
      rw [split_headers hline hrun, split_headers hline' hrun']
      exact .refl rfl
  | body hline hhead hbody hK =>
      obtain ⟨hline', hrun, hrun'⟩ := hhead.both lineFound Request.push (.refl _) hline
      obtain ⟨k, hk, hlt⟩ := announces_of_waiting hbody
      obtain ⟨n, n', hn, hn', hsize⟩ := hK
      obtain rfl := hk.unique hn
      rw [split_message hline hrun hn, split_message hline' hrun' hn', if_pos hlt,
        if_pos (by omega)]
      exact .refl rfl
  | @message l w w' body rest rest' m hs hs' hline hhead hbody hK hrest ih =>
      have hv : SameLetters (body ++ rest) (body ++ rest') :=
        (SameLetters.refl _).append hrest.sameLetters
      obtain ⟨hline', hrun, hrun'⟩ := hhead.both lineFound Request.push hv hline
      have hk := announces_of_findBody hbody
      obtain ⟨n, n', hn, hn', hsize⟩ := hK
      obtain rfl := hk.unique hn
      obtain rfl : body.length = n' := by
        rw [List.length_append] at hsize
        omega
      rw [split_whole hline hrun hk] at hb ⊢
      rw [split_whole hline' hrun' hn']
      obtain ⟨hall, hnone⟩ := ih hb
      exact ⟨.cons ⟨rfl, rfl, hhead.values, rfl⟩ hall, hnone⟩

/-- Where the requests are the same, the same sizes are announced. -/
lemma recased_of_sameSplit (h : Recased extractRequest (fun _ _ _ => True) b b')
    (hb : (split b).2 = none) (hsame : SameSplit (split b) (split b')) :
    Recased extractRequest SameSize b b' := by
  induction h with
  | same b => exact .same b
  | headers hline hhead hv => exact .headers hline hhead hv
  | @body l w w' v m hs hs' hline hhead hbody =>
      refine .body hline hhead hbody ?_
      obtain ⟨hline', hrun, hrun'⟩ := hhead.both lineFound Request.push (.refl _) hline
      obtain ⟨n, hn, hlt⟩ := announces_of_waiting hbody
      rw [split_message hline hrun hn, if_pos hlt] at hsame
      cases hbody' : findBody hs' v with
      | error f =>
          rw [split_error hline' hrun' hbody'] at hsame
          cases hsame.2
      | ok found =>
          obtain ⟨n', hn'⟩ := exists_announces hbody'
          rw [split_message hline' hrun' hn'] at hsame
          refine ⟨n, n', hn, hn', .inr ⟨hlt, ?_⟩⟩
          by_contra hge
          rw [if_neg hge] at hsame
          cases hsame.1
  | @message l w w' body rest rest' m hs hs' hline hhead hbody _ hrest ih =>
      have hv : SameLetters (body ++ rest) (body ++ rest') :=
        (SameLetters.refl _).append hrest.sameLetters
      obtain ⟨hline', hrun, hrun'⟩ := hhead.both lineFound Request.push hv hline
      have hn := announces_of_findBody hbody
      rw [split_whole hline hrun hn] at hb hsame
      cases hbody' : findBody hs' (body ++ rest') with
      | error f =>
          rw [split_error hline' hrun' hbody'] at hsame
          cases hsame.2
      | ok found =>
          obtain ⟨n', hn'⟩ := exists_announces hbody'
          -- the bodies are the same, and so are their sizes
          obtain rfl : n' = body.length := by
            rw [split_message hline' hrun' hn'] at hsame
            split_ifs at hsame with hlt
            · cases hsame.1
            · obtain ⟨hfirst, -⟩ := List.forall₂_cons.mp hsame.1
              have hlength := congrArg List.length hfirst.body
              simp only [List.length_take] at hlength
              omega
          rw [split_whole hline' hrun' hn'] at hsame
          obtain ⟨-, hall⟩ := List.forall₂_cons.mp hsame.1
          exact .message hline hhead hbody ⟨_, _, hn, hn', .inl rfl⟩ (ih hb ⟨hall, hsame.2⟩)

/-- **Two spellings are split into the same requests** if and only if the headers of every message
announce the same size in both. -/
theorem sameSplit_iff (h : Recased extractRequest (fun _ _ _ => True) b b')
    (hb : (split b).2 = none) :
    SameSplit (split b) (split b') ↔ Recased extractRequest SameSize b b' :=
  ⟨recased_of_sameSplit h hb, fun hsame => sameSplit_of_recased hsame hb⟩

end Spellings

end Arachnida.Spin
