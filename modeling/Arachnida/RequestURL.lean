import Arachnida.RequestPipeline
import Arachnida.Acari.StartLine
import Arachnida.Acari.UrlEncode
import Arachnida.Damon.ConnectionTarget

/-!
The URL of a request, as the client writes it and as the server reads it.

* `Survives`: the server finds the same method, and a URL that is decoded to the same.
* `survives_iff`: it does exactly when there is no white space in the resource; `serialize` does not
  encode it (`survives_fails`).
* `url_survives_iff`: the same for the URL as a whole, which is also written into the `Host` header.
-/

namespace Arachnida

open Library Acari Spin

/-- The server reads the client's method and protocol from the request line, and a URL that is
decoded to the same bytes as the resource. -/
def Survives (request : Damon.Request) (u : Damon.ParsedURL) : Prop :=
  ∃ b url k, request.serialize = .ok b ∧
    extractRequest b = .ok (some (Request.new request.method_.word url (bytes "HTTP/1.1")), k) ∧
    urldecode url = urldecode u.resource

/-- No line is begun by the headers that the client adds to those of the request. -/
def NoLineAdded (request : Damon.Request) (u : Damon.ParsedURL) : Prop :=
  ∀ h ∈ (request.writtenHeaders u).drop request.header_fields_.length, OneLine h.value_

section

variable {request : Damon.Request} {u : Damon.ParsedURL}

/-- The bytes of a request, up to the end of its first line. -/
lemma serialize_line (hu : Damon.parseURL request.url_ = .ok u) :
    request.serialize = .ok (request.method_.word ++ 32 :: (u.resource ++ 32 ::
      (bytes "HTTP/1.1" ++ 13 :: 10 :: ((request.writtenHeaders u).flatMap headerLine
        ++ bytes "\r\n" ++ request.body_)))) := by
  have hspace : bytes " " = [32] := by decide
  have hproto : bytes " HTTP/1.1\r\n" = 32 :: (bytes "HTTP/1.1" ++ [13, 10]) := by decide
  rw [Damon.Request.serialize, hu, hspace, hproto]
  simp

lemma isWord_word (m : Damon.Method) : IsWord m.word := by
  cases m <;> decide

/-- **A resource without white space survives**, and nothing of it is left behind the line. -/
lemma survives_of_word (hu : Damon.parseURL request.url_ = .ok u)
    (hword : ∀ c ∈ u.resource, isIgnorableWhiteSpace c = false) :
    Survives request u := by
  have hres : IsWord u.resource := ⟨(Damon.parseURL_resource hu).1, hword⟩
  exact ⟨_, u.resource, _, serialize_line hu, extractRequestHeader_line Request.new
    (isWord_word request.method_) (supported_word request.method_) hres (.inr rfl) _, rfl⟩

/-- The first word of a text. -/
lemma takeWhile_word {s w l : Bytes} (hs : ∀ c ∈ s, isIgnorableWhiteSpace c = true)
    (hw : IsWord w) (hl : Stops (fun c => !isIgnorableWhiteSpace c) l) :
    (advanceThroughIgnorableWhiteSpace (s ++ (w ++ l))).takeWhile
      (fun c => !isIgnorableWhiteSpace c) = w := by
  have hstop : Stops isIgnorableWhiteSpace w := stops_of_all hw.2
  have hskip : advanceThroughIgnorableWhiteSpace (s ++ (w ++ l)) = w ++ l :=
    dropWhile_append_stops hs (hstop.append hw.1 l)
  rw [hskip, takeWhile_append_stops (fun c hc => by simp [hw.2 c hc]) hl]

/-- What the server takes for the URL is the word behind the method. -/
lemma word_behind_method {method rest k url : Bytes} (hm : IsWord method)
    (h : extractRequest (method ++ 32 :: rest)
      = .ok (some (Request.new method url (bytes "HTTP/1.1")), k)) :
    (advanceThroughIgnorableWhiteSpace rest).takeWhile (fun c => !isIgnorableWhiteSpace c)
      = url := by
  obtain ⟨method', space, url', space', protocol, htext, hm', hs, hu, hs', -, -, -, -, hrequest⟩ :=
    exists_requestLine h
  obtain ⟨hurl, rfl⟩ : url = url' ∧ method = method' := by
    simp only [Request.new, Request.mk.injEq] at hrequest
    exact ⟨hrequest.2.1, hrequest.1⟩
  rw [(hm.scanned (by decide) rest).1] at htext
  have hrest := List.append_cancel_left htext
  rw [← advanceThroughIgnorableWhiteSpace_space, hrest, hurl]
  exact takeWhile_word hs.2 hu (hs'.stops _)

/-- **A resource with white space does not survive.** -/
lemma word_of_survives (hu : Damon.parseURL request.url_ = .ok u) (h : Survives request u) :
    ∀ c ∈ u.resource, isIgnorableWhiteSpace c = false := by
  obtain ⟨b, url, k, hb, hline, hdecode⟩ := h
  obtain rfl := Except.ok.inj ((serialize_line hu).symm.trans hb)
  have hurl := word_behind_method (isWord_word request.method_) hline
  obtain ⟨s, l, hl, hs, hstop⟩ := exists_run isIgnorableWhiteSpace u.resource
  obtain ⟨w, t, rfl, hw, hstop'⟩ := exists_run (fun c => !isIgnorableWhiteSpace c) l
  have hspace : ∀ x, Stops (fun c => !isIgnorableWhiteSpace c) (32 :: x) := fun x => rfl
  by_cases hne : w = []
  · -- nothing but white space: the protocol is taken for the URL
    subst hne
    obtain rfl : t = [] := eq_nil_of_stops_not hstop hstop'
    rw [List.append_nil, List.append_nil] at hl
    have hs' : ∀ c ∈ s ++ [32], isIgnorableWhiteSpace c = true := by
      intro c hc
      rcases List.mem_append.mp hc with hc | hc
      · exact hs c hc
      · rw [List.mem_singleton.mp hc]
        rfl
    have hprotocol := takeWhile_word hs' (by decide : IsWord (bytes "HTTP/1.1"))
      (l := 13 :: 10 :: ((request.writtenHeaders u).flatMap headerLine ++ bytes "\r\n"
        ++ request.body_)) rfl
    rw [List.append_assoc, List.singleton_append, ← hl, hurl] at hprotocol
    have hlit : urldecode (bytes "HTTP/1.1") = bytes "HTTP/1.1" := by decide
    have hall : urldecode s = s := by simpa [urldecode] using urldecode_space hs []
    rw [hl, hall, hprotocol, hlit] at hdecode
    exact absurd (hs 72 (hdecode ▸ by decide)) (by decide)
  · have hword : IsWord w := ⟨hne, fun c hc => by simpa using hw c hc⟩
    rw [hl, List.append_assoc, List.append_assoc, takeWhile_word hs hword] at hurl
    · rw [← hurl, hl] at hdecode
      obtain ⟨rfl, rfl⟩ := eq_nil_of_urldecode_eq hs hstop' hdecode
      rw [hl, List.nil_append, List.append_nil]
      exact hword.2
    · cases t with
      | nil => exact hspace _
      | cons c t => exact hstop'

/-- **A resource survives** exactly when there is no white space in it. -/
theorem survives_iff (hu : Damon.parseURL request.url_ = .ok u) :
    Survives request u ↔ ∀ c ∈ u.resource, isIgnorableWhiteSpace c = false :=
  ⟨word_of_survives hu, survives_of_word hu⟩

/-! ### The headers that the client adds -/

/-- A port has no line end in it. -/
lemma oneLine_host (hu : Damon.parseURL request.url_ = .ok u) :
    OneLine (Damon.extractHost request.url_) ↔ OneLine u.server := by
  obtain ⟨port, hhost, hport⟩ := Damon.extractHost_server hu
  have htext : OneLine (Damon.colonText port) := by
    cases port with
    | none => intro c hc; cases hc
    | some d =>
        refine oneLine_iff.mpr fun c hc => ?_
        rcases List.mem_cons.mp hc with rfl | hc
        · decide
        · have hword := isWord_of_isNumeral (hport d rfl)
          exact oneLine_iff.mp hword.oneLine c hc
  rw [hhost]
  simp only [OneLine, List.mem_append] at htext ⊢
  exact ⟨fun h c hc => h c (.inl hc), fun h c hc => hc.elim (h c) (htext c)⟩

/-- The line of the authorization is the client's own. -/
lemma oneLine_authorization (request : Damon.Request) (u : Damon.ParsedURL) :
    ∀ h ∈ authorizationHeaders request u, OneLine h.value_ :=
  fun h hh => oneLine_iff.mpr fun c hc => by
    simpa using (plain_authorization u h hh).line.value_line c hc

lemma noLineAdded_iff (hu : Damon.parseURL request.url_ = .ok u) :
    NoLineAdded request u
      ↔ (Damon.lacks request.header_fields_ (bytes "Host") → OneLine u.server) := by
  have heq := writtenHeaders_append request u
  generalize hlength : (if Damon.lacks (request.header_fields_ ++ hostHeaders request)
    (bytes "Content-Length") then [contentLengthHeader request.body_] else []) = length at heq
  have hl : ∀ h ∈ length, OneLine h.value_ := by
    rintro h hh
    rw [← hlength] at hh
    split at hh
    · obtain rfl := List.mem_singleton.mp hh
      exact (isWord_of_isNumeral (isNumeral_decimal _)).oneLine
    · cases hh
  rw [NoLineAdded, heq, List.append_assoc, List.drop_left, ← oneLine_host hu, hostHeaders]
  constructor
  · intro h hlacks
    rw [if_pos hlacks] at h
    exact h ⟨bytes "Host", Damon.extractHost request.url_⟩ (by simp)
  · intro h x hx
    rcases List.mem_append.mp hx with hx | hx
    · split at hx
      · next hlacks =>
          obtain rfl := List.mem_singleton.mp hx
          exact h hlacks
      · cases hx
    · exact (List.mem_append.mp hx).elim (hl x) (oneLine_authorization request u x)

/-- **A URL survives** exactly when there is no white space in its resource and, unless the request
has a `Host` header of its own, no line end in its server. -/
theorem url_survives_iff (hu : Damon.parseURL request.url_ = .ok u) :
    Survives request u ∧ NoLineAdded request u
      ↔ (∀ c ∈ u.resource, c ≠ 9 ∧ c ≠ 10 ∧ c ≠ 13 ∧ c ≠ 32) ∧
        (Damon.lacks request.header_fields_ (bytes "Host") → ∀ c ∈ u.server, c ≠ 13 ∧ c ≠ 10) := by
  have hspace : (∀ c ∈ u.resource, isIgnorableWhiteSpace c = false)
      ↔ ∀ c ∈ u.resource, c ≠ 9 ∧ c ≠ 10 ∧ c ≠ 13 ∧ c ≠ 32 := by
    refine forall₂_congr fun c _ => ?_
    simp [isIgnorableWhiteSpace, and_assoc]
  rw [survives_iff hu, noLineAdded_iff hu, hspace]
  rfl

end

theorem url_survives_escaped :
    Survives (Damon.Request.new (bytes "http://127.0.0.1/with%20space"))
        ⟨bytes "http", bytes "127.0.0.1", 80, bytes "/with%20space", [], []⟩ ∧
      NoLineAdded (Damon.Request.new (bytes "http://127.0.0.1/with%20space"))
        ⟨bytes "http", bytes "127.0.0.1", 80, bytes "/with%20space", [], []⟩ :=
  (@url_survives_iff (Damon.Request.new (bytes "http://127.0.0.1/with%20space")) _
    (by decide +kernel)).mpr ⟨by decide, fun _ => by decide⟩

/-- **A space in the URL ends the request line early**: the server finds no protocol that it
supports. -/
theorem url_survives_fails :
    Damon.parseURL (bytes "http://127.0.0.1/with space")
      = .ok ⟨bytes "http", bytes "127.0.0.1", 80, bytes "/with space", [], []⟩ ∧
    (∃ b, (Damon.Request.new (bytes "http://127.0.0.1/with space")).serialize = .ok b ∧
      extractRequest b = .error (.unsupportedProtocol (bytes "space"))) ∧
    ¬ Survives (Damon.Request.new (bytes "http://127.0.0.1/with space"))
        ⟨bytes "http", bytes "127.0.0.1", 80, bytes "/with space", [], []⟩ := by
  have hu : Damon.parseURL (bytes "http://127.0.0.1/with space")
      = .ok ⟨bytes "http", bytes "127.0.0.1", 80, bytes "/with space", [], []⟩ := by
    decide +kernel
  refine ⟨hu, ⟨_, serialize_line hu, rfl⟩, fun h => ?_⟩
  exact absurd (word_of_survives hu h 32 (by decide)) (by decide)

end Arachnida
