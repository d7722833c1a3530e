import Arachnida.Acari.Framing
import Arachnida.Damon.GetResponse
import Arachnida.Spin.RequestReader

/-!
Where a body begins and ends, for the server's parser and for the client's, which share the
header loop.

* `HandsOver`, `Returned`: a message with these headers and this body is delivered and the next
  one starts at `rest`.
* `onDataReadyPass_requestLine`, `getResponse_statusLine`: what the parsers make of the bytes
  behind a first line.
* `body_delivered`: **the body is delivered exactly when it does not begin with white space**,
  in a request and in a response; the version counts besides, and the code and the reason of a
  response.
* `body_white_space`: a body of one space is not.
-/

namespace Arachnida

open Library Acari

/-! ### The server -/

section Server

open Spin

variable {method url protocol : Bytes} {headers : List Header} {body rest : Bytes}

/-- A request as it is written, and the bytes behind it. -/
def requestBytes (method url protocol : Bytes) (headers : List Header)
    (body rest : Bytes) : Bytes :=
  method ++ 32 :: (url ++ 32 :: (protocol ++ tailBytes headers body rest))

/-- A call that finds no attribute and reads `data` hands over first a request with these headers
and this body, and starts on the next request at `rest`. -/
def HandsOver (data : Bytes) (headers : List Header) (body rest : Bytes) : Prop :=
  ∃ request : Request, request.header_fields_ = headers ∧ request.body_ = body ∧
    onDataReadyPass ⟨none, data, false, []⟩
      = if rest = [] then .inr ⟨[request], none, none⟩
        else .inl ⟨some ⟨none, rest, false⟩, [], true, [request]⟩

lemma isWord_of_supported (h : (supportedMethods.lookup method).isSome) : IsWord method := by
  have hmem : method ∈ supportedMethods.map Prod.fst := by
    obtain ⟨p, hp, he⟩ := List.lookup_isSome_iff.mp h
    exact List.mem_map.mpr ⟨p, hp, (eq_of_beq he).symm⟩
  have hall : ∀ w ∈ supportedMethods.map Prod.fst, IsWord w := by decide
  exact hall method hmem

/-- Behind a request line, headers and body are read. -/
lemma readLine_requestLine (hs : (supportedMethods.lookup method).isSome) (hu : IsWord url)
    (hp : protocol = bytes "HTTP/1.0" ∨ protocol = bytes "HTTP/1.1") (headers : List Header)
    (body rest : Bytes) :
    readLine (requestBytes method url protocol headers body rest)
      = readHead (.new method url protocol) (tailBytes headers body rest) := by
  have hline := extractRequestHeader_line Request.new (isWord_of_supported hs) hs hu hp
    (10 :: (headers.flatMap headerLine ++ (bytes "\r\n" ++ (body ++ rest))))
  rw [← tailBytes_cons, ← extractRequest] at hline
  rw [readLine, requestBytes, hline]

/-- The pass over a request that the call finds in its data. -/
lemma onDataReadyPass_requestLine (hs : (supportedMethods.lookup method).isSome) (hu : IsWord url)
    (hp : protocol = bytes "HTTP/1.0" ∨ protocol = bytes "HTTP/1.1") (headers : List Header)
    (body rest : Bytes) :
    onDataReadyPass ⟨none, requestBytes method url protocol headers body rest, false, []⟩
      = HandlerState.continue ⟨none, requestBytes method url protocol headers body rest, false, []⟩
          (readHead (.new method url protocol) (tailBytes headers body rest)) := by
  rw [onDataReadyPass_eq ⟨fun _ => rfl, by simp, by simp⟩]
  simp only [HandlerState.saved, Option.getD_none, Saved.empty, Saved.append_mk, List.nil_append,
    requestStep, readLine_requestLine hs hu hp]

/-- Headers and body of a request, in front of a body that does not begin with white space. -/
lemma readHead_framed (hf : Framed headers body) (hbody : Stops isIgnorableWhiteSpace body)
    (hrest : Stops isIgnorableWhiteSpace rest) :
    readHead (.new method url protocol) (tailBytes headers body rest)
      = if body.length < 2 ^ 64 then
          .complete ⟨method, url, protocol, headers.map Header.trimmed, body⟩ ⟨none, rest, false⟩
        else .failed .badLexicalCast := by
  rw [readHead, hf.read Request.push hbody hrest]
  simp only [if_true, readBody, Request.foldl_push, Request.new, List.nil_append, hf.findBody]
  by_cases hlen : body.length < 2 ^ 64
  · rw [if_pos hlen, if_pos hlen]
  · rw [if_neg hlen, if_neg hlen]

/-- No request with a body that begins with white space is read at once. -/
lemma stops_of_readHead {w : Bytes} {request : Request} {s : Saved}
    (h : readHead (.new method url protocol) w = .complete request s) :
    Stops isIgnorableWhiteSpace request.body_ := by
  rw [readHead] at h
  split at h
  · cases h
  · next t eob hrun =>
      split at h
      · next hfound =>
          obtain ⟨hs, hm⟩ := headerLoop_message Request.push hrun
          rw [Request.foldl_push] at hm
          rw [readBody] at h
          split at h
          · cases h
          · cases h
          · next b r hfind =>
              cases h
              rw [hm]
              exact stops_of_read Request.push hrun hfound hfind
      · cases h

/-- The body of a request of a supported version. -/
lemma handsOver_iff_of_version (hs : (supportedMethods.lookup method).isSome) (hu : IsWord url)
    (hp : protocol = bytes "HTTP/1.0" ∨ protocol = bytes "HTTP/1.1") (hf : Framed headers body)
    (hrest : Stops isIgnorableWhiteSpace rest) :
    HandsOver (requestBytes method url protocol headers body rest) (headers.map Header.trimmed) body
      rest ↔ Stops isIgnorableWhiteSpace body ∧ body.length < 2 ^ 64 := by
  rw [HandsOver, onDataReadyPass_requestLine hs hu hp]
  constructor
  · rintro ⟨request, _, hbody, hpass⟩
    have hstop : Stops isIgnorableWhiteSpace body := by
      cases hread : readHead (.new method url protocol) (tailBytes headers body rest) with
      | failed f => rw [hread] at hpass; split at hpass <;> simp [HandlerState.continue] at hpass
      | waiting s => rw [hread] at hpass; split at hpass <;> simp [HandlerState.continue] at hpass
      | complete r s =>
          have hr : r = request := by
            rw [hread] at hpass
            simp only [HandlerState.continue] at hpass
            split at hpass <;> split at hpass <;> simp_all
          rw [← hbody, ← hr]
          exact stops_of_readHead hread
    refine ⟨hstop, ?_⟩
    by_contra hlen
    rw [readHead_framed hf hstop hrest, if_neg hlen] at hpass
    split at hpass <;> simp [HandlerState.continue] at hpass
  · rintro ⟨hstop, hlen⟩
    refine ⟨⟨method, url, protocol, headers.map Header.trimmed, body⟩, rfl, rfl, ?_⟩
    rw [readHead_framed hf hstop hrest, if_pos hlen]
    by_cases hr : rest = [] <;> simp [HandlerState.continue, hr]

/-- A request line that is refused. -/
lemma not_handsOver_of_error {data : Bytes} {f : Failure} {hs : List Header}
    (hline : extractRequest data = .error f) : ¬ HandsOver data hs body rest := by
  rintro ⟨request, -, -, hpass⟩
  rw [onDataReadyPass_eq ⟨fun _ => rfl, by simp, by simp⟩] at hpass
  simp only [HandlerState.saved, Option.getD_none, Saved.empty, Saved.append_mk, List.nil_append,
    requestStep, readLine, hline, HandlerState.continue] at hpass
  split at hpass <;> simp at hpass

/-- **The body of a request.** -/
lemma handsOver_iff (hs : (supportedMethods.lookup method).isSome) (hu : IsWord url)
    (hp : IsWord protocol) (hf : Framed headers body) (hrest : Stops isIgnorableWhiteSpace rest) :
    HandsOver (requestBytes method url protocol headers body rest) (headers.map Header.trimmed) body
      rest ↔ (protocol = bytes "HTTP/1.0" ∨ protocol = bytes "HTTP/1.1") ∧
        Stops isIgnorableWhiteSpace body ∧ body.length < 2 ^ 64 := by
  by_cases hversion : protocol = bytes "HTTP/1.0" ∨ protocol = bytes "HTTP/1.1"
  · rw [handsOver_iff_of_version hs hu hversion hf hrest, and_iff_right hversion]
  · have hline : extractRequest (requestBytes method url protocol headers body rest)
        = .error (.unsupportedProtocol protocol) := by
      rw [requestBytes, tailBytes_cons, extractRequest,
        extractRequestHeader_version Request.new (isWord_of_supported hs) hs hu hp,
        if_pos (not_or.mp hversion)]
    exact iff_of_false (not_handsOver_of_error hline) fun h => hversion h.1

end Server

/-! ### The client -/

section Client

open Damon

variable {E : Type*} (P : Peer E) {protocol code reason : Bytes} {headers : List Header}
  {body rest : Bytes} {peer peer' : E}

/-- A response as it is written, and the bytes behind it. -/
def responseBytes (protocol code reason : Bytes) (headers : List Header) (body rest : Bytes) :
    Bytes :=
  protocol ++ 32 :: (code ++ 32 :: (reason ++ tailBytes headers body rest))

/-- A call that finds no attribute returns a response with these headers and this body, without
more than one read, and leaves the bytes from `rest` on for the next call. -/
def Returned (headers : List Header) (body rest : Bytes) (peer peer' : E) : Prop :=
  ∃ response : Response, response.header_fields_ = headers ∧ response.body_ = body ∧
    GetResponse P .empty peer
      ⟨.ok response, if rest = [] then .empty else .four none rest false false, peer'⟩

/-- A call whose first read contains the status line: with the response of that line it goes
through the headers, and it ends if they do. -/
lemma getResponse_statusLine {data w : Bytes} {n : ℕ} {response : Response}
    (hread : P.read peer = (.ok (data, n), peer')) (hn : Expected n)
    (hline : extractResponse data = .ok (some response, w)) (result : CallResult E) :
    GetResponse P .empty peer result ↔
      (∃ f, (headerLoop Response.push).run ⟨response, w, false⟩ = .error f ∧
        result = ⟨.error (.parsing f), .empty, peer'⟩) ∨
      ∃ s eob, (headerLoop Response.push).run ⟨response, w, false⟩ = .ok (s, eob) ∧
        s.end_of_headers_found = true ∧
        result = finish ⟨some s.message, s.where_, true⟩ eob peer' := by
  have hfirst : getFirst P ⟨.empty, false, peer⟩ = (.ok ⟨some response, w, false⟩, peer') := by
    simp [getFirst, newResponse, fillBuffer, readInto, hread, hn, hline]
  have hhead : readHeaders ⟨some response, w, false⟩
      = ((headerLoop Response.push).run ⟨response, w, false⟩).map fun r =>
          (⟨some r.1.message, r.1.where_, r.1.end_of_headers_found⟩, r.2) := by
    simp only [readHeaders]
    cases (headerLoop Response.push).run ⟨response, w, false⟩ <;> rfl
  cases hrun : (headerLoop Response.push).run ⟨response, w, false⟩ with
  | error f =>
      rw [hrun] at hhead
      have hpass : getResponsePass P ⟨.empty, false, peer⟩
          = .inr ⟨.error (.parsing f), .empty, peer'⟩ := by
        simp only [getResponsePass, hfirst, hhead, Except.map]
      constructor
      · exact fun h => .inl ⟨f, rfl, GetResponse.deterministic P h (returns_of_inr hpass)⟩
      · rintro (⟨f', hf', rfl⟩ | ⟨s, eob, hs, _⟩)
        · cases hf'
          exact returns_of_inr hpass
        · cases hs
  | ok r =>
      obtain ⟨s, eob⟩ := r
      rw [hrun] at hhead
      cases hfound : s.end_of_headers_found with
      | true =>
          have hpass : getResponsePass P ⟨.empty, false, peer⟩
              = .inr (finish ⟨some s.message, s.where_, true⟩ eob peer') := by
            simp only [getResponsePass, hfirst, hhead, Except.map, hfound, if_true]
          constructor
          · exact fun h => .inr ⟨s, eob, rfl, hfound, GetResponse.deterministic P h
              (returns_of_inr hpass)⟩
          · rintro (⟨f, hf, _⟩ | ⟨s', eob', hs', _, rfl⟩)
            · cases hf
            · cases hs'
              exact returns_of_inr hpass
      | false =>
          -- the call never ends
          have hpass : getResponsePass P ⟨.empty, false, peer⟩
              = .inl ⟨.four (some s.message) s.where_ false eob, true, peer'⟩ := by
            simp only [getResponsePass, hfirst, hhead, Except.map, hfound, Bool.false_eq_true,
              if_false]
          constructor
          · intro h
            obtain ⟨heob, _⟩ := headerLoop_settled Response.push hrun hfound
            rcases Returns.elim h with h | ⟨t, ht, hr⟩
            · cases hpass.symm.trans h
            · obtain rfl := Sum.inl.inj (ht.symm.trans hpass)
              subst heob
              exact absurd hr (getResponsePass_stuck P hrun hfound peer' result)
          · rintro (⟨f, hf, _⟩ | ⟨s', eob', hs', hfound', _⟩)
            · cases hf
            · cases hs'
              rw [hfound] at hfound'
              cases hfound'

/-- What the call returns, if it returns a response with the whole body. -/
lemma finish_body {m : Response} {w : Bytes} {eob : Bool} {response : Response}
    {left : Attribute} (hleft : ∀ r b found, left ≠ .three r b found)
    (h : (⟨.ok response, left, peer'⟩ : CallResult E) = finish ⟨some m, w, true⟩ eob peer') :
    response.header_fields_ = m.header_fields_ ∧
      ∃ b r, findBody m.header_fields_ w = .ok (some (b, r)) ∧ response.body_ = m.body_ ++ b := by
  simp only [finish] at h
  split at h
  · cases h
  · exact absurd (congrArg CallResult.connection_attribute h) (hleft _ _ _)
  · next b r hfind => cases h; exact ⟨rfl, b, r, hfind, rfl⟩

lemma extractResponse_statusLine {n : ℕ} {space reason : Bytes}
    (hp : protocol = bytes "HTTP/1.0" ∨ protocol = bytes "HTTP/1.1") (hc : IsNumeral code)
    (hn : lexicalCast 32 code = some n) (hs : ∀ c ∈ space, isIgnorableWhiteSpace c = true)
    (hr : reason ≠ []) (hstart : Stops isIgnorableWhiteSpace reason)
    (hline : ∀ c ∈ reason, isNewLine c = false) (headers : List Header) (body rest : Bytes) :
    extractResponse (protocol ++ 32 ::
      (code ++ 32 :: (space ++ (reason ++ tailBytes headers body rest))))
      = .ok (some (.new protocol n reason), tailBytes headers body rest) := by
  rw [tailBytes_cons]
  exact extractResponseHeader_line Response.new hp (isWord_of_isNumeral hc) hn hs hr hstart hline _

/-- A response that is returned with its whole body was read from the bytes behind its status
line, and its body does not begin with white space. -/
lemma Returned.elim {data w : Bytes} {n reads : ℕ} {protocol reason : Bytes}
    (hread : P.read peer = (.ok (data, reads), peer')) (hreads : Expected reads)
    (hline : extractResponse data = .ok (some (.new protocol n reason), w)) {hs : List Header}
    (h : Returned P hs body rest peer peer') :
    Stops isIgnorableWhiteSpace body ∧
      ∃ s eob, (headerLoop Response.push).run ⟨.new protocol n reason, w, false⟩ = .ok (s, eob) ∧
        s.message.header_fields_ = hs ∧ ∃ r, findBody hs s.where_ = .ok (some (body, r)) := by
  obtain ⟨response, rfl, hbody, hcall⟩ := h
  rw [getResponse_statusLine P hread hreads hline] at hcall
  rcases hcall with ⟨f, _, hf⟩ | ⟨s, eob, hrun, hfound, hfinish⟩
  · cases hf
  · obtain ⟨hfields, b, r, hfind, hb⟩ := finish_body (by split <;> simp) hfinish
    obtain ⟨pushed, hm⟩ := headerLoop_message Response.push hrun
    rw [Response.foldl_push] at hm
    have hempty : s.message.body_ = [] := by rw [hm]; rfl
    obtain rfl : b = body := by rw [← hbody, hb, hempty, List.nil_append]
    exact ⟨stops_of_read Response.push hrun hfound hfind, s, eob, hrun, hfields.symm, r,
      hfields ▸ hfind⟩

/-- A status line with something behind its code: the first thing there that is not white space is
the reason, or the first header if the reason is blank. -/
lemma exists_reason (hline : ∀ c ∈ reason, isNewLine c = false) (hf : Framed headers body) :
    ∃ space word headers', (∀ c ∈ space, isIgnorableWhiteSpace c = true) ∧ word ≠ [] ∧
      Stops isIgnorableWhiteSpace word ∧ (∀ c ∈ word, isNewLine c = false) ∧
      responseBytes protocol code reason headers body rest
        = protocol ++ 32 :: (code ++ 32 :: (space ++ (word ++ tailBytes headers' body rest))) ∧
      ((∃ c ∈ reason, isIgnorableWhiteSpace c = false) ∧ headers' = headers ∨
        (∀ c ∈ reason, isIgnorableWhiteSpace c = true) ∧ ∃ h, headers = h :: headers') := by
  obtain ⟨space, word, rfl, hspace, hword⟩ := exists_run isIgnorableWhiteSpace reason
  cases word with
  | cons c word =>
      refine ⟨space, c :: word, headers, hspace, List.cons_ne_nil c word, hword,
        fun x hx => hline x (List.mem_append_right _ hx), ?_, .inl ⟨⟨c, by simp, hword⟩, rfl⟩⟩
      simp [responseBytes]
  | nil =>
      cases headers with
      | nil =>
          obtain ⟨digits, _, _, hfilter⟩ := hf.length
          simp at hfilter
      | cons h headers =>
          have hh := hf.lines h (by simp)
          have hall : ∀ c ∈ space ++ bytes "\r\n", isIgnorableWhiteSpace c = true := by
            intro c hc
            exact (List.mem_append.mp hc).elim (hspace c)
              ((by decide : ∀ c ∈ bytes "\r\n", isIgnorableWhiteSpace c = true) c)
          have htext : ∀ c ∈ h.name_ ++ bytes ": " ++ h.value_, isNewLine c = false := by
            intro c hc
            rcases List.mem_append.mp hc with hc | hc
            · exact (List.mem_append.mp hc).elim (hh.name_line c)
                ((by decide : ∀ c ∈ bytes ": ", isNewLine c = false) c)
            · exact hh.value_line c hc
          refine ⟨space ++ bytes "\r\n", h.name_ ++ bytes ": " ++ h.value_, headers, hall,
            by simp [hh.name_ne], ?_, htext, ?_, .inr ⟨by simpa using hspace, h, rfl⟩⟩
          · rw [List.append_assoc]
            exact hh.name_start.append hh.name_ne _
          · simp [responseBytes, tailBytes, headerLine]

/-- A status line that is refused. -/
lemma not_returned_of_error {data : Bytes} {reads : ℕ} {f : Failure} {hs : List Header}
    (hread : P.read peer = (.ok (data, reads), peer')) (hreads : Expected reads)
    (hline : extractResponse data = .error f) : ¬ Returned P hs body rest peer peer' := by
  rintro ⟨response, -, -, hcall⟩
  have hfirst : getFirst P ⟨.empty, false, peer⟩ = (.error (.empty, .parsing f), peer') := by
    simp [getFirst, newResponse, fillBuffer, readInto, hread, hreads, hline]
  have hpass : getResponsePass P ⟨.empty, false, peer⟩
      = .inr ⟨.error (.parsing f), .empty, peer'⟩ := by
    simp only [getResponsePass, hfirst]
  have hsame := GetResponse.deterministic P hcall (returns_of_inr hpass)
  cases hsame

/-- Where the first header is taken for the reason, it is missing. -/
lemma not_returned_of_header {n reads : ℕ} {data word : Bytes} {h : Header}
    (hread : P.read peer = (.ok (data, reads), peer')) (hreads : Expected reads)
    (hline : extractResponse data = .ok (some (.new protocol n word), tailBytes headers body rest))
    (hf : Framed (h :: headers) body) (hrest : Stops isIgnorableWhiteSpace rest) :
    ¬ Returned P ((h :: headers).map Header.trimmed) body rest peer peer' := by
  intro hret
  obtain ⟨hstop, s, eob, hrun, hfields, _⟩ := hret.elim P hread hreads hline
  have hbody : Stops isIgnorableWhiteSpace (body ++ rest) := by
    cases body with
    | nil => exact hrest
    | cons c body => exact hstop
  have hlines := headerLoop_lines Response.push headers (fun x hx => hf.lines x (by simp [hx]))
    hbody (.new protocol n word)
  rw [tailBytes, hlines] at hrun
  cases hrun
  rw [Response.foldl_push] at hfields
  simpa [Response.new] using congrArg List.length hfields

/-- The body of a response of a supported version.  Its code must fit, and a reason of nothing but
spaces and tabs must not be: the first header would be taken for it. -/
lemma returned_iff_of_version {reads : ℕ}
    (hread : P.read peer = (.ok (responseBytes protocol code reason headers body rest, reads),
      peer'))
    (hreads : Expected reads) (hp : protocol = bytes "HTTP/1.0" ∨ protocol = bytes "HTTP/1.1")
    (hc : IsNumeral code) (hline : ∀ c ∈ reason, isNewLine c = false) (hf : Framed headers body)
    (hrest : Stops isIgnorableWhiteSpace rest) :
    Returned P (headers.map Header.trimmed) body rest peer peer' ↔
      decimalValue code < 2 ^ 32 ∧ (∃ c ∈ reason, isIgnorableWhiteSpace c = false) ∧
        Stops isIgnorableWhiteSpace body ∧ body.length < 2 ^ 64 := by
  obtain ⟨space, word, headers', hspace, hne, hstart, hword, hdata, hcases⟩ :=
    @exists_reason protocol code reason headers body rest hline hf
  rw [hdata] at hread
  by_cases hcode : decimalValue code < 2 ^ 32
  · have hn : lexicalCast 32 code = some (decimalValue code) := by
      rw [lexicalCast_digits hc, if_pos hcode]
    have hstatus :=
      extractResponse_statusLine hp hc hn hspace hne hstart hword headers' body rest
    rcases hcases with ⟨hreason, rfl⟩ | ⟨hblank, h, rfl⟩
    · constructor
      · intro hret
        obtain ⟨hstop, s, eob, hrun, _, r, hfind⟩ := hret.elim P hread hreads hstatus
        refine ⟨hcode, hreason, hstop, ?_⟩
        by_contra hlen
        rw [hf.read Response.push hstop hrest] at hrun
        cases hrun
        rw [hf.findBody, if_neg hlen] at hfind
        cases hfind
      · rintro ⟨-, -, hstop, hlen⟩
        refine ⟨⟨protocol, decimalValue code, word, headers'.map Header.trimmed, body⟩, rfl, rfl,
          ?_⟩
        rw [getResponse_statusLine P hread hreads hstatus]
        refine .inr ⟨_, _, hf.read Response.push hstop hrest _, rfl, ?_⟩
        simp only [finish, Response.foldl_push, Response.new, List.nil_append, hf.findBody, hlen,
          if_true]
        by_cases hr : rest = [] <;> simp [hr]
    · refine iff_of_false (not_returned_of_header P hread hreads hstatus hf hrest) ?_
      rintro ⟨-, ⟨c, hcr, hw⟩, -⟩
      rw [hblank c hcr] at hw
      cases hw
  · have hstatus : extractResponse (protocol ++ 32 ::
        (code ++ 32 :: (space ++ (word ++ tailBytes headers' body rest))))
          = .error .badLexicalCast := by
      rw [tailBytes_cons, extractResponse, extractResponseHeader_code Response.new hp
        (isWord_of_isNumeral hc) hspace hne hstart hword, lexicalCast_digits hc, if_neg hcode,
        Option.elim_none]
    exact iff_of_false (not_returned_of_error P hread hreads hstatus) fun h => hcode h.1

/-- **The body of a response.** -/
lemma returned_iff {reads : ℕ}
    (hread : P.read peer = (.ok (responseBytes protocol code reason headers body rest, reads),
      peer'))
    (hreads : Expected reads) (hp : IsWord protocol) (hc : IsNumeral code)
    (hline : ∀ c ∈ reason, isNewLine c = false) (hf : Framed headers body)
    (hrest : Stops isIgnorableWhiteSpace rest) :
    Returned P (headers.map Header.trimmed) body rest peer peer' ↔
      (protocol = bytes "HTTP/1.0" ∨ protocol = bytes "HTTP/1.1") ∧
        decimalValue code < 2 ^ 32 ∧ (∃ c ∈ reason, isIgnorableWhiteSpace c = false) ∧
          Stops isIgnorableWhiteSpace body ∧ body.length < 2 ^ 64 := by
  by_cases hversion : protocol = bytes "HTTP/1.0" ∨ protocol = bytes "HTTP/1.1"
  · rw [returned_iff_of_version P hread hreads hversion hc hline hf hrest, and_iff_right hversion]
  · have hstatus : extractResponse (responseBytes protocol code reason headers body rest)
        = .error (.unsupportedProtocol protocol) :=
      extractResponseHeader_unsupported Response.new hp (not_or.mp hversion) _
    exact iff_of_false (not_returned_of_error P hread hreads hstatus) fun h => hversion h.1

end Client

/-! ### Both -/

section Both

open Damon

variable {E : Type*} (P : Peer E)

/-- **The body is delivered exactly when it does not begin with white space**, by the server and by
the client, in the two versions that they support; a response also needs a code that fits and a
reason that is more than spaces and tabs. -/
theorem body_delivered {headers : List Header} {body rest : Bytes} (hf : Framed headers body)
    (hrest : Stops isIgnorableWhiteSpace rest) {method url protocol code reason : Bytes}
    (hs : (Spin.supportedMethods.lookup method).isSome) (hu : IsWord url) (hp : IsWord protocol)
    (hc : IsNumeral code) (hline : ∀ c ∈ reason, isNewLine c = false) {peer peer' : E}
    {reads : ℕ}
    (hread : P.read peer = (.ok (responseBytes protocol code reason headers body rest, reads),
      peer'))
    (hreads : Expected reads) :
    (HandsOver (requestBytes method url protocol headers body rest)
        (headers.map Header.trimmed) body rest ↔
      (protocol = bytes "HTTP/1.0" ∨ protocol = bytes "HTTP/1.1") ∧
        Stops isIgnorableWhiteSpace body ∧ body.length < 2 ^ 64) ∧
    (Returned P (headers.map Header.trimmed) body rest peer peer' ↔
      (protocol = bytes "HTTP/1.0" ∨ protocol = bytes "HTTP/1.1") ∧
        decimalValue code < 2 ^ 32 ∧ (∃ c ∈ reason, isIgnorableWhiteSpace c = false) ∧
          Stops isIgnorableWhiteSpace body ∧ body.length < 2 ^ 64) :=
  ⟨handsOver_iff hs hu hp hf hrest, returned_iff P hread hreads hp hc hline hf hrest⟩

/-- A header list that announces three bytes, between two other headers. -/
def threeBytes : List Header :=
  [⟨bytes "Host", bytes "localhost"⟩, ⟨bytes "Content-Length", bytes " 3 "⟩, ⟨bytes "X ", []⟩]

lemma framed_threeBytes : Framed threeBytes (bytes "a\r\n") := by
  refine ⟨fun h hh => ?_, bytes "3", by decide, by decide, by decide⟩
  simp only [threeBytes, List.mem_cons, List.not_mem_nil, or_false] at hh
  rcases hh with rfl | rfl | rfl <;> exact ⟨by decide, by decide, by decide, by decide, by decide⟩

/-- A body with a line end in it, behind three headers and in front of another message. -/
theorem body_delivered_threeBytes :
    HandsOver (requestBytes (bytes "PUT") (bytes "/") (bytes "HTTP/1.1") threeBytes
      (bytes "a\r\n") (bytes "GET")) (threeBytes.map Header.trimmed) (bytes "a\r\n") (bytes "GET") ∧
    Returned ⟨fun e : Unit => (.ok (responseBytes (bytes "HTTP/1.1") (bytes "200") (bytes "OK")
        threeBytes (bytes "a\r\n") (bytes "HTTP"), 1), e), fun e => (false, e)⟩
      (threeBytes.map Header.trimmed) (bytes "a\r\n") (bytes "HTTP") () () := by
  have hboth := fun (rest : Bytes) (hrest : Stops isIgnorableWhiteSpace rest) =>
    @body_delivered _ ⟨fun e : Unit => (.ok (responseBytes (bytes "HTTP/1.1") (bytes "200")
        (bytes "OK") threeBytes (bytes "a\r\n") rest, 1), e), fun e => (false, e)⟩ _ _ rest
      framed_threeBytes hrest (bytes "PUT") (bytes "/") (bytes "HTTP/1.1") _ _ (by decide)
      (by decide) (by decide) (by decide) (by decide) () () _ rfl (by decide)
  exact ⟨(hboth _ (by decide)).1.mpr ⟨.inr rfl, by decide, by decide⟩,
    (hboth _ (by decide)).2.mpr ⟨.inr rfl, by decide, ⟨79, by decide⟩, by decide, by decide⟩⟩

/-- **A body of one space is not delivered**: the line of the header is taken to go on behind the
empty line, and to have no end. -/
theorem body_white_space :
    Framed [⟨bytes "Content-Length", bytes "1"⟩] (bytes " ") ∧
    ¬ HandsOver (requestBytes (bytes "PUT") (bytes "/") (bytes "HTTP/1.1")
        [⟨bytes "Content-Length", bytes "1"⟩] (bytes " ") [])
      ([⟨bytes "Content-Length", bytes "1"⟩] : List Header) (bytes " ") [] := by
  have hf : Framed [⟨bytes "Content-Length", bytes "1"⟩] (bytes " ") := by
    refine ⟨fun h hh => ?_, bytes "1", by decide, by decide, by decide⟩
    obtain rfl := List.mem_singleton.mp hh
    exact ⟨by decide, by decide, by decide, by decide, by decide⟩
  refine ⟨hf, fun hd => ?_⟩
  have hd' := (@handsOver_iff (bytes "PUT") (bytes "/") _ _ _ [] (by decide) (by decide)
    (by decide) hf trivial).mp hd
  exact absurd hd'.2.1 (by decide)

end Both

end Arachnida
