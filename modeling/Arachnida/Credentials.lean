import Arachnida.Acari.Base64Loop
import Arachnida.Damon.ConnectionTarget
import Arachnida.RequestPipeline

/-!
The credentials of a URL on their way to the server: the header of the basic authorization, with
the loop of `base64encode` in it, and what a server makes of it.

* `AuthorizationHeader`: the header that `createBasicAuthorizationHeader` returns.
* `Carries`: a header from which a user name and a password can be read.
* `credentials_iff`: **the credentials arrive if and only if `base64decode` can return so much.**
-/

namespace Arachnida

open Library Acari Damon

/-- `createBasicAuthorizationHeader` returns this header. -/
def AuthorizationHeader (username password : Bytes) (header : Header) : Prop :=
  ∃ t, Encodes (username ++ bytes ":" ++ password) t ∧
    header = ⟨bytes "Authorization", bytes "Basic " ++ t⟩

/-- A header from which these credentials can be read: it is on one line, its name has no colon in
it, the server takes it apart into name and value, and the value decodes to the credentials with a
colon between them, which is the first one. -/
structure Carries (header : Header) (username password : Bytes) : Prop where
  name : header.name_ = bytes "Authorization"
  name_colon : 58 ∉ header.name_
  line : ∀ c ∈ header.name_ ++ bytes ": " ++ header.value_, c ≠ 13 ∧ c ≠ 10
  split : splitHeader (header.name_ ++ bytes ": " ++ header.value_)
    = .ok (header.name_, header.value_)
  value : ∃ t d, header.value_ = bytes "Basic " ++ t ∧ Decodes t d ∧
    d.takeWhile (· != 58) = username ∧ d.dropWhile (· != 58) = 58 :: password

/-! ### The user name -/

/-- **There is no colon in a user name.** -/
lemma parseURL_username {url : Bytes} {u : ParsedURL} (h : parseURL url = .ok u) :
    58 ∉ u.username := by
  obtain ⟨c, port, hcut, -, -, rfl⟩ := parseURL_eq_ok.mp h
  have huser : ∀ {l : Bytes} {m : (Bytes × Option Bytes) × Bytes}, cutUser l = some m →
      58 ∉ m.1.1 := by
    intro l m hm
    obtain ⟨run, hrun, hm⟩ := Option.bind_eq_some_iff.mp hm
    obtain ⟨l', -, rfl⟩ := Option.map_eq_some_iff.mp hm
    intro hcolon
    exact absurd ((cutRun_eq hrun).2.2.1 58 hcolon) (by decide)
  have hauthority : ∀ {l : Bytes} {c : Pieces}, cutAuthority l = some c →
      58 ∉ (c.user.map Prod.fst).getD [] := by
    intro l c hc
    rcases cutAuthority_cases hc with ⟨m, c', hm, -, rfl⟩ | hc
    · exact huser hm
    · rw [(cutHost_none hc).2]
      exact List.not_mem_nil
  rcases cut_cases hcut with ⟨m, c', -, hc', rfl⟩ | hc
  · exact hauthority (c := c') hc'
  · exact hauthority hc

/-- The first colon of the credentials is the one between them. -/
lemma split_credentials {username : Bytes} (h : 58 ∉ username) (password : Bytes) :
    (username ++ bytes ":" ++ password).takeWhile (· != 58) = username ∧
      (username ++ bytes ":" ++ password).dropWhile (· != 58) = 58 :: password := by
  have hcolon : bytes ":" = [58] := by decide
  have hall : ∀ c ∈ username, (c != 58) = true := by
    intro c hc
    exact bne_iff_ne.mpr fun h58 => h (h58 ▸ hc)
  have hstop : Stops (· != 58) (58 :: password) := rfl
  rw [hcolon, List.append_assoc, List.singleton_append]
  exact ⟨takeWhile_append_stops hall hstop, dropWhile_append_stops hall hstop⟩

/-! ### The header -/

section Header

variable {username password : Bytes}

/-- The header that the code returns where no position wraps. -/
lemma authorizationHeader_of_le (h : (username ++ bytes ":" ++ password).length ≤ 3 * 2 ^ 30) :
    AuthorizationHeader username password (createBasicAuthorizationHeader username password) :=
  ⟨_, encodes h, rfl⟩

/-- **The header carries the credentials** where they can be decoded at all. -/
lemma carries_of_le (hname : 58 ∉ username)
    (h : (username ++ bytes ":" ++ password).length ≤ 3 * 2 ^ 30 - 4) :
    Carries (createBasicAuthorizationHeader username password) username password := by
  have hplain := plain_createBasicAuthorizationHeader username password
  have htrimmed := hplain.trimmed
  have hdecodes : Decodes (base64encode (username ++ bytes ":" ++ password))
      (username ++ bytes ":" ++ password) := by
    have hlength : (stripped (base64encode (username ++ bytes ":" ++ password))).length + 4
        < 2 ^ 32 := by
      rw [stripped_base64encode, length_base64digits]
      omega
    have hd := decodes hlength
    rwa [base64decode, stripped_base64encode, decodeGroups_base64digits, Option.getD_some] at hd
  obtain ⟨htake, hdrop⟩ := split_credentials hname password
  refine ⟨rfl, hplain.line.name_colon, fun c hc => ?_, ?_, _, _, rfl, hdecodes, htake, hdrop⟩
  · have hnew : isNewLine c = false := by
      rcases List.mem_append.mp hc with hc | hc
      · rcases List.mem_append.mp hc with hc | hc
        · exact hplain.line.name_line c hc
        · exact (by decide : ∀ c ∈ bytes ": ", isNewLine c = false) c hc
      · exact hplain.line.value_line c hc
    constructor <;> rintro rfl <;> revert hnew <;> decide
  · have hsplit := splitHeader_line hplain.line
    rw [htrimmed] at hsplit
    rw [bytes_colon_space, List.append_assoc]
    exact hsplit

/-- Credentials that are decoded again are not too long. -/
lemma Carries.length_le {header : Header} (h : Carries header username password) :
    username.length + 1 + password.length ≤ 3 * 2 ^ 30 - 4 := by
  obtain ⟨t, d, -, hd, htake, hdrop⟩ := h.value
  have hsplit : username ++ 58 :: password = d := by
    rw [← htake, ← hdrop, List.takeWhile_append_dropWhile]
  have hle := hd.length_le
  rw [← hsplit, List.length_append, List.length_cons] at hle
  omega

end Header

/-! ### The request -/

section Request

variable {request : Damon.Request} {u : ParsedURL}

/-- The authorization is the last header that is written. -/
lemma serialize_authorization (hu : parseURL request.url_ = .ok u)
    (hauth : request.auth_method_ = .basic__) (hname : u.username ≠ []) :
    ∃ before, request.serialize = .ok (before
      ++ headerLine (createBasicAuthorizationHeader u.username u.password)
      ++ bytes "\r\n" ++ request.body_) := by
  have hlast : authorizationHeaders request u
      = [createBasicAuthorizationHeader u.username u.password] := by
    rw [authorizationHeaders, if_pos ⟨hauth, hname⟩]
  rw [Damon.Request.serialize, hu]
  simp only [writtenHeaders_append, hlast, List.flatMap_append, List.flatMap_singleton,
    ← List.append_assoc]
  exact ⟨_, rfl⟩

/-- The server hands over a request that has the authorization among its headers. -/
lemma onDataReady_authorization (hu : parseURL request.url_ = .ok u)
    (hauth : request.auth_method_ = .basic__) (hname : u.username ≠ []) (h : Writable request) :
    ∃ b r, request.serialize = .ok b ∧ Spin.onDataReady none b = ⟨[r], none, none⟩ ∧
      createBasicAuthorizationHeader u.username u.password ∈ r.header_fields_ := by
  obtain ⟨b, hb, -⟩ := h.serialize hu
  have hsaved : (⟨none, b, false, []⟩ : Spin.HandlerState).saved = ⟨none, [b].flatten, false⟩ := by
    simp [Spin.HandlerState.saved, Spin.Saved.append, Spin.Saved.empty]
  obtain ⟨handled, hhandled, hrun⟩ := onDataReadyLoop_written (.cons hb .nil)
    (by simpa using h) (by simp) ⟨fun _ => rfl, by simp, by simp⟩ hsaved
  cases hhandled with
  | @cons _ r _ _ harrives hnil =>
      cases hnil
      obtain ⟨u', hu', rfl⟩ := harrives
      obtain rfl : u' = u := Except.ok.inj (hu'.symm.trans hu)
      refine ⟨b, _, hb, by rw [Spin.onDataReady, hrun, List.nil_append], ?_⟩
      simp [authorizationHeaders, hauth, hname]

/-- **The credentials of a URL arrive if and only if they are not too long**: the header that is
written has them in it, and so has the request that a server hands over. -/
theorem credentials_iff (hu : parseURL request.url_ = .ok u)
    (hauth : request.auth_method_ = .basic__) (hname : u.username ≠ []) :
    (∃ header, AuthorizationHeader u.username u.password header ∧
      Carries header u.username u.password ∧
      (∃ before, request.serialize
        = .ok (before ++ headerLine header ++ bytes "\r\n" ++ request.body_)) ∧
      (Writable request → ∃ b r, request.serialize = .ok b ∧
        Spin.onDataReady none b = ⟨[r], none, none⟩ ∧ header ∈ r.header_fields_)) ↔
    u.username.length + 1 + u.password.length ≤ 3 * 2 ^ 30 - 4 := by
  constructor
  · rintro ⟨header, -, hcarries, -⟩
    exact hcarries.length_le
  · intro hle
    have hcolon : bytes ":" = [58] := by decide
    have hlength : (u.username ++ bytes ":" ++ u.password).length ≤ 3 * 2 ^ 30 - 4 := by
      rw [hcolon, List.length_append, List.length_append, List.length_singleton]
      exact hle
    exact ⟨_, authorizationHeader_of_le (by omega),
      carries_of_le (parseURL_username hu) hlength, serialize_authorization hu hauth hname,
      onDataReady_authorization hu hauth hname⟩

end Request

/-- A request with credentials. -/
def loginRequest : Damon.Request :=
  ⟨bytes "http://me:pass:word@localhost/", .get__, .basic__, [], []⟩

/-- The credentials of this request arrive. -/
theorem credentials_iff_login : ∃ header,
    AuthorizationHeader (bytes "me") (bytes "pass:word") header ∧
      Carries header (bytes "me") (bytes "pass:word") := by
  have hu : parseURL loginRequest.url_ = .ok
      ⟨bytes "http", bytes "localhost", 80, bytes "/", bytes "me", bytes "pass:word"⟩ := by
    decide +kernel
  obtain ⟨header, hheader, hcarries, -⟩ :=
    (credentials_iff hu rfl (by decide)).mpr (by decide)
  exact ⟨header, hheader, hcarries⟩

/-- A URL with a user name of a given length. -/
def longURL (n : ℕ) : Pieces where
  protocol := some (bytes "http")
  user := some (List.replicate n 97, some (bytes "b"))
  host := bytes "h"
  port := none
  path := []

lemma parseURL_long {n : ℕ} (hn : n ≠ 0) : ∃ u, parseURL (longURL n).text = .ok u ∧
    u.username = List.replicate n 97 ∧ u.password = bytes "b" := by
  have hproper : (longURL n).Proper := by
    have hhost : bytes "h" ≠ [] ∧ ∀ b ∈ bytes "h", b ∉ bytes ":/@" := by decide
    refine ⟨by simp [longURL], fun v hv => ?_, hhost, by simp [longURL], .inl rfl⟩
    obtain rfl : v = (List.replicate n 97, some (bytes "b")) := by simpa [longURL] using hv.symm
    refine ⟨by simpa using hn, fun b hb => ?_, fun d hd => ?_⟩
    · obtain rfl := List.eq_of_mem_replicate hb
      decide
    · obtain rfl : d = bytes "b" := by simpa using hd.symm
      decide
  exact ⟨_, parseURL_eq_ok.mpr ⟨_, 80, hproper.cut_text, .inl rfl, rfl, rfl⟩, rfl, rfl⟩

/-- **The credentials of a URL need not arrive**: a user name of 3221225467 letters and a password
of one letter are encoded to nothing that is decoded to them. -/
theorem credentials_lost : ∃ u, parseURL (longURL 3221225467).text = .ok u ∧
    u.username ≠ [] ∧ u.password ≠ [] ∧
    ¬ ∃ header, AuthorizationHeader u.username u.password header ∧
      Carries header u.username u.password := by
  obtain ⟨u, hu, hname, hpassword⟩ := parseURL_long (n := 3221225467) (by norm_num)
  refine ⟨u, hu, ?_, by rw [hpassword]; decide, ?_⟩
  · rw [hname]
    exact fun h => absurd (congrArg List.length h) (by rw [List.length_replicate]; norm_num)
  · rintro ⟨header, -, hcarries⟩
    have hle := hcarries.length_le
    have hone : (bytes "b").length = 1 := by decide
    rw [hname, hpassword, List.length_replicate, hone] at hle
    omega

end Arachnida
