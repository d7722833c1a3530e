import Arachnida.Library.ParsingTermination
import Arachnida.Library.Scan
import Arachnida.Spin.Private.ChunkedBody

/-!
Which rules of `Grammar::definition`, in `lib/Spin/Private/Grammar.h`, come to an end.

* `endless`: the rules that get to `field_value_`, a repetition of what may be nothing.
* `BeginsHeader`, `message_header_halts_iff`: **a header is not matched, it comes to no end.**
* `known_header`, `entity_header_halts_iff`: but for the headers that have rules of their own.
* `rule_halts_iff`: **the other rules come to an end with every text.**
* `trailer_halts_iff`: when a trailer does.
* `endless_trailer`: **a chunked body comes to no end** behind which there is a header without a
  rule of its own.
-/

namespace Arachnida.Spin.Private

open Library Expression Outcome Rule Acari

variable {charSigned : Bool} {s s' : ℕ} {l k : Bytes}

/-! ### Names of headers -/

/-- The separators. -/
def isSeparator (c : Byte) : Bool := (bytes "()<>@,;:\\\"/[]?=\x7b\x7d \t").contains c

/-- The characters of a token. -/
def isTokenChar (c : Byte) : Bool := 32 < c && c < 127 && !isSeparator c

/-- The text begins with the name of a header and a colon. -/
def BeginsHeader (l : Bytes) : Prop :=
  ∃ name rest, name ≠ [] ∧ (∀ c ∈ name, isTokenChar c = true) ∧ l = name ++ 58 :: rest

/-- What holds of every byte, by its number. -/
lemma forall_byte {p : Byte → Prop} (h : ∀ n < 256, p (UInt8.ofNat n)) (c : Byte) : p c := by
  have hc := h c.toNat c.toNat_lt
  rwa [UInt8.ofNat_toNat] at hc

lemma isClass_separator : IsClass (definition charSigned) (rule separators_) isSeparator := by
  have hclass : IsClass (definition charSigned) (rule separators_) _ :=
    IsClass.rule (IsClass.alt (isClass_ch '(') (IsClass.alt (isClass_ch ')')
      (IsClass.alt (isClass_ch '<') (IsClass.alt (isClass_ch '>') (IsClass.alt (isClass_ch '@')
      (IsClass.alt (isClass_ch ',') (IsClass.alt (isClass_ch ';') (IsClass.alt (isClass_ch ':')
      (IsClass.alt (isClass_ch '\\') (IsClass.alt (isClass_ch '"') (IsClass.alt (isClass_ch '/')
      (IsClass.alt (isClass_ch '[') (IsClass.alt (isClass_ch ']') (IsClass.alt (isClass_ch '?')
      (IsClass.alt (isClass_ch '=') (IsClass.alt (isClass_ch '{') (IsClass.alt (isClass_ch '}')
      (IsClass.alt (IsClass.rule (isClass_ch ' '))
        (IsClass.rule (isClass_ch '\t'))))))))))))))))))))
  convert hclass using 1
  funext c
  revert c
  apply forall_byte
  decide +kernel

lemma isClass_token :
    IsClass (definition charSigned) (rule CHAR_ - rule CTL_ - rule separators_) isTokenChar := by
  have hctl : IsClass (definition charSigned) (rule CTL_) _ :=
    IsClass.rule (IsClass.alt IsClass.chr (isClass_ch '\x7f'))
  have hclass : IsClass (definition charSigned) (rule CHAR_ - rule CTL_ - rule separators_) _ :=
    (isClass_char.diff hctl).diff isClass_separator
  convert hclass using 1
  funext c
  revert c
  apply forall_byte
  cases charSigned <;> decide +kernel

/-! ### The rules that come to an end -/

/-- The rules that get to `field_value_`. -/
def endless : Rule → Bool
  | Chunked_Body_ | trailer_ | entity_header_ | extension_header_ | message_header_
  | field_value_ => true
  | _ => false

/-- Whether a rule matches at least one character. -/
def leastWidth : Rule → ℕ
  | chunk_extension_ | chunk_data_ | trailer_ | field_value_ | field_content_ | userinfo_
  | path_segments_ | segment_ | param_ | query_ => 0
  | _ => 1

/-- The rules by what they come to in front of a character. -/
def rank : Rule → ℕ
  | ALPHA_ | CRLF_ | HEX_ | separators_ | rfc1123_date_ | rfc850_date_ | asctime_date_ | date1_
  | date2_ | date3_ | time_ | chunk_data_ | byte_content_range_spec_ | instance_length_
  | first_byte_pos_ | last_byte_pos_ | hier_part_ | IPV4address_ | port_ => 1
  | LWS_ | token_ | HTTP_date_ | chunk_size_p_ | primary_tag_ | subtag_ | md5_digest_
  | content_range_spec_ | byte_range_resp_spec_ | unreserved_ | scheme_ | domainlabel_
  | toplabel_ => 2
  | TEXT_ | content_coding_ | attribute_ | value_ | chunk_ | chunk_ext_name_ | chunk_ext_val_
  | type_ | subtype_ | language_tag_ | field_name_ | extension_method_ | absoluteURI_
  | uric_no_slash_ | uric_ | reg_name_ | userinfo_ | hostname_ | pchar_ | rel_segment_ => 3
  | qdtext_ | parameter_ | media_type_ | field_content_ | Method_ | opaque_part_ | host_
  | segment_ | param_ | query_ | rel_path_ => 4
  | hostport_ | path_segments_ | relativeURI_ => 5
  | server_ => 6
  | authority_ => 7
  | _ => 0

lemma leastWidth_le (r : Rule) : leastWidth r ≤ (definition charSigned r).width leastWidth := by
  cases r <;> exact Nat.le_of_ble_eq_true rfl

lemma rank_wellFounded (r : Rule) (hr : (!endless r) = true) :
    (definition charSigned r).wellFounded leastWidth (fun r => !endless r)
      (fun r' => !endless r' && rank r' < rank r) = true := by
  cases r <;> first | rfl | cases hr

/-- **A rule that does not get to `field_value_`** comes to an end with every text. -/
theorem rule_halts {r : Rule} (hr : endless r = false) (s : ℕ) (l : Bytes) :
    Halts (definition charSigned) (rule r) s l := by
  refine halts_of_wellFounded leastWidth_le rank_wellFounded ?_ s l
  rw [wellFounded, hr]
  rfl

/-! ### Headers -/

/-- **The value of a header** comes to no end. -/
theorem field_value_endless (s : ℕ) (l : Bytes) :
    ¬ Halts (definition charSigned) (rule field_value_) s l := by
  -- `field_content_` matches nothing rather than fail
  have hfails : NeverFails (definition charSigned) (rule field_content_ <|> rule LWS_) :=
    NeverFails.alt_left (NeverFails.rule (NeverFails.alt_left NeverFails.many))
  have hthrown := not_thrown (G := definition charSigned) pureRule_within
    (e := rule field_content_ <|> rule LWS_) rfl
  exact fun h => hfails.not_halts hthrown s l (halts_rule.mp h)

/-- The name of a header is matched. -/
lemma parses_field_name {name : Bytes} (hne : name ≠ [])
    (hname : ∀ c ∈ name, isTokenChar c = true) (rest : Bytes) (s : ℕ) :
    Parses (definition charSigned) (rule field_name_) s (name ++ 58 :: rest)
      (matched (58 :: rest) s) := by
  refine parses_rule.mpr (parses_rule.mpr (isClass_token.plus hne hname (fun c hc => ?_) s))
  obtain rfl := Option.some.inj hc
  decide

/-- **A header comes to no end**, and everything else does. -/
theorem message_header_halts_iff :
    Halts (definition charSigned) (rule message_header_) s l ↔ ¬ BeginsHeader l := by
  constructor
  · rintro h ⟨name, rest, hne, hname, rfl⟩
    have hvalue := (halts_seq.mp (halts_rule.mp h)).2 _ s (parses_field_name hne hname rest s)
    have hopt := (halts_seq.mp hvalue).2 rest s ((isClass_ch ':').takes rfl s rest)
    exact field_value_endless s rest (halts_alt.mp hopt).1
  · intro h
    refine halts_rule.mpr (halts_seq.mpr ⟨rule_halts rfl s l, fun m t hm => ?_⟩)
    refine halts_seq.mpr ⟨⟨_, isClass_ch ':' t m⟩, fun k u hk => ?_⟩
    have htoken : Parses (definition charSigned) (rule token_) s l (matched m t) :=
      parses_rule.mp hm
    obtain ⟨name, hne, hname, rfl⟩ := isClass_token.plus_matched (parses_rule.mp htoken)
    obtain ⟨c, hc, rfl⟩ := (isClass_ch ':').taken hk
    obtain rfl : c = 58 := of_decide_eq_true hc
    exact absurd ⟨name, k, hne, hname, rfl⟩ h

/-- The headers with rules of their own. -/
def known_headers : List Rule :=
  [Allow_, Content_Encoding_, Content_Language_, Content_Length_, Content_Location_, Content_MD5_,
    Content_Range_, Content_Type_, Expires_, Last_Modified_]

/-- A rule without actions, in front of something else. -/
lemma halts_alternative {r : Rule} (hpure : pureRule r = true) (hr : endless r = false) {e : P} :
    Halts (definition charSigned) (rule r <|> e) s l ↔
      (∃ k, Parses (definition charSigned) (rule r) s l (matched k s)) ∨
        Halts (definition charSigned) e s l := by
  have hstate : ∀ {o}, Parses (definition charSigned) (rule r) s l o → o = o.withState s :=
    fun ho => ho.unique (ho.withState pureRule_within (e := rule r) hpure s)
  constructor
  · intro h
    obtain ⟨⟨o, ho⟩, hrest⟩ := halts_alt.mp h
    cases o with
    | matched k t =>
        obtain ⟨-, rfl⟩ := Outcome.matched.inj (hstate ho)
        exact .inl ⟨k, ho⟩
    | failed t =>
        obtain rfl := Outcome.failed.inj (hstate ho)
        exact .inr (hrest t ho)
    | thrown x => exact absurd ho (not_thrown pureRule_within (e := rule r) hpure s l x)
  · rintro (⟨k, hk⟩ | he)
    · exact ⟨_, hk.alt_left⟩
    · refine halts_alt.mpr ⟨rule_halts hr s l, fun t ht => ?_⟩
      obtain rfl := Outcome.failed.inj (hstate ht)
      exact he

/-- **An entity header comes to an end** exactly when a rule of its own matches it. -/
theorem entity_header_halts_iff : Halts (definition charSigned) (rule entity_header_) s l ↔
    (∃ r ∈ known_headers, ∃ k, Parses (definition charSigned) (rule r) s l (matched k s)) ∨
      ¬ BeginsHeader l := by
  have hrule : Halts (definition charSigned) (rule entity_header_) s l ↔
      Halts (definition charSigned) (rule Allow_ <|> rule Content_Encoding_ <|>
        rule Content_Language_ <|> rule Content_Length_ <|> rule Content_Location_ <|>
        rule Content_MD5_ <|> rule Content_Range_ <|> rule Content_Type_ <|> rule Expires_ <|>
        rule Last_Modified_ <|> rule extension_header_) s l := halts_rule
  rw [hrule, halts_alternative rfl rfl, halts_alternative rfl rfl, halts_alternative rfl rfl,
    halts_alternative rfl rfl, halts_alternative rfl rfl, halts_alternative rfl rfl,
    halts_alternative rfl rfl, halts_alternative rfl rfl, halts_alternative rfl rfl,
    halts_alternative rfl rfl, halts_rule, definition, message_header_halts_iff]
  simp only [known_headers, List.mem_cons, List.not_mem_nil, or_false, exists_eq_or_imp,
    exists_eq_left, or_assoc]

/-- **A trailer comes to an end** exactly when no header is come to, behind those that are matched,
but such that a rule of its own matches. -/
theorem trailer_halts_iff : Halts (definition charSigned) (rule trailer_) s l ↔
    ∀ n m t, Parses (definition charSigned) (times n (rule entity_header_ >> rule CRLF_)) s l
        (matched m t) →
      (∃ r ∈ known_headers, ∃ k, Parses (definition charSigned) (rule r) t m (matched k t)) ∨
        ¬ BeginsHeader m := by
  have hconsumes : Consumes (definition charSigned) (rule entity_header_ >> rule CRLF_) :=
    consumes_of_width leastWidth_le (Nat.le_of_ble_eq_true rfl)
  rw [halts_rule, definition, halts_many hconsumes]
  refine forall₄_congr fun n m t _ => ?_
  rw [← entity_header_halts_iff]
  refine ⟨fun h => (halts_seq.mp h).1, fun h => halts_seq.mpr ⟨h, fun k u _ => ?_⟩⟩
  exact rule_halts rfl u k

/-! ### Names without a rule -/

/-- The names of the headers with rules of their own, but for `Content-MD5`, behind which the rule
wants a semicolon. -/
def header_names : List Bytes :=
  [bytes "Allow", bytes "Content-Encoding", bytes "Content-Language", bytes "Content-Length",
    bytes "Content-Location", bytes "Content-Range", bytes "Content-Type", bytes "Expires",
    bytes "Last-Modified"]

lemma str_matched {text : Bytes}
    (h : Parses (definition charSigned) (str text) s l (matched k s')) : l = text ++ k := by
  induction text generalizing s l with
  | nil => exact (eps_matched h).1.symm
  | cons c text ih =>
      obtain ⟨m, t, hc, hrest⟩ := seq_matched h
      obtain ⟨-, d, hd, rfl⟩ := chr_matched hc
      obtain rfl : d = c := of_decide_eq_true hd
      rw [ih hrest, List.cons_append]

/-- A header whose rule begins with a name and a separator has the name. -/
lemma name_matched {name rest text : Bytes} {c : Char} {e : P}
    (hname : ∀ c ∈ name, isTokenChar c = true) (htext : ∀ c ∈ text, isTokenChar c = true)
    (hc : isTokenChar (UInt8.ofNat c.toNat) = false)
    (h : Parses (definition charSigned) (str text >> ch_p c >> e) s (name ++ 58 :: rest)
      (matched k s')) : name = text ∧ UInt8.ofNat c.toNat = 58 := by
  obtain ⟨m, t, hstr, h⟩ := seq_matched h
  obtain ⟨m', t', hch, -⟩ := seq_matched h
  obtain ⟨d, hd, rfl⟩ := (isClass_ch c).taken hch
  obtain rfl : d = UInt8.ofNat c.toNat := of_decide_eq_true hd
  obtain ⟨hsame, hrest⟩ := run_unique (str_matched hstr) hname (by decide : isTokenChar 58 = false)
    htext hc
  exact ⟨hsame, (List.cons.inj hrest).1.symm⟩

/-- What a header's own rule matches, has its name. -/
lemma known_header_name {name rest : Bytes} (hname : ∀ c ∈ name, isTokenChar c = true) {r : Rule}
    (hr : r ∈ known_headers)
    (h : Parses (definition charSigned) (rule r) s (name ++ 58 :: rest) (matched k s')) :
    name ∈ header_names := by
  have hrule := parses_rule.mp h
  simp only [known_headers, List.mem_cons, List.not_mem_nil, or_false] at hr
  rcases hr with rfl | rfl | rfl | rfl | rfl | rfl | rfl | rfl | rfl | rfl
  case inr.inr.inr.inr.inr.inl =>
    exact absurd (name_matched hname (by decide) (by decide) hrule).2 (by decide)
  all_goals
    rw [(name_matched hname (by decide) (by decide) hrule).1]
    decide

/-- **The trailer of a body** comes to no end with a header that has no rule of its own. -/
theorem trailer_endless {name : Bytes} (hne : name ≠ []) (hname : ∀ c ∈ name, isTokenChar c = true)
    (hunknown : name ∉ header_names) (rest : Bytes) (s : ℕ) :
    ¬ Halts (definition charSigned) (rule entity_header_) s (name ++ 58 :: rest) ∧
      ¬ Halts (definition charSigned) (rule trailer_) s (name ++ 58 :: rest) := by
  have hheader : ¬ Halts (definition charSigned) (rule entity_header_) s (name ++ 58 :: rest) := by
    intro h
    rcases entity_header_halts_iff.mp h with ⟨r, hr, k, hk⟩ | hbegins
    · exact hunknown (known_header_name hname hr hk)
    · exact hbegins ⟨name, rest, hne, hname, rfl⟩
  exact ⟨hheader, fun h => hheader (entity_header_halts_iff.mpr
    (trailer_halts_iff.mp h 0 _ s Parses.eps))⟩

/-! ### Chunked bodies -/

/-- There is no extension without a semicolon. -/
lemma parses_no_extension (hl : ∀ c ∈ l.head?, c = 13) (s : ℕ) :
    Parses (definition charSigned) (opt (rule chunk_extension_)) s l (matched l s) := by
  refine Parses.alt_left (parses_rule.mpr (Parses.many_stop (Parses.seq_failed ?_)))
  refine (isClass_ch ';').fails (fun c hc => ?_) s
  rw [hl c hc]
  rfl

/-- The chunks are matched up to where there is none. -/
lemma parses_chunks (chunks : List Chunk)
    (hread : ∀ c ∈ chunks, Readable charSigned c.size c.data)
    (hl : ∀ s, ∃ t, Parses (definition charSigned) (rule chunk_) s l (failed t)) (s : ℕ) :
    ∃ t, Parses (definition charSigned) (many (rule chunk_)) s
      ((chunks.flatMap fun c => encodeChunk c.size c.data) ++ l) (matched l t) := by
  induction chunks generalizing s with
  | nil =>
      obtain ⟨t, ht⟩ := hl s
      exact ⟨t, ht.many_stop⟩
  | cons c chunks ih =>
      obtain ⟨t, ht⟩ := ih (fun d hd => hread d (by simp [hd])) c.data.length
      have hchunk := parses_chunk c.size_ne_nil c.hex (hread c (by simp)) s
        ((chunks.flatMap fun c => encodeChunk c.size c.data) ++ l)
      rw [List.flatMap_cons, List.append_assoc]
      exact ⟨t, hchunk.many_next ht⟩

section Trailer

variable {zeros : Bytes}

/-- A last chunk in front of a header is not taken for one of the chunks. -/
lemma chunk_fails (hne : zeros ≠ []) (hzeros : ∀ c ∈ zeros, c = 48)
    (hl : ∀ c ∈ l.head?, c ≠ 13) (s : ℕ) :
    ∃ t, Parses (definition charSigned) (rule chunk_) s (zeros ++ (crlf ++ l)) (failed t) := by
  obtain ⟨hex, hdehex⟩ := dehex_zeros hzeros
  have hcr : ∀ c ∈ (crlf ++ l).head?, c = 13 := fun c hc => (Option.some.inj hc).symm
  have hdigits : ∀ c ∈ (crlf ++ l).head?, isxdigit c = false := fun c hc => by
    rw [hcr c hc]
    rfl
  have hnone : Parses (definition charSigned) (rule CRLF_) 0 l (failed 0) := by
    refine parses_rule.mpr (Parses.seq_failed ((IsClass.rule (isClass_ch '\r')).fails ?_ 0))
    exact fun c hc => decide_eq_false (hl c hc)
  refine ⟨0, parses_rule.mpr ((parses_size hne hex hdehex hdigits s).seq
    ((parses_no_extension hcr 0).seq ((parses_crlf 0 l).seq (Parses.seq ?_ hnone))))⟩
  exact parses_rule.mpr (parses_counted.mpr Parses.eps)

/-- The last chunk. -/
lemma parses_last_chunk (hne : zeros ≠ []) (hzeros : ∀ c ∈ zeros, c = 48) (l : Bytes) (s : ℕ) :
    Parses (definition charSigned) (rule last_chunk_) s (zeros ++ (crlf ++ l)) (matched l s) := by
  have hcr : ∀ c ∈ (crlf ++ l).head?, c = 13 := fun c hc => (Option.some.inj hc).symm
  refine parses_rule.mpr (((isClass_ch '0').plus hne (fun c hc => ?_) (fun c hc => ?_) s).seq
    ((parses_no_extension hcr s).seq (parses_crlf s l)))
  · rw [hzeros c hc]
    rfl
  · rw [hcr c hc]
    rfl

/-- **A chunked body comes to no end** if its trailer does not. -/
lemma body_endless (chunks : List Chunk)
    (hread : ∀ c ∈ chunks, Readable charSigned c.size c.data) (hne : zeros ≠ [])
    (hzeros : ∀ c ∈ zeros, c = 48) (hl : ∀ c ∈ l.head?, c ≠ 13)
    (htrailer : ∀ s, ¬ Halts (definition charSigned) (rule trailer_) s l) (s : ℕ) :
    ¬ Halts (definition charSigned) (rule Chunked_Body_) s
      ((chunks.flatMap fun c => encodeChunk c.size c.data) ++ (zeros ++ (crlf ++ l))) := by
  intro h
  obtain ⟨t, ht⟩ := parses_chunks chunks hread (chunk_fails hne hzeros hl) s
  have hlast := (halts_seq.mp (halts_rule.mp h)).2 _ t ht
  have hbehind := (halts_seq.mp hlast).2 l t (parses_last_chunk hne hzeros l t)
  exact htrailer t (halts_seq.mp hbehind).1

/-- **A chunked body with a header in its trailer** comes to no end, unless the header has a rule of
its own. -/
theorem endless_trailer (charSigned : Bool) (chunks : List Chunk)
    (hread : ∀ c ∈ chunks, Readable charSigned c.size c.data) (hne : zeros ≠ [])
    (hzeros : ∀ c ∈ zeros, c = 48) {name : Bytes} (hname : name ≠ [])
    (htoken : ∀ c ∈ name, isTokenChar c = true) (hunknown : name ∉ header_names) (rest : Bytes)
    (s : ℕ) : ¬ Halts (definition charSigned) (rule Chunked_Body_) s
      ((chunks.flatMap fun c => encodeChunk c.size c.data) ++
        (zeros ++ (crlf ++ (name ++ 58 :: rest)))) := by
  refine body_endless chunks hread hne hzeros (fun c hc heq => ?_)
    (fun t => (trailer_endless hname htoken hunknown rest t).2) s
  cases name with
  | nil => exact hname rfl
  | cons d name =>
      obtain rfl := Option.some.inj hc
      have htok := htoken d (by simp)
      rw [heq] at htok
      exact absurd htok (by decide)

end Trailer

/-- **The rules that come to an end** with every text are those that do not get to
`field_value_`. -/
theorem rule_halts_iff (charSigned : Bool) (r : Rule) :
    (∀ s l, Halts (definition charSigned) (rule r) s l) ↔ endless r = false := by
  refine ⟨fun h => Bool.eq_false_iff.mpr fun hr => ?_, rule_halts⟩
  have hname : ∀ c ∈ bytes "a", isTokenChar c = true := by decide
  have hbegins : BeginsHeader (bytes "a:") := ⟨bytes "a", [], by decide, hname, rfl⟩
  have htrailer := fun s =>
    @trailer_endless charSigned (bytes "a") (by decide) hname (by decide) [] s
  cases r with
  | field_value_ => exact field_value_endless 0 [] (h 0 [])
  | message_header_ => exact message_header_halts_iff.mp (h 0 _) hbegins
  | extension_header_ => exact message_header_halts_iff.mp (halts_rule.mp (h 0 _)) hbegins
  | entity_header_ => exact (htrailer 0).1 (h 0 _)
  | trailer_ => exact (htrailer 0).2 (h 0 _)
  | Chunked_Body_ =>
      have hzeros : ∀ c ∈ bytes "0", c = 48 := by decide
      have hfirst : ∀ c ∈ (bytes "a" ++ [58]).head?, c ≠ 13 := fun c hc => by
        obtain rfl := Option.some.inj hc
        decide
      exact body_endless [] (fun c hc => absurd hc List.not_mem_nil) (by decide) hzeros hfirst
        (fun s => (htrailer s).2) 0 (h 0 _)
  | _ => cases hr

/-- One chunk, and an `X:` in the trailer. -/
theorem endless_trailer_hello :
    ¬ Halts (definition true) (rule Chunked_Body_) 0 (bytes "5\r\nhello\r\n0\r\nX:y\r\n\r\n") := by
  have hread : ∀ c ∈ [hello], Readable true c.size c.data := by
    intro c hc
    obtain rfl := List.mem_singleton.mp hc
    exact hello.readable (by decide) (by decide)
  have hzeros : ∀ c ∈ bytes "0", c = 48 := by decide
  have htoken : ∀ c ∈ bytes "X", isTokenChar c = true := by decide
  exact endless_trailer true [hello] hread (by decide) hzeros (by decide) htoken (by decide)
    (bytes "y\r\n\r\n") 0

end Arachnida.Spin.Private
