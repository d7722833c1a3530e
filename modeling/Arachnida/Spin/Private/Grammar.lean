import Arachnida.Library.ParsingExpression
import Arachnida.Spin.Private.HexAdapter

/-!
The grammar of chunked bodies: `Grammar::definition`, in `lib/Spin/Private/Grammar.h`, as far as
`Chunked_Body_` gets to it.

* `Rule`: the rules, `trailer_` and all of the entity headers with dates and URLs among them.
* `range_p`, `ch_p`, `str_p`, `assign_a`: the primitives, for a `char` with a sign or without.
* `definition`: what each rule is.
-/

namespace Arachnida.Spin.Private

open Library Expression

/-- The rules. -/
inductive Rule where
  | OCTET_ | CHAR_ | UPALPHA_ | LOALPHA_ | ALPHA_ | DIGIT_ | CTL_ | CR_ | LF_ | SP_ | HT_ | CRLF_
  | LWS_ | TEXT_ | HEX_ | separators_ | token_ | quoted_string_ | qdtext_ | quoted_pair_
  | HTTP_date_ | rfc1123_date_ | rfc850_date_ | asctime_date_ | date1_ | date2_ | date3_ | time_
  | wkday_ | weekday_ | month_
  | content_coding_ | parameter_ | attribute_ | value_
  | Chunked_Body_ | chunk_ | chunk_size_p_ | last_chunk_ | chunk_extension_ | chunk_ext_name_
  | chunk_ext_val_ | chunk_data_ | trailer_
  | media_type_ | type_ | subtype_ | language_tag_ | primary_tag_ | subtag_ | bytes_unit_
  | message_header_ | field_name_ | field_value_ | field_content_ | Method_ | extension_method_
  | entity_header_ | extension_header_ | Allow_ | Content_Encoding_ | Content_Language_
  | Content_Length_ | Content_Location_ | Content_MD5_ | md5_digest_ | Content_Range_
  | content_range_spec_ | byte_content_range_spec_ | byte_range_resp_spec_ | instance_length_
  | Content_Type_ | Expires_ | Last_Modified_ | first_byte_pos_ | last_byte_pos_
  | absoluteURI_ | hier_part_ | net_path_ | abs_path_ | opaque_part_ | uric_no_slash_ | uric_
  | reserved_ | unreserved_ | mark_ | escaped_ | scheme_ | authority_ | reg_name_ | server_
  | userinfo_ | hostport_ | host_ | hostname_ | domainlabel_ | toplabel_ | IPV4address_ | port_
  | path_segments_ | segment_ | param_ | pchar_ | query_ | relativeURI_ | rel_path_ | rel_segment_

/-- Expressions over the rules.  The state is `chunk_size_`, and what is thrown is the text of a
`std::runtime_error`. -/
abbrev P := Expression Rule Byte ℕ Bytes

/-- A `char` as an `int`. -/
def charInt (charSigned : Bool) (c : Byte) : ℤ := if charSigned then c.toInt8.toInt else c.toNat

/-- A `char` between two numbers. -/
def inRange (charSigned : Bool) (first last : ℕ) (c : Byte) : Bool :=
  first ≤ charInt charSigned c && charInt charSigned c ≤ last

/-- `range_p`. -/
def range_p (charSigned : Bool) (first last : ℕ) : P := chr (inRange charSigned first last)

/-- `ch_p`. -/
def ch_p (c : Char) : P := chr (· = UInt8.ofNat c.toNat)

/-- `str_p`. -/
def str_p (s : String) : P := str (bytes s)

/-- `assign_a` for a `HexAdapter` of `chunk_size_`. -/
def assign_a (chunk_size_ : ℕ) (text : Bytes) : Except Bytes ℕ :=
  (HexAdapter.assign (.ofSize chunk_size_) (.ofRange text)).map fun a => a.p_.getD chunk_size_

open Rule

/-- `Grammar::definition`. -/
def definition (charSigned : Bool) : Rule → P
  | OCTET_ => range_p charSigned 0 255
  | CHAR_ => range_p charSigned 0 127
  | UPALPHA_ => range_p charSigned 'A'.toNat 'Z'.toNat
  | LOALPHA_ => range_p charSigned 'a'.toNat 'z'.toNat
  | ALPHA_ => rule UPALPHA_ <|> rule LOALPHA_
  | DIGIT_ => range_p charSigned '0'.toNat '9'.toNat
  | CTL_ => range_p charSigned 0 31 <|> ch_p '\x7f'
  | CR_ => ch_p '\r'
  | LF_ => ch_p '\n'
  | SP_ => ch_p ' '
  | HT_ => ch_p '\t'
  | CRLF_ => rule CR_ >> rule LF_
  | LWS_ => opt (rule CRLF_) >> plus (rule SP_ <|> rule HT_)
  | TEXT_ => (rule OCTET_ - rule CTL_) <|> rule LWS_
  | HEX_ => range_p charSigned 'a'.toNat 'f'.toNat <|> range_p charSigned 'A'.toNat 'F'.toNat <|>
      rule DIGIT_
  | separators_ => ch_p '(' <|> ch_p ')' <|> ch_p '<' <|> ch_p '>' <|> ch_p '@' <|> ch_p ',' <|>
      ch_p ';' <|> ch_p ':' <|> ch_p '\\' <|> ch_p '"' <|> ch_p '/' <|> ch_p '[' <|> ch_p ']' <|>
      ch_p '?' <|> ch_p '=' <|> ch_p '{' <|> ch_p '}' <|> rule SP_ <|> rule HT_
  | token_ => plus (rule CHAR_ - rule CTL_ - rule separators_)
  | quoted_string_ => ch_p '"' >> many (rule qdtext_ <|> rule quoted_pair_) >> ch_p '"'
  | qdtext_ => rule TEXT_ - ch_p '"'
  | quoted_pair_ => ch_p '\\' >> rule CHAR_
  | HTTP_date_ => rule rfc1123_date_ <|> rule rfc850_date_ <|> rule asctime_date_
  | rfc1123_date_ => rule wkday_ >> ch_p ',' >> rule SP_ >> rule date1_ >> rule SP_ >>
      rule time_ >> rule SP_ >> str_p "GMT"
  | rfc850_date_ => rule weekday_ >> ch_p ',' >> rule SP_ >> rule date2_ >> rule SP_ >>
      rule time_ >> rule SP_ >> str_p "GMT"
  | asctime_date_ => rule wkday_ >> rule SP_ >> rule date3_ >> rule SP_ >> rule time_ >>
      rule SP_ >> times 4 (rule DIGIT_)
  | date1_ => times 2 (rule DIGIT_) >> rule SP_ >> rule month_ >> rule SP_ >> times 4 (rule DIGIT_)
  | date2_ => times 2 (rule DIGIT_) >> ch_p '-' >> rule month_ >> ch_p '-' >>
      times 2 (rule DIGIT_)
  | date3_ => rule month_ >> rule SP_ >> (times 2 (rule DIGIT_) <|> (rule SP_ >> rule DIGIT_))
  | time_ => times 2 (rule DIGIT_) >> ch_p ':' >> times 2 (rule DIGIT_) >> ch_p ':' >>
      times 2 (rule DIGIT_)
  | wkday_ => str_p "Mon" <|> str_p "Tue" <|> str_p "Wed" <|> str_p "Thu" <|> str_p "Fri" <|>
      str_p "Sat" <|> str_p "Sun"
  | weekday_ => str_p "Monday" <|> str_p "Tuesday" <|> str_p "Wednesday" <|> str_p "Thursday" <|>
      str_p "Friday" <|> str_p "Saturday" <|> str_p "Sunday"
  | month_ => str_p "Jan" <|> str_p "Feb" <|> str_p "Mar" <|> str_p "Apr" <|> str_p "May" <|>
      str_p "Jun" <|> str_p "Jul" <|> str_p "Aug" <|> str_p "Sep" <|> str_p "Oct" <|>
      str_p "Nov" <|> str_p "Dec"
  | content_coding_ => rule token_
  | parameter_ => rule attribute_ >> ch_p '=' >> rule value_
  | attribute_ => rule token_
  | value_ => rule token_ <|> rule quoted_string_
  | Chunked_Body_ => many (rule chunk_) >> rule last_chunk_ >> rule trailer_ >> rule CRLF_
  | chunk_ => rule chunk_size_p_ >> opt (rule chunk_extension_) >> rule CRLF_ >>
      rule chunk_data_ >> rule CRLF_
  | chunk_size_p_ => act (plus (rule HEX_)) assign_a
  | last_chunk_ => plus (ch_p '0') >> opt (rule chunk_extension_) >> rule CRLF_
  | chunk_extension_ => many (ch_p ';' >> rule chunk_ext_name_ >>
      opt (ch_p '=' >> rule chunk_ext_val_))
  | chunk_ext_name_ => rule token_
  | chunk_ext_val_ => rule token_ <|> rule quoted_string_
  | chunk_data_ => counted id (rule OCTET_)
  | trailer_ => many (rule entity_header_ >> rule CRLF_)
  | media_type_ => rule type_ >> ch_p '/' >> rule subtype_ >> many (ch_p ';' >> rule parameter_)
  | type_ => rule token_
  | subtype_ => rule token_
  | language_tag_ => rule primary_tag_ >> many (ch_p '-' >> rule subtag_)
  | primary_tag_ => between 1 8 (rule ALPHA_)
  | subtag_ => between 1 8 (rule ALPHA_)
  | bytes_unit_ => str_p "bytes"
  | message_header_ => rule field_name_ >> ch_p ':' >> opt (rule field_value_)
  | field_name_ => rule token_
  | field_value_ => many (rule field_content_ <|> rule LWS_)
  | field_content_ => many (rule token_ <|> rule separators_ <|> rule quoted_string_) <|>
      many (rule TEXT_)
  | Method_ => str_p "OPTIONS" <|> str_p "GET" <|> str_p "HEAD" <|> str_p "POST" <|>
      str_p "PUT" <|> str_p "DELETE" <|> str_p "TRACE" <|> str_p "CONNECT" <|>
      rule extension_method_
  | extension_method_ => rule token_
  | entity_header_ => rule Allow_ <|> rule Content_Encoding_ <|> rule Content_Language_ <|>
      rule Content_Length_ <|> rule Content_Location_ <|> rule Content_MD5_ <|>
      rule Content_Range_ <|> rule Content_Type_ <|> rule Expires_ <|> rule Last_Modified_ <|>
      rule extension_header_
  | extension_header_ => rule message_header_
  | Allow_ => str_p "Allow" >> ch_p ':' >>
      ((many (rule LWS_) >> rule Method_ >> many (rule LWS_)) % ch_p ',')
  | Content_Encoding_ => str_p "Content-Encoding" >> ch_p ':' >>
      ((many (rule LWS_) >> rule content_coding_ >> many (rule LWS_)) % ch_p ',')
  | Content_Language_ => str_p "Content-Language" >> ch_p ':' >>
      ((many (rule LWS_) >> rule language_tag_ >> many (rule LWS_)) % ch_p ',')
  | Content_Length_ => str_p "Content-Length" >> ch_p ':' >> plus (rule DIGIT_)
  | Content_Location_ => str_p "Content-Location" >> ch_p ':' >>
      (rule absoluteURI_ <|> rule relativeURI_)
  | Content_MD5_ => str_p "Content-MD5" >> ch_p ';' >> rule md5_digest_
  | md5_digest_ => times 32 (rule HEX_)
  | Content_Range_ => str_p "Content-Range" >> ch_p ':' >> rule content_range_spec_
  | content_range_spec_ => rule byte_content_range_spec_
  | byte_content_range_spec_ => rule bytes_unit_ >> rule SP_ >> rule byte_range_resp_spec_ >>
      ch_p '/' >> (rule instance_length_ <|> ch_p '*')
  | byte_range_resp_spec_ => (rule first_byte_pos_ >> ch_p '-' >> rule last_byte_pos_) <|> ch_p '*'
  | instance_length_ => plus (rule DIGIT_)
  | Content_Type_ => str_p "Content-Type" >> ch_p ':' >> rule media_type_
  | Expires_ => str_p "Expires" >> ch_p ':' >> rule HTTP_date_
  | Last_Modified_ => str_p "Last-Modified" >> ch_p ':' >> rule HTTP_date_
  | first_byte_pos_ => plus (rule DIGIT_)
  | last_byte_pos_ => plus (rule DIGIT_)
  | absoluteURI_ => rule scheme_ >> ch_p ':' >> (rule hier_part_ <|> rule opaque_part_)
  | hier_part_ => (rule net_path_ <|> rule abs_path_) >> opt (ch_p '?' >> rule query_)
  | net_path_ => str_p "//" >> rule authority_ >> opt (rule abs_path_)
  | abs_path_ => ch_p '/' >> rule path_segments_
  | opaque_part_ => rule uric_no_slash_ >> many (rule uric_)
  | uric_no_slash_ => rule unreserved_ <|> rule escaped_ <|> ch_p ';' <|> ch_p '?' <|>
      ch_p ':' <|> ch_p '@' <|> ch_p '&' <|> ch_p '=' <|> ch_p '+' <|> ch_p '$' <|> ch_p ','
  | uric_ => rule reserved_ <|> rule unreserved_ <|> rule escaped_
  | reserved_ => ch_p ';' <|> ch_p '/' <|> ch_p '?' <|> ch_p ':' <|> ch_p '@' <|> ch_p '&' <|>
      ch_p '=' <|> ch_p '+' <|> ch_p '$' <|> ch_p ','
  | unreserved_ => rule ALPHA_ <|> rule DIGIT_ <|> rule mark_
  | mark_ => ch_p '-' <|> ch_p '_' <|> ch_p '.' <|> ch_p '!' <|> ch_p '~' <|> ch_p '*' <|>
      ch_p '\'' <|> ch_p '(' <|> ch_p ')'
  | escaped_ => ch_p '%' >> rule HEX_ >> rule HEX_
  | scheme_ => rule ALPHA_ >> many (rule ALPHA_ <|> rule DIGIT_ <|> ch_p '+' <|> ch_p '-' <|>
      ch_p '.')
  | authority_ => rule server_ <|> rule reg_name_
  | reg_name_ => plus (rule unreserved_ <|> rule escaped_ <|> ch_p '$' <|> ch_p ',' <|>
      ch_p ';' <|> ch_p ':' <|> ch_p '@' <|> ch_p '&' <|> ch_p '=' <|> ch_p '+')
  | server_ => opt (rule userinfo_ >> ch_p '@') >> rule hostport_
  | userinfo_ => many (rule unreserved_ <|> rule escaped_ <|> ch_p ';' <|> ch_p ':' <|>
      ch_p '&' <|> ch_p '=' <|> ch_p '+' <|> ch_p '$' <|> ch_p ',')
  | hostport_ => rule host_ >> opt (ch_p ':' >> rule port_)
  | host_ => rule hostname_ <|> rule IPV4address_
  | hostname_ => many (rule domainlabel_ >> ch_p '.') >> rule toplabel_ >> opt (ch_p '.')
  | domainlabel_ => (rule ALPHA_ <|> rule DIGIT_) <|> ((rule ALPHA_ <|> rule DIGIT_) >>
      many (rule ALPHA_ <|> rule DIGIT_ <|> ch_p '-') >> (rule ALPHA_ <|> rule DIGIT_))
  | toplabel_ => rule ALPHA_ <|> (rule ALPHA_ >>
      many (rule ALPHA_ <|> rule DIGIT_ <|> ch_p '-') >> (rule ALPHA_ <|> rule DIGIT_))
  | IPV4address_ => plus (rule DIGIT_) >> times 3 (ch_p '.' >> plus (rule DIGIT_))
  | port_ => plus (rule DIGIT_)
  | path_segments_ => rule segment_ % ch_p '/'
  | segment_ => many (rule pchar_) >> many (ch_p ';' >> rule param_)
  | param_ => many (rule pchar_)
  | pchar_ => rule unreserved_ <|> rule escaped_ <|> ch_p ':' <|> ch_p '@' <|> ch_p '&' <|>
      ch_p '=' <|> ch_p '+' <|> ch_p '$' <|> ch_p ','
  | query_ => many (rule uric_)
  | relativeURI_ => (rule net_path_ <|> rule abs_path_ <|> rule rel_path_) >>
      opt (ch_p '?' >> rule query_)
  | rel_path_ => rule rel_segment_ >> opt (rule abs_path_)
  | rel_segment_ => plus (rule unreserved_ <|> rule escaped_ <|> ch_p ';' <|> ch_p '@' <|>
      ch_p '&' <|> ch_p '=' <|> ch_p '+' <|> ch_p '$' <|> ch_p ',')

end Arachnida.Spin.Private
