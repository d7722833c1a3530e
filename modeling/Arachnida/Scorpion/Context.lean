import Arachnida.Library.Bytes

/-!
Security contexts, `Scorpion::Context`, as the code handles them.

OpenSSL is abstract: an `SSL_CTX` is the record of the settings it was created for and of the
set-up calls that were made on it, and each set-up call may fail.

* `Settings`, `Setting`: the settings of a context and the setters.
* `configuration`: the set-up calls that `getContext` makes for given settings, in order.
* `getContext`, `copyOnWrite`: on cells that several contexts share, a cell being what the
  `shared_ptr` points to.
* `Op`, `step`: any number of contexts, and what can be done with them.

Assertions are taken as not compiled in.
-/

namespace Arachnida.Scorpion

open Library

/-! ### Settings -/

/-- A file name. -/
abbrev Path := Bytes

/-- `Context::Flags`, the single flags that the code looks at. -/
inductive Flag where
  | use_sslv2__ | use_sslv3__ | use_tlsv1__
  | use_openssl_default_trusted_ca_certificates__
  | work_around_microsoft_session_id_bug__ | work_around_netscape_challenge_bug__
  | work_around_netscape_reuse_cipher_change_bug__ | work_around_sslref2_reuse_cert_type_bug__
  | work_around_microsoft_big_sslv3_buffer_bug__ | work_around_msie_sslv2_rsa_padding_bug__
  | work_around_ssleay_080_client_dh_bug__ | work_around_tls_d5_bug__
  | work_around_tls_block_padding_bug__ | no_session_resumption_negociation__ | no_tickets__
  | dont_insert_empty_fragments__ | work_around_tls_rollback_bug__ | use_dh_only_once__
  | use_ephemeral_rsa__ | use_server_cipher_preferences__ | enable_pkcs1_check_1__
  | enable_pkcs1_check_2__ | work_around_netscape_ca_dn_bug__
  | work_around_netscape_demo_cipher_change_bug__ | enable_partial_write__ | enable_auto_retry__
  deriving DecidableEq, Repr

/-- The bits of a flag. -/
def Flag.bits : Flag → BitVec 32
  | .use_sslv2__ => 0x00000001
  | .use_sslv3__ => 0x00000002
  | .use_tlsv1__ => 0x00000004
  | .use_openssl_default_trusted_ca_certificates__ => 0x00000008
  | .work_around_microsoft_session_id_bug__ => 0x00000080
  | .work_around_netscape_challenge_bug__ => 0x00000100
  | .work_around_netscape_reuse_cipher_change_bug__ => 0x00000200
  | .work_around_sslref2_reuse_cert_type_bug__ => 0x00000400
  | .work_around_microsoft_big_sslv3_buffer_bug__ => 0x00000800
  | .work_around_msie_sslv2_rsa_padding_bug__ => 0x00001000
  | .work_around_ssleay_080_client_dh_bug__ => 0x00002000
  | .work_around_tls_d5_bug__ => 0x00004000
  | .work_around_tls_block_padding_bug__ => 0x00008000
  | .no_session_resumption_negociation__ => 0x00010000
  | .no_tickets__ => 0x00020000
  | .dont_insert_empty_fragments__ => 0x00040000
  | .work_around_tls_rollback_bug__ => 0x00080000
  | .use_dh_only_once__ => 0x00100000
  | .use_ephemeral_rsa__ => 0x00200000
  | .use_server_cipher_preferences__ => 0x00400000
  | .enable_pkcs1_check_1__ => 0x00800000
  | .enable_pkcs1_check_2__ => 0x01000000
  | .work_around_netscape_ca_dn_bug__ => 0x02000000
  | .work_around_netscape_demo_cipher_change_bug__ => 0x04000000
  | .enable_partial_write__ => 0x10000000
  | .enable_auto_retry__ => 0x20000000

/-- The settings of a context. -/
structure Settings where
  flags_ : BitVec 32
  server_certicate_name_ : Path
  /-- The address of the getter, if there is one. -/
  password_getter_ : Option ℕ
  certificate_chain_filename_ : Path
  private_key_filename_ : Path
  trusted_ca_certificates_filename_ : Path
  trusted_ca_certificates_directory_name_ : Path
  certificate_verification_depth_ : UInt32
  deriving DecidableEq

namespace Settings

/-- `flags_ & flag`. -/
def has (s : Settings) (flag : Flag) : Bool := s.flags_ &&& flag.bits ≠ 0

/-- What the constructor sets. -/
def new (flags : BitVec 32) (certificate_verification_depth : UInt32) : Settings :=
  ⟨flags, [], none, [], [], [], [], certificate_verification_depth⟩

end Settings

/-- A setter with its argument. -/
inductive Setting where
  | flags (flags : BitVec 32)
  | serverCertificateFilename (path : Path)
  | certificateChainFilename (path : Path)
  | trustedCACertificatesFilename (path : Path)
  | trustedCACertificatesDirectoryName (path : Path)
  | privateKeyFilename (path : Path)
  | passwordGetter (password_getter : Option ℕ)
  | certificateVerificationDepth (depth : UInt32)
  deriving DecidableEq

/-- The assignment in a setter. -/
def Setting.assign (s : Settings) : Setting → Settings
  | .flags value => { s with flags_ := value }
  | .serverCertificateFilename path => { s with server_certicate_name_ := path }
  | .certificateChainFilename path => { s with certificate_chain_filename_ := path }
  | .trustedCACertificatesFilename path => { s with trusted_ca_certificates_filename_ := path }
  | .trustedCACertificatesDirectoryName path =>
      { s with trusted_ca_certificates_directory_name_ := path }
  | .privateKeyFilename path => { s with private_key_filename_ := path }
  | .passwordGetter getter => { s with password_getter_ := getter }
  | .certificateVerificationDepth depth => { s with certificate_verification_depth_ := depth }

/-! ### Set-up calls -/

/-- The methods of OpenSSL. -/
inductive SSLMethod where
  | sslv2 | sslv3 | tlsv1 | sslv23
  deriving DecidableEq, Repr

/-- `SSL_VERIFY_…`. -/
inductive VerifyFlag where
  | peer | failIfNoPeerCert | clientOnce
  deriving DecidableEq, Repr

/-- `SSL_OP_…`. -/
inductive OptionFlag where
  | microsoftSessIdBug | netscapeChallengeBug | netscapeReuseCipherChangeBug
  | sslref2ReuseCertTypeBug | microsoftBigSslv3Buffer | msieSslv2RsaPadding | ssleay080ClientDhBug
  | tlsD5Bug | tlsBlockPaddingBug | tlsRollbackBug | netscapeCaDnBug | netscapeDemoCipherChangeBug
  | dontInsertEmptyFragments | singleDhUse | ephemeralRsa | cipherServerPreference | pkcs1Check1
  | pkcs1Check2 | noSslv2 | noSslv3 | noTlsv1 | noSessionResumptionOnRenegotiation | noTicket
  deriving DecidableEq, Repr

/-- `SSL_MODE_…`. -/
inductive ModeFlag where
  | enablePartialWrite | autoRetry
  deriving DecidableEq, Repr

/-- A set-up call on an `SSL_CTX`. -/
inductive SetupCall where
  | set_default_passwd_cb (password_getter : ℕ)
  | load_verify_locations (file directory : Path)
  | set_default_verify_paths
  | use_certificate_chain_file (file : Path)
  | use_PrivateKey_file (file : Path)
  | use_certificate_file (file : Path)
  | set_verify (flags : List VerifyFlag)
  | set_verify_depth (depth : UInt32)
  | set_options (flags : List OptionFlag)
  | set_mode (flags : List ModeFlag)
  | set_cipher_list (list : Bytes)
  deriving DecidableEq

/-- Whether the code checks what the call returns. -/
def SetupCall.checked : SetupCall → Bool
  | .load_verify_locations _ _ | .set_default_verify_paths | .use_certificate_chain_file _
  | .use_PrivateKey_file _ | .use_certificate_file _ | .set_cipher_list _ => true
  | _ => false

/-- The `switch` on the transports. -/
def sslMethod (s : Settings) : SSLMethod :=
  let transports := s.flags_ &&& 7
  if transports = 1 then .sslv2
  else if transports = 2 then .sslv3
  else if transports = 4 then .tlsv1
  else .sslv23

/-- The `switch` on the verification mask. -/
def verificationFlags (s : Settings) : List VerifyFlag :=
  let mask := s.flags_ &&& 0x70
  if mask = 0x10 then [.peer]
  else if mask = 0x30 then [.peer, .failIfNoPeerCert]
  else if mask = 0x50 then [.peer, .clientOnce]
  else if mask = 0x70 then [.peer, .failIfNoPeerCert, .clientOnce]
  else []

/-- The options that a flag switches on. -/
def optionTable : List (Flag × OptionFlag) :=
  [(.work_around_microsoft_session_id_bug__, .microsoftSessIdBug),
    (.work_around_netscape_challenge_bug__, .netscapeChallengeBug),
    (.work_around_netscape_reuse_cipher_change_bug__, .netscapeReuseCipherChangeBug),
    (.work_around_sslref2_reuse_cert_type_bug__, .sslref2ReuseCertTypeBug),
    (.work_around_microsoft_big_sslv3_buffer_bug__, .microsoftBigSslv3Buffer),
    (.work_around_msie_sslv2_rsa_padding_bug__, .msieSslv2RsaPadding),
    (.work_around_ssleay_080_client_dh_bug__, .ssleay080ClientDhBug),
    (.work_around_tls_d5_bug__, .tlsD5Bug),
    (.work_around_tls_block_padding_bug__, .tlsBlockPaddingBug),
    (.work_around_tls_rollback_bug__, .tlsRollbackBug),
    (.work_around_netscape_ca_dn_bug__, .netscapeCaDnBug),
    (.work_around_netscape_demo_cipher_change_bug__, .netscapeDemoCipherChangeBug),
    (.dont_insert_empty_fragments__, .dontInsertEmptyFragments),
    (.use_dh_only_once__, .singleDhUse),
    (.use_ephemeral_rsa__, .ephemeralRsa),
    (.use_server_cipher_preferences__, .cipherServerPreference),
    (.enable_pkcs1_check_1__, .pkcs1Check1),
    (.enable_pkcs1_check_2__, .pkcs1Check2)]

/-- The options that a flag switches off. -/
def transportTable : List (Flag × OptionFlag) :=
  [(.use_sslv2__, .noSslv2), (.use_sslv3__, .noSslv3), (.use_tlsv1__, .noTlsv1)]

/-- The options behind the transports; the second is compiled in where OpenSSL has it. -/
def sessionTable : List (Flag × OptionFlag) :=
  [(.no_session_resumption_negociation__, .noSessionResumptionOnRenegotiation),
    (.no_tickets__, .noTicket)]

/-- The option flags. -/
def optionFlags (s : Settings) : List OptionFlag :=
  (optionTable.filter fun p => s.has p.1).map Prod.snd
    ++ (transportTable.filter fun p => !s.has p.1).map Prod.snd
    ++ (sessionTable.filter fun p => s.has p.1).map Prod.snd

/-- The mode flags. -/
def modeFlags (s : Settings) : List ModeFlag :=
  (if s.has .enable_partial_write__ then [.enablePartialWrite] else [])
    ++ if s.has .enable_auto_retry__ then [.autoRetry] else []

/-- `SCORPION_CONTEXT_DEFAULT_CIPHER_LIST`. -/
def defaultCipherList : Bytes := bytes "ALL:!ADH:!LOW:!EXP:!MD5:@STRENGTH"

/-- The set-up calls for given settings, in the order of `getContext`. -/
def configuration (s : Settings) : List SetupCall :=
  (match s.password_getter_ with
    | some getter => [.set_default_passwd_cb getter]
    | none => [])
  ++ (if s.trusted_ca_certificates_filename_ ≠ [] ∨ s.trusted_ca_certificates_directory_name_ ≠ []
    then [.load_verify_locations s.trusted_ca_certificates_filename_
      s.trusted_ca_certificates_directory_name_] else [])
  ++ (if s.has .use_openssl_default_trusted_ca_certificates__ then [.set_default_verify_paths]
    else [])
  ++ (if s.certificate_chain_filename_ ≠ [] then
    [.use_certificate_chain_file s.certificate_chain_filename_] else [])
  ++ (if s.private_key_filename_ ≠ [] then [.use_PrivateKey_file s.private_key_filename_] else [])
  ++ (if s.server_certicate_name_ ≠ [] then [.use_certificate_file s.server_certicate_name_]
    else [])
  ++ [.set_verify (verificationFlags s), .set_verify_depth s.certificate_verification_depth_,
    .set_options (optionFlags s), .set_mode (modeFlags s), .set_cipher_list defaultCipherList]

/-! ### The context -/

/-- An `SSL_CTX`: the settings it was created for, its method, and the set-up calls made on it. -/
structure SSLContext where
  settings : Settings
  method : SSLMethod
  applied : List SetupCall
  deriving DecidableEq

/-- The `SSL_CTX` that has gone through every set-up call for its settings. -/
def SSLContext.configured (s : Settings) : SSLContext := ⟨s, sslMethod s, configuration s⟩

/-- `Context`: its settings, and the cell that `ssl_context_` points to. -/
structure Context where
  settings : Settings
  ssl_context_ : ℕ
  deriving DecidableEq

/-- The cells: an `SSL_CTX` or a null pointer in each. -/
abbrev Cells := ℕ → Option SSLContext

/-- Which calls of OpenSSL fail while one call of `getContext` runs. -/
structure Outcomes where
  allocation : Bool
  setup : SetupCall → Bool

/-- No call of OpenSSL fails. -/
def Outcomes.good : Outcomes := ⟨false, fun _ => false⟩

/-- The exceptions of `getContext`. -/
inductive ContextError where
  | contextAllocationError
  | sslContextSetupError
  deriving DecidableEq, Repr

/-- The set-up calls one after the other, up to the first that is checked and fails: the calls
that were made with success, and whether none failed. -/
def setUp (fails : SetupCall → Bool) : List SetupCall → List SetupCall × Bool
  | [] => ([], true)
  | call :: calls =>
      if call.checked && fails call then ([], false)
      else (call :: (setUp fails calls).1, (setUp fails calls).2)

/-- `Context::getContext`. -/
def getContext (cells : Cells) (context : Context) (outcomes : Outcomes) :
    Except ContextError SSLContext × Cells :=
  match cells context.ssl_context_ with
  | some ssl => (.ok ssl, cells)
  | none =>
      if outcomes.allocation then (.error .contextAllocationError, cells)
      else
        let made := setUp outcomes.setup (configuration context.settings)
        let ssl := ⟨context.settings, sslMethod context.settings, made.1⟩
        -- the cell is filled before the calls that may fail
        (if made.2 then .ok ssl else .error .sslContextSetupError,
          Function.update cells context.ssl_context_ (some ssl))

/-! ### Any number of contexts -/

/-- The live contexts by name, the cells, and the first cell that was never used. -/
structure State where
  objects : ℕ → Option Context
  cells : Cells
  next : ℕ

/-- No contexts. -/
def State.init : State := ⟨fun _ => none, fun _ => none, 0⟩

/-- `copyOnWrite`: a context whose cell is filled gets a new one. -/
def State.copyOnWrite (s : State) (context : Context) : State × Context :=
  if (s.cells context.ssl_context_).isSome then
    ({ s with next := s.next + 1 }, { context with ssl_context_ := s.next })
  else (s, context)

/-- What can be done with contexts. -/
inductive Op where
  | construct (x : ℕ) (flags : BitVec 32) (depth : UInt32)
  | copy (x y : ℕ)
  | assign (x y : ℕ)
  | swap (x y : ℕ)
  | set (x : ℕ) (v : Setting)
  | getContext (x : ℕ) (outcomes : Outcomes)
  | destroy (x : ℕ)

/-- The state behind an operation, if the contexts that it needs exist and those it creates do
not. -/
def step (s : State) : Op → Option State
  | .construct x flags depth =>
      match s.objects x with
      | some _ => none
      | none => some {
          objects := Function.update s.objects x (some ⟨.new flags depth, s.next⟩)
          cells := s.cells
          next := s.next + 1 }
  | .copy x y =>
      match s.objects x, s.objects y with
      | none, some b => some { s with objects := Function.update s.objects x (some b) }
      | _, _ => none
  | .assign x y =>
      -- the argument is a copy, and is swapped with the object
      match s.objects x, s.objects y with
      | some _, some b => some { s with objects := Function.update s.objects x (some b) }
      | _, _ => none
  | .swap x y =>
      match s.objects x, s.objects y with
      | some a, some b =>
          some { s with
            objects := Function.update (Function.update s.objects x (some b)) y (some a) }
      | _, _ => none
  | .set x v =>
      match s.objects x with
      | none => none
      | some a =>
          let written := s.copyOnWrite a
          some { written.1 with
            objects := Function.update s.objects x
              (some { written.2 with settings := v.assign a.settings }) }
  | .getContext x outcomes =>
      match s.objects x with
      | none => none
      | some a => some { s with cells := (Scorpion.getContext s.cells a outcomes).2 }
  | .destroy x =>
      match s.objects x with
      | none => none
      | some _ => some { s with objects := Function.update s.objects x none }

end Arachnida.Scorpion
