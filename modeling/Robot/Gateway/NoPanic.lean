import Robot.Gateway.Renegotiation
import Robot.Lib.Machine

/-!
# What the peer can make panic

`HandleKeyExchangeRsp` and `DecodeMessage` hand fields of the peer's messages to libraries
that panic on some of them: an AEAD on a nonce of another length than its own, ChaCha20-Poly1305
also on a ciphertext that is too large, CBC on an IV of another length with a message of whole
blocks, XXTEA on a multiple of `2 ^ 32` words, and `make` on a size that is negative or too large.
Nothing checks these fields before. This module says exactly which messages panic in which session
(`decodePostPayload_panics_iff`, `acceptKeyExchangeRsp_panics_iff`), and then follows a session from
`NewGatewaySession` through handshakes, received frames and sent posts.

A nil private key would be another panic, which a request before the response rules out
(`keyMaterial_no_panic`). The one invariant is that a compressor was made by `NewCompressor`
(`MadeCompressor`), since it is the kind of the compressor that decides what `Length` may be,
and that kind need not be the selected one after a second handshake.
-/

namespace Robot.Gateway

open Robot.Lib HandshakeFailure

/-! ## Panics -/

/-- The call panics. -/
def Panics {α : Type} (r : Except Failure α) : Prop := ∃ text, r = .error (.panicked text)

section

variable {α β : Type}

@[simp] theorem panics_ok (a : α) : ¬ Panics (.ok a : Except Failure α) := by
  intro h
  obtain ⟨text, h⟩ := h
  cases h

@[simp] theorem panics_err (e : String) : ¬ Panics (.error (.err e) : Except Failure α) := by
  intro h
  obtain ⟨text, h⟩ := h
  cases h

@[simp] theorem panics_panicked (text : String) :
    Panics (.error (.panicked text) : Except Failure α) := ⟨text, rfl⟩

/-- An error value is wrapped; a panic goes through. -/
@[simp] theorem panics_wrap (text : String) (f : Failure) :
    Panics (.error (f.wrap text) : Except Failure α) ↔ Panics (.error f : Except Failure α) := by
  cases f with
  | err e => exact ⟨fun h => absurd h (panics_err _), fun h => absurd h (panics_err _)⟩
  | panicked e => exact ⟨fun _ => panics_panicked e, fun _ => panics_panicked e⟩

/-- The type of the result does not matter to a failure. -/
theorem panics_error_iff (f : Failure) :
    Panics (.error f : Except Failure α) ↔ Panics (.error f : Except Failure β) := by
  cases f with
  | err e => exact ⟨fun h => absurd h (panics_err _), fun h => absurd h (panics_err _)⟩
  | panicked e => exact ⟨fun _ => panics_panicked e, fun _ => panics_panicked e⟩

@[simp] theorem panics_map (r : Except Failure α) (f : α → β) : Panics (r.map f) ↔ Panics r := by
  cases r with
  | error e => exact panics_error_iff e
  | ok a => exact ⟨fun h => absurd h (panics_ok _), fun h => absurd h (panics_ok _)⟩

end

/-! ## Ciphers -/

/-- The ciphertext and the IV meet the preconditions of the cipher behind `Decrypt`. -/
def CipherSuite.Fits (suite : CipherSuite) (ciphertext iv : Bytes) : Prop :=
  match suite with
  | .aesGCM aead _ => iv.length = aead.nonceSize
  | .aesCBC _ _ => ciphertext.length = 0 ∨ ciphertext.length % 16 ≠ 0 ∨ iv.length = 16
  | .chacha20Poly1305 aead _ => iv.length = aead.nonceSize ∧ ciphertext.length ≤ chachaMax + 16
  | .xchacha20Poly1305 aead _ => iv.length = aead.nonceSize ∧ ciphertext.length ≤ chachaMax + 16
  | .xxtea _ params => ciphertext.length % params.blockSize ≠ 0 ∨ ciphertext.length / 4 = 0 ∨
      ciphertext.length / 4 % 2 ^ 32 ≠ 0

theorem openWith_panics_iff (a : AEAD) (text : String) (ciphertext iv aad : Bytes) :
    Panics (a.openWith text ciphertext iv aad) ↔ ¬ iv.length = a.nonceSize := by
  unfold AEAD.openWith
  split
  next hne => exact ⟨fun _ => hne, fun _ => panics_panicked text⟩
  next heq =>
    refine ⟨fun h => ?_, fun hne => absurd hne heq⟩
    split at h
    · exact absurd h (panics_err _)
    · exact absurd h (panics_ok _)

theorem openChacha_panics_iff (a : AEAD) (ciphertext iv aad : Bytes) :
    Panics (a.openChacha ciphertext iv aad)
      ↔ ¬ (iv.length = a.nonceSize ∧ ciphertext.length ≤ chachaMax + 16) := by
  unfold AEAD.openChacha
  split
  next hlarge => exact ⟨fun _ h => Nat.not_le.mpr hlarge.2 h.2, fun _ => panics_panicked _⟩
  next hsmall =>
    rw [openWith_panics_iff, not_iff_not]
    exact ⟨fun hiv => ⟨hiv, Nat.not_lt.mp fun h => hsmall ⟨hiv, h⟩⟩, fun h => h.1⟩

theorem cbcSuiteDecrypt_panics_iff (block : BlockCipher) (ciphertext iv : Bytes) :
    Panics (cbcSuiteDecrypt block ciphertext iv)
      ↔ ¬ (ciphertext.length = 0 ∨ ciphertext.length % 16 ≠ 0 ∨ iv.length = 16) := by
  unfold cbcSuiteDecrypt
  split
  next hlen =>
    refine ⟨fun h => absurd h (panics_err _), fun h => absurd ?_ h⟩
    exact hlen.elim Or.inl fun h => Or.inr (Or.inl h)
  next hlen =>
    obtain ⟨hpos, hmod⟩ := not_or.mp hlen
    split
    next hiv => exact ⟨fun _ h => h.elim hpos fun h => h.elim hmod hiv, fun _ => panics_panicked _⟩
    next hiv =>
      exact ⟨fun h => absurd h (panics_ok _), fun h => absurd (Or.inr (Or.inr (not_not.mp hiv))) h⟩

theorem xxteaDecryptBlock_eq_none {v : List UInt32} {key : XxteaKey} :
    xxteaDecryptBlock v key = none ↔ v.length ≠ 0 ∧ v.length % 2 ^ 32 = 0 := by
  unfold xxteaDecryptBlock
  split
  next hlt =>
    constructor
    · intro h
      cases h
    · intro h
      omega
  next hge =>
    rw [Option.map_eq_none_iff]
    unfold xxteaRounds
    split
    next hzero => exact ⟨fun _ => ⟨by omega, hzero⟩, fun _ => rfl⟩
    next hpos =>
      constructor
      · intro h
        cases h
      · intro h
        exact absurd h.2 hpos

theorem xxteaSuiteDecrypt_panics_iff (key : XxteaKey) (blockSize : Nat) (ciphertext : Bytes) :
    Panics (xxteaSuiteDecrypt key blockSize ciphertext)
      ↔ ¬ (ciphertext.length % blockSize ≠ 0 ∨ ciphertext.length / 4 = 0 ∨
        ciphertext.length / 4 % 2 ^ 32 ≠ 0) := by
  have hnone : xxteaDecryptBlock (wordsLE ciphertext) key = none
      ↔ (wordsLE ciphertext).length ≠ 0 ∧ (wordsLE ciphertext).length % 2 ^ 32 = 0 :=
    xxteaDecryptBlock_eq_none
  rw [wordsLE_length] at hnone
  unfold xxteaSuiteDecrypt
  split
  next hlen =>
    refine ⟨fun h => absurd h (panics_err _), fun h => absurd ?_ h⟩
    rcases hlen with h0 | hmod
    · exact Or.inr (Or.inl (by omega))
    · exact Or.inl hmod
  next hlen =>
    obtain ⟨-, hmod⟩ := not_or.mp hlen
    unfold orDivideByZero
    split
    next hzero =>
      obtain ⟨hpos, hz⟩ := hnone.mp hzero
      exact ⟨fun _ h => h.elim hmod fun h => h.elim hpos fun h => h hz, fun _ => panics_panicked _⟩
    next words hwords =>
      refine ⟨fun h => absurd h (panics_ok _), fun h => ?_⟩
      obtain ⟨-, h⟩ := not_or.mp h
      obtain ⟨hpos, hz⟩ := not_or.mp h
      rw [hnone.mpr ⟨hpos, not_not.mp hz⟩] at hwords
      cases hwords

/-- **`Decrypt` panics exactly if a precondition of its cipher fails.** -/
theorem CipherSuite.decrypt_panics_iff (suite : CipherSuite) (ciphertext iv aad : Bytes) :
    Panics (suite.decrypt ciphertext iv aad) ↔ ¬ suite.Fits ciphertext iv := by
  cases suite with
  | aesGCM aead params => exact openWith_panics_iff aead _ ciphertext iv aad
  | aesCBC block params => exact cbcSuiteDecrypt_panics_iff block ciphertext iv
  | chacha20Poly1305 aead params => exact openChacha_panics_iff aead ciphertext iv aad
  | xchacha20Poly1305 aead params => exact openChacha_panics_iff aead ciphertext iv aad
  | xxtea key params => exact xxteaSuiteDecrypt_panics_iff key params.blockSize ciphertext

/-! ## Compressors -/

/-- `make` accepts what a compressor of this kind asks for: zstd and lz4 take `int(Length)` as it
is, zlib after it has read its header, and snappy does not use it. -/
def CompressionLib.Fits (lib : CompressionLib) (kind : CompressionAlgorithm) (data : Bytes)
    (length : Int) : Prop :=
  match kind with
  | .zstd => lib.Makes length
  | .lz4 => lib.Makes length
  | .zlib => (∃ e, lib.zlibNewReader data = .error e) ∨ lib.Makes length
  | _ => True

theorem orError_no_panic (text : String) (r : Except String Bytes) : ¬ Panics (orError text r) := by
  unfold orError
  split
  · exact panics_err _
  · exact panics_ok _

theorem withMake_panics_iff (lib : CompressionLib) (part : String) (size : Int)
    {rest : Except Failure Bytes} (hrest : ¬ Panics rest) :
    Panics (lib.withMake part size rest) ↔ ¬ lib.Makes size := by
  unfold CompressionLib.withMake
  split
  next hmakes => exact ⟨fun h => absurd h hrest, fun h => absurd hmakes h⟩
  next hno => exact ⟨fun _ => hno, fun _ => panics_panicked _⟩

/-- **`Decompress` panics exactly if `make` does.** -/
theorem decompress_panics_iff {lib : CompressionLib} {kind : CompressionAlgorithm} {c : Compressor}
    (hc : newCompressor lib kind = .ok c) (data : Bytes) (length : Int) :
    Panics (c.decompress data length) ↔ ¬ lib.Fits kind data length := by
  cases kind with
  | none => cases hc
  | other code free => cases hc
  | zstd =>
    cases hc
    exact withMake_panics_iff lib _ length (orError_no_panic _ _)
  | lz4 =>
    cases hc
    exact withMake_panics_iff lib _ length (orError_no_panic _ _)
  | snappy =>
    cases hc
    exact ⟨fun h => absurd h (orError_no_panic _ _), fun h => absurd trivial h⟩
  | zlib =>
    cases hc
    show Panics ((zlibCompressor lib).decompress data length)
      ↔ ¬ ((∃ e, lib.zlibNewReader data = .error e) ∨ lib.Makes length)
    unfold zlibCompressor
    simp only
    split
    next e he => exact ⟨fun h => absurd h (panics_err _), fun h => absurd (Or.inl ⟨e, he⟩) h⟩
    next readAll hread =>
      rw [withMake_panics_iff lib _ length (orError_no_panic _ _)]
      refine ⟨fun h hor => ?_, fun h hmakes => h (Or.inr hmakes)⟩
      rcases hor with ⟨e, he⟩ | hmakes
      · rw [hread] at he
        cases he
      · exact h hmakes

/-! ## Posts -/

/-- The compressor was made by `NewCompressor`. -/
def MadeCompressor (lib : CompressionLib) (s : GatewaySession) : Prop :=
  ∀ c ∈ s.compressor, ∃ kind, newCompressor lib kind = .ok c

/-- If the post is decrypted, it fits the cipher: with its own IV, or with the receive IV. -/
def PostInfo.FitsCipher (post : PostInfo) (s : GatewaySession) : Prop :=
  ∀ crypto ∈ post.crypto, ∀ suite ∈ s.cipher, crypto.algorithm ≠ .none →
    suite.Fits post.data (if crypto.iv.length = 0 then s.recvIV else crypto.iv)

/-- If `data` is decompressed, the length of the post fits the compressor. -/
def PostInfo.FitsLength (post : PostInfo) (lib : CompressionLib) (s : GatewaySession)
    (data : Bytes) : Prop :=
  ∀ compression ∈ post.compression, ∀ c ∈ s.compressor, compression.type ≠ .none →
    ∀ kind, newCompressor lib kind = .ok c →
      lib.Fits kind (trimTo data compression.originalSize) post.length.toInt64.toInt

/-- The post fits the cipher and, once it is decrypted, the compressor. -/
structure PostInfo.Fits (post : PostInfo) (lib : CompressionLib) (s : GatewaySession) : Prop where
  cipher : post.FitsCipher s
  length : ∀ data, (decryptData s post).1 = .ok data → post.FitsLength lib s data

theorem decryptData_panics_iff (s : GatewaySession) (post : PostInfo) :
    Panics (decryptData s post).1 ↔ ¬ post.FitsCipher s := by
  unfold PostInfo.FitsCipher decryptData
  cases hcrypto : post.crypto with
  | none =>
    refine ⟨fun h => absurd h (panics_ok _), fun h => absurd ?_ h⟩
    intro crypto hc
    cases hc
  | some crypto =>
    cases hcipher : s.cipher with
    | none =>
      refine ⟨fun h => absurd h (panics_ok _), fun h => absurd ?_ h⟩
      intro _ _ suite hs
      cases hs
    | some suite =>
      have hall : ∀ (P : CryptoInfo → CipherSuite → Prop),
          (∀ c ∈ some crypto, ∀ t ∈ some suite, P c t) ↔ P crypto suite :=
        fun P => ⟨fun h => h crypto rfl suite rfl, fun h c hc t ht => by cases hc; cases ht; exact h⟩
      rw [hall fun c t => c.algorithm ≠ .none →
        t.Fits post.data (if c.iv.length = 0 then s.recvIV else c.iv)]
      simp only
      split
      next hnone => exact ⟨fun h => absurd h (panics_ok _), fun h => absurd (fun hne => absurd hnone hne) h⟩
      next hne =>
        have hdec := suite.decrypt_panics_iff post.data
          (if crypto.iv.length = 0 then s.recvIV else crypto.iv) crypto.aad
        split
        next f hf =>
          rw [hf] at hdec
          rw [panics_wrap, hdec]
          exact ⟨fun h hfits => h (hfits hne), fun h hfits => h fun _ => hfits⟩
        next plain hplain =>
          rw [hplain] at hdec
          refine ⟨fun h => absurd h (panics_ok _), fun h => ?_⟩
          exact absurd (hdec.mpr fun hfits => h fun _ => hfits) (panics_ok _)

theorem decompressData_panics_iff {lib : CompressionLib} {s : GatewaySession}
    (hs : MadeCompressor lib s) (post : PostInfo) (data : Bytes) :
    Panics (decompressData s post data) ↔ ¬ post.FitsLength lib s data := by
  unfold PostInfo.FitsLength decompressData
  cases hcompression : post.compression with
  | none =>
    refine ⟨fun h => absurd h (panics_ok _), fun h => absurd ?_ h⟩
    intro compression hc
    cases hc
  | some compression =>
    cases hcompressor : s.compressor with
    | none =>
      refine ⟨fun h => absurd h (panics_ok _), fun h => absurd ?_ h⟩
      intro _ _ c hc
      cases hc
    | some c =>
      obtain ⟨kind, hkind⟩ := hs c hcompressor
      have hall : ∀ (P : CompressionInfo → Compressor → Prop),
          (∀ x ∈ some compression, ∀ y ∈ some c, P x y) ↔ P compression c :=
        fun P => ⟨fun h => h compression rfl c rfl, fun h x hx y hy => by cases hx; cases hy; exact h⟩
      rw [hall fun x y => x.type ≠ .none → ∀ kind, newCompressor lib kind = .ok y →
        lib.Fits kind (trimTo data x.originalSize) post.length.toInt64.toInt]
      simp only
      split
      next hnone =>
        exact ⟨fun h => absurd h (panics_ok _), fun h => absurd (fun hne => absurd hnone hne) h⟩
      next hne =>
        -- every kind the compressor can be of says the same
        have hpanics : Panics (c.decompress (trimTo data compression.originalSize)
              post.length.toInt64.toInt)
            ↔ ¬ (compression.type ≠ .none → ∀ kind, newCompressor lib kind = .ok c →
              lib.Fits kind (trimTo data compression.originalSize) post.length.toInt64.toInt) := by
          constructor
          · intro h hfits
            exact (decompress_panics_iff hkind _ _).mp h (hfits hne kind hkind)
          · intro h
            by_contra hno
            refine h fun _ kind' hkind' => ?_
            exact not_not.mp fun hmiss => hno ((decompress_panics_iff hkind' _ _).mpr hmiss)
        rw [← hpanics]
        split
        next f hf =>
          rw [hf]
          exact panics_wrap _ f
        next out hout => rw [hout]

/-- A post panics where its decryption or its decompression does. -/
theorem decodePostPayload_panics (s : GatewaySession) (post : PostInfo) :
    Panics (decodePostPayload s post).1
      ↔ Panics (decryptData s post).1 ∨ ∃ data, (decryptData s post).1 = .ok data ∧
        Panics (decompressData (decryptData s post).2 post data) := by
  unfold decodePostPayload
  cases hdec : decryptData s post with
  | mk result s' =>
    cases result with
    | error f =>
      simp only
      rw [panics_error_iff f]
      refine ⟨Or.inl, fun h => ?_⟩
      rcases h with h | ⟨data, hdata, -⟩
      · exact h
      · cases hdata
    | ok data =>
      have hrest : Panics (decompressData s' post data)
          ↔ Panics (.ok data : Except Failure Bytes) ∨ ∃ data', (Except.ok data : Except Failure Bytes)
            = .ok data' ∧ Panics (decompressData s' post data') := by
        refine ⟨fun h => Or.inr ⟨data, rfl, h⟩, fun h => ?_⟩
        rcases h with h | ⟨data', hdata, h⟩
        · exact absurd h (panics_ok _)
        · cases hdata
          exact h
      simp only
      rw [← hrest]
      split
      next f hf =>
        rw [hf]
        exact panics_error_iff f
      next out hout =>
        rw [hout]
        exact ⟨fun h => absurd h (panics_ok _), fun h => absurd h (panics_ok _)⟩

/-- **A post panics exactly if it does not fit the cipher or the compressor.** -/
theorem decodePostPayload_panics_iff {lib : CompressionLib} {s : GatewaySession}
    (hs : MadeCompressor lib s) (post : PostInfo) :
    Panics (decodePostPayload s post).1 ↔ ¬ post.Fits lib s := by
  obtain ⟨iv, hiv⟩ := decryptData_session s post
  rw [decodePostPayload_panics, decryptData_panics_iff, hiv]
  constructor
  · intro h hfits
    rcases h with h | ⟨data, hdata, h⟩
    · exact h hfits.cipher
    · exact (decompressData_panics_iff hs post data).mp h (hfits.length data hdata)
  · intro h
    by_cases hcipher : post.FitsCipher s
    · right
      by_contra hno
      refine h ⟨hcipher, fun data hdata => ?_⟩
      by_contra hlength
      exact hno ⟨data, hdata, (decompressData_panics_iff hs post data).mpr hlength⟩
    · exact Or.inl hcipher

/-! ## Responses -/

/-- There is a private key, if the key exchange needs one: `BuildKeyExchangeReq` has been called. -/
def ClientSession.HasKey (s : ClientSession) : Prop := s.config.keyExchange = .none ∨ s.privateKey ≠ none

theorem computeECDHSharedSecret_no_panic {keys : KeyLib} {privKey : Option Bytes} {peer : Bytes}
    {ke : KeyExchange} (h : ke = .none ∨ privKey ≠ none) :
    ¬ Panics (computeECDHSharedSecret keys privKey peer ke) := by
  unfold computeECDHSharedSecret
  split
  · exact panics_ok _
  next hne =>
    obtain ⟨key, rfl⟩ := Option.ne_none_iff_exists'.mp (h.resolve_left hne)
    split
    · exact panics_err _
    · split
      · exact panics_err _
      · split
        · exact panics_err _
        · simp only
          split
          · exact panics_err _
          · exact panics_ok _

variable {lib : Libraries} {s : ClientSession} {hs : HandshakeInfo} {fb : HandshakeBuffers}

/-- After a request there is no nil pointer to follow. -/
theorem keyMaterial_no_panic {keys : KeyLib} (h : s.HasKey) : ¬ Panics (keyMaterial keys s hs) := by
  unfold keyMaterial
  split
  · exact panics_ok _
  · have hsecret : ¬ Panics (computeECDHSharedSecret keys s.privateKey hs.publicKey s.config.keyExchange) :=
      computeECDHSharedSecret_no_panic h
    split
    next f hf =>
      rw [hf] at hsecret
      rw [panics_wrap, panics_error_iff f]
      exact hsecret
    · split
      · exact panics_err _
      · split
        · exact panics_err _
        · exact panics_ok _

/-- The token fits a cipher, under the IV the response names. -/
def HandshakeInfo.FitsToken (hs : HandshakeInfo) (suite : CipherSuite) : Prop :=
  ∀ init ∈ hs.initializeCrypto, hs.sessionToken.length > 0 → suite.Fits hs.sessionToken init.iv

/-- The cipher for the token: the one there was if the response selects no algorithm, and a new
one otherwise. -/
def TokenCipher (lib : Libraries) (s : ClientSession) (hs : HandshakeInfo) (suite : CipherSuite) : Prop :=
  (hs.selects s = .none ∧ s.cipher = some suite) ∨
  (hs.selects s ≠ .none ∧ ∃ key baseIV, keyMaterial lib.keys (storeNegotiated s hs) hs = .ok (key, baseIV) ∧
    newCipherSuite lib.prim (hs.selects s) key = .ok suite)

theorem andThen_panics {α : Type} (r : Except Failure Unit × ClientSession)
    (next : ClientSession → Except Failure α × ClientSession) :
    Panics (andThen r next).1 ↔ Panics r.1 ∨ ∃ s, r = (.ok (), s) ∧ Panics (next s).1 := by
  obtain ⟨result, s⟩ := r
  cases result with
  | error f =>
    refine (panics_error_iff f).trans ⟨Or.inl, fun h => ?_⟩
    rcases h with h | ⟨s', hs', -⟩
    · exact h
    · cases hs'
  | ok u =>
    refine ⟨fun h => Or.inr ⟨s, rfl, h⟩, fun h => ?_⟩
    rcases h with h | ⟨s', hs', h⟩
    · exact absurd h (panics_ok _)
    · cases hs'
      exact h

theorem createCipher_no_panic (prim : Primitives) (s : ClientSession) (key : Bytes) :
    ¬ Panics (createCipher prim s key).1 := by
  unfold createCipher
  split
  · exact panics_ok _
  · split
    · exact panics_err _
    · exact panics_ok _

theorem createCompressor_no_panic (comp : CompressionLib) (s : ClientSession) :
    ¬ Panics (createCompressor comp s).1 := by
  unfold createCompressor
  split
  · exact panics_ok _
  · split
    · exact panics_err _
    · exact panics_ok _

theorem decryptToken_panics_iff (s : ClientSession) (hs : HandshakeInfo) :
    Panics (decryptToken s hs).1 ↔ ∃ suite, s.cipher = some suite ∧ ¬ hs.FitsToken suite := by
  unfold HandshakeInfo.FitsToken decryptToken
  split
  next suite init hsuite hinit =>
    have hdec := suite.decrypt_panics_iff hs.sessionToken init.iv init.aad
    rw [hsuite, hinit]
    have hfits : (∃ suite', some suite = some suite' ∧ ¬ ∀ init' ∈ some init, hs.sessionToken.length > 0 →
          suite'.Fits hs.sessionToken init'.iv)
        ↔ hs.sessionToken.length > 0 ∧ ¬ suite.Fits hs.sessionToken init.iv := by
      constructor
      · intro h
        obtain ⟨suite', hs', hno⟩ := h
        cases hs'
        refine ⟨?_, fun hok => hno fun init' hi' _ => by cases hi'; exact hok⟩
        by_contra h0
        exact hno fun _ _ hpos => absurd hpos h0
      · intro h
        exact ⟨suite, rfl, fun hall => h.2 (hall init rfl h.1)⟩
    rw [hfits]
    split
    next hpos =>
      rw [← hdec]
      split
      next e he =>
        rw [he]
        exact ⟨fun h => absurd h (panics_err _), fun h => absurd h.2 (panics_err _)⟩
      next e he =>
        rw [he]
        exact ⟨fun _ => ⟨hpos, panics_panicked e⟩, fun _ => panics_panicked e⟩
      next token htoken =>
        rw [htoken]
        exact ⟨fun h => absurd h (panics_ok _), fun h => absurd h.2 (panics_ok _)⟩
    next h0 => exact ⟨fun h => absurd h (panics_ok _), fun h => absurd h.1 h0⟩
  next hnot =>
    refine ⟨fun h => absurd h (panics_ok _), fun h => ?_⟩
    obtain ⟨suite, hsuite, hno⟩ := h
    exact absurd (fun init hinit _ => absurd hinit (hnot suite init hsuite)) hno

/-- It is the cipher after `createCipher`. -/
theorem tokenCipher_iff {key baseIV : Bytes}
    (hkeys : keyMaterial lib.keys (storeNegotiated s hs) hs = .ok (key, baseIV)) (suite : CipherSuite) :
    TokenCipher lib s hs suite ↔ ∃ s₁, createCipher lib.prim (storeNegotiated s hs) key = (.ok (), s₁) ∧
      s₁.cipher = some suite := by
  constructor
  · intro h
    rcases h with ⟨hnone, hold⟩ | ⟨hne, key', baseIV', hk, hnew⟩
    · exact ⟨storeNegotiated s hs, if_pos hnone, hold⟩
    · rw [hkeys] at hk
      cases hk
      exact ⟨_, createCipher_created hne hnew, rfl⟩
  · intro h
    obtain ⟨s₁, hs₁, hsuite⟩ := h
    obtain ⟨cipher, policy, rfl, hkept, hcreated⟩ := createCipher_ok hs₁
    have hcipher : cipher = some suite := hsuite
    by_cases hnone : hs.selects s = .none
    · have hold : cipher = s.cipher := (hkept hnone).1
      exact Or.inl ⟨hnone, hold.symm.trans hcipher⟩
    · obtain ⟨suite', hnew, hcipher', -⟩ := hcreated hnone
      rw [hcipher] at hcipher'
      cases hcipher'
      exact Or.inr ⟨hnone, key, baseIV, hkeys, hnew⟩

/-- Without keys there is a cipher for the token only if no keys are needed. -/
theorem not_tokenCipher {f : Failure}
    (hkeys : keyMaterial lib.keys (storeNegotiated s hs) hs = .error f) (suite : CipherSuite) :
    ¬ TokenCipher lib s hs suite := by
  intro h
  rcases h with ⟨hnone, -⟩ | ⟨-, key, baseIV, hk, -⟩
  · have hempty : keyMaterial lib.keys (storeNegotiated s hs) hs = .ok ([], []) := if_pos hnone
    rw [hempty] at hkeys
    cases hkeys
  · rw [hkeys] at hk
    cases hk

/-- **A response panics exactly if its token does not fit the cipher** it is decrypted with. -/
theorem acceptKeyExchangeRsp_panics_iff (fb : HandshakeBuffers) (hkey : s.HasKey) :
    Panics (acceptKeyExchangeRsp lib fb s hs).1
      ↔ ¬ ∀ suite, TokenCipher lib s hs suite → hs.FitsToken suite := by
  have hno : ¬ Panics (keyMaterial lib.keys (storeNegotiated s hs) hs) := keyMaterial_no_panic hkey
  unfold acceptKeyExchangeRsp
  simp only
  cases hkeys : keyMaterial lib.keys (storeNegotiated s hs) hs with
  | error f =>
    rw [hkeys] at hno
    refine ⟨fun h => absurd ((panics_error_iff f).mp h) hno, fun h => absurd ?_ h⟩
    intro suite hsuite
    exact absurd hsuite (not_tokenCipher hkeys suite)
  | ok material =>
    obtain ⟨key, baseIV⟩ := material
    simp only
    rw [andThen_panics]
    constructor
    · intro h hall
      rcases h with h | ⟨s₁, hs₁, h⟩
      · exact createCipher_no_panic _ _ _ h
      · rcases (andThen_panics _ _).mp h with h | ⟨s₂, -, h⟩
        · obtain ⟨suite, hsuite, hmiss⟩ := (decryptToken_panics_iff s₁ hs).mp h
          exact hmiss (hall suite ((tokenCipher_iff hkeys suite).mpr ⟨s₁, hs₁, hsuite⟩))
        · rcases (andThen_panics _ _).mp h with h | ⟨s₃, -, h⟩
          · exact createCompressor_no_panic _ _ h
          · exact panics_ok _ h
    · intro h
      obtain ⟨suite, hmiss⟩ := not_forall.mp h
      obtain ⟨htoken, hmiss⟩ := Classical.not_imp.mp hmiss
      obtain ⟨s₁, hs₁, hsuite⟩ := (tokenCipher_iff hkeys suite).mp htoken
      refine Or.inr ⟨s₁, hs₁, (andThen_panics _ _).mpr (Or.inl ?_)⟩
      exact (decryptToken_panics_iff s₁ hs).mpr ⟨suite, hsuite, hmiss⟩

/-! ## Runs -/

/-- What happens to a session: a request, the response to one, a received frame, a sent post. -/
inductive ClientEvent where
  | request (generated : Except String (Bytes × Bytes))
      (access : Bytes → Except String (Int64 × UInt64 × UInt64 × List Bytes))
  | response (frameData : Bytes)
  | receive (frameData : Bytes)
  | send (payload : Bytes) (rand : Except String Bytes)

/-- A call's result and the session after it; a panic ends the run. -/
def unlessPanic {α : Type} (s : ClientSession) : Except Failure α → Option ClientSession
  | .error (.panicked _) => none
  | _ => some s

/-- The failure inside a handshake error. -/
def HandshakeFailure.toFailure : HandshakeFailure → Failure
  | .kickoff _ _ _ => .err "kickoff"
  | .other f => f

/-- The session after an event. A response needs a request before it. -/
def clientStep (lib : Libraries) (fb : HandshakeBuffers) (s : ClientSession) :
    ClientEvent → Option ClientSession
  | .request generated access => some (buildKeyExchangeReq fb generated access s).2
  | .response frameData =>
    if s.config.keyExchange = .none ∨ s.privateKey ≠ none then
      unlessPanic (handleKeyExchangeRsp lib fb s frameData).2
        ((handleKeyExchangeRsp lib fb s frameData).1.mapError HandshakeFailure.toFailure)
    else none
  | .receive frameData =>
    unlessPanic { s with toGatewaySession := (decodeMessage fb.toFlatBuffers s.toGatewaySession frameData).2 }
      (decodeMessage fb.toFlatBuffers s.toGatewaySession frameData).1
  | .send payload rand =>
    match encodePost fb.toFlatBuffers rand s.toGatewaySession payload with
    | .error (.panicked _) => none
    | .error (.err _) => some s
    | .ok (_, s') => some { s with toGatewaySession := s' }

theorem clientStep_response (hkey : s.HasKey) (frameData : Bytes) :
    clientStep lib fb s (.response frameData)
      = unlessPanic (handleKeyExchangeRsp lib fb s frameData).2
        ((handleKeyExchangeRsp lib fb s frameData).1.mapError toFailure) :=
  if_pos hkey

/-- What the peer sent makes the client panic. -/
def ClientEvent.Panics (lib : Libraries) (fb : HandshakeBuffers) (s : ClientSession) :
    ClientEvent → Prop
  | .request _ _ => False
  | .response frameData => s.HasKey ∧
    Gateway.Panics ((handleKeyExchangeRsp lib fb s frameData).1.mapError HandshakeFailure.toFailure)
  | .receive frameData => Gateway.Panics (decodeMessage fb.toFlatBuffers s.toGatewaySession frameData).1
  | .send _ _ => False

/-- What the peer sent fits the session: a token its cipher, a post its cipher and compressor. -/
def ClientEvent.Fits (lib : Libraries) (fb : HandshakeBuffers) (s : ClientSession) :
    ClientEvent → Prop
  | .request _ _ => True
  | .response frameData => s.HasKey → ∀ hs, KeyExchangeRsp fb frameData hs →
    ∀ suite, TokenCipher lib s hs suite → hs.FitsToken suite
  | .receive frameData => ∀ msg post, fb.parseClientMessage frameData = .ok msg → msg.post = some post →
    post.Fits lib.comp s.toGatewaySession
  | .send _ _ => True

theorem decodeMessage_panics_iff {lib : CompressionLib} (fb : FlatBuffers) {s : GatewaySession}
    (hs : MadeCompressor lib s) (frameData : Bytes) :
    Panics (decodeMessage fb s frameData).1
      ↔ ¬ ∀ msg post, fb.parseClientMessage frameData = .ok msg → msg.post = some post →
        post.Fits lib s := by
  unfold decodeMessage
  split
  next e he =>
    refine ⟨fun h => absurd h (panics_err _), fun h => absurd ?_ h⟩
    intro msg post hmsg
    rw [he] at hmsg
    cases hmsg
  next msg hmsg =>
    split
    next hnone =>
      refine ⟨fun h => absurd h (panics_ok _), fun h => absurd ?_ h⟩
      intro msg' post hmsg' hpost
      rw [hmsg] at hmsg'
      cases hmsg'
      rw [hnone] at hpost
      cases hpost
    next post hpost =>
      simp only
      rw [panics_map, decodePostPayload_panics_iff hs post]
      refine ⟨fun h hall => h (hall msg post hmsg hpost), fun h hfits => h ?_⟩
      intro msg' post' hmsg' hpost'
      rw [hmsg] at hmsg'
      cases hmsg'
      rw [hpost] at hpost'
      cases hpost'
      exact hfits

theorem KeyExchangeRsp.unique {frameData : Bytes} {hs' : HandshakeInfo}
    (h : KeyExchangeRsp fb frameData hs) (h' : KeyExchangeRsp fb frameData hs') : hs = hs' := by
  obtain ⟨msg, hmsg, -, hrest, -⟩ := h
  obtain ⟨msg', hmsg', -, hrest', -⟩ := h'
  exact Responds.unique ⟨msg, hmsg, hrest⟩ ⟨msg', hmsg', hrest'⟩

theorem handleKeyExchangeRsp_panics_iff (hkey : s.HasKey) (frameData : Bytes) :
    Panics ((handleKeyExchangeRsp lib fb s frameData).1.mapError toFailure)
      ↔ ¬ ∀ hs, KeyExchangeRsp fb frameData hs → ∀ suite, TokenCipher lib s hs suite →
        hs.FitsToken suite := by
  by_cases hrsp : ∃ hs, KeyExchangeRsp fb frameData hs
  · obtain ⟨hs, hrsp⟩ := hrsp
    have hback : ((acceptKeyExchangeRsp lib fb s hs).1.mapError other).mapError
        toFailure = (acceptKeyExchangeRsp lib fb s hs).1 := by
      cases (acceptKeyExchangeRsp lib fb s hs).1 with
      | error f => rfl
      | ok frame => rfl
    rw [handleKeyExchangeRsp_of_rsp hrsp lib s]
    simp only
    rw [hback, acceptKeyExchangeRsp_panics_iff fb hkey]
    refine ⟨fun h hall => h (hall hs hrsp), fun h hfits => h fun hs' hrsp' => ?_⟩
    obtain rfl := hrsp.unique hrsp'
    exact hfits
  · obtain ⟨e, he, hno⟩ := handleKeyExchangeRsp_of_not (not_exists.mp hrsp) lib s
    rw [he]
    refine ⟨fun h => ?_, fun h => absurd (fun hs hs' => absurd ⟨hs, hs'⟩ hrsp) h⟩
    obtain ⟨text, htext⟩ := h
    cases e with
    | kickoff reason subReason message => cases htext
    | other f =>
      cases htext
      exact absurd rfl (hno text)

/-- **One event**: it panics exactly if it does not fit. -/
theorem ClientEvent.panics_iff (hs : MadeCompressor lib.comp s.toGatewaySession) (e : ClientEvent) :
    ¬ e.Panics lib fb s ↔ e.Fits lib fb s := by
  cases e with
  | request generated access => exact ⟨fun _ => trivial, fun _ h => h⟩
  | send payload rand => exact ⟨fun _ => trivial, fun _ h => h⟩
  | receive frameData =>
    exact not_iff_comm.mp (decodeMessage_panics_iff fb.toFlatBuffers hs frameData).symm
  | response frameData =>
    constructor
    · intro h hkey
      by_contra hno
      exact h ⟨hkey, (handleKeyExchangeRsp_panics_iff hkey frameData).mpr hno⟩
    · intro h hpanics
      obtain ⟨hkey, hpanics⟩ := hpanics
      exact (handleKeyExchangeRsp_panics_iff hkey frameData).mp hpanics (h hkey)

/-! ## Where the compressor comes from -/

theorem MadeCompressor.of_eq {lib : CompressionLib} {s s' : GatewaySession}
    (h : MadeCompressor lib s) (heq : s'.compressor = s.compressor) : MadeCompressor lib s' := by
  unfold MadeCompressor
  rw [heq]
  exact h

theorem MadeCompressor.createCompressor {comp : CompressionLib}
    (h : MadeCompressor comp s.toGatewaySession) :
    MadeCompressor comp (Gateway.createCompressor comp s).2.toGatewaySession := by
  unfold Gateway.createCompressor
  split
  · exact h
  · split
    · intro c hc
      cases hc
    next made hmade =>
      intro c hc
      cases hc
      exact ⟨_, hmade⟩

theorem MadeCompressor.response
    (h : MadeCompressor lib.comp s.toGatewaySession) (fb : HandshakeBuffers) (frameData : Bytes) :
    MadeCompressor lib.comp (handleKeyExchangeRsp lib fb s frameData).2.toGatewaySession := by
  by_cases hrsp : ∃ hs, KeyExchangeRsp fb frameData hs
  · obtain ⟨hs, hrsp⟩ := hrsp
    rw [handleKeyExchangeRsp_of_rsp hrsp lib s]
    unfold acceptKeyExchangeRsp
    simp only
    split
    · exact h
    next key baseIV hkeys =>
      -- only the last step touches the compressor
      refine andThen_inv (I := fun s => MadeCompressor lib.comp s.toGatewaySession)
        (h.of_eq (createCipher_compressor lib.prim (storeNegotiated s hs) key)) fun s₁ h₁ => ?_
      refine andThen_inv (I := fun s => MadeCompressor lib.comp s.toGatewaySession)
        (h₁.of_eq (decryptToken_compressor s₁ hs)) fun s₂ h₂ => ?_
      have h₃ : MadeCompressor lib.comp (initIVs s₂ hs baseIV).toGatewaySession := h₂
      exact andThen_inv (I := fun s => MadeCompressor lib.comp s.toGatewaySession)
        h₃.createCompressor fun s₃ h₃ => h₃
  · obtain ⟨e, he, -⟩ := handleKeyExchangeRsp_of_not (not_exists.mp hrsp) lib s
    rw [he]
    exact h

theorem buildKeyExchangeReq_compressor (fb : HandshakeBuffers) (generated : Except String (Bytes × Bytes))
    (access : Bytes → Except String (Int64 × UInt64 × UInt64 × List Bytes)) (s : ClientSession) :
    (buildKeyExchangeReq fb generated access s).2.compressor = s.compressor := by
  unfold buildKeyExchangeReq
  split
  · rfl
  · simp only
    split
    · rfl
    · rfl

theorem unlessPanic_some {α : Type} {s' : ClientSession} {r : Except Failure α}
    (h : unlessPanic s r = some s') : s' = s := by
  unfold unlessPanic at h
  split at h
  · cases h
  · exact (Option.some.inj h).symm

/-- One event keeps the compressor's origin. -/
theorem MadeCompressor.step {s' : ClientSession}
    (h : MadeCompressor lib.comp s.toGatewaySession) {e : ClientEvent}
    (hstep : clientStep lib fb s e = some s') : MadeCompressor lib.comp s'.toGatewaySession := by
  cases e with
  | request generated access =>
    cases hstep
    exact h.of_eq (buildKeyExchangeReq_compressor fb generated access s)
  | response frameData =>
    unfold clientStep at hstep
    simp only at hstep
    split at hstep
    · rw [unlessPanic_some hstep]
      exact h.response fb frameData
    · cases hstep
  | receive frameData =>
    rw [unlessPanic_some hstep]
    obtain ⟨iv, hiv⟩ := decodeMessage_session fb.toFlatBuffers s.toGatewaySession frameData
    rw [hiv]
    exact h
  | send payload rand =>
    unfold clientStep at hstep
    simp only at hstep
    split at hstep
    · cases hstep
    · cases hstep
      exact h
    next frame s₁ hsend =>
      cases hstep
      obtain ⟨iv, n, rfl⟩ := encodePost_session hsend
      exact h

/-! ## Two messages that panic -/

/-- After a handshake with AES-128-GCM and zstd, posts with an IV of one byte, and with a length
of `2 ^ 63`. -/
def shortIVPost : PostInfo :=
  { crypto := some { algorithm := .aes128Gcm, iv := [0], aad := [] }, compression := none
    length := 1, data := [1] }

def hugePost : PostInfo :=
  { crypto := none, compression := some { type := .zstd, originalSize := 1 }
    length := UInt64.ofNat (2 ^ 63), data := [1] }

/-- **The peer makes no step panic** exactly if in every step what it sent fits the session: the
token and every encrypted post have an IV the cipher accepts, and the length of every
compressed post is one that `make` accepts. -/
theorem client_panics_iff (lib : Libraries) (fb : HandshakeBuffers) (config : GatewaySessionConfig)
    (compressionThreshold : UInt64) (events : List ClientEvent) :
    Along (clientStep lib fb) (fun s e => ¬ e.Panics lib fb s)
        (newGatewaySession config compressionThreshold) events
      ↔ Along (clientStep lib fb) (fun s e => e.Fits lib fb s)
        (newGatewaySession config compressionThreshold) events := by
  have hfresh : MadeCompressor lib.comp
      (newGatewaySession config compressionThreshold).toGatewaySession := by
    intro c hc
    cases hc
  exact along_iff_of_inv (J := fun s => MadeCompressor lib.comp s.toGatewaySession)
    (fun _ _ _ hs hstep => hs.step hstep) (fun _ e hs => e.panics_iff hs) events hfresh

/-- Either post panics in the session that the handshake leaves. -/
theorem peer_posts_panic : ∃ (fb : HandshakeBuffers) (s : ClientSession),
    Lib.run (clientStep toyLibraries fb) plainSession
      [.request (.ok ([], [])) (fun _ => .ok (0, 0, 0, [])),
        .response (fb.buildHandshakeMessage 1 zstdResponse)] = some s ∧
    ClientEvent.Panics toyLibraries fb s (.receive (fb.buildPostMessage 2 shortIVPost)) ∧
    ClientEvent.Panics toyLibraries fb s (.receive (fb.buildPostMessage 3 hugePost)) := by
  obtain ⟨fb, hfb⟩ := exists_handshakeBuffers
  let requested := (buildKeyExchangeReq fb (.ok ([], [])) (fun _ => .ok (0, 0, 0, [])) plainSession).2
  have hrsp := handleKeyExchangeRsp_built hfb toyLibraries requested 1 zstdResponse rfl
  refine ⟨fb, (acceptKeyExchangeRsp toyLibraries fb requested zstdResponse).2, ?_, ?_, ?_⟩
  · refine run_cons.mpr ⟨requested, rfl, run_cons.mpr ⟨_, ?_, rfl⟩⟩
    rw [clientStep_response (s := requested) (Or.inl rfl), hrsp]
    rfl
  · show Panics (decodeMessage fb.toFlatBuffers _ _).1
    unfold decodeMessage
    rw [hfb.post]
    exact ⟨_, rfl⟩
  · show Panics (decodeMessage fb.toFlatBuffers _ _).1
    unfold decodeMessage
    rw [hfb.post]
    exact ⟨_, rfl⟩

end Robot.Gateway
