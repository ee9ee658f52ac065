import Robot.Gateway.Xxtea

/-!
# Cipher suites

`crypto_kdf.go` (the table of sizes) and `crypto_cipher.go`. AES and the AEADs are the Go
standard library's and come in as `Primitives`; block chaining, the XXTEA rounds and the
padding are written out.

A Go panic is an outcome of its own (`Failure.panicked`): the library panics on an IV of the
wrong length and on data that is too large, and XXTEA on a division by zero.

The padding has no marker. It fills up to the block size and adds nothing to data that fits,
and decryption leaves it on; whoever decrypts cuts to the length that was sent along. So what
`Decrypt` owes is the data and at most a block after it (`Padded`). Data of length `0` is
the odd case: XXTEA pads it to a block of its own, AES-CBC makes an empty ciphertext of it,
and both refuse to decrypt an empty ciphertext.
-/

namespace Robot.Gateway

open Robot.Lib List

/-- How a call can fail: with an error value, or with a panic. -/
inductive Failure where
  | err (msg : String)
  | panicked (msg : String)
  deriving DecidableEq

/-! ## Algorithms -/

/-- `crypto_algorithm_t`; a byte on the wire, so any other code can occur, with a number that
is not taken. -/
inductive CryptoAlgorithm where
  | none
  | xxtea
  | aes128Cbc
  | aes192Cbc
  | aes256Cbc
  | aes128Gcm
  | aes192Gcm
  | aes256Gcm
  | chacha20
  | chacha20Poly1305Ietf
  | xchacha20Poly1305Ietf
  | other (code : UInt8) (free : code ∉ [0, 1, 11, 12, 13, 14, 15, 16, 31, 32, 33])
  deriving DecidableEq

/-- `CryptoAlgorithmParams`. -/
structure CryptoAlgorithmParams where
  keySize : Nat
  ivSize : Nat
  blockSize : Nat
  tagSize : Nat
  isAEAD : Bool
  deriving DecidableEq

/-- The code printed by `%d`, of an algorithm without parameters. -/
def CryptoAlgorithm.code : CryptoAlgorithm → Nat
  | .other code _ => code.toNat
  | _ => 0

/-- `GetCryptoAlgorithmParams`. -/
def getCryptoAlgorithmParams : CryptoAlgorithm → Except String CryptoAlgorithmParams
  | .xxtea => .ok ⟨16, 0, 8, 0, false⟩
  | .aes128Cbc => .ok ⟨16, 16, 16, 0, false⟩
  | .aes192Cbc => .ok ⟨24, 16, 16, 0, false⟩
  | .aes256Cbc => .ok ⟨32, 16, 16, 0, false⟩
  | .aes128Gcm => .ok ⟨16, 12, 1, 16, true⟩
  | .aes192Gcm => .ok ⟨24, 12, 1, 16, true⟩
  | .aes256Gcm => .ok ⟨32, 12, 1, 16, true⟩
  | .chacha20 => .ok ⟨32, 16, 1, 0, false⟩
  | .chacha20Poly1305Ietf => .ok ⟨32, 12, 1, 16, true⟩
  | .xchacha20Poly1305Ietf => .ok ⟨32, 24, 1, 16, true⟩
  | algo => .error s!"unsupported crypto algorithm: {algo.code}"

/-! ## Rolling IVs -/

/-- `IVRollPolicy`. -/
inductive IVRollPolicy where
  | none
  | aeadInc1BE
  | chainCiphertext
  deriving DecidableEq

/-- `GetIVRollPolicy`. -/
def getIVRollPolicy : CryptoAlgorithm → IVRollPolicy
  | .aes128Gcm | .aes192Gcm | .aes256Gcm | .chacha20Poly1305Ietf | .xchacha20Poly1305Ietf =>
    .aeadInc1BE
  | .aes128Cbc | .aes192Cbc | .aes256Cbc => .chainCiphertext
  | _ => .none

/-- The loop of `incrementIVBE`, from the last byte on: go on while a byte wraps to `0`. -/
def incrementFromEnd : Bytes → Bytes
  | [] => []
  | b :: bs => if b + 1 ≠ 0 then (b + 1) :: bs else (b + 1) :: incrementFromEnd bs

/-- `incrementIVBE`. -/
def incrementIVBE (iv : Bytes) : Bytes := (incrementFromEnd iv.reverse).reverse

/-- `RollIV`. -/
def rollIV (policy : IVRollPolicy) (iv ciphertext : Bytes) : Bytes :=
  match policy with
  | .aeadInc1BE => incrementIVBE iv
  | .chainCiphertext =>
    if ciphertext.length ≥ iv.length then ciphertext.drop (ciphertext.length - iv.length) else iv
  | .none => iv

theorem rollIV_length (policy : IVRollPolicy) (iv ciphertext : Bytes) :
    (rollIV policy iv ciphertext).length = iv.length := by
  have hinc : ∀ l : Bytes, (incrementFromEnd l).length = l.length := by
    intro l
    induction l with
    | nil => rfl
    | cons b bs ih =>
      unfold incrementFromEnd
      split
      · rfl
      · rw [length_cons, length_cons, ih]
  cases policy with
  | none => rfl
  | aeadInc1BE =>
    show (incrementFromEnd iv.reverse).reverse.length = _
    rw [length_reverse, hinc, length_reverse]
  | chainCiphertext =>
    show (if ciphertext.length ≥ iv.length then _ else iv).length = _
    split
    · rw [length_drop]
      omega
    · rfl

@[simp] theorem rollIV_nil (policy : IVRollPolicy) (ciphertext : Bytes) :
    rollIV policy [] ciphertext = [] :=
  length_eq_zero_iff.mp (rollIV_length policy [] ciphertext)

/-! ## Padding -/

/-- `blockAlignPad`. -/
def blockAlignPad (data : Bytes) (blockSize : Nat) : Bytes :=
  let remainder := data.length % blockSize
  if remainder = 0 then data
  else
    let padding := blockSize - remainder
    data ++ List.replicate padding (UInt8.ofNat padding)

theorem prefix_blockAlignPad (data : Bytes) (blockSize : Nat) : data <+: blockAlignPad data blockSize := by
  unfold blockAlignPad
  simp only
  split
  · exact prefix_refl data
  · exact prefix_append _ _

theorem dvd_blockAlignPad (data : Bytes) (blockSize : Nat) (h : 0 < blockSize) :
    blockSize ∣ (blockAlignPad data blockSize).length := by
  unfold blockAlignPad
  simp only
  split
  next h0 => exact Nat.dvd_of_mod_eq_zero h0
  next h0 =>
    rw [length_append, length_replicate]
    have hlt := Nat.mod_lt data.length h
    have hsplit := Nat.div_add_mod data.length blockSize
    refine ⟨data.length / blockSize + 1, ?_⟩
    rw [Nat.mul_add, Nat.mul_one]
    omega

theorem blockAlignPad_le (data : Bytes) (blockSize : Nat) :
    (blockAlignPad data blockSize).length ≤ data.length + blockSize := by
  unfold blockAlignPad
  simp only
  split
  · omega
  · rw [length_append, length_replicate]
    omega

/-- Padding never makes bytes of nothing. -/
theorem blockAlignPad_eq_nil {data : Bytes} {blockSize : Nat} :
    blockAlignPad data blockSize = [] ↔ data = [] := by
  constructor
  · intro h
    have hp := prefix_blockAlignPad data blockSize
    rw [h] at hp
    exact prefix_nil.mp hp
  · intro h
    unfold blockAlignPad
    rw [h]
    simp

/-! ## Primitives -/

/-- `cipher.AEAD` under one key. -/
structure AEAD where
  nonceSize : Nat
  sealBytes : (nonce plaintext aad : Bytes) → Bytes
  openBytes : (nonce ciphertext aad : Bytes) → Except String Bytes

/-- Nonces have length `n`, and what is sealed, up to the largest size, can be opened again. -/
structure AEAD.Lawful (a : AEAD) (n limit : Nat) : Prop where
  nonceSize : a.nonceSize = n
  seal_length : ∀ nonce pt aad : Bytes, (a.sealBytes nonce pt aad).length = pt.length + 16
  open_seal : ∀ nonce pt aad : Bytes, nonce.length = n → pt.length ≤ limit →
    a.openBytes nonce (a.sealBytes nonce pt aad) aad = .ok pt

/-- The largest plaintext of AES-GCM, in bytes. -/
def gcmMax : Nat := (2 ^ 32 - 2) * 16

/-- The largest plaintext of ChaCha20-Poly1305. -/
def chachaMax : Nat := 2 ^ 38 - 64

/-- The ciphers of the Go libraries, by key. -/
structure Primitives where
  aesBlock : Bytes → BlockCipher
  aesGCM : Bytes → AEAD
  chacha20Poly1305 : Bytes → AEAD
  xchacha20Poly1305 : Bytes → AEAD

/-- The ciphers invert on inputs of legal size. -/
structure Primitives.Lawful (prim : Primitives) : Prop where
  aesBlock : ∀ key, key.length ∈ [16, 24, 32] → (prim.aesBlock key).Lawful 16
  aesGCM : ∀ key, key.length ∈ [16, 24, 32] → (prim.aesGCM key).Lawful 12 gcmMax
  chacha20Poly1305 : ∀ key, key.length = 32 → (prim.chacha20Poly1305 key).Lawful 12 chachaMax
  xchacha20Poly1305 : ∀ key, key.length = 32 → (prim.xchacha20Poly1305 key).Lawful 24 chachaMax

/-! ## Suites -/

/-- The implementations of `CipherSuite`. -/
inductive CipherSuite where
  | aesGCM (aead : AEAD) (params : CryptoAlgorithmParams)
  | aesCBC (block : BlockCipher) (params : CryptoAlgorithmParams)
  | chacha20Poly1305 (aead : AEAD) (params : CryptoAlgorithmParams)
  | xchacha20Poly1305 (aead : AEAD) (params : CryptoAlgorithmParams)
  | xxtea (key : XxteaKey) (params : CryptoAlgorithmParams)

/-- `Params()`. -/
def CipherSuite.params : CipherSuite → CryptoAlgorithmParams
  | .aesGCM _ params => params
  | .aesCBC _ params => params
  | .chacha20Poly1305 _ params => params
  | .xchacha20Poly1305 _ params => params
  | .xxtea _ params => params

/-- `binary.BigEndian.Uint32`. -/
def be32 (b : Bytes) : UInt32 := le32 b.reverse

/-- `newXXTEACipher`. -/
def newXXTEACipher (key : Bytes) (params : CryptoAlgorithmParams) : Except String CipherSuite :=
  if key.length ≠ 16 then .error s!"XXTEA key must be 16 bytes, got {key.length}"
  else .ok (.xxtea (fun i => be32 ((key.drop (4 * i.val)).take 4)) params)

/-- The `switch` of `NewCipherSuite`. The library's constructors only fail on key sizes that
are refused before. -/
def suiteFor (prim : Primitives) (algo : CryptoAlgorithm) (key : Bytes)
    (params : CryptoAlgorithmParams) : Except String CipherSuite :=
  match algo with
  | .aes128Gcm | .aes192Gcm | .aes256Gcm => .ok (.aesGCM (prim.aesGCM key) params)
  | .aes128Cbc | .aes192Cbc | .aes256Cbc => .ok (.aesCBC (prim.aesBlock key) params)
  | .chacha20Poly1305Ietf => .ok (.chacha20Poly1305 (prim.chacha20Poly1305 key) params)
  | .xchacha20Poly1305Ietf => .ok (.xchacha20Poly1305 (prim.xchacha20Poly1305 key) params)
  | .xxtea => newXXTEACipher key params
  | .chacha20 =>
    .error "chacha20 stream cipher is not supported (use chacha20-poly1305 instead)"
  | algo => .error s!"unsupported crypto algorithm: {algo.code}"

/-- `NewCipherSuite`. -/
def newCipherSuite (prim : Primitives) (algo : CryptoAlgorithm) (key : Bytes) :
    Except String CipherSuite :=
  match getCryptoAlgorithmParams algo with
  | .error e => .error e
  | .ok params =>
    if key.length ≠ params.keySize then
      .error s!"key size mismatch: got {key.length}, want {params.keySize}"
    else suiteFor prim algo key params

/-- `aead.Seal(nil, iv, plaintext, aad)`, with its panics on a nonce of another length and on a
plaintext above the limit. -/
def AEAD.sealWith (a : AEAD) (limit : Nat) (badNonce tooLarge : String) (plaintext iv aad : Bytes) :
    Except Failure Bytes :=
  if iv.length ≠ a.nonceSize then .error (.panicked badNonce)
  else if limit < plaintext.length then .error (.panicked tooLarge)
  else .ok (a.sealBytes iv plaintext aad)

/-- `aead.Open(nil, iv, ciphertext, aad)`. A ciphertext that is too large is an error of GCM. -/
def AEAD.openWith (a : AEAD) (badNonce : String) (ciphertext iv aad : Bytes) : Except Failure Bytes :=
  if iv.length ≠ a.nonceSize then .error (.panicked badNonce)
  else
    match a.openBytes iv ciphertext aad with
    | .error e => .error (.err e)
    | .ok plaintext => .ok plaintext

/-- `aead.Seal` of the two ChaCha20-Poly1305 variants. -/
def AEAD.sealChacha (a : AEAD) (plaintext iv aad : Bytes) : Except Failure Bytes :=
  a.sealWith chachaMax "chacha20poly1305: bad nonce length passed to Seal"
    "chacha20poly1305: plaintext too large" plaintext iv aad

/-- `aead.Open` of the two, where a ciphertext that is too large is a panic. -/
def AEAD.openChacha (a : AEAD) (ciphertext iv aad : Bytes) : Except Failure Bytes :=
  if iv.length = a.nonceSize ∧ chachaMax + 16 < ciphertext.length then
    .error (.panicked "chacha20poly1305: ciphertext too large")
  else a.openWith "chacha20poly1305: bad nonce length passed to Open" ciphertext iv aad

/-- `aesCBCCipher.Encrypt`; the block size of AES is 16. -/
def cbcSuiteEncrypt (block : BlockCipher) (plaintext iv : Bytes) : Except Failure Bytes :=
  let padded := blockAlignPad plaintext 16
  if iv.length ≠ 16 then
    .error (.panicked "cipher.NewCBCEncrypter: IV length must equal block size")
  else .ok (cbcEncrypt block iv (chunks 16 padded)).flatten

/-- `aesCBCCipher.Decrypt`. -/
def cbcSuiteDecrypt (block : BlockCipher) (ciphertext iv : Bytes) : Except Failure Bytes :=
  if ciphertext.length = 0 ∨ ciphertext.length % 16 ≠ 0 then
    .error (.err "ciphertext length is not a multiple of block size")
  else if iv.length ≠ 16 then
    .error (.panicked "cipher.NewCBCDecrypter: IV length must equal block size")
  else .ok (cbcDecrypt block iv (chunks 16 ciphertext)).flatten

/-- The padded plaintext of `xxteaCipher.Encrypt`: at least one block. -/
def xxteaPad (plaintext : Bytes) (blockSize : Nat) : Bytes :=
  let padded := blockAlignPad plaintext blockSize
  if padded.length = 0 then List.replicate blockSize (UInt8.ofNat blockSize) else padded

/-- A call whose only failure is the division by zero. -/
def orDivideByZero (r : Option (List UInt32)) : Except Failure Bytes :=
  match r with
  | .none => .error (.panicked "runtime error: integer divide by zero")
  | some v => .ok (bytesLE v)

/-- `xxteaCipher.Encrypt`. -/
def xxteaSuiteEncrypt (key : XxteaKey) (blockSize : Nat) (plaintext : Bytes) : Except Failure Bytes :=
  orDivideByZero (xxteaEncryptBlock (wordsLE (xxteaPad plaintext blockSize)) key)

/-- `xxteaCipher.Decrypt`. -/
def xxteaSuiteDecrypt (key : XxteaKey) (blockSize : Nat) (ciphertext : Bytes) : Except Failure Bytes :=
  if ciphertext.length = 0 ∨ ciphertext.length % blockSize ≠ 0 then
    .error (.err "XXTEA ciphertext must be nonempty and 8-byte aligned")
  else orDivideByZero (xxteaDecryptBlock (wordsLE ciphertext) key)

/-- `Encrypt`. -/
def CipherSuite.encrypt (suite : CipherSuite) (plaintext iv aad : Bytes) : Except Failure Bytes :=
  match suite with
  | .aesGCM aead _ =>
    aead.sealWith gcmMax "crypto/cipher: incorrect nonce length given to GCM"
      "crypto/cipher: message too large for GCM" plaintext iv aad
  | .aesCBC block _ => cbcSuiteEncrypt block plaintext iv
  | .chacha20Poly1305 aead _ => aead.sealChacha plaintext iv aad
  | .xchacha20Poly1305 aead _ => aead.sealChacha plaintext iv aad
  | .xxtea key params => xxteaSuiteEncrypt key params.blockSize plaintext

/-- `Decrypt`. -/
def CipherSuite.decrypt (suite : CipherSuite) (ciphertext iv aad : Bytes) : Except Failure Bytes :=
  match suite with
  | .aesGCM aead _ =>
    aead.openWith "crypto/cipher: incorrect nonce length given to GCM" ciphertext iv aad
  | .aesCBC block _ => cbcSuiteDecrypt block ciphertext iv
  | .chacha20Poly1305 aead _ => aead.openChacha ciphertext iv aad
  | .xchacha20Poly1305 aead _ => aead.openChacha ciphertext iv aad
  | .xxtea key params => xxteaSuiteDecrypt key params.blockSize ciphertext

/-! ## Round trips -/

/-- AES in cipher block chaining. -/
def CryptoAlgorithm.isCBC : CryptoAlgorithm → Bool
  | .aes128Cbc | .aes192Cbc | .aes256Cbc => true
  | _ => false

/-- The largest plaintext of an AEAD algorithm. -/
def CryptoAlgorithm.maxPlaintext : CryptoAlgorithm → Option Nat
  | .aes128Gcm | .aes192Gcm | .aes256Gcm => some gcmMax
  | .chacha20Poly1305Ietf | .xchacha20Poly1305Ietf => some chachaMax
  | _ => Option.none

/-- The data an algorithm can encrypt so that the other side can decrypt: AES-CBC refuses the
empty ciphertext it makes of no data, XXTEA must not have a multiple of `2 ^ 32` words, and the
AEADs have a largest size. -/
structure CryptoAlgorithm.Encryptable (algo : CryptoAlgorithm) (data : Bytes) : Prop where
  cbc : algo.isCBC = true → data ≠ []
  words : algo = .xxtea → (xxteaPad data 8).length / 4 % 2 ^ 32 ≠ 0
  size : ∀ limit ∈ algo.maxPlaintext, data.length ≤ limit

/-- The data, and at most a block of padding after it. -/
def Padded (data pt : Bytes) : Prop := data <+: pt ∧ pt.length ≤ data.length + 16

/-- A round trip: either it fails on data that is not `Encryptable`, or it gives back the
padded data. -/
def TripsExactly (enc : Except Failure Bytes) (dec : Bytes → Except Failure Bytes) (data : Bytes)
    (encryptable : Prop) : Prop :=
  (encryptable ∧ ∃ ct pt, enc = .ok ct ∧ dec ct = .ok pt ∧ Padded data pt) ∨
  (¬ encryptable ∧ ∀ ct pt, enc = .ok ct → dec ct ≠ .ok pt)

variable {iv key : Bytes} {prim : Primitives} {algo : CryptoAlgorithm} {suite : CipherSuite}

theorem aead_trips {a : AEAD} {n limit : Nat} (ha : a.Lawful n limit) (t t' u : String) (data : Bytes)
    (aad : Bytes) (hiv : iv.length = n) {dec : Bytes → Except Failure Bytes}
    (hdec : ∀ ct, ct.length ≤ limit + 16 → dec ct = a.openWith u ct iv aad) :
    TripsExactly (a.sealWith limit t t' data iv aad) dec data (data.length ≤ limit) := by
  have hn : ¬ iv.length ≠ a.nonceSize := by
    rw [ha.nonceSize]
    exact fun h => h hiv
  unfold AEAD.sealWith
  rw [if_neg hn]
  by_cases hsize : data.length ≤ limit
  · rw [if_neg (Nat.not_lt.mpr hsize)]
    refine Or.inl ⟨hsize, a.sealBytes iv data aad, data, rfl, ?_, prefix_refl data, by omega⟩
    rw [hdec _ (by rw [ha.seal_length]; omega)]
    unfold AEAD.openWith
    rw [if_neg hn, ha.open_seal iv data aad hiv hsize]
  · rw [if_pos (Nat.not_le.mp hsize)]
    exact Or.inr ⟨hsize, fun _ _ => nofun⟩

theorem chacha_trips {a : AEAD} {n : Nat} (ha : a.Lawful n chachaMax) (data aad : Bytes)
    (hiv : iv.length = n) :
    TripsExactly (a.sealChacha data iv aad) (a.openChacha · iv aad) data (data.length ≤ chachaMax) :=
  aead_trips ha _ _ _ data aad hiv fun _ hct => if_neg fun h => Nat.not_lt.mpr hct h.2

/-- The length of an AES-CBC ciphertext is the padded length. -/
theorem cbcSuiteEncrypt_spec {block : BlockCipher} (hb : block.Lawful 16) (data : Bytes)
    (hiv : iv.length = 16) :
    ∃ ct, cbcSuiteEncrypt block data iv = .ok ct ∧ ct.length = (blockAlignPad data 16).length ∧
      cbcDecrypt block iv (chunks 16 ct) = chunks 16 (blockAlignPad data 16) := by
  have hblocks := chunks_length_eq (n := 16) (blockAlignPad data 16)
  obtain ⟨hlen, hall⟩ := cbcEncrypt_length hb _ iv hiv hblocks
  have hdvd := dvd_blockAlignPad data 16 (by omega)
  refine ⟨(cbcEncrypt block iv (chunks 16 (blockAlignPad data 16))).flatten, ?_, ?_, ?_⟩
  · unfold cbcSuiteEncrypt
    rw [if_neg (fun h => h hiv)]
  · rw [flatten_length hall, hlen, chunks_length, Nat.mul_div_cancel' hdvd]
  · rw [chunks_of_flatten (by omega) hall, cbcDecrypt_cbcEncrypt hb _ iv hiv hblocks]

theorem cbc_trips {block : BlockCipher} (hb : block.Lawful 16) (data : Bytes)
    (hiv : iv.length = 16) :
    TripsExactly (cbcSuiteEncrypt block data iv) (cbcSuiteDecrypt block · iv) data (data ≠ []) := by
  obtain ⟨ct, hct, hlen, hdec⟩ := cbcSuiteEncrypt_spec hb data hiv
  have hdvd := dvd_blockAlignPad data 16 (by omega)
  by_cases hnil : data = []
  · refine Or.inr ⟨fun h => h hnil, fun ct' pt hct' hpt => ?_⟩
    rw [hct] at hct'
    cases hct'
    -- the ciphertext is empty
    rw [blockAlignPad_eq_nil.mpr hnil, length_nil] at hlen
    have herr : cbcSuiteDecrypt block ct iv
        = .error (.err "ciphertext length is not a multiple of block size") := if_pos (Or.inl hlen)
    have hpt : cbcSuiteDecrypt block ct iv = .ok pt := hpt
    rw [herr] at hpt
    exact absurd hpt (by simp)
  · refine Or.inl ⟨hnil, ct, blockAlignPad data 16, hct, ?_, prefix_blockAlignPad data 16,
      blockAlignPad_le data 16⟩
    have hpos : (blockAlignPad data 16).length ≠ 0 := fun h =>
      hnil (blockAlignPad_eq_nil.mp (length_eq_zero_iff.mp h))
    show cbcSuiteDecrypt block ct iv = _
    unfold cbcSuiteDecrypt
    rw [if_neg (by omega), if_neg (fun h => h hiv), hdec, chunks_flatten hdvd]

theorem xxteaPad_spec (data : Bytes) :
    Padded data (xxteaPad data 8) ∧ 8 ∣ (xxteaPad data 8).length ∧ 8 ≤ (xxteaPad data 8).length := by
  have hdvd := dvd_blockAlignPad data 8 (by omega)
  unfold xxteaPad
  simp only
  split
  next h =>
    rw [blockAlignPad_eq_nil.mp (length_eq_zero_iff.mp h)]
    exact ⟨⟨List.nil_prefix, by simp⟩, by simp, by simp⟩
  next h =>
    have hle := blockAlignPad_le data 8
    exact ⟨⟨prefix_blockAlignPad data 8, by omega⟩, hdvd, Nat.le_of_dvd (by omega) hdvd⟩

/-- XXTEA gives the padded data back, or divides by zero. -/
theorem xxteaSuite_inverse (key : XxteaKey) (data : Bytes) :
    ((xxteaPad data 8).length / 4 % 2 ^ 32 ≠ 0 ∧ ∃ ct, xxteaSuiteEncrypt key 8 data = .ok ct ∧
      xxteaSuiteDecrypt key 8 ct = .ok (xxteaPad data 8)) ∨
    ((xxteaPad data 8).length / 4 % 2 ^ 32 = 0 ∧ ∀ ct, xxteaSuiteEncrypt key 8 data ≠ .ok ct) := by
  obtain ⟨-, hdvd, hlen⟩ := xxteaPad_spec data
  have hwords := wordsLE_length (xxteaPad data 8)
  unfold xxteaSuiteEncrypt
  rcases xxteaBlock_inverse key (v := wordsLE (xxteaPad data 8)) (by omega) with
    ⟨hzero, hnone⟩ | ⟨hne, ⟨w, henc, hw, hdec⟩, -⟩
  · rw [hwords] at hzero
    rw [hnone]
    exact Or.inr ⟨hzero, nofun⟩
  · rw [hwords] at hne hw
    have hct : (bytesLE w).length = (xxteaPad data 8).length := by
      rw [bytesLE_length, hw]
      omega
    refine Or.inl ⟨hne, bytesLE w, by rw [henc]; rfl, ?_⟩
    unfold xxteaSuiteDecrypt
    rw [if_neg (by omega), wordsLE_bytesLE, hdec]
    show Except.ok (bytesLE (wordsLE (xxteaPad data 8))) = _
    rw [bytesLE_wordsLE (by omega)]

theorem xxtea_trips (key : XxteaKey) (data : Bytes) :
    TripsExactly (xxteaSuiteEncrypt key 8 data) (xxteaSuiteDecrypt key 8) data
      ((xxteaPad data 8).length / 4 % 2 ^ 32 ≠ 0) := by
  rcases xxteaSuite_inverse key data with ⟨hne, ct, henc, hdec⟩ | ⟨hzero, hnone⟩
  · exact Or.inl ⟨hne, ct, xxteaPad data 8, henc, hdec, (xxteaPad_spec data).1⟩
  · exact Or.inr ⟨fun h => h hzero, fun ct _ hct => absurd hct (hnone ct)⟩

/-- Decryption gives back the padded plaintext. -/
def XxteaInverts (key : XxteaKey) (plaintext : Bytes) : Prop :=
  ∃ ct, xxteaSuiteEncrypt key 8 plaintext = .ok ct ∧
    xxteaSuiteDecrypt key 8 ct = .ok (xxteaPad plaintext 8)

/-- The block functions undo each other on these words. -/
def XxteaBlockInverts (key : XxteaKey) (v : List UInt32) : Prop :=
  (∃ w, xxteaEncryptBlock v key = some w ∧ xxteaDecryptBlock w key = some v) ∧
    ∃ w, xxteaDecryptBlock v key = some w ∧ xxteaEncryptBlock w key = some v

/-- **XXTEA decryption inverts encryption** if and only if the number of words is not a multiple of
`2 ^ 32`, for messages and for blocks. -/
theorem xxtea_inverts_iff (key : XxteaKey) :
    (∀ plaintext, XxteaInverts key plaintext ↔ (xxteaPad plaintext 8).length / 4 % 2 ^ 32 ≠ 0) ∧
      ∀ v : List UInt32, 2 ≤ v.length → (XxteaBlockInverts key v ↔ v.length % 2 ^ 32 ≠ 0) := by
  refine ⟨fun plaintext => ?_, fun v hn => ?_⟩
  · rcases xxteaSuite_inverse key plaintext with ⟨hne, h⟩ | ⟨hzero, hnone⟩
    · exact ⟨fun _ => hne, fun _ => h⟩
    · exact ⟨fun ⟨ct, hct, _⟩ => absurd hct (hnone ct), fun h => absurd hzero h⟩
  · rcases xxteaBlock_inverse key hn with ⟨hzero, hnone⟩ | ⟨hne, ⟨w, henc, _, hdec⟩, hback⟩
    · refine ⟨fun ⟨⟨w, hw, _⟩, _⟩ => ?_, fun h => absurd hzero h⟩
      rw [hnone] at hw
      cases hw
    · exact ⟨fun _ => hne, fun _ => ⟨⟨w, henc, hdec⟩, hback⟩⟩

theorem xxtea_inverts_two_words : XxteaBlockInverts (fun _ => 0) [1, 2] :=
  ((xxtea_inverts_iff _).2 [1, 2] (by decide)).mpr (by decide)

/-- 16 GiB of data need no padding. -/
theorem not_xxteaInverts {data : Bytes} (key : XxteaKey) (h : data.length = 2 ^ 34) :
    ¬ XxteaInverts key data := by
  have halign : blockAlignPad data 8 = data := if_pos (by omega)
  have hpad : xxteaPad data 8 = data := by
    unfold xxteaPad
    rw [halign]
    exact if_neg (by omega)
  intro ⟨ct, hct, _⟩
  rcases xxteaSuite_inverse key data with ⟨hne, -⟩ | ⟨-, hnone⟩
  · rw [hpad] at hne
    omega
  · exact hnone ct hct

theorem xxtea_divides_by_zero : ¬ XxteaInverts (fun _ => 0) (List.replicate (2 ^ 34) 0) :=
  not_xxteaInverts _ length_replicate

/-! ## What `NewCipherSuite` builds -/

/-- The suites there are for an algorithm and a key, with the sizes that matter. -/
inductive SuiteOf (prim : Primitives) (key : Bytes) (algo : CryptoAlgorithm) : CipherSuite → Prop where
  | aesGCM {params : CryptoAlgorithmParams} (hkey : key.length ∈ [16, 24, 32])
      (hiv : params.ivSize = 12) (hmax : ∀ data, algo.Encryptable data ↔ data.length ≤ gcmMax) :
      SuiteOf prim key algo (.aesGCM (prim.aesGCM key) params)
  | aesCBC {params : CryptoAlgorithmParams} (hkey : key.length ∈ [16, 24, 32])
      (hiv : params.ivSize = 16) (hcbc : ∀ data, algo.Encryptable data ↔ data ≠ []) :
      SuiteOf prim key algo (.aesCBC (prim.aesBlock key) params)
  | chacha20Poly1305 {params : CryptoAlgorithmParams} (hkey : key.length = 32)
      (hiv : params.ivSize = 12) (hmax : ∀ data, algo.Encryptable data ↔ data.length ≤ chachaMax) :
      SuiteOf prim key algo (.chacha20Poly1305 (prim.chacha20Poly1305 key) params)
  | xchacha20Poly1305 {params : CryptoAlgorithmParams} (hkey : key.length = 32)
      (hiv : params.ivSize = 24) (hmax : ∀ data, algo.Encryptable data ↔ data.length ≤ chachaMax) :
      SuiteOf prim key algo (.xchacha20Poly1305 (prim.xchacha20Poly1305 key) params)
  | xxtea {params : CryptoAlgorithmParams} (words : XxteaKey) (hiv : params.ivSize = 0)
      (hblock : params.blockSize = 8) (hxxtea : algo = .xxtea) :
      SuiteOf prim key algo (.xxtea words params)

/-- `NewCipherSuite` comes to its `switch` with the algorithm's parameters and a key of their
size. -/
theorem newCipherSuite_ok (h : newCipherSuite prim algo key = .ok suite) :
    ∃ params, getCryptoAlgorithmParams algo = .ok params ∧ key.length = params.keySize ∧
      suiteFor prim algo key params = .ok suite := by
  unfold newCipherSuite at h
  split at h
  · cases h
  next params hparams =>
    split at h
    · cases h
    next hkey => exact ⟨params, hparams, Classical.not_not.mp hkey, h⟩

theorem newXXTEACipher_ok {params : CryptoAlgorithmParams}
    (h : newXXTEACipher key params = .ok suite) : ∃ words, suite = .xxtea words params := by
  unfold newXXTEACipher at h
  split at h
  · cases h
  · cases h
    exact ⟨_, rfl⟩

theorem newCipherSuite_suiteOf (h : newCipherSuite prim algo key = .ok suite) :
    SuiteOf prim key algo suite := by
  obtain ⟨params, hparams, hlen, h⟩ := newCipherSuite_ok h
  have hmax : ∀ {limit}, algo.isCBC = false → algo ≠ .xxtea → algo.maxPlaintext = some limit →
      ∀ data, algo.Encryptable data ↔ data.length ≤ limit := fun hcbc hx hlimit data =>
    ⟨fun h => h.size _ hlimit, fun h => ⟨fun h => absurd h (by simp [hcbc]), fun h => absurd h hx,
      fun l hl => Option.some.inj (hlimit.symm.trans hl) ▸ h⟩⟩
  have hcbc : algo.isCBC = true → algo ≠ .xxtea → algo.maxPlaintext = Option.none →
      ∀ data, algo.Encryptable data ↔ data ≠ [] := fun hcbc hx hlimit data =>
    ⟨fun h => h.cbc hcbc, fun h => ⟨fun _ => h, fun h => absurd h hx,
      fun l hl => absurd (hlimit.symm.trans hl) nofun⟩⟩
  cases algo with
  | none | other => cases hparams
  | chacha20 => cases h
  | xxtea =>
    cases hparams
    obtain ⟨words, rfl⟩ := newXXTEACipher_ok h
    exact .xxtea _ rfl rfl rfl
  | aes128Gcm | aes192Gcm | aes256Gcm =>
    cases hparams
    cases h
    exact .aesGCM (by simp [hlen]) rfl (hmax rfl nofun rfl)
  | aes128Cbc | aes192Cbc | aes256Cbc =>
    cases hparams
    cases h
    exact .aesCBC (by simp [hlen]) rfl (hcbc rfl nofun rfl)
  | chacha20Poly1305Ietf =>
    cases hparams
    cases h
    exact .chacha20Poly1305 hlen rfl (hmax rfl nofun rfl)
  | xchacha20Poly1305Ietf =>
    cases hparams
    cases h
    exact .xchacha20Poly1305 hlen rfl (hmax rfl nofun rfl)

/-- A suite has the parameters of its algorithm. -/
theorem newCipherSuite_params (h : newCipherSuite prim algo key = .ok suite) :
    getCryptoAlgorithmParams algo = .ok suite.params := by
  obtain ⟨params, hparams, -, h⟩ := newCipherSuite_ok h
  cases algo with
  | none | other => cases hparams
  | chacha20 => cases h
  | xxtea =>
    obtain ⟨words, rfl⟩ := newXXTEACipher_ok h
    exact hparams
  | _ =>
    cases h
    exact hparams

/-- **A suite round-trips exactly the data its algorithm can encrypt.** An IV the algorithm
uses has its size and is the same on both sides. -/
theorem SuiteOf.trips (h : SuiteOf prim key algo suite) (hprim : prim.Lawful) (data aad : Bytes)
    {iv' : Bytes} (hiv : suite.params.ivSize ≠ 0 → iv.length = suite.params.ivSize ∧ iv' = iv) :
    TripsExactly (suite.encrypt data iv aad) (suite.decrypt · iv' aad) data (algo.Encryptable data) := by
  cases h with
  | aesGCM hkey hsize hmax =>
    obtain ⟨hlen, rfl⟩ := hiv (by rw [CipherSuite.params, hsize]; decide)
    rw [hmax]
    exact aead_trips (hprim.aesGCM key hkey) _ _ _ data aad (hlen.trans hsize) fun _ _ => rfl
  | chacha20Poly1305 hkey hsize hmax =>
    obtain ⟨hlen, rfl⟩ := hiv (by rw [CipherSuite.params, hsize]; decide)
    rw [hmax]
    exact chacha_trips (hprim.chacha20Poly1305 key hkey) data aad (hlen.trans hsize)
  | xchacha20Poly1305 hkey hsize hmax =>
    obtain ⟨hlen, rfl⟩ := hiv (by rw [CipherSuite.params, hsize]; decide)
    rw [hmax]
    exact chacha_trips (hprim.xchacha20Poly1305 key hkey) data aad (hlen.trans hsize)
  | aesCBC hkey hsize hcbc =>
    obtain ⟨hlen, rfl⟩ := hiv (by rw [CipherSuite.params, hsize]; decide)
    rw [hcbc]
    exact cbc_trips (hprim.aesBlock key hkey) data (hlen.trans hsize)
  | xxtea words hsize hblock hxxtea =>
    subst hxxtea
    have henc : CryptoAlgorithm.xxtea.Encryptable data
        ↔ (xxteaPad data 8).length / 4 % 2 ^ 32 ≠ 0 :=
      ⟨fun h => h.words rfl, fun h => ⟨fun hcbc => absurd hcbc (by decide), fun _ => h, nofun⟩⟩
    unfold CipherSuite.encrypt CipherSuite.decrypt
    rw [henc]
    simp only [hblock]
    exact xxtea_trips words data

end Robot.Gateway
