import Robot.Gateway.Compression

/-!
# The handshake of a gateway session

`BuildKeyExchangeReq` and `HandleKeyExchangeRsp` of `gateway_session.go`, with `crypto_dh.go`
and `crypto_kdf.go`. A response is handled in steps: store what was negotiated, agree on the
keys, create the cipher, decrypt the token, set the IVs, create the compressor, confirm. Each
step changes some fields of the session under a condition of its own and can fail; a failure
leaves what the steps before it have changed.

ECDH and HKDF are the Go library's (`KeyLib`). What an accepted response does to each field
is `Accepted`, which is all that later modules use of this one.
-/

namespace Robot.Gateway

open Robot.Lib

/-! ## Libraries -/

/-- `crypto/ecdh` and `crypto/hkdf`. Keys are their byte strings. -/
structure KeyLib where
  newPublicKey : KeyExchange → Bytes → Except String Unit
  ecdh : KeyExchange → (privateKey publicKey : Bytes) → Except String Bytes
  hkdfKey : (secret : Bytes) → (keyLength : Nat) → Except String Bytes

/-- `hkdf.Key` returns as many bytes as it is asked for. -/
def KeyLib.Lawful (keys : KeyLib) : Prop :=
  ∀ secret n material, keys.hkdfKey secret n = .ok material → material.length = n

/-- What a session uses of the libraries. -/
structure Libraries where
  prim : Primitives
  keys : KeyLib
  comp : CompressionLib

/-- The FlatBuffers code of the handshake. -/
structure HandshakeBuffers extends FlatBuffers where
  buildHandshakeMessage : UInt64 → HandshakeInfo → Bytes
  buildConfirmMessage : UInt64 → (sessionID handshakeSequence : UInt64) → Bytes

/-! ## Sessions -/

structure GatewaySessionConfig where
  accessTokens : List Bytes
  keyExchange : KeyExchange
  supportedAlgorithms : List CryptoAlgorithm
  supportedCompression : List CompressionAlgorithm

/-- The whole `GatewaySession`: what posts use, and the state of the handshake. -/
structure ClientSession extends GatewaySession where
  config : GatewaySessionConfig
  sessionID : UInt64
  sessionToken : Bytes
  handshakeSequence : UInt64
  privateKey : Option Bytes
  selfPublicKey : Bytes

/-- `NewGatewaySession`. -/
def newGatewaySession (config : GatewaySessionConfig) (compressionThreshold : UInt64) : ClientSession :=
  { compressionThreshold := compressionThreshold, selectedAlgorithm := .none
    selectedCompression := .none, cipher := none, sendIV := [], recvIV := []
    ivRollPolicy := .none, compressor := none, maxPostMessageSize := 0, handshakeDone := false
    sequence := 0, config := config, sessionID := 0, sessionToken := [], handshakeSequence := 0
    privateKey := none, selfPublicKey := [] }

/-! ## Keys -/

/-- `encodeECDHPublicKeyForWire`. -/
def encodeECDHPublicKeyForWire (publicKey : Bytes) : Except String Bytes :=
  if publicKey.length = 0 then .ok []
  else if publicKey.length > 0xff then
    .error s!"ECDH public key too large for wire format: {publicKey.length}"
  else .ok (UInt8.ofNat publicKey.length :: publicKey)

/-- `decodeECDHPublicKeyFromWire`. -/
def decodeECDHPublicKeyFromWire (peerPublicKeyBytes : Bytes) : Except String Bytes :=
  match peerPublicKeyBytes with
  | [] => .error "empty peer public key"
  | first :: point =>
    let pointLen := first.toNat
    if pointLen > 0 ∧ pointLen + 1 = (first :: point).length then .ok point else .ok (first :: point)

/-- The public keys of a curve: any 32 bytes, or an uncompressed point. -/
def IsPublicKey (ke : KeyExchange) (k : Bytes) : Prop :=
  match ke with
  | .x25519 => k.length = 32
  | .secp256r1 => k.length = 65 ∧ k.head? = some 4
  | .secp384r1 => k.length = 97 ∧ k.head? = some 4
  | .secp521r1 => k.length = 133 ∧ k.head? = some 4
  | _ => False

/-- The key comes back from both formats. -/
def RecoversKey (k : Bytes) : Prop :=
  (encodeECDHPublicKeyForWire k).bind decodeECDHPublicKeyFromWire = .ok k ∧
    decodeECDHPublicKeyFromWire k = .ok k

theorem decode_encode {k : Bytes} (hpos : 0 < k.length) (hle : k.length ≤ 0xff) :
    (encodeECDHPublicKeyForWire k).bind decodeECDHPublicKeyFromWire = .ok k := by
  have hbyte : (UInt8.ofNat k.length).toNat = k.length :=
    UInt8.toNat_ofNat_of_lt (show k.length < 256 by omega)
  unfold encodeECDHPublicKeyForWire
  rw [if_neg (by omega), if_neg (by omega)]
  show decodeECDHPublicKeyFromWire (_ :: k) = _
  unfold decodeECDHPublicKeyFromWire
  dsimp only
  rw [hbyte, if_pos ⟨hpos, rfl⟩]

/-- A raw key is taken for the other format if its first byte says so. -/
theorem decode_raw_iff {first : UInt8} {point : Bytes} :
    decodeECDHPublicKeyFromWire (first :: point) = .ok (first :: point) ↔
      ¬ (first.toNat > 0 ∧ first.toNat = point.length) := by
  unfold decodeECDHPublicKeyFromWire
  dsimp only
  split
  next h =>
    refine ⟨fun he => ?_, fun hn => absurd ⟨h.1, Nat.succ.inj h.2⟩ hn⟩
    exact absurd (congrArg List.length (Except.ok.inj he)) (by simp)
  next h => exact ⟨fun _ hn => h ⟨hn.1, congrArg Nat.succ hn.2⟩, fun _ => rfl⟩

/-- **A public key is recovered in both formats** if and only if it is not an X25519 key that starts with
the byte 31. -/
theorem recovers_key_iff {ke : KeyExchange} {k : Bytes} (h : IsPublicKey ke k) :
    RecoversKey k ↔ (ke = .x25519 → k.head? ≠ some 31) := by
  cases k with
  | nil => cases ke <;> simp [IsPublicKey] at h
  | cons first point =>
    have hlength : 0 < (first :: point).length ∧ (first :: point).length ≤ 0xff := by
      cases ke <;> simp [IsPublicKey] at h ⊢ <;> omega
    unfold RecoversKey
    rw [decode_raw_iff, and_iff_right (decode_encode hlength.1 hlength.2), List.head?_cons]
    cases ke with
    | x25519 =>
      have hpoint : point.length = 31 := Nat.succ.inj h
      have hfirst : some first = some 31 ↔ first.toNat = 31 := by
        rw [Option.some.injEq, ← UInt8.toNat_inj]
        rfl
      rw [hpoint, Ne, hfirst]
      exact ⟨fun hn _ he => hn ⟨by omega, he⟩, fun hn he => hn rfl he.2⟩
    | secp256r1 | secp384r1 | secp521r1 =>
      obtain ⟨hlen, hfirst⟩ := h
      cases hfirst
      simp_all
    | none | other => exact h.elim

theorem p256_key_recovered : RecoversKey (4 :: List.replicate 64 0) := by
  have hkey : IsPublicKey .secp256r1 (4 :: List.replicate 64 0) := ⟨rfl, rfl⟩
  exact (recovers_key_iff hkey).mpr nofun

/-- An X25519 key whose first byte is 31. -/
theorem x25519_key_cut : IsPublicKey .x25519 (31 :: List.replicate 31 0) ∧
    ¬ RecoversKey (31 :: List.replicate 31 0) :=
  ⟨rfl, fun h => decode_raw_iff.mp h.2 ⟨by decide, rfl⟩⟩

/-- `ECDHCurveFromKeyExchange`; the curves go by their codes. -/
def ecdhCurveFromKeyExchange : KeyExchange → Except String KeyExchange
  | .other code _ => .error s!"unsupported key exchange type: {code.toNat}"
  | ke => .ok ke

/-- `GenerateECDHKeyPair`; `generated` is what `curve.GenerateKey` returns. -/
def generateECDHKeyPair (generated : Except String (Bytes × Bytes)) (ke : KeyExchange) :
    Except String (Option Bytes × Bytes) :=
  if ke = .none then .ok (none, [])
  else
    match ecdhCurveFromKeyExchange ke with
    | .error e => .error e
    | .ok _ =>
      match generated with
      | .error e => .error ("generate ECDH key pair: " ++ e)
      | .ok (privKey, publicKey) =>
        match encodeECDHPublicKeyForWire publicKey with
        | .error e => .error e
        | .ok encodedPublicKey => .ok (some privKey, encodedPublicKey)

/-- `ComputeECDHSharedSecret`. The private key is a pointer. -/
def computeECDHSharedSecret (keys : KeyLib) (privKey : Option Bytes) (peerPublicKeyBytes : Bytes)
    (ke : KeyExchange) : Except Failure Bytes :=
  if ke = .none then .ok []
  else
    match ecdhCurveFromKeyExchange ke with
    | .error e => .error (.err e)
    | .ok curve =>
      match decodeECDHPublicKeyFromWire peerPublicKeyBytes with
      | .error e => .error (.err e)
      | .ok decodedPeerPublicKey =>
        match keys.newPublicKey curve decodedPeerPublicKey with
        | .error e => .error (.err ("parse peer public key: " ++ e))
        | .ok _ =>
          match privKey with
          | .none =>
            .error (.panicked "runtime error: invalid memory address or nil pointer dereference")
          | some privKey =>
            match keys.ecdh curve privKey decodedPeerPublicKey with
            | .error e => .error (.err ("compute ECDH shared secret: " ++ e))
            | .ok secret => .ok secret

/-- `DeriveKeyMaterial`: the key and the IV. -/
def deriveKeyMaterial (keys : KeyLib) (sharedSecret : Bytes) (keySize ivSize : Nat) :
    Except String (Bytes × Bytes) :=
  let totalLen := keySize + ivSize
  if totalLen = 0 then .ok ([], [])
  else
    match keys.hkdfKey sharedSecret totalLen with
    | .error e => .error ("HKDF key derivation: " ++ e)
    | .ok material => .ok (material.take keySize, if ivSize > 0 then material.drop keySize else [])

/-! ## The request -/

/-- `BuildKeyExchangeReq`. `generated` is the new key pair, `access` what `GenerateAccessData`
returns for the public key: a timestamp, two nonces and a signature for each token. -/
def buildKeyExchangeReq (fb : HandshakeBuffers) (generated : Except String (Bytes × Bytes))
    (access : Bytes → Except String (Int64 × UInt64 × UInt64 × List Bytes)) (s : ClientSession) :
    Except Failure Bytes × ClientSession :=
  match generateECDHKeyPair generated s.config.keyExchange with
  | .error e => (.error (.err ("generate ECDH key pair: " ++ e)), s)
  | .ok (privKey, pubKey) =>
    let s := { s with privateKey := privKey, selfPublicKey := pubKey }
    let accessData :=
      if s.config.accessTokens.length > 0 then
        (access pubKey).map fun (timestamp, nonce1, nonce2, signatures) =>
          signatures.map fun sig =>
            { algorithm := .hmacSha256, timestamp := timestamp, nonce1 := nonce1, nonce2 := nonce2
              signature := sig : AccessDataInfo }
      else .ok []
    match accessData with
    | .error e => (.error (.err ("generate access data: " ++ e)), s)
    | .ok accessData =>
      let hs : HandshakeInfo :=
        { sessionID := 0, step := .keyExchangeReq, keyExchange := s.config.keyExchange
          kdfTypes := [.hkdfSha256], algorithms := s.config.supportedAlgorithms, publicKey := pubKey
          accessData := accessData, initializeCrypto := none
          compressionAlgorithms := s.config.supportedCompression, maxPostMessageSize := 0
          sessionToken := [], handshakeSequence := 0 }
      let s := { s with sequence := s.sequence + 1 }
      (.ok (encodeFrame (fb.buildHandshakeMessage s.sequence hs)), s)

/-! ## The response -/

/-- Store what the response says, if it says something. -/
def storeNegotiated (s : ClientSession) (hs : HandshakeInfo) : ClientSession :=
  { s with
    sessionID := hs.sessionID
    handshakeSequence := hs.handshakeSequence
    selectedAlgorithm := hs.algorithms.headD s.selectedAlgorithm
    selectedCompression := hs.compressionAlgorithms.headD s.selectedCompression
    maxPostMessageSize := hs.maxPostMessageSize }

/-- The key and the base IV; nothing without encryption. -/
def keyMaterial (keys : KeyLib) (s : ClientSession) (hs : HandshakeInfo) :
    Except Failure (Bytes × Bytes) :=
  if s.selectedAlgorithm = .none then .ok ([], [])
  else
    match computeECDHSharedSecret keys s.privateKey hs.publicKey s.config.keyExchange with
    | .error f => .error (f.wrap "ECDH key agreement")
    | .ok sharedSecret =>
      match getCryptoAlgorithmParams s.selectedAlgorithm with
      | .error e => .error (.err ("get algorithm params: " ++ e))
      | .ok params =>
        match deriveKeyMaterial keys sharedSecret params.keySize params.ivSize with
        | .error e => .error (.err ("derive key material: " ++ e))
        | .ok material => .ok material

/-- `s.cipher, err = NewCipherSuite(…)`: a failure leaves no cipher. -/
def createCipher (prim : Primitives) (s : ClientSession) (key : Bytes) :
    Except Failure Unit × ClientSession :=
  if s.selectedAlgorithm = .none then (.ok (), s)
  else
    match newCipherSuite prim s.selectedAlgorithm key with
    | .error e => (.error (.err ("create cipher suite: " ++ e)), { s with cipher := none })
    | .ok suite =>
      (.ok (), { s with cipher := some suite, ivRollPolicy := getIVRollPolicy s.selectedAlgorithm })

/-- `s.sessionToken, err = s.cipher.Decrypt(…)`. -/
def decryptToken (s : ClientSession) (hs : HandshakeInfo) : Except Failure Unit × ClientSession :=
  match s.cipher, hs.initializeCrypto with
  | some cipher, some init =>
    if hs.sessionToken.length > 0 then
      match cipher.decrypt hs.sessionToken init.iv init.aad with
      | .error (.err e) =>
        (.error (.err ("decrypt session token: " ++ e)), { s with sessionToken := [] })
      | .error (.panicked e) => (.error (.panicked e), s)
      | .ok token => (.ok (), { s with sessionToken := token })
    else (.ok (), s)
  | _, _ => (.ok (), s)

/-- The receive IV before the token: the server's own one, the base IV or the old one. -/
def firstRecvIV (hs : HandshakeInfo) (baseIV recvIV : Bytes) : Bytes :=
  let recvIV := if baseIV.length > 0 then baseIV else recvIV
  match hs.initializeCrypto with
  | some init => if init.iv.length > 0 then init.iv else recvIV
  | .none => recvIV

/-- The IVs: the base IV for both directions, the server's own one for receiving, and past the
token, which is the first message of the server. -/
def initIVs (s : ClientSession) (hs : HandshakeInfo) (baseIV : Bytes) : ClientSession :=
  let sendIV := if baseIV.length > 0 then baseIV else s.sendIV
  let recvIV := firstRecvIV hs baseIV s.recvIV
  let recvIV :=
    if hs.sessionToken.length > 0 ∧ s.cipher.isSome ∧ recvIV.length > 0 then
      rollIV s.ivRollPolicy recvIV hs.sessionToken
    else recvIV
  { s with sendIV := sendIV, recvIV := recvIV }

/-- `s.compressor, err = NewCompressor(…)`. -/
def createCompressor (comp : CompressionLib) (s : ClientSession) : Except Failure Unit × ClientSession :=
  if s.selectedCompression = .none then (.ok (), s)
  else
    match newCompressor comp s.selectedCompression with
    | .error e => (.error (.err ("create compressor: " ++ e)), { s with compressor := none })
    | .ok compressor => (.ok (), { s with compressor := some compressor })

/-- The confirm frame. -/
def confirm (fb : HandshakeBuffers) (s : ClientSession) : Bytes × ClientSession :=
  let s := { s with sequence := s.sequence + 1, handshakeDone := true }
  (encodeFrame (fb.buildConfirmMessage s.sequence s.sessionID s.handshakeSequence), s)

/-- `if err != nil { return nil, err }`, and then the rest. -/
def andThen {α : Type} (r : Except Failure Unit × ClientSession)
    (next : ClientSession → Except Failure α × ClientSession) : Except Failure α × ClientSession :=
  match r with
  | (.error f, s) => (.error f, s)
  | (.ok _, s) => next s

/-- `HandleKeyExchangeRsp` on a key exchange response. -/
def acceptKeyExchangeRsp (lib : Libraries) (fb : HandshakeBuffers) (s : ClientSession)
    (hs : HandshakeInfo) : Except Failure Bytes × ClientSession :=
  let s := storeNegotiated s hs
  match keyMaterial lib.keys s hs with
  | .error f => (.error f, s)
  | .ok (key, baseIV) =>
    andThen (createCipher lib.prim s key) fun s =>
      andThen (decryptToken s hs) fun s =>
        andThen (createCompressor lib.comp (initIVs s hs baseIV)) fun s =>
          let (frame, s) := confirm fb s
          (.ok frame, s)

/-- An error of `HandleKeyExchangeRsp`: a `KickoffError`, or any other. -/
inductive HandshakeFailure where
  | kickoff (reason subReason : Int32) (message : Bytes)
  | other (f : Failure)

/-- `HandleKeyExchangeRsp`. -/
def handleKeyExchangeRsp (lib : Libraries) (fb : HandshakeBuffers) (s : ClientSession)
    (frameData : Bytes) : Except HandshakeFailure Bytes × ClientSession :=
  match fb.parseClientMessage frameData with
  | .error e => (.error (.other (.err ("parse handshake response: " ++ e))), s)
  | .ok msg =>
    match msg.type, msg.rest with
    | .kickoff, some (.kickoff reason subReason message) =>
      (.error (.kickoff reason subReason message), s)
    | .handshake, some (.handshake hs) =>
      if hs.step ≠ .keyExchangeRsp then
        (.error (.other (.err s!"expected KeyExchangeRsp step, got {(Coded.toByte hs.step).toNat}")), s)
      else
        let (result, s) := acceptKeyExchangeRsp lib fb s hs
        (result.mapError .other, s)
    | type, _ =>
      (.error (.other (.err s!"expected handshake message, got type {(Coded.toByte type).toNat}")), s)

/-! ## What an accepted response does -/

variable {s s' : ClientSession} {hs : HandshakeInfo} {baseIV frameData key : Bytes}
  {lib : Libraries} {fb : HandshakeBuffers}

theorem andThen_ok {α : Type} {r : Except Failure Unit × ClientSession}
    {next : ClientSession → Except Failure α × ClientSession} {a : α}
    (h : andThen r next = (.ok a, s')) : ∃ s, r = (.ok (), s) ∧ next s = (.ok a, s') := by
  obtain ⟨result, s⟩ := r
  cases result with
  | error f => cases h
  | ok u => exact ⟨s, rfl, h⟩

/-- Without encryption there are no keys; otherwise the base IV has the size of the
algorithm. -/
theorem keyMaterial_ok {keys : KeyLib} (h : keyMaterial keys s hs = .ok (key, baseIV)) :
    (s.selectedAlgorithm = .none → baseIV = []) ∧
    (s.selectedAlgorithm ≠ .none → ∃ params, getCryptoAlgorithmParams s.selectedAlgorithm = .ok params ∧
      (keys.Lawful → baseIV.length = params.ivSize)) := by
  unfold keyMaterial at h
  split at h
  next hnone =>
    cases h
    exact ⟨fun _ => rfl, fun hne => absurd hnone hne⟩
  next hne =>
    refine ⟨fun hnone => absurd hnone hne, fun _ => ?_⟩
    split at h
    · cases h
    · split at h
      · cases h
      next params hparams =>
        refine ⟨params, hparams, fun hlaw => ?_⟩
        split at h
        · cases h
        next material hderive =>
          cases h
          unfold deriveKeyMaterial at hderive
          simp only at hderive
          split at hderive
          next hzero =>
            cases hderive
            show 0 = _
            omega
          next =>
            split at hderive
            · cases hderive
            next bytes hbytes =>
              cases hderive
              have hlen := hlaw _ _ _ hbytes
              split
              next hpos =>
                rw [List.length_drop]
                omega
              next hpos =>
                show 0 = _
                omega

/-- The session after an accepted response, field by field. -/
structure Accepted (lib : Libraries) (s : ClientSession) (hs : HandshakeInfo) (key baseIV : Bytes)
    (s' : ClientSession) : Prop where
  keys : keyMaterial lib.keys (storeNegotiated s hs) hs = .ok (key, baseIV)
  algorithm : s'.selectedAlgorithm = hs.algorithms.headD s.selectedAlgorithm
  compression : s'.selectedCompression = hs.compressionAlgorithms.headD s.selectedCompression
  maxSize : s'.maxPostMessageSize = hs.maxPostMessageSize
  kept : s'.selectedAlgorithm = .none → s'.cipher = s.cipher ∧ s'.ivRollPolicy = s.ivRollPolicy
  created : s'.selectedAlgorithm ≠ .none → ∃ suite,
    newCipherSuite lib.prim s'.selectedAlgorithm key = .ok suite ∧ s'.cipher = some suite ∧
    s'.ivRollPolicy = getIVRollPolicy s'.selectedAlgorithm
  token : ∀ suite ∈ s'.cipher, ∀ init ∈ hs.initializeCrypto, hs.sessionToken.length > 0 →
    suite.decrypt hs.sessionToken init.iv init.aad = .ok s'.sessionToken
  oldToken : s'.cipher = none ∨ hs.initializeCrypto = none ∨ ¬ hs.sessionToken.length > 0 →
    s'.sessionToken = s.sessionToken
  sendIV : s'.sendIV = if baseIV.length > 0 then baseIV else s.sendIV
  recvIV : s'.recvIV =
    if hs.sessionToken.length > 0 ∧ s'.cipher.isSome ∧ (firstRecvIV hs baseIV s.recvIV).length > 0 then
      rollIV s'.ivRollPolicy (firstRecvIV hs baseIV s.recvIV) hs.sessionToken
    else firstRecvIV hs baseIV s.recvIV
  oldCompressor : s'.selectedCompression = .none → s'.compressor = s.compressor
  compressor : s'.selectedCompression ≠ .none → ∃ c,
    newCompressor lib.comp s'.selectedCompression = .ok c ∧ s'.compressor = some c
  done : s'.handshakeDone = true
  threshold : s'.compressionThreshold = s.compressionThreshold
  config : s'.config = s.config
  privateKey : s'.privateKey = s.privateKey

/-- The receive IV has gone past the token if there is one and a cipher. -/
theorem Accepted.recvIV_rolled (h : Accepted lib s hs key baseIV s') :
    s'.recvIV = if hs.sessionToken.length > 0 ∧ s'.cipher.isSome then
        rollIV s'.ivRollPolicy (firstRecvIV hs baseIV s.recvIV) hs.sessionToken
      else firstRecvIV hs baseIV s.recvIV := by
  rw [h.recvIV]
  generalize firstRecvIV hs baseIV s.recvIV = first
  by_cases h0 : first.length = 0
  · rw [List.length_eq_zero_iff.mp h0, rollIV_nil]
    simp
  · have hpos : first.length > 0 := by omega
    simp only [hpos, and_true]

theorem createCipher_created {prim : Primitives} {suite : CipherSuite}
    (halgo : s.selectedAlgorithm ≠ .none)
    (hsuite : newCipherSuite prim s.selectedAlgorithm key = .ok suite) :
    createCipher prim s key = (.ok (), { s with
      cipher := some suite, ivRollPolicy := getIVRollPolicy s.selectedAlgorithm }) := by
  unfold createCipher
  rw [if_neg halgo, hsuite]

theorem createCipher_ok {prim : Primitives} (h : createCipher prim s key = (.ok (), s')) :
    ∃ cipher policy, s' = { s with cipher := cipher, ivRollPolicy := policy } ∧
      (s.selectedAlgorithm = .none → cipher = s.cipher ∧ policy = s.ivRollPolicy) ∧
      (s.selectedAlgorithm ≠ .none → ∃ suite, newCipherSuite prim s.selectedAlgorithm key = .ok suite ∧
        cipher = some suite ∧ policy = getIVRollPolicy s.selectedAlgorithm) := by
  unfold createCipher at h
  split at h
  next hnone =>
    cases h
    exact ⟨s.cipher, s.ivRollPolicy, rfl, fun _ => ⟨rfl, rfl⟩, fun hne => absurd hnone hne⟩
  next hne =>
    split at h
    · cases h
    next suite hsuite =>
      cases h
      exact ⟨_, _, rfl, fun hnone => absurd hnone hne, fun _ => ⟨suite, hsuite, rfl, rfl⟩⟩

theorem decryptToken_ok (h : decryptToken s hs = (.ok (), s')) :
    ∃ token, s' = { s with sessionToken := token } ∧
      (∀ suite ∈ s.cipher, ∀ init ∈ hs.initializeCrypto, hs.sessionToken.length > 0 →
        suite.decrypt hs.sessionToken init.iv init.aad = .ok token) ∧
      (s.cipher = none ∨ hs.initializeCrypto = none ∨ ¬ hs.sessionToken.length > 0 →
        token = s.sessionToken) := by
  unfold decryptToken at h
  split at h
  next suite init hsuite hinit =>
    rw [hsuite, hinit]
    split at h
    next hpos =>
      split at h
      · cases h
      · cases h
      next token htoken =>
        cases h
        refine ⟨token, rfl, fun suite' hs' init' hi' _ => ?_, fun hno => ?_⟩
        · cases hs'
          cases hi'
          exact htoken
        · rcases hno with hno | hno | hno
          · cases hno
          · cases hno
          · exact absurd hpos hno
    next hpos =>
      cases h
      exact ⟨_, rfl, fun _ _ _ _ hpos' => absurd hpos' hpos, fun _ => rfl⟩
  next hnot =>
    cases h
    exact ⟨_, rfl, fun suite hs' init hi' _ => absurd hi' (hnot suite init hs'), fun _ => rfl⟩

theorem createCompressor_ok {comp : CompressionLib} (h : createCompressor comp s = (.ok (), s')) :
    ∃ compressor, s' = { s with compressor := compressor } ∧
      (s.selectedCompression = .none → compressor = s.compressor) ∧
      (s.selectedCompression ≠ .none → ∃ c, newCompressor comp s.selectedCompression = .ok c ∧
        compressor = some c) := by
  unfold createCompressor at h
  split at h
  next hnone =>
    cases h
    exact ⟨_, rfl, fun _ => rfl, fun hne => absurd hnone hne⟩
  next hne =>
    split at h
    · cases h
    next c hc =>
      cases h
      exact ⟨_, rfl, fun hnone => absurd hnone hne, fun _ => ⟨c, hc, rfl⟩⟩

/-- **An accepted response** leaves the session as `Accepted` says. -/
theorem acceptKeyExchangeRsp_ok
     {frame : Bytes} (h : acceptKeyExchangeRsp lib fb s hs = (.ok frame, s')) :
    ∃ key baseIV, Accepted lib s hs key baseIV s' := by
  unfold acceptKeyExchangeRsp at h
  simp only at h
  split at h
  · cases h
  next key baseIV hkeys =>
    obtain ⟨s₁, hcipher, h⟩ := andThen_ok h
    obtain ⟨cipher, policy, rfl, hkept, hcreated⟩ := createCipher_ok hcipher
    obtain ⟨s₂, htoken, h⟩ := andThen_ok h
    obtain ⟨token, rfl, hdecrypted, hold⟩ := decryptToken_ok htoken
    obtain ⟨s₃, hcomp, h⟩ := andThen_ok h
    obtain ⟨compressor, rfl, holdComp, hnewComp⟩ := createCompressor_ok hcomp
    cases h
    exact ⟨key, baseIV,
      { keys := hkeys, algorithm := rfl, compression := rfl, maxSize := rfl, kept := hkept
        created := hcreated, token := hdecrypted, oldToken := hold, sendIV := rfl, recvIV := rfl
        oldCompressor := holdComp, compressor := hnewComp, done := rfl, threshold := rfl
        config := rfl, privateKey := rfl }⟩

/-- A response whose key, cipher, token and compression are right is accepted. -/
theorem acceptKeyExchangeRsp_accepts (fb : HandshakeBuffers)
     {token : Bytes} {suite : CipherSuite} {init : CryptoInfo}
    (hkeys : keyMaterial lib.keys (storeNegotiated s hs) hs = .ok (key, baseIV))
    (halgo : (storeNegotiated s hs).selectedAlgorithm ≠ .none)
    (hsuite : newCipherSuite lib.prim (storeNegotiated s hs).selectedAlgorithm key = .ok suite)
    (hinit : hs.initializeCrypto = some init)
    (htoken : suite.decrypt hs.sessionToken init.iv init.aad = .ok token)
    (hcomp : (storeNegotiated s hs).selectedCompression = .none ∨
      ∃ c, newCompressor lib.comp (storeNegotiated s hs).selectedCompression = .ok c) :
    ∃ frame s', acceptKeyExchangeRsp lib fb s hs = (.ok frame, s') := by
  have hcipher := createCipher_created halgo hsuite
  have hdecrypt : ∀ s₁ : ClientSession, s₁.cipher = some suite →
      ∃ token', decryptToken s₁ hs = (.ok (), { s₁ with sessionToken := token' }) := by
    intro s₁ hs₁
    unfold decryptToken
    rw [hs₁, hinit]
    simp only
    split
    · rw [htoken]
      exact ⟨token, rfl⟩
    · exact ⟨s₁.sessionToken, rfl⟩
  have hcompress : ∀ s₁ : ClientSession,
      s₁.selectedCompression = (storeNegotiated s hs).selectedCompression →
      ∃ s₂, createCompressor lib.comp s₁ = (.ok (), s₂) := by
    intro s₁ hs₁
    unfold createCompressor
    rw [hs₁]
    split
    · exact ⟨_, rfl⟩
    next hne =>
      rcases hcomp with hnone | ⟨c, hc⟩
      · exact absurd hnone hne
      · rw [hc]
        exact ⟨_, rfl⟩
  obtain ⟨token', htoken'⟩ := hdecrypt { storeNegotiated s hs with
    cipher := some suite
    ivRollPolicy := getIVRollPolicy (storeNegotiated s hs).selectedAlgorithm } rfl
  unfold acceptKeyExchangeRsp
  simp only
  rw [hkeys]
  simp only [hcipher, andThen, htoken']
  obtain ⟨s₂, hs₂⟩ := hcompress (initIVs { storeNegotiated s hs with
    cipher := some suite
    ivRollPolicy := getIVRollPolicy (storeNegotiated s hs).selectedAlgorithm
    sessionToken := token' } hs baseIV) rfl
  rw [hs₂]
  exact ⟨_, _, rfl⟩

/-- What two steps keep, the one after the other keeps. -/
theorem andThen_inv {α : Type} {I : ClientSession → Prop} {r : Except Failure Unit × ClientSession}
    {next : ClientSession → Except Failure α × ClientSession} (hr : I r.2)
    (hnext : ∀ s, I s → I (next s).2) : I (andThen r next).2 := by
  obtain ⟨result, s⟩ := r
  cases result with
  | error f => exact hr
  | ok u => exact hnext s hr

theorem createCipher_compressor (prim : Primitives) (s : ClientSession) (key : Bytes) :
    (createCipher prim s key).2.compressor = s.compressor := by
  unfold createCipher
  split
  · rfl
  · split
    · rfl
    · rfl

theorem decryptToken_compressor (s : ClientSession) (hs : HandshakeInfo) :
    (decryptToken s hs).2.compressor = s.compressor := by
  unfold decryptToken
  split
  · split
    · split
      · rfl
      · rfl
      · rfl
    · rfl
  · rfl

/-- The frame holds a key exchange response. -/
def KeyExchangeRsp (fb : HandshakeBuffers) (frameData : Bytes) (hs : HandshakeInfo) : Prop :=
  ∃ msg, fb.parseClientMessage frameData = .ok msg ∧ msg.type = .handshake ∧
    msg.rest = some (.handshake hs) ∧ hs.step = .keyExchangeRsp

/-- A key exchange response goes to the steps of the handshake. -/
theorem handleKeyExchangeRsp_of_rsp
    (h : KeyExchangeRsp fb frameData hs) (lib : Libraries) (s : ClientSession) :
    handleKeyExchangeRsp lib fb s frameData
      = ((acceptKeyExchangeRsp lib fb s hs).1.mapError .other, (acceptKeyExchangeRsp lib fb s hs).2) := by
  obtain ⟨msg, hmsg, htype, hrest, hstep⟩ := h
  unfold handleKeyExchangeRsp
  rw [hmsg]
  simp only
  rw [htype, hrest]
  simp only
  rw [if_neg fun hne => hne hstep]

/-- Anything else is an error, and leaves the session alone. -/
theorem handleKeyExchangeRsp_of_not
    (h : ∀ hs, ¬ KeyExchangeRsp fb frameData hs) (lib : Libraries) (s : ClientSession) :
    ∃ e, handleKeyExchangeRsp lib fb s frameData = (.error e, s) ∧ ∀ text, e ≠ .other (.panicked text) := by
  unfold handleKeyExchangeRsp
  split
  · exact ⟨_, rfl, fun _ hp => by cases hp⟩
  next msg hmsg =>
    split
    · exact ⟨_, rfl, fun _ hp => by cases hp⟩
    next hs htype hrest =>
      split
      · exact ⟨_, rfl, fun _ hp => by cases hp⟩
      next hstep => exact absurd ⟨msg, hmsg, htype, hrest, not_not.mp hstep⟩ (h hs)
    · exact ⟨_, rfl, fun _ hp => by cases hp⟩

/-- The frame holds this handshake message. -/
def Responds (fb : HandshakeBuffers) (frameData : Bytes) (hs : HandshakeInfo) : Prop :=
  ∃ msg, fb.parseClientMessage frameData = .ok msg ∧ msg.rest = some (.handshake hs)

theorem Responds.unique {hs' : HandshakeInfo}
    (h : Responds fb frameData hs) (h' : Responds fb frameData hs') : hs = hs' := by
  obtain ⟨msg, hmsg, hrest⟩ := h
  obtain ⟨msg', hmsg', hrest'⟩ := h'
  rw [hmsg] at hmsg'
  cases hmsg'
  rw [hrest] at hrest'
  cases hrest'
  rfl

theorem handleKeyExchangeRsp_ok
    {frame : Bytes} (h : handleKeyExchangeRsp lib fb s frameData = (.ok frame, s')) :
    ∃ hs key baseIV, Responds fb frameData hs ∧ Accepted lib s hs key baseIV s' := by
  unfold handleKeyExchangeRsp at h
  split at h
  · cases h
  next msg hmsg =>
    split at h
    · cases h
    next hs _ hrest =>
      split at h
      · cases h
      next =>
        cases haccept : acceptKeyExchangeRsp lib fb s hs with
        | mk result s₁ =>
          simp only [haccept] at h
          cases result with
          | error f => cases h
          | ok frame' =>
            cases h
            obtain ⟨key, baseIV, hacc⟩ := acceptKeyExchangeRsp_ok haccept
            exact ⟨hs, key, baseIV, ⟨msg, hmsg, hrest⟩, hacc⟩
    · cases h

end Robot.Gateway
