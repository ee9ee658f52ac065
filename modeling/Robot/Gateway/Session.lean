import Robot.Gateway.Cipher
import Robot.Gateway.Framing

/-!
# Posts of a gateway session

`EncodePost` and `DecodeMessage` of `gateway_session.go`. A payload is compressed if that
pays, encrypted under the current send IV, and packed; the receiver decrypts, cuts to the
compressed size, decompresses and cuts to the length. `CompressionInfo.OriginalSize` is the
size *after* compression, for compatibility with the C++ side.

FlatBuffers come in as `FlatBuffers`, the compressors as `Compressor`. `EncodePost` fails
before it changes the session; `DecodeMessage` has rolled the receive IV when a
decompression fails, so it returns a session in either case.
-/

namespace Robot.Gateway

open Robot.Lib

/-! ## Messages -/

/-- `compression_algorithm_t`. -/
inductive CompressionAlgorithm where
  | none
  | zstd
  | lz4
  | snappy
  | zlib
  | other (code : UInt8) (free : code ∉ [0, 10, 20, 30, 40])
  deriving DecidableEq

/-- `key_exchange_t`. -/
inductive KeyExchange where
  | none
  | x25519
  | secp256r1
  | secp384r1
  | secp521r1
  | other (code : UInt8) (free : code ∉ [0, 1, 2, 3, 4])
  deriving DecidableEq

/-- `kdf_algorithm_t`. -/
inductive KdfAlgorithm where
  | hkdfSha256
  | other (code : UInt8) (free : code ≠ 0)
  deriving DecidableEq

/-- `access_data_algorithm_t`. -/
inductive AccessDataAlgorithm where
  | hmacSha256
  | other (code : UInt8) (free : code ≠ 0)
  deriving DecidableEq

/-- `handshake_step_t`. -/
inductive HandshakeStep where
  | keyExchangeReq
  | keyExchangeRsp
  | reconnectReq
  | reconnectRsp
  | other (code : UInt8) (free : code ∉ [0, 1, 11, 12])
  deriving DecidableEq

structure CryptoInfo where
  algorithm : CryptoAlgorithm
  iv : Bytes
  aad : Bytes
  deriving DecidableEq

structure CompressionInfo where
  type : CompressionAlgorithm
  originalSize : UInt64
  deriving DecidableEq

structure PostInfo where
  crypto : Option CryptoInfo
  compression : Option CompressionInfo
  length : UInt64
  data : Bytes
  deriving DecidableEq

structure AccessDataInfo where
  algorithm : AccessDataAlgorithm
  timestamp : Int64
  nonce1 : UInt64
  nonce2 : UInt64
  signature : Bytes
  deriving DecidableEq

structure HandshakeInfo where
  sessionID : UInt64
  step : HandshakeStep
  keyExchange : KeyExchange
  kdfTypes : List KdfAlgorithm
  algorithms : List CryptoAlgorithm
  publicKey : Bytes
  accessData : List AccessDataInfo
  initializeCrypto : Option CryptoInfo
  compressionAlgorithms : List CompressionAlgorithm
  maxPostMessageSize : UInt64
  sessionToken : Bytes
  handshakeSequence : UInt64
  deriving DecidableEq

/-- `client_message_type_t`. -/
inductive ClientMessageType where
  | unknown
  | post
  | handshake
  | ping
  | pong
  | kickoff
  | confirm
  | other (code : UInt8) (free : code ∉ [0, 1, 2, 3, 4, 5, 6])
  deriving DecidableEq

/-- The body of a message other than a post. A Go string is a byte string. -/
inductive OtherBody where
  | handshake (info : HandshakeInfo)
  | ping (timepoint : Int64)
  | kickoff (reason subReason : Int32) (message : Bytes)
  | confirm (sessionID handshakeSequence : UInt64)
  deriving DecidableEq

/-- `ParsedMessage`. -/
structure ParsedMessage where
  type : ClientMessageType
  sequence : UInt64
  post : Option PostInfo
  rest : Option OtherBody
  deriving DecidableEq

/-- The FlatBuffers code the session uses for posts. -/
structure FlatBuffers where
  buildPostMessage : UInt64 → PostInfo → Bytes
  parseClientMessage : Bytes → Except String ParsedMessage

/-- Build and parse preserve the fields of a post. An elided empty vector is read as empty. -/
def FlatBuffers.Lawful (fb : FlatBuffers) : Prop :=
  ∀ seq post, fb.parseClientMessage (fb.buildPostMessage seq post)
    = .ok { type := .post, sequence := seq, post := some post, rest := none }

/-- `Compressor`. -/
structure Compressor where
  compress : Bytes → Except String Bytes
  decompress : Bytes → Int → Except Failure Bytes

/-- Decompressing with the right size gives the data back. -/
def Compressor.Lawful (c : Compressor) : Prop :=
  ∀ data, ∃ compressed, c.compress data = .ok compressed ∧
    c.decompress compressed data.length = .ok data

/-! ## Sessions -/

/-- The state of a `GatewaySession` that posts read and write. -/
structure GatewaySession where
  compressionThreshold : UInt64
  selectedAlgorithm : CryptoAlgorithm
  selectedCompression : CompressionAlgorithm
  cipher : Option CipherSuite
  sendIV : Bytes
  recvIV : Bytes
  ivRollPolicy : IVRollPolicy
  compressor : Option Compressor
  maxPostMessageSize : UInt64
  handshakeDone : Bool
  sequence : UInt64

/-- `fmt.Errorf("…: %w", err)`; a panic goes through. -/
def Failure.wrap (text : String) : Failure → Failure
  | .err msg => .err (text ++ ": " ++ msg)
  | .panicked msg => .panicked msg

/-- The compression step of `EncodePost`: the data to encrypt, and the info if it was
compressed. -/
def compressData (s : GatewaySession) (payload : Bytes) :
    Except Failure (Bytes × Option CompressionInfo) :=
  match s.compressor with
  | .none => .ok (payload, .none)
  | some compressor =>
    if s.compressionThreshold > 0 ∧ UInt64.ofNat payload.length ≥ s.compressionThreshold then
      match compressor.compress payload with
      | .error e => .error (.err ("compress: " ++ e))
      | .ok compressed =>
        if compressed.length < payload.length then
          .ok (compressed,
            some { type := s.selectedCompression, originalSize := UInt64.ofNat compressed.length })
        else .ok (payload, .none)
    else .ok (payload, .none)

/-- The encryption step of `EncodePost`; `rand` is what `rand.Read` returns for the AAD. -/
def encryptData (rand : Except String Bytes) (s : GatewaySession) (data : Bytes) :
    Except Failure (Bytes × Option CryptoInfo × GatewaySession) :=
  match s.cipher with
  | .none => .ok (data, .none, s)
  | some cipher =>
    if s.selectedAlgorithm = .none then .ok (data, .none, s)
    else
      match (if cipher.params.isAEAD then rand else .ok []) with
      | .error e => .error (.err ("generate AAD: " ++ e))
      | .ok aad =>
        match cipher.encrypt data s.sendIV aad with
        | .error f => .error (f.wrap "encrypt")
        | .ok encrypted =>
          .ok (encrypted, some { algorithm := s.selectedAlgorithm, iv := s.sendIV, aad := aad },
            { s with sendIV := rollIV s.ivRollPolicy s.sendIV encrypted })

/-- The end of `EncodePost`: the post is built under the next sequence number. -/
def packPost (fb : FlatBuffers) (payload : Bytes) (compression : Option CompressionInfo)
    (encrypted : Bytes × Option CryptoInfo × GatewaySession) : Bytes × GatewaySession :=
  let (data, crypto, s) := encrypted
  let post : PostInfo :=
    { crypto := crypto, compression := compression
      length := UInt64.ofNat payload.length, data := data }
  (encodeFrame (fb.buildPostMessage (s.sequence + 1) post), { s with sequence := s.sequence + 1 })

/-- `EncodePost`: the frame and the session after it. -/
def encodePost (fb : FlatBuffers) (rand : Except String Bytes) (s : GatewaySession)
    (payload : Bytes) : Except Failure (Bytes × GatewaySession) :=
  if ¬ s.handshakeDone then .error (.err "handshake not complete")
  else if s.maxPostMessageSize > 0 ∧ UInt64.ofNat payload.length > s.maxPostMessageSize then
    .error (.err "message too large")
  else
    match compressData s payload with
    | .error f => .error f
    | .ok (data, compression) => (encryptData rand s data).map (packPost fb payload compression)

/-- `data[:n]` if there is more. -/
def trimTo (data : Bytes) (n : UInt64) : Bytes :=
  if UInt64.ofNat data.length > n then data.take n.toNat else data

/-- The decryption step of `decodePostPayload`. -/
def decryptData (s : GatewaySession) (post : PostInfo) : Except Failure Bytes × GatewaySession :=
  match post.crypto, s.cipher with
  | some crypto, some cipher =>
    if crypto.algorithm = .none then (.ok post.data, s)
    else
      let iv := if crypto.iv.length = 0 then s.recvIV else crypto.iv
      match cipher.decrypt post.data iv crypto.aad with
      | .error f => (.error (f.wrap "decrypt post"), s)
      | .ok decrypted =>
        let recvIV := if crypto.iv.length > 0 then crypto.iv else s.recvIV
        (.ok decrypted, { s with recvIV := rollIV s.ivRollPolicy recvIV post.data })
  | _, _ => (.ok post.data, s)

/-- The decompression step of `decodePostPayload`. -/
def decompressData (s : GatewaySession) (post : PostInfo) (data : Bytes) : Except Failure Bytes :=
  match post.compression, s.compressor with
  | some compression, some compressor =>
    if compression.type = .none then .ok data
    else
      match compressor.decompress (trimTo data compression.originalSize) post.length.toInt64.toInt with
      | .error f => .error (f.wrap "decompress post")
      | .ok decompressed => .ok decompressed
  | _, _ => .ok data

/-- `decodePostPayload`. -/
def decodePostPayload (s : GatewaySession) (post : PostInfo) :
    Except Failure PostInfo × GatewaySession :=
  match decryptData s post with
  | (.error f, s) => (.error f, s)
  | (.ok data, s) =>
    match decompressData s post data with
    | .error f => (.error f, s)
    | .ok data => (.ok { post with data := trimTo data post.length }, s)

/-- `DecodeMessage`. -/
def decodeMessage (fb : FlatBuffers) (s : GatewaySession) (frameData : Bytes) :
    Except Failure ParsedMessage × GatewaySession :=
  match fb.parseClientMessage frameData with
  | .error e => (.error (.err ("parse message: " ++ e)), s)
  | .ok msg =>
    match msg.post with
    | .none => (.ok msg, s)
    | some post =>
      let (decoded, s) := decodePostPayload s post
      (decoded.map fun post => { msg with post := some post }, s)

/-! ## What the calls change -/

variable {rand : Except String Bytes} {s s' : GatewaySession}

/-- A post is encrypted under the current send IV, which is then rolled. -/
theorem encryptData_ok {cipher : CipherSuite}
    {data sent : Bytes} {crypto : Option CryptoInfo} (hcipher : s.cipher = some cipher)
    (halgo : s.selectedAlgorithm ≠ .none) (h : encryptData rand s data = .ok (sent, crypto, s')) :
    s' = { s with sendIV := rollIV s.ivRollPolicy s.sendIV sent } ∧
      ∃ aad, crypto = some { algorithm := s.selectedAlgorithm, iv := s.sendIV, aad := aad } := by
  unfold encryptData at h
  rw [hcipher] at h
  simp only at h
  rw [if_neg halgo] at h
  split at h
  · cases h
  next aad haad =>
    split at h
    · cases h
    · cases h
      exact ⟨by rw [hcipher], aad, rfl⟩

/-- A successful `EncodePost` has gone through its three steps. -/
theorem encodePost_ok {fb : FlatBuffers}
    {payload frame : Bytes} (h : encodePost fb rand s payload = .ok (frame, s')) :
    ∃ data info encrypted, compressData s payload = .ok (data, info) ∧
      encryptData rand s data = .ok encrypted ∧ packPost fb payload info encrypted = (frame, s') := by
  unfold encodePost at h
  split at h
  · cases h
  · split at h
    · cases h
    · split at h
      · cases h
      next data info hdata =>
        cases hsent : encryptData rand s data with
        | error f =>
          rw [hsent] at h
          cases h
        | ok encrypted =>
          rw [hsent] at h
          exact ⟨data, info, encrypted, hdata, hsent, Except.ok.inj h⟩

theorem encryptData_session {data sent : Bytes}
    {crypto : Option CryptoInfo} (h : encryptData rand s data = .ok (sent, crypto, s')) :
    ∃ iv, s' = { s with sendIV := iv } := by
  unfold encryptData at h
  split at h
  · cases h
    exact ⟨s.sendIV, rfl⟩
  · split at h
    · cases h
      exact ⟨s.sendIV, rfl⟩
    · split at h
      · cases h
      · split at h
        · cases h
        · cases h
          exact ⟨_, rfl⟩

/-- **`EncodePost` changes the send IV and the sequence number** and nothing else. -/
theorem encodePost_session {fb : FlatBuffers}
    {payload frame : Bytes} (h : encodePost fb rand s payload = .ok (frame, s')) :
    ∃ iv n, s' = { s with sendIV := iv, sequence := n } := by
  obtain ⟨data, info, encrypted, -, hsent, hpack⟩ := encodePost_ok h
  obtain ⟨sent, crypto, s₁⟩ := encrypted
  obtain ⟨iv, rfl⟩ := encryptData_session hsent
  cases hpack
  exact ⟨iv, _, rfl⟩

theorem decryptData_session (s : GatewaySession) (post : PostInfo) :
    ∃ iv, (decryptData s post).2 = { s with recvIV := iv } := by
  unfold decryptData
  split
  · split
    · exact ⟨s.recvIV, rfl⟩
    · simp only
      split
      · exact ⟨s.recvIV, rfl⟩
      · exact ⟨_, rfl⟩
  · exact ⟨s.recvIV, rfl⟩

/-- A post that does not decrypt leaves the session as it was. -/
theorem decryptData_error {post : PostInfo} {f : Failure}
    (h : (decryptData s post).1 = .error f) : decryptData s post = (.error f, s) := by
  revert h
  unfold decryptData
  split
  · split
    · intro h
      cases h
    · simp only
      split
      · intro h
        cases h
        rfl
      · intro h
        cases h
  · intro h
    cases h

/-- A decompression does not touch the session. -/
theorem decodePostPayload_session (s : GatewaySession) (post : PostInfo) :
    (decodePostPayload s post).2 = (decryptData s post).2 := by
  unfold decodePostPayload
  split
  next hd => rw [hd]
  next hd =>
    rw [hd]
    split
    · rfl
    · rfl

/-- **`DecodeMessage` changes the receive IV** and nothing else. -/
theorem decodeMessage_session (fb : FlatBuffers) (s : GatewaySession) (frameData : Bytes) :
    ∃ iv, (decodeMessage fb s frameData).2 = { s with recvIV := iv } := by
  unfold decodeMessage
  split
  · exact ⟨s.recvIV, rfl⟩
  · split
    · exact ⟨s.recvIV, rfl⟩
    next post _ =>
      simp only [decodePostPayload_session]
      exact decryptData_session s post

end Robot.Gateway
