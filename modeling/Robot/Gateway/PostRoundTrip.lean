import Robot.Gateway.MessageRoundTrip

/-!
# Posts round-trip

Three layers have to undo each other: compression, the block padding that has no marker,
and the final cut to the length. `compressData_spec` says what the sender's compression step
leaves for the receiver to undo, given the data with padding behind it; `SuiteOf.trips` says
which data a cipher brings across with padding behind it. Put together, a payload
round-trips exactly if the bytes to encrypt are `Encryptable`, and the exception that
matters is AES-CBC with an empty payload.
-/

namespace Robot.Gateway

open Robot.Lib

/-- The session holds this negotiated algorithm, key and compressor. A compressor is only
there if a compression was negotiated, and an IV the algorithm uses has its size. -/
structure Negotiated (prim : Primitives) (algo : CryptoAlgorithm) (key : Bytes)
    (kind : CompressionAlgorithm) (comp : Option Compressor) (s : GatewaySession) : Prop where
  done : s.handshakeDone = true
  algorithm : s.selectedAlgorithm = algo
  compression : s.selectedCompression = kind
  compressor : s.compressor = comp
  real : comp ≠ none → kind ≠ .none
  cipher : algo ≠ .none → ∃ suite, newCipherSuite prim algo key = .ok suite ∧
    s.cipher = some suite ∧ (suite.params.ivSize ≠ 0 → s.sendIV.length = suite.params.ivSize)

/-! ## Cutting -/

/-- Padding is cut off. -/
theorem trimTo_padded {data pt : Bytes} (h : Padded data pt) (hlen : data.length < 2 ^ 63) :
    trimTo pt (UInt64.ofNat data.length) = data := by
  obtain ⟨hpre, hle⟩ := h
  have hdata : (UInt64.ofNat data.length).toNat = data.length := by
    rw [UInt64.toNat_ofNat']
    omega
  have hpt : (UInt64.ofNat pt.length).toNat = pt.length := by
    rw [UInt64.toNat_ofNat']
    omega
  unfold trimTo
  split
  · rw [hdata]
    exact (List.prefix_iff_eq_take.mp hpre).symm
  next hgt =>
    rw [gt_iff_lt, UInt64.lt_iff_toNat_lt, hdata, hpt] at hgt
    exact (hpre.eq_of_length (by have := hpre.length_le; omega)).symm

theorem padded_refl (data : Bytes) : Padded data data := ⟨List.prefix_refl data, by omega⟩

/-- `int(uint64(len(payload)))` is the length. -/
theorem length_toInt {n : Nat} (h : n < 2 ^ 63) : (UInt64.ofNat n).toInt64.toInt = n := by
  have hn : (UInt64.ofNat n).toNat = n := by
    rw [UInt64.toNat_ofNat']
    omega
  have hbv : (UInt64.ofNat n).toInt64.toInt = (UInt64.ofNat n).toBitVec.toInt := rfl
  rw [hbv, BitVec.toInt_eq_toNat_cond, UInt64.toNat_toBitVec, hn]
  split
  · rfl
  · omega

/-! ## Compression -/

section

variable {prim : Primitives} {algo : CryptoAlgorithm} {key : Bytes}
  {kind : CompressionAlgorithm} {comp : Option Compressor} {sender : GatewaySession}

/-- **What the sender compresses, the receiver undoes**, from the data with padding behind it. -/
theorem compressData_spec (hs : Negotiated prim algo key kind comp sender)
    (hlaw : ∀ c ∈ comp, c.Lawful) (payload : Bytes) (hlen : payload.length < 2 ^ 63) :
    ∃ data info, compressData sender payload = .ok (data, info) ∧
      ∀ (receiver : GatewaySession) (post : PostInfo) (pt : Bytes),
        receiver.compressor = comp → post.compression = info →
        post.length = UInt64.ofNat payload.length → Padded data pt →
        ∃ out, decompressData receiver post pt = .ok out ∧ trimTo out post.length = payload := by
  -- an uncompressed payload is only cut
  have hplain : ∀ (receiver : GatewaySession) (post : PostInfo) (pt : Bytes),
      receiver.compressor = comp → post.compression = none →
      post.length = UInt64.ofNat payload.length → Padded payload pt →
      ∃ out, decompressData receiver post pt = .ok out ∧ trimTo out post.length = payload := by
    intro receiver post pt _ hinfo hpost hpad
    refine ⟨pt, ?_, by rw [hpost]; exact trimTo_padded hpad hlen⟩
    unfold decompressData
    rw [hinfo]
  unfold compressData
  rw [hs.compressor]
  cases hc : comp with
  | none =>
    subst hc
    exact ⟨payload, none, rfl, hplain⟩
  | some c =>
    subst hc
    obtain ⟨compressed, hcomp, hdecomp⟩ := hlaw c rfl payload
    simp only [hcomp]
    split
    · split
      next hshort =>
        refine ⟨compressed, _, rfl, fun receiver post pt hr hinfo hpost hpad => ⟨payload, ?_, ?_⟩⟩
        · unfold decompressData
          rw [hinfo, hr]
          simp only
          rw [if_neg (by rw [hs.compression]; exact hs.real (by simp)),
            trimTo_padded hpad (by omega), hpost, length_toInt hlen, hdecomp]
        · rw [hpost]
          exact trimTo_padded (padded_refl payload) hlen
      · exact ⟨payload, none, rfl, hplain⟩
    · exact ⟨payload, none, rfl, hplain⟩

/-! ## Encryption -/

/-- Without encryption the data goes across as it is. -/
theorem encryptData_none (hs : Negotiated prim .none key kind comp sender)
    (rand : Except String Bytes) (data : Bytes) :
    encryptData rand sender data = .ok (data, none, sender) := by
  unfold encryptData
  split
  · rfl
  · rw [if_pos hs.algorithm]

/-- **What the sender encrypts, the receiver decrypts**, with padding behind it, if it is
`Encryptable`; otherwise one of the two fails. -/
theorem encryptData_spec {receiver : GatewaySession} (hprim : prim.Lawful)
    (hs : Negotiated prim algo key kind comp sender)
    (hr : Negotiated prim algo key kind comp receiver) (aad data : Bytes) :
    (algo.Encryptable data ∧ ∃ sent crypto sender',
      encryptData (.ok aad) sender data = .ok (sent, crypto, sender') ∧
      ∀ post : PostInfo, post.crypto = crypto → post.data = sent →
        ∃ pt receiver', decryptData receiver post = (.ok pt, receiver') ∧
          receiver'.compressor = comp ∧ Padded data pt) ∨
    (¬ algo.Encryptable data ∧ ∀ sent crypto sender',
      encryptData (.ok aad) sender data = .ok (sent, crypto, sender') →
      ∀ post : PostInfo, post.crypto = crypto → post.data = sent →
        ∃ f receiver', decryptData receiver post = (.error f, receiver')) := by
  by_cases hnone : algo = .none
  · subst hnone
    refine Or.inl ⟨⟨fun h => absurd h (by decide), nofun, nofun⟩, data, none, sender,
      encryptData_none hs _ data, fun post hcrypto hdata => ?_⟩
    refine ⟨data, receiver, ?_, hr.compressor, padded_refl data⟩
    unfold decryptData
    rw [hcrypto, hdata]
  · obtain ⟨suite, hsuite, hcipher, hiv⟩ := hs.cipher hnone
    obtain ⟨suite', hsuite', hcipher', -⟩ := hr.cipher hnone
    obtain rfl : suite = suite' := Except.ok.inj (hsuite.symm.trans hsuite')
    have hsent : ¬ sender.selectedAlgorithm = .none := by rw [hs.algorithm]; exact hnone
    -- the AAD that is used, and the IV the receiver finds in the message
    generalize haad : (if suite.params.isAEAD then aad else []) = aad'
    have hrand : (if suite.params.isAEAD then (.ok aad : Except String Bytes) else .ok []) = .ok aad' := by
      rw [← haad]
      split
      · rfl
      · rfl
    generalize hiv' : (if sender.sendIV.length = 0 then receiver.recvIV else sender.sendIV) = iv'
    have hsame : suite.params.ivSize ≠ 0 → sender.sendIV.length = suite.params.ivSize ∧ iv' = sender.sendIV := by
      intro h0
      refine ⟨hiv h0, ?_⟩
      rw [← hiv', if_neg (by rw [hiv h0]; exact h0)]
    have henc : ∀ ct, suite.encrypt data sender.sendIV aad' = .ok ct →
        encryptData (.ok aad) sender data = .ok (ct,
          some { algorithm := sender.selectedAlgorithm, iv := sender.sendIV, aad := aad' },
          { sender with sendIV := rollIV sender.ivRollPolicy sender.sendIV ct }) := by
      intro ct hct
      unfold encryptData
      rw [hcipher]
      simp only
      rw [if_neg hsent, hrand]
      simp only [hct]
    have hdec : ∀ (post : PostInfo), post.crypto
          = some { algorithm := sender.selectedAlgorithm, iv := sender.sendIV, aad := aad' } →
        (∀ pt, suite.decrypt post.data iv' aad' = .ok pt →
          ∃ receiver', decryptData receiver post = (.ok pt, receiver') ∧ receiver'.compressor = comp) ∧
        (∀ f, suite.decrypt post.data iv' aad' = .error f →
          ∃ f' receiver', decryptData receiver post = (.error f', receiver')) := by
      intro post hcrypto
      unfold decryptData
      rw [hcrypto, hcipher']
      simp only
      rw [if_neg hsent, hiv']
      constructor
      · intro pt hpt
        rw [hpt]
        exact ⟨_, rfl, hr.compressor⟩
      · intro f hf
        rw [hf]
        exact ⟨_, _, rfl⟩
    rcases (newCipherSuite_suiteOf hsuite).trips hprim data aad' hsame with
      ⟨hok, ct, pt, hct, hpt, hpad⟩ | ⟨hno, hfail⟩
    · refine Or.inl ⟨hok, ct, _, _, henc ct hct, fun post hcrypto hdata => ?_⟩
      subst hdata
      obtain ⟨receiver', hrec, hcomp⟩ := (hdec post hcrypto).1 pt hpt
      exact ⟨pt, receiver', hrec, hcomp, hpad⟩
    · refine Or.inr ⟨hno, fun sent crypto sender' hsend post hcrypto hdata => ?_⟩
      cases hct : suite.encrypt data sender.sendIV aad' with
      | error f =>
        -- the sender fails already
        unfold encryptData at hsend
        rw [hcipher] at hsend
        simp only at hsend
        rw [if_neg hsent, hrand] at hsend
        simp only [hct] at hsend
        cases hsend
      | ok ct =>
        rw [henc ct hct] at hsend
        cases hsend
        subst hdata
        cases hpt : suite.decrypt post.data iv' aad' with
        | ok pt => exact absurd hpt (hfail post.data pt hct)
        | error f => exact (hdec post hcrypto).2 f hpt

/-! ## The whole way -/

/-- The bytes `EncodePost` encrypts: the compressed payload if that was shorter. -/
def bytesToEncrypt (s : GatewaySession) (payload : Bytes) : Bytes :=
  match compressData s payload with
  | .ok (data, _) => data
  | .error _ => payload

theorem bytesToEncrypt_eq {s : GatewaySession} {payload data : Bytes} {info : Option CompressionInfo}
    (h : compressData s payload = .ok (data, info)) : bytesToEncrypt s payload = data := by
  unfold bytesToEncrypt
  rw [h]

/-- The receiver decodes the sender's frame to the payload. -/
def PostArrives (fb : FlatBuffers) (rand : Except String Bytes) (sender receiver : GatewaySession)
    (payload : Bytes) : Prop :=
  ∃ frame sender', encodePost fb rand sender payload = .ok (frame, sender') ∧
    ∃ msg receiver', decodeMessage fb receiver (framePayload frame) = (.ok msg, receiver') ∧
      ∃ post, msg.post = some post ∧ post.data = payload

/-- `EncodePost` after its checks and the compression. -/
theorem encodePost_eq (fb : FlatBuffers) (rand : Except String Bytes)
    (hs : Negotiated prim algo key kind comp sender) {payload data : Bytes}
    {info : Option CompressionInfo}
    (hsize : sender.maxPostMessageSize = 0 ∨ payload.length ≤ sender.maxPostMessageSize.toNat)
    (hlen : payload.length < 2 ^ 63) (hdata : compressData sender payload = .ok (data, info)) :
    encodePost fb rand sender payload = (encryptData rand sender data).map (packPost fb payload info) := by
  have hfits : ¬ (sender.maxPostMessageSize > 0 ∧
      UInt64.ofNat payload.length > sender.maxPostMessageSize) := by
    intro h
    obtain ⟨hpos, hgt⟩ := h
    rw [gt_iff_lt, UInt64.lt_iff_toNat_lt] at hpos hgt
    rw [UInt64.toNat_ofNat', Nat.mod_eq_of_lt (by omega)] at hgt
    rcases hsize with h0 | hle
    · rw [h0] at hpos
      exact absurd hpos (by decide)
    · omega
  unfold encodePost
  rw [if_neg (by rw [hs.done]; decide), if_neg hfits, hdata]

/-- `DecodeMessage` of a built post. -/
theorem decodeMessage_post {fb : FlatBuffers} (hfb : fb.Lawful) (receiver : GatewaySession)
    (seq : UInt64) (post : PostInfo) :
    decodeMessage fb receiver (framePayload (encodeFrame (fb.buildPostMessage seq post)))
      = ((decodePostPayload receiver post).1.map fun post =>
          { type := .post, sequence := seq, post := some post, rest := none },
        (decodePostPayload receiver post).2) := by
  unfold decodeMessage
  rw [framePayload_encodeFrame, hfb]

variable {receiver : GatewaySession} {fb : FlatBuffers} {payload : Bytes}

variable (hprim : prim.Lawful) (hfb : fb.Lawful)
  (hlaw : ∀ c ∈ comp, c.Lawful) (hs : Negotiated prim algo key kind comp sender)
  (hr : Negotiated prim algo key kind comp receiver) (aad : Bytes)
  (hsize : sender.maxPostMessageSize = 0 ∨ payload.length ≤ sender.maxPostMessageSize.toNat)
  (hlen : payload.length < 2 ^ 63)

include hprim hfb hlaw hs hr hsize hlen

/-- An encryptable payload arrives. -/
theorem postArrives_of_encryptable (henc : algo.Encryptable (bytesToEncrypt sender payload)) :
    PostArrives fb (.ok aad) sender receiver payload := by
  obtain ⟨data, info, hdata, hundo⟩ := compressData_spec hs hlaw payload hlen
  rw [bytesToEncrypt_eq hdata] at henc
  rcases encryptData_spec hprim hs hr aad data with ⟨-, sent, crypto, sender', hsend, hdec⟩ | ⟨hno, -⟩
  · unfold PostArrives
    rw [encodePost_eq fb _ hs hsize hlen hdata, hsend]
    refine ⟨_, _, rfl, ?_⟩
    generalize hpost : ({ crypto := crypto, compression := info
                          length := UInt64.ofNat payload.length, data := sent } : PostInfo) = post
    have hdecode := decodeMessage_post hfb receiver (sender'.sequence + 1) post
    obtain ⟨pt, receiver', hrec, hcomp, hpad⟩ := hdec post (by rw [← hpost]) (by rw [← hpost])
    obtain ⟨out, hout, htrim⟩ := hundo receiver' post pt hcomp (by rw [← hpost]) (by rw [← hpost]) hpad
    have hpayload : decodePostPayload receiver post
        = (.ok { post with data := trimTo out post.length }, receiver') := by
      unfold decodePostPayload
      simp only [hrec, hout]
    rw [hpayload] at hdecode
    subst hpost
    exact ⟨_, _, hdecode, _, rfl, htrim⟩
  · exact absurd henc hno

/-- Any other one does not. -/
theorem not_postArrives (henc : ¬ algo.Encryptable (bytesToEncrypt sender payload)) :
    ¬ PostArrives fb (.ok aad) sender receiver payload := by
  intro h
  obtain ⟨data, info, hdata, -⟩ := compressData_spec hs hlaw payload hlen
  rw [bytesToEncrypt_eq hdata] at henc
  obtain ⟨frame, sender', hframe, msg, receiver', hmsg, -⟩ := h
  rw [encodePost_eq fb _ hs hsize hlen hdata] at hframe
  rcases encryptData_spec hprim hs hr aad data with ⟨hok, -⟩ | ⟨-, hfail⟩
  · exact henc hok
  · cases hsend : encryptData (.ok aad) sender data with
    | error f =>
      rw [hsend] at hframe
      cases hframe
    | ok sent =>
      obtain ⟨sent, crypto, s⟩ := sent
      rw [hsend] at hframe
      cases hframe
      obtain ⟨f, r, hrec⟩ := hfail sent crypto s hsend
        { crypto := crypto, compression := info
          length := UInt64.ofNat payload.length, data := sent } rfl rfl
      have hdecode := decodeMessage_post hfb receiver (s.sequence + 1)
        { crypto := crypto, compression := info
          length := UInt64.ofNat payload.length, data := sent }
      unfold decodePostPayload at hdecode
      simp only [hrec] at hdecode
      have hmsg' := hdecode.symm.trans hmsg
      cases hmsg'

end

/-- **A post round-trips** between two sessions with the same algorithm, key and compressor, if
and only if the bytes to encrypt are `Encryptable`. -/
theorem post_roundTrip_iff (prim : Primitives) (hprim : prim.Lawful) (fb : FlatBuffers)
    (hfb : fb.Lawful) (algo : CryptoAlgorithm) (key : Bytes) (kind : CompressionAlgorithm)
    (comp : Option Compressor) (hlaw : ∀ c ∈ comp, c.Lawful) (sender receiver : GatewaySession)
    (hs : Negotiated prim algo key kind comp sender)
    (hr : Negotiated prim algo key kind comp receiver) (aad payload : Bytes)
    (hsize : sender.maxPostMessageSize = 0 ∨ payload.length ≤ sender.maxPostMessageSize.toNat)
    (hlen : payload.length < 2 ^ 63) :
    PostArrives fb (.ok aad) sender receiver payload
      ↔ algo.Encryptable (bytesToEncrypt sender payload) := by
  constructor
  · intro h
    by_contra henc
    exact not_postArrives hprim hfb hlaw hs hr aad hsize hlen henc h
  · intro henc
    exact postArrives_of_encryptable hprim hfb hlaw hs hr aad hsize hlen henc

/-! ## Two sessions -/

/-- The message format preserves the fields. -/
theorem exists_flatBuffers : ∃ fb : FlatBuffers, fb.Lawful := by
  obtain ⟨fb, hfb⟩ := exists_handshakeBuffers
  exact ⟨fb.toFlatBuffers, hfb.post⟩

/-- The bytes of the key and the nonce added to the data, over and over. -/
def mask (key nonce data : Bytes) : Bytes :=
  data.mapIdx fun i b => b ^^^ (key ++ nonce).getD (i % (key ++ nonce).length) 0

theorem mask_length (key nonce data : Bytes) : (mask key nonce data).length = data.length :=
  List.length_mapIdx

theorem mask_mask (key nonce data : Bytes) : mask key nonce (mask key nonce data) = data := by
  refine List.ext_getElem ((mask_length ..).trans (mask_length ..)) fun i _ _ => ?_
  simp [mask]

/-- A checksum in the place of a tag. -/
def checksum (key nonce pt aad : Bytes) : Bytes := List.replicate 16 (key ++ nonce ++ pt ++ aad).sum

/-- Masked data with its checksum. -/
def toyAEAD (key : Bytes) (n : Nat) (failed : String) : AEAD :=
  { nonceSize := n
    sealBytes := fun nonce pt aad => mask key nonce pt ++ checksum key nonce pt aad
    openBytes := fun nonce ct aad =>
      let pt := mask key nonce (ct.take (ct.length - 16))
      if ct.drop (ct.length - 16) = checksum key nonce pt aad then .ok pt else .error failed }

theorem toyAEAD_lawful (key : Bytes) (n limit : Nat) (failed : String) :
    (toyAEAD key n failed).Lawful n limit where
  nonceSize := rfl
  seal_length := fun nonce pt aad => by
    show (mask key nonce pt ++ checksum key nonce pt aad).length = _
    rw [List.length_append, mask_length, checksum, List.length_replicate]
  open_seal := fun nonce pt aad _ _ => by
    have hlen : (mask key nonce pt ++ checksum key nonce pt aad).length - 16
        = (mask key nonce pt).length := by
      rw [List.length_append, checksum, List.length_replicate, Nat.add_sub_cancel]
    simp only [toyAEAD, hlen, List.take_left, List.drop_left, mask_mask, if_true]

/-- Ciphers that satisfy the assumptions. -/
def toyPrimitives : Primitives :=
  { aesBlock := fun key => { encrypt := mask key [], decrypt := mask key [] }
    aesGCM := fun key => toyAEAD key 12 "cipher: message authentication failed"
    chacha20Poly1305 := fun key => toyAEAD key 12 "chacha20poly1305: message authentication failed"
    xchacha20Poly1305 := fun key => toyAEAD key 24 "chacha20poly1305: message authentication failed" }

theorem toyPrimitives_lawful : toyPrimitives.Lawful where
  aesBlock := fun key _ =>
    ⟨fun b h => (mask_length key [] b).trans h, fun b _ => mask_mask key [] b⟩
  aesGCM := fun key _ => toyAEAD_lawful key 12 gcmMax _
  chacha20Poly1305 := fun key _ => toyAEAD_lawful key 12 chachaMax _
  xchacha20Poly1305 := fun key _ => toyAEAD_lawful key 24 chachaMax _

/-- Libraries around them: every key is zero, and nothing gets shorter. -/
def toyLibraries : Libraries :=
  { prim := toyPrimitives
    keys :=
      { newPublicKey := fun _ _ => .ok (), ecdh := fun _ _ _ => .ok []
        hkdfKey := fun _ n => .ok (List.replicate n 0) }
    comp :=
      { maxAlloc := 2 ^ 48, zstdEncodeAll := id, zstdDecodeAll := .ok, lz4CompressBlock := .ok
        lz4UncompressBlock := fun data _ => .ok data, snappyEncode := id, snappyDecode := .ok
        zlibWrite := .ok, zlibNewReader := fun data => .ok fun n => .ok (data.take n) } }

theorem toyLibraries_keys_lawful : toyLibraries.keys.Lawful := by
  intro secret n material h
  cases h
  exact List.length_replicate

/-- AES-128-GCM with the key of these libraries. -/
def gcmSuite : CipherSuite :=
  .aesGCM (toyPrimitives.aesGCM (List.replicate 16 0)) ⟨16, 12, 1, 16, true⟩

/-- Data it has encrypted. -/
def gcmSealed (iv data : Bytes) : Bytes :=
  (toyPrimitives.aesGCM (List.replicate 16 0)).sealBytes iv data []

/-- A session that uses no key exchange, before its first handshake. -/
def plainSession : ClientSession :=
  newGatewaySession
    { accessTokens := [], keyExchange := .none, supportedAlgorithms := [], supportedCompression := [] } 0

/-- A response that selects an algorithm and a compression, with a token. -/
def plainResponse (algorithms : List CryptoAlgorithm) (compression : List CompressionAlgorithm)
    (init : Option CryptoInfo) (token : Bytes) : HandshakeInfo :=
  { sessionID := 1, step := .keyExchangeRsp, keyExchange := .none, kdfTypes := [.hkdfSha256]
    algorithms := algorithms, publicKey := [], accessData := [], initializeCrypto := init
    compressionAlgorithms := compression, maxPostMessageSize := 0, sessionToken := token
    handshakeSequence := 1 }

/-- A session with AES-128-CBC and no compression. -/
def cbcSession : GatewaySession :=
  { compressionThreshold := 0, selectedAlgorithm := .aes128Cbc, selectedCompression := .none
    cipher := some (.aesCBC (toyPrimitives.aesBlock (List.replicate 16 1)) ⟨16, 16, 16, 0, false⟩)
    sendIV := List.replicate 16 0, recvIV := List.replicate 16 0, ivRollPolicy := .chainCiphertext
    compressor := none, maxPostMessageSize := 0, handshakeDone := true, sequence := 0 }

theorem cbcSession_negotiated :
    Negotiated toyPrimitives .aes128Cbc (List.replicate 16 1) .none none cbcSession where
  done := rfl
  algorithm := rfl
  compression := rfl
  compressor := rfl
  real := fun h => absurd rfl h
  cipher := fun _ => ⟨_, rfl, rfl, fun _ => rfl⟩

/-- A payload of a block and a part of one goes across. -/
theorem cbc_twoBlocks_arrive : ∃ fb : FlatBuffers, fb.Lawful ∧
    PostArrives fb (.ok []) cbcSession cbcSession ((List.range 20).map UInt8.ofNat) := by
  obtain ⟨fb, hfb⟩ := exists_flatBuffers
  refine ⟨fb, hfb, ?_⟩
  rw [post_roundTrip_iff toyPrimitives toyPrimitives_lawful fb hfb .aes128Cbc
    (List.replicate 16 1) .none none (by simp) cbcSession cbcSession cbcSession_negotiated
    cbcSession_negotiated [] _ (Or.inl rfl) (by decide)]
  exact ⟨fun _ => by decide, fun h => absurd h (by decide), nofun⟩

/-- The empty payload does not: it is encrypted to an empty ciphertext, which the receiver
refuses. -/
theorem cbc_empty_lost :
    ∃ fb : FlatBuffers, fb.Lawful ∧
      Negotiated toyPrimitives .aes128Cbc (List.replicate 16 1) .none none cbcSession ∧
      ¬ PostArrives fb (.ok []) cbcSession cbcSession [] := by
  obtain ⟨fb, hfb⟩ := exists_flatBuffers
  refine ⟨fb, hfb, cbcSession_negotiated, ?_⟩
  refine not_postArrives toyPrimitives_lawful hfb (by simp) cbcSession_negotiated
    cbcSession_negotiated [] (Or.inl rfl) (by decide) ?_
  intro h
  exact h.cbc rfl rfl

end Robot.Gateway
