import Robot.Gateway.NoPanic

/-!
# The layers a post names

A post says which algorithm its data is encrypted with and how it is compressed, and the
application should get data from which exactly these layers have been taken off, or an error.
`decodePostPayload` takes a layer off if the post names one *and* the session has a cipher or
a compressor, whichever that is: it never compares the name. So a layer stays on if the
session has nothing to take it off with, and another algorithm is used if the session has
another one.

`AnsweredAsNamed` is what the caller relies on: such data, or an error. It holds exactly if the
session has what the post names (`HasNamedLayers`), or returns an error on the bytes with what it
has (`RefusesLayers`), and nothing panics on the way.
-/

namespace Robot.Gateway

open Robot.Lib

/-! ## What an algorithm is -/

/-- The AES algorithm with keys of this size. -/
def aesOfKeySize (keySize : Nat) (aes128 aes192 aes256 : CryptoAlgorithm) : Option CryptoAlgorithm :=
  if keySize = 16 then some aes128
  else if keySize = 24 then some aes192
  else if keySize = 32 then some aes256
  else none

/-- The algorithm a suite runs. -/
def CipherSuite.algorithm : CipherSuite → Option CryptoAlgorithm
  | .aesGCM _ params => aesOfKeySize params.keySize .aes128Gcm .aes192Gcm .aes256Gcm
  | .aesCBC _ params => aesOfKeySize params.keySize .aes128Cbc .aes192Cbc .aes256Cbc
  | .chacha20Poly1305 _ _ => some .chacha20Poly1305Ietf
  | .xchacha20Poly1305 _ _ => some .xchacha20Poly1305Ietf
  | .xxtea _ _ => some .xxtea

/-! ## Taking a layer off -/

section

variable {ν τ : Type}

/-- A layer is taken off if the message names one and there is a tool. -/
def takeOff (named : Option ν) (tool : Option τ) (apply : ν → τ → Except Failure Bytes) (data : Bytes) :
    Except Failure Bytes :=
  match named, tool with
  | some n, some t => apply n t
  | _, _ => .ok data

/-- There is a tool that is good for what the message names. -/
def HasNamed (named : Option ν) (tool : Option τ) (good : ν → τ → Prop) : Prop :=
  ∀ n ∈ named, ∃ t ∈ tool, good n t

/-- A good tool has taken off the layer that the message names; without one the data is the same. -/
def TakenAsNamed (named : Option ν) (tool : Option τ) (good : ν → τ → Prop)
    (apply : ν → τ → Except Failure Bytes) (data out : Bytes) : Prop :=
  (named = none → out = data) ∧ ∀ n ∈ named, ∃ t ∈ tool, good n t ∧ apply n t = .ok out

variable {named : Option ν} {tool : Option τ} {good : ν → τ → Prop}
  {apply : ν → τ → Except Failure Bytes} {data out : Bytes}

/-- A good tool takes off what is named. -/
theorem HasNamed.takenAsNamed (h : HasNamed named tool good)
    (hout : takeOff named tool apply data = .ok out) : TakenAsNamed named tool good apply data out := by
  refine ⟨fun hnone => ?_, fun n hn => ?_⟩
  · subst hnone
    exact (Except.ok.inj hout).symm
  · obtain ⟨t, ht, hgood⟩ := h n hn
    cases Option.mem_def.mp hn
    cases Option.mem_def.mp ht
    exact ⟨t, rfl, hgood, hout⟩

theorem TakenAsNamed.hasNamed (h : TakenAsNamed named tool good apply data out) :
    HasNamed named tool good := by
  intro n hn
  obtain ⟨t, ht, hgood, -⟩ := h.2 n hn
  exact ⟨t, ht, hgood⟩

end

/-! ## The layers of a post -/

/-- The encryption a post names. -/
def PostInfo.encryption (post : PostInfo) : Option CryptoInfo :=
  post.crypto.filter fun crypto => crypto.algorithm ≠ .none

/-- The compression a post names. -/
def PostInfo.packing (post : PostInfo) : Option CompressionInfo :=
  post.compression.filter fun compression => compression.type ≠ .none

/-- A suite that runs the named algorithm. -/
def GoodCipher (crypto : CryptoInfo) (suite : CipherSuite) : Prop :=
  suite.algorithm = some crypto.algorithm

/-- A compressor of the named type. -/
def GoodCompressor (lib : CompressionLib) (compression : CompressionInfo) (c : Compressor) : Prop :=
  newCompressor lib compression.type = .ok c

/-- The decryption of a post, under its own IV or the receive IV. -/
def decryptWith (s : GatewaySession) (post : PostInfo) (crypto : CryptoInfo) (suite : CipherSuite) :
    Except Failure Bytes :=
  suite.decrypt post.data (if crypto.iv.length = 0 then s.recvIV else crypto.iv) crypto.aad

/-- The decompression of a post that is decrypted to `plain`. -/
def decompressWith (post : PostInfo) (plain : Bytes) (compression : CompressionInfo) (c : Compressor) :
    Except Failure Bytes :=
  c.decompress (trimTo plain compression.originalSize) post.length.toInt64.toInt

/-- The data is that of the post with exactly the named layers taken off, cut to its length. -/
def DecodedAsNamed (lib : CompressionLib) (s : GatewaySession) (post : PostInfo) (data : Bytes) : Prop :=
  ∃ plain out,
    TakenAsNamed post.encryption s.cipher GoodCipher (decryptWith s post) post.data plain ∧
    TakenAsNamed post.packing s.compressor (GoodCompressor lib) (decompressWith post plain) plain out ∧
    data = trimTo out post.length

/-- The session's cipher runs the algorithm the post names, and its compressor is of the type the
post names. -/
structure HasNamedLayers (lib : CompressionLib) (s : GatewaySession) (post : PostInfo) : Prop where
  cipher : HasNamed post.encryption s.cipher GoodCipher
  compressor : HasNamed post.packing s.compressor (GoodCompressor lib)

/-- What the session takes off with the cipher and the compressor it has. -/
def takeOffLayers (s : GatewaySession) (post : PostInfo) : Except Failure Bytes := do
  let plain ← takeOff post.encryption s.cipher (decryptWith s post) post.data
  takeOff post.packing s.compressor (decompressWith post plain) plain

/-- The cipher or the compressor that the session has returns an error on the bytes. -/
def RefusesLayers (s : GatewaySession) (post : PostInfo) : Prop :=
  ∃ text, takeOffLayers s post = .error (.err text)

variable (s : GatewaySession)

/-- `decryptData` takes off the encryption. -/
theorem decryptData_takeOff (post : PostInfo) : (decryptData s post).1
    = (takeOff post.encryption s.cipher (decryptWith s post) post.data).mapError
        (Failure.wrap "decrypt post") := by
  unfold decryptData PostInfo.encryption takeOff decryptWith
  cases post.crypto with
  | none => rfl
  | some crypto =>
    by_cases hnone : crypto.algorithm = .none
    · cases s.cipher with
      | none => simp [Option.filter, hnone, Except.mapError]
      | some suite => simp [Option.filter, hnone, Except.mapError]
    · cases s.cipher with
      | none => simp [Option.filter, hnone, Except.mapError]
      | some suite =>
        simp only [Option.filter, hnone, ne_eq, not_false_eq_true, decide_true, if_true, if_false]
        split
        next f hf => rw [hf, Except.mapError]
        next out hout => rw [hout, Except.mapError]

/-- `decompressData` takes off the compression. -/
theorem decompressData_takeOff (post : PostInfo) (plain : Bytes) : decompressData s post plain
    = (takeOff post.packing s.compressor (decompressWith post plain) plain).mapError
        (Failure.wrap "decompress post") := by
  unfold decompressData PostInfo.packing takeOff decompressWith
  cases post.compression with
  | none => rfl
  | some compression =>
    by_cases hnone : compression.type = .none
    · cases s.compressor with
      | none => simp [Option.filter, hnone, Except.mapError]
      | some c => simp [Option.filter, hnone, Except.mapError]
    · cases s.compressor with
      | none => simp [Option.filter, hnone, Except.mapError]
      | some c =>
        simp only [Option.filter, hnone, ne_eq, not_false_eq_true, decide_true, if_true, if_false]
        split
        next f hf => rw [hf, Except.mapError]
        next out hout => rw [hout, Except.mapError]

/-- `decodePostPayload` takes off one layer after the other, and cuts to the length. -/
theorem decodePostPayload_takeOff (post : PostInfo) : ∃ text, (decodePostPayload s post).1
    = ((takeOffLayers s post).map fun out => { post with data := trimTo out post.length }).mapError
        (Failure.wrap text) := by
  obtain ⟨iv, hiv⟩ := decryptData_session s post
  have hplain := decryptData_takeOff s post
  unfold decodePostPayload takeOffLayers
  cases hdec : decryptData s post with
  | mk decrypted s' =>
    rw [hdec] at hiv hplain
    subst hiv
    cases hoff : takeOff post.encryption s.cipher (decryptWith s post) post.data with
    | error f =>
      rw [hoff] at hplain
      cases hplain
      exact ⟨"decrypt post", rfl⟩
    | ok plain =>
      rw [hoff] at hplain
      cases hplain
      refine ⟨"decompress post", ?_⟩
      have hout : decompressData { s with recvIV := iv } post plain = decompressData s post plain := rfl
      simp only [hout, decompressData_takeOff, bind, Except.bind]
      cases takeOff post.packing s.compressor (decompressWith post plain) plain with
      | error f => rfl
      | ok out => rfl

/-- **One success** has the named layers taken off exactly if the session has them. -/
theorem decodedAsNamed_iff (lib : CompressionLib) {post : PostInfo} {out : Bytes}
    (h : takeOffLayers s post = .ok out) :
    DecodedAsNamed lib s post (trimTo out post.length) ↔ HasNamedLayers lib s post := by
  constructor
  · intro hnamed
    obtain ⟨plain, out', hplain, hout, -⟩ := hnamed
    exact ⟨hplain.hasNamed, hout.hasNamed⟩
  · intro hnamed
    unfold takeOffLayers at h
    cases hplain : takeOff post.encryption s.cipher (decryptWith s post) post.data with
    | error f =>
      rw [hplain] at h
      cases h
    | ok plain =>
      rw [hplain] at h
      exact ⟨plain, out, hnamed.cipher.takenAsNamed hplain, hnamed.compressor.takenAsNamed h, rfl⟩

/-! ## Messages -/

/-- Three bytes encrypted with AES-128-GCM, under the name of this algorithm. -/
def encryptedPost (algorithm : CryptoAlgorithm) : PostInfo :=
  { crypto := some { algorithm := algorithm, iv := List.replicate 12 6, aad := [] }, compression := none
    length := 3, data := gcmSealed (List.replicate 12 6) [1, 2, 3] }

/-- Three bytes under the name of this compression. -/
def compressedPost (type : CompressionAlgorithm) : PostInfo :=
  { crypto := none, compression := some { type := type, originalSize := 3 }, length := 3, data := [1, 2, 3] }

/-- What the caller relies on: an error, or data with exactly the named layers taken off. -/
def AnsweredAsNamed (lib : CompressionLib) (s : GatewaySession) (post : PostInfo) :
    Except Failure ParsedMessage → Prop
  | .ok msg => ∃ result, msg.post = some result ∧ DecodedAsNamed lib s post result.data
  | .error (.err _) => True
  | .error (.panicked _) => False

/-- **Undecoded bytes are never delivered** exactly if the session has the algorithm and the
compression that the post names, or returns an error on the bytes with what it has, and neither
panics. -/
theorem decodeMessage_named_iff (lib : CompressionLib) (fb : FlatBuffers) (s : GatewaySession)
    (frameData : Bytes) (msg : ParsedMessage) (post : PostInfo)
    (hmsg : fb.parseClientMessage frameData = .ok msg) (hpost : msg.post = some post) :
    AnsweredAsNamed lib s post (decodeMessage fb s frameData).1
      ↔ (HasNamedLayers lib s post ∨ RefusesLayers s post) ∧ ¬ Panics (takeOffLayers s post) := by
  obtain ⟨text, hdecode⟩ := decodePostPayload_takeOff s post
  have hresult : (decodeMessage fb s frameData).1
      = (decodePostPayload s post).1.map fun result => { msg with post := some result } := by
    unfold decodeMessage
    rw [hmsg]
    simp only [hpost]
  rw [hresult, hdecode]
  unfold RefusesLayers
  cases hoff : takeOffLayers s post with
  | error f =>
    cases f with
    | err e => exact ⟨fun _ => ⟨Or.inr ⟨e, rfl⟩, panics_err e⟩, fun _ => trivial⟩
    | panicked e => exact ⟨False.elim, fun h => h.2 (panics_panicked e)⟩
  | ok out =>
    rw [← decodedAsNamed_iff s lib hoff]
    constructor
    · intro h
      obtain ⟨result, hresult, hnamed⟩ := h
      cases hresult
      exact ⟨Or.inl hnamed, panics_ok out⟩
    · intro h
      refine ⟨_, rfl, h.1.resolve_right fun herr => ?_⟩
      obtain ⟨e, he⟩ := herr
      cases he

/-- A session with AES-128-GCM decrypts it whatever the name. -/
theorem takeOffLayers_encryptedPost {s : GatewaySession} (hs : s.cipher = some gcmSuite)
    {algorithm : CryptoAlgorithm} (h : algorithm ≠ .none) :
    takeOffLayers s (encryptedPost algorithm) = .ok [1, 2, 3] := by
  have hnamed : (encryptedPost algorithm).encryption = (encryptedPost algorithm).crypto :=
    if_pos (decide_eq_true h)
  have hopen : gcmSuite.decrypt (gcmSealed (List.replicate 12 6) [1, 2, 3]) (List.replicate 12 6) []
      = .ok [1, 2, 3] := rfl
  have hplain : takeOff (encryptedPost algorithm).encryption s.cipher
      (decryptWith s (encryptedPost algorithm)) (encryptedPost algorithm).data = .ok [1, 2, 3] := by
    rw [hnamed, hs]
    simp only [encryptedPost, takeOff, decryptWith]
    rw [if_neg (by decide)]
    exact hopen
  unfold takeOffLayers
  rw [hplain]
  rfl

/-- The session decodes a post in AES-128-GCM as it is named. -/
theorem decodeMessage_named_gcm : ∃ fb : HandshakeBuffers,
    AnsweredAsNamed toyLibraries.comp (sessionAfterZstd fb).toGatewaySession (encryptedPost .aes128Gcm)
      (decodeMessage fb.toFlatBuffers (sessionAfterZstd fb).toGatewaySession
        (fb.buildPostMessage 2 (encryptedPost .aes128Gcm))).1 := by
  obtain ⟨fb, hfb⟩ := exists_handshakeBuffers
  refine ⟨fb, (decodeMessage_named_iff toyLibraries.comp fb.toFlatBuffers _ _ _
    (encryptedPost .aes128Gcm) (hfb.post 2 _) rfl).mpr ⟨Or.inl ⟨?_, ?_⟩, ?_⟩⟩
  · intro crypto hcrypto
    cases hcrypto
    exact ⟨gcmSuite, sessionAfterZstd_cipher fb, rfl⟩
  · intro compression hcompression
    cases hcompression
  · rw [takeOffLayers_encryptedPost (sessionAfterZstd_cipher fb) (by decide)]
    exact panics_ok _

/-- Three posts that are decoded without the layer they name: a fresh session returns encrypted
and compressed bytes as they are, and one with AES-128-GCM decrypts a post in
ChaCha20-Poly1305. -/
theorem undecoded_posts_delivered : ∃ fb : HandshakeBuffers,
    (∃ msg result, (decodeMessage fb.toFlatBuffers plainSession.toGatewaySession
        (fb.buildPostMessage 1 (encryptedPost .aes128Gcm))).1 = .ok msg ∧
      msg.post = some result ∧ result.data = (encryptedPost .aes128Gcm).data.take 3) ∧
    (∃ msg, (decodeMessage fb.toFlatBuffers plainSession.toGatewaySession
        (fb.buildPostMessage 1 (compressedPost .zstd))).1 = .ok msg ∧
      msg.post = some (compressedPost .zstd)) ∧
    (∃ msg, (decodeMessage fb.toFlatBuffers (sessionAfterZstd fb).toGatewaySession
        (fb.buildPostMessage 2 (encryptedPost .chacha20Poly1305Ietf))).1 = .ok msg ∧
      ∀ data, ¬ DecodedAsNamed toyLibraries.comp (sessionAfterZstd fb).toGatewaySession
        (encryptedPost .chacha20Poly1305Ietf) data) := by
  obtain ⟨fb, hfb⟩ := exists_handshakeBuffers
  unfold decodeMessage
  refine ⟨fb, ?_, ?_, ?_⟩
  · rw [hfb.post]
    exact ⟨_, _, rfl, rfl, rfl⟩
  · rw [hfb.post]
    exact ⟨_, rfl, rfl⟩
  · obtain ⟨text, hdecode⟩ := decodePostPayload_takeOff (sessionAfterZstd fb).toGatewaySession
      (encryptedPost .chacha20Poly1305Ietf)
    rw [takeOffLayers_encryptedPost (sessionAfterZstd_cipher fb) (by decide)] at hdecode
    rw [hfb.post]
    simp only [hdecode]
    refine ⟨_, rfl, fun data h => ?_⟩
    obtain ⟨plain, out, hplain, -⟩ := h
    obtain ⟨suite, hsuite, hgood⟩ := hplain.hasNamed _ rfl
    cases (sessionAfterZstd_cipher fb).symm.trans hsuite
    cases hgood

end Robot.Gateway
