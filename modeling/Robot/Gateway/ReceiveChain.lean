import Robot.Gateway.PostRoundTrip
import Robot.Lib.Machine

/-!
# The receive IV and the server's chain

The server encrypts the session token under an IV it names in its response, and from then on
every message under the IV that `RollIV` made of the last one. A post may leave its IV out, or
name a new one and restart the chain from there. The client has to follow with `recvIV`: this
module runs both sides together.

A `Link` is the client's session and the server's IV. Events are genuine posts, encrypted by
the server, and posts from anywhere that do not decrypt: `Decrypt` returns an error. (A post on which
it panics, with an IV of another length, ends the client and so the run.) What carries the induction is
`InStep`: both ends hold the same cipher, policy and IV. One event keeps it
(`InStep.deliver`), and a genuine post is decoded to its payload on the way.

The handshake establishes it (`ServerSends.inStep`) with one exception. An algorithm without
IVs (XXTEA) sets no receive IV, so one that an earlier handshake left behind stays. The cipher
does not look at it.
-/

namespace Robot.Gateway

open Robot.Lib List

/-! ## The server -/

/-- The server's end: the algorithm and the cipher. -/
structure Server where
  algo : CryptoAlgorithm
  suite : CipherSuite

/-- A post of the server. `packed` is what it encrypts: the payload, or the compressed payload.
`reset` is a new IV to start from. -/
structure ServerPost where
  payload : Bytes
  packed : Bytes
  compression : Option CompressionInfo
  reset : Option Bytes
  aad : Bytes

/-- The IV a post is encrypted under. -/
def ServerPost.iv (p : ServerPost) (chain : Bytes) : Bytes := p.reset.getD chain

/-- The message with the encrypted data. -/
def ServerPost.info (p : ServerPost) (algo : CryptoAlgorithm) (encrypted : Bytes) : PostInfo :=
  { crypto := some { algorithm := algo, iv := p.reset.getD [], aad := p.aad }
    compression := p.compression, length := UInt64.ofNat p.payload.length, data := encrypted }

/-- A post with a payload, which the client's compressor can unpack. The lengths are lengths of
slices, and a new IV has the size of the algorithm's IVs. -/
structure ServerPost.Valid (p : ServerPost) (ivSize : Nat) (compressor : Option Compressor) : Prop where
  nonempty : p.payload ≠ []
  payloadLen : p.payload.length < 2 ^ 63
  packedLen : p.packed.length < 2 ^ 63
  reset : ∀ iv ∈ p.reset, iv.length = ivSize
  plain : p.compression = none → p.packed = p.payload
  packs : ∀ info ∈ p.compression, info.type ≠ .none ∧ p.packed ≠ [] ∧
    info.originalSize = UInt64.ofNat p.packed.length ∧
    ∃ c, compressor = some c ∧ c.decompress p.packed p.payload.length = .ok p.payload

/-- What reaches the client: a post of the server, or any post that is refused as it does not
decrypt. -/
inductive ServerEvent where
  | post (seq : UInt64) (p : ServerPost)
  | noise (seq : UInt64) (info : PostInfo)

def ServerEvent.Valid (ivSize : Nat) (compressor : Option Compressor) : ServerEvent → Prop
  | .post _ p => p.Valid ivSize compressor
  | .noise _ _ => True

/-- The client and the server's current IV. -/
structure Link where
  client : GatewaySession
  serverIV : Bytes

/-- One event. The server rolls its IV after a message it encrypts. -/
def deliver (fb : FlatBuffers) (server : Server) (l : Link) : ServerEvent → Option Link
  | .post seq p =>
    match server.suite.encrypt p.packed (p.iv l.serverIV) p.aad with
    | .error _ => none
    | .ok encrypted =>
      some
        { client := (decodeMessage fb l.client (fb.buildPostMessage seq (p.info server.algo encrypted))).2
          serverIV := rollIV (getIVRollPolicy server.algo) (p.iv l.serverIV) encrypted }
  | .noise seq info =>
    match (decryptData l.client info).1 with
    | .error (.err _) =>
      some { l with client := (decodeMessage fb l.client (fb.buildPostMessage seq info)).2 }
    -- nobody recovers from a panic: there is no client any more
    | .error (.panicked _) => none
    | .ok _ => none

/-- What the client makes of an event: a genuine post is decoded to its payload, and a post that
does not decrypt is an error and leaves the receive IV as it is. -/
def Received (fb : FlatBuffers) (server : Server) (l : Link) : ServerEvent → Prop
  | .post seq p => ∀ encrypted, server.suite.encrypt p.packed (p.iv l.serverIV) p.aad = .ok encrypted →
    ∃ msg post, (decodeMessage fb l.client (fb.buildPostMessage seq (p.info server.algo encrypted))).1
      = .ok msg ∧ msg.post = some post ∧ post.data = p.payload
  | .noise seq info => ∀ text, (decryptData l.client info).1 = .error (.err text) →
    (decodeMessage fb l.client (fb.buildPostMessage seq info)).1 = .error (.err text) ∧
    (decodeMessage fb l.client (fb.buildPostMessage seq info)).2.recvIV = l.client.recvIV

/-- In every run from here the client's receive IV is the server's IV in every state, and every
event is received as it should be. -/
def StaysInStep (fb : FlatBuffers) (server : Server) (l : Link) : Prop :=
  ∀ events : List ServerEvent,
    (∀ e ∈ events, e.Valid server.suite.params.ivSize l.client.compressor) →
    Throughout (deliver fb server) (fun l => l.client.recvIV = l.serverIV) l events ∧
    Along (deliver fb server) (Received fb server) l events

/-! ## What a cipher accepts -/

variable {algo : CryptoAlgorithm} {suite : CipherSuite} {aad ct data : Bytes}

/-- What an AEAD sealed was not too large. -/
theorem sealWith_ok {a : AEAD} {limit : Nat} {t t' : String} {iv : Bytes}
    (h : a.sealWith limit t t' data iv aad = .ok ct) : data.length ≤ limit ∧ iv.length = a.nonceSize := by
  unfold AEAD.sealWith at h
  split at h
  · cases h
  next hiv =>
    split at h
    · cases h
    next hsize => exact ⟨Nat.not_lt.mp hsize, not_not.mp hiv⟩

/-- Data that was encrypted can be decrypted, unless it was empty: XXTEA panics on the word
counts it cannot handle. -/
theorem SuiteOf.encryptable {prim : Primitives} {key : Bytes}
     (h : SuiteOf prim key algo suite) {iv : Bytes}
    (hne : data ≠ []) (henc : suite.encrypt data iv aad = .ok ct) : algo.Encryptable data := by
  cases h with
  | aesGCM hkey hsize hmax => exact (hmax data).mpr (sealWith_ok henc).1
  | chacha20Poly1305 hkey hsize hmax => exact (hmax data).mpr (sealWith_ok henc).1
  | xchacha20Poly1305 hkey hsize hmax => exact (hmax data).mpr (sealWith_ok henc).1
  | aesCBC hkey hsize hcbc => exact (hcbc data).mpr hne
  | xxtea words hsize hblock hxxtea =>
    subst hxxtea
    refine ⟨fun hcbc => absurd hcbc (by decide), fun _ hzero => ?_, nofun⟩
    obtain ⟨-, hdvd, hlen⟩ := xxteaPad_spec data
    have hwords := wordsLE_length (xxteaPad data 8)
    unfold CipherSuite.encrypt xxteaSuiteEncrypt at henc
    simp only [hblock] at henc
    rcases xxteaBlock_inverse words (v := wordsLE (xxteaPad data 8)) (by omega) with
      ⟨-, hnone⟩ | ⟨hpos, -⟩
    · rw [hnone] at henc
      cases henc
    · rw [hwords] at hpos
      exact hpos hzero

/-- A ciphertext that is not empty comes from data that can be decrypted: it is AES-CBC that
encrypts nothing to nothing. -/
theorem SuiteOf.encryptable_of_ciphertext {prim : Primitives} (hprim : prim.Lawful) {key : Bytes}
      (h : SuiteOf prim key algo suite)
    {iv : Bytes} (hiv : iv.length = suite.params.ivSize)
    (henc : suite.encrypt data iv aad = .ok ct) (hct : ct ≠ []) : algo.Encryptable data := by
  by_cases hnil : data = []
  · subst hnil
    cases h with
    | aesGCM hkey hsize hmax | chacha20Poly1305 hkey hsize hmax | xchacha20Poly1305 hkey hsize hmax =>
      exact (hmax []).mpr (Nat.zero_le _)
    | aesCBC hkey hsize hcbc =>
      obtain ⟨ct', hct', hlen, -⟩ := cbcSuiteEncrypt_spec (hprim.aesBlock key hkey) [] (hiv.trans hsize)
      have hsame : cbcSuiteEncrypt (prim.aesBlock key) [] iv = .ok ct := henc
      rw [hct'] at hsame
      cases hsame
      exact absurd (length_eq_zero_iff.mp hlen) hct
    | xxtea words hsize hblock hxxtea =>
      subst hxxtea
      exact ⟨fun hcbc => absurd hcbc (by decide), fun _ => by decide, nofun⟩
  · exact h.encryptable hnil henc

/-- **What a suite encrypted it decrypts**, under the same IV. -/
theorem SuiteOf.decrypts {prim : Primitives} (hprim : prim.Lawful) {key : Bytes}
      (h : SuiteOf prim key algo suite)
    {iv : Bytes} (hiv : iv.length = suite.params.ivSize)
    (henc : suite.encrypt data iv aad = .ok ct) (hok : algo.Encryptable data) :
    ∃ pt, suite.decrypt ct iv aad = .ok pt ∧ Padded data pt := by
  have hsame : suite.params.ivSize ≠ 0 → iv.length = suite.params.ivSize ∧ iv = iv :=
    fun _ => ⟨hiv, rfl⟩
  rcases h.trips hprim data aad hsame with ⟨-, ct', pt, hct, hpt, hpad⟩ | ⟨hno, -⟩
  · rw [henc] at hct
    cases hct
    exact ⟨pt, hpt, hpad⟩
  · exact absurd hok hno

/-! ## Deliveries -/

section

variable {prim : Primitives} {key : Bytes} {server : Server} {compressor : Option Compressor}
  {fb : FlatBuffers} {l l' : Link}

/-- Both ends hold the same cipher and the same IV, of the right size. -/
structure InStep (server : Server) (compressor : Option Compressor) (l : Link) : Prop where
  cipher : l.client.cipher = some server.suite
  policy : l.client.ivRollPolicy = getIVRollPolicy server.algo
  compressor : l.client.compressor = compressor
  iv : l.client.recvIV = l.serverIV
  size : l.serverIV.length = server.suite.params.ivSize

variable {p : ServerPost} {n : Nat}

theorem ServerPost.Valid.packed_ne (hp : p.Valid n compressor) :
    p.packed ≠ [] := by
  cases hc : p.compression with
  | none =>
    rw [hp.plain hc]
    exact hp.nonempty
  | some info => exact (hp.packs info hc).2.1

/-- The IV of a post has the right size. -/
theorem ServerPost.Valid.iv_length (hp : p.Valid n compressor)
    {chain : Bytes} (hchain : chain.length = n) : (p.iv chain).length = n := by
  unfold ServerPost.iv
  cases hr : p.reset with
  | none => exact hchain
  | some iv => exact hp.reset iv hr

/-- The client takes the IV that the server used: the one in the post, or its own one. An IV
of no bytes is sent like none. -/
theorem ServerPost.Valid.client_iv (hp : p.Valid n compressor)
    {chain : Bytes} (hchain : chain.length = n) :
    (if (p.reset.getD []).length = 0 then chain else p.reset.getD []) = p.iv chain := by
  unfold ServerPost.iv
  cases hr : p.reset with
  | none => rfl
  | some iv =>
    have hlen := hp.reset iv hr
    show (if iv.length = 0 then chain else iv) = iv
    split
    next h0 =>
      rw [length_eq_zero_iff.mp h0]
      exact length_eq_zero_iff.mp (by omega)
    · rfl

/-- What was decrypted is unpacked to the payload. -/
theorem ServerPost.Valid.decompressData (hp : p.Valid n compressor)
    {s : GatewaySession} (hs : s.compressor = compressor) (algo : CryptoAlgorithm)
    (encrypted : Bytes) {pt : Bytes} (hpad : Padded p.packed pt) :
    ∃ out, Gateway.decompressData s (p.info algo encrypted) pt = .ok out ∧
      trimTo out (UInt64.ofNat p.payload.length) = p.payload := by
  unfold Gateway.decompressData ServerPost.info
  cases hc : p.compression with
  | none =>
    rw [hp.plain hc] at hpad
    exact ⟨pt, rfl, trimTo_padded hpad hp.payloadLen⟩
  | some info =>
    obtain ⟨htype, -, hsize, c, hcomp, hunpack⟩ := hp.packs info hc
    refine ⟨p.payload, ?_, trimTo_padded (padded_refl _) hp.payloadLen⟩
    rw [hs, hcomp]
    simp only
    rw [if_neg htype, hsize, trimTo_padded hpad hp.packedLen, length_toInt hp.payloadLen, hunpack]

/-- A post that does not decrypt is an error, and the session stays as it was. -/
theorem decodeMessage_noise (hfb : fb.Lawful) {s : GatewaySession} {info : PostInfo} {f : Failure}
    (h : (decryptData s info).1 = .error f) (seq : UInt64) :
    decodeMessage fb s (fb.buildPostMessage seq info) = (.error f, s) := by
  have hdec := decryptData_error h
  unfold decodeMessage decodePostPayload
  rw [hfb]
  simp only [hdec]
  rfl

variable (hl : InStep server compressor l) (hprim : prim.Lawful)
  (hsuite : SuiteOf prim key server.algo server.suite) (halgo : server.algo ≠ .none)

include hl hprim hsuite halgo

/-- A genuine post decrypts to what the server encrypted, and the client rolls to the same IV. -/
theorem InStep.decryptData (hp : p.Valid server.suite.params.ivSize compressor) {encrypted : Bytes}
    (henc : server.suite.encrypt p.packed (p.iv l.serverIV) p.aad = .ok encrypted) :
    ∃ pt, Padded p.packed pt ∧ Gateway.decryptData l.client (p.info server.algo encrypted)
      = (.ok pt, { l.client with
          recvIV := rollIV (getIVRollPolicy server.algo) (p.iv l.serverIV) encrypted }) := by
  have hiv := hp.client_iv hl.size
  have hlast : (if (p.reset.getD []).length > 0 then p.reset.getD [] else l.serverIV)
      = p.iv l.serverIV := by
    rw [← hiv]
    by_cases h0 : (p.reset.getD []).length = 0
    · rw [if_pos h0, if_neg (by omega)]
    · rw [if_neg h0, if_pos (by omega)]
  obtain ⟨pt, hpt, hpad⟩ := hsuite.decrypts hprim (hp.iv_length hl.size) henc
    (hsuite.encryptable hp.packed_ne henc)
  refine ⟨pt, hpad, ?_⟩
  unfold Gateway.decryptData ServerPost.info
  rw [hl.cipher]
  simp only
  rw [if_neg halgo, hl.iv, hiv, hpt]
  simp only
  rw [hlast, hl.policy, ← hl.cipher]

/-- `DecodeMessage` of a genuine post: its payload, and the server's next IV. -/
theorem InStep.decodeMessage (hfb : fb.Lawful)
    (hp : p.Valid server.suite.params.ivSize compressor) {encrypted : Bytes}
    (henc : server.suite.encrypt p.packed (p.iv l.serverIV) p.aad = .ok encrypted) (seq : UInt64) :
    ∃ msg post, Gateway.decodeMessage fb l.client (fb.buildPostMessage seq (p.info server.algo encrypted))
        = (.ok msg, { l.client with
            recvIV := rollIV (getIVRollPolicy server.algo) (p.iv l.serverIV) encrypted }) ∧
      msg.post = some post ∧ post.data = p.payload := by
  obtain ⟨pt, hpad, hdec⟩ := hl.decryptData hprim hsuite halgo hp henc
  generalize hs' : ({ l.client with
    recvIV := rollIV (getIVRollPolicy server.algo) (p.iv l.serverIV) encrypted } : GatewaySession) = s'
  rw [hs'] at hdec
  have hcomp : s'.compressor = compressor := by
    rw [← hs']
    exact hl.compressor
  obtain ⟨out, hout, htrim⟩ := hp.decompressData hcomp server.algo encrypted hpad
  refine ⟨{ type := .post, sequence := seq, rest := none,
            post := some { p.info server.algo encrypted with
              data := trimTo out (UInt64.ofNat p.payload.length) } }, _, ?_, rfl, htrim⟩
  unfold Gateway.decodeMessage decodePostPayload
  rw [hfb]
  simp only [hdec, hout]
  rfl

/-- **One event keeps the two ends in step.** -/
theorem InStep.deliver (hfb : fb.Lawful) {e : ServerEvent}
    (he : e.Valid server.suite.params.ivSize compressor) (h : Gateway.deliver fb server l e = some l') :
    InStep server compressor l' := by
  cases e with
  | post seq p =>
    unfold Gateway.deliver at h
    simp only at h
    split at h
    · cases h
    next encrypted henc =>
      cases h
      obtain ⟨msg, post, hdec, -, -⟩ := hl.decodeMessage hprim hsuite halgo hfb he henc seq
      rw [hdec]
      refine ⟨hl.cipher, hl.policy, hl.compressor, rfl, ?_⟩
      rw [rollIV_length]
      exact ServerPost.Valid.iv_length he hl.size
  | noise seq info =>
    unfold Gateway.deliver at h
    simp only at h
    split at h
    next text hf =>
      cases h
      rw [decodeMessage_noise hfb hf seq]
      exact hl
    · cases h
    · cases h

/-- An event is received as it should be. -/
theorem InStep.received (hfb : fb.Lawful) {e : ServerEvent}
    (he : e.Valid server.suite.params.ivSize compressor) : Received fb server l e := by
  cases e with
  | post seq p =>
    intro encrypted henc
    obtain ⟨msg, post, hdec, hpost, hdata⟩ := hl.decodeMessage hprim hsuite halgo hfb he henc seq
    exact ⟨msg, post, by rw [hdec], hpost, hdata⟩
  | noise seq info =>
    intro text hf
    rw [decodeMessage_noise hfb hf seq]
    exact ⟨rfl, rfl⟩

/-- **Ends that are in step stay in step.** -/
theorem InStep.stays (hfb : fb.Lawful) : StaysInStep fb server l := by
  intro events hevents
  rw [hl.compressor] at hevents
  have hvalid : Along (Gateway.deliver fb server)
      (fun _ e => e.Valid server.suite.params.ivSize compressor) l events :=
    along_of_forall events l fun e he _ => hevents e he
  refine ⟨?_, ?_⟩
  · exact throughout_of_inv (fun _ hs => hs.iv)
      (fun _ _ _ hs he h => hs.deliver hprim hsuite halgo hfb he h) events hl hvalid
  · clear hvalid
    induction events generalizing l with
    | nil => trivial
    | cons e events ih =>
      have he := hevents e mem_cons_self
      refine ⟨hl.received hprim hsuite halgo hfb he, fun l' h => ?_⟩
      exact ih (hl.deliver hprim hsuite halgo hfb he h)
        fun e' he' => hevents e' (mem_cons_of_mem e he')

end

/-! ## The handshake -/

/-- The server answers with a token encrypted under the IV it names. It has the key that the
client derives, and the response selects what the client has. -/
structure ServerSends (lib : Libraries) (s : ClientSession) (hs : HandshakeInfo) (server : Server)
    (iv aad token : Bytes) : Prop where
  step : hs.step = .keyExchangeRsp
  selects : hs.algorithms.headD s.selectedAlgorithm = server.algo
  encrypts : server.algo ≠ .none
  key : ∃ key baseIV, keyMaterial lib.keys (storeNegotiated s hs) hs = .ok (key, baseIV) ∧
    newCipherSuite lib.prim server.algo key = .ok server.suite
  init : hs.initializeCrypto = some { algorithm := server.algo, iv := iv, aad := aad }
  size : iv.length = server.suite.params.ivSize
  token : server.suite.encrypt token iv aad = .ok hs.sessionToken
  nonempty : hs.sessionToken ≠ []
  compression : hs.compressionAlgorithms.headD s.selectedCompression = .none ∨
    ∃ c, newCompressor lib.comp (hs.compressionAlgorithms.headD s.selectedCompression) = .ok c

section

variable {lib : Libraries} {fb : HandshakeBuffers} {s s' : ClientSession} {hs : HandshakeInfo}
  {server : Server} {iv aad token : Bytes}

/-- The link after the handshake: the server has rolled past the token. -/
def linkAfter (s' : ClientSession) (server : Server) (iv : Bytes) (hs : HandshakeInfo) : Link :=
  { client := s'.toGatewaySession
    serverIV := rollIV (getIVRollPolicy server.algo) iv hs.sessionToken }

/-- The client accepts such a response, with the server's cipher. -/
theorem ServerSends.accepted (hprim : lib.prim.Lawful) (hfb : fb.Lawful)
    (h : ServerSends lib s hs server iv aad token) (seq : UInt64) :
    ∃ confirmFrame s' key baseIV,
      handleKeyExchangeRsp lib fb s (fb.buildHandshakeMessage seq hs) = (.ok confirmFrame, s') ∧
      Accepted lib s hs key baseIV s' ∧ SuiteOf lib.prim key server.algo server.suite ∧
      s'.cipher = some server.suite ∧ s'.ivRollPolicy = getIVRollPolicy server.algo := by
  obtain ⟨key, baseIV, hkeys, hsuite⟩ := h.key
  have hof := newCipherSuite_suiteOf hsuite
  obtain ⟨plain, hplain, -⟩ := hof.decrypts hprim h.size h.token
    (hof.encryptable_of_ciphertext hprim h.size h.token h.nonempty)
  have halgo : (storeNegotiated s hs).selectedAlgorithm = server.algo := h.selects
  obtain ⟨confirmFrame, s', hacc⟩ := acceptKeyExchangeRsp_accepts fb hkeys
    (by rw [halgo]; exact h.encrypts) (by rw [halgo]; exact hsuite) h.init hplain h.compression
  have hok : handleKeyExchangeRsp lib fb s (fb.buildHandshakeMessage seq hs) = (.ok confirmFrame, s') := by
    rw [handleKeyExchangeRsp_built hfb lib s seq hs h.step, hacc]
    rfl
  obtain ⟨key', baseIV', hfields⟩ := acceptKeyExchangeRsp_ok hacc
  have hsame := hfields.keys
  rw [hkeys] at hsame
  cases hsame
  have hselected : s'.selectedAlgorithm = server.algo := hfields.algorithm.trans h.selects
  obtain ⟨suite', hsuite', hcipher, hpolicy⟩ :=
    hfields.created (by rw [hselected]; exact h.encrypts)
  rw [hselected, hsuite] at hsuite'
  cases hsuite'
  rw [hselected] at hpolicy
  exact ⟨confirmFrame, s', key, baseIV, hok, hfields, hof, hcipher, hpolicy⟩

variable {key baseIV : Bytes} (hkeys : lib.keys.Lawful)
  (h : ServerSends lib s hs server iv aad token) (hacc : Accepted lib s hs key baseIV s')

include hkeys h hacc

/-- Where the receive chain starts: at the server's IV, or without IVs at the old one. -/
theorem ServerSends.firstRecvIV_eq :
    firstRecvIV hs baseIV s.recvIV = if iv.length > 0 then iv else s.recvIV := by
  unfold firstRecvIV
  rw [h.init]
  simp only
  split
  · rfl
  next h0 =>
    -- an algorithm without IVs derives none
    have hselected : (storeNegotiated s hs).selectedAlgorithm = server.algo := h.selects
    obtain ⟨params, hparams, hlen⟩ :=
      (keyMaterial_ok hacc.keys).2 (by rw [hselected]; exact h.encrypts)
    obtain ⟨_, _, -, hsuite⟩ := h.key
    rw [hselected, newCipherSuite_params hsuite] at hparams
    cases hparams
    rw [if_neg (by rw [hlen hkeys, ← h.size]; exact h0)]

variable (hcipher : s'.cipher = some server.suite)
  (hpolicy : s'.ivRollPolicy = getIVRollPolicy server.algo)

include hcipher hpolicy

/-- The client has rolled past the token too. -/
theorem ServerSends.recvIV_eq :
    s'.recvIV = rollIV (getIVRollPolicy server.algo) (if iv.length > 0 then iv else s.recvIV)
      hs.sessionToken := by
  have htoken : hs.sessionToken.length > 0 := length_pos_iff.mpr h.nonempty
  rw [hacc.recvIV_rolled, h.firstRecvIV_eq hkeys hacc, hpolicy, hcipher, if_pos ⟨htoken, rfl⟩]

/-- **The handshake puts the two ends in step** if the algorithm has IVs, or there was no
receive IV before. -/
theorem ServerSends.inStep (hfresh : server.suite.params.ivSize ≠ 0 ∨ s.recvIV = []) :
    InStep server s'.compressor (linkAfter s' server iv hs) where
  cipher := hcipher
  policy := hpolicy
  compressor := rfl
  size := by
    show (rollIV _ iv hs.sessionToken).length = _
    rw [rollIV_length, h.size]
  iv := by
    show s'.recvIV = rollIV _ iv hs.sessionToken
    rw [h.recvIV_eq hkeys hacc hcipher hpolicy]
    congr 1
    split
    · rfl
    next h0 =>
      have hnil : iv = [] := length_eq_zero_iff.mp (by omega)
      rcases hfresh with hne | hold
      · rw [← h.size, hnil] at hne
        exact absurd rfl hne
      · rw [hold, hnil]

/-- An old receive IV stays if the algorithm has none. -/
theorem ServerSends.not_inStep (h0 : server.suite.params.ivSize = 0) (hold : s.recvIV ≠ []) :
    (linkAfter s' server iv hs).client.recvIV ≠ (linkAfter s' server iv hs).serverIV := by
  intro heq
  have hlen := congrArg List.length heq
  have hiv : iv.length = 0 := h.size.trans h0
  have hrecv : (linkAfter s' server iv hs).client.recvIV.length = s.recvIV.length := by
    show s'.recvIV.length = _
    rw [h.recvIV_eq hkeys hacc hcipher hpolicy, rollIV_length, if_neg (by omega)]
  have hserver : (linkAfter s' server iv hs).serverIV.length = 0 := by
    show (rollIV _ iv hs.sessionToken).length = 0
    rw [rollIV_length, hiv]
  rw [hrecv, hserver] at hlen
  exact hold (length_eq_zero_iff.mp hlen)

end

/-! ## From AES-GCM to XXTEA -/

/-- A server with AES-128-GCM under the zero key. -/
def gcmServer : Server := { algo := .aes128Gcm, suite := gcmSuite }

/-- Its response, with a token. -/
def gcmResponse : HandshakeInfo :=
  plainResponse [.aes128Gcm] []
    (some { algorithm := .aes128Gcm, iv := List.replicate 12 7, aad := [] })
    (gcmSealed (List.replicate 12 7) [9, 1, 5])

theorem gcmServer_sends :
    ServerSends toyLibraries plainSession gcmResponse gcmServer (List.replicate 12 7) [] [9, 1, 5] where
  step := rfl
  selects := rfl
  encrypts := by decide
  key := ⟨List.replicate 16 0, List.replicate 12 0, rfl, rfl⟩
  init := rfl
  size := rfl
  token := rfl
  nonempty := by decide
  compression := Or.inl rfl

/-- A server with XXTEA under the zero key. -/
def xxteaServer : Server :=
  { algo := .xxtea
    suite := .xxtea (fun i => be32 (((List.replicate 16 0).drop (4 * i.val)).take 4)) ⟨16, 0, 8, 0, false⟩ }

/-- Its response: the token is one byte, and there is no IV to name. -/
def xxteaResponse : HandshakeInfo :=
  plainResponse [.xxtea] [] (some { algorithm := .xxtea, iv := [], aad := [] })
    [224, 141, 50, 252, 206, 180, 128, 112]

/-- The session after a handshake with AES-128-GCM. -/
def sessionAfterGcm (fb : HandshakeBuffers) : ClientSession :=
  (acceptKeyExchangeRsp toyLibraries fb plainSession gcmResponse).2

/-- It has a receive IV: the one of the server, rolled past the token. -/
theorem sessionAfterGcm_recvIV (fb : HandshakeBuffers) :
    (sessionAfterGcm fb).recvIV = List.replicate 11 7 ++ [8] := rfl

theorem xxteaServer_sends (fb : HandshakeBuffers) :
    ServerSends toyLibraries (sessionAfterGcm fb) xxteaResponse xxteaServer [] [] [1] where
  step := rfl
  selects := rfl
  encrypts := by decide
  key := ⟨List.replicate 16 0, [], rfl, rfl⟩
  init := rfl
  size := rfl
  token := by decide +kernel
  nonempty := by decide
  compression := Or.inl rfl

/-- **The receive IV stays in step with the server**, through every sequence of posts, resets
and posts that do not decrypt, if and only if the algorithm has IVs or the session had no
receive IV before the handshake. -/
theorem recvIV_in_step_iff (lib : Libraries) (hprim : lib.prim.Lawful) (hkeys : lib.keys.Lawful)
    (fb : HandshakeBuffers) (hfb : fb.Lawful) (s : ClientSession) (hs : HandshakeInfo)
    (server : Server) (iv aad token : Bytes) (h : ServerSends lib s hs server iv aad token)
    (seq : UInt64) :
    ∃ confirmFrame s',
      handleKeyExchangeRsp lib fb s (fb.buildHandshakeMessage seq hs) = (.ok confirmFrame, s') ∧
      (StaysInStep fb.toFlatBuffers server (linkAfter s' server iv hs)
        ↔ (server.suite.params.ivSize ≠ 0 ∨ s.recvIV = [])) := by
  obtain ⟨confirmFrame, s', key, baseIV, hok, hacc, hof, hcipher, hpolicy⟩ := h.accepted hprim hfb seq
  refine ⟨confirmFrame, s', hok, ?_, ?_⟩
  · intro hstays
    by_contra hno
    obtain ⟨h0, hold⟩ := not_or.mp hno
    exact h.not_inStep hkeys hacc hcipher hpolicy (not_not.mp h0) hold (hstays [] (by simp)).1
  · intro hfresh
    exact (h.inStep hkeys hacc hcipher hpolicy hfresh).stays hprim hof h.encrypts hfb.post

/-- A fresh session follows an AES-128-GCM server. -/
theorem recvIV_in_step_gcm : ∃ (fb : HandshakeBuffers) (confirmFrame : Bytes) (s' : ClientSession),
    handleKeyExchangeRsp toyLibraries fb plainSession (fb.buildHandshakeMessage 1 gcmResponse)
      = (.ok confirmFrame, s') ∧
    StaysInStep fb.toFlatBuffers gcmServer
      (linkAfter s' gcmServer (List.replicate 12 7) gcmResponse) := by
  obtain ⟨fb, hfb⟩ := exists_handshakeBuffers
  obtain ⟨confirmFrame, s', hok, hiff⟩ := recvIV_in_step_iff toyLibraries toyPrimitives_lawful
    toyLibraries_keys_lawful fb hfb plainSession gcmResponse gcmServer (List.replicate 12 7) [] [9, 1, 5]
    gcmServer_sends 1
  exact ⟨fb, confirmFrame, s', hok, hiff.mpr (Or.inl (by decide))⟩

/-- After AES-128-GCM, a handshake that selects XXTEA leaves the old receive IV. -/
theorem recvIV_stale_xxtea : ∃ (fb : HandshakeBuffers) (confirmFrame : Bytes) (s' : ClientSession),
    (∃ first, handleKeyExchangeRsp toyLibraries fb plainSession (fb.buildHandshakeMessage 1 gcmResponse)
      = (.ok first, sessionAfterGcm fb)) ∧
    ServerSends toyLibraries (sessionAfterGcm fb) xxteaResponse xxteaServer [] [] [1] ∧
    handleKeyExchangeRsp toyLibraries fb (sessionAfterGcm fb) (fb.buildHandshakeMessage 2 xxteaResponse)
      = (.ok confirmFrame, s') ∧
    (linkAfter s' xxteaServer [] xxteaResponse).client.recvIV
      ≠ (linkAfter s' xxteaServer [] xxteaResponse).serverIV := by
  obtain ⟨fb, hfb⟩ := exists_handshakeBuffers
  have hsends := xxteaServer_sends fb
  obtain ⟨confirmFrame, s', key, baseIV, hok, hacc, -, hcipher, hpolicy⟩ :=
    hsends.accepted toyPrimitives_lawful hfb 2
  have hfirst := handleKeyExchangeRsp_built hfb toyLibraries plainSession 1 gcmResponse rfl
  refine ⟨fb, confirmFrame, s', ⟨_, hfirst⟩, hsends, hok, ?_⟩
  apply hsends.not_inStep toyLibraries_keys_lawful hacc hcipher hpolicy rfl
  rw [sessionAfterGcm_recvIV]
  simp

end Robot.Gateway
