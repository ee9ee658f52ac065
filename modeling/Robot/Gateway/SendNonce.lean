import Robot.Gateway.PostRoundTrip
import Robot.Lib.Counter

/-!
# Nonces of the send direction

An AEAD cipher must never see the same IV twice under one key. The session counts: the send
IV is a big-endian number, and `incrementIVBE` adds one to it modulo `256 ^ n`
(`beValue_incrementIVBE`). A run is any mix of `EncodePost` and `DecodeMessage` calls after a
handshake. What carries the induction is that the session keeps on counting (`Counts`), and
that each frame sent is one step of the counter: a call that fails sends nothing and leaves
the counter alone, and what is received never touches it. The IVs of the frames are then the
iterates of the increment, which `CountsMod.nodup` says are different.
-/

namespace Robot.Gateway

open Robot.Lib List

/-! ## The increment -/

/-- The carry runs up from the lowest byte and is dropped at the highest one. -/
theorem leValue_incrementFromEnd (bytes : Bytes) :
    leValue (incrementFromEnd bytes) = (leValue bytes + 1) % 256 ^ bytes.length := by
  induction bytes with
  | nil => rfl
  | cons b bs ih =>
    have hlt := leValue_lt bs
    have hb := b.toNat_lt
    have hsucc : (b + 1).toNat = (b.toNat + 1) % 256 := UInt8.toNat_add b 1
    rw [length_cons, Nat.pow_succ']
    unfold incrementFromEnd
    split
    next hne =>
      -- no carry: the lowest byte was not 255
      have hsmall : b.toNat + 1 < 256 := by
        by_contra hge
        apply hne
        apply UInt8.toNat_inj.mp
        rw [hsucc, show b.toNat + 1 = 256 by omega]
        rfl
      show (b + 1).toNat + 256 * leValue bs = (b.toNat + 256 * leValue bs + 1) % _
      rw [hsucc, Nat.mod_eq_of_lt hsmall, Nat.mod_eq_of_lt (by omega)]
      omega
    next hzero =>
      have h0 : (b + 1).toNat = 0 := by
        rw [not_not.mp hzero]
        rfl
      have hff : b.toNat = 255 := by omega
      show (b + 1).toNat + 256 * leValue (incrementFromEnd bs)
        = (b.toNat + 256 * leValue bs + 1) % _
      rw [h0, ih, hff, Nat.zero_add, ← Nat.mul_mod_mul_left]
      congr 1
      omega

/-- **`incrementIVBE` adds one** to the big-endian value, modulo `256 ^ n`. -/
theorem beValue_incrementIVBE (iv : Bytes) :
    beValue (incrementIVBE iv) = (beValue iv + 1) % 256 ^ iv.length := by
  unfold beValue incrementIVBE
  rw [reverse_reverse, leValue_incrementFromEnd, length_reverse]

theorem incrementIVBE_length (iv : Bytes) : (incrementIVBE iv).length = iv.length :=
  rollIV_length .aeadInc1BE iv []

theorem countsMod_incrementIVBE (n : Nat) :
    CountsMod (fun iv : Bytes => iv.length = n) incrementIVBE beValue (256 ^ n) := by
  intro iv hlen
  subst hlen
  exact ⟨incrementIVBE_length iv, beValue_incrementIVBE iv, beValue_lt iv⟩

/-! ## Runs -/

/-- A call of the application or of the receive loop. `rand` is what `rand.Read` returns for
the AAD. -/
inductive PostCall where
  | encode (payload : Bytes) (rand : Except String Bytes)
  | decode (frameData : Bytes)

def PostCall.isEncode : PostCall → Bool
  | .encode _ _ => true
  | .decode _ => false

/-- The frames that the calls encode, and the session after them. -/
def runCalls (fb : FlatBuffers) : GatewaySession → List PostCall → List Bytes × GatewaySession
  | s, [] => ([], s)
  | s, .encode payload rand :: calls =>
    match encodePost fb rand s payload with
    | .error _ => runCalls fb s calls
    | .ok (frame, s) => ((frame :: (runCalls fb s calls).1), (runCalls fb s calls).2)
  | s, .decode frameData :: calls => runCalls fb (decodeMessage fb s frameData).2 calls

/-- The IV attached to the post in a frame. -/
def frameIV (fb : FlatBuffers) (frame : Bytes) : Option Bytes :=
  match fb.parseClientMessage (framePayload frame) with
  | .error _ => none
  | .ok msg => (msg.post.bind PostInfo.crypto).map CryptoInfo.iv

/-- The session encrypts, and its IVs count. -/
structure Counts (s : GatewaySession) : Prop where
  algorithm : s.selectedAlgorithm ≠ .none
  cipher : s.cipher.isSome
  policy : s.ivRollPolicy = .aeadInc1BE

/-- A frame carries the send IV, and the session counts on. -/
theorem Counts.encode {fb : FlatBuffers} (hfb : fb.Lawful) {rand : Except String Bytes}
    {s s' : GatewaySession} {payload frame : Bytes} (hs : Counts s)
    (h : encodePost fb rand s payload = .ok (frame, s')) :
    Counts s' ∧ frameIV fb frame = some s.sendIV ∧ s'.sendIV = incrementIVBE s.sendIV := by
  obtain ⟨data, info, encrypted, -, hsent, hpack⟩ := encodePost_ok h
  obtain ⟨sent, crypto, s₁⟩ := encrypted
  obtain ⟨cipher, hcipher⟩ := Option.isSome_iff_exists.mp hs.cipher
  obtain ⟨rfl, aad, rfl⟩ := encryptData_ok hcipher hs.algorithm hsent
  cases hpack
  refine ⟨⟨hs.algorithm, hs.cipher, hs.policy⟩, ?_, ?_⟩
  · unfold frameIV
    rw [framePayload_encodeFrame, hfb]
    rfl
  · show rollIV s.ivRollPolicy s.sendIV sent = _
    rw [hs.policy]
    rfl

/-- What is received does not touch the counter. -/
theorem Counts.decode {s : GatewaySession} (hs : Counts s) (fb : FlatBuffers) (frameData : Bytes) :
    Counts (decodeMessage fb s frameData).2 ∧
      (decodeMessage fb s frameData).2.sendIV = s.sendIV := by
  obtain ⟨iv, hiv⟩ := decodeMessage_session fb s frameData
  rw [hiv]
  exact ⟨⟨hs.algorithm, hs.cipher, hs.policy⟩, rfl⟩

/-- **The frames of a run carry the counter's values in order**, and the counter has gone one
step for each of them. -/
theorem Counts.runCalls {fb : FlatBuffers} (hfb : fb.Lawful) (calls : List PostCall) :
    ∀ {s : GatewaySession}, Counts s →
      (Gateway.runCalls fb s calls).1.map (frameIV fb)
        = (List.iterate incrementIVBE s.sendIV (Gateway.runCalls fb s calls).1.length).map some ∧
      (Gateway.runCalls fb s calls).2.sendIV
        = incrementIVBE^[(Gateway.runCalls fb s calls).1.length] s.sendIV := by
  induction calls with
  | nil =>
    intro s _
    exact ⟨rfl, rfl⟩
  | cons call calls ih =>
    intro s hs
    cases call with
    | encode payload rand =>
      unfold Gateway.runCalls
      split
      · exact ih hs
      next frame s' hsend =>
        obtain ⟨hs', hiv, hnext⟩ := hs.encode hfb hsend
        obtain ⟨hframes, hlast⟩ := ih hs'
        rw [hnext] at hframes hlast
        refine ⟨?_, hlast⟩
        rw [map_cons, hiv, hframes]
        rfl
    | decode frameData =>
      obtain ⟨hs', hsame⟩ := hs.decode fb frameData
      have hrest := ih hs'
      rw [hsame] at hrest
      exact hrest

/-- A call encodes at most one frame. -/
theorem runCalls_length_le (fb : FlatBuffers) (calls : List PostCall) :
    ∀ s : GatewaySession, (runCalls fb s calls).1.length ≤ calls.countP PostCall.isEncode := by
  induction calls with
  | nil =>
    intro s
    exact Nat.le_refl 0
  | cons call calls ih =>
    intro s
    cases call with
    | encode payload rand =>
      rw [countP_cons_of_pos rfl]
      unfold runCalls
      split
      · exact Nat.le_succ_of_le (ih s)
      · exact Nat.succ_le_succ (ih _)
    | decode frameData =>
      rw [countP_cons_of_neg (by exact Bool.false_ne_true)]
      exact ih _

/-! ## After a handshake -/

/-- The AEAD algorithms are those whose IVs count. -/
theorem policy_of_isAEAD {algo : CryptoAlgorithm} {params : CryptoAlgorithmParams}
    (h : getCryptoAlgorithmParams algo = .ok params) (haead : params.isAEAD = true) :
    algo ≠ .none ∧ getIVRollPolicy algo = .aeadInc1BE ∧ 0 < params.ivSize := by
  cases algo <;> cases h <;> cases haead <;> exact ⟨by simp, rfl, by decide⟩

/-- An accepted response with an AEAD algorithm starts the counter. -/
theorem Accepted.counts {lib : Libraries} (hkeys : lib.keys.Lawful) {s s' : ClientSession}
    {hs : HandshakeInfo} {key baseIV : Bytes} (h : Accepted lib s hs key baseIV s')
    {params : CryptoAlgorithmParams} (hparams : getCryptoAlgorithmParams s'.selectedAlgorithm = .ok params)
    (haead : params.isAEAD = true) :
    Counts s'.toGatewaySession ∧ s'.sendIV.length = params.ivSize := by
  obtain ⟨hne, hpolicy, hpos⟩ := policy_of_isAEAD hparams haead
  obtain ⟨suite, -, hcipher, hroll⟩ := h.created hne
  refine ⟨⟨hne, by rw [hcipher]; rfl, by rw [hroll, hpolicy]⟩, ?_⟩
  have hstored : (storeNegotiated s hs).selectedAlgorithm = s'.selectedAlgorithm := h.algorithm.symm
  obtain ⟨params', hparams', hlen⟩ := (keyMaterial_ok h.keys).2 (by rw [hstored]; exact hne)
  rw [hstored, hparams] at hparams'
  cases hparams'
  rw [h.sendIV, if_pos (by rw [hlen hkeys]; exact hpos)]
  exact hlen hkeys

/-- **No nonce is used twice.** After a handshake that selected an AEAD algorithm with IVs of
`n` bytes, in every run of fewer than `256 ^ n` calls of `EncodePost` the IVs attached to the
posts are different: `incrementIVBE` adds one modulo `256 ^ n`, and the send IV has gone one
step for each post that was encoded. -/
theorem send_nonces_distinct (lib : Libraries) (hkeys : lib.keys.Lawful) (fb : HandshakeBuffers)
    (hfb : fb.toFlatBuffers.Lawful) (s₀ s : ClientSession) (response confirmFrame : Bytes)
    (hrsp : handleKeyExchangeRsp lib fb s₀ response = (.ok confirmFrame, s))
    (params : CryptoAlgorithmParams)
    (hparams : getCryptoAlgorithmParams s.selectedAlgorithm = .ok params)
    (haead : params.isAEAD = true) (calls : List PostCall)
    (hcalls : calls.countP PostCall.isEncode < 256 ^ params.ivSize) :
    (∀ frame ∈ (runCalls fb.toFlatBuffers s.toGatewaySession calls).1,
      ∃ iv, frameIV fb.toFlatBuffers frame = some iv ∧ iv.length = params.ivSize) ∧
    ((runCalls fb.toFlatBuffers s.toGatewaySession calls).1.map (frameIV fb.toFlatBuffers)).Nodup ∧
    (∀ iv : Bytes, beValue (incrementIVBE iv) = (beValue iv + 1) % 256 ^ iv.length) ∧
    (runCalls fb.toFlatBuffers s.toGatewaySession calls).2.sendIV
      = incrementIVBE^[(runCalls fb.toFlatBuffers s.toGatewaySession calls).1.length] s.sendIV := by
  obtain ⟨hs, key, baseIV, -, hacc⟩ := handleKeyExchangeRsp_ok hrsp
  obtain ⟨hcounts, hlen⟩ := hacc.counts hkeys hparams haead
  obtain ⟨hframes, hlast⟩ := hcounts.runCalls hfb calls
  have hmany := runCalls_length_le fb.toFlatBuffers calls s.toGatewaySession
  have hcounter := countsMod_incrementIVBE params.ivSize
  refine ⟨fun frame hframe => ?_, ?_, beValue_incrementIVBE, hlast⟩
  · have hmem := mem_map_of_mem (f := frameIV fb.toFlatBuffers) hframe
    rw [hframes] at hmem
    obtain ⟨iv, hiv, heq⟩ := mem_map.mp hmem
    obtain ⟨k, -, rfl⟩ := mem_iterate.mp hiv
    exact ⟨_, heq.symm, (hcounter.iterate k hlen).1⟩
  · rw [hframes]
    apply List.Nodup.map (Option.some_injective _)
    exact hcounter.nodup hlen (by omega)

/-- AES-128-GCM: two posts, and between them one that cannot be encoded and a bad frame. -/
theorem send_nonces_distinct_gcm : ∃ (fb : HandshakeBuffers) (s : ClientSession) (confirmFrame : Bytes),
    handleKeyExchangeRsp toyLibraries fb plainSession
      (fb.buildHandshakeMessage 1 (plainResponse [.aes128Gcm] [] none [])) = (.ok confirmFrame, s) ∧
    ((runCalls fb.toFlatBuffers s.toGatewaySession
      [.encode [1] (.ok []), .encode [2] (.error "EOF"), .decode [], .encode [3] (.ok [])]).1.map
        (frameIV fb.toFlatBuffers)).Nodup := by
  obtain ⟨fb, hfb⟩ := exists_handshakeBuffers
  have hrsp := handleKeyExchangeRsp_built hfb toyLibraries plainSession 1
    (plainResponse [.aes128Gcm] [] none []) rfl
  refine ⟨fb, _, _, hrsp, ?_⟩
  exact (send_nonces_distinct toyLibraries toyLibraries_keys_lawful fb hfb.post plainSession _ _ _
    hrsp ⟨16, 12, 1, 16, true⟩ rfl rfl _ (by decide)).2.1

end Robot.Gateway
