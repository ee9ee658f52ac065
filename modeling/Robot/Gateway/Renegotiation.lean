import Robot.Gateway.SendNonce

/-!
# A second handshake

A new handshake on the same client should replace what an earlier one negotiated: the session
after an accepted response should depend on the configuration, the private key and the
response alone. `HandleKeyExchangeRsp` assigns each field under a condition of its own, and
has no `else`: a field whose condition fails keeps the old value. So two sessions that accept
the same response agree afterwards exactly if every field is either assigned or was the same
before, which is `Overwritten`. Field by field:

* an empty algorithm list keeps the algorithm, and an empty compression list the compression;
* without encryption the cipher, its policy and the IVs stay, without compression the
  compressor;
* an algorithm without IVs (XXTEA) leaves the send IV, and the receive IV unless the response
  names one;
* without a token to decrypt the session token stays.

Old receive IVs can still meet: AES-CBC rolls every IV of one length to the same ciphertext
tail (`rollIV_eq_iff`).
-/

namespace Robot.Gateway

open Robot.Lib

/-! ## Agreement -/

/-- Two sessions of one configuration and key pair. -/
structure SameConfig (s₁ s₂ : ClientSession) : Prop where
  config : s₁.config = s₂.config
  threshold : s₁.compressionThreshold = s₂.compressionThreshold
  privateKey : s₁.privateKey = s₂.privateKey

/-- Two sessions that agree on every negotiated field. -/
structure SameNegotiated (s₁ s₂ : ClientSession) : Prop where
  algorithm : s₁.selectedAlgorithm = s₂.selectedAlgorithm
  cipher : s₁.cipher = s₂.cipher
  sendIV : s₁.sendIV = s₂.sendIV
  recvIV : s₁.recvIV = s₂.recvIV
  policy : s₁.ivRollPolicy = s₂.ivRollPolicy
  compression : s₁.selectedCompression = s₂.selectedCompression
  compressor : s₁.compressor = s₂.compressor
  token : s₁.sessionToken = s₂.sessionToken
  maxSize : s₁.maxPostMessageSize = s₂.maxPostMessageSize

/-- What posts use of a session, at a sequence number. -/
def ClientSession.postsAt (s : ClientSession) (sequence : UInt64) : GatewaySession :=
  { s.toGatewaySession with sequence := sequence }

/-- From equal sequence numbers and with equal random AAD, `EncodePost` and `DecodeMessage` do
the same. -/
def BehaveAlike (s₁ s₂ : ClientSession) : Prop :=
  ∀ (fb : FlatBuffers) (sequence : UInt64),
    (∀ rand payload, encodePost fb rand (s₁.postsAt sequence) payload
      = encodePost fb rand (s₂.postsAt sequence) payload) ∧
    (∀ frameData, decodeMessage fb (s₁.postsAt sequence) frameData
      = decodeMessage fb (s₂.postsAt sequence) frameData)

theorem SameNegotiated.behaveAlike {s₁ s₂ : ClientSession} (h : SameNegotiated s₁ s₂)
    (hthreshold : s₁.compressionThreshold = s₂.compressionThreshold)
    (hdone : s₁.handshakeDone = s₂.handshakeDone) : BehaveAlike s₁ s₂ := by
  intro fb sequence
  have hsame : s₁.postsAt sequence = s₂.postsAt sequence := by
    unfold ClientSession.postsAt
    simp only
    rw [h.algorithm, h.cipher, h.sendIV, h.recvIV, h.policy, h.compression, h.compressor, h.maxSize,
      hthreshold, hdone]
  rw [hsame]
  exact ⟨fun _ _ => rfl, fun _ => rfl⟩

/-! ## Conditions -/

/-- The algorithm after a response. -/
def HandshakeInfo.selects (hs : HandshakeInfo) (s : ClientSession) : CryptoAlgorithm :=
  hs.algorithms.headD s.selectedAlgorithm

/-- The compression after a response. -/
def HandshakeInfo.compresses (hs : HandshakeInfo) (s : ClientSession) : CompressionAlgorithm :=
  hs.compressionAlgorithms.headD s.selectedCompression

/-- The response names an IV for receiving. -/
def HandshakeInfo.NamesIV (hs : HandshakeInfo) : Prop := ∃ init ∈ hs.initializeCrypto, init.iv ≠ []

/-- The algorithm has IVs. -/
def CryptoAlgorithm.HasIVs (algo : CryptoAlgorithm) : Prop :=
  ∃ params, getCryptoAlgorithmParams algo = .ok params ∧ 0 < params.ivSize

/-- Two IVs that a roll by AES-CBC makes equal. -/
def MeetInTail (policy : IVRollPolicy) (iv₁ iv₂ ciphertext : Bytes) : Prop :=
  policy = .chainCiphertext ∧ iv₁.length = iv₂.length ∧ iv₁.length ≤ ciphertext.length

/-- Every field is assigned from the response, or it was the same before. -/
structure Overwritten (hs : HandshakeInfo) (s₁ s₂ : ClientSession) : Prop where
  algorithm : hs.algorithms ≠ [] ∨ s₁.selectedAlgorithm = s₂.selectedAlgorithm
  cipher : hs.selects s₁ ≠ .none ∨ (s₁.cipher = s₂.cipher ∧ s₁.ivRollPolicy = s₂.ivRollPolicy)
  sendIV : (hs.selects s₁).HasIVs ∨ s₁.sendIV = s₂.sendIV
  recvIV : (hs.selects s₁).HasIVs ∨ hs.NamesIV ∨ s₁.recvIV = s₂.recvIV ∨
    (hs.selects s₁ = .none ∧ s₁.cipher.isSome ∧
      MeetInTail s₁.ivRollPolicy s₁.recvIV s₂.recvIV hs.sessionToken)
  token : ((hs.selects s₁ ≠ .none ∨ s₁.cipher ≠ none) ∧ hs.initializeCrypto ≠ none ∧
    hs.sessionToken ≠ []) ∨ s₁.sessionToken = s₂.sessionToken
  compression : hs.compressionAlgorithms ≠ [] ∨ s₁.selectedCompression = s₂.selectedCompression
  compressor : hs.compresses s₁ ≠ .none ∨ s₁.compressor = s₂.compressor

/-! ## Lists and IVs -/

theorem headD_eq_iff {α : Type} {l : List α} {a b : α} : l.headD a = l.headD b ↔ l ≠ [] ∨ a = b := by
  cases l with
  | nil => simp
  | cons x xs => simp

theorem incrementIVBE_inj {a b : Bytes} (hlen : a.length = b.length)
    (h : incrementIVBE a = incrementIVBE b) : a = b :=
  beValue_inj hlen ((countsMod_incrementIVBE b.length).value_inj hlen rfl (by rw [h]))

/-- **When a roll gives the same IV**: from the same IV, or by AES-CBC over a long enough
ciphertext. -/
theorem rollIV_eq_iff {policy : IVRollPolicy} {a b ciphertext : Bytes} :
    rollIV policy a ciphertext = rollIV policy b ciphertext
      ↔ a = b ∨ MeetInTail policy a b ciphertext := by
  constructor
  · intro h
    have hlen := congrArg List.length h
    rw [rollIV_length, rollIV_length] at hlen
    cases policy with
    | none => exact Or.inl h
    | aeadInc1BE => exact Or.inl (incrementIVBE_inj hlen h)
    | chainCiphertext =>
      by_cases hge : a.length ≤ ciphertext.length
      · exact Or.inr ⟨rfl, hlen, hge⟩
      · unfold rollIV at h
        simp only at h
        rw [if_neg (by omega), if_neg (by omega)] at h
        exact Or.inl h
  · intro h
    rcases h with rfl | ⟨rfl, hlen, hge⟩
    · rfl
    · unfold rollIV
      simp only
      rw [if_pos hge, if_pos (by omega), hlen]

/-- Without a ciphertext only empty IVs could meet, and these are equal. -/
theorem MeetInTail.token_pos {policy : IVRollPolicy} {a b ciphertext : Bytes}
    (h : MeetInTail policy a b ciphertext) (hne : a ≠ b) : ciphertext.length > 0 := by
  obtain ⟨-, hlen, hge⟩ := h
  by_contra h0
  have ha : a = [] := List.length_eq_zero_iff.mp (by omega)
  have hb : b = [] := List.length_eq_zero_iff.mp (by omega)
  exact hne (ha.trans hb.symm)

/-! ## One response, two sessions -/

variable {hs : HandshakeInfo}

/-- The keys depend on the algorithm, the private key, the configuration and the response. -/
theorem keyMaterial_congr {keys : KeyLib} {s₁ s₂ : ClientSession}
    (halgo : s₁.selectedAlgorithm = s₂.selectedAlgorithm) (hsame : SameConfig s₁ s₂) :
    keyMaterial keys s₁ hs = keyMaterial keys s₂ hs := by
  unfold keyMaterial
  rw [halgo, hsame.privateKey, hsame.config]

/-- There is a base IV exactly if the algorithm has IVs. -/
theorem Accepted.baseIV_pos {lib : Libraries} (hkeys : lib.keys.Lawful) {s s' : ClientSession}
    {key baseIV : Bytes} (h : Accepted lib s hs key baseIV s') :
    baseIV.length > 0 ↔ (hs.selects s).HasIVs := by
  obtain ⟨hnone, hsome⟩ := keyMaterial_ok h.keys
  by_cases halgo : hs.selects s = .none
  · rw [hnone halgo]
    constructor
    · intro h0
      cases h0
    · intro hiv
      obtain ⟨params, hparams, -⟩ := hiv
      rw [halgo] at hparams
      cases hparams
  · obtain ⟨params, hparams, hlen⟩ := hsome halgo
    have hparams' : getCryptoAlgorithmParams (hs.selects s) = .ok params := hparams
    rw [hlen hkeys]
    constructor
    · intro hpos
      exact ⟨params, hparams', hpos⟩
    · intro hiv
      obtain ⟨params', hp, hpos⟩ := hiv
      rw [hparams'] at hp
      cases hp
      exact hpos

/-- The receive chain starts at an IV of the response, or at the old one. -/
theorem firstRecvIV_old {baseIV : Bytes} (hbase : ¬ baseIV.length > 0)
    (hnames : ¬ hs.NamesIV) (recvIV : Bytes) : firstRecvIV hs baseIV recvIV = recvIV := by
  unfold firstRecvIV
  rw [if_neg hbase]
  cases hinit : hs.initializeCrypto with
  | none => rfl
  | some init =>
    have hnil : init.iv = [] := by
      by_contra hne
      exact hnames ⟨init, hinit, hne⟩
    simp only [hnil]
    rfl

theorem firstRecvIV_new {baseIV : Bytes} (h : baseIV.length > 0 ∨ hs.NamesIV) (recvIV recvIV' : Bytes) :
    firstRecvIV hs baseIV recvIV = firstRecvIV hs baseIV recvIV' := by
  unfold firstRecvIV
  rcases h with hbase | ⟨init, hinit, hne⟩
  · simp only [if_pos hbase]
  · rw [Option.mem_def.mp hinit]
    simp only
    rw [if_pos (List.length_pos_iff.mpr hne), if_pos (List.length_pos_iff.mpr hne)]

/-- A policy that meets in the tail was left by an earlier handshake: every algorithm for
AES-CBC has IVs of its own. -/
theorem hasIVs_of_chain {algo : CryptoAlgorithm} (h : getIVRollPolicy algo = .chainCiphertext) :
    algo.HasIVs := by
  cases algo <;> cases h <;> exact ⟨_, rfl, by decide⟩

section

variable {lib : Libraries} {s₁ s₂ s₁' s₂' : ClientSession} {hs : HandshakeInfo}
  {key₁ key₂ baseIV₁ baseIV₂ : Bytes} (h₁ : Accepted lib s₁ hs key₁ baseIV₁ s₁')

include h₁

/-- There is a cipher if one was created or kept. -/
theorem Accepted.cipher_ne_none_iff :
    s₁'.cipher ≠ none ↔ hs.selects s₁ ≠ .none ∨ s₁.cipher ≠ none := by
  by_cases hnone : hs.selects s₁ = .none
  · rw [(h₁.kept (h₁.algorithm.trans hnone)).1]
    exact ⟨Or.inr, fun h => h.resolve_left fun hne => hne hnone⟩
  · have hsel : s₁'.selectedAlgorithm = hs.selects s₁ := h₁.algorithm
    obtain ⟨suite, -, hc, -⟩ := h₁.created (by rw [hsel]; exact hnone)
    rw [hc]
    exact ⟨fun _ => Or.inl hnone, fun _ => Option.some_ne_none suite⟩

variable (h₂ : Accepted lib s₂ hs key₂ baseIV₂ s₂')

include h₂

/-- With the same algorithm both derive the same keys. -/
theorem Accepted.same_keys (hsame : SameConfig s₁ s₂) (halgo : hs.selects s₁ = hs.selects s₂) :
    key₁ = key₂ ∧ baseIV₁ = baseIV₂ := by
  have hstored : SameConfig (storeNegotiated s₁ hs) (storeNegotiated s₂ hs) :=
    ⟨hsame.config, hsame.threshold, hsame.privateKey⟩
  have hkeys : keyMaterial lib.keys (storeNegotiated s₁ hs) hs
      = keyMaterial lib.keys (storeNegotiated s₂ hs) hs := keyMaterial_congr halgo hstored
  rw [h₁.keys, h₂.keys] at hkeys
  cases hkeys
  exact ⟨rfl, rfl⟩

theorem Accepted.same_cipher_iff (hsame : SameConfig s₁ s₂)
    (halgo : hs.selects s₁ = hs.selects s₂) :
    (s₁'.cipher = s₂'.cipher ∧ s₁'.ivRollPolicy = s₂'.ivRollPolicy)
      ↔ hs.selects s₁ ≠ .none ∨ (s₁.cipher = s₂.cipher ∧ s₁.ivRollPolicy = s₂.ivRollPolicy) := by
  have hsel₁ : s₁'.selectedAlgorithm = hs.selects s₁ := h₁.algorithm
  have hsel₂ : s₂'.selectedAlgorithm = hs.selects s₁ := h₂.algorithm.trans halgo.symm
  by_cases hnone : hs.selects s₁ = .none
  · obtain ⟨hc₁, hp₁⟩ := h₁.kept (hsel₁.trans hnone)
    obtain ⟨hc₂, hp₂⟩ := h₂.kept (hsel₂.trans hnone)
    rw [hc₁, hp₁, hc₂, hp₂]
    exact ⟨Or.inr, fun h => h.resolve_left fun hne => hne hnone⟩
  · refine ⟨fun _ => Or.inl hnone, fun _ => ?_⟩
    obtain ⟨suite₁, hsuite₁, hc₁, hp₁⟩ := h₁.created (by rw [hsel₁]; exact hnone)
    obtain ⟨suite₂, hsuite₂, hc₂, hp₂⟩ := h₂.created (by rw [hsel₂]; exact hnone)
    obtain ⟨rfl, -⟩ := h₁.same_keys h₂ hsame halgo
    rw [hsel₁] at hsuite₁ hp₁
    rw [hsel₂, hsuite₁] at hsuite₂
    cases hsuite₂
    rw [hsel₂] at hp₂
    exact ⟨hc₁.trans hc₂.symm, hp₁.trans hp₂.symm⟩

theorem Accepted.same_sendIV_iff (hkeys : lib.keys.Lawful) (hsame : SameConfig s₁ s₂)
    (halgo : hs.selects s₁ = hs.selects s₂) :
    s₁'.sendIV = s₂'.sendIV ↔ (hs.selects s₁).HasIVs ∨ s₁.sendIV = s₂.sendIV := by
  obtain ⟨-, rfl⟩ := h₁.same_keys h₂ hsame halgo
  rw [h₁.sendIV, h₂.sendIV, ← h₁.baseIV_pos hkeys]
  split
  next hpos => exact ⟨fun _ => Or.inl hpos, fun _ => rfl⟩
  next hno => exact ⟨Or.inr, fun h => h.resolve_left hno⟩

theorem Accepted.same_recvIV_iff (hkeys : lib.keys.Lawful) (hsame : SameConfig s₁ s₂)
    (halgo : hs.selects s₁ = hs.selects s₂) (hcipher : s₁'.cipher = s₂'.cipher)
    (hpolicy : s₁'.ivRollPolicy = s₂'.ivRollPolicy) :
    s₁'.recvIV = s₂'.recvIV
      ↔ (hs.selects s₁).HasIVs ∨ hs.NamesIV ∨ s₁.recvIV = s₂.recvIV ∨
        (hs.selects s₁ = .none ∧ s₁.cipher.isSome ∧
          MeetInTail s₁.ivRollPolicy s₁.recvIV s₂.recvIV hs.sessionToken) := by
  obtain ⟨-, rfl⟩ := h₁.same_keys h₂ hsame halgo
  rw [h₁.recvIV_rolled, h₂.recvIV_rolled, ← hcipher, ← hpolicy, ← h₁.baseIV_pos hkeys]
  by_cases hnew : baseIV₁.length > 0 ∨ hs.NamesIV
  · rw [firstRecvIV_new hnew s₁.recvIV s₂.recvIV]
    exact ⟨fun _ => hnew.elim Or.inl fun h => Or.inr (Or.inl h), fun _ => rfl⟩
  · -- both chains go on from the old IVs
    obtain ⟨hbase, hnames⟩ := not_or.mp hnew
    rw [firstRecvIV_old hbase hnames, firstRecvIV_old hbase hnames]
    have hchain : s₁'.cipher.isSome ∧ s₁'.ivRollPolicy = .chainCiphertext
        ↔ hs.selects s₁ = .none ∧ s₁.cipher.isSome ∧ s₁.ivRollPolicy = .chainCiphertext := by
      by_cases hnone : hs.selects s₁ = .none
      · obtain ⟨hc, hp⟩ := h₁.kept (h₁.algorithm.trans hnone)
        rw [hc, hp]
        exact ⟨fun h => ⟨hnone, h⟩, fun h => h.2⟩
      · have hsel : s₁'.selectedAlgorithm = hs.selects s₁ := h₁.algorithm
        obtain ⟨_, -, -, hp⟩ := h₁.created (by rw [hsel]; exact hnone)
        refine ⟨fun h => ?_, fun h => absurd h.1 hnone⟩
        have hpol := h.2
        rw [hp, hsel] at hpol
        exact absurd ((h₁.baseIV_pos hkeys).mpr (hasIVs_of_chain hpol)) hbase
    split
    next hroll =>
      rw [rollIV_eq_iff]
      constructor
      · intro h
        rcases h with heq | ⟨hpol, hmeet⟩
        · exact Or.inr (Or.inr (Or.inl heq))
        · obtain ⟨hnone, hsome, hpol⟩ := hchain.mp ⟨hroll.2, hpol⟩
          exact Or.inr (Or.inr (Or.inr ⟨hnone, hsome, hpol, hmeet⟩))
      · intro h
        rcases h with h | h | heq | ⟨hnone, hsome, hpol, hmeet⟩
        · exact absurd h hbase
        · exact absurd h hnames
        · exact Or.inl heq
        · exact Or.inr ⟨(hchain.mpr ⟨hnone, hsome, hpol⟩).2, hmeet⟩
    next hstay =>
      refine ⟨fun heq => Or.inr (Or.inr (Or.inl heq)), fun h => ?_⟩
      rcases h with h | h | heq | ⟨hnone, hsome, hmeet⟩
      · exact absurd h hbase
      · exact absurd h hnames
      · exact heq
      · by_contra hne
        exact hstay ⟨hmeet.token_pos hne, (hchain.mpr ⟨hnone, hsome, hmeet.1⟩).1⟩

theorem Accepted.same_token_iff (hcipher : s₁'.cipher = s₂'.cipher) :
    s₁'.sessionToken = s₂'.sessionToken
      ↔ ((hs.selects s₁ ≠ .none ∨ s₁.cipher ≠ none) ∧ hs.initializeCrypto ≠ none ∧
          hs.sessionToken ≠ []) ∨ s₁.sessionToken = s₂.sessionToken := by
  rw [← h₁.cipher_ne_none_iff]
  by_cases hnew : s₁'.cipher ≠ none ∧ hs.initializeCrypto ≠ none ∧ hs.sessionToken ≠ []
  · refine ⟨fun _ => Or.inl hnew, fun _ => ?_⟩
    obtain ⟨suite, hsuite⟩ := Option.ne_none_iff_exists'.mp hnew.1
    obtain ⟨init, hinit⟩ := Option.ne_none_iff_exists'.mp hnew.2.1
    have hpos := List.length_pos_iff.mpr hnew.2.2
    have ht₁ := h₁.token suite hsuite init hinit hpos
    have ht₂ := h₂.token suite (hcipher ▸ hsuite) init hinit hpos
    rw [ht₁] at ht₂
    exact Except.ok.inj ht₂
  · have hold : s₁'.cipher = none ∨ hs.initializeCrypto = none ∨ ¬ hs.sessionToken.length > 0 := by
      by_contra hno
      obtain ⟨hc, hrest⟩ := not_or.mp hno
      obtain ⟨hi, hlen⟩ := not_or.mp hrest
      exact hnew ⟨hc, hi, List.length_pos_iff.mp (not_not.mp hlen)⟩
    rw [h₁.oldToken hold, h₂.oldToken (hcipher ▸ hold)]
    exact ⟨Or.inr, fun h => h.resolve_left hnew⟩

theorem Accepted.same_compressor_iff (hcomp : hs.compresses s₁ = hs.compresses s₂) :
    s₁'.compressor = s₂'.compressor ↔ hs.compresses s₁ ≠ .none ∨ s₁.compressor = s₂.compressor := by
  have hsel₁ : s₁'.selectedCompression = hs.compresses s₁ := h₁.compression
  have hsel₂ : s₂'.selectedCompression = hs.compresses s₁ := h₂.compression.trans hcomp.symm
  by_cases hnone : hs.compresses s₁ = .none
  · rw [h₁.oldCompressor (hsel₁.trans hnone), h₂.oldCompressor (hsel₂.trans hnone)]
    exact ⟨Or.inr, fun h => h.resolve_left fun hne => hne hnone⟩
  · refine ⟨fun _ => Or.inl hnone, fun _ => ?_⟩
    obtain ⟨c₁, hnew₁, hc₁⟩ := h₁.compressor (by rw [hsel₁]; exact hnone)
    obtain ⟨c₂, hnew₂, hc₂⟩ := h₂.compressor (by rw [hsel₂]; exact hnone)
    rw [hsel₁] at hnew₁
    rw [hsel₂, hnew₁] at hnew₂
    cases hnew₂
    exact hc₁.trans hc₂.symm

/-- **Two sessions agree after a response** exactly if it overwrote everything they differed in. -/
theorem Accepted.sameNegotiated_iff (hkeys : lib.keys.Lawful) (hsame : SameConfig s₁ s₂) :
    SameNegotiated s₁' s₂' ↔ Overwritten hs s₁ s₂ := by
  constructor
  · intro h
    have halgo : hs.selects s₁ = hs.selects s₂ :=
      h₁.algorithm.symm.trans (h.algorithm.trans h₂.algorithm)
    have hcomp : hs.compresses s₁ = hs.compresses s₂ :=
      h₁.compression.symm.trans (h.compression.trans h₂.compression)
    exact
      { algorithm := headD_eq_iff.mp halgo
        cipher := (h₁.same_cipher_iff h₂ hsame halgo).mp ⟨h.cipher, h.policy⟩
        sendIV := (h₁.same_sendIV_iff h₂ hkeys hsame halgo).mp h.sendIV
        recvIV := (h₁.same_recvIV_iff h₂ hkeys hsame halgo h.cipher h.policy).mp h.recvIV
        token := (h₁.same_token_iff h₂ h.cipher).mp h.token
        compression := headD_eq_iff.mp hcomp
        compressor := (h₁.same_compressor_iff h₂ hcomp).mp h.compressor }
  · intro h
    have halgo : hs.selects s₁ = hs.selects s₂ := headD_eq_iff.mpr h.algorithm
    have hcomp : hs.compresses s₁ = hs.compresses s₂ := headD_eq_iff.mpr h.compression
    obtain ⟨hcipher, hpolicy⟩ := (h₁.same_cipher_iff h₂ hsame halgo).mpr h.cipher
    exact
      { algorithm := h₁.algorithm.trans (halgo.trans h₂.algorithm.symm)
        cipher := hcipher
        policy := hpolicy
        sendIV := (h₁.same_sendIV_iff h₂ hkeys hsame halgo).mpr h.sendIV
        recvIV := (h₁.same_recvIV_iff h₂ hkeys hsame halgo hcipher hpolicy).mpr h.recvIV
        token := (h₁.same_token_iff h₂ hcipher).mpr h.token
        compression := h₁.compression.trans (hcomp.trans h₂.compression.symm)
        compressor := (h₁.same_compressor_iff h₂ hcomp).mpr h.compressor
        maxSize := h₁.maxSize.trans h₂.maxSize.symm }

end

/-! ## With compression, and then without -/

/-- A response that selects AES-128-GCM and zstd, and names an IV and a token. -/
def zstdResponse : HandshakeInfo :=
  plainResponse [.aes128Gcm] [.zstd]
    (some { algorithm := .aes128Gcm, iv := List.replicate 12 7, aad := [] })
    (gcmSealed (List.replicate 12 7) [9, 1, 5])

/-- The same without compression. -/
def uncompressedResponse : HandshakeInfo :=
  plainResponse [.aes128Gcm] [.none]
    (some { algorithm := .aes128Gcm, iv := List.replicate 12 7, aad := [] })
    (gcmSealed (List.replicate 12 7) [9, 1, 5])

/-- The session after a handshake with zstd. -/
def sessionAfterZstd (fb : HandshakeBuffers) : ClientSession :=
  (acceptKeyExchangeRsp toyLibraries fb plainSession zstdResponse).2

theorem sessionAfterZstd_cipher (fb : HandshakeBuffers) :
    (sessionAfterZstd fb).cipher = some gcmSuite := rfl

theorem sameConfig_afterZstd (fb : HandshakeBuffers) : SameConfig plainSession (sessionAfterZstd fb) :=
  ⟨rfl, rfl, rfl⟩

/-- A response that assigns every field replaces the session. -/
theorem overwritten_zstd (fb : HandshakeBuffers) :
    Overwritten zstdResponse plainSession (sessionAfterZstd fb) where
  algorithm := Or.inl (by decide)
  cipher := Or.inl (by decide)
  sendIV := Or.inl ⟨_, rfl, by decide⟩
  recvIV := Or.inl ⟨_, rfl, by decide⟩
  token := Or.inl ⟨Or.inl (by decide), by decide, by decide⟩
  compression := Or.inl (by decide)
  compressor := Or.inl (by decide)

/-- **A new handshake replaces the old session** if and only if every negotiated field is
assigned from the response or was the same before: then the two sessions agree, and post and
receive alike. -/
theorem renegotiation_replaces_iff (lib : Libraries) (hkeys : lib.keys.Lawful) (fb : HandshakeBuffers)
    (s₁ s₂ s₁' s₂' : ClientSession) (hsame : SameConfig s₁ s₂) (frameData confirm₁ confirm₂ : Bytes)
    (h₁ : handleKeyExchangeRsp lib fb s₁ frameData = (.ok confirm₁, s₁'))
    (h₂ : handleKeyExchangeRsp lib fb s₂ frameData = (.ok confirm₂, s₂')) :
    ∃ hs, Responds fb frameData hs ∧
      (SameNegotiated s₁' s₂' ∧ BehaveAlike s₁' s₂' ↔ Overwritten hs s₁ s₂) := by
  obtain ⟨hs, key₁, baseIV₁, hrsp, hacc₁⟩ := handleKeyExchangeRsp_ok h₁
  obtain ⟨hs', key₂, baseIV₂, hrsp', hacc₂⟩ := handleKeyExchangeRsp_ok h₂
  obtain rfl := hrsp.unique hrsp'
  refine ⟨hs, hrsp, ?_⟩
  rw [← hacc₁.sameNegotiated_iff hacc₂ hkeys hsame]
  refine ⟨fun h => h.1, fun h => ⟨h, ?_⟩⟩
  apply h.behaveAlike
  · rw [hacc₁.threshold, hacc₂.threshold, hsame.threshold]
  · rw [hacc₁.done, hacc₂.done]

/-- A fresh session and one after a handshake with zstd agree after another one with zstd. -/
theorem renegotiation_replaces_zstd : ∃ (fb : HandshakeBuffers) (confirm₁ confirm₂ : Bytes)
    (s₁' s₂' : ClientSession),
    handleKeyExchangeRsp toyLibraries fb plainSession (fb.buildHandshakeMessage 2 zstdResponse)
      = (.ok confirm₁, s₁') ∧
    handleKeyExchangeRsp toyLibraries fb (sessionAfterZstd fb) (fb.buildHandshakeMessage 2 zstdResponse)
      = (.ok confirm₂, s₂') ∧
    SameNegotiated s₁' s₂' ∧ BehaveAlike s₁' s₂' := by
  obtain ⟨fb, hfb⟩ := exists_handshakeBuffers
  have h₁ := handleKeyExchangeRsp_built hfb toyLibraries plainSession 2 zstdResponse rfl
  have h₂ := handleKeyExchangeRsp_built hfb toyLibraries (sessionAfterZstd fb) 2 zstdResponse rfl
  refine ⟨fb, _, _, _, _, h₁, h₂, ?_⟩
  obtain ⟨hs, hrsp, hiff⟩ := renegotiation_replaces_iff toyLibraries toyLibraries_keys_lawful fb
    plainSession (sessionAfterZstd fb) _ _ (sameConfig_afterZstd fb) _ _ _ h₁ h₂
  have hbuilt : Responds fb (fb.buildHandshakeMessage 2 zstdResponse) zstdResponse :=
    ⟨_, hfb.handshake 2 zstdResponse, rfl⟩
  obtain rfl := hrsp.unique hbuilt
  exact hiff.mpr (overwritten_zstd fb)

/-- After a handshake with zstd, one without compression leaves the compressor: the session
would compress posts and mark them as not compressed. -/
theorem renegotiation_keeps_compressor : ∃ (fb : HandshakeBuffers) (first confirm₁ confirm₂ : Bytes)
    (s₁' s₂' : ClientSession),
    handleKeyExchangeRsp toyLibraries fb plainSession (fb.buildHandshakeMessage 1 zstdResponse)
      = (.ok first, sessionAfterZstd fb) ∧
    SameConfig plainSession (sessionAfterZstd fb) ∧
    handleKeyExchangeRsp toyLibraries fb plainSession
      (fb.buildHandshakeMessage 2 uncompressedResponse) = (.ok confirm₁, s₁') ∧
    handleKeyExchangeRsp toyLibraries fb (sessionAfterZstd fb)
      (fb.buildHandshakeMessage 2 uncompressedResponse) = (.ok confirm₂, s₂') ∧
    s₁'.selectedCompression = .none ∧ s₂'.selectedCompression = .none ∧
    s₁'.compressor = none ∧ s₂'.compressor ≠ none ∧ ¬ SameNegotiated s₁' s₂' := by
  obtain ⟨fb, hfb⟩ := exists_handshakeBuffers
  have h₀ := handleKeyExchangeRsp_built hfb toyLibraries plainSession 1 zstdResponse rfl
  have h₁ := handleKeyExchangeRsp_built hfb toyLibraries plainSession 2 uncompressedResponse rfl
  have h₂ := handleKeyExchangeRsp_built hfb toyLibraries (sessionAfterZstd fb) 2 uncompressedResponse rfl
  refine ⟨fb, _, _, _, _, _, h₀, sameConfig_afterZstd fb, h₁, h₂, rfl, rfl, rfl,
    Option.some_ne_none _, ?_⟩
  intro h
  cases h.compressor

end Robot.Gateway
