import Robot.Gateway.Handshake
import Robot.Gateway.Message

/-!
# Messages are read back

Building and parsing are inverse, kind by kind, with any library that keeps the laws of
`Flat.Library`. The builders' steps each promise what is read at the offset they return (`Builds`);
the promises last while more is built, so at the end they hold together, and the parser finds the
same fields. The slots of a table and the offsets of its accessors meet in `Library.Holds`.

This makes the byte-level functions a session uses (`messageBuffers`), and they are lawful where the
library accepts every message.
-/

namespace Robot.Gateway

open Robot.Lib Robot.Lib.Flat Robot.Lib.Flat.Readers List Opened Library
open Coded (toByte ofByte)

/-! ## Vectors -/

theorem eq_nil_of_not_pos {α : Type} {l : List α} (h : ¬ l.length > 0) : l = [] :=
  length_eq_zero_iff.mp (by omega)

theorem builds_optionalByteVector (data : Bytes) :
    Builds (optionalByteVector data) (fun o m => data.length > 0 → m.objectAt o = some (.bytes data)) :=
  Builds.when 0 (Builds.push _)

theorem builds_optionalString (message : Bytes) :
    Builds (optionalString message) (fun o m =>
      message.length > 0 → m.objectAt o = some (.string message)) :=
  Builds.when 0 (Builds.push _)

theorem builds_optionalCodeVector {α : Type} [Coded α] (codes : List α) :
    Builds (optionalCodeVector codes) (fun o m =>
      codes.length > 0 → m.objectAt o = some (.bytes (codes.map toByte))) :=
  Builds.when 0 (Builds.byteVectorBackwards _)

theorem builds_optionalOffsetVector (refs : List Nat) :
    Builds (optionalOffsetVector refs) (fun o m =>
      refs.length > 0 → m.objectAt o = some (.offsets refs)) :=
  Builds.when 0 (Builds.offsetVectorBackwards _)

/-- The vectors of a crypto table hold its IV and AAD. -/
def CryptoVectors (crypto : Option CryptoInfo) (vectors : Nat × Nat) (m : Message) : Prop :=
  ∀ c ∈ crypto, (c.iv.length > 0 → m.objectAt vectors.1 = some (.bytes c.iv)) ∧
    (c.aad.length > 0 → m.objectAt vectors.2 = some (.bytes c.aad))

theorem builds_cryptoVectors (crypto : Option CryptoInfo) :
    Builds (cryptoVectors crypto) (CryptoVectors crypto) := by
  cases crypto with
  | none => exact (Builds.pure (0, 0)).mono fun _ _ _ c hc => absurd hc (by simp)
  | some c =>
    unfold cryptoVectors
    refine (builds_optionalByteVector c.iv).seq fun iv => ?_
    refine (builds_optionalByteVector c.aad).seq fun aad => ?_
    refine (Builds.pure (iv, aad)).mono ?_
    intro vectors m hvectors haad hiv c' hc'
    subst hvectors
    cases hc'
    exact ⟨hiv, haad⟩

/-- Entry by entry: a signature is found where its table looks for it. -/
theorem accessData_read {P : AccessDataInfo → Nat → Prop} {c : Prop} {parse : Nat → AccessDataInfo}
    {l : List AccessDataInfo} {sigs : List Nat} (hsigs : List.Forall₂ P l sigs) (hc : c) :
    ∀ {ads : List Nat}, List.Forall₂ (fun e o => P e.1 e.2 → c → parse o = e.1) (l.zip sigs) ads →
      ads.map parse = l := by
  induction hsigs with
  | nil =>
    intro ads h
    cases h
    rfl
  | cons hsig _ ih =>
    intro ads h
    cases h with
    | cons had hads => rw [map_cons, had hsig hc, ih hads]

section Readback

variable [Library] {m : Message} {p n slot o : Nat} {fields : List (Nat × Field)}

/-- A code that was added is read back. -/
theorem code_read {α : Type} [Coded α] (h : Holds m p n fields) (slot : Nat) (hslot : slot < n) {code : α}
    (hv : entries slot fields = [.scalar .byte (toByte code)]) :
    ofByte (scalar (place m p) (4 + 2 * slot) .byte) = code := by
  rw [h.scalar slot hslot hv, Coded.ofByte_toByte]

theorem data_read (h : Holds m p n fields) (slot : Nat) (hslot : slot < n) {data : Bytes}
    (hv : entries slot fields = if data.length > 0 then [.offset o] else [])
    (ho : data.length > 0 → m.objectAt o = some (.bytes data)) :
    readInt8VectorAsBytes (place m p) (4 + 2 * slot) = data :=
  h.bytes slot hslot hv ho eq_nil_of_not_pos

theorem codes_read {α : Type} [Coded α] (h : Holds m p n fields) (slot : Nat) (hslot : slot < n)
    {codes : List α} (hv : entries slot fields = if codes.length > 0 then [.offset o] else [])
    (ho : codes.length > 0 → m.objectAt o = some (.bytes (codes.map toByte))) :
    (vector (place m p) (4 + 2 * slot) byteElement).map ofByte = codes := by
  rw [h.bytes slot hslot hv ho fun hno => by rw [eq_nil_of_not_pos hno]; rfl, map_map]
  exact (map_congr_left fun a _ => Coded.ofByte_toByte a).trans (map_id codes)

/-- A nested table, if there is one, is read as `parse` reads it. -/
def NestedRead {α : Type} (parse : Table → α) (x : Option α) (o : Nat) (m : Message) : Prop :=
  accepts m → ∀ a ∈ x, m.IsTable o ∧ parse (place m o) = a

theorem nested_read {α : Type} [DecidableEq α] {parse : Table → α} {x : Option α} (h : Holds m p n fields)
    (slot : Nat) (hslot : slot < n) (hv : entries slot fields = if x ≠ none then [.offset o] else [])
    (ho : NestedRead parse x o m) : (child (place m p) (4 + 2 * slot)).map parse = x := by
  cases x with
  | none => rw [h.childIf slot hslot hv (absurd rfl)]; rfl
  | some a =>
    obtain ⟨htable, hparse⟩ := ho h.accepted a rfl
    rw [h.childIf slot hslot hv fun _ => htable, if_pos (Option.some_ne_none a), Option.map_some, hparse]

/-! ## Nested tables -/

theorem builds_cryptoTable (crypto : Option CryptoInfo) (vectors : Nat × Nat) :
    Builds (cryptoTable crypto vectors) (fun o m =>
      CryptoVectors crypto vectors m → NestedRead parseCrypto crypto o m) := by
  cases crypto with
  | none => exact (Builds.pure 0).mono fun _ _ _ _ _ c hc => absurd hc (by simp)
  | some c =>
    unfold cryptoTable
    apply builds
    · apply add (by decide)
      apply addIf (by decide)
      apply addIf (by decide)
      exact endObject _ _
    intro o m h hvec hm c' hc'
    cases hc'
    obtain ⟨hiv, haad⟩ := hvec c rfl
    have ht : Holds m o _ _ := ⟨hm, h⟩
    have halg : CsBodyPostCrypto.algorithm (place m o) = c.algorithm := code_read ht 0 (by decide) (by simp)
    have hiv' : readInt8VectorAsBytes (place m o) 6 = c.iv := data_read ht 1 (by decide) (by simp) hiv
    have haad' : readInt8VectorAsBytes (place m o) 8 = c.aad := data_read ht 2 (by decide) (by simp) haad
    refine ⟨⟨_, _, h⟩, ?_⟩
    unfold parseCrypto
    rw [halg, hiv', haad']

theorem builds_compressionTable (compression : Option CompressionInfo) :
    Builds (compressionTable compression) (NestedRead parseCompression compression) := by
  cases compression with
  | none => exact (Builds.pure 0).mono fun _ _ _ _ c hc => absurd hc (by simp)
  | some c =>
    unfold compressionTable
    apply builds
    · apply add (by decide)
      apply add (by decide)
      exact endObject _ _
    intro o m h hm c' hc'
    cases hc'
    have ht : Holds m o _ _ := ⟨hm, h⟩
    have htype : CsBodyPostCompression.type (place m o) = c.type := code_read ht 0 (by decide) (by simp)
    have hsize : CsBodyPostCompression.originalSize (place m o) = c.originalSize :=
      ht.scalar 1 (by decide) (by simp)
    refine ⟨⟨_, _, h⟩, ?_⟩
    unfold parseCompression
    rw [htype, hsize]

theorem builds_accessDataTable (ad : AccessDataInfo) (sig : Nat) :
    Builds (accessDataTable (ad, sig)) (fun o m =>
      (ad.signature.length > 0 → m.objectAt sig = some (.bytes ad.signature)) →
        accepts m → parseAccessData (place m o) = ad) := by
  unfold accessDataTable
  apply builds
  · apply add (by decide)
    apply add (by decide)
    apply add (by decide)
    apply add (by decide)
    apply addIf (by decide)
    exact endObject _ _
  intro o m h hsig hm
  have ht : Holds m o _ _ := ⟨hm, h⟩
  have halg : CsBodyHandshakeAccessData.algorithm (place m o) = ad.algorithm :=
    code_read ht 0 (by decide) (by simp)
  have htime : CsBodyHandshakeAccessData.timestamp (place m o) = ad.timestamp :=
    ht.scalar 1 (by decide) (by simp)
  have hnonce1 : CsBodyHandshakeAccessData.nonce1 (place m o) = ad.nonce1 :=
    ht.scalar 2 (by decide) (by simp)
  have hnonce2 : CsBodyHandshakeAccessData.nonce2 (place m o) = ad.nonce2 :=
    ht.scalar 3 (by decide) (by simp)
  have hsig' : readInt8VectorAsBytes (place m o) 12 = ad.signature :=
    data_read ht 4 (by decide) (by simp) hsig
  unfold parseAccessData
  rw [halg, htime, hnonce1, hnonce2, hsig']

/-! ## The head and the message -/

/-- There is a table at `o`, and it is read as `x`. -/
def TableRead {α : Type} (parse : Table → α) (x : α) (o : Nat) (m : Message) : Prop :=
  accepts m → m.IsTable o ∧ parse (place m o) = x

theorem builds_headTable (type : ClientMessageType) (seq : UInt64) :
    Builds (headTable type seq)
      (TableRead (fun t => (ClientMessageHead.type t, ClientMessageHead.sequence t)) (type, seq)) := by
  unfold headTable
  apply builds
  · apply add (by decide)
    apply add (by decide)
    exact endObject _ _
  intro o m h hm
  have ht : Holds m o _ _ := ⟨hm, h⟩
  exact ⟨⟨_, _, h⟩, Prod.ext (code_read ht 0 (by decide) (by simp)) (ht.scalar 1 (by decide) (by simp))⟩

/-- The message around a head and a body. -/
theorem builds_messageTable (head : Nat) (bodyType : ClientMessageBody) (body : Nat) :
    Builds (messageTable head bodyType body) (fun o m => accepts m → m.IsTable head → m.IsTable body →
      m.IsTable o ∧ ClientMessage.head (place m o) = some (place m head) ∧
      ClientMessage.bodyType (place m o) = bodyType ∧
      ClientMessage.body (place m o) = some (place m body)) := by
  unfold messageTable
  apply builds
  · apply add (by decide)
    apply add (by decide)
    apply add (by decide)
    exact endObject _ _
  intro o m h hm hhead hbody
  have ht : Holds m o _ _ := ⟨hm, h⟩
  exact ⟨⟨_, _, h⟩, ht.child 0 (by decide) (by simp) hhead, code_read ht 1 (by decide) (by simp),
    ht.child 2 (by decide) (by simp) hbody⟩

/-- The message is built, and its bytes are parsed to `msg`, unless the library refuses it. -/
def ReadsBack (f : Build Message) (msg : ParsedMessage) : Prop :=
  ∃ m, build f = some m ∧ (accepts m → parseClientMessage (finishedBytes m) = .ok msg)

/-- A body that is read back makes a message that is read back. -/
theorem readsBack {type : ClientMessageType} {seq : UInt64} {bodyType : ClientMessageBody}
    {msg : ParsedMessage} {f : Build Nat} {α : Type} {read : Table → α} {x : α}
    (hf : Builds f (TableRead read x)) (hmsg : ∀ t, read t = x →
      parseBody { type := type, sequence := seq, post := none, rest := none } bodyType t = msg) :
    ReadsBack (f >>= fun o => finishMessage type seq bodyType o) msg := by
  have heq : (f >>= fun o => finishMessage type seq bodyType o)
      = (f >>= fun o => headTable type seq >>= fun head => messageTable head bodyType o)
        >>= fun root => finish root clientMessageIdentifier := by
    simp only [finishMessage, bind_assoc]
  have hall := hf.bind fun o => (builds_headTable type seq).bind fun head =>
    builds_messageTable head bodyType o
  obtain ⟨m, hbuild, hid, body, hbody, head, hhead, hroot⟩ :=
    hall.finish (show clientMessageIdentifier.length = 4 from rfl)
  rw [heq]
  refine ⟨m, hbuild, fun hm => ?_⟩
  obtain ⟨hbodyTable, hparse⟩ := hbody hm
  obtain ⟨hheadTable, hheadRead⟩ := hhead hm
  obtain ⟨hrootTable, hmsgHead, hmsgType, hmsgBody⟩ := hroot hm hheadTable hbodyTable
  have hsize := size m hm
  unfold parseClientMessage
  rw [if_neg (by omega), identifier m hm, hid, if_neg (not_not_intro rfl), root m hm hrootTable]
  have htype : ClientMessageHead.type (place m head) = type := congrArg Prod.fst hheadRead
  have hseq : ClientMessageHead.sequence (place m head) = seq := congrArg Prod.snd hheadRead
  simp only [hmsgHead, hmsgBody, hmsgType, htype, hseq, hmsg _ hparse]

/-! ## Bodies -/

theorem builds_pingTable (timepoint : Int64) :
    Builds (pingTable timepoint) (TableRead CsBodyPing.timepoint timepoint) := by
  unfold pingTable
  apply builds
  · apply add (by decide)
    exact endObject _ _
  intro o m h hm
  have ht : Holds m o _ _ := ⟨hm, h⟩
  exact ⟨⟨_, _, h⟩, ht.scalar 0 (by decide) (by simp)⟩

theorem builds_confirmTable (sessionID handshakeSequence : UInt64) :
    Builds (confirmTable sessionID handshakeSequence)
      (TableRead (fun t => (CsBodyConfirm.sessionId t, CsBodyConfirm.handshakeSequence t))
        (sessionID, handshakeSequence)) := by
  unfold confirmTable
  apply builds
  · apply add (by decide)
    apply add (by decide)
    exact endObject _ _
  intro o m h hm
  have ht : Holds m o _ _ := ⟨hm, h⟩
  exact ⟨⟨_, _, h⟩, Prod.ext (ht.scalar 0 (by decide) (by simp)) (ht.scalar 1 (by decide) (by simp))⟩

theorem builds_kickoffBody (reason subReason : Int32) (message : Bytes) :
    Builds (kickoffBody reason subReason message)
      (TableRead (fun t => (CsBodyKickoff.reason t, CsBodyKickoff.subReason t, CsBodyKickoff.message t))
        (reason, subReason, message)) := by
  unfold kickoffBody
  refine (builds_optionalString message).seq fun msgStr => ?_
  unfold kickoffTable
  apply builds
  · apply add (by decide)
    apply add (by decide)
    apply addIf (by decide)
    exact endObject _ _
  intro o m h hmsg hm
  have ht : Holds m o _ _ := ⟨hm, h⟩
  have hreason : CsBodyKickoff.reason (place m o) = reason := ht.scalar 0 (by decide) (by simp)
  have hsub : CsBodyKickoff.subReason (place m o) = subReason := ht.scalar 1 (by decide) (by simp)
  have hmessage : CsBodyKickoff.message (place m o) = message :=
    ht.string 2 (by decide) (c := message.length > 0) (by simp) hmsg eq_nil_of_not_pos
  exact ⟨⟨_, _, h⟩, Prod.ext hreason (Prod.ext hsub hmessage)⟩

theorem builds_postTable (post : PostInfo) (crypto compression data : Nat) :
    Builds (postTable post crypto compression data) (fun o m =>
      NestedRead parseCrypto post.crypto crypto m →
      NestedRead parseCompression post.compression compression m →
      (post.data.length > 0 → m.objectAt data = some (.bytes post.data)) →
        TableRead parsePostBody post o m) := by
  unfold postTable
  apply builds
  · apply addIf (by decide)
    apply addIf (by decide)
    apply add (by decide)
    apply addIf (by decide)
    exact endObject _ _
  intro o m h hcrypto hcompression hdata hm
  have ht : Holds m o _ _ := ⟨hm, h⟩
  have hcrypto' : (CsBodyPost.crypto (place m o)).map parseCrypto = post.crypto :=
    nested_read ht 0 (by decide) (by simp) hcrypto
  have hcompression' : (CsBodyPost.compression (place m o)).map parseCompression = post.compression :=
    nested_read ht 1 (by decide) (by simp) hcompression
  have hlength : CsBodyPost.length (place m o) = post.length := ht.scalar 2 (by decide) (by simp)
  have hdata' : readInt8VectorAsBytes (place m o) 10 = post.data := data_read ht 3 (by decide) (by simp) hdata
  refine ⟨⟨_, _, h⟩, ?_⟩
  unfold parsePostBody
  rw [hcrypto', hcompression', hlength, hdata']

theorem builds_postBody (post : PostInfo) : Builds (postBody post) (TableRead parsePostBody post) := by
  unfold postBody
  refine (builds_optionalByteVector post.data).seq fun data => ?_
  refine (builds_cryptoVectors post.crypto).seq fun vectors => ?_
  refine (builds_cryptoTable post.crypto vectors).seq fun crypto => ?_
  refine (builds_compressionTable post.compression).seq fun compression => ?_
  refine (builds_postTable post crypto compression data).mono ?_
  intro o m hpost hcompression hcrypto hvectors hdata
  exact hpost (hcrypto hvectors) hcompression hdata

/-- What stands at the offsets a handshake refers to. -/
structure HandshakeParts (hs : HandshakeInfo) (offsets : HandshakeOffsets) (m : Message) : Prop where
  pubKey : hs.publicKey.length > 0 → m.objectAt offsets.pubKey = some (.bytes hs.publicKey)
  sessionToken : hs.sessionToken.length > 0 →
    m.objectAt offsets.sessionToken = some (.bytes hs.sessionToken)
  accessData : ∃ ads : List Nat,
    (hs.accessData.length > 0 → m.objectAt offsets.accessDataVec = some (.offsets ads)) ∧
    (accepts m → ads.map (fun o => parseAccessData (place m o)) = hs.accessData)
  algs : hs.algorithms.length > 0 → m.objectAt offsets.algs = some (.bytes (hs.algorithms.map toByte))
  kdf : hs.kdfTypes.length > 0 → m.objectAt offsets.kdf = some (.bytes (hs.kdfTypes.map toByte))
  compAlg : hs.compressionAlgorithms.length > 0 →
    m.objectAt offsets.compAlg = some (.bytes (hs.compressionAlgorithms.map toByte))
  initCrypto : NestedRead parseCrypto hs.initializeCrypto offsets.initCrypto m

theorem builds_handshakeParts (hs : HandshakeInfo) :
    Builds (handshakeParts hs) (HandshakeParts hs) := by
  unfold handshakeParts
  refine (builds_optionalByteVector hs.publicKey).seq fun pubKey => ?_
  refine (builds_optionalByteVector hs.sessionToken).seq fun sessionToken => ?_
  refine (Builds.mapM hs.accessData fun ad _ => builds_optionalByteVector ad.signature).seq fun sigs => ?_
  refine (builds_cryptoVectors hs.initializeCrypto).seq fun vectors => ?_
  refine (Builds.mapM (hs.accessData.zip sigs) fun e _ => builds_accessDataTable e.1 e.2).seq fun ads => ?_
  refine (builds_optionalOffsetVector ads).seq fun accessDataVec => ?_
  refine (builds_optionalCodeVector hs.algorithms).seq fun algs => ?_
  refine (builds_optionalCodeVector hs.kdfTypes).seq fun kdf => ?_
  refine (builds_optionalCodeVector hs.compressionAlgorithms).seq fun compAlg => ?_
  refine (builds_cryptoTable hs.initializeCrypto vectors).seq fun initCrypto => ?_
  refine (Builds.pure _).mono ?_
  intro offsets m hoffsets hcrypto hcompAlg hkdf halgs hvec hads hvectors hsigs htoken hpubKey
  subst hoffsets
  have hlen : ads.length = hs.accessData.length := by
    rw [← hads.length_eq, length_zip, ← hsigs.length_eq, Nat.min_self]
  exact { pubKey := hpubKey, sessionToken := htoken
          accessData := ⟨ads, fun h => hvec (by omega), fun hm => accessData_read hsigs hm hads⟩
          algs := halgs, kdf := hkdf, compAlg := hcompAlg, initCrypto := hcrypto hvectors }

theorem builds_handshakeTable (hs : HandshakeInfo) (offsets : HandshakeOffsets) :
    Builds (handshakeTable hs offsets) (fun o m => HandshakeParts hs offsets m →
      TableRead parseHandshakeBody hs o m) := by
  unfold handshakeTable
  apply builds
  · apply add (by decide)
    apply add (by decide)
    apply add (by decide)
    apply addIf (by decide)
    apply addIf (by decide)
    apply addIf (by decide)
    apply addIf (by decide)
    apply addIf (by decide)
    apply addIf (by decide)
    apply add (by decide)
    apply addIf (by decide)
    apply add (by decide)
    exact endObject _ _
  intro o m h hparts hm
  have ht : Holds m o _ _ := ⟨hm, h⟩
  obtain ⟨ads, hvec, hads⟩ := hparts.accessData
  have hid : CsBodyHandshake.sessionId (place m o) = hs.sessionID := ht.scalar 0 (by decide) (by simp)
  have hstep : CsBodyHandshake.step (place m o) = hs.step := code_read ht 1 (by decide) (by simp)
  have hkx : CsBodyHandshake.keyExchange (place m o) = hs.keyExchange :=
    code_read ht 2 (by decide) (by simp)
  have hkdf : CsBodyHandshake.kdfType (place m o) = hs.kdfTypes :=
    codes_read ht 3 (by decide) (by simp) hparts.kdf
  have halgs : CsBodyHandshake.algorithms (place m o) = hs.algorithms :=
    codes_read ht 4 (by decide) (by simp) hparts.algs
  have haccess : CsBodyHandshake.accessData (place m o) = ads.map (place m) :=
    ht.tables 5 (by decide) (c := hs.accessData.length > 0) (by simp) hvec fun hno => by
      rw [eq_nil_of_not_pos hno] at hads
      exact map_eq_nil_iff.mp (hads hm)
  have hpubKey : readInt8VectorAsBytes (place m o) 16 = hs.publicKey :=
    data_read ht 6 (by decide) (by simp) hparts.pubKey
  have hcrypto : (CsBodyHandshake.initializeCrypto (place m o)).map parseCrypto = hs.initializeCrypto :=
    nested_read ht 7 (by decide) (by simp) hparts.initCrypto
  have hcomp : CsBodyHandshake.compressionAlgorithm (place m o) = hs.compressionAlgorithms :=
    codes_read ht 8 (by decide) (by simp) hparts.compAlg
  have hmax : CsBodyHandshake.maxPostMessageSize (place m o) = hs.maxPostMessageSize :=
    ht.scalar 9 (by decide) (by simp)
  have htoken : readInt8VectorAsBytes (place m o) 24 = hs.sessionToken :=
    data_read ht 10 (by decide) (by simp) hparts.sessionToken
  have hseq : CsBodyHandshake.handshakeSequence (place m o) = hs.handshakeSequence :=
    ht.scalar 11 (by decide) (by simp)
  refine ⟨⟨_, _, h⟩, ?_⟩
  unfold parseHandshakeBody
  rw [hid, hstep, hkx, hkdf, halgs, haccess, hpubKey, hcrypto, hcomp, hmax, htoken, hseq, map_map]
  have hread : ads.map (parseAccessData ∘ place m) = hs.accessData := hads hm
  rw [hread]

theorem builds_handshakeBody (hs : HandshakeInfo) :
    Builds (handshakeBody hs) (TableRead parseHandshakeBody hs) := by
  unfold handshakeBody
  exact (builds_handshakeParts hs).seq fun offsets => builds_handshakeTable hs offsets

/-! ## Whole messages -/

theorem readsBack_handshake (seq : UInt64) (hs : HandshakeInfo) :
    ReadsBack (buildHandshakeMessage seq hs)
      { type := .handshake, sequence := seq, post := none, rest := some (.handshake hs) } :=
  readsBack (builds_handshakeBody hs) fun t h => by cases h; rfl

theorem readsBack_post (seq : UInt64) (post : PostInfo) :
    ReadsBack (buildPostMessage seq post)
      { type := .post, sequence := seq, post := some post, rest := none } :=
  readsBack (builds_postBody post) fun t h => by cases h; rfl

/-- A ping or a pong. -/
theorem readsBack_ping (type : ClientMessageType) (seq : UInt64) (timepoint : Int64) :
    ReadsBack (pingTable timepoint >>= fun o => finishMessage type seq .ping o)
      { type := type, sequence := seq, post := none, rest := some (.ping timepoint) } :=
  readsBack (builds_pingTable timepoint) fun t h => by cases h; rfl

theorem readsBack_confirm (seq sessionID handshakeSequence : UInt64) :
    ReadsBack (buildConfirmMessage seq sessionID handshakeSequence)
      { type := .confirm, sequence := seq, post := none
        rest := some (.confirm sessionID handshakeSequence) } :=
  readsBack (builds_confirmTable sessionID handshakeSequence) fun t h => by cases h; rfl

theorem readsBack_kickoff (seq : UInt64) (reason subReason : Int32) (message : Bytes) :
    ReadsBack (buildKickoffMessage seq reason subReason message)
      { type := .kickoff, sequence := seq, post := none
        rest := some (.kickoff reason subReason message) } :=
  readsBack (builds_kickoffBody reason subReason message) fun t h => by cases h; rfl

/-- **Building and parsing are inverse** on every kind of message. -/
theorem parse_inverts_build (seq : UInt64) :
    (∀ hs : HandshakeInfo, ReadsBack (buildHandshakeMessage seq hs)
      { type := .handshake, sequence := seq, post := none, rest := some (.handshake hs) }) ∧
    (∀ post : PostInfo, ReadsBack (buildPostMessage seq post)
      { type := .post, sequence := seq, post := some post, rest := none }) ∧
    (∀ timepoint : Int64, ReadsBack (buildPingMessage seq timepoint)
      { type := .ping, sequence := seq, post := none, rest := some (.ping timepoint) }) ∧
    (∀ timepoint : Int64, ReadsBack (buildPongMessage seq timepoint)
      { type := .pong, sequence := seq, post := none, rest := some (.ping timepoint) }) ∧
    (∀ sessionID handshakeSequence : UInt64,
      ReadsBack (buildConfirmMessage seq sessionID handshakeSequence)
        { type := .confirm, sequence := seq, post := none
          rest := some (.confirm sessionID handshakeSequence) }) ∧
    (∀ (reason subReason : Int32) (message : Bytes),
      ReadsBack (buildKickoffMessage seq reason subReason message)
        { type := .kickoff, sequence := seq, post := none
          rest := some (.kickoff reason subReason message) }) :=
  ⟨readsBack_handshake seq, readsBack_post seq, readsBack_ping .ping seq, readsBack_ping .pong seq,
    readsBack_confirm seq, readsBack_kickoff seq⟩

/-! ## The functions on bytes -/

/-- The bytes of a message. -/
def bytes (f : Build Message) : Bytes := ((build f).map finishedBytes).getD []

theorem ReadsBack.parse_bytes {f : Build Message} {msg : ParsedMessage} (h : ReadsBack f msg)
    (hall : ∀ m : Message, accepts m) : parseClientMessage (bytes f) = .ok msg := by
  obtain ⟨m, hm, hparse⟩ := h
  unfold bytes
  rw [hm]
  exact hparse (hall m)

/-- The package `v2` as a session uses it. -/
def messageBuffers : HandshakeBuffers where
  parseClientMessage := parseClientMessage
  buildPostMessage seq post := bytes (buildPostMessage seq post)
  buildHandshakeMessage seq hs := bytes (buildHandshakeMessage seq hs)
  buildConfirmMessage seq sessionID handshakeSequence :=
    bytes (buildConfirmMessage seq sessionID handshakeSequence)

end Readback

/-- Build and parse preserve the fields of posts and handshakes. -/
structure HandshakeBuffers.Lawful (fb : HandshakeBuffers) : Prop where
  post : fb.toFlatBuffers.Lawful
  handshake : ∀ seq hs, fb.parseClientMessage (fb.buildHandshakeMessage seq hs)
    = .ok { type := .handshake, sequence := seq, post := none, rest := some (.handshake hs) }

theorem messageBuffers_lawful [Library] (hall : ∀ m : Message, accepts m) : messageBuffers.Lawful where
  post := fun seq post => (readsBack_post seq post).parse_bytes hall
  handshake := fun seq hs => (readsBack_handshake seq hs).parse_bytes hall

/-- A built response is handled as the response it was built from. -/
theorem handleKeyExchangeRsp_built {fb : HandshakeBuffers} (hfb : fb.Lawful) (lib : Libraries)
    (s : ClientSession) (seq : UInt64) (hs : HandshakeInfo) (hstep : hs.step = .keyExchangeRsp) :
    handleKeyExchangeRsp lib fb s (fb.buildHandshakeMessage seq hs)
      = ((acceptKeyExchangeRsp lib fb s hs).1.mapError .other, (acceptKeyExchangeRsp lib fb s hs).2) := by
  unfold handleKeyExchangeRsp
  rw [hfb.handshake]
  simp only
  rw [if_neg (by rw [hstep]; exact fun h => h rfl)]

/-- With some library every field is preserved. -/
theorem exists_handshakeBuffers : ∃ fb : HandshakeBuffers, fb.Lawful := by
  obtain ⟨lib, hall⟩ := exists_library
  exact ⟨messageBuffers, messageBuffers_lawful hall⟩

end Robot.Gateway
