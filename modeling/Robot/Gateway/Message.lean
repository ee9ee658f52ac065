import Robot.Lib.FlatBuffers
import Robot.Gateway.Codes

/-!
# Messages

The package `v2`: the generated accessors and builders of the tables, with their slots and
vtable offsets, and `exported.go`, which builds and parses whole messages with them. FlatBuffers
themselves are a parameter (`Flat.Readers`): the builders write the log of their calls, whose bytes
the library makes, and the parser reads bytes with the library's functions.

The slot of a field is written in its `add` function, and the offset in its accessor or, for
byte vectors, in the parser; offset `4 + 2 * slot` belongs to `slot`.
-/

namespace Robot.Gateway

open Robot.Lib Robot.Lib.Flat Robot.Lib.Flat.Readers
open Coded (toByte ofByte)

/-- `client_message_body`. -/
inductive ClientMessageBody where
  | none
  | post
  | kickoff
  | ping
  | handshake
  | confirm
  | other (code : UInt8) (free : code ∉ [0, 1, 2, 3, 4, 5])
  deriving DecidableEq

instance : Coded ClientMessageBody where
  toByte
    | .none => 0
    | .post => 1
    | .kickoff => 2
    | .ping => 3
    | .handshake => 4
    | .confirm => 5
    | .other code _ => code
  ofByte b :=
    if free : b ∉ [0, 1, 2, 3, 4, 5] then .other b free
    else
      match b with
      | 1 => .post
      | 2 => .kickoff
      | 3 => .ping
      | 4 => .handshake
      | 5 => .confirm
      | _ => .none
  ofByte_toByte a := by
    cases a with
    | other code free => exact dif_pos free
    | _ => rfl

/-! ## The tables -/

variable [Readers]

namespace ClientMessage

def start : Build Unit := startObject 3
def addHead (head : Nat) : Build Unit := prependUOffsetTSlot 0 head
def addBodyType (bodyType : ClientMessageBody) : Build Unit := prependByteSlot 1 (toByte bodyType)
def addBody (body : Nat) : Build Unit := prependUOffsetTSlot 2 body

def head (t : Table) : Option Table := child t 4
def bodyType (t : Table) : ClientMessageBody := ofByte (scalar t 6 .byte)
def body (t : Table) : Option Table := child t 8

end ClientMessage

namespace ClientMessageHead

def start : Build Unit := startObject 2
def addType (type : ClientMessageType) : Build Unit := prependByteSlot 0 (toByte type)
def addSequence (sequence : UInt64) : Build Unit := prependUint64Slot 1 sequence

def type (t : Table) : ClientMessageType := ofByte (scalar t 4 .byte)
def sequence (t : Table) : UInt64 := scalar t 6 .uint64

end ClientMessageHead

namespace CsBodyPost

def start : Build Unit := startObject 4
def addCrypto (crypto : Nat) : Build Unit := prependUOffsetTSlot 0 crypto
def addCompression (compression : Nat) : Build Unit := prependUOffsetTSlot 1 compression
def addLength (length : UInt64) : Build Unit := prependUint64Slot 2 length
def addData (data : Nat) : Build Unit := prependUOffsetTSlot 3 data

def crypto (t : Table) : Option Table := child t 4
def compression (t : Table) : Option Table := child t 6
def length (t : Table) : UInt64 := scalar t 8 .uint64

end CsBodyPost

namespace CsBodyPostCrypto

def start : Build Unit := startObject 3
def addAlgorithm (algorithm : CryptoAlgorithm) : Build Unit := prependByteSlot 0 (toByte algorithm)
def addIv (iv : Nat) : Build Unit := prependUOffsetTSlot 1 iv
def addAad (aad : Nat) : Build Unit := prependUOffsetTSlot 2 aad

def algorithm (t : Table) : CryptoAlgorithm := ofByte (scalar t 4 .byte)

end CsBodyPostCrypto

namespace CsBodyPostCompression

def start : Build Unit := startObject 2
def addType (type : CompressionAlgorithm) : Build Unit := prependByteSlot 0 (toByte type)
def addOriginalSize (originalSize : UInt64) : Build Unit := prependUint64Slot 1 originalSize

def type (t : Table) : CompressionAlgorithm := ofByte (scalar t 4 .byte)
def originalSize (t : Table) : UInt64 := scalar t 6 .uint64

end CsBodyPostCompression

namespace CsBodyPing

def start : Build Unit := startObject 1
def addTimepoint (timepoint : Int64) : Build Unit := prependInt64Slot 0 timepoint

def timepoint (t : Table) : Int64 := scalar t 4 .int64

end CsBodyPing

namespace CsBodyKickoff

def start : Build Unit := startObject 3
def addReason (reason : Int32) : Build Unit := prependInt32Slot 0 reason
def addSubReason (subReason : Int32) : Build Unit := prependInt32Slot 1 subReason
def addMessage (message : Nat) : Build Unit := prependUOffsetTSlot 2 message

def reason (t : Table) : Int32 := scalar t 4 .int32
def subReason (t : Table) : Int32 := scalar t 6 .int32
def message (t : Table) : Bytes := string t 8

end CsBodyKickoff

namespace CsBodyConfirm

def start : Build Unit := startObject 2
def addSessionId (sessionId : UInt64) : Build Unit := prependUint64Slot 0 sessionId
def addHandshakeSequence (handshakeSequence : UInt64) : Build Unit :=
  prependUint64Slot 1 handshakeSequence

def sessionId (t : Table) : UInt64 := scalar t 4 .uint64
def handshakeSequence (t : Table) : UInt64 := scalar t 6 .uint64

end CsBodyConfirm

namespace CsBodyHandshakeAccessData

def start : Build Unit := startObject 5
def addAlgorithm (algorithm : AccessDataAlgorithm) : Build Unit := prependByteSlot 0 (toByte algorithm)
def addTimestamp (timestamp : Int64) : Build Unit := prependInt64Slot 1 timestamp
def addNonce1 (nonce1 : UInt64) : Build Unit := prependUint64Slot 2 nonce1
def addNonce2 (nonce2 : UInt64) : Build Unit := prependUint64Slot 3 nonce2
def addSignature (signature : Nat) : Build Unit := prependUOffsetTSlot 4 signature

def algorithm (t : Table) : AccessDataAlgorithm := ofByte (scalar t 4 .byte)
def timestamp (t : Table) : Int64 := scalar t 6 .int64
def nonce1 (t : Table) : UInt64 := scalar t 8 .uint64
def nonce2 (t : Table) : UInt64 := scalar t 10 .uint64

end CsBodyHandshakeAccessData

namespace CsBodyHandshake

def start : Build Unit := startObject 12
def addSessionId (sessionId : UInt64) : Build Unit := prependUint64Slot 0 sessionId
def addStep (step : HandshakeStep) : Build Unit := prependByteSlot 1 (toByte step)
def addKeyExchange (keyExchange : KeyExchange) : Build Unit := prependByteSlot 2 (toByte keyExchange)
def addKdfType (kdfType : Nat) : Build Unit := prependUOffsetTSlot 3 kdfType
def addAlgorithms (algorithms : Nat) : Build Unit := prependUOffsetTSlot 4 algorithms
def addAccessData (accessData : Nat) : Build Unit := prependUOffsetTSlot 5 accessData
def addPublicKey (publicKey : Nat) : Build Unit := prependUOffsetTSlot 6 publicKey
def addInitializeCrypto (initializeCrypto : Nat) : Build Unit := prependUOffsetTSlot 7 initializeCrypto
def addCompressionAlgorithm (compressionAlgorithm : Nat) : Build Unit :=
  prependUOffsetTSlot 8 compressionAlgorithm
def addMaxPostMessageSize (maxPostMessageSize : UInt64) : Build Unit :=
  prependUint64Slot 9 maxPostMessageSize
def addSessionToken (sessionToken : Nat) : Build Unit := prependUOffsetTSlot 10 sessionToken
def addHandshakeSequence (handshakeSequence : UInt64) : Build Unit :=
  prependUint64Slot 11 handshakeSequence

def sessionId (t : Table) : UInt64 := scalar t 4 .uint64
def step (t : Table) : HandshakeStep := ofByte (scalar t 6 .byte)
def keyExchange (t : Table) : KeyExchange := ofByte (scalar t 8 .byte)
def kdfType (t : Table) : List KdfAlgorithm := (vector t 10 byteElement).map ofByte
def algorithms (t : Table) : List CryptoAlgorithm := (vector t 12 byteElement).map ofByte
def accessData (t : Table) : List Table := vector t 14 tableElement
def initializeCrypto (t : Table) : Option Table := child t 18
def compressionAlgorithm (t : Table) : List CompressionAlgorithm := (vector t 20 byteElement).map ofByte
def maxPostMessageSize (t : Table) : UInt64 := scalar t 22 .uint64
def handshakeSequence (t : Table) : UInt64 := scalar t 26 .uint64

end CsBodyHandshake

/-! ## Builders -/

/-- `if len(data) > 0 { offset = builder.CreateByteVector(data) }`. -/
def optionalByteVector (data : Bytes) : Build Nat :=
  if data.length > 0 then createByteVector data else pure 0

/-- `if message != "" { msgStrOffset = builder.CreateString(message) }`. -/
def optionalString (message : Bytes) : Build Nat :=
  if message.length > 0 then createString message else pure 0

/-- `if c { … }` around an `Add`. -/
def addWhen (c : Prop) [Decidable c] (add : Build Unit) : Build Unit := if c then add else pure ()

/-- A vector of codes, if there are any; its elements are prepended from the last one on. -/
def optionalCodeVector {α : Type} [Coded α] (codes : List α) : Build Nat :=
  if codes.length > 0 then byteVectorBackwards (codes.map toByte) else pure 0

/-- A vector of tables, if there are any, from the last one on. -/
def optionalOffsetVector (refs : List Nat) : Build Nat :=
  if refs.length > 0 then offsetVectorBackwards refs else pure 0

/-- The IV and AAD vectors of a crypto table. -/
def cryptoVectors (crypto : Option CryptoInfo) : Build (Nat × Nat) :=
  match crypto with
  | .none => pure (0, 0)
  | some crypto => do
    let iv ← optionalByteVector crypto.iv
    let aad ← optionalByteVector crypto.aad
    pure (iv, aad)

def cryptoTable (crypto : Option CryptoInfo) (vectors : Nat × Nat) : Build Nat :=
  match crypto with
  | .none => pure 0
  | some crypto => do
    CsBodyPostCrypto.start
    CsBodyPostCrypto.addAlgorithm crypto.algorithm
    addWhen (crypto.iv.length > 0) (CsBodyPostCrypto.addIv vectors.1)
    addWhen (crypto.aad.length > 0) (CsBodyPostCrypto.addAad vectors.2)
    endObject

def compressionTable (compression : Option CompressionInfo) : Build Nat :=
  match compression with
  | .none => pure 0
  | some compression => do
    CsBodyPostCompression.start
    CsBodyPostCompression.addType compression.type
    CsBodyPostCompression.addOriginalSize compression.originalSize
    endObject

def accessDataTable (entry : AccessDataInfo × Nat) : Build Nat := do
  CsBodyHandshakeAccessData.start
  CsBodyHandshakeAccessData.addAlgorithm entry.1.algorithm
  CsBodyHandshakeAccessData.addTimestamp entry.1.timestamp
  CsBodyHandshakeAccessData.addNonce1 entry.1.nonce1
  CsBodyHandshakeAccessData.addNonce2 entry.1.nonce2
  addWhen (entry.1.signature.length > 0) (CsBodyHandshakeAccessData.addSignature entry.2)
  endObject

/-- `"ATGW"`. -/
def clientMessageIdentifier : Bytes := [65, 84, 71, 87]

def headTable (type : ClientMessageType) (seq : UInt64) : Build Nat := do
  ClientMessageHead.start
  ClientMessageHead.addType type
  ClientMessageHead.addSequence seq
  endObject

def messageTable (head : Nat) (bodyType : ClientMessageBody) (body : Nat) : Build Nat := do
  ClientMessage.start
  ClientMessage.addHead head
  ClientMessage.addBodyType bodyType
  ClientMessage.addBody body
  endObject

/-- The end of every builder: the head, the message, and `Finishclient_messageBuffer`. -/
def finishMessage (type : ClientMessageType) (seq : UInt64) (bodyType : ClientMessageBody)
    (body : Nat) : Build Message := do
  let headOffset ← headTable type seq
  let msgOffset ← messageTable headOffset bodyType body
  finish msgOffset clientMessageIdentifier

/-- The vectors and tables a handshake refers to. -/
structure HandshakeOffsets where
  pubKey : Nat
  sessionToken : Nat
  accessDataVec : Nat
  algs : Nat
  kdf : Nat
  compAlg : Nat
  initCrypto : Nat

/-- Phases 1 to 4 of `BuildHandshakeMessage`. -/
def handshakeParts (hs : HandshakeInfo) : Build HandshakeOffsets := do
  let pubKey ← optionalByteVector hs.publicKey
  let sessionToken ← optionalByteVector hs.sessionToken
  let sigs ← hs.accessData.mapM fun ad => optionalByteVector ad.signature
  let initCryptoVectors ← cryptoVectors hs.initializeCrypto
  let ads ← (hs.accessData.zip sigs).mapM accessDataTable
  let accessDataVec ← optionalOffsetVector ads
  let algs ← optionalCodeVector hs.algorithms
  let kdf ← optionalCodeVector hs.kdfTypes
  let compAlg ← optionalCodeVector hs.compressionAlgorithms
  let initCrypto ← cryptoTable hs.initializeCrypto initCryptoVectors
  pure ⟨pubKey, sessionToken, accessDataVec, algs, kdf, compAlg, initCrypto⟩

/-- Phase 5: the table of the body. -/
def handshakeTable (hs : HandshakeInfo) (offsets : HandshakeOffsets) : Build Nat := do
  CsBodyHandshake.start
  CsBodyHandshake.addSessionId hs.sessionID
  CsBodyHandshake.addStep hs.step
  CsBodyHandshake.addKeyExchange hs.keyExchange
  addWhen (hs.kdfTypes.length > 0) (CsBodyHandshake.addKdfType offsets.kdf)
  addWhen (hs.algorithms.length > 0) (CsBodyHandshake.addAlgorithms offsets.algs)
  addWhen (hs.accessData.length > 0) (CsBodyHandshake.addAccessData offsets.accessDataVec)
  addWhen (hs.publicKey.length > 0) (CsBodyHandshake.addPublicKey offsets.pubKey)
  addWhen (hs.initializeCrypto ≠ none) (CsBodyHandshake.addInitializeCrypto offsets.initCrypto)
  addWhen (hs.compressionAlgorithms.length > 0)
    (CsBodyHandshake.addCompressionAlgorithm offsets.compAlg)
  CsBodyHandshake.addMaxPostMessageSize hs.maxPostMessageSize
  addWhen (hs.sessionToken.length > 0) (CsBodyHandshake.addSessionToken offsets.sessionToken)
  CsBodyHandshake.addHandshakeSequence hs.handshakeSequence
  endObject

def handshakeBody (hs : HandshakeInfo) : Build Nat := do
  let offsets ← handshakeParts hs
  handshakeTable hs offsets

/-- `BuildHandshakeMessage`. -/
def buildHandshakeMessage (seq : UInt64) (hs : HandshakeInfo) : Build Message := do
  let handshakeOffset ← handshakeBody hs
  finishMessage .handshake seq .handshake handshakeOffset

def postTable (post : PostInfo) (crypto compression data : Nat) : Build Nat := do
  CsBodyPost.start
  addWhen (post.crypto ≠ none) (CsBodyPost.addCrypto crypto)
  addWhen (post.compression ≠ none) (CsBodyPost.addCompression compression)
  CsBodyPost.addLength post.length
  addWhen (post.data.length > 0) (CsBodyPost.addData data)
  endObject

def postBody (post : PostInfo) : Build Nat := do
  let dataOffset ← optionalByteVector post.data
  let vectors ← cryptoVectors post.crypto
  let cryptoOffset ← cryptoTable post.crypto vectors
  let compressionOffset ← compressionTable post.compression
  postTable post cryptoOffset compressionOffset dataOffset

/-- `BuildPostMessage`. -/
def buildPostMessage (seq : UInt64) (post : PostInfo) : Build Message := do
  let postOffset ← postBody post
  finishMessage .post seq .post postOffset

def pingTable (timepoint : Int64) : Build Nat := do
  CsBodyPing.start
  CsBodyPing.addTimepoint timepoint
  endObject

/-- `BuildPingMessage`. -/
def buildPingMessage (seq : UInt64) (timepoint : Int64) : Build Message := do
  let pingOffset ← pingTable timepoint
  finishMessage .ping seq .ping pingOffset

/-- `BuildPongMessage`; the body is that of a ping. -/
def buildPongMessage (seq : UInt64) (timepoint : Int64) : Build Message := do
  let pingOffset ← pingTable timepoint
  finishMessage .pong seq .ping pingOffset

def confirmTable (sessionID handshakeSequence : UInt64) : Build Nat := do
  CsBodyConfirm.start
  CsBodyConfirm.addSessionId sessionID
  CsBodyConfirm.addHandshakeSequence handshakeSequence
  endObject

/-- `BuildConfirmMessage`. -/
def buildConfirmMessage (seq sessionID handshakeSequence : UInt64) : Build Message := do
  let confirmOffset ← confirmTable sessionID handshakeSequence
  finishMessage .confirm seq .confirm confirmOffset

def kickoffTable (reason subReason : Int32) (message : Bytes) (msgStr : Nat) : Build Nat := do
  CsBodyKickoff.start
  CsBodyKickoff.addReason reason
  CsBodyKickoff.addSubReason subReason
  addWhen (message.length > 0) (CsBodyKickoff.addMessage msgStr)
  endObject

def kickoffBody (reason subReason : Int32) (message : Bytes) : Build Nat := do
  let msgStrOffset ← optionalString message
  kickoffTable reason subReason message msgStrOffset

/-- `BuildKickoffMessage`. -/
def buildKickoffMessage (seq : UInt64) (reason subReason : Int32) (message : Bytes) : Build Message := do
  let kickoffOffset ← kickoffBody reason subReason message
  finishMessage .kickoff seq .kickoff kickoffOffset

/-! ## Parser -/

/-- `readInt8VectorAsBytes`; the copy of the slice is that of its bytes. -/
def readInt8VectorAsBytes (t : Table) (slotVOffset : Nat) : Bytes := vector t slotVOffset byteElement

/-- The fields of a crypto table. -/
def parseCrypto (t : Table) : CryptoInfo :=
  { algorithm := CsBodyPostCrypto.algorithm t, iv := readInt8VectorAsBytes t 6, aad := readInt8VectorAsBytes t 8 }

def parseCompression (t : Table) : CompressionInfo :=
  { type := CsBodyPostCompression.type t, originalSize := CsBodyPostCompression.originalSize t }

def parseAccessData (t : Table) : AccessDataInfo :=
  { algorithm := CsBodyHandshakeAccessData.algorithm t
    timestamp := CsBodyHandshakeAccessData.timestamp t
    nonce1 := CsBodyHandshakeAccessData.nonce1 t
    nonce2 := CsBodyHandshakeAccessData.nonce2 t
    signature := readInt8VectorAsBytes t 12 }

/-- `parseHandshakeBody`. -/
def parseHandshakeBody (t : Table) : HandshakeInfo :=
  { sessionID := CsBodyHandshake.sessionId t
    step := CsBodyHandshake.step t
    keyExchange := CsBodyHandshake.keyExchange t
    maxPostMessageSize := CsBodyHandshake.maxPostMessageSize t
    handshakeSequence := CsBodyHandshake.handshakeSequence t
    publicKey := readInt8VectorAsBytes t 16
    sessionToken := readInt8VectorAsBytes t 24
    kdfTypes := CsBodyHandshake.kdfType t
    algorithms := CsBodyHandshake.algorithms t
    compressionAlgorithms := CsBodyHandshake.compressionAlgorithm t
    accessData := (CsBodyHandshake.accessData t).map parseAccessData
    initializeCrypto := (CsBodyHandshake.initializeCrypto t).map parseCrypto }

/-- `parsePostBody`. -/
def parsePostBody (t : Table) : PostInfo :=
  { length := CsBodyPost.length t
    data := readInt8VectorAsBytes t 10
    crypto := (CsBodyPost.crypto t).map parseCrypto
    compression := (CsBodyPost.compression t).map parseCompression }

/-- The `switch` over the type of the body. -/
def parseBody (msg : ParsedMessage) (bodyType : ClientMessageBody) (t : Table) : ParsedMessage :=
  match bodyType with
  | .handshake => { msg with rest := some (.handshake (parseHandshakeBody t)) }
  | .post => { msg with post := some (parsePostBody t) }
  | .ping => { msg with rest := some (.ping (CsBodyPing.timepoint t)) }
  | .kickoff =>
    { msg with
      rest := some (.kickoff (CsBodyKickoff.reason t) (CsBodyKickoff.subReason t) (CsBodyKickoff.message t)) }
  | .confirm =>
    { msg with
      rest := some (.confirm (CsBodyConfirm.sessionId t) (CsBodyConfirm.handshakeSequence t)) }
  | _ => msg

/-- `ParseClientMessage`. -/
def parseClientMessage (buf : Bytes) : Except String ParsedMessage :=
  if buf.length < 8 then .error "buffer too small for client_message"
  else if bufferIdentifier buf ≠ clientMessageIdentifier then
    .error "invalid message identifier: expected ATGW"
  else
    let msg := rootTable buf
    match ClientMessage.head msg with
    | .none => .error "missing message head"
    | some head =>
      let result : ParsedMessage :=
        { type := ClientMessageHead.type head, sequence := ClientMessageHead.sequence head
          post := none, rest := none }
      match ClientMessage.body msg with
      | .none => .ok result
      | some body => .ok (parseBody result (ClientMessage.bodyType msg) body)

end Robot.Gateway
