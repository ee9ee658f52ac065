import Robot.Gateway.Session

/-!
# Codes on the wire

The enumerations of the protocol are bytes on the wire (`enum … : uint8`). A code without a
name is kept (`other`), so a type has exactly one value per byte.
-/

namespace Robot.Gateway

/-- A type with one value per byte. -/
class Coded (α : Type) where
  toByte : α → UInt8
  ofByte : UInt8 → α
  ofByte_toByte : ∀ a, ofByte (toByte a) = a

open Coded

instance : Coded CryptoAlgorithm where
  toByte
    | .none => 0
    | .xxtea => 1
    | .aes128Cbc => 11
    | .aes192Cbc => 12
    | .aes256Cbc => 13
    | .aes128Gcm => 14
    | .aes192Gcm => 15
    | .aes256Gcm => 16
    | .chacha20 => 31
    | .chacha20Poly1305Ietf => 32
    | .xchacha20Poly1305Ietf => 33
    | .other code _ => code
  ofByte b :=
    if free : b ∉ [0, 1, 11, 12, 13, 14, 15, 16, 31, 32, 33] then .other b free
    else
      match b with
      | 1 => .xxtea
      | 11 => .aes128Cbc
      | 12 => .aes192Cbc
      | 13 => .aes256Cbc
      | 14 => .aes128Gcm
      | 15 => .aes192Gcm
      | 16 => .aes256Gcm
      | 31 => .chacha20
      | 32 => .chacha20Poly1305Ietf
      | 33 => .xchacha20Poly1305Ietf
      | _ => .none
  ofByte_toByte a := by
    cases a with
    | other code free => exact dif_pos free
    | _ => rfl

instance : Coded CompressionAlgorithm where
  toByte
    | .none => 0
    | .zstd => 10
    | .lz4 => 20
    | .snappy => 30
    | .zlib => 40
    | .other code _ => code
  ofByte b :=
    if free : b ∉ [0, 10, 20, 30, 40] then .other b free
    else
      match b with
      | 10 => .zstd
      | 20 => .lz4
      | 30 => .snappy
      | 40 => .zlib
      | _ => .none
  ofByte_toByte a := by
    cases a with
    | other code free => exact dif_pos free
    | _ => rfl

instance : Coded KeyExchange where
  toByte
    | .none => 0
    | .x25519 => 1
    | .secp256r1 => 2
    | .secp384r1 => 3
    | .secp521r1 => 4
    | .other code _ => code
  ofByte b :=
    if free : b ∉ [0, 1, 2, 3, 4] then .other b free
    else
      match b with
      | 1 => .x25519
      | 2 => .secp256r1
      | 3 => .secp384r1
      | 4 => .secp521r1
      | _ => .none
  ofByte_toByte a := by
    cases a with
    | other code free => exact dif_pos free
    | _ => rfl

instance : Coded KdfAlgorithm where
  toByte
    | .hkdfSha256 => 0
    | .other code _ => code
  ofByte b := if free : b ≠ 0 then .other b free else .hkdfSha256
  ofByte_toByte a := by
    cases a with
    | other code free => exact dif_pos free
    | _ => rfl

instance : Coded AccessDataAlgorithm where
  toByte
    | .hmacSha256 => 0
    | .other code _ => code
  ofByte b := if free : b ≠ 0 then .other b free else .hmacSha256
  ofByte_toByte a := by
    cases a with
    | other code free => exact dif_pos free
    | _ => rfl

instance : Coded HandshakeStep where
  toByte
    | .keyExchangeReq => 0
    | .keyExchangeRsp => 1
    | .reconnectReq => 11
    | .reconnectRsp => 12
    | .other code _ => code
  ofByte b :=
    if free : b ∉ [0, 1, 11, 12] then .other b free
    else
      match b with
      | 1 => .keyExchangeRsp
      | 11 => .reconnectReq
      | 12 => .reconnectRsp
      | _ => .keyExchangeReq
  ofByte_toByte a := by
    cases a with
    | other code free => exact dif_pos free
    | _ => rfl

instance : Coded ClientMessageType where
  toByte
    | .unknown => 0
    | .post => 1
    | .handshake => 2
    | .ping => 3
    | .pong => 4
    | .kickoff => 5
    | .confirm => 6
    | .other code _ => code
  ofByte b :=
    if free : b ∉ [0, 1, 2, 3, 4, 5, 6] then .other b free
    else
      match b with
      | 1 => .post
      | 2 => .handshake
      | 3 => .ping
      | 4 => .pong
      | 5 => .kickoff
      | 6 => .confirm
      | _ => .unknown
  ofByte_toByte a := by
    cases a with
    | other code free => exact dif_pos free
    | _ => rfl

end Robot.Gateway
