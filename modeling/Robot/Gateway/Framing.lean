import Robot.Lib.Blocks

/-!
# Frames

`framing.go` and `murmur3.go`: a frame is the MurmurHash3 of the payload, its length, both in
little endian, and the payload.
-/

namespace Robot.Gateway

open Robot.Lib

/-- `bits.RotateLeft32`. -/
def rotateLeft32 (x k : UInt32) : UInt32 := (x <<< k) ||| (x >>> (32 - k))

/-- The scrambling of a word before it goes into the hash. -/
def murmurScramble (k1 : UInt32) : UInt32 := rotateLeft32 (k1 * 0xcc9e2d51) 15 * 0x1b873593

/-- The loop over the full words. -/
def murmurBody (h1 k1 : UInt32) : UInt32 := rotateLeft32 (h1 ^^^ murmurScramble k1) 13 * 5 + 0xe6546b64

/-- The `switch` over the last one to three bytes, with its fallthroughs. -/
def murmurTail (h1 : UInt32) : Bytes → UInt32
  | [a] => h1 ^^^ murmurScramble a.toUInt32
  | [a, b] => h1 ^^^ murmurScramble ((b.toUInt32 <<< 8) ^^^ a.toUInt32)
  | [a, b, c] =>
    h1 ^^^ murmurScramble ((c.toUInt32 <<< 16) ^^^ (b.toUInt32 <<< 8) ^^^ a.toUInt32)
  | _ => h1

/-- The finalization. -/
def murmurFinal (h1 : UInt32) (len : Nat) : UInt32 :=
  let h1 := h1 ^^^ UInt32.ofNat len
  let h1 := (h1 ^^^ (h1 >>> 16)) * 0x85ebca6b
  let h1 := (h1 ^^^ (h1 >>> 13)) * 0xc2b2ae35
  h1 ^^^ (h1 >>> 16)

/-- `MurmurHash3X86_32`. -/
def murmurHash3X86_32 (data : Bytes) (seed : UInt32) : UInt32 :=
  let h1 := (wordsLE data).foldl murmurBody seed
  murmurFinal (murmurTail h1 (data.drop (data.length / 4 * 4))) data.length

def frameHeaderSize : Nat := 8

/-- `EncodeFrame`. -/
def encodeFrame (fbData : Bytes) : Bytes :=
  putLE32 (murmurHash3X86_32 fbData 0) ++ putLE32 (UInt32.ofNat fbData.length) ++ fbData

/-- The payload of a frame: what stands after the header. -/
def framePayload (frame : Bytes) : Bytes := frame.drop frameHeaderSize

@[simp] theorem framePayload_encodeFrame (fbData : Bytes) : framePayload (encodeFrame fbData) = fbData := by
  unfold framePayload encodeFrame
  exact List.drop_left' rfl

/-- The published test vector of the hash. -/
example : murmurHash3X86_32 [] 1 = 0x514e28b7 := by decide

end Robot.Gateway
