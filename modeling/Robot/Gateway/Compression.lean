import Robot.Lib.Int64
import Robot.Gateway.Codes

/-!
# Compressors

`compression.go`. The four algorithms are libraries (`CompressionLib`); what the file adds is
the buffer it makes for the result. Its size comes from the peer (`post.Length`, as an `int`),
and `make` panics on a size that is negative or too large. LZ4 makes it by length, zstd and
zlib by capacity; zlib makes it after the header has been read, and does not use it. Snappy
takes the size from its own data.
-/

namespace Robot.Gateway

open Robot.Lib

/-- The libraries behind the compressors, and the largest size the runtime allocates. -/
structure CompressionLib where
  maxAlloc : Nat
  zstdEncodeAll : Bytes → Bytes
  zstdDecodeAll : Bytes → Except String Bytes
  lz4CompressBlock : Bytes → Except String Bytes
  lz4UncompressBlock : Bytes → (dstLen : Nat) → Except String Bytes
  snappyEncode : Bytes → Bytes
  snappyDecode : Bytes → Except String Bytes
  zlibWrite : Bytes → Except String Bytes
  /-- `zlib.NewReader`, and then `io.ReadAll` of at most so many bytes. -/
  zlibNewReader : Bytes → Except String (Nat → Except String Bytes)

/-- `make` accepts the size. -/
def CompressionLib.Makes (lib : CompressionLib) (size : Int) : Prop := 0 ≤ size ∧ size ≤ lib.maxAlloc

instance (lib : CompressionLib) (size : Int) : Decidable (lib.Makes size) :=
  inferInstanceAs (Decidable (0 ≤ size ∧ size ≤ lib.maxAlloc))

/-- `make([]byte, …)` and then the rest; `part` is `len` or `cap`. -/
def CompressionLib.withMake (lib : CompressionLib) (part : String) (size : Int)
    (rest : Except Failure Bytes) : Except Failure Bytes :=
  if lib.Makes size then rest
  else .error (.panicked ("runtime error: makeslice: " ++ part ++ " out of range"))

/-- An error of a library, under the text of `fmt.Errorf("…: %w", err)`. -/
def orError (text : String) (r : Except String Bytes) : Except Failure Bytes :=
  match r with
  | .error e => .error (.err (text ++ e))
  | .ok data => .ok data

def zstdCompressor (lib : CompressionLib) : Compressor where
  compress data := .ok (lib.zstdEncodeAll data)
  decompress data originalSize :=
    lib.withMake "cap" originalSize (orError "" (lib.zstdDecodeAll data))

def lz4Compressor (lib : CompressionLib) : Compressor where
  compress data :=
    match lib.lz4CompressBlock data with
    | .error e => .error ("lz4 compress: " ++ e)
    | .ok compressed =>
      if compressed.length = 0 then .error "lz4: data not compressible" else .ok compressed
  decompress data originalSize :=
    lib.withMake "len" originalSize
      (orError "lz4 decompress: " (lib.lz4UncompressBlock data originalSize.toNat))

def snappyCompressor (lib : CompressionLib) : Compressor where
  compress data := .ok (lib.snappyEncode data)
  decompress data _ := orError "" (lib.snappyDecode data)

def zlibCompressor (lib : CompressionLib) : Compressor where
  compress := lib.zlibWrite
  decompress data originalSize :=
    match lib.zlibNewReader data with
    | .error e => .error (.err ("zlib decompress init: " ++ e))
    | .ok readAll =>
      lib.withMake "cap" originalSize
        (orError "zlib decompress read: " (readAll (i64 (originalSize + 1)).toNat))

/-- `NewCompressor`. The options of zstd are constants its constructor accepts. -/
def newCompressor (lib : CompressionLib) (algo : CompressionAlgorithm) : Except String Compressor :=
  match algo with
  | .zstd => .ok (zstdCompressor lib)
  | .lz4 => .ok (lz4Compressor lib)
  | .snappy => .ok (snappyCompressor lib)
  | .zlib => .ok (zlibCompressor lib)
  | algo => .error s!"unsupported compression algorithm: {(Coded.toByte algo).toNat}"

end Robot.Gateway
