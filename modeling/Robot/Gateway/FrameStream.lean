import Robot.Lib.Stream
import Robot.Gateway.Framing

/-!
# Frames on a stream

The two readers of frames. `DecodeFrames` of `framing.go` takes a buffer and returns the
frames in it and the rest; `TCPConnection.ReadMessage` of `tcp.go` reads a header and then a
payload from the connection.

Both are the same decoder (`frameDecoder`): what stands at the start of the bytes is decided
by the header and the payload alone, so it does not change when more bytes arrive. That is
all the library needs to make the cuts irrelevant (`feed_eq_drain`). For the connection the
cuts are the pieces that `Read` returns, and `readFull_spec` takes them out.
-/

namespace Robot.Gateway

open Robot.Lib List

/-! ## The header -/

/-- `data[0:4]` of a header. -/
def headerHash (data : Bytes) : UInt32 := le32 (data.take 4)

/-- `data[4:8]` of a header. -/
def headerMsgLen (data : Bytes) : UInt32 := le32 ((data.drop 4).take 4)

/-- `%08x`. -/
def hex08 (w : UInt32) : String :=
  let digits := Nat.toDigits 16 w.toNat
  String.ofList (List.replicate (8 - digits.length) '0' ++ digits)

def frameHashMismatch (expected actual : UInt32) : String :=
  "frame hash mismatch: expected 0x" ++ hex08 expected ++ ", got 0x" ++ hex08 actual

/-! ## `DecodeFrames` -/

/-- The loop of `DecodeFrames`. -/
def decodeFramesLoop (frames : List Bytes) (data : Bytes) : Except String (List Bytes × Bytes) :=
  if _h : data.length ≥ frameHeaderSize then
    let expectedHash := headerHash data
    let totalLen := frameHeaderSize + (headerMsgLen data).toNat
    if data.length < totalLen then .ok (frames, data) -- incomplete
    else
      let payload := (data.take totalLen).drop frameHeaderSize
      let actualHash := murmurHash3X86_32 payload 0
      if actualHash ≠ expectedHash then .error (frameHashMismatch expectedHash actualHash)
      else decodeFramesLoop (frames ++ [payload]) (data.drop totalLen)
  else .ok (frames, data)
termination_by data.length
decreasing_by
  rw [length_drop]
  unfold frameHeaderSize at *
  omega

/-- `DecodeFrames`: the frames and what remains. -/
def decodeFrames (data : Bytes) : Except String (List Bytes × Bytes) := decodeFramesLoop [] data

/-! ## `ReadMessage` -/

/-- What `ReadMessage` uses of a `TCPConnection`: the pieces that `Read` is going to return,
after which the stream ends, and the whole array behind `readBuf`. -/
structure TCPConnection where
  conn : List Bytes
  readBuf : Bytes

/-- The loop of `io.ReadFull` for `n` bytes: what was read, and the pieces to come. -/
def readFull : Nat → List Bytes → Bytes × List Bytes
  | 0, conn => ([], conn)
  | _ + 1, [] => ([], [])
  | n + 1, piece :: conn =>
    if piece.length ≤ n + 1 then
      let (read, conn) := readFull (n + 1 - piece.length) conn
      (piece ++ read, conn)
    else (piece.take (n + 1), piece.drop (n + 1) :: conn)

/-- The error of `io.ReadFull`. -/
def readFullError (want got : Nat) : Option String :=
  if got = want then none else if got = 0 then some "EOF" else some "unexpected EOF"

/-- `ReadMessage`. The payload is read into `readBuf`, which is reused if it is large enough, so
a message is good until the next call. -/
def TCPConnection.readMessage (t : TCPConnection) : Except String Bytes × TCPConnection :=
  let (header, conn) := readFull frameHeaderSize t.conn
  match readFullError frameHeaderSize header.length with
  | some e => (.error e, { t with conn := conn })
  | none =>
    let expectedHash := headerHash header
    let msgLen := (headerMsgLen header).toNat
    let readBuf := if t.readBuf.length ≥ msgLen then t.readBuf else List.replicate msgLen 0
    let (read, conn) := readFull msgLen conn
    let readBuf := read ++ readBuf.drop read.length
    let t := { conn := conn, readBuf := readBuf }
    match readFullError msgLen read.length with
    | some e => (.error e, t)
    | none =>
      let payload := readBuf.take msgLen
      let actualHash := murmurHash3X86_32 payload 0
      if actualHash ≠ expectedHash then (.error (frameHashMismatch expectedHash actualHash), t)
      else (.ok payload, t)

/-- Several calls of `ReadMessage`. -/
def TCPConnection.readMessages : Nat → TCPConnection → List (Except String Bytes)
  | 0, _ => []
  | n + 1, t => t.readMessage.1 :: readMessages n t.readMessage.2

/-! ## The decoder behind both -/

/-- The frame at the start of the bytes. -/
def scanFrame (data : Bytes) : Scan String Bytes UInt8 :=
  if data.length < frameHeaderSize + (headerMsgLen data).toNat then .more
  else
    let payload := (data.drop frameHeaderSize).take (headerMsgLen data).toNat
    if murmurHash3X86_32 payload 0 ≠ headerHash data then
      .bad (frameHashMismatch (headerHash data) (murmurHash3X86_32 payload 0))
    else .item payload (data.drop (frameHeaderSize + (headerMsgLen data).toNat))

variable {data payload : Bytes} {t : TCPConnection}

theorem headerHash_append (x : Bytes) (h : frameHeaderSize ≤ data.length) :
    headerHash (data ++ x) = headerHash data := by
  unfold headerHash
  unfold frameHeaderSize at h
  rw [take_append_of_le_length (by omega)]

theorem headerMsgLen_append (x : Bytes) (h : frameHeaderSize ≤ data.length) :
    headerMsgLen (data ++ x) = headerMsgLen data := by
  unfold headerMsgLen
  unfold frameHeaderSize at h
  rw [drop_append_of_le_length (by omega),
    take_append_of_le_length (by rw [length_drop]; omega)]

/-- What the decoder finds in a complete frame does not change with the bytes behind it. -/
theorem scanFrame_append (x : Bytes)
    (h : ¬ data.length < frameHeaderSize + (headerMsgLen data).toNat) :
    headerHash (data ++ x) = headerHash data ∧ headerMsgLen (data ++ x) = headerMsgLen data ∧
    ¬ (data ++ x).length < frameHeaderSize + (headerMsgLen data).toNat ∧
    ((data ++ x).drop frameHeaderSize).take (headerMsgLen data).toNat
      = (data.drop frameHeaderSize).take (headerMsgLen data).toNat ∧
    (data ++ x).drop (frameHeaderSize + (headerMsgLen data).toNat)
      = data.drop (frameHeaderSize + (headerMsgLen data).toNat) ++ x := by
  refine ⟨headerHash_append x (by omega), headerMsgLen_append x (by omega), ?_, ?_, ?_⟩
  · rw [length_append]
    omega
  · rw [drop_append_of_le_length (by omega),
      take_append_of_le_length (by rw [length_drop]; omega)]
  · rw [drop_append_of_le_length (by omega)]

/-- The decoder of frames. -/
def frameDecoder : Decoder String Bytes UInt8 where
  scan := scanFrame
  shorter := by
    intro d a r h
    unfold scanFrame at h
    split at h
    · cases h
    · simp only at h
      split at h
      · cases h
      · cases h
        rw [length_drop]
        unfold frameHeaderSize at *
        omega
  item_append := by
    intro d a r h x
    unfold scanFrame at h ⊢
    split at h
    · cases h
    next hlen =>
      obtain ⟨hhash, hmsg, hlen', hpayload, hrest⟩ := scanFrame_append x hlen
      simp only [hhash, hmsg, hpayload, hrest, if_neg hlen'] at h ⊢
      split at h
      · cases h
      next hok =>
        cases h
        rw [if_neg hok]
  bad_append := by
    intro d e h x
    unfold scanFrame at h ⊢
    split at h
    · cases h
    next hlen =>
      obtain ⟨hhash, hmsg, hlen', hpayload, hrest⟩ := scanFrame_append x hlen
      simp only [hhash, hmsg, hpayload, hrest, if_neg hlen'] at h ⊢
      split at h
      next hbad =>
        cases h
        rw [if_pos hbad]
      · cases h

theorem frameDecoder_scan (data : Bytes) : frameDecoder.scan data = scanFrame data := rfl

/-! ## `DecodeFrames` is the decoder -/

/-- `data[frameHeaderSize:totalLen]`. -/
theorem drop_take_frame (data : Bytes) (n : Nat) :
    (data.take (frameHeaderSize + n)).drop frameHeaderSize = (data.drop frameHeaderSize).take n := by
  rw [drop_take, Nat.add_sub_cancel_left]

/-- The loop of `DecodeFrames` drains. -/
theorem decodeFramesLoop_eq (frames : List Bytes) (data : Bytes) :
    decodeFramesLoop frames data = behind frames (frameDecoder.drain data) := by
  fun_induction decodeFramesLoop frames data with
  | case1 frames data hlen totalLen hshort =>
    have hscan : frameDecoder.scan data = .more := if_pos hshort
    rw [Decoder.drain_more hscan, behind_ok, append_nil]
  | case2 frames data hlen expectedHash totalLen hfull payload actualHash hbad =>
    have hpayload : payload = (data.drop frameHeaderSize).take (headerMsgLen data).toNat :=
      drop_take_frame data _
    have hscan : frameDecoder.scan data = .bad (frameHashMismatch expectedHash actualHash) := by
      rw [frameDecoder_scan]
      unfold scanFrame
      rw [if_neg hfull]
      simp only [← hpayload]
      exact if_pos hbad
    rw [Decoder.drain_bad hscan, behind_error]
  | case3 frames data hlen expectedHash totalLen hfull payload actualHash hok ih =>
    have hpayload : payload = (data.drop frameHeaderSize).take (headerMsgLen data).toNat :=
      drop_take_frame data _
    have hscan : frameDecoder.scan data = .item payload (data.drop totalLen) := by
      rw [frameDecoder_scan]
      unfold scanFrame
      rw [if_neg hfull]
      simp only [← hpayload]
      exact if_neg hok
    rw [ih, Decoder.drain_item hscan, behind_behind]
  | case4 frames data hlen =>
    have hscan : frameDecoder.scan data = .more := if_pos (by omega)
    rw [Decoder.drain_more hscan, behind_ok, append_nil]

theorem decodeFrames_eq_drain : decodeFrames = frameDecoder.drain := by
  funext data
  rw [decodeFrames, decodeFramesLoop_eq, behind_nil]

/-! ## `ReadMessage` is the decoder -/

/-- `io.ReadFull` reads from the stream, whatever pieces it comes in. -/
theorem readFull_spec : ∀ (conn : List Bytes) (n : Nat),
    (readFull n conn).1 = conn.flatten.take n ∧ (readFull n conn).2.flatten = conn.flatten.drop n := by
  intro conn
  induction conn with
  | nil =>
    intro n
    cases n with
    | zero => exact ⟨rfl, rfl⟩
    | succ n => exact ⟨rfl, rfl⟩
  | cons piece conn ih =>
    intro n
    cases n with
    | zero => exact ⟨rfl, rfl⟩
    | succ n =>
      obtain ⟨hread, hrest⟩ := ih (n + 1 - piece.length)
      unfold readFull
      split
      next hle =>
        simp only [hread, hrest, flatten_cons, take_append, drop_append,
          take_of_length_le hle, drop_of_length_le hle, nil_append, and_self]
      next hgt =>
        have hle : n + 1 ≤ piece.length := by omega
        rw [flatten_cons, flatten_cons, take_append_of_le_length hle,
          drop_append_of_le_length hle]
        exact ⟨rfl, rfl⟩

theorem readFullError_eq_none {want got : Nat} : readFullError want got = none ↔ got = want := by
  unfold readFullError
  split
  next h => exact ⟨fun _ => h, fun _ => rfl⟩
  next h =>
    split
    · exact ⟨fun h' => by simp at h', fun h' => absurd h' h⟩
    · exact ⟨fun h' => by simp at h', fun h' => absurd h' h⟩

/-- `ReadMessage` on a stream that starts with a complete frame. -/
theorem readMessage_complete (t : TCPConnection) (hdata : t.conn.flatten = data)
    (hfull : ¬ data.length < frameHeaderSize + (headerMsgLen data).toNat)
    (hpayload : payload = (data.drop frameHeaderSize).take (headerMsgLen data).toNat) :
    t.readMessage.1 = (if murmurHash3X86_32 payload 0 ≠ headerHash data then
        .error (frameHashMismatch (headerHash data) (murmurHash3X86_32 payload 0)) else .ok payload) ∧
    t.readMessage.2.conn.flatten = data.drop (frameHeaderSize + (headerMsgLen data).toNat) := by
  obtain ⟨hheader, hconn⟩ := readFull_spec t.conn frameHeaderSize
  rw [hdata] at hheader hconn
  have hlen8 : (data.take frameHeaderSize).length = frameHeaderSize := by
    rw [length_take]
    omega
  -- the header that was read says the same as the stream
  have hhash : headerHash (data.take frameHeaderSize) = headerHash data := by
    have h := headerHash_append (data.drop frameHeaderSize) (le_of_eq hlen8.symm)
    rwa [take_append_drop, eq_comm] at h
  have hmsg : headerMsgLen (data.take frameHeaderSize) = headerMsgLen data := by
    have h := headerMsgLen_append (data.drop frameHeaderSize) (le_of_eq hlen8.symm)
    rwa [take_append_drop, eq_comm] at h
  obtain ⟨hread, hrest⟩ := readFull_spec (readFull frameHeaderSize t.conn).2 (headerMsgLen data).toNat
  rw [hconn, ← hpayload] at hread
  rw [hconn, drop_drop] at hrest
  have hlen : payload.length = (headerMsgLen data).toNat := by
    rw [hpayload, length_take, length_drop]
    omega
  unfold TCPConnection.readMessage
  simp only [hheader, hhash, hmsg, hread, readFullError_eq_none.mpr hlen8, readFullError_eq_none.mpr hlen,
    take_left' hlen]
  split
  · exact ⟨rfl, hrest⟩
  · exact ⟨rfl, hrest⟩

/-- `ReadMessage` finds the frame the decoder finds, and leaves the rest of the stream. -/
theorem readMessage_item {rest : Bytes} (h : scanFrame t.conn.flatten = .item payload rest) :
    t.readMessage.1 = .ok payload ∧ t.readMessage.2.conn.flatten = rest := by
  unfold scanFrame at h
  split at h
  · cases h
  next hfull =>
    obtain ⟨hresult, hrest⟩ := readMessage_complete t rfl hfull rfl
    simp only at h
    split at h
    · cases h
    next hok =>
      cases h
      rw [hresult, if_neg hok]
      exact ⟨rfl, hrest⟩

/-- `ReadMessage` refuses what the decoder refuses. -/
theorem readMessage_bad {e : String} (h : scanFrame t.conn.flatten = .bad e) :
    t.readMessage.1 = .error e := by
  unfold scanFrame at h
  split at h
  · cases h
  next hfull =>
    obtain ⟨hresult, -⟩ := readMessage_complete t rfl hfull rfl
    simp only at h
    split at h
    next hbad =>
      cases h
      rw [hresult, if_pos hbad]
    · cases h

/-- At the end of the stream `ReadMessage` returns `io.EOF`. -/
theorem readMessage_eof (h : t.conn.flatten = []) : t.readMessage.1 = .error "EOF" := by
  obtain ⟨hheader, -⟩ := readFull_spec t.conn frameHeaderSize
  rw [h] at hheader
  unfold TCPConnection.readMessage
  simp only [hheader]
  rfl

/-! ## Frames are read back -/

/-- A frame is read back. Its header is the first eight bytes. -/
theorem scanFrame_frame {hash : UInt32} (hlen : payload.length < 2 ^ 32) (x : Bytes) :
    scanFrame (putLE32 hash ++ putLE32 (UInt32.ofNat payload.length) ++ payload ++ x)
      = if murmurHash3X86_32 payload 0 ≠ hash then
          .bad (frameHashMismatch hash (murmurHash3X86_32 payload 0)) else .item payload x := by
  have hhash : headerHash (putLE32 hash ++ putLE32 (UInt32.ofNat payload.length) ++ payload ++ x) = hash := by
    show le32 (putLE32 hash) = hash
    exact le32_putLE32 hash
  have hmsg : (headerMsgLen (putLE32 hash ++ putLE32 (UInt32.ofNat payload.length) ++ payload ++ x)).toNat
      = payload.length := by
    show (le32 (putLE32 (UInt32.ofNat payload.length))).toNat = _
    rw [le32_putLE32, UInt32.toNat_ofNat', Nat.mod_eq_of_lt hlen]
  have hdrop : (putLE32 hash ++ putLE32 (UInt32.ofNat payload.length) ++ payload ++ x).drop frameHeaderSize
      = payload ++ x := rfl
  have htotal : (putLE32 hash ++ putLE32 (UInt32.ofNat payload.length) ++ payload ++ x).length
      = frameHeaderSize + payload.length + x.length := by
    rw [length_append, length_append]
    rfl
  unfold scanFrame
  simp only [hhash, hmsg, hdrop, ← drop_drop, take_left, drop_left]
  rw [if_neg (by omega)]

theorem scanFrame_encodeFrame (hlen : payload.length < 2 ^ 32) (x : Bytes) :
    scanFrame (encodeFrame payload ++ x) = .item payload x := by
  unfold encodeFrame
  rw [scanFrame_frame hlen]
  exact if_neg (fun h => h rfl)

theorem reads_encodeFrame (hlen : payload.length < 2 ^ 32) :
    Reads frameDecoder encodeFrame payload := by
  intro x
  rw [frameDecoder_scan]
  exact scanFrame_encodeFrame hlen x

/-- The connection gives the payloads in order, and then the stream ends. -/
theorem readMessages_encoded : ∀ (payloads : List Bytes), (∀ p ∈ payloads, p.length < 2 ^ 32) →
    ∀ t : TCPConnection, t.conn.flatten = (payloads.map encodeFrame).flatten →
      t.readMessages (payloads.length + 1) = payloads.map .ok ++ [.error "EOF"] := by
  intro payloads
  induction payloads with
  | nil =>
    intro _ t ht
    exact congrArg (· :: []) (readMessage_eof ht)
  | cons p payloads ih =>
    intro hlen t ht
    rw [map_cons, flatten_cons] at ht
    have hscan : scanFrame t.conn.flatten = .item p (payloads.map encodeFrame).flatten := by
      rw [ht]
      exact scanFrame_encodeFrame (hlen p mem_cons_self) _
    obtain ⟨hresult, hrest⟩ := readMessage_item hscan
    show t.readMessage.1 :: t.readMessage.2.readMessages (payloads.length + 1) = _
    rw [hresult, ih (fun q hq => hlen q (mem_cons_of_mem _ hq)) _ hrest]
    rfl

/-- **Framing is insensitive to chunking**: however the frames of some payloads are cut,
decoding piece by piece gives the payloads and leaves nothing over, and so does reading them
from a connection, whatever pieces it returns. -/
theorem framing_ignores_cuts (payloads : List Bytes) (hlen : ∀ p ∈ payloads, p.length < 2 ^ 32)
    (chunks : List Bytes) (hcut : chunks.flatten = (payloads.map encodeFrame).flatten) :
    feed decodeFrames [] chunks = .ok (payloads, []) ∧
    ∀ t : TCPConnection, t.conn.flatten = (payloads.map encodeFrame).flatten →
      t.readMessages (payloads.length + 1) = payloads.map .ok ++ [.error "EOF"] := by
  refine ⟨?_, readMessages_encoded payloads hlen⟩
  have hempty : frameDecoder.drain [] = .ok ([], []) := Decoder.drain_more (D := frameDecoder) rfl
  have hdrain := drain_encoded (D := frameDecoder) payloads
    (fun p hp => reads_encodeFrame (hlen p hp)) []
  rw [append_nil, hempty, behind_ok, append_nil] at hdrain
  rw [decodeFrames_eq_drain, feed_eq_drain frameDecoder chunks [] hempty, hcut]
  exact hdrain

/-- A cut inside the hash of the first frame and one inside the payload of the second. -/
theorem framing_ignores_two_cuts :
    feed decodeFrames [] [(encodeFrame []).take 3, (encodeFrame []).drop 3 ++ (encodeFrame [7, 8]).take 9,
      (encodeFrame [7, 8]).drop 9] = .ok ([[], [7, 8]], []) :=
  (framing_ignores_cuts [[], [7, 8]] (by decide) _ (by decide)).1

end Robot.Gateway
