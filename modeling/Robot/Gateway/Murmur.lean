import Robot.Lib.Word32
import Robot.Gateway.FrameStream

/-!
# What the frame hash detects

Every step of `MurmurHash3X86_32` is reversible: a word is scrambled by odd factors and a
rotation, mixed into the state by an exclusive or, and the finaliser is made of odd factors
and `h ^ (h >> k)`. So the hash is reversible in the state before any word, and in each word
given the state; two payloads that differ in one word only have different hashes.
-/

namespace Robot.Gateway

open Robot.Lib Function List

/-! ## The steps are reversible -/

theorem rotateLeft32_injective {k : UInt32} (hk : 0 < k.toNat) (hk32 : k.toNat < 32) :
    Injective (rotateLeft32 · k) := rotate_injective hk hk32

theorem murmurScramble_injective : Injective murmurScramble := by
  intro x y h
  have h15 := mul_injective (c := 0x1b873593) (d := 0x56ed309b) (by decide) h
  have h1 := rotateLeft32_injective (by decide) (by decide) h15
  exact mul_injective (c := 0xcc9e2d51) (d := 0xdee13bb1) (by decide) h1

theorem murmurBody_injective (k1 : UInt32) : Injective (murmurBody · k1) := by
  intro x y h
  have h5 := mul_injective (c := 5) (d := 0xcccccccd) (by decide) (UInt32.add_left_inj _ |>.mp h)
  have hxor := rotateLeft32_injective (by decide) (by decide) h5
  exact (UInt32.xor_left_inj _).mp hxor

variable (h1 : UInt32)

theorem murmurBody_injective_word : Injective (murmurBody h1) := by
  intro x y h
  have h5 := mul_injective (c := 5) (d := 0xcccccccd) (by decide) (UInt32.add_left_inj _ |>.mp h)
  have hxor := rotateLeft32_injective (by decide) (by decide) h5
  exact murmurScramble_injective ((UInt32.xor_right_inj _).mp hxor)

theorem murmurFinal_injective (len : Nat) : Injective (murmurFinal · len) := by
  intro x y h
  have h16 := xorShift_injective (k := 16) (by decide) (by decide) h
  have h2 := mul_injective (c := 0xc2b2ae35) (d := 0x7ed1b41d) (by decide) h16
  have h13 := xorShift_injective (k := 13) (by decide) (by decide) h2
  have h1 := mul_injective (c := 0x85ebca6b) (d := 0xa5cb9243) (by decide) h13
  exact (UInt32.xor_left_inj _).mp (xorShift_injective (k := 16) (by decide) (by decide) h1)

/-! ## The tail is one more word -/

theorem toNat_shl8_xor {w : UInt32} (hw : w.toNat < 2 ^ 24) (a : UInt8) :
    ((w <<< 8) ^^^ a.toUInt32).toNat = 256 * w.toNat + a.toNat := by
  have ha := a.toNat_lt
  have hshift : (w <<< 8).toNat = 256 * w.toNat := by
    rw [UInt32.toNat_shiftLeft]
    show w.toNat <<< 8 % 2 ^ 32 = _
    rw [Nat.shiftLeft_eq]
    omega
  rw [UInt32.toNat_xor, hshift, UInt8.toNat_toUInt32]
  have hmod : (256 * w.toNat ^^^ a.toNat) % 2 ^ 8 = a.toNat := by
    rw [Nat.xor_mod_two_pow, show 256 * w.toNat % 2 ^ 8 = 0 by omega, Nat.zero_xor]
    omega
  have hdiv : (256 * w.toNat ^^^ a.toNat) / 2 ^ 8 = w.toNat := by
    rw [Nat.xor_div_two_pow, show 256 * w.toNat / 2 ^ 8 = w.toNat by omega,
      show a.toNat / 2 ^ 8 = 0 by omega, Nat.xor_zero]
  omega

theorem le32_one (a : UInt8) : le32 [a] = a.toUInt32 := by
  apply UInt32.toNat_inj.mp
  simp [le32]

theorem le32_two (a b : UInt8) : le32 [a, b] = (b.toUInt32 <<< 8) ^^^ a.toUInt32 := by
  apply UInt32.toNat_inj.mp
  have ha := a.toNat_lt
  have hb := b.toNat_lt
  rw [toNat_shl8_xor (by rw [UInt8.toNat_toUInt32]; omega)]
  simp [le32]
  omega

theorem toUInt32_shl16 (c : UInt8) : c.toUInt32 <<< 16 = c.toUInt32 <<< 8 <<< 8 := by
  apply UInt32.toNat_inj.mp
  rw [UInt32.toNat_shiftLeft, UInt32.toNat_shiftLeft, UInt32.toNat_shiftLeft, UInt8.toNat_toUInt32]
  show c.toNat <<< 16 % 2 ^ 32 = (c.toNat <<< 8 % 2 ^ 32) <<< 8 % 2 ^ 32
  rw [Nat.shiftLeft_eq, Nat.shiftLeft_eq, Nat.shiftLeft_eq]
  omega

theorem le32_three (a b c : UInt8) :
    le32 [a, b, c] = (c.toUInt32 <<< 16) ^^^ (b.toUInt32 <<< 8) ^^^ a.toUInt32 := by
  have ha := a.toNat_lt
  have hb := b.toNat_lt
  have hc := c.toNat_lt
  have hcb := toNat_shl8_xor (w := c.toUInt32) (by rw [UInt8.toNat_toUInt32]; omega) b
  rw [UInt8.toNat_toUInt32] at hcb
  rw [toUInt32_shl16, ← UInt32.shiftLeft_xor]
  apply UInt32.toNat_inj.mp
  rw [toNat_shl8_xor (by omega), hcb]
  simp [le32]
  omega

/-- The `switch` with its fallthroughs puts the last bytes together in little endian. -/
theorem murmurTail_eq {tail : Bytes} (hne : tail ≠ []) (hlen : tail.length < 4) :
    murmurTail h1 tail = h1 ^^^ murmurScramble (le32 tail) := by
  match tail, hne, hlen with
  | [a], _, _ =>
    rw [le32_one]
    rfl
  | [a, b], _, _ =>
    rw [le32_two]
    rfl
  | [a, b, c], _, _ =>
    rw [le32_three]
    rfl

theorem murmurTail_injective {tail : Bytes} (hlen : tail.length < 4) :
    Injective (murmurTail · tail) := by
  intro x y h
  by_cases hnil : tail = []
  · subst hnil
    exact h
  · simp only [murmurTail_eq _ hnil hlen] at h
    exact (UInt32.xor_left_inj _).mp h

/-! ## The rest of a payload -/

/-- The hash over the rest of the payload, before the finaliser. -/
def murmurRest (h1 : UInt32) (rest : Bytes) : UInt32 :=
  murmurTail ((wordsLE rest).foldl murmurBody h1) (rest.drop (rest.length / 4 * 4))

theorem murmurRest_injective (rest : Bytes) : Injective (murmurRest · rest) := by
  intro x y h
  have hlen : (rest.drop (rest.length / 4 * 4)).length < 4 := by
    rw [length_drop]
    omega
  exact foldl_injective murmurBody_injective _ (murmurTail_injective hlen h)

/-- Full words go into the state. -/
theorem murmurRest_append {a : Bytes} (h : 4 ∣ a.length) (b : Bytes) :
    murmurRest h1 (a ++ b) = murmurRest ((wordsLE a).foldl murmurBody h1) b := by
  have hdrop : (a ++ b).length / 4 * 4 = a.length + b.length / 4 * 4 := by
    rw [length_append]
    omega
  unfold murmurRest
  rw [wordsLE_append h, foldl_append, hdrop, ← drop_drop, drop_left]

theorem murmurHash3X86_32_eq (data : Bytes) (seed : UInt32) :
    murmurHash3X86_32 data seed = murmurFinal (murmurRest seed data) data.length := rfl

theorem murmurRest_word {w : Bytes} (hw : w.length = 4) (b : Bytes) :
    murmurRest h1 (w ++ b) = murmurRest (murmurBody h1 (le32 w)) b := by
  have hwords : wordsLE w = [le32 w] := by
    unfold wordsLE chunks
    rw [hw]
    show [le32 (w.take 4)] = _
    rw [take_of_length_le (le_of_eq hw)]
  rw [murmurRest_append h1 (by omega) b, hwords]
  rfl

theorem murmurRest_tail {tail : Bytes} (hlen : tail.length < 4) : murmurRest h1 tail = murmurTail h1 tail := by
  have hzero : tail.length / 4 = 0 := by omega
  unfold murmurRest wordsLE chunks
  rw [hzero]
  rfl

/-! ## One word -/

/-- The payloads have one length and differ, but only inside the word `i` (four bytes from
`4 * i` on, or what there is of them at the end). -/
structure DifferInWord (i : Nat) (p q : Bytes) : Prop where
  length : p.length = q.length
  ne : p ≠ q
  outside : ∀ j, j / 4 ≠ i → p[j]? = q[j]?

namespace DifferInWord

variable {i : Nat} {p q : Bytes}

theorem take_eq (h : DifferInWord i p q) : p.take (4 * i) = q.take (4 * i) := by
  apply ext_getElem?
  intro j
  rw [List.getElem?_take, List.getElem?_take]
  split
  · exact h.outside j (by omega)
  · rfl

theorem drop_eq (h : DifferInWord i p q) : p.drop (4 * i + 4) = q.drop (4 * i + 4) := by
  apply ext_getElem?
  intro j
  rw [List.getElem?_drop, List.getElem?_drop]
  exact h.outside _ (by omega)

theorem drop_ne (h : DifferInWord i p q) : p.drop (4 * i) ≠ q.drop (4 * i) := by
  intro hdrop
  apply h.ne
  rw [← take_append_drop (4 * i) p, h.take_eq, hdrop, take_append_drop]

end DifferInWord

/-- The state is different behind the word. -/
theorem murmurRest_ne {r r' : Bytes} (hlen : r.length = r'.length) (hne : r ≠ r')
    (hdrop : r.drop 4 = r'.drop 4) (h1 : UInt32) : murmurRest h1 r ≠ murmurRest h1 r' := by
  intro heq
  apply hne
  by_cases h4 : r.length < 4
  · -- inside the tail
    have hnil : r ≠ [] := by
      intro hr
      rw [hr] at hlen hne
      exact hne (length_eq_zero_iff.mp hlen.symm).symm
    have hnil' : r' ≠ [] := by
      intro hr
      rw [hr] at hlen
      exact hnil (length_eq_zero_iff.mp hlen)
    rw [murmurRest_tail h1 h4, murmurRest_tail h1 (hlen ▸ h4), murmurTail_eq h1 hnil h4,
      murmurTail_eq h1 hnil' (hlen ▸ h4)] at heq
    have hword := murmurScramble_injective ((UInt32.xor_right_inj _).mp heq)
    exact le32_inj hlen (by omega) hword
  · -- inside a full word
    have hw : (r.take 4).length = 4 := by
      rw [length_take]
      omega
    have hw' : (r'.take 4).length = 4 := by
      rw [length_take]
      omega
    rw [← take_append_drop 4 r, ← take_append_drop 4 r', ← hdrop, murmurRest_word h1 hw,
      murmurRest_word h1 hw'] at heq
    have hword := murmurBody_injective_word h1 (murmurRest_injective _ heq)
    rw [← take_append_drop 4 r, ← take_append_drop 4 r', ← hdrop,
      le32_inj (hw.trans hw'.symm) (le_of_eq hw) hword]

theorem murmurHash3X86_32_ne {i : Nat} {p q : Bytes} (h : DifferInWord i p q) (seed : UInt32) :
    murmurHash3X86_32 p seed ≠ murmurHash3X86_32 q seed := by
  have hinside : 4 * i ≤ p.length := by
    by_contra hgt
    apply h.drop_ne
    rw [drop_of_length_le (by omega), drop_of_length_le (by rw [← h.length]; omega)]
  have htake : 4 ∣ (p.take (4 * i)).length := by
    rw [length_take, Nat.min_eq_left hinside]
    exact Nat.dvd_mul_right 4 i
  rw [murmurHash3X86_32_eq, murmurHash3X86_32_eq, ← h.length]
  intro heq
  have hrest := murmurFinal_injective _ heq
  rw [← take_append_drop (4 * i) p, ← take_append_drop (4 * i) q, ← h.take_eq,
    murmurRest_append seed htake, murmurRest_append seed htake] at hrest
  refine murmurRest_ne ?_ h.drop_ne ?_ _ hrest
  · rw [length_drop, length_drop, h.length]
  · rw [drop_drop, drop_drop]
    exact h.drop_eq

/-! ## A frame with another payload -/

/-- The header of a frame that is decoded to `p` holds the hash and the length of `p`. -/
theorem header_of_decodeFrames {header p : Bytes} (hheader : header.length = frameHeaderSize)
    (h : decodeFrames (header ++ p) = .ok ([p], [])) :
    headerHash header = murmurHash3X86_32 p 0 ∧ (headerMsgLen header).toNat = p.length := by
  have hhash := headerHash_append p (le_of_eq hheader.symm)
  have hmsg := headerMsgLen_append p (le_of_eq hheader.symm)
  have hlen : (header ++ p).length = frameHeaderSize + p.length := by rw [length_append, hheader]
  rw [decodeFrames_eq_drain] at h
  cases hscan : frameDecoder.scan (header ++ p) with
  | more =>
    rw [Decoder.drain_more hscan] at h
    cases h
  | bad e =>
    rw [Decoder.drain_bad hscan] at h
    cases h
  | item payload rest =>
    rw [Decoder.drain_item hscan] at h
    have hpayload : payload = p := by
      cases hrest : frameDecoder.drain rest with
      | error e =>
        rw [hrest] at h
        cases h
      | ok found =>
        obtain ⟨frames, left⟩ := found
        rw [hrest, behind_ok] at h
        injection h with h
        exact (List.cons.inj (Prod.mk.inj h).1).1
    have hscan : scanFrame (header ++ p) = .item payload rest := hscan
    unfold scanFrame at hscan
    rw [hhash, hmsg, drop_left' hheader] at hscan
    split at hscan
    · cases hscan
    next hfull =>
      simp only at hscan
      split at hscan
      · cases hscan
      next hok =>
        injection hscan with htake
        rw [htake, hpayload] at hok
        have htaken := congrArg List.length (htake.trans hpayload)
        rw [length_take] at htaken
        exact ⟨(Classical.not_not.mp hok).symm, by omega⟩

/-- With another payload of the same length, the same header is refused. -/
theorem scanFrame_altered {i : Nat} {header p q : Bytes} (h : DifferInWord i p q)
    (hheader : header.length = frameHeaderSize) (hp : decodeFrames (header ++ p) = .ok ([p], []))
    (rest : Bytes) :
    scanFrame (header ++ q ++ rest)
      = .bad (frameHashMismatch (murmurHash3X86_32 p 0) (murmurHash3X86_32 q 0)) := by
  obtain ⟨hhash, hmsg⟩ := header_of_decodeFrames hheader hp
  rw [h.length] at hmsg
  unfold scanFrame
  rw [append_assoc, headerHash_append _ (le_of_eq hheader.symm),
    headerMsgLen_append _ (le_of_eq hheader.symm), drop_left' hheader, hhash, hmsg, take_left]
  rw [if_neg (by rw [length_append, length_append, hheader]; omega)]
  exact if_pos (murmurHash3X86_32_ne h 0).symm

/-- **Every corruption inside one word is detected**: the hash differs under every seed, and
both readers refuse the frame, wherever it stands in the stream. -/
theorem frame_detects_word_corruption {i : Nat} {p q : Bytes} (h : DifferInWord i p q) :
    (∀ seed, murmurHash3X86_32 q seed ≠ murmurHash3X86_32 p seed) ∧
    ∀ header : Bytes, header.length = frameHeaderSize → decodeFrames (header ++ p) = .ok ([p], []) →
      (∀ (data : Bytes) (frames : List Bytes), decodeFrames data = .ok (frames, []) → ∀ rest,
        decodeFrames (data ++ (header ++ q ++ rest))
          = .error (frameHashMismatch (murmurHash3X86_32 p 0) (murmurHash3X86_32 q 0))) ∧
      ∀ (t : TCPConnection) (rest : Bytes), t.conn.flatten = header ++ q ++ rest →
        t.readMessage.1
          = .error (frameHashMismatch (murmurHash3X86_32 p 0) (murmurHash3X86_32 q 0)) := by
  refine ⟨fun seed => (murmurHash3X86_32_ne h seed).symm, fun header hheader hp => ⟨?_, ?_⟩⟩
  · intro data frames hdata rest
    rw [decodeFrames_eq_drain] at hdata ⊢
    rw [((frameDecoder.drain_append data _).2 frames [] hdata).1]
    have hbad : frameDecoder.scan ([] ++ (header ++ q ++ rest)) = .bad _ := scanFrame_altered h hheader hp rest
    rw [Decoder.drain_bad hbad, behind_error]
  · intro t rest ht
    apply readMessage_bad
    rw [ht]
    exact scanFrame_altered h hheader hp rest

/-- The last byte of the first word and nothing else. -/
theorem differInWord_zero : DifferInWord 0 [1, 2, 3, 4, 5] [1, 2, 3, 9, 5] where
  length := rfl
  ne := by decide
  outside := by
    intro j hj
    match j with
    | 0 | 1 | 2 | 3 => exact absurd rfl hj
    | 4 => rfl
    | j + 5 => rfl

theorem frame_detects_one_byte :
    murmurHash3X86_32 [1, 2, 3, 9, 5] 0 ≠ murmurHash3X86_32 [1, 2, 3, 4, 5] 0 ∧
    decodeFrames ((encodeFrame [1, 2, 3, 4, 5]).take 8 ++ [1, 2, 3, 9, 5])
      = .error (frameHashMismatch (murmurHash3X86_32 [1, 2, 3, 4, 5] 0)
          (murmurHash3X86_32 [1, 2, 3, 9, 5] 0)) := by
  obtain ⟨hhash, hframe⟩ := frame_detects_word_corruption differInWord_zero
  refine ⟨hhash 0, ?_⟩
  have hempty : frameDecoder.drain [] = .ok ([], []) := Decoder.drain_more (D := frameDecoder) rfl
  have hp : decodeFrames ((encodeFrame [1, 2, 3, 4, 5]).take 8 ++ [1, 2, 3, 4, 5])
      = .ok ([[1, 2, 3, 4, 5]], []) := by
    rw [decodeFrames_eq_drain]
    have h := drain_encoded (D := frameDecoder) [[1, 2, 3, 4, 5]]
      (fun p hp => reads_encodeFrame (by rw [mem_singleton.mp hp]; decide)) []
    rw [hempty] at h
    exact h
  have hnil : decodeFrames [] = .ok ([], []) := by
    rw [decodeFrames_eq_drain, hempty]
  have h := (hframe _ rfl hp).1 [] [] hnil []
  rwa [nil_append, append_nil] at h

end Robot.Gateway
