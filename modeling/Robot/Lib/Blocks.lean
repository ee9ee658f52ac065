import Mathlib

/-!
# Byte strings in blocks

What block ciphers need of lists: cutting a byte string into blocks of one size and putting
them together again, words in little endian, chaining (`cbcEncrypt`, over any block
cipher), and `foldl_undo`: a list of reversible updates is undone by the reverse updates in
reverse order, which is the whole argument for Feistel-like ciphers.
-/

namespace Robot.Lib

open List

abbrev Bytes : Type := List UInt8

/-! ## Blocks of one size -/

section Chunks

variable {α : Type}

/-- The first `k` blocks of `n` items. -/
def takeChunks (n : Nat) : Nat → List α → List (List α)
  | 0, _ => []
  | k + 1, l => l.take n :: takeChunks n k (l.drop n)

/-- All full blocks of `n` items. -/
def chunks (n : Nat) (l : List α) : List (List α) := takeChunks n (l.length / n) l

variable {n : Nat}

theorem takeChunks_length_eq : ∀ (k : Nat) (l : List α), n * k ≤ l.length →
    ∀ b ∈ takeChunks n k l, b.length = n := by
  intro k
  induction k with
  | zero => intro l _ b hb; simp [takeChunks] at hb
  | succ k ih =>
    intro l hl b hb
    rw [Nat.mul_succ] at hl
    rcases mem_cons.mp hb with hb | hb
    · rw [hb, length_take]
      omega
    · exact ih (l.drop n) (by rw [length_drop]; omega) b hb

theorem takeChunks_flatten : ∀ (k : Nat) (l : List α), l.length = n * k →
    (takeChunks n k l).flatten = l := by
  intro k
  induction k with
  | zero =>
    intro l hl
    rw [Nat.mul_zero] at hl
    rw [length_eq_zero_iff.mp hl]
    rfl
  | succ k ih =>
    intro l hl
    rw [Nat.mul_succ] at hl
    show l.take n ++ (takeChunks n k (l.drop n)).flatten = l
    rw [ih (l.drop n) (by rw [length_drop]; omega), take_append_drop]

theorem chunks_length_eq (l : List α) : ∀ b ∈ chunks n l, b.length = n :=
  takeChunks_length_eq _ l (Nat.mul_div_le l.length n)

theorem chunks_flatten {l : List α} (h : n ∣ l.length) : (chunks n l).flatten = l :=
  takeChunks_flatten _ l (Nat.mul_div_cancel' h).symm

theorem chunks_length (n : Nat) (l : List α) : (chunks n l).length = l.length / n := by
  have h : ∀ (k : Nat) (l : List α), (takeChunks n k l).length = k := by
    intro k
    induction k with
    | zero => intro l; rfl
    | succ k ih => intro l; show (takeChunks n k (l.drop n)).length + 1 = _; rw [ih]
  exact h _ l

theorem flatten_length {bs : List (List α)} (h : ∀ b ∈ bs, b.length = n) :
    bs.flatten.length = n * bs.length := by
  induction bs with
  | nil => rfl
  | cons b bs ih =>
    rw [flatten_cons, length_append, h b mem_cons_self,
      ih fun b' hb' => h b' (mem_cons_of_mem _ hb'), length_cons, Nat.mul_succ]
    omega

/-- Blocks that were put together are found again. -/
theorem chunks_of_flatten (hn : 0 < n) {bs : List (List α)} (h : ∀ b ∈ bs, b.length = n) :
    chunks n bs.flatten = bs := by
  unfold chunks
  rw [flatten_length h, Nat.mul_div_cancel_left _ hn]
  induction bs with
  | nil => rfl
  | cons b bs ih =>
    have hb := h b mem_cons_self
    show (b ++ bs.flatten).take n :: takeChunks n bs.length ((b ++ bs.flatten).drop n) = b :: bs
    rw [take_left' hb, drop_left' hb, ih fun b' hb' => h b' (mem_cons_of_mem _ hb')]

/-- Cutting starts anew behind full blocks. -/
theorem chunks_append (hn : 0 < n) {a : List α} (h : n ∣ a.length) (b : List α) :
    chunks n (a ++ b) = chunks n a ++ chunks n b := by
  have htake : ∀ (j : Nat) (a : List α), a.length = n * j → ∀ k,
      takeChunks n (j + k) (a ++ b) = takeChunks n j a ++ takeChunks n k b := by
    intro j
    induction j with
    | zero =>
      intro a ha k
      rw [Nat.mul_zero] at ha
      rw [length_eq_zero_iff.mp ha, Nat.zero_add]
      rfl
    | succ j ih =>
      intro a ha k
      rw [Nat.mul_succ] at ha
      rw [Nat.succ_add]
      show (a ++ b).take n :: takeChunks n (j + k) ((a ++ b).drop n)
        = a.take n :: (takeChunks n j (a.drop n) ++ takeChunks n k b)
      rw [take_append_of_le_length (by omega), drop_append_of_le_length (by omega),
        ih (a.drop n) (by rw [length_drop]; omega)]
  have hdiv : (a ++ b).length / n = a.length / n + b.length / n := by
    obtain ⟨k, hk⟩ := h
    rw [length_append, hk, Nat.mul_add_div hn, Nat.mul_div_cancel_left _ hn]
  unfold chunks
  rw [hdiv]
  exact htake _ a (Nat.mul_div_cancel' h).symm _

end Chunks

/-! ## Reversible updates -/

/-- **Undo**: if `g b` undoes `f b`, the reversed list of `g` undoes the list of `f`. -/
theorem foldl_undo {α β : Type} (f g : β → α → α) (P : α → Prop)
    (hkeep : ∀ b a, P a → P (f b a)) :
    ∀ l : List β, (∀ b ∈ l, ∀ a, P a → g b (f b a) = a) → ∀ a, P a →
      l.reverse.foldl (fun a b => g b a) (l.foldl (fun a b => f b a) a) = a := by
  intro l
  induction l with
  | nil => intro _ a _; rfl
  | cons b l ih =>
    intro hundo a ha
    rw [reverse_cons, foldl_append]
    show g b (l.reverse.foldl _ (l.foldl _ (f b a))) = a
    rw [ih (fun b' hb' => hundo b' (mem_cons_of_mem _ hb')) _ (hkeep b a ha),
      hundo b mem_cons_self a ha]

/-! ## Words -/

/-- `binary.LittleEndian.Uint32` of four bytes. -/
def le32 (b : Bytes) : UInt32 :=
  UInt32.ofNat ((b.getD 0 0).toNat + 256 * (b.getD 1 0).toNat + 65536 * (b.getD 2 0).toNat
    + 16777216 * (b.getD 3 0).toNat)

/-- `binary.LittleEndian.PutUint32`. -/
def putLE32 (w : UInt32) : Bytes :=
  [UInt8.ofNat w.toNat, UInt8.ofNat (w.toNat / 256), UInt8.ofNat (w.toNat / 65536),
    UInt8.ofNat (w.toNat / 16777216)]

theorem le32_putLE32 (w : UInt32) : le32 (putLE32 w) = w := by
  apply UInt32.toNat_inj.mp
  have hw := w.toNat_lt
  unfold le32 putLE32
  simp only [getD_cons_zero, getD_cons_succ, UInt8.toNat_ofNat', UInt32.toNat_ofNat']
  omega

variable {a b : Bytes}

theorem putLE32_le32 (h : b.length = 4) : putLE32 (le32 b) = b := by
  match b, h with
  | [b₀, b₁, b₂, b₃], _ =>
    have h₀ := b₀.toNat_lt
    have h₁ := b₁.toNat_lt
    have h₂ := b₂.toNat_lt
    have h₃ := b₃.toNat_lt
    -- the sum fits in a word
    have hsum : (le32 [b₀, b₁, b₂, b₃]).toNat
        = b₀.toNat + 256 * b₁.toNat + 65536 * b₂.toNat + 16777216 * b₃.toNat := by
      unfold le32
      simp only [getD_cons_zero, getD_cons_succ, UInt32.toNat_ofNat']
      omega
    unfold putLE32
    rw [hsum]
    refine congrArg₂ _ ?_ (congrArg₂ _ ?_ (congrArg₂ _ ?_ (congrArg₂ _ ?_ rfl)))
    all_goals
      apply UInt8.toNat_inj.mp
      rw [UInt8.toNat_ofNat']
      omega

/-- Missing bytes count as zero. -/
theorem le32_pad (b : Bytes) (k : Nat) : le32 (b ++ List.replicate k 0) = le32 b := by
  have hget : ∀ i, (b ++ List.replicate k 0).getD i 0 = b.getD i 0 := by
    intro i
    simp only [getD_eq_getElem?_getD]
    by_cases hi : i < b.length
    · rw [List.getElem?_append_left hi]
    · rw [List.getElem?_append_right (by omega), List.getElem?_replicate,
        List.getElem?_eq_none (by omega)]
      split <;> rfl
  unfold le32
  simp only [hget]

theorem le32_inj (hlen : a.length = b.length) (h4 : a.length ≤ 4) (h : le32 a = le32 b) :
    a = b := by
  rw [← le32_pad a (4 - a.length), ← le32_pad b (4 - a.length)] at h
  have hput := congrArg putLE32 h
  rw [putLE32_le32 (by rw [length_append, length_replicate]; omega),
    putLE32_le32 (by rw [length_append, length_replicate]; omega)] at hput
  exact (append_inj hput hlen).1

/-- `bytesToUint32sLE`. -/
def wordsLE (data : Bytes) : List UInt32 := (chunks 4 data).map le32

/-- `uint32sToBytesLE`. -/
def bytesLE (v : List UInt32) : Bytes := (v.map putLE32).flatten

theorem wordsLE_length (data : Bytes) : (wordsLE data).length = data.length / 4 := by
  unfold wordsLE
  rw [length_map, chunks_length]

theorem wordsLE_append (h : 4 ∣ a.length) (b : Bytes) :
    wordsLE (a ++ b) = wordsLE a ++ wordsLE b := by
  unfold wordsLE
  rw [chunks_append (by omega) h, map_append]

theorem wordsLE_bytesLE (v : List UInt32) : wordsLE (bytesLE v) = v := by
  unfold wordsLE bytesLE
  have h4 : ∀ b ∈ v.map putLE32, b.length = 4 := by
    intro b hb
    obtain ⟨w, -, rfl⟩ := mem_map.mp hb
    rfl
  rw [chunks_of_flatten (by omega) h4, map_map]
  exact (map_congr_left fun w _ => le32_putLE32 w).trans (map_id v)

theorem bytesLE_wordsLE {data : Bytes} (h : 4 ∣ data.length) : bytesLE (wordsLE data) = data := by
  unfold wordsLE bytesLE
  rw [map_map]
  have hblocks : (chunks 4 data).map (putLE32 ∘ le32) = chunks 4 data :=
    (map_congr_left fun b hb => putLE32_le32 (chunks_length_eq data b hb)).trans (map_id _)
  rw [hblocks, chunks_flatten h]

theorem bytesLE_length (v : List UInt32) : (bytesLE v).length = 4 * v.length := by
  unfold bytesLE
  rw [flatten_length, length_map]
  intro b hb
  obtain ⟨w, -, rfl⟩ := mem_map.mp hb
  rfl

/-! ## Cipher block chaining -/

/-- A block cipher under one key. -/
structure BlockCipher where
  encrypt : Bytes → Bytes
  decrypt : Bytes → Bytes

/-- The cipher inverts on blocks of `n` bytes. -/
structure BlockCipher.Lawful (c : BlockCipher) (n : Nat) : Prop where
  length : ∀ b, b.length = n → (c.encrypt b).length = n
  decrypt_encrypt : ∀ b, b.length = n → c.decrypt (c.encrypt b) = b

def xorBlock (a b : Bytes) : Bytes := List.zipWith (· ^^^ ·) a b

theorem xorBlock_length (h : a.length = b.length) : (xorBlock a b).length = b.length := by
  unfold xorBlock
  rw [length_zipWith, h, Nat.min_self]

theorem xorBlock_cancel (h : a.length = b.length) : xorBlock (xorBlock a b) b = a := by
  unfold xorBlock
  induction a generalizing b with
  | nil => rfl
  | cons x a ih =>
    cases b with
    | nil => simp at h
    | cons y b =>
      rw [length_cons, length_cons] at h
      rw [zipWith_cons_cons, zipWith_cons_cons, ih (by omega), UInt8.xor_assoc, UInt8.xor_self,
        UInt8.xor_zero]

def cbcEncrypt (c : BlockCipher) : Bytes → List Bytes → List Bytes
  | _, [] => []
  | prev, b :: bs => c.encrypt (xorBlock b prev) :: cbcEncrypt c (c.encrypt (xorBlock b prev)) bs

def cbcDecrypt (c : BlockCipher) : Bytes → List Bytes → List Bytes
  | _, [] => []
  | prev, b :: bs => xorBlock (c.decrypt b) prev :: cbcDecrypt c b bs

theorem cbcEncrypt_length {c : BlockCipher} {n : Nat} (hc : c.Lawful n) :
    ∀ (bs : List Bytes) (prev : Bytes), prev.length = n → (∀ b ∈ bs, b.length = n) →
      (cbcEncrypt c prev bs).length = bs.length ∧ ∀ b ∈ cbcEncrypt c prev bs, b.length = n := by
  intro bs
  induction bs with
  | nil => intro prev _ _; exact ⟨rfl, by simp [cbcEncrypt]⟩
  | cons b bs ih =>
    intro prev hprev hbs
    have hb := hbs b mem_cons_self
    have henc := hc.length (xorBlock b prev) ((xorBlock_length (hb.trans hprev.symm)).trans hprev)
    obtain ⟨hlen, hall⟩ := ih _ henc fun b' hb' => hbs b' (mem_cons_of_mem _ hb')
    refine ⟨congrArg Nat.succ hlen, fun b' hb' => ?_⟩
    rcases mem_cons.mp hb' with rfl | hb'
    · exact henc
    · exact hall b' hb'

/-- **Chaining inverts** if the block cipher does. -/
theorem cbcDecrypt_cbcEncrypt {c : BlockCipher} {n : Nat} (hc : c.Lawful n) :
    ∀ (bs : List Bytes) (prev : Bytes), prev.length = n → (∀ b ∈ bs, b.length = n) →
      cbcDecrypt c prev (cbcEncrypt c prev bs) = bs := by
  intro bs
  induction bs with
  | nil => intro prev _ _; rfl
  | cons b bs ih =>
    intro prev hprev hbs
    have hb := hbs b mem_cons_self
    have hxor := (xorBlock_length (hb.trans hprev.symm)).trans hprev
    show xorBlock (c.decrypt (c.encrypt (xorBlock b prev))) prev :: cbcDecrypt c _ _ = _
    rw [hc.decrypt_encrypt _ hxor, xorBlock_cancel (hb.trans hprev.symm),
      ih _ (hc.length _ hxor) fun b' hb' => hbs b' (mem_cons_of_mem _ hb')]

end Robot.Lib
