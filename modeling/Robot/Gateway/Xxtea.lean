import Robot.Lib.Blocks

/-!
# XXTEA

`crypto_cipher.go` has its own XXTEA over a whole message: a number of rounds, and in each
a walk over the words that adds to every word a mix of its two neighbours (the neighbours
of the first and the last word being each other). The code carries one neighbour along in
a variable, `z` when it encrypts and `y` when it decrypts.

The proof that decryption inverts it has three layers. `encRound_eq` and `decRound_eq` say
the carried variable is always the neighbour, so that a round is a fold of `mix` over the
positions, or of `unmix` over the reversed positions. One `unmix` undoes one `mix`, because
a word is not its own neighbour; `foldl_undo` gives a round, and an induction gives all
rounds, with the sums in step.

The number of rounds is `6 + 52 / uint32(n)` for `n` words, so a message of a multiple of
`2 ^ 32` words divides by zero: `xxteaRounds` is `none` there.
-/

namespace Robot.Gateway

open Robot.Lib List

/-- `[4]uint32`. -/
abbrev XxteaKey : Type := Fin 4 → UInt32

def xxteaDelta : UInt32 := 0x9e3779b9

/-- `xxteaMX`. -/
def xxteaMX (sum y z p e : UInt32) (key : XxteaKey) : UInt32 :=
  (((z >>> 5) ^^^ (y <<< 2)) + ((y >>> 3) ^^^ (z <<< 4)))
    ^^^ ((sum ^^^ y) + (key (Fin.ofNat 4 ((p &&& 3) ^^^ e).toNat) ^^^ z))

/-- `rounds`; the division by `uint32(n)` panics at `0`. -/
def xxteaRounds (n : Nat) : Option Nat :=
  if n % 2 ^ 32 = 0 then none else some (6 + 52 / (n % 2 ^ 32))

/-! ## The loops -/

/-- `v[p] += xxteaMX(sum, y, z, p, e, key)`, `e` being `(sum >> 2) & 3`. -/
def addMX (key : XxteaKey) (sum : UInt32) (v : List UInt32) (p : Nat) (y z : UInt32) : List UInt32 :=
  v.set p (v.getD p 0 + xxteaMX sum y z (UInt32.ofNat p) ((sum >>> 2) &&& 3) key)

/-- `v[p] -= xxteaMX(sum, y, z, p, e, key)`. -/
def subMX (key : XxteaKey) (sum : UInt32) (v : List UInt32) (p : Nat) (y z : UInt32) : List UInt32 :=
  v.set p (v.getD p 0 - xxteaMX sum y z (UInt32.ofNat p) ((sum >>> 2) &&& 3) key)

/-- The inner loop of `xxteaEncryptBlock`, `for p := 0; p < n-1; p++`, with `z`. -/
def encInner (key : XxteaKey) (sum : UInt32) (st : List UInt32 × UInt32) (p : Nat) :
    List UInt32 × UInt32 :=
  let v := addMX key sum st.1 p (st.1.getD (p + 1) 0) st.2
  (v, v.getD p 0)

/-- One round of `xxteaEncryptBlock`. -/
def encRound (key : XxteaKey) (n : Nat) (sum : UInt32) (st : List UInt32 × UInt32) :
    List UInt32 × UInt32 :=
  let st := (List.range (n - 1)).foldl (encInner key sum) st
  let v := addMX key sum st.1 (n - 1) (st.1.getD 0 0) st.2
  (v, v.getD (n - 1) 0)

/-- `for ; rounds > 0; rounds--`, the sum raised first. -/
def encRounds (key : XxteaKey) (n : Nat) : Nat → UInt32 → List UInt32 × UInt32 → List UInt32 × UInt32
  | 0, _, st => st
  | rounds + 1, sum, st =>
    encRounds key n rounds (sum + xxteaDelta) (encRound key n (sum + xxteaDelta) st)

/-- `xxteaEncryptBlock`; `none` is the panic. -/
def xxteaEncryptBlock (v : List UInt32) (key : XxteaKey) : Option (List UInt32) :=
  if v.length < 2 then some v
  else (xxteaRounds v.length).map fun rounds =>
    (encRounds key v.length rounds 0 (v, v.getD (v.length - 1) 0)).1

/-- The inner loop of `xxteaDecryptBlock`: turn `i` of `for p := n - 1; p > 0; p--`, with `y`. -/
def decInner (key : XxteaKey) (n : Nat) (sum : UInt32) (st : List UInt32 × UInt32) (i : Nat) :
    List UInt32 × UInt32 :=
  let p := n - 1 - i
  let v := subMX key sum st.1 p st.2 (st.1.getD (p - 1) 0)
  (v, v.getD p 0)

/-- One round of `xxteaDecryptBlock`. -/
def decRound (key : XxteaKey) (n : Nat) (sum : UInt32) (st : List UInt32 × UInt32) :
    List UInt32 × UInt32 :=
  let st := (List.range (n - 1)).foldl (decInner key n sum) st
  let v := subMX key sum st.1 0 st.2 (st.1.getD (n - 1) 0)
  (v, v.getD 0 0)

/-- The rounds, the sum lowered last. -/
def decRounds (key : XxteaKey) (n : Nat) : Nat → UInt32 → List UInt32 × UInt32 → List UInt32 × UInt32
  | 0, _, st => st
  | rounds + 1, sum, st =>
    decRounds key n rounds (sum - xxteaDelta) (decRound key n sum st)

/-- `xxteaDecryptBlock`. -/
def xxteaDecryptBlock (v : List UInt32) (key : XxteaKey) : Option (List UInt32) :=
  if v.length < 2 then some v
  else (xxteaRounds v.length).map fun rounds =>
    (decRounds key v.length rounds (UInt32.ofNat rounds * xxteaDelta) (v, v.getD 0 0)).1

/-! ## Positions on a ring -/

/-- The neighbour above. -/
def above (n p : Nat) : Nat := if p + 1 = n then 0 else p + 1

/-- The neighbour below. -/
def below (n p : Nat) : Nat := if p = 0 then n - 1 else p - 1

/-- Word `p` gets the mix of its neighbours added. -/
def mix (key : XxteaKey) (n : Nat) (sum : UInt32) (p : Nat) (v : List UInt32) : List UInt32 :=
  addMX key sum v p (v.getD (above n p) 0) (v.getD (below n p) 0)

/-- Word `p` gets the mix of its neighbours subtracted. -/
def unmix (key : XxteaKey) (n : Nat) (sum : UInt32) (p : Nat) (v : List UInt32) : List UInt32 :=
  subMX key sum v p (v.getD (above n p) 0) (v.getD (below n p) 0)

section

variable {key : XxteaKey} {n : Nat} {sum : UInt32} {v : List UInt32}

theorem getD_set_self {p : Nat} {x : UInt32} (hp : p < v.length) : (v.set p x).getD p 0 = x := by
  rw [getD_eq_getElem?_getD, List.getElem?_set_self hp]
  rfl

theorem getD_set_ne {p q : Nat} {x : UInt32} (h : p ≠ q) : (v.set p x).getD q 0 = v.getD q 0 := by
  rw [getD_eq_getElem?_getD, List.getElem?_set_ne h, getD_eq_getElem?_getD]

@[simp] theorem mix_length (p : Nat) : (mix key n sum p v).length = v.length :=
  length_set

@[simp] theorem unmix_length (p : Nat) : (unmix key n sum p v).length = v.length :=
  length_set

/-- A word is not its own neighbour. -/
theorem ne_neighbours (hn : 2 ≤ n) (p : Nat) : p ≠ above n p ∧ p ≠ below n p := by
  unfold above below
  split
  · split
    · omega
    · omega
  · split
    · omega
    · omega

/-- One step back. -/
theorem unmix_mix (hn : 2 ≤ n) (hv : v.length = n) {p : Nat} (hp : p < n) :
    unmix key n sum p (mix key n sum p v) = v := by
  obtain ⟨habove, hbelow⟩ := ne_neighbours hn p
  unfold unmix mix subMX addMX
  rw [getD_set_ne habove, getD_set_ne hbelow, getD_set_self (by omega), set_set,
    UInt32.add_sub_cancel, getD_eq_getElem v 0 (by omega), set_getElem_self]

/-- One step on again. -/
theorem mix_unmix (hn : 2 ≤ n) (hv : v.length = n) {p : Nat} (hp : p < n) :
    mix key n sum p (unmix key n sum p v) = v := by
  obtain ⟨habove, hbelow⟩ := ne_neighbours hn p
  unfold unmix mix subMX addMX
  rw [getD_set_ne habove, getD_set_ne hbelow, getD_set_self (by omega), set_set,
    UInt32.sub_add_cancel, getD_eq_getElem v 0 (by omega), set_getElem_self]

/-! ## Rounds -/

/-- All positions upwards. -/
def mixRound (key : XxteaKey) (n : Nat) (sum : UInt32) (v : List UInt32) : List UInt32 :=
  (List.range n).foldl (fun v p => mix key n sum p v) v

/-- All positions downwards. -/
def unmixRound (key : XxteaKey) (n : Nat) (sum : UInt32) (v : List UInt32) : List UInt32 :=
  (List.range n).reverse.foldl (fun v p => unmix key n sum p v) v

theorem foldl_length {f : Nat → List UInt32 → List UInt32} (hf : ∀ p v, (f p v).length = v.length)
    (l : List Nat) : (l.foldl (fun v p => f p v) v).length = v.length := by
  induction l generalizing v with
  | nil => rfl
  | cons p l ih => rw [foldl_cons, ih, hf]

@[simp] theorem mixRound_length : (mixRound key n sum v).length = v.length :=
  foldl_length (fun p _ => mix_length p) _

@[simp] theorem unmixRound_length : (unmixRound key n sum v).length = v.length :=
  foldl_length (fun p _ => unmix_length p) _

/-- While encrypting, `z` is the word below the next position. -/
theorem foldl_encInner : ∀ k, k ≤ n - 1 →
    (List.range k).foldl (encInner key sum) (v, v.getD (n - 1) 0)
      = ((List.range k).foldl (fun v p => mix key n sum p v) v,
          ((List.range k).foldl (fun v p => mix key n sum p v) v).getD (below n k) 0) := by
  intro k
  induction k with
  | zero => intro _; rfl
  | succ k ih =>
    intro hk
    have habove : above n k = k + 1 := if_neg (by omega)
    have hbelow : below n (k + 1) = k := if_neg (by omega)
    rw [range_succ, foldl_append, foldl_append, ih (by omega), hbelow]
    unfold encInner
    simp only [foldl_cons, foldl_nil]
    unfold mix
    rw [habove]

theorem range_eq_append {n : Nat} (hn : 1 ≤ n) : List.range n = List.range (n - 1) ++ [n - 1] := by
  rw [← range_succ]
  congr 1
  omega

theorem encRound_eq (hn : 2 ≤ n) :
    encRound key n sum (v, v.getD (n - 1) 0)
      = (mixRound key n sum v, (mixRound key n sum v).getD (n - 1) 0) := by
  have habove : above n (n - 1) = 0 := if_pos (by omega)
  unfold encRound mixRound
  rw [foldl_encInner (n - 1) (Nat.le_refl _), range_eq_append (n := n) (by omega), foldl_append]
  simp only [foldl_cons, foldl_nil]
  unfold mix
  rw [habove]

/-- While decrypting, `y` is the word above the next position. -/
theorem foldl_decInner (hn : 2 ≤ n) : ∀ k, k ≤ n - 1 →
    (List.range k).foldl (decInner key n sum) (v, v.getD 0 0)
      = ((List.range k).foldl (fun v i => unmix key n sum (n - 1 - i) v) v,
          ((List.range k).foldl (fun v i => unmix key n sum (n - 1 - i) v) v).getD
            (above n (n - 1 - k)) 0) := by
  intro k
  induction k with
  | zero =>
    intro _
    have habove : above n (n - 1 - 0) = 0 := if_pos (by omega)
    rw [habove]
    rfl
  | succ k ih =>
    intro hk
    have hbelow : below n (n - 1 - k) = n - 1 - k - 1 := if_neg (by omega)
    have habove : above n (n - 1 - (k + 1)) = n - 1 - k := by
      unfold above
      rw [if_neg (by omega)]
      omega
    rw [range_succ, foldl_append, foldl_append, ih (by omega), habove]
    unfold decInner
    simp only [foldl_cons, foldl_nil]
    unfold unmix
    rw [hbelow]

theorem decRound_eq (hn : 2 ≤ n) :
    decRound key n sum (v, v.getD 0 0)
      = (unmixRound key n sum v, (unmixRound key n sum v).getD 0 0) := by
  have hdown : unmixRound key n sum v
      = (List.range n).foldl (fun v i => unmix key n sum (n - 1 - i) v) v := by
    unfold unmixRound
    rw [range_eq_range', reverse_range', foldl_map, ← range_eq_range']
    simp only [Nat.zero_add]
  have hzero : n - 1 - (n - 1) = 0 := by omega
  rw [hdown, range_eq_append (n := n) (by omega)]
  unfold decRound
  rw [foldl_decInner hn (n - 1) (Nat.le_refl _), foldl_append, hzero]
  simp only [foldl_cons, foldl_nil]
  unfold unmix
  rw [hzero]
  rfl

/-- **A round undoes a round.** -/
theorem unmixRound_mixRound (hn : 2 ≤ n) (hv : v.length = n) :
    unmixRound key n sum (mixRound key n sum v) = v :=
  foldl_undo (mix key n sum) (unmix key n sum) (fun v => v.length = n)
    (fun p _ hv => (mix_length p).trans hv) (List.range n)
    (fun _ hp _ hv => unmix_mix hn hv (mem_range.mp hp)) v hv

theorem mixRound_unmixRound (hn : 2 ≤ n) (hv : v.length = n) :
    mixRound key n sum (unmixRound key n sum v) = v := by
  have h := foldl_undo (unmix key n sum) (mix key n sum) (fun v => v.length = n)
    (fun p _ hv => (unmix_length p).trans hv) (List.range n).reverse
    (fun _ hp _ hv => mix_unmix hn hv (mem_range.mp (mem_reverse.mp hp))) v hv
  rwa [reverse_reverse] at h

/-! ## All rounds -/

/-- The rounds without the carried variable. -/
def mixRounds (key : XxteaKey) (n : Nat) : Nat → UInt32 → List UInt32 → List UInt32
  | 0, _, v => v
  | rounds + 1, sum, v =>
    mixRounds key n rounds (sum + xxteaDelta) (mixRound key n (sum + xxteaDelta) v)

def unmixRounds (key : XxteaKey) (n : Nat) : Nat → UInt32 → List UInt32 → List UInt32
  | 0, _, v => v
  | rounds + 1, sum, v => unmixRounds key n rounds (sum - xxteaDelta) (unmixRound key n sum v)

theorem encRounds_eq (hn : 2 ≤ n) : ∀ (rounds : Nat) (sum : UInt32) (v : List UInt32),
    (encRounds key n rounds sum (v, v.getD (n - 1) 0)).1 = mixRounds key n rounds sum v := by
  intro rounds
  induction rounds with
  | zero => intro sum v; rfl
  | succ rounds ih =>
    intro sum v
    unfold encRounds mixRounds
    rw [encRound_eq hn, ih]

theorem decRounds_eq (hn : 2 ≤ n) : ∀ (rounds : Nat) (sum : UInt32) (v : List UInt32),
    (decRounds key n rounds sum (v, v.getD 0 0)).1 = unmixRounds key n rounds sum v := by
  intro rounds
  induction rounds with
  | zero => intro sum v; rfl
  | succ rounds ih =>
    intro sum v
    unfold decRounds unmixRounds
    rw [decRound_eq hn, ih]

@[simp] theorem mixRounds_length : ∀ (rounds : Nat) (sum : UInt32) (v : List UInt32),
    (mixRounds key n rounds sum v).length = v.length := by
  intro rounds
  induction rounds with
  | zero => intro sum v; rfl
  | succ rounds ih =>
    intro sum v
    unfold mixRounds
    rw [ih, mixRound_length]

@[simp] theorem unmixRounds_length : ∀ (rounds : Nat) (sum : UInt32) (v : List UInt32),
    (unmixRounds key n rounds sum v).length = v.length := by
  intro rounds
  induction rounds with
  | zero => intro sum v; rfl
  | succ rounds ih =>
    intro sum v
    unfold unmixRounds
    rw [ih, unmixRound_length]

/-- The sum after some rounds. -/
theorem sum_succ (rounds : Nat) (sum : UInt32) :
    sum + UInt32.ofNat (rounds + 1) * xxteaDelta = sum + UInt32.ofNat rounds * xxteaDelta + xxteaDelta := by
  rw [UInt32.ofNat_add, UInt32.add_mul, ← UInt32.add_assoc]
  congr 1

/-- The last round taken apart: the one decryption starts with. -/
theorem mixRounds_last : ∀ (rounds : Nat) (sum : UInt32) (v : List UInt32),
    mixRounds key n (rounds + 1) sum v
      = mixRound key n (sum + UInt32.ofNat (rounds + 1) * xxteaDelta) (mixRounds key n rounds sum v) := by
  intro rounds
  induction rounds with
  | zero =>
    intro sum v
    rw [sum_succ]
    show mixRound key n (sum + xxteaDelta) v = mixRound key n (sum + 0 * xxteaDelta + xxteaDelta) v
    rw [UInt32.zero_mul, UInt32.add_zero]
  | succ rounds ih =>
    intro sum v
    have h := ih (sum + xxteaDelta) (mixRound key n (sum + xxteaDelta) v)
    have hsum : sum + xxteaDelta + UInt32.ofNat (rounds + 1) * xxteaDelta
        = sum + UInt32.ofNat (rounds + 1 + 1) * xxteaDelta := by
      rw [sum_succ (rounds + 1), UInt32.add_assoc, UInt32.add_comm xxteaDelta, UInt32.add_assoc]
    rw [hsum] at h
    exact h

/-- The first round of decryption taken apart. -/
theorem unmixRounds_first (rounds : Nat) (v : List UInt32) :
    unmixRounds key n (rounds + 1) (UInt32.ofNat (rounds + 1) * xxteaDelta) v =
      unmixRounds key n rounds (UInt32.ofNat rounds * xxteaDelta)
        (unmixRound key n (UInt32.ofNat (rounds + 1) * xxteaDelta) v) := by
  have hsum := sum_succ rounds 0
  rw [UInt32.zero_add, UInt32.zero_add] at hsum
  show unmixRounds key n rounds (UInt32.ofNat (rounds + 1) * xxteaDelta - xxteaDelta) _ = _
  rw [hsum, UInt32.add_sub_cancel]

/-- **Decryption inverts encryption**, round by round from the last. -/
theorem unmixRounds_mixRounds (hn : 2 ≤ n) : ∀ (rounds : Nat) (v : List UInt32), v.length = n →
    unmixRounds key n rounds (UInt32.ofNat rounds * xxteaDelta) (mixRounds key n rounds 0 v) = v := by
  intro rounds
  induction rounds with
  | zero => intro v _; rfl
  | succ rounds ih =>
    intro v hv
    rw [mixRounds_last, UInt32.zero_add, unmixRounds_first,
      unmixRound_mixRound hn (by rw [mixRounds_length]; exact hv)]
    exact ih v hv

/-- **And encryption inverts decryption.** -/
theorem mixRounds_unmixRounds (hn : 2 ≤ n) : ∀ (rounds : Nat) (v : List UInt32), v.length = n →
    mixRounds key n rounds 0 (unmixRounds key n rounds (UInt32.ofNat rounds * xxteaDelta) v) = v := by
  intro rounds
  induction rounds with
  | zero => intro v _; rfl
  | succ rounds ih =>
    intro v hv
    rw [mixRounds_last, UInt32.zero_add, unmixRounds_first, ih _ (unmixRound_length.trans hv)]
    exact mixRound_unmixRound hn hv

end

theorem xxteaEncryptBlock_eq (key : XxteaKey) {v : List UInt32} (hn : 2 ≤ v.length) :
    xxteaEncryptBlock v key =
      (xxteaRounds v.length).map fun rounds => mixRounds key v.length rounds 0 v := by
  unfold xxteaEncryptBlock
  rw [if_neg (by omega)]
  exact congrArg (Option.map · _) (funext fun rounds => encRounds_eq hn rounds 0 v)

theorem xxteaDecryptBlock_eq (key : XxteaKey) {v : List UInt32} (hn : 2 ≤ v.length) :
    xxteaDecryptBlock v key = (xxteaRounds v.length).map fun rounds =>
      unmixRounds key v.length rounds (UInt32.ofNat rounds * xxteaDelta) v := by
  unfold xxteaDecryptBlock
  rw [if_neg (by omega)]
  exact congrArg (Option.map · _) (funext fun rounds => decRounds_eq hn rounds _ v)

/-- The two invert each other, and fail only where the division does. -/
theorem xxteaBlock_inverse (key : XxteaKey) {v : List UInt32} (hn : 2 ≤ v.length) :
    (v.length % 2 ^ 32 = 0 ∧ xxteaEncryptBlock v key = none) ∨
    (v.length % 2 ^ 32 ≠ 0 ∧ (∃ w, xxteaEncryptBlock v key = some w ∧ w.length = v.length ∧
      xxteaDecryptBlock w key = some v) ∧
      ∃ w, xxteaDecryptBlock v key = some w ∧ xxteaEncryptBlock w key = some v) := by
  by_cases hzero : v.length % 2 ^ 32 = 0
  · have hrounds : xxteaRounds v.length = none := if_pos hzero
    exact Or.inl ⟨hzero, by rw [xxteaEncryptBlock_eq key hn, hrounds]; rfl⟩
  · have hrounds : xxteaRounds v.length = some (6 + 52 / (v.length % 2 ^ 32)) := if_neg hzero
    generalize 6 + 52 / (v.length % 2 ^ 32) = rounds at hrounds
    have hmix : (mixRounds key v.length rounds 0 v).length = v.length := mixRounds_length ..
    have hunmix : (unmixRounds key v.length rounds (UInt32.ofNat rounds * xxteaDelta) v).length =
        v.length := unmixRounds_length ..
    refine Or.inr ⟨hzero, ⟨_, ?_, hmix, ?_⟩,
      unmixRounds key v.length rounds (UInt32.ofNat rounds * xxteaDelta) v, ?_, ?_⟩
    · rw [xxteaEncryptBlock_eq key hn, hrounds]
      rfl
    · rw [xxteaDecryptBlock_eq key (by omega), hmix, hrounds]
      exact congrArg some (unmixRounds_mixRounds hn rounds v rfl)
    · rw [xxteaDecryptBlock_eq key hn, hrounds]
      rfl
    · rw [xxteaEncryptBlock_eq key (by omega), hunmix, hrounds]
      exact congrArg some (mixRounds_unmixRounds hn rounds v rfl)

end Robot.Gateway
