import Robot.Lib.Pow2
import Robot.Lib.MapHistory

/-!
# `RPCRingBuffer` refines a partial map

`data/rpc_ring_buffer.go` keeps the tasks that wait for an RPC response in a
direct-mapped table: `sequence & (capacity - 1)` picks the slot, and a slot carries
three redundant fields (`sequence`, `task`, `occupied`). `sequence = 0` is written into
a freed slot *and* is a legal sequence, so only `occupied` tells the two apart.

The operations below are the source's, one atomic section each (the slot mutex is
held from the test to the last write; the lock-free test of `occupied` that opens
`Load` and `LoadAndDelete` is repeated under the lock). `StoreBlocking` is modelled
by one turn of its spin loop: `none` is a turn that found the slot taken.

`abs` forgets the representation. Each operation is shown to act on `abs` as the map
operation does (`store_abs`, `loadAndDelete_abs`, …), and `exec_simulates` carries
that along any sequence of operations: the buffer holds exactly what the history of
answers says it holds.
-/

namespace Robot.Data

open Robot.Lib (roundPow2 roundPow2_spec mask_toNat toUInt64_le_of_nonneg MapEvent held Conflict
  Answers Consistent held_single take_once)

variable {τ : Type}

/-- A slot; `task = none` is Go's nil interface. -/
structure RpcSlot (τ : Type) where
  sequence : UInt64
  task : Option τ
  occupied : Bool

/-- The zero value of a slot, also what a removal leaves behind. -/
def RpcSlot.free : RpcSlot τ := ⟨0, none, false⟩

/-- The buffer. The mask arithmetic is sound because the capacity is a power of two
and the slice has that length, both fixed at construction; `filed` says that an
occupied slot only ever carries a sequence that indexes to it. -/
structure RPCRingBuffer (τ : Type) where
  slots : Array (RpcSlot τ)
  capacity : UInt64
  pow2 : ∃ j, j ≤ 63 ∧ capacity.toNat = 2 ^ j
  size_eq : slots.size = capacity.toNat
  filed : ∀ (i : Nat) (x : RpcSlot τ), slots[i]? = some x → x.occupied = true →
    x.sequence.toNat % capacity.toNat = i

/-- `NewRPCRingBuffer`. A negative request makes the loop shift `cap` out to `0` and
never stop; that is `none` here. -/
def newRPCRingBuffer (capacity : Int64) : Option (RPCRingBuffer τ) :=
  if h : 0 ≤ capacity then
    some
      { slots := Array.replicate (roundPow2 capacity.toUInt64).toNat RpcSlot.free
        capacity := roundPow2 capacity.toUInt64
        pow2 := by
          obtain ⟨j, hj, hval, -⟩ := roundPow2_spec (toUInt64_le_of_nonneg h)
          exact ⟨j, hj, hval⟩
        size_eq := Array.size_replicate
        filed := by
          intro i x hx hocc
          rw [Array.getElem?_replicate] at hx
          split at hx
          · rw [Option.some.injEq] at hx
            subst hx
            simp [RpcSlot.free] at hocc
          · simp at hx }
  else none

namespace RPCRingBuffer

/-- `sequence & (r.capacity - 1)`. -/
def idx (r : RPCRingBuffer τ) (sequence : UInt64) : Nat :=
  (sequence &&& (r.capacity - 1)).toNat

/-- `&r.slots[idx]`, read. -/
def slot (r : RPCRingBuffer τ) (sequence : UInt64) : RpcSlot τ :=
  r.slots.getD (r.idx sequence) RpcSlot.free

variable (r : RPCRingBuffer τ)

theorem idx_eq_mod (s : UInt64) : r.idx s = s.toNat % r.capacity.toNat := by
  obtain ⟨j, -, hj⟩ := r.pow2
  unfold idx
  rw [mask_toNat hj, hj]

/-- `r.slots[idx]`, written: with a slot filed under `sequence`, or with a free one. -/
def setSlot (r : RPCRingBuffer τ) (sequence : UInt64) (x : RpcSlot τ)
    (hx : x.occupied = true → x.sequence = sequence) : RPCRingBuffer τ :=
  { r with
    slots := r.slots.setIfInBounds (r.idx sequence) x
    size_eq := (Array.size_setIfInBounds ..).trans r.size_eq
    filed := by
      intro i y hy hocc
      rw [Array.getElem?_setIfInBounds] at hy
      split at hy
      next hi =>
        split at hy
        · rw [Option.some.injEq] at hy
          subst hy
          rw [hx hocc, ← idx_eq_mod, hi]
        · simp at hy
      next => exact r.filed i y hy hocc }

/-- The slot a store writes. -/
def putSlot (r : RPCRingBuffer τ) (sequence : UInt64) (task : Option τ) : RPCRingBuffer τ :=
  r.setSlot sequence ⟨sequence, task, true⟩ (fun _ => rfl)

/-- The slot a removal writes. -/
def freeSlot (r : RPCRingBuffer τ) (sequence : UInt64) : RPCRingBuffer τ :=
  r.setSlot sequence RpcSlot.free (fun h => by simp [RpcSlot.free] at h)

/-- `Store`: the error text, or `none` for a nil error. -/
def store (r : RPCRingBuffer τ) (sequence : UInt64) (task : Option τ) :
    Option String × RPCRingBuffer τ :=
  if (r.slot sequence).occupied && (r.slot sequence).sequence != sequence then
    (some (s!"rpc ring buffer slot {r.idx sequence} occupied by seq "
      ++ s!"{(r.slot sequence).sequence}, cannot store seq {sequence}"), r)
  else (none, r.putSlot sequence task)

/-- `Load`. -/
def load (r : RPCRingBuffer τ) (sequence : UInt64) : Option τ × Bool :=
  if !(r.slot sequence).occupied then (none, false)
  else if !(r.slot sequence).occupied || (r.slot sequence).sequence != sequence then (none, false)
  else ((r.slot sequence).task, true)

/-- `LoadAndDelete`. -/
def loadAndDelete (r : RPCRingBuffer τ) (sequence : UInt64) :
    (Option τ × Bool) × RPCRingBuffer τ :=
  if !(r.slot sequence).occupied then ((none, false), r)
  else if !(r.slot sequence).occupied || (r.slot sequence).sequence != sequence then
    ((none, false), r)
  else (((r.slot sequence).task, true), r.freeSlot sequence)

/-- `Delete`. -/
def delete (r : RPCRingBuffer τ) (sequence : UInt64) : RPCRingBuffer τ :=
  if (r.slot sequence).occupied && (r.slot sequence).sequence == sequence then
    r.freeSlot sequence
  else r

/-- One turn of the `StoreBlocking` loop: the new buffer when it returns, `none` when
the slot belongs to another sequence and the loop goes round again. -/
def storeBlocking (r : RPCRingBuffer τ) (sequence : UInt64) (task : Option τ) :
    Option (RPCRingBuffer τ) :=
  if !(r.slot sequence).occupied || (r.slot sequence).sequence == sequence then
    some (r.putSlot sequence task)
  else none

/-! ## Slot plumbing -/

/-- The residue class a sequence shares its slot with. -/
def residue (r : RPCRingBuffer τ) (sequence : UInt64) : Nat :=
  sequence.toNat % r.capacity.toNat

theorem idx_lt (s : UInt64) : r.idx s < r.slots.size := by
  obtain ⟨j, -, hj⟩ := r.pow2
  rw [idx_eq_mod, r.size_eq, hj]
  exact Nat.mod_lt _ (Nat.two_pow_pos j)

/-- A write is seen by every sequence of the same residue and by no other. -/
theorem slot_setSlot (s s' : UInt64) (x : RpcSlot τ) (hx : x.occupied = true → x.sequence = s) :
    (r.setSlot s x hx).slot s' = if r.residue s' = r.residue s then x else r.slot s' := by
  have hlt := r.idx_lt s
  show (r.slots.setIfInBounds (r.idx s) x).getD (r.idx s') RpcSlot.free = _
  rw [Array.getD_eq_getD_getElem?, Array.getElem?_setIfInBounds]
  unfold residue
  rw [← idx_eq_mod, ← idx_eq_mod]
  split
  next he => rw [if_pos he.symm]; rfl
  next hne => rw [if_neg (fun h => hne h.symm), slot, Array.getD_eq_getD_getElem?]

theorem slot_congr {s s' : UInt64} (h : r.residue s = r.residue s') : r.slot s = r.slot s' := by
  unfold slot
  rw [idx_eq_mod, idx_eq_mod]
  exact congrArg (fun i => r.slots.getD i RpcSlot.free) h

/-- An occupied slot carries a sequence of its own residue. -/
theorem slot_filed (s : UInt64) (h : (r.slot s).occupied = true) :
    r.residue (r.slot s).sequence = r.residue s := by
  have hget : r.slots[r.idx s]? = some (r.slot s) := by
    unfold slot
    rw [Array.getD_eq_getD_getElem?, Array.getElem?_eq_getElem (r.idx_lt s)]
    rfl
  have := r.filed _ _ hget h
  rw [idx_eq_mod] at this
  exact this

/-! ## The abstraction -/

/-- What the buffer means: the task filed under exactly this sequence. -/
def abs (r : RPCRingBuffer τ) (s : UInt64) : Option (Option τ) :=
  if (r.slot s).occupied && (r.slot s).sequence == s then some (r.slot s).task else none

theorem abs_ne_none {r : RPCRingBuffer τ} {s : UInt64} :
    r.abs s ≠ none ↔ (r.slot s).occupied = true ∧ (r.slot s).sequence = s := by
  unfold abs
  split
  next h => simpa using h
  next h => simpa using h

/-- The slot is taken by another sequence exactly when the map holds another key of
the residue. -/
theorem taken_iff_conflict (s : UInt64) :
    ((r.slot s).occupied = true ∧ (r.slot s).sequence ≠ s) ↔ Conflict r.residue r.abs s := by
  constructor
  · intro h
    obtain ⟨hocc, hne⟩ := h
    have hres := r.slot_filed s hocc
    refine ⟨(r.slot s).sequence, hne, hres, abs_ne_none.mpr ?_⟩
    rw [r.slot_congr hres]
    exact ⟨hocc, rfl⟩
  · intro hconf
    obtain ⟨s', hne, hres, hheld⟩ := hconf
    obtain ⟨hocc, hseq⟩ := abs_ne_none.mp hheld
    rw [r.slot_congr hres] at hocc hseq
    exact ⟨hocc, by rw [hseq]; exact hne⟩

/-- Filing a task under `s` in a slot that no other sequence holds. -/
theorem abs_putSlot (s : UInt64) (t : Option τ) (hfree : ¬ Conflict r.residue r.abs s) :
    (r.putSlot s t).abs = fun s' => if s = s' then some t else r.abs s' := by
  funext s'
  unfold abs putSlot
  rw [slot_setSlot]
  by_cases hres : r.residue s' = r.residue s
  · rw [if_pos hres]
    by_cases he : s = s'
    · simp [he]
    · have habs : r.abs s' = none := by
        refine Classical.byContradiction fun hne => hfree ⟨s', fun h => he h.symm, hres, hne⟩
      unfold abs at habs
      rw [habs]
      simp [he]
  · have he : s ≠ s' := fun h => hres (h ▸ rfl)
    rw [if_neg hres, if_neg he]

/-- Freeing the slot that `s` holds. -/
theorem abs_freeSlot (s : UInt64) (hs : r.abs s ≠ none) :
    (r.freeSlot s).abs = fun s' => if s = s' then none else r.abs s' := by
  obtain ⟨hocc, hseq⟩ := abs_ne_none.mp hs
  funext s'
  unfold abs freeSlot
  rw [slot_setSlot]
  by_cases hres : r.residue s' = r.residue s
  · rw [if_pos hres, r.slot_congr hres, hseq]
    by_cases he : s = s'
    · simp [he, RpcSlot.free]
    · simp [he, RpcSlot.free]
  · have he : s ≠ s' := fun h => hres (h ▸ rfl)
    rw [if_neg hres, if_neg he]

/-! ## Each operation against the map -/

/-- A slot that another sequence does not hold is free or has the sequence itself. -/
theorem free_or_own {r : RPCRingBuffer τ} {s : UInt64}
    (h : ¬ ((r.slot s).occupied = true ∧ (r.slot s).sequence ≠ s)) :
    (r.slot s).occupied = false ∨ (r.slot s).sequence = s := by
  cases hocc : (r.slot s).occupied with
  | false => exact .inl rfl
  | true => exact .inr (Classical.byContradiction fun hne => h ⟨hocc, hne⟩)

theorem store_cases (s : UInt64) (t : Option τ) :
    (Conflict r.residue r.abs s ∧ (r.store s t).1.isSome = true ∧ (r.store s t).2 = r) ∨
    (¬ Conflict r.residue r.abs s ∧ (r.store s t).1 = none ∧ (r.store s t).2 = r.putSlot s t) := by
  rw [← taken_iff_conflict]
  unfold store
  by_cases h : (r.slot s).occupied = true ∧ (r.slot s).sequence ≠ s
  · exact Or.inl ⟨h, by simp [h.1, h.2], by simp [h.1, h.2]⟩
  · have hc : ((r.slot s).occupied && (r.slot s).sequence != s) = false := by
      rcases free_or_own h with hocc | hseq
      · simp [hocc]
      · simp [hseq]
    refine Or.inr ⟨h, ?_, ?_⟩ <;> simp [hc]

theorem storeBlocking_cases (s : UInt64) (t : Option τ) :
    (Conflict r.residue r.abs s ∧ r.storeBlocking s t = none) ∨
    (¬ Conflict r.residue r.abs s ∧ r.storeBlocking s t = some (r.putSlot s t)) := by
  rw [← taken_iff_conflict]
  unfold storeBlocking
  by_cases h : (r.slot s).occupied = true ∧ (r.slot s).sequence ≠ s
  · exact Or.inl ⟨h, by simp [h.1, h.2]⟩
  · refine Or.inr ⟨h, if_pos ?_⟩
    rcases free_or_own h with hocc | hseq
    · simp [hocc]
    · simp [hseq]

/-- The answer of a lookup as the pair Go returns. -/
def answer : Option (Option τ) → Option τ × Bool
  | none => (none, false)
  | some t => (t, true)

theorem load_eq (s : UInt64) : r.load s = answer (r.abs s) := by
  unfold load abs
  cases hocc : (r.slot s).occupied with
  | false => simp [answer]
  | true =>
    by_cases hseq : (r.slot s).sequence = s
    · simp [hseq, answer]
    · simp [hseq, answer]

theorem loadAndDelete_cases (s : UInt64) : (r.abs s = none ∧ r.loadAndDelete s = ((none, false), r)) ∨
    (∃ t, r.abs s = some t ∧ r.loadAndDelete s = ((t, true), r.freeSlot s)) := by
  unfold loadAndDelete abs
  cases hocc : (r.slot s).occupied with
  | false => exact Or.inl ⟨by simp, by simp⟩
  | true =>
    by_cases hseq : (r.slot s).sequence = s
    · exact Or.inr ⟨(r.slot s).task, by simp [hseq], by simp [hseq]⟩
    · exact Or.inl ⟨by simp [hseq], by simp [hseq]⟩

theorem delete_abs (s : UInt64) : (r.delete s).abs = fun s' => if s = s' then none else r.abs s' := by
  unfold delete
  by_cases h : r.abs s = none
  · have hc : ((r.slot s).occupied && (r.slot s).sequence == s) = false := by
      unfold abs at h
      by_cases hc : ((r.slot s).occupied && (r.slot s).sequence == s) = true
      · rw [if_pos hc] at h
        simp at h
      · simpa using hc
    rw [hc]
    funext s'
    by_cases he : s = s'
    · rw [if_pos he, ← he]
      exact h
    · rw [if_neg he]
      rfl
  · obtain ⟨hocc, hseq⟩ := abs_ne_none.mp h
    rw [hocc, hseq]
    simpa using abs_freeSlot r s h

end RPCRingBuffer

/-! ## Whole sequences of operations -/

/-- A call on the buffer. -/
inductive RingOp (τ : Type) where
  | store (sequence : UInt64) (task : Option τ)
  | storeBlocking (sequence : UInt64) (task : Option τ)
  | load (sequence : UInt64)
  | loadAndDelete (sequence : UInt64)
  | delete (sequence : UInt64)

/-- One call with what it answered. A `StoreBlocking` turn that goes round again is a
refused store. -/
def RPCRingBuffer.call (r : RPCRingBuffer τ) :
    RingOp τ → RPCRingBuffer τ × MapEvent UInt64 (Option τ)
  | .store s t => ((r.store s t).2, .put s t (r.store s t).1.isNone)
  | .storeBlocking s t =>
    match r.storeBlocking s t with
    | some r' => (r', .put s t true)
    | none => (r, .put s t false)
  | .load s => (r, .get s (if (r.load s).2 then some (r.load s).1 else none))
  | .loadAndDelete s =>
    ((r.loadAndDelete s).2,
      .take s (if (r.loadAndDelete s).1.2 then some (r.loadAndDelete s).1.1 else none))
  | .delete s => (r.delete s, .drop s)

/-- A sequence of calls, with the history of answers (newest first). -/
def RPCRingBuffer.exec (r : RPCRingBuffer τ) (ops : List (RingOp τ)) :
    RPCRingBuffer τ × List (MapEvent UInt64 (Option τ)) :=
  ops.foldl (fun st op => ((st.1.call op).1, (st.1.call op).2 :: st.2)) (r, [])

namespace RPCRingBuffer

variable {h : List (MapEvent UInt64 (Option τ))} {r : RPCRingBuffer τ}

theorem answers_refused
    (habs : r.abs = held h) {s : UInt64} (t : Option τ) (hc : Conflict r.residue r.abs s) :
    Answers r.residue h (.put s t false) :=
  ⟨fun _ => habs ▸ hc, fun _ => rfl⟩

theorem answers_accepted
    (habs : r.abs = held h) {s : UInt64} (t : Option τ) (hc : ¬ Conflict r.residue r.abs s) :
    Answers r.residue h (.put s t true) :=
  ⟨fun hf => absurd hf (by simp), fun hcon => absurd (habs ▸ hcon) hc⟩

/-- Removing an absent key changes nothing. -/
theorem abs_absent {s : UInt64} (hn : r.abs s = none) : r.abs = fun s' => if s = s' then none else r.abs s' := by
  funext s'
  by_cases he : s = s'
  · rw [if_pos he, ← he]
    exact hn
  · rw [if_neg he]

/-- One call keeps the buffer and the history in step, and its answer is the map's. -/
theorem call_simulates (r : RPCRingBuffer τ) (op : RingOp τ) (habs : r.abs = held h) :
    (r.call op).1.capacity = r.capacity ∧
    Answers r.residue h (r.call op).2 ∧ (r.call op).1.abs = held ((r.call op).2 :: h) := by
  cases op with
  | store s t =>
    rcases r.store_cases s t with ⟨hc, he, hr⟩ | ⟨hc, he, hr⟩
    · have hn : (r.store s t).1.isNone = false := by
        rw [← Option.not_isSome, he]
        rfl
      simp only [call, hr, hn]
      exact ⟨trivial, answers_refused habs t hc, habs⟩
    · simp only [call, hr, he, Option.isNone_none]
      refine ⟨rfl, answers_accepted habs t hc, ?_⟩
      rw [abs_putSlot r s t hc, habs]
      rfl
  | storeBlocking s t =>
    rcases r.storeBlocking_cases s t with ⟨hc, he⟩ | ⟨hc, he⟩
    · simp only [call, he]
      exact ⟨trivial, answers_refused habs t hc, habs⟩
    · simp only [call, he]
      refine ⟨rfl, answers_accepted habs t hc, ?_⟩
      rw [abs_putSlot r s t hc, habs]
      rfl
  | load s =>
    refine ⟨rfl, ?_, habs⟩
    simp only [call, Answers, load_eq]
    rw [← habs]
    cases r.abs s <;> rfl
  | loadAndDelete s =>
    rcases r.loadAndDelete_cases s with ⟨hn, he⟩ | ⟨t, hs, he⟩
    · simp only [call, he, Answers]
      refine ⟨trivial, by rw [← habs, hn]; rfl, ?_⟩
      rw [abs_absent hn, habs]
      rfl
    · simp only [call, he, Answers]
      refine ⟨rfl, by rw [← habs, hs]; rfl, ?_⟩
      rw [abs_freeSlot r s (by rw [hs]; simp), habs]
      rfl
  | delete s =>
    refine ⟨?_, trivial, ?_⟩
    · simp only [call, delete]
      split <;> rfl
    · simp only [call]
      rw [delete_abs, habs]
      rfl

/-- The same along any sequence of calls, from any point where the two agree. -/
theorem foldl_simulates (ops : List (RingOp τ)) :
    ∀ (st : RPCRingBuffer τ × List (MapEvent UInt64 (Option τ))),
      st.1.abs = held st.2 → Consistent st.1.residue st.2 →
      let fin := ops.foldl (fun st op => ((st.1.call op).1, (st.1.call op).2 :: st.2)) st
      fin.1.capacity = st.1.capacity ∧ fin.1.abs = held fin.2 ∧
        Consistent st.1.residue fin.2 := by
  induction ops with
  | nil => intro st habs hcon; exact ⟨rfl, habs, hcon⟩
  | cons op ops ih =>
    intro st habs hcon
    obtain ⟨hcap, hans, hnext⟩ := st.1.call_simulates op habs
    have hres : (st.1.call op).1.residue = st.1.residue := by
      unfold residue
      rw [hcap]
    obtain ⟨hcap', habs', hcon'⟩ :=
      ih ((st.1.call op).1, (st.1.call op).2 :: st.2) hnext (by
        show Consistent (st.1.call op).1.residue _
        rw [hres]
        exact ⟨hans, hcon⟩)
    refine ⟨hcap'.trans hcap, habs', ?_⟩
    have hfin : Consistent (st.1.call op).1.residue _ := hcon'
    rw [hres] at hfin
    exact hfin

/-- A fresh buffer holds nothing. -/
theorem new_abs {capacity : Int64} (h : newRPCRingBuffer capacity = some r) : r.abs = fun _ => none := by
  unfold newRPCRingBuffer at h
  split at h
  next hnn =>
    rw [Option.some.injEq] at h
    subst h
    funext s
    have hslot : ((Array.replicate (roundPow2 capacity.toUInt64).toNat
        (RpcSlot.free : RpcSlot τ)).getD
          ((s &&& (roundPow2 capacity.toUInt64 - 1)).toNat) RpcSlot.free) = RpcSlot.free := by
      rw [Array.getD_eq_getD_getElem?, Array.getElem?_replicate]
      split <;> rfl
    simp only [abs, slot, idx, hslot]
    rfl
  next => simp at h

/-- **The simulation.** After any sequence of calls on a fresh buffer, the buffer holds
exactly what the history of answers says it holds, and every answer was the map's. -/
theorem exec_simulates {capacity : Int64} (h : newRPCRingBuffer capacity = some r) (ops : List (RingOp τ)) :
    (r.exec ops).1.capacity = r.capacity ∧ (r.exec ops).1.abs = held (r.exec ops).2 ∧
      Consistent r.residue (r.exec ops).2 :=
  foldl_simulates ops (r, []) (by rw [new_abs h]; rfl) trivial

/-- The least power of two not below the request. -/
theorem new_capacity {c : Int64} (hc : 1 ≤ c) :
    ∃ r : RPCRingBuffer τ, newRPCRingBuffer c = some r ∧
      ∃ j, r.capacity.toNat = 2 ^ j ∧ c.toNatClampNeg ≤ 2 ^ j ∧
        (j = 0 ∨ 2 ^ (j - 1) < c.toNatClampNeg) := by
  have h0 : 0 ≤ c := Int64.le_trans (by decide) hc
  obtain ⟨j, -, hval, hge, hmin⟩ := roundPow2_spec (toUInt64_le_of_nonneg h0)
  rw [Int64.toNat_toUInt64_of_le h0] at hge hmin
  unfold newRPCRingBuffer
  rw [dif_pos h0]
  exact ⟨_, rfl, j, hval, hge, hmin⟩

end RPCRingBuffer

open RPCRingBuffer in
/-- **`RPCRingBuffer` is a partial map with one entry per residue.** For every requested
capacity and after every sequence of calls, with `h` the history of the calls and their
answers: `Load` and `LoadAndDelete` answer with the latest accepted store of that very
sequence not removed since; no two held sequences share a residue; `Store` is refused,
and then changes nothing, exactly when another sequence of the residue is held, and
these are the turns on which `StoreBlocking` spins; and `LoadAndDelete` hands a stored
task out at most once. -/
theorem rpcRingBuffer_partial_map (c : Int64) (hc : 1 ≤ c) :
    ∃ r : RPCRingBuffer τ, newRPCRingBuffer c = some r ∧
      (∃ j, r.capacity.toNat = 2 ^ j ∧ c.toNatClampNeg ≤ 2 ^ j ∧
        (j = 0 ∨ 2 ^ (j - 1) < c.toNatClampNeg)) ∧
      ∀ (ops : List (RingOp τ)) (b : RPCRingBuffer τ) (h : List (MapEvent UInt64 (Option τ))),
        r.exec ops = (b, h) →
        (∀ s, b.load s = answer (held h s)) ∧
        (∀ s, (b.loadAndDelete s).1 = answer (held h s)) ∧
        (∀ s s', held h s ≠ none → held h s' ≠ none →
          s.toNat % r.capacity.toNat = s'.toNat % r.capacity.toNat → s = s') ∧
        (∀ s t, (b.store s t).1 ≠ none ↔
          ∃ s', s' ≠ s ∧ s'.toNat % r.capacity.toNat = s.toNat % r.capacity.toNat ∧
            held h s' ≠ none) ∧
        (∀ s t, (b.store s t).1 ≠ none → (b.store s t).2 = b) ∧
        (∀ s t, b.storeBlocking s t = none ↔ (b.store s t).1 ≠ none) ∧
        (∀ s v v' later between older,
          h = later ++ (MapEvent.take s (some v') :: between ++ MapEvent.take s (some v) :: older) →
          ∃ w, MapEvent.put s w true ∈ between) := by
  obtain ⟨r, hr, hcap⟩ := new_capacity (τ := τ) hc
  refine ⟨r, hr, hcap, ?_⟩
  intro ops b h hexec
  have hsim := exec_simulates hr ops
  rw [hexec] at hsim
  obtain ⟨hbcap, habs, hcon⟩ := hsim
  have hres : b.residue = r.residue := by
    unfold residue
    rw [hbcap]
  refine ⟨?_, ?_, held_single h hcon, ?_, ?_, ?_, ?_⟩
  · intro s
    rw [load_eq, habs]
  · intro s
    rw [← habs]
    rcases b.loadAndDelete_cases s with ⟨hn, he⟩ | ⟨t, hs, he⟩
    · rw [he, hn]
      rfl
    · rw [he, hs]
      rfl
  · intro s t
    rcases b.store_cases s t with ⟨hc, he, -⟩ | ⟨hc, he, -⟩
    · rw [habs, hres] at hc
      exact ⟨fun _ => hc, fun _ hn => by rw [hn] at he; simp at he⟩
    · rw [habs, hres] at hc
      exact ⟨fun hne => absurd he hne, fun hh => absurd hh hc⟩
  · intro s t hne
    rcases b.store_cases s t with ⟨-, -, hb⟩ | ⟨-, he, -⟩
    · exact hb
    · exact absurd he hne
  · intro s t
    rcases b.store_cases s t with ⟨hc, he, -⟩ | ⟨hc, he, -⟩
    · rcases b.storeBlocking_cases s t with ⟨-, hb⟩ | ⟨hnc, -⟩
      · exact ⟨fun _ hn => by rw [hn] at he; simp at he, fun _ => hb⟩
      · exact absurd hc hnc
    · rcases b.storeBlocking_cases s t with ⟨hcc, -⟩ | ⟨-, hb⟩
      · exact absurd hcc hc
      · exact ⟨fun hn => by rw [hb] at hn; simp at hn, fun hne => absurd he hne⟩
  · intro s v v' later between older hh
    rw [hh] at hcon
    exact take_once (Robot.Lib.consistent_append hcon)

/-- With capacity `3` rounded up to `4`, sequence `5` is refused while `1` is held. -/
theorem rpcRingBuffer_five_after_one :
    ∃ r : RPCRingBuffer Nat, newRPCRingBuffer 3 = some r ∧ r.capacity.toNat = 4 ∧
      ((r.exec [.store 1 (some 7)]).1.store 5 none).1 ≠ none := by
  obtain ⟨r, hr, ⟨j, hval, hge, hmin⟩, hall⟩ := rpcRingBuffer_partial_map (τ := Nat) 3 (by decide)
  have hfour : r.capacity.toNat = 4 := by
    rw [show (3 : Int64).toNatClampNeg = 3 from rfl] at hge hmin
    rcases j with _ | _ | _ | j
    · simp at hge
    · simp at hge
    · exact hval
    · have : 2 ^ 2 ≤ 2 ^ (j + 1 + 1 + 1 - 1) := Nat.pow_le_pow_right (by omega) (by omega)
      omega
  have hstored : (r.store 1 (some 7)).1 = none := by
    rcases r.store_cases 1 (some 7) with ⟨⟨s', -, -, hne⟩, -⟩ | ⟨-, he, -⟩
    · rw [RPCRingBuffer.new_abs hr] at hne
      exact absurd rfl hne
    · exact he
  have hheld : held (r.exec [.store 1 (some 7)]).2 1 ≠ none := by
    show held [MapEvent.put 1 (some 7) (r.store 1 (some 7)).1.isNone] 1 ≠ none
    rw [hstored]
    simp [held]
  refine ⟨r, hr, hfour, ?_⟩
  obtain ⟨-, -, -, hrefused, -⟩ := hall [.store 1 (some 7)] _ _ rfl
  exact (hrefused 5 none).mpr ⟨1, by decide, by rw [hfour]; rfl, hheld⟩

end Robot.Data
