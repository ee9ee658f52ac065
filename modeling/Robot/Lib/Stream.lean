import Mathlib

/-!
# Decoders of a stream

A decoder looks at the start of the bytes it has: it needs more, refuses them, or finds an
item and goes on after it. If what it finds does not change when more arrives behind
(`item_append`, `bad_append`), it does not matter how the stream is cut: feeding the pieces
one by one, each behind what the last call left over, is draining the whole stream at once
(`feed_eq_drain`).
-/

namespace Robot.Lib

open List

/-- What stands at the start of the input. -/
inductive Scan (ε α β : Type) where
  | more
  | bad (e : ε)
  | item (a : α) (rest : List β)

/-- A decoder whose findings last. -/
structure Decoder (ε α β : Type) where
  scan : List β → Scan ε α β
  shorter : ∀ {d : List β} {a : α} {r : List β}, scan d = .item a r → r.length < d.length
  item_append : ∀ {d : List β} {a : α} {r : List β}, scan d = .item a r →
    ∀ x, scan (d ++ x) = .item a (r ++ x)
  bad_append : ∀ {d : List β} {e : ε}, scan d = .bad e → ∀ x, scan (d ++ x) = .bad e

variable {ε α β : Type}

/-- Items found before, in front of a result. -/
def behind (as : List α) (result : Except ε (List α × List β)) : Except ε (List α × List β) :=
  result.map (Prod.map (as ++ ·) id)

@[simp] theorem behind_nil (result : Except ε (List α × List β)) : behind [] result = result := by
  cases result <;> rfl

@[simp] theorem behind_ok (as bs : List α) (r : List β) :
    behind (ε := ε) as (.ok (bs, r)) = .ok (as ++ bs, r) := rfl

@[simp] theorem behind_error (as : List α) (e : ε) : behind (β := β) as (.error e) = .error e := rfl

theorem behind_behind (as bs : List α) (result : Except ε (List α × List β)) :
    behind as (behind bs result) = behind (as ++ bs) result := by
  cases result with
  | error e => rfl
  | ok found => simp [behind, Except.map, Prod.map]

namespace Decoder

/-- All items in the input, and what is left behind them. -/
def drain (D : Decoder ε α β) (data : List β) : Except ε (List α × List β) :=
  match _h : D.scan data with
  | .more => .ok ([], data)
  | .bad e => .error e
  | .item a rest => behind [a] (D.drain rest)
termination_by data.length
decreasing_by exact D.shorter _h

variable {D : Decoder ε α β} {d : List β}

theorem drain_more (h : D.scan d = .more) : D.drain d = .ok ([], d) := by
  rw [drain]
  split <;> simp_all

theorem drain_bad {e : ε} (h : D.scan d = .bad e) : D.drain d = .error e := by
  rw [drain]
  split <;> simp_all

theorem drain_item {a : α} {r : List β} (h : D.scan d = .item a r) :
    D.drain d = behind [a] (D.drain r) := by
  rw [drain]
  split <;> simp_all

/-- **More input behind**: a refusal stays, and otherwise the decoder goes on with what it had
left over and the new input. -/
theorem drain_append (D : Decoder ε α β) (d x : List β) :
    (∀ e, D.drain d = .error e → D.drain (d ++ x) = .error e) ∧
    (∀ as r, D.drain d = .ok (as, r) →
      D.drain (d ++ x) = behind as (D.drain (r ++ x)) ∧ D.drain r = .ok ([], r)) := by
  induction hn : d.length using Nat.strong_induction_on generalizing d with
  | _ n ih =>
    cases hscan : D.scan d with
    | more =>
      rw [drain_more hscan]
      refine ⟨fun e h => by simp at h, fun as r h => ?_⟩
      cases h
      exact ⟨(behind_nil _).symm, drain_more hscan⟩
    | bad e' =>
      rw [drain_bad hscan]
      refine ⟨fun e h => ?_, fun as r h => by simp at h⟩
      cases h
      exact drain_bad (D.bad_append hscan x)
    | item a rest =>
      obtain ⟨hbad, hok⟩ := ih rest.length (hn ▸ D.shorter hscan) rest rfl
      rw [drain_item hscan, drain_item (D.item_append hscan x)]
      cases hrest : D.drain rest with
      | error e' =>
        refine ⟨fun e h => ?_, fun as r h => by simp at h⟩
        cases h
        rw [hbad e' hrest, behind_error]
      | ok found =>
        obtain ⟨bs, left⟩ := found
        obtain ⟨happend, hleft⟩ := hok bs left hrest
        refine ⟨fun e h => by simp at h, fun as r h => ?_⟩
        cases h
        exact ⟨(congrArg (behind [a]) happend).trans (behind_behind _ _ _), hleft⟩

end Decoder

/-! ## Feeding pieces -/

/-- Calling `decode` on what the last call left over and the next piece, piece by piece: all
the items, and what is left over in the end. -/
def feed (decode : List β → Except ε (List α × List β)) :
    List β → List (List β) → Except ε (List α × List β)
  | remaining, [] => .ok ([], remaining)
  | remaining, chunk :: chunks =>
    match decode (remaining ++ chunk) with
    | .error e => .error e
    | .ok (items, remaining) => behind items (feed decode remaining chunks)

/-- **The cuts do not matter.** -/
theorem feed_eq_drain (D : Decoder ε α β) : ∀ (chunks : List (List β)) (remaining : List β),
    D.drain remaining = .ok ([], remaining) →
      feed D.drain remaining chunks = D.drain (remaining ++ chunks.flatten) := by
  intro chunks
  induction chunks with
  | nil =>
    intro remaining h
    rw [flatten_nil, append_nil, h]
    rfl
  | cons chunk chunks ih =>
    intro remaining _
    obtain ⟨hbad, hok⟩ := D.drain_append (remaining ++ chunk) chunks.flatten
    rw [flatten_cons, ← append_assoc]
    unfold feed
    split
    next e he => exact (hbad e he).symm
    next items left he =>
      obtain ⟨happend, hleft⟩ := hok items left he
      rw [happend, ih left hleft]

/-! ## Encoders -/

/-- `encode a` is read back as `a`, whatever stands behind it. -/
def Reads (D : Decoder ε α β) (encode : α → List β) (a : α) : Prop :=
  ∀ x, D.scan (encode a ++ x) = .item a x

/-- Encoded items are drained in order. -/
theorem drain_encoded {D : Decoder ε α β} {encode : α → List β} :
    ∀ (as : List α), (∀ a ∈ as, Reads D encode a) → ∀ x,
      D.drain ((as.map encode).flatten ++ x) = behind as (D.drain x) := by
  intro as
  induction as with
  | nil =>
    intro _ x
    exact (behind_nil _).symm
  | cons a as ih =>
    intro h x
    rw [map_cons, flatten_cons, append_assoc,
      Decoder.drain_item (h a mem_cons_self _),
      ih (fun b hb => h b (mem_cons_of_mem _ hb)) x, behind_behind]
    rfl

end Robot.Lib
