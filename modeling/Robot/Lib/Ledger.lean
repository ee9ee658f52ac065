import Mathlib

/-!
# A window of credits over a quota

The bookkeeping of a client that may have at most `window` requests outstanding and is
served `quota` times in all. Its credits are in one of three places: `queued` in a channel,
`taken` by a server, or on their way back (`returning`). Finishing a request returns its
credit only while the window has not reached the end of the quota, so that

> `queued + taken + returning = min window (quota - finished)`

is kept by every step (`Balanced.step`), and everything one wants to know is arithmetic on
that line: at most `window` requests are out, at most `quota` are ever taken, a returning
credit has a place in the queue, and a client with no credit anywhere is served out.

The second half is about clients that share one queue. The queue holds keys; its length is
the sum of the clients' counts (`length_eq_sum_count`), so a queue that offers `window`
places for each client has room whenever one of them is below its window (`length_lt`).
-/

namespace Robot.Lib

open Function

/-- Where the credits of one client are, and how many of its requests have finished. -/
@[ext] structure Ledger where
  queued : Nat
  taken : Nat
  returning : Nat
  finished : Nat

namespace Ledger

/-- The three moves of a credit, and none. A finished request gives its credit back while
`window + finished` has not passed the quota. -/
inductive Step (window quota : Nat) (l l' : Ledger) : Prop
  | take (hq : l'.queued + 1 = l.queued) (ht : l'.taken = l.taken + 1)
    (hr : l'.returning = l.returning) (hf : l'.finished = l.finished)
  | settle (hq : l'.queued = l.queued) (ht : l'.taken + 1 = l.taken)
    (hr : l'.returning = l.returning + if window + (l.finished + 1) ≤ quota then 1 else 0)
    (hf : l'.finished = l.finished + 1)
  | give (hq : l'.queued = l.queued + 1) (ht : l'.taken = l.taken)
    (hr : l'.returning + 1 = l.returning) (hf : l'.finished = l.finished)
  | stay (h : l' = l)

/-- The credits that exist are the window, cut off at the end of the quota. -/
structure Balanced (window quota : Nat) (l : Ledger) : Prop where
  credits : l.queued + l.taken + l.returning = min window (quota - l.finished)
  fin : l.finished ≤ quota

variable {window quota : Nat} {l l' : Ledger}

/-! A move of one client as every client sees it: `c` says whether it is its own. -/

section Seen

variable {c : Prop} [Decidable c]

theorem Step.take_if (hq : l'.queued + (if c then 1 else 0) = l.queued)
    (ht : l'.taken = l.taken + if c then 1 else 0) (hr : l'.returning = l.returning)
    (hf : l'.finished = l.finished) : Step window quota l l' := by
  split at ht
  next hc =>
    rw [if_pos hc] at hq
    exact .take hq ht hr hf
  next hc =>
    rw [if_neg hc] at hq
    exact .stay (Ledger.ext hq ht hr hf)

theorem Step.settle_if (hq : l'.queued = l.queued)
    (ht : l'.taken + (if c then 1 else 0) = l.taken)
    (hr : l'.returning
      = l.returning + if c ∧ window + (l.finished + 1) ≤ quota then 1 else 0)
    (hf : l'.finished = l.finished + if c then 1 else 0) : Step window quota l l' := by
  by_cases hc : c
  · simp only [hc, true_and, if_true] at ht hr hf
    exact .settle hq ht hr hf
  · simp only [hc, false_and, if_false, Nat.add_zero] at ht hr hf
    exact .stay (Ledger.ext hq ht hr hf)

theorem Step.give_if (hq : l'.queued = l.queued + if c then 1 else 0)
    (ht : l'.taken = l.taken) (hr : l'.returning + (if c then 1 else 0) = l.returning)
    (hf : l'.finished = l.finished) : Step window quota l l' := by
  split at hq
  next hc =>
    rw [if_pos hc] at hr
    exact .give hq ht hr hf
  next hc =>
    rw [if_neg hc] at hr
    exact .stay (Ledger.ext hq ht hr hf)

end Seen

/-- The start: all credits queued. -/
theorem Balanced.start (h : window ≤ quota) : Balanced window quota ⟨window, 0, 0, 0⟩ :=
  { credits := by show window + 0 + 0 = min window (quota - 0); omega
    fin := Nat.zero_le quota }

/-- **Every move keeps the balance.** -/
theorem Balanced.step (hb : Balanced window quota l) (hs : Step window quota l l') :
    Balanced window quota l' := by
  obtain ⟨hc, hfin⟩ := hb
  cases hs with
  | take hq ht hr hf => exact ⟨by rw [hf]; omega, by omega⟩
  | give hq ht hr hf => exact ⟨by rw [hf]; omega, by omega⟩
  | stay h => exact h ▸ ⟨hc, hfin⟩
  | settle hq ht hr hf =>
    refine ⟨?_, by omega⟩
    rw [hf]
    split at hr <;> omega

theorem Balanced.le_window (hb : Balanced window quota l) :
    l.queued + l.taken + l.returning ≤ window := by
  have hc := hb.credits
  omega

theorem Balanced.le_quota (hb : Balanced window quota l) : l.finished + l.taken ≤ quota := by
  have hc := hb.credits
  have hf := hb.fin
  omega

/-- A client whose credits are all gone has been served in full. -/
theorem Balanced.served (hb : Balanced window quota l) (hw : 0 < window)
    (h : l.queued + l.taken + l.returning = 0) : l.finished = quota := by
  have hc := hb.credits
  have hf := hb.fin
  omega

end Ledger

/-! ## Clients that share a queue -/

section Shared

variable {ι κ : Type} [DecidableEq ι] [DecidableEq κ] {clients : Finset ι} {key : ι → κ}

/-- One more occurrence of a client's key is one more in the sum over the clients. -/
theorem sum_count_cons (hinj : Set.InjOn key clients) (q : List κ) {j : ι} (hj : j ∈ clients) :
    ∑ i ∈ clients, (key j :: q).count (key i) = ∑ i ∈ clients, q.count (key i) + 1 := by
  have hone : ∀ i ∈ clients, (key j :: q).count (key i) = q.count (key i) + if i = j then 1 else 0 := by
    intro i hi
    rw [List.count_cons]
    congr 1
    by_cases hij : i = j
    · simp [hij]
    · have hne : key j ≠ key i := fun h => hij (hinj hi hj h.symm)
      simp [hij, hne]
  rw [Finset.sum_congr rfl hone, Finset.sum_add_distrib, Finset.sum_ite_eq' clients j, if_pos hj]

/-- The length of a queue is the sum of its clients' counts. -/
theorem length_eq_sum_count (hinj : Set.InjOn key clients) :
    ∀ q : List κ, (∀ k ∈ q, ∃ i ∈ clients, k = key i) →
      q.length = ∑ i ∈ clients, q.count (key i) := by
  intro q
  induction q with
  | nil => intro _; simp
  | cons k q ih =>
    intro hq
    obtain ⟨j, hj, hk⟩ := hq k List.mem_cons_self
    rw [hk, sum_count_cons hinj q hj, List.length_cons,
      ih fun k' hk' => hq k' (List.mem_cons_of_mem k hk')]

/-- A queue in which no client passes its window, and one is below it, has room. -/
theorem length_lt (hinj : Set.InjOn key clients) {q : List κ} {window : Nat}
    (hq : ∀ k ∈ q, ∃ i ∈ clients, k = key i) (hle : ∀ i ∈ clients, q.count (key i) ≤ window)
    {j : ι} (hj : j ∈ clients) (hlt : q.count (key j) < window) :
    q.length < window * clients.card := by
  rw [length_eq_sum_count hinj q hq]
  calc ∑ i ∈ clients, q.count (key i) < ∑ _i ∈ clients, window :=
        Finset.sum_lt_sum hle ⟨j, hj, hlt⟩
    _ = window * clients.card := by rw [Finset.sum_const, smul_eq_mul, Nat.mul_comm]

/-- A sum after one of its terms has been replaced. -/
theorem sum_update_add {β : Type} {servers : Finset ι} (f : β → Nat) (g : ι → β) {w : ι}
    (hw : w ∈ servers) (x : β) :
    ∑ v ∈ servers, f (update g w x v) + f (g w) = ∑ v ∈ servers, f (g v) + f x := by
  have hrest : ∑ v ∈ servers.erase w, f (update g w x v) = ∑ v ∈ servers.erase w, f (g v) := by
    refine Finset.sum_congr rfl fun v hv => ?_
    rw [update_of_ne (Finset.mem_erase.mp hv).1]
  rw [← Finset.add_sum_erase _ _ hw, ← Finset.add_sum_erase _ (fun v => f (g v)) hw, hrest,
    update_self]
  omega

end Shared

end Robot.Lib
