import Mathlib

/-!
# `TaskActionBase`: the await half

`base/task_action.go` gives every task object one mutable `AwaitData` and one
`AwaitChannel` of capacity `1`, made by the first `SetAwaitData` and kept for the
object's whole life, reuse included. Three parties write to the channel: the receive
loop (`Resume`), the killers (`TimeoutKill`, `Kill`), and a drain in `ResetForReuse`
that takes *one* item out. This file models the object and the methods on it that
run without blocking; the blocking ones (`Yield`, the channel sends) are steps of the
machines that use it.

`ρ` is the payload of a resume (`Data interface{}`); an item carries either an error
or a payload. The timer is not modelled: a `TimeoutKill` may start at any moment.
-/

namespace Robot.Base

/-- `TaskActionAwaitTypeNone`, `…Normal`, `…RPC`. -/
inductive AwaitType where
  | none
  | normal
  | rpc
  deriving DecidableEq

structure TaskActionAwaitData where
  waitingType : AwaitType
  waitingId : UInt64
  deriving DecidableEq

/-- `TaskActionAwaitData{}`. -/
def TaskActionAwaitData.zero : TaskActionAwaitData := ⟨.none, 0⟩

/-- `TaskActionResumeData`: `Err` set, or `Data` set. -/
inductive TaskActionResumeData (ρ : Type) where
  | err (e : String)
  | data (d : ρ)
  deriving DecidableEq

/-- The fields of a task object that waiting and killing touch. `awaitChannel = none` is
the nil channel; `pooled` says the object sits in the worker's `sync.Pool`. -/
structure TaskActionBase (ρ : Type) where
  awaitData : TaskActionAwaitData
  awaitChannel : Option (List (TaskActionResumeData ρ))
  finished : Bool
  kill : Bool
  pooled : Bool

namespace TaskActionBase

variable {ρ : Type}

/-- `NewTaskActionBase`. -/
def new : TaskActionBase ρ :=
  { awaitData := .zero, awaitChannel := none, finished := false, kill := false, pooled := false }

/-- The items buffered in the channel; none in a nil channel. -/
def items (t : TaskActionBase ρ) : List (TaskActionResumeData ρ) := t.awaitChannel.getD []

/-- `SetAwaitData`: the channel is made once. -/
def setAwaitData (t : TaskActionBase ρ) (awaitData : TaskActionAwaitData) : TaskActionBase ρ :=
  { t with awaitData := awaitData, awaitChannel := some t.items }

/-- `ClearAwaitData`. -/
def clearAwaitData (t : TaskActionBase ρ) : TaskActionBase ρ :=
  { t with awaitData := .zero }

/-- `t.AwaitChannel <- item` on a channel of capacity `1`; `none` while it is full. A nil
channel blocks for ever. -/
def send (t : TaskActionBase ρ) (item : TaskActionResumeData ρ) : Option (TaskActionBase ρ) :=
  match t.awaitChannel with
  | some [] => some { t with awaitChannel := some [item] }
  | _ => none

/-- `<-t.AwaitChannel`; `none` while it is empty or nil. -/
def receive (t : TaskActionBase ρ) : Option (TaskActionResumeData ρ × TaskActionBase ρ) :=
  match t.awaitChannel with
  | some (item :: rest) => some (item, { t with awaitChannel := some rest })
  | _ => none

/-- The test in `Resume`: is the task waiting for exactly this? -/
def awaits (t : TaskActionBase ρ) (awaitData : TaskActionAwaitData) : Bool :=
  t.awaitChannel.isSome && t.awaitData.waitingId == awaitData.waitingId
    && t.awaitData.waitingType == awaitData.waitingType

/-- `Finish`, as far as the object goes: the `CompareAndSwap` lets one caller through,
and a pooled case task's `onFinish` puts the object back into the pool. -/
def finish (t : TaskActionBase ρ) : TaskActionBase ρ :=
  if t.finished then t else { t with finished := true, pooled := true }

/-- `ResetForReuse`: one item, if any, is drained. -/
def resetForReuse (t : TaskActionBase ρ) : TaskActionBase ρ :=
  { t with
    awaitData := .zero
    awaitChannel := t.awaitChannel.map (List.drop 1)
    finished := false
    kill := false
    pooled := false }

/-- `InitTaskId`. -/
def initTaskId (t : TaskActionBase ρ) : TaskActionBase ρ :=
  { t with finished := false, kill := false }

/-- The first half of `TimeoutKill` and `Kill`: `none` when the call returns at once. -/
def beginKill (t : TaskActionBase ρ) : Option (TaskActionBase ρ) :=
  if t.finished then none
  else if t.awaitChannel.isNone then none
  else some { t with kill := true }

/-- The branch of the second half: push an error, or `Finish` outright. -/
def killPushes (t : TaskActionBase ρ) : Bool :=
  t.awaitData.waitingId != 0 && t.awaitData.waitingType != .none

/-! ## What each method leaves in the channel and in `AwaitData` -/

variable (t : TaskActionBase ρ)

@[simp] theorem new_items : (new : TaskActionBase ρ).items = [] := rfl

@[simp] theorem finish_items : t.finish.items = t.items := by
  unfold finish
  split <;> rfl

@[simp] theorem finish_awaitData : t.finish.awaitData = t.awaitData := by
  unfold finish
  split <;> rfl

theorem resetForReuse_items : t.resetForReuse.items = t.items.drop 1 := by
  unfold resetForReuse items
  cases t.awaitChannel <;> rfl

variable {t t' : TaskActionBase ρ}

/-- A successful send found the channel empty and leaves exactly its item. -/
theorem send_eq {x : TaskActionResumeData ρ} (h : t.send x = some t') :
    t.items = [] ∧ t'.items = [x] ∧ t'.awaitData = t.awaitData := by
  unfold send at h
  split at h
  next hc =>
    rw [Option.some.injEq] at h
    subst h
    exact ⟨by simp [items, hc], rfl, rfl⟩
  next => simp at h

/-- A successful receive took the head of the channel. -/
theorem receive_eq {x : TaskActionResumeData ρ}
    (h : t.receive = some (x, t')) : t.items = x :: t'.items ∧ t'.awaitData = t.awaitData := by
  unfold receive at h
  split at h
  next y rest hc =>
    rw [Option.some.injEq, Prod.mk.injEq] at h
    obtain ⟨hx, ht⟩ := h
    subst hx ht
    exact ⟨by simp [items, hc], rfl⟩
  next => simp at h

theorem beginKill_eq (h : t.beginKill = some t') :
    t'.items = t.items ∧ t'.awaitData = t.awaitData := by
  unfold beginKill at h
  split at h
  · simp at h
  · split at h
    · simp at h
    · rw [Option.some.injEq] at h
      subst h
      exact ⟨rfl, rfl⟩

theorem awaits_iff {a : TaskActionAwaitData} (h : t.awaits a = true) :
    t.awaitData = a := by
  unfold awaits at h
  simp only [Bool.and_eq_true, beq_iff_eq] at h
  obtain ⟨⟨-, hid⟩, hty⟩ := h
  cases ha : t.awaitData with
  | mk ty i =>
    rw [ha] at hid hty
    cases a with
    | mk ty' i' =>
      simp only at hid hty
      rw [hid, hty]

end TaskActionBase

end Robot.Base
