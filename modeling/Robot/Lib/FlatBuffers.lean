import Mathlib

/-!
# Tables, slots and vectors

FlatBuffers as their callers see them. A message is built object by object: vectors of bytes,
strings, vectors of offsets, and tables whose slots hold scalars or offsets. `Message` is the log
of these calls. The bytes are a function of the log, and how they are laid out is the library's own
business: `Readers` has the functions that read them, without a definition, and `Library` says what
they find. The accessor of the type that was added reads the value; a slot that is missing, or was
left out because it held the default, is read as the default; vectors and strings have their items.
Nothing is said of an accessor of another type, nor of a slot that was added twice.

The builder hands out the number of an object as its offset, and never `0`.

A builder only ever adds objects, so what an offset refers to never changes. `Builds` is
stated with that built in: what a building step promises holds of every message that starts with
the objects it leaves. Steps then compose without side conditions (`Builds.seq`, `Builds.mapM`),
and a table is built slot by slot (`Opened`).
-/

namespace Robot.Lib.Flat

open List

/-! ## Objects -/

/-- The types of the scalars. -/
inductive Scalar where
  | byte
  | int32
  | int64
  | uint64
  deriving DecidableEq, Countable

abbrev Scalar.Value : Scalar → Type
  | .byte => UInt8
  | .int32 => Int32
  | .int64 => Int64
  | .uint64 => UInt64

/-- The default. -/
def Scalar.zero : (kind : Scalar) → kind.Value
  | .byte => (0 : UInt8)
  | .int32 => (0 : Int32)
  | .int64 => (0 : Int64)
  | .uint64 => (0 : UInt64)

instance countableInt32 : Countable Int32 :=
  Function.Injective.countable (f := Int32.toInt) fun _ _ h => Int32.toInt_inj.mp h

instance countableInt64 : Countable Int64 :=
  Function.Injective.countable (f := Int64.toInt) fun _ _ h => Int64.toInt_inj.mp h

instance countableValue (kind : Scalar) : Countable kind.Value := by
  cases kind <;> infer_instance

/-- What is added to a slot. -/
inductive Field where
  | scalar (kind : Scalar) (v : kind.Value)
  | offset (o : Nat)
  deriving Countable

/-- An object; the fields of a table go by their slots, in the order in which they were added. -/
inductive Object where
  | bytes (data : List UInt8)
  | string (data : List UInt8)
  | offsets (refs : List Nat)
  | table (numFields : Nat) (fields : List (Nat × Field))
  deriving Countable

/-- A finished message. -/
structure Message where
  identifier : List UInt8
  objects : List Object
  root : Nat
  deriving Countable

namespace Message

/-- The object at an offset. -/
def objectAt (m : Message) (o : Nat) : Option Object :=
  if o = 0 then none else m.objects[o - 1]?

theorem objectAt_last {m : Message} {objects : List Object} {x : Object}
    (h : objects ++ [x] <+: m.objects) : m.objectAt (objects.length + 1) = some x := by
  obtain ⟨more, hmore⟩ := h
  unfold objectAt
  rw [if_neg (by omega), Nat.add_sub_cancel, ← hmore]
  simp

/-- A table is at this offset. -/
def IsTable (m : Message) (o : Nat) : Prop := ∃ n fields, m.objectAt o = some (.table n fields)

end Message

/-! ## Building -/

/-- What the builder is inside of. -/
inductive Nested where
  | outside
  | table (numFields : Nat) (fields : List (Nat × Field))
  | bytes (data : List UInt8)
  | offsets (refs : List Nat)

structure Builder where
  objects : List Object
  nested : Nested

/-- A call of the builder; it fails where the builder panics over the order of the calls. -/
abbrev Build (α : Type) : Type := StateT Builder Option α

section Steps

/-- Add an object. -/
def push (x : Object) : Build Nat := fun b =>
  match b.nested with
  | .outside => some (b.objects.length + 1, { b with objects := b.objects ++ [x] })
  | _ => none

/-- `CreateByteVector`. -/
def createByteVector (data : List UInt8) : Build Nat := push (.bytes data)

/-- `CreateString`. -/
def createString (data : List UInt8) : Build Nat := push (.string data)

/-- Enter a nested object. -/
def enter (nested : Nested) : Build Unit := fun b =>
  match b.nested with
  | .outside => some ((), { b with nested := nested })
  | _ => none

/-- `StartVector` of bytes. -/
def startByteVector : Build Unit := enter (.bytes [])

/-- `StartVector` of offsets. -/
def startOffsetVector : Build Unit := enter (.offsets [])

/-- `PrependByte`. Vectors are built back to front. -/
def prependByte (v : UInt8) : Build Unit := fun b =>
  match b.nested with
  | .bytes data => some ((), { b with nested := .bytes (v :: data) })
  | _ => none

/-- `PrependUOffsetT`. -/
def prependUOffsetT (o : Nat) : Build Unit := fun b =>
  match b.nested with
  | .offsets refs => some ((), { b with nested := .offsets (o :: refs) })
  | _ => none

/-- `EndVector`; the length must be the number of elements. -/
def endVector (n : Nat) : Build Nat := fun b =>
  match b.nested with
  | .bytes data => if data.length = n then push (.bytes data) { b with nested := .outside } else none
  | .offsets refs =>
    if refs.length = n then push (.offsets refs) { b with nested := .outside } else none
  | _ => none

/-- `StartObject`. -/
def startObject (numFields : Nat) : Build Unit := enter (.table numFields [])

/-- Add to a slot of the open table, if the table has the slot. -/
def addField (slot : Nat) (field : Field) : Build Unit := fun b =>
  match b.nested with
  | .table numFields fields =>
    if slot < numFields then
      some ((), { b with nested := .table numFields (fields ++ [(slot, field)]) })
    else none
  | _ => none

/-- `PrependByteSlot(slot, v, 0)`, and so on. -/
def prependByteSlot (slot : Nat) (v : UInt8) : Build Unit := addField slot (.scalar .byte v)
def prependInt32Slot (slot : Nat) (v : Int32) : Build Unit := addField slot (.scalar .int32 v)
def prependInt64Slot (slot : Nat) (v : Int64) : Build Unit := addField slot (.scalar .int64 v)
def prependUint64Slot (slot : Nat) (v : UInt64) : Build Unit := addField slot (.scalar .uint64 v)
def prependUOffsetTSlot (slot : Nat) (o : Nat) : Build Unit := addField slot (.offset o)

/-- `EndObject`. -/
def endObject : Build Nat := fun b =>
  match b.nested with
  | .table numFields fields => push (.table numFields fields) { b with nested := .outside }
  | _ => none

/-- `FinishWithFileIdentifier`. -/
def finish (root : Nat) (identifier : List UInt8) : Build Message := fun b =>
  match b.nested with
  | .outside =>
    if identifier.length = 4 then some (⟨identifier, b.objects, root⟩, b) else none
  | _ => none

/-- A message built from nothing. -/
def build (m : Build Message) : Option Message := (m ⟨[], .outside⟩).map Prod.fst

end Steps

/-! ## Reading -/

/-- The functions of the library on bytes. A `Table` is a place in a finished buffer, and where its
slot at `o` is read the generated code adds the two. -/
class Readers where
  Table : Type
  /-- `FinishedBytes`. -/
  finishedBytes : Message → List UInt8
  /-- Where the bytes have an object. -/
  place : Message → Nat → Table
  /-- `GetBufferIdentifier`. -/
  bufferIdentifier : List UInt8 → List UInt8
  /-- `GetRootAs`. -/
  rootTable : List UInt8 → Table
  /-- `Offset` of a place in the vtable; `0` if the slot is missing. -/
  offset : Table → Nat → Nat
  /-- `GetByte`, `GetInt32` and so on. -/
  get : (kind : Scalar) → Table → Nat → kind.Value
  /-- `Indirect` and `Union`. -/
  indirect : Table → Nat → Table
  /-- `ByteVector`. -/
  byteVector : Table → Nat → List UInt8
  /-- `VectorLen`. -/
  vectorLen : Table → Nat → Nat
  /-- `GetByte(Vector(o) + j)`. -/
  byteElement : Table → Nat → Nat → UInt8
  /-- `Indirect(Vector(o) + 4*j)`. -/
  tableElement : Table → Nat → Nat → Table

namespace Readers

/-- What has been added to a slot. -/
def entries (slot : Nat) (fields : List (Nat × Field)) : List Field :=
  (fields.filter fun e => e.1 = slot).map Prod.snd

variable [Readers] (t : Table) (vtableOffset : Nat)

/-- A scalar in a slot, or the default. -/
def scalar (kind : Scalar) : kind.Value :=
  if offset t vtableOffset = 0 then kind.zero else get kind t (offset t vtableOffset)

/-- A table in a slot. -/
def child : Option Table :=
  if offset t vtableOffset = 0 then none else some (indirect t (offset t vtableOffset))

/-- A string in a slot. -/
def string : List UInt8 :=
  if offset t vtableOffset = 0 then [] else byteVector t (offset t vtableOffset)

/-- The elements of a vector, one after the other. -/
def elements {α : Type} (element : Table → Nat → Nat → α) (o : Nat) : List α :=
  (List.range (vectorLen t o)).map (element t o)

/-- A vector in a slot. -/
def vector {α : Type} (element : Table → Nat → Nat → α) : List α :=
  if offset t vtableOffset = 0 then [] else elements t element (offset t vtableOffset)

/-- What is read at `o`, the slot's offset, given what was added to the slot. -/
def Reads (m : Message) (t : Table) (o : Nat) : List Field → Prop
  | [] => o = 0
  | [.scalar kind v] => (o = 0 ∧ v = kind.zero) ∨ (o ≠ 0 ∧ get kind t o = v)
  | [.offset p] =>
    match m.objectAt p with
    | none => True
    | some (.table _ _) => o ≠ 0 ∧ indirect t o = place m p
    | some (.string data) => o ≠ 0 ∧ byteVector t o = data
    | some (.bytes data) => o ≠ 0 ∧ elements t byteElement o = data
    | some (.offsets refs) => o ≠ 0 ∧ elements t tableElement o = refs.map (place m)
  | _ => True

end Readers

open Readers

/-- What the library promises of the messages it accepts, those within the two gigabytes it can
address. The vtable starts with two sizes, and its entries have two bytes. -/
class Library extends Readers where
  accepts : Message → Prop
  size : ∀ m, accepts m → 8 ≤ (finishedBytes m).length
  identifier : ∀ m, accepts m → bufferIdentifier (finishedBytes m) = m.identifier
  root : ∀ m, accepts m → m.IsTable m.root → rootTable (finishedBytes m) = place m m.root
  slots : ∀ m p n fields, accepts m → m.objectAt p = some (.table n fields) → ∀ slot < n,
    Reads m (place m p) (offset (place m p) (4 + 2 * slot)) (entries slot fields)

/-! ## What a building step promises -/

variable {α β : Type}

/-- From any objects, outside of a nested object, `f` succeeds, adds objects and ends outside
again, and `Q` holds of its result in every message that goes on from there. -/
def Builds (f : Build α) (Q : α → Message → Prop) : Prop :=
  ∀ objects, ∃ a new, f ⟨objects, .outside⟩ = some (a, ⟨objects ++ new, .outside⟩) ∧
    ∀ m : Message, objects ++ new <+: m.objects → Q a m

theorem Builds.pure (a : α) : Builds (pure a) (fun b _ => b = a) := by
  intro objects
  exact ⟨a, [], by rw [append_nil]; rfl, fun _ _ => rfl⟩

variable {Q : α → Message → Prop}

/-- **Steps compose**: everything promised before still holds. -/
theorem Builds.bind {f : Build α} {g : α → Build β} {R : α → β → Message → Prop}
    (hf : Builds f Q) (hg : ∀ a, Builds (g a) (R a)) :
    Builds (f >>= g) (fun b m => ∃ a, Q a m ∧ R a b m) := by
  intro objects
  obtain ⟨a, new, hrun, hQ⟩ := hf objects
  obtain ⟨b, new', hrun', hR⟩ := hg a (objects ++ new)
  refine ⟨b, new ++ new', ?_, fun m hm => ?_⟩
  · show (f ⟨objects, .outside⟩).bind (fun x => g x.1 x.2) = _
    rw [hrun]
    show g a _ = _
    rw [hrun', append_assoc]
  · rw [← append_assoc] at hm
    exact ⟨a, hQ m ((prefix_append _ _).trans hm), hR m hm⟩

theorem Builds.mono {f : Build α} {R : α → Message → Prop} (hf : Builds f Q)
    (h : ∀ a m, Q a m → R a m) : Builds f R := by
  intro objects
  obtain ⟨a, new, hrun, hQ⟩ := hf objects
  exact ⟨a, new, hrun, fun m hm => h a m (hQ m hm)⟩

/-- A step in front: its promise becomes a premise of what the rest has to show. -/
theorem Builds.seq {f : Build α} {g : α → Build β} {R : β → Message → Prop} (hf : Builds f Q)
    (hg : ∀ a, Builds (g a) (fun b m => Q a m → R b m)) : Builds (f >>= g) R := by
  refine (hf.bind hg).mono ?_
  intro b m h
  obtain ⟨a, hQ, hR⟩ := h
  exact hR hQ

/-- A step that is only taken under a condition promises something then. -/
theorem Builds.when {c : Prop} [Decidable c] {f : Build α} (a : α) (hf : Builds f Q) :
    Builds (if c then f else Pure.pure a) (fun b m => c → Q b m) := by
  by_cases h : c
  · simp only [if_pos h]
    exact hf.mono fun _ _ hQ _ => hQ
  · simp only [if_neg h]
    exact (Builds.pure a).mono fun _ _ _ hc => absurd hc h

/-- One step for each item of a list. -/
theorem Builds.mapM {ι : Type} {f : ι → Build α} {Q : ι → α → Message → Prop} :
    ∀ (l : List ι), (∀ x ∈ l, Builds (f x) (Q x)) →
      Builds (l.mapM f) (fun as m => List.Forall₂ (fun x a => Q x a m) l as) := by
  intro l
  induction l with
  | nil =>
    intro _
    rw [mapM_nil]
    exact (Builds.pure []).mono fun as m h => by rw [h]; exact .nil
  | cons x l ih =>
    intro h
    rw [mapM_cons]
    have hx := h x mem_cons_self
    have hl := ih fun y hy => h y (mem_cons_of_mem _ hy)
    refine (hx.bind fun a => hl.bind fun as => Builds.pure (a :: as)).mono ?_
    intro as' m hall
    obtain ⟨a, ha, as, has, rfl⟩ := hall
    exact .cons ha has

/-- The last step of a message, which takes the objects as they are. -/
theorem Builds.finish {f : Build Nat} {Q : Nat → Message → Prop} (hf : Builds f Q)
    {identifier : List UInt8} (hid : identifier.length = 4) :
    ∃ m, build (f >>= fun root => finish root identifier) = some m ∧ m.identifier = identifier ∧
      Q m.root m := by
  obtain ⟨root, new, hrun, hQ⟩ := hf []
  refine ⟨⟨identifier, [] ++ new, root⟩, ?_, rfl, hQ _ (prefix_refl _)⟩
  show ((f ⟨[], .outside⟩).bind (fun x => Flat.finish x.1 identifier x.2)).map Prod.fst = _
  rw [hrun]
  show (if identifier.length = 4 then _ else _ : Option (Message × Builder)).map Prod.fst = _
  rw [if_pos hid]
  rfl

theorem Builds.push (x : Object) : Builds (push x) (fun o m => m.objectAt o = some x) := by
  intro objects
  exact ⟨objects.length + 1, [x], rfl, fun _ hm => Message.objectAt_last hm⟩

/-! ## Vectors, back to front -/

/-- A vector of bytes, element by element from the last one on. -/
def byteVectorBackwards (data : List UInt8) : Build Nat := do
  startByteVector
  data.reverse.forM prependByte
  endVector data.length

/-- A vector of offsets, element by element from the last one on. -/
def offsetVectorBackwards (refs : List Nat) : Build Nat := do
  startOffsetVector
  refs.reverse.forM prependUOffsetT
  endVector refs.length

theorem forM_prependByte (objects : List Object) : ∀ (l acc : List UInt8),
    l.forM prependByte ⟨objects, .bytes acc⟩ = some ((), ⟨objects, .bytes (l.reverse ++ acc)⟩) := by
  intro l
  induction l with
  | nil => intro acc; rfl
  | cons v l ih =>
    intro acc
    show l.forM prependByte ⟨objects, .bytes (v :: acc)⟩ = _
    rw [ih (v :: acc), reverse_cons, append_assoc]
    rfl

theorem forM_prependUOffsetT (objects : List Object) : ∀ (l acc : List Nat),
    l.forM prependUOffsetT ⟨objects, .offsets acc⟩
      = some ((), ⟨objects, .offsets (l.reverse ++ acc)⟩) := by
  intro l
  induction l with
  | nil => intro acc; rfl
  | cons o l ih =>
    intro acc
    show l.forM prependUOffsetT ⟨objects, .offsets (o :: acc)⟩ = _
    rw [ih (o :: acc), reverse_cons, append_assoc]
    rfl

theorem Builds.byteVectorBackwards (data : List UInt8) :
    Builds (byteVectorBackwards data) (fun o m => m.objectAt o = some (.bytes data)) := by
  intro objects
  refine ⟨objects.length + 1, [.bytes data], ?_, fun _ hm => Message.objectAt_last hm⟩
  show (data.reverse.forM prependByte ⟨objects, .bytes []⟩).bind (fun x => endVector data.length x.2) = _
  rw [forM_prependByte, reverse_reverse, append_nil]
  exact if_pos rfl

theorem Builds.offsetVectorBackwards (refs : List Nat) :
    Builds (offsetVectorBackwards refs) (fun o m => m.objectAt o = some (.offsets refs)) := by
  intro objects
  refine ⟨objects.length + 1, [.offsets refs], ?_, fun _ hm => Message.objectAt_last hm⟩
  show (refs.reverse.forM prependUOffsetT ⟨objects, .offsets []⟩).bind
    (fun x => endVector refs.length x.2) = _
  rw [forM_prependUOffsetT, reverse_reverse, append_nil]
  exact if_pos rfl

/-! ## Tables, slot by slot -/

/-- Inside a table with these fields, `rest` finishes it. -/
def Opened (numFields : Nat) (fields : List (Nat × Field)) (rest : Build Nat)
    (final : List (Nat × Field)) : Prop :=
  ∀ objects, rest ⟨objects, .table numFields fields⟩
    = some (objects.length + 1, ⟨objects ++ [.table numFields final], .outside⟩)

theorem Opened.endObject (numFields : Nat) (fields : List (Nat × Field)) :
    Opened numFields fields endObject fields := by
  intro objects
  rfl

variable {rest : Unit → Build Nat} {numFields slot : Nat} {fields final : List (Nat × Field)}
  {field : Field}

theorem Opened.add (h : slot < numFields)
    (hrest : Opened numFields (fields ++ [(slot, field)]) (rest ()) final) :
    Opened numFields fields (addField slot field >>= rest) final := by
  intro objects
  show ((addField slot field) ⟨objects, .table numFields fields⟩).bind (fun x => rest x.1 x.2) = _
  unfold addField
  simp only [if_pos h]
  exact hrest objects

/-- A field under a condition. -/
theorem Opened.addIf {c : Prop} [Decidable c] (h : slot < numFields)
    (hrest : Opened numFields (fields ++ if c then [(slot, field)] else []) (rest ()) final) :
    Opened numFields fields ((if c then addField slot field else pure ()) >>= rest) final := by
  by_cases hc : c
  · simp only [if_pos hc] at hrest ⊢
    exact Opened.add h hrest
  · simp only [if_neg hc, append_nil] at hrest ⊢
    exact hrest

/-- A table that was built, and what follows from its fields. -/
theorem Opened.builds {R : Nat → Message → Prop} (h : Opened numFields [] (rest ()) final)
    (hR : ∀ o m, m.objectAt o = some (.table numFields final) → R o m) :
    Builds (startObject numFields >>= rest) R := by
  intro objects
  exact ⟨objects.length + 1, [.table numFields final], h objects,
    fun _ hm => hR _ _ (Message.objectAt_last hm)⟩

/-! ## Reading what was built -/

namespace Readers

@[simp] theorem entries_nil (slot : Nat) : entries slot [] = [] := rfl

@[simp] theorem entries_append (slot : Nat) (a b : List (Nat × Field)) :
    entries slot (a ++ b) = entries slot a ++ entries slot b := by
  unfold entries
  rw [filter_append, map_append]

@[simp] theorem entries_cons (slot i : Nat) (f : Field) (l : List (Nat × Field)) :
    entries slot ((i, f) :: l) = (if i = slot then [f] else []) ++ entries slot l := by
  unfold entries
  by_cases h : i = slot
  · simp [h]
  · simp [h]

@[simp] theorem entries_ite (slot : Nat) (c : Prop) [Decidable c] (a b : List (Nat × Field)) :
    entries slot (if c then a else b) = if c then entries slot a else entries slot b :=
  apply_ite (entries slot) c a b

end Readers

/-- A table of an accepted message, with what was added to its slots. -/
structure Library.Holds [Library] (m : Message) (p n : Nat) (fields : List (Nat × Field)) : Prop where
  accepted : accepts m
  table : m.objectAt p = some (.table n fields)

namespace Library.Holds

variable [Library] {m : Message} {p n : Nat}

theorem reads (h : Holds m p n fields) (hslot : slot < n) {fs : List Field}
    (hfs : entries slot fields = fs) :
    Reads m (place m p) (offset (place m p) (4 + 2 * slot)) fs := by
  rw [← hfs]
  exact slots m p n fields h.accepted h.table slot hslot

/-- A scalar that was left out is read as the default, which it was. -/
theorem scalar (h : Holds m p n fields) (slot : Nat) (hslot : slot < n) {kind : Scalar}
    {v : kind.Value} (hv : entries slot fields = [.scalar kind v]) :
    scalar (place m p) (4 + 2 * slot) kind = v := by
  unfold Readers.scalar
  obtain ⟨ho, hzero⟩ | ⟨ho, hget⟩ := h.reads hslot hv
  · rw [if_pos ho, hzero]
  · rw [if_neg ho, hget]

/-- The table whose offset was added. -/
theorem child (h : Holds m p n fields) (slot : Nat) (hslot : slot < n) {o : Nat}
    (hv : entries slot fields = [.offset o]) (ho : m.IsTable o) :
    child (place m p) (4 + 2 * slot) = some (place m o) := by
  obtain ⟨k, fs, hat⟩ := ho
  have hreads := h.reads hslot hv
  simp only [Reads, hat] at hreads
  unfold Readers.child
  rw [if_neg hreads.1, hreads.2]

section When

variable {c : Prop} [Decidable c] {o : Nat} (h : Holds m p n fields) (slot : Nat) (hslot : slot < n)
  (hv : entries slot fields = if c then [.offset o] else [])

include h hslot hv

theorem missing (hc : ¬ c) : offset (place m p) (4 + 2 * slot) = 0 :=
  h.reads hslot (hv.trans (if_neg hc))

/-- A table that was added if there is one. -/
theorem childIf (ho : c → m.IsTable o) :
    Readers.child (place m p) (4 + 2 * slot) = if c then some (place m o) else none := by
  by_cases hc : c
  · rw [if_pos hc] at hv ⊢
    exact h.child slot hslot hv (ho hc)
  · rw [if_neg hc]
    exact if_pos (h.missing slot hslot hv hc)

/-- A vector of bytes that was added if it has any. -/
theorem bytes {data : List UInt8} (ho : c → m.objectAt o = some (.bytes data)) (hno : ¬ c → data = []) :
    vector (place m p) (4 + 2 * slot) byteElement = data := by
  unfold Readers.vector
  by_cases hc : c
  · have hreads := h.reads hslot (hv.trans (if_pos hc))
    simp only [Reads, ho hc] at hreads
    rw [if_neg hreads.1, hreads.2]
  · rw [if_pos (h.missing slot hslot hv hc), hno hc]

/-- A vector of tables that was added if it has any. -/
theorem tables {refs : List Nat} (ho : c → m.objectAt o = some (.offsets refs))
    (hno : ¬ c → refs = []) :
    vector (place m p) (4 + 2 * slot) tableElement = refs.map (place m) := by
  unfold Readers.vector
  by_cases hc : c
  · have hreads := h.reads hslot (hv.trans (if_pos hc))
    simp only [Reads, ho hc] at hreads
    rw [if_neg hreads.1, hreads.2]
  · rw [if_pos (h.missing slot hslot hv hc), hno hc]
    rfl

/-- A string that was added if it is not empty. -/
theorem string {data : List UInt8} (ho : c → m.objectAt o = some (.string data))
    (hno : ¬ c → data = []) : Readers.string (place m p) (4 + 2 * slot) = data := by
  unfold Readers.string
  by_cases hc : c
  · have hreads := h.reads hslot (hv.trans (if_pos hc))
    simp only [Reads, ho hc] at hreads
    rw [if_neg hreads.1, hreads.2]
  · rw [if_pos (h.missing slot hslot hv hc), hno hc]

end When

end Library.Holds

/-! ## The promises can be kept

Bytes that number the log, read by looking into it: no format to use, but the laws of `Library` do
not contradict each other. -/

namespace Logged

/-- The field at `o`, which is the place of its slot in the vtable. -/
def fieldAt (t : Message × Nat) (o : Nat) : Option Field :=
  match t.1.objectAt t.2 with
  | some (.table _ fields) => (entries ((o - 4) / 2) fields).head?
  | _ => none

def valueOf (kind : Scalar) : Option Field → kind.Value
  | some (.scalar k v) => if h : k = kind then h ▸ v else kind.zero
  | _ => kind.zero

/-- The object a slot refers to. -/
def target (t : Message × Nat) (o : Nat) : Option Object :=
  match fieldAt t o with
  | some (.offset p) => t.1.objectAt p
  | _ => none

/-- The readers, given how bytes number the messages. -/
@[reducible] def readers (save : Message → List UInt8) (load : List UInt8 → Message) : Readers where
  Table := Message × Nat
  finishedBytes := save
  place m p := (m, p)
  bufferIdentifier bytes := (load bytes).identifier
  rootTable bytes := (load bytes, (load bytes).root)
  offset t vtableOffset := if (fieldAt t vtableOffset).isSome then vtableOffset else 0
  get kind t o := valueOf kind (fieldAt t o)
  indirect t o := match fieldAt t o with
    | some (.offset p) => (t.1, p)
    | _ => t
  byteVector t o := match target t o with
    | some (.string data) => data
    | _ => []
  vectorLen t o := match target t o with
    | some (.bytes data) => data.length
    | some (.offsets refs) => refs.length
    | _ => 0
  byteElement t o j := match target t o with
    | some (.bytes data) => data.getD j 0
    | _ => 0
  tableElement t o j := match target t o with
    | some (.offsets refs) => (t.1, refs.getD j 0)
    | _ => t

theorem map_getD_range {α γ : Type} (l : List α) (a : α) (f : α → γ) :
    (List.range l.length).map (fun j => f (l.getD j a)) = l.map f := by
  refine List.ext_getElem (by simp) fun j h₁ h₂ => ?_
  rw [length_map] at h₂
  simp [h₂]

theorem reads (save : Message → List UInt8) (load : List UInt8 → Message) {m : Message} {p n : Nat}
    {fields : List (Nat × Field)} (h : m.objectAt p = some (.table n fields)) (slot : Nat) :
    letI := readers save load
    Reads m (place m p) (offset (place m p) (4 + 2 * slot)) (entries slot fields) := by
  have hat : fieldAt (m, p) (4 + 2 * slot) = (entries slot fields).head? := by
    unfold fieldAt
    simp only [h, Nat.add_sub_cancel_left, Nat.mul_div_cancel_left slot (by decide : 0 < 2)]
  generalize entries slot fields = fs at hat ⊢
  match fs with
  | [] => simp [Reads, offset, place, hat]
  | [.scalar kind v] => exact .inr (by simp [offset, place, Readers.get, hat, valueOf])
  | [.offset q] =>
    have htarget : target (m, p) (4 + 2 * slot) = m.objectAt q := by simp [target, hat]
    cases hq : m.objectAt q with
    | none => simp [Reads, hq]
    | some x =>
      cases x with
      | table n fields => simp [Reads, hq, offset, place, indirect, hat]
      | string data => simp [Reads, hq, offset, place, byteVector, hat, htarget]
      | bytes data =>
        simpa [Reads, hq, offset, place, elements, vectorLen, byteElement, hat, htarget]
          using map_getD_range data 0 id
      | offsets refs =>
        simpa [Reads, hq, offset, place, elements, vectorLen, tableElement, hat, htarget]
          using map_getD_range refs 0 (fun r => (m, r))
  | _ :: _ :: _ => simp [Reads]

end Logged

/-- There are no more messages than byte strings. -/
theorem exists_library : ∃ lib : Library, ∀ m, lib.accepts m := by
  obtain ⟨f, hf⟩ := (inferInstance : Countable Message).exists_injective_nat
  -- a number is a byte string of that length
  let save : Message → List UInt8 := fun m => List.replicate (f m + 8) 0
  have hinj : Function.Injective save := by
    intro x y hxy
    have hlen := congrArg List.length hxy
    rw [length_replicate, length_replicate] at hlen
    exact hf (by omega)
  let load : List UInt8 → Message := Function.extend save id (fun _ => ⟨[], [], 0⟩)
  have hload : ∀ m, load (save m) = m := fun m => hinj.extend_apply _ _ m
  refine ⟨{ Logged.readers save load with
            accepts := fun _ => True
            size := fun m _ => by
              show 8 ≤ (List.replicate (f m + 8) (0 : UInt8)).length
              rw [length_replicate]
              omega
            identifier := fun m _ => congrArg Message.identifier (hload m)
            root := fun m _ _ => by
              show (load (save m), (load (save m)).root) = (m, m.root)
              rw [hload]
            slots := fun _ _ _ _ _ h slot _ => Logged.reads save load h slot }, fun _ => trivial⟩

end Robot.Lib.Flat
