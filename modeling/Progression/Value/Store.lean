import Progression.Value.Pool

/-! Handles on values and buffers. A sequence lies in a block that any number of handles share; its
buffer can be had back only through the last of them. All other values are simply copied.

A store stands apart from evaluation. Computations and machines work on values themselves and carry no
store, and the elements of a sequence are values, not handles. What is shown in `Proofs.Ownership` says
why this is enough: whatever is asked of a store, what is seen through a handle stays the value that it
was made for. -/

namespace Progression

/-- What a handle stands for. A handle that was given up stands for nothing. -/
inductive Holding where
  | plain (value : Value)
  | shared (block : Nat)
  | buffer (block : Nat)
  | nothing

/-- A heap, and handles by their numbers. It is not part of the state of a computation. -/
structure Store extends Heap where
  handles : Array Holding

namespace Store

/-- A request to a store. Handles are given by their number; requests that make a handle use the
next number. A sequence is created with room for `spare` elements more than it has. -/
inductive Request where
  | create (value : Value) (spare : Nat := 0)
  | share (handle : Nat)
  | acquire (count : Nat)
  | wrap (handle : Nat) (values : List Value)
  | recycle (handle : Nat)
  | recycleBuffer (handle : Nat)
  | show (handle : Nat)

/-- What a store answers to a request. -/
inductive Reply where
  | created
  | acquired (isEmpty : Bool)
  | noRoom
  | value (value : Value)
  | recycled (kept : Bool)

/-- The store without buffers and handles. -/
def empty : Store := ⟨⟨#[], Pool.empty⟩, #[]⟩

/-- Makes a handle. -/
def addHandle (store : Store) (holding : Holding) : Store :=
  { store with handles := store.handles.push holding }

/-- Gives up a handle. -/
def drop (store : Store) (handle : Nat) : Store :=
  { store with handles := store.handles.setIfInBounds handle .nothing }

/-- How many handles share the sequence in a block. -/
def holders (store : Store) (block : Nat) : Nat :=
  store.handles.toList.countP fun
    | .shared other => other = block
    | _ => false

/-- The value that can be seen through a handle. -/
def value? (store : Store) (handle : Nat) : Option Value :=
  match store.handles[handle]? with
  | some (.plain value) => some value
  | some (.shared block) => some (.sequence (store.contents block))
  | _ => none

/-- The block that is got back by giving up a handle on a value: that of a sequence with no other
handle. -/
def reclaimed? (store : Store) : Holding → Option Nat
  | .shared block => if store.holders block = 1 then some block else none
  | _ => none

/-- Gives up a handle together with the buffer in a block, which goes back to the pool. -/
def giveBack (store : Store) (handle block : Nat) : Bool × Store :=
  let (kept, heap) := store.toHeap.recycle block
  (kept, { store.drop handle with toHeap := heap })

/-- Gives up a handle on a value, and recycles the buffer that is got back. -/
def recycle? (store : Store) (handle : Nat) : Option (Bool × Store) :=
  match store.handles[handle]? with
  | some (.buffer _) | some .nothing | none => none
  | some holding =>
      match store.reclaimed? holding with
      | some block => some (store.giveBack handle block)
      | none => some (false, store.drop handle)

/-- Answers a request. There is no answer to a request that a handle does not fit. -/
def answer? (holds : Nat → Bool) (store : Store) : Request → Option (Reply × Store)
  | .create (.sequence values) spare =>
      let (block, heap) := store.toHeap.allocate ((Buffer.ofList values).reserve spare)
      some (.created, { store with toHeap := heap }.addHandle (.shared block))
  | .create value _ => some (.created, store.addHandle (.plain value))
  | .share handle =>
      match store.handles[handle]? with
      | some (.plain value) => some (.created, store.addHandle (.plain value))
      | some (.shared block) => some (.created, store.addHandle (.shared block))
      | _ => none
  | .acquire count =>
      match store.toHeap.acquire holds count with
      | (some block, heap) =>
          some (.acquired (heap.contents block).isEmpty,
            { store with toHeap := heap }.addHandle (.buffer block))
      | (none, heap) => some (.noRoom, { store with toHeap := heap })
  | .wrap handle values =>
      match store.handles[handle]? with
      | some (.buffer block) =>
          let heap := store.write block fun buffer => buffer.append values
          some (.value (.sequence (heap.contents block)),
            { store.drop handle with toHeap := heap }.addHandle (.shared block))
      | _ => none
  | .recycle handle => (store.recycle? handle).map fun (kept, next) => (.recycled kept, next)
  | .recycleBuffer handle =>
      match store.handles[handle]? with
      | some (.buffer block) =>
          let (kept, next) := store.giveBack handle block
          some (.recycled kept, next)
      | _ => none
  | .show handle => (store.value? handle).map fun value => (.value value, store)

end Store

end Progression
