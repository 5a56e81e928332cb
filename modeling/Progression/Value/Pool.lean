import Progression.Value

/-! Buffers for sequences, and a pool of idle ones. Buffers lie in numbered blocks of a heap, and a
change to a buffer is seen by everyone who holds its block. A buffer that is given back is emptied
where it lies and kept for later, as long as the pool is not full and the buffer has room for anything
at all. -/

namespace Progression

/-- A buffer: what it holds, and whether it has room for any element. -/
structure Buffer where
  contents : List Value
  hasRoom : Bool

namespace Buffer

/-- A new buffer. -/
def empty : Buffer := ⟨[], false⟩

/-- The buffer of a list of values, without room for more. -/
def ofList (values : List Value) : Buffer := ⟨values, !values.isEmpty⟩

/-- The buffer with room for `count` more elements. -/
def reserve (buffer : Buffer) (count : Nat) : Buffer :=
  ⟨buffer.contents, buffer.hasRoom || decide (0 < count)⟩

/-- The buffer with values added at its end. -/
def append (buffer : Buffer) (values : List Value) : Buffer :=
  ⟨buffer.contents ++ values, buffer.hasRoom || !values.isEmpty⟩

/-- The buffer without its contents. -/
def clear (buffer : Buffer) : Buffer := ⟨[], buffer.hasRoom⟩

end Buffer

/-- The blocks of idle buffers, the latest first. -/
structure Pool where
  idle : List Nat

namespace Pool

/-- How many buffers a pool keeps at most. -/
def limit : Nat := 8

/-- The pool without buffers. -/
def empty : Pool := ⟨[]⟩

/-- How many buffers the pool holds. -/
def size (pool : Pool) : Nat := pool.idle.length

end Pool

/-- All buffers by their blocks, and the pool. A block that is given up for good is not used again. -/
structure Heap where
  blocks : Array Buffer
  pool : Pool

namespace Heap

/-- What the buffer of a block holds. -/
def contents (heap : Heap) (block : Nat) : List Value :=
  match heap.blocks[block]? with
  | some buffer => buffer.contents
  | none => []

/-- Whether the buffer of a block has room for any element. -/
def hasRoom (heap : Heap) (block : Nat) : Bool :=
  match heap.blocks[block]? with
  | some buffer => buffer.hasRoom
  | none => false

/-- Puts a buffer into a new block. -/
def allocate (heap : Heap) (buffer : Buffer) : Nat × Heap :=
  (heap.blocks.size, { heap with blocks := heap.blocks.push buffer })

/-- Changes the buffer of a block in its place. -/
def write (heap : Heap) (block : Nat) (change : Buffer → Buffer) : Heap :=
  { heap with blocks := heap.blocks.modify block change }

/-- Takes the latest buffer out of the pool, or a new one if the pool is empty. -/
def take (heap : Heap) : Nat × Heap :=
  match heap.pool.idle with
  | [] => heap.allocate Buffer.empty
  | block :: idle => (block, { heap with pool := ⟨idle⟩ })

/-- Takes a buffer with room for `count` elements; `holds` says for which counts there is room.
Without room there is no buffer, and one that was already taken out of the pool is lost. -/
def acquire (holds : Nat → Bool) (heap : Heap) (count : Nat) : Option Nat × Heap :=
  let (block, taken) := heap.take
  if holds count then (some block, taken.write block fun buffer => buffer.reserve count)
  else (none, taken)

/-- Gives a buffer back, and says whether the pool keeps it. -/
def recycle (heap : Heap) (block : Nat) : Bool × Heap :=
  if heap.pool.size < Pool.limit && heap.hasRoom block then
    (true, { heap.write block Buffer.clear with pool := ⟨block :: heap.pool.idle⟩ })
  else (false, heap)

end Heap

end Progression
