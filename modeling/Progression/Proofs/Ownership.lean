import Progression.Value.Store

/-! Who may change a buffer. A buffer in the pool has no handle, a buffer that is being filled has
one, and a sequence is taken apart only through its last handle. So whatever is asked of a store,
nobody else sees a difference, although buffers are emptied, handed out and filled again where they
lie. -/

namespace Progression

theorem Buffer.hasRoom_ofList_reserve (values : List Value) (spare : Nat) :
    ((Buffer.ofList values).reserve spare).hasRoom = true ↔ values ≠ [] ∨ 0 < spare := by
  simp [Buffer.ofList, Buffer.reserve]

namespace Heap

variable {heap next : Heap} {block other : Nat}

theorem contents_congr (h : next.blocks[block]? = heap.blocks[block]?) :
    next.contents block = heap.contents block := by
  simp only [contents, h]

theorem hasRoom_congr (h : next.blocks[block]? = heap.blocks[block]?) :
    next.hasRoom block = heap.hasRoom block := by
  simp only [hasRoom, h]

theorem lt_size_of_hasRoom (h : heap.hasRoom block = true) : block < heap.blocks.size := by
  apply Nat.lt_of_not_le
  intro hOutside
  rw [hasRoom, Array.getElem?_eq_none hOutside] at h
  cases h

theorem blocks_write (heap : Heap) (block other : Nat) (change : Buffer → Buffer) :
    (heap.write block change).blocks[other]? =
      if block = other then heap.blocks[other]?.map change else heap.blocks[other]? :=
  Array.getElem?_modify

theorem blocks_write_of_ne (h : other ≠ block) (change : Buffer → Buffer) :
    (heap.write block change).blocks[other]? = heap.blocks[other]? := by
  rw [blocks_write, if_neg h.symm]

theorem contents_write_reserve (heap : Heap) (block count : Nat) :
    (heap.write block fun buffer => buffer.reserve count).contents block =
      heap.contents block := by
  simp only [contents, blocks_write, if_true]
  cases heap.blocks[block]? <;> rfl

theorem contents_write_clear (heap : Heap) (block : Nat) :
    (heap.write block Buffer.clear).contents block = [] := by
  simp only [contents, blocks_write, if_true]
  cases heap.blocks[block]? <;> rfl

theorem hasRoom_write_clear (heap : Heap) (block : Nat) :
    (heap.write block Buffer.clear).hasRoom block = heap.hasRoom block := by
  simp only [hasRoom, blocks_write, if_true]
  cases heap.blocks[block]? <;> rfl

theorem contents_write_append (h : block < heap.blocks.size) (values : List Value) :
    (heap.write block fun buffer => buffer.append values).contents block =
      heap.contents block ++ values := by
  simp only [contents, blocks_write, if_true, Array.getElem?_eq_getElem h]
  rfl

theorem blocks_allocate (h : other < heap.blocks.size) (buffer : Buffer) :
    (heap.allocate buffer).2.blocks[other]? = heap.blocks[other]? := by
  rw [allocate, Array.getElem?_push_lt h, Array.getElem?_eq_getElem h]

theorem contents_allocate (heap : Heap) (buffer : Buffer) :
    (heap.allocate buffer).2.contents heap.blocks.size = buffer.contents := by
  simp [contents, allocate]

theorem hasRoom_allocate (heap : Heap) (buffer : Buffer) :
    (heap.allocate buffer).2.hasRoom heap.blocks.size = buffer.hasRoom := by
  simp [hasRoom, allocate]

theorem take_idle (heap : Heap) : heap.take.2.pool.idle = heap.pool.idle.tail := by
  unfold take
  split
  · next hIdle => simp [allocate, hIdle]
  · next hIdle => simp [hIdle]

/-- The pool is not overfull, and holds empty buffers with room, each of them once. -/
structure Sound (heap : Heap) : Prop where
  bounded : heap.pool.size ≤ Pool.limit
  distinct : heap.pool.idle.Nodup
  idle : ∀ block ∈ heap.pool.idle, heap.contents block = [] ∧ heap.hasRoom block = true

namespace Sound

theorem of_same (h : heap.Sound) (hPool : next.pool = heap.pool)
    (hSame : ∀ block ∈ heap.pool.idle, next.blocks[block]? = heap.blocks[block]?) :
    next.Sound := by
  refine ⟨hPool ▸ h.bounded, hPool ▸ h.distinct, ?_⟩
  intro block hMem
  rw [hPool] at hMem
  rw [contents_congr (hSame block hMem), hasRoom_congr (hSame block hMem)]
  exact h.idle block hMem

theorem lt_size (h : heap.Sound) (hMem : block ∈ heap.pool.idle) : block < heap.blocks.size :=
  lt_size_of_hasRoom (h.idle block hMem).2

theorem write (h : heap.Sound) (hApart : block ∉ heap.pool.idle) (change : Buffer → Buffer) :
    (heap.write block change).Sound := by
  refine h.of_same rfl fun other hMem => blocks_write_of_ne ?_ change
  rintro rfl
  exact hApart hMem

theorem allocate (h : heap.Sound) (buffer : Buffer) : (heap.allocate buffer).2.Sound :=
  h.of_same rfl fun _ hMem => blocks_allocate (h.lt_size hMem) buffer

/-- A buffer that is taken out of the pool is empty, and no longer in it. -/
theorem take (h : heap.Sound) :
    heap.take.2.Sound ∧ heap.take.1 ∉ heap.take.2.pool.idle ∧
      heap.take.2.contents heap.take.1 = [] ∧ heap.take.1 < heap.take.2.blocks.size := by
  unfold Heap.take
  split
  · refine ⟨h.allocate _, ?_, contents_allocate heap _, ?_⟩
    · intro hMem
      exact (Nat.lt_irrefl _) (h.lt_size hMem)
    · simp [Heap.allocate]
  · next block idle hIdle =>
      have hMem : block ∈ heap.pool.idle := hIdle ▸ List.mem_cons_self ..
      have hDistinct := h.distinct
      have hBounded := h.bounded
      rw [Pool.size, hIdle] at hBounded
      rw [hIdle, List.nodup_cons] at hDistinct
      refine ⟨⟨Nat.le_of_succ_le hBounded, hDistinct.2, ?_⟩, hDistinct.1, (h.idle block hMem).1,
        h.lt_size hMem⟩
      intro other hOther
      exact h.idle other (hIdle ▸ List.mem_cons_of_mem _ hOther)

theorem recycle (h : heap.Sound) (hApart : block ∉ heap.pool.idle) :
    (heap.recycle block).2.Sound := by
  unfold Heap.recycle
  split
  · next hKept =>
      rw [Bool.and_eq_true, decide_eq_true_eq] at hKept
      refine ⟨hKept.1, List.nodup_cons.mpr ⟨hApart, h.distinct⟩, ?_⟩
      intro other hMem
      rcases List.mem_cons.mp hMem with rfl | hIdle
      · exact ⟨contents_write_clear heap _, (hasRoom_write_clear heap _).trans hKept.2⟩
      · exact (h.write hApart Buffer.clear).idle other hIdle
  · exact h

end Sound

end Heap

/-- The pool gets one more buffer if that is kept, and stays as it is if not. -/
def Pool.Gets (pool next : Pool) : Bool → Prop
  | true => ∃ block, next.idle = block :: pool.idle
  | false => next = pool

/-- A buffer is kept if it has room and the pool is not full. -/
theorem Heap.recycle_gets (heap : Heap) (block : Nat) :
    ((heap.recycle block).1 = true ↔ heap.hasRoom block = true ∧ heap.pool.size < Pool.limit) ∧
      heap.pool.Gets (heap.recycle block).2.pool (heap.recycle block).1 := by
  unfold Heap.recycle
  split
  · next hKept =>
      rw [Bool.and_eq_true, decide_eq_true_eq] at hKept
      exact ⟨iff_of_true rfl hKept.symm, block, rfl⟩
  · next hLost =>
      rw [Bool.and_eq_true, decide_eq_true_eq] at hLost
      exact ⟨iff_of_false Bool.false_ne_true fun hBoth => hLost hBoth.symm, rfl⟩

namespace Holding

/-- The block that a handle stands for. -/
def block? : Holding → Option Nat
  | shared block => some block
  | buffer block => some block
  | plain _ => none
  | nothing => none

/-- What can be seen through a handle: a value, or the contents of a buffer. -/
inductive View where
  | value (value : Value)
  | buffer (contents : List Value)

def view? (heap : Heap) : Holding → Option View
  | plain value => some (.value value)
  | shared block => some (.value (.sequence (heap.contents block)))
  | buffer block => some (.buffer (heap.contents block))
  | nothing => none

variable {heap : Heap} {block : Nat} {values : List Value}

theorem view?_shared (h : heap.contents block = values) :
    (shared block).view? heap = some (.value (.sequence values)) := by
  rw [view?, h]

theorem view?_buffer (h : heap.contents block = values) :
    (buffer block).view? heap = some (.buffer values) := by
  rw [view?, h]

end Holding

namespace Store

/-- What can be seen through a handle. -/
def view? (store : Store) (handle : Nat) : Option Holding.View :=
  store.handles[handle]?.bind (Holding.view? store.toHeap)

/-- The handle stands for the buffer in a block, or for the sequence made of it. -/
def Refers (store : Store) (handle block : Nat) : Prop :=
  store.handles[handle]?.bind Holding.block? = some block

/-- No other handle refers to what the handle refers to. -/
def Sole (store : Store) (handle : Nat) : Prop :=
  ∀ block, store.Refers handle block → ∀ other, store.Refers other block → other = handle

/-- The pool is in order, no handle refers to an idle buffer, and a buffer that is no sequence has no
second handle. -/
structure Sound (store : Store) : Prop where
  heap : store.toHeap.Sound
  held : ∀ handle block, store.Refers handle block →
    block < store.blocks.size ∧ block ∉ store.pool.idle
  sole : ∀ handle other block, store.handles[handle]? = some (.buffer block) →
    store.Refers other block → other = handle

/-- The block is neither idle nor referred to. -/
structure Free (store : Store) (block : Nat) : Prop where
  inside : block < store.blocks.size
  apart : block ∉ store.pool.idle
  unheld : ∀ handle, ¬store.Refers handle block

/-- The step keeps a store in order, and nothing changes for any handle but the one that is given
up. -/
structure Steps (givenUp : Option Nat) (store next : Store) : Prop where
  sound : next.Sound
  grows : store.handles.size ≤ next.handles.size
  spared : ∀ handle < store.handles.size, givenUp ≠ some handle →
    next.view? handle = store.view? handle

variable {store middle next : Store} {handle block : Nat} {holding : Holding}

theorem Steps.trans {givenUp : Option Nat} (first : Steps givenUp store middle)
    (second : Steps none middle next) : Steps givenUp store next := by
  refine ⟨second.sound, Nat.le_trans first.grows second.grows, ?_⟩
  intro handle hOld hKept
  have hMiddle := second.spared handle (Nat.lt_of_lt_of_le hOld first.grows) (by simp)
  rw [hMiddle, first.spared handle hOld hKept]

theorem handles_addHandle (store : Store) (holding : Holding) (handle : Nat) :
    (store.addHandle holding).handles[handle]? =
      if handle = store.handles.size then some holding else store.handles[handle]? :=
  Array.getElem?_push

theorem handles_drop (store : Store) (handle other : Nat) :
    (store.drop handle).handles[other]? =
      if handle = other then store.handles[other]?.map fun _ => .nothing
      else store.handles[other]? := by
  rw [drop, Array.getElem?_setIfInBounds]
  split
  · next hSame =>
      subst hSame
      split
      · next hInside => simp [hInside]
      · next hOutside => simp [hOutside]
  · rfl

/-- A handle that was given up refers to nothing, and all others to what they did. -/
theorem refers_drop {other : Nat} :
    (store.drop handle).Refers other block ↔ store.Refers other block ∧ other ≠ handle := by
  rw [Refers, handles_drop]
  split
  · next hSame =>
      subst hSame
      cases store.handles[handle]? <;> simp [Holding.block?]
  · next hOther =>
      have hNe : other ≠ handle := fun hSame => hOther hSame.symm
      simp [Refers, hNe]

theorem refers_of (hHandle : store.handles[handle]? = some holding)
    (hBlock : holding.block? = some block) : store.Refers handle block := by
  rw [Refers, hHandle]
  exact hBlock

theorem refers_addHandle {other : Nat} (h : (store.addHandle holding).Refers other block) :
    store.Refers other block ∨ other = store.handles.size ∧ holding.block? = some block := by
  rw [Refers, handles_addHandle] at h
  split at h
  · next hNew => exact .inr ⟨hNew, h⟩
  · exact .inl h

theorem view?_congr (hHandle : next.handles[handle]? = store.handles[handle]?)
    (hSame : ∀ block, store.Refers handle block → next.contents block = store.contents block) :
    next.view? handle = store.view? handle := by
  unfold view?
  rw [hHandle]
  unfold Refers at hSame
  cases hHolding : store.handles[handle]? with
  | none => rfl
  | some holding =>
      rw [hHolding] at hSame
      cases holding with
      | plain value => rfl
      | shared block => exact Holding.view?_shared (hSame block rfl)
      | buffer block => exact Holding.view?_buffer (hSame block rfl)
      | nothing => rfl

theorem view?_addHandle (store : Store) (holding : Holding) :
    (store.addHandle holding).view? store.handles.size = holding.view? store.toHeap := by
  rw [view?, handles_addHandle, if_pos rfl]
  rfl

theorem Free.sole (h : store.Free block) (hHolding : holding.block? = some block) :
    (store.addHandle holding).Sole store.handles.size := by
  intro found hFound other hOther
  have hSame : found = block := by
    rw [Refers, handles_addHandle, if_pos rfl] at hFound
    exact Option.some.inj (hFound.symm.trans hHolding)
  subst hSame
  rcases refers_addHandle hOther with hOld | ⟨hNew, -⟩
  · exact absurd hOld (h.unheld other)
  · exact hNew

namespace Sound

/-- A new handle may share a sequence, or refer to a block that nobody refers to. -/
theorem addHandle (h : store.Sound)
    (hInside : ∀ block, holding.block? = some block →
      block < store.blocks.size ∧ block ∉ store.pool.idle)
    (hShared : ∀ block, holding.block? = some block →
      ∀ other : Nat, store.handles[other]? ≠ some (.buffer block))
    (hBuffer : ∀ block, holding = .buffer block → ∀ other, ¬store.Refers other block) :
    Steps none store (store.addHandle holding) := by
  refine ⟨⟨h.heap, ?_, ?_⟩, ?_, ?_⟩
  · intro handle block hRefers
    rcases refers_addHandle hRefers with hOld | ⟨-, hNew⟩
    · exact h.held handle block hOld
    · exact hInside block hNew
  · intro handle other block hHandle hRefers
    rw [handles_addHandle] at hHandle
    split at hHandle
    · next hLast =>
        cases hHandle
        rcases refers_addHandle hRefers with hOld | ⟨hNew, -⟩
        · exact absurd hOld (hBuffer block rfl other)
        · rw [hNew, hLast]
    · rcases refers_addHandle hRefers with hOld | ⟨-, hNew⟩
      · exact h.sole handle other block hHandle hOld
      · exact absurd hHandle (hShared block hNew handle)
  · simp [Store.addHandle]
  · intro handle hOld _
    refine view?_congr ?_ fun _ _ => rfl
    rw [handles_addHandle, if_neg (Nat.ne_of_lt hOld)]

theorem addHandle_of_free (h : store.Sound) (hFree : store.Free block)
    (hHolding : holding.block? = some block) : Steps none store (store.addHandle holding) := by
  apply h.addHandle
  · intro other hOther
    cases hHolding.symm.trans hOther
    exact ⟨hFree.inside, hFree.apart⟩
  · intro other hOther handle hHandle
    cases hHolding.symm.trans hOther
    exact hFree.unheld handle (refers_of hHandle rfl)
  · rintro other rfl
    cases hHolding
    exact hFree.unheld

theorem addHandle_plain (h : store.Sound) (value : Value) :
    Steps none store (store.addHandle (.plain value)) := by
  apply h.addHandle <;> simp [Holding.block?]

theorem drop (h : store.Sound) (handle : Nat) : Steps (some handle) store (store.drop handle) := by
  refine ⟨⟨h.heap, ?_, ?_⟩, ?_, ?_⟩
  · intro other block hRefers
    exact h.held other block (refers_drop.mp hRefers).1
  · intro owner other block hOwner hRefers
    rw [handles_drop] at hOwner
    split at hOwner
    · cases hHolding : store.handles[owner]? with
      | none => simp [hHolding] at hOwner
      | some holding => simp [hHolding] at hOwner
    · exact h.sole owner other block hOwner (refers_drop.mp hRefers).1
  · simp [Store.drop]
  · intro other _ hKept
    refine view?_congr ?_ fun _ _ => rfl
    rw [handles_drop, if_neg fun hSame => hKept (congrArg some hSame)]

/-- A change to the heap that leaves all blocks alone that handles refer to. -/
theorem onHeap (h : store.Sound) {heap : Heap} (hHeap : heap.Sound)
    (hHeld : ∀ handle block, store.Refers handle block → block < heap.blocks.size ∧
      block ∉ heap.pool.idle ∧ heap.contents block = store.contents block) :
    Steps none store ⟨heap, store.handles⟩ := by
  refine ⟨⟨hHeap, ?_, h.sole⟩, Nat.le_refl _, ?_⟩
  · intro handle block hRefers
    obtain ⟨hInside, hApart, -⟩ := hHeld handle block hRefers
    exact ⟨hInside, hApart⟩
  · intro handle _ _
    exact view?_congr rfl fun block hRefers => (hHeld handle block hRefers).2.2

theorem allocate (h : store.Sound) (buffer : Buffer) :
    Steps none store ⟨(store.toHeap.allocate buffer).2, store.handles⟩ ∧
      Free ⟨(store.toHeap.allocate buffer).2, store.handles⟩ (store.toHeap.allocate buffer).1 := by
  constructor
  · refine h.onHeap (h.heap.allocate buffer) fun handle block hRefers => ?_
    obtain ⟨hInside, hApart⟩ := h.held handle block hRefers
    refine ⟨?_, hApart, Heap.contents_congr (Heap.blocks_allocate hInside buffer)⟩
    simp only [Heap.allocate, Array.size_push]
    omega
  · refine ⟨by simp [Heap.allocate], ?_, ?_⟩
    · exact fun hMem => Nat.lt_irrefl _ (h.heap.lt_size hMem)
    · exact fun handle hRefers => Nat.lt_irrefl _ (h.held handle _ hRefers).1

/-- The buffer that is taken out of the pool, or a new one, belongs to nobody. -/
theorem take (h : store.Sound) :
    Steps none store ⟨store.toHeap.take.2, store.handles⟩ ∧
      Free ⟨store.toHeap.take.2, store.handles⟩ store.toHeap.take.1 := by
  obtain ⟨hHeap, hApart, -, hInside⟩ := h.heap.take
  unfold Heap.take at hHeap hApart hInside ⊢
  split
  · exact h.allocate _
  · next block idle hIdle =>
      have hRest {other : Nat} (hOther : other ∉ store.pool.idle) : other ∉ idle :=
        fun hMem => hOther (hIdle ▸ List.mem_cons_of_mem _ hMem)
      simp only [hIdle] at hHeap hApart hInside
      refine ⟨h.onHeap hHeap fun handle other hRefers => ?_, hInside, hApart, ?_⟩
      · obtain ⟨hOther, hAway⟩ := h.held handle other hRefers
        exact ⟨hOther, hRest hAway, rfl⟩
      · intro handle hRefers
        exact (h.held handle block hRefers).2 (hIdle ▸ List.mem_cons_self ..)

/-- A buffer that belongs to nobody can be changed. -/
theorem write (h : store.Sound) (hFree : store.Free block) (change : Buffer → Buffer) :
    Steps none store ⟨store.toHeap.write block change, store.handles⟩ ∧
      Free ⟨store.toHeap.write block change, store.handles⟩ block := by
  have hSize : (store.toHeap.write block change).blocks.size = store.blocks.size :=
    Array.size_modify
  constructor
  · refine h.onHeap (h.heap.write hFree.apart change) fun handle other hRefers => ?_
    obtain ⟨hInside, hApart⟩ := h.held handle other hRefers
    refine ⟨hSize ▸ hInside, hApart, Heap.contents_congr (Heap.blocks_write_of_ne ?_ change)⟩
    rintro rfl
    exact hFree.unheld handle hRefers
  · exact ⟨hSize ▸ hFree.inside, hFree.apart, hFree.unheld⟩

/-- A buffer that belongs to nobody can be given to the pool. -/
theorem recycle (h : store.Sound) (hFree : store.Free block) :
    Steps none store ⟨(store.toHeap.recycle block).2, store.handles⟩ := by
  have hHeap := h.heap.recycle hFree.apart
  unfold Heap.recycle at hHeap ⊢
  split at hHeap
  · next hKept =>
      rw [if_pos hKept]
      refine h.onHeap hHeap fun handle other hRefers => ?_
      have hNe : other ≠ block := by
        rintro rfl
        exact hFree.unheld handle hRefers
      obtain ⟨hInside, hApart⟩ := (h.write hFree Buffer.clear).1.sound.held handle other hRefers
      refine ⟨hInside, ?_, Heap.contents_congr (Heap.blocks_write_of_ne hNe Buffer.clear)⟩
      exact fun hMem => (List.mem_cons.mp hMem).elim hNe hApart
  · next hLost =>
      rw [if_neg hLost]
      exact h.onHeap h.heap fun handle other hRefers =>
        ⟨(h.held handle other hRefers).1, (h.held handle other hRefers).2, rfl⟩

/-- Once its only handle is given up, a block belongs to nobody. -/
theorem free_drop (h : store.Sound) (hRefers : store.Refers handle block)
    (hSole : store.Sole handle) :
    (store.drop handle).Free block := by
  obtain ⟨hInside, hApart⟩ := h.held handle block hRefers
  refine ⟨hInside, hApart, fun other hOther => ?_⟩
  obtain ⟨hOld, hNe⟩ := refers_drop.mp hOther
  exact hNe (hSole block hRefers other hOld)

theorem sole_of_buffer (h : store.Sound) (hHandle : store.handles[handle]? = some (.buffer block)) :
    store.Sole handle := by
  intro found hFound other hOther
  cases hFound.symm.trans (refers_of hHandle rfl)
  exact h.sole handle other block hHandle hOther

end Sound

/-- If an element satisfies a predicate, no other one does if and only if the count is one. -/
theorem countP_eq_one_iff {α : Type} {p : α → Bool} {items : List α} {index : Nat} {item : α}
    (hItem : items[index]? = some item) (hp : p item = true) :
    items.countP p = 1 ↔
      ∀ other found, items[other]? = some found → p found = true → other = index := by
  induction items generalizing index with
  | nil => simp at hItem
  | cons first rest ih =>
      cases index with
      | zero =>
          cases hItem
          rw [List.countP_cons_of_pos hp, Nat.add_eq_right, List.countP_eq_zero]
          constructor
          · intro hNone other found hFound hpFound
            cases other with
            | zero => rfl
            | succ other => exact absurd hpFound (hNone found (List.mem_of_getElem? hFound))
          · intro hOnly found hMem hpFound
            obtain ⟨other, hFound⟩ := List.getElem?_of_mem hMem
            cases hOnly (other + 1) found hFound hpFound
      | succ index =>
          by_cases hFirst : p first = true
          · have hSecond : 0 < rest.countP p :=
              List.countP_pos_iff.mpr ⟨item, List.mem_of_getElem? hItem, hp⟩
            rw [List.countP_cons_of_pos hFirst]
            constructor
            · intro hCount
              omega
            · intro hOnly
              cases hOnly 0 first rfl hFirst
          · rw [List.countP_cons_of_neg hFirst, ih hItem]
            constructor
            · intro hOnly other found hFound hpFound
              cases other with
              | zero =>
                  cases hFound
                  exact absurd hpFound hFirst
              | succ other => rw [hOnly other found hFound hpFound]
            · intro hOnly other found hFound hpFound
              exact Nat.succ.inj (hOnly (other + 1) found hFound hpFound)

/-- No other handle shares the sequence. -/
def Alone (store : Store) (handle block : Nat) : Prop :=
  ∀ other : Nat, store.handles[other]? = some (.shared block) → other = handle

theorem holders_eq_one_iff (h : store.handles[handle]? = some (.shared block)) :
    store.holders block = 1 ↔ store.Alone handle block := by
  rw [holders, countP_eq_one_iff (by rwa [Array.getElem?_toList]) (by simp)]
  constructor
  · intro hOnly other hOther
    exact hOnly other _ (by rwa [Array.getElem?_toList]) (by simp)
  · intro hOnly other found hFound hShares
    rw [Array.getElem?_toList] at hFound
    cases found with
    | shared owned =>
        rw [of_decide_eq_true hShares] at hFound
        exact hOnly other hFound
    | plain value => cases hShares
    | buffer owned => cases hShares
    | nothing => cases hShares

/-- All that giving up a handle on a value can do: the last handle on a sequence gives its buffer
back, and any other is merely gone. -/
inductive Recycles (store : Store) (handle : Nat) : Bool × Store → Prop where
  | last {block : Nat} (hHandle : store.handles[handle]? = some (.shared block))
      (hAlone : store.Alone handle block) : Recycles store handle (store.giveBack handle block)
  | dropped (hShared : ∀ block, store.handles[handle]? = some (.shared block) →
      ¬store.Alone handle block) : Recycles store handle (false, store.drop handle)

theorem recycle?_eq_none (h : store.value? handle = none) : store.recycle? handle = none := by
  unfold value? at h
  unfold recycle?
  cases hHandle : store.handles[handle]? with
  | none => rfl
  | some holding =>
      rw [hHandle] at h
      cases holding with
      | plain value => cases h
      | shared block => cases h
      | buffer block => rfl
      | nothing => rfl

theorem recycle?_eq_some (h : (store.value? handle).isSome = true) :
    ∃ result, store.recycle? handle = some result ∧ store.Recycles handle result := by
  unfold value? at h
  unfold recycle?
  cases hHandle : store.handles[handle]? with
  | none => simp [hHandle] at h
  | some holding =>
      rw [hHandle] at h
      cases holding with
      | plain value =>
          refine ⟨_, rfl, .dropped fun block hShared => ?_⟩
          rw [hHandle] at hShared
          cases hShared
      | shared block =>
          by_cases hOne : store.holders block = 1
          · have hAlone := (holders_eq_one_iff hHandle).mp hOne
            exact ⟨_, by simp [reclaimed?, hOne], .last hHandle hAlone⟩
          · refine ⟨_, by simp only [reclaimed?, if_neg hOne], .dropped fun other hShared => ?_⟩
            rw [hHandle] at hShared
            cases hShared
            exact fun hAlone => hOne ((holders_eq_one_iff hHandle).mpr hAlone)
      | buffer block => cases h
      | nothing => cases h

/-- Where no other handle shares a sequence, no other handle refers to its block. -/
theorem Sound.sole_iff_alone (h : store.Sound)
    (hHandle : store.handles[handle]? = some (.shared block)) :
    store.Sole handle ↔ store.Alone handle block := by
  have hRefers : store.Refers handle block := refers_of hHandle rfl
  constructor
  · intro hSole other hOther
    exact hSole block hRefers other (refers_of hOther rfl)
  · intro hAlone found hFound other hOther
    cases hFound.symm.trans hRefers
    obtain ⟨holding, hHolding, hBlock⟩ := Option.bind_eq_some_iff.mp hOther
    cases holding with
    | shared owned =>
        cases hBlock
        exact hAlone other hHolding
    | buffer owned =>
        cases hBlock
        exact (h.sole other handle block hHolding hRefers).symm
    | plain value => cases hBlock
    | nothing => cases hBlock

theorem Sound.giveBack (h : store.Sound) (hRefers : store.Refers handle block)
    (hSole : store.Sole handle) : Steps (some handle) store (store.giveBack handle block).2 :=
  (h.drop handle).trans ((h.drop handle).sound.recycle (h.free_drop hRefers hSole))

/-- The handle that is given up with a request. -/
def Request.givenUp? : Request → Option Nat
  | .wrap handle _ => some handle
  | .recycle handle => some handle
  | .recycleBuffer handle => some handle
  | .create _ _ => none
  | .share _ => none
  | .acquire _ => none
  | .show _ => none

theorem answer?_acquire (holds : Nat → Bool) (store : Store) (count : Nat) :
    store.answer? holds (.acquire count) =
      if holds count then
        let heap := store.toHeap.take.2.write store.toHeap.take.1 fun buffer => buffer.reserve count
        some (.acquired (heap.contents store.toHeap.take.1).isEmpty,
          (⟨heap, store.handles⟩ : Store).addHandle (.buffer store.toHeap.take.1))
      else some (.noRoom, ⟨store.toHeap.take.2, store.handles⟩) := by
  simp only [answer?, Heap.acquire]
  cases holds count <;> rfl

/-- Whatever is asked of a store, it stays in order, and nobody but the one who gave up a handle sees
a difference. -/
theorem Sound.answer? (h : store.Sound) {holds : Nat → Bool} {request : Request} {reply : Reply}
    (hAnswer : store.answer? holds request = some (reply, next)) :
    Steps request.givenUp? store next := by
  cases request with
  | create value spare =>
      cases value with
      | sequence values =>
          cases hAnswer
          obtain ⟨hSteps, hFree⟩ := h.allocate ((Buffer.ofList values).reserve spare)
          exact hSteps.trans (hSteps.sound.addHandle_of_free hFree rfl)
      | _ =>
          cases hAnswer
          exact h.addHandle_plain _
  | share handle =>
      simp only [Store.answer?] at hAnswer
      split at hAnswer
      · cases hAnswer
        exact h.addHandle_plain _
      · next block hHandle =>
          cases hAnswer
          have hRefers : store.Refers handle block := refers_of hHandle rfl
          refine h.addHandle ?_ ?_ (by simp)
          · intro other hOther
            cases hOther
            exact h.held handle block hRefers
          · intro other hOther owner hOwner
            cases hOther
            -- A buffer has no second handle, and this one is a sequence.
            cases h.sole owner handle block hOwner hRefers
            rw [hHandle] at hOwner
            cases hOwner
      · cases hAnswer
  | acquire count =>
      obtain ⟨hTaken, hFree⟩ := h.take
      rw [answer?_acquire] at hAnswer
      split at hAnswer
      · cases hAnswer
        obtain ⟨hReserved, hFree⟩ := hTaken.sound.write hFree fun buffer => buffer.reserve count
        exact (hTaken.trans hReserved).trans (hReserved.sound.addHandle_of_free hFree rfl)
      · cases hAnswer
        exact hTaken
  | wrap handle values =>
      simp only [Store.answer?] at hAnswer
      split at hAnswer
      · next block hHandle =>
          cases hAnswer
          have hDropped := h.drop handle
          have hFree := h.free_drop (refers_of hHandle rfl) (h.sole_of_buffer hHandle)
          obtain ⟨hFilled, hFree⟩ := hDropped.sound.write hFree fun buffer => buffer.append values
          exact (hDropped.trans hFilled).trans (hFilled.sound.addHandle_of_free hFree rfl)
      · cases hAnswer
  | recycle handle =>
      cases hValue : store.value? handle with
      | none =>
          rw [Store.answer?, recycle?_eq_none hValue] at hAnswer
          cases hAnswer
      | some value =>
          obtain ⟨result, hResult, hRecycles⟩ := recycle?_eq_some (by rw [hValue]; rfl)
          rw [Store.answer?, hResult] at hAnswer
          cases hAnswer
          cases hRecycles with
          | last hHandle hAlone =>
              exact h.giveBack (refers_of hHandle rfl) ((h.sole_iff_alone hHandle).mpr hAlone)
          | dropped hShared => exact h.drop handle
  | recycleBuffer handle =>
      simp only [Store.answer?] at hAnswer
      split at hAnswer
      · next block hHandle =>
          cases hAnswer
          exact h.giveBack (refers_of hHandle rfl) (h.sole_of_buffer hHandle)
      · cases hAnswer
  | _ =>
      obtain ⟨value, -, hPair⟩ := Option.map_eq_some_iff.mp hAnswer
      cases hPair
      exact ⟨h, Nat.le_refl _, fun _ _ _ => rfl⟩

/-- The store after requests were made to it one after the other. One that there is no answer to
changes nothing. -/
def after (holds : Nat → Bool) (requests : List Request) : Store :=
  requests.foldl (fun store request => ((store.answer? holds request).map Prod.snd).getD store)
    Store.empty

theorem sound_empty : Store.empty.Sound := by
  have hNone (handle block : Nat) : ¬Store.empty.Refers handle block := by
    simp [Refers, Store.empty]
  refine ⟨⟨Nat.zero_le _, .nil, by simp [Store.empty, Pool.empty]⟩, ?_, ?_⟩
  · intro handle block hRefers
    exact absurd hRefers (hNone handle block)
  · intro handle other block _ hRefers
    exact absurd hRefers (hNone other block)

/-- Every run keeps a store in order. -/
theorem sound_after (holds : Nat → Bool) (requests : List Request) :
    (Store.after holds requests).Sound := by
  unfold after
  generalize hFirst : Store.empty = store
  have hSound : store.Sound := hFirst ▸ sound_empty
  clear hFirst
  induction requests generalizing store with
  | nil => exact hSound
  | cons request requests ih =>
      rw [List.foldl_cons]
      apply ih
      cases hAnswer : store.answer? holds request with
      | none => exact hSound
      | some result => exact (hSound.answer? hAnswer).sound

namespace Sound

variable (h : store.Sound) (holds : Nat → Bool)

include h

/-- A new value has one handle. A new sequence has room if it has elements or is given any. -/
theorem answer?_create (value : Value) (spare : Nat) :
    ∃ next, store.answer? holds (.create value spare) = some (.created, next) ∧
      next.pool = store.pool ∧ next.view? store.handles.size = some (.value value) ∧
      next.Sole store.handles.size ∧
      ∀ block, next.handles[store.handles.size]? = some (.shared block) →
        (next.hasRoom block = true ↔ value ≠ .sequence [] ∨ 0 < spare) := by
  cases value with
  | sequence values =>
      obtain ⟨-, hFree⟩ := h.allocate ((Buffer.ofList values).reserve spare)
      refine ⟨_, rfl, rfl, ?_, hFree.sole rfl, ?_⟩
      · rw [view?_addHandle]
        exact Holding.view?_shared (Heap.contents_allocate _ _)
      · intro block hHandle
        rw [handles_addHandle, if_pos rfl] at hHandle
        cases hHandle
        have hRoom : (store.toHeap.allocate ((Buffer.ofList values).reserve spare)).2.hasRoom
            store.blocks.size = true ↔ values ≠ [] ∨ 0 < spare := by
          rw [Heap.hasRoom_allocate, Buffer.hasRoom_ofList_reserve]
        rwa [ne_eq, Value.sequence.injEq]
  | _ =>
      refine ⟨_, rfl, rfl, view?_addHandle _ _, ?_, ?_⟩
      · intro block hRefers
        rw [Refers, handles_addHandle, if_pos rfl] at hRefers
        cases hRefers
      · intro block hHandle
        rw [handles_addHandle, if_pos rfl] at hHandle
        cases hHandle

/-- A buffer that is acquired is empty. -/
theorem answer?_acquire {count : Nat} (hRoom : holds count = true) :
    ∃ next, store.answer? holds (.acquire count) = some (.acquired true, next) ∧
      next.pool.idle = store.pool.idle.tail ∧
      next.view? store.handles.size = some (.buffer []) ∧ next.Sole store.handles.size := by
  obtain ⟨-, -, hEmpty, -⟩ := h.heap.take
  obtain ⟨hTaken, hFree⟩ := h.take
  obtain ⟨-, hFree⟩ := hTaken.sound.write hFree fun buffer => buffer.reserve count
  let heap := store.toHeap.take.2.write store.toHeap.take.1 fun buffer => buffer.reserve count
  have hContents : heap.contents store.toHeap.take.1 = [] :=
    (Heap.contents_write_reserve _ _ count).trans hEmpty
  refine ⟨(⟨heap, store.handles⟩ : Store).addHandle (.buffer store.toHeap.take.1), ?_,
    Heap.take_idle _, ?_, hFree.sole rfl⟩
  · have hReply : (heap.contents store.toHeap.take.1).isEmpty = true := by rw [hContents]; rfl
    rw [Store.answer?_acquire, if_pos hRoom, ← hReply]
  · rw [view?_addHandle]
    exact Holding.view?_buffer hContents

/-- A buffer that is wrapped is a sequence of what it holds and what is added. -/
theorem answer?_wrap (hHandle : store.handles[handle]? = some (.buffer block))
    (values : List Value) :
    ∃ next, store.answer? holds (.wrap handle values) =
        some (.value (.sequence (store.contents block ++ values)), next) ∧
      next.pool = store.pool ∧ next.Sole store.handles.size ∧
      next.view? store.handles.size = some (.value (.sequence (store.contents block ++ values))) := by
  have hRefers : store.Refers handle block := refers_of hHandle rfl
  have hFree := h.free_drop hRefers (h.sole_of_buffer hHandle)
  obtain ⟨-, hFree⟩ := (h.drop handle).sound.write hFree fun buffer => buffer.append values
  let heap := store.toHeap.write block fun buffer => buffer.append values
  have hContents : heap.contents block = store.contents block ++ values :=
    Heap.contents_write_append (h.held handle block hRefers).1 values
  have hSize : (store.drop handle).handles.size = store.handles.size := Array.size_setIfInBounds
  refine ⟨{ store.drop handle with toHeap := heap }.addHandle (.shared block), ?_, rfl, ?_, ?_⟩
  · simp only [Store.answer?, hHandle, ← hContents, heap]
  · rw [← hSize]
    exact hFree.sole rfl
  · rw [← hSize]
    exact (view?_addHandle _ _).trans (Holding.view?_shared hContents)

end Sound

/-- Giving up the handle gets a buffer back: it is the only one on a sequence with room. -/
def Reclaims (store : Store) (handle : Nat) : Prop :=
  ∃ block, store.handles[handle]? = some (.shared block) ∧ store.hasRoom block = true ∧
    store.Sole handle

/-- A value that is given up leaves the pool a buffer if it has one to leave and the pool is not
full. -/
theorem Recycles.gets {result : Bool × Store} (h : store.Recycles handle result)
    (hSound : store.Sound) :
    (result.1 = true ↔ store.Reclaims handle ∧ store.pool.size < Pool.limit) ∧
      store.pool.Gets result.2.pool result.1 := by
  cases h with
  | @last block hHandle hAlone =>
      obtain ⟨hKept, hGets⟩ := store.toHeap.recycle_gets block
      refine ⟨hKept.trans (and_congr_left fun _ => ?_), hGets⟩
      constructor
      · intro hRoom
        exact ⟨block, hHandle, hRoom, (hSound.sole_iff_alone hHandle).mpr hAlone⟩
      · rintro ⟨other, hOther, hRoom, -⟩
        cases hHandle.symm.trans hOther
        exact hRoom
  | dropped hShared =>
      refine ⟨iff_of_false Bool.false_ne_true ?_, rfl⟩
      rintro ⟨⟨block, hHandle, -, hSole⟩, -⟩
      exact hShared block hHandle ((hSound.sole_iff_alone hHandle).mp hSole)

/-- A value that can be seen can be shared. -/
theorem answer?_share (holds : Nat → Bool) (h : (store.value? handle).isSome = true) :
    ∃ next, store.answer? holds (.share handle) = some (.created, next) ∧
      next.pool = store.pool ∧ next.handles[store.handles.size]? = store.handles[handle]? := by
  unfold value? at h
  cases hHandle : store.handles[handle]? with
  | none => simp [hHandle] at h
  | some holding =>
      rw [hHandle] at h
      have hAnswer : store.answer? holds (.share handle) =
          some (.created, store.addHandle holding) := by
        cases holding with
        | plain value | shared block => simp only [answer?, hHandle]
        | buffer block | nothing => cases h
      exact ⟨_, hAnswer, rfl, by rw [handles_addHandle, if_pos rfl]⟩

/-- What holds of a store and its pool, and of any request that is made to it next. -/
structure Safe (holds : Nat → Bool) (store : Store) : Prop where
  bounded : store.pool.size ≤ 8
  idle : ∀ block ∈ store.pool.idle, store.contents block = [] ∧ store.hasRoom block = true ∧
    ∀ handle, ¬store.Refers handle block
  /-- A new sequence has room if it has elements or is given any. -/
  create : ∀ value spare, ∃ next,
    store.answer? holds (.create value spare) = some (.created, next) ∧
    next.pool = store.pool ∧ next.view? store.handles.size = some (.value value) ∧
    next.Sole store.handles.size ∧
    ∀ block, next.handles[store.handles.size]? = some (.shared block) →
      (next.hasRoom block = true ↔ value ≠ .sequence [] ∨ 0 < spare)
  /-- A second handle on a sequence stands for the same block. -/
  share : ∀ handle, (store.value? handle).isSome = true → ∃ next,
    store.answer? holds (.share handle) = some (.created, next) ∧ next.pool = store.pool ∧
    next.handles[store.handles.size]? = store.handles[handle]?
  acquire : ∀ count, holds count = true → ∃ next,
    store.answer? holds (.acquire count) = some (.acquired true, next) ∧
    next.pool.idle = store.pool.idle.tail ∧ next.view? store.handles.size = some (.buffer []) ∧
    next.Sole store.handles.size
  /-- Without room, a buffer that was taken out of the pool is lost. -/
  noRoom : ∀ count, holds count = false → ∃ next,
    store.answer? holds (.acquire count) = some (.noRoom, next) ∧
    next.pool.idle = store.pool.idle.tail ∧ next.handles = store.handles
  wrap : ∀ handle block values, store.handles[handle]? = some (.buffer block) → ∃ next,
    store.answer? holds (.wrap handle values) =
      some (.value (.sequence (store.contents block ++ values)), next) ∧
    next.pool = store.pool ∧ next.Sole store.handles.size ∧
    next.view? store.handles.size = some (.value (.sequence (store.contents block ++ values)))
  recycle : ∀ handle, (store.value? handle).isSome = true → ∃ kept next,
    store.answer? holds (.recycle handle) = some (.recycled kept, next) ∧
    (kept = true ↔ store.Reclaims handle ∧ store.pool.size < 8) ∧
    store.pool.Gets next.pool kept
  recycleBuffer : ∀ handle block, store.handles[handle]? = some (.buffer block) → ∃ kept next,
    store.answer? holds (.recycleBuffer handle) = some (.recycled kept, next) ∧
    (kept = true ↔ store.hasRoom block = true ∧ store.pool.size < 8) ∧
    store.pool.Gets next.pool kept
  /-- No request changes what can be seen through a handle that is not given up with it. -/
  spared : ∀ request reply next, store.answer? holds request = some (reply, next) →
    ∀ handle < store.handles.size, request.givenUp? ≠ some handle →
      next.view? handle = store.view? handle

/-- The pool is safe over every run. It holds at most eight buffers, which are empty, have room and
are referred to by no handle. An acquired buffer is empty. A value that is recycled gives the pool one
more buffer if it is a sequence with room that has no other handle and the pool is not full, and
otherwise leaves the pool as it is. And nobody sees a change to what they hold. -/
theorem pool_safe (holds : Nat → Bool) (requests : List Request) :
    (Store.after holds requests).Safe holds := by
  have hSound := sound_after holds requests
  generalize Store.after holds requests = store at hSound
  refine ⟨hSound.heap.bounded, ?_, hSound.answer?_create holds, ?_,
    fun _ => hSound.answer?_acquire holds, ?_,
    fun _ _ values hHandle => hSound.answer?_wrap holds hHandle values, ?_, ?_, ?_⟩
  · intro block hMem
    obtain ⟨hEmpty, hRoom⟩ := hSound.heap.idle block hMem
    exact ⟨hEmpty, hRoom, fun handle hRefers => (hSound.held handle block hRefers).2 hMem⟩
  · intro handle hValue
    exact answer?_share holds hValue
  · intro count hRoom
    have hFull : ¬holds count = true := Bool.eq_false_iff.mp hRoom
    refine ⟨⟨store.toHeap.take.2, store.handles⟩, ?_, Heap.take_idle _, rfl⟩
    rw [answer?_acquire, if_neg hFull]
  · intro handle hValue
    obtain ⟨⟨kept, next⟩, hResult, hRecycles⟩ := recycle?_eq_some hValue
    exact ⟨kept, next, by rw [answer?, hResult]; rfl, hRecycles.gets hSound⟩
  · intro handle block hHandle
    exact ⟨_, _, by rw [answer?, hHandle], store.toHeap.recycle_gets block⟩
  · intro request reply next hAnswer
    exact (hSound.answer? hAnswer).spared

-- The buffer of a shared sequence comes back with its second handle, and goes out again.
example :
    let requests : List Request := [.create (.sequence [.int 7]), .share 0, .recycle 0, .recycle 1]
    (Store.after (· < 10) (requests.take 3)).pool.idle = [] ∧
      (Store.after (· < 10) requests).pool.idle = [0] ∧
      (Store.after (· < 10) (requests ++ [.acquire 2])).pool.idle = [] := by
  decide +kernel

-- An empty sequence leaves a buffer if it was created with room.
example : (Store.after (· < 10) [.create (.sequence []) 3, .recycle 0]).pool.idle = [0] ∧
    (Store.after (· < 10) [.create (.sequence []), .recycle 0]).pool.idle = [] := by
  decide +kernel

end Store

end Progression
