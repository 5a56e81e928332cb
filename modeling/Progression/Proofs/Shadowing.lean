import Mathlib.Data.List.Induction
import Mathlib.Tactic.MkIffOfInductiveProp
import Progression.Scope

/-! Scopes and the moves that led to them. What a scope answers is read off the moves alone: a
declaration counts as long as its frame is open, inner frames hide outer ones, and within a frame the
latest declaration counts. A frame that has been left again leaves no trace. -/

namespace Progression

namespace Scope

/-- Something done to a scope. -/
inductive Move where
  | enter
  | leave
  | declare (name : String) (id : Nat)

/-- The scope after a move. The global frame cannot be left. -/
def move? (scope : Scope) : Move → Option Scope
  | .enter => some scope.enter
  | .leave => scope.leave?
  | .declare name id => some (scope.declare name id)

/-- The scope after some moves. -/
def after? (scope : Scope) (moves : List Move) : Option Scope := moves.foldlM move? scope

/-- Moves that leave every frame they enter, and no other. -/
inductive Balanced : List Move → Prop where
  | nil : Balanced []
  | declare (name : String) (id : Nat) {moves : List Move} (h : Balanced moves) :
      Balanced (.declare name id :: moves)
  | frame {inner moves : List Move} (hInner : Balanced inner) (h : Balanced moves) :
      Balanced (.enter :: inner ++ .leave :: moves)

/-- Moves that enter `out` frames and stay in them, and leave every other frame that they enter. The
frame they begin in is then `out` frames around the innermost. -/
inductive Enters : Nat → List Move → Prop where
  | level {moves : List Move} (h : Balanced moves) : Enters 0 moves
  | enter {out : Nat} {before moves : List Move} (hBefore : Balanced before) (h : Enters out moves) :
      Enters (out + 1) (before ++ .enter :: moves)

/-- Move number `i` declares the name, in a frame that is still open: since then, `out` frames have been
entered inside it. -/
@[mk_iff]
structure Declared (moves : List Move) (out i : Nat) (name : String) (id : Nat) : Prop where
  declares : moves[i]? = some (.declare name id)
  since : Enters out (moves.drop (i + 1))

/-- What the frame `out` frames around the innermost should say of a name: its most recent declaration
there, if it has any. -/
inductive Latest (moves : List Move) (out : Nat) (name : String) : Option Nat → Prop where
  | declared {i id : Nat} (h : Declared moves out i name id)
      (hLatest : ∀ j other, Declared moves out j name other → j ≤ i) :
      Latest moves out name (some id)
  | undeclared (h : ∀ i id, ¬ Declared moves out i name id) : Latest moves out name none

/-- What a name should stand for: what the innermost frame says that declares it, if one does. -/
inductive Resolves (moves : List Move) (name : String) : Option Nat → Prop where
  | found {out id : Nat} (h : Latest moves out name (some id))
      (hInner : ∀ inner < out, Latest moves inner name none) : Resolves moves name (some id)
  | unknown (h : ∀ out, Latest moves out name none) : Resolves moves name none

section Moves

variable {moves more : List Move} {out : Nat}

theorem Balanced.append (h : Balanced moves) (hMore : Balanced more) : Balanced (moves ++ more) := by
  induction h with
  | nil => exact hMore
  | declare name id _ ih => exact .declare name id ih
  | frame hInner _ _ ih => simpa using Balanced.frame hInner ih

theorem Balanced.enters (h : Balanced moves) (hMore : Enters out more) :
    Enters out (moves ++ more) := by
  cases hMore with
  | level hMore => exact .level (h.append hMore)
  | enter hBefore hMore => simpa using Enters.enter (h.append hBefore) hMore

theorem Enters.append {further : Nat} (h : Enters out moves) (hMore : Enters further more) :
    Enters (further + out) (moves ++ more) := by
  induction h with
  | level h => exact h.enters hMore
  | enter hBefore _ ih =>
      rw [List.append_assoc, List.cons_append]
      exact .enter hBefore ih

/-- The frame that is left is the last one entered. -/
theorem Enters.leave (h : Enters (out + 1) moves) : Enters out (moves ++ [.leave]) := by
  induction out generalizing moves with
  | zero =>
      cases h with
      | enter hBefore hInner =>
          cases hInner with
          | level hInner => simpa using Enters.level (hBefore.append (.frame hInner .nil))
  | succ out ih =>
      cases h with
      | enter hBefore h => simpa using Enters.enter hBefore (ih h)

theorem after?_append (scope : Scope) (moves more : List Move) :
    scope.after? (moves ++ more) = (scope.after? moves).bind fun next => next.after? more :=
  List.foldlM_append

theorem after?_concat (scope : Scope) (moves : List Move) (move : Move) :
    scope.after? (moves ++ [move]) = (scope.after? moves).bind fun next => next.move? move := by
  rw [after?_append]
  congr
  funext next
  simp [after?]

/-- Moves inside a frame that keep what is around it leave no trace once the frame is left. -/
theorem after?_frame {scope : Scope} {current : Declarations} {inner : List Move}
    (h : scope.enter.after? inner = some ⟨current, scope.enter.outer⟩) :
    scope.after? (.enter :: (inner ++ [.leave])) = some scope := by
  show scope.enter.after? (inner ++ [.leave]) = some scope
  rw [after?_concat, h]
  rfl

/-- Balanced moves can be made in every scope, and change nothing but the innermost frame. -/
theorem Balanced.after? (h : Balanced moves) (scope : Scope) :
    ∃ current, scope.after? moves = some ⟨current, scope.outer⟩ := by
  induction h generalizing scope with
  | nil => exact ⟨scope.current, rfl⟩
  | declare name id _ ih => exact ih (scope.declare name id)
  | @frame inner moves _ _ ihInner ih =>
      obtain ⟨current, hInner⟩ := ihInner scope.enter
      obtain ⟨final, hFinal⟩ := ih scope
      have hSplit : Move.enter :: inner ++ .leave :: moves =
          Move.enter :: (inner ++ [.leave]) ++ moves := by simp
      rw [hSplit, after?_append, after?_frame hInner]
      exact ⟨final, hFinal⟩

theorem Enters.after? (h : Enters out moves) (scope : Scope) :
    ∃ next, scope.after? moves = some next ∧ next.depth = scope.depth + out := by
  induction h generalizing scope with
  | level h =>
      obtain ⟨current, hAfter⟩ := h.after? scope
      exact ⟨_, hAfter, rfl⟩
  | @enter out before moves hBefore _ ih =>
      obtain ⟨current, hCurrent⟩ := hBefore.after? scope
      obtain ⟨next, hNext, hDepth⟩ := ih (Scope.enter ⟨current, scope.outer⟩)
      refine ⟨next, ?_, ?_⟩
      · rw [after?_append, hCurrent]
        exact hNext
      · have hEntered : next.depth = scope.depth + 1 + out := hDepth
        omega

/-- The moves that can be made from the global frame on are those that enter some frames and stay in
them, and the depth of the scope tells how many. -/
theorem enters_iff_after? :
    Enters out moves ↔ ∃ scope, empty.after? moves = some scope ∧ scope.depth = out := by
  constructor
  · intro h
    simpa [depth, empty] using h.after? empty
  · -- Frames are closed from the inside out, so the induction takes the last move off.
    rintro ⟨scope, hAfter, hDepth⟩
    induction moves using List.reverseRecOn generalizing scope out with
    | nil =>
        cases hAfter
        cases hDepth
        exact .level .nil
    | append_singleton moves move ih =>
        rw [after?_concat, Option.bind_eq_some_iff] at hAfter
        obtain ⟨before, hBefore, hMove⟩ := hAfter
        have h := ih before hBefore rfl
        cases move with
        | enter =>
            cases hMove
            cases hDepth
            simpa [depth, Scope.enter, Nat.add_comm] using h.append (.enter .nil (.level .nil))
        | leave =>
            obtain ⟨current, _ | ⟨frame, frames⟩⟩ := before
            · cases hMove
            · cases hMove
              cases hDepth
              exact h.leave
        | declare name id =>
            cases hMove
            cases hDepth
            simpa [depth, Scope.declare] using h.append (.level (.declare name id .nil))

theorem enters_nil_iff : Enters out [] ↔ out = 0 := by
  rw [enters_iff_after?]
  constructor
  · rintro ⟨scope, hAfter, rfl⟩
    cases hAfter
    rfl
  · rintro rfl
    exact ⟨empty, rfl, rfl⟩

theorem enters_concat_declare (name : String) (id : Nat) :
    Enters out (moves ++ [.declare name id]) ↔ Enters out moves := by
  rw [enters_iff_after?, enters_iff_after?, after?_concat]
  cases empty.after? moves <;> simp [move?, declare, depth]

theorem enters_concat_enter : Enters (out + 1) (moves ++ [.enter]) ↔ Enters out moves := by
  rw [enters_iff_after?, enters_iff_after?, after?_concat]
  cases empty.after? moves <;> simp [move?, enter, depth]

theorem not_enters_concat_enter : ¬ Enters 0 (moves ++ [.enter]) := by
  rw [enters_iff_after?, after?_concat]
  cases empty.after? moves <;> simp [move?, enter, depth]

theorem enters_concat_leave : Enters out (moves ++ [.leave]) ↔ Enters (out + 1) moves := by
  refine ⟨?_, Enters.leave⟩
  rw [enters_iff_after?, enters_iff_after?, after?_concat]
  rintro ⟨scope, hAfter, hDepth⟩
  obtain ⟨⟨current, _ | ⟨frame, frames⟩⟩, hBefore, hLeave⟩ := Option.bind_eq_some_iff.mp hAfter
  · cases hLeave
  · cases hLeave
    exact ⟨_, hBefore, congrArg (· + 1) hDepth⟩

end Moves

namespace Declared

variable {moves : List Move} {out i id : Nat} {name : String}

theorem lt_length (h : Declared moves out i name id) : i < moves.length :=
  (List.getElem?_eq_some_iff.mp h.declares).1

/-- One more move. Either the declaration was made before it, or the move is the declaration. -/
theorem concat_iff {move : Move} :
    Declared (moves ++ [move]) out i name id ↔
      (moves[i]? = some (.declare name id) ∧ Enters out (moves.drop (i + 1) ++ [move])) ∨
        (i = moves.length ∧ move = .declare name id ∧ out = 0) := by
  rw [declared_iff]
  rcases Nat.lt_trichotomy i moves.length with hBefore | rfl | hBeyond
  · rw [List.getElem?_append_left hBefore, List.drop_append_of_le_length hBefore]
    simp [Nat.ne_of_lt hBefore]
  · simp [enters_nil_iff]
  · have hBefore : moves[i]? = none := List.getElem?_eq_none (Nat.le_of_lt hBeyond)
    have hAll : (moves ++ [move])[i]? = none :=
      List.getElem?_eq_none (by rw [List.length_append]; exact hBeyond)
    simp [hBefore, hAll, Nat.ne_of_gt hBeyond]

theorem concat_declare {other : String} {new : Nat} :
    Declared (moves ++ [.declare other new]) out i name id ↔
      Declared moves out i name id ∨ (i = moves.length ∧ (other = name ∧ new = id) ∧ out = 0) := by
  rw [concat_iff, enters_concat_declare, ← declared_iff, Move.declare.injEq]

theorem concat_enter :
    Declared (moves ++ [.enter]) (out + 1) i name id ↔ Declared moves out i name id := by
  rw [concat_iff, enters_concat_enter, ← declared_iff]
  simp

theorem not_concat_enter : ¬ Declared (moves ++ [.enter]) 0 i name id := by
  simp [concat_iff, not_enters_concat_enter]

theorem concat_leave :
    Declared (moves ++ [.leave]) out i name id ↔ Declared moves (out + 1) i name id := by
  rw [concat_iff, enters_concat_leave, ← declared_iff]
  simp

end Declared

namespace Latest

variable {moves next : List Move} {out around : Nat} {name : String} {answer other : Option Nat}

/-- Two frames with the same declarations of a name say the same of it. -/
theorem congr (h : Latest moves out name answer)
    (hSame : ∀ i id, Declared next around i name id ↔ Declared moves out i name id) :
    Latest next around name answer := by
  cases h with
  | declared h hLatest =>
      exact .declared ((hSame _ _).mpr h) fun j id hOther => hLatest j id ((hSame j id).mp hOther)
  | undeclared h => exact .undeclared fun i id hDeclared => h i id ((hSame i id).mp hDeclared)

theorem unique (h : Latest moves out name answer) (hOther : Latest moves out name other) :
    answer = other := by
  cases h with
  | @declared i id h hLatest =>
      cases hOther with
      | @declared j new hOther hLast =>
          have hSame : i = j := Nat.le_antisymm (hLast i id h) (hLatest j new hOther)
          have hMoves := h.declares
          rw [hSame, hOther.declares] at hMoves
          cases hMoves
          rfl
      | undeclared hNone => exact absurd h (hNone i id)
  | undeclared hNone =>
      cases hOther with
      | @declared j new hOther _ => exact absurd hOther (hNone j new)
      | undeclared _ => rfl

/-- A declaration is the latest one right after it has been made. -/
theorem concat_declare (moves : List Move) (name : String) (id : Nat) :
    Latest (moves ++ [.declare name id]) 0 name (some id) := by
  refine .declared (Declared.concat_declare.mpr (.inr ⟨rfl, ⟨rfl, rfl⟩, rfl⟩)) fun j other h => ?_
  have hLess := h.lt_length
  rw [List.length_append, List.length_singleton] at hLess
  omega

end Latest

theorem Resolves.unique {moves : List Move} {name : String} {answer other : Option Nat}
    (h : Resolves moves name answer) (hOther : Resolves moves name other) : answer = other := by
  cases h with
  | @found out id h hInner =>
      cases hOther with
      | @found around new hOther hAround =>
          rcases Nat.lt_trichotomy out around with hLess | rfl | hLess
          · cases h.unique (hAround out hLess)
          · exact h.unique hOther
          · cases hOther.unique (hInner around hLess)
      | unknown hNone => exact h.unique (hNone out)
  | unknown hNone =>
      cases hOther with
      | @found around new hOther _ => exact (hNone around).unique hOther
      | unknown _ => rfl

/-- What the frame `out` frames around the innermost says of a name. -/
def entry (scope : Scope) (out : Nat) (name : String) : Option Nat :=
  (scope.current :: scope.outer)[out]?.bind (List.lookup name)

section Entries

variable {scope : Scope} {name other : String} {id out : Nat}

theorem entry_declare_self : (scope.declare name id).entry 0 name = some id := by
  simp [entry, declare]

theorem entry_declare_of_ne (h : out = 0 → name ≠ other) :
    (scope.declare other id).entry out name = scope.entry out name := by
  cases out with
  | zero => simp [entry, declare, List.lookup_cons, beq_eq_false_iff_ne.mpr (h rfl)]
  | succ out => rfl

theorem declares_eq_isSome_entry : scope.declares name = (scope.entry 0 name).isSome := rfl

/-- A name stands for what the first frame says that says anything. -/
theorem entry_of_lookup_eq_some (h : scope.lookup name = some id) :
    ∃ out, scope.entry out name = some id ∧ ∀ inner < out, scope.entry inner name = none := by
  obtain ⟨inside, frame, outside, hFrames, hFound, hInside⟩ := List.findSome?_eq_some_iff.mp h
  refine ⟨inside.length, by simp [entry, hFrames, hFound], fun inner hInner => ?_⟩
  rw [entry, hFrames, List.getElem?_append_left hInner, List.getElem?_eq_getElem hInner]
  exact hInside _ (List.getElem_mem hInner)

theorem entry_of_lookup_eq_none (h : scope.lookup name = none) : scope.entry out name = none := by
  rw [entry, Option.bind_eq_none_iff]
  intro frame hFrame
  exact List.findSome?_eq_none_iff.mp h frame (List.mem_of_getElem? hFrame)

end Entries

/-- Every frame of the scope says what it should after the moves. -/
def Reflects (scope : Scope) (moves : List Move) : Prop :=
  ∀ out name, Latest moves out name (scope.entry out name)

namespace Reflects

variable {scope next : Scope} {moves : List Move}

theorem empty : Scope.empty.Reflects [] := by
  intro out name
  have hEntry : Scope.empty.entry out name = none := entry_of_lookup_eq_none rfl
  rw [hEntry]
  exact .undeclared fun i id h => absurd h.lt_length (Nat.not_lt_zero i)

theorem enter (h : scope.Reflects moves) : scope.enter.Reflects (moves ++ [.enter]) := by
  intro out name
  cases out with
  | zero => exact .undeclared fun i id => Declared.not_concat_enter
  | succ out => exact (h out name).congr fun i id => Declared.concat_enter

theorem leave (h : scope.Reflects moves) (hLeave : scope.leave? = some next) :
    next.Reflects (moves ++ [.leave]) := by
  obtain ⟨current, _ | ⟨frame, frames⟩⟩ := scope
  · cases hLeave
  · cases hLeave
    intro out name
    exact (h (out + 1) name).congr fun i id => Declared.concat_leave

theorem declare (h : scope.Reflects moves) (name : String) (id : Nat) :
    (scope.declare name id).Reflects (moves ++ [.declare name id]) := by
  intro out other
  by_cases hNew : out = 0 ∧ name = other
  · obtain ⟨rfl, rfl⟩ := hNew
    rw [entry_declare_self]
    exact Latest.concat_declare moves name id
  · rw [entry_declare_of_ne fun hOut hSame => hNew ⟨hOut, hSame.symm⟩]
    refine (h out other).congr fun i new => ?_
    rw [Declared.concat_declare]
    exact or_iff_left fun hMade => hNew ⟨hMade.2.2, hMade.2.1.1⟩

/-- What one move preserves. -/
theorem move (h : scope.Reflects moves) {move : Move} (hMove : scope.move? move = some next) :
    next.Reflects (moves ++ [move]) := by
  cases move with
  | enter =>
      cases hMove
      exact h.enter
  | leave => exact h.leave hMove
  | declare name id =>
      cases hMove
      exact h.declare name id

theorem after (h : Scope.empty.after? moves = some scope) : scope.Reflects moves := by
  induction moves using List.reverseRecOn generalizing scope with
  | nil =>
      cases h
      exact .empty
  | append_singleton moves move ih =>
      rw [after?_concat, Option.bind_eq_some_iff] at h
      obtain ⟨before, hBefore, hMove⟩ := h
      exact (ih hBefore).move hMove

theorem resolves (h : scope.Reflects moves) (name : String) :
    Resolves moves name (scope.lookup name) := by
  cases hLookup : scope.lookup name with
  | none =>
      refine .unknown fun out => ?_
      rw [← entry_of_lookup_eq_none hLookup]
      exact h out name
  | some id =>
      obtain ⟨out, hFound, hInner⟩ := entry_of_lookup_eq_some hLookup
      have hLatest := h out name
      rw [hFound] at hLatest
      refine .found hLatest fun inner hLess => ?_
      rw [← hInner inner hLess]
      exact h inner name

theorem declares_iff (h : scope.Reflects moves) (name : String) :
    scope.declares name = true ↔ ∃ i id, Declared moves 0 i name id := by
  have hLatest := h 0 name
  rw [declares_eq_isSome_entry]
  constructor
  · intro hSome
    obtain ⟨id, hFound⟩ := Option.isSome_iff_exists.mp hSome
    rw [hFound] at hLatest
    cases hLatest with
    | @declared i _ hDeclared _ => exact ⟨i, id, hDeclared⟩
  · rintro ⟨i, id, hDeclared⟩
    cases hFound : scope.entry 0 name with
    | some found => rfl
    | none =>
        rw [hFound] at hLatest
        cases hLatest with
        | undeclared hNone => exact absurd hDeclared (hNone i id)

end Reflects

end Scope

open Scope

/-- Scopes are stacks of maps from names to variables. At any point of balanced moves from the global
frame on, a name stands for its most recent declaration in the innermost open frame that declares it, and
for nothing if no open frame does. The scope declares exactly the names declared in the frame that it is
in. Entering a frame and leaving it, with any balanced moves between, leads back to the very same
scope. -/
theorem scopes_nest {moves rest : List Move} (h : Balanced (moves ++ rest)) :
    ∃ scope, Scope.empty.after? moves = some scope ∧
      (∀ name answer, scope.lookup name = answer ↔ Resolves moves name answer) ∧
      (∀ name, scope.declares name = true ↔ ∃ i id, Declared moves 0 i name id) ∧
      ∀ inner, Balanced inner →
        Scope.empty.after? (moves ++ .enter :: (inner ++ [.leave])) = some scope := by
  obtain ⟨current, hAll⟩ := h.after? Scope.empty
  rw [after?_append, Option.bind_eq_some_iff] at hAll
  obtain ⟨scope, hScope, -⟩ := hAll
  have hReflects : scope.Reflects moves := .after hScope
  refine ⟨scope, hScope, fun name answer => ⟨?_, ?_⟩, hReflects.declares_iff, fun inner hInner => ?_⟩
  · rintro rfl
    exact hReflects.resolves name
  · exact (hReflects.resolves name).unique
  · obtain ⟨final, hFinal⟩ := hInner.after? scope.enter
    rw [after?_append, hScope]
    exact after?_frame hFinal

/-- A name declared twice in one frame and hidden in it, and a frame that was left. -/
theorem scopes_nest_shadowed :
    ∃ moves : List Move,
      moves = [.declare "x" 0, .enter, .declare "x" 1, .declare "x" 2, .enter, .declare "y" 3, .leave,
        .enter] ∧
      Balanced (moves ++ [.leave, .leave]) ∧ Resolves moves "x" (some 2) ∧ Resolves moves "y" none ∧
      (∀ i id, ¬ Declared moves 0 i "x" id) ∧
      Scope.empty.after? (moves ++ [.enter, .declare "x" 4, .leave]) = Scope.empty.after? moves := by
  have hInner := Balanced.frame (.declare "y" 3 .nil) (.frame .nil .nil)
  have hBalanced := Balanced.declare "x" 0 (.frame (.declare "x" 1 (.declare "x" 2 hInner)) .nil)
  refine ⟨_, rfl, hBalanced, ?_⟩
  obtain ⟨scope, hScope, hLookup, hDeclares, hLeave⟩ := @scopes_nest
    [.declare "x" 0, .enter, .declare "x" 1, .declare "x" 2, .enter, .declare "y" 3, .leave, .enter]
    [.leave, .leave] hBalanced
  have hAgain := hLeave [.declare "x" 4] (.declare "x" 4 .nil)
  refine ⟨(hLookup "x" _).mp ?_, (hLookup "y" _).mp ?_, ?_, hAgain.trans hScope.symm⟩
  · cases hScope
    decide
  · cases hScope
    decide
  · intro i id hDeclared
    have hFalse := (hDeclares "x").mpr ⟨i, id, hDeclared⟩
    cases hScope
    revert hFalse
    decide

end Progression
