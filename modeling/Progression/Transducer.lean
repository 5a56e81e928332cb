/-! Machines that read a list item by item and write a list as they go. The whole output is the
outputs of the single steps in order, so reading a joined list is reading its first part and then
its second part from the state reached in between. -/

namespace Progression

variable {σ α β : Type}

/-- What is written while `items` are read from `state`, and the state reached. One step gives what
one item makes the machine write, and the next state. -/
def transduce (step : σ → α → List β × σ) (state : σ) : List α → List β × σ
  | [] => ([], state)
  | item :: items =>
      let (written, next) := step state item
      let (more, final) := transduce step next items
      (written ++ more, final)

@[simp] theorem transduce_nil (step : σ → α → List β × σ) (state : σ) :
    transduce step state [] = ([], state) := rfl

theorem transduce_cons (step : σ → α → List β × σ) (state : σ) (item : α) (items : List α) :
    transduce step state (item :: items) =
      ((step state item).1 ++ (transduce step (step state item).2 items).1,
        (transduce step (step state item).2 items).2) := rfl

theorem transduce_append (step : σ → α → List β × σ) (state : σ) (first second : List α) :
    transduce step state (first ++ second) =
      ((transduce step state first).1 ++
          (transduce step (transduce step state first).2 second).1,
        (transduce step (transduce step state first).2 second).2) := by
  induction first generalizing state with
  | nil => simp
  | cons item items ih =>
      rw [List.cons_append, transduce_cons, transduce_cons, ih]
      simp

end Progression
