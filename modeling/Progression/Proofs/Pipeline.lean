import Progression.Session

/-! How the stages of a program fit together. A session checks and runs statement by statement, which
comes to the same as checking the whole program first and then running what passed. -/

namespace Progression

variable {σ τ α β γ δ : Type}

/-- Two machines that write the same and stay related on every item do so on the whole list. -/
theorem transduce_simulates {step : σ → α → List β × σ} {other : τ → α → List β × τ}
    {related : σ → τ → Prop} (items : List α)
    (hStep : ∀ item ∈ items, ∀ s t, related s t →
      (step s item).1 = (other t item).1 ∧ related (step s item).2 (other t item).2)
    {s : σ} {t : τ} (h : related s t) :
    (transduce step s items).1 = (transduce other t items).1 ∧
      related (transduce step s items).2 (transduce other t items).2 := by
  induction items generalizing s t with
  | nil => exact ⟨rfl, h⟩
  | cons item items ih =>
      obtain ⟨hWritten, hNext⟩ := hStep item (by simp) s t h
      obtain ⟨hMore, hFinal⟩ := ih (fun item hItem => hStep item (by simp [hItem])) hNext
      rw [transduce_cons, transduce_cons]
      exact ⟨by rw [hWritten, hMore], hFinal⟩

/-- Two machines of which one reads and writes the images of what the other reads and writes, and
which stay related, do so on the whole list. -/
theorem transduce_map {step : σ → α → List β × σ} {other : τ → γ → List δ × τ} {f : α → γ}
    {g : β → δ} {related : σ → τ → Prop}
    (hStep : ∀ item s t, related s t →
      (other t (f item)).1 = (step s item).1.map g ∧ related (step s item).2 (other t (f item)).2)
    (items : List α) {s : σ} {t : τ} (h : related s t) :
    (transduce other t (items.map f)).1 = (transduce step s items).1.map g ∧
      related (transduce step s items).2 (transduce other t (items.map f)).2 := by
  induction items generalizing s t with
  | nil => exact ⟨rfl, h⟩
  | cons item items ih =>
      obtain ⟨hWritten, hNext⟩ := hStep item s t h
      obtain ⟨hMore, hFinal⟩ := ih hNext
      rw [List.map_cons, transduce_cons, transduce_cons]
      exact ⟨by rw [hWritten, hMore, List.map_append], hFinal⟩

/-- What holds of everything that an item makes a machine write holds of its whole writing. -/
theorem transduce_forall {step : σ → α → List β × σ} (property : β → Prop) (items : List α)
    (hStep : ∀ item ∈ items, ∀ s, ∀ x ∈ (step s item).1, property x) (s : σ) :
    ∀ x ∈ (transduce step s items).1, property x := by
  induction items generalizing s with
  | nil => simp
  | cons item items ih =>
      rw [transduce_cons]
      exact List.forall_mem_append.mpr ⟨hStep item (by simp) s,
        ih (fun other hOther => hStep other (by simp [hOther])) _⟩

/-- What is picked out of the writing of a machine, if this depends on the items alone. -/
theorem transduce_pick {step : σ → α → List β × σ} (pick : List β → List γ) {part : α → List γ}
    (hNil : pick [] = [])
    (hAppend : ∀ first second, pick (first ++ second) = pick first ++ pick second)
    (items : List α) (hStep : ∀ item ∈ items, ∀ s, pick (step s item).1 = part item) (s : σ) :
    pick (transduce step s items).1 = items.flatMap part := by
  induction items generalizing s with
  | nil => exact hNil
  | cons item items ih =>
      have hRest := ih (fun other hOther => hStep other (by simp [hOther])) (step s item).2
      rw [transduce_cons, hAppend, hStep item (by simp), hRest, List.flatMap_cons]

/-- What holds of all that was read and written so far and the state, and is kept by every item,
holds at the end. -/
theorem transduce_reads {step : σ → α → List β × σ} (property : List α → List β → σ → Prop)
    (hStep : ∀ read written s item, property read written s →
      property (read ++ [item]) (written ++ (step s item).1) (step s item).2)
    (items read : List α) {written : List β} {s : σ} (h : property read written s) :
    property (read ++ items) (written ++ (transduce step s items).1)
      (transduce step s items).2 := by
  induction items generalizing read written s with
  | nil => simpa using h
  | cons item items ih =>
      have hRest := ih _ (hStep read written s item h)
      rwa [List.append_assoc, List.append_assoc] at hRest

/-- What holds of all that was written so far and the state, and is kept by every item, holds at the
end. -/
theorem transduce_history {step : σ → α → List β × σ} (property : List β → σ → Prop)
    (hStep : ∀ history s item, property history s →
      property (history ++ (step s item).1) (step s item).2)
    (items : List α) {history : List β} {s : σ} (h : property history s) :
    property (history ++ (transduce step s items).1) (transduce step s items).2 :=
  transduce_reads (fun _ => property) (fun _ => hStep) items [] h

/-- If at most one thing is written at a time, each was written when a first part of the items had
been read, and what was written before it is what that part gave. -/
theorem transduce_split {step : σ → α → List β × σ} (hStep : ∀ s item, (step s item).1.length ≤ 1)
    {items : List α} {s : σ} {before after : List β} {x : β}
    (h : (transduce step s items).1 = before ++ x :: after) :
    ∃ first item, (transduce step s first).1 = before ∧
      (step (transduce step s first).2 item).1 = [x] := by
  induction items generalizing s before with
  | nil => simp at h
  | cons item items ih =>
      rw [transduce_cons] at h
      have hOne := hStep s item
      match hWritten : (step s item).1 with
      | [] =>
          rw [hWritten, List.nil_append] at h
          obtain ⟨first, last, hBefore, hLast⟩ := ih h
          refine ⟨item :: first, last, ?_, hLast⟩
          rw [transduce_cons, hWritten, List.nil_append, hBefore]
      | [y] =>
          rw [hWritten, List.singleton_append] at h
          cases before with
          | nil =>
              obtain ⟨rfl, -⟩ := List.cons.inj h
              exact ⟨[], item, rfl, hWritten⟩
          | cons z before =>
              obtain ⟨rfl, hRest⟩ := List.cons.inj h
              obtain ⟨first, last, hBefore, hLast⟩ := ih hRest
              refine ⟨item :: first, last, ?_, hLast⟩
              rw [transduce_cons, hWritten, List.singleton_append, hBefore]
      | _ :: _ :: _ =>
          rw [hWritten] at hOne
          simp at hOne

namespace Session

/-- Checking and running by turns is checking all events and then running what passed. -/
theorem transduce_step (config : Config) (session : Session) (events : List Event) :
    transduce (step config) session events =
      ((session.machine.run config (session.checker.run events).1).1,
        ⟨(session.checker.run events).2,
          (session.machine.run config (session.checker.run events).1).2⟩) := by
  induction events generalizing session with
  | nil => rfl
  | cons event events ih =>
      rw [transduce_cons, ih]
      simp only [Checker.run, Machine.run, transduce_cons, transduce_append, step]

end Session

/-- A program is run on the events that its checker hands on. -/
theorem evaluate_eq (config : Config) (source : String) :
    evaluate config source =
      ⟨(Machine.first.run config (typeCheck source).1).2.output,
        (Machine.first.run config (typeCheck source).1).1⟩ := by
  simp only [evaluate, Session.feed, Session.transduce_step, typeCheck, Session.first]

end Progression
