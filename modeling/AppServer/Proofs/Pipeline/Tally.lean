import AppServer.Pipeline.Act

/-!
# Notes beside the state

To count what happens while something runs, the state of the application is put beside a list of
notes. A computation of the application runs beside the notes and leaves them as they are.
-/

namespace AppServer.Pipeline

variable {σ ι α : Type}

/-- A state beside the list of what was noted so far. -/
structure Tallied (σ ι : Type) where
  state : σ
  notes : List ι

/-- A world beside some notes. -/
def World.tally (w : World σ) (notes : List ι) : World (Tallied σ ι) :=
  ⟨⟨w.state, notes⟩, w.log⟩

namespace Act

/-- Adds a note. -/
def note (x : ι) : Act (Tallied σ ι) Unit :=
  modifyState fun s => { s with notes := s.notes ++ [x] }

/-- A computation run beside notes that it does not see. -/
def beside (x : Act σ α) : Act (Tallied σ ι) α :=
  ExceptT.mk fun w =>
    let (r, w') := x.runIn ⟨w.state.state, w.log⟩
    (r, w'.tally w.state.notes)

/-- A note goes behind the others, and nothing else changes. -/
theorem runIn_note_bind {β : Type} (x : ι) (y : Act (Tallied σ ι) β) (w : World (Tallied σ ι)) :
    (note x >>= fun _ => y).runIn w =
      y.runIn { w with state := { w.state with notes := w.state.notes ++ [x] } } := rfl

theorem runIn_beside (x : Act σ α) (w : World σ) (notes : List ι) :
    (beside x).runIn (w.tally notes) = ((x.runIn w).1, (x.runIn w).2.tally notes) := rfl

end Act

end AppServer.Pipeline
