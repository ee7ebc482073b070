import QuasiDefinite.Horizon.Sample
import QuasiDefinite.Proofs.Horizon.Encoding

namespace QuasiDefinite.Horizon

variable {horizon : Horizon} {rows cols : Nat}

/-- The table holds the matrix, row after row. -/
def StoresRows (table : Vector Float (rows * cols))
    (entry : Nat → Nat → Float) : Prop :=
  ∀ row < rows, ∀ col < cols, table[row * cols + col]? = some (entry row col)

theorem storesRows_getD (table : Vector Float (rows * cols)) :
    StoresRows table fun row col => table.getD (row * cols + col) 0 := by
  intro row row_lt col col_lt
  have inside := place_lt row_lt col_lt
  simp [Vector.getD, inside]

/-- The numbers that the problem asks the model for are those of the sample. -/
structure Sample.Supplies (sample : Sample horizon) (model : Model Float) :
    Prop where
  state : ∀ k < horizon.stages + 1, ∀ i < horizon.states,
    sample.states[k]?.bind (·[i]?) =
      some (model.stateCost k i, model.coupling k i)
  input : ∀ k < horizon.stages, ∀ i < horizon.inputs,
    sample.inputs[k]?.bind (·[i]?) = some (model.inputCost k i)
  drift : StoresRows sample.drift model.drift
  gain : StoresRows sample.gain model.gain

theorem Sample.supplies (sample : Sample horizon) :
    sample.Supplies sample.model where
  state k stage i inside := by
    simp [model, stage, inside]
  input k stage i inside := by
    simp [model, stage, inside]
  drift := storesRows_getD sample.drift
  gain := storesRows_getD sample.gain

/-- Whatever is drawn, the problem is built and means what it is meant to mean,
with the drawn numbers. -/
theorem drawModel_encodes (horizon : Horizon) (source : RandomSource) :
    let sample := (horizon.drawSample.run source).1
    let model := (horizon.drawModel.run source).1
    sample.Supplies model ∧
      ∃ cost equality inequality, horizon.blocks model =
          .ok ⟨some cost, some equality, some inequality⟩ ∧
        horizon.Encodes model (fun x => (Machine.value x : ℝ))
          cost equality inequality := by
  intro sample model
  obtain ⟨cost, equality, inequality, built, encodes, _⟩ :=
    blocks_encode_of_faithful Machine.faithful_value horizon model
  exact ⟨sample.supplies, cost, equality, inequality, built, encodes⟩

end QuasiDefinite.Horizon
