import ParticleShader.Compilation

/-!
# Staged constants

When all code is written the constants that the animation claimed are staged as
rows of four values, vertex constants and fragment constants apart. A row is
addressed by the index of its register.
-/

namespace ParticleShader.Compile

variable {α : Type}

/-- The row that stages the constant `index` when the first row stages the
constant `offset`. Its values are at `4 · row` and behind, which have to be
sizes. -/
def stagedRow (offset index : Nat) : Except Fault Nat := do
  if index < offset then throw (.constantOutOfRange index)
  let row := index - offset
  let start ← Size.mul row 4
  let _ ← Size.add start 4
  return row

/-- The rows with another value for the constant `index`. -/
def writeRow (offset index : Nat) (value : Vec4 α) (rows : List (Vec4 α)) :
    Except Fault (List (Vec4 α)) := do
  let row ← stagedRow offset index
  if row < rows.length then return rows.set row value
  else throw (.constantOutOfRange index)

/-- Stages the vertex constant `index`. -/
def setVertexConstant (index : Nat) (value : Vec4 α) : Compile α Unit := do
  let c ← get
  let rows ← ofOutcome (writeRow c.taken.vertexConstants index value c.vertexRows)
  modify fun c => { c with vertexRows := rows }

/-- Stages the fragment constant `index`. -/
def setFragmentConstant (index : Nat) (value : Vec4 α) : Compile α Unit := do
  let c ← get
  let rows ← ofOutcome (writeRow c.taken.fragmentConstants index value c.fragmentRows)
  modify fun c => { c with fragmentRows := rows }

variable [Scalar α]

/-- Stages a matrix as its rows in consecutive vertex constants, the first of
them `index`. -/
def setVertexMatrix (index : Nat) (m : Mat3 α) : Compile α Unit :=
  m.rows.zipIdx.forM fun (row, k) => do
    setVertexConstant (← ofOutcome (Size.add index k)) (row.extend Scalar.zero)

/-- Ends the writing of code: makes room for all constants that were claimed and
stages the row `{0, 1, 2, 0}`. -/
def finish : Compile α Unit := do
  enter .done
  modify fun c =>
    { c with
      vertexRows := List.replicate (c.used.vertexConstants - c.taken.vertexConstants) Vec4.zero
      fragmentRows :=
        List.replicate (c.used.fragmentConstants - c.taken.fragmentConstants) Vec4.zero }
  let shared ← shared
  setVertexConstant shared.zero.index ⟨Scalar.zero, Scalar.one, Scalar.two, Scalar.zero⟩

end ParticleShader.Compile
