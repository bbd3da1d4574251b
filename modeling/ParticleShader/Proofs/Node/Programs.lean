import ParticleShader.Node.UvCode
import ParticleShader.Proofs.Compilation.Temporaries
import ParticleShader.Proofs.Instruction.Accesses

/-!
# Programs of the behaviors

Every program that a behavior emits may run where the shared registers are written and
its own parameters may be read: it reads a scratch register only after it has written
it. A program is read from the front, and what its instructions have written so far is
all that is carried along.
-/

namespace ParticleShader

open Statement

/-! ### Operands -/

namespace Register

attribute [simp] x y z w xy xyz

variable {i j : Nat} {k : Component} {selection : List Component}

@[simp] theorem index_temporary : (temporary i).index = i := rfl

@[simp] theorem operand_only (r : Register) : (r.only k).operand = r.select [k] := rfl

@[simp] theorem operand_temporary : (temporary i).operand = (temporary i).select [] := rfl

@[simp] theorem components_select (r : Register) :
    (r.select selection).components = if selection.isEmpty then [.x, .y, .z, .w] else selection :=
  rfl

@[simp] theorem sets_temporary : ((temporary i).select selection).Sets j k ↔
    i = j ∧ k ∈ ((temporary i).select selection).components :=
  ⟨fun h => ⟨h.index, h.component⟩, fun h => ⟨rfl, h.1, h.2⟩⟩

theorem sets_operand {r : Register} (hkind : r.kind = .vertexTemporary) (hk : k ∈ r.component) :
    r.operand.Sets r.index k := by
  refine ⟨hkind, rfl, ?_⟩
  have hselection : r.operand.selection = [k] := by rw [operand, hk]; rfl
  rw [Operand.components, hselection]
  exact List.mem_singleton_self k

end Register

/-! ### Instructions -/

namespace Rights

attribute [simp] Runs
attribute [simp] Statement.mov Statement.add Statement.sub Statement.mul Statement.div
  Statement.frc Statement.sge Statement.slt Statement.sin Statement.cos Statement.nrm
  Statement.crs Statement.dp3

variable {R : Rights} {W : Written} {t a b : Operand} {p : Program} {operation : Operation}

/-- A register that may be read from the start on, a constant or an attribute. -/
def Given (R : Rights) (r : Register) : Prop :=
  ∀ (W : Written) (selection : List Register.Component), R.Reads W (r.select selection)

/-- Three consecutive registers that may be read from the start on. -/
structure GivenMatrix (R : Rights) (r : Register) : Prop where
  /-- The first row. -/
  first : R.Given r
  /-- The second row. -/
  second : R.Given { r with index := r.index + 1 }
  /-- The third row. -/
  third : R.Given { r with index := r.index + 2 }

/-- A vertex temporary that may be written. -/
def Temporary (R : Rights) (i : Nat) : Prop :=
  ∀ selection : List Register.Component, R.writable ((Register.temporary i).select selection)

theorem Given.operand {r : Register} (h : R.Given r) : R.Reads W r.operand :=
  h W r.component.toList

@[simp] theorem reads_temporary {i : Nat} {selection : List Register.Component} :
    R.Reads W ((Register.temporary i).select selection) ↔
      ∀ k ∈ ((Register.temporary i).select selection).components, W i k :=
  Iff.of_eq (if_pos rfl)

@[simp] theorem runs_unary : R.Runs W (unary operation t a :: p) ↔
    R.Reads W a ∧ R.writable t ∧ R.Runs (W.after t) p := by
  have hreads : (⟨operation, t, [a]⟩ : Instruction).reads = [a] := by
    cases operation <;> rfl
  simp [unary, hreads]

@[simp] theorem runs_binary (hoperation : operation ≠ .m33) :
    R.Runs W (binary operation t a b :: p) ↔
      R.Reads W a ∧ R.Reads W b ∧ R.writable t ∧ R.Runs (W.after t) p := by
  have hreads : (⟨operation, t, [a, b]⟩ : Instruction).reads = [a, b] := by
    cases operation <;> first | rfl | exact absurd rfl hoperation
  simp [binary, hreads, and_assoc]

@[simp] theorem runs_m33 {matrix : Register} (hmatrix : R.GivenMatrix matrix) :
    R.Runs W (m33 t a matrix.operand :: p) ↔
      R.Reads W a ∧ R.writable t ∧ R.Runs (W.after t) p := by
  show (∀ o ∈ [a, matrix.operand, Register.operand { matrix with index := matrix.index + 1 },
    Register.operand { matrix with index := matrix.index + 2 }], R.Reads W o) ∧ _ ↔ _
  simp [hmatrix.first.operand, hmatrix.second.operand, hmatrix.third.operand]

end Rights

/-! ### Shared registers -/

namespace SharedRegisters

variable {R : Rights} {W W' : Written} {shared : SharedRegisters}

/-- The shared registers lie in temporaries that may be written, and the constants
among them may be read. -/
structure Placed (R : Rights) (shared : SharedRegisters) : Prop where
  /-- The vertex and the directions. -/
  oriented : ∀ r ∈ shared.oriented, ∃ i, r = .temporary i ∧ R.Temporary i
  /-- The displacement. -/
  displacement : ∃ i, shared.displacement = .temporary i ∧ R.Temporary i
  /-- The velocity. -/
  velocity : ∀ r ∈ shared.velocity, ∃ i, r = .temporary i ∧ R.Temporary i
  /-- Time, one component. -/
  time : ∃ i k, shared.time = (Register.temporary i).only k ∧ R.Temporary i
  /-- The life, one component. -/
  life : ∃ i k, shared.life = (Register.temporary i).only k ∧ R.Temporary i
  /-- Zero. -/
  zero : R.Given shared.zero
  /-- One. -/
  one : R.Given shared.one
  /-- Two. -/
  two : R.Given shared.two

/-- The vertex, the directions and the accumulators are written. -/
structure Started (W : Written) (shared : SharedRegisters) : Prop where
  /-- All of the vertex and of the directions. -/
  oriented : ∀ r ∈ shared.oriented, ∀ k, W r.index k
  /-- The displacement, a vector. -/
  displacement : ∀ k ≠ .w, W shared.displacement.index k
  /-- The velocity, a vector. -/
  velocity : ∀ r ∈ shared.velocity, ∀ k ≠ .w, W r.index k

/-- Time and life are written. -/
structure Timed (W : Written) (shared : SharedRegisters) : Prop where
  /-- Time. -/
  time : ∀ k ∈ shared.time.component, W shared.time.index k
  /-- The life. -/
  life : ∀ k ∈ shared.life.component, W shared.life.index k

theorem Started.mono (h : shared.Started W) (hW : W.Le W') : shared.Started W' :=
  ⟨fun r hr k => hW _ _ (h.oriented r hr k), fun k hk => hW _ _ (h.displacement k hk),
    fun r hr k hk => hW _ _ (h.velocity r hr k hk)⟩

theorem Timed.mono (h : shared.Timed W) (hW : W.Le W') : shared.Timed W' :=
  ⟨fun k hk => hW _ _ (h.time k hk), fun k hk => hW _ _ (h.life k hk)⟩

/-- A register that is oriented can be read and written as a whole. -/
theorem Placed.exists_oriented (h : shared.Placed R) (hstarted : shared.Started W) {r : Register}
    (hr : r ∈ shared.oriented) : ∃ i, r = .temporary i ∧ R.Temporary i ∧ ∀ k, W i k := by
  obtain ⟨i, rfl, hi⟩ := h.oriented r hr
  exact ⟨i, rfl, hi, hstarted.oriented _ hr⟩

theorem Placed.exists_vertex (h : shared.Placed R) (hstarted : shared.Started W) :
    ∃ i, shared.vertex = .temporary i ∧ R.Temporary i ∧ ∀ k, W i k :=
  h.exists_oriented hstarted List.mem_cons_self

theorem Placed.exists_displacement (h : shared.Placed R) (hstarted : shared.Started W) :
    ∃ i, shared.displacement = .temporary i ∧ R.Temporary i ∧ ∀ k ≠ .w, W i k := by
  obtain ⟨i, hdisplacement, hi⟩ := h.displacement
  have hwritten := hstarted.displacement
  rw [hdisplacement] at hwritten
  exact ⟨i, hdisplacement, hi, hwritten⟩

theorem Placed.exists_velocity (h : shared.Placed R) (hstarted : shared.Started W) {r : Register}
    (hr : shared.velocity = some r) : ∃ i, r = .temporary i ∧ R.Temporary i ∧ ∀ k ≠ .w, W i k := by
  obtain ⟨i, rfl, hi⟩ := h.velocity r hr
  exact ⟨i, rfl, hi, hstarted.velocity _ hr⟩

theorem Placed.exists_time (h : shared.Placed R)
    (htime : ∀ k ∈ shared.time.component, W shared.time.index k) :
    ∃ i k, shared.time = (Register.temporary i).only k ∧ R.Temporary i ∧ W i k := by
  obtain ⟨i, k, hregister, hi⟩ := h.time
  rw [hregister] at htime
  exact ⟨i, k, hregister, hi, htime k rfl⟩

theorem Placed.exists_life (h : shared.Placed R)
    (hlife : ∀ k ∈ shared.life.component, W shared.life.index k) :
    ∃ i k, shared.life = (Register.temporary i).only k ∧ R.Temporary i ∧ W i k := by
  obtain ⟨i, k, hregister, hi⟩ := h.life
  rw [hregister] at hlife
  exact ⟨i, k, hregister, hi, hlife k rfl⟩

end SharedRegisters

namespace Behavior

variable {R : Rights} {W : Written} {shared : SharedRegisters}
  {value stream now matrix total : Register}
  {way doubled factor angle cross parallel heading side up sum temp target : Nat}

/-! ### Time -/

theorem runs_startProgram (hplaced : shared.Placed R) (hstarted : shared.Started W)
    (hstream : R.Given stream) (hnow : R.Given now) (hfactor : R.Temporary factor) :
    R.Runs W (startProgram shared stream now (Register.temporary factor).x) := by
  obtain ⟨vertex, hvertex, hv, hwritten⟩ := hplaced.exists_vertex hstarted
  obtain ⟨time, k, htime, ht⟩ := hplaced.time
  simp [startProgram, Written.after, hvertex, hv _, hwritten, htime, ht _, hstream _ _,
    hnow.operand, hfactor _, hplaced.zero.operand]

theorem time_startProgram (hplaced : shared.Placed R) {started : Register} :
    ∀ k ∈ shared.time.component,
      W.run (startProgram shared stream now started) shared.time.index k := by
  obtain ⟨i, k, htime, -⟩ := hplaced.time
  have hkind : shared.time.kind = .vertexTemporary := by rw [htime]; rfl
  exact fun k hk => Written.run_of_mem List.mem_cons_self (Register.sets_operand hkind hk)

theorem runs_endingProgram (lifecycle : Lifecycle) (hplaced : shared.Placed R)
    (hstarted : shared.Started W) (htimed : ∀ k ∈ shared.time.component, W shared.time.index k)
    (hstream : R.Given stream) (hfactor : R.Temporary factor) :
    R.Runs W (endingProgram lifecycle shared stream (Register.temporary factor).x) := by
  obtain ⟨vertex, hvertex, hv, hwritten⟩ := hplaced.exists_vertex hstarted
  obtain ⟨time, k, htime, ht, hclock⟩ := hplaced.exists_time htimed
  unfold endingProgram
  split
  · simp [Written.after, hvertex, hv _, hwritten, htime, hclock, hstream _ _, hfactor _]
  · split
    · simp [Written.after, hvertex, hv _, hwritten, htime, hclock, ht _, hstream _ _, hfactor _]
    · simp [Written.after, htime, hclock, ht _, hstream _ _, hfactor _]

theorem runs_lifeProgram (hplaced : shared.Placed R)
    (htimed : ∀ k ∈ shared.time.component, W shared.time.index k) (hstream : R.Given stream) :
    R.Runs W (lifeProgram shared stream) := by
  obtain ⟨time, k, htime, -, hclock⟩ := hplaced.exists_time htimed
  obtain ⟨life, l, hlife, hl⟩ := hplaced.life
  simp [lifeProgram, htime, hclock, hlife, hl _, hstream _ _]

theorem life_lifeProgram (hplaced : shared.Placed R) :
    ∀ k ∈ shared.life.component, W.run (lifeProgram shared stream) shared.life.index k := by
  obtain ⟨i, k, hlife, -⟩ := hplaced.life
  have hkind : shared.life.kind = .vertexTemporary := by rw [hlife]; rfl
  exact fun k hk => Written.run_of_mem List.mem_cons_self (Register.sets_operand hkind hk)

/-! ### The displacement -/

theorem runs_positionProgram (hplaced : shared.Placed R) (hstarted : shared.Started W)
    (hvalue : R.Given value) : R.Runs W (positionProgram shared value) := by
  obtain ⟨displacement, hdisplacement, hd, hwritten⟩ := hplaced.exists_displacement hstarted
  simp [positionProgram, hdisplacement, hd _, hwritten, hvalue _ _]

theorem runs_velocityProgram (hplaced : shared.Placed R) (hstarted : shared.Started W)
    (htimed : shared.Timed W) (hvalue : R.Given value) (hway : R.Temporary way) :
    R.Runs W (velocityProgram shared value (.temporary way)) := by
  obtain ⟨displacement, hdisplacement, hd, hwritten⟩ := hplaced.exists_displacement hstarted
  obtain ⟨time, k, htime, -, hclock⟩ := hplaced.exists_time htimed.time
  cases hvelocity : shared.velocity with
  | none =>
    simp [velocityProgram, Written.after, hvelocity, hdisplacement, hd _, hwritten, htime, hclock,
      hvalue _ _, hway _]
  | some total =>
    obtain ⟨total, rfl, htotal, hsum⟩ := hplaced.exists_velocity hstarted hvelocity
    simp [velocityProgram, Written.after, hvelocity, hdisplacement, hd _, hwritten, htime, hclock,
      htotal _, hsum, hvalue _ _, hway _]

theorem runs_speedProgram (hplaced : shared.Placed R) (hstarted : shared.Started W)
    (hvelocity : shared.velocity = some total) (hway : ∀ k ≠ .w, W way k)
    (hdoubled : R.Temporary doubled) :
    R.Runs W (speedProgram shared total (.temporary way) (.temporary doubled)) := by
  obtain ⟨total, rfl, htotal, hsum⟩ := hplaced.exists_velocity hstarted hvelocity
  simp [speedProgram, Written.after, htotal _, hsum, hway, hdoubled _, hplaced.two.operand]

/-- The code for the velocity may run once the way is written, and it stays so. -/
theorem runs_accelerationProgram {speed : Program} (hplaced : shared.Placed R)
    (hstarted : shared.Started W) (htimed : shared.Timed W) (hvalue : R.Given value)
    (hway : R.Temporary way)
    (hspeed : ∀ W', W.Le W' → (∀ k ≠ .w, W' way k) → R.Runs W' speed) :
    R.Runs W (accelerationProgram shared value (.temporary way) speed) := by
  have hproduct : ∀ p : Program, ∀ k ≠ .w,
      W.run (mul (Register.temporary way).xyz shared.time value.xyz :: p) way k := by
    refine fun p k hk => Written.run_of_mem List.mem_cons_self ?_
    cases k <;> simp_all
  rw [accelerationProgram, Rights.runs_append]
  constructor
  · obtain ⟨time, k, htime, -, hclock⟩ := hplaced.exists_time htimed.time
    refine (Rights.runs_binary Operation.noConfusion).mpr ⟨?_, hvalue _ _, hway _, ?_⟩
    · simp [htime, hclock]
    · exact hspeed _ (Written.le_after W _) (hproduct [])
  · have hrest := Written.le_run W (mul (Register.temporary way).xyz shared.time value.xyz :: speed)
    have hway' := hproduct speed
    generalize W.run _ = W' at hrest hway'
    obtain ⟨displacement, hdisplacement, hd, hwritten⟩ :=
      hplaced.exists_displacement (hstarted.mono hrest)
    obtain ⟨time, k, htime, -, hclock⟩ := hplaced.exists_time (htimed.mono hrest).time
    simp [Written.after, hdisplacement, hd _, hwritten, htime, hclock, hway _, hway']

/-! ### The vertex and the directions -/

theorem runs_scaleProgram (curve : ScaleCurve) (hplaced : shared.Placed R)
    (hstarted : shared.Started W) (htimed : shared.Timed W) (hvalue : R.Given value)
    (hfactor : R.Temporary factor) :
    R.Runs W (scaleProgram curve shared value (Register.temporary factor).x) := by
  obtain ⟨vertex, hvertex, hv, hwritten⟩ := hplaced.exists_vertex hstarted
  obtain ⟨time, k, htime, -, hclock⟩ := hplaced.exists_time htimed.time
  obtain ⟨life, l, hlife, -, hage⟩ := hplaced.exists_life htimed.life
  cases curve <;>
    simp [scaleProgram, Written.after, hvertex, hv _, hwritten, htime, hclock, hlife, hage,
      hvalue _ _, hfactor _]

theorem runs_spinProgram {one : Register} (hvalue : R.Given value) (hone : R.Given one)
    (hsin : W angle .y) (hcos : W angle .z) (htarget : R.Temporary target)
    (hwritten : ∀ k, W target k) (hcross : R.Temporary cross) (hparallel : R.Temporary parallel) :
    R.Runs W (spinProgram value (.temporary angle) one (.temporary cross) (.temporary parallel)
      (.temporary target)) := by
  simp [spinProgram, Written.after, hvalue _ _, hone.operand, hsin, hcos, htarget _, hwritten,
    hcross _, hparallel _]

theorem runs_rotationalVelocityProgram (hplaced : shared.Placed R) (hstarted : shared.Started W)
    (htimed : shared.Timed W) (hvalue : R.Given value) (hangle : R.Temporary angle)
    (hcross : R.Temporary cross) (hparallel : R.Temporary parallel) :
    R.Runs W (rotationalVelocityProgram shared value (.temporary angle) (.temporary cross)
      (.temporary parallel)) := by
  obtain ⟨time, k, htime, -, hclock⟩ := hplaced.exists_time htimed.time
  rw [rotationalVelocityProgram, Rights.runs_append]
  constructor
  · simp [Written.after, htime, hclock, hvalue _ _, hangle _]
  · refine Rights.runs_flatMap fun r hr W' hW' => ?_
    obtain ⟨target, rfl, htarget, hwritten⟩ := hplaced.exists_oriented
      (hstarted.mono ((Written.le_run W _).trans hW')) hr
    refine runs_spinProgram hvalue hplaced.one (hW' _ _ ?_) (hW' _ _ ?_) htarget hwritten hcross
      hparallel
    · simp [Written.run, Written.after, unary, binary]
    · simp [Written.run, Written.after, unary, binary]

theorem runs_planeTurnProgram (hx : W heading .x) (hy : W heading .y) (htemp : R.Temporary temp)
    (htarget : R.Temporary target) (hwritten : ∀ k, W target k) :
    R.Runs W (planeTurnProgram (.temporary heading) (.temporary temp) (.temporary target)) := by
  simp [planeTurnProgram, Written.after, hx, hy, htemp _, htarget _, hwritten]

theorem runs_screenHeadingProgram (hplaced : shared.Placed R) (hstarted : shared.Started W)
    (hvelocity : shared.velocity = some total) (hmatrix : R.GivenMatrix matrix)
    (hheading : R.Temporary heading) (htemp : R.Temporary temp) :
    R.Runs W (screenHeadingProgram shared total matrix (.temporary heading)
      (.temporary temp)) := by
  obtain ⟨total, rfl, -, hsum⟩ := hplaced.exists_velocity hstarted hvelocity
  rw [screenHeadingProgram, Rights.runs_append]
  constructor
  · simp [Written.after, hsum, hmatrix, hheading _, hplaced.zero.operand]
  · refine Rights.runs_flatMap fun r hr W' hW' => ?_
    obtain ⟨target, rfl, htarget, hwritten⟩ := hplaced.exists_oriented
      (hstarted.mono ((Written.le_run W _).trans hW')) hr
    refine runs_planeTurnProgram (hW' _ _ ?_) (hW' _ _ ?_) htemp htarget hwritten
    · simp [Written.run, Written.after, unary, m33, binary]
    · simp [Written.run, Written.after, unary, m33, binary]

theorem runs_basisProgram (hheading : ∀ k ≠ .w, W heading k) (hup : ∀ k ≠ .w, W up k)
    (hside : ∀ k ≠ .w, W side k) (hsum : R.Temporary sum) (htemp : R.Temporary temp)
    (htarget : R.Temporary target) (hwritten : ∀ k, W target k) :
    R.Runs W (basisProgram (.temporary heading) (.temporary up) (.temporary side) (.temporary sum)
      (.temporary temp) (.temporary target)) := by
  simp [basisProgram, Written.after, hheading, hup, hside, hsum _, htemp _, htarget _, hwritten]

theorem runs_spaceHeadingProgram (hplaced : shared.Placed R) (hstarted : shared.Started W)
    (hvelocity : shared.velocity = some total) (hheading : R.Temporary heading)
    (hside : R.Temporary side) (hup : R.Temporary up) (hsum : R.Temporary sum)
    (htemp : R.Temporary temp) :
    R.Runs W (spaceHeadingProgram shared total (.temporary heading) (.temporary side)
      (.temporary up) (.temporary sum) (.temporary temp)) := by
  obtain ⟨total, rfl, -, haccumulated⟩ := hplaced.exists_velocity hstarted hvelocity
  rw [spaceHeadingProgram, Rights.runs_append]
  constructor
  · simp [Written.after, haccumulated, hheading _, hside _, hup _, hplaced.zero _ _]
  · refine Rights.runs_flatMap fun r hr W' hW' => ?_
    obtain ⟨target, rfl, htarget, hwritten⟩ := hplaced.exists_oriented
      (hstarted.mono ((Written.le_run W _).trans hW')) hr
    refine runs_basisProgram (fun k hk => hW' _ _ ?_) (fun k hk => hW' _ _ ?_)
      (fun k hk => hW' _ _ ?_) hsum htemp htarget hwritten <;>
    cases k <;> simp_all [Written.run, Written.after, unary, binary]

theorem runs_billboardProgram (hplaced : shared.Placed R) (hstarted : shared.Started W)
    (hmatrix : R.GivenMatrix matrix) (htemp : R.Temporary temp) :
    R.Runs W (billboardProgram shared matrix (.temporary temp)) := by
  refine Rights.runs_flatMap fun r hr W' hW' => ?_
  obtain ⟨target, rfl, htarget, hwritten⟩ := hplaced.exists_oriented (hstarted.mono hW') hr
  simp [Written.after, hmatrix, htemp _, htarget _, hwritten]

theorem runs_followProgram (hplaced : shared.Placed R) (hstarted : shared.Started W)
    (hvalue : R.Given value) : R.Runs W (followProgram shared value) := by
  obtain ⟨vertex, hvertex, hv, hwritten⟩ := hplaced.exists_vertex hstarted
  simp [followProgram, hvertex, hv _, hwritten, hvalue _ _]

/-! ### Colors -/

variable {α : Type}

theorem runs_waveProgram (cycle : Cycle α) (hplaced : shared.Placed R) (htimed : shared.Timed W)
    (hstream : R.Given stream) (hfactor : R.Temporary factor) :
    R.Runs W (waveProgram cycle shared stream (Register.temporary factor).x) := by
  obtain ⟨time, k, htime, -, hclock⟩ := hplaced.exists_time htimed.time
  unfold waveProgram
  cases cycle.phase <;> simp [Written.after, htime, hclock, hstream _ _, hfactor _]

theorem runs_colorPartProgram {join : Operand → Operand → Operand → Statement}
    {first delta blend : Register} (hjoin : join = mul ∨ join = add) (hfirst : R.Given first)
    (hdelta : R.Given delta) (htemp : R.Temporary temp) (hblend : R.Reads W blend.operand)
    (htarget : R.Temporary target) (hwritten : ∀ k, W target k) :
    R.Runs W (colorPartProgram join (.temporary target) first delta (.temporary temp) blend) := by
  rcases hjoin with rfl | rfl <;>
    simp [colorPartProgram, Written.after, hfirst.operand, hdelta.operand, htemp _, hblend,
      htarget _, hwritten]

/-! ### Texture coordinates -/

variable [Scalar α]

theorem runs_uvScrollProgram (parameter : Parameter (Vec2 α)) {k : Register.Component}
    (hplaced : shared.Placed R) (htimed : shared.Timed W) (hvalue : R.Given value)
    (htarget : R.Temporary target) (hwritten : W target k) (hfactor : R.Temporary factor) :
    R.Runs W (uvScrollProgram parameter shared ((Register.temporary target).only k) value
      (Register.temporary factor).x) := by
  obtain ⟨time, l, htime, -, hclock⟩ := hplaced.exists_time htimed.time
  unfold uvScrollProgram
  split <;> simp [Written.after, htime, hclock, hvalue _ _, htarget _, hwritten, hfactor _]

omit [Scalar α] in
theorem runs_spriteSheetProgram (sheet : SpriteSheet α) {phase : Option Register}
    (hplaced : shared.Placed R) (htimed : shared.Timed W) (hvalue : R.Given value)
    (hphase : ∀ r ∈ phase, R.Given r) (htarget : R.Temporary target) (hx : W target .x)
    (hy : W target .y) (htemp : R.Temporary temp) :
    R.Runs W (spriteSheetProgram sheet shared (.temporary target) value phase
      (.temporary temp)) := by
  obtain ⟨time, k, htime, -, hclock⟩ := hplaced.exists_time htimed.time
  obtain ⟨life, l, hlife, -, hage⟩ := hplaced.exists_life htimed.life
  cases phase with
  | none =>
    by_cases hrows : 1 < sheet.rows <;> cases hcycle : sheet.cycle <;>
      simp [spriteSheetProgram, Written.after, hrows, hcycle, htime, hclock, hlife, hage,
        hvalue _ _, htarget _, hx, hy, htemp _]
  | some phase =>
    have hshift := hphase phase rfl
    by_cases hrows : 1 < sheet.rows <;> cases hcycle : sheet.cycle <;>
      simp [spriteSheetProgram, Written.after, hrows, hcycle, htime, hclock, hlife, hage,
        hvalue _ _, hshift _ _, htarget _, hx, hy, htemp _]

end Behavior

end ParticleShader
