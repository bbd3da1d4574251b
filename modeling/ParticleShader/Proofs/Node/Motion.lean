import Mathlib
import ParticleShader.Proofs.Compilation.Fragments
import ParticleShader.Proofs.Instruction.Semantics
import ParticleShader.Proofs.Node.Programs

/-!
# What the programs of the behaviors compute

A vertex in motion is where it is, how far its particle has come and how fast it is, and
the time and the life of the particle. `Behavior.move` says what a behavior makes of a
motion, from what the registers of its parameters hold. `Layout.motion` reads the motion
off the registers that all nodes share, and every program of a behavior does to the
registers what the behavior does to the motion: there is one lemma for each. They ask for
scratch temporaries that are no shared ones, and for the constants `{0, 1, 2, 0}`.
-/

namespace ParticleShader

open Statement Matrix

variable {α K : Type}

/-! ### Motions -/

/-- A vertex in motion. -/
structure Motion (K : Type) where
  /-- Where it is. -/
  vertex : Fin 3 → K
  /-- The accumulated displacement of its particle. -/
  displacement : Fin 3 → K
  /-- The accumulated velocity. -/
  velocity : Fin 3 → K
  /-- The time since the particle started. -/
  time : K
  /-- The elapsed fraction of its life. -/
  life : K

/-- What the registers of the parameters of a node hold. -/
structure Inputs (K : Type) where
  /-- The time of the frame. -/
  now : Value K
  /-- The value of the node, and the registers behind it. -/
  rows : Nat → Value K

namespace Inputs

/-- The value as a vector. -/
def vector (i : Inputs K) : Fin 3 → K := (i.rows 0).xyz

/-- The value as the rows of a matrix. -/
def matrix (i : Inputs K) : Matrix (Fin 3) (Fin 3) K :=
  .of ![(i.rows 0).xyz, (i.rows 1).xyz, (i.rows 2).xyz]

end Inputs

section

variable [Field K]

/-- The scale of the moment. -/
def ScaleCurve.factor (F : Functions K) (value : Value K) (time life : K) : ScaleCurve → K
  | .linear => value .x + value .y * life
  | .cycle => value .x + value .y * F.sin (time * value .z)
  | .phasedCycle => value .x + value .y * F.sin (time * value .z + value .w)

/-- The time since the start. The frame time is read in the lane in which time is kept. -/
def Inputs.since (i : Inputs K) (velocity : Bool) : K :=
  i.now (if velocity then .w else .x) - i.rows 0 .x

variable [LinearOrder K] [FloorRing K]

namespace Lifecycle

/-- The time in the current loop, if the particles have loops. -/
def clock (l : Lifecycle) (stream : Value K) (since : K) : K :=
  if !l.usesDuration || !l.usesLooping then since
  else if l.usesDelay then Int.fract (since / stream .z) * stream .z
  else Int.fract (since * stream .w) * stream .y

/-- Null after a single duration and in the pause of a loop. -/
def ending (l : Lifecycle) (stream : Value K) (since : K) : K :=
  if !l.usesDuration then 1
  else if !l.usesLooping then if since ≤ stream .y then 1 else 0
  else if l.usesDelay then if l.clock stream since < stream .y then 1 else 0
  else 1

/-- One while the particle lives and null before and afterwards. -/
def presence (l : Lifecycle) (stream : Value K) (since : K) : K :=
  (if 0 ≤ since then 1 else 0) * l.ending stream since

end Lifecycle

namespace Behavior

/-- What a behavior makes of the vertex. -/
def deform (F : Functions K) (on : Features) (i : Inputs K) (time life : K)
    (velocity v : Fin 3 → K) : Behavior α → Fin 3 → K
  | .time lifecycle => lifecycle.presence (i.rows 0) (i.since on.velocity) • v
  | .scale curve _ => curve.factor F (i.rows 0) time life • v
  | .rotationalVelocity _ =>
    let angle := time * i.rows 0 .w
    rotate i.vector (F.sin angle) (F.cos angle) v
  | .rotateToHeading =>
    if on.billboard then
      turn (F.unit (onScreen (i.matrix *ᵥ velocity))) v
    else
      let heading := F.unit velocity
      carry heading (F.up heading) (F.side heading) v
  | .billboard _ => i.matrix *ᵥ v
  | .follow => v + i.vector
  | _ => v

/-- What a behavior adds to the displacement. The value of an acceleration is one half. -/
def way (value : Fin 3 → K) (time : K) : Behavior α → Fin 3 → K
  | .position _ => value
  | .velocity _ => time • value
  | .acceleration _ => (time * time) • value
  | _ => 0

/-- What a behavior adds to the velocity. -/
def speed (value : Fin 3 → K) (time : K) : Behavior α → Fin 3 → K
  | .velocity _ => value
  | .acceleration _ => (2 * time) • value
  | _ => 0

/-- The time behind a behavior. -/
def clock (on : Features) (i : Inputs K) (time : K) : Behavior α → K
  | .time lifecycle => lifecycle.clock (i.rows 0) (i.since on.velocity)
  | _ => time

/-- The life behind a behavior. -/
def age (on : Features) (i : Inputs K) (life : K) : Behavior α → K
  | .time lifecycle => lifecycle.clock (i.rows 0) (i.since on.velocity) * i.rows 0 .w
  | _ => life

/-- What a behavior makes of a motion. -/
def move (F : Functions K) (on : Features) (i : Inputs K) (b : Behavior α) (a : Motion K) :
    Motion K where
  vertex := b.deform F on i a.time a.life a.velocity a.vertex
  displacement := a.displacement + b.way i.vector a.time
  velocity := if on.velocity then a.velocity + b.speed i.vector a.time else a.velocity
  time := b.clock on i a.time
  life := b.age on i a.life

section

variable {F : Functions K} {on : Features} {i : Inputs K} {a : Motion K}

/-- A position is added to the displacement. -/
theorem move_position (value : Parameter (Vec3 α)) :
    (position value).move F on i a = { a with displacement := a.displacement + i.vector } := by
  simp [move, deform, way, speed, clock, age]

/-- A velocity is added to the velocity, and moves on with the time. -/
theorem move_velocity (value : Parameter (Vec3 α)) :
    (velocity value).move F on i a =
      { a with
        displacement := a.displacement + a.time • i.vector
        velocity := if on.velocity then a.velocity + i.vector else a.velocity } := by
  simp [move, deform, way, speed, clock, age]

/-- The half of an acceleration changes the velocity twice over. -/
theorem move_acceleration (value : Parameter (Vec3 α)) :
    (acceleration value).move F on i a =
      { a with
        displacement := a.displacement + (a.time * a.time) • i.vector
        velocity :=
          if on.velocity then a.velocity + (2 * a.time) • i.vector else a.velocity } := by
  simp [move, deform, way, speed, clock, age]

/-- A color moves nothing. -/
theorem move_color (animation : ColorAnimation α) : (color animation).move F on i a = a := by
  simp [move, deform, way, speed, clock, age]

end

end Behavior

end

/-! ### The motion in the registers -/

/-- Where the registers that all nodes share lie. -/
structure Layout where
  /-- The register that the vertex comes from. -/
  source : Register
  /-- The temporary with the vertex. -/
  vertex : Nat
  /-- The directions that are rotated with it. -/
  directions : List Register
  /-- The constant with null, one and two. -/
  helper : Nat
  /-- The temporary with the displacement. -/
  displacement : Nat
  /-- The temporary with time. -/
  temporary : Nat
  /-- The velocity is accumulated. -/
  velocity : Bool

/-- What the constant that all nodes share holds. -/
def Value.helper [Field K] : Value K
  | .x => 0
  | .y => 1
  | .z => 2
  | .w => 0

/-- Temporaries that are all different. -/
def Distinct (indices : List Nat) : Prop := indices.Pairwise fun i j => i ≠ j ∧ j ≠ i

namespace Layout

/-- The registers that all nodes share. -/
def shared (P : Layout) : SharedRegisters :=
  .ofPlaces P.source (.temporary P.vertex) P.directions P.helper P.displacement P.temporary
    P.velocity

/-- The motion that the shared registers hold. -/
def motion [Zero K] (P : Layout) (m : Machine K) : Motion K where
  vertex := (m .vertexTemporary P.vertex).xyz
  displacement := (m .vertexTemporary P.displacement).xyz
  velocity := if P.velocity then (m .vertexTemporary P.temporary).xyz else 0
  time := m.read P.shared.time .x
  life := m.read P.shared.life .x

/-- The places and some scratch temporaries are different, and no direction is a place. -/
structure Apart (P : Layout) (scratch : List Nat) : Prop where
  /-- The places and the scratch temporaries. -/
  places : Distinct (P.vertex :: P.displacement :: P.temporary :: scratch)
  /-- The directions. -/
  directions : ∀ r ∈ P.directions, ∃ d, r = .temporary d ∧
    Distinct [P.vertex, P.displacement, P.temporary, d]

/-- A program leaves the places alone. -/
def Beside (P : Layout) (p : Program) : Prop :=
  ∀ i ∈ [P.vertex, P.displacement, P.temporary], p.Spares .vertexTemporary i

variable {P : Layout}

@[simp] theorem vertex_shared : P.shared.vertex = .temporary P.vertex := by
  unfold shared
  cases P.velocity <;> rfl

@[simp] theorem oriented_shared : P.shared.oriented = .temporary P.vertex :: P.directions := by
  unfold shared
  cases P.velocity <;> rfl

@[simp] theorem displacement_shared : P.shared.displacement = .temporary P.displacement := by
  unfold shared
  cases P.velocity <;> rfl

@[simp] theorem velocity_shared :
    P.shared.velocity = if P.velocity then some (.temporary P.temporary) else none := by
  unfold shared
  cases P.velocity <;> rfl

@[simp] theorem time_shared : P.shared.time =
    (Register.temporary P.temporary).only (if P.velocity then .w else .x) := by
  unfold shared
  cases P.velocity <;> rfl

@[simp] theorem life_shared : P.shared.life =
    if P.velocity then (Register.temporary P.displacement).only .w
    else (Register.temporary P.temporary).only .y := by
  unfold shared
  cases P.velocity <;> rfl

@[simp] theorem zero_shared :
    P.shared.zero = Register.only { kind := .vertexConstant, index := P.helper } .x := by
  unfold shared
  cases P.velocity <;> rfl

@[simp] theorem one_shared :
    P.shared.one = Register.only { kind := .vertexConstant, index := P.helper } .y := by
  unfold shared
  cases P.velocity <;> rfl

@[simp] theorem two_shared :
    P.shared.two = Register.only { kind := .vertexConstant, index := P.helper } .z := by
  unfold shared
  cases P.velocity <;> rfl

end Layout

namespace Register

variable {r : Register} {k : Component} {selection : List Component}

@[simp] theorem kind_temporary (i : Nat) : (temporary i).kind = .vertexTemporary := rfl

@[simp] theorem kind_only : (r.only k).kind = r.kind := rfl

@[simp] theorem index_only : (r.only k).index = r.index := rfl

@[simp] theorem kind_select : (r.select selection).kind = r.kind := rfl

@[simp] theorem index_select : (r.select selection).index = r.index := rfl

@[simp] theorem selection_select : (r.select selection).selection = selection := rfl

theorem operand_of_whole (h : r.component = none) : r.operand = r.select [] := by
  unfold operand select
  rw [h]
  rfl

end Register

attribute [simp] Operation.apply Operand.lane

variable [Field K] [LinearOrder K] [FloorRing K] {F : Functions K} {m : Machine K} {P : Layout}

theorem Layout.motion_of_beside {p : Program} (h : P.Beside p) :
    P.motion (Program.run F p m) = P.motion m := by
  simp only [Beside, List.forall_mem_cons] at h
  obtain ⟨hvertex, hdisplacement, htemporary, -⟩ := h
  have hsame : ∀ {i}, p.Spares .vertexTemporary i →
      Program.run F p m .vertexTemporary i = m .vertexTemporary i := Program.run_of_spares
  cases hvelocity : P.velocity <;>
    simp [motion, hvelocity, hsame hvertex, hsame hdisplacement, hsame htemporary]

theorem Layout.beside_nil : P.Beside [] := fun _ _ => Program.spares_nil

theorem Layout.beside_append {p q : Program} (hp : P.Beside p) (hq : P.Beside q) :
    P.Beside (p ++ q) :=
  fun i hi => Program.spares_append.mpr ⟨hp i hi, hq i hi⟩

namespace Behavior

variable {value stream now matrix : Register}
  {started factor way doubled angle cross parallel heading side up sum temp : Nat}

/-! ### Time -/

theorem motion_startProgram (hapart : P.Apart [started]) (hnow : now.component = none)
    (hhelper : m .vertexConstant P.helper = .helper) :
    let since := m now.kind now.index (if P.velocity then .w else .x) -
      m stream.kind stream.index .x
    P.motion (Program.run F
      (startProgram P.shared stream now (Register.temporary started).x) m) =
      { P.motion m with
        time := since
        vertex := (if 0 ≤ since then (1 : K) else 0) • (P.motion m).vertex } := by
  have hdistinct := hapart.places
  simp only [Distinct, List.pairwise_cons, List.forall_mem_cons] at hdistinct
  cases hvelocity : P.velocity
  · by_cases hstarted : 0 ≤ m now.kind now.index .x - m stream.kind stream.index .x <;>
      simp [startProgram, Layout.motion, Value.xyz, Register.operand_of_whole hnow, hhelper,
        Value.helper, hvelocity, hdistinct, hstarted]
  · by_cases hstarted : 0 ≤ m now.kind now.index .w - m stream.kind stream.index .x <;>
      simp [startProgram, Layout.motion, Value.xyz, Register.operand_of_whole hnow, hhelper,
        Value.helper, hvelocity, hdistinct, hstarted]

theorem motion_endingProgram {lifecycle : Lifecycle} (hduration : lifecycle.usesDuration = true)
    (hapart : P.Apart [factor]) (hstream : stream.kind ≠ .vertexTemporary) :
    let time := lifecycle.clock (m stream.kind stream.index) (P.motion m).time
    P.motion (Program.run F
      (endingProgram lifecycle P.shared stream (Register.temporary factor).x) m) =
      { P.motion m with
        time
        vertex := lifecycle.ending (m stream.kind stream.index) (P.motion m).time •
          (P.motion m).vertex } := by
  have hdistinct := hapart.places
  simp only [Distinct, List.pairwise_cons, List.forall_mem_cons] at hdistinct
  intro time
  obtain ⟨since, hsince⟩ : ∃ since, since = (P.motion m).time := ⟨_, rfl⟩
  cases hlooping : lifecycle.usesLooping with
  | false =>
    by_cases hlives : since ≤ m stream.kind stream.index .y <;> cases hvelocity : P.velocity <;>
      simp [Layout.motion, hvelocity] at hsince <;> subst hsince <;>
      simp [time, endingProgram, Lifecycle.clock, Lifecycle.ending, Layout.motion, Value.xyz,
        hduration, hlooping, hvelocity, hdistinct, hlives]
  | true =>
    cases hdelay : lifecycle.usesDelay with
    | false =>
      cases hvelocity : P.velocity <;>
        simp [time, endingProgram, Lifecycle.clock, Lifecycle.ending, Layout.motion, Value.xyz,
          hduration, hlooping, hdelay, hvelocity, hdistinct, hstream]
    | true =>
      by_cases hlives : Int.fract (since / m stream.kind stream.index .z) *
          m stream.kind stream.index .z < m stream.kind stream.index .y <;>
        cases hvelocity : P.velocity <;>
        simp [Layout.motion, hvelocity] at hsince <;> subst hsince <;>
        simp [time, endingProgram, Lifecycle.clock, Lifecycle.ending, Layout.motion, Value.xyz,
          hduration, hlooping, hdelay, hvelocity, hdistinct, hstream, hlives]

theorem motion_lifeProgram (hapart : P.Apart []) :
    P.motion (Program.run F (lifeProgram P.shared stream) m) =
      { P.motion m with life := (P.motion m).time * m stream.kind stream.index .w } := by
  have hdistinct := hapart.places
  simp only [Distinct, List.pairwise_cons, List.forall_mem_cons] at hdistinct
  cases hvelocity : P.velocity <;>
    simp [lifeProgram, Layout.motion, Value.xyz, hvelocity, hdistinct]

/-! ### The displacement and the velocity -/

theorem motion_positionProgram (hapart : P.Apart []) :
    P.motion (Program.run F (positionProgram P.shared value) m) =
      { P.motion m with
        displacement := (P.motion m).displacement + (m value.kind value.index).xyz } := by
  have hdistinct := hapart.places
  simp only [Distinct, List.pairwise_cons, List.forall_mem_cons] at hdistinct
  cases hvelocity : P.velocity <;>
    simp [positionProgram, Layout.motion, Value.xyz, hvelocity, hdistinct, add_comm]

theorem motion_velocityProgram (hapart : P.Apart [way]) (hvalue : value.kind ≠ .vertexTemporary) :
    P.motion (Program.run F (velocityProgram P.shared value (.temporary way)) m) =
      { P.motion m with
        displacement := (P.motion m).displacement +
          (P.motion m).time • (m value.kind value.index).xyz
        velocity := if P.velocity then (P.motion m).velocity + (m value.kind value.index).xyz
          else (P.motion m).velocity } := by
  have hdistinct := hapart.places
  simp only [Distinct, List.pairwise_cons, List.forall_mem_cons] at hdistinct
  cases hvelocity : P.velocity <;>
    simp [velocityProgram, Layout.motion, Value.xyz, hvelocity, hdistinct, hvalue, add_comm]

/-- The code for the velocity finds the product with time, and leaves it to the displacement. -/
theorem motion_accelerationProgram {speed : Program} (hapart : P.Apart [way])
    (hspeed : if P.velocity then
        ∃ doubled, P.Apart [way, doubled] ∧ speed =
          speedProgram P.shared (.temporary P.temporary) (.temporary way) (.temporary doubled)
      else speed = [])
    (hhelper : m .vertexConstant P.helper = .helper) :
    P.motion (Program.run F (accelerationProgram P.shared value (.temporary way) speed) m) =
      { P.motion m with
        displacement := (P.motion m).displacement +
          ((P.motion m).time * (P.motion m).time) • (m value.kind value.index).xyz
        velocity :=
          if P.velocity then
            (P.motion m).velocity + (2 * (P.motion m).time) • (m value.kind value.index).xyz
          else (P.motion m).velocity } := by
  cases hvelocity : P.velocity with
  | false =>
    rw [hvelocity, if_neg Bool.false_ne_true] at hspeed
    subst hspeed
    have hdistinct := hapart.places
    simp only [Distinct, List.pairwise_cons, List.forall_mem_cons] at hdistinct
    simp [accelerationProgram, Layout.motion, Value.xyz, hvelocity, hdistinct]
    and_intros <;> ring
  | true =>
    rw [hvelocity, if_pos rfl] at hspeed
    obtain ⟨doubled, hapart, rfl⟩ := hspeed
    have hdistinct := hapart.places
    simp only [Distinct, List.pairwise_cons, List.forall_mem_cons] at hdistinct
    simp [accelerationProgram, speedProgram, Layout.motion, Value.xyz, hhelper, Value.helper,
      hvelocity, hdistinct]
    and_intros <;> ring

/-! ### The vertex -/

theorem motion_scaleProgram (curve : ScaleCurve) (hapart : P.Apart [factor])
    (hvalue : value.kind ≠ .vertexTemporary) :
    P.motion (Program.run F
      (scaleProgram curve P.shared value (Register.temporary factor).x) m) =
      { P.motion m with
        vertex := curve.factor F (m value.kind value.index) (P.motion m).time (P.motion m).life •
          (P.motion m).vertex } := by
  have hdistinct := hapart.places
  simp only [Distinct, List.pairwise_cons, List.forall_mem_cons] at hdistinct
  cases curve <;> cases hvelocity : P.velocity <;>
    simp [scaleProgram, ScaleCurve.factor, Layout.motion, Value.xyz, hvelocity, hdistinct, hvalue,
      mul_comm]

/-- A program for the vertex and the directions works on the vertex alone, as the motion
sees it. -/
theorem motion_oriented {header : Program} {f : Register → Program} {v : Fin 3 → K}
    (hheader : P.Beside header) (hdirections : ∀ r ∈ P.directions, P.Beside (f r))
    (hvertex : P.motion (Program.run F (f (.temporary P.vertex)) (Program.run F header m)) =
      { P.motion (Program.run F header m) with vertex := v }) :
    P.motion (Program.run F (header ++ P.shared.oriented.flatMap f) m) =
      { P.motion m with vertex := v } := by
  have hothers : P.Beside (P.directions.flatMap f) := fun i hi =>
    Program.spares_flatMap fun r hr => hdirections r hr i hi
  rw [Layout.oriented_shared, List.flatMap_cons, Program.run_append, Program.run_append,
    Layout.motion_of_beside hothers, hvertex, Layout.motion_of_beside hheader]

theorem motion_spinProgram (hapart : P.Apart [angle, cross, parallel])
    (hvalue : value.kind ≠ .vertexTemporary) (hhelper : m .vertexConstant P.helper = .helper) :
    P.motion (Program.run F (spinProgram value (.temporary angle) P.shared.one (.temporary cross)
      (.temporary parallel) (.temporary P.vertex)) m) =
      { P.motion m with
        vertex := rotate (m value.kind value.index).xyz (m .vertexTemporary angle .y)
          (m .vertexTemporary angle .z) (P.motion m).vertex } := by
  have hdistinct := hapart.places
  simp only [Distinct, List.pairwise_cons, List.forall_mem_cons] at hdistinct
  cases hvelocity : P.velocity <;>
    simp [spinProgram, rotate, crossProduct, Layout.motion, Value.xyz, Value.ofVector, hhelper,
      Value.helper, hvelocity, hdistinct, hvalue]
  · and_intros <;> ring
  · and_intros <;> ring

theorem motion_planeTurnProgram (hapart : P.Apart [heading, temp]) :
    P.motion (Program.run F
      (planeTurnProgram (.temporary heading) (.temporary temp) (.temporary P.vertex)) m) =
      { P.motion m with
        vertex := turn (m .vertexTemporary heading).xyz (P.motion m).vertex } := by
  have hdistinct := hapart.places
  simp only [Distinct, List.pairwise_cons, List.forall_mem_cons] at hdistinct
  cases hvelocity : P.velocity <;>
    simp [planeTurnProgram, turn, Layout.motion, Value.xyz, hvelocity, hdistinct]

theorem motion_basisProgram (hapart : P.Apart [heading, side, up, sum, temp]) :
    P.motion (Program.run F (basisProgram (.temporary heading) (.temporary up) (.temporary side)
      (.temporary sum) (.temporary temp) (.temporary P.vertex)) m) =
      { P.motion m with
        vertex := carry (m .vertexTemporary heading).xyz (m .vertexTemporary up).xyz
          (m .vertexTemporary side).xyz (P.motion m).vertex } := by
  have hdistinct := hapart.places
  simp only [Distinct, List.pairwise_cons, List.forall_mem_cons] at hdistinct
  cases hvelocity : P.velocity <;>
    simp [basisProgram, carry, Layout.motion, Value.xyz, hvelocity, hdistinct, mul_comm]

theorem motion_rotationalVelocityProgram (hapart : P.Apart [angle, cross, parallel])
    (hvalue : value.kind ≠ .vertexTemporary) (hhelper : m .vertexConstant P.helper = .helper) :
    let turned := (P.motion m).time * m value.kind value.index .w
    P.motion (Program.run F (rotationalVelocityProgram P.shared value (.temporary angle)
      (.temporary cross) (.temporary parallel)) m) =
      { P.motion m with
        vertex := rotate (m value.kind value.index).xyz (F.sin turned) (F.cos turned)
          (P.motion m).vertex } := by
  have hdistinct := hapart.places
  simp only [Distinct, List.pairwise_cons, List.forall_mem_cons] at hdistinct
  refine motion_oriented ?_ (fun r hr => ?_) ?_
  · simp [Layout.Beside, hdistinct]
  · obtain ⟨d, rfl, hd⟩ := hapart.directions r hr
    simp only [Distinct, List.pairwise_cons, List.forall_mem_cons] at hd
    simp [Layout.Beside, spinProgram, hdistinct, hd]
  · rw [motion_spinProgram hapart hvalue ?_]
    · rw [Program.run_of_local (by simp) hvalue]
      simp [Layout.motion, Value.xyz, hdistinct]
    · rw [Program.run_of_local (by simp) Register.Kind.noConfusion, hhelper]

theorem motion_screenHeadingProgram (hapart : P.Apart [heading, temp])
    (hvelocity : P.velocity = true) (hwhole : matrix.component = none)
    (hhelper : m .vertexConstant P.helper = .helper) :
    let seen := Matrix.of ![(m matrix.kind matrix.index).xyz,
      (m matrix.kind (matrix.index + 1)).xyz, (m matrix.kind (matrix.index + 2)).xyz] *ᵥ
        (P.motion m).velocity
    P.motion (Program.run F (screenHeadingProgram P.shared (.temporary P.temporary) matrix
      (.temporary heading) (.temporary temp)) m) =
      { P.motion m with vertex := turn (F.unit (onScreen seen)) (P.motion m).vertex } := by
  have hdistinct := hapart.places
  simp only [Distinct, List.pairwise_cons, List.forall_mem_cons] at hdistinct
  intro seen
  obtain ⟨header, hheader⟩ : ∃ header : Program, header =
      [m33 (Register.temporary heading).xyz (Register.temporary P.temporary).xyz matrix,
       mov (Register.temporary heading).z P.shared.zero,
       nrm (Register.temporary heading).xyz (Register.temporary heading).xyz] := ⟨_, rfl⟩
  have hbeside : P.Beside header := by simp [hheader, Layout.Beside, hdistinct]
  have hheading : (Program.run F header m .vertexTemporary heading).xyz =
      F.unit (onScreen seen) := by
    ext i
    fin_cases i <;>
      simp [hheader, seen, Layout.motion, hvelocity, Functions.unit, onScreen, Value.xyz,
        Value.ofVector, hhelper, Value.helper, Register.operand_of_whole hwhole, mul_comm]
  rw [screenHeadingProgram, ← hheader]
  refine motion_oriented hbeside (fun r hr => ?_) ?_
  · obtain ⟨d, rfl, hd⟩ := hapart.directions r hr
    simp only [Distinct, List.pairwise_cons, List.forall_mem_cons] at hd
    simp [Layout.Beside, planeTurnProgram, hdistinct, hd]
  · rw [motion_planeTurnProgram hapart, hheading, Layout.motion_of_beside hbeside]

theorem motion_spaceHeadingProgram (hapart : P.Apart [heading, side, up, sum, temp])
    (hvelocity : P.velocity = true) (hhelper : m .vertexConstant P.helper = .helper) :
    let ahead := F.unit (P.motion m).velocity
    P.motion (Program.run F (spaceHeadingProgram P.shared (.temporary P.temporary)
      (.temporary heading) (.temporary side) (.temporary up) (.temporary sum)
      (.temporary temp)) m) =
      { P.motion m with
        vertex := carry ahead (F.up ahead) (F.side ahead) (P.motion m).vertex } := by
  have hdistinct := hapart.places
  simp only [Distinct, List.pairwise_cons, List.forall_mem_cons] at hdistinct
  intro ahead
  obtain ⟨header, hheader⟩ : ∃ header : Program, header =
      [nrm (Register.temporary heading).xyz (Register.temporary P.temporary).xyz,
       crs (Register.temporary side).xyz (Register.temporary heading).xyz
         (P.shared.zero.select [.x, .y, .x]),
       nrm (Register.temporary side).xyz (Register.temporary side).xyz,
       crs (Register.temporary up).xyz (Register.temporary side).xyz
         (Register.temporary heading).xyz] := ⟨_, rfl⟩
  have hbeside : P.Beside header := by simp [hheader, Layout.Beside, hdistinct]
  have hheading : (Program.run F header m .vertexTemporary heading).xyz = ahead := by
    ext i
    fin_cases i <;>
      simp [hheader, ahead, Layout.motion, hvelocity, Functions.unit, Value.xyz, hdistinct]
  have hside : (Program.run F header m .vertexTemporary side).xyz = F.side ahead := by
    ext i
    fin_cases i <;>
      simp [hheader, ahead, Layout.motion, hvelocity, Functions.side, Functions.unit, Value.xyz,
        Value.ofVector, crossProduct, hhelper, Value.helper, hdistinct]
  have hup : (Program.run F header m .vertexTemporary up).xyz = F.up ahead := by
    unfold Functions.up
    rw [← hside, ← hheading]
    ext i
    fin_cases i <;>
      simp [hheader, Value.xyz, Value.ofVector, crossProduct, hhelper, Value.helper, hdistinct]
  rw [spaceHeadingProgram, ← hheader]
  refine motion_oriented hbeside (fun r hr => ?_) ?_
  · obtain ⟨d, rfl, hd⟩ := hapart.directions r hr
    simp only [Distinct, List.pairwise_cons, List.forall_mem_cons] at hd
    simp [Layout.Beside, basisProgram, hdistinct, hd]
  · rw [motion_basisProgram hapart, hheading, hside, hup, Layout.motion_of_beside hbeside]

theorem motion_billboardProgram (hapart : P.Apart [temp]) (hwhole : matrix.component = none) :
    P.motion (Program.run F (billboardProgram P.shared matrix (.temporary temp)) m) =
      { P.motion m with
        vertex := Matrix.of ![(m matrix.kind matrix.index).xyz,
          (m matrix.kind (matrix.index + 1)).xyz, (m matrix.kind (matrix.index + 2)).xyz] *ᵥ
            (P.motion m).vertex } := by
  have hdistinct := hapart.places
  simp only [Distinct, List.pairwise_cons, List.forall_mem_cons] at hdistinct
  rw [billboardProgram, ← List.nil_append (P.shared.oriented.flatMap _)]
  refine motion_oriented (by simp [Layout.Beside]) (fun r hr => ?_) ?_
  · obtain ⟨d, rfl, hd⟩ := hapart.directions r hr
    simp only [Distinct, List.pairwise_cons, List.forall_mem_cons] at hd
    simp [Layout.Beside, hdistinct, hd]
  · rw [Matrix.cons_mulVec, Matrix.cons_mulVec, Matrix.cons_mulVec, Matrix.empty_mulVec]
    cases hvelocity : P.velocity <;>
      simp [Layout.motion, Value.xyz, Value.ofVector, hvelocity, hdistinct,
        Register.operand_of_whole hwhole]

theorem motion_followProgram (hapart : P.Apart []) :
    P.motion (Program.run F (followProgram P.shared value) m) =
      { P.motion m with
        vertex := (P.motion m).vertex + (m value.kind value.index).xyz } := by
  have hdistinct := hapart.places
  simp only [Distinct, List.pairwise_cons, List.forall_mem_cons] at hdistinct
  cases hvelocity : P.velocity <;>
    simp [followProgram, Layout.motion, Value.xyz, hvelocity, hdistinct, add_comm]

/-! ### Colors -/

theorem beside_waveProgram (cycle : Cycle α) (hapart : P.Apart [factor]) :
    P.Beside (waveProgram cycle P.shared stream (Register.temporary factor).x) := by
  have hdistinct := hapart.places
  simp only [Distinct, List.pairwise_cons, List.forall_mem_cons] at hdistinct
  cases hphase : cycle.phase <;> simp [waveProgram, Layout.Beside, hphase, hdistinct]

theorem beside_colorPartProgram {join : Operand → Operand → Operand → Statement} {target : Nat}
    {first delta blend : Register} (hjoin : join = mul ∨ join = add)
    (hapart : P.Apart [temp]) (htarget : P.Apart [target]) :
    P.Beside (colorPartProgram join (.temporary target) first delta (.temporary temp) blend) := by
  have hdistinct := hapart.places
  have hdistinct' := htarget.places
  simp only [Distinct, List.pairwise_cons, List.forall_mem_cons] at hdistinct hdistinct'
  rcases hjoin with rfl | rfl <;>
    simp [colorPartProgram, Layout.Beside, hdistinct, hdistinct']

end Behavior

end ParticleShader
