import ParticleShader.Proofs.Node.Computation
import ParticleShader.Proofs.NodeSet.Constants

/-!
# What the code of colors computes

Every color joins its color of the moment to two accumulators: a factor to one, a summand to the
other. `Behavior.tone` is the color of the moment. The accumulators lie in temporaries of their
own, apart from time and life and from all that is free (`Compilation.Mixes`), so the code of a
node does to them what its behavior says and leaves time and life alone:
**`Behavior.tints_colorCode`**.
-/

namespace ParticleShader

open Compile Compilation Statement

variable {α K : Type}

/-! ### The color of a moment -/

/-- A value on the way from a first one, by a part of a difference. -/
def Value.along [Field K] (first delta : Value K) (ratio : K) : Value K :=
  fun k => first k + delta k * ratio

namespace Behavior

/-- It multiplies the color. -/
def multiplies : Behavior α → Bool
  | .color animation => animation.usesMultiplier
  | _ => false

/-- It offsets the color. -/
def offsets : Behavior α → Bool
  | .color animation => animation.usesOffset
  | _ => false

section

variable [Field K]

/-- How far a color is between its two ends: at the life of the particle, or where the wave of its
cycle is. -/
def ratio (F : Functions K) (rows : Nat → Value K) (time life : K) : Behavior α → K
  | .color { cycle := some cycle, .. } =>
    F.sin (time * rows Slot.cycle .x + if cycle.phase.isSome then rows Slot.cycle .y else 0)
  | _ => life

/-- A part of the color of a moment. -/
def tone (F : Functions K) (rows : Nat → Value K) (time life : K) (startSlot deltaSlot : Nat)
    (b : Behavior α) : Value K :=
  (rows startSlot).along (rows deltaSlot) (b.ratio F rows time life)

/-- What a behavior multiplies the color by. -/
def factor (F : Functions K) (rows : Nat → Value K) (time life : K) (b : Behavior α) : Value K :=
  if b.multiplies then b.tone F rows time life Slot.startMultiplier Slot.deltaMultiplier else 1

/-- What a behavior offsets the color by. -/
def summand (F : Functions K) (rows : Nat → Value K) (time life : K) (b : Behavior α) : Value K :=
  if b.offsets then b.tone F rows time life Slot.startOffset Slot.deltaOffset else 0

end

end Behavior

/-! ### The parameters of a color -/

/-- Where a parameter of a color is read from: its cycle is the same for all particles. -/
def Node.colorKind (n : Node α) (slot : Nat) : Register.Kind :=
  if slot = Slot.cycle then .vertexConstant else n.parameterKind

theorem Node.colorKind_ne (n : Node α) (slot : Nat) : n.colorKind slot ≠ .vertexTemporary := by
  unfold Node.colorKind Node.parameterKind
  split
  · exact Register.Kind.noConfusion
  · split <;> exact Register.Kind.noConfusion

namespace Compilation

/-- What the registers hold that are remembered for the parameters of a color. -/
def rows (c : Compilation α) (m : Machine K) (n : Node α) (slot : Nat) : Value K :=
  m (n.colorKind slot) ((c.index? n.id slot).getD 0)

variable {c c' : Compilation α} {n : Node α} {r : Register} {slot : Nat}
  {needs : List (Node α × Need)}

theorem Remembers.row (h : c.Remembers n slot r) (hkind : r.kind = n.colorKind slot)
    (m : Machine K) : c.rows m n slot = m r.kind r.index := by
  unfold Compilation.rows
  rw [hkind, h.index, Option.getD_some]

/-- What is taken for other parameters does not change what is remembered. -/
theorem Remembers.later (h : c.Remembers n slot r) (hrecords : c.Records c' needs)
    (hkeys : (n.id, slot) ∉ needs.map Need.key) : c'.Remembers n slot r :=
  ⟨h.whole, (Ledger.index?_takeAll hrecords.ledger hkeys).trans h.index⟩

/-- The parameters are the same behind code that writes into temporaries. -/
theorem rows_run [Field K] [LinearOrder K] [FloorRing K] {F : Functions K} {m : Machine K}
    {p : Program} (h : p.Local) : c.rows (p.run F m) n slot = c.rows m n slot := by
  unfold rows
  rw [Program.run_of_local h (n.colorKind_ne slot)]

end Compilation

/-! ### Where colors are mixed -/

/-- Where time and life are kept, and each accumulator with the varying that carries it. -/
structure Palette where
  /-- The temporaries with time and life. -/
  clocks : List Nat
  /-- The temporary and the varying of the multiplier, if there is one. -/
  multiplier : Option (Nat × Nat)
  /-- The temporary and the varying of the offset, if there is one. -/
  offset : Option (Nat × Nat)

/-- The registers of the colors. -/
def Palette.registers (P : Palette) : ColorRegisters where
  multiplier := P.multiplier.map fun place => .temporary place.1
  multiplierVarying := P.multiplier.map fun place => { kind := .varying, index := place.2 }
  offset := P.offset.map fun place => .temporary place.1
  offsetVarying := P.offset.map fun place => { kind := .varying, index := place.2 }

/-- The colors of a compilation are mixed in certain places, of which none is free. -/
structure Compilation.Mixes (c : Compilation α) (registers : SharedRegisters) (P : Palette) :
    Prop where
  /-- The shared registers. -/
  shared : c.shared? = .ok registers
  /-- The registers of the colors. -/
  color : c.color = P.registers
  /-- The time is a component of a clock. -/
  time : ∃ i ∈ P.clocks, ∃ k, registers.time = (Register.temporary i).only k
  /-- So is the life. -/
  life : ∃ i ∈ P.clocks, ∃ k, registers.life = (Register.temporary i).only k
  /-- No clock is free. -/
  clocks : ∀ i ∈ P.clocks, i ∉ c.free
  /-- The multiplier is neither free nor a clock. -/
  multiplier : ∀ place ∈ P.multiplier, place.1 ∉ c.free ∧ place.1 ∉ P.clocks
  /-- Nor is the offset. -/
  offset : ∀ place ∈ P.offset, place.1 ∉ c.free ∧ place.1 ∉ P.clocks
  /-- The two are different. -/
  apart : ∀ place ∈ P.multiplier, ∀ other ∈ P.offset, place.1 ≠ other.1 ∧ place.2 ≠ other.2

theorem Compilation.Mixes.grows {c c' : Compilation α} {shared : SharedRegisters} {P : Palette}
    {d : Demand} (h : c.Mixes shared P) (hgrows : c.Grows c' d) : c'.Mixes shared P where
  shared := hgrows.shared?.trans h.shared
  color := hgrows.color.trans h.color
  time := h.time
  life := h.life
  clocks := hgrows.free ▸ h.clocks
  multiplier := hgrows.free ▸ h.multiplier
  offset := hgrows.free ▸ h.offset
  apart := h.apart

section

variable [Field K] [LinearOrder K] [FloorRing K] {F : Functions K} {m : Machine K} {P : Palette}
  {p q : Program} {factor factor' summand summand' : Value K}

/-- Code that joins a factor and a summand to the accumulators and leaves the clocks alone. -/
structure Tints (F : Functions K) (P : Palette) (p : Program) (m : Machine K)
    (factor summand : Value K) : Prop where
  /-- It writes into temporaries alone. -/
  writes : p.Local
  /-- The clocks are left alone. -/
  clocks : ∀ i ∈ P.clocks, p.Spares .vertexTemporary i
  /-- The multiplier is multiplied. -/
  multiplier : ∀ place ∈ P.multiplier,
    p.run F m .vertexTemporary place.1 = factor * m .vertexTemporary place.1
  /-- The offset is added to. -/
  offset : ∀ place ∈ P.offset,
    p.run F m .vertexTemporary place.1 = summand + m .vertexTemporary place.1

/-- Code that spares the accumulators and the clocks. -/
theorem tints_of_spares (hlocal : p.Local) (hclocks : ∀ i ∈ P.clocks, p.Spares .vertexTemporary i)
    (hmultiplier : ∀ place ∈ P.multiplier, p.Spares .vertexTemporary place.1)
    (hoffset : ∀ place ∈ P.offset, p.Spares .vertexTemporary place.1) : Tints F P p m 1 0 where
  writes := hlocal
  clocks := hclocks
  multiplier place hplace := by rw [Program.run_of_spares (hmultiplier place hplace), one_mul]
  offset place hplace := by rw [Program.run_of_spares (hoffset place hplace), zero_add]

theorem tints_nil : Tints F P [] m 1 0 :=
  tints_of_spares Program.local_nil (fun _ _ => Program.spares_nil) (fun _ _ => Program.spares_nil)
    fun _ _ => Program.spares_nil

/-- One after the other, the factors are multiplied and the summands added. -/
theorem Tints.append (h : Tints F P p m factor summand)
    (h' : Tints F P q (p.run F m) factor' summand') :
    Tints F P (p ++ q) m (factor' * factor) (summand' + summand) where
  writes := Program.local_append.mpr ⟨h.writes, h'.writes⟩
  clocks i hi := Program.spares_append.mpr ⟨h.clocks i hi, h'.clocks i hi⟩
  multiplier place hplace := by
    rw [Program.run_append, h'.multiplier place hplace, h.multiplier place hplace, mul_assoc]
  offset place hplace := by
    rw [Program.run_append, h'.offset place hplace, h.offset place hplace, add_assoc]

end

namespace Behavior

/-! ### The blend -/

section

variable {c c' final : Compilation α} {n : Node α} {p wave : Program} {shared : SharedRegisters}
  {P : Palette} {temp : Nat} {blend : Register} {cycle : Option (Cycle α)}

/-- The register that blends the colors is a component of a temporary that is neither the scratch
temporary nor an accumulator. -/
structure Blended (P : Palette) (temp : Nat) (blend : Register) (i : Nat)
    (k : Register.Component) : Prop where
  /-- The component. -/
  component : blend = (Register.temporary i).only k
  /-- It is not that of the scratch temporary. -/
  temp : i ≠ temp
  /-- It is not that of the multiplier. -/
  multiplier : ∀ place ∈ P.multiplier, i ≠ place.1
  /-- It is not that of the offset. -/
  offset : ∀ place ∈ P.offset, i ≠ place.1

/-- The life blends colors without a cycle. -/
theorem blended_life (hmixes : c.Mixes shared P) (htemp : temp ∈ c.free) :
    ∃ i ∈ P.clocks, ∃ k, Blended P temp shared.life i k := by
  obtain ⟨i, hi, k, hlife⟩ := hmixes.life
  refine ⟨i, hi, k, hlife, ?_, fun place hplace => ?_, fun place hplace => ?_⟩
  · rintro rfl
    exact hmixes.clocks i hi htemp
  · rintro rfl
    exact (hmixes.multiplier place hplace).2 hi
  · rintro rfl
    exact (hmixes.offset place hplace).2 hi

/-- The wave of a cycle has a free temporary of its own. -/
theorem blended_wave {index : Nat} {rest : List Nat} (hmixes : c.Mixes shared P)
    (hfree : c.free = temp :: index :: rest) :
    Blended P temp (Register.temporary index).x index .x := by
  have hpairwise := pairwise_free c
  rw [hfree, List.pairwise_cons] at hpairwise
  have hindex : index ∈ c.free := hfree ▸ List.mem_cons_of_mem temp List.mem_cons_self
  refine ⟨rfl, (hpairwise.1 index List.mem_cons_self).ne', fun place hplace => ?_,
    fun place hplace => ?_⟩
  · rintro rfl
    exact (hmixes.multiplier place hplace).1 hindex
  · rintro rfl
    exact (hmixes.offset place hplace).1 hindex

variable [Field K] [LinearOrder K] [FloorRing K] {F : Functions K} {m : Machine K}

/-- The code of a wave computes the sine of its angle in a free temporary. -/
theorem run_waveProgram {cycle : Cycle α} {speed : Register} {index i : Nat}
    {k : Register.Component} (hspeed : speed.kind ≠ .vertexTemporary)
    (htime : shared.time = (Register.temporary i).only k) :
    Program.run F (waveProgram cycle shared speed (Register.temporary index).x) m
      .vertexTemporary index .x = F.sin (m .vertexTemporary i k * m speed.kind speed.index .x +
        if cycle.phase.isSome then m speed.kind speed.index .y else 0) := by
  cases hphase : cycle.phase <;> simp [waveProgram, hphase, htime, hspeed]

/-- The code of a wave leaves what is not its own temporary alone. -/
theorem spares_waveProgram (cycle : Cycle α) {speed : Register} {index i : Nat} (h : index ≠ i) :
    Program.Spares (waveProgram cycle shared speed (Register.temporary index).x)
      .vertexTemporary i := by
  cases hphase : cycle.phase <;> simp [waveProgram, hphase, h]

theorem local_waveProgram (cycle : Cycle α) {speed : Register} {index : Nat} :
    Program.Local (waveProgram cycle shared speed (Register.temporary index).x) := by
  cases hphase : cycle.phase <;> simp [waveProgram, hphase]

/-- **What blends the colors** is the ratio of the behavior. -/
theorem exists_blended {animation : ColorAnimation α} (hbehavior : n.behavior = .color animation)
    (hmixes : c.Mixes shared P)
    (hblends : Blends animation.cycle n.info shared c temp blend wave c')
    (hlater : ∀ r, c'.Remembers n Slot.cycle r → final.Remembers n Slot.cycle r) :
    ∃ i k, Blended P temp blend i k ∧ Tints F P wave m 1 0 ∧
      wave.run F m .vertexTemporary i k = n.behavior.ratio F (final.rows m n)
        (m.read shared.time .x) (m.read shared.life .x) := by
  obtain ⟨usesMultiplier, usesOffset, cycle, colors⟩ := animation
  rw [hbehavior]
  cases cycle with
  | none =>
    obtain ⟨rfl, ⟨rest, hfree⟩, rfl, rfl⟩ := hblends
    obtain ⟨i, -, k, hblended⟩ := blended_life hmixes (hfree ▸ List.mem_cons_self)
    refine ⟨i, k, hblended, tints_nil, ?_⟩
    rw [hblended.component]
    rfl
  | some cycle =>
    obtain ⟨speed, index, rest, hspeed, hfree, rfl, rfl⟩ := hblends
    obtain ⟨hremembers, hkind⟩ := remembers_claimConstants hspeed
    obtain ⟨i, -, k, htime⟩ := hmixes.time
    have hblended := blended_wave hmixes hfree
    have hindex : index ∈ c.free := hfree ▸ List.mem_cons_of_mem temp List.mem_cons_self
    have hrow := (hlater speed hremembers).row hkind m
    have hspeed : speed.kind ≠ .vertexTemporary := by
      rw [hkind]
      exact Register.Kind.noConfusion
    refine ⟨index, .x, hblended, tints_of_spares (local_waveProgram cycle) (fun j hj => ?_)
      (fun place hplace => spares_waveProgram cycle (hblended.multiplier place hplace))
      fun place hplace => spares_waveProgram cycle (hblended.offset place hplace), ?_⟩
    · refine spares_waveProgram cycle ?_
      rintro rfl
      exact hmixes.clocks index hj hindex
    · rw [run_waveProgram hspeed htime, ← hrow, htime]
      rfl

/-! ### The parts -/

variable {accumulator : ColorRegisters → Option Register} {startSlot deltaSlot start target i : Nat}
  {k : Register.Component} {join : Operand → Operand → Operand → Statement}
  {operation : Operation} {first delta : Register}

/-- A part of a color is read from the registers that are remembered for its parameters. -/
theorem exists_colorPart (hne : startSlot ≠ deltaSlot) (hcode : Leads (colorPartCode n.info
      accumulator startSlot deltaSlot start (.temporary temp) blend join) c p c') :
    ∃ target first delta, accumulator c.color = some target ∧
      (c'.Remembers n startSlot first ∧ first.kind = n.parameterKind) ∧
      (c'.Remembers n deltaSlot delta ∧ delta.kind = n.parameterKind) ∧
      p = colorPartProgram join target first delta (.temporary temp) blend := by
  obtain ⟨target, first, c₁, delta, htarget, hfirst, hdelta, rfl⟩ := leads_colorPartCode.mp hcode
  obtain ⟨hremembers, hkind⟩ := remembers_parameter hfirst
  refine ⟨target, first, delta, htarget, ⟨hremembers.later (records_parameter hdelta) ?_, hkind⟩,
    remembers_parameter hdelta, rfl⟩
  simpa [Need.key] using hne

/-- Joins a value to the one that is there: the code for it and what it computes. -/
inductive Joins : (Operand → Operand → Operand → Statement) → (Value K → Value K → Value K) → Prop
  | mul : Joins Statement.mul fun a b => a * b
  | add : Joins Statement.add fun a b => a + b

variable {f : Value K → Value K → Value K}

/-- A part joins the color of the moment to its accumulator. -/
theorem run_colorPartProgram (hjoin : Joins join f) (hfirst : first.component = none)
    (hdelta : delta.component = none) (hkind : first.kind ≠ .vertexTemporary)
    (htemp : target ≠ temp) :
    Program.run F (colorPartProgram join (.temporary target) first delta (.temporary temp)
      ((Register.temporary i).only k)) m .vertexTemporary target =
      f ((m first.kind first.index).along (m delta.kind delta.index) (m .vertexTemporary i k))
        (m .vertexTemporary target) := by
  funext k'
  have hall : k' = .x ∨ k' = .y ∨ k' = .z ∨ k' = .w := by cases k' <;> simp
  cases hjoin <;> simp [colorPartProgram, Value.along, Register.operand_of_whole hfirst,
    Register.operand_of_whole hdelta, hkind, htemp, hall, add_comm]

omit [LinearOrder K] [FloorRing K] in
/-- It writes into its accumulator and the scratch temporary alone. -/
theorem spares_colorPartProgram (hjoin : Joins join f) {other : Nat} (htemp : temp ≠ other)
    (htarget : target ≠ other) : Program.Spares (colorPartProgram join (.temporary target) first
      delta (.temporary temp) blend) .vertexTemporary other := by
  cases hjoin <;> simp [colorPartProgram, htemp, htarget]

omit [LinearOrder K] [FloorRing K] in
theorem local_colorPartProgram (hjoin : Joins join f) : Program.Local (colorPartProgram join
    (.temporary target) first delta (.temporary temp) blend) := by
  cases hjoin <;> simp [colorPartProgram]

/-- The code of a part joins what its parameters say to one of the accumulators. -/
theorem exists_joined {places : Option (Nat × Nat)} (hjoin : Joins join f)
    (hne : startSlot ≠ deltaSlot) (hcycle : startSlot ≠ Slot.cycle) (hcycle' : deltaSlot ≠ Slot.cycle)
    (htemp : temp ∈ c.free) (hcode : Leads (colorPartCode n.info accumulator startSlot deltaSlot
      start (.temporary temp) ((Register.temporary i).only k) join) c p c')
    (hplaces : accumulator c.color = places.map fun place => .temporary place.1)
    (hapart : ∀ place ∈ places, place.1 ∉ c.free)
    (hfirst : ∀ r, c'.Remembers n startSlot r → final.Remembers n startSlot r)
    (hdelta : ∀ r, c'.Remembers n deltaSlot r → final.Remembers n deltaSlot r) :
    ∃ place ∈ places, p.Local ∧
      (∀ other, temp ≠ other → place.1 ≠ other → p.Spares .vertexTemporary other) ∧
      p.run F m .vertexTemporary place.1 = f ((final.rows m n startSlot).along
        (final.rows m n deltaSlot) (m .vertexTemporary i k)) (m .vertexTemporary place.1) := by
  obtain ⟨target, first, delta, htarget, ⟨hremembers, hkind⟩, ⟨hremembers', hkind'⟩, rfl⟩ :=
    exists_colorPart hne hcode
  rw [hplaces] at htarget
  obtain ⟨place, hplace, rfl⟩ := Option.map_eq_some_iff.mp htarget
  have hcolor : n.colorKind startSlot = n.parameterKind := if_neg hcycle
  have hcolor' : n.colorKind deltaSlot = n.parameterKind := if_neg hcycle'
  have hother : place.1 ≠ temp := fun hsame => hapart place hplace (hsame ▸ htemp)
  refine ⟨place, hplace, local_colorPartProgram hjoin,
    fun _ htemp htarget => spares_colorPartProgram hjoin htemp htarget, ?_⟩
  rw [run_colorPartProgram hjoin hremembers.whole hremembers'.whole ?_ hother,
    (hfirst first hremembers).row (hkind.trans hcolor.symm),
    (hdelta delta hremembers').row (hkind'.trans hcolor'.symm)]
  rw [hkind, ← hcolor]
  exact n.colorKind_ne startSlot

/-- The part of the multiplier. -/
theorem tints_multiplierPart {wanted : Bool} (hmixes : c.Mixes shared P) (htemp : temp ∈ c.free)
    (hblended : Blended P temp blend i k) (hcode : Leads (codeIf wanted (colorPartCode n.info
      (·.multiplier) Slot.startMultiplier Slot.deltaMultiplier start (.temporary temp) blend
      Statement.mul)) c p c')
    (hlater : ∀ slot < Slot.startOffset, ∀ r, c'.Remembers n slot r → final.Remembers n slot r) :
    Tints F P p m (if wanted then (final.rows m n Slot.startMultiplier).along
      (final.rows m n Slot.deltaMultiplier) (m .vertexTemporary i k) else 1) 0 ∧
      p.Spares .vertexTemporary i := by
  obtain rfl := hblended.component
  cases wanted with
  | false =>
    obtain ⟨rfl, -⟩ := leads_codeIf.mp hcode
    exact ⟨tints_nil, Program.spares_nil⟩
  | true =>
    obtain ⟨place, hplace, hlocal, hspares, hrun⟩ := exists_joined (F := F) (m := m) .mul
      (by decide) (by decide) (by decide) htemp hcode (congrArg _ hmixes.color)
      (fun place hplace => (hmixes.multiplier place hplace).1) (hlater _ (by decide))
      (hlater _ (by decide))
    have hfree : ∀ j, j ∉ c.free → temp ≠ j := fun j hj hsame => hj (hsame ▸ htemp)
    refine ⟨⟨hlocal, fun j hj => ?_, fun other hother => ?_, fun other hother => ?_⟩,
      hspares i hblended.temp.symm (hblended.multiplier place hplace).symm⟩
    · refine hspares j (hfree j (hmixes.clocks j hj)) ?_
      rintro rfl
      exact (hmixes.multiplier place hplace).2 hj
    · obtain rfl := Option.some.inj (hplace.symm.trans hother)
      exact hrun
    · rw [Program.run_of_spares (hspares other.1 (hfree _ (hmixes.offset other hother).1)
        (hmixes.apart place hplace other hother).1), zero_add]

/-- The part of the offset. -/
theorem tints_offsetPart {wanted : Bool} (hmixes : c.Mixes shared P) (htemp : temp ∈ c.free)
    (hblended : Blended P temp blend i k) (hcode : Leads (codeIf wanted (colorPartCode n.info
      (·.offset) Slot.startOffset Slot.deltaOffset start (.temporary temp) blend
      Statement.add)) c p c') :
    Tints F P p m 1 (if wanted then (c'.rows m n Slot.startOffset).along
      (c'.rows m n Slot.deltaOffset) (m .vertexTemporary i k) else 0) := by
  obtain rfl := hblended.component
  cases wanted with
  | false =>
    obtain ⟨rfl, -⟩ := leads_codeIf.mp hcode
    exact tints_nil
  | true =>
    obtain ⟨place, hplace, hlocal, hspares, hrun⟩ := exists_joined (F := F) (m := m) .add
      (by decide) (by decide) (by decide) htemp hcode (congrArg _ hmixes.color)
      (fun place hplace => (hmixes.offset place hplace).1) (fun _ => id) fun _ => id
    have hfree : ∀ j, j ∉ c.free → temp ≠ j := fun j hj hsame => hj (hsame ▸ htemp)
    refine ⟨hlocal, fun j hj => ?_, fun other hother => ?_, fun other hother => ?_⟩
    · refine hspares j (hfree j (hmixes.clocks j hj)) ?_
      rintro rfl
      exact (hmixes.offset place hplace).2 hj
    · rw [Program.run_of_spares (hspares other.1 (hfree _ (hmixes.multiplier other hother).1)
        (hmixes.apart other hother place hplace).1.symm), one_mul]
    · obtain rfl := Option.some.inj (hplace.symm.trans hother)
      exact hrun

/-- A part takes no other parameters than its own. -/
theorem notMem_partNeeds {wanted : Bool} {mode : Mode} {slot : Nat} (hstart : slot ≠ startSlot)
    (hdelta : slot ≠ deltaSlot) : (n.id, slot) ∉
      ((if wanted then partNeeds mode startSlot deltaSlot start else []).map (n, ·)).map
        Need.key := by
  cases wanted <;> simp [partNeeds, Need.key, hstart, hdelta]

/-- **The code of a color** joins the color of the moment to the accumulators. -/
theorem tints_colorCode {animation : ColorAnimation α} (hbehavior : n.behavior = .color animation)
    (hmixes : c.Mixes shared P) (hanimation : c.features.fragmentAnimation = true)
    (hcode : Leads (colorCode animation n.info) c p c') :
    Tints F P p m
      (n.behavior.factor F (c'.rows m n) (m.read shared.time .x) (m.read shared.life .x))
      (n.behavior.summand F (c'.rows m n) (m.read shared.time .x) (m.read shared.life .x)) := by
  rw [leads_colorCode, if_pos hanimation] at hcode
  obtain ⟨shared', temp, blend, wave, c₁, parts, hshared, hblends, hparts, rfl⟩ := hcode
  obtain rfl := Except.ok.inj (hmixes.shared.symm.trans hshared)
  obtain ⟨first, c₂, second, hmultiplier, hoffset, rfl⟩ := leads_colorPartsCode.mp hparts
  obtain ⟨_, hgrows⟩ := grows_blends hblends
  obtain ⟨_, hgrows'⟩ := grows_colorPart hmultiplier
  obtain ⟨rest, hfree⟩ := hblends.free
  have htemp : temp ∈ c.free := hfree ▸ List.mem_cons_self
  have hlater : ∀ slot < Slot.startOffset, ∀ r, c₂.Remembers n slot r → c'.Remembers n slot r :=
    fun slot hslot r hr => hr.later (records_colorPart hoffset)
      (notMem_partNeeds (Nat.ne_of_lt hslot) (Nat.ne_of_lt (Nat.lt_succ_of_lt hslot)))
  have hcycle : ∀ r, c₁.Remembers n Slot.cycle r → c'.Remembers n Slot.cycle r :=
    fun r hr => (hr.later (records_colorPart hmultiplier)
      (notMem_partNeeds (by decide) (by decide))).later (records_colorPart hoffset)
        (notMem_partNeeds (by decide) (by decide))
  obtain ⟨i, k, hblended, hwave, hratio⟩ :=
    exists_blended (F := F) (m := m) hbehavior hmixes hblends hcycle
  obtain ⟨hfirst, hspares⟩ := tints_multiplierPart (F := F) (m := wave.run F m)
    (hmixes.grows hgrows) (hgrows.free ▸ htemp) hblended hmultiplier hlater
  have hsecond := tints_offsetPart (F := F) (m := first.run F (wave.run F m))
    ((hmixes.grows hgrows).grows hgrows') (hgrows'.free ▸ hgrows.free ▸ htemp) hblended hoffset
  have hall := hwave.append (hfirst.append hsecond)
  simp only [rows_run hfirst.writes, rows_run hwave.writes, Program.run_of_spares hspares, hratio,
    one_mul, mul_one, add_zero] at hall
  unfold factor summand
  rw [hbehavior] at hall ⊢
  exact hall

end

end Behavior

end ParticleShader
