import ParticleShader.Proofs.Instruction.Renaming
import ParticleShader.Proofs.Node.Quantities

/-!
# Code with constants and code with streams

The programs of the nodes take the register of a parameter as an argument. So with a constant
for it and with the stream that this is exchanged for they are `Twins`: the one is the other with
its registers exchanged, and of the constants it reads only components that the streams have.
One lemma for each program, put together operand by operand.
-/

namespace ParticleShader

variable {α : Type}

open Statement

/-- Every register that the nodes share. -/
def SharedRegisters.all (s : SharedRegisters) : List Register :=
  s.oriented ++ s.velocity.toList ++ [s.displacement, s.time, s.life, s.zero, s.one, s.two]

/-! ### Operands -/

namespace Exchange

variable {e : Exchange} {windows : List Window} {r r' : Register} {i n : Nat} {w : Window}

/-- What is read of a constant lies in the window of the stream that it is exchanged for. -/
def Within (e : Exchange) (windows : List Window) (o : Operand) : Prop :=
  e.Moves o → ∃ w, windows[o.index - e.firstConstant]? = some w ∧
    ∀ k ∈ o.components, k.number < w.components

/-- An operand with constants and one with streams. -/
structure Twin (e : Exchange) (windows : List Window) (o o' : Operand) : Prop where
  /-- They are exchanged. -/
  rename : o' = o.rename e.swap
  /-- The stream has what is read. -/
  within : e.Within windows o

theorem Spares.twin (h : e.Spares r) (selection : List Register.Component) :
    e.Twin windows (r.select selection) (r.select selection) :=
  ⟨(h.select selection).symm, fun hmoves => absurd hmoves (h.not_moves selection)⟩

theorem Spares.twin_operand (h : e.Spares r) : e.Twin windows r r := h.twin _

theorem Spares.twin_xyz (h : e.Spares r) : e.Twin windows r.xyz r.xyz := h.twin _

theorem Spares.twin_only (h : e.Spares r) (k : Register.Component) :
    e.Twin windows (r.only k) (r.only k) := h.twin [k]

/-- The register of a parameter with constants and that with streams, of which the first `n`
components may be read. -/
structure Delivers (e : Exchange) (windows : List Window) (n : Nat) (r r' : Register) :
    Prop where
  /-- The first is meant as a whole. -/
  whole : r.component = none
  /-- And so is the other. -/
  whole' : r'.component = none
  /-- Its components may be read. -/
  twin (selection : List Register.Component) :
    (∀ k ∈ (r.select selection).components, k.number < n) →
      e.Twin windows (r.select selection) (r'.select selection)

theorem delivers_parameter (hi : i < e.count) (hw : windows[i]? = some w) :
    e.Delivers windows w.components (e.parameter i) (e.stream i) := by
  refine ⟨rfl, rfl, fun selection h => ⟨(parameter_select hi selection).symm, fun _ => ⟨w, ?_, h⟩⟩⟩
  show windows[e.firstConstant + i - e.firstConstant]? = some w
  rwa [Nat.add_sub_cancel_left]

namespace Delivers

variable (h : e.Delivers windows n r r')
include h

theorem only (k : Register.Component) (hk : k.number < n) :
    e.Twin windows (r.only k) (r'.only k) :=
  h.twin [k] (List.forall_mem_singleton.mpr hk)

theorem xyz (hn : 3 ≤ n) : e.Twin windows r.xyz r'.xyz := by
  have hall : ∀ k ∈ [Register.Component.x, .y, .z], k.number < 3 := by decide
  exact h.twin _ fun k hk => Nat.lt_of_lt_of_le (hall k hk) hn

theorem operand (hn : 4 ≤ n) : e.Twin windows r r' := by
  rw [Register.operand_of_whole h.whole, Register.operand_of_whole h.whole']
  refine h.twin [] fun k _ => Nat.lt_of_lt_of_le ?_ hn
  cases k <;> decide

end Delivers

/-- None of the registers that the nodes share is exchanged. -/
structure SparesAll (e : Exchange) (shared : SharedRegisters) : Prop where
  /-- The vertex and the directions. -/
  oriented : ∀ r ∈ shared.oriented, e.Spares r
  /-- The displacement. -/
  displacement : e.Spares shared.displacement
  /-- The velocity. -/
  velocity : ∀ r ∈ shared.velocity.toList, e.Spares r
  /-- The time. -/
  time : e.Spares shared.time
  /-- The life. -/
  life : e.Spares shared.life
  /-- The constant `1`. -/
  one : e.Spares shared.one
  /-- The constant `2`. -/
  two : e.Spares shared.two

theorem sparesAll {shared : SharedRegisters} (h : ∀ r ∈ shared.all, e.Spares r) :
    e.SparesAll shared := by
  unfold SharedRegisters.all at h
  simp only [List.forall_mem_append, List.forall_mem_cons] at h
  obtain ⟨⟨horiented, hvelocity⟩, hdisplacement, htime, hlife, -, hone, htwo, -⟩ := h
  exact ⟨horiented, hdisplacement, hvelocity, htime, hlife, hone, htwo⟩

theorem SparesAll.vertex {shared : SharedRegisters} (h : e.SparesAll shared) :
    e.Spares shared.vertex := h.oriented _ List.mem_cons_self

end Exchange

/-! ### Programs -/

/-- Code with constants and code with streams. -/
structure Program.Twins (e : Exchange) (windows : List Window) (p p' : Program) : Prop where
  /-- They are exchanged. -/
  rename : p' = p.rename e.swap
  /-- The streams have what is read. -/
  within : ∀ i, .instruction i ∈ p → ∀ o ∈ i.reads, e.Within windows o

namespace Program

variable {e : Exchange} {windows : List Window} {p p' q q' : Program} {t a a' b b' : Operand}
  {operation : Operation}

theorem twins_nil : Twins e windows [] [] := ⟨rfl, nofun⟩

theorem Twins.append (h : Twins e windows p p') (h' : Twins e windows q q') :
    Twins e windows (p ++ q) (p' ++ q') := by
  refine ⟨?_, fun i hi => ?_⟩
  · rw [h.rename, h'.rename, rename_append]
  · rcases List.mem_append.mp hi with hi | hi
    · exact h.within i hi
    · exact h'.within i hi

theorem twins_flatMap {β : Type} {f f' : β → Program} {bs : List β}
    (h : ∀ b ∈ bs, Twins e windows (f b) (f' b)) :
    Twins e windows (bs.flatMap f) (bs.flatMap f') := by
  induction bs with
  | nil => exact twins_nil
  | cons b bs ih =>
    rw [List.forall_mem_cons] at h
    exact h.1.append (ih h.2)

/-- An instruction that writes none of the exchanged registers. -/
theorem Twins.cons {as as' : List Operand} (hmatrix : operation ≠ .m33)
    (ht : t.rename e.swap = t) (has : List.Forall₂ (e.Twin windows) as as')
    (h : Twins e windows p p') :
    Twins e windows (instruction ⟨operation, t, as⟩ :: p)
      (instruction ⟨operation, t, as'⟩ :: p') := by
  have hboth : as' = as.map (Operand.rename e.swap) ∧ ∀ a ∈ as, e.Within windows a := by
    induction has with
    | nil => exact ⟨rfl, nofun⟩
    | cons ha _ ih =>
      exact ⟨by rw [List.map_cons, ← ha.rename, ← ih.1],
        List.forall_mem_cons.mpr ⟨ha.within, ih.2⟩⟩
  have hreads : (⟨operation, t, as⟩ : Instruction).reads = as := by
    cases operation <;> first | rfl | contradiction
  refine ⟨?_, fun i hi => ?_⟩
  · rw [rename_cons, ← h.rename]
    show _ = instruction ⟨operation, t.rename e.swap, as.map (Operand.rename e.swap)⟩ :: _
    rw [ht, ← hboth.1]
  · rcases List.mem_cons.mp hi with heq | hi
    · cases heq
      rw [hreads]
      exact hboth.2
    · exact h.within i hi

theorem Twins.unary (hmatrix : operation ≠ .m33) (ht : t.rename e.swap = t)
    (ha : e.Twin windows a a') (h : Twins e windows p p') :
    Twins e windows (Statement.unary operation t a :: p) (Statement.unary operation t a' :: p') :=
  .cons hmatrix ht (.cons ha .nil) h

theorem Twins.binary (hmatrix : operation ≠ .m33) (ht : t.rename e.swap = t)
    (ha : e.Twin windows a a') (hb : e.Twin windows b b') (h : Twins e windows p p') :
    Twins e windows (Statement.binary operation t a b :: p)
      (Statement.binary operation t a' b' :: p') :=
  .cons hmatrix ht (.cons ha (.cons hb .nil)) h

end Program

namespace Behavior

open Program

variable {e : Exchange} {windows : List Window} {shared : SharedRegisters} {r r' : Register}
  {p p' : Program}

theorem twins_positionProgram (hs : e.SparesAll shared) (h : e.Delivers windows 3 r r') :
    Twins e windows (positionProgram shared r) (positionProgram shared r') :=
  .binary nofun (hs.displacement.select _) (h.xyz (Nat.le_refl 3)) hs.displacement.twin_xyz
    twins_nil

theorem twins_velocityProgram {way : Register} (hs : e.SparesAll shared) (hway : e.Spares way)
    (h : e.Delivers windows 3 r r') :
    Twins e windows (velocityProgram shared r way) (velocityProgram shared r' way) := by
  have hxyz := h.xyz (Nat.le_refl 3)
  refine Twins.append (.binary nofun (hway.select _) hs.time.twin_operand hxyz
    (.binary nofun (hs.displacement.select _) hway.twin_xyz hs.displacement.twin_xyz twins_nil)) ?_
  cases hvelocity : shared.velocity with
  | none => exact twins_nil
  | some total =>
    have htotal : e.Spares total := hs.velocity total (by simp [hvelocity])
    exact .binary nofun (htotal.select _) hxyz htotal.twin_xyz twins_nil

/-- Code that reads no parameter is its own twin. -/
theorem twins_speedProgram {total way doubled : Register} (hs : e.SparesAll shared)
    (htotal : e.Spares total) (hway : e.Spares way) (hdoubled : e.Spares doubled) :
    Twins e windows (speedProgram shared total way doubled)
      (speedProgram shared total way doubled) :=
  .binary nofun (hdoubled.select _) hway.twin_xyz hs.two.twin_operand
    (.binary nofun (htotal.select _) hdoubled.twin_xyz htotal.twin_xyz twins_nil)

theorem twins_accelerationProgram {way : Register} {speed speed' : Program}
    (hs : e.SparesAll shared) (hway : e.Spares way) (h : e.Delivers windows 3 r r')
    (hspeed : Twins e windows speed speed') :
    Twins e windows (accelerationProgram shared r way speed)
      (accelerationProgram shared r' way speed') :=
  .binary nofun (hway.select _) hs.time.twin_operand (h.xyz (Nat.le_refl 3))
    (hspeed.append (.binary nofun (hway.select _) hway.twin_xyz hs.time.twin_operand
      (.binary nofun (hs.displacement.select _) hway.twin_xyz hs.displacement.twin_xyz
        twins_nil)))

theorem twins_scaleProgram {curve : ScaleCurve} {factor : Register} (hs : e.SparesAll shared)
    (hfactor : e.Spares factor) (h : e.Delivers windows curve.length r r') :
    Twins e windows (scaleProgram curve shared r factor) (scaleProgram curve shared r' factor) := by
  have hlength : 2 ≤ curve.length := by cases curve <;> decide
  have hx := h.only .x (Nat.lt_of_lt_of_le Nat.zero_lt_two hlength)
  have hy := h.only .y (Nat.lt_of_lt_of_le Nat.one_lt_two hlength)
  have hplaced : Twins e windows
      [add factor r.x factor, mul shared.vertex.xyz shared.vertex.xyz factor]
      [add factor r'.x factor, mul shared.vertex.xyz shared.vertex.xyz factor] :=
    .binary nofun hfactor.operand hx hfactor.twin_operand
      (.binary nofun (hs.vertex.select _) hs.vertex.twin_xyz hfactor.twin_operand twins_nil)
  have hwave : Twins e windows [sin factor factor, mul factor r.y factor]
      [sin factor factor, mul factor r'.y factor] :=
    .unary nofun hfactor.operand hfactor.twin_operand
      (.binary nofun hfactor.operand hy hfactor.twin_operand twins_nil)
  cases curve with
  | linear =>
    exact .append (.binary nofun hfactor.operand hy hs.life.twin_operand twins_nil) hplaced
  | cycle =>
    have hz := h.only .z (by decide)
    exact .append (.binary nofun hfactor.operand hs.time.twin_operand hz hwave) hplaced
  | phasedCycle =>
    have hz := h.only .z (by decide)
    have hw := h.only .w (by decide)
    exact .append (.binary nofun hfactor.operand hs.time.twin_operand hz
      (.binary nofun hfactor.operand hfactor.twin_operand hw hwave)) hplaced

theorem twins_spinProgram {angle one cross parallel target : Register} (hangle : e.Spares angle)
    (hone : e.Spares one) (hcross : e.Spares cross) (hparallel : e.Spares parallel)
    (htarget : e.Spares target) (h : e.Delivers windows 4 r r') :
    Twins e windows (spinProgram r angle one cross parallel target)
      (spinProgram r' angle one cross parallel target) := by
  have hxyz := h.xyz (by decide)
  exact .binary nofun (hcross.select _) hxyz htarget.twin_xyz
    (.binary nofun (hcross.select _) hcross.twin_xyz (hangle.twin_only _)
    (.binary nofun (hparallel.select _) hxyz htarget.twin_xyz
    (.binary nofun (hparallel.select _) hone.twin_operand (hangle.twin_only _)
    (.binary nofun (hparallel.select _) (hparallel.twin_only _) (hparallel.twin_only _)
    (.binary nofun (hparallel.select _) hxyz (hparallel.twin_only _)
    (.binary nofun (hcross.select _) hcross.twin_xyz hparallel.twin_xyz
    (.binary nofun (hparallel.select _) htarget.twin_xyz (hangle.twin_only _)
    (.binary nofun (htarget.select _) hcross.twin_xyz hparallel.twin_xyz twins_nil))))))))

theorem twins_rotationalVelocityProgram {angle cross parallel : Register}
    (hs : e.SparesAll shared) (hangle : e.Spares angle) (hcross : e.Spares cross)
    (hparallel : e.Spares parallel) (h : e.Delivers windows 4 r r') :
    Twins e windows (rotationalVelocityProgram shared r angle cross parallel)
      (rotationalVelocityProgram shared r' angle cross parallel) :=
  .append (.binary nofun (hangle.select _) hs.time.twin_operand (h.only .w (by decide))
    (.unary nofun (hangle.select _) (hangle.twin_only _)
      (.unary nofun (hangle.select _) (hangle.twin_only _) twins_nil)))
    (twins_flatMap fun target htarget =>
      twins_spinProgram hangle hs.one hcross hparallel (hs.oriented target htarget) h)

/-- The wave of a color reads a constant with either form of the colors. -/
theorem twins_waveProgram {cycle : Cycle α} {speed wave : Register} (hs : e.SparesAll shared)
    (hspeed : e.Spares speed) (hwave : e.Spares wave) :
    Twins e windows (waveProgram cycle shared speed wave)
      (waveProgram cycle shared speed wave) := by
  refine Twins.append (.append (.binary nofun hwave.operand hs.time.twin_operand
    (hspeed.twin_only _) twins_nil) ?_) (.unary nofun hwave.operand hwave.twin_operand twins_nil)
  split
  · exact .binary nofun hwave.operand hwave.twin_operand (hspeed.twin_only _) twins_nil
  · exact twins_nil

theorem twins_colorPartProgram {operation : Operation} {target first first' delta delta' temp
    blend : Register} (hoperation : operation ≠ .m33) (htarget : e.Spares target)
    (htemp : e.Spares temp) (hblend : e.Spares blend) (hfirst : e.Delivers windows 4 first first')
    (hdelta : e.Delivers windows 4 delta delta') :
    Twins e windows (colorPartProgram (binary operation) target first delta temp blend)
      (colorPartProgram (binary operation) target first' delta' temp blend) :=
  .binary nofun htemp.operand (hdelta.operand (Nat.le_refl 4)) hblend.twin_operand
    (.binary nofun htemp.operand htemp.twin_operand (hfirst.operand (Nat.le_refl 4))
      (.binary hoperation htarget.operand htemp.twin_operand htarget.twin_operand twins_nil))

/-- With a scale for all particles the coordinate is scaled if that differs from one; so it is
with a scale for each. -/
theorem twins_uvScrollProgram [Scalar α] {value value' : Parameter (Vec2 α)}
    {coordinate wave : Register} (hs : e.SparesAll shared) (hcoordinate : e.Spares coordinate)
    (hwave : e.Spares wave) (hvalue : needsUvScale value = true)
    (hvalue' : needsUvScale value' = true) (h : e.Delivers windows 2 r r') :
    Twins e windows (uvScrollProgram value shared coordinate r wave)
      (uvScrollProgram value' shared coordinate r' wave) := by
  unfold uvScrollProgram
  rw [hvalue, hvalue']
  exact .binary nofun hcoordinate.operand hcoordinate.twin_operand (h.only .y (by decide))
    (.binary nofun hwave.operand hs.time.twin_operand (h.only .x (by decide))
      (.unary nofun hwave.operand hwave.twin_operand
        (.binary nofun hcoordinate.operand hcoordinate.twin_operand hwave.twin_operand twins_nil)))

end Behavior

end ParticleShader
