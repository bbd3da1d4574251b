import ParticleShader.Proofs.Node.Costs
import ParticleShader.Proofs.Node.Programs

/-!
# What the code of nodes accesses

The code of a catalogue node may run where its compilation stands: on shared registers
that are written, with the constants and streams that it takes itself, and with scratch
temporaries among those that are free. Only the node that keeps time does without the
time and the life; it is the one that writes them.
-/

namespace ParticleShader

variable {α : Type}

namespace Compilation

variable {c c' c'' : Compilation α} {d : Demand}

/-- A later state of a compilation, before its texture code. -/
structure Extends (c c' : Compilation α) : Prop where
  /-- Constants are only taken. -/
  constants : c.used.vertexConstants ≤ c'.used.vertexConstants
  /-- Varyings are only taken. -/
  varyings : c.used.varyings ≤ c'.used.varyings
  /-- No stream is forgotten. -/
  bindings : ∀ b ∈ c.bindings, b ∈ c'.bindings
  /-- What is free was free. -/
  free : ∀ i ∈ c'.free, i ∈ c.free
  /-- The registers of the texture code are the same. -/
  uv : c'.uv = c.uv

theorem Extends.refl (c : Compilation α) : c.Extends c :=
  ⟨Nat.le_refl _, Nat.le_refl _, fun _ hb => hb, fun _ hi => hi, rfl⟩

theorem Extends.trans (h : c.Extends c') (h' : c'.Extends c'') : c.Extends c'' :=
  ⟨h.constants.trans h'.constants, h.varyings.trans h'.varyings,
    fun b hb => h'.bindings b (h.bindings b hb), fun i hi => h.free i (h'.free i hi),
    h'.uv.trans h.uv⟩

theorem Grows.extends (h : c.Grows c' d) : c.Extends c' := by
  have hused : ∀ pool, c.used.get pool ≤ c'.used.get pool := by
    intro pool
    rw [h.used]
    exact Nat.le_add_right ..
  refine ⟨hused .vertexConstant, hused .varying, h.bindings, fun i hi => ?_, by rw [h.frame]⟩
  rwa [h.free] at hi

theorem Extends.enter (c : Compilation α) (phase : Phase) : c.Extends { c with phase } :=
  ⟨Nat.le_refl _, Nat.le_refl _, fun _ hb => hb, fun _ hi => hi, rfl⟩

end Compilation

open Compilation Compile

namespace Rights

variable {R : Rights} {c c' c₁ c₂ : Compilation α} {info : NodeInfo} {r : Register}
  {slot start components : Nat}

/-- What is taken between two states may be read, and what is free before may be
written. -/
structure Serves (R : Rights) (c c' : Compilation α) : Prop where
  /-- The constants. -/
  constants : ∀ i, c.used.vertexConstants ≤ i → i < c'.used.vertexConstants →
    R.readable .vertexConstant i
  /-- The streams. -/
  bindings : ∀ b ∈ c'.bindings, R.readable .vertexAttribute b.register
  /-- The temporaries. -/
  temporaries : ∀ i ∈ c.free, R.Temporary i

theorem Serves.between (h : R.Serves c c') (hbefore : c.Extends c₁) (hafter : c₂.Extends c') :
    R.Serves c₁ c₂ :=
  ⟨fun i hlow hhigh => h.constants i (hbefore.constants.trans hlow)
      (Nat.lt_of_lt_of_le hhigh hafter.constants),
    fun b hb => h.bindings b (hafter.bindings b hb),
    fun i hi => h.temporaries i (hbefore.free i hi)⟩

theorem given_of_readable (hkind : r.kind ≠ .vertexTemporary) (h : R.readable r.kind r.index) :
    R.Given r :=
  fun _ _ => (if_neg hkind).mpr h

theorem Serves.given_constant (h : R.Serves c c') {i : Nat} (hlow : c.used.vertexConstants ≤ i)
    (hhigh : i < c'.used.vertexConstants) : R.Given { kind := .vertexConstant, index := i } :=
  given_of_readable Register.Kind.noConfusion (h.constants i hlow hhigh)

theorem Serves.given_claimConstants (h : R.Serves c c')
    (hcode : Leads (claimConstants info slot 1) c r c') : R.Given r := by
  obtain ⟨rfl, -, rfl⟩ := leads_claimConstants.mp hcode
  exact h.given_constant (Nat.le_refl _) (Nat.lt_succ_self _)

theorem Serves.givenMatrix_claimConstants (h : R.Serves c c')
    (hcode : Leads (claimConstants info slot 3) c r c') : R.GivenMatrix r := by
  obtain ⟨rfl, -, rfl⟩ := leads_claimConstants.mp hcode
  have hgiven : ∀ k < 3,
      R.Given { kind := .vertexConstant, index := c.used.vertexConstants + k } :=
    fun k hk => h.given_constant (Nat.le_add_right _ k) (Nat.add_lt_add_left hk _)
  exact ⟨hgiven 0 (by decide), hgiven 1 (by decide), hgiven 2 (by decide)⟩

theorem Serves.given_bindStream (h : R.Serves c c')
    (hcode : Leads (bindStream info slot start components) c r c') : R.Given r := by
  obtain ⟨rfl, -, rfl⟩ := leads_bindStream.mp hcode
  exact given_of_readable Register.Kind.noConfusion
    (h.bindings _ (List.mem_append_right _ List.mem_cons_self))

theorem Serves.given_parameter (h : R.Serves c c')
    (hcode : Leads (parameter info slot start components) c r c') : R.Given r := by
  unfold parameter at hcode
  split at hcode
  · exact h.given_claimConstants hcode
  · exact h.given_bindStream hcode

end Rights

/-- The color accumulators can be read and written as a whole. -/
structure ColorRegisters.Placed (R : Rights) (W : Written) (color : ColorRegisters) : Prop where
  /-- The multiplier. -/
  multiplier : ∀ r ∈ color.multiplier, ∃ i, r = .temporary i ∧ R.Temporary i ∧ ∀ k, W i k
  /-- The offset. -/
  offset : ∀ r ∈ color.offset, ∃ i, r = .temporary i ∧ R.Temporary i ∧ ∀ k, W i k

theorem ColorRegisters.Placed.mono {R : Rights} {W W' : Written} {color : ColorRegisters}
    (h : color.Placed R W) (hW : W.Le W') : color.Placed R W' := by
  refine ⟨fun r hr => ?_, fun r hr => ?_⟩
  · obtain ⟨i, rfl, hi, hwritten⟩ := h.multiplier r hr
    exact ⟨i, rfl, hi, fun k => hW i k (hwritten k)⟩
  · obtain ⟨i, rfl, hi, hwritten⟩ := h.offset r hr
    exact ⟨i, rfl, hi, fun k => hW i k (hwritten k)⟩

/-- What the code of a node finds in a state: the shared registers lie where it may work
on them, and all that is read before the node that keeps time is written. -/
structure Compilation.Stands (c : Compilation α) (R : Rights) (W : Written)
    (registers : SharedRegisters) : Prop where
  /-- They are the shared registers. -/
  shared : c.shared? = .ok registers
  /-- They lie in their places. -/
  placed : registers.Placed R
  /-- They are written. -/
  started : registers.Started W
  /-- The color accumulators are there and written. -/
  color : c.color.Placed R W

theorem Compilation.Stands.grows {R : Rights} {W W' : Written} {c c' : Compilation α} {d : Demand}
    {shared : SharedRegisters} (h : c.Stands R W shared) (hgrows : c.Grows c' d)
    (hW : W.Le W') : c'.Stands R W' shared := by
  refine ⟨hgrows.shared?.trans h.shared, h.placed, h.started.mono hW, ?_⟩
  rw [hgrows.color]
  exact h.color.mono hW

namespace Behavior

variable {R : Rights} {W : Written} {c c' : Compilation α} {info : NodeInfo} {p : Program}
  {shared other : SharedRegisters} {d : Demand}

theorem shared_eq (hgrows : c.Grows c' d) (hstands : c.Stands R W shared)
    (hother : c'.shared? = .ok other) : shared = other := by
  rw [hgrows.shared?, hstands.shared] at hother
  cases hother
  rfl

/-! ### Time -/

theorem runs_endingCode {lifecycle : Lifecycle} {stream : Register}
    (hcode : Leads (endingCode lifecycle shared stream) c p c')
    (hfree : ∀ i ∈ c.free, R.Temporary i) (hplaced : shared.Placed R) (hstarted : shared.Started W)
    (htime : ∀ k ∈ shared.time.component, W shared.time.index k) (hstream : R.Given stream) :
    R.Runs W p := by
  obtain ⟨-, hending⟩ := leads_endingCode.mp hcode
  split at hending
  · obtain ⟨factor, rest, hfactor, rfl⟩ := hending
    exact runs_endingProgram lifecycle hplaced hstarted htime hstream
      (hfree factor (hfactor ▸ List.mem_cons_self))
  · rw [hending]
    trivial

/-- The node that keeps time needs neither time nor life, and leaves both behind. -/
theorem runs_timeCode {lifecycle : Lifecycle} (hcode : Leads (timeCode lifecycle info) c p c')
    (hserves : R.Serves c c') (hstands : c.Stands R W shared) :
    R.Runs W p ∧ shared.Timed (W.run p) := by
  obtain ⟨stream, c₁, now, hstream, hnow, _, started, rest, ending, hshared, hfree, hending,
    rfl⟩ := leads_timeCode.mp hcode
  have hfirst := (takes_bindStream info Slot.value 0 4).after hstream
  have hsecond := (takes_claimConstants info Slot.frameTime Nat.one_pos).after hnow
  obtain rfl := shared_eq (hfirst.trans hsecond) hstands hshared
  have hplaced := hstands.placed
  have hgiven := (hserves.between (.refl c) hsecond.extends).given_bindStream hstream
  have hnow := (hserves.between hfirst.extends (.refl c')).given_claimConstants hnow
  have hscratch := (hserves.between (hfirst.trans hsecond).extends (.refl c')).temporaries
  have hscratch' : ∀ i ∈ (c'.claiming started).free, R.Temporary i := by
    rw [free_claiming_head hfree]
    exact fun i hi => hscratch i (hfree ▸ List.mem_cons_of_mem _ hi)
  have hclock : ∀ k ∈ shared.time.component, W.run (startProgram shared stream now
    (Register.temporary started).x) shared.time.index k := time_startProgram hplaced
  have hstarted := hstands.started.mono (Written.le_run W
    (startProgram shared stream now (Register.temporary started).x))
  have hclock' := fun k hk => Written.le_run _ ending _ _ (hclock k hk)
  rw [Rights.runs_append, Rights.runs_append, Written.run_append, Written.run_append]
  refine ⟨⟨⟨?_, ?_⟩, ?_⟩, ?_, ?_⟩
  · exact runs_startProgram hplaced hstands.started hgiven hnow
      (hscratch started (hfree ▸ List.mem_cons_self))
  · exact runs_endingCode hending hscratch' hplaced hstarted hclock hgiven
  · exact runs_lifeProgram hplaced hclock' hgiven
  · exact fun k hk => Written.le_run _ _ _ _ (hclock' k hk)
  · exact life_lifeProgram hplaced

/-! ### The vertex and the displacement -/

theorem runs_positionCode (hcode : Leads (positionCode info) c p c') (hserves : R.Serves c c')
    (hstands : c.Stands R W shared) : R.Runs W p := by
  obtain ⟨value, hvalue, _, hshared, rfl⟩ := leads_positionCode.mp hcode
  have hgrows := (takes_parameter info Slot.value 0 3).after hvalue
  obtain rfl := shared_eq hgrows hstands hshared
  exact runs_positionProgram hstands.placed hstands.started (hserves.given_parameter hvalue)

theorem runs_velocityCode (hcode : Leads (velocityCode info) c p c') (hserves : R.Serves c c')
    (hstands : c.Stands R W shared) (htimed : shared.Timed W) : R.Runs W p := by
  obtain ⟨value, hvalue, _, way, rest, hshared, hfree, rfl⟩ := leads_velocityCode.mp hcode
  have hgrows := (takes_parameter info Slot.value 0 3).after hvalue
  obtain rfl := shared_eq hgrows hstands hshared
  rw [hgrows.free] at hfree
  have hway := hserves.temporaries way (hfree ▸ List.mem_cons_self)
  exact runs_velocityProgram hstands.placed hstands.started htimed (hserves.given_parameter hvalue)
    hway

/-- The code for the velocity uses what was written of the way. -/
theorem runs_speedCode {way : Nat} (hcode : Leads (speedCode shared (.temporary way)) c p c')
    (hfree : ∀ i ∈ c.free, R.Temporary i) (hplaced : shared.Placed R) (hstarted : shared.Started W)
    (hway : ∀ k ≠ .w, W way k) : R.Runs W p := by
  obtain ⟨-, hspeed⟩ := leads_speedCode.mp hcode
  cases hvelocity : shared.velocity with
  | none =>
    rw [hvelocity] at hspeed
    rw [hspeed]
    trivial
  | some total =>
    rw [hvelocity] at hspeed
    obtain ⟨doubled, rest, hdoubled, rfl⟩ := hspeed
    exact runs_speedProgram hplaced hstarted hvelocity hway
      (hfree doubled (hdoubled ▸ List.mem_cons_self))

theorem runs_accelerationCode (hcode : Leads (accelerationCode info) c p c')
    (hserves : R.Serves c c') (hstands : c.Stands R W shared) (htimed : shared.Timed W) :
    R.Runs W p := by
  obtain ⟨value, hvalue, _, way, rest, speed, hshared, hfree, hspeed, rfl⟩ :=
    leads_accelerationCode.mp hcode
  have hgrows := (takes_parameter info Slot.value 0 3).after hvalue
  obtain rfl := shared_eq hgrows hstands hshared
  have hscratch := (hserves.between hgrows.extends (.refl c')).temporaries
  have hscratch' : ∀ i ∈ (c'.claiming way).free, R.Temporary i := by
    rw [free_claiming_head hfree]
    exact fun i hi => hscratch i (hfree ▸ List.mem_cons_of_mem _ hi)
  exact runs_accelerationProgram hstands.placed hstands.started htimed
    (hserves.given_parameter hvalue) (hscratch way (hfree ▸ List.mem_cons_self)) fun W' hW' hway =>
      runs_speedCode hspeed hscratch' hstands.placed (hstands.started.mono hW') hway

theorem runs_scaleCode {curve : ScaleCurve} (hcode : Leads (scaleCode curve info) c p c')
    (hserves : R.Serves c c') (hstands : c.Stands R W shared) (htimed : shared.Timed W) :
    R.Runs W p := by
  obtain ⟨value, hvalue, _, factor, rest, hshared, hfree, rfl⟩ := leads_scaleCode.mp hcode
  have hgrows := (takes_parameter info Slot.value 0 curve.length).after hvalue
  obtain rfl := shared_eq hgrows hstands hshared
  rw [hgrows.free] at hfree
  exact runs_scaleProgram curve hstands.placed hstands.started htimed
    (hserves.given_parameter hvalue) (hserves.temporaries factor (hfree ▸ List.mem_cons_self))

theorem runs_rotationalVelocityCode (hcode : Leads (rotationalVelocityCode info) c p c')
    (hserves : R.Serves c c') (hstands : c.Stands R W shared) (htimed : shared.Timed W) :
    R.Runs W p := by
  obtain ⟨value, hvalue, _, angle, cross, parallel, rest, hshared, hfree, rfl⟩ :=
    leads_rotationalVelocityCode.mp hcode
  have hgrows := (takes_parameter info Slot.value 0 4).after hvalue
  obtain rfl := shared_eq hgrows hstands hshared
  have hscratch := hserves.temporaries
  rw [← hgrows.free, hfree] at hscratch
  simp only [List.forall_mem_cons] at hscratch
  obtain ⟨hangle, hcross, hparallel, -⟩ := hscratch
  exact runs_rotationalVelocityProgram hstands.placed hstands.started htimed
    (hserves.given_parameter hvalue) hangle hcross hparallel

theorem runs_headingCode (hcode : Leads (headingCode info) c p c') (hserves : R.Serves c c')
    (hstands : c.Stands R W shared) : R.Runs W p := by
  obtain ⟨_, total, hshared, htotal, hheading⟩ := leads_headingCode.mp hcode
  obtain rfl := shared_eq (.refl c) hstands hshared
  have hscratch := hserves.temporaries
  split at hheading
  · obtain ⟨matrix, hmatrix, heading, temp, rest, hfree, rfl⟩ := hheading
    have hgrows := (takes_claimConstants info Slot.value (Nat.succ_pos 2)).after hmatrix
    rw [← hgrows.free, hfree] at hscratch
    simp only [List.forall_mem_cons] at hscratch
    obtain ⟨hheading, htemp, -⟩ := hscratch
    exact runs_screenHeadingProgram hstands.placed hstands.started htotal
      (hserves.givenMatrix_claimConstants hmatrix) hheading htemp
  · obtain ⟨heading, side, up, sum, temp, rest, rfl, hfree, rfl⟩ := hheading
    rw [hfree] at hscratch
    simp only [List.forall_mem_cons] at hscratch
    obtain ⟨hheading, hside, hup, hsum, htemp, -⟩ := hscratch
    exact runs_spaceHeadingProgram hstands.placed hstands.started htotal hheading hside hup hsum
      htemp

theorem runs_billboardCode (hcode : Leads (billboardCode info) c p c') (hserves : R.Serves c c')
    (hstands : c.Stands R W shared) : R.Runs W p := by
  obtain ⟨matrix, hmatrix, _, temp, rest, hshared, hfree, rfl⟩ := leads_billboardCode.mp hcode
  have hgrows := (takes_claimConstants info Slot.value (Nat.succ_pos 2)).after hmatrix
  obtain rfl := shared_eq hgrows hstands hshared
  rw [hgrows.free] at hfree
  exact runs_billboardProgram hstands.placed hstands.started
    (hserves.givenMatrix_claimConstants hmatrix)
    (hserves.temporaries temp (hfree ▸ List.mem_cons_self))

theorem runs_followCode (hcode : Leads (followCode info) c p c') (hserves : R.Serves c c')
    (hstands : c.Stands R W shared) : R.Runs W p := by
  obtain ⟨value, hvalue, _, hshared, rfl⟩ := leads_followCode.mp hcode
  have hgrows := (takes_bindStream info Slot.value 0 3).after hvalue
  obtain rfl := shared_eq hgrows hstands hshared
  exact runs_followProgram hstands.placed hstands.started (hserves.given_bindStream hvalue)

/-! ### Colors -/

/-- The register that blends the colors can be read when its code has run. -/
theorem runs_blends {cycle : Option (Cycle α)} {temp : Nat} {blend : Register} {wave : Program}
    (hblends : Blends cycle info shared c temp blend wave c') (hserves : R.Serves c c')
    (hplaced : shared.Placed R) (htimed : shared.Timed W) :
    R.Runs W wave ∧ ∀ W', (W.run wave).Le W' → R.Reads W' blend.operand := by
  cases cycle with
  | none =>
    obtain ⟨-, -, rfl, rfl⟩ := hblends
    refine ⟨trivial, fun W' hW' => ?_⟩
    obtain ⟨life, l, hlife, -, hage⟩ := hplaced.exists_life htimed.life
    simp [hlife, hW' _ _ hage]
  | some cycle =>
    obtain ⟨speed, index, rest, hspeed, hfree, rfl, rfl⟩ := hblends
    have hindex := hserves.temporaries index (by simp [hfree])
    refine ⟨runs_waveProgram cycle hplaced htimed (hserves.given_claimConstants hspeed) hindex,
      fun W' hW' => ?_⟩
    have hwritten := hW' index .x (Written.run_of_mem List.mem_cons_self (by simp))
    simp [hwritten]

variable {join : Operand → Operand → Operand → Statement} {blend : Register} {temp : Nat}

theorem runs_colorPartCode {accumulator : ColorRegisters → Option Register}
    {startSlot deltaSlot start : Nat} (hjoin : join = Statement.mul ∨ join = Statement.add)
    (hcode : Leads (colorPartCode info accumulator startSlot deltaSlot start (.temporary temp) blend
      join) c p c')
    (hserves : R.Serves c c') (htemp : R.Temporary temp) (hblend : R.Reads W blend.operand)
    (haccumulator : ∀ r ∈ accumulator c.color,
      ∃ i, r = .temporary i ∧ R.Temporary i ∧ ∀ k, W i k) : R.Runs W p := by
  obtain ⟨target, first, c₁, delta, htarget, hfirst, hdelta, rfl⟩ := leads_colorPartCode.mp hcode
  have hbefore := (takes_parameter info startSlot start 4).after hfirst
  have hafter := (takes_parameter info deltaSlot (start + 4) 4).after hdelta
  obtain ⟨target, rfl, hplace, hwritten⟩ := haccumulator target htarget
  exact runs_colorPartProgram hjoin
    ((hserves.between (.refl c) hafter.extends).given_parameter hfirst)
    ((hserves.between hbefore.extends (.refl c')).given_parameter hdelta) htemp hblend hplace
    hwritten

theorem written_or_skipped {wanted : Bool} {code : Compile α Program}
    (hcode : Leads (codeIf wanted code) c p c') : Leads code c p c' ∨ p = [] ∧ c' = c := by
  rw [leads_codeIf] at hcode
  split at hcode
  · exact .inl hcode
  · exact .inr hcode

theorem grows_colorPart {wanted : Bool} {accumulator : ColorRegisters → Option Register}
    {startSlot deltaSlot start : Nat}
    (hcode : Leads (codeIf wanted (colorPartCode info accumulator startSlot deltaSlot start
      (.temporary temp) blend join)) c p c') : ∃ d, c.Grows c' d := by
  rcases written_or_skipped hcode with hpart | ⟨-, rfl⟩
  · obtain ⟨target, first, c₁, delta, -, hfirst, hdelta, -⟩ := leads_colorPartCode.mp hpart
    exact ⟨_, ((takes_parameter info startSlot start 4).after hfirst).trans
      ((takes_parameter info deltaSlot (start + 4) 4).after hdelta)⟩
  · exact ⟨_, .refl c'⟩

theorem grows_colorPartsCode {animation : ColorAnimation α}
    (hcode : Leads (colorPartsCode animation info (.temporary temp) blend) c p c') :
    ∃ d, c.Grows c' d := by
  obtain ⟨multiplier, c₁, offset, hmultiplier, hoffset, -⟩ := leads_colorPartsCode.mp hcode
  obtain ⟨_, hbefore⟩ := grows_colorPart hmultiplier
  obtain ⟨_, hafter⟩ := grows_colorPart hoffset
  exact ⟨_, hbefore.trans hafter⟩

theorem runs_colorPartsCode {animation : ColorAnimation α}
    (hcode : Leads (colorPartsCode animation info (.temporary temp) blend) c p c')
    (hserves : R.Serves c c') (htemp : R.Temporary temp)
    (hblend : ∀ W', W.Le W' → R.Reads W' blend.operand) (hcolor : c.color.Placed R W) :
    R.Runs W p := by
  obtain ⟨multiplier, c₁, offset, hmultiplier, hoffset, rfl⟩ := leads_colorPartsCode.mp hcode
  obtain ⟨_, hbefore⟩ := grows_colorPart hmultiplier
  obtain ⟨_, hafter⟩ := grows_colorPart hoffset
  rw [Rights.runs_append]
  constructor
  · rcases written_or_skipped hmultiplier with hpart | ⟨rfl, -⟩
    · exact runs_colorPartCode (.inl rfl) hpart (hserves.between (.refl c) hafter.extends) htemp
        (hblend W (.refl W)) hcolor.multiplier
    · trivial
  · have hcolor := hcolor.mono (Written.le_run W multiplier)
    rw [← hbefore.color] at hcolor
    rcases written_or_skipped hoffset with hpart | ⟨rfl, -⟩
    · exact runs_colorPartCode (.inr rfl) hpart (hserves.between hbefore.extends (.refl c')) htemp
        (hblend _ (Written.le_run W multiplier)) hcolor.offset
    · trivial

theorem grows_blends {cycle : Option (Cycle α)} {wave : Program}
    (hblends : Blends cycle info shared c temp blend wave c') : ∃ d, c.Grows c' d := by
  cases cycle with
  | none =>
    obtain ⟨rfl, -⟩ := hblends
    exact ⟨_, .refl c'⟩
  | some cycle =>
    obtain ⟨speed, _, _, hspeed, -⟩ := hblends
    exact ⟨_, (takes_claimConstants info Slot.cycle Nat.one_pos).after hspeed⟩

theorem runs_colorCode {animation : ColorAnimation α}
    (hcode : Leads (colorCode animation info) c p c') (hserves : R.Serves c c')
    (hstands : c.Stands R W shared) (htimed : shared.Timed W) : R.Runs W p := by
  rw [leads_colorCode] at hcode
  split at hcode
  · obtain ⟨_, temp, blend, wave, c₁, parts, hshared, hblends, hparts, rfl⟩ := hcode
    obtain rfl := shared_eq (.refl c) hstands hshared
    obtain ⟨rest, hfree⟩ := hblends.free
    obtain ⟨_, hbefore⟩ := grows_blends hblends
    obtain ⟨_, hafter⟩ := grows_colorPartsCode hparts
    have htemp := hserves.temporaries temp (hfree ▸ List.mem_cons_self)
    obtain ⟨hwave, hblend⟩ := runs_blends hblends (hserves.between (.refl c) hafter.extends)
      hstands.placed htimed
    have hcolor := hstands.color.mono (Written.le_run W wave)
    rw [← hbefore.color] at hcolor
    rw [Rights.runs_append]
    exact ⟨hwave, runs_colorPartsCode hparts (hserves.between hbefore.extends (.refl c')) htemp
      hblend hcolor⟩
  · obtain ⟨rfl, -⟩ := hcode
    trivial

/-! ### Texture coordinates -/

variable [Scalar α] {uv : UvRegisters}

theorem grows_uvScrollCode {axis : UvAxis} {value : Parameter (Vec2 α)}
    (hcode : Leads (uvScrollCode axis value info) c p c') : ∃ d, c.Grows c' d := by
  rw [leads_uvScrollCode] at hcode
  split at hcode
  · obtain ⟨_, -, constants, hconstants, -⟩ := hcode
    exact ⟨_, (takes_parameter info Slot.value 0 2).after hconstants⟩
  · obtain ⟨-, rfl⟩ := hcode
    exact ⟨_, .refl c'⟩

theorem runs_uvScrollCode {axis : UvAxis} {value : Parameter (Vec2 α)}
    (hcode : Leads (uvScrollCode axis value info) c p c') (hserves : R.Serves c c')
    (hstands : c.Stands R W shared) (htimed : shared.Timed W) (huv : c.uv = some uv)
    (hworking : uv.working = shared.displacement) : R.Runs W p := by
  rw [leads_uvScrollCode] at hcode
  split at hcode
  · obtain ⟨_, hregisters, constants, hconstants, _, wave, rest, hshared, hfree, rfl⟩ := hcode
    obtain rfl := Option.some.inj (huv.symm.trans hregisters)
    have hgrows := (takes_parameter info Slot.value 0 2).after hconstants
    obtain rfl := shared_eq hgrows hstands hshared
    rw [hgrows.free] at hfree
    have hwave := hserves.temporaries wave (hfree ▸ List.mem_cons_self)
    obtain ⟨working, hdisplacement, hplace, hwritten⟩ :=
      hstands.placed.exists_displacement hstands.started
    rw [hworking, hdisplacement]
    have hgiven := hserves.given_parameter hconstants
    cases axis with
    | u =>
      exact runs_uvScrollProgram value hstands.placed htimed hgiven hplace (hwritten .x nofun) hwave
    | v =>
      exact runs_uvScrollProgram value hstands.placed htimed hgiven hplace (hwritten .y nofun) hwave
  · obtain ⟨rfl, -⟩ := hcode
    trivial

theorem grows_sheetPhaseCode {sheet : SpriteSheet α} {phase : Option Register}
    (hcode : Leads (sheetPhaseCode sheet info) c phase c') : ∃ d, c.Grows c' d := by
  rw [leads_sheetPhaseCode] at hcode
  split at hcode
  · obtain ⟨r, hr, -⟩ := hcode
    exact ⟨_, (takes_claimConstants info Slot.phase Nat.one_pos).after hr⟩
  · obtain ⟨-, rfl⟩ := hcode
    exact ⟨_, .refl c'⟩

theorem given_sheetPhaseCode {sheet : SpriteSheet α} {phase : Option Register}
    (hcode : Leads (sheetPhaseCode sheet info) c phase c') (hserves : R.Serves c c') :
    ∀ r ∈ phase, R.Given r := by
  rw [leads_sheetPhaseCode] at hcode
  split at hcode
  · obtain ⟨r, hr, rfl⟩ := hcode
    rintro _ ⟨⟩
    exact hserves.given_claimConstants hr
  · obtain ⟨rfl, -⟩ := hcode
    nofun

theorem grows_spriteSheetCode {sheet : SpriteSheet α}
    (hcode : Leads (spriteSheetCode sheet info) c p c') : ∃ d, c.Grows c' d := by
  rw [leads_spriteSheetCode] at hcode
  split at hcode
  · obtain ⟨_, -, _, -, constants, c₁, hconstants, phase, hphase, -⟩ := hcode
    obtain ⟨_, hafter⟩ := grows_sheetPhaseCode hphase
    exact ⟨_, ((takes_claimConstants info Slot.value Nat.one_pos).after hconstants).trans hafter⟩
  · obtain ⟨-, rfl⟩ := hcode
    exact ⟨_, .refl c'⟩

theorem runs_spriteSheetCode {sheet : SpriteSheet α}
    (hcode : Leads (spriteSheetCode sheet info) c p c') (hserves : R.Serves c c')
    (hstands : c.Stands R W shared) (htimed : shared.Timed W) (huv : c.uv = some uv)
    (hworking : uv.working = shared.displacement) : R.Runs W p := by
  rw [leads_spriteSheetCode] at hcode
  split at hcode
  · obtain ⟨_, hregisters, _, hshared, constants, c₁, hconstants, phase, hphase, temp, rest, hfree,
      rfl⟩ := hcode
    obtain rfl := Option.some.inj (huv.symm.trans hregisters)
    obtain rfl := shared_eq (.refl c) hstands hshared
    have hbefore := (takes_claimConstants info Slot.value Nat.one_pos).after hconstants
    obtain ⟨_, hafter⟩ := grows_sheetPhaseCode hphase
    rw [(hbefore.trans hafter).free] at hfree
    obtain ⟨working, hdisplacement, hplace, hwritten⟩ :=
      hstands.placed.exists_displacement hstands.started
    rw [hworking, hdisplacement]
    exact runs_spriteSheetProgram sheet hstands.placed htimed
      ((hserves.between (.refl c) hafter.extends).given_claimConstants hconstants)
      (given_sheetPhaseCode hphase (hserves.between hbefore.extends (.refl c'))) hplace
      (hwritten .x nofun) (hwritten .y nofun)
      (hserves.temporaries temp (hfree ▸ List.mem_cons_self))
  · obtain ⟨rfl, -⟩ := hcode
    trivial

end Behavior

namespace Node

open Behavior

variable {R : Rights} {W : Written} {c c' : Compilation α} {n : Node α} {p : Program}
  {shared : SharedRegisters}

/-- **The accesses of a node**: where its compilation stands and time is known, the code of
a catalogue node may run. -/
theorem runs_vertexCode (hcatalogue : n.behavior.IsCatalogue)
    (hcode : Leads n.vertexCode c p c') (hserves : R.Serves c c') (hstands : c.Stands R W shared)
    (htimed : shared.Timed W) : R.Runs W p := by
  obtain ⟨behavior, id, offset, dynamicOffset⟩ := n
  cases behavior with
  | time lifecycle => exact (runs_timeCode hcode hserves hstands).1
  | position value => exact runs_positionCode hcode hserves hstands
  | velocity value => exact runs_velocityCode hcode hserves hstands htimed
  | acceleration value => exact runs_accelerationCode hcode hserves hstands htimed
  | scale curve value => exact runs_scaleCode hcode hserves hstands htimed
  | rotationalVelocity value => exact runs_rotationalVelocityCode hcode hserves hstands htimed
  | rotateToHeading => exact runs_headingCode hcode hserves hstands
  | billboard axis => exact runs_billboardCode hcode hserves hstands
  | follow => exact runs_followCode hcode hserves hstands
  | uv axis value =>
    obtain ⟨rfl, rfl⟩ := leads_result.mp hcode
    trivial
  | spriteSheet sheet =>
    obtain ⟨rfl, rfl⟩ := leads_result.mp hcode
    trivial
  | color animation => exact runs_colorCode hcode hserves hstands htimed
  | custom node => exact hcatalogue.elim

variable [Scalar α] {uv : UvRegisters}

/-- The texture code of a node takes registers of the pools and leaves all else alone. -/
theorem grows_uvCode (hcatalogue : n.behavior.IsCatalogue) (hcode : Leads n.uvCode c p c') :
    ∃ d, c.Grows c' d := by
  obtain ⟨behavior, id, offset, dynamicOffset⟩ := n
  cases behavior with
  | uv axis value => exact grows_uvScrollCode hcode
  | spriteSheet sheet => exact grows_spriteSheetCode hcode
  | custom node => exact hcatalogue.elim
  | _ =>
    obtain ⟨-, rfl⟩ := leads_result.mp hcode
    exact ⟨_, .refl c'⟩

/-- The texture code of a node may run on the displacement when the vertex is placed. -/
theorem runs_uvCode (hcatalogue : n.behavior.IsCatalogue) (hcode : Leads n.uvCode c p c')
    (hserves : R.Serves c c') (hstands : c.Stands R W shared) (htimed : shared.Timed W) (huv : c.uv = some uv)
    (hworking : uv.working = shared.displacement) : R.Runs W p := by
  obtain ⟨behavior, id, offset, dynamicOffset⟩ := n
  cases behavior with
  | uv axis value => exact runs_uvScrollCode hcode hserves hstands htimed huv hworking
  | spriteSheet sheet => exact runs_spriteSheetCode hcode hserves hstands htimed huv hworking
  | custom node => exact hcatalogue.elim
  | _ =>
    obtain ⟨rfl, -⟩ := leads_result.mp hcode
    trivial

end Node

end ParticleShader
