import ParticleShader.Proofs.Node.Motion
import ParticleShader.Proofs.NodeSet.WellFormed

/-!
# What the code of nodes computes

A node of the catalogue does to the registers what its behavior does to the motion that
they hold: `motion_vertexCode` puts the code that is emitted and `Behavior.move` side by
side. The values that the behavior uses are read off the registers that are remembered
for the parameters of the node, and the scratch temporaries are free ones, so no code can
spoil what another one has accumulated.
-/

namespace ParticleShader

open Compile Compilation

variable {α K : Type}

/-! ### The parameters of a node -/

/-- Where the parameters of a node are read from. -/
def Node.parameterKind (n : Node α) : Register.Kind :=
  match n.behavior.mode with
  | .global => .vertexConstant
  | .perParticle _ => .vertexAttribute

namespace Compilation

/-- What the registers hold that are remembered for the parameters of a node. -/
def inputs (c : Compilation α) (m : Machine K) (n : Node α) : Inputs K where
  now := m .vertexConstant ((c.index? n.id Slot.frameTime).getD 0)
  rows k := m n.parameterKind ((c.index? n.id Slot.value).getD 0 + k)

variable {c c' : Compilation α} {n : Node α} {r : Register} {slot start components count : Nat}

/-- A register is remembered for a parameter of a node. -/
structure Remembers (c : Compilation α) (n : Node α) (slot : Nat) (r : Register) : Prop where
  /-- It is a whole register. -/
  whole : r.component = none
  /-- Its number is remembered. -/
  index : c.index? n.id slot = some r.index

theorem remembers_claimConstants (h : Leads (claimConstants n.info slot count) c r c') :
    c'.Remembers n slot r ∧ r.kind = .vertexConstant := by
  obtain ⟨rfl, -, rfl⟩ := leads_claimConstants.mp h
  exact ⟨⟨rfl, List.lookup_cons_self⟩, rfl⟩

theorem remembers_bindStream (h : Leads (bindStream n.info slot start components) c r c') :
    c'.Remembers n slot r ∧ r.kind = .vertexAttribute := by
  obtain ⟨rfl, -, rfl⟩ := leads_bindStream.mp h
  exact ⟨⟨rfl, List.lookup_cons_self⟩, rfl⟩

theorem remembers_parameter (h : Leads (parameter n.info slot start components) c r c') :
    c'.Remembers n slot r ∧ r.kind = n.parameterKind := by
  have hmode : n.info.mode = n.behavior.mode := rfl
  unfold parameter at h
  unfold Node.parameterKind
  rw [hmode] at h
  cases hbehavior : n.behavior.mode with
  | global =>
    rw [hbehavior] at h
    exact remembers_claimConstants h
  | perParticle buffer =>
    rw [hbehavior] at h
    exact remembers_bindStream h

/-- A constant that is taken for another parameter does not change what is remembered. -/
theorem Remembers.claimConstants {other : Nat} {now : Register} (h : c.Remembers n slot r)
    (hcode : Leads (Compile.claimConstants n.info other count) c now c') (hother : slot ≠ other) :
    c'.Remembers n slot r := by
  obtain ⟨-, -, rfl⟩ := leads_claimConstants.mp hcode
  refine ⟨h.whole, Eq.trans ?_ h.index⟩
  have hkey : ((n.id, slot) == (n.info.id, other)) = false :=
    beq_eq_false_iff_ne.mpr fun hsame => hother (Prod.mk.inj hsame).2
  show List.lookup (n.id, slot) (((n.info.id, other), c.used.vertexConstants) :: c.indices) = _
  rw [List.lookup_cons, hkey]
  rfl

/-- The value of a node is in the registers that its code works with. -/
theorem Remembers.rows (h : c.Remembers n Slot.value r) (hkind : r.kind = n.parameterKind)
    (m : Machine K) (k : Nat) : (c.inputs m n).rows k = m r.kind (r.index + k) := by
  unfold inputs
  rw [hkind, h.index, Option.getD_some]

theorem Remembers.now (h : c.Remembers n Slot.frameTime r) (hkind : r.kind = .vertexConstant)
    (m : Machine K) : (c.inputs m n).now = m r.kind r.index := by
  unfold inputs
  rw [hkind, h.index, Option.getD_some]

end Compilation

/-! ### The places of a compilation -/

/-- No color accumulator is among the places. -/
structure Layout.Clear (P : Layout) (color : ColorRegisters) : Prop where
  /-- The multiplier is a temporary of its own. -/
  multiplier : ∀ r ∈ color.multiplier, ∃ i, r = .temporary i ∧ P.Apart [i]
  /-- The offset is a temporary of its own. -/
  offset : ∀ r ∈ color.offset, ∃ i, r = .temporary i ∧ P.Apart [i]

/-- The shared registers of a compilation lie in certain places, of which none is free. -/
structure Compilation.Hosts (c : Compilation α) (P : Layout) : Prop where
  /-- They are the shared registers. -/
  shared : c.shared? = .ok P.shared
  /-- The velocity is accumulated exactly if some node needs it. -/
  velocity : c.features.velocity = P.velocity
  /-- No temporary that is free is among them. -/
  apart : P.Apart c.free
  /-- No color accumulator is among them. -/
  color : P.Clear c.color

theorem distinct_iff_nodup {indices : List Nat} : Distinct indices ↔ indices.Nodup :=
  ⟨fun h => h.imp And.left, fun h => h.imp fun hne => ⟨hne, hne.symm⟩⟩

namespace Layout

variable {P : Layout} {scratch scratch' : List Nat}

/-- Fewer scratch temporaries are apart from the places as well. -/
theorem Apart.mono (h : P.Apart scratch) (hsub : ∀ i ∈ scratch', i ∈ scratch)
    (hnodup : scratch'.Nodup) : P.Apart scratch' := by
  obtain ⟨hplaces, hdirections⟩ := h
  refine ⟨?_, hdirections⟩
  rw [distinct_iff_nodup] at hplaces ⊢
  simp only [List.nodup_cons, List.mem_cons, not_or] at hplaces ⊢
  obtain ⟨⟨hvertex, hvertex', hfree⟩, ⟨hdisplacement, hfree'⟩, hfree'', -⟩ := hplaces
  exact ⟨⟨hvertex, hvertex', fun hi => hfree (hsub _ hi)⟩,
    ⟨hdisplacement, fun hi => hfree' (hsub _ hi)⟩, fun hi => hfree'' (hsub _ hi), hnodup⟩

/-- The temporaries that are handed out next are apart from the places. -/
theorem Apart.of_free {c : Compilation α} {rest : List Nat} (h : P.Apart c.free)
    (scratch : List Nat) (hfree : c.free = scratch ++ rest) : P.Apart scratch := by
  refine h.mono (fun i hi => hfree ▸ List.mem_append_left _ hi) ?_
  have hsorted := (List.pairwise_append.mp (hfree ▸ pairwise_free c)).1
  exact hsorted.imp Nat.ne_of_lt

theorem Apart.claiming {c : Compilation α} (h : P.Apart c.free) (index : Nat) :
    P.Apart (c.claiming index).free := by
  rw [free_claiming]
  exact h.mono (fun i hi => (List.mem_filter.mp hi).1)
    (((pairwise_free c).imp Nat.ne_of_lt).filter _)

end Layout

/-! ### Only temporaries are written -/

namespace Rights

/-- The right to read everything and to write temporaries. -/
def temporaries : Rights where
  readable _ _ := True
  writable o := o.kind = .vertexTemporary

theorem local_of_runs {W : Written} {p : Program} (h : temporaries.Runs W p) : p.Local := by
  induction p generalizing W with
  | nil => exact Program.local_nil
  | cons statement p ih =>
    cases statement with
    | verbatim text => exact h.elim
    | instruction i =>
      obtain ⟨-, hwritable, hrest⟩ := h
      intro j hj
      rcases List.mem_cons.mp hj with hsame | hj
      · cases hsame
        exact hwritable
      · exact ih hrest j hj

end Rights

namespace Compilation

variable {c c' : Compilation α} {P : Layout} {d : Demand} {n : Node α} {p : Program}

theorem Hosts.grows (h : c.Hosts P) (hgrows : c.Grows c' d) : c'.Hosts P := by
  obtain ⟨hshared, hvelocity, hapart, hcolor⟩ := h
  refine ⟨hgrows.shared?.trans hshared, ?_, ?_, ?_⟩
  · rwa [hgrows.features]
  · rwa [hgrows.free]
  · rwa [hgrows.color]

theorem Hosts.shared_eq (h : c.Hosts P) {shared : SharedRegisters}
    (hshared : c.shared? = .ok shared) : shared = P.shared :=
  Except.ok.inj (hshared.symm.trans h.shared)

/-- Code finds what it needs where everything counts as written. -/
theorem Hosts.stands (h : c.Hosts P) :
    c.Stands Rights.temporaries (fun _ _ => True) P.shared := by
  have htemporary : ∀ i, Rights.temporaries.Temporary i := fun _ _ => rfl
  refine ⟨h.shared, ?_, ⟨fun _ _ _ => trivial, fun _ _ => trivial, fun _ _ _ _ => trivial⟩, ?_, ?_⟩
  · refine SharedRegisters.placed_ofPlaces P.velocity (List.forall_mem_cons.mpr ⟨?_, ?_⟩)
      (htemporary _) (htemporary _) (Rights.given_of_readable Register.Kind.noConfusion trivial)
    · exact ⟨_, rfl, htemporary _⟩
    · intro r hr
      obtain ⟨i, rfl, -⟩ := h.apart.directions r hr
      exact ⟨i, rfl, htemporary i⟩
  · intro r hr
    obtain ⟨i, rfl, -⟩ := h.color.multiplier r hr
    exact ⟨i, rfl, htemporary i, fun _ => trivial⟩
  · intro r hr
    obtain ⟨i, rfl, -⟩ := h.color.offset r hr
    exact ⟨i, rfl, htemporary i, fun _ => trivial⟩

/-- The code of a catalogue node writes into temporaries alone. -/
theorem Hosts.local_vertexCode (h : c.Hosts P) (hcatalogue : n.behavior.IsCatalogue)
    (hcode : Leads n.vertexCode c p c') : p.Local :=
  Rights.local_of_runs (Node.runs_vertexCode hcatalogue hcode
    ⟨fun _ _ _ => trivial, fun _ _ => trivial, fun _ _ _ => rfl⟩ h.stands
    ⟨fun _ _ => trivial, fun _ _ => trivial⟩)

end Compilation

namespace Behavior

variable [Field K] [LinearOrder K] [FloorRing K] {F : Functions K} {m : Machine K} {P : Layout}
  {c c' : Compilation α} {n : Node α} {p : Program} {d : Demand}

/-! ### Time -/

theorem motion_endingCode {lifecycle : Lifecycle} {stream : Register}
    (hcode : Leads (endingCode lifecycle P.shared stream) c p c') (hapart : P.Apart c.free)
    (hstream : stream.kind ≠ .vertexTemporary) :
    let time := lifecycle.clock (m stream.kind stream.index) (P.motion m).time
    P.motion (Program.run F p m) =
      { P.motion m with
        time
        vertex := lifecycle.ending (m stream.kind stream.index) (P.motion m).time •
          (P.motion m).vertex } := by
  obtain ⟨-, hending⟩ := leads_endingCode.mp hcode
  cases hduration : lifecycle.usesDuration with
  | true =>
    rw [hduration, if_pos rfl] at hending
    obtain ⟨factor, rest, hfree, rfl⟩ := hending
    exact motion_endingProgram hduration (hapart.of_free [factor] hfree) hstream
  | false =>
    rw [hduration, if_neg Bool.false_ne_true] at hending
    subst hending
    simp [Lifecycle.clock, Lifecycle.ending, hduration]

theorem motion_timeCode {lifecycle : Lifecycle} (hcode : Leads (timeCode lifecycle n.info) c p c')
    (hlocal : p.Local) (hhosts : c'.Hosts P) (hkind : n.parameterKind = .vertexAttribute)
    (hhelper : m .vertexConstant P.helper = .helper) :
    P.motion (Program.run F p m) =
      (Behavior.time lifecycle : Behavior α).move F c'.features (c'.inputs m n) (P.motion m) := by
  obtain ⟨stream, c₁, now, hstream, hnow, shared, started, rest, ending, hshared, hfree, hending,
    rfl⟩ := leads_timeCode.mp hcode
  obtain rfl := hhosts.shared_eq hshared
  obtain ⟨⟨hstart, hlater⟩, -⟩ := by simpa only [Program.local_append] using hlocal
  obtain ⟨hvalue, hattribute⟩ := remembers_bindStream hstream
  obtain ⟨hclock, hconstant⟩ := remembers_claimConstants hnow
  have hvalue' := (hvalue.claimConstants hnow (by decide)).rows (hattribute.trans hkind.symm) m 0
  have hclock' := hclock.now hconstant m
  have hstream : stream.kind ≠ .vertexTemporary := by
    rw [hattribute]
    exact Register.Kind.noConfusion
  simp only [Program.run_append]
  rw [motion_lifeProgram (hhosts.apart.of_free [] rfl)]
  rw [motion_endingCode hending (hhosts.apart.claiming started) hstream]
  rw [motion_startProgram (hhosts.apart.of_free [started] hfree) hclock.whole hhelper]
  rw [Program.run_of_local hlater hstream, Program.run_of_local hstart hstream]
  rw [Nat.add_zero] at hvalue'
  simp [move, deform, way, speed, clock, age, Inputs.since, Lifecycle.presence, hvalue', hclock',
    hhosts.velocity]

/-! ### The displacement and the velocity -/

theorem motion_positionCode {value : Parameter (Vec3 α)}
    (hcode : Leads (positionCode n.info) c p c') (hhosts : c'.Hosts P) :
    P.motion (Program.run F p m) =
      (Behavior.position value).move F c'.features (c'.inputs m n) (P.motion m) := by
  obtain ⟨r, hr, shared, hshared, rfl⟩ := leads_positionCode.mp hcode
  obtain rfl := hhosts.shared_eq hshared
  obtain ⟨hvalue, hkind⟩ := remembers_parameter hr
  rw [motion_positionProgram (hhosts.apart.of_free [] rfl), move_position, Inputs.vector,
    hvalue.rows hkind]
  rfl

theorem motion_velocityCode {value : Parameter (Vec3 α)}
    (hcode : Leads (velocityCode n.info) c p c') (hhosts : c'.Hosts P)
    (hparameter : n.parameterKind ≠ .vertexTemporary) :
    P.motion (Program.run F p m) =
      (Behavior.velocity value).move F c'.features (c'.inputs m n) (P.motion m) := by
  obtain ⟨r, hr, shared, way, rest, hshared, hfree, rfl⟩ := leads_velocityCode.mp hcode
  obtain rfl := hhosts.shared_eq hshared
  obtain ⟨hvalue, hkind⟩ := remembers_parameter hr
  rw [motion_velocityProgram (hhosts.apart.of_free [way] hfree) (hkind ▸ hparameter),
    move_velocity, Inputs.vector, hvalue.rows hkind, hhosts.velocity]
  rfl

theorem motion_accelerationCode {value : Parameter (Vec3 α)}
    (hcode : Leads (accelerationCode n.info) c p c') (hhosts : c'.Hosts P)
    (hhelper : m .vertexConstant P.helper = .helper) :
    P.motion (Program.run F p m) =
      (Behavior.acceleration value).move F c'.features (c'.inputs m n) (P.motion m) := by
  obtain ⟨r, hr, shared, way, rest, speed, hshared, hfree, hspeed, rfl⟩ :=
    leads_accelerationCode.mp hcode
  obtain rfl := hhosts.shared_eq hshared
  obtain ⟨hvalue, hkind⟩ := remembers_parameter hr
  have hspeed : if P.velocity then ∃ doubled, P.Apart [way, doubled] ∧ speed =
      speedProgram P.shared (.temporary P.temporary) (.temporary way) (.temporary doubled)
      else speed = [] := by
    obtain ⟨-, hspeed⟩ := leads_speedCode.mp hspeed
    rw [Layout.velocity_shared] at hspeed
    cases hvelocity : P.velocity with
    | false =>
      rw [hvelocity] at hspeed
      exact hspeed
    | true =>
      rw [hvelocity] at hspeed
      obtain ⟨doubled, rest', hfree', rfl⟩ := hspeed
      rw [free_claiming_head hfree] at hfree'
      subst hfree'
      exact ⟨doubled, hhosts.apart.of_free [way, doubled] hfree, rfl⟩
  rw [motion_accelerationProgram (hhosts.apart.of_free [way] hfree) hspeed hhelper,
    move_acceleration, Inputs.vector, hvalue.rows hkind, hhosts.velocity]
  rfl

/-! ### The vertex -/

theorem motion_scaleCode {curve : ScaleCurve} {value : Parameter (Vec4 α)}
    (hcode : Leads (scaleCode curve n.info) c p c') (hhosts : c'.Hosts P)
    (hparameter : n.parameterKind ≠ .vertexTemporary) :
    P.motion (Program.run F p m) =
      (Behavior.scale curve value).move F c'.features (c'.inputs m n) (P.motion m) := by
  obtain ⟨r, hr, shared, factor, rest, hshared, hfree, rfl⟩ := leads_scaleCode.mp hcode
  obtain rfl := hhosts.shared_eq hshared
  obtain ⟨hvalue, hkind⟩ := remembers_parameter hr
  rw [motion_scaleProgram curve (hhosts.apart.of_free [factor] hfree) (hkind ▸ hparameter)]
  simp [move, deform, way, speed, clock, age, hvalue.rows hkind]

theorem motion_rotationalVelocityCode {value : Parameter (Vec4 α)}
    (hcode : Leads (rotationalVelocityCode n.info) c p c') (hhosts : c'.Hosts P)
    (hparameter : n.parameterKind ≠ .vertexTemporary)
    (hhelper : m .vertexConstant P.helper = .helper) :
    P.motion (Program.run F p m) =
      (Behavior.rotationalVelocity value).move F c'.features (c'.inputs m n) (P.motion m) := by
  obtain ⟨r, hr, shared, angle, cross, parallel, rest, hshared, hfree, rfl⟩ :=
    leads_rotationalVelocityCode.mp hcode
  obtain rfl := hhosts.shared_eq hshared
  obtain ⟨hvalue, hkind⟩ := remembers_parameter hr
  rw [motion_rotationalVelocityProgram (hhosts.apart.of_free [angle, cross, parallel] hfree)
    (hkind ▸ hparameter) hhelper]
  simp [move, deform, way, speed, clock, age, Inputs.vector, hvalue.rows hkind]

theorem motion_headingCode (hcode : Leads (headingCode n.info) c p c') (hgrows : c.Grows c' d)
    (hhosts : c'.Hosts P) (hparameter : n.parameterKind = .vertexConstant)
    (hhelper : m .vertexConstant P.helper = .helper) :
    P.motion (Program.run F p m) =
      (Behavior.rotateToHeading : Behavior α).move F c'.features (c'.inputs m n) (P.motion m) := by
  obtain ⟨shared, total, hshared, htotal, hheading⟩ := leads_headingCode.mp hcode
  obtain rfl := hhosts.shared_eq (hgrows.shared?.trans hshared)
  rw [Layout.velocity_shared] at htotal
  obtain ⟨hvelocity, rfl⟩ : P.velocity = true ∧ Register.temporary P.temporary = total := by
    simpa using htotal
  rw [← hgrows.features] at hheading
  cases hbillboard : c'.features.billboard with
  | true =>
    rw [hbillboard, if_pos rfl] at hheading
    obtain ⟨matrix, hmatrix, heading, temp, rest, hfree, rfl⟩ := hheading
    obtain ⟨hvalue, hkind⟩ := remembers_claimConstants hmatrix
    have hrows := hvalue.rows (hkind.trans hparameter.symm) m
    rw [motion_screenHeadingProgram (hhosts.apart.of_free [heading, temp] hfree) hvelocity
      hvalue.whole hhelper]
    simp [move, deform, way, speed, clock, age, Inputs.matrix, hrows, hbillboard]
  | false =>
    rw [hbillboard, if_neg Bool.false_ne_true] at hheading
    obtain ⟨heading, side, up, sum, temp, rest, rfl, hfree, rfl⟩ := hheading
    rw [motion_spaceHeadingProgram (hhosts.apart.of_free [heading, side, up, sum, temp] hfree)
      hvelocity hhelper]
    simp [move, deform, way, speed, clock, age, hbillboard]

theorem motion_billboardCode {axis : Option (Vec3 α)}
    (hcode : Leads (billboardCode n.info) c p c') (hhosts : c'.Hosts P)
    (hparameter : n.parameterKind = .vertexConstant) :
    P.motion (Program.run F p m) =
      (Behavior.billboard axis).move F c'.features (c'.inputs m n) (P.motion m) := by
  obtain ⟨matrix, hmatrix, shared, temp, rest, hshared, hfree, rfl⟩ := leads_billboardCode.mp hcode
  obtain rfl := hhosts.shared_eq hshared
  obtain ⟨hvalue, hkind⟩ := remembers_claimConstants hmatrix
  have hrows := hvalue.rows (hkind.trans hparameter.symm) m
  rw [motion_billboardProgram (hhosts.apart.of_free [temp] hfree) hvalue.whole]
  simp [move, deform, way, speed, clock, age, Inputs.matrix, hrows]

theorem motion_followCode (hcode : Leads (followCode n.info) c p c') (hhosts : c'.Hosts P)
    (hparameter : n.parameterKind = .vertexAttribute) :
    P.motion (Program.run F p m) =
      (Behavior.follow : Behavior α).move F c'.features (c'.inputs m n) (P.motion m) := by
  obtain ⟨r, hr, shared, hshared, rfl⟩ := leads_followCode.mp hcode
  obtain rfl := hhosts.shared_eq hshared
  obtain ⟨hvalue, hkind⟩ := remembers_bindStream hr
  have hrows := hvalue.rows (hkind.trans hparameter.symm) m
  rw [motion_followProgram (hhosts.apart.of_free [] rfl)]
  simp [move, deform, way, speed, clock, age, Inputs.vector, hrows]

/-! ### Colors -/

theorem beside_blends {cycle : Option (Cycle α)} {temp : Nat} {blend : Register} {wave : Program}
    (hblends : Blends cycle n.info P.shared c temp blend wave c') (hapart : P.Apart c.free) :
    P.Beside wave := by
  cases cycle with
  | none =>
    obtain ⟨-, -, -, rfl⟩ := hblends
    exact Layout.beside_nil
  | some cycle =>
    obtain ⟨speed, index, rest, -, hfree, rfl, rfl⟩ := hblends
    have hapart' := hapart.of_free [temp, index] hfree
    exact beside_waveProgram cycle (hapart'.mono (by simp) (List.nodup_singleton index))

theorem beside_colorPart {wanted : Bool} {accumulator : ColorRegisters → Option Register}
    {startSlot deltaSlot start temp : Nat} {blend : Register}
    {join : Operand → Operand → Operand → Statement}
    (hjoin : join = Statement.mul ∨ join = Statement.add)
    (hcode : Leads (codeIf wanted (colorPartCode n.info accumulator startSlot deltaSlot start
      (.temporary temp) blend join)) c p c')
    (htemp : P.Apart [temp])
    (haccumulator : ∀ r ∈ accumulator c.color, ∃ i, r = .temporary i ∧ P.Apart [i]) :
    P.Beside p := by
  rcases written_or_skipped hcode with hpart | ⟨rfl, -⟩
  · obtain ⟨target, first, c₁, delta, htarget, -, -, rfl⟩ := leads_colorPartCode.mp hpart
    obtain ⟨i, rfl, hi⟩ := haccumulator target htarget
    exact beside_colorPartProgram hjoin htemp hi
  · exact Layout.beside_nil

theorem beside_colorCode {animation : ColorAnimation α}
    (hcode : Leads (colorCode animation n.info) c p c') (hhosts : c.Hosts P) : P.Beside p := by
  rw [leads_colorCode] at hcode
  split at hcode
  · obtain ⟨shared, temp, blend, wave, c₁, parts, hshared, hblends, hparts, rfl⟩ := hcode
    obtain rfl := hhosts.shared_eq hshared
    obtain ⟨rest, hfree⟩ := hblends.free
    have htemp := hhosts.apart.of_free [temp] hfree
    obtain ⟨_, hbefore⟩ := grows_blends hblends
    obtain ⟨multiplier, c₂, offset, hmultiplier, hoffset, rfl⟩ := leads_colorPartsCode.mp hparts
    obtain ⟨_, hbetween⟩ := grows_colorPart hmultiplier
    have hhosts₂ := (hhosts.grows hbefore).grows hbetween
    refine Layout.beside_append (beside_blends hblends hhosts.apart) (Layout.beside_append ?_ ?_)
    · exact beside_colorPart (.inl rfl) hmultiplier htemp (hhosts.grows hbefore).color.multiplier
    · exact beside_colorPart (.inr rfl) hoffset htemp hhosts₂.color.offset
  · obtain ⟨rfl, -⟩ := hcode
    exact Layout.beside_nil

end Behavior

namespace Node

open Behavior

variable [Field K] [LinearOrder K] [FloorRing K] {F : Functions K} {m : Machine K} {P : Layout}
  {c c' : Compilation α} {n : Node α} {p : Program} {d : Demand}

/-- Code that turns the particle begins with reading the accumulated velocity. -/
theorem reads_vertexCode (hheading : n.behavior = .rotateToHeading)
    (hcode : Leads n.vertexCode c p c') (hhosts : c.Hosts P) : P.velocity = true ∧
      ∃ i rest, p = .instruction i :: rest ∧ (Register.temporary P.temporary).xyz ∈ i.reads := by
  unfold Node.vertexCode at hcode
  rw [hheading] at hcode
  obtain ⟨shared, total, hshared, htotal, hcode⟩ := leads_headingCode.mp hcode
  obtain rfl := hhosts.shared_eq hshared
  obtain ⟨hvelocity, rfl⟩ : P.velocity = true ∧ Register.temporary P.temporary = total := by
    simpa using htotal
  refine ⟨hvelocity, ?_⟩
  split at hcode
  · obtain ⟨matrix, -, heading, temp, rest, -, rfl⟩ := hcode
    exact ⟨_, _, rfl, List.mem_cons_self⟩
  · obtain ⟨heading, side, up, sum, temp, rest, -, -, rfl⟩ := hcode
    exact ⟨_, _, rfl, List.mem_cons_self⟩

/-- **Code does what the node does**: behind the code of a catalogue node the registers hold
the motion that the behavior makes of the motion before it. -/
theorem motion_vertexCode (hcatalogue : n.behavior.IsCatalogue) (hcode : Leads n.vertexCode c p c')
    (hgrows : c.Grows c' d) (hhosts : c.Hosts P) (hhelper : m .vertexConstant P.helper = .helper) :
    P.motion (Program.run F p m) =
      n.behavior.move F c.features (c'.inputs m n) (P.motion m) := by
  have hlocal := hhosts.local_vertexCode hcatalogue hcode
  have hhosts' := hhosts.grows hgrows
  rw [← hgrows.features]
  have hparameter : n.parameterKind ≠ .vertexTemporary := by
    unfold parameterKind
    cases n.behavior.mode <;> exact Register.Kind.noConfusion
  have hstill : ∀ b : Behavior α, P.Beside p → (∀ i a, b.move F c'.features i a = a) →
      P.motion (Program.run F p m) = b.move F c'.features (c'.inputs m n) (P.motion m) :=
    fun b hbeside hb => (Layout.motion_of_beside hbeside).trans (hb _ _).symm
  unfold Node.vertexCode at hcode
  cases hbehavior : n.behavior <;> rw [hbehavior] at hcode
  case time lifecycle =>
    exact motion_timeCode hcode hlocal hhosts' (by rw [parameterKind, hbehavior]; rfl) hhelper
  case position value => exact motion_positionCode hcode hhosts'
  case velocity value => exact motion_velocityCode hcode hhosts' hparameter
  case acceleration value => exact motion_accelerationCode hcode hhosts' hhelper
  case scale curve value => exact motion_scaleCode hcode hhosts' hparameter
  case rotationalVelocity value =>
    exact motion_rotationalVelocityCode hcode hhosts' hparameter hhelper
  case rotateToHeading =>
    exact motion_headingCode hcode hgrows hhosts' (by rw [parameterKind, hbehavior]; rfl) hhelper
  case billboard axis =>
    exact motion_billboardCode hcode hhosts' (by rw [parameterKind, hbehavior]; rfl)
  case follow => exact motion_followCode hcode hhosts' (by rw [parameterKind, hbehavior]; rfl)
  case color animation =>
    exact hstill _ (beside_colorCode hcode hhosts) fun i a => move_color animation
  case custom node =>
    rw [hbehavior] at hcatalogue
    exact hcatalogue.elim
  case uv | spriteSheet =>
    obtain ⟨rfl, -⟩ := leads_result.mp hcode
    exact hstill _ Layout.beside_nil fun i a => by simp [move, deform, way, speed, clock, age]

end Node

end ParticleShader
