import ParticleShader.Proofs.NodeSet.Loops
import ParticleShader.Proofs.NodeSet.Places

/-!
# Particles are seen in their lives

The node that keeps time multiplies the vertex by factors, each of them one or null. A
particle is seen when all of them are one, and then the elapsed fraction of its life is not
negative and not greater than one: **`lives_spec`**. Of a particle with loops it is never
one, because a new loop has begun by then, or the pause. A single duration is closed at both
ends: the particle is still seen at the moment at which its life is over.
-/

namespace ParticleShader

open Compile Compilation Behavior

variable {α K : Type}

/-! ### The factors of a register -/

/-- A single component is read into all lanes. -/
@[simp] theorem Machine.xyz_read {m : Machine K} {r : Register} {k : Register.Component} :
    (m.read (r.select [k])).xyz = fun _ => m r.kind r.index k := by
  ext i
  fin_cases i <;> rfl

@[simp] theorem Register.select_inj {r r' : Register} {selection selection' : List Component} :
    r.select selection = r'.select selection' ↔
      r.kind = r'.kind ∧ r.index = r'.index ∧ selection = selection' := by
  simp [select]

section

variable [Field K] [LinearOrder K] [FloorRing K]

/-- What a statement multiplies a register by, if it multiplies it. -/
def Statement.factor? (m : Machine K) (o : Operand) : Statement → Option (Fin 3 → K)
  | .instruction ⟨.mul, target, [a, b]⟩ =>
    if target = o ∧ a = o then some (m.read b).xyz else none
  | _ => none

/-- What a program multiplies a register by, one factor after the other. -/
def Program.factors (F : Functions K) (o : Operand) : Program → Machine K → List (Fin 3 → K)
  | [], _ => []
  | statement :: p, m => (statement.factor? m o).toList ++ factors F o p (statement.run F m)

namespace Program

variable {F : Functions K} {m : Machine K} {o t a b : Operand} {p q : Program}
  {operation : Operation}

@[simp] theorem factors_nil : factors F o [] m = [] := rfl

@[simp] theorem factors_append :
    (p ++ q).factors F o m = p.factors F o m ++ q.factors F o (p.run F m) := by
  induction p generalizing m with
  | nil => rfl
  | cons statement p ih =>
    show _ ++ factors F o (p ++ q) _ = (_ ++ factors F o p _) ++ _
    rw [ih, List.append_assoc]
    rfl

@[simp] theorem factors_unary : factors F o (.unary operation t a :: p) m =
    factors F o p (run F [.unary operation t a] m) := by
  cases operation <;> rfl

@[simp] theorem factors_mul : factors F o (.binary .mul t a b :: p) m =
    (if t = o ∧ a = o then [(m.read b).xyz] else []) ++
      factors F o p (run F [.binary .mul t a b] m) := by
  show (if t = o ∧ a = o then some (m.read b).xyz else none).toList ++ _ = _
  split <;> rfl

@[simp] theorem factors_binary (h : operation ≠ .mul) :
    factors F o (.binary operation t a b :: p) m =
      factors F o p (run F [.binary operation t a b] m) := by
  cases operation <;> first | rfl | exact absurd rfl h

end Program

/-! ### What the vertex is multiplied by -/

namespace Lifecycle

/-- What the vertex is multiplied by: at the start, and at the end of a single duration or in
the pause of a loop. -/
def factors (l : Lifecycle) (stream : Value K) (since : K) : List K :=
  (if 0 ≤ since then 1 else 0) ::
    if l.usesDuration && (!l.usesLooping || l.usesDelay) then [l.ending stream since] else []

theorem prod_factors (l : Lifecycle) (stream : Value K) (since : K) :
    (l.factors stream since).prod = l.presence stream since := by
  unfold factors presence ending
  cases l.usesDuration <;> cases l.usesLooping <;> cases l.usesDelay <;> simp

end Lifecycle

namespace Behavior

variable {F : Functions K} {m : Machine K} {P : Layout} {c c' : Compilation α} {n : Node α}
  {p : Program} {l : Lifecycle} {stream now : Register} {started factor : Nat}

theorem factors_startProgram (hnow : now.component = none)
    (hhelper : m .vertexConstant P.helper = .helper) :
    (startProgram P.shared stream now (Register.temporary started).x).factors F
      P.shared.vertex.xyz m = [fun _ => if 0 ≤ m now.kind now.index
        (if P.velocity then .w else .x) - m stream.kind stream.index .x then 1 else 0] := by
  cases hvelocity : P.velocity <;>
    simp [startProgram, Register.operand_of_whole hnow, hhelper, Value.helper, hvelocity]

theorem factors_endingProgram (hduration : l.usesDuration = true) (hapart : P.Apart [factor])
    (hstream : stream.kind ≠ .vertexTemporary) :
    (endingProgram l P.shared stream (Register.temporary factor).x).factors F
      P.shared.vertex.xyz m =
      if !l.usesLooping || l.usesDelay then
        [fun _ => l.ending (m stream.kind stream.index) (P.motion m).time] else [] := by
  have hdistinct := hapart.places
  simp only [Distinct, List.pairwise_cons, List.forall_mem_cons] at hdistinct
  cases hlooping : l.usesLooping <;> cases hdelay : l.usesDelay <;>
    cases hvelocity : P.velocity <;>
    simp [endingProgram, Lifecycle.ending, Lifecycle.clock, Layout.motion, Register.xyz,
      hduration, hlooping, hdelay, hvelocity, hdistinct, hstream]

theorem factors_endingCode (hcode : Leads (endingCode l P.shared stream) c p c')
    (hapart : P.Apart c.free) (hstream : stream.kind ≠ .vertexTemporary) :
    p.factors F P.shared.vertex.xyz m =
      if l.usesDuration && (!l.usesLooping || l.usesDelay) then
        [fun _ => l.ending (m stream.kind stream.index) (P.motion m).time] else [] := by
  obtain ⟨-, hending⟩ := leads_endingCode.mp hcode
  cases hduration : l.usesDuration with
  | true =>
    rw [hduration, if_pos rfl] at hending
    obtain ⟨factor, rest, hfree, rfl⟩ := hending
    exact factors_endingProgram hduration (hapart.of_free [factor] hfree) hstream
  | false =>
    rw [hduration, if_neg Bool.false_ne_true] at hending
    subst hending
    rfl

theorem factors_lifeProgram :
    (lifeProgram P.shared stream).factors F P.shared.vertex.xyz m = [] := by
  cases hvelocity : P.velocity <;> simp [lifeProgram, Register.xyz, hvelocity]

/-- **The factors of the vertex**: the code of the node that keeps time multiplies the vertex by
what its lifecycle says, and by nothing else. -/
theorem factors_timeCode (hcode : Leads (timeCode l n.info) c p c') (hlocal : p.Local)
    (hhosts : c'.Hosts P) (hkind : n.parameterKind = .vertexAttribute)
    (hhelper : m .vertexConstant P.helper = .helper) :
    p.factors F P.shared.vertex.xyz m =
      (l.factors ((c'.inputs m n).rows 0) ((c'.inputs m n).since P.velocity)).map
        (fun factor _ => factor) := by
  obtain ⟨stream, c₁, now, hstream, hnow, shared, started, rest, ending, hshared, hfree, hending,
    rfl⟩ := leads_timeCode.mp hcode
  obtain rfl := hhosts.shared_eq hshared
  obtain ⟨⟨hstart, hlater⟩, -⟩ := by simpa only [Program.local_append] using hlocal
  obtain ⟨hvalue, hattribute⟩ := remembers_bindStream hstream
  obtain ⟨hclock, hconstant⟩ := remembers_claimConstants hnow
  have hvalue' := (hvalue.claimConstants hnow (by decide)).rows (hattribute.trans hkind.symm) m 0
  have hclock' := hclock.now hconstant m
  have hstream : stream.kind ≠ .vertexTemporary := by
    rw [hattribute]
    exact Register.Kind.noConfusion
  rw [Nat.add_zero] at hvalue'
  rw [Program.factors_append, Program.factors_append, factors_lifeProgram, List.append_nil,
    factors_startProgram hclock.whole hhelper,
    factors_endingCode hending (hhosts.apart.claiming started) hstream,
    motion_startProgram (hhosts.apart.of_free [started] hfree) hclock.whole hhelper,
    Program.run_of_local hstart hstream]
  unfold Lifecycle.factors Inputs.since
  rw [hvalue', hclock', List.map_cons, apply_ite (List.map _)]
  rfl

end Behavior

end

/-! ### The life of a particle -/

namespace Lifecycle

variable {l : Lifecycle} {p : Particle Rat} {life : Vec4 Rat}

/-- The vertex is left alone behind the start and before the end. -/
theorem forall_factors (stream : Value Rat) (since : Rat) :
    (∀ f ∈ l.factors stream since, f = 1) ↔ 0 ≤ since ∧ l.ending stream since = 1 := by
  unfold factors ending
  cases l.usesDuration <;> cases l.usesLooping <;> cases l.usesDelay <;> simp

/-- The end of a particle that has a life. -/
theorem ending_life (hduration : l.usesDuration = true) (h : lifeValues p = .ok life)
    (since : Rat) : l.ending life.value since = 1 ↔
      if l.usesLooping then l.clock life.value since < p.duration
      else l.clock life.value since ≤ p.duration := by
  obtain ⟨hpositive, hlife⟩ := lifeValues_eq_ok.mp h
  have hstream : life.value .y = p.duration := by rw [hlife]; rfl
  cases hlooping : l.usesLooping with
  | false => simp [ending, clock, hduration, hlooping, hstream]
  | true =>
    cases hdelay : l.usesDelay with
    | true => simp [ending, hduration, hlooping, hdelay, hstream]
    | false =>
      have hlast : l.clock life.value since < p.duration := by
        rw [clock_life h]
        simp only [loops, pause, hduration, hlooping, hdelay, Bool.and_self, if_pos,
          Bool.false_eq_true, if_false, add_zero]
        exact mul_lt_of_lt_one_left hpositive (Int.fract_lt_one _)
      simp [ending, hduration, hlooping, hdelay, hlast]

/-- Behind the start the clock does not go backwards. -/
theorem clock_nonneg (h : lifeValues p = .ok life) (hdelay : 0 ≤ p.delay) {since : Rat}
    (hsince : 0 ≤ since) : 0 ≤ l.clock life.value since := by
  obtain ⟨hpositive, -⟩ := lifeValues_eq_ok.mp h
  have hpause := pause_nonneg (l := l) hdelay
  rw [clock_life h]
  split
  · exact mul_nonneg (Int.fract_nonneg _) (by linarith)
  · exact hsince

end Lifecycle

/-- What the code of the node that keeps time makes of a particle: what the vertex is multiplied
by, the time and the life. The particle is seen if nothing but one is among the factors. -/
structure Lives (l : Lifecycle) (p : Particle Rat) (now : Rat) (factors : List (Fin 3 → Rat))
    (time life : Rat) : Prop where
  /-- The life is the part of the duration that has gone by. -/
  time : time = life * p.duration
  /-- The particle is seen from its start on, in loops before its life is over and in a single
  duration until then. -/
  seen : (∀ f ∈ factors, f = 1) ↔
    p.startTime ≤ now ∧ if l.usesLooping then life < 1 else life ≤ 1
  /-- When it is seen its life is below one, but for the end of a single duration. -/
  inside : (∀ f ∈ factors, f = 1) → 0 ≤ life ∧
    (life < 1 ∨ life = 1 ∧ l.usesLooping = false ∧ now = p.startTime + p.duration)
  /-- At the end of a single duration the life is one and the particle is seen. -/
  last : l.usesLooping = false → now = p.startTime + p.duration →
    life = 1 ∧ ∀ f ∈ factors, f = 1

theorem lives_of_clock {l : Lifecycle} {p : Particle Rat} {now : Rat} {life : Vec4 Rat}
    {factors : List (Fin 3 → Rat)} (hduration : l.usesDuration = true)
    (h : lifeValues p = .ok life) (hdelay : 0 ≤ p.delay)
    (hfactors : factors = (l.factors life.value (now - life.x)).map fun factor _ => factor) :
    Lives l p now factors (l.clock life.value (now - life.x))
      (l.clock life.value (now - life.x) * life.w) := by
  obtain ⟨hpositive, hlife⟩ := Lifecycle.lifeValues_eq_ok.mp h
  have hstart : life.x = p.startTime := by rw [hlife]
  have hrate : life.w = 1 / p.duration := by rw [hlife]
  have hending := Lifecycle.ending_life hduration h (now - p.startTime)
  have hnonneg : p.startTime ≤ now → 0 ≤ l.clock life.value (now - p.startTime) := fun hnow =>
    Lifecycle.clock_nonneg h hdelay (sub_nonneg.mpr hnow)
  have hsingle : l.usesLooping = false →
      l.clock life.value (now - p.startTime) = now - p.startTime := by
    intro hlooping
    unfold Lifecycle.clock
    simp [hlooping]
  have hone : (∀ f ∈ factors, f = 1) ↔
      0 ≤ now - p.startTime ∧ l.ending life.value (now - p.startTime) = 1 := by
    rw [← Lifecycle.forall_factors, hfactors, hstart, List.forall_mem_map]
    exact forall₂_congr fun f _ => ⟨fun hf => congrFun hf 0, fun hf => by rw [hf]; rfl⟩
  rw [hstart, hrate]
  generalize l.clock life.value (now - p.startTime) = clock at hending hnonneg hsingle
  have hlt : clock * (1 / p.duration) < 1 ↔ clock < p.duration := by
    rw [mul_one_div, div_lt_one hpositive]
  have hle : clock * (1 / p.duration) ≤ 1 ↔ clock ≤ p.duration := by
    rw [mul_one_div, div_le_one hpositive]
  have heq : clock * (1 / p.duration) = 1 ↔ clock = p.duration := by
    rw [mul_one_div, div_eq_one_iff_eq hpositive.ne']
  have hseen : (∀ f ∈ factors, f = 1) ↔ p.startTime ≤ now ∧
      if l.usesLooping then clock * (1 / p.duration) < 1 else clock * (1 / p.duration) ≤ 1 := by
    rw [hone, hending, sub_nonneg, hlt, hle]
  refine ⟨?_, hseen, fun hall => ?_, fun hlooping hnow => ?_⟩
  · rw [mul_one_div, div_mul_cancel₀ clock hpositive.ne']
  · obtain ⟨hnow, hlives⟩ := hseen.mp hall
    refine ⟨mul_nonneg (hnonneg hnow) (one_div_nonneg.mpr hpositive.le), ?_⟩
    cases hlooping : l.usesLooping with
    | true => exact .inl (by simpa [hlooping] using hlives)
    | false =>
      rw [hlooping, if_neg Bool.false_ne_true] at hlives
      refine hlives.lt_or_eq.imp_right fun hover => ⟨hover, rfl, ?_⟩
      have hclock := (hsingle hlooping).symm.trans (heq.mp hover)
      linarith
  · have hover : clock = p.duration := by
      rw [hsingle hlooping, hnow]
      ring
    refine ⟨heq.mpr hover, hseen.mpr ⟨by linarith, ?_⟩⟩
    rw [hlooping, if_neg Bool.false_ne_true]
    exact (heq.mpr hover).le

/-- The code of the node that keeps time, on registers that hold the life of a particle. -/
theorem lives_timeCode {l : Lifecycle} {n : Node α} {c c' : Compilation α} {p : Program}
    {P : Layout} {F : Functions Rat} {m : Machine Rat} {particle : Particle Rat} {life : Vec4 Rat}
    {now : Rat} (hcode : Leads (timeCode l n.info) c p c') (hlocal : p.Local) (hhosts : c'.Hosts P)
    (hkind : n.parameterKind = .vertexAttribute) (hhelper : m .vertexConstant P.helper = .helper)
    (hduration : l.usesDuration = true) (hlife : lifeValues particle = .ok life)
    (hdelay : 0 ≤ particle.delay) (hrow : (c'.inputs m n).rows 0 = life.value)
    (hnow : (c'.inputs m n).now = fun _ => now) :
    (P.motion (p.run F m)).vertex =
        (p.factors F P.shared.vertex.xyz m).prod * (P.motion m).vertex ∧
      Lives l particle now (p.factors F P.shared.vertex.xyz m) (P.motion (p.run F m)).time
        (P.motion (p.run F m)).life := by
  have hsince : ∀ velocity, (c'.inputs m n).since velocity = now - life.x := by
    intro velocity
    unfold Inputs.since
    rw [hrow, hnow]
    rfl
  have hfactors := factors_timeCode (F := F) hcode hlocal hhosts hkind hhelper
  rw [hrow, hsince] at hfactors
  have hmove : P.motion (p.run F m) = { P.motion m with
      vertex := l.presence life.value (now - life.x) • (P.motion m).vertex
      time := l.clock life.value (now - life.x)
      life := l.clock life.value (now - life.x) * life.w } := by
    rw [motion_timeCode hcode hlocal hhosts hkind hhelper]
    simp [move, deform, way, speed, Behavior.clock, age, hsince, hrow, Vec4.value]
  rw [hmove]
  refine ⟨?_, lives_of_clock hduration hlife hdelay hfactors⟩
  have hprod := map_list_prod (Pi.constMonoidHom (Fin 3) Rat) (l.factors life.value (now - life.x))
  rw [hfactors, ← Lifecycle.prod_factors]
  exact congrArg (· * (P.motion m).vertex) hprod

namespace NodeSet

variable [Scalar α] {s : NodeSet α} {c c₁ : Compilation α} {pass : Pass} {profile : Profile}
  {sourceNames targetNames : List String} {sources targets : List Register} {p : Program}

/-- Where vertex code is written for a set in which particles last for a duration, to different
whole temporaries, the code of the node that keeps time shows every particle in its life. -/
theorem Built.exists_lives (h : s.Built) (hne : s.nodes ≠ [])
    (hduration : s.settings.lifecycle.usesDuration = true)
    (hsources : sourceNames.mapM Register.ofName = .ok sources)
    (htargets : targetNames.mapM Register.ofName = .ok targets)
    (hwhole : ∀ r ∈ targets, ∃ i, r = .temporary i) (hnodup : targets.Nodup)
    (hcode : Leads (s.vertexCode pass profile sourceNames targetNames) c p c₁) :
    ∃ (shared : SharedRegisters) (code behind : Program),
      p = initProgram shared sources targets ++ code ++ behind ∧ c₁.shared = some shared ∧
      (∃ d d', Leads (timeNode s.settings.lifecycle : Node α).vertexCode d code d') ∧
      ∀ (particle : Particle Rat) (now : Rat) (life : Vec4 Rat), lifeValues particle = .ok life →
        0 ≤ particle.delay → ∀ (F : Functions Rat) (m : Machine Rat), Clocked pass c₁ m now life →
          let before := (initProgram shared sources targets).run F m
          let after := code.run F before
          let factors := code.factors F shared.vertex.xyz before
          (after.read shared.vertex.xyz).xyz =
              factors.prod * (before.read shared.vertex.xyz).xyz ∧
            Lives s.settings.lifecycle particle now factors (after.read shared.time .x)
              (after.read shared.life .x) := by
  obtain ⟨P, code, behind, d, d', hp, hshared, hhelper, htargeted, hapart, htime, hlocal, hhosts,
    hinputs⟩ := h.exists_timeCode hne hsources htargets hwhole hnodup hcode
  refine ⟨P.shared, code, behind, hp, hshared, ⟨d, d', htime⟩,
    fun particle now life hlife hdelay F m hclocked => ?_⟩
  have hstart : (initProgram P.shared sources targets).Local := by
    rw [htargeted]
    exact local_initProgram sources hapart
  have hkept : Program.run F (initProgram P.shared sources targets) m .vertexConstant P.helper =
      .helper := by
    rw [Program.run_of_local hstart Register.Kind.noConfusion, hhelper, hclocked.helper]
  obtain ⟨hrow, hnow⟩ := h.inputs_timeNode hne hcode hclocked
  rw [hinputs, ← inputs_run (F := F) hstart] at hrow hnow
  simp only [Layout.read_vertex]
  exact lives_timeCode htime hlocal hhosts rfl hkept hduration hlife hdelay hrow hnow

/-- **A particle is seen in its life**: let vertex code be written for a built set in which
particles last for a duration, to different whole temporaries. Behind the beginning stands the
code of the node that keeps time. A particle that lives for some time, and of which the pause is
not negative, has a life, and on every machine that is loaded with it and with any frame time
this code multiplies the vertex by its factors and leaves a time and a life. If all factors are
one, the life is not negative and below one, but for the end of a single duration: there the
particle is seen as well, and the life is one. -/
theorem Built.lives_spec (h : s.Built) (hne : s.nodes ≠ [])
    (hduration : s.settings.lifecycle.usesDuration = true)
    (hsources : sourceNames.mapM Register.ofName = .ok sources)
    (htargets : targetNames.mapM Register.ofName = .ok targets)
    (hwhole : ∀ r ∈ targets, ∃ i, r = .temporary i) (hnodup : targets.Nodup)
    (hcode : Leads (s.vertexCode pass profile sourceNames targetNames) c p c₁) :
    ∃ (shared : SharedRegisters) (code behind : Program),
      p = initProgram shared sources targets ++ code ++ behind ∧ c₁.shared = some shared ∧
      (∃ d d', Leads (timeNode s.settings.lifecycle : Node α).vertexCode d code d') ∧
      ∀ (particle : Particle Rat) (now : Rat), 0 < particle.duration → 0 ≤ particle.delay →
        ∃ life, lifeValues particle = .ok life ∧
        ∀ (F : Functions Rat) (m : Machine Rat), Clocked pass c₁ m now life →
          let before := (initProgram shared sources targets).run F m
          let after := code.run F before
          let factors := code.factors F shared.vertex.xyz before
          (after.read shared.vertex.xyz).xyz =
              factors.prod * (before.read shared.vertex.xyz).xyz ∧
            Lives s.settings.lifecycle particle now factors (after.read shared.time .x)
              (after.read shared.life .x) := by
  obtain ⟨shared, code, behind, hp, hshared, hemitted, hlives⟩ :=
    h.exists_lives hne hduration hsources htargets hwhole hnodup hcode
  refine ⟨shared, code, behind, hp, hshared, hemitted, fun particle now hpositive hdelay => ?_⟩
  have hlife := Lifecycle.lifeValues_eq_ok.mpr ⟨hpositive, rfl⟩
  exact ⟨_, hlife, hlives particle now _ hlife hdelay⟩

/-- Particles that live once, and follow. -/
def fleeting : NodeSet Rat where
  settings := { lifecycle := { usesDuration := true } }
  nodes := [timeNode { usesDuration := true }, { behavior := .follow, id := 1 }]
  stride := 4
  dynamicStride := 3

theorem built_fleeting : fleeting.Built :=
  .add (b := .follow) (.empty { usesDuration := true }) (by exact trivial) rfl

/-- A machine that holds the life of two seconds in every attribute, when they are over. -/
def lastMachine : Machine Rat := fun kind index =>
  if kind = .vertexConstant then if index = 0 then .helper else fun _ => 2 else pausingLife.value

theorem exists_clocked_fleeting : ∃ p c₁,
    Leads (fleeting.vertexCode {} .baseline ["va0"] ["vt0"]) { profile := .standard } p c₁ ∧
    Clocked {} c₁ lastMachine 2 pausingLife := by
  have hboth : succeeds (do
      let p ← fleeting.vertexCode {} .baseline ["va0"] ["vt0"]
      if (← get).index? timeId Slot.frameTime = some 1 then return p else throw .notCompiled)
      { profile := .standard } = true := by
    decide +kernel
  obtain ⟨_, _, hcode⟩ := exists_leads hboth
  obtain ⟨p, c₁, hcode, hindex⟩ := leads_bind.mp hcode
  rw [leads_get_bind, leads_ite] at hindex
  split at hindex
  · rename_i hrow
    refine ⟨p, c₁, hcode, rfl, fun index h => ?_, fun index _ => rfl⟩
    obtain rfl : 1 = index := Option.some.inj (hrow.symm.trans h)
    rfl
  · exact absurd hindex leads_throw.mp

/-- After its two seconds the particle is seen for the last time, and its life is one. -/
theorem fleeting_lives : ∃ p c₁ shared code behind,
    Leads (fleeting.vertexCode {} .baseline ["va0"] ["vt0"]) { profile := .standard } p c₁ ∧
    p = initProgram shared [{ kind := .vertexAttribute, index := 0 }] [.temporary 0] ++ code ++
      behind ∧
    lifeValues pausing = .ok pausingLife ∧ Clocked {} c₁ lastMachine 2 pausingLife ∧
    let before := (initProgram shared [{ kind := .vertexAttribute, index := 0 }]
      [.temporary 0]).run ⟨id, id, id⟩ lastMachine
    let after := code.run ⟨id, id, id⟩ before
    let factors := code.factors ⟨id, id, id⟩ shared.vertex.xyz before
    Lives fleeting.settings.lifecycle pausing 2 factors (after.read shared.time .x)
        (after.read shared.life .x) ∧
      after.read shared.life .x = 1 ∧ ∀ factor ∈ factors, factor = 1 := by
  have hsources : ["va0"].mapM Register.ofName = .ok [{ kind := .vertexAttribute, index := 0 }] :=
    rfl
  have htargets : ["vt0"].mapM Register.ofName = .ok [.temporary 0] := rfl
  obtain ⟨p, c₁, hcode, hclocked⟩ := exists_clocked_fleeting
  obtain ⟨shared, code, behind, hp, -, -, hspec⟩ := built_fleeting.lives_spec
    (List.cons_ne_nil _ _) rfl hsources htargets (List.forall_mem_singleton.mpr ⟨0, rfl⟩)
    (List.nodup_singleton _) hcode
  obtain ⟨life, hlife, hlives⟩ := hspec pausing 2 (by decide +kernel) (by decide +kernel)
  obtain rfl : pausingLife = life := Except.ok.inj (lifeValues_pausing.symm.trans hlife)
  obtain ⟨-, hlived⟩ := hlives ⟨id, id, id⟩ lastMachine hclocked
  exact ⟨p, c₁, shared, code, behind, hcode, hp, hlife, hclocked, hlived,
    hlived.last rfl (by decide +kernel)⟩

/-- So not every particle that is seen has a life below one. -/
theorem fleeting_outlives : fleeting.Built ∧ fleeting.settings.lifecycle.usesDuration = true ∧
    ∃ p c₁ shared code behind,
      Leads (fleeting.vertexCode {} .baseline ["va0"] ["vt0"]) { profile := .standard } p c₁ ∧
      p = initProgram shared [{ kind := .vertexAttribute, index := 0 }] [.temporary 0] ++ code ++
        behind ∧
      0 < pausing.duration ∧ 0 ≤ pausing.delay ∧ lifeValues pausing = .ok pausingLife ∧
      Clocked {} c₁ lastMachine 2 pausingLife ∧
      let before := (initProgram shared [{ kind := .vertexAttribute, index := 0 }]
        [.temporary 0]).run ⟨id, id, id⟩ lastMachine
      (∀ factor ∈ code.factors ⟨id, id, id⟩ shared.vertex.xyz before, factor = 1) ∧
        ¬ (code.run ⟨id, id, id⟩ before).read shared.life .x < 1 := by
  have hsources : ["va0"].mapM Register.ofName = .ok [{ kind := .vertexAttribute, index := 0 }] :=
    rfl
  have htargets : ["vt0"].mapM Register.ofName = .ok [.temporary 0] := rfl
  have hduration : 0 < pausing.duration := by decide +kernel
  have hdelay : 0 ≤ pausing.delay := by decide +kernel
  obtain ⟨p, c₁, hcode, hclocked⟩ := exists_clocked_fleeting
  obtain ⟨shared, code, behind, hp, -, -, hlives⟩ := built_fleeting.exists_lives
    (List.cons_ne_nil _ _) rfl hsources htargets (List.forall_mem_singleton.mpr ⟨0, rfl⟩)
    (List.nodup_singleton _) hcode
  obtain ⟨-, hlived⟩ :=
    hlives pausing 2 pausingLife lifeValues_pausing hdelay ⟨id, id, id⟩ lastMachine hclocked
  obtain ⟨hover, hseen⟩ := hlived.last rfl (by decide +kernel)
  refine ⟨built_fleeting, rfl, p, c₁, shared, code, behind, hcode, hp, hduration, hdelay,
    lifeValues_pausing, hclocked, hseen, ?_⟩
  exact not_lt.mpr hover.ge

end NodeSet

end ParticleShader
