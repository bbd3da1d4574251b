import ParticleShader.Animation
import ParticleShader.Proofs.NodeSet.Motion

/-!
# Loops on both sides

When a loop of a particle began is found in two ways. The vertex code of a set takes the
frame time modulo a period, which is the duration, or duration and pause where the set has
pauses. Whoever fills a stream for every frame asks `RunRecord.emissionTime`, which always
counts the pause of the particle. So the two agree exactly on what a lifecycle loops by:
**`loops_spec`**. In a set without pauses they part at the end of the first loop, if the
particle has a pause.
-/

namespace ParticleShader

open Compile Compilation Behavior

variable {α K : Type}

/-- The four coordinates as the components of a register. -/
def Vec4.value (v : Vec4 K) : Value K
  | .x => v.x
  | .y => v.y
  | .z => v.z
  | .w => v.w

/-! ### The clock and the emission time -/

namespace Lifecycle

/-- Particles live again when they have lived. -/
def loops (l : Lifecycle) : Bool := l.usesDuration && l.usesLooping

/-- The pause that particles make between two loops. -/
def pause (l : Lifecycle) (delay : Rat) : Rat := if l.usesDelay then delay else 0

variable {l : Lifecycle} {p : Particle Rat} {life : Vec4 Rat}

/-- A particle that has a life lives for some time. -/
theorem lifeValues_eq_ok : lifeValues p = .ok life ↔ 0 < p.duration ∧
    life = ⟨p.startTime, p.duration, p.delay + p.duration, 1 / p.duration⟩ := by
  unfold lifeValues positive
  by_cases hpositive : p.duration ≤ (Scalar.zero : Rat)
  · have hnot : ¬ 0 < p.duration := not_lt.mpr hpositive
    rw [if_pos hpositive]
    simp [hnot, Bind.bind, Except.bind]
  · have hlt : 0 < p.duration := not_le.mp hpositive
    rw [if_neg hpositive]
    constructor
    · rintro ⟨⟩
      exact ⟨hlt, rfl⟩
    · rintro ⟨-, rfl⟩
      rfl

/-- The clock starts again after every duration and pause. -/
theorem clock_life (h : lifeValues p = .ok life) (since : Rat) :
    l.clock life.value since = if l.loops then
      Int.fract (since / (p.duration + l.pause p.delay)) * (p.duration + l.pause p.delay)
      else since := by
  obtain ⟨-, rfl⟩ := lifeValues_eq_ok.mp h
  unfold clock loops pause
  cases l.usesDuration <;> cases l.usesLooping <;> cases l.usesDelay <;>
    simp [Vec4.value, add_comm, div_eq_mul_inv]

end Lifecycle

namespace RunRecord

variable {r : RunRecord Rat} {now : Rat} {looping : Bool}

/-- Behind its start a particle left its emitter a whole number of periods after it. -/
theorem emissionTime_eq (hduration : 0 < r.duration) (hdelay : 0 ≤ r.delay)
    (hnow : r.startTime ≤ now) : r.emissionTime looping now =
      if looping then r.startTime +
        ⌊(now - r.startTime) / (r.duration + r.delay)⌋ * (r.duration + r.delay)
      else r.startTime := by
  have hperiod : ¬ r.duration + r.delay ≤ (Scalar.zero : Rat) := by
    show ¬ r.duration + r.delay ≤ 0
    linarith
  unfold emissionTime
  cases looping with
  | false => rfl
  | true =>
    by_cases hfirst : now ≤ r.startTime
    · obtain rfl : now = r.startTime := le_antisymm hfirst hnow
      simp
    · have hgo : ¬ ((!true) = true ∨ now ≤ r.startTime ∨ r.duration + r.delay ≤ Scalar.zero) := by
        simp [hfirst, hperiod]
      rw [if_pos rfl]
      exact if_neg hgo

end RunRecord

namespace Lifecycle

variable {l : Lifecycle} {p : Particle Rat} {life : Vec4 Rat} {now : Rat}

/-- A time less what of it is left over behind whole periods is a whole number of them. -/
theorem sub_fract_mul (time : Rat) {period : Rat} (hperiod : period ≠ 0) :
    time - Int.fract (time / period) * period = ⌊time / period⌋ * period := by
  have hwhole : time = time / period * period := (div_mul_cancel₀ time hperiod).symm
  calc time - Int.fract (time / period) * period
      = time / period * period - Int.fract (time / period) * period := by rw [← hwhole]
    _ = (time / period - Int.fract (time / period)) * period := (sub_mul ..).symm
    _ = ⌊time / period⌋ * period := by rw [Int.self_sub_fract]

theorem pause_nonneg {delay : Rat} (h : 0 ≤ delay) : 0 ≤ l.pause delay := by
  unfold pause
  split
  · exact h
  · exact le_refl 0

/-- By the clock a loop began when the particle, with the pause that it really makes, left
its emitter. -/
theorem sub_clock (run : Run) (partition : PartitionId) (h : lifeValues p = .ok life)
    (hdelay : 0 ≤ p.delay) (hnow : p.startTime ≤ now) :
    now - l.clock life.value (now - life.x) = ({ run.recordFor partition p with
      delay := l.pause p.delay } : RunRecord Rat).emissionTime l.loops now := by
  obtain ⟨hduration, hlife⟩ := lifeValues_eq_ok.mp h
  have hpause := pause_nonneg (l := l) hdelay
  have hperiod : p.duration + l.pause p.delay ≠ 0 := by linarith
  have hstart : life.x = p.startTime := by rw [hlife]
  rw [clock_life h, hstart, RunRecord.emissionTime_eq hduration hpause hnow]
  cases l.loops with
  | false => exact sub_sub_cancel now p.startTime
  | true =>
    have hloops := sub_fract_mul (now - p.startTime) hperiod
    show now - _ = p.startTime + _
    rw [if_pos rfl]
    show _ = p.startTime + ⌊(now - p.startTime) / (p.duration + l.pause p.delay)⌋ *
      (p.duration + l.pause p.delay)
    rw [← hloops]
    ring

end Lifecycle

namespace RunRecord

variable {l : Lifecycle} {r : RunRecord Rat} {now began : Rat}

/-- A pause that is made, or none at all, is counted right. -/
theorem emissionTime_pause (h : l.loops = false ∨ l.usesDelay = true ∨ r.delay = 0) :
    r.emissionTime l.loops now = { r with delay := l.pause r.delay }.emissionTime l.loops now := by
  rcases h with hloops | hpauses | hnone
  · rw [hloops]
    rfl
  · unfold Lifecycle.pause
    rw [hpauses]
    rfl
  · unfold Lifecycle.pause
    rw [hnone, ite_self, ← hnone]

/-- Before the first pause would end no loop is counted. -/
theorem emissionTime_of_lt (hduration : 0 < r.duration) (hdelay : 0 ≤ r.delay)
    (hnow : r.startTime ≤ now) (hfirst : now < r.startTime + r.duration + r.delay) :
    r.emissionTime true now = r.startTime := by
  have hperiod : 0 < r.duration + r.delay := by linarith
  have hzero : ⌊(now - r.startTime) / (r.duration + r.delay)⌋ = 0 := by
    rw [Int.floor_eq_zero_iff]
    exact ⟨div_nonneg (by linarith) hperiod.le, (div_lt_one hperiod).mpr (by linarith)⟩
  rw [emissionTime_eq hduration hdelay hnow, if_pos rfl, hzero]
  simp

/-- Behind a whole period a loop is counted. -/
theorem le_emissionTime (hduration : 0 < r.duration) (hdelay : 0 ≤ r.delay)
    (hsecond : r.startTime + (r.duration + r.delay) ≤ now) :
    r.startTime + (r.duration + r.delay) ≤ r.emissionTime true now := by
  have hperiod : 0 < r.duration + r.delay := by linarith
  have hone : (1 : Int) ≤ ⌊(now - r.startTime) / (r.duration + r.delay)⌋ := by
    rw [Int.le_floor, Int.cast_one, one_le_div hperiod]
    linarith
  have hcast : (1 : Rat) ≤ ⌊(now - r.startTime) / (r.duration + r.delay)⌋ := by exact_mod_cast hone
  have hmul := mul_le_mul_of_nonneg_right hcast hperiod.le
  rw [emissionTime_eq hduration hdelay (by linarith), if_pos rfl]
  linarith

/-- What a record says of the time at which the loop of a moment began by the clock. -/
structure Dates (l : Lifecycle) (r : RunRecord Rat) (now began : Rat) : Prop where
  /-- With the pause that is really made the record names that time. -/
  paused : began = { r with delay := l.pause r.delay }.emissionTime l.loops now
  /-- So it does by itself if there is no loop, if the pause is made, or if there is none. -/
  agrees : l.loops = false ∨ l.usesDelay = true ∨ r.delay = 0 →
    r.emissionTime l.loops now = began
  /-- In all other cases the second loop is missed while the pause would last. -/
  misses : l.loops = true → l.usesDelay = false → r.startTime + r.duration ≤ now →
    now < r.startTime + r.duration + r.delay →
    r.emissionTime l.loops now = r.startTime ∧ r.startTime + r.duration ≤ began

/-- A time that is right for the pause that is really made is dated as said. -/
theorem dates_of_eq (hduration : 0 < r.duration) (hdelay : 0 ≤ r.delay)
    (h : began = { r with delay := l.pause r.delay }.emissionTime l.loops now) :
    r.Dates l now began := by
  refine ⟨h, fun hsame => (emissionTime_pause hsame).trans h.symm,
    fun hloops hpauses hsecond hfirst => ?_⟩
  have hpause : l.pause r.delay = 0 := by
    unfold Lifecycle.pause
    rw [hpauses]
    rfl
  rw [hpause, hloops] at h
  rw [hloops, h]
  refine ⟨emissionTime_of_lt hduration hdelay (by linarith) hfirst, ?_⟩
  have hnext : r.startTime + (r.duration + 0) ≤ now := by rwa [add_zero]
  have hlater := le_emissionTime (r := { r with delay := 0 }) hduration (le_refl 0) hnext
  simp only [add_zero] at hlater
  exact hlater

end RunRecord

/-! ### The clock in the registers -/

namespace NodeSet

/-- The registers hold what the node that keeps time reads: null, one and two in the constant
behind those of the pass, the time of the frame, and the life of a particle. -/
structure Clocked [Field K] (pass : Pass) (c : Compilation α) (m : Machine K) (now : K)
    (life : Vec4 K) : Prop where
  /-- The constant that all nodes share. -/
  helper : m .vertexConstant pass.taken.vertexConstants = .helper
  /-- The time of the frame, in every component. -/
  now : ∀ index, c.index? timeId Slot.frameTime = some index →
    m .vertexConstant index = fun _ => now
  /-- The life of the particle. -/
  life : ∀ index, c.index? timeId Slot.value = some index → m .vertexAttribute index = life.value

section

variable [Scalar α] {s : NodeSet α} {c c₁ : Compilation α} {pass : Pass} {profile : Profile}
  {sourceNames targetNames : List String} {sources targets : List Register} {p : Program}
  {on : Features} {P : Layout} {q : Parts α} {n : Node α} {code : Program} {count : Nat}

/-- The node that keeps time has the first turn. -/
theorem Built.primary_eq (h : s.Built) (hne : s.nodes ≠ []) (ha : s.Assembled on c P q) :
    ∃ code rest, q.primary = (timeNode s.settings.lifecycle, code) :: rest := by
  obtain ⟨others, hnodes⟩ := h.nodes_eq hne
  have hprimary := ha.primary
  rw [hnodes] at hprimary
  cases hpieces : q.primary with
  | nil =>
    rw [hpieces] at hprimary
    cases hprimary
  | cons piece rest =>
    rw [hpieces] at hprimary
    obtain ⟨n, code⟩ := piece
    obtain rfl : n = timeNode s.settings.lifecycle := (List.cons.inj hprimary).1
    exact ⟨code, rest, rfl⟩

/-- A register is remembered for what the vertex code of a node needs. -/
theorem Built.remembers_need (h : s.Built)
    (hcode : Leads (s.vertexCode pass profile sourceNames targetNames) c p c₁) (hn : n ∈ s.nodes)
    (need : Need) (hneed : need ∈ n.behavior.vertexNeeds (s.featuresFor pass)) :
    ∃ index, c₁.index? n.id need.slot = some index := by
  obtain ⟨index, hindex⟩ := Ledger.exists_lookup_takeAll (l := .opened pass)
    (mem_vertexNeeds.mpr ⟨hn, hneed⟩)
  rw [← (h.compiled_vertexCode hcode).1.ledger] at hindex
  exact ⟨index, hindex⟩

variable [Field K]

/-- What the node that keeps time reads is what it is given. -/
theorem Built.inputs_timeNode (h : s.Built) (hne : s.nodes ≠ [])
    (hcode : Leads (s.vertexCode pass profile sourceNames targetNames) c p c₁) {m : Machine K}
    {now : K} {life : Vec4 K} (hclocked : Clocked pass c₁ m now life) :
    (c₁.inputs m (timeNode s.settings.lifecycle)).rows 0 = life.value ∧
      (c₁.inputs m (timeNode s.settings.lifecycle)).now = fun _ => now := by
  obtain ⟨others, hnodes⟩ := h.nodes_eq hne
  have hn : timeNode s.settings.lifecycle ∈ s.nodes := by
    rw [hnodes]
    exact List.mem_cons_self
  obtain ⟨stream, hstream⟩ := h.remembers_need hcode hn (.stream Slot.value 0 4)
    List.mem_cons_self
  obtain ⟨row, hrow⟩ := h.remembers_need hcode hn (.constants Slot.frameTime 1)
    (List.mem_cons_of_mem _ List.mem_cons_self)
  constructor
  · rw [← hclocked.life stream hstream]
    unfold inputs
    rw [show c₁.index? (timeNode s.settings.lifecycle).id Slot.value = some stream from hstream]
    rfl
  · rw [← hclocked.now row hrow]
    unfold inputs
    rw [show c₁.index? (timeNode s.settings.lifecycle).id Slot.frameTime = some row from hrow]
    rfl

variable [LinearOrder K] [FloorRing K]

omit [Scalar α] in
/-- Behind the code of the first node the register for time holds what that node makes of
it. -/
theorem Assembled.read_time {F : Functions K} {m : Machine K} {l : Lifecycle}
    {rest : List (Node α × Program)} (ha : s.Assembled on c P q)
    (hhelper : m .vertexConstant P.helper = .helper) (hpieces : q.primary = (n, code) :: rest)
    (hn : n.behavior = .time l) : ((q.upTo 1).run F m).read q.shared.time .x =
      l.clock ((c.inputs m n).rows 0) ((c.inputs m n).since on.velocity) := by
  obtain ⟨a, hcourse⟩ := ha.exists_course (F := F) hhelper
  have hfirst : (s.nodes.filter (·.info.block = .primary)).take 1 = [n] := by
    rw [← ha.primary, hpieces]
    rfl
  have hmotion := hcourse.upTo 1
  rw [hfirst] at hmotion
  rw [ha.shared]
  show (P.motion (Program.run F (q.upTo 1) m)).time = _
  rw [hmotion]
  show n.behavior.clock on (c.inputs m n) a.time = _
  rw [hn]
  rfl

/-- **The clock in the registers**: where vertex code is written for a set with nodes, to
different whole temporaries, the node that keeps time comes first, and behind its code the
register for time holds the time in the current loop. -/
theorem Built.exists_clock (h : s.Built) (hne : s.nodes ≠ [])
    (hsources : sourceNames.mapM Register.ofName = .ok sources)
    (htargets : targetNames.mapM Register.ofName = .ok targets)
    (hwhole : ∀ r ∈ targets, ∃ i, r = .temporary i) (hnodup : targets.Nodup)
    (hcode : Leads (s.vertexCode pass profile sourceNames targetNames) c p c₁) :
    ∃ (q : Parts α) (code : Program) (rest : List (Node α × Program)), p = q.code ∧
      q.sources = sources ∧ q.targets = targets ∧ c₁.shared = some q.shared ∧
      q.primary = (timeNode s.settings.lifecycle, code) :: rest ∧
      (∃ d d', Leads (timeNode s.settings.lifecycle : Node α).vertexCode d code d') ∧
      ∀ {K : Type} [Field K] [LinearOrder K] [FloorRing K] (F : Functions K) (m : Machine K)
        (now : K) (life : Vec4 K), Clocked pass c₁ m now life →
        ((q.upTo 1).run F m).read q.shared.time .x =
          s.settings.lifecycle.clock life.value (now - life.x) := by
  obtain ⟨P, q, ha, hp, hqsources, hqtargets, hhelper⟩ :=
    h.assembled hsources htargets hwhole hnodup hcode
  obtain ⟨code, rest, hpieces⟩ := h.primary_eq hne ha
  have hpiece : (timeNode s.settings.lifecycle, code) ∈ q.primary ++ q.post := by
    rw [hpieces]
    exact List.mem_cons_self
  refine ⟨q, code, rest, hp, hqsources, hqtargets, ha.remembered, hpieces,
    (ha.emits _ hpiece).emitted, fun {K} _ _ _ F m now life hclocked => ?_⟩
  obtain ⟨hlife, hnow⟩ := h.inputs_timeNode hne hcode hclocked
  rw [ha.read_time (hhelper ▸ hclocked.helper) hpieces rfl, hlife]
  unfold Inputs.since
  rw [hlife, hnow]
  rfl

/-- **Loops on both sides**: let vertex code be written for a built set with nodes, to
different whole temporaries. A particle that lives for some time has a life, and on every
machine that is loaded with it and with a frame time behind its start, the time that the node
that keeps time leaves in the registers says when the loop began. The record of any run of
the particle, of which the pause is not negative, dates this beginning: with the pause that
the set makes, not always with its own. -/
theorem Built.loops_spec (h : s.Built) (hne : s.nodes ≠ [])
    (hsources : sourceNames.mapM Register.ofName = .ok sources)
    (htargets : targetNames.mapM Register.ofName = .ok targets)
    (hwhole : ∀ r ∈ targets, ∃ i, r = .temporary i) (hnodup : targets.Nodup)
    (hcode : Leads (s.vertexCode pass profile sourceNames targetNames) c p c₁) :
    ∃ (q : Parts α) (code : Program) (rest : List (Node α × Program)), p = q.code ∧
      q.sources = sources ∧ q.targets = targets ∧ c₁.shared = some q.shared ∧
      q.primary = (timeNode s.settings.lifecycle, code) :: rest ∧
      (∃ d d', Leads (timeNode s.settings.lifecycle : Node α).vertexCode d code d') ∧
      ∀ (particle : Particle Rat) (now : Rat), 0 < particle.duration → 0 ≤ particle.delay →
        particle.startTime ≤ now → ∃ life, lifeValues particle = .ok life ∧
        ∀ (F : Functions Rat) (m : Machine Rat) (run : Run) (partition : PartitionId),
          Clocked pass c₁ m now life →
          (run.recordFor partition particle).Dates s.settings.lifecycle now
            (now - ((q.upTo 1).run F m).read q.shared.time .x) := by
  obtain ⟨q, code, rest, hp, hqsources, hqtargets, hshared, hpieces, hemitted, hclock⟩ :=
    h.exists_clock hne hsources htargets hwhole hnodup hcode
  refine ⟨q, code, rest, hp, hqsources, hqtargets, hshared, hpieces, hemitted,
    fun particle now hduration hdelay hnow => ?_⟩
  have hlife := Lifecycle.lifeValues_eq_ok.mpr ⟨hduration, rfl⟩
  refine ⟨_, hlife, fun F m run partition hclocked => ?_⟩
  rw [hclock F m now _ hclocked]
  exact RunRecord.dates_of_eq hduration hdelay
    (Lifecycle.sub_clock run partition hlife hdelay hnow)

end

/-- Particles that live again and again without a pause, and follow. -/
def trailing : NodeSet Rat where
  settings := { lifecycle := { usesDuration := true, usesLooping := true } }
  nodes := [timeNode { usesDuration := true, usesLooping := true }, { behavior := .follow, id := 1 }]
  stride := 4
  dynamicStride := 3

theorem built_trailing : trailing.Built :=
  .add (b := .follow) (.empty { usesDuration := true, usesLooping := true }) (by exact trivial) rfl

/-- A particle that lives for two seconds and would pause for one. -/
def pausing : Particle Rat := { Particle.default 0 1 with duration := 2, delay := 1 }

/-- The life of the particle. -/
def pausingLife : Vec4 Rat := ⟨0, 2, 3, 1 / 2⟩

theorem lifeValues_pausing : lifeValues pausing = .ok pausingLife := by decide +kernel

/-- The record of the particle, in a partition of a single vertex. -/
def pausingRecord : RunRecord Rat :=
  ({ particle := 0, partition := 0, first := 0, count := 1 } : Run).recordFor 0 pausing

/-- A machine that holds its life in every attribute, at two and a half seconds. -/
def pausingMachine : Machine Rat := fun kind index =>
  if kind = .vertexConstant then if index = 0 then .helper else fun _ => 5 / 2
  else pausingLife.value

theorem exists_clocked_trailing : ∃ p c₁,
    Leads (trailing.vertexCode {} .baseline ["va0"] ["vt0"]) { profile := .standard } p c₁ ∧
    Clocked {} c₁ pausingMachine (5 / 2) pausingLife := by
  have hboth : succeeds (do
      let p ← trailing.vertexCode {} .baseline ["va0"] ["vt0"]
      if (← get).index? timeId Slot.frameTime = some 1 then return p else throw .notCompiled)
      { profile := .standard } = true := by
    decide +kernel
  obtain ⟨_, _, hcode⟩ := exists_leads hboth
  obtain ⟨p, c₁, hcode, hindex⟩ := leads_bind.mp hcode
  rw [leads_get_bind, leads_ite] at hindex
  split at hindex
  · rename_i hrow
    refine ⟨p, c₁, hcode, rfl, fun index h => ?_, fun index _ => rfl⟩
    obtain rfl : 1 = index := Option.some.inj (hrow.symm.trans h)
    rfl
  · exact absurd hindex leads_throw.mp

/-- The second loop of the particle began after two seconds, as its record without the pause
would say. -/
theorem trailing_dates : ∃ p c₁, ∃ q : Parts Rat,
    Leads (trailing.vertexCode {} .baseline ["va0"] ["vt0"]) { profile := .standard } p c₁ ∧
    p = q.code ∧ lifeValues pausing = .ok pausingLife ∧
    Clocked {} c₁ pausingMachine (5 / 2) pausingLife ∧
    pausingRecord.Dates trailing.settings.lifecycle (5 / 2)
      (5 / 2 - ((q.upTo 1).run ⟨id, id, id⟩ pausingMachine).read q.shared.time .x) ∧
    5 / 2 - ((q.upTo 1).run ⟨id, id, id⟩ pausingMachine).read q.shared.time .x = 2 := by
  have hsources : ["va0"].mapM Register.ofName = .ok [{ kind := .vertexAttribute, index := 0 }] :=
    rfl
  have htargets : ["vt0"].mapM Register.ofName = .ok [.temporary 0] := rfl
  obtain ⟨p, c₁, hcode, hclocked⟩ := exists_clocked_trailing
  obtain ⟨q, _, _, hp, -, -, -, -, -, hspec⟩ := built_trailing.loops_spec (List.cons_ne_nil _ _)
    hsources htargets (List.forall_mem_singleton.mpr ⟨0, rfl⟩) (List.nodup_singleton _) hcode
  obtain ⟨life, hlife, hdates⟩ := hspec pausing (5 / 2) (by decide +kernel) (by decide +kernel)
    (by decide +kernel)
  obtain rfl : pausingLife = life := Except.ok.inj (lifeValues_pausing.symm.trans hlife)
  have hdated := hdates ⟨id, id, id⟩ pausingMachine
    { particle := 0, partition := 0, first := 0, count := 1 } 0 hclocked
  refine ⟨p, c₁, q, hcode, hp, hlife, hclocked, hdated, hdated.paused.trans ?_⟩
  decide +kernel

/-- The record itself says at that moment that the particle is in its first loop. -/
theorem trailing_disagrees : trailing.Built ∧ ∃ p c₁ code rest, ∃ q : Parts Rat,
    Leads (trailing.vertexCode {} .baseline ["va0"] ["vt0"]) { profile := .standard } p c₁ ∧
    p = q.code ∧ q.primary = (timeNode trailing.settings.lifecycle, code) :: rest ∧
    lifeValues pausing = .ok pausingLife ∧
    Clocked {} c₁ pausingMachine (5 / 2) pausingLife ∧
    0 < pausing.duration ∧ 0 ≤ pausing.delay ∧ pausing.startTime ≤ 5 / 2 ∧
    5 / 2 - ((q.upTo 1).run ⟨id, id, id⟩ pausingMachine).read q.shared.time .x = 2 ∧
    pausingRecord.emissionTime trailing.settings.lifecycle.loops (5 / 2) = 0 := by
  have hsources : ["va0"].mapM Register.ofName = .ok [{ kind := .vertexAttribute, index := 0 }] :=
    rfl
  have htargets : ["vt0"].mapM Register.ofName = .ok [.temporary 0] := rfl
  have hduration : 0 < pausing.duration := by decide +kernel
  have hdelay : 0 ≤ pausing.delay := by decide +kernel
  have hnow : pausing.startTime ≤ 5 / 2 := by decide +kernel
  obtain ⟨p, c₁, hcode, hclocked⟩ := exists_clocked_trailing
  obtain ⟨q, code, rest, hp, -, -, -, hpieces, -, hclock⟩ := built_trailing.exists_clock
    (List.cons_ne_nil _ _) hsources htargets (List.forall_mem_singleton.mpr ⟨0, rfl⟩)
    (List.nodup_singleton _) hcode
  refine ⟨built_trailing, p, c₁, code, rest, q, hcode, hp, hpieces, lifeValues_pausing, hclocked,
    hduration, hdelay, hnow, ?_, by decide +kernel⟩
  rw [hclock _ _ _ _ hclocked, Lifecycle.sub_clock
    { particle := 0, partition := 0, first := 0, count := 1 } 0 lifeValues_pausing hdelay hnow]
  decide +kernel

end NodeSet

end ParticleShader
