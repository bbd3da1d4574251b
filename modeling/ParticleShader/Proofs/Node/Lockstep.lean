import ParticleShader.Proofs.Node.Twins

/-!
# Two forms in lockstep

A node with one value for all particles and the same node with a value for each are written by
the same steps, but where the one takes a constant the other takes an attribute. The states stay
`Abreast`: they differ in what is taken of those two pools and in what is remembered of it. So
every step but the taking of a parameter does the same in both, a fault in the one is the same
fault in the other, and the programs that come out are twins.
-/

namespace ParticleShader

variable {α β γ : Type}

namespace Compilation

/-- The registers that a state gives to the nodes. -/
def given (c : Compilation α) : List Register :=
  c.shared.toList.flatMap SharedRegisters.all ++ c.color.multiplier.toList ++
    c.color.offset.toList ++ c.uv.toList.map (·.working)

/-- Two states of which one has taken some constants of an exchange and the other as many
attributes. The constants begin behind some that both have yet to take. -/
structure Abreast (e : Exchange) (pending taken : Nat) (c c' : Compilation α) : Prop where
  /-- Nothing else is different. -/
  frame : c' = { c with used := c'.used, indices := c'.indices, bindings := c'.bindings }
  /-- The constants that were taken here. -/
  constants : c.used.vertexConstants + pending = e.firstConstant + taken
  /-- The constants are free there. -/
  constants' : c'.used.vertexConstants + pending = e.firstConstant
  /-- The attributes are free here. -/
  streams : c.used.vertexAttributes = e.firstStream
  /-- The attributes that were taken there. -/
  streams' : c'.used.vertexAttributes = e.firstStream + taken
  /-- There is room for all constants. -/
  constantRoom : e.firstConstant + e.count ≤ c.limit .vertexConstant
  /-- There is room for all attributes. -/
  streamRoom : e.firstStream + e.count ≤ c.limit .vertexAttribute
  /-- The nodes are given none of them. -/
  spares : ∀ r ∈ c.given, e.Spares r

namespace Abreast

variable {e : Exchange} {pending taken : Nat} {c c' : Compilation α}

theorem features (h : c.Abreast e pending taken c') : c'.features = c.features := by rw [h.frame]

theorem shared? (h : c.Abreast e pending taken c') : c'.shared? = c.shared? := by
  rw [h.frame]
  rfl

theorem color (h : c.Abreast e pending taken c') : c'.color = c.color := by rw [h.frame]

theorem uv (h : c.Abreast e pending taken c') : c'.uv = c.uv := by rw [h.frame]

theorem temporaries (h : c.Abreast e pending taken c') : c'.temporaries = c.temporaries := by
  rw [h.frame]

theorem limit (h : c.Abreast e pending taken c') (pool : Pool) : c'.limit pool = c.limit pool := by
  rw [h.frame]
  rfl

/-- A change of the claims on temporaries leaves them abreast. -/
theorem withTemporaries (h : c.Abreast e pending taken c') (f : List Nat → List Nat) :
    Abreast e pending taken { c with temporaries := f c.temporaries }
      { c' with temporaries := f c'.temporaries } where
  frame := by rw [h.frame]
  constants := h.constants
  constants' := h.constants'
  streams := h.streams
  streams' := h.streams'
  constantRoom := h.constantRoom
  streamRoom := h.streamRoom
  spares := h.spares

end Abreast

end Compilation

namespace Compile

open Compilation

/-- Outcomes in states abreast: results in a relation, or the same fault. -/
inductive Matches (e : Exchange) (pending taken : Nat) (R : β → β → Prop) :
    EStateM.Result Fault (Compilation α) β → EStateM.Result Fault (Compilation α) β → Prop
  | ok {b b' : β} {c c' : Compilation α} (hresult : R b b')
    (hstates : c.Abreast e pending taken c') : Matches e pending taken R (.ok b c) (.ok b' c')
  | error {fault : Fault} {c c' : Compilation α} :
    Matches e pending taken R (.error fault c) (.error fault c')

/-- Two steps that lead states abreast to such outcomes: `start` and `stop` say how many
constants are pending and how many parameters are taken, before and afterwards. -/
def Lockstep (e : Exchange) (start stop : Nat × Nat) (R : β → β → Prop) (x y : Compile α β) :
    Prop :=
  ∀ ⦃c c' : Compilation α⦄, c.Abreast e start.1 start.2 c' →
    Matches e stop.1 stop.2 R (x.run c) (y.run c')

variable {e : Exchange} {start middle stop : Nat × Nat} {R : β → β → Prop} {S : γ → γ → Prop}
  {x y : Compile α β}

theorem lockstep_pure {b b' : β} (h : R b b') :
    Lockstep e start start R (pure b : Compile α β) (pure b') := fun _ _ hstates => .ok h hstates

theorem lockstep_throw (fault : Fault) :
    Lockstep e start stop R (throw fault : Compile α β) (throw fault) := fun _ _ _ => .error

theorem Matches.bind {f g : β → Compile α γ} {pending taken : Nat} {c c' : Compilation α}
    (h : Matches e pending taken R (x.run c) (y.run c'))
    (hrest : ∀ b b', R b b' → Lockstep e (pending, taken) stop S (f b) (g b')) :
    Matches e stop.1 stop.2 S ((x >>= f).run c) ((y >>= g).run c') := by
  rw [EStateM.run_bind, EStateM.run_bind]
  cases hx : x.run c <;> cases hy : y.run c' <;> rw [hx, hy] at h <;> cases h
  · exact hrest _ _ ‹_› ‹_›
  · exact .error

theorem Lockstep.bind {f g : β → Compile α γ} (h : Lockstep e start middle R x y)
    (hrest : ∀ b b', R b b' → Lockstep e middle stop S (f b) (g b')) :
    Lockstep e start stop S (x >>= f) (y >>= g) := fun _ _ hstates => (h hstates).bind hrest

/-- Steps behind the same result in both. -/
theorem Lockstep.bind_same {P : β → Prop} {f g : β → Compile α γ}
    (h : Lockstep e start middle (fun b b' => b' = b ∧ P b) x y)
    (hrest : ∀ b, P b → Lockstep e middle stop S (f b) (g b)) :
    Lockstep e start stop S (x >>= f) (y >>= g) :=
  h.bind fun b _ ⟨hsame, hb⟩ => hsame ▸ hrest b hb

/-- A step that goes on with the state. -/
theorem lockstep_get_bind {f g : Compilation α → Compile α β}
    (h : ∀ c c', c.Abreast e start.1 start.2 c' → Lockstep e start stop R (f c) (g c')) :
    Lockstep e start stop R (get >>= f) (get >>= g) := fun c c' hstates => h c c' hstates hstates

/-! ### Steps that do the same in both -/

theorem lockstep_shared :
    Lockstep e start start (fun s s' => s' = s ∧ e.SparesAll s) (shared : Compile α _) shared := by
  refine lockstep_get_bind fun c c' hstates => ?_
  rw [hstates.shared?]
  cases hshared : c.shared? with
  | error fault => exact lockstep_throw fault
  | ok s =>
    refine lockstep_pure ⟨rfl, Exchange.sparesAll fun r hr => hstates.spares r ?_⟩
    simp only [given, shared_of_shared? hshared, Option.toList_some, List.flatMap_cons, List.flatMap_nil,
      List.append_nil, List.mem_append]
    exact .inl (.inl (.inl hr))

theorem lockstep_temporaries (f : List Nat → List Nat) : Lockstep e start start (fun _ _ => True)
    (modify fun c => { c with temporaries := f c.temporaries } : Compile α Unit)
    (modify fun c => { c with temporaries := f c.temporaries }) :=
  fun _ _ hstates => .ok trivial (hstates.withTemporaries f)

theorem lockstep_acquire :
    Lockstep e start start (fun r r' => r' = r ∧ e.Spares r) (acquire : Compile α _) acquire := by
  refine lockstep_get_bind fun c c' hstates => ?_
  have hprofile : c'.profile = c.profile := by rw [hstates.frame]
  rw [hstates.temporaries, hprofile]
  cases c.temporaries.findIdx? (· = 0) with
  | none => exact lockstep_throw _
  | some index =>
    exact (lockstep_temporaries _).bind fun _ _ _ =>
      lockstep_pure ⟨rfl, Exchange.spares_temporary index⟩

theorem lockstep_acquireScalar :
    Lockstep e start start (fun r r' => r' = r ∧ e.Spares r) (acquireScalar : Compile α _)
      acquireScalar :=
  lockstep_acquire.bind_same fun _ hspares => lockstep_pure ⟨rfl, hspares⟩

theorem lockstep_release (r : Register) :
    Lockstep e start start (fun _ _ => True) (release r : Compile α Unit) (release r) := by
  unfold release
  by_cases hr : r.kind = .vertexTemporary
  · simp only [if_pos hr]
    exact lockstep_temporaries _
  · simp only [if_neg hr]
    exact fun c c' hstates => .ok trivial hstates

/-- A constant that both forms take comes before those that are exchanged. -/
theorem lockstep_claimConstants {info info' : NodeInfo} {slot : Nat} :
    Lockstep e (1, 0) (0, 0) (fun r r' => r' = r ∧ e.Spares r)
      (claimConstants info slot 1 : Compile α Register) (claimConstants info' slot 1) := by
  intro c c' hstates
  have hhere := hstates.constants
  have hthere := hstates.constants'
  have hroom := hstates.constantRoom
  have hlimit := hstates.limit .vertexConstant
  have hsame : c'.used.vertexConstants = c.used.vertexConstants := by omega
  have hrun : Leads (claimConstants info slot 1) c _ _ :=
    leads_claimConstants.mpr ⟨rfl, by omega, rfl⟩
  have hrun' : Leads (claimConstants info' slot 1) c' _ _ :=
    leads_claimConstants.mpr ⟨rfl, by omega, rfl⟩
  have hstep : (claimConstants info slot 1).run c = .ok _ _ := hrun
  have hstep' : (claimConstants info' slot 1).run c' = .ok _ _ := hrun'
  rw [hstep, hstep']
  refine .ok ⟨by rw [hsame], fun _ hmoved => ?_, nofun⟩
    { frame := by rw [hstates.frame]
      constants := hhere
      constants' := hthere
      streams := hstates.streams
      streams' := hstates.streams'
      constantRoom := hroom
      streamRoom := hstates.streamRoom
      spares := hstates.spares }
  have hlow := hmoved.1
  simp only at hlow
  omega

/-! ### The step that does not -/

/-- **The taking of a parameter**: the next constant here, the next attribute there. -/
theorem lockstep_parameter {info info' : NodeInfo} {buffer : Buffer} {slot first components
    taken : Nat} {windows : List Window} {w : Window} (hmode : info.mode = .global)
    (hmode' : info'.mode = .perParticle buffer) (hcount : e.count = windows.length)
    (hw : windows[taken]? = some w) :
    Lockstep e (0, taken) (0, taken + 1) (e.Delivers windows w.components)
      (parameter info slot first components : Compile α Register)
      (parameter info' slot first components) := by
  intro c c' hstates
  have htaken : taken < e.count := hcount ▸ (List.getElem?_eq_some_iff.mp hw).1
  have hhere := hstates.constants
  have hthere := hstates.streams'
  have hroom := hstates.constantRoom
  have hroom' := hstates.streamRoom
  have hlimit := hstates.limit .vertexAttribute
  unfold parameter
  rw [hmode, hmode']
  have hrun : Leads (claimConstants info slot 1) c _ _ :=
    leads_claimConstants.mpr ⟨rfl, by omega, rfl⟩
  have hrun' : Leads (bindStream info' slot first components) c' _ _ :=
    leads_bindStream.mpr ⟨rfl, by omega, rfl⟩
  have hstep : (claimConstants info slot 1).run c = .ok _ _ := hrun
  have hstep' : (bindStream info' slot first components).run c' = .ok _ _ := hrun'
  rw [hstep, hstep']
  refine .ok ?_
    { frame := by rw [hstates.frame]
      constants := by
        show c.used.vertexConstants + 1 + 0 = _
        omega
      constants' := hstates.constants'
      streams := hstates.streams
      streams' := by
        show c'.used.vertexAttributes + 1 = _
        omega
      constantRoom := hroom
      streamRoom := hroom'
      spares := hstates.spares }
  rw [Nat.add_zero] at hhere
  rw [hhere, hthere]
  exact Exchange.delivers_parameter htaken hw

end Compile

end ParticleShader
