import ParticleShader.Node.VertexCode
import ParticleShader.Proofs.Compilation.Temporaries

/-!
# Pools

When registers of the shared pools can be taken, and what taking them changes: the
pool is used more, the register is remembered, and nothing else is touched. A demand
says for every pool how many registers are taken; there is `Room` for it if each pool
that is asked for anything can hold it.
-/

namespace ParticleShader

variable {α : Type}

/-- How many registers of each pool are taken. -/
abbrev Demand : Type := Pool → Nat

namespace Demand

/-- No registers. -/
def none : Demand := fun _ => 0

/-- Registers of one pool. -/
def of (pool : Pool) (count : Nat) : Demand := fun other => if other = pool then count else 0

/-- One demand and another. -/
def plus (d e : Demand) : Demand := fun pool => d pool + e pool

end Demand

namespace Compilation

/-- How many registers of a pool there are. -/
def limit (c : Compilation α) (pool : Pool) : Nat := c.profile.limits.of pool.kind

/-- Every pool that is asked for registers has so many left. -/
def Room (c : Compilation α) (d : Demand) : Prop :=
  ∀ pool, d pool = 0 ∨ c.used.get pool + d pool ≤ c.limit pool

/-- A state in which registers of the pools were taken, and nothing else was done. -/
structure Grows (c c' : Compilation α) (d : Demand) : Prop where
  /-- Only the use of the pools and what is remembered of it change. -/
  frame : c' = { c with used := c'.used, indices := c'.indices, bindings := c'.bindings }
  /-- The pools are used more by what is asked for. -/
  used : ∀ pool, c'.used.get pool = c.used.get pool + d pool
  /-- No stream is forgotten. -/
  bindings : ∀ b ∈ c.bindings, b ∈ c'.bindings

namespace Grows

variable {c c' c'' : Compilation α} {d e : Demand}

theorem refl (c : Compilation α) : c.Grows c .none := ⟨rfl, fun _ => rfl, fun _ hb => hb⟩

theorem trans (h : c.Grows c' d) (h' : c'.Grows c'' e) : c.Grows c'' (d.plus e) := by
  refine ⟨?_, fun pool => ?_, fun b hb => h'.bindings b (h.bindings b hb)⟩
  · rw [h'.frame, h.frame]
  · rw [h'.used, h.used, Nat.add_assoc]
    rfl

theorem profile (h : c.Grows c' d) : c'.profile = c.profile := by rw [h.frame]

theorem features (h : c.Grows c' d) : c'.features = c.features := by rw [h.frame]

theorem phase (h : c.Grows c' d) : c'.phase = c.phase := by rw [h.frame]

theorem color (h : c.Grows c' d) : c'.color = c.color := by rw [h.frame]

theorem shared? (h : c.Grows c' d) : c'.shared? = c.shared? := by
  rw [h.frame]
  rfl

theorem free (h : c.Grows c' d) : c'.free = c.free := by
  rw [h.frame]
  rfl

end Grows

theorem room_none (c : Compilation α) : c.Room .none := fun _ => .inl rfl

end Compilation

namespace Compile

open Compilation

variable {c c' : Compilation α} {r : Register} {info : NodeInfo} {slot : Nat}

theorem limit_lt_bound (c : Compilation α) (pool : Pool) : c.limit pool < Size.bound := by
  unfold Compilation.limit
  cases c.profile <;> cases pool <;> decide

/-- Consecutive registers can be taken if the pool has so many left. -/
theorem leads_allocate {pool : Pool} {count first : Nat} :
    Leads (allocate pool count) c first c' ↔
      first = c.used.get pool ∧ c.used.get pool + count ≤ c.limit pool ∧
        c' = { c with used := c.used.set pool (c.used.get pool + count) } := by
  unfold allocate
  rw [leads_get_bind]
  simp only [leads_bind, leads_ofOutcome, Size.add_eq_ok]
  constructor
  · rintro ⟨last, _, ⟨⟨-, rfl⟩, rfl⟩, h⟩
    split at h
    · simp at h
    · rename_i hroom
      simp only [leads_bind, leads_modify, leads_pure] at h
      obtain ⟨_, _, rfl, rfl, rfl⟩ := h
      exact ⟨rfl, Nat.le_of_not_lt hroom, rfl⟩
  · rintro ⟨rfl, hroom, rfl⟩
    refine ⟨_, c, ⟨⟨Nat.lt_of_le_of_lt hroom (limit_lt_bound c pool), rfl⟩, rfl⟩, ?_⟩
    have hfits : ¬ c.profile.limits.of pool.kind < c.used.get pool + count := Nat.not_lt.mpr hroom
    rw [if_neg hfits]
    simp

/-- Consecutive constants can be taken if there are so many left. -/
theorem leads_claimConstants {count : Nat} :
    Leads (claimConstants info slot count) c r c' ↔
      r = { kind := .vertexConstant, index := c.used.vertexConstants } ∧
        c.used.vertexConstants + count ≤ c.limit .vertexConstant ∧
        c' = { c with
          used := c.used.set .vertexConstant (c.used.vertexConstants + count)
          indices := ((info.id, slot), c.used.vertexConstants) :: c.indices } := by
  simp only [claimConstants, allocateRegisters, leads_bind, leads_allocate, leads_pure,
    leads_setIndex]
  constructor
  · rintro ⟨_, _, ⟨_, _, ⟨rfl, hroom, rfl⟩, rfl, rfl⟩, _, _, rfl, rfl, rfl⟩
    exact ⟨rfl, hroom, rfl⟩
  · rintro ⟨rfl, hroom, rfl⟩
    exact ⟨_, _, ⟨_, _, ⟨rfl, hroom, rfl⟩, rfl, rfl⟩, (), _, rfl, rfl, rfl⟩

/-- The buffer that a node reads its parameters from, and where they begin in it. -/
def streamBase (info : NodeInfo) : Buffer × Nat :=
  match info.mode with
  | .perParticle .dynamic => (.dynamic, info.dynamicOffset)
  | _ => (.baked, info.offset)

/-- An attribute can be bound if there is one left. -/
theorem leads_bindStream {start components : Nat} :
    Leads (bindStream info slot start components) c r c' ↔
      r = { kind := .vertexAttribute, index := c.used.vertexAttributes } ∧
        c.used.vertexAttributes + 1 ≤ c.limit .vertexAttribute ∧
        c' = { c with
          used := c.used.set .vertexAttribute (c.used.vertexAttributes + 1)
          indices := ((info.id, slot), c.used.vertexAttributes) :: c.indices
          bindings := c.bindings ++
            [{ register := c.used.vertexAttributes, node := info.id
               buffer := (streamBase info).1, offset := (streamBase info).2 + start
               components := components }] } := by
  simp only [bindStream, allocateRegister, allocateRegisters, leads_bind, leads_allocate,
    leads_pure, leads_setIndex, leads_modify]
  constructor
  · rintro ⟨_, _, ⟨_, _, ⟨rfl, hroom, rfl⟩, rfl, rfl⟩, _, _, rfl, _, _, rfl, rfl, rfl⟩
    exact ⟨rfl, hroom, rfl⟩
  · rintro ⟨rfl, hroom, rfl⟩
    exact ⟨_, _, ⟨_, _, ⟨rfl, hroom, rfl⟩, rfl, rfl⟩, (), _, rfl, (), _, rfl, rfl, rfl⟩

/-! ### Steps that do not look at the temporaries -/

variable {β γ : Type}

/-- A step that does the same whatever temporaries are claimed, and leaves them as
they are. -/
def IgnoresClaims (x : Compile α β) : Prop := ∀ (c c'' : Compilation α) (index : Nat) (b : β),
  Leads x (c.claiming index) b c'' ↔ ∃ c', Leads x c b c' ∧ c'' = c'.claiming index

theorem ignoresClaims_pure (b : β) : IgnoresClaims (pure b : Compile α β) := by
  intro c c'' index b'
  simp only [leads_pure]
  constructor
  · rintro ⟨rfl, rfl⟩
    exact ⟨c, ⟨rfl, rfl⟩, rfl⟩
  · rintro ⟨_, ⟨rfl, rfl⟩, rfl⟩
    exact ⟨rfl, rfl⟩

theorem ignoresClaims_bind {x : Compile α β} {f : β → Compile α γ} (hx : IgnoresClaims x)
    (hf : ∀ b, IgnoresClaims (f b)) : IgnoresClaims (x >>= f) := by
  intro c c'' index b'
  simp only [leads_bind, hx c _ index]
  constructor
  · rintro ⟨b, _, ⟨c₁, hb, rfl⟩, h⟩
    obtain ⟨c', hrest, rfl⟩ := (hf b _ _ _ _).mp h
    exact ⟨c', ⟨b, c₁, hb, hrest⟩, rfl⟩
  · rintro ⟨c', ⟨b, c₁, hb, h⟩, rfl⟩
    exact ⟨b, _, ⟨c₁, hb, rfl⟩, (hf b _ _ _ _).mpr ⟨c', h, rfl⟩⟩

theorem ignoresClaims_claimConstants (info : NodeInfo) (slot count : Nat) :
    IgnoresClaims (claimConstants info slot count : Compile α Register) := by
  intro c c'' index r
  simp only [leads_claimConstants]
  constructor
  · rintro ⟨rfl, hroom, rfl⟩
    exact ⟨_, ⟨rfl, hroom, rfl⟩, rfl⟩
  · rintro ⟨_, ⟨rfl, hroom, rfl⟩, rfl⟩
    exact ⟨rfl, hroom, rfl⟩

theorem ignoresClaims_bindStream (info : NodeInfo) (slot start components : Nat) :
    IgnoresClaims (bindStream info slot start components : Compile α Register) := by
  intro c c'' index r
  simp only [leads_bindStream]
  constructor
  · rintro ⟨rfl, hroom, rfl⟩
    exact ⟨_, ⟨rfl, hroom, rfl⟩, rfl⟩
  · rintro ⟨_, ⟨rfl, hroom, rfl⟩, rfl⟩
    exact ⟨rfl, hroom, rfl⟩

theorem ignoresClaims_parameter (info : NodeInfo) (slot start components : Nat) :
    IgnoresClaims (parameter info slot start components : Compile α Register) := by
  unfold parameter
  split
  · exact ignoresClaims_claimConstants info slot 1
  · exact ignoresClaims_bindStream info slot start components

end Compile

end ParticleShader
