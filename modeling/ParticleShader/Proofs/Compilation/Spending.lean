import ParticleShader.Proofs.Compilation.Fragments

/-!
# Spending

What a step costs, exactly. A step `Spends` a demand, a peak of temporaries and the
temporaries it keeps when it succeeds just in case every pool has room for the
demand and as many temporaries are free as are claimed at once. Costs of steps that
follow each other add up, but for the peak: what the first step gives back is there
for the second one.
-/

namespace ParticleShader

variable {α β γ : Type}

namespace Demand

theorem none_plus (d : Demand) : none.plus d = d := funext fun _ => Nat.zero_add _

theorem plus_none (d : Demand) : d.plus none = d := rfl

theorem of_zero (pool : Pool) : of pool 0 = none := funext fun _ => ite_self _

theorem of_plus_of (pool : Pool) (m n : Nat) : (of pool m).plus (of pool n) = of pool (m + n) := by
  funext other
  unfold plus of
  split <;> rfl

/-- What a parameter takes: a constant if it is global, an attribute otherwise. -/
def parameter : Mode → Demand
  | .global => of .vertexConstant 1
  | .perParticle _ => of .vertexAttribute 1

theorem plus_assoc (d e f : Demand) : (d.plus e).plus f = d.plus (e.plus f) :=
  funext fun _ => Nat.add_assoc ..

end Demand

namespace Compilation

variable {c c' c'' : Compilation α} {d e : Demand} {kept kept' : Nat}

/-- A state in which registers of the pools and the first free temporaries were taken. -/
structure Spent (c c' : Compilation α) (d : Demand) (kept : Nat) : Prop where
  /-- The limits are the same. -/
  profile : c'.profile = c.profile
  /-- The pools are used more by what is asked for. -/
  used : ∀ pool, c'.used.get pool = c.used.get pool + d pool
  /-- The first free temporaries are claimed. -/
  free : c'.free = c.free.drop kept
  /-- There were so many. -/
  kept_le : kept ≤ c.free.length

theorem Spent.trans (h : c.Spent c' d kept) (h' : c'.Spent c'' e kept') :
    c.Spent c'' (d.plus e) (kept + kept') := by
  refine ⟨h'.profile.trans h.profile, fun pool => ?_, ?_, ?_⟩
  · rw [h'.used, h.used, Nat.add_assoc]
    rfl
  · rw [h'.free, h.free, List.drop_drop]
  · have hkept := h.kept_le
    have hkept' := h'.kept_le
    rw [h.free, List.length_drop] at hkept'
    omega

/-- There is room for two demands exactly if there is room for the first one, and for
the second one when the first one is met. -/
theorem Spent.room_plus (h : c.Spent c' d kept) :
    c.Room (d.plus e) ↔ c.Room d ∧ c'.Room e := by
  unfold Room Demand.plus limit
  rw [← forall_and, h.profile]
  refine forall_congr' fun pool => ?_
  rw [h.used]
  omega

theorem Room.of_plus (h : c.Room (d.plus e)) : c.Room d := fun pool => by
  have hpool := h pool
  unfold Demand.plus at hpool
  omega

theorem Grows.spent (h : c.Grows c' d) : c.Spent c' d 0 :=
  ⟨h.profile, h.used, h.free, Nat.zero_le _⟩

end Compilation

namespace Compile

open Compilation

variable {c : Compilation α} {d e : Demand} {peak peak' kept kept' : Nat}
  {after after' : β → Compilation α → Prop}

/-- A step costs exactly this: it succeeds just in case there is room for the demand
and for the peak of temporaries, then it has taken the demand and the temporaries
that are kept, and `after` holds. -/
structure Spends (x : Compile α β) (c : Compilation α) (d : Demand) (peak kept : Nat)
    (after : β → Compilation α → Prop) : Prop where
  /-- The step succeeds exactly if there is room. -/
  leads_iff : (∃ b c', Leads x c b c') ↔ c.Room d ∧ peak ≤ c.free.length
  /-- It takes what is said. -/
  spent : ∀ {b c'}, Leads x c b c' → c.Spent c' d kept
  /-- What holds afterwards. -/
  after : ∀ {b c'}, Leads x c b c' → after b c'

theorem Spends.mono {x : Compile α β} (h : Spends x c d peak kept after)
    (hafter : ∀ b c', after b c' → after' b c') : Spends x c d peak kept after' :=
  ⟨h.leads_iff, h.spent, fun hx => hafter _ _ (h.after hx)⟩

theorem Spends.of_eq {x : Compile α β} {peak' kept' : Nat} (h : Spends x c e peak' kept' after)
    (hdemand : e = d) (hpeak : peak' = peak) (hkept : kept' = kept) :
    Spends x c d peak kept after := by
  subst hdemand hpeak hkept
  exact h

/-- Steps that do the same cost the same, also from states that differ in something
else than the registers that are left. -/
theorem Spends.transfer {x y : Compile α β} {c₁ : Compilation α}
    (h : Spends x c₁ d peak kept after) (hy : ∀ b c', Leads y c b c' ↔ Leads x c₁ b c')
    (hprofile : c₁.profile = c.profile) (hused : c₁.used = c.used)
    (htemporaries : c₁.temporaries = c.temporaries) : Spends y c d peak kept after := by
  have hfree : c₁.free = c.free := by rw [Compilation.free, htemporaries, Compilation.free]
  have hroom : c₁.Room d ↔ c.Room d := by
    unfold Room Compilation.limit
    rw [hprofile, hused]
  refine ⟨?_, fun hb => ?_, fun hb => h.after ((hy _ _).mp hb)⟩
  · simp only [hy]
    rw [h.leads_iff, hroom, hfree]
  · obtain ⟨hprofile', hused', hfree', hkept⟩ := h.spent ((hy _ _).mp hb)
    rw [hprofile] at hprofile'
    rw [hused] at hused'
    rw [hfree] at hfree' hkept
    exact ⟨hprofile', hused', hfree', hkept⟩

theorem Spends.congr {x y : Compile α β} (h : Spends x c d peak kept after)
    (hy : ∀ b c', Leads y c b c' ↔ Leads x c b c') : Spends y c d peak kept after :=
  h.transfer hy rfl rfl rfl

theorem spends_pure (b : β) :
    Spends (pure b) c .none 0 0 fun b' c' => b' = b ∧ c' = c := by
  refine ⟨?_, ?_, leads_result.mp⟩
  · simp [room_none]
  · intro _ _ h
    obtain ⟨rfl, rfl⟩ := leads_result.mp h
    exact ⟨rfl, fun _ => rfl, rfl, Nat.zero_le _⟩

/-- The cost of two steps: demands add up, and the second peak comes on top of what
the first step keeps. -/
theorem Spends.bind {x : Compile α β} {f : β → Compile α γ} {rest : γ → Compilation α → Prop}
    (hx : Spends x c d peak kept after)
    (hf : ∀ b c', Leads x c b c' → after b c' → Spends (f b) c' e peak' kept' rest) :
    Spends (x >>= f) c (d.plus e) (max peak (kept + peak')) (kept + kept') rest := by
  refine ⟨⟨?_, ?_⟩, ?_, ?_⟩
  · rintro ⟨g, c'', h⟩
    obtain ⟨b, c', hb, hg⟩ := leads_bind.mp h
    have hspent := hx.spent hb
    have hkept := hspent.kept_le
    obtain ⟨hroom, hpeak⟩ := hx.leads_iff.mp ⟨b, c', hb⟩
    obtain ⟨hroom', hpeak'⟩ := (hf b c' hb (hx.after hb)).leads_iff.mp ⟨g, c'', hg⟩
    rw [hspent.free, List.length_drop] at hpeak'
    exact ⟨hspent.room_plus.mpr ⟨hroom, hroom'⟩, by omega⟩
  · rintro ⟨hroom, hpeak⟩
    obtain ⟨b, c', hb⟩ := hx.leads_iff.mpr ⟨hroom.of_plus, by omega⟩
    have hspent := hx.spent hb
    obtain ⟨g, c'', hg⟩ := (hf b c' hb (hx.after hb)).leads_iff.mpr
      ⟨(hspent.room_plus.mp hroom).2, by rw [hspent.free, List.length_drop]; omega⟩
    exact ⟨g, c'', leads_bind.mpr ⟨b, c', hb, hg⟩⟩
  · intro g c'' h
    obtain ⟨b, c', hb, hg⟩ := leads_bind.mp h
    exact (hx.spent hb).trans ((hf b c' hb (hx.after hb)).spent hg)
  · intro g c'' h
    obtain ⟨b, c', hb, hg⟩ := leads_bind.mp h
    exact (hf b c' hb (hx.after hb)).after hg

/-! ### Steps that only take from the pools -/

/-- A step that costs a demand and a peak of temporaries, all of which it gives back,
and does nothing but take the demand. -/
def Takes (x : Compile α β) (c : Compilation α) (d : Demand) (peak : Nat) : Prop :=
  Spends x c d peak 0 fun _ c' => c.Grows c' d

theorem takes_pure (b : β) : Takes (pure b) c .none 0 :=
  (spends_pure b).mono fun _ _ h => h.2 ▸ Grows.refl c

theorem Takes.bind {x : Compile α β} {f : β → Compile α γ} (hx : Takes x c d peak)
    (hf : ∀ b c', c.Grows c' d → Takes (f b) c' e peak') :
    Takes (x >>= f) c (d.plus e) (max peak peak') := by
  have hboth : Spends (x >>= f) c (d.plus e) (max peak (0 + peak')) (0 + 0)
      fun _ c'' => c.Grows c'' (d.plus e) :=
    Spends.bind hx fun b c' _ hgrows => (hf b c' hgrows).mono fun _ _ h => hgrows.trans h
  rwa [Nat.zero_add] at hboth

/-- A step that takes parameters, after which something more has to be the case. -/
theorem Takes.of_leads {x : Compile α β} {y : Compile α γ}
    {more : β → Compilation α → γ → Prop} (hx : Takes x c d 0)
    (hy : ∀ g c', Leads y c g c' ↔ ∃ b, Leads x c b c' ∧ more b c' g)
    (hmore : ∀ b c', c.Grows c' d → ((∃ g, more b c' g) ↔ peak ≤ c.free.length)) :
    Takes y c d peak := by
  refine ⟨⟨?_, ?_⟩, fun h => ?_, fun h => ?_⟩
  · rintro ⟨g, c', h⟩
    obtain ⟨b, hb, hg⟩ := (hy g c').mp h
    exact ⟨(hx.leads_iff.mp ⟨b, c', hb⟩).1, (hmore b c' (hx.after hb)).mp ⟨g, hg⟩⟩
  · rintro ⟨hroom, hpeak⟩
    obtain ⟨b, c', hb⟩ := hx.leads_iff.mpr ⟨hroom, Nat.zero_le _⟩
    obtain ⟨g, hg⟩ := (hmore b c' (hx.after hb)).mpr hpeak
    exact ⟨g, c', (hy g c').mpr ⟨b, hb, hg⟩⟩
  · obtain ⟨b, hb, -⟩ := (hy _ _).mp h
    exact hx.spent hb
  · obtain ⟨b, hb, -⟩ := (hy _ _).mp h
    exact hx.after hb

/-- A step that stays where it is, if something is the case. -/
theorem takes_of_stays {x : Compile α β} {more : β → Prop}
    (hx : ∀ b c', Leads x c b c' ↔ c' = c ∧ more b)
    (hmore : (∃ b, more b) ↔ peak ≤ c.free.length) : Takes x c .none peak := by
  refine (takes_pure ()).of_leads (fun b c' => ?_) fun _ _ _ => hmore
  rw [hx]
  constructor
  · rintro ⟨rfl, h⟩
    exact ⟨(), leads_pure.mpr ⟨rfl, rfl⟩, h⟩
  · rintro ⟨_, hc, h⟩
    exact ⟨(leads_result.mp hc).2, h⟩

/-- A step that cannot succeed because too few temporaries are free. -/
theorem takes_of_refuses {x : Compile α β} (hx : ∀ b c', ¬ Leads x c b c')
    (hpeak : c.free.length < peak) : Takes x c d peak :=
  ⟨⟨fun ⟨b, c', h⟩ => absurd h (hx b c'), fun ⟨_, h⟩ => absurd hpeak (Nat.not_lt.mpr h)⟩,
    fun h => absurd h (hx _ _), fun h => absurd h (hx _ _)⟩

theorem takes_get_bind {f : Compilation α → Compile α β} (h : Takes (f c) c d peak) :
    Takes (get >>= f) c d peak :=
  h.congr fun _ _ => leads_get_bind

/-- There is room for registers of one pool exactly if it has so many left. -/
theorem room_of {pool : Pool} {count : Nat} (hcount : 0 < count) :
    c.Room (.of pool count) ↔ c.used.get pool + count ≤ c.limit pool := by
  constructor
  · intro h
    have hpool := h pool
    simp only [Demand.of, if_true] at hpool
    omega
  · intro h other
    by_cases hother : other = pool
    · subst hother
      simpa [Demand.of] using .inr h
    · simp [Demand.of, hother]

theorem get_set_of (counts : Pool.Counts) (pool : Pool) (count : Nat) (other : Pool) :
    (counts.set pool (counts.get pool + count)).get other =
      counts.get other + Demand.of pool count other := by
  by_cases hother : other = pool
  · subst hother
    simp [Demand.of]
  · simp [Demand.of, hother]

theorem takes_claimConstants (info : NodeInfo) (slot : Nat) {count : Nat} (hcount : 0 < count) :
    Takes (claimConstants info slot count) c (.of .vertexConstant count) 0 := by
  have hgrows : ∀ {r c'}, Leads (claimConstants info slot count) c r c' →
      c.Grows c' (.of .vertexConstant count) := by
    intro r c' h
    obtain ⟨-, -, rfl⟩ := leads_claimConstants.mp h
    exact ⟨rfl, get_set_of c.used .vertexConstant count, fun _ hb => hb⟩
  refine ⟨?_, fun h => (hgrows h).spent, hgrows⟩
  simp [leads_claimConstants, room_of hcount, Pool.Counts.get]

theorem takes_bindStream (info : NodeInfo) (slot start components : Nat) :
    Takes (bindStream info slot start components) c (.of .vertexAttribute 1) 0 := by
  have hgrows : ∀ {r c'}, Leads (bindStream info slot start components) c r c' →
      c.Grows c' (.of .vertexAttribute 1) := by
    intro r c' h
    obtain ⟨-, -, rfl⟩ := leads_bindStream.mp h
    exact ⟨rfl, get_set_of c.used .vertexAttribute 1, fun _ hb => List.mem_append_left _ hb⟩
  refine ⟨?_, fun h => (hgrows h).spent, hgrows⟩
  simp [leads_bindStream, room_of Nat.one_pos, Pool.Counts.get]

theorem takes_parameter (info : NodeInfo) (slot start components : Nat) :
    Takes (parameter info slot start components) c (.parameter info.mode) 0 := by
  unfold parameter
  split <;> rename_i hmode <;> rw [hmode]
  · exact takes_claimConstants info slot Nat.one_pos
  · exact takes_bindStream info slot start components

end Compile

end ParticleShader
