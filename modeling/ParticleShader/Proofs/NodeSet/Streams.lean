import ParticleShader.Proofs.NodeSet.Activation

/-!
# The streams of a compiled set

Two views of the attributes that a set has taken: the streams to bind, which the nodes
enter one by one, and the attributes to clear, which come from two counters alone. Every
attribute that is taken has one stream, so the two agree: **`streams_spec`**. A stream
reads values of the node that has entered it, from the buffer that the node is kept in.
-/

namespace ParticleShader

variable {α : Type}

/-! ### Streams and attributes -/

namespace Ledger

/-- The attributes from `first` on have one stream each, in their order. -/
structure Bound (first : Nat) (l : Ledger) : Prop where
  /-- The attributes of the material are in use. -/
  first_le : first ≤ l.attributes
  /-- The others are those of the streams. -/
  registers : l.bindings.map (·.register) = List.range' first (l.attributes - first)

theorem bound_opened (pass : Pass) : (opened pass).Bound pass.taken.vertexAttributes := by
  refine ⟨Nat.le_refl _, ?_⟩
  show [] = List.range' _ (pass.taken.vertexAttributes - pass.taken.vertexAttributes)
  rw [Nat.sub_self]
  rfl

/-- **A step**: a need takes an attribute together with a stream, or neither. -/
theorem Bound.take {first : Nat} {l : Ledger} (h : l.Bound first) (n : Node α) (need : Need) :
    (l.take n need).Bound first := by
  cases need with
  | constants slot count => exact ⟨h.first_le, h.registers⟩
  | stream slot start components =>
    have hle := h.first_le
    refine ⟨Nat.le_succ_of_le hle, ?_⟩
    have hcount : l.attributes + 1 - first = l.attributes - first + 1 := by omega
    have hlast : first + 1 * (l.attributes - first) = l.attributes := by omega
    show List.map StreamBinding.register (l.bindings ++ [_]) =
      List.range' first (l.attributes + 1 - first)
    rw [hcount, List.range'_concat, hlast, List.map_append, h.registers]
    rfl

/-- **A run**: so do any needs. -/
theorem Bound.takeAll {first : Nat} {l : Ledger} (h : l.Bound first)
    (needs : List (Node α × Need)) : (l.takeAll needs).Bound first := by
  induction needs generalizing l with
  | nil => exact h
  | cons need needs ih => exact ih (h.take need.1 need.2)

/-- The stream that a need enters. -/
def Enters (n : Node α) (b : StreamBinding) : Need → Prop
  | .constants _ _ => False
  | .stream _ start components =>
    b.node = n.id ∧ b.buffer = (Compile.streamBase n.info).1 ∧
      b.offset = (Compile.streamBase n.info).2 + start ∧ b.components = components

/-- A stream was there before, or some need has entered it. -/
theorem mem_bindings_takeAll {l : Ledger} {needs : List (Node α × Need)} {b : StreamBinding}
    (h : b ∈ (l.takeAll needs).bindings) :
    b ∈ l.bindings ∨ ∃ n need, (n, need) ∈ needs ∧ Enters n b need := by
  induction needs generalizing l with
  | nil => exact .inl h
  | cons first needs ih =>
    obtain ⟨n, need⟩ := first
    rcases ih h with hfirst | ⟨m, other, hmem, henters⟩
    · cases need with
      | constants slot count => exact .inl hfirst
      | stream slot start components =>
        rcases List.mem_append.mp hfirst with hold | hnew
        · exact .inl hold
        · rw [List.mem_singleton] at hnew
          subst hnew
          exact .inr ⟨n, _, List.mem_cons_self, rfl, rfl, rfl, rfl⟩
    · exact .inr ⟨m, other, List.mem_cons_of_mem _ hmem, henters⟩

end Ledger

namespace NodeSet

open Compile Compilation Node

/-! ### What a stream reads -/

/-- A stream reads values that a node of a set keeps. -/
structure Reads (s : NodeSet α) (b : StreamBinding) (n : Node α) : Prop where
  /-- It names the node. -/
  node : s.node? b.node = some n
  /-- It reads the buffer that the node is kept in. -/
  mode : n.behavior.mode = .perParticle b.buffer
  /-- It does not begin before the values of the node. -/
  start : n.offsetIn b.buffer ≤ b.offset
  /-- It does not end behind them. -/
  stop : b.offset + b.components ≤ n.offsetIn b.buffer + n.behavior.length
  /-- So it stays in the record. -/
  inside : b.offset + b.components ≤ s.strideOf b.buffer

theorem streamBase_of_mode {n : Node α} {buffer : Buffer}
    (h : n.behavior.mode = .perParticle buffer) :
    streamBase n.info = (buffer, n.offsetIn buffer) := by
  have hmode : n.info.mode = .perParticle buffer := h
  unfold streamBase
  rw [hmode]
  cases buffer <;> rfl

section

variable [Scalar α] {s : NodeSet α} {c c' c₁ c₂ c₃ : Compilation α} {pass : Pass}
  {profile : Profile} {sourceNames targetNames : List String} {p : Program}
  {calls : List (String × String)} {codes : List Program} {needs : List (Node α × Need)}

/-- A stream that is entered for values that the node keeps reads those. -/
theorem Built.reads (h : s.Built) {n : Node α} (hn : n ∈ s.nodes) {need : Need}
    (hserves : n.behavior.Serves need) {b : StreamBinding} (henters : Ledger.Enters n b need) :
    s.Reads b n := by
  cases need with
  | constants slot count => exact henters.elim
  | stream slot start components =>
    obtain ⟨⟨buffer, hmode⟩, hlength⟩ := hserves
    obtain ⟨hnode, hbuffer, hoffset, hcomponents⟩ := henters
    rw [streamBase_of_mode hmode] at hbuffer hoffset
    have hinside := (h.laid buffer).inside n (mem_nodesIn.mpr ⟨hn, hmode⟩)
    obtain rfl : b.buffer = buffer := hbuffer
    simp only at hoffset
    have hstop : b.offset + b.components ≤ n.offsetIn b.buffer + n.behavior.length := by omega
    refine ⟨?_, hmode, ?_, hstop, hstop.trans hinside⟩
    · rw [hnode]
      exact h.node?_id hn
    · omega

/-- Every stream of a compiled set reads values of one of its nodes. -/
theorem Built.reads_of_mem (h : s.Built) (hc : s.Compiled pass needs c)
    (hneeds : ∀ n need, (n, need) ∈ needs → n ∈ s.nodes ∧ n.behavior.Serves need)
    {b : StreamBinding} (hb : b ∈ c.bindings) : ∃ n ∈ s.nodes, s.Reads b n := by
  have hmem : b ∈ ((Ledger.opened pass).takeAll needs).bindings := by
    rw [← hc.ledger]
    exact hb
  rcases Ledger.mem_bindings_takeAll hmem with hnone | ⟨n, need, hneed, henters⟩
  · exact absurd hnone List.not_mem_nil
  · obtain ⟨hn, hserves⟩ := hneeds n need hneed
    exact ⟨n, hn, h.reads hn hserves henters⟩

omit [Scalar α] in
/-- The streams of a compiled set are those of the attributes that it has taken. -/
theorem Compiled.registers (hc : s.Compiled pass needs c) :
    pass.taken.vertexAttributes ≤ c.used.vertexAttributes ∧
      c.bindings.map (·.register) = c.claimedStreams := by
  have hbound := (Ledger.bound_opened pass).takeAll needs
  rw [← hc.ledger] at hbound
  refine ⟨hbound.first_le, ?_⟩
  unfold claimedStreams
  rw [hc.taken]
  exact hbound.registers

/-- **Streams**: behind the vertex code and any requests for texture code, the streams to
bind are those of the attributes that were taken, in ascending order, and these are the
attributes to clear. Each stream reads values of a node. A frame that is staged gives the
same streams, and leaves the same attributes to clear. -/
theorem Built.streams_spec (h : s.Built)
    (hvertex : Leads (s.vertexCode pass profile sourceNames targetNames) c p c₁)
    (huv : Leads (s.uvCodes calls) c₁ codes c₂) :
    pass.taken.vertexAttributes ≤ c₂.used.vertexAttributes ∧
    c₂.bindings.map (·.register) = List.range' pass.taken.vertexAttributes
      (c₂.used.vertexAttributes - pass.taken.vertexAttributes) ∧
    c₂.claimedStreams = c₂.bindings.map (·.register) ∧
    (∀ b ∈ c₂.bindings, ∃ n ∈ s.nodes, s.Reads b n) ∧
    ∀ c₃, Leads finish c₂ () c₃ → ∀ frames frame bindings c',
      Leads (s.activate frame) (s.activations frames c₃) bindings c' →
      bindings = c₂.bindings ∧ c'.claimedStreams = c₂.bindings.map (·.register) := by
  have hcompiled := h.compiled hvertex huv
  obtain ⟨hle, hregisters⟩ := hcompiled.registers
  refine ⟨hle, ?_, hregisters.symm, fun b hb => ?_, fun c₃ hdone frames frame bindings c' hleads => ?_⟩
  · rw [hregisters]
    unfold claimedStreams
    rw [hcompiled.taken]
  · refine h.reads_of_mem hcompiled (fun n need hneed => ?_) hb
    rcases List.mem_append.mp hneed with hneed | hneed
    · obtain ⟨hn, hneed⟩ := mem_vertexNeeds.mp hneed
      exact ⟨hn, Behavior.serves_vertexNeeds _ _ _ hneed⟩
    · split at hneed
      · obtain ⟨hn, hneed⟩ := mem_uvNeeds.mp hneed
        exact ⟨hn, Behavior.serves_uvNeeds _ _ _ hneed⟩
      · exact absurd hneed List.not_mem_nil
  · obtain ⟨fragmentRows, hfinished⟩ := leads_finish hcompiled hdone
    have hbefore := h.modest.activations_frame frames c₃
    have hstaged := h.modest.stages_activate frame (s.activations frames c₃)
    rw [hleads.after_eq] at hstaged
    constructor
    · rw [h.modest.bindings_of_activate hleads, hbefore, hfinished]
    · rw [hregisters, hstaged, hbefore, hfinished]
      rfl

end

/-- The streams of a scroll: the life of the particle, and how its texture moves. -/
theorem scrolled_streams : ∃ p c₁ codes c₂,
    Leads (scrolled.vertexCode scrollingPass .baseline ["va0"] ["vt0"]) { profile := .standard }
      p c₁ ∧
    Leads (scrolled.uvCodes [("va1", "v0"), ("va1", "v0")]) c₁ codes c₂ ∧
    c₂.bindings.map (·.register) = [2, 3] ∧ ∀ b ∈ c₂.bindings, ∃ n ∈ scrolled.nodes,
      scrolled.Reads b n := by
  have hboth : succeeds (do
      let _ ← scrolled.vertexCode scrollingPass .baseline ["va0"] ["vt0"]
      let codes ← scrolled.uvCodes [("va1", "v0"), ("va1", "v0")]
      if (← get).used.vertexAttributes = 4 then return codes else throw .notCompiled)
      { profile := .standard } = true := by
    decide +kernel
  obtain ⟨codes, c₂, hcode⟩ := exists_leads hboth
  obtain ⟨p, c₁, hvertex, hcode⟩ := leads_bind.mp hcode
  obtain ⟨codes, c₂, huv, hcode⟩ := leads_bind.mp hcode
  rw [leads_get_bind, leads_ite] at hcode
  obtain ⟨-, hregisters, -, hreads, -⟩ := built_scrolled.streams_spec hvertex huv
  split at hcode
  · rename_i hused
    refine ⟨p, c₁, codes, c₂, hvertex, huv, ?_, hreads⟩
    rw [hregisters, hused]
    rfl
  · exact absurd hcode leads_throw.mp

end NodeSet

end ParticleShader
