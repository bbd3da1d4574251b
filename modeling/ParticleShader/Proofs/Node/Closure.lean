import ParticleShader.NodeSet.Code
import ParticleShader.Proofs.NodeSet.Built

/-!
# What holds of steps holds of nodes

The nodes of the catalogue are written with a few steps of a compilation, put one after the
other. So a property of steps that holds of each of those and of a sequence whose parts have it
holds of all that a node does: of its constants if it is `Sequential`, and of its code if the
registers that code takes have it as well (`Claiming`).

The vertex code of a node asks for less. It never takes more than three registers at a time, it
reads attributes in the place of the node only, and no fault of its own is about sizes; a
property that holds of these steps is `Emitting`.

The nodes may look at the state, but not at the budget and not at the registers to copy. What
they can see is the state with these hidden (`unbudgeted`).
-/

namespace ParticleShader

variable {α : Type}

/-- A state without what nodes do not look at: the budget and the lists of registers. -/
def Compilation.unbudgeted (c : Compilation α) : Compilation α :=
  { c with profile := .baseline, temporaries := [], sources := [], targets := [] }

namespace Compile

/-- A property that looks at the state and faults other than of sizes have, and sequences of steps
that have it. -/
structure Chained (P : (β : Type) → Compile α β → Prop) : Prop where
  /-- A result has it. -/
  pure {β : Type} (b : β) : P β (Pure.pure b)
  /-- A fault has it that is not about sizes. -/
  refuse {β : Type} {fault : Fault} : fault ≠ .sizeOverflow → P β (MonadExcept.throw fault)
  /-- A sequence has it. -/
  bind {β γ : Type} {x : Compile α β} {f : β → Compile α γ} :
    P β x → (∀ b, P γ (f b)) → P γ (x >>= f)
  /-- A look at the state has it. -/
  view {β : Type} (f : Compilation α → β) : P β do return f (← get).unbudgeted

/-- A property that steps have one after the other if they have it one by one. -/
structure Sequential (P : (β : Type) → Compile α β → Prop) : Prop where
  /-- A result has it. -/
  pure {β : Type} (b : β) : P β (Pure.pure b)
  /-- A fault has it. -/
  throw {β : Type} (fault : Fault) : P β (MonadExcept.throw fault)
  /-- A sequence has it. -/
  bind {β γ : Type} {x : Compile α β} {f : β → Compile α γ} :
    P β x → (∀ b, P γ (f b)) → P γ (x >>= f)
  /-- A look at the state has it. -/
  view {β : Type} (f : Compilation α → β) : P β do return f (← get).unbudgeted
  /-- The staging of a constant has it. -/
  setVertexConstant (index : Nat) (value : Vec4 α) : P Unit (setVertexConstant index value)

/-- A property that the steps that take registers have as well. -/
structure Claiming (P : (β : Type) → Compile α β → Prop) : Prop extends Sequential P where
  /-- Taking registers of a pool has it. -/
  allocate (pool : Pool) (count : Nat) : P Nat (allocate pool count)
  /-- Claiming a temporary has it. -/
  acquire : P Register acquire
  /-- Giving up a claim has it. -/
  release (r : Register) : P Unit (release r)
  /-- Remembering the register of a parameter has it. -/
  setIndex (node : NodeId) (slot index : Nat) : P Unit (setIndex node slot index)
  /-- Binding an attribute has it. -/
  bindStream (info : NodeInfo) (slot start components : Nat) :
    P Register (bindStream info slot start components)

/-- A property that the steps have that the vertex code of a node takes registers with. -/
structure Emitting (info : NodeInfo) (P : (β : Type) → Compile α β → Prop) : Prop
    extends Chained P where
  /-- Taking one constant, or the three of a matrix, has it. -/
  claimConstants (slot : Nat) {count : Nat} :
    count = 1 ∨ count = 3 → P Register (claimConstants info slot count)
  /-- Claiming a temporary has it. -/
  acquire : P Register acquire
  /-- Giving up a claim has it. -/
  release (r : Register) : P Unit (release r)
  /-- Binding an attribute to values of the node has it. -/
  bindStream (slot : Nat) {start components : Nat} :
    info.mode ≠ .global → start + components ≤ info.length →
    P Register (bindStream info slot start components)

variable {P : (β : Type) → Compile α β → Prop} {β : Type}

namespace Chained

variable (h : Chained P)
include h

/-- A program that goes on with the state has it if it sees no more than nodes see. -/
theorem get_bind {g : Compilation α → Compile α β} (hg : ∀ c, g c = g c.unbudgeted)
    (hall : ∀ c, P β (g c)) : P β (get >>= g) := by
  have hview : get >>= g = (do return id (← get).unbudgeted : Compile α _) >>= g := by
    funext c
    show g c c = g c.unbudgeted c
    rw [← hg]
  rw [hview]
  exact h.bind (h.view id) hall

theorem has (feature : Features → Bool) : P Bool (has feature) :=
  h.view fun c => feature c.features

theorem shared : P SharedRegisters shared := by
  refine h.get_bind (fun _ => rfl) fun c => ?_
  unfold Compilation.shared?
  split
  · exact h.pure _
  · exact h.refuse (by simp)

theorem when (wanted : Bool) {x : Compile α Unit} (hx : P Unit x) :
    P Unit (if wanted then x else Pure.pure ()) := by
  split
  · exact hx
  · exact h.pure _

theorem forM {f : β → Compile α PUnit} (hf : ∀ b, P PUnit (f b)) (bs : List β) :
    P PUnit (bs.forM f) := by
  induction bs with
  | nil => exact h.pure _
  | cons b bs ih => exact h.bind (hf b) fun _ => ih

end Chained

namespace Sequential

variable (h : Sequential P)
include h

theorem chained : Chained P where
  pure := h.pure
  refuse _ := h.throw _
  bind := h.bind
  view := h.view

theorem get_bind {g : Compilation α → Compile α β} (hg : ∀ c, g c = g c.unbudgeted)
    (hall : ∀ c, P β (g c)) : P β (get >>= g) := h.chained.get_bind hg hall

theorem ofOutcome (outcome : Except Fault β) : P β (ofOutcome outcome) := by
  cases outcome with
  | ok b => exact h.pure b
  | error fault => exact h.throw fault

theorem has (feature : Features → Bool) : P Bool (has feature) := h.chained.has feature

theorem shared : P SharedRegisters shared := h.chained.shared

theorem when (wanted : Bool) {x : Compile α Unit} (hx : P Unit x) :
    P Unit (if wanted then x else Pure.pure ()) := h.chained.when wanted hx

theorem forM {f : β → Compile α PUnit} (hf : ∀ b, P PUnit (f b)) (bs : List β) :
    P PUnit (bs.forM f) := h.chained.forM hf bs

theorem setVertexMatrix [Scalar α] (index : Nat) (m : Mat3 α) : P Unit (setVertexMatrix index m) :=
  h.forM (fun _ => h.bind (h.ofOutcome _) fun _ => h.setVertexConstant _ _) _

end Sequential

namespace Emitting

variable {info : NodeInfo} (h : Emitting info P)
include h

theorem acquireScalar : P Register acquireScalar := h.bind h.acquire fun _ => h.pure _

theorem parameter (slot : Nat) {start components : Nat}
    (hplace : info.mode ≠ .global → start + components ≤ info.length) :
    P Register (parameter info slot start components) := by
  unfold Compile.parameter
  cases hmode : info.mode with
  | global => exact h.claimConstants slot (.inl rfl)
  | perParticle buffer =>
    have hlocal : info.mode ≠ .global := by
      rw [hmode]
      exact nofun
    exact h.bindStream slot hlocal (hplace hlocal)

/-- A temporary that is only needed for the code that is written. -/
theorem scratch {f : Register → Compile α β} (hf : ∀ r, P β (f r)) : P β (do
    let r ← Compile.acquire
    Compile.release r
    f r) :=
  h.bind h.acquire fun _ => h.bind (h.release _) fun _ => hf _

theorem scratchScalar {f : Register → Compile α β} (hf : ∀ r, P β (f r)) : P β (do
    let r ← Compile.acquireScalar
    Compile.release r
    f r) :=
  h.bind h.acquireScalar fun _ => h.bind (h.release _) fun _ => hf _

end Emitting

namespace Claiming

variable (h : Claiming P)
include h

theorem allocateRegisters (pool : Pool) (count : Nat) : P Register (allocateRegisters pool count) :=
  h.bind (h.allocate pool count) fun _ => h.pure _

theorem claimConstants (info : NodeInfo) (slot count : Nat) :
    P Register (claimConstants info slot count) :=
  h.bind (h.allocateRegisters _ _) fun _ => h.bind (h.setIndex _ _ _) fun _ => h.pure _

theorem parameter (info : NodeInfo) (slot start components : Nat) :
    P Register (parameter info slot start components) := by
  unfold Compile.parameter
  split
  · exact h.claimConstants info slot 1
  · exact h.bindStream info slot start components

/-- What holds whatever registers are taken holds of those of one node. -/
theorem emitting (info : NodeInfo) : Emitting info P where
  toChained := h.chained
  claimConstants slot count _ := h.claimConstants info slot count
  acquire := h.acquire
  release := h.release
  bindStream slot start components _ _ := h.bindStream info slot start components

end Claiming

end Compile

/-- Texture code and constants of a node of the user that are written with the steps of those of
the catalogue: what holds of each of these steps and of steps one after the other holds of them. -/
structure CustomNode.Modest (node : CustomNode α) (info : NodeInfo) : Prop where
  /-- The texture code takes no more than registers. -/
  uvCode {P : (β : Type) → Compile α β → Prop} :
    Compile.Claiming P → P Program (node.uvCode info)
  /-- The constants are staged and no register is taken for them. -/
  writeConstants {P : (β : Type) → Compile α β → Prop} (frame : Frame α) :
    Compile.Sequential P → P Unit (node.writeConstants info frame)

/-- A node of the catalogue, or one of the user that keeps to its steps. -/
def Node.Modest (n : Node α) : Prop :=
  ∀ node, n.behavior = .custom node → node.Modest n.info

theorem Node.modest_of_isCatalogue {n : Node α} (hn : n.behavior.IsCatalogue) : n.Modest := by
  intro node hbehavior
  rw [hbehavior] at hn
  exact hn.elim

/-- A set whose nodes of the user keep to the steps of the catalogue, but for their vertex code. -/
def NodeSet.Modest (s : NodeSet α) : Prop := ∀ n ∈ s.nodes, n.Modest

theorem NodeSet.Built.modest [Scalar α] {s : NodeSet α} (h : s.Built) : s.Modest :=
  fun n hn => Node.modest_of_isCatalogue (h.isCatalogue n hn)

namespace Behavior

open Compile

variable {P : (β : Type) → Compile α β → Prop}

/-! ### The vertex code of the catalogue -/

section

variable {info : NodeInfo} (h : Emitting info P)
include h

theorem emitting_timeCode (lifecycle : Lifecycle) (hmode : info.mode ≠ .global)
    (hlength : 4 ≤ info.length) : P Program (timeCode lifecycle info) := by
  refine h.bind (h.bindStream _ hmode hlength) fun _ =>
    h.bind (h.claimConstants _ (.inl rfl)) fun _ => h.bind h.shared fun _ =>
      h.bind h.acquireScalar fun _ => h.bind ?_ fun _ => h.bind (h.release _) fun _ => h.pure _
  unfold endingCode
  split
  · exact h.scratchScalar fun _ => h.pure _
  · exact h.pure _

theorem emitting_accelerationCode (hlength : 3 ≤ info.length) :
    P Program (accelerationCode info) := by
  refine h.bind (h.parameter _ fun _ => hlength) fun _ => h.bind h.shared fun _ =>
    h.bind h.acquire fun _ => h.bind ?_ fun _ => h.bind (h.release _) fun _ => h.pure _
  unfold speedCode
  split
  · exact h.pure _
  · exact h.scratch fun _ => h.pure _

theorem emitting_rotationalVelocityCode (hlength : 4 ≤ info.length) :
    P Program (rotationalVelocityCode info) :=
  h.bind (h.parameter _ fun _ => hlength) fun _ => h.bind h.shared fun _ =>
    h.bind h.acquire fun _ => h.bind h.acquire fun _ => h.bind h.acquire fun _ =>
      h.bind (h.release _) fun _ => h.bind (h.release _) fun _ => h.bind (h.release _) fun _ =>
        h.pure _

theorem emitting_headingCode : P Program (headingCode info) := by
  refine h.bind h.shared fun shared => ?_
  split
  · exact h.refuse (by simp)
  · refine h.bind (h.has _) fun billboard => ?_
    split
    · exact h.bind (h.claimConstants _ (.inr rfl)) fun _ => h.bind h.acquire fun _ =>
        h.bind h.acquire fun _ => h.bind (h.release _) fun _ => h.bind (h.release _) fun _ =>
          h.pure _
    · exact h.bind h.acquire fun _ => h.bind h.acquire fun _ => h.bind h.acquire fun _ =>
        h.bind h.acquire fun _ => h.bind h.acquire fun _ =>
          h.bind (h.forM h.release _) fun _ => h.pure _

theorem emitting_colorPartCode (accumulator : ColorRegisters → Option Register)
    (startSlot deltaSlot : Nat) {start : Nat} (temp blend : Register)
    (join : Operand → Operand → Operand → Statement)
    (hplace : info.mode ≠ .global → start + 8 ≤ info.length) :
    P Program (colorPartCode info accumulator startSlot deltaSlot start temp blend join) := by
  refine h.get_bind (fun _ => rfl) fun c => ?_
  split
  · exact h.refuse (by simp)
  · have hfirst : info.mode ≠ .global → start + 4 ≤ info.length := fun hmode =>
      Nat.le_trans (Nat.add_le_add_left (by decide) start) (hplace hmode)
    exact h.bind (h.parameter _ hfirst) fun _ => h.bind (h.parameter _ hplace) fun _ => h.pure _

theorem emitting_codeIf (wanted : Bool) {code : Compile α Program}
    (hcode : wanted = true → P Program code) : P Program (codeIf wanted code) := by
  unfold codeIf
  split
  · exact hcode ‹_›
  · exact h.pure _

theorem emitting_colorCode (animation : ColorAnimation α)
    (hlength : info.mode ≠ .global →
      8 * (animation.usesMultiplier.toNat + animation.usesOffset.toNat) ≤ info.length) :
    P Program (colorCode animation info) := by
  refine h.bind (h.has _) fun _ => ?_
  split
  · exact h.pure _
  · refine h.bind h.shared fun shared => h.bind h.acquire fun temp =>
      h.bind ?_ fun (blend, wave) => h.bind ?_ fun parts => h.bind ?_ fun _ =>
        h.bind (h.release _) fun _ => h.pure _
    · unfold blendCode
      split
      · exact h.pure _
      · exact h.bind (h.claimConstants _ (.inl rfl)) fun _ => h.bind h.acquireScalar fun _ =>
          h.pure _
    · -- the values of the offset stand behind those of the multiplier, if there is one
      refine h.bind (emitting_codeIf h _ fun hmultiplier =>
          emitting_colorPartCode h _ _ _ _ _ _ fun hmode => ?_) fun _ =>
        h.bind (emitting_codeIf h _ fun hoffset =>
          emitting_colorPartCode h _ _ _ _ _ _ fun hmode => ?_) fun _ => h.pure _
      · have hfits := hlength hmode
        rw [hmultiplier] at hfits
        simp only [Bool.toNat_true] at hfits
        omega
      · have hfits := hlength hmode
        rw [hoffset] at hfits
        cases hmultiplier : animation.usesMultiplier <;> rw [hmultiplier] at hfits <;>
          simp only [Bool.toNat_true, Bool.toNat_false] at hfits
        · exact hfits
        · exact hfits
    · exact h.when _ (h.release _)

end

/-! ### The texture code of the catalogue -/

section

variable (h : Claiming P)
include h

theorem claiming_uvRegisters : P UvRegisters uvRegisters := by
  refine h.get_bind (fun _ => rfl) fun c => ?_
  split
  · exact h.pure _
  · exact h.throw _

variable [Scalar α]

theorem claiming_uvScrollCode (axis : UvAxis) (value : Parameter (Vec2 α)) (info : NodeInfo) :
    P Program (uvScrollCode axis value info) := by
  refine h.bind (h.has _) fun _ => ?_
  split
  · exact h.pure _
  · exact h.bind (claiming_uvRegisters h) fun _ => h.bind (h.parameter _ _ _ _) fun _ =>
      h.bind h.shared fun _ => (h.emitting info).scratchScalar fun _ => h.pure _

theorem claiming_spriteSheetCode (sheet : SpriteSheet α) (info : NodeInfo) :
    P Program (spriteSheetCode sheet info) := by
  refine h.bind (h.has _) fun _ => ?_
  split
  · exact h.pure _
  · refine h.bind (claiming_uvRegisters h) fun _ => h.bind h.shared fun _ =>
      h.bind (h.claimConstants _ _ _) fun _ => h.bind ?_ fun _ =>
        (h.emitting info).scratch fun _ => h.pure _
    unfold sheetPhaseCode
    split
    · exact h.bind (h.claimConstants _ _ _) fun _ => h.pure _
    · exact h.pure _

end

/-! ### The constants of the catalogue -/

section

variable (h : Sequential P)
include h

theorem sequential_claimed (node : NodeId) (slot : Nat) : P Nat (claimed node slot) := by
  refine h.get_bind (fun _ => rfl) fun c => ?_
  split
  · exact h.pure _
  · exact h.throw _

theorem sequential_stage (node : NodeId) (slot : Nat) (value : Vec4 α) :
    P Unit (stage node slot value) :=
  h.bind (sequential_claimed h node slot) fun _ => h.setVertexConstant _ _

theorem sequential_stageGlobal {β : Type} (node : NodeId) (parameter : Parameter β)
    (values : β → Except Fault (Vec4 α)) : P Unit (stageGlobal node parameter values) := by
  unfold stageGlobal
  split
  · exact h.pure _
  · exact h.bind (sequential_claimed h _ _) fun _ => h.bind (h.ofOutcome _) fun _ =>
      h.setVertexConstant _ _

theorem sequential_stagePart (node : NodeId) (wanted : Bool) (startSlot deltaSlot : Nat)
    (values : Vec4 α × Vec4 α) : P Unit (stagePart node wanted startSlot deltaSlot values) :=
  h.when _ (h.bind (sequential_stage h _ _ _) fun _ => sequential_stage h _ _ _)

variable [Scalar α]

theorem sequential_stageColor (node : NodeId) (animation : ColorAnimation α) :
    P Unit (stageColor node animation) := by
  refine h.bind ?_ fun _ => ?_
  · unfold stageCycle
    split
    · exact sequential_stage h _ _ _
    · exact h.pure _
  · split
    · exact h.pure _
    · exact h.bind (sequential_stagePart h ..) fun _ => sequential_stagePart h ..

theorem sequential_stageSheet (node : NodeId) (sheet : SpriteSheet α) :
    P Unit (stageSheet node sheet) := by
  refine h.bind (sequential_stage h _ _ _) fun _ => ?_
  split
  · exact sequential_stage h _ _ _
  · exact h.pure _

end

end Behavior

namespace Node

open Behavior Compile

variable {P : (β : Type) → Compile α β → Prop} {n : Node α}

/-- The vertex code of a node of the catalogue. -/
theorem emitting_vertexCode (h : Emitting n.info P) (hn : n.behavior.IsCatalogue) :
    P Program n.vertexCode := by
  have hlength : n.behavior.length ≤ n.info.length := Nat.le_refl _
  have hmode : n.info.mode = n.behavior.mode := rfl
  unfold Node.vertexCode
  cases hbehavior : n.behavior with
  | time lifecycle =>
    rw [hbehavior] at hlength hmode
    exact emitting_timeCode h lifecycle (by rw [hmode]; exact nofun) hlength
  | position value =>
    rw [hbehavior] at hlength
    exact h.bind (h.parameter _ fun _ => hlength) fun _ => h.bind h.shared fun _ => h.pure _
  | velocity value =>
    rw [hbehavior] at hlength
    exact h.bind (h.parameter _ fun _ => hlength) fun _ => h.bind h.shared fun _ =>
      h.scratch fun _ => h.pure _
  | acceleration value =>
    rw [hbehavior] at hlength
    exact emitting_accelerationCode h hlength
  | scale curve value =>
    rw [hbehavior] at hlength
    refine h.bind (h.parameter _ fun _ => ?_) fun _ => h.bind h.shared fun _ =>
      h.scratchScalar fun _ => h.pure _
    rw [Nat.zero_add]
    exact hlength
  | rotationalVelocity value =>
    rw [hbehavior] at hlength
    exact emitting_rotationalVelocityCode h hlength
  | rotateToHeading => exact emitting_headingCode h
  | billboard axis =>
    exact h.bind (h.claimConstants _ (.inr rfl)) fun _ => h.bind h.shared fun _ =>
      h.scratch fun _ => h.pure _
  | follow =>
    rw [hbehavior] at hlength hmode
    exact h.bind (h.bindStream _ (by rw [hmode]; exact nofun) hlength) fun _ =>
      h.bind h.shared fun _ => h.pure _
  | uv axis value => exact h.pure _
  | spriteSheet sheet => exact h.pure _
  | color animation =>
    rw [hbehavior] at hlength hmode
    refine emitting_colorCode h animation fun hlocal => ?_
    rw [hmode] at hlocal
    cases hcolors : animation.colors with
    | global colors =>
      refine absurd ?_ hlocal
      show animation.colors.mode = .global
      rw [hcolors]
      rfl
    | perParticle buffer =>
      refine Nat.le_trans (Nat.le_of_eq ?_) hlength
      simp only [Behavior.length, hcolors]
  | custom node =>
    rw [hbehavior] at hn
    exact hn.elim

theorem claiming_vertexCode (h : Claiming P) (hn : n.behavior.IsCatalogue) :
    P Program n.vertexCode := emitting_vertexCode (h.emitting n.info) hn

variable [Scalar α]

/-- The texture code of a node. -/
theorem claiming_uvCode (h : Claiming P) (hn : n.Modest) : P Program n.uvCode := by
  unfold Node.uvCode
  split
  · exact claiming_uvScrollCode h ..
  · exact claiming_spriteSheetCode h ..
  · rename_i node hbehavior
    exact (hn node hbehavior).uvCode h
  · exact h.pure _

/-- The constants of a node. -/
theorem sequential_writeConstants (h : Sequential P) (hn : n.Modest) (frame : Frame α) :
    P Unit (n.writeConstants frame) := by
  unfold Node.writeConstants
  split
  · exact sequential_stage h _ _ _
  · exact sequential_stageGlobal h _ _ _
  · exact sequential_stageGlobal h _ _ _
  · exact sequential_stageGlobal h _ _ _
  · exact sequential_stageGlobal h _ _ _
  · exact sequential_stageGlobal h _ _ _
  · exact h.bind (h.has _) fun on =>
      h.when on (h.bind (sequential_claimed h _ _) fun _ => h.setVertexMatrix _ _)
  · exact h.bind (sequential_claimed h _ _) fun _ => h.setVertexMatrix _ _
  · exact h.bind (h.has _) fun on => h.when on (sequential_stageGlobal h _ _ _)
  · exact h.bind (h.has _) fun on => h.when on (sequential_stageSheet h _ _)
  · exact h.bind (h.has _) fun on => h.when on (sequential_stageColor h _ _)
  · exact h.pure _
  · rename_i node hbehavior
    exact (hn node hbehavior).writeConstants frame h

end Node

end ParticleShader
