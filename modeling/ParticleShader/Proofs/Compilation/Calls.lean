import ParticleShader.Compilation.Constants
import ParticleShader.Compilation.Fragments
import ParticleShader.Compilation.Start
import ParticleShader.Proofs.Compilation.Staging
import ParticleShader.Proofs.Node.Closure

/-!
# Calls

A user of a compilation calls its steps one after the other, in any order and whatever each of
them answers: a call that ends in a fault leaves a state as well, and the next call begins there.

Four calls decide how far a compilation is: `reset`, `enter`, `abandon` and `finish`. All others
are put together of steps that take registers, stage constants, or leave the `standing` of the
compilation alone: the profile, the phase, the counters, the shared registers and the staged rows.
So what holds of these few steps holds of such calls (`Quiet`), and they change no more of the
standing than they are for (`Lasts`).
-/

namespace ParticleShader

variable {α β γ : Type}

/-- A state without what neither decides how far the compilation is nor which registers are left. -/
def Compilation.standing (c : Compilation α) : Compilation α :=
  { c with
    features := {}, temporaries := [], sources := [], targets := [], color := {}, uv := none
    uvCode := none, indices := [], bindings := [] }

/-- The state that a step leaves when it fails. -/
theorem Compilation.after_of_error {x : Compile α β} {c c' : Compilation α} {fault : Fault}
    (h : x.run c = .error fault c') : c.after x = c' := by
  unfold Compilation.after
  rw [h]

/-- The state behind a sequence whose first step succeeds. -/
theorem Leads.after_bind {x : Compile α β} {f : β → Compile α γ} {c c' : Compilation α} {b : β}
    (h : Leads x c b c') : c.after (x >>= f) = c'.after (f b) := by
  have hrun : x.run c = .ok b c' := h
  rw [Compile.after_bind, hrun]

namespace Compile

/-- A call of a user of a compilation, with all that is passed to it. Looking at the state is no
call; taking a register of a pool is to allocate one. -/
inductive Call (α : Type) where
  /-- Begins a compilation. -/
  | reset (profile : Profile) (pass : Pass) (features : Features) (sources targets : List String)
  /-- Goes on to a phase. -/
  | enter (phase : Phase)
  /-- Abandons the compilation. -/
  | abandon
  /-- Ends the writing of code. -/
  | finish
  /-- Takes registers of a pool. -/
  | allocate (pool : Pool) (count : Nat)
  /-- Claims a free temporary. -/
  | acquire
  /-- Claims a temporary by name. -/
  | claim (r : Register)
  /-- Gives up a claim. -/
  | release (r : Register)
  /-- Remembers the register of a parameter. -/
  | setIndex (node : NodeId) (slot index : Nat)
  /-- Takes the register of a parameter. -/
  | parameter (info : NodeInfo) (slot start components : Nat)
  /-- Binds an attribute. -/
  | bindStream (info : NodeInfo) (slot start components : Nat)
  /-- Prepares the colors. -/
  | initColor
  /-- Binds the registers of the texture code. -/
  | setUv (source target : String)
  /-- Remembers the texture code. -/
  | storeUvCode (code : Program)
  /-- Stages a vertex constant. -/
  | setVertexConstant (index : Nat) (value : Vec4 α)
  /-- Stages a matrix of vertex constants. -/
  | setVertexMatrix (index : Nat) (m : Mat3 α)
  /-- Stages a fragment constant. -/
  | setFragmentConstant (index : Nat) (value : Vec4 α)

namespace Call

/-- The step that a call is, without what it gives. -/
def run [Scalar α] : Call α → Compile α Unit
  | reset profile pass features sources targets =>
    Compile.reset profile pass features sources targets
  | enter phase => Compile.enter phase
  | abandon => Compile.abandon
  | finish => Compile.finish
  | allocate pool count => do let _ ← Compile.allocate pool count
  | acquire => do let _ ← Compile.acquire
  | claim r => Compile.claim r
  | release r => Compile.release r
  | setIndex node slot index => Compile.setIndex node slot index
  | parameter info slot start components => do
    let _ ← Compile.parameter info slot start components
  | bindStream info slot start components => do
    let _ ← Compile.bindStream info slot start components
  | initColor => do let _ ← Compile.initColor
  | setUv source target => do let _ ← Compile.setUv source target
  | storeUvCode code => Compile.storeUvCode code
  | setVertexConstant index value => Compile.setVertexConstant index value
  | setVertexMatrix index m => Compile.setVertexMatrix index m
  | setFragmentConstant index value => Compile.setFragmentConstant index value

/-- Whether a call decides how far the compilation is. -/
def decides : Call α → Bool
  | reset .. | enter _ | abandon | finish => true
  | _ => false

/-- Whether a call belongs to the compilation that was begun before. -/
def continues : Call α → Bool
  | reset .. => false
  | _ => true

end Call

/-- The state after some calls, whatever they answer. -/
def play [Scalar α] (c : Compilation α) (calls : List (Call α)) : Compilation α :=
  calls.foldl (fun c k => c.after k.run) c

@[simp] theorem play_nil [Scalar α] (c : Compilation α) : play c [] = c := rfl

@[simp] theorem play_cons [Scalar α] (c : Compilation α) (k : Call α) (calls : List (Call α)) :
    play c (k :: calls) = play (c.after k.run) calls := rfl

theorem play_append [Scalar α] (c : Compilation α) (calls calls' : List (Call α)) :
    play c (calls ++ calls') = play (play c calls) calls' :=
  List.foldl_append

theorem play_concat [Scalar α] (c : Compilation α) (calls : List (Call α)) (k : Call α) :
    play c (calls ++ [k]) = (play c calls).after k.run := play_append c calls [k]

/-- What a beginning does once the state is cleared: it reads the names, claims the targets and
allocates the shared registers. -/
def shareNamed (sourceNames targetNames : List String) : Compile α Unit := do
  let sources ← ofOutcome (sourceNames.mapM Register.ofName)
  modify fun c => { c with sources }
  let targets ← ofOutcome (targetNames.mapM Register.ofName)
  modify fun c => { c with targets }
  shareRegisters sources targets

theorem run_reset (profile : Profile) (pass : Pass) (features : Features)
    (sources targets : List String) (c : Compilation α) :
    (reset profile pass features sources targets).run c =
      (shareNamed sources targets).run (c.restart profile pass features) := rfl

/-! ### What quiet calls are made of -/

/-- A property of steps that take registers, stage constants or leave the standing alone, and of
sequences of steps that have it. -/
structure Quiet (P : (β : Type) → Compile α β → Prop) : Prop where
  /-- A result has it. -/
  pure {β : Type} (b : β) : P β (Pure.pure b)
  /-- A fault has it. -/
  throw {β : Type} (fault : Fault) : P β (MonadExcept.throw fault)
  /-- A sequence has it. -/
  bind {β γ : Type} {x : Compile α β} {f : β → Compile α γ} :
    P β x → (∀ b, P γ (f b)) → P γ (x >>= f)
  /-- A look at the state has it. -/
  get : P (Compilation α) MonadState.get
  /-- A change that leaves the standing alone has it. -/
  modify {f : Compilation α → Compilation α} :
    (∀ c, (f c).standing = c.standing) → P PUnit (modify f)
  /-- Taking registers of a pool has it. -/
  allocate (pool : Pool) (count : Nat) : P Nat (allocate pool count)
  /-- Staging a vertex constant has it. -/
  setVertexConstant (index : Nat) (value : Vec4 α) : P Unit (setVertexConstant index value)
  /-- Staging a fragment constant has it. -/
  setFragmentConstant (index : Nat) (value : Vec4 α) : P Unit (setFragmentConstant index value)

namespace Quiet

variable {P : (β : Type) → Compile α β → Prop} (h : Quiet P)
include h

theorem acquire : P Register acquire := by
  refine h.bind h.get fun c => ?_
  split
  · exact h.throw _
  · exact h.bind (h.modify fun _ => rfl) fun _ => h.pure _

/-- The steps that nodes are written with have it. -/
theorem claiming : Claiming P where
  pure := h.pure
  throw := h.throw
  bind := h.bind
  view _ := h.bind h.get fun _ => h.pure _
  setVertexConstant := h.setVertexConstant
  allocate := h.allocate
  acquire := h.acquire
  release r := h.modify fun c => by split <;> rfl
  setIndex _ _ _ := h.modify fun _ => rfl
  bindStream _ _ _ _ := h.bind (h.bind (h.allocate _ _) fun _ => h.pure _) fun _ =>
    h.bind (h.modify fun _ => rfl) fun _ => h.bind (h.modify fun _ => rfl) fun _ => h.pure _

theorem claim (r : Register) : P Unit (claim r) := by
  unfold Compile.claim
  split
  · refine h.bind h.get fun c => ?_
    split
    · exact h.modify fun _ => rfl
    · exact h.bind (h.claiming.ofOutcome _) fun _ => h.throw _
  · exact h.pure _

theorem allocateShared (source vertex : Register) (directions : List Register) :
    P SharedRegisters (allocateShared source vertex directions) := by
  refine h.bind (h.claiming.allocateRegisters _ _) fun _ => h.bind h.acquire fun _ =>
    h.bind h.acquire fun _ => h.bind (h.claiming.has _) fun _ => ?_
  split <;> exact h.pure _

theorem accumulator (wanted : Features → Bool) (start : Register)
    (putTarget putVarying : Register → ColorRegisters → ColorRegisters) :
    P Program (accumulator wanted start putTarget putVarying) := by
  refine h.bind (h.claiming.has _) fun _ => ?_
  split
  · exact h.bind h.acquire fun _ => h.bind (h.modify fun _ => rfl) fun _ =>
      h.bind (h.claiming.allocateRegisters _ _) fun _ => h.bind (h.modify fun _ => rfl) fun _ =>
        h.pure _
  · exact h.pure _

theorem initColor : P Program initColor := by
  refine h.bind h.claiming.shared fun _ => h.bind (h.claiming.has _) fun _ => ?_
  split
  · exact h.bind (h.accumulator _ _ _ _) fun _ => h.bind (h.accumulator _ _ _ _) fun _ =>
      h.pure _
  · exact h.pure _

theorem setUv (source target : String) : P UvRegisters (setUv source target) :=
  h.bind h.claiming.shared fun _ => h.bind (h.claiming.ofOutcome _) fun _ =>
    h.bind (h.claiming.ofOutcome _) fun _ => h.bind (h.modify fun _ => rfl) fun _ => h.pure _

/-- Every call has it that does not decide how far the compilation is. -/
theorem run [Scalar α] {k : Call α} (hk : k.decides = false) : P Unit k.run := by
  cases k with
  | reset | enter | abandon | finish => exact absurd hk.symm Bool.false_ne_true
  | allocate pool count => exact h.bind (h.allocate pool count) fun _ => h.pure _
  | acquire => exact h.bind h.acquire fun _ => h.pure _
  | claim r => exact h.claim r
  | release r => exact h.claiming.release r
  | setIndex node slot index => exact h.claiming.setIndex node slot index
  | parameter info slot start components =>
    exact h.bind (h.claiming.parameter info slot start components) fun _ => h.pure _
  | bindStream info slot start components =>
    exact h.bind (h.claiming.bindStream info slot start components) fun _ => h.pure _
  | initColor => exact h.bind h.initColor fun _ => h.pure _
  | setUv source target => exact h.bind (h.setUv source target) fun _ => h.pure _
  | storeUvCode code => exact h.modify fun _ => rfl
  | setVertexConstant index value => exact h.setVertexConstant index value
  | setVertexMatrix index m => exact h.claiming.setVertexMatrix index m
  | setFragmentConstant index value => exact h.setFragmentConstant index value

end Quiet

/-- A beginning has a property that is kept in front of it by quiet steps, if faults have it and the
last step has it, which shares out the registers and enters the first phase. -/
theorem shareNamed_of_quiet {P : (β : Type) → Compile α β → Prop} (h : Quiet P)
    {Q : Compile α Unit → Prop}
    (hbind : ∀ {β : Type} {x : Compile α β} {f : β → Compile α Unit}, P β x → (∀ b, Q (f b)) →
      Q (x >>= f))
    (hthrow : ∀ fault, Q (throw fault))
    (hlast : ∀ registers, Q (modify fun c =>
      { c with shared := some registers, phase := .reset }))
    (sources targets : List String) : Q (shareNamed sources targets) := by
  refine hbind (h.claiming.ofOutcome _) fun sources => hbind (h.modify fun _ => rfl) fun _ =>
    hbind (h.claiming.ofOutcome _) fun targets => hbind (h.modify fun _ => rfl) fun _ => ?_
  unfold shareRegisters
  split
  · dsimp only
    split
    · exact hbind (h.throw _) fun _ => hbind (h.claiming.forM h.claim _) fun _ =>
        hbind (h.allocateShared _ _ _) hlast
    · exact hbind (h.claiming.forM h.claim _) fun _ => hbind (h.allocateShared _ _ _) hlast
  · exact hthrow _

/-! ### What quiet calls leave alone -/

/-- What a request for registers is answered: it is granted if the limit allows it, and refused
with the registers that there would have to be. -/
theorem run_allocate (c : Compilation α) (pool : Pool) (count : Nat) :
    (allocate pool count : Compile α Nat).run c =
      if c.used.get pool + count ≤ c.limit pool then
        .ok (c.used.get pool) { c with used := c.used.set pool (c.used.get pool + count) }
      else if c.used.get pool + count < Size.bound then
        .error (.registerOverflow pool.kind (c.used.get pool + count) (c.limit pool)) c
      else .error .sizeOverflow c := by
  by_cases hroom : c.used.get pool + count ≤ c.limit pool
  · rw [if_pos hroom]
    exact leads_allocate.mpr ⟨rfl, hroom, rfl⟩
  · rw [if_neg hroom]
    have hlimit : c.profile.limits.of pool.kind < c.used.get pool + count := Nat.not_le.mp hroom
    unfold allocate
    show (ofOutcome (Size.add (c.used.get pool) count) >>= _ : Compile α Nat).run c = _
    unfold Size.add Size.check
    split
    · show (if _ then _ else _ : Compile α Nat).run c = _
      rw [if_pos hlimit]
      rfl
    · rfl

/-- A request that is refused changes nothing. It goes beyond the limit, and the fault says how many
registers there would have to be. -/
theorem run_allocate_of_error {c c' : Compilation α} {pool : Pool} {count : Nat} {fault : Fault}
    (h : (allocate pool count : Compile α Nat).run c = .error fault c') :
    c' = c ∧ c.limit pool < c.used.get pool + count ∧
      fault = if c.used.get pool + count < Size.bound then
        .registerOverflow pool.kind (c.used.get pool + count) (c.limit pool)
      else .sizeOverflow := by
  rw [run_allocate] at h
  split at h
  · cases h
  · rename_i hroom
    split at h <;> rename_i hbound <;> cases h
    · exact ⟨rfl, Nat.not_le.mp hroom, (if_pos hbound).symm⟩
    · exact ⟨rfl, Nat.not_le.mp hroom, (if_neg hbound).symm⟩

/-- A row can be written if it is one of the rows and has a place in memory. -/
theorem writeRow_eq_ok {offset index : Nat} {value : Vec4 α} {rows rows' : List (Vec4 α)} :
    writeRow offset index value rows = .ok rows' ↔
      offset ≤ index ∧ index - offset < rows.length ∧ (index - offset) * 4 + 4 < Size.bound ∧
        rows' = rows.set (index - offset) value := by
  unfold writeRow stagedRow
  by_cases hlow : index < offset
  · simp [hlow, bind, Except.bind, throw, throwThe, MonadExceptOf.throw, Nat.not_le.mpr hlow]
  · simp only [hlow, if_false, Outcome.bind_eq_ok, Size.mul_eq_ok, Size.add_eq_ok,
      Outcome.pure_eq_ok]
    constructor
    · rintro ⟨row, ⟨_, ⟨-, rfl⟩, _, ⟨hstop, rfl⟩, rfl⟩, h⟩
      split at h
      · exact ⟨Nat.le_of_not_lt hlow, ‹_›, hstop, (Outcome.pure_eq_ok.mp h).symm⟩
      · exact (Outcome.throw_eq_ok.mp h).elim
    · rintro ⟨-, hrow, hstop, rfl⟩
      exact ⟨_, ⟨_, ⟨by omega, rfl⟩, _, ⟨hstop, rfl⟩, rfl⟩, by rw [if_pos hrow]; rfl⟩

end Compile

namespace Compilation

/-- A state of the same compilation, in the same phase and with room for the same constants. At
most registers of the pools were taken. -/
structure Lasts (c c' : Compilation α) : Prop where
  /-- The profile is the same. -/
  profile : c'.profile = c.profile
  /-- The phase is the same. -/
  phase : c'.phase = c.phase
  /-- The registers of the material are the same. -/
  taken : c'.taken = c.taken
  /-- No register is given back. -/
  used : ∀ pool, c.used.get pool ≤ c'.used.get pool
  /-- The shared registers are the same. -/
  shared : c'.shared = c.shared
  /-- As many vertex constants can be staged. -/
  vertexRows : c'.vertexRows.length = c.vertexRows.length
  /-- As many fragment constants can be staged. -/
  fragmentRows : c'.fragmentRows.length = c.fragmentRows.length

namespace Lasts

variable {c c' c'' : Compilation α}

theorem refl (c : Compilation α) : c.Lasts c :=
  ⟨rfl, rfl, rfl, fun _ => Nat.le_refl _, rfl, rfl, rfl⟩

theorem trans (h : c.Lasts c') (h' : c'.Lasts c'') : c.Lasts c'' where
  profile := h'.profile.trans h.profile
  phase := h'.phase.trans h.phase
  taken := h'.taken.trans h.taken
  used pool := (h.used pool).trans (h'.used pool)
  shared := h'.shared.trans h.shared
  vertexRows := h'.vertexRows.trans h.vertexRows
  fragmentRows := h'.fragmentRows.trans h.fragmentRows

/-- All of this belongs to the standing. -/
theorem of_standing (h : c'.standing = c.standing) : c.Lasts c' where
  profile := congrArg (·.profile) h
  phase := congrArg (·.phase) h
  taken := congrArg (·.taken) h
  used pool := (congrArg (·.used.get pool) h).ge
  shared := congrArg (·.shared) h
  vertexRows := congrArg (·.vertexRows.length) h
  fragmentRows := congrArg (·.fragmentRows.length) h

end Lasts

end Compilation

namespace Compile

open Compilation

/-- A step across which a relation holds, whether it succeeds or not. -/
def Keeps (R : Compilation α → Compilation α → Prop) (x : Compile α β) : Prop :=
  ∀ c : Compilation α, R c (c.after x)

theorem keeps_bind {R : Compilation α → Compilation α → Prop}
    (htrans : ∀ c c' c'', R c c' → R c' c'' → R c c'') {x : Compile α β} {f : β → Compile α γ}
    (hx : Keeps R x) (hf : ∀ b, Keeps R (f b)) : Keeps R (x >>= f) := by
  intro c
  have hfirst := hx c
  cases hrun : x.run c with
  | error fault c' =>
    rw [after_of_error hrun] at hfirst
    rwa [after_bind, hrun]
  | ok b c' =>
    rw [Leads.after_eq hrun] at hfirst
    rw [Leads.after_bind hrun]
    exact htrans c c' _ hfirst (hf b c')

/-- A step that the compilation lasts through, whether it succeeds or not. -/
def Lasting (x : Compile α β) : Prop := ∀ c : Compilation α, c.Lasts (c.after x)

theorem lasting_bind {x : Compile α β} {f : β → Compile α γ} (hx : Lasting x)
    (hf : ∀ b, Lasting (f b)) : Lasting (x >>= f) :=
  keeps_bind (R := Lasts) (fun _ _ _ => Lasts.trans) hx hf

theorem lasting_allocate (pool : Pool) (count : Nat) :
    Lasting (allocate pool count : Compile α Nat) := by
  intro c
  unfold Compilation.after
  cases hrun : (allocate pool count : Compile α Nat).run c with
  | error fault c' =>
    obtain rfl := (run_allocate_of_error hrun).1
    exact .refl c'
  | ok first c' =>
    obtain ⟨-, -, rfl⟩ := leads_allocate.mp hrun
    refine ⟨rfl, rfl, rfl, fun other => ?_, rfl, rfl, rfl⟩
    by_cases hother : other = pool
    · rw [hother, Pool.Counts.get_set_self]
      exact Nat.le_add_right _ _
    · rw [Pool.Counts.get_set_of_ne _ hother]

theorem lasting_setVertexConstant (index : Nat) (value : Vec4 α) :
    Lasting (setVertexConstant index value) := by
  intro c
  show c.Lasts (c.after (ofOutcome (writeRow _ index value c.vertexRows) >>= fun rows =>
    modify fun c => { c with vertexRows := rows }))
  cases hwrite : writeRow c.taken.vertexConstants index value c.vertexRows with
  | error fault => exact .refl c
  | ok rows =>
    obtain ⟨-, -, -, rfl⟩ := writeRow_eq_ok.mp hwrite
    exact ⟨rfl, rfl, rfl, fun _ => Nat.le_refl _, rfl, List.length_set, rfl⟩

theorem lasting_setFragmentConstant (index : Nat) (value : Vec4 α) :
    Lasting (setFragmentConstant index value) := by
  intro c
  show c.Lasts (c.after (ofOutcome (writeRow _ index value c.fragmentRows) >>= fun rows =>
    modify fun c => { c with fragmentRows := rows }))
  cases hwrite : writeRow c.taken.fragmentConstants index value c.fragmentRows with
  | error fault => exact .refl c
  | ok rows =>
    obtain ⟨-, -, -, rfl⟩ := writeRow_eq_ok.mp hwrite
    exact ⟨rfl, rfl, rfl, fun _ => Nat.le_refl _, rfl, rfl, List.length_set⟩

/-- The compilation lasts through every call that does not decide how far it is. -/
theorem quiet_lasting : Quiet (α := α) fun _ x => Lasting x where
  pure _ c := .refl c
  throw _ c := .refl c
  bind := lasting_bind
  get c := .refl c
  modify hf c := .of_standing (hf c)
  allocate := lasting_allocate
  setVertexConstant := lasting_setVertexConstant
  setFragmentConstant := lasting_setFragmentConstant

end Compile

end ParticleShader
