import Mathlib.Data.List.Induction
import ParticleShader.Proofs.Compilation.Calls
import ParticleShader.Proofs.Compilation.Fragments
import ParticleShader.Proofs.Compilation.Independence
import ParticleShader.Proofs.Rational

/-!
# The order of the phases

The phases of a compilation can be entered in one order only, whatever is called between them. A
`Track` notes the phases that were entered since the last beginning that succeeded, and forgets
them when the compilation is abandoned or a beginning fails. The invariant (`Track.Sound`) is that
what is noted can be read off the phase of the state, and that an active compilation is `Equipped`:
its shared registers are there, and the constant of them is the first behind those of the material.
By that `finish` cannot fail once the phase is entered.

* `Track.Sound.step`: every call keeps the invariant.
* `phases_spec`: what holds after any calls.
-/

namespace ParticleShader

variable {α β γ : Type}

namespace Phase

/-- The phases of a compilation in the order in which they are entered. -/
def order : List Phase :=
  [reset, init, primary, combine, post, colorInit, color, colorCombine, done]

/-- The phases up to one of them. -/
def upTo (p : Phase) : List Phase := order.takeWhile (· ≠ p) ++ [p]

theorem upTo_isPrefix {p : Phase} (h : p.isActive = true) : p.upTo <+: order := by
  cases p <;> first | decide | exact absurd h Bool.false_ne_true

theorem upTo_of_next {p q : Phase} (h : p.next = some q) : q.upTo = p.upTo ++ [q] := by
  cases p <;> first | cases h; decide | cases h

/-- A phase follows another one if it stands behind it in the order. -/
theorem next_eq_some {p q : Phase} (h : p.isActive = true) :
    p.next = some q ↔ p.upTo ++ [q] <+: order := by
  cases p <;> first | exact absurd h Bool.false_ne_true | (cases q <;> decide)

theorem isActive_of_next {p q : Phase} (h : p.next = some q) :
    p.isActive = true ∧ q.isActive = true := by
  cases p <;> first | cases h; decide | cases h

theorem next_of_not_isActive {p : Phase} (h : p.isActive = false) : p.next = none := by
  cases p <;> first | rfl | exact absurd h.symm Bool.false_ne_true

theorem isActive_eq_false {p : Phase} : p.isActive = false ↔ p = .idle ∨ p = .failed := by
  cases p <;> decide

end Phase

namespace Compilation

/-- The shared registers are there, and their constant is the first behind those of the
material. -/
def Equipped (c : Compilation α) : Prop :=
  ∃ shared, c.shared = some shared ∧ shared.zero.index = c.taken.vertexConstants ∧
    c.taken.vertexConstants < c.used.vertexConstants

theorem Lasts.equipped {c c' : Compilation α} (h : c.Lasts c') (hc : c.Equipped) :
    c'.Equipped := by
  obtain ⟨shared, hshared, hzero, hused⟩ := hc
  refine ⟨shared, h.shared.trans hshared, hzero.trans (by rw [h.taken]), ?_⟩
  rw [h.taken]
  exact Nat.lt_of_lt_of_le hused (h.used .vertexConstant)

end Compilation

namespace Compile

open Compilation

variable {c c' : Compilation α}

/-! ### Entering a phase -/

theorem run_enter (phase : Phase) (c : Compilation α) :
    (enter phase).run c =
      match c.phase.next with
      | none => .error .notCompiled c
      | some expected =>
        if expected = phase then .ok () { c with phase } else .error (.phaseOrder expected phase) c
    := by
  unfold enter
  rw [EStateM.run_bind, EStateM.run_get]
  dsimp only
  cases c.phase.next with
  | none => rfl
  | some expected =>
    dsimp only
    split <;> rfl

theorem run_shared_of_not_isActive (h : c.isActive = false) :
    (shared : Compile α SharedRegisters).run c = .error .notCompiled c := by
  have hshared : c.shared? = .error .notCompiled := by
    unfold shared?
    rw [h]
  show (ofOutcome c.shared?).run c = _
  rw [hshared]
  rfl

/-- Whatever begins with the shared registers is refused while there are none. -/
theorem run_shared_bind_of_not_isActive (h : c.isActive = false)
    (f : SharedRegisters → Compile α β) : (shared >>= f).run c = .error .notCompiled c := by
  rw [EStateM.run_bind, run_shared_of_not_isActive h]

theorem run_shared_of_equipped (h : c.isActive = true) (he : c.Equipped) :
    ∃ registers, (shared : Compile α SharedRegisters).run c = .ok registers c := by
  obtain ⟨registers, hshared, -⟩ := he
  refine ⟨registers, leads_shared.mpr ⟨?_, rfl⟩⟩
  unfold shared?
  rw [h, hshared]

/-! ### Beginning a compilation -/

/-- A step that keeps the phase if it fails. -/
def KeepsPhaseAtFault (x : Compile α β) : Prop :=
  ∀ (c : Compilation α) fault c', x.run c = .error fault c' → c'.phase = c.phase

theorem Lasting.keepsPhaseAtFault {x : Compile α β} (h : Lasting x) : KeepsPhaseAtFault x := by
  intro c fault c' hrun
  have hphase := (h c).phase
  rwa [after_of_error hrun] at hphase

theorem keepsPhaseAtFault_modify (f : Compilation α → Compilation α) :
    KeepsPhaseAtFault (modify f) := fun _ _ _ h => nomatch h

theorem keepsPhaseAtFault_bind {x : Compile α β} {f : β → Compile α γ} (hx : Lasting x)
    (hf : ∀ b, KeepsPhaseAtFault (f b)) : KeepsPhaseAtFault (x >>= f) := by
  intro c fault c' hrun
  rw [EStateM.run_bind] at hrun
  cases hfirst : x.run c with
  | error fault' c₁ =>
    rw [hfirst] at hrun
    cases hrun
    exact hx.keepsPhaseAtFault c _ _ hfirst
  | ok b c₁ =>
    rw [hfirst] at hrun
    have hphase := (hx c).phase
    rw [Leads.after_eq hfirst] at hphase
    exact (hf b c₁ fault c' hrun).trans hphase

theorem keepsPhaseAtFault_shareNamed (sources targets : List String) :
    KeepsPhaseAtFault (shareNamed sources targets : Compile α Unit) :=
  shareNamed_of_quiet quiet_lasting keepsPhaseAtFault_bind
    (fun fault => (quiet_lasting.throw fault).keepsPhaseAtFault)
    (fun _ => keepsPhaseAtFault_modify _) sources targets

section

variable {profile : Profile} {pass : Pass} {features : Features} {sources targets : List String}

/-- A beginning that fails leaves an abandoned compilation. -/
theorem phase_of_reset_error {fault : Fault}
    (h : (reset profile pass features sources targets).run c = .error fault c') :
    c'.phase = .failed := by
  rw [run_reset] at h
  exact keepsPhaseAtFault_shareNamed sources targets _ _ _ h

/-- A beginning that succeeds leads to an equipped compilation in the first phase. -/
theorem equipped_of_leads_reset {u : Unit}
    (h : Leads (reset profile pass features sources targets) c u c') :
    c'.phase = .reset ∧ c'.Equipped := by
  obtain ⟨_, _, -, -, h⟩ := leads_reset.mp h
  obtain ⟨source, _, vertex, directions, shared, c₁, -, -, -, -, hshared, rfl⟩ :=
    leads_shareRegisters.mp h
  obtain ⟨-, displacement, temporary, _, -, rfl, rfl⟩ := leads_allocateShared.mp hshared
  refine ⟨rfl, _, rfl, ?_, ?_⟩
  · rw [claimingAll_frame]
    unfold SharedRegisters.ofPlaces
    dsimp only
    split <;> rfl
  · rw [claimingAll_frame]
    exact Nat.lt_succ_self _

/-- A beginning leads to the first phase or to none. -/
theorem phase_after_reset (c : Compilation α) :
    (c.after (reset profile pass features sources targets)).phase = .reset ∨
      (c.after (reset profile pass features sources targets)).phase = .failed := by
  unfold Compilation.after
  cases hrun : (reset profile pass features sources targets).run c with
  | ok u c' => exact .inl (equipped_of_leads_reset hrun).1
  | error fault c' => exact .inr (phase_of_reset_error hrun)

end

end Compile

/-! ### Ending the writing of code -/

/-- The state in which all code is written: there is room for the constants that were claimed, and
the first of them is staged. -/
def Compilation.finished [Scalar α] (c : Compilation α) : Compilation α :=
  { c with
    phase := .done
    vertexRows :=
      (List.replicate (c.used.vertexConstants - c.taken.vertexConstants) Vec4.zero).set 0
        ⟨Scalar.zero, Scalar.one, Scalar.two, Scalar.zero⟩
    fragmentRows :=
      List.replicate (c.used.fragmentConstants - c.taken.fragmentConstants) Vec4.zero }

namespace Compile

open Compilation

variable [Scalar α] {c : Compilation α}

/-- An equipped compilation whose next phase is the last can be finished. -/
theorem leads_finish (hnext : c.phase.next = some .done) (he : c.Equipped) :
    Leads (finish : Compile α Unit) c () c.finished := by
  obtain ⟨registers, hshared, hzero, hused⟩ := he
  have hwrite : writeRow c.taken.vertexConstants registers.zero.index
      (⟨Scalar.zero, Scalar.one, Scalar.two, Scalar.zero⟩ : Vec4 α)
      (List.replicate (c.used.vertexConstants - c.taken.vertexConstants) Vec4.zero) =
      .ok c.finished.vertexRows := by
    rw [writeRow_eq_ok, hzero, Nat.sub_self, List.length_replicate]
    exact ⟨Nat.le_refl _, Nat.sub_pos_of_lt hused, by decide, rfl⟩
  unfold finish
  rw [leads_enter_bind hnext, leads_modify_bind, leads_shared_bind]
  refine ⟨registers, ?_, ?_⟩
  · unfold shared? isActive
    rw [hshared]
    rfl
  · unfold setVertexConstant
    rw [leads_get_bind]
    simp only [leads_bind, leads_ofOutcome, leads_modify]
    exact ⟨_, _, ⟨hwrite, rfl⟩, rfl⟩

/-- To finish is refused as its phase is. -/
theorem run_finish_of_refused {c' : Compilation α} {fault : Fault}
    (h : (enter .done : Compile α Unit).run c = .error fault c') :
    (finish : Compile α Unit).run c = .error fault c' := by
  unfold finish
  rw [EStateM.run_bind, h]

end Compile

/-! ### What was entered -/

namespace Compile

/-- A compilation and the phases that were entered since its last beginning, none of them if that
failed or if it was abandoned. -/
structure Track (α : Type) where
  /-- The state. -/
  state : Compilation α
  /-- The phases in order. -/
  phases : Option (List Phase)

/-- What a call does, and what is noted of it. -/
def Track.step [Scalar α] (t : Track α) (k : Call α) : Track α where
  state := t.state.after k.run
  phases :=
    match k with
    | .reset .. => if succeeds k.run t.state then some [.reset] else none
    | .enter phase => if succeeds k.run t.state then t.phases.map (· ++ [phase]) else t.phases
    | .finish => if succeeds k.run t.state then t.phases.map (· ++ [.done]) else t.phases
    | .abandon => none
    | _ => t.phases

/-- What is noted of some calls on a new compilation. -/
def track [Scalar α] (profile : Profile) (calls : List (Call α)) : Track α :=
  calls.foldl Track.step { state := { profile }, phases := none }

theorem state_track [Scalar α] (profile : Profile) (calls : List (Call α)) :
    (track profile calls).state = play { profile } calls := by
  unfold track play
  induction calls using List.reverseRecOn with
  | nil => rfl
  | append_singleton calls k ih =>
    rw [List.foldl_append, List.foldl_append]
    show ((calls.foldl Track.step _).state).after k.run = _
    rw [ih]
    rfl

/-- The phases that were entered are those up to the phase of the state, and an active compilation
is equipped. -/
structure Track.Sound (t : Track α) : Prop where
  /-- An active compilation entered all phases up to its own, another one none. -/
  phases : t.phases = if t.state.isActive then some t.state.phase.upTo else none
  /-- An active compilation is equipped. -/
  equipped : t.state.isActive = true → t.state.Equipped

/-- The phase that a call goes on to. -/
def Call.target? : Call α → Option Phase
  | .enter phase => some phase
  | .finish => some .done
  | _ => none

/-- Why a phase is refused, where another one or none follows. -/
def refusal (next : Option Phase) (phase : Phase) : Fault :=
  match next with
  | some expected => .phaseOrder expected phase
  | none => .notCompiled

namespace Track

variable {t : Track α}

theorem Sound.start (profile : Profile) :
    Sound ({ state := { profile }, phases := none } : Track α) :=
  ⟨rfl, fun h => absurd h Bool.false_ne_true⟩

/-- An abandoned compilation has nothing noted. -/
theorem sound_of_not_isActive (h : t.state.isActive = false) (hphases : t.phases = none) :
    t.Sound := by
  refine ⟨?_, fun hactive => absurd (h.symm.trans hactive) Bool.false_ne_true⟩
  rw [h, hphases]
  rfl

variable [Scalar α]

/-- The next phase can be entered, and every other one is refused without a change. -/
theorem Sound.goes_on (h : t.Sound) {k : Call α} {phase : Phase} (hk : k.target? = some phase) :
    (t.state.phase.next = some phase ∧
      ∃ c', Leads k.run t.state () c' ∧ c'.phase = phase ∧ c'.Equipped) ∨
    (t.state.phase.next ≠ some phase ∧
      (k.run).run t.state = .error (refusal t.state.phase.next phase) t.state) := by
  have henter := run_enter phase t.state
  by_cases hnext : t.state.phase.next = some phase
  · have he := h.equipped (Phase.isActive_of_next hnext).1
    refine .inl ⟨hnext, ?_⟩
    cases k with
    | enter other =>
      cases hk
      exact ⟨_, leads_enter.mpr ⟨hnext, rfl⟩, rfl, he⟩
    | finish =>
      cases hk
      exact ⟨_, leads_finish hnext he, rfl, he⟩
    | _ => cases hk
  · refine .inr ⟨hnext, ?_⟩
    have hrefused : (enter phase : Compile α Unit).run t.state =
        .error (refusal t.state.phase.next phase) t.state := by
      rw [henter]
      cases hphase : t.state.phase.next with
      | none => rfl
      | some expected =>
        dsimp only
        rw [if_neg fun heq : expected = phase => hnext (heq ▸ hphase)]
        rfl
    cases k with
    | enter other =>
      cases hk
      exact hrefused
    | finish =>
      cases hk
      exact run_finish_of_refused hrefused
    | _ => cases hk

theorem Sound.step_target (h : t.Sound) {k : Call α} {phase : Phase}
    (hk : k.target? = some phase) : (t.step k).Sound := by
  have hphases : (t.step k).phases =
      if succeeds k.run t.state then t.phases.map (· ++ [phase]) else t.phases := by
    cases k with
    | enter | finish =>
      cases hk
      rfl
    | _ => cases hk
  rcases h.goes_on hk with ⟨hnext, c', hleads, hphase, he⟩ | ⟨-, hrun⟩
  · have hsucceeds : succeeds k.run t.state = true := by
      have hrun : (k.run).run t.state = .ok () c' := hleads
      unfold succeeds
      rw [hrun]
    have hstate : (t.step k).state = c' := hleads.after_eq
    obtain ⟨hactive, hactive'⟩ := Phase.isActive_of_next hnext
    refine ⟨?_, fun _ => hstate ▸ he⟩
    rw [hphases, if_pos hsucceeds, hstate, h.phases]
    unfold Compilation.isActive
    rw [hphase, if_pos hactive, if_pos hactive', Phase.upTo_of_next hnext]
    rfl
  · have hsucceeds : succeeds k.run t.state = false := by
      unfold succeeds
      rw [hrun]
    have hstate : (t.step k).state = t.state :=
      Compilation.after_of_error hrun
    refine ⟨?_, ?_⟩
    · rw [hphases, hsucceeds, hstate]
      exact h.phases
    · rw [hstate]
      exact h.equipped

theorem Sound.step_reset (t : Track α) (profile : Profile) (pass : Pass) (features : Features)
    (sources targets : List String) :
    (t.step (.reset profile pass features sources targets)).Sound := by
  have hstate : (t.step (.reset profile pass features sources targets)).state =
      t.state.after (reset profile pass features sources targets) := rfl
  have hphases : (t.step (.reset profile pass features sources targets)).phases =
      if succeeds (reset profile pass features sources targets) t.state then some [.reset]
      else none := rfl
  unfold succeeds at hphases
  unfold Compilation.after at hstate
  cases hrun : (reset profile pass features sources targets).run t.state with
  | ok u c' =>
    rw [hrun] at hstate hphases
    obtain ⟨hphase, he⟩ := equipped_of_leads_reset hrun
    refine ⟨?_, fun _ => hstate ▸ he⟩
    rw [hphases, hstate]
    unfold Compilation.isActive
    rw [hphase]
    rfl
  | error fault c' =>
    rw [hrun] at hstate hphases
    refine sound_of_not_isActive ?_ hphases
    rw [hstate]
    unfold Compilation.isActive
    rw [phase_of_reset_error hrun]
    rfl

/-- A call that does not decide how far the compilation is leaves what is noted. -/
theorem Sound.step_quiet (h : t.Sound) {k : Call α} (hk : k.decides = false) :
    (t.step k).Sound := by
  have hlasts := quiet_lasting.run hk t.state
  have hphases : (t.step k).phases = t.phases := by
    cases k with
    | reset | enter | abandon | finish => exact absurd hk.symm Bool.false_ne_true
    | _ => rfl
  have hactive : (t.step k).state.isActive = t.state.isActive :=
    congrArg Phase.isActive hlasts.phase
  refine ⟨?_, fun hactive' => hlasts.equipped (h.equipped (hactive ▸ hactive'))⟩
  have hphase : (t.step k).state.phase = t.state.phase := hlasts.phase
  rw [hphases, hactive, hphase, h.phases]

/-- Every call keeps the invariant. -/
theorem Sound.step (h : t.Sound) (k : Call α) : (t.step k).Sound := by
  cases hk : k.decides with
  | false => exact h.step_quiet hk
  | true =>
    cases k with
    | reset profile pass features sources targets => exact step_reset t ..
    | enter phase => exact h.step_target rfl
    | abandon => exact sound_of_not_isActive rfl rfl
    | finish => exact h.step_target rfl
    | _ => exact absurd hk Bool.false_ne_true

end Track

theorem sound_track [Scalar α] (profile : Profile) (calls : List (Call α)) :
    (track profile calls).Sound := by
  unfold track
  induction calls using List.reverseRecOn with
  | nil => exact .start profile
  | append_singleton calls k ih =>
    rw [List.foldl_append]
    exact ih.step k

/-- What the noted phases say of a compilation: which phases were entered, which one can be entered
next, and what is refused. -/
structure Track.Ordered [Scalar α] (t : Track α) : Prop where
  /-- The phases were entered in their order, the present one last. -/
  entered : ∀ phases, t.phases = some phases →
    phases <+: Phase.order ∧ phases.getLast? = some t.state.phase
  /-- Without phases the compilation was not begun or is abandoned. -/
  stopped : t.phases = none → t.state.phase = .idle ∨ t.state.phase = .failed
  /-- A phase can be entered if it follows those that were entered. -/
  accepted : ∀ (k : Call α) phase, k.target? = some phase →
    (succeeds k.run t.state = true ↔
      ∃ phases, t.phases = some phases ∧ phases ++ [phase] <+: Phase.order)
  /-- A phase that is refused changes nothing. The fault names the phase that follows, if there is
  one. -/
  refused : ∀ (k : Call α) phase fault c', k.target? = some phase →
    k.run.run t.state = .error fault c' → c' = t.state ∧
      ((∃ phases expected, t.phases = some phases ∧ phases ++ [expected] <+: Phase.order ∧
        expected ≠ phase ∧ fault = .phaseOrder expected phase) ∨
      ((∀ phases expected, t.phases = some phases → ¬ phases ++ [expected] <+: Phase.order) ∧
        fault = .notCompiled))
  /-- Without phases nothing can be done but to begin. -/
  closed : t.phases = none →
    (∀ phase, (enter phase).run t.state = .error .notCompiled t.state) ∧
    finish.run t.state = .error .notCompiled t.state ∧
    shared.run t.state = .error .notCompiled t.state ∧
    initCode.run t.state = .error .notCompiled t.state ∧
    combineCode.run t.state = .error .notCompiled t.state ∧
    initColor.run t.state = .error .notCompiled t.state ∧
    ∀ source target, (setUv source target).run t.state = .error .notCompiled t.state
  /-- In every phase of a compilation the shared registers are there. -/
  available : t.state.phase ≠ .idle → t.state.phase ≠ .failed →
    ∃ registers, shared.run t.state = .ok registers t.state

namespace Track

variable {t : Track α}

theorem Sound.phases_eq_some (h : t.Sound) {phases : List Phase}
    (hphases : t.phases = some phases) :
    t.state.isActive = true ∧ phases = t.state.phase.upTo := by
  rw [h.phases] at hphases
  split at hphases
  · exact ⟨‹_›, (Option.some.inj hphases).symm⟩
  · cases hphases

theorem Sound.phases_eq_none (h : t.Sound) (hphases : t.phases = none) :
    t.state.isActive = false := by
  rw [h.phases] at hphases
  split at hphases
  · cases hphases
  · exact Bool.not_eq_true _ ▸ ‹_›

/-- The phase that follows those that were entered is the next phase of the state. -/
theorem Sound.follows (h : t.Sound) {phase : Phase} :
    (∃ phases, t.phases = some phases ∧ phases ++ [phase] <+: Phase.order) ↔
      t.state.phase.next = some phase := by
  constructor
  · rintro ⟨phases, hphases, hprefix⟩
    obtain ⟨hactive, rfl⟩ := h.phases_eq_some hphases
    exact (Phase.next_eq_some hactive).mpr hprefix
  · intro hnext
    have hactive := (Phase.isActive_of_next hnext).1
    exact ⟨_, h.phases.trans (if_pos hactive), (Phase.next_eq_some hactive).mp hnext⟩

variable [Scalar α]

theorem Sound.refused (h : t.Sound) {k : Call α} {phase : Phase} {fault : Fault}
    {c' : Compilation α} (hk : k.target? = some phase)
    (hrun : k.run.run t.state = .error fault c') :
    c' = t.state ∧
      ((∃ phases expected, t.phases = some phases ∧ phases ++ [expected] <+: Phase.order ∧
        expected ≠ phase ∧ fault = .phaseOrder expected phase) ∨
      ((∀ phases expected, t.phases = some phases → ¬ phases ++ [expected] <+: Phase.order) ∧
        fault = .notCompiled)) := by
  rcases h.goes_on hk with ⟨-, c'', hleads, -⟩ | ⟨hne, hrefused⟩
  · exact nomatch hrun.symm.trans hleads
  · obtain ⟨rfl, rfl⟩ := EStateM.Result.error.inj (hrun.symm.trans hrefused)
    refine ⟨rfl, ?_⟩
    cases hnext : t.state.phase.next with
    | some expected =>
      obtain ⟨phases, hphases, hprefix⟩ := h.follows.mpr hnext
      exact .inl ⟨phases, expected, hphases, hprefix, fun heq => hne (heq ▸ hnext), rfl⟩
    | none =>
      refine .inr ⟨fun phases expected hphases hprefix => ?_, rfl⟩
      exact nomatch hnext.symm.trans (h.follows.mp ⟨phases, hphases, hprefix⟩)

theorem Sound.ordered (h : t.Sound) : t.Ordered where
  entered phases hphases := by
    obtain ⟨hactive, rfl⟩ := h.phases_eq_some hphases
    exact ⟨Phase.upTo_isPrefix hactive, List.getLast?_concat⟩
  stopped hphases := Phase.isActive_eq_false.mp (h.phases_eq_none hphases)
  accepted k phase hk := by
    rw [h.follows]
    unfold succeeds
    rcases h.goes_on hk with ⟨hnext, c', hleads, -⟩ | ⟨hne, hrefused⟩
    · have hrun : k.run.run t.state = .ok () c' := hleads
      rw [hrun]
      exact ⟨fun _ => hnext, fun _ => rfl⟩
    · rw [hrefused]
      exact ⟨fun h => absurd h Bool.false_ne_true, fun h => absurd h hne⟩
  refused k phase fault c' hk := h.refused hk
  closed hphases := by
    have hactive := h.phases_eq_none hphases
    have henter : ∀ phase, (enter phase).run t.state = .error .notCompiled t.state := by
      intro phase
      rw [run_enter, Phase.next_of_not_isActive hactive]
    refine ⟨henter, ?_, run_shared_of_not_isActive hactive, ?_, ?_, ?_, fun source target => ?_⟩
    · exact run_finish_of_refused (henter .done)
    · exact run_shared_bind_of_not_isActive hactive _
    · exact run_shared_bind_of_not_isActive hactive _
    · exact run_shared_bind_of_not_isActive hactive _
    · exact run_shared_bind_of_not_isActive hactive _
  available hidle hfailed := by
    have hactive : t.state.isActive = true := by
      rw [← Bool.not_eq_false]
      intro hnot
      rcases Phase.isActive_eq_false.mp hnot with hphase | hphase
      · exact hidle hphase
      · exact hfailed hphase
    exact run_shared_of_equipped hactive (h.equipped hactive)

end Track

/-- **The order of the phases**: what is noted of any calls on a new compilation tells which phases
were entered, which can be entered next and what is refused. -/
theorem phases_spec [Scalar α] (profile : Profile) (calls : List (Call α)) :
    (track profile calls).state = play { profile } calls ∧ (track profile calls).Ordered :=
  ⟨state_track profile calls, (sound_track profile calls).ordered⟩

/-- Calls that enter two phases, one of them after a phase that is refused. -/
def hasty : List (Call Rat) :=
  [.finish, .reset .baseline {} {} ["va0"] ["vt0"], .enter .primary, .enter .init]

theorem hasty_ordered :
    (track .baseline hasty).phases = some [.reset, .init] ∧ (track .baseline hasty).Ordered ∧
      (enter .combine).run (track .baseline hasty).state =
        .error (.phaseOrder .primary .combine) (track .baseline hasty).state := by
  have hphases : (track .baseline hasty).phases = some [.reset, .init] := by decide +kernel
  obtain ⟨-, hordered⟩ := phases_spec .baseline hasty
  refine ⟨hphases, hordered, ?_⟩
  obtain ⟨-, hphase⟩ := hordered.entered _ hphases
  have hnext : (track .baseline hasty).state.phase.next = some .primary := by
    rw [← Option.some.inj hphase]
    rfl
  rw [run_enter, hnext]
  rfl

end Compile

end ParticleShader
