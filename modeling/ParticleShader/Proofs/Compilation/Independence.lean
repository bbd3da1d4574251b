import ParticleShader.Proofs.Compilation.Public
import ParticleShader.Proofs.Outcome

/-!
# Independence of the past

A compilation does not depend on the state it begins from. Only the lists of
registers to copy can outlive a failed beginning, and an abandoned compilation shows
them to nobody: two abandoned states that differ in nothing else are `Alike`, and
every public program gives the same result on both.
-/

namespace ParticleShader

variable {α β γ : Type}

namespace Compilation

/-- What can be told of a state: everything, but not the lists of registers to copy
once the compilation is abandoned. -/
def veil (c : Compilation α) : Compilation α := if c.phase = .failed then c.withoutLists else c

/-- Two states that cannot be told apart. -/
def Alike (c d : Compilation α) : Prop := c.veil = d.veil

theorem veil_of_failed {c : Compilation α} (h : c.phase = .failed) : c.veil = c.withoutLists :=
  if_pos h

theorem veil_of_not_failed {c : Compilation α} (h : c.phase ≠ .failed) : c.veil = c := if_neg h

theorem withoutLists_veil (c : Compilation α) : c.veil.withoutLists = c.withoutLists := by
  unfold veil
  split <;> rfl

/-- States that are alike are alike when they are abandoned. -/
theorem Alike.abandon {c d : Compilation α} (h : c.Alike d) :
    Alike { c with phase := .failed } { d with phase := .failed } := by
  have hlists : c.withoutLists = d.withoutLists := by
    rw [← withoutLists_veil, show c.veil = d.veil from h, withoutLists_veil]
  exact congrArg (fun e : Compilation α => { e with phase := .failed }) hlists

end Compilation

namespace Compile

open Compilation

/-- What a caller learns from a result: the outcome, and what can be told of the
state. -/
def seen (r : EStateM.Result Fault (Compilation α) β) : Except Fault β × Compilation α :=
  match r with
  | .ok b c => (.ok b, c.veil)
  | .error fault c => (.error fault, c.veil)

/-- A program that tells no two states apart that are alike. -/
def Blind (x : Compile α β) : Prop := ∀ c d, Alike c d → seen (x.run c) = seen (x.run d)

/-- It is enough to look at abandoned states and the same states without the lists. -/
theorem blind_of_failed {x : Compile α β}
    (h : ∀ c : Compilation α, c.phase = .failed → seen (x.run c) = seen (x.run c.withoutLists)) :
    Blind x := by
  have hveil : ∀ c : Compilation α, seen (x.run c) = seen (x.run c.veil) := by
    intro c
    by_cases hc : c.phase = .failed
    · rw [veil_of_failed hc]
      exact h c hc
    · rw [veil_of_not_failed hc]
  intro c d hcd
  rw [hveil c, hveil d, show c.veil = d.veil from hcd]

/-! ### Programs -/

theorem blind_pure (b : β) : Blind (pure b : Compile α β) := fun c d hcd => by
  show (Except.ok b, c.veil) = (Except.ok b, d.veil)
  rw [show c.veil = d.veil from hcd]

theorem blind_throw (fault : Fault) : Blind (throw fault : Compile α β) := fun c d hcd => by
  show (Except.error fault, c.veil) = (Except.error fault, d.veil)
  rw [show c.veil = d.veil from hcd]

/-- What is learned at the end of a program is what is learned at the end of its
second part. -/
theorem blind_bind {x : Compile α β} {f : β → Compile α γ} (hx : Blind x)
    (hf : ∀ b, Blind (f b)) : Blind (x >>= f) := by
  intro c d hcd
  have hxcd := hx c d hcd
  rw [EStateM.run_bind, EStateM.run_bind]
  cases hc : x.run c <;> cases hd : x.run d <;>
    simp only [hc, hd, seen, Prod.mk.injEq, Except.ok.injEq, Except.error.injEq, reduceCtorEq,
      false_and] at hxcd
  · obtain ⟨rfl, halike⟩ := hxcd
    exact hf _ _ _ halike
  · obtain ⟨rfl, halike⟩ := hxcd
    simp [seen, halike]

theorem blind_attempt {x : Compile α β} (hx : Blind x) : Blind (attempt x) := by
  intro c d hcd
  have hxcd := hx c d hcd
  simp only [attempt, EStateM.run] at hxcd ⊢
  cases hc : x c <;> cases hd : x d <;> simp_all [seen]

/-- A program that goes on with the state may do so if it does not look at the lists. -/
theorem blind_get {g : Compilation α → Compile α β} (hg : ∀ c, g c = g c.withoutLists)
    (h : ∀ c, Blind (g c)) : Blind (get >>= g) := by
  intro c d hcd
  have hlists : c.withoutLists = d.withoutLists := by
    rw [← withoutLists_veil, show c.veil = d.veil from hcd, withoutLists_veil]
  show seen ((g c).run c) = seen ((g d).run d)
  rw [hg c, hg d, hlists]
  exact h _ c d hcd

/-- A change of the state that does not look at the lists and leaves an abandoned
compilation abandoned. -/
theorem blind_modify {f : Compilation α → Compilation α}
    (hf : ∀ c, c.phase = .failed →
      (f c).phase = .failed ∧ (f c).withoutLists = (f c.withoutLists).withoutLists) :
    Blind (modify f : Compile α Unit) := by
  refine blind_of_failed fun c hc => ?_
  obtain ⟨hphase, hlists⟩ := hf c hc
  have hphase' : (f c.withoutLists).phase = .failed := (hf c.withoutLists hc).1
  show (Except.ok (), (f c).veil) = (Except.ok (), (f c.withoutLists).veil)
  rw [veil_of_failed hphase, veil_of_failed hphase', hlists]

theorem blind_ite {p : Prop} [Decidable p] {x y : Compile α β} (hx : Blind x) (hy : Blind y) :
    Blind (if p then x else y) := by
  split
  · exact hx
  · exact hy

theorem blind_ofOutcome (outcome : Except Fault β) : Blind (ofOutcome outcome : Compile α β) := by
  cases outcome with
  | ok b => exact blind_pure b
  | error fault => exact blind_throw fault

/-- What is seen of the state. -/
theorem blind_view (f : Compilation α → β) : Blind (do return f (← get).withoutLists) :=
  blind_get (fun _ => rfl) fun _ => blind_pure _

theorem blind_forM {f : β → Compile α PUnit} (hf : ∀ b, Blind (f b)) :
    ∀ bs : List β, Blind (bs.forM f)
  | [] => blind_pure _
  | b :: bs => blind_bind (hf b) fun _ => blind_forM hf bs

/-- A step that an abandoned compilation refuses may do anything in other states. -/
theorem blind_of_refuses {x : Compile α β} (fault : Fault)
    (h : ∀ c : Compilation α, c.phase = .failed → x.run c = .error fault c) : Blind x := by
  refine blind_of_failed fun c hc => ?_
  rw [h c hc, h c.withoutLists hc]
  show (Except.error fault, c.veil) = (Except.error fault, c.withoutLists.veil)
  rw [veil_of_failed hc, veil_of_failed (c := c.withoutLists) hc]
  rfl

/-! ### The steps of a compilation -/

theorem blind_abandon : Blind (abandon : Compile α Unit) :=
  blind_modify fun _ _ => ⟨rfl, rfl⟩

theorem run_shared_of_failed {c : Compilation α} (hc : c.phase = .failed) :
    (shared : Compile α SharedRegisters).run c = .error .notCompiled c := by
  have hshared : c.shared? = .error .notCompiled := by
    unfold shared? isActive
    rw [hc]
    rfl
  show (ofOutcome c.shared?).run c = _
  rw [hshared]
  rfl

theorem blind_shared_bind (f : SharedRegisters → Compile α β) : Blind (shared >>= f) :=
  blind_of_refuses .notCompiled fun c hc => by rw [EStateM.run_bind, run_shared_of_failed hc]

theorem run_enter_of_failed {c : Compilation α} (phase : Phase) (hc : c.phase = .failed) :
    (enter phase).run c = .error .notCompiled c := by
  have hnext : c.phase.next = none := by
    rw [hc]
    rfl
  simp only [enter, EStateM.run_bind, EStateM.run_get, hnext]
  rfl

theorem blind_enter_bind (phase : Phase) (f : Unit → Compile α β) : Blind (enter phase >>= f) :=
  blind_of_refuses .notCompiled fun c hc => by rw [EStateM.run_bind, run_enter_of_failed phase hc]

theorem blind_setIndex (node : NodeId) (slot index : Nat) :
    Blind (setIndex node slot index : Compile α Unit) :=
  blind_modify fun _ hc => ⟨hc, rfl⟩

theorem blind_allocate (pool : Pool) (count : Nat) :
    Blind (allocate pool count : Compile α Nat) := by
  have htake : ∀ first last : Nat, Blind (do
      modify fun c : Compilation α => { c with used := c.used.set pool last }
      return first) := fun first last =>
    blind_bind (blind_modify fun _ hc => ⟨hc, rfl⟩) fun _ => blind_pure first
  exact blind_get (fun _ => rfl) fun _ => blind_bind (blind_ofOutcome _) fun last =>
    blind_ite (blind_bind (blind_throw _) fun _ => htake _ last) (htake _ last)

theorem blind_acquire : Blind (acquire : Compile α Register) :=
  blind_get (fun _ => rfl) fun c => by
    split
    · exact blind_throw _
    · exact blind_bind (blind_modify fun _ hc => ⟨hc, rfl⟩) fun _ => blind_pure _

theorem blind_claim (r : Register) : Blind (claim r : Compile α Unit) :=
  blind_ite
    (blind_get (fun _ => rfl) fun _ => blind_ite (blind_modify fun _ hc => ⟨hc, rfl⟩)
      (blind_bind (blind_ofOutcome _) fun _ => blind_throw _))
    (blind_pure _)

theorem blind_release (r : Register) : Blind (release r : Compile α Unit) :=
  blind_modify fun c hc => by
    by_cases hr : r.kind = .vertexTemporary
    · simp only [if_pos hr]
      exact ⟨hc, rfl⟩
    · simp only [if_neg hr]
      exact ⟨hc, rfl⟩

theorem blind_bindStream (info : NodeInfo) (slot start components : Nat) :
    Blind (bindStream info slot start components : Compile α Register) :=
  blind_bind (blind_bind (blind_allocate _ _) fun _ => blind_pure _) fun _ =>
    blind_bind (blind_setIndex _ _ _) fun _ =>
      blind_bind (blind_modify fun _ hc => ⟨hc, rfl⟩) fun _ => blind_pure _

theorem blind_storeUvCode (code : Program) : Blind (storeUvCode code : Compile α Unit) :=
  blind_modify fun _ hc => ⟨hc, rfl⟩

theorem blind_setVertexConstant (index : Nat) (value : Vec4 α) :
    Blind (setVertexConstant index value) :=
  blind_get (fun _ => rfl) fun _ => blind_bind (blind_ofOutcome _) fun _ =>
    blind_modify fun _ hc => ⟨hc, rfl⟩

theorem blind_setFragmentConstant (index : Nat) (value : Vec4 α) :
    Blind (setFragmentConstant index value) :=
  blind_get (fun _ => rfl) fun _ => blind_bind (blind_ofOutcome _) fun _ =>
    blind_modify fun _ hc => ⟨hc, rfl⟩

theorem blind_setVertexMatrix [Scalar α] (index : Nat) (m : Mat3 α) :
    Blind (setVertexMatrix index m) :=
  blind_forM (fun _ => blind_bind (blind_ofOutcome _) fun _ => blind_setVertexConstant _ _) _

theorem blind_uvCode [Scalar α] (s : NodeSet α) (source target : String) :
    Blind (s.uvCode source target) :=
  blind_of_refuses .notCompiled fun c hc => by
    have hidle : c.isActive = false := by
      unfold isActive
      rw [hc]
      rfl
    simp only [NodeSet.uvCode, EStateM.run_bind, EStateM.run_get, hidle]
    rfl

theorem blind_activate [Scalar α] (s : NodeSet α) (frame : Frame α) : Blind (s.activate frame) :=
  blind_of_refuses .notCompiled fun c hc => by
    have hphase : c.phase ≠ .done := by
      rw [hc]
      exact Phase.noConfusion
    simp only [NodeSet.activate, EStateM.run_bind, EStateM.run_get, if_pos hphase]
    rfl

/-! ### The beginning of a compilation -/

/-- The beginning of a compilation makes any two states alike. -/
theorem alike_restart (c d : Compilation α) (profile : Profile) (pass : Pass)
    (features : Features) :
    Alike (c.restart profile pass features) (d.restart profile pass features) := rfl

/-- Once the lists are written nothing is left to tell two states apart. -/
theorem blind_writeLists {outcome : Except Fault (List Register)} (sources : List Register)
    (f : List Register → Compile α β) :
    Blind (do
      modify fun c => { c with sources }
      let targets ← ofOutcome outcome
      modify fun c => { c with targets }
      f targets) := by
  cases outcome with
  | error fault =>
    exact blind_bind (blind_modify fun _ hc => ⟨hc, rfl⟩) fun _ c d hcd =>
      blind_throw fault c d hcd
  | ok targets => exact blind_of_failed fun c _ => rfl

/-- What a beginning leads to depends on its arguments alone. -/
theorem seen_reset (profile : Profile) (pass : Pass) (features : Features)
    (sources targets : List String) (c d : Compilation α) :
    seen ((reset profile pass features sources targets).run c) =
      seen ((reset profile pass features sources targets).run d) := by
  have hrest : Blind (do
      let sources ← ofOutcome (sources.mapM Register.ofName)
      modify fun c : Compilation α => { c with sources }
      let targets ← ofOutcome (targets.mapM Register.ofName)
      modify fun c => { c with targets }
      shareRegisters sources targets) :=
    blind_bind (blind_ofOutcome _) fun _ => blind_writeLists _ _
  exact hrest _ _ (alike_restart c d profile pass features)

/-- A beginning that succeeds leads to the first phase. -/
theorem phase_of_leads_reset {profile : Profile} {pass : Pass} {features : Features}
    {sources targets : List String} {c c' : Compilation α}
    (h : Leads (reset profile pass features sources targets) c () c') : c'.phase = .reset := by
  simp only [reset, leads_bind, leads_modify, leads_ofOutcome] at h
  obtain ⟨_, _, -, sources, _, -, _, _, -, targets, _, -, _, _, -, h⟩ := h
  unfold shareRegisters at h
  split at h
  · split at h
    · simp at h
    · simp only [leads_bind, leads_modify] at h
      obtain ⟨_, _, -, _, _, -, rfl⟩ := h
      rfl
  · simp at h

theorem run_orAbandon_of_error {x : Compile α β} {c c' : Compilation α} {fault : Fault}
    (h : x.run c = .error fault c') :
    (orAbandon x).run c = .error fault { c' with phase := .failed } := by
  have hx : x c = .error fault c' := h
  simp only [orAbandon, EStateM.run, hx]

/-- Two beginnings with the same arguments lead to the same state, or fail in the
same way in states that are alike. -/
theorem run_reset_cases (profile : Profile) (pass : Pass) (features : Features)
    (sources targets : List String) (c d : Compilation α) :
    (∃ c', (reset profile pass features sources targets).run c = .ok () c' ∧
      (reset profile pass features sources targets).run d = .ok () c') ∨
    ∃ fault c' d', (reset profile pass features sources targets).run c = .error fault c' ∧
      (reset profile pass features sources targets).run d = .error fault d' ∧ Alike c' d' := by
  have hseen := seen_reset profile pass features sources targets c d
  cases hc : (reset profile pass features sources targets).run c with
  | ok _ c' =>
    cases hd : (reset profile pass features sources targets).run d with
    | ok _ d' =>
      have hc' : c'.phase ≠ .failed := by
        rw [phase_of_leads_reset hc]
        exact Phase.noConfusion
      have hd' : d'.phase ≠ .failed := by
        rw [phase_of_leads_reset hd]
        exact Phase.noConfusion
      rw [hc, hd] at hseen
      have halike : c'.veil = d'.veil := (Prod.mk.inj hseen).2
      rw [veil_of_not_failed hc', veil_of_not_failed hd'] at halike
      exact .inl ⟨c', rfl, by rw [halike]⟩
    | error fault d' =>
      rw [hc, hd] at hseen
      cases (Prod.mk.inj hseen).1
  | error fault c' =>
    cases hd : (reset profile pass features sources targets).run d with
    | ok _ d' =>
      rw [hc, hd] at hseen
      cases (Prod.mk.inj hseen).1
    | error fault' d' =>
      rw [hc, hd] at hseen
      obtain ⟨hfault, halike⟩ := Prod.mk.inj hseen
      cases hfault
      exact .inr ⟨fault, c', d', rfl, rfl, halike⟩

/-- Two results of compilations: the same code in the same state, or the same fault
in two abandoned states that are alike. -/
inductive SameEnd : EStateM.Result Fault (Compilation α) β →
    EStateM.Result Fault (Compilation α) β → Prop where
  /-- Both succeed. -/
  | ok (b : β) (c : Compilation α) : SameEnd (.ok b c) (.ok b c)
  /-- Both fail. -/
  | error (fault : Fault) {c d : Compilation α} : c.phase = .failed → d.phase = .failed →
    Alike c d → SameEnd (.error fault c) (.error fault d)

/-- A compilation ends in the same way whatever state it begins in. -/
theorem sameEnd_vertexCode (s : NodeSet α) (pass : Pass) (profile : Profile)
    (sources targets : List String) (c d : Compilation α) :
    SameEnd ((s.vertexCode pass profile sources targets).run c)
      ((s.vertexCode pass profile sources targets).run d) := by
  unfold NodeSet.vertexCode
  rcases run_reset_cases profile pass (s.settings.features ∪ pass.features) sources targets c d with
    ⟨c', hc, hd⟩ | ⟨fault, c', d', hc, hd, halike⟩
  · have hbegin : ∀ {e : Compilation α},
        (reset profile pass (s.settings.features ∪ pass.features) sources targets).run e =
          .ok () c' →
        (do
          reset profile pass (s.settings.features ∪ pass.features) sources targets
          s.vertexFragments).run e = s.vertexFragments.run c' := by
      intro e he
      rw [EStateM.run_bind, he]
    cases hrun : s.vertexFragments.run c' with
    | ok code c'' =>
      rw [leads_orAbandon.mpr ((hbegin hc).trans hrun),
        leads_orAbandon.mpr ((hbegin hd).trans hrun)]
      exact .ok code c''
    | error fault c'' =>
      rw [run_orAbandon_of_error ((hbegin hc).trans hrun),
        run_orAbandon_of_error ((hbegin hd).trans hrun)]
      exact .error fault (c := { c'' with phase := .failed }) rfl rfl rfl
  · rw [run_orAbandon_of_error (by rw [EStateM.run_bind, hc]),
      run_orAbandon_of_error (by rw [EStateM.run_bind, hd])]
    exact .error fault rfl rfl (Alike.abandon halike)

theorem SameEnd.seen_eq {r r' : EStateM.Result Fault (Compilation α) β} (h : SameEnd r r') :
    seen r = seen r' := by
  cases h with
  | ok b c => rfl
  | error fault hc hd halike => exact congrArg (Prod.mk _) halike

/-! ### Public programs -/

/-- What a program ends with. -/
def outcome (r : EStateM.Result Fault (Compilation α) β) : Except Fault β :=
  match r with
  | .ok b _ => .ok b
  | .error fault _ => .error fault

theorem outcome_eq (r : EStateM.Result Fault (Compilation α) β) : outcome r = (seen r).1 := by
  cases r <;> rfl

/-- No public program tells two states apart that are alike. -/
theorem Public.blind [Scalar α] {x : Compile α β} (h : Public x) : Blind x := by
  induction h with
  | pure b => exact blind_pure b
  | throw fault => exact blind_throw fault
  | bind _ _ hx hf => exact blind_bind hx hf
  | attempt _ hx => exact blind_attempt hx
  | view f => exact blind_view f
  | reset profile pass features sources targets =>
    exact fun c d _ => seen_reset profile pass features sources targets c d
  | enter phase => exact blind_of_refuses .notCompiled fun _ hc => run_enter_of_failed phase hc
  | abandon => exact blind_abandon
  | shared => exact blind_of_refuses .notCompiled fun _ hc => run_shared_of_failed hc
  | allocate pool count => exact blind_allocate pool count
  | acquire => exact blind_acquire
  | claim r => exact blind_claim r
  | release r => exact blind_release r
  | setIndex node slot index => exact blind_setIndex node slot index
  | bindStream info slot start components => exact blind_bindStream info slot start components
  | initCode => exact blind_shared_bind _
  | combineCode => exact blind_shared_bind _
  | initColor => exact blind_shared_bind _
  | setUv source target => exact blind_shared_bind _
  | storeUvCode code => exact blind_storeUvCode code
  | finish => exact blind_enter_bind _ _
  | setVertexConstant index value => exact blind_setVertexConstant index value
  | setVertexMatrix index m => exact blind_setVertexMatrix index m
  | setFragmentConstant index value => exact blind_setFragmentConstant index value
  | vertexCode s pass profile sources targets =>
    exact fun c d _ => (sameEnd_vertexCode s pass profile sources targets c d).seen_eq
  | uvCode s source target => exact blind_uvCode s source target
  | activate s frame => exact blind_activate s frame

/-- **Independence of the past**: a compilation of a set ends in the same way whatever
states it begins in. If it succeeds, both states are equal afterwards; if it fails,
both are abandoned and every public program gives the same on both from then on. -/
theorem vertexCode_independent [Scalar α] (s : NodeSet α) (pass : Pass) (profile : Profile)
    (sources targets : List String) (c d : Compilation α) :
    match (s.vertexCode pass profile sources targets).run c,
      (s.vertexCode pass profile sources targets).run d with
    | .ok code c', .ok code' d' => code = code' ∧ c' = d'
    | .error fault c', .error fault' d' =>
      fault = fault' ∧ c'.phase = .failed ∧ d'.phase = .failed ∧
        ∀ {β : Type} {x : Compile α β}, Public x → outcome (x.run c') = outcome (x.run d')
    | _, _ => False := by
  have hsame := sameEnd_vertexCode s pass profile sources targets c d
  generalize (s.vertexCode pass profile sources targets).run c = r at hsame
  generalize (s.vertexCode pass profile sources targets).run d = r' at hsame
  cases hsame with
  | ok code c' => exact ⟨rfl, rfl⟩
  | error fault hc hd halike =>
    exact ⟨rfl, hc, hd, fun hx => by rw [outcome_eq, outcome_eq, hx.blind _ _ halike]⟩

end Compile

end ParticleShader
