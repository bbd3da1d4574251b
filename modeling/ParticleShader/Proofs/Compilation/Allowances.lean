import ParticleShader.Proofs.Compilation.Ranges
import ParticleShader.Proofs.Register.Name

/-!
# What steps may ask for

A step may be allowed to ask a pool for certain numbers of registers only, to bind certain
streams only, and to claim a temporary only so often (`Allowance`). Whether it keeps to that can
be said of each step and of a sequence (`Abides`), together with the allocations that it makes
and how they end: all are granted, or the last one is refused, and then its fault is the answer
of the step (`Concludes`).

A beginning asks for a single constant. Beside it only the name of a target can be at fault for
a size, where the temporary is the last one that an index can name
(`abides_shareNamed`).
-/

namespace ParticleShader

variable {α β γ : Type}

/-- Where the values of a node begin in a record of a buffer. -/
def NodeInfo.offsetIn (info : NodeInfo) : Buffer → Nat
  | .baked => info.offset
  | .dynamic => info.dynamicOffset

namespace Compile

open Compilation

/-! ### Allowances -/

/-- What a step may do. -/
structure Allowance where
  /-- So many registers of a pool may be asked for at once. -/
  count : Pool → Nat → Prop
  /-- Such a stream may be bound. -/
  stream : StreamBinding → Prop
  /-- So often a temporary may be claimed at the same time. -/
  claims : Nat
  /-- A fault may be about a size without an allocation that is refused. -/
  oversize : Prop

/-- An allocation has its registers. -/
def Allocation.Granted (a : Allocation) : Prop := ∃ first, a.answer = .ok first

/-- How the allocations of a step end, and its answer. -/
inductive Concludes (w : Allowance) : List Allocation → Except Fault β → Prop where
  /-- All of them are granted. -/
  | granted {log : List Allocation} {answer : Except Fault β} : (∀ a ∈ log, a.Granted) →
    (answer = .error .sizeOverflow → w.oversize) → Concludes w log answer
  /-- The last one is refused, and so is the step. -/
  | refused {log : List Allocation} {a : Allocation} {fault : Fault} : (∀ b ∈ log, b.Granted) →
    a.answer = .error fault → Concludes w (log ++ [a]) (.error fault)

/-- What a step changes in a state, apart from the pools. -/
structure Changes (w : Allowance) (c c' : Compilation α) : Prop where
  /-- Streams are bound that may be. -/
  bindings : ∃ more, c'.bindings = c.bindings ++ more ∧ ∀ b ∈ more, w.stream b
  /-- There are as many temporaries. -/
  temporaries : c'.temporaries.length = c.temporaries.length
  /-- None of them is claimed too often. -/
  claims : (∀ usage ∈ c.temporaries, usage ≤ w.claims) → ∀ usage ∈ c'.temporaries, usage ≤ w.claims

/-- A step keeps to an allowance in a state, and makes these allocations. -/
structure Abides (w : Allowance) (x : Compile α β) (c : Compilation α) (log : List Allocation) :
    Prop where
  /-- These are the allocations. -/
  allocates : Allocates x c log
  /-- They may be asked for. -/
  counts : ∀ a ∈ log, w.count a.pool a.count
  /-- They end with the step. -/
  concludes : Concludes w log (outcome (x.run c))
  /-- The changes are allowed. -/
  changes : Changes w c (c.after x)

/-- A step keeps to an allowance in every state. -/
def Abiding (w : Allowance) (x : Compile α β) : Prop := ∀ c, ∃ log, Abides w x c log

section

variable {w w' : Allowance} {x : Compile α β} {f : β → Compile α γ} {c c' c'' : Compilation α}
  {log log' : List Allocation}

theorem Changes.refl (w : Allowance) (c : Compilation α) : Changes w c c :=
  ⟨⟨[], (List.append_nil _).symm, List.forall_mem_nil _⟩, rfl, id⟩

theorem Changes.trans (h : Changes w c c') (h' : Changes w c' c'') : Changes w c c'' := by
  obtain ⟨⟨more, hmore, hstreams⟩, htemporaries, hclaims⟩ := h
  obtain ⟨⟨more', hmore', hstreams'⟩, htemporaries', hclaims'⟩ := h'
  refine ⟨⟨more ++ more', ?_, List.forall_mem_append.mpr ⟨hstreams, hstreams'⟩⟩,
    htemporaries'.trans htemporaries, fun husages => hclaims' (hclaims husages)⟩
  rw [hmore', hmore, List.append_assoc]

/-- Behind a step that succeeds the allocations go on. -/
theorem Concludes.append {b : β} {answer : Except Fault γ}
    (h : Concludes w log (.ok b : Except Fault β)) (h' : Concludes w log' answer) :
    Concludes w (log ++ log') answer := by
  cases h with
  | granted hlog _ =>
    cases h' with
    | granted hlog' hsize =>
      exact .granted (List.forall_mem_append.mpr ⟨hlog, hlog'⟩) hsize
    | refused hfront herror =>
      rw [← List.append_assoc]
      exact .refused (List.forall_mem_append.mpr ⟨hlog, hfront⟩) herror

/-- A step that is refused ends the sequence. -/
theorem Concludes.stop {fault : Fault} (h : Concludes w log (.error fault : Except Fault β)) :
    Concludes w log (.error fault : Except Fault γ) := by
  cases h with
  | granted hlog hsize =>
    exact .granted hlog fun hfault => hsize (congrArg _ (Except.error.inj hfault))
  | refused hfront herror => exact .refused hfront herror

theorem Concludes.mono {answer : Except Fault β} (h : Concludes w log answer)
    (hsize : w.oversize → w'.oversize) : Concludes w' log answer := by
  cases h with
  | granted hlog hfault => exact .granted hlog fun hanswer => hsize (hfault hanswer)
  | refused hfront herror => exact .refused hfront herror

theorem Abides.bind_ok {b : β} (hx : Abides w x c log) (hleads : Leads x c b c')
    (hf : Abides w (f b) c' log') : Abides w (x >>= f) c (log ++ log') := by
  obtain ⟨hallocates, hcounts, hconcludes, hchanges⟩ := hx
  have hrun : x.run c = .ok b c' := hleads
  rw [hrun] at hconcludes
  rw [hleads.after_eq] at hchanges
  refine ⟨.bind hallocates hleads hf.allocates, List.forall_mem_append.mpr ⟨hcounts, hf.counts⟩,
    ?_, ?_⟩
  · rw [EStateM.run_bind, hrun]
    exact hconcludes.append hf.concludes
  · rw [hleads.after_bind]
    exact hchanges.trans hf.changes

theorem Abides.bind_error {fault : Fault} (hx : Abides w x c log)
    (hrun : x.run c = .error fault c') : Abides w (x >>= f) c log := by
  obtain ⟨hallocates, hcounts, hconcludes, hchanges⟩ := hx
  rw [hrun] at hconcludes
  rw [after_of_error hrun] at hchanges
  refine ⟨.stop hallocates hrun, hcounts, ?_, ?_⟩
  · rw [EStateM.run_bind, hrun]
    exact hconcludes.stop
  · rwa [after_bind, hrun]

theorem Abides.bind (hx : Abides w x c log)
    (hf : ∀ b c', Leads x c b c' → ∃ log', Abides w (f b) c' log') :
    ∃ log', Abides w (x >>= f) c log' := by
  cases hrun : x.run c with
  | error fault c' => exact ⟨log, hx.bind_error hrun⟩
  | ok b c' =>
    obtain ⟨log', hnext⟩ := hf b c' hrun
    exact ⟨log ++ log', hx.bind_ok hrun hnext⟩

/-- Other numbers of registers may be asked for if those that are asked for are among them. -/
theorem Abides.recount {count : Pool → Nat → Prop} (h : Abides { w with count } x c log)
    (hcounts : ∀ a ∈ log, w.count a.pool a.count) : Abides w x c log := by
  obtain ⟨hallocates, -, hconcludes, ⟨hbindings, htemporaries, hclaims⟩⟩ := h
  exact ⟨hallocates, hcounts, hconcludes.mono id, ⟨hbindings, htemporaries, hclaims⟩⟩

theorem abiding_bind (hx : Abiding w x) (hf : ∀ b, Abiding w (f b)) : Abiding w (x >>= f) := by
  intro c
  obtain ⟨log, hlog⟩ := hx c
  exact hlog.bind fun b c' _ => hf b c'

/-! ### Single steps -/

/-- A step that makes no allocation. -/
theorem abides_of_needless (hallocates : Allocates x c [])
    (hsize : outcome (x.run c) = .error .sizeOverflow → w.oversize)
    (hchanges : Changes w c (c.after x)) : Abides w x c [] :=
  ⟨hallocates, List.forall_mem_nil _, .granted (List.forall_mem_nil _) hsize, hchanges⟩

theorem abides_pure (b : β) (c : Compilation α) : Abides w (pure b : Compile α β) c [] :=
  abides_of_needless (.pure b c) (fun h => by cases h) (.refl w c)

theorem abides_throw {fault : Fault} (h : fault = .sizeOverflow → w.oversize)
    (c : Compilation α) : Abides w (throw fault : Compile α β) c [] :=
  abides_of_needless (.throw fault c) (fun hfault => h (Except.error.inj hfault)) (.refl w c)

theorem abides_get (c : Compilation α) : Abides w (get : Compile α (Compilation α)) c [] :=
  abides_of_needless (.get c) (fun h => by cases h) (.refl w c)

theorem abides_modify {g : Compilation α → Compilation α} (hpools : (g c).pools = c.pools)
    (h : Changes w c (g c)) : Abides w (modify g : Compile α PUnit) c [] :=
  abides_of_needless (.modify hpools) (fun h => by cases h) h

theorem abides_allocate {pool : Pool} {count : Nat} (hcount : w.count pool count)
    (c : Compilation α) : Abides w (allocate pool count) c
      [{ pool, count, answer := outcome ((allocate pool count).run c) }] := by
  refine ⟨.allocate pool count c, by simpa using hcount, ?_, ?_⟩
  · cases hanswer : outcome ((allocate pool count : Compile α Nat).run c) with
    | ok first => exact .granted (by simp [Allocation.Granted]) nofun
    | error fault => exact .refused (List.forall_mem_nil _) rfl
  · cases hrun : (allocate pool count : Compile α Nat).run c with
    | error fault c' =>
      obtain rfl := (run_allocate_of_error hrun).1
      rw [after_of_error hrun]
      exact .refl w c'
    | ok first c' =>
      obtain ⟨-, -, rfl⟩ := leads_allocate.mp hrun
      rw [Leads.after_eq hrun]
      exact ⟨⟨[], (List.append_nil _).symm, List.forall_mem_nil _⟩, rfl, id⟩

/-- A change that neither concerns the pools nor the temporaries nor the streams. -/
theorem abiding_modify {g : Compilation α → Compilation α}
    (h : ∀ c, (g c).pools = c.pools ∧ (g c).bindings = c.bindings ∧
      (g c).temporaries = c.temporaries) : Abiding w (modify g : Compile α PUnit) := by
  intro c
  obtain ⟨hpools, hbindings, htemporaries⟩ := h c
  refine ⟨[], abides_modify hpools ⟨⟨[], ?_, List.forall_mem_nil _⟩, by rw [htemporaries], ?_⟩⟩
  · rw [hbindings, List.append_nil]
  · rw [htemporaries]
    exact id

theorem abides_get_bind {g : Compilation α → Compile α β} (h : Abides w (g c) c log) :
    Abides w (get >>= g) c log := (abides_get c).bind_ok rfl h

theorem abiding_get_bind {g : Compilation α → Compile α β}
    (h : ∀ c, ∃ log, Abides w (g c) c log) : Abiding w (get >>= g) :=
  fun c => (h c).imp fun _ => abides_get_bind

/-- Faults that are not about sizes are always allowed. -/
theorem abiding_chained (w : Allowance) : Chained (α := α) fun _ x => Abiding w x where
  pure b c := ⟨[], abides_pure b c⟩
  refuse hfault c := ⟨[], abides_throw (fun h => absurd h hfault) c⟩
  bind := abiding_bind
  view _ := abiding_get_bind fun c => ⟨[], abides_pure _ c⟩

end

/-! ### Temporaries -/

section

variable {w : Allowance} {c : Compilation α} {r : Register}

/-- One more claim changes one temporary. -/
theorem changes_claiming {index : Nat}
    (h : (∀ usage ∈ c.temporaries, usage ≤ w.claims) →
      ∀ usage, c.temporaries[index]? = some usage → usage + 1 ≤ w.claims) :
    Changes w c (c.claiming index) := by
  refine ⟨⟨[], (List.append_nil _).symm, List.forall_mem_nil _⟩, List.length_modify ..,
    fun hall usage hmem => ?_⟩
  obtain ⟨i, hi⟩ := List.mem_iff_getElem?.mp hmem
  show usage ≤ w.claims
  unfold claiming at hi
  rw [List.getElem?_modify] at hi
  obtain ⟨old, hold, rfl⟩ := Option.map_eq_some_iff.mp hi
  split
  · rename_i heq
    subst heq
    exact h hall old hold
  · exact hall old (List.mem_of_getElem? hold)

theorem changes_releasing (index : Nat) : Changes w c (c.releasing index) := by
  refine ⟨⟨[], (List.append_nil _).symm, List.forall_mem_nil _⟩, List.length_modify ..,
    fun hall usage hmem => ?_⟩
  obtain ⟨i, hi⟩ := List.mem_iff_getElem?.mp hmem
  unfold releasing at hi
  rw [List.getElem?_modify] at hi
  obtain ⟨old, hold, rfl⟩ := Option.map_eq_some_iff.mp hi
  have hle := hall old (List.mem_of_getElem? hold)
  split
  · exact Nat.le_trans (Nat.sub_le ..) hle
  · exact hle

/-- A temporary that is free is not claimed yet. -/
theorem abiding_acquire (hclaims : 0 < w.claims) :
    Abiding w (acquire : Compile α Register) := by
  refine abiding_get_bind fun c => ?_
  rw [findIdx?_eq_head?, ← free]
  cases hfree : c.free.head? with
  | none => exact ⟨[], abides_throw (by simp) c⟩
  | some index =>
    have hzero : c.temporaries[index]? = some 0 := mem_free.mp (List.mem_of_head? hfree)
    have hclaim : Changes w c (c.claiming index) := changes_claiming fun _ usage husage => by
      rw [hzero, Option.some.injEq] at husage
      rwa [← husage]
    exact ⟨[], (abides_modify (g := (·.claiming index)) rfl hclaim).bind_ok rfl (abides_pure _ _)⟩

theorem abiding_release (r : Register) : Abiding w (release r : Compile α Unit) := by
  intro c
  refine ⟨[], abides_modify ?_ ?_⟩ <;> split
  · rfl
  · rfl
  · exact changes_releasing r.index
  · exact .refl w c

/-- A temporary is claimed by name if its index allows it, and refused for its index otherwise. -/
theorem abides_claim {r : Register}
    (husages : ∀ usage ∈ c.temporaries, usage + 1 ≤ w.claims)
    (hsize : r.kind = .vertexTemporary → Size.bound ≤ r.index + 1 → w.oversize) :
    Abides w (claim r : Compile α Unit) c [] := by
  unfold claim
  split
  · rename_i hkind
    refine abides_get_bind ?_
    split
    · exact abides_modify (g := (·.claiming r.index)) rfl (changes_claiming fun _ usage husage =>
        husages usage (List.mem_of_getElem? husage))
    · cases hrequested : Size.add r.index 1 with
      | ok requested => exact (abides_pure requested c).bind_ok rfl (abides_throw (by simp) c)
      | error fault =>
        have hbound := (Size.add_eq_error.mp hrequested).2
        exact (abides_throw (fun _ => hsize hkind hbound) c).bind_error rfl
  · exact abides_pure () c

/-- Claiming all targets, where none of the temporaries is in use so often that another claim
would be too much. -/
theorem abides_forM_claim {targets : List Register} (hlength : targets.length ≤ w.claims)
    (husages : ∀ usage ∈ c.temporaries, usage + targets.length ≤ w.claims)
    (hsize : ∀ r ∈ targets, r.kind = .vertexTemporary → Size.bound ≤ r.index + 1 → w.oversize) :
    Abides w (targets.forM claim : Compile α Unit) c [] := by
  induction targets generalizing c with
  | nil => exact abides_pure () c
  | cons r targets ih =>
    obtain ⟨hfirst, hothers⟩ := List.forall_mem_cons.mp hsize
    rw [List.length_cons] at hlength husages
    have hone : Abides w (claim r : Compile α Unit) c [] :=
      abides_claim (fun usage hmem => by have := husages usage hmem; omega) hfirst
    cases hrun : (claim r : Compile α Unit).run c with
    | error fault c' => exact hone.bind_error hrun
    | ok u c' =>
      -- the same claim keeps to what the others leave of the allowance
      have hless : Abides { w with claims := w.claims - targets.length }
          (claim r : Compile α Unit) c [] :=
        abides_claim (fun usage hmem => by
          have := husages usage hmem
          show usage + 1 ≤ w.claims - targets.length
          omega) hfirst
      have hclaims := hless.changes.claims fun usage hmem => by
        have := husages usage hmem
        show usage ≤ w.claims - targets.length
        omega
      rw [Leads.after_eq hrun] at hclaims
      have hrest : Abides w (targets.forM claim : Compile α Unit) c' [] :=
        ih (by omega) (fun usage hmem => by
          have hle : usage ≤ w.claims - targets.length := hclaims usage hmem
          omega) hothers
      exact hone.bind_ok hrun hrest

end

/-! ### A beginning -/

section

variable {w : Allowance} {c : Compilation α} {sourceNames targetNames : List String}

theorem abiding_allocateRegisters {pool : Pool} {count : Nat} (hcount : w.count pool count) :
    Abiding w (allocateRegisters pool count : Compile α Register) :=
  abiding_bind (fun c => ⟨_, abides_allocate hcount c⟩) fun _ => (abiding_chained w).pure _

theorem abiding_allocateShared (hcount : w.count .vertexConstant 1) (hclaims : 0 < w.claims)
    (source vertex : Register) (directions : List Register) :
    Abiding w (allocateShared source vertex directions : Compile α SharedRegisters) := by
  have hw := abiding_chained (α := α) w
  refine hw.bind (abiding_allocateRegisters hcount) fun _ => hw.bind (abiding_acquire hclaims)
    fun _ => hw.bind (abiding_acquire hclaims) fun _ => hw.bind (hw.has _) fun _ => ?_
  split
  · exact hw.pure _
  · exact hw.pure _

/-- The targets are claimed and the shared registers are taken. -/
theorem abides_shareRegisters {sources targets : List Register}
    (hcount : w.count .vertexConstant 1) (hclaims : 0 < w.claims)
    (hlength : targets.length ≤ w.claims) (husages : ∀ usage ∈ c.temporaries, usage = 0)
    (hsize : ∀ r ∈ targets, r.kind = .vertexTemporary → Size.bound ≤ r.index + 1 → w.oversize) :
    ∃ log, Abides w (shareRegisters sources targets : Compile α Unit) c log := by
  have hw := abiding_chained (α := α) w
  unfold shareRegisters
  split
  · dsimp only
    split
    · exact ⟨[], (abides_throw (by simp) c).bind_error rfl⟩
    · rename_i source _ vertex directions _
      have hclaimed := abides_forM_claim (c := c) (w := w) hlength (fun usage hmem => by
        rw [husages usage hmem, Nat.zero_add]
        exact hlength) hsize
      refine hclaimed.bind fun _ c' _ => ?_
      refine hw.bind (abiding_allocateShared hcount hclaims source vertex directions)
        (fun _ => ?_) c'
      exact abiding_modify fun _ => ⟨rfl, rfl, rfl⟩
  · exact hw.refuse (by simp) c

/-- A name that cannot be read is not at fault for a size. -/
theorem abiding_readNames (names : List String) :
    Abiding w (ofOutcome (names.mapM Register.ofName) : Compile α (List Register)) := by
  intro c
  cases hread : names.mapM Register.ofName with
  | ok registers => exact ⟨[], abides_pure registers c⟩
  | error fault =>
    obtain ⟨name, -, rfl⟩ := Register.exists_of_mapM_ofName hread
    exact ⟨[], abides_throw (by simp) c⟩

/-- **A beginning** asks for one constant, and claims a temporary once for each target at most.
Apart from that constant only a target is at fault for a size. -/
theorem abides_shareNamed (hcount : w.count .vertexConstant 1) (hclaims : 0 < w.claims)
    (hlength : targetNames.length ≤ w.claims) (husages : ∀ usage ∈ c.temporaries, usage = 0)
    (hsize : ∀ name ∈ targetNames, ∀ r, Register.ofName name = .ok r →
      r.kind = .vertexTemporary → Size.bound ≤ r.index + 1 → w.oversize) :
    ∃ log, Abides w (shareNamed sourceNames targetNames : Compile α Unit) c log := by
  obtain ⟨_, hsources⟩ := abiding_readNames sourceNames c
  refine hsources.bind fun sources c₁ hread => ?_
  obtain ⟨-, rfl⟩ := leads_ofOutcome.mp hread
  obtain ⟨_, hsources⟩ := abiding_modify (w := w) (g := ({ · with sources }))
    (fun _ => ⟨rfl, rfl, rfl⟩) c
  refine hsources.bind fun _ c₁ hwritten => ?_
  obtain rfl := leads_modify.mp hwritten
  obtain ⟨_, htargets⟩ := abiding_readNames targetNames { c with sources }
  refine htargets.bind fun targets c₁ hread => ?_
  obtain ⟨hnamed, rfl⟩ := leads_ofOutcome.mp hread
  obtain ⟨_, htargets⟩ := abiding_modify (w := w) (g := ({ · with targets }))
    (fun _ => ⟨rfl, rfl, rfl⟩) { c with sources }
  refine htargets.bind fun _ c₁ hwritten => ?_
  obtain rfl := leads_modify.mp hwritten
  obtain ⟨hsame, hread⟩ := Register.of_mapM_ofName hnamed
  refine abides_shareRegisters hcount hclaims (hsame ▸ hlength) husages fun r hr => ?_
  obtain ⟨name, hname, hr⟩ := hread r hr
  exact hsize name hname r hr

end

/-! ### The code around the nodes -/

section

variable {w : Allowance}

theorem abiding_enter (phase : Phase) : Abiding w (enter phase : Compile α Unit) := by
  refine abiding_get_bind fun c => ?_
  split
  · exact (abiding_chained w).refuse (by simp) c
  · split
    · refine abiding_modify (fun _ => ?_) c
      exact ⟨rfl, rfl, rfl⟩
    · exact (abiding_chained w).refuse (by simp) c

theorem abiding_initCode : Abiding w (initCode : Compile α Program) :=
  abiding_bind (abiding_chained w).shared fun _ => abiding_get_bind fun c =>
    (abiding_chained w).pure _ c

theorem abiding_combineCode : Abiding w (combineCode : Compile α Program) :=
  abiding_bind (abiding_chained w).shared fun _ => (abiding_chained w).pure _

theorem abiding_accumulator (hcount : w.count .varying 1) (hclaims : 0 < w.claims)
    (wanted : Features → Bool) (start : Register)
    (putTarget putVarying : Register → ColorRegisters → ColorRegisters) :
    Abiding w (accumulator wanted start putTarget putVarying : Compile α Program) := by
  have hw := abiding_chained (α := α) w
  refine hw.bind (hw.has wanted) fun _ => ?_
  split
  · refine hw.bind (abiding_acquire hclaims) fun _ => hw.bind ?_ fun _ =>
      hw.bind (abiding_allocateRegisters hcount) fun _ => hw.bind ?_ fun _ => hw.pure _
    · exact abiding_modify fun _ => ⟨rfl, rfl, rfl⟩
    · exact abiding_modify fun _ => ⟨rfl, rfl, rfl⟩
  · exact hw.pure _

theorem abiding_initColor (hcount : w.count .varying 1) (hclaims : 0 < w.claims) :
    Abiding w (initColor : Compile α Program) := by
  have hw := abiding_chained (α := α) w
  refine hw.bind hw.shared fun shared => hw.bind (hw.has _) fun _ => ?_
  split
  · exact hw.bind (abiding_accumulator hcount hclaims _ _ _ _) fun _ =>
      hw.bind (abiding_accumulator hcount hclaims _ _ _ _) fun _ => hw.pure _
  · exact hw.pure _

/-- The steps that the vertex code of a node takes registers with, where the streams of the node
may be bound. -/
theorem emitting_abiding {info : NodeInfo} (hclaims : 0 < w.claims)
    (hone : w.count .vertexConstant 1) (hthree : w.count .vertexConstant 3)
    (hattribute : w.count .vertexAttribute 1)
    (hstream : ∀ buffer, info.mode = .perParticle buffer → ∀ register start components,
      start + components ≤ info.length →
      w.stream ⟨register, info.id, buffer, info.offsetIn buffer + start, components⟩) :
    Emitting (α := α) info fun _ x => Abiding w x where
  toChained := abiding_chained w
  claimConstants slot count hcount := by
    have hallowed : w.count .vertexConstant count := by
      rcases hcount with rfl | rfl
      · exact hone
      · exact hthree
    refine abiding_bind (abiding_allocateRegisters hallowed) fun _ => abiding_bind ?_ fun _ =>
      (abiding_chained w).pure _
    exact abiding_modify fun _ => ⟨rfl, rfl, rfl⟩
  acquire := abiding_acquire hclaims
  release := abiding_release
  bindStream slot start components hmode hlength := by
    have hbound : ∀ {buffer} (register : Nat), info.mode = .perParticle buffer →
        Abiding (α := α) w (modify fun c => { c with
          bindings := c.bindings ++
            [⟨register, info.id, buffer, info.offsetIn buffer + start, components⟩] }) :=
      fun register hbuffer c => ⟨[], abides_modify rfl ⟨⟨_, rfl,
        List.forall_mem_singleton.mpr (hstream _ hbuffer register _ _ hlength)⟩, rfl, id⟩⟩
    refine abiding_bind (abiding_allocateRegisters hattribute) fun register =>
      abiding_bind ?_ fun _ => ?_
    · exact abiding_modify fun _ => ⟨rfl, rfl, rfl⟩
    · cases hbuffer : info.mode with
      | global => exact absurd hbuffer hmode
      | perParticle buffer =>
        cases buffer with
        | baked => exact abiding_bind (hbound _ hbuffer) fun _ => (abiding_chained w).pure _
        | dynamic => exact abiding_bind (hbound _ hbuffer) fun _ => (abiding_chained w).pure _

end

end Compile

end ParticleShader
