import ParticleShader.Proofs.Animation.Additions
import ParticleShader.Proofs.Compilation.Allowances
import ParticleShader.Proofs.Compilation.Finishing
import ParticleShader.Proofs.NodeSet.Activation

/-!
# Offsets of a pass

A pass says how many registers of each pool the material uses, and may say any number. Writing the
vertex code of a set either ends in a fault or takes registers within the limits of the profile
(**`Built.offsets_spec`**). A pool whose limit is not above the offset is refused at its first use,
with the number of registers that there would have to be. Only where that number is no size the
fault is another one (`unbounded_offset`): at the last offset that there is, and for the last
temporary that can be named.

Nodes take one register at a time, or the three constants of a matrix. These only come behind the
constant of the shared registers, so the first request to a pool is always for one register
(`Gradual`).
-/

namespace ParticleShader

variable {α : Type}

namespace Compile

/-! ### The first request to a pool -/

/-- Allocations of three registers at most, and of one only in a pool of which nothing is granted
before. -/
def Gradual (log : List Allocation) : Prop :=
  ∀ before a after, log = before ++ a :: after →
    0 < a.count ∧ a.count ≤ 3 ∧ (total a.pool before = 0 → a.count = 1)

theorem gradual_of_single {log : List Allocation} (h : ∀ a ∈ log, a.count = 1) : Gradual log := by
  rintro before a after rfl
  have hcount : a.count = 1 := h a (List.mem_append_right _ List.mem_cons_self)
  omega

/-- Where something of a pool is granted, three registers of it may follow. -/
theorem Gradual.append {log log' : List Allocation} {pool : Pool} (h : Gradual log)
    (hgranted : 0 < total pool log)
    (h' : ∀ a ∈ log', a.count = 1 ∨ a.pool = pool ∧ a.count = 3) : Gradual (log ++ log') := by
  refine forall_split_append.mpr ⟨h, fun before a after hsplit => ?_⟩
  rcases h' a (hsplit ▸ List.mem_append_right _ List.mem_cons_self) with hone | ⟨rfl, hthree⟩
  · omega
  · rw [total_append]
    omega

/-! ### Where allocations end -/

/-- An allocation that is refused is the last one. -/
theorem Concludes.of_refused {β : Type} {w : Allowance} {log before after : List Allocation}
    {a : Allocation} {answer : Except Fault β} {fault : Fault} (h : Concludes w log answer)
    (hsplit : log = before ++ a :: after) (herror : a.answer = .error fault) :
    after = [] ∧ (∀ b ∈ before, b.Granted) ∧ answer = .error fault := by
  have hnot : ¬ a.Granted := by
    rintro ⟨first, hfirst⟩
    rw [herror] at hfirst
    cases hfirst
  cases h with
  | granted hlog _ =>
    exact absurd (hlog a (hsplit ▸ List.mem_append_right _ List.mem_cons_self)) hnot
  | @refused front last cause hfront hcause =>
    rcases List.eq_nil_or_concat' after with rfl | ⟨after, other, rfl⟩
    · obtain ⟨rfl, hlast⟩ := List.append_inj' hsplit rfl
      obtain rfl := List.singleton_inj.mp hlast
      obtain rfl := Except.error.inj (herror.symm.trans hcause)
      exact ⟨rfl, hfront, rfl⟩
    · rw [← List.cons_append, ← List.append_assoc] at hsplit
      obtain ⟨rfl, -⟩ := List.append_inj' hsplit rfl
      exact absurd (hfront a (List.mem_append_right _ List.mem_cons_self)) hnot

/-! ### Sums -/

section

variable {profile : Profile} {used : Pool → Nat} {log before after : List Allocation}
  {a : Allocation}

/-- The registers that there would have to be are few, or the allocation is the first one of its
pool and asks for one register. -/
theorem Gradual.sum_le (h : Gradual log) (hfaithful : Faithful profile.limits used log)
    (hsplit : log = before ++ a :: after) :
    used a.pool + total a.pool before + a.count ≤ 253 ∨
      used a.pool + total a.pool before + a.count = used a.pool + 1 := by
  have hlimit : profile.limits.of a.pool.kind ≤ 250 :=
    Compilation.limit_le { profile : Compilation Unit } a.pool
  obtain ⟨-, hthree, hone⟩ := h before a after hsplit
  by_cases hnone : total a.pool before = 0
  · rw [hnone, hone hnone]
    exact .inr rfl
  · rw [hsplit] at hfaithful
    have hgranted := hfaithful.of_append.add_total_le hnone
    exact .inl (by omega)

/-- Where the limit of a pool is not above the registers that are used before, the first allocation
of the pool is refused. -/
theorem Gradual.answer_of_limit_le (h : Gradual log)
    (hfaithful : Faithful profile.limits used log) (hsplit : log = before ++ a :: after)
    (hle : profile.limits.of a.pool.kind ≤ used a.pool) :
    a.answer = .error (if used a.pool + 1 < Size.bound then
      .registerOverflow a.pool.kind (used a.pool + 1) (profile.limits.of a.pool.kind)
      else .sizeOverflow) := by
  obtain ⟨hpos, -, hone⟩ := h before a after hsplit
  have hanswered := hfaithful before a after hsplit
  have hnone : total a.pool before = 0 := by
    by_contra hsome
    rw [hsplit] at hfaithful
    have hgranted := hfaithful.of_append.add_total_le hsome
    omega
  rw [hnone, Nat.add_zero] at hanswered
  cases hanswer : a.answer with
  | ok first =>
    obtain ⟨-, hroom⟩ := hanswered.of_ok hanswer
    omega
  | error fault =>
    obtain ⟨-, rfl⟩ := hanswered.of_error hanswer
    rw [hone hnone]

end

end Compile

namespace NodeSet

open Compile Compilation

/-! ### Records -/

theorem strideOf_withTime_lt {s : NodeSet α} {buffer : Buffer}
    (h : s.strideOf buffer < Size.bound) : s.withTime.strideOf buffer < Size.bound := by
  unfold withTime
  split
  · exact h
  · cases buffer with
    | baked =>
      show 4 < Size.bound
      decide
    | dynamic => exact h

/-- The length of a record is a size. -/
theorem Built.strideOf_lt [Scalar α] {s : NodeSet α} (h : s.Built) (buffer : Buffer) :
    s.strideOf buffer < Size.bound := by
  induction h with
  | empty lifecycle =>
    have hbound : 0 < Size.bound := by decide
    cases buffer <;> exact hbound
  | @add s s' b id _ _ hadd ih =>
    obtain ⟨n, -, hn⟩ := add_eq_ok hadd
    rw [hn.stride]
    split
    · rename_i hmode
      refine Nat.lt_of_not_le fun hle => ?_
      obtain ⟨raised, hraised, -⟩ := hn.features
      have hrejected : s.add b = .error .sizeOverflow :=
        add_eq_error.mpr (.inr ⟨⟨raised, hraised⟩, ⟨buffer, hmode, hle⟩, rfl⟩)
      cases hadd.symm.trans hrejected
    · exact strideOf_withTime_lt ih

/-! ### What the code of a set may ask for -/

/-- Some target is the last temporary that an index can name. -/
def NamesLast (targetNames : List String) : Prop :=
  ∃ name ∈ targetNames, ∃ r, Register.ofName name = .ok r ∧ r.kind = .vertexTemporary ∧
    r.index + 1 = Size.bound

/-- What writing the vertex code of a set may do: it asks for single registers and for the three
constants of a matrix, binds streams within the records, and claims a temporary once, or once for
each target that names it. -/
def allowance (s : NodeSet α) (targetNames : List String) : Allowance where
  count pool count := pool ≠ .fragmentConstant ∧ (count = 1 ∨ pool = .vertexConstant ∧ count = 3)
  stream b := b.offset + b.components ≤ s.strideOf b.buffer
  claims := max 1 targetNames.length
  oversize := NamesLast targetNames

section

variable {s : NodeSet α} {targetNames : List String}

theorem claims_pos : 0 < (s.allowance targetNames).claims := Nat.le_max_left ..

theorem abiding_gather {w : Allowance} {code : Node α → Compile α Program} {nodes : List (Node α)}
    (h : ∀ n ∈ nodes, Abiding w (code n)) : Abiding w (gather code nodes) := by
  induction nodes with
  | nil => exact (abiding_chained w).pure _
  | cons n ns ih =>
    obtain ⟨hn, hns⟩ := List.forall_mem_cons.mp h
    exact abiding_bind hn fun _ => abiding_bind (ih hns) fun _ => (abiding_chained w).pure _

theorem abiding_initColor_allowance :
    Abiding (s.allowance targetNames) (initColor : Compile α Program) :=
  abiding_initColor ⟨nofun, .inl rfl⟩ claims_pos

variable [Scalar α]

/-- The code of a node keeps to what the whole set may do. -/
theorem Built.abiding_vertexCode (h : s.Built) {n : Node α} (hn : n ∈ s.nodes) :
    Abiding (s.allowance targetNames) n.vertexCode := by
  refine Node.emitting_vertexCode (emitting_abiding claims_pos ⟨nofun, .inl rfl⟩
    ⟨nofun, .inr ⟨rfl, rfl⟩⟩ ⟨nofun, .inl rfl⟩
    fun buffer hmode register start components hlength => ?_) (h.isCatalogue n hn)
  have hinside := (h.laid buffer).inside n (mem_nodesIn.mpr ⟨hn, hmode⟩)
  have hplace : n.info.offsetIn buffer = n.offsetIn buffer := by cases buffer <;> rfl
  have hsame : n.info.length = n.behavior.length := rfl
  show n.info.offsetIn buffer + start + components ≤ s.strideOf buffer
  omega

theorem Built.abiding_blockCode (h : s.Built) (block : Block) :
    Abiding (s.allowance targetNames) (s.blockCode block) :=
  abiding_gather fun _ hn => h.abiding_vertexCode (List.mem_of_mem_filter hn)

/-- The whole program keeps to it. -/
theorem Built.abiding_vertexFragments (h : s.Built) :
    Abiding (s.allowance targetNames) s.vertexFragments := by
  have hw := abiding_chained (α := α) (s.allowance targetNames)
  have hplace : Abiding (s.allowance targetNames) s.placeFragments :=
    abiding_bind (abiding_enter _) fun _ => abiding_bind abiding_initCode fun _ =>
      abiding_bind (abiding_enter _) fun _ => abiding_bind (h.abiding_blockCode _) fun _ =>
      abiding_bind (abiding_enter _) fun _ => abiding_bind abiding_combineCode fun _ =>
      abiding_bind (abiding_enter _) fun _ => abiding_bind (h.abiding_blockCode _) fun _ =>
      hw.pure _
  have hcolor : Abiding (s.allowance targetNames) s.colorFragments :=
    abiding_bind (abiding_enter _) fun _ => abiding_bind abiding_initColor_allowance fun _ =>
      abiding_bind (abiding_enter _) fun _ => abiding_bind (h.abiding_blockCode _) fun _ =>
      abiding_bind (abiding_enter _) fun _ => abiding_get_bind fun c => ⟨[], abides_pure _ c⟩
  exact abiding_bind hplace fun _ => abiding_bind hcolor fun _ => hw.pure _

end

/-! ### A beginning and the program -/

section

variable {s : NodeSet α} {c c' : Compilation α} {sourceNames targetNames : List String}

/-- A beginning that succeeds has been granted a constant. -/
theorem total_of_leads_shareNamed {profile : Profile} {pass : Pass} {features : Features}
    {log : List Allocation} {u : Unit}
    (hallocates : Allocates (shareNamed sourceNames targetNames)
      (c.restart profile pass features) log)
    (hleads : Leads (shareNamed sourceNames targetNames) (c.restart profile pass features) u c') :
    0 < Compile.total .vertexConstant log := by
  have hused := ((Balanced.restart c profile pass features).allocates hallocates).used
    .vertexConstant
  rw [hleads.after_eq, List.nil_append] at hused
  have hreset : Leads (reset profile pass features sourceNames targetNames) c u c' := hleads
  obtain ⟨sources, targets, -, -, hshare⟩ := leads_reset.mp hreset
  obtain ⟨_, _, _, _, _, c₁, -, -, -, -, hshared, rfl⟩ := leads_shareRegisters.mp hshare
  obtain ⟨-, _, _, _, -, -, rfl⟩ := leads_allocateShared.mp hshared
  rw [claimingAll_frame] at hused
  have hconstant : pass.taken.vertexConstants + 1 =
      pass.taken.vertexConstants + Compile.total .vertexConstant log := hused
  omega

variable [Scalar α]

/-- A beginning and the program keep to what the set may do, and ask every pool for one register
first. -/
theorem Built.abides_program (h : s.Built) (c : Compilation α) (profile : Profile) (pass : Pass)
    (features : Features) (sourceNames targetNames : List String) :
    ∃ log, Gradual log ∧ Abides (s.allowance targetNames)
      (do shareNamed sourceNames targetNames; s.vertexFragments)
      (c.restart profile pass features) log := by
  have hsize : ∀ name ∈ targetNames, ∀ r, Register.ofName name = .ok r →
      r.kind = .vertexTemporary → Size.bound ≤ r.index + 1 → NamesLast targetNames := by
    intro name hname r hread hkind hle
    have hindex : r.index < Size.bound :=
      (Register.nameable_of_ofName? (Register.ofName_eq_ok.mp hread)).index_lt
    exact ⟨name, hname, r, hread, hkind, by omega⟩
  -- a beginning asks for single constants only
  let w : Allowance := { s.allowance targetNames with
    count := fun pool count => pool = .vertexConstant ∧ count = 1 }
  obtain ⟨log, hbegin⟩ : ∃ log, Abides w (shareNamed sourceNames targetNames)
      (c.restart profile pass features) log :=
    abides_shareNamed ⟨rfl, rfl⟩ (claims_pos (s := s)) (Nat.le_max_right ..)
      (fun usage husage => (List.mem_replicate.mp husage).2) hsize
  have hsingle : ∀ a ∈ log, a.pool = .vertexConstant ∧ a.count = 1 := hbegin.counts
  have hgradual := gradual_of_single fun a ha => (hsingle a ha).2
  have hbegin : Abides (s.allowance targetNames) (shareNamed sourceNames targetNames)
      (c.restart profile pass features) log := hbegin.recount fun a ha => by
    obtain ⟨hpool, hcount⟩ := hsingle a ha
    refine ⟨?_, .inl hcount⟩
    rw [hpool]
    exact nofun
  cases hrun : (shareNamed sourceNames targetNames : Compile α Unit).run
      (c.restart profile pass features) with
  | error fault c' => exact ⟨log, hgradual, hbegin.bind_error hrun⟩
  | ok u c' =>
    obtain ⟨log', hprogram⟩ : ∃ log', Abides (s.allowance targetNames) s.vertexFragments c' log' :=
      h.abiding_vertexFragments c'
    refine ⟨log ++ log', ?_, hbegin.bind_ok hrun hprogram⟩
    exact hgradual.append (total_of_leads_shareNamed hbegin.allocates hrun)
      fun a ha => (hprogram.counts a ha).2

end

/-! ### The offsets -/

/-- How the vertex code of a set is written in a pass: the registers of all pools, the streams and
the temporaries behind the answer. -/
structure Accounted (s : NodeSet α) (pass : Pass) (profile : Profile) (targetNames : List String)
    (log : List Allocation) (answer : Except Fault Program) (c : Compilation α) : Prop where
  /-- The registers that are granted lie behind the offsets and within the limits. -/
  account : Account profile pass.taken log c
  /-- An allocation that is refused is the last one, and its fault is the answer. -/
  refused : ∀ before a after fault, log = before ++ a :: after → a.answer = .error fault →
    after = [] ∧ answer = .error fault
  /-- A pool whose limit is not above its offset is refused as soon as it is used. -/
  behind : ∀ a ∈ log, profile.limits.of a.pool.kind ≤ pass.taken.get a.pool →
    answer = .error (if pass.taken.get a.pool + 1 < Size.bound then
      .registerOverflow a.pool.kind (pass.taken.get a.pool + 1) (profile.limits.of a.pool.kind)
      else .sizeOverflow)
  /-- The registers that there would have to be are a size, unless the offset is the last one. -/
  sums : ∀ before a after, log = before ++ a :: after →
    pass.taken.get a.pool + Compile.total a.pool before + a.count < Size.bound ∨
      Size.bound ≤ pass.taken.get a.pool + 1
  /-- Only the last offset of a pool that is used and the last temporary are too large. -/
  overflow : answer = .error .sizeOverflow →
    (∃ a ∈ log, Size.bound ≤ pass.taken.get a.pool + 1) ∨ NamesLast targetNames
  /-- No constants of the fragment program are taken. -/
  pools : ∀ a ∈ log, a.pool ≠ .fragmentConstant
  /-- The streams stay in the records. -/
  streams : ∀ b ∈ c.bindings, b.offset + b.components ≤ s.strideOf b.buffer
  /-- There are as many temporaries as the profile has. -/
  temporaries : c.temporaries.length = profile.limits.vertexTemporaries
  /-- No temporary is claimed more often than it is named. -/
  claims : ∀ usage ∈ c.temporaries, usage ≤ max 1 targetNames.length

section

variable {s : NodeSet α} {c c' : Compilation α} {pass : Pass} {profile : Profile}
  {features : Features} {sourceNames targetNames : List String} {log : List Allocation}

/-- Steps that keep to what the set may do are accounted for, from a beginning on. -/
theorem accounted_of_abides {x : Compile α Program} (hgradual : Gradual log)
    (h : Abides (s.allowance targetNames) x (c.restart profile pass features) log) :
    s.Accounted pass profile targetNames log (outcome (x.run (c.restart profile pass features)))
      ((c.restart profile pass features).after x) := by
  obtain ⟨hallocates, hcounts, hconcludes, ⟨more, hbindings, hstreams⟩, htemporaries, hclaims⟩ := h
  have hbalanced := (Balanced.restart c profile pass features).allocates hallocates
  rw [List.nil_append] at hbalanced
  have hfaithful := hbalanced.faithful
  have hbound : 253 < Size.bound := by decide
  have hsums : ∀ before a after, log = before ++ a :: after →
      pass.taken.get a.pool + Compile.total a.pool before + a.count < Size.bound ∨
        Size.bound ≤ pass.taken.get a.pool + 1 := by
    intro before a after hsplit
    rcases hgradual.sum_le hfaithful hsplit with hfew | hfirst <;> omega
  refine ⟨hbalanced.account, fun before a after fault hsplit herror => ?_, fun a ha hle => ?_,
    hsums, fun hanswer => ?_, fun a ha => (hcounts a ha).1, ?_, ?_, ?_⟩
  · obtain ⟨hlast, -, hanswer⟩ := hconcludes.of_refused hsplit herror
    exact ⟨hlast, hanswer⟩
  · obtain ⟨before, after, hsplit⟩ := List.append_of_mem ha
    exact (hconcludes.of_refused hsplit
      (hgradual.answer_of_limit_le hfaithful hsplit hle)).2.2
  · rw [hanswer] at hconcludes
    cases hconcludes with
    | granted _ hsize => exact .inr (hsize rfl)
    | @refused front a _ _ herror =>
      have hlarge := (hbalanced.account.refused front a [] _ rfl herror).2
      refine .inl ⟨a, List.mem_append_right _ (List.mem_singleton_self a), ?_⟩
      refine (hsums front a [] rfl).resolve_left fun hlt => ?_
      rw [if_pos hlt] at hlarge
      cases hlarge
  · intro b hb
    rw [hbindings] at hb
    exact hstreams b hb
  · rw [htemporaries]
    exact List.length_replicate
  · refine hclaims fun usage husage => ?_
    rw [(List.mem_replicate.mp husage).2]
    exact Nat.zero_le _

/-- Abandoning the compilation changes nothing of it. -/
theorem Accounted.abandoned {answer : Except Fault Program}
    (h : s.Accounted pass profile targetNames log answer c) :
    s.Accounted pass profile targetNames log answer { c with phase := .failed } := by
  have haccount : Account profile pass.taken log { c with phase := .failed } :=
    { h.account with }
  exact { h with account := haccount }

variable [Scalar α]

/-- **Offsets**: whatever registers a pass says that it uses, writing the vertex code of a set
takes registers within the limits or is refused, and is refused as soon as a pool is used whose
limit is not above its offset. All sums are sizes, except for the first allocation behind the last
offset that there is and for the number of the last temporary. -/
theorem Built.offsets_spec (h : s.Built) (c : Compilation α) (pass : Pass) (profile : Profile)
    (sourceNames targetNames : List String) :
    (∀ buffer, s.strideOf buffer < Size.bound) ∧
    ∃ log, Allocates (do shareNamed sourceNames targetNames; s.vertexFragments)
        (c.restart profile pass (s.settings.features ∪ pass.features)) log ∧
      s.Accounted pass profile targetNames log
        (outcome ((s.vertexCode pass profile sourceNames targetNames).run c))
        (c.after (s.vertexCode pass profile sourceNames targetNames)) := by
  obtain ⟨log, hgradual, habides⟩ := h.abides_program c profile pass
    (s.settings.features ∪ pass.features) sourceNames targetNames
  refine ⟨h.strideOf_lt, log, habides.allocates, ?_⟩
  have haccounted := accounted_of_abides hgradual habides
  -- a beginning is the state that it starts from and the steps that are accounted for
  let whole : Compile α Program := do
    reset profile pass (s.settings.features ∪ pass.features) sourceNames targetNames
    s.vertexFragments
  have hwhole : s.Accounted pass profile targetNames log (outcome (whole.run c)) (c.after whole) :=
    haccounted
  show s.Accounted pass profile targetNames log (outcome ((orAbandon whole).run c))
    (c.after (orAbandon whole))
  cases hrun : whole.run c with
  | ok p c' =>
    have hkept : (orAbandon whole).run c = .ok p c' := leads_orAbandon.mpr hrun
    rw [hrun, Leads.after_eq hrun] at hwhole
    rwa [hkept, Leads.after_eq hkept]
  | error fault c' =>
    rw [hrun, after_of_error hrun] at hwhole
    rw [run_orAbandon_of_error hrun, after_of_error (run_orAbandon_of_error hrun)]
    exact hwhole.abandoned

end

/-- A material that uses one attribute more than there are. -/
def crowded : Pass := { taken := { vertexAttributes := 9 } }

/-- One constant is granted, and then the first attribute is refused. -/
theorem crowded_refused : scrolled.Built ∧ ∃ log, Compile.total .vertexConstant log = 1 ∧
    scrolled.Accounted crowded .baseline ["vt0"] log
      (.error (.registerOverflow .vertexAttribute 10 8))
      (({ profile := .standard } : Compilation Rat).after
        (scrolled.vertexCode crowded .baseline ["va0"] ["vt0"])) := by
  obtain ⟨-, log, -, haccounted⟩ := built_scrolled.offsets_spec { profile := .standard } crowded
    .baseline ["va0"] ["vt0"]
  have hanswer : outcome ((scrolled.vertexCode crowded .baseline ["va0"] ["vt0"]).run
      { profile := .standard }) = .error (.registerOverflow .vertexAttribute 10 8) := rfl
  have hused : (({ profile := .standard } : Compilation Rat).after
      (scrolled.vertexCode crowded .baseline ["va0"] ["vt0"])).used =
        { vertexAttributes := 9, vertexConstants := 1 } := rfl
  have htotal := haccounted.account.used .vertexConstant
  rw [hused] at htotal
  rw [hanswer] at haccounted
  exact ⟨built_scrolled, log, (htotal.trans (Nat.zero_add _)).symm, haccounted⟩

/-- Behind the last offset that there is and for the last temporary that can be named the number of
registers is no size, so it is not in the fault. -/
theorem unbounded_offset :
    outcome (((NodeSet.empty {} : NodeSet Rat).vertexCode
      { taken := { vertexConstants := Size.bound - 1 } } .baseline ["va0"] ["vt0"]).run
        { profile := .baseline }) = .error .sizeOverflow ∧
    outcome (((NodeSet.empty {} : NodeSet Rat).vertexCode {} .baseline ["va0"]
      ["vt18446744073709551615"]).run { profile := .baseline }) = .error .sizeOverflow := by
  decide +kernel

end NodeSet

end ParticleShader
