import Mathlib.Algebra.GroupWithZero.Nat
import Mathlib.Data.List.Induction
import Mathlib.Data.List.Nodup
import ParticleShader.Proofs.Compilation.Calls
import ParticleShader.Proofs.Compilation.Independence
import ParticleShader.Proofs.Rational
import ParticleShader.Proofs.Splits

/-!
# Ranges of registers

Every register of the pools goes through `allocate`, whoever calls it: a user, the beginning of a
compilation, a parameter, a stream or a color accumulator. `Allocates` reads off a step which
allocations it makes in a state and what they are answered, and `Recorded` puts those together
that were made since a compilation was begun.

An allocation is granted if the pool has room behind all that was granted before, and then its
range begins right there. This is what one allocation does (`Allocation.Answered`), so a record
of them can be read without the states between (`Faithful`): in each pool the granted ranges tile
what is behind the registers of the material, up to the counter.

* `Balanced.allocates`: a step keeps the counters in balance with the record.
* `ranges_spec`: the account of the pools after any calls.
-/

namespace ParticleShader

variable {α β γ : Type}

namespace Compile

/-! ### Allocations -/

/-- A number of registers that is asked for, and what is answered. -/
structure Allocation where
  /-- The pool. -/
  pool : Pool
  /-- How many registers are asked for. -/
  count : Nat
  /-- The first of them, or why there are none. -/
  answer : Except Fault Nat

namespace Allocation

/-- An allocation is answered as it has to be where so many registers of its pool are used. -/
def Answered (limits : Limits) (used : Nat) (a : Allocation) : Prop :=
  a.answer =
    if used + a.count ≤ limits.of a.pool.kind then .ok used
    else if used + a.count < Size.bound then
      .error (.registerOverflow a.pool.kind (used + a.count) (limits.of a.pool.kind))
    else .error .sizeOverflow

/-- The range that an allocation grants, as its first register and how many there are. -/
def range? (a : Allocation) : Option (Nat × Nat) :=
  match a.answer with
  | .ok first => some (first, a.count)
  | .error _ => none

/-- The registers of a pool that an allocation grants. -/
def granted (pool : Pool) (a : Allocation) : Nat :=
  match a.answer with
  | .ok _ => if a.pool = pool then a.count else 0
  | .error _ => 0

end Allocation

/-- The ranges of a pool that were granted, in the order of the allocations. -/
def ranges (pool : Pool) (log : List Allocation) : List (Nat × Nat) :=
  (log.filter (·.pool = pool)).filterMap Allocation.range?

/-- How many registers of a pool were granted. -/
def total (pool : Pool) (log : List Allocation) : Nat := (log.map (·.granted pool)).sum

theorem total_append (pool : Pool) (log log' : List Allocation) :
    total pool (log ++ log') = total pool log + total pool log' := by
  unfold total
  rw [List.map_append, List.sum_append]

@[simp] theorem total_singleton (pool : Pool) (a : Allocation) :
    total pool [a] = a.granted pool := Nat.add_zero _

/-- Allocations that are answered as they have to be one after the other, where the pools are used
so far before the first of them. -/
def Faithful (limits : Limits) (used : Pool → Nat) (log : List Allocation) : Prop :=
  ∀ before a after, log = before ++ a :: after →
    a.Answered limits (used a.pool + total a.pool before)

theorem faithful_nil (limits : Limits) (used : Pool → Nat) : Faithful limits used [] := by
  intro before a after h
  exact absurd h.symm (by simp)

theorem Faithful.of_append {limits : Limits} {used : Pool → Nat} {log log' : List Allocation}
    (h : Faithful limits used (log ++ log')) : Faithful limits used log :=
  (forall_split_append.mp h).1

theorem faithful_concat {limits : Limits} {used : Pool → Nat} {log : List Allocation}
    {a : Allocation} : Faithful limits used (log ++ [a]) ↔
      Faithful limits used log ∧ a.Answered limits (used a.pool + total a.pool log) :=
  forall_split_concat

/-! ### What a faithful record says of one pool -/

section

variable {limits : Limits} {used : Pool → Nat} {log : List Allocation}

theorem Allocation.Answered.of_ok {a : Allocation} {taken first : Nat}
    (h : a.Answered limits taken) (hok : a.answer = .ok first) :
    first = taken ∧ taken + a.count ≤ limits.of a.pool.kind := by
  unfold Answered at h
  rw [hok] at h
  split at h
  · exact ⟨Except.ok.inj h, ‹_›⟩
  · split at h <;> cases h

theorem Allocation.Answered.of_error {a : Allocation} {taken : Nat} {fault : Fault}
    (h : a.Answered limits taken) (herror : a.answer = .error fault) :
    limits.of a.pool.kind < taken + a.count ∧
      fault = if taken + a.count < Size.bound then
        .registerOverflow a.pool.kind (taken + a.count) (limits.of a.pool.kind)
      else .sizeOverflow := by
  unfold Answered at h
  rw [herror] at h
  split at h
  · cases h
  · refine ⟨Nat.not_le.mp ‹_›, ?_⟩
    split at h
    · rw [if_pos ‹_›]
      exact Except.error.inj h
    · rw [if_neg ‹_›]
      exact Except.error.inj h

theorem mem_ranges {pool : Pool} {r : Nat × Nat} : r ∈ ranges pool log ↔
    ∃ a ∈ log, a.pool = pool ∧ a.answer = .ok r.1 ∧ a.count = r.2 := by
  unfold ranges
  simp only [List.mem_filterMap, List.mem_filter, decide_eq_true_eq, and_assoc]
  refine exists_congr fun a => and_congr_right fun _ => and_congr_right fun _ => ?_
  obtain ⟨pool, count, answer⟩ := a
  obtain ⟨first, length⟩ := r
  cases answer with
  | ok b => simp [Allocation.range?]
  | error fault => simp [Allocation.range?]

/-- The granted ranges of a pool tile what is behind the registers that were used before. -/
theorem Faithful.flatMap_ranges (h : Faithful limits used log) (pool : Pool) :
    (ranges pool log).flatMap (fun r => List.range' r.1 r.2) =
      List.range' (used pool) (total pool log) := by
  induction log using List.reverseRecOn with
  | nil => rfl
  | append_singleton log a ih =>
    obtain ⟨hlog, ha⟩ := faithful_concat.mp h
    have hranges : ranges pool (log ++ [a]) = ranges pool log ++ ranges pool [a] := by
      unfold ranges
      rw [List.filter_append, List.filterMap_append]
    rw [hranges, List.flatMap_append, ih hlog, total_append, total_singleton,
      ← List.range'_append_1]
    congr 1
    by_cases hpool : a.pool = pool
    · subst hpool
      cases hanswer : a.answer with
      | ok first =>
        obtain ⟨rfl, -⟩ := ha.of_ok hanswer
        simp [ranges, Allocation.range?, Allocation.granted, hanswer]
      | error fault => simp [ranges, Allocation.range?, Allocation.granted, hanswer]
    · have hgranted : a.granted pool = 0 := by
        unfold Allocation.granted
        cases a.answer <;> simp [hpool]
      rw [hgranted]
      simp [ranges, hpool]

/-- No register of a pool is granted twice. -/
theorem Faithful.pairwise_ranges (h : Faithful limits used log) (pool : Pool) :
    (ranges pool log).Pairwise fun r r' =>
      (List.range' r.1 r.2).Disjoint (List.range' r'.1 r'.2) := by
  have hnodup : ((ranges pool log).flatMap fun r => List.range' r.1 r.2).Nodup := by
    rw [h.flatMap_ranges pool]
    exact List.nodup_range'
  exact (List.nodup_flatMap.mp hnodup).2

/-- A granted range ends within the limit. -/
theorem Faithful.range_le (h : Faithful limits used log) {pool : Pool} {r : Nat × Nat}
    (hr : r ∈ ranges pool log) : r.1 + r.2 ≤ limits.of pool.kind := by
  obtain ⟨a, ha, rfl, hanswer, hcount⟩ := mem_ranges.mp hr
  obtain ⟨before, after, hsplit⟩ := List.append_of_mem ha
  obtain ⟨hfirst, hroom⟩ := (h before a after hsplit).of_ok hanswer
  rw [hfirst, ← hcount]
  exact hroom

/-- Where something is granted, it ends within what all ranges end within. -/
theorem add_total_le {pool : Pool} {first limit : Nat}
    (htiled : (ranges pool log).flatMap (fun r => List.range' r.1 r.2) =
      List.range' first (total pool log))
    (hwithin : ∀ r ∈ ranges pool log, r.1 + r.2 ≤ limit) (hsome : total pool log ≠ 0) :
    first + total pool log ≤ limit := by
  -- the last register that was granted is in one of the ranges
  have hlast : first + (total pool log - 1) ∈ List.range' first (total pool log) := by
    rw [List.mem_range'_1]
    omega
  rw [← htiled, List.mem_flatMap] at hlast
  obtain ⟨r, hr, hmem⟩ := hlast
  have hend := hwithin r hr
  rw [List.mem_range'_1] at hmem
  omega

theorem Faithful.add_total_le (h : Faithful limits used log) {pool : Pool}
    (hsome : total pool log ≠ 0) : used pool + total pool log ≤ limits.of pool.kind :=
  Compile.add_total_le (h.flatMap_ranges pool) (fun _ => h.range_le) hsome

end

end Compile

/-! ### The allocations of a step -/

/-- What an allocation looks at: the profile, the registers of the material and those in use. -/
def Compilation.pools (c : Compilation α) : Profile × Pool.Counts × Pool.Counts :=
  (c.profile, c.taken, c.used)

namespace Compile

open Compilation

/-- The allocations that a step makes in a state, up to its end or to the fault that ends it. The
step is put together of allocations and of steps that leave the pools alone. -/
inductive Allocates : {β : Type} → Compile α β → Compilation α → List Allocation → Prop where
  /-- A result needs none. -/
  | pure {β : Type} (b : β) (c : Compilation α) : Allocates (Pure.pure b) c []
  /-- A fault needs none. -/
  | throw {β : Type} (fault : Fault) (c : Compilation α) :
    Allocates (MonadExcept.throw fault : Compile α β) c []
  /-- A look at the state needs none. -/
  | get (c : Compilation α) : Allocates MonadState.get c []
  /-- A change that leaves the pools alone needs none. -/
  | modify {f : Compilation α → Compilation α} {c : Compilation α} :
    (f c).pools = c.pools → Allocates (modify f) c []
  /-- An allocation, with what it is answered. -/
  | allocate (pool : Pool) (count : Nat) (c : Compilation α) :
    Allocates (allocate pool count) c
      [{ pool, count, answer := outcome ((Compile.allocate pool count).run c) }]
  /-- The allocations of one step and of the next. -/
  | bind {β γ : Type} {x : Compile α β} {f : β → Compile α γ} {c c' : Compilation α} {b : β}
    {log log' : List Allocation} : Allocates x c log → Leads x c b c' → Allocates (f b) c' log' →
    Allocates (x >>= f) c (log ++ log')
  /-- The allocations of a step that ends in a fault. -/
  | stop {β γ : Type} {x : Compile α β} {f : β → Compile α γ} {c c' : Compilation α}
    {fault : Fault} {log : List Allocation} : Allocates x c log → x.run c = .error fault c' →
    Allocates (x >>= f) c log

/-- A step whose allocations can be told in every state. -/
def Traceable (x : Compile α β) : Prop := ∀ c : Compilation α, ∃ log, Allocates x c log

theorem traceable_throw (fault : Fault) : Traceable (throw fault : Compile α β) :=
  fun c => ⟨[], .throw fault c⟩

theorem traceable_modify {f : Compilation α → Compilation α} (h : ∀ c, (f c).pools = c.pools) :
    Traceable (modify f) := fun c => ⟨[], .modify (h c)⟩

theorem traceable_bind {x : Compile α β} {f : β → Compile α γ} (hx : Traceable x)
    (hf : ∀ b, Traceable (f b)) : Traceable (x >>= f) := by
  intro c
  obtain ⟨log, hlog⟩ := hx c
  cases hrun : x.run c with
  | error fault c' => exact ⟨log, .stop hlog hrun⟩
  | ok b c' =>
    obtain ⟨log', hlog'⟩ := hf b c'
    exact ⟨log ++ log', .bind hlog hrun hlog'⟩

theorem traceable_get_bind {f : Compilation α → Compile α β} (hf : ∀ c, Traceable (f c)) :
    Traceable (get >>= f) := traceable_bind (fun c => ⟨[], .get c⟩) hf

theorem traceable_ofOutcome (outcome : Except Fault β) :
    Traceable (ofOutcome outcome : Compile α β) := by
  cases outcome with
  | ok b => exact fun c => ⟨[], .pure b c⟩
  | error fault => exact traceable_throw fault

/-- Calls that do not decide how far the compilation is can be traced. -/
theorem quiet_traceable : Quiet (α := α) fun _ x => Traceable x where
  pure b c := ⟨[], .pure b c⟩
  throw := traceable_throw
  bind := traceable_bind
  get c := ⟨[], .get c⟩
  modify hf := traceable_modify fun c => congrArg (·.pools) (hf c)
  allocate pool count c := ⟨_, .allocate pool count c⟩
  setVertexConstant _ _ := traceable_get_bind fun _ => traceable_bind (traceable_ofOutcome _)
    fun _ => traceable_modify fun _ => rfl
  setFragmentConstant _ _ := traceable_get_bind fun _ => traceable_bind (traceable_ofOutcome _)
    fun _ => traceable_modify fun _ => rfl

theorem traceable_enter (phase : Phase) : Traceable (enter phase : Compile α Unit) := by
  refine traceable_get_bind fun c => ?_
  split
  · exact traceable_throw _
  · split
    · exact traceable_modify fun _ => rfl
    · exact traceable_throw _

/-- All calls can be traced, if a beginning is left out. -/
theorem traceable_run [Scalar α] {k : Call α} (hk : k.continues = true) : Traceable k.run := by
  cases hdecides : k.decides with
  | false => exact quiet_traceable.run hdecides
  | true =>
    cases k with
    | reset => exact absurd hk Bool.false_ne_true
    | enter phase => exact traceable_enter phase
    | abandon => exact traceable_modify fun _ => rfl
    | finish =>
      exact traceable_bind (traceable_enter _) fun _ =>
        traceable_bind (traceable_modify fun _ => rfl) fun _ =>
          traceable_bind quiet_traceable.claiming.shared fun _ =>
            quiet_traceable.setVertexConstant _ _
    | allocate | acquire | claim | release | setIndex | parameter | bindStream | initColor | setUv
    | storeUvCode | setVertexConstant | setVertexMatrix | setFragmentConstant =>
      exact absurd hdecides Bool.false_ne_true

theorem traceable_shareNamed (sources targets : List String) :
    Traceable (shareNamed sources targets : Compile α Unit) :=
  shareNamed_of_quiet quiet_traceable traceable_bind traceable_throw
    (fun _ => traceable_modify fun _ => rfl) sources targets

/-! ### The balance of the pools -/

/-- The counters of a state agree with the allocations since the pools held the registers of the
material alone. -/
structure Balanced (profile : Profile) (offsets : Pool.Counts) (log : List Allocation)
    (c : Compilation α) : Prop where
  /-- The profile is the one that is compiled for. -/
  profile_eq : c.profile = profile
  /-- The registers of the material are those of the pass. -/
  taken : c.taken = offsets
  /-- Behind them so many registers are in use as were granted. -/
  used : ∀ pool, c.used.get pool = offsets.get pool + total pool log
  /-- Every allocation was answered as it had to be. -/
  faithful : Faithful profile.limits offsets.get log

section

variable {profile : Profile} {offsets : Pool.Counts} {log log' : List Allocation}
  {c : Compilation α}

theorem Balanced.restart (c : Compilation α) (profile : Profile) (pass : Pass)
    (features : Features) :
    Balanced profile pass.taken [] (c.restart profile pass features) :=
  ⟨rfl, rfl, fun _ => rfl, faithful_nil _ _⟩

theorem Balanced.of_pools {c' : Compilation α} (h : Balanced profile offsets log c)
    (hpools : c'.pools = c.pools) : Balanced profile offsets log c' := by
  obtain ⟨hprofile, htaken, hused⟩ := Prod.mk.injEq .. ▸ Prod.mk.injEq .. ▸ hpools
  exact ⟨hprofile.trans h.profile_eq, htaken.trans h.taken, fun pool => by rw [hused, h.used],
    h.faithful⟩

theorem Balanced.allocate (h : Balanced profile offsets log c) (pool : Pool) (count : Nat) :
    Balanced profile offsets
      (log ++ [{ pool, count, answer := outcome ((Compile.allocate pool count).run c) }])
      (c.after (Compile.allocate pool count)) := by
  have hlimit : c.limit pool = profile.limits.of pool.kind := by
    unfold Compilation.limit
    rw [h.profile_eq]
  have hanswered : Allocation.Answered profile.limits (offsets.get pool + total pool log)
      ⟨pool, count, outcome ((Compile.allocate pool count).run c)⟩ := by
    unfold Allocation.Answered
    dsimp only
    rw [run_allocate, h.used, hlimit]
    split
    · rfl
    · split <;> rfl
  have hfaithful := faithful_concat.mpr ⟨h.faithful, hanswered⟩
  refine ⟨(lasting_allocate pool count c).profile.trans h.profile_eq,
    (lasting_allocate pool count c).taken.trans h.taken, fun other => ?_, hfaithful⟩
  rw [total_append, total_singleton, ← Nat.add_assoc, ← h.used]
  unfold Compilation.after Allocation.granted
  cases hrun : (Compile.allocate pool count : Compile α Nat).run c with
  | error fault c' =>
    rw [(run_allocate_of_error hrun).1]
    rfl
  | ok first c' =>
    obtain ⟨-, -, rfl⟩ := leads_allocate.mp hrun
    simp only [outcome]
    by_cases hother : other = pool
    · rw [hother, Pool.Counts.get_set_self, if_pos rfl]
    · rw [Pool.Counts.get_set_of_ne _ hother, if_neg (Ne.symm hother), Nat.add_zero]

/-- A step keeps the counters in balance with the record of its allocations. -/
theorem Balanced.allocates {x : Compile α β} (hx : Allocates x c log')
    (h : Balanced profile offsets log c) :
    Balanced profile offsets (log ++ log') (c.after x) := by
  induction hx generalizing log with
  | pure b c => rwa [List.append_nil]
  | throw fault c => rwa [List.append_nil]
  | get c => rwa [List.append_nil]
  | modify hpools =>
    rw [List.append_nil]
    exact h.of_pools hpools
  | allocate pool count c => exact h.allocate pool count
  | bind _ hleads _ ihx ihf =>
    have hfirst := ihx h
    rw [hleads.after_eq] at hfirst
    rw [hleads.after_bind, ← List.append_assoc]
    exact ihf hfirst
  | stop _ hrun ih =>
    have hfirst := ih h
    rw [after_of_error hrun] at hfirst
    rwa [after_bind, hrun]

end

/-! ### The record of a compilation -/

/-- The profile and the registers of the material after some calls: those of the last beginning. -/
def origin (profile : Profile) (calls : List (Call α)) : Profile × Pool.Counts :=
  calls.foldl (fun o k => match k with
    | .reset profile pass .. => (profile, pass.taken)
    | _ => o) (profile, {})

/-- The allocations since the last beginning, whether that succeeded or not, after some calls on a
new compilation. -/
inductive Recorded [Scalar α] (profile : Profile) : List (Call α) → List Allocation → Prop where
  /-- A new compilation made none. -/
  | new : Recorded profile [] []
  /-- A beginning starts a new record. -/
  | reset {calls : List (Call α)} {log : List Allocation} (profile' : Profile) (pass : Pass)
    (features : Features) (sources targets : List String) :
    Allocates (shareNamed sources targets)
      ((play { profile } calls).restart profile' pass features) log →
    Recorded profile (calls ++ [.reset profile' pass features sources targets]) log
  /-- Every other call goes on with it. -/
  | call {calls : List (Call α)} {log log' : List Allocation} {k : Call α} :
    k.continues = true → Recorded profile calls log →
    Allocates k.run (play { profile } calls) log' →
    Recorded profile (calls ++ [k]) (log ++ log')

theorem origin_concat_of_continues (profile : Profile) (calls : List (Call α)) {k : Call α}
    (hk : k.continues = true) : origin profile (calls ++ [k]) = origin profile calls := by
  unfold origin
  rw [List.foldl_append]
  cases k with
  | reset => exact absurd hk Bool.false_ne_true
  | enter | abandon | finish | allocate | acquire | claim | release | setIndex | parameter
  | bindStream | initColor | setUv | storeUvCode | setVertexConstant | setVertexMatrix
  | setFragmentConstant => rfl

theorem origin_concat_reset (profile : Profile) (calls : List (Call α)) (profile' : Profile)
    (pass : Pass) (features : Features) (sources targets : List String) :
    origin profile (calls ++ [.reset profile' pass features sources targets]) =
      (profile', pass.taken) := by
  unfold origin
  rw [List.foldl_append]
  rfl

/-- The account of the pools: how the allocations of a record share out what is behind the
registers of the material. -/
structure Account (profile : Profile) (offsets : Pool.Counts) (log : List Allocation)
    (c : Compilation α) : Prop where
  /-- The profile is the one that was begun with. -/
  profile_eq : c.profile = profile
  /-- The registers of the material are those that were begun with. -/
  taken : c.taken = offsets
  /-- The registers in use are those and all that were granted. -/
  used : ∀ pool, c.used.get pool = offsets.get pool + total pool log
  /-- No counter is below the registers of the material. -/
  covered : ∀ pool, c.taken.get pool ≤ c.used.get pool
  /-- The granted ranges tile what is behind the registers of the material, in the order of the
  allocations. -/
  tiled : ∀ pool, (ranges pool log).flatMap (fun r => List.range' r.1 r.2) =
    List.range' (offsets.get pool) (total pool log)
  /-- No register is granted twice. -/
  apart : ∀ pool, (ranges pool log).Pairwise fun r r' =>
    (List.range' r.1 r.2).Disjoint (List.range' r'.1 r'.2)
  /-- A granted range ends within the limit of the profile. -/
  within : ∀ pool, ∀ r ∈ ranges pool log, r.1 + r.2 ≤ profile.limits.of pool.kind
  /-- An allocation is granted behind all that was granted before. -/
  granted : ∀ before a after first, log = before ++ a :: after → a.answer = .ok first →
    first = offsets.get a.pool + total a.pool before
  /-- An allocation is refused if it goes beyond the limit, with the exact number of registers
  that there would have to be. -/
  refused : ∀ before a after fault, log = before ++ a :: after → a.answer = .error fault →
    let requested := offsets.get a.pool + total a.pool before + a.count
    profile.limits.of a.pool.kind < requested ∧
      fault = if requested < Size.bound then
        .registerOverflow a.pool.kind requested (profile.limits.of a.pool.kind)
      else .sizeOverflow

theorem Balanced.account {profile : Profile} {offsets : Pool.Counts} {log : List Allocation}
    {c : Compilation α} (h : Balanced profile offsets log c) : Account profile offsets log c where
  profile_eq := h.profile_eq
  taken := h.taken
  used := h.used
  covered pool := by
    rw [h.taken, h.used]
    exact Nat.le_add_right _ _
  tiled := h.faithful.flatMap_ranges
  apart := h.faithful.pairwise_ranges
  within _ _ := h.faithful.range_le
  granted before a after _ hsplit hanswer := ((h.faithful before a after hsplit).of_ok hanswer).1
  refused before a after _ hsplit hanswer := (h.faithful before a after hsplit).of_error hanswer

section

variable [Scalar α]

/-- There is a record of all calls. -/
theorem exists_recorded (profile : Profile) (calls : List (Call α)) :
    ∃ log, Recorded profile calls log := by
  induction calls using List.reverseRecOn with
  | nil => exact ⟨[], .new⟩
  | append_singleton calls k ih =>
    obtain ⟨log, hlog⟩ := ih
    cases hk : k.continues with
    | true =>
      obtain ⟨log', hlog'⟩ := traceable_run hk (play { profile } calls)
      exact ⟨log ++ log', .call hk hlog hlog'⟩
    | false =>
      cases k with
      | reset profile' pass features sources targets =>
        obtain ⟨log', hlog'⟩ := traceable_shareNamed sources targets
          ((play { profile } calls).restart profile' pass features)
        exact ⟨log', .reset profile' pass features sources targets hlog'⟩
      | enter | abandon | finish | allocate | acquire | claim | release | setIndex | parameter
      | bindStream | initColor | setUv | storeUvCode | setVertexConstant | setVertexMatrix
      | setFragmentConstant => exact absurd hk.symm Bool.false_ne_true

/-- The counters are in balance with the record after any calls. -/
theorem Recorded.balanced {profile : Profile} {calls : List (Call α)} {log : List Allocation}
    (h : Recorded profile calls log) :
    Balanced (origin profile calls).1 (origin profile calls).2 log (play { profile } calls) := by
  induction h with
  | new => exact ⟨rfl, rfl, fun pool => by cases pool <;> rfl, faithful_nil _ _⟩
  | reset profile' pass features sources targets hlog =>
    rw [origin_concat_reset, play_concat]
    exact (Balanced.restart _ profile' pass features).allocates hlog
  | call hk _ hlog ih =>
    rw [origin_concat_of_continues _ _ hk, play_concat]
    exact ih.allocates hlog

end

/-- **Ranges**: after any calls on a new compilation there is a record of the allocations since the
last beginning, and every such record is an account of the pools. In whatever state an allocation is
refused, it changes nothing and the fault says how many registers there would have to be. -/
theorem ranges_spec [Scalar α] (profile : Profile) (calls : List (Call α)) :
    (∃ log, Recorded profile calls log) ∧
    (∀ log, Recorded profile calls log →
      Account (origin profile calls).1 (origin profile calls).2 log (play { profile } calls)) ∧
    ∀ (c : Compilation α) pool count fault c', (allocate pool count).run c = .error fault c' →
      c' = c ∧ c.limit pool < c.used.get pool + count ∧
        fault = if c.used.get pool + count < Size.bound then
          .registerOverflow pool.kind (c.used.get pool + count) (c.limit pool)
        else .sizeOverflow :=
  ⟨exists_recorded profile calls, fun _ h => h.balanced.account,
    fun _ _ _ _ _ h => run_allocate_of_error h⟩

/-- Calls that take constants and varyings behind three constants of the material, one time too
many, and go on behind an abandoned compilation. -/
def strained : List (Call Rat) :=
  [.reset .baseline { taken := { vertexConstants := 3 } } {} ["va0"] ["vt0"],
    .allocate .vertexConstant 4, .allocate .varying 9, .abandon, .allocate .varying 2]

theorem strained_ranges : ∃ log, Recorded .baseline strained log ∧
    Account .baseline { vertexConstants := 3 } log (play { profile := .baseline } strained) ∧
    (ranges .vertexConstant log).flatMap (fun r => List.range' r.1 r.2) = [3, 4, 5, 6, 7] ∧
    (allocate .varying 7).run (play { profile := .baseline } strained) =
      .error (.registerOverflow .varying 9 8) (play { profile := .baseline } strained) := by
  obtain ⟨⟨log, hlog⟩, haccounts, hrefused⟩ := ranges_spec .baseline strained
  have haccount : Account .baseline { vertexConstants := 3 } log
    (play { profile := .baseline } strained) := haccounts log hlog
  have hused : (play { profile := .baseline } strained).used =
      { vertexConstants := 8, varyings := 2 } := by
    decide +kernel
  have htotal : total .vertexConstant log = 5 := by
    have hsum := haccount.used .vertexConstant
    rw [hused] at hsum
    exact (Nat.add_left_cancel (n := 3) hsum).symm
  refine ⟨log, hlog, haccount, ?_, ?_⟩
  · rw [haccount.tiled, htotal]
    rfl
  · have hlimit : (play { profile := .baseline } strained).limit .varying = 8 := by
      unfold Compilation.limit
      rw [haccount.profile_eq]
      rfl
    rw [run_allocate, hused, hlimit]
    rfl

end Compile

end ParticleShader
