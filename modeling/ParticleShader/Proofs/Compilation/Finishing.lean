import ParticleShader.Proofs.Compilation.Phases
import ParticleShader.Proofs.Compilation.Ranges

/-!
# Room for constants

The rows of the constants are made when a compilation is finished, for the constants that are in
use then. To enter the last phase is not enough: it makes no room. Nor do rows grow when constants
are allocated later.

While the last phase lasts nothing but a beginning or an end of the compilation touches the number
of rows (`lasts_play`). So behind a `finish` that succeeded there is a row for each constant that
was granted before it, whatever was called since (`finishing_spec`).
-/

namespace ParticleShader

variable {α : Type}

namespace Compile

open Compilation

variable {c : Compilation α} {index : Nat} {value : Vec4 α}

/-! ### The rows -/

@[simp] theorem length_flatMap_toList (rows : List (Vec4 α)) :
    (rows.flatMap Vec4.toList).length = 4 * rows.length := by
  induction rows with
  | nil => rfl
  | cons row rows ih =>
    rw [List.flatMap_cons, List.length_append, ih, List.length_cons, Nat.mul_succ, Nat.add_comm]
    rfl

/-- A step that puts what it is given somewhere succeeds if it is given something. -/
theorem succeeds_ofOutcome_modify {β : Type} {outcome : Except Fault β}
    {put : β → Compilation α → Compilation α} :
    succeeds (do let b ← ofOutcome outcome; modify (put b)) c = true ↔ ∃ b, outcome = .ok b := by
  cases outcome with
  | ok b => exact ⟨fun _ => ⟨b, rfl⟩, fun _ => rfl⟩
  | error fault => exact ⟨fun h => absurd h Bool.false_ne_true, fun ⟨_, h⟩ => nomatch h⟩

/-- A constant can be written if it is behind those of the material and there is a row for it. -/
theorem exists_writeRow {offset : Nat} {rows : List (Vec4 α)} (hrows : rows.length ≤ 250) :
    (∃ rows', writeRow offset index value rows = .ok rows') ↔
      offset ≤ index ∧ index < offset + rows.length := by
  have hbound : 1004 < Size.bound := by decide
  constructor
  · rintro ⟨rows', hwrite⟩
    obtain ⟨hlow, hrow, -⟩ := writeRow_eq_ok.mp hwrite
    omega
  · rintro ⟨hlow, hhigh⟩
    exact ⟨_, writeRow_eq_ok.mpr ⟨hlow, by omega, by omega, rfl⟩⟩

/-- No more than 250 registers of a pool are granted. -/
theorem Account.used_le {profile : Profile} {offsets : Pool.Counts} {log : List Allocation}
    (h : Account profile offsets log c) (pool : Pool) :
    c.used.get pool ≤ c.taken.get pool + 250 := by
  have hlimit : profile.limits.of pool.kind ≤ 250 := by
    have hle := c.limit_le pool
    unfold Compilation.limit at hle
    rwa [h.profile_eq] at hle
  rw [h.used, h.taken, Nat.add_le_add_iff_left]
  by_cases hnone : total pool log = 0
  · rw [hnone]
    exact Nat.zero_le _
  · have hle := add_total_le (h.tiled pool) (h.within pool) hnone
    omega

/-- A register that was granted is behind those of the material and in use. -/
theorem Account.of_mem_range {profile : Profile} {offsets : Pool.Counts} {log : List Allocation}
    (h : Account profile offsets log c) {pool : Pool} {r : Nat × Nat} (hr : r ∈ ranges pool log)
    (hindex : index ∈ List.range' r.1 r.2) :
    c.taken.get pool ≤ index ∧ index < c.used.get pool := by
  have hmem : index ∈ List.range' (offsets.get pool) (total pool log) := by
    rw [← h.tiled]
    exact List.mem_flatMap.mpr ⟨r, hr, hindex⟩
  rw [h.taken, h.used]
  exact List.mem_range'_1.mp hmem

variable [Scalar α]

/-! ### Behind the last phase -/

/-- Where no phase follows, a call that asks for one changes nothing. -/
theorem after_of_next_eq_none (hnext : c.phase.next = none) {k : Call α} {phase : Phase}
    (hk : k.target? = some phase) : c.after k.run = c := by
  have henter : ∀ phase, (enter phase : Compile α Unit).run c = .error .notCompiled c := by
    intro phase
    rw [run_enter, hnext]
  have hrun : k.run.run c = .error .notCompiled c := by
    cases k with
    | enter other => exact henter other
    | finish => exact run_finish_of_refused (henter .done)
    | _ => cases hk
  exact after_of_error hrun

/-- Where no phase follows, the compilation lasts until it is abandoned or begun again. -/
theorem lasts_or_failed (hnext : c.phase.next = none) {k : Call α} (hk : k.continues = true) :
    c.Lasts (c.after k.run) ∨ (c.after k.run).phase = .failed := by
  cases hdecides : k.decides with
  | false => exact .inl (quiet_lasting.run hdecides c)
  | true =>
    cases k with
    | reset => exact absurd hk Bool.false_ne_true
    | abandon => exact .inr rfl
    | enter phase =>
      rw [after_of_next_eq_none hnext (show (Call.enter phase).target? = some phase from rfl)]
      exact .inl (.refl c)
    | finish =>
      rw [after_of_next_eq_none hnext (show Call.finish.target? = some .done from rfl)]
      exact .inl (.refl c)
    | _ => exact absurd hdecides Bool.false_ne_true

/-- If the last phase is the present one after some calls without a beginning, the compilation
lasted through all of them. -/
theorem lasts_play {calls : List (Call α)} (hcalls : ∀ k ∈ calls, k.continues = true)
    (hnext : c.phase.next = none) (hdone : (play c calls).phase = .done) :
    c.Lasts (play c calls) := by
  induction calls generalizing c with
  | nil => exact .refl c
  | cons k calls ih =>
    obtain ⟨hk, hcalls⟩ := List.forall_mem_cons.mp hcalls
    rw [play_cons] at hdone ⊢
    rcases lasts_or_failed hnext hk with hlasts | hfailed
    · exact hlasts.trans (ih hcalls (hlasts.phase ▸ hnext) hdone)
    · -- an abandoned compilation would have lasted and be abandoned still
      have hlasts := ih hcalls (by rw [hfailed]; rfl) hdone
      rw [hlasts.phase, hfailed] at hdone
      exact nomatch hdone

/-- The calls before the last phase was entered, and those behind it: a call that asked for the
phase succeeded, and no beginning followed. -/
structure Entry (profile : Profile) (calls before : List (Call α)) (k : Call α)
    (after : List (Call α)) : Prop where
  /-- The call stands between the others. -/
  split : calls = before ++ k :: after
  /-- It asks for the last phase. -/
  asked : k = .finish ∨ k = .enter .done
  /-- It succeeds. -/
  granted : succeeds k.run (play { profile } before) = true
  /-- No beginning follows. -/
  continued : ∀ k' ∈ after, k'.continues = true

theorem Entry.concat {profile : Profile} {calls before after : List (Call α)} {k k' : Call α}
    (h : Entry profile calls before k after) (hk' : k'.continues = true) :
    Entry profile (calls ++ [k']) before k (after ++ [k']) where
  split := by rw [h.split, List.append_assoc, List.cons_append]
  asked := h.asked
  granted := h.granted
  continued := List.forall_mem_append.mpr ⟨h.continued, List.forall_mem_singleton.mpr hk'⟩

/-- A call that asks for a phase leads to it or leaves everything as it is. -/
theorem phase_after_target (profile : Profile) (calls : List (Call α)) {k : Call α} {phase : Phase}
    (hk : k.target? = some phase) :
    (succeeds k.run (play { profile } calls) = true ∧
      ((play { profile } calls).after k.run).phase = phase) ∨
    (play { profile } calls).after k.run = play { profile } calls := by
  have hgoes := (sound_track profile calls).goes_on hk
  rw [state_track] at hgoes
  unfold succeeds Compilation.after
  rcases hgoes with ⟨-, c', hleads, hphase, -⟩ | ⟨-, hrun⟩
  · have hrun : k.run.run (play { profile } calls) = .ok () c' := hleads
    rw [hrun]
    exact .inl ⟨rfl, hphase⟩
  · rw [hrun]
    exact .inr rfl

/-- In the last phase there is a call that entered it. -/
theorem exists_entry (profile : Profile) {calls : List (Call α)}
    (hdone : (play { profile } calls).phase = .done) :
    ∃ before k after, Entry profile calls before k after := by
  induction calls using List.reverseRecOn with
  | nil => exact nomatch hdone
  | append_singleton calls k ih =>
    rw [play_concat] at hdone
    have hlater : (play { profile } calls).phase = .done → k.continues = true →
        ∃ before k' after, Entry profile (calls ++ [k]) before k' after := by
      intro hphase hk
      obtain ⟨before, k', after, hentry⟩ := ih hphase
      exact ⟨before, k', after ++ [k], hentry.concat hk⟩
    have hquiet : k.decides = false → (play { profile } calls).phase = .done :=
      fun hk => (quiet_lasting.run hk _).phase ▸ hdone
    cases k with
    | reset profile' pass features sources targets =>
      have hphase : ((play { profile } calls).after
        (reset profile' pass features sources targets)).phase = .done := hdone
      rcases phase_after_reset (play { profile } calls) with hreset | hfailed
      · exact nomatch hreset.symm.trans hphase
      · exact nomatch hfailed.symm.trans hphase
    | abandon => exact nomatch hdone
    | enter phase =>
      rcases phase_after_target profile calls (k := .enter phase) rfl with
        ⟨hsucceeds, hphase⟩ | hsame
      · obtain rfl := hphase.symm.trans hdone
        exact ⟨calls, _, [], rfl, .inr rfl, hsucceeds, fun _ h => nomatch h⟩
      · exact hlater (hsame ▸ hdone) rfl
    | finish =>
      rcases phase_after_target profile calls (k := .finish) rfl with ⟨hsucceeds, -⟩ | hsame
      · exact ⟨calls, _, [], rfl, .inl rfl, hsucceeds, fun _ h => nomatch h⟩
      · exact hlater (hsame ▸ hdone) rfl
    | allocate | acquire | claim | release | setIndex | parameter | bindStream | initColor | setUv
    | storeUvCode | setVertexConstant | setVertexMatrix | setFragmentConstant =>
      exact hlater (hquiet rfl) rfl

/-! ### What is staged -/

/-- The rows of a pool hold the constants that were in use after some calls: those can be written,
and those alone. -/
structure RoomFor (profile : Profile) (before : List (Call α)) (pool : Pool)
    (rows : Compilation α → List (Vec4 α)) (write : Nat → Vec4 α → Compile α Unit)
    (c : Compilation α) : Prop where
  /-- There are four values for each constant that was in use behind those of the material. -/
  floats : ((rows c).flatMap Vec4.toList).length =
    4 * ((play { profile } before).used.get pool - c.taken.get pool)
  /-- Those constants can be written, and no others. -/
  writable : ∀ index value, succeeds (write index value) c = true ↔
    c.taken.get pool ≤ index ∧ index < (play { profile } before).used.get pool
  /-- So every constant that was handed out by then can be written. -/
  written : ∀ log, Recorded profile before log → ∀ r ∈ ranges pool log,
    ∀ index ∈ List.range' r.1 r.2, ∀ value, succeeds (write index value) c = true
  /-- There are four values for each constant in use as long as no constant was taken since. -/
  current : ((rows c).flatMap Vec4.toList).length = 4 * (c.used.get pool - c.taken.get pool) ↔
    c.used.get pool = (play { profile } before).used.get pool

theorem roomFor_of_length {profile : Profile} {before : List (Call α)} {pool : Pool}
    {rows : Compilation α → List (Vec4 α)} {write : Nat → Vec4 α → Compile α Unit}
    (htaken : c.taken = (play { profile } before).taken)
    (hused : (play { profile } before).used.get pool ≤ c.used.get pool)
    (hrows : (rows c).length =
      (play { profile } before).used.get pool - (play { profile } before).taken.get pool)
    (hwrite : ∀ index value, succeeds (write index value) c = true ↔
      ∃ rows', writeRow (c.taken.get pool) index value (rows c) = .ok rows') :
    RoomFor profile before pool rows write c := by
  obtain ⟨log, hlog⟩ := exists_recorded profile before
  have haccount := hlog.balanced.account
  have hcovered := haccount.covered pool
  have hle := haccount.used_le pool
  have hwritable : ∀ index value, succeeds (write index value) c = true ↔
      c.taken.get pool ≤ index ∧ index < (play { profile } before).used.get pool := by
    intro index value
    rw [hwrite, exists_writeRow (by omega), hrows, htaken]
    omega
  refine ⟨?_, hwritable, fun log' hlog' r hr index hindex value => ?_, ?_⟩
  · rw [length_flatMap_toList, hrows, htaken]
  · rw [hwritable, htaken]
    exact hlog'.balanced.account.of_mem_range hr hindex
  · rw [length_flatMap_toList, hrows, htaken]
    omega

/-- To finish, if it succeeds, leads to the state with room for the constants in use. -/
theorem after_finish {profile : Profile} {before : List (Call α)}
    (h : succeeds (Call.run .finish) (play { profile } before) = true) :
    (play { profile } before).after (Call.run .finish) = (play { profile } before).finished := by
  have hsound := sound_track profile before
  rw [← state_track] at h ⊢
  have hnext := hsound.follows.mp ((hsound.ordered.accepted .finish .done rfl).mp h)
  exact (leads_finish hnext (hsound.equipped (Phase.isActive_of_next hnext).1)).after_eq

/-- **Room for constants**: in the last phase there is the call that entered it. If that was to
finish, the rows of both pools cover what was in use by then. -/
theorem finishing_spec (profile : Profile) {calls : List (Call α)}
    (hdone : (play { profile } calls).phase = .done) :
    (∃ before k after, Entry profile calls before k after) ∧
    ∀ before after, Entry profile calls before .finish after →
      RoomFor profile before .vertexConstant (·.vertexRows) setVertexConstant
        (play { profile } calls) ∧
      RoomFor profile before .fragmentConstant (·.fragmentRows) setFragmentConstant
        (play { profile } calls) := by
  refine ⟨exists_entry profile hdone, fun before after hentry => ?_⟩
  obtain ⟨rfl, -, hgranted, hcontinued⟩ := hentry
  have hplay : play { profile } (before ++ .finish :: after) =
      play (play { profile } before).finished after := by
    rw [play_append, play_cons, after_finish hgranted]
  rw [hplay] at hdone ⊢
  have hlasts : Compilation.Lasts _ _ := lasts_play hcontinued rfl hdone
  constructor
  · refine roomFor_of_length hlasts.taken (hlasts.used _) ?_ fun index value =>
      succeeds_ofOutcome_modify
    rw [hlasts.vertexRows]
    exact List.length_set.trans List.length_replicate
  · refine roomFor_of_length hlasts.taken (hlasts.used _) ?_ fun index value =>
      succeeds_ofOutcome_modify
    rw [hlasts.fragmentRows]
    exact List.length_replicate

/-- A compilation behind some constants of the material, up to the hand-over of the colors. -/
def handedOver (taken : Pool.Counts) (more : List (Call Rat)) : List (Call Rat) :=
  .reset .baseline { taken } {} ["va0"] ["vt0"] :: more ++
    [.enter .init, .enter .primary, .enter .combine, .enter .post, .enter .colorInit, .enter .color,
      .enter .colorCombine]

/-- Two vertex constants and a fragment constant are taken before the end, and one is staged. -/
def orderly : List (Call Rat) :=
  handedOver { vertexConstants := 3, fragmentConstants := 1 }
    [.allocate .vertexConstant 2, .allocate .fragmentConstant 1] ++
    [.finish, .setVertexConstant 5 Vec4.zero]

theorem orderly_covered :
    (play { profile := .baseline } orderly).phase = .done ∧
      ((play { profile := .baseline } orderly).vertexRows.flatMap Vec4.toList).length = 12 ∧
      ((play { profile := .baseline } orderly).fragmentRows.flatMap Vec4.toList).length = 4 ∧
      ∀ value,
        succeeds (setVertexConstant 4 value) (play { profile := .baseline } orderly) = true ∧
        succeeds (setFragmentConstant 1 value) (play { profile := .baseline } orderly) = true := by
  have hdone : (play { profile := .baseline } orderly).phase = .done := by decide +kernel
  have hentry : Entry .baseline orderly
      (handedOver { vertexConstants := 3, fragmentConstants := 1 }
        [.allocate .vertexConstant 2, .allocate .fragmentConstant 1]) .finish
      [.setVertexConstant 5 Vec4.zero] :=
    ⟨rfl, .inl rfl, by decide +kernel, by decide⟩
  have hused : (play { profile := .baseline } (handedOver
      { vertexConstants := 3, fragmentConstants := 1 }
      [.allocate .vertexConstant 2, .allocate .fragmentConstant 1])).used =
      { vertexConstants := 6, fragmentConstants := 2 } := by
    decide +kernel
  have htaken : (play { profile := .baseline } orderly).taken =
      { vertexConstants := 3, fragmentConstants := 1 } := by
    decide +kernel
  obtain ⟨hvertex, hfragment⟩ := (finishing_spec .baseline hdone).2 _ _ hentry
  refine ⟨hdone, ?_, ?_, fun value => ⟨(hvertex.writable 4 value).mpr ?_,
    (hfragment.writable 1 value).mpr ?_⟩⟩
  · rw [hvertex.floats, hused, htaken]
    rfl
  · rw [hfragment.floats, hused, htaken]
    rfl
  · rw [hused, htaken]
    decide
  · rw [hused, htaken]
    decide

/-- A compilation in the last phase that was not finished: the phase was entered by its name. -/
def unfinished : Compilation Rat :=
  play { profile := .baseline } (handedOver {} [] ++ [.enter .done])

/-- A compilation that takes a constant after it was finished. -/
def outgrown : Compilation Rat :=
  play { profile := .baseline } (handedOver {} [] ++ [.finish, .allocate .vertexConstant 1])

/-- In the last phase there may be no room for the constant of the beginning, and none for a
constant that is taken later. -/
theorem constants_unstaged :
    (unfinished.phase = .done ∧
      unfinished.used.vertexConstants - unfinished.taken.vertexConstants = 1 ∧
      (unfinished.vertexRows.flatMap Vec4.toList).length = 0 ∧
      succeeds (setVertexConstant 0 Vec4.zero) unfinished = false) ∧
    outgrown.phase = .done ∧ outgrown.used.vertexConstants - outgrown.taken.vertexConstants = 2 ∧
      (outgrown.vertexRows.flatMap Vec4.toList).length = 4 ∧
      succeeds (setVertexConstant 1 Vec4.zero) outgrown = false := by
  decide +kernel

end Compile

end ParticleShader
