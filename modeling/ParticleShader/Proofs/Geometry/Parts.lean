import ParticleShader.Proofs.Geometry.Flat
import ParticleShader.Proofs.Splits

/-!
# Geometry of given parts

Partitions and runs are given, and one pass over the runs decides whether they make a geometry.
**`parts_spec`** says which runs are accepted, as a fact about numbers without a bound: every
run has to follow those before it (`Run.Follows`). The first run that does not is refused, and
the only runs that are refused in another way than by a mismatch are those whose end is no size
(`Run.Refused`). The only other causes are a last particle whose number cannot be counted up and
identities that are used up.

The pass remembers the last particle and how far each partition is filled. Both are functions
of the runs that it has seen (`lastParticle`, `fill`), so a step of it is a statement about one
more run (`checkRuns_of_follows`, `checkRuns_of_not_follows`).
-/

namespace ParticleShader

variable {sizes : List Nat} {before after runs rest : List Run} {run : Run} {fault : Fault}

namespace Run

/-! ### Runs that follow each other -/

/-- A run follows others: none of their particles comes after its own one, and it continues a
partition behind those of them that lie there. -/
structure Follows (sizes : List Nat) (before : List Run) (run : Run) : Prop where
  /-- The particles are in order. -/
  ascending : ∀ r ∈ before, r.particle ≤ run.particle
  /-- The partition exists, is filled up to the run, and has room for it. -/
  placed : ∃ size, sizes[run.partition]? = some size ∧
    run.first = vertices (before.filter (·.partition = run.partition)) ∧
    run.first + run.count ≤ size

/-- Every run follows those before it. -/
def InPlace (sizes : List Nat) (runs : List Run) : Prop :=
  ∀ before run after, runs = before ++ run :: after → Follows sizes before run

/-- How a run is refused behind others. -/
inductive Refused (sizes : List Nat) (before : List Run) (run : Run) : Fault → Prop where
  /-- Its particle comes before that of the last run. -/
  | descending {last : Run} : before.getLast? = some last → run.particle < last.particle →
    Refused sizes before run (.geometryMismatch (.descending run.particle last.particle))
  /-- It lies in no partition. -/
  | missing : (∀ r ∈ before, r.particle ≤ run.particle) → sizes[run.partition]? = none →
    Refused sizes before run
      (.geometryMismatch (.missingPartition run.particle run.partition))
  /-- It does not begin where its partition is filled to, or ends behind it. -/
  | misplaced {size used : Nat} : (∀ r ∈ before, r.particle ≤ run.particle) →
    sizes[run.partition]? = some size →
    used = vertices (before.filter (·.partition = run.partition)) →
    run.first ≠ used ∨ size < run.first + run.count → run.first + run.count < Size.bound →
    Refused sizes before run (.geometryMismatch (.misplacedRun run.particle run.first
      (run.first + run.count) run.partition used))
  /-- Its end is no size. -/
  | endless {size : Nat} : (∀ r ∈ before, r.particle ≤ run.particle) →
    sizes[run.partition]? = some size → Size.bound ≤ run.first + run.count →
    Refused sizes before run .sizeOverflow

theorem inPlace_nil (sizes : List Nat) : InPlace sizes [] := by
  intro before run after h
  simp at h

theorem inPlace_concat :
    InPlace sizes (before ++ [run]) ↔ InPlace sizes before ∧ Follows sizes before run :=
  forall_split_concat

/-- The particle of the last run, 0 without any. -/
def lastParticle (runs : List Run) : Nat := runs.getLast?.elim 0 (·.particle)

theorem InPlace.le_lastParticle (h : InPlace sizes runs) :
    ∀ r ∈ runs, r.particle ≤ lastParticle runs := by
  rcases List.eq_nil_or_concat runs with rfl | ⟨front, last, rfl⟩
  · simp
  · rw [List.concat_eq_append] at h ⊢
    have hlast := (inPlace_concat.mp h).2.ascending
    simpa [lastParticle, or_imp, forall_and] using hlast

/-- Behind runs in place it is enough to look at the last one. -/
theorem InPlace.ascending_iff (h : InPlace sizes before) :
    (∀ r ∈ before, r.particle ≤ run.particle) ↔ lastParticle before ≤ run.particle := by
  refine ⟨fun hall => ?_, fun hle r hr => Nat.le_trans (h.le_lastParticle r hr) hle⟩
  cases hlast : before.getLast? with
  | none => simp [lastParticle, hlast]
  | some last =>
    simpa [lastParticle, hlast] using hall last (List.mem_of_getLast? hlast)

/-! ### How far partitions are filled -/

/-- How far runs fill partitions. -/
def fill (sizes : List Nat) (runs : List Run) : Array Nat :=
  (sizes.mapIdx fun i _ => vertices (runs.filter (·.partition = i))).toArray

theorem getElem?_fill (sizes : List Nat) (runs : List Run) (i : Nat) :
    (fill sizes runs)[i]? = sizes[i]?.map fun _ => vertices (runs.filter (·.partition = i)) := by
  rw [fill, List.getElem?_toArray, List.getElem?_mapIdx]

theorem fill_nil (sizes : List Nat) : fill sizes [] = Array.replicate sizes.length 0 := by
  refine Array.ext_getElem? fun i => ?_
  rw [getElem?_fill, Array.getElem?_replicate]
  split
  · rename_i hlt
    rw [List.getElem?_eq_getElem hlt]
    rfl
  · rename_i hge
    rw [List.getElem?_eq_none (Nat.le_of_not_lt hge)]
    rfl

/-- One more run fills its own partition only. -/
theorem fill_concat (sizes : List Nat) (before : List Run) (run : Run) :
    fill sizes (before ++ [run]) = (fill sizes before).setIfInBounds run.partition
      (vertices (before.filter (·.partition = run.partition)) + run.count) := by
  refine Array.ext_getElem? fun i => ?_
  rw [Array.getElem?_setIfInBounds, getElem?_fill, getElem?_fill, List.filter_append,
    vertices_append]
  by_cases hi : run.partition = i
  · subst hi
    have hsize : (fill sizes before).size = sizes.length := by simp [fill]
    rw [if_pos rfl, hsize, List.filter_cons_of_pos (by simp), List.filter_nil]
    by_cases hlt : run.partition < sizes.length
    · rw [if_pos hlt, List.getElem?_eq_getElem hlt]
      simp [vertices]
    · rw [if_neg hlt, List.getElem?_eq_none (Nat.le_of_not_lt hlt)]
      rfl
  · rw [if_neg hi, List.filter_cons_of_neg (by simpa using hi), List.filter_nil]
    rfl

end Run

namespace ParticleGeometry

open Run

/-! ### One pass over the runs -/

/-- A run that follows those before it is taken. -/
theorem checkRuns_of_follows (hsizes : ∀ size ∈ sizes, size < Size.bound)
    (hbefore : InPlace sizes before) (hrun : Follows sizes before run) (rest : List Run) :
    checkRuns sizes.toArray (lastParticle before) (fill sizes before) (run :: rest) =
      checkRuns sizes.toArray (lastParticle (before ++ [run])) (fill sizes (before ++ [run]))
        rest := by
  obtain ⟨hascending, size, hsize, hfirst, hroom⟩ := hrun
  have hlast : ¬ run.particle < lastParticle before :=
    Nat.not_lt.mpr (hbefore.ascending_iff.mp hascending)
  have hat : sizes.toArray[run.partition]? = some size := by rw [List.getElem?_toArray, hsize]
  have hused : (fill sizes before)[run.partition]? = some run.first := by
    rw [getElem?_fill, hsize, hfirst]
    rfl
  have hstop : Size.add run.first run.count = .ok (run.first + run.count) :=
    Size.add_eq_ok.mpr ⟨Nat.lt_of_le_of_lt hroom (hsizes size (List.mem_of_getElem? hsize)), rfl⟩
  have hinside : ¬ (run.first ≠ run.first ∨ size < run.first + run.count) :=
    not_or.mpr ⟨fun hne => hne rfl, Nat.not_lt.mpr hroom⟩
  have hnext : lastParticle (before ++ [run]) = run.particle := by simp [lastParticle]
  rw [checkRuns, if_neg hlast, hnext, fill_concat, ← hfirst]
  simp only [hat, hused, hstop]
  exact if_neg hinside

/-- A run that does not follow those before it is refused. -/
theorem checkRuns_of_not_follows (hbefore : InPlace sizes before)
    (hrun : ¬ Follows sizes before run) (rest : List Run) :
    ∃ fault, checkRuns sizes.toArray (lastParticle before) (fill sizes before) (run :: rest) =
      .error fault ∧ Refused sizes before run fault := by
  unfold checkRuns
  by_cases hlast : run.particle < lastParticle before
  · rw [if_pos hlast]
    cases hget : before.getLast? with
    | none => simp [lastParticle, hget] at hlast
    | some last =>
      have heq : lastParticle before = last.particle := by simp [lastParticle, hget]
      rw [heq] at hlast ⊢
      exact ⟨_, rfl, .descending hget hlast⟩
  have hascending : ∀ r ∈ before, r.particle ≤ run.particle :=
    hbefore.ascending_iff.mpr (Nat.le_of_not_lt hlast)
  rw [if_neg hlast]
  cases hsize : sizes[run.partition]? with
  | none =>
    have hat : sizes.toArray[run.partition]? = none := by rw [List.getElem?_toArray, hsize]
    simp only [hat]
    exact ⟨_, rfl, .missing hascending hsize⟩
  | some size =>
    have hat : sizes.toArray[run.partition]? = some size := by rw [List.getElem?_toArray, hsize]
    have hused : (fill sizes before)[run.partition]? =
        some (Run.vertices (before.filter (·.partition = run.partition))) := by
      rw [getElem?_fill, hsize]
      rfl
    simp only [hat, hused]
    by_cases hbound : run.first + run.count < Size.bound
    · have hstop : Size.add run.first run.count = .ok (run.first + run.count) :=
        Size.add_eq_ok.mpr ⟨hbound, rfl⟩
      have hplace : run.first ≠ Run.vertices (before.filter (·.partition = run.partition)) ∨
          size < run.first + run.count := by
        by_contra hplaced
        obtain ⟨hfirst, hroom⟩ := not_or.mp hplaced
        exact hrun ⟨hascending, size, hsize, not_not.mp hfirst, Nat.le_of_not_lt hroom⟩
      simp only [hstop]
      exact ⟨_, if_pos hplace, .misplaced hascending hsize rfl hplace hbound⟩
    · have hbound' := Nat.le_of_not_lt hbound
      rw [Size.add_eq_error.mpr ⟨rfl, hbound'⟩]
      exact ⟨_, rfl, .endless hascending hsize hbound'⟩

/-- What the pass finds: all runs are in place, or the first one that is not is refused. -/
theorem checkRuns_fill (hsizes : ∀ size ∈ sizes, size < Size.bound)
    (hbefore : InPlace sizes before) (runs : List Run) :
    (InPlace sizes (before ++ runs) ∧
        checkRuns sizes.toArray (lastParticle before) (fill sizes before) runs = .ok ()) ∨
      ∃ front run after fault, runs = front ++ run :: after ∧ InPlace sizes (before ++ front) ∧
        ¬ Follows sizes (before ++ front) run ∧ Refused sizes (before ++ front) run fault ∧
        checkRuns sizes.toArray (lastParticle before) (fill sizes before) runs =
          .error fault := by
  induction runs generalizing before with
  | nil => exact .inl ⟨by rwa [List.append_nil], rfl⟩
  | cons run rest ih =>
    by_cases hrun : Follows sizes before run
    · have hnext : InPlace sizes (before ++ [run]) := inPlace_concat.mpr ⟨hbefore, hrun⟩
      rw [checkRuns_of_follows hsizes hbefore hrun]
      rcases ih hnext with ⟨hplace, hok⟩ | ⟨front, bad, after, fault, rfl, hfront, hbad⟩
      · rw [List.append_assoc] at hplace
        exact .inl ⟨hplace, hok⟩
      · rw [List.append_assoc] at hfront hbad
        exact .inr ⟨run :: front, bad, after, fault, rfl, hfront, hbad⟩
    · obtain ⟨fault, herror, hrefused⟩ := checkRuns_of_not_follows hbefore hrun rest
      refine .inr ⟨[], run, rest, fault, rfl, ?_⟩
      rw [List.append_nil]
      exact ⟨hbefore, hrun, hrefused, herror⟩

/-! ### The whole geometry -/

/-- How many particles there are if the numbers of all of them can be counted up. -/
def particleCount (particles : Nat) (runs : List Run) : Nat :=
  runs.getLast?.elim particles fun last => max particles (last.particle + 1)

theorem particlesOf_eq (particles : Nat) (runs : List Run) :
    ((∀ last ∈ runs.getLast?, last.particle + 1 < Size.bound) ∧
        particlesOf particles runs = .ok (particleCount particles runs)) ∨
      (∃ last ∈ runs.getLast?, Size.bound ≤ last.particle + 1) ∧
        particlesOf particles runs = .error .sizeOverflow := by
  unfold particlesOf particleCount
  cases runs.getLast? with
  | none => exact .inl ⟨nofun, rfl⟩
  | some last =>
    by_cases hbound : last.particle + 1 < Size.bound
    · refine .inl ⟨fun r hr => Option.some.inj hr ▸ hbound, ?_⟩
      simp only [Size.add_eq_ok.mpr ⟨hbound, rfl⟩]
      rfl
    · have hbound' := Nat.le_of_not_lt hbound
      refine .inr ⟨⟨last, rfl, hbound'⟩, ?_⟩
      simp only [Size.add_eq_error.mpr ⟨rfl, hbound'⟩]
      rfl

variable {particles : Nat} {ids ids' : IdSupply} {g : ParticleGeometry}

/-- What the checks of given parts find: they are in order, there are too many particles to be
counted, or a run is refused. -/
theorem checkedCount_cases (hsizes : ∀ size ∈ sizes, size < Size.bound) (runs : List Run)
    (particles : Nat) :
    (InPlace sizes runs ∧ (∀ last ∈ runs.getLast?, last.particle + 1 < Size.bound) ∧
        checkedCount sizes runs particles = .ok (particleCount particles runs)) ∨
      (InPlace sizes runs ∧ (∃ last ∈ runs.getLast?, Size.bound ≤ last.particle + 1) ∧
        checkedCount sizes runs particles = .error .sizeOverflow) ∨
      ∃ fault, (∃ before run after, runs = before ++ run :: after ∧ InPlace sizes before ∧
          ¬ Follows sizes before run ∧ Refused sizes before run fault) ∧
        checkedCount sizes runs particles = .error fault := by
  have hpass := checkRuns_fill hsizes (inPlace_nil sizes) runs
  simp only [List.nil_append, fill_nil] at hpass
  rcases hpass with ⟨hplace, hok⟩ | ⟨front, run, after, fault, hsplit, hfront, hrun, hrefused, hbad⟩
  · rcases particlesOf_eq particles runs with ⟨hcounted, hcount⟩ | ⟨hcounted, hcount⟩
    · exact .inl ⟨hplace, hcounted, Outcome.bind_eq_ok.mpr ⟨(), hok, hcount⟩⟩
    · exact .inr (.inl ⟨hplace, hcounted, Outcome.bind_eq_error.mpr (.inr ⟨(), hok, hcount⟩)⟩)
  · exact .inr (.inr ⟨fault, ⟨front, run, after, hsplit, hfront, hrun, hrefused⟩,
      Outcome.bind_eq_error.mpr (.inl hbad)⟩)

/-- Parts are accepted exactly if their runs follow each other and the last particle can be
counted. -/
theorem exists_checkedCount_iff (hsizes : ∀ size ∈ sizes, size < Size.bound) (runs : List Run)
    (particles : Nat) :
    (∃ count, checkedCount sizes runs particles = .ok count) ↔
      InPlace sizes runs ∧ ∀ last ∈ runs.getLast?, last.particle + 1 < Size.bound := by
  rcases checkedCount_cases hsizes runs particles with
    ⟨hplace, hcounted, hchecked⟩ | ⟨-, ⟨last, hlast, hbound⟩, hchecked⟩ |
    ⟨fault, ⟨before, run, after, rfl, -, hout, -⟩, hchecked⟩
  · exact ⟨fun _ => ⟨hplace, hcounted⟩, fun _ => ⟨_, hchecked⟩⟩
  · refine ⟨fun ⟨_, hok⟩ => (nomatch hchecked.symm.trans hok), fun ⟨_, hcounted⟩ => ?_⟩
    exact absurd (hcounted last hlast) (Nat.not_lt.mpr hbound)
  · refine ⟨fun ⟨_, hok⟩ => (nomatch hchecked.symm.trans hok), fun ⟨hplace, _⟩ => ?_⟩
    exact absurd (hplace before run after rfl) hout

theorem checkedCount_eq_ok (hsizes : ∀ size ∈ sizes, size < Size.bound) {count : Nat}
    (h : checkedCount sizes runs particles = .ok count) : count = particleCount particles runs := by
  rcases checkedCount_cases hsizes runs particles with
    ⟨-, -, hchecked⟩ | ⟨-, -, hchecked⟩ | ⟨fault, -, hchecked⟩
  · exact (Except.ok.inj (hchecked.symm.trans h)).symm
  · exact nomatch hchecked.symm.trans h
  · exact nomatch hchecked.symm.trans h

theorem checkedCount_eq_error (hsizes : ∀ size ∈ sizes, size < Size.bound)
    (h : checkedCount sizes runs particles = .error fault) :
    (∃ before run after, runs = before ++ run :: after ∧ InPlace sizes before ∧
        ¬ Follows sizes before run ∧ Refused sizes before run fault) ∨
      InPlace sizes runs ∧ fault = .sizeOverflow ∧
        ∃ last ∈ runs.getLast?, Size.bound ≤ last.particle + 1 := by
  rcases checkedCount_cases hsizes runs particles with
    ⟨-, -, hchecked⟩ | ⟨hplace, hcounted, hchecked⟩ | ⟨cause, hrefused, hchecked⟩
  · exact nomatch hchecked.symm.trans h
  · exact .inr ⟨hplace, (Except.error.inj (hchecked.symm.trans h)).symm, hcounted⟩
  · obtain rfl := Except.error.inj (hchecked.symm.trans h)
    exact .inl hrefused

/-- **What comes of given parts.** They are accepted exactly if every run follows those before
it, the last particle can be counted, and there are identities for the geometry and its
partitions; partitions and runs are then as given, the identities are new, and the particles are
those asked for or as many as the runs need. Otherwise there are too few identities for the
partitions, which are then used up; or the partitions have theirs but the geometry has not, and
the first run that does not follow those before it is refused, or nothing is wrong with the runs
but a number that is too large: that of the particles or that of the geometry. -/
theorem parts_spec (hsizes : ∀ size ∈ sizes, size < Size.bound) (runs : List Run)
    (particles : Nat) (ids : IdSupply) :
    ((∃ g ids', Leads (ofParts sizes runs particles) ids g ids') ↔
        ids.HasGeometry sizes.length ∧ InPlace sizes runs ∧
          ∀ last ∈ runs.getLast?, last.particle + 1 < Size.bound) ∧
      (∀ g ids', Leads (ofParts sizes runs particles) ids g ids' →
        g.id = ids.geometry ∧ g.partitions.map (·.vertices) = sizes ∧
          g.partitions.map (·.id) = List.range' ids.partition sizes.length ∧
          g.runs = runs ∧
          g.particles = runs.getLast?.elim particles (max particles <| ·.particle + 1) ∧
          ids' = ⟨ids.geometry + 1, ids.partition + sizes.length⟩) ∧
      ∀ fault ids', (ofParts sizes runs particles).run ids = .error fault ids' →
        (¬ ids.HasPartitions sizes.length ∧ fault = .sizeOverflow ∧
          ids' = ⟨ids.geometry, max ids.partition IdSupply.limit⟩) ∨
        ids.HasPartitions sizes.length ∧
          ids' = ⟨ids.geometry, ids.partition + sizes.length⟩ ∧
          ((∃ before run after, runs = before ++ run :: after ∧ InPlace sizes before ∧
              ¬ Follows sizes before run ∧ Refused sizes before run fault) ∨
            InPlace sizes runs ∧ fault = .sizeOverflow ∧
              ((∃ last ∈ runs.getLast?, Size.bound ≤ last.particle + 1) ∨
                IdSupply.limit ≤ ids.geometry)) := by
  refine ⟨?_, fun g ids' hg => ?_, fun fault ids' herror => ?_⟩
  · rw [← exists_checkedCount_iff hsizes runs particles]
    constructor
    · rintro ⟨g, ids', hg⟩
      obtain ⟨hleft, count, hchecked, -⟩ := leads_ofParts.mp hg
      exact ⟨hleft, count, hchecked⟩
    · rintro ⟨hleft, count, hchecked⟩
      exact ⟨_, _, leads_ofParts.mpr ⟨hleft, count, hchecked, rfl, rfl⟩⟩
  · obtain ⟨-, count, hchecked, rfl, rfl⟩ := leads_ofParts.mp hg
    exact ⟨rfl, map_vertices_partitionsFrom .., map_id_partitionsFrom .., rfl,
      checkedCount_eq_ok hsizes hchecked, rfl⟩
  · rw [run_ofParts] at herror
    split at herror
    · rename_i hparts
      refine .inr ⟨hparts, ?_⟩
      cases hchecked : checkedCount sizes runs particles with
      | error cause =>
        simp only [hchecked] at herror
        obtain ⟨rfl, rfl⟩ := EStateM.Result.error.inj herror
        refine ⟨rfl, (checkedCount_eq_error hsizes hchecked).imp_right ?_⟩
        exact fun ⟨hplace, hfault, hcounted⟩ => ⟨hplace, hfault, .inl hcounted⟩
      | ok count =>
        simp only [hchecked] at herror
        have hplace := ((exists_checkedCount_iff hsizes runs particles).mp ⟨count, hchecked⟩).1
        split at herror
        · cases herror
        · rename_i hnone
          obtain ⟨rfl, rfl⟩ := EStateM.Result.error.inj herror
          exact ⟨rfl, .inr ⟨hplace, rfl, .inr (Nat.le_of_not_lt hnone)⟩⟩
    · rename_i hparts
      obtain ⟨rfl, rfl⟩ := EStateM.Result.error.inj herror
      exact .inl ⟨hparts, rfl, rfl⟩

/-- Particles that lie in several partitions, go to and fro between them or have no vertices. -/
def wovenRuns : List Run := [⟨0, 0, 0, 1⟩, ⟨0, 1, 0, 2⟩, ⟨2, 1, 2, 0⟩, ⟨3, 0, 1, 1⟩]

theorem wovenRuns_inPlace : (∀ size ∈ [2, 3], size < Size.bound) ∧ InPlace [2, 3] wovenRuns := by
  have hsizes : ∀ size ∈ [2, 3], size < Size.bound := by decide
  have htaken := exists_leads (x := ofParts [2, 3] wovenRuns 1) (s := {}) rfl
  exact ⟨hsizes, ((parts_spec hsizes wovenRuns 1 {}).1.mp htaken).2.1⟩

/-- The run that follows is refused because of its end, which is no size; it does not follow
the run before it in any case. -/
theorem endless_run : ¬ Follows [5] [⟨0, 0, 0, 5⟩] ⟨1, 0, 5, Size.bound - 5⟩ ∧
    (ofParts [5] [⟨0, 0, 0, 5⟩, ⟨1, 0, 5, Size.bound - 5⟩] 0).run {} =
      .error .sizeOverflow ⟨0, 1⟩ := by
  refine ⟨fun h => ?_, rfl⟩
  obtain ⟨-, size, hsize, -, hroom⟩ := h
  obtain rfl : 5 = size := Option.some.inj hsize
  exact absurd hroom (by decide)

end ParticleGeometry

end ParticleShader
