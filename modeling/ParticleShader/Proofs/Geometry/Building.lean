import Mathlib.Algebra.GroupWithZero.Nat
import ParticleShader.Proofs.Geometry.Supply

/-!
# Geometry that is collected call by call

A builder is told to add particles, to add runs and to split partitions, in any order. What
it took accounts for the geometry that it builds in the end, and nothing that it took can make
the checks of the geometry fail: **`calls_spec`**.

The invariant is `Packed`. It says of every partition so far, the current one included, that
the runs in it lie one behind the other from the first vertex to the last (`Run.Tile`), which
is what the checks go through run by run (`checkRuns_of_tile`).
-/

namespace ParticleShader

namespace Size

/-- Sizes are added up exactly if their sum is a size. -/
theorem sum_eq (sizes : List Nat) : sum sizes = check sizes.sum := by
  suffices ∀ start < bound, sizes.foldlM add start = check (start + sizes.sum) by
    simpa [sum] using this 0 (by decide)
  induction sizes with
  | nil => exact fun start hstart => (check_eq_ok.mpr ⟨hstart, rfl⟩).symm
  | cons size sizes ih =>
    intro start _
    rw [List.foldlM_cons, List.sum_cons, ← Nat.add_assoc]
    by_cases hfit : start + size < bound
    · rw [add_eq_ok.mpr ⟨hfit, rfl⟩]
      exact ih (start + size) hfit
    · have hlong : bound ≤ start + size + sizes.sum :=
        Nat.le_trans (Nat.le_of_not_lt hfit) (Nat.le_add_right ..)
      rw [add_eq_error.mpr ⟨rfl, Nat.le_of_not_lt hfit⟩, check_eq_error.mpr ⟨rfl, hlong⟩]
      rfl

end Size

/-! ### Runs one behind the other -/

/-- Runs lie one behind the other, from `start` to `stop`. -/
def Run.Tile : Nat → List Run → Nat → Prop
  | start, [], stop => start = stop
  | start, r :: rs, stop => r.first = start ∧ Tile (start + r.count) rs stop

namespace Run.Tile

variable {start stop : Nat} {r : Run} {rs : List Run}

theorem le (h : Tile start rs stop) : start ≤ stop := by
  induction rs generalizing start with
  | nil => exact Nat.le_of_eq h
  | cons r rs ih => exact Nat.le_trans (Nat.le_add_right ..) (ih h.2)

/-- One more run at the end. -/
theorem snoc (h : Tile start rs stop) (hr : r.first = stop) :
    Tile start (rs ++ [r]) (stop + r.count) := by
  induction rs generalizing start with
  | nil => exact ⟨hr.trans h.symm, by rw [h]; rfl⟩
  | cons r' rs ih => exact ⟨h.1, ih h.2⟩

/-- Runs of which none is empty leave no room unused. -/
theorem eq_nil (h : Tile start rs start) (hcount : ∀ r ∈ rs, 0 < r.count) : rs = [] := by
  cases rs with
  | nil => rfl
  | cons r rs =>
    have hpos := hcount r List.mem_cons_self
    have hle := h.2.le
    omega

end Run.Tile

namespace ParticleGeometry

/-- **Runs that tile their partitions pass the checks**, from wherever the partitions are
filled to. -/
theorem checkRuns_of_tile {sizes filled : Array Nat} {runs : List Run} {last : Nat}
    (hlast : ∀ r ∈ runs, last ≤ r.particle)
    (hascending : runs.Pairwise fun r r' => r.particle ≤ r'.particle)
    (hplaced : ∀ r ∈ runs, r.partition < sizes.size) (hsize : filled.size = sizes.size)
    (htile : ∀ (i : Nat) size used, sizes[i]? = some size → filled[i]? = some used →
      size < Size.bound ∧ Run.Tile used (runs.filter (·.partition = i)) size) :
    checkRuns sizes last filled runs = .ok () := by
  induction runs generalizing last filled with
  | nil => rfl
  | cons run rest ih =>
    obtain ⟨hfirst, hrest⟩ := List.pairwise_cons.mp hascending
    have hlt : run.partition < sizes.size := hplaced run List.mem_cons_self
    have hlt' : run.partition < filled.size := hsize ▸ hlt
    have hat := Array.getElem?_eq_getElem hlt
    have hused := Array.getElem?_eq_getElem hlt'
    obtain ⟨hbound, hhere⟩ := htile run.partition _ _ hat hused
    rw [List.filter_cons_of_pos (by simp)] at hhere
    have hend := hhere.2.le
    have hadd : Size.add run.first run.count = .ok (run.first + run.count) :=
      Size.add_eq_ok.mpr ⟨by rw [hhere.1]; omega, rfl⟩
    have hnotlast : ¬ run.particle < last := Nat.not_lt.mpr (hlast run List.mem_cons_self)
    have hinside : ¬ (run.first ≠ filled[run.partition] ∨
        sizes[run.partition] < run.first + run.count) := by
      rw [hhere.1]
      omega
    unfold checkRuns
    simp only [if_neg hnotlast, hat, hused, hadd]
    show (if _ then _ else _) = _
    rw [if_neg hinside]
    refine ih hfirst hrest (fun r hr => hplaced r (List.mem_cons_of_mem _ hr))
      (by rw [Array.size_setIfInBounds, hsize]) fun i size used hi hfilled => ?_
    have htiled := htile i size
    by_cases hi' : run.partition = i
    · subst hi'
      rw [Array.getElem?_setIfInBounds_self_of_lt hlt', Option.some.injEq] at hfilled
      obtain ⟨hsize', hall⟩ := htiled _ hi hused
      rw [List.filter_cons_of_pos (by simp)] at hall
      rw [← hfilled, hhere.1]
      exact ⟨hsize', hall.2⟩
    · rw [Array.getElem?_setIfInBounds_ne hi'] at hfilled
      obtain ⟨hsize', hall⟩ := htiled used hi hfilled
      rw [List.filter_cons_of_neg (by simpa using hi')] at hall
      exact ⟨hsize', hall⟩

/-- The particles are counted right if every run belongs to one of them. -/
theorem particlesOf_of_counted {particles : Nat} {runs : List Run}
    (hcounted : ∀ r ∈ runs, r.particle < particles) (hfit : particles < Size.bound) :
    particlesOf particles runs = .ok particles := by
  unfold particlesOf
  cases hlast : runs.getLast? with
  | none => rfl
  | some run =>
    have hlt := hcounted run (List.mem_of_getLast? hlast)
    have hadd : Size.add run.particle 1 = .ok (run.particle + 1) :=
      Size.add_eq_ok.mpr ⟨by omega, rfl⟩
    simp only [hadd]
    show Except.ok (max particles (run.particle + 1)) = _
    rw [Nat.max_eq_left hlt]

end ParticleGeometry

namespace GeometryBuilder

variable {b b₁ b₂ b' : GeometryBuilder} {particle count : Nat} {fault : Fault}

/-! ### What a builder has collected -/

/-- The sizes of the partitions so far, the current one at the end. -/
def parts (b : GeometryBuilder) : List Nat := b.closed.toList ++ [b.current]

/-- How many vertices a particle has in some runs. -/
def countIn (runs : List Run) (particle : Nat) : Nat :=
  ((runs.filter (·.particle = particle)).map (·.count)).sum

theorem countIn_concat (runs : List Run) (run : Run) (particle : Nat) :
    countIn (runs ++ [run]) particle =
      countIn runs particle + if run.particle = particle then run.count else 0 := by
  unfold countIn
  split <;> simp [*]

/-- The runs of a builder tile its partitions, in order. -/
structure Packed (b : GeometryBuilder) : Prop where
  /-- No partition is too large. -/
  bounded : ∀ size ∈ b.parts, size ≤ b.capacity
  /-- Only the current partition may be empty. -/
  closed : ∀ size ∈ b.closed.toList, 0 < size
  /-- No run is empty. -/
  nonempty : ∀ r ∈ b.runs.toList, 0 < r.count
  /-- The runs come in the order of the particles and of the partitions. -/
  ascending : b.runs.toList.Pairwise fun r r' =>
    r.particle ≤ r'.particle ∧ r.partition ≤ r'.partition
  /-- They lie in partitions that exist. -/
  placed : ∀ r ∈ b.runs.toList, r.partition ≤ b.closed.size
  /-- The runs of a partition fill it from the first vertex to the last. -/
  tiled : ∀ (i : Nat) size, b.parts[i]? = some size →
    Run.Tile 0 (b.runs.toList.filter (·.partition = i)) size

theorem Packed.bounded_max {m i size : Nat} (h : b.Packed) (hm : b.capacity = max m 1)
    (hi : b.parts[i]? = some size) : size ≤ max m 1 :=
  hm ▸ h.bounded size (List.mem_of_getElem? hi)

theorem packed_ofCapacity (m : Nat) : (ofCapacity m).Packed := by
  refine ⟨?_, ?_, ?_, List.Pairwise.nil, ?_, fun i size hsize => ?_⟩
  · simp [parts, ofCapacity]
  · simp [ofCapacity]
  · simp [ofCapacity]
  · simp [ofCapacity]
  · cases i with
    | zero =>
      obtain rfl : 0 = size := by simpa [parts, ofCapacity] using hsize
      rfl
    | succ i => simp [parts, ofCapacity] at hsize

/-- A partition that has just begun is tiled, as no run lies in it. -/
theorem tiled_new {sizes : List Nat} {runs : List Run}
    (h : ∀ (i : Nat) size, sizes[i]? = some size →
      Run.Tile 0 (runs.filter (·.partition = i)) size)
    (hplaced : ∀ r ∈ runs, r.partition < sizes.length) {i size : Nat}
    (hi : (sizes ++ [0])[i]? = some size) : Run.Tile 0 (runs.filter (·.partition = i)) size := by
  by_cases hlt : i < sizes.length
  · exact h i size (by rwa [List.getElem?_append_left hlt] at hi)
  · have hnone : runs.filter (·.partition = i) = [] := by
      refine List.filter_eq_nil_iff.mpr fun r hr => ?_
      have := hplaced r hr
      rw [decide_eq_true_eq]
      omega
    rw [List.getElem?_append_right (Nat.not_lt.mp hlt), List.getElem?_singleton] at hi
    split at hi
    · cases hi
      rw [hnone]
      rfl
    · cases hi

/-- A run at the end of the last partition makes that one larger. -/
theorem tiled_concat {sizes : List Nat} {current : Nat} {runs : List Run} {run : Run}
    (h : ∀ (i : Nat) size, (sizes ++ [current])[i]? = some size →
      Run.Tile 0 (runs.filter (·.partition = i)) size)
    (hpartition : run.partition = sizes.length) (hfirst : run.first = current) {i size : Nat}
    (hi : (sizes ++ [current + run.count])[i]? = some size) :
    Run.Tile 0 ((runs ++ [run]).filter (·.partition = i)) size := by
  rw [List.filter_append]
  by_cases hlt : i < sizes.length
  · rw [List.getElem?_append_left hlt] at hi
    rw [List.filter_cons_of_neg (by rw [decide_eq_true_eq]; omega), List.filter_nil,
      List.append_nil]
    exact h i size (by rwa [List.getElem?_append_left hlt])
  · rw [List.getElem?_append_right (Nat.not_lt.mp hlt), List.getElem?_singleton] at hi
    split at hi
    · cases hi
      obtain rfl : i = sizes.length := by omega
      rw [List.filter_cons_of_pos (by rw [decide_eq_true_eq]; exact hpartition), List.filter_nil]
      exact (h sizes.length current (by simp)).snoc hfirst
    · cases hi

/-- What a step does that adds vertices of a particle behind all runs. -/
structure Adds (b : GeometryBuilder) (particle count : Nat) (b' : GeometryBuilder) : Prop where
  /-- The runs tile the partitions. -/
  packed : b'.Packed
  /-- No run belongs to a later particle. -/
  last : ∀ r ∈ b'.runs.toList, r.particle ≤ particle
  /-- The partitions may become as large as before. -/
  capacity : b'.capacity = b.capacity
  /-- The particle that comes next is the same. -/
  next : b'.next = b.next
  /-- The particle has that many vertices more, all others have as many as before. -/
  counts : ∀ p, countIn b'.runs.toList p =
    countIn b.runs.toList p + if particle = p then count else 0
  /-- So has the geometry. -/
  total : b'.parts.sum = b.parts.sum + count

theorem Adds.refl (h : b.Packed) (hlast : ∀ r ∈ b.runs.toList, r.particle ≤ particle) :
    b.Adds particle 0 b :=
  ⟨h, hlast, rfl, rfl, fun p => by simp, rfl⟩

theorem Adds.trans {more : Nat} (h : b.Adds particle count b₁) (h' : b₁.Adds particle more b₂) :
    b.Adds particle (count + more) b₂ := by
  refine ⟨h'.packed, h'.last, h'.capacity.trans h.capacity, h'.next.trans h.next, fun p => ?_, ?_⟩
  · rw [h'.counts, h.counts]
    split <;> omega
  · rw [h'.total, h.total, Nat.add_assoc]

/-- A new partition. -/
theorem adds_split (h : b.Packed) (hlast : ∀ r ∈ b.runs.toList, r.particle ≤ particle) :
    b.Adds particle 0 b.split := by
  unfold split
  split
  · rename_i hcurrent
    have hparts : ({ b with closed := b.closed.push b.current, current := 0 } :
        GeometryBuilder).parts = b.parts ++ [0] := by simp [parts]
    have hplaced : ∀ r ∈ b.runs.toList, r.partition < b.parts.length := fun r hr => by
      have := h.placed r hr
      rw [parts, List.length_append, List.length_singleton, Array.length_toList]
      omega
    refine ⟨⟨?_, ?_, h.nonempty, h.ascending, fun r hr => ?_, fun i size hi => ?_⟩, hlast, rfl,
      rfl, fun p => by simp, ?_⟩
    · rw [hparts]
      exact List.forall_mem_append.mpr ⟨h.bounded, by simp⟩
    · rw [Array.toList_push]
      exact List.forall_mem_append.mpr ⟨h.closed, by simpa using hcurrent⟩
    · rw [Array.size_push]
      exact Nat.le_succ_of_le (h.placed r hr)
    · exact tiled_new h.tiled hplaced (by rwa [hparts] at hi)
    · rw [hparts]
      simp
  · exact .refl h hlast

/-- Vertices for which the current partition has room. -/
theorem adds_pushRun (h : b.Packed) (hlast : ∀ r ∈ b.runs.toList, r.particle ≤ particle)
    (hroom : b.current + count ≤ b.capacity) :
    b.Adds particle count (b.pushRun particle count) := by
  unfold pushRun
  split
  · rename_i hzero
    rw [hzero]
    exact .refl h hlast
  · rename_i hcount
    refine ⟨⟨?_, h.closed, ?_, ?_, ?_, fun i size hi => ?_⟩, ?_, rfl, rfl, fun p => ?_, ?_⟩
    · refine List.forall_mem_append.mpr ⟨(List.forall_mem_append.mp h.bounded).1, ?_⟩
      simpa using hroom
    · rw [Array.toList_push]
      exact List.forall_mem_append.mpr ⟨h.nonempty, by simpa using Nat.pos_of_ne_zero hcount⟩
    · rw [Array.toList_push]
      refine List.pairwise_append.mpr
        ⟨h.ascending, List.pairwise_singleton .., fun r hr r' hr' => ?_⟩
      rw [List.mem_singleton] at hr'
      rw [hr']
      exact ⟨hlast r hr, h.placed r hr⟩
    · rw [Array.toList_push]
      exact List.forall_mem_append.mpr ⟨h.placed, by simp⟩
    · rw [Array.toList_push]
      exact tiled_concat h.tiled Array.length_toList.symm rfl hi
    · rw [Array.toList_push]
      exact List.forall_mem_append.mpr ⟨hlast, by simp⟩
    · rw [Array.toList_push, countIn_concat]
    · simp [parts, Nat.add_assoc]

/-- A partition with room, the current one or a new one. -/
theorem adds_withRoom (h : b.Packed) (hlast : ∀ r ∈ b.runs.toList, r.particle ≤ particle) :
    b.Adds particle 0 b.withRoom := by
  unfold withRoom
  split
  · exact .refl h hlast
  · exact adds_split h hlast

/-- Vertices in as many partitions as it takes. -/
theorem adds_pushRuns (h : b.Packed) (hlast : ∀ r ∈ b.runs.toList, r.particle ≤ particle)
    (count : Nat) : b.Adds particle count (b.pushRuns particle count) := by
  induction count using Nat.strongRecOn generalizing b with
  | ind count ih =>
    cases count with
    | zero =>
      rw [pushRuns]
      exact .refl h hlast
    | succ remaining =>
      have hroom := b.withRoom_current_lt
      have hfirst := adds_withRoom h hlast
      rw [pushRuns]
      generalize hpart : min (remaining + 1) (b.withRoom.capacity - b.withRoom.current) = part
      have hpushed : b.withRoom.Adds particle part (b.withRoom.pushRun particle part) :=
        adds_pushRun hfirst.packed hfirst.last (by omega)
      have hrest := ih (remaining + 1 - part) (by omega) hpushed.packed hpushed.last
      have hall := (hfirst.trans hpushed).trans hrest
      rwa [Nat.zero_add, Nat.add_sub_cancel' (by omega)] at hall

/-! ### One call -/

/-- What a builder is told to do. -/
inductive Call where
  /-- To add a particle. -/
  | particle (vertices : Nat)
  /-- To add vertices of a particle. -/
  | run (particle vertices : Nat)
  /-- To close the current partition. -/
  | split
deriving DecidableEq

/-- How many vertices a call asks for. -/
def Call.vertices : Call → Nat
  | .particle vertices | .run _ vertices => vertices
  | .split => 0

/-- Vertices of a particle that were taken. -/
structure Addition where
  /-- The particle. -/
  particle : Nat
  /-- How many vertices there are. -/
  vertices : Nat
deriving DecidableEq

/-- Does what it is told, and says what was taken. -/
def call (b : GeometryBuilder) : Call → Except Fault (Option Addition × GeometryBuilder)
  | .particle vertices => do
    let (added, index) ← b.addParticle vertices
    return (some ⟨index, vertices⟩, added)
  | .run particle vertices => do return (some ⟨particle, vertices⟩, ← b.addRun particle vertices)
  | .split => .ok (none, b.split)

/-- Why a run is rejected. -/
def Rejects (b : GeometryBuilder) : Call → GeometryFault → Prop
  | .run particle vertices, cause =>
    particle + 1 < b.next ∧ cause = .addedLate particle (b.next - 1) ∨
      b.next ≤ particle + 1 ∧ b.capacity < b.current + vertices ∧
        cause = .oversizedRun vertices b.capacity
  | _, _ => False

/-- The particle behind that of a call, which nothing else is wrong with, has no index that
is a word. -/
def Overflows (b : GeometryBuilder) : Call → Prop
  | .particle _ => Size.bound ≤ b.next + 1
  | .run particle vertices => b.next ≤ particle + 1 ∧ b.current + vertices ≤ b.capacity ∧
    Size.bound ≤ particle + 1
  | .split => False

variable {vertices index m : Nat} {additions : List Addition}

/-- What a builder becomes when a particle is added. -/
theorem addParticle_eq_ok (h : b.addParticle vertices = .ok (b', index)) :
    ∃ needed, index = b.next ∧ b.next + 1 < Size.bound ∧
      b' = { (if needed ≤ b.capacity then b else b.split).pushRuns b.next vertices with
        next := b.next + 1 } := by
  unfold addParticle at h
  split at h
  · simp only [Outcome.bind_eq_ok, Outcome.pure_eq_ok, Prod.mk.injEq] at h
    obtain ⟨needed, -, next, hadd, rfl, rfl⟩ := h
    obtain ⟨hfits, rfl⟩ := Size.add_eq_ok.mp hadd
    exact ⟨needed, rfl, hfits, rfl⟩
  · simp only [Outcome.bind_eq_ok, Outcome.pure_eq_ok, Prod.mk.injEq] at h
    obtain ⟨needed, -, next, hadd, rfl, rfl⟩ := h
    obtain ⟨hfits, rfl⟩ := Size.add_eq_ok.mp hadd
    exact ⟨needed, rfl, hfits, rfl⟩

theorem addParticle_eq_error (hroom : b.current + vertices < Size.bound) :
    b.addParticle vertices = .error fault ↔ fault = .sizeOverflow ∧ Size.bound ≤ b.next + 1 := by
  rw [← Size.add_eq_error]
  unfold addParticle
  simp only [Size.add_eq_ok.mpr ⟨hroom, rfl⟩]
  cases hadd : Size.add b.next 1 <;> split <;> simp [bind, Except.bind, pure, Except.pure]

theorem addRun_eq_ok (h : b.addRun particle vertices = .ok b') :
    b.next ≤ particle + 1 ∧ b.current + vertices ≤ b.capacity ∧ particle + 1 < Size.bound ∧
      b' = { b.pushRun particle vertices with next := particle + 1 } := by
  unfold addRun at h
  by_cases hlate : particle + 1 < b.next
  · simp [hlate] at h
  · simp only [if_neg hlate] at h
    obtain ⟨filled, hadd, h⟩ := Outcome.bind_eq_ok.mp h
    obtain ⟨-, rfl⟩ := Size.add_eq_ok.mp hadd
    split at h
    · simp at h
    · rename_i hroom
      simp only [Outcome.bind_eq_ok, Outcome.pure_eq_ok] at h
      obtain ⟨next, hadd, rfl⟩ := h
      obtain ⟨hfits, rfl⟩ := Size.add_eq_ok.mp hadd
      rw [Nat.max_eq_right (Nat.not_lt.mp hlate)]
      exact ⟨Nat.not_lt.mp hlate, Nat.not_lt.mp hroom, hfits, rfl⟩

theorem addRun_eq_error (hroom : b.current + vertices < Size.bound) :
    b.addRun particle vertices = .error fault ↔
      (∃ cause, fault = .geometryMismatch cause ∧ b.Rejects (.run particle vertices) cause) ∨
        fault = .sizeOverflow ∧ b.Overflows (.run particle vertices) := by
  have hfilled : Size.add b.current vertices = .ok (b.current + vertices) :=
    Size.add_eq_ok.mpr ⟨hroom, rfl⟩
  have herror : ∀ cause : Fault, (Except.error cause : Except Fault GeometryBuilder) =
      .error fault ↔ fault = cause := fun cause => by rw [Except.error.injEq, eq_comm]
  unfold addRun Rejects Overflows
  by_cases hlate : particle + 1 < b.next
  · have hnext : ¬ b.next ≤ particle + 1 := Nat.not_le.mpr hlate
    simp only [hlate, hnext, true_and, false_and, and_false, or_false, exists_eq_right]
    exact herror _
  · have hnext := Nat.not_lt.mp hlate
    by_cases hlarge : b.capacity < b.current + vertices
    · have hfit : ¬ b.current + vertices ≤ b.capacity := Nat.not_le.mpr hlarge
      simp only [hlate, hnext, hfilled, hfit, hlarge, true_and, false_and, and_false, or_false,
        false_or, exists_eq_right, if_false, bind, Except.bind, if_true]
      exact herror _
    · have hfit := Nat.not_lt.mp hlarge
      simp only [hlate, hnext, hfilled, hfit, hlarge, true_and, false_and, and_false, exists_false,
        false_or, if_false, ← Size.add_eq_error, bind, Except.bind]
      cases Size.add particle 1 <;> simp [pure, Except.pure]

/-- What is wrong with a call. -/
theorem call_eq_error {c : Call} (hroom : b.current + c.vertices < Size.bound) :
    b.call c = .error fault ↔
      (∃ cause, fault = .geometryMismatch cause ∧ b.Rejects c cause) ∨
        fault = .sizeOverflow ∧ b.Overflows c := by
  cases c with
  | particle vertices =>
    have hfails : b.addParticle vertices = .error fault ↔ _ := addParticle_eq_error hroom
    simp only [Rejects, Overflows, and_false, exists_false, false_or, ← hfails]
    unfold call
    rw [Outcome.bind_eq_error]
    simp
  | run particle vertices =>
    have hfails : b.addRun particle vertices = .error fault ↔ _ := addRun_eq_error hroom
    rw [← hfails]
    unfold call
    rw [Outcome.bind_eq_error]
    simp
  | split => simp [call, Rejects, Overflows]

/-- A builder accounts for the additions that it took. -/
structure Collected (m : Nat) (additions : List Addition) (b : GeometryBuilder) : Prop where
  /-- The runs tile the partitions. -/
  packed : b.Packed
  /-- A partition has as many vertices as it may, and at least one. -/
  capacity : b.capacity = max m 1
  /-- The particle of a run comes before the next one. -/
  counted : ∀ r ∈ b.runs.toList, r.particle < b.next
  /-- A particle has the vertices that were added to it. -/
  requested : ∀ p, countIn b.runs.toList p =
    ((additions.filter (·.particle = p)).map (·.vertices)).sum
  /-- The partitions have the vertices that were added. -/
  total : b.parts.sum = (additions.map (·.vertices)).sum
  /-- The next particle comes behind all that were named. -/
  next : b.next = (additions.map (·.particle + 1)).foldl max 0
  /-- It is a word. -/
  fits : b.next < Size.bound

theorem collected_ofCapacity (m : Nat) : Collected m [] (ofCapacity m) :=
  ⟨packed_ofCapacity m, rfl, fun r hr => by simp [ofCapacity] at hr, fun _ => rfl, rfl, rfl,
    Nat.two_pow_pos 64⟩

/-- **One addition**, of the last particle or of a later one. -/
theorem Collected.adds (h : Collected m additions b) (hadds : b.Adds particle count b₁)
    (hnext : b.next ≤ particle + 1) (hfits : particle + 1 < Size.bound) :
    Collected m (additions ++ [⟨particle, count⟩]) { b₁ with next := particle + 1 } := by
  have hpacked := hadds.packed
  refine ⟨⟨hpacked.bounded, hpacked.closed, hpacked.nonempty, hpacked.ascending, hpacked.placed,
    hpacked.tiled⟩, hadds.capacity.trans h.capacity,
    fun r hr => Nat.lt_succ_of_le (hadds.last r hr), fun p => ?_, ?_, ?_, hfits⟩
  · rw [List.filter_append, List.map_append, List.sum_append, ← h.requested p]
    refine (hadds.counts p).trans ?_
    split <;> simp [*]
  · rw [List.map_append, List.sum_append, ← h.total]
    refine hadds.total.trans ?_
    simp
  · rw [List.map_append, List.foldl_append, ← h.next]
    exact (Nat.max_eq_right hnext).symm

/-- No run of a builder belongs to a particle behind the last one. -/
theorem Collected.last (h : Collected m additions b) (hnext : b.next ≤ particle + 1) :
    ∀ r ∈ b.runs.toList, r.particle ≤ particle := fun r hr => by
  have := h.counted r hr
  omega

/-- **A call** that is answered is accounted for. -/
theorem Collected.call {c : Call} {addition : Option Addition} (h : Collected m additions b)
    (hcall : b.call c = .ok (addition, b')) : Collected m (additions ++ addition.toList) b' := by
  cases c with
  | particle vertices =>
    simp only [GeometryBuilder.call, Outcome.bind_eq_ok, Outcome.pure_eq_ok, Prod.exists,
      Prod.mk.injEq] at hcall
    obtain ⟨_, _, hadded, rfl, rfl⟩ := hcall
    obtain ⟨needed, rfl, hfits, rfl⟩ := addParticle_eq_ok hadded
    have hlast := h.last (Nat.le_succ b.next)
    have hopen : b.Adds b.next 0 (if needed ≤ b.capacity then b else b.split) := by
      split
      · exact .refl h.packed hlast
      · exact adds_split h.packed hlast
    have hall := hopen.trans (adds_pushRuns hopen.packed hopen.last vertices)
    rw [Nat.zero_add] at hall
    exact h.adds hall (Nat.le_succ _) hfits
  | run particle vertices =>
    simp only [GeometryBuilder.call, Outcome.bind_eq_ok, Outcome.pure_eq_ok,
      Prod.mk.injEq] at hcall
    obtain ⟨_, hadded, rfl, rfl⟩ := hcall
    obtain ⟨hnext, hroom, hfits, rfl⟩ := addRun_eq_ok hadded
    exact h.adds (adds_pushRun h.packed (h.last hnext) hroom) hnext hfits
  | split =>
    simp only [GeometryBuilder.call, Except.ok.injEq, Prod.mk.injEq] at hcall
    obtain ⟨rfl, rfl⟩ := hcall
    have hsplit := adds_split h.packed (h.last (Nat.le_succ b.next))
    rw [Option.toList_none, List.append_nil]
    have hruns : b.split.runs = b.runs := by
      unfold split
      split <;> rfl
    refine ⟨hsplit.packed, hsplit.capacity.trans h.capacity, ?_, ?_, hsplit.total.trans h.total,
      hsplit.next.trans h.next, ?_⟩
    · rw [hsplit.next, hruns]
      exact h.counted
    · rw [hruns]
      exact h.requested
    · rw [hsplit.next]
      exact h.fits

/-! ### The geometry in the end -/

/-- A run lies in a partition that is kept. -/
theorem Packed.lt_length_sizes (h : b.Packed) :
    ∀ r ∈ b.runs.toList, r.partition < b.sizes.length := by
  intro r hr
  have hplaced := h.placed r hr
  unfold sizes
  split
  · rename_i hempty
    rw [Array.length_toList]
    -- the current partition is left out, but a run in it would not be empty
    by_contra hlt
    have hat : r.partition = b.closed.size := by omega
    have htiled := h.tiled r.partition b.current (by rw [parts, hat]; simp)
    rw [hempty.1] at htiled
    have hnone := htiled.eq_nil fun r hr => h.nonempty r (List.mem_filter.mp hr).1
    exact List.filter_eq_nil_iff.mp hnone r hr (by simp)
  · rw [List.length_append, List.length_singleton, Array.length_toList]
    omega

/-- A partition that is kept is one of those so far. -/
theorem getElem?_parts {i size : Nat} (h : b.sizes[i]? = some size) :
    b.parts[i]? = some size := by
  unfold sizes at h
  split at h
  · rw [parts, List.getElem?_append_left (List.getElem?_eq_some_iff.mp h).1]
    exact h
  · exact h

/-- A partition that is kept has vertices, unless there are none at all. -/
theorem Packed.filled (h : b.Packed) :
    if b.parts.sum = 0 then b.sizes = [0] else ∀ size ∈ b.sizes, 0 < size := by
  by_cases hclosed : 0 < b.closed.size
  · have hmem : b.closed[0] ∈ b.closed.toList :=
      Array.mem_toList_iff.mpr (Array.getElem_mem hclosed)
    have hpos := h.closed _ hmem
    have hsum : b.parts.sum ≠ 0 := by
      intro hzero
      have hall := List.sum_eq_zero_iff_forall_eq_nat.mp hzero _ (List.mem_append_left _ hmem)
      omega
    rw [if_neg hsum]
    unfold sizes
    split
    · exact h.closed
    · rename_i hkept
      refine List.forall_mem_append.mpr ⟨h.closed, ?_⟩
      rw [List.forall_mem_singleton]
      omega
  · have hnil : b.closed.toList = [] := by
      rw [← List.length_eq_zero_iff, Array.length_toList]
      omega
    have hparts : b.parts = [b.current] := by rw [parts, hnil, List.nil_append]
    have hsizes : b.sizes = [b.current] := by
      rw [sizes, if_neg fun hempty => hclosed hempty.2, hnil, List.nil_append]
    rw [hparts, hsizes, List.sum_singleton]
    split
    · rename_i hzero
      rw [hzero]
    · rename_i hzero
      rw [List.forall_mem_singleton]
      exact Nat.pos_of_ne_zero hzero

/-- What a geometry is that was built from additions, with partitions of at most `m`
vertices. -/
structure Builds (m : Nat) (additions : List Addition) (g : ParticleGeometry) : Prop where
  /-- No partition is too large. -/
  bounded : ∀ part ∈ g.partitions, part.vertices ≤ max m 1
  /-- None is empty, but without any vertices there is one empty partition. -/
  filled : if (additions.map (·.vertices)).sum = 0 then g.partitions.map (·.vertices) = [0]
    else ∀ part ∈ g.partitions, 0 < part.vertices
  /-- No run is empty. -/
  nonempty : ∀ r ∈ g.runs, 0 < r.count
  /-- The runs come in the order of the particles and of the partitions. -/
  ascending : g.runs.Pairwise fun r r' => r.particle ≤ r'.particle ∧ r.partition ≤ r'.partition
  /-- They lie in partitions that exist. -/
  placed : ∀ r ∈ g.runs, r.partition < g.partitions.length
  /-- The runs of a partition fill it from the first vertex to the last. -/
  tiled : ∀ (i : Nat) part, g.partitions[i]? = some part →
    Run.Tile 0 (g.runs.filter (·.partition = i)) part.vertices
  /-- A particle has the vertices that were added to it. -/
  requested : ∀ p, countIn g.runs p = ((additions.filter (·.particle = p)).map (·.vertices)).sum
  /-- There are as many particles as it takes for the largest one. -/
  particles : g.particles = (additions.map (·.particle + 1)).foldl max 0

/-- The runs of a builder pass the checks of a geometry. -/
theorem Collected.checkedCount (h : Collected m additions b) (hm : m < Size.bound) :
    ParticleGeometry.checkedCount b.sizes b.runs.toList b.next = .ok b.next := by
  have hpacked := h.packed
  have hbound : max m 1 < Size.bound := by
    have hone : 1 < Size.bound := by decide
    omega
  have hchecked : ParticleGeometry.checkRuns b.sizes.toArray 0
      (Array.replicate b.sizes.length 0) b.runs.toList = .ok () := by
    refine ParticleGeometry.checkRuns_of_tile (fun _ _ => Nat.zero_le _)
      (hpacked.ascending.imp fun hle => hle.1) (fun r hr => ?_) ?_ fun i size used hi hused => ?_
    · rw [List.size_toArray]
      exact hpacked.lt_length_sizes r hr
    · rw [Array.size_replicate, List.size_toArray]
    · rw [List.getElem?_toArray] at hi
      rw [Array.getElem?_replicate] at hused
      split at hused
      · cases hused
        have hpart := getElem?_parts hi
        exact ⟨Nat.lt_of_le_of_lt (hpacked.bounded_max h.capacity hpart) hbound,
          hpacked.tiled i size hpart⟩
      · cases hused
  exact Outcome.bind_eq_ok.mpr
    ⟨(), hchecked, ParticleGeometry.particlesOf_of_counted h.counted h.fits⟩

/-- What collected geometry is once it is accepted. -/
theorem Collected.builds (h : Collected m additions b) (id : GeometryId) (first : PartitionId) :
    Builds m additions
      ⟨id, partitionsFrom first b.sizes, b.runs.toList, b.next⟩ := by
  have hpacked := h.packed
  have hvertices := map_vertices_partitionsFrom first b.sizes
  have hsize : ∀ (i : Nat) part, (partitionsFrom first b.sizes)[i]? = some part →
      b.sizes[i]? = some part.vertices := by
    intro i part hpart
    rw [← hvertices, List.getElem?_map, hpart]
    rfl
  refine ⟨fun part hpart => ?_, ?_, hpacked.nonempty, hpacked.ascending, ?_,
    fun i part hpart => hpacked.tiled i _ (getElem?_parts (hsize i part hpart)), h.requested, h.next⟩
  · obtain ⟨i, hi⟩ := List.mem_iff_getElem?.mp hpart
    exact hpacked.bounded_max h.capacity (getElem?_parts (hsize i part hi))
  · have hfilled := hpacked.filled
    rw [h.total] at hfilled
    split at hfilled
    · rw [if_pos ‹_›, hvertices, hfilled]
    · rw [if_neg ‹_›]
      intro part hpart
      refine hfilled _ ?_
      rw [← hvertices]
      exact List.mem_map_of_mem hpart
  · show ∀ r ∈ b.runs.toList, r.partition < (partitionsFrom first b.sizes).length
    rw [length_partitionsFrom]
    exact hpacked.lt_length_sizes

/-- **Collected geometry is accepted** as long as there are identities for it. -/
theorem Collected.build (h : Collected m additions b) (hm : m < Size.bound) (ids : IdSupply) :
    ((∃ g ids', Leads b.build ids g ids') ↔ ids.HasGeometry b.sizes.length) ∧
      ∀ g ids', Leads b.build ids g ids' → Builds m additions g := by
  have hchecked := h.checkedCount hm
  refine ⟨⟨fun ⟨g, ids', hg⟩ => (ParticleGeometry.leads_ofParts.mp hg).1, fun hleft => ?_⟩,
    fun g ids' hg => ?_⟩
  · exact ⟨_, _, ParticleGeometry.leads_ofParts.mpr ⟨hleft, b.next, hchecked, rfl, rfl⟩⟩
  · obtain ⟨-, count, hcount, rfl, -⟩ := ParticleGeometry.leads_ofParts.mp hg
    obtain rfl : b.next = count := Except.ok.inj (hchecked.symm.trans hcount)
    exact h.builds ids.geometry ids.partition

/-! ### All calls -/

/-- Does what it is told, call by call. A call that ends in a fault leaves the builder as it
is. -/
def callAll (b : GeometryBuilder) :
    List Call → List (Except Fault (Option Addition)) × GeometryBuilder
  | [] => ([], b)
  | c :: cs =>
    match b.call c with
    | .ok (addition, told) =>
      let (answers, last) := told.callAll cs
      (.ok addition :: answers, last)
    | .error fault =>
      let (answers, last) := b.callAll cs
      (.error fault :: answers, last)

theorem callAll_of_ok {c : Call} {addition : Option Addition} (h : b.call c = .ok (addition, b'))
    (cs : List Call) :
    b.callAll (c :: cs) = (.ok addition :: (b'.callAll cs).1, (b'.callAll cs).2) := by
  rw [callAll, h]

theorem callAll_of_error {c : Call} (h : b.call c = .error fault) (cs : List Call) :
    b.callAll (c :: cs) = (.error fault :: (b.callAll cs).1, (b.callAll cs).2) := by
  rw [callAll, h]

/-- What was taken, by the answers to the calls. -/
def additionsOf (answers : List (Except Fault (Option Addition))) : List Addition :=
  answers.filterMap fun answer => answer.toOption.join

/-- **All calls** are accounted for. -/
theorem Collected.callAll (h : Collected m additions b) (cs : List Call) :
    Collected m (additions ++ additionsOf (b.callAll cs).1) (b.callAll cs).2 := by
  induction cs generalizing b additions with
  | nil => rwa [GeometryBuilder.callAll, additionsOf, List.filterMap_nil, List.append_nil]
  | cons c cs ih =>
    cases hcall : b.call c with
    | error fault =>
      rw [callAll_of_error hcall]
      exact ih h
    | ok told =>
      obtain ⟨addition, told⟩ := told
      rw [callAll_of_ok hcall]
      have hrest := ih (h.call hcall)
      cases addition with
      | none => rwa [Option.toList_none, List.append_nil] at hrest
      | some addition => rwa [Option.toList_some, List.append_assoc] at hrest

theorem callAll_append (b : GeometryBuilder) (before after : List Call) :
    b.callAll (before ++ after) =
      ((b.callAll before).1 ++ ((b.callAll before).2.callAll after).1,
        ((b.callAll before).2.callAll after).2) := by
  induction before generalizing b with
  | nil => rfl
  | cons c before ih =>
    rw [List.cons_append]
    cases hcall : b.call c with
    | error fault =>
      rw [callAll_of_error hcall, callAll_of_error hcall, ih]
      rfl
    | ok told =>
      rw [callAll_of_ok hcall, callAll_of_ok hcall, ih]
      rfl

/-- A call that ends in a fault may be left out. -/
theorem callAll_leave_out {c : Call} {before : List Call} (b : GeometryBuilder)
    (h : (b.callAll before).2.call c = .error fault) (after : List Call) :
    additionsOf (b.callAll (before ++ c :: after)).1 =
        additionsOf (b.callAll (before ++ after)).1 ∧
      (b.callAll (before ++ c :: after)).2 = (b.callAll (before ++ after)).2 := by
  rw [callAll_append, callAll_append, callAll_of_error h]
  refine ⟨?_, rfl⟩
  simp only [additionsOf, List.filterMap_append]
  rfl

/-- No more is taken than was asked for. -/
theorem sum_additionsOf_le (b : GeometryBuilder) (cs : List Call) :
    ((additionsOf (b.callAll cs).1).map (·.vertices)).sum ≤ (cs.map (·.vertices)).sum := by
  induction cs generalizing b with
  | nil => exact Nat.le_refl 0
  | cons c cs ih =>
    rw [List.map_cons, List.sum_cons]
    cases hcall : b.call c with
    | error fault =>
      rw [callAll_of_error hcall]
      exact Nat.le_trans (ih b) (Nat.le_add_left ..)
    | ok told =>
      obtain ⟨addition, told⟩ := told
      rw [callAll_of_ok hcall]
      have hrest := ih told
      cases c with
      | particle vertices =>
        simp only [call, Outcome.bind_eq_ok, Outcome.pure_eq_ok, Prod.mk.injEq] at hcall
        obtain ⟨⟨_, index⟩, -, rfl, -⟩ := hcall
        exact Nat.add_le_add_left hrest vertices
      | run particle vertices =>
        simp only [call, Outcome.bind_eq_ok, Outcome.pure_eq_ok, Prod.mk.injEq] at hcall
        obtain ⟨_, -, rfl, -⟩ := hcall
        exact Nat.add_le_add_left hrest vertices
      | split =>
        simp only [call, Except.ok.injEq, Prod.mk.injEq] at hcall
        obtain ⟨rfl, -⟩ := hcall
        exact Nat.le_trans hrest (Nat.le_add_left ..)

/-- What is in the current partition was asked for. -/
theorem Collected.current_le (h : Collected m additions b) :
    b.current ≤ (additions.map (·.vertices)).sum := by
  rw [← h.total, parts, List.sum_append, List.sum_singleton]
  exact Nat.le_add_left ..

/-- **Geometry from calls**, of any kind and in any order, whose vertices are together a word:
it is built as long as there are identities for it and its partitions, and it is what was taken
and nothing else. A call is rejected if its particle is too early or
its vertices too many for the current partition, it overflows if the index behind its particle
is no word, and in either case it might as well not have been made. -/
theorem calls_spec (m : Nat) (hm : m < Size.bound) (calls : List Call)
    (htotal : (calls.map (·.vertices)).sum < Size.bound) :
    let (answers, b) := (ofCapacity m).callAll calls
    (∀ ids, ((∃ g ids', Leads b.build ids g ids') ↔ ids.HasGeometry b.sizes.length) ∧
        ∀ g ids', Leads b.build ids g ids' → Builds m (additionsOf answers) g) ∧
      ∀ before c after, calls = before ++ c :: after →
        let told := ((ofCapacity m).callAll before).2
        ∀ fault,
          (told.call c = .error fault ↔
            (∃ cause, fault = .geometryMismatch cause ∧ told.Rejects c cause) ∨
              fault = .sizeOverflow ∧ told.Overflows c) ∧
          (told.call c = .error fault →
            additionsOf answers = additionsOf ((ofCapacity m).callAll (before ++ after)).1 ∧
              b = ((ofCapacity m).callAll (before ++ after)).2) := by
  have hcollected := (collected_ofCapacity m).callAll calls
  rw [List.nil_append] at hcollected
  refine ⟨hcollected.build hm, ?_⟩
  rintro before c after rfl - fault
  have hbefore := ((collected_ofCapacity m).callAll before).current_le
  have hle := sum_additionsOf_le (ofCapacity m) before
  rw [List.nil_append] at hbefore
  rw [List.map_append, List.sum_append, List.map_cons, List.sum_cons] at htotal
  have hroom : ((ofCapacity m).callAll before).2.current + c.vertices < Size.bound := by omega
  exact ⟨call_eq_error hroom, fun herror => callAll_leave_out _ herror after⟩

/-- A particle of two vertices, one that fits in no partition, one too early, one without
vertices behind a gap, one too large, and another one without vertices. -/
def mixedCalls : List Call :=
  [.particle 2, .particle 10, .run 0 1, .split, .run 3 0, .run 3 5, .particle 0]

theorem mixedCalls_build : ∃ g ids',
    Leads ((ofCapacity 4).callAll mixedCalls).2.build {} g ids' ∧
      Builds 4 [⟨0, 2⟩, ⟨1, 10⟩, ⟨3, 0⟩, ⟨4, 0⟩] g := by
  have hm : 4 < Size.bound := by decide
  have htotal : (mixedCalls.map (·.vertices)).sum < Size.bound := by decide
  have hadditions : additionsOf ((ofCapacity 4).callAll mixedCalls).1 =
      [⟨0, 2⟩, ⟨1, 10⟩, ⟨3, 0⟩, ⟨4, 0⟩] := by decide +kernel
  have hleft : IdSupply.HasGeometry {} ((ofCapacity 4).callAll mixedCalls).2.sizes.length :=
    ⟨by decide +kernel, by decide⟩
  have hbuilds : ∀ ids, _ ∧ ∀ g ids', Leads ((ofCapacity 4).callAll mixedCalls).2.build ids g ids' →
      Builds 4 (additionsOf ((ofCapacity 4).callAll mixedCalls).1) g :=
    (calls_spec 4 hm mixedCalls htotal).1
  obtain ⟨g, ids', hg⟩ := (hbuilds {}).1.mpr hleft
  rw [hadditions] at hbuilds
  exact ⟨g, ids', hg, (hbuilds {}).2 g ids' hg⟩

/-- Nothing is wrong with a run of the last particle that has an index, and yet it is not
taken: the particle behind it has none. -/
theorem last_particle_overflows :
    ([Call.run (Size.bound - 1) 1].map (·.vertices)).sum < Size.bound ∧
      (∀ cause, ¬ (ofCapacity 1).Rejects (.run (Size.bound - 1) 1) cause) ∧
      ((ofCapacity 1).callAll [.run (Size.bound - 1) 1]).1 = [.error .sizeOverflow] := by
  refine ⟨by decide, ?_, by decide +kernel⟩
  rintro cause (⟨hlate, -⟩ | ⟨-, hlarge, -⟩)
  · exact absurd hlate (by decide)
  · exact absurd hlarge (by decide)

end GeometryBuilder

end ParticleShader
