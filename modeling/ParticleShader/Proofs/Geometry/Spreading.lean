import Mathlib.Algebra.Order.Floor.Div
import ParticleShader.Proofs.Geometry.Building

/-!
# Particles that are spread over partitions

What adding a particle does to a builder that was told anything before: **`particle_spec`**. A
particle that fits in the room that is left goes there; any other one begins a new partition, and
as many as it takes to hold it. Nothing that was collected before is changed.

The vertices are put down in a loop, one turn after the other (`turn`). A turn that finds the
current partition full puts none down and begins a new one, so the vertices that are left are no
measure of the loop: it is the turn behind that one that gets on. From a new partition on the turns
of both kinds alternate (`ends_pushRuns`), which says how many there are.
-/

namespace ParticleShader.GeometryBuilder

variable {b b' : GeometryBuilder} {particle n first capacity turns : Nat}

/-! ### Runs that fill partitions -/

/-- The runs of a particle that fills partitions from the first vertex on. -/
def spread (particle first capacity n : Nat) : List Run :=
  (List.range (n ⌈/⌉ capacity)).map fun i =>
    { particle, partition := first + i, first := 0, count := min capacity (n - i * capacity) }

theorem ceilDiv_eq_one (hpos : 0 < n) (hle : n ≤ capacity) : n ⌈/⌉ capacity = 1 := by
  rw [Nat.ceilDiv_eq_add_pred_div]
  exact Nat.div_eq_of_lt_le (by omega) (by omega)

theorem ceilDiv_of_lt (hcapacity : 0 < capacity) (hlt : capacity < n) :
    n ⌈/⌉ capacity = (n - capacity) ⌈/⌉ capacity + 1 := by
  rw [Nat.ceilDiv_eq_add_pred_div, Nat.ceilDiv_eq_add_pred_div, ← Nat.add_div_right _ hcapacity]
  congr 1
  omega

theorem ceilDiv_pos (hcapacity : 0 < capacity) (hpos : 0 < n) : 0 < n ⌈/⌉ capacity := by
  rw [Nat.ceilDiv_eq_add_pred_div]
  exact Nat.div_pos (by omega) hcapacity

theorem spread_of_le (hpos : 0 < n) (hle : n ≤ capacity) :
    spread particle first capacity n = [⟨particle, first, 0, n⟩] := by
  simp [spread, ceilDiv_eq_one hpos hle, hle]

/-- A particle that is larger than a partition fills one and leaves the others to the rest. -/
theorem spread_of_lt (hcapacity : 0 < capacity) (hlt : capacity < n) :
    spread particle first capacity n =
      ⟨particle, first, 0, capacity⟩ :: spread particle (first + 1) capacity (n - capacity) := by
  unfold spread
  rw [ceilDiv_of_lt hcapacity hlt, List.range_succ_eq_map, List.map_cons, List.map_map]
  congr 1
  · simp [Nat.le_of_lt hlt]
  · refine List.map_congr_left fun i _ => ?_
    have hrest : n - (i + 1) * capacity = n - capacity - i * capacity := by
      rw [Nat.succ_mul]
      omega
    simp [hrest, Nat.add_comm, Nat.add_left_comm]

@[simp] theorem length_spread :
    (spread particle first capacity n).length = n ⌈/⌉ capacity := by
  simp [spread]

/-- All partitions but the last one are full. -/
theorem count_of_spread (hcapacity : 0 < capacity) {i : Nat} {run : Run}
    (hrun : (spread particle first capacity n)[i]? = some run) (hi : i + 1 < n ⌈/⌉ capacity) :
    run.count = capacity := by
  have hfull : (i + 1) * capacity < n := by
    by_contra hnot
    have hle : n ⌈/⌉ capacity ≤ i + 1 := by
      rw [ceilDiv_le_iff_le_mul hcapacity, Nat.mul_comm]
      exact Nat.le_of_not_lt hnot
    omega
  have hlt : i < n ⌈/⌉ capacity := by omega
  simp only [spread, List.getElem?_map, List.getElem?_range hlt, Option.map_some,
    Option.some.injEq] at hrun
  subst hrun
  rw [Nat.succ_mul] at hfull
  exact Nat.min_eq_left (by omega)

/-! ### The loop -/

/-- One turn: a new partition if the current one is full, and else as many vertices as there is
room for. -/
def turn (b : GeometryBuilder) (particle left : Nat) : GeometryBuilder × Nat :=
  let room := b.capacity - b.current
  if room = 0 then (b.split, left)
  else (b.pushRun particle (min left room), left - min left room)

/-- The loop ends after some turns: it goes on while vertices are left. -/
inductive Ends (particle : Nat) : GeometryBuilder → Nat → Nat → GeometryBuilder → Prop where
  /-- Nothing is left. -/
  | done (b : GeometryBuilder) : Ends particle b 0 0 b
  /-- Something is left, and a turn is made. -/
  | turn {b b' : GeometryBuilder} {left turns : Nat} : 0 < left →
    Ends particle (b.turn particle left).1 (b.turn particle left).2 turns b' →
    Ends particle b left (turns + 1) b'

theorem turn_of_lt {left : Nat} (h : b.current < b.capacity) :
    b.turn particle left = (b.pushRun particle (min left (b.capacity - b.current)),
      left - min left (b.capacity - b.current)) := by
  unfold turn
  rw [if_neg (by omega)]

theorem turn_of_full {left : Nat} (h : b.current = b.capacity) :
    b.turn particle left = (b.split, left) := by
  unfold turn
  rw [if_pos (by omega)]

/-- The builder that a particle is put into: one that does not fit in what is left of the current
partition begins a new one. -/
def opened (b : GeometryBuilder) (n : Nat) : GeometryBuilder :=
  if 0 < b.current ∧ b.capacity < b.current + n then b.split else b

theorem split_of_pos (h : 0 < b.current) :
    b.split = { b with closed := b.closed.push b.current, current := 0 } := by
  unfold split
  rw [if_pos h]

theorem split_of_empty (h : b.current = 0) : b.split = b := by
  unfold split
  rw [if_neg (by omega)]

@[simp] theorem split_capacity : b.split.capacity = b.capacity := by
  unfold split
  split <;> rfl

@[simp] theorem split_current : b.split.current = 0 := by
  unfold split
  split
  · rfl
  · omega

@[simp] theorem pushRun_capacity : (b.pushRun particle n).capacity = b.capacity := by
  unfold pushRun
  split <;> rfl

theorem pushRun_of_pos (h : 0 < n) : b.pushRun particle n =
    { b with runs := b.runs.push ⟨particle, b.closed.size, b.current, n⟩
             current := b.current + n } := by
  unfold pushRun
  rw [if_neg (by omega)]

/-- Vertices for which there is room are one run. -/
theorem pushRuns_of_le (h : b.current + n ≤ b.capacity) :
    b.pushRuns particle n = b.pushRun particle n := by
  cases n with
  | zero =>
    rw [pushRuns]
    rfl
  | succ left =>
    have hroom : b.withRoom = b := by
      unfold withRoom
      rw [if_pos (by omega)]
    have hall : min (left + 1) (b.capacity - b.current) = left + 1 := by omega
    rw [pushRuns, hroom, hall, Nat.sub_self, pushRuns]

/-- In front of a full partition a new one is begun. -/
theorem pushRuns_of_full (hfull : b.current = b.capacity) (hpos : 0 < n) :
    b.pushRuns particle n = b.split.pushRuns particle n := by
  obtain ⟨left, rfl⟩ : ∃ left, n = left + 1 := ⟨n - 1, by omega⟩
  have hcapacity := b.capacity_pos
  have hroom : b.withRoom = b.split := by
    unfold withRoom
    rw [if_neg (by omega)]
  have hroom' : b.split.withRoom = b.split := by
    unfold withRoom
    rw [if_pos (by simpa using hcapacity)]
  rw [pushRuns, pushRuns, hroom, hroom']

/-- A particle that is larger than a partition fills the empty one first. -/
theorem pushRuns_of_lt (hempty : b.current = 0) (hlt : b.capacity < n) :
    b.pushRuns particle n =
      (b.pushRun particle b.capacity).split.pushRuns particle (n - b.capacity) := by
  obtain ⟨left, rfl⟩ : ∃ left, n = left + 1 := ⟨n - 1, by omega⟩
  have hcapacity := b.capacity_pos
  have hroom : b.withRoom = b := by
    unfold withRoom
    rw [if_pos (by omega)]
  have hpart : min (left + 1) (b.capacity - b.current) = b.capacity := by omega
  rw [pushRuns, hroom, hpart]
  refine pushRuns_of_full ?_ (by omega)
  rw [pushRun_capacity, pushRun_of_pos hcapacity, hempty]
  exact Nat.zero_add _

/-- What a builder is when some runs were put into new partitions, the first of which it was
about to fill. -/
structure Fills (b : GeometryBuilder) (added : List Run) (b' : GeometryBuilder) : Prop where
  /-- The partitions may become as large as before. -/
  capacity : b'.capacity = b.capacity
  /-- The particle that comes next is the same. -/
  next : b'.next = b.next
  /-- The runs stand behind the others. -/
  runs : b'.runs.toList = b.runs.toList ++ added
  /-- Every run is a partition. -/
  parts : b'.parts = b.closed.toList ++ added.map (·.count)

/-- **The loop from an empty partition on**: it takes one turn for each run and one for each new
partition between them. The induction is on the vertices that are left, a partition less each
time. -/
theorem ends_pushRuns (particle : Nat) (hempty : b.current = 0) (hpos : 0 < n) :
    Ends particle b n (2 * (n ⌈/⌉ b.capacity) - 1) (b.pushRuns particle n) ∧
      b.Fills (spread particle b.closed.size b.capacity n) (b.pushRuns particle n) := by
  induction n using Nat.strongRecOn generalizing b with
  | ind n ih =>
    have hcapacity := b.capacity_pos
    by_cases hle : n ≤ b.capacity
    · -- the last run
      have hone : n ⌈/⌉ b.capacity = 1 := ceilDiv_eq_one hpos hle
      have hall : min n (b.capacity - b.current) = n := by omega
      rw [hone, pushRuns_of_le (by omega), spread_of_le hpos hle]
      refine ⟨.turn hpos ?_, ?_⟩
      · rw [turn_of_lt (by omega), hall, Nat.sub_self]
        exact .done _
      · rw [pushRun_of_pos hpos]
        exact ⟨rfl, rfl, by simp [hempty], by simp [parts, hempty]⟩
    · -- a full partition, and the rest from the next one on
      have hlt := Nat.lt_of_not_le hle
      obtain ⟨hends, hfills⟩ := ih (n - b.capacity) (by omega)
        (b := (b.pushRun particle b.capacity).split) split_current (by omega)
      rw [split_capacity, pushRun_capacity] at hends hfills
      have hfull : (b.pushRun particle b.capacity).current =
          (b.pushRun particle b.capacity).capacity := by
        rw [pushRun_of_pos hcapacity, hempty]
        exact Nat.zero_add _
      have hpart : min n (b.capacity - b.current) = b.capacity := by omega
      have hrest : 0 < (n - b.capacity) ⌈/⌉ b.capacity := ceilDiv_pos hcapacity (by omega)
      have hturns : 2 * (n ⌈/⌉ b.capacity) - 1 =
          2 * ((n - b.capacity) ⌈/⌉ b.capacity) - 1 + 1 + 1 := by
        rw [ceilDiv_of_lt hcapacity hlt]
        omega
      rw [pushRuns_of_lt hempty hlt, spread_of_lt hcapacity hlt, hturns]
      refine ⟨.turn hpos ?_, ?_⟩
      · rw [turn_of_lt (by omega), hpart]
        refine .turn (Nat.sub_pos_of_lt hlt) ?_
        rw [turn_of_full hfull]
        exact hends
      · rw [split_of_pos (by rw [hfull]; simpa using hcapacity), pushRun_of_pos hcapacity,
          hempty] at hfills ⊢
        obtain ⟨hcap, hnext, hruns, hparts⟩ := hfills
        exact ⟨hcap, hnext, by simpa using hruns, by simpa using hparts⟩

/-! ### A particle -/

/-- The partitions so far, without the current one if it is empty. -/
def filled (b : GeometryBuilder) : List Nat :=
  if b.current = 0 then b.closed.toList else b.parts

/-- What becomes of a builder when a particle of `n` vertices is added as some runs. -/
structure Takes (b : GeometryBuilder) (n : Nat) (b' : GeometryBuilder) (added : List Run) :
    Prop where
  /-- The particle is counted. -/
  next : b'.next = b.next + 1
  /-- The partitions may become as large as before. -/
  capacity : b'.capacity = b.capacity
  /-- The runs stand behind the others, which are as before. -/
  runs : b'.runs.toList = b.runs.toList ++ added
  /-- The partitions before the current one are as before. -/
  earlier : b.closed.toList <+: b'.parts
  /-- Without vertices nothing is added. -/
  empty : n = 0 → added = [] ∧ b'.parts = b.parts
  /-- What fits in the room that is left goes there. -/
  fits : 0 < n → n ≤ b.capacity - b.current →
    added = [⟨b.next, b.closed.size, b.current, n⟩] ∧
      b'.parts = b.closed.toList ++ [b.current + n]
  /-- What fits only in an empty partition begins a new one. -/
  moves : b.capacity - b.current < n → n ≤ b.capacity →
    added = [⟨b.next, b.closed.size + 1, 0, n⟩] ∧ b'.parts = b.parts ++ [n]
  /-- What fits in none has consecutive partitions of its own, of which all but the last one are
  full. -/
  spreads : b.capacity < n →
    added = spread b.next b.filled.length b.capacity n ∧
      b'.parts = b.filled ++ added.map (·.count) ∧ added.length = n ⌈/⌉ b.capacity ∧
      ∀ i run, added[i]? = some run → i + 1 < added.length → run.count = b.capacity
  /-- The loop ends with the runs, after a turn for each of them and each new partition between
  them. -/
  ends : Ends b.next (b.opened n) n (2 * added.length - 1) { b' with next := b.next }

theorem with_next {next : Nat} (h : b.next = next) : { b with next } = b := by
  subst h
  rfl

theorem toList_closed_split : b.split.closed.toList = b.filled := by
  unfold filled
  split
  · rw [split_of_empty ‹_›]
  · rw [split_of_pos (by omega)]
    simp [parts]

theorem addParticle_eq (hroom : b.current + n < Size.bound) (hnext : b.next + 1 < Size.bound) :
    b.addParticle n =
      .ok ({ (b.opened n).pushRuns b.next n with next := b.next + 1 }, b.next) := by
  have hcapacity := b.capacity_pos
  unfold addParticle opened
  simp only [Size.add_eq_ok.mpr ⟨hroom, rfl⟩, Size.add_eq_ok.mpr ⟨hnext, rfl⟩]
  by_cases hempty : b.current = 0
  · simp [hempty, bind, Except.bind, pure, Except.pure]
  · have hpos : 0 < b.current := by omega
    by_cases hfit : b.current + n ≤ b.capacity
    · simp [hempty, hfit, Nat.not_lt.mpr hfit, bind, Except.bind, pure, Except.pure]
    · simp [hempty, hpos, hfit, Nat.lt_of_not_le hfit, bind, Except.bind, pure, Except.pure]

/-- A particle that fits in the room that is left. -/
theorem takes_of_le (h : b.current + n ≤ b.capacity) : ∃ added,
    b.Takes n { (b.opened n).pushRuns b.next n with next := b.next + 1 } added := by
  have hopened : b.opened n = b := by
    unfold opened
    rw [if_neg (by omega)]
  have hcapacity := b.capacity_pos
  rw [hopened, pushRuns_of_le h]
  rcases Nat.eq_zero_or_pos n with rfl | hpos
  · refine ⟨[], rfl, rfl, by simp [pushRun], List.prefix_append .., fun _ => ⟨rfl, rfl⟩,
      fun hpos => absurd hpos (by omega), fun hlt => absurd hlt (by omega),
      fun hlt => absurd hlt (by omega), ?_⟩
    rw [hopened]
    exact .done b
  · have hall : min n (b.capacity - b.current) = n := by omega
    refine ⟨[⟨b.next, b.closed.size, b.current, n⟩], rfl, pushRun_capacity, ?_, ?_,
      fun hzero => absurd hzero (by omega), fun _ _ => ⟨rfl, ?_⟩, fun hlt => absurd hlt (by omega),
      fun hlt => absurd hlt (by omega), ?_⟩
    · rw [pushRun_of_pos hpos]
      exact Array.toList_push
    · rw [pushRun_of_pos hpos]
      exact List.prefix_append ..
    · rw [pushRun_of_pos hpos]
      rfl
    · rw [hopened]
      refine .turn hpos ?_
      rw [turn_of_lt (by omega), hall, Nat.sub_self, pushRun_of_pos hpos]
      exact .done _

/-- A particle that does not. -/
theorem takes_of_lt (hcurrent : b.current ≤ b.capacity) (h : b.capacity < b.current + n) :
    ∃ added, b.Takes n { (b.opened n).pushRuns b.next n with next := b.next + 1 } added := by
  have hopened : b.opened n = b.split := by
    unfold opened
    split
    · rfl
    · rw [split_of_empty (by omega)]
  have hnext : b.split.next = b.next := by
    unfold split
    split <;> rfl
  have hruns : b.split.runs = b.runs := by
    unfold split
    split <;> rfl
  have hsize : b.split.closed.size = b.filled.length := by
    rw [← toList_closed_split, Array.length_toList]
  obtain ⟨hends, hfills⟩ := ends_pushRuns b.next (b := b.split) (n := n) split_current
    (by omega)
  rw [split_capacity, hsize] at hfills
  have hlength : (spread b.next b.filled.length b.capacity n).length = n ⌈/⌉ b.capacity :=
    length_spread
  rw [split_capacity, ← hlength] at hends
  obtain ⟨hcap, hsame, hadded, hparts⟩ := hfills
  rw [split_capacity] at hcap
  rw [hnext] at hsame
  rw [hruns] at hadded
  rw [toList_closed_split] at hparts
  have hprefix : b.closed.toList <+: b.filled := by
    unfold filled
    split
    · exact List.prefix_rfl
    · exact List.prefix_append ..
  refine ⟨spread b.next b.filled.length b.capacity n, rfl, ?_, ?_, ?_,
    fun hzero => absurd hzero (by omega), fun hpos hle => absurd hle (by omega),
    fun hlt hle => ?_, fun hlt => ⟨rfl, ?_, hlength, fun i run hrun hi => ?_⟩, ?_⟩
  · rw [hopened]
    exact hcap
  · rw [hopened]
    exact hadded
  · rw [hopened]
    refine hprefix.trans ?_
    show b.filled <+: (b.split.pushRuns b.next n).parts
    rw [hparts]
    exact List.prefix_append ..
  · have hpos : 0 < n := by omega
    have hfilled : b.filled = b.parts := by
      unfold filled
      rw [if_neg (by omega)]
    rw [spread_of_le hpos hle] at hparts ⊢
    rw [hopened, hfilled]
    exact ⟨by simp [parts], by rw [← hfilled]; exact hparts⟩
  · rw [hopened]
    exact hparts
  · rw [hlength] at hi
    exact count_of_spread b.capacity_pos hrun hi
  · rw [hopened]
    show Ends b.next b.split n _ { b.split.pushRuns b.next n with next := b.next }
    rw [with_next hsame]
    exact hends

/-- **A particle that is added** to a builder that was told anything before. It is taken, unless
the index behind its own one is no size, and then nothing else can go wrong either: the loop
ends. -/
theorem particle_spec (m : Nat) (calls : List Call) (n : Nat) :
    let b := ((ofCapacity m).callAll calls).2
    b.capacity = max m 1 ∧ (b.current + n < Size.bound →
      (∀ fault, b.addParticle n = .error fault ↔
        fault = .sizeOverflow ∧ Size.bound ≤ b.next + 1) ∧
      (b.next + 1 < Size.bound →
        ∃ b' added, b.addParticle n = .ok (b', b.next) ∧ b.Takes n b' added)) := by
  intro b
  have hcollected : Collected m _ b := (collected_ofCapacity m).callAll calls
  refine ⟨hcollected.capacity, fun hroom => ⟨fun fault => addParticle_eq_error hroom,
    fun hnext => ?_⟩⟩
  have hcurrent : b.current ≤ b.capacity :=
    hcollected.packed.bounded b.current (by simp [parts])
  have htakes : ∃ added,
      b.Takes n { (b.opened n).pushRuns b.next n with next := b.next + 1 } added := by
    rcases Nat.lt_or_ge b.capacity (b.current + n) with hlt | hle
    · exact takes_of_lt hcurrent hlt
    · exact takes_of_le hle
  obtain ⟨added, htakes⟩ := htakes
  exact ⟨_, added, addParticle_eq hroom hnext, htakes⟩

/-- Partitions of four vertices, the first of which holds three: ten more make three new ones, and
the loop takes five turns. -/
theorem ten_after_three :
    let b := ((ofCapacity 4).callAll [.particle 3]).2
    ∃ b' added, b.addParticle 10 = .ok (b', 1) ∧ b.Takes 10 b' added ∧
      added = [⟨1, 1, 0, 4⟩, ⟨1, 2, 0, 4⟩, ⟨1, 3, 0, 2⟩] ∧ b'.parts = [3, 4, 4, 2] ∧
      Ends 1 (b.opened 10) 10 5 { b' with next := 1 } := by
  intro b
  have hroom : b.current + 10 < Size.bound := by decide +kernel
  have hnext : b.next + 1 < Size.bound := by decide +kernel
  obtain ⟨b', added, heq, htakes⟩ := ((particle_spec 4 [.particle 3] 10).2 hroom).2 hnext
  obtain ⟨hadded, hparts, -, -⟩ := htakes.spreads (by decide +kernel)
  have hthree : added = [⟨1, 1, 0, 4⟩, ⟨1, 2, 0, 4⟩, ⟨1, 3, 0, 2⟩] := by
    rw [hadded]
    decide +kernel
  have hends := htakes.ends
  have hfilled : b.filled = [3] := by decide +kernel
  rw [hthree, hfilled] at hparts
  rw [hthree] at hends
  exact ⟨b', added, heq, htakes, hthree, hparts, hends⟩

/-- A particle of one vertex has room, and yet it is not taken: its index is the last one, and the
particle behind it has none. -/
theorem last_index_not_taken :
    let b := ((ofCapacity 1).callAll [.run (Size.bound - 2) 1]).2
    b.current + 1 < Size.bound ∧ b.addParticle 1 = .error .sizeOverflow := by
  intro b
  have hroom : b.current + 1 < Size.bound := by decide +kernel
  have hlast : Size.bound ≤ b.next + 1 := by decide +kernel
  exact ⟨hroom, (addParticle_eq_error hroom).mpr ⟨rfl, hlast⟩⟩

end ParticleShader.GeometryBuilder
