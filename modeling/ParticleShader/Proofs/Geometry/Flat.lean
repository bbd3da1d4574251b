import ParticleShader.Proofs.Geometry.Building

/-!
# Vertices one after the other

The runs of a built geometry come in the order of the particles, and in that of the partitions
as well. So the vertices of all partitions, one partition after the other, are those of the
first particle, then those of the second one, and so on, wherever the partitions end
(**`flatten_buffers`**); and where a run begins among them is how many vertices the runs before
it have (**`start_eq_vertices`**).

Both follow from one fact about lists that are sorted by a key: they are made up of their
groups, in the order of the keys.
-/

namespace ParticleShader

/-! ### Lists that are sorted by a key -/

section

variable {β : Type} {key : β → Nat} {l : List β}

theorem filter_key_lt_succ (h : l.Pairwise fun x y => key x ≤ key y) (q : Nat) :
    l.filter (key · < q + 1) = l.filter (key · < q) ++ l.filter (key · = q) := by
  induction l with
  | nil => rfl
  | cons x l ih =>
    obtain ⟨hfirst, hrest⟩ := List.pairwise_cons.mp h
    have hall := ih hrest
    rcases Nat.lt_trichotomy (key x) q with hlt | heq | hgt
    · have hlt' : key x < q + 1 := Nat.lt_succ_of_lt hlt
      have hne : key x ≠ q := Nat.ne_of_lt hlt
      simp only [List.filter_cons, hlt, hlt', hne, decide_true, decide_false, if_true, hall,
        List.cons_append, Bool.false_eq_true, if_false]
    · -- no element behind one with this key has a smaller one
      have hnone : l.filter (key · < q) = [] := by
        refine List.filter_eq_nil_iff.mpr fun y hy => ?_
        have := hfirst y hy
        rw [decide_eq_true_eq]
        omega
      rw [hnone, List.nil_append] at hall
      simp only [List.filter_cons, heq, Nat.lt_irrefl, Nat.lt_succ_self, decide_true,
        decide_false, if_true, hall, hnone, List.nil_append, Bool.false_eq_true, if_false]
    · have hlt : ¬ key x < q := Nat.not_lt.mpr (Nat.le_of_lt hgt)
      have hlt' : ¬ key x < q + 1 := Nat.not_lt.mpr hgt
      have hne : key x ≠ q := Nat.ne_of_gt hgt
      simp only [List.filter_cons, hlt, hlt', hne, decide_false, hall, Bool.false_eq_true,
        if_false]

theorem filter_key_lt (h : l.Pairwise fun x y => key x ≤ key y) (n : Nat) :
    l.filter (key · < n) = (List.range n).flatMap fun q => l.filter (key · = q) := by
  induction n with
  | zero => simp
  | succ n ih => rw [filter_key_lt_succ h, ih, List.range_succ, List.flatMap_append]; simp

/-- **A sorted list is made up of its groups.** -/
theorem flatMap_filter_key (h : l.Pairwise fun x y => key x ≤ key y) {n : Nat}
    (hlt : ∀ x ∈ l, key x < n) :
    ((List.range n).flatMap fun q => l.filter (key · = q)) = l := by
  rw [← filter_key_lt h]
  exact List.filter_eq_self.mpr fun x hx => decide_eq_true (hlt x hx)

/-- The elements with smaller keys than one of them stand before it. -/
theorem filter_key_lt_append {before after : List β} {x : β}
    (h : (before ++ x :: after).Pairwise fun x y => key x ≤ key y) :
    (before ++ x :: after).filter (key · < key x) = before.filter (key · < key x) := by
  obtain ⟨-, hbehind, -⟩ := List.pairwise_append.mp h
  have hnone : (x :: after).filter (key · < key x) = [] := by
    refine List.filter_eq_nil_iff.mpr (List.forall_mem_cons.mpr ⟨by simp, fun y hy => ?_⟩)
    simpa using (List.pairwise_cons.mp hbehind).1 y hy
  rw [List.filter_append, hnone, List.append_nil]

end

/-! ### Vertices of runs -/

/-- How many vertices runs have. -/
def Run.vertices (runs : List Run) : Nat := (runs.map (·.count)).sum

theorem Run.vertices_append (runs runs' : List Run) :
    Run.vertices (runs ++ runs') = Run.vertices runs + Run.vertices runs' := by
  simp [Run.vertices]

/-- The vertices of the runs with small keys, if it is known how many there are for each. -/
theorem Run.vertices_filter_key_lt {key : Run → Nat} {runs : List Run} {sizes : List Nat}
    (h : runs.Pairwise fun r r' => key r ≤ key r')
    (hsizes : ∀ (q : Nat) size, sizes[q]? = some size →
      Run.vertices (runs.filter (key · = q)) = size) {q : Nat} (hq : q ≤ sizes.length) :
    Run.vertices (runs.filter (key · < q)) = (sizes.take q).sum := by
  induction q with
  | zero => simp [Run.vertices]
  | succ q ih =>
    have hat := List.getElem?_eq_getElem hq
    rw [filter_key_lt_succ h, Run.vertices_append, ih (Nat.le_of_lt hq), hsizes q _ hat,
      List.take_add_one, hat, List.sum_append]
    simp

namespace Run.Tile

variable {start stop : Nat} {rs before after : List Run} {r : Run}

theorem add_vertices (h : Tile start rs stop) : start + Run.vertices rs = stop := by
  induction rs generalizing start with
  | nil => exact h
  | cons r rs ih => rw [← ih h.2, Run.vertices, Run.vertices, List.map_cons, List.sum_cons,
      Nat.add_assoc]

/-- A run begins where those before it end. -/
theorem first_eq (h : Tile start (before ++ r :: after) stop) :
    r.first = start + Run.vertices before := by
  induction before generalizing start with
  | nil => exact h.1
  | cons r' before ih => rw [ih h.2, Run.vertices, Run.vertices, List.map_cons, List.sum_cons,
      Nat.add_assoc]

theorem start_le (h : Tile start rs stop) (hr : r ∈ rs) : start ≤ r.first := by
  obtain ⟨before, after, rfl⟩ := List.append_of_mem hr
  exact h.first_eq ▸ Nat.le_add_right ..

theorem le_stop (h : Tile start rs stop) (hr : r ∈ rs) : r.first + r.count ≤ stop := by
  induction rs generalizing start with
  | nil => cases hr
  | cons r' rs ih =>
    rcases List.mem_cons.mp hr with rfl | hr
    · exact h.1 ▸ h.2.le
    · exact ih h.2 hr

/-- What is known of each run is known of all vertices. -/
theorem eq_flatMap {β : Type} (h : Tile start rs stop) (f : Run → β) {xs : List β}
    (hlength : start + xs.length = stop)
    (hat : ∀ r ∈ rs, ∀ v, r.first ≤ v → v < r.first + r.count → xs[v - start]? = some (f r)) :
    xs = rs.flatMap fun r => List.replicate r.count (f r) := by
  induction rs generalizing start xs with
  | nil =>
    have hzero : xs.length = 0 := Nat.add_left_cancel (hlength.trans h.symm)
    exact List.length_eq_zero_iff.mp hzero
  | cons r rs ih =>
    obtain ⟨hfirst, hrest⟩ := h
    have hfit := hrest.le
    have hfront : xs.take r.count = List.replicate r.count (f r) := by
      refine List.eq_replicate_iff.mpr ⟨by rw [List.length_take]; omega, fun x hx => ?_⟩
      obtain ⟨i, hi⟩ := List.mem_iff_getElem?.mp hx
      have hlt : i < r.count := by
        have := (List.getElem?_eq_some_iff.mp hi).1
        rw [List.length_take] at this
        omega
      have hvalue := hat r List.mem_cons_self (start + i) (by omega) (by omega)
      rw [Nat.add_sub_cancel_left] at hvalue
      rw [List.getElem?_take, if_pos hlt, hvalue, Option.some.injEq] at hi
      exact hi.symm
    have hback : xs.drop r.count = rs.flatMap fun r => List.replicate r.count (f r) := by
      refine ih hrest (by rw [List.length_drop]; omega) fun r' hr' v hv hv' => ?_
      have hstart := hrest.start_le hr'
      rw [List.getElem?_drop, ← hat r' (List.mem_cons_of_mem _ hr') v hv hv']
      congr 1
      omega
    rw [List.flatMap_cons, ← hfront, ← hback, List.take_append_drop]

end Run.Tile

namespace GeometryBuilder

variable {m n k : Nat} {additions : List Addition} {g : ParticleGeometry}

namespace Builds

/-- The vertices of the runs of a partition are those of the partition. -/
theorem vertices_partition (h : Builds m additions g) {i size : Nat}
    (hsize : (g.partitions.map (·.vertices))[i]? = some size) :
    Run.vertices (g.runs.filter (·.partition = i)) = size := by
  rw [List.getElem?_map] at hsize
  obtain ⟨part, hpart, rfl⟩ := Option.map_eq_some_iff.mp hsize
  rw [← (h.tiled i part hpart).add_vertices, Nat.zero_add]

/-- The runs have all vertices. -/
theorem vertices_runs (h : Builds m additions g) :
    Run.vertices g.runs = (g.partitions.map (·.vertices)).sum := by
  have hall := Run.vertices_filter_key_lt (h.ascending.imp And.right)
    (fun _ _ hsize => h.vertices_partition hsize) (Nat.le_refl _)
  rw [List.take_length, List.length_map] at hall
  rw [← hall, List.filter_eq_self.mpr fun r hr => decide_eq_true (h.placed r hr)]

/-- **Where a run begins**, counting the vertices of all partitions: behind the vertices of the
runs before it. -/
theorem start_eq_vertices (h : Builds m additions g) {before after : List Run} {r : Run}
    (hruns : g.runs = before ++ r :: after) :
    ((g.partitions.map (·.vertices)).take r.partition).sum + r.first = Run.vertices before := by
  have hsorted : g.runs.Pairwise fun r r' => r.partition ≤ r'.partition :=
    h.ascending.imp And.right
  have hr : r ∈ g.runs := by rw [hruns]; simp
  -- runs in earlier partitions all stand before it
  have hearlier : g.runs.filter (·.partition < r.partition) =
      before.filter (·.partition < r.partition) := by
    rw [hruns] at hsorted ⊢
    exact filter_key_lt_append hsorted
  have hsame : g.runs.filter (·.partition = r.partition) =
      before.filter (·.partition = r.partition) ++
        r :: after.filter (·.partition = r.partition) := by
    rw [hruns, List.filter_append, List.filter_cons_of_pos (by simp)]
  obtain ⟨part, hpart⟩ : ∃ part, g.partitions[r.partition]? = some part :=
    ⟨_, List.getElem?_eq_getElem (h.placed r hr)⟩
  have htile := h.tiled r.partition part hpart
  rw [hsame] at htile
  have hcount := Run.vertices_filter_key_lt hsorted
    (fun _ _ hsize => h.vertices_partition hsize) (q := r.partition)
    (by rw [List.length_map]; exact Nat.le_of_lt (h.placed r hr))
  rw [hruns] at hsorted
  obtain ⟨hbefore, -, hle⟩ := List.pairwise_append.mp hsorted
  have hgroups := filter_key_lt_succ hbefore r.partition
  rw [List.filter_eq_self.mpr fun r' hr' =>
    decide_eq_true (Nat.lt_succ_of_le (hle r' hr' r List.mem_cons_self))] at hgroups
  rw [← hcount, hearlier, htile.first_eq, Nat.zero_add, ← Run.vertices_append, ← hgroups]

/-- The vertices of all partitions, one partition after the other, are those of the runs. -/
theorem flatten_buffers {β : Type} (h : Builds m additions g) (f : Run → β)
    {buffers : List (List β)} (hlength : buffers.length = g.partitions.length)
    (hbuffers : ∀ (i : Nat) part, g.partitions[i]? = some part → ∃ xs, buffers[i]? = some xs ∧
      xs.length = part.vertices ∧ ∀ r ∈ g.runs, ∀ v, r.Covers i v → xs[v]? = some (f r)) :
    buffers.flatten = g.runs.flatMap fun r => List.replicate r.count (f r) := by
  have hgroups : buffers = (List.range g.partitions.length).map fun i =>
      (g.runs.filter (·.partition = i)).flatMap fun r => List.replicate r.count (f r) := by
    refine List.ext_getElem? fun i => ?_
    rw [List.getElem?_map]
    by_cases hi : i < g.partitions.length
    · obtain ⟨xs, hxs, hsize, hat⟩ := hbuffers i _ (List.getElem?_eq_getElem hi)
      rw [hxs, List.getElem?_range hi, Option.map_some, Option.some.injEq]
      refine (h.tiled i _ (List.getElem?_eq_getElem hi)).eq_flatMap f
        (by rw [hsize, Nat.zero_add]) fun r hr v hv hv' => ?_
      obtain ⟨hmem, hposition⟩ := List.mem_filter.mp hr
      exact hat r hmem v ⟨of_decide_eq_true hposition, hv, hv'⟩
    · rw [List.getElem?_eq_none (by omega), List.getElem?_eq_none (by simp; omega),
        Option.map_none]
  rw [hgroups, ← List.flatMap_def, ← List.flatMap_assoc,
    flatMap_filter_key (h.ascending.imp And.right) h.placed]

end Builds

/-! ### Equal particles -/

/-- Particles with the same number of vertices. -/
def equalParticles (n k : Nat) : List Addition := (List.range n).map fun p => ⟨p, k⟩

theorem equalParticles_succ (n k : Nat) :
    equalParticles (n + 1) k = equalParticles n k ++ [⟨n, k⟩] := by
  simp [equalParticles, List.range_succ]

theorem vertices_equalParticles (n k : Nat) :
    ((equalParticles n k).map (·.vertices)).sum = n * k := by
  simp [equalParticles, Function.comp_def]

theorem foldl_max_equalParticles (n k : Nat) :
    ((equalParticles n k).map (·.particle + 1)).foldl max 0 = n := by
  induction n with
  | zero => rfl
  | succ n ih => rw [equalParticles_succ, List.map_append, List.foldl_append, ih]; simp

theorem sum_equalParticles (n k p : Nat) :
    (((equalParticles n k).filter (·.particle = p)).map (·.vertices)).sum =
      if p < n then k else 0 := by
  induction n with
  | zero => rfl
  | succ n ih =>
    rw [equalParticles_succ, List.filter_append, List.map_append, List.sum_append, ih]
    rcases Nat.lt_trichotomy p n with hlt | rfl | hgt
    · have hne : n ≠ p := Nat.ne_of_gt hlt
      simp [hlt, Nat.lt_succ_of_lt hlt, hne]
    · simp
    · have hne : n ≠ p := Nat.ne_of_lt hgt
      have hlt : ¬ p < n := Nat.not_lt.mpr (Nat.le_of_lt hgt)
      have hlt' : ¬ p < n + 1 := Nat.not_lt.mpr hgt
      simp [hlt, hlt', hne]

namespace Builds

variable (h : Builds m (equalParticles n k) g)

include h

theorem particles_eq : g.particles = n := h.particles.trans (foldl_max_equalParticles n k)

theorem countIn_eq {p : Nat} (hp : p < n) : countIn g.runs p = k := by
  rw [h.requested, sum_equalParticles, if_pos hp]

/-- No run belongs to another particle. -/
theorem counted : ∀ r ∈ g.runs, r.particle < n := by
  intro r hr
  by_contra hlt
  have hnone := h.requested r.particle
  rw [sum_equalParticles, if_neg hlt] at hnone
  have hmem : r.count ∈ (g.runs.filter (·.particle = r.particle)).map (·.count) :=
    List.mem_map_of_mem (List.mem_filter.mpr ⟨hr, by simp⟩)
  have hzero := List.sum_eq_zero_iff_forall_eq_nat.mp hnone _ hmem
  exact Nat.ne_of_gt (h.nonempty r hr) hzero

/-- The vertices of all particles before one. -/
theorem vertices_filter_particle_lt {p : Nat} (hp : p ≤ n) :
    Run.vertices (g.runs.filter (·.particle < p)) = p * k := by
  have hsizes : ∀ (q : Nat) size, (List.replicate n k)[q]? = some size →
      Run.vertices (g.runs.filter (·.particle = q)) = size := by
    intro q size hsize
    rw [List.getElem?_replicate] at hsize
    split at hsize
    · exact (h.countIn_eq ‹_›).trans (Option.some.inj hsize)
    · cases hsize
  have hcount := Run.vertices_filter_key_lt (h.ascending.imp And.left) hsizes
    (q := p) (by simpa using hp)
  rw [hcount, List.take_replicate, Nat.min_eq_left hp, List.sum_replicate_nat]

theorem sum_vertices : (g.partitions.map (·.vertices)).sum = n * k := by
  rw [← h.vertices_runs, ← h.vertices_filter_particle_lt (Nat.le_refl n),
    List.filter_eq_self.mpr fun r hr => decide_eq_true (h.counted r hr)]

/-- **The vertices of all runs** are those of the first particle, then those of the second
one, and so on. -/
theorem flatMap_runs {β : Type} (f : Nat → β) :
    (g.runs.flatMap fun r => List.replicate r.count (f r.particle)) =
      (List.range n).flatMap fun p => List.replicate k (f p) := by
  have hgroup : ∀ (runs : List Run) (p : Nat), (∀ r ∈ runs, r.particle = p) →
      (runs.flatMap fun r => List.replicate r.count (f r.particle)) =
        List.replicate (Run.vertices runs) (f p) := by
    intro runs p hruns
    induction runs with
    | nil => rfl
    | cons r runs ih =>
      obtain ⟨hr, hrest⟩ := List.forall_mem_cons.mp hruns
      rw [List.flatMap_cons, ih hrest, hr, List.replicate_append_replicate]
      rfl
  rw [← flatMap_filter_key (h.ascending.imp And.left) h.counted, List.flatMap_assoc]
  refine List.flatMap_congr fun p hp => ?_
  rw [hgroup _ p fun r hr => of_decide_eq_true (List.mem_filter.mp hr).2]
  exact congrArg (List.replicate · (f p)) (h.countIn_eq (List.mem_range.mp hp))

/-- **The first run of a particle** begins where the vertices of the particles before it
end. -/
theorem exists_first (hk : 0 < k) {p : Nat} (hp : p < n) :
    ∃ r ∈ g.runs, g.runs.find? (·.particle = p) = some r ∧ r.particle = p ∧
      ((g.partitions.map (·.vertices)).take r.partition).sum + r.first = p * k := by
  have hsome : (g.runs.find? (·.particle = p)).isSome := by
    rw [List.find?_isSome]
    by_contra hnone
    simp only [not_exists, not_and] at hnone
    have hcount := h.countIn_eq hp
    rw [countIn, List.filter_eq_nil_iff.mpr hnone] at hcount
    exact Nat.ne_of_gt hk hcount.symm
  obtain ⟨r, hr⟩ := Option.isSome_iff_exists.mp hsome
  obtain ⟨hparticle, before, after, hruns, hbefore⟩ := List.find?_eq_some_iff_append.mp hr
  have hparticle := of_decide_eq_true hparticle
  refine ⟨r, List.mem_of_find?_eq_some hr, hr, hparticle, ?_⟩
  have hsorted : g.runs.Pairwise fun r r' => r.particle ≤ r'.particle := h.ascending.imp And.left
  rw [h.start_eq_vertices hruns, ← h.vertices_filter_particle_lt (Nat.le_of_lt hp)]
  rw [hruns] at hsorted ⊢
  rw [← hparticle, filter_key_lt_append hsorted]
  -- no run before the first one of the particle belongs to it or to a later one
  refine congrArg Run.vertices (List.filter_eq_self.mpr fun r' hr' => ?_).symm
  have hle := (List.pairwise_append.mp hsorted).2.2 r' hr' r List.mem_cons_self
  have hne := hbefore r' hr'
  simp only [Bool.not_eq_true', decide_eq_false_iff_not] at hne
  rw [decide_eq_true_eq]
  omega

end Builds

end GeometryBuilder

end ParticleShader
