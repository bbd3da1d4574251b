import ParticleShader.Animation
import ParticleShader.Proofs.NodeSet.Built
import ParticleShader.Proofs.Outcome

/-!
# Slices of a record

Every node keeps its values in a slice of the record. The slices of a built set
do not overlap, so the record of a particle holds the values of all nodes, each
in its place.
-/

namespace ParticleShader

variable {α : Type}

/-- The values from `offset` on, `length` of them. -/
def slice (record : List α) (offset length : Nat) : List α := (record.drop offset).take length

theorem slice_overwrite {record values : List α} {offset : Nat}
    (h : offset + values.length ≤ record.length) :
    slice (overwrite record offset values) offset values.length = values := by
  have hfront : (record.take offset).length = offset := by
    rw [List.length_take]
    omega
  unfold slice overwrite
  rw [List.append_assoc, List.drop_append_of_le_length (Nat.le_of_eq hfront.symm),
    List.drop_eq_nil_of_le (Nat.le_of_eq hfront), List.nil_append, List.take_left]

/-- Other values in one place leave a slice beside it as it is. -/
theorem slice_overwrite_of_apart {record values : List α} {offset at' length : Nat}
    (h : offset + values.length ≤ record.length)
    (hapart : offset + values.length ≤ at' ∨ at' + length ≤ offset) :
    slice (overwrite record offset values) at' length = slice record at' length := by
  refine List.ext_getElem? fun i => ?_
  unfold slice overwrite
  simp only [List.getElem?_take, List.getElem?_drop]
  by_cases hi : i < length
  · simp only [hi, if_true]
    rcases hapart with hbehind | hfront
    · rw [List.getElem?_append_right (by simp; omega), List.getElem?_drop]
      congr 1
      simp
      omega
    · rw [List.append_assoc, List.getElem?_append_left (by simp; omega), List.getElem?_take,
        if_pos (by omega)]
  · simp only [hi, if_false]

/-! ### The number of values -/

theorem length_take_curve (curve : ScaleCurve) (values : Vec4 α) :
    (values.toList.take curve.length).length = curve.length := by
  cases curve <;> rfl

section

variable [Scalar α]

theorem length_colorParts (animation : ColorAnimation α) (first last : ColorTransform α) :
    ((Behavior.colorParts animation first last).flatMap fun (start, delta) =>
      start.toList ++ delta.toList).length =
      8 * (animation.usesMultiplier.toNat + animation.usesOffset.toNat) := by
  unfold Behavior.colorParts
  cases animation.usesMultiplier <;> cases animation.usesOffset <;> rfl

/-- A catalogue node gives as many values for a particle as it keeps. -/
theorem Behavior.length_values {b : Behavior α} (hb : b.IsCatalogue)
    (hmode : b.mode = .perParticle .baked) {p : Particle α} {values : List α}
    (h : b.values p = .ok values) : values.length = b.length := by
  cases b with
  | custom => exact hb.elim
  | rotateToHeading | billboard | follow | spriteSheet => cases hmode
  | scale curve value =>
    simp only [Behavior.values, Outcome.bind_eq_ok, Outcome.pure_eq_ok] at h
    obtain ⟨_, _, _, _, rfl⟩ := h
    exact length_take_curve ..
  | color animation =>
    obtain ⟨_, _, _, colors⟩ := animation
    cases colors with
    | global => cases hmode
    | perParticle =>
      simp only [Behavior.values, Outcome.bind_eq_ok, Outcome.pure_eq_ok] at h
      obtain ⟨_, _, _, _, rfl⟩ := h
      exact length_colorParts ..
  | time | position | velocity | acceleration =>
    simp only [Behavior.values, Outcome.bind_eq_ok, Outcome.pure_eq_ok] at h
    obtain ⟨_, _, rfl⟩ := h
    rfl
  | rotationalVelocity | uv =>
    simp only [Behavior.values, Outcome.bind_eq_ok, Outcome.pure_eq_ok] at h
    obtain ⟨_, _, _, _, rfl⟩ := h
    rfl

end

/-! ### The record of a particle -/

namespace Animation

variable [Scalar α]

/-- The values of a node stand in its place of a record. -/
def Holds (record : List α) (p : Particle α) (n : Node α) : Prop :=
  n.behavior.values p = .ok (slice record n.offset n.behavior.length)

/-- Writing the values of nodes into a record: each has its own values in its
place, and places of no node among them keep what they held. -/
theorem foldlM_overwrite {p : Particle α} {nodes : List (Node α)} {start record : List α}
    (hcat : ∀ n ∈ nodes, n.behavior.IsCatalogue)
    (hmode : ∀ n ∈ nodes, n.behavior.mode = .perParticle .baked)
    (hin : ∀ n ∈ nodes, n.offset + n.behavior.length ≤ start.length)
    (hapart : nodes.Pairwise (Node.Apart .baked))
    (h : nodes.foldlM (fun record n => return overwrite record n.offset (← n.behavior.values p))
      start = .ok record) :
    record.length = start.length ∧ (∀ n ∈ nodes, Holds record p n) ∧
      ∀ m : Node α, (∀ n ∈ nodes, m.Apart .baked n) →
        slice record m.offset m.behavior.length = slice start m.offset m.behavior.length := by
  induction nodes generalizing start with
  | nil =>
    rw [List.foldlM_nil, Outcome.pure_eq_ok] at h
    subst h
    exact ⟨rfl, fun n hn => absurd hn (List.not_mem_nil), fun _ _ => rfl⟩
  | cons n ns ih =>
    simp only [List.foldlM_cons, Outcome.bind_eq_ok, Outcome.pure_eq_ok] at h
    obtain ⟨_, ⟨values, hv, rfl⟩, h⟩ := h
    have hlen := Behavior.length_values (hcat n List.mem_cons_self) (hmode n List.mem_cons_self) hv
    have hfit : n.offset + values.length ≤ start.length := hlen ▸ hin n List.mem_cons_self
    have hsize := length_overwrite hfit
    obtain ⟨hfirst, hrest⟩ := List.pairwise_cons.mp hapart
    obtain ⟨hlength, hholds, hkeeps⟩ := ih (fun m hm => hcat m (List.mem_cons_of_mem _ hm))
      (fun m hm => hmode m (List.mem_cons_of_mem _ hm))
      (fun m hm => hsize ▸ hin m (List.mem_cons_of_mem _ hm)) hrest h
    refine ⟨hlength.trans hsize, fun m hm => ?_, fun m hm => ?_⟩
    · rcases List.mem_cons.mp hm with rfl | hm
      · rw [Holds, hkeeps m hfirst, ← hlen, slice_overwrite hfit, hv]
      · exact hholds m hm
    · rw [hkeeps m fun k hk => hm k (List.mem_cons_of_mem _ hk)]
      refine slice_overwrite_of_apart hfit ?_
      rw [hlen]
      exact (hm n List.mem_cons_self).symm

/-- **The record of a particle**: in a built set it has the length of the layout
and holds the values of every node in its place. -/
theorem record_eq_ok {s : NodeSet α} (hs : s.Built) {p : Particle α} {row : List α}
    (h : record (s.nodesIn .baked) s.stride p = .ok row) :
    row.length = s.stride ∧ ∀ n ∈ s.nodesIn .baked, Holds row p n := by
  have hlaid := hs.laid .baked
  have hzero : (zeroRecord s.stride : List α).length = s.stride := List.length_replicate
  obtain ⟨hlength, hholds, -⟩ := foldlM_overwrite
    (fun n hn => hs.isCatalogue n (NodeSet.mem_nodesIn.mp hn).1)
    (fun n hn => (NodeSet.mem_nodesIn.mp hn).2)
    (fun n hn => hzero.symm ▸ hlaid.inside n hn) hlaid.apart h
  exact ⟨hlength.trans hzero, hholds⟩

end Animation

end ParticleShader
