/-!
# Elements and what stands before them

A property of each element of a list may speak of the elements before it: of the runs that a run
follows, or of the allocations before an allocation. It is stated over the ways to split the list
at an element. Such a property holds of two lists one behind the other if it holds of the first
one, and of the second one behind the first (`forall_split_append`).
-/

namespace ParticleShader

variable {β : Type} {P : List β → β → Prop} {l l' : List β} {x : β}

theorem forall_split_append :
    (∀ before b after, l ++ l' = before ++ b :: after → P before b) ↔
      (∀ before b after, l = before ++ b :: after → P before b) ∧
        ∀ before b after, l' = before ++ b :: after → P (l ++ before) b := by
  constructor
  · intro h
    refine ⟨fun before b after hsplit => h before b (after ++ l') ?_,
      fun before b after hsplit => h (l ++ before) b after ?_⟩
    · rw [hsplit, List.append_assoc, List.cons_append]
    · rw [hsplit, List.append_assoc]
  · rintro ⟨hfirst, hsecond⟩ before b after hsplit
    rcases List.append_eq_append_iff.mp hsplit with
      ⟨between, rfl, hrest⟩ | ⟨between, rfl, hrest⟩
    · exact hsecond between b after hrest
    · cases between with
      | nil => simpa using hsecond [] b after hrest.symm
      | cons y between =>
        obtain ⟨rfl, -⟩ := List.cons.inj hrest
        exact hfirst before b between rfl

/-- One more element at the end. -/
theorem forall_split_concat :
    (∀ before b after, l ++ [x] = before ++ b :: after → P before b) ↔
      (∀ before b after, l = before ++ b :: after → P before b) ∧ P l x := by
  refine forall_split_append.trans (and_congr_right fun _ => ⟨fun h => ?_, fun h => ?_⟩)
  · have hx := h [] x [] rfl
    rwa [List.append_nil] at hx
  · intro before b after hsplit
    obtain ⟨rfl, rfl, -⟩ : before = [] ∧ b = x ∧ after = [] := by
      simpa [eq_comm] using List.singleton_eq_append_iff.mp hsplit
    rwa [List.append_nil]

end ParticleShader
