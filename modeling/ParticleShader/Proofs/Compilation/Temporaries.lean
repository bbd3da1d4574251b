import Mathlib.Data.List.Sort
import ParticleShader.Compilation.Allocation
import ParticleShader.Proofs.Outcome

/-!
# Temporaries

Which vertex temporaries are free, and what claiming and releasing do to them: the
first free one is handed out, the others stay free in their order, and giving up a
claim restores what was before it.
-/

namespace ParticleShader

variable {α : Type}

/-- A whole vertex temporary. -/
def Register.temporary (index : Nat) : Register := { kind := .vertexTemporary, index }

namespace Compilation

/-- The vertex temporaries that nobody claims, in ascending order. -/
def free (c : Compilation α) : List Nat := c.temporaries.findIdxs (· = 0)

/-- The state with one more claim on a temporary. -/
def claiming (c : Compilation α) (index : Nat) : Compilation α :=
  { c with temporaries := c.temporaries.modify index (· + 1) }

/-- The state with one claim on a temporary less. -/
def releasing (c : Compilation α) (index : Nat) : Compilation α :=
  { c with temporaries := c.temporaries.modify index (· - 1) }

/-! ### Free temporaries -/

theorem mem_free {c : Compilation α} {index : Nat} :
    index ∈ c.free ↔ c.temporaries[index]? = some 0 := by
  rw [free, List.mem_findIdxs_iff_exists_getElem_pos, List.getElem?_eq_some_iff]
  simp

theorem pairwise_free (c : Compilation α) : c.free.Pairwise (· < ·) := List.pairwise_findIdxs

theorem findIdx?_eq_head? (usages : List Nat) :
    usages.findIdx? (· = 0) = (usages.findIdxs (· = 0)).head? := by
  induction usages with
  | nil => rfl
  | cons usage usages ih =>
    rw [List.findIdx?_cons, List.findIdxs_cons]
    by_cases hu : usage = 0
    · simp [hu]
    · rw [List.findIdxs_start]
      simp [hu, ih]

/-- A claim takes its temporary out of the free ones. -/
theorem free_claiming (c : Compilation α) (index : Nat) :
    (c.claiming index).free = c.free.filter (· ≠ index) := by
  refine List.Pairwise.eq_of_mem_iff (pairwise_free _) ((pairwise_free c).filter _) fun i => ?_
  rw [mem_free, List.mem_filter, mem_free, claiming, List.getElem?_modify]
  by_cases hi : index = i
  · subst hi
    cases c.temporaries[index]? <;> simp
  · simp [hi, Ne.symm hi]

/-- The first free temporary is claimed and the others stay free. -/
theorem free_claiming_head {c : Compilation α} {index : Nat} {rest : List Nat}
    (h : c.free = index :: rest) : (c.claiming index).free = rest := by
  have hpairwise := pairwise_free c
  rw [h] at hpairwise
  rw [free_claiming, h, List.filter_cons_of_neg (by simp)]
  refine List.filter_eq_self.mpr fun i hi => ?_
  have := (List.pairwise_cons.mp hpairwise).1 i hi
  simp
  omega

/-- Giving up a claim restores what was before it. -/
theorem releasing_claiming (c : Compilation α) (index : Nat) :
    (c.claiming index).releasing index = c := by
  simp only [releasing, claiming, List.modify_modify_eq]
  congr 1
  exact List.modify_id _ _

end Compilation

namespace Compile

open Compilation

variable {c c' : Compilation α} {r : Register}

/-- The first free temporary is handed out. -/
theorem leads_acquire : Leads acquire c r c' ↔
    ∃ index rest, c.free = index :: rest ∧ r = .temporary index ∧ c' = c.claiming index := by
  unfold acquire
  rw [leads_get_bind, findIdx?_eq_head?, ← free]
  cases hfree : c.free with
  | nil => simp
  | cons index rest =>
    simp only [List.head?_cons, leads_bind, leads_modify, leads_pure, List.cons.injEq]
    constructor
    · rintro ⟨_, _, rfl, rfl, rfl⟩
      exact ⟨index, rest, ⟨rfl, rfl⟩, rfl, rfl⟩
    · rintro ⟨_, _, ⟨rfl, rfl⟩, rfl, rfl⟩
      exact ⟨(), _, rfl, rfl, rfl⟩

variable {β : Type} {b : β} {index : Nat}

/-- What follows on a free temporary has it claimed. -/
theorem leads_acquire_bind {f : Register → Compile α β} : Leads (acquire >>= f) c b c' ↔
    ∃ index rest, c.free = index :: rest ∧
      Leads (f (.temporary index)) (c.claiming index) b c' := by
  simp only [leads_bind, leads_acquire]
  constructor
  · rintro ⟨_, _, ⟨index, rest, hfree, rfl, rfl⟩, h⟩
    exact ⟨index, rest, hfree, h⟩
  · rintro ⟨index, rest, hfree, h⟩
    exact ⟨_, _, ⟨index, rest, hfree, rfl, rfl⟩, h⟩

theorem leads_acquireScalar_bind {f : Register → Compile α β} :
    Leads (acquireScalar >>= f) c b c' ↔ ∃ index rest, c.free = index :: rest ∧
      Leads (f (Register.temporary index).x) (c.claiming index) b c' := by
  unfold acquireScalar
  rw [bind_assoc, leads_acquire_bind]
  simp only [pure_bind]

/-- What follows on a release goes on as if there had been no claim. -/
theorem leads_release_bind {f : Unit → Compile α β} (hr : r.kind = .vertexTemporary) :
    Leads (release r >>= f) (c.claiming r.index) b c' ↔ Leads (f ()) c b c' := by
  unfold release
  rw [leads_modify_bind, if_pos hr]
  show Leads (f ()) ((c.claiming r.index).releasing r.index) b c' ↔ _
  rw [releasing_claiming]

theorem leads_release_temporary {f : Unit → Compile α β} :
    Leads (release (.temporary index) >>= f) (c.claiming index) b c' ↔ Leads (f ()) c b c' :=
  leads_release_bind (r := .temporary index) rfl

theorem leads_release_x {f : Unit → Compile α β} :
    Leads (release (Register.temporary index).x >>= f) (c.claiming index) b c' ↔
      Leads (f ()) c b c' :=
  leads_release_bind (r := (Register.temporary index).x) rfl

/-- A temporary that is only needed for the code that is written. -/
theorem leads_scratch {f : Register → Compile α β} :
    Leads (do
      let r ← acquire
      release r
      f r) c b c' ↔
    ∃ index rest, c.free = index :: rest ∧ Leads (f (.temporary index)) c b c' := by
  simp only [leads_acquire_bind, leads_release_temporary]

theorem leads_scratchScalar {f : Register → Compile α β} :
    Leads (do
      let r ← acquireScalar
      release r
      f r) c b c' ↔
    ∃ index rest, c.free = index :: rest ∧ Leads (f (Register.temporary index).x) c b c' := by
  simp only [leads_acquireScalar_bind, leads_release_x]

end Compile

end ParticleShader
