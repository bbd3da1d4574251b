import ParticleShader.Proofs.Compilation.Public
import ParticleShader.Proofs.NodeSet.Continuing
import ParticleShader.Proofs.NodeSet.Varyings
import ParticleShader.Proofs.Register.Name

/-!
# Requests for texture code

Texture code is asked for by the names of two registers, as often as one likes. Where a node
animates the texture the code is written once; from then on every request is answered from what is
remembered, be it with the code or with a refusal, and changes nothing (**`Grown.repeats_spec`**).
Where no node does, each request is answered by itself: one that cannot be read abandons the
compilation, even if others were answered before (**`refusals_spec`**, `empty_abandoned`).
-/

namespace ParticleShader

open Compile Compilation

variable {α : Type}

namespace Compile

variable {β : Type} {x : Compile α β} {c c' : Compilation α}

/-- The state behind a step is the same whether its fault is caught or not. -/
theorem after_of_leads_attempt {answer : Except Fault β} (h : Leads (attempt x) c answer c') :
    c.after x = c' := by
  rcases leads_attempt.mp h with ⟨b, -, hleads⟩ | ⟨fault, -, hrun⟩
  · exact hleads.after_eq
  · exact after_of_error hrun

end Compile

/-! ### Texture code that was written -/

namespace Compilation

/-- Texture code was written, from one register to another. -/
structure Wrote (c : Compilation α) (source target : Register) (q : Program) : Prop where
  /-- The registers are remembered. -/
  uv : ∃ working, c.uv = some { source, working, target }
  /-- The code is remembered. -/
  code : c.uvCode = some q

/-- Code is written, and there is no texture code that a request could be answered with. -/
def AwaitsUv (c : Compilation α) : Prop :=
  (c.isActive = true ∧ c.phase ≠ .done) ∧ ¬ (c.uv.isSome = true ∧ c.uvCode.isSome = true)

instance (c : Compilation α) : Decidable c.AwaitsUv :=
  inferInstanceAs (Decidable (_ ∧ ¬ _))

end Compilation

namespace NodeSet

/-- How a request is answered where texture code was written from one register to another. -/
inductive Answered (source target : Register) (q : Program) :
    String × String → Except Fault Program → Prop where
  /-- The same registers are named, however they are spelled: the code is given again. -/
  | same {sourceName targetName : String} : Register.ofName sourceName = .ok source →
    Register.ofName targetName = .ok target → Answered source target q (sourceName, targetName)
      (.ok q)
  /-- Another register is named. -/
  | other {sourceName targetName : String} {a b : Register} : Register.ofName sourceName = .ok a →
    Register.ofName targetName = .ok b → source ≠ a ∨ target ≠ b →
      Answered source target q (sourceName, targetName)
        (.error (.invalidConfiguration (.otherUvRegisters source target)))
  /-- The first name cannot be read. -/
  | unreadableSource {sourceName targetName : String} :
    Register.ofName sourceName = .error (.invalidRegister (.unreadable sourceName)) →
      Answered source target q (sourceName, targetName)
        (.error (.invalidRegister (.unreadable sourceName)))
  /-- The second name cannot be read. -/
  | unreadableTarget {sourceName targetName : String} {a : Register} :
    Register.ofName sourceName = .ok a →
    Register.ofName targetName = .error (.invalidRegister (.unreadable targetName)) →
      Answered source target q (sourceName, targetName)
        (.error (.invalidRegister (.unreadable targetName)))

end NodeSet

namespace NodeSet

variable {c c' d : Compilation α} {source target : Register} {q : Program}
  {sourceName targetName : String}

/-- There is one answer to a request. -/
theorem Answered.unique {request : String × String} {answer answer' : Except Fault Program}
    (h : Answered source target q request answer) (h' : Answered source target q request answer') :
    answer = answer' := by
  cases h <;> cases h' <;> simp_all

section

variable [Scalar α] {s : NodeSet α}

/-- Several requests, one after the other, and what each of them is answered. -/
def requests (s : NodeSet α) : List (String × String) → Compile α (List (Except Fault Program))
  | [] => pure []
  | (sourceName, targetName) :: others => do
    let answer ← attempt (s.uvCode sourceName targetName)
    let answers ← requests s others
    return answer :: answers

/-- A request is granted while code is written, with code that is there or is written then. -/
theorem granted_uvCode (h : Leads (s.uvCode sourceName targetName) c q c') :
    (c.isActive = true ∧ c.phase ≠ .done) ∧
      ((c.writtenUvCode sourceName targetName = .ok (some q) ∧ c' = c) ∨
        Leads (s.writeUvCode sourceName targetName) c q c') := by
  have hrun : (s.uvCode sourceName targetName).run c = .ok q c' := h
  rw [run_uvCode] at hrun
  split at hrun
  · refine ⟨‹_›, ?_⟩
    split at hrun
    · cases hrun
    · cases hrun
      exact .inl ⟨‹_›, rfl⟩
    · exact .inr (leads_orAbandon.mp hrun)
  · cases hrun

omit [Scalar α] in
/-- Code that is given again was written for the registers that are named. -/
theorem wrote_of_writtenUvCode (h : c.writtenUvCode sourceName targetName = .ok (some q)) :
    ∃ source target, Register.ofName sourceName = .ok source ∧
      Register.ofName targetName = .ok target ∧ c.Wrote source target q := by
  unfold writtenUvCode at h
  split at h
  · rename_i uv code huv hcode
    simp only [Outcome.bind_eq_ok] at h
    obtain ⟨source, hsource, target, htarget, h⟩ := h
    split at h
    · cases h
    · rename_i hsame
      rw [not_or, not_not, not_not] at hsame
      obtain ⟨rfl, rfl⟩ := hsame
      cases h
      exact ⟨_, _, hsource, htarget, ⟨uv.working, huv⟩, hcode⟩
  · cases h

/-- Where a node animates the texture, a request that is granted names two registers and has
written the code, now or before. -/
theorem Modest.wrote_of_uvCode (hs : s.Modest) (hon : c.features.uvNode = true)
    (h : Leads (s.uvCode sourceName targetName) c q c') :
    ∃ source target, Register.ofName sourceName = .ok source ∧
      Register.ofName targetName = .ok target ∧ c'.Wrote source target q := by
  rcases (granted_uvCode h).2 with ⟨hwritten, rfl⟩ | hwrite
  · exact wrote_of_writtenUvCode hwritten
  · obtain ⟨uv, pieces, c₁, huv, hpieces, hnodes, -, rfl⟩ :=
      writesTexture_of_writeUvCode hon hwrite
    have hsame := hpieces.sameTexture fun n hn => (hs n (hnodes ▸ hn)).leavesTexture
    obtain ⟨shared, source, target, -, hsource, htarget, rfl, -⟩ := leads_setUv.mp huv
    exact ⟨source, target, hsource, htarget, ⟨_, hsame.uv⟩, rfl⟩

/-! ### Repeated requests -/

/-- What follows the vertex code belongs to its compilation. -/
theorem Follows.continues (hs : s.Modest) (h : s.Follows c d) : Continues c d := by
  induction h with
  | refl => exact .refl
  | uvCode source target _ ih => exact .uvCode source target hs ih
  | finish _ ih => exact .call (k := .finish) rfl ih
  | activate frame _ ih => exact .activate frame hs ih

variable {pass : Pass} {profile : Profile} {sourceNames targetNames : List String}
  {p : Program} {c₁ c₂ : Compilation α}

end

/-- A request is answered with code that was written unless there is none. -/
theorem writtenUvCode_eq_none :
    c.writtenUvCode sourceName targetName = .ok none ↔
      ¬ (c.uv.isSome = true ∧ c.uvCode.isSome = true) := by
  unfold writtenUvCode
  cases c.uv with
  | none => simp [pure, Except.pure]
  | some uv =>
    cases c.uvCode with
    | none => simp [pure, Except.pure]
    | some code =>
      simp only [Option.isSome_some, and_self, not_true_eq_false, iff_false]
      intro h
      simp only [Outcome.bind_eq_ok] at h
      obtain ⟨a, -, b, -, h⟩ := h
      split at h <;> cases h

section

variable [Scalar α] {s s' : NodeSet α} {c₁ c₂ c₃ : Compilation α} {fault : Fault}
  {sourceName' targetName' : String}

/-- A request that is refused changes nothing, unless code has to be written to answer it. -/
theorem refused_uvCode (h : (s.uvCode sourceName targetName).run c = .error fault c') :
    (¬ c.AwaitsUv ∧ c' = c) ∨
      (c.AwaitsUv ∧ (orAbandon (s.writeUvCode sourceName targetName)).run c = .error fault c') := by
  rw [run_uvCode] at h
  split at h
  · rename_i hopen
    have hawaits : c.AwaitsUv ↔ c.writtenUvCode sourceName targetName = .ok none := by
      rw [writtenUvCode_eq_none]
      exact and_iff_right hopen
    rw [hawaits]
    split at h
    · rename_i hwritten
      cases h
      exact .inl ⟨by simp [hwritten], rfl⟩
    · cases h
    · exact .inr ⟨‹_›, h⟩
  · cases h
    exact .inl ⟨fun hawaits => ‹¬ _› hawaits.1, rfl⟩

/-- Where no node animates the texture, code is only refused for a name that cannot be read. -/
theorem run_writeUvCode_of_error (hoff : c.features.uvNode = false)
    (h : (s.writeUvCode sourceName targetName).run c = .error fault c') :
    c' = c ∧ ∃ text, (text = sourceName ∨ text = targetName) ∧
      fault = .invalidRegister (.unreadable text) := by
  have hcopy : (s.writeUvCode sourceName targetName).run c =
      (do
        let source ← ofOutcome (Register.ofName sourceName)
        let target ← ofOutcome (Register.ofName targetName)
        return [Statement.mov target source] : Compile α Program).run c := by
    unfold writeUvCode has
    simp only [EStateM.run_bind, EStateM.run_get, EStateM.run_pure, hoff]
    rfl
  rw [hcopy] at h
  cases hsource : Register.ofName sourceName with
  | error fault' =>
    rw [hsource] at h
    cases h
    exact ⟨rfl, _, .inl rfl, Register.ofName_eq_error hsource⟩
  | ok source =>
    cases htarget : Register.ofName targetName with
    | error fault' =>
      rw [hsource, htarget] at h
      cases h
      exact ⟨rfl, _, .inr rfl, Register.ofName_eq_error htarget⟩
    | ok target =>
      rw [hsource, htarget] at h
      cases h

/-- Where no node animates the texture, a request that is granted changes nothing. -/
theorem eq_of_uvCode (hoff : c.features.uvNode = false)
    (h : Leads (s.uvCode sourceName targetName) c q c') : c' = c := by
  rcases (granted_uvCode h).2 with ⟨-, hsame⟩ | hwrite
  · exact hsame
  · unfold NodeSet.writeUvCode at hwrite
    rw [leads_has_bind, hoff, if_neg Bool.false_ne_true] at hwrite
    simp only [leads_bind, leads_ofOutcome, leads_pure] at hwrite
    obtain ⟨_, _, ⟨-, rfl⟩, _, _, ⟨-, rfl⟩, -, rfl⟩ := hwrite
    rfl

/-- So a request that is answered by writing code abandons the compilation where it is refused. -/
theorem run_orAbandon_writeUvCode (hoff : c.features.uvNode = false)
    (h : (orAbandon (s.writeUvCode sourceName targetName)).run c = .error fault c') :
    c' = { c with phase := .failed } ∧ ∃ text, (text = sourceName ∨ text = targetName) ∧
      fault = .invalidRegister (.unreadable text) := by
  cases hwrite : (s.writeUvCode sourceName targetName).run c with
  | ok q c'' =>
    have hgranted : (orAbandon (s.writeUvCode sourceName targetName)).run c = .ok q c'' :=
      leads_orAbandon.mpr hwrite
    exact nomatch hgranted.symm.trans h
  | error fault' c'' =>
    rw [run_orAbandon_of_error hwrite] at h
    cases h
    obtain ⟨rfl, hfault⟩ := run_writeUvCode_of_error hoff hwrite
    exact ⟨rfl, hfault⟩

/-- **Refusals**: let a request be granted, and let the compilation go on in any way without another
beginning. Where a node animates the texture, and those of the user take registers as the catalogue
does, a request that is refused then changes nothing. Where
none does, it changes nothing either if there is code to answer it with or if no code is written any
more; but otherwise it is answered as the first one was, and as it is refused for a name that cannot
be read, the compilation is abandoned. -/
theorem refusals_spec (hgranted : Leads (s.uvCode sourceName targetName) c q c₁)
    (hcontinues : Continues c₁ c₂)
    (hrefused : (s'.uvCode sourceName' targetName').run c₂ = .error fault c₃) :
    (c.features.uvNode = true → s.Modest → c₃ = c₂) ∧
    (c.features.uvNode = false →
      if c₂.AwaitsUv then
        c₃ = { c₂ with phase := .failed } ∧ ∃ text, (text = sourceName' ∨ text = targetName') ∧
          fault = .invalidRegister (.unreadable text)
      else c₃ = c₂) := by
  have hlater := hcontinues.upholds
  constructor
  · intro hon hs
    obtain ⟨source, target, -, -, ⟨working, huv⟩, hcode⟩ := hs.wrote_of_uvCode hon hgranted
    have hremembered : c₂.uv.isSome = true ∧ c₂.uvCode.isSome = true :=
      ⟨hlater.uv (by rw [huv]; rfl), hlater.uvCode (by rw [hcode]; rfl)⟩
    rcases refused_uvCode hrefused with ⟨-, hsame⟩ | ⟨hawaits, -⟩
    · exact hsame
    · exact absurd hremembered hawaits.2
  · intro hoff
    have hoff₂ : c₂.features.uvNode = false := by
      rw [hlater.features, eq_of_uvCode hoff hgranted, hoff]
    rcases refused_uvCode hrefused with ⟨hanswered, hsame⟩ | ⟨hawaits, hwrite⟩
    · rwa [if_neg hanswered]
    · rw [if_pos hawaits]
      exact run_orAbandon_writeUvCode hoff₂ hwrite

end

/-- A scroll was written, and texture code is refused for another register and for one that nobody
knows: nothing changes, and the compilation can be finished. -/
theorem scrolled_refuses : ∃ p c q c₁ answer c₂ c₃,
    Leads (scrolled.vertexCode scrollingPass .baseline ["va0"] ["vt0"]) { profile := .standard }
      p c ∧
    Leads (scrolled.uvCode "va1" "v0") c q c₁ ∧
    Leads (attempt (scrolled.uvCode "va1" "v1")) c₁ answer c₂ ∧
    (scrolled.uvCode "bogus" "v0").run c₂ = .error (.invalidRegister (.unreadable "bogus")) c₂ ∧
    Leads finish c₂ () c₃ := by
  have hcode : succeeds (do
      let _ ← scrolled.vertexCode scrollingPass .baseline ["va0"] ["vt0"]
      let c ← get
      let _ ← scrolled.uvCode "va1" "v0"
      let _ ← attempt (scrolled.uvCode "va1" "v1")
      let answer ← attempt (scrolled.uvCode "bogus" "v0")
      finish
      if c.features.uvNode = true ∧ answer = .error (.invalidRegister (.unreadable "bogus")) then
        return () else throw .notCompiled) { profile := .standard } = true := by
    decide +kernel
  obtain ⟨_, _, hcode⟩ := exists_leads hcode
  obtain ⟨p, c, hvertex, hcode⟩ := leads_bind.mp hcode
  rw [leads_get_bind] at hcode
  obtain ⟨q, c₁, hgranted, hcode⟩ := leads_bind.mp hcode
  obtain ⟨answer, c₂, hother, hcode⟩ := leads_bind.mp hcode
  obtain ⟨answer', d, hbogus, hcode⟩ := leads_bind.mp hcode
  obtain ⟨_, c₃, hfinish, hcode⟩ := leads_bind.mp hcode
  obtain ⟨hon, rfl⟩ := holds_of_leads hcode
  have hrefused : (scrolled.uvCode "bogus" "v0").run c₂ =
      .error (.invalidRegister (.unreadable "bogus")) d := by
    rcases leads_attempt.mp hbogus with ⟨_, heq, -⟩ | ⟨_, heq, hrun⟩ <;> cases heq
    exact hrun
  have hcontinues := Continues.uvCode "va1" "v1" built_scrolled.modest (.refl (c := c₁))
  rw [after_of_leads_attempt hother] at hcontinues
  obtain rfl := (refusals_spec hgranted hcontinues hrefused).1 hon built_scrolled.modest
  exact ⟨p, c, q, c₁, answer, d, c₃, hvertex, hgranted, hother, hrefused, hfinish⟩

/-- A set without a node that animates the texture grants a request and abandons the compilation at
the next one, which names no register; before that the compilation could have been finished. -/
theorem empty_abandoned : ∃ p c₁ q c₂ c₃ c₄,
    Leads ((NodeSet.empty {} : NodeSet Rat).vertexCode { taken := { vertexAttributes := 2 } }
      .baseline ["va0"] ["vt0"]) { profile := .standard } p c₁ ∧
    Leads ((NodeSet.empty {} : NodeSet Rat).uvCode "va1" "v0") c₁ q c₂ ∧
    ((NodeSet.empty {} : NodeSet Rat).uvCode "bogus" "v0").run c₂ =
      .error (.invalidRegister (.unreadable "bogus")) c₃ ∧
    c₃ ≠ c₂ ∧ c₃.phase = .failed ∧ Leads finish c₂ () c₄ ∧
    (finish : Compile Rat Unit).run c₃ = .error .notCompiled c₃ := by
  have hcode : succeeds (do
      let _ ← (NodeSet.empty {} : NodeSet Rat).vertexCode { taken := { vertexAttributes := 2 } }
        .baseline ["va0"] ["vt0"]
      let _ ← (NodeSet.empty {} : NodeSet Rat).uvCode "va1" "v0"
      let c₂ ← get
      let answer ← attempt ((NodeSet.empty {} : NodeSet Rat).uvCode "bogus" "v0")
      let c₃ ← get
      if answer = .error (.invalidRegister (.unreadable "bogus")) ∧ c₂.phase = .colorCombine ∧
        c₃.phase = .failed ∧ succeeds finish c₂ = true then return () else throw .notCompiled)
      { profile := .standard } = true := by
    decide +kernel
  obtain ⟨_, _, hcode⟩ := exists_leads hcode
  obtain ⟨p, c₁, hvertex, hcode⟩ := leads_bind.mp hcode
  obtain ⟨q, c₂, hgranted, hcode⟩ := leads_bind.mp hcode
  rw [leads_get_bind] at hcode
  obtain ⟨answer, c₃, hbogus, hcode⟩ := leads_bind.mp hcode
  rw [leads_get_bind] at hcode
  obtain ⟨rfl, hphase, hfailed, hsucceeds⟩ := holds_of_leads hcode
  obtain ⟨_, c₄, hfinish⟩ := exists_leads hsucceeds
  refine ⟨p, c₁, q, c₂, c₃, c₄, hvertex, hgranted, ?_, ?_, hfailed, hfinish, ?_⟩
  · rcases leads_attempt.mp hbogus with ⟨_, heq, -⟩ | ⟨_, heq, hrun⟩ <;> cases heq
    exact hrun
  · rintro rfl
    exact nomatch hphase.symm.trans hfailed
  · refine run_finish_of_refused ?_
    rw [run_enter, hfailed]
    rfl

end NodeSet

end ParticleShader
