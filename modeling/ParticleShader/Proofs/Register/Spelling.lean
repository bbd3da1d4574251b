import Mathlib.Data.List.Basic
import ParticleShader.Proofs.Register.Name

/-!
# Spellings of registers

A register is spelled with the letters of its kind, an index unless it is an output, and a letter
for its component behind a point if it has one; blanks may stand around all of it (`Spells`). The
texts that name registers are these spellings and no others, each of them spells one register only,
and any other text is reported with its blanks: **`spelling_spec`**.

`Spells` says nothing of the order in which the kinds are tried and nothing of where a text is
split. That the order does not matter is `Kind.split?_letters`: behind the letters of its kind a
spelling goes on with a sign or a digit, and no letters do.
-/

namespace ParticleShader.Register

variable {cs text : List Char} {r r' : Register} {kind : Kind} {index : Nat}

/-! ### Pieces of a spelling -/

/-- What stands for an index behind the letters of a kind. -/
inductive Kind.Counts (kind : Kind) : List Char → Nat → Prop where
  /-- An output has no index. -/
  | output : kind.isOutput = true → Counts kind [] 0
  /-- The other registers have an index that is a word. -/
  | numeral {sign digits : List Char} {index : Nat} : kind.isOutput = false →
    Text.Numeral indexBound sign digits index → Counts kind (sign ++ digits) index

/-- The letter of a component that is the part of a color. -/
def Component.colorLetter : Component → Char
  | x => 'r'
  | y => 'g'
  | z => 'b'
  | w => 'a'

/-- What stands for a component at the end. -/
inductive Component.Selects : List Char → Option Component → Prop where
  /-- The whole register has no component. -/
  | whole : Selects [] none
  /-- A component by its position. -/
  | position (c : Component) : Selects ['.', c.letter] (some c)
  /-- A component by its color. -/
  | color (c : Component) : Selects ['.', c.colorLetter] (some c)

/-- A text without blanks around it spells a register. -/
def SpellsOut (cs : List Char) (r : Register) : Prop :=
  ∃ count suffix, cs = r.kind.letters.toList ++ count ++ suffix ∧
    r.kind.Counts count r.index ∧ Component.Selects suffix r.component

/-- A text spells a register. -/
def Spells (text : List Char) (r : Register) : Prop :=
  ∃ before cs after, text = before ++ cs ++ after ∧ (∀ c ∈ before, Text.isBlank c = true) ∧
    (∀ c ∈ after, Text.isBlank c = true) ∧ SpellsOut cs r

/-- An index has digits and signs only. -/
theorem Kind.Counts.isDigit_or_sign (h : kind.Counts cs index) :
    ∀ c ∈ cs, c.isDigit = true ∨ c = '+' := by
  cases h with
  | output => simp
  | numeral _ hnumeral =>
    intro c hc
    rcases List.mem_append.mp hc with hsign | hdigit
    · rcases hnumeral.sign with rfl | rfl
      · exact absurd hsign List.not_mem_nil
      · exact .inr (List.mem_singleton.mp hsign)
    · exact .inl (hnumeral.isDigit c hdigit)

/-- In front of the component stand letters, digits and signs. -/
theorem isAlphanum_or_sign (h : kind.Counts cs index) :
    ∀ c ∈ kind.letters.toList ++ cs, c.isAlphanum = true ∨ c = '+' := by
  have hletters : ∀ c ∈ kind.letters.toList, c.isAlphanum = true := by
    cases kind <;> exact List.all_eq_true.mp rfl
  intro c hc
  rcases List.mem_append.mp hc with hletter | hcount
  · exact .inl (hletters c hletter)
  · refine (h.isDigit_or_sign c hcount).imp_left fun hdigit => ?_
    rw [Char.isAlphanum, hdigit, Bool.or_true]

/-- So there is no point. -/
theorem ne_point (h : kind.Counts cs index) :
    ∀ c ∈ kind.letters.toList ++ cs, (c != '.') = true := by
  intro c hc
  rcases isAlphanum_or_sign h c hc with halphanum | rfl
  · refine bne_iff_ne.mpr fun hpoint => ?_
    rw [hpoint] at halphanum
    exact absurd halphanum (by decide)
  · rfl

theorem Component.Selects.not_isBlank {component : Option Component}
    (h : Component.Selects cs component) : ∀ c ∈ cs, Text.isBlank c = false := by
  cases h with
  | whole => simp
  | position c | color c =>
    refine List.forall_mem_cons.mpr ⟨by decide, List.forall_mem_singleton.mpr ?_⟩
    cases c <;> decide

/-- A spelling has no blanks but those around it. -/
theorem SpellsOut.not_isBlank (h : SpellsOut cs r) : ∀ c ∈ cs, Text.isBlank c = false := by
  obtain ⟨count, suffix, rfl, hcount, hsuffix⟩ := h
  intro c hc
  rcases List.mem_append.mp hc with hfront | hend
  · rcases isAlphanum_or_sign hcount c hfront with halphanum | rfl
    · exact Text.not_isBlank_of_isAlphanum halphanum
    · decide
  · exact hsuffix.not_isBlank c hend

/-! ### Reading the pieces -/

/-- The letters of the kind that is read stand in front. -/
theorem Kind.eq_of_split? {rest : List Char} (h : Kind.split? cs = some (kind, rest)) :
    cs = kind.letters.toList ++ rest := by
  obtain ⟨other, -, hother⟩ := List.exists_of_findSome?_eq_some h
  obtain ⟨rest', hprefix, hpair⟩ := Option.map_eq_some_iff.mp hother
  obtain ⟨rfl, rfl⟩ := Prod.mk.inj hpair
  exact (List.isPrefixOf?_eq_some_iff_append_eq.mp hprefix).symm

/-- What is read without a component. -/
theorem whole?_eq_some : whole? cs = some r ↔
    ∃ count, cs = r.kind.letters.toList ++ count ∧ r.kind.Counts count r.index ∧
      r.component = none := by
  unfold whole?
  constructor
  · intro h
    split at h
    · cases h
    · rename_i kind digits hsplit
      refine ⟨digits, ?_⟩
      split at h <;> rename_i houtput
      · split at h
        · rename_i hempty
          cases h
          rw [List.isEmpty_iff.mp hempty] at hsplit ⊢
          exact ⟨Kind.eq_of_split? hsplit, .output houtput, rfl⟩
        · cases h
      · obtain ⟨index, hindex, rfl⟩ := Option.map_eq_some_iff.mp h
        obtain ⟨sign, digits, rfl, hnumeral⟩ := Text.numeral?_eq_some.mp hindex
        exact ⟨Kind.eq_of_split? hsplit, .numeral (Bool.eq_false_iff.mpr houtput) hnumeral, rfl⟩
  · rintro ⟨count, rfl, hcount, hwhole⟩
    rw [Kind.split?_letters r.kind hcount.isDigit_or_sign]
    obtain ⟨kind, index, component⟩ := r
    obtain rfl : component = none := hwhole
    show (if kind.isOutput = true then _ else _) = _
    cases hcount with
    | output houtput =>
      rw [if_pos houtput]
      rfl
    | @numeral sign digits _ houtput hnumeral =>
      rw [if_neg (Bool.eq_false_iff.mp houtput),
        Text.numeral?_eq_some.mpr ⟨sign, digits, rfl, hnumeral⟩]
      rfl

/-- What is read as a component. -/
theorem Component.ofLetter?_eq_some {letter : Char} {c : Component} :
    Component.ofLetter? letter = some c ↔ letter = c.letter ∨ letter = c.colorLetter := by
  constructor
  · unfold ofLetter?
    split <;> intro h <;> cases h <;> decide
  · rintro (rfl | rfl) <;> cases c <;> rfl

/-- What is read without blanks around it. -/
theorem ofChars?_eq_some : ofChars? cs = some r ↔ SpellsOut cs r := by
  constructor
  · intro h
    have hsplit : cs.takeWhile (· != '.') ++ cs.dropWhile (· != '.') = cs :=
      List.takeWhile_append_dropWhile
    have hpoint := List.head?_dropWhile_not (· != '.') cs
    unfold ofChars? at h
    split at h
    · obtain ⟨count, rfl, hcount, hwhole⟩ := whole?_eq_some.mp h
      exact ⟨count, [], by rw [List.append_nil], hcount, hwhole ▸ .whole⟩
    · rename_i point letter hdrop
      rw [hdrop] at hsplit hpoint
      obtain rfl : point = '.' := by simpa using hpoint
      obtain ⟨component, hletter, hnamed⟩ := Option.bind_eq_some_iff.mp h
      obtain ⟨whole, hwhole, rfl⟩ := Option.map_eq_some_iff.mp hnamed
      obtain ⟨count, hfront, hcount, -⟩ := whole?_eq_some.mp hwhole
      refine ⟨count, ['.', letter], by rw [← hsplit, hfront]; rfl, hcount, ?_⟩
      rcases Component.ofLetter?_eq_some.mp hletter with rfl | rfl
      · exact .position component
      · exact .color component
    · cases h
  · rintro ⟨count, suffix, rfl, hcount, hsuffix⟩
    have hpoint := ne_point hcount
    obtain ⟨kind, index, component⟩ := r
    have hwhole : whole? (kind.letters.toList ++ count) = some { kind, index } :=
      whole?_eq_some.mpr ⟨count, rfl, hcount, rfl⟩
    cases hsuffix with
    | whole => rw [List.append_nil, ofChars?_whole hpoint, hwhole]
    | position c =>
      rw [ofChars?_only hpoint (Component.ofLetter?_eq_some.mpr (.inl rfl)), hwhole]
      rfl
    | color c =>
      rw [ofChars?_only hpoint (Component.ofLetter?_eq_some.mpr (.inr rfl)), hwhole]
      rfl

/-- What is read as a register. -/
theorem ofName?_eq_some {s : String} : ofName? s = some r ↔ Spells s.toList r := by
  unfold ofName?
  rw [ofChars?_eq_some]
  constructor
  · intro h
    obtain ⟨before, after, hsplit, hbefore, hafter⟩ := Text.exists_strip s.toList
    exact ⟨before, Text.strip s.toList, after, hsplit, hbefore, hafter, h⟩
  · rintro ⟨before, cs, after, hsplit, hbefore, hafter, h⟩
    rwa [hsplit, Text.strip_append hbefore hafter, Text.strip_of_no_blank h.not_isBlank]

/-- **Spellings**: a text is read as a register exactly if it spells it; a text that spells none is
reported as it is, and no text spells two. -/
theorem spelling_spec (s : String) :
    (∀ r, ofName s = .ok r ↔ Spells s.toList r) ∧
    (∀ fault, ofName s = .error fault ↔
      (∀ r, ¬ Spells s.toList r) ∧ fault = .invalidRegister (.unreadable s)) ∧
    ∀ r r', Spells s.toList r → Spells s.toList r' → r = r' := by
  have hread : ∀ r, ofName s = .ok r ↔ Spells s.toList r := fun r => by
    rw [ofName_eq_ok, ofName?_eq_some]
  refine ⟨hread, fun fault => ⟨fun h => ⟨fun r hr => ?_, ofName_eq_error h⟩, ?_⟩,
    fun r r' h h' => ?_⟩
  · have hok := (hread r).mpr hr
    exact nomatch h.symm.trans hok
  · rintro ⟨hnone, rfl⟩
    cases hs : ofName s with
    | ok r => exact absurd ((hread r).mp hs) (hnone r)
    | error fault => rw [ofName_eq_error hs]
  · have hsame : (.ok r : Except Fault Register) = .ok r' :=
      ((hread r).mpr h).symm.trans ((hread r').mpr h')
    exact Except.ok.inj hsame

/-- A component by its color, of a register with a sign and zeros in front of its index, between an
ideographic space and the end of a line; and two components of one register, which spell none. -/
theorem spaced_spelling :
    Spells "\u3000fc+007.g\n".toList (⟨.fragmentConstant, 7, none⟩ : Register).y ∧
    ofName "\u3000fc+007.g\n" = .ok (⟨.fragmentConstant, 7, none⟩ : Register).y ∧
    ∀ r, ¬ Spells "vt1.x.y".toList r := by
  have hnumeral : Text.Numeral indexBound ['+'] ['0', '0', '7'] 7 :=
    ⟨.inr rfl, List.cons_ne_nil _ _, List.all_eq_true.mp rfl, rfl, by decide⟩
  have hspells : Spells "\u3000fc+007.g\n".toList (⟨.fragmentConstant, 7, none⟩ : Register).y :=
    ⟨['\u3000'], "fc+007.g".toList, ['\n'], rfl, List.forall_mem_singleton.mpr (by decide),
      List.forall_mem_singleton.mpr (by decide), ['+', '0', '0', '7'], ['.', 'g'], rfl,
      .numeral rfl hnumeral, .color .y⟩
  have hrefused : ofName "vt1.x.y" = .error (.invalidRegister (.unreadable "vt1.x.y")) := rfl
  exact ⟨hspells, ((spelling_spec _).1 _).mpr hspells,
    (((spelling_spec "vt1.x.y").2.1 _).mp hrefused).1⟩

end ParticleShader.Register
