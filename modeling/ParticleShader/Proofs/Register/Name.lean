import Mathlib.Data.List.TakeWhile
import ParticleShader.Fault
import ParticleShader.Proofs.Outcome
import ParticleShader.Proofs.Text.Numeral

/-!
# Names of registers

The text of a register is its canonical name. It is read as the register again, and every
register that some text names has such a text; so no two of those have the same one:
**`names_spec`**.

The letters `v` of a varying begin three other kinds. Reading a text of a varying goes on to the
last of the kinds because an index follows the letters and no digit is a letter
(`Kind.split?_letters`).
-/

namespace ParticleShader.Register

/-! ### Texts of registers -/

/-- A register that can be named: its index is a word, and an output has no index. -/
structure Nameable (r : Register) : Prop where
  /-- The index is a word. -/
  index_lt : r.index < indexBound
  /-- An output is a single register. -/
  output : r.kind.isOutput = true → r.index = 0

/-- The index as it is written: an output has none. -/
def digits (r : Register) : List Char := if r.kind.isOutput then [] else Nat.toDigits 10 r.index

/-- A component as it is written. -/
def Component.suffix : Option Component → List Char
  | none => []
  | some c => ['.', c.letter]

theorem toList_name (r : Register) :
    r.name.toList = r.kind.letters.toList ++ r.digits ++ Component.suffix r.component := by
  have hdigits : (if r.kind.isOutput then "" else toString r.index).toList = r.digits := by
    unfold digits
    split
    · rfl
    · exact Nat.toList_repr
  unfold name
  rw [String.toList_append, String.toList_append, hdigits]
  cases r.component with
  | none => rfl
  | some c => cases c <;> rfl

theorem isDigit_of_mem_digits {r : Register} {c : Char} (h : c ∈ r.digits) : c.isDigit := by
  unfold digits at h
  split at h
  · exact absurd h List.not_mem_nil
  · exact Nat.isDigit_of_mem_toDigits (by decide) (by decide) h

/-! ### Reading the letters and the index -/

/-- The letters of a kind are told apart from those of the others by what follows: digits, a sign
or nothing. -/
theorem Kind.split?_letters (kind : Kind) {cs : List Char}
    (h : ∀ c ∈ cs, c.isDigit = true ∨ c = '+') :
    Kind.split? (kind.letters.toList ++ cs) = some (kind, cs) := by
  cases kind
  case varying =>
    cases cs with
    | nil => rfl
    | cons c cs =>
      have hother : ∀ letter : Char, letter.isDigit = false → letter ≠ '+' →
          ['v', letter].isPrefixOf? ('v' :: c :: cs) = none := by
        intro letter hletter hsign
        have hne : (letter == c) = false := beq_eq_false_iff_ne.mpr fun heq => by
          rcases h c List.mem_cons_self with hdigit | hplus
          · rw [← heq, hletter] at hdigit
            exact Bool.false_ne_true hdigit
          · exact hsign (heq.trans hplus)
        show (if (letter == c) = true then some cs else none) = none
        rw [hne]
        rfl
      have ha : Kind.vertexAttribute.letters.toList.isPrefixOf? ('v' :: c :: cs) = none :=
        hother 'a' rfl (by decide)
      have hc : Kind.vertexConstant.letters.toList.isPrefixOf? ('v' :: c :: cs) = none :=
        hother 'c' rfl (by decide)
      have ht : Kind.vertexTemporary.letters.toList.isPrefixOf? ('v' :: c :: cs) = none :=
        hother 't' rfl (by decide)
      show Kind.split? ('v' :: c :: cs) = some (.varying, c :: cs)
      unfold Kind.split? Kind.inReadingOrder
      rw [List.findSome?_cons, ha, List.findSome?_cons, hc, List.findSome?_cons, ht]
      rfl
  all_goals rfl

/-- The letters and the index of a register that can be named are read again. -/
theorem whole?_toList {r : Register} (h : r.Nameable) :
    whole? (r.kind.letters.toList ++ r.digits) = some r.base := by
  unfold whole?
  rw [Kind.split?_letters r.kind fun c hc => .inl (isDigit_of_mem_digits hc)]
  show (if r.kind.isOutput then _ else _) = _
  unfold digits
  cases houtput : r.kind.isOutput with
  | true =>
    obtain ⟨kind, index, component⟩ := r
    obtain rfl : index = 0 := h.output houtput
    rfl
  | false =>
    show (Text.numeral? indexBound (Nat.toDigits 10 r.index)).map _ = _
    rw [Text.numeral?_toDigits h.index_lt]
    rfl

/-- A register that is read without a component can be named and has none. -/
theorem nameable_of_whole? {cs : List Char} {r : Register} (h : whole? cs = some r) :
    r.Nameable ∧ r.component = none := by
  unfold whole? at h
  split at h
  · cases h
  · rename_i kind digits hsplit
    split at h <;> rename_i houtput
    · split at h
      · cases h
        exact ⟨⟨Nat.two_pow_pos 64, fun _ => rfl⟩, rfl⟩
      · cases h
    · obtain ⟨index, hindex, rfl⟩ := Option.map_eq_some_iff.mp h
      exact ⟨⟨Text.lt_of_numeral? hindex, fun hkind => absurd hkind houtput⟩, rfl⟩

/-! ### Reading names -/

theorem Component.ofLetter?_letter (c : Component) : Component.ofLetter? c.letter = some c := by
  cases c <;> rfl

/-- A text without a point names a whole register. -/
theorem ofChars?_whole {cs : List Char} (h : ∀ c ∈ cs, (c != '.') = true) :
    ofChars? cs = whole? cs := by
  have hdrop : cs.dropWhile (· != '.') = [] := List.dropWhile_eq_nil_iff.mpr h
  unfold ofChars?
  rw [hdrop]

/-- The component is what stands behind the point. -/
theorem ofChars?_only {cs : List Char} {letter : Char} {component : Component}
    (h : ∀ c ∈ cs, (c != '.') = true) (hletter : Component.ofLetter? letter = some component) :
    ofChars? (cs ++ ['.', letter]) = (whole? cs).map fun r => r.only component := by
  have hdrop : (cs ++ ['.', letter]).dropWhile (· != '.') = ['.', letter] := by
    rw [List.dropWhile_append_of_pos h]
    rfl
  have htake : (cs ++ ['.', letter]).takeWhile (· != '.') = cs := by
    rw [List.takeWhile_append_of_pos h]
    exact List.append_nil cs
  unfold ofChars?
  rw [hdrop, htake]
  show (Component.ofLetter? letter).bind _ = _
  rw [hletter]
  rfl

/-- In front of the component stand letters and digits. -/
theorem isAlphanum_of_mem {r : Register} {c : Char}
    (h : c ∈ r.kind.letters.toList ++ r.digits) : c.isAlphanum := by
  rcases List.mem_append.mp h with hletter | hdigit
  · have hletters : r.kind.letters.toList.all Char.isAlphanum = true := by
      cases r.kind <;> rfl
    exact List.all_eq_true.mp hletters c hletter
  · have hdigit := isDigit_of_mem_digits hdigit
    unfold Char.isAlphanum
    rw [hdigit, Bool.or_true]

/-- A name has no blanks. -/
theorem not_isBlank_of_mem_name {r : Register} {c : Char} (h : c ∈ r.name.toList) :
    Text.isBlank c = false := by
  rw [toList_name] at h
  rcases List.mem_append.mp h with hfront | hsuffix
  · exact Text.not_isBlank_of_isAlphanum (isAlphanum_of_mem hfront)
  · have hsuffixes : (Component.suffix r.component).all (!Text.isBlank ·) = true := by
      cases r.component with
      | none => rfl
      | some component => cases component <;> rfl
    simpa using List.all_eq_true.mp hsuffixes c hsuffix

/-- A name is read as its register. -/
theorem ofName?_name {r : Register} (h : r.Nameable) : ofName? r.name = some r := by
  have hpoint : ∀ c ∈ r.kind.letters.toList ++ r.digits, (c != '.') = true := by
    intro c hc
    refine bne_iff_ne.mpr fun heq => ?_
    have halphanum := isAlphanum_of_mem hc
    rw [heq] at halphanum
    exact absurd halphanum (by decide)
  unfold ofName?
  rw [Text.strip_of_no_blank fun c => not_isBlank_of_mem_name, toList_name]
  have hwhole := whole?_toList h
  cases hcomponent : r.component with
  | none =>
    show ofChars? (r.kind.letters.toList ++ r.digits ++ []) = some r
    rw [List.append_nil, ofChars?_whole hpoint, hwhole, base, ← hcomponent]
  | some component =>
    show ofChars? (r.kind.letters.toList ++ r.digits ++ ['.', component.letter]) = some r
    rw [ofChars?_only hpoint component.ofLetter?_letter, hwhole, Option.map_some, base, only,
      ← hcomponent]

/-- A register that is read can be named. -/
theorem nameable_of_ofName? {s : String} {r : Register} (h : ofName? s = some r) : r.Nameable := by
  unfold ofName? ofChars? at h
  split at h
  · exact (nameable_of_whole? h).1
  · obtain ⟨component, -, hnamed⟩ := Option.bind_eq_some_iff.mp h
    obtain ⟨whole, hwhole, rfl⟩ := Option.map_eq_some_iff.mp hnamed
    obtain ⟨hindex, houtput⟩ := (nameable_of_whole? hwhole).1
    exact ⟨hindex, houtput⟩
  · cases h

theorem ofName_eq_ok {s : String} {r : Register} : ofName s = .ok r ↔ ofName? s = some r := by
  unfold ofName
  cases ofName? s <;> simp

/-- A text that names no register is reported as it is. -/
theorem ofName_eq_error {text : String} {fault : Fault} (h : ofName text = .error fault) :
    fault = .invalidRegister (.unreadable text) := by
  unfold ofName at h
  split at h
  · cases h
  · exact (Except.error.inj h).symm

/-- Texts are read one by one. -/
theorem of_mapM_ofName {names : List String} {registers : List Register}
    (h : names.mapM ofName = .ok registers) :
    registers.length = names.length ∧ ∀ r ∈ registers, ∃ name ∈ names, ofName name = .ok r := by
  induction names generalizing registers with
  | nil =>
    cases h
    exact ⟨rfl, List.forall_mem_nil _⟩
  | cons name names ih =>
    simp only [List.mapM_cons, Outcome.bind_eq_ok, Outcome.pure_eq_ok] at h
    obtain ⟨first, hfirst, others, hothers, rfl⟩ := h
    obtain ⟨hlength, hread⟩ := ih hothers
    refine ⟨congrArg (· + 1) hlength, List.forall_mem_cons.mpr
      ⟨⟨name, List.mem_cons_self, hfirst⟩, fun r hr => ?_⟩⟩
    obtain ⟨other, hother, hr⟩ := hread r hr
    exact ⟨other, List.mem_cons_of_mem _ hother, hr⟩

/-- One of several texts that names no register is reported. -/
theorem exists_of_mapM_ofName {names : List String} {fault : Fault}
    (h : names.mapM ofName = .error fault) :
    ∃ name ∈ names, fault = .invalidRegister (.unreadable name) := by
  induction names with
  | nil => cases h
  | cons name names ih =>
    rw [List.mapM_cons] at h
    rcases Outcome.bind_eq_error.mp h with hname | ⟨r, -, hothers⟩
    · exact ⟨name, List.mem_cons_self, ofName_eq_error hname⟩
    · rcases Outcome.bind_eq_error.mp hothers with hnames | ⟨_, -, hlast⟩
      · obtain ⟨other, hother, rfl⟩ := ih hnames
        exact ⟨other, List.mem_cons_of_mem _ hother, rfl⟩
      · cases hlast

/-- **Names**: a register that can be named is read from its name; every register that is read
from some text is read from its name as well, so this is one text for all that name the register,
and it is not the name of another one. -/
theorem names_spec :
    (∀ r : Register, r.Nameable → ofName r.name = .ok r) ∧
    (∀ s r, ofName s = .ok r → r.Nameable ∧ ofName r.name = .ok r) ∧
    ∀ s s' r r', ofName s = .ok r → ofName s' = .ok r' → r.name = r'.name → r = r' := by
  have hname : ∀ r : Register, r.Nameable → ofName r.name = .ok r := fun _ h =>
    ofName_eq_ok.mpr (ofName?_name h)
  have hread : ∀ s r, ofName s = .ok r → r.Nameable ∧ ofName r.name = .ok r := by
    intro s r h
    have hnameable := nameable_of_ofName? (ofName_eq_ok.mp h)
    exact ⟨hnameable, hname r hnameable⟩
  refine ⟨hname, hread, fun s s' r r' h h' hsame => ?_⟩
  have hboth : (.ok r : Except Fault Register) = .ok r' :=
    calc
      .ok r = ofName r.name := (hread s r h).2.symm
      _ = ofName r'.name := by rw [hsame]
      _ = .ok r' := (hread s' r' h').2
  exact Except.ok.inj hboth

/-- One spelling of a component of a varying, and its name. -/
theorem spelled_names : ofName "  v+07.g\n" = .ok (⟨.varying, 7, none⟩ : Register).y ∧
    (⟨.varying, 7, none⟩ : Register).y.name = "v7.y" ∧
    ofName "v7.y" = .ok (⟨.varying, 7, none⟩ : Register).y := by
  have hspelled : ofName "  v+07.g\n" = .ok (⟨.varying, 7, none⟩ : Register).y := by
    exact ofName_eq_ok.mpr (by decide +kernel)
  exact ⟨hspelled, by decide +kernel, (names_spec.2.1 _ _ hspelled).2⟩

end ParticleShader.Register
