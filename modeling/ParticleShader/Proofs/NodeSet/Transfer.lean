import ParticleShader.Proofs.Node.Quantities
import ParticleShader.Proofs.NodeSet.Sequence
import ParticleShader.Proofs.NodeSet.Streams

/-!
# What is written is read

The records of a set are filled by the formulas of its nodes, and read through the streams
that their code has bound. In between lies a whole compilation. Wherever code was written for
a node that keeps its parameters for every particle, its streams are all of its slice of the
record, each value once, and the operands of the code read the values that were written for
them: **`transfer_spec`**.

A parameter of a node is entered once, so what other nodes take before or behind it changes
neither the register that is remembered for it nor the stream of that register.
-/

namespace ParticleShader

variable {α : Type}

open Compile Compilation

/-- The places of a record that a stream reads. -/
def StreamBinding.interval (b : StreamBinding) : List Nat := List.range' b.offset b.components

namespace Compilation

/-- The streams of a node. -/
def streamsOf (c : Compilation α) (id : NodeId) : List StreamBinding :=
  c.bindings.filter (·.node = id)

/-- What an operand reads of a record of a buffer, if its register is bound to that buffer. -/
def fetch (c : Compilation α) (buffer : Buffer) (record : List α) (o : Operand) :
    Option (List α) :=
  (c.bindings.find? (·.register = o.index)).bind fun b =>
    if o.kind = .vertexAttribute ∧ b.buffer = buffer then
      o.components.mapM (component? record b.offset b.components)
    else none

end Compilation

/-! ### The streams of a node -/

/-- What a stream reads of a slice it reads of the record at the place of the slice. -/
theorem component?_slice {record : List α} {offset length start components : Nat}
    (h : start + components ≤ length) :
    component? (slice record offset length) start components =
      component? record (offset + start) components := by
  funext k
  unfold component? slice
  split <;> rename_i hk
  · rw [List.getElem?_take_of_lt (by omega), List.getElem?_drop, Nat.add_assoc]
  · rfl

/-- Streams that are the places from `start` on, one behind the other. -/
structure Tiles (streams : List StreamBinding) (start length : Nat) : Prop where
  /-- No two of them read the same place. -/
  disjoint : streams.Pairwise fun b b' => b.interval.Disjoint b'.interval
  /-- Together they read these places and no others. -/
  union : ∀ i, (∃ b ∈ streams, i ∈ b.interval) ↔ start ≤ i ∧ i < start + length

theorem tiles_of_flatMap {streams : List StreamBinding} {start length : Nat}
    (h : streams.flatMap StreamBinding.interval = List.range' start length) :
    Tiles streams start length := by
  have hnodup : (streams.flatMap StreamBinding.interval).Nodup := h ▸ List.nodup_range'
  refine ⟨(List.nodup_flatMap.mp hnodup).2, fun i => ?_⟩
  rw [← List.mem_flatMap, h, List.mem_range'_1]

namespace Ledger

variable {l : Ledger} {n : Node α} {buffer : Buffer} {base : Nat} {needs : List (Node α × Need)}

/-- The streams of a node are those of its own needs, in their order. -/
theorem intervals_takeAll (hbase : streamBase n.info = (buffer, base))
    (hown : ∀ need ∈ needs, need.1.id = n.id → need.1 = n) :
    ((l.takeAll needs).bindings.filter (·.node = n.id)).flatMap StreamBinding.interval =
      (l.bindings.filter (·.node = n.id)).flatMap StreamBinding.interval ++
        ((needs.filter (·.1.id = n.id)).filterMap (·.2.window?)).flatMap
          fun w => List.range' (base + w.start) w.components := by
  induction needs generalizing l with
  | nil => simp [takeAll]
  | cons first needs ih =>
    obtain ⟨m, need⟩ := first
    obtain ⟨hfirst, hrest⟩ := List.forall_mem_cons.mp hown
    rw [takeAll_cons, ih hrest]
    cases need with
    | constants slot count => by_cases hid : m.id = n.id <;> simp [take, hid, Need.window?]
    | stream slot start components =>
      by_cases hid : m.id = n.id
      · obtain rfl := hfirst hid
        simp [take, Need.window?, StreamBinding.interval, hbase]
      · simp [take, hid]

theorem bindings_subset_takeAll (l : Ledger) (needs : List (Node α × Need)) :
    l.bindings ⊆ (l.takeAll needs).bindings := by
  induction needs generalizing l with
  | nil => exact fun _ h => h
  | cons first needs ih =>
    refine List.Subset.trans ?_ (ih (l.take first.1 first.2))
    cases first.2 with
    | constants slot count => exact fun _ h => h
    | stream slot start components => exact List.subset_append_left _ _

/-- A stream that was needed is bound to the register that is remembered for it. -/
theorem exists_stream_takeAll (hnodup : (needs.map Need.key).Nodup)
    {slot start components : Nat} (hneed : (n, .stream slot start components) ∈ needs) :
    ∃ b ∈ (l.takeAll needs).bindings,
      (l.takeAll needs).indices.lookup (n.id, slot) = some b.register ∧
      Enters n b (.stream slot start components) := by
  induction needs generalizing l with
  | nil => exact absurd hneed List.not_mem_nil
  | cons first needs ih =>
    rw [List.map_cons, List.nodup_cons] at hnodup
    rcases List.mem_cons.mp hneed with rfl | hrest
    · refine ⟨_, bindings_subset_takeAll _ needs
          (List.mem_append_right _ (List.mem_singleton_self _)),
        (lookup_takeAll_of_notMem hnodup.1).trans List.lookup_cons_self, rfl, rfl, rfl, rfl⟩
    · exact ih hnodup.2 hrest

end Ledger

/-! ### What other nodes take -/

namespace Compilation

variable {c c' c'' : Compilation α} {n : Node α} {needs : List (Node α × Need)}

/-- Between two states of a compilation nothing was taken for a node. -/
structure PassesOver (n : Node α) (c c' : Compilation α) : Prop where
  /-- Other nodes may have taken what they need. -/
  ledger : ∃ needs : List (Node α × Need), c'.ledger = c.ledger.takeAll needs ∧
    ∀ need ∈ needs, need.1.id ≠ n.id
  /-- The shared registers stay. -/
  shared : c'.shared = c.shared
  /-- The same features are on. -/
  features : c'.features = c.features

namespace PassesOver

theorem of_eq (hledger : c'.ledger = c.ledger) (hshared : c'.shared = c.shared)
    (hfeatures : c'.features = c.features) : PassesOver n c c' :=
  ⟨⟨[], hledger, nofun⟩, hshared, hfeatures⟩

theorem enter (c : Compilation α) (phase : Phase) : PassesOver n c { c with phase } :=
  .of_eq rfl rfl rfl

theorem trans (h : PassesOver n c c') (h' : PassesOver n c' c'') : PassesOver n c c'' := by
  obtain ⟨needs, hledger, hother⟩ := h.ledger
  obtain ⟨needs', hledger', hother'⟩ := h'.ledger
  refine ⟨⟨needs ++ needs', ?_, List.forall_mem_append.mpr ⟨hother, hother'⟩⟩,
    h'.shared.trans h.shared, h'.features.trans h.features⟩
  rw [hledger', hledger, Ledger.takeAll_append]

theorem operand_eq (h : PassesOver n c c') : c'.operand n = c.operand n := by
  obtain ⟨needs, hledger, hother⟩ := h.ledger
  refine funext fun q => operand_takeAll hledger fun hmem => ?_
  obtain ⟨need, hneed, hkey⟩ := List.mem_map.mp hmem
  exact hother need hneed (congrArg Prod.fst hkey)

end PassesOver

theorem Records.passesOver (h : c.Records c' needs) (hother : ∀ need ∈ needs, need.1.id ≠ n.id) :
    PassesOver n c c' :=
  ⟨⟨needs, h.ledger, hother⟩, by rw [h.frame], h.features⟩

end Compilation

namespace NodeSet

/-- The nodes of a vertex program with their code. -/
def Sequence.pieces (q : Sequence α) : List (Node α × Program) := q.primary ++ q.post ++ q.color

variable {s : NodeSet α} {c c' : Compilation α} {n : Node α} {pieces : List (Node α × Program)}
  {piece : Node α × Program} {code : Node α → Compile α Program} {p : Program}

theorem passesOver_accumulator {wanted : Features → Bool} {start : Register}
    {putTarget putVarying : Register → ColorRegisters → ColorRegisters}
    (h : Leads (accumulator wanted start putTarget putVarying) c p c') : PassesOver n c c' := by
  rw [leads_accumulator] at h
  split at h
  · obtain ⟨_, _, -, -, -, rfl⟩ := h
    exact .of_eq rfl rfl rfl
  · obtain ⟨-, rfl⟩ := h
    exact .of_eq rfl rfl rfl

theorem passesOver_initColor (h : Leads initColor c p c') : PassesOver n c c' := by
  obtain ⟨shared, -, h⟩ := leads_initColor.mp h
  split at h
  · obtain ⟨_, _, _, hmultiplier, hoffset, -⟩ := h
    exact (passesOver_accumulator hmultiplier).trans (passesOver_accumulator hoffset)
  · obtain ⟨-, rfl⟩ := h
    exact .of_eq rfl rfl rfl

/-- A piece of code was written somewhere, and other code behind it. -/
theorem Writes.exists_step (h : Writes code c pieces c') (hpiece : piece ∈ pieces) :
    ∃ before after d d', pieces = before ++ piece :: after ∧ Leads (code piece.1) d piece.2 d' ∧
      Writes code d' after c' := by
  induction pieces generalizing c with
  | nil => exact absurd hpiece List.not_mem_nil
  | cons first pieces ih =>
    obtain ⟨c₁, hfirst, hothers⟩ := h
    rcases List.mem_cons.mp hpiece with rfl | hrest
    · exact ⟨[], pieces, c, c₁, rfl, hfirst, hothers⟩
    · obtain ⟨before, after, d, d', rfl, hcode, hlater⟩ := ih hothers hrest
      exact ⟨first :: before, after, d, d', rfl, hcode, hlater⟩

section

variable (own : Features → Node α → List (Node α × Need))

/-- Code of nodes that take nothing for a node passes over it. -/
theorem Writes.passesOver
    (hrecords : ∀ m ∈ pieces.map Prod.fst, ∀ {c c' : Compilation α} {p}, Leads (code m) c p c' →
      c.Records c' (own c.features m))
    (hother : ∀ m ∈ pieces.map Prod.fst, ∀ need ∈ own c.features m, need.1.id ≠ n.id)
    (h : Writes code c pieces c') : PassesOver n c c' := by
  refine (records_gather hrecords (leads_gather.mpr ⟨pieces, rfl, rfl, h⟩)).passesOver
    fun need hneed => ?_
  obtain ⟨m, hm, hneed⟩ := List.mem_flatMap.mp hneed
  exact hother m hm need hneed

variable (hown : ∀ f m, ∀ need ∈ own f m, need.1 = m)

include hown

/-- Code of other nodes passes over a node. -/
theorem Writes.passesOver_others
    (hrecords : ∀ m ∈ pieces.map Prod.fst, ∀ {c c' : Compilation α} {p}, Leads (code m) c p c' →
      c.Records c' (own c.features m))
    (hids : n.id ∉ pieces.map (·.1.id)) (h : Writes code c pieces c') : PassesOver n c c' := by
  refine h.passesOver own hrecords fun m hm need hneed hid => ?_
  obtain ⟨piece, hpiece, rfl⟩ := List.mem_map.mp hm
  exact hids (List.mem_map.mpr ⟨piece, hpiece, hown _ _ need hneed ▸ hid⟩)

/-- The code of a node among others was written somewhere, and behind it nothing was taken for
the node. -/
theorem Writes.exists_passed
    (hrecords : ∀ m ∈ pieces.map Prod.fst, ∀ {c c' : Compilation α} {p}, Leads (code m) c p c' →
      c.Records c' (own c.features m))
    (hnodup : (pieces.map (·.1.id)).Nodup) (h : Writes code c pieces c') (hpiece : piece ∈ pieces) :
    ∃ d d', Leads (code piece.1) d piece.2 d' ∧ d.Records d' (own d.features piece.1) ∧
      PassesOver piece.1 d' c' := by
  obtain ⟨before, after, d, d', rfl, hcode, hlater⟩ := h.exists_step hpiece
  rw [List.map_append, List.map_cons, List.nodup_middle, List.nodup_cons, List.mem_append,
    not_or] at hnodup
  refine ⟨d, d', hcode, hrecords piece.1 (List.mem_map_of_mem hpiece) hcode,
    hlater.passesOver_others own hown (fun m hm => hrecords m ?_) hnodup.1.2⟩
  rw [List.map_append]
  exact List.mem_append_right _ (List.mem_cons_of_mem _ hm)

end

theorem fst_of_mem_vertexNeeds (f : Features) (m : Node α) :
    ∀ need ∈ Node.vertexNeeds f m, need.1 = m :=
  List.forall_mem_map.mpr fun _ _ => rfl

theorem fst_of_mem_uvNeeds [Scalar α] (f : Features) (m : Node α) :
    ∀ need ∈ Node.uvNeeds f m, need.1 = m :=
  List.forall_mem_map.mpr fun _ _ => rfl

/-- **The code of a node in a vertex program**: it was written somewhere, and from there to the
end nothing more was taken for the node. -/
theorem Sequence.Written.exists_vertexCode {q : Sequence α} (h : q.Written c c')
    (hcatalogue : ∀ m ∈ q.nodes, m.behavior.IsCatalogue) (hnodup : (q.pieces.map (·.1.id)).Nodup)
    (hpiece : piece ∈ q.pieces) :
    ∃ d d', Leads piece.1.vertexCode d piece.2 d' ∧
      d.Records d' (Node.vertexNeeds d.features piece.1) ∧ PassesOver piece.1 d' c' := by
  obtain ⟨c₁, c₂, c₃, c₄, c₅, c₆, -, hwrites₂, hplacement, hwrites₄, hcolorStart, hwrites₆,
    rfl, -⟩ := h
  have hplaced : PassesOver piece.1 c₂ { c₃ with phase := .post } := by
    obtain ⟨_, -, -, rfl⟩ := leads_combineCode.mp hplacement
    exact (PassesOver.enter c₂ .combine).trans (.enter _ .post)
  have hprepared : PassesOver piece.1 c₄ { c₅ with phase := .color } :=
    ((PassesOver.enter c₄ .colorInit).trans (passesOver_initColor hcolorStart)).trans
      (.enter c₅ .color)
  have hended : PassesOver piece.1 c₆ { c₆ with phase := .colorCombine } := .enter c₆ _
  have hrecords : ∀ m ∈ q.nodes, ∀ {c c' : Compilation α} {p}, Leads m.vertexCode c p c' →
      c.Records c' (m.vertexNeeds c.features) := fun m hm =>
    Node.records_vertexCode (hcatalogue m hm)
  simp only [nodes, List.map_append, List.forall_mem_append] at hrecords
  obtain ⟨⟨hprimary, hpost⟩, hcolor⟩ := hrecords
  simp only [Sequence.pieces, List.map_append, List.nodup_append'] at hnodup
  obtain ⟨⟨hnodup₂, hnodup₄, hapart₄⟩, hnodup₆, hapart₆⟩ := hnodup
  have hid : ∀ {pieces : List (Node α × Program)}, piece ∈ pieces →
      piece.1.id ∈ pieces.map (·.1.id) := fun hmem => List.mem_map.mpr ⟨piece, hmem, rfl⟩
  simp only [Sequence.pieces, List.mem_append] at hpiece
  rcases hpiece with (hmem | hmem) | hmem
  · obtain ⟨d, d', hcode, hown, hlater⟩ := hwrites₂.exists_passed Node.vertexNeeds
      fst_of_mem_vertexNeeds hprimary hnodup₂ hmem
    have hbehind := hwrites₄.passesOver_others Node.vertexNeeds fst_of_mem_vertexNeeds hpost
      fun h => hapart₄ (hid hmem) h
    have hbehind' := hwrites₆.passesOver_others Node.vertexNeeds fst_of_mem_vertexNeeds hcolor
      fun h => hapart₆ (List.mem_append_left _ (hid hmem)) h
    exact ⟨d, d', hcode, hown, ((((hlater.trans hplaced).trans hbehind).trans hprepared).trans
      hbehind').trans hended⟩
  · obtain ⟨d, d', hcode, hown, hlater⟩ := hwrites₄.exists_passed Node.vertexNeeds
      fst_of_mem_vertexNeeds hpost hnodup₄ hmem
    have hbehind := hwrites₆.passesOver_others Node.vertexNeeds fst_of_mem_vertexNeeds hcolor
      fun h => hapart₆ (List.mem_append_right _ (hid hmem)) h
    exact ⟨d, d', hcode, hown, ((hlater.trans hprepared).trans hbehind).trans hended⟩
  · obtain ⟨d, d', hcode, hown, hlater⟩ := hwrites₆.exists_passed Node.vertexNeeds
      fst_of_mem_vertexNeeds hcolor hnodup₆ hmem
    exact ⟨d, d', hcode, hown, hlater.trans hended⟩

/-! ### Texture code -/

section

variable [Scalar α] {calls : List (String × String)} {codes : List Program}

/-- Texture codes that were asked for, one after the other. Where a node animates the texture
the first request writes the code and the others are given the same; elsewhere each of them is
given a copy. -/
inductive TextureCodes (s : NodeSet α) (c : Compilation α) :
    List (Node α × Program) → List Program → Compilation α → Prop where
  | copies {codes : List Program}
    (hcopies : ∀ q ∈ codes, ∃ source target : Register, q = [Statement.mov target source]) :
    TextureCodes s c [] codes c
  | written {source target : String} {uv : UvRegisters} {pieces : List (Node α × Program)}
    {c₁ : Compilation α} {q : Program} {codes : List Program}
    (hon : c.features.uvNode = true)
    (huv : Leads (setUv source target) c uv { c with uv := some uv })
    (hwrites : Writes Node.uvCode { c with uv := some uv } pieces c₁)
    (hnodes : pieces.map Prod.fst = s.nodes)
    (hcode : q = Statement.mov uv.working.xy uv.source :: pieces.flatMap Prod.snd ++
      [Statement.mov uv.target uv.working.xy])
    (hsame : ∀ q' ∈ codes, q' = q) :
    TextureCodes s c pieces codes { c₁ with uvCode := some q }

theorem exists_textureCodes (hcatalogue : ∀ n ∈ s.nodes, n.behavior.IsCatalogue) (hactive : c.isActive = true) (hphase : c.phase ≠ .done)
    (huv : c.uv = none) (h : Leads (s.uvCodes calls) c codes c') :
    ∃ texture, s.TextureCodes c texture codes c' ∧ (texture ≠ [] → calls ≠ []) := by
  induction calls generalizing codes with
  | nil =>
    obtain ⟨rfl, rfl⟩ := leads_result.mp h
    exact ⟨[], .copies nofun, fun hne => absurd rfl hne⟩
  | cons call calls ih =>
    simp only [NodeSet.uvCodes, leads_bind, leads_pure] at h
    obtain ⟨first, c₁, hfirst, others, c₂, hothers, rfl, rfl⟩ := h
    rw [leads_uvCode hactive hphase huv] at hfirst
    cases hon : c.features.uvNode with
    | true =>
      obtain ⟨uv, pieces, c₃, hset, hwrites, hnodes, hcode, rfl⟩ :=
        writesTexture_of_writeUvCode hon hfirst
      have hleaves : ∀ n ∈ pieces.map Prod.fst, LeavesTexture n.uvCode := fun n hn =>
        leavesTexture_of_isCatalogue (hcatalogue n (hnodes ▸ hn))
      obtain ⟨hsame, rfl⟩ := stays_uvCodes (c := { c₃ with uvCode := some first })
        (hwrites.sameTexture hleaves).uv rfl hothers
      exact ⟨pieces, .written hon hset hwrites hnodes hcode
        (List.forall_mem_cons.mpr ⟨rfl, hsame⟩), fun _ => List.cons_ne_nil _ _⟩
    | false =>
      unfold NodeSet.writeUvCode at hfirst
      rw [leads_has_bind, hon, if_neg Bool.false_ne_true] at hfirst
      simp only [leads_bind, leads_ofOutcome, leads_pure] at hfirst
      obtain ⟨source, _, ⟨-, rfl⟩, target, _, ⟨-, rfl⟩, rfl, rfl⟩ := hfirst
      obtain ⟨texture, hcodes, -⟩ := ih hothers
      cases hcodes with
      | copies hcopies =>
        exact ⟨[], .copies (List.forall_mem_cons.mpr ⟨⟨source, target, rfl⟩, hcopies⟩),
          fun hne => absurd rfl hne⟩
      | written hon' => exact absurd (hon.symm.trans hon') Bool.false_ne_true

/-- **The code of a node in texture code.** -/
theorem TextureCodes.exists_uvCode {texture : List (Node α × Program)}
    (hs : s.Built) (h : s.TextureCodes c texture codes c') (hpiece : piece ∈ texture) :
    c.features.uvNode = true ∧ piece.1 ∈ s.nodes ∧
      ∃ d d', Leads piece.1.uvCode d piece.2 d' ∧ d.Records d' (Node.uvNeeds d.features piece.1) ∧
        PassesOver piece.1 d' c' := by
  cases h with
  | copies hcopies => exact absurd hpiece List.not_mem_nil
  | written hon huv hwrites hnodes hcode hsame =>
    have hnodup := hs.nodup_ids
    have hcatalogue := hs.isCatalogue
    rw [← hnodes, List.map_map] at hnodup
    rw [← hnodes] at hcatalogue
    obtain ⟨d, d', hcode, hown, hlater⟩ := hwrites.exists_passed Node.uvNeeds fst_of_mem_uvNeeds
      (fun m hm => Node.records_uvCode (hcatalogue m hm)) hnodup hpiece
    exact ⟨hon, hnodes ▸ List.mem_map_of_mem hpiece, d, d', hcode, hown,
      hlater.trans (.of_eq rfl rfl rfl)⟩

/-- Texture code takes nothing for nodes that do not animate the texture. -/
theorem TextureCodes.passesOver {texture : List (Node α × Program)} (hs : s.Built)
    (h : s.TextureCodes c texture codes c') (hn : n ∈ s.nodes)
    (hnone : n.behavior.uvNeeds c.features = []) : PassesOver n c c' := by
  cases h with
  | copies hcopies => exact .of_eq rfl rfl rfl
  | written hon huv hwrites hnodes hcode hsame =>
    have hcatalogue := hs.isCatalogue
    rw [← hnodes] at hcatalogue
    have hothers := hwrites.passesOver Node.uvNeeds (n := n)
      (fun m hm => Node.records_uvCode (hcatalogue m hm)) fun m hm need hneed hid => ?_
    · refine (PassesOver.trans ?_ hothers).trans ?_ <;> exact .of_eq rfl rfl rfl
    · rw [hnodes] at hm
      have hsame := fst_of_mem_uvNeeds _ _ need hneed
      obtain rfl := hs.eq_of_id hm hn (hsame ▸ hid)
      rw [Node.uvNeeds, hnone] at hneed
      exact absurd hneed List.not_mem_nil

end

/-! ### The streams of a node of a set -/

/-- What is taken for a node among others is what it takes itself. -/
theorem filter_flatMap_own (own : Node α → List Need) {nodes : List (Node α)}
    (hnodup : (nodes.map (·.id)).Nodup) (hn : n ∈ nodes) :
    (nodes.flatMap fun m => (own m).map (m, ·)).filter (·.1.id = n.id) = (own n).map (n, ·) := by
  induction nodes with
  | nil => exact absurd hn List.not_mem_nil
  | cons m nodes ih =>
    rw [List.map_cons, List.nodup_cons] at hnodup
    rw [List.flatMap_cons, List.filter_append]
    rcases List.mem_cons.mp hn with rfl | hn
    · have hothers : (nodes.flatMap fun m => (own m).map (m, ·)).filter (·.1.id = n.id) = [] := by
        refine List.filter_eq_nil_iff.mpr fun need hneed hid => hnodup.1 ?_
        obtain ⟨m, hm, hneed⟩ := List.mem_flatMap.mp hneed
        obtain ⟨_, -, rfl⟩ := List.mem_map.mp hneed
        exact List.mem_map.mpr ⟨m, hm, of_decide_eq_true hid⟩
      rw [hothers, List.append_nil]
      exact List.filter_eq_self.mpr (List.forall_mem_map.mpr fun _ _ => decide_eq_true rfl)
    · have hid : m.id ≠ n.id := fun hid => hnodup.1 (List.mem_map.mpr ⟨n, hn, hid.symm⟩)
      have hfirst : ((own m).map (m, ·)).filter (·.1.id = n.id) = [] :=
        List.filter_eq_nil_iff.mpr (List.forall_mem_map.mpr fun _ _ => by simpa using hid)
      rw [hfirst, List.nil_append, ih hnodup.2 hn]

section

variable [Scalar α] {f : Features} {asked : Bool} {pass : Pass} {buffer : Buffer}

/-- The needs of a set, those of the texture code if it was asked for. -/
def needsFor (s : NodeSet α) (f : Features) (asked : Bool) : List (Node α × Need) :=
  s.vertexNeeds f ++ if asked then s.uvNeeds f else []

theorem Built.vertexNeeds_eq (h : s.Built) (f : Features) :
    s.vertexNeeds f = s.nodes.flatMap (Node.vertexNeeds f) := by
  conv_rhs => rw [← h.grown.joined.blocks]
  simp [vertexNeeds]

/-- A node takes its own needs, and no other node takes any for it. -/
theorem Built.filter_needsFor (h : s.Built) (hn : n ∈ s.nodes) (f : Features) (asked : Bool) :
    (s.needsFor f asked).filter (·.1.id = n.id) = (n.behavior.taken f asked).map (n, ·) := by
  have hvertex := filter_flatMap_own (fun m => m.behavior.vertexNeeds f) h.nodup_ids hn
  have huv := filter_flatMap_own (fun m => m.behavior.uvNeeds f) h.nodup_ids hn
  unfold needsFor Behavior.taken
  rw [List.filter_append, h.vertexNeeds_eq, List.map_append]
  refine congrArg₂ _ hvertex ?_
  cases asked with
  | true => exact huv
  | false => rfl

/-- The needs of a set are those of its nodes. -/
theorem mem_of_mem_needsFor {need : Node α × Need} (h : need ∈ s.needsFor f asked) :
    need.1 ∈ s.nodes ∧ need.2 ∈ need.1.behavior.taken f asked := by
  obtain ⟨m, need⟩ := need
  unfold Behavior.taken
  rcases List.mem_append.mp h with hneed | hneed
  · obtain ⟨hm, hneed⟩ := mem_vertexNeeds.mp hneed
    exact ⟨hm, List.mem_append_left _ hneed⟩
  · cases asked with
    | true =>
      obtain ⟨hm, hneed⟩ := mem_uvNeeds.mp hneed
      exact ⟨hm, List.mem_append_right _ hneed⟩
    | false => exact absurd hneed List.not_mem_nil

theorem Built.nodup_needsFor (h : s.Built) (f : Features) (asked : Bool) :
    ((s.needsFor f asked).map Need.key).Nodup := by
  cases asked with
  | true => exact h.nodup_needs f
  | false =>
    have hall := h.nodup_needs f
    rw [List.map_append] at hall
    rw [needsFor, if_neg Bool.false_ne_true, List.append_nil]
    exact (List.nodup_append'.mp hall).1

/-- **The streams of a node** are its whole slice, each value once. -/
theorem Built.tiles (h : s.Built) (hc : s.Compiled pass (s.needsFor f asked) c) (hn : n ∈ s.nodes)
    (hmode : n.behavior.mode = .perParticle buffer) (hwritten : n.behavior.IsWritten f asked) :
    Tiles (c.streamsOf n.id) (n.offsetIn buffer) n.behavior.length := by
  have hbindings : c.bindings = ((Ledger.opened pass).takeAll (s.needsFor f asked)).bindings :=
    congrArg Ledger.bindings hc.ledger
  have hown : ∀ need ∈ s.needsFor f asked, need.1.id = n.id → need.1 = n := fun need hneed hid =>
    h.eq_of_id (mem_of_mem_needsFor hneed).1 hn hid
  refine tiles_of_flatMap ?_
  rw [streamsOf, hbindings, Ledger.intervals_takeAll (streamBase_of_mode hmode) hown,
    h.filter_needsFor hn, List.filterMap_map]
  show [] ++ _ = _
  rw [List.nil_append, ← Behavior.flatMap_windows (h.isCatalogue n hn) hmode,
    ← Behavior.windows_taken hmode hwritten]
  rfl

/-- The streams of a node read the buffer that it is kept in. -/
theorem Built.buffer_of_mem (h : s.Built) (hc : s.Compiled pass (s.needsFor f asked) c)
    (hn : n ∈ s.nodes) (hmode : n.behavior.mode = .perParticle buffer) :
    ∀ b ∈ c.streamsOf n.id, b.buffer = buffer := by
  intro b hb
  obtain ⟨hb, hnode⟩ := List.mem_filter.mp hb
  obtain ⟨m, -, hreads⟩ := h.reads_of_mem hc (fun m need hneed =>
    ⟨(mem_of_mem_needsFor hneed).1, Behavior.serves_taken (mem_of_mem_needsFor hneed).2⟩) hb
  have hfound := hreads.node
  rw [of_decide_eq_true hnode, h.node?_id hn] at hfound
  obtain rfl := Option.some.inj hfound
  exact Mode.perParticle.inj (hreads.mode.symm.trans hmode)

/-- The register of a parameter is bound to its window, which lies in the slice of the node. -/
theorem Built.exists_stream (h : s.Built) (hc : s.Compiled pass (s.needsFor f asked) c)
    (hn : n ∈ s.nodes) (hmode : n.behavior.mode = .perParticle buffer)
    (hwritten : n.behavior.IsWritten f asked) {w : Window} (hw : w ∈ n.behavior.windows) :
    w.start + w.components ≤ n.behavior.length ∧
    ∃ b ∈ c.streamsOf n.id, c.index? n.id w.slot = some b.register ∧
      b.offset = n.offsetIn buffer + w.start ∧ b.components = w.components := by
  rw [← Behavior.windows_taken hmode hwritten] at hw
  obtain ⟨need, hneed, hwindow⟩ := List.mem_filterMap.mp hw
  cases need with
  | constants slot count => cases hwindow
  | stream slot start components =>
    obtain rfl := Option.some.inj hwindow
    have hmem : (n, .stream slot start components) ∈ s.needsFor f asked := by
      refine List.mem_of_mem_filter (p := (·.1.id = n.id)) ?_
      rw [h.filter_needsFor hn]
      exact List.mem_map_of_mem hneed
    obtain ⟨b, hb, hindex, hnode, -, hoffset, hcomponents⟩ :=
      Ledger.exists_stream_takeAll (l := Ledger.opened pass) (h.nodup_needsFor f asked) hmem
    rw [← hc.ledger] at hb hindex
    rw [streamBase_of_mode hmode] at hoffset
    exact ⟨(Behavior.serves_taken hneed).2, b, List.mem_filter.mpr ⟨hb, decide_eq_true hnode⟩,
      hindex, hoffset, hcomponents⟩

omit [Scalar α] in
/-- A register is bound to one stream. -/
theorem Compiled.find?_register {needs : List (Node α × Need)} (hc : s.Compiled pass needs c)
    {b : StreamBinding} (hb : b ∈ c.bindings) :
    c.bindings.find? (·.register = b.register) = some b := by
  have hnodup : (c.bindings.map (·.register)).Nodup := by
    rw [hc.registers.2]
    exact List.nodup_range'
  exact find?_of_nodup_map hnodup hb

/-- **The code reads what the formulas write**: in the record of a particle, the operand of a
quantity finds the values that were written for it. -/
theorem Built.fetch_kept (h : s.Built) (hc : s.Compiled pass (s.needsFor f asked) c)
    (hn : n ∈ s.nodes) (hmode : n.behavior.mode = .perParticle .baked)
    (hwritten : n.behavior.IsWritten f asked) {p : Particle α} {row : List α}
    (hrow : Animation.record (s.nodesIn .baked) s.stride p = .ok row) :
    n.behavior.values p = .ok ((n.behavior.kept p).flatMap Prod.snd) ∧
      ∀ entry ∈ n.behavior.kept p, c.fetch .baked row (c.operand n entry.1) = some entry.2 := by
  have hholds := (Animation.record_eq_ok h hrow).2 n (mem_nodesIn.mpr ⟨hn, hmode⟩)
  have hslice := Behavior.values_eq_kept (h.isCatalogue n hn) hholds
  refine ⟨hslice ▸ hholds, fun entry hentry => ?_⟩
  obtain ⟨w, hw, hslot, hshown⟩ := Behavior.shown_kept n.behavior p entry hentry
  obtain ⟨hinside, b, hb, hindex, hoffset, hcomponents⟩ := h.exists_stream hc hn hmode hwritten hw
  have hregister : (c.operand n entry.1).index = b.register := by
    rw [operand, ← hslot, hindex]
    rfl
  have hfound := hc.find?_register (List.mem_filter.mp hb).1
  have hoffset : b.offset = n.offset + w.start := hoffset
  rw [← hslice, component?_slice hinside, ← hoffset, ← hcomponents] at hshown
  rw [fetch, hregister, hfound, Option.bind_some,
    if_pos ⟨rfl, h.buffer_of_mem hc hn hmode b hb⟩]
  exact hshown

end

/-! ### From the record into the code -/

section

variable [Scalar α] {f : Features} {asked : Bool} {pass : Pass} {profile : Profile}
  {sourceNames targetNames : List String} {c₁ c₂ : Compilation α} {buffer : Buffer}
  {calls : List (String × String)} {codes : List Program}

/-- What code reads of a node that keeps its parameters for every particle is what is written
for it. -/
structure Transfers (s : NodeSet α) (c : Compilation α) (n : Node α) (buffer : Buffer)
    (code : Program) : Prop where
  /-- The streams of the node read the buffer that it is kept in. -/
  kept : ∀ b ∈ c.streamsOf n.id, b.buffer = buffer
  /-- They are its whole slice of a record, without an overlap. -/
  tiles : Tiles (c.streamsOf n.id) (n.offsetIn buffer) n.behavior.length
  /-- The register of every parameter is bound to one of them. -/
  bound : ∀ w ∈ n.behavior.windows, ∃ b ∈ c.streamsOf n.id,
    c.index? n.id w.slot = some b.register ∧ b.offset = n.offsetIn buffer + w.start ∧
      b.components = w.components
  /-- The code reads every quantity by the operand of its register. -/
  code : ∃ shared, c.shared = some shared ∧ n.behavior.ReadsBy shared (c.operand n) code
  /-- In the record of a particle the operand of a quantity finds what is written for it. -/
  values : buffer = .baked → ∀ p row, Animation.record (s.nodesIn .baked) s.stride p = .ok row →
    n.behavior.values p = .ok ((n.behavior.kept p).flatMap Prod.snd) ∧
      ∀ entry ∈ n.behavior.kept p, c.fetch .baked row (c.operand n entry.1) = some entry.2

/-- Code that finds the registers of its node goes on doing so while nothing more is taken for
the node. -/
theorem Built.transfers (h : s.Built) (hc : s.Compiled pass (s.needsFor f asked) c)
    (hn : n ∈ s.nodes) (hmode : n.behavior.mode = .perParticle buffer)
    (hwritten : n.behavior.IsWritten f asked) {d : Compilation α} {code : Program}
    (hfinds : Behavior.Finds d n code) (hlater : PassesOver n d c) :
    s.Transfers c n buffer code := by
  refine ⟨h.buffer_of_mem hc hn hmode, h.tiles hc hn hmode hwritten,
    fun w hw => (h.exists_stream hc hn hmode hwritten hw).2, ?_, ?_⟩
  · obtain ⟨shared, hshared, hreads⟩ := hfinds
    rw [← hlater.operand_eq] at hreads
    exact ⟨shared, hlater.shared.trans (shared_of_shared? hshared), hreads⟩
  · rintro rfl p row hrow
    exact h.fetch_kept hc hn hmode hwritten hrow

/-- **What is written is read**: let a built set be compiled, vertex code and any requests for
texture code. The code falls into that of the nodes and what stands between them. Wherever
code was written for a node that keeps its parameters for every particle, its streams are its
whole slice of a record, each value once, and the operands of the code read the values that
are written for a particle. The end of the compilation changes none of it. -/
theorem Built.transfer_spec (h : s.Built)
    (hvertex : Leads (s.vertexCode pass profile sourceNames targetNames) c p c₁)
    (huv : Leads (s.uvCodes calls) c₁ codes c₂) :
    ∃ (c₀ : Compilation α) (q : Sequence α) (texture : List (Node α × Program)),
      q.Written c₀ c₁ ∧ p = q.code ∧ q.nodes = s.nodes ∧ s.TextureCodes c₁ texture codes c₂ ∧
      (∀ piece ∈ q.pieces ++ texture, piece.2 ≠ [] → ∀ buffer,
        piece.1.behavior.mode = .perParticle buffer → s.Transfers c₂ piece.1 buffer piece.2) ∧
      ∀ c₃, Leads finish c₂ () c₃ →
        c₃.bindings = c₂.bindings ∧ c₃.indices = c₂.indices ∧ c₃.shared = c₂.shared := by
  obtain ⟨asked, hasked⟩ : ∃ asked, asked =
    decide ((s.featuresFor pass).uvNode = true ∧ calls ≠ []) := ⟨_, rfl⟩
  obtain ⟨hc₁, hnone⟩ := h.compiled_vertexCode hvertex
  have hc : s.Compiled pass (s.needsFor (s.featuresFor pass) asked) c₂ := by
    simpa only [needsFor, hasked, decide_eq_true_eq] using h.compiled hvertex huv
  obtain ⟨⟨⟩, c₀, -, hfragments⟩ := leads_bind.mp (leads_orAbandon.mp hvertex)
  obtain ⟨q, rfl, hwritten, hprimary, hpost, hcolor⟩ := of_vertexFragments hfragments
  have hnodes := h.grown.joined.nodes_eq hprimary hpost hcolor
  have hnodup : (q.pieces.map (·.1.id)).Nodup := by
    have hids := h.nodup_ids
    rwa [← hnodes, Sequence.nodes, List.map_map] at hids
  obtain ⟨texture, htexture, hcalls⟩ := exists_textureCodes h.isCatalogue (by rw [isActive, hc₁.phase]; rfl)
    (by rw [hc₁.phase]; exact Phase.noConfusion) hnone huv
  refine ⟨c₀, q, texture, hwritten, rfl, hnodes, htexture, fun piece hpiece hne buffer hmode => ?_,
    fun c₃ hdone => ?_⟩
  · rcases List.mem_append.mp hpiece with hpiece | hpiece
    · have hn : piece.1 ∈ s.nodes := hnodes ▸ List.mem_map_of_mem hpiece
      obtain ⟨d, d', hcode, hown, hlater⟩ :=
        hwritten.exists_vertexCode (hnodes ▸ h.isCatalogue) hnodup hpiece
      obtain ⟨hemitted, hnothing⟩ :=
        Behavior.isWritten_vertexCode (h.isCatalogue _ hn) hcode hne asked
      rw [← hown.features, ← hlater.features] at hemitted hnothing
      rw [hc₁.features] at hemitted
      exact h.transfers hc hn hmode hemitted
        (Behavior.finds_vertexCode (h.isCatalogue _ hn) hmode hcode hne)
        (hlater.trans (htexture.passesOver h hn hnothing))
    · obtain ⟨hon, hn, d, d', hcode, hown, hlater⟩ := htexture.exists_uvCode h hpiece
      have hcatalogue := h.isCatalogue _ hn
      have hemitted := Behavior.isWritten_uvCode hcatalogue hcode hne
      have hrequested : asked = true := by
        rw [hasked, ← hc₁.features]
        exact decide_eq_true ⟨hon, hcalls (List.ne_nil_of_mem hpiece)⟩
      rw [← hown.features, ← hlater.features, hc.features, ← hrequested] at hemitted
      exact h.transfers hc hn hmode hemitted (Behavior.finds_uvCode hcatalogue hmode hcode hne) hlater
  · obtain ⟨fragmentRows, rfl⟩ := leads_finish hc hdone
    exact ⟨rfl, rfl, rfl⟩

end

/-- A color of which both parts are animated for every particle. -/
def tint : Node Rat where
  behavior := .color
    { usesMultiplier := true, usesOffset := true, cycle := none, colors := .perParticle .baked }
  id := 2
  offset := 6

/-- Particles whose texture scrolls and whose color changes. -/
def tinted : NodeSet Rat where
  settings := { features := { uvNode := true, colorMultiplier := true, colorOffset := true } }
  nodes := [timeNode {}, { behavior := .uv .u (.perParticle .baked), id := 1, offset := 4 }, tint]
  stride := 22

/-- A particle that turns from white to a dark red. -/
def reddened : Particle Rat :=
  { Particle.default 0 1 with
    uv := some ⟨2, 1⟩
    colorStart := some ColorTransform.identity
    colorEnd := some ⟨⟨1, 0, 0, 1⟩, ⟨0, 1, 2, 3⟩⟩ }

/-- The change of the offset is at the end of the slice, and is read from there. -/
theorem tinted_transfer : ∃ p c₁ codes c₂ code row,
    Leads (tinted.vertexCode { scrollingPass with fragmentAnimation := true } .baseline ["va0"]
      ["vt0"]) { profile := .standard } p c₁ ∧
    Leads (tinted.uvCodes [("va1", "v0")]) c₁ codes c₂ ∧
    (∃ (c₀ : Compilation Rat) (q : Sequence Rat),
      q.Written c₀ c₁ ∧ p = q.code ∧ (tint, code) ∈ q.pieces) ∧
    code ≠ [] ∧ tinted.Transfers c₂ tint .baked code ∧
    Animation.record (tinted.nodesIn .baked) tinted.stride reddened = .ok row ∧
    c₂.fetch .baked row (c₂.operand tint .offsetDelta) = some [0, 1, 2, 3] := by
  have hbuilt : tinted.Built := .add (b := tint.behavior) built_scrolled (by exact trivial) rfl
  have hsucceeds : succeeds (do
      let _ ← tinted.vertexCode { scrollingPass with fragmentAnimation := true } .baseline ["va0"]
        ["vt0"]
      tinted.uvCodes [("va1", "v0")]) { profile := .standard } = true := by decide +kernel
  obtain ⟨codes, c₂, hboth⟩ := exists_leads hsucceeds
  obtain ⟨p, c₁, hvertex, huv⟩ := leads_bind.mp hboth
  obtain ⟨c₀, q, texture, hwritten, hp, hnodes, -, htransfers, -⟩ :=
    hbuilt.transfer_spec hvertex huv
  have htint : tint ∈ q.nodes := by
    rw [hnodes]
    exact .tail _ (.tail _ (.head _))
  obtain ⟨⟨n, code⟩, hpiece, hn⟩ := List.mem_map.mp htint
  obtain rfl : n = tint := hn
  have hnodup : (q.pieces.map (·.1.id)).Nodup := by
    have hids := hbuilt.nodup_ids
    rwa [← hnodes, Sequence.nodes, List.map_map] at hids
  obtain ⟨d, d', hcode, hown, hlater⟩ :=
    hwritten.exists_vertexCode (hnodes ▸ hbuilt.isCatalogue) hnodup hpiece
  have hanimation : d.features.fragmentAnimation = true := by
    rw [← hown.features, ← hlater.features, (hbuilt.compiled_vertexCode hvertex).1.features]
    rfl
  have hne : code ≠ [] := by
    have hparts := Behavior.leads_colorCode.mp hcode
    rw [if_pos hanimation] at hparts
    obtain ⟨_, _, _, _, _, _, -, -, hparts, rfl⟩ := hparts
    obtain ⟨_, _, _, hmultiplier, -, rfl⟩ := Behavior.leads_colorPartsCode.mp hparts
    obtain ⟨_, _, _, _, -, -, -, rfl⟩ := Behavior.leads_colorPartCode.mp hmultiplier
    simp [Behavior.colorPartProgram]
  have htransfer := htransfers _ (List.mem_append_left _ hpiece) hne .baked rfl
  have hkept : (Quantity.offsetDelta, [0, 1, 2, 3]) ∈ tint.behavior.kept reddened := by
    decide +kernel
  have hrow : ∃ row, Animation.record (tinted.nodesIn .baked) tinted.stride reddened = .ok row :=
    ⟨_, rfl⟩
  obtain ⟨row, hrow⟩ := hrow
  exact ⟨p, c₁, codes, c₂, code, row, hvertex, huv, ⟨c₀, q, hwritten, hp, hpiece⟩, hne, htransfer,
    hrow, (htransfer.values rfl reddened row hrow).2 _ hkept⟩

end NodeSet

end ParticleShader
