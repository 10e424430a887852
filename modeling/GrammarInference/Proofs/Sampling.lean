import GrammarInference.Proofs.Expansions

/-!
# Samples lie in the language

A derivation is `Legal` when its parts are derivations of nodes that may stand side by side for its
own node, and its text is put together from theirs. The text of a legal derivation is derived by
its node (`Derivation.Legal.derives`), and expansions by choices that keep to the grammar are legal
(`Derivation.Expansion.legal`).

A sampler starts from default derivations, and a mutation exchanges one part for a random expansion
of the same node, or swaps a character of a literal for a member of the class at its position.
`Sampler.choices` are the choices that all this comes to, so that every derivation that sampling
reaches is an expansion by them (`Sampler.expansionAt_mutateTimes`).

Two conditions on the grammar enter. The classes hold single characters, which only a saved grammar
can violate, and every repetition has a count that both its own range and the parameters allow,
which is checked when a sampler is made. Both are inherited by all parts of the grammar.
-/

namespace GrammarInference

/-! ### Legal derivations -/

/-- The nodes that may be put, side by side, in the place of a node. -/
inductive Rules.Expands (r : Rules) : Node → List Node → Prop
  /-- A sequence stands for its children. -/
  | sequence (cs : List Node) : Expands r (.sequence cs) cs
  /-- An alternation without options stands for nothing. -/
  | nothing : Expands r (.alternation []) []
  /-- An alternation stands for any of its options. -/
  | option {os : List Node} {o : Node} (ho : o ∈ os) : Expands r (.alternation os) [o]
  /-- A repetition stands for as many copies of its body as its range allows. -/
  | copies (b : Node) {x : Bounds} {n : Nat} (hn : x.has n = true) :
    Expands r (.repetition b x) (List.replicate n b)
  /-- A reference stands for any branch of its rule. -/
  | branch {name : Text} {rule b : Node} (hr : r.get? name = some rule) (hb : b ∈ rule.branches) :
    Expands r (.recursive name) [b]

/-- What may be chosen for a node may stand for it if the choices keep to the grammar. -/
theorem Choices.Expands.expands {c : Choices} {r : Rules} {n : Node} {ns : List Node}
    {depth below : Nat} (h : c.Expands n depth ns below)
    (hcount : ∀ x k, c.count x k → x.has k = true)
    (hbranch : ∀ name depth b, c.branch name depth b →
      ∃ rule, r.get? name = some rule ∧ b ∈ rule.branches) : r.Expands n ns := by
  cases h with
  | sequence => exact .sequence _
  | nothing => exact .nothing
  | option ho => exact .option ho
  | copies b hk => exact .copies b (hcount _ _ hk)
  | branch hb =>
    obtain ⟨rule, hrule, hmem⟩ := hbranch _ _ _ hb
    exact .branch hrule hmem

namespace Derivation

/-- A derivation that keeps to the grammar: a literal spells its text, and the parts of any other
derivation are legal derivations of nodes that may stand for its node. -/
inductive Legal (r : Rules) : Derivation → Prop
  /-- A literal that spells the text. -/
  | literal {l : Literal} {t : Text} {depth : Nat} (h : l.Spells t) :
    Legal r (leaf (.literal l) t depth)
  /-- Legal parts that may stand for the node. -/
  | ofParts {n : Node} {depth : Nat} {ps : List Derivation} (hn : r.Expands n (ps.map node))
    (hps : ∀ p ∈ ps, Legal r p) : Legal r (ofParts n depth ps)

variable {r : Rules}

/-- What may stand for a node, side by side, derives what the node derives. -/
theorem derives_of_expands {n : Node} {ns : List Node} {t : Text} (hn : r.Expands n ns)
    (h : DerivesAll r ns t) : Derives r n t := by
  cases hn with
  | sequence cs => exact .sequence h
  | nothing =>
    rw [derivesAll_nil.mp h]
    exact .nothing
  | option ho => exact .alternation ho (derivesAll_singleton.mp h)
  | copies b hn => exact .repetition hn h
  | branch hr hb => exact .recursive hr hb (derivesAll_singleton.mp h)

/-- **Legal derivations produce derivable texts.** -/
theorem Legal.derives {d : Derivation} (h : Legal r d) : Derives r d.node d.text := by
  induction h with
  | literal h => exact .literal h
  | @ofParts n depth ps hn hps ih =>
    refine derives_of_expands hn ?_
    clear hn hps
    induction ps with
    | nil => exact .nil
    | cons p ps ihps =>
      exact .cons (ih p List.mem_cons_self)
        (ihps fun q hq => ih q (List.mem_cons_of_mem _ hq))

/-- **Expansions are legal** if the choices keep to the grammar. -/
theorem Expansion.legal {c : Choices} {d : Derivation} (h : Expansion c d)
    (htext : ∀ l t, c.text l t → l.Spells t) (hcount : ∀ x k, c.count x k → x.has k = true)
    (hbranch : ∀ name depth b, c.branch name depth b →
      ∃ rule, r.get? name = some rule ∧ b ∈ rule.branches) : Legal r d := by
  induction h with
  | literal ht => exact .literal (htext _ _ ht)
  | ofParts hn _ _ ih => exact .ofParts (hn.expands hcount hbranch) ih

end Derivation

/-- What a branch of a node derives, the node derives. -/
theorem derives_of_mem_branches {r : Rules} {n b : Node} {t : Text} (hb : b ∈ n.branches)
    (h : Derives r b t) : Derives r n t := by
  unfold Node.branches at hb
  split at hb
  · exact .alternation hb h
  · exact List.mem_singleton.mp hb ▸ h

/-- A literal spells its own text. -/
theorem Literal.spells_self (l : Literal) : l.Spells l.text := by
  have h : l.Spells (l.cells.map Prod.fst) := by
    unfold Spells
    induction l.cells with
    | nil => exact .nil
    | cons cell rest ih => exact .cons (.inl rfl) ih
  rwa [Literal.map_fst_cells] at h

/-- No setting is negative. -/
structure SamplerRequest.InRange (r : SamplerRequest) : Prop where
  maxLength : ∀ n ∈ r.maxLength, 0 ≤ n
  mutations : 0 ≤ r.mutations
  maxDepth : 0 ≤ r.maxDepth

namespace Sampler

open GrammarInference.Derivation

variable {g : Grammar} {p : Parameters} {s : Sampler} {d e : Derivation}

/-! ### Mutations -/

/-- The choices that sampling comes to: a literal produces a text that it spells, if the members of
all classes are characters; a repetition has its least count or an allowed one; and the branches are
those of random derivations. -/
def choices (s : Sampler) : Choices where
  text l t := s.grammar.HasCharacterClasses → l.Spells t
  count := s.parameters.Samples
  branch := s.fresh.branch

/-- Default derivations are among what sampling comes to. -/
theorem expansion_of_defaults (h : Expansion s.grammar.rules.defaults d) :
    Expansion s.choices d := by
  refine h.mono (fun l _ ht _ => ht ▸ l.spells_self) (fun _ _ => .inl) ?_
  rintro name depth b ⟨rule, hrule, hb⟩
  exact ⟨rule, hrule, List.mem_of_find?_eq_some hb, fun _ => by simpa using List.find?_some hb⟩

/-- Random derivations are among what sampling comes to. -/
theorem expansion_of_fresh (h : Expansion s.fresh d) : Expansion s.choices d :=
  h.mono (fun l _ ht _ => ht ▸ l.spells_self) (fun _ _ => .inr) fun _ _ _ hb => hb

/-- The branches that may be chosen are parts of the grammar. -/
theorem contains_of_choices {name : Text} {depth : Nat} {b : Node}
    (h : s.choices.branch name depth b) : s.grammar.Contains b := by
  obtain ⟨rule, hrule, hb, -⟩ := h
  exact (Grammar.contains_rule hrule).branch hb

/-- Exchanging one character for a member of the class at its position keeps a text spelled. -/
theorem spells_exchange {l : Literal} {t : Text} (ht : l.Spells t) {i : Nat} {k : CharClass}
    (hk : l.classes[i]? = some (some k)) {c : Char} (hc : Symbol.ofChar c ∈ k.characters) :
    l.Spells (t.take i ++ [c] ++ t.drop (i + 1)) := by
  obtain ⟨hi, hik⟩ := List.getElem?_eq_some_iff.mp hk
  have hclasses : l.classes.length = l.text.length := by
    refine l.fits.resolve_left fun h => ?_
    simp [h] at hi
  have hpos : l.positions = l.classes := by
    rw [Literal.positions, if_neg fun h => by simp [h] at hi]
  obtain ⟨hlen, hall⟩ := List.forall₂_iff_get.mp ht
  have hcells : l.cells.length = l.text.length := by simp [Literal.cells]
  have hit : i < t.length := by omega
  have hset : t.take i ++ [c] ++ t.drop (i + 1) = t.set i c := by
    rw [List.set_eq_take_append_cons_drop, if_pos hit, List.append_assoc, List.singleton_append]
  rw [hset]
  refine List.forall₂_iff_get.mpr ⟨by rw [List.length_set, hlen], fun j hj hj' => ?_⟩
  by_cases hji : i = j
  · subst hji
    refine .inr ⟨k, ?_, ?_⟩
    · simp [Literal.cells, hpos, hik]
    · simpa using hc
  · have hjt : j < t.length := by simpa using hj'
    have h := hall j hj hjt
    simpa [List.getElem_set_ne hji] using h

variable (hp : s.grammar.SuitsParameters s.parameters)

include hp

/-- A character is swapped, or a node is expanded anew. -/
theorem expansionAt_mutateHere (hd : Expansion s.choices d) (hn : s.grammar.Contains d.node)
    (h : (s.mutateHere d).Returns e) : ExpansionAt s.choices d.node d.depth e := by
  unfold mutateHere at h
  split at h
  · next l hl =>
    obtain ⟨i, hi, h⟩ := Drawing.returns_bind.mp h
    obtain ⟨member, hmember, h⟩ := Drawing.returns_bind.mp h
    cases member with
    | text t =>
      rw [Drawing.returns_pure, hl] at h
      rw [h, hl]
      refine expansionAt_literal (fun hc => ?_) d.depth
      obtain ⟨k, hk, -⟩ := mem_freePositions.mp (Drawing.returns_oneOf.mp hi)
      have hmem : .text t ∈ k.characters := by simpa [hk] using Drawing.returns_oneOf.mp hmember
      -- The member is a single character, as all members of all classes are.
      obtain ⟨c, hchar⟩ := hc l (hn (hl ▸ Node.mem_walk_self _)) k (List.mem_of_getElem? hk) _ hmem
      obtain rfl : t = [c] := Symbol.text.inj hchar
      exact spells_exchange (hd.text_of_literal hl hc) hk hmem
    | _ => exact (Drawing.returns_fail.mp h).elim
  · obtain ⟨hfresh, hnode, hdepth⟩ := expansionAt_of_derive hp hn h
    exact ⟨expansion_of_fresh hfresh, hnode, hdepth⟩

/-- **One mutation** at any path keeps to the choices, and leaves the node and its depth the same:
the part at the path is exchanged for an expansion of the same node at the same depth. -/
theorem expansionAt_mutateAt (path : List Nat) (hd : Expansion s.choices d)
    (hn : s.grammar.Contains d.node) (h : (s.mutateAt path d).Returns e) :
    ExpansionAt s.choices d.node d.depth e := by
  induction path generalizing d e with
  | nil => exact expansionAt_mutateHere hp hd hn h
  | cons i path ih =>
    rw [mutateAt] at h
    split at h
    · rw [Drawing.returns_pure] at h
      exact h ▸ hd.at_self
    · next part hpart =>
      obtain ⟨new, hnew, h⟩ := Drawing.returns_bind.mp h
      have hof : part.IsPartOf d := .part (List.mem_of_getElem? hpart) .refl
      have hcontains := hd.contains_of_isPartOf hn (fun _ _ _ => contains_of_choices) hof
      rw [Drawing.returns_pure] at h
      exact h ▸ hd.set hpart (ih (hd.of_isPartOf hof) hcontains hnew)

theorem expansionAt_mutate (hd : Expansion s.choices d) (hn : s.grammar.Contains d.node)
    (h : (s.mutate d).Returns e) : ExpansionAt s.choices d.node d.depth e := by
  unfold mutate at h
  dsimp only at h
  split at h
  · rw [Drawing.returns_pure] at h
    exact h ▸ hd.at_self
  · obtain ⟨path, -, h⟩ := Drawing.returns_bind.mp h
    exact expansionAt_mutateAt hp path hd hn h

/-- **A run of mutations** keeps to the choices, and leaves the node and its depth the same. -/
theorem expansionAt_mutateTimes (times : Nat) (hd : Expansion s.choices d)
    (hn : s.grammar.Contains d.node) (h : (s.mutateTimes times d).Returns e) :
    ExpansionAt s.choices d.node d.depth e := by
  induction times generalizing d with
  | zero =>
    rw [mutateTimes, Drawing.returns_pure] at h
    exact h ▸ hd.at_self
  | succ times ih =>
    rw [mutateTimes] at h
    obtain ⟨d', hd', h⟩ := Drawing.returns_bind.mp h
    obtain ⟨hexpansion, hnode, hdepth⟩ := expansionAt_mutate hp hd hn hd'
    rw [← hnode, ← hdepth]
    exact ih hexpansion (hnode ▸ hn) h

omit hp

/-! ### Made samplers -/

/-- Every base is the default derivation of one of the nodes. -/
theorem exists_of_mem_basesOf {r : Rules} {ns : List Node} {ds : List Derivation}
    (h : basesOf r ns = .ok ds) : ∀ d ∈ ds, ∃ n ∈ ns, r.derive n 0 = .ok d := by
  induction ns generalizing ds with
  | nil =>
    obtain rfl : [] = ds := by simpa [basesOf] using h
    exact fun d hd => (List.not_mem_nil hd).elim
  | cons n rest ih =>
    rw [basesOf] at h
    split at h
    · cases h
    · next d hd =>
      split at h
      · cases h
      · next es hes =>
        cases h
        refine List.forall_mem_cons.mpr ⟨⟨n, List.mem_cons_self, hd⟩, fun e he => ?_⟩
        obtain ⟨m, hm, hderive⟩ := ih hes e he
        exact ⟨m, List.mem_cons_of_mem _ hm, hderive⟩

theorem unsuitable?_eq_none_iff : unsuitable? g p = none ↔ g.SuitsParameters p := by
  rw [unsuitable?, List.find?_eq_none]
  constructor
  · intro h b x hx
    have hnot := h _ hx
    simpa using hnot
  · intro h n hn
    cases n with
    | repetition b x => simpa using h b x hn
    | _ => simp

/-- **When a sampler is made**: no setting is negative, the grammar is in order, every repetition
has a count that the parameters allow, and there are derivations of the branches of the root. -/
theorem makeWith_eq_ok_iff {derive : Rules → List Node → Except DeriveFault (List Derivation)}
    {request : SamplerRequest} :
    makeWith derive g p request = .ok s ↔
      request.InRange ∧ g.validate = .ok () ∧ g.SuitsParameters p ∧
      ∃ bases, derive g.rules g.root.branches = .ok bases ∧
        s = ⟨g, p, request.maxLength.map Int.toNat, request.mutations.toNat,
          request.maxDepth.toNat, bases⟩ := by
  rw [← unsuitable?_eq_none_iff]
  constructor
  · -- Each check that is passed gives one of the conditions, in this order.
    intro h
    unfold makeWith at h
    split_ifs at h with hlength hmutations hdepth
    have hrange : request.InRange := by
      refine ⟨fun n hn => ?_, Int.not_lt.mp hmutations, Int.not_lt.mp hdepth⟩
      rw [Option.mem_def.mp hn] at hlength
      simpa using hlength
    split at h
    · cases h
    · next hvalid =>
      split at h
      · split at h <;> cases h
      · next hsuit =>
        split at h
        · cases h
        · next bases hbases => exact ⟨hrange, hvalid, hsuit, bases, hbases, (Except.ok.inj h).symm⟩
  · rintro ⟨hrange, hvalid, hsuit, bases, hbases, rfl⟩
    have hlength : request.maxLength.any (· < 0) = false := by
      cases hmax : request.maxLength with
      | none => rfl
      | some n => simpa using hrange.maxLength n hmax
    rw [makeWith, hlength, if_neg Bool.false_ne_true, if_neg (Int.not_lt.mpr hrange.mutations),
      if_neg (Int.not_lt.mpr hrange.maxDepth), hvalid, hsuit, hbases]

theorem make_eq_ok_iff {request : SamplerRequest} :
    make g p request = .ok s ↔ request.InRange ∧ g.validate = .ok () ∧ g.SuitsParameters p ∧
      ∃ bases, basesOf g.rules g.root.branches = .ok bases ∧
        s = ⟨g, p, request.maxLength.map Int.toNat, request.mutations.toNat,
          request.maxDepth.toNat, bases⟩ := makeWith_eq_ok_iff

/-- What a made sampler holds: the grammar and settings it was made from, and a grammar that suits
the parameters. -/
theorem of_make {request : SamplerRequest} (h : make g p request = .ok s) :
    s.grammar = g ∧ s.parameters = p ∧ s.maxLength = request.maxLength.map Int.toNat ∧
      (s.maxDepth : Int) = request.maxDepth ∧ g.SuitsParameters p := by
  obtain ⟨hrange, -, hsuit, bases, -, rfl⟩ := make_eq_ok_iff.mp h
  exact ⟨rfl, rfl, rfl, Int.toNat_of_nonneg hrange.maxDepth, hsuit⟩

/-- A made sampler starts from default derivations of the branches of its root. -/
theorem derive_of_mem_bases {request : SamplerRequest} (h : make g p request = .ok s)
    (hd : d ∈ s.bases) : ∃ n ∈ g.root.branches, g.rules.derive n 0 = .ok d := by
  obtain ⟨-, -, -, bases, hbases, rfl⟩ := make_eq_ok_iff.mp h
  exact exists_of_mem_basesOf hbases d hd

theorem expansionAt_of_mem_bases {request : SamplerRequest} (h : make g p request = .ok s)
    (hd : d ∈ s.bases) : ∃ n ∈ g.root.branches, ExpansionAt s.choices n 0 d := by
  obtain ⟨n, hn, hderive⟩ := derive_of_mem_bases h hd
  obtain ⟨rfl, -⟩ := of_make h
  obtain ⟨hdefault, hnode, hdepth⟩ := Rules.expansionAt_of_derive hderive
  exact ⟨n, hn, expansion_of_defaults hdefault, hnode, hdepth⟩

/-- **Sampling comes to expansions.** What any number of mutations makes of a base is an expansion
of a branch of the root at depth zero. -/
theorem expansionAt_of_mutateTimes {request : SamplerRequest} (hs : make g p request = .ok s)
    {base : Derivation} (hbase : base ∈ s.bases) (times : Nat)
    (h : (s.mutateTimes times base).Returns d) :
    ∃ n ∈ g.root.branches, ExpansionAt s.choices n 0 d := by
  obtain ⟨n, hn, hexpansion, rfl, hzero⟩ := expansionAt_of_mem_bases hs hbase
  obtain ⟨rfl, rfl, -, -, hp⟩ := of_make hs
  have hresult :=
    expansionAt_mutateTimes hp times hexpansion (Grammar.contains_root.branch hn) h
  exact ⟨base.node, hn, hzero ▸ hresult⟩

theorem expansionAt_of_sampleDerivation {request : SamplerRequest}
    (hs : make g p request = .ok s) (h : s.sampleDerivation.Returns d) :
    ∃ n ∈ g.root.branches, ExpansionAt s.choices n 0 d := by
  rw [sampleDerivation] at h
  obtain ⟨base, hbase, h⟩ := Drawing.returns_bind.mp h
  exact expansionAt_of_mutateTimes hs (Drawing.returns_oneOf.mp hbase) _ h

/-- A derivation that sampling comes to is legal. -/
theorem legal_of_choices (hc : s.grammar.HasCharacterClasses) (h : Expansion s.choices d) :
    Legal s.grammar.rules d := by
  refine h.legal (fun l t ht => ht hc) (fun x n hn => ?_) ?_
  · rcases hn with rfl | hallowed
    · exact x.has_min
    · exact hallowed.has
  · rintro name depth b ⟨rule, hrule, hb, -⟩
    exact ⟨rule, hrule, hb⟩

/-- **Samples lie in the language.** Whatever is drawn, a text that a sampler returns is one that
the root derives, cut to the greatest length if there is one. -/
theorem derives_of_sample {σ : Type} (source : Source σ) (state : σ) {request : SamplerRequest}
    {t : Text} (hs : make g p request = .ok s) (hc : g.HasCharacterClasses)
    (ht : (Draw.run source s.sample.run state).1 = .ok t) :
    ∃ u, Derives g.rules g.root u ∧ (request.maxLength = none → t = u) ∧
      ∀ n : Nat, request.maxLength = some (n : Int) → t = u.take n ∧ t.length ≤ n := by
  have h : s.sample.Returns t := by
    have hreach := Draw.reaches_run source s.sample.run state
    rwa [ht] at hreach
  rw [sample] at h
  obtain ⟨d, hd, h⟩ := Drawing.returns_bind.mp h
  obtain ⟨n, hmem, hexpansion, rfl, -⟩ := expansionAt_of_sampleDerivation hs hd
  obtain ⟨rfl, -, hlength, -⟩ := of_make hs
  have hlegal := legal_of_choices hc hexpansion
  rw [Drawing.returns_pure, cut, hlength] at h
  refine ⟨d.text, derives_of_mem_branches hmem hlegal.derives, fun hnone => ?_, fun n hn => ?_⟩
  · simpa [hnone] using h
  · have hcut : t = d.text.take n := by simpa [hn] using h
    exact ⟨hcut, hcut ▸ List.length_take_le n _⟩

/-- A binary digit. -/
def bit : Node :=
  .literal (.single '0' (CharClass.ofSymbols [Symbol.ofChar '0', Symbol.ofChar '1'] none none))

/-- One binary digit, or three and more. -/
def bits : Grammar :=
  ⟨.alternation [bit, .sequence [bit, .repetition bit (.atLeast 2)]], .empty⟩

theorem hasCharacterClasses_bits : bits.HasCharacterClasses := by
  intro l hl k hk s hs
  simp only [bits, Grammar.walk, Rules.empty, Node.walk, Node.walkAll, bit, List.flatMap_nil,
    List.append_nil, List.singleton_append, List.mem_cons, Node.literal.injEq, List.not_mem_nil,
    or_false, reduceCtorEq, false_or, or_self] at hl
  subst hl
  simp only [Literal.single, List.mem_singleton, Option.some.injEq] at hk
  subst hk
  have hs := Symbol.mem_setOf.mp hs
  simp only [List.mem_cons, List.not_mem_nil, or_false] at hs
  rcases hs with rfl | rfl
  · exact ⟨_, rfl⟩
  · exact ⟨_, rfl⟩

/-- With the last alternative chosen every time, the last digit is swapped. -/
theorem derives_of_sample_bits : ∃ s, make bits ⟨[0.5, 0.5], 0.2, 1, 200, by simp, by decide⟩
      ⟨some 3, 2, 100⟩ = .ok s ∧
    (Draw.run ⟨fun others _ => (Fin.last others, ()), fun _ => (0.0, ())⟩ s.sample.run ()).1 =
      .ok ['0', '0', '1'] ∧
    ∃ u, Derives bits.rules bits.root u ∧ ((some 3 : Option Int) = none → ['0', '0', '1'] = u) ∧
      ∀ n : Nat, (some 3 : Option Int) = some (n : Int) →
        ['0', '0', '1'] = u.take n ∧ ['0', '0', '1'].length ≤ n := by
  have hrun : ∃ s, make bits ⟨[0.5, 0.5], 0.2, 1, 200, by simp, by decide⟩ ⟨some 3, 2, 100⟩ =
      .ok s ∧ (Draw.run ⟨fun others _ => (Fin.last others, ()), fun _ => (0.0, ())⟩
        s.sample.run ()).1 = .ok ['0', '0', '1'] := ⟨_, rfl, rfl⟩
  obtain ⟨s, hs, ht⟩ := hrun
  exact ⟨s, hs, ht, derives_of_sample _ () hs hasCharacterClasses_bits ht⟩

end Sampler

end GrammarInference
