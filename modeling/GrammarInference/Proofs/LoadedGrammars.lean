import GrammarInference.Proofs.Circles
import GrammarInference.Proofs.DepthGuard
import GrammarInference.Proofs.SavedGrammars
import GrammarInference.Proofs.Shortages

/-!
# What a loaded grammar can be used for

A grammar that has been read passes the check, so that all its references can be followed. It has a
default text and default derivations, and a sampler for it is made as long as the settings are in
range and its repetitions suit the parameters.

Reading does not look at everything that printing and sampling rely on. The members of a class need
not be characters, not even texts; the class is then shown, or one of its members swapped in, in
vain. A root without options leaves a sampler nothing to start from. And base branches that are not
the first ones may refer to each other in a circle. These are all the ways in which printing or
sampling fails (`Grammar.usable_of_load`).
-/

namespace GrammarInference

/-! ### Parts of a grammar -/

namespace Node

mutual

/-- The parts of a part of a node are parts of the node. -/
theorem walk_subset_of_mem_walk : ∀ {n m : Node}, m ∈ n.walk → m.walk ⊆ n.walk
  | .literal _, m, h => by
    rw [walk, List.mem_singleton] at h
    rw [h]
    exact List.Subset.refl _
  | .sequence cs, m, h => by
    rw [walk] at h
    rcases List.mem_cons.mp h with rfl | h
    · exact List.Subset.refl _
    · rw [walk]
      exact List.Subset.trans (walk_subset_of_mem_walkAll h) (List.subset_cons_self _ _)
  | .alternation os, m, h => by
    rw [walk] at h
    rcases List.mem_cons.mp h with rfl | h
    · exact List.Subset.refl _
    · rw [walk]
      exact List.Subset.trans (walk_subset_of_mem_walkAll h) (List.subset_cons_self _ _)
  | .repetition b x, m, h => by
    rw [walk] at h
    rcases List.mem_cons.mp h with rfl | h
    · exact List.Subset.refl _
    · rw [walk]
      exact List.Subset.trans (walk_subset_of_mem_walk h) (List.subset_cons_self _ _)
  | .recursive _, m, h => by
    rw [walk, List.mem_singleton] at h
    rw [h]
    exact List.Subset.refl _

theorem walk_subset_of_mem_walkAll : ∀ {ns : List Node} {m : Node}, m ∈ walkAll ns →
    m.walk ⊆ walkAll ns
  | n :: rest, m, h => by
    rw [walkAll] at h
    rw [walkAll]
    rcases List.mem_append.mp h with h | h
    · exact List.Subset.trans (walk_subset_of_mem_walk h) (List.subset_append_left _ _)
    · exact List.Subset.trans (walk_subset_of_mem_walkAll h) (List.subset_append_right _ _)

end

end Node

namespace Grammar

variable {g : Grammar} {n m : Node}

theorem contains_of_mem_walk (h : n ∈ g.walk) : g.Contains n := by
  rcases List.mem_append.mp h with h | h
  · exact List.Subset.trans (Node.walk_subset_of_mem_walk h) (List.subset_append_left _ _)
  · obtain ⟨e, he, hn⟩ := List.mem_flatMap.mp h
    exact fun m hm => List.mem_append_right _
      (List.mem_flatMap.mpr ⟨e, he, Node.walk_subset_of_mem_walk hn hm⟩)

end Grammar

/-! ### Shown members -/

/-- A symbol is a member of a class that is shown, which are the classes with several members. -/
def Symbol.ShownIn (m : Symbol) (ns : List Node) : Prop :=
  ∃ l k, .literal l ∈ ns ∧ some k ∈ l.classes ∧ 1 < k.size ∧ m ∈ k.characters

/-- A literal can be printed if the members of all classes that are shown are characters. -/
theorem Literal.isPrintable_eq_true_iff {l : Literal} :
    l.isPrintable = true ↔
      ∀ k, some k ∈ l.classes → 1 < k.size → ∀ m ∈ k.characters, m.char? ≠ none := by
  simp only [isPrintable, List.all_eq_true]
  constructor
  · intro h k hk hsize m hm hchar
    have hclass := h _ hk
    simp only [Option.all_some, Bool.or_eq_true, decide_eq_true_iff, List.all_eq_true] at hclass
    have hsome := hclass.resolve_left (Nat.not_le_of_lt hsize) m hm
    rw [hchar] at hsome
    cases hsome
  · intro h k? hk?
    cases k? with
    | none => rfl
    | some k =>
      simp only [Option.all_some, Bool.or_eq_true, decide_eq_true_iff, List.all_eq_true]
      rcases Nat.lt_or_ge 1 k.size with hsize | hsize
      · exact .inr fun m hm => Option.isSome_iff_ne_none.mpr (h k hk? hsize m hm)
      · exact .inl hsize

/-- A node can be printed if all members that are shown in it are characters. -/
theorem Node.isPrintable_eq_true_iff {n : Node} :
    n.isPrintable = true ↔ ∀ m : Symbol, m.ShownIn n.walk → m.char? ≠ none := by
  rw [isPrintable, List.all_eq_true]
  constructor
  · rintro h m ⟨l, k, hl, hk, hsize, hm⟩
    exact Literal.isPrintable_eq_true_iff.mp (h _ hl) k hk hsize m hm
  · intro h part hpart
    cases part with
    | literal l =>
      exact Literal.isPrintable_eq_true_iff.mpr fun k hk hsize m hm =>
        h m ⟨l, k, hpart, hk, hsize, hm⟩
    | _ => rfl

namespace Grammar

variable {g : Grammar} {n : Node}

/-- A part of a grammar that cannot be printed shows a member that is no character. -/
theorem exists_shown_of_format? (hn : g.Contains n) (h : n.format? = none) :
    ∃ m : Symbol, m.ShownIn g.walk ∧ m.char? = none := by
  by_contra hnot
  push Not at hnot
  have hprint : n.isPrintable = true := Node.isPrintable_eq_true_iff.mpr fun m hm => by
    obtain ⟨l, k, hl, hclass⟩ := hm
    exact hnot m ⟨l, k, hn hl, hclass⟩
  rw [Node.format?, if_pos hprint] at h
  cases h

/-- What a grammar shows is shown in its root or in one of its rules. -/
theorem shownIn_walk {m : Symbol} :
    m.ShownIn g.walk ↔
      m.ShownIn g.root.walk ∨ ∃ e ∈ g.rules.entries, m.ShownIn e.2.walk := by
  constructor
  · rintro ⟨l, k, hl, hclass⟩
    rcases List.mem_append.mp hl with hl | hl
    · exact .inl ⟨l, k, hl, hclass⟩
    · obtain ⟨e, he, hl⟩ := List.mem_flatMap.mp hl
      exact .inr ⟨e, he, l, k, hl, hclass⟩
  · rintro (⟨l, k, hl, hclass⟩ | ⟨e, he, l, k, hl, hclass⟩)
    · exact ⟨l, k, List.mem_append_left _ hl, hclass⟩
    · exact ⟨l, k, List.mem_append_right _ (List.mem_flatMap.mpr ⟨e, he, hl⟩), hclass⟩

/-- **Printing.** A grammar cannot be printed if and only if it shows a member that is no
character. -/
theorem format?_eq_none_iff :
    g.format? = none ↔ ∃ m : Symbol, m.ShownIn g.walk ∧ m.char? = none := by
  simp only [format?, ite_eq_right_iff, reduceCtorEq, imp_false, Bool.and_eq_true,
    List.all_eq_true, Node.isPrintable_eq_true_iff, shownIn_walk]
  constructor
  · intro h
    by_contra hnot
    push Not at hnot
    exact h ⟨fun m hm => hnot m (.inl hm), fun e he m hm => hnot m (.inr ⟨e, he, hm⟩)⟩
  · rintro ⟨m, hm | ⟨e, he, hm⟩, hchar⟩ ⟨hroot, hrules⟩
    · exact hroot m hm hchar
    · exact hrules e he m hm hchar

end Grammar

/-! ### Making a sampler -/

namespace Sampler

open GrammarInference.Derivation

variable {g : Grammar} {p : Parameters} {s : Sampler} {f : DeriveFault}

/-- The bases are made if every node has a default derivation. -/
theorem exists_basesOf {r : Rules} {ns : List Node} (h : ∀ n ∈ ns, ∃ d, r.derive n 0 = .ok d) :
    ∃ ds, basesOf r ns = .ok ds := by
  induction ns with
  | nil => exact ⟨[], rfl⟩
  | cons n rest ih =>
    obtain ⟨⟨d, hd⟩, hrest⟩ := List.forall_mem_cons.mp h
    obtain ⟨ds, hds⟩ := ih hrest
    exact ⟨d :: ds, by rw [basesOf, hd, hds]⟩

/-- There are no bases only for no nodes. -/
theorem eq_nil_of_basesOf {r : Rules} {ns : List Node} (h : basesOf r ns = .ok []) : ns = [] := by
  cases ns with
  | nil => rfl
  | cons n rest =>
    rw [basesOf] at h
    split at h
    · cases h
    · split at h <;> cases h

/-- The branches of the root of a grammar that can be resolved have default derivations. -/
theorem exists_bases (h : g.Resolves) : ∃ ds, basesOf g.rules g.root.branches = .ok ds := by
  exact exists_basesOf fun n hn => h.exists_derive (Grammar.contains_root.branch hn) 0

/-- For a grammar in order a sampler is made exactly if the settings are in range and the
repetitions suit the parameters. -/
theorem exists_make_iff (h : g.validate = .ok ()) {request : SamplerRequest} :
    (∃ s, make g p request = .ok s) ↔ request.InRange ∧ g.SuitsParameters p := by
  simp only [make_eq_ok_iff]
  constructor
  · rintro ⟨s, hrange, -, hsuit, -⟩
    exact ⟨hrange, hsuit⟩
  · rintro ⟨hrange, hsuit⟩
    obtain ⟨ds, hds⟩ := exists_bases (Grammar.resolves_of_validate h)
    exact ⟨_, hrange, h, hsuit, ds, hds, rfl⟩

/-- **Making a sampler.** For a grammar in order only a parameter keeps a sampler from being made,
or a repetition that suits no count and cannot be shown. -/
theorem parameter_or_unprintable_of_make (h : g.validate = .ok ()) {request : SamplerRequest}
    {e : SamplerError} (hmake : make g p request = .error e) :
    (∃ fault, e = .parameter fault) ∨
      (e = .unprintable ∧ ∃ m : Symbol, m.ShownIn g.walk ∧ m.char? = none) := by
  unfold make makeWith at hmake
  split_ifs at hmake
  · exact .inl ⟨_, (Except.error.inj hmake).symm⟩
  · exact .inl ⟨_, (Except.error.inj hmake).symm⟩
  · exact .inl ⟨_, (Except.error.inj hmake).symm⟩
  · rw [h] at hmake
    dsimp only at hmake
    split at hmake
    · next n hn =>
      -- The report shows the repetition, which is a part of the grammar.
      split at hmake
      · next hformat =>
        have hcontains := Grammar.contains_of_mem_walk (List.mem_of_find?_eq_some hn)
        exact .inr ⟨(Except.error.inj hmake).symm,
          Grammar.exists_shown_of_format? hcontains hformat⟩
      · exact .inl ⟨_, (Except.error.inj hmake).symm⟩
    · obtain ⟨ds, hds⟩ := exists_bases (Grammar.resolves_of_validate h)
      rw [hds] at hmake
      cases hmake

/-! ### Sampling -/

/-- Following references in a grammar that can be resolved fails only where they do not end. -/
theorem eq_tooDeep_of_fails_deriveReference (h : s.grammar.Resolves) (steps : Nat) {name : Text}
    {depth : Nat} (hname : name ∈ s.grammar.rules.names)
    (hf : (s.deriveReference steps name depth).Fails f) : f = .tooDeep := by
  induction steps generalizing name depth with
  | zero => exact Drawing.fails_fail.mp hf
  | succ steps ih =>
    rw [deriveReference] at hf
    rcases Drawing.fails_bind.mp hf with hf | ⟨branch, hbranch, hf⟩
    · rcases fails_chooseBranch hf with ⟨-, hnone⟩ | ⟨-, rule, hrule, hbase⟩
      · obtain ⟨rule, hrule⟩ := Rules.exists_get?_of_mem_names hname
        rw [hnone] at hrule
        cases hrule
      · obtain ⟨base, hfirst⟩ := h.base name rule hrule
        rw [hbase] at hfirst
        cases hfirst
    · obtain ⟨rule, hrule, hmem, -⟩ := base_of_returns_chooseBranch hbranch
      have hcontains := (Grammar.contains_rule hrule).branch hmem
      obtain ⟨child, hchild, hf⟩ := fails_deriveWith branch hf
      exact ih (h.targets branch hcontains hchild) hf

end Sampler

/-- What it takes for a sample to fail. -/
def Grammar.Obstructs (g : Grammar) : DeriveFault → Prop
  -- a root without options leaves nothing to start from
  | .nothingToChoose => g.root = .alternation []
  -- a member that may be swapped in is no text
  | .notText => ∃ m : Symbol, m.ShownIn g.walk ∧ m.text? = none
  -- base branches refer to each other in a circle
  | .tooDeep => ¬ g.rules.BaseAcyclic
  | _ => False

namespace Sampler

open GrammarInference.Derivation

variable {g : Grammar} {p : Parameters} {s : Sampler} {f : DeriveFault}

/-- **One mutation** of a derivation that starts at depth zero fails, if at all, because a member
that may be swapped in is no text, or because base branches refer to each other in a circle. -/
theorem notText_or_tooDeep_of_fails_mutateHere {d e : Derivation} (h : s.grammar.Resolves)
    (hd : Expansion s.choices d) (hzero : d.depth = 0) (hn : s.grammar.Contains d.node)
    (he : e.IsPartOf d) (hmutable : e.isMutable = true) (hf : (s.mutateHere e).Fails f) :
    (f = .notText ∧ ∃ m : Symbol, m.ShownIn s.grammar.walk ∧ m.text? = none) ∨
      (f = .tooDeep ∧ ¬ s.grammar.rules.BaseAcyclic) := by
  have hcontains : s.grammar.Contains e.node :=
    hd.contains_of_isPartOf hn (fun _ _ _ => contains_of_choices) he
  rcases fails_mutateHere hmutable hf with ⟨rfl, l, k, m, hl, hk, hsize, hm, htext⟩ | hderive
  · rw [hl] at hcontains
    exact .inl ⟨rfl, m, ⟨l, k, hcontains (Node.mem_walk_self _), hk, hsize, hm⟩, htext⟩
  · obtain ⟨name, hname, hreference⟩ := fails_deriveWith e.node hderive
    have hknown := h.targets _ hcontains hname
    obtain rfl := eq_tooDeep_of_fails_deriveReference h _ hknown hreference
    refine .inr ⟨rfl, fun hacyclic => ?_⟩
    exact not_tooDeep_mutateHere hacyclic hd (hacyclic.within (by omega) _) he hmutable hf

/-- **Sampling.** A sample from a grammar that can be resolved fails only for a reason that lies in
the grammar. -/
theorem obstructs_of_fails_sample (h : g.Resolves) {request : SamplerRequest}
    (hs : make g p request = .ok s) (hf : s.sample.Fails f) : g.Obstructs f := by
  obtain ⟨-, -, -, bases, hbases, rfl⟩ := make_eq_ok_iff.mp hs
  rw [sample] at hf
  rcases Drawing.fails_bind.mp hf with hf | ⟨d, -, hf⟩
  · rcases fails_sampleDerivation hs hf with ⟨rfl, rfl⟩ |
        ⟨n, hn, d, ⟨hd, rfl, hzero⟩, e, he, hmutable, hf⟩
    · exact Node.branches_eq_nil_iff.mp (eq_nil_of_basesOf hbases)
    · have hcontains := Grammar.contains_root.branch hn
      rcases notText_or_tooDeep_of_fails_mutateHere h hd hzero hcontains he hmutable hf with
        ⟨rfl, hmember⟩ | ⟨rfl, hcircle⟩
      · exact hmember
      · exact hcircle
  · simp at hf

/-- Without options in the root every sample fails. -/
theorem run_sample_of_root (hroot : g.root = .alternation []) {request : SamplerRequest}
    (hs : make g p request = .ok s) {σ : Type} (source : Source σ) (state : σ) :
    (Draw.run source s.sample.run state).1 = .error .nothingToChoose := by
  obtain ⟨-, -, -, bases, hbases, rfl⟩ := make_eq_ok_iff.mp hs
  rw [hroot] at hbases
  obtain rfl : [] = bases := Except.ok.inj hbases
  rfl

end Sampler

/-! ### Loaded grammars -/

namespace Grammar

variable {g : Grammar}

/-- A grammar that has been read was read from fields, and is in order. -/
theorem exists_ofFields_of_load {m : Machine} {t : Text} (h : load m t = .ok g) :
    ∃ fs, ofFields m.calls fs = .ok g ∧ g.validate = .ok () := by
  unfold load at h
  split at h
  · cases h
  · split at h
    · cases h
    · unfold ofJson at h
      split at h
      · dsimp only at h
        split_ifs at h
        split at h
        · cases h
        · next hfields =>
          split at h
          · cases h
          · next hvalid =>
            cases h
            exact ⟨_, hfields, hvalid⟩
      · cases h

theorem validate_of_load {m : Machine} {t : Text} (h : load m t = .ok g) : g.validate = .ok () := by
  obtain ⟨_, -, hvalid⟩ := exists_ofFields_of_load h
  exact hvalid

/-- **Use.** What a loaded grammar can be used for. It can be printed unless it shows a member that
is no character. It has a default text, which every machine gives unless it lacks something for it.
A sampler for it is made exactly if the settings are in range and its repetitions suit the
parameters; otherwise a parameter is reported, or a repetition that cannot be printed would have to
be shown. A sample is a text, whatever is drawn, unless the grammar obstructs
sampling. -/
theorem usable_of_load {m : Machine} {t : Text} (h : load m t = .ok g) (p : Parameters)
    (request : SamplerRequest) :
    (g.format? = none ↔ ∃ m : Symbol, m.ShownIn g.walk ∧ m.char? = none) ∧
      (∃ u, g.rules.defaultText g.root = .ok u ∧ ∀ m', g.rules.RendersOn m' g.root u) ∧
      ((∃ s, Sampler.make g p request = .ok s) ↔ request.InRange ∧ g.SuitsParameters p) ∧
      (∀ e, Sampler.make g p request = .error e → (∃ fault, e = .parameter fault) ∨
        (e = .unprintable ∧ ∃ m : Symbol, m.ShownIn g.walk ∧ m.char? = none)) ∧
      ∀ s, Sampler.make g p request = .ok s → ∀ {σ : Type} (source : Source σ) (state : σ),
        (g.root = .alternation [] →
          (Draw.run source s.sample.run state).1 = .error .nothingToChoose) ∧
        ((∃ u, (Draw.run source s.sample.run state).1 = .ok u) ∨
          ∃ f, (Draw.run source s.sample.run state).1 = .error f ∧ g.Obstructs f) := by
  have hvalid := validate_of_load h
  have hresolves := resolves_of_validate hvalid
  have hdefault := hresolves.defaultText contains_root
  refine ⟨format?_eq_none_iff, ⟨_, hdefault, Rules.rendersOn_of_defaultText hdefault⟩,
    Sampler.exists_make_iff hvalid, fun e => Sampler.parameter_or_unprintable_of_make hvalid,
    fun s hs σ source state => ⟨fun hroot => Sampler.run_sample_of_root hroot hs source state, ?_⟩⟩
  have hreach := Draw.reaches_run source s.sample.run state
  cases hrun : (Draw.run source s.sample.run state).1 with
  | ok u => exact .inl ⟨u, rfl⟩
  | error f =>
    rw [hrun] at hreach
    exact .inr ⟨f, rfl, Sampler.obstructs_of_fails_sample hresolves hs hreach⟩

/-- A letter, perhaps after up to three signs, which may stand several times. -/
private def signed : Grammar where
  root := .recursive "A".toList
  rules := ⟨[("A".toList, .alternation [
    .literal (.single 'a' ⟨[], [.ofChar 'a', .ofChar 'b'], []⟩),
    .sequence [.repetition (.literal (.plain "-".toList)) ⟨1, some 3, by simp⟩,
      .recursive "A".toList]])], by simp⟩

private theorem classes_signed {l : Literal} (hl : .literal l ∈ signed.walk) {k : CharClass}
    (hk : some k ∈ l.classes) : k = ⟨[], [.ofChar 'a', .ofChar 'b'], []⟩ := by
  simp only [walk, signed, Node.walk, Node.walkAll, List.flatMap_cons, List.flatMap_nil,
    List.cons_append, List.nil_append, List.append_nil, List.mem_cons, List.not_mem_nil,
    Node.literal.injEq, reduceCtorEq, false_or, or_false] at hl
  rcases hl with rfl | rfl
  · simpa [Literal.single] using hk
  · cases hk

/-- A machine with room for small documents. -/
def modestMachine : Machine := .ofLimits 1000 10 10

private theorem exists_save_signed :
    ∃ t, signed.save modestMachine none = .ok t ∧ load modestMachine t = .ok signed := by
  have hclasses : SavableClasses signed.walk := fun l hl k hk => by
    obtain rfl := classes_signed hl hk
    exact ⟨by simp, by simp [Symbol.ofChar], by simp, by decide, by decide⟩
  obtain ⟨t, hsave, hread⟩ : ∃ t, signed.save modestMachine none = .ok t ∧
    signed.ReadableOn modestMachine t := exists_readable (by decide +kernel)
  exact ⟨t, hsave, load_of_save rfl hclasses hsave hread⟩

/-- Nothing in the signed letters obstructs sampling: the only base branch refers to no rule, and
the members of the only class are characters. -/
private theorem not_obstructs_signed (f : DeriveFault) : ¬ signed.Obstructs f := by
  intro h
  cases f with
  | nothingToChoose => cases h
  | notText =>
    obtain ⟨m, ⟨l, k, hl, hk, -, hm⟩, htext⟩ := h
    obtain rfl := classes_signed hl hk
    rcases List.mem_pair.mp hm with rfl | rfl <;> cases htext
  | tooDeep =>
    refine h fun a hcircle => ?_
    obtain ⟨b, ⟨rule, hrule, branch, hbranch, hbase, htarget⟩, -⟩ :=
      Relation.TransGen.head'_iff.mp hcircle
    simp only [signed, Rules.get?, Rules.find?] at hrule
    split at hrule
    · next ha =>
      cases hrule
      subst ha
      rcases List.mem_pair.mp hbranch with rfl | rfl
      · simp at htarget
      · simp [Node.refersTo] at hbase
    · cases hrule
  | _ => exact h

/-- The signed letters are loaded as they were saved, a sampler for them is made, and every sample
is a text. -/
theorem usable_of_load_signed :
    ∃ t, signed.save modestMachine none = .ok t ∧ load modestMachine t = .ok signed ∧
      ∃ s, Sampler.make signed ⟨[0.2, 0.2, 0.2, 0.4], 0.2, 1, 200, by simp, by decide⟩
          ⟨some 64, 4, 100⟩ = .ok s ∧
        ∀ {σ : Type} (source : Source σ) (state : σ),
          ∃ u, (Draw.run source s.sample.run state).1 = .ok u := by
  obtain ⟨t, hsave, hload⟩ := exists_save_signed
  obtain ⟨-, -, -, -, hsample⟩ :=
    usable_of_load hload ⟨[0.2, 0.2, 0.2, 0.4], 0.2, 1, 200, by simp, by decide⟩ ⟨some 64, 4, 100⟩
  refine ⟨t, hsave, hload, _, rfl, fun source state => ?_⟩
  rcases (hsample _ rfl source state).2 with hu | ⟨f, -, hf⟩
  · exact hu
  · exact absurd hf (not_obstructs_signed f)

/-- The saved form of a root without options. -/
private def optionless : Text :=
  "\x7b\"root\": \x7b\"type\": \"alternation\", \"options\": []\x7d\x7d".toList

/-- The saved form of a letter with a class that has a member of two characters. -/
def digraph : Text :=
  "\x7b\"root\": \x7b\"type\": \"literal\", \"text\": \"a\", \"classes\": [\x7b".toList ++
    "\"triggers\": \"\", \"characters\": [\"ab\", \"c\"], \"checks\": \"\"\x7d]\x7d\x7d".toList

/-- A saved form that has been written for a value is read as this value, on a machine with room for
it. -/
theorem load_of_write {m : Machine} {v : Json.Value} {t : Text} (hplain : v.Plain)
    (hshort : v.hasShortIntegers = true) (hwrite : Json.write none v = t)
    (hroom : m.lacks? (.document t) = none) (hdeep : v.nesting ≤ m.brackets) :
    load m t = ofJson m.calls v := by
  rw [load, hroom]
  dsimp only
  rw [← hwrite, Json.read_write none hplain hshort hdeep]

private theorem load_optionless :
    load modestMachine optionless = .ok ⟨.alternation [], .empty⟩ := by
  have hroot : (Json.Value.object [("type".toList, .text "alternation".toList),
      ("options".toList, .array [])]).Plain :=
    .object (by decide) (by simp [Json.Value.Plain.text, Json.Value.Plain.array])
  have hplain : (Json.Value.object [("root".toList, _)]).Plain :=
    .object (by simp) (List.forall_mem_singleton.mpr hroot)
  rw [load_of_write hplain rfl (by decide) (by decide) (by decide)]
  rfl

theorem load_digraph : load modestMachine digraph = .ok ⟨.literal ⟨"a".toList,
    [some ⟨[], [.text "ab".toList, .text "c".toList], []⟩], .inr rfl⟩, .empty⟩ := by
  let members : Json.Value := .array [.text "ab".toList, .text "c".toList]
  let digraphs : Json.Value := .object [("triggers".toList, .text []),
    ("characters".toList, members), ("checks".toList, .text [])]
  have hmembers : members.Plain := .array (by simp [Json.Value.Plain.text])
  have hclass : digraphs.Plain :=
    .object (by decide) (by simp [Json.Value.Plain.text, hmembers])
  have hclasses : (Json.Value.array [digraphs]).Plain :=
    .array (List.forall_mem_singleton.mpr hclass)
  have hroot : (Json.Value.object [("type".toList, .text "literal".toList),
      ("text".toList, .text "a".toList), ("classes".toList, .array [digraphs])]).Plain :=
    .object (by decide) (by simp [Json.Value.Plain.text, hclasses])
  have hplain : (Json.Value.object [("root".toList, _)]).Plain :=
    .object (by simp) (List.forall_mem_singleton.mpr hroot)
  rw [load_of_write hplain rfl (by decide) (by decide) (by decide)]
  rfl

/-- **Not all that is loaded can be used.** Without options in the root a sampler is made, but every
sample fails; and a class with a member of two characters keeps the grammar from being printed. -/
theorem load_not_usable :
    (∃ g s, load modestMachine optionless = .ok g ∧
      Sampler.make g ⟨[0.2, 0.2, 0.2, 0.4], 0.2, 1, 200, by simp, by decide⟩
          ⟨some 64, 4, 100⟩ = .ok s ∧
        ∀ {σ : Type} (source : Source σ) (state : σ),
          (Draw.run source s.sample.run state).1 = .error .nothingToChoose) ∧
      ∃ g, load modestMachine digraph = .ok g ∧ g.format? = none := by
  constructor
  · exact ⟨_, _, load_optionless, rfl, fun source state => rfl⟩
  · exact ⟨_, load_digraph, rfl⟩

end Grammar

end GrammarInference
