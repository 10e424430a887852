import GrammarInference.Proofs.Consistency
import GrammarInference.Proofs.MachineDerivations

/-!
# Default derivations and default texts

The default text of a node and its default derivation are found by two recursions that take the
same branches. The derivation leaves out the body of a repetition that need not stand at all; the
text of no copies is empty as well, so that both come to the same text (`Rules.text_of_derive`).
In the derivation all texts are put together from those of the parts (`Derivation.PutTogether`).

Without mutations a sampler returns the texts of the derivations that it starts from, and so the
default texts of the branches of the root. Every one of them is returned by some run
(`Draw.reaches_iff_run`).

What a machine makes of both is another matter. The default text of a body is asked for even if no
copy of it is, and where it is beyond the machine there is a default derivation all the same; and
copies of the empty text take no room, whereas their derivations do
(`Grammar.derive_needless_copies`).
-/

namespace GrammarInference

namespace Derivation

/-! ### Texts of default derivations -/

section Texts

variable {rule : Text → Nat → Except DeriveFault Derivation} {ref : Text → Text}

mutual

/-- A default derivation has the text of its node, if references have derivations with the texts
that they stand for. -/
theorem text_of_defaultWith (hrule : ∀ name depth d, rule name depth = .ok d → d.text = ref name) :
    ∀ (n : Node) {depth : Nat} {d : Derivation}, defaultWith rule depth n = .ok d →
      d.text = n.textWith ref
  | .literal l, depth, d, h => by
    obtain rfl : leaf (.literal l) l.text depth = d := by simpa [defaultWith] using h
    rw [text_leaf, Node.textWith]
  | .sequence cs, depth, d, h => by
    rw [defaultWith] at h
    split at h
    · cases h
    · next ds hds =>
      cases h
      rw [text_ofParts, texts_of_defaultAllWith hrule cs hds, Node.textWith]
  | .alternation [], depth, d, h => by
    obtain rfl : ofParts (.alternation []) depth [] = d := by simpa [defaultWith] using h
    rw [text_ofParts, Node.textWith]
    rfl
  | .alternation (o :: rest), depth, d, h => by
    rw [defaultWith] at h
    split at h
    · cases h
    · next e he =>
      cases h
      rw [text_ofParts, Node.textWith, ← text_of_defaultWith hrule o he]
      exact List.append_nil _
  | .repetition b x, depth, d, h => by
    rw [defaultWith] at h
    split at h
    · next hzero =>
      -- The body is not derived, and no copies of its text are the empty text.
      cases h
      rw [text_ofParts, Node.textWith, hzero, Text.times_zero]
      rfl
    · split at h
      · cases h
      · next e he =>
        cases h
        rw [text_ofParts, Node.textWith, ← text_of_defaultWith hrule b he, List.map_replicate]
        rfl
  | .recursive name, depth, d, h => by
    rw [defaultWith] at h
    split at h
    · cases h
    · next e he =>
      cases h
      rw [text_ofParts, Node.textWith, ← hrule _ _ _ he]
      exact List.append_nil _

theorem texts_of_defaultAllWith
    (hrule : ∀ name depth d, rule name depth = .ok d → d.text = ref name) :
    ∀ (ns : List Node) {depth : Nat} {ds : List Derivation}, defaultAllWith rule depth ns = .ok ds →
      Text.concat (ds.map text) = Node.textsWith ref ns
  | [], depth, ds, h => by
    obtain rfl : [] = ds := by simpa [defaultAllWith] using h
    rfl
  | n :: rest, depth, ds, h => by
    rw [defaultAllWith] at h
    split at h
    · cases h
    · next d hd =>
      split at h
      · cases h
      · next es hes =>
        cases h
        rw [Node.textsWith, ← text_of_defaultWith hrule n hd,
          ← texts_of_defaultAllWith hrule rest hes]
        rfl

end

end Texts

/-! ### Texts of parts -/

/-- The text of every part of a derivation is put together from the texts of its own parts, unless
the part is a literal; that one has no parts. -/
def PutTogether (d : Derivation) : Prop :=
  ∀ e : Derivation, e.IsPartOf d →
    (∃ l, e.node = .literal l ∧ e.parts = []) ∨ e.text = Text.concat (e.parts.map text)

/-- The texts of an expansion are put together. -/
theorem Expansion.putTogether {c : Choices} {d : Derivation} (h : Expansion c d) :
    d.PutTogether := by
  intro e he
  cases h.of_isPartOf he with
  | literal => exact .inl ⟨_, rfl, rfl⟩
  | ofParts => exact .inr rfl

end Derivation

namespace Rules

variable {r : Rules}

theorem text_of_deriveRule (steps : Nat) {name : Text} {depth : Nat} {d : Derivation}
    (h : r.deriveRule steps name depth = .ok d) : d.text = r.textRule steps name := by
  induction steps generalizing name depth d with
  | zero => cases h
  | succ steps ih =>
    rw [deriveRule] at h
    split at h
    · cases h
    · next rule hrule =>
      split at h
      · cases h
      · next branch hbranch =>
        rw [Derivation.text_of_defaultWith (fun _ _ _ h => ih h) branch h, textRule, hrule,
          Option.bind_some, hbranch]

/-- **Agreement.** The default derivation of a node has the default text of the node. -/
theorem text_of_derive {n : Node} {depth : Nat} {d : Derivation} (h : r.derive n depth = .ok d) :
    d.text = r.text n :=
  Derivation.text_of_defaultWith (fun _ _ _ h => text_of_deriveRule _ h) n h

end Rules

namespace Sampler

variable {g : Grammar} {p : Parameters} {s : Sampler} {request : SamplerRequest}

/-! ### Samples without mutations -/

/-- There is a base for each of the nodes. -/
theorem exists_mem_basesOf {r : Rules} {ns : List Node} {ds : List Derivation}
    (h : basesOf r ns = .ok ds) : ∀ n ∈ ns, ∃ d ∈ ds, r.derive n 0 = .ok d := by
  induction ns generalizing ds with
  | nil => exact fun n hn => (List.not_mem_nil hn).elim
  | cons n rest ih =>
    rw [basesOf] at h
    split at h
    · cases h
    · next d hd =>
      split at h
      · cases h
      · next es hes =>
        cases h
        refine List.forall_mem_cons.mpr ⟨⟨d, .head _, hd⟩, fun m hm => ?_⟩
        obtain ⟨e, he, hderive⟩ := ih hes m hm
        exact ⟨e, .tail _ he, hderive⟩

/-- The texts of the bases are the default texts of the branches of the root. -/
theorem exists_base_iff (hs : make g p request = .ok s) {u : Text} :
    (∃ d ∈ s.bases, d.text = u) ↔ ∃ o ∈ g.root.branches, g.rules.text o = u := by
  obtain ⟨-, -, -, bases, hbases, rfl⟩ := make_eq_ok_iff.mp hs
  constructor
  · rintro ⟨d, hd, rfl⟩
    obtain ⟨o, ho, hderive⟩ := exists_of_mem_basesOf hbases d hd
    exact ⟨o, ho, (Rules.text_of_derive hderive).symm⟩
  · rintro ⟨o, ho, rfl⟩
    obtain ⟨d, hd, hderive⟩ := exists_mem_basesOf hbases o ho
    exact ⟨d, hd, Rules.text_of_derive hderive⟩

/-- Without mutations and without a greatest length, a sample is the text of a base. -/
theorem returns_sample_iff (hmutations : s.mutations = 0) (hlength : s.maxLength = none)
    {u : Text} : s.sample.Returns u ↔ ∃ d ∈ s.bases, d.text = u := by
  simp only [sample, sampleDerivation, hmutations, mutateTimes, Drawing.returns_bind,
    Drawing.returns_pure, Drawing.returns_oneOf, cut, hlength]
  constructor
  · rintro ⟨d, ⟨base, hbase, rfl⟩, rfl⟩
    exact ⟨d, hbase, rfl⟩
  · rintro ⟨d, hd, rfl⟩
    exact ⟨d, ⟨d, hd, rfl⟩, rfl⟩

/-- Without mutations a sample fails only if the root has no branches. -/
theorem root_of_fails_sample (hs : make g p request = .ok s) (hmutations : s.mutations = 0)
    {f : DeriveFault} (h : s.sample.Fails f) : g.root = .alternation [] := by
  simp only [sample, sampleDerivation, hmutations, mutateTimes, Drawing.fails_bind,
    Drawing.fails_pure, Drawing.fails_oneOf, and_false, exists_false, or_false] at h
  obtain ⟨-, -, -, bases, hbases, rfl⟩ := make_eq_ok_iff.mp hs
  obtain ⟨rfl, -⟩ := h
  exact Node.branches_eq_nil_iff.mp (eq_nil_of_basesOf hbases)

end Sampler

namespace Grammar

variable {g : Grammar}

/-! ### Grammars in order -/

/-- **Default derivations.** In a grammar that passes the check, every node over the rules has a
default derivation at every depth, whose text is the default text of the node, and all texts in it
are put together from those of the parts. Every machine makes this derivation, and renders its text,
unless it lacks something for the one or the other. A sampler that neither mutates nor cuts returns
exactly the default texts of the branches of the root, and never fails if there are any. -/
theorem default_derivations (h : g.validate = .ok ()) :
    (∀ (n : Node) (depth : Nat), n.targets ⊆ g.rules.names →
      ∃ d, g.rules.derive n depth = .ok d ∧ d.node = n ∧ d.depth = depth ∧ d.PutTogether ∧
        g.rules.defaultText n = .ok d.text ∧
        ∀ m, g.rules.deriveOn m n depth = d.madeOn m m.calls ∧ g.rules.RendersOn m n d.text) ∧
      ∀ m p request s, Sampler.makeOn m g p request = .ok s → request.mutations = 0 →
        request.maxLength = none →
        (∀ u, (∃ (σ : Type) (source : Source σ) (state : σ),
            (Draw.run source s.sample.run state).1 = .ok u) ↔
          ∃ o ∈ g.root.branches, g.rules.defaultText o = .ok u) ∧
        (g.root ≠ .alternation [] → ∀ {σ : Type} (source : Source σ) (state : σ),
          ∃ u, (Draw.run source s.sample.run state).1 = .ok u) := by
  have hresolves := resolves_of_validate h
  refine ⟨fun n depth hn => ?_, fun m p request s hs hmutations hlength => ?_⟩
  · obtain ⟨done, hdone, hnames⟩ := hresolves.grounded
    obtain ⟨d, hd⟩ := hdone.exists_derive (List.Subset.trans hn hnames) depth
    obtain ⟨hexpansion, hnode, hdepth⟩ := Rules.expansionAt_of_derive hd
    have hdefault : g.rules.defaultText n = .ok d.text := by
      rw [Rules.text_of_derive hd]
      exact defaultText_of_validate h hn
    exact ⟨d, hd, hnode, hdepth, hexpansion.putTogether, hdefault, fun m =>
      ⟨Rules.deriveOn_eq_madeOn hd m, Rules.rendersOn_of_defaultText hdefault m⟩⟩
  · replace hs := Sampler.make_of_makeOn hs
    have hsettings : s.mutations = 0 ∧ s.maxLength = none := by
      obtain ⟨-, -, -, bases, -, rfl⟩ := Sampler.make_eq_ok_iff.mp hs
      simp [hmutations, hlength]
    have hdefault : ∀ o ∈ g.root.branches, g.rules.defaultText o = .ok (g.rules.text o) :=
      fun o ho => hresolves.defaultText (contains_root.branch ho)
    refine ⟨fun u => ?_, fun hroot σ source state => ?_⟩
    · -- What is returned is the text of a base; a script makes the sampler start from any of them.
      have hreturns := (Sampler.returns_sample_iff (u := u) hsettings.1 hsettings.2).trans
        (Sampler.exists_base_iff hs)
      constructor
      · rintro ⟨σ, source, state, hrun⟩
        have hreach := Draw.reaches_run source s.sample.run state
        rw [hrun] at hreach
        obtain ⟨o, ho, rfl⟩ := hreturns.mp hreach
        exact ⟨o, ho, hdefault o ho⟩
      · rintro ⟨o, ho, htext⟩
        rw [hdefault o ho] at htext
        obtain ⟨script, hrun⟩ :=
          Draw.reaches_iff_run.mp (hreturns.mpr ⟨o, ho, Except.ok.inj htext⟩)
        exact ⟨_, Draw.scripted, script, hrun⟩
    · have hreach := Draw.reaches_run source s.sample.run state
      cases hrun : (Draw.run source s.sample.run state).1 with
      | ok u => exact ⟨u, rfl⟩
      | error f =>
        rw [hrun] at hreach
        exact absurd (Sampler.root_of_fails_sample hs hsettings.1 hreach) hroot

/-- Two letters or more, or a letter in parentheses; the rule starts with its nested branch. -/
def lettersOrNested : Grammar where
  root := .alternation [.repetition (.literal (.plain ['a'])) (.atLeast 2), .recursive "r0".toList]
  rules := ⟨[("r0".toList, .alternation [
    .sequence [.literal (.plain ['(']), .recursive "r0".toList, .literal (.plain [')'])],
    .literal (.plain ['x'])])], by simp⟩

/-- The first option is derived with its least copies, on a small machine as well, and some run
returns the text of the second one. -/
theorem default_derivations_lettersOrNested :
    lettersOrNested.validate = .ok () ∧
      (∃ d, lettersOrNested.rules.derive lettersOrNested.root 3 = .ok d ∧ d.depth = 3 ∧
        d.text = ['a', 'a'] ∧
        lettersOrNested.rules.deriveOn (.ofLimits 10 5 5) lettersOrNested.root 3 = .ok d) ∧
      ∃ s, Sampler.makeOn (.ofLimits 10 5 5) lettersOrNested
          ⟨[0.5, 0.5], 0.2, 1, 200, by simp, by decide⟩ ⟨none, 0, 100⟩ = .ok s ∧
        ∃ (σ : Type) (source : Source σ) (state : σ),
          (Draw.run source s.sample.run state).1 = .ok ['x'] := by
  obtain ⟨hderive, hsample⟩ := default_derivations (g := lettersOrNested) rfl
  obtain ⟨d, hd, -, hdepth, -, htext, hmachine⟩ :=
    hderive lettersOrNested.root 3 (by simp [lettersOrNested, Rules.names])
  have hmade : d.madeOn (.ofLimits 10 5 5) 5 = .ok d := by
    cases hd
    rfl
  obtain ⟨s, hs⟩ : ∃ s, Sampler.makeOn (.ofLimits 10 5 5) lettersOrNested
      ⟨[0.5, 0.5], 0.2, 1, 200, by simp, by decide⟩ ⟨none, 0, 100⟩ = .ok s := ⟨_, rfl⟩
  refine ⟨rfl, ⟨d, hd, hdepth, (Except.ok.inj htext).symm, ?_⟩, s, hs, ?_⟩
  · exact (hmachine (.ofLimits 10 5 5)).1.trans hmade
  · exact ((hsample _ _ _ s hs rfl rfl).1 ['x']).mpr ⟨_, .tail _ (.head _), rfl⟩

/-- Any number of copies of more copies of the empty text than any text has characters. -/
def needlessCopies : Grammar := ⟨.repetition blanks.root (.atLeast 0), .empty⟩

/-- Many copies of the empty text. -/
def emptyLines : Grammar := ⟨.repetition (.literal (.plain [])) (.atLeast 1000), .empty⟩

/-- **Neither follows from the other.** A grammar passes the check, and its root has a default
derivation without parts, which takes hardly more than its calls; but no machine puts together the
default text of the root, for the body comes first. Of another grammar a small machine renders the
default text, and has no room for its default derivation. -/
theorem derive_needless_copies :
    (needlessCopies.validate = .ok () ∧
      needlessCopies.root.targets ⊆ needlessCopies.rules.names ∧
      (∃ d, needlessCopies.rules.derive needlessCopies.root 0 = .ok d ∧ d.text = [] ∧
        ∀ m : Machine, 2 ≤ m.calls → m.holds (.tree 1) = true → m.holds (.joined []) = true →
          needlessCopies.rules.deriveOn m needlessCopies.root 0 = .ok d) ∧
      ∀ m : Machine, 3 ≤ m.calls →
        needlessCopies.rules.render m needlessCopies.root = .error (.shortage .beyondLengths)) ∧
    emptyLines.validate = .ok () ∧
      emptyLines.rules.render (.ofLimits 100 5 5) emptyLines.root = .ok [] ∧
      emptyLines.rules.deriveOn (.ofLimits 100 5 5) emptyLines.root 0 =
        .error (.exhausted .beyondMemory) := by
  refine ⟨⟨rfl, by simp [needlessCopies, blanks], ⟨_, rfl, rfl, fun m hcalls htree htext => ?_⟩,
    fun m hcalls => ?_⟩, rfl, rfl, rfl⟩
  · have hroom : m.lacks? (.tree 1) = none := Machine.lacks?_of_holds (Nat.zero_le _) htree
    have hempty : m.lacks? (.joined []) = none := Machine.lacks?_of_holds (Nat.zero_le _) htext
    have hnode : ∀ l, needlessCopies.root ≠ .literal l := by simp [needlessCopies]
    rw [Rules.deriveOn_eq_madeOn rfl m]
    refine (Derivation.madeOn_ofParts (Nat.not_lt.mpr hcalls) hnode).trans ?_
    simp only [Derivation.shortageOfAll?, Derivation.sizes, Derivation.grow, Nat.zero_add, hroom,
      Derivation.ofPartsOn, List.map_nil, hempty]
    rfl
  · have hroot : ¬ m.calls < needlessCopies.root.renderCalls :=
      Nat.not_lt.mpr (Nat.le_trans (by decide) hcalls)
    rw [needlessCopies] at hroot ⊢
    rw [Rules.render, Node.renderOn, if_neg hroot,
      renderOn_blanks m _ (Nat.le_sub_of_add_le hcalls)]

end Grammar

end GrammarInference
