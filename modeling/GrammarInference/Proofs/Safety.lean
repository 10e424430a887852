import GrammarInference.Proofs.Generalizing
import GrammarInference.Proofs.Refining
import GrammarInference.Proofs.Compaction

/-!
# Learning structure cannot fail

If every question is answered, generalizing characters, giving structure and refining end without
a failure. A failure could come from a class or a node that cannot be printed, or from a node
without a default text. Classes of characters that have a member can be printed, and so can nodes
made of parts that can be printed; nodes that refer to founded rules only have default texts. What
has to be known at every step is what the steps before it keep.
-/

namespace GrammarInference

/-- A class of characters with a member can be printed. -/
theorem CharClass.OfCharacters.exists_format? {k : CharClass} (hk : k.OfCharacters) {s : Symbol}
    (hs : s ∈ k.characters) : ∃ t, k.format? = .ok t := by
  have hall : (k.characters.all fun s => s.char?.isSome) = true := by
    refine List.all_eq_true.mpr fun x hx => ?_
    obtain ⟨c, rfl⟩ := hk.characters x hx
    rfl
  refine ⟨k.format, ?_⟩
  unfold format?
  rw [if_pos hall, if_neg]
  rw [List.isEmpty_iff]
  rintro hnil
  rw [hnil] at hs
  cases hs

/-! ### Parts that can be shown -/

namespace Node

/-- A part that is not empty, refers to the given rules only, and can be printed. -/
structure Displayable (done : List Text) (n : Node) : Prop where
  /-- The node is not empty. -/
  ne_empty : n ≠ empty
  /-- The node refers to the given rules only. -/
  targets : n.targets ⊆ done
  /-- The node can be printed. -/
  printable : n.isPrintable = true

variable {done done' : List Text}

theorem Displayable.mono {n : Node} (h : n.Displayable done) (hsub : done ⊆ done') :
    n.Displayable done' :=
  ⟨h.ne_empty, List.Subset.trans h.targets hsub, h.printable⟩

theorem Part.displayable {n : Node} (h : n.Part done) : n.Displayable done :=
  ⟨h.ne_empty, h.tidy.targets_subset, h.tidy.mergeable.isPrintable⟩

theorem Displayable.throughout {n : Node} (h : n.Displayable done) :
    n ≠ empty ∧ n.Throughout PrintableHere :=
  ⟨h.ne_empty, isPrintable_iff.mp h.printable⟩

theorem builds_printableHere : Builds PrintableHere where
  sequence _ _ := trivial
  alternation _ := trivial
  repetition _ _ := trivial
  recursive _ := trivial

theorem isPrintable_repetition {body : List Node} (h : ∀ n ∈ body, n.Displayable done)
    (x : Bounds) : (Node.repetition (sequenceOf body) x).isPrintable = true :=
  isPrintable_iff.mpr (throughout_repetition.mpr ⟨trivial,
    builds_printableHere.throughout_sequenceOf fun n hn => (h n hn).throughout⟩)

theorem isPrintable_nestRule {left middle right : List Node} (name : Text)
    (hleft : ∀ n ∈ left, n.Displayable done) (hmiddle : ∀ n ∈ middle, n.Displayable done')
    (hright : ∀ n ∈ right, n.Displayable done) :
    (nestRule name left middle right).isPrintable = true :=
  isPrintable_iff.mpr (builds_printableHere.throughout_nestRule name
    (fun n hn => (hleft n hn).throughout) (fun n hn => (hmiddle n hn).throughout)
    fun n hn => (hright n hn).throughout)

end Node

/-- Giving structure to parts that can be shown gives such parts. -/
theorem Restructured.displayable {R : Replies} {ns ns' : List Node} {c : Context} {m m' : Memory}
    {done : List Text} (h : Restructured R ns c m ns' m') (hf : m.rules.Founded done)
    (hns : ∀ n ∈ ns, n.Displayable done) :
    ∃ done', m.rules.AddsLayers done m'.rules done' ∧ ∀ n ∈ ns', n.Displayable done' := by
  obtain ⟨done', hx, htargets, -⟩ := h.addsLayers hf fun n hn => (hns n hn).targets
  obtain ⟨hparts, -⟩ := h.throughout Node.builds_printableHere fun n hn => (hns n hn).throughout
  refine ⟨done', hx, fun n hn => ⟨(hparts n hn).1, htargets n hn, ?_⟩⟩
  exact Node.isPrintable_iff.mpr (hparts n hn).2

namespace Learner

variable {R : Replies} {m : Memory} {limits : Limits}

theorem safe_shownClass_of_characters {k : CharClass} (hk : k.OfCharacters) {s : Symbol}
    (hs : s ∈ k.characters) : (shownClass k).Safe R m := by
  obtain ⟨t, ht⟩ := hk.exists_format? hs
  exact safe_shownClass ht

theorem safe_shownNode_compact {n : Node} (hn : n.isPrintable = true) :
    (shownNode n.compact).Safe R m :=
  safe_shownNode (Node.isPrintable_compact hn)

/-! ### Generalizing -/

section Generalizing

variable {c : Context}

theorem safe_acceptsAll (hR : R.Answered) (ts : List Text) : (acceptsAll ts).Safe R m := by
  induction ts with
  | nil => exact safe_pure _
  | cons t rest ih =>
    refine (safe_accepts hR t).bind fun ok m₁ h => ?_
    obtain ⟨_, rfl⟩ := returns_accepts.mp h
    split
    · exact ih
    · exact safe_pure _

theorem safe_firstConfirmed (hR : R.Answered) (ks : List CharClass) :
    (firstConfirmed c ks).Safe R m := by
  induction ks with
  | nil => exact safe_pure _
  | cons k rest ih =>
    refine (safe_acceptsAll hR _).bind fun ok m₁ h => ?_
    obtain rfl := reads_acceptsAll _ h
    split
    · exact safe_pure _
    · exact ih

theorem safe_scan (hR : R.Answered) (candidates known : List Symbol) :
    (scan c candidates known).Safe R m :=
  (safe_acceptsEach hR _).bind fun _ _ _ => safe_pure _

theorem safe_scanPredefined (hR : R.Answered) (observed : Symbol) (ks : List CharClass)
    (known : List Symbol) : (scanPredefined c observed ks known).Safe R m := by
  induction ks generalizing known m with
  | nil => exact safe_pure _
  | cons k rest ih =>
    simp only [scanPredefined]
    split
    · refine (safe_acceptsAll hR _).bind fun ok m₁ _ => ?_
      split
      · exact (safe_scan hR _ _).bind fun more m₂ _ => ih more
      · exact ih known
    · exact ih known

theorem safe_scanAlphabet (hR : R.Answered) (known : List Symbol) :
    (scanAlphabet limits c known).Safe R m := by
  unfold scanAlphabet
  split
  · exact safe_scan hR _ _
  · exact safe_pure _

theorem safe_newClass {x : Char} {known : List Symbol} (hk : Symbol.AllChars known)
    (hx : Symbol.ofChar x ∈ known) : (newClass limits [x] known).Safe R m := by
  have hregular := regular_ofSymbols hk hx limits.maxChecks
  unfold newClass
  dsimp only
  split
  · refine Safe.bind ?_ fun t m₁ _ => ?_
    · exact safe_shownClass_of_characters hregular.ofCharacters
        (Symbol.mem_setOf.mpr (Symbol.mem_setOf.mpr hx))
    · refine (safe_note _).bind fun _ m₂ _ => ?_
      exact (safe_learnClass _).bind fun _ _ _ => safe_pure _
  · exact (safe_learnClass _).bind fun _ _ _ => safe_pure _

/-- Generalizing a character ends with a class. -/
theorem safe_generalize (hR : R.Answered) (hm : m.HasRegularClasses) (x : Char) :
    (generalize limits c [x]).Safe R m := by
  refine safe_classes.bind fun ks m₁ h => ?_
  obtain ⟨rfl, rfl⟩ := returns_classes.mp h
  refine (safe_firstConfirmed hR _).bind fun first m₂ hfirst => ?_
  obtain ⟨rfl, hfirst⟩ := of_returns_firstConfirmed hfirst
  cases first with
  | some k =>
    have hmem := hfirst k rfl
    rw [List.mem_reverse, List.mem_filter] at hmem
    have hk := hm k hmem.1
    refine (safe_shownClass_of_characters hk.ofCharacters
      (hk.triggered ▸ of_decide_eq_true hmem.2)).bind fun t m₃ _ => ?_
    exact (safe_note _).bind fun _ _ _ => safe_pure _
  | none =>
    have hx : Symbol.AllChars [Symbol.ofChar x] := fun s hs => ⟨x, List.mem_singleton.mp hs⟩
    refine (safe_scanPredefined hR _ _ _).bind fun known m₃ hknown => ?_
    obtain ⟨rfl, hsub, hall⟩ := of_returns_scanPredefined hknown
      (fun k hk => CharClass.allChars_of_mem_predefined hk) hx
    refine (safe_scanAlphabet hR _).bind fun found m₄ hfound => ?_
    obtain ⟨rfl, hsub', hall'⟩ := of_returns_scanAlphabet hfound hall
    exact safe_newClass hall' (hsub' (hsub (List.mem_singleton_self _)))

theorem safe_generalizeFrom (hR : R.Answered) (hm : m.HasRegularClasses) (done rest : Text) :
    (generalizeFrom limits done rest).Safe R m := by
  induction rest generalizing done m with
  | nil => exact safe_pure _
  | cons x rest ih =>
    refine (safe_generalize hR hm x).bind fun k m₁ hk => ?_
    obtain ⟨_, hm₁, _⟩ := of_returns_generalize hm hk
    exact (ih hm₁ _).bind fun _ _ _ => safe_pure _

end Generalizing

/-! ### Default texts -/

section Structure

variable {c : Context} {done : List Text}

theorem safe_render_of_founded (hf : m.rules.Founded done) {n : Node} (hn : n.targets ⊆ done) :
    (render n).Safe R m :=
  safe_render (hf.grounded.defaultText hn)

theorem safe_renderAll_of_parts (hf : m.rules.Founded done) {ns : List Node}
    (hns : ∀ n ∈ ns, n.Displayable done) : (renderAll ns).Safe R m :=
  safe_renderAll (hf.grounded.defaultTexts fun n hn => (hns n hn).targets)

theorem safe_renderEach (hf : m.rules.Founded done) {ns : List Node}
    (hns : ∀ n ∈ ns, n.Displayable done) : (renderEach ns).Safe R m := by
  induction ns with
  | nil => exact safe_pure _
  | cons n rest ih =>
    obtain ⟨hn, hrest⟩ := List.forall_mem_cons.mp hns
    refine (safe_render_of_founded hf hn.targets).bind fun t m₁ ht => ?_
    obtain ⟨_, rfl⟩ := text_of_returns_render ht
    exact (ih hrest).bind fun _ _ _ => safe_pure _

/-! ### Repetitions -/

theorem safe_lowerCount (hR : R.Answered) (body : Text) (probes count : Nat) :
    (lowerCount c body probes count).Safe R m := by
  induction probes generalizing count with
  | zero => exact safe_pure _
  | succ probes ih =>
    cases count with
    | zero => exact safe_pure _
    | succ fewer =>
      refine (safe_accepts hR _).bind fun ok m₁ h => ?_
      obtain ⟨_, rfl⟩ := returns_accepts.mp h
      split
      · exact ih fewer
      · exact safe_pure _

theorem safe_copiesKept (hR : R.Answered) (raw body : Text) (count : Nat) :
    (copiesKept c raw body count).Safe R m := by
  unfold copiesKept
  split
  · exact safe_pure _
  · exact safe_accepts hR _

/-- Giving structure to smaller regions ends without a failure and keeps what `Restructured`
says. -/
structure InnerSafe (R : Replies) (inner : List Node → Context → Learner (List Node)) : Prop where
  /-- There is no failure on parts that have default texts and can be printed. -/
  safe : ∀ {done : List Text} {m : Memory} {ns : List Node} (c : Context),
    m.rules.Founded done → (∀ n ∈ ns, n.Displayable done) → (inner ns c).Safe R m
  /-- The results are restructured. -/
  restructured : ∀ ns c m ns' m', (inner ns c).Returns R m ns' m' → Restructured R ns c m ns' m'

variable {inner : List Node → Context → Learner (List Node)} {nodes : List Node}

theorem safe_repetitionOf (hR : R.Answered) (hinner : InnerSafe R inner)
    (hf : m.rules.Founded done) (hns : ∀ n ∈ nodes, n.Displayable done) (run : Run nodes.length) :
    (repetitionOf inner limits nodes c run).Safe R m := by
  have hleft : ∀ n ∈ nodes.take run.start, n.Displayable done := fun n hn =>
    hns n (List.mem_of_mem_take hn)
  have hfirst : ∀ n ∈ (nodes.drop run.start).take run.unit, n.Displayable done :=
    fun n hn => hns n (List.mem_of_mem_drop (List.mem_of_mem_take hn))
  have hothers : ∀ n ∈ (nodes.drop (run.start + run.unit)).take (run.unit * (run.count - 1)),
      n.Displayable done := fun n hn => hns n (List.mem_of_mem_drop (List.mem_of_mem_take hn))
  have hright : ∀ n ∈ nodes.drop (run.start + run.unit * run.count), n.Displayable done :=
    fun n hn => hns n (List.mem_of_mem_drop hn)
  unfold repetitionOf
  dsimp only
  refine (safe_renderAll_of_parts hf hleft).bind fun _ _ h => ?_
  obtain ⟨_, rfl⟩ := returns_renderAll.mp h
  refine (safe_renderAll_of_parts hf hright).bind fun _ _ h => ?_
  obtain ⟨_, rfl⟩ := returns_renderAll.mp h
  refine (safe_renderAll_of_parts hf hfirst).bind fun _ _ h => ?_
  obtain ⟨_, rfl⟩ := returns_renderAll.mp h
  refine (safe_renderAll_of_parts hf hothers).bind fun _ _ h => ?_
  obtain ⟨_, rfl⟩ := returns_renderAll.mp h
  refine (safe_accepts hR _).bind fun _ _ h => ?_
  obtain ⟨_, rfl⟩ := returns_accepts.mp h
  split
  · refine (hinner.safe _ hf hfirst).bind fun body m₁ hret => ?_
    -- The body refers to layers that have been added, so that its default text can be put together.
    obtain ⟨done₁, hx₁, hbody⟩ := (hinner.restructured _ _ _ _ _ hret).displayable hf hfirst
    have hf₁ := hx₁.founded hf
    have htargets : (Node.sequenceOf body).targets ⊆ done₁ :=
      targets_sequenceOf_subset fun n hn => (hbody n hn).targets
    refine (safe_render_of_founded hf₁ htargets).bind fun _ _ h => ?_
    obtain ⟨_, rfl⟩ := returns_render.mp h
    refine (safe_copiesKept hR _ _ _).bind fun _ _ h => ?_
    obtain ⟨rfl, _⟩ := of_returns_copiesKept h
    split
    · exact safe_pure _
    · refine (safe_accepts hR _).bind fun _ _ h => ?_
      obtain ⟨_, rfl⟩ := returns_accepts.mp h
      split
      · exact safe_pure _
      · refine (safe_lowerCount hR _ _ _).bind fun least _ h => ?_
        obtain ⟨rfl, _⟩ := of_returns_lowerCount h
        refine (safe_shownNode_compact
          (Node.isPrintable_repetition hbody _)).bind fun _ _ h => ?_
        obtain ⟨_, rfl⟩ := returns_shownNode.mp h
        refine (safe_note _).bind fun _ _ h => ?_
        obtain rfl := returns_note.mp h
        -- The sides refer to the same rules as before, whatever layers have been added since.
        have hleft₁ := fun n hn => (hleft n hn).mono hx₁.subset
        refine (hinner.safe _ hf₁ hleft₁).bind fun left m₂ hret => ?_
        obtain ⟨done₂, hx₂, hl⟩ := (hinner.restructured _ _ _ _ _ hret).displayable hf₁ hleft₁
        have hf₂ := hx₂.founded hf₁
        refine (safe_renderAll_of_parts hf₂ hl).bind fun _ _ h => ?_
        obtain ⟨_, rfl⟩ := returns_renderAll.mp h
        refine (hinner.safe _ hf₂ fun n hn =>
          (hright n hn).mono (hx₁.trans hx₂).subset).bind fun _ _ _ => ?_
        exact safe_pure _
  · exact (safe_note _).bind fun _ _ _ => safe_pure _

/-- What an attempt that gives up leaves: a table with further layers. -/
theorem Attempted.addsLayers {ns : List Node} {m' : Memory} (h : Attempted R ns c m none m')
    (hf : m.rules.Founded done) (hns : ∀ n ∈ ns, n.targets ⊆ done) :
    ∃ done', m.rules.AddsLayers done m'.rules done' := by
  obtain ⟨done', hx, -⟩ := (h ns m' (.keep ns c m')).addsLayers hf hns
  exact ⟨done', hx⟩

theorem safe_firstRepetition (hR : R.Answered) (hinner : InnerSafe R inner)
    (hf : m.rules.Founded done) (hns : ∀ n ∈ nodes, n.Displayable done)
    {runs : List (Run nodes.length)} (hruns : ∀ run ∈ runs, IsCandidate nodes run) :
    (firstRepetition inner limits nodes c runs).Safe R m := by
  induction runs generalizing m done with
  | nil => exact safe_pure _
  | cons run rest ih =>
    refine (safe_repetitionOf hR hinner hf hns run).bind fun first m₁ hfirst => ?_
    cases first with
    | some out => exact safe_pure _
    | none =>
      have hgiven := (hruns run (.head _)).attempted hinner.restructured hfirst
      obtain ⟨done₁, hx⟩ := hgiven.addsLayers hf fun n hn => (hns n hn).targets
      exact ih (hx.founded hf) (fun n hn => (hns n hn).mono hx.subset)
        fun q hq => hruns q (.tail _ hq)

/-! ### Nesting -/

theorem safe_nestingOf (hR : R.Answered) (hinner : InnerSafe R inner) (hf : m.rules.Founded done)
    (hns : ∀ n ∈ nodes, n.Displayable done) (texts : List Text) (split : Split) :
    (nestingOf inner nodes c texts split).Safe R m := by
  obtain ⟨i, j⟩ := split
  have hleft : ∀ n ∈ nodes.take i, n.Displayable done := fun n hn =>
    hns n (List.mem_of_mem_take hn)
  have hmiddle : ∀ n ∈ (nodes.drop i).take (j - i), n.Displayable done :=
    fun n hn => hns n (List.mem_of_mem_drop (List.mem_of_mem_take hn))
  have hright : ∀ n ∈ nodes.drop j, n.Displayable done := fun n hn =>
    hns n (List.mem_of_mem_drop hn)
  unfold nestingOf
  dsimp only
  refine (safe_accepts hR _).bind fun _ _ h => ?_
  obtain ⟨_, rfl⟩ := returns_accepts.mp h
  split
  · exact safe_pure _
  · refine (safe_accepts hR _).bind fun _ _ h => ?_
    obtain ⟨_, rfl⟩ := returns_accepts.mp h
    split
    · exact safe_pure _
    · refine safe_rules.bind fun _ _ h => ?_
      obtain ⟨rfl, rfl⟩ := returns_rules.mp h
      refine (safe_setRule _ _).bind fun _ _ h => ?_
      obtain rfl := returns_setRule.mp h
      -- The reserved rule is in order before the inner part is given structure.
      have hf₀ := (Rules.AddsLayers.reserve hf.numbered done (Node.sequenceOf nodes)).founded hf
      refine (hinner.safe _ hf₀ hmiddle).bind fun middle m₁ hret => ?_
      obtain ⟨done₁, -, hmid⟩ :=
        (hinner.restructured _ _ _ _ _ hret).displayable hf₀ hmiddle
      refine (safe_setRule _ _).bind fun _ _ _ => ?_
      refine (safe_shownNode_compact
        (Node.isPrintable_nestRule _ hleft hmid hright)).bind fun _ _ _ => ?_
      exact (safe_note _).bind fun _ _ _ => safe_pure _

theorem safe_firstNesting (hR : R.Answered) (hinner : InnerSafe R inner)
    (hf : m.rules.Founded done) (hns : ∀ n ∈ nodes, n.Displayable done) {ss : List Split}
    (hss : ∀ s ∈ ss, s.1 ≤ s.2 ∧ Text.concat ((nodes.map m.rules.text).take s.1) ≠ [] ∧
      Text.concat ((nodes.map m.rules.text).drop s.2) ≠ []) :
    (firstNesting inner nodes c (nodes.map m.rules.text) ss).Safe R m := by
  induction ss with
  | nil => exact safe_pure _
  | cons s rest ih =>
    refine (safe_nestingOf hR hinner hf hns _ s).bind fun first m₁ hfirst => ?_
    obtain ⟨hs, hleft, hright⟩ := hss s (.head _)
    cases nested_of_nestingOf hs hleft hright hfirst with
    | nested => exact safe_pure _
    | refused => exact ih fun q hq => hss q (.tail _ hq)

/-! ### Regions -/

theorem safe_structureStep (hR : R.Answered) (hinner : InnerSafe R inner)
    (hf : m.rules.Founded done) (hns : ∀ n ∈ nodes, n.Displayable done) :
    (structureStep inner limits nodes c).Safe R m := by
  unfold structureStep
  split
  · exact safe_pure _
  · dsimp only
    have hruns := isCandidate_of_mem_runs nodes limits.maxRepetitionCandidates
    refine (safe_firstRepetition hR hinner hf hns hruns).bind fun first m₁ hfirst => ?_
    cases first with
    | some out => exact safe_pure _
    | none =>
      dsimp only
      split
      · exact safe_pure _
      · have hgiven := attempted_of_firstRepetition hinner.restructured hruns hfirst
        obtain ⟨done₁, hx⟩ := hgiven.addsLayers hf fun n hn => (hns n hn).targets
        have hf₁ := hx.founded hf
        have hns₁ := fun n hn => (hns n hn).mono hx.subset
        refine (safe_renderEach hf₁ hns₁).bind fun texts _ htexts => ?_
        obtain ⟨rfl, rfl⟩ := texts_of_returns_renderEach htexts
        refine (safe_firstNesting hR hinner hf₁ hns₁ fun s hs => ?_).bind fun second _ _ => ?_
        · obtain ⟨hsplit, hleft, hright⟩ := of_mem_nestingSplits hs
          exact ⟨(of_mem_splits hsplit).2.1, hleft, hright⟩
        · cases second <;> exact safe_pure _

theorem innerSafe_structureWithin (hR : R.Answered) (depth : Nat) :
    InnerSafe R (structureWithin limits depth) := by
  refine ⟨?_, fun _ _ _ _ _ h => restructured_of_structureWithin depth h⟩
  induction depth with
  | zero => exact fun _ _ _ => safe_pure _
  | succ depth ih =>
    intro done m ns c hf hns
    exact safe_structureStep hR
      ⟨ih, fun _ _ _ _ _ h => restructured_of_structureWithin depth h⟩ hf hns

/-- **Giving structure cannot fail** where the parts refer to founded rules and can be printed. -/
theorem safe_structureRegion (hR : R.Answered) (hf : m.rules.Founded done)
    (hns : ∀ n ∈ nodes, n.Displayable done) : (structureRegion limits nodes c).Safe R m :=
  (innerSafe_structureWithin hR nodes.length).safe c hf hns

end Structure

/-! ### Refining -/

section Refining

variable {done : List Text}

theorem safe_render_of_tidy (ho : m.rules.Ordered done) {n : Node} (hn : n.Tidy done) :
    (render n).Safe R m :=
  safe_render_of_founded ho.founded hn.targets_subset

mutual

/-- **Refining cannot fail** on tidy nodes. -/
theorem safe_refine (hR : R.Answered) : ∀ {n : Node} {c : Context} {m : Memory}
    {done : List Text}, m.rules.Ordered done → n.Tidy done → (refine limits n c).Safe R m
  | .literal _, _, _, _, _, _ => by
    simp only [refine]
    exact safe_pure _
  | .recursive _, _, _, _, _, _ => by
    simp only [refine]
    exact safe_pure _
  | .sequence cs, _, _, _, ho, hn => by
    simp only [refine]
    exact (safe_structureRegion hR ho.founded fun c hc => (hn.children c hc).displayable).bind
      fun _ _ _ => safe_pure _
  | .alternation [], _, _, _, _, _ => by
    simp only [refine]
    exact safe_pure _
  | .alternation (o :: rest), _, _, _, ho, hn => by
    obtain ⟨hfirst, hrest⟩ := List.forall_mem_cons.mp (Node.tidy_alternation.mp hn).2.2
    simp only [refine]
    refine (safe_refine hR ho hfirst).bind fun first m₁ hret => ?_
    obtain ⟨done₁, hg, _⟩ := (refined_of_refine hret).grows ho hfirst
    refine (safe_refineOptions hR hg.ordered fun o ho => (hrest o ho).mono hg.subset).bind
      fun _ _ _ => ?_
    exact safe_pure _
  | .repetition b x, _, _, _, ho, hn => by
    have hb := (Node.tidy_repetition.mp hn).2
    simp only [refine]
    refine (safe_render_of_tidy ho hb).bind fun t _ ht => ?_
    obtain ⟨rfl, rfl⟩ := text_of_returns_render ht
    refine (safe_refine hR ho hb).bind fun body m₁ hret => ?_
    obtain ⟨done₁, hg, hbody, _⟩ := (refined_of_refine hret).grows ho hb
    refine (safe_render_of_tidy hg.ordered hbody).bind fun u _ hu => ?_
    obtain ⟨rfl, rfl⟩ := text_of_returns_render hu
    split
    · exact safe_pure _
    · refine (safe_accepts hR _).bind fun _ _ _ => ?_
      split <;> exact safe_pure _

theorem safe_refineOptions (hR : R.Answered) : ∀ {os : List Node} {c : Context} {m : Memory}
    {done : List Text}, m.rules.Ordered done → (∀ o ∈ os, o.Tidy done) →
      (refineOptions limits os c).Safe R m
  | [], _, _, _, _, _ => by
    simp only [refineOptions]
    exact safe_pure _
  | o :: rest, c, m, done, ho, hos => by
    obtain ⟨hfirst, hrest⟩ := List.forall_mem_cons.mp hos
    simp only [refineOptions]
    refine (safe_refine hR ho hfirst).bind fun refined m₁ hret => ?_
    obtain ⟨done₁, hg, hrefined, _⟩ := (refined_of_refine hret).grows ho hfirst
    -- Refining an option only adds rules, so that the other options are still tidy.
    have others : (refineOptions limits rest c).Safe R m₁ :=
      safe_refineOptions hR hg.ordered fun o ho => (hrest o ho).mono hg.subset
    split
    · refine (safe_pure _).bind fun _ _ h => ?_
      obtain ⟨_, rfl⟩ := returns_pure.mp h
      exact others.bind fun _ _ _ => safe_pure _
    · refine (safe_render_of_tidy hg.ordered hrefined).bind fun _ _ h => ?_
      obtain ⟨_, rfl⟩ := text_of_returns_render h
      refine (safe_accepts hR _).bind fun _ _ h => ?_
      obtain ⟨_, rfl⟩ := returns_accepts.mp h
      split
      · refine (safe_pure _).bind fun _ _ h => ?_
        obtain ⟨_, rfl⟩ := returns_pure.mp h
        exact others.bind fun _ _ _ => safe_pure _
      · refine (safe_pure _).bind fun _ _ h => ?_
        obtain ⟨_, rfl⟩ := returns_pure.mp h
        exact others.bind fun _ _ _ => safe_pure _

end

theorem safe_refinePasses (hR : R.Answered) (passes : Nat) {root : Node}
    (ho : m.rules.Ordered done) (hroot : root.Tidy done) :
    (refinePasses limits passes root).Safe R m := by
  induction passes generalizing root m done with
  | zero => exact safe_pure _
  | succ passes ih =>
    refine (safe_refine hR ho hroot).bind fun refined m₁ hret => ?_
    obtain ⟨done₁, hg, hrefined, _⟩ := (refined_of_refine hret).grows ho hroot
    split
    · exact safe_pure _
    · refine (safe_render_of_tidy hg.ordered hrefined).bind fun _ _ h => ?_
      obtain ⟨_, rfl⟩ := text_of_returns_render h
      refine (safe_accepts hR _).bind fun _ _ h => ?_
      obtain ⟨_, rfl⟩ := returns_accepts.mp h
      split
      · exact ih hg.ordered hrefined
      · exact safe_pure _

end Refining

end Learner

end GrammarInference
