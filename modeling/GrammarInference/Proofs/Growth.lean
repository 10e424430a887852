import GrammarInference.Proofs.Circles
import GrammarInference.Proofs.Restructuring

/-!
# How rule tables grow

While a region is given structure, rules are named by number and completed in layers; a rule whose
inner part is still being worked on has its name already, but lies in no layer. `Rules.Extends` says
that a later table keeps all names with their rules, that its completed rules contain the earlier
ones, and that none of the names that were taken but not completed has been completed in between.
Texts do not change while a table grows in this way.

Giving structure adds layers to the rules that the nodes refer to, whatever the shape of the nodes
(`Restructured.addsLayers`), and the nodes and rules that it makes meet every condition that such
nodes cannot break (`Restructured.throughout`). Both together say that tidy parts are made into tidy
parts, and that the rules grow in tidy layers (`Restructured.grows`).
-/

namespace GrammarInference

namespace Rules

/-- Names are numbers, and the rules `done` refer to each other only and are grounded. -/
structure Founded (r : Rules) (done : List Text) : Prop where
  /-- Every name is that of a number. -/
  numbered : r.Numbered
  /-- The bases of the rules lead down to rules without references. -/
  grounded : r.Grounded done
  /-- The rules refer to each other only. -/
  closed : r.Closed done

theorem Founded.subset_names {r : Rules} {done : List Text} (h : r.Founded done) :
    done ⊆ r.names :=
  h.grounded.subset_names

end Rules

/-- The rules of a grammar that can be resolved are founded if their names are numbers. -/
theorem Grammar.Resolves.founded {g : Grammar} (h : g.Resolves) (hnumbered : g.rules.Numbered) :
    ∃ done, g.rules.Founded done ∧ g.rules.names ⊆ done := by
  obtain ⟨done, hgrounded, hnames⟩ := h.grounded
  refine ⟨done, ⟨hnumbered, hgrounded, fun name _ rule hget => ?_⟩, hnames⟩
  refine List.Subset.trans (h.targets rule fun n hn => ?_) hnames
  exact List.mem_append_right _ (List.mem_flatMap.mpr ⟨_, Rules.mem_entries_of_get? hget, hn⟩)

namespace Rules

/-- A table and its completed rules some steps later. -/
structure Extends (r : Rules) (done : List Text) (r' : Rules) (done' : List Text) : Prop where
  /-- Completed rules remain completed. -/
  subset : done ⊆ done'
  /-- All names keep their rules. -/
  kept : ∀ name ∈ r.names, r'.get? name = r.get? name
  /-- Newly completed rules have new names. -/
  fresh : ∀ name ∈ done', name ∈ r.names → name ∈ done

namespace Extends

variable {r r₁ r₂ : Rules} {done done₁ done₂ : List Text}

theorem refl (r : Rules) (done : List Text) : r.Extends done r done :=
  ⟨List.Subset.refl _, fun _ _ => rfl, fun _ h _ => h⟩

/-- Names stay. -/
theorem mem_names (h : r.Extends done r₁ done₁) {name : Text} (hname : name ∈ r.names) :
    name ∈ r₁.names := by
  obtain ⟨rule, hrule⟩ := exists_get?_of_mem_names hname
  exact mem_names_of_get? ((h.kept name hname).trans hrule)

theorem trans (h : r.Extends done r₁ done₁) (h' : r₁.Extends done₁ r₂ done₂) :
    r.Extends done r₂ done₂ where
  subset := List.Subset.trans h.subset h'.subset
  kept name hname := (h'.kept name (h.mem_names hname)).trans (h.kept name hname)
  fresh name hname hmem := h.fresh name (h'.fresh name hname (h.mem_names hmem)) hmem

/-- Texts are the same later on. -/
theorem text_eq (h : r.Extends done r₁ done₁) (hr : r.Grounded done) {n : Node}
    (hn : n.targets ⊆ done) : r₁.text n = r.text n :=
  hr.text_congr (fun name hname => h.kept name (hr.subset_names hname)) hn

theorem texts_eq (h : r.Extends done r₁ done₁) (hr : r.Grounded done) {ns : List Node}
    (hns : ∀ n ∈ ns, n.targets ⊆ done) : r₁.texts ns = r.texts ns :=
  hr.texts_congr (fun name hname => h.kept name (hr.subset_names hname)) hns

end Extends

/-! ### Further layers -/

/-- A table some steps later, with layers on the rules completed before. -/
structure AddsLayers (r : Rules) (done : List Text) (r' : Rules) (done' : List Text) : Prop where
  /-- Every name is that of a number. -/
  numbered : r'.Numbered
  /-- Newly completed rules lie in layers on the earlier ones. -/
  layers : r'.LayeredOn done done'
  /-- All names keep their rules. -/
  kept : ∀ name ∈ r.names, r'.get? name = r.get? name
  /-- Newly completed rules have new names. -/
  fresh : ∀ name ∈ done', name ∈ r.names → name ∈ done

namespace AddsLayers

variable {r r₁ r₂ : Rules} {done done₁ done₂ : List Text}

theorem extension (h : r.AddsLayers done r₁ done₁) : r.Extends done r₁ done₁ :=
  ⟨h.layers.subset, h.kept, h.fresh⟩

theorem subset (h : r.AddsLayers done r₁ done₁) : done ⊆ done₁ := h.layers.subset

theorem refl (h : r.Numbered) (done : List Text) : r.AddsLayers done r done :=
  ⟨h, .ground, fun _ _ => rfl, fun _ h _ => h⟩

theorem trans (h : r.AddsLayers done r₁ done₁) (h' : r₁.AddsLayers done₁ r₂ done₂) :
    r.AddsLayers done r₂ done₂ where
  numbered := h'.numbered
  layers := (h.layers.congr fun name _ => h'.kept name).trans h'.layers
  kept := (h.extension.trans h'.extension).kept
  fresh := (h.extension.trans h'.extension).fresh

/-- Layers on founded rules are founded. -/
theorem founded (h : r.AddsLayers done r₁ done₁) (hf : r.Founded done) : r₁.Founded done₁ := by
  have agree : ∀ name ∈ done, r₁.get? name = r.get? name := fun name hname =>
    h.kept name (hf.subset_names hname)
  refine ⟨h.numbered, h.layers.grounded (hf.grounded.congr agree), h.layers.closed ?_⟩
  intro name hname rule hrule
  exact hf.closed name hname rule ((agree name hname).symm.trans hrule)

/-- Taking the next name. -/
theorem reserve (h : r.Numbered) (done : List Text) (rule : Node) :
    r.AddsLayers done (r.set (nameOf r.size) rule) done := by
  refine ⟨h.set_next rule, .ground, fun name hname => ?_, fun _ h _ => h⟩
  rw [get?_set, if_neg]
  rintro rfl
  exact h.next_not_mem hname

/-- Completing a rule whose name has been taken. -/
theorem complete (h : r.AddsLayers done r₁ done₁) {name : Text} {base nested : Node}
    (hnew : name ∉ r.names) (htaken : name ∈ r₁.names)
    (hl : Layer (r₁.set name (.alternation [base, nested])) name done₁ base nested) :
    r.AddsLayers done (r₁.set name (.alternation [base, nested])) (name :: done₁) := by
  have others : ∀ k, k ≠ name →
      (r₁.set name (.alternation [base, nested])).get? k = r₁.get? k := by
    intro k hk
    rw [get?_set, if_neg hk]
  refine ⟨h.numbered.set_again htaken _, .cons (h.layers.congr fun k hk _ => ?_) hl,
    fun k hk => ?_, fun k hk hmem => ?_⟩
  · exact others k (ne_of_mem_of_not_mem hk hl.new)
  · rw [others k (ne_of_mem_of_not_mem hk hnew), h.kept k hk]
  · rcases List.mem_cons.mp hk with rfl | hk
    · exact absurd hmem hnew
    · exact h.fresh k hk hmem

end AddsLayers

end Rules

section Nest

variable {r r₁ : Rules} {done done₁ : List Text} {old : Node} {left middle right : List Node}

theorem targets_sequenceOf_subset {ns : List Node} (h : ∀ n ∈ ns, n.targets ⊆ done) :
    (Node.sequenceOf ns).targets ⊆ done := by
  rw [Node.targets_sequenceOf]
  intro name hname
  obtain ⟨n, hn, hname⟩ := List.mem_flatMap.mp hname
  exact h n hn hname

/-- The nested branch of a new rule refers to the rule once: the parts on both sides refer to rules
completed before. -/
theorem Rules.count_nested (hf : r.Founded done) (hleft : ∀ n ∈ left, n.targets ⊆ done)
    (hright : ∀ n ∈ right, n.targets ⊆ done) :
    (Node.sequenceOf (left ++ [Node.recursive (nameOf r.size)] ++ right)).targets.count
      (nameOf r.size) = 1 := by
  have hnew : nameOf r.size ∉ done := fun hmem =>
    hf.numbered.next_not_mem (hf.subset_names hmem)
  have hother : ∀ ns : List Node, (∀ n ∈ ns, n.targets ⊆ done) →
      (ns.flatMap Node.targets).count (nameOf r.size) = 0 := fun ns hns => by
    refine List.count_eq_zero.mpr fun hmem => ?_
    obtain ⟨n, hn, hname⟩ := List.mem_flatMap.mp hmem
    exact hnew (hns n hn hname)
  rw [Node.targets_sequenceOf, List.flatMap_append, List.flatMap_append, List.count_append,
    List.count_append, hother left hleft, hother right hright]
  simp

namespace Rules.AddsLayers

/-- The name of a new rule is not completed while its inner part is given structure. -/
theorem nameOf_not_mem (hf : r.Founded done)
    (h : (r.set (nameOf r.size) old).AddsLayers done r₁ done₁) : nameOf r.size ∉ done₁ :=
  fun hmem => hf.numbered.next_not_mem (hf.subset_names
    (h.fresh _ hmem (mem_names_set.mpr (.inl rfl))))

/-- A new rule lies above the layers that its inner part was given structure with. -/
theorem layer_nestRule (hf : r.Founded done)
    (h : (r.set (nameOf r.size) old).AddsLayers done r₁ done₁)
    (hleft : ∀ n ∈ left, n.targets ⊆ done) (hmiddle : ∀ n ∈ middle, n.targets ⊆ done₁)
    (hright : ∀ n ∈ right, n.targets ⊆ done) :
    Layer (r₁.set (nameOf r.size) (nestRule (nameOf r.size) left middle right)) (nameOf r.size)
      done₁ (Node.sequenceOf (left ++ middle ++ right))
      (Node.sequenceOf (left ++ [Node.recursive (nameOf r.size)] ++ right)) where
  new := h.nameOf_not_mem hf
  get := by
    rw [get?_set, if_pos rfl]
    rfl
  base := by
    refine targets_sequenceOf_subset fun n hn => ?_
    rw [List.mem_append, List.mem_append] at hn
    rcases hn with (hn | hn) | hn
    · exact List.Subset.trans (hleft n hn) h.subset
    · exact hmiddle n hn
    · exact List.Subset.trans (hright n hn) h.subset
  once := count_nested hf hleft hright
  nested := by
    -- The nested branch refers to the new rule and to layers below it.
    have hsub := List.Subset.trans h.subset (List.subset_cons_self (nameOf r.size) _)
    refine targets_sequenceOf_subset fun n hn => ?_
    rw [List.mem_append, List.mem_append, List.mem_singleton] at hn
    rcases hn with (hn | rfl) | hn
    · exact List.Subset.trans (hleft n hn) hsub
    · simp
    · exact List.Subset.trans (hright n hn) hsub

/-- Completing a new rule. -/
theorem nest (hf : r.Founded done) (h : (r.set (nameOf r.size) old).AddsLayers done r₁ done₁)
    (hleft : ∀ n ∈ left, n.targets ⊆ done) (hmiddle : ∀ n ∈ middle, n.targets ⊆ done₁)
    (hright : ∀ n ∈ right, n.targets ⊆ done) :
    r.AddsLayers done (r₁.set (nameOf r.size) (nestRule (nameOf r.size) left middle right))
      (nameOf r.size :: done₁) :=
  ((reserve hf.numbered done old).trans h).complete hf.numbered.next_not_mem
    (h.extension.mem_names (mem_names_set.mpr (.inl rfl)))
    (h.layer_nestRule hf hleft hmiddle hright)

/-- Completing a new rule changes none of the rules that its inner part was given structure with. -/
theorem get?_set_nameOf (hf : r.Founded done)
    (h : (r.set (nameOf r.size) old).AddsLayers done r₁ done₁) (rule : Node) {k : Text}
    (hk : k ∈ done₁) : (r₁.set (nameOf r.size) rule).get? k = r₁.get? k := by
  rw [get?_set, if_neg (ne_of_mem_of_not_mem hk (h.nameOf_not_mem hf))]

/-- A new rule does not change the texts of the parts that its base is made of. -/
theorem text_nestBase (hf : r.Founded done)
    (h : (r.set (nameOf r.size) old).AddsLayers done r₁ done₁)
    (hleft : ∀ n ∈ left, n.targets ⊆ done) (hmiddle : ∀ n ∈ middle, n.targets ⊆ done₁)
    (hright : ∀ n ∈ right, n.targets ⊆ done) :
    (r₁.set (nameOf r.size) (nestRule (nameOf r.size) left middle right)).text
      (Node.sequenceOf (left ++ middle ++ right)) =
      r.texts left ++ r₁.texts middle ++ r.texts right := by
  have hnest := h.nest hf hleft hmiddle hright
  have hf₁ := h.founded ((reserve hf.numbered done old).founded hf)
  have hset : (r₁.set (nameOf r.size) (nestRule (nameOf r.size) left middle right)).texts middle =
      r₁.texts middle :=
    hf₁.grounded.texts_congr (fun k hk => h.get?_set_nameOf hf _ hk) hmiddle
  rw [text_sequenceOf, texts_append, texts_append, hset,
    hnest.extension.texts_eq hf.grounded hleft, hnest.extension.texts_eq hf.grounded hright]

/-- A reference to a new rule has the text of its base. -/
theorem text_nestRule (hf : r.Founded done)
    (h : (r.set (nameOf r.size) old).AddsLayers done r₁ done₁)
    (hleft : ∀ n ∈ left, n.targets ⊆ done) (hmiddle : ∀ n ∈ middle, n.targets ⊆ done₁)
    (hright : ∀ n ∈ right, n.targets ⊆ done) :
    (r₁.set (nameOf r.size) (nestRule (nameOf r.size) left middle right)).text
      (.recursive (nameOf r.size)) = r.texts left ++ r₁.texts middle ++ r.texts right := by
  have hl := h.layer_nestRule hf hleft hmiddle hright
  have hnest := h.nest hf hleft hmiddle hright
  rw [(hnest.founded hf).grounded.text_recursive hl.get hl.firstBase?
    (List.Subset.trans hl.base (List.subset_cons_self _ _)),
    h.text_nestBase hf hleft hmiddle hright]

/-- The nested branch of a new rule has the text of the base in the place of the inner part. -/
theorem text_nested (hf : r.Founded done)
    (h : (r.set (nameOf r.size) old).AddsLayers done r₁ done₁)
    (hleft : ∀ n ∈ left, n.targets ⊆ done) (hmiddle : ∀ n ∈ middle, n.targets ⊆ done₁)
    (hright : ∀ n ∈ right, n.targets ⊆ done) :
    (r₁.set (nameOf r.size) (nestRule (nameOf r.size) left middle right)).text
      (Node.sequenceOf (left ++ [.recursive (nameOf r.size)] ++ right)) =
      r.texts left ++ (r.texts left ++ r₁.texts middle ++ r.texts right) ++ r.texts right := by
  have hnest := h.nest hf hleft hmiddle hright
  rw [text_sequenceOf, texts_append, texts_append, texts_cons, texts_nil, List.append_nil,
    h.text_nestRule hf hleft hmiddle hright, hnest.extension.texts_eq hf.grounded hleft,
    hnest.extension.texts_eq hf.grounded hright]

end Rules.AddsLayers

end Nest

namespace Restructured

variable {R : Replies} {ns ns' : List Node} {c : Context} {m m' : Memory} {done : List Text}

/-- **Layers.** Giving structure to nodes that refer to founded rules adds layers to these rules,
which the new nodes refer to. There are nodes where there were some, and the classes in memory
stay. -/
theorem addsLayers (h : Restructured R ns c m ns' m') (hf : m.rules.Founded done)
    (hns : ∀ n ∈ ns, n.targets ⊆ done) :
    ∃ done', m.rules.AddsLayers done m'.rules done' ∧ (∀ n ∈ ns', n.targets ⊆ done') ∧
      (ns ≠ [] → ns' ≠ []) ∧ m'.classes = m.classes := by
  induction h generalizing done with
  | keep ns c m => exact ⟨done, .refl hf.numbered done, hns, id, rfl⟩
  | abandon sub _ _ ih₁ ih₂ =>
    obtain ⟨done₁, hx₁, -, -, hc₁⟩ := ih₁ hf fun n hn => hns n (sub hn)
    obtain ⟨done₂, hx₂, htargets, hne, hc₂⟩ := ih₂ (hx₁.founded hf) fun n hn =>
      List.Subset.trans (hns n hn) hx₁.subset
    exact ⟨done₂, hx₁.trans hx₂, htargets, hne, hc₂.trans hc₁⟩
  | @fold ns pre first post body left right copies c m m₁ m₂ m₃ least parts _ _ _ _ ih₁ ih₂ ih₃ =>
    rw [parts.split] at hns
    obtain ⟨done₁, hx₁, hbody, -, hc₁⟩ := ih₁ hf fun n hn => hns n (by simp [hn])
    obtain ⟨done₂, hx₂, hleft, -, hc₂⟩ := ih₂ (hx₁.founded hf) fun n hn =>
      List.Subset.trans (hns n (by simp [hn])) hx₁.subset
    have hx₁₂ := hx₁.trans hx₂
    obtain ⟨done₃, hx₃, hright, -, hc₃⟩ := ih₃ (hx₁₂.founded hf) fun n hn =>
      List.Subset.trans (hns n (by simp [hn])) hx₁₂.subset
    -- Later layers do not hide earlier ones, so that all new nodes refer to the last stack.
    refine ⟨done₃, hx₁₂.trans hx₃, ?_, fun _ => by simp, hc₃.trans (hc₂.trans hc₁)⟩
    intro n hn
    rw [List.mem_append, List.mem_append, List.mem_singleton] at hn
    rcases hn with (hn | rfl) | hn
    · exact List.Subset.trans (hleft n hn) hx₃.subset
    · rw [Node.targets_repetition]
      exact List.Subset.trans (targets_sequenceOf_subset hbody)
        (List.Subset.trans hx₂.subset hx₃.subset)
    · exact hright n hn
  | @nest left middle right middle' c m m₁ _ _ ih =>
    have hleft : ∀ n ∈ left, n.targets ⊆ done := fun n hn => hns n (by simp [hn])
    have hright : ∀ n ∈ right, n.targets ⊆ done := fun n hn => hns n (by simp [hn])
    have hreserve := Rules.AddsLayers.reserve hf.numbered done
      (Node.sequenceOf (left ++ middle ++ right))
    obtain ⟨done₁, hx, hmiddle, -, hc⟩ :=
      ih (hreserve.founded hf) fun n hn => hns n (by simp [hn])
    exact ⟨_, hx.nest hf hleft hmiddle hright, by simp, fun _ => by simp, hc⟩

/-- The layers that are added while copies become a repetition. The nodes in the run are given
structure first, then those before it and those after it, each time on top of all earlier layers. -/
structure FoldLayers (r r₁ r₂ r₃ : Rules) (pre post body left : List Node)
    (done done₁ done₂ done₃ : List Text) : Prop where
  /-- The layers of the nodes in the run. -/
  inside : r.AddsLayers done r₁ done₁
  /-- The layers of the nodes before the run. -/
  before : r₁.AddsLayers done₁ r₂ done₂
  /-- The layers of the nodes after the run. -/
  after : r₂.AddsLayers done₂ r₃ done₃
  /-- The rules are founded when the body has structure. -/
  founded₁ : r₁.Founded done₁
  /-- And they are when the nodes before the run have structure, too. -/
  founded₂ : r₂.Founded done₂
  /-- The nodes before the run refer to rules that were there. -/
  pre : ∀ n ∈ pre, n.targets ⊆ done₁
  /-- So do the nodes after the run. -/
  post : ∀ n ∈ post, n.targets ⊆ done₁
  /-- The body refers to rules that were there once it had structure. -/
  body : ∀ n ∈ body, n.targets ⊆ done₁
  /-- So do the new nodes before the run. -/
  left : ∀ n ∈ left, n.targets ⊆ done₂

theorem exists_foldLayers {first pre post body left right : List Node} {c c₁ c₂ : Context}
    {m m₁ m₂ m₃ : Memory} (hf : m.rules.Founded done) (hfirst : ∀ n ∈ first, n.targets ⊆ done)
    (hpre : ∀ n ∈ pre, n.targets ⊆ done) (hpost : ∀ n ∈ post, n.targets ⊆ done)
    (inside : Restructured R first c m body m₁) (before : Restructured R pre c₁ m₁ left m₂)
    (after : Restructured R post c₂ m₂ right m₃) :
    ∃ done₁ done₂ done₃, FoldLayers m.rules m₁.rules m₂.rules m₃.rules pre post body left
      done done₁ done₂ done₃ := by
  obtain ⟨done₁, hx₁, hbody, -⟩ := inside.addsLayers hf hfirst
  have hf₁ := hx₁.founded hf
  have hpre₁ : ∀ n ∈ pre, n.targets ⊆ done₁ := fun n hn =>
    List.Subset.trans (hpre n hn) hx₁.subset
  have hpost₁ : ∀ n ∈ post, n.targets ⊆ done₁ := fun n hn =>
    List.Subset.trans (hpost n hn) hx₁.subset
  obtain ⟨done₂, hx₂, hleft, -⟩ := before.addsLayers hf₁ hpre₁
  have hf₂ := hx₂.founded hf₁
  obtain ⟨done₃, hx₃, -⟩ := after.addsLayers hf₂ fun n hn =>
    List.Subset.trans (hpost₁ n hn) hx₂.subset
  exact ⟨done₁, done₂, done₃, hx₁, hx₂, hx₃, hf₁, hf₂, hpre₁, hpost₁, hbody, hleft⟩

end Restructured

/-! ### Conditions on every node -/

/-- A condition on single nodes that giving structure cannot break: it is met by sequences of nodes
that are not empty, by alternations of such nodes, by repetitions without a greatest count, and by
references. -/
structure Node.Builds (P : Node → Prop) : Prop where
  /-- Nodes side by side. -/
  sequence : ∀ {ns : List Node}, ns.length ≠ 1 → (∀ n ∈ ns, n ≠ empty) → P (.sequence ns)
  /-- A base and a nested branch. -/
  alternation : ∀ {base nested : Node}, nested ≠ empty → P (.alternation [base, nested])
  /-- Copies of a node. -/
  repetition : ∀ (body : Node) (least : Nat), P (.repetition body (.atLeast least))
  /-- A reference. -/
  recursive : ∀ name : Text, P (.recursive name)

namespace Node.Builds

variable {P : Node → Prop} {ns : List Node}

theorem throughout_sequenceOf (hP : Builds P) (h : ∀ n ∈ ns, n ≠ empty ∧ n.Throughout P) :
    (sequenceOf ns).Throughout P := by
  unfold sequenceOf
  split
  · exact (h _ (.head _)).2
  · next hne =>
    refine throughout_sequence.mpr ⟨hP.sequence (fun hlen => ?_) fun n hn => (h n hn).1,
      fun n hn => (h n hn).2⟩
    obtain ⟨n, rfl⟩ := List.length_eq_one_iff.mp hlen
    exact hne n rfl

/-- Nodes side by side are not empty if one of them is not. -/
theorem sequenceOf_ne_empty (hne : ns ≠ []) (h : ∀ n ∈ ns, n ≠ empty) :
    sequenceOf ns ≠ empty := by
  unfold sequenceOf
  split
  · exact h _ (.head _)
  · intro heq
    exact hne (Node.sequence.inj heq)

theorem throughout_nestRule (hP : Builds P) {left middle right : List Node} (name : Text)
    (hleft : ∀ n ∈ left, n ≠ empty ∧ n.Throughout P)
    (hmiddle : ∀ n ∈ middle, n ≠ empty ∧ n.Throughout P)
    (hright : ∀ n ∈ right, n ≠ empty ∧ n.Throughout P) :
    (nestRule name left middle right).Throughout P := by
  have hself : ∀ n ∈ [Node.recursive name], n ≠ empty ∧ n.Throughout P :=
    List.forall_mem_singleton.mpr ⟨by simp [empty], throughout_recursive.mpr (hP.recursive name)⟩
  have hnested : ∀ n ∈ left ++ [Node.recursive name] ++ right, n ≠ empty ∧ n.Throughout P :=
    List.forall_mem_append.mpr ⟨List.forall_mem_append.mpr ⟨hleft, hself⟩, hright⟩
  have hbase : ∀ n ∈ left ++ middle ++ right, n ≠ empty ∧ n.Throughout P :=
    List.forall_mem_append.mpr ⟨List.forall_mem_append.mpr ⟨hleft, hmiddle⟩, hright⟩
  refine throughout_alternation.mpr ⟨hP.alternation ?_, ?_⟩
  · exact sequenceOf_ne_empty (by simp) fun n hn => (hnested n hn).1
  · simp only [List.forall_mem_cons]
    exact ⟨hP.throughout_sequenceOf hbase, hP.throughout_sequenceOf hnested, by simp⟩

end Node.Builds

/-- **Conditions.** What giving structure cannot break holds throughout the new nodes, which are not
empty, and throughout the rules that have been set. -/
theorem Restructured.throughout {R : Replies} {ns ns' : List Node} {c : Context} {m m' : Memory}
    {P : Node → Prop} (hP : Node.Builds P) (h : Restructured R ns c m ns' m')
    (hns : ∀ n ∈ ns, n ≠ .empty ∧ n.Throughout P) :
    (∀ n ∈ ns', n ≠ .empty ∧ n.Throughout P) ∧
      ∀ name rule, m'.rules.get? name = some rule →
        m.rules.get? name = some rule ∨ rule.Throughout P := by
  induction h with
  | keep => exact ⟨hns, fun _ _ h => .inl h⟩
  | abandon sub _ _ ih₁ ih₂ =>
    obtain ⟨-, hrules₁⟩ := ih₁ fun n hn => hns n (sub hn)
    obtain ⟨hnodes, hrules₂⟩ := ih₂ hns
    exact ⟨hnodes, fun name rule h => (hrules₂ name rule h).elim (hrules₁ name rule) .inr⟩
  | @fold ns pre first post body left right copies c m m₁ m₂ m₃ least parts _ _ _ _ ih₁ ih₂ ih₃ =>
    rw [parts.split] at hns
    obtain ⟨hbody, hrules₁⟩ := ih₁ fun n hn => hns n (by simp [hn])
    obtain ⟨hleft, hrules₂⟩ := ih₂ fun n hn => hns n (by simp [hn])
    obtain ⟨hright, hrules₃⟩ := ih₃ fun n hn => hns n (by simp [hn])
    refine ⟨List.forall_mem_append.mpr ⟨List.forall_mem_append.mpr ⟨hleft, ?_⟩, hright⟩, ?_⟩
    · refine List.forall_mem_singleton.mpr ⟨by simp [Node.empty], ?_⟩
      exact Node.throughout_repetition.mpr ⟨hP.repetition _ _, hP.throughout_sequenceOf hbody⟩
    · intro name rule h
      rcases hrules₃ name rule h with h | h
      · exact (hrules₂ name rule h).elim (hrules₁ name rule) .inr
      · exact .inr h
  | @nest left middle right middle' c m m₁ _ _ ih =>
    have hleft : ∀ n ∈ left, n ≠ .empty ∧ n.Throughout P := fun n hn => hns n (by simp [hn])
    have hright : ∀ n ∈ right, n ≠ .empty ∧ n.Throughout P := fun n hn => hns n (by simp [hn])
    obtain ⟨hmiddle, hrules⟩ := ih fun n hn => hns n (by simp [hn])
    refine ⟨List.forall_mem_singleton.mpr ⟨by simp [Node.empty],
      Node.throughout_recursive.mpr (hP.recursive _)⟩, fun name rule h => ?_⟩
    -- The completed rule is a new one; any other was there before or has been set inside.
    simp only [Memory.setRule, Rules.get?_set] at h
    split at h
    · obtain rfl := Option.some.inj h
      exact .inr (hP.throughout_nestRule _ hleft hmiddle hright)
    · next hother =>
      rcases hrules name rule h with h | h
      · simp only [Memory.setRule, Rules.get?_set] at h
        rw [if_neg hother] at h
        exact .inl h
      · exact .inr h

/-! ### Tidy rules -/

namespace Node

/-- Whether a node has the shape of a learned node, the nodes below it aside, for some rules. -/
def FormHere (n : Node) : Prop := ∃ done, n.TidyHere done

theorem builds_formHere : Builds FormHere where
  sequence hlen hne := ⟨[], hlen, fun hmem => hne _ hmem rfl⟩
  alternation hne := ⟨[], by simp, _, by simp, hne⟩
  repetition _ _ := ⟨[], rfl⟩
  recursive name := ⟨[name], .head _⟩

/-- A tidy node has the shape of learned nodes, and refers to the given rules only. -/
theorem tidy_iff {done : List Text} {n : Node} :
    n.Tidy done ↔ n.Throughout FormHere ∧ n.targets ⊆ done := by
  refine ⟨fun h => ⟨fun m hm => ⟨done, h m hm⟩, h.targets_subset⟩, fun ⟨hform, htargets⟩ => ?_⟩
  intro m hm
  obtain ⟨done', hm'⟩ := hform m hm
  cases m with
  | recursive name => exact throughout_refersHere.mpr htargets _ hm name rfl
  | _ => exact hm'

theorem Part.form {done : List Text} {n : Node} (h : n.Part done) :
    n ≠ empty ∧ n.Throughout FormHere :=
  ⟨h.ne_empty, (tidy_iff.mp h.tidy).1⟩

end Node

namespace Rules

/-- Names are numbers, and the completed rules are tidy and lie in layers. -/
structure Ordered (r : Rules) (done : List Text) : Prop where
  /-- Every name is that of a number. -/
  numbered : r.Numbered
  /-- The completed rules lie in layers. -/
  layered : r.Layered done
  /-- The completed rules are tidy. -/
  tidy : ∀ name ∈ done, ∀ rule, r.get? name = some rule → rule.Tidy done

theorem ordered_empty : empty.Ordered [] := ⟨numbered_empty, .nil, by simp⟩

theorem Ordered.founded {r : Rules} {done : List Text} (h : r.Ordered done) : r.Founded done :=
  ⟨h.numbered, h.layered.grounded, h.layered.closed⟩

/-- A table and its completed rules some steps later, in order again. -/
structure Grows (r : Rules) (done : List Text) (r' : Rules) (done' : List Text) : Prop where
  /-- The later table is in order. -/
  ordered : r'.Ordered done'
  /-- Completed rules remain completed. -/
  subset : done ⊆ done'
  /-- All names keep their rules. -/
  kept : ∀ name ∈ r.names, r'.get? name = r.get? name
  /-- Newly completed rules have new names. -/
  fresh : ∀ name ∈ done', name ∈ r.names → name ∈ done

namespace Grows

variable {r r₁ r₂ : Rules} {done done₁ done₂ : List Text}

theorem extension (h : r.Grows done r₁ done₁) : r.Extends done r₁ done₁ :=
  ⟨h.subset, h.kept, h.fresh⟩

theorem of_extends (h : r.Extends done r₁ done₁) (ho : r₁.Ordered done₁) :
    r.Grows done r₁ done₁ :=
  ⟨ho, h.subset, h.kept, h.fresh⟩

theorem refl (h : r.Ordered done) : r.Grows done r done := of_extends (.refl r done) h

theorem trans (h : r.Grows done r₁ done₁) (h' : r₁.Grows done₁ r₂ done₂) :
    r.Grows done r₂ done₂ :=
  of_extends (h.extension.trans h'.extension) h'.ordered

/-- Texts are the same later on. -/
theorem text_eq (h : r.Grows done r₁ done₁) (hr : r.Ordered done) {n : Node}
    (hn : n.Tidy done) : r₁.text n = r.text n :=
  h.extension.text_eq hr.layered.grounded hn.targets_subset

end Grows

end Rules

/-- **Growth.** Giving structure to tidy parts gives tidy parts and lets the rules grow; the
classes in memory stay. -/
theorem Restructured.grows {R : Replies} {ns ns' : List Node} {c : Context} {m m' : Memory}
    {done : List Text} (h : Restructured R ns c m ns' m') (ho : m.rules.Ordered done)
    (hns : ∀ n ∈ ns, n.Part done) :
    ∃ done', m.rules.Grows done m'.rules done' ∧ (∀ n ∈ ns', n.Part done') ∧
      (ns ≠ [] → ns' ≠ []) ∧ m'.classes = m.classes := by
  obtain ⟨done', hx, htargets, hne, hc⟩ :=
    h.addsLayers ho.founded fun n hn => (hns n hn).tidy.targets_subset
  obtain ⟨hform, hrules⟩ := h.throughout Node.builds_formHere fun n hn => (hns n hn).form
  have agree : ∀ name ∈ done, m'.rules.get? name = m.rules.get? name := fun name hname =>
    hx.kept name (ho.layered.subset_names hname)
  have hlayered := hx.layers.layered (ho.layered.congr agree)
  refine ⟨done', .of_extends hx.extension ⟨hx.numbered, hlayered, fun name hname rule hget => ?_⟩,
    fun n hn => ⟨(hform n hn).1, Node.tidy_iff.mpr ⟨(hform n hn).2, htargets n hn⟩⟩, hne, hc⟩
  -- A rule of the later table was there before and is tidy, or it has been set in the meantime.
  rcases hrules name rule hget with hold | hrule
  · have hname := hx.fresh name hname (Rules.mem_names_of_get? hold)
    exact (ho.tidy name hname rule hold).mono hx.subset
  · exact Node.tidy_iff.mpr ⟨hrule, hlayered.closed name hname rule hget⟩

end GrammarInference
