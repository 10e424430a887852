import GrammarInference.Grammar.Render
import GrammarInference.Learn.Learner
import GrammarInference.Proofs.Shape
import GrammarInference.Proofs.Tables
import Mathlib.Data.List.Dedup
import Mathlib.Data.List.Perm.Subperm

/-!
# Default texts and the order of rules

`Rules.text` gives every node a text by the recursion of the default rendering, with the empty text
in the place of every fault. It obeys plain equations, and it is the default text of every node
that has one (`Rules.text_of_defaultText`).

Rules are *grounded* if the base of each leads down to rules without references; a node that refers
to grounded rules has a default text (`Rules.Grounded.defaultText`). The texts of grounded rules
depend on these rules alone: a table that has the same rules there gives the same texts, whatever
else it holds (`Rules.Grounded.text_congr`).
-/

namespace GrammarInference

namespace Node

mutual

/-- The text of a node, where `rule` gives the text of a reference. -/
def textWith (rule : Text → Text) : Node → Text
  | .literal l => l.text
  | .sequence cs => textsWith rule cs
  | .alternation [] => []
  | .alternation (o :: _) => textWith rule o
  | .repetition b x => Text.times (textWith rule b) x.min
  | .recursive name => rule name

/-- The texts of several nodes, one after another. -/
def textsWith (rule : Text → Text) : List Node → Text
  | [] => []
  | n :: rest => textWith rule n ++ textsWith rule rest

end

variable {rule rule' : Text → Text}

mutual

/-- The text of a node depends on the rules it refers to. -/
theorem textWith_congr : ∀ {n : Node}, (∀ name ∈ n.targets, rule name = rule' name) →
    n.textWith rule = n.textWith rule'
  | .literal _, _ => by simp only [textWith]
  | .sequence cs, h => by
    rw [targets_sequence] at h
    simp only [textWith]
    exact textsWith_congr h
  | .alternation [], _ => by simp only [textWith]
  | .alternation (o :: _), h => by
    rw [targets_alternation] at h
    simp only [textWith]
    exact textWith_congr fun name hname => h name (List.mem_append_left _ hname)
  | .repetition b _, h => by
    rw [targets_repetition] at h
    simp only [textWith]
    rw [textWith_congr (n := b) h]
  | .recursive name, h => by
    simp only [textWith]
    exact h name (by simp)

theorem textsWith_congr : ∀ {ns : List Node},
    (∀ name ∈ ns.flatMap targets, rule name = rule' name) → textsWith rule ns = textsWith rule' ns
  | [], _ => rfl
  | n :: rest, h => by
    simp only [textsWith]
    rw [textWith_congr (n := n) fun name hname => h name (List.mem_append_left _ hname),
      textsWith_congr fun name hname => h name (List.mem_append_right _ hname)]

end

mutual

/-- Where every reference of a node has a default text, the node has one. -/
theorem renderWith_eq_textWith {r : Text → Except RenderFault Text} :
    ∀ {n : Node}, (∀ name ∈ n.targets, r name = .ok (rule name)) →
      n.renderWith .unbounded r = .ok (n.textWith rule)
  | .literal _, _ => by simp only [renderWith, textWith]
  | .sequence cs, h => by
    rw [targets_sequence] at h
    simp only [renderWith, textWith]
    exact renderAllWith_eq_textsWith h
  | .alternation [], _ => by simp only [renderWith, textWith]
  | .alternation (o :: _), h => by
    rw [targets_alternation] at h
    simp only [renderWith, textWith]
    exact renderWith_eq_textWith fun name hname => h name (List.mem_append_left _ hname)
  | .repetition b _, h => by
    rw [targets_repetition] at h
    simp only [renderWith, textWith]
    rw [renderWith_eq_textWith (n := b) h]
    rfl
  | .recursive name, h => by
    simp only [renderWith, textWith]
    exact h name (by simp)

theorem renderAllWith_eq_textsWith {r : Text → Except RenderFault Text} :
    ∀ {ns : List Node}, (∀ name ∈ ns.flatMap targets, r name = .ok (rule name)) →
      renderAllWith .unbounded r ns = .ok (textsWith rule ns)
  | [], _ => rfl
  | n :: rest, h => by
    simp only [renderAllWith, textsWith]
    rw [renderWith_eq_textWith (n := n) fun name hname => h name (List.mem_append_left _ hname),
      renderAllWith_eq_textsWith fun name hname =>
        h name (List.mem_append_right _ hname)]

end

mutual

/-- A default text is the text of the node, if every reference with a default text has that one. -/
theorem textWith_of_renderWith {r : Text → Except RenderFault Text}
    (hr : ∀ name t, r name = .ok t → rule name = t) :
    ∀ {n : Node} {t : Text}, n.renderWith .unbounded r = .ok t → n.textWith rule = t
  | .literal _, _, h => by
    simp only [renderWith] at h
    simp only [textWith]
    exact Except.ok.inj h
  | .sequence cs, _, h => by
    simp only [renderWith] at h
    simp only [textWith]
    exact textsWith_of_renderAllWith hr h
  | .alternation [], _, h => by
    simp only [renderWith] at h
    simp only [textWith]
    exact Except.ok.inj h
  | .alternation (o :: _), _, h => by
    simp only [renderWith] at h
    simp only [textWith]
    exact textWith_of_renderWith hr h
  | .repetition b _, _, h => by
    simp only [renderWith] at h
    simp only [textWith]
    split at h
    · next u hu =>
      rw [textWith_of_renderWith hr hu]
      exact Except.ok.inj h
    · cases h
  | .recursive name, _, h => by
    simp only [renderWith] at h
    simp only [textWith]
    exact hr name _ h

theorem textsWith_of_renderAllWith {r : Text → Except RenderFault Text}
    (hr : ∀ name t, r name = .ok t → rule name = t) :
    ∀ {ns : List Node} {t : Text}, renderAllWith .unbounded r ns = .ok t → textsWith rule ns = t
  | [], _, h => Except.ok.inj h
  | n :: rest, _, h => by
    simp only [renderAllWith] at h
    simp only [textsWith]
    split at h
    · cases h
    · next u hu =>
      split at h
      · cases h
      · next v hv =>
        rw [textWith_of_renderWith hr hu, textsWith_of_renderAllWith hr hv]
        exact Except.ok.inj h

end

end Node

namespace Rules

/-- The text of a reference, following at most `steps` references in a row. -/
def textRule (r : Rules) : Nat → Text → Text
  | 0, _ => []
  | steps + 1, name =>
    match (r.get? name).bind fun rule => rule.firstBase? name with
    | some branch => branch.textWith (r.textRule steps)
    | none => []

/-- The text of a node; the default text if there is one. -/
def text (r : Rules) (n : Node) : Text := n.textWith (r.textRule (r.size + 1))

/-- The texts of several nodes, one after another. -/
def texts (r : Rules) (ns : List Node) : Text := Node.textsWith (r.textRule (r.size + 1)) ns

section Texts

variable (r : Rules)

@[simp] theorem text_literal (l : Literal) : r.text (.literal l) = l.text := by
  rw [text, Node.textWith]

@[simp] theorem text_sequence (cs : List Node) : r.text (.sequence cs) = r.texts cs := by
  rw [text, Node.textWith, texts]

@[simp] theorem text_alternation_nil : r.text (.alternation []) = [] := by
  rw [text, Node.textWith]

@[simp] theorem text_alternation (o : Node) (os : List Node) :
    r.text (.alternation (o :: os)) = r.text o := by
  rw [text, Node.textWith, text]

@[simp] theorem text_repetition (b : Node) (x : Bounds) :
    r.text (.repetition b x) = Text.times (r.text b) x.min := by
  rw [text, Node.textWith, text]

@[simp] theorem texts_nil : r.texts [] = [] := by rw [texts, Node.textsWith]

@[simp] theorem texts_cons (n : Node) (ns : List Node) :
    r.texts (n :: ns) = r.text n ++ r.texts ns := by
  rw [texts, Node.textsWith, text, texts]

@[simp] theorem texts_append (as bs : List Node) :
    r.texts (as ++ bs) = r.texts as ++ r.texts bs := by
  induction as with
  | nil => simp
  | cons a as ih => simp [ih]

@[simp] theorem text_sequenceOf (ns : List Node) :
    r.text (Node.sequenceOf ns) = r.texts ns := by
  unfold Node.sequenceOf
  split
  · simp
  · exact r.text_sequence _

/-- Texts side by side are one text. -/
theorem texts_eq_flatMap (ns : List Node) : r.texts ns = ns.flatMap r.text := by
  induction ns with
  | nil => simp
  | cons n ns ih => simp [ih]

@[simp] theorem texts_children (n : Node) : r.texts n.children = r.text n := by
  cases n with
  | sequence cs => exact (r.text_sequence cs).symm
  | _ => simp [Node.children]

end Texts

/-! ### Default texts -/

private theorem textRule_of_renderRule {r : Rules} {steps : Nat} {name t : Text}
    (h : r.renderRule .unbounded steps name = .ok t) : r.textRule steps name = t := by
  induction steps generalizing name t with
  | zero => cases h
  | succ steps ih =>
    simp only [renderRule] at h
    split at h
    · cases h
    · next rule hrule =>
      split at h
      · cases h
      · next branch hbranch =>
        simp only [textRule, hrule, Option.bind_some, hbranch]
        exact Node.textWith_of_renderWith (fun _ _ => ih) h

/-- The text of a node is its default text, if it has one. -/
theorem text_of_defaultText {r : Rules} {n : Node} {t : Text} (h : r.defaultText n = .ok t) :
    r.text n = t :=
  Node.textWith_of_renderWith (fun _ _ => textRule_of_renderRule) h

theorem texts_of_defaultTexts {r : Rules} {ns : List Node} {t : Text}
    (h : r.defaultTexts ns = .ok t) : r.texts ns = t :=
  Node.textsWith_of_renderAllWith (fun _ _ => textRule_of_renderRule) h

/-! ### Grounded rules -/

/-- The rules `done`, the latest first, whose bases lead down to rules without references: the base
of each refers to rules after it in the list. -/
inductive Grounded (r : Rules) : List Text → Prop
  /-- No rules are grounded. -/
  | nil : Grounded r []
  /-- One more rule, whose base refers to grounded rules. -/
  | cons {name : Text} {older : List Text} {rule base : Node} (below : Grounded r older)
    (get : r.get? name = some rule) (first : rule.firstBase? name = some base)
    (needs : base.targets ⊆ older) : Grounded r (name :: older)

namespace Grounded

variable {r r' : Rules} {done : List Text}

/-- Grounded rules are rules of the table. -/
theorem subset_names (h : Grounded r done) : done ⊆ r.names := by
  induction h with
  | nil => exact List.nil_subset _
  | cons _ get _ _ ih => exact List.cons_subset.mpr ⟨mem_names_of_get? get, ih⟩

/-- Of several places in the list the last one suffices. -/
theorem dedup (h : Grounded r done) : Grounded r done.dedup := by
  induction h with
  | nil => exact .nil
  | @cons name older _ _ _ get first needs ih =>
    by_cases hmem : name ∈ older
    · rwa [List.dedup_cons_of_mem hmem]
    · rw [List.dedup_cons_of_notMem hmem]
      exact .cons ih get first fun k hk => List.mem_dedup.mpr (needs hk)

theorem length_le (h : Grounded r done) (hnodup : done.Nodup) : done.length ≤ r.size := by
  have hle := (List.subperm_of_subset hnodup h.subset_names).length_le
  rwa [names, List.length_map] at hle

/-- References to grounded rules have default texts. -/
theorem renderRule_eq (h : Grounded r done) {steps : Nat} (hs : done.length ≤ steps) {name : Text}
    (hname : name ∈ done) :
    r.renderRule .unbounded steps name = .ok (r.textRule steps name) := by
  induction h generalizing steps name with
  | nil => cases hname
  | @cons top older rule base below get first needs ih =>
    rw [List.length_cons] at hs
    rcases List.mem_cons.mp hname with rfl | hname
    · obtain ⟨steps, rfl⟩ := Nat.exists_eq_add_of_le' (Nat.le_trans (Nat.le_add_left 1 _) hs)
      have hrender : r.renderRule .unbounded (steps + 1) name =
          base.renderWith .unbounded (r.renderRule .unbounded steps) := by
        simp only [renderRule, get, first]
      have htext : r.textRule (steps + 1) name = base.textWith (r.textRule steps) := by
        simp only [textRule, get, Option.bind_some, first]
      rw [hrender, htext]
      refine Node.renderWith_eq_textWith fun k hk => ?_
      exact ih (by omega) (needs hk)
    · exact ih (by omega) hname

/-- There are enough steps for all references to grounded rules. -/
theorem renderRule_size (h : Grounded r done) {name : Text} (hname : name ∈ done) :
    r.renderRule .unbounded (r.size + 1) name = .ok (r.textRule (r.size + 1) name) :=
  h.dedup.renderRule_eq (Nat.le_succ_of_le (h.dedup.length_le done.nodup_dedup))
    (List.mem_dedup.mpr hname)

/-- **Default texts.** A node that refers to grounded rules has a default text. -/
theorem defaultText (h : Grounded r done) {n : Node} (hn : n.targets ⊆ done) :
    r.defaultText n = .ok (r.text n) :=
  Node.renderWith_eq_textWith fun _ hname => h.renderRule_size (hn hname)

theorem defaultTexts (h : Grounded r done) {ns : List Node} (hns : ∀ n ∈ ns, n.targets ⊆ done) :
    r.defaultTexts ns = .ok (r.texts ns) := by
  refine Node.renderAllWith_eq_textsWith fun name hname => ?_
  obtain ⟨n, hn, hname⟩ := List.mem_flatMap.mp hname
  exact h.renderRule_size (hns n hn hname)

/-! ### Stability -/

/-- In a table with the same rules there, they are grounded too. -/
theorem congr (h : Grounded r done) (agree : ∀ name ∈ done, r'.get? name = r.get? name) :
    Grounded r' done := by
  induction h with
  | nil => exact .nil
  | cons _ get first needs ih =>
    exact .cons (ih fun k hk => agree k (.tail _ hk)) ((agree _ (.head _)).trans get) first needs

/-- **Stability.** The texts of grounded rules depend on these rules alone. -/
theorem textRule_congr (h : Grounded r done) (agree : ∀ name ∈ done, r'.get? name = r.get? name)
    {steps steps' : Nat} (hs : done.length ≤ steps) (hs' : done.length ≤ steps') {name : Text}
    (hname : name ∈ done) : r'.textRule steps' name = r.textRule steps name := by
  induction h generalizing steps steps' name with
  | nil => cases hname
  | @cons top older rule base below get first needs ih =>
    have lower : ∀ k ∈ older, r'.get? k = r.get? k := fun k hk => agree k (.tail _ hk)
    rw [List.length_cons] at hs hs'
    rcases List.mem_cons.mp hname with rfl | hname
    · obtain ⟨steps, rfl⟩ := Nat.exists_eq_add_of_le' (Nat.le_trans (Nat.le_add_left 1 _) hs)
      obtain ⟨steps', rfl⟩ := Nat.exists_eq_add_of_le' (Nat.le_trans (Nat.le_add_left 1 _) hs')
      simp only [textRule, agree name (.head _), get, Option.bind_some, first]
      exact Node.textWith_congr fun k hk => ih lower (by omega) (by omega) (needs hk)
    · exact ih lower (by omega) (by omega) hname

/-- A table with the same grounded rules gives a node the same text. -/
theorem text_congr (h : Grounded r done) (agree : ∀ name ∈ done, r'.get? name = r.get? name)
    {n : Node} (hn : n.targets ⊆ done) : r'.text n = r.text n := by
  refine Node.textWith_congr fun name hname => ?_
  have agree : ∀ name ∈ done.dedup, r'.get? name = r.get? name := fun name hname =>
    agree name (List.mem_dedup.mp hname)
  refine h.dedup.textRule_congr agree ?_ ?_ (List.mem_dedup.mpr (hn hname))
  · exact Nat.le_succ_of_le (h.dedup.length_le done.nodup_dedup)
  · exact Nat.le_succ_of_le ((h.dedup.congr agree).length_le done.nodup_dedup)

theorem texts_congr (h : Grounded r done) (agree : ∀ name ∈ done, r'.get? name = r.get? name)
    {ns : List Node} (hns : ∀ n ∈ ns, n.targets ⊆ done) : r'.texts ns = r.texts ns := by
  induction ns with
  | nil => rw [texts_nil, texts_nil]
  | cons n ns ih =>
    rw [texts_cons, texts_cons, h.text_congr agree (hns n (.head _)),
      ih fun m hm => hns m (.tail _ hm)]

/-- A reference has the text of the base of its rule. -/
theorem text_recursive (h : Grounded r done) {name : Text} {rule base : Node}
    (get : r.get? name = some rule) (first : rule.firstBase? name = some base)
    (needs : base.targets ⊆ done) : r.text (.recursive name) = r.text base := by
  have hlength := h.dedup.length_le done.nodup_dedup
  rw [text, Node.textWith, textRule]
  simp only [get, Option.bind_some, first]
  refine Node.textWith_congr fun k hk => ?_
  exact h.dedup.textRule_congr (fun _ _ => rfl) (Nat.le_succ_of_le hlength) hlength
    (List.mem_dedup.mpr (needs hk))

end Grounded

end Rules

end GrammarInference
