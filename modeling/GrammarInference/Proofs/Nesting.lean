import GrammarInference.Proofs.Depth
import GrammarInference.Proofs.Refusals
import GrammarInference.Proofs.Soundness

/-!
# Rules for nested regions

A region that may stand in the place of its own inner part becomes a reference to a new rule, which
has the region as its base and, as its other branch, the region around the rule itself
(`Learner.nestRegion`). Two texts are accepted before: the region in the place of its inner part,
and once more within that.

The inner part is given structure after these queries, and that may change its default text. The
base stays accepted (`Session.accepts_of_nestRegion`), since every step of giving structure keeps
the input accepted; so does the nested branch as long as the text of the base is the text of the
region. When it is another one, the nested branch has a text that nobody asked about:
`Session.nested_rejected` is a rule whose nested branch is rejected.
-/

namespace GrammarInference

namespace Learner

variable {R : Replies} {limits : Limits} {nodes : List Node} {c : Context} {m m' : Memory}

/-- Turns a region into a reference to a new rule, if it can be nested in itself. -/
def nestRegion (limits : Limits) (nodes : List Node) (c : Context) :
    Learner (Option (List Node)) := do
  let texts ← renderEach nodes
  firstNesting (structureRegion limits) nodes c texts
    (nestingSplits texts limits.maxRecursionCandidates)

/-- Giving structure to a region turns a run into a repetition, or else nests the region. -/
theorem structureRegion_eq_nestRegion (limits : Limits) (nodes : List Node) (c : Context) :
    ∃ runs : List (Run nodes.length), (∀ run ∈ runs, IsCandidate nodes run) ∧
      structureRegion limits nodes c =
        firstRepetition (structureRegion limits) limits nodes c runs >>= fun repeated =>
          repeated.elim (if 1 < nodes.length then do
            return (← nestRegion limits nodes c).getD nodes else pure nodes) pure := by
  by_cases hnil : nodes = []
  · subst hnil
    exact ⟨[], by simp, rfl⟩
  refine ⟨_, isCandidate_of_mem_runs nodes limits.maxRepetitionCandidates, ?_⟩
  rw [structureRegion_eq, structureStep, if_neg (by simpa using hnil)]
  refine bind_congr fun repeated => ?_
  cases repeated with
  | some found => rfl
  | none =>
    by_cases hlen : nodes.length ≤ 1
    · rw [Option.elim_none, if_neg (Nat.not_lt.mpr hlen)]
      exact if_pos hlen
    · rw [Option.elim_none, if_pos (Nat.lt_of_not_le hlen), nestRegion, bind_assoc]
      refine (if_neg hlen).trans (bind_congr fun texts => bind_congr fun nested => ?_)
      cases nested <;> rfl

theorem orderly_nestRegion (limits : Limits) (nodes : List Node) (c : Context) :
    (nestRegion limits nodes c).Orderly :=
  (orderly_renderEach nodes).bind fun texts => orderly_firstNesting orderly_structureRegion texts _

theorem nested_of_nestRegion {res : Option (List Node)}
    (h : (nestRegion limits nodes c).Returns R m res m') :
    Nested R (structureRegion limits) nodes c m res m' := by
  obtain ⟨texts, m₁, htexts, h⟩ := returns_bind.mp h
  obtain ⟨rfl, rfl⟩ := texts_of_returns_renderEach htexts
  exact nested_of_nestingSplits h

end Learner

namespace Session

variable {σ : Type} {o : Oracle σ} {v : Text → Except OracleFault Bool} {s s' : Session σ}
  {m m' : Memory} {nodes out : List Node} {t : Text}

/-- **Rules for nested regions.** Let the answers of an oracle be fixed by the text, let a rule
table pass the check, and let a context be accepted with the default text of some nodes. If the
nodes become a reference, then it is one to a new rule. The nodes around an inner part are the same
in both branches, with texts that are not empty. The context is accepted with the nodes in the place
of their inner part, once and twice, and with the default text of the base; and it is accepted with
that of the nested branch if the default text of the base is that of the nodes. -/
theorem accepts_of_nestRegion (ho : o.Decides v) (hs : s.Faithful v) {root : Node}
    (hr : (Grammar.mk root m.rules).validate = .ok ()) (hm : m.rules.Numbered)
    (hn : ∀ n ∈ nodes, n.targets ⊆ m.rules.names) (limits : Limits) (left right : Text)
    (ht : m.rules.defaultTexts nodes = .ok t) (hacc : v (left ++ t ++ right) = .ok true)
    (h : Learns o s (Learner.nestRegion limits nodes ⟨left, right⟩) m (some out) m' s') :
    ∃ name pre middle middle' post x y u,
      nodes = pre ++ middle ++ post ∧ out = [.recursive name] ∧ name ∉ m.rules.names ∧
      m'.rules.get? name = some (.alternation [Node.sequenceOf (pre ++ middle' ++ post),
        Node.sequenceOf (pre ++ [.recursive name] ++ post)]) ∧
      m.rules.defaultTexts pre = .ok x ∧ m.rules.defaultTexts post = .ok y ∧ x ≠ [] ∧ y ≠ [] ∧
      v (left ++ (x ++ t ++ y) ++ right) = .ok true ∧
      v (left ++ (x ++ (x ++ t ++ y) ++ y) ++ right) = .ok true ∧
      m'.rules.defaultText (Node.sequenceOf (pre ++ middle' ++ post)) = .ok u ∧
      v (left ++ u ++ right) = .ok true ∧
      m'.rules.defaultText (Node.sequenceOf (pre ++ [.recursive name] ++ post)) =
        .ok (x ++ u ++ y) ∧
      (u = t → v (left ++ (x ++ u ++ y) ++ right) = .ok true) := by
  obtain ⟨done, hf, hnames⟩ := (Grammar.resolves_of_validate hr).founded hm
  have hns : ∀ n ∈ nodes, n.targets ⊆ done := fun n hmem => List.Subset.trans (hn n hmem) hnames
  have htext : m.rules.texts nodes = t := Rules.texts_of_defaultTexts ht
  have hret := h.returns_judged ho hs (Learner.orderly_nestRegion limits nodes ⟨left, right⟩)
  cases Learner.nested_of_nestRegion hret with
  | @nested pre middle post middle' m₁ parts evidence inside =>
    have hrestr := Learner.restructured_of_structureRegion inside
    subst parts
    have hpre : ∀ n ∈ pre, n.targets ⊆ done := fun n hn => hns n (by simp [hn])
    have hmiddle : ∀ n ∈ middle, n.targets ⊆ done := fun n hn => hns n (by simp [hn])
    have hpost : ∀ n ∈ post, n.targets ⊆ done := fun n hn => hns n (by simp [hn])
    have hreserve := Rules.AddsLayers.reserve hf.numbered done
      (Node.sequenceOf (pre ++ middle ++ post))
    obtain ⟨done₁, hx, hmiddle', -⟩ := hrestr.addsLayers (hreserve.founded hf) hmiddle
    have hlayer := hx.layer_nestRule hf hpre hmiddle' hpost
    have hgrounded := ((hx.nest hf hpre hmiddle' hpost).founded hf).grounded
    have hbase := hgrounded.defaultText
      (List.Subset.trans hlayer.base (List.subset_cons_self _ _))
    have hnested := hgrounded.defaultText hlayer.nested
    rw [hx.text_nestBase hf hpre hmiddle' hpost] at hbase
    rw [hx.text_nested hf hpre hmiddle' hpost] at hnested
    -- A reference has the text of the base, and giving structure keeps the input accepted.
    have haccepted := accepts_judged.mp ((Restructured.nest evidence hrestr).accepts hf hns
      (accepts_judged.mpr (htext ▸ hacc)))
    rw [Memory.setRule, Rules.texts_cons, Rules.texts_nil, List.append_nil,
      hx.text_nestRule hf hpre hmiddle' hpost] at haccepted
    have hdeeper := accepts_judged.mp evidence.deeper
    have hdeepest := accepts_judged.mp evidence.deepest
    rw [← Rules.texts_append, ← Rules.texts_append, htext] at hdeeper hdeepest
    refine ⟨_, pre, middle, middle', post, _, _, _, rfl, rfl, hm.next_not_mem, hlayer.get,
      hf.grounded.defaultTexts hpre, hf.grounded.defaultTexts hpost, evidence.left_ne_nil,
      evidence.right_ne_nil, hdeeper, hdeepest, hbase, haccepted, hnested, ?_⟩
    rintro rfl
    exact hdeeper

/-- The nodes of a text, each for its own character only. -/
def letters (t : Text) : List Node := Node.literals t (t.map CharClass.singleton)

/-- An `x` in parentheses can be nested: the default text of the nested branch has one more pair. -/
theorem accepts_of_nestRegion_parentheses : ∃ m s base nested u,
    Learns (Oracle.ofPredicate fun t => parenthesized t.length t) (start (some 2) ())
      (Learner.nestRegion Limits.strict (letters ['(', 'x', ')']) .whole) Memory.empty
      (some [.recursive ['r', '0']]) m s ∧
    m.rules.get? ['r', '0'] = some (.alternation [base, nested]) ∧
    m.rules.defaultText nested = .ok u ∧ parenthesized u.length u = true := by
  have hvalid : (Grammar.mk .empty Memory.empty.rules).validate = .ok () := by decide
  have hrun : ∃ m s, Learns (Oracle.ofPredicate fun t => parenthesized t.length t)
      (start (some 2) ()) (Learner.nestRegion Limits.strict (letters ['(', 'x', ')']) .whole)
      Memory.empty (some [.recursive ['r', '0']]) m s ∧
      (∀ base nested, m.rules.get? ['r', '0'] = some (.alternation [base, nested]) →
        m.rules.defaultText base = .ok ['(', 'x', ')']) := by
    refine ⟨_, _, rfl, fun base nested hget => ?_⟩
    cases hget
    rfl
  obtain ⟨m, s, hrun, hbase⟩ := hrun
  obtain ⟨name, pre, middle, middle', post, x, y, u, -, hout, -, hget, -, -, -, -, -, -, hu, -,
    hnested, haccepted⟩ := accepts_of_nestRegion (v := fun t => .ok (parenthesized t.length t))
      (fun _ _ => rfl) (fun t b h => by simp [start, answer?] at h) hvalid Rules.numbered_empty
      (by decide) Limits.strict [] [] (t := ['(', 'x', ')']) (by decide) (by decide) hrun
  cases hout
  have hut : u = ['(', 'x', ')'] := Except.ok.inj (hu.symm.trans (hbase _ _ hget))
  refine ⟨m, s, _, _, x ++ u ++ y, hrun, hget, hnested, ?_⟩
  simpa using haccepted hut

/-! ### A rule that is rejected -/

/-- Membership in a finite language: `pqpw` may stand in the place of its inner part there, and
`pqqw` may not. -/
def isPaired (t : Text) : Bool :=
  t ∈ ["pqpw", "qqpw", "pppw", "pqqw", "ppqpww", "pppqpwww", "pqpqw", "pqqqw"].map String.toList

/-- The nodes of a text in which `p` and `q` may stand for each other. -/
def pairedNodes (t : Text) : List Node :=
  Node.literals t (t.map fun x => if x = 'w' then .singleton 'w' else .ofChars ['p', 'q'])

/-- **A rejected branch.** The text `pqpw` is nested in itself around its inner part `qp`, which is
then folded into a repetition with the default text `qq`. The base is accepted, and the nested
branch is not: it has the base in the place of the inner part, where only `pqpw` had been tried. -/
theorem nested_rejected : isPaired "pqpw".toList = true ∧
    ∃ m s base nested, Learns (Oracle.ofPredicate isPaired) (start none ())
      (Learner.nestRegion Limits.standard (pairedNodes "pqpw".toList) .whole) Memory.empty
      (some [.recursive ['r', '0']]) m s ∧
    m.rules.get? ['r', '0'] = some (.alternation [base, nested]) ∧
    m.rules.defaultText base = .ok "pqqw".toList ∧ isPaired "pqqw".toList = true ∧
    m.rules.defaultText nested = .ok "ppqqww".toList ∧ isPaired "ppqqww".toList = false :=
  ⟨by decide, _, _, _, _, rfl, rfl, rfl, by decide, rfl, by decide⟩

end Session

end GrammarInference
