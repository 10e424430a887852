import GrammarInference.Proofs.Answers
import GrammarInference.Proofs.MergeCoverage

/-!
# Rules that are the same up to their names

Two rules are taken for the same if the second one becomes the first one when its references to
itself are turned into references to the first. Only the two rules are compared, while further
rules may refer to either of them, in circles too.

A derivation can nevertheless be carried over in both directions: turning references to the second
rule into references to the first loses no text (`Derives.rename`) and gains none
(`Derives.of_rename`). So references to the two rules are interchangeable wherever they stand
(`Session.interchangeable_of_sameRule`).
-/

namespace GrammarInference

namespace Node

variable {old new name : Text} {n : Node}

/-! ### Nodes with a given form after renaming -/

theorem rename_eq_literal {l : Literal} (h : n.rename old new = .literal l) : n = .literal l := by
  cases n <;> simp only [rename, reduceCtorEq, literal.injEq] at h
  rw [h]

theorem rename_eq_sequence {cs : List Node} (h : n.rename old new = .sequence cs) :
    ∃ ns, n = .sequence ns ∧ ns.map (rename old new) = cs := by
  cases n <;> simp only [rename, reduceCtorEq, sequence.injEq] at h
  exact ⟨_, rfl, renameAll_eq_map old new _ ▸ h⟩

theorem rename_eq_alternation {os : List Node} (h : n.rename old new = .alternation os) :
    ∃ ns, n = .alternation ns ∧ ns.map (rename old new) = os := by
  cases n <;> simp only [rename, reduceCtorEq, alternation.injEq] at h
  exact ⟨_, rfl, renameAll_eq_map old new _ ▸ h⟩

theorem rename_eq_repetition {b : Node} {x : Bounds} (h : n.rename old new = .repetition b x) :
    ∃ body, n = .repetition body x ∧ body.rename old new = b := by
  cases n <;> simp only [rename, reduceCtorEq, repetition.injEq] at h
  exact ⟨_, by rw [h.2], h.1⟩

theorem rename_eq_recursive (h : n.rename old new = .recursive name) :
    ∃ k, n = .recursive k ∧ (if k = old then new else k) = name := by
  cases n <;> simp only [rename, reduceCtorEq, recursive.injEq] at h
  exact ⟨_, rfl, h⟩

mutual

/-- Renaming a rule to its own name changes nothing. -/
theorem rename_self (name : Text) : ∀ n : Node, n.rename name name = n
  | .literal _ => by rw [rename]
  | .sequence cs => by rw [rename, renameAll_self name cs]
  | .alternation os => by rw [rename, renameAll_self name os]
  | .repetition b _ => by rw [rename, rename_self name b]
  | .recursive k => by rw [rename, ite_eq_right_iff.mpr Eq.symm]

theorem renameAll_self (name : Text) : ∀ ns : List Node, renameAll name name ns = ns
  | [] => by rw [renameAll]
  | n :: rest => by rw [renameAll, rename_self name n, renameAll_self name rest]

end

end Node

section Renaming

variable {r : Rules} {s t : Text} {rule : Node}

mutual

/-- What a renamed node derives was derived before, if the new name stands for the same rule. -/
theorem Derives.of_rename (ht : r.get? t = some rule) (hs : r.get? s = some (rule.rename t s)) :
    ∀ {n' : Node} {u : Text}, Derives r n' u → ∀ {n : Node}, n.rename t s = n' → Derives r n u
  | _, _, .literal h, _, hn => by
    obtain rfl := Node.rename_eq_literal hn
    exact .literal h
  | _, _, .sequence h, _, hn => by
    obtain ⟨ns, rfl, hns⟩ := Node.rename_eq_sequence hn
    exact .sequence (DerivesAll.of_rename ht hs h hns)
  | _, _, .nothing, _, hn => by
    obtain ⟨ns, rfl, hns⟩ := Node.rename_eq_alternation hn
    obtain rfl := List.map_eq_nil_iff.mp hns
    exact .nothing
  | _, _, .alternation ho h, _, hn => by
    obtain ⟨ns, rfl, hns⟩ := Node.rename_eq_alternation hn
    rw [← hns] at ho
    obtain ⟨n, hmem, hrenamed⟩ := List.mem_map.mp ho
    exact .alternation hmem (Derives.of_rename ht hs h hrenamed)
  | _, _, .repetition hk h, _, hn => by
    obtain ⟨body, rfl, hbody⟩ := Node.rename_eq_repetition hn
    exact .repetition hk (DerivesAll.of_rename ht hs h (by rw [List.map_replicate, hbody]))
  | _, _, .recursive hget hb h, _, hn => by
    obtain ⟨name, rfl, hname⟩ := Node.rename_eq_recursive hn
    split at hname
    · next heq =>
      -- A branch of the first rule is a branch of the second one, renamed.
      rw [← hname] at hget
      rw [← Option.some.inj (hs.symm.trans hget), Node.branches_rename] at hb
      obtain ⟨branch, hbranch, hrenamed⟩ := List.mem_map.mp hb
      exact .recursive (heq ▸ ht) hbranch (Derives.of_rename ht hs h hrenamed)
    · rw [← hname] at hget
      exact .recursive hget hb h

theorem DerivesAll.of_rename (ht : r.get? t = some rule)
    (hs : r.get? s = some (rule.rename t s)) :
    ∀ {ns' : List Node} {u : Text}, DerivesAll r ns' u →
      ∀ {ns : List Node}, ns.map (Node.rename t s) = ns' → DerivesAll r ns u
  | _, _, .nil, _, hns => by
    obtain rfl := List.map_eq_nil_iff.mp hns
    exact .nil
  | _, _, .cons h hrest, _, hns => by
    obtain ⟨n, ns, rfl, hn, hns⟩ := List.map_eq_cons_iff.mp hns
    exact .cons (Derives.of_rename ht hs h hn) (DerivesAll.of_rename ht hs hrest hns)

end

/-- Turning references to a rule into references to the same rule changes no derived text. -/
theorem Rules.Same.derives_rename (h : r.Same s t) {n : Node} {u : Text} :
    Derives r (n.rename t s) u ↔ Derives r n u := by
  rcases h with rfl | ⟨rule, ht, hs⟩
  · rw [Node.rename_self]
  · exact ⟨fun hu => hu.of_rename ht hs rfl, fun hu => hu.rename ht hs⟩

end Renaming

namespace Session

variable {σ : Type} {o : Oracle σ} {s : Session σ} {m : Memory} {a b : Text}

/-- Comparing two rules of a table asks nothing and ends with an answer. -/
theorem learns_sameRule (ha : a ∈ m.rules.names) (hb : b ∈ m.rules.names) :
    ∃ same, Learns o s (Learner.sameRule a b) m same m s ∧
      (same = true ↔ m.rules.Same a b) := by
  obtain ⟨ruleA, hA⟩ := Rules.exists_get?_of_mem_names ha
  obtain ⟨ruleB, hB⟩ := Rules.exists_get?_of_mem_names hb
  unfold Learner.sameRule
  split
  · next heq => exact ⟨true, learns_pure.mpr ⟨rfl, rfl, rfl⟩, iff_of_true rfl (.inl heq)⟩
  · next hne =>
    refine ⟨ruleB.rename b a = ruleA, ?_, ?_⟩
    · refine learns_bind.mpr ⟨m.rules, m, s, rfl, ?_⟩
      rw [hB]
      dsimp only
      rw [hA]
      exact learns_pure.mpr ⟨rfl, rfl, rfl⟩
    · rw [decide_eq_true_iff, Rules.Same, or_iff_right hne]
      refine ⟨fun heq => ⟨ruleB, hB, hA.trans (congrArg some heq.symm)⟩, ?_⟩
      rintro ⟨rule, hB', hA'⟩
      rw [Option.some.inj (hB.symm.trans hB')]
      exact Option.some.inj (hA'.symm.trans hA)

/-- **Rules that are the same.** Comparing two rules of a table always ends with an answer, which is
whether they are the same up to their names. If they are, references to them derive the same texts,
and so does every node whose references to the second rule are turned into references to the first
one. The rules of the table may refer to each other in any way. -/
theorem interchangeable_of_sameRule (o : Oracle σ) (s : Session σ) (m : Memory) {a b : Text}
    (ha : a ∈ m.rules.names) (hb : b ∈ m.rules.names) :
    ∃ same, Learns o s (Learner.sameRule a b) m same m s ∧ (same = true ↔ m.rules.Same a b) ∧
      (same = true →
        (∀ t, Derives m.rules (.recursive a) t ↔ Derives m.rules (.recursive b) t) ∧
        ∀ n t, Derives m.rules (n.rename b a) t ↔ Derives m.rules n t) := by
  obtain ⟨same, hlearns, hsame⟩ := learns_sameRule (o := o) (s := s) ha hb
  refine ⟨same, hlearns, hsame, fun htrue => ?_⟩
  have hrename := fun {n : Node} {t : Text} => (hsame.mp htrue).derives_rename (n := n) (u := t)
  refine ⟨fun t => ?_, fun n t => hrename⟩
  have hb := hrename (n := .recursive b) (t := t)
  rwa [Node.rename, if_pos rfl] at hb

/-- A memory with three rules. Each of the rules `a` and `b` refers to itself and to `c`, which
refers to `b`. -/
def circle : Memory where
  rules := .ofList
    [(['a'], .alternation [.literal (.plain ['x']),
      .sequence [.literal (.plain ['y']), .recursive ['a']], .recursive ['c']]),
    (['b'], .alternation [.literal (.plain ['x']),
      .sequence [.literal (.plain ['y']), .recursive ['b']], .recursive ['c']]),
    (['c'], .sequence [.literal (.plain ['z']), .recursive ['b']])]
  classes := []

/-- The rules `a` and `b` are found to be the same, though the rule `c` refers to one of them. -/
theorem interchangeable_of_sameRule_circle :
    ['a'] ∈ circle.rules.names ∧ ['b'] ∈ circle.rules.names ∧
      Learns (Oracle.ofPredicate fun _ => true) (start none ()) (Learner.sameRule ['a'] ['b'])
        circle true circle (start none ()) ∧
      ∀ t, Derives circle.rules (.recursive ['a']) t ↔
        Derives circle.rules (.recursive ['b']) t := by
  have ha : ['a'] ∈ circle.rules.names := by decide
  have hb : ['b'] ∈ circle.rules.names := by decide
  have hrun : Learns (Oracle.ofPredicate fun _ => true) (start none ())
      (Learner.sameRule ['a'] ['b']) circle true circle (start none ()) := rfl
  obtain ⟨same, hlearns, -, hsame⟩ :=
    interchangeable_of_sameRule (Oracle.ofPredicate fun _ => true) (start none ()) circle ha hb
  obtain rfl : same = true := by
    simpa using hlearns.symm.trans hrun
  exact ⟨ha, hb, hrun, (hsame rfl).1⟩

end Session

end GrammarInference
