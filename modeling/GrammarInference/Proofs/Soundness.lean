import GrammarInference.Proofs.Learning
import GrammarInference.Proofs.Shortages

/-!
# Default texts of learned grammars are accepted

A learned grammar has a default text at every branch of its root, and each of these texts was put
to the oracle and accepted while the grammar was learned. This holds for every oracle that answers
by a function of the text, under every budget and all limits.
-/

namespace GrammarInference

/-- A text that was put to the oracle and is remembered as accepted. -/
structure Session.Confirms {σ : Type} (f : Text → Bool) (s : Session σ) (t : Text) : Prop where
  /-- The oracle accepts the text. -/
  accepted : f t = true
  /-- The answer is remembered. -/
  remembered : s.answer? t = some true
  /-- The text was put to the oracle. -/
  put : t ∈ s.put

/-- A node with a default text that was put to the oracle and accepted. A machine renders the node
as this text, or lacks something for it. -/
def Session.ConfirmsNode {σ : Type} (f : Text → Bool) (s : Session σ) (r : Rules) (n : Node) :
    Prop :=
  ∃ t, r.defaultText n = .ok t ∧ s.Confirms f t ∧ ∀ m, r.RendersOn m n t

/-- A tidy node has the text of its first branch. -/
theorem Node.Tidy.exists_branch_text {n : Node} {done : List Text} (h : n.Tidy done) (r : Rules) :
    ∃ b ∈ n.branches, r.text n = r.text b := by
  obtain ⟨b, bs, hb⟩ := List.exists_cons_of_ne_nil h.branches_ne_nil
  refine ⟨b, by rw [hb]; exact .head _, ?_⟩
  rw [← h.ofOptions_branches, hb, r.text_ofOptions]

section Finished

variable {R : Replies} {m : Memory} {root : Node}

/-- Every branch of a finished root, and the root itself, has a default text, which is that of a
branch of the root before and is accepted. -/
theorem Learner.AcceptedRoot.finished (h : AcceptedRoot R m root) {n : Node}
    (hn : n = root ∨ n ∈ root.branches) :
    ∃ t, (m.rules.compactOn (m.rules.reachable root)).defaultText n.compact = .ok t ∧
      R.Accepts t := by
  obtain ⟨done, hroot, hacc⟩ := h
  have hl := hroot.ordered.layered
  have htargets := hroot.tidy.targets_subset
  have hsub : n.targets ⊆ root.targets := by
    rcases hn with rfl | hn
    · exact List.Subset.refl _
    · exact Node.targets_subset_of_mem_branches hn
  have htext : R.Accepts (m.rules.text n) := by
    rcases hn with rfl | hn
    · obtain ⟨b, hb, heq⟩ := hroot.tidy.exists_branch_text m.rules
      rw [heq]
      exact hacc b hb
    · exact hacc n hn
  have hclosed := hl.closed_reachable htargets
  refine ⟨m.rules.text n, ?_, htext⟩
  rw [(hl.compactOn hclosed).grounded.defaultText (Rules.targets_compact_subset hl htargets hsub),
    hl.text_compactOn hclosed (List.Subset.trans hsub (m.rules.targets_subset_reachable root))
      (List.Subset.trans hsub htargets)]

end Finished

namespace Session

variable {σ : Type} {f : Text → Bool} {o : Oracle σ} {limits : Limits}

/-- What synthesis returns is what the learner returns with the replies of the run. -/
theorem returns_of_synthesize (ho : o.Answers f) {s s' : Session σ} (hs : s.Consistent f)
    {seeds : List Text} {g : Grammar} (h : s.synthesize o limits seeds = (.ok g, s')) :
    s'.Consistent f ∧ ∃ m, (Learner.synthesize limits seeds).Returns (s'.replies f)
      Memory.empty g m := by
  have hreach := reaches_learn ho (Learner.synthesize limits seeds) Memory.empty hs
  have hf := (follows_run ho ((Learner.synthesize limits seeds).tree Memory.empty) hs).1
  unfold synthesize at h
  unfold learn at hreach h
  split at h
  · next g' m s₁ hrun =>
    rw [hrun] at hreach hf
    cases h
    have hnote : s₁.Follows f (s₁.addNote s₁.finishedNote) := .of_eq hf.consistent rfl rfl
    exact ⟨hnote.consistent, m, hreach⟩
  · cases h

/-- **Soundness of the default path.** Where learning returns a grammar, every branch of its root
and the root itself have a default text that the oracle was asked about during the run and
accepted. -/
theorem confirms_of_synthesize (ho : o.Answers f) {budget : Option Int} {world : σ}
    {seeds : List Text} {g : Grammar} {s : Session σ}
    (h : (start budget world).synthesize o limits seeds = (.ok g, s)) :
    (∀ b ∈ g.root.branches, s.ConfirmsNode f g.rules b) ∧ s.ConfirmsNode f g.rules g.root := by
  obtain ⟨hs, m, hret⟩ := returns_of_synthesize ho (consistent_start f budget world) h
  have accepted : ∀ t, (s.replies f).Accepts t → s.answer? t = some true := by
    rintro t ⟨b, hb, ht⟩
    cases hb
    exact ht rfl
  have confirms : ∀ t, (s.replies f).Accepts t → s.Confirms f t := fun t ht =>
    ⟨(hs t true (accepted t ht)).1, accepted t ht, (hs t true (accepted t ht)).2⟩
  have hseed : ∀ t, (s.replies f).seed t (.ok true) → (s.replies f).Accepts t := by
    rintro t ⟨hv, ht⟩
    refine ⟨true, rfl, fun _ => ?_⟩
    rwa [← Except.ok.inj hv] at ht
  obtain ⟨root, hroot, rfl⟩ := Learner.of_returns_synthesize hseed hret
  -- Compacting a node keeps its default text, and this text has been accepted.
  have node : ∀ n, n = root ∨ n ∈ root.branches →
      s.ConfirmsNode f (m.rules.compactOn (m.rules.reachable root)) n.compact := by
    intro n hn
    obtain ⟨t, ht, hacc⟩ := hroot.finished hn
    exact ⟨t, ht, confirms t hacc, Rules.rendersOn_of_defaultText ht⟩
  refine ⟨fun b hb => ?_, node root (.inl rfl)⟩
  obtain ⟨done, hin, _⟩ := hroot
  rw [hin.tidy.branches_compact] at hb
  obtain ⟨k, hk, rfl⟩ := List.mem_map.mp hb
  exact node k (.inr hk)

/-- Whether a text is an `x` in some pairs of parentheses, at most `depth` of them. -/
def parenthesized : Nat → Text → Bool
  | 0, t => t = ['x']
  | depth + 1, t => t = ['x'] || (t.take 1 = ['('] && t.drop (t.length - 1) = [')']
      && parenthesized depth ((t.drop 1).take (t.length - 2)))

/-- From an `x` with parentheses and one without, a grammar with a rule for nested parentheses is
learned, and all its branches are confirmed. -/
theorem confirms_parenthesized : ∃ g s, (start (some 40) ()).synthesize
      (Oracle.ofPredicate fun t => parenthesized t.length t) Limits.strict
      [['(', 'x', ')'], ['x']] = (.ok g, s) ∧ g.root.branches.length = 2 ∧ g.rules.size = 1 ∧
    (∀ b ∈ g.root.branches, s.ConfirmsNode (fun t => parenthesized t.length t) g.rules b) ∧
      s.ConfirmsNode (fun t => parenthesized t.length t) g.rules g.root := by
  have hrun : ∃ g s, (start (some 40) ()).synthesize
      (Oracle.ofPredicate fun t => parenthesized t.length t) Limits.strict
      [['(', 'x', ')'], ['x']] = (.ok g, s) ∧ g.root.branches.length = 2 ∧ g.rules.size = 1 :=
    ⟨_, _, rfl, rfl, rfl⟩
  obtain ⟨g, s, h, hbranches, hrules⟩ := hrun
  exact ⟨g, s, h, hbranches, hrules, confirms_of_synthesize (Oracle.answers_ofPredicate _) h⟩

end Session

end GrammarInference
