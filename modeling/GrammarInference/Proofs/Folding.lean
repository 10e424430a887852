import GrammarInference.Proofs.Nesting

/-!
# The range of a repetition

Copies in a region become a repetition without a greatest count. Its body is the first copy with
structure, which may have another default text than the copies, and its least count is lowered as
far as the oracle agrees. The counts that have been asked about are those from the least one up to
one more than the observed one; where as many copies of the body as there were are the copies as
they were, the input itself stands for that query (`FoldEvidence.accepts`).

The counts stop falling at zero, after the last probe, or where one copy less is not accepted, be it
rejected or no longer within the budget (`Session.accepts_of_repetitionOf`).
-/

namespace GrammarInference

/-- Where the copies as they were are accepted, all counts of copies of the body from the least one
up to one more than the observed one are accepted. -/
theorem FoldEvidence.accepts {R : Replies} {here : Context} {first raw body : Text}
    {count least : Nat} (h : FoldEvidence R here first raw body count least)
    (hraw : R.Accepts (here.fill raw)) {k : Nat} (hk : least ≤ k) (hk' : k ≤ count + 1) :
    R.Accepts (here.fill (Text.times body k)) := by
  rcases Nat.lt_trichotomy k count with hlt | rfl | hgt
  · exact h.lowered k hk hlt
  · rcases h.kept with heq | hkept
    · exact heq ▸ hraw
    · exact hkept
  · obtain rfl : k = count + 1 := Nat.le_antisymm hk' hgt
    exact h.more

/-- The nodes beside a region are given structure after it, which leaves its default text. -/
theorem Restructured.defaultText_of_sides {R : Replies} {ns pre post out left right : List Node}
    {c c₁ c₂ : Context} {m m₁ m₂ m₃ : Memory} {done : List Text} (hf : m.rules.Founded done)
    (hns : ∀ n ∈ ns, n.targets ⊆ done) (hpre : ∀ n ∈ pre, n.targets ⊆ done)
    (hpost : ∀ n ∈ post, n.targets ⊆ done) (inside : Restructured R ns c m out m₁)
    (before : Restructured R pre c₁ m₁ left m₂) (after : Restructured R post c₂ m₂ right m₃) :
    m₃.rules.defaultText (Node.sequenceOf out) = .ok (m₁.rules.texts out) := by
  obtain ⟨done₁, done₂, done₃, hl⟩ := exists_foldLayers hf hns hpre hpost inside before after
  have hout := targets_sequenceOf_subset hl.body
  have hx := hl.before.trans hl.after
  have htext := (hx.founded hl.founded₁).grounded.defaultText (List.Subset.trans hout hx.subset)
  rwa [hx.extension.text_eq hl.founded₁.grounded hout, Rules.text_sequenceOf] at htext

namespace Session

variable {σ : Type} {o : Oracle σ} {v : Text → Except OracleFault Bool} {s s' : Session σ}
  {m m' : Memory} {nodes out : List Node} {t : Text}

/-- **The range of a repetition.** Let the answers of an oracle be fixed by the text, let a rule
table pass the check, and let a context be accepted with the default text of some nodes. If a run in
the nodes becomes a repetition, its least count is at most that of the run, and the context is
accepted with `k` default texts of the body between the nodes before and after the run, for all `k`
from the least count up to one more than the count of the run. The least count is zero, or it is as
low as the probes allow, or one copy less is rejected by the oracle or refused by the budget. -/
theorem accepts_of_repetitionOf (ho : o.Decides v) (hs : s.Faithful v) {root : Node}
    (hr : (Grammar.mk root m.rules).validate = .ok ()) (hm : m.rules.Numbered)
    (hn : ∀ n ∈ nodes, n.targets ⊆ m.rules.names) (limits : Limits) (left right : Text)
    (ht : m.rules.defaultTexts nodes = .ok t) (hacc : v (left ++ t ++ right) = .ok true)
    (run : Run nodes.length)
    (h : Learns o s (Learner.repetitionOf (Learner.structureRegion limits) limits nodes
      ⟨left, right⟩ run) m (some out) m' s') :
    ∃ before after pre body post least u,
      m.rules.defaultTexts (nodes.take run.start) = .ok before ∧
      m.rules.defaultTexts (nodes.drop (run.start + run.unit * run.count)) = .ok after ∧
      out = pre ++ [.repetition body (.atLeast least)] ++ post ∧
      m'.rules.defaultText body = .ok u ∧ least ≤ run.count ∧
      (∀ k, least ≤ k → k ≤ run.count + 1 →
        v (left ++ (before ++ Text.times u k ++ after) ++ right) = .ok true) ∧
      (least = 0 ∨ least + limits.maxMinProbes = run.count ∨
        v (left ++ (before ++ Text.times u (least - 1) ++ after) ++ right) = .ok false ∨
        s'.Refused (left ++ (before ++ Text.times u (least - 1) ++ after) ++ right)) := by
  obtain ⟨done, hf, hnames⟩ := (Grammar.resolves_of_validate hr).founded hm
  have hns : ∀ n ∈ nodes, n.targets ⊆ done := fun n hmem => List.Subset.trans (hn n hmem) hnames
  have hparts := run.eq_parts nodes
  have htext : m.rules.texts nodes = t := Rules.texts_of_defaultTexts ht
  -- The run answers like an oracle that says of each text what the session has found out.
  have hret := h.returns_judged ho hs (Learner.orderly_repetitionOf Learner.orderly_structureRegion
    run)
  have hfolded := Learner.folded_of_repetitionOf hret
  generalize nodes.take run.start = pre at hparts hfolded ⊢
  generalize (nodes.drop run.start).take run.unit = first at hparts hfolded
  generalize (nodes.drop (run.start + run.unit)).take (run.unit * (run.count - 1)) = others
    at hparts hfolded
  generalize nodes.drop (run.start + run.unit * run.count) = post at hparts hfolded ⊢
  rw [hparts] at hns htext
  cases hfolded with
  | @folded body newPre newPost m₁ m₂ _ least inside evidence stop before after =>
    have hpre : ∀ n ∈ pre, n.targets ⊆ done := fun n hn => hns n (by simp [hn])
    have hfirst : ∀ n ∈ first, n.targets ⊆ done := fun n hn => hns n (by simp [hn])
    have hpost : ∀ n ∈ post, n.targets ⊆ done := fun n hn => hns n (by simp [hn])
    have hu := Restructured.defaultText_of_sides hf hfirst hpre hpost
      (Learner.restructured_of_structureRegion inside)
      (Learner.restructured_of_structureRegion before)
      (Learner.restructured_of_structureRegion after)
    -- What was accepted before is the context with the run as it stands in the nodes.
    have hraw : (Replies.saying (s'.Judges v)).Accepts
        (Context.fill (Context.narrow ⟨left, right⟩ (m.rules.texts pre) (m.rules.texts post))
          (m.rules.texts (first ++ others))) := by
      rw [Context.fill_narrow, ← Rules.texts_append, ← Rules.texts_append, htext]
      exact accepts_judged.mpr hacc
    refine ⟨_, _, newPre, _, newPost, least, _, hf.grounded.defaultTexts hpre,
      hf.grounded.defaultTexts hpost, rfl, hu, evidence.le, fun k hk hk' => ?_,
      stop.imp_right (.imp_right fun hrejected => ?_)⟩
    · have haccepts := evidence.accepts hraw hk hk'
      rw [Context.fill_narrow] at haccepts
      exact accepts_judged.mp haccepts
    · rw [Context.fill_narrow] at hrejected
      exact (hrejected false rfl).imp_right And.right

/-- Whether a text is at least two `a`. -/
def isRow (t : Text) : Bool := 1 < t.length && t.all (· = 'a')

/-- Three `a` become at least two, of which two to four are accepted. The budget does not suffice
for asking about a single one. -/
theorem accepts_of_repetitionOf_letters : ∃ s,
    Learns (Oracle.ofPredicate isRow) (start (some 2) ())
      (Learner.repetitionOf (Learner.structureRegion Limits.strict) Limits.strict
        (letters ['a', 'a', 'a']) .whole ⟨0, 1, 3, by decide, by decide, by decide⟩)
      Memory.empty (some [.repetition (.literal (.single 'a' (.singleton 'a'))) (.atLeast 2)])
      Memory.empty s ∧
    ∀ k, 2 ≤ k → k ≤ 4 → isRow (Text.times ['a'] k) = true := by
  have hvalid : (Grammar.mk .empty Memory.empty.rules).validate = .ok () := by decide
  have hrun : ∃ s, Learns (Oracle.ofPredicate isRow)
      (start (some 2) ()) (Learner.repetitionOf (Learner.structureRegion Limits.strict)
        Limits.strict (letters ['a', 'a', 'a']) .whole ⟨0, 1, 3, by decide, by decide, by decide⟩)
      Memory.empty (some [.repetition (.literal (.single 'a' (.singleton 'a'))) (.atLeast 2)])
      Memory.empty s := ⟨_, rfl⟩
  obtain ⟨s, hrun⟩ := hrun
  obtain ⟨before, after, pre, body, post, least, u, hbefore, hafter, hout, hu, -, hcounts, -⟩ :=
    accepts_of_repetitionOf (v := fun t => .ok (isRow t))
      (fun _ _ => rfl) (fun t b h => by simp [start, answer?] at h) hvalid Rules.numbered_empty
      (by decide) Limits.strict [] [] (t := ['a', 'a', 'a']) (by decide) (by decide) _ hrun
  obtain rfl : [] = before := Except.ok.inj hbefore
  obtain rfl : [] = after := Except.ok.inj hafter
  obtain ⟨rfl, rfl⟩ : body = .literal (.single 'a' (.singleton 'a')) ∧ least = 2 := by
    cases pre with
    | nil =>
      obtain ⟨hnode, -⟩ := List.cons.inj hout
      obtain ⟨hbody, hbounds⟩ := Node.repetition.inj hnode
      exact ⟨hbody.symm, congrArg Bounds.min hbounds.symm⟩
    | cons n pre => simp at hout
  obtain rfl : ['a'] = u := Except.ok.inj hu
  refine ⟨s, hrun, fun k hk hk' => ?_⟩
  simpa using Except.ok.inj (hcounts k hk hk')

end Session

end GrammarInference
