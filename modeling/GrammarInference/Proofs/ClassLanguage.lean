import GrammarInference.Proofs.Coverage
import GrammarInference.Proofs.Endings

/-!
# Texts of classes

Every character of a text may stand for the members of its class. The nodes for the characters
derive the texts that are made from the first one in this way
(`CharClass.Matches.derivesAll_literals`), and giving structure to them loses none of these texts
(`Session.derives_of_structureRegion`): a run of copies consists of characters with the same
classes, so that the first copy derives what the others do, and neither a lower count nor a further
branch takes anything away.
-/

namespace GrammarInference

/-- The nodes for the characters of a text are no references. -/
theorem Node.targets_of_mem_literals {t : Text} {ks : List CharClass} {n : Node}
    (hn : n ∈ literals t ks) : n.targets = [] := by
  obtain ⟨_, _, rfl⟩ := List.mem_map.mp hn
  exact targets_literal _

/-- The characters of a text belong to classes, one by one. -/
def CharClass.Matches (t : Text) (ks : List CharClass) : Prop :=
  List.Forall₂ (fun x k => Symbol.ofChar x ∈ k.characters) t ks

theorem CharClass.Cover.matches {t : Text} {ks : List CharClass} (h : Cover t ks) :
    Matches t ks :=
  List.Forall₂.imp (fun _ _ => And.right) h

namespace CharClass.Matches

variable {t : Text} {ks : List CharClass}

/-- The nodes for the characters derive the texts whose characters belong to the classes. -/
theorem derivesAll_literals (h : Matches t ks) (r : Rules) {u : Text} :
    DerivesAll r (Node.literals t ks) u ↔ Matches u ks := by
  unfold Matches at h ⊢
  induction h generalizing u with
  | nil => exact derivesAll_nil.trans List.forall₂_nil_right_iff.symm
  | @cons x k t ks hx _ ih =>
    change DerivesAll r (.literal (.single x k) :: Node.literals t ks) u ↔ _
    rw [derivesAll_cons, List.forall₂_cons_right_iff]
    constructor
    · rintro ⟨_, v, rfl, hu, hv⟩
      obtain ⟨d, rfl, hd⟩ := (derives_single hx).mp hu
      exact ⟨d, v, hd, ih.mp hv, rfl⟩
    · rintro ⟨d, v, hd, hv, rfl⟩
      exact ⟨[d], v, rfl, (derives_single hx).mpr ⟨d, rfl, hd⟩, ih.mpr hv⟩

/-- In a run of the nodes for the characters the first copy covers the others. -/
theorem runsCovered (h : Matches t ks) : Node.RunsCovered (Node.literals t ks) := by
  refine Node.runsCovered_of_single ?_
  unfold Matches at h
  induction h with
  | nil => exact fun n hn => by cases hn
  | @cons x k _ _ hx _ ih => exact List.forall_mem_cons.mpr ⟨⟨x, k, rfl, hx⟩, ih⟩

/-- The nodes for characters can be shown if the members of their classes are characters. -/
theorem displayable_literals (h : Matches t ks) (hks : ∀ k ∈ ks, Symbol.AllChars k.characters)
    (done : List Text) : ∀ n ∈ Node.literals t ks, n.Displayable done := by
  unfold Matches at h
  induction h with
  | nil => exact fun n hn => by cases hn
  | @cons x k t ks _ _ ih =>
    obtain ⟨hk, hks⟩ := List.forall_mem_cons.mp hks
    refine List.forall_mem_cons.mpr ⟨⟨by simp [Node.empty], ?_, ?_⟩, ih hks⟩
    · rw [Node.targets_literal]
      exact List.nil_subset _
    · refine Node.isPrintable_iff.mpr (Node.throughout_literal.mpr ?_)
      exact Literal.isPrintable_single x hk

/-- Giving structure to the nodes for the characters of a text keeps every text whose characters
belong to the classes. -/
theorem derives_of_restructured {R : Replies} {c : Context} {m m' : Memory} {out : List Node}
    {done : List Text} (h : Matches t ks) (hf : m.rules.Founded done)
    (hout : Restructured R (Node.literals t ks) c m out m') {u : Text} (hu : Matches u ks) :
    Derives m'.rules (Node.sequenceOf out) u := by
  refine derives_sequenceOf.mpr (hout.covers hf (fun n hn => ?_) h.runsCovered
    ((h.derivesAll_literals _).mpr hu))
  rw [Node.targets_of_mem_literals hn]
  exact List.nil_subset _

end CharClass.Matches

namespace Session

variable {σ : Type}

/-- **Texts of classes.** Let the characters of a text belong to classes. The nodes for the
characters derive the texts whose characters belong to the classes. Whatever the oracle answers and
whatever the context, the limits and the budget are, what they become when they are given structure
derives all of these texts under the rules there are then. If the members of the classes are
characters, giving structure ends, unless the oracle fails. -/
theorem derives_of_structureRegion (o : Oracle σ) (s : Session σ) (limits : Limits) (c : Context)
    {m : Memory} (hm : m.rules.Numbered) {t : Text} {ks : List CharClass}
    (h : CharClass.Matches t ks) :
    (∀ u, DerivesAll m.rules (Node.literals t ks) u ↔ CharClass.Matches u ks) ∧
    (∀ out m' s',
      Learns o s (Learner.structureRegion limits (Node.literals t ks) c) m out m' s' →
      ∀ u, CharClass.Matches u ks → Derives m'.rules (Node.sequenceOf out) u) ∧
    ((∀ k ∈ ks, Symbol.AllChars k.characters) →
      (∃ out m' s',
        Learns o s (Learner.structureRegion limits (Node.literals t ks) c) m out m' s') ∨
      ∃ f m' s', s.learn o (Learner.structureRegion limits (Node.literals t ks) c) m =
        ((.error (.oracle f), m'), s') ∧ o.Faults f) := by
  have hf : m.rules.Founded [] := ⟨hm, .nil, fun _ h => by cases h⟩
  refine ⟨fun u => h.derivesAll_literals m.rules, fun out m' s' hrun u hu => ?_, fun hks => ?_⟩
  · exact h.derives_of_restructured hf
      (Learner.restructured_of_structureRegion hrun.returns_any) hu
  · exact learns_or_fails (Learner.orderly_structureRegion _ c)
      (Learner.safe_structureRegion Replies.answered_answers hf (h.displayable_literals hks [])) o s

/-- Whether a text is some `a` and `b` in parentheses. -/
def isGroup (t : Text) : Bool :=
  t.take 1 = ['('] && t.drop (t.length - 1) = [')']
    && ((t.drop 1).take (t.length - 2)).all fun x => x = 'a' || x = 'b'

/-- The classes of the characters of a group. -/
def groupClasses : List CharClass :=
  [.singleton '(', .ofChars ['a', 'b'], .ofChars ['a', 'b'], .singleton ')']

/-- The characters of a group are folded into a repetition, and a group with other characters is
derived still. -/
theorem derives_of_structureRegion_group : ∃ out m s,
    Learns (Oracle.ofPredicate isGroup) (start (some 8) ())
      (Learner.structureRegion Limits.strict (Node.literals ['(', 'a', 'b', ')'] groupClasses)
        .whole) Memory.empty out m s ∧
    out.length = 3 ∧ Derives m.rules (Node.sequenceOf out) ['(', 'b', 'a', ')'] := by
  have hmatches : CharClass.Matches ['(', 'a', 'b', ')'] groupClasses := by
    simp only [CharClass.Matches, groupClasses, List.forall₂_cons, List.forall₂_nil_left_iff]
    decide
  have hother : CharClass.Matches ['(', 'b', 'a', ')'] groupClasses := by
    simp only [CharClass.Matches, groupClasses, List.forall₂_cons, List.forall₂_nil_left_iff]
    decide
  obtain ⟨-, hderives, -⟩ := derives_of_structureRegion (Oracle.ofPredicate isGroup)
    (start (some 8) ()) Limits.strict .whole (m := Memory.empty) Rules.numbered_empty hmatches
  exact ⟨_, _, _, rfl, rfl, hderives _ _ _ rfl _ hother⟩

end Session

end GrammarInference
