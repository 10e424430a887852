import GrammarInference.Proofs.Acceptance
import GrammarInference.Proofs.Circles
import GrammarInference.Proofs.Endings
import GrammarInference.Proofs.MergeCoverage
import GrammarInference.Proofs.Refusals
import GrammarInference.Proofs.SafeMerging

/-!
# Merging in a session

What a merge leads to has been described for arbitrary replies. In a session the replies are those
of an oracle, within a budget and with answers remembered from before, and two things follow.

Merging loses no text, whatever the oracle answers (`Session.covers_of_merging`): the texts that the
merged node is accepted with play no part in what it derives.

Merging keeps the default text accepted where the oracle is fixed by the text
(`Session.accepts_of_merging`). A run has no more accepting replies than its session remembers at
the end (`Session.Learns.returns_accepting`), so that a new default text of a merged node is
remembered as accepted. The last check before two trees are merged therefore cannot fail.
-/

namespace GrammarInference

/-- Merging keeps that references go to rules of a list. -/
theorem Node.unites_refersHere (names : List Text) : Node.Unites (Node.RefersHere names) where
  sequence _ _ h := by cases h
  alternation _ _ h := by cases h
  repetition _ _ _ h := by cases h
  union _ _ _ _ h := by cases h

namespace Learner

variable {R : Replies} {limits : Limits} {names : List Text} {a b n : Node} {c : Context}
  {m m' : Memory}

/-- A merged node refers to the rules of the nodes, and its default text is accepted if that of the
first node is. -/
theorem keeps_of_returns_merge (ha : a.targets ⊆ names) (hb : b.targets ⊆ names)
    (h : (merge limits a b c).Returns R m (some n) m') :
    m' = m ∧ n.targets ⊆ names ∧ MergesAccepted R m.rules a b c n := by
  have ha := Node.throughout_refersHere.mpr ha
  have hb := Node.throughout_refersHere.mpr hb
  have hrefers := (Node.unites_refersHere names).merges_throughout R m limits
  obtain ⟨rfl, hacc⟩ := merges_accepted R m (Node.RefersHere names) limits _ ha hb h
  obtain ⟨-, hn⟩ := hrefers _ ha hb h
  exact ⟨rfl, Node.throughout_refersHere.mp (hn n rfl), hacc n rfl⟩

/-- The same for nodes that are merged by their structure. -/
theorem keeps_of_returns_mergeByStructure (ha : a.targets ⊆ names) (hb : b.targets ⊆ names)
    (h : (mergeByStructure limits a b c).Returns R m (.merged n) m') :
    m' = m ∧ n.targets ⊆ names ∧ MergesAccepted R m.rules a b c n := by
  have ha := Node.throughout_refersHere.mpr ha
  have hb := Node.throughout_refersHere.mpr hb
  have hunites := Node.unites_refersHere names
  obtain ⟨-, hn⟩ := of_returns_mergeStructure (hunites.merges_throughout R m limits _) ha hb h
  have hrefers := hunites.throughout_structureMerged (hn n rfl) ha hb
  obtain ⟨rfl, hacc⟩ := of_returns_mergeStructure
    (merges_accepted R m (Node.RefersHere names) limits _) ha hb h
  exact ⟨rfl, Node.throughout_refersHere.mp hrefers, (hacc n rfl).accepts⟩

end Learner

/-- Replies that accept only texts with a property. -/
def Replies.accepting (p : Text → Prop) : Replies where
  single t r := r = .ok true → p t
  batch _ _ := True
  seed _ _ := True

theorem Replies.accepts_accepting {p : Text → Prop} {t : Text} :
    (Replies.accepting p).Accepts t ↔ p t :=
  ⟨fun h => h rfl, fun h _ => h⟩

namespace Session

variable {σ : Type} {o : Oracle σ} {s s' : Session σ} {m m' : Memory} {a b n : Node}

/-! ### Coverage -/

/-- **Coverage.** Let every literal in two nodes be a single character with a class that contains
it, and every alternation have an option. Whatever the oracle answers and whatever the context and
the budget are, a node that they are merged into derives all that each of them derives, and so does
a tree that one is merged into, and a root. Merging into a root ends with one, unless the oracle
fails, where references go to rules with bases that lead down to rules without references. -/
theorem covers_of_merging (o : Oracle σ) (s : Session σ) (limits : Limits) (m : Memory)
    (ha : a.Throughout Node.ClassedHere) (hb : b.Throughout Node.ClassedHere) :
    (∀ c n m' s', Learns o s (Learner.merge limits a b c) m (some n) m' s' →
      m' = m ∧ m.rules.Covers n a ∧ m.rules.Covers n b) ∧
    (∀ n m' s', Learns o s (Learner.tryMerge limits a b) m (some n) m' s' →
      m' = m ∧ m.rules.Covers n a ∧ m.rules.Covers n b) ∧
    (∀ n m' s', Learns o s (Learner.mergeRoot limits a b) m n m' s' →
      m' = m ∧ m.rules.Covers n a ∧ m.rules.Covers n b) ∧
    ∀ names, m.rules.Grounded names → a.Mergeable names → b.Mergeable names →
      (∃ n s', Learns o s (Learner.mergeRoot limits a b) m n m s') ∨
        ∃ f m' s', s.learn o (Learner.mergeRoot limits a b) m = ((.error (.oracle f), m'), s') := by
  have hmerge := Learner.merges_covering .any m limits
  have hroot : ∀ n m' s', Learns o s (Learner.mergeRoot limits a b) m n m' s' →
      m' = m ∧ m.rules.Covers n a ∧ m.rules.Covers n b := by
    intro n m' s' h
    obtain ⟨rfl, hn⟩ := Learner.of_returns_mergeRoot hmerge ha hb h.returns_any
    exact ⟨rfl, hn.covers ha hb⟩
  refine ⟨fun c n m' s' h => ?_, fun n m' s' h => ?_, hroot, fun names hg ha hb => ?_⟩
  · obtain ⟨rfl, hn⟩ := hmerge _ ha hb h.returns_any
    exact ⟨rfl, hn n rfl⟩
  · obtain ⟨rfl, hn⟩ := Learner.of_returns_tryMerge hmerge ha hb h.returns_any
    exact ⟨rfl, (hn n rfl).covers ha hb⟩
  · -- Merging a root cannot fail by itself, so that it ends unless the oracle fails.
    have hsafe : (Learner.mergeRoot limits a b).Safe .answers m :=
      Learner.safe_mergeRoot Replies.answered_answers hg ha hb
    rcases learns_or_fails (Learner.orderly_mergeRoot a b) hsafe o s with
      ⟨n, m', s', h⟩ | ⟨f, m', s', h, -⟩
    · obtain ⟨rfl, -⟩ := hroot n m' s' h
      exact .inl ⟨n, s', h⟩
    · exact .inr ⟨f, m', s', h⟩

/-- A character as it is learned where no other is accepted. -/
def letter (x : Char) : Node := .literal (.single x (.singleton x))

/-- Whether a text is at least one `a`, then `1`, and perhaps `!`. -/
def isCall (t : Text) : Bool :=
  let rest := t.dropWhile (· = 'a')
  t.take 1 = ['a'] && (rest = ['1'] || rest = ['1', '!'])

/-- A call with a single `a`. -/
def shortCall : Node := .sequence [letter 'a', letter '1']

/-- A call with two `a` or more that ends in `!`. -/
def longCall : Node :=
  .sequence [.repetition (letter 'a') (.atLeast 2), letter '1', letter '!']

/-- Both kinds of calls are merged into one: at least one `a`, then `1`, and perhaps `!`. -/
theorem covers_of_merging_calls : ∃ n s,
    Learns (Oracle.ofPredicate isCall) (start (some 10) ())
      (Learner.merge Limits.strict shortCall longCall .whole) Memory.empty (some n) Memory.empty s ∧
    n = .sequence [.repetition (letter 'a') (.atLeast 1), letter '1',
      .alternation [.empty, letter '!']] ∧
    Rules.empty.Covers n shortCall ∧ Rules.empty.Covers n longCall := by
  have hletter : ∀ x, (letter x).Throughout Node.ClassedHere := fun x =>
    Node.throughout_literal.mpr ⟨x, .singleton x, rfl, by simp [CharClass.singleton,
      CharClass.ofChars, CharClass.ofSymbols]⟩
  have hrepeated : (Node.repetition (letter 'a') (.atLeast 2)).Throughout Node.ClassedHere :=
    Node.throughout_repetition.mpr ⟨trivial, hletter 'a'⟩
  have hshort : shortCall.Throughout Node.ClassedHere :=
    Node.throughout_sequence.mpr ⟨trivial, by simp [hletter]⟩
  have hlong : longCall.Throughout Node.ClassedHere :=
    Node.throughout_sequence.mpr ⟨trivial, by simp [hletter, hrepeated]⟩
  obtain ⟨hmerge, -⟩ := covers_of_merging (Oracle.ofPredicate isCall) (start (some 10) ())
    Limits.strict Memory.empty hshort hlong
  exact ⟨_, _, rfl, rfl, (hmerge .whole _ _ _ rfl).2⟩

/-! ### Acceptance -/

section Acceptance

variable {v : Text → Except OracleFault Bool} {limits : Limits} {c : Context} {t : Text}

/-- What a run of an orderly learner ends with is returned with replies that accept only what the
session remembers at its end. -/
theorem Learns.returns_accepting (ho : o.Decides v) {α : Type} {l : Learner α} (hl : l.Orderly)
    {x : α} (h : Learns o s l m x m' s') {p : Text → Prop}
    (hp : ∀ t, s'.answer? t = some true → p t) : l.Returns (.accepting p) m x m' := by
  have hsaying : (l.tree m).Reaches (.saying fun t b => b = true → p t) (.ok x, m') :=
    h.returns_saying ho hl fun t b hb htrue => hp t (explains_true.mp (htrue ▸ hb))
  refine hsaying.mono (fun t r hr h => ?_) (fun _ _ _ => trivial) fun _ _ _ => trivial
  exact hr true h rfl

theorem learns_render (h : m.rules.defaultText n = .ok t) :
    Learns o s (Learner.render n) m t m s := by
  refine learns_bind.mpr ⟨m.rules, m, s, rfl, ?_⟩
  rw [h]
  exact learns_pure.mpr ⟨rfl, rfl, rfl⟩

theorem learns_accepts (h : s.answer? t = some true) :
    Learns o s (Learner.accepts t) m true m (s.recalling 1) := by
  simp only [Learns, learn, Learner.tree, Learner.accepts, Query.run,
    tryQuery_of_query (query_of_isCached h)]

/-- A tree is merged with one that it corresponds to, if the merged default text is the old one or
is remembered as accepted. -/
theorem learns_tryMerge {u : Text} (hne : a ≠ b) (hn : m.rules.defaultText n = .ok u)
    (ha : m.rules.defaultText a = .ok t)
    (h : Learns o s (Learner.mergeByStructure limits a b .whole) m (.merged n) m s')
    (hu : u = t ∨ s'.answer? u = some true) :
    ∃ s₁, Learns o s (Learner.tryMerge limits a b) m (some n) m s₁ := by
  have hlast : ∃ s₁, Learns o s' (if u = t then pure (some n) else do
      if ← Learner.accepts u then return some n else return none) m (some n) m s₁ := by
    by_cases heq : u = t
    · rw [if_pos heq]
      exact ⟨s', learns_pure.mpr ⟨rfl, rfl, rfl⟩⟩
    · rw [if_neg heq]
      exact ⟨s'.recalling 1, learns_bind.mpr ⟨true, m, _, learns_accepts (hu.resolve_left heq),
        learns_pure.mpr ⟨rfl, rfl, rfl⟩⟩⟩
  obtain ⟨s₁, hlast⟩ := hlast
  refine ⟨s₁, ?_⟩
  unfold Learner.tryMerge
  rw [if_neg hne]
  refine learns_bind.mpr ⟨_, m, s', h, learns_bind.mpr ⟨u, m, s', learns_render hn, ?_⟩⟩
  exact learns_bind.mpr ⟨t, m, s', learns_render ha, hlast⟩

/-- **Acceptance.** Let the answers of an oracle be fixed by the text, let a rule table pass the
check, and let a context be accepted with the default text of a node. Whatever the node is merged
with, and however much of the budget is left, the context is accepted with the default text of the
merged node too. Merging two trees by their structure is therefore never undone by the check that
follows it. -/
theorem accepts_of_merging (ho : o.Decides v) (hs : s.Faithful v) {root : Node}
    (hr : (Grammar.mk root m.rules).validate = .ok ()) (ha : a.targets ⊆ m.rules.names)
    (hb : b.targets ⊆ m.rules.names) (limits : Limits) (left right : Text)
    (ht : m.rules.defaultText a = .ok t) (hacc : v (left ++ t ++ right) = .ok true) :
    (∀ n m' s', Learns o s (Learner.merge limits a b ⟨left, right⟩) m (some n) m' s' →
      m' = m ∧ ∃ u, m.rules.defaultText n = .ok u ∧ v (left ++ u ++ right) = .ok true) ∧
    (∀ n m' s',
      Learns o s (Learner.mergeByStructure limits a b ⟨left, right⟩) m (.merged n) m' s' →
      m' = m ∧ ∃ u, m.rules.defaultText n = .ok u ∧ v (left ++ u ++ right) = .ok true) ∧
    (a ≠ b → ∀ n m' s',
      Learns o s (Learner.mergeByStructure limits a b .whole) m (.merged n) m' s' →
      ∃ s₁, Learns o s (Learner.tryMerge limits a b) m (some n) m s₁) := by
  obtain ⟨done, hdone, hnames⟩ := (Grammar.resolves_of_validate hr).grounded
  have hdefault : ∀ {n : Node}, n.targets ⊆ m.rules.names →
      m.rules.defaultText n = .ok (m.rules.text n) := fun hn =>
    hdone.defaultText (List.Subset.trans hn hnames)
  have htext : m.rules.text a = t := Rules.text_of_defaultText ht
  refine ⟨fun n m' s' h => ?_, fun n m' s' h => ?_, fun hne n m' s' h => ?_⟩
  · have horderly : (Learner.merge limits a b ⟨left, right⟩).Orderly := Learner.orderly_merge a b _
    have hfaithful := h.faithful ho hs horderly
    obtain ⟨rfl, htargets, hn⟩ := Learner.keeps_of_returns_merge ha hb
      (h.returns_accepting ho horderly fun u hu => hfaithful u true hu)
    refine ⟨rfl, m'.rules.text n, hdefault htargets, ?_⟩
    exact Replies.accepts_accepting.mp (hn (Replies.accepts_accepting.mpr (htext ▸ hacc)))
  · have horderly : (Learner.mergeByStructure limits a b ⟨left, right⟩).Orderly :=
      Learner.orderly_mergeByStructure a b _
    have hfaithful := h.faithful ho hs horderly
    obtain ⟨rfl, htargets, hn⟩ := Learner.keeps_of_returns_mergeByStructure ha hb
      (h.returns_accepting ho horderly fun u hu => hfaithful u true hu)
    refine ⟨rfl, m'.rules.text n, hdefault htargets, ?_⟩
    exact Replies.accepts_accepting.mp (hn (Replies.accepts_accepting.mpr (htext ▸ hacc)))
  · -- Every text that the merge accepts on its way is the old one or is remembered at its end.
    have horderly : (Learner.mergeByStructure limits a b .whole).Orderly :=
      Learner.orderly_mergeByStructure a b _
    have hreturns := h.returns_accepting ho horderly
      (p := fun u => u = t ∨ s'.answer? u = some true) fun u hu => .inr hu
    obtain ⟨rfl, htargets, hn⟩ := Learner.keeps_of_returns_mergeByStructure ha hb hreturns
    have hold : (Replies.accepting fun u => u = t ∨ s'.answer? u = some true).Accepts
        (Context.whole.fill (m'.rules.text a)) :=
      Replies.accepts_accepting.mpr (.inl (by rw [Context.fill_whole, htext]))
    have hnew := Replies.accepts_accepting.mp (hn hold)
    rw [Context.fill_whole] at hnew
    exact learns_tryMerge hne (hdefault htargets) ht h hnew

/-- What an oracle says to calls, that fails at every other text. -/
def callOrFault (t : Text) : Except OracleFault Bool :=
  if isCall t then .ok true else .error .emptyCommand

/-- Merging calls within a small budget asks about calls only, and gives a node with an accepted
default text. -/
theorem accepts_of_merging_calls : ∃ n s t,
    Learns (Oracle.fixed fun t => ⟨callOrFault t, []⟩) (start (some 3) ())
      (Learner.tryMerge Limits.strict shortCall longCall) Memory.empty (some n) Memory.empty s ∧
    Rules.empty.defaultText n = .ok t ∧ callOrFault t = .ok true := by
  have hvalid : (Grammar.mk shortCall Memory.empty.rules).validate = .ok () := by decide
  obtain ⟨-, hstructure, htry⟩ := accepts_of_merging
    (o := Oracle.fixed fun t => ⟨callOrFault t, []⟩) (v := callOrFault) (fun _ _ => rfl)
    (s := start (some 3) ()) (m := Memory.empty) (a := shortCall) (b := longCall)
    (t := ['a', '1']) (fun t b h => by simp [start, answer?] at h) hvalid (by decide)
    (by decide) Limits.strict [] [] (by decide) (by decide)
  obtain ⟨-, t, ht, hacc⟩ := hstructure _ _ _ rfl
  obtain ⟨s, hs⟩ := htry (by decide) _ _ _ rfl
  exact ⟨_, s, t, hs, ht, by simpa using hacc⟩

end Acceptance

end Session

end GrammarInference
