import GrammarInference.Learn.Refine
import GrammarInference.Proofs.Growth

/-!
# What refining can lead to

`Refined R n c m n' m'` says that refining a node in a context, with a memory, may give another
node and leave another memory: a sequence is given structure, the options of an alternation and the
body of a repetition are refined in their place, and what is not accepted stays as it was.
`PassesRefined` does the same for the passes over a root.

Refining keeps nodes tidy and lets the rules grow (`Refined.grows`), and a node that is not an
alternation does not become one.
-/

namespace GrammarInference

mutual

/-- What refining a node in a context can lead to. -/
inductive Refined (R : Replies) : Node → Context → Memory → Node → Memory → Prop
  /-- A node that stays as it is. -/
  | same (n : Node) (c : Context) (m : Memory) : Refined R n c m n m
  /-- A sequence is given structure. -/
  | sequence {cs out : List Node} {c : Context} {m m' : Memory}
    (h : Restructured R cs c m out m') : Refined R (.sequence cs) c m (Node.sequenceOf out) m'
  /-- The options of an alternation are refined, the first one in any case. -/
  | alternation {o first : Node} {rest others : List Node} {c : Context} {m m₁ m₂ : Memory}
    (h : Refined R o c m first m₁) (hs : RefinedOptions R rest c m₁ others m₂) :
    Refined R (.alternation (o :: rest)) c m (.alternation (first :: others)) m₂
  /-- The body of a repetition is refined; a new default text is accepted. -/
  | repetition {b body : Node} {x : Bounds} {c : Context} {m m₁ : Memory}
    (h : Refined R b (c.narrow [] (Text.times (m.rules.text b) (max x.min 1 - 1))) m body m₁)
    (accepted : m₁.rules.text body = m.rules.text b ∨
      R.Accepts (c.fill (Text.times (m₁.rules.text body) (max x.min 1)))) :
    Refined R (.repetition b x) c m (.repetition body x) m₁
  /-- The refined body of a repetition is given up. -/
  | body {b body : Node} {x : Bounds} {c : Context} {m m₁ : Memory}
    (h : Refined R b (c.narrow [] (Text.times (m.rules.text b) (max x.min 1 - 1))) m body m₁) :
    Refined R (.repetition b x) c m (.repetition b x) m₁

/-- What refining options after the first one can lead to. -/
inductive RefinedOptions (R : Replies) :
    List Node → Context → Memory → List Node → Memory → Prop
  /-- No option is left. -/
  | nil (c : Context) (m : Memory) : RefinedOptions R [] c m [] m
  /-- A refined option is accepted, or it stays as it was. -/
  | cons {o refined kept : Node} {rest others : List Node} {c : Context} {m m₁ m₂ : Memory}
    (h : Refined R o c m refined m₁)
    (hkept : kept = o ∨ (kept = refined ∧ R.Accepts (c.fill (m₁.rules.text refined))))
    (hs : RefinedOptions R rest c m₁ others m₂) :
    RefinedOptions R (o :: rest) c m (kept :: others) m₂

end

/-- What passes over a root can lead to. -/
inductive PassesRefined (R : Replies) : Node → Memory → Node → Memory → Prop
  /-- No pass is left. -/
  | done (root : Node) (m : Memory) : PassesRefined R root m root m
  /-- A pass changes nothing, or is given up. -/
  | stop {root refined : Node} {m m₁ : Memory} (h : Refined R root Context.whole m refined m₁) :
    PassesRefined R root m root m₁
  /-- A pass is accepted. -/
  | pass {root refined out : Node} {m m₁ m₂ : Memory}
    (h : Refined R root Context.whole m refined m₁) (accepted : R.Accepts (m₁.rules.text refined))
    (more : PassesRefined R refined m₁ out m₂) : PassesRefined R root m out m₂

namespace Learner

variable {R : Replies} {limits : Limits}

mutual

theorem refined_of_refine : ∀ {n out : Node} {c : Context} {m m' : Memory},
    (refine limits n c).Returns R m out m' → Refined R n c m out m'
  | .literal l, _, _, _, _, h => by
    simp only [refine, returns_pure] at h
    obtain ⟨rfl, rfl⟩ := h
    exact .same _ _ _
  | .recursive name, _, _, _, _, h => by
    simp only [refine, returns_pure] at h
    obtain ⟨rfl, rfl⟩ := h
    exact .same _ _ _
  | .sequence cs, _, _, _, _, h => by
    simp only [refine, returns_bind, returns_pure] at h
    obtain ⟨out, _, hout, rfl, rfl⟩ := h
    exact .sequence (restructured_of_structureRegion hout)
  | .alternation [], _, _, _, _, h => by
    simp only [refine, returns_pure] at h
    obtain ⟨rfl, rfl⟩ := h
    exact .same _ _ _
  | .alternation (o :: rest), _, _, _, _, h => by
    simp only [refine, returns_bind, returns_pure] at h
    obtain ⟨first, m₁, hfirst, others, _, hothers, rfl, rfl⟩ := h
    exact .alternation (refined_of_refine hfirst) (refined_of_refineOptions hothers)
  | .repetition b x, _, c, _, _, h => by
    simp only [refine, returns_bind] at h
    obtain ⟨_, _, ht, body, _, hbody, _, m₁, hu, h⟩ := h
    obtain ⟨rfl, rfl⟩ := text_of_returns_render ht
    obtain ⟨rfl, rfl⟩ := text_of_returns_render hu
    have hbody := refined_of_refine hbody
    split at h
    · next heq =>
      obtain ⟨rfl, rfl⟩ := returns_pure.mp h
      exact .repetition hbody (.inl heq)
    · simp only [returns_bind] at h
      obtain ⟨ok, _, hok, h⟩ := h
      obtain ⟨hacc, rfl⟩ := returns_accepts.mp hok
      split at h
      · next htrue =>
        rw [htrue] at hacc
        obtain ⟨rfl, rfl⟩ := returns_pure.mp h
        exact .repetition hbody (.inr hacc)
      · obtain ⟨rfl, rfl⟩ := returns_pure.mp h
        exact .body hbody

theorem refined_of_refineOptions : ∀ {os out : List Node} {c : Context} {m m' : Memory},
    (refineOptions limits os c).Returns R m out m' → RefinedOptions R os c m out m'
  | [], _, _, _, _, h => by
    simp only [refineOptions, returns_pure] at h
    obtain ⟨rfl, rfl⟩ := h
    exact .nil _ _
  | o :: rest, _, c, _, _, h => by
    simp only [refineOptions, returns_bind] at h
    obtain ⟨refined, m₁, hrefined, h⟩ := h
    have hrefined := refined_of_refine hrefined
    split at h
    · simp only [returns_bind, returns_pure] at h
      obtain ⟨_, _, ⟨rfl, rfl⟩, others, _, hothers, rfl, rfl⟩ := h
      exact .cons hrefined (.inl rfl) (refined_of_refineOptions hothers)
    · simp only [returns_bind] at h
      obtain ⟨_, _, ht, ok, _, hok, h⟩ := h
      obtain ⟨rfl, rfl⟩ := text_of_returns_render ht
      obtain ⟨hacc, rfl⟩ := returns_accepts.mp hok
      split at h
      · next htrue =>
        rw [htrue] at hacc
        simp only [returns_bind, returns_pure] at h
        obtain ⟨_, _, ⟨rfl, rfl⟩, others, _, hothers, rfl, rfl⟩ := h
        exact .cons hrefined (.inr ⟨rfl, hacc⟩) (refined_of_refineOptions hothers)
      · simp only [returns_bind, returns_pure] at h
        obtain ⟨_, _, ⟨rfl, rfl⟩, others, _, hothers, rfl, rfl⟩ := h
        exact .cons hrefined (.inl rfl) (refined_of_refineOptions hothers)

end

theorem refined_of_refinePasses (passes : Nat) {root out : Node} {m m' : Memory}
    (h : (refinePasses limits passes root).Returns R m out m') : PassesRefined R root m out m' := by
  induction passes generalizing root m with
  | zero =>
    obtain ⟨rfl, rfl⟩ := returns_pure.mp h
    exact .done _ _
  | succ passes ih =>
    simp only [refinePasses, returns_bind] at h
    obtain ⟨refined, m₁, hrefined, h⟩ := h
    have hrefined := refined_of_refine hrefined
    split at h
    · obtain ⟨rfl, rfl⟩ := returns_pure.mp h
      exact .stop hrefined
    · simp only [returns_bind] at h
      obtain ⟨_, _, ht, ok, _, hok, h⟩ := h
      obtain ⟨rfl, rfl⟩ := text_of_returns_render ht
      obtain ⟨hacc, rfl⟩ := returns_accepts.mp hok
      split at h
      · next htrue =>
        rw [htrue] at hacc
        exact .pass hrefined hacc (ih h)
      · obtain ⟨rfl, rfl⟩ := returns_pure.mp h
        exact .stop hrefined

end Learner

section Growth

variable {R : Replies}

/-- Giving structure does not leave a single alternation where there was none. -/
theorem Restructured.not_alternation {ns ns' : List Node} {c : Context} {m m' : Memory}
    (h : Restructured R ns c m ns' m') (hna : ¬ (Node.sequenceOf ns).IsAlternation) :
    ¬ (Node.sequenceOf ns').IsAlternation := by
  induction h with
  | keep => exact hna
  | abandon _ _ _ _ ih => exact ih hna
  | @fold _ _ _ _ body left right _ _ _ _ _ _ least =>
    intro halt
    obtain ⟨os, hos⟩ := Node.eq_of_isAlternation_sequenceOf halt
    have hmem : Node.repetition (Node.sequenceOf body) (Bounds.atLeast least) ∈
        [Node.alternation os] := by
      rw [← hos]
      simp
    cases List.mem_singleton.mp hmem
  | nest =>
    rintro ⟨os, hos⟩
    cases hos

mutual

/-- **Growth.** Refining a tidy node gives a tidy node, which is not empty if the node is not, and
lets the rules grow. -/
theorem Refined.grows : ∀ {n n' : Node} {c : Context} {m m' : Memory} {done : List Text},
    Refined R n c m n' m' → m.rules.Ordered done → n.Tidy done →
      ∃ done', m.rules.Grows done m'.rules done' ∧ n'.Tidy done' ∧
        (n ≠ Node.empty → n' ≠ Node.empty) ∧ m'.classes = m.classes
  | _, _, _, _, _, _, .same n c m, ho, hn => ⟨_, .refl ho, hn, id, rfl⟩
  | _, _, _, _, _, _, .sequence h, ho, hn => by
    obtain ⟨done', hg, hparts, hne, hc⟩ := h.grows ho (Node.tidy_sequence.mp hn).2
    refine ⟨done', hg, Node.tidy_sequenceOf hparts, fun he => ?_, hc⟩
    exact (Node.part_sequenceOf (hne fun hnil => he (by rw [hnil, Node.empty])) hparts).ne_empty
  | _, _, _, _, _, _, .alternation h hs, ho, hn => by
    obtain ⟨hlen, hsome, hos⟩ := Node.tidy_alternation.mp hn
    obtain ⟨hfirst, hrest⟩ := List.forall_mem_cons.mp hos
    obtain ⟨done₁, hg₁, hfirst', hne₁, hc₁⟩ := h.grows ho hfirst
    obtain ⟨done₂, hg₂, hrest', hlen', hne₂, hc₂⟩ :=
      hs.grows hg₁.ordered fun o ho => (hrest o ho).mono hg₁.subset
    refine ⟨done₂, hg₁.trans hg₂, Node.tidy_alternation.mpr ⟨?_, ?_, ?_⟩,
      fun _ => by simp [Node.empty], hc₂.trans hc₁⟩
    · rw [List.length_cons, hlen']
      exact hlen
    · obtain ⟨o, ho, hne⟩ := hsome
      rcases List.mem_cons.mp ho with rfl | ho
      · exact ⟨_, .head _, hne₁ hne⟩
      · obtain ⟨o', ho', hne'⟩ := hne₂ ⟨o, ho, hne⟩
        exact ⟨o', .tail _ ho', hne'⟩
    · exact List.forall_mem_cons.mpr ⟨hfirst'.mono hg₂.subset, hrest'⟩
  | _, _, _, _, _, _, .repetition h _, ho, hn => by
    obtain ⟨hmax, hb⟩ := Node.tidy_repetition.mp hn
    obtain ⟨done', hg, hbody, _, hc⟩ := h.grows ho hb
    exact ⟨done', hg, Node.tidy_repetition.mpr ⟨hmax, hbody⟩, fun _ => by simp [Node.empty], hc⟩
  | _, _, _, _, _, _, .body h, ho, hn => by
    obtain ⟨_, hb⟩ := Node.tidy_repetition.mp hn
    obtain ⟨done', hg, _, _, hc⟩ := h.grows ho hb
    exact ⟨done', hg, hn.mono hg.subset, id, hc⟩

theorem RefinedOptions.grows : ∀ {os os' : List Node} {c : Context} {m m' : Memory}
    {done : List Text}, RefinedOptions R os c m os' m' → m.rules.Ordered done →
      (∀ o ∈ os, o.Tidy done) → ∃ done', m.rules.Grows done m'.rules done' ∧
        (∀ o ∈ os', o.Tidy done') ∧ os'.length = os.length ∧
        ((∃ o ∈ os, o ≠ Node.empty) → ∃ o ∈ os', o ≠ Node.empty) ∧ m'.classes = m.classes
  | _, _, _, _, _, _, .nil c m, ho, hos => ⟨_, .refl ho, hos, rfl, id, rfl⟩
  | _, _, _, _, _, _, .cons h hkept hs, ho, hos => by
    obtain ⟨hfirst, hrest⟩ := List.forall_mem_cons.mp hos
    obtain ⟨done₁, hg₁, hfirst', hne₁, hc₁⟩ := h.grows ho hfirst
    obtain ⟨done₂, hg₂, hrest', hlen', hne₂, hc₂⟩ :=
      hs.grows hg₁.ordered fun o ho => (hrest o ho).mono hg₁.subset
    refine ⟨done₂, hg₁.trans hg₂, List.forall_mem_cons.mpr ⟨?_, hrest'⟩, ?_, ?_, hc₂.trans hc₁⟩
    · rcases hkept with rfl | ⟨rfl, _⟩
      · exact hfirst.mono (hg₁.trans hg₂).subset
      · exact hfirst'.mono hg₂.subset
    · rw [List.length_cons, List.length_cons, hlen']
    · rintro ⟨o, ho, hne⟩
      rcases List.mem_cons.mp ho with rfl | ho
      · rcases hkept with rfl | ⟨rfl, _⟩
        · exact ⟨_, .head _, hne⟩
        · exact ⟨_, .head _, hne₁ hne⟩
      · obtain ⟨o', ho', hne'⟩ := hne₂ ⟨o, ho, hne⟩
        exact ⟨o', .tail _ ho', hne'⟩

end

/-- A node that is not an alternation does not become one. -/
theorem Refined.not_alternation {n n' : Node} {c : Context} {m m' : Memory} {done : List Text}
    (h : Refined R n c m n' m') (hn : n.Tidy done) (hna : ¬ n.IsAlternation) :
    ¬ n'.IsAlternation := by
  cases h with
  | same => exact hna
  | sequence h =>
    refine h.not_alternation fun halt => ?_
    obtain ⟨os, rfl⟩ := Node.eq_of_isAlternation_sequenceOf halt
    exact (Node.tidy_sequence.mp hn).1 rfl
  | alternation => exact absurd ⟨_, rfl⟩ hna
  | repetition =>
    rintro ⟨os, hos⟩
    cases hos
  | body => exact hna

theorem PassesRefined.grows {root out : Node} {m m' : Memory} {done : List Text}
    (h : PassesRefined R root m out m') (ho : m.rules.Ordered done) (hroot : root.Tidy done) :
    ∃ done', m.rules.Grows done m'.rules done' ∧ out.Tidy done' ∧ m'.classes = m.classes := by
  induction h generalizing done with
  | done => exact ⟨done, .refl ho, hroot, rfl⟩
  | stop h =>
    obtain ⟨done', hg, _, _, hc⟩ := h.grows ho hroot
    exact ⟨done', hg, hroot.mono hg.subset, hc⟩
  | pass h _ _ ih =>
    obtain ⟨done₁, hg₁, hrefined, _, hc₁⟩ := h.grows ho hroot
    obtain ⟨done₂, hg₂, hout, hc₂⟩ := ih hg₁.ordered hrefined
    exact ⟨done₂, hg₁.trans hg₂, hout, hc₂.trans hc₁⟩

end Growth

end GrammarInference
