import GrammarInference.Proofs.Texts

/-!
# What a machine lacks for a default text

A node that has a default text has it on a machine as well, unless the machine lacks something for
it. What it lacks is traced to a part: the machine renders the parts of a node one after another and
follows references to base branches (`Rules.Renders`), each part with fewer calls left, and every
part asks for calls and for room of its own (`Rules.Lacks`). A machine gives the default text if it
lacks nothing for any part, and otherwise fails with what it lacks for one of them
(`Rules.rendersOn_of_defaultText`).

The induction is on the references that the default text takes. What has a text with fewer
references has the same text with more (`Rules.renderRule_mono`), so that what a part asks for does
not depend on where in a text the part stands.
-/

namespace GrammarInference

/-! ### More references -/

namespace Node

variable {copier : Copier} {r r' : Text → Except RenderFault Text}

mutual

/-- A text stays the same where the references that have a text keep it. -/
theorem renderWith_mono (hr : ∀ name u, r name = .ok u → r' name = .ok u) :
    ∀ {n : Node} {u : Text}, n.renderWith copier r = .ok u → n.renderWith copier r' = .ok u
  | .literal _, _, h => by rwa [renderWith] at h ⊢
  | .sequence cs, _, h => by
    rw [renderWith] at h ⊢
    exact renderAllWith_mono hr h
  | .alternation [], _, h => by rwa [renderWith] at h ⊢
  | .alternation (o :: _), _, h => by
    rw [renderWith] at h ⊢
    exact renderWith_mono hr h
  | .repetition b x, _, h => by
    rw [renderWith] at h ⊢
    split at h
    · next v hv =>
      rw [renderWith_mono hr hv]
      exact h
    · cases h
  | .recursive name, _, h => by
    rw [renderWith] at h ⊢
    exact hr name _ h

theorem renderAllWith_mono (hr : ∀ name u, r name = .ok u → r' name = .ok u) :
    ∀ {ns : List Node} {u : Text}, renderAllWith copier r ns = .ok u →
      renderAllWith copier r' ns = .ok u
  | [], _, h => h
  | n :: rest, _, h => by
    rw [renderAllWith] at h ⊢
    split at h
    · cases h
    · next v hv =>
      split at h
      · cases h
      · next w hw =>
        rw [renderWith_mono hr hv, renderAllWith_mono hr hw]
        exact h

end

end Node

namespace Rules

variable {r : Rules} {copier : Copier} {m : Machine} {left left' : Nat} {n n' : Node} {s : Shortage}

/-- With more steps a reference has the same text. -/
theorem renderRule_mono {steps steps' : Nat} (hs : steps ≤ steps') {name u : Text}
    (h : r.renderRule copier steps name = .ok u) : r.renderRule copier steps' name = .ok u := by
  induction steps generalizing steps' name u with
  | zero => cases h
  | succ steps ih =>
    obtain ⟨steps', rfl⟩ := Nat.exists_eq_add_of_le' (Nat.le_trans (Nat.le_add_left 1 _) hs)
    simp only [renderRule] at h ⊢
    split at h
    · cases h
    · split at h
      · cases h
      · exact Node.renderWith_mono (fun name u => ih (Nat.le_of_succ_le_succ hs)) h

/-! ### What the parts of a text ask for -/

/-- To render the first node while so many calls are left, the second one is rendered while so many
are left. -/
inductive Renders (r : Rules) : Nat → Node → Nat → Node → Prop
  /-- A node is rendered itself. -/
  | self (left : Nat) (n : Node) : Renders r left n left n
  /-- So is each part of a sequence. -/
  | part {left left' : Nat} {c n' : Node} {cs : List Node} (mem : c ∈ cs)
    (below : Renders r (left - 2) c left' n') : Renders r left (.sequence cs) left' n'
  /-- So is the first option of an alternation. -/
  | option {left left' : Nat} {o n' : Node} {os : List Node}
    (below : Renders r (left - 1) o left' n') : Renders r left (.alternation (o :: os)) left' n'
  /-- So is the body of a repetition, also where there are to be no copies of it. -/
  | body {left left' : Nat} {b n' : Node} {x : Bounds}
    (below : Renders r (left - 1) b left' n') : Renders r left (.repetition b x) left' n'
  /-- So is the first base branch of a rule that is referred to. -/
  | branch {left left' : Nat} {name : Text} {rule base n' : Node} (get : r.get? name = some rule)
    (first : rule.firstBase? name = some base) (below : Renders r (left - 1) base left' n') :
    Renders r left (.recursive name) left' n'

/-- What a node asks the machine for, when the texts of its parts are there. -/
inductive Needs (r : Rules) : Node → Need → Prop
  /-- The texts of the parts of a sequence are put one after another. -/
  | joined {cs : List Node} {ts : List Text} (texts : cs.map r.defaultText = ts.map .ok) :
    Needs r (.sequence cs) (.joined ts)
  /-- The text of the body of a repetition is copied. -/
  | copies {b : Node} {x : Bounds} {t : Text} (text : r.defaultText b = .ok t) :
    Needs r (.repetition b x) (.copies t x.min)

/-- What the machine lacks for a node itself while so many calls are left. -/
def Lacks (r : Rules) (m : Machine) (left : Nat) (n : Node) (s : Shortage) : Prop :=
  (left < n.renderCalls ∧ s = .tooDeep) ∨ ∃ need, r.Needs n need ∧ m.lacks? need = some s

/-- What the machine lacks for a node or for a part of it while so many calls are left. -/
def ExceedsWith (r : Rules) (m : Machine) (left : Nat) (n : Node) (s : Shortage) : Prop :=
  ∃ left' n', r.Renders left n left' n' ∧ r.Lacks m left' n' s

/-- What the machine lacks for the default text of a node. -/
def Exceeds (r : Rules) (m : Machine) (n : Node) (s : Shortage) : Prop :=
  r.ExceedsWith m m.calls n s

/-- The machine gives a text as the default text of a node, or fails with what it lacks for it. It
does not fail where it lacks nothing. -/
def RendersOn (r : Rules) (m : Machine) (n : Node) (u : Text) : Prop :=
  (r.render m n = .ok u ∧ ∀ s, ¬ r.Exceeds m n s) ∨
    ∃ s, r.render m n = .error (.shortage s) ∧ r.Exceeds m n s

theorem ExceedsWith.self (h : r.Lacks m left n s) : r.ExceedsWith m left n s :=
  ⟨left, n, .self left n, h⟩

theorem exceedsWith_sequence {cs : List Node} : r.ExceedsWith m left (.sequence cs) s ↔
    r.Lacks m left (.sequence cs) s ∨ ∃ c ∈ cs, r.ExceedsWith m (left - 2) c s := by
  constructor
  · rintro ⟨left', n', h, hlacks⟩
    cases h with
    | self => exact .inl hlacks
    | part hc h => exact .inr ⟨_, hc, left', n', h, hlacks⟩
  · rintro (h | ⟨c, hc, left', n', h, hlacks⟩)
    · exact .self h
    · exact ⟨left', n', .part hc h, hlacks⟩

theorem exceedsWith_alternation {o : Node} {os : List Node} :
    r.ExceedsWith m left (.alternation (o :: os)) s ↔
      r.Lacks m left (.alternation (o :: os)) s ∨ r.ExceedsWith m (left - 1) o s := by
  constructor
  · rintro ⟨left', n', h, hlacks⟩
    cases h with
    | self => exact .inl hlacks
    | option h => exact .inr ⟨left', n', h, hlacks⟩
  · rintro (h | ⟨left', n', h, hlacks⟩)
    · exact .self h
    · exact ⟨left', n', .option h, hlacks⟩

theorem exceedsWith_repetition {b : Node} {x : Bounds} :
    r.ExceedsWith m left (.repetition b x) s ↔
      r.Lacks m left (.repetition b x) s ∨ r.ExceedsWith m (left - 1) b s := by
  constructor
  · rintro ⟨left', n', h, hlacks⟩
    cases h with
    | self => exact .inl hlacks
    | body h => exact .inr ⟨left', n', h, hlacks⟩
  · rintro (h | ⟨left', n', h, hlacks⟩)
    · exact .self h
    · exact ⟨left', n', .body h, hlacks⟩

theorem exceedsWith_recursive {name : Text} {rule base : Node} (hget : r.get? name = some rule)
    (hfirst : rule.firstBase? name = some base) :
    r.ExceedsWith m left (.recursive name) s ↔
      r.Lacks m left (.recursive name) s ∨ r.ExceedsWith m (left - 1) base s := by
  constructor
  · rintro ⟨left', n', h, hlacks⟩
    cases h with
    | self => exact .inl hlacks
    | branch hget' hfirst' h =>
      obtain rfl := Option.some.inj (hget.symm.trans hget')
      obtain rfl := Option.some.inj (hfirst.symm.trans hfirst')
      exact .inr ⟨left', n', h, hlacks⟩
  · rintro (h | ⟨left', n', h, hlacks⟩)
    · exact .self h
    · exact ⟨left', n', .branch hget hfirst h, hlacks⟩

/-- A node that asks for nothing but its call lacks at most that. -/
theorem not_lacks (hcalls : ¬ left < n.renderCalls) (hneeds : ∀ need, ¬ r.Needs n need) :
    ¬ r.Lacks m left n s := by
  rintro (⟨h, -⟩ | ⟨need, hneed, -⟩)
  · exact hcalls h
  · exact hneeds need hneed

/-! ### Rendering on a machine -/

/-- What a rendering on a machine is to give, where so many calls are left: the text if the machine
lacks nothing, and what it lacks otherwise. -/
def Gives (r : Rules) (m : Machine) (left : Nat) (n : Node) (u : Text)
    (result : Except RenderFault Text) : Prop :=
  (result = .ok u ∧ ∀ s, ¬ r.ExceedsWith m left n s) ∨
    ∃ s, result = .error (.shortage s) ∧ r.ExceedsWith m left n s

/-- The same for several nodes. -/
def GivesEach (r : Rules) (m : Machine) (left : Nat) (ns : List Node) (u : Text)
    (result : Except RenderFault (List Text)) : Prop :=
  (∃ ts, result = .ok ts ∧ ns.map r.defaultText = ts.map .ok ∧ Text.concat ts = u ∧
      ∀ n ∈ ns, ∀ s, ¬ r.ExceedsWith m left n s) ∨
    ∃ s, result = .error (.shortage s) ∧ ∃ n ∈ ns, r.ExceedsWith m left n s

/-- A machine fails for want of calls where there are none for a node. -/
theorem gives_of_calls {u : Text} {result : Except RenderFault Text}
    (h : ¬ left < n.renderCalls → r.Gives m left n u result) :
    r.Gives m left n u
      (if left < n.renderCalls then .error (.shortage .tooDeep) else result) := by
  split
  · next hcalls => exact .inr ⟨.tooDeep, rfl, .self (.inl ⟨hcalls, rfl⟩)⟩
  · next hcalls => exact h hcalls

/-- A node that asks for nothing but its call gives its text if it has no parts. -/
theorem gives_leaf {u : Text} {result : Except RenderFault Text} (hcalls : ¬ left < n.renderCalls)
    (hneeds : ∀ need, ¬ r.Needs n need)
    (hparts : ∀ s, r.ExceedsWith m left n s → r.Lacks m left n s) (h : result = .ok u) :
    r.Gives m left n u result :=
  .inl ⟨h, fun s hexceeds => not_lacks hcalls hneeds (hparts s hexceeds)⟩

/-- A node that asks for nothing but its call gives what its only part gives. -/
theorem gives_of_part {u : Text} {result : Except RenderFault Text}
    (hcalls : ¬ left < n.renderCalls) (hneeds : ∀ need, ¬ r.Needs n need)
    (hpart : ∀ s, r.ExceedsWith m left n s ↔ r.Lacks m left n s ∨ r.ExceedsWith m left' n' s)
    (h : r.Gives m left' n' u result) : r.Gives m left n u result := by
  rcases h with ⟨hresult, hfits⟩ | ⟨s, hresult, hexceeds⟩
  · refine .inl ⟨hresult, fun s hexceeds => ?_⟩
    rcases (hpart s).mp hexceeds with hlacks | hexceeds
    · exact not_lacks hcalls hneeds hlacks
    · exact hfits s hexceeds
  · exact .inr ⟨s, hresult, (hpart s).mpr (.inr hexceeds)⟩

/-- A sequence gives the texts of its parts one after another, where there is memory for that. -/
theorem gives_sequence {cs : List Node} {u : Text} {each : Except RenderFault (List Text)}
    (hcalls : ¬ left < (Node.sequence cs).renderCalls) :
    r.GivesEach m (left - 2) cs u each →
      r.Gives m left (.sequence cs) u
        (match each with
          | .error e => .error e
          | .ok ts => (m.joined ts).mapError .shortage) := by
  rintro (⟨ts, rfl, htexts, rfl, hparts⟩ | ⟨s, rfl, c, hc, hexceeds⟩)
  · dsimp only [Machine.joined]
    split
    · next s hlacks => exact .inr ⟨s, rfl, .self (.inr ⟨_, .joined htexts, hlacks⟩)⟩
    · next hlacks =>
      refine .inl ⟨rfl, fun s hexceeds => ?_⟩
      rcases exceedsWith_sequence.mp hexceeds with (⟨hcalls', -⟩ | ⟨need, hneed, hlacks'⟩) |
        ⟨c, hc, hexceeds⟩
      · exact hcalls hcalls'
      · cases hneed with
        | @joined _ ts' htexts' =>
          obtain rfl : ts = ts' := by
            have hmaps := htexts.symm.trans htexts'
            exact List.map_injective_iff.mpr (fun _ _ => Except.ok.inj) hmaps
          cases hlacks.symm.trans hlacks'
      · exact hparts c hc s hexceeds
  · exact .inr ⟨s, rfl, exceedsWith_sequence.mpr (.inr ⟨c, hc, hexceeds⟩)⟩

/-- A repetition gives copies of the text of its body, where there is memory for them. -/
theorem gives_repetition {b : Node} {x : Bounds} {v : Text} {body : Except RenderFault Text}
    (hcalls : ¬ left < (Node.repetition b x).renderCalls) (hv : r.defaultText b = .ok v) :
    r.Gives m (left - 1) b v body →
      r.Gives m left (.repetition b x) (Text.times v x.min)
        (match body with
          | .error e => .error e
          | .ok t => (m.copies t x.min).mapError .shortage) := by
  rintro (⟨rfl, hfits⟩ | ⟨s, rfl, hexceeds⟩)
  · dsimp only
    cases hlacks : m.lacks? (.copies v x.min) with
    | some s =>
      rw [Machine.copies, hlacks]
      exact .inr ⟨s, rfl, .self (.inr ⟨_, .copies hv, hlacks⟩)⟩
    | none =>
      rw [Machine.copies_of_lacks?_eq_none hlacks]
      refine .inl ⟨rfl, fun s hexceeds => ?_⟩
      rcases exceedsWith_repetition.mp hexceeds with
        (⟨hcalls', -⟩ | ⟨need, hneed, hlacks'⟩) | hexceeds
      · exact hcalls hcalls'
      · cases hneed with
        | copies htext =>
          obtain rfl := Except.ok.inj (hv.symm.trans htext)
          cases hlacks.symm.trans hlacks'
      · exact hfits s hexceeds
  · exact .inr ⟨s, rfl, exceedsWith_repetition.mpr (.inr hexceeds)⟩

variable {steps fuel : Nat}

mutual

/-- **Step**: a machine gives the default text of a node if it does so of the rules that the node
refers to. -/
theorem gives_renderOn (hs : steps ≤ r.size + 1)
    (hrule : ∀ left name u, left + 1 < fuel → r.renderRule .unbounded steps name = .ok u →
      ∃ rule base, r.get? name = some rule ∧ rule.firstBase? name = some base ∧
        r.Gives m left base u (r.renderRuleOn m fuel left name)) :
    ∀ {n : Node} {left : Nat} {u : Text}, left < fuel →
      n.renderWith .unbounded (r.renderRule .unbounded steps) = .ok u →
      r.Gives m left n u (n.renderOn m (r.renderRuleOn m fuel) left)
  | .literal l, left, _, hleft, h => by
    rw [Node.renderWith] at h
    rw [Node.renderOn]
    refine gives_of_calls fun hcalls => gives_leaf hcalls nofun ?_ h
    rintro s ⟨left', n', hrenders, hlacks⟩
    cases hrenders
    exact hlacks
  | .sequence cs, left, _, hleft, h => by
    rw [Node.renderWith] at h
    rw [Node.renderOn]
    refine gives_of_calls fun hcalls => ?_
    have hbelow : left - 2 < fuel := Nat.lt_of_le_of_lt (Nat.sub_le left 2) hleft
    exact gives_sequence hcalls (gives_renderEachOn hs hrule hbelow h)
  | .alternation [], left, _, hleft, h => by
    rw [Node.renderWith] at h
    rw [Node.renderOn]
    refine gives_of_calls fun hcalls => gives_leaf hcalls nofun ?_ h
    rintro s ⟨left', n', hrenders, hlacks⟩
    cases hrenders
    exact hlacks
  | .alternation (o :: os), left, _, hleft, h => by
    rw [Node.renderWith] at h
    rw [Node.renderOn]
    refine gives_of_calls fun hcalls => ?_
    have hbelow : left - 1 < fuel := Nat.lt_of_le_of_lt (Nat.sub_le left 1) hleft
    exact gives_of_part hcalls nofun (fun _ => exceedsWith_alternation)
      (gives_renderOn hs hrule hbelow h)
  | .repetition b x, left, _, hleft, h => by
    rw [Node.renderWith] at h
    rw [Node.renderOn]
    refine gives_of_calls fun hcalls => ?_
    split at h
    · next v hv =>
      have hbelow : left - 1 < fuel := Nat.lt_of_le_of_lt (Nat.sub_le left 1) hleft
      have hbody : r.defaultText b = .ok v :=
        Node.renderWith_mono (fun _ _ => renderRule_mono hs) hv
      obtain rfl := Except.ok.inj h
      exact gives_repetition hcalls hbody (gives_renderOn hs hrule hbelow hv)
    · cases h
  | .recursive name, left, _, hleft, h => by
    rw [Node.renderWith] at h
    rw [Node.renderOn]
    refine gives_of_calls fun hcalls => ?_
    have hcall : 1 ≤ left := Nat.not_lt.mp hcalls
    have hbelow : left - 1 + 1 < fuel := by omega
    obtain ⟨rule, base, hget, hfirst, hgives⟩ := hrule (left - 1) name _ hbelow h
    exact gives_of_part hcalls nofun (fun _ => exceedsWith_recursive hget hfirst) hgives

theorem gives_renderEachOn (hs : steps ≤ r.size + 1)
    (hrule : ∀ left name u, left + 1 < fuel → r.renderRule .unbounded steps name = .ok u →
      ∃ rule base, r.get? name = some rule ∧ rule.firstBase? name = some base ∧
        r.Gives m left base u (r.renderRuleOn m fuel left name)) :
    ∀ {ns : List Node} {left : Nat} {u : Text}, left < fuel →
      Node.renderAllWith .unbounded (r.renderRule .unbounded steps) ns = .ok u →
      r.GivesEach m left ns u (Node.renderEachOn m (r.renderRuleOn m fuel) left ns)
  | [], left, _, _, h => by
    cases h
    exact .inl ⟨[], rfl, rfl, rfl, by simp⟩
  | n :: rest, left, _, hleft, h => by
    rw [Node.renderAllWith] at h
    rw [Node.renderEachOn]
    split at h
    · cases h
    · next v hv =>
      split at h
      · cases h
      · next w hw =>
        cases h
        have hn : r.defaultText n = .ok v :=
          Node.renderWith_mono (fun _ _ => renderRule_mono hs) hv
        rcases gives_renderOn hs hrule hleft hv with ⟨hresult, hfits⟩ | ⟨s, hresult, hexceeds⟩
        · rw [hresult]
          rcases gives_renderEachOn hs hrule hleft hw with
            ⟨ts, hrest, htexts, rfl, hparts⟩ | ⟨s, hrest, c, hc, hexceeds⟩
          · rw [hrest]
            refine .inl ⟨v :: ts, rfl, ?_, rfl, ?_⟩
            · rw [List.map_cons, List.map_cons, hn, htexts]
            · rintro n' hn' s
              rcases List.mem_cons.mp hn' with rfl | hn'
              · exact hfits s
              · exact hparts n' hn' s
          · rw [hrest]
            exact .inr ⟨s, rfl, c, List.mem_cons_of_mem _ hc, hexceeds⟩
        · rw [hresult]
          exact .inr ⟨s, rfl, n, List.mem_cons_self, hexceeds⟩

end

/-- **Run**: a machine gives the default texts of references, however many of them it takes. -/
theorem gives_renderRuleOn (hs : steps ≤ r.size + 1) {name u : Text} (hleft : left + 1 < fuel)
    (h : r.renderRule .unbounded steps name = .ok u) :
    ∃ rule base, r.get? name = some rule ∧ rule.firstBase? name = some base ∧
      r.Gives m left base u (r.renderRuleOn m fuel left name) := by
  induction steps generalizing fuel left name u with
  | zero => cases h
  | succ steps ih =>
    obtain ⟨fuel, rfl⟩ := Nat.exists_eq_add_of_le' (Nat.one_le_of_lt hleft)
    simp only [renderRule] at h
    simp only [renderRuleOn]
    split at h
    · cases h
    · next rule hget =>
      split at h
      · cases h
      · next base hfirst =>
        refine ⟨rule, base, hget, hfirst, ?_⟩
        exact gives_renderOn (Nat.le_of_succ_le hs)
          (fun left name u hleft => ih (Nat.le_of_succ_le hs) hleft)
          (Nat.lt_of_succ_lt_succ hleft) h

/-- **Default texts on a machine.** A machine gives the default text that a node has, or it lacks
something for a part of it and fails for that. -/
theorem rendersOn_of_defaultText {u : Text} (h : r.defaultText n = .ok u) (m : Machine) :
    r.RendersOn m n u :=
  gives_renderOn (Nat.le_refl _) (fun _ _ _ hleft => gives_renderRuleOn (Nat.le_refl _) hleft)
    (Nat.lt_succ_self _) h

end Rules

end GrammarInference
