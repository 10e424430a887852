import GrammarInference.Learn.Structure
import GrammarInference.Proofs.Copies
import GrammarInference.Proofs.Layers
import GrammarInference.Proofs.Outcomes

/-!
# What giving structure to a region can lead to

`Restructured R ns c m ns' m'` says that nodes in a context, with a memory, may be given the
structure `ns'` and leave another memory, where every query that the outcome rests on is accepted
by possible replies `R`. There are four ways: the nodes stay; an attempt on some of them is given up
and leaves its rules behind; copies are folded into a repetition, the first copy and both sides
being given structure in turn; or the nodes become a reference to a new rule.

The limits, the order of the candidates and the notes are left out.
`restructured_of_structureRegion` says that this is all that can happen; what is kept by giving
structure is then proved by induction on the relation.
-/

namespace GrammarInference

/-- The queries behind a fold of copies: `raw` is the text of all `count` copies as they were,
`body` the text of the first one once it has structure. -/
structure FoldEvidence (R : Replies) (here : Context) (first raw body : Text)
    (count least : Nat) : Prop where
  /-- One more copy is accepted. -/
  probe : R.Accepts (here.fill (raw ++ first))
  /-- As many copies of the body are accepted, unless they are the text as it was. -/
  kept : Text.times body count = raw ∨ R.Accepts (here.fill (Text.times body count))
  /-- One more copy of the body is accepted. -/
  more : R.Accepts (here.fill (Text.times body (count + 1)))
  /-- The least count is at most the count. -/
  le : least ≤ count
  /-- All smaller counts down to the least one are accepted. -/
  lowered : ∀ k, least ≤ k → k < count → R.Accepts (here.fill (Text.times body k))

/-- The queries behind a new rule: the region is accepted in the place of its inner part, once and
twice, with some text on both sides. -/
structure NestEvidence (R : Replies) (c : Context) (left middle right : Text) : Prop where
  /-- There is text on the left. -/
  left_ne_nil : left ≠ []
  /-- There is text on the right. -/
  right_ne_nil : right ≠ []
  /-- The region is accepted in the place of its inner part. -/
  deeper : R.Accepts (c.fill (left ++ (left ++ middle ++ right) ++ right))
  /-- And once more within that. -/
  deepest : R.Accepts (c.fill (left ++ (left ++ (left ++ middle ++ right) ++ right) ++ right))

/-- The branches of a new rule: the region with its inner part given structure, and with a
reference to the rule in place of the inner part. -/
def nestRule (name : Text) (left middle right : List Node) : Node :=
  .alternation [Node.sequenceOf (left ++ middle ++ right),
    Node.sequenceOf (left ++ [Node.recursive name] ++ right)]

/-- What giving structure to nodes in a context can lead to. -/
inductive Restructured (R : Replies) :
    List Node → Context → Memory → List Node → Memory → Prop
  /-- The nodes stay as they are. -/
  | keep (ns : List Node) (c : Context) (m : Memory) : Restructured R ns c m ns m
  /-- An attempt is given up. -/
  | abandon {ns part part' ns' : List Node} {c here : Context} {m m₁ m' : Memory}
    (sub : part ⊆ ns) (attempt : Restructured R part here m part' m₁)
    (rest : Restructured R ns c m₁ ns' m') : Restructured R ns c m ns' m'
  /-- Copies become a repetition. -/
  | fold {ns pre first post body left right : List Node} {copies : List (List Node)}
    {c : Context} {m m₁ m₂ m₃ : Memory} {least : Nat}
    (parts : Node.CopiesAt ns pre first copies post)
    (inside : Restructured R first
      ((c.narrow (m.rules.texts pre) (m.rules.texts post)).narrow []
        (m.rules.texts copies.flatten)) m body m₁)
    (evidence : FoldEvidence R (c.narrow (m.rules.texts pre) (m.rules.texts post))
      (m.rules.texts first) (m.rules.texts (first ++ copies.flatten)) (m₁.rules.texts body)
      (copies.length + 1) least)
    (before : Restructured R pre
      (c.narrow [] (Text.times (m₁.rules.texts body) least ++ m.rules.texts post)) m₁ left m₂)
    (after : Restructured R post
      (c.narrow (m₂.rules.texts left ++ Text.times (m₁.rules.texts body) least) []) m₂ right m₃) :
    Restructured R ns c m
      (left ++ [.repetition (Node.sequenceOf body) (Bounds.atLeast least)] ++ right) m₃
  /-- The nodes become a reference to a new rule. -/
  | nest {left middle right middle' : List Node} {c : Context} {m m₁ : Memory}
    (evidence : NestEvidence R c (m.rules.texts left) (m.rules.texts middle)
      (m.rules.texts right))
    (inside : Restructured R middle (c.narrow (m.rules.texts left) (m.rules.texts right))
      (m.setRule (Rules.nameOf m.rules.size) (Node.sequenceOf (left ++ middle ++ right)))
      middle' m₁) :
    Restructured R (left ++ middle ++ right) c m [.recursive (Rules.nameOf m.rules.size)]
      (m₁.setRule (Rules.nameOf m.rules.size)
        (nestRule (Rules.nameOf m.rules.size) left middle' right))

namespace Learner

variable {R : Replies} {m m' : Memory}

/-! ### Texts in memory -/

theorem text_of_returns_render {n : Node} {t : Text} (h : (render n).Returns R m t m') :
    t = m.rules.text n ∧ m' = m := by
  obtain ⟨ht, rfl⟩ := returns_render.mp h
  exact ⟨(Rules.text_of_defaultText ht).symm, rfl⟩

theorem texts_of_returns_renderAll {ns : List Node} {t : Text}
    (h : (renderAll ns).Returns R m t m') : t = m.rules.texts ns ∧ m' = m := by
  obtain ⟨ht, rfl⟩ := returns_renderAll.mp h
  exact ⟨(Rules.texts_of_defaultTexts ht).symm, rfl⟩

theorem texts_of_returns_renderEach {ns : List Node} {ts : List Text}
    (h : (renderEach ns).Returns R m ts m') : ts = ns.map m.rules.text ∧ m' = m := by
  induction ns generalizing ts with
  | nil =>
    unfold renderEach at h
    exact returns_pure.mp h
  | cons n rest ih =>
    simp only [renderEach, returns_bind, returns_pure] at h
    obtain ⟨t, _, ht, ts', _, hts, rfl, rfl⟩ := h
    obtain ⟨rfl, rfl⟩ := text_of_returns_render ht
    obtain ⟨rfl, rfl⟩ := ih hts
    exact ⟨rfl, rfl⟩

/-! ### Repetitions -/

/-- Lowering a count asks for every count that it passes. It stops at zero, after the last probe, or
where one copy less is rejected. -/
theorem of_returns_lowerCount {c : Context} {body : Text} {probes count least : Nat}
    (h : (lowerCount c body probes count).Returns R m least m') :
    m' = m ∧ least ≤ count ∧
      (∀ k, least ≤ k → k < count → R.Accepts (c.fill (Text.times body k))) ∧
      (least = 0 ∨ least + probes = count ∨
        R.single (c.fill (Text.times body (least - 1))) (.ok false)) := by
  have none_passed : ∀ n k, n ≤ k → k < n → R.Accepts (c.fill (Text.times body k)) :=
    fun n k hk hk' => absurd hk' (Nat.not_lt.mpr hk)
  induction probes generalizing count with
  | zero =>
    obtain ⟨rfl, rfl⟩ := returns_pure.mp h
    exact ⟨rfl, Nat.le_refl _, none_passed _, .inr (.inl rfl)⟩
  | succ probes ih =>
    cases count with
    | zero =>
      obtain ⟨rfl, rfl⟩ := returns_pure.mp h
      exact ⟨rfl, Nat.le_refl _, none_passed _, .inl rfl⟩
    | succ fewer =>
      simp only [lowerCount, returns_bind, returns_accepts] at h
      obtain ⟨b, _, ⟨hb, rfl⟩, h⟩ := h
      split at h
      · next ht =>
        rw [ht] at hb
        obtain ⟨rfl, hle, hall, hstop⟩ := ih h
        refine ⟨rfl, Nat.le_succ_of_le hle, fun k hk hk' => ?_, hstop.imp_right (.imp_left ?_)⟩
        · -- The count that has just been asked for is the greatest of those that are passed.
          rcases Nat.lt_succ_iff_lt_or_eq.mp hk' with hlt | rfl
          · exact hall k hk hlt
          · exact hb
        · rintro rfl
          exact (Nat.add_assoc _ _ _).symm
      · next hf =>
        rw [Bool.eq_false_iff.mpr hf] at hb
        obtain ⟨rfl, rfl⟩ := returns_pure.mp h
        exact ⟨rfl, Nat.le_refl _, none_passed _, .inr (.inr hb)⟩

variable {inner : List Node → Context → Learner (List Node)} {limits : Limits}

theorem of_returns_copiesKept {c : Context} {raw body : Text} {count : Nat} {b : Bool}
    (h : (copiesKept c raw body count).Returns R m b m') :
    m' = m ∧ (b = true →
      Text.times body count = raw ∨ R.Accepts (c.fill (Text.times body count))) := by
  unfold copiesKept at h
  split at h
  · next heq => exact ⟨(returns_pure.mp h).2, fun _ => .inl heq⟩
  · obtain ⟨hb, hm⟩ := returns_accepts.mp h
    exact ⟨hm, fun hbt => .inr (by rwa [hbt] at hb)⟩

/-- What an attempt to turn copies into a repetition goes through, where `first` is the first copy,
`others` are the nodes of the other copies, and at most `probes` lower counts are tried. -/
inductive Folded (R : Replies) (inner : List Node → Context → Learner (List Node)) (probes : Nat)
    (pre first others post : List Node) (count : Nat) (c : Context) (m : Memory) :
    Option (List Node) → Memory → Prop
  /-- One more copy is rejected. -/
  | refused : Folded R inner probes pre first others post count c m none m
  /-- The first copy is given structure, and then the copies of it are rejected. -/
  | givenUp {body : List Node} {m₁ : Memory}
    (inside : (inner first ((c.narrow (m.rules.texts pre) (m.rules.texts post)).narrow []
      (m.rules.texts others))).Returns R m body m₁) :
    Folded R inner probes pre first others post count c m none m₁
  /-- The copies become a repetition. -/
  | folded {body left right : List Node} {m₁ m₂ m₃ : Memory} {least : Nat}
    (inside : (inner first ((c.narrow (m.rules.texts pre) (m.rules.texts post)).narrow []
      (m.rules.texts others))).Returns R m body m₁)
    (evidence : FoldEvidence R (c.narrow (m.rules.texts pre) (m.rules.texts post))
      (m.rules.texts first) (m.rules.texts (first ++ others)) (m₁.rules.texts body) count least)
    (stop : least = 0 ∨ least + probes = count ∨
      R.single ((c.narrow (m.rules.texts pre) (m.rules.texts post)).fill
        (Text.times (m₁.rules.texts body) (least - 1))) (.ok false))
    (before : (inner pre (c.narrow []
      (Text.times (m₁.rules.texts body) least ++ m.rules.texts post))).Returns R m₁ left m₂)
    (after : (inner post (c.narrow
      (m₂.rules.texts left ++ Text.times (m₁.rules.texts body) least) [])).Returns R m₂ right m₃) :
    Folded R inner probes pre first others post count c m
      (some (left ++ [.repetition (Node.sequenceOf body) (Bounds.atLeast least)] ++ right)) m₃

theorem folded_of_repetitionOf {nodes : List Node} {c : Context} {run : Run nodes.length}
    {res : Option (List Node)} (h : (repetitionOf inner limits nodes c run).Returns R m res m') :
    Folded R inner limits.maxMinProbes (nodes.take run.start)
      ((nodes.drop run.start).take run.unit)
      ((nodes.drop (run.start + run.unit)).take (run.unit * (run.count - 1)))
      (nodes.drop (run.start + run.unit * run.count)) run.count c m res m' := by
  unfold repetitionOf at h
  dsimp only at h
  -- Only the four parts that the run cuts the nodes into matter from here on.
  generalize nodes.take run.start = pre at h ⊢
  generalize (nodes.drop run.start).take run.unit = first at h ⊢
  generalize (nodes.drop (run.start + run.unit)).take (run.unit * (run.count - 1)) = others at h ⊢
  generalize nodes.drop (run.start + run.unit * run.count) = post at h ⊢
  simp only [returns_bind] at h
  obtain ⟨_, _, hl, _, _, hr, _, _, hf, _, _, ho, ok, m, hok, h⟩ := h
  obtain ⟨rfl, rfl⟩ := texts_of_returns_renderAll hl
  obtain ⟨rfl, rfl⟩ := texts_of_returns_renderAll hr
  obtain ⟨rfl, rfl⟩ := texts_of_returns_renderAll hf
  obtain ⟨rfl, rfl⟩ := texts_of_returns_renderAll ho
  obtain ⟨hok, rfl⟩ := returns_accepts.mp hok
  split at h
  · next htrue =>
    rw [htrue] at hok
    simp only [returns_bind] at h
    obtain ⟨body, _, hbody, bt, m₁, hbt, kept, _, hkept, h⟩ := h
    obtain ⟨rfl, rfl⟩ := text_of_returns_render hbt
    rw [Rules.text_sequenceOf] at h hkept
    obtain ⟨rfl, hkept⟩ := of_returns_copiesKept hkept
    split at h
    · obtain ⟨rfl, rfl⟩ := returns_pure.mp h
      exact .givenUp hbody
    · next hk =>
      simp only [returns_bind] at h
      obtain ⟨more, _, hmore, h⟩ := h
      obtain ⟨hmore, rfl⟩ := returns_accepts.mp hmore
      split at h
      · obtain ⟨rfl, rfl⟩ := returns_pure.mp h
        exact .givenUp hbody
      · next hm =>
        simp only [returns_bind, returns_note, returns_shownNode, returns_pure] at h
        -- All probes have passed, and the count is lowered before both sides are given structure.
        obtain ⟨least, _, hleast, _, _, ⟨_, rfl⟩, _, _, rfl, left, m₂, hleft, _, _, hlt, right, _,
          hright, rfl, rfl⟩ := h
        obtain ⟨rfl, hle, hlow, hstop⟩ := of_returns_lowerCount hleast
        obtain ⟨rfl, rfl⟩ := texts_of_returns_renderAll hlt
        have hk : kept = true := by simpa using hk
        have hm : more = true := by simpa using hm
        rw [hm] at hmore
        rw [← Rules.texts_append] at hok hkept
        exact .folded hbody ⟨hok, hkept hk, hmore, hle, hlow⟩ hstop hleft hright
  · simp only [returns_bind, returns_note, returns_pure] at h
    obtain ⟨_, _, rfl, rfl, rfl⟩ := h
    exact .refused

/-- What an attempt on a region leads to: a structure of the region, or a memory from which every
structure that can be reached is one that can be reached from the beginning. -/
def Attempted (R : Replies) (ns : List Node) (c : Context) (m : Memory) :
    Option (List Node) → Memory → Prop
  | some ns', m' => Restructured R ns c m ns' m'
  | none, m' => ∀ ns' m'', Restructured R ns c m' ns' m'' → Restructured R ns c m ns' m''

theorem Folded.attempted
    (hinner : ∀ ns c m ns' m', (inner ns c).Returns R m ns' m' → Restructured R ns c m ns' m')
    {nodes pre first post : List Node} {copies : List (List Node)} {probes count : Nat}
    {c : Context} (hlen : copies.length + 1 = count)
    (hparts : Node.CopiesAt nodes pre first copies post) {res : Option (List Node)}
    (h : Folded R inner probes pre first copies.flatten post count c m res m') :
    Attempted R nodes c m res m' := by
  subst hlen
  cases h with
  | refused => exact fun _ _ h => h
  | givenUp inside =>
    refine fun _ _ => .abandon ?_ (hinner _ _ _ _ _ inside)
    rw [hparts.split]
    exact fun n hn => by simp [hn]
  | folded inside evidence _ before after =>
    exact .fold hparts (hinner _ _ _ _ _ inside) evidence (hinner _ _ _ _ _ before)
      (hinner _ _ _ _ _ after)

/-- A run of nodes whose keys are a candidate. -/
def IsCandidate (nodes : List Node) (run : Run nodes.length) : Prop :=
  ∃ limit, ∃ r ∈ Run.candidates (nodes.map Node.key) limit,
    r.start = run.start ∧ r.unit = run.unit ∧ r.count = run.count

theorem isCandidate_of_mem_runs (nodes : List Node) (limit : Nat) :
    ∀ run ∈ ((Run.candidates (nodes.map Node.key) limit).map fun r =>
      (⟨r.start, r.unit, r.count, r.one_le_unit, r.two_le_count, by simpa using r.fits⟩ :
        Run nodes.length)), IsCandidate nodes run := by
  intro run hrun
  obtain ⟨r, hr, rfl⟩ := List.mem_map.mp hrun
  exact ⟨limit, r, hr, rfl, rfl, rfl⟩

/-- A run whose keys are a candidate consists of copies. -/
theorem IsCandidate.copiesAt {nodes : List Node} {run : Run nodes.length}
    (hrun : IsCandidate nodes run) : ∃ copies : List (List Node),
      copies.length + 1 = run.count ∧
      (nodes.drop (run.start + run.unit)).take (run.unit * (run.count - 1)) = copies.flatten ∧
      Node.CopiesAt nodes (nodes.take run.start) ((nodes.drop run.start).take run.unit) copies
        (nodes.drop (run.start + run.unit * run.count)) := by
  obtain ⟨limit, r, hr, hs, hu, hn⟩ := hrun
  rw [← hs, ← hu, ← hn]
  exact Node.copiesAt_of_mem_candidates hr

theorem IsCandidate.attempted
    (hinner : ∀ ns c m ns' m', (inner ns c).Returns R m ns' m' → Restructured R ns c m ns' m')
    {nodes : List Node} {c : Context} {run : Run nodes.length} (hrun : IsCandidate nodes run)
    {res : Option (List Node)} (h : (repetitionOf inner limits nodes c run).Returns R m res m') :
    Attempted R nodes c m res m' := by
  obtain ⟨copies, hlen, hothers, hparts⟩ := hrun.copiesAt
  have h := folded_of_repetitionOf h
  rw [hothers] at h
  exact h.attempted hinner hlen hparts

theorem attempted_of_firstRepetition
    (hinner : ∀ ns c m ns' m', (inner ns c).Returns R m ns' m' → Restructured R ns c m ns' m')
    {nodes : List Node} {c : Context} {runs : List (Run nodes.length)}
    (hruns : ∀ run ∈ runs, IsCandidate nodes run) {res : Option (List Node)}
    (h : (firstRepetition inner limits nodes c runs).Returns R m res m') :
    Attempted R nodes c m res m' := by
  induction runs generalizing m with
  | nil =>
    obtain ⟨rfl, rfl⟩ := returns_pure.mp h
    exact fun _ _ h => h
  | cons run rest ih =>
    simp only [firstRepetition, returns_bind] at h
    obtain ⟨first, m₁, hfirst, h⟩ := h
    have hfirst := (hruns run (.head _)).attempted hinner hfirst
    cases first with
    | some out =>
      obtain ⟨rfl, rfl⟩ := returns_pure.mp h
      exact hfirst
    | none =>
      have hrest := ih (fun q hq => hruns q (.tail _ hq)) h
      cases res with
      | some out => exact hfirst _ _ hrest
      | none => exact fun _ _ h => hfirst _ _ (hrest _ _ h)

/-! ### Nesting -/

/-- The splits of a region have nodes on both sides of the inner part. -/
theorem of_mem_splits {size : Nat} {s : Split} (h : s ∈ splits size) :
    1 ≤ s.1 ∧ s.1 ≤ s.2 ∧ s.2 < size := by
  obtain ⟨middle, hm, h⟩ := List.mem_flatMap.mp h
  obtain ⟨i, hi, rfl⟩ := List.mem_map.mp h
  have hm := List.mem_range.mp (List.mem_reverse.mp hm)
  obtain ⟨k, hk, rfl⟩ := List.mem_range'.mp hi
  dsimp only
  omega

/-- The splits that are tried have text on both sides too. -/
theorem of_mem_nestingSplits {texts : List Text} {limit : Nat} {s : Split}
    (h : s ∈ nestingSplits texts limit) :
    s ∈ splits texts.length ∧ Text.concat (texts.take s.1) ≠ [] ∧
      Text.concat (texts.drop s.2) ≠ [] := by
  obtain ⟨hs, ht⟩ := List.mem_filter.mp (List.mem_of_mem_take h)
  refine ⟨hs, ?_⟩
  simpa using ht

theorem concat_map_text (r : Rules) (ns : List Node) :
    Text.concat (ns.map r.text) = r.texts ns := by
  rw [Text.concat, Rules.texts_eq_flatMap, List.flatMap_def]

/-- A list falls into the parts before, in and after the inner part of a split. -/
private theorem eq_parts {α : Type} (xs : List α) {i j : Nat} (h : i ≤ j) :
    xs = xs.take i ++ (xs.drop i).take (j - i) ++ xs.drop j := by
  have hdrop : xs.drop j = (xs.drop i).drop (j - i) := by
    rw [List.drop_drop, Nat.add_sub_cancel' h]
  rw [hdrop, List.append_assoc, List.take_append_drop, List.take_append_drop]

/-- What an attempt to turn a region into a reference goes through. -/
inductive Nested (R : Replies) (inner : List Node → Context → Learner (List Node))
    (nodes : List Node) (c : Context) (m : Memory) : Option (List Node) → Memory → Prop
  /-- The region is rejected in the place of its inner part. -/
  | refused : Nested R inner nodes c m none m
  /-- The region becomes the base of a new rule. -/
  | nested {left middle right middle' : List Node} {m₁ : Memory}
    (parts : nodes = left ++ middle ++ right)
    (evidence : NestEvidence R c (m.rules.texts left) (m.rules.texts middle)
      (m.rules.texts right))
    (inside : (inner middle (c.narrow (m.rules.texts left) (m.rules.texts right))).Returns R
      (m.setRule (Rules.nameOf m.rules.size) (Node.sequenceOf nodes)) middle' m₁) :
    Nested R inner nodes c m (some [.recursive (Rules.nameOf m.rules.size)])
      (m₁.setRule (Rules.nameOf m.rules.size)
        (nestRule (Rules.nameOf m.rules.size) left middle' right))

theorem nested_of_nestingOf {nodes : List Node} {c : Context} {s : Split} (hs : s.1 ≤ s.2)
    (hleft : Text.concat ((nodes.map m.rules.text).take s.1) ≠ [])
    (hright : Text.concat ((nodes.map m.rules.text).drop s.2) ≠ []) {res : Option (List Node)}
    (h : (nestingOf inner nodes c (nodes.map m.rules.text) s).Returns R m res m') :
    Nested R inner nodes c m res m' := by
  obtain ⟨i, j⟩ := s
  have hparts := eq_parts nodes hs
  simp only [nestingOf, returns_bind, ← List.map_take, ← List.map_drop, concat_map_text]
    at h hleft hright
  generalize nodes.take i = left at h hparts hleft
  generalize (nodes.drop i).take (j - i) = middle at h hparts
  generalize nodes.drop j = right at h hparts hright
  subst hparts
  rw [Rules.texts_append, Rules.texts_append] at h
  obtain ⟨deeper, _, hdeeper, h⟩ := h
  obtain ⟨hdeeper, rfl⟩ := returns_accepts.mp hdeeper
  split at h
  · obtain ⟨rfl, rfl⟩ := returns_pure.mp h
    exact .refused
  · next hd =>
    simp only [returns_bind] at h
    obtain ⟨deepest, _, hdeepest, h⟩ := h
    obtain ⟨hdeepest, rfl⟩ := returns_accepts.mp hdeepest
    split at h
    · obtain ⟨rfl, rfl⟩ := returns_pure.mp h
      exact .refused
    · next he =>
      simp only [returns_bind, returns_rules, returns_setRule, returns_note, returns_shownNode,
        returns_pure] at h
      -- Both probes are accepted: a rule is reserved, and its inner part given structure.
      obtain ⟨_, _, ⟨rfl, rfl⟩, _, _, rfl, middle', m₁, hmiddle, _, _, rfl, _, _, ⟨_, rfl⟩, _, _,
        rfl, rfl, rfl⟩ := h
      have hd : deeper = true := by simpa using hd
      have he : deepest = true := by simpa using he
      rw [hd] at hdeeper
      rw [he] at hdeepest
      exact .nested rfl ⟨hleft, hright, hdeeper, hdeepest⟩ hmiddle

theorem nested_of_firstNesting {nodes : List Node} {c : Context} {ss : List Split}
    (hss : ∀ s ∈ ss, s.1 ≤ s.2 ∧ Text.concat ((nodes.map m.rules.text).take s.1) ≠ [] ∧
      Text.concat ((nodes.map m.rules.text).drop s.2) ≠ []) {res : Option (List Node)}
    (h : (firstNesting inner nodes c (nodes.map m.rules.text) ss).Returns R m res m') :
    Nested R inner nodes c m res m' := by
  induction ss with
  | nil =>
    obtain ⟨rfl, rfl⟩ := returns_pure.mp h
    exact .refused
  | cons s rest ih =>
    simp only [firstNesting, returns_bind] at h
    obtain ⟨first, m₁, hfirst, h⟩ := h
    obtain ⟨hs, hleft, hright⟩ := hss s (.head _)
    cases nested_of_nestingOf hs hleft hright hfirst with
    | refused => exact ih (fun q hq => hss q (.tail _ hq)) h
    | nested parts evidence inside =>
      obtain ⟨rfl, rfl⟩ := returns_pure.mp h
      exact .nested parts evidence inside

/-- The splits that are tried are in order and have text on both sides. -/
theorem nested_of_nestingSplits {nodes : List Node} {c : Context} {limit : Nat}
    {res : Option (List Node)}
    (h : (firstNesting inner nodes c (nodes.map m.rules.text)
      (nestingSplits (nodes.map m.rules.text) limit)).Returns R m res m') :
    Nested R inner nodes c m res m' := by
  refine nested_of_firstNesting (fun s hs => ?_) h
  obtain ⟨hsplit, hleft, hright⟩ := of_mem_nestingSplits hs
  exact ⟨(of_mem_splits hsplit).2.1, hleft, hright⟩

theorem Nested.restructured
    (hinner : ∀ ns c m ns' m', (inner ns c).Returns R m ns' m' → Restructured R ns c m ns' m')
    {nodes out : List Node} {c : Context} (h : Nested R inner nodes c m (some out) m') :
    Restructured R nodes c m out m' := by
  cases h with
  | nested parts evidence inside =>
    subst parts
    exact .nest evidence (hinner _ _ _ _ _ inside)

/-! ### Regions -/

theorem restructured_of_structureStep
    (hinner : ∀ ns c m ns' m', (inner ns c).Returns R m ns' m' → Restructured R ns c m ns' m')
    {nodes out : List Node} {c : Context}
    (h : (structureStep inner limits nodes c).Returns R m out m') :
    Restructured R nodes c m out m' := by
  unfold structureStep at h
  split at h
  · next hnil =>
    obtain ⟨rfl, rfl⟩ := returns_pure.mp h
    rw [List.isEmpty_iff.mp hnil]
    exact .keep _ _ _
  · simp only [returns_bind] at h
    obtain ⟨first, m₁, hfirst, h⟩ := h
    have hfirst := attempted_of_firstRepetition hinner (isCandidate_of_mem_runs nodes _) hfirst
    · cases first with
      | some found =>
        obtain ⟨rfl, rfl⟩ := returns_pure.mp h
        exact hfirst
      | none =>
        -- No repetition was found, but looking for one may have added rules.
        refine hfirst _ _ ?_
        dsimp only at h
        split at h
        · obtain ⟨rfl, rfl⟩ := returns_pure.mp h
          exact .keep _ _ _
        · simp only [returns_bind] at h
          obtain ⟨texts, _, htexts, second, m₂, hsecond, h⟩ := h
          obtain ⟨rfl, rfl⟩ := texts_of_returns_renderEach htexts
          have hsecond := nested_of_nestingSplits hsecond
          cases second with
          | some found =>
            obtain ⟨rfl, rfl⟩ := returns_pure.mp h
            exact hsecond.restructured hinner
          | none =>
            obtain ⟨rfl, rfl⟩ := returns_pure.mp h
            cases hsecond
            exact .keep _ _ _

/-- **Giving structure.** All that giving structure can lead to is described by `Restructured`. -/
theorem restructured_of_structureWithin (depth : Nat) {nodes out : List Node} {c : Context}
    (h : (structureWithin limits depth nodes c).Returns R m out m') :
    Restructured R nodes c m out m' := by
  induction depth generalizing nodes out c m m' with
  | zero =>
    obtain ⟨rfl, rfl⟩ := returns_pure.mp h
    exact .keep _ _ _
  | succ depth ih =>
    exact restructured_of_structureStep (fun ns c m ns' m' h => ih h) h

theorem restructured_of_structureRegion {nodes out : List Node} {c : Context}
    (h : (structureRegion limits nodes c).Returns R m out m') :
    Restructured R nodes c m out m' :=
  restructured_of_structureWithin _ h

end Learner

end GrammarInference
