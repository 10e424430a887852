import GrammarInference.Proofs.Finishing
import GrammarInference.Proofs.Growth

/-!
# Giving structure loses no text

A node covers another one if it derives whatever the other one derives. Nodes with one key need not
cover each other: the key of a repetition leaves out its range. They do if the ranges are ordered,
which is what `Node.spans` compares, so that copies may be folded into a repetition of the first
one where the first copy spans the others.

`Restructured.covers` says that giving structure to nodes loses none of their texts if in every run
of them the first copy covers the others, as it does among tidy nodes if it spans them. Characters
have no ranges: one with the key of another covers it.
-/

namespace GrammarInference

/-- A node derives under a rule table whatever another one derives. -/
def Rules.Covers (r : Rules) (n k : Node) : Prop := ∀ t, Derives r k t → Derives r n t

theorem Rules.Covers.refl (r : Rules) (n : Node) : r.Covers n n := fun _ ht => ht

/-! ### Tables that agree -/

section Agreement

variable {r r' : Rules} {done : List Text}

mutual

/-- What a node derives depends only on a closed set of rules that it refers to. -/
theorem Derives.agree (hc : r.Closed done) (agree : ∀ name ∈ done, r'.get? name = r.get? name) :
    ∀ {n : Node} {t : Text}, Derives r n t → n.targets ⊆ done → Derives r' n t
  | _, _, .literal h, _ => .literal h
  | _, _, .sequence h, hn =>
    .sequence (DerivesAll.agree hc agree h fun c hc' name hname =>
      hn (by rw [Node.targets_sequence]; exact List.mem_flatMap.mpr ⟨c, hc', hname⟩))
  | _, _, .nothing, _ => .nothing
  | _, _, .alternation (o := o) ho h, hn =>
    .alternation ho (Derives.agree hc agree h fun name hname =>
      hn (by rw [Node.targets_alternation]; exact List.mem_flatMap.mpr ⟨o, ho, hname⟩))
  | _, _, .repetition hk h, hn =>
    .repetition hk (DerivesAll.agree hc agree h fun c hc' => by
      rw [(List.mem_replicate.mp hc').2]
      rwa [Node.targets_repetition] at hn)
  | _, _, @Derives.recursive _ name _ _ _ hget hb h, hn => by
    have hname : name ∈ done := hn (by simp)
    refine .recursive ((agree name hname).trans hget) hb (Derives.agree hc agree h ?_)
    exact List.Subset.trans (Node.targets_subset_of_mem_branches hb) (hc name hname _ hget)

theorem DerivesAll.agree (hc : r.Closed done)
    (agree : ∀ name ∈ done, r'.get? name = r.get? name) :
    ∀ {ns : List Node} {t : Text}, DerivesAll r ns t → (∀ n ∈ ns, n.targets ⊆ done) →
      DerivesAll r' ns t
  | _, _, .nil, _ => .nil
  | _, _, .cons h hs, hns =>
    .cons (Derives.agree hc agree h (hns _ (.head _)))
      (DerivesAll.agree hc agree hs fun n hn => hns n (.tail _ hn))

end

/-- All rules that a table has stay while it is extended. -/
theorem Rules.Extends.get?_of_get? {done' : List Text} (h : r.Extends done r' done') {name : Text}
    {rule : Node} (hget : r.get? name = some rule) : r'.get? name = some rule :=
  (h.kept name (mem_names_of_get? hget)).trans hget

theorem Rules.Extends.derives {done' : List Text} (h : r.Extends done r' done') {n : Node}
    {t : Text} (ht : Derives r n t) : Derives r' n t :=
  ht.mono fun _ _ => h.get?_of_get?

theorem Rules.Extends.derivesAll {done' : List Text} (h : r.Extends done r' done')
    {ns : List Node} {t : Text} (ht : DerivesAll r ns t) : DerivesAll r' ns t :=
  ht.mono fun _ _ => h.get?_of_get?

theorem Rules.Grows.derives {done' : List Text} (h : r.Grows done r' done') {n : Node} {t : Text}
    (ht : Derives r n t) : Derives r' n t :=
  h.extension.derives ht

end Agreement

/-! ### Keys and ranges -/

/-- A single character derives the members of its class. -/
theorem derives_single {r : Rules} {x : Char} {k : CharClass}
    (hx : Symbol.ofChar x ∈ k.characters) {t : Text} :
    Derives r (.literal (.single x k)) t ↔ ∃ d, t = [d] ∧ Symbol.ofChar d ∈ k.characters := by
  rw [derives_literal]
  change List.Forall₂ _ [(x, some k)] t ↔ _
  constructor
  · intro h
    cases h with
    | @cons _ d _ _ hd hnil =>
      cases hnil
      refine ⟨d, rfl, ?_⟩
      rcases hd with rfl | ⟨_, hk, hd⟩
      · exact hx
      · cases hk
        exact hd
  · rintro ⟨d, rfl, hd⟩
    exact .cons (.inr ⟨k, rfl, hd⟩) .nil

/-- A single character covers another one with the same key, if both belong to their classes. -/
theorem Rules.covers_single {x y : Char} {k l : CharClass} (hx : Symbol.ofChar x ∈ k.characters)
    (hy : Symbol.ofChar y ∈ l.characters)
    (hkey : (Node.literal (.single y l)).key = (Node.literal (.single x k)).key) (r : Rules) :
    r.Covers (.literal (.single x k)) (.literal (.single y l)) := by
  have hmembers : l.characters = k.characters := Key.members.inj hkey
  intro t ht
  obtain ⟨d, rfl, hd⟩ := (derives_single hy).mp ht
  rw [hmembers] at hd
  exact (derives_single hx).mpr ⟨d, rfl, hd⟩

/-- Where there is no greatest count, the least one decides. -/
theorem Bounds.has_of_min_le {x y : Bounds} (hx : x.max = none) (hmin : x.min ≤ y.min) {n : Nat}
    (h : y.has n = true) : x.has n = true := by
  simp only [has, Bool.and_eq_true, decide_eq_true_eq] at h ⊢
  refine ⟨Nat.le_trans hmin h.1, ?_⟩
  rw [hx]
  rfl

/-- Copies of a node derive what copies of another one derive, if the node does. -/
theorem DerivesAll.replicate {r r' : Rules} {a b : Node}
    (h : ∀ t, Derives r b t → Derives r' a t) {n : Nat} {t : Text}
    (ht : DerivesAll r (List.replicate n b) t) : DerivesAll r' (List.replicate n a) t := by
  induction n generalizing t with
  | zero => exact derivesAll_nil.mpr (derivesAll_nil.mp ht)
  | succ n ih =>
    obtain ⟨u, v, rfl, hu, hv⟩ := derivesAll_cons.mp ht
    exact .cons (h u hu) (ih hv)

namespace Node

/-- Whether the repetitions that make up a node, one inside the other, start at counts that are no
greater than those in another node with the same key. -/
def spans : Node → Node → Bool
  | .repetition b x, .repetition d y => x.min ≤ y.min && spans b d
  | _, _ => true

/-- A node that is its own key covers a node with that key: they are equal. -/
private theorem covers_of_key_node {done : List Text} {r : Rules} {a b : Node} (hb : b.Tidy done)
    (hkey : b.key = .node a) : r.Covers a b := by
  cases b with
  | literal l =>
    obtain ⟨y, k, rfl, _⟩ := tidy_literal.mp hb
    cases hkey
  | repetition => cases hkey
  | _ =>
    cases hkey
    exact .refl r _

/-- **Keys.** A tidy node covers a node with the same key that it spans. -/
theorem Tidy.covers_of_key {done : List Text} (r : Rules) : ∀ {a b : Node}, a.Tidy done →
    b.Tidy done → b.key = a.key → a.spans b = true → r.Covers a b
  | .literal l, b, ha, hb, hkey, _ => by
    obtain ⟨x, k, rfl, _, hx⟩ := tidy_literal.mp ha
    cases b with
    | literal l' =>
      obtain ⟨y, k', rfl, _, hy⟩ := tidy_literal.mp hb
      exact Rules.covers_single hx hy hkey r
    | _ => cases hkey
  | .repetition c x, b, ha, hb, hkey, hspan => by
    obtain ⟨hmax, hc⟩ := tidy_repetition.mp ha
    cases b with
    | repetition d y =>
      obtain ⟨_, hd⟩ := tidy_repetition.mp hb
      simp only [spans, Bool.and_eq_true, decide_eq_true_eq] at hspan
      have hbody := Tidy.covers_of_key r hc hd (Key.repeated.inj hkey) hspan.2
      intro t ht
      obtain ⟨n, hn, hcopies⟩ := derives_repetition.mp ht
      exact .repetition (Bounds.has_of_min_le hmax hspan.1 hn) (hcopies.replicate hbody)
    | literal l =>
      obtain ⟨y, k', rfl, _⟩ := tidy_literal.mp hb
      cases hkey
    | _ => cases hkey
  | .sequence _, _, _, hb, hkey, _ => covers_of_key_node hb hkey
  | .alternation _, _, _, hb, hkey, _ => covers_of_key_node hb hkey
  | .recursive _, _, _, hb, hkey, _ => covers_of_key_node hb hkey

/-- In every run of copies the first copy spans the others. -/
def RunsSpanned (ns : List Node) : Prop :=
  ∀ ⦃pre first : List Node⦄ ⦃copies : List (List Node)⦄ ⦃post : List Node⦄,
    CopiesAt ns pre first copies post →
      ∀ b ∈ copies, List.Forall₂ (fun n k => n.spans k = true) first b

/-- In every run of copies the first copy covers the others, whatever the rules are. -/
def RunsCovered (ns : List Node) : Prop :=
  ∀ ⦃pre first : List Node⦄ ⦃copies : List (List Node)⦄ ⦃post : List Node⦄,
    CopiesAt ns pre first copies post →
      ∀ b ∈ copies, ∀ r t, DerivesAll r b t → DerivesAll r first t

/-- The runs in a stretch of nodes are runs of all nodes. -/
theorem RunsCovered.within {ns part : List Node} (h : RunsCovered ns) (hpart : part <:+: ns) :
    RunsCovered part := by
  obtain ⟨left, right, rfl⟩ := hpart
  intro pre first copies post hc
  have hcopies : CopiesAt (left ++ part ++ right) (left ++ pre) first copies (post ++ right) := by
    refine ⟨?_, hc.first_ne_nil, hc.copies_ne_nil, hc.alike⟩
    rw [hc.split]
    simp only [List.append_assoc]
  exact h hcopies

/-- What holds of any two nodes of two lists with one key holds side by side if the keys of the
lists are the same. -/
private theorem forall₂_of_keys {P : Node → Node → Prop} {as bs : List Node}
    (hkeys : bs.map key = as.map key) (h : ∀ a ∈ as, ∀ b ∈ bs, b.key = a.key → P a b) :
    List.Forall₂ P as bs := by
  induction as generalizing bs with
  | nil =>
    rw [List.map_eq_nil_iff.mp hkeys]
    exact .nil
  | cons a as ih =>
    obtain ⟨b, bs, rfl, hkey, hkeys⟩ := List.map_eq_cons_iff.mp hkeys
    refine .cons (h a (.head _) b (.head _) hkey) (ih hkeys fun n hn k hk => ?_)
    exact h n (.tail _ hn) k (.tail _ hk)

/-- The first copies span the others if every node spans the later ones with its key. -/
theorem runsSpanned_of_pairwise {ns : List Node}
    (h : ns.Pairwise fun n k => k.key = n.key → n.spans k = true) : RunsSpanned ns := by
  intro pre first copies post hc b hb
  rw [hc.split] at h
  have hrun := (List.pairwise_append.mp (List.pairwise_append.mp h).1).2.1
  have hlater := (List.pairwise_append.mp hrun).2.2
  refine forall₂_of_keys (hc.alike b hb) fun n hn k hk => ?_
  exact hlater n hn k (List.mem_flatten.mpr ⟨b, hb, hk⟩)

end Node

/-! ### Giving structure -/

/-- Nodes that cover others derive side by side what those do. -/
theorem DerivesAll.of_covers {r : Rules} {as bs : List Node} (h : List.Forall₂ r.Covers as bs)
    {t : Text} (ht : DerivesAll r bs t) : DerivesAll r as t := by
  induction h generalizing t with
  | nil => exact ht
  | cons hab _ ih =>
    obtain ⟨u, v, rfl, hu, hv⟩ := derivesAll_cons.mp ht
    exact .cons (hab u hu) (ih hv)

/-- Tidy nodes cover others with the same keys that they span. -/
theorem Node.forall₂_covers_of_keys {done : List Text} (r : Rules) {as bs : List Node}
    (has : ∀ a ∈ as, a.Tidy done) (hbs : ∀ b ∈ bs, b.Tidy done) (hkeys : bs.map key = as.map key)
    (hspan : List.Forall₂ (fun a b => a.spans b = true) as bs) :
    List.Forall₂ r.Covers as bs := by
  induction hspan with
  | nil => exact .nil
  | @cons a b as bs hab _ ih =>
    obtain ⟨ha, has⟩ := List.forall_mem_cons.mp has
    obtain ⟨hb, hbs⟩ := List.forall_mem_cons.mp hbs
    obtain ⟨hkey, hkeys⟩ := List.cons.inj hkeys
    exact .cons (ha.covers_of_key r hb hkey hab) (ih has hbs hkeys)

/-- In a run of tidy nodes a first copy that spans the others covers them. -/
theorem Node.RunsSpanned.runsCovered {done : List Text} {ns : List Node} (h : RunsSpanned ns)
    (hns : ∀ n ∈ ns, n.Tidy done) : RunsCovered ns := by
  intro pre first copies post hc b hb r t ht
  rw [hc.split] at hns
  have hfirst : ∀ n ∈ first, n.Tidy done := fun n hn => hns n (by simp [hn])
  have hcopy : ∀ n ∈ b, n.Tidy done := fun n hn =>
    hns n (by simp [List.mem_flatten.mpr ⟨b, hb, hn⟩])
  exact .of_covers (forall₂_covers_of_keys r hfirst hcopy (hc.alike b hb) (h hc b hb)) ht

/-- In a run of single characters, each in its class, the first copy covers the others. -/
theorem Node.runsCovered_of_single {ns : List Node}
    (h : ∀ n ∈ ns, ∃ x k, n = .literal (.single x k) ∧ Symbol.ofChar x ∈ k.characters) :
    RunsCovered ns := by
  intro pre first copies post hc b hb r t ht
  rw [hc.split] at h
  refine .of_covers (forall₂_of_keys (hc.alike b hb) fun n hn k hk hkey => ?_) ht
  obtain ⟨x, kx, rfl, hx⟩ := h n (by simp [hn])
  obtain ⟨y, ky, rfl, hy⟩ := h k (by simp [List.mem_flatten.mpr ⟨b, hb, hk⟩])
  exact Rules.covers_single hx hy hkey r

/-- Blocks that are derived by one node each are derived by copies of it. -/
theorem derivesAll_replicate {r r' : Rules} {body : Node} {blocks : List (List Node)}
    (h : ∀ b ∈ blocks, ∀ t, DerivesAll r b t → Derives r' body t) {t : Text}
    (ht : DerivesAll r blocks.flatten t) : DerivesAll r' (List.replicate blocks.length body) t := by
  induction blocks generalizing t with
  | nil => exact derivesAll_nil.mpr (derivesAll_nil.mp ht)
  | cons b blocks ih =>
    obtain ⟨hb, hblocks⟩ := List.forall_mem_cons.mp h
    obtain ⟨u, v, rfl, hu, hv⟩ := derivesAll_append.mp ht
    exact .cons (hb u hu) (ih hblocks hv)

namespace Restructured

variable {R : Replies} {ns ns' : List Node} {c : Context} {m m' : Memory} {done : List Text}

/-- **Coverage.** Giving structure to nodes that refer to founded rules loses none of their texts,
if in every run of them the first copy covers the others. -/
theorem covers (h : Restructured R ns c m ns' m') (hf : m.rules.Founded done)
    (hns : ∀ n ∈ ns, n.targets ⊆ done) (hruns : Node.RunsCovered ns) {t : Text}
    (ht : DerivesAll m.rules ns t) : DerivesAll m'.rules ns' t := by
  induction h generalizing done t with
  | keep => exact ht
  | abandon sub attempt _ _ ih =>
    obtain ⟨done₁, hx, -⟩ := attempt.addsLayers hf fun n hn => hns n (sub hn)
    exact ih (hx.founded hf) (fun n hn => List.Subset.trans (hns n hn) hx.subset) hruns
      (hx.extension.derivesAll ht)
  | @fold ns pre first post body left right copies c m m₁ m₂ m₃ least parts inside evidence before
      after ih₁ ih₂ ih₃ =>
    have hcopies := hruns parts
    obtain rfl := parts.split
    have hpre : ∀ n ∈ pre, n.targets ⊆ done := fun n hn => hns n (by simp [hn])
    have hfirst : ∀ n ∈ first, n.targets ⊆ done := fun n hn => hns n (by simp [hn])
    have hpost : ∀ n ∈ post, n.targets ⊆ done := fun n hn => hns n (by simp [hn])
    obtain ⟨done₁, done₂, done₃, hl⟩ := exists_foldLayers hf hfirst hpre hpost inside before after
    obtain ⟨_, w, rfl, hleft, hw⟩ := derivesAll_append.mp ht
    obtain ⟨u, v, rfl, hu, hv⟩ := derivesAll_append.mp hleft
    have hrunsPre : Node.RunsCovered pre :=
      hruns.within ⟨[], first ++ copies.flatten ++ post, by simp⟩
    have hrunsFirst : Node.RunsCovered first :=
      hruns.within ⟨pre, copies.flatten ++ post, by simp⟩
    have hrunsPost : Node.RunsCovered post :=
      hruns.within ⟨pre ++ (first ++ copies.flatten), [], by simp⟩
    -- The body derives what the first copy derives, and so what any other copy does.
    have hbody : ∀ t, DerivesAll m.rules first t → Derives m₁.rules (Node.sequenceOf body) t :=
      fun t ht => derives_sequenceOf.mpr (ih₁ hf hfirst hrunsFirst ht)
    have hblocks : ∀ b ∈ first :: copies, ∀ t, DerivesAll m.rules b t →
        Derives m₁.rules (Node.sequenceOf body) t :=
      List.forall_mem_cons.mpr ⟨hbody, fun b hb t ht => hbody t (hcopies b hb _ t ht)⟩
    have hrun := derivesAll_replicate hblocks hv
    have hrep : Derives m₁.rules (.repetition (Node.sequenceOf body) (Bounds.atLeast least)) v :=
      .repetition (by simp [Bounds.has, Bounds.atLeast, evidence.le]) hrun
    have hu' : DerivesAll m₂.rules left u :=
      ih₂ hl.founded₁ hl.pre hrunsPre (hl.inside.extension.derivesAll hu)
    have hpost₂ := fun n hn => List.Subset.trans (hl.post n hn) hl.before.subset
    have hw' : DerivesAll m₃.rules right w :=
      ih₃ hl.founded₂ hpost₂ hrunsPost ((hl.inside.trans hl.before).extension.derivesAll hw)
    have hrep' := (hl.before.trans hl.after).extension.derives hrep
    exact ((hl.after.extension.derivesAll hu').append (derivesAll_singleton.mpr hrep')).append hw'
  | @nest left middle right middle' c m m₁ evidence inside ih =>
    have hleft : ∀ n ∈ left, n.targets ⊆ done := fun n hn => hns n (by simp [hn])
    have hmiddle : ∀ n ∈ middle, n.targets ⊆ done := fun n hn => hns n (by simp [hn])
    have hright : ∀ n ∈ right, n.targets ⊆ done := fun n hn => hns n (by simp [hn])
    -- While the middle is given structure, the new rule holds a placeholder.
    have hreserve := Rules.AddsLayers.reserve hf.numbered done
      (Node.sequenceOf (left ++ middle ++ right))
    have hf₀ := hreserve.founded hf
    obtain ⟨done₁, hx, hmiddle', -⟩ := inside.addsLayers hf₀ hmiddle
    have hx' := hreserve.trans hx
    have hlayer := hx.layer_nestRule hf hleft hmiddle' hright
    obtain ⟨_, w, rfl, hl, hw⟩ := derivesAll_append.mp ht
    obtain ⟨u, v, rfl, hu, hv⟩ := derivesAll_append.mp hl
    have hruns' := hruns.within ⟨left, right, rfl⟩
    have hv' := ih hf₀ hmiddle hruns' (hreserve.extension.derivesAll hv)
    have hbase : Derives m₁.rules (Node.sequenceOf (left ++ middle' ++ right)) (u ++ v ++ w) :=
      derives_sequenceOf.mpr
        (((hx'.extension.derivesAll hu).append hv').append (hx'.extension.derivesAll hw))
    -- The base does not refer to the rule that is completed.
    refine derivesAll_singleton.mpr (.recursive hlayer.get (.head _) ?_)
    exact hbase.agree (hx.founded hf₀).closed (fun _ => hx.get?_set_nameOf hf _) hlayer.base

end Restructured

end GrammarInference
