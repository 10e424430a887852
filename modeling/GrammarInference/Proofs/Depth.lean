import GrammarInference.Proofs.Restructuring
import GrammarInference.Learn.Merge

/-!
# The depth is never reached

Giving structure and merging are written with a bound on how deep their steps lie inside each
other. The bound does not show: a step gives structure only to regions that are shorter than its
own, and merges only nodes that are smaller together, so that two functions for the inner steps
that agree there make the same step (`Learner.structureStep_congr`, `Learner.mergeStep_congr`).

It follows that both satisfy their recursion equations without any bound
(`Learner.structureRegion_eq`, `Learner.merge_eq`).
-/

namespace GrammarInference

namespace Learner

variable {limits : Limits}

/-! ### Giving structure -/

section Structure

variable {inner inner' : List Node → Context → Learner (List Node)} {nodes : List Node}

/-- The first copy and both sides of a run are shorter than the region. -/
theorem repetitionOf_congr (h : ∀ ns c, ns.length < nodes.length → inner ns c = inner' ns c)
    (c : Context) (run : Run nodes.length) :
    repetitionOf inner limits nodes c run = repetitionOf inner' limits nodes c run := by
  have hunit := run.one_le_unit
  have hfits := run.fits
  have hwidth : run.unit * 2 ≤ run.unit * run.count := Nat.mul_le_mul_left _ run.two_le_count
  have hfirst : ((nodes.drop run.start).take run.unit).length < nodes.length := by
    rw [List.length_take, List.length_drop]
    omega
  have hleft : (nodes.take run.start).length < nodes.length := by
    rw [List.length_take]
    omega
  have hright : (nodes.drop (run.start + run.unit * run.count)).length < nodes.length := by
    rw [List.length_drop]
    omega
  simp only [repetitionOf, h _ _ hfirst, h _ _ hleft, h _ _ hright]

theorem firstRepetition_congr (h : ∀ ns c, ns.length < nodes.length → inner ns c = inner' ns c)
    (c : Context) (runs : List (Run nodes.length)) :
    firstRepetition inner limits nodes c runs = firstRepetition inner' limits nodes c runs := by
  induction runs with
  | nil => rfl
  | cons run rest ih => simp only [firstRepetition, repetitionOf_congr h, ih]

/-- The inner part of a split is shorter than the region. -/
theorem nestingOf_congr (h : ∀ ns c, ns.length < nodes.length → inner ns c = inner' ns c)
    (hne : nodes ≠ []) (c : Context) (texts : List Text) {s : Split} (hs : 1 ≤ s.1) :
    nestingOf inner nodes c texts s = nestingOf inner' nodes c texts s := by
  obtain ⟨i, j⟩ := s
  have hpos : 0 < nodes.length := List.length_pos_iff.mpr hne
  have hmiddle : ((nodes.drop i).take (j - i)).length < nodes.length := by
    rw [List.length_take, List.length_drop]
    omega
  simp only [nestingOf, h _ _ hmiddle]

theorem firstNesting_congr (h : ∀ ns c, ns.length < nodes.length → inner ns c = inner' ns c)
    (hne : nodes ≠ []) (c : Context) (texts : List Text) {ss : List Split}
    (hss : ∀ s ∈ ss, 1 ≤ s.1) :
    firstNesting inner nodes c texts ss = firstNesting inner' nodes c texts ss := by
  induction ss with
  | nil => rfl
  | cons s rest ih =>
    obtain ⟨hs, hrest⟩ := List.forall_mem_cons.mp hss
    simp only [firstNesting, nestingOf_congr h hne c texts hs, ih hrest]

/-- A step gives structure to shorter regions only. -/
theorem structureStep_congr (h : ∀ ns c, ns.length < nodes.length → inner ns c = inner' ns c)
    (c : Context) : structureStep inner limits nodes c = structureStep inner' limits nodes c := by
  by_cases hnil : nodes = []
  · subst hnil
    simp only [structureStep, List.isEmpty_nil, if_true]
  · have hnesting : ∀ texts limit,
        firstNesting inner nodes c texts (nestingSplits texts limit) =
          firstNesting inner' nodes c texts (nestingSplits texts limit) :=
      fun texts limit => firstNesting_congr h hnil c texts
        fun s hs => (of_mem_splits (of_mem_nestingSplits hs).1).1
    simp only [structureStep, firstRepetition_congr h, hnesting]

/-- Any bound that is no less than the length of a region does. -/
theorem structureWithin_of_length_le {depth : Nat} (h : nodes.length ≤ depth) (c : Context) :
    structureWithin limits depth nodes c = structureRegion limits nodes c := by
  unfold structureRegion
  generalize hn : nodes.length = n at h
  induction n using Nat.strongRecOn generalizing nodes depth c with
  | _ n ih =>
    cases n with
    | zero =>
      rw [List.length_eq_zero_iff.mp hn]
      cases depth <;> rfl
    | succ n =>
      obtain ⟨depth, rfl⟩ := Nat.exists_eq_add_of_le' (Nat.le_trans (Nat.le_add_left 1 n) h)
      refine structureStep_congr (fun ns c hns => ?_) c
      rw [hn] at hns
      have hdepth : ns.length ≤ depth := by omega
      have hn : ns.length ≤ n := by omega
      rw [ih ns.length hns c rfl hdepth, ih ns.length hns c rfl hn]

/-- **Giving structure.** Regions inside a region are given structure in the same way. -/
theorem structureRegion_eq (limits : Limits) (nodes : List Node) (c : Context) :
    structureRegion limits nodes c = structureStep (structureRegion limits) limits nodes c := by
  rw [← structureWithin_of_length_le (Nat.le_succ nodes.length) c, structureWithin]
  exact structureStep_congr (fun ns c hns => structureWithin_of_length_le (Nat.le_of_lt hns) c) c

end Structure

/-! ### Merging -/

/-- The parts of a node are no larger than the node, and smaller if the node is a sequence. -/
theorem size_le_of_mem_children {n k : Node} (h : k ∈ n.children) :
    k.size ≤ n.size ∧ (n.IsSequence → k.size < n.size) := by
  have sizeAll : ∀ {cs : List Node}, k ∈ cs → k.size ≤ Node.sizeAll cs := by
    intro cs hk
    induction cs with
    | nil => cases hk
    | cons c cs ih =>
      rw [Node.sizeAll]
      rcases List.mem_cons.mp hk with rfl | hk
      · omega
      · have := ih hk
        omega
  cases n with
  | sequence cs =>
    have hsize : k.size ≤ Node.sizeAll cs := sizeAll h
    rw [Node.size]
    exact ⟨by omega, fun _ => by omega⟩
  | _ =>
    rw [List.mem_singleton.mp h]
    refine ⟨Nat.le_refl _, ?_⟩
    rintro ⟨cs, hcs⟩
    cases hcs

/-- The body of a repetition is smaller; any other node stands for itself. -/
theorem size_asRepetition_le (n : Node) :
    (asRepetition n).1.size ≤ n.size ∧ (n.IsRepetition → (asRepetition n).1.size < n.size) := by
  cases n with
  | repetition b x =>
    simp only [asRepetition, Node.size]
    exact ⟨by omega, fun _ => by omega⟩
  | _ =>
    refine ⟨Nat.le_refl _, ?_⟩
    rintro ⟨b, x, hrep⟩
    cases hrep

section Merge

variable {inner inner' : Node → Node → Context → Learner (Option Node)} {a b : Node}

theorem mergePairs_congr {as bs : List Node}
    (h : ∀ x ∈ as, ∀ y ∈ bs, ∀ c, inner x y c = inner' x y c) (c : Context)
    (rest done : List Node) :
    mergePairs inner c rest as bs done = mergePairs inner' c rest as bs done := by
  induction as generalizing bs done with
  | nil => cases bs <;> rfl
  | cons x as ih =>
    cases bs with
    | nil => rfl
    | cons y bs =>
      have hinner := h x (.head _) y (.head _)
      have hrest := ih fun x hx y hy => h x (.tail _ hx) y (.tail _ hy)
      simp only [mergePairs, hinner, hrest]

theorem mergeBlocks_congr {blocks : List (Block Node)}
    (h : ∀ d ∈ blocks, ∀ x ∈ d.left, ∀ y ∈ d.right, ∀ c, inner x y c = inner' x y c)
    (c : Context) (done : List Node) :
    mergeBlocks inner c blocks done = mergeBlocks inner' c blocks done := by
  induction blocks generalizing done with
  | nil => rfl
  | cons d blocks ih =>
    obtain ⟨hd, hblocks⟩ := List.forall_mem_cons.mp h
    simp only [mergeBlocks, mergeSides, mergePairs_congr hd, ih hblocks]

/-- Parts of two nodes, one of them a sequence, are smaller together. -/
theorem mergeSequences_congr
    (h : ∀ x y c, x.size + y.size < a.size + b.size → inner x y c = inner' x y c)
    (either : a.IsSequence ∨ b.IsSequence) (c : Context) :
    mergeSequences inner a b c = mergeSequences inner' a b c := by
  have hparts : ∀ d ∈ Align.blocks Node.key a.children b.children, ∀ x ∈ d.left, ∀ y ∈ d.right,
      ∀ c, inner x y c = inner' x y c := by
    intro d hd x hx y hy c
    have hx : x ∈ a.children := by
      rw [← Align.flatMap_left_blocks Node.key a.children b.children]
      exact List.mem_flatMap.mpr ⟨d, hd, hx⟩
    have hy : y ∈ b.children := by
      rw [← Align.flatMap_right_blocks Node.key a.children b.children]
      exact List.mem_flatMap.mpr ⟨d, hd, hy⟩
    obtain ⟨hxa, hxa'⟩ := size_le_of_mem_children hx
    obtain ⟨hyb, hyb'⟩ := size_le_of_mem_children hy
    refine h x y c ?_
    rcases either with ha | hb
    · exact Nat.add_lt_add_of_lt_of_le (hxa' ha) hyb
    · exact Nat.add_lt_add_of_le_of_lt hxa (hyb' hb)
  simp only [mergeSequences, mergeBlocks_congr hparts]

/-- Bodies of two nodes, one of them a repetition, are smaller together. -/
theorem mergeRepetitions_congr
    (h : ∀ x y c, x.size + y.size < a.size + b.size → inner x y c = inner' x y c)
    (either : a.IsRepetition ∨ b.IsRepetition) (c : Context) :
    mergeRepetitions inner a b c = mergeRepetitions inner' a b c := by
  obtain ⟨hxa, hxa'⟩ := size_asRepetition_le a
  obtain ⟨hyb, hyb'⟩ := size_asRepetition_le b
  have hbodies : ∀ c, inner (asRepetition a).1 (asRepetition b).1 c =
      inner' (asRepetition a).1 (asRepetition b).1 c := by
    refine fun c => h _ _ c ?_
    rcases either with ha | hb
    · exact Nat.add_lt_add_of_lt_of_le (hxa' ha) hyb
    · exact Nat.add_lt_add_of_le_of_lt hxa (hyb' hb)
  simp only [mergeRepetitions, hbodies]

/-- A step merges smaller nodes only. -/
theorem mergeStep_congr
    (h : ∀ x y c, x.size + y.size < a.size + b.size → inner x y c = inner' x y c) (c : Context) :
    mergeStep inner limits a b c = mergeStep inner' limits a b c := by
  have hstructure : mergeStructure inner limits a b c = mergeStructure inner' limits a b c := by
    cases a <;> cases b <;> simp only [mergeStructure] <;>
      first
      | exact mergeRepetitions_congr h (.inl ⟨_, _, rfl⟩) c
      | exact mergeRepetitions_congr h (.inr ⟨_, _, rfl⟩) c
      | exact mergeSequences_congr h (.inl ⟨_, rfl⟩) c
      | exact mergeSequences_congr h (.inr ⟨_, rfl⟩) c
  simp only [mergeStep, hstructure]

/-- Any bound that is no less than the sizes of two nodes together does. -/
theorem mergeWithin_of_size_le {depth : Nat} (h : a.size + b.size ≤ depth) (c : Context) :
    mergeWithin limits depth a b c = merge limits a b c := by
  unfold merge
  generalize hn : a.size + b.size = n at h
  induction n using Nat.strongRecOn generalizing a b depth c with
  | _ n ih =>
    have hpos := a.one_le_size
    obtain ⟨n, rfl⟩ := Nat.exists_eq_add_of_le' (show 1 ≤ n by omega)
    obtain ⟨depth, rfl⟩ := Nat.exists_eq_add_of_le' (show 1 ≤ depth by omega)
    refine mergeStep_congr (fun x y c hxy => ?_) c
    rw [hn] at hxy
    have hdepth : x.size + y.size ≤ depth := by omega
    have hn : x.size + y.size ≤ n := by omega
    rw [ih (x.size + y.size) hxy c rfl hdepth, ih (x.size + y.size) hxy c rfl hn]

/-- **Merging.** Nodes inside two nodes are merged in the same way. -/
theorem merge_eq (limits : Limits) (a b : Node) (c : Context) :
    merge limits a b c = mergeStep (merge limits) limits a b c := by
  rw [← mergeWithin_of_size_le (Nat.le_succ (a.size + b.size)) c, mergeWithin]
  exact mergeStep_congr (fun x y c hxy => mergeWithin_of_size_le (Nat.le_of_lt hxy) c) c

end Merge

end Learner

end GrammarInference
