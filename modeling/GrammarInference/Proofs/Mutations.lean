import GrammarInference.Proofs.DefaultDerivations

/-!
# A mutation changes one place

A path leads to a part of a derivation (`Derivation.at?`). The places that a sampler may mutate are
the parts whose node has a choice, and each of them is listed once
(`Derivation.mem_mutablePaths_iff`, `Derivation.nodup_mutablePaths`).

A mutation at a path exchanges the part there (`Derivation.replaceAt`). On the way back every text
is put together anew, so that the slice of the part is exchanged as well, provided that the texts
were put together from those of the parts before (`Derivation.PutTogether.text_eq`). That is where
earlier mutations enter: they lead to expansions, the texts of which are put together. What a
mutation leaves alone is said by `Derivation.Exchanges`; `Sampler.exchanges_of_mutateAt` says that
it holds of every mutation of every derivation that sampling comes to.
-/

namespace GrammarInference

/-- Whether a node can produce more than one text in its place, as far as the node itself shows: a
literal that has a class with several members, and all other nodes but sequences. -/
def Node.HasChoice : Node → Prop
  | .literal l => ∃ k, some k ∈ l.classes ∧ 1 < k.size
  | .sequence _ => False
  | _ => True

namespace Literal

variable {l : Literal} {t : Text} {i : Nat} {k? : Option CharClass}

/-- A text that a literal spells is as long as the literal. -/
theorem Spells.length_eq (h : l.Spells t) : t.length = l.text.length := by
  rw [← List.Forall₂.length_eq h, ← List.length_map Prod.fst, map_fst_cells]

/-- Where there is an entry for a class there is a character. -/
theorem lt_length_text (h : l.classes[i]? = some k?) : i < l.text.length := by
  obtain ⟨hi, -⟩ := List.getElem?_eq_some_iff.mp h
  have hne : l.classes ≠ [] := List.ne_nil_of_length_pos (Nat.zero_lt_of_lt hi)
  rwa [← l.fits.resolve_left hne]

end Literal

namespace Derivation

variable {d e part old new : Derivation} {path q : List Nat} {i : Nat}

/-! ### Parts at the ends of paths -/

/-- The part of a derivation at the end of a path, if the path leads to one. -/
def at? : List Nat → Derivation → Option Derivation
  | [], d => some d
  | i :: path, d => d.parts[i]?.bind (at? path)

/-- The text of all parts that stand before the part at the end of a path. -/
def textBefore : List Nat → Derivation → Text
  | [], _ => []
  | i :: path, d =>
    Text.concat ((d.parts.take i).map text) ++ d.parts[i]?.elim [] (textBefore path)

/-- The text of all parts that stand after the part at the end of a path. -/
def textAfter : List Nat → Derivation → Text
  | [], _ => []
  | i :: path, d =>
    d.parts[i]?.elim [] (textAfter path) ++ Text.concat ((d.parts.drop (i + 1)).map text)

/-- A derivation with another part at the end of a path; the texts on the way are put together
anew. -/
def replaceAt : List Nat → Derivation → Derivation → Derivation
  | [], _, new => new
  | i :: path, d, new => d.withParts (d.parts.modify i fun part => replaceAt path part new)

@[simp] theorem parts_withParts (d : Derivation) (ps : List Derivation) :
    (d.withParts ps).parts = ps := rfl

@[simp] theorem text_withParts (d : Derivation) (ps : List Derivation) :
    (d.withParts ps).text = Text.concat (ps.map text) := rfl

theorem at?_cons_eq_some :
    d.at? (i :: path) = some e ↔ ∃ part, d.parts[i]? = some part ∧ part.at? path = some e :=
  Option.bind_eq_some_iff

/-- A path is followed step by step. -/
theorem at?_append (q rest : List Nat) (d : Derivation) :
    d.at? (q ++ rest) = (d.at? q).bind (at? rest) := by
  induction q generalizing d with
  | nil => rfl
  | cons i q ih =>
    rw [List.cons_append, at?, at?]
    cases d.parts[i]? with
    | none => rfl
    | some part => exact ih part

/-- What is at the end of a path is a part. -/
theorem isPartOf_of_at? (h : d.at? path = some e) : e.IsPartOf d := by
  induction path generalizing d with
  | nil =>
    obtain rfl : d = e := Option.some.inj h
    exact .refl
  | cons i path ih =>
    obtain ⟨part, hpart, h⟩ := at?_cons_eq_some.mp h
    exact .part (List.mem_of_getElem? hpart) (ih h)

/-! ### Places that can be mutated -/

theorem isMutable_eq_true_iff : d.isMutable = true ↔ d.node.HasChoice := by
  unfold isMutable Node.HasChoice
  cases d.node with
  | literal l =>
    rw [Bool.not_eq_true', List.isEmpty_eq_false_iff]
    constructor
    · intro h
      obtain ⟨i, hi⟩ := List.exists_mem_of_ne_nil _ h
      obtain ⟨k, hclass, hsize⟩ := mem_freePositions.mp hi
      exact ⟨k, List.mem_of_getElem? hclass, hsize⟩
    · rintro ⟨k, hk, hsize⟩
      obtain ⟨i, hclass⟩ := List.mem_iff_getElem?.mp hk
      exact List.ne_nil_of_mem (mem_freePositions.mpr ⟨k, hclass, hsize⟩)
  | sequence cs => simp
  | _ => simp

/-- **Candidates.** The paths that are listed are those to the parts with a choice. -/
theorem mem_mutablePaths_iff :
    path ∈ d.mutablePaths ↔ ∃ e, d.at? path = some e ∧ e.node.HasChoice := by
  induction path generalizing d with
  | nil =>
    rw [nil_mem_mutablePaths, isMutable_eq_true_iff]
    simp [at?]
  | cons i path ih =>
    simp only [cons_mem_mutablePaths, at?_cons_eq_some, ih]
    constructor
    · rintro ⟨part, hpart, e, he, hchoice⟩
      exact ⟨e, ⟨part, hpart, he⟩, hchoice⟩
    · rintro ⟨e, ⟨part, hpart, he⟩, hchoice⟩
      exact ⟨part, hpart, e, he, hchoice⟩

mutual

/-- No path is listed twice. -/
theorem nodup_mutablePaths : ∀ d : Derivation, d.mutablePaths.Nodup
  | .make n t ps depth => by
    rw [mutablePaths, List.nodup_append]
    refine ⟨by split <;> simp, nodup_mutablePathsFrom 0 ps, fun a ha b hb => ?_⟩
    -- The path to the derivation itself is empty, and those to its parts are not.
    obtain ⟨j, part, rest, -, -, rfl⟩ := mem_mutablePathsFrom.mp hb
    split at ha
    · rw [List.mem_singleton.mp ha]
      exact (List.cons_ne_nil _ _).symm
    · cases ha

theorem nodup_mutablePathsFrom (i : Nat) : ∀ ps : List Derivation, (mutablePathsFrom i ps).Nodup
  | [] => by simp [mutablePathsFrom]
  | d :: rest => by
    rw [mutablePathsFrom, List.nodup_append]
    refine ⟨(nodup_mutablePaths d).map List.cons_injective,
      nodup_mutablePathsFrom (i + 1) rest, fun a ha b hb hab => ?_⟩
    obtain ⟨path, -, rfl⟩ := List.mem_map.mp ha
    obtain ⟨j, part, rest, -, -, rfl⟩ := mem_mutablePathsFrom.mp hb
    have hposition := (List.cons.inj hab).1
    omega

end

/-! ### Exchanging a part -/

/-- At a path neither above nor below the one to the exchanged part nothing changes. -/
theorem at?_replaceAt_of_beside (hbelow : ¬ path <+: q) (habove : ¬ q <+: path) :
    (replaceAt path d new).at? q = d.at? q := by
  induction path generalizing d q with
  | nil => exact absurd List.nil_prefix hbelow
  | cons i path ih =>
    cases q with
    | nil => exact absurd List.nil_prefix habove
    | cons j q =>
      rw [at?, at?, replaceAt, parts_withParts]
      rcases eq_or_ne i j with rfl | hij
      · rw [List.getElem?_modify_eq]
        cases hpart : d.parts[i]? with
        | none => rfl
        | some part =>
          exact ih (fun h => hbelow (List.cons_prefix_cons.mpr ⟨rfl, h⟩))
            fun h => habove (List.cons_prefix_cons.mpr ⟨rfl, h⟩)
      · rw [List.getElem?_modify_ne _ _ hij]

/-- Above the exchanged part, and at it, stands what stood there, with the part exchanged. -/
theorem at?_replaceAt_append (q rest : List Nat) (d new : Derivation) :
    (replaceAt (q ++ rest) d new).at? q = (d.at? q).map fun a => replaceAt rest a new := by
  induction q generalizing d with
  | nil => rfl
  | cons j q ih =>
    rw [at?, at?, List.cons_append, replaceAt, parts_withParts, List.getElem?_modify_eq]
    cases hpart : d.parts[j]? with
    | none => rfl
    | some part => exact ih part

/-- The texts of parts, one of which has been exchanged. -/
theorem concat_text_modify {ps : List Derivation} (hpart : ps[i]? = some part)
    (f : Derivation → Derivation) :
    Text.concat ((ps.modify i f).map text) =
      Text.concat ((ps.take i).map text) ++ (f part).text ++
        Text.concat ((ps.drop (i + 1)).map text) := by
  obtain ⟨hi, rfl⟩ := List.getElem?_eq_some_iff.mp hpart
  rw [List.modify_eq_take_cons_drop hi]
  simp [Text.concat]

/-- **Slices.** The text of a derivation falls into what stands before a part, the text of the part,
and what stands after it, as long as texts are put together from those of the parts. -/
theorem PutTogether.text_eq (hd : d.PutTogether) (hpath : d.at? path = some old) :
    d.text = d.textBefore path ++ old.text ++ d.textAfter path := by
  induction path generalizing d with
  | nil =>
    obtain rfl : d = old := Option.some.inj hpath
    simp [textBefore, textAfter]
  | cons i path ih =>
    obtain ⟨part, hpart, hrest⟩ := at?_cons_eq_some.mp hpath
    have hmem : part ∈ d.parts := List.mem_of_getElem? hpart
    have hparts : d.text = Text.concat (d.parts.map text) := by
      refine (hd d .refl).resolve_left ?_
      rintro ⟨l, -, hnil⟩
      simp [hnil] at hmem
    have hslice := ih (fun e he => hd e (.part hmem he)) hrest
    have hsplit := concat_text_modify hpart id
    rw [List.modify_id, id, ← hparts, hslice] at hsplit
    simpa [textBefore, textAfter, hpart] using hsplit

/-- After the exchange the text has the new slice in the place of the old one. -/
theorem text_replaceAt (hpath : d.at? path = some old) :
    (replaceAt path d new).text = d.textBefore path ++ new.text ++ d.textAfter path := by
  induction path generalizing d with
  | nil => simp [replaceAt, textBefore, textAfter]
  | cons i path ih =>
    obtain ⟨part, hpart, hrest⟩ := at?_cons_eq_some.mp hpath
    rw [replaceAt, text_withParts, concat_text_modify hpart, ih hrest]
    simp [textBefore, textAfter, hpart]

/-- A derivation is another one with the part `old` at the end of a path exchanged for `new`, and
nothing else changed. -/
structure Exchanges (d : Derivation) (path : List Nat) (old new e : Derivation) : Prop where
  node_eq : e.node = d.node
  depth_eq : e.depth = d.depth
  at_path : e.at? path = some new
  node_new : new.node = old.node
  depth_new : new.depth = old.depth
  above : ∀ q, q <+: path →
    (e.at? q).map (fun a => (a.node, a.depth)) = (d.at? q).map fun a => (a.node, a.depth)
  beside : ∀ q, ¬ path <+: q → ¬ q <+: path → e.at? q = d.at? q
  text_old : d.text = d.textBefore path ++ old.text ++ d.textAfter path
  text_new : e.text = d.textBefore path ++ new.text ++ d.textAfter path

/-- Exchanging a part keeps the node and the depth of a derivation if it does so for the part. -/
theorem node_depth_replaceAt (hpath : d.at? path = some old)
    (hsame : (new.node, new.depth) = (old.node, old.depth)) :
    ((replaceAt path d new).node, (replaceAt path d new).depth) = (d.node, d.depth) := by
  cases path with
  | nil =>
    obtain rfl : d = old := Option.some.inj hpath
    exact hsame
  | cons i path => rfl

/-- **Frame.** A part is exchanged, and nothing else, if the new part has the node and the depth of
the old one. -/
theorem exchanges_replaceAt (hd : d.PutTogether) (hpath : d.at? path = some old)
    (hnode : new.node = old.node) (hdepth : new.depth = old.depth) :
    d.Exchanges path old new (replaceAt path d new) := by
  have hsame : (new.node, new.depth) = (old.node, old.depth) := by rw [hnode, hdepth]
  have hwhole := node_depth_replaceAt hpath hsame
  refine ⟨congrArg Prod.fst hwhole, congrArg Prod.snd hwhole, ?_, hnode, hdepth, fun q hq => ?_,
    fun q => at?_replaceAt_of_beside, hd.text_eq hpath, text_replaceAt hpath⟩
  · have hat := at?_replaceAt_append path [] d new
    rwa [List.append_nil, hpath] at hat
  · obtain ⟨rest, rfl⟩ := hq
    obtain ⟨a, ha, hrest⟩ := Option.bind_eq_some_iff.mp ((at?_append q rest d).symm.trans hpath)
    rw [at?_replaceAt_append, ha]
    exact congrArg some (node_depth_replaceAt hrest hsame)

end Derivation

namespace Sampler

open GrammarInference.Derivation

variable {g : Grammar} {p : Parameters} {s : Sampler} {d e old new : Derivation} {path : List Nat}

/-! ### Mutations -/

/-- A mutation at a path exchanges the part there for a mutation of it. -/
theorem exists_replaceAt_of_returns_mutateAt (hpath : d.at? path = some old)
    (h : (s.mutateAt path d).Returns e) :
    ∃ new, (s.mutateHere old).Returns new ∧ e = replaceAt path d new := by
  induction path generalizing d e with
  | nil =>
    obtain rfl : d = old := Option.some.inj hpath
    exact ⟨e, h, rfl⟩
  | cons i path ih =>
    obtain ⟨part, hpart, hrest⟩ := at?_cons_eq_some.mp hpath
    rw [mutateAt, hpart] at h
    obtain ⟨changed, hchanged, h⟩ := Drawing.returns_bind.mp h
    obtain ⟨new, hnew, rfl⟩ := ih hrest hchanged
    refine ⟨new, hnew, ?_⟩
    rw [Drawing.returns_pure.mp h, replaceAt, List.modify_eq_set_getElem?, hpart]
    rfl

/-- Swapping a character changes one position of the text to another member of its class. -/
theorem exists_set_of_returns_mutateHere {l : Literal} (hl : old.node = .literal l)
    (hchars : ∀ k : CharClass, some k ∈ l.classes → ∀ m ∈ k.characters, ∃ c, m = Symbol.ofChar c)
    (hspells : l.Spells old.text) (h : (s.mutateHere old).Returns new) :
    ∃ i k c, l.classes[i]? = some (some k) ∧ Symbol.ofChar c ∈ k.characters ∧
      i < old.text.length ∧ new.text = old.text.set i c := by
  unfold mutateHere at h
  rw [hl] at h
  obtain ⟨i, hi, h⟩ := Drawing.returns_bind.mp h
  obtain ⟨member, hmember, h⟩ := Drawing.returns_bind.mp h
  obtain ⟨k, hclass, -⟩ := mem_freePositions.mp (Drawing.returns_oneOf.mp hi)
  have hmem : member ∈ k.characters := by
    simpa [hclass] using Drawing.returns_oneOf.mp hmember
  obtain ⟨c, rfl⟩ := hchars k (List.mem_of_getElem? hclass) member hmem
  have hlength : i < old.text.length := hspells.length_eq ▸ Literal.lt_length_text hclass
  refine ⟨i, k, c, hclass, hmem, hlength, ?_⟩
  rw [Drawing.returns_pure.mp h, text_leaf, List.set_eq_take_append_cons_drop, if_pos hlength,
    List.append_assoc, List.singleton_append]

/-- **A mutation changes one place.** Take a sampler whose classes have characters as members, and
a derivation that any number of mutations leads to, whatever is drawn. The paths to its candidates
are the paths to its parts with a choice, each listed once. A mutation at one of them can fail only
because base branches refer to each other in a circle and the new expansion does not end. Otherwise
it exchanges that part for one with the same node and depth, and nothing else; the text of a literal
keeps all characters but one, which becomes a member of the class at its position. -/
theorem exchanges_of_mutateAt {request : SamplerRequest} (hs : make g p request = .ok s)
    (hc : g.HasCharacterClasses) {base : Derivation} (hbase : base ∈ s.bases) {times : Nat}
    {σ : Type} {source : Source σ} {state : σ}
    (hd : (Draw.run source (s.mutateTimes times base).run state).1 = .ok d) :
    d.mutablePaths.Nodup ∧
      (∀ path, path ∈ d.mutablePaths ↔ ∃ old, d.at? path = some old ∧ old.node.HasChoice) ∧
      ∀ path old, path ∈ d.mutablePaths → d.at? path = some old →
        ∀ {τ : Type} (source' : Source τ) (state' : τ),
          (∀ f, (Draw.run source' (s.mutateAt path d).run state').1 = .error f →
            f = .tooDeep ∧ ¬ g.rules.BaseAcyclic) ∧
          ∀ e, (Draw.run source' (s.mutateAt path d).run state').1 = .ok e →
            ∃ new, d.Exchanges path old new e ∧
              ∀ l, old.node = .literal l → ∃ i k c, l.classes[i]? = some (some k) ∧
                Symbol.ofChar c ∈ k.characters ∧ i < old.text.length ∧
                new.text = old.text.set i c := by
  obtain ⟨n, hn, hexpansion, rfl, hzero⟩ :=
    expansionAt_of_mutateTimes hs hbase times (Drawing.returns_of_run hd)
  obtain ⟨-, hvalid, -⟩ := make_eq_ok_iff.mp hs
  obtain ⟨rfl, rfl, -, -, hp⟩ := of_make hs
  have hroot := Grammar.contains_root.branch hn
  refine ⟨nodup_mutablePaths d, fun path => mem_mutablePaths_iff,
    fun path old hmem hpath τ source' state' => ⟨fun f hf => ?_, fun e he => ?_⟩⟩
  · obtain ⟨part, hpart, hmutable, hfails⟩ := fails_mutateAt path hmem (Drawing.fails_of_run hf)
    have hresolves := Grammar.resolves_of_validate hvalid
    rcases notText_or_tooDeep_of_fails_mutateHere hresolves hexpansion hzero hroot hpart hmutable
      hfails with ⟨rfl, m, ⟨l, k, hl, hk, -, hm⟩, htext⟩ | hdeep
    · -- All members of all classes are characters, and so texts.
      obtain ⟨c, rfl⟩ := hc l hl k hk m hm
      cases htext
    · exact hdeep
  · have hreturns := Drawing.returns_of_run he
    obtain ⟨new, hnew, rfl⟩ := exists_replaceAt_of_returns_mutateAt hpath hreturns
    have hpart := isPartOf_of_at? hpath
    -- The part is itself an expansion of a part of the grammar.
    have hold := hexpansion.of_isPartOf hpart
    have hcontains :=
      hexpansion.contains_of_isPartOf hroot (fun _ _ _ => contains_of_choices) hpart
    obtain ⟨-, hnode, hdepth⟩ := expansionAt_mutateHere hp hold hcontains hnew
    refine ⟨new, exchanges_replaceAt hexpansion.putTogether hpath hnode hdepth, fun l hl => ?_⟩
    rw [hl] at hcontains
    exact exists_set_of_returns_mutateHere hl (hc l (hcontains (Node.mem_walk_self _)))
      (hold.text_of_literal hl hc) hnew

/-- After a mutation that gives the last part three copies, the last of them is swapped. -/
theorem exchanges_of_mutateAt_bits : ∃ s base d old e new,
    make bits ⟨[0.5, 0.5], 0.2, 1, 3, by simp, by decide⟩ ⟨none, 1, 100⟩ = .ok s ∧
      base ∈ s.bases ∧
      (Draw.run Draw.scripted (s.mutateTimes 1 base).run
        [(1, 0.0), (0, 0.75), (0, 0.25)]).1 = .ok d ∧
      [1, 2] ∈ d.mutablePaths ∧ d.at? [1, 2] = some old ∧
      (Draw.run Draw.scripted (s.mutateAt [1, 2] d).run [(0, 0.0), (1, 0.0)]).1 = .ok e ∧
      d.text = ['0', '0', '0', '0'] ∧ e.text = ['0', '0', '0', '1'] ∧
      d.Exchanges [1, 2] old new e := by
  obtain ⟨s, base, d, old, e, hs, hbase, hd, hpath, hold, he, htext, hnew⟩ :
      ∃ s base d old e, make bits ⟨[0.5, 0.5], 0.2, 1, 3, by simp, by decide⟩ ⟨none, 1, 100⟩ =
          .ok s ∧ base ∈ s.bases ∧
        (Draw.run Draw.scripted (s.mutateTimes 1 base).run
          [(1, 0.0), (0, 0.75), (0, 0.25)]).1 = .ok d ∧
        d.at? [1, 2] = some old ∧ old.node = bit ∧
        (Draw.run Draw.scripted (s.mutateAt [1, 2] d).run [(0, 0.0), (1, 0.0)]).1 = .ok e ∧
        d.text = ['0', '0', '0', '0'] ∧ e.text = ['0', '0', '0', '1'] :=
    ⟨_, _, _, _, _, rfl, .tail _ (.head _), rfl, rfl, rfl, rfl, rfl, rfl⟩
  obtain ⟨-, hcandidates, hmutation⟩ := exchanges_of_mutateAt hs hasCharacterClasses_bits hbase hd
  have hmem : [1, 2] ∈ d.mutablePaths := (hcandidates _).mpr ⟨old, hpath, by
    rw [hold]
    exact ⟨_, .head _, by decide⟩⟩
  obtain ⟨new, hexchanges, -⟩ := (hmutation _ old hmem hpath _ _).2 e he
  exact ⟨s, base, d, old, e, new, hs, hbase, hd, hmem, hpath, he, htext, hnew, hexchanges⟩

end Sampler

end GrammarInference
