import GrammarInference.Grammar.Document
import GrammarInference.Proofs.Layout

/-!
# Saved grammars are read back

Saving and reading are two recursions over the same trees, written apart from each other. What is
proved about a part of a grammar is always the same (`Node.SavedAs`): it has a saved form, reading
takes this form to the part itself, the form is plain, so that its text is read back to it, and its
integers are short if and only if the bounds of repetitions in the part are.

From this it follows that a valid grammar whose classes consist of characters is read back as it was
saved, with every layout, unless it is refused when it is saved: because a bound has more digits
than an integer may be written with, or because the machine lacks something for the layout
(`Grammar.load_save`).
-/

namespace GrammarInference

/-! ### Classes of characters -/

/-- A class of single characters, whose triggers and members are sets. -/
structure CharClass.Savable (k : CharClass) : Prop where
  /-- The triggers are single characters. -/
  single_trigger : ∀ s ∈ k.triggers, ∃ c, s = Symbol.ofChar c
  /-- The members are single characters. -/
  single_character : ∀ s ∈ k.characters, ∃ c, s = Symbol.ofChar c
  /-- The checks are single characters. -/
  single_check : ∀ s ∈ k.checks, ∃ c, s = Symbol.ofChar c
  /-- The triggers are kept in increasing order, as a set is. -/
  increasing_triggers : k.triggers.Pairwise (· < ·)
  /-- The members are kept in increasing order. -/
  increasing_characters : k.characters.Pairwise (· < ·)

namespace Symbol

/-- A strictly increasing list is the list of its own members. -/
theorem setOf_of_pairwise {ss : List Symbol} (h : ss.Pairwise (· < ·)) : setOf ss = ss := by
  induction ss with
  | nil => rfl
  | cons a ss ih =>
    obtain ⟨hfirst, hrest⟩ := List.pairwise_cons.mp h
    have hset : setOf (a :: ss) = insert a ss := by
      rw [setOf, List.foldr_cons, ← setOf, ih hrest]
    rw [hset]
    cases ss with
    | nil => rfl
    | cons b ss => rw [insert, if_pos (hfirst b List.mem_cons_self)]

theorem exists_map_ofChar {ss : List Symbol} (h : ∀ s ∈ ss, ∃ c, s = ofChar c) :
    ∃ t : Text, ss = t.map ofChar := by
  induction ss with
  | nil => exact ⟨[], rfl⟩
  | cons s ss ih =>
    obtain ⟨c, rfl⟩ := h s List.mem_cons_self
    obtain ⟨t, rfl⟩ := ih fun s hs => h s (List.mem_cons_of_mem _ hs)
    exact ⟨c :: t, rfl⟩

end Symbol

/-- Single characters are saved as the text of them. -/
theorem CharClass.joined?_map_ofChar (t : Text) : joined? (t.map Symbol.ofChar) = .ok t := by
  have htexts : (t.map Symbol.ofChar).mapM Symbol.text? = some (t.map fun c => [c]) := by
    induction t with
    | nil => rfl
    | cons c t ih =>
      rw [List.map_cons, List.mapM_cons, ih]
      rfl
  have hconcat : Text.concat (t.map fun c => [c]) = t := by
    rw [Text.concat, ← List.flatMap_def, List.flatMap_singleton']
  rw [joined?, htexts]
  dsimp only
  rw [hconcat]

variable {t : Text}

/-- A saved text is read as the symbols of its characters. -/
theorem symbolsOf_text (t : Text) : symbolsOf (.text t) = .ok (t.map Symbol.ofChar) := by
  rw [symbolsOf, entriesOf, Except.map, List.map_map]
  rfl

theorem symbolSet_text (h : (t.map Symbol.ofChar).Pairwise (· < ·)) :
    symbolSet (.text t) = .ok (t.map Symbol.ofChar) := by
  have hatoms : (t.map Symbol.ofChar).all Symbol.isAtom = true := by
    rw [List.all_map, List.all_eq_true]
    exact fun _ _ => rfl
  rw [symbolSet, symbolsOf_text]
  dsimp only [bind, Except.bind]
  rw [if_pos hatoms, Symbol.setOf_of_pairwise h]

theorem sortedSymbols_text (h : (t.map Symbol.ofChar).Pairwise (· < ·)) :
    sortedSymbols (.text t) = .ok (t.map Symbol.ofChar) := by
  have htexts : (t.map Symbol.ofChar).all (fun s => decide (s.rank = 0)) = true := by
    rw [List.all_map, List.all_eq_true]
    exact fun _ _ => rfl
  rw [sortedSymbols, symbolSet_text h]
  dsimp only [bind, Except.bind]
  rw [Symbol.comparable, htexts, Bool.or_true, Bool.true_or, if_pos rfl]

/-! ### The fields of saved objects -/

theorem lookup?_here (name : Text) (v : Json.Value) (fs : List (Text × Json.Value)) :
    Json.lookup? name ((name, v) :: fs) = some v := by
  rw [Json.lookup?, if_pos rfl]

theorem lookup?_there {name k : Text} (hne : k ≠ name) (v : Json.Value)
    (fs : List (Text × Json.Value)) :
    Json.lookup? name ((k, v) :: fs) = Json.lookup? name fs := by
  rw [Json.lookup?, if_neg hne]

theorem requiredField_here (name : Text) (v : Json.Value) (fs : List (Text × Json.Value)) :
    requiredField name ((name, v) :: fs) = .ok v := by
  rw [requiredField, lookup?_here]

theorem requiredField_there {name k : Text} (hne : k ≠ name) (v : Json.Value)
    (fs : List (Text × Json.Value)) :
    requiredField name ((k, v) :: fs) = requiredField name fs := by
  rw [requiredField, lookup?_there hne, requiredField]

/-- A class of characters is read back from its saved form. -/
theorem CharClass.Savable.exists_toJson {k : CharClass} (hk : k.Savable) :
    ∃ fs, k.toJson = .ok (.object fs) ∧ CharClass.ofJson (.object fs) = .ok k ∧
      (Json.Value.object fs).Plain ∧ (Json.Value.object fs).hasShortIntegers = true := by
  obtain ⟨triggers, htriggers⟩ := Symbol.exists_map_ofChar hk.single_trigger
  obtain ⟨characters, hcharacters⟩ := Symbol.exists_map_ofChar hk.single_character
  obtain ⟨checks, hchecks⟩ := Symbol.exists_map_ofChar hk.single_check
  obtain ⟨ks, cs, xs⟩ := k
  cases htriggers
  cases hcharacters
  cases hchecks
  have hplain : ∀ t : Text, (Json.Value.text t).Plain := .text
  refine ⟨[("triggers".toList, .text triggers), ("characters".toList, .text characters),
    ("checks".toList, .text checks)], ?_, ?_, .object (by simp) (by simp [hplain]), rfl⟩
  · rw [toJson]
    dsimp only
    rw [Symbol.setOf_of_pairwise hk.increasing_triggers, joined?_map_ofChar, joined?_map_ofChar,
      joined?_map_ofChar]
    rfl
  · rw [CharClass.ofJson, requiredField_here, requiredField_there (by decide), requiredField_here,
      requiredField_there (by decide), requiredField_there (by decide), requiredField_here]
    dsimp only [bind, Except.bind]
    rw [symbolSet_text hk.increasing_triggers, sortedSymbols_text hk.increasing_characters,
      symbolsOf_text]

/-- Optional classes are read back; where there is none, null is. -/
theorem exists_classesToJson {ks : List (Option CharClass)}
    (hks : ∀ k, some k ∈ ks → k.Savable) :
    ∃ vs, classesToJson ks = .ok vs ∧ classesOfJson vs = .ok ks ∧
      (Json.Value.array vs).Plain ∧ Json.Value.allShort vs = true := by
  induction ks with
  | nil => exact ⟨[], rfl, rfl, .array (by simp), rfl⟩
  | cons k ks ih =>
    obtain ⟨vs, hwrite, hread, hplain, hshort⟩ :=
      ih fun k hk => hks k (List.mem_cons_of_mem _ hk)
    cases k with
    | none =>
      refine ⟨.null :: vs, ?_, ?_, .cons .null hplain, hshort⟩
      · rw [classesToJson, hwrite]
        rfl
      · rw [classesOfJson, hread]
        rfl
    | some k =>
      obtain ⟨fs, hwrite', hread', hplain', hshort'⟩ := (hks k List.mem_cons_self).exists_toJson
      refine ⟨.object fs :: vs, ?_, ?_, .cons hplain' hplain, ?_⟩
      · rw [classesToJson, hwrite', hwrite]
        rfl
      · rw [classesOfJson, hread', hread]
        · rfl
        · exact Json.Value.noConfusion
      · rw [Json.Value.allShort, hshort', hshort, Bool.and_self]

/-! ### Nodes -/

/-- Bounds that have no more digits than an integer may be written with. -/
structure Bounds.Short (x : Bounds) : Prop where
  /-- The least count is short. -/
  min : (Number.decimal x.min).length ≤ Number.mostDigits
  /-- The greatest count is short, if there is one. -/
  max : ∀ m ∈ x.max, (Number.decimal m).length ≤ Number.mostDigits

/-- The repetitions among nodes have short bounds. -/
def ShortBounds (ns : List Node) : Prop := ∀ b x, Node.repetition b x ∈ ns → x.Short

/-- The literals among nodes have classes of single characters. -/
def SavableClasses (ns : List Node) : Prop :=
  ∀ l, Node.literal l ∈ ns → ∀ k, some k ∈ l.classes → k.Savable

@[simp] theorem shortBounds_append {ms ns : List Node} :
    ShortBounds (ms ++ ns) ↔ ShortBounds ms ∧ ShortBounds ns := by
  simp only [ShortBounds, List.mem_append, or_imp, forall_and]

@[simp] theorem savableClasses_append {ms ns : List Node} :
    SavableClasses (ms ++ ns) ↔ SavableClasses ms ∧ SavableClasses ns := by
  simp only [SavableClasses, List.mem_append, or_imp, forall_and]

namespace Node

mutual

/-- How many calls lie within each other when a node is read from its saved form. -/
def readCalls : Node → Nat
  | .literal _ => 1
  | .sequence cs => readCallsAll cs + 2
  | .alternation os => readCallsAll os + 2
  | .repetition b _ => readCalls b + 1
  | .recursive _ => 1

/-- How many calls lie within each other when several nodes are read. -/
def readCallsAll : List Node → Nat
  | [] => 0
  | n :: ns => max (readCalls n) (readCallsAll ns)

end

/-- A node has a saved form, from which it is read back. The form is plain, and its integers are
short if the bounds of the node are. -/
structure SavedAs (n : Node) (v : Json.Value) : Prop where
  /-- The node is saved in this form. -/
  written : n.toJson = .ok v
  /-- The form is read as the node, with calls enough. -/
  read : ∀ left, n.readCalls ≤ left → ofJson left v = .ok n
  /-- The text of the form is read back to it. -/
  plain : v.Plain
  /-- The bounds are the only integers that can be long. -/
  short : v.hasShortIntegers = true ↔ ShortBounds n.walk

/-- The same for several nodes. -/
structure AllSavedAs (ns : List Node) (vs : List Json.Value) : Prop where
  /-- The nodes are saved in these forms. -/
  written : toJsonAll ns = .ok vs
  /-- The forms are read as the nodes, with calls enough. -/
  read : ∀ left, readCallsAll ns ≤ left → ofJsonAll left vs = .ok ns
  /-- The text of the forms is read back to them. -/
  plain : (Json.Value.array vs).Plain
  /-- The bounds are the only integers that can be long. -/
  short : Json.Value.allShort vs = true ↔ ShortBounds (walkAll ns)

variable {left : Nat} {fs : List (Text × Json.Value)}

theorem ofJson_literal (hkind : Json.lookup? "type".toList fs = some (.text "literal".toList)) :
    ofJson (left + 1) (.object fs) = (Literal.ofFields fs).map .literal := by
  rw [ofJson, if_neg (Nat.succ_ne_zero left), hkind]
  dsimp only
  rw [if_pos ⟨rfl, rfl⟩]

theorem ofJson_sequence (hkind : Json.lookup? "type".toList fs = some (.text "sequence".toList)) :
    ofJson (left + 1) (.object fs) = (listField left "children".toList fs).map .sequence := by
  rw [ofJson, if_neg (Nat.succ_ne_zero left), hkind, Nat.add_sub_cancel]
  dsimp only
  rw [if_neg (by decide), if_pos ⟨rfl, rfl⟩]

theorem ofJson_alternation
    (hkind : Json.lookup? "type".toList fs = some (.text "alternation".toList)) :
    ofJson (left + 1) (.object fs) = (listField left "options".toList fs).map .alternation := by
  rw [ofJson, if_neg (Nat.succ_ne_zero left), hkind, Nat.add_sub_cancel]
  dsimp only
  rw [if_neg (by decide), if_neg (by decide), if_pos ⟨rfl, rfl⟩]

theorem ofJson_repetition
    (hkind : Json.lookup? "type".toList fs = some (.text "repetition".toList))
    {least : Int} {greatest : Option Int} (hbounds : boundsOfFields fs = .ok (least, greatest))
    {b : Node} (hbody : nodeField left "body".toList fs = .ok b) :
    ofJson (left + 1) (.object fs) = (Bounds.make least greatest).map (.repetition b) := by
  rw [ofJson, if_neg (Nat.succ_ne_zero left), hkind, Nat.add_sub_cancel]
  dsimp only
  rw [if_neg (by decide), if_neg (by decide), if_neg (by decide), if_pos ⟨rfl, rfl⟩, hbounds]
  dsimp only
  rw [hbody]

theorem ofJson_recursive (hkind : Json.lookup? "type".toList fs = some (.text "recursive".toList))
    {target : Text} (htarget : requiredField "target".toList fs = .ok (.text target)) :
    ofJson (left + 1) (.object fs) = .ok (.recursive target) := by
  rw [ofJson, if_neg (Nat.succ_ne_zero left), hkind]
  dsimp only
  rw [if_neg (by decide), if_neg (by decide), if_neg (by decide), if_neg (by decide),
    if_pos ⟨rfl, rfl⟩, htarget]

/-- A list stands in a field as the nodes that it holds. -/
theorem listField_here (name : Text) (vs : List Json.Value) :
    listField (left + 1) name ((name, .array vs) :: fs) = ofJsonAll left vs := by
  rw [listField, if_pos rfl, if_neg (Nat.succ_ne_zero left), Nat.add_sub_cancel]

theorem listField_there {name k : Text} (hne : k ≠ name) (v : Json.Value) :
    listField left name ((k, v) :: fs) = listField left name fs := by
  rw [listField.eq_def]
  dsimp only
  rw [if_neg hne]

theorem nodeField_here (name : Text) (v : Json.Value) :
    nodeField left name ((name, v) :: fs) = ofJson left v := by
  rw [nodeField, if_pos rfl]

theorem nodeField_there {name k : Text} (hne : k ≠ name) (v : Json.Value) :
    nodeField left name ((k, v) :: fs) = nodeField left name fs := by
  rw [nodeField, if_neg hne]

end Node

theorem Literal.make_self (l : Literal) : Literal.make l.text l.classes = .ok l := by
  rw [Literal.make, dif_pos l.fits]

/-- Bounds are read back from the integers that they are saved as. -/
theorem Bounds.make_self (x : Bounds) : Bounds.make x.min (x.max.map Int.ofNat) = .ok x := by
  obtain ⟨least, greatest, hordered⟩ := x
  unfold Bounds.make
  rw [if_neg (Int.not_lt.mpr (Int.natCast_nonneg least))]
  cases greatest with
  | none => rfl
  | some m =>
    have hle : least ≤ m := hordered m rfl
    have hnot : ¬ (Int.ofNat m < (least : Int)) := by
      rw [Int.ofNat_eq_natCast]
      omega
    dsimp only [Option.map_some]
    rw [dif_neg hnot]
    rfl

/-- Bounds are found in the fields that they are saved in. -/
theorem boundsOfFields_saved (x : Bounds) {fs : List (Text × Json.Value)}
    (hleast : requiredField "min".toList fs = .ok (.int x.min))
    (hgreatest : Json.lookup? "max".toList fs =
      some (match x.max with | some m => .int m | none => .null)) :
    boundsOfFields fs = .ok ((x.min : Int), x.max.map Int.ofNat) := by
  rw [boundsOfFields, hleast, hgreatest]
  cases x.max with
  | none => rfl
  | some m => rfl

/-- The form in which a greatest count is saved; without one it is null. -/
theorem Bounds.short_max_iff (x : Bounds) :
    (match x.max with | some m => Json.Value.int m | none => .null).hasShortIntegers = true ↔
      ∀ m ∈ x.max, (Number.decimal m).length ≤ Number.mostDigits := by
  cases x.max with
  | none => simp [Json.Value.hasShortIntegers]
  | some m => simp [Json.Value.hasShortIntegers]

namespace Node

theorem savedAs_recursive (t : Text) :
    (recursive t).SavedAs (.object [("type".toList, .text "recursive".toList),
      ("target".toList, .text t)]) where
  written := by rw [toJson]
  read left hleft := by
    obtain ⟨k, rfl⟩ := Nat.exists_eq_add_of_le' hleft
    refine ofJson_recursive (lookup?_here _ _ _) ?_
    rw [requiredField_there (by decide), requiredField_here]
  plain := .object (by simp) (by simp [Json.Value.Plain.text])
  short := by simp [ShortBounds, walk, Json.Value.hasShortIntegers, Json.Value.fieldsShort]

theorem exists_savedAs_literal {l : Literal} (hl : ∀ k, some k ∈ l.classes → k.Savable) :
    ∃ v, (literal l).SavedAs v := by
  obtain ⟨vs, hwrite, hread, hplain, hshort⟩ := exists_classesToJson hl
  refine ⟨.object [("type".toList, .text "literal".toList), ("text".toList, .text l.text),
    ("classes".toList, .array vs)], ?_, ?_, ?_, ?_⟩
  · rw [toJson, hwrite]
    rfl
  · intro left hleft
    obtain ⟨k, rfl⟩ := Nat.exists_eq_add_of_le' hleft
    have hfields : Literal.ofFields [("type".toList, .text "literal".toList),
        ("text".toList, .text l.text), ("classes".toList, .array vs)] = .ok l := by
      rw [Literal.ofFields, requiredField_there (by decide), requiredField_here]
      dsimp only [bind, Except.bind]
      rw [lookup?_there (by decide), lookup?_there (by decide), lookup?_here, Option.getD_some,
        entriesOf]
      dsimp only
      rw [hread]
      exact l.make_self
    rw [readCalls, ofJson_literal (lookup?_here _ _ _), hfields]
    rfl
  · exact .object (by simp) (by simp [Json.Value.Plain.text, hplain])
  · simp [ShortBounds, walk, Json.Value.hasShortIntegers, Json.Value.fieldsShort, hshort]

variable {ns : List Node} {vs : List Json.Value}

theorem AllSavedAs.sequence (h : AllSavedAs ns vs) :
    (sequence ns).SavedAs (.object [("type".toList, .text "sequence".toList),
      ("children".toList, .array vs)]) where
  written := by
    rw [toJson, h.written]
    rfl
  read left hleft := by
    obtain ⟨k, rfl⟩ := Nat.exists_eq_add_of_le' hleft
    rw [readCalls, ← Nat.add_assoc, ofJson_sequence (lookup?_here _ _ _),
      listField_there (by decide), listField_here, h.read _ (Nat.le_add_left _ _)]
    rfl
  plain := .object (by simp) (by simp [Json.Value.Plain.text, h.plain])
  short := by
    have hshort := h.short
    simpa [ShortBounds, walk, Json.Value.hasShortIntegers, Json.Value.fieldsShort] using hshort

theorem AllSavedAs.alternation (h : AllSavedAs ns vs) :
    (alternation ns).SavedAs (.object [("type".toList, .text "alternation".toList),
      ("options".toList, .array vs)]) where
  written := by
    rw [toJson, h.written]
    rfl
  read left hleft := by
    obtain ⟨k, rfl⟩ := Nat.exists_eq_add_of_le' hleft
    rw [readCalls, ← Nat.add_assoc, ofJson_alternation (lookup?_here _ _ _),
      listField_there (by decide), listField_here, h.read _ (Nat.le_add_left _ _)]
    rfl
  plain := .object (by simp) (by simp [Json.Value.Plain.text, h.plain])
  short := by
    have hshort := h.short
    simpa [ShortBounds, walk, Json.Value.hasShortIntegers, Json.Value.fieldsShort] using hshort

theorem SavedAs.repetition {b : Node} {v : Json.Value} (h : b.SavedAs v) (x : Bounds) :
    (repetition b x).SavedAs (.object [("type".toList, .text "repetition".toList),
      ("body".toList, v), ("min".toList, .int x.min),
      ("max".toList, match x.max with | some m => .int m | none => .null)]) where
  written := by
    rw [toJson, h.written]
    rfl
  read left hleft := by
    obtain ⟨k, rfl⟩ := Nat.exists_eq_add_of_le' hleft
    rw [readCalls, ← Nat.add_assoc, ofJson_repetition (lookup?_here _ _ _) (boundsOfFields_saved x
      (by rw [requiredField_there (by decide), requiredField_there (by decide),
        requiredField_here])
      (by rw [lookup?_there (by decide), lookup?_there (by decide), lookup?_there (by decide),
        lookup?_here]))
      (by rw [nodeField_there (by decide), nodeField_here, h.read _ (Nat.le_add_left _ _)]),
      x.make_self]
    rfl
  plain := by
    refine .object (by simp) ?_
    simp only [List.forall_mem_cons]
    refine ⟨.text _, h.plain, .int _, ?_, by simp⟩
    cases x.max with
    | none => exact .null
    | some m => exact .int m
  short := by
    have hwalk : ShortBounds (Node.repetition b x).walk ↔ x.Short ∧ ShortBounds b.walk := by
      simp only [ShortBounds, walk, List.mem_cons, Node.repetition.injEq, or_imp, forall_and]
      simp
    rw [hwalk, ← h.short, Json.Value.hasShortIntegers]
    simp only [Json.Value.fieldsShort, Bool.and_eq_true, x.short_max_iff]
    -- what is left of the fields are the conditions on the body and on the two bounds
    constructor
    · rintro ⟨-, hv, hleast, hgreatest, -⟩
      exact ⟨⟨of_decide_eq_true hleast, hgreatest⟩, hv⟩
    · rintro ⟨hx, hv⟩
      exact ⟨rfl, hv, decide_eq_true hx.min, hx.max, trivial⟩

theorem AllSavedAs.nil : AllSavedAs [] [] where
  written := rfl
  read _ _ := rfl
  plain := .array (by simp)
  short := by simp [ShortBounds, walkAll, Json.Value.allShort]

theorem SavedAs.cons {n : Node} {v : Json.Value} (h : n.SavedAs v) (hs : AllSavedAs ns vs) :
    AllSavedAs (n :: ns) (v :: vs) where
  written := by
    rw [toJsonAll, h.written, hs.written]
    rfl
  read left hleft := by
    obtain ⟨hn, hns⟩ := Nat.max_le.mp hleft
    rw [ofJsonAll, h.read left hn, hs.read left hns]
  plain := h.plain.cons hs.plain
  short := by
    rw [Json.Value.allShort, Bool.and_eq_true, h.short, hs.short, walkAll, shortBounds_append]

mutual

/-- **Nodes**: every node whose classes consist of characters is read back from its saved form. -/
theorem exists_savedAs : ∀ n : Node, SavableClasses n.walk → ∃ v, n.SavedAs v
  | .literal l, h => exists_savedAs_literal (h l (by simp [walk]))
  | .sequence ns, h => by
    obtain ⟨vs, hvs⟩ := exists_allSavedAs ns fun l hl => h l (List.mem_cons_of_mem _ hl)
    exact ⟨_, hvs.sequence⟩
  | .alternation ns, h => by
    obtain ⟨vs, hvs⟩ := exists_allSavedAs ns fun l hl => h l (List.mem_cons_of_mem _ hl)
    exact ⟨_, hvs.alternation⟩
  | .repetition b x, h => by
    obtain ⟨v, hv⟩ := exists_savedAs b fun l hl => h l (List.mem_cons_of_mem _ hl)
    exact ⟨_, hv.repetition x⟩
  | .recursive t, _ => ⟨_, savedAs_recursive t⟩

theorem exists_allSavedAs : ∀ ns : List Node, SavableClasses (walkAll ns) → ∃ vs, AllSavedAs ns vs
  | [], _ => ⟨[], .nil⟩
  | n :: ns, h => by
    obtain ⟨hn, hns⟩ := savableClasses_append.mp h
    obtain ⟨v, hv⟩ := exists_savedAs n hn
    obtain ⟨vs, hvs⟩ := exists_allSavedAs ns hns
    exact ⟨v :: vs, hv.cons hvs⟩

end

end Node

/-! ### Rules and grammars -/

namespace Rules

theorem setIn_of_not_mem {name : Text} {rule : Node} {es : List (Text × Node)}
    (h : name ∉ es.map Prod.fst) : setIn name rule es = es ++ [(name, rule)] := by
  induction es with
  | nil => rfl
  | cons e es ih =>
    obtain ⟨hfirst, hrest⟩ := List.ne_and_not_mem_of_not_mem_cons h
    rw [setIn, if_neg (Ne.symm hfirst), ih hrest, List.cons_append]

/-- The entries of a table, set one after another, give the table again. -/
theorem ofList_entries (r : Rules) : ofList r.entries = r := by
  -- every entry that is set has a name of its own, and so comes last
  have hfrom : ∀ (es : List (Text × Node)) (acc : Rules),
      ((acc.entries ++ es).map Prod.fst).Nodup →
      (es.foldl (fun r e => r.set e.1 e.2) acc).entries = acc.entries ++ es := by
    intro es
    induction es with
    | nil => intro acc _; rw [List.foldl_nil, List.append_nil]
    | cons e es ih =>
      intro acc hnodup
      have hset : (acc.set e.1 e.2).entries = acc.entries ++ [e] :=
        setIn_of_not_mem (Json.fst_not_mem_of_nodup hnodup)
      rw [List.foldl_cons, ih, hset, List.append_assoc, List.singleton_append]
      rwa [hset, List.append_assoc, List.singleton_append]
  have hentries : (ofList r.entries).entries = r.entries := hfrom r.entries empty r.distinct
  cases hr : ofList r.entries with
  | mk entries distinct =>
    rw [hr] at hentries
    cases hentries
    rfl

/-- Rules have a saved form under their names, from which they are read back. -/
structure SavedAs (es : List (Text × Node)) (fs : List (Text × Json.Value)) : Prop where
  /-- The rules are saved in these forms. -/
  written : rulesToJson es = .ok fs
  /-- The forms are read as the rules, with calls enough. -/
  read : ∀ left, (∀ e ∈ es, e.2.readCalls ≤ left) → rulesOfJson left fs = .ok es
  /-- The names stay. -/
  names : fs.map Prod.fst = es.map Prod.fst
  /-- The text of every form is read back to it. -/
  plain : ∀ f ∈ fs, f.2.Plain
  /-- The bounds are the only integers that can be long. -/
  short : Json.Value.fieldsShort fs = true ↔ ShortBounds (es.flatMap fun e => e.2.walk)

theorem exists_savedAs {es : List (Text × Node)}
    (h : SavableClasses (es.flatMap fun e => e.2.walk)) : ∃ fs, SavedAs es fs := by
  induction es with
  | nil =>
    exact ⟨[], rfl, fun _ _ => rfl, rfl, by simp, by simp [ShortBounds, Json.Value.fieldsShort]⟩
  | cons e es ih =>
    obtain ⟨name, rule⟩ := e
    rw [List.flatMap_cons] at h
    obtain ⟨hrule, hrest⟩ := savableClasses_append.mp h
    obtain ⟨v, hv⟩ := rule.exists_savedAs hrule
    obtain ⟨fs, hfs⟩ := ih hrest
    refine ⟨(name, v) :: fs, ?_, ?_, ?_, ?_, ?_⟩
    · rw [rulesToJson, hv.written, hfs.written]
      rfl
    · intro left hleft
      obtain ⟨hrule, hrules⟩ := List.forall_mem_cons.mp hleft
      rw [rulesOfJson, hv.read left hrule, hfs.read left hrules]
      rfl
    · rw [List.map_cons, List.map_cons, hfs.names]
    · exact List.forall_mem_cons.mpr ⟨hv.plain, hfs.plain⟩
    · rw [Json.Value.fieldsShort, Bool.and_eq_true, hv.short, hfs.short, List.flatMap_cons,
        shortBounds_append]

end Rules

namespace Grammar

variable {g : Grammar}

/-- A machine can read the text of a saved grammar. -/
structure ReadableOn (m : Machine) (g : Grammar) (t : Text) : Prop where
  /-- There is room for the parts of the document. -/
  room : m.lacks? (.document t) = none
  /-- The nodes of the root do not lie too deep within each other. -/
  root : g.root.readCalls ≤ m.calls
  /-- Nor do those of the rules. -/
  rules : ∀ e ∈ g.rules.entries, e.2.readCalls ≤ m.calls
  /-- The brackets do not lie too deep within each other. -/
  brackets : ∀ v, g.toJson = .ok v → v.nesting ≤ m.brackets

/-- Whether a machine can read a saved grammar is computed from the saved form. -/
instance (m : Machine) (g : Grammar) (t : Text) : Decidable (g.ReadableOn m t) :=
  decidable_of_iff (m.lacks? (.document t) = none ∧ g.root.readCalls ≤ m.calls ∧
      (∀ e ∈ g.rules.entries, e.2.readCalls ≤ m.calls) ∧
      g.toJson.toOption.all (fun v => v.nesting ≤ m.brackets) = true) <| by
    constructor
    · rintro ⟨hroom, hroot, hrules, hbrackets⟩
      refine ⟨hroom, hroot, hrules, fun v hv => ?_⟩
      rw [hv] at hbrackets
      exact of_decide_eq_true hbrackets
    · rintro ⟨hroom, hroot, hrules, hbrackets⟩
      refine ⟨hroom, hroot, hrules, ?_⟩
      cases hv : g.toJson with
      | error f => rfl
      | ok v => exact decide_eq_true (hbrackets v hv)

/-- A grammar whose classes consist of characters has a saved form from which it is read back. -/
theorem exists_toJson (hvalid : g.validate = .ok ()) (hclasses : SavableClasses g.walk) :
    ∃ v, g.toJson = .ok v ∧ v.Plain ∧ (v.hasShortIntegers = true ↔ ShortBounds g.walk) ∧
      ∀ left, g.root.readCalls ≤ left → (∀ e ∈ g.rules.entries, e.2.readCalls ≤ left) →
        ofJson left v = .ok g := by
  obtain ⟨hroot, hrules⟩ := savableClasses_append.mp hclasses
  obtain ⟨v, hv⟩ := g.root.exists_savedAs hroot
  obtain ⟨fs, hfs⟩ := Rules.exists_savedAs hrules
  refine ⟨.object [("version".toList, .text formatVersion), ("root".toList, v),
    ("rules".toList, .object fs)], ?_, ?_, ?_, ?_⟩
  · rw [toJson, hv.written, hfs.written]
    rfl
  · refine .object (by simp) ?_
    simp only [List.forall_mem_cons]
    refine ⟨.text _, hv.plain, .object ?_ hfs.plain, by simp⟩
    rw [hfs.names]
    exact g.rules.distinct
  · rw [walk, shortBounds_append, ← hv.short, ← hfs.short]
    simp [Json.Value.hasShortIntegers, Json.Value.fieldsShort]
  · intro left hleft hlefts
    -- The fields are looked up by their names, in the order in which they have been written.
    have hfields : ofFields left [("version".toList, .text formatVersion), ("root".toList, v),
        ("rules".toList, .object fs)] = .ok g := by
      rw [ofFields, requiredField_there (by decide), requiredField_here]
      dsimp only [bind, Except.bind]
      rw [hv.read left hleft, lookup?_there (by decide), lookup?_there (by decide), lookup?_here]
      dsimp only [Option.getD_some]
      rw [hfs.read left hlefts]
      dsimp only
      rw [g.rules.ofList_entries]
    rw [ofJson, lookup?_here, hfields]
    dsimp only [Option.getD_some]
    rw [if_pos (by decide), hvalid]

theorem save_of_toJson {m : Machine} {indent : Json.Indent} {v : Json.Value}
    (hwrite : g.toJson = .ok v) :
    g.save m indent = (Json.writeOn m indent v).mapError .obstacle := by
  rw [save, hwrite]
  rfl

/-- A text as which a grammar has been saved is loaded as the grammar by every machine that can read
it. -/
theorem load_of_save (hvalid : g.validate = .ok ()) (hclasses : SavableClasses g.walk)
    {m m' : Machine} {indent : Json.Indent} {t : Text} (hsave : g.save m indent = .ok t)
    (hm' : g.ReadableOn m' t) : load m' t = .ok g := by
  obtain ⟨v, hwrite, hplain, -, hread⟩ := exists_toJson hvalid hclasses
  rw [save_of_toJson hwrite] at hsave
  rcases Json.writes_or_obstructed m indent v with
    ⟨hok, hintegers, -⟩ | ⟨herror, -⟩ | ⟨s, herror, -⟩
  · rw [hok] at hsave
    obtain rfl := Except.ok.inj hsave
    rw [load, hm'.room]
    dsimp only
    rw [Json.read_write indent hplain hintegers (hm'.brackets v hwrite)]
    exact hread m'.calls hm'.root hm'.rules
  · rw [herror] at hsave
    cases hsave
  · rw [herror] at hsave
    cases hsave

/-- **Saving and loading**: a valid grammar whose classes consist of characters is saved, with every
layout, as a text that is loaded as the grammar itself by every machine that can read it; unless a
bound of its repetitions has more digits than an integer may be written with, or the machine lacks
something for the layout, and these are reported. -/
theorem load_save (m : Machine) (indent : Json.Indent) (hvalid : g.validate = .ok ())
    (hclasses : SavableClasses g.walk) :
    ∃ v, g.toJson = .ok v ∧
      ((∃ t, g.save m indent = .ok t ∧ ShortBounds g.walk ∧
          (∀ s, ¬ Json.LacksLayout m indent v s) ∧
          ∀ m' : Machine, g.ReadableOn m' t → load m' t = .ok g) ∨
        (g.save m indent = .error (.obstacle .tooManyDigits) ∧ ¬ ShortBounds g.walk) ∨
        ∃ s, g.save m indent = .error (.obstacle (.shortage s)) ∧
          Json.LacksLayout m indent v s) := by
  obtain ⟨v, hwrite, -, hshort, -⟩ := exists_toJson hvalid hclasses
  have hsave : g.save m indent = (Json.writeOn m indent v).mapError .obstacle :=
    save_of_toJson hwrite
  refine ⟨v, hwrite, ?_⟩
  rcases Json.writes_or_obstructed m indent v with
    ⟨hok, hintegers, hroom⟩ | ⟨herror, hlong⟩ | ⟨s, herror, hlacks⟩
  · rw [hok] at hsave
    exact .inl ⟨Json.write indent v, hsave, hshort.mp hintegers, hroom,
      fun m' hm' => load_of_save hvalid hclasses hsave hm'⟩
  · rw [herror] at hsave
    refine .inr (.inl ⟨hsave, fun hbounds => ?_⟩)
    exact Bool.false_ne_true (hlong.symm.trans (hshort.mpr hbounds))
  · rw [herror] at hsave
    exact .inr (.inr ⟨s, hsave, hlacks⟩)

/-- A grammar with every kind of node, a class beside a position without one, and characters that
have to be escaped. -/
private def quotations : Grammar where
  root := .sequence [.repetition (.recursive "\"".toList) ⟨1, some 12, by simp⟩,
    .repetition (.literal (.plain "\n😀".toList)) (.atLeast 0)]
  rules := ⟨[("\"".toList, .alternation [.literal ⟨"a\\".toList,
    [some ⟨[.ofChar 'a'], [.ofChar 'a', .ofChar 'é'], [.ofChar 'é', .ofChar 'a']⟩, none],
    .inr rfl⟩, .sequence []])], by simp⟩

private theorem savableClasses_quotations : SavableClasses quotations.walk := by
  intro l hl k hk
  simp only [walk, quotations, Node.walk, Node.walkAll, List.flatMap_cons, List.flatMap_nil,
    List.cons_append, List.nil_append, List.append_nil, List.mem_cons, List.not_mem_nil,
    Node.literal.injEq, reduceCtorEq, false_or, or_false] at hl
  rcases hl with rfl | rfl
  · cases hk
  · obtain rfl : k = _ := by simpa using hk
    exact ⟨by simp [Symbol.ofChar], by simp [Symbol.ofChar], by simp [Symbol.ofChar],
      by decide, by decide⟩

private theorem shortBounds_quotations : ShortBounds quotations.walk := by
  intro b x hx
  simp only [walk, quotations, Node.walk, Node.walkAll, List.flatMap_cons, List.flatMap_nil,
    List.cons_append, List.nil_append, List.append_nil, List.mem_cons, List.not_mem_nil,
    Node.repetition.injEq, reduceCtorEq, false_or, or_false] at hx
  rcases hx with ⟨rfl, rfl⟩ | ⟨rfl, rfl⟩
  · exact ⟨by decide, by decide⟩
  · exact ⟨by decide, by decide⟩

/-- A machine on which the grammar is saved and loaded. -/
private def smallMachine : Machine := .ofLimits 2000 5 10

/-- What is found to be readable has been saved. -/
theorem exists_readable {m : Machine} {indent : Json.Indent}
    (h : (g.save m indent).toOption.any (fun t => g.ReadableOn m t) = true) :
    ∃ t, g.save m indent = .ok t ∧ g.ReadableOn m t := by
  cases hsave : g.save m indent with
  | error f =>
    rw [hsave] at h
    cases h
  | ok t =>
    rw [hsave] at h
    exact ⟨t, rfl, of_decide_eq_true h⟩

theorem load_save_quotations :
    ∃ t, quotations.save smallMachine (some 2) = .ok t ∧ load smallMachine t = .ok quotations := by
  obtain ⟨t, hsave, hread⟩ : ∃ t, quotations.save smallMachine (some 2) = .ok t ∧
    quotations.ReadableOn smallMachine t := exists_readable (by decide +kernel)
  obtain ⟨v, -, ⟨t', hsaved, -, -, hload⟩ | ⟨-, hlong⟩ | ⟨s, hfailed, -⟩⟩ :=
    load_save smallMachine (some 2) rfl savableClasses_quotations
  · obtain rfl : t' = t := Except.ok.inj (hsaved.symm.trans hsave)
    exact ⟨t', hsaved, hload smallMachine hread⟩
  · exact absurd shortBounds_quotations hlong
  · cases hfailed.symm.trans hsave

/-- Copies of a character, up to the smallest number of copies with too many digits. -/
private def manyCopies : Grammar where
  root := .repetition (.literal (.plain ['a'])) ⟨0, some (Nat.pow 10 Number.mostDigits), by simp⟩
  rules := .empty

/-- A power of ten has more digits than its exponent says. -/
private theorem exponent_lt_length_decimal {d : Nat} (hd : 0 < d) :
    d < (Number.decimal (Nat.pow 10 d)).length :=
  Nat.lt_of_not_le fun h => Nat.lt_irrefl _ ((Nat.length_toDigits_le_iff (by decide) hd).mp h)

/-- A bound with too many digits keeps a grammar from being saved, and so do more spaces per level
than a text can have characters. -/
theorem save_manyCopies : manyCopies.validate = .ok () ∧ SavableClasses manyCopies.walk ∧
    (∀ m, manyCopies.save m none = .error (.obstacle .tooManyDigits)) ∧
    quotations.validate = .ok () ∧ SavableClasses quotations.walk ∧
    ∀ m, quotations.save m (some 9223372036854775808) =
      .error (.obstacle (.shortage .beyondLengths)) := by
  have hvalid : manyCopies.validate = .ok () := rfl
  have hclasses : SavableClasses manyCopies.walk := by
    intro l hl k hk
    simp only [walk, manyCopies, Node.walk, Rules.empty, List.flatMap_nil, List.append_nil,
      List.mem_cons, List.not_mem_nil, Node.literal.injEq, reduceCtorEq, false_or, or_false] at hl
    subst hl
    cases hk
  have hlong : ¬ ShortBounds manyCopies.walk := by
    intro h
    have hmax := (h _ _ List.mem_cons_self).max _ rfl
    exact Nat.not_lt.mpr hmax (exponent_lt_length_decimal (by decide))
  refine ⟨hvalid, hclasses, fun m => ?_, rfl, savableClasses_quotations, fun m => ?_⟩
  · obtain ⟨v, hwrite, -, hshort, -⟩ := exists_toJson hvalid hclasses
    have hdigits := Bool.eq_false_iff.mpr fun h => hlong (hshort.mp h)
    rw [save_of_toJson hwrite, Json.writeOn_oneLine hdigits]
    rfl
  · obtain ⟨v, hwrite, -⟩ := exists_toJson (g := quotations) rfl savableClasses_quotations
    have hwide : (Text.greatestLength : Int) < 9223372036854775808 := by decide
    rw [save_of_toJson hwrite, Json.writeOn_of_wide hwide]
    rfl

end Grammar

end GrammarInference
