import GrammarInference.Proofs.JsonReading
import GrammarInference.Proofs.LoadedGrammars
import GrammarInference.Proofs.Shortages

/-!
# Which texts are read as grammars

A text is read as a grammar, or an error is reported. A grammar that is read is in order
(`Grammar.Admitted`): references go to rules, rules have a branch without themselves, literals,
bounds and classes are what they should be, and every part has a default text. A document whose
brackets or nodes lie too deep within each other has an error of the saved form like any other
mistake.

Two things are left open by the check. An integer with too many digits is given up on before the
saved form is looked at, and its error is none of the saved form. And a default text may be beyond
what a machine can put together: because of its length, of the copies that it takes, be they empty,
or of the references on the way. A third thing is left out here, since the characters of a text do
not include them: surrogates that stand by themselves. For every text there is nothing else, as long
as the machine has room for the document (`Grammar.admitted_of_load`).
-/

namespace GrammarInference

section Results

variable {ε α β : Type} {r : Except ε α}

theorem bind_eq_ok {f : α → Except ε β} {b : β} :
    r >>= f = .ok b ↔ ∃ a, r = .ok a ∧ f a = .ok b := by
  cases r with
  | error e => exact ⟨nofun, nofun⟩
  | ok a => exact ⟨fun h => ⟨a, rfl, h⟩, fun ⟨_, rfl, h⟩ => h⟩

theorem map_eq_ok {f : α → β} {b : β} : r.map f = .ok b ↔ ∃ a, r = .ok a ∧ f a = b := by
  cases r with
  | error e => exact ⟨nofun, nofun⟩
  | ok a => exact ⟨fun h => ⟨a, rfl, Except.ok.inj h⟩, fun ⟨_, rfl, h⟩ => congrArg _ h⟩

end Results

/-! ### Classes in order -/

/-- The members of a class are strictly increasing. -/
def CharClass.Increasing (k : CharClass) : Prop := k.characters.Pairwise (· < ·)

/-- Members that are texts come in the order of these texts. -/
theorem CharClass.Increasing.texts {k : CharClass} (h : k.Increasing) {ts : List Text}
    (hts : k.characters = ts.map Symbol.text) : ts.Pairwise (· < ·) := by
  rw [Increasing, hts, List.pairwise_map] at h
  refine h.imp fun {a b} hab => ?_
  rcases hab with hab | ⟨-, hab⟩
  · exact absurd hab (Nat.lt_irrefl _)
  · exact hab

/-- The classes of a literal are in order. -/
def Literal.Increasing (l : Literal) : Prop := ∀ k, some k ∈ l.classes → k.Increasing

/-- A class that is read is in order. -/
theorem CharClass.increasing_of_ofJson {v : Json.Value} {k : CharClass}
    (h : CharClass.ofJson v = .ok k) : k.Increasing := by
  unfold CharClass.ofJson at h
  split at h
  · obtain ⟨_, -, h⟩ := bind_eq_ok.mp h
    obtain ⟨_, -, h⟩ := bind_eq_ok.mp h
    obtain ⟨v, -, h⟩ := bind_eq_ok.mp h
    obtain ⟨characters, hcharacters, h⟩ := bind_eq_ok.mp h
    obtain ⟨_, -, h⟩ := bind_eq_ok.mp h
    obtain ⟨_, -, h⟩ := bind_eq_ok.mp h
    cases h
    unfold sortedSymbols symbolSet at hcharacters
    obtain ⟨ss, hset, hsorted⟩ := bind_eq_ok.mp hcharacters
    obtain ⟨members, -, hset⟩ := bind_eq_ok.mp hset
    split_ifs at hsorted hset
    cases hsorted
    cases hset
    exact Symbol.pairwise_setOf members
  · cases h

theorem increasing_of_classesOfJson {vs : List Json.Value} {ks : List (Option CharClass)}
    (h : classesOfJson vs = .ok ks) : ∀ k, some k ∈ ks → k.Increasing := by
  fun_induction classesOfJson vs generalizing ks with
  | case1 =>
    cases h
    simp
  | case2 rest ih =>
    obtain ⟨ks, hks, h⟩ := bind_eq_ok.mp h
    cases h
    intro k hk
    exact ih hks k ((List.mem_cons.mp hk).resolve_left nofun)
  | case3 v rest _ ih =>
    obtain ⟨k, hk, h⟩ := bind_eq_ok.mp h
    obtain ⟨ks, hks, h⟩ := bind_eq_ok.mp h
    cases h
    intro k' hk'
    rcases List.mem_cons.mp hk' with heq | hk'
    · cases heq
      exact CharClass.increasing_of_ofJson hk
    · exact ih hks k' hk'

theorem Literal.increasing_of_ofFields {fs : List (Text × Json.Value)} {l : Literal}
    (h : Literal.ofFields fs = .ok l) : l.Increasing := by
  unfold Literal.ofFields at h
  obtain ⟨v, -, h⟩ := bind_eq_ok.mp h
  split at h
  · obtain ⟨entries, -, h⟩ := bind_eq_ok.mp h
    obtain ⟨ks, hks, h⟩ := bind_eq_ok.mp h
    unfold Literal.make at h
    split_ifs at h
    cases h
    exact increasing_of_classesOfJson hks
  · cases h

namespace Node

/-- The classes of a node that is a literal are in order. -/
def IncreasingHere : Node → Prop
  | .literal l => l.Increasing
  | _ => True

/-- A node is read from an object. -/
theorem exists_fields_of_ofJson {left : Nat} {v : Json.Value} {n : Node}
    (h : ofJson left v = .ok n) : ∃ fs, v = .object fs := by
  unfold ofJson at h
  split_ifs at h
  split at h
  · exact ⟨_, rfl⟩
  · cases h

mutual

/-- **Nodes.** In a node that is read all classes are in order. -/
theorem increasing_of_ofJson : ∀ {left : Nat} {v : Json.Value} {n : Node}, ofJson left v = .ok n →
    n.Throughout IncreasingHere
  | left, .object fs, n, h => by
    rw [ofJson] at h
    split_ifs at h
    split at h
    · cases h
    · split_ifs at h
      · obtain ⟨l, hl, rfl⟩ := map_eq_ok.mp h
        exact throughout_literal.mpr (Literal.increasing_of_ofFields hl)
      · obtain ⟨cs, hcs, rfl⟩ := map_eq_ok.mp h
        exact throughout_sequence.mpr ⟨trivial, increasing_of_listField hcs⟩
      · obtain ⟨os, hos, rfl⟩ := map_eq_ok.mp h
        exact throughout_alternation.mpr ⟨trivial, increasing_of_listField hos⟩
      · split at h
        · cases h
        · split at h
          · cases h
          · next b hb =>
            obtain ⟨x, -, rfl⟩ := map_eq_ok.mp h
            exact throughout_repetition.mpr ⟨trivial, increasing_of_nodeField hb⟩
      · split at h
        · cases h
        · cases h
          exact throughout_recursive.mpr trivial
        · cases h
  | _, .null, _, h | _, .bool _, _, h | _, .int _, _, h | _, .real _, _, h | _, .text _, _, h
  | _, .array _, _, h => by
    obtain ⟨_, hobject⟩ := exists_fields_of_ofJson h
    cases hobject

theorem increasing_of_listField {left : Nat} {name : Text} :
    ∀ {fs : List (Text × Json.Value)} {ns : List Node}, listField left name fs = .ok ns →
      ∀ n ∈ ns, n.Throughout IncreasingHere
  | (k, v) :: rest, ns, h => by
    rw [listField.eq_def] at h
    dsimp only at h
    split at h
    · split at h
      · split_ifs at h
        exact increasing_of_ofJsonAll h
      · split_ifs at h
        cases h
        simp
      · split_ifs at h
        cases h
        simp
      · cases h
    · exact increasing_of_listField h

theorem increasing_of_nodeField {left : Nat} {name : Text} :
    ∀ {fs : List (Text × Json.Value)} {n : Node}, nodeField left name fs = .ok n →
      n.Throughout IncreasingHere
  | (k, v) :: rest, n, h => by
    rw [nodeField] at h
    split at h
    · exact increasing_of_ofJson h
    · exact increasing_of_nodeField h

theorem increasing_of_ofJsonAll {left : Nat} : ∀ {vs : List Json.Value} {ns : List Node},
    ofJsonAll left vs = .ok ns → ∀ n ∈ ns, n.Throughout IncreasingHere
  | [], ns, h => by
    rw [ofJsonAll] at h
    cases h
    simp
  | v :: rest, ns, h => by
    rw [ofJsonAll] at h
    split at h
    · cases h
    · next n hn =>
      split at h
      · cases h
      · next ns hns =>
        cases h
        exact List.forall_mem_cons.mpr ⟨increasing_of_ofJson hn, increasing_of_ofJsonAll hns⟩

end

end Node

/-! ### Rules -/

namespace Rules

theorem mem_setIn {name : Text} {rule : Node} {e : Text × Node} {es : List (Text × Node)}
    (h : e ∈ setIn name rule es) : e = (name, rule) ∨ e ∈ es := by
  induction es with
  | nil => exact .inl (List.mem_singleton.mp h)
  | cons e' es ih =>
    obtain ⟨k, n⟩ := e'
    rw [setIn] at h
    split at h
    · next hk =>
      rw [hk] at h
      exact (List.mem_cons.mp h).imp_right (List.mem_cons_of_mem _)
    · rcases List.mem_cons.mp h with rfl | h
      · exact .inr List.mem_cons_self
      · exact (ih h).imp_right (List.mem_cons_of_mem _)

/-- The rules of a table that a list of settings leaves are among these settings. -/
theorem entries_ofList_subset (es : List (Text × Node)) : (ofList es).entries ⊆ es := by
  suffices hfrom : ∀ (es : List (Text × Node)) (r : Rules),
      (es.foldl (fun r e => r.set e.1 e.2) r).entries ⊆ r.entries ++ es from hfrom es empty
  intro es
  induction es with
  | nil => exact fun r => List.subset_append_left _ _
  | cons e es ih =>
    intro r
    rw [List.foldl_cons]
    refine List.Subset.trans (ih _) fun e' he' => ?_
    rw [List.mem_append, List.mem_cons]
    rcases List.mem_append.mp he' with he' | he'
    · rcases mem_setIn he' with rfl | he'
      · exact .inr (.inl rfl)
      · exact .inl he'
    · exact .inr (.inr he')

end Rules

theorem increasing_of_rulesOfJson {left : Nat} {fs : List (Text × Json.Value)}
    {es : List (Text × Node)} (h : rulesOfJson left fs = .ok es) :
    ∀ e ∈ es, e.2.Throughout Node.IncreasingHere := by
  induction fs generalizing es with
  | nil =>
    cases h
    simp
  | cons f fs ih =>
    obtain ⟨name, v⟩ := f
    rw [rulesOfJson] at h
    obtain ⟨rule, hrule, h⟩ := bind_eq_ok.mp h
    obtain ⟨rules, hrules, h⟩ := bind_eq_ok.mp h
    cases h
    exact List.forall_mem_cons.mpr ⟨Node.increasing_of_ofJson hrule, ih hrules⟩

namespace Grammar

variable {g : Grammar} {m : Machine} {t : Text}

/-- In a grammar that is read all classes are in order. -/
theorem increasing_of_load (h : load m t = .ok g) {l : Literal} (hl : .literal l ∈ g.walk) :
    l.Increasing := by
  obtain ⟨fs, hfields, -⟩ := exists_ofFields_of_load h
  unfold ofFields at hfields
  obtain ⟨v, -, hfields⟩ := bind_eq_ok.mp hfields
  obtain ⟨root, hroot, hfields⟩ := bind_eq_ok.mp hfields
  split at hfields
  · obtain ⟨rules, hrules, hfields⟩ := bind_eq_ok.mp hfields
    cases hfields
    rcases List.mem_append.mp hl with hl | hl
    · exact Node.increasing_of_ofJson hroot _ hl
    · obtain ⟨e, he, hl⟩ := List.mem_flatMap.mp hl
      exact increasing_of_rulesOfJson hrules e (Rules.entries_ofList_subset rules he) _ hl
  · cases hfields

end Grammar

/-! ### Admission -/

/-- An error of a saved form. An integer with too many digits, a surrogate that stands by itself and
what the machine lacks are given up on before there is a saved form. -/
def GrammarError.IsFormat : GrammarError → Prop
  | .tooManyDigits _ => False
  | .loneSurrogate => False
  | .shortage _ => False
  | _ => True

namespace Grammar

variable {g : Grammar} {m : Machine} {t : Text} {e : GrammarError}

/-- What reading promises of a grammar. -/
structure Admitted (g : Grammar) : Prop where
  /-- Every reference goes to a rule of the table. -/
  targets : ∀ name, .recursive name ∈ g.walk → name ∈ g.rules.names
  /-- Every rule has a branch that does not refer to it. -/
  base : ∀ name rule, g.rules.get? name = some rule → ∃ b ∈ rule.branches, name ∉ b.targets
  /-- A literal has no classes, or an entry for each character. -/
  classes : ∀ l, .literal l ∈ g.walk → l.classes = [] ∨ l.classes.length = l.text.length
  /-- The least count of a repetition is not above its greatest count. -/
  bounds : ∀ b x, .repetition b x ∈ g.walk → ∀ m ∈ x.max, x.min ≤ m
  /-- The members of a class are strictly increasing, if they are texts. -/
  increasing : ∀ l k, .literal l ∈ g.walk → some k ∈ l.classes →
    ∀ ts : List Text, k.characters = ts.map Symbol.text → ts.Pairwise (· < ·)
  /-- The root, every rule and every other part has a default text, which every machine gives unless
  it lacks something for it. -/
  renders : ∀ n ∈ g.walk, ∃ u, g.rules.defaultText n = .ok u ∧ ∀ m, g.rules.RendersOn m n u

/-- A grammar that is read has what reading promises. -/
theorem Admitted.of_load (h : load m t = .ok g) : g.Admitted where
  targets name hname := by
    have hresolves := resolves_of_validate (validate_of_load h)
    exact hresolves.targets _ (contains_of_mem_walk hname) (by simp)
  base name rule hrule := by
    have hresolves := resolves_of_validate (validate_of_load h)
    obtain ⟨b, hb⟩ := hresolves.base name rule hrule
    refine ⟨b, List.mem_of_find?_eq_some hb, ?_⟩
    simpa [Node.refersTo] using List.find?_some hb
  classes l _ := l.fits
  bounds _ x _ := x.ordered
  increasing l k hl hk ts := (increasing_of_load h hl k hk).texts
  renders n hn := by
    have hresolves := resolves_of_validate (validate_of_load h)
    have hdefault := hresolves.defaultText (contains_of_mem_walk hn)
    exact ⟨_, hdefault, Rules.rendersOn_of_defaultText hdefault⟩

/-- The check of a grammar reports errors of the saved form only. -/
theorem isFormat_of_validate (h : g.validate = .error e) : e.IsFormat := by
  unfold validate at h
  split at h
  · cases h
    trivial
  · split at h
    · cases h
      trivial
    · split at h
      · cases h
        trivial
      · cases h

/-- So does reading the saved form, also where its nodes lie too deep within each other. -/
theorem isFormat_of_ofJson {calls : Nat} {v : Json.Value} (h : ofJson calls v = .error e) :
    e.IsFormat := by
  unfold ofJson at h
  split at h
  · dsimp only at h
    split_ifs at h
    · split at h
      · cases h
        trivial
      · split at h
        · next hvalid =>
          cases h
          exact isFormat_of_validate hvalid
        · cases h
    · cases h
      trivial
  · cases h
    trivial

/-- **Errors.** An error is one of the saved form, or the text or the machine is the cause. -/
theorem cause_of_load (h : load m t = .error e) :
    e.IsFormat ∨ (∃ count, e = .tooManyDigits count ∧ Json.HasLongInteger t count) ∨
      (e = .loneSurrogate ∧ Json.SpellsSurrogate t) ∨
      ∃ s, e = .shortage s ∧ m.lacks? (.document t) = some s := by
  unfold load at h
  split at h
  · next s hs =>
    cases h
    exact .inr (.inr (.inr ⟨s, rfl, hs⟩))
  · split at h
    · next fault hread =>
      cases h
      have hcause := Json.cause_of_read hread
      unfold ofReadError
      split
      · next count hproblem =>
        rw [hproblem] at hcause
        exact .inr (.inl ⟨count, rfl, hcause⟩)
      · next hproblem =>
        rw [hproblem] at hcause
        exact .inr (.inr (.inl ⟨rfl, hcause⟩))
      · exact .inl trivial
    · exact .inl (isFormat_of_ofJson h)

/-- **Admission.** Every text is read as a grammar that has what reading promises, or an error of
the saved form is reported, or there are more digits in a row in the text than an integer may have
and this is reported. Left out are texts that are given up on because they spell a surrogate that
stands by itself, and documents that the machine has no room for. -/
theorem admitted_of_load (m : Machine) (t : Text) :
    (∃ g, load m t = .ok g ∧ g.Admitted) ∨
      (∃ e, load m t = .error e ∧ e.IsFormat) ∨
      (∃ count, load m t = .error (.tooManyDigits count) ∧ Json.HasLongInteger t count) ∨
      (load m t = .error .loneSurrogate ∧ Json.SpellsSurrogate t) ∨
      ∃ s, load m t = .error (.shortage s) ∧ m.lacks? (.document t) = some s := by
  cases hload : load m t with
  | ok g => exact .inl ⟨g, rfl, .of_load hload⟩
  | error e =>
    refine .inr ?_
    rcases cause_of_load hload with he | ⟨count, rfl, hlong⟩ | ⟨rfl, hsurrogate⟩ | ⟨s, rfl, hs⟩
    · exact .inl ⟨e, rfl, he⟩
    · exact .inr (.inl ⟨count, rfl, hlong⟩)
    · exact .inr (.inr (.inl ⟨rfl, hsurrogate⟩))
    · exact .inr (.inr (.inr ⟨s, rfl, hs⟩))

/-- A row of ones that is too long for an integer is given up on. -/
private theorem load_ones {count : Nat} (h : Number.mostDigits < count + 1)
    (hroom : ∀ t : Text, t.length = count + 1 → m.lacks? (.document t) = none) :
    load m (List.replicate (count + 1) '1') = .error (.tooManyDigits (count + 1)) := by
  have hdigits : ∀ d ∈ List.replicate (count + 1) '1', d.isDigit = true := fun d hd => by
    rw [List.eq_of_mem_replicate hd]
    rfl
  rw [load, hroom _ List.length_replicate]
  dsimp only
  rw [List.replicate_succ] at hdigits ⊢
  obtain ⟨e, hread, he⟩ := Json.read_of_digits (by decide) hdigits
    (by rwa [List.length_cons, List.length_replicate]) m.brackets
  rw [List.length_cons, List.length_replicate] at he
  rw [hread]
  dsimp only
  rw [ofReadError, he]

/-- The saved form of a repetition of the empty text with a least count beyond all lengths. -/
private def emptyCopies : Text :=
  "\x7b\"root\": \x7b\"type\": \"repetition\", \"body\": ".toList ++
    "\x7b\"type\": \"literal\", \"text\": \"\"\x7d, \"min\": 9223372036854775808\x7d\x7d".toList

/-- A machine that reads both documents. -/
private def patientMachine : Machine := .ofLimits 5000 10 10

private theorem load_emptyCopies : load patientMachine emptyCopies =
    .ok ⟨.repetition (.literal (.plain [])) (.atLeast 9223372036854775808), .empty⟩ := by
  let body : Json.Value := .object [("type".toList, .text "literal".toList),
    ("text".toList, .text [])]
  have hbody : body.Plain := .object (by decide) (by simp [Json.Value.Plain.text])
  have hroot : (Json.Value.object [("type".toList, .text "repetition".toList),
      ("body".toList, body), ("min".toList, .int 9223372036854775808)]).Plain :=
    .object (by decide) (by simp [Json.Value.Plain.text, Json.Value.Plain.int, hbody])
  have hplain : (Json.Value.object [("root".toList, _)]).Plain :=
    .object (by simp) (List.forall_mem_singleton.mpr hroot)
  rw [load_of_write hplain rfl (by decide) (by decide) (by decide)]
  rfl

/-- **Not all is foreseen.** A number with 4301 digits is given up on with an error that is none of
the saved form; and a repetition of the empty text is read that has no default text, since no text
has so many copies. -/
theorem load_not_foreseen :
    load patientMachine (List.replicate 4301 '1') = .error (.tooManyDigits 4301) ∧
      ∃ g, load patientMachine emptyCopies = .ok g ∧
        g.default patientMachine = .error (.shortage .beyondLengths) := by
  constructor
  · refine load_ones (by decide) fun t ht => ?_
    have hextent : (Need.document t).extent = 4301 := ht
    have hholds : patientMachine.holds (.document t) = true :=
      decide_eq_true (by rw [ht]; decide)
    exact Machine.lacks?_of_holds (by rw [hextent]; decide) hholds
  · exact ⟨_, load_emptyCopies, rfl⟩

end Grammar

end GrammarInference
