import GrammarInference.Grammar.Node

/-!
# Rule tables and grammars

A rule table gives a node to every rule name it has, and remembers the order in which the names
first came in. A grammar is a root node with a rule table.

The main statements say what looking up a name gives after a rule has been set.
-/

namespace GrammarInference

/-- Rules by name, in the order in which the names first came in. -/
structure Rules where
  /-- The rules. -/
  entries : List (Text × Node)
  /-- No name has two rules. -/
  distinct : (entries.map Prod.fst).Nodup
  deriving DecidableEq

namespace Rules

/-- The table without rules. -/
def empty : Rules := ⟨[], by simp⟩

instance : Inhabited Rules := ⟨empty⟩

/-- The names, in order. -/
def names (r : Rules) : List Text := r.entries.map Prod.fst

/-- The number of rules. -/
def size (r : Rules) : Nat := r.entries.length

/-- The rule with a name in a list of rules. -/
def find? (name : Text) : List (Text × Node) → Option Node
  | [] => none
  | (k, n) :: rest => if k = name then some n else find? name rest

/-- The rule with a name. -/
def get? (r : Rules) (name : Text) : Option Node := find? name r.entries

/-- Whether there is a rule with a name. -/
def contains (r : Rules) (name : Text) : Bool := name ∈ r.names

/-- Sets a rule in a list of rules: a known name keeps its place, a new one comes last. -/
def setIn (name : Text) (rule : Node) : List (Text × Node) → List (Text × Node)
  | [] => [(name, rule)]
  | (k, n) :: rest => if k = name then (k, rule) :: rest else (k, n) :: setIn name rule rest

theorem mem_map_fst_setIn {name k : Text} {rule : Node} {es : List (Text × Node)} :
    k ∈ (setIn name rule es).map Prod.fst ↔ k = name ∨ k ∈ es.map Prod.fst := by
  induction es with
  | nil => simp [setIn]
  | cons e rest ih =>
    obtain ⟨k', n⟩ := e
    simp only [setIn]
    split
    · next h => subst h; simp
    · simp only [List.map_cons, List.mem_cons, ih]; grind

theorem nodup_setIn (name : Text) (rule : Node) {es : List (Text × Node)}
    (h : (es.map Prod.fst).Nodup) : ((setIn name rule es).map Prod.fst).Nodup := by
  induction es with
  | nil => simp [setIn]
  | cons e rest ih =>
    obtain ⟨k, n⟩ := e
    simp only [List.map_cons, List.nodup_cons] at h
    simp only [setIn]
    split
    · simpa using h
    · next hne =>
      simp only [List.map_cons, List.nodup_cons]
      refine ⟨fun hm => ?_, ih h.2⟩
      rcases mem_map_fst_setIn.1 hm with rfl | hm
      · exact hne rfl
      · exact h.1 hm

/-- Sets a rule: a known name keeps its place, a new one comes last. -/
def set (r : Rules) (name : Text) (rule : Node) : Rules :=
  ⟨setIn name rule r.entries, nodup_setIn name rule r.distinct⟩

theorem find?_setIn (name k : Text) (rule : Node) (es : List (Text × Node)) :
    find? k (setIn name rule es) = if k = name then some rule else find? k es := by
  induction es with
  | nil => simp [setIn, find?, eq_comm]
  | cons e rest ih =>
    obtain ⟨k', n⟩ := e
    simp only [setIn]
    by_cases h : k' = name
    · subst h
      by_cases hk : k = k'
      · subst hk; simp [find?]
      · simp [find?, hk, Ne.symm hk]
    · by_cases hk : k' = k
      · subst hk; simp [find?, h]
      · simp [find?, h, hk, ih]

/-- A rule that has just been set is found, and all other names keep their rules. -/
theorem get?_set (r : Rules) (name k : Text) (rule : Node) :
    (r.set name rule).get? k = if k = name then some rule else r.get? k :=
  find?_setIn name k rule r.entries

/-- The table that a list of settings leaves. -/
def ofList (es : List (Text × Node)) : Rules :=
  es.foldl (fun r e => r.set e.1 e.2) empty

/-- The rules whose names satisfy `p`, each changed by `f`. -/
def filterMap (p : Text → Bool) (f : Node → Node) (r : Rules) : Rules where
  entries := (r.entries.filter fun e => p e.1).map fun e => (e.1, f e.2)
  distinct := by
    rw [List.map_map]
    exact (r.distinct.sublist (List.filter_sublist.map Prod.fst))

/-- Whether two tables have the same rules, in any order. -/
def sameAs (a b : Rules) : Bool :=
  a.size = b.size && a.entries.all fun e => b.get? e.1 = some e.2

end Rules

/-- A root node and the rules that references go to. -/
structure Grammar where
  /-- The root. -/
  root : Node
  /-- The rules. -/
  rules : Rules
  deriving DecidableEq

instance : Inhabited Grammar := ⟨⟨default, default⟩⟩

namespace Grammar

/-- Whether two grammars have equal roots and the same rules, in any order. -/
def sameAs (a b : Grammar) : Bool := a.root = b.root && a.rules.sameAs b.rules

/-- Every node of the root and then of every rule. -/
def walk (g : Grammar) : List Node :=
  g.root.walk ++ g.rules.entries.flatMap fun e => e.2.walk

end Grammar

end GrammarInference
