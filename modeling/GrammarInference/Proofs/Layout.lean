import GrammarInference.Proofs.JsonTexts

/-!
# Documents that a machine can write

A document is written where its integers are short and the machine has room for its layout: for the
spaces of one level, for those of every line break, and for the whole text. Where it is not written,
either an integer is too long or the machine lacks something for the layout
(`Json.writes_or_obstructed`).

The line breaks of a value are found by going into its lists and objects (`Json.BreaksAt`), which is
what writing does in search of an obstacle.
-/

namespace GrammarInference

namespace Json

variable {m : Machine} {indent : Indent} {unit : Text}

/-- A value at a depth is written with a line break at another depth. Lists and objects without
entries are written without one. -/
inductive BreaksAt : Nat → Value → Nat → Prop
  /-- Behind an opening bracket. -/
  | openArray {depth : Nat} {v : Value} {rest : List Value} :
    BreaksAt depth (.array (v :: rest)) (depth + 1)
  /-- In front of a closing bracket. -/
  | closeArray {depth : Nat} {v : Value} {rest : List Value} :
    BreaksAt depth (.array (v :: rest)) depth
  /-- In an entry of a list. -/
  | item {depth k : Nat} {v : Value} {items : List Value} (mem : v ∈ items)
    (below : BreaksAt (depth + 1) v k) : BreaksAt depth (.array items) k
  /-- Behind an opening brace. -/
  | openObject {depth : Nat} {f : Text × Value} {rest : List (Text × Value)} :
    BreaksAt depth (.object (f :: rest)) (depth + 1)
  /-- In front of a closing brace. -/
  | closeObject {depth : Nat} {f : Text × Value} {rest : List (Text × Value)} :
    BreaksAt depth (.object (f :: rest)) depth
  /-- In a field of an object. -/
  | field {depth k : Nat} {f : Text × Value} {fields : List (Text × Value)} (mem : f ∈ fields)
    (below : BreaksAt (depth + 1) f.2 k) : BreaksAt depth (.object fields) k

/-- What the machine lacks for the layout of a document. -/
def LacksLayout (m : Machine) (indent : Indent) (v : Value) (s : Shortage) : Prop :=
  (∃ n, indent = some n ∧
    -- the spaces of one level
    ((n < -(Text.greatestLength + 1 : Int) ∧ s = .beyondLengths) ∨
      m.lacks? (.copies [' '] n.toNat) = some s ∨
      -- those of a line break
      ∃ depth, BreaksAt 0 v depth ∧
        m.lacks? (.copies (Text.times [' '] n.toNat) depth) = some s)) ∨
    m.lacks? (.joined [write indent v]) = some s

/-- What is found in search of an obstacle in a value at a depth: nothing, if its integers are short
and there is nothing against its line breaks; otherwise one of these. -/
def Searched (m : Machine) (indent : Indent) (unit : Text) (short : Bool) (breaks : Nat → Prop) :
    Option Obstacle → Prop
  | none => short = true ∧ ∀ k, breaks k → breakObstacle? m indent unit k = none
  | some o => (o = .tooManyDigits ∧ short = false) ∨
    ∃ k, breaks k ∧ breakObstacle? m indent unit k = some o

namespace Searched

variable {short short' : Bool} {breaks breaks' : Nat → Prop} {found found' : Option Obstacle}

/-- **Two searches**, one after the other. -/
theorem or (h : Searched m indent unit short breaks found)
    (h' : Searched m indent unit short' breaks' found') :
    Searched m indent unit (short && short') (fun k => breaks k ∨ breaks' k)
      (found.or found') := by
  cases found with
  | some o =>
    refine h.imp (fun hdigits => ?_) fun ⟨k, hk, hfound⟩ => ⟨k, .inl hk, hfound⟩
    exact ⟨hdigits.1, by rw [hdigits.2, Bool.false_and]⟩
  | none =>
    obtain ⟨rfl, hbreaks⟩ := h
    cases found' with
    | some o => exact h'.imp_right fun ⟨k, hk, hfound⟩ => ⟨k, .inr hk, hfound⟩
    | none => exact ⟨h'.1, fun k hk => hk.elim (hbreaks k) (h'.2 k)⟩

/-- The search at a line break. -/
theorem lineBreak (depth : Nat) :
    Searched m indent unit true (fun k => k = depth) (breakObstacle? m indent unit depth) := by
  cases h : breakObstacle? m indent unit depth with
  | none => exact ⟨rfl, fun k hk => hk ▸ h⟩
  | some o => exact .inr ⟨depth, rfl, h⟩

/-- What is searched may be described in other words. -/
theorem congr (h : Searched m indent unit short breaks found) (hshort : short' = short)
    (hbreaks : ∀ k, breaks' k ↔ breaks k) : Searched m indent unit short' breaks' found := by
  obtain rfl := hshort
  cases found with
  | none => exact ⟨h.1, fun k hk => h.2 k ((hbreaks k).mp hk)⟩
  | some o => exact h.imp_right fun ⟨k, hk, hfound⟩ => ⟨k, (hbreaks k).mpr hk, hfound⟩

end Searched

-- The induction is on the value; the cases of lists and objects put together four searches.
mutual

/-- **Step**: the search through a value meets its integers and its line breaks. -/
theorem searched_obstacle? : ∀ (depth : Nat) (v : Value),
    Searched m indent unit v.hasShortIntegers (BreaksAt depth v) (obstacle? m indent unit depth v)
  | _, .null => ⟨rfl, nofun⟩
  | _, .bool _ => ⟨rfl, nofun⟩
  | _, .real _ => ⟨rfl, nofun⟩
  | _, .text _ => ⟨rfl, nofun⟩
  | _, .array [] => ⟨rfl, fun k hk => by cases hk with | item hmem => cases hmem⟩
  | _, .object [] => ⟨rfl, fun k hk => by cases hk with | field hmem => cases hmem⟩
  | _, .int n => by
    rw [obstacle?, Value.hasShortIntegers]
    split
    · next h => exact ⟨decide_eq_true h, nofun⟩
    · next h => exact .inl ⟨rfl, decide_eq_false h⟩
  | depth, .array (v :: rest) => by
    rw [obstacle?, Value.hasShortIntegers]
    refine ((Searched.lineBreak (depth + 1)).or ((searched_obstacle? (depth + 1) v).or
      ((searched_itemsObstacle? (depth + 1) rest).or (.lineBreak depth)))).congr ?_ fun k => ?_
    · rw [Value.allShort, Bool.true_and, Bool.and_true]
    · constructor
      · rintro (_ | _ | ⟨hmem, hbelow⟩)
        · exact .inl rfl
        · exact .inr (.inr (.inr rfl))
        · rcases List.mem_cons.mp hmem with rfl | hmem
          · exact .inr (.inl hbelow)
          · exact .inr (.inr (.inl ⟨_, hmem, hbelow⟩))
      · rintro (rfl | hbelow | ⟨w, hmem, hbelow⟩ | rfl)
        · exact .openArray
        · exact .item List.mem_cons_self hbelow
        · exact .item (List.mem_cons_of_mem _ hmem) hbelow
        · exact .closeArray
  | depth, .object ((name, v) :: rest) => by
    rw [obstacle?, Value.hasShortIntegers]
    refine ((Searched.lineBreak (depth + 1)).or ((searched_obstacle? (depth + 1) v).or
      ((searched_fieldsObstacle? (depth + 1) rest).or (.lineBreak depth)))).congr ?_ fun k => ?_
    · rw [Value.fieldsShort, Bool.true_and, Bool.and_true]
    · constructor
      · rintro (_ | _ | _ | _ | _ | ⟨hmem, hbelow⟩)
        · exact .inl rfl
        · exact .inr (.inr (.inr rfl))
        · rcases List.mem_cons.mp hmem with rfl | hmem
          · exact .inr (.inl hbelow)
          · exact .inr (.inr (.inl ⟨_, hmem, hbelow⟩))
      · rintro (rfl | hbelow | ⟨f, hmem, hbelow⟩ | rfl)
        · exact .openObject
        · exact .field List.mem_cons_self hbelow
        · exact .field (List.mem_cons_of_mem _ hmem) hbelow
        · exact .closeObject

theorem searched_itemsObstacle? : ∀ (depth : Nat) (vs : List Value),
    Searched m indent unit (Value.allShort vs) (fun k => ∃ v ∈ vs, BreaksAt depth v k)
      (itemsObstacle? m indent unit depth vs)
  | _, [] => ⟨rfl, by simp⟩
  | depth, v :: rest => by
    rw [itemsObstacle?]
    refine ((searched_obstacle? depth v).or (searched_itemsObstacle? depth rest)).congr ?_ ?_
    · rw [Value.allShort]
    · simp

theorem searched_fieldsObstacle? : ∀ (depth : Nat) (fs : List (Text × Value)),
    Searched m indent unit (Value.fieldsShort fs) (fun k => ∃ f ∈ fs, BreaksAt depth f.2 k)
      (fieldsObstacle? m indent unit depth fs)
  | _, [] => ⟨rfl, by simp⟩
  | depth, (name, v) :: rest => by
    rw [fieldsObstacle?]
    refine ((searched_obstacle? depth v).or (searched_fieldsObstacle? depth rest)).congr ?_ ?_
    · rw [Value.fieldsShort]
    · simp

end

/-- The spaces of one level, or what the machine lacks for them. -/
theorem unitOn_spaces (n : Int) :
    (unitOn m (some n) = .ok (Text.times [' '] n.toNat) ∧
      ¬ n < -(Text.greatestLength + 1 : Int) ∧ m.lacks? (.copies [' '] n.toNat) = none) ∨
    ∃ s, unitOn m (some n) = .error s ∧
      ((n < -(Text.greatestLength + 1 : Int) ∧ s = .beyondLengths) ∨
        m.lacks? (.copies [' '] n.toNat) = some s) := by
  rw [unitOn]
  split
  · next h => exact .inr ⟨_, rfl, .inl ⟨h, rfl⟩⟩
  · next h =>
    cases hlacks : m.lacks? (.copies [' '] n.toNat) with
    | none => exact .inl ⟨Machine.copies_of_lacks?_eq_none hlacks, h, rfl⟩
    | some s => exact .inr ⟨s, by rw [Machine.copies, hlacks], .inr rfl⟩

/-- What the machine lacks for the line breaks of a document, it lacks for its layout. -/
theorem lacksLayout_of_breakObstacle? {v : Value} {k : Nat} {o : Obstacle}
    (hunit : unitOn m indent = .ok unit) (hbreak : BreaksAt 0 v k)
    (hfound : breakObstacle? m indent unit k = some o) :
    ∃ s, o = .shortage s ∧ LacksLayout m indent v s := by
  cases indent with
  | none => cases hfound
  | some n =>
    rcases unitOn_spaces (m := m) n with ⟨hspaces, -, -⟩ | ⟨s, hspaces, -⟩
    · obtain rfl : unit = _ := Except.ok.inj (hunit.symm.trans hspaces)
      obtain ⟨s, hs, rfl⟩ := Option.map_eq_some_iff.mp hfound
      exact ⟨s, rfl, .inl ⟨n, rfl, .inr (.inr ⟨k, hbreak, hs⟩)⟩⟩
    · cases hunit.symm.trans hspaces

/-- A machine that lacks nothing for the spaces, the line breaks and the text of a document lacks
nothing for its layout. -/
theorem not_lacksLayout {v : Value} (hunit : unitOn m indent = .ok unit)
    (hbreaks : ∀ k, BreaksAt 0 v k → breakObstacle? m indent unit k = none)
    (htext : m.lacks? (.joined [write indent v]) = none) (s : Shortage) :
    ¬ LacksLayout m indent v s := by
  rintro (⟨n, rfl, hlacks⟩ | hlacks)
  · rcases unitOn_spaces (m := m) n with ⟨hspaces, hinRange, hnone⟩ | ⟨s', hspaces, -⟩
    · obtain rfl : unit = _ := Except.ok.inj (hunit.symm.trans hspaces)
      rcases hlacks with ⟨hout, -⟩ | hlacks | ⟨k, hbreak, hlacks⟩
      · exact hinRange hout
      · cases hnone.symm.trans hlacks
      · have hfound := hbreaks k hbreak
        rw [breakObstacle?, hlacks] at hfound
        cases hfound
    · cases hunit.symm.trans hspaces
  · cases htext.symm.trans hlacks

/-- **Writing**: a machine writes the document of a value whose integers are short if it lacks
nothing for the layout, and otherwise reports an integer that is too long or what it lacks. -/
theorem writes_or_obstructed (m : Machine) (indent : Indent) (v : Value) :
    (writeOn m indent v = .ok (write indent v) ∧ v.hasShortIntegers = true ∧
      ∀ s, ¬ LacksLayout m indent v s) ∨
    (writeOn m indent v = .error .tooManyDigits ∧ v.hasShortIntegers = false) ∨
    ∃ s, writeOn m indent v = .error (.shortage s) ∧ LacksLayout m indent v s := by
  cases hunit : unitOn m indent with
  | error s =>
    refine .inr (.inr ⟨s, by rw [writeOn, hunit], ?_⟩)
    cases indent with
    | none => cases hunit
    | some n =>
      rcases unitOn_spaces (m := m) n with ⟨hspaces, -, -⟩ | ⟨s', hspaces, hlacks⟩
      · cases hspaces.symm.trans hunit
      · obtain rfl : s' = s := Except.error.inj (hspaces.symm.trans hunit)
        exact .inl ⟨n, rfl, hlacks.imp_right .inl⟩
  | ok unit =>
    have hsearched : Searched m indent unit v.hasShortIntegers (BreaksAt 0 v)
      (obstacle? m indent unit 0 v) := searched_obstacle? 0 v
    cases hobstacle : obstacle? m indent unit 0 v with
    | some o =>
      have hwrite : writeOn m indent v = .error o := by rw [writeOn, hunit]; simp only [hobstacle]
      rw [hobstacle] at hsearched
      rcases hsearched with ⟨rfl, hlong⟩ | ⟨k, hbreak, hfound⟩
      · exact .inr (.inl ⟨hwrite, hlong⟩)
      · obtain ⟨s, rfl, hlacks⟩ := lacksLayout_of_breakObstacle? hunit hbreak hfound
        exact .inr (.inr ⟨s, hwrite, hlacks⟩)
    | none =>
      rw [hobstacle] at hsearched
      have hwrite : writeOn m indent v = (m.joined [write indent v]).mapError .shortage := by
        rw [writeOn, hunit]
        simp only [hobstacle]
      cases htext : m.lacks? (.joined [write indent v]) with
      | some s =>
        refine .inr (.inr ⟨s, ?_, .inr htext⟩)
        rw [hwrite, Machine.joined, htext]
        rfl
      | none =>
        refine .inl ⟨?_, hsearched.1, not_lacksLayout hunit hsearched.2 htext⟩
        rw [hwrite, Machine.joined, htext]
        exact congrArg Except.ok (List.append_nil _)

/-- On a single line, nothing comes before an integer that is too long. -/
theorem writeOn_oneLine {v : Value} (hlong : v.hasShortIntegers = false) :
    writeOn m none v = .error .tooManyDigits := by
  have hsearched : Searched m none [] v.hasShortIntegers (BreaksAt 0 v)
    (obstacle? m none [] 0 v) := searched_obstacle? 0 v
  rw [writeOn, unitOn]
  dsimp only
  cases hobstacle : obstacle? m none [] 0 v with
  | none =>
    rw [hobstacle, hlong] at hsearched
    cases hsearched.1
  | some o =>
    rw [hobstacle] at hsearched
    rcases hsearched with ⟨rfl, -⟩ | ⟨k, -, hfound⟩
    · rfl
    · cases hfound

/-- More spaces per level than a text can have characters are never written. -/
theorem writeOn_of_wide {n : Int} (hwide : Text.greatestLength < n) (v : Value) :
    writeOn m (some n) v = .error (.shortage .beyondLengths) := by
  have hextent : Text.greatestLength < (Need.copies [' '] n.toNat).extent := by
    simp only [Need.extent]
    omega
  have hunit : unitOn m (some n) = .error .beyondLengths := by
    rw [unitOn, if_neg (by omega), Machine.copies, Machine.lacks?_of_extent hextent]
  rw [writeOn, hunit]

end Json

end GrammarInference
