import GrammarInference.Grammar.Validate
import GrammarInference.Json.Writer

/-!
# Saved grammars

A grammar is saved as a JSON object with a format version, the root, and the rules by name. Writing
fails only for classes with foreign members and for bounds with too many digits, which have no
written form, and where the machine has no room for the document. Reading accepts any list, string
or object where a list of members is expected, as long as the members can be compared with each
other, sorts them, and checks the whole grammar at the end. Nodes are read by calls within each
other, of which only so many are left; that there are too few is one more fault of the saved form.
-/

namespace GrammarInference

/-- The version of the saved form. -/
def formatVersion : Text := "0.1.0".toList

/-- Why a grammar cannot be saved. -/
inductive SaveFault
  /-- A member of a class that is no text. -/
  | foreign
  /-- Its saved form cannot be written. -/
  | obstacle (o : Json.Obstacle)
  deriving Repr, DecidableEq

namespace CharClass

/-- The texts of symbols, one after another. -/
def joined? (ss : List Symbol) : Except SaveFault Text :=
  match ss.mapM Symbol.text? with
  | some ts => .ok (Text.concat ts)
  | none => .error .foreign

/-- The saved form of a class. -/
def toJson (k : CharClass) : Except SaveFault Json.Value := do
  let triggers ← joined? (Symbol.setOf k.triggers)
  let characters ← joined? k.characters
  let checks ← joined? k.checks
  .ok (.object [("triggers".toList, .text triggers), ("characters".toList, .text characters),
    ("checks".toList, .text checks)])

end CharClass

/-- The saved forms of optional classes; no class is null. -/
def classesToJson : List (Option CharClass) → Except SaveFault (List Json.Value)
  | [] => .ok []
  | none :: rest => do
    let vs ← classesToJson rest
    .ok (.null :: vs)
  | some k :: rest => do
    let v ← k.toJson
    let vs ← classesToJson rest
    .ok (v :: vs)

namespace Node

mutual

/-- The saved form of a node. -/
def toJson : Node → Except SaveFault Json.Value
  | .literal l => do
    let classes ← classesToJson l.classes
    .ok (.object [("type".toList, .text "literal".toList), ("text".toList, .text l.text),
      ("classes".toList, .array classes)])
  | .sequence cs => do
    let vs ← toJsonAll cs
    .ok (.object [("type".toList, .text "sequence".toList), ("children".toList, .array vs)])
  | .alternation os => do
    let vs ← toJsonAll os
    .ok (.object [("type".toList, .text "alternation".toList), ("options".toList, .array vs)])
  | .repetition b x => do
    let body ← toJson b
    .ok (.object [("type".toList, .text "repetition".toList), ("body".toList, body),
      ("min".toList, .int x.min),
      ("max".toList, match x.max with | some m => .int m | none => .null)])
  | .recursive t =>
    .ok (.object [("type".toList, .text "recursive".toList), ("target".toList, .text t)])

/-- The saved forms of several nodes. -/
def toJsonAll : List Node → Except SaveFault (List Json.Value)
  | [] => .ok []
  | n :: rest => do
    let v ← toJson n
    let vs ← toJsonAll rest
    .ok (v :: vs)

end

end Node

/-- The saved forms of rules, by name. -/
def rulesToJson : List (Text × Node) → Except SaveFault (List (Text × Json.Value))
  | [] => .ok []
  | (name, rule) :: rest => do
    let v ← rule.toJson
    let vs ← rulesToJson rest
    .ok ((name, v) :: vs)

namespace Grammar

/-- The saved form of a grammar. -/
def toJson (g : Grammar) : Except SaveFault Json.Value := do
  let root ← g.root.toJson
  let rules ← rulesToJson g.rules.entries
  .ok (.object [("version".toList, .text formatVersion), ("root".toList, root),
    ("rules".toList, .object rules)])

/-- A grammar as a saved text, as a machine writes it. -/
def save (m : Machine) (g : Grammar) (indent : Json.Indent) : Except SaveFault Text := do
  let v ← g.toJson
  (Json.writeOn m indent v).mapError .obstacle

end Grammar

/-! ### Reading classes -/

/-- The members of a list, the characters of a string, or the names of an object. -/
def entriesOf : Json.Value → Except NodeFault (List Json.Value)
  | .array vs => .ok vs
  | .text t => .ok (t.map fun c => .text [c])
  | .object fs => .ok (fs.map fun f => .text f.1)
  | _ => .error .wrongType

/-- Whether a value is a string. -/
def isText : Json.Value → Bool
  | .text _ => true
  | _ => false

/-- A value as a symbol. -/
def Symbol.ofValue : Json.Value → Symbol
  | .text t => .text t
  | .null => .nothing
  | .array vs => .compound (Json.Value.array vs).canonical
  | .object fs => .compound (Json.Value.object fs).canonical
  | v => .number v.canonical

/-- The symbols that stand in a list, a string or an object. -/
def symbolsOf (v : Json.Value) : Except NodeFault (List Symbol) :=
  (entriesOf v).map fun vs => vs.map Symbol.ofValue

/-- A set of symbols. -/
def symbolSet (v : Json.Value) : Except NodeFault (List Symbol) := do
  let ss ← symbolsOf v
  if ss.all Symbol.isAtom then .ok (Symbol.setOf ss) else .error .wrongType

/-- A sorted set of symbols. -/
def sortedSymbols (v : Json.Value) : Except NodeFault (List Symbol) := do
  let ss ← symbolSet v
  if Symbol.comparable ss then .ok ss else .error .wrongType

/-- A field that must be there. -/
def requiredField (name : Text) (fs : List (Text × Json.Value)) : Except NodeFault Json.Value :=
  match Json.lookup? name fs with
  | some v => .ok v
  | none => .error (.missingField name)

/-- Reads a class. -/
def CharClass.ofJson (v : Json.Value) : Except NodeFault CharClass :=
  match v with
  | .object fs => do
    let triggers ← symbolSet (← requiredField "triggers".toList fs)
    let characters ← sortedSymbols (← requiredField "characters".toList fs)
    let checks ← symbolsOf (← requiredField "checks".toList fs)
    .ok ⟨triggers, characters, checks⟩
  | _ => .error .wrongType

/-- Reads optional classes; null is no class. -/
def classesOfJson : List Json.Value → Except NodeFault (List (Option CharClass))
  | [] => .ok []
  | .null :: rest => do
    let ks ← classesOfJson rest
    .ok (none :: ks)
  | v :: rest => do
    let k ← CharClass.ofJson v
    let ks ← classesOfJson rest
    .ok (some k :: ks)

/-! ### Reading nodes -/

/-- Makes a literal if the number of classes fits. -/
def Literal.make (text : Text) (classes : List (Option CharClass)) : Except NodeFault Literal :=
  if h : classes = [] ∨ classes.length = text.length then .ok ⟨text, classes, h⟩
  else .error (.classCount text classes.length)

/-- Makes a range of counts if it makes sense. -/
def Bounds.make (least : Int) (greatest : Option Int) : Except NodeFault Bounds :=
  if least < 0 then .error .negativeMin
  else match greatest with
    | none => .ok (Bounds.atLeast least.toNat)
    | some m =>
      if h : m < least then .error .maxBelowMin
      else .ok ⟨least.toNat, some m.toNat, by
        intro k hk
        cases hk
        omega⟩

/-- Reads a literal. -/
def Literal.ofFields (fs : List (Text × Json.Value)) : Except NodeFault Literal := do
  match ← requiredField "text".toList fs with
  | .text t =>
    let entries ← entriesOf ((Json.lookup? "classes".toList fs).getD (.array []))
    let classes ← classesOfJson entries
    Literal.make t classes
  | _ => .error .textNotString

/-- Reads the two bounds of a repetition; the upper one may be missing or null. -/
def boundsOfFields (fs : List (Text × Json.Value)) : Except NodeFault (Int × Option Int) := do
  let least ← requiredField "min".toList fs
  match least, (Json.lookup? "max".toList fs).getD .null with
  | .int a, .null => .ok (a, none)
  | .int a, .int b => .ok (a, some b)
  | _, _ => .error .boundsNotIntegers

namespace Node

-- Every node takes a call, and going through a list of nodes takes one more.
mutual

/-- Reads a node while so many calls are left. -/
def ofJson (left : Nat) (v : Json.Value) : Except NodeFault Node :=
  if left = 0 then .error .tooDeep
  else match v with
    | .object fs =>
      match Json.lookup? "type".toList fs with
      | none => .error (.missingField "type".toList)
      | some kind =>
        if kind.shown = "literal".toList ∧ isText kind then (Literal.ofFields fs).map .literal
        else if kind.shown = "sequence".toList ∧ isText kind then
          (listField (left - 1) "children".toList fs).map .sequence
        else if kind.shown = "alternation".toList ∧ isText kind then
          (listField (left - 1) "options".toList fs).map .alternation
        else if kind.shown = "repetition".toList ∧ isText kind then
          match boundsOfFields fs with
          | .error e => .error e
          | .ok (least, greatest) =>
            match nodeField (left - 1) "body".toList fs with
            | .error e => .error e
            | .ok body => (Bounds.make least greatest).map (.repetition body)
        else if kind.shown = "recursive".toList ∧ isText kind then
          match requiredField "target".toList fs with
          | .error e => .error e
          | .ok (.text t) => .ok (.recursive t)
          | .ok _ => .error .targetNotString
        else .error (.unknownType kind.shown)
    | _ => .error .wrongType

/-- Reads the list of nodes in a field. An empty string or object is as good as an empty list. -/
def listField (left : Nat) (name : Text) : List (Text × Json.Value) → Except NodeFault (List Node)
  | [] => .error (.missingField name)
  | (k, v) :: rest =>
    if k = name then
      match v with
      | .array vs => if left = 0 then .error .tooDeep else ofJsonAll (left - 1) vs
      | .text [] => if left = 0 then .error .tooDeep else .ok []
      | .object [] => if left = 0 then .error .tooDeep else .ok []
      | _ => .error .wrongType
    else listField left name rest

/-- Reads the node in a field. -/
def nodeField (left : Nat) (name : Text) : List (Text × Json.Value) → Except NodeFault Node
  | [] => .error (.missingField name)
  | (k, v) :: rest => if k = name then ofJson left v else nodeField left name rest

/-- Reads several nodes. -/
def ofJsonAll (left : Nat) : List Json.Value → Except NodeFault (List Node)
  | [] => .ok []
  | v :: rest =>
    match ofJson left v with
    | .error e => .error e
    | .ok n =>
      match ofJsonAll left rest with
      | .error e => .error e
      | .ok ns => .ok (n :: ns)

end

end Node

/-! ### Reading grammars -/

/-- Reads the rules of a grammar. -/
def rulesOfJson (left : Nat) : List (Text × Json.Value) → Except NodeFault (List (Text × Node))
  | [] => .ok []
  | (name, v) :: rest => do
    let rule ← Node.ofJson left v
    let rules ← rulesOfJson left rest
    .ok ((name, rule) :: rules)

namespace Grammar

/-- Reads root and rules. A grammar without rules may leave them out. -/
def ofFields (left : Nat) (fs : List (Text × Json.Value)) : Except NodeFault Grammar := do
  let root ← Node.ofJson left (← requiredField "root".toList fs)
  match (Json.lookup? "rules".toList fs).getD (.object []) with
  | .object rules =>
    let rules ← rulesOfJson left rules
    .ok ⟨root, Rules.ofList rules⟩
  | _ => .error .wrongType

/-- Reads a grammar from its saved form and checks it, on a machine that allows so many calls. The
version may be left out. -/
def ofJson (calls : Nat) (v : Json.Value) : Except GrammarError Grammar :=
  match v with
  | .object fs =>
    let version := (Json.lookup? "version".toList fs).getD (.text formatVersion)
    if isText version && version.shown = formatVersion then
      match ofFields calls fs with
      | .error fault => .error (.malformed fault)
      | .ok g =>
        match g.validate with
        | .error e => .error e
        | .ok () => .ok g
    else .error (.unsupportedVersion version.shown)
  | _ => .error .notObject

/-- What is wrong with a text that is not read as JSON. That brackets lie too deep within each other
is as bad as any other mistake in it. -/
def ofReadError (e : Json.ReadError) : GrammarError :=
  match e.problem with
  | .tooManyDigits count => .tooManyDigits count
  | .loneSurrogate => .loneSurrogate
  | _ => .invalidJson e

/-- Reads a saved text, as a machine does. -/
def load (m : Machine) (t : Text) : Except GrammarError Grammar :=
  match m.lacks? (.document t) with
  | some s => .error (.shortage s)
  | none =>
    match Json.read m.brackets t with
    | .error e => .error (ofReadError e)
    | .ok v => ofJson m.calls v

end Grammar

end GrammarInference
