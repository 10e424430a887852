import GrammarInference.Json.Reader
import GrammarInference.Json.Writer

/-!
# What is written as JSON is read back

A value is written as a text and a text is read from its front, leaving the rest. So that reading
takes apart what writing has put together, every statement is about a written part with more text
behind it: the part is read, and what stands behind it is left (`Json.stringBody_writeText`,
`Json.scalar_showInt`, `Json.readsBack_of_plain`).

Numbers end where a character stands that cannot go on with a number; behind a written value such a
character always stands, or nothing does. Values with floating-point numbers are left out, and an
object has to have distinct names, since reading keeps one value for each name.
-/

namespace GrammarInference

namespace Json

/-! ### Strings -/

/-- The four digits of a UTF-16 unit denote it. -/
theorem unit?_hexDigits {n : Nat} (h : n < 0x10000) :
    ∃ a b c d, Text.hexDigits 4 n = [a, b, c, d] ∧ unit? a b c d = some n := by
  refine ⟨Text.hexDigit (n / 16 / 16 / 16 % 16), Text.hexDigit (n / 16 / 16 % 16),
    Text.hexDigit (n / 16 % 16), Text.hexDigit (n % 16), rfl, ?_⟩
  have hvalue : ∀ m, Text.hexValue? (Text.hexDigit (m % 16)) = some (m % 16) := fun m =>
    Text.hexValue?_hexDigit (Nat.mod_lt m (by decide))
  unfold unit?
  rw [hvalue, hvalue, hvalue, hvalue]
  simp only [Option.bind_eq_bind, Option.bind_some, Option.some.injEq]
  omega

/-- The code of a character lies below or above those of the units that form pairs. -/
theorem toNat_lt_or_gt (c : Char) :
    c.toNat < 0xd800 ∨ (0xdfff < c.toNat ∧ c.toNat < 0x110000) := c.valid

/-- The code of a character is put in front of a string as this character. -/
theorem consCode_toNat (c : Char) (ahead : Nat) (t left : Text) :
    consCode c.toNat ahead (.ok (t, left)) = .ok (c :: t, left) := by
  have hsurrogate : isSurrogate c.toNat = false := by
    have hvalid := toNat_lt_or_gt c
    simp only [isSurrogate, Bool.and_eq_false_iff, decide_eq_false_iff_not]
    omega
  rw [consCode, hsurrogate, if_neg Bool.false_ne_true, Char.ofNat_toNat]

/-- How a character is written inside a string: with an escape of one letter, as it is, as a
unit, or as a pair of units. -/
theorem escapeChar_cases (c : Char) :
    (∃ letter, letter ≠ 'u' ∧ simpleEscape? letter = some c ∧ escapeChar c = ['\\', letter]) ∨
      (c ≠ '"' ∧ c ≠ '\\' ∧ 0x20 ≤ c.toNat ∧ escapeChar c = [c]) ∨
      (c.toNat < 0x10000 ∧ escapeChar c = escapeUnit c.toNat) ∨
      (0x10000 ≤ c.toNat ∧ escapeChar c = escapeUnit (0xd800 + (c.toNat - 0x10000) / 1024) ++
        escapeUnit (0xdc00 + (c.toNat - 0x10000) % 1024)) := by
  unfold escapeChar
  -- the seven characters with a letter of their own
  iterate 7
    split
    · next h => exact .inl ⟨_, by decide, by rw [h]; rfl, rfl⟩
  next hquote hbackslash _ _ _ _ _ =>
    split
    · next h => exact .inr (.inl ⟨hquote, hbackslash, h.1, rfl⟩)
    · split
      · next h => exact .inr (.inr (.inl ⟨h, rfl⟩))
      · next h => exact .inr (.inr (.inr ⟨Nat.le_of_not_lt h, rfl⟩))

variable {whole : Nat} {tail left t : Text} {c : Char}

/-- A character that is escaped as one unit is read back. -/
theorem stringBody_unit (hcode : c.toNat < 0x10000) (ht : stringBody whole tail = .ok (t, left)) :
    stringBody whole (escapeUnit c.toNat ++ tail) = .ok (c :: t, left) := by
  obtain ⟨x, y, z, w, hdigits, hunit⟩ := unit?_hexDigits hcode
  have hsingle : ¬ (0xd800 ≤ c.toNat ∧ c.toNat < 0xdc00) := by
    have hvalid := toNat_lt_or_gt c
    omega
  rw [escapeUnit, hdigits]
  -- the two patterns for units differ in whether another unit follows
  have hread : stringBody whole ('\\' :: 'u' :: x :: y :: z :: w :: tail) =
      .ok (c :: t, left) := by
    cases tail with
    | nil => rw [stringBody] at ht; cases ht
    | cons next rest =>
      by_cases hnext : ∃ e f g h more, next = '\\' ∧ rest = 'u' :: e :: f :: g :: h :: more
      · obtain ⟨e, f, g, h, more, rfl, rfl⟩ := hnext
        rw [stringBody, hunit]
        dsimp only
        rw [if_neg (fun hpair => hsingle ⟨hpair.1, hpair.2.1⟩), ht, consCode_toNat]
      · rw [stringBody, hunit]
        · dsimp only
          rw [ht, consCode_toNat]
        · intro e f g h more hn hr
          exact hnext ⟨e, f, g, h, more, hn, hr⟩
  exact hread

/-- A character that is escaped as a pair of units is read back. -/
theorem stringBody_pair {high low : Nat} (hhigh : 0xd800 ≤ high ∧ high < 0xdc00)
    (hlow : 0xdc00 ≤ low ∧ low < 0xe000)
    (hcode : pairCode high low = c.toNat)
    (ht : stringBody whole tail = .ok (t, left)) :
    stringBody whole (escapeUnit high ++ (escapeUnit low ++ tail)) = .ok (c :: t, left) := by
  obtain ⟨x, y, z, w, hdigits, hunit⟩ := unit?_hexDigits (n := high) (by omega)
  obtain ⟨e, f, g, h, hdigits', hunit'⟩ := unit?_hexDigits (n := low) (by omega)
  have htail : tail ≠ [] := by
    rintro rfl
    rw [stringBody] at ht
    cases ht
  rw [escapeUnit, escapeUnit, hdigits, hdigits']
  have hread : stringBody whole ('\\' :: 'u' :: x :: y :: z :: w :: '\\' :: 'u' :: e :: f :: g ::
      h :: tail) = .ok (c :: t, left) := by
    rw [stringBody, hunit]
    dsimp only
    rw [if_pos ⟨hhigh.1, hhigh.2, htail⟩, hunit']
    dsimp only
    rw [if_pos hlow, hcode, ht, consCode_toNat]
  exact hread

/-- An escape of one letter is the character that it stands for. -/
theorem stringBody_simpleEscape {letter : Char} (hletter : letter ≠ 'u')
    (hc : simpleEscape? letter = some c) (ht : stringBody whole tail = .ok (t, left)) :
    stringBody whole ('\\' :: letter :: tail) = .ok (c :: t, left) := by
  rw [stringBody, hc]
  · dsimp only
    rw [ht]
    rfl
  · exact fun _ _ _ _ _ _ _ _ _ h => (hletter h).elim
  · exact fun _ _ _ _ _ _ h => (hletter h).elim
  · exact hletter

/-- A character that is neither a quote, a backslash nor a control character stands for itself. -/
theorem stringBody_plain (hquote : c ≠ '"') (hbackslash : c ≠ '\\') (hc : 0x20 ≤ c.toNat)
    (ht : stringBody whole tail = .ok (t, left)) :
    stringBody whole (c :: tail) = .ok (c :: t, left) := by
  rw [stringBody, if_neg (Nat.not_lt.mpr hc), ht]
  · rfl
  · exact hquote
  · exact fun h => (hbackslash h).elim
  · exact fun _ _ _ _ _ _ _ _ _ h => (hbackslash h).elim
  · exact fun _ _ _ _ _ _ h => (hbackslash h).elim
  · exact fun _ h => (hbackslash h).elim
  · exact fun _ _ h => (hbackslash h).elim

/-- **A character** that is written inside a string is read back. -/
theorem stringBody_escapeChar (c : Char) (ht : stringBody whole tail = .ok (t, left)) :
    stringBody whole (escapeChar c ++ tail) = .ok (c :: t, left) := by
  have hvalid := toNat_lt_or_gt c
  rcases escapeChar_cases c with ⟨letter, hletter, hc, hescape⟩ |
    ⟨hquote, hbackslash, hc, hescape⟩ | ⟨hc, hescape⟩ | ⟨hc, hescape⟩
  · rw [hescape]
    exact stringBody_simpleEscape hletter hc ht
  · rw [hescape]
    exact stringBody_plain hquote hbackslash hc ht
  · rw [hescape]
    exact stringBody_unit hc ht
  · rw [hescape, List.append_assoc]
    exact stringBody_pair (by omega) (by omega) (by unfold pairCode; omega) ht

/-- **A string** is read back, up to its closing quote. -/
theorem stringBody_writeText (whole : Nat) (t rest : Text) :
    stringBody whole (t.flatMap escapeChar ++ '"' :: rest) = .ok (t, rest) := by
  induction t with
  | nil => rw [List.flatMap_nil, List.nil_append, stringBody]
  | cons c t ih =>
    rw [List.flatMap_cons, List.append_assoc]
    exact stringBody_escapeChar c ih

/-! ### Numbers -/

/-- The text goes on with nothing that could belong to a number before it: it is at its end, or an
entry, a list or an object ends there. -/
def EndsNumber (rest : Text) : Prop :=
  ∀ c ∈ rest.head?, c = ',' ∨ c = ']' ∨ c = '}' ∨ c = '\n'

theorem ofDigits_decimal (n : Nat) : Number.ofDigits (Number.decimal n) = n :=
  Nat.ofDigitChars_ten_toDigits

/-- Only zero is written with a zero at its front. -/
theorem exists_decimal {n : Nat} (hn : 0 < n) :
    ∃ c ds, Number.decimal n = c :: ds ∧ c ≠ '0' := by
  induction n using Nat.strongRecOn with
  | ind n ih =>
    unfold Number.decimal at ih ⊢
    rw [Nat.toDigits_eq_if (by decide)]
    split
    · next hsmall =>
      have hdigit : ∀ m, m < 10 → 0 < m → m.digitChar ≠ '0' := by decide
      exact ⟨n.digitChar, [], rfl, hdigit n hsmall hn⟩
    · next hlarge =>
      obtain ⟨c, ds, hds, hc⟩ := ih (n / 10) (by omega) (by omega)
      exact ⟨c, ds ++ [(n % 10).digitChar], by rw [hds]; rfl, hc⟩

theorem isDigit_of_mem_decimal {n : Nat} {c : Char} (h : c ∈ Number.decimal n) :
    c.isDigit = true :=
  Nat.isDigit_of_mem_toDigits (by decide) (by decide) h

/-- A number is written with a digit at its front. -/
theorem exists_decimal_eq_cons (n : Nat) :
    ∃ c ds, Number.decimal n = c :: ds ∧ c.isDigit = true := by
  obtain ⟨c, ds, hds⟩ : ∃ c ds, Number.decimal n = c :: ds :=
    List.exists_cons_of_ne_nil Nat.toDigits_ne_nil
  exact ⟨c, ds, hds, isDigit_of_mem_decimal (n := n) (hds ▸ List.mem_cons_self)⟩

/-- No word begins with a digit, with or without a minus before it. -/
theorem find?_words_eq_none (hc : c.isDigit = true) (rest : Text) :
    (words.find? fun w => w.1.isPrefixOf (c :: rest)) = none ∧
      (words.find? fun w => w.1.isPrefixOf ('-' :: c :: rest)) = none := by
  have hne : ∀ d : Char, d.isDigit = false → (d == c) = false := by
    intro d hd
    rw [beq_eq_false_iff_ne]
    rintro rfl
    rw [hc] at hd
    cases hd
  refine ⟨?_, ?_⟩
  · simp [words, List.isPrefixOf, hne]
  · simp [words, List.isPrefixOf, hne]

variable {rest : Text}

theorem EndsNumber.not_isDigit (h : EndsNumber rest) : ∀ c ∈ rest.head?, c.isDigit = false := by
  intro c hc
  rcases h c hc with rfl | rfl | rfl | rfl <;> rfl

/-- A number is taken from the front of a text as far as its digits go. -/
theorem wholePart?_decimal (n : Nat) (h : EndsNumber rest) :
    wholePart? (Number.decimal n ++ rest) = some (Number.decimal n, rest) := by
  rcases Nat.eq_zero_or_pos n with rfl | hn
  · rfl
  · obtain ⟨c, ds, hds, hc⟩ := exists_decimal hn
    have hdigits : ∀ d ∈ c :: ds, d.isDigit = true := fun d hd =>
      isDigit_of_mem_decimal (n := n) (hds ▸ hd)
    have hstop : rest.takeWhile Char.isDigit = [] ∧ rest.dropWhile Char.isDigit = rest := by
      cases rest with
      | nil => exact ⟨rfl, rfl⟩
      | cons e rest =>
        have he := h.not_isDigit e rfl
        exact ⟨List.takeWhile_cons_of_neg (by simp [he]), List.dropWhile_cons_of_neg (by simp [he])⟩
    rw [hds, List.cons_append, wholePart?, if_pos (hdigits c List.mem_cons_self), digits,
      ← List.cons_append, List.takeWhile_append_of_pos hdigits,
      List.dropWhile_append_of_pos hdigits, hstop.1, hstop.2, List.append_nil]
    exact fun h => hc h

theorem fractionPart_of_endsNumber (h : EndsNumber rest) : fractionPart rest = ([], rest) := by
  unfold fractionPart
  split
  · have hpoint := h '.' rfl
    simp at hpoint
  · rfl

theorem exponentPart?_of_endsNumber (h : EndsNumber rest) :
    exponentPart? rest = (none, rest) := by
  cases rest with
  | nil => rfl
  | cons c rest =>
    rw [exponentPart?, if_neg]
    rcases h c rfl with rfl | rfl | rfl | rfl <;> decide

/-- The digits of an integer are read as an integer. -/
theorem number_decimal (negative : Bool) (n : Nat)
    (hn : (Number.decimal n).length ≤ Number.mostDigits) (h : EndsNumber rest) :
    number negative (Number.decimal n) rest =
      .ok (.int (if negative then -(n : Int) else n), rest) := by
  unfold number
  rw [fractionPart_of_endsNumber h]
  dsimp only
  rw [exponentPart?_of_endsNumber h]
  dsimp only
  rw [if_pos (by rfl), if_neg (Nat.not_lt.mpr hn), ofDigits_decimal]

variable {left whole : Text}

/-- Behind a minus a number is read that is to be negative. -/
theorem scalar_minus (hword : (words.find? fun w => w.1.isPrefixOf ('-' :: t)) = none)
    (hwhole : wholePart? t = some (whole, left)) :
    scalar ('-' :: t) = number true whole left := by
  unfold scalar
  simp only [hword, hwhole]

/-- Where no minus stands a number is read as it is. -/
theorem scalar_of_ne_minus (hword : (words.find? fun w => w.1.isPrefixOf (c :: t)) = none)
    (hc : c ≠ '-') (hwhole : wholePart? (c :: t) = some (whole, left)) :
    scalar (c :: t) = number false whole left := by
  unfold scalar
  rw [hword]
  split
  · next h => cases h
  · split
    next h =>
      split at h
      · next heq => exact (hc (List.cons.inj heq).1).elim
      · cases h
        rw [hwhole]

/-- **An integer** with few enough digits is read back. -/
theorem scalar_showInt (n : Int) (hn : (Number.decimal n.natAbs).length ≤ Number.mostDigits)
    (h : EndsNumber rest) : scalar (Number.showInt n ++ rest) = .ok (.int n, rest) := by
  obtain ⟨c, ds, hds, hc⟩ := exists_decimal_eq_cons n.natAbs
  obtain ⟨hword, hword'⟩ := find?_words_eq_none hc (ds ++ rest)
  have hwhole := wholePart?_decimal n.natAbs h
  rw [hds, List.cons_append] at hwhole
  unfold Number.showInt
  split
  · next hneg =>
    rw [hds, List.cons_append, List.cons_append, scalar_minus hword' hwhole, ← hds,
      number_decimal true _ hn h, if_pos rfl, Int.ofNat_natAbs_of_nonpos (Int.le_of_lt hneg),
      Int.neg_neg]
  · next hneg =>
    have hminus : c ≠ '-' := by
      rintro rfl
      cases hc
    rw [hds, List.cons_append, scalar_of_ne_minus hword hminus hwhole, ← hds,
      number_decimal false _ hn h, if_neg Bool.false_ne_true,
      Int.natAbs_of_nonneg (Int.not_lt.mp hneg)]

/-- An integer is written with a minus or a digit at its front. -/
theorem exists_showInt_eq_cons (n : Int) :
    ∃ c t, Number.showInt n = c :: t ∧ ∀ d, d ≠ '-' → d.isDigit = false → c ≠ d := by
  obtain ⟨c, ds, hds, hc⟩ := exists_decimal_eq_cons n.natAbs
  unfold Number.showInt
  split
  · exact ⟨'-', _, rfl, fun d hd _ => Ne.symm hd⟩
  · refine ⟨c, ds, hds, ?_⟩
    rintro d - hd rfl
    rw [hc] at hd
    cases hd

/-! ### White space -/

theorem isSpace_eq_false (h : ∀ d, d ≠ '-' → d.isDigit = false → c ≠ d) : isSpace c = false := by
  rw [Bool.eq_false_iff]
  intro hspace
  simp only [isSpace, Bool.or_eq_true, decide_eq_true_eq] at hspace
  rcases hspace with ((rfl | rfl) | rfl) | rfl <;> exact h _ (by decide) rfl rfl

theorem skipSpace_append {gap : Text} (hgap : ∀ c ∈ gap, isSpace c = true) (t : Text) :
    skipSpace (gap ++ t) = skipSpace t := by
  rw [skipSpace, List.dropWhile_append_of_pos hgap, skipSpace]

variable {indent : Indent} {depth : Nat}

theorem isSpace_of_mem_lineBreak (h : c ∈ lineBreak indent depth) : isSpace c = true := by
  cases indent with
  | none => cases h
  | some n =>
    rcases List.mem_cons.mp h with rfl | hblank
    · rfl
    · rw [List.eq_of_mem_replicate hblank]
      rfl

/-- Between two entries stands a comma, and behind it white space alone. -/
theorem exists_separator (indent : Indent) (depth : Nat) :
    ∃ gap, separator indent depth = ',' :: gap ∧ ∀ c ∈ gap, isSpace c = true := by
  cases indent with
  | none => exact ⟨[' '], rfl, fun c hc => by rw [List.mem_singleton.mp hc]; rfl⟩
  | some n => exact ⟨lineBreak (some n) depth, rfl, fun c => isSpace_of_mem_lineBreak⟩

theorem endsNumber_comma (rest : Text) : EndsNumber (',' :: rest) := by
  intro c hc
  cases hc
  exact .inl rfl

/-- In front of a closing bracket a number is at its end. -/
theorem endsNumber_lineBreak (indent : Indent) (depth : Nat) (hc : c = ']' ∨ c = '}')
    (rest : Text) : EndsNumber (lineBreak indent depth ++ c :: rest) := by
  intro d hd
  cases indent with
  | none =>
    cases hd
    rcases hc with rfl | rfl
    · exact .inr (.inl rfl)
    · exact .inr (.inr (.inl rfl))
  | some n =>
    cases hd
    exact .inr (.inr (.inr rfl))

theorem skipSpace_lineBreak (indent : Indent) (depth : Nat) (hc : isSpace c = false) (rest : Text) :
    skipSpace (lineBreak indent depth ++ c :: rest) = c :: rest := by
  rw [skipSpace_append fun d => isSpace_of_mem_lineBreak, skipSpace_of_not_space hc]

/-! ### Objects with distinct names -/

/-- Where no name comes twice, a name does not stand before itself. -/
theorem fst_not_mem_of_nodup {β : Type} {earlier later : List (Text × β)} {e : Text × β}
    (h : ((earlier ++ e :: later).map Prod.fst).Nodup) : e.1 ∉ earlier.map Prod.fst := by
  rw [List.map_append, List.map_cons] at h
  intro hmem
  exact (List.nodup_append.mp h).2.2 e.1 hmem e.1 List.mem_cons_self rfl

/-- Reading keeps every field where no name comes twice. -/
theorem fieldsOf_of_nodup {fs : List (Text × Value)} (h : (fs.map Prod.fst).Nodup) :
    fieldsOf fs = fs := by
  suffices hfrom : ∀ fs acc : List (Text × Value), ((acc ++ fs).map Prod.fst).Nodup →
      fs.foldl (fun fields f => setField f.1 f.2 fields) acc = acc ++ fs by
    exact hfrom fs [] h
  intro fs
  induction fs with
  | nil => intro acc _; rw [List.foldl_nil, List.append_nil]
  | cons f fs ih =>
    intro acc hnodup
    rw [List.foldl_cons, setField_of_not_mem (fst_not_mem_of_nodup hnodup), ih (acc ++ [f]),
      List.append_assoc, List.singleton_append]
    rwa [List.append_assoc, List.singleton_append]

/-! ### Values -/

/-- A value that is read back as it was written: it holds no floating-point number, and no object
in it has two fields of one name. -/
inductive Value.Plain : Value → Prop
  /-- The null value is plain. -/
  | null : Plain .null
  /-- Truth values are plain. -/
  | bool (b : Bool) : Plain (.bool b)
  /-- Integers are plain. -/
  | int (n : Int) : Plain (.int n)
  /-- Strings are plain. -/
  | text (t : Text) : Plain (.text t)
  /-- A list of plain values is plain. -/
  | array {items : List Value} (each : ∀ v ∈ items, Plain v) : Plain (.array items)
  /-- An object of plain values under distinct names is plain. -/
  | object {fields : List (Text × Value)} (distinct : (fields.map Prod.fst).Nodup)
    (each : ∀ f ∈ fields, Plain f.2) : Plain (.object fields)

namespace Value

theorem Plain.cons {v : Value} {vs : List Value} (hv : v.Plain) (hvs : (Value.array vs).Plain) :
    (Value.array (v :: vs)).Plain := by
  cases hvs with
  | array each =>
    refine .array fun w hw => ?_
    rcases List.mem_cons.mp hw with rfl | hw
    · exact hv
    · exact each w hw

theorem allShort_iff {vs : List Value} :
    allShort vs = true ↔ ∀ v ∈ vs, v.hasShortIntegers = true := by
  induction vs with
  | nil => simp [allShort]
  | cons v vs ih => simp [allShort, ih]

theorem fieldsShort_iff {fs : List (Text × Value)} :
    fieldsShort fs = true ↔ ∀ f ∈ fs, f.2.hasShortIntegers = true := by
  induction fs with
  | nil => simp [fieldsShort]
  | cons f fs ih =>
    obtain ⟨k, v⟩ := f
    simp [fieldsShort, ih]

end Value

/-- The first character of a written value is neither white space nor the end of a list, nor a byte
order mark. -/
theorem exists_writeAt_eq_cons {v : Value} (hv : v.Plain) (indent : Indent) (depth : Nat) :
    ∃ c t, writeAt indent depth v = c :: t ∧ isSpace c = false ∧ c ≠ ']' ∧ c ≠ '\uFEFF' := by
  cases hv with
  | null => exact ⟨'n', _, rfl, by decide⟩
  | bool b =>
    cases b with
    | false => exact ⟨'f', _, rfl, by decide⟩
    | true => exact ⟨'t', _, rfl, by decide⟩
  | int n =>
    obtain ⟨c, t, hshown, hne⟩ := exists_showInt_eq_cons n
    exact ⟨c, t, by rw [writeAt, hshown], isSpace_eq_false hne, hne ']' (by decide) rfl,
      hne '\uFEFF' (by decide) rfl⟩
  | text t => exact ⟨'"', _, rfl, by decide⟩
  | @array items _ =>
    cases items with
    | nil => exact ⟨'[', _, rfl, by decide⟩
    | cons v vs => exact ⟨'[', _, by rw [writeAt]; rfl, by decide⟩
  | @object fields _ _ =>
    cases fields with
    | nil => exact ⟨'{', _, rfl, by decide⟩
    | cons f fs => exact ⟨'{', _, by rw [writeAt]; rfl, by decide⟩

theorem skipSpace_writeAt {v : Value} (hv : v.Plain) (indent : Indent) (depth : Nat) (rest : Text) :
    skipSpace (writeAt indent depth v ++ rest) = writeAt indent depth v ++ rest := by
  obtain ⟨c, t, hfront, hc, -⟩ := exists_writeAt_eq_cons hv indent depth
  rw [hfront, List.cons_append, skipSpace_of_not_space hc]

namespace Value

mutual

/-- How many lists and objects of a value lie within each other. -/
def nesting : Value → Nat
  | .array items => nestingAll items + 1
  | .object fields => nestingFields fields + 1
  | _ => 0

/-- The greatest nesting of several values. -/
def nestingAll : List Value → Nat
  | [] => 0
  | v :: rest => max v.nesting (nestingAll rest)

/-- The greatest nesting of several fields. -/
def nestingFields : List (Text × Value) → Nat
  | [] => 0
  | (_, v) :: rest => max v.nesting (nestingFields rest)

end

theorem nesting_le_nestingAll {v : Value} {items : List Value} (hv : v ∈ items) :
    v.nesting ≤ nestingAll items := by
  induction items with
  | nil => cases hv
  | cons w rest ih =>
    rw [nestingAll]
    rcases List.mem_cons.mp hv with rfl | hv
    · exact Nat.le_max_left _ _
    · exact Nat.le_trans (ih hv) (Nat.le_max_right _ _)

theorem nesting_le_nestingFields {f : Text × Value} {fields : List (Text × Value)}
    (hf : f ∈ fields) : f.2.nesting ≤ nestingFields fields := by
  induction fields with
  | nil => cases hf
  | cons g rest ih =>
    obtain ⟨k, w⟩ := g
    rw [nestingFields]
    rcases List.mem_cons.mp hf with rfl | hf
    · exact Nat.le_max_left _ _
    · exact Nat.le_trans (ih hf) (Nat.le_max_right _ _)

end Value

/-- A value is read back wherever it is written: at every depth, in front of every text that ends
numbers, where as many brackets may be opened as it has within each other. Reading takes no more
steps than twice the length of what is written. -/
def ReadsBack (indent : Indent) (v : Value) : Prop :=
  ∀ {depth fuel brackets : Nat} {rest : Text}, EndsNumber rest →
    2 * (writeAt indent depth v).length ≤ fuel → v.nesting ≤ brackets →
      value fuel brackets (writeAt indent depth v ++ rest) = .ok (v, rest)

/-- Where no string, list or object begins there is a word or a number. -/
theorem value_of_scalar {fuel brackets : Nat} (hquote : c ≠ '"') (hlist : c ≠ '[')
    (hobject : c ≠ '{') :
    value (fuel + 1) brackets (c :: t) = scalar (c :: t) := by
  rw [value]
  · exact fun _ h => hquote (List.cons.inj h).1
  · exact fun _ h => hlist (List.cons.inj h).1
  · exact fun _ h => hobject (List.cons.inj h).1

variable {v : Value} {items : List Value} {fields : List (Text × Value)}

/-- Reading has a step for every written value. -/
theorem exists_fuel (hv : v.Plain) {fuel : Nat}
    (h : 2 * (writeAt indent depth v).length ≤ fuel) : ∃ left, fuel = left + 1 := by
  obtain ⟨c, t, hfront, -⟩ := exists_writeAt_eq_cons hv indent depth
  rw [hfront, List.length_cons] at h
  exact ⟨fuel - 1, by omega⟩

theorem readsBack_null (indent : Indent) : ReadsBack indent .null := by
  intro depth fuel brackets rest _ hfuel _
  obtain ⟨fuel, rfl⟩ := exists_fuel .null hfuel
  exact (value_of_scalar (by decide) (by decide) (by decide)).trans rfl

theorem readsBack_bool (indent : Indent) (b : Bool) : ReadsBack indent (.bool b) := by
  intro depth fuel brackets rest _ hfuel _
  obtain ⟨fuel, rfl⟩ := exists_fuel (.bool b) hfuel
  cases b with
  | false => exact (value_of_scalar (by decide) (by decide) (by decide)).trans rfl
  | true => exact (value_of_scalar (by decide) (by decide) (by decide)).trans rfl

theorem readsBack_int (indent : Indent) {n : Int} (hn : (Value.int n).hasShortIntegers = true) :
    ReadsBack indent (.int n) := by
  intro depth fuel brackets rest hrest hfuel _
  obtain ⟨fuel, rfl⟩ := exists_fuel (.int n) hfuel
  obtain ⟨c, t, hshown, hne⟩ := exists_showInt_eq_cons n
  have hshort : (Number.decimal n.natAbs).length ≤ Number.mostDigits := of_decide_eq_true hn
  rw [writeAt, ← scalar_showInt n hshort hrest, hshown]
  exact value_of_scalar (hne '"' (by decide) rfl) (hne '[' (by decide) rfl)
    (hne '{' (by decide) rfl)

theorem readsBack_text (indent : Indent) (t : Text) : ReadsBack indent (.text t) := by
  intro depth fuel brackets rest _ hfuel _
  obtain ⟨fuel, rfl⟩ := exists_fuel (.text t) hfuel
  rw [writeAt, writeText, List.append_assoc, List.append_assoc, List.singleton_append,
    List.singleton_append, value, stringBody_writeText]
  rfl

section Reading

variable {fuel brackets : Nat} {more name : Text}

/-- The last entry of a list has the closing bracket behind it. -/
theorem items_last (hv : value fuel brackets t = .ok (v, rest))
    (hclose : skipSpace rest = ']' :: left) :
    Json.items (fuel + 1) brackets t = .ok ([v], left) := by
  simp only [Json.items, hv, hclose, bind, Except.bind]

/-- An entry with a comma behind it comes before the entries that follow. -/
theorem items_more (hv : value fuel brackets t = .ok (v, rest))
    (hcomma : skipSpace rest = ',' :: more)
    (hvs : Json.items fuel brackets (skipSpace more) = .ok (items, left)) :
    Json.items (fuel + 1) brackets t = .ok (v :: items, left) := by
  simp only [Json.items, hv, hcomma, hvs, bind, Except.bind]

/-- The last field of an object has the closing brace behind it. -/
theorem fields_last (hname : ∀ whole, stringBody whole t = .ok (name, ':' :: more))
    (hv : value fuel brackets (skipSpace more) = .ok (v, rest))
    (hclose : skipSpace rest = '}' :: left) :
    Json.fields (fuel + 1) brackets ('"' :: t) = .ok ([(name, v)], left) := by
  have hcolon : skipSpace (':' :: more) = ':' :: more := skipSpace_of_not_space rfl
  simp only [Json.fields, hname, hcolon, hv, hclose, bind, Except.bind]

/-- A field with a comma behind it comes before the fields that follow. -/
theorem fields_more (hname : ∀ whole, stringBody whole t = .ok (name, ':' :: more))
    (hv : value fuel brackets (skipSpace more) = .ok (v, rest)) {next : Text}
    (hcomma : skipSpace rest = ',' :: next)
    (hfs : Json.fields fuel brackets (skipSpace next) = .ok (fields, left)) :
    Json.fields (fuel + 1) brackets ('"' :: t) = .ok ((name, v) :: fields, left) := by
  have hcolon : skipSpace (':' :: more) = ':' :: more := skipSpace_of_not_space rfl
  simp only [Json.fields, hname, hcolon, hv, hcomma, hfs, bind, Except.bind]

/-- A list that is not closed at once is read entry by entry. -/
theorem value_list (hfirst : skipSpace t = c :: more) (hc : c ≠ ']')
    (hvs : Json.items fuel brackets (c :: more) = .ok (items, left)) :
    value (fuel + 1) (brackets + 1) ('[' :: t) = .ok (.array items, left) := by
  rw [value, hfirst]
  split
  · next heq => exact (hc (List.cons.inj heq).1).elim
  · rw [hvs]
    rfl

/-- An object that is not closed at once is read field by field. -/
theorem value_object (hfirst : skipSpace t = c :: more) (hc : c ≠ '}')
    (hfs : Json.fields fuel brackets (c :: more) = .ok (fields, left)) :
    value (fuel + 1) (brackets + 1) ('{' :: t) = .ok (.object (fieldsOf fields), left) := by
  rw [value, hfirst]
  split
  · next heq => exact (hc (List.cons.inj heq).1).elim
  · rw [hfs]
    rfl

end Reading

/-- The entries of a list are read up to its closing bracket. -/
theorem items_writeItems {vs : List Value} {brackets : Nat} (depth outer fuel : Nat)
    (hplain : ∀ w ∈ v :: vs, w.Plain) (hread : ∀ w ∈ v :: vs, ReadsBack indent w)
    (hdeep : ∀ w ∈ v :: vs, w.nesting ≤ brackets)
    (hfuel : 2 * (writeAt indent depth v ++ writeItems indent depth vs).length + 1 ≤ fuel)
    (rest : Text) :
    Json.items fuel brackets (writeAt indent depth v ++ (writeItems indent depth vs ++
      (lineBreak indent outer ++ ']' :: rest))) = .ok (v :: vs, rest) := by
  obtain ⟨fuel, rfl⟩ : ∃ left, fuel = left + 1 := ⟨fuel - 1, by omega⟩
  rw [List.length_append] at hfuel
  induction vs generalizing v fuel with
  | nil =>
    rw [writeItems, List.nil_append]
    refine items_last ?_ (skipSpace_lineBreak indent outer rfl rest)
    exact hread v List.mem_cons_self (endsNumber_lineBreak indent outer (.inl rfl) rest) (by omega)
      (hdeep v List.mem_cons_self)
  | cons w vs ih =>
    obtain ⟨gap, hgap, hspace⟩ := exists_separator indent depth
    rw [writeItems, hgap] at hfuel
    simp only [List.length_append, List.length_cons] at hfuel
    obtain ⟨fuel, rfl⟩ : ∃ left, fuel = left + 1 := ⟨fuel - 1, by omega⟩
    -- behind the comma the other entries are read, with the steps that are left
    have hvs := ih (fun x hx => hplain x (.tail v hx)) (fun x hx => hread x (.tail v hx))
      (fun x hx => hdeep x (.tail v hx)) fuel (by omega)
    rw [← skipSpace_writeAt (hplain w (.tail v List.mem_cons_self)),
      ← skipSpace_append hspace] at hvs
    simp only [writeItems, hgap, List.cons_append, List.append_assoc] at hvs ⊢
    refine items_more ?_ (skipSpace_of_not_space rfl) hvs
    exact hread v List.mem_cons_self (endsNumber_comma _) (by omega) (hdeep v List.mem_cons_self)

theorem writeText_append (t rest : Text) :
    writeText t ++ rest = '"' :: (t.flatMap escapeChar ++ '"' :: rest) := by
  rw [writeText, List.append_assoc, List.append_assoc, List.singleton_append,
    List.singleton_append]

/-- The fields of an object are read up to its closing brace. -/
theorem fields_writeFields {k : Text} {fs : List (Text × Value)} {brackets : Nat}
    (depth outer fuel : Nat) (hplain : ∀ f ∈ (k, v) :: fs, f.2.Plain)
    (hread : ∀ f ∈ (k, v) :: fs, ReadsBack indent f.2)
    (hdeep : ∀ f ∈ (k, v) :: fs, f.2.nesting ≤ brackets)
    (hfuel : 2 * (writeAt indent depth v ++ writeFields indent depth fs).length + 1 ≤ fuel)
    (rest : Text) :
    Json.fields fuel brackets (writeText k ++ ':' :: ' ' :: (writeAt indent depth v ++
      (writeFields indent depth fs ++ (lineBreak indent outer ++ '}' :: rest)))) =
      .ok ((k, v) :: fs, rest) := by
  obtain ⟨fuel, rfl⟩ : ∃ left, fuel = left + 1 := ⟨fuel - 1, by omega⟩
  rw [List.length_append] at hfuel
  induction fs generalizing k v fuel with
  | nil =>
    have hv : ReadsBack indent v := hread (k, v) List.mem_cons_self
    rw [writeText_append, writeFields, List.nil_append]
    refine fields_last (fun _ => stringBody_writeText _ _ _) ?_
      (skipSpace_lineBreak indent outer rfl rest)
    rw [skipSpace_cons_of_space rfl, skipSpace_writeAt (hplain (k, v) List.mem_cons_self)]
    exact hv (endsNumber_lineBreak indent outer (.inr rfl) rest) (by omega)
      (hdeep (k, v) List.mem_cons_self)
  | cons f fs ih =>
    obtain ⟨l, w⟩ := f
    have hv : ReadsBack indent v := hread (k, v) List.mem_cons_self
    obtain ⟨gap, hgap, hspace⟩ := exists_separator indent depth
    rw [writeFields, hgap] at hfuel
    simp only [List.length_append, List.length_cons] at hfuel
    obtain ⟨fuel, rfl⟩ : ∃ left, fuel = left + 1 := ⟨fuel - 1, by omega⟩
    -- The other fields are read after the separator, for which one unit of fuel is used.
    have hfs := ih (fun f hf => hplain f (.tail _ hf)) (fun f hf => hread f (.tail _ hf))
      (fun f hf => hdeep f (.tail _ hf)) fuel (by omega)
    rw [writeText_append, ← skipSpace_of_not_space rfl, ← skipSpace_append hspace] at hfs
    simp only [writeText_append, writeFields, hgap, List.cons_append, List.append_assoc,
      List.nil_append] at hfs ⊢
    refine fields_more (fun _ => stringBody_writeText _ _ _) ?_ (skipSpace_of_not_space rfl) hfs
    rw [skipSpace_cons_of_space rfl, skipSpace_writeAt (hplain (k, v) List.mem_cons_self)]
    exact hv (endsNumber_comma _) (by omega) (hdeep (k, v) List.mem_cons_self)

/-- Where a bracket may be opened, one is left for it. -/
theorem exists_brackets {nested brackets : Nat} (h : nested + 1 ≤ brackets) :
    ∃ left, brackets = left + 1 ∧ nested ≤ left := ⟨brackets - 1, by omega, by omega⟩

theorem readsBack_array (hplain : ∀ v ∈ items, v.Plain) (hread : ∀ v ∈ items, ReadsBack indent v) :
    ReadsBack indent (.array items) := by
  intro depth fuel brackets rest _ hfuel hdeep
  rw [Value.nesting] at hdeep
  obtain ⟨brackets, rfl, hbelow⟩ := exists_brackets hdeep
  obtain ⟨fuel, rfl⟩ := exists_fuel (.array hplain) hfuel
  cases items with
  | nil => rfl
  | cons v vs =>
    obtain ⟨c, t, hfront, hspace, hclose, -⟩ :=
      exists_writeAt_eq_cons (hplain v List.mem_cons_self) indent (depth + 1)
    simp only [writeAt, List.length_append, List.length_cons, List.length_nil] at hfuel
    have hvs := items_writeItems (depth + 1) depth fuel hplain hread
      (fun w hw => Nat.le_trans (Value.nesting_le_nestingAll hw) hbelow)
      (by rw [List.length_append]; omega) rest
    simp only [writeAt, List.append_assoc, List.singleton_append]
    rw [hfront, List.cons_append] at hvs ⊢
    exact value_list (skipSpace_lineBreak indent (depth + 1) hspace _) hclose hvs

theorem readsBack_object (hdistinct : (fields.map Prod.fst).Nodup)
    (hplain : ∀ f ∈ fields, f.2.Plain) (hread : ∀ f ∈ fields, ReadsBack indent f.2) :
    ReadsBack indent (.object fields) := by
  intro depth fuel brackets rest _ hfuel hdeep
  rw [Value.nesting] at hdeep
  obtain ⟨brackets, rfl, hbelow⟩ := exists_brackets hdeep
  obtain ⟨fuel, rfl⟩ := exists_fuel (.object hdistinct hplain) hfuel
  cases fields with
  | nil => rfl
  | cons f fs =>
    obtain ⟨k, v⟩ := f
    simp only [writeAt, List.length_append, List.length_cons, List.length_nil] at hfuel
    have hfs := fields_writeFields (depth + 1) depth fuel hplain hread
      (fun f hf => Nat.le_trans (Value.nesting_le_nestingFields hf) hbelow)
      (by rw [List.length_append]; omega) rest
    simp only [writeAt, List.append_assoc, List.cons_append, List.nil_append]
    rw [writeText_append] at hfs ⊢
    have hread := value_object (skipSpace_lineBreak indent (depth + 1) rfl _) (by decide) hfs
    rwa [fieldsOf_of_nodup hdistinct] at hread

/-- **Values**: a plain value with short integers is read back wherever it is written. -/
theorem readsBack_of_plain (indent : Indent) (hplain : v.Plain)
    (hshort : v.hasShortIntegers = true) : ReadsBack indent v := by
  induction hplain with
  | null => exact readsBack_null indent
  | bool b => exact readsBack_bool indent b
  | int n => exact readsBack_int indent hshort
  | text t => exact readsBack_text indent t
  | array hplain ih =>
    rw [Value.hasShortIntegers, Value.allShort_iff] at hshort
    exact readsBack_array hplain fun v hv => ih v hv (hshort v hv)
  | object hdistinct hplain ih =>
    rw [Value.hasShortIntegers, Value.fieldsShort_iff] at hshort
    exact readsBack_object hdistinct hplain fun f hf => ih f hf (hshort f hf)

/-- **Documents**: reading what has been written for a plain value with short integers gives this
value, however it is laid out, where as many brackets may be opened as it has within each other. -/
theorem read_write (indent : Indent) (hplain : v.Plain) (hshort : v.hasShortIntegers = true)
    {brackets : Nat} (hdeep : v.nesting ≤ brackets) :
    read brackets (write indent v) = .ok v := by
  obtain ⟨c, t, hfront, hspace, -, hmark⟩ := exists_writeAt_eq_cons hplain indent 0
  have hend : EndsNumber [] := fun _ h => nomatch h
  have hvalue : value (2 * (writeAt indent 0 v).length + 2) brackets (writeAt indent 0 v ++ []) =
      .ok (v, []) := readsBack_of_plain indent hplain hshort hend (by omega) hdeep
  rw [List.append_nil, hfront] at hvalue
  have hread : readValue brackets (c :: t) = .ok v := by
    rw [readValue, if_neg (by simpa using hmark), skipSpace_of_not_space hspace, hvalue]
    rfl
  rw [read, write, hfront, hread]

end Json

end GrammarInference
