import GrammarInference.CharClass.Format
import Mathlib.Data.List.Basic

/-!
# Printed classes, read back

A printed class can be read without knowing how it was printed. Its text is taken apart into signs,
where a backslash takes away the meaning of the character behind it, or introduces the code of a
character (`Sign.read`). A text without brackets stands for its only sign. Between brackets every
sign stands for its character, and a dash for all characters from the one before it to the one
behind it (`CharClass.read`).

The main statement says that a class of characters below 256 is read back with exactly its members,
in their order, so that classes which are printed alike have the same members
(`CharClass.read_of_format`). Nothing can be said from 256 on, for a code has two digits: a third
one would be read as a character of its own.
-/

namespace GrammarInference

/-! ### Signs -/

/-- A character of a printed class, and whether it stands for itself whatever it is. -/
structure Sign where
  /-- The character. -/
  char : Char
  /-- Whether it has no other meaning than itself. -/
  escaped : Bool
  deriving Repr, DecidableEq

namespace Sign

/-- The sign that brackets begin with. -/
def opening : Sign := ⟨'[', false⟩

/-- The sign that brackets end with. -/
def closing : Sign := ⟨']', false⟩

/-- The sign between the ends of a range. -/
def dash : Sign := ⟨'-', false⟩

/-- Whether a sign is a bracket. -/
def isBracket (s : Sign) : Bool := s = opening || s = closing

/-- The signs of a text. After a backslash stands `x` with two hexadecimal digits, which are a code,
or any other character. -/
def read : Text → Option (List Sign)
  | [] => some []
  | [c] => if c = '\\' then none else some [⟨c, false⟩]
  | c :: d :: rest =>
    if c ≠ '\\' then (read (d :: rest)).map (⟨c, false⟩ :: ·)
    else if d ≠ 'x' then (read rest).map (⟨d, true⟩ :: ·)
    else match rest with
      | high :: low :: rest => do
        let a ← Text.hexValue? high
        let b ← Text.hexValue? low
        (read rest).map (⟨Char.ofNat (16 * a + b), true⟩ :: ·)
      | _ => none

/-- The sign that a character is printed as, where the characters in `special` have a meaning. -/
def of (special : List Char) (c : Char) : Sign :=
  ⟨c, decide (c ∈ special ∨ c = '\\' ∨ ¬ (0x20 ≤ c.toNat ∧ c.toNat ≤ 0x7e))⟩

theorem read_cons {c : Char} (hc : c ≠ '\\') (rest : Text) :
    read (c :: rest) = (read rest).map (⟨c, false⟩ :: ·) := by
  cases rest with
  | nil => simp [read, hc]
  | cons d rest =>
    conv_lhs => unfold read
    rw [if_pos hc]

theorem read_escaped {d : Char} (hd : d ≠ 'x') (rest : Text) :
    read ('\\' :: d :: rest) = (read rest).map (⟨d, true⟩ :: ·) := by
  conv_lhs => unfold read
  rw [if_neg (by simp), if_pos hd]

/-- A code of two digits is read as its character. -/
theorem read_code {c : Char} (hc : c.toNat < 256) (rest : Text) :
    read (CharClass.escapeCode c ++ rest) = (read rest).map (⟨c, true⟩ :: ·) := by
  have hlog : c.toNat.log2 < 8 := by
    rcases Nat.eq_zero_or_pos c.toNat with h | h
    · rw [h]; decide
    · exact (Nat.log2_lt (by omega)).mpr hc
  have hwidth : max 2 (Text.hexWidth c.toNat) = 2 := by
    unfold Text.hexWidth
    omega
  have hvalue : ∀ m, Text.hexValue? (Text.hexDigit (m % 16)) = some (m % 16) := fun m =>
    Text.hexValue?_hexDigit (Nat.mod_lt m (by decide))
  have hcode : 16 * (c.toNat / 16 % 16) + c.toNat % 16 = c.toNat := by omega
  rw [CharClass.escapeCode, Text.hex, hwidth]
  simp only [Text.hexDigits, List.nil_append, List.cons_append]
  conv_lhs => unfold read
  rw [if_neg (by simp), if_neg (by simp)]
  simp only [hvalue, Option.bind_eq_bind, Option.bind_some, hcode, Char.ofNat_toNat]

/-- **One character.** A printed character is read as its sign. -/
theorem read_escapeChar {special : List Char} (hx : 'x' ∉ special) {c : Char} (hc : c.toNat < 256)
    (rest : Text) :
    read (CharClass.escapeChar special c ++ rest) = (read rest).map (of special c :: ·) := by
  unfold CharClass.escapeChar of
  split_ifs with hspecial hplain
  · have hne : c ≠ 'x' := by
      rintro rfl
      exact hspecial.elim hx (by decide)
    rw [List.cons_append, List.cons_append, List.nil_append, read_escaped hne,
      decide_eq_true (hspecial.imp_right .inl)]
  · obtain ⟨hmem, hne⟩ := not_or.mp hspecial
    rw [List.singleton_append, read_cons hne, decide_eq_false]
    rintro (h | h | h)
    exacts [hmem h, hne h, h hplain]
  · rw [read_code hc, decide_eq_true (.inr (.inr hplain))]

@[simp] theorem read_nil : read [] = some [] := rfl

/-- What is escaped is neither a bracket nor a dash. -/
theorem of_ne {special : List Char} {c d : Char} (hd : d ∈ special) :
    of special c ≠ ⟨d, false⟩ := by
  intro h
  obtain ⟨rfl, hescaped⟩ := Sign.mk.inj h
  exact of_decide_eq_false hescaped (.inl hd)

end Sign

namespace CharClass

/-! ### Classes -/

/-- The characters from `first` to `last`. -/
def charsBetween (first last : Char) : List Char :=
  (List.range' first.toNat (last.toNat + 1 - first.toNat)).map Char.ofNat

/-- The characters that the signs between brackets stand for. -/
def members : List Sign → Option (List Char)
  | first :: second :: third :: rest =>
    if first = .dash then none
    else if second = .dash then
      if third = .dash then none
      else (members rest).map (charsBetween first.char third.char ++ ·)
    else (members (second :: third :: rest)).map (first.char :: ·)
  | signs => if .dash ∈ signs then none else some (signs.map Sign.char)

/-- The characters that the signs of a class stand for: those between a pair of brackets around all
other signs, or the only one. -/
def denoted : List Sign → Option (List Char)
  | [] => none
  | first :: rest =>
    if first = .opening then
      if rest.getLast? = some .closing ∧ ¬ rest.dropLast.any Sign.isBracket then
        members rest.dropLast
      else none
    else if rest.isEmpty ∧ ¬ first.isBracket then some [first.char] else none

/-- The characters that a printed class stands for. -/
def read (t : Text) : Option (List Char) := (Sign.read t).bind denoted

/-! ### Stretches -/

theorem charsBetween_self (c : Char) : charsBetween c c = [c] := by
  simp [charsBetween]

/-- A range with a character in front of it. -/
theorem charsBetween_cons {c first last : Char} (hc : c.toNat + 1 = first.toNat)
    (h : first.toNat ≤ last.toNat) : charsBetween c last = c :: charsBetween first last := by
  have hcount : last.toNat + 1 - c.toNat = (last.toNat + 1 - first.toNat) + 1 := by omega
  rw [charsBetween, hcount, List.range'_succ, List.map_cons, Char.ofNat_toNat, hc]
  rfl

/-- Putting a character in front of stretches puts it in front of the characters in them. -/
theorem flatMap_extendStretch (c : Char) {ss : List (Char × Char)}
    (h : ∀ s ∈ ss, s.1.toNat ≤ s.2.toNat) :
    (∀ s ∈ extendStretch c ss, s.1.toNat ≤ s.2.toNat) ∧
      (extendStretch c ss).flatMap (fun s => charsBetween s.1 s.2) =
        c :: ss.flatMap fun s => charsBetween s.1 s.2 := by
  cases ss with
  | nil => simp [extendStretch, charsBetween_self]
  | cons s rest =>
    obtain ⟨hs, hrest⟩ := List.forall_mem_cons.mp h
    rw [extendStretch]
    split_ifs with hnext
    · refine ⟨List.forall_mem_cons.mpr ⟨by dsimp only; omega, hrest⟩, ?_⟩
      rw [List.flatMap_cons, List.flatMap_cons, charsBetween_cons hnext hs, List.cons_append]
    · refine ⟨List.forall_mem_cons.mpr ⟨Nat.le_refl _, h⟩, ?_⟩
      rw [List.flatMap_cons, charsBetween_self, List.singleton_append]

/-- **Nothing is lost in stretches.** The characters in the stretches of a list are the list. -/
theorem flatMap_stretches (cs : List Char) :
    (∀ s ∈ stretches cs, s.1.toNat ≤ s.2.toNat) ∧
      (stretches cs).flatMap (fun s => charsBetween s.1 s.2) = cs := by
  induction cs with
  | nil => simp [stretches]
  | cons c cs ih =>
    obtain ⟨hordered, hchars⟩ := flatMap_extendStretch c ih.1
    rw [ih.2] at hchars
    exact ⟨hordered, hchars⟩

/-- The signs of a stretch. -/
def stretchSigns (s : Char × Char) : List Sign :=
  if s.1.toNat + 2 ≤ s.2.toNat then [.of bracketSpecial s.1, .dash, .of bracketSpecial s.2]
  else if s.1 = s.2 then [.of bracketSpecial s.1]
  else [.of bracketSpecial s.1, .of bracketSpecial s.2]

theorem read_formatStretch {s : Char × Char} (h₁ : s.1.toNat < 256) (h₂ : s.2.toNat < 256)
    (rest : Text) :
    Sign.read (formatStretch s ++ rest) = (Sign.read rest).map (stretchSigns s ++ ·) := by
  have hx : 'x' ∉ bracketSpecial := by decide
  unfold formatStretch stretchSigns
  dsimp only
  split_ifs
  · rw [List.append_assoc, List.append_assoc, Sign.read_escapeChar hx h₁, List.singleton_append,
      Sign.read_cons (by decide), Sign.read_escapeChar hx h₂]
    simp only [Option.map_map]
    rfl
  · rw [Sign.read_escapeChar hx h₁]
    rfl
  · rw [List.append_assoc, Sign.read_escapeChar hx h₁, Sign.read_escapeChar hx h₂]
    simp only [Option.map_map]
    rfl

theorem of_ne_dash (c : Char) : Sign.of bracketSpecial c ≠ .dash := Sign.of_ne (by decide)

/-- The signs of a stretch begin with its first character. -/
theorem exists_stretchSigns (s : Char × Char) :
    ∃ rest, stretchSigns s = .of bracketSpecial s.1 :: rest := by
  unfold stretchSigns
  split_ifs <;> exact ⟨_, rfl⟩

theorem isBracket_of_special {special : List Char} (hopening : '[' ∈ special)
    (hclosing : ']' ∈ special) (c : Char) : (Sign.of special c).isBracket = false := by
  have h₁ : Sign.of special c ≠ .opening := Sign.of_ne hopening
  have h₂ : Sign.of special c ≠ .closing := Sign.of_ne hclosing
  simp [Sign.isBracket, h₁, h₂]

theorem isBracket_of_mem_stretchSigns {s : Char × Char} {sign : Sign}
    (h : sign ∈ stretchSigns s) : sign.isBracket = false := by
  have hof : ∀ c, (Sign.of bracketSpecial c).isBracket = false :=
    isBracket_of_special (by decide) (by decide)
  unfold stretchSigns at h
  split_ifs at h
  · simp only [List.mem_cons, List.not_mem_nil, or_false] at h
    rcases h with rfl | rfl | rfl
    exacts [hof _, rfl, hof _]
  · rw [List.mem_singleton.mp h]
    exact hof _
  · simp only [List.mem_cons, List.not_mem_nil, or_false] at h
    rcases h with rfl | rfl
    exacts [hof _, hof _]

/-! ### Between brackets -/

/-- A sign that no dash follows stands for its character. -/
theorem members_cons {s : Sign} {rest : List Sign} (hs : s ≠ .dash)
    (hrest : ∀ t ∈ rest.head?, t ≠ .dash) :
    members (s :: rest) = (members rest).map (s.char :: ·) := by
  match rest with
  | [] => simp [members, hs.symm]
  | [t] =>
    have ht : t ≠ .dash := hrest t rfl
    simp [members, hs.symm, ht.symm]
  | t :: u :: rest =>
    have ht : t ≠ .dash := hrest t rfl
    rw [members, if_neg hs, if_neg ht]

theorem members_range {s t : Sign} {rest : List Sign} (hs : s ≠ .dash) (ht : t ≠ .dash) :
    members (s :: .dash :: t :: rest) =
      (members rest).map (charsBetween s.char t.char ++ ·) := by
  rw [members, if_neg hs, if_pos rfl, if_neg ht]

/-- The signs of a stretch stand for the characters in it, if no dash follows. -/
theorem members_stretchSigns {s : Char × Char} (hs : s.1.toNat ≤ s.2.toNat) {rest : List Sign}
    (hrest : ∀ t ∈ rest.head?, t ≠ .dash) :
    members (stretchSigns s ++ rest) = (members rest).map (charsBetween s.1 s.2 ++ ·) := by
  unfold stretchSigns
  split_ifs with hlong hone
  · exact members_range (of_ne_dash _) (of_ne_dash _)
  · rw [← hone, charsBetween_self]
    exact members_cons (of_ne_dash _) hrest
  · have hne : s.1.toNat ≠ s.2.toNat := fun h => hone (Char.toNat_inj.mp h)
    have htwo : s.1.toNat + 1 = s.2.toNat := by omega
    rw [charsBetween_cons htwo (Nat.le_refl _), charsBetween_self, List.cons_append,
      members_cons (of_ne_dash _) (by simp [of_ne_dash]), List.singleton_append,
      members_cons (of_ne_dash _) hrest, Option.map_map]
    rfl

/-- The signs of stretches stand for the characters in the stretches. -/
theorem members_flatMap {ss : List (Char × Char)} (h : ∀ s ∈ ss, s.1.toNat ≤ s.2.toNat) :
    members (ss.flatMap stretchSigns) = some (ss.flatMap fun s => charsBetween s.1 s.2) := by
  induction ss with
  | nil => rfl
  | cons s ss ih =>
    obtain ⟨hs, hss⟩ := List.forall_mem_cons.mp h
    -- Whatever comes next begins with the first character of a stretch, which is no dash.
    have hnext : ∀ t ∈ (ss.flatMap stretchSigns).head?, t ≠ .dash := by
      cases ss with
      | nil => simp
      | cons s' ss =>
        obtain ⟨rest, hrest⟩ := exists_stretchSigns s'
        simp [hrest, of_ne_dash]
    rw [List.flatMap_cons, List.flatMap_cons, members_stretchSigns hs hnext, ih hss]
    rfl

/-- The ends of a stretch are characters in it. -/
theorem mem_of_mem_stretches {cs : List Char} {s : Char × Char} (hs : s ∈ stretches cs) :
    s.1 ∈ cs ∧ s.2 ∈ cs := by
  obtain ⟨hordered, hchars⟩ := flatMap_stretches cs
  have hle := hordered s hs
  have hmem : ∀ c : Char, s.1.toNat ≤ c.toNat → c.toNat ≤ s.2.toNat → c ∈ cs := by
    intro c h₁ h₂
    rw [← hchars]
    refine List.mem_flatMap.mpr ⟨s, hs, List.mem_map.mpr ⟨c.toNat, ?_, Char.ofNat_toNat c⟩⟩
    exact List.mem_range'_1.mpr ⟨h₁, by omega⟩
  exact ⟨hmem _ (Nat.le_refl _) hle, hmem _ hle (Nat.le_refl _)⟩

theorem read_stretches {ss : List (Char × Char)}
    (h : ∀ s ∈ ss, s.1.toNat < 256 ∧ s.2.toNat < 256) (rest : Text) :
    Sign.read (ss.flatMap formatStretch ++ rest) =
      (Sign.read rest).map (ss.flatMap stretchSigns ++ ·) := by
  induction ss with
  | nil => simp
  | cons s ss ih =>
    obtain ⟨⟨h₁, h₂⟩, hss⟩ := List.forall_mem_cons.mp h
    rw [List.flatMap_cons, List.append_assoc, read_formatStretch h₁ h₂, ih hss, Option.map_map]
    simp only [List.flatMap_cons, List.append_assoc, Function.comp_def]

/-! ### Printed classes -/

/-- A single character is read back. -/
theorem read_escapeChar {c : Char} (hc : c.toNat < 256) :
    read (escapeChar grammarSpecial c) = some [c] := by
  have hcode : 'x' ∉ grammarSpecial := by decide
  have hopening : '[' ∈ grammarSpecial := by decide
  have hclosing : ']' ∈ grammarSpecial := by decide
  have hsigns := Sign.read_escapeChar hcode hc []
  rw [List.append_nil] at hsigns
  have hne : Sign.of grammarSpecial c ≠ .opening := Sign.of_ne hopening
  rw [read, hsigns]
  simp only [Sign.read_nil, Option.map_some, Option.bind_some, denoted, if_neg hne,
    isBracket_of_special hopening hclosing]
  rfl

/-- Stretches between brackets are read back. -/
theorem read_brackets {cs : List Char} (h : ∀ c ∈ cs, c.toNat < 256) :
    read (['['] ++ (stretches cs).flatMap formatStretch ++ [']']) = some cs := by
  obtain ⟨hordered, hchars⟩ := flatMap_stretches cs
  have hends : ∀ s ∈ stretches cs, s.1.toNat < 256 ∧ s.2.toNat < 256 := fun s hs =>
    (mem_of_mem_stretches hs).imp (h _) (h _)
  have hsigns := read_stretches hends [']']
  have hplain : ((stretches cs).flatMap stretchSigns).any Sign.isBracket = false := by
    refine List.any_eq_false.mpr fun sign hsign => ?_
    obtain ⟨s, -, hs⟩ := List.mem_flatMap.mp hsign
    simp [isBracket_of_mem_stretchSigns hs]
  rw [read, List.append_assoc, List.singleton_append, Sign.read_cons (by decide), hsigns]
  simp [denoted, Sign.read, Sign.opening, Sign.closing, hplain, members_flatMap hordered, hchars]

/-- **Reading back.** The characters of a printed class are read back. -/
theorem read_formatChars {cs : List Char} (hne : cs ≠ []) (h : ∀ c ∈ cs, c.toNat < 256) :
    read (formatChars cs) = some cs := by
  match cs with
  | [] => exact absurd rfl hne
  | [c] => exact read_escapeChar (h c (.head _))
  | c :: d :: cs => exact read_brackets h

/-- A class with members, all of which are characters below 256. -/
structure OfBytes (k : CharClass) : Prop where
  nonempty : k.characters ≠ []
  bytes : ∀ s ∈ k.characters, ∃ c : Char, s = Symbol.ofChar c ∧ c.toNat < 256

theorem OfBytes.map_chars {k : CharClass} (hk : k.OfBytes) :
    k.chars.map Symbol.ofChar = k.characters := by
  have h := hk.bytes
  unfold chars
  generalize k.characters = ss at h
  induction ss with
  | nil => rfl
  | cons s rest ih =>
    obtain ⟨⟨c, rfl, -⟩, hrest⟩ := List.forall_mem_cons.mp h
    rw [List.filterMap_cons_some (Symbol.char?_ofChar c), List.map_cons, ih hrest]

theorem OfBytes.format?_eq_ok {k : CharClass} (hk : k.OfBytes) : k.format? = .ok k.format := by
  have hall : k.characters.all (fun s => s.char?.isSome) = true := by
    refine List.all_eq_true.mpr fun s hs => ?_
    obtain ⟨c, rfl, -⟩ := hk.bytes s hs
    rfl
  rw [format?, if_pos hall, if_neg (by simpa using hk.nonempty)]

theorem OfBytes.read_format {k : CharClass} (hk : k.OfBytes) : read k.format = some k.chars := by
  refine read_formatChars (fun hnil => hk.nonempty ?_) fun c hc => ?_
  · rw [← hk.map_chars, hnil]
    rfl
  · have hmem : Symbol.ofChar c ∈ k.characters := hk.map_chars ▸ List.mem_map_of_mem hc
    obtain ⟨c', heq, hc'⟩ := hk.bytes _ hmem
    rwa [Symbol.ofChar_injective heq]

/-- **Printed classes.** A class of characters below 256 can be printed, and what is printed stands
for its members, in their order. Any other such class that is printed alike has the same members. -/
theorem read_of_format {k : CharClass} (hk : k.OfBytes) :
    ∃ t cs, k.format? = .ok t ∧ read t = some cs ∧ cs.map Symbol.ofChar = k.characters ∧
      ∀ k' : CharClass, k'.OfBytes → k'.format? = .ok t → k'.characters = k.characters := by
  refine ⟨_, _, hk.format?_eq_ok, hk.read_format, hk.map_chars, fun k' hk' ht => ?_⟩
  have hformat : k'.format = k.format := Except.ok.inj (hk'.format?_eq_ok.symm.trans ht)
  have hchars : some k'.chars = some k.chars := by
    rw [← hk'.read_format, hformat, hk.read_format]
  rw [← hk'.map_chars, Option.some.inj hchars, hk.map_chars]

/-- From 256 on a code has a third digit, which is read as a character of its own. -/
example : read (formatChars ['Ā']) = none := by rfl

/-- A class with a range up to a dash, a bracket, two neighbours and a character with a code. -/
def punctuated : CharClass := ofChars ['+', ',', '-', '[', 'a', 'b', 'ÿ']

/-- Of the two dashes in the printed class only the first one makes a range. -/
theorem read_of_format_punctuated :
    punctuated.OfBytes ∧ punctuated.format? = .ok "[+-\\-\\[ab\\xff]".toList ∧
      read "[+-\\-\\[ab\\xff]".toList = some ['+', ',', '-', '[', 'a', 'b', 'ÿ'] ∧
      ∀ k : CharClass, k.OfBytes → k.format? = .ok "[+-\\-\\[ab\\xff]".toList →
        k.characters = punctuated.characters := by
  have hmembers : punctuated.characters =
      ['+', ',', '-', '[', 'a', 'b', 'ÿ'].map Symbol.ofChar := by rfl
  have hbytes : punctuated.OfBytes := by
    have hcodes : (['+', ',', '-', '[', 'a', 'b', 'ÿ'].all fun c => c.toNat < 256) = true := by rfl
    refine ⟨by simp [hmembers], fun s hs => ?_⟩
    rw [hmembers] at hs
    obtain ⟨c, hc, rfl⟩ := List.mem_map.mp hs
    exact ⟨c, rfl, of_decide_eq_true (List.all_eq_true.mp hcodes c hc)⟩
  have hformat : punctuated.format? = .ok "[+-\\-\\[ab\\xff]".toList := by rfl
  obtain ⟨t, cs, ht, hread, hcs, hunique⟩ := read_of_format hbytes
  obtain rfl : _ = t := Except.ok.inj (hformat.symm.trans ht)
  rw [hmembers] at hcs
  rw [List.map_injective_iff.mpr (fun _ _ => Symbol.ofChar_injective) hcs] at hread
  exact ⟨hbytes, hformat, hread, hunique⟩

end CharClass

end GrammarInference
