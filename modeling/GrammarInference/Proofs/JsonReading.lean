import GrammarInference.Proofs.JsonTexts
import Mathlib.Data.List.TakeWhile

/-!
# What reading JSON leaves of a text

Every reader leaves an end of the text that it was given. It gives up on an integer only where the
text has more digits in a row than an integer may have, and on a surrogate only where an escape in
the text spells one (`Json.Reads`). All are proved together, since a reader that is put together
from others reads on what these have left.

For a whole text this says where those faults come from that are no mistakes in its form
(`Json.cause_of_read`).
-/

namespace GrammarInference

namespace Json

/-- Somewhere in a text there are so many digits in a row, and an integer may not have so many. -/
def HasLongInteger (t : Text) (count : Nat) : Prop :=
  ∃ ds : Text, ds <:+: t ∧ (∀ c ∈ ds, c.isDigit = true) ∧ ds.length = count ∧
    Number.mostDigits < count

/-- Somewhere in a text a surrogate is spelled by an escape. -/
def SpellsSurrogate (t : Text) : Prop :=
  ∃ a b c d code, ['\\', 'u', a, b, c, d] <:+: t ∧ unit? a b c d = some code ∧
    isSurrogate code = true

/-- What there is in a text where a problem arises that is no mistake in its form. -/
def Problem.Cause (t : Text) : Problem → Prop
  | .tooManyDigits count => HasLongInteger t count
  | .loneSurrogate => SpellsSurrogate t
  | _ => True

theorem Problem.Cause.mono {p : Problem} {t t' : Text} (h : p.Cause t) (ht : t <:+: t') :
    p.Cause t' := by
  cases p with
  | tooManyDigits count =>
    obtain ⟨ds, hds, hdigits⟩ := h
    exact ⟨ds, hds.trans ht, hdigits⟩
  | loneSurrogate =>
    obtain ⟨a, b, c, d, code, hescape, hcode⟩ := h
    exact ⟨a, b, c, d, code, hescape.trans ht, hcode⟩
  | _ => trivial

/-- What a reader makes of a text: it leaves an end of the text, or there is a cause for its
fault. -/
def Reads {α : Type} (t : Text) : Except Fault (α × Text) → Prop
  | .ok (_, rest) => rest <:+ t
  | .error f => f.problem.Cause t

namespace Reads

variable {α β : Type} {t t' : Text} {r : Except Fault (α × Text)}

/-- What is made of an end of a text is made of the text. -/
theorem of_suffix (h : Reads t r) (ht : t <:+ t') : Reads t' r := by
  rcases r with f | ⟨x, rest⟩
  · exact Problem.Cause.mono h ht.isInfix
  · exact List.IsSuffix.trans h ht

theorem map (h : Reads t r) (f : α → β) : Reads t (r.map fun p => (f p.1, p.2)) := by
  cases r with
  | error f => exact h
  | ok p => exact h

/-- Readers one after another, the second on what the first one leaves. -/
theorem bind {next : α × Text → Except Fault (β × Text)} (h : Reads t r)
    (hnext : ∀ x rest, Reads rest (next (x, rest))) : Reads t (r >>= next) := by
  rcases r with f | ⟨x, rest⟩
  · exact h
  · exact (hnext x rest).of_suffix h

end Reads

/-! ### Strings -/

/-- A code that an escape spells is given up on only if it is that of a surrogate. -/
theorem reads_consCode {a b c d : Char} {code ahead : Nat} (hcode : unit? a b c d = some code)
    {rest : Text} {more : Except Fault (Text × Text)} (h : Reads rest more) :
    Reads ('\\' :: 'u' :: a :: b :: c :: d :: rest) (consCode code ahead more) := by
  cases more with
  | error f => exact h.of_suffix ⟨['\\', 'u', a, b, c, d], rfl⟩
  | ok p =>
    rw [consCode]
    split
    · next hsurrogate => exact ⟨a, b, c, d, code, ⟨[], rest, rfl⟩, hcode, hsurrogate⟩
    · exact Reads.of_suffix h ⟨['\\', 'u', a, b, c, d], rfl⟩

/-- The code of no surrogate is not given up on. -/
theorem reads_consCode_of_eq_false {code ahead : Nat} (hcode : isSurrogate code = false)
    {t rest : Text} {more : Except Fault (Text × Text)} (h : Reads rest more) (ht : rest <:+ t) :
    Reads t (consCode code ahead more) := by
  cases more with
  | error f => exact h.of_suffix ht
  | ok p =>
    rw [consCode, hcode, if_neg Bool.false_ne_true]
    exact Reads.of_suffix h ht

/-- A pair of surrogates stands for a character beyond them. -/
theorem isSurrogate_pairCode (high low : Nat) : isSurrogate (pairCode high low) = false := by
  have hbeyond : 0xe000 ≤ pairCode high low := by
    unfold pairCode
    omega
  rw [isSurrogate, decide_eq_false (Nat.not_lt.mpr hbeyond), Bool.and_false]

/-- A string leaves what stands behind its closing quote. -/
theorem reads_stringBody (whole : Nat) (t : Text) : Reads t (stringBody whole t) := by
  fun_induction stringBody whole t with
  | case2 rest => exact List.suffix_cons _ _
  | case6 a b c d e f g h rest high _ _ low _ _ ih =>
    have hrest : rest <:+
        '\\' :: 'u' :: a :: b :: c :: d :: '\\' :: 'u' :: e :: f :: g :: h :: rest :=
      ⟨['\\', 'u', a, b, c, d, '\\', 'u', e, f, g, h], rfl⟩
    have hcode := isSurrogate_pairCode high low
    -- the number itself would be computed with
    generalize pairCode high low = code at hcode ⊢
    exact reads_consCode_of_eq_false hcode ih hrest
  | case7 a b c d e f g h rest high hhigh _ low _ _ ih => exact reads_consCode hhigh ih
  | case8 a b c d e f g h rest high hhigh _ ih => exact reads_consCode hhigh ih
  | case10 a b c d next rest _ code hcode ih => exact reads_consCode hcode ih
  | case13 c rest _ _ _ x _ ih => exact (ih.map _).of_suffix ⟨['\\', c], rfl⟩
  | case15 c rest _ _ _ _ _ _ _ ih => exact (ih.map _).of_suffix (List.suffix_cons _ _)
  | _ => trivial

/-! ### Numbers -/

theorem digits_suffix (t : Text) : (digits t).2 <:+ t := List.dropWhile_suffix _

theorem fractionPart_suffix (t : Text) : (fractionPart t).2 <:+ t := by
  unfold fractionPart
  split
  · split
    · exact (digits_suffix _).trans (List.suffix_cons _ _)
    · exact List.suffix_rfl
  · exact List.suffix_rfl

theorem takeSign_suffix (t : Text) : (Number.takeSign t).2 <:+ t := by
  unfold Number.takeSign
  split
  · exact List.suffix_cons _ _
  · exact List.suffix_cons _ _
  · exact List.suffix_rfl

theorem exponentPart?_suffix (t : Text) : (exponentPart? t).2 <:+ t := by
  fun_cases exponentPart? t with
  | case2 c rest _ negative body hsign ds left _ hdigits =>
    have hbody := takeSign_suffix rest
    have hleft := digits_suffix body
    rw [hsign] at hbody
    rw [hdigits] at hleft
    exact (List.IsSuffix.trans hleft hbody).trans (List.suffix_cons _ _)
  | _ => exact List.suffix_rfl

/-- The whole part of a number consists of digits at the front of the text. -/
theorem of_wholePart? {t whole rest : Text} (h : wholePart? t = some (whole, rest)) :
    t = whole ++ rest ∧ ∀ c ∈ whole, c.isDigit = true := by
  unfold wholePart? at h
  split at h
  · cases h
    exact ⟨rfl, by simp⟩
  · split at h
    · cases h
      exact ⟨(List.takeWhile_append_dropWhile ..).symm, fun c hc => List.mem_takeWhile_imp hc⟩
    · cases h
  · cases h

/-- A number is given up on where its whole part has too many digits. -/
theorem reads_number (negative : Bool) {whole : Text} (hwhole : ∀ c ∈ whole, c.isDigit = true)
    (rest : Text) : Reads (whole ++ rest) (number negative whole rest) := by
  have hrest : (exponentPart? (fractionPart rest).2).2 <:+ whole ++ rest :=
    ((exponentPart?_suffix _).trans (fractionPart_suffix rest)).trans (List.suffix_append _ _)
  unfold number
  dsimp only
  split
  · split
    · next hlong =>
      exact ⟨whole, (List.prefix_append _ _).isInfix, hwhole, rfl, hlong⟩
    · exact hrest
  · exact hrest

/-- A word or a number at the front of a text. -/
theorem reads_scalar (t : Text) : Reads t (scalar t) := by
  fun_cases scalar t with
  | case1 => exact List.drop_suffix _ _
  | case2 _ negative body hsign whole rest hwhole =>
    obtain ⟨rfl, hdigits⟩ := of_wholePart? hwhole
    refine (reads_number negative hdigits rest).of_suffix ?_
    split at hsign
    · cases hsign
      exact List.suffix_cons _ _
    · cases hsign
      exact List.suffix_rfl
  | case3 => exact trivial

/-! ### Values -/

theorem skipSpace_suffix (t : Text) : skipSpace t <:+ t := List.dropWhile_suffix _

theorem suffix_of_skipSpace {c : Char} {t left : Text} (h : skipSpace t = c :: left) :
    left <:+ t := by
  have ht := skipSpace_suffix t
  rw [h] at ht
  exact (List.suffix_cons c left).trans ht

-- The induction is on the fuel, of which a part of a value gets one less than the value.
mutual

theorem reads_value : ∀ (fuel brackets : Nat) (t : Text), Reads t (value fuel brackets t)
  | 0, _, _ => trivial
  | fuel + 1, brackets, t => by
    rw [value.eq_def]
    dsimp only
    split
    · exact ((reads_stringBody _ _).map _).of_suffix (List.suffix_cons _ _)
    · next rest =>
      refine Reads.of_suffix ?_ (List.suffix_cons '[' rest)
      split
      · trivial
      · split
        · next hclose => exact suffix_of_skipSpace hclose
        · exact ((reads_items fuel _ _).map _).of_suffix (skipSpace_suffix rest)
    · next rest =>
      refine Reads.of_suffix ?_ (List.suffix_cons '{' rest)
      split
      · trivial
      · split
        · next hclose => exact suffix_of_skipSpace hclose
        · refine Reads.of_suffix ?_ (skipSpace_suffix rest)
          exact (reads_fields fuel _ _).map fun fs => Value.object (fieldsOf fs)
    · exact reads_scalar t

theorem reads_items : ∀ (fuel brackets : Nat) (t : Text), Reads t (items fuel brackets t)
  | 0, _, _ => trivial
  | fuel + 1, brackets, t => by
    rw [items]
    refine (reads_value fuel _ t).bind fun v rest => ?_
    dsimp only
    split
    · next hclose => exact suffix_of_skipSpace hclose
    · next hcomma =>
      have hmore := (skipSpace_suffix _).trans (suffix_of_skipSpace hcomma)
      refine Reads.of_suffix ?_ hmore
      exact (reads_items fuel _ _).bind fun vs left => List.suffix_rfl
    · exact trivial

theorem reads_fields : ∀ (fuel brackets : Nat) (t : Text), Reads t (fields fuel brackets t)
  | 0, _, _ => trivial
  | fuel + 1, brackets, t => by
    rw [fields.eq_def]
    dsimp only
    split
    · refine Reads.of_suffix ?_ (List.suffix_cons '"' _)
      refine (reads_stringBody _ _).bind fun name rest => ?_
      dsimp only
      split
      · next hcolon =>
        have hvalue := (skipSpace_suffix _).trans (suffix_of_skipSpace hcolon)
        refine Reads.of_suffix ?_ hvalue
        refine (reads_value fuel _ _).bind fun v rest => ?_
        dsimp only
        split
        · next hclose => exact suffix_of_skipSpace hclose
        · next hcomma =>
          have hmore := (skipSpace_suffix _).trans (suffix_of_skipSpace hcomma)
          refine Reads.of_suffix ?_ hmore
          exact (reads_fields fuel _ _).bind fun fs left => List.suffix_rfl
        · exact trivial
      · exact trivial
    · exact trivial

end

/-! ### Whole texts -/

theorem cause_of_readValue {brackets : Nat} {t : Text} {f : Fault}
    (h : readValue brackets t = .error f) : f.problem.Cause t := by
  unfold readValue at h
  split at h
  · cases h
    trivial
  · have hreads := (reads_value (2 * t.length + 2) brackets (skipSpace t)).of_suffix
      (skipSpace_suffix t)
    cases hv : value (2 * t.length + 2) brackets (skipSpace t) with
    | error g =>
      rw [hv] at h hreads
      cases h
      exact hreads
    | ok p =>
      rw [hv] at h
      dsimp only [bind, Except.bind] at h
      split at h
      · cases h
      · cases h
        trivial

/-- **Causes.** Where reading gives up on an integer for its digits, the text has so many digits in
a row, and where it gives up on a surrogate, an escape in the text spells one. -/
theorem cause_of_read {brackets : Nat} {t : Text} {e : ReadError}
    (h : read brackets t = .error e) : e.problem.Cause t := by
  unfold read at h
  split at h
  · cases h
  · next f hf =>
    cases h
    exact cause_of_readValue hf

/-- Conversely a text of digits alone is given up on if they are too many for an integer. -/
theorem read_of_digits {c : Char} {ds : Text} (hc : c ≠ '0')
    (hdigits : ∀ d ∈ c :: ds, d.isDigit = true) (hlong : Number.mostDigits < (c :: ds).length)
    (brackets : Nat) : ∃ e, read brackets (c :: ds) = .error e ∧
      e.problem = .tooManyDigits (c :: ds).length := by
  have hdigit : c.isDigit = true := hdigits c List.mem_cons_self
  have hne : ∀ d : Char, d.isDigit = false → c ≠ d := by
    rintro d hd rfl
    rw [hdigit] at hd
    cases hd
  have hwhole : wholePart? (c :: ds) = some (c :: ds, []) := by
    rw [wholePart?, if_pos hdigit, digits, List.takeWhile_eq_self_iff.mpr hdigits,
      List.dropWhile_eq_nil_iff.mpr hdigits]
    exact fun h => hc h
  have hnumber : number false (c :: ds) [] = .error ⟨.tooManyDigits (c :: ds).length, 0⟩ := by
    unfold number
    exact if_pos hlong
  have hvalue : value (2 * (c :: ds).length + 2) brackets (c :: ds) =
      .error ⟨.tooManyDigits (c :: ds).length, 0⟩ := by
    rw [value_of_scalar (hne '"' rfl) (hne '[' rfl) (hne '{' rfl),
      scalar_of_ne_minus (find?_words_eq_none hdigit ds).1 (hne '-' rfl) hwhole, hnumber]
  have hread : readValue brackets (c :: ds) = .error ⟨.tooManyDigits (c :: ds).length, 0⟩ := by
    rw [readValue, if_neg (by simpa using hne '\uFEFF' rfl),
      skipSpace_of_not_space (isSpace_eq_false fun d _ => hne d), hvalue]
    rfl
  exact ⟨_, by rw [read, hread], rfl⟩

end Json

end GrammarInference
