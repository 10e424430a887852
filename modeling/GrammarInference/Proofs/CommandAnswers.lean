import GrammarInference.Proofs.OracleFaults

/-!
# What a command answers

A query to a command is refused unasked, or it is blocked by a fault before any program is started,
or a program is started for it (`Command.blocks_or_starts`). Each of the three decides the reply, so
that the answers can be told exactly: a query is accepted if and only if its program was run to the
end and exited with status zero (`Command.answers_exact`).

An oracle is meant to fail in one way only, with a reported failure (`OracleFault.failed`). What
goes wrong with a program that is started is reported, a time limit that is too long to wait for
apart. What goes wrong before is not: a line that cannot be cut into words or has none, and a query
that has no form in the encoding of the program's input, end the query with faults of their own
(`Command.unreported_faults`). These four are all (`Command.Escapes`).
-/

namespace GrammarInference

variable {σ : Type}

/-- The queries that a length rule allows. -/
def LengthRule.Allows : LengthRule → Text → Prop
  | .any, _ => True
  | .exactly n, query => (query.length : Int) = n
  | .between low high, query => low ≤ (query.length : Int) ∧ (query.length : Int) ≤ high

theorem LengthRule.violation?_eq_none {r : LengthRule} {query : Text} :
    r.violation? query = none ↔ r.Allows query := by
  rw [violation?_eq_none_iff]
  cases r <;> rfl

/-- A failure that an oracle reports as such. -/
def OracleFault.IsReported (f : OracleFault) : Prop := ∃ message, f = .failed message

namespace Command

variable {c : Command} {launcher : Launcher σ} {query : Text} {world : σ} {l : Launch}
  {f : OracleFault} {words : List Text} {bytes : Bytes}

/-! ### Before a program is started -/

/-- The query has a length that is not allowed, or would be an argument with a null character. -/
def Refuses (c : Command) (query : Text) : Prop :=
  ¬ c.length.Allows query ∨ (c.mode = .argument ∧ '\x00' ∈ query)

/-- The words and the standard input that a query makes of the command line. -/
inductive Puts (c : Command) (query : Text) : List Text → Bytes → Prop
  /-- The query takes the place of each mark. -/
  | argument {words : List Text} (hmode : c.mode = .argument)
    (hwords : Words.split c.line = .ok words) :
    Puts c query (words.map (Text.replaceAll mark query)) []
  /-- The query is the standard input. -/
  | input {words : List Text} {bytes : Bytes} (hmode : c.mode = .input)
    (hwords : Words.split c.line = .ok words) (hbytes : c.encoding.encode query = .ok bytes) :
    Puts c query words bytes

/-- A fault that is met before any program is started. -/
inductive Blocks (c : Command) (query : Text) : OracleFault → Prop
  /-- The line cannot be cut into words. -/
  | badCommand {fault : Words.Fault} (h : Words.split c.line = .error fault) :
    Blocks c query (.badCommand fault)
  /-- The query cannot be the standard input. -/
  | unencodable {words : List Text} {fault : Encoding.EncodeFault} (hmode : c.mode = .input)
    (hwords : Words.split c.line = .ok words) (h : c.encoding.encode query = .error fault) :
    Blocks c query (.unencodable fault)
  /-- There is no word that could name a program. -/
  | emptyCommand {bytes : Bytes} (h : c.Puts query [] bytes) : Blocks c query .emptyCommand
  /-- A word contains a null character. -/
  | null {words : List Text} {bytes : Bytes} {word : Text} (h : c.Puts query words bytes)
    (hword : word ∈ words) (hnull : '\x00' ∈ word) :
    Blocks c query (c.notRun "embedded null byte".toList)

/-- What is started for a query. -/
structure Starts (c : Command) (query : Text) (l : Launch) : Prop where
  puts : c.Puts query (l.program :: l.arguments) l.input
  plain : ∀ word ∈ l.program :: l.arguments, '\x00' ∉ word
  timeout : l.timeout = c.timeout

/-- There is an objection to a query exactly if the command refuses it. -/
theorem refuses_iff : c.Refuses query ↔ c.objection? query ≠ none := by
  unfold Refuses objection?
  rw [← LengthRule.violation?_eq_none]
  split
  · next h => simp [h]
  · next h => simp [h]

theorem Puts.invocation (h : c.Puts query words bytes) :
    ∃ i, c.invocation query = .ok i ∧ i.words = words ∧ i.input.getD [] = bytes := by
  cases h with
  | argument hmode hwords =>
    exact ⟨⟨_, none⟩, by simp [Command.invocation, hwords, hmode], rfl, rfl⟩
  | input hmode hwords hbytes =>
    exact ⟨⟨_, some _⟩, by simp [Command.invocation, hwords, hmode, hbytes], rfl, rfl⟩

/-- A command line is put together with a query, or one of the two has no proper form. -/
theorem puts_or_blocks (c : Command) (query : Text) :
    (∃ words bytes, c.Puts query words bytes) ∨
      ∃ f, c.Blocks query f ∧ c.invocation query = .error f := by
  unfold invocation
  cases hwords : Words.split c.line with
  | error fault => exact .inr ⟨_, .badCommand hwords, rfl⟩
  | ok words =>
    cases hmode : c.mode with
    | argument => exact .inl ⟨_, _, .argument hmode hwords⟩
    | input =>
      cases hbytes : c.encoding.encode query with
      | error fault => exact .inr ⟨_, .unencodable hmode hwords hbytes, rfl⟩
      | ok bytes => exact .inl ⟨_, _, .input hmode hwords hbytes⟩

/-- **What a query leads to.** A fault is met before any program is started, or a program is
started. -/
theorem blocks_or_starts (c : Command) (query : Text) :
    (∃ f, c.Blocks query f) ∨ ∃ l, c.Starts query l := by
  rcases puts_or_blocks c query with ⟨words, bytes, h⟩ | ⟨f, h, -⟩
  · by_cases hnull : ∃ word ∈ words, '\x00' ∈ word
    · obtain ⟨word, hword, hnull⟩ := hnull
      exact .inl ⟨_, .null h hword hnull⟩
    · cases words with
      | nil => exact .inl ⟨_, .emptyCommand h⟩
      | cons program arguments =>
        refine .inr ⟨⟨program, arguments, bytes, c.timeout⟩, h, fun word hword hmem => ?_, rfl⟩
        exact hnull ⟨word, hword, hmem⟩
  · exact .inl ⟨f, h⟩

/-- A query that is blocked fails with the fault, and nothing is started. -/
theorem run_of_blocks (h : c.Blocks query f) :
    c.run launcher query world = (⟨.error f, []⟩, world) := by
  cases h with
  | badCommand h => simp only [run, invocation, h]
  | unencodable hmode hwords h => simp only [run, invocation, hwords, hmode, h]
  | emptyCommand h =>
    obtain ⟨i, hi, hwords, -⟩ := h.invocation
    simp only [run, hi, hwords]
  | @null words bytes word h hword hnull =>
    obtain ⟨i, hi, rfl, -⟩ := h.invocation
    have hany : i.words.any (·.contains '\x00') = true :=
      List.any_eq_true.mpr ⟨word, hword, List.contains_iff_mem.mpr hnull⟩
    cases hwords : i.words with
    | nil =>
      rw [hwords] at hword
      cases hword
    | cons program arguments =>
      rw [hwords] at hany
      simp only [run, hi, hwords, hany, if_pos]

/-- What is started is judged by how it ends. -/
theorem run_of_starts (h : c.Starts query l) :
    c.run launcher query world = (c.judge l (launcher l world).1, (launcher l world).2) := by
  obtain ⟨i, hi, hwords, hinput⟩ := h.puts.invocation
  have hany : (l.program :: l.arguments).any (·.contains '\x00') = false := by
    refine List.any_eq_false.mpr fun word hword hmem => ?_
    exact h.plain word hword (List.contains_iff_mem.mp hmem)
  simp only [run, hi, hwords, hany, hinput, ← h.timeout, Bool.false_eq_true, if_false]

/-! ### Replies -/

/-- A query that the command refuses is rejected, and nothing is started. -/
theorem reply_of_refuses (h : c.Refuses query) :
    (c.reply launcher query world).1.verdict = .ok false ∧
      (c.reply launcher query world).2 = world := by
  obtain ⟨reason, hreason⟩ := Option.ne_none_iff_exists'.mp (refuses_iff.mp h)
  simp [reply, hreason]

theorem reply_of_not_refuses (h : ¬ c.Refuses query) :
    (c.reply launcher query world).1.verdict = (c.run launcher query world).1.verdict ∧
      (c.reply launcher query world).2 = (c.run launcher query world).2 := by
  have hnone : c.objection? query = none := Decidable.not_not.mp (mt refuses_iff.mpr h)
  simp [reply, hnone]

/-- **The answer.** A query is answered as refused, with the fault that blocks it, or by the end of
the program that is started for it. -/
theorem ask_eq_iff {r : Except OracleFault Bool} :
    (c.oracle launcher).ask query world = r ↔
      (c.Refuses query ∧ r = .ok false) ∨
        (¬ c.Refuses query ∧ ((∃ f, c.Blocks query f ∧ r = .error f) ∨
          ∃ l, c.Starts query l ∧ (c.judge l (launcher l world).1).verdict = r)) := by
  change (c.reply launcher query world).1.verdict = r ↔ _
  by_cases hrefuses : c.Refuses query
  · rw [(reply_of_refuses hrefuses).1]
    simp [hrefuses, eq_comm]
  · rw [(reply_of_not_refuses hrefuses).1]
    constructor
    · rintro rfl
      refine .inr ⟨hrefuses, ?_⟩
      rcases blocks_or_starts c query with ⟨f, hf⟩ | ⟨l, hl⟩
      · exact .inl ⟨f, hf, by rw [run_of_blocks hf]⟩
      · exact .inr ⟨l, hl, by rw [run_of_starts hl]⟩
    · rintro (⟨h, -⟩ | ⟨-, ⟨f, hf, rfl⟩ | ⟨l, hl, rfl⟩⟩)
      · exact absurd h hrefuses
      · rw [run_of_blocks hf]
      · rw [run_of_starts hl]

/-! ### How a program ends -/

/-- There is no time limit, or one that can be waited for. -/
def CanWait (c : Command) : Prop :=
  ∀ seconds ∈ c.timeout, seconds.isNaN = false ∧ ¬ Launch.longestTimeout < seconds

/-- The time limit is longer than can be waited for. -/
def TooLongTimeout (c : Command) : Prop :=
  ∃ seconds ∈ c.timeout, seconds.isNaN = false ∧ Launch.longestTimeout < seconds

/-- A time limit can be waited for, or it is too long, or it is not a number, which is reported. -/
theorem unwaitable?_cases (hl : l.timeout = c.timeout) :
    (c.CanWait ∧ ¬ c.TooLongTimeout ∧ c.unwaitable? l = none) ∨
      (¬ c.CanWait ∧ c.TooLongTimeout ∧ c.unwaitable? l = some .timeoutTooLong) ∨
        (¬ c.CanWait ∧ ¬ c.TooLongTimeout ∧ ∃ f, c.unwaitable? l = some f ∧ f.IsReported) := by
  unfold unwaitable? Launch.hasUnclearTimeout Launch.hasTooLongTimeout CanWait TooLongTimeout
  rw [hl]
  cases c.timeout with
  | none => simp
  | some seconds =>
    simp only [Option.mem_def, Option.some.injEq, forall_eq', exists_eq_left', Option.any_some,
      decide_eq_true_eq]
    by_cases hnan : seconds.isNaN = true
    · have hunclear : seconds.isNaN ≠ false := by
        rw [hnan]
        exact Bool.noConfusion
      exact .inr (.inr ⟨fun h => hunclear h.1, fun h => hunclear h.1, _, if_pos hnan, _, rfl⟩)
    · have hclear : seconds.isNaN = false := Bool.eq_false_iff.mpr hnan
      by_cases hlong : Launch.longestTimeout < seconds
      · exact .inr (.inl ⟨fun h => h.2 hlong, ⟨hclear, hlong⟩,
          (if_neg hnan).trans (if_pos hlong)⟩)
      · exact .inl ⟨⟨hclear, hlong⟩, fun h => hlong h.2, (if_neg hnan).trans (if_neg hlong)⟩

/-- A program gives an answer if it exits, within a time limit that can be waited for. -/
theorem verdict_judge_eq_ok (hl : l.timeout = c.timeout) {ending : Ending} {b : Bool} :
    (c.judge l ending).verdict = .ok b ↔
      c.CanWait ∧ ∃ status output, ending = .exited status output ∧ decide (status = 0) = b := by
  cases ending with
  | notStarted reason => simp [judge]
  | timedOut => simp [judge]
  | exited status output =>
    rcases unwaitable?_cases hl with ⟨hwait, -, h⟩ | ⟨hwait, -, h⟩ | ⟨hwait, -, f, h, -⟩
    · simp [judge, h, hwait]
    · simp [judge, h, hwait]
    · simp [judge, h, hwait]

/-- Where the time limit is too long to wait for, every program that can be started fails. -/
theorem verdict_judge_of_tooLong (hl : l.timeout = c.timeout) (hlong : c.TooLongTimeout)
    {ending : Ending} (h : ∀ reason, ending ≠ .notStarted reason) :
    (c.judge l ending).verdict = .error .timeoutTooLong := by
  have hsome : c.unwaitable? l = some .timeoutTooLong := by
    rcases unwaitable?_cases hl with ⟨-, hnot, -⟩ | ⟨-, -, hsome⟩ | ⟨-, hnot, -⟩
    · exact absurd hlong hnot
    · exact hsome
    · exact absurd hlong hnot
  cases ending with
  | notStarted reason => exact absurd rfl (h reason)
  | timedOut => simp [judge, hsome]
  | exited status output => simp [judge, hsome]

/-- What a program fails with is reported everywhere else. -/
theorem reported_or_tooLong (hl : l.timeout = c.timeout) {ending : Ending}
    (h : (c.judge l ending).verdict = .error f) :
    f.IsReported ∨ (f = .timeoutTooLong ∧ c.TooLongTimeout ∧
      ∀ reason, ending ≠ .notStarted reason) := by
  -- Waiting fails with a report, or because the time limit is too long.
  have hwait : ∀ f', c.unwaitable? l = some f' →
      f'.IsReported ∨ (f' = .timeoutTooLong ∧ c.TooLongTimeout) := by
    intro f' hf'
    rcases unwaitable?_cases hl with ⟨-, -, hl⟩ | ⟨-, hlong, hl⟩ | ⟨-, -, f₁, hl, hreported⟩ <;>
      rw [hl] at hf' <;> cases hf'
    · exact .inr ⟨rfl, hlong⟩
    · exact .inl hreported
  cases ending with
  | notStarted reason =>
    cases h
    exact .inl ⟨_, rfl⟩
  | timedOut =>
    cases hl : c.unwaitable? l with
    | none =>
      simp only [judge, hl] at h
      cases h
      exact .inl ⟨_, rfl⟩
    | some f' =>
      simp only [judge, hl] at h
      cases h
      exact (hwait _ hl).imp_right fun h => ⟨h.1, h.2, by simp⟩
  | exited status output =>
    cases hl : c.unwaitable? l with
    | none =>
      simp only [judge, hl] at h
      cases h
    | some f' =>
      simp only [judge, hl] at h
      cases h
      exact (hwait _ hl).imp_right fun h => ⟨h.1, h.2, by simp⟩

/-! ### Answers and faults -/

/-- A fault that ends a query without being reported as a failure of the oracle, and when it
does. -/
def Escapes (c : Command) (launcher : Launcher σ) (query : Text) (world : σ) : OracleFault → Prop
  | .failed _ => False
  -- a quotation in the line is open, or the line ends after a backslash
  | .badCommand fault => Words.split c.line = .error fault
  -- the query has no form in the encoding of the standard input
  | .unencodable fault => c.mode = .input ∧ (∃ words, Words.split c.line = .ok words) ∧
      c.encoding.encode query = .error fault
  -- the line is blank
  | .emptyCommand => ∃ bytes, c.Puts query [] bytes
  -- the program was started, but nobody can wait that long
  | .timeoutTooLong => c.TooLongTimeout ∧
      ∃ l, c.Starts query l ∧ ∀ reason, (launcher l world).1 ≠ .notStarted reason

/-- A query that is not refused escapes if it is blocked by a fault that is not reported, or if its
program fails with one. -/
theorem escapes_iff : c.Escapes launcher query world f ↔ ¬ f.IsReported ∧
    (c.Blocks query f ∨ ∃ l, c.Starts query l ∧
      (c.judge l (launcher l world).1).verdict = .error f) := by
  constructor
  · intro h
    refine ⟨?_, ?_⟩
    · rintro ⟨message, rfl⟩
      exact h
    · cases f with
      | failed message => exact h.elim
      | badCommand fault => exact .inl (.badCommand h)
      | unencodable fault =>
        obtain ⟨hmode, ⟨words, hwords⟩, h⟩ := h
        exact .inl (.unencodable hmode hwords h)
      | emptyCommand => exact .inl (.emptyCommand h.choose_spec)
      | timeoutTooLong =>
        obtain ⟨hlong, l, hl, hstarted⟩ := h
        exact .inr ⟨l, hl, verdict_judge_of_tooLong hl.timeout hlong hstarted⟩
  · rintro ⟨hnot, h | ⟨l, hl, h⟩⟩
    · cases h with
      | badCommand h => exact h
      | unencodable hmode hwords h => exact ⟨hmode, ⟨_, hwords⟩, h⟩
      | emptyCommand h => exact ⟨_, h⟩
      | null => exact absurd ⟨_, rfl⟩ hnot
    · -- A program was started; what it fails with is reported unless the time limit is too long.
      rcases reported_or_tooLong hl.timeout h with hreported | ⟨rfl, hlong, hstarted⟩
      · exact absurd hreported hnot
      · exact ⟨hlong, l, hl, hstarted⟩

/-- **Answers.** A query that the command refuses is rejected without starting anything. A query is
accepted if and only if a program was started for it and exits with status zero, within a time limit
that can be waited for; and it is rejected otherwise if that program exits with another status. All
other queries fail, and the failure is reported as such unless the query escapes. -/
theorem answers_exact (c : Command) (launcher : Launcher σ) (query : Text) (world : σ) :
    (c.Refuses query → (c.oracle launcher).ask query world = .ok false ∧
        ((c.oracle launcher).reply query world).2 = world) ∧
      ((c.oracle launcher).ask query world = .ok true ↔ ¬ c.Refuses query ∧ c.CanWait ∧
        ∃ l output, c.Starts query l ∧ (launcher l world).1 = .exited 0 output) ∧
      ((c.oracle launcher).ask query world = .ok false ↔ c.Refuses query ∨ (c.CanWait ∧
        ∃ l status output, c.Starts query l ∧ (launcher l world).1 = .exited status output ∧
          status ≠ 0)) ∧
      ∀ f, ((c.oracle launcher).ask query world = .error f ∧ ¬ f.IsReported) ↔
        (¬ c.Refuses query ∧ c.Escapes launcher query world f) := by
  refine ⟨fun h => reply_of_refuses h, ?_, ?_, fun f => ?_⟩
  · rw [ask_eq_iff]
    constructor
    · rintro (⟨-, h⟩ | ⟨hrefuses, ⟨f, -, h⟩ | ⟨l, hl, h⟩⟩)
      · cases h
      · cases h
      · obtain ⟨hwait, status, output, hend, hzero⟩ := (verdict_judge_eq_ok hl.timeout).mp h
        obtain rfl := of_decide_eq_true hzero
        exact ⟨hrefuses, hwait, l, output, hl, hend⟩
    · rintro ⟨hrefuses, hwait, l, output, hl, hend⟩
      exact .inr ⟨hrefuses, .inr ⟨l, hl, (verdict_judge_eq_ok hl.timeout).mpr
        ⟨hwait, 0, output, hend, rfl⟩⟩⟩
  · rw [ask_eq_iff]
    constructor
    · rintro (⟨hrefuses, -⟩ | ⟨-, ⟨f, -, h⟩ | ⟨l, hl, h⟩⟩)
      · exact .inl hrefuses
      · cases h
      · obtain ⟨hwait, status, output, hend, hzero⟩ := (verdict_judge_eq_ok hl.timeout).mp h
        exact .inr ⟨hwait, l, status, output, hl, hend, of_decide_eq_false hzero⟩
    · intro h
      by_cases hrefuses : c.Refuses query
      · exact .inl ⟨hrefuses, rfl⟩
      · obtain ⟨hwait, l, status, output, hl, hend, hzero⟩ := h.resolve_left hrefuses
        exact .inr ⟨hrefuses, .inr ⟨l, hl, (verdict_judge_eq_ok hl.timeout).mpr
          ⟨hwait, status, output, hend, decide_eq_false hzero⟩⟩⟩
  · rw [ask_eq_iff, escapes_iff]
    constructor
    · rintro ⟨⟨-, h⟩ | ⟨hrefuses, ⟨f', hf', h⟩ | ⟨l, hl, h⟩⟩, hnot⟩
      · cases h
      · cases h
        exact ⟨hrefuses, hnot, .inl hf'⟩
      · exact ⟨hrefuses, hnot, .inr ⟨l, hl, h⟩⟩
    · rintro ⟨hrefuses, hnot, h | ⟨l, hl, h⟩⟩
      · exact ⟨.inr ⟨hrefuses, .inl ⟨f, h, rfl⟩⟩, hnot⟩
      · exact ⟨.inr ⟨hrefuses, .inr ⟨l, hl, h⟩⟩, hnot⟩

/-- A command that reads bytes, with a time limit of ten seconds. -/
def ofLine (line : Text) : Command := ⟨line, .any, some 10.0, .latin1⟩

/-- **Unreported faults.** Whatever programs would do, a query with a character beyond those of the
encoding, a line with an open quotation and a blank line end with faults that are not reported. -/
theorem unreported_faults :
    (∀ (σ : Type) (launcher : Launcher σ) (world : σ),
      ((ofLine "cat".toList).oracle launcher).ask ['Ā'] world =
          .error (.unencodable ⟨.latin1, 'Ā', 0, 1⟩) ∧
        ((ofLine "cat 'a".toList).oracle launcher).ask ['x'] world =
          .error (.badCommand .openQuote) ∧
        ((ofLine " ".toList).oracle launcher).ask ['x'] world = .error .emptyCommand) ∧
      ¬ OracleFault.IsReported (.unencodable ⟨.latin1, 'Ā', 0, 1⟩) ∧
      ¬ OracleFault.IsReported (.badCommand .openQuote) ∧ ¬ OracleFault.IsReported .emptyCommand :=
  ⟨fun _ _ _ => ⟨rfl, rfl, rfl⟩, nofun, nofun, nofun⟩

end Command

end GrammarInference
