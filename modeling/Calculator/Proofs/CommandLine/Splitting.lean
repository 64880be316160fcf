import Calculator.CommandLine
import Calculator.Proofs.Text.Joined
import Calculator.Proofs.Token.Respacing

/-!
# How a command line is split

The words of an expression are joined by spaces, and those are dropped with the other blanks
before anything is read. So how a command line is split into words changes neither the tokens
nor the value, and since an expression is printed from its tokens, nothing that is printed for
a value. A job that fails does so before it prints; its message shows the text as it was typed,
but the cause is that of the tokens.
-/

namespace Calculator

/-! ## Texts with the same characters that are not blank -/

namespace Token

theorem unblank_append (front behind : Text) :
    unblank (front ++ behind) = unblank front ++ unblank behind :=
  List.filter_append front behind

theorem unblank_joined (words : List Text) :
    unblank (Text.joined words) = unblank words.flatten := by
  induction words with
  | nil => rfl
  | cons word words ih =>
    by_cases hlast : words = []
    · rw [hlast, Text.joined_singleton, List.flatten_singleton]
    · have hspace : unblank (' ' :: Text.joined words) = unblank (Text.joined words) := rfl
      rw [Text.joined_cons hlast, List.flatten_cons, unblank_append, unblank_append, hspace, ih]

theorem scan_congr {expression expression' : Text}
    (h : unblank expression = unblank expression') : scan expression = scan expression' := by
  by_cases hempty : unblank expression = []
  · rw [scan_of_unblank_nil hempty, scan_of_unblank_nil (h ▸ hempty)]
  · rw [scan_of_unblank hempty, scan_of_unblank (h ▸ hempty), h]

end Token

/-- A calculation sees only the tokens. -/
theorem calculateTraced_congr {expression expression' : Text}
    (h : Token.scan expression = Token.scan expression') (trace : Trace) :
    calculateTraced expression trace = calculateTraced expression' trace := by
  simp only [calculateTraced, Postfix.ofText, h]

theorem exists_scan_of_calculateTraced {expression : Text} {trace : Trace} {x : Float}
    (h : (calculateTraced expression trace).1 = .ok x) :
    ∃ ts, Token.scan expression = .ok ts := by
  cases hts : Postfix.ofText expression with
  | error err =>
    rw [calculateTraced, hts] at h
    cases h
  | ok out =>
    obtain ⟨ts, hscan, -⟩ := EvalError.bind_eq_ok.mp hts
    exact ⟨ts, hscan⟩

namespace CommandLine

open Token (unblank)

/-! ## Jobs -/

variable {job job' : Job}

/-- Jobs whose expressions differ only in blanks print the same or fail for the same reason. -/
theorem run_cases (htext : unblank job.expression = unblank job'.expression)
    (hdetailed : job.detailed = job'.detailed) :
    (∃ lines, job.run = .ok lines ∧ job'.run = .ok lines) ∨
      ∃ err, job.run = .error ⟨job.expression, err⟩ ∧ job'.run = .error ⟨job'.expression, err⟩ := by
  have hscan := Token.scan_congr htext
  have hsame := calculateTraced_congr hscan { detailed := job.detailed }
  rw [Job.run, Job.run, ← hdetailed, ← hsame]
  cases hresult : calculateTraced job.expression { detailed := job.detailed } with
  | mk result trace =>
    cases result with
    | error err => exact .inr ⟨err, rfl, rfl⟩
    | ok x =>
      -- The expression is printed from its tokens only if it has any; one with a value has.
      obtain ⟨ts, hts⟩ := exists_scan_of_calculateTraced (congrArg Prod.fst hresult)
      have hspaced : Token.spaced job.expression = Token.spaced job'.expression := by
        rw [Token.spaced_of_scan hts, Token.spaced_of_scan (hscan ▸ hts)]
      refine .inl ⟨resultLines job.expression x trace, rfl, ?_⟩
      simp only [resultLines, hspaced]

/-! ## Printing line by line -/

theorem run_line (cs : Text) (printed : List Text) :
    (Printing.line cs).run.run printed = (.ok (), printed ++ [cs]) := rfl

theorem run_forM_line {α : Type} (f : α → Text) (as : List α) (printed : List Text) :
    (as.forM fun a => Printing.line (f a)).run.run printed = (.ok (), printed ++ as.map f) := by
  induction as generalizing printed with
  | nil => rw [List.map_nil, List.append_nil]; rfl
  | cons a as ih =>
    show (as.forM fun a => Printing.line (f a)).run.run (printed ++ [f a]) = _
    rw [ih, List.append_assoc]
    rfl

theorem run_seq {first rest : Printing Unit} {printed lines : List Text}
    (h : first.run.run printed = (.ok (), lines)) :
    (first >>= fun _ => rest).run.run printed = rest.run.run lines := by
  rw [ExceptT.run_bind, StateT.run_bind, h]
  rfl

/-- A job prints all its lines, or fails before the first. -/
theorem outcome_eq (job : Job) : job.outcome =
    match job.run with
    | .ok lines => (.ok (), lines)
    | .error e => (.error e, []) := by
  rw [Job.outcome, Job.perform, Job.run]
  rcases calculateTraced job.expression { detailed := job.detailed } with ⟨err | x, trace⟩
  · rfl
  · dsimp only
    rw [run_seq (run_line _ _), run_seq (run_forM_line _ _ _),
      run_forM_line (fun p : Step × Nat => _), resultLines, List.mapIdx_eq_zipIdx_map]
    rfl

/-! ## Command lines -/

def words (args : List Text) : List Text := args.filter (· != detailsFlag)

/-- Words make a job, of their text and with the flag looked up among all arguments. -/
theorem exists_job {args : List Text} (h : words args ≠ []) :
    ∃ job, Job.ofArgs? args = some job ∧ unblank job.expression = unblank (words args).flatten ∧
      (job.detailed = true ↔ detailsFlag ∈ args) := by
  refine ⟨⟨Text.joined (words args), args.contains detailsFlag⟩, ?_, Token.unblank_joined _,
    List.contains_iff_mem⟩
  unfold Job.ofArgs?
  split
  · rename_i hnone
    exact absurd hnone h
  · rfl

/-- Two command lines that both hold the flag or both do not, and whose other arguments have the
same text but for blanks, print the same, or fail for the same reason before they print. -/
theorem same_outcome_of_same_text {args args' : List Text}
    (hflag : detailsFlag ∈ args ↔ detailsFlag ∈ args')
    (hwords : words args ≠ []) (hwords' : words args' ≠ [])
    (htext : unblank (words args).flatten = unblank (words args').flatten) :
    ∃ job job', Job.ofArgs? args = some job ∧ Job.ofArgs? args' = some job' ∧
      ((∃ lines, job.outcome = (.ok (), lines) ∧ job'.outcome = (.ok (), lines)) ∨
        ∃ e e', job.outcome = (.error e, []) ∧ job'.outcome = (.error e', []) ∧
          e.error = e'.error ∧ e.causes.getLast? = e'.causes.getLast?) := by
  obtain ⟨job, hjob, hexpression, hdetailed⟩ := exists_job hwords
  obtain ⟨job', hjob', hexpression', hdetailed'⟩ := exists_job hwords'
  have hsame : unblank job.expression = unblank job'.expression := by
    rw [hexpression, hexpression', htext]
  have hmode : job.detailed = job'.detailed := by
    rw [Bool.eq_iff_iff, hdetailed, hdetailed', hflag]
  refine ⟨job, job', hjob, hjob', ?_⟩
  rw [outcome_eq, outcome_eq]
  rcases run_cases hsame hmode with ⟨lines, hrun, hrun'⟩ | ⟨err, hrun, hrun'⟩
  · rw [hrun, hrun']
    exact .inl ⟨lines, rfl, rfl⟩
  · rw [hrun, hrun']
    exact .inr ⟨_, _, rfl, rfl, rfl, rfl⟩

/-- A name and a number in two words each, then a division by zero: the same lines as for the
whole expression, and the same cause. -/
theorem same_outcome_of_split_name :
    let texts (l : List String) : List Text := l.map String.toList
    let args := texts ["--details", "sq", "rt(1", "6)*", "2"]
    let args' := texts ["sqrt\t(16)", "", " * 2", "--details", "--details"]
    let zero := texts ["1/", "0"]
    let zero' := texts ["1 / 0"]
    (∃ job job', Job.ofArgs? args = some job ∧ Job.ofArgs? args' = some job' ∧
      job.outcome = (.ok (), texts ["sqrt(16) * 2 = 8", "  RPN: 16 sqrt 2 *",
        "  Step 1: sqrt(16) = 4", "  Step 2: 4 * 2 = 8"]) ∧
      job'.outcome = job.outcome) ∧
    ∃ job job' e e', Job.ofArgs? zero = some job ∧ Job.ofArgs? zero' = some job' ∧
      job.outcome = (.error e, []) ∧ job'.outcome = (.error e', []) ∧
      e.causes.getLast? = some "Division by zero is not allowed".toList ∧
      e'.causes.getLast? = e.causes.getLast? := by
  intro texts args args' zero zero'
  refine ⟨?_, ?_⟩
  · obtain ⟨job, job', hjob, hjob', hsame⟩ := @same_outcome_of_same_text args args'
      (by decide +kernel) (by decide +kernel) (by decide +kernel) (by decide +kernel)
    have hargs : Job.ofArgs? args = some ⟨"sq rt(1 6)* 2".toList, true⟩ := by decide +kernel
    have houtcome : Job.outcome ⟨"sq rt(1 6)* 2".toList, true⟩ =
        (.ok (), texts ["sqrt(16) * 2 = 8", "  RPN: 16 sqrt 2 *", "  Step 1: sqrt(16) = 4",
          "  Step 2: 4 * 2 = 8"]) := by decide +kernel
    cases hjob.symm.trans hargs
    rcases hsame with ⟨lines, hlines, hlines'⟩ | ⟨e, e', herror, -⟩
    · exact ⟨_, job', hargs, hjob', houtcome, hlines'.trans hlines.symm⟩
    · cases houtcome.symm.trans herror
  · obtain ⟨job, job', hjob, hjob', hsame⟩ := @same_outcome_of_same_text zero zero'
      (by decide +kernel) (by decide +kernel) (by decide +kernel) (by decide +kernel)
    have hargs : Job.ofArgs? zero = some ⟨"1/ 0".toList, false⟩ := by decide +kernel
    have houtcome : Job.outcome ⟨"1/ 0".toList, false⟩ =
        (.error ⟨"1/ 0".toList, .divisionByZero⟩, []) := by decide +kernel
    cases hjob.symm.trans hargs
    rcases hsame with ⟨lines, hlines, -⟩ | ⟨e, e', herror, herror', -, hcauses⟩
    · cases houtcome.symm.trans hlines
    · cases houtcome.symm.trans herror
      exact ⟨_, job', _, e', hargs, hjob', houtcome, herror', rfl, hcauses.symm⟩

end CommandLine

end Calculator
