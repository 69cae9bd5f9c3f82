import QueryGate.CommandLine
import QueryGate.Proofs.Jql.Comparing

/-! # What a run tells

A run tells its verdict four times: by its exit code, on standard output, among its diagnostics and in the
audit log. The four agree, whatever level the log has, and a run that comes to no verdict tells none.
-/

namespace QueryGate.CommandLine

/-! ## Arguments -/

/-- The arguments that ask for the judgement of a document: its file, the file of its variables and the
operation that is expected. -/
inductive Invokes : List Text → Text → Option Text → Option Text → Prop where
  | document {file} : Invokes [ascii "graphql", file] file none none
  | supplied {file given} : Invokes [ascii "graphql", file, given] file (some given) none
  | expecting {file given expected} :
      Invokes [ascii "graphql", file, given, expected] file (some given) (some expected)

/-- The arguments make no sense: there is no argument behind the command, or there are more than it takes,
or the command is unknown. -/
inductive Misused : List Text → Prop where
  | few {arguments : List Text} (few : arguments.length < 2) : Misused arguments
  | unknown {command more}
      (unknown : command ∉ List.map ascii ["jql", "graphql", "escape-jql", "escape-graphql"]) :
      Misused (command :: more)
  | jql {query extra more} : Misused (ascii "jql" :: query :: extra :: more)
  | graphql {file given expected extra more} :
      Misused (ascii "graphql" :: file :: given :: expected :: extra :: more)

/-- A file that is to be judged cannot be read: the document, or the variables when some are supplied. -/
inductive Missing (host : Host) (file : Text) (given : Option Text) : Prop where
  | document (missing : (host.read host.input file).1 = none)
  | supplied {argument document input} (supplied : given = some argument) (named : argument ≠ [])
      (found : host.read host.input file = (some document, input))
      (missing : (host.read input argument).1 = none)

/-- The arguments make sense, but a file that they name cannot be read. -/
def Unreadable (host : Host) : Prop :=
  ∃ file given expected, Invokes host.arguments file given expected ∧ Missing host file given

theorem invokes_or_misused (file : Text) : (more : List Text) →
    (∃ given expected, Invokes (ascii "graphql" :: file :: more) file given expected) ∨
      Misused (ascii "graphql" :: file :: more)
  | [] => .inl ⟨_, _, .document⟩
  | [_] => .inl ⟨_, _, .supplied⟩
  | [_, _] => .inl ⟨_, _, .expecting⟩
  | _ :: _ :: _ :: _ => .inr .graphql

/-- The verdict on a document, for the operation `expected` if there is one. -/
def judgement (policy : Policy) (document : Text) (given : Option Graphql.Variables) :
    (expected : Option Text) → Except Rejection Text
  | none => (Graphql.Gate.ofRules policy.graphql).judge document given
  | some expected => (Graphql.Gate.ofRules policy.graphql).judgeFor document expected given

/-- A run without variables comes to a verdict on a query. -/
inductive Judged (host : Host) (policy : Policy) : Language → Text → Except Rejection Text → Prop where
  | jql {query} (arguments : host.arguments = [ascii "jql", query]) :
      Judged host policy .jql query ((Jql.Gate.ofRules policy.jql).judge query)
  | graphql {file given expected document} (invokes : Invokes host.arguments file given expected)
      (unsupplied : ∀ argument ∈ given, argument = [])
      (readable : (host.read host.input file).1 = some document) :
      Judged host policy .graphql document (judgement policy document none expected)

/-! ## Settings -/

/-- The run finds no rules file, and can write to its log. -/
structure Host.Ready (host : Host) : Prop where
  ruleless : host.setting? "QUERYWALL_RULES_PATH" = none
  log : host.openLog ((host.setting? "QUERYWALL_AUDIT_LOG").getD Policy.builtin.log.path) = .ok ()

/-- The level that the environment asks for; without one that makes sense, `info`. -/
def Host.level (host : Host) : Audit.Level :=
  ((host.setting? "QUERYWALL_LOG_LEVEL").bind Audit.Level.ofText?).getD .info

/-- The settings of a run without a rules file. -/
def Host.builtinSession (host : Host) : Session where
  policy := .builtin
  least := host.level
  now := host.now
  microseconds := host.microseconds

theorem Host.Ready.session {host : Host} (ready : host.Ready) :
    host.session = .ok host.builtinSession := by
  have standard : Audit.Level.ofText? Policy.builtin.log.level = some .info := by decide +kernel
  have policy : host.policy = .ok .builtin := by simp only [Host.policy, ready.ruleless]
  have level : (Audit.Level.ofText? ((host.setting? "QUERYWALL_LOG_LEVEL").getD
      Policy.builtin.log.level)).getD .info = host.level := by
    cases asked : host.setting? "QUERYWALL_LOG_LEVEL" with
    | none => simp [Host.level, asked, standard]
    | some name => simp [Host.level, asked]
  rw [Host.session, bind_eq_ok_iff]
  refine ⟨.builtin, mapError_eq_ok_iff.mpr policy, bind_eq_ok_iff.mpr ⟨(), ?_, ?_⟩⟩
  · exact mapError_eq_ok_iff.mpr ready.log
  · rw [level]
    rfl

/-! ## The verdict on every channel -/

/-- The operation that the log shows for an accepted query. -/
def shownOperation : Language → Text → Text
  | .jql, _ => []
  | .graphql, accepted => Session.operationOf accepted

/-- What a run tells about a verdict. An accepted query is the output, and the log has a line about it at its
two lowest levels. A refusal has a message in the place of an output, and the log has a line about it
except at its highest level. -/
structure Tells (session : Session) (language : Language) (query : Text) (verdict : Except Rejection Text)
    (outcome : Outcome) : Prop where
  exit : outcome.exitCode = 0 ↔ ∃ accepted, verdict = .ok accepted
  accepted : ∀ accepted, verdict = .ok accepted →
    outcome.output = accepted ++ [Byte.lineFeed] ∧ outcome.diagnostics = [] ∧
    outcome.audit = if session.least = .debug ∨ session.least = .info then
      [Audit.Acceptance.line ⟨language, shownOperation language accepted, query, session.now,
        session.microseconds⟩] else []
  refused : ∀ rejection, verdict = .error rejection →
    outcome.exitCode = 1 ∧ outcome.output = [] ∧
    outcome.diagnostics = rejection.code.name ++ ascii ": " ++ rejection.message ++ [Byte.lineFeed] ∧
    outcome.audit = if session.least = .error then [] else
      [Audit.Refusal.line ⟨language, rejection.code, rejection.message, rejection.context, query,
        session.now⟩]

section Verdict

variable {session : Session} {language : Language} {query : Text}

theorem accept_tells (accepted : Text) :
    Tells session language query (.ok accepted)
      (session.accept language query (shownOperation language accepted) accepted) where
  exit := iff_of_true rfl ⟨accepted, rfl⟩
  accepted := by
    rintro _ ⟨⟩
    refine ⟨rfl, rfl, ?_⟩
    cases least : session.least <;> simp [Session.accept, Audit.Entry.lines, least] <;> rfl
  refused := nofun

theorem refuse_tells (rejection : Rejection) :
    Tells session language query (.error rejection) (session.refuse language query rejection) where
  exit := iff_of_false Nat.one_ne_zero nofun
  accepted := nofun
  refused := by
    rintro _ ⟨⟩
    refine ⟨rfl, rfl, rfl, ?_⟩
    cases least : session.least <;> simp [Session.refuse, Audit.Entry.lines, least] <;> rfl

theorem runJql_tells (query : Text) :
    Tells session .jql query ((Jql.Gate.ofRules session.policy.jql).judge query)
      (session.runJql query) := by
  unfold Session.runJql
  cases (Jql.Gate.ofRules session.policy.jql).judge query with
  | error rejection => exact refuse_tells rejection
  | ok accepted => exact accept_tells accepted

theorem runGraphql_eq (document : Text) (given : Option Graphql.Variables) (expected : Option Text) :
    session.runGraphql document given expected =
      match judgement session.policy document given expected with
      | .error rejection => session.refuse .graphql document rejection
      | .ok accepted =>
          session.accept .graphql document (Session.operationOf accepted) accepted := by
  cases expected <;> rfl

theorem runGraphql_tells (document : Text) (given : Option Graphql.Variables) (expected : Option Text) :
    Tells session .graphql document (judgement session.policy document given expected)
      (session.runGraphql document given expected) := by
  rw [runGraphql_eq]
  cases judgement session.policy document given expected with
  | error rejection => exact refuse_tells rejection
  | ok accepted => exact accept_tells accepted

end Verdict

/-! ## Documents and their variables -/

section Documents

variable {host : Host} {session : Session} {file document : Text} {given expected : Option Text}

theorem variables_of_unsupplied (unsupplied : ∀ argument ∈ given, argument = []) (input : Text) :
    host.variables session document input given = .ok none := by
  have absent : given.filter (!·.isEmpty) = none := by
    refine Option.filter_eq_none_iff.mpr fun argument member => ?_
    simp [unsupplied argument member]
  simp [Host.variables, absent]

theorem graphql_of_unsupplied (readable : (host.read host.input file).1 = some document)
    (unsupplied : ∀ argument ∈ given, argument = []) :
    host.graphql session file given expected = session.runGraphql document none expected := by
  obtain ⟨input, found⟩ : ∃ input, host.read host.input file = (some document, input) :=
    ⟨_, Prod.ext readable rfl⟩
  simp [Host.graphql, found, variables_of_unsupplied unsupplied]

theorem graphql_of_missing (missing : Missing host file given) :
    ∃ explanation, host.graphql session file given expected = stop exitUsage explanation := by
  cases missing with
  | document missing =>
      have read : host.read host.input file = (none, (host.read host.input file).2) :=
        Prod.ext missing rfl
      unfold Host.graphql
      rw [read]
      exact ⟨_, rfl⟩
  | @supplied argument document input supplied named found missing =>
      have kept : (some argument).filter (!·.isEmpty) = some argument := by simpa using named
      simp only [Host.graphql, found, Host.variables, supplied, kept, missing]
      exact ⟨_, rfl⟩

theorem variables_error {input : Text} {outcome : Outcome}
    (fails : host.variables session document input given = .error outcome) :
    (∃ argument, given = some argument ∧ argument ≠ [] ∧ (host.read input argument).1 = none) ∨
      ∃ rejection, outcome = session.refuse .graphql document rejection := by
  unfold Host.variables at fails
  cases kept : given.filter (!·.isEmpty) with
  | none => simp [kept] at fails
  | some argument =>
      obtain ⟨supplied, named⟩ := Option.filter_eq_some_iff.mp kept
      cases read : (host.read input argument).1 with
      | none => exact .inl ⟨argument, supplied, by simpa using named, read⟩
      | some text =>
          simp only [kept, read] at fails
          right
          split at fails
          · next rejection _ => exact ⟨rejection, (Except.error.inj fails).symm⟩
          · cases fails

theorem graphql_tells (found : ¬ Missing host file given) :
    ∃ document verdict, Tells session .graphql document verdict
      (host.graphql session file given expected) := by
  unfold Host.graphql
  cases read : host.read host.input file with
  | mk content input =>
      cases content with
      | none => exact absurd (.document (by rw [read])) found
      | some document =>
          refine ⟨document, ?_⟩
          dsimp only
          cases reading : host.variables session document input given with
          | error outcome =>
              obtain ⟨argument, supplied, named, missing⟩ | ⟨rejection, rfl⟩ := variables_error reading
              · exact absurd (.supplied supplied named read missing) found
              · exact ⟨_, refuse_tells rejection⟩
          | ok supplied => exact ⟨_, runGraphql_tells document supplied expected⟩

end Documents

/-! ## Runs -/

section Runs

variable {host : Host} {session : Session} {file : Text} {given expected : Option Text}

theorem commands_apart :
    ascii "jql" ≠ ascii "escape-jql" ∧ ascii "jql" ≠ ascii "escape-graphql" ∧
    ascii "graphql" ≠ ascii "escape-jql" ∧ ascii "graphql" ≠ ascii "escape-graphql" ∧
    ascii "graphql" ≠ ascii "jql" := by
  decide +kernel

variable (settled : host.session = .ok session)

include settled

theorem run_jql {query : Text} (arguments : host.arguments = [ascii "jql", query]) :
    run host = session.runJql query := by
  obtain ⟨jql, jql', -⟩ := commands_apart
  simp only [run, arguments, jql, jql', settled, if_false, if_true]
  rfl

theorem run_invokes (invokes : Invokes host.arguments file given expected) :
    run host = host.graphql session file given expected := by
  obtain ⟨-, -, graphql, graphql', other⟩ := commands_apart
  generalize passed : host.arguments = arguments at invokes
  cases invokes <;> simp only [run, passed, graphql, graphql', other, settled, if_false, if_true]

theorem run_judged {language : Language} {query : Text} {verdict : Except Rejection Text}
    (judged : Judged host session.policy language query verdict) :
    Tells session language query verdict (run host) := by
  cases judged with
  | jql arguments =>
      rw [run_jql settled arguments]
      exact runJql_tells query
  | graphql invokes unsupplied readable =>
      rw [run_invokes settled invokes, graphql_of_unsupplied readable unsupplied]
      exact runGraphql_tells query none _

omit settled in
theorem run_unknown {command : Text} {more : List Text} (passed : host.arguments = command :: more)
    (unknown : command ∉ List.map ascii ["jql", "graphql", "escape-jql", "escape-graphql"]) :
    run host = usage := by
  simp only [List.map_cons, List.map_nil, List.mem_cons, List.not_mem_nil, or_false, not_or] at unknown
  cases more with
  | nil => simp [run, passed]
  | cons first more => simp [run, passed, unknown]

theorem run_misused (misused : Misused host.arguments) : run host = usage := by
  obtain ⟨jql, jql', graphql, graphql', other⟩ := commands_apart
  generalize passed : host.arguments = arguments at misused
  cases misused with
  | few few =>
      match arguments, few with
      | [], _ | [_], _ => simp [run, passed]
  | unknown unknown => exact run_unknown passed unknown
  | jql => simp [run, passed, jql, jql', settled]
  | graphql => simp [run, passed, graphql, graphql', other, settled]

theorem run_unreadable (unreadable : Unreadable host) :
    ∃ explanation, run host = stop exitUsage explanation := by
  obtain ⟨file, given, expected, invokes, missing⟩ := unreadable
  rw [run_invokes settled invokes]
  exact graphql_of_missing missing

theorem run_invokes_tells (invokes : Invokes host.arguments file given expected) :
    Unreadable host ∨ ∃ document verdict, Tells session .graphql document verdict (run host) := by
  by_cases missing : Missing host file given
  · exact .inl ⟨file, given, expected, invokes, missing⟩
  · rw [run_invokes settled invokes]
    exact .inr (graphql_tells missing)

/-- All that a run can come to. -/
theorem run_cases :
    Misused host.arguments ∨ Unreadable host ∨
      (∃ language query verdict, Tells session language query verdict (run host)) ∨
      ∃ text, run host = { exitCode := 0, output := asLine text } := by
  match passed : host.arguments with
  | [] | [_] => exact .inl (.few (by simp))
  | command :: first :: more =>
      by_cases escapeJql : command = ascii "escape-jql"
      · refine .inr (.inr (.inr ⟨Jql.escape first, ?_⟩))
        simp only [run, passed, if_pos escapeJql]
      by_cases escapeGraphql : command = ascii "escape-graphql"
      · refine .inr (.inr (.inr ⟨Graphql.escape first, ?_⟩))
        simp only [run, passed, if_neg escapeJql, if_pos escapeGraphql]
      by_cases jql : command = ascii "jql"
      · subst jql
        cases more with
        | nil => exact .inr (.inr (.inl ⟨_, _, _, run_judged settled (.jql passed)⟩))
        | cons extra more => exact .inl .jql
      by_cases graphql : command = ascii "graphql"
      · subst graphql
        obtain ⟨given, expected, invokes⟩ | misused := invokes_or_misused first more
        · obtain unreadable | tells := run_invokes_tells settled (passed ▸ invokes)
          · exact .inr (.inl unreadable)
          · exact .inr (.inr (.inl ⟨_, tells⟩))
        · exact .inl misused
      · exact .inl (.unknown (by simp [escapeJql, escapeGraphql, jql, graphql]))

end Runs

section Verdict

variable {session : Session} {language : Language} {query : Text} {verdict : Except Rejection Text}
  {outcome : Outcome}

theorem Tells.exit_ne (tells : Tells session language query verdict outcome) :
    outcome.exitCode ≠ exitUsage := by
  cases verdict with
  | ok accepted =>
      rw [tells.exit.mpr ⟨accepted, rfl⟩]
      decide
  | error rejection =>
      rw [(tells.refused rejection rfl).1]
      decide

theorem Tells.exit_of_output (tells : Tells session language query verdict outcome)
    (output : outcome.output ≠ []) : outcome.exitCode = 0 := by
  cases verdict with
  | ok accepted => exact tells.exit.mpr ⟨accepted, rfl⟩
  | error rejection => exact absurd (tells.refused rejection rfl).2.1 output

end Verdict

/-- The exit code, the two outputs and the audit log agree, in every run that finds no rules file and can
write to its log. They tell the verdict on a query or a document, at every level of the log. No run has an
output unless it succeeds. The exit code 2 is for the commands that make no sense and the files that cannot
be read, and such a run has no output and leaves no line. -/
theorem run_agrees {host : Host} (ready : host.Ready) :
    (∀ language query verdict, Judged host .builtin language query verdict →
      Tells host.builtinSession language query verdict (run host)) ∧
    ((run host).output ≠ [] → (run host).exitCode = 0) ∧
    (Misused host.arguments ∨ Unreadable host ↔ (run host).exitCode = 2) ∧
    ((run host).exitCode = 2 → (run host).output = [] ∧ (run host).audit = []) := by
  have settled := ready.session
  have stopped : Misused host.arguments ∨ Unreadable host →
      (run host).exitCode = 2 ∧ (run host).output = [] ∧ (run host).audit = [] := by
    rintro (misused | unreadable)
    · rw [run_misused settled misused]
      exact ⟨rfl, rfl, rfl⟩
    · obtain ⟨explanation, same⟩ := run_unreadable settled unreadable
      rw [same]
      exact ⟨rfl, rfl, rfl⟩
  have usage_iff : Misused host.arguments ∨ Unreadable host ↔ (run host).exitCode = 2 := by
    refine ⟨fun misused => (stopped misused).1, fun exit => ?_⟩
    obtain misused | unreadable | ⟨_, _, _, tells⟩ | ⟨text, same⟩ := run_cases settled
    · exact .inl misused
    · exact .inr unreadable
    · exact absurd exit tells.exit_ne
    · rw [same] at exit
      cases exit
  refine ⟨fun _ _ _ judged => run_judged settled judged, fun output => ?_, usage_iff,
    fun exit => (stopped (usage_iff.mpr exit)).2⟩
  obtain misused | unreadable | ⟨_, _, _, tells⟩ | ⟨text, same⟩ := run_cases settled
  · exact absurd (stopped (.inl misused)).2.1 output
  · exact absurd (stopped (.inr unreadable)).2.1 output
  · exact tells.exit_of_output output
  · rw [same]

/-- A run with nothing around it: no environment, no files and an empty input. -/
def bareHost (arguments : List Text) : Host where
  arguments := arguments
  environment _ := none
  input := []
  file _ := none
  rules _ := .error []
  parse _ := .error []
  openLog _ := .ok ()
  now := .ofMilliseconds 0
  microseconds := 0

theorem run_agrees_statusQuery :
    let accepting := bareHost [ascii "jql", ascii "status = \"x\""]
    let unreading := bareHost [ascii "graphql", ascii "document"]
    ((run accepting).exitCode = 0 ∧ (run accepting).output = ascii "status = \"x\"\n" ∧
      (run accepting).diagnostics = [] ∧
      (run accepting).audit =
        [Audit.Acceptance.line ⟨some .jql, [], ascii "status = \"x\"", .ofMilliseconds 0, 0⟩]) ∧
    (run unreading).exitCode = 2 ∧ (run unreading).output = [] ∧ (run unreading).audit = [] := by
  intro accepting unreading
  obtain ⟨judged, -⟩ := @run_agrees accepting ⟨rfl, rfl⟩
  obtain ⟨-, -, stops, silent⟩ := @run_agrees unreading ⟨rfl, rfl⟩
  have tells := judged _ _ _ (.jql rfl)
  have listed : (ascii "status").toLower ∈ Jql.Rules.builtin.fields :=
    NameSet.mem_ofList.mpr (by decide +kernel)
  have query : Jql.comparison (ascii "status") = ascii "status = \"x\"" := by decide +kernel
  have verdict := Jql.judge_comparison_of_listed (Text.isName_iff.mp (by decide)) (by decide) listed
  rw [query] at verdict
  have exit := tells.exit.mpr ⟨_, verdict⟩
  obtain ⟨output, diagnostics, audit⟩ := tells.accepted _ verdict
  have stopped := stops.mp (.inr ⟨_, _, _, .document, .document rfl⟩)
  exact ⟨⟨exit, output.trans (by decide +kernel), diagnostics, audit⟩, stopped, silent stopped⟩

end QueryGate.CommandLine
