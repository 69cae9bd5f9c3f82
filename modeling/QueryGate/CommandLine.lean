import QueryGate.Audit.Log
import QueryGate.Graphql.FromDocument
import QueryGate.Graphql.Gate
import QueryGate.Jql.Gate
import QueryGate.Policy.Load

/-! # The command line

What a run does, as a function of what it finds around it. The accepted query goes to standard
output and nothing else does; the exit code is 0 for an accepted query, 1 for a refusal or a
fault of the settings, and 2 for a command that makes no sense.
-/

namespace QueryGate.CommandLine

/-- What a run finds around it. -/
structure Host where
  arguments : List Text
  environment : Text → Option Text
  input : Text
  /-- The content of a file; `none` when it cannot be opened. -/
  file : Text → Option Text
  /-- The document in a rules file, or why the file cannot be found. -/
  rules : Text → Except Text Document
  /-- The document that a text describes, or why it describes none. -/
  parse : Text → Except Text Document
  /-- Whether the audit log can be written to a file, or why not. -/
  openLog : Text → Except Text Unit
  /-- The time at which the verdict is reached. -/
  now : Audit.Instant
  microseconds : Int

structure Outcome where
  exitCode : Nat
  output : Text := []
  diagnostics : Text := []
  audit : List Text := []
  deriving Repr, DecidableEq

def exitRefused : Nat := 1

/-- The exit code for a command that makes no sense or a file that cannot be read. -/
def exitUsage : Nat := 2

def asLine (t : Text) : Text := t ++ [Byte.lineFeed]

/-- What is said of a command that makes no sense. -/
def usageText : Text :=
  (List.map (fun line => asLine (ascii line)) [
    "usage:",
    "  querywall jql <query>",
    "  querywall graphql <document-file|-> [variables-file] [expected-operation]",
    "  querywall escape-jql <value>",
    "  querywall escape-graphql <value>"]).flatten

/-- A command that makes no sense. -/
def usage : Outcome := { exitCode := exitUsage, diagnostics := usageText }

/-- The end of a run with one line of explanation. -/
def stop (exitCode : Nat) (explanation : Text) : Outcome :=
  { exitCode, diagnostics := asLine explanation }

structure Session where
  policy : Policy
  /-- The lowest level that is written to the audit log. -/
  least : Audit.Level
  now : Audit.Instant
  microseconds : Int

namespace Session

def refuse (session : Session) (language : Language) (query : Text) (rejection : Rejection) :
    Outcome where
  exitCode := exitRefused
  diagnostics := asLine (rejection.code.name ++ ascii ": " ++ rejection.message)
  audit :=
    (Audit.Entry.rejected (.ofRejection language rejection query session.now)).lines session.least

/-- An accepted query: `operation` is reported to the log, and `accepted` is handed on. -/
def accept (session : Session) (language : Language) (query operation accepted : Text) :
    Outcome where
  exitCode := 0
  output := asLine accepted
  audit :=
    (Audit.Entry.accepted
      ⟨some language, operation, query, session.now, session.microseconds⟩).lines session.least

def runJql (session : Session) (query : Text) : Outcome :=
  match (Jql.Gate.ofRules session.policy.jql).judge query with
  | .error rejection => session.refuse .jql query rejection
  | .ok accepted => session.accept .jql query [] accepted

/-- The kind of a document's operation, and its name if it has one. -/
def operationOf (document : Text) : Text :=
  match Graphql.headerOf document with
  | .error _ => []
  | .ok header =>
    if header.name.isEmpty then header.kind.name
    else header.kind.name ++ Byte.space :: header.name

/-- Judges a document, for the operation `expected` if there is one. -/
def runGraphql (session : Session) (document : Text) (given : Option Graphql.Variables)
    (expected : Option Text) : Outcome :=
  let gate := Graphql.Gate.ofRules session.policy.graphql
  let verdict := match expected with
    | some expected => gate.judgeFor document expected given
    | none => gate.judge document given
  match verdict with
  | .error rejection => session.refuse .graphql document rejection
  | .ok accepted => session.accept .graphql document (operationOf accepted) accepted

end Session

/-- A value of the environment; an empty one counts as absent. -/
def Host.setting? (host : Host) (name : String) : Option Text :=
  (host.environment (ascii name)).filter (!·.isEmpty)

/-- The content behind a file argument, where a hyphen stands for standard input, and what is
left of standard input. -/
def Host.read (host : Host) (input : Text) (argument : Text) : Option Text × Text :=
  if argument = [Byte.minus] then (some input, []) else (host.file argument, input)

/-- The policy of a run: the one in the rules file, if the environment names one. -/
def Host.policy (host : Host) : Except Text Policy :=
  match host.setting? "QUERYWALL_RULES_PATH" with
  | none => .ok .builtin
  | some path =>
    match host.rules path with
    | .error reason =>
      .error (ascii "policy_loader: cannot resolve config path '" ++ path ++ ascii "': " ++ reason)
    | .ok document => (Policy.ofDocument document).mapError PolicyError.message

/-- The settings of a run, or why it ends at once. -/
def Host.session (host : Host) : Except Outcome Session := do
  let policy ← host.policy.mapError fun reason => stop exitRefused (ascii "config error: " ++ reason)
  let levelName := (host.setting? "QUERYWALL_LOG_LEVEL").getD policy.log.level
  let logPath := (host.setting? "QUERYWALL_AUDIT_LOG").getD policy.log.path
  (host.openLog logPath).mapError fun reason =>
    stop exitRefused (ascii "audit log error: Logger initialization failed: " ++ reason)
  let least := (Audit.Level.ofText? levelName).getD .info
  return { policy, least, now := host.now, microseconds := host.microseconds }

/-- The variables behind an argument: none for an absent or empty one. The outcome ends the run
at once. -/
def Host.variables (host : Host) (session : Session) (document input : Text)
    (argument : Option Text) : Except Outcome (Option Graphql.Variables) :=
  match argument.filter (!·.isEmpty) with
  | none => .ok none
  | some argument =>
    match (host.read input argument).1 with
    | none => .error (stop exitUsage (ascii "cannot read variables '" ++ argument ++ ascii "'"))
    | some text =>
      let given : Except Rejection Graphql.Variables :=
        match host.parse text with
        | .error reason => .error (.unreadableVariables reason)
        | .ok tree => Graphql.variablesOf tree
      match given with
      | .error rejection => .error (session.refuse .graphql document rejection)
      | .ok given => .ok (some given)

/-- Judges the document behind the first argument, with the variables behind the second and for
the operation that the third names. -/
def Host.graphql (host : Host) (session : Session) (documentFile : Text)
    (variablesFile expected : Option Text) : Outcome :=
  match host.read host.input documentFile with
  | (none, _) => stop exitUsage (ascii "cannot read document '" ++ documentFile ++ ascii "'")
  | (some document, input) =>
    match host.variables session document input variablesFile with
    | .error outcome => outcome
    | .ok given => session.runGraphql document given expected

/-- What a run does. The escaping commands need no settings and ignore further arguments; the
others load their settings before they look at their arguments any closer. -/
def run (host : Host) : Outcome :=
  match host.arguments with
  | command :: first :: more =>
    if command = ascii "escape-jql" then { exitCode := 0, output := asLine (Jql.escape first) }
    else if command = ascii "escape-graphql" then
      { exitCode := 0, output := asLine (Graphql.escape first) }
    else if command = ascii "jql" then
      match host.session with
      | .error outcome => outcome
      | .ok session => if more.isEmpty then session.runJql first else usage
    else if command = ascii "graphql" then
      match host.session with
      | .error outcome => outcome
      | .ok session =>
        match more with
        | [] => host.graphql session first none none
        | [given] => host.graphql session first (some given) none
        | [given, expected] => host.graphql session first (some given) (some expected)
        | _ => usage
    else usage
  | _ => usage

end QueryGate.CommandLine
