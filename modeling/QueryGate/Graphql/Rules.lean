import QueryGate.Language
import QueryGate.NameSet

/-! # Rules for documents

Names in these tables are taken as they are, because the language distinguishes case.
-/

namespace QueryGate.Graphql

structure Rules where
  maxLength : Nat := 5000
  maxDepth : Nat := 10
  maxVariables : Nat := 50
  maxTextLength : Nat := 1000
  maxListLength : Nat := 100
  maxMapSize : Nat := 50
  maxVariableDepth : Nat := 32
  /-- The names that may stand anywhere. -/
  fields : NameSet := ∅
  queries : NameSet := ∅
  mutations : NameSet := ∅
  keywords : NameSet := ∅
  /-- What a capitalised name must not contain, in lower case. -/
  suspicious : List Text := []
  patterns : List Text := []

def Rules.builtin : Rules where
  queries := .ofList <| List.map ascii [
    "getTest", "getTests", "getTestExecution", "getTestExecutions", "getTestSet", "getTestSets",
    "getTestPlan", "getTestPlans", "getTestRun", "getTestRuns", "getPrecondition",
    "getPreconditions", "getTestRepository", "getTestRepositoryFolders", "getDataset",
    "getTestStatus", "getTestHistory", "getCoverableIssues", "getTestTypes",
    "getTestEnvironments", "getTestVersions", "getExpandedTest", "getFolder"]
  mutations := .ofList <| List.map ascii [
    "createTest", "updateTest", "deleteTest", "createTestExecution", "updateTestExecution",
    "deleteTestExecution", "addTestsToTestExecution", "removeTestsFromTestExecution",
    "createTestSet", "updateTestSet", "deleteTestSet", "addTestsToTestSet",
    "removeTestsFromTestSet", "createTestPlan", "updateTestPlan", "deleteTestPlan",
    "addTestsToTestPlan", "removeTestsFromTestPlan", "createTestRun", "updateTestRun",
    "deleteTestRun", "createPrecondition", "updatePrecondition", "deletePrecondition",
    "updateGherkinDefinition", "moveTestToFolder", "updateTestRunStatus", "updateTestType"]
  fields := .ofList <| List.map ascii [
    "issueId", "projectId", "issueType", "jira", "key", "summary", "description", "status",
    "priority", "assignee", "reporter", "created", "updated", "resolved", "labels",
    "components",
    -- Tests
    "test", "testIssueFields", "testType", "testRepository", "folder", "gherkin",
    "unstructured", "steps", "preconditions", "datasets", "versions", "testResults",
    "lastTestResult", "testStatus", "testEnvironments", "action", "data", "result",
    "attachments", "filename", "path",
    -- Test executions
    "testExecution", "testExecutionStatus", "executedBy", "executionDate", "testRun",
    "testRunStatus", "environment", "startedOn", "finishedOn", "comment", "defects",
    "evidence", "color",
    -- Organisation of tests
    "testSet", "testPlan", "testPlans", "testSets", "tests", "testExecutions", "totalTests",
    "passedTests", "failedTests", "blockedTests",
    -- Pages and metadata
    "total", "start", "limit", "results", "warnings", "errors", "startAt", "maxResults",
    "isLast", "values",
    -- Nested objects
    "name", "kind", "id", "displayName", "emailAddress", "active", "accountId", "self",
    "avatarUrls", "timeZone",
    -- Versions and history
    "version", "versionId", "versionNumber", "createdOn", "lastModified",
    -- Arguments of operations
    "jql", "fields", "issueIds", "testIssueIds", "testExecIssueIds", "testPlanIssueIds",
    "testSetIssueIds", "projectKey", "folderPath", "testTypeName", "definition",
    "preconditionIssueId",
    -- Custom fields
    "customFields", "customfield_10001", "customfield_10002", "customfield_10003",
    "customfield_10004", "customfield_10005",
    -- Client caches
    "__typename"]
  keywords := .ofList <| List.map ascii [
    "query", "mutation", "fragment", "on", "true", "false", "null"]
  suspicious := List.map ascii ["evil", "hack", "script"]
  patterns := List.map ascii [
    -- Introspection
    "__schema",
    "__type(?!name)",
    -- Scripts
    "<script[^>]*>",
    "javascript:",
    "data:",
    "eval\\s*\\(",
    "function\\s*\\(",
    -- Interpolation
    "\\$\\\x7b",
    -- Markup comments
    "<!--",
    "--!?>"]

namespace Rules

/-- The names an operation of the given kind may invoke. -/
def operations (rules : Rules) : OperationKind → NameSet
  | .query => rules.queries
  | .mutation => rules.mutations

end Rules

end QueryGate.Graphql
