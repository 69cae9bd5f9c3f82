import QueryGate.NameSet

/-! # Rules for issue searches

Names in these tables are in lower case, because the language ignores case.
-/

namespace QueryGate.Jql

/-- The numbers a custom field may have, both ends included. -/
structure FieldRange where
  least : Nat := 10000
  greatest : Nat := 99999
  deriving Repr, DecidableEq

structure Rules where
  maxLength : Nat := 1000
  maxNesting : Nat := 3
  /-- The names that may stand in the place of a field. -/
  fields : NameSet := ∅
  functions : NameSet := ∅
  keywords : NameSet := ∅
  /-- The words of SQL that may stand in literals only. -/
  sqlWords : NameSet := ∅
  patterns : List Text := []
  customFields : FieldRange := {}

def Rules.builtin : Rules where
  fields := .ofList <| List.map ascii [
    "project", "issuetype", "status", "priority", "assignee", "reporter", "created", "updated",
    "resolved", "summary", "description", "labels", "components", "fixversion",
    "affectedversion", "environment", "resolution", "key", "duedate", "originalestimate",
    "remainingestimate", "timespent", "worklogdate", "lastviewed", "voter", "watcher",
    "comment", "attachment",
    -- Test management
    "testtype", "testplan", "testexecution", "testenvironment", "testset", "testrun",
    "testcycle", "requirement", "defect", "teststatus", "executedby", "executiondate",
    "testresult", "testrunstatus", "testexecutionstatus", "lasttestresult", "testplanstatus",
    "testsetstatus", "coveredrequirement", "testfolder", "testrepository",
    -- Versions and history
    "testversion", "testversiondate", "testhistory",
    -- Execution environment
    "testconfiguration", "testenvironmentname", "testbrowser", "testplatform", "testdevice",
    -- Behaviour-driven tests
    "scenario", "feature", "gherkintype",
    -- Classification of tests
    "testsuite", "testgroup", "testcategory"]
  functions := .ofList <| List.map ascii [
    "currentuser", "currentlogin", "membersof", "now", "startofday", "endofday",
    "startofweek", "endofweek", "startofmonth", "endofmonth", "startofyear", "endofyear",
    "startofquarter", "endofquarter", "earliestunreleasedversion", "latestreleasedversion",
    "releasedversions", "unreleasedversions",
    -- Test management
    "testexecutedby", "testlastexecutedby", "testexecutedin", "testplanfor", "testsetfor",
    "testcovering", "testcoveredby", "testexecutedinbuild", "testexecutedinversion",
    "testresultstatus", "testlastresultstatus", "testexecutionenvironment",
    "testrunenvironment", "testinfolder", "testinrepository", "testoftype", "linkedtests",
    "linkedrequirements", "linkeddefects", "childtests", "parenttests", "testexecutedondate",
    "testexecutedbetween", "testnotexecutedsince", "testwithresult", "testinplan",
    "testinset", "testinexecution",
    -- Versions
    "affectedversion", "fixversion", "testtargetversion"]
  keywords := .ofList <| List.map ascii [
    "and", "or", "not", "empty", "null", "order", "by", "asc", "desc", "in", "is", "was",
    "changed", "after", "before", "during", "on", "to"]
  sqlWords := .ofList <| List.map ascii [
    "select", "from", "where", "join", "union", "insert", "update", "delete", "drop", "exec"]
  patterns := List.map ascii [
    -- A comment after the end of a statement
    ";\\s*--",
    ";\\s*/\\*",
    -- A second statement
    ";\\s*(union|select|drop|delete|insert|update|exec|truncate|alter|create)\\b",
    "\\bunion\\s+(all\\s+)?select\\b",
    "\\b(drop|truncate|alter)\\s+table\\b",
    "\\bexec\\b",
    "\\bscript\\b",
    -- Markup
    "</?[a-z!][^<>]*>",
    -- Interpolation
    "\\$\\\x7b",
    -- Hexadecimal escapes
    "\\\\x[0-9a-f]\x7b2\x7d"]

end QueryGate.Jql
