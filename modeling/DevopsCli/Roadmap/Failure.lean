import Mathlib

/- The classes of a failure and what can be done with each, roadmap/failure.py. -/
namespace DevopsCli.Roadmap

inductive FailureClass where
  | provider | parser | test | lint | types | planDefect | premiseFalse | oom | timeout
  | refusedTool | conflict | ciInfra | noChangeInFix | testsLost | headMoved | outputCap
  | readOnlyPath | limitReached | outsidePlan
deriving DecidableEq

def FailureClass.value : FailureClass → String
  | .provider => "provider"
  | .parser => "parser"
  | .test => "test"
  | .lint => "lint"
  | .types => "types"
  | .planDefect => "plan_defect"
  | .premiseFalse => "premise_false"
  | .oom => "oom"
  | .timeout => "timeout"
  | .refusedTool => "refused_tool"
  | .conflict => "conflict"
  | .ciInfra => "ci_infra"
  | .noChangeInFix => "no_change_in_fix"
  | .testsLost => "tests_lost"
  | .headMoved => "head_moved"
  | .outputCap => "output_cap"
  | .readOnlyPath => "read_only_path"
  | .limitReached => "limit_reached"
  | .outsidePlan => "outside_plan"

def FailureClass.all : List FailureClass :=
  [.provider, .parser, .test, .lint, .types, .planDefect, .premiseFalse, .oom, .timeout,
    .refusedTool, .conflict, .ciInfra, .noChangeInFix, .testsLost, .headMoved, .outputCap,
    .readOnlyPath, .limitReached, .outsidePlan]

def FailureClass.ofValue (text : String) : Option FailureClass :=
  FailureClass.all.find? (·.value = text)

theorem FailureClass.value_of_ofValue {text : String} {klass : FailureClass}
    (found : FailureClass.ofValue text = some klass) : klass.value = text := by
  simpa using List.find?_some found

inductive FailureAction where
  | retry | changeTier | repair | amend | return_ | raiseLimit | wait
deriving DecidableEq

def actionByClass : FailureClass → FailureAction
  | .provider => .retry
  | .parser => .changeTier
  | .test | .lint | .types => .repair
  | .planDefect => .amend
  | .premiseFalse => .return_
  | .oom => .raiseLimit
  | .timeout => .retry
  | .refusedTool | .conflict => .wait
  | .ciInfra => .retry
  | .noChangeInFix | .testsLost => .wait
  | .headMoved => .retry
  | .outputCap => .raiseLimit
  | .readOnlyPath => .wait
  | .limitReached => .raiseLimit
  | .outsidePlan => .wait

end DevopsCli.Roadmap
