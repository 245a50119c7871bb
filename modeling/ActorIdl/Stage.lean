/-! # Stages

    A round is made of stages, each of which needs what others made.  What has to run for a stage is
    everything that it needs, directly or indirectly, and then the stage itself. -/

namespace ActorIdl

/-- The stages of a round. -/
inductive Stage where
  | walk
  | classify
  | describe
  | validate
  | assignIds
  | plan
  | render
  | register
deriving Repr, DecidableEq

/-- What a stage makes. -/
inductive Artifact where
  | candidates
  | classified
  | descriptors
  /-- Descriptors without invalid methods. -/
  | validated
  /-- Descriptors with identifiers and without collisions. -/
  | ids
  | plans
  | rendered
  | manifests
deriving Repr, DecidableEq

namespace Stage

/-- Every stage. -/
def all : List Stage :=
  [.walk, .classify, .describe, .validate, .assignIds, .plan, .render, .register]

/-- The name of a stage. -/
def name : Stage → String
  | walk => "walk"
  | classify => "classify"
  | describe => "describe"
  | validate => "validate"
  | assignIds => "assign_ids"
  | plan => "plan"
  | render => "render"
  | register => "register"

/-- The stage with a name. -/
def ofName? (name : String) : Option Stage := all.find? (·.name == name)

/-- The stages whose artifacts a stage needs. -/
def needs : Stage → List Stage
  | walk => []
  | classify => [walk]
  | describe => [classify]
  | validate => [describe]
  | assignIds => [validate]
  | plan => [assignIds]
  | render => [plan]
  | register => [render, walk]

/-- What a stage makes. -/
def makes : Stage → Artifact
  | walk => .candidates
  | classify => .classified
  | describe => .descriptors
  | validate => .validated
  | assignIds => .ids
  | plan => .plans
  | render => .rendered
  | register => .manifests

/-- Adds a stage to the stages that run, after what it needs and unless it is there.  A chain of
    needs has fewer than `depth` stages. -/
def addTo (depth : Nat) (running : List Stage) (s : Stage) : List Stage :=
  match depth with
  | 0 => running
  | depth + 1 =>
    if running.contains s then running else s.needs.foldl (addTo depth) running ++ [s]

/-- The stages that have to run for a stage, in the order in which they run. -/
def required (s : Stage) : List Stage := addTo all.length [] s

end Stage

end ActorIdl
