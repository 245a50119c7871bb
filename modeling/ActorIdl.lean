import ActorIdl.Main
import ActorIdl.Plan.Call
import ActorIdl.Proofs.Declaration.Search
import ActorIdl.Proofs.Declaration.Subject
import ActorIdl.Proofs.Interface.Methods
import ActorIdl.Proofs.Plan.Dispatch
import ActorIdl.Proofs.Plan.WellFormed
import ActorIdl.Proofs.Declaration.Canonical
import ActorIdl.Proofs.Syntax.Names
import ActorIdl.Proofs.Declaration.Entries
import ActorIdl.Proofs.Declaration.Resolution
import ActorIdl.Proofs.Plan.Call
import ActorIdl.Proofs.Plan.Compatibility
import ActorIdl.Proofs.Output.Memory
import ActorIdl.Proofs.Round.Outputs
import ActorIdl.Proofs.Build.Rounds
import ActorIdl.Proofs.Build.Outputs
import ActorIdl.Proofs.Syntax.Reads
import ActorIdl.Proofs.Declaration.Dotted
import ActorIdl.Proofs.Renderer.Stub
import ActorIdl.Proofs.Build.Settling
import ActorIdl.Proofs.Build.Single
import ActorIdl.Proofs.Declaration.Growth
import ActorIdl.Proofs.Build.Generations
import ActorIdl.Proofs.Plan.Order
import ActorIdl.Proofs.Syntax.Sentences
import ActorIdl.Proofs.Syntax.Roundtrip
import ActorIdl.Proofs.Declaration.BinaryNames
import ActorIdl.Proofs.Round.Accounting
import ActorIdl.Proofs.Round.Writing
import ActorIdl.Proofs.Build.DeclarationReports
import ActorIdl.Proofs.Build.Registrars
import ActorIdl.Proofs.Build.Targets
import ActorIdl.Proofs.Round.Loops
import ActorIdl.Proofs.Round.Isolation
import ActorIdl.Proofs.Output.Recording
import ActorIdl.Proofs.Round.Created
import ActorIdl.Proofs.Renderer.Packages
import ActorIdl.Proofs.Token.Tiling
import ActorIdl.Proofs.Token.Silencing
import ActorIdl.Proofs.Syntax.Relayout
import ActorIdl.Proofs.Syntax.Documentation
import ActorIdl.Proofs.Declaration.Rules
import ActorIdl.Proofs.Declaration.Supertypes
import ActorIdl.Proofs.Declaration.Forest
import ActorIdl.Proofs.Interface.EffectiveMethods
import ActorIdl.Proofs.Interface.Coverage
import ActorIdl.Proofs.Interface.Overloads
import ActorIdl.Proofs.Plan.Binding
import ActorIdl.Proofs.Interface.Violations
import ActorIdl.Proofs.Interface.Collisions
import ActorIdl.Proofs.Round.Markers
import ActorIdl.Proofs.Round.Fates
import ActorIdl.Proofs.Round.OutputReports
import ActorIdl.Proofs.Declaration.Walk
import ActorIdl.Proofs.Renderer.MethodTexts
import ActorIdl.Proofs.Renderer.Documentation
import ActorIdl.Proofs.Renderer.Methods
import ActorIdl.Proofs.Renderer.TypeNames
import ActorIdl.Proofs.Build.Discovery
import ActorIdl.Proofs.Output.Places
import ActorIdl.Proofs.Output.Agreement
import ActorIdl.Proofs.Syntax.Outline
import ActorIdl.Proofs.Syntax.Blame
import ActorIdl.Proofs.Syntax.Offender
import ActorIdl.Proofs.Build.Locations
import ActorIdl.Proofs.Text.Positions
