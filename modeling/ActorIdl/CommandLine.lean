import ActorIdl.CommandLine.Options
import ActorIdl.Interface.Serialized
import ActorIdl.Output.Directory
import ActorIdl.Provenance
/-! # The command line

    The command as a function from arguments and a tree of files to an exit code, what is printed,
    and the tree that is left behind.  Diagnostics go to the error output; unless sources are
    generated, what was asked for goes to the standard output as JSON. -/

namespace ActorIdl.CommandLine

/-- What running the command leads to. -/
structure Outcome where
  exitCode : Nat
  stdout : String
  stderr : String
  tree : FileTree

/-- The directory for outputs unless another one is named. -/
def defaultOutDir : String := "orbc-out"

/-- The name of a target in messages. -/
def targetName : EmitTarget → String
  | .all => "All"
  | .descriptors => "Decls"
  | .plans => "Plan"
  | .buildInfo => "BuildInfo"

/-- The options of the build that is asked for. -/
def Options.toBuild (o : Options) : BuildOptions :=
  ⟨o.inputs, o.outDir.getD defaultOutDir, o.emit.getD .all⟩

/-- Lines of messages, each under the name of the command. -/
def messages (lines : List String) : String :=
  String.join (lines.map fun line => "orbc: " ++ line ++ "\n")

/-- The messages about what is asked for. -/
def requestLines (b : BuildOptions) : List String :=
  ["inputs  = [" ++ Text.joinWith ", " (b.inputs.map fun i => Text.Quoted.encode i.toList) ++ "]",
   "out-dir = " ++ b.outDir,
   "emit    = " ++ targetName b.emit]

/-- The messages about what was done. -/
def summaryLine (c : Compilation) : String :=
  toString c.rounds ++ " rounds, " ++ toString c.plans.length ++ " interfaces, " ++
    toString c.generated.length ++ " files generated, " ++ toString c.manifests.length ++
    " manifests"

/-- The JSON that a build prints. -/
def printed? (emit : EmitTarget) (c : Compilation) : Option Json :=
  match emit with
  | .all => none
  | .descriptors => some (.arr (c.descriptors.map (·.toJson)))
  | .plans => some (.arr (c.plans.map (·.toJson)))
  | .buildInfo => some (provenanceJson (c.inputs.filterMap (c.sources[·]?)))

/-- The diagnostics that are shown: errors, and all of them if everything is to be shown. -/
def shown (verbose : Bool) (ds : List Diagnostic) : List Diagnostic :=
  ds.filter fun d => d.isError || verbose

/-- Runs a build. -/
def runBuild (o : Options) (tree : FileTree) : Outcome :=
  let build := o.toBuild
  let opening := if o.verbose then requestLines build else []
  match compile tree build OutputDir.filer Renderer.default (.start tree build.outDir) with
  | (.error e, out) => ⟨2, "", messages (opening ++ ["error: " ++ e.message]), out.tree⟩
  | (.ok c, out) =>
    let diagnostics := (shown o.verbose c.diagnostics).map c.sources.render
    let summary := if o.verbose then [summaryLine c] else []
    let failed := hasErrors c.diagnostics
    let verdict := if failed then [toString (errorCount c.diagnostics) ++ " error(s)"] else []
    { exitCode := if failed then 1 else 0
      stdout := match printed? build.emit c with
        | none => ""
        | some json => json.pretty ++ "\n"
      stderr := messages (opening ++ diagnostics ++ summary ++ verdict)
      tree := out.tree }

/-- How the command is used. -/
def usage : String :=
  "Usage: orbc [OPTIONS] <INPUTS>...\n\n" ++
  "Arguments:\n" ++
  "  <INPUTS>...  Input .orbit files or directories (searched recursively)\n\n" ++
  "Options:\n" ++
  "  -o, --out-dir <OUT_DIR>  Output directory [default: orbc-out]\n" ++
  "      --emit <EMIT>        Output stage [default: all]\n" ++
  "                           [possible values: all, decls, plan, build-info]\n" ++
  "      --verbose            Print informational diagnostics\n" ++
  "  -h, --help               Print help\n" ++
  "  -V, --version            Print version\n"

/-- Runs the command. -/
def run (args : List String) (tree : FileTree) : Outcome :=
  match readRequest args with
  | .help => ⟨0, usage, "", tree⟩
  | .version => ⟨0, "orbc " ++ compilerVersion ++ "\n", "", tree⟩
  | .misuse cause => ⟨2, "", "error: " ++ cause.message ++ "\n\n" ++ usage, tree⟩
  | .build options => runBuild options tree

end ActorIdl.CommandLine
