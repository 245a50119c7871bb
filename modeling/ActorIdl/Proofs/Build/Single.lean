import ActorIdl.Proofs.Build.Rounds
import ActorIdl.Proofs.Syntax.Reads
/-! # Builds of a single source

    The smallest builds that do something have one source beside the library.  For such a build
    everything up to its first round can be computed: the source is found and read, and the files
    are parsed from their characters. -/

namespace ActorIdl

/-! ## Files by their characters -/

namespace Build

/-- Parses files that are given by their characters and have no hints. -/
def parseTexts (first : FileId) (texts : List (List Char)) : List ParsedFile × List Diagnostic :=
  let parsed := texts.mapIdx fun i cs =>
    let parsing := Syntax.parseChars cs
    (parsing.unit.map fun unit => (⟨first + i, unit, none⟩ : ParsedFile),
      parsing.faults.map fun fault =>
        (⟨.malformed fault.fault, some ⟨first + i, fault.span⟩, none⟩ : Diagnostic))
  (parsed.filterMap (·.1), parsed.flatMap (·.2))

theorem parseFiles_eq_parseTexts (first : FileId) {files : List SourceFile}
    {texts : List (List Char)} (htexts : files.map (·.text) = texts.map String.ofList)
    (hhints : ∀ f ∈ files, f.packageHint = none) :
    parseFiles first files = parseTexts first texts := by
  have hlength : files.length = texts.length := by
    simpa using congrArg List.length htexts
  have hparsed : (files.mapIdx fun i f => parseFile (first + i) f) =
      texts.mapIdx fun i cs =>
        ((Syntax.parseChars cs).unit.map fun unit => (⟨first + i, unit, none⟩ : ParsedFile),
          (Syntax.parseChars cs).faults.map fun fault =>
            (⟨.malformed fault.fault, some ⟨first + i, fault.span⟩, none⟩ : Diagnostic)) := by
    refine List.ext_getElem (by simpa using hlength) fun i hi hj => ?_
    have hfile : i < files.length := by simpa using hi
    have hchars : i < texts.length := by omega
    have htext : files[i].text = String.ofList texts[i] := by
      have hnth := congrArg (·[i]?) htexts
      simpa [hfile, hchars] using hnth
    rw [List.getElem_mapIdx, List.getElem_mapIdx, parseFile, Syntax.parse_eq_parseChars htext,
      hhints _ (List.getElem_mem hfile)]
  unfold parseFiles parseTexts
  rw [hparsed]

set_option maxRecDepth 10000 in
/-- The characters of the library. -/
def libraryTexts : { texts : List (List Char) //
    librarySources.map (·.text) = texts.map String.ofList } := ⟨[_, _, _, _], rfl⟩

theorem packageHint_of_mem_librarySources : ∀ f ∈ librarySources, f.packageHint = none := by
  intro f hf
  obtain ⟨_, _, rfl⟩ := List.mem_map.mp hf
  rfl

end Build

/-! ## A tree with one source -/

/-- A tree of files with nothing but one source in it. -/
def FileTree.single (text : String) : FileTree :=
  { nodes := [(["A.orbit"], .file text.toUTF8)], workingDir := [] }

/-- The files of a build of one source. -/
def singleSources (text : String) : SourceMap := Build.librarySources ++ [⟨"A.orbit", text, none⟩]

section
variable (text : String)

theorem locate_single : (FileTree.single text).locate "A.orbit" = .ok ["A.orbit"] := by
  have hcheck : FileTree.checkText "A.orbit" = .ok () := by decide +kernel
  have hparts : Path.parts "A.orbit" = ["A.orbit"] := by decide +kernel
  have hrelative : Path.isAbsolute "A.orbit" = false := by decide +kernel
  rw [FileTree.locate, FileTree.follow, hcheck, hparts, hrelative]
  rfl

theorem discover_single :
    discover (FileTree.single text) ["A.orbit"] = .ok [⟨"A.orbit", none⟩] := by
  have hfound : (FileTree.single text).find? "A.orbit" = some (.file text.toUTF8) := by
    rw [FileTree.find?, locate_single]
    rfl
  have hsources : sourcesOf (FileTree.single text) "A.orbit" = .ok [⟨"A.orbit", none⟩] := by
    rw [sourcesOf, FileTree.isDir, FileTree.contains, hfound]
    rfl
  simp [discover, hsources, dropRepeated, bind, Except.bind, pure, Except.pure]

theorem readText_single : (FileTree.single text).readText "A.orbit" = .ok text := by
  have hdecode : String.fromUTF8? text.toUTF8 = some text := by
    simp only [String.fromUTF8?, String.toUTF8_eq_toByteArray, text.isValidUTF8, dite_true]
    rfl
  have hnode : (FileTree.single text).node? ["A.orbit"] = some (.file text.toUTF8) := rfl
  simp only [FileTree.readText, locate_single, bind, Except.bind, hnode, hdecode]
  rfl

theorem loadInputs_single :
    Build.loadInputs (FileTree.single text) ["A.orbit"] = .ok (singleSources text) := by
  unfold Build.loadInputs
  rw [discover_single]
  show Build.loadAll (FileTree.single text) Build.librarySources [⟨"A.orbit", none⟩] = _
  simp only [Build.loadAll, List.foldlM_cons, List.foldlM_nil, SourceMap.load, readText_single]
  rfl

end

theorem packageHint_of_mem_singleSources {text : String} :
    ∀ f ∈ singleSources text, f.packageHint = none :=
  List.forall_mem_append.mpr ⟨Build.packageHint_of_mem_librarySources,
    List.forall_mem_singleton.mpr rfl⟩

/-- A build of one source parses the characters of the library and those of the source. -/
theorem parseFiles_single {text : String} {cs : List Char} (h : text = String.ofList cs) :
    Build.parseFiles 0 (singleSources text) = Build.parseTexts 0 (Build.libraryTexts.1 ++ [cs]) := by
  refine Build.parseFiles_eq_parseTexts 0 ?_ packageHint_of_mem_singleSources
  have hlibrary := Build.libraryTexts.2
  unfold singleSources
  rw [List.map_append, List.map_append, h]
  exact congrArg (· ++ [String.ofList cs]) hlibrary

end ActorIdl
