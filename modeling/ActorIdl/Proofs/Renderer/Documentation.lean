import ActorIdl.Proofs.Renderer.MethodTexts
import ActorIdl.Proofs.Token.DocText
import ActorIdl.Renderer
/-! # Documentation in generated code

    The module of a plan carries its documentation in comments, each line of it behind three
    slashes.  A line of documentation has no line feed in it, so nothing that is written in a
    documentation can leave the comments.  The code between them, and whether there is any, is that
    of the plan without its documentation, and stubs have no documentation at all. -/

namespace ActorIdl

/-! ## Lines -/

namespace Generated

/-- Whether the first characters of a line behind its spaces are three slashes. -/
def isDocLine (line : List Char) : Bool := "///".toList.isPrefixOf (line.dropWhile (· = ' '))

/-- The lines of a text without those of documentation. -/
def codeLines (text : List Char) : List (List Char) :=
  (Text.splitOn '\n' text).filter (!isDocLine ·)

/-- A text without its lines of documentation. -/
def withoutDocLines (text : String) : String :=
  String.ofList (List.intercalate ['\n'] (codeLines text.toList))

/-- The code in texts that stand one behind the other, each with a line feed at its end. -/
theorem codeLines_join (texts : List String) :
    codeLines (String.join (texts.map (· ++ "\n"))).toList =
      texts.flatMap (fun text => codeLines text.toList) ++ [[]] := by
  induction texts with
  | nil => decide
  | cons text texts ih =>
    have hchars : (String.join ((text :: texts).map (· ++ "\n"))).toList =
        text.toList ++ '\n' :: (String.join (texts.map (· ++ "\n"))).toList := by
      simp [String.join_cons]
    have hsplit : codeLines (text.toList ++ '\n' :: (String.join (texts.map (· ++ "\n"))).toList) =
        codeLines text.toList ++ codeLines (String.join (texts.map (· ++ "\n"))).toList := by
      simp only [codeLines, splitOn_eq, List.splitOn_append_cons_self, List.filter_append]
    rw [hchars, hsplit, ih, List.flatMap_cons, List.append_assoc]

theorem isDocLine_append (line : List Char) {indent : List Char} (h : ∀ c ∈ indent, c = ' ') :
    isDocLine (indent ++ '/' :: '/' :: '/' :: line) = true := by
  have hdrop : (indent ++ '/' :: '/' :: '/' :: line).dropWhile (· = ' ') =
      '/' :: '/' :: '/' :: line := by
    rw [List.dropWhile_append_of_pos (by simpa using h)]
    rfl
  rw [isDocLine, hdrop]
  rfl

/-- There is no code in documentation, whatever is written there. -/
theorem codeLines_docLines {indent : String} (h : indent.toList.all (· == ' ') = true)
    (doc : Option String) :
    (docLines indent doc).flatMap (fun line => codeLines line.toList) = [] := by
  have h : ∀ c ∈ indent.toList, c = ' ' := by simpa using h
  have hindent : '\n' ∉ indent.toList := fun hmem => absurd (h _ hmem) (by decide)
  -- a line feed would end the comment, but there is none
  have hnone : ∀ line : List Char, '\n' ∉ line →
      codeLines (indent.toList ++ '/' :: '/' :: '/' :: line) = [] := by
    intro line hline
    have hwhole : '\n' ∉ indent.toList ++ '/' :: '/' :: '/' :: line := by
      simp [hindent, hline]
    rw [codeLines, splitOn_eq, List.splitOn_eq_singleton hwhole, List.filter_cons_of_neg,
      List.filter_nil]
    simp [isDocLine_append line h]
  cases doc with
  | none => rfl
  | some text =>
    rw [docLines, List.flatMap_map, List.flatMap_eq_nil_iff]
    intro line hline
    have hnewline : '\n' ∉ line := Text.not_mem_of_mem_linesFrom List.not_mem_nil hline
    by_cases hempty : line.isEmpty = true
    · simpa [hempty] using hnone [] List.not_mem_nil
    · simpa [hempty] using hnone (' ' :: line) (by simp [hnewline])

end Generated

/-! ## Plans without documentation -/

/-- The method without its documentation. -/
def MethodDescriptor.undocumented (m : MethodDescriptor) : MethodDescriptor := { m with doc := none }

/-- The plan without the documentation of the interface and of its methods. -/
def Plan.undocumented (p : Plan) : Plan :=
  { p with doc := none, methods := p.methods.map (·.undocumented) }

namespace Generated

/-- The method text without the documentation of the method. -/
def MethodText.undocumented (m : MethodText) : MethodText :=
  { m with descriptor := m.descriptor.undocumented }

theorem methodNames_undocumented (before : List (MethodDescriptor × String))
    (ms : List MethodDescriptor) :
    methodNames (before.map fun b => (b.1.undocumented, b.2)) (ms.map (·.undocumented)) =
      methodNames before ms := by
  induction ms generalizing before with
  | nil => rfl
  | cons m ms ih =>
    have hcount : (before.map fun b => (b.1.undocumented, b.2)).countP
        (·.1.name == m.undocumented.name) = before.countP (·.1.name == m.name) := by
      rw [List.countP_map]
      rfl
    -- one name for both, so that the two searches are for the same thing
    obtain ⟨name, hname⟩ : ∃ name, name =
      overloadIdentifier m.name (before.countP (·.1.name == m.name)) := ⟨_, rfl⟩
    have hundocumented : name = overloadIdentifier m.undocumented.name
        ((before.map fun b => (b.1.undocumented, b.2)).countP
          (·.1.name == m.undocumented.name)) := by
      rw [hcount]
      exact hname
    have hfound : (before.map fun b => (b.1.undocumented, b.2)).find? (·.2 == name) =
        (before.find? (·.2 == name)).map fun b => (b.1.undocumented, b.2) := by
      rw [List.find?_map]
      rfl
    rw [List.map_cons]
    cases hfind : before.find? (·.2 == name) with
    | some first =>
      rw [hfind] at hfound
      rw [methodNames_of_some hname hfind, methodNames_of_some hundocumented hfound]
      rfl
    | none =>
      rw [hfind] at hfound
      rw [methodNames_of_none hname hfind, methodNames_of_none hundocumented hfound, ← ih,
        List.map_append, List.map_singleton]

theorem methodText_undocumented (m : MethodDescriptor) (name : String) :
    methodText m.undocumented name = (methodText m name).map (·.undocumented) := by
  show (do let params ← paramTexts m.signature [] m.params; _) = _
  unfold methodText
  cases paramTexts m.signature [] m.params with
  | error e => rfl
  | ok params =>
    show (do let result ← typeText m.returnType; _) = Except.map _ (do
      let result ← typeText m.returnType; _)
    cases typeText m.returnType with
    | error e => rfl
    | ok result => rfl

theorem methodTextsOf_undocumented (ms : List (MethodDescriptor × String)) :
    methodTextsOf (ms.map fun m => (m.1.undocumented, m.2)) =
      (methodTextsOf ms).map (·.map (·.undocumented)) := by
  induction ms with
  | nil => rfl
  | cons m ms ih =>
    obtain ⟨m, name⟩ := m
    rw [List.map_cons, methodTextsOf, methodTextsOf, methodText_undocumented, ih]
    cases methodText m name with
    | error e => rfl
    | ok first =>
      cases methodTextsOf ms with
      | error e => rfl
      | ok others => rfl

/-- The names and types of the methods are found, or are not, without regard to documentation. -/
theorem methodTexts_undocumented (p : Plan) :
    methodTexts p.undocumented = (methodTexts p).map (·.map (·.undocumented)) := by
  have hnames : methodNames [] p.undocumented.methods = methodNames [] p.methods :=
    methodNames_undocumented [] p.methods
  unfold methodTexts
  rw [hnames]
  cases methodNames [] p.methods with
  | error e => rfl
  | ok names =>
    show methodTextsOf ((p.methods.map (·.undocumented)).zip names) =
      (methodTextsOf (p.methods.zip names)).map (·.map (·.undocumented))
    rw [← methodTextsOf_undocumented, List.zip_map_left]
    rfl

/-- The same code is written for the methods in the trait. -/
theorem code_traitLines (p : Plan) (methods : List MethodText) :
    (traitLines p.undocumented (methods.map (·.undocumented))).flatMap
        (fun line => codeLines line.toList) =
      (traitLines p methods).flatMap fun line => codeLines line.toList := by
  have hplain : "".toList.all (· == ' ') = true := by decide
  have hindent : "    ".toList.all (· == ' ') = true := by decide
  -- the doc lines of the methods have no code in them
  have hmethods : ∀ ms : List MethodText,
      (ms.flatMap fun m => docLines "    " m.descriptor.doc ++ ["    " ++ m.signature ++ ";"]).flatMap
          (fun line => codeLines line.toList) =
        ms.flatMap fun m => codeLines ("    " ++ m.signature ++ ";").toList := by
    intro ms
    rw [List.flatMap_assoc]
    apply List.flatMap_congr
    intro m _
    rw [List.flatMap_append, codeLines_docLines hindent]
    simp
  have hsame : (methods.map (·.undocumented)).flatMap
      (fun m => codeLines ("    " ++ m.signature ++ ";").toList) =
        methods.flatMap fun m => codeLines ("    " ++ m.signature ++ ";").toList := by
    rw [List.flatMap_map]
    rfl
  unfold traitLines
  simp only [List.flatMap_append, hmethods, codeLines_docLines hplain, hsame]
  rfl

/-- The text of the module without its lines of documentation is that of the plan without its
    documentation. -/
theorem withoutDocLines_moduleText (p : Plan) (methods : List MethodText) :
    withoutDocLines (moduleText p.undocumented (methods.map (·.undocumented))) =
      withoutDocLines (moduleText p methods) := by
  -- the proxy and the dispatcher do not look at documentation, only the trait does
  have hproxy : proxyLines p.undocumented (methods.map (·.undocumented)) = proxyLines p methods := by
    unfold proxyLines
    rw [List.flatMap_map]
    rfl
  have hdispatcher : dispatcherLines p.undocumented (methods.map (·.undocumented)) =
      dispatcherLines p methods := by
    unfold dispatcherLines
    rw [List.flatMap_map]
    rfl
  unfold withoutDocLines moduleText
  rw [codeLines_join, codeLines_join]
  simp only [List.flatMap_append]
  rw [code_traitLines, hproxy, hdispatcher]
  rfl

/-- A module without the documentation in it. -/
def codeOf (u : RenderedUnit) : RenderedUnit := { u with contents := withoutDocLines u.contents }

theorem code_undocumented (p : Plan) :
    (renderModule p.undocumented).map codeOf = (renderModule p).map codeOf := by
  unfold renderModule
  rw [methodTexts_undocumented]
  cases methodTexts p with
  | error e => rfl
  | ok methods =>
    show Except.ok (codeOf ⟨_, _, moduleText p.undocumented (methods.map (·.undocumented))⟩) =
      Except.ok (codeOf ⟨_, _, moduleText p methods⟩)
    unfold codeOf
    dsimp only
    rw [withoutDocLines_moduleText]
    rfl

/-- Plans that differ in documentation alone are rendered to modules with the same path and the same
    code, or both cannot be rendered, for the same reason.  Their stubs are the same. -/
theorem code_of_render {p q : Plan} (h : p.undocumented = q.undocumented) :
    ((∃ e, renderModule p = .error e ∧ renderModule q = .error e) ∨
      ∃ u v, renderModule p = .ok u ∧ renderModule q = .ok v ∧ u.kind = v.kind ∧
        u.path = v.path ∧ withoutDocLines u.contents = withoutDocLines v.contents) ∧
      Stub.render p = Stub.render q := by
  have hstub : ∀ r : Plan, Stub.render r.undocumented = Stub.render r := fun _ => rfl
  have hcode : (renderModule p).map codeOf = (renderModule q).map codeOf := by
    rw [← code_undocumented p, ← code_undocumented q, h]
  refine ⟨?_, by rw [← hstub p, ← hstub q, h]⟩
  cases hp : renderModule p with
  | error e =>
    left
    cases hq : renderModule q with
    | error e' =>
      rw [hp, hq] at hcode
      exact ⟨e, rfl, by rw [Except.error.inj hcode]⟩
    | ok v =>
      rw [hp, hq] at hcode
      cases hcode
  | ok u =>
    right
    cases hq : renderModule q with
    | error e =>
      rw [hp, hq] at hcode
      cases hcode
    | ok v =>
      rw [hp, hq] at hcode
      have hsame : codeOf u = codeOf v := Except.ok.inj hcode
      have hkind : (codeOf u).kind = (codeOf v).kind := congrArg RenderedUnit.kind hsame
      have hpath : (codeOf u).path = (codeOf v).path := congrArg RenderedUnit.path hsame
      exact ⟨u, v, rfl, rfl, hkind, hpath, congrArg RenderedUnit.contents hsame⟩

/-- A plan with one method, with documentation of the interface and of the method. -/
def greeter (doc methodDoc : Option String) : Plan where
  decl := 0
  interfaceId := .ofName "app.IGreeter"
  interfaceName := "app.IGreeter"
  binaryName := "app.IGreeter"
  package := "app"
  simpleName := "IGreeter"
  referenceName := "GreeterReference"
  invokerName := "GreeterInvoker"
  factoryName := "GreeterFactory"
  isActor := true
  isNoIdentity := false
  doc
  annotations := []
  methods := [
    { name := "greet"
      returnType := .mk Library.task [] 0
      params := [⟨"name", .mk "orbit.lang.String" [] 0, 0⟩]
      doc := methodDoc
      annotations := []
      isOneWay := false
      methodId := none
      declaredIn := "app.IGreeter"
      location := ⟨0, ⟨0, 0⟩⟩ }]

theorem exists_renderModule_greeter (doc methodDoc : Option String) :
    ∃ u, renderModule (greeter doc methodDoc) = .ok u := by
  apply exists_renderModule_iff.mpr
  constructor
  · exact List.nodup_singleton _
  · intro m hm
    obtain rfl := List.mem_singleton.mp hm
    refine ⟨List.nodup_singleton _, ?_, _, rfl⟩
    intro p hp
    obtain rfl := List.mem_singleton.mp hp
    exact ⟨_, rfl⟩

/-- Documentation that looks like code, against none. -/
theorem code_of_render_greeter :
    let p := greeter (some "*/\n\x7d\r\npub mod other;") (some "\nfn run(&self);\n\n/// ")
    let q := greeter none none
    p.undocumented = q.undocumented ∧
      (∃ u v, renderModule p = .ok u ∧ renderModule q = .ok v ∧ u.kind = v.kind ∧
        u.path = v.path ∧ withoutDocLines u.contents = withoutDocLines v.contents) ∧
      Stub.render p = Stub.render q := by
  intro p q
  have h : p.undocumented = q.undocumented := rfl
  refine ⟨h, ?_, (code_of_render h).2⟩
  obtain ⟨e, hp, _⟩ | hboth := (code_of_render h).1
  · obtain ⟨_, hq⟩ := exists_renderModule_greeter
      (some "*/\n\x7d\r\npub mod other;") (some "\nfn run(&self);\n\n/// ")
    rw [hp] at hq
    cases hq
  · exact hboth

end Generated

end ActorIdl
