import ActorIdl.Plan
import ActorIdl.Proofs.Declaration.Dotted
import ActorIdl.Proofs.Interface.EffectiveMethods
/-! # Overloads and their signatures

    Overloads are told apart by the texts of their signatures alone: when methods are collected,
    when a caller names one, and when its identifier is computed.  Different overloads have
    different signatures as long as the names of types hold none of the characters that a signature
    has between names.  What the methods themselves are called does not matter, since the types
    begin behind the last opening parenthesis. -/

namespace ActorIdl

/-! ## Bare names -/

/-- The characters around and between the types in a canonical text of a type. -/
def typeMarks : List Char := ['<', '>', ',', '[', ']']

/-- The characters around and between the names in a signature. -/
def signatureMarks : List Char := typeMarks ++ ['(', ')']

/-- A name that has none of the characters that a signature has between names. -/
structure IsBare (name : String) : Prop where
  ne_empty : name ≠ ""
  no_mark : ∀ c ∈ name.toList, c ∉ signatureMarks

theorem IsBare.not_mem {name : String} (h : IsBare name) {c : Char} (hc : c ∈ signatureMarks) :
    c ∉ name.toList :=
  fun hmem => h.no_mark c hmem hc

theorem IsBare.plainName {name : String} (h : IsBare name) : PlainName name where
  ne_empty := h.ne_empty
  no_comma := h.not_mem (by decide)
  no_less := h.not_mem (by decide)
  last := by
    intro c hc
    have hmark := h.no_mark c (List.mem_of_mem_getLast? hc)
    by_contra hclose
    simp only [closesType, Bool.not_eq_false, Bool.or_eq_true, decide_eq_true_eq] at hclose
    rcases hclose with (rfl | rfl) | rfl
    · exact hmark (by decide)
    · exact hmark (by decide)
    · exact hmark (by decide)

/-- Dotted names are bare. -/
theorem IsDotted.isBare {name : String} (h : IsDotted name) : IsBare name where
  ne_empty := by
    rintro rfl
    obtain ⟨head, tail, hhead, htail, heq⟩ := h
    exact (plainName_joinWith hhead.1 htail).ne_empty heq.symm
  no_mark := by
    intro c hc hmark
    have hother : signatureMarks.all (fun c => c ≠ '.' && !Lexer.isIdentRest c) = true := by decide
    have hc' := List.all_eq_true.mp hother c hmark
    rcases h.forall_mem c hc with rfl | hrest
    · simp at hc'
    · simp [hrest] at hc'

namespace TypeRef

mutual

/-- The names in a type, its own and those of its arguments. -/
def names : TypeRef → List String
  | mk name args _ => name :: namesOfAll args

/-- The names in a list of types. -/
def namesOfAll : List TypeRef → List String
  | [] => []
  | t :: ts => names t ++ namesOfAll ts

end

mutual

theorem isPlain_of_names (t : TypeRef) (h : ∀ n ∈ t.names, PlainName n) : t.IsPlain :=
  match t with
  | mk name args _ => by
    rw [names, List.forall_mem_cons] at h
    exact ⟨h.1, arePlain_of_names args h.2⟩

theorem arePlain_of_names (ts : List TypeRef) (h : ∀ n ∈ namesOfAll ts, PlainName n) :
    ArePlain ts :=
  match ts with
  | [] => trivial
  | t :: ts => by
    rw [namesOfAll, List.forall_mem_append] at h
    exact ⟨isPlain_of_names t h.1, arePlain_of_names ts h.2⟩

end

/-! ## The characters of a text -/

section
variable {c : Char} (hc : c ∉ typeMarks)
include hc

theorem not_mem_brackets (n : Nat) : c ∉ brackets n := by
  have hc' : c ≠ '[' ∧ c ≠ ']' := by simp_all [typeMarks]
  induction n with
  | zero => simp [brackets]
  | succ n ih => simp [brackets, hc', ih]

mutual

/-- A character of the text of a type belongs to a name or stands between names. -/
theorem not_mem_text (t : TypeRef) (h : ∀ n ∈ t.names, c ∉ n.toList) : c ∉ t.text.toList :=
  have hless : c ≠ '<' ∧ c ≠ '>' := by simp_all [typeMarks]
  match t with
  | mk name [] dims => by
    rw [names, List.forall_mem_cons] at h
    rw [toList_text_bare, List.mem_append]
    exact not_or.mpr ⟨h.1, not_mem_brackets hc dims⟩
  | mk name (arg :: args) dims => by
    rw [names, List.forall_mem_cons, namesOfAll, List.forall_mem_append] at h
    rw [toList_text_applied]
    simp only [List.mem_append, List.mem_cons, not_or]
    exact ⟨h.1, hless.1, not_mem_text arg h.2.1, not_mem_restText args h.2.2, hless.2,
      not_mem_brackets hc dims⟩

theorem not_mem_restText (ts : List TypeRef) (h : ∀ n ∈ namesOfAll ts, c ∉ n.toList) :
    c ∉ (restText ts).toList :=
  have hcomma : c ≠ ',' := by simp_all [typeMarks]
  match ts with
  | [] => by simp [restText]
  | t :: ts => by
    rw [namesOfAll, List.forall_mem_append] at h
    rw [toList_restText_cons]
    simp only [List.mem_append, List.mem_cons, not_or]
    exact ⟨hcomma, not_mem_text t h.1, not_mem_restText ts h.2⟩

end

end

end TypeRef

/-! ## Signatures -/

/-- A text is divided in one way only by the last occurrence of a character. -/
theorem append_cons_inj_of_last {c : Char} {xs ys us vs : List Char} (hus : c ∉ us) (hvs : c ∉ vs)
    (h : xs ++ c :: us = ys ++ c :: vs) : xs = ys ∧ us = vs := by
  have hrev : us.reverse ++ c :: xs.reverse = vs.reverse ++ c :: ys.reverse := by
    simpa using congrArg List.reverse h
  obtain ⟨hu, hx⟩ := append_cons_inj (by simpa using hus) (by simpa using hvs) hrev
  exact ⟨List.reverse_injective hx, List.reverse_injective hu⟩

/-- Whatever a method is called, its signature determines its name and the types of its parameters
    if these have bare names. -/
theorem signature_inj_of_isBare {name name' : String} {ts us : List TypeRef}
    (ht : ∀ t ∈ ts, ∀ n ∈ t.names, IsBare n) (hu : ∀ t ∈ us, ∀ n ∈ t.names, IsBare n)
    (h : signature name (ts.map (·.text)) = signature name' (us.map (·.text))) :
    name = name' ∧ ts = us := by
  -- there is no opening parenthesis behind the one after the name
  have hopen : ∀ ts : List TypeRef, (∀ t ∈ ts, ∀ n ∈ t.names, IsBare n) →
      '(' ∉ (Text.joinWith "," (ts.map (·.text))).toList ++ [')'] := by
    intro ts hts
    rw [List.mem_append, not_or]
    refine ⟨not_mem_joinWith (by decide) (List.forall_mem_map.mpr fun t ht => ?_), by decide⟩
    exact TypeRef.not_mem_text (by decide) t fun n hn => (hts t ht n hn).not_mem (by decide)
  have hplain : ∀ ts : List TypeRef, (∀ t ∈ ts, ∀ n ∈ t.names, IsBare n) → TypeRef.ArePlain ts :=
    fun ts hts => TypeRef.arePlain_iff.mpr fun t ht =>
      TypeRef.isPlain_of_names t fun n hn => (hts t ht n hn).plainName
  have hsplit := congrArg String.toList h
  rw [toList_signature, toList_signature] at hsplit
  obtain ⟨hnames, htypes⟩ := append_cons_inj_of_last (hopen ts ht) (hopen us hu) hsplit
  have htypes := String.toList_inj.mp (List.append_cancel_right htypes)
  exact ⟨String.toList_inj.mp hnames, TypeRef.joinWith_text_inj (hplain ts ht) (hplain us hu) htypes⟩

/-! ## Overloads -/

namespace MethodDescriptor

/-- The types of the parameters. -/
def types (m : MethodDescriptor) : List TypeRef := m.params.map (·.type)

/-- The types of the parameters have bare names. -/
def HasBareTypes (m : MethodDescriptor) : Prop := ∀ t ∈ m.types, ∀ n ∈ t.names, IsBare n

theorem signature_eq (m : MethodDescriptor) :
    m.signature = ActorIdl.signature m.name (m.types.map (·.text)) := by
  rw [types, List.map_map]
  rfl

theorem eq_of_signature_eq {m n : MethodDescriptor} (hm : m.HasBareTypes) (hn : n.HasBareTypes)
    (h : m.signature = n.signature) : m.name = n.name ∧ m.types = n.types := by
  rw [signature_eq, signature_eq] at h
  exact signature_inj_of_isBare hm hn h

end MethodDescriptor

/-- One method of each overload is left when methods are collected. -/
theorem overloads_firstOfSignature {ms : List MethodDescriptor} (h : ∀ m ∈ ms, m.HasBareTypes) :
    (∀ m ∈ ms, ∃ m' ∈ firstOfSignature [] ms, m'.name = m.name ∧ m'.types = m.types) ∧
      ((firstOfSignature [] ms).map fun m => (m.name, m.types)).Nodup := by
  have hsub := firstOfSignature_sublist [] ms
  constructor
  · intro m hm
    have hhas : (ms.find? (·.signature == m.signature)).isSome = true :=
      List.find?_isSome.mpr ⟨m, hm, by simp⟩
    obtain ⟨m', hfind⟩ := Option.isSome_iff_exists.mp hhas
    have hm' := List.mem_of_find?_eq_some hfind
    have hsignature : m'.signature = m.signature := by simpa using List.find?_some hfind
    exact ⟨m', mem_firstOfSignature_of_find? List.not_mem_nil hfind,
      MethodDescriptor.eq_of_signature_eq (h m' hm') (h m hm) hsignature⟩
  · -- methods of one overload would have one signature
    have hsignatures := (signatures_firstOfSignature [] ms).1
    refine List.Nodup.of_map (fun o : String × List TypeRef => signature o.1 (o.2.map (·.text))) ?_
    rw [List.map_map]
    rwa [List.map_congr_left fun m _ => MethodDescriptor.signature_eq m] at hsignatures

/-- A method that is found under a signature is the overload that the signature was written for. -/
theorem overload_of_methodBySignature? {p : Plan} (h : ∀ m ∈ p.methods, m.HasBareTypes)
    {name : String} {ts : List TypeRef} (ht : ∀ t ∈ ts, ∀ n ∈ t.names, IsBare n)
    {m : MethodDescriptor}
    (hm : p.methodBySignature? (signature name (ts.map (·.text))) = some m) :
    m.name = name ∧ m.types = ts := by
  have hsignature : m.signature = signature name (ts.map (·.text)) := by
    simpa using List.find?_some hm
  rw [m.signature_eq] at hsignature
  exact signature_inj_of_isBare (h m (List.mem_of_find?_eq_some hm)) ht hsignature

/-- Signatures of methods with bare names of types, such as dotted names, are equal only if the
    names of the methods and the types of the parameters are.  So the texts that identifiers are
    hashes of differ between overloads, of each overload one method is left when methods are
    collected, and none is mistaken for another when it is looked up. -/
theorem overload_of_signature :
    (∀ name, IsDotted name → IsBare name) ∧
      (∀ (name name' : String) (ts us : List TypeRef), (∀ t ∈ ts, ∀ n ∈ t.names, IsBare n) →
        (∀ t ∈ us, ∀ n ∈ t.names, IsBare n) →
        signature name (ts.map (·.text)) = signature name' (us.map (·.text)) →
          name = name' ∧ ts = us) ∧
      (∀ ms : List MethodDescriptor, (∀ m ∈ ms, m.HasBareTypes) →
        (∀ m ∈ ms, ∃ m' ∈ firstOfSignature [] ms, m'.name = m.name ∧ m'.types = m.types) ∧
          ((firstOfSignature [] ms).map fun m => (m.name, m.types)).Nodup) ∧
      (∀ (p : Plan) (name : String) (ts : List TypeRef) (m : MethodDescriptor),
        (∀ m ∈ p.methods, m.HasBareTypes) → (∀ t ∈ ts, ∀ n ∈ t.names, IsBare n) →
        p.methodBySignature? (signature name (ts.map (·.text))) = some m →
          m.name = name ∧ m.types = ts) :=
  ⟨fun _ h => h.isBare, fun _ _ _ _ ht hu h => signature_inj_of_isBare ht hu h,
    fun _ h => overloads_firstOfSignature h,
    fun _ _ _ _ h ht hm => overload_of_methodBySignature? h ht hm⟩

/-- The same names and marks around other types.  A method whose name goes on with a parenthesis can
    still be told from the one without. -/
theorem overload_of_signature_nested :
    let inner : List TypeRef := [.mk "a.Map" [.named "int", .named "b.C"] 1, .named "int"]
    let outer : List TypeRef := [.mk "a.Map" [.named "int"] 1, .named "b.C", .named "int"]
    (∀ t ∈ inner, ∀ n ∈ t.names, IsBare n) ∧ (∀ t ∈ outer, ∀ n ∈ t.names, IsBare n) ∧
      signature "f" (inner.map (·.text)) ≠ signature "f" (outer.map (·.text)) ∧
      signature "f(int,int" (inner.map (·.text)) ≠ signature "f" (inner.map (·.text)) := by
  intro inner outer
  have hbare : ∀ name ∈ ["a.Map", "int", "b.C"], IsBare name := by
    have hmarks : ["a.Map", "int", "b.C"].all (fun name =>
        name != "" && name.toList.all (!signatureMarks.contains ·)) = true := by decide
    intro name hname
    have hname := List.all_eq_true.mp hmarks name hname
    rw [Bool.and_eq_true, bne_iff_ne, List.all_eq_true] at hname
    exact ⟨hname.1, fun c hc => by simpa using hname.2 c hc⟩
  have hnames : ∀ ts ∈ [inner, outer], ∀ t ∈ ts, ∀ n ∈ t.names, n ∈ ["a.Map", "int", "b.C"] := by
    decide
  have hinner : ∀ t ∈ inner, ∀ n ∈ t.names, IsBare n := fun t ht n hn =>
    hbare n (hnames inner (by simp) t ht n hn)
  have houter : ∀ t ∈ outer, ∀ n ∈ t.names, IsBare n := fun t ht n hn =>
    hbare n (hnames outer (by simp) t ht n hn)
  obtain ⟨_, hinj, _⟩ := overload_of_signature
  refine ⟨hinner, houter, fun h => ?_, fun h => ?_⟩
  · have htypes := (hinj _ _ inner outer hinner houter h).2
    simp [inner, outer] at htypes
  · have hnames := (hinj _ _ inner inner hinner hinner h).1
    exact absurd hnames (by decide)

end ActorIdl
