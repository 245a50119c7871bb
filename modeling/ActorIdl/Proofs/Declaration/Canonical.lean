import ActorIdl.Declaration.Reference
import ActorIdl.Wire
import Mathlib.Data.List.Infix
/-! # Canonical texts can be read back

    The canonical text of a type determines the type, and a canonical signature determines the
    name of the method and the types of its parameters.  All that is needed is that names can be
    told from what follows them.  A name runs to the next comma or opening bracket of arguments, and
    of this piece the closing brackets at its end belong to the types around it.  A name may
    therefore have closing brackets inside, as long as it does not end in one. -/

namespace ActorIdl

/-- The characters that can follow a type before the next comma. -/
def closesType (c : Char) : Bool := c = '>' || c = '[' || c = ']'

/-- A name that ends where the text of a type goes on. -/
structure PlainName (name : String) : Prop where
  ne_empty : name ≠ ""
  no_comma : ',' ∉ name.toList
  no_less : '<' ∉ name.toList
  last : ∀ c ∈ name.toList.getLast?, closesType c = false

namespace TypeRef

mutual

/-- Every name in a type is plain. -/
def IsPlain : TypeRef → Prop
  | mk name args _ => PlainName name ∧ ArePlain args

/-- Every name in a list of types is plain. -/
def ArePlain : List TypeRef → Prop
  | [] => True
  | t :: ts => t.IsPlain ∧ ArePlain ts

end

theorem arePlain_iff {ts : List TypeRef} : ArePlain ts ↔ ∀ t ∈ ts, t.IsPlain := by
  induction ts with
  | nil => simp [ArePlain]
  | cons t ts ih => simp [ArePlain, ih]

/-! ## What follows a type -/

/-- The rest of a text behind a type: closing brackets, then the end or a comma. -/
def Ends (r : List Char) : Prop := ∀ c ∈ (r.dropWhile closesType).head?, c = ','

theorem ends_nil : Ends [] := by simp [Ends]

theorem ends_comma (r : List Char) : Ends (',' :: r) := by
  intro c hc
  have hcomma : closesType ',' = false := by decide
  simpa [hcomma, eq_comm] using hc

theorem ends_cons {c : Char} {r : List Char} (hc : closesType c = true) (hr : Ends r) :
    Ends (c :: r) := by
  unfold Ends
  rwa [List.dropWhile_cons_of_pos hc]

/-- Where the rest begins it holds no opening bracket of arguments. -/
theorem Ends.head_ne_less {r : List Char} (hr : Ends (c :: r)) : c ≠ '<' := by
  rintro rfl
  have hless : closesType '<' = false := by decide
  have := hr '<' (by simp [hless])
  exact absurd this (by decide)

/-- A text without commas in front of which the rest begins is made of closing brackets. -/
theorem Ends.closes_of_append {d r : List Char} (h : Ends (d ++ r)) (hcomma : ',' ∉ d) :
    ∀ c ∈ d, closesType c = true := by
  -- the characters that close a type stand in front of the first that does not, a comma
  induction d with
  | nil => simp
  | cons c d ih =>
    by_cases hc : closesType c = true
    · have hd : Ends (d ++ r) := by
        unfold Ends at h ⊢
        rwa [List.cons_append, List.dropWhile_cons_of_pos hc] at h
      intro x hx
      rcases List.mem_cons.mp hx with rfl | hx
      · exact hc
      · exact ih hd (fun hm => hcomma (List.mem_cons_of_mem _ hm)) x hx
    · have hhead : c = ',' := by
        apply h
        rw [List.cons_append, List.dropWhile_cons_of_neg hc]
        rfl
      exact absurd (hhead ▸ List.mem_cons_self) hcomma

/-! ## Names and dimensions -/

/-- What can stand behind a name: its arguments, or what stands behind a type. -/
def FollowsName (r : List Char) : Prop := r.head? = some '<' ∨ Ends r

/-- Of two names at the start of one text neither goes on where the other ends. -/
theorem eq_nil_of_name_append {name d r : List Char} (hname : '<' ∉ d ∧ ',' ∉ d)
    (hlast : ∀ c ∈ (name ++ d).getLast?, closesType c = false) (hr : FollowsName (d ++ r)) :
    d = [] := by
  by_contra hd
  have hhead : (d ++ r).head? ≠ some '<' := by
    rw [List.head?_append_of_ne_nil d hd]
    exact fun h => hname.1 (List.mem_of_head? h)
  have hends : Ends (d ++ r) := hr.resolve_left hhead
  -- all of `d` would be closing brackets, its last character too
  have hclose := hends.closes_of_append hname.2 _ (List.getLast_mem hd)
  rw [List.getLast?_append_of_ne_nil _ hd, List.getLast?_eq_some_getLast hd] at hlast
  rw [hlast _ rfl] at hclose
  cases hclose

theorem name_append_inj {n m : String} {r s : List Char} (hn : PlainName n) (hm : PlainName m)
    (hr : FollowsName r) (hs : FollowsName s) (h : n.toList ++ r = m.toList ++ s) :
    n = m ∧ r = s := by
  -- one of the names is the other with something behind it
  rcases List.append_eq_append_iff.mp h with ⟨d, hd, rfl⟩ | ⟨d, hd, rfl⟩
  · have hin : '<' ∉ d ∧ ',' ∉ d :=
      ⟨fun hc => hm.no_less (hd ▸ List.mem_append_right _ hc),
        fun hc => hm.no_comma (hd ▸ List.mem_append_right _ hc)⟩
    obtain rfl := eq_nil_of_name_append hin (hd ▸ hm.last) hr
    exact ⟨String.toList_inj.mp (by simpa using hd.symm), rfl⟩
  · have hin : '<' ∉ d ∧ ',' ∉ d :=
      ⟨fun hc => hn.no_less (hd ▸ List.mem_append_right _ hc),
        fun hc => hn.no_comma (hd ▸ List.mem_append_right _ hc)⟩
    obtain rfl := eq_nil_of_name_append hin (hd ▸ hn.last) hs
    exact ⟨String.toList_inj.mp (by simpa using hd), rfl⟩

/-- The text of array dimensions. -/
def brackets : Nat → List Char
  | 0 => []
  | n + 1 => '[' :: ']' :: brackets n

theorem toList_join_replicate (n : Nat) :
    (String.join (List.replicate n "[]")).toList = brackets n := by
  induction n with
  | zero => rfl
  | succ n ih => simp [List.replicate_succ, String.join_cons, brackets, ih]

theorem brackets_append_inj {n m : Nat} {r s : List Char} (hr : r.head? ≠ some '[')
    (hs : s.head? ≠ some '[') (h : brackets n ++ r = brackets m ++ s) : n = m ∧ r = s := by
  -- pair by pair; behind the last one no further bracket opens
  induction n generalizing m with
  | zero =>
    cases m with
    | zero => exact ⟨rfl, h⟩
    | succ m =>
      rw [brackets, List.nil_append] at h
      exact absurd (by rw [h]; rfl) hr
  | succ n ih =>
    cases m with
    | zero =>
      rw [brackets, brackets, List.nil_append] at h
      exact absurd (by rw [← h]; rfl) hs
    | succ m =>
      obtain ⟨rfl, rfl⟩ := ih (List.cons.inj (List.cons.inj h).2).2
      exact ⟨rfl, rfl⟩

theorem ends_brackets_append (n : Nat) {r : List Char} (hr : Ends r) : Ends (brackets n ++ r) := by
  induction n with
  | zero => exact hr
  | succ n ih => exact ends_cons rfl (ends_cons rfl ih)

/-! ## Types -/

theorem toList_text_bare (name : String) (dims : Nat) :
    (mk name [] dims).text.toList = name.toList ++ brackets dims := by
  rw [text, String.toList_append, toList_join_replicate]

theorem toList_text_applied (name : String) (arg : TypeRef) (rest : List TypeRef) (dims : Nat) :
    (mk name (arg :: rest) dims).text.toList =
      name.toList ++ '<' :: (arg.text.toList ++ ((restText rest).toList ++ '>' :: brackets dims)) := by
  rw [text]
  simp only [String.toList_append, toList_join_replicate, List.append_assoc]
  rfl

theorem toList_restText_cons (t : TypeRef) (ts : List TypeRef) :
    (restText (t :: ts)).toList = ',' :: (t.text.toList ++ (restText ts).toList) := by
  simp [restText]

/-- Further types go on with a comma. -/
theorem ends_restText_append (ts : List TypeRef) {r : List Char} (hr : Ends r) :
    Ends ((restText ts).toList ++ r) := by
  cases ts with
  | nil => exact hr
  | cons t ts =>
    rw [toList_restText_cons]
    exact ends_comma _

theorem head_restText_append (ts : List TypeRef) {r : List Char} (hr : r.head? ≠ some '[') :
    ((restText ts).toList ++ r).head? ≠ some '[' := by
  cases ts with
  | nil => exact hr
  | cons t ts =>
    rw [toList_restText_cons]
    simp

mutual

/-- Of two texts that begin with a type, the types and the rests are equal if the texts are. -/
theorem text_append_inj {r s : List Char} (hr : Ends r) (hs : Ends s) (hr' : r.head? ≠ some '[')
    (hs' : s.head? ≠ some '[') (t u : TypeRef) (ht : t.IsPlain) (hu : u.IsPlain)
    (h : t.text.toList ++ r = u.text.toList ++ s) : t = u ∧ r = s :=
  match t, u with
  | mk n [] d, mk m [] e => by
    rw [toList_text_bare, toList_text_bare, List.append_assoc, List.append_assoc] at h
    obtain ⟨rfl, hdims⟩ := name_append_inj ht.1 hu.1 (.inr (ends_brackets_append d hr))
      (.inr (ends_brackets_append e hs)) h
    obtain ⟨rfl, rfl⟩ := brackets_append_inj hr' hs' hdims
    exact ⟨rfl, rfl⟩
  | mk n [] d, mk m (b :: bs) e => by
    rw [toList_text_bare, toList_text_applied, List.append_assoc, List.append_assoc] at h
    -- a bare name would be followed by arguments
    have hd := ends_brackets_append d hr
    obtain ⟨_, hargs⟩ := name_append_inj ht.1 hu.1 (.inr hd) (.inl rfl) h
    exact absurd rfl (hargs ▸ hd).head_ne_less
  | mk n (a :: as) d, mk m [] e => by
    rw [toList_text_bare, toList_text_applied, List.append_assoc, List.append_assoc] at h
    have he := ends_brackets_append e hs
    obtain ⟨_, hargs⟩ := name_append_inj ht.1 hu.1 (.inl rfl) (.inr he) h
    exact absurd rfl (hargs ▸ he).head_ne_less
  | mk n (a :: as) d, mk m (b :: bs) e => by
    rw [toList_text_applied, toList_text_applied] at h
    simp only [List.append_assoc, List.cons_append] at h
    obtain ⟨rfl, hargs⟩ := name_append_inj ht.1 hu.1 (.inl rfl) (.inl rfl) h
    have hd : Ends ('>' :: (brackets d ++ r)) := ends_cons rfl (ends_brackets_append d hr)
    have he : Ends ('>' :: (brackets e ++ s)) := ends_cons rfl (ends_brackets_append e hs)
    obtain ⟨rfl, hrest⟩ := text_append_inj (ends_restText_append as hd)
      (ends_restText_append bs he) (head_restText_append as (by simp))
      (head_restText_append bs (by simp)) a b ht.2.1 hu.2.1 (List.cons.inj hargs).2
    obtain ⟨rfl, hdims⟩ := restText_append_inj hd he (by simp) (by simp) as bs ht.2.2 hu.2.2 hrest
    obtain ⟨rfl, rfl⟩ := brackets_append_inj hr' hs' (List.cons.inj hdims).2
    exact ⟨rfl, rfl⟩

theorem restText_append_inj {r s : List Char} (hr : Ends r) (hs : Ends s)
    (hr' : r.head? ≠ some '[' ∧ r.head? ≠ some ',') (hs' : s.head? ≠ some '[' ∧ s.head? ≠ some ',')
    (ts us : List TypeRef) (ht : ArePlain ts) (hu : ArePlain us)
    (h : (restText ts).toList ++ r = (restText us).toList ++ s) : ts = us ∧ r = s :=
  match ts, us with
  | [], [] => ⟨rfl, h⟩
  | [], u :: us => by
    rw [toList_restText_cons] at h
    exact absurd (by rw [show r = _ from h]; rfl) hr'.2
  | t :: ts, [] => by
    rw [toList_restText_cons] at h
    exact absurd (by rw [show s = _ from h.symm]; rfl) hs'.2
  | t :: ts, u :: us => by
    rw [toList_restText_cons, toList_restText_cons, List.cons_append, List.cons_append,
      List.append_assoc, List.append_assoc] at h
    -- behind a comma both lists go on with a type, whose text ends at the same place
    obtain ⟨rfl, hrest⟩ := text_append_inj (ends_restText_append ts hr)
      (ends_restText_append us hs) (head_restText_append ts hr'.1) (head_restText_append us hs'.1)
      t u ht.1 hu.1 (List.cons.inj h).2
    obtain ⟨rfl, rfl⟩ := restText_append_inj hr hs hr' hs' ts us ht.2 hu.2 hrest
    exact ⟨rfl, rfl⟩

end

/-! ## Signatures -/

theorem joinWith_map_text (t : TypeRef) (ts : List TypeRef) :
    Text.joinWith "," ((t :: ts).map text) = t.text ++ restText ts := by
  induction ts generalizing t with
  | nil => simp [Text.joinWith, restText]
  | cons u us ih =>
    calc Text.joinWith "," ((t :: u :: us).map text)
        = t.text ++ "," ++ Text.joinWith "," ((u :: us).map text) := rfl
      _ = t.text ++ "," ++ (u.text ++ restText us) := by rw [ih]
      _ = t.text ++ restText (u :: us) := by
        rw [restText, String.append_assoc, String.append_assoc]

theorem text_ne_empty {t : TypeRef} (ht : t.IsPlain) : t.text ≠ "" := by
  obtain ⟨name, args, dims⟩ := t
  intro h
  have hnil := congrArg String.toList h
  apply ht.1.ne_empty
  cases args with
  | nil =>
    rw [toList_text_bare] at hnil
    simpa using (List.append_eq_nil_iff.mp hnil).1
  | cons a as =>
    rw [toList_text_applied] at hnil
    simpa using (List.append_eq_nil_iff.mp hnil).1

/-- The texts of a list of types with commas between them determine the list. -/
theorem joinWith_text_inj {ts us : List TypeRef} (ht : ArePlain ts) (hu : ArePlain us)
    (h : Text.joinWith "," (ts.map text) = Text.joinWith "," (us.map text)) : ts = us := by
  cases ts with
  | nil =>
    cases us with
    | nil => rfl
    | cons u us =>
      -- the text of a type is not empty, so neither is a list of them
      rw [joinWith_map_text] at h
      exact absurd (String.append_eq_empty_iff.mp h.symm).1 (text_ne_empty hu.1)
  | cons t ts =>
    cases us with
    | nil =>
      rw [joinWith_map_text] at h
      exact absurd (String.append_eq_empty_iff.mp h).1 (text_ne_empty ht.1)
    | cons u us =>
      rw [joinWith_map_text, joinWith_map_text] at h
      have htexts := congrArg String.toList h
      rw [String.toList_append, String.toList_append] at htexts
      -- behind the first type the text ends or goes on with a comma, so its own text ends there
      have hends : ∀ vs, Ends (restText vs).toList ∧ (restText vs).toList.head? ≠ some '[' := by
        intro vs
        have hends := ends_restText_append vs ends_nil
        have hhead := head_restText_append vs (r := []) (by simp)
        rw [List.append_nil] at hends hhead
        exact ⟨hends, hhead⟩
      obtain ⟨rfl, hrest⟩ := text_append_inj (hends ts).1 (hends us).1 (hends ts).2 (hends us).2 t u
        ht.1 hu.1 htexts
      obtain ⟨rfl, _⟩ := restText_append_inj ends_nil ends_nil (by simp) (by simp) ts us ht.2 hu.2
        (congrArg (· ++ []) hrest)
      rfl

end TypeRef

/-- A text is divided in one way only by the first occurrence of a character. -/
theorem append_cons_inj {c : Char} {xs ys us vs : List Char} (hxs : c ∉ xs) (hys : c ∉ ys)
    (h : xs ++ c :: us = ys ++ c :: vs) : xs = ys ∧ us = vs := by
  rcases List.append_eq_append_iff.mp h with ⟨d, rfl, hd⟩ | ⟨d, rfl, hd⟩
  · cases d with
    | nil => exact ⟨(List.append_nil _).symm, (List.cons.inj hd).2⟩
    | cons a d =>
      obtain ⟨rfl, _⟩ := List.cons.inj hd
      exact absurd (List.mem_append_right _ List.mem_cons_self) hys
  · cases d with
    | nil => exact ⟨List.append_nil _, (List.cons.inj hd).2.symm⟩
    | cons a d =>
      obtain ⟨rfl, _⟩ := List.cons.inj hd
      exact absurd (List.mem_append_right _ List.mem_cons_self) hxs

theorem toList_signature (name : String) (types : List String) :
    (signature name types).toList =
      name.toList ++ '(' :: ((Text.joinWith "," types).toList ++ [')']) := by
  simp [signature]

/-- The canonical signature of a method determines its name and the types of its parameters. -/
theorem signature_inj {name name' : String} {ts us : List TypeRef} (hname : '(' ∉ name.toList)
    (hname' : '(' ∉ name'.toList) (ht : TypeRef.ArePlain ts) (hu : TypeRef.ArePlain us)
    (h : signature name (ts.map (·.text)) = signature name' (us.map (·.text))) :
    name = name' ∧ ts = us := by
  have hsplit := congrArg String.toList h
  rw [toList_signature, toList_signature] at hsplit
  obtain ⟨hnames, htypes⟩ := append_cons_inj hname hname' hsplit
  have htypes := String.toList_inj.mp (List.append_cancel_right htypes)
  exact ⟨String.toList_inj.mp hnames, TypeRef.joinWith_text_inj ht hu htypes⟩

end ActorIdl
