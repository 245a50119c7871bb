import ActorIdl.Proofs.Syntax.Attachment
import ActorIdl.Proofs.Syntax.Derives
import ActorIdl.Proofs.Syntax.Print
/-! # Lexing printed items

    White space separates the items of a layout, so each of them is lexed on its own: the lexemes of
    a printed text are the lexemes of its items, one group for each item.  An argument of an
    annotation can hold doc comments between its tokens; they are out of place, and behind the
    attachment of doc comments the groups are left without them.

    `Spells items D` says that every item can be lexed in every place and that what is left of the
    lexemes of the items is always as `D` says. -/

namespace ActorIdl

/-! ## Doc comments within an item -/

/-- The lexemes of an item without the doc comments behind the first of them. -/
def strip : List Lexeme → List Lexeme
  | [] => []
  | l :: ls => l :: ls.filter fun l => !l.token.isDoc

/-- One token, or tokens that no declaration or method can begin behind. -/
def Tame (ts : List Token) : Prop :=
  (∃ t, ts = [t]) ∨
    (∃ t us, ts = t :: us ∧ t.isDoc = false ∧ ∀ u ∈ ts, DocComment.endsItem (some u) = false)

theorem Tame.ne_nil {ts : List Token} (h : Tame ts) : ts ≠ [] := by
  obtain ⟨t, rfl⟩ | ⟨t, us, rfl, -⟩ := h
  · exact List.cons_ne_nil _ _
  · exact List.cons_ne_nil _ _

namespace DocComment

/-- Behind a token that ends nothing the doc comments are dropped. -/
theorem attachAfter_filter {last : Option Token} {ls ms ms' : List Lexeme}
    (hlast : endsItem last = false) (hls : ∀ l ∈ ls, endsItem (some l.token) = false)
    (hms : ∀ last, attachAfter last ms = attachAfter last ms') :
    attachAfter last (ls ++ ms) =
      attachAfter last ((ls.filter fun l => !l.token.isDoc) ++ ms') := by
  induction ls generalizing last with
  | nil => exact hms last
  | cons l ls ih =>
    obtain ⟨hl, hls⟩ := List.forall_mem_cons.mp hls
    cases hdoc : l.token.isDoc with
    | true =>
      rw [List.cons_append, attachAfter_of_misplaced hdoc hlast,
        List.filter_cons_of_neg (by rw [hdoc]; decide), ih hlast hls]
    | false =>
      rw [List.filter_cons_of_pos (by rw [hdoc]; decide), List.cons_append, List.cons_append,
        attachAfter_of_not_doc hdoc, attachAfter_of_not_doc hdoc, ih hl hls]

/-- The doc comments within the items are out of place. -/
theorem attachAfter_strip {groups : List (List Lexeme)}
    (h : ∀ g ∈ groups, Tame (g.map (·.token))) (last : Option Token) :
    attachAfter last groups.flatten = attachAfter last (groups.flatMap strip) := by
  -- group by group, with the token in front of it
  induction groups generalizing last with
  | nil => rfl
  | cons g groups ih =>
    obtain ⟨hg, hgroups⟩ := List.forall_mem_cons.mp h
    -- a group keeps its first lexeme, and with it what stands behind the group in front
    have hhead : groups.flatten.head? = (groups.flatMap strip).head? := by
      cases groups with
      | nil => rfl
      | cons g' groups =>
        obtain ⟨l, ls, rfl⟩ : ∃ l ls, g' = l :: ls := List.exists_cons_of_ne_nil fun hnil =>
          (hgroups g' List.mem_cons_self).ne_nil (by rw [hnil]; rfl)
        rfl
    rw [List.flatten_cons, List.flatMap_cons]
    obtain ⟨t, ht⟩ | ⟨t, us, ht, hdoc, hends⟩ := hg
    · -- a lexeme alone, a doc comment or not
      obtain ⟨l, rfl, rfl⟩ := List.map_eq_singleton_iff.mp ht
      show attachAfter last (l :: groups.flatten) = attachAfter last (l :: groups.flatMap strip)
      rw [attachAfter, attachAfter, hhead, ih hgroups, ih hgroups]
    · -- several, and none of them is a token that a doc comment can stand behind
      obtain ⟨l, ls, rfl, rfl, rfl⟩ := List.map_eq_cons_iff.mp ht
      obtain ⟨hl, hls⟩ := List.forall_mem_cons.mp (List.forall_mem_map.mp hends)
      show attachAfter last (l :: (ls ++ groups.flatten)) =
        attachAfter last (l :: ((ls.filter fun l => !l.token.isDoc) ++ groups.flatMap strip))
      rw [attachAfter_of_not_doc hdoc, attachAfter_of_not_doc hdoc,
        attachAfter_filter hl hls (ih hgroups)]

end DocComment

namespace Syntax

open Text (byteLength)

/-! ## The lexemes of a layout -/

/-- The item is lexed into these tokens in every place. -/
structure Item.LexesTo (item : Item) (ts : List Token) : Prop where
  cuts : Lexer.CutsInto item.chars ts
  tame : Tame ts

/-- The lexemes are those of the item where it stands in the source. -/
structure Item.Stands (source : List Char) (item : Item) (ts : List Token) (ls : List Lexeme) :
    Prop where
  tokens : ls.map (·.token) = ts
  text : textAt source (spanOf ls) = String.ofList item.chars
  spelled : ∀ l ∈ ls, Spelled source l

theorem isSpace_gap (item next : Item) : Lexer.isSpace (item.gap next) = true := by
  cases item <;> cases next <;> rfl

/-- An item is lexed where it stands in front of white space or the end. -/
theorem Item.LexesTo.lexFrom {item : Item} {ts : List Token} (h : item.LexesTo ts)
    (pre rest : List Char) (hrest : Lexer.Stops rest) :
    ∃ ls : List Lexeme, ls.map (·.token) = ts ∧
      textAt (pre ++ (item.chars ++ rest)) (spanOf ls) = String.ofList item.chars ∧
      Lexer.lexFrom (byteLength pre) (item.chars ++ rest) =
        (Lexer.lexFrom (byteLength (pre ++ item.chars)) rest).behind ls := by
  obtain ⟨ls, htokens, hspan, hlex⟩ := h.cuts (byteLength pre) rest hrest
  refine ⟨ls, htokens, ?_, ?_⟩
  · rw [hspan, textAt, ← List.append_assoc, Text.slice_append]
  · rw [hlex, Text.byteLength_append]

/-- Items that are lexed on their own are lexed in their layout. -/
theorem lexFrom_layout {pairs : List (Item × List Token)}
    (h : ∀ p ∈ pairs, p.1.LexesTo p.2) (pre : List Char) :
    ∃ groups : List (List Lexeme),
      List.Forall₂ (fun p ls => ls.map (·.token) = p.2 ∧
        textAt (pre ++ layout (pairs.map Prod.fst)) (spanOf ls) = String.ofList p.1.chars)
        pairs groups ∧
      Lexer.lexFrom (byteLength pre) (layout (pairs.map Prod.fst)) = ⟨groups.flatten, []⟩ := by
  -- on the items: what is in front of one is text that has been lexed before it
  induction pairs generalizing pre with
  | nil =>
    refine ⟨[], .nil, ?_⟩
    rw [List.map_nil, layout, Lexer.lexFrom]
    rfl
  | cons p pairs ih =>
    obtain ⟨hp, hpairs⟩ := List.forall_mem_cons.mp h
    cases pairs with
    | nil =>
      obtain ⟨ls, htokens, htext, hlex⟩ := hp.lexFrom pre [] Lexer.stops_nil
      rw [List.append_nil] at htext
      rw [List.append_nil, Lexer.lexFrom, Lexing.behind, List.append_nil] at hlex
      refine ⟨[ls], .cons ⟨htokens, htext⟩ .nil, ?_⟩
      rw [List.flatten_singleton]
      exact hlex
    | cons next pairs =>
      obtain ⟨ls, htokens, htext, hlex⟩ := hp.lexFrom pre
        (p.1.gap next.1 :: layout ((next :: pairs).map Prod.fst))
        (Lexer.stops_cons (isSpace_gap p.1 next.1) _)
      obtain ⟨groups, hgroups, hrest⟩ := ih hpairs (pre ++ p.1.chars ++ [p.1.gap next.1])
      have hlayout : layout ((p :: next :: pairs).map Prod.fst) =
          p.1.chars ++ p.1.gap next.1 :: layout ((next :: pairs).map Prod.fst) := rfl
      have hsplit : pre ++ layout ((p :: next :: pairs).map Prod.fst) =
          pre ++ p.1.chars ++ [p.1.gap next.1] ++ layout ((next :: pairs).map Prod.fst) := by
        rw [hlayout]
        simp
      rw [← hlayout] at htext hlex
      refine ⟨ls :: groups, .cons ⟨htokens, htext⟩ (hsplit ▸ hgroups), ?_⟩
      have hpos : byteLength (pre ++ p.1.chars ++ [p.1.gap next.1]) =
          byteLength (pre ++ p.1.chars) + (p.1.gap next.1).utf8Size := by
        rw [Text.byteLength_append]
        rfl
      rw [hlex, Lexer.lexFrom_space (isSpace_gap p.1 next.1), ← hpos, hrest]
      rfl

/-- The lexemes of a printed text, group by group, and what the parser gets of them. -/
theorem lex_layout {pairs : List (Item × List Token)} (h : ∀ p ∈ pairs, p.1.LexesTo p.2)
    {source : String} (hsource : source = String.ofList (layout (pairs.map Prod.fst))) :
    ∃ groups : List (List Lexeme),
      List.Forall₂ (fun p ls => p.1.Stands source.toList p.2 ls) pairs groups ∧
      (lex source).errors = [] ∧
      DocComment.attach (lex source).lexemes = DocComment.attach (groups.flatMap strip) := by
  have hchars : source.toList = layout (pairs.map Prod.fst) := by
    rw [hsource, String.toList_ofList]
  obtain ⟨groups, hgroups, hlex⟩ := lexFrom_layout h []
  have hlex : lex source = ⟨groups.flatten, []⟩ := by
    rw [lex, hchars]
    exact hlex
  -- every lexeme stands in the text as it is written there
  have hspelled : ∀ ls ∈ groups, ∀ l ∈ ls, Spelled source.toList l := by
    intro ls hls l hl
    refine Lexer.isWritten_of_mem ?_
    change l ∈ (lex source).lexemes
    rw [hlex]
    exact List.mem_flatten_of_mem hls hl
  refine ⟨groups, ?_, by rw [hlex], ?_⟩
  · refine List.forall₂_iff_get.mpr ⟨hgroups.length_eq, fun n hn hn' => ?_⟩
    obtain ⟨htokens, htext⟩ := (List.forall₂_iff_get.mp hgroups).2 n hn hn'
    rw [hchars] at hspelled ⊢
    exact ⟨htokens, htext, hspelled _ (List.get_mem _ _)⟩
  · -- what an item lexes to is tame, so its doc comments attach to nothing
    rw [hlex]
    refine DocComment.attachAfter_strip (fun g hg => ?_) none
    obtain ⟨n, rfl⟩ := List.get_of_mem hg
    have hn : n < pairs.length := by
      rw [hgroups.length_eq]
      exact n.isLt
    have htokens := ((List.forall₂_iff_get.mp hgroups).2 n hn n.isLt).1
    rw [htokens]
    exact (h _ (List.get_mem _ _)).tame

/-! ## What items are lexed into -/

/-- The items can be lexed in every place, and what is left of their lexemes is as `D` says. -/
def Spells (items : List Item) (D : List Char → List Lexeme → Prop) : Prop :=
  ∃ pairs : List (Item × List Token), pairs.map Prod.fst = items ∧
    (∀ p ∈ pairs, p.1.LexesTo p.2) ∧
    ∀ source groups, List.Forall₂ (fun p ls => p.1.Stands source p.2 ls) pairs groups →
      D source (groups.flatMap strip)

theorem exists_of_forall₂_append {α β : Type} {R : α → β → Prop} {as bs : List α} {cs : List β}
    (h : List.Forall₂ R (as ++ bs) cs) :
    ∃ us vs, cs = us ++ vs ∧ List.Forall₂ R as us ∧ List.Forall₂ R bs vs := by
  induction as generalizing cs with
  | nil => exact ⟨[], cs, rfl, .nil, h⟩
  | cons a as ih =>
    obtain ⟨c, cs, hac, hrest, rfl⟩ := List.forall₂_cons_left_iff.mp h
    obtain ⟨us, vs, rfl, hus, hvs⟩ := ih hrest
    exact ⟨c :: us, vs, rfl, .cons hac hus, hvs⟩

namespace Spells

variable {items items' : List Item} {D E : List Char → List Lexeme → Prop}

theorem mono (h : Spells items D) (hsub : ∀ source ls, D source ls → E source ls) :
    Spells items E := by
  obtain ⟨pairs, hitems, hlexes, hD⟩ := h
  exact ⟨pairs, hitems, hlexes, fun source groups hgroups => hsub _ _ (hD source groups hgroups)⟩

theorem nil (h : ∀ source, D source []) : Spells [] D := by
  refine ⟨[], rfl, fun p hp => absurd hp List.not_mem_nil, fun source groups hgroups => ?_⟩
  rw [List.forall₂_nil_left_iff.mp hgroups]
  exact h source

theorem single {item : Item} {ts : List Token} (h : item.LexesTo ts)
    (hD : ∀ source ls, item.Stands source ts ls → D source (strip ls)) : Spells [item] D := by
  refine ⟨[(item, ts)], rfl, ?_, fun source groups hgroups => ?_⟩
  · rintro p hp
    rw [List.mem_singleton.mp hp]
    exact h
  · obtain ⟨ls, groups, hls, hnil, rfl⟩ := List.forall₂_cons_left_iff.mp hgroups
    rw [List.forall₂_nil_left_iff.mp hnil, List.flatMap_singleton]
    exact hD source ls hls

theorem append (h : Spells items D) (h' : Spells items' E) :
    Spells (items ++ items') fun source ls =>
      ∃ us vs, ls = us ++ vs ∧ D source us ∧ E source vs := by
  obtain ⟨pairs, rfl, hlexes, hD⟩ := h
  obtain ⟨pairs', rfl, hlexes', hE⟩ := h'
  refine ⟨pairs ++ pairs', List.map_append, ?_, fun source groups hgroups => ?_⟩
  · rintro p hp
    exact (List.mem_append.mp hp).elim (hlexes p) (hlexes' p)
  · obtain ⟨us, vs, rfl, hus, hvs⟩ := exists_of_forall₂_append hgroups
    rw [List.flatMap_append]
    exact ⟨_, _, rfl, hD source us hus, hE source vs hvs⟩

end Spells

end Syntax

end ActorIdl
