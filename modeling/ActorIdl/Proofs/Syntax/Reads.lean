import ActorIdl.Proofs.Token.Lexing
import Mathlib.Algebra.BigOperators.Group.List.Basic
/-! # Sources that the parser accepts

    `x.Reads ts us P` says that `x` accepts the tokens `ts` where the tokens `us` follow them, reads
    exactly `ts` and makes a value with the property `P`; `x.Refuses us` says that `x` fails in
    front of `us`.  A choice takes its second branch only where the first one fails, so the rules
    for one predicate use the other.  Spans are left out: a parser decides by tokens alone. -/

namespace ActorIdl.Syntax

open Lexer (dottedTokens)

/-- The tokens still to be read. -/
def Input.tokens (i : Input) : List Token := i.rest.map (·.token)

theorem Input.left_eq_length (i : Input) : i.left = i.tokens.length := by
  rw [tokens, List.length_map, i.left_eq]

namespace Parser

def Reads {α : Type} (x : Parser α) (ts us : List Token) (P : α → Prop) : Prop :=
  ∀ i p, i.tokens = ts ++ us → ∃ a j q, x i p = (some (a, j), q) ∧ j.tokens = us ∧ P a

def Refuses {α : Type} (x : Parser α) (us : List Token) : Prop :=
  ∀ i p, i.tokens = us → ∃ q, x i p = (none, q)

variable {α β : Type} {x : Parser α} {f : α → Parser β} {ts us vs : List Token} {P Q : α → Prop}
  {R : β → Prop}

/-! ## Sequence and choice -/

namespace Reads

theorem mono (hx : x.Reads ts us P) (h : ∀ a, P a → Q a) : x.Reads ts us Q := by
  intro i p hi
  obtain ⟨a, j, q, hrun, hj, hP⟩ := hx i p hi
  exact ⟨a, j, q, hrun, hj, h a hP⟩

theorem pure {a : α} (h : P a) : (pure a : Parser α).Reads [] us P :=
  fun i p hi => ⟨a, i, p, rfl, hi, h⟩

theorem bind (hx : x.Reads ts (vs ++ us) P) (hf : ∀ a, P a → (f a).Reads vs us R) :
    (x >>= f).Reads (ts ++ vs) us R := by
  intro i p hi
  rw [List.append_assoc] at hi
  obtain ⟨a, j, q, hrun, hj, hP⟩ := hx i p hi
  obtain ⟨b, k, r, hrun', hk, hR⟩ := hf a hP j q hj
  refine ⟨b, k, r, ?_, hk, hR⟩
  change Parser.bind x f i p = _
  rw [Parser.bind, hrun]
  exact hrun'

/-- The second parser reads nothing. -/
theorem bind_nil (hx : x.Reads ts us P) (hf : ∀ a, P a → (f a).Reads [] us R) :
    (x >>= f).Reads ts us R := by
  have hboth := @bind _ _ x f ts us [] P R hx hf
  rwa [List.append_nil] at hboth

theorem orElse_left {y : Parser α} (hx : x.Reads ts us P) : (x <|> y).Reads ts us P := by
  intro i p hi
  obtain ⟨a, j, q, hrun, hj, hP⟩ := hx i p hi
  refine ⟨a, j, q, ?_, hj, hP⟩
  change Parser.orElse x (fun _ => y) i p = _
  rw [Parser.orElse, hrun]

theorem orElse_right {y : Parser α} (hx : x.Refuses (ts ++ us)) (hy : y.Reads ts us P) :
    (x <|> y).Reads ts us P := by
  intro i p hi
  obtain ⟨q, hrun⟩ := hx i p hi
  obtain ⟨a, j, r, hrun', hj, hP⟩ := hy i q hi
  refine ⟨a, j, r, ?_, hj, hP⟩
  change Parser.orElse x (fun _ => y) i p = _
  rw [Parser.orElse, hrun]
  exact hrun'

end Reads

namespace Refuses

theorem bind (hx : x.Refuses us) : (x >>= f).Refuses us := by
  intro i p hi
  obtain ⟨q, hrun⟩ := hx i p hi
  refine ⟨q, ?_⟩
  change Parser.bind x f i p = _
  rw [Parser.bind, hrun]

theorem bind_of_reads (hx : x.Reads ts us P) (hf : ∀ a, P a → (f a).Refuses us) :
    (x >>= f).Refuses (ts ++ us) := by
  intro i p hi
  obtain ⟨a, j, q, hrun, hj, hP⟩ := hx i p hi
  obtain ⟨r, hrun'⟩ := hf a hP j q hj
  refine ⟨r, ?_⟩
  change Parser.bind x f i p = _
  rw [Parser.bind, hrun]
  exact hrun'

end Refuses

/-! ## Tokens -/

section
variable {what : Expectation} {g : Lexeme → Option α} {t : Token}

theorem Reads.satisfy (h : ∀ l, l.token = t → ∃ a, g l = some a ∧ P a) :
    (satisfy what g).Reads [t] us P := by
  intro i p hi
  obtain ⟨l, ls, hrest, hl, hls⟩ := List.map_eq_cons_iff.mp hi
  obtain ⟨a, ha, hP⟩ := h l hl
  have hnext : i.rest.head?.bind g = some a := by rw [hrest]; exact ha
  unfold Parser.satisfy
  split
  · rename_i b hb
    rw [hnext] at hb
    cases hb
    have htail : i.rest.tail.map (·.token) = us := by rw [hrest]; exact hls
    exact ⟨a, _, p, rfl, htail, hP⟩
  · rename_i hb
    rw [hnext] at hb
    cases hb

theorem Refuses.satisfy (h : ∀ l, us.head? = some l.token → g l = none) :
    (satisfy what g).Refuses us := by
  intro i p hi
  have hnext : i.rest.head?.bind g = none := by
    cases hrest : i.rest with
    | nil => rfl
    | cons l ls =>
      apply h l
      rw [← hi, Input.tokens, hrest]
      rfl
  unfold Parser.satisfy
  split
  · rename_i b hb
    rw [hnext] at hb
    cases hb
  · exact ⟨_, rfl⟩

end

theorem Reads.keyword (k : Keyword) : (keyword k).Reads [.keyword k] us fun _ => True :=
  Reads.satisfy fun _ hl => ⟨(), if_pos hl, trivial⟩

theorem Refuses.keyword {k : Keyword} (h : us.head? ≠ some (.keyword k)) :
    (keyword k).Refuses us := by
  refine Refuses.satisfy fun l hl => if_neg fun heq => h ?_
  rw [hl, heq]

theorem Reads.symbol (s : Symbol) : (symbol s).Reads [.symbol s] us fun _ => True :=
  Reads.satisfy fun _ hl => ⟨(), if_pos hl, trivial⟩

theorem Refuses.symbol {s : Symbol} (h : us.head? ≠ some (.symbol s)) : (symbol s).Refuses us := by
  refine Refuses.satisfy fun l hl => if_neg fun heq => h ?_
  rw [hl, heq]

theorem Reads.endOfInput : endOfInput.Reads [] [] fun _ => True := by
  intro i p hi
  have hrest : i.rest = [] := List.map_eq_nil_iff.mp hi
  unfold Parser.endOfInput
  rw [hrest]
  exact ⟨(), i, p, rfl, hi, trivial⟩

/-! ## Repetition -/

theorem Reads.optional_some (hx : x.Reads ts us P) :
    (optional x).Reads ts us fun a => ∃ b, a = some b ∧ P b := by
  have hsome : (do let a ← x; return some a : Parser (Option α)).Reads ts us
      fun a => ∃ b, a = some b ∧ P b := hx.bind_nil fun b hP => .pure ⟨b, rfl, hP⟩
  exact hsome.orElse_left

theorem Reads.optional_none (hx : x.Refuses us) : (optional x).Reads [] us (· = none) :=
  .orElse_right hx.bind (.pure rfl)

section
variable {ι : Type} {print : ι → List Token} {D : ι → α → Prop}

/-- Every item is read where the later ones and then `us` follow it. -/
def ReadsEach (x : Parser α) (print : ι → List Token) (D : ι → α → Prop) (us : List Token)
    (items : List ι) : Prop :=
  ∀ b bs, (b :: bs) <:+ items → x.Reads (print b) (bs.flatMap print ++ us) (D b)

theorem Reads.atMost (hstop : x.Refuses us) {n : Nat} {items : List ι} (hn : items.length ≤ n)
    (hx : x.ReadsEach print D us items) :
    (atMost x n).Reads (items.flatMap print) us (List.Forall₂ D items) := by
  induction items generalizing n with
  | nil =>
    cases n with
    | zero => exact .pure .nil
    | succ n => exact .orElse_right hstop.bind (.pure .nil)
  | cons b bs ih =>
    cases n with
    | zero => simp at hn
    | succ n =>
      have hrest : (Parser.atMost x n).Reads (bs.flatMap print) us (List.Forall₂ D bs) :=
        ih (Nat.le_of_succ_le_succ hn) fun b' bs' h => hx b' bs' (h.trans (List.suffix_cons b bs))
      have hmore : ∀ a, D b a → (do let as ← Parser.atMost x n; return a :: as :
          Parser (List α)).Reads (bs.flatMap print) us (List.Forall₂ D (b :: bs)) :=
        fun a ha => hrest.bind_nil fun as has => .pure (.cons ha has)
      exact ((hx b bs (List.suffix_refl _)).bind hmore).orElse_left

/-- A repetition reads its items and stops at the first token that begins no further one. -/
theorem Reads.many (hstop : x.Refuses us) {items : List ι} (hprint : ∀ b ∈ items, print b ≠ [])
    (hx : x.ReadsEach print D us items) :
    (many x).Reads (items.flatMap print) us (List.Forall₂ D items) := by
  intro i p hi
  -- every item has a token, so there are at most as many items as tokens are left
  refine Reads.atMost hstop ?_ hx i p hi
  rw [i.left_eq_length, hi, List.length_append]
  have hlength : items.length ≤ (items.flatMap print).length := by
    have hone : ∀ n ∈ items.map fun b => (print b).length, 1 ≤ n := by
      simpa [List.length_pos_iff, Nat.one_le_iff_ne_zero] using hprint
    have hsum := List.length_le_sum_of_one_le _ hone
    rwa [List.length_map, ← List.length_flatMap] at hsum
  omega

theorem Reads.many_none (hstop : x.Refuses us) : (Parser.many x).Reads [] us (· = []) := by
  have hnone : (Parser.many x).Reads (([] : List Unit).flatMap fun _ => []) us
      (List.Forall₂ (fun _ _ => True) ([] : List Unit)) :=
    Reads.many hstop (by simp) fun b bs h => absurd h (by simp)
  exact hnone.mono fun as has => List.forall₂_nil_left_iff.mp has

theorem Reads.many_one (hx : x.Reads ts us P) (hts : ts ≠ []) (hstop : x.Refuses us) :
    (Parser.many x).Reads ts us fun as => ∃ a, as = [a] ∧ P a := by
  have hone : (Parser.many x).Reads ([()].flatMap fun _ => ts) us
      (List.Forall₂ (fun _ => P) [()]) := by
    refine Reads.many hstop (fun _ _ => hts) fun b bs h => ?_
    have hbs : bs = [] := by simpa using h.length_le
    rw [hbs]
    exact hx
  rw [List.flatMap_singleton] at hone
  refine hone.mono fun as has => ?_
  obtain ⟨a, as', ha, has', rfl⟩ := List.forall₂_cons_left_iff.mp has
  exact ⟨a, by rw [List.forall₂_nil_left_iff.mp has'], ha⟩

end

theorem Refuses.between {left right : Symbol} (h : us.head? ≠ some (.symbol left)) :
    (between left right x).Refuses us := (Refuses.symbol h).bind

theorem Reads.sepBy1_one {sep : Symbol} (hx : x.Reads ts us P)
    (hstop : us.head? ≠ some (.symbol sep)) :
    (sepBy1 x (Parser.symbol sep)).Reads ts us fun as => ∃ a, as = [a] ∧ P a := by
  have hmore : (Parser.many (do Parser.symbol sep; x)).Reads [] us (· = []) :=
    .many_none (Refuses.symbol hstop).bind
  have hone : ∀ a, P a → (do let as ← Parser.many (do Parser.symbol sep; x); return a :: as :
      Parser (List α)).Reads [] us fun as => ∃ a, as = [a] ∧ P a :=
    fun a ha => hmore.bind_nil fun as has => .pure ⟨a, by rw [has], ha⟩
  exact hx.bind_nil hone

/-! ## Spans -/

theorem Reads.spanned (hx : x.Reads ts us P) : (spanned x).Reads ts us fun r => P r.1 := by
  intro i p hi
  obtain ⟨a, j, q, hrun, hj, hP⟩ := hx i p hi
  refine ⟨(a, ⟨i.nextSpan.start, j.stop⟩), j, q, ?_, hj, hP⟩
  unfold Parser.spanned
  rw [hrun]

theorem Refuses.spanned (hx : x.Refuses us) : (spanned x).Refuses us := by
  intro i p hi
  obtain ⟨q, hrun⟩ := hx i p hi
  refine ⟨q, ?_⟩
  unfold Parser.spanned
  rw [hrun]

theorem Reads.checked {check : α → Except Fault β} {spanOf : α → Span}
    (hx : x.Reads ts us fun a => ∃ b, check a = .ok b ∧ R b) :
    (checked x check spanOf).Reads ts us R := by
  intro i p hi
  obtain ⟨a, j, q, hrun, hj, b, hcheck, hR⟩ := hx i none hi
  unfold Parser.checked
  rw [hrun]
  dsimp only
  rw [hcheck]
  exact ⟨b, j, _, rfl, hj, hR⟩

end Parser

/-! ## Names and types -/

/-- No token is a doc comment. -/
def NoDocs (ts : List Token) : Prop := ∀ t ∈ ts, t.isDoc = false

@[simp] theorem noDocs_nil : NoDocs [] := fun _ ht => absurd ht List.not_mem_nil

@[simp] theorem noDocs_cons {t : Token} {ts : List Token} :
    NoDocs (t :: ts) ↔ t.isDoc = false ∧ NoDocs ts := List.forall_mem_cons

@[simp] theorem noDocs_append {ts us : List Token} : NoDocs (ts ++ us) ↔ NoDocs ts ∧ NoDocs us :=
  List.forall_mem_append

@[simp] theorem noDocs_dottedTokens (head : String) (tail : List String) :
    NoDocs (dottedTokens head tail) := by
  have hword : ∀ w, (Lexer.word w).isDoc = false := by
    intro w
    unfold Lexer.word
    split <;> rfl
  refine noDocs_cons.mpr ⟨rfl, fun t ht => ?_⟩
  obtain ⟨w, _, ht⟩ := List.mem_flatMap.mp ht
  simp only [List.mem_cons, List.not_mem_nil, or_false] at ht
  rcases ht with rfl | rfl
  · rfl
  · exact hword w

namespace Parser

variable {us : List Token}

theorem reads_ident (name : String) : ident.Reads [.ident name] us (·.text = name) :=
  Reads.satisfy fun l hl => ⟨⟨name, l.span⟩, by rw [hl], rfl⟩

theorem reads_segment (w : String) : segment.Reads [Lexer.word w] us (·.text = w) := by
  refine Reads.satisfy fun l hl => ?_
  rw [hl, Lexer.word]
  cases hw : Keyword.ofText? w with
  | none => exact ⟨⟨w, l.span⟩, rfl, rfl⟩
  | some k => exact ⟨⟨k.text, l.span⟩, rfl, Keyword.text_of_ofText? hw⟩

theorem reads_qualified {head : String} {tail : List String}
    (hus : us.head? ≠ some (.symbol .dot)) :
    qualified.Reads (dottedTokens head tail) us fun q => q.segments.map Name.text = head :: tail := by
  have hmore : ∀ w vs, (do symbol .dot; segment).Reads [.symbol .dot, Lexer.word w] vs
      (·.text = w) :=
    fun w vs => (Reads.symbol .dot).bind fun _ _ => reads_segment w
  have htail : (many (do symbol .dot; segment)).Reads
      (tail.flatMap fun w => [.symbol .dot, Lexer.word w]) us (·.map Name.text = tail) := by
    have hlist := Reads.many (Refuses.symbol hus).bind (by simp) fun w ws
      (_ : w :: ws <:+ tail) => hmore w _
    refine hlist.mono fun ns hns => ?_
    clear hlist
    -- the names that were read, one for each of the texts
    induction hns with
    | nil => rfl
    | cons h _ ih => rw [List.map_cons, h, ih]
  have hnames : (do
      let head ← ident
      let tail ← many (do symbol .dot; segment)
      return (head, tail)).Reads (dottedTokens head tail) us
        fun r : Name × List Name => r.1.text = head ∧ r.2.map Name.text = tail :=
    (reads_ident head).bind fun _ hhead => htail.bind_nil fun _ htail => .pure ⟨hhead, htail⟩
  refine hnames.spanned.bind_nil fun r hr => .pure ?_
  rw [QualifiedName.segments, List.map_cons, hr.1, hr.2]

theorem reads_nameLine (k : Keyword) (head : String) (tail : List String) :
    (nameLine k).Reads (.keyword k :: (dottedTokens head tail ++ [.symbol .semi])) us
      fun q => q.segments.map Name.text = head :: tail :=
  (Reads.keyword k).bind fun _ _ => (reads_qualified (by simp)).bind fun _ hq =>
    (Reads.symbol .semi).bind_nil fun _ _ => .pure hq

theorem refuses_nameLine {k : Keyword} (h : us.head? ≠ some (.keyword k)) :
    (nameLine k).Refuses us := (Refuses.keyword h).bind

/-- A type without arguments and dimensions. -/
theorem reads_type {head : String} {tail : List String} (hdot : us.head? ≠ some (.symbol .dot))
    (hless : us.head? ≠ some (.symbol .less)) (hbracket : us.head? ≠ some (.symbol .leftBracket)) :
    type.Reads (dottedTokens head tail) us fun t =>
      t.name.segments.map Name.text = head :: tail ∧ t.args = [] ∧ t.dims = 0 := by
  -- on every level, since neither arguments nor dimensions follow
  have hwithin : ∀ n, (typeWithin (n + 1)).Reads (dottedTokens head tail) us fun t =>
      t.name.segments.map Name.text = head :: tail ∧ t.args = [] ∧ t.dims = 0 := by
    intro n
    have hargs : (optional (between .less .greater
        (sepBy1 (typeWithin n) (symbol .comma)))).Reads [] us (· = none) :=
      .optional_none (.between hless)
    have hdims : (many brackets).Reads [] us (· = []) := .many_none (Refuses.symbol hbracket).bind
    have hparts : (do
        let name ← qualified
        let args ← optional (between .less .greater (sepBy1 (typeWithin n) (symbol .comma)))
        let dims ← many brackets
        return (name, args.getD [], dims.length)).Reads (dottedTokens head tail) us
          fun r : QualifiedName × List TypeExpr × Nat =>
            r.1.segments.map Name.text = head :: tail ∧ r.2.1 = [] ∧ r.2.2 = 0 :=
      (reads_qualified hdot).bind_nil fun _ hname => hargs.bind_nil fun _ hargs =>
        hdims.bind_nil fun _ hdims => .pure ⟨hname, by rw [hargs]; rfl, by rw [hdims]; rfl⟩
    refine Reads.checked (hparts.spanned.bind_nil fun r hr => .pure ?_)
    refine ⟨_, if_pos ?_, hr⟩
    exact hr.2.2 ▸ Nat.zero_le _
  exact fun i => hwithin i.left i

/-- An annotation without arguments. -/
theorem reads_annotationUse {head : String} {tail : List String}
    (hdot : us.head? ≠ some (.symbol .dot)) (hparen : us.head? ≠ some (.symbol .leftParen)) :
    annotationUse.Reads (.symbol .atSign :: dottedTokens head tail) us
      fun a => a.name.segments.map Name.text = head :: tail ∧ a.args = [] := by
  have hargs : (optional (between .leftParen .rightParen
      (sepBy argument (symbol .comma)))).Reads [] us (· = none) :=
    .optional_none (.between hparen)
  have hparts : (do
      symbol .atSign
      let name ← qualified
      let args ← optional (between .leftParen .rightParen (sepBy argument (symbol .comma)))
      return (name, args.getD [])).Reads (.symbol .atSign :: dottedTokens head tail) us
        fun r : QualifiedName × List String => r.1.segments.map Name.text = head :: tail ∧ r.2 = [] :=
    (Reads.symbol .atSign).bind fun _ _ => (reads_qualified hdot).bind_nil fun _ hname =>
      hargs.bind_nil fun _ hargs => .pure ⟨hname, by rw [hargs]; rfl⟩
  exact hparts.spanned.bind_nil fun _ h => .pure h

theorem refuses_annotationUse (h : us.head? ≠ some (.symbol .atSign)) :
    annotationUse.Refuses us := (Refuses.symbol h).bind.spanned.bind

end Parser

/-! ## Whole sources -/

theorem attachAfter_eq_self {ls : List Lexeme} (h : ∀ l ∈ ls, l.token.isDoc = false)
    (last : Option Token) : DocComment.attachAfter last ls = ls := by
  induction ls generalizing last with
  | nil => rfl
  | cons l ls ih =>
    obtain ⟨hl, hls⟩ := List.forall_mem_cons.mp h
    rw [DocComment.attachAfter, hl, Bool.false_and, if_neg (by decide), ih hls]

/-- A source without doc comments whose tokens the grammar accepts is well formed. -/
theorem parse_of_lexes {source : String} {ts : List Token} {P : CompilationUnit → Prop}
    (hlexes : Lexer.Lexes source.toList ts) (hdocs : NoDocs ts)
    (hunit : Parser.unit.Reads ts [] P) : ∃ u, parse source = ⟨some u, []⟩ ∧ P u := by
  obtain ⟨herrors, htokens⟩ := hlexes 0
  change (lex source).errors = [] at herrors
  change (lex source).lexemes.map (·.token) = ts at htokens
  -- without doc comments the parser gets the tokens of the lexer
  have hattach : DocComment.attach (lex source).lexemes = (lex source).lexemes := by
    refine attachAfter_eq_self (fun l hl => hdocs _ ?_) none
    rw [← htokens]
    exact List.mem_map_of_mem hl
  have hstart : (Input.start source.toList (lex source).lexemes).tokens = ts ++ [] := by
    rw [List.append_nil]
    exact htokens
  rw [← hattach] at hstart
  obtain ⟨u, j, q, hrun, _, hu⟩ := hunit _ none hstart
  exact ⟨u, by rw [parse_of_run hrun, herrors, List.map_nil], hu⟩

/-- The parsing of a source that is given by its characters.  It can be evaluated where the
    characters of a text cannot. -/
def parseChars (cs : List Char) : Parsing :=
  let lexing := Lexer.lexFrom 0 cs
  let (unit, fault) := parseLexemes cs lexing.lexemes
  ⟨unit, lexing.errors.map (fun (e, span) => ⟨.lexical e, span⟩) ++ fault.toList⟩

theorem parse_eq_parseChars {source : String} {cs : List Char} (h : source = String.ofList cs) :
    parse source = parseChars cs := by
  rw [h]
  unfold parse parseChars lex
  rw [String.toList_ofList]

end ActorIdl.Syntax
