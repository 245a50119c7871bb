import ActorIdl.Proofs.Syntax.Accepts
import ActorIdl.Proofs.Syntax.Blame
import ActorIdl.Proofs.Syntax.Parts
/-! # How far a parser gets

    What is pending after a parser has failed tells how much of the input it could make sense of.
    `x.Tracks source tokens m parts stop resets` says this along the grammar: in front of the tokens
    `ts`, let `k` be the length of the longest front of `ts` that is begun by the `parts` of what
    `x` derives.  If `x` fails, the pending fault is at the token behind that front.  If it
    succeeds, it has read all parts of a derivation; either that front is no longer than this, or
    the pending fault is at the token behind the front, and the input goes on with a token of the
    class `stop`, by which something that `x` could have read was begun.

    Before `x` a fault can already be pending at a token further on, `c` tokens from here.  It is
    kept where no token of the class `resets` follows; where one does, `x` may try a type, and that
    forgets what was pending.

    The bound `m` on the number of tokens is for declarations, whose nesting is bounded. -/

namespace ActorIdl.Syntax

open Grammar (Avoids Begins Starts Listed Begun IsLongest optionalParts mark word noToken isMark isWord)

/-! ## What is pending -/

/-- The place of the first of some tokens, or the end of the source. -/
def placeAt (source : List Char) : List Lexeme → Span
  | [] => ⟨Text.byteLength source, Text.byteLength source⟩
  | l :: _ => l.span

theorem Input.nextSpan_eq (i : Input) : i.nextSpan = placeAt i.source i.rest := by
  unfold Input.nextSpan
  cases i.rest <;> rfl

/-- The first of some tokens was not expected, or the end of the source. -/
def unexpectedAt (source : List Char) (us : List Lexeme) (expected : List Expectation) :
    SourceFault :=
  ⟨.unexpected (us.head?.map (·.token)) expected, placeAt source us⟩

/-- The fault is that the first of these tokens was not expected. -/
def Pending.IsAt (source : List Char) (f : Pending) (us : List Lexeme) : Prop :=
  f.left = us.length ∧ ∃ expected, f.fault = unexpectedAt source us expected

/-- What is pending is at the first of these tokens. -/
def Meets (source : List Char) (p : Option Pending) (us : List Lexeme) : Prop :=
  ∃ f ∈ p, f.IsAt source us

/-- What is pending is at the first of these tokens or in front of them. -/
def Upto (source : List Char) (p : Option Pending) (us : List Lexeme) : Prop :=
  ∀ f ∈ p, us.length < f.left ∨ f.IsAt source us

/-- What is pending is at the token behind the next `c` ones, or in front of the next one. -/
structure Stands (source : List Char) (p : Option Pending) (ts : List Lexeme) (c : Nat) : Prop where
  upto : Upto source p (ts.drop c)
  meets : 0 < c → Meets source p (ts.drop c)

section
variable {source : List Char} {p : Option Pending} {ts us : List Lexeme} {c : Nat}

theorem Meets.upto (h : Meets source p us) : Upto source p us := by
  obtain ⟨f, hf, hat⟩ := h
  intro g hg
  cases Option.mem_unique hf hg
  exact .inr hat

theorem Meets.stands (h : Meets source p (ts.drop c)) : Stands source p ts c := ⟨h.upto, fun _ => h⟩

theorem stands_none (h : c = 0) : Stands source none ts c :=
  ⟨fun _ hf => absurd hf (Option.not_mem_none _), fun hc => absurd h hc.ne'⟩

/-- The pending fault does not move when tokens are read. -/
theorem Stands.skip (h : Stands source p (ts ++ us) c) : Stands source p us (c - ts.length) := by
  have hdrop : ts.length ≤ c → us.drop (c - ts.length) = (ts ++ us).drop c := fun hc => by
    rw [List.drop_append, List.drop_of_length_le hc, List.nil_append]
  constructor
  · rcases Nat.lt_or_ge c ts.length with hc | hc
    · -- what is pending is within `ts` and so in front of `us`
      rw [Nat.sub_eq_zero_of_le hc.le, List.drop_zero]
      intro f hf
      refine .inl ?_
      rcases h.upto f hf with hleft | ⟨hleft, _⟩ <;>
        rw [List.length_drop, List.length_append] at hleft <;> omega
    · -- what is pending is within `us`, nearer by the length of `ts`
      rw [hdrop hc]
      exact h.upto
  · intro hc
    rw [hdrop (Nat.le_of_lt (Nat.lt_of_sub_pos hc))]
    exact h.meets (by omega)

/-- A token that was not expected here is pending unless something further on is. -/
theorem Stands.add (h : Stands source p us c) (hc : c ≤ us.length) (what : Expectation) :
    Meets source (Pending.add p us.length (unexpectedAt source us [what])) (us.drop c) := by
  cases p with
  | none =>
    obtain rfl : c = 0 := by
      by_contra hpos
      obtain ⟨_, hf, _⟩ := h.meets (Nat.pos_of_ne_zero hpos)
      cases hf
    exact ⟨_, rfl, rfl, _, rfl⟩
  | some f =>
    have hleft : 0 < c → f.left + c = us.length := by
      intro hpos
      obtain ⟨_, hf, hat, _⟩ := h.meets hpos
      cases hf
      rw [hat, List.length_drop]
      omega
    unfold Pending.add
    dsimp only
    split
    · obtain rfl : c = 0 := by omega
      exact ⟨_, rfl, rfl, _, rfl⟩
    · split
      · -- what is pending is further on
        rename_i hfurther
        refine h.meets (Nat.pos_of_ne_zero fun hzero => ?_)
        subst hzero
        rcases h.upto f rfl with hf | ⟨hf, _⟩ <;> rw [List.drop_zero] at hf <;> omega
      · obtain rfl : c = 0 := by omega
        rw [List.drop_zero]
        rcases h.upto f rfl with hf | ⟨hf, expected, hfault⟩
        · rw [List.drop_zero] at hf
          omega
        · refine ⟨_, rfl, rfl, ?_⟩
          rw [hfault]
          exact ⟨_, rfl⟩

/-- A fault in front of the next token does not matter. -/
theorem Stands.add_before (h : Stands source p (ts ++ us) c) (hc : c ≤ (ts ++ us).length)
    (hts : ts ≠ []) (new : SourceFault) :
    Stands source (Pending.add p (ts ++ us).length new) us (c - ts.length) := by
  have hpos := List.length_pos_of_ne_nil hts
  rw [List.length_append] at hc
  by_cases hzero : c = 0
  · -- the new fault is pending or an older one, and both are in front of `us`
    subst hzero
    refine ⟨fun f hf => .inl ?_, fun hlt => absurd hlt (by omega)⟩
    rw [Nat.zero_sub, List.drop_zero]
    have hleft : (ts ++ us).length ≤ f.left := by
      have hold : ∀ g ∈ p, (ts ++ us).length ≤ g.left := by
        intro g hg
        rcases h.upto g hg with hlt | ⟨heq, _⟩
        · exact hlt.le
        · exact heq.ge
      unfold Pending.add at hf
      split at hf
      · cases hf
        exact Nat.le_refl _
      · rename_i g
        have hg := hold g rfl
        split at hf
        · cases hf
          exact Nat.le_refl _
        · split at hf
          · cases hf
            exact hg
          · cases hf
            exact Nat.le_refl _
    rw [List.length_append] at hleft
    omega
  · -- what is pending is further on than the new fault, so it stays
    obtain ⟨f, hf, hat, _⟩ := h.meets (Nat.pos_of_ne_zero hzero)
    cases hf
    have hleft : f.left < (ts ++ us).length := by
      rw [hat, List.length_drop, List.length_append]
      omega
    have hsame : Pending.add (some f) (ts ++ us).length new = some f := by
      unfold Pending.add
      dsimp only
      rw [if_neg (Nat.lt_asymm hleft), if_pos hleft]
    rw [hsame]
    exact h.skip

end

namespace Parser

/-! ## Outcomes -/

variable {α β δ δ₁ δ₂ : Type} {source : List Char} {tokens : List Lexeme}

/-- How a run ends in front of the tokens `ts` when what is pending stands at the `c`-th of them. -/
inductive Outcome (source : List Char) (parts : δ → List (List Lexeme)) (stop : Token → Bool)
    (ts : List Lexeme) (c : Nat) : Option (α × Input) × Option Pending → Prop where
  | failed {q : Option Pending} (k : Nat) (longest : IsLongest (Begun parts) ts k)
      (meets : Meets source q (ts.drop (max c k))) : Outcome source parts stop ts c (none, q)
  | passed {a : α} {j : Input} {q : Option Pending} (d : δ) (k : Nat)
      (longest : IsLongest (Begun parts) ts k) (rest : ts = (parts d).flatten ++ j.rest)
      (source_eq : j.source = source)
      (stands : Stands source q j.rest (max c k - (parts d).flatten.length))
      (begins : (parts d).flatten.length < k → Begins stop j.rest) :
      Outcome source parts stop ts c (some (a, j), q)

/-- What is pending is at the token behind the longest front of the input that is begun, unless it
    is read over. -/
def Tracks (x : Parser α) (source : List Char) (tokens : List Lexeme) (m : Nat)
    (parts : δ → List (List Lexeme)) (stop resets : Token → Bool) : Prop :=
  ∀ i p c, i.GoesOn source tokens → i.left < m → c ≤ i.left → Stands source p i.rest c →
    (0 < c → Avoids resets i.rest) → Outcome source parts stop i.rest c (x i p)

variable {m m' c k : Nat} {x : Parser α} {f : α → Parser β} {parts : δ → List (List Lexeme)}
  {parts₁ : δ₁ → List (List Lexeme)} {parts₂ : δ₂ → List (List Lexeme)}
  {stop stop₁ stop₂ resets resets₁ resets₂ first : Token → Bool} {ts : List Lexeme}

namespace Outcome

/-- Only what is read matters, and what is pending. -/
theorem map {r : Option (α × Input)} {r' : Option (β × Input)} {q : Option Pending}
    (h : Outcome source parts stop ts c (r, q)) (hr : r.map (·.2) = r'.map (·.2)) :
    Outcome source parts stop ts c (r', q) := by
  cases h with
  | failed k longest meets =>
    cases r' with
    | none => exact .failed k longest meets
    | some r' => cases hr
  | passed d k longest rest source_eq stands begins =>
    cases r' with
    | none => cases hr
    | some r' =>
      obtain ⟨b, j'⟩ := r'
      cases Option.some.inj hr
      exact .passed d k longest rest source_eq stands begins

theorem mono {run : Option (α × Input) × Option Pending}
    (h : Outcome source parts stop ts c run) (hstop : ∀ t, stop t = true → stop₁ t = true) :
    Outcome source parts stop₁ ts c run := by
  cases h with
  | failed k longest meets => exact .failed k longest meets
  | passed d k longest rest source_eq stands begins =>
    exact .passed d k longest rest source_eq stands fun hk => (begins hk).mono hstop

/-- The same parts of other derivations. -/
theorem of_surjective {e : δ₁ → δ} (he : Function.Surjective e) (hparts : ∀ d, parts (e d) = parts₁ d)
    {run : Option (α × Input) × Option Pending} (h : Outcome source parts₁ stop ts c run) :
    Outcome source parts stop ts c run := by
  have hlongest : ∀ k, IsLongest (Begun parts₁) ts k → IsLongest (Begun parts) ts k := fun k =>
    (IsLongest.congr fun _ => Grammar.begun_of_surjective he hparts).mpr
  cases h with
  | failed k longest meets => exact .failed k (hlongest k longest) meets
  | passed d k longest rest source_eq stands begins =>
    rw [← hparts] at rest stands begins
    exact .passed (e d) k (hlongest k longest) rest source_eq stands begins

end Outcome

/-! ## Parsers that read nothing -/

/-- Succeeds without reading anything, and leaves what is pending. -/
def IsSilent (x : Parser α) : Prop := ∀ i p, ∃ a, x i p = (some (a, i), p)

theorem isSilent_pure (a : α) : (pure a : Parser α).IsSilent := fun _ _ => ⟨a, rfl⟩

theorem isSilent_sourceText (span : Span) : (sourceText span).IsSilent := fun _ _ => ⟨_, rfl⟩

namespace Tracks

theorem mono (hx : x.Tracks source tokens m parts stop resets)
    (hstop : ∀ t, stop t = true → stop₁ t = true)
    (hresets : ∀ t, resets t = true → resets₁ t = true) (hm : m' ≤ m) :
    x.Tracks source tokens m' parts stop₁ resets₁ := by
  intro i p c hi hleft hc hp hcalm
  exact (hx i p c hi (hleft.trans_le hm) hc hp fun hpos => (hcalm hpos).mono hresets).mono hstop

theorem of_surjective {e : δ₁ → δ} (hx : x.Tracks source tokens m parts₁ stop resets)
    (he : Function.Surjective e) (hparts : ∀ d, parts (e d) = parts₁ d) :
    x.Tracks source tokens m parts stop resets :=
  fun i p c hi hleft hc hp hcalm => (hx i p c hi hleft hc hp hcalm).of_surjective he hparts

theorem spanned (hx : x.Tracks source tokens m parts stop resets) :
    (spanned x).Tracks source tokens m parts stop resets := by
  intro i p c hi hleft hc hp hcalm
  have hout := hx i p c hi hleft hc hp hcalm
  unfold Parser.spanned
  cases hrun : x i p with
  | mk r q =>
    rw [hrun] at hout
    cases r with
    | none => exact hout.map rfl
    | some r => exact hout.map rfl

theorem bind_silent (hx : x.Tracks source tokens m parts stop resets) (hf : ∀ a, (f a).IsSilent) :
    (x >>= f).Tracks source tokens m parts stop resets := by
  intro i p c hi hleft hc hp hcalm
  have hout := hx i p c hi hleft hc hp hcalm
  change Outcome source parts stop i.rest c (Parser.bind x f i p)
  unfold Parser.bind
  cases hrun : x i p with
  | mk r q =>
    rw [hrun] at hout
    cases r with
    | none => exact hout.map rfl
    | some r =>
      obtain ⟨b, hb⟩ := hf r.1 r.2 q
      dsimp only
      rw [hb]
      exact hout.map rfl

/-! ## Tokens -/

/-- The part is the one token. -/
theorem satisfy [Nonempty δ] {what : Expectation} {g : Lexeme → Option α} {lexeme : δ → Lexeme}
    (hsome : ∀ d, ∃ a, g (lexeme d) = some a) (hlexeme : ∀ l a, g l = some a → ∃ d, lexeme d = l) :
    (satisfy what g).Tracks source tokens m (fun d => [[lexeme d]]) stop resets := by
  intro i p c hi _ hc hp _
  -- a token is begun by nothing or by itself
  have hbegun : ∀ b us, i.rest = b ++ us → Begun (fun d => [[lexeme d]]) b →
      b = [] ∨ ∃ l ls a, i.rest = l :: ls ∧ g l = some a ∧ b = [l] := by
    rintro b us hb ⟨d, n, rfl⟩
    cases n with
    | zero => exact .inl rfl
    | succ n =>
      obtain ⟨a, ha⟩ := hsome d
      rw [List.take_succ_cons, List.take_nil] at hb ⊢
      exact .inr ⟨lexeme d, us, a, hb, ha, rfl⟩
  unfold Parser.satisfy
  split
  · -- the token is read, so what is pending is in front of the rest or where it was
    rename_i a ha
    obtain ⟨l, hl, hgl⟩ := Option.bind_eq_some_iff.mp ha
    obtain ⟨ls, hls⟩ := List.head?_eq_some_iff.mp hl
    obtain ⟨d, rfl⟩ := hlexeme l a hgl
    have hrest : i.rest = [lexeme d] ++ i.rest.tail := by rw [hls]; rfl
    refine .passed d 1 ⟨⟨_, _, hrest, rfl, Grammar.begun_flatten d⟩, fun b us hb hbeg => ?_⟩ hrest
      hi.source_eq ?_ fun hlt => absurd hlt (Nat.lt_irrefl 1)
    · rcases hbegun b us hb hbeg with rfl | ⟨_, _, _, _, _, rfl⟩
      · exact Nat.zero_le 1
      · exact Nat.le_refl 1
    · rw [hrest] at hp
      have hskip := hp.skip
      have hsame : max c 1 - ([[lexeme d]] : List (List Lexeme)).flatten.length =
          c - [lexeme d].length := by
        simp only [List.flatten_cons, List.flatten_nil, List.append_nil, List.length_singleton]
        omega
      rw [hsame]
      exact hskip
  · -- no such token follows, and the fault is added there
    rename_i hnone
    refine .failed 0 ⟨⟨[], i.rest, rfl, rfl, Grammar.begun_nil⟩, fun b us hb hbeg => ?_⟩ ?_
    · rcases hbegun b us hb hbeg with rfl | ⟨l, ls, a, hls, hgl, rfl⟩
      · exact Nat.le_refl 0
      · rw [hls] at hnone
        have hnone : g l = none := hnone
        rw [hgl] at hnone
        cases hnone
    · rw [Nat.max_zero, Input.nextSpan_eq, hi.source_eq, i.left_eq]
      exact hp.add (hc.trans_eq i.left_eq) what

theorem symbol (s : Symbol) :
    (symbol s).Tracks source tokens m (fun span => [[mark s span]]) stop resets := by
  refine satisfy (fun span => ⟨(), if_pos rfl⟩) fun l a ha => ?_
  obtain ⟨token, span⟩ := l
  obtain ⟨rfl, _⟩ := Option.ite_none_right_eq_some.mp ha
  exact ⟨span, rfl⟩

theorem keyword (k : Keyword) :
    (keyword k).Tracks source tokens m (fun span => [[word k span]]) stop resets := by
  refine satisfy (fun span => ⟨(), if_pos rfl⟩) fun l a ha => ?_
  obtain ⟨token, span⟩ := l
  obtain ⟨rfl, _⟩ := Option.ite_none_right_eq_some.mp ha
  exact ⟨span, rfl⟩

/-- Nothing is begun at the end of the input or instead of it. -/
theorem endOfInput : endOfInput.Tracks source tokens m (fun _ : Unit => []) stop resets := by
  intro i p c hi _ hc hp _
  have hlongest : IsLongest (Begun fun _ : Unit => []) i.rest 0 := by
    refine ⟨⟨[], i.rest, rfl, rfl, Grammar.begun_nil⟩, ?_⟩
    rintro b us _ ⟨d, n, rfl⟩
    rw [List.take_nil]
    exact Nat.le_refl 0
  unfold Parser.endOfInput
  split
  · exact .passed () 0 hlongest rfl hi.source_eq (by rwa [Nat.max_zero]) fun hlt =>
      absurd hlt (Nat.lt_irrefl 0)
  · rename_i l ls hrest
    refine .failed 0 hlongest ?_
    rw [Nat.max_zero, Input.nextSpan_eq, hi.source_eq, i.left_eq]
    exact hp.add (hc.trans_eq i.left_eq) _

/-! ## Sequence -/

/-- The longest front that is begun by one thing after another, where the first one is read. -/
theorem isLongest_append [Nonempty δ₂] {d : δ₁} {us : List Lexeme} {k₁ k₂ : Nat}
    (h₁ : IsLongest (Begun parts₁) ((parts₁ d).flatten ++ us) k₁) (h₂ : IsLongest (Begun parts₂) us k₂)
    (hread : ∀ d' b vs, Begun parts₂ b → b ≠ [] →
      (parts₁ d).flatten ++ us = (parts₁ d').flatten ++ (b ++ vs) → us = b ++ vs) :
    IsLongest (Begun fun d : δ₁ × δ₂ => parts₁ d.1 ++ parts₂ d.2) ((parts₁ d).flatten ++ us)
      (max k₁ ((parts₁ d).flatten.length + k₂)) := by
  constructor
  · -- the longer one of the two fronts is begun
    rcases Nat.le_total k₁ ((parts₁ d).flatten.length + k₂) with hle | hle
    · obtain ⟨b, vs, hb, hk, hbegun⟩ := h₂.reached
      refine ⟨(parts₁ d).flatten ++ b, vs, ?_, ?_, Grammar.begun_append.mpr (.inr ⟨d, b, hbegun, rfl⟩)⟩
      · rw [hb, List.append_assoc]
      · rw [Nat.max_eq_right hle, List.length_append, hk]
    · obtain ⟨b, vs, hb, hk, hbegun⟩ := h₁.reached
      exact ⟨b, vs, hb, by rw [Nat.max_eq_left hle, hk], Grammar.begun_append.mpr (.inl hbegun)⟩
  · -- what is begun ends within the first part, or all of the first part is read and the second is
    -- begun
    intro b vs hb hbegun
    rcases Grammar.begun_append.mp hbegun with hbegun | ⟨d', b', hbegun', rfl⟩
    · exact (h₁.le b vs hb hbegun).trans (Nat.le_max_left _ _)
    · by_cases hnil : b' = []
      · subst hnil
        rw [List.append_nil] at hb ⊢
        exact (h₁.le _ vs hb (Grammar.begun_flatten d')).trans (Nat.le_max_left _ _)
      · -- the second part has begun, so the two readings of the first part are equally long
        rw [List.append_assoc] at hb
        have hus := hread d' b' vs hbegun' hnil hb
        have hsame : (parts₁ d').flatten.length = (parts₁ d).flatten.length := by
          have hlength := congrArg List.length hb
          rw [List.length_append, List.length_append, hus] at hlength
          omega
        rw [List.length_append, hsame]
        exact (Nat.add_le_add_left (h₂.le b' vs hus hbegun') _).trans (Nat.le_max_right _ _)

/-- The outcome of the second of two things is that of both, given how the first one was read. -/
theorem outcome_append [Nonempty δ₂] {d : δ₁} {us : List Lexeme} {run : Option (β × Input) × Option Pending}
    (h₁ : IsLongest (Begun parts₁) ((parts₁ d).flatten ++ us) k)
    (h₂ : Outcome source parts₂ stop₂ us (max c k - (parts₁ d).flatten.length) run)
    (hread : ∀ d' b vs, Begun parts₂ b → b ≠ [] →
      (parts₁ d).flatten ++ us = (parts₁ d').flatten ++ (b ++ vs) → us = b ++ vs)
    (hbegins : (parts₁ d).flatten.length < k → Begins stop₁ us)
    (hfollow : ∀ d, Avoids stop₁ (parts₂ d).flatten)
    (hstop : ∀ d t, (parts₂ d).flatten = [] → stop₁ t = true → stop t = true)
    (hstop₂ : ∀ t, stop₂ t = true → stop t = true) :
    Outcome source (fun d : δ₁ × δ₂ => parts₁ d.1 ++ parts₂ d.2) stop
      ((parts₁ d).flatten ++ us) c run := by
  cases h₂ with
  | failed k₂ longest₂ meets =>
    refine .failed (max k ((parts₁ d).flatten.length + k₂)) (isLongest_append h₁ longest₂ hread) ?_
    have hplace : max c (max k ((parts₁ d).flatten.length + k₂)) =
        (parts₁ d).flatten.length + max (max c k - (parts₁ d).flatten.length) k₂ := by omega
    rw [hplace, List.drop_append, List.drop_of_length_le (Nat.le_add_right _ _), List.nil_append,
      Nat.add_sub_cancel_left]
    exact meets
  | @passed b j q d₂ k₂ longest₂ rest source_eq stands begins =>
    refine .passed (d, d₂) (max k ((parts₁ d).flatten.length + k₂))
      (isLongest_append h₁ longest₂ hread) ?_ source_eq ?_ fun hlt => ?_
    · rw [rest, List.flatten_append, List.append_assoc]
    · have hplace : max c (max k ((parts₁ d).flatten.length + k₂)) -
          (parts₁ d ++ parts₂ d₂).flatten.length =
            max (max c k - (parts₁ d).flatten.length) k₂ - (parts₂ d₂).flatten.length := by
        rw [List.flatten_append, List.length_append]
        omega
      rw [hplace]
      exact stands
    · dsimp only at hlt
      rw [List.flatten_append, List.length_append] at hlt
      by_cases hlt₂ : (parts₂ d₂).flatten.length < k₂
      · exact (begins hlt₂).mono hstop₂
      · -- the first one had begun something further on, so the second one is empty
        have hbegins := hbegins (by omega)
        have hnil : (parts₂ d₂).flatten = [] := by
          by_contra hne
          rw [rest] at hbegins
          exact hbegins.not_avoids ((Grammar.begun_flatten d₂).avoids hfollow hne j.rest)
        rw [rest, hnil, List.nil_append] at hbegins
        exact hbegins.mono fun t ht => hstop d₂ t hnil ht

/-- What `x` derives is read by `x` where something goes on behind it that nothing of `x` is begun
    with. -/
theorem run_of_begun (haccepts : ∀ d, (parts₁ d).flatten.length < m →
      x.Accepts (parts₁ d).flatten stop₁) (hfollow : ∀ d, Avoids stop₁ (parts₂ d).flatten)
    {i : Input} (p : Option Pending) (hleft : i.left < m) {d : δ₁} {b us : List Lexeme}
    (hb : Begun parts₂ b) (hne : b ≠ []) (hrest : i.rest = (parts₁ d).flatten ++ (b ++ us)) :
    ∃ a j q, x i p = (some (a, j), q) ∧ j.rest.length = (b ++ us).length := by
  have hlength : (parts₁ d).flatten.length < m := by
    rw [i.left_eq, hrest, List.length_append] at hleft
    omega
  have htokens : i.tokens = Parser.tokens (parts₁ d).flatten ++ Parser.tokens (b ++ us) := by
    rw [← tokens_append, ← hrest]
    rfl
  obtain ⟨a, j, q, hrun, hj, _⟩ := haccepts d hlength _ (hb.avoids hfollow hne us) i p htokens
  refine ⟨a, j, q, hrun, ?_⟩
  have hlength := congrArg List.length hj
  rwa [Input.tokens, List.length_map, Parser.tokens, List.length_map] at hlength

/-- One thing after another.  What can follow the first one is not what it could go on with, and if
    something pending is ahead then the second one keeps it. -/
theorem bind [Nonempty δ₂] (hx : x.Tracks source tokens m parts₁ stop₁ resets₁)
    (haccepts : ∀ d, (parts₁ d).flatten.length < m → x.Accepts (parts₁ d).flatten stop₁)
    (hf : ∀ a, (f a).Tracks source tokens m' parts₂ stop₂ resets₂)
    (hm : ∀ d, m ≤ m' + (parts₁ d).flatten.length)
    (hfollow : ∀ d, Avoids stop₁ (parts₂ d).flatten)
    (hstop : ∀ d t, (parts₂ d).flatten = [] → stop₁ t = true → stop t = true)
    (hstop₂ : ∀ t, stop₂ t = true → stop t = true)
    (hresets : ∀ t, resets₁ t = true → resets t = true)
    (hcalm : ∀ d us, Avoids resets ((parts₁ d).flatten ++ us) → Avoids resets₂ us)
    (hapart : ∀ t, resets₂ t = true → stop₁ t = false) :
    (x >>= f).Tracks source tokens m (fun d : δ₁ × δ₂ => parts₁ d.1 ++ parts₂ d.2) stop resets := by
  intro i p c hi hleft hc hp hreset
  have hout := hx i p c hi hleft hc hp fun hpos => (hreset hpos).mono hresets
  have hreads := fun d b us (hb : Begun parts₂ b) hne
      (hrest : i.rest = (parts₁ d).flatten ++ (b ++ us)) =>
    run_of_begun haccepts hfollow p hleft hb hne hrest
  change Outcome source _ stop i.rest c (Parser.bind x f i p)
  unfold Parser.bind
  generalize x i p = run at hout hreads
  cases hout with
  | failed k longest meets =>
    refine .failed k ⟨?_, fun b us hb hbegun => ?_⟩ meets
    · obtain ⟨b, us, hb, hk, hbegun⟩ := longest.reached
      exact ⟨b, us, hb, hk, Grammar.begun_append.mpr (.inl hbegun)⟩
    · rcases Grammar.begun_append.mp hbegun with hbegun | ⟨d, b', hbegun', rfl⟩
      · exact longest.le b us hb hbegun
      · by_cases hnil : b' = []
        · subst hnil
          rw [List.append_nil] at hb ⊢
          exact longest.le _ us hb (Grammar.begun_flatten d)
        · obtain ⟨_, _, _, hsome, _⟩ := hreads d b' us hbegun' hnil (by rw [hb, List.append_assoc])
          cases hsome
  | @passed a j q d k longest rest source_eq stands begins =>
    dsimp only
    have hj : j.GoesOn source tokens :=
      ⟨source_eq, (rest ▸ List.suffix_append _ j.rest).trans hi.rest⟩
    have hlength := congrArg List.length rest
    rw [List.length_append, ← i.left_eq, ← j.left_eq] at hlength
    have hk := longest.le_length
    rw [← i.left_eq] at hk
    -- what is ahead of the second one was begun by the first one, or was ahead of it
    have hahead : 0 < max c k - (parts₁ d).flatten.length → Avoids resets₂ j.rest := by
      intro hpos
      by_cases hbegun : (parts₁ d).flatten.length < k
      · exact (begins hbegun).avoids (Grammar.apart_symm hapart)
      · exact hcalm d j.rest (rest ▸ hreset (by omega))
    have hout := hf a j q _ hj (by have := hm d; omega) (by omega) stands hahead
    have hread : ∀ d' b vs, Begun parts₂ b → b ≠ [] →
        (parts₁ d).flatten ++ j.rest = (parts₁ d').flatten ++ (b ++ vs) → j.rest = b ++ vs := by
      intro d' b vs hb hne heq
      obtain ⟨_, j', _, hsome, hlength'⟩ := hreads d' b vs hb hne (rest.trans heq)
      cases hsome
      exact (List.append_inj' heq hlength').2
    rw [rest] at longest ⊢
    exact outcome_append longest hout hread begins hfollow hstop hstop₂

/-- A token in front of something. -/
theorem cons [Nonempty δ₂] {lexeme : δ₁ → Lexeme}
    (hx : x.Tracks source tokens m (fun d => [[lexeme d]]) noToken noToken)
    (haccepts : ∀ d, x.Accepts [lexeme d] noToken)
    (hf : ∀ a, (f a).Tracks source tokens m' parts₂ stop resets₂) (hm : m ≤ m' + 1)
    (hcalm : ∀ d us, Avoids resets (lexeme d :: us) → Avoids resets₂ us) :
    (x >>= f).Tracks source tokens m (fun d : δ₁ × δ₂ => [lexeme d.1] :: parts₂ d.2) stop resets :=
  bind hx (fun d _ => haccepts d) hf (fun _ => hm) (fun _ _ _ => rfl) (fun _ _ _ ht => by cases ht)
    (fun _ ht => ht) (fun _ ht => by cases ht) hcalm fun _ _ => rfl

/-! ## Choice -/

/-- Something or nothing. -/
theorem orElse_silent {y : Parser α} (first : Token → Bool) (hx : x.Tracks source tokens m parts stop resets)
    (hy : y.IsSilent) (hfirst : ∀ d, Begins first (parts d).flatten) :
    (x <|> y).Tracks source tokens m (optionalParts parts) (fun t => stop t || first t) resets := by
  intro i p c hi hleft hc hp hreset
  have hout := hx i p c hi hleft hc hp hreset
  change Outcome source _ _ i.rest c (Parser.orElse x (fun _ => y) i p)
  unfold Parser.orElse
  generalize x i p = run at hout
  cases hout with
  -- `y` reads nothing, and the fault stays pending behind what `x` had begun
  | @failed q k longest meets =>
    obtain ⟨a, ha⟩ := hy i q
    dsimp only
    rw [ha]
    refine .passed none k longest.optionalParts rfl hi.source_eq meets.stands fun hpos => ?_
    obtain ⟨b, us, hb, rfl, hbegun⟩ := longest.reached
    have hbegins := (hbegun.begins hfirst (List.ne_nil_of_length_pos hpos)).append us
    rw [hb]
    exact hbegins.mono fun t ht => by rw [ht, Bool.or_true]
  | passed d k longest rest source_eq stands begins =>
    exact .passed (some d) k longest.optionalParts rest source_eq stands fun hlt =>
      (begins hlt).mono fun t ht => by rw [ht, Bool.true_or]

/-- One of two things that begin with different tokens. -/
theorem orElse [Nonempty δ₁] [Nonempty δ₂] {y : Parser α} (first second : Token → Bool)
    (hx : x.Tracks source tokens m parts₁ stop resets)
    (hy : y.Tracks source tokens m parts₂ stop noToken)
    (hfirst : ∀ d, Begins first (parts₁ d).flatten)
    (hsecond : ∀ d, Begins second (parts₂ d).flatten)
    (hapart : ∀ t, second t = true → first t = false) :
    (x <|> y).Tracks source tokens m (Sum.elim parts₁ parts₂) stop resets := by
  intro i p c hi hleft hc hp hreset
  have hout := hx i p c hi hleft hc hp hreset
  change Outcome source _ _ i.rest c (Parser.orElse x (fun _ => y) i p)
  unfold Parser.orElse
  generalize x i p = run at hout
  cases hout with
  | @failed q k longest meets =>
    have hk := longest.le_length
    have hout := hy i q (max c k) hi hleft (by rw [i.left_eq] at hc ⊢; omega) meets.stands
      fun _ => avoids_noToken
    dsimp only
    generalize y i q = run at hout
    cases hout with
    | failed k' longest' meets' =>
      rw [Nat.max_assoc] at meets'
      exact .failed (max k k') (longest.sum longest') meets'
    | @passed a j q' d k' longest' rest source_eq stands begins =>
      rw [Nat.max_assoc] at stands
      refine .passed (.inr d) (max k k') (longest.sum longest') rest source_eq stands fun hlt => ?_
      -- the first one had not begun anything, since the second one is there
      have hbegins := rest ▸ (hsecond d).append j.rest
      have hnone := longest.unique (Grammar.isLongest_zero hfirst (hbegins.avoids hapart))
      subst hnone
      exact begins (Nat.zero_max k' ▸ hlt)
  | @passed a j q d k longest rest source_eq stands begins =>
    have hbegins := rest ▸ (hfirst d).append j.rest
    have hnone := Grammar.isLongest_zero hsecond (hbegins.avoids (Grammar.apart_symm hapart))
    exact .passed (.inl d) k (Nat.max_zero k ▸ longest.sum hnone) rest source_eq stands begins

/-! ## Optional parts, repetition and lists -/

theorem optional (first : Token → Bool) (hx : x.Tracks source tokens m parts stop resets)
    (hfirst : ∀ d, Begins first (parts d).flatten) :
    (optional x).Tracks source tokens m (optionalParts parts) (fun t => stop t || first t) resets :=
  (hx.bind_silent fun a => isSilent_pure (some a)).orElse_silent first (isSilent_pure none) hfirst

section
variable (hx : x.Tracks source tokens m parts stop resets)
  (haccepts : ∀ d, (parts d).flatten.length < m → x.Accepts (parts d).flatten stop)
include hx haccepts

section
variable (hfirst : ∀ d, Begins first (parts d).flatten)
  (hnext : ∀ t, first t = true → stop t = false) (hresets : ∀ t, resets t = true → resets₁ t = true)
  (hcalm : ∀ d us, Avoids resets₁ ((parts d).flatten ++ us) → Avoids resets₁ us)
  (hapart : ∀ t, resets₁ t = true → stop t = false)
include hfirst hnext hresets hcalm hapart

theorem atMost {n : Nat} (hn : n ≤ m) : (atMost x n).Tracks source tokens n (List.flatMap parts)
    (fun t => stop t || first t) resets₁ := by
  induction n with
  | zero => exact fun i _ _ _ hleft => absurd hleft (Nat.not_lt_zero _)
  | succ n ih =>
    -- the items behind an item begin with a token by which no item goes on
    have hfollow : ∀ ds : List δ, Avoids stop (ds.flatMap parts).flatten := by
      intro ds
      rw [Grammar.flatten_flatMap (fun _ => rfl), ← List.append_nil (List.flatMap _ _)]
      exact (Grammar.starts_flatMap hfirst ds).avoids_append hnext Grammar.avoids_nil
    -- an item and at most `n` more, with fewer tokens left for them
    have hmore : (do let a ← x; let as ← Parser.atMost x n; return a :: as :
        Parser (List α)).Tracks source tokens (n + 1)
          (fun d : δ × List δ => parts d.1 ++ d.2.flatMap parts) (fun t => stop t || first t) resets₁ :=
      bind (hx.mono (fun _ ht => ht) (fun _ ht => ht) hn)
        (fun d hd => haccepts d (hd.trans_le hn))
        (fun a => (ih (Nat.le_of_succ_le hn)).bind_silent fun as => isSilent_pure (a :: as))
        (fun d => Nat.add_le_add_left (List.length_pos_of_ne_nil (hfirst d).ne_nil) n)
        hfollow (fun _ t _ ht => by rw [ht, Bool.true_or]) (fun _ ht => ht) hresets hcalm hapart
    have hall := hmore.orElse_silent first (isSilent_pure ([] : List α)) fun d => by
      rw [List.flatten_append]
      exact (hfirst d.1).append _
    -- a list is nothing, or one item and a list
    refine (hall.mono ?_ (fun _ ht => ht) (Nat.le_refl _)).of_surjective
      (e := fun o : Option (δ × List δ) => (o.map fun d => d.1 :: d.2).getD []) ?_ ?_
    · intro t ht
      rcases Bool.or_eq_true _ _ ▸ ht with ht | ht
      · exact ht
      · rw [ht, Bool.or_true]
    · intro ds
      cases ds with
      | nil => exact ⟨none, rfl⟩
      | cons d ds => exact ⟨some (d, ds), rfl⟩
    · intro o
      cases o with
      | none => rfl
      | some d => rfl

theorem many : (many x).Tracks source tokens m (List.flatMap parts)
    (fun t => stop t || first t) resets₁ := fun i p c hi hleft =>
  hx.atMost haccepts hfirst hnext hresets hcalm hapart hleft i p c hi (Nat.lt_succ_self _)

end

/-- Items with commas between them.  What a comma is followed by does not matter if no token is a
    reason to forget what is pending. -/
theorem sepBy1 [Nonempty δ] (resets₂ : Token → Bool) (hcomma : stop (.symbol .comma) = false)
    (hresets : ∀ t, resets t = true → resets₁ t = true)
    (hcalm : ∀ d us, Avoids resets₁ ((parts d).flatten ++ us) → Avoids resets₂ us)
    (hapart : ∀ t, resets₂ t = true → stop t = false)
    (hsep : ∀ span us, Avoids resets₂ (mark .comma span :: us) →
      ∀ vs, Avoids resets vs ∧ Avoids resets₂ vs) :
    (sepBy1 x (Parser.symbol .comma)).Tracks source tokens m (Listed.parts parts)
      (fun t => stop t || isMark .comma t) resets₁ := by
  have hnext : ∀ t, isMark .comma t = true → stop t = false := Grammar.class_of_isMark hcomma
  -- each further item, with the comma in front of it
  have hitem : (do Parser.symbol .comma; x).Tracks source tokens m
      (fun item : Span × δ => [mark .comma item.1] :: parts item.2) stop resets₂ :=
    cons (symbol .comma) (Accepts.symbol .comma) (fun _ => hx) (Nat.le_succ m)
      fun span us h => (hsep span us h us).1
  have hbegins : ∀ item : Span × δ,
      Begins (isMark .comma) ([mark .comma item.1] :: parts item.2).flatten :=
    fun item => .cons _ rfl
  have hitems : (Parser.many (do Parser.symbol .comma; x)).Tracks source tokens m
      (List.flatMap fun item : Span × δ => [mark .comma item.1] :: parts item.2)
      (fun t => stop t || isMark .comma t) resets₂ := by
    refine hitem.many (fun item hlength => ?_) hbegins hnext (fun _ ht => ht)
      (fun item us h => (hsep item.1 _ h us).2) hapart
    rw [List.flatten_cons, List.singleton_append] at hlength ⊢
    exact (Accepts.symbol .comma item.1).cons fun _ => haccepts item.2 (Nat.lt_of_succ_lt hlength)
  have hall := bind hx haccepts
    (fun a => hitems.bind_silent fun as => isSilent_pure (a :: as)) (fun _ => Nat.le_add_right m _)
    (fun items => ?_) (fun _ t _ ht => by rw [ht, Bool.true_or]) (fun _ ht => ht) hresets hcalm hapart
  · exact hall.of_surjective (e := fun d : δ × List (Span × δ) => Listed.mk d.1 d.2)
      (fun l => ⟨(l.first, l.more), rfl⟩) fun _ => rfl
  · rw [Grammar.flatten_flatMap (fun _ => rfl), ← List.append_nil (List.flatMap _ _)]
    exact (Grammar.starts_flatMap hbegins items).avoids_append hnext Grammar.avoids_nil

theorem between [Nonempty δ] {left right : Symbol} (hright : stop (.symbol right) = false)
    (hcalm : ∀ span us, Avoids resets₁ (mark left span :: us) → Avoids resets us) :
    (between left right x).Tracks source tokens m
      (fun d : Span × δ × Span => [mark left d.1] :: (parts d.2.1 ++ [[mark right d.2.2]]))
      noToken resets₁ := by
  have hinner : (do let a ← x; Parser.symbol right; return a : Parser α).Tracks source tokens m
      (fun d : δ × Span => parts d.1 ++ [[mark right d.2]]) noToken resets :=
    bind hx haccepts (fun a => (symbol right).bind_silent fun _ => isSilent_pure a)
      (fun _ => Nat.le_add_right m _) (fun _ => Grammar.avoids_cons _ hright)
      (fun _ _ hnil => by cases hnil) (fun _ ht => ht) (fun _ ht => ht)
      (fun _ _ _ => avoids_noToken) fun _ ht => by cases ht
  exact cons (symbol left) (Accepts.symbol left) (fun _ => hinner) (Nat.le_succ m) hcalm

end

end Tracks

end Parser

end ActorIdl.Syntax
