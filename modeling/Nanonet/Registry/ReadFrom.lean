import Nanonet.Registry.TermParser
import Nanonet.Registry.Store

/-!
# Reading a registry is exact

`read_from` of a file returns iff its tokens are `(IDENT ASSIGN term)* END` and no key is redefined
where that throws; the registry is then updated by the pairs from left to right. Where it throws,
the registry is updated by the pairs before the first one that could not be read or added.

Everything follows from one turn of the loop: it adds a pair that stands at the head of the tokens
(`parsePair_complete`), and where no pair to add stands there it ends without touching the registry
(`readLoop_stuck`).
-/

namespace Nanonet

open Lexer

variable {D : Type}

/-! ### Pairs -/

/-- `b`, of file `f`, stands at the head of `src`, and `src'` is left when it is read. -/
def PairAt (ps : ParserStyle) (f : String) (src : Tokens D) (b : Pair D) (src' : Tokens D) : Prop :=
  b.filename = f ∧ ∃ la p,
    src = ⟨(.ident b.key, b.lineNo) :: (.punct .ASSIGN, la) :: (p ++ src'.list), src'.ending⟩ ∧
      Term ps p b.val ∧ Follow ps p src'

/-- The pairs `bs` are read from `src` one after the other, and `src'` is left. -/
inductive Reads (ps : ParserStyle) (f : String) : Tokens D → List (Pair D) → Tokens D → Prop where
  | nil (src : Tokens D) : Reads ps f src [] src
  | cons {src src' src'' : Tokens D} {b : Pair D} {bs : List (Pair D)} :
      PairAt ps f src b src' → Reads ps f src' bs src'' → Reads ps f src (b :: bs) src''

inductive Pairs (ps : ParserStyle) (f : String) : Located D → List (Pair D) → Prop where
  | nil : Pairs ps f [] []
  | cons {p q : Located D} {bs : List (Pair D)} (b : Pair D) (la : Nat) : b.filename = f →
      Term ps p b.val → Pairs ps f q bs →
      Pairs ps f ((.ident b.key, b.lineNo) :: (.punct .ASSIGN, la) :: (p ++ q)) (b :: bs)

namespace Registry

/-- The prior map updated by the pairs from left to right. -/
def defineAll (reg : Registry D) (bs : List (Pair D)) : Registry D :=
  bs.foldl (fun reg b => reg.define b.key b.mapped) reg

@[simp] theorem defineAll_nil (reg : Registry D) : reg.defineAll [] = reg := rfl

@[simp] theorem defineAll_cons (reg : Registry D) (b : Pair D) (bs : List (Pair D)) :
    reg.defineAll (b :: bs) = (reg.define b.key b.mapped).defineAll bs := rfl

@[simp] theorem define_filename (reg : Registry D) (key : Text) (m : Mapped D) :
    (reg.define key m).filename = reg.filename := rfl

theorem define_kvMap (reg : Registry D) (key key' : Text) (m : Mapped D) :
    (reg.define key m).kvMap key' = if key' = key then some m else reg.kvMap key' :=
  Function.update_apply _ _ _ _

/-- The last definition of a key wins, with the value and the location of that definition. -/
theorem defineAll_kvMap (reg : Registry D) (bs : List (Pair D)) (key : Text) :
    (reg.defineAll bs).kvMap key =
      ((bs.reverse.find? fun b => key = b.key).map Pair.mapped).or (reg.kvMap key) := by
  induction bs generalizing reg with
  | nil => simp
  | cons b bs ih =>
    rw [defineAll_cons, ih, define_kvMap, List.reverse_cons, List.find?_append]
    cases (bs.reverse.find? fun b => key = b.key) with
    | some b' => rfl
    | none => by_cases hkey : key = b.key <;> simp [hkey]

end Registry

/-- Where a redefinition throws, no key of `bs` occurs twice or is present already. -/
def Fresh (throwOnRedefinition : Bool) (reg : Registry D) (bs : List (Pair D)) : Prop :=
  throwOnRedefinition = true →
    (bs.map Pair.key).Nodup ∧ ∀ b ∈ bs, reg.kvMap b.key = none

variable {ps : ParserStyle} {f : String} {throwing : Bool}

theorem fresh_nil (reg : Registry D) : Fresh throwing reg [] :=
  fun _ => ⟨List.nodup_nil, fun b hb => by simp at hb⟩

theorem fresh_cons {reg : Registry D} {b : Pair D} {bs : List (Pair D)} :
    Fresh throwing reg (b :: bs) ↔
      (throwing = true → reg.kvMap b.key = none) ∧
        Fresh throwing (reg.define b.key b.mapped) bs := by
  simp only [Fresh, List.map_cons, List.nodup_cons, List.mem_map, not_exists, not_and,
    List.forall_mem_cons, Registry.define_kvMap]
  constructor
  · refine fun h => ⟨fun ht => (h ht).2.1, fun ht => ⟨(h ht).1.2, fun b' hb' => ?_⟩⟩
    rw [if_neg ((h ht).1.1 b' hb'), (h ht).2.2 b' hb']
  · rintro ⟨hb, hbs⟩ ht
    refine ⟨⟨fun b' hb' hkey => ?_, (hbs ht).1⟩, hb ht, fun b' hb' => ?_⟩
    · have := (hbs ht).2 b' hb'
      rw [if_pos hkey] at this
      cases this
    · have := (hbs ht).2 b' hb'
      split_ifs at this
      exact this

theorem Reads.length_le {src src' : Tokens D} {bs : List (Pair D)} (h : Reads ps f src bs src') :
    bs.length ≤ src.list.length := by
  induction h with
  | nil src => exact Nat.zero_le _
  | cons hpair _ ih =>
    obtain ⟨-, la, p, rfl, -⟩ := hpair
    simp only [List.length_cons, List.length_append]
    omega

theorem Pairs.head {q : Located D} {bs : List (Pair D)} (h : Pairs ps f q bs) :
    q = [] ∨ ∃ x xs, q = x :: xs ∧ x.1.token = .IDENT := by
  cases h with
  | nil => exact .inl rfl
  | cons b la _ _ _ => exact .inr ⟨_, _, rfl, rfl⟩

theorem pairs_iff_reads (hps : ps.Proper) {src : Tokens D} {bs : List (Pair D)} :
    src.ending = .finished ∧ Pairs ps f src.list bs ↔ Reads ps f src bs ⟨[], .finished⟩ := by
  constructor
  · obtain ⟨list, e⟩ := src
    rintro ⟨rfl, h⟩
    dsimp only at h
    induction h with
    | nil => exact .nil _
    | @cons p q bs b la hfile hterm hpairs ih =>
      refine Reads.cons ⟨hfile, la, p, rfl, hterm, fun s line _ => ?_⟩ ih
      rcases hpairs.head with rfl | ⟨x, xs, rfl, hx⟩
      · rfl
      · exact hps.starts_ne_open (.inr (.inr (.inl hx)))
  · intro h
    generalize hend : (⟨[], .finished⟩ : Tokens D) = last at h
    induction h with
    | nil src => exact ⟨hend ▸ rfl, hend ▸ .nil⟩
    | @cons src src' last b bs hpair _ ih =>
      obtain ⟨hending, hpairs⟩ := ih hend
      obtain ⟨hfile, la, p, rfl, hterm, -⟩ := hpair
      exact ⟨hending, .cons b la hfile hterm hpairs⟩

/-! ### One turn of the loop -/

/-- No pair that can be added stands at the head of `src`. -/
def Stuck (ps : ParserStyle) (f : String) (throwing : Bool) (reg : Registry D) (src : Tokens D) :
    Prop :=
  ∀ b src', PairAt ps f src b src' → throwing = true ∧ reg.kvMap b.key ≠ none

theorem stuck_finished (reg : Registry D) : Stuck ps f throwing reg ⟨[], .finished⟩ := by
  rintro b src' ⟨-, la, p, hsrc, -⟩
  simp at hsrc

theorem exists_stuck (ps : ParserStyle) (f : String) (throwing : Bool) (reg : Registry D)
    (src : Tokens D) :
    ∃ bs src', Reads ps f src bs src' ∧ Fresh throwing reg bs ∧
      Stuck ps f throwing (reg.defineAll bs) src' := by
  induction hn : src.list.length using Nat.strong_induction_on generalizing reg src with
  | _ n ih =>
    by_cases hstuck : Stuck ps f throwing reg src
    · exact ⟨[], src, .nil src, fresh_nil reg, hstuck⟩
    · simp only [Stuck, not_forall, not_and, not_not] at hstuck
      obtain ⟨b, src₁, hpair, hfresh⟩ := hstuck
      have hlt : src₁.list.length < n := by
        obtain ⟨-, la, p, rfl, -⟩ := hpair
        simp only [← hn, List.length_cons, List.length_append]
        omega
      obtain ⟨bs, src', hreads, hbs, hstuck⟩ := ih _ hlt (reg.define b.key b.mapped) src₁ rfl
      exact ⟨b :: bs, src', .cons hpair hreads, fresh_cons.2 ⟨hfresh, hbs⟩, hstuck⟩

variable [NumGet D]

theorem parsePair_complete (hps : ps.Proper) {L : Lexer D} {b : Pair D} {src' : Tokens D}
    (h : PairAt ps L.filename_ L.tokens b src') :
    ∃ L', parsePair ps L = .ok (some b) L' ∧ L'.tokens = src' ∧ L'.filename_ = L.filename_ := by
  obtain ⟨hfile, la, p, htokens, hterm, hfollow⟩ := h
  obtain ⟨-, L₁, hget₁, hat₁, hfile₁⟩ := getToken_cons htokens
  change getToken L = .ok .IDENT L₁ at hget₁
  obtain ⟨-, L₂, hget₂, hat₂, hfile₂⟩ := getToken_cons hat₁.tokens
  change getToken L₁ = .ok .ASSIGN L₂ at hget₂
  obtain ⟨L₃, hparse, htokens₃⟩ := (parseTerm_ok_iff hps).2 ⟨p, hat₂.tokens, hterm, hfollow⟩
  have hfile₃ := ((parse_sound hps _).1 b.val L₂ L₃ hparse).1
  refine ⟨L₃, ?_, htokens₃, hfile₃.trans (hfile₂.trans hfile₁)⟩
  have hexpect : expect .ASSIGN true L₁ = .ok () L₂ := by rw [expect_true _ hget₂, if_pos rfl]
  unfold parsePair
  rw [Call.bind_ok hget₁, if_neg (by decide)]
  simp only [bind, EStateM.bind, stringValue_ident hat₁.lexeme, hexpect, hparse,
    Call.pure_apply, EStateM.Result.ok.injEq, Option.some.injEq, and_true]
  rw [hat₁.line, hfile₁, ← hfile]

theorem parsePair_cases (hps : ps.Proper) (L : Lexer D) :
    (∃ b L', parsePair ps L = .ok (some b) L' ∧ PairAt ps L.filename_ L.tokens b L'.tokens) ∨
      (∃ L', parsePair ps L = .ok none L' ∧ L'.putback.tokens = L.tokens) ∨
      (∃ what L', parsePair ps L = .error (.runtimeError what) L' ∧
        L.tokens ≠ ⟨[], .finished⟩) := by
  unfold parsePair
  cases hget : getToken L with
  | error e L₁ =>
    obtain ⟨htokens, what, rfl⟩ := getToken_throws hget
    exact .inr (.inr ⟨what, L₁, Call.bind_error hget, by simp [htokens]⟩)
  | ok t L₁ =>
    rw [Call.bind_ok hget]
    by_cases hIDENT : t = .IDENT
    · subst hIDENT
      obtain ⟨hfile₁, hcurrent, htokens⟩ := getToken_lexeme hget (by decide)
      have hlexeme := ident_of_token hcurrent
      rw [hlexeme] at htokens
      have hne : L.tokens ≠ ⟨[], .finished⟩ := by rw [htokens]; simp
      rw [if_neg (by decide)]
      simp only [bind, EStateM.bind, stringValue_ident hlexeme]
      cases hexpect : expect .ASSIGN true L₁ with
      | error e L₂ =>
        obtain ⟨what, rfl⟩ := (defined_expect .ASSIGN L₁).isRuntime hexpect
        exact .inr (.inr ⟨what, L₂, rfl, hne⟩)
      | ok _ L₂ =>
        simp only
        cases hparse : parseTerm ps L₂ with
        | error e L₃ =>
          obtain ⟨what, rfl⟩ := (defined_parseTerm hps.delimited L₂).isRuntime hparse
          exact .inr (.inr ⟨what, L₃, rfl, hne⟩)
        | ok v L₃ =>
          obtain ⟨-, hcurrent₂, htokens₁⟩ := getToken_lexeme (expect_ok hexpect) (by decide)
          have hassign : L₂.lexeme = .punct .ASSIGN :=
            punct_of_token ((token_lexeme L₂).trans hcurrent₂) (by decide) (by decide) (by decide)
          obtain ⟨-, p, hp, hfollow, htokens₂⟩ := (parse_sound hps _).1 v L₂ L₃ hparse
          refine .inl ⟨_, L₃, rfl, hfile₁, L₂.lineNo_, p, ?_, hp, hfollow⟩
          rw [htokens, htokens₁, htokens₂, hassign]
    · rw [if_pos hIDENT]
      refine .inr (.inl ⟨L₁, rfl, ?_⟩)
      obtain ⟨-, -, ⟨-, htokens, hputback⟩ | ⟨hne, x, rfl, hat, htokens⟩⟩ := getToken_ok hget
      · rw [hputback, htokens]
      · rw [hat.putback hne, htokens]

theorem readLoop_reads (hps : ps.Proper) {src src' : Tokens D} {bs : List (Pair D)}
    (h : Reads ps f src bs src') (fuel : Nat) {L : Lexer D} {reg : Registry D}
    (htokens : L.tokens = src) (hfile : L.filename_ = f) (hfresh : Fresh throwing reg bs) :
    ∃ L', readLoop ps throwing (bs.length + fuel) (L, reg) =
        readLoop ps throwing fuel (L', reg.defineAll bs) ∧
      L'.tokens = src' ∧ L'.filename_ = f := by
  induction h generalizing L reg with
  | nil src => exact ⟨L, by rw [List.length_nil, Nat.zero_add]; rfl, htokens, hfile⟩
  | @cons src src₁ src' b bs hpair _ ih =>
    obtain ⟨hb, hbs⟩ := fresh_cons.1 hfresh
    subst htokens hfile
    obtain ⟨L₁, hparse, htokens₁, hfile₁⟩ := parsePair_complete hps hpair
    obtain ⟨L', hloop, htokens', hfile'⟩ := ih htokens₁ hfile₁ hbs
    refine ⟨L', ?_, htokens', hfile'⟩
    rw [List.length_cons, Nat.add_right_comm, readLoop, Registry.defineAll_cons, ← hloop]
    simp only [bind, EStateM.bind, onLexer, hparse, addPair_ok hb]

theorem readLoop_stuck (hps : ps.Proper) {L : Lexer D} {reg : Registry D}
    (h : Stuck ps L.filename_ throwing reg L.tokens) (fuel : Nat) :
    (∃ L', readLoop ps throwing (fuel + 1) (L, reg) = .ok () (L', reg) ∧
        L'.putback.tokens = L.tokens) ∨
      (∃ what L', readLoop ps throwing (fuel + 1) (L, reg) =
          .error (.runtimeError what) (L', reg) ∧ L.tokens ≠ ⟨[], .finished⟩) := by
  rw [readLoop]
  simp only [bind, EStateM.bind, onLexer]
  obtain ⟨b, L₁, hparse, hpair⟩ | ⟨L₁, hparse, hputback⟩ | ⟨what, L₁, hparse, hne⟩ :=
    parsePair_cases hps L
  · obtain ⟨hthrowing, hkey⟩ := h b _ hpair
    obtain ⟨what, hadd⟩ := addPair_error hthrowing hkey L₁
    refine .inr ⟨what, L₁, ?_, ?_⟩
    · simp only [hparse]
      exact Call.bind_error hadd
    · obtain ⟨-, la, p, hsrc, -⟩ := hpair
      simp [hsrc]
  · exact .inl ⟨L₁, by simp only [hparse]; rfl, hputback⟩
  · exact .inr ⟨what, L₁, by simp only [hparse], hne⟩

/-! ### The whole file -/

/-- The tokens of a file in a lexer style. -/
def fileTokens (text : Text) (filename_ : String) (ls : LexerStyle) : Tokens D :=
  ((open_ (.ofText text) filename_ {} : Lexer D).setStyle ls).tokens

theorem readFrom_stuck (hps : ps.Proper) {text : Text} {filename_ : String} {ls : LexerStyle}
    {reg : Registry D} {bs : List (Pair D)} {src' : Tokens D}
    (hreads : Reads ps filename_ (fileTokens text filename_ ls) bs src')
    (hfresh : Fresh throwing reg bs)
    (hstuck : Stuck ps filename_ throwing (reg.defineAll bs) src') :
    (src' = ⟨[], .finished⟩ ∧ readFrom (some text) filename_ ls ps throwing reg =
        .ok () { reg.defineAll bs with filename := filename_ }) ∨
      (src' ≠ ⟨[], .finished⟩ ∧ ∃ what, readFrom (some text) filename_ ls ps throwing reg =
        .error (.runtimeError what) (reg.defineAll bs)) := by
  set L : Lexer D := (open_ (.ofText text) filename_ {}).setStyle ls with hL
  obtain ⟨fuel, hfuel⟩ : ∃ fuel, parseBound L = bs.length + (fuel + 1) :=
    have hbound := le_parseBound L
    have hlen : bs.length ≤ L.tokens.list.length := hreads.length_le
    ⟨parseBound L - bs.length - 1, by omega⟩
  obtain ⟨L', hloop, rfl, hfile'⟩ := readLoop_reads hps hreads (fuel + 1) (L := L) rfl rfl hfresh
  rw [← hfuel] at hloop
  simp only [readFrom, readFromLexer, bind, EStateM.bind, onLexer, ← hL, hloop]
  subst hfile'
  obtain ⟨L₁, hend, hputback⟩ | ⟨what, L₁, hend, hne⟩ := readLoop_stuck hps hstuck fuel
  · simp only [hend, unget]
    by_cases hsrc : L'.tokens = ⟨[], .finished⟩
    · rw [hsrc] at hputback
      obtain ⟨L₂, hget, -⟩ := getToken_nil hputback
      exact .inl ⟨hsrc, by simp only [expect_true _ hget, if_true]⟩
    · refine .inr ⟨hsrc, ?_⟩
      rw [← hputback] at hsrc
      cases hget : getToken L₁.putback with
      | error e L₂ =>
        obtain ⟨-, what, rfl⟩ := getToken_throws hget
        have hexpect : expect .END true L₁.putback = .error (.runtimeError what) L₂ := by
          simp only [expect, if_true]
          exact Call.bind_error hget
        exact ⟨what, by simp only [hexpect]⟩
      | ok t L₂ =>
        obtain ⟨-, -, ⟨-, htokens, -⟩ | ⟨hne, -⟩⟩ := getToken_ok hget
        · exact absurd htokens hsrc
        · exact ⟨_, by simp only [expect_true _ hget, if_neg hne, throwHere]; rfl⟩
  · exact .inr ⟨hne, what, by simp only [hend]⟩

/-- `bs` are the pairs before the first one that cannot be read and added: after them comes neither
the end of the file nor a pair that can be added. -/
structure FailsAfter (ps : ParserStyle) (f : String) (throwing : Bool) (reg : Registry D)
    (src : Tokens D) (bs : List (Pair D)) : Prop where
  fresh : Fresh throwing reg bs
  stuck : ∃ src', Reads ps f src bs src' ∧ src' ≠ ⟨[], .finished⟩ ∧
    Stuck ps f throwing (reg.defineAll bs) src'

/-- **Reading a registry is exact.** `read_from` of a file returns iff its tokens are
`(IDENT ASSIGN term)* END` and no key is redefined where that throws, with the prior map updated by
the pairs; otherwise there are pairs after which the file fails, and wherever it fails after pairs
the call throws with the prior map updated by exactly these. -/
theorem readFrom_exact (hps : ps.Proper) (text : Text) (filename_ : String) (ls : LexerStyle)
    (throwing : Bool) (reg : Registry D) :
    let src : Tokens D := fileTokens text filename_ ls
    let complete (bs : List (Pair D)) : Prop :=
      src.ending = .finished ∧ Pairs ps filename_ src.list bs ∧ Fresh throwing reg bs
    (∀ reg', readFrom (some text) filename_ ls ps throwing reg = .ok () reg' ↔
        ∃ bs, complete bs ∧ reg' = { reg.defineAll bs with filename := filename_ }) ∧
      ((¬ ∃ bs, complete bs) → ∃ bs, FailsAfter ps filename_ throwing reg src bs) ∧
      (∀ bs, FailsAfter ps filename_ throwing reg src bs →
        ∃ what, readFrom (some text) filename_ ls ps throwing reg =
          .error (.runtimeError what) (reg.defineAll bs)) ∧
      (∀ bs key, (reg.defineAll bs).kvMap key =
        ((bs.reverse.find? fun b => key = b.key).map Pair.mapped).or (reg.kvMap key)) := by
  intro src complete
  have hcomplete : ∀ bs, complete bs ↔
      Reads ps filename_ src bs ⟨[], .finished⟩ ∧ Fresh throwing reg bs := fun bs => by
    rw [← pairs_iff_reads hps, and_assoc]
  obtain ⟨bs, src', hreads, hfresh, hstuck⟩ := exists_stuck ps filename_ throwing reg src
  refine ⟨fun reg' => ?_, fun hnone => ?_, ?_, reg.defineAll_kvMap⟩
  · constructor
    · intro h
      obtain ⟨rfl, hok⟩ | ⟨-, what, herror⟩ := readFrom_stuck hps hreads hfresh hstuck
      · rw [h] at hok
        obtain rfl : reg' = _ := by simpa using hok
        exact ⟨bs, (hcomplete bs).2 ⟨hreads, hfresh⟩, rfl⟩
      · rw [h] at herror
        cases herror
    · rintro ⟨bs, hbs, rfl⟩
      obtain ⟨hreads, hfresh⟩ := (hcomplete bs).1 hbs
      obtain ⟨-, hok⟩ | ⟨hne, -⟩ := readFrom_stuck hps hreads hfresh (stuck_finished _)
      · exact hok
      · exact absurd rfl hne
  · refine ⟨bs, hfresh, src', hreads, ?_, hstuck⟩
    rintro rfl
    exact hnone ⟨bs, (hcomplete bs).2 ⟨hreads, hfresh⟩⟩
  · rintro bs ⟨hfresh, src', hreads, hne, hstuck⟩
    obtain ⟨hsrc, -⟩ | ⟨-, herror⟩ := readFrom_stuck hps hreads hfresh hstuck
    · exact absurd hsrc hne
    · exact herror

/-- `a=1 # one` with the default grammar. -/
theorem readFrom_exact_pair :
    ∃ reg', readFrom (D := ℕ) (some ['a', '=', '1', ' ', '#', ' ', '1']) "f" {} {} true .empty =
        .ok () reg' ∧
      reg'.kvMap ['a'] = some ⟨.num 1, definedAtMsg 1 "f"⟩ := by
  have hsrc : fileTokens (D := ℕ) ['a', '=', '1', ' ', '#', ' ', '1'] "f" {} =
      ⟨[(.ident ['a'], 1), (.punct .ASSIGN, 1), (.num 1, 1)], .finished⟩ := by decide +kernel
  have hexact := readFrom_exact (D := ℕ)
    (⟨by decide, by decide, by decide⟩ : ParserStyle.Proper {})
    ['a', '=', '1', ' ', '#', ' ', '1'] "f" {} true .empty
  refine ⟨_, (hexact.1 _).2 ⟨[⟨['a'], .num 1, 1, "f"⟩], ⟨?_, ?_, ?_⟩, rfl⟩, rfl⟩
  · rw [hsrc]
  · rw [hsrc]
    exact .cons (p := [(.num 1, 1)]) ⟨['a'], .num 1, 1, "f"⟩ 1 rfl (.num 1 1) .nil
  · exact fun _ => ⟨by simp, by simp [Registry.empty]⟩

end Nanonet
