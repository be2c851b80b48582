import NocoMiddleware.Js.Value

/-!
# The `where` language of NocoDB

An independent reading of the language that the filter builders write:
comparisons `(field,operator,value,...)` joined by `~and` or `~or`, where
`,`, `(`, `)` and `~` are literal text inside double quotes.  `Where.text`
writes an expression, `parseWhere` reads one, and `parseWhere_eq_some_iff` says
that the two are inverse.  A text therefore has at most one reading
(`Where.text_injective`).
-/

namespace NocoMiddleware
namespace Filter

open Js

/-! ## Tokens -/

/-- The delimiters of the language outside quotes. -/
inductive Punctuation where
  | openParenthesis
  | closeParenthesis
  | comma
  | tilde
  deriving DecidableEq

namespace Punctuation

/-- The code unit of a delimiter. -/
def unit : Punctuation → CodeUnit
  | openParenthesis => leftParenthesis
  | closeParenthesis => rightParenthesis
  | comma => commaUnit
  | tilde => tildeUnit

end Punctuation

/-- What a code unit means outside quotes. -/
inductive UnitRole where
  | quote
  | punctuation (mark : Punctuation)
  | plain
  deriving DecidableEq

/-- The role of a code unit outside quotes. -/
def unitRole (unit : CodeUnit) : UnitRole :=
  if unit = quotationMark then .quote
  else if unit = leftParenthesis then .punctuation .openParenthesis
  else if unit = rightParenthesis then .punctuation .closeParenthesis
  else if unit = commaUnit then .punctuation .comma
  else if unit = tildeUnit then .punctuation .tilde
  else .plain

@[simp] theorem unitRole_quotationMark : unitRole quotationMark = .quote := rfl

@[simp] theorem unitRole_unit (mark : Punctuation) : unitRole mark.unit = .punctuation mark := by
  cases mark <;> rfl

theorem unitRole_eq_quote {unit : CodeUnit} (h : unitRole unit = .quote) :
    unit = quotationMark := by
  unfold unitRole at h
  split at h
  · assumption
  · split_ifs at h

theorem unitRole_eq_punctuation {unit : CodeUnit} {mark : Punctuation}
    (h : unitRole unit = .punctuation mark) : unit = mark.unit := by
  unfold unitRole at h
  split_ifs at h <;> cases h <;> assumption

/-- Text without any delimiter. -/
@[ext] structure PlainText where
  text : JsString
  plain : ∀ unit ∈ text, unitRole unit = .plain
  deriving DecidableEq

namespace PlainText

/-- The empty text. -/
def empty : PlainText :=
  ⟨[], by simp⟩

/-- One more plain code unit. -/
def snoc (pending : PlainText) (unit : CodeUnit) (h : unitRole unit = .plain) : PlainText where
  text := pending.text ++ [unit]
  plain := by
    intro other hother
    rcases List.mem_append.mp hother with hother | hother
    · exact pending.plain other hother
    · rw [List.mem_singleton.mp hother]
      exact h

end PlainText

/-- A bare word: nonempty text without any delimiter. -/
@[ext] structure Word extends PlainText where
  nonempty : text ≠ []
  deriving DecidableEq

/-- The content of a quoted value: text without a quotation mark. -/
@[ext] structure Quoted where
  text : JsString
  closed : ∀ unit ∈ text, unit ≠ quotationMark
  deriving DecidableEq

namespace Quoted

/-- The empty content. -/
def empty : Quoted :=
  ⟨[], by simp⟩

/-- One more code unit. -/
def snoc (content : Quoted) (unit : CodeUnit) (h : unit ≠ quotationMark) : Quoted where
  text := content.text ++ [unit]
  closed := by
    intro other hother
    rcases List.mem_append.mp hother with hother | hother
    · exact content.closed other hother
    · rw [List.mem_singleton.mp hother]
      exact h

end Quoted

/-- The tokens of the language. -/
inductive Token where
  | punctuation (mark : Punctuation)
  | word (name : Word)
  | quoted (content : Quoted)
  deriving DecidableEq

namespace Token

/-- A token as it is written. -/
def text : Token → JsString
  | punctuation mark => [mark.unit]
  | word name => name.text
  | quoted content => quotationMark :: content.text ++ [quotationMark]

/-- The token is a bare word. -/
def isWord : Token → Bool
  | word _ => true
  | _ => false

end Token

/-- Tokens as they are written, one after the other. -/
def tokensText (tokens : List Token) : JsString :=
  tokens.flatMap Token.text

@[simp] theorem tokensText_nil : tokensText [] = [] := rfl

@[simp] theorem tokensText_cons (token : Token) (tokens : List Token) :
    tokensText (token :: tokens) = token.text ++ tokensText tokens := by
  simp [tokensText]

@[simp] theorem tokensText_append (first second : List Token) :
    tokensText (first ++ second) = tokensText first ++ tokensText second := by
  simp [tokensText]

/-! ## The lexer -/

/-- The lexer's position: outside quotes, after plain text that is not emitted
yet, or inside quotes. -/
inductive LexState where
  | outside (pending : PlainText)
  | inside (content : Quoted)

namespace LexState

/-- The text that the state remembers. -/
def text : LexState → JsString
  | outside pending => pending.text
  | inside content => quotationMark :: content.text

end LexState

/-- Emits the pending plain text as a word, if there is any. -/
def emit (pending : PlainText) (tokens : List Token) : List Token :=
  if h : pending.text = [] then tokens else .word ⟨pending, h⟩ :: tokens

/-- Splits a text into tokens. -/
def lex : LexState → JsString → Option (List Token)
  | .outside pending, [] => some (emit pending [])
  | .inside _, [] => none
  | .outside pending, unit :: rest =>
      match h : unitRole unit with
      | .quote => (lex (.inside .empty) rest).map (emit pending)
      | .punctuation mark =>
          (lex (.outside .empty) rest).map fun tokens => emit pending (.punctuation mark :: tokens)
      | .plain => lex (.outside (pending.snoc unit h)) rest
  | .inside content, unit :: rest =>
      if h : unit = quotationMark then
        (lex (.outside .empty) rest).map (.quoted content :: ·)
      else lex (.inside (content.snoc unit h)) rest

@[simp] theorem emit_empty (tokens : List Token) : emit .empty tokens = tokens := rfl

theorem tokensText_emit (pending : PlainText) (tokens : List Token) :
    tokensText (emit pending tokens) = pending.text ++ tokensText tokens := by
  unfold emit
  split
  · next h => simp [h]
  · simp [Token.text]

/-- The lexer loses nothing: its tokens spell the text. -/
theorem tokensText_of_lex {state : LexState} {text : JsString} {tokens : List Token}
    (h : lex state text = some tokens) : tokensText tokens = state.text ++ text := by
  -- what the state holds was read before the rest of the text
  induction text generalizing state tokens with
  | nil =>
      cases state with
      | outside pending =>
          simp only [lex, Option.some.injEq] at h
          subst h
          simp [tokensText_emit, LexState.text]
      | inside content => simp [lex] at h
  | cons unit rest ih =>
      cases state with
      | outside pending =>
          rw [lex] at h
          split at h
          · next hrole =>
              obtain ⟨later, hlater, rfl⟩ := Option.map_eq_some_iff.mp h
              rw [tokensText_emit, ih hlater, unitRole_eq_quote hrole]
              simp [LexState.text, Quoted.empty]
          · next mark hrole =>
              obtain ⟨later, hlater, rfl⟩ := Option.map_eq_some_iff.mp h
              rw [tokensText_emit, tokensText_cons, ih hlater, unitRole_eq_punctuation hrole]
              simp [LexState.text, PlainText.empty, Token.text]
          · next hrole =>
              rw [ih h]
              simp [LexState.text, PlainText.snoc]
      | inside content =>
          rw [lex] at h
          split at h
          · next hunit =>
              obtain ⟨later, hlater, rfl⟩ := Option.map_eq_some_iff.mp h
              rw [tokensText_cons, ih hlater, hunit]
              simp [LexState.text, PlainText.empty, Token.text]
          · next hunit =>
              rw [ih h]
              simp [LexState.text, Quoted.snoc]

/-- Quoted content is read up to its closing mark, whatever it contains. -/
theorem lex_inside_append (content : Quoted) (text rest : JsString)
    (htext : ∀ unit ∈ text, unit ≠ quotationMark) :
    lex (.inside content) (text ++ quotationMark :: rest) =
      (lex (.outside .empty) rest).map
        (.quoted ⟨content.text ++ text, by
          intro unit hunit
          rcases List.mem_append.mp hunit with hunit | hunit
          · exact content.closed unit hunit
          · exact htext unit hunit⟩ :: ·) := by
  induction text generalizing content with
  | nil => simp [lex]
  | cons unit text ih =>
      have hunit : unit ≠ quotationMark := htext unit List.mem_cons_self
      rw [List.cons_append, lex, dif_neg hunit,
        ih _ fun other hother => htext other (List.mem_cons_of_mem _ hother)]
      simp [Quoted.snoc]

/-- Plain text is collected until a delimiter comes. -/
theorem lex_outside_append (pending : PlainText) (text rest : JsString)
    (htext : ∀ unit ∈ text, unitRole unit = .plain) :
    lex (.outside pending) (text ++ rest) =
      lex (.outside ⟨pending.text ++ text, by
        intro unit hunit
        rcases List.mem_append.mp hunit with hunit | hunit
        · exact pending.plain unit hunit
        · exact htext unit hunit⟩) rest := by
  induction text generalizing pending with
  | nil => simp
  | cons unit text ih =>
      have hunit : unitRole unit = .plain := htext unit List.mem_cons_self
      rw [List.cons_append, lex]
      split
      · next hrole => simp [hunit] at hrole
      · next hrole => simp [hunit] at hrole
      · rw [ih _ fun other hother => htext other (List.mem_cons_of_mem _ hother)]
        simp [PlainText.snoc]

/-- At a delimiter or at the end the pending text becomes a word. -/
theorem lex_outside_of_delimiter (pending : PlainText) (text : JsString)
    (h : ∀ unit ∈ text.head?, unitRole unit ≠ .plain) :
    lex (.outside pending) text = (lex (.outside .empty) text).map (emit pending) := by
  cases text with
  | nil => simp [lex]
  | cons unit rest =>
      have hunit : unitRole unit ≠ .plain := h unit rfl
      rw [lex, lex]
      split
      · simp [Function.comp_def]
      · simp [Function.comp_def]
      · next hrole => exact absurd hrole hunit

/-- Tokens in which no word directly follows another one. -/
def Separated : List Token → Prop
  | [] => True
  | token :: tokens =>
      (token.isWord = true → ∀ next ∈ tokens.head?, next.isWord = false) ∧ Separated tokens

theorem head_tokensText {tokens : List Token}
    (h : ∀ next ∈ tokens.head?, next.isWord = false) :
    ∀ unit ∈ (tokensText tokens).head?, unitRole unit ≠ .plain := by
  cases tokens with
  | nil => simp
  | cons token tokens =>
      have htoken : token.isWord = false := h token rfl
      cases token with
      | punctuation mark => simp [Token.text]
      | word name => simp [Token.isWord] at htoken
      | quoted content => simp [Token.text]

/-- The lexer reads separated tokens back. -/
theorem lex_tokensText {tokens : List Token} (h : Separated tokens) :
    lex (.outside .empty) (tokensText tokens) = some tokens := by
  induction tokens with
  | nil => rfl
  | cons token tokens ih =>
      obtain ⟨hword, hseparated⟩ := h
      have hrest := ih hseparated
      cases token with
      | punctuation mark =>
          simp only [tokensText_cons, Token.text, List.cons_append, List.nil_append, lex]
          split
          · next hrole => simp at hrole
          · next other hrole =>
              obtain rfl : mark = other := by simpa using hrole
              simp [hrest]
          · next hrole => simp at hrole
      | word name =>
          have hhead := head_tokensText (hword rfl)
          rw [tokensText_cons, Token.text, lex_outside_append _ _ _ name.plain,
            lex_outside_of_delimiter _ _ hhead, hrest]
          simp [emit, PlainText.empty, name.nonempty]
      | quoted content =>
          simp only [tokensText_cons, Token.text, List.cons_append, lex]
          split
          · rw [List.append_assoc, List.singleton_append,
              lex_inside_append _ _ _ content.closed, hrest]
            simp [Quoted.empty]
          · next hrole => simp at hrole
          · next hrole => simp at hrole

/-! ## Expressions -/

/-- A value as it is written. -/
inductive Literal where
  | quoted (content : Quoted)
  | bare (name : Word)
  deriving DecidableEq

namespace Literal

/-- The token of a literal. -/
def token : Literal → Token
  | quoted content => .quoted content
  | bare name => .word name

/-- The value that a literal denotes: quoted text is text, a bare numeral is a
number and any other bare word is text. -/
def value : Literal → JsValue
  | quoted content => .string content.text
  | bare name =>
      match readNumeral name.text with
      | some x => .number (.finite x)
      | none => .string name.text

end Literal

/-- A comparison `(field,operator,value,...)`. -/
@[ext] structure Comparison where
  field : Word
  operator : Word
  values : List Literal
  deriving DecidableEq

/-- What a comparison asks for: the texts of its field and operator and the
values that its literals denote. -/
structure Condition where
  field : JsString
  operator : JsString
  values : List JsValue
  deriving DecidableEq

/-- The condition that a comparison expresses. -/
def Comparison.condition (comparison : Comparison) : Condition where
  field := comparison.field.text
  operator := comparison.operator.text
  values := comparison.values.map Literal.value

/-- The two joiners. -/
inductive Joiner where
  | and
  | or
  deriving DecidableEq

namespace Joiner

/-- The word of a joiner. -/
def word : Joiner → Word
  | and => ⟨⟨js "and", forall_units (by decide)⟩, by decide⟩
  | or => ⟨⟨js "or", forall_units (by decide)⟩, by decide⟩

/-- The joiner that a word names. -/
def read (name : Word) : Option Joiner :=
  if name = and.word then some and
  else if name = or.word then some or
  else none

theorem read_eq_some_iff (name : Word) (joiner : Joiner) :
    read name = some joiner ↔ name = joiner.word := by
  have hne : or.word ≠ and.word := by decide
  constructor
  · intro h
    unfold read at h
    split_ifs at h <;> cases h <;> assumption
  · rintro rfl
    cases joiner <;> simp [read, hne]

end Joiner

/-- An expression: nothing, which matches every record, or comparisons with
the joiner in front of each but the first. -/
inductive Where where
  | everything
  | chain (first : Comparison) (rest : List (Joiner × Comparison))
  deriving DecidableEq

namespace Where

/-- The comparisons of an expression in order. -/
def comparisons : Where → List Comparison
  | everything => []
  | chain first rest => first :: rest.map Prod.snd

/-- The joiners of an expression in order. -/
def joiners : Where → List Joiner
  | everything => []
  | chain _ rest => rest.map Prod.fst

/-- The conjunction of comparisons. -/
def conjunction : List Comparison → Where
  | [] => everything
  | first :: rest => chain first (rest.map fun comparison => (.and, comparison))

@[simp] theorem comparisons_conjunction (comparisons : List Comparison) :
    (conjunction comparisons).comparisons = comparisons := by
  cases comparisons <;> simp [conjunction, Where.comparisons]

theorem joiners_conjunction (comparisons : List Comparison) :
    ∀ joiner ∈ (conjunction comparisons).joiners, joiner = .and := by
  cases comparisons <;> simp [conjunction, joiners]

end Where

/-! ## Writing and reading expressions -/

/-- The tokens of a comparison up to its operator. -/
def Comparison.opening (comparison : Comparison) : List Token :=
  [.punctuation .openParenthesis, .word comparison.field, .punctuation .comma,
    .word comparison.operator]

/-- The tokens that follow the operator of a comparison with the given values,
when the given comparisons are joined to it. -/
def afterOperator : List Literal → List (Joiner × Comparison) → List Token
  | literal :: values, links =>
      .punctuation .comma :: literal.token :: afterOperator values links
  | [], [] => [.punctuation .closeParenthesis]
  | [], (joiner, comparison) :: links =>
      .punctuation .closeParenthesis :: .punctuation .tilde :: .word joiner.word ::
        (comparison.opening ++ afterOperator comparison.values links)
termination_by values links => (links.length, values.length)

/-- The tokens of an expression. -/
def Where.tokens : Where → List Token
  | everything => []
  | chain first rest => first.opening ++ afterOperator first.values rest

/-- An expression as it is written. -/
def Where.text (expression : Where) : JsString :=
  tokensText expression.tokens

/-- Reads what follows an operator: the values of its comparison and the
comparisons joined to it. -/
def parseAfterOperator : List Token → Option (List Literal × List (Joiner × Comparison))
  | [.punctuation .closeParenthesis] => some ([], [])
  | .punctuation .comma :: .quoted content :: rest =>
      (parseAfterOperator rest).map fun (values, links) => (.quoted content :: values, links)
  | .punctuation .comma :: .word name :: rest =>
      (parseAfterOperator rest).map fun (values, links) => (.bare name :: values, links)
  | .punctuation .closeParenthesis :: .punctuation .tilde :: .word name ::
      .punctuation .openParenthesis :: .word field :: .punctuation .comma ::
      .word operator :: rest =>
      (Joiner.read name).bind fun joiner =>
        (parseAfterOperator rest).map fun (values, links) =>
          ([], (joiner, ⟨field, operator, values⟩) :: links)
  | _ => none

/-- Reads the tokens of an expression. -/
def parseTokens : List Token → Option Where
  | [] => some .everything
  | .punctuation .openParenthesis :: .word field :: .punctuation .comma ::
      .word operator :: rest =>
      (parseAfterOperator rest).map fun (values, links) =>
        .chain ⟨field, operator, values⟩ links
  | _ => none

/-- Reads an expression. -/
def parseWhere (text : JsString) : Option Where :=
  (lex (.outside .empty) text).bind parseTokens

theorem parseAfterOperator_afterOperator (values : List Literal)
    (links : List (Joiner × Comparison)) :
    parseAfterOperator (afterOperator values links) = some (values, links) := by
  induction values, links using afterOperator.induct with
  | case1 literal values links ih =>
      rw [afterOperator]
      cases literal with
      | quoted content => simp [Literal.token, parseAfterOperator, ih]
      | bare name => simp [Literal.token, parseAfterOperator, ih]
  | case2 => simp [afterOperator, parseAfterOperator]
  | case3 joiner comparison links ih =>
      have hread : Joiner.read joiner.word = some joiner :=
        (Joiner.read_eq_some_iff _ _).mpr rfl
      simp [afterOperator, Comparison.opening, parseAfterOperator, hread, ih]

theorem afterOperator_of_parse {tokens : List Token} {values : List Literal}
    {links : List (Joiner × Comparison)}
    (h : parseAfterOperator tokens = some (values, links)) :
    afterOperator values links = tokens := by
  induction tokens using parseAfterOperator.induct generalizing values links with
  | case1 =>
      simp only [parseAfterOperator, Option.some.injEq, Prod.mk.injEq] at h
      obtain ⟨rfl, rfl⟩ := h
      simp [afterOperator]
  | case2 content rest ih =>
      simp only [parseAfterOperator, Option.map_eq_some_iff, Prod.exists, Prod.mk.injEq] at h
      obtain ⟨values, links, hrest, rfl, rfl⟩ := h
      simp [afterOperator, Literal.token, ih hrest]
  | case3 name rest ih =>
      simp only [parseAfterOperator, Option.map_eq_some_iff, Prod.exists, Prod.mk.injEq] at h
      obtain ⟨values, links, hrest, rfl, rfl⟩ := h
      simp [afterOperator, Literal.token, ih hrest]
  | case4 name field operator rest ih =>
      simp only [parseAfterOperator, Option.bind_eq_some_iff, Option.map_eq_some_iff,
        Prod.exists, Prod.mk.injEq] at h
      obtain ⟨joiner, hread, values, links, hrest, rfl, rfl⟩ := h
      obtain rfl := (Joiner.read_eq_some_iff _ _).mp hread
      simp [afterOperator, Comparison.opening, ih hrest]
  | case5 tokens h₁ h₂ h₃ h₄ =>
      rw [parseAfterOperator] at h
      · contradiction
      all_goals assumption

theorem parseTokens_eq_some_iff (tokens : List Token) (expression : Where) :
    parseTokens tokens = some expression ↔ expression.tokens = tokens := by
  constructor
  · intro h
    unfold parseTokens at h
    split at h
    · cases h
      rfl
    · simp only [Option.map_eq_some_iff, Prod.exists] at h
      obtain ⟨values, links, hrest, rfl⟩ := h
      simp [Where.tokens, Comparison.opening, afterOperator_of_parse hrest]
    · contradiction
  · rintro rfl
    cases expression with
    | everything => rfl
    | chain first rest =>
        simp [Where.tokens, Comparison.opening, parseTokens, parseAfterOperator_afterOperator]

theorem separated_afterOperator (token : Token) (values : List Literal)
    (links : List (Joiner × Comparison)) :
    Separated (token :: afterOperator values links) := by
  induction values, links using afterOperator.induct generalizing token with
  | case1 literal values links ih =>
      simpa [afterOperator, Separated, Token.isWord] using ih literal.token
  | case2 => simp [afterOperator, Separated, Token.isWord]
  | case3 joiner comparison links ih =>
      simpa [afterOperator, Comparison.opening, Separated, Token.isWord] using
        ih (.word comparison.operator)

theorem separated_tokens (expression : Where) : Separated expression.tokens := by
  cases expression with
  | everything => trivial
  | chain first rest =>
      simpa [Where.tokens, Comparison.opening, Separated, Token.isWord] using
        separated_afterOperator (.word first.operator) first.values rest

/-- Reading and writing are inverse. -/
theorem parseWhere_eq_some_iff (text : JsString) (expression : Where) :
    parseWhere text = some expression ↔ expression.text = text := by
  unfold parseWhere Where.text
  constructor
  · intro h
    obtain ⟨tokens, hlex, hparse⟩ := Option.bind_eq_some_iff.mp h
    rw [(parseTokens_eq_some_iff _ _).mp hparse, tokensText_of_lex hlex]
    rfl
  · rintro rfl
    rw [lex_tokensText (separated_tokens expression), Option.bind_some,
      parseTokens_eq_some_iff]

/-- A text has at most one reading. -/
theorem Where.text_injective : Function.Injective Where.text := by
  intro first second h
  have hfirst := (parseWhere_eq_some_iff second.text first).mpr h
  have hsecond := (parseWhere_eq_some_iff second.text second).mpr rfl
  rw [hfirst] at hsecond
  exact Option.some.inj hsecond

/-! ## The text of a comparison and of a conjunction -/

/-- A comparison as it is written. -/
def Comparison.text (comparison : Comparison) : JsString :=
  tokensText (comparison.opening ++ afterOperator comparison.values [])

theorem afterOperator_eq (values : List Literal) (links : List (Joiner × Comparison)) :
    afterOperator values links =
      values.flatMap (fun literal => [.punctuation .comma, literal.token]) ++
        afterOperator [] links := by
  induction values with
  | nil => simp
  | cons literal values ih =>
      rw [afterOperator, ih]
      simp

theorem tokensText_values (values : List Literal) :
    tokensText (values.flatMap fun literal => [.punctuation .comma, literal.token]) =
      values.flatMap fun literal => commaUnit :: literal.token.text := by
  induction values with
  | nil => simp
  | cons literal values ih =>
      simp only [List.flatMap_cons, tokensText_append, ih]
      simp [Token.text, Punctuation.unit]

theorem Comparison.text_eq (comparison : Comparison) :
    comparison.text =
      leftParenthesis :: comparison.field.text ++ commaUnit :: comparison.operator.text ++
        comparison.values.flatMap (fun literal => commaUnit :: literal.token.text) ++
        [rightParenthesis] := by
  rw [Comparison.text, afterOperator_eq, tokensText_append, tokensText_append,
    tokensText_values]
  simp [Comparison.opening, afterOperator, Token.text, Punctuation.unit]

theorem Where.text_chain_nil (comparison : Comparison) :
    (Where.chain comparison []).text = comparison.text := rfl

/-- Different comparisons are written differently. -/
theorem Comparison.text_injective : Function.Injective Comparison.text := by
  intro first second h
  rw [← Where.text_chain_nil, ← Where.text_chain_nil] at h
  exact (Where.chain.inj (Where.text_injective h)).1

theorem Where.text_chain_cons (first : Comparison) (joiner : Joiner) (next : Comparison)
    (links : List (Joiner × Comparison)) :
    (Where.chain first ((joiner, next) :: links)).text =
      first.text ++ (tildeUnit :: joiner.word.text) ++ (Where.chain next links).text := by
  simp only [Where.text, Where.tokens, Comparison.text]
  rw [afterOperator_eq first.values, afterOperator_eq first.values []]
  simp [afterOperator, Token.text, Punctuation.unit]

/-- A conjunction is written as its comparisons joined by `~and`. -/
theorem Where.text_conjunction (comparisons : List Comparison) :
    (Where.conjunction comparisons).text =
      (js "~and").intercalate (comparisons.map Comparison.text) := by
  cases comparisons with
  | nil => rfl
  | cons first rest =>
      induction rest generalizing first with
      | nil => simp [Where.conjunction, Where.text_chain_nil, List.intercalate]
      | cons next rest ih =>
          have hnext : (Where.chain next (rest.map fun comparison => (.and, comparison))).text =
              (js "~and").intercalate ((next :: rest).map Comparison.text) := ih next
          have hjoiner : tildeUnit :: Joiner.and.word.text = js "~and" := by decide
          simp only [Where.conjunction, List.map_cons]
          rw [Where.text_chain_cons, hnext, hjoiner]
          simp [List.intercalate]

example : (parseWhere (js "(name,eq,\"x)~or(id,eq,1\")~and(id,in,2,3)")).map
    (fun expression => expression.comparisons.length) = some 2 := by decide

end Filter
end NocoMiddleware
