import QueryTypes.Shape.Syntax
import QueryTypes.Text.Blank

/-!
# The grammar of type expressions

What the generated languages read in a type expression: names, generic types, brackets behind the
type of their items, unions, and in one of the languages a question mark in front of a type that may
be null. Brackets bind tighter than the question mark, and the question mark tighter than a union.
Main statement: what is read as a type is read in one way only.
-/

namespace QueryTypes

inductive TypeToken
  | name (s : String)
  | bar
  | question
  | openParen
  | closeParen
  | openAngle
  | closeAngle
  | openBracket
  | closeBracket
deriving DecidableEq, Repr

namespace TypeToken

/-- Identifiers are made of these, and of ASCII nothing else is. -/
def isNameChar (c : Char) : Bool :=
  if c.toNat < 128 then c.isAlphanum || c == '_' || c == '$' else !Text.isBlank c

def ofChar? : Char → Option TypeToken
  | '|' => some bar
  | '?' => some question
  | '(' => some openParen
  | ')' => some closeParen
  | '<' => some openAngle
  | '>' => some closeAngle
  | '[' => some openBracket
  | ']' => some closeBracket
  | _ => none

/-- The name that was read, backwards, in front of further tokens. -/
def afterName (word : List Char) (ts : List TypeToken) : List TypeToken :=
  if word = [] then ts else name (String.ofList word.reverse) :: ts

/-- The tokens of a text of which a part of a name was read. A name is as long as it can be. -/
def scan (word : List Char) : List Char → Option (List TypeToken)
  | [] => some (afterName word [])
  | c :: r =>
    if isNameChar c then scan (c :: word) r
    else if Text.isBlank c then (scan [] r).map (afterName word)
    else match ofChar? c with
      | none => none
      | some t => (scan [] r).map fun ts => afterName word (t :: ts)

end TypeToken

inductive TypeExpr
  | name (s : String)
  | generic (s : String) (argument : TypeExpr)
  | array (item : TypeExpr)
  | maybe (type : TypeExpr)
  | union (first rest : TypeExpr)
deriving DecidableEq, Repr

/-- The names of generic types for lists. -/
def Language.listNames : Language → List String
  | .typescript => ["Array", "ReadonlyArray"]
  | .flow => ["Array", "$ReadOnlyArray"]

namespace TypeExpr

/-- The reference that an expression is written for, if it has no other parts than names, lists and
null as an alternative. -/
def wrapping? (l : Language) : TypeExpr → Option TypeRef
  | name s => if s = "null" then none else some (.named s true)
  | generic s e => if s ∈ l.listNames then (e.wrapping? l).map (.list · true) else none
  | array e => (e.wrapping? l).map (.list · true)
  | maybe e => (e.wrapping? l).map TypeRef.optional
  | union e e' => if e' = name "null" then (e.wrapping? l).map TypeRef.optional else none

def arrays (e : TypeExpr) : Nat → TypeExpr
  | 0 => e
  | n + 1 => (arrays e n).array

/-- From what binds loosest to what binds tightest. -/
inductive Rank
  | alternatives
  | marked
  | listed
  | primary
deriving DecidableEq, Repr

/-- Pairs of brackets in front of further tokens. -/
def brackets (r : List TypeToken) : Nat → List TypeToken
  | 0 => r
  | n + 1 => .openBracket :: .closeBracket :: brackets r n

/-- An expression of a rank stands at the beginning of some tokens, and others are left. -/
inductive Reads (l : Language) : Rank → List TypeToken → TypeExpr → List TypeToken → Prop
  | name {s r} : Reads l .primary (.name s :: r) (.name s) r
  | generic {s t e r} : Reads l .alternatives t e (.closeAngle :: r) →
      Reads l .primary (.name s :: .openAngle :: t) (.generic s e) r
  | group {t e r} : Reads l .alternatives t e (.closeParen :: r) →
      Reads l .primary (.openParen :: t) e r
  | arrays {t e r n} : Reads l .primary t e (brackets r n) → Reads l .listed t (e.arrays n) r
  | maybe {t e r} : l = .flow → Reads l .marked t e r → Reads l .marked (.question :: t) (.maybe e) r
  | unmarked {t e r} : Reads l .listed t e r → Reads l .marked t e r
  | union {t e t' e' r} : Reads l .marked t e (.bar :: t') → Reads l .alternatives t' e' r →
      Reads l .alternatives t (.union e e') r
  | single {t e r} : Reads l .marked t e r → Reads l .alternatives t e r

/-- Tokens that cannot go on with an expression of the rank. -/
def Ends : Rank → List TypeToken → Prop
  | .primary, r => r.head? ≠ some .openAngle
  | .listed, r | .marked, r => r.head? ≠ some .openAngle ∧ r.head? ≠ some .openBracket
  | .alternatives, r =>
    r.head? ≠ some .openAngle ∧ r.head? ≠ some .openBracket ∧ r.head? ≠ some .bar

variable {l : Language} {k : Rank} {t r r' : List TypeToken} {e e' : TypeExpr}

theorem brackets_inj {n n' : Nat} (hr : r.head? ≠ some .openBracket)
    (hr' : r'.head? ≠ some .openBracket) (h : brackets r n = brackets r' n') : n = n' ∧ r = r' := by
  induction n generalizing n' with
  | zero =>
    cases n' with
    | zero => exact ⟨rfl, h⟩
    | succ n' => exact absurd (congrArg List.head? h) hr
  | succ n ih =>
    cases n' with
    | zero => exact absurd (congrArg List.head? h).symm hr'
    | succ n' =>
      obtain ⟨rfl, rfl⟩ := ih (List.cons.inj (List.cons.inj h).2).2
      exact ⟨rfl, rfl⟩

theorem ends_brackets (h : Ends .listed r) (n : Nat) : Ends .primary (brackets r n) := by
  cases n with
  | zero => exact h.1
  | succ n => exact fun heq => absurd (Option.some.inj heq) (by decide)

theorem not_reads_question (h : Reads l .listed (.question :: t) e r) : False := by
  cases h with
  | arrays h => cases h

/-- Of two ways to read an expression that ends before the same kind of tokens neither goes on where
the other one stops, rank by rank. -/
theorem Reads.unique (h : Reads l k t e r) (h' : Reads l k t e' r') (hr : Ends k r)
    (hr' : Ends k r') : e = e' ∧ r = r' := by
  induction h generalizing e' r' with
  | name =>
    cases h' with
    | name => exact ⟨rfl, rfl⟩
    | generic h' => exact absurd rfl hr
  | generic h ih =>
    cases h' with
    | name => exact absurd rfl hr'
    | generic h' =>
      obtain ⟨rfl, heq⟩ := ih h' (by simp [Ends]) (by simp [Ends])
      exact ⟨rfl, (List.cons.inj heq).2⟩
  | group h ih =>
    cases h' with
    | group h' =>
      obtain ⟨rfl, heq⟩ := ih h' (by simp [Ends]) (by simp [Ends])
      exact ⟨rfl, (List.cons.inj heq).2⟩
  | arrays h ih =>
    cases h' with
    | arrays h' =>
      obtain ⟨rfl, heq⟩ := ih h' (ends_brackets hr _) (ends_brackets hr' _)
      obtain ⟨rfl, rfl⟩ := brackets_inj hr.2 hr'.2 heq
      exact ⟨rfl, rfl⟩
  | maybe hl h ih =>
    cases h' with
    | maybe hl' h' =>
      obtain ⟨rfl, rfl⟩ := ih h' hr hr'
      exact ⟨rfl, rfl⟩
    | unmarked h' => exact (not_reads_question h').elim
  | unmarked h ih =>
    cases h' with
    | maybe hl' h' => exact (not_reads_question h).elim
    | unmarked h' => exact ih h' hr hr'
  | union h h₁ ih ih₁ =>
    cases h' with
    | union h' h₁' =>
      obtain ⟨rfl, heq⟩ := ih h' (by simp [Ends]) (by simp [Ends])
      obtain rfl := (List.cons.inj heq).2
      obtain ⟨rfl, rfl⟩ := ih₁ h₁' hr hr'
      exact ⟨rfl, rfl⟩
    | single h' =>
      obtain ⟨-, rfl⟩ := ih h' (by simp [Ends]) ⟨hr'.1, hr'.2.1⟩
      exact absurd rfl hr'.2.2
  | single h ih =>
    cases h' with
    | union h' h₁' =>
      obtain ⟨-, rfl⟩ := ih h' ⟨hr.1, hr.2.1⟩ (by simp [Ends])
      exact absurd rfl hr.2.2
    | single h' => exact ih h' ⟨hr.1, hr.2.1⟩ ⟨hr'.1, hr'.2.1⟩

theorem brackets_pair (r : List TypeToken) (n : Nat) :
    brackets (.openBracket :: .closeBracket :: r) n = brackets r (n + 1) := by
  induction n with
  | zero => rfl
  | succ n ih =>
    rw [brackets, ih]
    rfl

theorem Reads.array (h : Reads l .listed t e (.openBracket :: .closeBracket :: r)) :
    Reads l .listed t e.array r := by
  cases h with
  | arrays h =>
    rw [brackets_pair] at h
    exact .arrays h

end TypeExpr

/-- A text is read, as a whole, as the type expression of a reference. -/
def Language.Reads (l : Language) (s : String) (w : TypeRef) : Prop :=
  ∃ ts e, TypeToken.scan [] s.toList = some ts ∧ TypeExpr.Reads l .alternatives ts e [] ∧
    e.wrapping? l = some w

end QueryTypes
