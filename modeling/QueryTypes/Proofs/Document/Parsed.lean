import QueryTypes.Document.Parser
import QueryTypes.Proofs.Document.Identifier
import QueryTypes.Proofs.Outcome

/-!
# Names that are read

Every name that a definition is read with is an identifier: the lexer makes no other names, and
parsers only take tokens away.
-/

namespace QueryTypes

/-! ### Tokens -/

namespace Token

def Lexeme.IsNoName (l : Lexeme) : Prop := ∀ w, l.kind ≠ .name w

theorem isNoName_fail (m : String) (n : Nat) : (fail m n).IsNoName := by simp [Lexeme.IsNoName, fail]

theorem isNoName_numberEnd (s : List Char) (isFloat : Bool) (n : Nat) :
    (numberEnd s isFloat n).IsNoName := by
  have hvalue (t : String) : Lexeme.IsNoName ⟨if isFloat then .float t else .int t, n⟩ := by
    cases isFloat <;> simp [Lexeme.IsNoName]
  unfold numberEnd
  split
  · split
    · exact isNoName_fail _ _
    · exact hvalue _
  · exact hvalue _

theorem isNoName_numberPower (s : List Char) (isFloat : Bool) (n : Nat) :
    (numberPower s isFloat n).IsNoName := by
  unfold numberPower
  split
  · split
    · dsimp only
      split
      · exact isNoName_fail _ _
      · exact isNoName_numberEnd _ _ _
    · exact isNoName_numberEnd _ _ _
  · exact isNoName_numberEnd _ _ _

theorem isNoName_numberFraction (s : List Char) (n : Nat) : (numberFraction s n).IsNoName := by
  unfold numberFraction
  split
  · split
    · exact isNoName_fail _ _
    · exact isNoName_numberPower _ _ _
  · exact isNoName_numberPower _ _ _

theorem isNoName_number (s : List Char) : (number s).IsNoName := by
  unfold number
  dsimp only
  split
  · split
    · split
      · exact isNoName_fail _ _
      · exact isNoName_numberFraction _ _
    · exact isNoName_numberFraction _ _
  · split
    · exact isNoName_fail _ _
    · exact isNoName_numberFraction _ _

theorem isNoName_stringBody (fuel n : Nat) (acc s : List Char) :
    (stringBody fuel n acc s).IsNoName := by
  induction fuel generalizing n acc s with
  | zero => exact isNoName_fail _ _
  | succ fuel ih =>
    cases s with
    | nil => exact isNoName_fail _ _
    | cons c r =>
      unfold stringBody
      split
      · simp [Lexeme.IsNoName]
      · split
        · split
          · exact ih _ _ _
          · exact isNoName_fail _ _
          · simp [Lexeme.IsNoName]
        · split
          · exact isNoName_fail _ _
          · exact ih _ _ _

theorem isNoName_blockBody (fuel n : Nat) (acc s : List Char) :
    (blockBody fuel n acc s).IsNoName := by
  induction fuel generalizing n acc s with
  | zero => exact isNoName_fail _ _
  | succ fuel ih =>
    unfold blockBody
    split
    · simp [Lexeme.IsNoName]
    · exact ih _ _ _
    · exact ih _ _ _
    · exact isNoName_fail _ _

theorem isNameChar_of_isNameStart {c : Char} (h : isNameStart c = true) : isNameChar c = true := by
  rw [isNameStart, Bool.or_eq_true] at h
  rw [isNameChar, Bool.or_eq_true, Char.isAlphanum, Bool.or_eq_true]
  exact h.imp_left .inl

/-- The lexer reads no names but identifiers. -/
theorem isIdentifier_of_lexeme {s : List Char} {w : String} (h : (lexeme s).kind = .name w) :
    IsIdentifier w := by
  unfold lexeme at h
  split at h
  · cases h
  · cases h
  · exact absurd h (isNoName_blockBody _ _ _ _ w)
  · exact absurd h (isNoName_stringBody _ _ _ _ w)
  · rename_i c r
    split at h
    · cases h
    · split at h
      · exact absurd h (isNoName_number _ w)
      · split at h
        · -- the name goes as far as characters of names do, and the first one is such
          rename_i hstart
          obtain rfl := TokenKind.name.inj h
          have hc := isNameChar_of_isNameStart hstart
          constructor
          · rw [String.toList_ofList, List.takeWhile_cons_of_pos hc]
            exact hstart
          · rw [String.toList_ofList]
            exact List.all_eq_true.1 List.all_takeWhile
        · split at h
          · exact absurd h (isNoName_fail _ _ w)
          · exact absurd h (isNoName_fail _ _ w)

/-- Tokens of which all names are identifiers. -/
def Named (ts : List Token) : Prop := ∀ t ∈ ts, ∀ w, t.kind = .name w → IsIdentifier w

theorem named_scan (fuel offset : Nat) (s : List Char) : Named (scan fuel offset s) := by
  induction fuel generalizing offset s with
  | zero => exact fun t ht => absurd ht List.not_mem_nil
  | succ fuel ih =>
    have hone (k : TokenKind) (n : Nat) (hk : ∀ w, k ≠ .name w) : Named [⟨k, n⟩] := by
      intro t ht w hw
      rw [List.mem_singleton.1 ht] at hw
      exact absurd hw (hk w)
    unfold scan
    dsimp only
    split
    · exact hone _ _ (by simp)
    · exact hone _ _ (by simp)
    · exact hone _ _ (by simp)
    · intro t ht w hw
      rcases List.mem_cons.1 ht with rfl | ht
      · exact isIdentifier_of_lexeme hw
      · exact ih _ _ t ht w hw

theorem named_ofText (s : List Char) : Named (ofText s) := named_scan _ _ _

end Token

/-- A declaration whose values, if it declares an enum, are identifiers. -/
def TypeShape.WellSpelled (shape : TypeShape) : Prop :=
  ∀ vs, shape = .enum vs → ∀ v ∈ vs, IsIdentifier v.name

/-- A definition whose names are identifiers. -/
structure Definition.WellSpelled (d : Definition) : Prop where
  operation : ∀ o, d.operation? = some o → ∀ n ∈ o.name, IsIdentifier n.text
  fragment : ∀ f, d.fragment? = some f → IsIdentifier f.name.text
  type : ∀ t, d = .type t → IsIdentifier t.name ∧ t.shape.WellSpelled

namespace Definition.WellSpelled

theorem of_operation {o : Operation} (h : ∀ n ∈ o.name, IsIdentifier n.text) :
    WellSpelled (.operation o) := by
  constructor
  · rintro _ ⟨⟩
    exact h
  · rintro _ ⟨⟩
  · rintro _ ⟨⟩

theorem of_fragment {f : Fragment} (h : IsIdentifier f.name.text) : WellSpelled (.fragment f) := by
  constructor
  · rintro _ ⟨⟩
  · rintro _ ⟨⟩
    exact h
  · rintro _ ⟨⟩

theorem of_type {t : TypeDefinition} (hname : IsIdentifier t.name) (hshape : t.shape.WellSpelled) :
    WellSpelled (.type t) := by
  constructor
  · rintro _ ⟨⟩
  · rintro _ ⟨⟩
  · rintro _ ⟨⟩
    exact ⟨hname, hshape⟩

theorem of_directive (d : DirectiveDefinition) : WellSpelled (.directive d) := by
  constructor <;> rintro _ ⟨⟩

theorem of_schema (d : SchemaDefinition) : WellSpelled (.schema d) := by
  constructor <;> rintro _ ⟨⟩

end Definition.WellSpelled

/-! ### Parsers -/

namespace Parser

open Token (Named)

/-- A parser that leaves tokens with identifiers for names, if it is given such, and gives something
with a property. -/
def Gives {α : Type} (p : Parse α) (Q : α → Prop) : Prop :=
  ∀ r ts a ts', Named ts → p r ts = .ok (a, ts') → Named ts' ∧ Q a

/-- A parser that leaves tokens with identifiers for names, if it is given such. -/
def Keeps {α : Type} (p : Parse α) : Prop := Gives p fun _ => True

variable {α β : Type} {p : Parse α} {f : α → Parse β} {Q : α → Prop} {R : β → Prop}

namespace Gives

theorem pure {a : α} (h : Q a) : Gives (Pure.pure a : Parse α) Q := by
  intro r ts b ts' hts hok
  obtain ⟨rfl, rfl⟩ := Prod.mk.inj (Except.ok.inj hok)
  exact ⟨hts, h⟩

theorem throw (e : SyntaxError) : Gives (MonadExcept.throw e : Parse α) Q := by
  intro r ts a ts' hts hok
  cases hok

theorem bind (hp : Gives p Q) (hf : ∀ a, Q a → Gives (f a) R) : Gives (p >>= f) R := by
  intro r ts b ts' hts hok
  obtain ⟨⟨a, rest⟩, ha, hb⟩ := Outcome.bind_eq_ok_iff.1 hok
  obtain ⟨hrest, hQ⟩ := hp r ts a rest hts ha
  exact hf a hQ r rest b ts' hrest hb

theorem ite {c : Prop} [Decidable c] {q : Parse α} (hp : Gives p Q) (hq : Gives q Q) :
    Gives (if c then p else q) Q := by
  split
  · exact hp
  · exact hq

theorem map {g : α → β} (hp : Gives p Q) (hg : ∀ a, Q a → R (g a)) : Gives (g <$> p) R := by
  intro r ts b ts' hts hok
  rw [← bind_pure_comp] at hok
  exact bind hp (fun a ha => pure (hg a ha)) r ts b ts' hts hok

theorem keeps (hp : Gives p Q) : Keeps p :=
  fun r ts a ts' hts hok => ⟨(hp r ts a ts' hts hok).1, trivial⟩

end Gives

namespace Keeps

theorem pure (a : α) : Keeps (Pure.pure a : Parse α) := Gives.pure trivial

theorem bind (hp : Keeps p) (hf : ∀ a, Gives (f a) R) : Gives (p >>= f) R :=
  Gives.bind hp fun a _ => hf a

theorem map (hp : Keeps p) (g : α → β) : Keeps (g <$> p) := Gives.map hp fun _ _ => trivial

end Keeps

theorem gives_failAt (n : Nat) (m : String) : Gives (failAt n m : Parse α) Q := by
  intro r ts a ts' hts hok
  cases hok

theorem gives_current : Gives current fun t => ∀ w, t.kind = .name w → IsIdentifier w := by
  intro r ts t ts' hts hok
  cases ts with
  | nil =>
    obtain ⟨rfl, rfl⟩ := Prod.mk.inj (Except.ok.inj hok)
    exact ⟨hts, by simp⟩
  | cons t ts =>
    obtain ⟨rfl, rfl⟩ := Prod.mk.inj (Except.ok.inj hok)
    exact ⟨hts, hts _ List.mem_cons_self⟩

theorem keeps_current : Keeps current := gives_current.keeps

theorem keeps_check : Keeps check := by
  refine keeps_current.bind fun t => ?_
  split
  · exact gives_failAt _ _
  · exact .throw _
  · exact .pure trivial

theorem keeps_advance : Keeps advance := by
  refine Keeps.bind ?_ fun _ => keeps_check
  intro r ts a ts' hts hok
  obtain ⟨-, rfl⟩ := Prod.mk.inj (Except.ok.inj hok)
  exact ⟨fun t ht => hts t (List.mem_of_mem_drop ht), trivial⟩

theorem keeps_origin : Keeps origin := by
  intro r ts a ts' hts hok
  cases ts with
  | nil =>
    obtain ⟨-, rfl⟩ := Prod.mk.inj (Except.ok.inj hok)
    exact ⟨hts, trivial⟩
  | cons t ts =>
    obtain ⟨-, rfl⟩ := Prod.mk.inj (Except.ok.inj hok)
    exact ⟨hts, trivial⟩

theorem gives_unexpectedToken (t : Token) : Gives (unexpectedToken t : Parse α) Q :=
  gives_failAt _ _

theorem gives_unexpected : Gives (unexpected : Parse α) Q :=
  keeps_current.bind fun t => gives_unexpectedToken t

theorem keeps_peekIs (k : TokenKind) : Keeps (peekIs k) :=
  keeps_current.bind fun _ => .pure trivial

theorem keeps_peekMark (c : Char) : Keeps (peekMark c) := keeps_peekIs _

theorem gives_expectedBut (what : String) : Gives (expectedBut what : Parse α) Q :=
  keeps_current.bind fun _ => gives_failAt _ _

theorem keeps_mark (c : Char) : Keeps (mark c) :=
  (keeps_peekMark c).bind fun _ => .ite keeps_advance (gives_expectedBut _)

theorem keeps_mark? (c : Char) : Keeps (mark? c) :=
  (keeps_peekMark c).bind fun _ => .ite (keeps_advance.bind fun _ => .pure trivial) (.pure trivial)

theorem keeps_keyword (w : String) : Keeps (keyword w) :=
  (keeps_peekIs _).bind fun _ => .ite keeps_advance (gives_expectedBut _)

theorem keeps_keyword? (w : String) : Keeps (keyword? w) :=
  (keeps_peekIs _).bind fun _ => .ite (keeps_advance.bind fun _ => .pure trivial) (.pure trivial)

theorem gives_name : Gives name fun n => IsIdentifier n.text := by
  refine keeps_origin.bind fun o => gives_current.bind fun t ht => ?_
  split
  · rename_i w hw
    exact keeps_advance.bind fun _ => .pure (ht w hw)
  · exact gives_expectedBut _

theorem keeps_name : Keeps name := gives_name.keeps

theorem gives_itemsUntil (close : Char) (hp : Gives p Q) (n : Nat) :
    Gives (itemsUntil close p n) fun as => ∀ a ∈ as, Q a := by
  induction n with
  | zero => exact gives_unexpected
  | succ n ih =>
    refine hp.bind fun a ha => (keeps_mark? _).bind fun _ => .ite (.pure (by simpa using ha)) ?_
    exact ih.bind fun as has => .pure (by simpa using ⟨ha, has⟩)

theorem gives_many (fuel : Nat) (open_ close : Char) (hp : Gives p Q) :
    Gives (many fuel open_ close p) fun as => ∀ a ∈ as, Q a :=
  (keeps_mark _).bind fun _ => gives_itemsUntil _ hp _

theorem gives_optionalMany (fuel : Nat) (open_ close : Char) (hp : Gives p Q) :
    Gives (optionalMany fuel open_ close p) fun as => ∀ a ∈ as, Q a :=
  (keeps_peekMark _).bind fun _ => .ite (gives_many _ _ _ hp) (.pure (by simp))

theorem keeps_many (fuel : Nat) (open_ close : Char) (hp : Keeps p) :
    Keeps (many fuel open_ close p) := (gives_many _ _ _ hp).keeps

theorem keeps_optionalMany (fuel : Nat) (open_ close : Char) (hp : Keeps p) :
    Keeps (optionalMany fuel open_ close p) := (gives_optionalMany _ _ _ hp).keeps

theorem keeps_separated (fuel : Nat) (sep : Char) (hp : Keeps p) : Keeps (separated fuel sep p) := by
  have hgo (n : Nat) : Keeps (separated.go sep p n) := by
    induction n with
    | zero => exact gives_unexpected
    | succ n ih =>
      refine hp.bind fun _ => (keeps_mark? _).bind fun _ => .ite ?_ (.pure trivial)
      exact ih.bind fun _ => .pure trivial
  exact (keeps_mark? _).bind fun _ => hgo fuel

theorem keeps_typeRef (n : Nat) : Keeps (typeRef n) := by
  induction n with
  | zero => exact gives_unexpected
  | succ n ih =>
    refine keeps_origin.bind fun _ => (keeps_mark? _).bind fun _ => .ite ?_ ?_
    · exact ih.bind fun _ => (keeps_mark _).bind fun _ => (keeps_mark? _).bind fun _ => .pure trivial
    · exact keeps_name.bind fun _ => (keeps_mark? _).bind fun _ => .pure trivial

theorem keeps_variable : Keeps variable_ :=
  keeps_origin.bind fun _ => (keeps_mark _).bind fun _ => keeps_name.bind fun _ => .pure trivial

-- the three go through each other, each one level further down
theorem keeps_values (constant : Bool) (n : Nat) : Keeps (value constant n) ∧
    Keeps (valueItems constant n) ∧ Keeps (valueFields constant n) := by
  induction n with
  | zero => exact ⟨gives_unexpected, gives_unexpected, gives_unexpected⟩
  | succ n ih =>
    obtain ⟨hvalue, hitems, hfields⟩ := ih
    refine ⟨?_, ?_, ?_⟩
    · unfold value
      refine keeps_current.bind fun t => keeps_origin.bind fun _ => ?_
      split
      · refine (keeps_mark _).bind fun _ => (keeps_mark? _).bind fun _ => .ite (.pure trivial) ?_
        exact hitems.bind fun _ => .pure trivial
      · refine (keeps_mark _).bind fun _ => (keeps_mark? _).bind fun _ => .ite (.pure trivial) ?_
        exact hfields.bind fun _ => .pure trivial
      · exact keeps_advance.bind fun _ => .pure trivial
      · exact keeps_advance.bind fun _ => .pure trivial
      · exact keeps_advance.bind fun _ => .pure trivial
      · exact keeps_advance.bind fun _ => .pure trivial
      · refine .ite ((keeps_mark _).bind fun _ => keeps_current.bind fun _ => ?_)
          (keeps_variable.bind fun _ => .pure trivial)
        split
        · exact gives_failAt _ _
        · exact gives_unexpectedToken _
      · exact gives_unexpected
    · refine hvalue.bind fun _ => (keeps_mark? _).bind fun _ => .ite (.pure trivial) ?_
      exact hitems.bind fun _ => .pure trivial
    · refine keeps_name.bind fun _ => (keeps_mark _).bind fun _ => hvalue.bind fun _ =>
        (keeps_mark? _).bind fun _ => .ite (.pure trivial) ?_
      exact hfields.bind fun _ => .pure trivial

theorem keeps_value (constant : Bool) (n : Nat) : Keeps (value constant n) := (keeps_values _ n).1

theorem keeps_argument (constant : Bool) (n : Nat) : Keeps (argument constant n) :=
  keeps_name.bind fun _ => (keeps_mark _).bind fun _ => (keeps_value _ _).bind fun _ => .pure trivial

theorem keeps_arguments (constant : Bool) (n : Nat) : Keeps (arguments constant n) :=
  keeps_optionalMany _ _ _ (keeps_argument _ _)

theorem keeps_directives (constant : Bool) (fuel n : Nat) : Keeps (directives constant fuel n) := by
  induction n with
  | zero => exact gives_unexpected
  | succ n ih =>
    refine (keeps_peekMark _).bind fun _ => .ite ?_ (.pure trivial)
    exact keeps_origin.bind fun _ => (keeps_mark _).bind fun _ => keeps_name.bind fun _ =>
      (keeps_arguments _ _).bind fun _ => ih.bind fun _ => .pure trivial

theorem gives_fragmentName : Gives fragmentName fun n => IsIdentifier n.text :=
  (keeps_peekIs _).bind fun _ => .ite gives_unexpected gives_name

-- as with values, one depth for all three
theorem keeps_selections (n : Nat) :
    Keeps (selectionBlock n) ∧ Keeps (selectionItems n) ∧ Keeps (selection n) := by
  induction n with
  | zero => exact ⟨gives_unexpected, gives_unexpected, gives_unexpected⟩
  | succ n ih =>
    obtain ⟨hblock, hitems, hselection⟩ := ih
    refine ⟨?_, ?_, ?_⟩
    · exact (keeps_mark _).bind fun _ => hitems
    · refine hselection.bind fun _ => (keeps_mark? _).bind fun _ => .ite (.pure trivial) ?_
      exact hitems.bind fun _ => .pure trivial
    · unfold selection
      refine keeps_origin.bind fun _ => (keeps_peekIs _).bind fun _ => .ite ?_ ?_
      · refine keeps_advance.bind fun _ => (keeps_keyword? _).bind fun _ =>
          keeps_current.bind fun _ => .ite ?_ ?_
        · exact gives_fragmentName.keeps.bind fun _ => (keeps_directives _ _ _).bind fun _ =>
            .pure trivial
        · refine .ite ((keeps_name.map _).bind ?rest) ((Keeps.pure _).bind ?rest)
          exact fun _ => (keeps_directives _ _ _).bind fun _ => hblock.bind fun _ => .pure trivial
      · refine keeps_name.bind fun _ => (keeps_mark? _).bind fun _ => ?_
        refine .ite (keeps_name.bind fun _ => (Keeps.pure _).bind fun _ => ?_)
          ((Keeps.pure _).bind fun _ => ?_)
        all_goals
          refine (keeps_arguments _ _).bind fun _ => (keeps_directives _ _ _).bind fun _ =>
            (keeps_peekMark _).bind fun _ => .ite ?_ (.pure trivial)
          exact keeps_origin.bind fun _ => hblock.bind fun _ => .pure trivial

theorem keeps_selectionBlock (n : Nat) : Keeps (selectionBlock n) := (keeps_selections n).1

theorem keeps_variableDefinition (n : Nat) : Keeps (variableDefinition n) := by
  refine keeps_variable.bind fun _ => (keeps_mark _).bind fun _ => (keeps_typeRef _).bind fun _ =>
    (keeps_mark? _).bind fun _ => ?_
  refine .ite (((keeps_value _ _).map _).bind ?rest) ((Keeps.pure _).bind ?rest)
  exact fun _ => (keeps_directives _ _ _).bind fun _ => .pure trivial

theorem keeps_operationKind : Keeps operationKind := by
  refine keeps_current.bind fun _ => ?_
  split
  · refine keeps_advance.bind fun _ => ?_
    split
    · exact .pure trivial
    · exact gives_unexpectedToken _
  · exact gives_expectedBut _

theorem gives_operation (fuel : Nat) :
    Gives (operation fuel) fun o => ∀ n ∈ o.name, IsIdentifier n.text := by
  refine keeps_origin.bind fun _ => (keeps_peekMark _).bind fun _ => .ite ?_ ?_
  · exact (keeps_selectionBlock _).bind fun _ => .pure (by simp)
  · refine keeps_operationKind.bind fun _ => keeps_current.bind fun t => ?_
    dsimp only
    split
    · refine (gives_name.map (R := fun k => ∀ n ∈ k, IsIdentifier n.text) ?_).bind fun k hk => ?_
      · rintro n hn _ ⟨⟩
        exact hn
      · exact (keeps_optionalMany _ _ _ (keeps_variableDefinition _)).bind fun _ =>
          (keeps_directives _ _ _).bind fun _ => (keeps_selectionBlock _).bind fun _ => .pure hk
    · refine (Gives.pure (Q := fun k : Option Name => ∀ n ∈ k, IsIdentifier n.text) ?_).bind
        fun k hk => ?_
      · simp
      · exact (keeps_optionalMany _ _ _ (keeps_variableDefinition _)).bind fun _ =>
          (keeps_directives _ _ _).bind fun _ => (keeps_selectionBlock _).bind fun _ => .pure hk

theorem gives_fragment (fuel : Nat) : Gives (fragment fuel) fun f => IsIdentifier f.name.text :=
  keeps_origin.bind fun _ => (keeps_keyword _).bind fun _ => gives_fragmentName.bind fun _ hn =>
    (keeps_keyword _).bind fun _ => keeps_name.bind fun _ => (keeps_directives _ _ _).bind fun _ =>
    (keeps_selectionBlock _).bind fun _ => .pure hn

/-! ### Declarations of a schema -/

theorem keeps_description : Keeps description := by
  refine keeps_current.bind fun _ => ?_
  split
  · exact keeps_advance.bind fun _ => .pure trivial
  · exact .pure trivial

theorem keeps_inputDefinition (fuel : Nat) : Keeps (inputDefinition fuel) := by
  refine keeps_description.bind fun _ => keeps_name.bind fun _ => (keeps_mark _).bind fun _ =>
    (keeps_typeRef _).bind fun _ => (keeps_mark? _).bind fun _ => ?_
  refine .ite (((keeps_value _ _).map _).bind ?rest) ((Keeps.pure _).bind ?rest)
  exact fun _ => (keeps_directives _ _ _).bind fun _ => .pure trivial

theorem keeps_fieldDefinition (fuel : Nat) : Keeps (fieldDefinition fuel) :=
  keeps_description.bind fun _ => keeps_name.bind fun _ =>
    (keeps_optionalMany _ _ _ (keeps_inputDefinition _)).bind fun _ => (keeps_mark _).bind fun _ =>
    (keeps_typeRef _).bind fun _ => (keeps_directives _ _ _).bind fun _ => .pure trivial

theorem gives_enumValueDefinition (fuel : Nat) :
    Gives (enumValueDefinition fuel) fun v => IsIdentifier v.name := by
  refine keeps_description.bind fun _ => keeps_current.bind fun _ => ?_
  split
  · exact gives_failAt _ _
  · exact gives_failAt _ _
  · exact gives_failAt _ _
  · exact gives_name.bind fun _ hn => (keeps_directives _ _ _).bind fun _ => .pure hn

theorem keeps_typeName : Keeps typeName := keeps_name.bind fun _ => .pure trivial

theorem keeps_interfaces (fuel : Nat) : Keeps (interfaces fuel) :=
  (keeps_keyword? _).bind fun _ => .ite (keeps_separated _ _ keeps_typeName) (.pure trivial)

theorem keeps_fieldDefinitions (fuel : Nat) : Keeps (fieldDefinitions fuel) :=
  keeps_optionalMany _ _ _ (keeps_fieldDefinition _)

theorem keeps_rootDefinition : Keeps rootDefinition :=
  keeps_operationKind.bind fun _ => (keeps_mark _).bind fun _ => keeps_typeName.bind fun _ =>
    .pure trivial

theorem keeps_location : Keeps location :=
  keeps_current.bind fun _ => keeps_name.bind fun _ => .ite (.pure trivial) (gives_unexpectedToken _)

theorem gives_typeShape (fuel : Nat) (word : String) :
    Gives (typeShape fuel word) fun shaped => shaped.2.WellSpelled := by
  unfold typeShape
  split
  · exact (keeps_interfaces _).bind fun _ => (keeps_directives _ _ _).bind fun _ =>
      (keeps_fieldDefinitions _).bind fun _ => .pure (by simp [TypeShape.WellSpelled])
  · exact (keeps_interfaces _).bind fun _ => (keeps_directives _ _ _).bind fun _ =>
      (keeps_fieldDefinitions _).bind fun _ => .pure (by simp [TypeShape.WellSpelled])
  · refine (keeps_directives _ _ _).bind fun _ => (keeps_mark? _).bind fun _ => ?_
    exact .ite ((keeps_separated _ _ keeps_typeName).bind fun _ =>
        .pure (by simp [TypeShape.WellSpelled]))
      ((Keeps.pure _).bind fun _ => .pure (by simp [TypeShape.WellSpelled]))
  · exact (keeps_directives _ _ _).bind fun _ =>
      (gives_optionalMany _ _ _ (gives_enumValueDefinition _)).bind fun vs hvs =>
        .pure (by simpa [TypeShape.WellSpelled] using hvs)
  · exact (keeps_directives _ _ _).bind fun _ =>
      (keeps_optionalMany _ _ _ (keeps_inputDefinition _)).bind fun _ =>
        .pure (by simp [TypeShape.WellSpelled])
  · exact (keeps_directives _ _ _).bind fun _ => .pure (by simp [TypeShape.WellSpelled])

theorem keeps_directiveDefinition (fuel : Nat) (d : Option String) :
    Keeps (directiveDefinition fuel d) :=
  (keeps_keyword _).bind fun _ => (keeps_mark _).bind fun _ => keeps_name.bind fun _ =>
    (keeps_optionalMany _ _ _ (keeps_inputDefinition _)).bind fun _ =>
    (keeps_keyword? _).bind fun _ => (keeps_keyword _).bind fun _ =>
    (keeps_separated _ _ keeps_location).bind fun _ => .pure trivial

theorem keeps_lookahead : Keeps lookahead := by
  have hget : Keeps (get : Parse (List Token)) := by
    intro r ts a ts' hts hok
    obtain ⟨-, rfl⟩ := Prod.mk.inj (Except.ok.inj hok)
    exact ⟨hts, trivial⟩
  refine hget.bind fun _ => ?_
  split
  · split
    · exact gives_failAt _ _
    · exact .throw _
    · exact .pure trivial
  · exact keeps_current

/-! ### Definitions -/

theorem gives_declaration (fuel : Nat) (word : String) :
    Gives (declaration fuel word) Definition.WellSpelled := by
  refine keeps_description.bind fun _ => ?_
  split
  · exact (keeps_keyword _).bind fun _ => (keeps_directives _ _ _).bind fun _ =>
      (keeps_many _ _ _ keeps_rootDefinition).bind fun _ => .pure (.of_schema _)
  · exact (keeps_directiveDefinition _ _).bind fun _ => .pure (.of_directive _)
  · exact (keeps_keyword _).bind fun _ => gives_name.bind fun _ hn =>
      (gives_typeShape _ _).bind fun _ hshape => .pure (.of_type hn hshape)

theorem gives_extension (fuel : Nat) (word : String) :
    Gives (extension fuel word) Definition.WellSpelled := by
  refine (keeps_keyword _).bind fun _ => (keeps_keyword _).bind fun _ => .ite ?_ ?_
  · refine (keeps_directives _ _ _).bind fun _ =>
      (keeps_optionalMany _ _ _ keeps_rootDefinition).bind fun _ => ?_
    exact .ite (Keeps.bind gives_unexpected fun _ => .pure (.of_schema _)) (.pure (.of_schema _))
  · refine gives_name.bind fun _ hn => (gives_typeShape _ _).bind fun _ hshape => ?_
    exact .ite (Keeps.bind gives_unexpected fun _ => .pure (.of_type hn hshape))
      (.pure (.of_type hn hshape))

theorem gives_definition (fuel : Nat) : Gives (definition fuel) Definition.WellSpelled := by
  refine (keeps_peekMark _).bind fun _ => .ite ?_ ?_
  · exact (gives_operation _).bind fun o ho => .pure (.of_operation ho)
  · refine keeps_current.bind fun t => ?_
    dsimp only
    refine .ite (keeps_lookahead.bind fun key => ?_) ((Keeps.pure _).bind fun key => ?_)
    all_goals
      split
      · refine .ite (gives_declaration _ _) (.ite (gives_failAt _ _) (.ite ?_ (.ite ?_
          (.ite (keeps_lookahead.bind fun next => ?_) (gives_unexpectedToken _)))))
        · exact (gives_operation _).bind fun o ho => .pure (.of_operation ho)
        · exact (gives_fragment _).bind fun f hf => .pure (.of_fragment hf)
        · split
          · exact .ite (gives_extension _ _) (gives_unexpectedToken _)
          · exact gives_unexpectedToken _
      · exact gives_unexpectedToken _

theorem gives_definitions (fuel n : Nat) :
    Gives (definitions fuel n) fun ds => ∀ d ∈ ds, d.WellSpelled := by
  induction n with
  | zero => exact .pure (by simp)
  | succ n ih =>
    refine (gives_definition _).bind fun d hd => (keeps_peekIs _).bind fun _ => .ite ?_ ?_
    · exact .pure (by simpa using hd)
    · exact ih.bind fun ds hds => .pure (by simpa using ⟨hd, hds⟩)

end Parser

/-- What is read from a text has identifiers for names. -/
theorem wellSpelled_of_parseDefinitions {source : Source} {located : Bool} {ds : List Definition}
    (h : parseDefinitions source located = .ok ds) : ∀ d ∈ ds, d.WellSpelled := by
  unfold parseDefinitions at h
  obtain ⟨⟨ds', rest⟩, hread, hds⟩ := Outcome.map_eq_ok_iff.1 h
  obtain rfl : ds' = ds := hds
  have hgives (n : Nat) : Parser.Gives (do Parser.check; Parser.definitions n n)
      fun ds => ∀ d ∈ ds, d.WellSpelled :=
    Parser.keeps_check.bind fun _ => Parser.gives_definitions n n
  exact (hgives _ _ _ _ _ (Token.named_ofText _) hread).2

end QueryTypes
