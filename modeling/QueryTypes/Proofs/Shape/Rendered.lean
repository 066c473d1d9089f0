import QueryTypes.Proofs.Shape.Grammar

/-!
# Rendered references

The text of a reference around a name is built from texts that are read on their own. Main
statement: each generated language reads the text of a reference as that reference and as no other
one, so two references never have the same text.
-/

namespace QueryTypes

/-- The same layers around another name. -/
def TypeRef.around (name : String) : TypeRef → TypeRef
  | named _ r => named name r
  | list t r => list (t.around name) r

theorem TypeRef.around_withRequired (name : String) (r : Bool) (t : TypeRef) :
    (t.withRequired r).around name = (t.around name).withRequired r := by cases t <;> rfl

/-- Every identifier is a type name. -/
def IsTypeName (s : String) : Prop := s ≠ "" ∧ ∀ c ∈ s.toList, TypeToken.isNameChar c = true

instance (s : String) : Decidable (IsTypeName s) :=
  decidable_of_iff (s ≠ "" ∧ s.toList.all TypeToken.isNameChar = true)
    (by rw [IsTypeName, List.all_eq_true])

namespace TypeToken

/-- A text that cannot go on with a name. -/
def Apart (u : List Char) : Prop := ∀ c ∈ u.head?, isNameChar c = false

theorem scan_append {s : List Char} (hs : ∀ c ∈ s, isNameChar c = true) (word u : List Char) :
    scan word (s ++ u) = scan (s.reverse ++ word) u := by
  induction s generalizing word with
  | nil => rfl
  | cons c s ih =>
    rw [List.cons_append, scan, if_pos (hs c List.mem_cons_self),
      ih (fun d hd => hs d (List.mem_cons_of_mem _ hd)), List.reverse_cons, List.append_assoc]
    rfl

theorem scan_of_apart {u : List Char} (hu : Apart u) (word : List Char) :
    scan word u = (scan [] u).map (afterName word) := by
  cases u with
  | nil => rfl
  | cons c r =>
    have hc : isNameChar c = false := hu c rfl
    have hnil : afterName [] = id := rfl
    simp only [scan, hc, Bool.false_eq_true, if_false, hnil]
    split
    · simp
    · cases ofChar? c with
      | none => rfl
      | some t => simp [Function.comp_def]

theorem scan_name {s : String} (hs : IsTypeName s) {u : List Char} (hu : Apart u) :
    scan [] (s.toList ++ u) = (scan [] u).map (name s :: ·) := by
  have hne : s.toList.reverse ≠ [] := by simpa using hs.1
  have hname : afterName s.toList.reverse = (name s :: ·) := by
    funext ts
    rw [afterName, if_neg hne, List.reverse_reverse, String.ofList_toList]
  rw [scan_append hs.2, List.append_nil, scan_of_apart hu, hname]

theorem scan_sign {c : Char} {t : TypeToken} (hc : isNameChar c = false)
    (hblank : Text.isBlank c = false) (ht : ofChar? c = some t) (u : List Char) :
    scan [] (c :: u) = (scan [] u).map (t :: ·) := by
  simp only [scan, hc, hblank, ht, Bool.false_eq_true, if_false]
  rfl

theorem scan_space (u : List Char) : scan [] (' ' :: u) = scan [] u := by
  have hnil : afterName [] = id := rfl
  rw [scan, if_neg (by decide), if_pos (by decide), hnil, Option.map_id, id]

end TypeToken

open TypeToken TypeExpr

/-- A text stands for a reference wherever it stands: its tokens are its own before anything that
cannot go on with a name, and they are an expression of the rank before any other tokens. -/
def Spells (l : Language) (k : Rank) (s : String) (w : TypeRef) : Prop :=
  ∃ ts e, (∀ u, Apart u → scan [] (s.toList ++ u) = (scan [] u).map (ts ++ ·)) ∧
    (∀ r, TypeExpr.Reads l k (ts ++ r) e r) ∧ e.wrapping? l = some w

namespace Spells

variable {l : Language} {s g : String} {w : TypeRef}

theorem name (hs : IsTypeName s) (hnull : s ≠ "null") : Spells l .primary s (.named s true) :=
  ⟨[.name s], .name s, fun _ hu => scan_name hs hu, fun _ => .name, if_neg hnull⟩

theorem listed (h : Spells l .primary s w) : Spells l .listed s w := by
  obtain ⟨ts, e, hts, he, hw⟩ := h
  exact ⟨ts, e, hts, fun r => .arrays (n := 0) (he r), hw⟩

theorem marked (h : Spells l .listed s w) : Spells l .marked s w := by
  obtain ⟨ts, e, hts, he, hw⟩ := h
  exact ⟨ts, e, hts, fun r => .unmarked (he r), hw⟩

theorem single (h : Spells l .marked s w) : Spells l .alternatives s w := by
  obtain ⟨ts, e, hts, he, hw⟩ := h
  exact ⟨ts, e, hts, fun r => .single (he r), hw⟩

theorem group (h : Spells l .alternatives s w) : Spells l .primary ("(" ++ s ++ ")") w := by
  obtain ⟨ts, e, hts, he, hw⟩ := h
  refine ⟨.openParen :: ts ++ [.closeParen], e, ?_, ?_, hw⟩
  · intro u hu
    have hclose : Apart (')' :: u) := by simp [Apart, isNameChar]
    rw [String.toList_append, String.toList_append, List.append_assoc, List.append_assoc]
    change scan [] ('(' :: (s.toList ++ ')' :: u)) = _
    rw [scan_sign (by decide) (by decide) rfl, hts _ hclose, scan_sign (by decide) (by decide) rfl]
    simp [Function.comp_def]
  · intro r
    rw [List.append_assoc]
    exact .group (he _)

theorem generic (hg : IsTypeName g) (hlist : g ∈ l.listNames) (h : Spells l .alternatives s w) :
    Spells l .primary (g ++ "<" ++ s ++ ">") (.list w true) := by
  obtain ⟨ts, e, hts, he, hw⟩ := h
  refine ⟨.name g :: .openAngle :: ts ++ [.closeAngle], .generic g e, ?_, ?_, ?_⟩
  · intro u hu
    have hopen : Apart ('<' :: (s.toList ++ '>' :: u)) := by simp [Apart, isNameChar]
    have hclose : Apart ('>' :: u) := by simp [Apart, isNameChar]
    have htext : (g ++ "<" ++ s ++ ">").toList ++ u =
        g.toList ++ '<' :: (s.toList ++ '>' :: u) := by simp
    rw [htext, scan_name hg hopen, scan_sign (by decide) (by decide) rfl, hts _ hclose,
      scan_sign (by decide) (by decide) rfl]
    simp [Function.comp_def]
  · intro r
    rw [List.append_assoc]
    exact .generic (he _)
  · rw [wrapping?, if_pos hlist, hw]
    rfl

theorem array (h : Spells l .listed s w) : Spells l .listed (s ++ "[]") (.list w true) := by
  obtain ⟨ts, e, hts, he, hw⟩ := h
  refine ⟨ts ++ [.openBracket, .closeBracket], e.array, ?_, ?_, ?_⟩
  · intro u hu
    have hopen : Apart ('[' :: ']' :: u) := by simp [Apart, isNameChar]
    rw [String.toList_append, List.append_assoc]
    change scan [] (s.toList ++ '[' :: ']' :: u) = _
    rw [hts _ hopen, scan_sign (by decide) (by decide) rfl, scan_sign (by decide) (by decide) rfl]
    simp [Function.comp_def]
  · intro r
    rw [List.append_assoc]
    exact (he _).array
  · rw [wrapping?, hw]
    rfl

theorem orNull (h : Spells l .marked s w) : Spells l .alternatives (s ++ " | null") w.optional := by
  obtain ⟨ts, e, hts, he, hw⟩ := h
  refine ⟨ts ++ [.bar, .name "null"], .union e (.name "null"), ?_, ?_, ?_⟩
  · intro u hu
    have hspace : Apart (' ' :: '|' :: ' ' :: ("null".toList ++ u)) := by simp [Apart, isNameChar]
    rw [String.toList_append, List.append_assoc]
    change scan [] (s.toList ++ ' ' :: '|' :: ' ' :: ("null".toList ++ u)) = _
    rw [hts _ hspace, scan_space, scan_sign (by decide) (by decide) rfl, scan_space,
      scan_name (by decide) hu]
    simp [Function.comp_def]
  · intro r
    rw [List.append_assoc]
    exact .union (he _) (.single (.unmarked (.arrays (n := 0) .name)))
  · rw [wrapping?, if_pos rfl, hw]
    rfl

theorem maybe (h : Spells .flow .marked s w) : Spells .flow .marked ("?" ++ s) w.optional := by
  obtain ⟨ts, e, hts, he, hw⟩ := h
  refine ⟨.question :: ts, .maybe e, ?_, fun r => .maybe rfl (he r), ?_⟩
  · intro u hu
    rw [String.toList_append]
    change scan [] ('?' :: (s.toList ++ u)) = _
    rw [scan_sign (by decide) (by decide) rfl, hts u hu]
    simp [Function.comp_def]
  · rw [wrapping?, hw]
    rfl

/-- A text that stands for a reference is read as nothing else. -/
theorem reads_iff (h : Spells l .alternatives s w) {w' : TypeRef} : l.Reads s w' ↔ w' = w := by
  obtain ⟨ts, e, hts, he, hw⟩ := h
  have hscan : scan [] s.toList = some ts := by
    have hnil := hts [] (by simp [Apart])
    rw [List.append_nil] at hnil
    rw [hnil]
    simp [scan, afterName]
  have hall : TypeExpr.Reads l .alternatives ts e [] := by
    have hnil := he []
    rwa [List.append_nil] at hnil
  constructor
  · rintro ⟨ts', e', hts', he', hw'⟩
    obtain rfl : ts' = ts := Option.some.inj (hts'.symm.trans hscan)
    obtain ⟨rfl, -⟩ := he'.unique hall (by simp [Ends]) (by simp [Ends])
    exact Option.some.inj (hw'.symm.trans hw)
  · rintro rfl
    exact ⟨ts, e, hscan, hall, hw⟩

end Spells

namespace Style

variable {y : Style} {leaf : String}

theorem layers_eq (y : Style) (leaf : String) (t : TypeRef) : y.layers leaf t =
    if t.isRequired then y.layers leaf (t.withRequired true)
    else y.nullable (y.layers leaf (t.withRequired true)) := by
  cases t <;> simp [layers, TypeRef.isRequired, TypeRef.withRequired]

theorem contains_space_nullable (hy : y.language = .typescript) (e : String) :
    (y.nullable e).contains ' ' = true := by
  simp [nullable, hy, String.contains_char_eq]

theorem spells_nullable {e : String} {w : TypeRef} (h : Spells y.language .listed e w) :
    Spells y.language .alternatives (y.nullable e) w.optional := by
  cases hl : y.language with
  | typescript =>
    rw [hl] at h
    simp only [nullable, hl]
    exact h.marked.orNull
  | flow =>
    rw [hl] at h
    simp only [nullable, hl]
    exact h.marked.maybe.single

/-- An expression without parentheses in front of brackets is that of a required reference, which is
no union. -/
theorem spells_listOf {t : TypeRef} {w : TypeRef}
    (hall : Spells y.language .alternatives (y.layers leaf t) w)
    (hrequired : t.isRequired = true → Spells y.language .listed (y.layers leaf t) w) :
    Spells y.language .listed (y.listOf (y.layers leaf t)) (.list w true) := by
  cases hl : y.language with
  | flow =>
    rw [hl] at hall
    cases hr : y.readOnly with
    | false =>
      simp only [listOf, hl, hr]
      exact (Spells.generic (g := "Array") (by decide) (by decide) hall).listed
    | true =>
      simp only [listOf, hl, hr]
      exact (Spells.generic (g := "$ReadOnlyArray") (by decide) (by decide) hall).listed
  | typescript =>
    rw [hl] at hall hrequired
    cases hr : y.readOnly with
    | true =>
      simp only [listOf, hl, hr]
      exact (Spells.generic (g := "ReadonlyArray") (by decide) (by decide) hall).listed
    | false =>
      simp only [listOf, hl, hr, grouped]
      split
      · exact hall.group.listed.array
      · rename_i hspace
        refine (hrequired (Decidable.byContradiction fun hoptional => hspace ?_)).array
        rw [layers_eq, if_neg hoptional]
        exact contains_space_nullable hl _

theorem spells_of_required {t : TypeRef}
    (h : Spells y.language .listed (y.layers leaf (t.withRequired true))
      ((t.around leaf).withRequired true)) :
    Spells y.language .alternatives (y.layers leaf t) (t.around leaf) := by
  rw [layers_eq]
  split
  · rename_i hr
    have hsame : (t.around leaf).withRequired true = t.around leaf := by
      cases t <;> cases hr <;> rfl
    rw [hsame] at h
    exact h.marked.single
  · rename_i hr
    have hsame : ((t.around leaf).withRequired true).optional = t.around leaf := by
      cases t <;> simp_all [TypeRef.isRequired, TypeRef.around, TypeRef.withRequired, TypeRef.optional]
    rw [← hsame]
    exact spells_nullable h

theorem spells_required (hname : IsTypeName leaf) (hnull : leaf ≠ "null") (t : TypeRef) :
    Spells y.language .listed (y.layers leaf (t.withRequired true))
      ((t.around leaf).withRequired true) := by
  induction t with
  | named n r => exact (Spells.name hname hnull).listed
  | list t r ih =>
    refine spells_listOf (spells_of_required ih) fun hr => ?_
    have hsame : t.withRequired true = t := by cases t <;> cases hr <;> rfl
    rwa [← TypeRef.around_withRequired, hsame] at ih

/-- Type expressions keep all layers of a reference. For every reference, style and type name that
is not null: the text around the name is read as the reference with that name and as nothing else,
so references that differ in a layer or a name have different texts, also if only one of them is
written with read-only lists. -/
theorem reads_layers_iff (y : Style) (t : TypeRef) (hname : IsTypeName leaf) (hnull : leaf ≠ "null") :
    (∀ w, y.language.Reads (y.layers leaf t) w ↔ w = t.around leaf) ∧
    ∀ (y' : Style) (t' : TypeRef) (leaf' : String), y'.language = y.language → IsTypeName leaf' →
      leaf' ≠ "null" → y'.layers leaf' t' = y.layers leaf t → t'.around leaf' = t.around leaf := by
  have hspells := spells_of_required (spells_required (y := y) hname hnull t)
  refine ⟨fun w => hspells.reads_iff, ?_⟩
  intro y' t' leaf' hl hname' hnull' htext
  have hspells' := spells_of_required (spells_required (y := y') hname' hnull' t')
  rw [htext, hl] at hspells'
  exact hspells.reads_iff.1 (hspells'.reads_iff.2 rfl)

/-- A list that may be null, of lists that may not be null, of users that may be null. -/
theorem reads_layers_iff_nested :
    let y : Style := ⟨.typescript, false, false⟩
    let t : TypeRef := .list (.list (.named "User" false) true) false
    IsTypeName "User" ∧ "User" ≠ "null" ∧ y.layers "User" t = "((User | null)[])[] | null" ∧
      ∀ w, Language.typescript.Reads "((User | null)[])[] | null" w ↔ w = t := by
  intro y t
  have hname : IsTypeName "User" := by decide
  have hnull : "User" ≠ "null" := by decide
  have htext : y.layers "User" t = "((User | null)[])[] | null" := by cbv
  obtain ⟨hreads, -⟩ := reads_layers_iff y t hname hnull
  rw [htext] at hreads
  exact ⟨hname, hnull, htext, hreads⟩

end Style
end QueryTypes
