import QueryTypes.Proofs.Output.Bundle
import QueryTypes.Proofs.Output.Shared
import QueryTypes.Proofs.Schema.Spelled
import QueryTypes.Proofs.Shape.EnumGrammar

/-!
# Enums as they are declared

Lines are scanned one after another, so that a declaration has the tokens of its lines wherever it
stands; descriptions have none. Main statement: the declaration of each shared enum is read with the
name and the values that the schema has for it, except that one of the languages has no declaration
of an enum without values.
-/

namespace QueryTypes

open DeclToken

/-! ### Lines and their tokens -/

/-- Lines that have these tokens wherever they stand. -/
def Yields (ls : List String) (ts : List DeclToken) : Prop :=
  ∀ u, scan (.between []) ((textOfLines ls).toList ++ u) = (ts ++ ·) <$> scan (.between []) u

namespace Yields

variable {l : String} {ls ls' : List String} {ts ts' : List DeclToken}

theorem nil : Yields [] [] := by
  intro u
  exact (id_map (scan (.between []) u)).symm

theorem append (h : Yields ls ts) (h' : Yields ls' ts') : Yields (ls ++ ls') (ts ++ ts') := by
  intro u
  rw [textOfLines_append, String.toList_append, List.append_assoc, h, h', ← comp_map]
  simp [Function.comp_def]

theorem line (hl : ∀ u, scan (.between []) (l.toList ++ '\n' :: u) =
    (ts ++ ·) <$> scan (.between []) u) : Yields [l] ts := by
  intro u
  rw [textOfLines_cons, String.toList_append, String.toList_append, List.append_assoc,
    List.append_assoc]
  exact hl u

theorem cons (hl : Yields [l] ts) (h : Yields ls ts') : Yields (l :: ls) (ts ++ ts') := by
  have happend := hl.append h
  rwa [List.singleton_append] at happend

theorem flatMap {α : Type} {xs : List α} {f : α → List String} {g : α → List DeclToken}
    (h : ∀ x ∈ xs, Yields (f x) (g x)) : Yields (xs.flatMap f) (xs.flatMap g) := by
  induction xs with
  | nil => exact nil
  | cons x xs ih =>
    obtain ⟨hx, hxs⟩ := List.forall_mem_cons.1 h
    exact append hx (ih hxs)

theorem enum? {y : Language} (h : Yields ls ts) : y.enum? (textOfLines ls) = readEnum y ts := by
  have hscan := h []
  have hend : scan (.between []) [] = some [] := rfl
  rw [List.append_nil, hend] at hscan
  rw [Language.enum?, hscan, Option.map_eq_map, Option.map_some, List.append_nil, Option.bind_some]

end Yields

namespace Style

theorem apart_space (r : List Char) : TypeToken.Apart (' ' :: r) := by
  rintro c ⟨⟩
  decide

theorem isChain_apart {s : List Char} (hs : '/' ∉ s) : s.IsChain Text.Apart := by
  rw [Text.isChain_apart_iff]
  rintro ⟨front, back, rfl⟩
  simp at hs

/-- What is put around a line of a comment ends no comment, and neither does the line there. -/
theorem isChain_commentLines {indent line : List Char} (hindent : '/' ∉ indent)
    (hline : Text.IsCommentLine line) :
    (('*' :: '\n' :: (indent ++ [' ', '*', ' '])) ++ (line ++ '\n' :: (indent ++ [' ']))).IsChain
      Text.Apart := by
  have hlast : ('*' :: '\n' :: (indent ++ [' ', '*', ' '])).getLast? = some ' ' := by
    have hback : '*' :: '\n' :: (indent ++ [' ', '*', ' ']) =
        ('*' :: '\n' :: (indent ++ [' ', '*'])) ++ [' '] := by simp
    rw [hback, List.getLast?_concat]
  refine List.isChain_append.2 ⟨isChain_apart (by simp [hindent]), List.isChain_append.2
    ⟨Text.isChain_apart_iff.2 hline.unended, isChain_apart (by simp [hindent]), ?_⟩, ?_⟩
  · intro a _ b hb
    obtain rfl : '\n' = b := by simpa using hb
    exact Text.apart_of_ne_slash (by decide)
  · intro a ha b _
    obtain rfl : ' ' = a := Option.some.inj (hlast.symm.trans ha)
    exact Text.apart_of_ne_star (by decide)

/-- A description is passed over: it does not end the comment that it stands in. -/
theorem yields_comment {indent : String} (hindent : ∀ c ∈ indent.toList, c = ' ')
    (d : Option String) : Yields (comment indent d) [] := by
  rw [comment]
  cases given d with
  | none => exact .nil
  | some d =>
    have hslash : '/' ∉ indent.toList := fun hmem => absurd (hindent _ hmem) (by decide)
    have hinside := isChain_commentLines hslash (Text.isCommentLine_commentText d.toList)
    intro u
    have htext : (textOfLines [indent ++ "/**", indent ++ " * " ++ Text.comment d,
        indent ++ " */"]).toList ++ u = indent.toList ++ '/' :: '*' ::
          ((('*' :: '\n' :: (indent.toList ++ [' ', '*', ' '])) ++
            (Text.commentText d.toList ++ '\n' :: (indent.toList ++ [' ']))) ++
              '*' :: '/' :: '\n' :: u) := by
      simp [textOfLines, String.join, Text.comment]
    rw [htext, scan_spaces hindent, scan_comment hinside, scan_lineEnd]
    exact (id_map _).symm

def memberTokens (n : String) : List DeclToken := [.word n, .sign '=', .literal n, .sign ',']

theorem yields_member {n : String} (hn : IsIdentifier n) :
    Yields ["  " ++ n ++ " = \"" ++ n ++ "\","] (memberTokens n) := by
  refine .line fun u => ?_
  have htext : ("  " ++ n ++ " = \"" ++ n ++ "\",").toList ++ '\n' :: u =
      ' ' :: ' ' :: (n.toList ++ ' ' :: '=' :: ' ' :: '"' :: (n.toList ++ '"' :: ',' :: '\n' :: u)) := by
    simp
  rw [htext, scan_space, scan_space, scan_word hn.isTypeName (apart_space _), scan_space,
    scan_sign (by decide), scan_space, scan_literal hn.literal, scan_sign (by decide), scan_lineEnd]
  simp [Function.comp_def, memberTokens]

def alternativeTokens : List String → List DeclToken
  | [] => []
  | [n] => [.sign '|', .literal n, .sign ';']
  | n :: r => .sign '|' :: .literal n :: alternativeTokens r

theorem yields_alternatives {ns : List String} (h : ∀ n ∈ ns, IsIdentifier n) :
    Yields (alternatives ns) (alternativeTokens ns) := by
  have hpart {n : String} (hn : IsIdentifier n) (u : List Char) :
      scan (.between []) (' ' :: ' ' :: '|' :: ' ' :: '"' :: (n.toList ++ '"' :: u)) =
        (.sign '|' :: .literal n :: ·) <$> scan (.between []) u := by
    rw [scan_space, scan_space, scan_sign (by decide), scan_space, scan_literal hn.literal]
    simp [Function.comp_def]
  induction ns with
  | nil => exact .nil
  | cons n ns ih =>
    obtain ⟨hn, hns⟩ := List.forall_mem_cons.1 h
    cases ns with
    | nil =>
      refine .line fun u => ?_
      have htext : ("  | \"" ++ n ++ "\";").toList ++ '\n' :: u =
          ' ' :: ' ' :: '|' :: ' ' :: '"' :: (n.toList ++ '"' :: ';' :: '\n' :: u) := by simp
      rw [htext, hpart hn, scan_sign (by decide), scan_lineEnd]
      simp [Function.comp_def, alternativeTokens]
    | cons m ns =>
      have hline : Yields ["  | \"" ++ n ++ "\""] [.sign '|', .literal n] := by
        refine .line fun u => ?_
        have htext : ("  | \"" ++ n ++ "\"").toList ++ '\n' :: u =
            ' ' :: ' ' :: '|' :: ' ' :: '"' :: (n.toList ++ '"' :: '\n' :: u) := by simp
        rw [htext, hpart hn, scan_lineEnd]
        rfl
      exact hline.cons (ih hns)

theorem readAlternatives_tokens (ns : List String) :
    readAlternatives (alternativeTokens ns) = if ns = [] then none else some ns := by
  induction ns with
  | nil => rfl
  | cons n ns ih =>
    cases ns with
    | nil => rfl
    | cons m ns =>
      have hmore : alternativeTokens (m :: ns) ≠ [.sign ';'] := by
        cases ns <;> simp [alternativeTokens]
      rw [alternativeTokens, readAlternatives, if_neg hmore, ih]
      · rfl
      · simp

theorem readMembers_tokens (ns : List String) :
    readMembers (ns.flatMap memberTokens ++ [.sign '\x7d']) = some ns := by
  induction ns with
  | nil => rfl
  | cons n ns ih =>
    rw [List.flatMap_cons, List.append_assoc, memberTokens]
    change (if n = n then (n :: ·) <$> readMembers (ns.flatMap memberTokens ++ [.sign '\x7d'])
      else none) = _
    rw [if_pos rfl, ih]
    rfl

theorem yields_head {line kind name : String} {c : Char} (hkind : IsTypeName kind)
    (hname : IsIdentifier name) (hc : isSign c = true)
    (hline : line.toList =
      "export".toList ++ ' ' :: (kind.toList ++ ' ' :: (name.toList ++ [' ', c]))) :
    Yields [line] [.word "export", .word kind, .word name, .sign c] := by
  refine .line fun u => ?_
  have hexport : IsTypeName "export" := by decide
  have htext : line.toList ++ '\n' :: u = "export".toList ++ ' ' :: (kind.toList ++ ' ' ::
      (name.toList ++ ' ' :: c :: '\n' :: u)) := by
    rw [hline]
    simp
  rw [htext, scan_word hexport (apart_space _), scan_space, scan_word hkind (apart_space _),
    scan_space, scan_word hname.isTypeName (apart_space _), scan_space, scan_sign hc, scan_lineEnd]
  simp [Function.comp_def]

/-- An enum with braces is read with its name and its values, in order. -/
theorem enum?_members {y : Style} (hl : y.language = .typescript) {e : EnumShape}
    (hname : IsIdentifier e.name) (hvalues : ∀ v ∈ e.values, IsIdentifier v.1) :
    Language.typescript.enum? (textOfLines (y.enum e)) =
      some (e.name, e.values.map Prod.fst) := by
  have hcomment : Yields (comment "" e.description) [] := yields_comment (by simp) e.description
  have hhead : Yields ["export enum " ++ e.name ++ " \x7b"]
      [.word "export", .word "enum", .word e.name, .sign '\x7b'] :=
    yields_head (by decide) hname (by decide) (by simp)
  have hmembers : Yields (e.values.flatMap fun v =>
      comment "  " v.2 ++ ["  " ++ v.1 ++ " = \"" ++ v.1 ++ "\","])
        (e.values.flatMap fun v => memberTokens v.1) :=
    .flatMap fun v hv => (yields_comment (by simp) v.2).append (yields_member (hvalues v hv))
  have hclose : Yields ["\x7d"] [.sign '\x7d'] := by
    refine .line fun u => ?_
    have htext : "\x7d".toList ++ '\n' :: u = '\x7d' :: '\n' :: u := rfl
    rw [htext, scan_sign (by decide), scan_lineEnd]
    rfl
  have hlines : y.enum e = comment "" e.description ++ ("export enum " ++ e.name ++ " \x7b") ::
      (e.values.flatMap (fun v => comment "  " v.2 ++ ["  " ++ v.1 ++ " = \"" ++ v.1 ++ "\","])
        ++ ["\x7d"]) := by
    simp only [enum, hl]
    rfl
  have hread := readMembers_tokens (e.values.map Prod.fst)
  rw [List.flatMap_map] at hread
  have hreads (ts : List DeclToken) :
      readEnum .typescript ([.word "export", .word "enum", .word e.name, .sign '\x7b'] ++ ts) =
        (e.name, ·) <$> readMembers ts := rfl
  rw [hlines, (hcomment.append (hhead.cons (hmembers.append hclose))).enum?, List.nil_append,
    hreads, hread]
  rfl

/-- An enum of alternatives is read with its name and its values, in order, if it has any: only the
last one brings the sign that ends the declaration. -/
theorem enum?_alternatives {y : Style} (hl : y.language = .flow) {e : EnumShape}
    (hname : IsIdentifier e.name) (hvalues : ∀ v ∈ e.values, IsIdentifier v.1) :
    Language.flow.enum? (textOfLines (y.enum e)) =
      if e.values = [] then none else some (e.name, e.values.map Prod.fst) := by
  have hcomment : Yields (comment "" e.description) [] := yields_comment (by simp) e.description
  have hhead : Yields ["export type " ++ e.name ++ " ="]
      [.word "export", .word "type", .word e.name, .sign '='] :=
    yields_head (by decide) hname (by decide) (by simp)
  have halternatives : Yields (alternatives (e.values.map Prod.fst))
      (alternativeTokens (e.values.map Prod.fst)) := by
    refine yields_alternatives fun n hn => ?_
    obtain ⟨v, hv, rfl⟩ := List.mem_map.1 hn
    exact hvalues v hv
  have hblank : Yields [""] [] := .line fun u => (scan_lineEnd u).trans (id_map _).symm
  have hlines : y.enum e = comment "" e.description ++ ("export type " ++ e.name ++ " =") ::
      (alternatives (e.values.map Prod.fst) ++ [""]) := by
    simp only [enum, hl]
    rfl
  have hreads (ts : List DeclToken) :
      readEnum .flow ([.word "export", .word "type", .word e.name, .sign '='] ++ ts) =
        (e.name, ·) <$> readAlternatives ts := rfl
  rw [hlines, (hcomment.append (hhead.cons (halternatives.append hblank))).enum?, List.append_nil,
    List.nil_append, hreads, readAlternatives_tokens]
  by_cases hnone : e.values = []
  · simp [hnone]
  · rw [if_neg (mt List.map_eq_nil_iff.1 hnone), if_neg hnone]
    rfl

theorem enum?_enum (y : Style) {e : EnumShape} (hname : IsIdentifier e.name)
    (hvalues : ∀ v ∈ e.values, IsIdentifier v.1) : y.language.enum? (textOfLines (y.enum e)) =
      if y.language = .flow ∧ e.values = [] then none else some (e.name, e.values.map Prod.fst) := by
  cases hl : y.language with
  | typescript => rw [enum?_members hl hname hvalues, if_neg (by simp)]
  | flow =>
    rw [enum?_alternatives hl hname hvalues]
    by_cases hnone : e.values = []
    · rw [if_pos hnone, if_pos ⟨rfl, hnone⟩]
    · rw [if_neg hnone, if_neg (mt And.right hnone)]

/-- The lines of an enum stand among those for the shared types. -/
theorem exists_sharedBody (y : Style) {s : SharedShapes} {e : EnumShape} (he : e ∈ s.enums) :
    ∃ before after, y.sharedBody s = before ++ y.enum e ++ after := by
  obtain ⟨f, r, hsplit⟩ := List.append_of_mem he
  refine ⟨mark "START" ++ f.flatMap (fun e => "" :: y.enum e) ++ [""],
    r.flatMap (fun e => "" :: y.enum e) ++ s.inputs.flatMap (fun o => "" :: y.object false o) ++
      "" :: mark "END", ?_⟩
  simp [sharedBody, hsplit]

end Style

namespace Types

open ShapeContext

variable {l : Language} {e : Emission} {files : List GeneratedFile}

theorem exists_lines_of_emit (h : emit l Overrides.none e = .ok files) :
    ∃ ms, modules e.context e.document = .ok ms ∧
      ∀ shape ∈ (e.context.shared e.options.omitDeprecated ms).enums, ∃ f ∈ files, ∃ before after,
        f.content =
          textOfLines (before ++ (Style.ofOptions l e.options).enum shape ++ after) := by
  have hdeclares {ms : List ModuleShape} {shape : EnumShape}
      (hshape : shape ∈ (e.context.shared e.options.omitDeprecated ms).enums) :
      (e.context.shared e.options.omitDeprecated ms).isEmpty = false := by
    rw [SharedShapes.isEmpty, List.isEmpty_eq_false_iff.2 (List.ne_nil_of_mem hshape),
      Bool.false_and]
  cases hb : (placement l e).bundle? with
  | some path =>
    obtain ⟨ms, hms, rfl⟩ := exists_of_emit_bundle h hb
    refine ⟨ms, hms, fun shape hshape => ⟨_, List.mem_singleton_self _, ?_⟩⟩
    obtain ⟨before, after, hlines⟩ := (Style.ofOptions l e.options).exists_sharedBody hshape
    refine ⟨(Style.ofOptions l e.options).header ++
      ms.flatMap (fun m => "" :: (Style.ofOptions l e.options).body m) ++ "" :: before, after, ?_⟩
    rw [Style.bundleLines_eq, hdeclares hshape, if_neg Bool.false_ne_true, hlines]
    simp only [List.append_assoc, List.cons_append]
  | none =>
    obtain ⟨ms, written, hms, -, rfl⟩ := exists_of_emit h hb
    refine ⟨ms, hms, fun shape hshape => ?_⟩
    obtain ⟨before, after, hlines⟩ := (Style.ofOptions l e.options).exists_sharedBody hshape
    rw [hdeclares hshape, if_neg Bool.false_ne_true]
    refine ⟨_, List.mem_append_right _ (List.mem_singleton_self _),
      (Style.ofOptions l e.options).header ++ [""] ++ before, after, ?_⟩
    rw [Style.sharedLines_eq, hlines]
    simp only [List.append_assoc]

/-- Enums are declared with their values. Whenever declarations are written for a schema whose names
are identifiers: each shared enum is one of the schema, its lines stand in a file, and what they are
read as is its name with its values in the order of the schema, less the deprecated ones if those are
omitted. Only an enum without any is not declared in one of the languages: nothing follows the sign
there, and nothing ends it. -/
theorem enums_declared (hs : e.schema.Spelled)
    (h : emit l Overrides.none e = .ok files) :
    ∃ ms, modules e.context e.document = .ok ms ∧
      ∀ shape ∈ (e.context.shared e.options.omitDeprecated ms).enums, ∃ t,
        e.schema.type? shape.name = some t ∧ t.isEnum = true ∧
        let lines := (Style.ofOptions l e.options).enum shape
        let kept := if e.options.omitDeprecated then t.values.filter (·.deprecation.isNone)
          else t.values
        (∃ f ∈ files, ∃ before after, f.content = textOfLines (before ++ lines ++ after)) ∧
        l.enum? (textOfLines lines) = if l = .flow ∧ kept = [] then none
          else some (t.name, kept.map EnumValue.name) := by
  obtain ⟨ms, hms, hlines⟩ := exists_lines_of_emit h
  refine ⟨ms, hms, fun shape hshape => ?_⟩
  obtain ⟨t, hneeded, henum, rfl⟩ :=
    (mem_enums_iff (moduleClosed_of_modules hms)).1 hshape
  have ht : e.schema.type? t.name = some t := hneeded.type?
  obtain ⟨hname, hvalues⟩ := hs t (Schema.mem_of_type? ht)
  refine ⟨t, ht, henum, hlines _ hshape, ?_⟩
  generalize hkept : (if e.options.omitDeprecated then t.values.filter (·.deprecation.isNone)
    else t.values) = kept
  have hshaped : (enumShape e.options.omitDeprecated t).values =
      kept.map fun v => (v.name, v.description) := by
    rw [← hkept, enumShape]
    cases e.options.omitDeprecated <;> simp
  have hspelled : ∀ v ∈ (enumShape e.options.omitDeprecated t).values,
      IsIdentifier v.1 := by
    intro v hv
    obtain ⟨w, hw, rfl⟩ := List.mem_map.1 hv
    exact hvalues w (List.mem_filter.1 hw).1
  have hread := (Style.ofOptions l e.options).enum?_enum hname hspelled
  simp only [hshaped, List.map_map, List.map_eq_nil_iff] at hread
  exact hread

/-- A query for an enum, without its deprecated values. -/
def moodOf (values : List EnumValue) : Emission where
  document := ⟨[⟨.query, some ⟨"Q", none⟩, [], [], [plainField "mood" []], none⟩], []⟩
  schema := ⟨[plainType "Query" [("mood", "Mood")],
    ⟨"Mood", some "How it goes */", .enum values⟩], some "Query", none, none, []⟩
  output := "out"
  beside := false
  options := { Options.standard with addTypename := false, omitDeprecated := true }
  cwd := []

/-- What is read in the one enum that is declared. -/
def ReadsMood (values : List EnumValue) (read : Option (String × List String)) : Prop :=
  ∃ ms, modules (moodOf values).context (moodOf values).document = .ok ms ∧
    ((moodOf values).context.shared true ms).enums.map EnumShape.name = ["Mood"] ∧
    ∀ shape ∈ ((moodOf values).context.shared true ms).enums, Language.flow.enum?
      (textOfLines ((Style.ofOptions .flow (moodOf values).options).enum shape)) = read

/-- Of three values one is deprecated, and then the only one. -/
theorem enums_declared_mood :
    ReadsMood [⟨"OK", none, none⟩, ⟨"OLD", none, some ""⟩, ⟨"BAD", some "not well", none⟩]
      (some ("Mood", ["OK", "BAD"])) ∧
    ReadsMood [⟨"OLD", none, some "unused"⟩] none := by
  have hreads {values : List EnumValue} (hs : (moodOf values).schema.Spelled)
      (hok : (emit .flow Overrides.none (moodOf values)).toOption.isSome)
      (hseen : (modules (moodOf values).context (moodOf values).document).toOption.map (fun ms =>
        ((moodOf values).context.shared true ms).enums.map EnumShape.name) = some ["Mood"]) :
      ReadsMood values (if values.filter (·.deprecation.isNone) = [] then none
        else some ("Mood", (values.filter (·.deprecation.isNone)).map EnumValue.name)) := by
    obtain ⟨files, hfiles⟩ := Outcome.exists_of_isSome hok
    obtain ⟨ms, hms, hdeclared⟩ := enums_declared hs hfiles
    rw [hms, Except.toOption, Option.map_some] at hseen
    refine ⟨ms, hms, Option.some.inj hseen, fun shape hshape => ?_⟩
    obtain ⟨t, ht, -, -, hread⟩ := hdeclared shape hshape
    have hname : shape.name ∈ ["Mood"] := Option.some.inj hseen ▸ List.mem_map_of_mem hshape
    rw [List.mem_singleton.1 hname] at ht
    obtain rfl := Option.some.inj ht
    rw [hread]
    simp [moodOf, NamedType.values]
  exact ⟨hreads (by decide) (by decide +kernel) (by decide +kernel),
    hreads (by decide) (by decide +kernel) (by decide +kernel)⟩

end Types
end QueryTypes
