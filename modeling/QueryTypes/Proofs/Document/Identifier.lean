import QueryTypes.Document.Reach
import QueryTypes.Document.Typename
import QueryTypes.Proofs.Text.Fields
import QueryTypes.Token.Lexer

/-!
# Identifiers

Words that can name an operation or a fragment. The whole text of a named operation begins with its
kind and its name, and what follows cannot belong to the name, so that operations with different
names have different texts.
-/

namespace QueryTypes

def IsIdentifier (s : String) : Prop :=
  s.toList.head?.any Token.isNameStart = true ∧ ∀ c ∈ s.toList, Token.isNameChar c = true

-- goes through the characters of the text, and not through all characters there are
instance (s : String) : Decidable (IsIdentifier s) :=
  decidable_of_iff (s.toList.head?.any Token.isNameStart = true ∧
    s.toList.all Token.isNameChar = true) (by rw [IsIdentifier, List.all_eq_true])

variable {s t : String} {n n' : Name} {o o' : Operation} {table table' : Table Fragment}

namespace IsIdentifier

theorem not_mem (h : IsIdentifier s) {c : Char} (hc : Token.isNameChar c = false) :
    c ∉ s.toList := by
  intro hmem
  rw [h.2 c hmem] at hc
  exact Bool.noConfusion hc

theorem ne_empty (h : IsIdentifier s) : s ≠ "" := by
  rintro rfl
  exact absurd h.1 (by decide)

theorem exists_cons (h : IsIdentifier s) : ∃ c r, s.toList = c :: r ∧ Token.isNameStart c = true := by
  have hhead := h.1
  cases hs : s.toList with
  | nil => exact absurd hhead (by simp [hs])
  | cons c r =>
    rw [hs] at hhead
    exact ⟨c, r, rfl, hhead⟩

theorem takeWhile_append (h : IsIdentifier s) {c : Char} (hc : Token.isNameChar c = false)
    (rest : List Char) : (s.toList ++ c :: rest).takeWhile Token.isNameChar = s.toList := by
  rw [List.takeWhile_append_of_pos h.2, List.takeWhile_cons_of_neg (by simp [hc]), List.append_nil]

/-- An identifier ends where the first other character stands. -/
theorem eq_of_append (hs : IsIdentifier s) (ht : IsIdentifier t) {c d : Char}
    (hc : Token.isNameChar c = false) (hd : Token.isNameChar d = false) {r u : List Char}
    (h : s.toList ++ c :: r = t.toList ++ d :: u) : s = t := by
  have htake := congrArg (List.takeWhile Token.isNameChar) h
  rw [hs.takeWhile_append hc, ht.takeWhile_append hd] at htake
  exact String.toList_injective htake

end IsIdentifier

namespace Printer

/-- A text that is set apart: it ends whatever name stands in front. -/
def SetApart (s : String) : Prop :=
  ∃ c r, s.toList = c :: r ∧ Token.isNameChar c = false

theorem setApart_wrap_append (s after : String) (h : SetApart t) :
    SetApart (wrap "(" s after ++ t) := by
  rw [wrap]
  split
  · rwa [String.empty_append]
  · exact ⟨'(', s.toList ++ (after.toList ++ t.toList), by simp, by decide⟩

theorem exists_joinWith_cons (sep x : String) (xs : List String) :
    ∃ rest, Text.joinWith sep (x :: xs) = x ++ rest := by
  cases xs with
  | nil => exact ⟨"", by simp [Text.joinWith]⟩
  | cons y ys =>
    refine ⟨sep ++ Text.joinWith sep (y :: ys), ?_⟩
    rw [Text.joinWith, String.intercalate_cons_cons, String.append_assoc]
    rfl

theorem exists_join_append (hs : s ≠ "") (ht : t ≠ "") (dirs : String) :
    ∃ rest, join " " [s, t, dirs] ++ " " = s ++ " " ++ t ++ (" " ++ rest) := by
  by_cases hdirs : dirs = ""
  · exact ⟨"", by simp [join, Text.joinWith, hs, ht, hdirs, String.append_assoc]⟩
  · exact ⟨dirs ++ " ", by simp [join, Text.joinWith, hs, ht, hdirs, String.append_assoc]⟩

/-- The text of a named operation begins with its kind and its name. -/
theorem exists_operation (hname : o.name = some n) (hn : n.text ≠ "") :
    ∃ rest, SetApart rest ∧ operation o = o.kind.text ++ " " ++ n.text ++ rest := by
  have hkind : 5 ≤ o.kind.text.length := by cases o.kind <;> decide
  have hkindNe : o.kind.text ≠ "" := by cases o.kind <;> decide
  generalize hv : wrap "(" (join ", " (o.variableDefs.map variableDefinition)) ")" = vars
  have hfull : n.text ++ vars ≠ "" := by simp [hn]
  obtain ⟨rest, hrest⟩ := exists_join_append hkindNe hfull (directives o.directives)
  -- a query is printed as its block alone only without a name
  have hne : join " " [o.kind.text, n.text ++ vars, directives o.directives] ≠ "query" := by
    intro heq
    have hlength := congrArg String.length (heq ▸ hrest)
    simp only [String.length_append] at hlength
    have hquery : "query".length + " ".length = 6 := by decide
    have hspace : " ".length = 1 := by decide
    omega
  refine ⟨vars ++ (" " ++ (rest ++ block (selections o.selections))), ?_, ?_⟩
  · rw [← hv]
    exact setApart_wrap_append _ _ ⟨' ', _, by rw [String.toList_append]; rfl, by decide⟩
  · rw [operation, hname, Option.map_some, Option.getD_some, hv, if_neg hne, hrest]
    simp only [String.append_assoc]

end Printer

/-- Operations with different names differ in their whole texts. -/
theorem Operation.eq_of_fullText (hn : o.name = some n) (hn' : o'.name = some n')
    (hid : IsIdentifier n.text) (hid' : IsIdentifier n'.text)
    (h : o.fullText table = o'.fullText table') : n.text = n'.text := by
  obtain ⟨rest, ⟨c, r, hr, hc⟩, hprint⟩ := Printer.exists_operation hn hid.ne_empty
  obtain ⟨rest', ⟨c', r', hr', hc'⟩, hprint'⟩ := Printer.exists_operation hn' hid'.ne_empty
  obtain ⟨below, hbelow⟩ := Printer.exists_joinWith_cons "\n" (Printer.operation o)
    ((o.uses table).filterMap fun n => (table.get? n).map Printer.fragment)
  obtain ⟨below', hbelow'⟩ := Printer.exists_joinWith_cons "\n" (Printer.operation o')
    ((o'.uses table').filterMap fun n => (table'.get? n).map Printer.fragment)
  rw [fullText, fullText, withFragments, withFragments, hbelow, hbelow', hprint, hprint'] at h
  have hlist : o.kind.text.toList ++ ' ' :: (n.text.toList ++ c :: (r ++ below.toList)) =
      o'.kind.text.toList ++ ' ' :: (n'.text.toList ++ c' :: (r' ++ below'.toList)) := by
    simpa [hr, hr'] using congrArg String.toList h
  have hspace (k : OperationKind) : ' ' ∉ k.text.toList := by cases k <;> decide
  have hafter := (Text.append_sep_inj (hspace o.kind) (hspace o'.kind) hlist).2
  exact hid.eq_of_append hid' hc hc' hafter

/-! ### Names in a document -/

namespace Document

def operationNames (d : Document) : List (Option String) :=
  d.operations.map fun o => o.name.map Name.text

def fragmentNames (d : Document) : List String := d.fragments.map fun f => f.name.text

/-- Operations have names, which are identifiers as all names that are read, and neither two
operations nor two fragments have the same. -/
structure WellNamed (d : Document) : Prop where
  named : ∀ o ∈ d.operations, ∃ n, o.name = some n ∧ IsIdentifier n.text
  operations : d.operationNames.Nodup
  fragments : d.fragmentNames.Nodup

theorem operationNames_addTypename (d : Document) :
    d.addTypename.operationNames = d.operationNames := by
  rw [operationNames, addTypename, List.map_map]
  rfl

theorem fragmentNames_addTypename (d : Document) :
    d.addTypename.fragmentNames = d.fragmentNames := by
  rw [fragmentNames, addTypename, List.map_map]
  rfl

theorem WellNamed.addTypename {d : Document} (h : d.WellNamed) : d.addTypename.WellNamed where
  named o ho := by
    obtain ⟨o', ho', rfl⟩ := List.mem_map.1 ho
    exact h.named o' ho'
  operations := by
    rw [operationNames_addTypename]
    exact h.operations
  fragments := by
    rw [fragmentNames_addTypename]
    exact h.fragments

end Document

end QueryTypes
