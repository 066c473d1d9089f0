import QueryTypes.Proofs.Document.Identifier
import QueryTypes.Proofs.Shape.Rendered
import QueryTypes.Proofs.Text.Comment

/-!
# The grammar of enum declarations

What the generated languages read in the declaration of an enum: words, string literals and signs,
with blanks and block comments between them. One language has braces around members that are each
ended by a comma, the other one alternatives of which the last one is ended by a semicolon; there it
has to have an alternative. A text that is scanned on its own is scanned the same wherever it stands.
-/

namespace QueryTypes

inductive DeclToken
  | word (s : String)
  | literal (s : String)
  | sign (c : Char)
deriving DecidableEq, Repr

namespace DeclToken

/-- What was read so far, backwards, of what the scanner stands in. -/
inductive Mode
  | between (read : List Char)
  | quoted (read : List Char)
  | slash
  | comment (star : Bool)

def isSign (c : Char) : Bool := ['\x7b', '\x7d', '=', ',', '|', ';'].contains c

def afterWord (read : List Char) (ts : List DeclToken) : List DeclToken :=
  if read = [] then ts else .word (String.ofList read.reverse) :: ts

/-- The tokens of a text, if it has no other parts than these and none is left open. A comment ends
at the first end of a comment; a literal holds no line ends and nothing that is escaped. -/
def scan : Mode → List Char → Option (List DeclToken)
  | .between read, [] => some (afterWord read [])
  | .between read, c :: r =>
    if TypeToken.isNameChar c then scan (.between (c :: read)) r
    else afterWord read <$>
      if Text.isBlank c then scan (.between []) r
      else if c = '"' then scan (.quoted []) r
      else if c = '/' then scan .slash r
      else if isSign c then (.sign c :: ·) <$> scan (.between []) r
      else none
  | .quoted _, [] => none
  | .quoted read, c :: r =>
    if c = '"' then (.literal (String.ofList read.reverse) :: ·) <$> scan (.between []) r
    else if c = '\\' ∨ Text.isLineEnd c = true then none
    else scan (.quoted (c :: read)) r
  | .slash, [] => none
  | .slash, c :: r => if c = '*' then scan (.comment false) r else none
  | .comment _, [] => none
  | .comment star, c :: r =>
    if star = true ∧ c = '/' then scan (.between []) r else scan (.comment (c == '*')) r

def readMembers : List DeclToken → Option (List String)
  | [.sign '\x7d'] => some []
  | .word n :: .sign '=' :: .literal t :: .sign ',' :: r =>
    if t = n then (n :: ·) <$> readMembers r else none
  | _ => none

def readAlternatives : List DeclToken → Option (List String)
  | .sign '|' :: .literal n :: r =>
    if r = [.sign ';'] then some [n] else (n :: ·) <$> readAlternatives r
  | _ => none

/-- The name and the values that a declaration has. -/
def readEnum : Language → List DeclToken → Option (String × List String)
  | .typescript, .word "export" :: .word "enum" :: .word n :: .sign '\x7b' :: r =>
    (n, ·) <$> readMembers r
  | .flow, .word "export" :: .word "type" :: .word n :: .sign '=' :: r =>
    (n, ·) <$> readAlternatives r
  | _, _ => none

end DeclToken

/-- The enum that a text declares, if it is the declaration of one and nothing else. -/
def Language.enum? (l : Language) (s : String) : Option (String × List String) :=
  (DeclToken.scan (.between []) s.toList).bind (DeclToken.readEnum l)

/-! ### Names -/

theorem Token.toNat_of_isNameChar {c : Char} (h : isNameChar c = true) :
    48 ≤ c.toNat ∧ c.toNat ≤ 122 := by
  delta isNameChar Char.isAlphanum Char.isAlpha Char.isUpper Char.isLower Char.isDigit at h
  simp only [Bool.or_eq_true, Bool.and_eq_true, decide_eq_true_eq, beq_iff_eq, ge_iff_le,
    UInt32.le_iff_toNat_le] at h
  have hval : c.val.toNat = c.toNat := rfl
  rw [hval] at h
  rcases h with ((⟨h, h'⟩ | ⟨h, h'⟩) | ⟨h, h'⟩) | rfl
  · exact ⟨le_trans (by decide) h, le_trans h' (by decide)⟩
  · exact ⟨le_trans (by decide) h, le_trans h' (by decide)⟩
  · exact ⟨le_trans (by decide) h, le_trans h' (by decide)⟩
  · decide

theorem IsIdentifier.isTypeName {s : String} (h : IsIdentifier s) : IsTypeName s := by
  refine ⟨h.ne_empty, fun c hc => ?_⟩
  have hname := h.2 c hc
  have hascii : c.toNat < 128 := by
    have := Token.toNat_of_isNameChar hname
    omega
  rw [TypeToken.isNameChar, if_pos hascii]
  rw [Token.isNameChar] at hname
  rw [hname, Bool.true_or]

theorem IsIdentifier.literal {s : String} (h : IsIdentifier s) :
    ∀ c ∈ s.toList, c ≠ '"' ∧ c ≠ '\\' ∧ Text.isLineEnd c = false := by
  intro c hc
  refine ⟨?_, ?_, ?_⟩
  · rintro rfl
    exact h.not_mem (by decide) hc
  · rintro rfl
    exact h.not_mem (by decide) hc
  · have := Token.toNat_of_isNameChar (h.2 c hc)
    simp only [Text.isLineEnd, List.contains_eq_mem, List.mem_cons, List.not_mem_nil, or_false,
      decide_eq_false_iff_not]
    omega

/-! ### Scanning -/

namespace DeclToken

open TypeToken (Apart isNameChar)

variable {s u : List Char} {c : Char}

theorem scan_wordChars (hs : ∀ c ∈ s, isNameChar c = true) (read : List Char) :
    scan (.between read) (s ++ u) = scan (.between (s.reverse ++ read)) u := by
  induction s generalizing read with
  | nil => rfl
  | cons c s ih =>
    rw [List.cons_append, scan, if_pos (hs c List.mem_cons_self),
      ih fun d hd => hs d (List.mem_cons_of_mem _ hd), List.reverse_cons, List.append_assoc]
    rfl

theorem scan_apart (hu : Apart u) (read : List Char) :
    scan (.between read) u = afterWord read <$> scan (.between []) u := by
  have hnil : afterWord [] = id := rfl
  cases u with
  | nil => rfl
  | cons c r =>
    have hc : isNameChar c = false := hu c rfl
    simp only [scan, hc, Bool.false_eq_true, if_false, hnil, id_map]

theorem scan_word {w : String} (hw : IsTypeName w) (hu : Apart u) :
    scan (.between []) (w.toList ++ u) = (.word w :: ·) <$> scan (.between []) u := by
  have hne : w.toList.reverse ≠ [] := by simpa using hw.1
  have hword : afterWord w.toList.reverse = (.word w :: ·) := by
    funext ts
    rw [afterWord, if_neg hne, List.reverse_reverse, String.ofList_toList]
  rw [scan_wordChars hw.2, List.append_nil, scan_apart hu, hword]

theorem scan_other (hc : isNameChar c = false) (u : List Char) : scan (.between []) (c :: u) =
    if Text.isBlank c then scan (.between []) u
    else if c = '"' then scan (.quoted []) u
    else if c = '/' then scan .slash u
    else if isSign c then (.sign c :: ·) <$> scan (.between []) u
    else none := by
  have hnil : afterWord [] = id := rfl
  rw [scan, if_neg (by simp [hc]), hnil, id_map]

theorem scan_space (u : List Char) : scan (.between []) (' ' :: u) = scan (.between []) u :=
  scan_other (by decide) u

theorem scan_spaces (hs : ∀ c ∈ s, c = ' ') (u : List Char) :
    scan (.between []) (s ++ u) = scan (.between []) u := by
  induction s with
  | nil => rfl
  | cons c s ih =>
    obtain ⟨rfl, hrest⟩ := List.forall_mem_cons.1 hs
    rw [List.cons_append, scan_space, ih hrest]

theorem scan_lineEnd (u : List Char) : scan (.between []) ('\n' :: u) = scan (.between []) u :=
  scan_other (by decide) u

theorem scan_sign (hc : isSign c = true) (u : List Char) :
    scan (.between []) (c :: u) = (.sign c :: ·) <$> scan (.between []) u := by
  simp only [isSign, List.contains_eq_mem, List.mem_cons, List.not_mem_nil, or_false,
    decide_eq_true_eq] at hc
  rcases hc with rfl | rfl | rfl | rfl | rfl | rfl <;> exact scan_other (by decide) u

theorem scan_quoted (hs : ∀ c ∈ s, c ≠ '"' ∧ c ≠ '\\' ∧ Text.isLineEnd c = false)
    (read : List Char) : scan (.quoted read) (s ++ '"' :: u) =
      (.literal (String.ofList (read.reverse ++ s)) :: ·) <$> scan (.between []) u := by
  induction s generalizing read with
  | nil => simp [scan]
  | cons c s ih =>
    obtain ⟨⟨hquote, hescape, hend⟩, hs⟩ := List.forall_mem_cons.1 hs
    rw [List.cons_append, scan, if_neg hquote, if_neg (by simp [hescape, hend]), ih hs]
    simp

theorem scan_literal {w : String} (hw : ∀ c ∈ w.toList, c ≠ '"' ∧ c ≠ '\\' ∧ Text.isLineEnd c = false)
    (u : List Char) : scan (.between []) ('"' :: (w.toList ++ '"' :: u)) =
      (.literal w :: ·) <$> scan (.between []) u := by
  have hopen : scan (.between []) ('"' :: (w.toList ++ '"' :: u)) =
      scan (.quoted []) (w.toList ++ '"' :: u) := scan_other (by decide) _
  rw [hopen, scan_quoted hw, List.reverse_nil, List.nil_append, String.ofList_toList]

/-- A comment goes on to the end that was put there. -/
theorem scan_inComment {star : Bool} (hs : (if star then '*' :: s else s).IsChain Text.Apart) :
    scan (.comment star) (s ++ '*' :: '/' :: u) = scan (.between []) u := by
  induction s generalizing star with
  | nil => cases star <;> rfl
  | cons c s ih =>
    have hgo : ¬ (star = true ∧ c = '/') := by
      rintro ⟨rfl, rfl⟩
      exact (List.isChain_cons_cons.1 hs).1 ⟨rfl, rfl⟩
    have hrest : (c :: s).IsChain Text.Apart := by
      cases star with
      | false => exact hs
      | true => exact hs.tail
    rw [List.cons_append, scan, if_neg hgo]
    by_cases hc : c = '*'
    · subst hc
      exact ih hrest
    · rw [beq_false_of_ne hc]
      exact ih hrest.tail

theorem scan_comment (hs : s.IsChain Text.Apart) (u : List Char) :
    scan (.between []) ('/' :: '*' :: (s ++ '*' :: '/' :: u)) = scan (.between []) u :=
  (scan_other (by decide) _).trans (scan_inComment hs)

end DeclToken
end QueryTypes
