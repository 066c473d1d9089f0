import Mathlib.Algebra.Group.Nat.Defs
import QueryTypes.Proofs.Outcome
import QueryTypes.Yaml.Token

/-!
# How scanning fails

The scanner moves forward in its text. Only an escape in a quoted scalar can name something that
does not exist. Main statement: scanning fails against the grammar, or the text has an escape whose
code is beyond the last character.
-/

namespace QueryTypes

theorem Text.hexValue?_lt {c : Char} {v : Nat} (h : hexValue? c = some v) : v < 16 := by
  rw [hexValue?] at h
  split at h
  · next hc =>
    have hle : c.toNat ≤ 57 := hc.2
    have hv := Option.some.inj h
    omega
  · split at h
    · next hc =>
      have hle : c.toNat ≤ 102 := hc.2
      have hv := Option.some.inj h
      omega
    · split at h
      · next hc =>
        have hle : c.toNat ≤ 70 := hc.2
        have hv := Option.some.inj h
        omega
      · cases h

namespace Yaml

open Outcome (Ends Keeps)

namespace Cursor

/-- What is left at a place is an end of the text. -/
def In (c : Cursor) (text : List Char) : Prop := c.rest <:+ text

variable {text : List Char} {c d : Cursor}

theorem step_rest (c : Cursor) : c.step.rest = c.rest.tail := by
  rw [step]
  split
  · next hrest => rw [hrest, List.tail_nil]
  · next hrest =>
    rw [hrest, List.tail_cons]
    split <;> rfl

theorem In.step (h : c.In text) : c.step.In text := by
  rw [In, step_rest]
  exact (List.tail_suffix _).trans h

theorem In.skip (h : c.In text) (n : Nat) : (c.skip n).In text := by
  induction n generalizing c with
  | zero => exact h
  | succ n ih => exact ih h.step

theorem In.takeWhile (h : c.In text) (p : Char → Bool) : (c.takeWhile p).2.In text := h.skip _

theorem In.dropWhile (h : c.In text) (p : Char → Bool) : (c.dropWhile p).In text := h.skip _

theorem In.pastComment (h : c.In text) : c.pastComment.In text := by
  rw [Cursor.pastComment]
  split
  · exact (h.dropWhile _).dropWhile _
  · exact h.dropWhile _

theorem In.lineBreak {b : Char} (h : c.In text) (hb : c.lineBreak? = some (b, d)) : d.In text := by
  rw [lineBreak?] at hb
  split at hb
  · exact (Prod.mk.inj (Option.some.inj hb)).2 ▸ h.skip 2
  · split at hb
    · exact (Prod.mk.inj (Option.some.inj hb)).2 ▸ h.step
    · split at hb
      · exact (Prod.mk.inj (Option.some.inj hb)).2 ▸ h.step
      · cases hb
  · cases hb

end Cursor

/-- The number that hexadecimal digits write. -/
def hexNumber? (digits : List Char) : Option Nat :=
  (digits.mapM Text.hexValue?).map fun vs => vs.foldl (fun n v => n * 16 + v) 0

/-- A text has an escape of eight hexadecimal digits that are beyond the last character, and what is
said of it. -/
def FarEscape (text : List Char) (f : Fault) : Prop :=
  ∃ digits rest code, '\\' :: 'U' :: (digits ++ rest) <:+ text ∧ digits.length = 8 ∧
    hexNumber? digits = some code ∧ 0x10FFFF < code ∧ f = beyondLast code

/-- How reading a text fails: against the grammar, or on an escape that is too far. -/
def Misread (text : List Char) (e : ReadError) : Prop :=
  e = .malformed ∨ ∃ f, e = .breakdown f ∧ FarEscape text f

variable {α : Type} {text : List Char} {c : Cursor}

theorem misread_malformed : Misread text .malformed := .inl rfl

section Codes

theorem foldl_lt_pow {vs : List Nat} (h : ∀ v ∈ vs, v < 16) (n : Nat) :
    vs.foldl (fun n v => n * 16 + v) n < (n + 1) * 16 ^ vs.length := by
  induction vs generalizing n with
  | nil => simp
  | cons v vs ih =>
    have hv := h v List.mem_cons_self
    have hrest := ih (fun w hw => h w (List.mem_cons_of_mem _ hw)) (n * 16 + v)
    have hstep : (n * 16 + v + 1) * 16 ^ vs.length ≤ (n + 1) * 16 * 16 ^ vs.length :=
      Nat.mul_le_mul_right _ (by omega)
    rw [List.foldl_cons, List.length_cons, Nat.pow_succ']
    calc vs.foldl (fun n v => n * 16 + v) (n * 16 + v)
        < (n * 16 + v + 1) * 16 ^ vs.length := hrest
      _ ≤ (n + 1) * 16 * 16 ^ vs.length := hstep
      _ = (n + 1) * (16 * 16 ^ vs.length) := Nat.mul_assoc _ _ _

theorem hexNumber?_lt {digits : List Char} {code : Nat} (h : hexNumber? digits = some code) :
    code < 16 ^ digits.length := by
  obtain ⟨vs, hvs, rfl⟩ := Option.map_eq_some_iff.1 h
  have hsmall : ∀ v ∈ vs, v < 16 := fun v hv =>
    let ⟨_, _, hd⟩ := Outcome.exists_of_mapM_eq_some hvs v hv
    Text.hexValue?_lt hd
  have hlt := foldl_lt_pow hsmall 0
  rwa [Outcome.length_of_mapM_eq_some hvs, Nat.zero_add, Nat.one_mul] at hlt

theorem hexNumber?_of_codeChar {digits : List Char} {f : Fault}
    (h : codeChar digits = .error (.breakdown f)) :
    ∃ code, hexNumber? digits = some code ∧ 0x10FFFF < code ∧ f = beyondLast code := by
  rcases Outcome.bind_eq_error_iff.1 h with h | ⟨vs, hvs, h⟩
  · obtain ⟨_, d, _, -, -, hd⟩ := Outcome.mapM_eq_error_iff.1 h
    cases hv : Text.hexValue? d with
    | none => simp [hv] at hd
    | some v => simp [hv] at hd
  · dsimp only at h
    split at h
    · next hfar =>
      refine ⟨_, ?_, hfar, (ReadError.breakdown.inj (Except.error.inj h)).symm⟩
      rw [hexNumber?, Outcome.mapM_elim_eq_ok hvs, Option.map_some]
    · cases h

/-- A code that is too far has eight digits. -/
theorem farEscape_of_codeChar {x : Char} {width : Nat} {digits rest : List Char} {f : Fault}
    (hx : codeEscapes.lookup x = some width) (hwidth : digits.length = width)
    (htext : '\\' :: x :: (digits ++ rest) <:+ text) (h : codeChar digits = .error (.breakdown f)) :
    FarEscape text f := by
  obtain ⟨code, hcode, hfar, rfl⟩ := hexNumber?_of_codeChar h
  have hlt := hexNumber?_lt hcode
  obtain ⟨before, after, hsplit, -⟩ := List.lookup_eq_some_iff.1 hx
  have hmem : (x, width) ∈ codeEscapes := by simp [hsplit]
  have hcases : x = 'x' ∧ width = 2 ∨ x = 'u' ∧ width = 4 ∨ x = 'U' ∧ width = 8 := by
    simpa [codeEscapes] using hmem
  rcases hcases with ⟨-, rfl⟩ | ⟨-, rfl⟩ | ⟨rfl, rfl⟩
  · rw [hwidth] at hlt
    omega
  · rw [hwidth] at hlt
    omega
  · exact ⟨digits, rest, code, htext, hwidth, hcode, hfar, rfl⟩

end Codes

/-- Reading comes to a later place of the text, or fails as it should. -/
abbrev Reads (text : List Char) (x : Except ReadError (α × Cursor)) : Prop :=
  Ends (Misread text) (fun r => r.2.In text) x

theorem reads_malformed : Reads text (.error .malformed : Except ReadError (α × Cursor)) :=
  .error misread_malformed

section Quoted

theorem reads_breaks (blank : Char → Bool) (refuseMarks : Bool) (n : Nat) (h : c.In text) :
    Reads text (breaks blank refuseMarks n c) := by
  induction n generalizing c with
  | zero => exact .ok h
  | succ n ih =>
    rw [breaks]
    refine .ite (fun _ => reads_malformed) fun _ => ?_
    dsimp only
    split
    · exact .ok (h.dropWhile _)
    · next hbreak => exact .bind (ih ((h.dropWhile _).lineBreak hbreak)) fun _ hr => .ok hr

/-- An escape by number: what stands for it, or it is too far. -/
theorem ends_codeChar {r : List Char} {width : Nat} (h : c.In text) (hc : c.rest = '\\' :: r)
    (hwidth : codeEscapes.lookup (c.step.peek 0) = some width)
    (hlong : ¬(c.step.step.rest.take width).length < width) :
    Ends (Misread text) (fun _ => True) (codeChar (c.step.step.rest.take width)) := by
  have hr : c.step.rest = r := by rw [Cursor.step_rest, hc, List.tail_cons]
  rw [Cursor.peek, hr] at hwidth
  rw [Cursor.step_rest, hr] at hlong ⊢
  cases r with
  | nil => cases hwidth
  | cons x r =>
    rw [List.tail_cons] at hlong ⊢
    have htext : '\\' :: x :: (r.take width ++ r.drop width) <:+ text := by
      rw [List.take_append_drop, ← hc]
      exact h
    refine ⟨fun e he => ?_, fun _ _ => trivial⟩
    cases e with
    | malformed => exact misread_malformed
    | breakdown f =>
      have hlength : (r.take width).length = width :=
        Nat.le_antisymm (List.length_take_le _ _) (Nat.not_lt.1 hlong)
      exact .inr ⟨f, rfl, farEscape_of_codeChar hwidth hlength htext he⟩

theorem reads_quotedBody (double : Bool) (n : Nat) (h : c.In text) :
    Reads text (quotedBody double n c) := by
  induction n generalizing c with
  | zero => exact reads_malformed
  | succ n ih =>
    have hmore (cs : List Char) {c : Cursor} (h : c.In text) : Reads text (do
        let r ← quotedBody double n c
        return (cs ++ r.1, r.2)) :=
      .bind (ih h) fun _ hr => .ok hr
    rw [quotedBody]
    split
    · exact reads_malformed
    · next x r hrest =>
      dsimp only
      refine .ite (fun _ => .ite (fun _ => hmore _ (h.skip 2)) fun _ => .ok h.step) fun _ => ?_
      refine .ite (fun _ => .ok h.step) fun _ => .ite (fun hslash => ?_) fun _ => ?_
      · split
        · exact .ite (fun _ => reads_malformed) fun _ => hmore _ h.step.step
        · next width _ hwidth =>
          refine .ite (fun _ => reads_malformed) fun hlong => ?_
          have hx : x = '\\' := by
            rw [Bool.and_eq_true, beq_iff_eq] at hslash
            exact hslash.1
          exact .bind (ends_codeChar h (hx ▸ hrest) hwidth hlong) fun _ _ => hmore _ (h.step.step.skip _)
        · split
          · exact reads_malformed
          · next hbreak =>
            exact .bind (reads_breaks _ _ _ (h.step.lineBreak hbreak)) fun _ hr => hmore _ hr
      · refine .ite (fun _ => ?_) fun _ => hmore _ h.step
        split
        · next hbreak =>
          exact .bind (reads_breaks _ _ _ ((h.takeWhile _).lineBreak hbreak)) fun _ hr => hmore _ hr
        · exact .ite (fun _ => reads_malformed) fun _ => hmore _ (h.takeWhile _)

theorem reads_quoted (h : c.In text) : Reads text (quoted c) := reads_quotedBody _ _ h.step

end Quoted

section Blocks

theorem in_plainBreaks (n : Nat) (h : c.In text) : (plainBreaks n c).2.In text := by
  induction n generalizing c with
  | zero => exact h
  | succ n ih =>
    rw [plainBreaks]
    split
    · exact h.dropWhile _
    · next hbreak =>
      have hc := (h.dropWhile _).lineBreak hbreak
      split
      · exact hc
      · have hrest := ih hc
        split
        · next heq =>
          rw [heq] at hrest
          exact hrest
        · next heq =>
          rw [heq] at hrest
          exact hrest

theorem in_plainGap (h : c.In text) : (plainGap c).2.2.In text := by
  rw [plainGap]
  dsimp only
  split
  · exact h.takeWhile _
  · next d hbreak =>
    have hd := (h.takeWhile _).lineBreak hbreak
    split
    · exact hd
    · have hrest := in_plainBreaks (d.rest.length + 1) hd
      split
      · next heq =>
        rw [heq] at hrest
        exact hrest
      · next heq =>
        rw [heq] at hrest
        exact hrest

theorem in_plain (inFlow : Bool) (indent n : Nat) (gap : List Char) (ended : Bool)
    (h : c.In text) : (plain inFlow indent n gap ended c).2.2.In text := by
  induction n generalizing gap ended c with
  | zero => exact h
  | succ n ih =>
    rw [plain]
    split
    · exact h
    · dsimp only
      split
      · exact h
      · split
        · exact in_plainGap (h.skip _)
        · exact ih _ _ (in_plainGap (h.skip _))

theorem in_blockLead (n width : Nat) (h : c.In text) : (blockLead n width c).2.2.In text := by
  induction n generalizing width c with
  | zero => exact h
  | succ n ih =>
    rw [blockLead]
    dsimp only
    split
    · exact ih _ h.step
    · split
      · next hbreak => exact ih _ (h.lineBreak hbreak)
      · exact h

theorem in_skipIndent (indent n : Nat) (h : c.In text) : (skipIndent indent n c).In text := by
  induction n generalizing c with
  | zero => exact h
  | succ n ih =>
    rw [skipIndent]
    split
    · exact ih h.step
    · exact h

theorem in_blockBreaks (indent n : Nat) (h : c.In text) : (blockBreaks indent n c).2.In text := by
  induction n generalizing c with
  | zero => exact h
  | succ n ih =>
    rw [blockBreaks]
    split
    · next hbreak => exact ih ((in_skipIndent _ _ h).lineBreak hbreak)
    · exact in_skipIndent _ _ h

theorem in_blockLines (fold : Bool) (indent n : Nat) (lead : List Char) (h : c.In text) :
    (blockLines fold indent n lead c).2.2.2.In text := by
  induction n generalizing lead c with
  | zero => exact h
  | succ n ih =>
    rw [blockLines]
    split
    · exact h
    · dsimp only
      split
      · next d hbreak =>
        have hc := in_blockBreaks indent (d.rest.length + 1) ((h.takeWhile _).lineBreak hbreak)
        split
        · exact ih _ hc
        · exact hc
      · have hc := in_blockBreaks indent ((c.takeWhile fun x => !Cursor.isEnd x).2.rest.length + 1)
          (h.takeWhile fun x => !Cursor.isEnd x)
        split
        · exact ih _ hc
        · exact hc

theorem in_blockMarks (h : c.In text) : (blockMarks c).2.In text := by
  rw [blockMarks]
  split
  · split
    · exact h.skip 2
    · exact h.step
  · split
    · exact h.skip 2
    · exact h.step
  · exact h

theorem reads_blockSigns (h : c.In text) : Reads text (blockSigns c) := by
  have hc := (in_blockMarks h).pastComment
  rw [blockSigns]
  generalize blockMarks c = r at hc ⊢
  obtain ⟨marks, d⟩ := r
  refine .ite (fun _ => reads_malformed) fun _ => ?_
  dsimp only at hc ⊢
  split
  · next hbreak => exact .ok (hc.lineBreak hbreak)
  · exact .ite (fun _ => .ok hc) fun _ => reads_malformed

theorem reads_block (fold : Bool) (outer : Nat) (h : c.In text) :
    Reads text (block fold outer c) := by
  refine .bind (reads_blockSigns h) fun r hr => ?_
  obtain ⟨⟨chomp, _ | d⟩, c⟩ := r
  · dsimp only
    exact .ok (in_blockLines _ _ _ _ (in_blockLead _ _ hr))
  · dsimp only
    exact .ok (in_blockLines _ _ _ _ (in_blockBreaks _ _ hr))

end Blocks

namespace Token

/-- The scanner stays in its text, and fails as it should. -/
abbrev Scans (text : List Char) (x : Scanning α) : Prop :=
  Keeps (fun s => s.cursor.In text) (Misread text) (fun _ => True) x

/-- The same for a part of the scanner that gives a place behind what it read. -/
abbrev ScansOn (text : List Char) (x : Scanning (α × Cursor)) : Prop :=
  Keeps (fun s => s.cursor.In text) (Misread text) (fun r => r.2.In text) x

theorem scans_malformed : Scans text (malformed : Scanning α) := .throw misread_malformed

/-- A change that leaves the place as it is. -/
theorem scans_modify {f : Scan → Scan} (hf : ∀ s, (f s).cursor = s.cursor) :
    Scans text (modify f) :=
  .modify fun s h => by rwa [hf s]

theorem scans_emit (t : Token) : Scans text (emit t) := scans_modify fun _ => rfl

theorem scans_insertAt (i : Nat) (t : Token) : Scans text (insertAt i t) := scans_modify fun _ => rfl

theorem scans_allowKey (b : Bool) : Scans text (allowKey b) := scans_modify fun _ => rfl

theorem scans_setKey (k : Option PossibleKey) : Scans text (setKey k) := scans_modify fun _ => rfl

theorem scans_moveTo (h : c.In text) : Scans text (moveTo c) := .modify fun _ _ => h

theorem keeps_unless {p : Prop} [Decidable p] {post : α → Prop} {x : Scanning α}
    (h : Keeps (fun s => s.cursor.In text) (Misread text) post x) :
    Keeps (fun s => s.cursor.In text) (Misread text) post (if p then do malformed; x else x) :=
  .before scans_malformed h

theorem scans_forgetKey : Scans text forgetKey :=
  .bind .get fun _ _ => keeps_unless (scans_setKey _)

theorem scans_noteKey : Scans text noteKey :=
  .bind .get fun _ _ => .ite (.bind scans_forgetKey fun _ _ => scans_setKey _) (.pure trivial)

theorem scans_dropStaleKeys : Scans text dropStaleKeys :=
  .bind .get fun _ hs => keeps_unless (.set hs)

theorem scans_endBlocks (column : Nat) : Scans text (endBlocks column) :=
  .bind .get fun _ hs => .ite (.pure trivial) (.set hs)

theorem scans_startBlock (column : Nat) : Scans text (startBlock column) :=
  .bind .get fun _ hs => .ite (.bind (.set hs) fun _ _ => .pure trivial) (.pure trivial)

theorem scans_skipToToken (n : Nat) : Scans text (skipToToken n) := by
  induction n with
  | zero => exact .pure trivial
  | succ n ih =>
    refine .bind .get fun s hs => ?_
    have hc : (if s.cursor.index == 0 && s.cursor.peek 0 == '\uFEFF' then s.cursor.step
        else s.cursor).In text := by
      split
      · exact hs.step
      · exact hs
    dsimp only
    split
    · next hbreak =>
      refine .bind (scans_moveTo (hc.pastComment.lineBreak hbreak)) fun _ _ => ?_
      exact .before (scans_allowKey _) ih
    · exact scans_moveTo hc.pastComment

theorem scans_restOfLine (h : c.In text) : Scans text (restOfLine c) := by
  rw [restOfLine]
  split
  · next hbreak => exact scans_moveTo (h.pastComment.lineBreak hbreak)
  · exact .ite (scans_moveTo h.pastComment) scans_malformed

theorem scansOn_malformed : ScansOn text (malformed : Scanning (α × Cursor)) :=
  .throw misread_malformed

theorem scansOn_percentBytes (n : Nat) (h : c.In text) : ScansOn text (percentBytes n c) := by
  induction n generalizing c with
  | zero => exact .pure h
  | succ n ih =>
    refine .ite ?_ (.pure h)
    split
    · exact .bind (ih (h.skip 3)) fun _ hr => .pure hr
    · exact scansOn_malformed

theorem scansOn_uriParts (n : Nat) (h : c.In text) : ScansOn text (uriParts n c) := by
  induction n generalizing c with
  | zero => exact .pure h
  | succ n ih =>
    refine .ite (.bind (scansOn_percentBytes _ h) fun r hr => ?_) (.ite ?_ (.pure h))
    · dsimp only
      split
      · exact scansOn_malformed
      · exact .bind (ih hr) fun _ hr => .pure hr
    · exact .bind (ih h.step) fun _ hr => .pure hr

theorem scansOn_uri (h : c.In text) : ScansOn text (uri c) :=
  .bind (scansOn_uriParts _ h) fun _ hr => keeps_unless (.pure hr)

theorem scansOn_tagHandle (h : c.In text) : ScansOn text (tagHandle c) :=
  keeps_unless (.ite (.pure h.step) (.ite (.pure (h.step.takeWhile _).step) scansOn_malformed))

theorem scansOn_number (h : c.In text) : ScansOn text (number c) :=
  keeps_unless (.pure (h.takeWhile _))

theorem scans_directive (h : c.In text) : Scans text (directive c) := by
  have hname := h.step.takeWhile isNameChar
  refine keeps_unless ?_
  dsimp only
  split
  · refine .bind (scansOn_number (hname.dropWhile _)) fun _ hr => keeps_unless ?_
    refine .bind (scansOn_number hr.step) fun _ hr => keeps_unless ?_
    exact .bind (scans_emit _) fun _ _ => scans_restOfLine hr
  · refine .bind (scansOn_tagHandle (hname.dropWhile _)) fun _ hr => keeps_unless ?_
    refine .bind (scansOn_uri (hr.dropWhile _)) fun _ hr => keeps_unless ?_
    exact .bind (scans_emit _) fun _ _ => scans_restOfLine hr
  · exact .bind (scans_emit _) fun _ _ => scans_restOfLine (hname.dropWhile _)

theorem scans_endDocumentBlocks : Scans text endDocumentBlocks :=
  .bind (scans_endBlocks _) fun _ _ => .bind scans_forgetKey fun _ _ => scans_allowKey _

theorem scans_openBracket (t : Token) : Scans text (openBracket t) :=
  .bind scans_noteKey fun _ _ => .bind (scans_emit _) fun _ _ => .modify fun _ h => h.step

theorem scans_closeBracket (t : Token) : Scans text (closeBracket t) :=
  .bind scans_forgetKey fun _ _ => .bind .get fun _ hs => keeps_unless (.set hs.step)

/-- A block that starts here has a token of its own. -/
theorem scans_started {column : Nat} {x : Scanning Unit} {y : Scanning α} (hx : Scans text x)
    (hy : Scans text y) : Scans text (do
      if ← startBlock column then x
      y) :=
  .bind (scans_startBlock _) fun _ _ => .before hx hy

/-- A sign that is read behind what it entails. -/
theorem scans_sign (allowed : Bool) (t : Token) (h : c.In text) : Scans text (do
    allowKey allowed
    forgetKey
    moveTo c
    emit t) :=
  .bind (scans_allowKey _) fun _ _ => .bind scans_forgetKey fun _ _ =>
    .bind (scans_moveTo h) fun _ _ => scans_emit _

theorem scans_blockEntry : Scans text blockEntry := by
  refine .bind .get fun s hs => ?_
  have hsign := scans_sign true .entry (Cursor.In.step hs)
  exact .ite (keeps_unless (scans_started (scans_emit _) hsign)) hsign

theorem scans_markedKey : Scans text markedKey := by
  refine .bind .get fun s hs => ?_
  have hsign := scans_sign (!s.inFlow) .key (Cursor.In.step hs)
  exact .ite (keeps_unless (scans_started (scans_emit _) hsign)) hsign

theorem scans_keyValue : Scans text keyValue := by
  refine .bind .get fun s hs => ?_
  dsimp only
  split
  · refine .bind (scans_setKey _) fun _ _ => .bind (scans_insertAt _ _) fun _ _ => ?_
    have hallow : Scans text (do
        allowKey false
        moveTo s.cursor.step
        emit .value) :=
      .bind (scans_allowKey _) fun _ _ => .bind (scans_moveTo hs.step) fun _ _ => scans_emit _
    exact .ite (scans_started (scans_insertAt _ _) hallow) hallow
  · have hsign := scans_sign (!s.inFlow) .value (Cursor.In.step hs)
    exact .ite (keeps_unless (scans_started (scans_emit _) hsign)) hsign

theorem scans_anchorName : Scans text anchorName :=
  .bind scans_noteKey fun _ _ => .bind (scans_allowKey _) fun _ _ => .bind .get fun _ hs =>
    keeps_unless (.bind (scans_moveTo (hs.step.takeWhile _)) fun _ _ => .pure trivial)

theorem scans_tagToken : Scans text tagToken := by
  refine .bind scans_noteKey fun _ _ => .bind (scans_allowKey _) fun _ _ => .bind .get fun s hs => ?_
  have hrest (r : Token × Cursor) (hr : r.2.In text) : Scans text (do
      if !(Cursor.isEnd (r.2.peek 0) || r.2.peek 0 == ' ') then malformed
      moveTo r.2
      emit r.1) :=
    keeps_unless (.bind (scans_moveTo hr) fun _ _ => scans_emit _)
  refine .ite (.bind (scansOn_uri (hs.skip 2)) fun _ hr => ?_) ?_
  · exact keeps_unless (.bind (.pure hr.step) hrest)
  refine .ite (.bind (.pure hs.step) hrest) (.ite ?_ ?_)
  · refine .bind (scansOn_tagHandle hs) fun _ hr => .bind (scansOn_uri hr) fun _ hr => ?_
    exact .bind (.pure hr) hrest
  · refine .bind (.pure hs.step) fun _ hr => .bind (scansOn_uri hr) fun _ hr => ?_
    exact .bind (.pure hr) hrest

theorem scans_blockScalar (fold : Bool) : Scans text (blockScalar fold) :=
  .bind (scans_allowKey _) fun _ _ => .bind scans_forgetKey fun _ _ => .bind .get fun _ hs =>
    .bind (.lift (reads_block _ _ hs.step)) fun _ hr => .bind (scans_moveTo hr) fun _ _ =>
      scans_emit _

theorem scans_quotedScalar : Scans text quotedScalar :=
  .bind scans_noteKey fun _ _ => .bind (scans_allowKey _) fun _ _ => .bind .get fun _ hs =>
    .bind (.lift (reads_quoted hs)) fun _ hr => .bind (scans_moveTo hr) fun _ _ => scans_emit _

theorem scans_plainScalar : Scans text plainScalar := by
  refine .bind scans_noteKey fun _ _ => .bind .get fun s hs => ?_
  have hc := in_plain s.inFlow s.indent (s.cursor.rest.length + 1) [] false hs
  exact .bind (scans_allowKey _) fun _ _ => .bind (scans_moveTo hc) fun _ _ => scans_emit _

theorem scans_next : Scans text next := by
  refine .bind .get fun _ _ => .bind (scans_skipToToken _) fun _ _ => ?_
  refine .bind scans_dropStaleKeys fun _ _ => .bind .get fun _ _ => ?_
  refine .bind (scans_endBlocks _) fun _ _ => .bind .get fun s hs => ?_
  have hthen {x : Scanning Unit} (hx : Scans text x) : Scans text (do
      x
      return true) :=
    .bind hx fun _ _ => .pure trivial
  have hmark (t : Token) : Scans text (do
      endDocumentBlocks
      moveTo (s.cursor.skip 3)
      emit t
      return true) :=
    .bind scans_endDocumentBlocks fun _ _ => .bind (scans_moveTo (hs.skip 3)) fun _ _ =>
      hthen (scans_emit _)
  dsimp only
  split
  · exact .bind (scans_endBlocks _) fun _ _ => .bind scans_forgetKey fun _ _ => .pure trivial
  · refine .ite (.bind scans_endDocumentBlocks fun _ _ => hthen (scans_directive hs)) ?_
    refine .ite (hmark _) (.ite (hmark _) ?_)
    refine .ite (hthen (scans_openBracket _)) (.ite (hthen (scans_openBracket _)) ?_)
    refine .ite (hthen (scans_closeBracket _)) (.ite (hthen (scans_closeBracket _)) ?_)
    refine .ite (.bind (scans_allowKey _) fun _ _ => .bind scans_forgetKey fun _ _ => ?_) ?_
    · exact .bind (scans_moveTo hs.step) fun _ _ => hthen (scans_emit _)
    refine .ite (hthen scans_blockEntry) (.ite (hthen scans_markedKey) ?_)
    refine .ite (hthen scans_keyValue) ?_
    refine .ite (.bind scans_anchorName fun _ _ => hthen (scans_emit _)) ?_
    refine .ite (.bind scans_anchorName fun _ _ => hthen (scans_emit _)) ?_
    refine .ite (hthen scans_tagToken) (.ite (hthen (scans_blockScalar _)) ?_)
    exact .ite (hthen scans_quotedScalar) (.ite (hthen scans_plainScalar) (hthen scans_malformed))

theorem misread_of_all {n : Nat} {s : Scan} {e : ReadError} (hs : s.cursor.In text)
    (h : (all n s).2 = some e) : Misread text e := by
  induction n generalizing s with
  | zero => cases h
  | succ n ih =>
    obtain ⟨hfails, hkeeps⟩ := scans_next s hs
    rw [all] at h
    split at h
    · next e' hrun =>
      obtain rfl := Option.some.inj h
      exact hfails e' hrun
    · next hrun => exact ih (hkeeps _ hrun).2 h
    · cases h

/-- Scanning fails against the grammar, or the text has an escape that is too far. -/
theorem misread_of_ofText {e : ReadError} (h : (ofText text).2 = some e) : Misread text e := by
  rw [ofText] at h
  split at h
  · refine misread_of_all ?_ h
    exact List.suffix_refl text
  · exact Option.some.inj h ▸ misread_malformed

end Token

end Yaml
end QueryTypes
