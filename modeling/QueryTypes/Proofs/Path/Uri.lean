import Mathlib.Data.List.TakeWhile
import QueryTypes.Proofs.Path.Reduced
import QueryTypes.Proofs.Project.History
import QueryTypes.Proofs.Text.Utf8

/-!
# Places as URIs

In the URI of a place every byte that is no letter, digit, slash or one of four marks is escaped, so
nothing in it is taken for the end of the path, for an end of a line or for an escape that is none.
Main statement: whatever characters its names have, a place is found again from its URI, so a change
that is watched is a change of the file that the project knows.
-/

namespace QueryTypes.Uri

/-! ### Escaped bytes -/

/-- Characters that a URI is read with as they are, and that end no part of it. -/
def IsPlain (c : Char) : Prop := 32 < c.toNat ∧ c.toNat < 128 ∧ c ≠ '?' ∧ c ≠ '#'

instance (c : Char) : Decidable (IsPlain c) :=
  inferInstanceAs (Decidable (32 < c.toNat ∧ c.toNat < 128 ∧ c ≠ '?' ∧ c ≠ '#'))

/-- The upper-case digit of a number below sixteen. -/
def digit (n : Nat) : Char := (Text.hexDigit n).toUpper

theorem digit_spec : ∀ n < 16, Text.hexValue? (digit n) = some n ∧ IsPlain (digit n) := by decide

theorem unreserved_spec : ∀ n < 128, isUnreserved (Char.ofNat n) = true ∨ Char.ofNat n = '/' →
    Char.ofNat n ≠ '%' ∧ (Char.ofNat n).toNat = n ∧ IsPlain (Char.ofNat n) := by decide

theorem escapeByte_cases (b : UInt8) :
    (∃ c, escapeByte b = [c] ∧ c ≠ '%' ∧ c.toNat = b.toNat ∧ IsPlain c) ∨
    escapeByte b = ['%', digit (b.toNat / 16), digit (b.toNat % 16)] := by
  unfold escapeByte
  extract_lets c
  split
  · rename_i h
    simp only [Bool.and_eq_true, Bool.or_eq_true, decide_eq_true_eq, beq_iff_eq] at h
    exact .inl ⟨c, rfl, unreserved_spec b.toNat h.1 h.2⟩
  · have hb : b.toNat < 256 := b.toNat_lt
    have hhigh : b.toNat / 16 % 16 = b.toNat / 16 := Nat.mod_eq_of_lt (by omega)
    have hdigits : Text.hex 2 b.toNat =
        [Text.hexDigit (b.toNat / 16 % 16), Text.hexDigit (b.toNat / 1 % 16)] := rfl
    rw [hdigits, hhigh, Nat.div_one]
    exact .inr rfl

theorem isPlain_of_mem_escapeByte {b : UInt8} {c : Char} (h : c ∈ escapeByte b) : IsPlain c := by
  have hb : b.toNat < 256 := b.toNat_lt
  rcases escapeByte_cases b with ⟨d, hd, -, -, hplain⟩ | hescape
  · rw [hd] at h
    rwa [List.mem_singleton.1 h]
  · rw [hescape, List.mem_cons, List.mem_cons, List.mem_singleton] at h
    rcases h with rfl | rfl | rfl
    · decide
    · exact (digit_spec _ (by omega)).2
    · exact (digit_spec _ (by omega)).2

theorem unescape_cons {c : Char} (hc : c ≠ '%') (r : List Char) :
    unescape (c :: r) = c.toNat :: unescape r := by
  rw [unescape]
  rintro _ _ _ rfl
  exact absurd rfl hc

theorem unescape_escapeByte (b : UInt8) (r : List Char) :
    unescape (escapeByte b ++ r) = b.toNat :: unescape r := by
  rcases escapeByte_cases b with ⟨c, hb, hpercent, hcode, -⟩ | hescape
  · rw [hb, List.singleton_append, unescape_cons hpercent, hcode]
  · have hb : b.toNat < 256 := b.toNat_lt
    have hhigh := (digit_spec (b.toNat / 16) (by omega)).1
    have hlow := (digit_spec (b.toNat % 16) (by omega)).1
    rw [hescape]
    change unescape ('%' :: digit (b.toNat / 16) :: digit (b.toNat % 16) :: r) = _
    rw [unescape, hhigh, hlow]
    simp only [Nat.div_add_mod']

theorem unescape_escaped (bs : List UInt8) :
    unescape (bs.flatMap escapeByte) = bs.map UInt8.toNat := by
  induction bs with
  | nil => rfl
  | cons b bs ih => rw [List.flatMap_cons, unescape_escapeByte, ih, List.map_cons]

/-! ### The parts of a URI -/

/-- The path as it stands in a URI. -/
def escaped (s : String) : List Char := (Text.encode s).toList.flatMap escapeByte

theorem isPlain_of_mem_escaped {s : String} {c : Char} (h : c ∈ escaped s) : IsPlain c := by
  obtain ⟨b, -, hc⟩ := List.mem_flatMap.1 h
  exact isPlain_of_mem_escapeByte hc

theorem unescapeText_escaped (s : String) :
    unescapeText (escaped s).length (escaped s) = s.toList := by
  have hascii : ∀ c ∈ escaped s, isAscii c = true := fun c hc =>
    decide_eq_true (isPlain_of_mem_escaped hc).2.1
  have hbytes : unescape (escaped s) = s.toList.flatMap Text.charBytes := by
    rw [escaped, unescape_escaped, Text.map_toNat_encode]
  cases hs : escaped s with
  | nil =>
    rw [hs] at hbytes
    rw [← Text.decodeLoosely_text s.toList le_rfl, ← hbytes]
    rfl
  | cons c r =>
    rw [hs] at hascii hbytes
    have hc := hascii c List.mem_cons_self
    have hnone : ∀ n, unescapeText n [] = [] := fun n => by cases n <;> rfl
    rw [List.length_cons, unescapeText, if_pos hc]
    simp only [List.takeWhile_eq_self_iff.2 hascii, List.dropWhile_eq_nil_iff.2 hascii, hbytes, hnone,
      List.append_nil]
    exact Text.decodeLoosely_text s.toList le_rfl

theorem cleaned_eq_self {s : List Char} (h : ∀ c ∈ s, IsPlain c) : cleaned s = s := by
  have hstart : s.dropWhile (fun c => decide (c.toNat ≤ 32)) = s := by
    cases s with
    | nil => rfl
    | cons c s =>
      have hc := (h c List.mem_cons_self).1
      exact List.dropWhile_cons_of_neg (by simpa using hc)
  rw [cleaned, hstart, List.filter_eq_self]
  intro c hc
  have hcode := (h c hc).1
  simp only [Bool.and_eq_true, bne_iff_ne]
  refine ⟨⟨?_, ?_⟩, ?_⟩
  all_goals
    rintro rfl
    exact absurd hcode (by decide)

theorem file_append (r : List Char) :
    "file://".toList ++ r = "file:".toList ++ '/' :: '/' :: r := rfl

theorem scheme?_file (r : List Char) :
    scheme? ("file:".toList ++ r) = some ("file".toList, r) := rfl

/-- A path that begins with a slash leaves no host before it. -/
theorem pathPart?_of_isPlain {r : List Char} (hslash : r.head? = some '/') (h : ∀ c ∈ r, IsPlain c) :
    pathPart? ('/' :: '/' :: r) = some r := by
  obtain ⟨tail, rfl⟩ := List.head?_eq_some_iff.1 hslash
  have hpath : (('/' :: tail).takeWhile fun c => c != '?' && c != '#') = '/' :: tail := by
    refine List.takeWhile_eq_self_iff.2 fun c hc => ?_
    simp [(h c hc).2.2.1, (h c hc).2.2.2]
  have hafter : Text.after? ['/', '/'] ('/' :: '/' :: '/' :: tail) = some ('/' :: tail) :=
    Text.after?_append ['/', '/'] _
  rw [pathPart?]
  simp [hafter, hpath, badHost]

/-! ### Places -/

theorem head?_escaped (l : Location) : (escaped (Location.text l)).head? = some '/' := by
  have hbytes : (Text.encode (Location.text l)).toList =
      47 :: (Text.joinWith "/" l).toList.flatMap String.utf8EncodeChar := by
    rw [Text.toList_encode, Location.text, String.toList_append]
    rfl
  rw [escaped, hbytes]
  rfl

theorem ofText_text {l : Location} (hl : ∀ n ∈ l, IsKept n) :
    Path.ofText (Location.text l) = Path.ofLocation l := by
  by_cases hne : l = []
  · rw [hne]
    decide
  · have hfirst : ∀ rest, l = "" :: rest → rest = [] := by
      rintro rest rfl
      exact absurd rfl (hl "" List.mem_cons_self).ne_empty
    have htext := Path.ofText_root_append .slash hne (fun n hn => (hl n hn).no_slash) hfirst
    rwa [Path.kept_eq_self hl] at htext

theorem toList_ofLocation (l : Location) :
    (ofLocation l).toList = "file://".toList ++ escaped (Location.text l) := by
  unfold ofLocation
  exact String.toList_ofList

theorem toPath?_ofLocation {l : Location} (hl : ∀ n ∈ l, IsKept n) :
    toPath? (ofLocation l) = some (Path.ofLocation l) := by
  have huri := (toList_ofLocation l).trans (file_append _)
  have hfront : ∀ c ∈ "file:".toList, IsPlain c := by simp [IsPlain]
  have hplain : ∀ c ∈ (ofLocation l).toList, IsPlain c := by
    rw [huri]
    intro c hc
    rcases List.mem_append.1 hc with hc | hc
    · exact hfront c hc
    · rcases List.mem_cons.1 hc with rfl | hc
      · decide
      · rcases List.mem_cons.1 hc with rfl | hc
        · decide
        · exact isPlain_of_mem_escaped hc
  rw [toPath?, cleaned_eq_self hplain, huri, scheme?_file]
  simp only [pathPart?_of_isPlain (head?_escaped l) fun c hc => isPlain_of_mem_escaped hc, if_pos,
    unescapeText_escaped, String.ofList_toList, ofText_text hl]

theorem text_ofLocation (l : Location) : (Path.ofLocation l).text = Location.text l := by
  rw [Path.text, if_neg fun h => by cases h.1]
  rfl

theorem place?_ofLocation {l : Location} (hl : ∀ n ∈ l, IsKept n ∧ n ≠ "..")
    (hnul : ∀ n ∈ l, '\x00' ∉ n.toList) (cwd : Location) : place? cwd (ofLocation l) = some l := by
  have hplain : ((Path.ofLocation l).segments.any fun s => s.toList.contains '\x00') = false := by
    rw [List.any_eq_false]
    exact fun n hn => by simpa using hnul n hn
  have hresolve : Path.resolve cwd (Path.ofLocation l) = l :=
    Path.collapse_of_names fun n hn => (hl n hn).2
  rw [place?, toPath?_ofLocation fun n hn => (hl n hn).1]
  simp only [hplain, Bool.false_eq_true, if_false, hresolve]

/-- A project that is told of a watched change looks at the place that the watched path leads to. -/
theorem place?_watched {cwd : Location} {path : String} (hcwd : ∀ n ∈ cwd, IsKept n ∧ n ≠ "..")
    (hcwdnul : ∀ n ∈ cwd, '\x00' ∉ n.toList) (hnul : '\x00' ∉ path.toList) (cwd' : Location) :
    place? cwd' (ofLocation (Path.resolve cwd (Path.ofText path))) =
      some (Path.resolve cwd (Path.ofText path)) := by
  refine place?_ofLocation (fun n hn => Path.isKept_of_mem_resolve hcwd hn) (fun n hn hmem => ?_) cwd'
  rw [FileTree.resolve_eq_climb fun m hm => (hcwd m hm).2] at hn
  rcases FileTree.mem_climb hn with hn | ⟨hn, -⟩
  · split at hn
    · exact List.not_mem_nil hn
    · exact hcwdnul n hn hmem
  · obtain ⟨f, hf, rfl⟩ := List.mem_map.1 (List.mem_filter.1 hn).1
    rw [String.toList_ofList] at hmem
    exact hnul (Text.mem_of_mem_splitOn hf hmem).1

/-- Places are found again from their URIs. For every place, whatever characters are in its names:
its URI is read as its path, which has the text of the place, so different places have different
URIs. Without a null character in the names, a project that is told of the URI looks at the
place. -/
theorem uri_leads_back {l : Location} (hl : ∀ n ∈ l, IsKept n ∧ n ≠ "..") :
    toPath? (ofLocation l) = some (Path.ofLocation l) ∧
    (Path.ofLocation l).text = Location.text l ∧
    (∀ m : Location, (∀ n ∈ m, IsKept n) → ofLocation m = ofLocation l → m = l) ∧
    ((∀ n ∈ l, '\x00' ∉ n.toList) → ∀ cwd, place? cwd (ofLocation l) = some l) := by
  have hread := toPath?_ofLocation fun n hn => (hl n hn).1
  refine ⟨hread, text_ofLocation l, fun m hm huri => ?_, place?_ofLocation hl⟩
  have hother := toPath?_ofLocation hm
  rw [huri, hread] at hother
  exact (congrArg Path.segments (Option.some.inj hother)).symm

/-- Names with what ends a path, a query, a line or an escape elsewhere, and with characters of one
to four bytes. -/
def oddNames : Location := ["p", "a b%20", "#?;:@", "\t\n", "\x7fü€😀.graphql"]

theorem uri_leads_back_odd :
    (∀ n ∈ oddNames, IsKept n ∧ n ≠ "..") ∧ toPath? (ofLocation oddNames) = some ⟨.slash, oddNames⟩ ∧
    place? ["elsewhere"] (ofLocation oddNames) = some oddNames := by
  have hl : ∀ n ∈ oddNames, IsKept n ∧ n ≠ ".." := by decide
  obtain ⟨hpath, -, -, hplace⟩ := uri_leads_back hl
  exact ⟨hl, hpath, hplace (by decide) ["elsewhere"]⟩

end QueryTypes.Uri
