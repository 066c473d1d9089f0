import QueryTypes.Proofs.Shape.Headed

/-!
# Names of types are only put in

The names of types are put in front of the blocks that do not ask for them, and nothing else is
changed: when they are taken out again the same document is left. Afterwards every block asks for
the name of the type, the blocks of operations aside, so that nothing more is put in.
-/

namespace QueryTypes

open Execution (deep deepAll deep_of_mem check_of_deep)

namespace Selection

def block : Selection → List Selection
  | .field _ _ ss => ss
  | .spread .. => []
  | .inline _ _ ss _ => ss

/-- There is a block that does not ask for the name of the type. -/
def lacksTypename (ss : List Selection) : Bool := !ss.isEmpty && !ss.any isTypename

/-- The block stands somewhere inside the selections. -/
inductive Encloses : List Selection → List Selection → Prop
  | block {ss : List Selection} {sel : Selection} :
      sel ∈ ss → sel.block ≠ [] → Encloses ss sel.block
  | deeper {ss block : List Selection} {sel : Selection} :
      sel ∈ ss → Encloses sel.block block → Encloses ss block

mutual
/-- The same selection, in which only blocks may have more in front. -/
inductive Extends : Selection → Selection → Prop
  | field {h : FieldHead} {b : Option Origin} {ss ss' : List Selection} :
      ExtendsBlock ss ss' → Extends (.field h b ss) (.field h b ss')
  | spread {n : Name} {ds : List Directive} {o : Option Origin} :
      Extends (.spread n ds o) (.spread n ds o)
  | inline {c : Option Name} {ds : List Directive} {ss ss' : List Selection} {o : Option Origin} :
      ExtendsBlock ss ss' → Extends (.inline c ds ss o) (.inline c ds ss' o)

/-- The field `__typename` stands in front if it was missing in the block. -/
inductive ExtendsBlock : List Selection → List Selection → Prop
  | keep {ss ss' : List Selection} :
      lacksTypename ss = false → ExtendsAll ss ss' → ExtendsBlock ss ss'
  | put {ss ss' : List Selection} :
      lacksTypename ss = true → ExtendsAll ss ss' → ExtendsBlock ss (typenameField :: ss')

inductive ExtendsAll : List Selection → List Selection → Prop
  | nil : ExtendsAll [] []
  | cons {sel sel' : Selection} {ss ss' : List Selection} :
      Extends sel sel' → ExtendsAll ss ss' → ExtendsAll (sel :: ss) (sel' :: ss')
end

/-- What was put in front of a block is taken off. -/
def unheaded (ss ss' : List Selection) : List Selection :=
  if lacksTypename ss then ss'.tail else ss'

mutual
/-- The second selection without the fields in front of its blocks that the first one lacks. -/
def withdraw : Selection → Selection → Selection
  | .field _ _ ss, .field h b ss' => .field h b (withdrawAll ss (unheaded ss ss'))
  | .inline _ _ ss _, .inline c ds ss' o => .inline c ds (withdrawAll ss (unheaded ss ss')) o
  | _, sel' => sel'

def withdrawAll : List Selection → List Selection → List Selection
  | sel :: ss, sel' :: ss' => withdraw sel sel' :: withdrawAll ss ss'
  | _, ss' => ss'
end

variable {ss ss' : List Selection} {sel sel' : Selection}

theorem withTypename_eq (ss : List Selection) :
    withTypename ss = if lacksTypename ss then typenameField :: ss else ss := by
  rw [withTypename, lacksTypename, ← Bool.not_or]
  cases ss.isEmpty || ss.any isTypename <;> rfl

theorem lacksTypename_addTypenames (ss : List Selection) :
    lacksTypename (addTypenames ss) = lacksTypename ss := by
  rw [lacksTypename, any_isTypename_addTypenames, addTypenames_eq_map, List.isEmpty_map,
    lacksTypename]

theorem withTypename_addTypenames (ss : List Selection) : withTypename (addTypenames ss) =
    if lacksTypename ss then typenameField :: addTypenames ss else addTypenames ss := by
  rw [withTypename_eq, lacksTypename_addTypenames]

theorem addTypenames_withTypename (ss : List Selection) :
    addTypenames (withTypename ss) = withTypename (addTypenames ss) := by
  rw [withTypename_eq, withTypename_addTypenames]
  split <;> rfl

theorem mem_withTypename_iff : sel ∈ withTypename ss ↔
    lacksTypename ss = true ∧ sel = typenameField ∨ sel ∈ ss := by
  rw [withTypename_eq]
  cases lacksTypename ss <;> simp

theorem withTypename_of_not_lacks (h : lacksTypename ss = false) : withTypename ss = ss := by
  rw [withTypename_eq, h, if_neg Bool.false_ne_true]

theorem lacksTypename_withTypename (ss : List Selection) :
    lacksTypename (withTypename ss) = false := by
  cases h : lacksTypename ss with
  | false => rw [withTypename_of_not_lacks h, h]
  | true =>
    rw [withTypename_eq, if_pos h]
    rfl

theorem any_isTypename_of_not_lacks (h : lacksTypename ss = false) (hne : ss ≠ []) :
    ss.any isTypename = true := by
  rw [lacksTypename, List.isEmpty_eq_false_iff.2 hne] at h
  simpa using h

/-! ### What is put in -/

theorem extendsBlock_withTypename (h : ExtendsAll ss (addTypenames ss)) :
    ExtendsBlock ss (withTypename (addTypenames ss)) := by
  rw [withTypename_addTypenames]
  by_cases hlacks : lacksTypename ss = true
  · rw [if_pos hlacks]
    exact .put hlacks h
  · rw [if_neg hlacks]
    exact .keep (by simpa using hlacks) h

mutual
theorem extends_addTypename : (sel : Selection) → Extends sel sel.addTypename
  | .field _ _ ss => .field (extendsBlock_withTypename (extendsAll_addTypenames ss))
  | .spread .. => .spread
  | .inline _ _ ss _ => .inline (extendsBlock_withTypename (extendsAll_addTypenames ss))

theorem extendsAll_addTypenames : (ss : List Selection) → ExtendsAll ss (addTypenames ss)
  | [] => .nil
  | sel :: ss => .cons (extends_addTypename sel) (extendsAll_addTypenames ss)
end

mutual
theorem Extends.eq : {sel sel' : Selection} → Extends sel sel' → sel' = sel.addTypename
  | _, _, .field h => by rw [addTypename, h.eq]
  | _, _, .spread => rfl
  | _, _, .inline h => by rw [addTypename, h.eq]

theorem ExtendsBlock.eq : {ss ss' : List Selection} → ExtendsBlock ss ss' →
    ss' = withTypename (addTypenames ss)
  | _, _, .keep hlacks h => by
    rw [withTypename_addTypenames, hlacks, if_neg Bool.false_ne_true, h.eq]
  | _, _, .put hlacks h => by rw [withTypename_addTypenames, if_pos hlacks, h.eq]

theorem ExtendsAll.eq : {ss ss' : List Selection} → ExtendsAll ss ss' → ss' = addTypenames ss
  | _, _, .nil => rfl
  | _, _, .cons hsel h => by rw [addTypenames, hsel.eq, h.eq]
end

/-! ### What is taken out -/

theorem unheaded_withTypename (ss : List Selection) :
    unheaded ss (withTypename (addTypenames ss)) = addTypenames ss := by
  rw [unheaded, withTypename_addTypenames]
  cases lacksTypename ss <;> rfl

mutual
theorem withdraw_addTypename : (sel : Selection) → sel.withdraw sel.addTypename = sel
  | .field _ _ ss => by
    rw [addTypename, withdraw, unheaded_withTypename, withdrawAll_addTypenames ss]
  | .spread .. => rfl
  | .inline _ _ ss _ => by
    rw [addTypename, withdraw, unheaded_withTypename, withdrawAll_addTypenames ss]

theorem withdrawAll_addTypenames : (ss : List Selection) → withdrawAll ss (addTypenames ss) = ss
  | [] => rfl
  | sel :: ss => by
    rw [addTypenames, withdrawAll, withdraw_addTypename sel, withdrawAll_addTypenames ss]
end

/-! ### Blocks afterwards -/

/-- Every block inside the selections asks for the name of the type. -/
def allNamed (ss : List Selection) : Bool := deepAll (fun sel => !lacksTypename sel.block) ss

mutual
theorem deep_true : (sel : Selection) → deep (fun _ => true) sel = true
  | .field _ _ ss => by rw [deep, deepAll_true ss, Bool.and_true]
  | .spread .. => rfl
  | .inline _ _ ss _ => by rw [deep, deepAll_true ss, Bool.and_true]

theorem deepAll_true : (ss : List Selection) → deepAll (fun _ => true) ss = true
  | [] => rfl
  | sel :: ss => by rw [deepAll, deep_true sel, deepAll_true ss, Bool.and_true]
end

theorem allNamed_addTypenames (ss : List Selection) : allNamed (addTypenames ss) = true := by
  refine deepAll_addTypenames_of rfl (fun sel _ => ?_) ss (deepAll_true ss)
  cases sel with
  | field _ _ ss => rw [addTypename, block, lacksTypename_withTypename, Bool.not_false]
  | spread => rfl
  | inline _ _ ss _ => rw [addTypename, block, lacksTypename_withTypename, Bool.not_false]

theorem allNamed_withTypename (ss : List Selection) :
    allNamed (withTypename (addTypenames ss)) = true := by
  rw [← addTypenames_withTypename]
  exact allNamed_addTypenames (withTypename ss)

theorem Encloses.any_isTypename {block : List Selection} (h : Encloses ss block)
    (hss : allNamed ss = true) : block.any isTypename = true := by
  induction h with
  | @block ss sel hsel hne =>
    have hcheck := check_of_deep (deep_of_mem hss hsel)
    exact any_isTypename_of_not_lacks (by simpa using hcheck) hne
  | @deeper ss block sel hsel _ ih =>
    refine ih ?_
    have hdeep := deep_of_mem hss hsel
    cases sel with
    | field _ _ below =>
      rw [deep, Bool.and_eq_true] at hdeep
      exact hdeep.2
    | spread => rfl
    | inline _ _ below _ =>
      rw [deep, Bool.and_eq_true] at hdeep
      exact hdeep.2

mutual
theorem addTypename_of_named : (sel : Selection) →
    deep (fun sel => !lacksTypename sel.block) sel = true → sel.addTypename = sel
  | .field h b ss, hsel => by
    rw [deep, Bool.and_eq_true] at hsel
    have hlacks : lacksTypename ss = false := by simpa [block] using hsel.1
    rw [addTypename, addTypenames_of_allNamed ss hsel.2, withTypename_of_not_lacks hlacks]
  | .spread .., _ => rfl
  | .inline c ds ss o, hsel => by
    rw [deep, Bool.and_eq_true] at hsel
    have hlacks : lacksTypename ss = false := by simpa [block] using hsel.1
    rw [addTypename, addTypenames_of_allNamed ss hsel.2, withTypename_of_not_lacks hlacks]

theorem addTypenames_of_allNamed : (ss : List Selection) → allNamed ss = true →
    addTypenames ss = ss
  | [], _ => rfl
  | sel :: ss, hss => by
    rw [allNamed, deepAll, Bool.and_eq_true] at hss
    rw [addTypenames, addTypename_of_named sel hss.1, addTypenames_of_allNamed ss hss.2]
end

end Selection

open Selection

/-! ### Documents -/

/-- What is defined is the same but for its selections. -/
def Operation.Extends (o o' : Operation) : Prop :=
  ∃ ss, ExtendsAll o.selections ss ∧ o' = { o with selections := ss }

def Fragment.Extends (f f' : Fragment) : Prop :=
  ∃ ss, ExtendsBlock f.selections ss ∧ f' = { f with selections := ss }

def Operation.withdraw (o o' : Operation) : Operation :=
  { o' with selections := withdrawAll o.selections o'.selections }

def Fragment.withdraw (f f' : Fragment) : Fragment :=
  { f' with selections := withdrawAll f.selections (unheaded f.selections f'.selections) }

namespace Document

/-- The same document, in which only blocks may have more in front, those of operations aside. -/
structure Extends (d d' : Document) : Prop where
  operations : List.Forall₂ Operation.Extends d.operations d'.operations
  fragments : List.Forall₂ Fragment.Extends d.fragments d'.fragments

/-- The second document without the fields in front of its blocks that the first one lacks. -/
def withdraw (d d' : Document) : Document :=
  ⟨List.zipWith Operation.withdraw d.operations d'.operations,
    List.zipWith Fragment.withdraw d.fragments d'.fragments⟩

/-- The block stands somewhere in the document, and is not that of an operation. -/
inductive Encloses (d : Document) : List Selection → Prop
  | operation {o : Operation} {block : List Selection} :
      o ∈ d.operations → Selection.Encloses o.selections block → Encloses d block
  | fragment {f : Fragment} : f ∈ d.fragments → f.selections ≠ [] → Encloses d f.selections
  | inside {f : Fragment} {block : List Selection} :
      f ∈ d.fragments → Selection.Encloses f.selections block → Encloses d block

variable {d d' : Document}

theorem extends_addTypename (d : Document) : d.Extends d.addTypename where
  operations := by
    rw [addTypename, List.forall₂_map_right_iff, List.forall₂_same]
    exact fun o _ => ⟨_, extendsAll_addTypenames o.selections, rfl⟩
  fragments := by
    rw [addTypename, List.forall₂_map_right_iff, List.forall₂_same]
    exact fun f _ => ⟨_, extendsBlock_withTypename (extendsAll_addTypenames f.selections), rfl⟩

theorem Extends.eq (h : d.Extends d') : d' = d.addTypename := by
  obtain ⟨hoperations, hfragments⟩ := h
  have hops : d'.operations = d.operations.map Operation.addTypename := by
    rw [← List.forall₂_eq_eq_eq, List.forall₂_map_right_iff]
    refine hoperations.flip.imp fun o' o ho => ?_
    obtain ⟨ss, hss, rfl⟩ := ho
    rw [Operation.addTypename, hss.eq]
  have hfrags : d'.fragments = d.fragments.map Fragment.addTypename := by
    rw [← List.forall₂_eq_eq_eq, List.forall₂_map_right_iff]
    refine hfragments.flip.imp fun f' f hf => ?_
    obtain ⟨ss, hss, rfl⟩ := hf
    rw [Fragment.addTypename, hss.eq]
  rw [addTypename, ← hops, ← hfrags]

theorem withdraw_addTypename (d : Document) : d.withdraw d.addTypename = d := by
  have hoperation : ∀ o : Operation, o.withdraw o.addTypename = o := by
    intro o
    rw [Operation.withdraw, Operation.addTypename, withdrawAll_addTypenames]
  have hfragment : ∀ f : Fragment, f.withdraw f.addTypename = f := by
    intro f
    rw [Fragment.withdraw, Fragment.addTypename, unheaded_withTypename, withdrawAll_addTypenames]
  rw [withdraw, addTypename, List.zipWith_map_right, List.zipWith_map_right, List.zipWith_self,
    List.zipWith_self]
  simp only [hoperation, hfragment, List.map_id']

theorem any_isTypename_of_encloses {block : List Selection} (h : d.addTypename.Encloses block) :
    block.any isTypename = true := by
  cases h with
  | operation ho hblock =>
    obtain ⟨o, -, rfl⟩ := List.mem_map.1 ho
    exact hblock.any_isTypename (allNamed_addTypenames o.selections)
  | fragment hf hne =>
    obtain ⟨f, -, rfl⟩ := List.mem_map.1 hf
    exact any_isTypename_of_not_lacks (lacksTypename_withTypename _) hne
  | inside hf hblock =>
    obtain ⟨f, -, rfl⟩ := List.mem_map.1 hf
    exact hblock.any_isTypename (allNamed_withTypename f.selections)

theorem addTypename_addTypename (d : Document) : d.addTypename.addTypename = d.addTypename := by
  have hoperation : ∀ o : Operation, o.addTypename.addTypename = o.addTypename := by
    intro o
    simp only [Operation.addTypename, addTypenames_of_allNamed _ (allNamed_addTypenames _)]
  have hfragment : ∀ f : Fragment, f.addTypename.addTypename = f.addTypename := by
    intro f
    simp only [Fragment.addTypename, addTypenames_of_allNamed _ (allNamed_withTypename _),
      withTypename_of_not_lacks (lacksTypename_withTypename _)]
  simp only [addTypename, List.map_map, Function.comp_def, hoperation, hfragment]

/-- Names of types are only put in. The document is the only one that has the field in front of
exactly those blocks that do not ask for the name of the type, those of operations aside, and is
otherwise the same; without these fields the same document is left. Afterwards all blocks but those
of operations ask for the name of the type, and putting it in again changes nothing. -/
theorem addTypename_only_inserts (d : Document) :
    (∀ d', d.Extends d' ↔ d' = d.addTypename) ∧
    d.withdraw d.addTypename = d ∧
    (∀ block, d.addTypename.Encloses block → block.any isTypename = true) ∧
    d.addTypename.addTypename = d.addTypename := by
  refine ⟨fun d' => ⟨Extends.eq, ?_⟩, d.withdraw_addTypename,
    fun _ => any_isTypename_of_encloses, d.addTypename_addTypename⟩
  rintro rfl
  exact d.extends_addTypename

end Document
end QueryTypes
