import QueryTypes.Shape.Syntax
import QueryTypes.Text.Comment

/-! The lines of generated files. Every part is a list of lines, so a file with several parts has
the lines of each. -/

namespace QueryTypes
namespace Style

/-- A comment for a description that says something. -/
def comment (indent : String) (description : Option String) : List String :=
  match given description with
  | none => []
  | some d => [indent ++ "/**", indent ++ " * " ++ Text.comment d, indent ++ " */"]

/-- A property, marked as read-only if it is to be. -/
def property (y : Style) (marked : Bool) (p : Property) : List String :=
  let mark := if !marked then "" else match y.language with
    | .typescript => "readonly "
    | .flow => "+"
  let stop := match y.language with
    | .typescript => ";"
    | .flow => ","
  comment "  " p.description
    ++ ["  " ++ mark ++ p.name ++ (if p.optional then "?" else "") ++ ": " ++ y.expression p.type ++ stop]

def openBrace (y : Style) : String :=
  if y.language = .flow ∧ y.exact then "\x7b|" else "\x7b"

def objectHead (y : Style) (name : String) : String :=
  match y.language with
  | .typescript => "export interface " ++ name ++ " " ++ y.openBrace
  | .flow => "export type " ++ name ++ " = " ++ y.openBrace

def objectEnd (y : Style) : String :=
  match y.language, y.exact with
  | .typescript, _ => "\x7d"
  | .flow, true => "|\x7d;"
  | .flow, false => "\x7d;"

def object (y : Style) (marked : Bool) (o : ObjectShape) : List String :=
  comment "" o.description
    ++ y.objectHead o.name :: o.properties.flatMap (y.property marked) ++ [y.objectEnd]

/-- The alternatives of a type, the last one ended by a semicolon. -/
def alternatives : List String → List String
  | [] => []
  | [n] => ["  | \"" ++ n ++ "\";"]
  | n :: r => ("  | \"" ++ n ++ "\"") :: alternatives r

def enum (y : Style) (e : EnumShape) : List String :=
  comment "" e.description ++ match y.language with
    | .typescript =>
      ("export enum " ++ e.name ++ " \x7b")
        :: e.values.flatMap (fun v => comment "  " v.2 ++ ["  " ++ v.1 ++ " = \"" ++ v.1 ++ "\","])
        ++ ["\x7d"]
    | .flow => ("export type " ++ e.name ++ " =") :: alternatives (e.values.map Prod.fst) ++ [""]

def header (y : Style) : List String :=
  (match y.language with
    | .typescript => "/* tslint:disable */"
    | .flow => "/* @flow */")
    :: ["/* eslint-disable */", "// @generated",
      "// This file was automatically generated and should not be edited."]

def title (m : ModuleShape) : List String :=
  let rule := "// ===================================================="
  let what := match m.kind with
    | .operation k => k.text ++ " operation"
    | .fragment => "fragment"
  [rule, "// GraphQL " ++ what ++ ": " ++ m.name, rule]

/-- Names from the file of the shared types; nothing for no names. -/
def importLines (y : Style) (names : List String) (specifier : String) : List String :=
  let word := match y.language with
    | .typescript => "import"
    | .flow => "import type"
  if names.isEmpty then []
  else [word ++ " \x7b " ++ Text.joinWith ", " names ++ " \x7d from \"" ++ specifier ++ "\";", ""]

def mark (what : String) : List String :=
  let rule := "//=============================================================="
  [rule, "// " ++ what ++ " Enums and Input Objects", rule]

/-! The files for a module, for the shared types and for all in one are laid out each on its own.
The properties of input objects are not marked in any of them. -/

def moduleLines (y : Style) (m : ModuleShape) (specifier : String) : List String :=
  y.header ++ "" :: y.importLines m.imports specifier ++ title m
    ++ m.objects.flatMap (fun o => "" :: y.object y.readOnly o)
    ++ m.arguments.elim [] (fun o => "" :: y.object y.readOnly o)

def sharedLines (y : Style) (s : SharedShapes) : List String :=
  y.header ++ "" :: mark "START"
    ++ s.enums.flatMap (fun e => "" :: y.enum e)
    ++ s.inputs.flatMap (fun o => "" :: y.object false o)
    ++ "" :: mark "END"

/-- All modules and the shared types in one file. -/
def bundleLines (y : Style) (ms : List ModuleShape) (s : SharedShapes) : List String :=
  y.header
    ++ ms.flatMap (fun m =>
      "" :: title m
        ++ m.objects.flatMap (fun o => "" :: y.object y.readOnly o)
        ++ m.arguments.elim [] (fun o => "" :: y.object y.readOnly o))
    ++ if s.isEmpty then [] else
      "" :: mark "START"
        ++ s.enums.flatMap (fun e => "" :: y.enum e)
        ++ s.inputs.flatMap (fun o => "" :: y.object false o)
        ++ "" :: mark "END"

end Style

/-- The text of some lines, each of them ended. -/
def textOfLines (ls : List String) : String := String.join (ls.map fun l => l ++ "\n")

end QueryTypes
