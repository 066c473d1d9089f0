import QueryTypes.Document.Basic
import QueryTypes.Failure
import QueryTypes.Request
import QueryTypes.Schema.Basic

/-! What turns a document into files, and the table of what does so for each target. -/

namespace QueryTypes

/-- A file that is still to be written. A shared file has no source. -/
structure GeneratedFile where
  path : Path
  content : String
  source : Option Path
deriving DecidableEq, Repr, Inhabited

/-- What a generation works on. -/
structure Emission where
  document : Document
  schema : Schema
  output : String
  beside : Bool
  options : Options
  cwd : Location

structure Emitter where
  label : String
  emit : Emission → Except Failure (List GeneratedFile)

instance : Inhabited Emitter := ⟨⟨"", fun _ => .ok []⟩⟩

/-- At most one emitter for each target; the first entry for a target counts. -/
abbrev Emitters := List (Target × Emitter)

namespace Emitters

def get? (es : Emitters) (t : Target) : Option Emitter := es.lookup t

def unregister (es : Emitters) (t : Target) : Emitters := es.filter fun e => e.1 != t

def register (es : Emitters) (t : Target) (e : Emitter) : Emitters := (t, e) :: es.unregister t

theorem get?_register_self (es : Emitters) (t : Target) (e : Emitter) :
    (es.register t e).get? t = some e := by
  simp [get?, register]

theorem get?_unregister_self (es : Emitters) (t : Target) : (es.unregister t).get? t = none := by
  simp only [get?, unregister, List.lookup_eq_none_iff, List.mem_filter]
  grind

end Emitters
end QueryTypes
