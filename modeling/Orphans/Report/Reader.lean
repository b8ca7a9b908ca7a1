import Orphans.Json.Reader
import Orphans.Report

/-!
# Reading reports

A report from its JSON text, as a program that is given the text reads it. The members of a record
are found by their names; others are left aside. Nothing is read if a member is missing or has
another kind of value.
-/

namespace Orphans

/-! ### JSON values -/

namespace Json

/-- The value of the first member of a record with a given name. -/
def field? (value : Json) (name : String) : Option Json :=
  match value with
  | record members => members.lookup name.toList
  | _ => none

/-- The text that a value is, if it is one. -/
def text? : Json → Option Text
  | text t => some t
  | _ => none

/-- The number that a value is, if it is one. -/
def number? : Json → Option Nat
  | number n => some n
  | _ => none

/-- The items of a list. -/
def items? : Json → Option (List Json)
  | list items => some items
  | _ => none

end Json

/-- The kind of key with a given name. -/
def Via.ofLabel? (label : Text) : Option Via :=
  [Via.name, Via.path].find? (·.label.toList = label)

/-- The counts of a JSON value. -/
def Summary.ofJson? (value : Json) : Option Summary := do
  some {
    corpusFiles := ← (← value.field? "corpus_files").number?
    checkedFiles := ← (← value.field? "checked_files").number?
    implicitEntryPoints := ← (← value.field? "implicit_entry_points").number?
    unusedFilesCount := ← (← value.field? "unused_files_count").number? }

/-- The used file of a JSON value. -/
def UsedFile.ofJson? (value : Json) : Option UsedFile := do
  some {
    file := ← (← value.field? "file").text?
    referencedBy := ← (← value.field? "referenced_by").text?
    via := ← Via.ofLabel? (← (← value.field? "via").text?) }

namespace Report

/-- The report of a JSON value. -/
def ofJson? (value : Json) : Option Report := do
  some {
    root := ← (← value.field? "root").text?
    sourceRoot := ← (← value.field? "source_root").text?
    strategy := ← Strategy.ofName? (← (← value.field? "strategy").text?)
    summary := ← Summary.ofJson? (← value.field? "summary")
    unusedFiles := ← (← (← value.field? "unused_files").items?).mapM Json.text?
    usedFiles := ← (← (← value.field? "used_files").items?).mapM UsedFile.ofJson? }

/-- The report that a text of JSON holds. -/
def ofText? (text : Text) : Option Report := do
  ofJson? (← Json.read? text)

end Report

end Orphans
