import Orphans.Config

/-!
# Changes of a configuration

A configuration begins with a root, and what else it holds can be set afterwards: five fields, each
of them any number of times and in any order. A field that holds a set of names is set as a whole,
from names as they are typed.

Fields are a type of their own, with what each of them holds, so that one statement speaks about all
of them.
-/

namespace Orphans.Config

/-- The fields that can be set. -/
inductive Field where
  | sourceRoot
  | extensions
  | implicitFiles
  | excludeDirs
  | strategy
deriving Repr, DecidableEq

/-- What a field holds. -/
def Field.Value : Field → Type
  | sourceRoot => RawPath
  | extensions => NameSet
  | implicitFiles => NameSet
  | excludeDirs => NameSet
  | strategy => Strategy

/-- What a configuration holds in a field. -/
def get (config : Config) : (field : Field) → field.Value
  | .sourceRoot => config.sourceRoot
  | .extensions => config.extensions
  | .implicitFiles => config.implicitFiles
  | .excludeDirs => config.excludeDirs
  | .strategy => config.strategy

/-- A change: a field with what it is set from. -/
inductive Change where
  | sourceRoot (path : RawPath)
  | extensions (texts : List Text)
  | implicitFiles (texts : List Text)
  | excludeDirs (texts : List Text)
  | strategy (strategy : Strategy)

/-- The field that a change sets. -/
def Change.field : Change → Field
  | sourceRoot _ => .sourceRoot
  | extensions _ => .extensions
  | implicitFiles _ => .implicitFiles
  | excludeDirs _ => .excludeDirs
  | strategy _ => .strategy

/-- What a change sets its field to. -/
def Change.value : (change : Change) → change.field.Value
  | sourceRoot path => path
  | extensions texts => extensionSet texts
  | implicitFiles texts => nameSet texts
  | excludeDirs texts => nameSet texts
  | strategy value => value

/-- A configuration after a change. -/
def change (config : Config) : Change → Config
  | .sourceRoot path => config.withSourceRoot path
  | .extensions texts => config.withExtensions texts
  | .implicitFiles texts => config.withImplicitFiles texts
  | .excludeDirs texts => config.withExcludeDirs texts
  | .strategy strategy => config.withStrategy strategy

/-- The configuration of a root after some changes, one after the other. -/
def built (root : RawPath) (changes : List Change) : Config :=
  changes.foldl change (ofRoot root)

end Orphans.Config
