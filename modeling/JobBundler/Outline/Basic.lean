import JobBundler.Source.Span

/-! # Module outlines

The outline of a module holds what the bundling of jobs needs to know about its top level: its
imports, and its classes with their decorators and the way they are exported, each list in source
order. All other statements are left out. -/

namespace JobBundler

/-- One specifier between the braces of an import. -/
structure NamedImport where
  /-- The name that the imported module exports; any text when it is written as a string. -/
  imported : String
  /-- The name it is bound to. -/
  binding : String
  /-- It is marked `type`. -/
  typeOnly : Bool
  deriving DecidableEq, Repr

/-- An import declaration. -/
structure ImportDecl where
  /-- The module specifier, by its value. -/
  specifier : String
  /-- The name of the default import. -/
  defaultBinding : Option String
  /-- The name after `* as`. -/
  namespaceBinding : Option String
  named : List NamedImport
  /-- The declaration is marked `import type`. -/
  typeOnly : Bool
  /-- The `with` or `assert` clause after the specifier. -/
  attributes : Option Span
  span : Span
  deriving DecidableEq, Repr

namespace ImportDecl

/-- Whether the declaration binds no name at all. -/
def isSideEffectOnly (d : ImportDecl) : Bool :=
  d.defaultBinding.isNone && d.namespaceBinding.isNone && d.named.isEmpty

/-- The names that the declaration binds: the default one, the namespace, then the named ones. -/
def bindings (d : ImportDecl) : List String :=
  d.defaultBinding.toList ++ d.namespaceBinding.toList ++ d.named.map (·.binding)

end ImportDecl

/-- How a declaration is exported. -/
inductive ExportKind where
  | byDefault
  | byName
  | notExported
  deriving DecidableEq, Repr

/-- An argument of a decorator call. Only the value of a lone string literal is kept. -/
inductive DecoratorArg where
  | str (value : String)
  | other
  deriving DecidableEq, Repr

/-- A decorator of a class. -/
structure Decorator where
  /-- The dotted name; empty for `@(…)`. -/
  name : String
  /-- The arguments, when the decorator is called. -/
  args : Option (List DecoratorArg)
  span : Span
  deriving DecidableEq, Repr

namespace Decorator

/-- The value of the first argument, when that is a string literal. -/
def firstString? (d : Decorator) : Option String :=
  match d.args with
  | some (.str value :: _) => some value
  | _ => none

end Decorator

/-- A class declaration. -/
structure ClassDecl where
  /-- The name; only a default export may lack one. -/
  name : Option String
  decorators : List Decorator
  exported : ExportKind
  /-- From the first decorator or keyword to the end of the body. -/
  span : Span
  /-- The body with its braces. -/
  body : Span
  deriving DecidableEq, Repr

/-- The imports and classes of a module. -/
structure Outline where
  imports : List ImportDecl
  classes : List ClassDecl
  deriving DecidableEq, Repr

namespace Outline

def empty : Outline :=
  ⟨[], []⟩

instance : EmptyCollection Outline :=
  ⟨empty⟩

/-- The first class with this name. -/
def classNamed? (o : Outline) (name : String) : Option ClassDecl :=
  o.classes.find? (·.name == some name)

/-- The first class that is exported as the default. -/
def defaultClass? (o : Outline) : Option ClassDecl :=
  o.classes.find? (·.exported == .byDefault)

end Outline
end JobBundler
