/-!
# The syntax of a source file

The parts of a Go source file that a stub needs. Types are trees, because erasing works on them;
function bodies and initializers are kept as the text they are written in.
-/

set_option autoImplicit false

namespace Understudy.Source

/-- The direction of a channel type. -/
inductive ChanDir where
  /-- `chan T` -/
  | both
  /-- `chan<- T` -/
  | send
  /-- `<-chan T` -/
  | recv
  deriving Repr, DecidableEq

mutual

/-- A type expression. -/
inductive TypeExpr where
  /-- A predeclared type or a type of the same package. -/
  | ident (name : String)
  /-- A type of another package, `package.Name`. -/
  | qualified (package name : String)
  | pointer (elem : TypeExpr)
  /-- An array if there is a length, otherwise a slice. -/
  | array (length : Option TypeExpr) (elem : TypeExpr)
  /-- The type of a variadic parameter. -/
  | ellipsis (elem : TypeExpr)
  | func (signature : Signature)
  | map (key value : TypeExpr)
  | chan (dir : ChanDir) (elem : TypeExpr)
  /-- The text of a constant expression, such as an array length. -/
  | literal (text : String)
  | struct (fields : List FieldGroup)
  | interface (elems : List InterfaceElem)
  /-- A generic type with its arguments, `Base[Args]`. -/
  | instantiated (base : TypeExpr) (args : List TypeExpr)
  /-- A union of terms in a constraint, `A | B`. -/
  | union (terms : List TypeExpr)
  /-- All types with one underlying type, `~T`. -/
  | tilde (elem : TypeExpr)
  /-- The text of a type of any other form. -/
  | unsupported (text : String)

/-- An entry of a parameter list, a struct or a type parameter list: some names of one type.
Without a name it is an unnamed parameter or an embedded field. -/
inductive FieldGroup where
  | mk (names : List String) (type : TypeExpr)

/-- What a function takes and gives. Results are absent when none are declared; they can also be
an empty list in parentheses. -/
inductive Signature where
  | mk (typeParams params : List FieldGroup) (results : Option (List FieldGroup))

/-- An entry of an interface type. -/
inductive InterfaceElem where
  | method (name : String) (signature : Signature)
  /-- An embedded interface, or a term of a type set. -/
  | embedded (type : TypeExpr)

end

namespace FieldGroup

/-- The names of a field. -/
def names : FieldGroup → List String
  | mk names _ => names

/-- The type that the names of a field share. -/
def type : FieldGroup → TypeExpr
  | mk _ type => type

/-- Whether the field is embedded in a struct, or an unnamed parameter. -/
def isEmbedded (f : FieldGroup) : Bool := f.names.isEmpty

end FieldGroup

namespace Signature

/-- The type parameters, which only declared functions have. -/
def typeParams : Signature → List FieldGroup
  | mk typeParams _ _ => typeParams

/-- The parameters, grouped as they are written. -/
def params : Signature → List FieldGroup
  | mk _ params _ => params

/-- The results, if any are declared. -/
def results : Signature → Option (List FieldGroup)
  | mk _ _ results => results

end Signature

/-- The name of the type that a method belongs to, seen from the type of its receiver: `T`, `*T`,
`T[K]` and `*T[K]` all name `T`. -/
def TypeExpr.receiverName? : TypeExpr → Option String
  | .ident name => some name
  | .pointer elem => elem.receiverName?
  | .instantiated base _ => base.receiverName?
  | _ => none

/-- One import of a file. -/
structure Import where
  /-- The name given in the import, which can be `.` or `_`. -/
  name : Option String
  path : String
  deriving Repr, DecidableEq

/-- The value that a constant or variable is declared with. -/
structure Initializer where
  text : String
  /-- Whether it is a basic literal, or a number with a sign. -/
  isLiteral : Bool
  deriving Repr, DecidableEq

/-- One entry of a `const` or `var` declaration. -/
structure ValueSpec where
  names : List String
  type : Option TypeExpr
  values : List Initializer

/-- One entry of a `type` declaration. -/
structure TypeSpec where
  name : String
  typeParams : List FieldGroup
  /-- Whether the entry only gives another name to the type. -/
  isAlias : Bool
  type : TypeExpr

/-- A function, or a method if there is a receiver. -/
structure FuncDecl where
  receiver : Option (List FieldGroup)
  name : String
  signature : Signature
  /-- The text between the braces of the body, if there is a body. -/
  body : Option String

/-- A declaration of a file, imports apart. -/
inductive Decl where
  | const (specs : List ValueSpec)
  | var (specs : List ValueSpec)
  | type (specs : List TypeSpec)
  | func (decl : FuncDecl)

/-- A source file. -/
structure SourceFile where
  /-- The name in the package clause. -/
  package : String
  imports : List Import
  decls : List Decl
  /-- Whether the file says before its package clause that it is generated. -/
  isGenerated : Bool

/-- The entries of the type declarations of a file, in order. -/
def SourceFile.typeSpecs (file : SourceFile) : List TypeSpec :=
  file.decls.flatMap fun
    | .type specs => specs
    | _ => []

end Understudy.Source
