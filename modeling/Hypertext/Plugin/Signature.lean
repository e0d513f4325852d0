/-! # Signatures of plugins

How a plugin is called depends only on its leading required parameters. Arguments may be
bound ahead: bound positions disappear from the front, and a parameter bound by name takes
itself and every later named position out of the positional part.
-/

namespace Hypertext

set_option autoImplicit false

inductive ParamKind where
  | positionOnly
  | position
  | variadic
  | keyword
  | variadicKeyword
  deriving DecidableEq, Repr

structure Param where
  name : String
  kind : ParamKind
  hasDefault : Bool
  deriving DecidableEq, Repr

structure Binding where
  positions : Nat
  names : List String
  deriving DecidableEq, Repr

namespace Signature

/-- The positional part of binding: each position is taken by a leading parameter that is not
also bound by name. Yields the untouched parameters and whether a variadic one took over. -/
def takePositions (names : List String) : Nat → List Param → Option (List Param)
  | 0, params => some params
  | _ + 1, [] => none
  | count + 1, param :: rest =>
    match param.kind with
    | .variadicKeyword | .keyword => none
    | .variadic => some (param :: rest)
    | .position =>
      if names.contains param.name then none else takePositions names count rest
    | .positionOnly => takePositions names count rest

def acceptsNames (names : List String) (params : List Param) : Bool :=
  names.all fun name =>
    params.any fun param =>
      param.kind = .variadicKeyword ||
        (param.name = name && (param.kind = .position || param.kind = .keyword))

/-- A leading position-only parameter cannot be bound by name, whatever else accepts names. -/
def refusesName (names : List String) (params : List Param) : Bool :=
  params.any fun param => param.kind = .positionOnly && names.contains param.name

def bindNames (names : List String) : Bool → List Param → List Param
  | _, [] => []
  | bound, param :: rest =>
    match param.kind with
    | .position =>
      let bound := bound || names.contains param.name
      let kind := if bound then ParamKind.keyword else .position
      let hasDefault := param.hasDefault || names.contains param.name
      { param with kind, hasDefault } :: bindNames names bound rest
    | .keyword =>
      { param with hasDefault := param.hasDefault || names.contains param.name } ::
        bindNames names bound rest
    | .variadic =>
      if bound then bindNames names bound rest else param :: bindNames names bound rest
    | .positionOnly | .variadicKeyword => param :: bindNames names bound rest

/-- The parameters left by a binding, or nothing when it does not fit. -/
def bind? (params : List Param) (binding : Binding) : Option (List Param) := do
  let rest ← takePositions binding.names binding.positions params
  if refusesName binding.names rest || !acceptsNames binding.names rest then none
  else some (bindNames binding.names false rest)

def isRequiredPosition (param : Param) : Bool :=
  (param.kind = .position || param.kind = .positionOnly) && !param.hasDefault

def arity (params : List Param) : Nat := (params.takeWhile isRequiredPosition).length

end Signature

inductive CallableForm where
  | function
  | object
  | sealedObject
  deriving DecidableEq, Repr

/-- Something that can be called. The handle says which behaviour it has; the rest is what
can be learnt without calling it. -/
structure Callable where
  handle : Nat
  form : CallableForm
  name : String
  params : Option (List Param)
  coroutine : Bool
  bindings : List Binding
  deriving DecidableEq, Repr

namespace Callable

def anonymous : String := "<anonymous>"

/-- All bindings act as one. -/
def binding (callable : Callable) : Binding :=
  ⟨callable.bindings.foldl (fun total binding => total + binding.positions) 0,
    (callable.bindings.flatMap (·.names)).eraseDups⟩

def signature? (callable : Callable) : Option (List Param) :=
  if callable.bindings.isEmpty then callable.params
  else callable.params.bind (Signature.bind? · callable.binding)

def displayName (callable : Callable) : String :=
  if callable.name = "" || callable.name = "<lambda>" then anonymous else callable.name

/-- A callable that hides its signature counts as taking one parameter. -/
def arity (callable : Callable) : Nat :=
  match callable.signature? with
  | none => 1
  | some params => Signature.arity params

def expectsCallback (callable : Callable) : Bool := callable.arity ≥ 2

/-- Binding keeps a coroutine function one, but hides how an instance is called. -/
def isCoroutine (callable : Callable) : Bool :=
  callable.coroutine && (callable.form = .function || callable.bindings.isEmpty)

def typeName (callable : Callable) : String :=
  if callable.bindings.isEmpty then
    match callable.form with
    | .function => "function"
    | .object | .sealedObject => callable.name
  else "partial"

/-- The name a function carries; instances and bound callables carry none. -/
def ownName? (callable : Callable) : Option String :=
  if callable.bindings.isEmpty && callable.form = .function then some callable.name else none

end Callable

inductive PluginKind where
  | sync
  | callback
  | thenable
  deriving DecidableEq, Repr

namespace PluginKind

def label : PluginKind → String
  | sync => "sync"
  | callback => "callback"
  | thenable => "thenable"

end PluginKind

def Callable.declaredKind (callable : Callable) : PluginKind :=
  if callable.expectsCallback then .callback
  else if callable.isCoroutine then .thenable
  else .sync

end Hypertext
