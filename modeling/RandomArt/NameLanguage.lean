import RandomArt.PipelinePresence

/-!
# A language of names

The expression language in which every expression is one name. It stands in for the
expression library where a pipeline has to be run.
-/

namespace RandomArt.Pipeline

inductive NameValue where
  | undefined
  | text (text : String)
  | object (entries : List (String × NameValue))
  | method

mutual

def NameValue.decEq : (a b : NameValue) → Decidable (a = b)
  | .undefined, .undefined => isTrue rfl
  | .method, .method => isTrue rfl
  | .text a, .text b => decidable_of_iff (a = b) (NameValue.text.injEq a b).to_iff.symm
  | .object a, .object b =>
    match NameValue.decEqEntries a b with
    | isTrue h => isTrue (congrArg _ h)
    | isFalse h => isFalse fun heq => h (NameValue.object.inj heq)
  | .undefined, .method | .undefined, .text _ | .undefined, .object _ => isFalse nofun
  | .method, .undefined | .method, .text _ | .method, .object _ => isFalse nofun
  | .text _, .undefined | .text _, .method | .text _, .object _ => isFalse nofun
  | .object _, .undefined | .object _, .method | .object _, .text _ => isFalse nofun

def NameValue.decEqEntries : (a b : List (String × NameValue)) → Decidable (a = b)
  | [], [] => isTrue rfl
  | [], _ :: _ => isFalse nofun
  | _ :: _, [] => isFalse nofun
  | (key, a) :: as, (key', b) :: bs =>
    match (inferInstance : Decidable (key = key')), NameValue.decEq a b,
      NameValue.decEqEntries as bs with
    | isTrue hkey, isTrue hvalue, isTrue hrest => isTrue (by rw [hkey, hvalue, hrest])
    | isFalse h, _, _ => isFalse fun heq => h (by cases heq; rfl)
    | _, isFalse h, _ => isFalse fun heq => h (by cases heq; rfl)
    | _, _, isFalse h => isFalse fun heq => h (by cases heq; rfl)

end

instance : DecidableEq NameValue := NameValue.decEq

/-- What a plain object has from its prototype. -/
def prototypeNames : List String :=
  ["constructor", "hasOwnProperty", "isPrototypeOf", "propertyIsEnumerable", "toLocaleString",
    "toString", "valueOf", "__defineGetter__", "__defineSetter__", "__lookupGetter__",
    "__lookupSetter__", "__proto__"]

def inheritedName (name : String) : Option NameValue :=
  if name ∈ prototypeNames then some .method else none

def NameValue.lookup (key : String) : NameValue → Option NameValue
  | .object entries => (entries.lookup key).or (inheritedName key)
  | .method => inheritedName key
  | _ => none

/-- Every text evaluates to what stands under it in the context. -/
def nameLanguage : Interpreter NameValue String where
  undefined := .undefined
  string := .text
  object := .object
  ownEntries
    | .object entries => entries
    | _ => []
  inherited := inheritedName
  propertyIn key
    | .undefined | .text _ => .error "TypeError"
    | value => .ok (value.lookup key).isSome
  property value key := (value.lookup key).getD .undefined
  compile
    | .text name => .ok (some fun ctx =>
        .ok (((ctx name).or (inheritedName name)).getD .undefined))
    | _ => .ok none
  notAFunction := "TypeError"

def nameRoots : NameValue → Set String
  | .text name => {name}
  | _ => ∅

/-- The method that returns what its selector finds. -/
def firstOf (selector : SelectorPath) : RuntimeContextualMethod NameValue String :=
  ⟨fun args => .ok (args.headD .undefined), [selector]⟩

theorem evaluate_nameLanguage (name : String) (ctx : Context NameValue) :
    evaluate nameLanguage (.text name) ctx =
      .ok (some ((find nameLanguage ctx name).getD .undefined)) := rfl

theorem nameLanguage_local : Local nameLanguage nameRoots := by
  intro text ctx ctx' h
  cases text with
  | text name => rw [evaluate_nameLanguage, evaluate_nameLanguage, h name rfl]
  | _ => rfl

end RandomArt.Pipeline
